import SymbolIndex.Proofs.Engine.Acceptance

/-!
# Who is admitted

A submission is gone through part by part. A malformed part is refused, and so is one that
has a file of a part that was admitted before it; every other part is admitted, and from
then on its files are taken. A part that is refused takes nothing, so that its files are
free for the parts after it.
-/

namespace SymbolIndex
namespace Engine

/-!
# Verdicts
-/

/-- What becomes of each part of a submission, in its order. -/
def verdicts (claimed : Table FileId PartId) :
    Engine -> List Part -> List (Except Failure PreparedPart)
  | _, [] => []
  | e, part :: rest =>
      match e.prepareOne claimed part with
      | (.error failure, e) => .error failure :: verdicts claimed e rest
      | (.ok prepared, e) => .ok prepared :: verdicts (claim claimed prepared) e rest

/-- The parts that are admitted. -/
def admitted : List (Except Failure PreparedPart) -> List PreparedPart
  | [] => []
  | .ok prepared :: rest => prepared :: admitted rest
  | .error _ :: rest => admitted rest

/-- Why the other parts are refused. -/
def refusals : List (Except Failure PreparedPart) -> List Failure
  | [] => []
  | .ok _ :: rest => refusals rest
  | .error failure :: rest => failure :: refusals rest

theorem prepare_eq (claimed : Table FileId PartId) (e : Engine) (parts : List Part) :
    (prepare claimed e parts).1 =
      (admitted (verdicts claimed e parts), refusals (verdicts claimed e parts)) := by
  induction parts generalizing claimed e with
  | nil => rfl
  | cons part rest ih =>
      rw [prepare, verdicts]
      rcases e.prepareOne claimed part with ⟨failure | prepared, e'⟩
      · simp only [ih, admitted, refusals]
      · simp only [ih, admitted, refusals]

theorem length_verdicts (claimed : Table FileId PartId) (e : Engine) (parts : List Part) :
    (verdicts claimed e parts).length = parts.length := by
  induction parts generalizing claimed e with
  | nil => rfl
  | cons part rest ih =>
      rw [verdicts]
      rcases e.prepareOne claimed part with ⟨failure | prepared, e'⟩
      · exact congrArg (· + 1) (ih claimed e')
      · exact congrArg (· + 1) (ih (claim claimed prepared) e')

/-!
# What is wrong with a part by itself
-/

/-- A blank id, a path that is empty or relative, or a macro with a blank name. -/
def Malformed (part : Part) : Prop :=
  Text.allBlank part.id.name = true ∨
    (exists p, p ∈ part.files ∧ (p.isEmpty = true ∨ p.isRelative = true)) ∨
    exists m, m ∈ part.macros ∧ Text.allBlank m.name = true

theorem problem?_eq_none_iff (part : Part) : part.problem? = none ↔ ¬ Malformed part := by
  have hfiles : (exists p, p ∈ part.files ∧ (p.isEmpty = true ∨ p.isRelative = true)) ↔
      part.files.any Path.isEmpty = true ∨ (part.files.find? Path.isRelative).isSome = true := by
    simp only [List.any_eq_true, List.find?_isSome, ← exists_or, ← and_or_left]
  rw [Malformed, hfiles, ← List.any_eq_true, Part.problem?]
  cases Text.allBlank part.id.name with
  | true => simp
  | false =>
      cases part.files.any Path.isEmpty with
      | true => simp
      | false =>
          cases part.files.find? Path.isRelative with
          | some p => simp
          | none => simp

/-!
# What is wrong with a part after others
-/

/-- The id that a path has. -/
def idOf? (e : Engine) (p : Path) : Option FileId := e.book.find? e.storage.store p

/-- The file of a path is one of a part that was admitted earlier. -/
def TakenBy (e : Engine) (earlier : List PreparedPart) (p : Path) (first : PreparedPart) : Prop :=
  first ∈ earlier ∧ exists file, e.idOf? p = some file ∧ file ∈ first.files

/-- The first path of a part that an earlier one took, and that part. -/
def FirstTaken (e : Engine) (earlier : List PreparedPart) (part : Part) (p : Path)
    (first : PreparedPart) : Prop :=
  TakenBy e earlier p first ∧ exists before after, part.files = before ++ p :: after ∧
    forall q, q ∈ before -> forall other, ¬ TakenBy e earlier q other

/-- A part with the ids of its own paths, each once and where it comes first. -/
structure Admits (e : Engine) (part : Part) (prepared : PreparedPart) : Prop where
  id : prepared.id = part.id
  arguments : prepared.arguments = part.commandLine
  files : exists ids, List.Forall₂ (fun id p => e.idOf? p = some id) ids part.files ∧
    (forall file, file ∈ prepared.files ↔ file ∈ ids) ∧
    prepared.files.Pairwise fun a b => ids.idxOf a < ids.idxOf b

/-- The verdict on a part that comes after some that were admitted. -/
structure Judges (e : Engine) (earlier : List PreparedPart) (part : Part)
    (verdict : Except Failure PreparedPart) : Prop where
  refused : (exists failure, verdict = .error failure) ↔
    Malformed part ∨ exists p first, p ∈ part.files ∧ TakenBy e earlier p first
  malformed : Malformed part -> exists reason, part.problem? = some reason ∧
    verdict = .error (.invalidPart part.id.name reason)
  duplicate : ¬ Malformed part -> forall failure, verdict = .error failure ->
    exists p first, FirstTaken e earlier part p first ∧
      failure = .duplicateFile p first.id.name part.id.name
  admitted : forall prepared, verdict = .ok prepared -> Admits e part prepared ∧
    forall other, other ∈ earlier -> other.files.Disjoint prepared.files

/-- Files are claimed for the parts that have them. -/
def Held (claimed : Table FileId PartId) (earlier : List PreparedPart) : Prop :=
  forall file, claimed.get? file =
    (earlier.find? fun part => part.files.contains file).map PreparedPart.id

section Held

variable {claimed : Table FileId PartId} {earlier : List PreparedPart}

theorem held_empty : Held ∅ [] := fun _ => rfl

theorem Held.none_iff (h : Held claimed earlier) (file : FileId) :
    claimed.get? file = none ↔ forall part, part ∈ earlier -> file ∉ part.files := by
  rw [h, Option.map_eq_none_iff, List.find?_eq_none]
  simp only [List.contains_iff_mem]

theorem Held.exists_of_some (h : Held claimed earlier) {file : FileId} {first : PartId}
    (hfirst : claimed.get? file = some first) :
    exists part, part ∈ earlier ∧ file ∈ part.files ∧ part.id = first := by
  rw [h, Option.map_eq_some_iff] at hfirst
  rcases hfirst with ⟨part, hfind, hid⟩
  exact ⟨part, List.mem_of_find?_eq_some hfind, by simpa using List.find?_some hfind, hid⟩

theorem Held.claim (h : Held claimed earlier) {prepared : PreparedPart}
    (hfree : forall file, file ∈ prepared.files -> claimed.get? file = none) :
    Held (claim claimed prepared) (earlier ++ [prepared]) := by
  intro file
  rw [get?_claim, List.find?_append, Option.map_or, ← h file]
  by_cases hfile : file ∈ prepared.files
  · simp [hfile, hfree file hfile]
  · simp [hfile]

end Held

/-!
# One part
-/

theorem conflict?_eq_some {claimed : Table FileId PartId} {files : List (FileId × Path)} {p : Path}
    {first : PartId} (h : conflict? claimed files = some (p, first)) :
    exists before file after, files = before ++ (file, p) :: after ∧
      claimed.get? file = some first ∧ forall f, f ∈ before -> claimed.get? f.1 = none := by
  induction files with
  | nil => cases h
  | cons f rest ih =>
      rcases f with ⟨file, q⟩
      rw [conflict?] at h
      cases hclaimed : claimed.get? file with
      | some owner =>
          rw [hclaimed] at h
          cases h
          exact ⟨[], file, rest, rfl, hclaimed, fun _ hf => absurd hf List.not_mem_nil⟩
      | none =>
          rw [hclaimed] at h
          rcases ih h with ⟨before, file', after, rfl, hfirst, hbefore⟩
          refine ⟨(file, q) :: before, file', after, rfl, hfirst, ?_⟩
          intro f hf
          rcases List.mem_cons.mp hf with rfl | hrest
          · exact hclaimed
          · exact hbefore f hrest

section Step

variable {e e' : Engine} {claimed : Table FileId PartId} {earlier : List PreparedPart}

theorem Agrees.idOf?_internAll (h : e.Agrees) (h' : e'.Agrees) (ps : List Path)
    (hgrown : PathBook.Grown (e.internAll ps).2.storage.store e'.storage.store) :
    List.Forall₂ (fun id p => e'.idOf? p = some id) (e.internAll ps).1 ps :=
  (h.internAll ps).2.2.imp fun _ _ hsource =>
    h'.book.find?_eq_some (hgrown.sources _ _ hsource)

theorem Held.not_takenBy (hheld : Held claimed earlier) {p : Path} {file : FileId}
    (hid : e.idOf? p = some file) (hfree : claimed.get? file = none) (first : PreparedPart) :
    ¬ TakenBy e earlier p first := by
  rintro ⟨hfirst, file', hid', hfile⟩
  rw [hid] at hid'
  cases hid'
  exact (hheld.none_iff file).mp hfree first hfirst hfile

theorem admits_of_ids {part : Part} {ids : List FileId}
    (hids : List.Forall₂ (fun id p => e.idOf? p = some id) ids part.files) :
    Admits e part ⟨part.id, part.commandLine, ids.eraseDups⟩ where
  id := rfl
  arguments := rfl
  files := ⟨ids, hids, fun _ => List.mem_eraseDups, pairwise_idxOf_eraseDups ids⟩

theorem judges_malformed {part : Part} {reason : String} (h : part.problem? = some reason) :
    Judges e earlier part (.error (.invalidPart part.id.name reason)) := by
  have hmalformed : Malformed part := by
    by_contra hnot
    rw [← problem?_eq_none_iff, h] at hnot
    cases hnot
  exact
    { refused := ⟨fun _ => Or.inl hmalformed, fun _ => ⟨_, rfl⟩⟩
      malformed := fun _ => ⟨reason, h, rfl⟩
      duplicate := fun hnot => absurd hmalformed hnot
      admitted := fun _ hok => nomatch hok }

theorem judges_duplicate {part : Part} (hvalid : ¬ Malformed part) {p : Path}
    {first : PreparedPart} (htaken : FirstTaken e earlier part p first) :
    Judges e earlier part (.error (.duplicateFile p first.id.name part.id.name)) where
  refused := by
    rcases htaken with ⟨hp, before, after, hsplit, -⟩
    have hmem : p ∈ part.files := by simp [hsplit]
    exact ⟨fun _ => Or.inr ⟨p, first, hmem, hp⟩, fun _ => ⟨_, rfl⟩⟩
  malformed := fun hmalformed => absurd hmalformed hvalid
  duplicate := by
    intro _ failure hfailure
    cases hfailure
    exact ⟨p, first, htaken, rfl⟩
  admitted := fun _ hok => nomatch hok

theorem judges_admitted {part : Part} (hvalid : ¬ Malformed part) {prepared : PreparedPart}
    (hadmits : Admits e part prepared)
    (hfree : forall p, p ∈ part.files -> forall first, ¬ TakenBy e earlier p first) :
    Judges e earlier part (.ok prepared) where
  refused := by
    constructor
    · rintro ⟨failure, herror⟩
      cases herror
    · rintro (hmalformed | ⟨p, first, hp, htaken⟩)
      · exact absurd hmalformed hvalid
      · exact absurd htaken (hfree p hp first)
  malformed := fun hmalformed => absurd hmalformed hvalid
  duplicate := fun _ _ herror => nomatch herror
  admitted := by
    intro prepared' hok
    cases hok
    refine ⟨hadmits, ?_⟩
    intro other hother file hfile hfile'
    rcases hadmits.files with ⟨ids, hids, hmem, -⟩
    rcases List.getElem_of_mem ((hmem file).mp hfile') with ⟨n, hn, rfl⟩
    rcases List.forall₂_iff_get.mp hids with ⟨hlength, hget⟩
    have hn' : n < part.files.length := by rw [← hlength]; exact hn
    exact hfree _ (List.getElem_mem hn') other ⟨hother, _, hget n hn hn', hfile⟩

theorem Held.firstTaken (hheld : Held claimed earlier) {part : Part} {ids : List FileId}
    (hids : List.Forall₂ (fun id p => e.idOf? p = some id) ids part.files) {p : Path}
    {owner : PartId} (hconflict : conflict? claimed (ids.zip part.files) = some (p, owner)) :
    exists first, FirstTaken e earlier part p first ∧ first.id = owner := by
  rcases conflict?_eq_some hconflict with ⟨before, file, after, hsplit, howner, hbefore⟩
  rcases hheld.exists_of_some howner with ⟨first, hfirst, hfile, hid⟩
  have hknown : forall f, f ∈ before ++ (file, p) :: after -> e.idOf? f.2 = some f.1 := by
    intro f hf
    rw [← hsplit] at hf
    exact (List.forall₂_iff_zip.mp hids).2 hf
  have hfiles : part.files = before.map Prod.snd ++ p :: after.map Prod.snd := by
    rw [← List.map_snd_zip (Nat.le_of_eq hids.length_eq.symm), hsplit, List.map_append,
      List.map_cons]
  have htaken : TakenBy e earlier p first := ⟨hfirst, file, hknown (file, p) (by simp), hfile⟩
  refine ⟨first, ⟨htaken, _, _, hfiles, ?_⟩, hid⟩
  intro q hq
  rcases List.mem_map.mp hq with ⟨f, hf, rfl⟩
  exact hheld.not_takenBy (hknown f (List.mem_append_left _ hf)) (hbefore f hf)

theorem Held.judges (hheld : Held claimed earlier) (h : e.Agrees) (h' : e'.Agrees) (part : Part)
    (hgrown : PathBook.Grown (e.prepareOne claimed part).2.storage.store e'.storage.store) :
    Judges e' earlier part (e.prepareOne claimed part).1 := by
  unfold Engine.prepareOne at hgrown ⊢
  cases hproblem : part.problem? with
  | some reason => exact judges_malformed hproblem
  | none =>
      have hvalid := (problem?_eq_none_iff part).mp hproblem
      rw [hproblem] at hgrown
      dsimp only at hgrown ⊢
      cases hconflict : conflict? claimed ((e.internAll part.files).1.zip part.files) with
      | some conflict =>
          rw [hconflict] at hgrown
          have hids := h.idOf?_internAll h' part.files hgrown
          rcases hheld.firstTaken hids hconflict with ⟨first, htaken, hid⟩
          have hjudges := judges_duplicate hvalid htaken
          rw [hid] at hjudges
          exact hjudges
      | none =>
          rw [hconflict] at hgrown
          have hids := h.idOf?_internAll h' part.files hgrown
          refine judges_admitted hvalid (admits_of_ids hids) ?_
          intro p hp first
          rw [← List.map_snd_zip (Nat.le_of_eq hids.length_eq.symm)] at hp
          rcases List.mem_map.mp hp with ⟨f, hf, rfl⟩
          exact hheld.not_takenBy ((List.forall₂_iff_zip.mp hids).2 hf)
            ((conflict?_eq_none_iff _ _).mp hconflict f hf) first

end Step

/-!
# A whole submission
-/

section Run

variable {e e' : Engine} {claimed : Table FileId PartId} {earlier : List PreparedPart}

/-- Each part is judged after those before it that were admitted. -/
theorem Held.judges_verdicts (hheld : Held claimed earlier) (h : e.Agrees) {parts : List Part}
    {n : Nat} {part : Part} (hpart : parts[n]? = some part) :
    exists verdict, (verdicts claimed e parts)[n]? = some verdict ∧
      Judges (prepare claimed e parts).2
        (earlier ++ admitted ((verdicts claimed e parts).take n)) part verdict := by
  induction parts generalizing n e claimed earlier with
  | nil => cases hpart
  | cons first rest ih =>
      rcases h.prepareOne claimed first with ⟨hone, -, hok⟩
      have hjudges (e' : Engine) (h' : e'.Agrees)
          (hgrown : PathBook.Grown (e.prepareOne claimed first).2.storage.store e'.storage.store) :
          Judges e' earlier first (e.prepareOne claimed first).1 :=
        hheld.judges h h' first hgrown
      rw [verdicts, prepare]
      rcases hresult : e.prepareOne claimed first with ⟨failure | prepared, e''⟩
      · rw [hresult] at hone hjudges
        rcases hone.prepare claimed rest with ⟨hafter, hinterned, -⟩
        cases n with
        | zero =>
            cases hpart
            refine ⟨_, rfl, ?_⟩
            rw [List.take_zero, admitted, List.append_nil]
            exact hjudges _ hafter hinterned.grown
        | succ n => exact ih hheld hone hpart
      · rw [hresult] at hone hok hjudges
        have hfree := (hok prepared rfl).2
        rcases hone.prepare (Engine.claim claimed prepared) rest with ⟨hafter, hinterned, -⟩
        cases n with
        | zero =>
            cases hpart
            refine ⟨_, rfl, ?_⟩
            rw [List.take_zero, admitted, List.append_nil]
            exact hjudges _ hafter hinterned.grown
        | succ n =>
            rcases ih (hheld.claim hfree) hone hpart with ⟨verdict, hverdict, hjudged⟩
            rw [List.append_assoc] at hjudged
            exact ⟨verdict, hverdict, hjudged⟩

end Run

end Engine

namespace World

open Engine

variable {s : Surroundings} {w : World}

/--
A submission, whatever came before it, is gone through in its order. A part is refused
exactly if it is malformed, or one of its files is one of a part that was admitted before
it; in the latter case the failure names the first such path and the part that has its
file. What a refused part has is free for the parts after it. Failures are reported in the
order of the parts. The parts that are admitted have no file in common, and each lists the
ids of its own paths, once each and in the order in which they come first.
-/
theorem parts_are_admitted_first_come (hw : w.Reachable s) (parts : List Part) :
    let e := w.engine
    let accepted := (prepare ∅ e parts).1.1
    let rejected := (prepare ∅ e parts).1.2
    let known := (prepare ∅ e parts).2
    let judged := verdicts ∅ e parts
    judged.length = parts.length ∧
    accepted = admitted judged ∧ rejected = refusals judged ∧
    (updateParts (s.environment w.disk) e parts).1.rejected = rejected ∧
    (forall n part, parts[n]? = some part -> exists verdict, judged[n]? = some verdict ∧
      let earlier := admitted (judged.take n)
      -- when a part is refused
      ((exists failure, verdict = .error failure) ↔
        Malformed part ∨ exists p first, p ∈ part.files ∧ TakenBy known earlier p first) ∧
      -- why it is refused
      (Malformed part -> exists reason, part.problem? = some reason ∧
        verdict = .error (.invalidPart part.id.name reason)) ∧
      (¬ Malformed part -> forall failure, verdict = .error failure ->
        exists p first, FirstTaken known earlier part p first ∧
          failure = .duplicateFile p first.id.name part.id.name) ∧
      -- how it is admitted
      (forall prepared, verdict = .ok prepared -> Admits known part prepared ∧
        forall other, other ∈ earlier -> other.files.Disjoint prepared.files)) ∧
    accepted.Pairwise (fun a b => a.files.Disjoint b.files) ∧
    forall prepared, prepared ∈ accepted -> prepared.files.Nodup := by
  have h := hw.agrees
  rcases h.prepare ∅ parts with ⟨hagrees, -, hpassed, -⟩
  have hreport := (hagrees.report_applyParts (s.environment w.disk) hpassed.sourced).2
  refine ⟨length_verdicts ∅ _ parts, congrArg Prod.fst (prepare_eq ∅ _ parts),
    congrArg Prod.snd (prepare_eq ∅ _ parts), ?_, ?_, hpassed.disjoint, ?_⟩
  · exact (congrArg _ hreport).trans (List.append_nil _)
  · intro n part hpart
    rcases held_empty.judges_verdicts h hpart with ⟨verdict, hverdict, hjudged⟩
    exact ⟨verdict, hverdict, hjudged.refused, hjudged.malformed, hjudged.duplicate,
      hjudged.admitted⟩
  · intro prepared hprepared
    rcases hpassed.prepares prepared hprepared with ⟨part, -, hprepares⟩
    exact hprepares.nodup

/-- A part of `/w/b` and of a file that another part has. -/
def bothFiles : Part := ⟨⟨"lib"⟩, [.ofString "/w/b", .ofString "/w/a"], [], [], []⟩

def threeParts : List Part := [partWith [], bothFiles, otherHalf]

/-- The part is refused for `/w/a`, and its other file goes to the part after it. -/
theorem files_of_refused_are_free :
    (updateParts (lastArgument.environment twoFileDisk) (fresh twoFileDisk 1).engine
        threeParts).1.rejected = [.duplicateFile (.ofString "/w/a") "app" "lib"] ∧
      Admits (prepare ∅ (fresh twoFileDisk 1).engine threeParts).2 otherHalf
        ⟨⟨"app"⟩, [], [⟨2⟩]⟩ := by
  have hreachable : (fresh twoFileDisk 1).Reachable lastArgument := ⟨twoFileDisk, 1, [], rfl⟩
  have h := parts_are_admitted_first_come hreachable threeParts
  refine ⟨h.2.2.2.1.trans (by decide +kernel), ?_⟩
  rcases h.2.2.2.2.1 2 otherHalf rfl with ⟨verdict, hverdict, hlaws⟩
  have hlast : (verdicts ∅ (fresh twoFileDisk 1).engine threeParts)[2]? =
      some (.ok ⟨⟨"app"⟩, [], [⟨2⟩]⟩) := by
    decide +kernel
  exact (hlaws.2.2.2 _ (Option.some.inj (hverdict.symm.trans hlast))).1

end World
end SymbolIndex
