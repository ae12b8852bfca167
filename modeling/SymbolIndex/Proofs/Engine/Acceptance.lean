import SymbolIndex.Proofs.Engine.Reachability
import SymbolIndex.Proofs.Engine.Resubmission
import SymbolIndex.Proofs.Matching

/-!
# Accepted parts

Which parts of a submission are refused can be told from their paths alone, and a part
that is accepted has its files in the end unless a later part of the same submission that
is accepted, too, bears its id.
-/

namespace SymbolIndex
namespace Engine

/-!
# Who is refused
-/

/-- The part that has a path, among those that passed the checks. -/
def claimant? (passed : List Part) (text : String) : Option PartId :=
  (passed.find? fun part => (texts part).contains text).map Part.id

/-- The first path of a part that a part before it has, with the id of that part. -/
def sharedPath? (passed : List Part) (ps : List Path) : Option (Path × PartId) :=
  ps.findSome? fun p => (claimant? passed p.normalize.display).map fun first => (p, first)

/-- Why a part is refused, given the parts before it that passed. -/
def refusal? (passed : List Part) (part : Part) : Option Failure :=
  match part.problem? with
  | some reason => some (.invalidPart part.id.name reason)
  | none => (sharedPath? passed part.files).map fun (p, first) =>
      .duplicateFile p first.name part.id.name

/-- The parts that are accepted after some that passed, and why the others are refused. -/
def sift (passed : List Part) : List Part -> List Part × List Failure
  | [] => ([], [])
  | part :: rest =>
      match refusal? passed part with
      | some failure =>
          let (accepted, refused) := sift passed rest
          (accepted, failure :: refused)
      | none =>
          let (accepted, refused) := sift (passed ++ [part]) rest
          (part :: accepted, refused)

section Sift

variable {passed : List Part} {part : Part}

theorem exists_of_claimant? {text : String} {first : PartId}
    (h : claimant? passed text = some first) :
    exists part, part ∈ passed ∧ part.id = first ∧ text ∈ texts part := by
  rcases Option.map_eq_some_iff.mp h with ⟨part, hfind, hid⟩
  exact ⟨part, List.mem_of_find?_eq_some hfind, hid, by simpa using List.find?_some hfind⟩

theorem claimant?_append (passed : List Part) (part : Part) (text : String) :
    claimant? (passed ++ [part]) text =
      (claimant? passed text).or (if text ∈ texts part then some part.id else none) := by
  rw [claimant?, claimant?, List.find?_append, Option.map_or]
  by_cases htext : text ∈ texts part
  · simp [htext]
  · simp [htext]

theorem disjoint_of_refusal?_eq_none (h : refusal? passed part = none) {other : Part}
    (hother : other ∈ passed) : (texts other).Disjoint (texts part) := by
  intro text htext hmem
  rcases List.mem_map.mp hmem with ⟨p, hp, rfl⟩
  unfold refusal? at h
  split at h
  · cases h
  · rw [Option.map_eq_none_iff, sharedPath?, List.findSome?_eq_none_iff] at h
    have hnone := h p hp
    rw [Option.map_eq_none_iff, claimant?, Option.map_eq_none_iff, List.find?_eq_none] at hnone
    exact hnone other hother (by simpa using htext)

theorem disjoint_sift (passed parts : List Part) :
    (sift passed parts).1.Pairwise (fun a b => (texts a).Disjoint (texts b)) ∧
      forall other, other ∈ passed -> forall part, part ∈ (sift passed parts).1 ->
        (texts other).Disjoint (texts part) := by
  induction parts generalizing passed with
  | nil => exact ⟨.nil, fun _ _ _ hpart => nomatch hpart⟩
  | cons part rest ih =>
      rw [sift]
      cases hrefusal : refusal? passed part with
      | some failure => exact ih passed
      | none =>
          rcases ih (passed ++ [part]) with ⟨hpairwise, hbefore⟩
          refine ⟨List.pairwise_cons.mpr ⟨?_, hpairwise⟩, ?_⟩
          · exact fun later hlater => hbefore part (by simp) later hlater
          · intro other hother later hlater
            rcases List.mem_cons.mp hlater with rfl | hrest
            · exact disjoint_of_refusal?_eq_none hrefusal hother
            · exact hbefore other (List.mem_append_left _ hother) later hrest

theorem sift_splits (passed parts : List Part) :
    (sift passed parts).1.Sublist parts ∧
      (sift passed parts).1.length + (sift passed parts).2.length = parts.length := by
  induction parts generalizing passed with
  | nil => exact ⟨.slnil, rfl⟩
  | cons part rest ih =>
      rw [sift]
      cases refusal? passed part with
      | some failure =>
          rcases ih passed with ⟨hsublist, hlength⟩
          exact ⟨hsublist.cons part, by simp only [List.length_cons]; omega⟩
      | none =>
          rcases ih (passed ++ [part]) with ⟨hsublist, hlength⟩
          exact ⟨hsublist.cons_cons part, by simp only [List.length_cons]; omega⟩

end Sift

/-- Files are claimed as the parts that passed have their paths. -/
structure Claims (s : Store) (claimed : Table FileId PartId) (passed : List Part) : Prop where
  known : forall part, part ∈ passed -> forall text, text ∈ texts part ->
    exists file, s.source? file = some text
  agreed : forall file text, s.source? file = some text ->
    claimed.get? file = claimant? passed text
  sourced : forall file first, claimed.get? file = some first ->
    exists text, s.source? file = some text

section Claims

variable {s t : Store} {claimed : Table FileId PartId} {passed : List Part} {e : Engine}
  {part : Part}

theorem claims_empty (s : Store) : Claims s ∅ [] where
  known := fun _ hpart => absurd hpart List.not_mem_nil
  agreed := fun _ _ _ => rfl
  sourced := fun _ _ hfirst => nomatch hfirst

theorem Claims.of_grown (h : Claims s claimed passed) (hgrown : PathBook.Grown s t)
    (hnodup : t.sources.Nodup) : Claims t claimed passed where
  known := by
    intro part hpart text htext
    rcases h.known part hpart text htext with ⟨file, hfile⟩
    exact ⟨file, hgrown.sources _ _ hfile⟩
  agreed := by
    intro file text htext
    cases hold : s.source? file with
    | some old =>
        have hsame := hgrown.sources _ _ hold
        rw [htext] at hsame
        cases hsame
        exact h.agreed file text hold
    | none =>
        -- a path that is new is no path of the parts before
        have hfree : claimed.get? file = none := by
          cases hget : claimed.get? file with
          | none => rfl
          | some first =>
              rcases h.sourced file first hget with ⟨old, hsource⟩
              rw [hold] at hsource
              cases hsource
        rw [hfree]
        cases hclaimant : claimant? passed text with
        | none => rfl
        | some first =>
            rcases exists_of_claimant? hclaimant with ⟨part, hpart, -, hmem⟩
            rcases h.known part hpart text hmem with ⟨other, hother⟩
            rw [Store.source?_injective hnodup htext (hgrown.sources _ _ hother), hother] at hold
            cases hold
  sourced := by
    intro file first hfirst
    rcases h.sourced file first hfirst with ⟨text, htext⟩
    exact ⟨text, hgrown.sources _ _ htext⟩

theorem Claims.conflict?_eq (h : Claims s claimed passed) {ids : List FileId} {ps : List Path}
    (hsources : List.Forall₂ (fun id p => s.source? id = some p.normalize.display) ids ps) :
    conflict? claimed (ids.zip ps) = sharedPath? passed ps := by
  induction hsources with
  | nil => rfl
  | cons hsource _ ih =>
      rw [List.zip_cons_cons, conflict?, sharedPath?, List.findSome?_cons, h.agreed _ _ hsource]
      cases claimant? passed _ with
      | some first => rfl
      | none => exact ih

theorem Claims.prepareOne (h : Claims e.storage.store claimed passed) (hagrees : e.Agrees)
    (part : Part) :
    match refusal? passed part with
    | some failure => (e.prepareOne claimed part).1 = .error failure
    | none => exists prepared, (e.prepareOne claimed part).1 = .ok prepared := by
  unfold refusal? Engine.prepareOne
  cases part.problem? with
  | some reason => rfl
  | none =>
      rcases hagrees.internAll part.files with ⟨hafter, hinterned, hsources⟩
      have hclaims := h.of_grown hinterned.grown hafter.book.distinct
      dsimp only
      rw [hclaims.conflict?_eq hsources]
      cases sharedPath? passed part.files with
      | some shared => rfl
      | none => exact ⟨_, rfl⟩

theorem Claims.claim (h : Claims s claimed passed) (hnodup : s.sources.Nodup)
    {prepared : PreparedPart} (hprepares : Prepares s part prepared)
    (hfree : forall file, file ∈ prepared.files -> claimed.get? file = none) :
    Claims s (claim claimed prepared) (passed ++ [part]) where
  known := by
    intro other hother text htext
    rcases List.mem_append.mp hother with hold | hnew
    · exact h.known other hold text htext
    · rw [List.mem_singleton.mp hnew] at htext
      rcases List.mem_map.mp htext with ⟨p, hp, rfl⟩
      rcases hprepares.files p hp with ⟨file, -, hsource⟩
      exact ⟨file, hsource⟩
  agreed := by
    intro file text htext
    have hmem := hprepares.mem_files_iff hnodup htext
    rw [get?_claim, claimant?_append, ← h.agreed file text htext]
    by_cases hfile : file ∈ prepared.files
    · rw [if_pos hfile, hfree file hfile, if_pos (hmem.mp hfile), hprepares.id]
      rfl
    · rw [if_neg hfile, if_neg fun htext => hfile (hmem.mpr htext), Option.or_none]
  sourced := by
    intro file first hfirst
    rw [get?_claim] at hfirst
    split at hfirst
    · rename_i hfile
      rcases hprepares.sources file hfile with ⟨p, -, hsource⟩
      exact ⟨_, hsource⟩
    · exact h.sourced file first hfirst

/-- A submission is gone through as its paths tell. -/
theorem Claims.prepare (h : Claims e.storage.store claimed passed) (hagrees : e.Agrees)
    (parts : List Part) :
    (Engine.prepare claimed e parts).1.2 = (sift passed parts).2 ∧
      List.Forall₂ (Prepares (Engine.prepare claimed e parts).2.storage.store)
        (sift passed parts).1 (Engine.prepare claimed e parts).1.1 := by
  induction parts generalizing e claimed passed with
  | nil => exact ⟨rfl, .nil⟩
  | cons part rest ih =>
      have hverdict := h.prepareOne hagrees part
      rcases hagrees.prepareOne claimed part with ⟨hone, hinterned, hok⟩
      have hclaims := h.of_grown hinterned.grown hone.book.distinct
      rw [Engine.prepare, sift]
      rcases hresult : e.prepareOne claimed part with ⟨failure | prepared, e'⟩
      · rw [hresult] at hverdict hone hclaims
        cases hrefusal : refusal? passed part with
        | none =>
            rw [hrefusal] at hverdict
            rcases hverdict with ⟨prepared, hprepared⟩
            cases hprepared
        | some reason =>
            rw [hrefusal] at hverdict
            cases hverdict
            rcases ih hclaims hone with ⟨hrefused, haccepted⟩
            exact ⟨congrArg (failure :: ·) hrefused, haccepted⟩
      · rw [hresult] at hverdict hone hclaims hok
        cases hrefusal : refusal? passed part with
        | some reason =>
            rw [hrefusal] at hverdict
            cases hverdict
        | none =>
            rcases hok prepared rfl with ⟨hprepares, hfree⟩
            have hmore := hclaims.claim hone.book.distinct hprepares hfree
            rcases ih hmore hone with ⟨hrefused, haccepted⟩
            have hgrown := (hone.prepare (Engine.claim claimed prepared) rest).2.1.grown
            exact ⟨hrefused, .cons (hprepares.of_grown hgrown) haccepted⟩

end Claims

/-!
# What accepted parts have
-/

/-- A file that a part has under one of its paths. -/
def IsFileOf (s : Store) (part : Part) (file : FileId) : Prop :=
  exists text, s.source? file = some text ∧ text ∈ texts part

/-- A part owns exactly its own files, and is stored with them and with its own command line. -/
structure Holds (e : Engine) (part : Part) : Prop where
  found : forall p, p ∈ part.files ->
    exists file, e.book.find? e.storage.store p = some file ∧ e.ownerOf file = some part.id
  owned : forall file, e.ownerOf file = some part.id ↔ IsFileOf e.storage.store part file
  stored : exists stored, e.storage.store.fetchPart part.id = .ok (some stored) ∧
    stored.arguments = part.commandLine ∧ stored.files.Nodup ∧
    forall file, file ∈ stored.files ↔ IsFileOf e.storage.store part file

section Holds

variable {env : Environment} {e e' : Engine} {part other : Part} {prepared : PreparedPart}

theorem Holds.of_same (h : e.Holds part) (hstorage : e'.storage = e.storage)
    (howners : e'.owners = e.owners) (hbook : e'.book = e.book) : e'.Holds part := by
  refine ⟨?_, ?_, ?_⟩
  · rw [hstorage, hbook, show e'.ownerOf = e.ownerOf from congrArg Table.get? howners]
    exact h.found
  · rw [hstorage, show e'.ownerOf = e.ownerOf from congrArg Table.get? howners]
    exact h.owned
  · rw [hstorage]
    exact h.stored

theorem Agrees.ownerOf_iff (h : e.Agrees) {id : PartId} {snapshot : Snapshot}
    (hsnapshot : e.parts.get? id = some snapshot) (file : FileId) :
    e.ownerOf file = some id ↔ e.storage.store.members.get? file = some id := by
  rw [h.owned, ← h.members id snapshot hsnapshot]
  constructor
  · rintro ⟨found, hfound, hfile⟩
    rw [hsnapshot] at hfound
    cases hfound
    exact hfile
  · exact fun hfile => ⟨snapshot, hsnapshot, hfile⟩

theorem Prepares.of_sources_eq {s t : Store} (h : Prepares s part prepared)
    (hsources : t.sources = s.sources) : Prepares t part prepared := by
  have hsource : t.source? = s.source? := funext (Store.source?_of_sources_eq hsources)
  exact ⟨h.id, h.arguments, h.nodup, by rw [hsource]; exact h.files, by rw [hsource]; exact h.sources⟩

theorem Prepares.isFileOf_iff {s : Store} (h : Prepares s part prepared)
    (hnodup : s.sources.Nodup) (file : FileId) : file ∈ prepared.files ↔ IsFileOf s part file := by
  constructor
  · intro hfile
    rcases h.sources file hfile with ⟨p, -, hsource⟩
    exact ⟨_, hsource, (h.mem_files_iff hnodup hsource).mp hfile⟩
  · rintro ⟨text, hsource, htext⟩
    exact (h.mem_files_iff hnodup hsource).mpr htext

theorem nodup_membersOf (s : Store) (id : PartId) : (s.membersOf id).Nodup :=
  (Store.ascending_membersOf s id).nodup

theorem Agrees.holds (h : e.Agrees) (hpart : e.storage.store.HasPart prepared)
    (hprepares : Prepares e.storage.store part prepared) {snapshot : Snapshot}
    (hsnapshot : e.parts.get? part.id = some snapshot) : e.Holds part := by
  have hfile := hprepares.isFileOf_iff h.book.distinct
  have hmember : forall file, e.storage.store.members.get? file = some part.id ↔
      IsFileOf e.storage.store part file := by
    intro file
    rw [← hprepares.id, hpart.members, hfile]
  have howned : forall file, e.ownerOf file = some part.id ↔ IsFileOf e.storage.store part file :=
    fun file => (h.ownerOf_iff hsnapshot file).trans (hmember file)
  refine ⟨?_, howned, ⟨part.id, part.commandLine, e.storage.store.membersOf part.id⟩, ?_, rfl,
    nodup_membersOf _ _, ?_⟩
  · intro p hp
    rcases hprepares.files p hp with ⟨file, hmem, hsource⟩
    exact ⟨file, h.book.find?_eq_some hsource, (howned file).mpr ((hfile file).mp hmem)⟩
  · have harguments := hpart.arguments
    rw [Store.HasArguments, hprepares.id, hprepares.arguments] at harguments
    rw [Store.fetchPart, harguments]
    rfl
  · intro file
    rw [Store.mem_membersOf, hmember]

theorem Holds.congr (h : e.Holds other) (hid : other.id = part.id) (hfiles : other.files = part.files)
    (harguments : other.commandLine = part.commandLine) : e.Holds part := by
  have htexts : IsFileOf e.storage.store other = IsFileOf e.storage.store part := by
    funext file
    rw [IsFileOf, IsFileOf, texts, texts, hfiles]
  refine ⟨?_, ?_, ?_⟩
  · rw [← hfiles, ← hid]
    exact h.found
  · rw [← htexts, ← hid]
    exact h.owned
  · rw [← htexts, ← hid, ← harguments]
    exact h.stored

theorem Holds.alike (h : e.Holds part) (h' : e.Holds other) (hid : other.id = part.id)
    (hdisjoint : (texts part).Disjoint (texts other)) :
    part.files = [] ∧ other.files = [] ∧ other.commandLine = part.commandLine := by
  have hforeign : forall file, IsFileOf e.storage.store part file ->
      ¬ IsFileOf e.storage.store other file := by
    rintro file ⟨text, hsource, htext⟩ ⟨text', hsource', htext'⟩
    rw [hsource] at hsource'
    cases hsource'
    exact hdisjoint htext htext'
  have hsame : forall file, IsFileOf e.storage.store part file ↔
      IsFileOf e.storage.store other file := by
    intro file
    rw [← h.owned, ← h'.owned, hid]
  refine ⟨?_, ?_, ?_⟩
  · apply List.eq_nil_iff_forall_not_mem.mpr
    intro p hp
    rcases h.found p hp with ⟨file, -, howner⟩
    have hfile := (h.owned file).mp howner
    exact hforeign file hfile ((hsame file).mp hfile)
  · apply List.eq_nil_iff_forall_not_mem.mpr
    intro p hp
    rcases h'.found p hp with ⟨file, -, howner⟩
    have hfile := (h'.owned file).mp howner
    exact hforeign file ((hsame file).mpr hfile) hfile
  · rcases h.stored with ⟨stored, hstored, harguments, -⟩
    rcases h'.stored with ⟨stored', hstored', harguments', -⟩
    rw [hid, hstored] at hstored'
    cases hstored'
    exact harguments'.symm.trans harguments

end Holds

/-!
# The last part of an id
-/

section Last

variable {env : Environment} {e : Engine} {accepted before after : List PreparedPart}
  {prepared : PreparedPart}

/-- In memory and in the store, a part is there as it passed the checks. -/
structure Stands (e : Engine) (prepared : PreparedPart) : Prop where
  stored : e.storage.store.HasPart prepared
  remembered : exists snapshot, e.parts.get? prepared.id = some snapshot

theorem Agrees.stands_applyPart (h : e.Agrees) (env : Environment)
    (hsources : forall file, file ∈ prepared.files -> e.storage.store.hasSource file = true) :
    Stands (Engine.applyPart env e prepared).2 prepared := by
  refine ⟨h.hasPart_applyPart env hsources, ?_⟩
  have hsnapshot := (h.applyPart env hsources).2.snapshots prepared.id
  rw [if_pos rfl, Option.map_eq_some_iff] at hsnapshot
  rcases hsnapshot with ⟨snapshot, hsnapshot, -⟩
  exact ⟨snapshot, hsnapshot⟩

theorem Agrees.stands_applyParts (h : e.Agrees) (hsources : Sourced e accepted)
    (hstands : Stands e prepared)
    (hapart : forall other, other ∈ accepted -> other.id ≠ prepared.id ∧
      forall file, file ∈ prepared.files -> file ∉ other.files) :
    Stands (Engine.applyParts env e accepted).2 prepared := by
  refine (h.applyParts_induction (P := fun e' rest => (forall other, other ∈ rest ->
      other.id ≠ prepared.id ∧ forall file, file ∈ prepared.files -> file ∉ other.files) ∧
    Stands e' prepared) hsources ⟨hapart, hstands⟩ ?_).2
  rintro e' other rest hagrees happlied ⟨hrest, hstored, snapshot, hsnapshot⟩
  rcases hrest other List.mem_cons_self with ⟨hid, hfiles⟩
  refine ⟨fun later hlater => hrest later (List.mem_cons_of_mem _ hlater),
    hagrees.hasPart_of_applied hstored happlied (Ne.symm hid) hfiles, ?_⟩
  have hkept := happlied.snapshots prepared.id
  rw [if_neg (Ne.symm hid), hsnapshot, Option.map_some, Option.map_eq_some_iff] at hkept
  rcases hkept with ⟨snapshot', hsnapshot', -⟩
  exact ⟨snapshot', hsnapshot'⟩

theorem Agrees.stands_last (h : e.Agrees) (env : Environment)
    (hsources : Sourced e (before ++ prepared :: after))
    (hdisjoint : (before ++ prepared :: after).Pairwise
      fun a b => forall file, file ∈ a.files -> file ∉ b.files)
    (hlast : forall later, later ∈ after -> later.id ≠ prepared.id) :
    Stands (Engine.applyParts env e (before ++ prepared :: after)).2 prepared := by
  rcases h.applied_between env hsources with ⟨-, hagrees, hrest, happlied⟩
  have hafter := (List.pairwise_cons.mp (List.pairwise_append.mp hdisjoint).2.1).1
  rw [applyParts_append, applyParts_cons]
  exact happlied.agrees.stands_applyParts (hrest.tail happlied.sources)
    (hagrees.stands_applyPart env (hrest prepared List.mem_cons_self))
    fun later hlater => ⟨hlast later hlater, hafter later hlater⟩

end Last

end Engine

namespace World

open Engine

variable {s : Surroundings} {w : World}

/-- An accepted part holds in the end if no part of its id is accepted after it. -/
theorem holds_of_last (h : w.engine.Agrees) (env : Environment) {parts before after : List Part}
    {part : Part} (haccepted : (sift [] parts).1 = before ++ part :: after)
    (hlast : forall later, later ∈ after -> later.id ≠ part.id) :
    (Engine.updateParts env w.engine parts).2.Holds part := by
  rcases (claims_empty w.engine.storage.store).prepare h parts with ⟨-, hprepares⟩
  rcases h.prepare ∅ parts with ⟨hagrees, -, hpassed, -⟩
  rw [haccepted] at hprepares
  rcases exists_of_forall₂_append hprepares with ⟨earlier, rest, hsplit, -, hrest⟩
  rcases List.forall₂_cons_left_iff.mp hrest with ⟨prepared, later, hprepared, hlater, rfl⟩
  have hids : forall other, other ∈ later -> other.id ≠ prepared.id := by
    intro other hother hid
    rcases List.forall₂_iff_get.mp hlater with ⟨hlength, hget⟩
    rcases List.getElem_of_mem hother with ⟨n, hn, rfl⟩
    have hn' : n < after.length := by rw [hlength]; exact hn
    exact hlast _ (List.getElem_mem hn') ((hget n hn' hn).id.symm.trans (hid.trans hprepared.id))
  have hsourced := hpassed.sourced
  have hdisjoint := hpassed.disjoint
  rw [hsplit] at hsourced hdisjoint
  have hstands := hagrees.stands_last env hsourced hdisjoint hids
  have hdone := hagrees.applyParts env hsourced
  have hsources := hagrees.sources_applyParts env hsourced
  rw [← hsplit] at hstands hdone hsources
  rcases hstands.remembered with ⟨snapshot, hsnapshot⟩
  rw [hprepared.id] at hsnapshot
  have hholds := hdone.holds hstands.stored (hprepared.of_sources_eq hsources) hsnapshot
  unfold Engine.updateParts
  dsimp only
  split
  · exact hholds.of_same rfl rfl rfl
  · exact hholds

theorem holds_of_replaced_iff (h : w.engine.Agrees) (env : Environment)
    {parts before between after : List Part} {part last : Part}
    (haccepted : (sift [] parts).1 = before ++ part :: between ++ last :: after)
    (hid : last.id = part.id) (hlast : forall later, later ∈ after -> later.id ≠ part.id) :
    (Engine.updateParts env w.engine parts).2.Holds part ↔
      part.files = [] ∧ last.files = [] ∧ last.commandLine = part.commandLine := by
  have hholds : (Engine.updateParts env w.engine parts).2.Holds last :=
    holds_of_last h env haccepted (by rw [hid]; exact hlast)
  constructor
  · intro hpart
    have hdisjoint := (disjoint_sift [] parts).1
    rw [haccepted, List.append_assoc, List.cons_append] at hdisjoint
    have hlater := (List.pairwise_cons.mp (List.pairwise_append.mp hdisjoint).2.1).1
    exact hpart.alike hholds hid (hlater last (by simp))
  · rintro ⟨hnone, hnone', harguments⟩
    exact hholds.congr hid (hnone'.trans hnone.symm) harguments

/--
Which parts of a submission are refused, and why, is told by their paths. An accepted part
owns exactly its files in the end and is stored with them and its own command line, if it
is the last of its id that is accepted. A part that another one of its id comes after has
given way to that one: it still holds only if both are without files and have the same
command line.
-/
theorem accepted_part_holds_iff (hw : w.Reachable s) (parts : List Part) :
    let (report, e) := Engine.updateParts (s.environment w.disk) w.engine parts
    let (accepted, refused) := sift [] parts
    accepted.Sublist parts ∧ accepted.length + refused.length = parts.length ∧
    report.rejected = refused ∧
    (forall before part after, accepted = before ++ part :: after ->
      (forall later, later ∈ after -> later.id ≠ part.id) -> e.Holds part) ∧
    (forall before part between last after,
      accepted = before ++ part :: between ++ last :: after -> last.id = part.id ->
      (forall later, later ∈ after -> later.id ≠ part.id) ->
        (e.Holds part ↔
          part.files = [] ∧ last.files = [] ∧ last.commandLine = part.commandLine)) := by
  have h := hw.agrees
  refine ⟨(sift_splits [] parts).1, (sift_splits [] parts).2, ?_,
    fun before part after => holds_of_last h _,
    fun before part between last after => holds_of_replaced_iff h _⟩
  rcases (claims_empty w.engine.storage.store).prepare h parts with ⟨hrefused, -⟩
  rcases h.prepare ∅ parts with ⟨hagrees, -, hpassed, -⟩
  have hreport := (hagrees.report_applyParts (s.environment w.disk) hpassed.sourced).2
  rw [hrefused, hreport, List.append_nil]

/-- The part that consists of `/w/b`, under the same id. -/
def otherHalf : Part := ⟨⟨"app"⟩, [.ofString "/w/b"], [], [], []⟩

/-- Of two parts of one id the later one holds. -/
theorem later_of_an_id_holds :
    (Engine.updateParts (lastArgument.environment twoFileDisk) (fresh twoFileDisk 1).engine
      [partWith [], otherHalf]).2.Holds otherHalf := by
  have hreachable : (fresh twoFileDisk 1).Reachable lastArgument := ⟨twoFileDisk, 1, [], rfl⟩
  have h := accepted_part_holds_iff hreachable [partWith [], otherHalf]
  exact h.2.2.2.1 [partWith []] otherHalf [] (by decide +kernel) nofun

/-- The earlier one is not refused; its file is enqueued, and nothing is left of it. -/
theorem earlier_of_an_id_is_lost :
    let done := Engine.updateParts (lastArgument.environment twoFileDisk)
      (fresh twoFileDisk 1).engine [partWith [], otherHalf]
    done.1 = ⟨2, 1, []⟩ ∧
      done.2.book.find? done.2.storage.store (.ofString "/w/a") = some ⟨1⟩ ∧
      done.2.ownerOf ⟨1⟩ = none ∧ ¬ done.2.Holds (partWith []) := by
  intro done
  have hfound : done.2.book.find? done.2.storage.store (.ofString "/w/a") = some ⟨1⟩ := by
    decide +kernel
  have howner : done.2.ownerOf ⟨1⟩ = none := by decide +kernel
  refine ⟨by decide +kernel, hfound, howner, ?_⟩
  intro hholds
  rcases hholds.found (.ofString "/w/a") List.mem_cons_self with ⟨file, hfile, hfile'⟩
  rw [hfound] at hfile
  cases hfile
  rw [howner] at hfile'
  cases hfile'

end World
end SymbolIndex
