import SymbolIndex.Proofs.Engine.Obligation

/-!
# Submitting what is stored already

A submission that finds its parts stored as they are submitted lets no file go and
writes nothing, whether the parts are in memory or were stored by an engine before. If
moreover every file that can be seen and watched is stored as indexed in the state in
which it is, no task is enqueued either. Checking the parts once more gives the same
answers, since every path has its id by now.
-/

namespace SymbolIndex

namespace Store

/-- The store has a part as it is submitted: its arguments, and its files as its members. -/
structure HasPart (s : Store) (part : PreparedPart) : Prop where
  arguments : s.HasArguments part.id part.arguments
  members : forall file, s.members.get? file = some part.id ↔ file ∈ part.files

theorem HasPart.of_same {s t : Store} {part : PreparedPart} (h : s.HasPart part)
    (hparts : t.parts = s.parts) (hmembers : t.members = s.members) : t.HasPart part where
  arguments := by
    rw [HasArguments, hparts]
    exact h.arguments
  members := by
    rw [hmembers]
    exact h.members

end Store

namespace Engine

variable {env : Environment} {e e' : Engine} {part other : PreparedPart}
  {accepted rest : List PreparedPart}

/-!
# Parts that were applied
-/

theorem Agrees.hasPart_applyPart (h : e.Agrees) (env : Environment)
    (hsources : forall file, file ∈ part.files -> e.storage.store.hasSource file = true) :
    (Engine.applyPart env e part).2.storage.store.HasPart part := by
  have happlied := (h.applyPart env hsources).2
  refine ⟨by rw [Store.HasArguments, happlied.stored, if_pos rfl], ?_⟩
  intro file
  rw [happlied.members]
  by_cases hfile : file ∈ part.files
  · simp [hfile]
  · rw [if_neg hfile]
    constructor
    · intro hmember
      split at hmember
      · cases hmember
      · rename_i hstays
        exact absurd ((h.mem_departed file).mpr ⟨hmember, hfile⟩) hstays
    · exact fun hmem => absurd hmem hfile

theorem Agrees.notMem_departed (h : e.Agrees) (hpart : e.storage.store.HasPart part)
    (hid : part.id ≠ other.id) {file : FileId} (hfile : file ∈ part.files) :
    file ∉ e.departed other := by
  intro hgone
  have hmember := ((h.mem_departed file).mp hgone).1
  rw [(hpart.members file).mpr hfile] at hmember
  exact hid (Option.some.inj hmember)

theorem Agrees.hasPart_of_applied (h : e.Agrees) (hpart : e.storage.store.HasPart part)
    (happlied : Applied env other e e') (hid : part.id ≠ other.id)
    (hdisjoint : forall file, file ∈ part.files -> file ∉ other.files) :
    e'.storage.store.HasPart part := by
  constructor
  · rw [Store.HasArguments, happlied.stored, if_neg (Ne.symm hid)]
    exact hpart.arguments
  · intro file
    rw [happlied.members, ← hpart.members]
    by_cases hother : file ∈ other.files
    · have hfile : file ∉ part.files := fun hmem => hdisjoint file hmem hother
      simp only [hother, if_true, hpart.members, hfile, iff_false, Option.some.injEq]
      exact Ne.symm hid
    · rw [if_neg hother]
      split
      · rename_i hgone
        have hmember := ((h.mem_departed file).mp hgone).1
        simp only [hmember, Option.some.injEq, reduceCtorEq, false_iff]
        exact Ne.symm hid
      · rfl

/-!
# Applying what is stored
-/

section Stored

theorem Agrees.departed_eq_nil (h : e.Agrees) (hpart : e.storage.store.HasPart part) :
    e.departed part = [] := by
  apply List.eq_nil_iff_forall_not_mem.mpr
  intro file hgone
  rcases (h.mem_departed file).mp hgone with ⟨hmember, hfile⟩
  exact hfile ((hpart.members file).mp hmember)

theorem Agrees.argumentsChanged_eq_false (h : e.Agrees) (hpart : e.storage.store.HasPart part) :
    e.argumentsChanged part = false := by
  by_contra hchanged
  exact h.argumentsChanged_iff.mp (by simpa using hchanged) hpart.arguments

theorem Agrees.sameFiles_known (h : e.Agrees) (hpart : e.storage.store.HasPart part) :
    sameFiles (((e.known part.id).map Snapshot.files).getD []) part.files = true := by
  rw [sameFiles_iff]
  intro file
  rw [h.mem_known_files, hpart.members]

theorem Agrees.applyPart_of_hasPart (h : e.Agrees) (env : Environment)
    (hsources : forall file, file ∈ part.files -> e.storage.store.hasSource file = true)
    (hpart : e.storage.store.HasPart part) :
    (Engine.applyPart env e part).1 = .ok ((tasksOf env e part).length, 0) ∧
      (Engine.applyPart env e part).2.storage = e.storage ∧
      (Engine.applyPart env e part).2.watcher =
        e.watcher.add env.backend (e.watchable part.files) ∧
      (tasksOf env e part = [] -> (Engine.applyPart env e part).2.scheduler = e.scheduler) := by
  have hgone := h.departed_eq_nil hpart
  rcases h.applyPart env hsources with ⟨hok, happlied⟩
  rcases h.applyPart_eq env hsources with ⟨owning, hstore, hadopted, hagrees, hequation⟩
  have hwatcher := happlied.watcher
  rw [hgone] at hok hwatcher hstore
  rw [h.argumentsChanged_eq_false hpart, h.sameFiles_known hpart] at hstore
  refine ⟨hok, ?_⟩
  -- the part is in the store already, so that only memory may have to learn of it
  rcases foldl_takeOver_spec h.listedByOwner part.id part.files with ⟨parts, htake, -⟩
  have howning : owning = { e with parts } := (Except.ok.inj hstore).symm.trans htake
  rcases hagrees.enqueueDue env (e.argumentsChanged part) (fun _ => hadopted.taskFor?) with
    ⟨tasks, htasks, -, hscheduler, -, hstorage, -⟩
  have hsame : tasksOf env e part = tasks := by rw [tasksOf, hequation, htasks]
  refine ⟨?_, hwatcher, ?_⟩
  · rw [hequation]
    dsimp only
    rw [hstorage, howning]
    rfl
  · intro hnone
    rw [hequation]
    dsimp only
    rw [hscheduler, ← hsame, hnone, howning]
    rfl

theorem Agrees.applyParts_of_hasPart (h : e.Agrees) (env : Environment)
    (hsources : Sourced e accepted)
    (hparts : forall part, part ∈ accepted -> e.storage.store.HasPart part) :
    (Engine.applyParts env e accepted).1 = ⟨(submissionTasks env e accepted).length, 0, []⟩ ∧
      (Engine.applyParts env e accepted).2.storage = e.storage ∧
      (submissionTasks env e accepted = [] ->
        (Engine.applyParts env e accepted).2.scheduler = e.scheduler) := by
  induction accepted generalizing e with
  | nil => exact ⟨rfl, rfl, fun _ => rfl⟩
  | cons part rest ih =>
      have hown := hsources part List.mem_cons_self
      have happlied := (h.applyPart env hown).2
      rcases h.applyPart_of_hasPart env hown (hparts part List.mem_cons_self) with
        ⟨hok, hstorage, -, hidle⟩
      have hrest : forall other, other ∈ rest ->
          (Engine.applyPart env e part).2.storage.store.HasPart other := by
        rw [hstorage]
        exact fun other hother => hparts other (List.mem_cons_of_mem _ hother)
      rcases ih happlied.agrees (hsources.tail happlied.sources) hrest with
        ⟨hreport, hstorage', hidle'⟩
      rw [applyParts_cons]
      refine ⟨?_, hstorage'.trans hstorage, ?_⟩
      · rw [Engine.applyParts, submissionTasks, List.length_append]
        rcases hresult : Engine.applyPart env e part with ⟨outcome, e'⟩
        rw [hresult] at hok hreport
        dsimp only at hok hreport
        rw [hok]
        dsimp only
        rw [hreport]
        simp only [Nat.zero_add]
      · intro hnone
        rcases List.append_eq_nil_iff.mp hnone with ⟨hfirst, hlater⟩
        exact (hidle' hlater).trans (hidle hfirst)

theorem Agrees.submissionTasks_eq_nil (h : e.Agrees) (env : Environment)
    (hsources : Sourced e accepted) (hids : (accepted.map PreparedPart.id).Nodup)
    (hdisjoint : accepted.Pairwise fun a b => forall file, file ∈ a.files -> file ∉ b.files)
    (hparts : forall part, part ∈ accepted -> e.storage.store.HasPart part)
    (hindexed : forall part, part ∈ accepted -> forall file, file ∈ part.files ->
      (Engine.applyParts env e accepted).2.watcher.isUnwatchable file = false ->
      forall status, currentStatus? env e file = some status ->
        e.storage.store.IsIndexed file part.id status) :
    submissionTasks env e accepted = [] := by
  apply List.eq_nil_iff_forall_not_mem.mpr
  intro task htask
  rcases task_of_mem_submissionTasks htask with ⟨part, hpart, file, hfile, rfl⟩
  rcases List.append_of_mem hpart with ⟨before, after, rfl⟩
  have hid : part.id ∉ (before ++ after).map PreparedPart.id := by
    rw [List.map_append, List.map_cons] at hids
    rw [List.map_append]
    exact (List.nodup_middle.mp hids).notMem
  rcases (h.mem_submissionTasks_iff env hsources hdisjoint hid hfile).1.mp htask with
    ⟨hwatchable, status, hstatus, harguments | hstale⟩
  · exact harguments (hparts part hpart).arguments
  · exact hstale (hindexed part hpart file hfile hwatchable status hstatus)

end Stored

/-!
# Checking once more
-/

theorem Agrees.prepareOne_again (h : e.Agrees) (h' : e'.Agrees) (claimed : Table FileId PartId)
    (part : Part)
    (hsources : forall id text,
      (e.prepareOne claimed part).2.storage.store.source? id = some text ->
        e'.storage.store.source? id = some text) :
    (e'.prepareOne claimed part).1 = (e.prepareOne claimed part).1 ∧
      (e'.prepareOne claimed part).2.storage = e'.storage := by
  revert hsources
  unfold Engine.prepareOne
  cases part.problem? with
  | some reason => exact fun _ => ⟨rfl, rfl⟩
  | none =>
      have hinterned := (h.internAll part.files).2.2
      intro hsources
      have hsame : forall id text,
          (e.internAll part.files).2.storage.store.source? id = some text ->
            e'.storage.store.source? id = some text := by
        intro id text hsource
        apply hsources id text
        dsimp only
        split <;> exact hsource
      rcases h'.book.internAll_of_source? (hinterned.imp fun id p hid => hsame id _ hid) with
        ⟨hids, hstore⟩
      have hfiles : (e'.internAll part.files).1 = (e.internAll part.files).1 := hids
      have hstorage : (e'.internAll part.files).2.storage = e'.storage := by
        show { e'.storage with store := (e'.book.internAll e'.storage.store part.files).2.2 } = _
        rw [hstore]
      dsimp only
      rw [hfiles]
      split
      · exact ⟨rfl, hstorage⟩
      · exact ⟨rfl, hstorage⟩

/-- The same parts pass the checks, and nothing is stored, where all paths have their ids. -/
theorem Agrees.prepare_again (h : e.Agrees) (h' : e'.Agrees) (claimed : Table FileId PartId)
    (parts : List Part)
    (hsources : forall id text,
      (Engine.prepare claimed e parts).2.storage.store.source? id = some text ->
        e'.storage.store.source? id = some text) :
    (Engine.prepare claimed e' parts).1 = (Engine.prepare claimed e parts).1 ∧
      (Engine.prepare claimed e' parts).2.storage = e'.storage := by
  induction parts generalizing e e' claimed with
  | nil => exact ⟨rfl, rfl⟩
  | cons part rest ih =>
      have hone := (h.prepareOne claimed part).1
      have hone' := (h'.prepareOne claimed part).1
      have hagain := h.prepareOne_again h' claimed part
      revert hsources
      rw [Engine.prepare, Engine.prepare]
      rcases hresult : e.prepareOne claimed part with ⟨outcome, checked⟩
      rcases hresult' : e'.prepareOne claimed part with ⟨outcome', checked'⟩
      rw [hresult] at hone hagain
      rw [hresult'] at hone' hagain
      dsimp only at hone hone' hagain ⊢
      -- what the first engine stored for the rest of the parts it kept for this one
      have hrest : forall claimed',
          (forall id text, (Engine.prepare claimed' checked rest).2.storage.store.source? id =
            some text -> e'.storage.store.source? id = some text) ->
          outcome' = outcome ∧ checked'.storage = e'.storage ∧
            (Engine.prepare claimed' checked' rest).1 = (Engine.prepare claimed' checked rest).1 ∧
            (Engine.prepare claimed' checked' rest).2.storage = checked'.storage := by
        intro claimed' hsources
        have hgrown := (hone.prepare claimed' rest).2.1.grown
        rcases hagain fun id text hsource =>
          hsources id text (hgrown.sources id text hsource) with ⟨hsame, hstorage⟩
        refine ⟨hsame, hstorage, ih hone hone' claimed' ?_⟩
        rw [hstorage]
        exact hsources
      cases outcome with
      | error failure =>
          intro hsources
          rcases hrest claimed hsources with ⟨rfl, hstorage, hchecks, hstorage'⟩
          exact ⟨congrArg (fun checks => (checks.1, failure :: checks.2)) hchecks,
            hstorage'.trans hstorage⟩
      | ok prepared =>
          intro hsources
          rcases hrest (claim claimed prepared) hsources with ⟨rfl, hstorage, hchecks, hstorage'⟩
          exact ⟨congrArg (fun checks => (prepared :: checks.1, checks.2)) hchecks,
            hstorage'.trans hstorage⟩

/-- The book has the paths of all parts that are well formed. -/
def Knows (e : Engine) (parts : List Part) : Prop :=
  forall part, part ∈ parts -> part.problem? = none ->
    forall p, p ∈ part.files -> e.book.ids.contains p.normalize = true

theorem Knows.of_extends {parts : List Part} (h : e.Knows parts)
    (hextends : e.book.Extends e'.book) : e'.Knows parts :=
  fun part hpart hproblem p hp => hextends _ (h part hpart hproblem p hp)

theorem extends_prepareOne (e : Engine) (claimed : Table FileId PartId) (part : Part) :
    e.book.Extends (e.prepareOne claimed part).2.book := by
  unfold prepareOne
  split
  · exact PathBook.Extends.refl e.book
  · have hextends := PathBook.extends_internAll e.book e.storage.store part.files
    dsimp only
    split
    · exact hextends
    · exact hextends

theorem knows_prepareOne (e : Engine) (claimed : Table FileId PartId) (part : Part) :
    (e.prepareOne claimed part).2.Knows [part] := by
  intro found hfound hproblem p hp
  rw [List.mem_singleton.mp hfound] at hproblem hp
  have hcontains := PathBook.contains_internAll e.book e.storage.store hp
  unfold prepareOne
  rw [hproblem]
  dsimp only
  split
  · exact hcontains
  · exact hcontains

theorem knows_prepare (e : Engine) (claimed : Table FileId PartId) (parts : List Part) :
    e.book.Extends (prepare claimed e parts).2.book ∧ (prepare claimed e parts).2.Knows parts := by
  induction parts generalizing e claimed with
  | nil => exact ⟨PathBook.Extends.refl e.book, fun part hpart => absurd hpart List.not_mem_nil⟩
  | cons part rest ih =>
      have hextends := extends_prepareOne e claimed part
      have hknows := knows_prepareOne e claimed part
      have hrest : forall claimed',
          e.book.Extends (prepare claimed' (e.prepareOne claimed part).2 rest).2.book ∧
            (prepare claimed' (e.prepareOne claimed part).2 rest).2.Knows (part :: rest) := by
        intro claimed'
        rcases ih (e.prepareOne claimed part).2 claimed' with ⟨hlater, hknown⟩
        refine ⟨hextends.trans hlater, ?_⟩
        intro found hfound
        rcases List.mem_cons.mp hfound with rfl | hmem
        · exact hknows.of_extends hlater found List.mem_cons_self
        · exact hknown found hmem
      rw [prepare]
      rcases hresult : e.prepareOne claimed part with ⟨failure | prepared, checked⟩
      · rw [hresult] at hrest
        exact hrest claimed
      · rw [hresult] at hrest
        exact hrest (claim claimed prepared)

theorem prepare_of_knows {parts : List Part} (h : e.Knows parts) (claimed : Table FileId PartId) :
    (prepare claimed e parts).2 = e := by
  induction parts generalizing claimed with
  | nil => rfl
  | cons part rest ih =>
      have hone : (e.prepareOne claimed part).2 = e := by
        unfold prepareOne
        cases hproblem : part.problem? with
        | some reason => rfl
        | none =>
            have hinterned : (e.internAll part.files).2 = e := by
              show { e with book := (e.book.internAll e.storage.store part.files).2.1 }.withStore
                (e.book.internAll e.storage.store part.files).2.2 = e
              rw [PathBook.internAll_of_contains (h part List.mem_cons_self hproblem)]
              rfl
            dsimp only
            split
            · exact hinterned
            · exact hinterned
      have hrest : forall claimed, (prepare claimed e rest).2 = e :=
        ih (fun found hfound => h found (List.mem_cons_of_mem _ hfound))
      rw [prepare]
      rcases hresult : e.prepareOne claimed part with ⟨failure | prepared, checked⟩
      · rw [hresult] at hone
        subst hone
        exact hrest claimed
      · rw [hresult] at hone
        subst hone
        exact hrest (claim claimed prepared)

end Engine
end SymbolIndex
