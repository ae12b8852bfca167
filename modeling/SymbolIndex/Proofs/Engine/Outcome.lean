import SymbolIndex.Proofs.Engine.Acceptance
import SymbolIndex.Proofs.Engine.Quiescence

/-!
# What a submission comes to

What is stored after a submission can be told from what was stored before and from which
parts are accepted. The stored parts are those of before and the accepted ones. A file is a
member because an accepted part has one of its paths, or because it was one and no accepted
part has it; and a stored part of which none is accepted keeps its members of this kind
with their records. Submitted to an engine that does nothing else, the parts leave it in a
state in which its own steps let no file go.
-/

namespace SymbolIndex
namespace Engine

/-!
# Parts that are applied
-/

section Apply

variable {env : Environment} {e e' : Engine} {part : PreparedPart}
  {accepted rest : List PreparedPart} {file : FileId} {id : PartId}

/-- While parts are still to come, nothing runs, and nothing was announced of their files. -/
structure Foreseen (rest : List PreparedPart) (e : Engine) : Prop where
  jobs : e.scheduler.jobs = []
  separate : rest.Pairwise fun a b => forall file, file ∈ a.files -> file ∉ b.files
  announced : forall change, change ∈ e.watcher.outbox -> exists files, change = .removed files ∧
    forall file, file ∈ files ->
      (e.isOwned file = true -> e.watcher.isUnwatchable file = true) ∧
        forall part, part ∈ rest -> file ∉ part.files

theorem Applied.isOwned_apart (h : Applied env part e e') (hfile : file ∉ part.files)
    (howned : e'.isOwned file = true) : file ∉ e.departed part ∧ e.isOwned file = true := by
  rcases (Table.contains_iff _ _).mp howned with ⟨owner, howner⟩
  have hbefore := h.owners file
  rw [ownerOf, howner, if_neg hfile] at hbefore
  split at hbefore
  · cases hbefore
  · rename_i hstays
    exact ⟨hstays, (Table.contains_iff _ _).mpr ⟨owner, hbefore.symm⟩⟩

theorem Foreseen.applied (h : Foreseen (part :: rest) e) (happlied : Applied env part e e') :
    Foreseen rest e' := by
  rcases List.pairwise_cons.mp h.separate with ⟨hdisjoint, hrest⟩
  rcases happlied.scheduler with ⟨queue, hscheduler, -⟩
  have hold : forall change, change ∈ e.watcher.outbox -> exists files,
      change = .removed files ∧ forall file, file ∈ files ->
        (e'.isOwned file = true -> e'.watcher.isUnwatchable file = true) ∧
          forall later, later ∈ rest -> file ∉ later.files := by
    intro change hchange
    rcases h.announced change hchange with ⟨files, hremoved, hfiles⟩
    refine ⟨files, hremoved, ?_⟩
    intro file hfile
    rcases hfiles file hfile with ⟨hunwatchable, hcoming⟩
    refine ⟨?_, fun later hlater => hcoming later (List.mem_cons_of_mem _ hlater)⟩
    intro howned
    have hapart := hcoming part List.mem_cons_self
    rcases happlied.isOwned_apart hapart howned with ⟨hstays, hbefore⟩
    rw [happlied.watch hapart hstays]
    exact hunwatchable hbefore
  have hpaths := path?_of_watchable e part.files
  have hsent := Watcher.outbox_add env.backend (e.retire (e.departed part)).watcher hpaths
  rw [watcher_retire, Watcher.outbox_remove, ← watcher_retire, ← happlied.watcher] at hsent
  refine ⟨by rw [hscheduler]; exact h.jobs, hrest, ?_⟩
  intro change hchange
  rcases hsent with hsame | ⟨failed, hfailed, hunwatchable⟩
  · rw [hsame] at hchange
    exact hold change hchange
  · rw [hfailed] at hchange
    rcases List.mem_append.mp hchange with hmem | hlast
    · exact hold change hmem
    · refine ⟨failed, List.mem_singleton.mp hlast, ?_⟩
      intro file hfile
      rcases hunwatchable file hfile with ⟨hmem, hrefused⟩
      exact ⟨fun _howned => hrefused, fun later hlater =>
        hdisjoint later hlater file (map_fst_watchable e part.files hmem)⟩

theorem Agrees.tended_applyParts (h : e.Agrees) (env : Environment)
    (hjobs : e.scheduler.jobs = []) (houtbox : e.watcher.outbox = [])
    (hsources : Sourced e accepted)
    (hdisjoint : accepted.Pairwise fun a b => forall file, file ∈ a.files -> file ∉ b.files) :
    (Engine.applyParts env e accepted).2.Tended := by
  have hstart : Foreseen accepted e := by
    refine ⟨hjobs, hdisjoint, ?_⟩
    rw [houtbox]
    exact fun change hchange => absurd hchange List.not_mem_nil
  have hdone : Foreseen [] (Engine.applyParts env e accepted).2 :=
    h.applyParts_induction (P := fun e' rest => Foreseen rest e') hsources hstart
      fun _ _ _ _hagrees happlied hforeseen => hforeseen.applied happlied
  refine ⟨h.applyParts env hsources, ?_, ?_⟩
  · rw [hdone.jobs]
    exact fun task htask => absurd htask List.not_mem_nil
  · intro change hchange
    rcases hdone.announced change hchange with ⟨files, hremoved, hfiles⟩
    exact ⟨files, hremoved, fun file hfile => (hfiles file hfile).1⟩

theorem Agrees.contains_applyParts (h : e.Agrees) (env : Environment)
    (hsources : Sourced e accepted) (id : PartId) :
    (Engine.applyParts env e accepted).2.storage.store.parts.contains id = true ↔
      (exists part, part ∈ accepted ∧ part.id = id) ∨
        e.storage.store.parts.contains id = true := by
  have hdone : (exists part, part ∈ ([] : List PreparedPart) ∧ part.id = id) ∨
        (Engine.applyParts env e accepted).2.storage.store.parts.contains id = true ↔
      (exists part, part ∈ accepted ∧ part.id = id) ∨
        e.storage.store.parts.contains id = true := by
    refine h.applyParts_induction (P := fun e' rest => (exists part, part ∈ rest ∧ part.id = id) ∨
        e'.storage.store.parts.contains id = true ↔
      (exists part, part ∈ accepted ∧ part.id = id) ∨
        e.storage.store.parts.contains id = true) hsources Iff.rfl ?_
    intro e' part rest _hagrees happlied hinvariant
    rw [← hinvariant, Table.contains, Table.contains, happlied.stored]
    by_cases hid : part.id = id
    · simp [hid]
    · simp [hid]
  simpa using hdone

theorem Agrees.stored_applyParts (h : e.Agrees) (env : Environment)
    (hsources : Sourced e accepted) (hids : forall part, part ∈ accepted -> part.id ≠ id) :
    (Engine.applyParts env e accepted).2.storage.store.parts.get? id =
      e.storage.store.parts.get? id := by
  refine (h.applyParts_induction
    (P := fun e' rest => (forall part, part ∈ rest -> part.id ≠ id) ∧
      e'.storage.store.parts.get? id = e.storage.store.parts.get? id)
    hsources ⟨hids, rfl⟩ ?_).2
  rintro e' part rest _hagrees happlied ⟨hrest, hsame⟩
  refine ⟨fun later hlater => hrest later (List.mem_cons_of_mem _ hlater), ?_⟩
  rw [happlied.stored, if_neg (hrest part List.mem_cons_self)]
  exact hsame

/-- A member has joined with its part, or it was one and no part that was applied has it. -/
structure Joining (accepted : List PreparedPart) (e : Engine) (rest : List PreparedPart)
    (e' : Engine) : Prop where
  coming : forall part, part ∈ rest -> part ∈ accepted
  members : forall file id, e'.storage.store.members.get? file = some id ->
    (exists part, part ∈ accepted ∧ part.id = id ∧ file ∈ part.files) ∨
      (e.storage.store.members.get? file = some id ∧
        forall part, part ∈ accepted -> part ∉ rest -> file ∉ part.files)

theorem Joining.applied {before : Engine} (h : Joining accepted before (part :: rest) e)
    (happlied : Applied env part e e') : Joining accepted before rest e' where
  coming := fun later hlater => h.coming later (List.mem_cons_of_mem _ hlater)
  members := by
    intro file id hmember
    rw [happlied.members] at hmember
    split at hmember
    · rename_i hfile
      exact Or.inl ⟨part, h.coming part List.mem_cons_self, Option.some.inj hmember, hfile⟩
    · rename_i hfile
      split at hmember
      · cases hmember
      · rcases h.members file id hmember with hjoined | ⟨hbefore, hnone⟩
        · exact Or.inl hjoined
        · refine Or.inr ⟨hbefore, ?_⟩
          intro other hother hnot
          by_cases hsame : other = part
          · rw [hsame]
            exact hfile
          · exact hnone other hother fun hmem => (List.mem_cons.mp hmem).elim hsame hnot

theorem Agrees.member_of_applyParts (h : e.Agrees) (hsources : Sourced e accepted)
    (hmember : (Engine.applyParts env e accepted).2.storage.store.members.get? file = some id) :
    (exists part, part ∈ accepted ∧ part.id = id ∧ file ∈ part.files) ∨
      (e.storage.store.members.get? file = some id ∧
        forall part, part ∈ accepted -> file ∉ part.files) := by
  have hstart : Joining accepted e accepted e :=
    ⟨fun _ hpart => hpart, fun _ _ hbefore =>
      Or.inr ⟨hbefore, fun part hpart hnot => absurd hpart hnot⟩⟩
  have hdone : Joining accepted e [] (Engine.applyParts env e accepted).2 :=
    h.applyParts_induction (P := fun e' rest => Joining accepted e rest e') hsources hstart
      fun _ _ _ _hagrees happlied hjoining => hjoining.applied happlied
  rcases hdone.members file id hmember with hjoined | ⟨hbefore, hnone⟩
  · exact Or.inl hjoined
  · exact Or.inr ⟨hbefore, fun part hpart => hnone part hpart List.not_mem_nil⟩

end Apply

/-!
# Parts that are submitted
-/

/-- No accepted part has a file under one of its paths. -/
def IsFree (parts : List Part) (s : Store) (file : FileId) : Prop :=
  forall part, part ∈ (sift [] parts).1 -> ¬ IsFileOf s part file

section Submit

variable {env : Environment} {e : Engine} {parts : List Part} {file : FileId} {id : PartId}

theorem storage_updateParts (env : Environment) (e : Engine) (parts : List Part) :
    (Engine.updateParts env e parts).2.storage =
      (Engine.applyParts env (Engine.prepare ∅ e parts).2
        (Engine.prepare ∅ e parts).1.1).2.storage := by
  unfold Engine.updateParts
  dsimp only
  split <;> rfl

theorem ownerOf_updateParts (env : Environment) (e : Engine) (parts : List Part) :
    (Engine.updateParts env e parts).2.ownerOf =
      (Engine.applyParts env (Engine.prepare ∅ e parts).2
        (Engine.prepare ∅ e parts).1.1).2.ownerOf := by
  unfold Engine.updateParts
  dsimp only
  split <;> rfl

theorem Agrees.tended_updateParts (h : e.Agrees) (env : Environment)
    (hjobs : e.scheduler.jobs = []) (houtbox : e.watcher.outbox = []) (parts : List Part) :
    (Engine.updateParts env e parts).2.Tended := by
  rcases h.prepare ∅ parts with ⟨hagrees, hinterned, hpassed, -⟩
  have htended := hagrees.tended_applyParts env (by rw [hinterned.scheduler]; exact hjobs)
    (by rw [hinterned.watcher]; exact houtbox) hpassed.sourced hpassed.disjoint
  unfold Engine.updateParts
  dsimp only
  split
  · exact (htended.dispatch env).2
  · exact htended

theorem Agrees.prepares (h : e.Agrees) (parts : List Part) :
    List.Forall₂ (Prepares (Engine.prepare ∅ e parts).2.storage.store) (sift [] parts).1
      (Engine.prepare ∅ e parts).1.1 :=
  ((claims_empty e.storage.store).prepare h parts).2

theorem Agrees.exists_prepared_iff (h : e.Agrees) (parts : List Part) (id : PartId) :
    (exists prepared, prepared ∈ (Engine.prepare ∅ e parts).1.1 ∧ prepared.id = id) ↔
      exists part, part ∈ (sift [] parts).1 ∧ part.id = id := by
  constructor
  · rintro ⟨prepared, hprepared, hid⟩
    rcases exists_left_of_forall₂ (h.prepares parts) hprepared with ⟨part, hpart, hprepares⟩
    exact ⟨part, hpart, hprepares.id.symm.trans hid⟩
  · rintro ⟨part, hpart, hid⟩
    rcases exists_right_of_forall₂ (h.prepares parts) hpart with ⟨prepared, hprepared, hprepares⟩
    exact ⟨prepared, hprepared, hprepares.id.trans hid⟩

theorem Agrees.mem_prepared_iff (h : e.Agrees) {part : Part} {prepared : PreparedPart}
    (hprepares : Prepares (Engine.prepare ∅ e parts).2.storage.store part prepared) :
    file ∈ prepared.files ↔
      IsFileOf (Engine.updateParts env e parts).2.storage.store part file := by
  rcases h.prepare ∅ parts with ⟨hagrees, -, hpassed, -⟩
  have hsources := hagrees.sources_applyParts env hpassed.sourced
  rw [storage_updateParts]
  exact (hprepares.of_sources_eq hsources).isFileOf_iff
    (by rw [hsources]; exact hagrees.book.distinct) file

theorem Agrees.contains_updateParts (h : e.Agrees) (env : Environment) (parts : List Part)
    (id : PartId) :
    (Engine.updateParts env e parts).2.storage.store.parts.contains id = true ↔
      (exists part, part ∈ (sift [] parts).1 ∧ part.id = id) ∨
        e.storage.store.parts.contains id = true := by
  rcases h.prepare ∅ parts with ⟨hagrees, hinterned, hpassed, -⟩
  rw [storage_updateParts, hagrees.contains_applyParts env hpassed.sourced,
    h.exists_prepared_iff, hinterned.stored]

theorem Agrees.rejected_updateParts (h : e.Agrees) (env : Environment) (parts : List Part) :
    (Engine.updateParts env e parts).1.rejected = (sift [] parts).2 := by
  rcases h.prepare ∅ parts with ⟨hagrees, -, hpassed, -⟩
  have hrefused := ((claims_empty e.storage.store).prepare h parts).1
  have hreport := (hagrees.report_applyParts env hpassed.sourced).2
  show _ ++ _ = _
  rw [hrefused, hreport, List.append_nil]

theorem Agrees.source?_updateParts (h : e.Agrees) (env : Environment) {part : Part}
    (hpart : part ∈ (sift [] parts).1) {p : Path} (hp : p ∈ part.files) :
    exists file, (Engine.updateParts env e parts).2.storage.store.source? file =
      some p.normalize.display := by
  rcases h.prepare ∅ parts with ⟨hagrees, -, hpassed, -⟩
  rcases exists_right_of_forall₂ (h.prepares parts) hpart with ⟨prepared, -, hprepares⟩
  rcases hprepares.files p hp with ⟨file, -, hsource⟩
  refine ⟨file, ?_⟩
  rw [storage_updateParts,
    Store.source?_of_sources_eq (hagrees.sources_applyParts env hpassed.sourced)]
  exact hsource

theorem Agrees.member_of_updateParts (h : e.Agrees)
    (hmember : (Engine.updateParts env e parts).2.storage.store.members.get? file = some id) :
    (exists part, part ∈ (sift [] parts).1 ∧ part.id = id ∧
        IsFileOf (Engine.updateParts env e parts).2.storage.store part file) ∨
      (e.storage.store.members.get? file = some id ∧
        IsFree parts (Engine.updateParts env e parts).2.storage.store file) := by
  rcases h.prepare ∅ parts with ⟨hagrees, hinterned, hpassed, -⟩
  rw [storage_updateParts] at hmember
  rcases hagrees.member_of_applyParts hpassed.sourced hmember with
    ⟨prepared, hprepared, hid, hfile⟩ | ⟨hbefore, hnone⟩
  · rcases exists_left_of_forall₂ (h.prepares parts) hprepared with ⟨part, hpart, hprepares⟩
    exact Or.inl ⟨part, hpart, hprepares.id.symm.trans hid, (h.mem_prepared_iff hprepares).mp hfile⟩
  · rw [hinterned.members] at hbefore
    refine Or.inr ⟨hbefore, ?_⟩
    intro part hpart hfile
    rcases exists_right_of_forall₂ (h.prepares parts) hpart with ⟨prepared, hprepared, hprepares⟩
    exact hnone prepared hprepared ((h.mem_prepared_iff hprepares).mpr hfile)

theorem Agrees.spared_updateParts (h : e.Agrees) (env : Environment)
    (hids : forall part, part ∈ (sift [] parts).1 -> part.id ≠ id) :
    (Engine.updateParts env e parts).2.storage.store.parts.get? id =
        e.storage.store.parts.get? id ∧
      forall file, e.storage.store.members.get? file = some id ->
        IsFree parts (Engine.updateParts env e parts).2.storage.store file ->
        SameAt file e (Engine.applyParts env (Engine.prepare ∅ e parts).2
          (Engine.prepare ∅ e parts).1.1).2 := by
  rcases h.prepare ∅ parts with ⟨hagrees, hinterned, hpassed, -⟩
  have hnone : forall prepared, prepared ∈ (Engine.prepare ∅ e parts).1.1 -> prepared.id ≠ id := by
    intro prepared hprepared hid
    rcases (h.exists_prepared_iff parts id).mp ⟨prepared, hprepared, hid⟩ with ⟨part, hpart, hsame⟩
    exact hids part hpart hsame
  constructor
  · rw [storage_updateParts, hagrees.stored_applyParts env hpassed.sourced hnone,
      hinterned.stored]
  · intro file hmember hfree
    have hsame : SameAt file e (Engine.prepare ∅ e parts).2 := hinterned.sameAt file
    rw [← hinterned.members] at hmember
    refine hsame.trans (hagrees.sameAt_applyParts hpassed.sourced hmember ?_ ?_)
    · intro hmem
      rcases List.mem_map.mp hmem with ⟨prepared, hprepared, hid⟩
      exact hnone prepared hprepared hid
    · intro prepared hprepared hfile
      rcases exists_left_of_forall₂ (h.prepares parts) hprepared with ⟨part, hpart, hprepares⟩
      exact hfree part hpart ((h.mem_prepared_iff hprepares).mp hfile)

end Submit

end Engine
end SymbolIndex
