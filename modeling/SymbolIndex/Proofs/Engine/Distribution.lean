import SymbolIndex.Proofs.Engine.Attention
import SymbolIndex.Proofs.Engine.Obligation

/-!
# How parts share out files

Parts without common files are applied one after the other. A file that one of them has
belongs to that part in the end, and what is stored about it stays if it was stored for
that part; a file that only left its part is forgotten, and all other files are as they
were. Of the part that a file leaves and the one that it joins either may come first.
-/

namespace SymbolIndex
namespace Engine

variable {env : Environment} {e e' e'' : Engine} {accepted before after : List PreparedPart}
  {part : PreparedPart} {file : FileId}

/-- Parts with ids of their own and files of their own. -/
structure Unrelated (accepted : List PreparedPart) : Prop where
  ids : (accepted.map PreparedPart.id).Nodup
  disjoint : accepted.Pairwise fun a b => forall file, file ∈ a.files -> file ∉ b.files
  files : forall part, part ∈ accepted -> part.files.Nodup

namespace Unrelated

variable (h : Unrelated (before ++ part :: after))

include h

theorem id_notMem_before : part.id ∉ before.map PreparedPart.id := by
  have hids := h.ids
  rw [List.map_append, List.map_cons, List.nodup_append] at hids
  exact fun hmem => hids.2.2 part.id hmem part.id List.mem_cons_self rfl

theorem id_notMem_after : part.id ∉ after.map PreparedPart.id := by
  have hids := h.ids
  rw [List.map_append, List.map_cons, List.nodup_append] at hids
  exact (List.nodup_cons.mp hids.2.1).1

theorem notMem_before (hfile : file ∈ part.files) {other : PreparedPart} (hother : other ∈ before) :
    file ∉ other.files := fun hmem =>
  (List.pairwise_append.mp h.disjoint).2.2 other hother part List.mem_cons_self file hmem hfile

theorem notMem_after (hfile : file ∈ part.files) {other : PreparedPart} (hother : other ∈ after) :
    file ∉ other.files :=
  (List.pairwise_cons.mp (List.pairwise_append.mp h.disjoint).2.1).1 other hother file hfile

end Unrelated

/-!
# Files that stay as they are
-/

/-- Nothing happened to a file, and it is watched as before. -/
structure Untouched (file : FileId) (e e' : Engine) : Prop extends SameAt file e e' where
  place : e'.watcher.place? file = e.watcher.place? file

theorem Untouched.refl (file : FileId) (e : Engine) : Untouched file e e :=
  ⟨SameAt.refl file e, rfl⟩

theorem Untouched.trans (h : Untouched file e e') (h' : Untouched file e' e'') :
    Untouched file e e'' :=
  ⟨h.toSameAt.trans h'.toSameAt, h'.place.trans h.place⟩

theorem Applied.untouched (happlied : Applied env part e e') (h : e.Agrees)
    (hfile : file ∉ part.files) (hstays : file ∉ e.departed part) : Untouched file e e' where
  toSameAt := happlied.sameAt h hfile hstays
  place := by
    have hadded : file ∉ (e.watchable part.files).map Prod.fst :=
      fun hmem => hfile (map_fst_watchable _ _ hmem)
    rw [Watcher.place?, Watcher.place?, happlied.watcher,
      Watcher.get?_byId_add_of_notMem _ _ hadded, watcher_retire, Watcher.get?_byId_remove,
      if_neg hstays]

theorem Agrees.untouched_applyParts (h : e.Agrees) (hsources : Sourced e accepted)
    (hids : forall id, e.storage.store.members.get? file = some id ->
      id ∉ accepted.map PreparedPart.id)
    (hfiles : forall part, part ∈ accepted -> file ∉ part.files) :
    Untouched file e (Engine.applyParts env e accepted).2 :=
  h.applyParts_apart hsources hids hfiles (Untouched.refl file) (fun _ _ _ => Untouched.trans)
    (fun _ _ _ hagrees happlied => happlied.untouched hagrees)

/-!
# Files that only left their part
-/

/-- Nothing is known of a file. -/
structure Forgotten (file : FileId) (e : Engine) : Prop where
  owner : e.ownerOf file = none
  member : e.storage.store.members.get? file = none
  status : e.storage.store.statuses.get? file = none
  place : e.watcher.place? file = none
  watchable : e.watcher.isUnwatchable file = false
  queued : e.scheduler.queue.get? file = none

theorem Untouched.forgotten (h : Untouched file e e') (hbefore : Forgotten file e) :
    Forgotten file e' where
  owner := h.owner.trans hbefore.owner
  member := h.member.trans hbefore.member
  status := h.status.trans hbefore.status
  place := h.place.trans hbefore.place
  watchable := h.watch.trans hbefore.watchable
  queued := h.queued.trans hbefore.queued

theorem Applied.forgotten (happlied : Applied env part e e') (hgone : file ∈ e.departed part)
    (hfile : file ∉ part.files) : Forgotten file e' where
  owner := by rw [happlied.owners, if_neg hfile, if_pos hgone]
  member := by rw [happlied.members, if_neg hfile, if_pos hgone]
  status := by rw [happlied.statuses, if_pos hgone]
  place := by
    have hadded : file ∉ (e.watchable part.files).map Prod.fst :=
      fun hmem => hfile (map_fst_watchable _ _ hmem)
    rw [Watcher.place?, happlied.watcher,
      Watcher.get?_byId_add_of_notMem _ _ hadded, watcher_retire, Watcher.get?_byId_remove,
      if_pos hgone]
    rfl
  watchable := by
    have hadded : file ∉ (e.watchable part.files).map Prod.fst :=
      fun hmem => hfile (map_fst_watchable _ _ hmem)
    rw [happlied.watcher, Watcher.isUnwatchable_add _ _ _ hadded, watcher_retire]
    exact Watcher.isUnwatchable_remove_of_mem _ hgone
  queued := by rw [happlied.queued, if_neg (notMem_tasksOf hfile), if_pos hgone]

theorem Agrees.forgotten_applyParts (h : e.Agrees)
    (hsources : Sourced e (before ++ part :: after))
    (hunrelated : Unrelated (before ++ part :: after))
    (hmember : e.storage.store.members.get? file = some part.id)
    (hfiles : forall other, other ∈ before ++ part :: after -> file ∉ other.files) :
    Forgotten file (Engine.applyParts env e (before ++ part :: after)).2 := by
  have hearlier := fun other hother => hfiles other (List.mem_append_left (part :: after) hother)
  have hlater := fun other hother => hfiles other (List.mem_append_right before hother)
  rcases h.applied_between env hsources with ⟨hsourced, hagrees, hrest, happlied⟩
  have hbefore : Untouched file e (Engine.applyParts env e before).2 := by
    refine h.untouched_applyParts hsourced ?_ hearlier
    intro id hid
    rw [hmember] at hid
    cases hid
    exact hunrelated.id_notMem_before
  have hfile := hlater part List.mem_cons_self
  have hgone : file ∈ (Engine.applyParts env e before).2.departed part :=
    (hagrees.mem_departed file).mpr ⟨hbefore.member.trans hmember, hfile⟩
  have hforgotten := happlied.forgotten hgone hfile
  rw [applyParts_append, applyParts_cons]
  refine (happlied.agrees.untouched_applyParts (hrest.tail happlied.sources) ?_ ?_).forgotten
    hforgotten
  · intro id hid
    rw [hforgotten.member] at hid
    cases hid
  · exact fun other hother => hlater other (List.mem_cons_of_mem _ hother)

/-!
# Files that a part has
-/

/-- A file belongs to a part, and what was stored about it for that part is still there. -/
structure Claimed (id : PartId) (file : FileId) (e e' : Engine) : Prop where
  owner : e'.ownerOf file = some id
  member : e'.storage.store.members.get? file = some id
  status : forall row, e'.storage.store.statuses.get? file = some row ↔
    e.storage.store.statuses.get? file = some row ∧ row.part = id
  records : forall row, e'.storage.store.statuses.get? file = some row ->
    e'.storage.store.recordsAt file = e.storage.store.recordsAt file

theorem Claimed.untouched {id : PartId} (h : Claimed id file e e')
    (huntouched : Untouched file e' e'') : Claimed id file e e'' where
  owner := huntouched.owner.trans h.owner
  member := huntouched.member.trans h.member
  status := by
    rw [huntouched.status]
    exact h.status
  records := by
    rw [huntouched.status, huntouched.records]
    exact h.records

theorem Applied.claimed (happlied : Applied env part e e') (h : e.Agrees)
    (hfile : file ∈ part.files) : Claimed part.id file e e' where
  owner := by rw [happlied.owners, if_pos hfile]
  member := by rw [happlied.members, if_pos hfile]
  status := by
    intro row
    have hstays : file ∉ e.departed part := fun hgone => ((h.mem_departed file).mp hgone).2 hfile
    rw [happlied.statuses, if_neg hstays, Option.filter_eq_some_iff]
    simp [Store.takesAway, hfile]
  records := fun _ hrow => (happlied.row_of_row hrow).2

theorem Applied.untouched_applyParts (happlied : Applied env part e e') (hfile : file ∈ part.files)
    (hsources : Sourced e' after) (hunrelated : Unrelated (before ++ part :: after)) :
    Untouched file e' (Engine.applyParts env e' after).2 := by
  refine happlied.agrees.untouched_applyParts hsources ?_ (fun _ => hunrelated.notMem_after hfile)
  intro id hid
  rw [happlied.members, if_pos hfile] at hid
  cases hid
  exact hunrelated.id_notMem_after

theorem Agrees.row_of_row_applyParts (h : e.Agrees) (hsources : Sourced e accepted)
    {row : StatusRow}
    (hrow : (Engine.applyParts env e accepted).2.storage.store.statuses.get? file = some row) :
    e.storage.store.statuses.get? file = some row ∧
      (Engine.applyParts env e accepted).2.storage.store.recordsAt file =
        e.storage.store.recordsAt file := by
  refine h.applyParts_induction (P := fun e' _ =>
    e'.storage.store.statuses.get? file = some row ->
      e.storage.store.statuses.get? file = some row ∧
        e'.storage.store.recordsAt file = e.storage.store.recordsAt file)
    hsources (fun hrow => ⟨hrow, rfl⟩) ?_ hrow
  intro e' other rest _hagrees happlied hbefore hrow
  rcases happlied.row_of_row hrow with ⟨hold, hrecords⟩
  rcases hbefore hold with ⟨hfirst, hfirst'⟩
  exact ⟨hfirst, hrecords.trans hfirst'⟩

theorem Agrees.claimed_applyParts (h : e.Agrees)
    (hsources : Sourced e (before ++ part :: after))
    (hunrelated : Unrelated (before ++ part :: after))
    (hfile : file ∈ part.files) :
    Claimed part.id file e (Engine.applyParts env e (before ++ part :: after)).2 := by
  rcases h.applied_between env hsources with ⟨hsourced, hagrees, hrest, happlied⟩
  have hclaimed := happlied.claimed hagrees hfile
  -- what is stored for the part itself is left alone by the parts before it
  have hown : forall row, e.storage.store.statuses.get? file = some row -> row.part = part.id ->
      Untouched file e (Engine.applyParts env e before).2 := by
    intro row hrow hpart
    refine h.untouched_applyParts hsourced ?_ (fun _ => hunrelated.notMem_before hfile)
    intro id hid
    rw [h.store.tracked file row hrow, hpart] at hid
    cases hid
    exact hunrelated.id_notMem_before
  have hjoined : Claimed part.id file e
      (Engine.applyPart env (Engine.applyParts env e before).2 part).2 := by
    refine ⟨hclaimed.owner, hclaimed.member, ?_, ?_⟩
    · intro row
      rw [hclaimed.status row]
      constructor
      · exact fun hboth => ⟨(h.row_of_row_applyParts hsourced hboth.1).1, hboth.2⟩
      · rintro ⟨hrow, hpart⟩
        exact ⟨(hown row hrow hpart).status.trans hrow, hpart⟩
    · intro row hrow
      have hbefore := ((hclaimed.status row).mp hrow).1
      exact (hclaimed.records row hrow).trans (h.row_of_row_applyParts hsourced hbefore).2
  rw [applyParts_append, applyParts_cons]
  exact hjoined.untouched
    (happlied.untouched_applyParts hfile (hrest.tail happlied.sources) hunrelated)

/-!
# What is stored of the parts
-/

theorem Agrees.stored_of_notMem (h : e.Agrees) (hsources : Sourced e accepted) {id : PartId}
    (hid : id ∉ accepted.map PreparedPart.id) :
    (Engine.applyParts env e accepted).2.storage.store.parts.get? id =
      e.storage.store.parts.get? id := by
  refine (h.applyParts_induction (P := fun e' rest => id ∉ rest.map PreparedPart.id ∧
    e'.storage.store.parts.get? id = e.storage.store.parts.get? id) hsources ⟨hid, rfl⟩ ?_).2
  rintro e' part rest - happlied ⟨hid, hsame⟩
  rw [List.map_cons, List.mem_cons, not_or] at hid
  exact ⟨hid.2, by rw [happlied.stored, if_neg (Ne.symm hid.1), hsame]⟩

theorem Agrees.stored_of_mem (h : e.Agrees) (hsources : Sourced e accepted)
    (hunrelated : Unrelated accepted) (hpart : part ∈ accepted) :
    (Engine.applyParts env e accepted).2.storage.store.parts.get? part.id =
      some (.written part.arguments) := by
  rcases List.append_of_mem hpart with ⟨before, after, rfl⟩
  rcases h.applied_between env hsources with ⟨-, -, hrest, happlied⟩
  rw [applyParts_append, applyParts_cons,
    happlied.agrees.stored_of_notMem (hrest.tail happlied.sources) hunrelated.id_notMem_after,
    happlied.stored, if_pos rfl]

/-!
# What is watched
-/

theorem Agrees.frame_applyParts (h : e.Agrees) (env : Environment) (hsources : Sourced e accepted) :
    (forall id, (Engine.applyParts env e accepted).2.path? id = e.path? id) ∧
      (Engine.applyParts env e accepted).2.overlay = e.overlay :=
  h.applyParts_induction
    (P := fun e' _ => (forall id, e'.path? id = e.path? id) ∧ e'.overlay = e.overlay) hsources
    ⟨fun _ => rfl, rfl⟩ (fun _ _ _ _ happlied hsame =>
      ⟨fun id => (happlied.paths id).trans (hsame.1 id), happlied.overlay.trans hsame.2⟩)

/--
A file does not become unwatchable that is generated, or that is in a directory which can be
watched.
-/
theorem Agrees.isUnwatchable_applyParts_eq_false (h : e.Agrees) (hsources : Sourced e accepted)
    (hwatchable : e.watcher.isUnwatchable file = false)
    (haccepts : forall p, e.path? file = some p -> e.overlay.contains p = false ->
      forall calls, env.backend.accepts calls (Watcher.directoryOf p) = true) :
    (Engine.applyParts env e accepted).2.watcher.isUnwatchable file = false := by
  refine (h.applyParts_induction (P := fun e' _ => e'.path? file = e.path? file ∧
    e'.overlay = e.overlay ∧ e'.watcher.isUnwatchable file = false) hsources
    ⟨rfl, rfl, hwatchable⟩ ?_).2.2
  rintro e' other rest - happlied ⟨hpath, hoverlay, hbefore⟩
  refine ⟨(happlied.paths file).trans hpath, happlied.overlay.trans hoverlay, ?_⟩
  rw [happlied.watcher, watcher_retire]
  apply Watcher.isUnwatchable_add_eq_false (Watcher.isUnwatchable_remove_eq_false hbefore _)
  intro f hf hid
  rcases mem_watchable.mp hf with ⟨-, hp, hcontents⟩
  rw [hid, hpath] at hp
  rw [hoverlay] at hcontents
  exact haccepts f.2 hp hcontents

theorem Attends.place?_of_contents (h : e.Attends) {p : Path} (hp : e.path? file = some p)
    (hcontents : e.overlay.contains p = true) : e.watcher.place? file = none := by
  rw [Watcher.place?, Option.map_eq_none_iff]
  cases hq : e.watcher.byId.get? file with
  | none => rfl
  | some q =>
      rw [h.watcher.paths file q hq] at hp
      cases hp
      rw [Overlay.contains_congr _ (Path.normalize_normalize q),
        h.watcher.bare file q hq] at hcontents
      cases hcontents

theorem Attends.place?_applyParts (h : e.Attends)
    (hsources : Sourced e (before ++ part :: after))
    (hunrelated : Unrelated (before ++ part :: after))
    (hfile : file ∈ part.files) {p : Path} (hp : e.path? file = some p)
    (hwatchable : (Engine.applyParts env e (before ++ part :: after)).2.watcher.isUnwatchable file =
      false) :
    (Engine.applyParts env e (before ++ part :: after)).2.watcher.place? file =
      if e.overlay.contains p then none else some p.components := by
  rcases h.agrees.frame_applyParts env hsources with ⟨hpaths, hoverlay⟩
  have hdone := h.applyParts env hsources
  cases hcontents : e.overlay.contains p with
  | true =>
      rw [if_pos rfl]
      exact hdone.place?_of_contents ((hpaths file).trans hp) (by rw [hoverlay]; exact hcontents)
  | false =>
      rw [if_neg Bool.false_ne_true]
      -- it is watched once its part was applied, and the parts after it leave it alone
      rcases h.agrees.applied_between env hsources with ⟨hsourced, -, hrest, happlied⟩
      rcases h.agrees.frame_applyParts env hsourced with ⟨hpaths', hoverlay'⟩
      have huntouched :=
        happlied.untouched_applyParts hfile (hrest.tail happlied.sources) hunrelated
      rw [applyParts_append, applyParts_cons] at hwatchable ⊢
      rw [huntouched.watch] at hwatchable
      exact huntouched.place.trans (happlied.place? hfile ((hpaths' file).trans hp)
        (by rw [hoverlay']; exact hcontents) hwatchable)

/-!
# What is queued
-/

theorem Agrees.mem_submissionTasks_of_queued (h : e.Agrees) (hsources : Sourced e accepted)
    {task : Task}
    (hqueued : (Engine.applyParts env e accepted).2.scheduler.queue.get? file = some task) :
    task ∈ submissionTasks env e accepted ∨ e.scheduler.queue.get? file = some task := by
  induction accepted generalizing e with
  | nil => exact Or.inr hqueued
  | cons part rest ih =>
      have happlied := (h.applyPart env (hsources part List.mem_cons_self)).2
      rw [applyParts_cons] at hqueued
      rw [submissionTasks, List.mem_append]
      rcases ih happlied.agrees (hsources.tail happlied.sources) hqueued with hlater | hfirst
      · exact Or.inl (Or.inr hlater)
      · rw [happlied.queued] at hfirst
        split at hfirst
        · rename_i hmem
          rcases List.mem_map.mp hmem with ⟨found, hfound, rfl⟩
          cases hfirst
          rw [← (mem_tasksOf.mp hfound).1]
          exact Or.inl (Or.inl hfound)
        · split at hfirst
          · cases hfirst
          · exact Or.inr hfirst

theorem Agrees.queued_of_mem_submissionTasks (h : e.Agrees) (hsources : Sourced e accepted)
    (hunrelated : Unrelated accepted) {task : Task}
    (htask : task ∈ submissionTasks env e accepted) :
    (Engine.applyParts env e accepted).2.scheduler.queue.get? task.file = some task := by
  rcases task_of_mem_submissionTasks htask with ⟨part, hpart, file, hfile, rfl⟩
  rcases List.append_of_mem hpart with ⟨before, after, rfl⟩
  refine (h.mem_submissionTasks_iff env hsources hunrelated.disjoint ?_ hfile).2 htask
  rw [List.map_append, List.mem_append, not_or]
  exact ⟨hunrelated.id_notMem_before, hunrelated.id_notMem_after⟩

theorem nodup_submissionTasks (hunrelated : Unrelated accepted) :
    ((submissionTasks env e accepted).map Task.file).Nodup := by
  rcases hunrelated with ⟨-, hdisjoint, hfiles⟩
  induction accepted generalizing e with
  | nil => exact List.nodup_nil
  | cons part rest ih =>
      rcases List.pairwise_cons.mp hdisjoint with ⟨hfirst, hrest⟩
      rw [submissionTasks, List.map_append, List.nodup_append]
      refine ⟨?_, ih hrest (fun other hother => hfiles other (List.mem_cons_of_mem _ hother)), ?_⟩
      · rw [tasksOf, List.map_map, show Task.file ∘ part.task = id from rfl, List.map_id]
        exact (hfiles part List.mem_cons_self).filter _
      · rintro file hmem other hother rfl
        rcases List.mem_map.mp hmem with ⟨task, htask, rfl⟩
        rcases List.mem_map.mp hother with ⟨later, hlater, hsame⟩
        rcases file_of_mem_submissionTasks hlater with ⟨other, hother, hfile⟩
        rw [hsame] at hfile
        exact hfirst other hother task.file (mem_tasksOf.mp htask).2.1 hfile

theorem Agrees.perm_toList_applyParts (h : e.Agrees) (env : Environment)
    (hsources : Sourced e accepted)
    (hidle : forall file, e.scheduler.queue.get? file = none) (hunrelated : Unrelated accepted) :
    (submissionTasks env e accepted).Perm
      (Engine.applyParts env e accepted).2.scheduler.queue.toList := by
  have hsound := (h.applyParts env hsources).queue
  refine (List.perm_ext_iff_of_nodup (List.Nodup.of_map _ (nodup_submissionTasks hunrelated))
    (List.Nodup.of_map Task.file ?_)).mpr ?_
  · rw [hsound.map_file_toList]
    exact hsound.nodup
  · intro task
    rw [hsound.mem_toList_iff]
    constructor
    · exact fun htask => h.queued_of_mem_submissionTasks hsources hunrelated htask
    · intro hqueued
      rcases h.mem_submissionTasks_of_queued hsources hqueued with htask | hold
      · exact htask
      · rw [hidle] at hold
        cases hold

end Engine
end SymbolIndex
