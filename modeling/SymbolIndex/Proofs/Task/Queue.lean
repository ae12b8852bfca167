import Mathlib.Data.List.Nodup
import SymbolIndex.Proofs.Table
import SymbolIndex.Task.Queue

/-!
# What a queue holds

A queue is known by the task that is pending for each file. Adding tasks puts the newest
one of each file in, taking one takes it out, and nothing else changes.
-/

namespace SymbolIndex
namespace TaskQueue

/-- The order lists every pending file once, and every task is kept under its own file. -/
structure Sound (q : TaskQueue) : Prop where
  nodup : q.order.Nodup
  listed : forall file, file ∈ q.order ↔ q.contains file = true
  keyed : forall file task, q.get? file = some task -> task.file = file

theorem sound_empty : empty.Sound where
  nodup := List.nodup_nil
  listed := by
    intro file
    simp [empty, contains, Table.contains]
  keyed := by
    intro file task h
    cases h

@[simp] theorem get?_empty (file : FileId) : empty.get? file = none := rfl

theorem contains_iff (q : TaskQueue) (file : FileId) :
    q.contains file = true ↔ exists task, q.get? file = some task :=
  Table.contains_iff q.tasks file

theorem isEmpty_iff (q : TaskQueue) : q.isEmpty = true ↔ forall file, q.get? file = none :=
  Table.isEmpty_iff q.tasks

/-!
# Adding tasks
-/

theorem get?_push (q : TaskQueue) (task : Task) (file : FileId) :
    (q.push task).get? file = if task.file = file then some task else q.get? file :=
  Table.get?_insert q.tasks task.file file task

theorem Sound.push {q : TaskQueue} (h : q.Sound) (task : Task) : (q.push task).Sound where
  nodup := by
    unfold TaskQueue.push
    cases hcontains : q.contains task.file with
    | true => simpa using h.nodup
    | false =>
        have hfresh : task.file ∉ q.order := by
          rw [h.listed, hcontains]
          exact Bool.false_ne_true
        simpa using List.nodup_append.mpr ⟨h.nodup, List.nodup_singleton _,
          fun file hfile last hlast heq => hfresh (by
            rw [← List.mem_singleton.mp hlast, ← heq]
            exact hfile)⟩
  listed := by
    intro file
    rw [contains_iff]
    simp only [get?_push]
    by_cases hfile : task.file = file
    · subst hfile
      simp only [if_true, TaskQueue.push]
      cases hcontains : q.contains task.file with
      | true => simpa using (h.listed task.file).mpr hcontains
      | false => simp
    · have hlisted := h.listed file
      rw [contains_iff] at hlisted
      simp only [if_neg hfile, TaskQueue.push, ← hlisted]
      cases q.contains task.file with
      | true => simp
      | false => simp [Ne.symm hfile]
  keyed := by
    intro file pending hpending
    rw [get?_push] at hpending
    split at hpending
    · cases hpending
      assumption
    · exact h.keyed file pending hpending

theorem Sound.addOrUpdate {q : TaskQueue} (h : q.Sound) (tasks : List Task) :
    (q.addOrUpdate tasks).Sound := by
  induction tasks generalizing q with
  | nil => exact h
  | cons task rest ih => exact ih (h.push task)

theorem get?_addOrUpdate (q : TaskQueue) (tasks : List Task) (file : FileId) :
    (q.addOrUpdate tasks).get? file =
      (tasks.reverse.find? fun task => decide (task.file = file)).or (q.get? file) := by
  induction tasks generalizing q with
  | nil => simp [addOrUpdate]
  | cons task rest ih =>
      have hrest := ih (q.push task)
      rw [addOrUpdate] at hrest
      rw [addOrUpdate, List.foldl_cons, hrest, List.reverse_cons, List.find?_append, get?_push]
      by_cases hfile : task.file = file
      · simp [hfile]
      · simp [hfile]

theorem get?_addOrUpdate_eq_some {q : TaskQueue} {tasks : List Task} {file : FileId} {task : Task}
    (h : (q.addOrUpdate tasks).get? file = some task) :
    (task ∈ tasks ∧ task.file = file) ∨
      ((forall other, other ∈ tasks -> other.file ≠ file) ∧ q.get? file = some task) := by
  rw [get?_addOrUpdate] at h
  cases hfind : tasks.reverse.find? fun task => decide (task.file = file) with
  | some found =>
      rw [hfind, Option.some_or] at h
      cases h
      exact Or.inl ⟨List.mem_reverse.mp (List.mem_of_find?_eq_some hfind),
        by simpa using List.find?_some hfind⟩
  | none =>
      rw [hfind, Option.none_or] at h
      refine Or.inr ⟨?_, h⟩
      intro other hother
      simpa using List.find?_eq_none.mp hfind other (List.mem_reverse.mpr hother)

theorem exists_get?_addOrUpdate {q : TaskQueue} {tasks : List Task} {task : Task}
    (h : task ∈ tasks) :
    exists newest, newest ∈ tasks ∧ newest.file = task.file ∧
      (q.addOrUpdate tasks).get? task.file = some newest := by
  cases hfind : tasks.reverse.find? fun other => decide (other.file = task.file) with
  | none =>
      have hnone := List.find?_eq_none.mp hfind task (List.mem_reverse.mpr h)
      simp at hnone
  | some found =>
      refine ⟨found, List.mem_reverse.mp (List.mem_of_find?_eq_some hfind),
        by simpa using List.find?_some hfind, ?_⟩
      rw [get?_addOrUpdate, hfind, Option.some_or]

/-!
# Dropping tasks
-/

theorem get?_remove (q : TaskQueue) (files : List FileId) (file : FileId) :
    (q.remove files).get? file = if files.contains file then none else q.get? file :=
  Table.get?_eraseAll q.tasks files file

theorem Sound.remove {q : TaskQueue} (h : q.Sound) (files : List FileId) :
    (q.remove files).Sound where
  nodup := by
    unfold TaskQueue.remove
    dsimp only
    split
    · exact h.nodup.filter _
    · exact h.nodup
  listed := by
    intro file
    unfold TaskQueue.remove
    dsimp only
    split
    · rw [List.mem_filter, h.listed]
      constructor
      · exact fun hmem => hmem.2
      · intro hcontains
        refine ⟨?_, hcontains⟩
        rcases (Table.contains_iff _ _).mp hcontains with ⟨task, htask⟩
        rw [Table.get?_eraseAll] at htask
        split at htask
        · cases htask
        · exact (Table.contains_iff _ _).mpr ⟨task, htask⟩
    · rename_i hsize
      have hsame : q.tasks.eraseAll files = q.tasks := Table.restrict_eq_self_of_size hsize
      rw [h.listed, contains, contains, hsame]
  keyed := by
    intro file task htask
    rw [get?_remove] at htask
    split at htask
    · cases htask
    · exact h.keyed file task htask

/-!
# Taking the first task
-/

theorem Sound.get?_of_pop {q q' : TaskQueue} {task : Task} (h : q.Sound)
    (hpop : q.pop = (some task, q')) :
    q.get? task.file = some task ∧ q'.Sound ∧
      forall file, q'.get? file = if task.file = file then none else q.get? file := by
  rcases q with ⟨_ | ⟨first, rest⟩, tasks⟩
  · cases hpop
  · have hcontains := (h.listed first).mp List.mem_cons_self
    rcases (contains_iff _ _).mp hcontains with ⟨found, hfound⟩
    have hget : tasks.get? first = some found := hfound
    rw [pop, popFrom, hget] at hpop
    cases hpop
    have hkey : task.file = first := h.keyed first task hfound
    have hothers : forall file, (TaskQueue.mk rest (tasks.erase first)).get? file =
        if task.file = file then none else tasks.get? file := by
      intro file
      rw [hkey]
      exact Table.get?_erase tasks first file
    have hnodup := List.nodup_cons.mp h.nodup
    refine ⟨by rw [hkey]; exact hfound, ⟨hnodup.2, ?_, ?_⟩, hothers⟩
    · intro file
      have hlisted := h.listed file
      rw [List.mem_cons, contains_iff] at hlisted
      rw [contains_iff]
      simp only [hothers, hkey]
      by_cases hfile : first = file
      · simp [hfile, hfile ▸ hnodup.1]
      · rw [if_neg hfile]
        exact ⟨fun hmem => hlisted.mp (Or.inr hmem),
          fun hpending => (hlisted.mpr hpending).resolve_left (Ne.symm hfile)⟩
    · intro file pending hpending
      rw [hothers] at hpending
      split at hpending
      · cases hpending
      · exact h.keyed file pending hpending

theorem Sound.of_pop_none {q q' : TaskQueue} (h : q.Sound) (hpop : q.pop = (none, q')) :
    q' = q ∧ forall file, q.get? file = none := by
  rcases q with ⟨_ | ⟨first, rest⟩, tasks⟩
  · cases hpop
    refine ⟨rfl, ?_⟩
    intro file
    cases hget : (TaskQueue.mk [] tasks).get? file with
    | none => rfl
    | some task =>
        have hmem := (h.listed file).mpr ((contains_iff _ _).mpr ⟨task, hget⟩)
        cases hmem
  · rcases (contains_iff _ _).mp ((h.listed first).mp List.mem_cons_self) with ⟨found, hfound⟩
    have hget : tasks.get? first = some found := hfound
    rw [pop, popFrom, hget] at hpop
    cases hpop

/-!
# The tasks in line
-/

theorem Sound.map_file_toList {q : TaskQueue} (h : q.Sound) : q.toList.map Task.file = q.order := by
  have hfound : forall file, file ∈ q.order ->
      exists task, q.tasks.get? file = some task ∧ task.file = file := by
    intro file hfile
    rcases (contains_iff _ _).mp ((h.listed file).mp hfile) with ⟨task, htask⟩
    exact ⟨task, htask, h.keyed file task htask⟩
  unfold toList
  generalize q.order = files at hfound
  induction files with
  | nil => rfl
  | cons file rest ih =>
      rcases hfound file List.mem_cons_self with ⟨task, htask, hkey⟩
      rw [List.filterMap_cons_some htask, List.map_cons, hkey,
        ih fun other hother => hfound other (List.mem_cons_of_mem _ hother)]

theorem Sound.mem_toList_iff {q : TaskQueue} (h : q.Sound) (task : Task) :
    task ∈ q.toList ↔ q.get? task.file = some task := by
  unfold toList
  rw [List.mem_filterMap]
  constructor
  · rintro ⟨file, _hfile, htask⟩
    rw [h.keyed file task htask]
    exact htask
  · intro htask
    exact ⟨task.file, (h.listed task.file).mpr ((contains_iff _ _).mpr ⟨task, htask⟩), htask⟩

theorem Sound.isEmpty_iff_toList {q : TaskQueue} (h : q.Sound) :
    q.isEmpty = true ↔ q.toList = [] := by
  rw [isEmpty_iff, List.eq_nil_iff_forall_not_mem]
  constructor
  · intro hnone task htask
    rw [h.mem_toList_iff, hnone] at htask
    cases htask
  · intro hnone file
    cases hget : q.get? file with
    | none => rfl
    | some task =>
        have hkey := h.keyed file task hget
        exact absurd ((h.mem_toList_iff task).mpr (by rw [hkey]; exact hget)) (hnone task)

theorem Sound.toList_of_pop {q q' : TaskQueue} {task : Task} (h : q.Sound)
    (hpop : q.pop = (some task, q')) : q.toList = task :: q'.toList := by
  rcases q with ⟨_ | ⟨first, rest⟩, tasks⟩
  · cases hpop
  · rcases (contains_iff _ _).mp ((h.listed first).mp List.mem_cons_self) with ⟨found, hfound⟩
    have hget : tasks.get? first = some found := hfound
    rw [pop, popFrom, hget] at hpop
    cases hpop
    have hfirst : first ∉ rest := (List.nodup_cons.mp h.nodup).1
    have hrest : rest.filterMap (tasks.erase first).get? = rest.filterMap tasks.get? := by
      apply List.filterMap_congr
      intro file hfile
      rw [Table.get?_erase, if_neg fun heq => hfirst (by rw [heq]; exact hfile)]
    simp only [toList]
    rw [List.filterMap_cons_some hget, hrest]

theorem Sound.toList_push {q : TaskQueue} (h : q.Sound) {task : Task}
    (habsent : q.contains task.file = false) : (q.push task).toList = q.toList ++ [task] := by
  have hnew : task.file ∉ q.order := by
    rw [h.listed, habsent]
    exact Bool.false_ne_true
  have hold : q.order.filterMap (q.tasks.insert task.file task).get? =
      q.order.filterMap q.tasks.get? := by
    apply List.filterMap_congr
    intro file hfile
    rw [Table.get?_insert, if_neg fun heq => hnew (by rw [heq]; exact hfile)]
  have horder : (q.push task).order = q.order ++ [task.file] := by simp [TaskQueue.push, habsent]
  rw [toList, horder, List.filterMap_append, TaskQueue.push, hold,
    List.filterMap_cons_some (Table.get?_insert_self _ _ _), List.filterMap_nil, toList]

theorem Sound.toList_remove {q : TaskQueue} (h : q.Sound) (files : List FileId) :
    (q.remove files).toList = q.toList.filter fun task => decide (task.file ∉ files) := by
  -- the files whose tasks are dropped have no task, whether they leave the order or not
  have horder : (q.remove files).toList = q.order.filterMap (q.remove files).get? := by
    unfold toList TaskQueue.remove
    dsimp only
    split
    · rw [List.filterMap_filter]
      apply List.filterMap_congr
      intro file _hfile
      split
      · rfl
      · rename_i hnone
        exact (Option.not_isSome_iff_eq_none.mp hnone).symm
    · rfl
  rw [horder, toList, List.filter_filterMap]
  apply List.filterMap_congr
  intro file _hfile
  show (q.remove files).get? file =
    (q.get? file).filter fun task => decide (task.file ∉ files)
  rw [get?_remove, List.contains_eq_mem]
  cases htask : q.get? file with
  | none => exact ite_self none
  | some task =>
      rw [Option.filter_some, h.keyed file task htask]
      by_cases hfile : file ∈ files <;> simp [hfile]

end TaskQueue
end SymbolIndex
