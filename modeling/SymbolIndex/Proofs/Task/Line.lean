import Mathlib.Data.List.Perm.Basic
import SymbolIndex.Proofs.Task.Queue
import SymbolIndex.Task.Requests

/-!
# A queue as a line of tasks

A queue keeps its order and its tasks apart, and yet it does what a plain list of tasks
does: a newer task takes the place of the one of its file, others go to the back, tasks
are taken from the front, and the tasks of some files are struck out. Every task that was
added is accounted for.
-/

namespace SymbolIndex

/-- Pending tasks in their order, at most one for each file. -/
abbrev TaskLine : Type := List Task

namespace TaskLine

/-- The task that stands for a file. -/
def task? (line : TaskLine) (file : FileId) : Option Task :=
  line.find? fun task => decide (task.file = file)

/-- A task takes the place of the one of its file, or goes to the back. -/
def put (line : TaskLine) (task : Task) : TaskLine :=
  if line.any fun other => decide (other.file = task.file)
  then line.map fun other => if other.file = task.file then task else other
  else line ++ [task]

def serve (line : TaskLine) : QueueRequest -> QueueAnswer × TaskLine
  | .addOrUpdate tasks => (.done, tasks.foldl put line)
  | .take n => (.tasks (line.take n), line.drop n)
  | .remove files =>
      (.count (line.countP fun task => files.contains task.file),
        line.filter fun task => !files.contains task.file)

/-- The line after some requests. -/
def after (line : TaskLine) : List QueueRequest -> TaskLine
  | [] => line
  | r :: rest => (line.serve r).2.after rest

/-- What some requests are answered, in their order. -/
def answers (line : TaskLine) : List QueueRequest -> List QueueAnswer
  | [] => []
  | r :: rest => (line.serve r).1 :: (line.serve r).2.answers rest

end TaskLine

namespace TaskQueue

variable {q : TaskQueue}

/-!
# Reading the line
-/

theorem Sound.mem_order_iff (h : q.Sound) (file : FileId) :
    file ∈ q.order ↔ exists task, q.get? file = some task := by
  rw [h.listed, contains_iff]

theorem Sound.nodup_files (h : q.Sound) : (q.toList.map Task.file).Nodup := by
  rw [h.map_file_toList]
  exact h.nodup

theorem Sound.task?_toList (h : q.Sound) (file : FileId) :
    TaskLine.task? q.toList file = q.get? file := by
  cases hfind : TaskLine.task? q.toList file with
  | some task =>
      have hfile : task.file = file := by simpa using List.find?_some hfind
      rw [← hfile]
      exact ((h.mem_toList_iff task).mp (List.mem_of_find?_eq_some hfind)).symm
  | none =>
      cases hget : q.get? file with
      | none => rfl
      | some task =>
          have hfile := h.keyed file task hget
          rw [← hfile] at hget
          have hnone := List.find?_eq_none.mp hfind task ((h.mem_toList_iff task).mpr hget)
          exact absurd (decide_eq_true hfile) hnone

theorem Sound.contains_iff_mem (h : q.Sound) (file : FileId) :
    q.contains file = true ↔ file ∈ q.toList.map Task.file := by
  rw [h.map_file_toList, h.listed]

theorem Sound.size_eq (h : q.Sound) : q.size = q.toList.length := by
  have hkeys : q.tasks.keys.Perm q.order := by
    refine (List.perm_ext_iff_of_nodup q.tasks.nodup h.nodup).mpr ?_
    intro file
    exact (Table.mem_keys_iff q.tasks file).trans (h.listed file).symm
  calc
    q.size = q.tasks.keys.length := by rw [size, Table.size, Table.keys, List.length_map]
    _ = q.order.length := hkeys.length_eq
    _ = q.toList.length := by rw [← h.map_file_toList, List.length_map]

/-!
# One request
-/

theorem Sound.toList_push_of_contains (h : q.Sound) {task : Task}
    (hpending : q.contains task.file = true) :
    (q.push task).toList =
      q.toList.map fun other => if other.file = task.file then task else other := by
  have horder : (q.push task).order = q.order := by simp [TaskQueue.push, hpending]
  rw [toList, horder, toList, List.map_filterMap]
  apply List.filterMap_congr
  intro file hfile
  rcases (h.mem_order_iff file).mp hfile with ⟨other, hother⟩
  have hkey := h.keyed file other hother
  have hnew : (q.push task).tasks.get? file = if task.file = file then some task else some other :=
    (get?_push q task file).trans (by rw [hother])
  rw [hnew, show q.tasks.get? file = some other from hother, Option.map_some, hkey]
  by_cases hsame : file = task.file
  · rw [if_pos hsame.symm, if_pos hsame]
  · rw [if_neg (Ne.symm hsame), if_neg hsame]

theorem Sound.toList_push_eq (h : q.Sound) (task : Task) :
    (q.push task).toList = TaskLine.put q.toList task := by
  have hany : (q.toList.any fun other => decide (other.file = task.file)) =
      q.contains task.file := by
    rw [Bool.eq_iff_iff, h.contains_iff_mem, List.any_eq_true, List.mem_map]
    simp only [decide_eq_true_eq]
  rw [TaskLine.put, hany]
  cases hpending : q.contains task.file with
  | true =>
      rw [if_pos rfl]
      exact h.toList_push_of_contains hpending
  | false =>
      rw [if_neg Bool.false_ne_true]
      exact h.toList_push hpending

theorem Sound.toList_addOrUpdate (h : q.Sound) (tasks : List Task) :
    (q.addOrUpdate tasks).toList = tasks.foldl TaskLine.put q.toList := by
  induction tasks generalizing q with
  | nil => rfl
  | cons task rest ih =>
      rw [List.foldl_cons, ← h.toList_push_eq]
      exact ih (h.push task)

theorem Sound.take_eq (h : q.Sound) (n : Nat) :
    (take n q).1 = q.toList.take n ∧ (take n q).2.toList = q.toList.drop n ∧
      (take n q).2.Sound := by
  induction n generalizing q with
  | zero => exact ⟨rfl, rfl, h⟩
  | succ n ih =>
      rw [take]
      rcases hpop : q.pop with ⟨none | task, rest⟩
      · rcases h.of_pop_none hpop with ⟨rfl, hnone⟩
        have hempty := h.isEmpty_iff_toList.mp ((isEmpty_iff _).mpr hnone)
        rw [hempty]
        exact ⟨rfl, List.drop_nil.symm, h⟩
      · have hrest := (h.get?_of_pop hpop).2.1
        rcases ih hrest with ⟨htaken, hleft, hsound⟩
        rw [h.toList_of_pop hpop]
        exact ⟨congrArg (task :: ·) htaken, hleft, hsound⟩

theorem Sound.toList_remove_eq (h : q.Sound) (files : List FileId) :
    (q.remove files).toList = q.toList.filter fun task => !files.contains task.file := by
  simpa using h.toList_remove files

theorem Sound.removedCount_eq (h : q.Sound) (files : List FileId) :
    q.removedCount files = q.toList.countP fun task => files.contains task.file := by
  rw [removedCount, h.size_eq, (h.remove files).size_eq, h.toList_remove_eq,
    ← List.countP_eq_length_filter,
    List.length_eq_countP_add_countP (fun task : Task => files.contains task.file)]
  simp

theorem Sound.serve_eq (h : q.Sound) (r : QueueRequest) :
    (q.serve r).1 = (TaskLine.serve q.toList r).1 ∧
      (q.serve r).2.toList = (TaskLine.serve q.toList r).2 ∧ (q.serve r).2.Sound := by
  cases r with
  | addOrUpdate tasks => exact ⟨rfl, h.toList_addOrUpdate tasks, h.addOrUpdate tasks⟩
  | take n =>
      rcases h.take_eq n with ⟨htaken, hleft, hsound⟩
      exact ⟨congrArg QueueAnswer.tasks htaken, hleft, hsound⟩
  | remove files =>
      exact ⟨congrArg QueueAnswer.count (h.removedCount_eq files), h.toList_remove_eq files,
        h.remove files⟩

/-!
# Many requests
-/

theorem Sound.after (h : q.Sound) (requests : List QueueRequest) : (q.after requests).Sound := by
  induction requests generalizing q with
  | nil => exact h
  | cons r rest ih => exact ih (h.serve_eq r).2.2

theorem Sound.toList_after (h : q.Sound) (requests : List QueueRequest) :
    (q.after requests).toList = TaskLine.after q.toList requests := by
  induction requests generalizing q with
  | nil => rfl
  | cons r rest ih =>
      rcases h.serve_eq r with ⟨-, hleft, hsound⟩
      rw [TaskLine.after, ← hleft]
      exact ih hsound

theorem Sound.answers_eq (h : q.Sound) (requests : List QueueRequest) :
    q.answers requests = TaskLine.answers q.toList requests := by
  induction requests generalizing q with
  | nil => rfl
  | cons r rest ih =>
      rcases h.serve_eq r with ⟨hanswer, hleft, hsound⟩
      rw [answers, TaskLine.answers, hanswer, ← hleft, ih hsound]

/-!
# Where tasks go
-/

theorem perm_of_replace {line : List Task} {old task : Task} (hnodup : (line.map Task.file).Nodup)
    (hold : old ∈ line) (hfile : old.file = task.file) :
    (line ++ [task]).Perm
      (old :: line.map fun other => if other.file = task.file then task else other) := by
  rcases List.append_of_mem hold with ⟨before, after, rfl⟩
  rw [List.map_append, List.map_cons, List.nodup_middle, List.nodup_cons, List.mem_append,
    not_or] at hnodup
  have hothers : forall others : List Task, old.file ∉ others.map Task.file ->
      (others.map fun other => if other.file = task.file then task else other) = others := by
    intro others hnone
    refine (List.map_congr_left ?_).trans (List.map_id others)
    intro other hother
    refine if_neg fun hsame => hnone ?_
    rw [hfile, ← hsame]
    exact List.mem_map_of_mem hother
  rw [List.map_append, List.map_cons, hothers before hnodup.1.1, hothers after hnodup.1.2,
    if_pos hfile]
  calc
    (before ++ old :: after ++ [task]).Perm (before ++ old :: task :: after) := by
      rw [List.append_assoc, List.cons_append]
      exact (List.perm_append_singleton task after).cons old |>.append_left before
    _ |>.Perm (old :: (before ++ task :: after)) := List.perm_middle

theorem Sound.perm_push (h : q.Sound) (task : Task) :
    (q.toList ++ [task]).Perm ((q.get? task.file).toList ++ (q.push task).toList) := by
  cases hget : q.get? task.file with
  | none =>
      have habsent : q.contains task.file = false := (Table.contains_eq_false_iff _ _).mpr hget
      rw [h.toList_push habsent]
      exact .refl _
  | some old =>
      have hfile := h.keyed task.file old hget
      have hold : old ∈ q.toList := (h.mem_toList_iff old).mpr (by rw [hfile]; exact hget)
      rw [h.toList_push_of_contains ((contains_iff q task.file).mpr ⟨old, hget⟩)]
      exact perm_of_replace h.nodup_files hold hfile

theorem Sound.perm_addOrUpdate (h : q.Sound) (tasks : List Task) :
    (q.toList ++ tasks).Perm (q.replaced tasks ++ (q.addOrUpdate tasks).toList) := by
  induction tasks generalizing q with
  | nil => rw [List.append_nil]; exact .refl _
  | cons task rest ih =>
      rw [replaced, List.append_assoc, ← List.singleton_append, ← List.append_assoc]
      refine ((h.perm_push task).append_right rest).trans ?_
      rw [List.append_assoc]
      exact (ih (h.push task)).append_left _

theorem Sound.perm_serve (h : q.Sound) (r : QueueRequest) :
    (q.toList ++ r.added).Perm
      ((q.serve r).1.handed ++ q.discarded r ++ (q.serve r).2.toList) := by
  cases r with
  | addOrUpdate tasks => exact h.perm_addOrUpdate tasks
  | take n =>
      rcases h.take_eq n with ⟨htaken, hleft, -⟩
      simp only [QueueRequest.added, serve, QueueAnswer.handed, discarded, List.append_nil, htaken,
        hleft, List.take_append_drop]
      exact .refl _
  | remove files =>
      simp only [QueueRequest.added, serve, QueueAnswer.handed, discarded, List.append_nil,
        List.nil_append, h.toList_remove_eq]
      exact (List.filter_append_perm _ _).symm

theorem Sound.perm_after (h : q.Sound) (requests : List QueueRequest) :
    (q.toList ++ requests.flatMap QueueRequest.added).Perm
      (q.allHanded requests ++ q.allDiscarded requests ++ (q.after requests).toList) := by
  induction requests generalizing q with
  | nil => simp [allHanded, answers, allDiscarded, TaskQueue.after]
  | cons r rest ih =>
      -- each task is counted: what the first request leaves pending meets what is added later
      have hone := h.perm_serve r
      have hrest := ih (h.serve_eq r).2.2
      rw [List.perm_iff_count] at hone hrest ⊢
      intro task
      have hfirst := hone task
      have hlater := hrest task
      simp only [allHanded, answers, allDiscarded, TaskQueue.after, List.flatMap_cons,
        List.count_append] at hfirst hlater ⊢
      omega

theorem Sound.file_ne_of_mem_allHanded (h : q.Sound) {file : FileId} (hnone : q.get? file = none)
    {requests : List QueueRequest}
    (hadded : forall task, task ∈ requests.flatMap QueueRequest.added -> task.file ≠ file)
    {task : Task} (htask : task ∈ q.allHanded requests) : task.file ≠ file := by
  have hmem : task ∈ q.toList ++ requests.flatMap QueueRequest.added :=
    (h.perm_after requests).mem_iff.mpr
      (List.mem_append_left _ (List.mem_append_left _ htask))
  rcases List.mem_append.mp hmem with hpending | hnew
  · rintro rfl
    rw [h.mem_toList_iff, hnone] at hpending
    cases hpending
  · exact hadded task hnew

/-- A request by which the task of a file leaves for good. -/
def LetsGo (q : TaskQueue) (file : FileId) (r : QueueRequest) : Prop :=
  (exists files, r = .remove files ∧ file ∈ files) ∨
    exists task, task ∈ (q.serve r).1.handed ∧ task.file = file

theorem Sound.get?_of_letsGo (h : q.Sound) {file : FileId} {r : QueueRequest}
    (hleaves : q.LetsGo file r) : (q.serve r).2.get? file = none := by
  rcases hleaves with ⟨files, rfl, hfile⟩ | ⟨task, htask, rfl⟩
  · rw [serve, get?_remove, if_pos (List.contains_iff_mem.mpr hfile)]
  · cases r with
    | take n =>
        rcases h.take_eq n with ⟨htaken, hleft, hsound⟩
        rw [serve, ← hsound.task?_toList, hleft]
        have hfront : task ∈ q.toList.take n := by
          rw [← htaken]
          exact htask
        -- no file stands twice in the line
        have hnodup := h.nodup_files
        rw [← List.take_append_drop n q.toList, List.map_append, List.nodup_append] at hnodup
        apply List.find?_eq_none.mpr
        intro other hother
        have hne := hnodup.2.2 _ (List.mem_map_of_mem hfront) _ (List.mem_map_of_mem hother)
        simpa using Ne.symm hne
    | addOrUpdate tasks => cases htask
    | remove files => cases htask

/--
What a queue does, and what it answers, from the first request on: as the line of its tasks.
It is read as that line. Each task that was added is handed out, discarded for its file or
for a newer one, or still pending, and is none of these twice. Once the task of a file was
handed out or removed, no more is handed out for the file unless a new one is added, and
that one goes to the back.
-/
theorem queue_serves_as_a_line (requests : List QueueRequest) :
    let q := empty.after requests
    let line := TaskLine.after [] requests
    q.toList = line ∧ (line.map Task.file).Nodup ∧
    empty.answers requests = TaskLine.answers [] requests ∧
    (forall file, q.get? file = TaskLine.task? line file ∧
      (q.contains file = true ↔ file ∈ line.map Task.file)) ∧
    q.size = line.length ∧ (q.isEmpty = true ↔ line = []) ∧
    (requests.flatMap QueueRequest.added).Perm
      (empty.allHanded requests ++ empty.allDiscarded requests ++ line) ∧
    forall r file, q.LetsGo file r ->
      let left := (q.serve r).2
      left.get? file = none ∧
      (forall later,
        (forall task, task ∈ later.flatMap QueueRequest.added -> task.file ≠ file) ->
        forall task, task ∈ left.allHanded later -> task.file ≠ file) ∧
      forall task, task.file = file ->
        (left.addOrUpdate [task]).toList = left.toList ++ [task] := by
  intro q line
  have h : q.Sound := sound_empty.after requests
  have hline : q.toList = line := sound_empty.toList_after requests
  refine ⟨hline, hline ▸ h.nodup_files, sound_empty.answers_eq requests, ?_, ?_, ?_, ?_, ?_⟩
  · intro file
    rw [← hline]
    exact ⟨(h.task?_toList file).symm, h.contains_iff_mem file⟩
  · rw [← hline]
    exact h.size_eq
  · rw [← hline]
    exact h.isEmpty_iff_toList
  · rw [← hline]
    exact sound_empty.perm_after requests
  · intro r file hleaves left
    have hleft : left.Sound := (h.serve_eq r).2.2
    have hnone : left.get? file = none := h.get?_of_letsGo hleaves
    refine ⟨hnone, fun later hadded task => hleft.file_ne_of_mem_allHanded hnone hadded, ?_⟩
    rintro task rfl
    exact hleft.toList_push ((Table.contains_eq_false_iff _ _).mpr hnone)

end TaskQueue
end SymbolIndex
