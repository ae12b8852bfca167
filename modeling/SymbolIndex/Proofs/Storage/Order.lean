import Mathlib.Algebra.GroupWithZero.Nat
import SymbolIndex.Proofs.Storage.Consistency
import SymbolIndex.Proofs.Store.Renumbering
import SymbolIndex.Storage.Deliveries

/-!
# The order of deliveries

What a delivery is answered and does depends on what is stored about its file and on
nothing else, and it changes nothing about other files but the counter that numbers
symbols. Deliveries for files that are all different can therefore be made in any order:
each is answered as if it were the only one.
-/

namespace SymbolIndex
namespace Delivery

/-- The same delivery for another file. -/
def refile (d : Delivery) (file : FileId) : Delivery := { d with task := { d.task with file } }

/-- What a delivery is answered, given whether its task is current and the status that is stored. -/
def answer (d : Delivery) (current : Bool) (old? : Option StatusRow) :
    Except Failure ApplyOutcome :=
  if !current then .ok .stale
  else if
      (old?.any fun old => decide (old.part = d.task.part) && old.digest == d.results.digest) then
    .ok .unchanged
  else match Store.strayLocation? d.results with
    | some l => .error (Store.strayFailure l)
    | none => .ok (.applied d.results.symbols.length d.results.locations.length)

end Delivery

namespace Store

variable {file : FileId} {s t : Store}

theorem SameFile.isCurrent (h : SameFile file s t) (task : Task) :
    t.isCurrent task = s.isCurrent task := by
  rw [Store.isCurrent, Store.isCurrent, h.parts, h.members]

/-- The store after a delivery that was answered in some way. -/
def absorb (s : Store) (d : Delivery) : Except Failure ApplyOutcome -> Store
  | .ok .unchanged => s.putStatus d.task.file (rowOf d.task d.status d.results)
  | .ok (.applied _ _) =>
      (s.replaceRecords d.task.file d.task.part d.results).putStatus d.task.file
        (rowOf d.task d.status d.results)
  | _ => s

theorem get?_statuses_absorb_put (s : Store) (d : Delivery) :
    (s.putStatus d.task.file (rowOf d.task d.status d.results)).statuses.get? d.task.file =
      some (rowOf d.task d.status d.results) := by
  rw [get?_statuses_putStatus, if_pos rfl]

theorem SameFile.absorb {d : Delivery} (h : SameFile d.task.file s t) (hs : s.Linked)
    (ht : t.Linked) (answer : Except Failure ApplyOutcome) :
    SameFile d.task.file (s.absorb d answer) (t.absorb d answer) := by
  have hput : forall s t : Store,
      (t.putStatus d.task.file (rowOf d.task d.status d.results)).statuses.get? d.task.file =
        (s.putStatus d.task.file (rowOf d.task d.status d.results)).statuses.get? d.task.file :=
    fun s t => (get?_statuses_absorb_put t d).trans (get?_statuses_absorb_put s d).symm
  rcases answer with failure | ⟨symbols, locations⟩ | _ | _
  · exact h
  · refine ⟨h.parts, h.members, hput _ _, ?_⟩
    exact (hs.records_replaceRecords d.task.file d.task.part d.results).shifted
      (ht.records_replaceRecords d.task.file d.task.part d.results)
  · exact ⟨h.parts, h.members, hput _ _, h.records⟩
  · exact h

theorem Twins.isCurrent {g : FileId} {task : Task} (h : Twins task.file g s t) :
    t.isCurrent { task with file := g } = s.isCurrent task := by
  rw [Store.isCurrent, Store.isCurrent, Table.contains, Table.contains, h.arguments, h.member]

theorem Twins.absorb {d : Delivery} {g : FileId} (h : Twins d.task.file g s t) (hs : s.Linked)
    (ht : t.Linked) (answer : Except Failure ApplyOutcome) :
    Twins d.task.file g (s.absorb d answer) (t.absorb (d.refile g) answer) := by
  have hput : forall s t : Store,
      (t.putStatus g (rowOf d.task d.status d.results)).statuses.get? g =
        (s.putStatus d.task.file (rowOf d.task d.status d.results)).statuses.get? d.task.file :=
    fun s t => (get?_statuses_absorb_put t (d.refile g)).trans (get?_statuses_absorb_put s d).symm
  rcases answer with failure | ⟨symbols, locations⟩ | _ | _
  · exact h
  · refine ⟨h.arguments, h.member, hput _ _, ?_⟩
    exact (hs.records_replaceRecords d.task.file d.task.part d.results).twins
      (ht.records_replaceRecords g d.task.part d.results)
  · exact ⟨h.arguments, h.member, hput _ _, h.records⟩
  · exact h

end Store

namespace Storage

open Store

variable {t u : Storage} {d : Delivery} {work work' : List Delivery} {file : FileId}

/-!
# One delivery
-/

theorem store_deliver (t : Storage) (d : Delivery) :
    (t.deliver d).2.store = t.store.absorb d (t.deliver d).1 := by
  unfold deliver Storage.applyResults
  cases hok : t.store.applyResults d.task d.status d.results with
  | error failure => rfl
  | ok done =>
      rcases done with ⟨outcome, wrote, s⟩
      rcases applyResults_eq_ok hok with ⟨-, rfl, rfl⟩ | ⟨-, -, rfl, rfl⟩ | ⟨-, -, -, rfl, rfl⟩
      · rfl
      · rfl
      · rfl

theorem answer_eq (t : Storage) (d : Delivery) :
    (t.deliver d).1 = d.answer (t.store.isCurrent d.task) (t.store.statuses.get? d.task.file) := by
  unfold deliver Storage.applyResults Store.applyResults Delivery.answer
  cases t.store.isCurrent d.task with
  | false => rfl
  | true =>
      simp only [Bool.not_true, Bool.false_eq_true, if_false]
      cases t.store.statuses.get? d.task.file with
      | none => cases strayLocation? d.results <;> rfl
      | some old =>
          rw [Option.any_some]
          dsimp only
          by_cases hsame :
              (decide (old.part = d.task.part) && old.digest == d.results.digest) = true
          · rw [if_pos hsame, if_pos hsame]
            by_cases hrow : some old = some (.write d.task.part d.status d.results.digest)
            · rw [if_pos hrow]
              rfl
            · rw [if_neg hrow]
              rfl
          · rw [if_neg hsame, if_neg hsame]
            cases strayLocation? d.results <;> rfl

theorem answer_congr (h : SameFile d.task.file t.store u.store) :
    (u.deliver d).1 = (t.deliver d).1 := by
  rw [answer_eq, answer_eq, h.isCurrent, h.status]

theorem twins_deliver {g : FileId} (ht : t.store.Linked) (hu : u.store.Linked)
    (h : Twins d.task.file g t.store u.store) :
    Twins d.task.file g (t.deliver d).2.store (u.deliver (d.refile g)).2.store := by
  have hanswer : (u.deliver (d.refile g)).1 = (t.deliver d).1 := by
    have hcurrent : u.store.isCurrent (d.refile g).task = t.store.isCurrent d.task := h.isCurrent
    have hstatus : u.store.statuses.get? (d.refile g).task.file =
      t.store.statuses.get? d.task.file := h.status
    rw [answer_eq, answer_eq, hcurrent, hstatus]
    rfl
  rw [store_deliver, store_deliver, hanswer]
  exact h.absorb ht hu _

theorem deliver_alike (ht : t.store.Linked) (hu : u.store.Linked)
    (h : SameFile d.task.file t.store u.store) :
    SameFile d.task.file (t.deliver d).2.store (u.deliver d).2.store := by
  rw [store_deliver, store_deliver, answer_congr h]
  exact h.absorb ht hu _

/-- How many symbols are new after an answer. -/
def issued : Except Failure ApplyOutcome -> Nat
  | .ok (.applied symbols _) => symbols
  | _ => 0

/-- What a delivery leaves alone: links, paths, parts and all that is stored about other files. -/
structure Spares (d : Delivery) (t u : Storage) : Prop where
  linked : u.store.Linked
  sources : u.store.sources = t.store.sources
  parts : u.store.parts = t.store.parts
  others : forall file, file ≠ d.task.file -> SameFile file t.store u.store
  next : u.store.nextSymbol = t.store.nextSymbol + issued (t.deliver d).1

theorem spares_deliver (ht : t.store.Linked) (d : Delivery) : Spares d t (t.deliver d).2 := by
  unfold deliver Storage.applyResults
  cases hok : t.store.applyResults d.task d.status d.results with
  | error failure =>
      refine ⟨ht, rfl, rfl, fun file _ => SameFile.refl file t.store, ?_⟩
      rw [deliver, Storage.applyResults, hok]
      rfl
  | ok done =>
      rcases done with ⟨outcome, wrote, s⟩
      have hanswer : (t.deliver d).1 = .ok outcome := by
        rw [deliver, Storage.applyResults, hok]
        rfl
      rcases ht.frame_applyResults hok with ⟨hsources, hparts, hmembers, hothers⟩
      have hsame : forall file, file ≠ d.task.file -> SameFile file t.store s := by
        intro file hfile
        refine ⟨hparts, hmembers, (hothers file hfile).1, 0, ?_⟩
        rw [SymbolId.shift_zero, renamed_id, (hothers file hfile).2]
      rw [Except.map]
      rcases applyResults_eq_ok hok with
        ⟨-, rfl, rfl⟩ | ⟨-, -, rfl, rfl⟩ | ⟨-, -, hstray, rfl, rfl⟩
      · exact ⟨ht, hsources, hparts, hsame, by rw [hanswer]; rfl⟩
      · exact ⟨ht.of_rows_eq rfl rfl rfl, hsources, hparts, hsame, by rw [hanswer]; rfl⟩
      · exact ⟨(ht.replaceRecords _ _ hstray).of_rows_eq rfl rfl rfl, hsources, hparts, hsame,
          by rw [hanswer]; rfl⟩

/-!
# Many deliveries
-/

/-- The deliveries are for files that are all different. -/
def Separate (work : List Delivery) : Prop := (work.map fun d => d.task.file).Nodup

instance (work : List Delivery) : Decidable (Separate work) :=
  inferInstanceAs (Decidable (work.map fun d => d.task.file).Nodup)

theorem linked_deliverAll (ht : t.store.Linked) (work : List Delivery) :
    (t.deliverAll work).store.Linked := by
  induction work generalizing t with
  | nil => exact ht
  | cons d rest ih => exact ih (spares_deliver ht d).linked

theorem sources_deliverAll (ht : t.store.Linked) (work : List Delivery) :
    (t.deliverAll work).store.sources = t.store.sources := by
  induction work generalizing t with
  | nil => rfl
  | cons d rest ih =>
      have hspares := spares_deliver ht d
      exact (ih hspares.linked).trans hspares.sources

theorem parts_deliverAll (ht : t.store.Linked) (work : List Delivery) :
    (t.deliverAll work).store.parts = t.store.parts := by
  induction work generalizing t with
  | nil => rfl
  | cons d rest ih =>
      have hspares := spares_deliver ht d
      exact (ih hspares.linked).trans hspares.parts

theorem next_deliverAll (ht : t.store.Linked) (work : List Delivery) :
    (t.deliverAll work).store.nextSymbol =
      t.store.nextSymbol + ((t.answers work).map fun a => issued a.2).sum := by
  induction work generalizing t with
  | nil => rfl
  | cons d rest ih =>
      have hspares := spares_deliver ht d
      refine (ih hspares.linked).trans ?_
      rw [hspares.next, answers, List.map_cons, List.sum_cons, Nat.add_assoc]

theorem sameFile_deliverAll (ht : t.store.Linked)
    (hfile : file ∉ work.map fun d => d.task.file) :
    SameFile file t.store (t.deliverAll work).store := by
  induction work generalizing t with
  | nil => exact SameFile.refl file _
  | cons d rest ih =>
      rw [List.map_cons, List.mem_cons, not_or] at hfile
      have hspares := spares_deliver ht d
      exact (hspares.others file hfile.1).trans (ih hspares.linked hfile.2)

theorem Spares.sameFile {rest : List Delivery} {later : Delivery} (h : Spares d t u)
    (hseparate : Separate (d :: rest)) (hlater : later ∈ rest) :
    SameFile later.task.file t.store u.store := by
  refine h.others _ ?_
  intro heq
  exact (List.nodup_cons.mp hseparate).1 (List.mem_map.mpr ⟨later, hlater, heq⟩)

theorem answers_eq (ht : t.store.Linked) (hseparate : Separate work) :
    t.answers work = work.map fun d => (d, (t.deliver d).1) := by
  induction work generalizing t with
  | nil => rfl
  | cons d rest ih =>
      have hspares := spares_deliver ht d
      rw [answers, ih hspares.linked (List.nodup_cons.mp hseparate).2, List.map_cons]
      refine congrArg _ (List.map_congr_left ?_)
      intro later hlater
      rw [answer_congr (hspares.sameFile hseparate hlater)]

theorem sameFile_of_mem (ht : t.store.Linked) (hseparate : Separate work) (hd : d ∈ work) :
    SameFile d.task.file (t.deliver d).2.store (t.deliverAll work).store := by
  induction work generalizing t with
  | nil => cases hd
  | cons first rest ih =>
      have hspares := spares_deliver ht first
      have hnodup := List.nodup_cons.mp hseparate
      rcases List.mem_cons.mp hd with rfl | hlater
      · exact sameFile_deliverAll hspares.linked hnodup.1
      · exact (deliver_alike ht hspares.linked (hspares.sameFile hseparate hlater)).trans
          (ih hspares.linked hnodup.2 hlater)

/-!
# Any order
-/

/--
Deliveries for different files may be made in any order. Each is answered the same, and
the stores they lead to are the same but for the numbers of symbols.
-/
theorem deliverAll_perm (ht : t.store.Linked) (hseparate : Separate work)
    (hperm : work.Perm work') :
    (t.answers work).Perm (t.answers work') ∧
      exists f, Renumbered f (t.deliverAll work).store (t.deliverAll work').store := by
  have hseparate' : Separate work' := (hperm.map _).nodup_iff.mp hseparate
  have hanswers : (t.answers work).Perm (t.answers work') := by
    rw [answers_eq ht hseparate, answers_eq ht hseparate']
    exact hperm.map _
  refine ⟨hanswers, exists_renumbered (linked_deliverAll ht work) (linked_deliverAll ht work')
    ?_ ?_ ?_⟩
  · rw [sources_deliverAll ht, sources_deliverAll ht]
  · rw [next_deliverAll ht, next_deliverAll ht, (hanswers.map _).sum_nat]
  · intro file
    by_cases hfile : file ∈ work.map fun d => d.task.file
    · rcases List.mem_map.mp hfile with ⟨d, hd, rfl⟩
      exact (sameFile_of_mem ht hseparate hd).symm.trans
        (sameFile_of_mem ht hseparate' (hperm.mem_iff.mp hd))
    · have hfile' : file ∉ work'.map fun d => d.task.file :=
        fun hmem => hfile ((hperm.map _).mem_iff.mpr hmem)
      exact (sameFile_deliverAll ht hfile).symm.trans (sameFile_deliverAll ht hfile')

end Storage
end SymbolIndex
