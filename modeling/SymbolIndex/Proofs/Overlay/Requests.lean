import Mathlib.Data.Finmap
import SymbolIndex.Overlay.Requests
import SymbolIndex.Proofs.Overlay

/-!
# What an overlay answers

The contents that were set and not removed form a map over the normal forms of paths, and
an overlay answers from this map. A request that is broken off leaves no trace in it.
-/

namespace SymbolIndex
namespace Overlay

variable {c : Counting} {o o' : Overlay} {r : OverlayRequest} {answer : Option Bool}
  {p : Path}

/-!
# One request
-/

/-- What a request may do. -/
inductive Served (c : Counting) (o : Overlay) :
    OverlayRequest -> Option Bool -> Overlay -> Prop where
  | held {p : Path} {content : String} : o.holds p content = true ->
      Served c o (.insert p content) (some false) o
  | broken {p : Path} {content : String} : o.holds p content = false -> c = .checked ->
      o.revision + 1 = UInt64.size -> Served c o (.insert p content) none o
  | set {p : Path} {content : String} : o.holds p content = false ->
      (c = .checked -> o.revision + 1 ≠ UInt64.size) ->
      Served c o (.insert p content) (some true) (o.insert p content)
  | removed {p : Path} : Served c o (.remove p) (some (o.contains p)) (o.erase p)

theorem served (c : Counting) (o : Overlay) (r : OverlayRequest) :
    Served c o r (o.answer? c r) (o.serve c r) := by
  cases r with
  | remove p =>
      have hcounts : ¬ (c = .checked ∧ o.overflows (.remove p) = true) :=
        fun h => Bool.false_ne_true h.2
      rw [answer?, serve, if_neg hcounts, if_neg hcounts]
      exact .removed
  | insert p content =>
      by_cases hfull : c = .checked ∧ o.overflows (.insert p content) = true
      · rw [answer?, serve, if_pos hfull, if_pos hfull]
        rcases (Bool.and_eq_true _ _).mp hfull.2 with ⟨hnew, hlast⟩
        exact .broken ((Bool.not_eq_true' _).mp hnew) hfull.1 (beq_iff_eq.mp hlast)
      · rw [answer?, serve, if_neg hfull, if_neg hfull]
        cases hholds : o.holds p content with
        | true =>
            rw [insert_of_holds hholds]
            exact .held hholds
        | false =>
            refine .set hholds ?_
            intro hchecked hlast
            apply hfull
            refine ⟨hchecked, ?_⟩
            rw [overflows, hholds, beq_iff_eq.mpr hlast]
            rfl

theorem Served.answer_insert_iff {content : String}
    (h : Served c o (.insert p content) answer o') :
    answer = some false ↔ o.holds p content = true := by
  cases h with
  | held hholds => simp [hholds]
  | broken hholds _ _ => simp [hholds]
  | set hholds _ => simp [hholds]

theorem Served.answer_remove (h : Served c o (.remove p) answer o') :
    answer = some (o.contains p) := by
  cases h with
  | removed => rfl

theorem Served.eq_of_ne_true (h : Served c o r answer o') (hanswer : answer ≠ some true) :
    o' = o := by
  cases h with
  | held _ => rfl
  | broken _ _ _ => rfl
  | set _ _ => exact absurd rfl hanswer
  | @removed p =>
      have hnone : o.files.get? p.normalize = none := by
        rw [← Table.contains_eq_false_iff, ← Bool.not_eq_true]
        exact fun hthere => hanswer (congrArg some hthere)
      rw [Overlay.erase, Table.erase_eq_self hnone]

theorem Served.full_of_none (h : Served c o r none o') :
    c = .checked ∧ o.revision + 1 = UInt64.size := by
  cases h with
  | broken _ hchecked hlast => exact ⟨hchecked, hlast⟩

/-!
# The map of contents
-/

/-- The contents that were set and not removed, by the normal forms of their paths. -/
abbrev Contents : Type := Finmap fun _ : Path => String

namespace Contents

def record (m : Contents) : OverlayRequest -> Contents
  | .insert p content => m.insert p.normalize content
  | .remove p => m.erase p.normalize

/-- The contents after some requests. -/
def ofRequests (requests : List OverlayRequest) : Contents := requests.foldl record ∅

theorem lookup_insert (m : Contents) (k k' : Path) (content : String) :
    (m.insert k content).lookup k' = if k = k' then some content else m.lookup k' := by
  split
  · rename_i hsame
    rw [hsame, Finmap.lookup_insert]
  · rename_i hother
    exact Finmap.lookup_insert_of_ne m (Ne.symm hother)

theorem lookup_erase (m : Contents) (k k' : Path) :
    (m.erase k).lookup k' = if k = k' then none else m.lookup k' := by
  split
  · rename_i hsame
    rw [hsame, Finmap.lookup_erase]
  · rename_i hother
    exact Finmap.lookup_erase_ne (Ne.symm hother)

end Contents

variable {m : Contents}

/-- An overlay has the contents of a map. -/
def Has (o : Overlay) (m : Contents) : Prop :=
  forall k, (o.files.get? k).map GeneratedFile.content = m.lookup k

theorem has_empty : empty.Has ∅ := by
  intro k
  rw [Finmap.lookup_empty]
  rfl

theorem Has.insert (h : o.Has m) {content : String} (hholds : o.holds p content = false) :
    (o.insert p content).Has (m.insert p.normalize content) := by
  intro k
  rw [insert_of_not_holds hholds, Table.get?_insert, Contents.lookup_insert]
  split
  · rfl
  · exact h k

theorem Has.erase (h : o.Has m) (p : Path) : (o.erase p).Has (m.erase p.normalize) := by
  intro k
  rw [Overlay.erase, Table.get?_erase, Contents.lookup_erase]
  split
  · rfl
  · exact h k

theorem Has.content? (h : o.Has m) (p : Path) : o.content? p = m.lookup p.normalize :=
  h p.normalize

theorem Has.of_holds (h : o.Has m) {content : String} (hholds : o.holds p content = true) :
    o.Has (m.insert p.normalize content) := by
  intro k
  rw [Contents.lookup_insert]
  split
  · rename_i hsame
    rw [← hsame]
    exact holds_iff.mp hholds
  · exact h k

theorem Has.of_served (h : o.Has m) (hserved : Served c o r answer o') :
    o'.Has (if answer.isSome then m.record r else m) := by
  cases hserved with
  | held hholds => exact h.of_holds hholds
  | broken _ _ _ => exact h
  | set hholds _ => exact h.insert hholds
  | removed => exact h.erase _

theorem Has.after (h : o.Has m) (requests : List OverlayRequest) :
    (o.after c requests).Has ((o.answered c requests).foldl Contents.record m) := by
  induction requests generalizing o m with
  | nil => exact h
  | cons r rest ih =>
      have hrest := ih (h.of_served (served c o r))
      rw [answered]
      split
      · rename_i hanswered
        rw [if_pos hanswered] at hrest
        exact hrest
      · rename_i hbroken
        rw [if_neg hbroken] at hrest
        exact hrest

theorem Has.contains_iff (h : o.Has m) (p : Path) :
    o.contains p = true ↔ p.normalize ∈ m := by
  rw [← Finmap.lookup_isSome, ← h.content? p, Overlay.content?, Option.isSome_map, contains]

theorem Has.keys_eq (h : o.Has m) : m.keys = o.files.keys.toFinset := by
  ext k
  rw [Finmap.mem_keys, ← Finmap.lookup_isSome, ← h k, Option.isSome_map, List.mem_toFinset,
    Table.mem_keys_iff, Table.contains]

theorem Has.size_eq (h : o.Has m) : o.size = m.keys.card := by
  have hdistinct : o.files.keys.Nodup := o.files.nodup
  rw [h.keys_eq, List.toFinset_card_of_nodup hdistinct, Table.keys, List.length_map]
  rfl

theorem Has.isEmpty_iff (h : o.Has m) : o.isEmpty = true ↔ m = ∅ := by
  rw [isEmpty, h.size_eq, beq_iff_eq, Finset.card_eq_zero]
  constructor
  · intro hnone
    apply Finmap.ext_lookup
    intro k
    have hkey : k ∉ m.keys := by
      rw [hnone]
      exact Finset.notMem_empty k
    rw [Finmap.lookup_empty, Finmap.lookup_eq_none, ← Finmap.mem_keys]
    exact hkey
  · intro hempty
    rw [hempty, Finmap.keys_empty]

/-- What an overlay answers is what a map of contents has. -/
structure AnswersAs (c : Counting) (o : Overlay) (m : Contents) : Prop where
  content : forall p, o.content? p = m.lookup p.normalize
  contains : forall p, o.contains p = true ↔ p.normalize ∈ m
  length : forall p, (o.status? p).map FileStatus.size =
    (m.lookup p.normalize).map fun content => UInt64.ofNat content.utf8ByteSize
  size : o.size = m.keys.card
  isEmpty : o.isEmpty = true ↔ m = ∅
  insert : forall p content, o.answer? c (.insert p content) = some false ↔
    m.lookup p.normalize = some content
  remove : forall p, o.answer? c (.remove p) = some (decide (p.normalize ∈ m))
  unchanged : forall r, o.answer? c r ≠ some true -> o.serve c r = o
  broken : forall r, o.answer? c r = none -> c = .checked ∧ o.revision + 1 = UInt64.size

theorem Has.answersAs (h : o.Has m) (c : Counting) : o.AnswersAs c m where
  content := h.content?
  contains := h.contains_iff
  length := by
    intro p
    rw [← h.content? p, status?, Overlay.content?, Option.map_map, Option.map_map]
    rfl
  size := h.size_eq
  isEmpty := h.isEmpty_iff
  insert := by
    intro p content
    rw [(served c o _).answer_insert_iff, holds_iff, h.content?]
  remove := by
    intro p
    rw [(served c o _).answer_remove, Option.some_inj, Bool.eq_iff_iff, decide_eq_true_iff]
    exact h.contains_iff p
  unchanged := fun r => (served c o r).eq_of_ne_true
  broken := by
    intro r hnone
    have hserved := served c o r
    rw [hnone] at hserved
    exact hserved.full_of_none

end Overlay
end SymbolIndex
