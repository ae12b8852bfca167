import SymbolIndex.Proofs.Watcher.Whole

/-!
# Moves of a watcher

Whatever is asked of a watcher is done in moves. In a move one file comes, goes, is
refused or is no longer remembered as refused, and the backend is called at most once: to
watch a directory without watched files when a file of it comes, and to unwatch it when
its last file goes. After any moves the directories that the backend watches are those
that hold watched files.
-/

namespace SymbolIndex
namespace Watcher

section Calls

variable {b : Backend} {calls : List WatchCall} {c : WatchCall} {d : Path}
  {directory : List Component}

/-!
# What the backend watches
-/

/-- A directory was watched with success, and it was not unwatched since. -/
def InForce (b : Backend) (calls : List WatchCall) (directory : List Component) : Prop :=
  exists earlier d later, calls = earlier ++ .watch d :: later ∧ d.components = directory ∧
    b.accepts earlier.length d = true ∧
      forall other, .unwatch other ∈ later -> other.components ≠ directory

theorem not_inForce_nil (b : Backend) (directory : List Component) : ¬ InForce b [] directory := by
  rintro ⟨earlier, d, later, hcalls, -⟩
  cases earlier <;> cases hcalls

theorem InForce.concat (h : InForce b calls directory)
    (hstays : forall other, c = .unwatch other -> other.components ≠ directory) :
    InForce b (calls ++ [c]) directory := by
  rcases h with ⟨earlier, d, later, rfl, hd, haccepts, hlater⟩
  refine ⟨earlier, d, later ++ [c], by simp, hd, haccepts, ?_⟩
  intro other hother
  rcases List.mem_append.mp hother with hmem | hmem
  · exact hlater other hmem
  · exact hstays other (List.mem_singleton.mp hmem).symm

theorem InForce.of_concat (h : InForce b (calls ++ [c]) directory) :
    (InForce b calls directory ∧ forall other, c = .unwatch other -> other.components ≠ directory) ∨
      exists d, c = .watch d ∧ d.components = directory ∧ b.accepts calls.length d = true := by
  rcases h with ⟨earlier, d, later, hcalls, hd, haccepts, hlater⟩
  rcases List.eq_nil_or_concat later with rfl | ⟨front, last, rfl⟩
  · rcases List.append_inj' hcalls rfl with ⟨rfl, hlast⟩
    exact Or.inr ⟨d, List.singleton_inj.mp hlast, hd, haccepts⟩
  · rw [List.concat_eq_append] at hcalls hlater
    rw [← List.cons_append, ← List.append_assoc] at hcalls
    rcases List.append_inj' hcalls rfl with ⟨rfl, hlast⟩
    cases hlast
    refine Or.inl ⟨⟨earlier, d, front, rfl, hd, haccepts, ?_⟩, ?_⟩
    · exact fun other hother => hlater other (List.mem_append_left _ hother)
    · rintro other rfl
      exact hlater other (List.mem_append_right _ List.mem_cons_self)

theorem inForce_watch : InForce b (calls ++ [.watch d]) directory ↔
    InForce b calls directory ∨ (d.components = directory ∧ b.accepts calls.length d = true) := by
  constructor
  · intro h
    rcases h.of_concat with ⟨hold, -⟩ | ⟨other, hother, hnew⟩
    · exact Or.inl hold
    · cases hother
      exact Or.inr hnew
  · rintro (hold | ⟨hd, haccepts⟩)
    · exact hold.concat (fun other hother => WatchCall.noConfusion hother)
    · exact ⟨calls, d, [], rfl, hd, haccepts, fun other hother => absurd hother List.not_mem_nil⟩

theorem inForce_unwatch : InForce b (calls ++ [.unwatch d]) directory ↔
    InForce b calls directory ∧ d.components ≠ directory := by
  constructor
  · intro h
    rcases h.of_concat with ⟨hold, hstays⟩ | ⟨other, hother, -⟩
    · exact ⟨hold, hstays d rfl⟩
    · cases hother
  · rintro ⟨hold, hd⟩
    refine hold.concat ?_
    intro other hother
    cases hother
    exact hd

end Calls

/-!
# Single moves
-/

/--
What a move makes of the files that are watched, of those that cannot be, and of the calls
of the backend. A file joins the others of its directory, opens a directory that has none,
or is refused with the directory; it leaves the others, or closes the directory as its last
file; or it is forgotten as one that cannot be watched. A move that fails to watch a file
names it.
-/
inductive Move (b : Backend) (w w' : Watcher) : Option FileId -> Prop where
  | joined (id : FileId) (p : Path) (hnew : w.byId.get? id = none)
      (hspared : w.unwatchable.get? id = none)
      (hcrowd : 0 < w.population (directoryOf p).components)
      (hwatched : w'.byId = w.byId.insert id p) (hunwatchable : w'.unwatchable = w.unwatchable)
      (hcalls : w'.calls = w.calls) : Move b w w' none
  | opened (id : FileId) (p : Path) (hnew : w.byId.get? id = none)
      (hspared : w.unwatchable.get? id = none)
      (hcrowd : w.population (directoryOf p).components = 0)
      (haccepts : b.accepts w.calls.length (directoryOf p) = true)
      (hwatched : w'.byId = w.byId.insert id p) (hunwatchable : w'.unwatchable = w.unwatchable)
      (hcalls : w'.calls = w.calls ++ [.watch (directoryOf p)]) : Move b w w' none
  | refused (id : FileId) (p : Path) (hnew : w.byId.get? id = none)
      (hspared : w.unwatchable.get? id = none)
      (hcrowd : w.population (directoryOf p).components = 0)
      (hrefuses : b.accepts w.calls.length (directoryOf p) = false)
      (hwatched : w'.byId = w.byId) (hunwatchable : w'.unwatchable = w.unwatchable.insert id p)
      (hcalls : w'.calls = w.calls ++ [.watch (directoryOf p)]) : Move b w w' (some id)
  | left (id : FileId) (p : Path) (hold : w.byId.get? id = some p)
      (hcrowd : 1 < w.population (directoryOf p).components)
      (hwatched : w'.byId = w.byId.erase id) (hunwatchable : w'.unwatchable = w.unwatchable)
      (hcalls : w'.calls = w.calls) : Move b w w' none
  | closed (id : FileId) (p : Path) (hold : w.byId.get? id = some p)
      (hcrowd : w.population (directoryOf p).components = 1)
      (hwatched : w'.byId = w.byId.erase id) (hunwatchable : w'.unwatchable = w.unwatchable)
      (hcalls : w'.calls = w.calls ++ [.unwatch (directoryOf p)]) : Move b w w' none
  | forgotten (id : FileId)
      (hwatched : w'.byId = w.byId) (hunwatchable : w'.unwatchable = w.unwatchable.erase id)
      (hcalls : w'.calls = w.calls) : Move b w w' none

/-- Move after move, with the files that could not be watched in their order. -/
inductive Course (b : Backend) (w : Watcher) : List FileId -> Watcher -> Prop where
  | rest : Course b w [] w
  | move (failed : List FileId) (named : Option FileId) (v w' : Watcher)
      (hcourse : Course b w failed v) (hmove : Move b v w' named) :
      Course b w (failed ++ named.toList) w'

variable {b : Backend} {w v w' : Watcher} {named : Option FileId} {failed more : List FileId}

/-- The backend watches the directories that hold watched files. -/
def Steady (b : Backend) (w : Watcher) : Prop :=
  forall directory, InForce b w.calls directory ↔ 0 < w.population directory

theorem population_of_byId_eq (h : w'.byId = w.byId) (directory : List Component) :
    w'.population directory = w.population directory := by
  rw [population, h, population]

theorem Move.steady (hmove : Move b w w' named) (h : w.Steady b) : w'.Steady b := by
  intro directory
  cases hmove with
  | joined id p hnew hspared hcrowd hwatched hunwatchable hcalls =>
      rw [hcalls, h directory, population_insert hnew hwatched]
      split
      · rename_i hsame
        rw [hsame] at hcrowd
        omega
      · rfl
  | opened id p hnew hspared hcrowd haccepts hwatched hunwatchable hcalls =>
      rw [hcalls, inForce_watch, h directory, population_insert hnew hwatched]
      split
      · rename_i hsame
        exact iff_of_true (Or.inr ⟨hsame, haccepts⟩) (by omega)
      · rename_i hother
        simp [hother]
  | refused id p hnew hspared hcrowd hrefuses hwatched hunwatchable hcalls =>
      rw [hcalls, inForce_watch, h directory, population_of_byId_eq hwatched, hrefuses]
      simp
  | left id p hold hcrowd hwatched hunwatchable hcalls =>
      rw [hcalls, h directory, population_erase hold hwatched]
      split
      · rename_i hsame
        rw [population_erase hold hwatched, hsame, if_pos rfl] at hcrowd
        omega
      · rfl
  | closed id p hold hcrowd hwatched hunwatchable hcalls =>
      rw [hcalls, inForce_unwatch, h directory, population_erase hold hwatched]
      split
      · rename_i hsame
        rw [population_erase hold hwatched, hsame, if_pos rfl] at hcrowd
        exact iff_of_false (fun hboth => hboth.2 hsame) (by omega)
      · rename_i hother
        simp [hother]
  | forgotten id hwatched hunwatchable hcalls =>
      rw [hcalls, h directory, population_of_byId_eq hwatched]

/-!
# Courses of moves
-/

theorem Move.course (hmove : Move b w w' named) : Course b w named.toList w' :=
  .move [] named w w' .rest hmove

theorem Course.silent (hcourse : Course b w failed v) (hmove : Move b v w' none) :
    Course b w failed w' := by
  have hmore := Course.move failed none v w' hcourse hmove
  rw [Option.toList_none, List.append_nil] at hmore
  exact hmore

theorem Course.trans (hfirst : Course b w failed v) (hthen : Course b v more w') :
    Course b w (failed ++ more) w' := by
  induction hthen with
  | rest =>
      rw [List.append_nil]
      exact hfirst
  | move failed' named v' w' hcourse hmove ih =>
      rw [← List.append_assoc]
      exact .move _ named v' w' ih hmove

theorem Course.steady (hcourse : Course b w failed w') (h : w.Steady b) : w'.Steady b := by
  induction hcourse with
  | rest => exact h
  | move failed named v w' hcourse hmove ih => exact hmove.steady ih

end Watcher
end SymbolIndex
