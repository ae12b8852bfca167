import SymbolIndex.Proofs.Table
import SymbolIndex.Watcher

/-!
# What adding files does

A file that is added is listed under its path from then on, as watched or as unwatchable,
and nothing is said about the other files. Adding it again under the same path changes
nothing. Only files that cannot be watched are reported as removed, and a file in a
directory that cannot be watched is one of them.
-/

namespace SymbolIndex
namespace Watcher

variable {b : Backend} {w w' : Watcher} {id other : FileId} {p q : Path}

/-!
# Letting a file go
-/

theorem byId_leave (w : Watcher) (directory : Path) : (w.leave directory).byId = w.byId := by
  unfold leave
  split
  · split <;> rfl
  · rfl

theorem outbox_leave (w : Watcher) (directory : Path) :
    (w.leave directory).outbox = w.outbox := by
  unfold leave
  split
  · split <;> rfl
  · rfl

theorem unwatchable_leave (w : Watcher) (directory : Path) :
    (w.leave directory).unwatchable = w.unwatchable := by
  unfold leave
  split
  · split <;> rfl
  · rfl

theorem directories_leave {cs : List Component} (h : w.directories.get? cs = none)
    (directory : Path) : (w.leave directory).directories.get? cs = none := by
  unfold leave
  cases hcount : w.directories.get? directory.components with
  | none => exact h
  | some count =>
      have hne : directory.components ≠ cs := by
        rintro rfl
        rw [h] at hcount
        cases hcount
      dsimp only
      split
      · rw [Table.get?_insert, if_neg hne]
        exact h
      · show (w.directories.erase directory.components).get? cs = none
        rw [Table.get?_erase, if_neg hne]
        exact h

@[simp] theorem unwatchable_drop (w : Watcher) (id : FileId) :
    (w.drop id).unwatchable = w.unwatchable := by
  unfold drop
  split
  · rfl
  · rw [unwatchable_leave]

@[simp] theorem outbox_drop (w : Watcher) (id : FileId) : (w.drop id).outbox = w.outbox := by
  unfold drop
  split
  · rfl
  · rw [outbox_leave]

theorem get?_byId_drop (w : Watcher) (id other : FileId) :
    (w.drop id).byId.get? other = if id = other then none else w.byId.get? other := by
  unfold drop
  cases hknown : w.byId.get? id with
  | some p =>
      dsimp only
      rw [byId_leave, Table.get?_erase]
  | none =>
      by_cases hother : id = other
      · rw [if_pos hother, ← hother]
        exact hknown
      · rw [if_neg hother]

theorem directories_drop {cs : List Component} (h : w.directories.get? cs = none)
    (id : FileId) : (w.drop id).directories.get? cs = none := by
  unfold drop
  split
  · exact h
  · apply directories_leave
    exact h

/-!
# Adding one file
-/

/-- The watcher has a file under this path, whether it can watch it or not. -/
def Lists (w : Watcher) (id : FileId) (p : Path) : Prop :=
  knows w.byId id p = true ∨ knows w.unwatchable id p = true

/-- What happens when a file is added: it is listed already, or it is watched, or it cannot be. -/
inductive Added (b : Backend) (w : Watcher) (id : FileId) (p : Path) : Bool × Watcher -> Prop where
  | listed (hlisted : w.Lists id p) : Added b w id p (false, w)
  | watched (w' : Watcher)
      (hwatched : forall other, w'.byId.get? other =
        if id = other then some p else w.byId.get? other)
      (hunwatchable : forall other, w'.unwatchable.get? other =
        if id = other then none else w.unwatchable.get? other)
      (hdirectories : forall cs, cs ≠ (directoryOf p).components ->
        w.directories.get? cs = none -> w'.directories.get? cs = none)
      (hmay : (exists calls, b.accepts calls (directoryOf p) = true) ∨
        w.directories.get? (directoryOf p).components ≠ none)
      (houtbox : w'.outbox = w.outbox) : Added b w id p (false, w')
  | refused (w' : Watcher)
      (hwatched : forall other, w'.byId.get? other =
        if id = other then none else w.byId.get? other)
      (hunwatchable : forall other, w'.unwatchable.get? other =
        if id = other then some p else w.unwatchable.get? other)
      (hdirectories : forall cs, w.directories.get? cs = none -> w'.directories.get? cs = none)
      (houtbox : w'.outbox = w.outbox)
      (hrefuses : exists calls, b.accepts calls (directoryOf p) = false) : Added b w id p (true, w')

theorem added_addOne (b : Backend) (w : Watcher) (id : FileId) (p : Path) :
    Added b w id p (addOne b w id p) := by
  have hrest : forall other, (w.unwatchable.erase id).get? other =
      if id = other then none else w.unwatchable.get? other :=
    fun other => Table.get?_erase w.unwatchable id other
  have hdropped : forall other, (w.drop id).byId.get? other =
      if id = other then none else w.byId.get? other := get?_byId_drop w id
  have hwatched : forall other, ((w.drop id).byId.insert id p).get? other =
      if id = other then some p else w.byId.get? other := by
    intro other
    rw [Table.get?_insert, hdropped]
    split <;> rfl
  have hdirectories : forall (cs : List Component) (count : Nat),
      cs ≠ (directoryOf p).components -> w.directories.get? cs = none ->
      ((w.drop id).directories.insert (directoryOf p).components count).get? cs = none := by
    intro cs count hne hnone
    rw [Table.get?_insert, if_neg (Ne.symm hne)]
    exact directories_drop hnone id
  unfold addOne
  split
  · rename_i hlisted
    exact .listed (by simpa [Lists] using hlisted)
  · unfold insert
    dsimp only
    by_cases hcount : ((w.drop id).directories.get? (directoryOf p).components).getD 0 = 0
    · rw [if_pos hcount]
      cases haccepts : b.accepts (w.drop id).calls.length (directoryOf p) with
      | true =>
          refine .watched _ hwatched (fun other => ?_)
            (fun cs hne hnone => hdirectories cs _ hne hnone) (Or.inl ⟨_, haccepts⟩)
            (outbox_drop w id)
          exact (congrArg (fun t => (Table.erase t id).get? other)
            (unwatchable_drop w id)).trans (hrest other)
      | false =>
          refine .refused _ hdropped (fun other => ?_)
            (fun cs hnone => directories_drop hnone id) (outbox_drop w id) ⟨_, haccepts⟩
          show (((w.drop id).unwatchable.erase id).insert id p).get? other = _
          rw [Table.get?_insert, unwatchable_drop, hrest]
          split <;> rfl
    · rw [if_neg hcount]
      refine .watched _ hwatched (fun other => ?_)
        (fun cs hne hnone => hdirectories cs _ hne hnone) (Or.inr ?_) (outbox_drop w id)
      · exact (congrArg (fun t => (Table.erase t id).get? other)
          (unwatchable_drop w id)).trans (hrest other)
      · intro hnone
        rw [directories_drop hnone id] at hcount
        exact hcount rfl

theorem knows_of_get? {t : Table FileId Path} (h : t.get? id = some p) : knows t id p = true := by
  rw [knows, h]
  exact decide_eq_true rfl

theorem Lists.of_get?_eq (h : w.Lists id p) (hbyId : w'.byId.get? id = w.byId.get? id)
    (hunwatchable : w'.unwatchable.get? id = w.unwatchable.get? id) : w'.Lists id p := by
  rw [Lists, knows, knows, hbyId, hunwatchable]
  exact h

theorem lists_addOne (b : Backend) (w : Watcher) (id : FileId) (p : Path) :
    (addOne b w id p).2.Lists id p := by
  have hadded := added_addOne b w id p
  generalize addOne b w id p = r at hadded ⊢
  cases hadded with
  | listed hlisted => exact hlisted
  | watched w' hwatched => exact Or.inl (knows_of_get? (by rw [hwatched, if_pos rfl]))
  | refused w' _hwatched hunwatchable =>
      exact Or.inr (knows_of_get? (by rw [hunwatchable, if_pos rfl]))

theorem Lists.addOne (h : w.Lists id p) (b : Backend) (hsame : other = id -> q = p) :
    (Watcher.addOne b w other q).2.Lists id p := by
  by_cases hother : other = id
  · rw [hother, hsame hother]
    exact lists_addOne b w id p
  · have hadded := added_addOne b w other q
    generalize Watcher.addOne b w other q = r at hadded ⊢
    cases hadded with
    | listed hlisted => exact h
    | watched w' hwatched hunwatchable =>
        exact h.of_get?_eq (by rw [hwatched, if_neg hother]) (by rw [hunwatchable, if_neg hother])
    | refused w' hwatched hunwatchable =>
        exact h.of_get?_eq (by rw [hwatched, if_neg hother]) (by rw [hunwatchable, if_neg hother])

theorem addOne_of_lists (h : w.Lists id p) : addOne b w id p = (false, w) := by
  unfold addOne
  rw [if_pos (by simpa [Lists] using h)]

theorem outbox_addOne (b : Backend) (w : Watcher) (id : FileId) (p : Path) :
    (addOne b w id p).2.outbox = w.outbox := by
  have hadded := added_addOne b w id p
  generalize addOne b w id p = r at hadded ⊢
  cases hadded with
  | listed hlisted => rfl
  | watched w' _ _ _ _ houtbox => exact houtbox
  | refused w' _ _ _ houtbox => exact houtbox

theorem isUnwatchable_of_refused (h : (addOne b w id p).1 = true) :
    (addOne b w id p).2.isUnwatchable id = true := by
  have hadded := added_addOne b w id p
  generalize addOne b w id p = r at hadded h ⊢
  cases hadded with
  | listed hlisted => cases h
  | watched w' => cases h
  | refused w' _hwatched hunwatchable =>
      rw [isUnwatchable, Table.contains, hunwatchable, if_pos rfl]
      rfl

theorem isUnwatchable_addOne (b : Backend) (w : Watcher) (p : Path) (hne : other ≠ id) :
    (addOne b w other p).2.isUnwatchable id = w.isUnwatchable id := by
  have hadded := added_addOne b w other p
  generalize addOne b w other p = r at hadded ⊢
  cases hadded with
  | listed hlisted => rfl
  | watched w' _hwatched hunwatchable =>
      rw [isUnwatchable, Table.contains, hunwatchable, if_neg hne]
      rfl
  | refused w' _hwatched hunwatchable =>
      rw [isUnwatchable, Table.contains, hunwatchable, if_neg hne]
      rfl

theorem isUnwatchable_addOne_of_lists (h : w.isUnwatchable id = true) (hlists : w.Lists id p)
    (hsame : other = id -> q = p) : (addOne b w other q).2.isUnwatchable id = true := by
  by_cases hother : other = id
  · rw [hother, hsame hother, addOne_of_lists hlists]
    exact h
  · rw [isUnwatchable_addOne b w q hother]
    exact h

/-!
# Adding files one by one
-/

variable {files : List (FileId × Path)} {pathOf : FileId -> Option Path}

theorem isUnwatchable_addEach (b : Backend) (w : Watcher) (files : List (FileId × Path))
    {id : FileId} (h : id ∉ files.map Prod.fst) :
    (addEach b w files).2.isUnwatchable id = w.isUnwatchable id := by
  induction files generalizing w with
  | nil => rfl
  | cons file rest ih =>
      simp only [List.map_cons, List.mem_cons, not_or] at h
      exact (ih _ h.2).trans (isUnwatchable_addOne b w file.2 (Ne.symm h.1))

theorem outbox_addEach (b : Backend) (w : Watcher) (files : List (FileId × Path)) :
    (addEach b w files).2.outbox = w.outbox := by
  induction files generalizing w with
  | nil => rfl
  | cons file rest ih => exact (ih _).trans (outbox_addOne b w file.1 file.2)

theorem Lists.addEach (h : w.Lists id p) (b : Backend) (hp : pathOf id = some p)
    (hpaths : forall f, f ∈ files -> pathOf f.1 = some f.2) :
    (Watcher.addEach b w files).2.Lists id p := by
  induction files generalizing w with
  | nil => exact h
  | cons file rest ih =>
      refine ih (h.addOne b ?_) (fun f hf => hpaths f (List.mem_cons_of_mem _ hf))
      rintro rfl
      exact Option.some.inj ((hpaths file List.mem_cons_self).symm.trans hp)

theorem lists_addEach (b : Backend) (w : Watcher)
    (hpaths : forall f, f ∈ files -> pathOf f.1 = some f.2) {f : FileId × Path} (hf : f ∈ files) :
    (addEach b w files).2.Lists f.1 f.2 := by
  induction files generalizing w with
  | nil => cases hf
  | cons file rest ih =>
      have hrest : forall f, f ∈ rest -> pathOf f.1 = some f.2 :=
        fun f hf => hpaths f (List.mem_cons_of_mem _ hf)
      rcases List.mem_cons.mp hf with rfl | hlater
      · exact (lists_addOne b w f.1 f.2).addEach b (hpaths f List.mem_cons_self) hrest
      · exact ih _ hrest hlater

theorem isUnwatchable_addEach_of_lists (h : w.isUnwatchable id = true) (hlists : w.Lists id p)
    (hp : pathOf id = some p) (hpaths : forall f, f ∈ files -> pathOf f.1 = some f.2) :
    (addEach b w files).2.isUnwatchable id = true := by
  induction files generalizing w with
  | nil => exact h
  | cons file rest ih =>
      have hsame : file.1 = id -> file.2 = p := by
        rintro rfl
        exact Option.some.inj ((hpaths file List.mem_cons_self).symm.trans hp)
      exact ih (isUnwatchable_addOne_of_lists h hlists hsame) (hlists.addOne b hsame)
        (fun f hf => hpaths f (List.mem_cons_of_mem _ hf))

theorem isUnwatchable_of_mem_addEach
    (hpaths : forall f, f ∈ files -> pathOf f.1 = some f.2)
    (h : id ∈ (addEach b w files).1) :
    id ∈ files.map Prod.fst ∧ (addEach b w files).2.isUnwatchable id = true := by
  induction files generalizing w with
  | nil => cases h
  | cons file rest ih =>
      have hrest : forall f, f ∈ rest -> pathOf f.1 = some f.2 :=
        fun f hf => hpaths f (List.mem_cons_of_mem _ hf)
      have hlater : id ∈ (addEach b (addOne b w file.1 file.2).2 rest).1 ->
          id ∈ (file :: rest).map Prod.fst ∧
            (addEach b w (file :: rest)).2.isUnwatchable id = true :=
        fun hmem => ⟨List.mem_cons_of_mem _ (ih hrest hmem).1, (ih hrest hmem).2⟩
      rw [addEach] at h
      dsimp only at h
      split at h
      · rename_i hfailed
        rcases List.mem_cons.mp h with rfl | hmem
        · refine ⟨List.mem_cons_self, ?_⟩
          show (addEach b (addOne b w file.1 file.2).2 rest).2.isUnwatchable file.1 = true
          exact isUnwatchable_addEach_of_lists (isUnwatchable_of_refused hfailed)
            (lists_addOne b w file.1 file.2) (hpaths file List.mem_cons_self) hrest
        · exact hlater hmem
      · exact hlater h

theorem addEach_of_lists (h : forall f, f ∈ files -> w.Lists f.1 f.2) :
    addEach b w files = ([], w) := by
  induction files with
  | nil => rfl
  | cons file rest ih =>
      rw [addEach, addOne_of_lists (h file List.mem_cons_self)]
      dsimp only
      rw [ih fun f hf => h f (List.mem_cons_of_mem _ hf)]
      rfl

/-!
# Adding files
-/

theorem isUnwatchable_add (b : Backend) (w : Watcher) (files : List (FileId × Path))
    {id : FileId} (h : id ∉ files.map Prod.fst) :
    (add b w files).isUnwatchable id = w.isUnwatchable id := by
  unfold add
  dsimp only
  split
  · exact isUnwatchable_addEach b w files h
  · exact isUnwatchable_addEach b w files h

theorem Lists.add (h : w.Lists id p) (b : Backend) (hp : pathOf id = some p)
    (hpaths : forall f, f ∈ files -> pathOf f.1 = some f.2) :
    (Watcher.add b w files).Lists id p := by
  unfold Watcher.add
  dsimp only
  split
  · exact h.addEach b hp hpaths
  · exact h.addEach b hp hpaths

theorem lists_add (b : Backend) (w : Watcher)
    (hpaths : forall f, f ∈ files -> pathOf f.1 = some f.2) {f : FileId × Path} (hf : f ∈ files) :
    (add b w files).Lists f.1 f.2 := by
  unfold add
  dsimp only
  split
  · exact lists_addEach b w hpaths hf
  · exact lists_addEach b w hpaths hf

theorem add_of_lists (h : forall f, f ∈ files -> w.Lists f.1 f.2) : add b w files = w := by
  unfold add
  rw [addEach_of_lists h]
  rfl

theorem outbox_add (b : Backend) (w : Watcher)
    (hpaths : forall f, f ∈ files -> pathOf f.1 = some f.2) :
    (add b w files).outbox = w.outbox ∨
      exists failed, (add b w files).outbox = w.outbox ++ [.removed failed] ∧
        forall id, id ∈ failed ->
          id ∈ files.map Prod.fst ∧ (add b w files).isUnwatchable id = true := by
  unfold add
  dsimp only
  split
  · exact Or.inl (outbox_addEach b w files)
  · refine Or.inr ⟨(addEach b w files).1, ?_, fun id hid => isUnwatchable_of_mem_addEach hpaths hid⟩
    rw [send, outbox_addEach]

/-!
# Removing files
-/

theorem isUnwatchable_remove (w : Watcher) (ids : List FileId) {id : FileId} (h : id ∉ ids) :
    (w.remove ids).isUnwatchable id = w.isUnwatchable id := by
  unfold remove
  induction ids generalizing w with
  | nil => rfl
  | cons first rest ih =>
      simp only [List.mem_cons, not_or] at h
      rw [List.foldl_cons, ih _ h.2]
      simp only [isUnwatchable, Table.contains, Table.get?_erase, if_neg (Ne.symm h.1)]

theorem outbox_remove (w : Watcher) (ids : List FileId) : (w.remove ids).outbox = w.outbox := by
  unfold remove
  induction ids generalizing w with
  | nil => rfl
  | cons first rest ih =>
      rw [List.foldl_cons, ih]
      exact outbox_drop w first

theorem Lists.remove (h : w.Lists id p) {ids : List FileId} (hid : id ∉ ids) :
    (w.remove ids).Lists id p := by
  unfold Watcher.remove
  induction ids generalizing w with
  | nil => exact h
  | cons first rest ih =>
      simp only [List.mem_cons, not_or] at hid
      refine ih (h.of_get?_eq ?_ ?_) hid.2
      · show (w.drop first).byId.get? id = _
        rw [get?_byId_drop, if_neg (Ne.symm hid.1)]
      · show (w.unwatchable.erase first).get? id = _
        rw [Table.get?_erase, if_neg (Ne.symm hid.1)]

/-!
# Directories that cannot be watched
-/

/-- No file of a directory is watched, and what is watched has the path that its id stands for. -/
structure Avoids (w : Watcher) (pathOf : FileId -> Option Path) (directory : List Component) :
    Prop where
  empty : w.directories.get? directory = none
  watched : forall id p, w.byId.get? id = some p ->
    pathOf id = some p ∧ (directoryOf p).components ≠ directory

theorem avoids_empty (pathOf : FileId -> Option Path) (directory : List Component) :
    Watcher.empty.Avoids pathOf directory where
  empty := rfl
  watched := by
    intro id p hp
    cases hp

section Denied

variable {directory : List Component}

theorem Avoids.addOne (h : w.Avoids pathOf directory)
    (hdenied : forall calls d, d.components = directory -> b.accepts calls d = false)
    (hp : pathOf id = some p) : (Watcher.addOne b w id p).2.Avoids pathOf directory := by
  have hadded := added_addOne b w id p
  generalize Watcher.addOne b w id p = r at hadded ⊢
  cases hadded with
  | listed hlisted => exact h
  | watched w' hwatched hunwatchable hdirectories hmay houtbox =>
      have hne : (directoryOf p).components ≠ directory := by
        intro heq
        rcases hmay with ⟨calls, haccepts⟩ | hsome
        · rw [hdenied calls _ heq] at haccepts
          cases haccepts
        · exact hsome (heq ▸ h.empty)
      refine ⟨hdirectories _ (Ne.symm hne) h.empty, ?_⟩
      intro found q hq
      rw [hwatched] at hq
      split at hq
      · rename_i hfound
        cases hq
        exact ⟨hfound ▸ hp, hne⟩
      · exact h.watched found q hq
  | refused w' hwatched hunwatchable hdirectories houtbox =>
      refine ⟨hdirectories _ h.empty, ?_⟩
      intro found q hq
      rw [hwatched] at hq
      split at hq
      · cases hq
      · exact h.watched found q hq

theorem Avoids.isUnwatchable_addOne (h : w.Avoids pathOf directory)
    (hdenied : forall calls d, d.components = directory -> b.accepts calls d = false)
    (hp : pathOf id = some p) (hdirectory : (directoryOf p).components = directory) :
    (Watcher.addOne b w id p).2.isUnwatchable id = true := by
  have hadded := added_addOne b w id p
  generalize Watcher.addOne b w id p = r at hadded ⊢
  cases hadded with
  | listed hlisted =>
      rcases hlisted with hwatched | hunwatchable
      · rw [knows] at hwatched
        split at hwatched
        · rename_i q hq
          rcases h.watched id q hq with ⟨hpath, hne⟩
          rw [hp, Option.some.injEq] at hpath
          exact absurd (hpath ▸ hdirectory) hne
        · cases hwatched
      · rw [knows] at hunwatchable
        split at hunwatchable
        · rename_i q hq
          rw [isUnwatchable, Table.contains, hq]
          rfl
        · cases hunwatchable
  | watched w' hwatched hunwatchable hdirectories hmay houtbox =>
      rcases hmay with ⟨calls, haccepts⟩ | hsome
      · rw [hdenied calls _ hdirectory] at haccepts
        cases haccepts
      · exact absurd (hdirectory ▸ h.empty) hsome
  | refused w' hwatched hunwatchable hdirectories houtbox =>
      rw [isUnwatchable, Table.contains, hunwatchable, if_pos rfl]
      rfl

theorem Avoids.addEach (h : w.Avoids pathOf directory)
    (hdenied : forall calls d, d.components = directory -> b.accepts calls d = false)
    (hpaths : forall f, f ∈ files -> pathOf f.1 = some f.2) :
    (Watcher.addEach b w files).2.Avoids pathOf directory ∧
      forall f, f ∈ files -> (directoryOf f.2).components = directory ->
        (Watcher.addEach b w files).2.isUnwatchable f.1 = true := by
  induction files generalizing w with
  | nil => exact ⟨h, fun f hf => absurd hf List.not_mem_nil⟩
  | cons file rest ih =>
      have hfile := hpaths file List.mem_cons_self
      have hrest : forall f, f ∈ rest -> pathOf f.1 = some f.2 :=
        fun f hf => hpaths f (List.mem_cons_of_mem _ hf)
      rcases ih (h.addOne hdenied hfile) hrest with ⟨havoids, hlater⟩
      refine ⟨havoids, ?_⟩
      intro f hf hdirectory
      rcases List.mem_cons.mp hf with rfl | hmem
      · show (Watcher.addEach b (Watcher.addOne b w f.1 f.2).2 rest).2.isUnwatchable f.1 = true
        exact isUnwatchable_addEach_of_lists (h.isUnwatchable_addOne hdenied hfile hdirectory)
          (lists_addOne b w f.1 f.2) hfile hrest
      · exact hlater f hmem hdirectory

theorem Avoids.add (h : w.Avoids pathOf directory)
    (hdenied : forall calls d, d.components = directory -> b.accepts calls d = false)
    (hpaths : forall f, f ∈ files -> pathOf f.1 = some f.2) :
    (Watcher.add b w files).Avoids pathOf directory ∧
      forall f, f ∈ files -> (directoryOf f.2).components = directory ->
        (Watcher.add b w files).isUnwatchable f.1 = true := by
  rcases h.addEach hdenied hpaths with ⟨havoids, hunwatchable⟩
  unfold Watcher.add
  dsimp only
  split
  · exact ⟨havoids, hunwatchable⟩
  · exact ⟨⟨havoids.empty, havoids.watched⟩, hunwatchable⟩

end Denied

end Watcher
end SymbolIndex
