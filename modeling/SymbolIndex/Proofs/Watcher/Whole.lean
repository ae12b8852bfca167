import SymbolIndex.Proofs.Watcher.Tidy

/-!
# Whole watchers

A watcher keeps a file at three places: under its id, under its path, and in the count of
its directory. In a whole one the three agree, because no two files are watched at one
place: the path of a file has the name that its id stands for. Files that are removed
take their own entries along and no others.
-/

namespace SymbolIndex

namespace Table

variable {κ α : Type} [DecidableEq κ] {t : Table κ α} {k : κ} {v : α}

theorem put_of_lookup_eq_none {es : List (κ × α)} (h : lookup k es = none) :
    put k v es = es ++ [(k, v)] := by
  induction es with
  | nil => rfl
  | cons e rest ih =>
      rw [lookup] at h
      split at h
      · cases h
      · rename_i hk
        rw [put, if_neg hk, ih h, List.cons_append]

theorem perm_of_lookup {es : List (κ × α)} (hnodup : (es.map Prod.fst).Nodup)
    (h : lookup k es = some v) : es.Perm ((k, v) :: es.filter fun e => decide (e.1 ≠ k)) := by
  induction es with
  | nil => cases h
  | cons e rest ih =>
      rw [List.map_cons, List.nodup_cons] at hnodup
      by_cases hk : e.1 = k
      · rw [lookup, if_pos hk] at h
        cases h
        have hrest : rest.filter (fun e => decide (e.1 ≠ k)) = rest := by
          apply List.filter_eq_self.mpr
          intro other hother
          apply decide_eq_true
          intro heq
          exact hnodup.1 (hk ▸ heq ▸ List.mem_map_of_mem hother)
        rw [List.filter_cons_of_neg (by simp [hk]), hrest, ← hk]
      · rw [lookup, if_neg hk] at h
        rw [List.filter_cons_of_pos (by simp [hk])]
        exact ((ih hnodup.2 h).cons e).trans (List.Perm.swap _ _ _)

theorem countP_insert (h : t.get? k = none) (p : κ × α -> Bool) :
    (t.insert k v).entries.countP p = t.entries.countP p + if p (k, v) = true then 1 else 0 := by
  show (put k v t.entries).countP p = _
  rw [put_of_lookup_eq_none h, List.countP_append, List.countP_singleton]

theorem countP_erase (h : t.get? k = some v) (p : κ × α -> Bool) :
    t.entries.countP p = (t.erase k).entries.countP p + if p (k, v) = true then 1 else 0 := by
  rw [(perm_of_lookup t.nodup h).countP_eq p, List.countP_cons]
  rfl

end Table

namespace Watcher

variable {b : Backend} {w w' : Watcher} {id other : FileId} {p : Path} {ids : List FileId}
  {files : List (FileId × Path)} {nameOf nameOf' : FileId -> Option String}

/-- How many files are watched in a directory. -/
def population (w : Watcher) (directory : List Component) : Nat :=
  w.byId.entries.countP fun e => decide ((directoryOf e.2).components = directory)

theorem population_insert (hnew : w.byId.get? id = none) (hids : w'.byId = w.byId.insert id p)
    (directory : List Component) : w'.population directory =
      w.population directory + if (directoryOf p).components = directory then 1 else 0 := by
  rw [population, hids, Table.countP_insert hnew, population]
  simp

theorem population_erase (hp : w.byId.get? id = some p) (hids : w'.byId = w.byId.erase id)
    (directory : List Component) : w.population directory =
      w'.population directory + if (directoryOf p).components = directory then 1 else 0 := by
  rw [population, Table.countP_erase hp, population, hids]
  simp

/-- The ids, the paths and the counts of the directories say the same about what is watched. -/
structure Paired (w : Watcher) : Prop where
  listed : w.Listed
  found : forall id p, w.byId.get? id = some p -> w.byPath.get? p.components = some id
  counted : forall directory, (w.directories.get? directory).getD 0 = w.population directory

/--
The ids, the paths and the counts of the directories say the same about which files are
watched, and each of them is watched at a path of the name that its id stands for.
-/
structure Whole (nameOf : FileId -> Option String) (w : Watcher) : Prop where
  listed : w.Listed
  found : forall id p, w.byId.get? id = some p -> w.byPath.get? p.components = some id
  counted : forall directory, (w.directories.get? directory).getD 0 = w.population directory
  named : forall id p, w.byId.get? id = some p -> nameOf id = some p.normalize.display

theorem Whole.paired (h : w.Whole nameOf) : w.Paired := ⟨h.listed, h.found, h.counted⟩

theorem paired_empty : empty.Paired where
  listed := (tidy_empty (fun _ => none) .empty).listed
  found := by
    intro id p hp
    cases hp
  counted := fun _ => rfl

theorem whole_empty (nameOf : FileId -> Option String) : empty.Whole nameOf where
  listed := paired_empty.listed
  found := paired_empty.found
  counted := paired_empty.counted
  named := by
    intro id p hp
    cases hp

theorem Paired.of_same (h : w.Paired) (hpaths : w'.byPath = w.byPath) (hids : w'.byId = w.byId)
    (hdirectories : w'.directories = w.directories) : w'.Paired where
  listed := by
    rw [Listed, hpaths, hids]
    exact h.listed
  found := by
    rw [hpaths, hids]
    exact h.found
  counted := by
    rw [hdirectories]
    unfold population
    rw [hids]
    exact h.counted

theorem Whole.of_same (h : w.Whole nameOf) (hpaths : w'.byPath = w.byPath)
    (hids : w'.byId = w.byId) (hdirectories : w'.directories = w.directories) :
    w'.Whole nameOf := by
  have hpaired := h.paired.of_same hpaths hids hdirectories
  refine ⟨hpaired.listed, hpaired.found, hpaired.counted, ?_⟩
  rw [hids]
  exact h.named

theorem Whole.of_names (h : w.Whole nameOf)
    (hnames : forall id name, nameOf id = some name -> nameOf' id = some name) : w.Whole nameOf' :=
  ⟨h.listed, h.found, h.counted, fun id p hp => hnames id _ (h.named id p hp)⟩

theorem Paired.eq_of_components_eq (h : w.Paired) {q : Path} (hp : w.byId.get? id = some p)
    (hq : w.byId.get? other = some q) (hsame : p.components = q.components) : id = other := by
  have hid := h.found id p hp
  rw [hsame, h.found other q hq] at hid
  exact (Option.some.inj hid).symm

/-!
# Letting files go
-/

theorem getD_directories_leave (w : Watcher) (p : Path) (directory : List Component) :
    ((w.leave p).directories.get? directory).getD 0 =
      (w.directories.get? directory).getD 0 - if p.components = directory then 1 else 0 := by
  unfold leave
  cases hcount : w.directories.get? p.components with
  | none =>
      dsimp only
      by_cases hsame : p.components = directory
      · rw [← hsame, hcount, Option.getD_none, Nat.zero_sub]
      · rw [if_neg hsame, Nat.sub_zero]
  | some count =>
      dsimp only
      split
      · rw [Table.get?_insert]
        split
        · rename_i hsame
          rw [← hsame, hcount]
          rfl
        · rfl
      · rename_i hone
        show ((w.directories.erase p.components).get? directory).getD 0 = _
        rw [Table.get?_erase]
        split
        · rename_i hsame
          rw [← hsame, hcount, Option.getD_none, Option.getD_some]
          omega
        · rfl

theorem drop_of_get? (hp : w.byId.get? id = some p) :
    (w.drop id).byId = w.byId.erase id ∧ (w.drop id).byPath = w.byPath.erase p.components ∧
      forall directory, ((w.drop id).directories.get? directory).getD 0 =
        (w.directories.get? directory).getD 0 -
          if (directoryOf p).components = directory then 1 else 0 := by
  unfold drop
  rw [hp]
  dsimp only
  rw [byId_leave, byPath_leave]
  exact ⟨rfl, rfl, fun directory => getD_directories_leave _ _ directory⟩

theorem drop_of_get?_eq_none (hp : w.byId.get? id = none) : w.drop id = w := by
  unfold drop
  rw [hp]

theorem Paired.drop (h : w.Paired) (id : FileId) : (w.drop id).Paired := by
  cases hknown : w.byId.get? id with
  | none =>
      rw [drop_of_get?_eq_none hknown]
      exact h
  | some p =>
      rcases drop_of_get? hknown with ⟨hids, hpaths, hdirectories⟩
      refine ⟨h.listed.drop id, ?_, ?_⟩
      · intro other q hq
        rw [get?_byId_drop] at hq
        split at hq
        · cases hq
        · rename_i hother
          have hapart : p.components ≠ q.components :=
            fun hsame => hother (h.eq_of_components_eq hknown hq hsame)
          rw [hpaths, Table.get?_erase, if_neg hapart]
          exact h.found other q hq
      · intro directory
        rw [hdirectories, h.counted, population_erase hknown hids, Nat.add_sub_cancel]

theorem Whole.drop (h : w.Whole nameOf) (id : FileId) : (w.drop id).Whole nameOf := by
  have hpaired := h.paired.drop id
  refine ⟨hpaired.listed, hpaired.found, hpaired.counted, ?_⟩
  intro other q hq
  rw [get?_byId_drop] at hq
  split at hq
  · cases hq
  · exact h.named other q hq

theorem Whole.foldl_drop (h : w.Whole nameOf) (ids : List FileId) :
    (ids.foldl Watcher.drop w).Whole nameOf := by
  induction ids generalizing w with
  | nil => exact h
  | cons id rest ih => exact ih (h.drop id)

theorem Whole.removeOne (h : w.Whole nameOf) (id : FileId) :
    ({ w.drop id with unwatchable := w.unwatchable.erase id } : Watcher).Whole nameOf :=
  (h.drop id).of_same rfl rfl rfl

theorem Whole.remove (h : w.Whole nameOf) (ids : List FileId) : (w.remove ids).Whole nameOf := by
  unfold Watcher.remove
  induction ids generalizing w with
  | nil => exact h
  | cons id rest ih => exact ih (h.removeOne id)

theorem Whole.get?_byPath_drop (h : w.Whole nameOf) (id : FileId) (cs : List Component) :
    (w.drop id).byPath.get? cs = (w.byPath.get? cs).filter fun found => decide (found ≠ id) := by
  have hself : (forall found, w.byPath.get? cs = some found -> found ≠ id) ->
      (w.byPath.get? cs).filter (fun found => decide (found ≠ id)) = w.byPath.get? cs := by
    intro hothers
    cases hfound : w.byPath.get? cs with
    | none => rfl
    | some found => rw [Option.filter_some, if_pos (decide_eq_true (hothers found hfound))]
  cases hknown : w.byId.get? id with
  | none =>
      rw [drop_of_get?_eq_none hknown, hself]
      rintro found hfound rfl
      rcases h.listed cs found hfound with ⟨q, hq, -⟩
      rw [hknown] at hq
      cases hq
  | some p =>
      rw [(drop_of_get? hknown).2.1, Table.get?_erase]
      by_cases hcs : p.components = cs
      · rw [if_pos hcs, ← hcs, h.found id p hknown, Option.filter_some, if_neg (by simp)]
      · rw [if_neg hcs, hself]
        rintro found hfound rfl
        rcases h.listed cs found hfound with ⟨q, hq, hcomponents⟩
        rw [hknown] at hq
        cases hq
        exact hcs hcomponents

theorem Whole.get?_byPath_remove (h : w.Whole nameOf) (ids : List FileId) (cs : List Component) :
    (w.remove ids).byPath.get? cs =
      (w.byPath.get? cs).filter fun found => decide (found ∉ ids) := by
  unfold Watcher.remove
  induction ids generalizing w with
  | nil => cases hfound : w.byPath.get? cs <;> simp [hfound, Option.filter_some]
  | cons id rest ih =>
      rw [List.foldl_cons, ih (h.removeOne id), h.get?_byPath_drop id cs, Option.filter_filter]
      congr 1
      funext found
      by_cases hid : found = id <;> simp [hid]

theorem get?_unwatchable_remove (w : Watcher) (ids : List FileId) (other : FileId) :
    (w.remove ids).unwatchable.get? other =
      if other ∈ ids then none else w.unwatchable.get? other := by
  unfold remove
  induction ids generalizing w with
  | nil => simp
  | cons id rest ih =>
      rw [List.foldl_cons, ih]
      dsimp only
      rw [Table.get?_erase]
      by_cases hid : id = other
      · simp [hid]
      · simp [hid, Ne.symm hid]

/-!
# Adding files
-/

theorem Paired.watch (h : w.Paired) (hnew : w.byId.get? id = none)
    (hfree : forall other q, w.byId.get? other = some q -> q.components ≠ p.components)
    (hpaths : w'.byPath = w.byPath.insert p.components id) (hids : w'.byId = w.byId.insert id p)
    (hdirectories : w'.directories = w.directories.insert (directoryOf p).components
      ((w.directories.get? (directoryOf p).components).getD 0 + 1)) : w'.Paired where
  listed := h.listed.watch hnew hpaths hids
  found := by
    intro other q hq
    rw [hids, Table.get?_insert] at hq
    rw [hpaths, Table.get?_insert]
    split at hq
    · rename_i hid
      cases hq
      rw [if_pos rfl, hid]
    · rw [if_neg (Ne.symm (hfree other q hq))]
      exact h.found other q hq
  counted := by
    intro directory
    rw [hdirectories, Table.get?_insert, population_insert hnew hids, ← h.counted directory]
    split
    · rename_i hsame
      rw [Option.getD_some, hsame]
    · rfl

theorem Whole.watch (h : w.Whole nameOf) (hnew : w.byId.get? id = none)
    (hname : nameOf id = some p.normalize.display)
    (hfree : forall other q, w.byId.get? other = some q -> q.components ≠ p.components)
    (hpaths : w'.byPath = w.byPath.insert p.components id) (hids : w'.byId = w.byId.insert id p)
    (hdirectories : w'.directories = w.directories.insert (directoryOf p).components
      ((w.directories.get? (directoryOf p).components).getD 0 + 1)) : w'.Whole nameOf := by
  have hpaired := h.paired.watch hnew hfree hpaths hids hdirectories
  refine ⟨hpaired.listed, hpaired.found, hpaired.counted, ?_⟩
  intro other q hq
  rw [hids, Table.get?_insert] at hq
  split at hq
  · rename_i hid
    cases hq
    rw [← hid]
    exact hname
  · exact h.named other q hq

theorem Whole.addOne (h : w.Whole nameOf)
    (hdistinct : forall a c name, nameOf a = some name -> nameOf c = some name -> a = c)
    (hname : nameOf id = some p.normalize.display) (b : Backend) :
    (Watcher.addOne b w id p).2.Whole nameOf := by
  have hdropped : (w.drop id).byId.get? id = none := by rw [get?_byId_drop, if_pos rfl]
  have hwhole := h.removeOne id
  -- whoever is watched at the same place has the same name
  have hfree : forall other q, (w.drop id).byId.get? other = some q ->
      q.components ≠ p.components := by
    intro other q hq hsame
    have hother := (h.drop id).named other q hq
    rw [Path.normalize, hsame, ← Path.normalize] at hother
    rw [hdistinct other id _ hother hname, hdropped] at hq
    cases hq
  unfold Watcher.addOne
  split
  · exact h
  · unfold insert
    dsimp only
    by_cases hcount : ((w.drop id).directories.get? (directoryOf p).components).getD 0 = 0
    · rw [if_pos hcount]
      cases b.accepts (w.drop id).calls.length (directoryOf p) with
      | true => exact (h.drop id).watch hdropped hname hfree rfl rfl rfl
      | false => exact (h.drop id).of_same rfl rfl rfl
    · rw [if_neg hcount]
      exact (h.drop id).watch hdropped hname hfree rfl rfl rfl

theorem Whole.add (h : w.Whole nameOf)
    (hdistinct : forall a c name, nameOf a = some name -> nameOf c = some name -> a = c)
    (hnames : forall f, f ∈ files -> nameOf f.1 = some f.2.normalize.display) (b : Backend) :
    (Watcher.add b w files).Whole nameOf := by
  have heach : (Watcher.addEach b w files).2.Whole nameOf := by
    induction files generalizing w with
    | nil => exact h
    | cons file rest ih =>
        exact ih (h.addOne hdistinct (hnames file List.mem_cons_self) b)
          (fun f hf => hnames f (List.mem_cons_of_mem _ hf))
  unfold Watcher.add
  dsimp only
  split
  · exact heach
  · exact heach.of_same rfl rfl rfl

theorem Whole.flush (h : w.Whole nameOf) (d : Disk) (events : List Path) :
    (Watcher.flush w d events).Whole nameOf := by
  rcases flush_eq w d events with ⟨news, heq, -⟩
  rw [heq]
  exact (h.foldl_drop _).of_same rfl rfl rfl

end Watcher
end SymbolIndex
