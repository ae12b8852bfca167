import Mathlib.Data.Option.Basic
import SymbolIndex.Proofs.Path.Parent
import SymbolIndex.Proofs.Watcher.Representation
import SymbolIndex.Proofs.Watcher.Tracking

/-!
# Spellings of watched paths

The tables of a watcher are keyed by components, and the directory that is watched for an
absolute path has all its components but the last. So it makes no difference to what is
watched how a path is spelled, as long as its components stay and the directory can be
watched under either spelling.
-/

namespace SymbolIndex

namespace Path

/-- One path, or an absolute path in two spellings. -/
def Respells (p q : Path) : Prop :=
  p = q ∨ (p.isAbsolute = true ∧ q.isAbsolute = true ∧ p.components = q.components)

namespace Respells

variable {p q : Path}

theorem refl (p : Path) : Respells p p := Or.inl rfl

theorem components_eq (h : Respells p q) : p.components = q.components := by
  rcases h with rfl | ⟨-, -, hsame⟩
  · rfl
  · exact hsame

end Respells

end Path

/-- A directory can be watched under all its spellings or under none. -/
def Backend.Blind (b : Backend) : Prop :=
  forall n p q, p.components = q.components -> b.accepts n p = b.accepts n q

namespace Watcher

variable {b : Backend} {w w' : Watcher} {id : FileId} {p q : Path}

theorem directoryOf_of_parent {parent : Path} (h : p.parent = some parent)
    (habsolute : parent.isAbsolute = true) : directoryOf p = parent := by
  have hfull : parent.isEmpty = false := by
    rw [Path.isEmpty, Path.bytes_of_isAbsolute habsolute]
    rfl
  rw [directoryOf, h]
  dsimp only
  rw [hfull, if_neg Bool.false_ne_true]

theorem components_directoryOf (h : p.Respells q) :
    (directoryOf p).components = (directoryOf q).components := by
  rcases h with rfl | ⟨hp, hq, hsame⟩
  · rfl
  · rcases Path.parent_of_isAbsolute hp with
      ⟨hnone, hroot⟩ | ⟨parent, c, hparent, habove, hc, hcs⟩
    · rcases Path.parent_of_isAbsolute hq with
        ⟨hnone', -⟩ | ⟨parent', c', -, -, hc', hcs'⟩
      · rw [directoryOf, directoryOf, hnone, hnone']
      · rw [← hsame, hroot] at hcs'
        have hlast := (List.append_inj' (show [] ++ [Component.root] = _ from hcs') rfl).2
        exact absurd (List.singleton_inj.mp hlast).symm hc'
    · rcases Path.parent_of_isAbsolute hq with
        ⟨-, hroot'⟩ | ⟨parent', c', hparent', habove', -, hcs'⟩
      · rw [hsame, hroot'] at hcs
        have hlast := (List.append_inj' (show [] ++ [Component.root] = _ from hcs) rfl).2
        exact absurd (List.singleton_inj.mp hlast).symm hc
      · rw [directoryOf_of_parent hparent habove, directoryOf_of_parent hparent' habove']
        rw [hsame, hcs'] at hcs
        exact (List.append_inj' hcs rfl).1.symm

/-!
# Watchers that differ in spelling only
-/

structure Alike (w w' : Watcher) : Prop where
  byPath : w'.byPath = w.byPath
  byId : forall id, Option.Rel Path.Respells (w.byId.get? id) (w'.byId.get? id)
  directories : w'.directories = w.directories
  unwatchable : forall id, Option.Rel Path.Respells (w.unwatchable.get? id) (w'.unwatchable.get? id)
  calls : w'.calls.length = w.calls.length
  outbox : w'.outbox = w.outbox

/-- Two lists with the same files, each in some spelling. -/
def SameFiles (files files' : List (FileId × Path)) : Prop :=
  List.Forall₂ (fun f g => f.1 = g.1 ∧ f.2.Respells g.2) files files'

theorem SameFiles.filter {files files' : List (FileId × Path)} (h : SameFiles files files')
    (keep : FileId -> Bool) :
    SameFiles (files.filter fun f => keep f.1) (files'.filter fun f => keep f.1) := by
  induction h with
  | nil => exact .nil
  | cons hfile _ ih =>
      rw [List.filter_cons, List.filter_cons, hfile.1]
      split
      · exact .cons hfile ih
      · exact ih

theorem SameFiles.map_fst {files files' : List (FileId × Path)} (h : SameFiles files files') :
    files'.map Prod.fst = files.map Prod.fst := by
  induction h with
  | nil => rfl
  | cons hfile _ ih => rw [List.map_cons, List.map_cons, ih, hfile.1]

theorem rel_refl (o : Option Path) : Option.Rel Path.Respells o o := by
  cases o with
  | none => exact .none
  | some p => exact .some (.refl p)

theorem map_components_of_rel {o o' : Option Path} (h : Option.Rel Path.Respells o o') :
    o'.map Path.components = o.map Path.components := by
  cases h with
  | none => rfl
  | some hsame => exact congrArg some hsame.components_eq.symm

namespace Alike

theorem refl (w : Watcher) : Alike w w :=
  ⟨rfl, fun _ => rel_refl _, rfl, fun _ => rel_refl _, rfl, rfl⟩

theorem isUnwatchable (h : Alike w w') (id : FileId) :
    w'.isUnwatchable id = w.isUnwatchable id := by
  have hsame := congrArg Option.isSome (map_components_of_rel (h.unwatchable id))
  rw [Option.isSome_map, Option.isSome_map] at hsame
  exact hsame

theorem knows {t t' : Table FileId Path}
    (h : forall id, Option.Rel Path.Respells (t.get? id) (t'.get? id)) (hsame : p.Respells q)
    (id : FileId) : Watcher.knows t' id q = Watcher.knows t id p := by
  unfold Watcher.knows
  have hone := h id
  generalize t.get? id = o at hone
  generalize t'.get? id = o' at hone
  cases hone with
  | none => rfl
  | some hold =>
      dsimp only
      unfold Path.same
      rw [hold.components_eq, hsame.components_eq]

theorem lists_iff (h : Alike w w') (hsame : p.Respells q) : w'.Lists id q ↔ w.Lists id p := by
  rw [Lists, Lists, knows h.byId hsame, knows h.unwatchable hsame]

/-!
# Letting files go
-/

theorem rel_erase {t t' : Table FileId Path}
    (h : forall id, Option.Rel Path.Respells (t.get? id) (t'.get? id)) (id other : FileId) :
    Option.Rel Path.Respells ((t.erase id).get? other) ((t'.erase id).get? other) := by
  rw [Table.get?_erase, Table.get?_erase]
  split
  · exact .none
  · exact h other

theorem rel_insert {t t' : Table FileId Path}
    (h : forall id, Option.Rel Path.Respells (t.get? id) (t'.get? id)) (hsame : p.Respells q)
    (id other : FileId) :
    Option.Rel Path.Respells ((t.insert id p).get? other) ((t'.insert id q).get? other) := by
  rw [Table.get?_insert, Table.get?_insert]
  split
  · exact .some hsame
  · exact h other

theorem call (h : Alike w w') (c c' : WatchCall) : Alike (w.call c) (w'.call c') :=
  { h with calls := by simp [Watcher.call, h.calls] }

theorem leave (h : Alike w w') {directory directory' : Path}
    (hsame : directory.components = directory'.components) :
    Alike (w.leave directory) (w'.leave directory') := by
  unfold Watcher.leave
  rw [h.directories, ← hsame]
  cases w.directories.get? directory.components with
  | none => exact h
  | some count =>
      dsimp only
      split
      · exact { h with directories := rfl }
      · apply call
        exact { h with directories := rfl }

theorem drop (h : Alike w w') (id : FileId) : Alike (w.drop id) (w'.drop id) := by
  have hone := h.byId id
  unfold Watcher.drop
  generalize hp : w.byId.get? id = o at hone
  generalize hq : w'.byId.get? id = o' at hone
  cases hone with
  | none => exact h
  | some hsame =>
      dsimp only
      refine leave ?_ (components_directoryOf hsame)
      exact { h with
        byPath := by rw [h.byPath, hsame.components_eq]
        byId := rel_erase h.byId id }

theorem letGo (h : Alike w w') (id : FileId) : Alike (w.letGo id) (w'.letGo id) :=
  { h.drop id with unwatchable := rel_erase (h.drop id).unwatchable id }

theorem remove (h : Alike w w') (ids : List FileId) : Alike (w.remove ids) (w'.remove ids) := by
  rw [remove_eq, remove_eq]
  induction ids generalizing w w' with
  | nil => exact h
  | cons id rest ih => exact ih (h.letGo id)

/-!
# Adding files
-/

theorem insert (h : Alike w w') (hblind : b.Blind) (hsame : p.Respells q) (id : FileId) :
    Option.Rel Alike (Watcher.insert b w id p).1 (Watcher.insert b w' id q).1 ∧
      Alike (Watcher.insert b w id p).2 (Watcher.insert b w' id q).2 := by
  have hdirectory := components_directoryOf hsame
  have hadded : forall {v v' : Watcher} (count : Nat), Alike v v' -> Alike
      { v with
        directories := v.directories.insert (directoryOf p).components count
        byPath := v.byPath.insert p.components id
        byId := v.byId.insert id p }
      { v' with
        directories := v'.directories.insert (directoryOf q).components count
        byPath := v'.byPath.insert q.components id
        byId := v'.byId.insert id q } := by
    intro v v' count hv
    exact { hv with
      byPath := by rw [hv.byPath, hsame.components_eq]
      directories := by rw [hv.directories, hdirectory]
      byId := rel_insert hv.byId hsame id }
  have hcount : w'.directories.get? (directoryOf q).components =
      w.directories.get? (directoryOf p).components := by rw [h.directories, hdirectory]
  unfold Watcher.insert
  dsimp only
  rw [hcount, h.calls, hblind w.calls.length _ _ hdirectory]
  split
  · have hcalled := h.call (.watch (directoryOf p)) (.watch (directoryOf q))
    split
    · exact ⟨.some (hadded _ hcalled), hcalled⟩
    · exact ⟨.none, hcalled⟩
  · exact ⟨.some (hadded _ h), h⟩

theorem addOne (h : Alike w w') (hblind : b.Blind) (hsame : p.Respells q) (id : FileId) :
    (Watcher.addOne b w' id q).1 = (Watcher.addOne b w id p).1 ∧
      Alike (Watcher.addOne b w id p).2 (Watcher.addOne b w' id q).2 := by
  by_cases hlists : w.Lists id p
  · rw [addOne_of_lists hlists, addOne_of_lists ((h.lists_iff hsame).mpr hlists)]
    exact ⟨rfl, h⟩
  · rw [addOne_of_not_lists hlists, addOne_of_not_lists (mt (h.lists_iff hsame).mp hlists)]
    rcases (h.letGo id).insert hblind hsame id with ⟨hsome, hrest⟩
    generalize Watcher.insert b (w.letGo id) id p = r at hsome hrest
    generalize Watcher.insert b (w'.letGo id) id q = r' at hsome hrest
    rcases r with ⟨o, v⟩
    rcases r' with ⟨o', v'⟩
    cases hsome with
    | some hwatched => exact ⟨rfl, hwatched⟩
    | none => exact ⟨rfl, { hrest with unwatchable := rel_insert hrest.unwatchable hsame id }⟩

theorem addEach (h : Alike w w') (hblind : b.Blind) {files files' : List (FileId × Path)}
    (hfiles : SameFiles files files') :
    (Watcher.addEach b w' files').1 = (Watcher.addEach b w files).1 ∧
      Alike (Watcher.addEach b w files).2 (Watcher.addEach b w' files').2 := by
  induction hfiles generalizing w w' with
  | nil => exact ⟨rfl, h⟩
  | cons hfile _ ih =>
      rename_i f g rest rest' _
      rcases f with ⟨id, p⟩
      rcases g with ⟨id', q⟩
      rcases hfile with ⟨hid, hsame⟩
      dsimp only at hid hsame
      subst hid
      rcases h.addOne hblind hsame id with ⟨hrefused, hone⟩
      rcases ih hone with ⟨hmore, hrest⟩
      rw [Watcher.addEach, Watcher.addEach]
      dsimp only
      rw [hrefused, hmore]
      exact ⟨rfl, hrest⟩

theorem add (h : Alike w w') (hblind : b.Blind) {files files' : List (FileId × Path)}
    (hfiles : SameFiles files files') :
    Alike (Watcher.add b w files) (Watcher.add b w' files') := by
  rcases h.addEach hblind hfiles with ⟨hfailed, hwatched⟩
  unfold Watcher.add
  dsimp only
  rw [hfailed]
  split
  · exact hwatched
  · exact { hwatched with outbox := by rw [send, send, hwatched.outbox] }

end Alike

/-!
# Adding a file that is not tracked
-/

/-- No file is watched yet in the directory of a path, and it cannot be watched now. -/
def refuses (b : Backend) (w : Watcher) (p : Path) : Bool :=
  decide ((w.directories.get? (directoryOf p).components).getD 0 = 0) &&
    !b.accepts w.calls.length (directoryOf p)

theorem not_tracks_iff : ¬ w.Tracks id ↔ w.byId.get? id = none ∧ w.unwatchable.get? id = none := by
  rw [Tracks, not_or, Bool.not_eq_true, Bool.not_eq_true, isWatched, isUnwatchable,
    Table.contains_eq_false_iff, Table.contains_eq_false_iff]

theorem addOne_of_not_tracks (b : Backend) (p : Path) (h : ¬ w.Tracks id) :
    (addOne b w id p).2.isUnwatchable id = w.refuses b p ∧
      (addOne b w id p).2.place? id = if w.refuses b p then none else some p.components := by
  rcases not_tracks_iff.mp h with ⟨hwatched, hrefused⟩
  have hlists : ¬ w.Lists id p := fun hlists => h hlists.tracks
  have hgone : w.letGo id = w := by
    rw [letGo, drop_of_get?_eq_none hwatched, Table.erase_eq_self hrefused]
  rw [addOne_of_not_lists hlists, hgone]
  unfold insert refuses
  dsimp only
  by_cases hcount : (w.directories.get? (directoryOf p).components).getD 0 = 0
  · rw [if_pos hcount]
    cases haccepts : b.accepts w.calls.length (directoryOf p) with
    | true => simp [isUnwatchable, place?, call, Table.contains, hrefused]
    | false => simp [isUnwatchable, place?, call, Table.contains, hwatched, hcount]
  · rw [if_neg hcount]
    simp [isUnwatchable, place?, Table.contains, hrefused, hcount]

theorem place?_add_singleton (b : Backend) (w : Watcher) (id : FileId) (p : Path) (other : FileId) :
    (add b w [(id, p)]).place? other = (addOne b w id p).2.place? other ∧
      (add b w [(id, p)]).isUnwatchable other = (addOne b w id p).2.isUnwatchable other := by
  unfold add addEach addEach
  dsimp only
  split
  · exact ⟨rfl, rfl⟩
  · exact ⟨rfl, rfl⟩

end Watcher
end SymbolIndex
