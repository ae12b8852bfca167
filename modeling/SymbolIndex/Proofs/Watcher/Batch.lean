import SymbolIndex.Proofs.Path.Parent
import SymbolIndex.Proofs.Watcher.Representation
import SymbolIndex.Proofs.Watcher.Tracking
import SymbolIndex.Watcher.Gathering

/-!
# Batches

What a batch of raw events does to a watcher depends on the set of touched paths only. A
watched file is concerned if its own path was touched, or the directory around it, unless
another watched file stands at the path of the directory. The files that are concerned
and on the disk are reported as changed, those that are not as removed, each once and in
ascending order.
-/

namespace SymbolIndex
namespace Watcher

variable {w : Watcher} {id : FileId} {p : Path} {events others : List Path} {d : Disk}

/-!
# Which files are concerned
-/

/-- Every watched path is absolute and has a parent. -/
def Rooted (w : Watcher) : Prop :=
  forall id p, w.byId.get? id = some p -> p.isAbsolute = true ∧ p.parent.isSome = true

/--
A raw event is about the path of a watched file, or about the directory around it, and no
watched file stands at the path of the directory.
-/
def Concerns (w : Watcher) (event : Path) (id : FileId) : Prop :=
  exists p, w.byId.get? id = some p ∧ (event.same p = true ∨
    exists directory, p.parent = some directory ∧ event.same directory = true ∧
      forall other q, w.byId.get? other = some q -> q.same directory = false)

theorem around_concat (cs : List Component) {c : Component} (h : c ≠ .root) :
    around (cs ++ [c]) = some cs := by
  unfold around
  rw [List.getLast?_concat]
  cases c with
  | root => exact absurd rfl h
  | here => rw [List.dropLast_concat]
  | up => rw [List.dropLast_concat]
  | name bytes => rw [List.dropLast_concat]

theorem Rooted.around_eq (h : w.Rooted) (hp : w.byId.get? id = some p) :
    exists directory, p.parent = some directory ∧ directoryOf p = directory ∧
      around p.components = some directory.components := by
  rcases h id p hp with ⟨habsolute, hparent⟩
  rcases Path.parent_of_isAbsolute habsolute with
    ⟨hnone, -⟩ | ⟨directory, c, hsome, habove, hc, hcs⟩
  · rw [hnone] at hparent
    cases hparent
  · refine ⟨directory, hsome, ?_, by rw [hcs, around_concat _ hc]⟩
    have hfull : directory.isEmpty = false := by
      rw [Path.isEmpty, Path.bytes_of_isAbsolute habove]
      rfl
    rw [directoryOf, hsome]
    dsimp only
    rw [hfull, if_neg Bool.false_ne_true]

theorem Coherent.contains_directoryOf (h : w.Coherent) (hp : w.byId.get? id = some p) :
    w.directories.contains (directoryOf p).components = true := by
  rw [h.contains_iff, population, List.countP_pos_iff]
  exact ⟨(id, p), (Table.mem_entries_iff _ _ _).mpr hp, decide_eq_true rfl⟩

theorem Coherent.get?_byPath_eq_none_iff (h : w.Coherent) (p : Path) :
    w.byPath.get? p.components = none ↔
      forall other q, w.byId.get? other = some q -> q.same p = false := by
  constructor
  · intro hnone other q hq
    apply decide_eq_false
    intro hsame
    rw [← hsame, h.paired.found other q hq] at hnone
    cases hnone
  · intro hnone
    cases hfound : w.byPath.get? p.components with
    | none => rfl
    | some other =>
        rcases h.paired.listed _ _ hfound with ⟨q, hq, hsame⟩
        have hother := hnone other q hq
        rw [Path.same, hsame, decide_eq_false_iff_not] at hother
        exact absurd rfl hother

theorem Coherent.mem_around_iff (h : w.Coherent) {cs : List Component} :
    id ∈ (w.byPath.entries.filter fun e => decide (around e.1 = some cs)).map Prod.snd ↔
      exists p, w.byId.get? id = some p ∧ around p.components = some cs := by
  rw [List.mem_map]
  constructor
  · rintro ⟨⟨place, found⟩, hentry, rfl⟩
    rcases List.mem_filter.mp hentry with ⟨hentry, haround⟩
    rcases h.paired.listed _ _ ((Table.mem_entries_iff _ _ _).mp hentry) with ⟨p, hp, rfl⟩
    exact ⟨p, hp, of_decide_eq_true haround⟩
  · rintro ⟨p, hp, haround⟩
    refine ⟨(p.components, id), List.mem_filter.mpr ⟨?_, decide_eq_true haround⟩, rfl⟩
    exact (Table.mem_entries_iff _ _ _).mpr (h.paired.found id p hp)

theorem mem_affected_iff (h : w.Coherent) (hrooted : w.Rooted) (event : Path) :
    id ∈ w.affected event ↔ w.Concerns event id := by
  unfold affected
  dsimp only
  cases hfound : w.byPath.get? event.components with
  | some found =>
      rw [List.mem_singleton]
      constructor
      · rintro rfl
        rcases h.paired.listed _ _ hfound with ⟨p, hp, hsame⟩
        exact ⟨p, hp, Or.inl (decide_eq_true hsame.symm)⟩
      · rintro ⟨p, hp, hown | ⟨directory, -, hsame, hnone⟩⟩
        · have hself := h.paired.found id p hp
          rw [← of_decide_eq_true hown, hfound] at hself
          exact (Option.some.inj hself).symm
        · rw [← h.get?_byPath_eq_none_iff, ← of_decide_eq_true hsame, hfound] at hnone
          cases hnone
  | none =>
      dsimp only
      constructor
      · intro hid
        split at hid
        · rcases h.mem_around_iff.mp hid with ⟨p, hp, haround⟩
          rcases hrooted.around_eq hp with ⟨directory, hparent, -, heq⟩
          rw [heq, Option.some.injEq] at haround
          refine ⟨p, hp, Or.inr ⟨directory, hparent, decide_eq_true haround.symm, ?_⟩⟩
          rw [← h.get?_byPath_eq_none_iff, haround]
          exact hfound
        · cases hid
      · rintro ⟨p, hp, hown | ⟨directory, hparent, hsame, -⟩⟩
        · rw [of_decide_eq_true hown, h.paired.found id p hp] at hfound
          cases hfound
        · rcases hrooted.around_eq hp with ⟨found, hsome, hdirectory, haround⟩
          rw [hparent, Option.some.injEq] at hsome
          subst hsome
          rw [of_decide_eq_true hsame, ← hdirectory, if_pos (h.contains_directoryOf hp), hdirectory]
          rw [← of_decide_eq_true hsame]
          exact h.mem_around_iff.mpr ⟨p, hp, by rw [haround, of_decide_eq_true hsame]⟩

theorem mem_touched_iff (h : w.Coherent) (hrooted : w.Rooted) (events : List Path) :
    id ∈ w.touched events ↔ exists event, event ∈ events ∧ w.Concerns event id := by
  rw [touched, FileId.mem_ascending, List.mem_flatMap]
  simp only [mem_affected_iff h hrooted]

/-!
# Which paths were touched
-/

/-- The same paths, in whatever order, spelling and number. -/
def SamePaths (events others : List Path) : Prop :=
  forall p : Path, events.any p.same = others.any p.same

theorem SamePaths.exists_same (h : SamePaths events others) {event : Path}
    (hevent : event ∈ events) :
    exists other, other ∈ others ∧ event.components = other.components := by
  have hany : events.any event.same = true :=
    List.any_eq_true.mpr ⟨event, hevent, decide_eq_true rfl⟩
  rw [h event, List.any_eq_true] at hany
  rcases hany with ⟨other, hother, hsame⟩
  exact ⟨other, hother, of_decide_eq_true hsame⟩

theorem mem_touched_of_samePaths (h : SamePaths events others) (hid : id ∈ w.touched events) :
    id ∈ w.touched others := by
  rw [touched, FileId.mem_ascending, List.mem_flatMap] at hid ⊢
  rcases hid with ⟨event, hevent, haffected⟩
  rcases h.exists_same hevent with ⟨other, hother, hsame⟩
  refine ⟨other, hother, ?_⟩
  rw [affected, ← hsame]
  exact haffected

theorem touched_congr (w : Watcher) (h : SamePaths events others) :
    w.touched events = w.touched others := by
  refine (FileId.ascending_ascending _).eq_of_mem_iff (FileId.ascending_ascending _) ?_
  intro id
  exact ⟨mem_touched_of_samePaths h, mem_touched_of_samePaths fun p => (h p).symm⟩

theorem flush_congr (w : Watcher) (d : Disk) (h : SamePaths events others) :
    w.flush d events = w.flush d others := by
  unfold flush
  rw [touched_congr w h]

end Watcher

namespace Gathering

variable {g : Gathering} {w : Watcher} {d : Disk} {events others : List Path}

theorem note_spec (g : Gathering) (event : Path) : (g.note event).watcher = g.watcher ∧
    forall p : Path, (g.note event).batch.any p.same = (g.batch.any p.same || p.same event) := by
  unfold note
  split
  · rename_i hthere
    refine ⟨rfl, ?_⟩
    intro p
    cases hsame : p.same event with
    | false => rw [Bool.or_false]
    | true =>
        -- a path that is there already stands for every spelling
        rw [Bool.or_true]
        rw [List.any_eq_true] at hthere ⊢
        rcases hthere with ⟨q, hq, hevent⟩
        exact ⟨q, hq, decide_eq_true ((of_decide_eq_true hsame).trans (of_decide_eq_true hevent))⟩
  · refine ⟨rfl, ?_⟩
    intro p
    rw [List.any_append, List.any_cons, List.any_nil, Bool.or_false]

theorem foldl_note (g : Gathering) (events : List Path) :
    (events.foldl note g).watcher = g.watcher ∧
      Watcher.SamePaths (events.foldl note g).batch (g.batch ++ events) := by
  induction events generalizing g with
  | nil =>
      rw [List.append_nil]
      exact ⟨rfl, fun p => rfl⟩
  | cons event rest ih =>
      rcases note_spec g event with ⟨hwatcher, hbatch⟩
      rcases ih (g.note event) with ⟨hrest, hall⟩
      refine ⟨hrest.trans hwatcher, ?_⟩
      intro p
      rw [List.foldl_cons, hall p, List.any_append, hbatch p, List.any_append, List.any_cons,
        Bool.or_assoc]

theorem isOnDisk_drop {id : FileId} (hgone : w.isOnDisk d id = false) :
    (w.drop id).isOnDisk d = w.isOnDisk d := by
  funext other
  unfold Watcher.isOnDisk
  rw [Watcher.get?_byId_drop]
  by_cases hid : id = other
  · rw [if_pos hid, ← hid]
    exact hgone.symm
  · rw [if_neg hid]

theorem lookUp_eq (d : Disk) (w : Watcher) (ids : List FileId) :
    lookUp d w ids = (ids.filter (w.isOnDisk d), ids.filter (fun id => !w.isOnDisk d id),
      (ids.filter fun id => !w.isOnDisk d id).foldl Watcher.drop w) := by
  induction ids generalizing w with
  | nil => rfl
  | cons id rest ih =>
      rw [lookUp]
      cases hthere : w.isOnDisk d id with
      | true =>
          rw [if_pos rfl, ih]
          simp [hthere]
      | false =>
          rw [if_neg Bool.false_ne_true, ih, isOnDisk_drop hthere]
          simp [hthere]

theorem flush_eq (g : Gathering) (d : Disk) : g.flush d = ⟨g.watcher.flush d g.batch, []⟩ := by
  rw [flush, lookUp_eq]
  rfl

/--
What a batch does. The other lists of raw events with the same set of paths do the same,
and so does the batch in whatever order it is gone through. Which files are reported as
changed and as removed is known, and the latter are no longer watched; everything else
stays, and the next batch is empty.
-/
theorem batch_is_known_by_its_paths (h : w.Coherent) (hrooted : w.Rooted) (d : Disk)
    (events : List Path) :
    (forall others, Watcher.SamePaths events others ->
        (others.foldl note ⟨w, []⟩).flush d = (events.foldl note ⟨w, []⟩).flush d ∧
          flush ⟨w, others⟩ d = (events.foldl note ⟨w, []⟩).flush d) ∧
      exists changed removed after,
        (events.foldl note ⟨w, []⟩).flush d = ⟨after, []⟩ ∧
        after.outbox = w.outbox ++ Watcher.reports changed removed ∧
        FileId.Ascending changed ∧ FileId.Ascending removed ∧
        (forall id, id ∈ changed ↔
          (exists event, event ∈ events ∧ w.Concerns event id) ∧ w.isOnDisk d id = true) ∧
        (forall id, id ∈ removed ↔
          (exists event, event ∈ events ∧ w.Concerns event id) ∧ w.isOnDisk d id = false) ∧
        (forall id, after.byId.get? id = if id ∈ removed then none else w.byId.get? id) ∧
        after.unwatchable = w.unwatchable ∧ after.Coherent := by
  -- whichever way the paths came, the batch is flushed like the list of events itself
  have hflush : forall others, Watcher.SamePaths events others ->
      flush ⟨w, others⟩ d = ⟨w.flush d events, []⟩ := by
    intro others hsame
    rw [flush_eq, Watcher.flush_congr w d hsame]
  have hnoted : forall others, Watcher.SamePaths events others ->
      (others.foldl note ⟨w, []⟩).flush d = ⟨w.flush d events, []⟩ := by
    intro others hsame
    rcases foldl_note ⟨w, []⟩ others with ⟨hwatcher, hbatch⟩
    rw [flush_eq, hwatcher, ← Watcher.flush_congr w d fun p => (hsame p).trans (hbatch p).symm]
  have hevents := hnoted events fun p => rfl
  refine ⟨?_, w.present d events, w.missing d events, w.flush d events, hevents, ?_⟩
  · intro others hsame
    rw [hevents]
    exact ⟨hnoted others hsame, hflush others hsame⟩
  · have hsorted := FileId.ascending_ascending (events.flatMap w.affected)
    refine ⟨?_, hsorted.sublist List.filter_sublist, hsorted.sublist List.filter_sublist, ?_, ?_,
      Watcher.get?_byId_flush w d events, ?_, ?_⟩
    · rw [Watcher.flush_eq_reports]
    · intro id
      rw [Watcher.present, List.mem_filter, Watcher.mem_touched_iff h hrooted]
    · intro id
      rw [Watcher.missing, List.mem_filter, Watcher.mem_touched_iff h hrooted, Bool.not_eq_true']
    · rw [Watcher.flush_eq_reports]
      exact Watcher.unwatchable_foldl_drop w _
    · rw [Watcher.flush_eq_reports]
      exact (Watcher.foldl_drop_moves h .all _).1.of_same rfl rfl rfl rfl

/-- Two files of one directory are watched. -/
def pairWatcher : Watcher :=
  .after .all [.add [(⟨2⟩, .ofString "/w/b"), (⟨1⟩, .ofString "/w/a")]]

/-- A disk with the first of the two files. -/
def pairDisk : Disk :=
  ⟨.ofList [([[119]], .directory), ([[119], [97]], .file [] 1)], []⟩

theorem directory_of_a_pair_is_touched :
    pairWatcher.Coherent ∧ pairWatcher.Rooted ∧
      ([Path.ofString "/w/b", .ofString "/w", .ofString "/w/"].foldl note ⟨pairWatcher, []⟩).flush
          pairDisk =
        ([Path.ofString "/w", .ofString "/w//b"].foldl note ⟨pairWatcher, []⟩).flush pairDisk ∧
      exists changed removed after,
        ([Path.ofString "/w", .ofString "/w//b"].foldl note ⟨pairWatcher, []⟩).flush pairDisk =
          ⟨after, []⟩ ∧
        after.outbox = Watcher.reports changed removed ∧ ⟨1⟩ ∈ changed ∧ ⟨2⟩ ∈ removed := by
  have hcoherent : pairWatcher.Coherent := by
    refine (Watcher.after_invariant .all (fun f hf => hf) ?_).1
    unfold Watcher.Distinct
    decide +kernel
  have hrooted : pairWatcher.Rooted := by
    have hall : pairWatcher.byId.entries.all
        (fun e => e.2.isAbsolute && e.2.parent.isSome) = true := by decide +kernel
    intro id p hp
    have hentry := List.all_eq_true.mp hall _ ((Table.mem_entries_iff _ _ _).mpr hp)
    rwa [Bool.and_eq_true] at hentry
  rcases batch_is_known_by_its_paths hcoherent hrooted pairDisk
    [Path.ofString "/w", .ofString "/w//b"] with
    ⟨hothers, changed, removed, after, hflush, houtbox, -, -, hchanged, hremoved, -⟩
  have hsame : Watcher.SamePaths [Path.ofString "/w", .ofString "/w//b"]
      [Path.ofString "/w/b", .ofString "/w", .ofString "/w/"] := by
    have hslash : (Path.ofString "/w/").components = (Path.ofString "/w").components := by
      decide +kernel
    have hdouble : (Path.ofString "/w//b").components = (Path.ofString "/w/b").components := by
      decide +kernel
    intro p
    simp only [List.any_cons, List.any_nil, Bool.or_false, Path.same, hslash, hdouble, Bool.or_self]
    exact Bool.or_comm _ _
  refine ⟨hcoherent, hrooted, (hothers _ hsame).1, changed, removed, after, hflush, houtbox, ?_, ?_⟩
  · rw [hchanged]
    refine ⟨⟨.ofString "/w", List.mem_cons_self, .ofString "/w/a", by decide +kernel, Or.inr
      ⟨.ofString "/w", by decide +kernel, by decide +kernel, ?_⟩⟩, by decide +kernel⟩
    rw [← hcoherent.get?_byPath_eq_none_iff]
    decide +kernel
  · rw [hremoved]
    exact ⟨⟨.ofString "/w//b", by decide, .ofString "/w/b", by decide +kernel,
      Or.inl (by decide +kernel)⟩, by decide +kernel⟩

end Gathering
end SymbolIndex
