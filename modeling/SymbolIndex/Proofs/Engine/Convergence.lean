import SymbolIndex.Proofs.Engine.Newest
import SymbolIndex.Proofs.Engine.Settling

/-!
# Submitting the same parts again

A submission is repeated once all is at rest, with the same disk and the same generated
contents. It lets nothing go and writes nothing, in any world. It enqueues nothing either
if no job that was in hand at the first time had read another state of its file than the
present one; such a job leaves its state in the store, and the file has to be indexed
once more. What holds for the engine holds for a new one on its store.
-/

namespace SymbolIndex

theorem Overlay.currentStatus_of_absent {o : Overlay} {p : Path} (h : o.contains p = false)
    (d : Disk) : o.currentStatus d p = d.status p := by
  have hnone : o.get? p = none := by
    rw [← Option.isNone_iff_eq_none, ← Option.not_isSome]
    simpa [contains] using h
  rw [currentStatus, status?, hnone]
  rfl

namespace Engine

variable {env : Environment} {e e' : Engine} {parts : List Part} {part : PreparedPart}
  {accepted : List PreparedPart} {file : FileId}

/-- Submitting the parts lets no file go, refuses what was refused and writes nothing. -/
def LeavesStore (env : Environment) (e : Engine) (parts : List Part) (rejected : List Failure) :
    Prop :=
  (updateParts env e parts).1.removed = 0 ∧ (updateParts env e parts).1.rejected = rejected ∧
    (updateParts env e parts).2.storage = e.storage

/-- Submitting the parts enqueues nothing, and the scheduler is not touched. -/
def LeavesWorkers (env : Environment) (e : Engine) (parts : List Part) : Prop :=
  (updateParts env e parts).1.enqueued = 0 ∧ (updateParts env e parts).2.scheduler = e.scheduler

/-- The directories of all files that cannot be watched are refused, at any call. -/
def StillDenied (b : Backend) (e : Engine) : Prop :=
  forall file p, e.watcher.isUnwatchable file = true -> e.path? file = some p ->
    forall calls directory, directory.components = (Watcher.directoryOf p).components ->
      b.accepts calls directory = false

/-!
# After a submission
-/

theorem updateParts_eq (env : Environment) (e : Engine) (parts : List Part) :
    let applied := applyParts env (prepare ∅ e parts).2 (prepare ∅ e parts).1.1
    (updateParts env e parts).1 =
        { applied.1 with rejected := (prepare ∅ e parts).1.2 ++ applied.1.rejected } ∧
      ((0 < applied.1.enqueued ∧ (updateParts env e parts).2 = dispatch env applied.2) ∨
        (applied.1.enqueued = 0 ∧ (updateParts env e parts).2 = applied.2)) := by
  intro applied
  refine ⟨rfl, ?_⟩
  unfold updateParts
  dsimp only
  split
  · rename_i hsome
    exact Or.inl ⟨hsome, rfl⟩
  · rename_i hnone
    exact Or.inr ⟨Nat.eq_zero_of_not_pos hnone, rfl⟩

theorem Agrees.paths_applyParts (h : e.Agrees) (env : Environment)
    (hsources : Sourced e accepted) :
    (forall id, (Engine.applyParts env e accepted).2.path? id = e.path? id) ∧
      (Engine.applyParts env e accepted).2.overlay = e.overlay ∧
      (Engine.applyParts env e accepted).2.storage.store.sources = e.storage.store.sources ∧
      e.book.Extends (Engine.applyParts env e accepted).2.book := by
  refine h.applyParts_induction (P := fun e' _ => (forall id, e'.path? id = e.path? id) ∧
    e'.overlay = e.overlay ∧ e'.storage.store.sources = e.storage.store.sources ∧
      e.book.Extends e'.book) hsources
    ⟨fun _ => rfl, rfl, rfl, PathBook.Extends.refl e.book⟩ ?_
  rintro before part rest _hagrees happlied ⟨hpaths, hoverlay, hsame, hknown⟩
  exact ⟨fun id => (happlied.paths id).trans (hpaths id), happlied.overlay.trans hoverlay,
    happlied.sources.trans hsame, hknown.trans happlied.known⟩

theorem Accepted.nodup_ids (h : Accepted e parts accepted) (hids : (parts.map Part.id).Nodup) :
    (accepted.map PreparedPart.id).Nodup :=
  h.ids.nodup hids

theorem Agrees.placed_applyParts (h : e.Agrees) (env : Environment)
    (haccepted : Accepted e parts accepted) (hids : (parts.map Part.id).Nodup)
    (houtbox : e.watcher.outbox = []) :
    Placed accepted (Engine.applyParts env e accepted).2 :=
  h.applyParts_separately [] haccepted.sourced (haccepted.nodup_ids hids)
    haccepted.disjoint (placed_nil h houtbox)
    (fun _ _ _ _ hsources hseparate hplaced => hplaced.applyPart hsources hseparate env)

theorem Agrees.settling_applyParts (h : e.Agrees) (haccepted : Accepted e parts accepted)
    (hids : (parts.map Part.id).Nodup) (houtbox : e.watcher.outbox = [])
    (hticketed : e.scheduler.Ticketed)
    (hpresent : ReadPresent env accepted e e.scheduler.jobs) :
    Settling env accepted accepted (Engine.applyParts env e accepted).2 :=
  h.applyParts_separately [] haccepted.sourced (haccepted.nodup_ids hids)
    haccepted.disjoint (settling_nil h hticketed houtbox hpresent)
    (fun _ _ _ _ hsources hseparate hsettling => hsettling.applyPart hsources hseparate)

theorem Agrees.settling_updateParts (h : e.Agrees) (hids : (parts.map Part.id).Nodup)
    (houtbox : e.watcher.outbox = []) (hticketed : e.scheduler.Ticketed)
    (hpresent : ReadPresent env (Engine.prepare ∅ e parts).1.1 (Engine.prepare ∅ e parts).2
      e.scheduler.jobs)
    (huntroubled : (Engine.updateParts env e parts).2.scheduler.UntroubledSince
      e.scheduler.reports.length) :
    Settling env (Engine.prepare ∅ e parts).1.1 (Engine.prepare ∅ e parts).1.1
      (Engine.updateParts env e parts).2 := by
  rcases h.prepare ∅ parts with ⟨hchecked, hinterned, haccepted, -⟩
  rcases hchecked.scheduler_applyParts env haccepted.sourced with ⟨queue, hscheduler⟩
  rw [hinterned.scheduler] at hscheduler
  have happlied : Settling env (Engine.prepare ∅ e parts).1.1 (Engine.prepare ∅ e parts).1.1
      (Engine.applyParts env (Engine.prepare ∅ e parts).2 (Engine.prepare ∅ e parts).1.1).2 := by
    apply hchecked.settling_applyParts haccepted hids
    · rw [hinterned.watcher]
      exact houtbox
    · rw [hinterned.scheduler]
      exact hticketed
    · rw [hinterned.scheduler]
      exact hpresent
  rcases (updateParts_eq env e parts).2 with ⟨-, heq⟩ | ⟨-, heq⟩
  · rw [heq] at huntroubled ⊢
    apply happlied.dispatch
    rw [hscheduler]
    exact huntroubled
  · rw [heq]
    exact happlied

theorem Underway.indexed_of_rest {id : PartId} {status : FileStatus}
    (h : Underway e id file status) (hqueue : e.scheduler.queue.isEmpty = true)
    (hjobs : e.scheduler.jobs = []) : e.storage.store.IsIndexed file id status := by
  cases h with
  | queued task hqueued hpart =>
      rw [(TaskQueue.isEmpty_iff _).mp hqueue file] at hqueued
      cases hqueued
  | running ticket task hruns hfile hpart =>
      rcases hruns with ⟨job, hjob, -⟩
      rw [hjobs] at hjob
      cases hjob
  | indexed hindexed => exact hindexed

/-!
# The second submission
-/

theorem Agrees.watcher_applyParts (h : e.Agrees) (env : Environment)
    (hsources : Sourced e accepted)
    (hparts : forall part, part ∈ accepted -> e.storage.store.HasPart part)
    (hlisted : forall part, part ∈ accepted -> forall f, f ∈ e.watchable part.files ->
      e.watcher.Lists f.1 f.2) :
    (Engine.applyParts env e accepted).2.watcher = e.watcher := by
  induction accepted generalizing e with
  | nil => rfl
  | cons part rest ih =>
      have hown := hsources part List.mem_cons_self
      have happlied := (h.applyPart env hown).2
      rcases h.applyPart_of_hasPart env hown (hparts part List.mem_cons_self) with
        ⟨-, hstorage, hwatcher, -⟩
      rw [Watcher.add_of_lists (hlisted part List.mem_cons_self)] at hwatcher
      rw [applyParts_cons, ← hwatcher]
      apply ih happlied.agrees (hsources.tail happlied.sources)
      · rw [hstorage]
        exact fun other hother => hparts other (List.mem_cons_of_mem _ hother)
      · intro other hother f hf
        rw [watchable_congr happlied.paths happlied.overlay] at hf
        rw [hwatcher]
        exact hlisted other (List.mem_cons_of_mem _ hother) f hf

/-- A file in a directory that is always refused is unwatchable once its part was applied. -/
theorem Agrees.isUnwatchable_applyParts (h : e.Agrees) (hsources : Sourced e accepted)
    (hids : (accepted.map PreparedPart.id).Nodup)
    (hdisjoint : accepted.Pairwise fun a b => forall file, file ∈ a.files -> file ∉ b.files)
    (hparts : forall part, part ∈ accepted -> e.storage.store.HasPart part)
    {p : Path} (havoids : e.watcher.Avoids e.path? (Watcher.directoryOf p).components)
    (hdenied : forall calls directory,
      directory.components = (Watcher.directoryOf p).components ->
        env.backend.accepts calls directory = false)
    (hpart : part ∈ accepted) (hfile : file ∈ part.files) (hp : e.path? file = some p)
    (habsent : e.overlay.contains p = false) :
    (Engine.applyParts env e accepted).2.watcher.isUnwatchable file = true := by
  induction accepted generalizing e with
  | nil => cases hpart
  | cons first rest ih =>
      have hown := hsources first List.mem_cons_self
      have happlied := (h.applyPart env hown).2
      rcases h.applyPart_of_hasPart env hown (hparts first List.mem_cons_self) with
        ⟨-, hstorage, hwatcher, -⟩
      have hadded := havoids.add hdenied (path?_of_watchable e first.files)
      rw [← hwatcher] at hadded
      rw [List.map_cons, List.nodup_cons] at hids
      rcases List.pairwise_cons.mp hdisjoint with ⟨hfirst, hrest⟩
      have hpaths : (Engine.applyPart env e first).2.path? = e.path? := funext happlied.paths
      rw [applyParts_cons]
      rcases List.mem_cons.mp hpart with rfl | hmem
      · have hunwatchable := hadded.2 (file, p) (mem_watchable.mpr ⟨hfile, hp, habsent⟩) rfl
        have hmember : (Engine.applyPart env e part).2.storage.store.members.get? file =
            some part.id := by rw [happlied.members, if_pos hfile]
        have hsame : SameAt file _ (Engine.applyParts env _ rest).2 :=
          happlied.agrees.sameAt_applyParts (hsources.tail happlied.sources) hmember hids.1
            (fun other hother => hfirst other hother file hfile)
        rw [hsame.watch]
        exact hunwatchable
      · apply ih happlied.agrees (hsources.tail happlied.sources) hids.2 hrest
        · rw [hstorage]
          exact fun other hother => hparts other (List.mem_cons_of_mem _ hother)
        · rw [hpaths]
          exact hadded.1
        · exact hmem
        · rw [hpaths]
          exact hp
        · rw [happlied.overlay]
          exact habsent

section Again

variable (h : e.Agrees) (h' : e'.Agrees)
  (hsources : forall id text, (Engine.prepare ∅ e parts).2.storage.store.source? id = some text ->
    e'.storage.store.source? id = some text)
  (hparts : forall part, part ∈ (Engine.prepare ∅ e parts).1.1 -> e'.storage.store.HasPart part)

include h h' hsources hparts

/-- Parts that passed the checks before are stored, and submitting them writes nothing. -/
theorem Agrees.leavesStore_again (env : Environment) :
    LeavesStore env e' parts (Engine.updateParts env e parts).1.rejected ∧
      (submissionTasks env (Engine.prepare ∅ e' parts).2 (Engine.prepare ∅ e parts).1.1 = [] ->
        LeavesWorkers env e' parts) := by
  rcases h.prepare ∅ parts with ⟨hchecked, -, haccepted, -⟩
  rcases h'.prepare ∅ parts with ⟨hchecked', hinterned', haccepted', -⟩
  rcases h.prepare_again h' ∅ parts hsources with ⟨hsame, hstorage⟩
  rw [hsame] at haccepted'
  have hstored : forall part, part ∈ (Engine.prepare ∅ e parts).1.1 ->
      (Engine.prepare ∅ e' parts).2.storage.store.HasPart part := by
    rw [hstorage]
    exact hparts
  have hrejected : (Engine.updateParts env e parts).1.rejected =
      (Engine.prepare ∅ e parts).1.2 := by
    rw [(updateParts_eq env e parts).1]
    dsimp only
    rw [(hchecked.report_applyParts env haccepted.sourced).2, List.append_nil]
  rcases hchecked'.applyParts_of_hasPart env haccepted'.sourced hstored with
    ⟨hreport, hunwritten, hidle⟩
  rcases updateParts_eq env e' parts with ⟨hanswer, hengine⟩
  rw [hsame] at hanswer hengine
  rw [hreport] at hanswer hengine
  unfold LeavesStore LeavesWorkers
  rw [hanswer, hrejected]
  refine ⟨⟨rfl, List.append_nil _, ?_⟩, ?_⟩
  · rw [← hstorage, ← hunwritten]
    rcases hengine with ⟨-, heq⟩ | ⟨-, heq⟩
    · rw [heq]
      rfl
    · rw [heq]
  · intro hnone
    refine ⟨by rw [hnone]; rfl, ?_⟩
    rcases hengine with ⟨hsome, -⟩ | ⟨-, heq⟩
    · rw [hnone] at hsome
      exact absurd hsome (Nat.lt_irrefl 0)
    · rw [heq, hidle hnone, hinterned'.scheduler]

end Again

/-!
# The engine as the first submission left it, and a new one
-/

/-- The parts of a submission stand in an engine that drained it, and nothing else is known. -/
structure Submitted (parts : List Part) (e e' : Engine) : Prop where
  placed : Placed (prepare ∅ e parts).1.1 e'
  paths : forall id, e'.path? id = (prepare ∅ e parts).2.path? id
  overlay : e'.overlay = e.overlay
  sources : e'.storage.store.sources = (prepare ∅ e parts).2.storage.store.sources
  known : (prepare ∅ e parts).2.book.Extends e'.book

theorem Submitted.drain {e'' : Engine} (h : Submitted parts e e')
    (hdraining : Draining e' e'') : Submitted parts e e'' where
  placed := hdraining.placed h.placed
  paths := fun id => (hdraining.paths id).trans (h.paths id)
  overlay := hdraining.overlay.trans h.overlay
  sources := hdraining.sources.trans h.sources
  known := h.known.trans hdraining.known

theorem Agrees.submitted_updateParts (h : e.Agrees) (env : Environment)
    (hids : (parts.map Part.id).Nodup) (houtbox : e.watcher.outbox = []) :
    Submitted parts e (Engine.updateParts env e parts).2 := by
  rcases h.prepare ∅ parts with ⟨hchecked, hinterned, haccepted, -⟩
  rcases hchecked.paths_applyParts env haccepted.sourced with
    ⟨hpaths, hoverlay, hsources, hknown⟩
  have happlied : Submitted parts e (Engine.applyParts env (Engine.prepare ∅ e parts).2
      (Engine.prepare ∅ e parts).1.1).2 :=
    { placed := hchecked.placed_applyParts env haccepted hids
        (by rw [hinterned.watcher]; exact houtbox)
      paths := hpaths
      overlay := hoverlay.trans hinterned.overlay
      sources := hsources
      known := hknown }
  rcases (updateParts_eq env e parts).2 with ⟨-, heq⟩ | ⟨-, heq⟩
  · rw [heq]
    exact happlied.drain (happlied.placed.agrees.draining_dispatch env)
  · rw [heq]
    exact happlied

theorem Submitted.source? (h : Submitted parts e e') (id : FileId) (text : String)
    (hsource : (prepare ∅ e parts).2.storage.store.source? id = some text) :
    e'.storage.store.source? id = some text := by
  rw [Store.source?_of_sources_eq h.sources]
  exact hsource

section Submitted

variable (h : e.Agrees) (hsubmitted : Submitted parts e e')

include h hsubmitted

theorem Submitted.leavesStore (env : Environment) :
    LeavesStore env e' parts (updateParts env e parts).1.rejected ∧
      forall concurrency,
        LeavesStore env (e'.restart concurrency) parts (updateParts env e parts).1.rejected := by
  have hagrees := hsubmitted.placed.agrees
  refine ⟨(h.leavesStore_again hagrees hsubmitted.source?
    hsubmitted.placed.stored env).1, ?_⟩
  intro concurrency
  exact (h.leavesStore_again (hagrees.restart concurrency) hsubmitted.source?
    hsubmitted.placed.stored env).1

theorem Submitted.reads_restart (concurrency : Nat) (htextual : Textual e)
    (htext : forall part, part ∈ parts -> forall p, p ∈ part.files -> p.IsText) :
    (prepare ∅ (e'.restart concurrency) parts).2.storage.store = e'.storage.store ∧
      forall id, (prepare ∅ (e'.restart concurrency) parts).2.path? id = e'.path? id := by
  have hagrees := hsubmitted.placed.agrees.restart concurrency
  have hstore : (prepare ∅ (e'.restart concurrency) parts).2.storage.store = e'.storage.store := by
    rw [(h.prepare_again hagrees ∅ parts hsubmitted.source?).2]
    rfl
  refine ⟨hstore, ?_⟩
  intro id
  have hnew : Textual (e'.restart concurrency) := fun _ => rfl
  rw [hnew.prepare ∅ htext id, hstore, hsubmitted.paths, htextual.prepare ∅ htext id,
    Store.source?_of_sources_eq hsubmitted.sources]

theorem Submitted.currentStatus?_restart (concurrency : Nat) (htextual : Textual e)
    (htext : forall part, part ∈ parts -> forall p, p ∈ part.files -> p.IsText)
    (habsent : forall p, e.overlay.contains p = false) (env : Environment) (id : FileId) :
    currentStatus? env (prepare ∅ (e'.restart concurrency) parts).2 id =
      currentStatus? env e' id := by
  have hinterned := ((hsubmitted.placed.agrees.restart concurrency).prepare ∅ parts).2.1
  have hoverlay : (prepare ∅ (e'.restart concurrency) parts).2.overlay = .empty := hinterned.overlay
  rw [currentStatus?, currentStatus?,
    (hsubmitted.reads_restart h concurrency htextual htext).2, hoverlay, hsubmitted.overlay]
  congr 1
  funext p
  rw [Overlay.currentStatus_of_absent (habsent p),
    Overlay.currentStatus_of_absent (o := .empty) rfl]

variable (hids : (parts.map Part.id).Nodup)
  (hindexed : forall part, part ∈ (prepare ∅ e parts).1.1 -> forall file, file ∈ part.files ->
    e'.watcher.isUnwatchable file = false -> forall status,
      currentStatus? env e' file = some status ->
        e'.storage.store.IsIndexed file part.id status)

include hids hindexed

theorem Submitted.leavesWorkers : LeavesWorkers env e' parts := by
  have hplaced := hsubmitted.placed
  have haccepted := (h.prepare ∅ parts).2.2.1
  have hchecked : (prepare ∅ e' parts).2 = e' :=
    prepare_of_knows ((knows_prepare e ∅ parts).2.of_extends hsubmitted.known) ∅
  have hsourced : Sourced e' (prepare ∅ e parts).1.1 := by
    intro part hpart file hfile
    rw [Store.hasSource, Store.source?_of_sources_eq hsubmitted.sources]
    exact haccepted.sourced part hpart file hfile
  apply (h.leavesStore_again hplaced.agrees hsubmitted.source? hplaced.stored env).2
  rw [hchecked]
  apply hplaced.agrees.submissionTasks_eq_nil env hsourced (haccepted.nodup_ids hids)
    haccepted.disjoint hplaced.stored
  rw [hplaced.agrees.watcher_applyParts env hsourced hplaced.stored hplaced.listed]
  exact hindexed

/-- So does a new engine, for paths that are text, without contents, and watching no more. -/
theorem Submitted.leavesWorkers_restart (concurrency : Nat) (htextual : Textual e)
    (htext : forall part, part ∈ parts -> forall p, p ∈ part.files -> p.IsText)
    (habsent : forall p, e.overlay.contains p = false)
    (hdenied : StillDenied env.backend e') :
    LeavesWorkers env (e'.restart concurrency) parts := by
  have hplaced := hsubmitted.placed
  have haccepted := (h.prepare ∅ parts).2.2.1
  have hagrees := hplaced.agrees.restart concurrency
  rcases hagrees.prepare ∅ parts with ⟨hchecked, hinterned, -, -⟩
  rcases hsubmitted.reads_restart h concurrency htextual htext with ⟨hstore, hpaths⟩
  have hsourced : Sourced (prepare ∅ (e'.restart concurrency) parts).2 (prepare ∅ e parts).1.1 := by
    intro part hpart file hfile
    rw [hstore, Store.hasSource, Store.source?_of_sources_eq hsubmitted.sources]
    exact haccepted.sourced part hpart file hfile
  have hstored : forall part, part ∈ (prepare ∅ e parts).1.1 ->
      (prepare ∅ (e'.restart concurrency) parts).2.storage.store.HasPart part := by
    rw [hstore]
    exact hplaced.stored
  apply (h.leavesStore_again hagrees hsubmitted.source? hplaced.stored env).2
  apply hchecked.submissionTasks_eq_nil env hsourced (haccepted.nodup_ids hids)
    haccepted.disjoint hstored
  intro part hpart file hfile hwatchable status hstatus
  rw [hsubmitted.currentStatus?_restart h concurrency htextual htext habsent] at hstatus
  rw [hstore]
  refine hindexed part hpart file hfile ?_ status hstatus
  cases hbefore : e'.watcher.isUnwatchable file with
  | false => rfl
  | true =>
      -- its directory is refused again, so the new engine cannot watch it either
      rcases Option.bind_eq_some_iff.mp hstatus with ⟨p, hp, -⟩
      have hunwatchable := hchecked.isUnwatchable_applyParts hsourced (haccepted.nodup_ids hids)
        haccepted.disjoint hstored (p := p)
        (by rw [hinterned.watcher]; exact Watcher.avoids_empty _ _)
        (hdenied file p hbefore hp) hpart hfile (by rw [hpaths]; exact hp)
        (by rw [hinterned.overlay]; rfl)
      rw [hunwatchable] at hwatchable
      cases hwatchable

end Submitted

end Engine

namespace World

variable {s : Surroundings} {w : World} {parts : List Part} {drain : List Event}

section Drained

variable (hagrees : w.engine.Agrees) (houtbox : w.engine.watcher.outbox = [])
  (hids : (parts.map Part.id).Nodup)
  (hdrain : forall event, event ∈ drain -> isSettling event = true)

include hagrees houtbox hids hdrain

theorem submitted_run :
    (run s w (.submit parts :: drain)).disk = w.disk ∧
      Engine.Submitted parts w.engine (run s w (.submit parts :: drain)).engine := by
  have hsubmit := hagrees.submitted_updateParts (s.environment w.disk) hids houtbox
  rcases draining_run (s := s) (w := happen s w (.submit parts)) hsubmit.placed hdrain with
    ⟨hdisk, hdraining⟩
  exact ⟨hdisk, hsubmit.drain hdraining⟩

/-- When a submission came to rest, the files that can be watched are indexed as they are. -/
theorem indexed_of_rest (hticketed : w.engine.scheduler.Ticketed)
    (hrest : (run s w (.submit parts :: drain)).AtRest)
    (huntroubled : (run s w (.submit parts :: drain)).engine.scheduler.UntroubledSince
      w.engine.scheduler.reports.length)
    (hpresent : Engine.ReadPresent (s.environment w.disk) (Engine.prepare ∅ w.engine parts).1.1
      (run s w (.submit parts :: drain)).engine w.engine.scheduler.jobs) :
    forall part, part ∈ (Engine.prepare ∅ w.engine parts).1.1 ->
      forall file, file ∈ part.files ->
      (run s w (.submit parts :: drain)).engine.watcher.isUnwatchable file = false ->
      forall status, Engine.currentStatus? (s.environment w.disk)
          (run s w (.submit parts :: drain)).engine file = some status ->
        (run s w (.submit parts :: drain)).engine.storage.store.IsIndexed file part.id status := by
  have hsubmitted := (submitted_run (s := s) hagrees houtbox hids hdrain).2
  have hinterned := (hagrees.prepare ∅ parts).2.1
  -- no task failed during the submission, and none in the drain
  have hlater : (happen s w (.submit parts)).engine.scheduler.reports <+:
      (run s w (.submit parts :: drain)).engine.scheduler.reports :=
    reports_run (agrees_happen hagrees (.submit parts)) (isSettling_restart hdrain)
  have hbefore : w.engine.scheduler.reports <+:
      (happen s w (.submit parts)).engine.scheduler.reports :=
    kept_happen (Engine.kept_reports s.fails _) hagrees (List.prefix_refl _)
      (fun _ heq => by cases heq)
  have hfirst : Engine.Settling (s.environment w.disk) (Engine.prepare ∅ w.engine parts).1.1
      (Engine.prepare ∅ w.engine parts).1.1 (happen s w (.submit parts)).engine := by
    apply hagrees.settling_updateParts hids houtbox hticketed
    · apply hpresent.of_seen
      intro file
      rw [Engine.currentStatus?, Engine.currentStatus?, hsubmitted.paths, hsubmitted.overlay,
        hinterned.overlay]
    · exact huntroubled.of_prefix hlater (Nat.le_refl _)
  have hsettling := settling_run (w := happen s w (.submit parts)) hfirst hdrain
    (huntroubled.of_prefix (List.prefix_refl _) hbefore.length_le)
  intro part hpart file hfile hwatchable status hstatus
  exact (hsettling.underway part hpart file hfile hwatchable status hstatus).indexed_of_rest
    hrest.1 hrest.2

end Drained

/--
Parts are submitted in a world that may have any history and in which no notification
waits, and the workers go on, in any order and among notifications that are handled,
until all is at rest and without that a task failed. Submitting the same parts again lets
no file go, refuses what was refused and writes nothing, and a new engine on the same
store does not either. If the jobs of these parts that were in hand at first had read no
other states of their files than the present ones, nothing is enqueued and no collector
is called for; nor in a new engine, if all paths are text, nothing is generated, and the
directories of files that cannot be watched are still refused.
-/
theorem submit_again (hw : w.Reachable s) (houtbox : w.engine.watcher.outbox = [])
    (hids : (parts.map Part.id).Nodup)
    (hdrain : forall event, event ∈ drain -> isSettling event = true)
    (hrest : (run s w (.submit parts :: drain)).AtRest)
    (huntroubled : (run s w (.submit parts :: drain)).engine.scheduler.UntroubledSince
      w.engine.scheduler.reports.length) :
    let settled := run s w (.submit parts :: drain)
    let env := s.environment w.disk
    let accepted := (Engine.prepare ∅ w.engine parts).1.1
    let rejected := (Engine.updateParts env w.engine parts).1.rejected
    settled.disk = w.disk ∧
      Engine.LeavesStore env settled.engine parts rejected ∧
      (forall concurrency,
        Engine.LeavesStore env (settled.engine.restart concurrency) parts rejected) ∧
      (Engine.ReadPresent env accepted settled.engine w.engine.scheduler.jobs ->
        Engine.LeavesWorkers env settled.engine parts ∧
        forall concurrency, Engine.Textual w.engine ->
          (forall part, part ∈ parts -> forall p, p ∈ part.files -> p.IsText) ->
          (forall p, w.engine.overlay.contains p = false) ->
          Engine.StillDenied env.backend settled.engine ->
          Engine.LeavesWorkers env (settled.engine.restart concurrency) parts) := by
  intro settled env accepted rejected
  have hagrees := hw.agrees
  rcases submitted_run (s := s) hagrees houtbox hids hdrain with ⟨hdisk, hsubmitted⟩
  rcases hsubmitted.leavesStore hagrees env with ⟨hsame, hanew⟩
  refine ⟨hdisk, hsame, hanew, ?_⟩
  intro hpresent
  have hindexed := indexed_of_rest hagrees houtbox hids hdrain hw.ticketed hrest huntroubled
    hpresent
  refine ⟨hsubmitted.leavesWorkers hagrees hids hindexed, ?_⟩
  intro concurrency htextual htext habsent hdenied
  exact hsubmitted.leavesWorkers_restart hagrees hids hindexed concurrency htextual htext habsent
    hdenied

/-- Symbols are named after the last argument, and the directory `/x` cannot be watched. -/
def halfWatching : Surroundings :=
  { lastArgument with backend := fun _ => .denying [.ofString "/x"] }

/-- A part with one file that can be watched, and one that is missing and cannot. -/
def halfWatchedPart : Part := ⟨⟨"app"⟩, [.ofString "/w/a", .ofString "/x/b"], ["-O0"], [], []⟩

/-- The part is submitted, and its one task is carried to its end. -/
def halfWatched : World :=
  run halfWatching (fresh oneFileDisk 1)
    [.submit [halfWatchedPart], .work 0, .work 0, .work 0, .sweep]

theorem halfWatched_stillDenied :
    Engine.StillDenied (halfWatching.environment oneFileDisk).backend halfWatched.engine := by
  have hunwatchable : halfWatched.engine.watcher.unwatchable.entries =
      [(⟨2⟩, .ofString "/x/b")] := by decide +kernel
  intro file p hfile hp calls directory hdirectory
  rcases (Table.contains_iff _ _).mp hfile with ⟨q, hq⟩
  have hmem := Table.mem_of_lookup hq
  rw [hunwatchable, List.mem_singleton] at hmem
  cases hmem
  have hpath : halfWatched.engine.path? ⟨2⟩ = some (.ofString "/x/b") := by decide +kernel
  cases hp.symm.trans hpath
  have hsame : Path.same directory (.ofString "/x") = true := by
    rw [Path.same, hdirectory]
    decide +kernel
  simp [Surroundings.environment, halfWatching, Backend.denying, hsame]

/-- The file that is missing and cannot be watched is left alone when the part comes again. -/
theorem half_watched_settles :
    halfWatched.engine.watcher.isUnwatchable ⟨2⟩ = true ∧
      Engine.LeavesStore (halfWatching.environment oneFileDisk) halfWatched.engine
        [halfWatchedPart] [] ∧
      Engine.LeavesWorkers (halfWatching.environment oneFileDisk) halfWatched.engine
        [halfWatchedPart] ∧
      Engine.LeavesWorkers (halfWatching.environment oneFileDisk) (halfWatched.engine.restart 1)
        [halfWatchedPart] := by
  rcases @submit_again halfWatching (fresh oneFileDisk 1) [halfWatchedPart]
    [.work 0, .work 0, .work 0, .sweep] ⟨oneFileDisk, 1, [], rfl⟩ rfl (List.nodup_singleton _)
    (by decide) (by decide +kernel) (by decide +kernel) with
    ⟨-, hstore, -, hworkers⟩
  rcases hworkers (by intro job hjob; cases hjob) with ⟨hsame, hanew⟩
  refine ⟨by decide +kernel, hstore, hsame, ?_⟩
  refine hanew 1 (fun _ => rfl) ?_ (fun _ => rfl) halfWatched_stillDenied
  intro part hpart p hp
  rw [List.mem_singleton.mp hpart] at hp
  rcases List.mem_cons.mp hp with rfl | hp
  · exact Path.isText_ofString "/w/a"
  · rw [List.mem_singleton.mp hp]
    exact Path.isText_ofString "/x/b"

/-- A job is handed out while its file is generated, and then the file is generated no more. -/
def ungeneratedInHand : World :=
  run lastArgument (fresh oneFileDisk 1)
    [.submit [partWith ["-O0"]], .work 0, .work 0, .work 0, .dispatch,
      .generate [(.ofString "/w/a", "x")], .work 1, .ungenerate [.ofString "/w/a"]]

/--
A submission that finds its file indexed enqueues nothing. The job that read the contents
lands after it and leaves their state in the store, so the file is enqueued when the part
is submitted again, although nothing changed in between and nothing failed.
-/
theorem outdated_job_unsettles :
    let settled := run lastArgument ungeneratedInHand
      [.submit [partWith ["-O0"]], .work 1, .work 1, .sweep]
    ungeneratedInHand.Reachable lastArgument ∧
      ungeneratedInHand.engine.watcher.outbox = [] ∧
      settled.AtRest ∧ settled.engine.watcher.outbox = [] ∧
      settled.engine.scheduler.reports.map TaskReport.outcome = [.indexed 1 0, .unchanged] ∧
      (Engine.updateParts (lastArgument.environment ungeneratedInHand.disk)
        ungeneratedInHand.engine [partWith ["-O0"]]).1 = ⟨0, 0, []⟩ ∧
      (Engine.updateParts (lastArgument.environment settled.disk) settled.engine
        [partWith ["-O0"]]).1 = ⟨1, 0, []⟩ := by
  refine ⟨⟨_, _, _, rfl⟩, ?_⟩
  decide +kernel

end World
end SymbolIndex
