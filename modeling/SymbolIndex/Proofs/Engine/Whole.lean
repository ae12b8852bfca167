import SymbolIndex.Proofs.Engine.Attention
import SymbolIndex.Proofs.Watcher.Whole

/-!
# Whole engines

In every world that can come about, ids stand for normal forms, a snapshot lists no file
twice, and the watcher is whole for the names that the store has for ids. Unlike a tidy
watcher this does not rest on paths that are text: what the store has for a path is how
its normal form is shown, which is a normal form itself.
-/

namespace SymbolIndex
namespace Engine

variable {env : Environment} {e e' : Engine} {part : PreparedPart}

/-- Ids stand for normal forms. -/
def Normal (e : Engine) : Prop := forall id p, e.path? id = some p -> p.normalize = p

/-- No snapshot lists a file twice. -/
def ListsOnce (e : Engine) : Prop :=
  forall part snapshot, e.parts.get? part = some snapshot -> snapshot.files.Nodup

structure Whole (e : Engine) : Prop where
  agrees : e.Agrees
  canonical : e.Canonical
  normal : e.Normal
  once : e.ListsOnce
  watcher : e.watcher.Whole e.storage.store.source?

theorem ListsOnce.of_parts_eq (h : e.ListsOnce) (hparts : e'.parts = e.parts) : e'.ListsOnce := by
  rw [ListsOnce, hparts]
  exact h

theorem ListsOnce.of_without (h : e.ListsOnce) {files : List FileId}
    (hparts : forall part, e'.parts.get? part = (e.parts.get? part).map (Snapshot.without files)) :
    e'.ListsOnce := by
  intro part snapshot hsnapshot
  rw [hparts] at hsnapshot
  rcases Option.map_eq_some_iff.mp hsnapshot with ⟨before, hbefore, rfl⟩
  exact (h part before hbefore).filter _

theorem Whole.of_paths (h : e.Whole) (hagrees : e'.Agrees)
    (hpaths : forall id, e'.path? id = e.path? id)
    (hsources : e'.storage.store.sources = e.storage.store.sources) (honce : e'.ListsOnce)
    (hwatcher : e'.watcher.Whole e.storage.store.source?) : e'.Whole where
  agrees := hagrees
  canonical := h.canonical.of_sources hsources
  normal := by
    intro id p hp
    rw [hpaths] at hp
    exact h.normal id p hp
  once := honce
  watcher := hwatcher.of_names fun id name hname => by
    rw [Store.source?_of_sources_eq hsources]
    exact hname

theorem Whole.calm (h : e.Whole) (hcalm : Calm e e') (hparts : e'.parts = e.parts)
    (hagrees : e'.Agrees) : e'.Whole :=
  h.of_paths hagrees hcalm.paths hcalm.sources (h.once.of_parts_eq hparts)
    (hcalm.watcher ▸ h.watcher)

theorem Whole.with_overlay (h : e.Whole) (o : Overlay) : { e with overlay := o }.Whole :=
  h.of_paths (h.agrees.with_overlay o) (fun _ => rfl) rfl h.once h.watcher

theorem Whole.with_watcher (h : e.Whole) {w : Watcher} (hw : w.Whole e.storage.store.source?) :
    { e with watcher := w }.Whole :=
  h.of_paths (h.agrees.with_watcher w) (fun _ => rfl) rfl h.once hw

theorem Whole.distinct (h : e.Whole) (a b : FileId) (name : String)
    (ha : e.storage.store.source? a = some name) (hb : e.storage.store.source? b = some name) :
    a = b :=
  Store.source?_injective h.agrees.book.distinct ha hb

theorem Whole.source? (h : e.Whole) {id : FileId} {p : Path} (hp : e.path? id = some p) :
    e.storage.store.source? id = some p.normalize.display := by
  rw [h.normal id p hp]
  exact h.agrees.book.source?_of_path? hp

theorem whole_start {store : Store} (hstore : store.Sound) (hnodup : store.sources.Nodup)
    (hcanonical : forall text, text ∈ store.sources ->
      (Path.ofString text).normalize = Path.ofString text) (concurrency : Nat) (log : CallLog) :
    (start store concurrency log).Whole where
  agrees := agrees_start hstore hnodup concurrency log
  canonical := hcanonical
  normal := by
    intro id p hp
    rcases Option.map_eq_some_iff.mp (hp : (store.source? id).map Path.ofString = some p) with
      ⟨text, htext, rfl⟩
    exact hcanonical text (Store.mem_sources_of_source? htext)
  once := by
    intro part snapshot hsnapshot
    cases hsnapshot
  watcher := Watcher.whole_empty _

/-!
# Issuing ids
-/

theorem Normal.intern (h : e.Normal) (hcanonical : e.Canonical) (p : Path) :
    (e.intern p).2.Normal := by
  intro id q hq
  rcases PathBook.path?_intern hq with rfl | hold | ⟨text, htext, rfl⟩
  · exact Path.normalize_normalize p
  · exact h id q hold
  · exact hcanonical.intern p text htext

theorem Whole.intern (h : e.Whole) (p : Path) : (e.intern p).2.Whole := by
  rcases h.agrees.intern p with ⟨hagrees, hinterned, -⟩
  exact
    { agrees := hagrees
      canonical := h.canonical.intern p
      normal := h.normal.intern h.canonical p
      once := h.once.of_parts_eq hinterned.parts
      watcher := hinterned.watcher ▸ h.watcher.of_names hinterned.grown.sources }

theorem Whole.prepare (h : e.Whole) (parts : List Part) :
    (Engine.prepare ∅ e parts).2.Whole :=
  kept_prepare (P := Whole) (Q := fun _ => True) (fun _ p _ hbefore => hbefore.intern p) ∅
    (fun _ _ _ _ => trivial) h

/-!
# Letting files go
-/

theorem Whole.retire (h : e.Whole) (files : List FileId) : (e.retire files).Whole := by
  rcases h.agrees.retire files with ⟨hgo, hagrees⟩
  apply h.of_paths hagrees hgo.path? hgo.sources (h.once.of_without hgo.parts)
  rw [watcher_retire]
  exact h.watcher.remove files

theorem Whole.detach (h : e.Whole) (files : List FileId) : (e.detach files).Whole := by
  rcases h.agrees.detach files with ⟨hdetached, hagrees⟩
  exact h.calm (h.agrees.calm_detach files) hdetached.parts hagrees

theorem Whole.removePart (h : e.Whole) {id : PartId} {files : List FileId}
    (hfiles : forall file, file ∈ files ↔ e.storage.store.members.get? file = some id) :
    (e.removePart id files).2.Whole := by
  have hcalm := h.agrees.calm_removePart hfiles
  have hretired := h.retire files
  apply hretired.of_paths (h.agrees.removePart hfiles) hcalm.paths hcalm.sources
  · intro part snapshot hsnapshot
    rw [h.agrees.removePart_eq hfiles] at hsnapshot
    dsimp only at hsnapshot
    rw [Table.get?_erase] at hsnapshot
    split at hsnapshot
    · cases hsnapshot
    · exact hretired.once part snapshot hsnapshot
  · rw [hcalm.watcher]
    exact hretired.watcher

theorem Whole.removeParts (h : e.Whole) (ids : List PartId) :
    (e.removeParts ids).2.Whole := by
  induction ids generalizing e with
  | nil => exact h
  | cons id rest ih =>
      rw [Engine.removeParts, h.agrees.filesOf_eq]
      exact ih (h.removePart (h.agrees.mem_known_files id))

/-!
# Calls
-/

theorem Agrees.parts_applyPart (h : e.Agrees) (env : Environment)
    (hsources : forall file, file ∈ part.files -> e.storage.store.hasSource file = true)
    (id : PartId) : (Engine.applyPart env e part).2.parts.get? id =
      if id = part.id then some ⟨part.arguments, part.files⟩
      else (e.parts.get? id).map (Snapshot.without (e.departed part ++ part.files)) := by
  rcases h.applyPart_eq env hsources with ⟨owning, -, hadopted, hagrees, hequation⟩
  rcases hagrees.enqueueDue env (e.argumentsChanged part) (fun _ => hadopted.taskFor?) with
    ⟨tasks, -, -, -, -, -, -, hparts, -⟩
  rw [hequation, hparts, hadopted.parts, (h.retire (e.departed part)).1.parts, Option.map_map]
  congr 2
  funext snapshot
  exact Snapshot.without_without _ _ snapshot

theorem Whole.applyPart (h : e.Whole) (env : Environment)
    (hsources : forall file, file ∈ part.files -> e.storage.store.hasSource file = true)
    (hnodup : part.files.Nodup) : (Engine.applyPart env e part).2.Whole := by
  have happlied := (h.agrees.applyPart env hsources).2
  apply h.of_paths happlied.agrees happlied.paths happlied.sources
  · intro id snapshot hsnapshot
    rw [h.agrees.parts_applyPart env hsources] at hsnapshot
    split at hsnapshot
    · cases hsnapshot
      exact hnodup
    · rcases Option.map_eq_some_iff.mp hsnapshot with ⟨before, hbefore, rfl⟩
      exact (h.once id before hbefore).filter _
  · rw [happlied.watcher, watcher_retire]
    apply (h.watcher.remove _).add h.distinct
    exact fun f hf => h.source? (path?_of_watchable e part.files f hf)

theorem Whole.applyParts (h : e.Whole) (env : Environment) {accepted : List PreparedPart}
    (hsources : Sourced e accepted) (hnodup : forall part, part ∈ accepted -> part.files.Nodup) :
    (Engine.applyParts env e accepted).2.Whole := by
  induction accepted generalizing e with
  | nil => exact h
  | cons part rest ih =>
      have hpart := hsources part List.mem_cons_self
      have happlied := (h.agrees.applyPart env hpart).2
      rw [applyParts_cons]
      exact ih (h.applyPart env hpart (hnodup part List.mem_cons_self))
        (hsources.tail happlied.sources)
        (fun other hother => hnodup other (List.mem_cons_of_mem _ hother))

theorem Whole.updateParts (h : e.Whole) (parts : List Part) :
    (Engine.updateParts env e parts).2.Whole := by
  rcases h.agrees.prepare ∅ parts with ⟨-, -, haccepted, -⟩
  have happlied := (h.prepare parts).applyParts env haccepted.sourced (by
    intro part hpart
    rcases haccepted.prepares part hpart with ⟨origin, -, hprepares⟩
    exact hprepares.nodup)
  apply happlied.calm (calm_updateParts env e parts) _ (h.agrees.updateParts parts)
  unfold Engine.updateParts
  dsimp only
  split <;> rfl

theorem parts_handleChanged (env : Environment) (e : Engine) (files : List FileId) :
    (handleChanged env e files).2.parts = e.parts := by
  have hlooked : Alike e (files.foldl (look env) e) := alike_foldl (alike_look env) e files
  have hseen := hlooked.trans (candidates_spec env false (files.foldl (look env) e)
    (files.filter (files.foldl (look env) e).isOwned)).2
  unfold handleChanged
  dsimp only
  split <;> exact hseen.parts

theorem Whole.handleChange (h : e.Whole) (change : PathChange) :
    (Engine.handleChange env e change).2.Whole := by
  cases change with
  | changed files =>
      exact h.calm (calm_handleChanged env e files) (parts_handleChanged env e files)
        (h.agrees.handleChanged files)
  | removed files => exact (h.detach _).retire _

theorem Whole.setContents (h : e.Whole) (files : List (Path × String)) :
    (e.setContents files).2.Whole := by
  induction files generalizing e with
  | nil => exact h
  | cons f rest ih => exact ih ((h.intern f.1).with_overlay _)

theorem Whole.updateGenerated (h : e.Whole) (files : List (Path × String)) :
    (Engine.updateGenerated env e files).2.Whole := by
  have hset := h.setContents files
  unfold Engine.updateGenerated
  dsimp only
  split
  · exact hset
  · exact (hset.with_watcher (hset.watcher.remove _)).handleChange _

theorem Whole.dropContents (h : e.Whole) (d : Disk) (paths : List Path) :
    (e.dropContents d paths).2.Whole ∧
      PathBook.Grown e.storage.store (e.dropContents d paths).2.storage.store ∧
      forall f, f ∈ (e.dropContents d paths).1.1 ->
        (e.dropContents d paths).2.storage.store.source? f.1 = some f.2.normalize.display := by
  induction paths generalizing e with
  | nil => exact ⟨h, PathBook.grown_refl _, fun _ hf => absurd hf List.not_mem_nil⟩
  | cons p rest ih =>
      rw [Engine.dropContents]
      split
      · have herased := h.with_overlay (e.overlay.erase p)
        rcases herased.agrees.intern p with ⟨-, hinterned, hsource⟩
        rcases ih (herased.intern p) with ⟨hwhole, hgrown, hnames⟩
        refine ⟨hwhole, hinterned.grown.trans hgrown, ?_⟩
        intro f hf
        dsimp only at hf
        split at hf
        · rcases List.mem_cons.mp hf with rfl | hmore
          · exact hgrown.sources _ _ hsource
          · exact hnames f hmore
        · exact hnames f hf
      · exact ih h

theorem Whole.removeGenerated (h : e.Whole) (paths : List Path) :
    (Engine.removeGenerated env e paths).2.Whole := by
  rcases h.dropContents env.disk paths with ⟨hdropped, -, hnames⟩
  have hwatched : (Engine.uncovered env e paths).Whole := by
    apply hdropped.with_watcher
    apply hdropped.watcher.add hdropped.distinct
    exact fun f hf => hnames f (List.mem_filter.mp hf).1
  unfold Engine.removeGenerated
  dsimp only
  split
  · split
    · exact hwatched
    · exact hwatched.handleChange _
  · split
    · exact hwatched.handleChange _
    · exact (hwatched.handleChange _).handleChange _

theorem Worked.parts {ticket : Nat} (h : Worked env e ticket e') : e'.parts = e.parts := by
  cases h with
  | idle hidle => rfl
  | begins job p status hjob hstage hpath hstatus halike => exact halike.parts
  | collects job p status r hjob hstage hanswer halike => exact halike.parts
  | fails job outcome poisoned hjob hfailure halike => exact halike.parts
  | lands job status r outcome wrote t hjob hstage hok => rfl

end Engine

namespace World

variable {s : Surroundings} {w : World}

theorem whole_happen (h : w.engine.Whole) (event : Event) :
    (happen s w event).engine.Whole := by
  cases event with
  | submit parts => exact h.updateParts parts
  | removeParts ids => exact h.removeParts ids
  | handle change => exact h.handleChange change
  | receive =>
      show (World.receive _ w.engine).Whole
      unfold World.receive Watcher.receive
      cases w.engine.watcher.outbox with
      | nil => exact h
      | cons change rest =>
          have hnext : ({ w.engine with
              watcher := { w.engine.watcher with outbox := rest } } : Engine).Whole :=
            h.with_watcher (h.watcher.of_same rfl rfl rfl)
          exact hnext.handleChange change
  | generate files => exact h.updateGenerated files
  | ungenerate paths => exact h.removeGenerated paths
  | edit change =>
      unfold happen
      dsimp only
      split <;> exact h
  | flush paths => exact h.with_watcher (h.watcher.flush _ paths)
  | work ticket =>
      have hworked := Engine.worked_stepTicket (s.environment w.disk) w.engine ticket
      exact h.calm (hworked.calm h.agrees) hworked.parts (h.agrees.stepTicket ticket)
  | dispatch => exact h.calm (Engine.calm_with_scheduler _ _) rfl h.agrees.dispatch
  | sweep =>
      exact h.calm (Engine.calm_with_scheduler _ _) rfl
        (h.agrees.with_scheduler h.agrees.queue h.agrees.pending)
  | disable =>
      exact h.calm (Engine.calm_with_scheduler _ _) rfl
        (h.agrees.with_scheduler h.agrees.queue h.agrees.pending)
  | restart concurrency =>
      exact Engine.whole_start h.agrees.store h.agrees.book.distinct h.canonical concurrency _

theorem whole_run (h : w.engine.Whole) (history : List Event) :
    (run s w history).engine.Whole := by
  induction history generalizing w with
  | nil => exact h
  | cons event rest ih => exact ih (whole_happen h event)

theorem Reachable.whole (h : w.Reachable s) : w.engine.Whole := by
  rcases h with ⟨d, concurrency, history, rfl⟩
  apply whole_run
  exact Engine.whole_start Store.sound_empty List.nodup_nil
    (fun text htext => absurd htext List.not_mem_nil) concurrency _

end World
end SymbolIndex
