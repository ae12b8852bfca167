import SymbolIndex.Proofs.Engine.Incremental
import SymbolIndex.Proofs.Engine.Membership
import SymbolIndex.Proofs.Engine.Settling
import SymbolIndex.Proofs.Overlay
import SymbolIndex.Proofs.Path.Shown
import SymbolIndex.Proofs.Watcher.Tidy

/-!
# An engine that keeps its watcher tidy

Calls watch a file under a path that its id stands for, unless it has generated
contents, and a file that comes to have generated contents is no longer watched. So the
watcher of an engine is tidy through everything that may happen. This rests on paths that
are text: the path of an id is then the normal form that the store has for it, and no two
ids stand for one path.
-/

namespace SymbolIndex
namespace Engine

variable {env : Environment} {e e' e'' : Engine} {file : FileId}

/-!
# Normal forms in the store
-/

/-- The source texts are those of normal forms. -/
def Canonical (e : Engine) : Prop :=
  forall text, text ∈ e.storage.store.sources ->
    (Path.ofString text).normalize = Path.ofString text

theorem Canonical.of_sources (h : e.Canonical)
    (hsources : e'.storage.store.sources = e.storage.store.sources) : e'.Canonical := by
  rw [Canonical, hsources]
  exact h

theorem Canonical.intern (h : e.Canonical) (p : Path) : (e.intern p).2.Canonical := by
  have hadded : forall text, text ∈ (e.storage.store.addSource p.normalize.display).sources ->
      (Path.ofString text).normalize = Path.ofString text := by
    rcases Store.addSource_eq e.storage.store p.normalize.display with hsame | ⟨-, hmore⟩
    · rw [hsame]
      exact h
    · intro text htext
      rw [hmore] at htext
      rcases List.mem_append.mp htext with hold | hnew
      · exact h text hold
      · rw [List.mem_singleton.mp hnew]
        exact Path.normalize_ofString_display p
  unfold Engine.intern PathBook.intern
  dsimp only
  cases e.book.ids.get? p.normalize with
  | some id => exact h
  | none => exact hadded

theorem Canonical.prepare (h : e.Canonical) (claimed : Table FileId PartId) (parts : List Part) :
    (Engine.prepare claimed e parts).2.Canonical :=
  kept_prepare (P := Canonical) (Q := fun _ => True) (fun _ p _ hbefore => hbefore.intern p)
    claimed (fun _ _ _ _ => trivial) h

/-!
# Engines whose watchers are tidy
-/

/-- Memory and store agree, ids stand for normal forms, members have paths, the watcher is tidy. -/
structure Attends (e : Engine) : Prop where
  agrees : e.Agrees
  textual : Textual e
  canonical : e.Canonical
  rooted : forall file part, e.storage.store.members.get? file = some part ->
    e.storage.store.hasSource file = true
  watcher : e.watcher.Tidy e.path? e.overlay

theorem attends_start {store : Store} (hagrees : store.Sound) (hnodup : store.sources.Nodup)
    (hcanonical : forall text, text ∈ store.sources ->
      (Path.ofString text).normalize = Path.ofString text)
    (hrooted : forall file part, store.members.get? file = some part ->
      store.hasSource file = true) (concurrency : Nat) (log : CallLog) :
    (start store concurrency log).Attends where
  agrees := agrees_start hagrees hnodup concurrency log
  textual := fun _ => rfl
  canonical := hcanonical
  rooted := hrooted
  watcher := Watcher.tidy_empty _ _

theorem Attends.source? (h : e.Attends) {id : FileId} {p : Path} (hp : e.path? id = some p) :
    e.storage.store.source? id = some p.display :=
  h.agrees.book.source?_of_path? hp

theorem Attends.normalize_eq (h : e.Attends) {id : FileId} {p : Path} (hp : e.path? id = some p) :
    p.normalize = p := by
  rw [h.textual] at hp
  rcases Option.map_eq_some_iff.mp hp with ⟨text, htext, rfl⟩
  exact h.canonical text (Store.mem_sources_of_source? htext)

theorem Attends.of_paths (h : e.Attends) (hagrees : e'.Agrees)
    (hpaths : forall id, e'.path? id = e.path? id)
    (hsources : e'.storage.store.sources = e.storage.store.sources) (hjoins : NoneJoins e e')
    (hwatcher : e'.watcher.Tidy e.path? e'.overlay) : e'.Attends where
  agrees := hagrees
  rooted := by
    intro file part hmember
    rw [Store.hasSource, Store.source?_of_sources_eq hsources]
    exact h.rooted file part (hjoins file part hmember)
  textual := by
    intro id
    rw [hpaths, Store.source?_of_sources_eq hsources]
    exact h.textual id
  canonical := h.canonical.of_sources hsources
  watcher := hwatcher.of_paths (fun id p hp => (hpaths id).trans hp)

/-- Two engines that watch and own the same and have the same members, contents and paths. -/
structure Calm (e e' : Engine) : Prop where
  watcher : e'.watcher = e.watcher
  owners : e'.owners = e.owners
  members : forall file, e'.storage.store.members.get? file = e.storage.store.members.get? file
  overlay : e'.overlay = e.overlay
  sources : e'.storage.store.sources = e.storage.store.sources
  paths : forall id, e'.path? id = e.path? id

theorem Calm.trans (h : Calm e e') (h' : Calm e' e'') : Calm e e'' where
  watcher := h'.watcher.trans h.watcher
  owners := h'.owners.trans h.owners
  members := fun file => (h'.members file).trans (h.members file)
  overlay := h'.overlay.trans h.overlay
  sources := h'.sources.trans h.sources
  paths := fun id => (h'.paths id).trans (h.paths id)

theorem Alike.calm (h : Alike e e') : Calm e e' where
  watcher := h.watcher
  owners := h.owners
  members := by rw [h.storage]; exact fun _ => rfl
  overlay := h.overlay
  sources := by rw [h.storage]
  paths := h.paths

theorem calm_with_scheduler (e : Engine) (scheduler : Scheduler) : Calm e { e with scheduler } :=
  ⟨rfl, rfl, fun _ => rfl, rfl, rfl, fun _ => rfl⟩

theorem Attends.calm (h : e.Attends) (hcalm : Calm e e') (hagrees : e'.Agrees) : e'.Attends := by
  apply h.of_paths hagrees hcalm.paths hcalm.sources
    (fun file part hmember => (hcalm.members file).symm.trans hmember)
  rw [hcalm.watcher, hcalm.overlay]
  exact h.watcher

theorem Worked.calm {ticket : Nat} (h : Worked env e ticket e') (hagrees : e.Agrees) :
    Calm e e' := by
  cases h with
  | idle hidle => exact ⟨rfl, rfl, fun _ => rfl, rfl, rfl, fun _ => rfl⟩
  | begins job p status hjob hstage hpath hstatus halike =>
      exact (calm_with_scheduler e _).trans halike.calm
  | collects job p status r hjob hstage hanswer halike =>
      exact (calm_with_scheduler e _).trans halike.calm
  | fails job outcome poisoned hjob hfailure halike =>
      exact (calm_with_scheduler e _).trans halike.calm
  | lands job status r outcome wrote t hjob hstage hok =>
      rcases hagrees.store.linked.frame_applyResults hok with ⟨hsources, -, hmembers, -⟩
      exact ⟨rfl, rfl, fun file => congrArg (fun t => Table.get? t file) hmembers, rfl, hsources,
        fun id => PathBook.path?_of_sources_eq hsources id⟩

theorem calm_handleChanged (env : Environment) (e : Engine) (files : List FileId) :
    Calm e (handleChanged env e files).2 := by
  have hlooked : Alike e (files.foldl (look env) e) := alike_foldl (alike_look env) e files
  have hseen := hlooked.trans (candidates_spec env false (files.foldl (look env) e)
    (files.filter (files.foldl (look env) e).isOwned)).2
  unfold handleChanged
  dsimp only
  split
  · exact hseen.calm.trans (calm_with_scheduler _ _)
  · exact hseen.calm.trans (calm_with_scheduler _ _)

theorem Agrees.calm_detach (h : e.Agrees) (files : List FileId) : Calm e (e.detach files) := by
  rcases h.detach files with ⟨hdetached, -⟩
  refine ⟨hdetached.watcher, hdetached.owners,
    fun file => congrArg (fun t => Table.get? t file) hdetached.members, hdetached.overlay,
    hdetached.sources, ?_⟩
  intro id
  rw [path?, hdetached.book, PathBook.path?_of_sources_eq hdetached.sources]
  rfl

/-!
# Calls
-/

theorem Attends.interned (h : e.Attends) (hinterned : Interned e e') (hagrees : e'.Agrees)
    (htextual : Textual e') (hcanonical : e'.Canonical) : e'.Attends where
  agrees := hagrees
  textual := htextual
  canonical := hcanonical
  rooted := by
    intro file part hmember
    rw [hinterned.members] at hmember
    rcases (Store.hasSource_iff _ file).mp (h.rooted file part hmember) with ⟨text, htext⟩
    exact (Store.hasSource_iff _ file).mpr ⟨text, hinterned.grown.sources _ _ htext⟩
  watcher := by
    have hcarried := hinterned.carried (fun _ => htextual)
    rw [hinterned.watcher, hinterned.overlay]
    exact h.watcher.of_paths (fun id p hp => hcarried.path? h.textual hp)

theorem Attends.intern (h : e.Attends) {p : Path} (hp : p.IsText) : (e.intern p).2.Attends := by
  rcases h.agrees.intern p with ⟨hagrees, hinterned, -⟩
  exact h.interned hinterned hagrees (h.textual.intern hp) (h.canonical.intern p)

theorem Attends.prepare (h : e.Attends) {parts : List Part}
    (hparts : forall part, part ∈ parts -> forall p, p ∈ part.files -> p.IsText) :
    (Engine.prepare ∅ e parts).2.Attends := by
  rcases h.agrees.prepare ∅ parts with ⟨hagrees, hinterned, -⟩
  exact h.interned hinterned hagrees (h.textual.prepare ∅ hparts) (h.canonical.prepare ∅ parts)

theorem Attends.retire (h : e.Attends) (files : List FileId) : (e.retire files).Attends := by
  rcases h.agrees.retire files with ⟨hgo, hagrees⟩
  apply h.of_paths hagrees hgo.path? hgo.sources hgo.noneJoins
  rw [watcher_retire, hgo.overlay]
  exact h.watcher.remove (fun id p _ hp => h.watcher.bare id p hp)

theorem Attends.applied (h : e.Attends) {part : PreparedPart} (happlied : Applied env part e e')
    (hsources : forall file, file ∈ part.files -> e.storage.store.hasSource file = true) :
    e'.Attends where
  agrees := happlied.agrees
  textual := by
    intro id
    rw [happlied.paths, Store.source?_of_sources_eq happlied.sources]
    exact h.textual id
  canonical := h.canonical.of_sources happlied.sources
  rooted := by
    intro file owner hmember
    rw [Store.hasSource, Store.source?_of_sources_eq happlied.sources]
    rw [happlied.members] at hmember
    split at hmember
    · rename_i hfile
      exact hsources file hfile
    · split at hmember
      · cases hmember
      · exact h.rooted file owner hmember
  watcher := by
    rw [happlied.watcher, happlied.overlay, watcher_retire]
    refine Watcher.Tidy.of_paths ?_ (fun id p hp => (happlied.paths id).trans hp)
    apply (h.watcher.remove (fun id p _ hp => h.watcher.bare id p hp)).add
    intro f hf
    rcases mem_watchable.mp hf with ⟨-, hp, hcontents⟩
    exact ⟨by rw [h.normalize_eq hp]; exact hp, hcontents⟩

theorem Attends.applyParts (h : e.Attends) (env : Environment) {accepted : List PreparedPart}
    (hsources : Sourced e accepted) : (Engine.applyParts env e accepted).2.Attends :=
  (h.agrees.applyParts_induction (P := fun e rest => e.Attends ∧ Sourced e rest) hsources
    ⟨h, hsources⟩ (fun _ part _ _ happlied hbefore =>
      ⟨hbefore.1.applied happlied (hbefore.2 part List.mem_cons_self),
        hbefore.2.tail happlied.sources⟩)).1

/-- There are generated contents for a file. -/
def IsGenerated (e : Engine) (file : FileId) : Prop :=
  exists p, e.path? file = some p ∧ e.overlay.contains p = true

/-- A file is watched unless it is generated. -/
def Covers (e : Engine) (file : FileId) : Prop :=
  e.watcher.isWatched file = true ∨ e.IsGenerated file

theorem IsGenerated.of_paths (h : e.IsGenerated file)
    (hpaths : forall p, e.path? file = some p -> e'.path? file = some p)
    (hoverlay : e'.overlay = e.overlay) : e'.IsGenerated file := by
  rcases h with ⟨p, hp, hcontains⟩
  exact ⟨p, hpaths p hp, by rw [hoverlay]; exact hcontains⟩

theorem Applied.place? {part : PreparedPart} (happlied : Applied env part e e')
    (hfile : file ∈ part.files) {p : Path} (hp : e.path? file = some p)
    (hcontents : e.overlay.contains p = false)
    (hwatchable : e'.watcher.isUnwatchable file = false) :
    e'.watcher.place? file = some p.components := by
  have hlists := Watcher.lists_add env.backend (e.retire (e.departed part)).watcher
    (path?_of_watchable e part.files) (mem_watchable.mpr ⟨hfile, hp, hcontents⟩ : (file, p) ∈ _)
  rw [← happlied.watcher] at hlists
  exact hlists.place? hwatchable

theorem Attends.covers_applied (h : e.Attends) {part : PreparedPart}
    (happlied : Applied env part e e') (hfile : file ∈ part.files)
    (hsource : e.storage.store.hasSource file = true)
    (hwatchable : e'.watcher.isUnwatchable file = false) : e'.Covers file := by
  rcases (Store.hasSource_iff _ file).mp hsource with ⟨text, htext⟩
  have hp : e.path? file = some (Path.ofString text) := by rw [h.textual, htext]; rfl
  cases hcontents : e.overlay.contains (Path.ofString text) with
  | true =>
      right
      refine ⟨Path.ofString text, (happlied.paths file).trans hp, ?_⟩
      rw [happlied.overlay]
      exact hcontents
  | false =>
      left
      rw [Watcher.isWatched_eq, happlied.place? hfile hp hcontents hwatchable]
      rfl

theorem calm_updateParts (env : Environment) (e : Engine) (parts : List Part) :
    Calm (Engine.applyParts env (Engine.prepare ∅ e parts).2 (Engine.prepare ∅ e parts).1.1).2
      (Engine.updateParts env e parts).2 := by
  unfold Engine.updateParts
  dsimp only
  split
  · exact calm_with_scheduler _ _
  · exact ⟨rfl, rfl, fun _ => rfl, rfl, rfl, fun _ => rfl⟩

theorem Attends.updateParts (h : e.Attends) {parts : List Part}
    (hparts : forall part, part ∈ parts -> forall p, p ∈ part.files -> p.IsText) :
    (Engine.updateParts env e parts).2.Attends := by
  rcases h.agrees.prepare ∅ parts with ⟨-, -, haccepted, -⟩
  exact ((h.prepare hparts).applyParts env haccepted.sourced).calm (calm_updateParts env e parts)
    (h.agrees.updateParts parts)

section RemovePart

variable {id : PartId} {files : List FileId}

theorem Agrees.calm_removePart (h : e.Agrees)
    (hfiles : forall file, file ∈ files ↔ e.storage.store.members.get? file = some id) :
    Calm (e.retire files) (e.removePart id files).2 := by
  have hnone := h.members_retire_ne hfiles
  rcases (h.retire files).2.storage_removePart hnone with ⟨-, hsources, -, hsame⟩
  rw [h.removePart_eq hfiles]
  exact ⟨rfl, rfl, fun file => (hsame file).1, rfl, hsources,
    fun id => PathBook.path?_of_sources_eq hsources id⟩

end RemovePart

theorem Attends.removeParts (h : e.Attends) (ids : List PartId) :
    (e.removeParts ids).2.Attends := by
  induction ids generalizing e with
  | nil => exact h
  | cons id rest ih =>
      have hfiles := h.agrees.mem_known_files id
      rw [Engine.removeParts, h.agrees.filesOf_eq]
      exact ih ((h.retire _).calm (h.agrees.calm_removePart hfiles) (h.agrees.removePart hfiles))

theorem Attends.handleChange (h : e.Attends) (change : PathChange) :
    (Engine.handleChange env e change).2.Attends := by
  cases change with
  | changed files => exact h.calm (calm_handleChanged env e files) (h.agrees.handleChanged files)
  | removed files =>
      exact (h.calm (h.agrees.calm_detach _) (h.agrees.detach _).2).retire _

/-!
# Generated contents
-/

/-- What setting contents does: which files come to have contents, and which ids are told. -/
structure SetContents (changed : List FileId) (e e' : Engine) : Prop where
  watcher : e'.watcher = e.watcher
  owners : e'.owners = e.owners
  grown : PathBook.Grown e.storage.store e'.storage.store
  kept : forall q, e.overlay.contains q = true -> e'.overlay.contains q = true
  told : forall q, e'.overlay.contains q = true -> e.overlay.contains q = true ∨
    exists id, id ∈ changed ∧ e'.storage.store.source? id = some q.normalize.display
  generated : forall id, id ∈ changed -> exists p, p.IsText ∧
    e'.storage.store.source? id = some p.normalize.display ∧ e'.overlay.contains p = true

theorem Agrees.setContents_spec (h : e.Agrees) {files : List (Path × String)}
    (hfiles : forall f, f ∈ files -> f.1.IsText) :
    SetContents (e.setContents files).1 e (e.setContents files).2 := by
  induction files generalizing e with
  | nil =>
      exact ⟨rfl, rfl, PathBook.grown_refl _, fun _ => id, fun _ => Or.inl,
        fun _ hid => absurd hid List.not_mem_nil⟩
  | cons f rest ih =>
      rcases f with ⟨p, content⟩
      rcases h.intern p with ⟨hagrees, hinterned, hsource⟩
      have hrest := ih (hagrees.with_overlay ((e.intern p).2.overlay.insert p content))
        (fun g hg => hfiles g (List.mem_cons_of_mem _ hg))
      have hone := fun q => Overlay.contains_insert (e.intern p).2.overlay p q content
      -- an id that was told for the other files is told
      have hlater : forall id, id ∈ (Engine.setContents { (e.intern p).2 with
            overlay := (e.intern p).2.overlay.insert p content } rest).1 ->
          id ∈ (e.setContents ((p, content) :: rest)).1 := by
        intro id hid
        rw [Engine.setContents]
        dsimp only
        split
        · exact List.mem_cons_of_mem _ hid
        · exact hid
      rw [hinterned.overlay] at hone
      refine
        { watcher := hrest.watcher.trans hinterned.watcher
          owners := hrest.owners.trans hinterned.owners
          grown := hinterned.grown.trans hrest.grown
          kept := ?_
          told := ?_
          generated := ?_ }
      · intro q hq
        exact hrest.kept q ((hone q).mpr (Or.inr hq))
      · intro q hq
        rcases hrest.told q hq with hbefore | ⟨id, hid, hid'⟩
        · rcases (hone q).mp hbefore with hsame | hold
          · cases hholds : e.overlay.holds p content with
            | true =>
                left
                rw [← Overlay.contains_congr _ hsame]
                exact Overlay.contains_of_holds hholds
            | false =>
                refine Or.inr ⟨(e.intern p).1, ?_, ?_⟩
                · rw [Engine.setContents]
                  dsimp only
                  rw [hinterned.overlay, hholds, Bool.not_false, if_pos rfl]
                  exact List.mem_cons_self
                · rw [← hsame]
                  exact hrest.grown.sources _ _ hsource
          · exact Or.inl hold
        · exact Or.inr ⟨id, hlater id hid, hid'⟩
      · intro id hid
        rw [Engine.setContents] at hid
        dsimp only at hid
        have hfirst : id = (e.intern p).1 -> exists q, q.IsText ∧
            (e.setContents ((p, content) :: rest)).2.storage.store.source? id =
              some q.normalize.display ∧
            (e.setContents ((p, content) :: rest)).2.overlay.contains q = true := by
          rintro rfl
          exact ⟨p, hfiles _ List.mem_cons_self, hrest.grown.sources _ _ hsource,
            hrest.kept p ((hone p).mpr (Or.inl rfl))⟩
        split at hid
        · rcases List.mem_cons.mp hid with hnew | hmore
          · exact hfirst hnew
          · exact hrest.generated id hmore
        · exact hrest.generated id hid

theorem Attends.setContents (h : e.Attends) {files : List (Path × String)}
    (hfiles : forall f, f ∈ files -> f.1.IsText) :
    (e.setContents files).2.Canonical ∧ Textual (e.setContents files).2 := by
  have htextual := (h.agrees.carried_setContents hfiles).textual h.textual
  refine ⟨?_, htextual⟩
  have hcanonical := h.canonical
  clear h htextual
  induction files generalizing e with
  | nil => exact hcanonical
  | cons f rest ih =>
      apply ih (fun g hg => hfiles g (List.mem_cons_of_mem _ hg))
      exact (hcanonical.intern f.1).of_sources rfl

theorem Attends.generates (h : e.Attends) {files : List (Path × String)}
    (hfiles : forall f, f ∈ files -> f.1.IsText) :
    let set := e.setContents files
    ({ set.2 with watcher := set.2.watcher.remove set.1 } : Engine).Attends := by
  intro set
  have hset := h.agrees.setContents_spec hfiles
  have hcarried := h.agrees.carried_setContents hfiles
  rcases h.setContents hfiles with ⟨hcanonical, htextual⟩
  have hagrees := h.agrees.setContents files
  refine ⟨hagrees.with_watcher _, htextual, hcanonical, ?_, ?_⟩
  · intro file part hmember
    rcases (Store.hasSource_iff _ file).mp (h.rooted file part
      (h.agrees.noneJoins_setContents files file part hmember)) with ⟨text, htext⟩
    exact (Store.hasSource_iff _ file).mpr ⟨text, hset.grown.sources _ _ htext⟩
  show (set.2.watcher.remove set.1).Tidy set.2.path? set.2.overlay
  rw [hset.watcher]
  apply (h.watcher.of_paths (fun id p hp => hcarried.path? h.textual hp)).remove
  intro id p hid hp
  have hpath := h.watcher.paths id p hp
  by_contra hcontains
  rw [Bool.not_eq_false] at hcontains
  rcases hset.told p hcontains with hbefore | ⟨other, hother, hsource⟩
  · rw [h.watcher.bare id p hp] at hbefore
    cases hbefore
  · -- the id that was told stands for the same path
    have hsame := Store.source?_injective hagrees.book.distinct hsource
      (hset.grown.sources _ _ (h.source? hpath))
    exact hid (hsame ▸ hother)

theorem Attends.updateGenerated (h : e.Attends) {files : List (Path × String)}
    (hfiles : forall f, f ∈ files -> f.1.IsText) :
    (Engine.updateGenerated env e files).2.Attends := by
  have hset := h.agrees.setContents_spec hfiles
  have hgenerates := h.generates hfiles
  unfold Engine.updateGenerated
  dsimp only
  split
  · rename_i hnone
    have hremoved : (e.setContents files).2.watcher.remove (e.setContents files).1 =
        (e.setContents files).2.watcher := by
      rw [List.isEmpty_iff.mp hnone]
      rfl
    dsimp only at hgenerates
    rw [hremoved] at hgenerates
    exact hgenerates
  · exact hgenerates.handleChange _

theorem Attends.erase (h : e.Attends) (p : Path) :
    ({ e with overlay := e.overlay.erase p } : Engine).Attends := by
  refine h.of_paths (h.agrees.with_overlay _) (fun _ => rfl) rfl (noneJoins_of_members_eq rfl)
    ⟨h.watcher.listed, h.watcher.paths, ?_, h.watcher.refused⟩
  intro id q hq
  by_contra hcontains
  rw [Bool.not_eq_false, Overlay.contains_erase] at hcontains
  rw [h.watcher.bare id q hq] at hcontains
  cases hcontains.2

theorem Attends.dropContents (h : e.Attends) (d : Disk) {paths : List Path}
    (hpaths : forall p, p ∈ paths -> p.IsText) : (e.dropContents d paths).2.Attends := by
  induction paths generalizing e with
  | nil => exact h
  | cons p rest ih =>
      have hrest := fun q hq => hpaths q (List.mem_cons_of_mem p hq)
      rw [Engine.dropContents]
      split
      · exact ih ((h.erase p).intern (hpaths p List.mem_cons_self)) hrest
      · exact ih h hrest

theorem Agrees.contains_dropContents (h : e.Agrees) (d : Disk) (paths : List Path) {q : Path}
    (hq : (e.dropContents d paths).2.overlay.contains q = true) : e.overlay.contains q = true := by
  induction paths generalizing e with
  | nil => exact hq
  | cons p rest ih =>
      rw [Engine.dropContents] at hq
      split at hq
      · rcases (h.with_overlay (e.overlay.erase p)).intern p with ⟨hagrees, hinterned, -⟩
        have hless := ih hagrees hq
        rw [hinterned.overlay] at hless
        exact ((Overlay.contains_erase _ _ _).mp hless).2
      · exact ih h hq

theorem Attends.erased (h : e.Attends) (d : Disk) {p : Path} (hp : p.IsText) {rest : List Path}
    (hrest : forall q, q ∈ rest -> q.IsText) :
    let erased := ({ e with overlay := e.overlay.erase p } : Engine).intern p
    (erased.2.dropContents d rest).2.path? erased.1 = some p.normalize ∧
      (erased.2.dropContents d rest).2.overlay.contains p = false := by
  intro erased
  have hinterned : erased.2.Attends := (h.erase p).intern hp
  rcases (h.erase p).agrees.intern p with ⟨hagrees, hgrown, hsource⟩
  constructor
  · apply (hagrees.carried_dropContents d hrest).path? hinterned.textual
    rw [hinterned.textual]
    exact (congrArg _ hsource).trans
      (congrArg some (Path.ofString_display (Path.isText_normalize hp)))
  · by_contra hstill
    rw [Bool.not_eq_false] at hstill
    have hless := hagrees.contains_dropContents d rest hstill
    rw [hgrown.overlay] at hless
    exact ((Overlay.contains_erase _ _ _).mp hless).1 rfl

theorem Attends.onDisk_dropContents (h : e.Attends) (d : Disk) {paths : List Path}
    (hpaths : forall p, p ∈ paths -> p.IsText) {f : FileId × Path}
    (hf : f ∈ (e.dropContents d paths).1.1) :
    (e.dropContents d paths).2.path? f.1 = some f.2.normalize ∧
      (e.dropContents d paths).2.overlay.contains f.2 = false := by
  induction paths generalizing e with
  | nil => cases hf
  | cons p rest ih =>
      have hp := hpaths p List.mem_cons_self
      have hrest := fun q hq => hpaths q (List.mem_cons_of_mem p hq)
      rw [Engine.dropContents] at hf ⊢
      split at hf
      · rename_i hcontains
        rw [if_pos hcontains]
        dsimp only at hf
        split at hf
        · rcases List.mem_cons.mp hf with rfl | hmore
          · exact h.erased d hp hrest
          · exact ih ((h.erase p).intern hp) hrest hmore
        · exact ih ((h.erase p).intern hp) hrest hf
      · rename_i hcontains
        rw [if_neg hcontains]
        exact ih h hrest hf

/-- Contents are dropped, and the files that are on the disk and have an owner are watched again. -/
def uncovered (env : Environment) (e : Engine) (paths : List Path) : Engine :=
  let dropped := e.dropContents env.disk paths
  { dropped.2 with
    watcher := dropped.2.watcher.add env.backend
      (dropped.1.1.filter fun file => dropped.2.isOwned file.1) }

theorem Attends.uncovered (h : e.Attends) {paths : List Path}
    (hpaths : forall p, p ∈ paths -> p.IsText) : (Engine.uncovered env e paths).Attends := by
  have hdropped := h.dropContents env.disk hpaths
  refine hdropped.of_paths (hdropped.agrees.with_watcher _) (fun _ => rfl) rfl
    (noneJoins_of_members_eq rfl) ?_
  apply hdropped.watcher.add
  exact fun f hf => h.onDisk_dropContents env.disk hpaths (List.mem_filter.mp hf).1

theorem Attends.removeGenerated (h : e.Attends) {paths : List Path}
    (hpaths : forall p, p ∈ paths -> p.IsText) :
    (Engine.removeGenerated env e paths).2.Attends := by
  have hwatched : (Engine.uncovered env e paths).Attends := h.uncovered hpaths
  unfold Engine.removeGenerated
  dsimp only
  split
  · split
    · exact hwatched
    · exact hwatched.handleChange _
  · split
    · exact hwatched.handleChange _
    · exact (hwatched.handleChange _).handleChange _

theorem Attends.flush (h : e.Attends) (events : List Path) : (Engine.flush env e events).Attends :=
  h.of_paths (h.agrees.with_watcher _) (fun _ => rfl) rfl (noneJoins_of_members_eq rfl)
    (h.watcher.flush env.disk events)

theorem Attends.with_outbox (h : e.Attends) (outbox : List PathChange) :
    ({ e with watcher := { e.watcher with outbox } } : Engine).Attends :=
  h.of_paths (h.agrees.with_watcher _) (fun _ => rfl) rfl (noneJoins_of_members_eq rfl)
    (h.watcher.of_same rfl rfl rfl)

theorem Attends.restart (h : e.Attends) (concurrency : Nat) : (e.restart concurrency).Attends :=
  attends_start h.agrees.store h.agrees.book.distinct h.canonical h.rooted concurrency e.log

end Engine

namespace World

variable {s : Surroundings} {w : World}

theorem attends_happen (h : w.engine.Attends) {event : Event} (hspelled : Spelled event) :
    (happen s w event).engine.Attends := by
  cases event with
  | submit parts => exact h.updateParts hspelled
  | removeParts ids => exact h.removeParts ids
  | handle change => exact h.handleChange change
  | receive =>
      show (World.receive _ w.engine).Attends
      unfold World.receive Watcher.receive
      cases w.engine.watcher.outbox with
      | nil => exact h
      | cons change rest => exact (h.with_outbox rest).handleChange change
  | generate files => exact h.updateGenerated hspelled
  | ungenerate paths => exact h.removeGenerated hspelled
  | edit change =>
      unfold happen
      dsimp only
      split <;> exact h
  | flush paths => exact h.flush paths
  | work ticket =>
      exact h.calm ((Engine.worked_stepTicket _ _ ticket).calm h.agrees)
        (h.agrees.stepTicket ticket)
  | dispatch => exact h.calm (Engine.calm_with_scheduler _ _) h.agrees.dispatch
  | sweep =>
      exact h.calm (Engine.calm_with_scheduler _ _)
        (h.agrees.with_scheduler h.agrees.queue h.agrees.pending)
  | disable =>
      exact h.calm (Engine.calm_with_scheduler _ _)
        (h.agrees.with_scheduler h.agrees.queue h.agrees.pending)
  | restart concurrency => exact h.restart concurrency

/-- The disk changes, or workers go on. -/
def isCalm : Event -> Bool
  | .edit _ => true
  | .work _ => true
  | .dispatch => true
  | .sweep => true
  | .disable => true
  | _ => false

theorem calm_happen (h : w.engine.Agrees) {event : Event} (hevent : isCalm event = true) :
    Engine.Calm w.engine (happen s w event).engine := by
  cases event with
  | edit change =>
      unfold happen
      dsimp only
      split <;> exact ⟨rfl, rfl, fun _ => rfl, rfl, rfl, fun _ => rfl⟩
  | work ticket => exact (Engine.worked_stepTicket _ _ ticket).calm h
  | dispatch => exact Engine.calm_with_scheduler _ _
  | sweep => exact Engine.calm_with_scheduler _ _
  | disable => exact Engine.calm_with_scheduler _ _
  | _ => cases hevent

theorem isCalm_of_isDraining {event : Event} (h : isDraining event = true) :
    isCalm event = true := by
  cases event with
  | work ticket => rfl
  | dispatch => rfl
  | sweep => rfl
  | _ => cases h

theorem calm_run (h : w.engine.Agrees) {history : List Event}
    (hhistory : forall event, event ∈ history -> isCalm event = true) :
    Engine.Calm w.engine (run s w history).engine := by
  induction history generalizing w with
  | nil => exact (Engine.Alike.refl w.engine).calm
  | cons event rest ih =>
      have hrest := fun later hlater => hhistory later (List.mem_cons_of_mem event hlater)
      exact (calm_happen h (hhistory event List.mem_cons_self)).trans
        (ih (agrees_happen h event) hrest)

/-- A world that came about from one with an empty store by events whose paths are text. -/
def TextReachable (s : Surroundings) (w : World) : Prop :=
  exists d concurrency history, w = run s (fresh d concurrency) history ∧
    forall event, event ∈ history -> Spelled event

theorem TextReachable.reachable (h : w.TextReachable s) : w.Reachable s := by
  rcases h with ⟨d, concurrency, history, rfl, -⟩
  exact ⟨d, concurrency, history, rfl⟩

theorem attends_run (h : w.engine.Attends) {history : List Event}
    (hhistory : forall event, event ∈ history -> Spelled event) :
    (run s w history).engine.Attends := by
  induction history generalizing w with
  | nil => exact h
  | cons event rest ih =>
      exact ih (attends_happen h (hhistory event List.mem_cons_self))
        (fun later hlater => hhistory later (List.mem_cons_of_mem _ hlater))

theorem attends_fresh (d : Disk) (concurrency : Nat) : (fresh d concurrency).engine.Attends := by
  refine Engine.attends_start Store.sound_empty List.nodup_nil ?_ ?_ _ _
  · exact fun text htext => absurd htext List.not_mem_nil
  · exact fun file part hmember => nomatch hmember

theorem TextReachable.attends (h : w.TextReachable s) : w.engine.Attends := by
  rcases h with ⟨d, concurrency, history, rfl, hhistory⟩
  exact attends_run (attends_fresh d concurrency) hhistory

end World
end SymbolIndex
