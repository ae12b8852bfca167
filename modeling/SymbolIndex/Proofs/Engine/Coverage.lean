import SymbolIndex.Proofs.Engine.Notices
import SymbolIndex.Proofs.Watcher.Tracking

/-!
# No owned file is out of sight

A file that a part owns has generated contents, or the watcher tracks it, or a
notification waits that takes it away from its part. The other way round the watcher
tracks files with an owner only. Watches come and go in many places, but each of them
keeps both for every file.
-/

namespace SymbolIndex
namespace Engine

variable {env : Environment} {e e' e'' : Engine} {file : FileId} {part : PreparedPart}

/-- A file that is owned is in sight, and only such a file is tracked. -/
structure Guarded (e : Engine) (file : FileId) : Prop where
  covered : e.isOwned file = true ->
    e.IsGenerated file ∨ e.watcher.Tracks file ∨ e.watcher.Announces file
  owned : e.watcher.Tracks file -> e.isOwned file = true

theorem isOwned_of_owner {id : PartId} (h : e.ownerOf file = some id) : e.isOwned file = true := by
  rw [isOwned, Table.contains, ← ownerOf, h]
  rfl

theorem isOwned_congr (h : e'.ownerOf file = e.ownerOf file) :
    e'.isOwned file = e.isOwned file :=
  congrArg Option.isSome h

theorem guarded_of_unowned (hnone : e.ownerOf file = none) (htracked : ¬ e.watcher.Tracks file) :
    e.Guarded file := by
  refine ⟨fun howned => ?_, fun h => absurd h htracked⟩
  rw [isOwned, Table.contains, ← ownerOf, hnone] at howned
  cases howned

theorem Unmoved.tracks (h : Unmoved file e e') :
    e'.watcher.Tracks file ↔ e.watcher.Tracks file :=
  Watcher.tracks_congr h.watched h.unwatchable

theorem Guarded.unmoved (h : e.Guarded file) (hunmoved : Unmoved file e e') : e'.Guarded file where
  covered := by
    intro howned
    rw [isOwned_congr hunmoved.owner] at howned
    exact (h.covered howned).imp hunmoved.generated
      (Or.imp hunmoved.tracks.mpr hunmoved.announced.mpr)
  owned := by
    intro htracked
    rw [isOwned_congr hunmoved.owner]
    exact h.owned (hunmoved.tracks.mp htracked)

/-!
# Files that are let go
-/

theorem Agrees.guarded_retire_of_mem (h : e.Agrees) {files : List FileId} (hfile : file ∈ files) :
    (e.retire files).Guarded file := by
  apply guarded_of_unowned
  · rw [(h.retire files).1.owners, if_pos hfile]
  · rw [watcher_retire, Watcher.tracks_remove]
    exact fun htracked => htracked.1 hfile

theorem Agrees.guarded_retire (h : e.Agrees) (hguarded : e.Guarded file) (files : List FileId) :
    (e.retire files).Guarded file := by
  by_cases hfile : file ∈ files
  · exact h.guarded_retire_of_mem hfile
  · exact hguarded.unmoved (h.unmoved_retire hfile)

theorem Agrees.guarded_removeParts (h : e.Agrees) (hguarded : e.Guarded file)
    (ids : List PartId) : (e.removeParts ids).2.Guarded file := by
  induction ids generalizing e with
  | nil => exact hguarded
  | cons id rest ih =>
      have hfiles := h.mem_known_files id
      rw [Engine.removeParts, h.filesOf_eq]
      exact ih (h.removePart hfiles)
        ((h.guarded_retire hguarded _).unmoved ((h.calm_removePart hfiles).unmoved file))

theorem Agrees.guarded_handleRemoved (h : e.Agrees) (hguarded : e.Guarded file)
    (files : List FileId) : (e.handleRemoved files).2.Guarded file :=
  (h.detach _).2.guarded_retire (hguarded.unmoved ((h.calm_detach _).unmoved file)) _

theorem Agrees.guarded_handleChange (h : e.Agrees) (hguarded : e.Guarded file)
    (change : PathChange) : (Engine.handleChange env e change).2.Guarded file := by
  cases change with
  | changed files => exact hguarded.unmoved ((calm_handleChanged env e files).unmoved file)
  | removed files => exact h.guarded_handleRemoved hguarded files

/--
A file that is reported as removed leaves its part, unless it is one that cannot be
watched, which is still tracked.
-/
theorem Agrees.guarded_handleRemoved_of_mem (h : e.Agrees) {files : List FileId}
    (hfile : file ∈ files) (howned : e.watcher.Tracks file -> e.isOwned file = true) :
    (e.handleRemoved files).2.Guarded file := by
  by_cases hretired : e.isOwned file = true ∧ e.watcher.isUnwatchable file = false
  · apply (h.detach _).2.guarded_retire_of_mem
    simp [hfile, hretired]
  · refine h.guarded_handleRemoved ⟨fun hisOwned => ?_, howned⟩ files
    cases hwatchable : e.watcher.isUnwatchable file with
    | true => exact Or.inr (Or.inl (Or.inr hwatchable))
    | false => exact absurd ⟨hisOwned, hwatchable⟩ hretired

theorem Agrees.guarded_receive (h : e.Agrees) (hguarded : e.Guarded file) :
    (World.receive env e).Guarded file := by
  unfold World.receive Watcher.receive
  cases houtbox : e.watcher.outbox with
  | nil => exact hguarded
  | cons change rest =>
      have hagrees := h.with_watcher { e.watcher with outbox := rest }
      by_cases htaken : exists files, .removed files = change ∧ file ∈ files
      · rcases htaken with ⟨files, rfl, hfile⟩
        exact hagrees.guarded_handleRemoved_of_mem hfile hguarded.owned
      · -- another notification still announces the file, if one did
        apply hagrees.guarded_handleChange
        apply hguarded.unmoved (unmoved_pop houtbox _)
        exact fun files hfiles hmem => htaken ⟨files, hfiles, hmem⟩

/-!
# Submissions
-/

theorem Attends.guarded_applied (h : e.Attends) (hguarded : e.Guarded file)
    (happlied : Applied env part e e')
    (hsources : forall file, file ∈ part.files -> e.storage.store.hasSource file = true) :
    e'.Guarded file := by
  by_cases hfile : file ∈ part.files
  · have howner : e'.ownerOf file = some part.id := by rw [happlied.owners, if_pos hfile]
    refine ⟨fun _ => ?_, fun _ => isOwned_of_owner howner⟩
    cases hwatchable : e'.watcher.isUnwatchable file with
    | true => exact Or.inr (Or.inl (Or.inr hwatchable))
    | false =>
        rcases h.covers_applied happlied hfile (hsources file hfile) hwatchable with
          hwatched | hgenerated
        · exact Or.inr (Or.inl (Or.inl hwatched))
        · exact Or.inl hgenerated
  · by_cases hstays : file ∈ e.departed part
    · apply guarded_of_unowned
      · rw [happlied.owners, if_neg hfile, if_pos hstays]
      · rw [happlied.watcher, Watcher.tracks_add, watcher_retire, Watcher.tracks_remove]
        rintro (⟨hkept, -⟩ | hadded)
        · exact hkept hstays
        · exact hfile (map_fst_watchable _ _ hadded)
    · exact hguarded.unmoved (happlied.unmoved hfile hstays)

theorem Attends.guarded_updateParts (h : e.Attends) (hguarded : e.Guarded file)
    {parts : List Part}
    (hparts : forall part, part ∈ parts -> forall p, p ∈ part.files -> p.IsText) :
    (Engine.updateParts env e parts).2.Guarded file := by
  rcases h.agrees.prepare ∅ parts with ⟨hagrees, hinterned, haccepted, -⟩
  have hattends := h.prepare hparts
  have hprepared := hguarded.unmoved (h.unmoved_interned hinterned hattends.textual file)
  refine Guarded.unmoved ?_ ((calm_updateParts env e parts).unmoved file)
  refine (hagrees.applyParts_induction (P := fun e rest => e.Attends ∧ Sourced e rest ∧
    e.Guarded file) haccepted.sourced ⟨hattends, haccepted.sourced, hprepared⟩ ?_).2.2
  rintro e' part rest - happlied ⟨hattends, hsources, hguarded⟩
  have hown := hsources part List.mem_cons_self
  exact ⟨hattends.applied happlied hown, hsources.tail happlied.sources,
    hattends.guarded_applied hguarded happlied hown⟩

/-!
# Generated contents
-/

theorem Attends.guarded_updateGenerated (h : e.Attends) (hguarded : e.Guarded file)
    {files : List (Path × String)} (hfiles : forall f, f ∈ files -> f.1.IsText) :
    (Engine.updateGenerated env e files).2.Guarded file := by
  have hset := h.agrees.setContents_spec hfiles
  have howner : (e.setContents files).2.ownerOf file = e.ownerOf file := by
    rw [ownerOf, ownerOf, hset.owners]
  have htold : ({ (e.setContents files).2 with
      watcher := (e.setContents files).2.watcher.remove (e.setContents files).1 } :
        Engine).Guarded file := by
    rw [hset.watcher]
    by_cases hfile : file ∈ (e.setContents files).1
    · refine ⟨fun _ => Or.inl (h.isGenerated_setContents hfiles hfile), fun htracked => ?_⟩
      exact absurd hfile ((Watcher.tracks_remove _ _).mp htracked).1
    · exact hguarded.unmoved ⟨howner, h.keeps_setContents hfiles,
        (Watcher.get?_byId_remove _ _ _).trans (if_neg hfile),
        Watcher.isUnwatchable_remove _ _ hfile,
        Watcher.announces_of_outbox_eq (Watcher.outbox_remove _ _) file⟩
  unfold Engine.updateGenerated
  dsimp only
  split
  · rename_i hnone
    rw [List.isEmpty_iff.mp hnone] at htold
    exact htold
  · exact htold.unmoved ((calm_handleChanged env _ _).unmoved file)

theorem Agrees.frame_dropContents (h : e.Agrees) (d : Disk) (paths : List Path) :
    (e.dropContents d paths).2.watcher = e.watcher ∧
      (e.dropContents d paths).2.owners = e.owners := by
  induction paths generalizing e with
  | nil => exact ⟨rfl, rfl⟩
  | cons p rest ih =>
      rw [Engine.dropContents]
      split
      · rcases (h.with_overlay (e.overlay.erase p)).intern p with ⟨hagrees, hinterned, -⟩
        rcases ih hagrees with ⟨hwatcher, howners⟩
        exact ⟨hwatcher.trans hinterned.watcher, howners.trans hinterned.owners⟩
      · exact ih h

/-- A file whose contents were dropped is told, as one on the disk or as one that is missing. -/
theorem Attends.told_dropContents (h : e.Attends) (d : Disk) {paths : List Path}
    (hpaths : forall p, p ∈ paths -> p.IsText) (hgenerated : e.IsGenerated file) :
    let dropped := e.dropContents d paths
    dropped.2.IsGenerated file ∨ file ∈ dropped.1.1.map Prod.fst ∨ file ∈ dropped.1.2 := by
  induction paths generalizing e with
  | nil => exact Or.inl hgenerated
  | cons p rest ih =>
      have hrest := fun q hq => hpaths q (List.mem_cons_of_mem p hq)
      rw [Engine.dropContents]
      split
      · have hinterned := (h.erase p).intern (hpaths p List.mem_cons_self)
        rcases (h.erase p).agrees.intern p with ⟨hagrees, hgrown, hsource⟩
        dsimp only
        by_cases hsame : file = (({ e with overlay := e.overlay.erase p } : Engine).intern p).1
        · right
          split
          · exact Or.inl (by simp [hsame])
          · exact Or.inr (by simp [hsame])
        · -- the contents of another file stay
          rcases hgenerated with ⟨q, hq, hcontains⟩
          have hother : p.normalize ≠ q.normalize := by
            intro hnormal
            rw [h.normalize_eq hq] at hnormal
            rw [hnormal] at hsource
            exact hsame (Store.source?_injective hagrees.book.distinct
              (hgrown.grown.sources _ _ (h.source? hq)) hsource)
          have hkept : ({ e with overlay := e.overlay.erase p } : Engine).IsGenerated file :=
            ⟨q, hq, (Overlay.contains_erase _ _ _).mpr ⟨hother, hcontains⟩⟩
          have hlater := ih hinterned hrest
            (((h.erase p).unmoved_interned hgrown hinterned.textual file).generated hkept)
          refine hlater.imp_right (Or.imp ?_ ?_)
          · intro hmem
            split
            · exact List.mem_cons_of_mem _ hmem
            · exact hmem
          · intro hmem
            split
            · exact hmem
            · exact List.mem_cons_of_mem _ hmem
      · exact ih h hrest hgenerated

/-- Only the missing files are out of sight before their removal is handled. -/
theorem Attends.guarded_uncovered (h : e.Attends) (env : Environment)
    (hguarded : e.Guarded file) {paths : List Path} (hpaths : forall p, p ∈ paths -> p.IsText) :
    ((Engine.uncovered env e paths).watcher.Tracks file ->
        (Engine.uncovered env e paths).isOwned file = true) ∧
      ((Engine.uncovered env e paths).Guarded file ∨
        file ∈ (e.dropContents env.disk paths).1.2) := by
  rcases h.agrees.frame_dropContents env.disk paths with ⟨hwatcher, howners⟩
  have htold : e.IsGenerated file -> _ := h.told_dropContents env.disk hpaths
  have howned : (e.dropContents env.disk paths).2.isOwned file = e.isOwned file := by
    rw [isOwned, isOwned, howners]
  have hadded : file ∈ ((e.dropContents env.disk paths).1.1.filter fun f =>
        (e.dropContents env.disk paths).2.isOwned f.1).map Prod.fst ↔
      file ∈ (e.dropContents env.disk paths).1.1.map Prod.fst ∧ e.isOwned file = true := by
    rw [← howned]
    simp only [List.mem_map, List.mem_filter]
    constructor
    · rintro ⟨f, ⟨hf, hfowned⟩, rfl⟩
      exact ⟨⟨f, hf, rfl⟩, hfowned⟩
    · rintro ⟨⟨f, hf, rfl⟩, hfowned⟩
      exact ⟨f, ⟨hf, hfowned⟩, rfl⟩
  have htracks : (Engine.uncovered env e paths).watcher.Tracks file ↔ e.watcher.Tracks file ∨
      file ∈ (e.dropContents env.disk paths).1.1.map Prod.fst ∧ e.isOwned file = true := by
    rw [← hadded, ← hwatcher]
    exact Watcher.tracks_add _ _ _
  have honly : (Engine.uncovered env e paths).watcher.Tracks file ->
      (Engine.uncovered env e paths).isOwned file = true := by
    intro htracked
    refine howned.trans ?_
    rcases htracks.mp htracked with hbefore | ⟨-, hnow⟩
    · exact hguarded.owned hbefore
    · exact hnow
  refine ⟨honly, ?_⟩
  by_cases hmissing : file ∈ (e.dropContents env.disk paths).1.2
  · exact Or.inr hmissing
  · refine Or.inl ⟨fun hisOwned => ?_, honly⟩
    have hbefore := howned.symm.trans hisOwned
    rcases hguarded.covered hbefore with hgenerated | htracked | hannounced
    · rcases htold hgenerated with hstill | hondisk | hgone
      · exact Or.inl hstill
      · exact Or.inr (Or.inl (htracks.mpr (Or.inr ⟨hondisk, hbefore⟩)))
      · exact absurd hgone hmissing
    · exact Or.inr (Or.inl (htracks.mpr (Or.inl htracked)))
    · refine Or.inr (Or.inr ?_)
      show ((e.dropContents env.disk paths).2.watcher.add _ _).Announces file
      rw [hwatcher]
      exact hannounced.of_add _ _

theorem Attends.guarded_removeGenerated (h : e.Attends) (hguarded : e.Guarded file)
    {paths : List Path} (hpaths : forall p, p ∈ paths -> p.IsText) :
    (Engine.removeGenerated env e paths).2.Guarded file := by
  have hagrees : (Engine.uncovered env e paths).Agrees := (h.uncovered hpaths).agrees
  rcases h.guarded_uncovered env hguarded hpaths with ⟨hone, hother⟩
  have hnone : (e.dropContents env.disk paths).1.2.isEmpty = true ->
      (Engine.uncovered env e paths).Guarded file := by
    intro hempty
    rw [List.isEmpty_iff.mp hempty] at hother
    exact hother.resolve_right List.not_mem_nil
  -- the missing files go, whatever is indexed before
  have hgone : forall e', Calm (Engine.uncovered env e paths) e' -> e'.Agrees ->
      (e'.handleRemoved (e.dropContents env.disk paths).1.2).2.Guarded file := by
    intro e' hcalm hagrees'
    have hunmoved := hcalm.unmoved file
    rcases hother with hguarded' | hmissing
    · exact hagrees'.guarded_handleRemoved (hguarded'.unmoved hunmoved) _
    · apply hagrees'.guarded_handleRemoved_of_mem hmissing
      intro htracked
      rw [isOwned_congr hunmoved.owner]
      exact hone (hunmoved.tracks.mp htracked)
  unfold Engine.removeGenerated
  dsimp only
  split
  · rename_i hempty
    split
    · exact hnone hempty
    · exact (hnone hempty).unmoved ((calm_handleChanged env _ _).unmoved file)
  · split
    · exact hgone _ (Alike.refl _).calm hagrees
    · exact hgone _ (calm_handleChanged env _ _) (hagrees.handleChanged _)

theorem guarded_flush (env : Environment) (hguarded : e.Guarded file) (events : List Path) :
    (Engine.flush env e events).Guarded file where
  covered := by
    intro howned
    rcases hguarded.covered howned with hgenerated | htracked | hannounced
    · exact Or.inl hgenerated
    · exact Or.inr (htracked.flush env.disk events)
    · exact Or.inr (Or.inr ((Watcher.announces_flush _ _ _ _).mpr (Or.inl hannounced)))
  owned := fun htracked => hguarded.owned htracked.of_flush

end Engine

namespace World

variable {s : Surroundings} {w : World} {file : FileId}

/--
A world that came about from one with an empty store by events whose paths are text. What
can be watched and collected may be different at each event.
-/
inductive Arises : World -> Prop where
  | fresh (d : Disk) (concurrency : Nat) : Arises (fresh d concurrency)
  | happen (s : Surroundings) {w : World} {event : Event} (h : Arises w)
      (hspelled : Spelled event) : Arises (happen s w event)

theorem Arises.run (h : w.Arises) (s : Surroundings) {history : List Event}
    (hhistory : forall event, event ∈ history -> Spelled event) :
    (World.run s w history).Arises := by
  induction history generalizing w with
  | nil => exact h
  | cons event rest ih =>
      exact ih (h.happen s (hhistory event List.mem_cons_self))
        (fun later hlater => hhistory later (List.mem_cons_of_mem _ hlater))

theorem guarded_happen (h : w.engine.Attends) (hguarded : w.engine.Guarded file) {event : Event}
    (hspelled : Spelled event) : (happen s w event).engine.Guarded file := by
  by_cases hcalm : isCalm event = true
  · exact hguarded.unmoved ((calm_happen h.agrees hcalm).unmoved file)
  cases event with
  | submit parts => exact h.guarded_updateParts hguarded hspelled
  | removeParts ids => exact h.agrees.guarded_removeParts hguarded ids
  | handle change => exact h.agrees.guarded_handleChange hguarded change
  | receive => exact h.agrees.guarded_receive hguarded
  | generate files => exact h.guarded_updateGenerated hguarded hspelled
  | ungenerate paths => exact h.guarded_removeGenerated hguarded hspelled
  | flush paths =>
      exact Engine.guarded_flush (s.environment w.disk) hguarded paths
  | restart concurrency =>
      exact Engine.guarded_of_unowned rfl (Watcher.not_tracks_empty file)
  | _ => exact absurd rfl hcalm

theorem Arises.guarded (h : w.Arises) (file : FileId) : w.engine.Guarded file := by
  have hboth : w.engine.Attends ∧ w.engine.Guarded file := by
    induction h with
    | fresh d concurrency =>
        exact ⟨attends_fresh d concurrency,
          Engine.guarded_of_unowned rfl (Watcher.not_tracks_empty file)⟩
    | happen s _ hspelled ih =>
        exact ⟨attends_happen ih.1 hspelled, guarded_happen ih.1 ih.2 hspelled⟩
  exact hboth.2

/--
Whatever happened, and whatever could be watched at the time: a file that a part owns has
generated contents, or it is watched, or it is known as one that cannot be watched, or a
notification of its removal waits; and the files that are watched or known as unwatchable
have an owner.
-/
theorem owned_files_are_in_sight (h : w.Arises) (file : FileId) :
    let e := w.engine
    (e.isOwned file = true ->
      e.IsGenerated file ∨ e.watcher.isWatched file = true ∨
        e.watcher.isUnwatchable file = true ∨ e.watcher.Announces file) ∧
      (e.watcher.isWatched file = true ∨ e.watcher.isUnwatchable file = true ->
        exists part, e.ownerOf file = some part) := by
  intro e
  have hguarded := h.guarded file
  constructor
  · intro howned
    rcases hguarded.covered howned with hgenerated | (hwatched | hunwatchable) | hannounced
    · exact Or.inl hgenerated
    · exact Or.inr (Or.inl hwatched)
    · exact Or.inr (Or.inr (Or.inl hunwatchable))
    · exact Or.inr (Or.inr (Or.inr hannounced))
  · exact fun htracked => Option.isSome_iff_exists.mp (hguarded.owned htracked)

/-- The file of a part is deleted, which is reported but not handled yet. -/
def deleted : World :=
  run lastArgument (fresh oneFileDisk 1)
    [.submit [partWith ["-O0"]], .edit (.delete fileA), .flush [fileA]]

/-- Only the notification keeps the deleted file in sight. -/
theorem deleted_file_is_announced :
    let e := deleted.engine
    e.ownerOf ⟨1⟩ = some ⟨"app"⟩ ∧ ¬ e.IsGenerated ⟨1⟩ ∧ e.watcher.isWatched ⟨1⟩ = false ∧
      e.watcher.isUnwatchable ⟨1⟩ = false ∧ e.watcher.Announces ⟨1⟩ := by
  have hgenerated : ¬ deleted.engine.IsGenerated ⟨1⟩ := by
    rintro ⟨p, hp, hcontains⟩
    have hpath : deleted.engine.path? ⟨1⟩ = some fileA := by decide +kernel
    rw [hpath] at hp
    cases hp
    revert hcontains
    decide +kernel
  have hwatched : deleted.engine.watcher.isWatched ⟨1⟩ = false := by decide +kernel
  have hunwatchable : deleted.engine.watcher.isUnwatchable ⟨1⟩ = false := by decide +kernel
  refine ⟨by decide +kernel, hgenerated, hwatched, hunwatchable, ?_⟩
  have harises : deleted.Arises := (Arises.fresh oneFileDisk 1).run lastArgument (by decide)
  rcases (owned_files_are_in_sight harises ⟨1⟩).1 (by decide +kernel) with
    h | h | h | hannounced
  · exact absurd h hgenerated
  · rw [hwatched] at h
    cases h
  · rw [hunwatchable] at h
    cases h
  · exact hannounced

end World
end SymbolIndex
