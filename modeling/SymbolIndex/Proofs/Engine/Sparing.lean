import SymbolIndex.Proofs.Engine.Coverage

/-!
# Files with contents are not tracked

The watcher tracks files for what is on the disk, and a file with generated contents is
not asked for that. It is let go when it comes to have contents, and taken back when it
loses them. So a file with contents is neither watched nor remembered as one that cannot
be watched.
-/

namespace SymbolIndex
namespace Engine

variable {env : Environment} {e e' : Engine} {file : FileId} {part : PreparedPart}

/-- No file with contents is tracked. -/
def Spares (e : Engine) : Prop := forall file, e.watcher.Tracks file -> ¬ e.IsGenerated file

theorem Attends.path?_of_tracks (h : e.Attends) (htracks : e.watcher.Tracks file) :
    exists p, e.path? file = some p := by
  rcases htracks with hwatched | hunwatchable
  · rcases (Table.contains_iff _ _).mp hwatched with ⟨p, hp⟩
    exact ⟨_, h.watcher.paths file p hp⟩
  · exact h.watcher.refused file hunwatchable

theorem Attends.spares_of (h : e.Attends) (hspares : e.Spares)
    (hpaths : forall id p, e.path? id = some p -> e'.path? id = some p)
    (hkept : forall file, e'.watcher.Tracks file -> ¬ e'.IsGenerated file ∨
      (e.watcher.Tracks file ∧ forall p, e.path? file = some p ->
        e'.overlay.contains p = true -> e.overlay.contains p = true)) : e'.Spares := by
  intro file htracks
  rcases hkept file htracks with hnone | ⟨hbefore, hcontents⟩
  · exact hnone
  · rcases h.path?_of_tracks hbefore with ⟨p, hp⟩
    rintro ⟨q, hq, hcontains⟩
    rw [hpaths file p hp] at hq
    cases hq
    exact hspares file hbefore ⟨p, hp, hcontents p hp hcontains⟩

theorem Spares.calm (h : e.Spares) (hcalm : Calm e e') : e'.Spares := by
  intro file htracks hgenerated
  rw [hcalm.watcher] at htracks
  apply h file htracks
  exact hgenerated.of_paths (fun p hp => (hcalm.paths file).symm.trans hp) hcalm.overlay.symm

theorem Attends.spares_retire (h : e.Attends) (hspares : e.Spares) (files : List FileId) :
    (e.retire files).Spares := by
  rcases h.agrees.retire files with ⟨hgo, -⟩
  apply h.spares_of hspares
  · exact fun id p hp => (hgo.path? id).trans hp
  · intro file htracks
    rw [watcher_retire, Watcher.tracks_remove] at htracks
    rw [hgo.overlay]
    exact Or.inr ⟨htracks.2, fun _ _ hcontains => hcontains⟩

theorem Attends.spares_handleChange (h : e.Attends) (hspares : e.Spares) (change : PathChange) :
    (Engine.handleChange env e change).2.Spares := by
  cases change with
  | changed files => exact hspares.calm (calm_handleChanged env e files)
  | removed files =>
      have hdetached := h.agrees.calm_detach
        ((files.filter e.isOwned).filter e.watcher.isUnwatchable)
      exact (h.calm hdetached (h.agrees.detach _).2).spares_retire (hspares.calm hdetached) _

theorem Attends.spares_removeParts (h : e.Attends) (hspares : e.Spares) (ids : List PartId) :
    (e.removeParts ids).2.Spares := by
  induction ids generalizing e with
  | nil => exact hspares
  | cons id rest ih =>
      have hfiles := h.agrees.mem_known_files id
      have hcalm := h.agrees.calm_removePart hfiles
      rw [Engine.removeParts, h.agrees.filesOf_eq]
      exact ih ((h.retire _).calm hcalm (h.agrees.removePart hfiles))
        ((h.spares_retire hspares _).calm hcalm)

theorem Attends.spares_applied (h : e.Attends) (hspares : e.Spares)
    (happlied : Applied env part e e') : e'.Spares := by
  apply h.spares_of hspares
  · exact fun id p hp => (happlied.paths id).trans hp
  · intro file htracks
    rw [happlied.watcher, Watcher.tracks_add, watcher_retire, Watcher.tracks_remove] at htracks
    rcases htracks with hbefore | hadded
    · rw [happlied.overlay]
      exact Or.inr ⟨hbefore.2, fun _ _ hcontains => hcontains⟩
    · rcases List.mem_map.mp hadded with ⟨f, hf, rfl⟩
      rcases mem_watchable.mp hf with ⟨-, hp, hcontents⟩
      left
      rintro ⟨q, hq, hcontains⟩
      rw [happlied.paths, hp] at hq
      cases hq
      rw [happlied.overlay, hcontents] at hcontains
      cases hcontains

theorem Attends.spares_updateParts (h : e.Attends) (hspares : e.Spares) {parts : List Part}
    (hparts : forall part, part ∈ parts -> forall p, p ∈ part.files -> p.IsText) :
    (Engine.updateParts env e parts).2.Spares := by
  rcases h.agrees.prepare ∅ parts with ⟨hagrees, hinterned, haccepted, -⟩
  have hattends := h.prepare hparts
  have hprepared : (Engine.prepare ∅ e parts).2.Spares := by
    apply h.spares_of hspares
    · exact fun id p hp => (hinterned.carried fun _ => hattends.textual).path? h.textual hp
    · intro file htracks
      rw [hinterned.watcher] at htracks
      rw [hinterned.overlay]
      exact Or.inr ⟨htracks, fun _ _ hcontains => hcontains⟩
  refine Spares.calm ?_ (calm_updateParts env e parts)
  refine (hagrees.applyParts_induction (P := fun e rest => e.Attends ∧ Sourced e rest ∧ e.Spares)
    haccepted.sourced ⟨hattends, haccepted.sourced, hprepared⟩ ?_).2.2
  rintro e' part rest - happlied ⟨hattends, hsources, hspares⟩
  exact ⟨hattends.applied happlied (hsources part List.mem_cons_self),
    hsources.tail happlied.sources, hattends.spares_applied hspares happlied⟩

theorem Attends.spares_updateGenerated (h : e.Attends) (hspares : e.Spares)
    {files : List (Path × String)} (hfiles : forall f, f ∈ files -> f.1.IsText) :
    (Engine.updateGenerated env e files).2.Spares := by
  have hset := h.agrees.setContents_spec hfiles
  have hcarried := h.agrees.carried_setContents hfiles
  have hagrees := h.agrees.setContents files
  have htold : ({ (e.setContents files).2 with
      watcher := (e.setContents files).2.watcher.remove (e.setContents files).1 } :
        Engine).Spares := by
    apply h.spares_of hspares
    · exact fun id p hp => hcarried.path? h.textual hp
    · intro file htracks
      rw [hset.watcher, Watcher.tracks_remove] at htracks
      refine Or.inr ⟨htracks.2, fun p hp hcontains => ?_⟩
      rcases hset.told p hcontains with hbefore | ⟨other, hother, hsource⟩
      · exact hbefore
      · -- the id that was told stands for the same path
        rw [h.normalize_eq hp] at hsource
        have hsame := Store.source?_injective hagrees.book.distinct hsource
          (hset.grown.sources _ _ (h.source? hp))
        exact absurd (hsame ▸ hother) htracks.1
  unfold Engine.updateGenerated
  dsimp only
  split
  · rename_i hnone
    rw [List.isEmpty_iff.mp hnone] at htold
    exact htold
  · exact (h.generates hfiles).spares_handleChange htold _

theorem Attends.spares_uncovered (h : e.Attends) (hspares : e.Spares) {paths : List Path}
    (hpaths : forall p, p ∈ paths -> p.IsText) : (Engine.uncovered env e paths).Spares := by
  have hcarried := h.agrees.carried_dropContents env.disk hpaths
  apply h.spares_of hspares
  · exact fun id p hp => hcarried.path? h.textual hp
  · intro file htracks
    have hadded : (e.dropContents env.disk paths).2.watcher.Tracks file ∨
        file ∈ ((e.dropContents env.disk paths).1.1.filter fun f =>
          (e.dropContents env.disk paths).2.isOwned f.1).map Prod.fst :=
      (Watcher.tracks_add _ _ _).mp htracks
    rw [(h.agrees.frame_dropContents env.disk paths).1] at hadded
    rcases hadded with hbefore | hnew
    · exact Or.inr ⟨hbefore, fun p _ hcontains =>
        h.agrees.contains_dropContents env.disk paths hcontains⟩
    · rcases List.mem_map.mp hnew with ⟨f, hf, rfl⟩
      rcases h.onDisk_dropContents env.disk hpaths (List.mem_filter.mp hf).1 with ⟨hp, hnone⟩
      left
      rintro ⟨q, hq, hcontains⟩
      have hsame := Option.some.inj (hp.symm.trans hq)
      rw [← hsame, Overlay.contains_congr _ (Path.normalize_normalize f.2)] at hcontains
      exact absurd (hnone.symm.trans hcontains) Bool.false_ne_true

theorem Attends.spares_removeGenerated (h : e.Attends) (hspares : e.Spares) {paths : List Path}
    (hpaths : forall p, p ∈ paths -> p.IsText) :
    (Engine.removeGenerated env e paths).2.Spares := by
  have hwatched : (Engine.uncovered env e paths).Attends := h.uncovered hpaths
  have htaken : (Engine.uncovered env e paths).Spares := h.spares_uncovered hspares hpaths
  unfold Engine.removeGenerated
  dsimp only
  split
  · split
    · exact htaken
    · exact hwatched.spares_handleChange htaken _
  · split
    · exact hwatched.spares_handleChange htaken _
    · exact (hwatched.handleChange _).spares_handleChange (hwatched.spares_handleChange htaken _) _

theorem Spares.flush (h : e.Spares) (env : Environment) (events : List Path) :
    (Engine.flush env e events).Spares :=
  fun file htracks => h file htracks.of_flush

theorem Spares.with_outbox (h : e.Spares) (outbox : List PathChange) :
    ({ e with watcher := { e.watcher with outbox } } : Engine).Spares := h

end Engine

namespace World

variable {s : Surroundings} {w : World}

theorem spares_happen (h : w.engine.Attends) (hspares : w.engine.Spares) {event : Event}
    (hspelled : Spelled event) : (happen s w event).engine.Spares := by
  by_cases hcalm : isCalm event = true
  · exact hspares.calm (calm_happen h.agrees hcalm)
  cases event with
  | submit parts => exact h.spares_updateParts hspares hspelled
  | removeParts ids => exact h.spares_removeParts hspares ids
  | handle change => exact h.spares_handleChange hspares change
  | receive =>
      show (World.receive _ w.engine).Spares
      unfold World.receive Watcher.receive
      cases w.engine.watcher.outbox with
      | nil => exact hspares
      | cons change rest =>
          exact (h.with_outbox rest).spares_handleChange (hspares.with_outbox rest) _
  | generate files => exact h.spares_updateGenerated hspares hspelled
  | ungenerate paths => exact h.spares_removeGenerated hspares hspelled
  | flush paths => exact hspares.flush (s.environment w.disk) paths
  | restart concurrency => exact fun file htracks => absurd htracks (Watcher.not_tracks_empty file)
  | _ => exact absurd rfl hcalm

theorem Arises.attends (h : w.Arises) : w.engine.Attends := by
  induction h with
  | fresh d concurrency => exact attends_fresh d concurrency
  | happen s _ hspelled ih => exact attends_happen ih hspelled

theorem Arises.spares (h : w.Arises) : w.engine.Spares := by
  induction h with
  | fresh d concurrency => exact fun file htracks => absurd htracks (Watcher.not_tracks_empty file)
  | happen s hbefore hspelled ih => exact spares_happen hbefore.attends ih hspelled

end World
end SymbolIndex
