import SymbolIndex.Proofs.Engine.Resubmission

/-!
# Where applied parts stand

Once some parts were applied the store has each of them as it was submitted, the watcher
lists their files, and whatever it announced is that some of these files, which cannot be
watched, were removed. Applying further parts that share nothing with them changes none
of this, so that it holds of all parts of a submission in the end.
-/

namespace SymbolIndex
namespace Engine

variable {env : Environment} {e e' : Engine} {part : PreparedPart}
  {done rest : List PreparedPart} {file : FileId}

/-- What is known of parts that were applied. -/
structure Placed (done : List PreparedPart) (e : Engine) : Prop where
  agrees : e.Agrees
  stored : forall part, part ∈ done -> e.storage.store.HasPart part
  listed : forall part, part ∈ done -> forall f, f ∈ e.watchable part.files ->
    e.watcher.Lists f.1 f.2
  announced : forall change, change ∈ e.watcher.outbox ->
    exists files, change = .removed files ∧ forall file, file ∈ files ->
      e.watcher.isUnwatchable file = true ∧ exists part, part ∈ done ∧ file ∈ part.files

theorem placed_nil (h : e.Agrees) (houtbox : e.watcher.outbox = []) : Placed [] e where
  agrees := h
  stored := fun part hpart => absurd hpart List.not_mem_nil
  listed := fun part hpart => absurd hpart List.not_mem_nil
  announced := by
    rw [houtbox]
    exact fun change hchange => absurd hchange List.not_mem_nil

/-- A part shares neither its name nor a file with any of some others. -/
structure Separate (part : PreparedPart) (done : List PreparedPart) : Prop where
  ids : forall other, other ∈ done -> other.id ≠ part.id
  files : forall other, other ∈ done -> forall file, file ∈ other.files -> file ∉ part.files

theorem Agrees.applyParts_separately {P : List PreparedPart -> Engine -> Prop} (h : e.Agrees)
    (done : List PreparedPart) (hsources : Sourced e rest)
    (hids : ((done ++ rest).map PreparedPart.id).Nodup)
    (hdisjoint : (done ++ rest).Pairwise fun a b => forall file, file ∈ a.files -> file ∉ b.files)
    (hstart : P done e)
    (step : forall (done : List PreparedPart) (part : PreparedPart) (e : Engine), e.Agrees ->
      (forall file, file ∈ part.files -> e.storage.store.hasSource file = true) ->
      Separate part done -> P done e -> P (done ++ [part]) (Engine.applyPart env e part).2) :
    P (done ++ rest) (Engine.applyParts env e rest).2 := by
  induction rest generalizing e done with
  | nil =>
      rw [List.append_nil]
      exact hstart
  | cons part rest ih =>
      have hown := hsources part List.mem_cons_self
      have happlied := (h.applyPart env hown).2
      have hseparate : Separate part done := by
        constructor
        · intro other hother heq
          rw [List.map_append, List.map_cons] at hids
          exact (List.nodup_append.mp hids).2.2 _ (List.mem_map_of_mem hother) _
            List.mem_cons_self heq
        · intro other hother
          exact (List.pairwise_append.mp hdisjoint).2.2 other hother part List.mem_cons_self
      have hstep := step done part e h hown hseparate hstart
      rw [applyParts_cons, List.append_cons]
      rw [List.append_cons] at hids hdisjoint
      exact ih happlied.agrees _ (hsources.tail happlied.sources) hids hdisjoint hstep

/-!
# Applying one more part
-/

section Apply

variable (h : Placed done e)
  (hsources : forall file, file ∈ part.files -> e.storage.store.hasSource file = true)
  (hseparate : Separate part done)

include h hseparate

theorem Placed.notMem_departed {other : PreparedPart} (hother : other ∈ done)
    (hfile : file ∈ other.files) : file ∉ e.departed part :=
  h.agrees.notMem_departed (h.stored other hother) (hseparate.ids other hother) hfile

theorem Placed.sameAt (happlied : Applied env part e e') {other : PreparedPart}
    (hother : other ∈ done) (hfile : file ∈ other.files) : SameAt file e e' :=
  happlied.sameAt h.agrees (hseparate.files other hother file hfile)
    (h.notMem_departed hseparate hother hfile)

theorem Placed.lists_applied (happlied : Applied env part e e') {other : PreparedPart}
    (hother : other ∈ done ++ [part]) {f : FileId × Path} (hf : f ∈ e'.watchable other.files) :
    e'.watcher.Lists f.1 f.2 := by
  have hpaths := path?_of_watchable e part.files
  rw [watchable_congr happlied.paths happlied.overlay] at hf
  rw [happlied.watcher, watcher_retire]
  rcases List.mem_append.mp hother with hold | hlast
  · have hgone := h.notMem_departed hseparate hold (mem_watchable.mp hf).1
    exact ((h.listed other hold f hf).remove hgone).add env.backend (mem_watchable.mp hf).2.1
      hpaths
  · rw [List.mem_singleton.mp hlast] at hf
    exact Watcher.lists_add env.backend _ hpaths hf

theorem Placed.announced_applied (happlied : Applied env part e e') {change : PathChange}
    (hchange : change ∈ e'.watcher.outbox) :
    exists files, change = .removed files ∧ forall file, file ∈ files ->
      e'.watcher.isUnwatchable file = true ∧
        exists other, other ∈ done ++ [part] ∧ file ∈ other.files := by
  have hold : change ∈ e.watcher.outbox -> exists files, change = .removed files ∧
      forall file, file ∈ files -> e'.watcher.isUnwatchable file = true ∧
        exists other, other ∈ done ++ [part] ∧ file ∈ other.files := by
    intro hmem
    rcases h.announced change hmem with ⟨files, hremoved, hfiles⟩
    refine ⟨files, hremoved, ?_⟩
    intro file hfile
    rcases hfiles file hfile with ⟨hunwatchable, other, hother, hlisted⟩
    rw [(h.sameAt hseparate happlied hother hlisted).watch]
    exact ⟨hunwatchable, other, List.mem_append_left _ hother, hlisted⟩
  have hpaths := path?_of_watchable e part.files
  have hsent := Watcher.outbox_add env.backend (e.retire (e.departed part)).watcher hpaths
  rw [watcher_retire, Watcher.outbox_remove, ← watcher_retire, ← happlied.watcher] at hsent
  rcases hsent with hsame | ⟨failed, hfailed, hunwatchable⟩
  · rw [hsame] at hchange
    exact hold hchange
  · rw [hfailed] at hchange
    rcases List.mem_append.mp hchange with hmem | hlast
    · exact hold hmem
    · refine ⟨failed, List.mem_singleton.mp hlast, ?_⟩
      intro file hfile
      rcases hunwatchable file hfile with ⟨hmem, hfileUnwatchable⟩
      exact ⟨hfileUnwatchable, part, List.mem_append_right _ List.mem_cons_self,
        map_fst_watchable e part.files hmem⟩

include hsources in
theorem Placed.applyPart (env : Environment) :
    Placed (done ++ [part]) (Engine.applyPart env e part).2 := by
  have happlied := (h.agrees.applyPart env hsources).2
  refine
    { agrees := happlied.agrees
      stored := ?_
      listed := fun other hother f hf => h.lists_applied hseparate happlied hother hf
      announced := fun _change hchange => h.announced_applied hseparate happlied hchange }
  intro other hother
  rcases List.mem_append.mp hother with hold | hlast
  · exact h.agrees.hasPart_of_applied (h.stored other hold) happlied (hseparate.ids other hold)
      (hseparate.files other hold)
  · rw [List.mem_singleton.mp hlast]
    exact h.agrees.hasPart_applyPart env hsources

end Apply

/-!
# What draining leaves alone
-/

/-- Nothing is known differently, but for what is indexed, queued, running or announced. -/
structure Draining (e e' : Engine) : Prop where
  agrees : e'.Agrees
  members : e'.storage.store.members = e.storage.store.members
  stored : e'.storage.store.parts = e.storage.store.parts
  sources : e'.storage.store.sources = e.storage.store.sources
  paths : forall id, e'.path? id = e.path? id
  overlay : e'.overlay = e.overlay
  watcher : exists outbox, e'.watcher = { e.watcher with outbox } ∧
    forall change, change ∈ outbox -> change ∈ e.watcher.outbox
  known : e.book.Extends e'.book

namespace Draining

variable {e'' : Engine}

theorem refl (h : e.Agrees) : Draining e e :=
  ⟨h, rfl, rfl, rfl, fun _ => rfl, rfl, ⟨_, rfl, fun _ hchange => hchange⟩,
    PathBook.Extends.refl e.book⟩

theorem trans (h : Draining e e') (h' : Draining e' e'') : Draining e e'' where
  agrees := h'.agrees
  members := h'.members.trans h.members
  stored := h'.stored.trans h.stored
  sources := h'.sources.trans h.sources
  paths := fun id => (h'.paths id).trans (h.paths id)
  overlay := h'.overlay.trans h.overlay
  watcher := by
    rcases h.watcher with ⟨outbox, hwatcher, houtbox⟩
    rcases h'.watcher with ⟨outbox', hwatcher', houtbox'⟩
    refine ⟨outbox', by rw [hwatcher', hwatcher], ?_⟩
    intro change hchange
    have hmem := houtbox' change hchange
    rw [hwatcher] at hmem
    exact houtbox change hmem
  known := h.known.trans h'.known

theorem isUnwatchable (h : Draining e e') (file : FileId) :
    e'.watcher.isUnwatchable file = e.watcher.isUnwatchable file := by
  rcases h.watcher with ⟨outbox, hwatcher, -⟩
  rw [hwatcher]
  rfl

theorem currentStatus? (h : Draining e e') (env : Environment) (file : FileId) :
    Engine.currentStatus? env e' file = Engine.currentStatus? env e file := by
  rw [Engine.currentStatus?, Engine.currentStatus?, h.paths, h.overlay]

theorem of_alike {t : Scheduler} (halike : Alike { e with scheduler := t } e')
    (hagrees : e'.Agrees) : Draining e e' where
  agrees := hagrees
  members := congrArg (fun storage => storage.store.members) halike.storage
  stored := congrArg (fun storage => storage.store.parts) halike.storage
  sources := congrArg (fun storage => storage.store.sources) halike.storage
  paths := halike.paths
  overlay := halike.overlay
  watcher := ⟨_, halike.watcher, fun _ hchange => hchange⟩
  known := halike.known

theorem placed (h : Draining e e') (hplaced : Placed done e) : Placed done e' := by
  rcases h.watcher with ⟨outbox, hwatcher, houtbox⟩
  refine
    { agrees := h.agrees
      stored := fun part hpart => (hplaced.stored part hpart).of_same h.stored h.members
      listed := ?_
      announced := ?_ }
  · intro part hpart f hf
    rw [watchable_congr h.paths h.overlay] at hf
    rw [hwatcher]
    exact hplaced.listed part hpart f hf
  · intro change hchange
    rw [hwatcher] at hchange
    rcases hplaced.announced change (houtbox change hchange) with ⟨files, hremoved, hfiles⟩
    refine ⟨files, hremoved, ?_⟩
    intro file hfile
    rw [h.isUnwatchable]
    exact hfiles file hfile

end Draining

end Engine
end SymbolIndex
