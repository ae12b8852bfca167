import SymbolIndex.Proofs.Disk
import SymbolIndex.Proofs.Engine.Sparing
import SymbolIndex.Proofs.Watcher.Spelling

/-!
# Spellings of generated files

Contents are kept by the normal form of a path, and so is the id of a file. Setting
contents therefore does not depend on the spelling of a path. Dropping them asks the disk
for the path as it is spelled, and has the file watched under this spelling. So two
spellings of one path come to the same only as far as the disk and the watcher treat them
alike.
-/

namespace SymbolIndex
namespace Engine

variable {env : Environment} {e e' : Engine} {file : FileId} {p q : Path}

/-!
# Setting contents
-/

theorem intern_congr (e : Engine) (h : p.normalize = q.normalize) : e.intern p = e.intern q := by
  unfold intern
  rw [PathBook.intern_congr _ _ h]

/-- Two lists of contents for the same files. -/
def SameContents (files files' : List (Path × String)) : Prop :=
  List.Forall₂ (fun f g => f.1.normalize = g.1.normalize ∧ f.2 = g.2) files files'

theorem setContents_congr {files files' : List (Path × String)} (h : SameContents files files')
    (e : Engine) : e.setContents files = e.setContents files' := by
  induction h generalizing e with
  | nil => rfl
  | cons hfile _ ih =>
      rename_i f g rest rest' _
      rcases f with ⟨p, content⟩
      rcases g with ⟨q, content'⟩
      rcases hfile with ⟨hnormal, hcontent⟩
      dsimp only at hnormal hcontent
      subst hcontent
      rw [setContents, setContents, intern_congr e hnormal]
      dsimp only
      rw [Overlay.holds_congr _ hnormal, Overlay.insert_congr _ hnormal, ih]

theorem updateGenerated_congr (env : Environment) (e : Engine) {files files' : List (Path × String)}
    (h : SameContents files files') :
    updateGenerated env e files = updateGenerated env e files' := by
  unfold updateGenerated
  rw [setContents_congr h]

/-!
# Engines with other watchers

Of the watcher a call asks which files cannot be watched, and no more.
-/

/-- The engine with another watcher. -/
def rewatch (e : Engine) (w : Watcher) : Engine := { e with watcher := w }

section Rewatch

variable {w : Watcher}

theorem foldl_rewatch {f : Engine -> FileId -> Engine}
    (h : forall e file, f (e.rewatch w) file = (f e file).rewatch w) (e : Engine)
    (files : List FileId) : files.foldl f (e.rewatch w) = (files.foldl f e).rewatch w := by
  induction files generalizing e with
  | nil => rfl
  | cons file rest ih => rw [List.foldl_cons, List.foldl_cons, h, ih]

theorem needsReindex_rewatch (h : forall id, w.isUnwatchable id = e.watcher.isUnwatchable id)
    (env : Environment) (file : FileId) (argumentsChanged : Bool) :
    needsReindex env (e.rewatch w) file argumentsChanged =
      ((needsReindex env e file argumentsChanged).1,
        (needsReindex env e file argumentsChanged).2.rewatch w) := by
  have hfile : (e.rewatch w).watcher.isUnwatchable file = e.watcher.isUnwatchable file := h file
  have hseen : currentStatus? env (e.rewatch w) file = currentStatus? env e file := rfl
  unfold needsReindex
  rw [hfile]
  split
  · rfl
  · dsimp only
    rw [hseen]
    cases currentStatus? env e file with
    | none => rfl
    | some status => rfl

theorem candidates_rewatch (h : forall id, w.isUnwatchable id = e.watcher.isUnwatchable id)
    (env : Environment) (argumentsChanged : Bool) (files : List FileId) :
    candidates env argumentsChanged (e.rewatch w) files =
      ((candidates env argumentsChanged e files).1,
        (candidates env argumentsChanged e files).2.rewatch w) := by
  induction files generalizing e with
  | nil => rfl
  | cons file rest ih =>
      have hwatcher := (needsReindex_spec env e file argumentsChanged).2.watcher
      rw [candidates, candidates, needsReindex_rewatch h]
      dsimp only
      rw [ih (by rw [hwatcher]; exact h)]

theorem handleChanged_rewatch (h : forall id, w.isUnwatchable id = e.watcher.isUnwatchable id)
    (env : Environment) (files : List FileId) :
    handleChanged env (e.rewatch w) files =
      ((handleChanged env e files).1, (handleChanged env e files).2.rewatch w) := by
  have hlooked : files.foldl (look env) (e.rewatch w) = (files.foldl (look env) e).rewatch w :=
    foldl_rewatch (fun _ _ => rfl) e files
  have hwatcher := (alike_foldl (alike_look env) e files).watcher
  have howned : ((files.foldl (look env) e).rewatch w).isOwned =
      (files.foldl (look env) e).isOwned := rfl
  unfold handleChanged
  dsimp only
  rw [hlooked, howned, candidates_rewatch (by rw [hwatcher]; exact h)]
  generalize candidates env false (files.foldl (look env) e) _ = r
  rcases r with ⟨outdated, e'⟩
  show ((reindex e' outdated).1, if 0 < (reindex e' outdated).1 then _ else _) = _
  by_cases hsome : 0 < (reindex e' outdated).1
  · rw [if_pos hsome, if_pos hsome]
    rfl
  · rw [if_neg hsome, if_neg hsome]
    rfl

theorem retireOne_rewatch (e : Engine) (file : FileId) :
    retireOne (e.rewatch w) file = (retireOne e file).rewatch w := by
  unfold retireOne ownerOf rewatch
  dsimp only
  cases e.owners.get? file <;> rfl

theorem detach_rewatch (e : Engine) (files : List FileId) :
    (e.rewatch w).detach files = (e.detach files).rewatch w := by
  unfold detach
  split
  · rfl
  · have hcleared := foldl_rewatch (w := w) (f := clearOne) (fun _ _ => rfl)
      { e with scheduler := e.scheduler.dropTasks files } files
    exact congrArg (fun e : Engine => { e with statuses := e.statuses.forget files }) hcleared

theorem retire_rewatch (e : Engine) (files : List FileId) :
    (e.rewatch w).retire files = (e.retire files).rewatch (w.remove files) := by
  unfold retire
  cases hempty : files.isEmpty with
  | true =>
      rw [List.isEmpty_iff.mp hempty]
      rfl
  | false =>
      have hretired := foldl_rewatch (w := w) retireOne_rewatch
        { e with scheduler := e.scheduler.dropTasks files } files
      rw [if_neg Bool.false_ne_true, if_neg Bool.false_ne_true]
      exact congrArg (fun e : Engine =>
        { e with statuses := e.statuses.forget files, watcher := e.watcher.remove files }) hretired

theorem handleRemoved_rewatch (h : forall id, w.isUnwatchable id = e.watcher.isUnwatchable id)
    (files : List FileId) :
    let removed := (files.filter e.isOwned).filter fun file => !e.watcher.isUnwatchable file
    handleRemoved (e.rewatch w) files =
      ((handleRemoved e files).1, (handleRemoved e files).2.rewatch (w.remove removed)) := by
  intro removed
  have hsame : (e.rewatch w).watcher.isUnwatchable = e.watcher.isUnwatchable := funext h
  unfold handleRemoved
  dsimp only
  rw [hsame, detach_rewatch, retire_rewatch]
  rfl

end Rewatch

/-- Two engines that differ only in how the paths of watched files are spelled. -/
structure Rewatched (e e' : Engine) : Prop where
  rest : e' = e.rewatch e'.watcher
  watcher : e.watcher.Alike e'.watcher

theorem watcher_handleRemoved (e : Engine) (files : List FileId) :
    (handleRemoved e files).2.watcher = e.watcher.remove
      ((files.filter e.isOwned).filter fun file => !e.watcher.isUnwatchable file) :=
  congrArg (fun r => r.2.watcher) (handleRemoved_rewatch (e := e) (fun _ => rfl) files)

theorem Rewatched.handleChanged (h : Rewatched e e') (env : Environment) (files : List FileId) :
    (Engine.handleChanged env e' files).1 = (Engine.handleChanged env e files).1 ∧
      Rewatched (Engine.handleChanged env e files).2 (Engine.handleChanged env e' files).2 := by
  have hsame := handleChanged_rewatch (e := e) h.watcher.isUnwatchable env files
  rw [← h.rest] at hsame
  rw [hsame]
  refine ⟨rfl, rfl, ?_⟩
  rw [(calm_handleChanged env e files).watcher]
  exact h.watcher

theorem Rewatched.handleRemoved (h : Rewatched e e') (files : List FileId) :
    (Engine.handleRemoved e' files).1 = (Engine.handleRemoved e files).1 ∧
      Rewatched (Engine.handleRemoved e files).2 (Engine.handleRemoved e' files).2 := by
  have hsame := handleRemoved_rewatch (e := e) h.watcher.isUnwatchable files
  rw [← h.rest] at hsame
  rw [hsame]
  refine ⟨rfl, rfl, ?_⟩
  rw [watcher_handleRemoved]
  exact h.watcher.remove _

/-!
# Dropping contents
-/

/-- Two spellings that the disk and a watcher do not tell apart, if there are contents to drop. -/
def Respelled (d : Disk) (o : Overlay) (p q : Path) : Prop :=
  p.normalize = q.normalize ∧ (o.contains p = true ->
    d.doesExist p = d.doesExist q ∧ (d.doesExist p = true -> p.Respells q))

theorem dropContents_respelled {d : Disk} {o : Overlay} {ps qs : List Path}
    (h : List.Forall₂ (Respelled d o) ps qs)
    (hcontents : forall p, e.overlay.contains p = true -> o.contains p = true) :
    (e.dropContents d qs).2 = (e.dropContents d ps).2 ∧
      (e.dropContents d qs).1.2 = (e.dropContents d ps).1.2 ∧
      Watcher.SameFiles (e.dropContents d ps).1.1 (e.dropContents d qs).1.1 := by
  induction h generalizing e with
  | nil => exact ⟨rfl, rfl, .nil⟩
  | cons hone _ ih =>
      rename_i p q ps qs _
      rcases hone with ⟨hnormal, hdisk⟩
      rw [dropContents, dropContents, Overlay.contains_congr _ hnormal,
        Overlay.erase_congr _ hnormal, intern_congr _ hnormal]
      split
      · rename_i hcontains
        rw [← Overlay.contains_congr _ hnormal] at hcontains
        rcases hdisk (hcontents p hcontains) with ⟨hexists, hspelled⟩
        have hless : forall r, (({ e with overlay := e.overlay.erase q } : Engine).intern
            q).2.overlay.contains r = true -> o.contains r = true :=
          fun r hr => hcontents r ((Overlay.contains_erase _ _ _).mp hr).2
        rcases ih hless with ⟨hengine, hmissing, hfiles⟩
        dsimp only
        rw [← hexists]
        cases hthere : d.doesExist p with
        | true => exact ⟨hengine, hmissing, .cons ⟨rfl, hspelled hthere⟩ hfiles⟩
        | false => exact ⟨hengine, congrArg (List.cons _) hmissing, hfiles⟩
      · exact ih hcontents

theorem removeGenerated_eq (env : Environment) (e : Engine) (paths : List Path) :
    removeGenerated env e paths =
      let dropped := e.dropContents env.disk paths
      let shown :=
        if dropped.1.1.isEmpty then (0, uncovered env e paths)
        else handleChanged env (uncovered env e paths) (dropped.1.1.map Prod.fst)
      let gone :=
        if dropped.1.2.isEmpty then (0, shown.2) else handleRemoved shown.2 dropped.1.2
      (shown.1 + gone.1, gone.2) := rfl

/-- Spellings that disk and watcher do not tell apart come to the same but for the spelling. -/
theorem removeGenerated_respelled {ps qs : List Path} (hblind : env.backend.Blind)
    (h : List.Forall₂ (Respelled env.disk e.overlay) ps qs) :
    (removeGenerated env e qs).1 = (removeGenerated env e ps).1 ∧
      Rewatched (removeGenerated env e ps).2 (removeGenerated env e qs).2 := by
  rcases dropContents_respelled h (fun _ hp => hp) with ⟨hengine, hmissing, hfiles⟩
  have htaken : Rewatched (uncovered env e ps) (uncovered env e qs) := by
    unfold uncovered
    dsimp only
    rw [hengine]
    exact ⟨rfl, (Watcher.Alike.refl _).add hblind (hfiles.filter _)⟩
  rw [removeGenerated_eq, removeGenerated_eq]
  dsimp only
  have hempty : (e.dropContents env.disk qs).1.1.isEmpty =
      (e.dropContents env.disk ps).1.1.isEmpty := by
    rw [← List.isEmpty_map (f := Prod.fst), hfiles.map_fst, List.isEmpty_map]
  rw [hmissing, hfiles.map_fst, hempty]
  have hgone : forall {n : Nat} {e₁ e₂ : Engine}, Rewatched e₁ e₂ ->
      let gone := fun e' : Engine => if (e.dropContents env.disk ps).1.2.isEmpty then (0, e')
        else handleRemoved e' (e.dropContents env.disk ps).1.2
      n + (gone e₂).1 = n + (gone e₁).1 ∧ Rewatched (gone e₁).2 (gone e₂).2 := by
    intro n e₁ e₂ hsame gone
    dsimp only [gone]
    split
    · exact ⟨rfl, hsame⟩
    · rcases hsame.handleRemoved (e.dropContents env.disk ps).1.2 with ⟨hnumber, hrest⟩
      exact ⟨congrArg _ hnumber, hrest⟩
  split
  · exact hgone htaken
  · rcases htaken.handleChanged env ((e.dropContents env.disk ps).1.1.map Prod.fst) with
      ⟨hnumber, hrest⟩
    rw [hnumber]
    exact hgone hrest

/-!
# Dropping the contents of one file
-/

/-- Two answers and the engines they leave, alike in all that is owned, due, stored and watched. -/
structure Concurs (r r' : Nat × Engine) : Prop where
  number : r'.1 = r.1
  owners : r'.2.owners = r.2.owners
  queue : r'.2.scheduler.queue = r.2.scheduler.queue
  storage : r'.2.storage = r.2.storage
  overlay : r'.2.overlay = r.2.overlay
  places : forall id, r'.2.watcher.place? id = r.2.watcher.place? id
  refusals : forall id, r'.2.watcher.isUnwatchable id = r.2.watcher.isUnwatchable id

namespace Concurs

variable {r r' r'' : Nat × Engine}

theorem refl (r : Nat × Engine) : Concurs r r :=
  ⟨rfl, rfl, rfl, rfl, rfl, fun _ => rfl, fun _ => rfl⟩

theorem symm (h : Concurs r r') : Concurs r' r where
  number := h.number.symm
  owners := h.owners.symm
  queue := h.queue.symm
  storage := h.storage.symm
  overlay := h.overlay.symm
  places := fun id => (h.places id).symm
  refusals := fun id => (h.refusals id).symm

theorem trans (h : Concurs r r') (h' : Concurs r' r'') : Concurs r r'' where
  number := h'.number.trans h.number
  owners := h'.owners.trans h.owners
  queue := h'.queue.trans h.queue
  storage := h'.storage.trans h.storage
  overlay := h'.overlay.trans h.overlay
  places := fun id => (h'.places id).trans (h.places id)
  refusals := fun id => (h'.refusals id).trans (h.refusals id)

theorem of_alike {n : Nat} (h : Alike e e') : Concurs (n, e) (n, e') where
  number := rfl
  owners := h.owners
  queue := congrArg Scheduler.queue h.scheduler
  storage := h.storage
  overlay := h.overlay
  places := fun id => congrArg (fun w => Watcher.place? w id) h.watcher
  refusals := fun id => congrArg (fun w => Watcher.isUnwatchable w id) h.watcher

end Concurs

/-- The file of a path, and the engine in which it has lost its contents. -/
def bared (e : Engine) (p : Path) : FileId × Engine :=
  ({ e with overlay := e.overlay.erase p } : Engine).intern p

theorem bared_congr (e : Engine) (h : p.normalize = q.normalize) : e.bared p = e.bared q := by
  unfold bared
  rw [Overlay.erase_congr _ h, intern_congr _ h]

/-- The engine that watches the bared file of a path, if a part owns it. -/
def rewatched (env : Environment) (e : Engine) (p : Path) : Engine :=
  (e.bared p).2.rewatch
    ((e.bared p).2.watcher.add env.backend
      ([((e.bared p).1, p)].filter fun f => (e.bared p).2.isOwned f.1))

theorem removeGenerated_of_not_contains (env : Environment) (hp : e.overlay.contains p = false) :
    removeGenerated env e [p] = (0, e) := by
  have hdropped : e.dropContents env.disk [p] = (([], []), e) := by
    rw [dropContents, if_neg (by rw [hp]; exact Bool.false_ne_true), dropContents]
  unfold removeGenerated
  rw [hdropped]
  rfl

theorem removeGenerated_of_exists (env : Environment) (hp : e.overlay.contains p = true)
    (hexists : env.disk.doesExist p = true) :
    removeGenerated env e [p] = handleChanged env (e.rewatched env p) [(e.bared p).1] := by
  have hdropped : e.dropContents env.disk [p] =
      (([((e.bared p).1, p)], []), (e.bared p).2) := by
    unfold dropContents
    rw [if_pos hp]
    dsimp only
    rw [hexists]
    rfl
  unfold removeGenerated
  rw [hdropped]
  rfl

theorem removeGenerated_of_not_exists (hp : e.overlay.contains p = true)
    (hexists : env.disk.doesExist p = false) :
    removeGenerated env e [p] = handleRemoved (e.bared p).2 [(e.bared p).1] := by
  have hdropped : e.dropContents env.disk [p] =
      (([], [(e.bared p).1]), (e.bared p).2) := by
    unfold dropContents
    rw [if_pos hp]
    dsimp only
    rw [hexists]
    rfl
  unfold removeGenerated
  rw [hdropped]
  exact Prod.ext (Nat.zero_add _) rfl

/-- For a file without an owner it makes no difference whether it is on the disk. -/
theorem concurs_of_not_owned (env : Environment) (hp : e.overlay.contains p = true)
    (howned : (e.bared p).2.isOwned (e.bared p).1 = false) :
    Concurs (0, (e.bared p).2) (removeGenerated env e [p]) := by
  cases hexists : env.disk.doesExist p with
  | true =>
      have hrewatched : e.rewatched env p = (e.bared p).2 := by
        rw [rewatched, List.filter_cons_of_neg (by rw [howned]; exact Bool.false_ne_true)]
        rfl
      rw [removeGenerated_of_exists env hp hexists, hrewatched]
      have hlooked := alike_look env (e.bared p).2 (e.bared p).1
      have howned' : (look env (e.bared p).2 (e.bared p).1).isOwned (e.bared p).1 = false := by
        rw [isOwned, hlooked.owners]
        exact howned
      have hsame : handleChanged env (e.bared p).2 [(e.bared p).1] =
          (0, look env (e.bared p).2 (e.bared p).1) := by
        unfold handleChanged
        dsimp only [List.foldl_cons, List.foldl_nil]
        rw [List.filter_cons_of_neg (by rw [howned']; exact Bool.false_ne_true)]
        rfl
      rw [hsame]
      exact Concurs.of_alike hlooked
  | false =>
      have hsame : handleRemoved (e.bared p).2 [(e.bared p).1] = (0, (e.bared p).2) := by
        unfold handleRemoved
        dsimp only
        rw [List.filter_cons_of_neg (by rw [howned]; exact Bool.false_ne_true)]
        rfl
      rw [removeGenerated_of_not_exists hp hexists, hsame]
      exact Concurs.refl _

section Owned

variable (env) (hp : e.overlay.contains p = true)
  (howned : (e.bared p).2.isOwned (e.bared p).1 = true)
  (hspared : ¬ (e.bared p).2.watcher.Tracks (e.bared p).1)

include howned in
theorem rewatched_of_owned (env : Environment) : e.rewatched env p = (e.bared p).2.rewatch
    ((e.bared p).2.watcher.add env.backend [((e.bared p).1, p)]) := by
  have hkept : [((e.bared p).1, p)].filter (fun f => (e.bared p).2.isOwned f.1) =
      [((e.bared p).1, p)] := List.filter_cons_of_pos howned
  rw [rewatched, hkept]

include hp howned hspared

/-- A file on the disk is watched under the path as spelled, unless its directory is refused. -/
theorem place?_of_exists (hexists : env.disk.doesExist p = true) :
    let w := (removeGenerated env e [p]).2.watcher
    let refused := (e.bared p).2.watcher.refuses env.backend p
    (forall id, id ≠ (e.bared p).1 -> w.place? id = (e.bared p).2.watcher.place? id ∧
      w.isUnwatchable id = (e.bared p).2.watcher.isUnwatchable id) ∧
    w.isUnwatchable (e.bared p).1 = refused ∧
    w.place? (e.bared p).1 = if refused then none else some p.components := by
  intro w refused
  have hwatcher : w = (e.bared p).2.watcher.add env.backend [((e.bared p).1, p)] := by
    dsimp only [w]
    rw [removeGenerated_of_exists env hp hexists, (calm_handleChanged _ _ _).watcher,
      rewatched_of_owned howned]
    rfl
  have hadded := fun other =>
    Watcher.place?_add_singleton env.backend (e.bared p).2.watcher (e.bared p).1 p other
  rw [hwatcher]
  constructor
  · intro id hid
    rw [(hadded id).1, (hadded id).2, Watcher.place?, Watcher.place?,
      Watcher.get?_byId_addOne_of_ne _ _ _ (Ne.symm hid),
      Watcher.isUnwatchable_addOne _ _ _ (Ne.symm hid)]
    exact ⟨rfl, rfl⟩
  · rw [(hadded _).1, (hadded _).2]
    exact Watcher.addOne_of_not_tracks env.backend p hspared

theorem isOwned_removeGenerated (hagrees : (e.bared p).2.Agrees) :
    (removeGenerated env e [p]).2.isOwned (e.bared p).1 = env.disk.doesExist p := by
  cases hexists : env.disk.doesExist p with
  | true =>
      rw [removeGenerated_of_exists env hp hexists, isOwned, (calm_handleChanged _ _ _).owners]
      exact howned
  | false =>
      have hwatchable : (e.bared p).2.watcher.isUnwatchable (e.bared p).1 = false :=
        Bool.eq_false_iff.mpr fun h => hspared (Or.inr h)
      have hnone := hagrees.unowned_of_removed (List.mem_singleton.mpr rfl) howned hwatchable
      rw [removeGenerated_of_not_exists hp hexists, isOwned, Table.contains, ← ownerOf, hnone]
      rfl

theorem owned_of_same (hsame : p.normalize = q.normalize) :
    e.overlay.contains q = true ∧ (e.bared q).2.isOwned (e.bared q).1 = true ∧
      ¬ (e.bared q).2.watcher.Tracks (e.bared q).1 := by
  rw [← bared_congr e hsame, ← Overlay.contains_congr _ hsame]
  exact ⟨hp, howned, hspared⟩

/-- Spellings under which the disk has an owned file concur if the watcher treats them alike. -/
theorem concurs_of_watched_alike (hsame : p.normalize = q.normalize)
    (hexists : env.disk.doesExist p = true) (hexists' : env.disk.doesExist q = true)
    (hrefuses : (e.bared p).2.watcher.refuses env.backend p =
      (e.bared p).2.watcher.refuses env.backend q)
    (hcomponents : (e.bared p).2.watcher.refuses env.backend p = false ->
      p.components = q.components) :
    Concurs (removeGenerated env e [p]) (removeGenerated env e [q]) := by
  rcases owned_of_same hp howned hspared hsame with ⟨hq, hownedq, hsparedq⟩
  have hbared := bared_congr e hsame
  rcases place?_of_exists env hp howned hspared hexists with ⟨hothers, hrefused, hplace⟩
  have hpath' := place?_of_exists env hq hownedq hsparedq hexists'
  rw [← hbared] at hpath'
  rcases hpath' with ⟨hothers', hrefused', hplace'⟩
  have hrefusals : forall id, (removeGenerated env e [q]).2.watcher.isUnwatchable id =
      (removeGenerated env e [p]).2.watcher.isUnwatchable id := by
    intro id
    by_cases hid : id = (e.bared p).1
    · rw [hid, hrefused, hrefused', hrefuses]
    · rw [(hothers id hid).2, (hothers' id hid).2]
  have hplaces : forall id, (removeGenerated env e [q]).2.watcher.place? id =
      (removeGenerated env e [p]).2.watcher.place? id := by
    intro id
    by_cases hid : id = (e.bared p).1
    · rw [hid, hplace, hplace', ← hrefuses]
      split
      · rfl
      · rename_i haccepted
        rw [hcomponents (Bool.eq_false_iff.mpr haccepted)]
    · rw [(hothers id hid).1, (hothers' id hid).1]
  have hother : e.rewatched env q =
      (e.rewatched env p).rewatch (e.rewatched env q).watcher := by
    rw [rewatched_of_owned howned, rewatched_of_owned hownedq, ← hbared]
    rfl
  have hrun := removeGenerated_of_exists env hq hexists'
  rw [← hbared, hother, handleChanged_rewatch,
    ← removeGenerated_of_exists env hp hexists] at hrun
  · exact
      { number := by rw [hrun]
        owners := by rw [hrun]; rfl
        queue := by rw [hrun]; rfl
        storage := by rw [hrun]; rfl
        overlay := by rw [hrun]; rfl
        places := hplaces
        refusals := hrefusals }
  · intro id
    have hone := hrefusals id
    rw [removeGenerated_of_exists env hp hexists, removeGenerated_of_exists env hq hexists',
      (calm_handleChanged _ _ _).watcher, (calm_handleChanged _ _ _).watcher] at hone
    exact hone

/-- Spellings of the path of an owned file concur if disk and watcher treat them alike. -/
theorem concurs_iff_of_owned (hagrees : (e.bared p).2.Agrees)
    (hsame : p.normalize = q.normalize) :
    Concurs (removeGenerated env e [p]) (removeGenerated env e [q]) ↔
      env.disk.doesExist p = env.disk.doesExist q ∧ (env.disk.doesExist p = true ->
        (e.bared p).2.watcher.refuses env.backend p =
            (e.bared p).2.watcher.refuses env.backend q ∧
          ((e.bared p).2.watcher.refuses env.backend p = false ->
            p.components = q.components)) := by
  rcases owned_of_same hp howned hspared hsame with ⟨hq, hownedq, hsparedq⟩
  have hbared := bared_congr e hsame
  constructor
  · intro hconcurs
    have hownp := isOwned_removeGenerated env hp howned hspared hagrees
    have hownq := isOwned_removeGenerated env hq hownedq hsparedq (hbared ▸ hagrees)
    rw [← hbared] at hownq
    have hdisk : env.disk.doesExist p = env.disk.doesExist q := by
      rw [← hownp, ← hownq, isOwned, isOwned, hconcurs.owners]
    refine ⟨hdisk, fun hexists => ?_⟩
    rcases place?_of_exists env hp howned hspared hexists with ⟨-, hrefused, hplace⟩
    have hpath' := place?_of_exists env hq hownedq hsparedq (hdisk ▸ hexists)
    rw [← hbared] at hpath'
    rcases hpath' with ⟨-, hrefused', hplace'⟩
    have hrefuses := hrefused.symm.trans ((hconcurs.refusals _).symm.trans hrefused')
    refine ⟨hrefuses, fun hwatched => ?_⟩
    have hplaces := hplace.symm.trans ((hconcurs.places _).symm.trans hplace')
    rw [← hrefuses, hwatched, if_neg Bool.false_ne_true, if_neg Bool.false_ne_true] at hplaces
    exact Option.some.inj hplaces
  · rintro ⟨hdisk, hwatched⟩
    cases hexists : env.disk.doesExist p with
    | false =>
        rw [removeGenerated_of_not_exists hp hexists,
          removeGenerated_of_not_exists hq (hdisk ▸ hexists), hbared]
        exact Concurs.refl _
    | true =>
        rcases hwatched hexists with ⟨hrefuses, hcomponents⟩
        exact concurs_of_watched_alike env hp howned hspared hsame hexists (hdisk ▸ hexists)
          hrefuses hcomponents

end Owned

/-!
# Files that are spared
-/

theorem Attends.agrees_bared (h : e.Attends) (p : Path) : (e.bared p).2.Agrees :=
  ((h.agrees.with_overlay (e.overlay.erase p)).intern p).1

theorem Attends.not_tracks_bared (h : e.Attends) (hspares : e.Spares)
    (htext : p.normalize.IsText) (hp : e.overlay.contains p = true) :
    ¬ e.watcher.Tracks (e.bared p).1 := by
  intro htracks
  rcases h.path?_of_tracks htracks with ⟨q, hq⟩
  rcases (h.erase p).agrees.intern p with ⟨-, hinterned, hsource⟩
  have hdisplay := (hinterned.grown.sources _ _ (h.source? hq)).symm.trans hsource
  have hqtext : Path.ofString q.display = q := by
    rw [h.textual] at hq
    rcases Option.map_eq_some_iff.mp hq with ⟨text, -, rfl⟩
    rw [Path.display_ofString]
  have hsame : q = p.normalize := by
    rw [← hqtext, Option.some.inj hdisplay, Path.ofString_display htext]
  apply hspares _ htracks
  refine ⟨q, hq, ?_⟩
  rw [hsame, Overlay.contains_congr _ (Path.normalize_normalize p)]
  exact hp

end Engine

namespace World

/--
How much of a generated file hangs on the spelling of its path. Setting contents does not
depend on it at all. Dropping contents comes to the same for two lists of spellings if the
disk has each file under both of them or under none, and those that it has differ in
slashes and dots only. In a world that came about by paths that are text this is needed as
well, one path at a time: for an owned file with contents two spellings concur just when
the disk has it under both or under none, and in the first case the directories are both
refused or the components agree. The file keeps its owner just when the disk has it under
the path as it is spelled, and it is watched under this spelling. An absolute path under
which there is something has the same under its normal form.
-/
theorem spelling_matters_to_disk_and_watcher (env : Environment) (w : World) (p q : Path) :
    (forall (e : Engine) files files', Engine.SameContents files files' ->
      Engine.updateGenerated env e files = Engine.updateGenerated env e files') ∧
    (forall (e : Engine) ps qs, env.backend.Blind ->
      List.Forall₂ (Engine.Respelled env.disk e.overlay) ps qs ->
        (Engine.removeGenerated env e qs).1 = (Engine.removeGenerated env e ps).1 ∧
          Engine.Rewatched (Engine.removeGenerated env e ps).2
            (Engine.removeGenerated env e qs).2) ∧
    (w.Arises -> p.normalize.IsText -> p.normalize = q.normalize ->
      let e := w.engine
      let file := (e.intern p).1
      let refuses := e.watcher.refuses env.backend
      (Engine.Concurs (Engine.removeGenerated env e [p]) (Engine.removeGenerated env e [q]) ↔
        (e.overlay.contains p = true -> e.isOwned file = true ->
          env.disk.doesExist p = env.disk.doesExist q ∧ (env.disk.doesExist p = true ->
            refuses p = refuses q ∧ (refuses p = false -> p.components = q.components)))) ∧
      (e.overlay.contains p = true -> e.isOwned file = true ->
        (Engine.removeGenerated env e [p]).2.isOwned file = env.disk.doesExist p ∧
          (env.disk.doesExist p = true -> refuses p = false ->
            (Engine.removeGenerated env e [p]).2.watcher.place? file = some p.components))) ∧
    (p.isAbsolute = true -> env.disk.doesExist p = true ->
      env.disk.doesExist p.normalize = true) := by
  constructor
  · exact fun e files files' hfiles => Engine.updateGenerated_congr env e hfiles
  · constructor
    · exact fun e ps qs hblind hspelled => Engine.removeGenerated_respelled hblind hspelled
    · constructor
      · intro harises htext hsame e file refuses
        have hattends : e.Attends := harises.attends
        have hagrees := hattends.agrees_bared p
        have hspared : e.overlay.contains p = true -> ¬ (e.bared p).2.watcher.Tracks (e.bared p).1 :=
          hattends.not_tracks_bared harises.spares htext
        constructor
        · cases hp : e.overlay.contains p with
          | false =>
              have hq : e.overlay.contains q = false := by
                rw [← Overlay.contains_congr _ hsame]
                exact hp
              rw [Engine.removeGenerated_of_not_contains env hp,
                Engine.removeGenerated_of_not_contains env hq]
              exact iff_of_true (Engine.Concurs.refl _) (fun h => absurd h Bool.false_ne_true)
          | true =>
              have hq : e.overlay.contains q = true := by
                rw [← Overlay.contains_congr _ hsame]
                exact hp
              cases howned : e.isOwned file with
              | true =>
                  have hiff := Engine.concurs_iff_of_owned env hp howned (hspared hp)
                    hagrees hsame
                  exact ⟨fun h _ _ => hiff.mp h, fun h => hiff.mpr (h rfl rfl)⟩
              | false =>
                  have howned' : (e.bared q).2.isOwned (e.bared q).1 = false := by
                    rw [← Engine.bared_congr e hsame]
                    exact howned
                  have hone := Engine.concurs_of_not_owned env hp howned
                  have hother := Engine.concurs_of_not_owned env hq howned'
                  rw [← Engine.bared_congr e hsame] at hother
                  exact iff_of_true (hone.symm.trans hother)
                    (fun _ h => absurd h Bool.false_ne_true)
        · intro hp howned
          constructor
          · exact Engine.isOwned_removeGenerated env hp howned (hspared hp) hagrees
          · intro hexists haccepted
            have hplace := (Engine.place?_of_exists env hp howned (hspared hp) hexists).2.2
            rw [if_neg (by exact Bool.eq_false_iff.mp haccepted)] at hplace
            exact hplace
      · exact fun habsolute hexists => Disk.doesExist_normalize habsolute hexists

/-- The file of a part has generated contents. -/
def generated : World :=
  run lastArgument (fresh oneFileDisk 1)
    [.submit [partWith ["-O0"]], .generate [(fileA, "generated")]]

/-- A slash more or a `.` is no matter. -/
theorem dotted_spelling_concurs :
    let e := generated.engine
    let env := lastArgument.environment generated.disk
    let dotted := Path.ofString "/w/./a"
    Engine.updateGenerated env e [(fileA, "new")] =
        Engine.updateGenerated env e [(dotted, "new")] ∧
      (Engine.removeGenerated { env with backend := .all } e [dotted]).1 =
        (Engine.removeGenerated { env with backend := .all } e [fileA]).1 ∧
      Engine.Concurs (Engine.removeGenerated env e [fileA]) (Engine.removeGenerated env e [dotted]) ∧
      (Engine.removeGenerated env e [dotted]).2.watcher.place? ⟨1⟩ = some dotted.components ∧
      env.disk.doesExist dotted.normalize = true := by
  intro e env dotted
  have harises : generated.Arises := (Arises.fresh oneFileDisk 1).run lastArgument (by decide)
  have hsame : fileA.normalize = dotted.normalize := by decide +kernel
  have htext : fileA.normalize.IsText := Path.isText_normalize (Path.isText_ofString "/w/a")
  rcases spelling_matters_to_disk_and_watcher env generated fileA dotted with
    ⟨hset, -, hone, -⟩
  rcases spelling_matters_to_disk_and_watcher env generated dotted fileA with
    ⟨-, -, hback, hdisk⟩
  constructor
  · exact hset e _ _ (.cons ⟨hsame, rfl⟩ .nil)
  · constructor
    · have hspelled : Engine.Respelled env.disk e.overlay fileA dotted :=
        ⟨hsame, fun _ => ⟨by decide +kernel, fun _ => Or.inr (by decide +kernel)⟩⟩
      exact ((spelling_matters_to_disk_and_watcher { env with backend := .all } generated
        fileA dotted).2.1 e [fileA] [dotted] (fun _ _ _ _ => rfl) (.cons hspelled .nil)).1
    · constructor
      · exact (hone harises htext hsame).1.mpr (by decide +kernel)
      · constructor
        · exact ((hback harises (hsame ▸ htext) hsame.symm).2
            (by decide +kernel) (by decide +kernel)).2 (by decide +kernel) (by decide +kernel)
        · exact hdisk (by decide +kernel) (by decide +kernel)

/--
A way through a directory that is not there leads to no file, so that the file is retired
though it is there. A way up and down again leads to the file, which is watched under the
way and not under its path.
-/
theorem detour_does_not_concur :
    let e := generated.engine
    let env := lastArgument.environment generated.disk
    let lost := Path.ofString "/w/none/../a"
    let back := Path.ofString "/w/../w/a"
    (lost.normalize = fileA ∧ back.normalize = fileA ∧ fileA.normalize = fileA) ∧
      env.disk.doesExist fileA = true ∧
      (Engine.removeGenerated env e [fileA]).2.ownerOf ⟨1⟩ = some ⟨"app"⟩ ∧
      (Engine.removeGenerated env e [lost]).2.ownerOf ⟨1⟩ = none ∧
      (Engine.removeGenerated env e [fileA]).2.watcher.place? ⟨1⟩ = some fileA.components ∧
      (Engine.removeGenerated env e [back]).2.watcher.place? ⟨1⟩ = some back.components ∧
      ¬ forall w : World, w.Arises -> forall (env : Environment) (p q : Path),
        p.isAbsolute = true -> q.isAbsolute = true -> p.normalize = q.normalize ->
        Engine.Concurs (Engine.removeGenerated env w.engine [p])
          (Engine.removeGenerated env w.engine [q]) := by
  intro e env lost back
  have howned : (Engine.removeGenerated env e [fileA]).2.ownerOf ⟨1⟩ = some ⟨"app"⟩ := by
    decide +kernel
  have hnone : (Engine.removeGenerated env e [lost]).2.ownerOf ⟨1⟩ = none := by decide +kernel
  refine ⟨by decide +kernel, by decide +kernel, howned, hnone, by decide +kernel,
    by decide +kernel, ?_⟩
  intro hclaim
  have harises : generated.Arises := (Arises.fresh oneFileDisk 1).run lastArgument (by decide)
  have hconcurs := hclaim generated harises env lost fileA (by decide) (by decide)
    (by decide +kernel)
  have howners : (Engine.removeGenerated env e [fileA]).2.ownerOf ⟨1⟩ =
      (Engine.removeGenerated env e [lost]).2.ownerOf ⟨1⟩ :=
    congrArg (fun owners : Table FileId PartId => owners.get? ⟨1⟩) hconcurs.owners
  rw [howned, hnone] at howners
  cases howners

end World
end SymbolIndex
