import SymbolIndex.Engine.Parts
import SymbolIndex.Proofs.PathBook

/-!
# Looking at files

To see a file the engine asks the book for its path, and it notes the status that it
saw. Neither changes the path or the status of any file, so whether a file is due does
not depend on which files were looked at before.
-/

namespace SymbolIndex
namespace Engine

/-- Two engines that differ only in which paths were asked for and which statuses were noted. -/
structure Alike (e e' : Engine) : Prop where
  storage : e'.storage = e.storage
  overlay : e'.overlay = e.overlay
  scheduler : e'.scheduler = e.scheduler
  watcher : e'.watcher = e.watcher
  parts : e'.parts = e.parts
  owners : e'.owners = e.owners
  paths : forall id, e'.path? id = e.path? id
  book : e.book.Coherent e.storage.store -> e'.book.Coherent e'.storage.store
  known : e.book.Extends e'.book

namespace Alike

theorem refl (e : Engine) : Alike e e :=
  ⟨rfl, rfl, rfl, rfl, rfl, rfl, fun _ => rfl, id, PathBook.Extends.refl e.book⟩

theorem trans {e e' e'' : Engine} (h : Alike e e') (h' : Alike e' e'') : Alike e e'' where
  storage := h'.storage.trans h.storage
  overlay := h'.overlay.trans h.overlay
  scheduler := h'.scheduler.trans h.scheduler
  watcher := h'.watcher.trans h.watcher
  parts := h'.parts.trans h.parts
  owners := h'.owners.trans h.owners
  paths := fun id => (h'.paths id).trans (h.paths id)
  book := fun hbook => h'.book (h.book hbook)
  known := h.known.trans h'.known

theorem currentStatus? {e e' : Engine} (h : Alike e e') (env : Environment) (id : FileId) :
    Engine.currentStatus? env e' id = Engine.currentStatus? env e id := by
  rw [Engine.currentStatus?, Engine.currentStatus?, h.paths, h.overlay]

theorem isOutdated {e e' : Engine} (h : Alike e e') (id : FileId) (status : FileStatus) :
    e'.isOutdated id status = e.isOutdated id status := by
  rw [Engine.isOutdated, Engine.isOutdated, Engine.ownerOf, Engine.ownerOf, h.owners, h.storage]

theorem taskFor? {e e' : Engine} (h : Alike e e') (id : FileId) :
    e'.taskFor? id = e.taskFor? id := by
  rw [Engine.taskFor?, Engine.taskFor?, h.owners, h.parts]

end Alike

theorem alike_consult (e : Engine) (id : FileId) : Alike e (e.consult id) :=
  ⟨rfl, rfl, rfl, rfl, rfl, rfl,
    fun other => PathBook.path?_consult e.book e.storage.store id other,
    fun hbook => hbook.consult id,
    PathBook.extends_consult e.book e.storage.store id⟩

theorem alike_look (env : Environment) (e : Engine) (id : FileId) : Alike e (look env e id) := by
  have h := alike_consult e id
  exact ⟨rfl, rfl, rfl, rfl, rfl, rfl, h.paths, h.book, h.known⟩

theorem alike_foldl {f : Engine -> FileId -> Engine} (h : forall e id, Alike e (f e id))
    (e : Engine) (ids : List FileId) : Alike e (ids.foldl f e) := by
  induction ids generalizing e with
  | nil => exact Alike.refl e
  | cons id rest ih => exact (h e id).trans (ih (f e id))

/-!
# Files that are due
-/

/-- Whether a file has to be indexed as things stand. -/
def isDue (env : Environment) (e : Engine) (argumentsChanged : Bool) (file : FileId) : Bool :=
  !e.watcher.isUnwatchable file &&
    match currentStatus? env e file with
    | none => false
    | some status => argumentsChanged || e.isOutdated file status

theorem isDue_iff (env : Environment) (e : Engine) (argumentsChanged : Bool) (file : FileId) :
    isDue env e argumentsChanged file = true ↔
      e.watcher.isUnwatchable file = false ∧
        exists status, currentStatus? env e file = some status ∧
          (argumentsChanged = true ∨ e.isOutdated file status = true) := by
  unfold isDue
  cases currentStatus? env e file with
  | none => simp
  | some status => simp

theorem Alike.isDue {e e' : Engine} (h : Alike e e') (env : Environment) (argumentsChanged : Bool)
    (file : FileId) :
    Engine.isDue env e' argumentsChanged file = Engine.isDue env e argumentsChanged file := by
  unfold Engine.isDue
  rw [h.watcher, h.currentStatus?]
  cases Engine.currentStatus? env e file with
  | none => rfl
  | some status => simp only [h.isOutdated]

theorem needsReindex_spec (env : Environment) (e : Engine) (file : FileId)
    (argumentsChanged : Bool) :
    (needsReindex env e file argumentsChanged).1 = isDue env e argumentsChanged file ∧
      Alike e (needsReindex env e file argumentsChanged).2 := by
  have hlook := alike_look env e file
  unfold needsReindex isDue
  cases e.watcher.isUnwatchable file with
  | true => exact ⟨rfl, Alike.refl e⟩
  | false =>
      simp only [Bool.false_eq_true, if_false, Bool.not_false, Bool.true_and]
      cases currentStatus? env e file with
      | none => exact ⟨rfl, hlook⟩
      | some status =>
          refine ⟨?_, hlook⟩
          simp only [hlook.isOutdated]

theorem candidates_spec (env : Environment) (argumentsChanged : Bool) (e : Engine)
    (files : List FileId) :
    (candidates env argumentsChanged e files).1 =
        files.filter (isDue env e argumentsChanged) ∧
      Alike e (candidates env argumentsChanged e files).2 := by
  induction files generalizing e with
  | nil => exact ⟨rfl, Alike.refl e⟩
  | cons file rest ih =>
      rcases needsReindex_spec env e file argumentsChanged with ⟨hneeded, halike⟩
      rcases ih (needsReindex env e file argumentsChanged).2 with ⟨hrest, halike'⟩
      refine ⟨?_, halike.trans halike'⟩
      have hsame : isDue env (needsReindex env e file argumentsChanged).2 argumentsChanged =
          isDue env e argumentsChanged := by
        funext other
        exact halike.isDue env argumentsChanged other
      rw [hsame] at hrest
      rw [candidates, List.filter_cons, ← hneeded, ← hrest]

end Engine
end SymbolIndex
