import SymbolIndex.Proofs.Engine.Landings
import SymbolIndex.Proofs.Engine.Scheduling
import SymbolIndex.Proofs.Path

/-!
# What calls do to a file

Calls look at many files, and what they do to each of them is one of three things: they
leave it as it is, they drop what is stored about it, or they enqueue the task that its
owner asks for. Paths that are text are found again under their ids.
-/

namespace SymbolIndex
namespace Engine

variable {env : Environment} {e e' e'' : Engine} {file : FileId}

/-- The members of a part in the store are owned in memory. -/
def Owned (e : Engine) : Prop :=
  forall file part, e.storage.store.members.get? file = some part -> e.ownerOf file = some part

/-- The path of an id is the one that the store has as text. -/
def Textual (e : Engine) : Prop :=
  forall id, e.path? id = (e.storage.store.source? id).map Path.ofString

/-- What became of one file. -/
inductive Treated (file : FileId) (e e' : Engine) : Prop where
  | kept (hretains : Retains file e e')
  | dropped (hstatus : e'.storage.store.statuses.get? file = none)
      (hqueue : e'.scheduler.queue.get? file = none)
  | enqueued (task : Task) (htask : e'.taskFor? file = some task)
      (hqueue : e'.scheduler.queue.get? file = some task)
      (hrecords : e'.storage.store.statuses.get? file = none ∨
        e'.storage.store.statuses.get? file = e.storage.store.statuses.get? file ∧
          e'.storage.store.recordsAt file = e.storage.store.recordsAt file)

theorem Retains.trans (h : Retains file e e') (h' : Retains file e' e'') :
    Retains file e e'' where
  owner := h'.owner.trans h.owner
  task := h'.task.trans h.task
  member := h'.member.trans h.member
  status := h'.status.trans h.status
  records := h'.records.trans h.records
  queued := h'.queued.trans h.queued

theorem Treated.trans (h : Treated file e e') (h' : Treated file e' e'') :
    Treated file e e'' := by
  cases h' with
  | dropped hstatus hqueue => exact .dropped hstatus hqueue
  | kept hretains' =>
      cases h with
      | kept hretains => exact .kept (hretains.trans hretains')
      | dropped hstatus hqueue =>
          exact .dropped (hretains'.status.trans hstatus) (hretains'.queued.trans hqueue)
      | enqueued task htask hqueue hrecords =>
          refine .enqueued task (hretains'.task.trans htask) (hretains'.queued.trans hqueue) ?_
          rw [hretains'.status, hretains'.records]
          exact hrecords
  | enqueued task htask hqueue hrecords' =>
      refine .enqueued task htask hqueue ?_
      rcases hrecords' with hnone | ⟨hstatus', hrecords'⟩
      · exact Or.inl hnone
      · rw [hstatus', hrecords']
        cases h with
        | kept hretains => exact Or.inr ⟨hretains.status, hretains.records⟩
        | dropped hstatus hqueue => exact Or.inl hstatus
        | enqueued task htask hqueue hrecords => exact hrecords

/-- What a call carries over. -/
structure Carried (e e' : Engine) : Prop where
  treated : forall file, Treated file e e'
  owned : Owned e -> Owned e'
  sources : forall id text, e.storage.store.source? id = some text ->
    e'.storage.store.source? id = some text
  textual : Textual e -> Textual e'
  scheduler : exists queue, e'.scheduler = { e.scheduler with queue }

theorem Carried.trans (h : Carried e e') (h' : Carried e' e'') : Carried e e'' where
  treated := fun file => (h.treated file).trans (h'.treated file)
  owned := fun howned => h'.owned (h.owned howned)
  sources := fun id text hsource => h'.sources id text (h.sources id text hsource)
  textual := fun htextual => h'.textual (h.textual htextual)
  scheduler := by
    rcases h.scheduler with ⟨queue, hscheduler⟩
    rcases h'.scheduler with ⟨queue', hscheduler'⟩
    exact ⟨queue', by rw [hscheduler', hscheduler]⟩

theorem Carried.path? (h : Carried e e') (htextual : Textual e) {id : FileId} {p : Path}
    (hp : e.path? id = some p) : e'.path? id = some p := by
  rw [htextual] at hp
  rcases Option.map_eq_some_iff.mp hp with ⟨text, htext, rfl⟩
  rw [h.textual htextual, h.sources id text htext]
  rfl

theorem carried_of_same (hstorage : e'.storage = e.storage) (hscheduler : e'.scheduler = e.scheduler)
    (hparts : e'.parts = e.parts) (howners : e'.owners = e.owners)
    (hpaths : forall id, e'.path? id = e.path? id) : Carried e e' where
  treated := by
    intro file
    apply Treated.kept
    constructor
    · rw [ownerOf, ownerOf, howners]
    · rw [taskFor?, taskFor?, howners, hparts]
    · rw [hstorage]
    · rw [hstorage]
    · rw [hstorage]
    · rw [hscheduler]
  owned := by
    intro howned file part hmember
    rw [hstorage] at hmember
    rw [ownerOf, howners]
    exact howned file part hmember
  sources := by
    rw [hstorage]
    exact fun _ _ hsource => hsource
  textual := by
    intro htextual id
    rw [hpaths, hstorage]
    exact htextual id
  scheduler := ⟨e.scheduler.queue, by rw [hscheduler]⟩

theorem Carried.refl (e : Engine) : Carried e e :=
  carried_of_same rfl rfl rfl rfl (fun _ => rfl)

theorem Alike.carried (h : Alike e e') : Carried e e' :=
  carried_of_same h.storage h.scheduler h.parts h.owners h.paths

/-!
# Issuing ids
-/

theorem Interned.carried (h : Interned e e') (htextual : Textual e -> Textual e') :
    Carried e e' where
  treated := by
    intro file
    apply Treated.kept
    constructor
    · rw [ownerOf, ownerOf, h.owners]
    · rw [taskFor?, taskFor?, h.owners, h.parts]
    · rw [h.members]
    · rw [h.statuses]
    · exact h.recordsAt file
    · rw [h.scheduler]
  owned := by
    intro howned file part hmember
    rw [h.members] at hmember
    rw [ownerOf, h.owners]
    exact howned file part hmember
  sources := h.grown.sources
  textual := htextual
  scheduler := ⟨e.scheduler.queue, by rw [h.scheduler]⟩

theorem Textual.intern (h : Textual e) {p : Path} (hp : p.IsText) : Textual (e.intern p).2 := by
  intro id
  have hid := h id
  unfold Engine.intern PathBook.intern path? withStore
  unfold path? at hid
  dsimp only
  cases hknown : e.book.ids.get? p.normalize with
  | some known => exact hid
  | none =>
      have hgrown := PathBook.grown_addSource e.storage.store p.normalize.display
      have hsource := Store.source?_sourceId?_addSource e.storage.store p.normalize.display
      generalize ((e.storage.store.addSource p.normalize.display).sourceId?
        p.normalize.display).getD default = new at hsource
      dsimp only
      rw [PathBook.path?, PathBook.remember, Table.get?_insert]
      by_cases hnew : new = id
      · rw [if_pos hnew, ← hnew, hsource, Option.map_some,
          Path.ofString_display (Path.isText_normalize hp)]
      · rw [if_neg hnew]
        rw [PathBook.path?] at hid
        cases hpath : e.book.paths.get? id with
        | none => rfl
        | some q =>
            rw [hpath] at hid
            rcases Option.map_eq_some_iff.mp hid.symm with ⟨text, htext, rfl⟩
            rw [hgrown.sources id text htext]
            rfl

theorem Textual.prepare (h : Textual e) (claimed : Table FileId PartId) {parts : List Part}
    (hparts : forall part, part ∈ parts -> forall p, p ∈ part.files -> p.IsText) :
    Textual (Engine.prepare claimed e parts).2 :=
  kept_prepare (P := Textual) (fun _ _ hp hbefore => hbefore.intern hp) claimed hparts h

/-!
# Letting files go
-/

theorem LetGo.taskFor? {files : List FileId} (h : LetGo files e e') (file : FileId) :
    e'.taskFor? file = if file ∈ files then none else e.taskFor? file := by
  rw [taskFor?_eq, taskFor?_eq, h.owners]
  by_cases hfile : file ∈ files
  · rw [if_pos hfile, if_pos hfile]
    rfl
  · rw [if_neg hfile, if_neg hfile]
    cases e.ownerOf file with
    | none => rfl
    | some part =>
        rw [Option.bind_some, Option.bind_some, h.parts]
        cases e.parts.get? part <;> rfl

theorem Detached.taskFor? {files : List FileId} (h : Detached files e e') (file : FileId) :
    e'.taskFor? file = e.taskFor? file := by
  rw [Engine.taskFor?, Engine.taskFor?, h.owners, h.parts]

theorem Agrees.carried_retire (h : e.Agrees) (files : List FileId) :
    Carried e (e.retire files) := by
  rcases h.retire files with ⟨hgo, -⟩
  rcases scheduler_retire e files with ⟨queue, hscheduler, hqueue⟩
  refine
    { treated := ?_
      owned := ?_
      sources := ?_
      textual := ?_
      scheduler := ⟨queue, hscheduler⟩ }
  · intro file
    by_cases hfile : file ∈ files
    · apply Treated.dropped
      · rw [hgo.statuses, if_pos hfile]
      · rw [hscheduler]
        dsimp only
        rw [hqueue, if_pos hfile]
    · apply Treated.kept
      constructor
      · rw [hgo.owners, if_neg hfile]
      · rw [hgo.taskFor?, if_neg hfile]
      · rw [hgo.members, if_neg hfile]
      · rw [hgo.statuses, if_neg hfile]
      · exact hgo.records file hfile
      · rw [hscheduler]
        dsimp only
        rw [hqueue, if_neg hfile]
  · intro howned file part hmember
    rw [hgo.members] at hmember
    split at hmember
    · cases hmember
    · rename_i hfile
      rw [hgo.owners, if_neg hfile]
      exact howned file part hmember
  · intro id text hsource
    rw [Store.source?_of_sources_eq hgo.sources]
    exact hsource
  · intro htextual id
    rw [hgo.path?, Store.source?_of_sources_eq hgo.sources]
    exact htextual id

theorem Agrees.carried_detach (h : e.Agrees) (files : List FileId) :
    Carried e (e.detach files) := by
  rcases h.detach files with ⟨hdetached, -⟩
  rcases scheduler_detach e files with ⟨queue, hscheduler, hqueue⟩
  refine
    { treated := ?_
      owned := ?_
      sources := ?_
      textual := ?_
      scheduler := ⟨queue, hscheduler⟩ }
  · intro file
    by_cases hfile : file ∈ files
    · apply Treated.dropped
      · rw [hdetached.statuses, if_pos hfile]
      · rw [hscheduler]
        dsimp only
        rw [hqueue, if_pos hfile]
    · apply Treated.kept
      constructor
      · rw [ownerOf, ownerOf, hdetached.owners]
      · exact hdetached.taskFor? file
      · rw [hdetached.members]
      · rw [hdetached.statuses, if_neg hfile]
      · exact hdetached.records file hfile
      · rw [hscheduler]
        dsimp only
        rw [hqueue, if_neg hfile]
  · intro howned file part hmember
    rw [hdetached.members] at hmember
    rw [ownerOf, hdetached.owners]
    exact howned file part hmember
  · intro id text hsource
    rw [Store.source?_of_sources_eq hdetached.sources]
    exact hsource
  · intro htextual id
    rw [Engine.path?, hdetached.book, PathBook.path?_of_sources_eq hdetached.sources,
      Store.source?_of_sources_eq hdetached.sources]
    exact htextual id

theorem carried_reindex (e : Engine) (files : List FileId) : Carried e (e.reindex files).2 where
  treated := by
    intro file
    by_cases hfile : exists task, task ∈ files.filterMap e.taskFor? ∧ task.file = file
    · rcases hfile with ⟨task, htask, rfl⟩
      rcases TaskQueue.exists_get?_addOrUpdate (q := e.scheduler.queue) htask with
        ⟨newest, hnewest, hsame, hget⟩
      rcases List.mem_filterMap.mp hnewest with ⟨other, -, hother⟩
      have hfile : newest.file = other := by
        rcases (taskFor?_eq_some_iff e other newest).mp hother with ⟨-, -, -, -, rfl⟩
        rfl
      rw [← hfile, hsame] at hother
      exact .enqueued newest hother hget (Or.inr ⟨rfl, rfl⟩)
    · apply Treated.kept
      refine ⟨rfl, rfl, rfl, rfl, rfl, ?_⟩
      show (e.scheduler.queue.addOrUpdate (files.filterMap e.taskFor?)).get? file = _
      rw [TaskQueue.get?_addOrUpdate, List.find?_eq_none.mpr, Option.none_or]
      intro task htask hsame
      exact hfile ⟨task, List.mem_reverse.mp htask, by simpa using hsame⟩
  owned := id
  sources := fun _ _ hsource => hsource
  textual := id
  scheduler := ⟨_, rfl⟩

theorem Agrees.carried_removePart (h : e.Agrees) {id : PartId} {files : List FileId}
    (hfiles : forall file, file ∈ files ↔ e.storage.store.members.get? file = some id) :
    Carried e (e.removePart id files).2 := by
  have hagrees := (h.retire files).2
  have hnone := h.members_retire_ne hfiles
  rcases hagrees.storage_removePart hnone with ⟨-, hsources, -, hsame⟩
  rw [h.removePart_eq hfiles]
  apply (h.carried_retire files).trans
  refine
    { treated := ?_
      owned := ?_
      sources := ?_
      textual := ?_
      scheduler := ⟨_, rfl⟩ }
  · intro file
    rcases hsame file with ⟨hmember, hstatus, hrecords⟩
    refine .kept ⟨rfl, ?_, hmember, hstatus, hrecords, rfl⟩
    -- the part that goes owns nothing any more
    rw [taskFor?_eq, taskFor?_eq]
    show ((e.retire files).ownerOf file).bind _ = _
    cases howner : (e.retire files).ownerOf file with
    | none => rfl
    | some part =>
        have hne : id ≠ part := by
          intro heq
          rw [← heq] at howner
          exact hnone file (hagrees.member_of_owner howner)
        rw [Option.bind_some, Option.bind_some, Table.get?_erase, if_neg hne]
  · intro hbefore file part hmember
    rw [(hsame file).1] at hmember
    exact hbefore file part hmember
  · intro other text hsource
    rw [Store.source?_of_sources_eq hsources]
    exact hsource
  · intro htextual other
    rw [Store.source?_of_sources_eq hsources]
    exact (PathBook.path?_of_sources_eq hsources other).trans (htextual other)

theorem Agrees.carried_removeParts (h : e.Agrees) (ids : List PartId) :
    Carried e (e.removeParts ids).2 := by
  induction ids generalizing e with
  | nil => exact Carried.refl e
  | cons id rest ih =>
      have hfiles := h.mem_known_files id
      rw [Engine.removeParts, h.filesOf_eq]
      exact (h.carried_removePart hfiles).trans (ih (h.removePart hfiles))

/-!
# Changes of files and contents
-/

theorem Agrees.handleChanged_eq (h : e.Agrees) (env : Environment) (files : List FileId) :
    exists e', Carried e e' ∧ e'.Agrees ∧ e'.overlay = e.overlay ∧
      (forall file, e'.taskFor? file = e.taskFor? file) ∧
      ((Engine.handleChanged env e files).2 = e' ∨
        (Engine.handleChanged env e files).2 = Engine.dispatch env e') := by
  let looked := files.foldl (look env) e
  let seen := (candidates env false looked (files.filter looked.isOwned))
  have hlooked : Alike e looked := alike_foldl (alike_look env) e files
  have hseen : Alike e seen.2 := hlooked.trans (candidates_spec env false looked _).2
  refine ⟨(seen.2.reindex seen.1).2, ?_, ?_, ?_, ?_, ?_⟩
  · exact hseen.carried.trans (carried_reindex seen.2 seen.1)
  · exact (h.of_alike hseen).reindex seen.1
  · exact hseen.overlay
  · exact hseen.taskFor?
  · unfold Engine.handleChanged
    dsimp only
    split
    · exact Or.inr rfl
    · exact Or.inl rfl

theorem Agrees.carried_handleRemoved (h : e.Agrees) (files : List FileId) :
    Carried e (e.handleRemoved files).2 :=
  (h.carried_detach _).trans ((h.detach _).2.carried_retire _)

theorem Agrees.overlay_handleRemoved (h : e.Agrees) (files : List FileId) :
    (e.handleRemoved files).2.overlay = e.overlay :=
  ((h.detach _).2.retire _).1.overlay.trans (h.detach _).1.overlay

theorem Agrees.taskFor?_handleRemoved (h : e.Agrees) (files : List FileId) (file : FileId) :
    (e.handleRemoved files).2.taskFor? file = e.taskFor? file ∨
      (e.handleRemoved files).2.taskFor? file = none := by
  rcases h.detach ((files.filter e.isOwned).filter e.watcher.isUnwatchable) with
    ⟨hdetached, hagrees⟩
  rcases hagrees.retire ((files.filter e.isOwned).filter fun f => !e.watcher.isUnwatchable f) with
    ⟨hgo, -⟩
  unfold Engine.handleRemoved
  dsimp only
  rw [hgo.taskFor?]
  split
  · exact Or.inr rfl
  · exact Or.inl (hdetached.taskFor? file)

theorem Agrees.overlay_handleChange (h : e.Agrees) (env : Environment) (change : PathChange) :
    (Engine.handleChange env e change).2.overlay = e.overlay := by
  cases change with
  | changed files =>
      rcases h.handleChanged_eq env files with ⟨e', -, -, hoverlay, -, heq | heq⟩
      · show (Engine.handleChanged env e files).2.overlay = e.overlay
        rw [heq]
        exact hoverlay
      · show (Engine.handleChanged env e files).2.overlay = e.overlay
        rw [heq]
        exact hoverlay
  | removed files => exact h.overlay_handleRemoved files

theorem carried_with_overlay (e : Engine) (o : Overlay) : Carried e { e with overlay := o } :=
  carried_of_same rfl rfl rfl rfl (fun _ => rfl)

theorem carried_with_watcher (e : Engine) (w : Watcher) : Carried e { e with watcher := w } :=
  carried_of_same rfl rfl rfl rfl (fun _ => rfl)

theorem Agrees.carried_intern (h : e.Agrees) {p : Path} (hp : p.IsText) :
    Carried e (e.intern p).2 :=
  (h.intern p).2.1.carried (fun htextual => htextual.intern hp)

theorem Agrees.carried_setContents (h : e.Agrees) {files : List (Path × String)}
    (hfiles : forall f, f ∈ files -> f.1.IsText) : Carried e (e.setContents files).2 := by
  induction files generalizing e with
  | nil => exact Carried.refl e
  | cons f rest ih =>
      rcases f with ⟨p, content⟩
      have hintern := h.carried_intern (hfiles (p, content) List.mem_cons_self)
      have hset := ((h.intern p).1.with_overlay ((e.intern p).2.overlay.insert p content))
      refine hintern.trans ((carried_with_overlay _ _).trans (ih hset ?_))
      exact fun g hg => hfiles g (List.mem_cons_of_mem _ hg)

theorem Agrees.carried_dropContents (h : e.Agrees) (d : Disk) {paths : List Path}
    (hpaths : forall p, p ∈ paths -> p.IsText) : Carried e (e.dropContents d paths).2 := by
  induction paths generalizing e with
  | nil => exact Carried.refl e
  | cons p rest ih =>
      have hrest : forall q, q ∈ rest -> q.IsText := fun q hq => hpaths q (List.mem_cons_of_mem _ hq)
      rw [Engine.dropContents]
      split
      · have herased := h.with_overlay (e.overlay.erase p)
        have hintern := herased.carried_intern (hpaths p List.mem_cons_self)
        exact (carried_with_overlay _ _).trans (hintern.trans (ih (herased.intern p).1 hrest))
      · exact ih h hrest

/-!
# Submissions
-/

/-- The task of a file is queued, or the file was indexed in the state in which it is. -/
def Fresh (env : Environment) (e : Engine) (task : Task) : Prop :=
  e.taskFor? task.file = some task ∧
    (e.scheduler.queue.get? task.file = some task ∨
      exists status, currentStatus? env e task.file = some status ∧
        e.storage.store.IsIndexed task.file task.part status)

section Submission

variable {part : PreparedPart} {accepted : List PreparedPart}

theorem Agrees.carried_applyPart (h : e.Agrees) (howned : Owned e)
    (hsources : forall file, file ∈ part.files -> e.storage.store.hasSource file = true)
    (hseen : forall file, file ∈ part.files ->
      (exists status, currentStatus? env e file = some status) ∧
        (Engine.applyPart env e part).2.watcher.isUnwatchable file = false) :
    Carried e (Engine.applyPart env e part).2 := by
  have happlied := (h.applyPart env hsources).2
  rcases happlied.scheduler with ⟨queue, hscheduler, -⟩
  refine
    { treated := ?_
      owned := fun _howned file => happlied.owned (howned file)
      sources := ?_
      textual := ?_
      scheduler := ⟨queue, hscheduler⟩ }
  · intro file
    cases h.fared_applyPart hsources (howned file) (hseen file) with
    | kept hretains => exact .kept hretains
    | departed hstatus htask hqueue => exact .dropped hstatus hqueue
    | enqueued htask hqueue =>
        apply Treated.enqueued (part.task file) htask hqueue
        cases hrow : (Engine.applyPart env e part).2.storage.store.statuses.get? file with
        | none => exact Or.inl rfl
        | some row =>
            rcases happlied.row_of_row hrow with ⟨hbefore, hrecords⟩
            exact Or.inr ⟨hbefore.symm, hrecords⟩
  · intro id text hsource
    rw [Store.source?_of_sources_eq happlied.sources]
    exact hsource
  · intro htextual id
    rw [happlied.paths, Store.source?_of_sources_eq happlied.sources]
    exact htextual id

theorem Agrees.fresh_applyPart (h : e.Agrees) (howned : Owned e)
    (hsources : forall file, file ∈ part.files -> e.storage.store.hasSource file = true)
    {file : FileId} (hfile : file ∈ part.files)
    (hseen : (exists status, currentStatus? env e file = some status) ∧
      (Engine.applyPart env e part).2.watcher.isUnwatchable file = false) :
    Fresh env (Engine.applyPart env e part).2 (part.task file) := by
  have happlied := (h.applyPart env hsources).2
  refine ⟨happlied.taskFor? hfile, ?_⟩
  rcases hseen with ⟨⟨status, hstatus⟩, hwatchable⟩
  rcases h.enqueued_or_retains hsources hfile (howned file) hstatus hwatchable with
    hqueued | ⟨hretains, row, hrow, hrest⟩
  · exact Or.inl hqueued
  · right
    refine ⟨status, ?_, row, hretains.status.trans hrow, hrest⟩
    rw [currentStatus?, happlied.paths, happlied.overlay]
    exact hstatus

theorem Fresh.of_sameAt {task : Task} (h : Fresh env e task) (hsame : SameAt task.file e e')
    (hseen : currentStatus? env e' task.file = currentStatus? env e task.file) :
    Fresh env e' task := by
  rcases h with ⟨htask, hqueued | ⟨status, hstatus, row, hrow, hrest⟩⟩
  · exact ⟨hsame.task.trans htask, Or.inl (hsame.queued.trans hqueued)⟩
  · exact ⟨hsame.task.trans htask,
      Or.inr ⟨status, hseen.trans hstatus, row, hsame.status.trans hrow, hrest⟩⟩

theorem Agrees.carried_applyParts (h : e.Agrees) (howned : Owned e) (hsources : Sourced e accepted)
    (hids : (accepted.map PreparedPart.id).Nodup)
    (hdisjoint : accepted.Pairwise fun a b => forall file, file ∈ a.files -> file ∉ b.files)
    (hindexable : forall file, Indexable env file e accepted) :
    Carried e (Engine.applyParts env e accepted).2 ∧
      (Engine.applyParts env e accepted).2.overlay = e.overlay ∧
      (forall id, (Engine.applyParts env e accepted).2.path? id = e.path? id) ∧
      forall part, part ∈ accepted -> forall file, file ∈ part.files ->
        Fresh env (Engine.applyParts env e accepted).2 (part.task file) := by
  induction accepted generalizing e with
  | nil => exact ⟨Carried.refl e, rfl, fun _ => rfl, fun part hpart => absurd hpart List.not_mem_nil⟩
  | cons part rest ih =>
      have hown := hsources part List.mem_cons_self
      have happlied := (h.applyPart env hown).2
      rw [List.map_cons, List.nodup_cons] at hids
      rw [List.pairwise_cons] at hdisjoint
      have hone := h.carried_applyPart howned hown (fun file => (hindexable file).1)
      have hrestSources := hsources.tail happlied.sources
      rcases ih happlied.agrees (hone.owned howned) hrestSources hids.2 hdisjoint.2
        (fun file => (hindexable file).2) with ⟨hrest, hoverlay, hpaths, hrestFresh⟩
      rw [applyParts_cons]
      refine ⟨hone.trans hrest, hoverlay.trans happlied.overlay,
        fun id => (hpaths id).trans (happlied.paths id), ?_⟩
      intro other hother file hfile
      rcases List.mem_cons.mp hother with rfl | hmem
      · -- the parts that follow leave the files of this one alone
        have hsame : SameAt file (Engine.applyPart env e other).2
            (Engine.applyParts env (Engine.applyPart env e other).2 rest).2 :=
          happlied.agrees.sameAt_applyParts hrestSources
            (by rw [happlied.members, if_pos hfile]) hids.1
            (fun next hnext => hdisjoint.1 next hnext file hfile)
        have hfresh := h.fresh_applyPart howned hown hfile ((hindexable file).1 hfile)
        apply hfresh.of_sameAt hsame
        rw [currentStatus?, currentStatus?, hpaths, hoverlay]
      · exact hrestFresh other hmem file hfile

end Submission

end Engine
end SymbolIndex
