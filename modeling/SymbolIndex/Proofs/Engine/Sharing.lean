import SymbolIndex.Proofs.Engine.Distribution

/-!
# Submitting parts that share nothing

Parts whose files are all different can be submitted together. What becomes of a file
depends on the part that has it, on what was stored before and on what can be seen of the
file, and on nothing else; the ids of files whose paths were not known do depend on the
order in which the parts are listed.
-/

namespace SymbolIndex
namespace Engine

variable {env : Environment} {e : Engine} {parts : List Part} {part : Part} {file : FileId}
  {text : String}

/-- None of the files of the parts is unwatchable. -/
def CanWatch (e : Engine) (parts : List Part) : Prop :=
  forall part, part ∈ parts -> forall p, p ∈ part.files -> forall file,
    e.path? file = some p.normalize -> e.watcher.isUnwatchable file = false

/-- Well-formed parts with ids of their own and files of their own. -/
structure Compatible (parts : List Part) : Prop where
  spelled : forall part, part ∈ parts -> forall p, p ∈ part.files -> p.IsText
  valid : forall part, part ∈ parts -> part.problem? = none
  ids : (parts.map Part.id).Nodup
  disjoint : parts.Pairwise fun a b =>
    forall p, p ∈ a.files -> forall q, q ∈ b.files -> p.normalize ≠ q.normalize

theorem Compatible.perm {parts' : List Part} (h : Compatible parts)
    (hperm : parts.Perm parts') : Compatible parts' where
  spelled := fun part hpart => h.spelled part (hperm.mem_iff.mpr hpart)
  valid := fun part hpart => h.valid part (hperm.mem_iff.mpr hpart)
  ids := (hperm.map Part.id).nodup_iff.mp h.ids
  disjoint := (hperm.pairwise_iff (fun hab p hp q hq => (hab q hq p hp).symm)).mp h.disjoint

theorem ofString_of_mem_texts (hspelled : forall p, p ∈ part.files -> p.IsText)
    (htext : text ∈ texts part) :
    exists p, p ∈ part.files ∧ Path.ofString text = p.normalize := by
  rcases List.mem_map.mp htext with ⟨p, hp, rfl⟩
  exact ⟨p, hp, Path.ofString_display (Path.isText_normalize (hspelled p hp))⟩

theorem Compatible.disjoint_texts (h : Compatible parts) :
    parts.Pairwise fun a b => (texts a).Disjoint (texts b) := by
  refine h.disjoint.imp_of_mem ?_
  intro a b ha hb hab text htext htext'
  rcases ofString_of_mem_texts (h.spelled a ha) htext with ⟨p, hp, hnormal⟩
  rcases ofString_of_mem_texts (h.spelled b hb) htext' with ⟨q, hq, hnormal'⟩
  exact hab p hp q hq (hnormal.symm.trans hnormal')

/-!
# Checking
-/

theorem Interned.untouched {e' : Engine} (h : Interned e e') (file : FileId) :
    Untouched file e e' where
  owner := by rw [ownerOf, ownerOf, h.owners]
  task := by rw [taskFor?, taskFor?, h.owners, h.parts]
  member := by rw [h.members]
  status := by rw [h.statuses]
  records := h.recordsAt file
  queued := by rw [h.scheduler]
  watch := by rw [h.watcher]
  place := by rw [h.watcher]

/-- Parts that passed the checks, and an engine that issued the ids of their files. -/
structure Checked (e : Engine) (parts : List Part)
    (accepted : List PreparedPart) (e' : Engine) : Prop where
  attends : e'.Attends
  interned : Interned e e'
  sourced : Sourced e' accepted
  unrelated : Unrelated accepted
  passes : forall part, part ∈ parts -> exists prepared, prepared ∈ accepted ∧
    Prepares e'.storage.store part prepared
  comes : forall prepared, prepared ∈ accepted -> exists part, part ∈ parts ∧
    Prepares e'.storage.store part prepared

theorem Attends.checked (h : e.Attends) (hparts : Compatible parts) :
    Checked e parts (Engine.prepare ∅ e parts).1.1 (Engine.prepare ∅ e parts).2 ∧
      (Engine.prepare ∅ e parts).1.2 = [] := by
  rcases h.agrees.prepare ∅ parts with ⟨-, hinterned, haccepted, -⟩
  rcases h.agrees.prepare_apart hparts.valid hparts.disjoint_texts (unclaimed_empty _ _) with
    ⟨hpasses, hnone⟩
  refine ⟨⟨h.prepare hparts.spelled, hinterned, haccepted.sourced, ⟨?_, haccepted.disjoint, ?_⟩,
    hpasses, haccepted.prepares⟩, hnone⟩
  · exact hparts.ids.sublist haccepted.ids
  · intro prepared hprepared
    rcases haccepted.prepares prepared hprepared with ⟨part, -, hprepares⟩
    exact hprepares.nodup

section Checked

variable {accepted : List PreparedPart} {e' : Engine}

theorem Checked.path? (h : Checked e parts accepted e')
    (hsource : e'.storage.store.source? file = some text) :
    e'.path? file = some (Path.ofString text) := by
  rw [h.attends.textual, hsource, Option.map_some]

theorem Checked.isUnwatchable_applyParts_eq_false (h : Checked e parts accepted e')
    (hparts : Compatible parts) (hwatched : (Engine.applyParts env e' accepted).2.CanWatch parts)
    (hpart : part ∈ parts) (hsource : e'.storage.store.source? file = some text)
    (htext : text ∈ texts part) :
    (Engine.applyParts env e' accepted).2.watcher.isUnwatchable file = false := by
  rcases ofString_of_mem_texts (hparts.spelled part hpart) htext with ⟨p, hp, hnormal⟩
  apply hwatched part hpart p hp
  rw [(h.attends.agrees.frame_applyParts env h.sourced).1, h.path? hsource, hnormal]

end Checked

/-!
# What a submission leaves behind
-/

/-- A file is due for a part by what was stored and by what can be seen at its path. -/
def DueFor (env : Environment) (e : Engine) (part : Part) (file : FileId) (p : Path) : Prop :=
  exists status, e.overlay.currentStatus env.disk p = .ok status ∧
    (¬ e.storage.store.HasArguments part.id part.commandLine ∨
      ¬ e.storage.store.IsIndexed file part.id status)

/-- What a file is after its part was submitted, and whether its task is queued. -/
structure Joined (env : Environment) (e : Engine) (part : Part) (file : FileId) (text : String)
    (x : Engine) : Prop where
  claimed : Claimed part.id file e x
  place : x.watcher.place? file =
    if e.overlay.contains (Path.ofString text) then none else some (Path.ofString text).components
  watchable : x.watcher.isUnwatchable file = false
  queued : forall task, x.scheduler.queue.get? file = some task ↔
    task = ⟨file, part.id, part.commandLine⟩ ∧ DueFor env e part file (Path.ofString text)

/-- What became of all files and parts when parts were submitted to an engine. -/
structure Shared (env : Environment) (e : Engine) (parts : List Part) (x : Engine) : Prop where
  attends : x.Attends
  overlay : x.overlay = e.overlay
  grown : forall id text, e.storage.store.source? id = some text ->
    x.storage.store.source? id = some text
  known : forall text, text ∈ x.storage.store.sources ↔
    text ∈ e.storage.store.sources ∨ exists part, part ∈ parts ∧ text ∈ texts part
  stored : forall part, part ∈ parts ->
    x.storage.store.parts.get? part.id = some (.written part.commandLine)
  others : forall id, (forall part, part ∈ parts -> part.id ≠ id) ->
    x.storage.store.parts.get? id = e.storage.store.parts.get? id
  joined : forall file text part, x.storage.store.source? file = some text -> part ∈ parts ->
    text ∈ texts part -> Joined env e part file text x
  forgotten : forall file text part, x.storage.store.source? file = some text ->
    (forall other, other ∈ parts -> text ∉ texts other) -> part ∈ parts ->
    e.storage.store.members.get? file = some part.id -> Forgotten file x
  untouched : forall file text, x.storage.store.source? file = some text ->
    (forall other, other ∈ parts -> text ∉ texts other) ->
    (forall part, part ∈ parts -> e.storage.store.members.get? file ≠ some part.id) ->
    Untouched file e x

section Shared

variable {accepted : List PreparedPart} {e' : Engine}

theorem Claimed.of_interned {id : PartId} {x : Engine} (h : Claimed id file e' x)
    (hinterned : Interned e e') : Claimed id file e x where
  owner := h.owner
  member := h.member
  status := by
    rw [← hinterned.statuses]
    exact h.status
  records := by
    rw [← hinterned.recordsAt]
    exact h.records

theorem Checked.due_iff (h : Checked e parts accepted e') {prepared : PreparedPart}
    (hprepares : Prepares e'.storage.store part prepared)
    (hsource : e'.storage.store.source? file = some text) :
    (exists status, currentStatus? env e' file = some status ∧
      (¬ e'.storage.store.HasArguments prepared.id prepared.arguments ∨
        ¬ e'.storage.store.IsIndexed file prepared.id status)) ↔
      DueFor env e part file (Path.ofString text) := by
  have hseen : forall status, currentStatus? env e' file = some status ↔
      e.overlay.currentStatus env.disk (Path.ofString text) = .ok status := by
    intro status
    rw [currentStatus?, h.path? hsource, Option.bind_some, h.interned.overlay]
    cases e.overlay.currentStatus env.disk (Path.ofString text) <;> simp [Except.toOption]
  simp only [DueFor, hseen, Store.HasArguments, Store.IsIndexed, hprepares.id, hprepares.arguments,
    h.interned.stored, h.interned.statuses]

theorem Checked.exists_split (h : Checked e parts accepted e') (hpart : part ∈ parts)
    (hsource : e'.storage.store.source? file = some text) (htext : text ∈ texts part) :
    exists before prepared after, accepted = before ++ prepared :: after ∧
      Prepares e'.storage.store part prepared ∧ file ∈ prepared.files := by
  rcases h.passes part hpart with ⟨prepared, hprepared, hprepares⟩
  rcases List.append_of_mem hprepared with ⟨before, after, hsplit⟩
  exact ⟨before, prepared, after, hsplit, hprepares,
    (hprepares.mem_files_iff h.attends.agrees.book.distinct hsource).mpr htext⟩

/-- In an idle engine the task of a file is queued exactly if the file is due for its part. -/
theorem Checked.queued_iff (h : Checked e parts accepted e')
    (hidle : forall file, e.scheduler.queue.get? file = none) (hparts : Compatible parts)
    (hwatched : (Engine.applyParts env e' accepted).2.CanWatch parts) (hpart : part ∈ parts) (hsource : e'.storage.store.source? file = some text)
    (htext : text ∈ texts part) (task : Task) :
    (Engine.applyParts env e' accepted).2.scheduler.queue.get? file = some task ↔
      task = ⟨file, part.id, part.commandLine⟩ ∧ DueFor env e part file (Path.ofString text) := by
  have hagrees := h.attends.agrees
  have hwatchable := h.isUnwatchable_applyParts_eq_false hparts hwatched hpart hsource htext
  rcases h.exists_split hpart hsource htext with ⟨before, prepared, after, rfl, hprepares, hfile⟩
  have hid : prepared.id ∉ (before ++ after).map PreparedPart.id := by
    rw [List.map_append, List.mem_append, not_or]
    exact ⟨h.unrelated.id_notMem_before, h.unrelated.id_notMem_after⟩
  rcases hagrees.mem_submissionTasks_iff env h.sourced h.unrelated.disjoint hid hfile with
    ⟨hmem, hqueued⟩
  rw [h.due_iff hprepares hsource] at hmem
  have hform : prepared.task file = ⟨file, part.id, part.commandLine⟩ := by
    rw [PreparedPart.task, hprepares.id, hprepares.arguments]
  rw [← hform]
  constructor
  · intro htask
    have hkey : task.file = file := (hagrees.applyParts env h.sourced).queue.keyed file task htask
    rcases hagrees.mem_submissionTasks_of_queued h.sourced htask with hnew | hold
    · -- the part of the task has the file, so it is the part that has it
      rcases task_of_mem_submissionTasks hnew with ⟨other, hother, listed, hlisted, rfl⟩
      change listed = file at hkey
      subst hkey
      have hsame : other = prepared := by
        rcases List.mem_append.mp hother with hearlier | hlater
        · exact absurd hlisted (h.unrelated.notMem_before hfile hearlier)
        · rcases List.mem_cons.mp hlater with hsame | hlater
          · exact hsame
          · exact absurd hlisted (h.unrelated.notMem_after hfile hlater)
      subst hsame
      exact ⟨rfl, (hmem.mp hnew).2⟩
    · rw [h.interned.scheduler, hidle] at hold
      cases hold
  · rintro ⟨rfl, hdue⟩
    exact hqueued (hmem.mpr ⟨hwatchable, hdue⟩)

theorem Checked.joined (h : Checked e parts accepted e')
    (hidle : forall file, e.scheduler.queue.get? file = none) (hparts : Compatible parts)
    (hwatched : (Engine.applyParts env e' accepted).2.CanWatch parts) (hpart : part ∈ parts) (hsource : e'.storage.store.source? file = some text)
    (htext : text ∈ texts part) :
    Joined env e part file text (Engine.applyParts env e' accepted).2 where
  claimed := by
    rcases h.exists_split hpart hsource htext with ⟨before, prepared, after, rfl, hprepares, hfile⟩
    refine Claimed.of_interned ?_ h.interned
    rw [← hprepares.id]
    exact h.attends.agrees.claimed_applyParts h.sourced h.unrelated hfile
  place := by
    have hwatchable :=
      h.isUnwatchable_applyParts_eq_false hparts hwatched hpart hsource htext
    rcases h.exists_split hpart hsource htext with ⟨before, prepared, after, rfl, hprepares, hfile⟩
    rw [← h.interned.overlay]
    exact h.attends.place?_applyParts h.sourced h.unrelated hfile (h.path? hsource) hwatchable
  watchable := h.isUnwatchable_applyParts_eq_false hparts hwatched hpart hsource htext
  queued := h.queued_iff hidle hparts hwatched hpart hsource htext

theorem Checked.notMem_files (h : Checked e parts accepted e')
    (hsource : e'.storage.store.source? file = some text)
    (hnone : forall part, part ∈ parts -> text ∉ texts part) (prepared : PreparedPart)
    (hprepared : prepared ∈ accepted) : file ∉ prepared.files := by
  rcases h.comes prepared hprepared with ⟨part, hpart, hprepares⟩
  rw [hprepares.mem_files_iff h.attends.agrees.book.distinct hsource]
  exact hnone part hpart

theorem Checked.forgotten (h : Checked e parts accepted e')
    (hsource : e'.storage.store.source? file = some text)
    (hnone : forall part, part ∈ parts -> text ∉ texts part) (hpart : part ∈ parts)
    (hmember : e.storage.store.members.get? file = some part.id) :
    Forgotten file (Engine.applyParts env e' accepted).2 := by
  have hfiles := h.notMem_files hsource hnone
  rcases h.passes part hpart with ⟨prepared, hprepared, hprepares⟩
  rcases List.append_of_mem hprepared with ⟨before, after, rfl⟩
  refine h.attends.agrees.forgotten_applyParts h.sourced h.unrelated ?_ hfiles
  rw [h.interned.members, hprepares.id]
  exact hmember

theorem Checked.untouched (h : Checked e parts accepted e')
    (hsource : e'.storage.store.source? file = some text)
    (hnone : forall part, part ∈ parts -> text ∉ texts part)
    (hother : forall part, part ∈ parts ->
      e.storage.store.members.get? file ≠ some part.id) :
    Untouched file e (Engine.applyParts env e' accepted).2 := by
  refine (h.interned.untouched file).trans
    (h.attends.agrees.untouched_applyParts h.sourced ?_ (h.notMem_files hsource hnone))
  intro id hmember hid
  rcases List.mem_map.mp hid with ⟨prepared, hprepared, rfl⟩
  rcases h.comes prepared hprepared with ⟨part, hpart, hprepares⟩
  rw [h.interned.members, hprepares.id] at hmember
  exact hother part hpart hmember

theorem Attends.shared (h : e.Attends) (hidle : forall file, e.scheduler.queue.get? file = none)
    (hparts : Compatible parts)
    (hwatched : (Engine.applyParts env (Engine.prepare ∅ e parts).2
      (Engine.prepare ∅ e parts).1.1).2.CanWatch parts) :
    Shared env e parts
      (Engine.applyParts env (Engine.prepare ∅ e parts).2 (Engine.prepare ∅ e parts).1.1).2 := by
  have hchecked := (h.checked hparts).1
  have hnew : forall text, text ∈ (Engine.prepare ∅ e parts).2.storage.store.sources ->
      text ∈ e.storage.store.sources ∨ exists part, part ∈ parts ∧ text ∈ texts part :=
    fun _ => mem_sources_prepare e
  generalize (Engine.prepare ∅ e parts).1.1 = accepted at hchecked hwatched
  generalize (Engine.prepare ∅ e parts).2 = e' at hchecked hnew hwatched
  have hagrees := hchecked.attends.agrees
  have hsources := hagrees.sources_applyParts env hchecked.sourced
  have hsource := fun id => Store.source?_of_sources_eq hsources id
  refine
    { attends := hchecked.attends.applyParts env hchecked.sourced
      overlay := (hagrees.frame_applyParts env hchecked.sourced).2.trans hchecked.interned.overlay
      grown := ?_
      known := ?_
      stored := ?_
      others := ?_
      joined := ?_
      forgotten := ?_
      untouched := ?_ }
  · intro id text hold
    rw [hsource]
    exact hchecked.interned.grown.sources id text hold
  · intro text
    rw [hsources]
    constructor
    · exact hnew text
    · rintro (hold | ⟨part, hpart, htext⟩)
      · rcases Store.exists_sourceId? hold with ⟨id, hid⟩
        exact Store.mem_sources_of_source?
          (hchecked.interned.grown.sources id text (Store.source?_of_sourceId? hid))
      · rcases hchecked.passes part hpart with ⟨prepared, -, hprepares⟩
        rcases List.mem_map.mp htext with ⟨p, hp, rfl⟩
        rcases hprepares.files p hp with ⟨file, -, hfile⟩
        exact Store.mem_sources_of_source? hfile
  · intro part hpart
    rcases hchecked.passes part hpart with ⟨prepared, hprepared, hprepares⟩
    rw [← hprepares.id, ← hprepares.arguments]
    exact hagrees.stored_of_mem hchecked.sourced hchecked.unrelated hprepared
  · intro id hid
    rw [hagrees.stored_of_notMem hchecked.sourced, hchecked.interned.stored]
    intro hmem
    rcases List.mem_map.mp hmem with ⟨prepared, hprepared, rfl⟩
    rcases hchecked.comes prepared hprepared with ⟨part, hpart, hprepares⟩
    exact hid part hpart hprepares.id.symm
  · intro file text part hfile hpart htext
    rw [hsource] at hfile
    exact hchecked.joined hidle hparts hwatched hpart hfile htext
  · intro file text part hfile hnone hpart hmember
    rw [hsource] at hfile
    exact hchecked.forgotten hfile hnone hpart hmember
  · intro file text hfile hnone hother
    rw [hsource] at hfile
    exact hchecked.untouched hfile hnone hother

end Shared

end Engine
end SymbolIndex
