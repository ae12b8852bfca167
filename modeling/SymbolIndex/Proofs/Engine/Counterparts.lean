import SymbolIndex.Proofs.Engine.Concurrency
import SymbolIndex.Proofs.Engine.Sharing

/-!
# One path in two engines

Two engines may know one path under two ids. A file of the one and a file of the other
are counterparts if what is stored about them is the same but for the two ids and for the
numbers of symbols, and if they have the same owner and are watched alike. Submitting the
same parts in another order gives counterparts with the same task in the queue or with
none, and they stay counterparts when the tasks are done, whatever the order is in which
they are done.
-/

namespace SymbolIndex
namespace Engine

variable {env : Environment} {e x y x' y' : Engine} {parts parts' : List Part} {part : Part}
  {f g : FileId} {text : String}

/-- What one engine has of one file is what another engine has of another file. -/
structure Counterparts (f g : FileId) (x y : Engine) : Prop where
  owner : y.ownerOf g = x.ownerOf f
  place : y.watcher.place? g = x.watcher.place? f
  watchable : y.watcher.isUnwatchable g = x.watcher.isUnwatchable f
  stored : Store.Twins f g x.storage.store y.storage.store

/-- Counterparts of one path for which the same is to be done. -/
structure Ready (f g : FileId) (x y : Engine) : Prop extends Counterparts f g x y where
  path : exists p, x.path? f = some p ∧ y.path? g = some p
  queued : y.scheduler.queue.get? g =
    (x.scheduler.queue.get? f).map fun task => { task with file := g }

/-!
# Before a submission
-/

theorem Attends.unstored_of_source? (h : e.Attends)
    (hsource : e.storage.store.source? f = none) :
    e.storage.store.members.get? f = none ∧ e.storage.store.statuses.get? f = none := by
  have hmember : e.storage.store.members.get? f = none := by
    cases hmember : e.storage.store.members.get? f with
    | none => rfl
    | some id =>
        have hknown := h.rooted f id hmember
        rw [Store.hasSource, hsource] at hknown
        cases hknown
  refine ⟨hmember, ?_⟩
  cases hstatus : e.storage.store.statuses.get? f with
  | none => rfl
  | some row =>
      have htracked := h.agrees.store.tracked f row hstatus
      rw [hmember] at htracked
      cases htracked

theorem Shared.source?_of_new (h : Shared env e parts x)
    (hsource : x.storage.store.source? f = some text) (hnew : text ∉ e.storage.store.sources) :
    e.storage.store.source? f = none := by
  cases hold : e.storage.store.source? f with
  | none => rfl
  | some other =>
      have hgrown := h.grown f other hold
      rw [hsource] at hgrown
      cases hgrown
      exact absurd (Store.mem_sources_of_source? hold) hnew

theorem Shared.eq_of_known (h : Shared env e parts x) (h' : Shared env e parts' y)
    (hf : x.storage.store.source? f = some text) (hg : y.storage.store.source? g = some text)
    (hknown : text ∈ e.storage.store.sources) : f = g := by
  rcases Store.exists_sourceId? hknown with ⟨id, hid⟩
  have hsource := Store.source?_of_sourceId? hid
  have hsame : f = id :=
    Store.source?_injective h.attends.agrees.book.distinct hf (h.grown id text hsource)
  have hsame' : g = id :=
    Store.source?_injective h'.attends.agrees.book.distinct hg (h'.grown id text hsource)
  rw [hsame, hsame']

theorem Shared.twins_before (h : Shared env e parts x) (h' : Shared env e parts' y)
    (he : e.Attends) (hf : x.storage.store.source? f = some text)
    (hg : y.storage.store.source? g = some text) :
    Store.Twins f g e.storage.store e.storage.store := by
  by_cases hknown : text ∈ e.storage.store.sources
  · have hsame := h.eq_of_known h' hf hg hknown
    subst hsame
    refine ⟨fun _ => rfl, rfl, rfl, 0, ?_⟩
    rw [SymbolId.shift_zero, Store.renamed_id, Store.refiled_recordsAt]
  · rcases he.unstored_of_source? (h.source?_of_new hf hknown) with ⟨hmember, hstatus⟩
    rcases he.unstored_of_source? (h'.source?_of_new hg hknown) with ⟨hmember', hstatus'⟩
    refine ⟨fun _ => rfl, hmember'.trans hmember.symm, hstatus'.trans hstatus.symm, 0, ?_⟩
    rw [he.agrees.store.blank f hstatus, he.agrees.store.blank g hstatus']
    rfl

theorem dueFor_congr (htwins : Store.Twins f g e.storage.store e.storage.store) (p : Path) :
    DueFor env e part g p ↔ DueFor env e part f p := by
  unfold DueFor Store.IsIndexed
  rw [htwins.status]

/-!
# After a submission
-/

theorem Shared.path? (h : Shared env e parts x) (hf : x.storage.store.source? f = some text) :
    x.path? f = some (Path.ofString text) := by
  rw [h.attends.textual, hf, Option.map_some]

theorem Shared.arguments (h : Shared env e parts x) (h' : Shared env e parts' y)
    (hsame : forall part, part ∈ parts ↔ part ∈ parts') (id : PartId) :
    y.storage.store.parts.get? id = x.storage.store.parts.get? id := by
  by_cases hid : exists part, part ∈ parts ∧ part.id = id
  · rcases hid with ⟨part, hpart, rfl⟩
    rw [h.stored part hpart, h'.stored part ((hsame part).mp hpart)]
  · rw [h.others id (fun part hpart heq => hid ⟨part, hpart, heq⟩),
      h'.others id (fun part hpart heq => hid ⟨part, (hsame part).mpr hpart, heq⟩)]

theorem Joined.ready (h : Joined env e part f text x) (h' : Joined env e part g text y)
    (hx : Shared env e parts x) (hy : Shared env e parts' y)
    (hsame : forall part, part ∈ parts ↔ part ∈ parts')
    (hf : x.storage.store.source? f = some text) (hg : y.storage.store.source? g = some text)
    (htwins : Store.Twins f g e.storage.store e.storage.store) : Ready f g x y where
  owner := h'.claimed.owner.trans h.claimed.owner.symm
  place := h'.place.trans h.place.symm
  watchable := h'.watchable.trans h.watchable.symm
  stored := by
    have hstatus : y.storage.store.statuses.get? g = x.storage.store.statuses.get? f := by
      apply Option.ext
      intro row
      rw [h'.claimed.status, h.claimed.status, htwins.status]
    refine ⟨hx.arguments hy hsame, h'.claimed.member.trans h.claimed.member.symm, hstatus, ?_⟩
    cases hrow : x.storage.store.statuses.get? f with
    | none =>
        refine ⟨0, ?_⟩
        rw [hx.attends.agrees.store.blank f hrow,
          hy.attends.agrees.store.blank g (hstatus.trans hrow)]
        rfl
    | some row =>
        rw [h.claimed.records row hrow, h'.claimed.records row (hstatus.trans hrow)]
        exact htwins.records
  path := ⟨_, hx.path? hf, hy.path? hg⟩
  queued := by
    apply Option.ext
    intro task
    rw [h'.queued, dueFor_congr htwins, Option.map_eq_some_iff]
    constructor
    · rintro ⟨rfl, hdue⟩
      exact ⟨⟨f, part.id, part.commandLine⟩, (h.queued _).mpr ⟨rfl, hdue⟩, rfl⟩
    · rintro ⟨task, htask, rfl⟩
      rcases (h.queued task).mp htask with ⟨rfl, hdue⟩
      exact ⟨rfl, hdue⟩

theorem Forgotten.ready (h : Forgotten f x) (h' : Forgotten f y) (hx : Shared env e parts x)
    (hy : Shared env e parts' y) (hsame : forall part, part ∈ parts ↔ part ∈ parts')
    (hf : x.storage.store.source? f = some text) (hf' : y.storage.store.source? f = some text) :
    Ready f f x y where
  owner := h'.owner.trans h.owner.symm
  place := h'.place.trans h.place.symm
  watchable := h'.watchable.trans h.watchable.symm
  stored := by
    refine ⟨hx.arguments hy hsame, h'.member.trans h.member.symm, h'.status.trans h.status.symm,
      0, ?_⟩
    rw [hx.attends.agrees.store.blank f h.status, hy.attends.agrees.store.blank f h'.status]
    rfl
  path := ⟨_, hx.path? hf, hy.path? hf'⟩
  queued := by rw [h.queued, h'.queued, Option.map_none]

theorem Untouched.ready (h : Untouched f e x) (h' : Untouched f e y) (hx : Shared env e parts x)
    (hy : Shared env e parts' y) (hsame : forall part, part ∈ parts ↔ part ∈ parts')
    (hidle : e.scheduler.queue.get? f = none)
    (hf : x.storage.store.source? f = some text) (hf' : y.storage.store.source? f = some text) :
    Ready f f x y where
  owner := h'.owner.trans h.owner.symm
  place := h'.place.trans h.place.symm
  watchable := h'.watch.trans h.watch.symm
  stored := by
    refine ⟨hx.arguments hy hsame, h'.member.trans h.member.symm, h'.status.trans h.status.symm,
      0, ?_⟩
    rw [h'.records, h.records, SymbolId.shift_zero, Store.renamed_id, Store.refiled_recordsAt]
  path := ⟨_, hx.path? hf, hy.path? hf'⟩
  queued := by rw [h.queued, h'.queued, hidle, Option.map_none]

theorem Shared.ready (h : Shared env e parts x) (h' : Shared env e parts' y) (he : e.Attends)
    (hidle : forall file, e.scheduler.queue.get? file = none)
    (hsame : forall part, part ∈ parts ↔ part ∈ parts')
    (hf : x.storage.store.source? f = some text) (hg : y.storage.store.source? g = some text) :
    Ready f g x y := by
  by_cases hclaimed : exists part, part ∈ parts ∧ text ∈ texts part
  · rcases hclaimed with ⟨part, hpart, htext⟩
    exact (h.joined f text part hf hpart htext).ready
      (h'.joined g text part hg ((hsame part).mp hpart) htext) h h' hsame hf hg
      (h.twins_before h' he hf hg)
  · have hnone : forall part, part ∈ parts -> text ∉ texts part :=
      fun part hpart htext => hclaimed ⟨part, hpart, htext⟩
    have hnone' : forall part, part ∈ parts' -> text ∉ texts part :=
      fun part hpart => hnone part ((hsame part).mpr hpart)
    -- a path that no part has was known before, and so under one id
    have hknown : text ∈ e.storage.store.sources :=
      ((h.known text).mp (Store.mem_sources_of_source? hf)).resolve_right hclaimed
    have heq := h.eq_of_known h' hf hg hknown
    subst heq
    by_cases hleft : exists part, part ∈ parts ∧
        e.storage.store.members.get? f = some part.id
    · rcases hleft with ⟨part, hpart, hmember⟩
      exact (h.forgotten f text part hf hnone hpart hmember).ready
        (h'.forgotten f text part hg hnone' ((hsame part).mp hpart) hmember) h h' hsame hf hg
    · have hstays : forall part, part ∈ parts ->
          e.storage.store.members.get? f ≠ some part.id :=
        fun part hpart hmember => hleft ⟨part, hpart, hmember⟩
      exact (h.untouched f text hf hnone hstays).ready
        (h'.untouched f text hg hnone' (fun part hpart => hstays part ((hsame part).mpr hpart)))
        h h' hsame (hidle f) hf hg

/-!
# As many tasks
-/

/-- The text of the path of a task. -/
def textOf (e : Engine) (task : Task) : Option String := e.storage.store.source? task.file

theorem Attends.exists_source? (h : e.Attends) {task : Task}
    (hqueued : e.scheduler.queue.get? f = some task) :
    exists text, e.storage.store.source? f = some text := by
  rcases h.agrees.pending f task hqueued with ⟨part, howner⟩
  rcases (h.agrees.owned f part).mp howner with ⟨snapshot, hsnapshot, hfile⟩
  exact (Store.hasSource_iff _ f).mp
    (h.rooted f part ((h.agrees.members part snapshot hsnapshot f).mp hfile))

theorem Attends.nodup_map_textOf (h : e.Attends) :
    (e.scheduler.queue.toList.map (textOf e)).Nodup := by
  have hsound := h.agrees.queue
  have hnodup : (e.scheduler.queue.toList.map Task.file).Nodup := by
    rw [hsound.map_file_toList]
    exact hsound.nodup
  refine List.Nodup.map_on ?_ (List.Nodup.of_map _ hnodup)
  intro a ha b hb hab
  rcases h.exists_source? ((hsound.mem_toList_iff a).mp ha) with ⟨text, htext⟩
  have hfile : a.file = b.file :=
    Store.source?_injective h.agrees.book.distinct htext (hab.symm.trans htext)
  exact List.inj_on_of_nodup_map hnodup ha hb hfile

theorem Shared.subset_textOf (h : Shared env e parts x) (h' : Shared env e parts' y)
    (he : e.Attends) (hidle : forall file, e.scheduler.queue.get? file = none)
    (hsame : forall part, part ∈ parts ↔ part ∈ parts') :
    x.scheduler.queue.toList.map (textOf x) ⊆ y.scheduler.queue.toList.map (textOf y) := by
  intro text? htext?
  rcases List.mem_map.mp htext? with ⟨task, htask, rfl⟩
  have hqueued := (h.attends.agrees.queue.mem_toList_iff task).mp htask
  rcases h.attends.exists_source? hqueued with ⟨text, hf⟩
  have hknown : text ∈ y.storage.store.sources := by
    rw [h'.known]
    exact ((h.known text).mp (Store.mem_sources_of_source? hf)).imp_right
      fun ⟨part, hpart, htext⟩ => ⟨part, (hsame part).mp hpart, htext⟩
  rcases Store.exists_sourceId? hknown with ⟨g, hid⟩
  have hg := Store.source?_of_sourceId? hid
  have hready := h.ready h' he hidle hsame hf hg
  refine List.mem_map.mpr ⟨{ task with file := g }, ?_, hg.trans hf.symm⟩
  rw [h'.attends.agrees.queue.mem_toList_iff, hready.queued, hqueued]
  rfl

theorem Shared.length_queue (h : Shared env e parts x) (h' : Shared env e parts' y) (he : e.Attends)
    (hidle : forall file, e.scheduler.queue.get? file = none)
    (hsame : forall part, part ∈ parts ↔ part ∈ parts') :
    y.scheduler.queue.toList.length = x.scheduler.queue.toList.length := by
  have hperm : (y.scheduler.queue.toList.map (textOf y)).Perm
      (x.scheduler.queue.toList.map (textOf x)) := by
    refine (List.perm_ext_iff_of_nodup h'.attends.nodup_map_textOf
      h.attends.nodup_map_textOf).mpr ?_
    intro text?
    exact ⟨fun hmem => h'.subset_textOf h he hidle (fun part => (hsame part).symm) hmem,
      fun hmem => h.subset_textOf h' he hidle hsame hmem⟩
  have hlength := hperm.length_eq
  rwa [List.length_map, List.length_map] at hlength

/-!
# When the tasks are done
-/

/-- Everything that was queued was done, and nothing else happened. -/
structure Drained (env : Environment) (x x' : Engine) : Prop where
  calm : Calm x x'
  storage : exists done, x.scheduler.queue.toList.Perm done ∧
    x'.storage = x.storage.deliverAll (deliveries env x done)

theorem Drained.parts_eq (h : Drained env x x') (hagrees : x.Agrees) :
    x'.storage.store.parts = x.storage.store.parts := by
  rcases h.storage with ⟨done, -, hstorage⟩
  rw [hstorage]
  exact Storage.parts_deliverAll hagrees.store.linked _

theorem Ready.delivery?_eq (h : Ready f g x y) (hoverlay : y.overlay = x.overlay) {task : Task}
    (hfile : task.file = f) :
    delivery? env y { task with file := g } =
      (delivery? env x task).map fun d => d.refile g := by
  rcases h.path with ⟨p, hp, hp'⟩
  subst hfile
  rw [delivery?, delivery?, finding, finding, hp, hp', hoverlay]
  dsimp only
  cases x.overlay.currentStatus env.disk p with
  | error fault => rfl
  | ok status => cases env.collect x.overlay p task.arguments <;> rfl

theorem Agrees.task_of_mem_deliveries (h : x.Agrees) {done : List Task}
    (hdone : x.scheduler.queue.toList.Perm done) {d : Delivery}
    (hd : d ∈ deliveries env x done) :
    x.scheduler.queue.get? d.task.file = some d.task ∧ delivery? env x d.task = some d := by
  rcases List.mem_filterMap.mp hd with ⟨task, htask, hdelivery⟩
  rw [task_of_delivery? hdelivery]
  exact ⟨(h.queue.mem_toList_iff task).mp (hdone.mem_iff.mpr htask), hdelivery⟩

theorem Agrees.separate_deliveries (h : x.Agrees) {done : List Task}
    (hdone : x.scheduler.queue.toList.Perm done) :
    Storage.Separate (deliveries env x done) := by
  have hnodup : (x.scheduler.queue.toList.map Task.file).Nodup := by
    rw [h.queue.map_file_toList]
    exact h.queue.nodup
  exact ((hdone.map Task.file).nodup_iff.mp hnodup).sublist (files_deliveries env x done)

theorem Drained.sameFile (h : Drained env x x') (hagrees : x.Agrees) (file : FileId) :
    match (x.scheduler.queue.get? file).bind (delivery? env x) with
    | some d => Store.SameFile file (x.storage.deliver d).2.store x'.storage.store
    | none => Store.SameFile file x.storage.store x'.storage.store := by
  rcases h.storage with ⟨done, hdone, hstorage⟩
  have hlinked := hagrees.store.linked
  rw [hstorage]
  split
  · rename_i d hd
    rcases Option.bind_eq_some_iff.mp hd with ⟨task, htask, hdelivery⟩
    have hfile : d.task.file = file := by
      rw [task_of_delivery? hdelivery]
      exact hagrees.queue.keyed file task htask
    have hmem : d ∈ deliveries env x done := by
      refine List.mem_filterMap.mpr ⟨task, ?_, hdelivery⟩
      rw [← hdone.mem_iff, hagrees.queue.mem_toList_iff, hagrees.queue.keyed file task htask]
      exact htask
    rw [← hfile]
    exact Storage.sameFile_of_mem hlinked (hagrees.separate_deliveries hdone) hmem
  · rename_i hnone
    refine Storage.sameFile_deliverAll hlinked ?_
    intro hmem
    rcases List.mem_map.mp hmem with ⟨d, hd, rfl⟩
    rcases hagrees.task_of_mem_deliveries hdone hd with ⟨hqueued, hdelivery⟩
    rw [hqueued, Option.bind_some, hdelivery] at hnone
    cases hnone

/-- Files that were ready for the same are counterparts when everything is done. -/
theorem Ready.counterparts (h : Ready f g x y) (hoverlay : y.overlay = x.overlay)
    (hx : x.Agrees) (hy : y.Agrees) (hdrained : Drained env x x') (hdrained' : Drained env y y') :
    Counterparts f g x' y' where
  owner := by
    rw [ownerOf, ownerOf, hdrained.calm.owners, hdrained'.calm.owners]
    exact h.owner
  place := by
    rw [hdrained.calm.watcher, hdrained'.calm.watcher]
    exact h.place
  watchable := by
    rw [hdrained.calm.watcher, hdrained'.calm.watcher]
    exact h.watchable
  stored := by
    have hf := hdrained.sameFile hx f
    have hg := hdrained'.sameFile hy g
    rw [h.queued] at hg
    cases htask : x.scheduler.queue.get? f with
    | none =>
        rw [htask] at hf hg
        exact h.stored.of_sameFile hf hg
    | some task =>
        have hfile : task.file = f := hx.queue.keyed f task htask
        rw [htask] at hf hg
        rw [Option.map_some, Option.bind_some, h.delivery?_eq hoverlay hfile] at hg
        rw [Option.bind_some] at hf
        cases hdelivery : delivery? env x task with
        | none =>
            rw [hdelivery] at hf hg
            exact h.stored.of_sameFile hf hg
        | some d =>
            rw [hdelivery] at hf hg
            have hsame : d.task.file = f := by
              rw [task_of_delivery? hdelivery]
              exact hfile
            subst hsame
            exact (Storage.twins_deliver hx.store.linked hy.store.linked h.stored).of_sameFile hf hg

end Engine
end SymbolIndex
