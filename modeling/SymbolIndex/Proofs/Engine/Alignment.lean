import SymbolIndex.Proofs.Engine.Outcome
import SymbolIndex.Proofs.Engine.Retirement

/-!
# Leaving exactly the listed parts

An index is brought in line with a project in three steps: stored parts that are not
listed are removed, the listed ones are submitted, and the engine goes on by itself until
nothing is left to do. The first step is taken by an engine that owns no file yet and goes
by the stored members. The last one changes no part and no member, and it leaves alone
what is recorded of files that no accepted part has.
-/

namespace SymbolIndex

theorem Store.mem_partIds (s : Store) (id : PartId) :
    id ∈ s.partIds ↔ s.parts.contains id = true := by
  rw [partIds, List.mem_mergeSort, Table.mem_keys_iff]

theorem Store.fetchPart_congr {s t : Store} (hparts : t.parts = s.parts)
    (hmembers : t.members = s.members) (id : PartId) : t.fetchPart id = s.fetchPart id := by
  rw [fetchPart, fetchPart, membersOf, membersOf, hparts, hmembers]

theorem Store.files_of_fetchPart {s : Store} {id : PartId} {stored : StoredPart}
    (h : s.fetchPart id = .ok (some stored)) : stored.files = s.membersOf id := by
  rw [fetchPart] at h
  split at h
  · cases h
  · rename_i arguments _hstored
    cases hread : arguments.read with
    | error failure =>
        rw [hread] at h
        cases h
    | ok texts =>
        rw [hread] at h
        cases h
        rfl

namespace Engine

/-!
# Parts that are not listed
-/

/-- A project has a part with an id, whether it is accepted or not. -/
def IsListed (parts : List Part) (id : PartId) : Prop := exists part, part ∈ parts ∧ part.id = id

theorem mem_unlisted (e : Engine) (parts : List Part) (id : PartId) :
    id ∈ e.unlisted parts ↔
      e.storage.store.parts.contains id = true ∧ ¬ IsListed parts id := by
  simp [unlisted, List.mem_filter, Store.mem_partIds, IsListed]

section Unlisted

variable {e e' : Engine} {parts : List Part} {gone : List FileId} {file : FileId} {id : PartId}
  (h : e.Agrees)
  (hgone : forall file, file ∈ gone ↔
    exists id, id ∈ e.unlisted parts ∧ e.storage.store.members.get? file = some id)
  (hretires : Retires gone [] (e.unlisted parts) e e')

include h hgone in
theorem Agrees.mem_gone_iff (hmember : e.storage.store.members.get? file = some id) :
    file ∈ gone ↔ ¬ IsListed parts id := by
  rw [hgone]
  constructor
  · rintro ⟨other, hother, hmember'⟩
    have hsame : id = other := Option.some.inj (hmember.symm.trans hmember')
    rw [hsame]
    exact ((mem_unlisted e parts other).mp hother).2
  · intro hunlisted
    have hknown := h.store.known file id hmember
    exact ⟨id, (mem_unlisted e parts id).mpr ⟨hknown, hunlisted⟩, hmember⟩

include h hgone hretires in
theorem Agrees.member_iff_of_unlisted (file : FileId) (id : PartId) :
    e'.storage.store.members.get? file = some id ↔
      e.storage.store.members.get? file = some id ∧ IsListed parts id := by
  by_cases hfile : file ∈ gone
  · have hnone : e'.storage.store.members.get? file = none :=
      congrArg Traces.member (hretires.traceless file hfile)
    rw [hnone]
    constructor
    · intro hsome
      cases hsome
    · rintro ⟨hmember, hlisted⟩
      exact absurd hlisted ((h.mem_gone_iff hgone hmember).mp hfile)
  · have hsame : e'.storage.store.members.get? file = e.storage.store.members.get? file :=
      congrArg Traces.member (hretires.others file hfile List.not_mem_nil)
    rw [hsame]
    refine ⟨fun hmember => ⟨hmember, ?_⟩, And.left⟩
    by_contra hunlisted
    exact hfile ((h.mem_gone_iff hgone hmember).mpr hunlisted)

include hretires in
theorem Retires.stored_of_unlisted (hunlisted : ¬ IsListed parts id) :
    e'.storage.store.parts.get? id = none := by
  rw [hretires.stored]
  split
  · rfl
  · rename_i hid
    rw [mem_unlisted] at hid
    exact (Table.contains_eq_false_iff _ _).mp
      (Bool.eq_false_iff.mpr fun hcontains => hid ⟨hcontains, hunlisted⟩)

end Unlisted

/-- An engine that owns nothing and has nothing to do, on what is left of a store. -/
structure Pruned (parts : List Part) (s : Store) (e : Engine) : Prop where
  whole : e.Whole
  unowned : forall file, e.ownerOf file = none
  jobs : e.scheduler.jobs = []
  outbox : e.watcher.outbox = []
  members : forall file id, e.storage.store.members.get? file = some id ↔
    s.members.get? file = some id ∧ IsListed parts id
  stored : forall id, IsListed parts id -> e.storage.store.parts.get? id = s.parts.get? id
  gone : forall id, ¬ IsListed parts id -> e.storage.store.parts.get? id = none
  records : forall file id, s.members.get? file = some id -> IsListed parts id ->
    e.storage.store.statuses.get? file = s.statuses.get? file ∧
      e.storage.store.recordsAt file = s.recordsAt file

theorem Whole.pruned {store : Store} {concurrency : Nat} {log : CallLog}
    (h : (start store concurrency log).Whole) (parts : List Part) :
    let e := start store concurrency log
    exists removed, (e.removeParts (e.unlisted parts)).1 = .ok removed ∧
      Pruned parts store (e.removeParts (e.unlisted parts)).2 := by
  intro e
  rcases h.retires_removeParts (e.unlisted parts) with ⟨gone, -, hgone, hok, hretires⟩
  rcases hretires.scheduler with ⟨queue, hscheduler⟩
  refine ⟨gone.length, hok,
    { whole := h.removeParts _
      unowned := ?_
      jobs := by rw [hscheduler]; rfl
      outbox := hretires.outbox
      members := h.agrees.member_iff_of_unlisted hgone hretires
      stored := ?_
      gone := fun _ hunlisted => hretires.stored_of_unlisted hunlisted
      records := ?_ }⟩
  · intro file
    by_cases hfile : file ∈ gone
    · exact congrArg Traces.owner (hretires.traceless file hfile)
    · exact congrArg Traces.owner (hretires.others file hfile List.not_mem_nil)
  · intro id hlisted
    rw [hretires.stored, if_neg fun hid => ((mem_unlisted e parts id).mp hid).2 hlisted]
    rfl
  · intro file id hmember hlisted
    have hstays : file ∉ gone := fun hfile => (h.agrees.mem_gone_iff hgone hmember).mp hfile hlisted
    have hsame := hretires.others file hstays List.not_mem_nil
    exact ⟨congrArg Traces.status hsame, congrArg Traces.records hsame⟩

theorem Pruned.contains_iff {parts : List Part} {s : Store} {e : Engine}
    (h : Pruned parts s e) (id : PartId) :
    e.storage.store.parts.contains id = true ↔ s.parts.contains id = true ∧ IsListed parts id := by
  by_cases hlisted : IsListed parts id
  · rw [Table.contains, Table.contains, h.stored id hlisted]
    exact (and_iff_left hlisted).symm
  · rw [Table.contains, h.gone id hlisted]
    simp [hlisted]

/-!
# The index afterwards
-/

/-- Nothing in a store has to do with a part. -/
structure IsRidOf (t : Store) (id : PartId) : Prop where
  part : id ∉ t.partIds
  members : forall file, t.members.get? file ≠ some id
  statuses : forall file row, t.statuses.get? file = some row -> row.part ≠ id
  symbols : forall row, row ∈ t.symbols -> row.part ≠ id
  locations : forall l, l ∈ t.locations -> exists row, row ∈ t.symbols ∧ row.id = l.symbol ∧
    row.file = l.file ∧ row.part ≠ id

/-- What a store had of a file is what another has. -/
structure KeepsFile (s t : Store) (file : FileId) : Prop where
  member : t.members.get? file = s.members.get? file
  status : t.statuses.get? file = s.statuses.get? file
  records : t.recordsAt file = s.recordsAt file

/-- How an index that had `s` has followed a project, so that it has `t`. -/
structure Follows (parts : List Part) (s t : Store) : Prop where
  /-- What is stored is accepted, or it was stored before and is listed. -/
  ids : forall id, id ∈ t.partIds ↔
    (exists part, part ∈ (sift [] parts).1 ∧ part.id = id) ∨ (id ∈ s.partIds ∧ IsListed parts id)
  /-- The last of the accepted parts of an id is stored as it is listed. -/
  latest : forall before part after, (sift [] parts).1 = before ++ part :: after ->
    (forall later, later ∈ after -> later.id ≠ part.id) ->
    exists stored, t.fetchPart part.id = .ok (some stored) ∧
      stored.arguments = part.commandLine ∧ stored.files.Nodup ∧
      forall file, file ∈ stored.files ↔ IsFileOf t part file
  /-- The files of an accepted part are its members unless a later one of its id is accepted. -/
  files : forall before part after, (sift [] parts).1 = before ++ part :: after ->
    forall p, p ∈ part.files -> exists file, PathBook.empty.find? t p = some file ∧
      (t.members.get? file = some part.id ↔ forall later, later ∈ after -> later.id ≠ part.id)
  /-- There are no other members than these and those that were members of listed parts. -/
  members : forall file id, t.members.get? file = some id ->
    (exists part, part ∈ (sift [] parts).1 ∧ part.id = id ∧ IsFileOf t part file) ∨
      (s.members.get? file = some id ∧ IsListed parts id ∧ IsFree parts t file)
  /-- Nothing is left of parts that are not listed. -/
  dropped : forall id, ¬ IsListed parts id -> IsRidOf t id ∧
    forall file, s.members.get? file = some id -> IsFree parts t file ->
      t.members.get? file = none ∧ t.statuses.get? file = none ∧ t.recordsAt file = ([], [])
  /-- Parts that are listed but not accepted keep what no accepted part has. -/
  spared : forall id, IsListed parts id ->
    (forall part, part ∈ (sift [] parts).1 -> part.id ≠ id) ->
    t.parts.get? id = s.parts.get? id ∧
      forall file, s.members.get? file = some id -> IsFree parts t file -> KeepsFile s t file

theorem isFileOf_congr {s t : Store} (hsources : t.sources = s.sources) (part : Part)
    (file : FileId) : IsFileOf t part file ↔ IsFileOf s part file := by
  rw [IsFileOf, IsFileOf, Store.source?_of_sources_eq hsources]

theorem isFree_congr {s t : Store} (hsources : t.sources = s.sources) (parts : List Part)
    (file : FileId) : IsFree parts t file ↔ IsFree parts s file := by
  simp only [IsFree, isFileOf_congr hsources]

theorem Holds.member_iff {e : Engine} {part : Part} (h : e.Holds part) (file : FileId) :
    e.storage.store.members.get? file = some part.id ↔ IsFileOf e.storage.store part file := by
  rcases h.stored with ⟨stored, hstored, -, -, hfiles⟩
  rw [← hfiles, Store.files_of_fetchPart hstored, Store.mem_membersOf]

theorem exists_latest {parts : List Part} {id : PartId} (h : IsListed parts id) :
    exists before last after, parts = before ++ last :: after ∧ last.id = id ∧
      forall later, later ∈ after -> later.id ≠ id := by
  induction parts with
  | nil =>
      rcases h with ⟨part, hpart, -⟩
      cases hpart
  | cons part rest ih =>
      by_cases hrest : IsListed rest id
      · rcases ih hrest with ⟨before, last, after, rfl, hid, hlast⟩
        exact ⟨part :: before, last, after, rfl, hid, hlast⟩
      · rcases h with ⟨found, hfound, hid⟩
        rcases List.mem_cons.mp hfound with rfl | hmem
        · exact ⟨[], found, rest, rfl, hid, fun later hlater hsame => hrest ⟨later, hlater, hsame⟩⟩
        · exact absurd ⟨found, hmem, hid⟩ hrest

section Follows

variable {parts : List Part} {s : Store} {env : Environment} {e done : Engine}
  (hpruned : Pruned parts s e) (hminding : Minding (Engine.updateParts env e parts).2 done)

include hpruned hminding

theorem Pruned.ids (id : PartId) : id ∈ done.storage.store.partIds ↔
    (exists part, part ∈ (sift [] parts).1 ∧ part.id = id) ∨
      (id ∈ s.partIds ∧ IsListed parts id) := by
  rw [Store.mem_partIds, Store.mem_partIds, hminding.stored,
    hpruned.whole.agrees.contains_updateParts, hpruned.contains_iff]

theorem Pruned.latest {before after : List Part} {part : Part}
    (haccepted : (sift [] parts).1 = before ++ part :: after)
    (hlast : forall later, later ∈ after -> later.id ≠ part.id) :
    exists stored, done.storage.store.fetchPart part.id = .ok (some stored) ∧
      stored.arguments = part.commandLine ∧ stored.files.Nodup ∧
      forall file, file ∈ stored.files ↔ IsFileOf done.storage.store part file := by
  have hholds := World.holds_of_last (w := ⟨env.disk, e⟩) hpruned.whole.agrees env haccepted hlast
  rcases hholds.stored with ⟨stored, hstored, harguments, hnodup, hfiles⟩
  refine ⟨stored, ?_, harguments, hnodup, ?_⟩
  · rw [Store.fetchPart_congr hminding.stored hminding.members]
    exact hstored
  · intro file
    rw [hfiles, isFileOf_congr hminding.sources]

theorem Pruned.member_iff {before after : List Part} {part : Part}
    (haccepted : (sift [] parts).1 = before ++ part :: after) {file : FileId}
    (hfile : IsFileOf done.storage.store part file) :
    done.storage.store.members.get? file = some part.id ↔
      forall later, later ∈ after -> later.id ≠ part.id := by
  rw [hminding.members]
  rw [isFileOf_congr hminding.sources] at hfile
  constructor
  · intro hmember later hlater hid
    -- the last part of the id has only its own files
    rcases exists_latest ⟨later, hlater, hid⟩ with ⟨between, last, rest, rfl, hsame, hlast⟩
    have hsplit : (sift [] parts).1 = (before ++ part :: between) ++ last :: rest := by
      rw [haccepted, List.append_assoc, List.cons_append]
    have hholds := World.holds_of_last (w := ⟨env.disk, e⟩) hpruned.whole.agrees env hsplit
      (by rw [hsame]; exact hlast)
    rw [← hsame, hholds.member_iff] at hmember
    rcases hfile with ⟨text, hsource, htext⟩
    rcases hmember with ⟨text', hsource', htext'⟩
    have htexts : text = text' := Option.some.inj (hsource.symm.trans hsource')
    rw [← htexts] at htext'
    have hdisjoint := (disjoint_sift [] parts).1
    rw [haccepted] at hdisjoint
    have hapart := (List.pairwise_cons.mp (List.pairwise_append.mp hdisjoint).2.1).1
    exact hapart last (by simp) htext htext'
  · intro hlast
    have hholds := World.holds_of_last (w := ⟨env.disk, e⟩) hpruned.whole.agrees env haccepted hlast
    exact (hholds.member_iff file).mpr hfile

theorem Pruned.files {before after : List Part} {part : Part}
    (haccepted : (sift [] parts).1 = before ++ part :: after) {p : Path} (hp : p ∈ part.files) :
    exists file, PathBook.empty.find? done.storage.store p = some file ∧
      (done.storage.store.members.get? file = some part.id ↔
        forall later, later ∈ after -> later.id ≠ part.id) := by
  have hpart : part ∈ (sift [] parts).1 := by simp [haccepted]
  rcases hpruned.whole.agrees.source?_updateParts env hpart hp with ⟨file, hsource⟩
  rw [← Store.source?_of_sources_eq hminding.sources] at hsource
  have hfile : IsFileOf done.storage.store part file :=
    ⟨_, hsource, List.mem_map.mpr ⟨p, hp, rfl⟩⟩
  exact ⟨file, (PathBook.coherent_empty hminding.agrees.book.distinct).find?_eq_some hsource,
    hpruned.member_iff hminding haccepted hfile⟩

theorem Pruned.member_cases {file : FileId} {id : PartId}
    (hmember : done.storage.store.members.get? file = some id) :
    (exists part, part ∈ (sift [] parts).1 ∧ part.id = id ∧
        IsFileOf done.storage.store part file) ∨
      (s.members.get? file = some id ∧ IsListed parts id ∧
        IsFree parts done.storage.store file) := by
  rw [hminding.members] at hmember
  simp only [isFileOf_congr hminding.sources, isFree_congr hminding.sources]
  rcases hpruned.whole.agrees.member_of_updateParts hmember with hjoined | ⟨hbefore, hnone⟩
  · exact Or.inl hjoined
  · rcases (hpruned.members file id).mp hbefore with ⟨hstored, hlisted⟩
    exact Or.inr ⟨hstored, hlisted, hnone⟩

theorem Pruned.isRidOf {id : PartId} (hunlisted : ¬ IsListed parts id) :
    IsRidOf done.storage.store id := by
  have hsound := hminding.agrees.store
  have hnot : id ∉ done.storage.store.partIds := by
    rw [hpruned.ids hminding]
    rintro (⟨part, hpart, hid⟩ | ⟨-, hlisted⟩)
    · exact hunlisted ⟨part, (sift_splits [] parts).1.subset hpart, hid⟩
    · exact hunlisted hlisted
  have hnone : forall file, done.storage.store.members.get? file ≠ some id := fun file hmember =>
    hnot ((Store.mem_partIds _ _).mpr (hsound.known file id hmember))
  have hsymbols : forall row, row ∈ done.storage.store.symbols -> row.part ≠ id := by
    rintro row hrow rfl
    exact hnone row.file (hminding.agrees.member_of_symbol hrow)
  refine ⟨hnot, hnone, ?_, hsymbols, ?_⟩
  · rintro file row hrow rfl
    exact hnone file (hsound.tracked file row hrow)
  · intro l hl
    rcases hsound.linked.anchored l hl with ⟨row, hrow, hid, hfile⟩
    exact ⟨row, hrow, hid, hfile, hsymbols row hrow⟩

theorem Pruned.dropped {id : PartId} (hunlisted : ¬ IsListed parts id) {file : FileId}
    (hmember : s.members.get? file = some id) (hfree : IsFree parts done.storage.store file) :
    done.storage.store.members.get? file = none ∧
      done.storage.store.statuses.get? file = none ∧
      done.storage.store.recordsAt file = ([], []) := by
  have hsound := hminding.agrees.store
  have hnone : done.storage.store.members.get? file = none := by
    apply Option.eq_none_iff_forall_ne_some.mpr
    intro other hother
    rcases hpruned.member_cases hminding hother with
      ⟨part, hpart, -, hfile⟩ | ⟨hstored, hlisted, -⟩
    · exact hfree part hpart hfile
    · rw [hmember] at hstored
      cases hstored
      exact hunlisted hlisted
  have hstatus : done.storage.store.statuses.get? file = none := by
    apply Option.eq_none_iff_forall_ne_some.mpr
    intro row hrow
    rw [hsound.tracked file row hrow] at hnone
    cases hnone
  exact ⟨hnone, hstatus, hsound.blank file hstatus⟩

theorem Pruned.spared {id : PartId} (hlisted : IsListed parts id)
    (hids : forall part, part ∈ (sift [] parts).1 -> part.id ≠ id) :
    done.storage.store.parts.get? id = s.parts.get? id ∧
      forall file, s.members.get? file = some id -> IsFree parts done.storage.store file ->
        KeepsFile s done.storage.store file := by
  rcases hpruned.whole.agrees.spared_updateParts env hids with ⟨hstored, hsame⟩
  refine ⟨?_, ?_⟩
  · rw [hminding.stored, hstored]
    exact hpruned.stored id hlisted
  · intro file hmember hfree
    have hbefore := (hpruned.members file id).mpr ⟨hmember, hlisted⟩
    have hat := hsame file hbefore ((isFree_congr hminding.sources parts file).mp hfree)
    -- nobody owns the file, so the engine by itself does not touch its records
    have howner : (Engine.updateParts env e parts).2.ownerOf file = none := by
      rw [ownerOf_updateParts, hat.owner]
      exact hpruned.unowned file
    rcases hminding.records file howner with ⟨hstatus, hrecords⟩
    rcases hpruned.records file id hmember hlisted with ⟨hstatus', hrecords'⟩
    refine ⟨?_, ?_, ?_⟩
    · rw [hminding.members, storage_updateParts, hat.member, hbefore, hmember]
    · rw [hstatus, storage_updateParts, hat.status, hstatus']
    · rw [hrecords, storage_updateParts, hat.records, hrecords']

theorem Pruned.follows : Follows parts s done.storage.store where
  ids := hpruned.ids hminding
  latest := fun _ _ _ haccepted => hpruned.latest hminding haccepted
  files := fun _ _ _ haccepted _ => hpruned.files hminding haccepted
  members := fun _ _ => hpruned.member_cases hminding
  dropped := fun _ hunlisted => ⟨hpruned.isRidOf hminding hunlisted,
    fun _ => hpruned.dropped hminding hunlisted⟩
  spared := fun _ => hpruned.spared hminding

end Follows

/-!
# A whole project
-/

theorem indexProject_eq {env : Environment} {e : Engine} {parts : List Part} {removed : Nat}
    (hok : (e.removeParts (e.unlisted parts)).1 = .ok removed) {done : UpdateReport × Engine}
    (hdone : Engine.updateParts env (e.removeParts (e.unlisted parts)).2 parts = done) :
    Engine.indexProject env e parts =
      (.ok ⟨e.unlisted parts, removed + done.1.removed, done.1.enqueued, done.1.rejected⟩,
        (Engine.quiesce env done.2).2) := by
  have hremoved : e.removeParts (e.unlisted parts) =
      (.ok removed, (e.removeParts (e.unlisted parts)).2) := Prod.ext hok rfl
  unfold Engine.indexProject
  dsimp only
  rw [hremoved]
  dsimp only
  rw [hdone]

/-- A project is always gone through to its end, and the index follows it. -/
theorem Whole.indexProject {store : Store} {concurrency : Nat} {log : CallLog}
    (h : (start store concurrency log).Whole) (s : Surroundings) (d : Disk) (parts : List Part) :
    let e := start store concurrency log
    let after := Engine.indexProject (s.environment d) e parts
    (exists report, after.1 = .ok report ∧ report.dropped = e.unlisted parts ∧
      report.rejected = (sift [] parts).2) ∧
    Follows parts store after.2.storage.store ∧
    exists drain, (forall event, event ∈ drain -> World.isSettling event = true) ∧
      World.run s ⟨d, e⟩ (.removeParts (e.unlisted parts) :: .submit parts :: drain) =
        ⟨d, after.2⟩ := by
  intro e after
  rcases h.pruned parts with ⟨removed, hok, hpruned⟩
  have hagrees := hpruned.whole.agrees
  have htended := hagrees.tended_updateParts (s.environment d) hpruned.jobs hpruned.outbox parts
  have hrejected := hagrees.rejected_updateParts (s.environment d) parts
  have hfollows := hpruned.follows (htended.quiesce s d)
  have hremoves : World.happen s ⟨d, e⟩ (.removeParts (e.unlisted parts)) =
      ⟨d, (e.removeParts (e.unlisted parts)).2⟩ := rfl
  have hsubmits : World.happen s ⟨d, (e.removeParts (e.unlisted parts)).2⟩ (.submit parts) =
      ⟨d, (Engine.updateParts (s.environment d) (e.removeParts (e.unlisted parts)).2 parts).2⟩ :=
    rfl
  rw [show after = _ from indexProject_eq hok rfl]
  generalize Engine.updateParts (s.environment d) (e.removeParts (e.unlisted parts)).2 parts = done
    at hsubmits hrejected hfollows ⊢
  dsimp only
  rcases leads_quiesce s d done.2 with ⟨drain, hdrain, hrun⟩
  refine ⟨⟨_, rfl, rfl, hrejected⟩, hfollows, drain, hdrain, ?_⟩
  rw [World.run, List.foldl_cons, List.foldl_cons, hremoves, hsubmits]
  exact hrun

end Engine
end SymbolIndex
