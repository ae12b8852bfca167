import SymbolIndex.Proofs.Engine.Attention
import SymbolIndex.Proofs.Watcher.Tracking

/-!
# Notifications that are handled late

The watcher looks at the disk when a batch of raw events is reported, and the engine acts
on the report when it comes to handle it. In between the file may be written and
submitted again. Nothing but a report that waited at the submission takes the file away
from its part after that, and such a report always does.
-/

namespace SymbolIndex
namespace Engine

variable {env : Environment} {e e' e'' : Engine} {file : FileId} {part : PreparedPart}

/-- Nothing happened to a file by which its part could lose it. -/
structure LeftAlone (file : FileId) (e e' : Engine) : Prop where
  owner : e'.ownerOf file = e.ownerOf file
  covered : e.Covers file -> e'.Covers file
  watchable : e.watcher.isUnwatchable file = false -> e'.watcher.isUnwatchable file = false
  announced : e'.watcher.Announces file ↔ e.watcher.Announces file

namespace LeftAlone

theorem refl (file : FileId) (e : Engine) : LeftAlone file e e := ⟨rfl, id, id, Iff.rfl⟩

theorem trans (h : LeftAlone file e e') (h' : LeftAlone file e' e'') : LeftAlone file e e'' where
  owner := h'.owner.trans h.owner
  covered := fun hcovers => h'.covered (h.covered hcovers)
  watchable := fun hwatchable => h'.watchable (h.watchable hwatchable)
  announced := h'.announced.trans h.announced

end LeftAlone

/-- What concerns a file is as before, except that it may have come to have contents. -/
structure Unmoved (file : FileId) (e e' : Engine) : Prop where
  owner : e'.ownerOf file = e.ownerOf file
  generated : e.IsGenerated file -> e'.IsGenerated file
  watched : e'.watcher.byId.get? file = e.watcher.byId.get? file
  unwatchable : e'.watcher.isUnwatchable file = e.watcher.isUnwatchable file
  announced : e'.watcher.Announces file ↔ e.watcher.Announces file

theorem Unmoved.leftAlone (h : Unmoved file e e') : LeftAlone file e e' where
  owner := h.owner
  covered := by
    refine Or.imp ?_ h.generated
    rw [Watcher.isWatched, Watcher.isWatched, Table.contains, Table.contains, h.watched]
    exact id
  watchable := by
    rw [h.unwatchable]
    exact id
  announced := h.announced

theorem unmoved_of_watcher_eq (hwatcher : e'.watcher = e.watcher) (howners : e'.owners = e.owners)
    (hgenerated : e.IsGenerated file -> e'.IsGenerated file) : Unmoved file e e' where
  owner := by rw [ownerOf, ownerOf, howners]
  generated := hgenerated
  watched := by rw [hwatcher]
  unwatchable := by rw [hwatcher]
  announced := by rw [hwatcher]

theorem Calm.unmoved (h : Calm e e') (file : FileId) : Unmoved file e e' :=
  unmoved_of_watcher_eq h.watcher h.owners fun hgenerated =>
    hgenerated.of_paths (fun _ hp => (h.paths file).trans hp) h.overlay

theorem Calm.leftAlone (h : Calm e e') (file : FileId) : LeftAlone file e e' :=
  (h.unmoved file).leftAlone

theorem Attends.unmoved_interned (h : e.Attends) (hinterned : Interned e e')
    (htextual : Textual e') (file : FileId) : Unmoved file e e' :=
  unmoved_of_watcher_eq hinterned.watcher hinterned.owners fun hgenerated =>
    hgenerated.of_paths
      (fun _ hp => (hinterned.carried (fun _ => htextual)).path? h.textual hp) hinterned.overlay

theorem Agrees.unmoved_retire (h : e.Agrees) {files : List FileId} (hfile : file ∉ files) :
    Unmoved file e (e.retire files) := by
  rcases h.retire files with ⟨hgo, -⟩
  constructor
  · rw [hgo.owners, if_neg hfile]
  · exact fun hgenerated =>
      hgenerated.of_paths (fun _ hp => (hgo.path? file).trans hp) hgo.overlay
  · rw [watcher_retire, Watcher.get?_byId_remove, if_neg hfile]
  · exact isUnwatchable_retire e files hfile
  · rw [watcher_retire]
    exact Watcher.announces_of_outbox_eq (Watcher.outbox_remove _ _) file

theorem Applied.announces (happlied : Applied env part e e') (hfile : file ∉ part.files) :
    e'.watcher.Announces file ↔ e.watcher.Announces file := by
  have hadded : file ∉ (e.watchable part.files).map Prod.fst :=
    fun hmem => hfile (map_fst_watchable _ _ hmem)
  rw [happlied.watcher, Watcher.announces_add_of_notMem _ (path?_of_watchable e part.files) hadded,
    watcher_retire]
  exact Watcher.announces_of_outbox_eq (Watcher.outbox_remove _ _) file

theorem Agrees.announces_applyParts (h : e.Agrees) (env : Environment)
    {accepted : List PreparedPart} (hsources : Sourced e accepted)
    (hfiles : forall part, part ∈ accepted -> file ∉ part.files) :
    (Engine.applyParts env e accepted).2.watcher.Announces file ↔ e.watcher.Announces file := by
  refine (h.applyParts_induction (P := fun e' rest =>
    (e'.watcher.Announces file ↔ e.watcher.Announces file) ∧
      forall other, other ∈ rest -> file ∉ other.files) hsources ⟨Iff.rfl, hfiles⟩ ?_).1
  rintro e' other rest - happlied ⟨hannounces, hothers⟩
  refine ⟨?_, fun next hnext => hothers next (List.mem_cons_of_mem _ hnext)⟩
  exact (happlied.announces (hothers other List.mem_cons_self)).trans hannounces

theorem Applied.unmoved (happlied : Applied env part e e') (hfile : file ∉ part.files)
    (hstays : file ∉ e.departed part) : Unmoved file e e' := by
  have hadded : file ∉ (e.watchable part.files).map Prod.fst :=
    fun hmem => hfile (map_fst_watchable _ _ hmem)
  constructor
  · rw [happlied.owners, if_neg hfile, if_neg hstays]
  · exact fun hgenerated =>
      hgenerated.of_paths (fun _ hp => (happlied.paths file).trans hp) happlied.overlay
  · rw [happlied.watcher, Watcher.get?_byId_add_of_notMem _ _ hadded, watcher_retire,
      Watcher.get?_byId_remove, if_neg hstays]
  · exact happlied.watch hfile hstays
  · exact happlied.announces hfile

theorem Agrees.leftAlone_applyParts (h : e.Agrees) (env : Environment)
    {accepted : List PreparedPart} (hsources : Sourced e accepted) {id : PartId}
    (howner : e.ownerOf file = some id)
    (hids : id ∉ accepted.map PreparedPart.id)
    (hfiles : forall part, part ∈ accepted -> file ∉ part.files) :
    LeftAlone file e (Engine.applyParts env e accepted).2 := by
  refine h.applyParts_apart hsources ?_ hfiles (LeftAlone.refl file)
    (fun _ _ _ => LeftAlone.trans)
    (fun _ _ _ _ happlied hfile hstays => (happlied.unmoved hfile hstays).leftAlone)
  intro other hother
  rw [h.member_of_owner howner] at hother
  cases hother
  exact hids

theorem Attends.leftAlone_updateParts (h : e.Attends) {parts : List Part}
    (hparts : forall part, part ∈ parts -> forall p, p ∈ part.files -> p.IsText) {id : PartId}
    (howner : e.ownerOf file = some id)
    (hothers : forall part, part ∈ (Engine.prepare ∅ e parts).1.1 ->
      part.id ≠ id ∧ file ∉ part.files) :
    LeftAlone file e (Engine.updateParts env e parts).2 := by
  rcases h.agrees.prepare ∅ parts with ⟨hagrees, hinterned, haccepted, -⟩
  have hprepared :=
    (h.unmoved_interned hinterned (h.prepare hparts).textual file).leftAlone
  have hid : id ∉ (Engine.prepare ∅ e parts).1.1.map PreparedPart.id := by
    intro hmem
    rcases List.mem_map.mp hmem with ⟨part, hpart, hid⟩
    exact (hothers part hpart).1 hid
  have happlied := hagrees.leftAlone_applyParts env haccepted.sourced
    (hprepared.owner.trans howner) hid (fun part hpart => (hothers part hpart).2)
  exact (hprepared.trans happlied).trans ((calm_updateParts env e parts).leftAlone file)

theorem Agrees.leftAlone_removeParts (h : e.Agrees) {id : PartId}
    (howner : e.ownerOf file = some id) {ids : List PartId} (hids : id ∉ ids) :
    LeftAlone file e (e.removeParts ids).2 := by
  induction ids generalizing e with
  | nil => exact LeftAlone.refl file e
  | cons other rest ih =>
      rw [List.mem_cons, not_or] at hids
      have hfiles := h.mem_known_files other
      have hfile : file ∉ ((e.known other).map Snapshot.files).getD [] := by
        intro hmem
        have hmember := (hfiles file).mp hmem
        rw [h.member_of_owner howner] at hmember
        exact hids.1 (Option.some.inj hmember)
      have hone := (h.unmoved_retire hfile).leftAlone.trans
        ((h.calm_removePart hfiles).leftAlone file)
      rw [Engine.removeParts, h.filesOf_eq]
      exact hone.trans (ih (h.removePart hfiles) (hone.owner.trans howner) hids.2)

theorem Attends.isGenerated_setContents (h : e.Attends) {files : List (Path × String)}
    (hfiles : forall f, f ∈ files -> f.1.IsText) (hfile : file ∈ (e.setContents files).1) :
    (e.setContents files).2.IsGenerated file := by
  rcases (h.agrees.setContents_spec hfiles).generated file hfile with ⟨p, hp, hsource, hcontains⟩
  refine ⟨p.normalize, ?_, ?_⟩
  · apply ((h.setContents hfiles).2 file).trans
    rw [hsource, Option.map_some, Path.ofString_display (Path.isText_normalize hp)]
  · rw [Overlay.contains_congr _ (Path.normalize_normalize p)]
    exact hcontains

theorem Attends.keeps_setContents (h : e.Attends) {files : List (Path × String)}
    (hfiles : forall f, f ∈ files -> f.1.IsText) (hgenerated : e.IsGenerated file) :
    (e.setContents files).2.IsGenerated file := by
  rcases hgenerated with ⟨p, hp, hcontains⟩
  exact ⟨p, (h.agrees.carried_setContents hfiles).path? h.textual hp,
    (h.agrees.setContents_spec hfiles).kept p hcontains⟩

theorem Attends.leftAlone_updateGenerated (h : e.Attends) {files : List (Path × String)}
    (hfiles : forall f, f ∈ files -> f.1.IsText) (file : FileId) :
    LeftAlone file e (Engine.updateGenerated env e files).2 := by
  have hset := h.agrees.setContents_spec hfiles
  have htold : LeftAlone file e { (e.setContents files).2 with
      watcher := (e.setContents files).2.watcher.remove (e.setContents files).1 } := by
    refine ⟨by rw [ownerOf, ownerOf, hset.owners], ?_, ?_, ?_⟩
    · rintro (hwatched | hgenerated)
      · by_cases hfile : file ∈ (e.setContents files).1
        · exact Or.inr (h.isGenerated_setContents hfiles hfile)
        · left
          rw [Watcher.isWatched, Table.contains, hset.watcher, Watcher.get?_byId_remove,
            if_neg hfile]
          exact hwatched
      · exact Or.inr (h.keeps_setContents hfiles hgenerated)
    · intro hwatchable
      rw [hset.watcher]
      exact Watcher.isUnwatchable_remove_eq_false hwatchable _
    · rw [hset.watcher]
      exact Watcher.announces_of_outbox_eq (Watcher.outbox_remove _ _) file
  unfold Engine.updateGenerated
  dsimp only
  split
  · rename_i hnone
    rw [List.isEmpty_iff.mp hnone] at htold
    exact htold
  · exact htold.trans ((calm_handleChanged env _ _).leftAlone file)

theorem Attends.leftAlone_flush (h : e.Attends) (env : Environment) (hplain : e.watcher.Plain)
    (hthere : exists p, e.path? file = some p ∧
      (e.overlay.contains p = true ∨ env.disk.doesExist p = true)) (events : List Path) :
    LeftAlone file e (Engine.flush env e events) := by
  have hfile : file ∉ e.watcher.missing env.disk events := by
    apply h.watcher.listed.spared_flush
    intro p hp
    rcases hthere with ⟨q, hq, hcontains | hexists⟩
    all_goals
      rw [h.watcher.paths file p hp, hplain file p hp] at hq
      cases hq
    · rw [h.watcher.bare file p hp] at hcontains
      cases hcontains
    · exact hexists
  have hunmoved : Unmoved file e (Engine.flush env e events) :=
    ⟨rfl, id, (Watcher.get?_byId_flush _ _ _ _).trans (if_neg hfile),
      Watcher.isUnwatchable_flush _ _ _ _,
      (Watcher.announces_flush _ _ _ _).trans (or_iff_left hfile)⟩
  exact hunmoved.leftAlone

/-!
# Handling notifications
-/

theorem Agrees.unowned_of_removed (h : e.Agrees) {files : List FileId} (hfile : file ∈ files)
    (howned : e.isOwned file = true) (hwatchable : e.watcher.isUnwatchable file = false) :
    (e.handleRemoved files).2.ownerOf file = none := by
  have hdetached := (h.detach ((files.filter e.isOwned).filter e.watcher.isUnwatchable)).2
  apply ((hdetached.retire _).1.owners file).trans
  rw [if_pos]
  simp [hfile, howned, hwatchable]

theorem Agrees.leftAlone_handleRemoved (h : e.Agrees) {files : List FileId} (hfile : file ∉ files) :
    LeftAlone file e (e.handleRemoved files).2 := by
  have hdetached := (h.detach ((files.filter e.isOwned).filter e.watcher.isUnwatchable)).2
  refine ((h.calm_detach _).leftAlone file).trans (hdetached.unmoved_retire ?_).leftAlone
  exact fun hmem => hfile (List.mem_filter.mp (List.mem_filter.mp hmem).1).1

theorem unmoved_pop {change : PathChange} {rest : List PathChange}
    (houtbox : e.watcher.outbox = change :: rest)
    (hother : forall files, .removed files = change -> file ∉ files) :
    Unmoved file e { e with watcher := { e.watcher with outbox := rest } } := by
  refine ⟨rfl, id, rfl, rfl, ?_⟩
  rw [Watcher.announces_cons houtbox, or_iff_right]
  rintro ⟨files, hfiles, hmem⟩
  exact hother files hfiles hmem

theorem Agrees.leftAlone_receive (h : e.Agrees) (howned : e.isOwned file = true)
    (hwatchable : e.watcher.isUnwatchable file = false) :
    LeftAlone file e (World.receive env e) ∨
      (e.watcher.Announces file ∧ (World.receive env e).ownerOf file = none) := by
  unfold World.receive Watcher.receive
  cases houtbox : e.watcher.outbox with
  | nil => exact Or.inl (LeftAlone.refl file e)
  | cons change rest =>
      have hagrees := h.with_watcher { e.watcher with outbox := rest }
      cases change with
      | changed files =>
          left
          refine (unmoved_pop houtbox ?_).leftAlone.trans
            ((calm_handleChanged env _ files).leftAlone file)
          intro removed heq
          cases heq
      | removed files =>
          by_cases hfile : file ∈ files
          · exact Or.inr ⟨(Watcher.announces_cons houtbox file).mpr (Or.inl ⟨files, rfl, hfile⟩),
              hagrees.unowned_of_removed hfile howned hwatchable⟩
          · left
            refine (unmoved_pop houtbox ?_).leftAlone.trans (hagrees.leftAlone_handleRemoved hfile)
            rintro _ ⟨rfl⟩
            exact hfile

/-!
# Watching under normal forms
-/

/-- As long as no contents are dropped, files are watched under the normal forms of their paths. -/
structure Minds (e : Engine) : Prop extends Attends e where
  plain : e.watcher.Plain

namespace Minds

theorem plain_retire (h : e.Minds) (files : List FileId) : (e.retire files).watcher.Plain := by
  rw [watcher_retire]
  exact h.plain.remove files

theorem applied (h : e.Minds) (happlied : Applied env part e e')
    (hsources : forall file, file ∈ part.files -> e.storage.store.hasSource file = true) :
    e'.Minds where
  toAttends := h.toAttends.applied happlied hsources
  plain := by
    rw [happlied.watcher]
    apply (h.plain_retire _).add
    exact fun f hf => h.normalize_eq (mem_watchable.mp hf).2.1

theorem plain_updateParts (h : e.Minds) {parts : List Part}
    (hparts : forall part, part ∈ parts -> forall p, p ∈ part.files -> p.IsText) :
    (Engine.updateParts env e parts).2.watcher.Plain := by
  rcases h.agrees.prepare ∅ parts with ⟨hagrees, hinterned, haccepted, -⟩
  have hprepared : (Engine.prepare ∅ e parts).2.Minds :=
    ⟨h.toAttends.prepare hparts, by rw [hinterned.watcher]; exact h.plain⟩
  rw [(calm_updateParts env e parts).watcher]
  refine (hagrees.applyParts_induction (P := fun e rest => e.Minds ∧ Sourced e rest)
    haccepted.sourced ⟨hprepared, haccepted.sourced⟩ ?_).1.plain
  rintro e' part rest - happlied ⟨hminds, hsources⟩
  exact ⟨hminds.applied happlied (hsources part List.mem_cons_self),
    hsources.tail happlied.sources⟩

theorem plain_removeParts (h : e.Minds) (ids : List PartId) :
    (e.removeParts ids).2.watcher.Plain := by
  induction ids generalizing e with
  | nil => exact h.plain
  | cons id rest ih =>
      have hfiles := h.agrees.mem_known_files id
      have hcalm := h.agrees.calm_removePart hfiles
      rw [Engine.removeParts, h.agrees.filesOf_eq]
      refine ih ⟨(h.toAttends.retire _).calm hcalm (h.agrees.removePart hfiles), ?_⟩
      rw [hcalm.watcher]
      exact h.plain_retire _

theorem plain_handleChange (h : e.Minds) (change : PathChange) :
    (Engine.handleChange env e change).2.watcher.Plain := by
  cases change with
  | changed files =>
      show (Engine.handleChanged env e files).2.watcher.Plain
      rw [(calm_handleChanged env e files).watcher]
      exact h.plain
  | removed files =>
      have hcalm := h.agrees.calm_detach ((files.filter e.isOwned).filter e.watcher.isUnwatchable)
      apply plain_retire
      exact ⟨h.toAttends.calm hcalm (h.agrees.detach _).2, by rw [hcalm.watcher]; exact h.plain⟩

theorem plain_updateGenerated (h : e.Minds) {files : List (Path × String)}
    (hfiles : forall f, f ∈ files -> f.1.IsText) :
    (Engine.updateGenerated env e files).2.watcher.Plain := by
  have hset := h.agrees.setContents_spec hfiles
  have hkept : (e.setContents files).2.watcher.Plain := by
    rw [hset.watcher]
    exact h.plain
  unfold Engine.updateGenerated
  dsimp only
  split
  · exact hkept
  · exact plain_handleChange ⟨h.toAttends.generates hfiles, hkept.remove _⟩ _

end Minds

/-!
# Files without owner
-/

theorem Agrees.unowned_updateParts (h : e.Agrees) (hnone : e.ownerOf file = none)
    {parts : List Part}
    (hfiles : forall part, part ∈ (Engine.prepare ∅ e parts).1.1 -> file ∉ part.files) :
    (Engine.updateParts env e parts).2.ownerOf file = none := by
  rcases h.prepare ∅ parts with ⟨hagrees, hinterned, haccepted, -⟩
  rw [ownerOf, (calm_updateParts env e parts).owners]
  refine (hagrees.applyParts_induction (P := fun e' rest => e'.ownerOf file = none ∧
    forall part, part ∈ rest -> file ∉ part.files) haccepted.sourced
    ⟨by rw [ownerOf, hinterned.owners]; exact hnone, hfiles⟩ ?_).1
  rintro e' part rest - happlied ⟨hbefore, hothers⟩
  refine ⟨?_, fun other hother => hothers other (List.mem_cons_of_mem _ hother)⟩
  rw [happlied.owners, if_neg (hothers part List.mem_cons_self)]
  split
  · rfl
  · exact hbefore

theorem Agrees.unowned_retire (h : e.Agrees) (hnone : e.ownerOf file = none)
    (files : List FileId) : (e.retire files).ownerOf file = none := by
  rw [(h.retire files).1.owners]
  split
  · rfl
  · exact hnone

theorem Agrees.unowned_removeParts (h : e.Agrees) (hnone : e.ownerOf file = none)
    (ids : List PartId) : (e.removeParts ids).2.ownerOf file = none := by
  induction ids generalizing e with
  | nil => exact hnone
  | cons id rest ih =>
      have hfiles := h.mem_known_files id
      rw [Engine.removeParts, h.filesOf_eq]
      apply ih (h.removePart hfiles)
      rw [ownerOf, (h.calm_removePart hfiles).owners]
      exact h.unowned_retire hnone _

theorem Agrees.unowned_handleChange (h : e.Agrees) (hnone : e.ownerOf file = none)
    (change : PathChange) : (Engine.handleChange env e change).2.ownerOf file = none := by
  cases change with
  | changed files =>
      show (Engine.handleChanged env e files).2.ownerOf file = none
      rw [ownerOf, (calm_handleChanged env e files).owners]
      exact hnone
  | removed files =>
      apply (h.detach _).2.unowned_retire
      rw [ownerOf, (h.calm_detach _).owners]
      exact hnone

/-!
# Submissions
-/

theorem Applied.announces_iff (happlied : Applied env part e e')
    (hwatchable : e'.watcher.isUnwatchable file = false) :
    e'.watcher.Announces file ↔ e.watcher.Announces file := by
  have hpaths := path?_of_watchable e part.files
  have hretired : (e.retire (e.departed part)).watcher.Announces file ↔
      e.watcher.Announces file := by
    rw [watcher_retire]
    exact Watcher.announces_of_outbox_eq (Watcher.outbox_remove _ _) file
  constructor
  · intro hannounces
    rw [happlied.watcher] at hannounces hwatchable
    rcases Watcher.announces_add env.backend hpaths hannounces with hold | ⟨-, hunwatchable⟩
    · exact hretired.mp hold
    · rw [hwatchable] at hunwatchable
      cases hunwatchable
  · intro hannounces
    rw [happlied.watcher]
    exact (hretired.mpr hannounces).add env.backend hpaths

theorem Accepted.apart {parts : List Part} {before after : List PreparedPart}
    (h : Accepted e parts (before ++ part :: after)) (hfile : file ∈ part.files) :
    (forall other, other ∈ before -> file ∉ other.files) ∧
      forall other, other ∈ after -> file ∉ other.files := by
  rcases List.pairwise_append.mp h.disjoint with ⟨-, hafter, hbefore⟩
  refine ⟨?_, fun other hother => (List.pairwise_cons.mp hafter).1 other hother file hfile⟩
  exact fun other hother hmem => hbefore other hother part List.mem_cons_self file hmem hfile

/--
After a submission its last part with some id owns each of its files that can be watched
and covers it, and the file is announced as removed if it was before.
-/
theorem Attends.covers_updateParts (h : e.Attends) {parts : List Part}
    (hparts : forall part, part ∈ parts -> forall p, p ∈ part.files -> p.IsText)
    {before after : List PreparedPart}
    (haccepted : (Engine.prepare ∅ e parts).1.1 = before ++ part :: after)
    (hlast : part.id ∉ after.map PreparedPart.id) (hfile : file ∈ part.files)
    (hwatchable : (Engine.updateParts env e parts).2.watcher.isUnwatchable file = false) :
    (Engine.updateParts env e parts).2.ownerOf file = some part.id ∧
      (Engine.updateParts env e parts).2.Covers file ∧
      ((Engine.updateParts env e parts).2.watcher.Announces file ↔ e.watcher.Announces file) := by
  rcases h.agrees.prepare ∅ parts with ⟨-, hinterned, hchecked, -⟩
  have hcalm := calm_updateParts env e parts
  rw [haccepted] at hchecked hcalm
  rw [applyParts_append, applyParts_cons] at hcalm
  rcases hchecked.apart hfile with ⟨hbefore, hafter⟩
  -- the parts before
  rcases (h.prepare hparts).agrees.applied_between env hchecked.sourced with
    ⟨hsources, -, hlater, happlied⟩
  have hannounces := (h.prepare hparts).agrees.announces_applyParts env hsources hbefore
  rw [hinterned.watcher] at hannounces
  have hattends := (h.prepare hparts).applyParts env hsources
  generalize (Engine.applyParts env (Engine.prepare ∅ e parts).2 before).2 = applying at *
  -- the part itself
  have howner : (Engine.applyPart env applying part).2.ownerOf file = some part.id := by
    rw [happlied.owners, if_pos hfile]
  -- the parts after
  have hrest := hlater.tail happlied.sources
  have hsameAt : SameAt file (Engine.applyPart env applying part).2
      (Engine.applyParts env (Engine.applyPart env applying part).2 after).2 :=
    happlied.agrees.sameAt_applyParts hrest (happlied.agrees.member_of_owner howner) hlast hafter
  have hwatch := hsameAt.watch
  have halone := (happlied.agrees.leftAlone_applyParts env hrest howner hlast hafter).trans
    (hcalm.leftAlone file)
  rw [hcalm.watcher, hwatch] at hwatchable
  refine ⟨halone.owner.trans howner, halone.covered ?_, ?_⟩
  · exact hattends.covers_applied happlied hfile (hlater part List.mem_cons_self file hfile)
      hwatchable
  · exact halone.announced.trans ((happlied.announces_iff hwatchable).trans hannounces)

end Engine

namespace World

variable {s : Surroundings} {w : World} {part : PartId} {file : FileId}

/-- There is a file on the disk, or there are contents for it. -/
def Has (w : World) (file : FileId) : Prop :=
  exists p, w.engine.path? file = some p ∧
    (w.engine.overlay.contains p = true ∨ w.disk.doesExist p = true)

/-- An event may take a file from its part by what it asks for. -/
def Disturbs (w : World) (part : PartId) (file : FileId) : Event -> Prop
  | .submit parts => exists prepared, prepared ∈ (Engine.prepare ∅ w.engine parts).1.1 ∧
      (prepared.id = part ∨ file ∈ prepared.files)
  | .removeParts ids => part ∈ ids
  | .handle _ => True
  | .ungenerate _ => True
  | .restart _ => True
  | _ => False

/-- A file is there all the time, and nothing asks for it or for its part. -/
def Undisturbed (s : Surroundings) (part : PartId) (file : FileId) : World -> List Event -> Prop
  | _, [] => True
  | w, event :: rest => w.Has file ∧ Spelled event ∧ ¬ w.Disturbs part file event ∧
      Undisturbed s part file (happen s w event) rest

/-- Calls, steps and raw events; notifications are handled in their order only. -/
def isOrdinary : Event -> Bool
  | .handle _ => false
  | .ungenerate _ => false
  | _ => true

/-- A world that came about from one with an empty store by ordinary events that are spelled. -/
def Regular (s : Surroundings) (w : World) : Prop :=
  exists d concurrency history, w = run s (fresh d concurrency) history ∧
    forall event, event ∈ history -> Spelled event ∧ isOrdinary event = true

theorem minds_happen (h : w.engine.Minds) {event : Event} (hspelled : Spelled event)
    (hordinary : isOrdinary event = true) : (happen s w event).engine.Minds := by
  refine ⟨attends_happen h.toAttends hspelled, ?_⟩
  cases event with
  | submit parts => exact h.plain_updateParts hspelled
  | removeParts ids => exact h.plain_removeParts ids
  | handle change => cases hordinary
  | receive =>
      show (World.receive _ w.engine).watcher.Plain
      unfold World.receive Watcher.receive
      cases houtbox : w.engine.watcher.outbox with
      | nil => exact h.plain
      | cons change rest =>
          exact Engine.Minds.plain_handleChange ⟨h.with_outbox rest, h.plain⟩ change
  | generate files => exact h.plain_updateGenerated hspelled
  | ungenerate paths => cases hordinary
  | edit change =>
      unfold happen
      dsimp only
      split <;> exact h.plain
  | flush paths => exact h.plain.flush w.disk paths
  | work ticket =>
      exact ((Engine.worked_stepTicket _ _ ticket).calm h.agrees).watcher ▸ h.plain
  | dispatch => exact h.plain
  | sweep => exact h.plain
  | disable => exact h.plain
  | restart concurrency => exact fun id p hp => nomatch hp

theorem Regular.minds (h : w.Regular s) : w.engine.Minds := by
  rcases h with ⟨d, concurrency, history, rfl, hhistory⟩
  have hfresh : (fresh d concurrency).engine.Minds :=
    ⟨attends_fresh d concurrency, fun id p hp => nomatch hp⟩
  generalize fresh d concurrency = w at hfresh
  induction history generalizing w with
  | nil => exact hfresh
  | cons event rest ih =>
      rcases hhistory event List.mem_cons_self with ⟨hspelled, hordinary⟩
      exact ih (fun later hlater => hhistory later (List.mem_cons_of_mem _ hlater)) _
        (minds_happen hfresh hspelled hordinary)

theorem isOrdinary_of_not_disturbs {event : Event} (h : ¬ w.Disturbs part file event) :
    isOrdinary event = true := by
  cases event with
  | handle change => exact absurd trivial h
  | ungenerate paths => exact absurd trivial h
  | _ => rfl

/--
An event that does not ask for an owned file leaves it alone, unless it handles a
notification that waited for the file.
-/
theorem leftAlone_happen (h : w.engine.Minds) (howner : w.engine.ownerOf file = some part)
    (hwatchable : w.engine.watcher.isUnwatchable file = false) (hhas : w.Has file) {event : Event}
    (hspelled : Spelled event) (hdisturbs : ¬ w.Disturbs part file event) :
    Engine.LeftAlone file w.engine (happen s w event).engine ∨
      (w.engine.watcher.Announces file ∧ (happen s w event).engine.ownerOf file = none) := by
  by_cases hcalm : isCalm event = true
  · exact Or.inl ((calm_happen h.agrees hcalm).leftAlone file)
  cases event with
  | submit parts =>
      left
      apply h.leftAlone_updateParts hspelled howner
      intro prepared hprepared
      exact ⟨fun hid => hdisturbs ⟨prepared, hprepared, Or.inl hid⟩,
        fun hfile => hdisturbs ⟨prepared, hprepared, Or.inr hfile⟩⟩
  | removeParts ids => exact Or.inl (h.agrees.leftAlone_removeParts howner hdisturbs)
  | receive =>
      apply h.agrees.leftAlone_receive _ hwatchable
      rw [Engine.isOwned, Table.contains, ← Engine.ownerOf, howner]
      rfl
  | generate files => exact Or.inl (h.leftAlone_updateGenerated hspelled file)
  | flush paths =>
      exact Or.inl (h.leftAlone_flush (s.environment w.disk) h.plain hhas paths)
  | handle change => exact absurd trivial hdisturbs
  | ungenerate paths => exact absurd trivial hdisturbs
  | restart concurrency => exact absurd trivial hdisturbs
  | _ => exact absurd rfl hcalm

theorem unowned_happen (h : w.engine.Attends) (hnone : w.engine.ownerOf file = none)
    {event : Event} (hspelled : Spelled event) (hdisturbs : ¬ w.Disturbs part file event) :
    (happen s w event).engine.ownerOf file = none := by
  by_cases hcalm : isCalm event = true
  · exact ((calm_happen h.agrees hcalm).leftAlone file).owner.trans hnone
  cases event with
  | submit parts =>
      apply h.agrees.unowned_updateParts hnone
      exact fun prepared hprepared hfile => hdisturbs ⟨prepared, hprepared, Or.inr hfile⟩
  | removeParts ids => exact h.agrees.unowned_removeParts hnone ids
  | receive =>
      show (World.receive _ w.engine).ownerOf file = none
      unfold World.receive
      split
      · rename_i change watcher _hreceived
        exact Engine.Agrees.unowned_handleChange (h.agrees.with_watcher watcher) hnone change
      · exact hnone
  | generate files => exact (h.leftAlone_updateGenerated hspelled file).owner.trans hnone
  | flush paths => exact hnone
  | handle change => exact absurd trivial hdisturbs
  | ungenerate paths => exact absurd trivial hdisturbs
  | restart concurrency => exact absurd trivial hdisturbs
  | _ => exact absurd rfl hcalm

/-- The part of a file has it and covers it, and whether its removal is announced. -/
structure Holds (part : PartId) (file : FileId) (announced : Prop) (e : Engine) : Prop where
  owner : e.ownerOf file = some part
  covered : e.Covers file
  watchable : e.watcher.isUnwatchable file = false
  announced : e.watcher.Announces file ↔ announced

theorem Holds.leftAlone {announced : Prop} {e e' : Engine} (h : Holds part file announced e)
    (halone : Engine.LeftAlone file e e') : Holds part file announced e' where
  owner := halone.owner.trans h.owner
  covered := halone.covered h.covered
  watchable := halone.watchable h.watchable
  announced := halone.announced.trans h.announced

theorem holds_run {announced : Prop} (h : w.engine.Minds)
    (hholds : Holds part file announced w.engine ∨ announced ∧ w.engine.ownerOf file = none)
    {history : List Event} (hhistory : Undisturbed s part file w history) :
    Holds part file announced (run s w history).engine ∨
      announced ∧ (run s w history).engine.ownerOf file = none := by
  induction history generalizing w with
  | nil => exact hholds
  | cons event rest ih =>
      rcases hhistory with ⟨hhas, hspelled, hdisturbs, hrest⟩
      refine ih (minds_happen h hspelled (isOrdinary_of_not_disturbs hdisturbs)) ?_ hrest
      rcases hholds with hholds | ⟨hannounced, hnone⟩
      · rcases leftAlone_happen (s := s) h hholds.owner hholds.watchable hhas hspelled
          hdisturbs with halone | ⟨hannounces, hlost⟩
        · exact Or.inl (hholds.leftAlone halone)
        · exact Or.inr ⟨hholds.announced.mp hannounces, hlost⟩
      · exact Or.inr ⟨hannounced, unowned_happen h.toAttends hnone hspelled hdisturbs⟩

/--
Parts are submitted, of which `part` is the last one with its id, and `file` is one of its
files that can be watched. Whatever happens after that, in any order: if the file is there
all the time, nothing asks for it or for its part, and all notifications are handled in
the end, then the part still owns the file and the file is watched or generated exactly
if no notification of its removal waited when the parts were submitted.
-/
theorem submitted_file_stays_iff (hw : w.Regular s) {parts : List Part}
    (hspelled : forall part, part ∈ parts -> forall p, p ∈ part.files -> p.IsText)
    {before after : List PreparedPart} {part : PreparedPart}
    (haccepted : (Engine.prepare ∅ w.engine parts).1.1 = before ++ part :: after)
    (hlast : part.id ∉ after.map PreparedPart.id) (hfile : file ∈ part.files)
    (hwatchable : (happen s w (.submit parts)).engine.watcher.isUnwatchable file = false)
    {later : List Event}
    (hlater : Undisturbed s part.id file (happen s w (.submit parts)) later)
    (hhandled : (run s w (.submit parts :: later)).engine.watcher.outbox = []) :
    let e := (run s w (.submit parts :: later)).engine
    (e.ownerOf file = some part.id ∧ (e.watcher.isWatched file = true ∨ e.IsGenerated file)) ↔
      ¬ exists files, .removed files ∈ w.engine.watcher.outbox ∧ file ∈ files := by
  intro e
  have hattends := hw.minds
  rcases hattends.covers_updateParts hspelled haccepted hlast hfile hwatchable with
    ⟨howner, hcovers, hannounces⟩
  have hsubmitted : (happen s w (.submit parts)).engine.Minds :=
    minds_happen hattends hspelled rfl
  have hnone : ¬ e.watcher.Announces file := by
    rintro ⟨files, hfiles, -⟩
    rw [show e.watcher.outbox = [] from hhandled] at hfiles
    cases hfiles
  have hholds : Holds part.id file (w.engine.watcher.Announces file)
      (happen s w (.submit parts)).engine := ⟨howner, hcovers, hwatchable, hannounces⟩
  rcases holds_run hsubmitted (Or.inl hholds) hlater with hholds | ⟨hannounced, hlost⟩
  · exact iff_of_true ⟨hholds.owner, hholds.covered⟩
      (fun hwaits => hnone (hholds.announced.mpr hwaits))
  · refine iff_of_false ?_ (fun hnotice => hnotice hannounced)
    rintro ⟨howner, -⟩
    rw [show e.ownerOf file = none from hlost] at howner
    cases howner

/-!
# A file that changes and one that comes back
-/

def fileA : Path := .ofString "/w/a"

theorem has_of_doesExist {p : Path} (hp : w.engine.path? file = some p)
    (hexists : w.disk.doesExist p = true) : w.Has file := ⟨p, hp, Or.inr hexists⟩

/-- The file is written, which is reported, and the report is handled. -/
def rewriting : List Event := [.edit (.write fileA [0] 1), .flush [fileA], .receive]

/-- A file that changes after its part was submitted stays. -/
theorem rewritten_file_stays :
    let e := (run lastArgument (fresh oneFileDisk 1)
      (.submit [partWith ["-O0"]] :: rewriting)).engine
    e.ownerOf ⟨1⟩ = some ⟨"app"⟩ ∧ (e.watcher.isWatched ⟨1⟩ = true ∨ e.IsGenerated ⟨1⟩) := by
  have hthere : forall {w : World}, w.engine.path? ⟨1⟩ = some fileA ->
      w.disk.doesExist fileA = true -> w.Has ⟨1⟩ := has_of_doesExist
  have haccepted : (Engine.prepare ∅ (fresh oneFileDisk 1).engine [partWith ["-O0"]]).1.1 =
      [] ++ ⟨⟨"app"⟩, ["-O0"], [⟨1⟩]⟩ :: [] := by decide +kernel
  have hlater : Undisturbed lastArgument ⟨"app"⟩ ⟨1⟩
      (happen lastArgument (fresh oneFileDisk 1) (.submit [partWith ["-O0"]])) rewriting :=
    ⟨hthere (by decide +kernel) (by decide +kernel), trivial, id,
      hthere (by decide +kernel) (by decide +kernel), trivial, id,
      hthere (by decide +kernel) (by decide +kernel), trivial, id, trivial⟩
  refine (submitted_file_stays_iff ⟨oneFileDisk, 1, [], rfl, by simp⟩ (by decide)
    haccepted (by decide) (by decide) (by decide +kernel) hlater (by decide +kernel)).mpr ?_
  rintro ⟨files, hfiles, -⟩
  cases hfiles

/-- A file is deleted, which is reported but not handled yet, and it is written again. -/
def restored : World :=
  run lastArgument (fresh oneFileDisk 1)
    [.submit [partWith ["-O0"]], .work 0, .work 0, .work 0, .dispatch, .edit (.delete fileA),
      .flush [fileA], .edit (.write fileA [0] 1)]

/--
The part is submitted again, and its file is there at that time and later. It is watched
and its task is handed out, but then the notification of its removal is handled.
-/
theorem restored_file_is_lost :
    let submitted := happen lastArgument restored (.submit [partWith ["-O0"]])
    let handled := run lastArgument submitted [.receive, .work 1, .work 1, .work 1, .sweep]
    restored.Regular lastArgument ∧
      (Engine.updateParts (lastArgument.environment restored.disk) restored.engine
        [partWith ["-O0"]]).1 = ⟨1, 0, []⟩ ∧
      restored.Has ⟨1⟩ ∧ submitted.engine.ownerOf ⟨1⟩ = some ⟨"app"⟩ ∧
      submitted.engine.watcher.isWatched ⟨1⟩ = true ∧
      handled.disk = restored.disk ∧ handled.Has ⟨1⟩ ∧ handled.AtRest ∧
      handled.engine.watcher.outbox = [] ∧ handled.engine.ownerOf ⟨1⟩ = none ∧
      handled.engine.watcher.isWatched ⟨1⟩ = false := by
  exact ⟨⟨oneFileDisk, 1, _, rfl, by decide⟩, by decide +kernel,
    has_of_doesExist (p := fileA) (by decide +kernel) (by decide +kernel), by decide +kernel,
    by decide +kernel, rfl,
    has_of_doesExist (p := fileA) (by decide +kernel) (by decide +kernel), by decide +kernel⟩

end World
end SymbolIndex
