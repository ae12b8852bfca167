import SymbolIndex.Proofs.Engine.Acceptance
import SymbolIndex.Proofs.Engine.Whole
import SymbolIndex.Proofs.Engine.Traces

/-!
# Retiring files

A notification of removed files retires those that are owned and can be watched, and it
detaches those that cannot. Removing parts retires all their members and drops the parts.
Both take what they say and leave everything else as it was.
-/

namespace SymbolIndex
namespace Engine

variable {e : Engine} {id : PartId} {files : List FileId}

theorem Whole.retires_handleRemoved (h : e.Whole) (files : List FileId) :
    Retires ((files.filter e.isOwned).filter fun file => !e.watcher.isUnwatchable file)
      ((files.filter e.isOwned).filter e.watcher.isUnwatchable) [] e (e.handleRemoved files).2 := by
  have hdetached := h.agrees.retires_detach
    ((files.filter e.isOwned).filter e.watcher.isUnwatchable)
  have hwhole := h.detach ((files.filter e.isOwned).filter e.watcher.isUnwatchable)
  have hretired := hdetached.trans (hwhole.agrees.retires_retire hwhole.watcher
    ((files.filter e.isOwned).filter fun file => !e.watcher.isUnwatchable file))
  rw [List.append_nil, List.nil_append] at hretired
  exact hretired

theorem Whole.nodup_known (h : e.Whole) (id : PartId) :
    (((e.known id).map Snapshot.files).getD []).Nodup := by
  unfold known
  cases hsnapshot : e.parts.get? id with
  | some snapshot => exact h.once id snapshot hsnapshot
  | none =>
      dsimp only
      split
      · exact nodup_membersOf _ id
      · exact List.nodup_nil

theorem Whole.retires_removePart (h : e.Whole)
    (hfiles : forall file, file ∈ files ↔ e.storage.store.members.get? file = some id) :
    Retires files [] [id] e (e.removePart id files).2 := by
  have hretired := h.agrees.retires_retire h.watcher files
  have hdropped := (h.retire files).agrees.retires_dropPart (h.agrees.members_retire_ne hfiles)
  rw [h.agrees.removePart_eq hfiles]
  have hboth := hretired.trans hdropped
  rw [List.append_nil] at hboth
  exact hboth

theorem Agrees.count_removePart (h : e.Agrees)
    (hfiles : forall file, file ∈ files ↔ e.storage.store.members.get? file = some id) :
    (e.removePart id files).1 = files.length := by
  unfold Engine.removePart
  dsimp only
  rw [h.filter_isFreeFor hfiles]

/-- The members of all the parts are retired, each counted once. -/
theorem Whole.retires_removeParts (h : e.Whole) (ids : List PartId) :
    exists gone : List FileId, gone.Nodup ∧
      (forall file, file ∈ gone ↔
        exists id, id ∈ ids ∧ e.storage.store.members.get? file = some id) ∧
      (e.removeParts ids).1 = .ok gone.length ∧ Retires gone [] ids e (e.removeParts ids).2 := by
  induction ids generalizing e with
  | nil => exact ⟨[], List.nodup_nil, by simp, rfl, Retires.refl e⟩
  | cons id rest ih =>
      have hmember := h.agrees.mem_known_files id
      have hone := h.retires_removePart hmember
      have hcount := h.agrees.count_removePart hmember
      have hnodup := h.nodup_known id
      rcases ih (h.removePart hmember) with ⟨more, hmore, hmembers, hresult, hrest⟩
      rw [Engine.removeParts, h.agrees.filesOf_eq]
      generalize ((e.known id).map Snapshot.files).getD [] = first at *
      -- a file of the first part is no member any more when the others are removed
      have hlater : forall file other, file ∉ first ->
          ((e.removePart id first).2.storage.store.members.get? file = some other ↔
            e.storage.store.members.get? file = some other) := by
        intro file other hfile
        have hsame := congrArg Traces.member (hone.others file hfile List.not_mem_nil)
        exact Eq.congr_left hsame
      have hapart : forall file, file ∈ first -> file ∉ more := by
        intro file hfile hagain
        rcases (hmembers file).mp hagain with ⟨other, -, hother⟩
        have hnone := congrArg Traces.member (hone.traceless file hfile)
        exact absurd (hother.symm.trans hnone) (Option.some_ne_none other)
      refine ⟨first ++ more, List.nodup_append'.mpr ⟨hnodup, hmore, hapart⟩, ?_, ?_, ?_⟩
      · intro file
        constructor
        · intro hfile
          rcases List.mem_append.mp hfile with hfirst | hagain
          · exact ⟨id, List.mem_cons_self, (hmember file).mp hfirst⟩
          · rcases (hmembers file).mp hagain with ⟨other, hother, hlists⟩
            have hnot : file ∉ first := fun hfirst => hapart file hfirst hagain
            exact ⟨other, List.mem_cons_of_mem _ hother, (hlater file other hnot).mp hlists⟩
        · rintro ⟨other, hother, hlists⟩
          apply List.mem_append.mpr
          by_cases hfirst : file ∈ first
          · exact Or.inl hfirst
          · right
            rcases List.mem_cons.mp hother with rfl | hlate
            · exact absurd ((hmember file).mpr hlists) hfirst
            · exact (hmembers file).mpr ⟨other, hlate, (hlater file other hfirst).mpr hlists⟩
      · dsimp only
        rw [hresult, hcount, List.length_append]
        rfl
      · exact hone.trans hrest

theorem Retires.parts_eq {gone kept : List FileId} {removed : List PartId} {e e' : Engine}
    (hretires : Retires gone kept removed e e') (h : e.Agrees) {part : PartId}
    (hpart : part ∉ removed)
    (hothers : forall file, file ∈ gone -> e.storage.store.members.get? file ≠ some part) :
    e'.parts.get? part = e.parts.get? part := by
  rw [hretires.snapshots, if_neg hpart]
  cases hsnapshot : e.parts.get? part with
  | none => rfl
  | some snapshot =>
      rw [Option.map_some, Snapshot.without_eq_self]
      intro file hfile hgone
      exact hothers file hgone ((h.members part snapshot hsnapshot file).mp hfile)

end Engine

namespace World

variable {s : Surroundings} {w : World}

/--
Retiring leaves no trace and touches nothing else. A notification of removed files makes
those of them `gone` that are owned and can be watched, and those that are owned and cannot
be watched lose what came from their contents; removing parts makes all their members
`gone`, and the parts go as well. The answer counts the files that are gone.
-/
theorem retiring_leaves_no_trace (h : w.Reachable s) :
    let e := w.engine
    (forall env ids, ids.Nodup -> exists gone kept : List FileId, gone.Nodup ∧
      (forall file, file ∈ gone ↔
        file ∈ ids ∧ e.isOwned file = true ∧ e.watcher.isUnwatchable file = false) ∧
      (forall file, file ∈ kept ↔
        file ∈ ids ∧ e.isOwned file = true ∧ e.watcher.isUnwatchable file = true) ∧
      exists e', Engine.handleChange env e (.removed ids) = (gone.length, e') ∧
        Engine.Retires gone kept [] e e' ∧ e'.watcher.Whole e'.storage.store.source?) ∧
    forall ids : List PartId, exists gone : List FileId, gone.Nodup ∧
      (forall file, file ∈ gone ↔
        exists id, id ∈ ids ∧ e.storage.store.members.get? file = some id) ∧
      exists e', e.removeParts ids = (.ok gone.length, e') ∧
        Engine.Retires gone [] ids e e' ∧ e'.watcher.Whole e'.storage.store.source? ∧
        forall part, part ∉ ids -> e'.parts.get? part = e.parts.get? part := by
  intro e
  have hwhole : e.Whole := h.whole
  constructor
  · intro env ids hids
    have hafter : (Engine.handleChange env e (.removed ids)).2.Whole :=
      hwhole.handleChange (.removed ids)
    refine ⟨(ids.filter e.isOwned).filter fun file => !e.watcher.isUnwatchable file,
      (ids.filter e.isOwned).filter e.watcher.isUnwatchable, (hids.filter _).filter _, ?_, ?_,
      (e.handleRemoved ids).2, rfl, hwhole.retires_handleRemoved ids, hafter.watcher⟩
    · intro file
      rw [List.mem_filter, List.mem_filter, Bool.not_eq_true', and_assoc]
    · intro file
      rw [List.mem_filter, List.mem_filter, and_assoc]
  · intro ids
    rcases hwhole.retires_removeParts ids with ⟨gone, hnodup, hmembers, hresult, hretires⟩
    refine ⟨gone, hnodup, hmembers, (e.removeParts ids).2, Prod.ext hresult rfl, hretires,
      (hwhole.removeParts ids).watcher, ?_⟩
    intro part hpart
    apply hretires.parts_eq hwhole.agrees hpart
    intro file hgone hmember
    rcases (hmembers file).mp hgone with ⟨id, hid, hsame⟩
    rw [hsame] at hmember
    cases hmember
    exact hpart hid

/-- The file of a part is indexed. -/
def indexed : World :=
  run lastArgument (fresh oneFileDisk 1)
    [.submit [partWith ["-O0"]], .work 0, .work 0, .work 0]

/-- The file is retired when it is reported as removed, and when its part is removed. -/
theorem indexed_file_is_retired :
    let e := indexed.engine
    let reported := Engine.handleChange (lastArgument.environment indexed.disk) e (.removed [⟨1⟩])
    let removed := e.removeParts [⟨"app"⟩]
    e.storage.store.recordsAt ⟨1⟩ ≠ ([], []) ∧ e.watcher.isWatched ⟨1⟩ = true ∧
      reported.1 = 1 ∧ reported.2.traces ⟨1⟩ = .none ∧
      removed.1 = .ok 1 ∧ removed.2.traces ⟨1⟩ = .none := by
  have hreachable : indexed.Reachable lastArgument := ⟨oneFileDisk, 1, _, rfl⟩
  rcases retiring_leaves_no_trace hreachable with ⟨hreported, hremoved⟩
  refine ⟨by decide +kernel, by decide +kernel, by decide +kernel, ?_, by decide +kernel, ?_⟩
  · rcases hreported (lastArgument.environment indexed.disk) [⟨1⟩] (by decide) with
      ⟨gone, kept, -, hgone, -, e', hhandled, hretires, -⟩
    rw [hhandled]
    exact hretires.traceless ⟨1⟩ ((hgone ⟨1⟩).mpr (by decide +kernel))
  · rcases hremoved [⟨"app"⟩] with ⟨gone, -, hgone, e', hcalled, hretires, -⟩
    rw [hcalled]
    exact hretires.traceless ⟨1⟩ ((hgone ⟨1⟩).mpr ⟨⟨"app"⟩, by decide, by decide +kernel⟩)

end World
end SymbolIndex
