import SymbolIndex.Proofs.Engine.Release

/-!
# Taking files over

A part that is applied takes its files away from the parts that had them. It may be
stored anew or found stored as it is; either way memory and store agree afterwards that
the part owns exactly its files.
-/

namespace SymbolIndex
namespace Engine

variable {e e' : Engine} {part : PreparedPart}

/-!
# Leaving the former parts
-/

/-- A file that a snapshot lists is owned by the part of the snapshot. -/
def ListedByOwner (e : Engine) : Prop :=
  forall part snapshot file, e.parts.get? part = some snapshot -> file ∈ snapshot.files ->
    e.ownerOf file = some part

theorem Agrees.listedByOwner (h : e.Agrees) : e.ListedByOwner := by
  intro part snapshot file hsnapshot hfile
  exact (h.owned file part).mpr ⟨snapshot, hsnapshot, hfile⟩

theorem takeOver_spec (h : e.ListedByOwner) (claimant : PartId) (file : FileId) :
    exists parts, takeOver claimant e file = { e with parts } ∧
      forall other, parts.get? other =
        if other = claimant then e.parts.get? other
        else (e.parts.get? other).map (Snapshot.without [file]) := by
  -- a part that does not own the file does not list it
  have hsame : forall other, e.ownerOf file ≠ some other ->
      (e.parts.get? other).map (Snapshot.without [file]) = e.parts.get? other := by
    intro other hne
    cases hsnapshot : e.parts.get? other with
    | none => rfl
    | some snapshot =>
        rw [Option.map_some, Snapshot.without_eq_self]
        intro listed hlisted hmem
        rw [List.mem_singleton.mp hmem] at hlisted
        exact hne (h other snapshot file hsnapshot hlisted)
  unfold takeOver
  cases howner : e.ownerOf file with
  | none =>
      refine ⟨e.parts, rfl, ?_⟩
      intro other
      rw [hsame other (by rw [howner]; exact Option.some_ne_none other ∘ Eq.symm), ite_self]
  | some owner =>
      by_cases hclaimant : owner = claimant
      · refine ⟨e.parts, if_pos hclaimant, ?_⟩
        intro other
        by_cases hother : other = claimant
        · rw [if_pos hother]
        · rw [if_neg hother, hsame]
          rw [howner]
          exact fun heq => hother ((Option.some.inj heq).symm.trans hclaimant)
      · refine ⟨_, if_neg hclaimant, ?_⟩
        intro other
        rw [Table.get?_adjust]
        by_cases hother : owner = other
        · rw [if_pos hother, if_neg (hother ▸ hclaimant)]
          congr 1
          funext snapshot
          simp [Snapshot.without]
        · rw [if_neg hother, hsame, ite_self]
          rw [howner]
          exact fun heq => hother (Option.some.inj heq)

theorem foldl_takeOver_spec (h : e.ListedByOwner) (claimant : PartId) (files : List FileId) :
    exists parts, files.foldl (takeOver claimant) e = { e with parts } ∧
      forall other, parts.get? other =
        if other = claimant then e.parts.get? other
        else (e.parts.get? other).map (Snapshot.without files) := by
  induction files generalizing e with
  | nil =>
      refine ⟨e.parts, rfl, ?_⟩
      intro other
      rw [Snapshot.without_nil, Option.map_id_fun, id, ite_self]
  | cons file rest ih =>
      rcases takeOver_spec h claimant file with ⟨parts, htake, hparts⟩
      have hlisted : ({ e with parts } : Engine).ListedByOwner := by
        intro other snapshot listed hsnapshot hmem
        have hget : parts.get? other = some snapshot := hsnapshot
        rw [hparts] at hget
        split at hget
        · exact h other snapshot listed hget hmem
        · rcases Option.map_eq_some_iff.mp hget with ⟨old, hold, rfl⟩
          exact h other old listed hold (Snapshot.mem_without.mp hmem).1
      rcases ih hlisted with ⟨parts', htake', hparts'⟩
      refine ⟨parts', ?_, ?_⟩
      · rw [List.foldl_cons, htake, htake']
      · intro other
        rw [hparts', hparts]
        by_cases hother : other = claimant
        · rw [if_pos hother, if_pos hother, if_pos hother]
        · rw [if_neg hother, if_neg hother, if_neg hother, Option.map_map]
          congr 1
          funext snapshot
          exact Snapshot.without_without [file] rest snapshot

/-!
# Becoming the owner
-/

/-- What changes when a part becomes the owner of its files. -/
structure Adopted (part : PreparedPart) (e e' : Engine) : Prop where
  owners : forall file, e'.ownerOf file =
    if file ∈ part.files then some part.id else e.ownerOf file
  parts : forall id, e'.parts.get? id =
    if id = part.id then some ⟨part.arguments, part.files⟩
    else (e.parts.get? id).map (Snapshot.without part.files)
  members : forall file, e'.storage.store.members.get? file =
    if file ∈ part.files then some part.id else e.storage.store.members.get? file
  stored : forall id, e'.storage.store.parts.get? id =
    if part.id = id then some (.written part.arguments) else e.storage.store.parts.get? id
  sources : e'.storage.store.sources = e.storage.store.sources
  statuses : forall file, e'.storage.store.statuses.get? file =
    (e.storage.store.statuses.get? file).filter fun row =>
      !Store.takesAway part.id part.files file row.part
  records : forall file,
    e'.storage.store.statuses.get? file = e.storage.store.statuses.get? file ->
      e'.storage.store.recordsAt file = e.storage.store.recordsAt file
  book : e'.book = e.book
  overlay : e'.overlay = e.overlay
  scheduler : e'.scheduler = e.scheduler
  watcher : e'.watcher = e.watcher

/-- Where a part became the owner of all its members, memory, store and queue still agree. -/
theorem Agrees.of_adopted (h : e.Agrees) (hadopted : Adopted part e e')
    (hstore : e'.storage.store.Sound)
    (hall : forall file, e.storage.store.members.get? file = some part.id ->
      file ∈ part.files) : e'.Agrees where
  store := hstore
  book := by
    rw [hadopted.book]
    exact h.book.of_sources_eq hadopted.sources
  queue := by
    rw [hadopted.scheduler]
    exact h.queue
  owned := by
    intro file id
    rw [hadopted.owners, hadopted.parts]
    by_cases hfile : file ∈ part.files
    · rw [if_pos hfile]
      constructor
      · intro heq
        rw [if_pos (Option.some.inj heq).symm]
        exact ⟨_, rfl, hfile⟩
      · rintro ⟨snapshot, hsnapshot, hmem⟩
        split at hsnapshot
        · rename_i hid
          rw [hid]
        · rcases Option.map_eq_some_iff.mp hsnapshot with ⟨old, -, rfl⟩
          exact absurd hfile (Snapshot.mem_without.mp hmem).2
    · rw [if_neg hfile, h.owned]
      by_cases hid : id = part.id
      · rw [if_pos hid]
        constructor
        · rintro ⟨snapshot, hsnapshot, hmem⟩
          rw [hid] at hsnapshot
          exact absurd (hall file ((h.members _ _ hsnapshot file).mp hmem)) hfile
        · rintro ⟨snapshot, hsnapshot, hmem⟩
          cases hsnapshot
          exact absurd hmem hfile
      · rw [if_neg hid]
        constructor
        · rintro ⟨snapshot, hsnapshot, hmem⟩
          refine ⟨snapshot.without part.files, ?_, Snapshot.mem_without.mpr ⟨hmem, hfile⟩⟩
          rw [hsnapshot, Option.map_some]
        · rintro ⟨snapshot, hsnapshot, hmem⟩
          rcases Option.map_eq_some_iff.mp hsnapshot with ⟨old, hold, rfl⟩
          exact ⟨old, hold, (Snapshot.mem_without.mp hmem).1⟩
  members := by
    intro id snapshot hsnapshot file
    rw [hadopted.parts] at hsnapshot
    rw [hadopted.members]
    split at hsnapshot
    · rename_i hid
      cases hsnapshot
      by_cases hfile : file ∈ part.files
      · simp [hfile, hid]
      · rw [if_neg hfile, hid]
        exact ⟨fun hmem => absurd hmem hfile, fun hmember => absurd (hall file hmember) hfile⟩
    · rename_i hid
      rcases Option.map_eq_some_iff.mp hsnapshot with ⟨old, hold, rfl⟩
      rw [Snapshot.mem_without, h.members id old hold]
      by_cases hfile : file ∈ part.files
      · simp [hfile, Ne.symm hid]
      · simp [hfile]
  arguments := by
    intro id snapshot hsnapshot
    rw [hadopted.parts] at hsnapshot
    rw [hadopted.stored]
    split at hsnapshot
    · rename_i hid
      cases hsnapshot
      rw [if_pos hid.symm]
    · rename_i hid
      rcases Option.map_eq_some_iff.mp hsnapshot with ⟨old, hold, rfl⟩
      rw [if_neg (Ne.symm hid)]
      exact h.arguments id old hold
  pending := by
    intro file task htask
    rw [hadopted.scheduler] at htask
    rw [hadopted.owners]
    split
    · exact ⟨part.id, rfl⟩
    · exact h.pending file task htask

theorem get?_owners_adopt (e : Engine) (part : PreparedPart) (file : FileId) :
    (e.adopt part).ownerOf file =
      if file ∈ part.files then some part.id else e.ownerOf file :=
  Table.get?_foldl_insert part.files e.owners part.id file

theorem get?_parts_adopt {e taken : Engine}
    (hparts : forall id, taken.parts.get? id =
      if id = part.id then e.parts.get? id
      else (e.parts.get? id).map (Snapshot.without part.files)) (id : PartId) :
    (taken.adopt part).parts.get? id =
      if id = part.id then some ⟨part.arguments, part.files⟩
      else (e.parts.get? id).map (Snapshot.without part.files) := by
  show (taken.parts.insert part.id ⟨part.arguments, part.files⟩).get? id = _
  rw [Table.get?_insert, hparts]
  by_cases hid : id = part.id
  · rw [if_pos hid.symm, if_pos hid]
  · rw [if_neg (Ne.symm hid), if_neg hid, if_neg hid]

/-- A part that is stored already, with all its files, is adopted in memory alone. -/
theorem Agrees.adopted_of_stored (h : e.Agrees) {parts : Table PartId Snapshot}
    (hparts : forall id, parts.get? id =
      if id = part.id then e.parts.get? id
      else (e.parts.get? id).map (Snapshot.without part.files))
    (hmembers : forall file, file ∈ part.files ->
      e.storage.store.members.get? file = some part.id)
    (hstored : e.storage.store.parts.get? part.id = some (.written part.arguments)) :
    Adopted part e (({ e with parts } : Engine).adopt part) where
  owners := get?_owners_adopt _ part
  parts := get?_parts_adopt hparts
  members := by
    intro file
    by_cases hfile : file ∈ part.files
    · rw [if_pos hfile]
      exact hmembers file hfile
    · rw [if_neg hfile]
      rfl
  stored := by
    intro id
    by_cases hid : part.id = id
    · rw [if_pos hid, ← hid]
      exact hstored
    · rw [if_neg hid]
      rfl
  sources := rfl
  statuses := by
    intro file
    cases hrow : e.storage.store.statuses.get? file with
    | none => exact hrow
    | some row =>
        have hkept : Store.takesAway part.id part.files file row.part = false := by
          unfold Store.takesAway
          cases hfile : part.files.contains file with
          | false => rfl
          | true =>
              have hmember := h.store.tracked file row hrow
              rw [hmembers file (by simpa using hfile)] at hmember
              simp [Option.some.inj hmember]
        rw [Option.filter_some, hkept]
        exact hrow
  records := fun _ _ => rfl
  book := rfl
  overlay := rfl
  scheduler := rfl
  watcher := rfl

/-- A part that is stored anew takes its files away from others. -/
theorem Agrees.adopted_of_updated (h : e.Agrees) {parts : Table PartId Snapshot}
    (hparts : forall id, parts.get? id =
      if id = part.id then e.parts.get? id
      else (e.parts.get? id).map (Snapshot.without part.files))
    (hall : forall file, e.storage.store.members.get? file = some part.id ->
      file ∈ part.files) {s : Store}
    (hs : e.storage.store.updatePart part.id part.arguments part.files = .ok s) :
    Adopted part e
      (({ e with parts, storage := e.storage.advance true s } : Engine).adopt part) where
  owners := get?_owners_adopt _ part
  parts := get?_parts_adopt hparts
  members := by
    intro file
    apply (Store.get?_members_updatePart hs file).trans
    by_cases hfile : file ∈ part.files
    · rw [if_pos hfile, if_pos hfile]
    · rw [if_neg hfile, if_neg hfile]
      cases howner : e.storage.store.members.get? file with
      | none => rfl
      | some owner =>
          have hne : owner ≠ part.id := by
            rintro rfl
            exact hfile (hall file howner)
          rw [Option.filter_some, if_pos (decide_eq_true hne)]
  stored := Store.get?_parts_updatePart hs
  sources := Store.sources_updatePart hs
  statuses := Store.get?_statuses_updatePart hs
  records := by
    intro file hstatus
    have hdrop := h.store.recordsAt_drop (Store.takesAway part.id part.files) file
    rw [← Store.get?_statuses_updatePart hs, ← Store.recordsAt_updatePart hs] at hdrop
    have hkept : s.statuses.get? file = e.storage.store.statuses.get? file := hstatus
    apply hdrop.trans
    rw [hkept]
    cases hrow : e.storage.store.statuses.get? file with
    | some row => rfl
    | none => exact (h.store.blank file hrow).symm
  book := rfl
  overlay := rfl
  scheduler := rfl
  watcher := rfl

/--
A part whose former members all are among its files becomes their owner. Where the store
is not written, it must hold the part as it is already.
-/
theorem Agrees.adopt (h : e.Agrees) (changed : Bool)
    (hall : forall file, e.storage.store.members.get? file = some part.id ->
      file ∈ part.files)
    (hsources : forall file, file ∈ part.files -> e.storage.store.hasSource file = true)
    (hsame : changed = false ->
      (forall file, file ∈ part.files -> e.storage.store.members.get? file = some part.id) ∧
        e.storage.store.parts.get? part.id = some (.written part.arguments)) :
    exists e', (part.files.foldl (takeOver part.id) e).storePart part changed = .ok e' ∧
      Adopted part e (e'.adopt part) ∧ (e'.adopt part).Agrees := by
  rcases foldl_takeOver_spec h.listedByOwner part.id part.files with ⟨parts, htake, hparts⟩
  rw [htake]
  cases changed with
  | false =>
      rcases hsame rfl with ⟨hmembers, hstored⟩
      have hadopted := h.adopted_of_stored hparts hmembers hstored
      exact ⟨_, rfl, hadopted, h.of_adopted hadopted h.store hall⟩
  | true =>
      rcases Store.updatePart_isOk part.id part.arguments hsources with ⟨s, hs⟩
      have hsound : s.Sound := by
        apply h.store.updatePart hs
        intro file hmember hfile
        exact absurd (hall file hmember) hfile
      have hstorePart : ({ e with parts } : Engine).storePart part true =
          .ok { e with parts, storage := e.storage.advance true s } := by
        simp [storePart, Storage.updatePart, hs, Except.map]
      have hadopted := h.adopted_of_updated hparts hall hs
      exact ⟨_, hstorePart, hadopted, h.of_adopted hadopted hsound hall⟩

end Engine
end SymbolIndex
