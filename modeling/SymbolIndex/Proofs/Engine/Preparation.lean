import SymbolIndex.Proofs.Engine.Ownership
import SymbolIndex.Proofs.FileId

/-!
# Checking a submission

Checking issues ids for the paths of the parts and changes nothing else. The parts that
pass have no file in common, and each lists the ids of the normal forms of its paths.
-/

namespace SymbolIndex
namespace Engine

/-- An engine that issued ids for some paths. -/
structure Interned (e e' : Engine) : Prop where
  grown : PathBook.Grown e.storage.store e'.storage.store
  rest : e' = { e with book := e'.book }.withStore e'.storage.store

namespace Interned

variable {e e' e'' : Engine}

theorem refl (e : Engine) : Interned e e := ⟨PathBook.grown_refl _, rfl⟩

theorem trans (h : Interned e e') (h' : Interned e' e'') : Interned e e'' where
  grown := h.grown.trans h'.grown
  rest := by
    have hrest := h'.rest
    rw [h.rest] at hrest
    exact hrest

theorem storeRest (h : Interned e e') :
    e'.storage.store = { e.storage.store with sources := e'.storage.store.sources } :=
  h.grown.rest

theorem overlay (h : Interned e e') : e'.overlay = e.overlay := by rw [h.rest]; rfl

theorem scheduler (h : Interned e e') : e'.scheduler = e.scheduler := by rw [h.rest]; rfl

theorem watcher (h : Interned e e') : e'.watcher = e.watcher := by rw [h.rest]; rfl

theorem parts (h : Interned e e') : e'.parts = e.parts := by rw [h.rest]; rfl

theorem owners (h : Interned e e') : e'.owners = e.owners := by rw [h.rest]; rfl

theorem members (h : Interned e e') : e'.storage.store.members = e.storage.store.members := by
  rw [h.storeRest]

theorem stored (h : Interned e e') : e'.storage.store.parts = e.storage.store.parts := by
  rw [h.storeRest]

theorem statuses (h : Interned e e') : e'.storage.store.statuses = e.storage.store.statuses := by
  rw [h.storeRest]

theorem recordsAt (h : Interned e e') (file : FileId) :
    e'.storage.store.recordsAt file = e.storage.store.recordsAt file := by
  rw [h.storeRest]
  rfl

end Interned

theorem Agrees.intern {e : Engine} (h : e.Agrees) (p : Path) :
    (e.intern p).2.Agrees ∧ Interned e (e.intern p).2 ∧
      (e.intern p).2.storage.store.source? (e.intern p).1 = some p.normalize.display := by
  rcases h.book.intern p with ⟨hbook, hgrown, hsource⟩
  exact ⟨h.of_grown hbook hgrown, ⟨hgrown, rfl⟩, hsource⟩

theorem Agrees.internAll {e : Engine} (h : e.Agrees) (ps : List Path) :
    (e.internAll ps).2.Agrees ∧ Interned e (e.internAll ps).2 ∧
      List.Forall₂ (fun id p =>
          (e.internAll ps).2.storage.store.source? id = some p.normalize.display)
        (e.internAll ps).1 ps := by
  rcases h.book.internAll ps with ⟨hbook, hgrown, hsources⟩
  exact ⟨h.of_grown hbook hgrown, ⟨hgrown, rfl⟩, hsources⟩

/-!
# What issuing ids keeps
-/

section Kept

variable {P : Engine -> Prop} {Q : Path -> Prop}
  (hintern : forall e p, Q p -> P e -> P (e.intern p).2)

include hintern

theorem kept_internAll {e : Engine} {ps : List Path} (hps : forall p, p ∈ ps -> Q p) (h : P e) :
    P (e.internAll ps).2 := by
  induction ps generalizing e with
  | nil => exact h
  | cons p rest ih =>
      exact ih (fun q hq => hps q (List.mem_cons_of_mem _ hq))
        (hintern e p (hps p List.mem_cons_self) h)

theorem kept_prepareOne {e : Engine} (claimed : Table FileId PartId) {part : Part}
    (hpart : forall p, p ∈ part.files -> Q p) (h : P e) : P (e.prepareOne claimed part).2 := by
  unfold Engine.prepareOne
  cases part.problem? with
  | some reason => exact h
  | none =>
      dsimp only
      split <;> exact kept_internAll hintern hpart h

theorem kept_prepare {e : Engine} (claimed : Table FileId PartId) {parts : List Part}
    (hparts : forall part, part ∈ parts -> forall p, p ∈ part.files -> Q p) (h : P e) :
    P (Engine.prepare claimed e parts).2 := by
  induction parts generalizing e claimed with
  | nil => exact h
  | cons part rest ih =>
      have hone := kept_prepareOne hintern claimed (hparts part List.mem_cons_self) h
      have hrest := fun other hother => hparts other (List.mem_cons_of_mem part hother)
      rw [Engine.prepare]
      rcases hresult : e.prepareOne claimed part with ⟨failure | prepared, e'⟩
      · rw [hresult] at hone
        exact ih claimed hrest hone
      · rw [hresult] at hone
        exact ih (claim claimed prepared) hrest hone

end Kept

/-!
# Parts that pass
-/

/-- A part in the form in which it passed the checks. -/
structure Prepares (s : Store) (part : Part) (prepared : PreparedPart) : Prop where
  id : prepared.id = part.id
  arguments : prepared.arguments = part.commandLine
  nodup : prepared.files.Nodup
  files : forall p, p ∈ part.files ->
    exists file, file ∈ prepared.files ∧ s.source? file = some p.normalize.display
  sources : forall file, file ∈ prepared.files ->
    exists p, p ∈ part.files ∧ s.source? file = some p.normalize.display

theorem Prepares.of_grown {s t : Store} {part : Part} {prepared : PreparedPart}
    (h : Prepares s part prepared) (hgrown : PathBook.Grown s t) : Prepares t part prepared where
  id := h.id
  arguments := h.arguments
  nodup := h.nodup
  files := by
    intro p hp
    rcases h.files p hp with ⟨file, hfile, hsource⟩
    exact ⟨file, hfile, hgrown.sources _ _ hsource⟩
  sources := by
    intro file hfile
    rcases h.sources file hfile with ⟨p, hp, hsource⟩
    exact ⟨p, hp, hgrown.sources _ _ hsource⟩

theorem Prepares.hasSource {s : Store} {part : Part} {prepared : PreparedPart}
    (h : Prepares s part prepared) {file : FileId} (hfile : file ∈ prepared.files) :
    s.hasSource file = true := by
  rcases h.sources file hfile with ⟨p, -, hsource⟩
  exact (Store.hasSource_iff s file).mpr ⟨_, hsource⟩

theorem conflict?_eq_none_iff (claimed : Table FileId PartId) (files : List (FileId × Path)) :
    conflict? claimed files = none ↔ forall f, f ∈ files -> claimed.get? f.1 = none := by
  induction files with
  | nil => simp [conflict?]
  | cons f rest ih =>
      rcases f with ⟨file, p⟩
      rw [conflict?]
      cases hclaimed : claimed.get? file with
      | some first => simp [hclaimed]
      | none => simp [hclaimed, ih]

theorem get?_claim (claimed : Table FileId PartId) (part : PreparedPart) (file : FileId) :
    (claim claimed part).get? file =
      if file ∈ part.files then some part.id else claimed.get? file :=
  Table.get?_foldl_insert part.files claimed part.id file

theorem Agrees.prepareOne {e : Engine} (h : e.Agrees) (claimed : Table FileId PartId)
    (part : Part) :
    (e.prepareOne claimed part).2.Agrees ∧ Interned e (e.prepareOne claimed part).2 ∧
      forall prepared, (e.prepareOne claimed part).1 = .ok prepared ->
        Prepares (e.prepareOne claimed part).2.storage.store part prepared ∧
          forall file, file ∈ prepared.files -> claimed.get? file = none := by
  unfold Engine.prepareOne
  cases part.problem? with
  | some reason =>
      refine ⟨h, Interned.refl e, ?_⟩
      intro prepared hprepared
      cases hprepared
  | none =>
      rcases h.internAll part.files with ⟨hagrees, hinterned, hsources⟩
      dsimp only
      cases hconflict : conflict? claimed ((e.internAll part.files).1.zip part.files) with
      | some conflict =>
          refine ⟨hagrees, hinterned, ?_⟩
          intro prepared hprepared
          cases hprepared
      | none =>
          refine ⟨hagrees, hinterned, ?_⟩
          intro prepared hprepared
          cases hprepared
          rw [conflict?_eq_none_iff] at hconflict
          have hlength := hsources.length_eq
          refine ⟨⟨rfl, rfl, nodup_eraseDups _, ?_, ?_⟩, ?_⟩
          · intro p hp
            rcases List.getElem_of_mem hp with ⟨n, hn, rfl⟩
            have hn' : n < (e.internAll part.files).1.length := by rw [hlength]; exact hn
            exact ⟨_, List.mem_eraseDups.mpr (List.getElem_mem hn'),
              List.forall₂_iff_get.mp hsources |>.2 n hn' hn⟩
          · intro file hfile
            rcases List.getElem_of_mem (List.mem_eraseDups.mp hfile) with ⟨n, hn, rfl⟩
            have hn' : n < part.files.length := by rw [← hlength]; exact hn
            exact ⟨_, List.getElem_mem hn', List.forall₂_iff_get.mp hsources |>.2 n hn hn'⟩
          · intro file hfile
            rcases List.getElem_of_mem (List.mem_eraseDups.mp hfile) with ⟨n, hn, rfl⟩
            have hn' : n < part.files.length := by rw [← hlength]; exact hn
            have hzip : n < ((e.internAll part.files).1.zip part.files).length := by
              rw [List.length_zip]
              exact Nat.lt_min.mpr ⟨hn, hn'⟩
            have hfree := hconflict _ (List.getElem_mem hzip)
            rw [List.getElem_zip] at hfree
            exact hfree

/-- What the checks let through. -/
structure Accepted (e : Engine) (parts : List Part) (accepted : List PreparedPart) : Prop where
  ids : (accepted.map PreparedPart.id).Sublist (parts.map Part.id)
  prepares : forall prepared, prepared ∈ accepted ->
    exists part, part ∈ parts ∧ Prepares e.storage.store part prepared
  disjoint : accepted.Pairwise fun a b => forall file, file ∈ a.files -> file ∉ b.files

theorem Agrees.prepare {e : Engine} (h : e.Agrees) (claimed : Table FileId PartId)
    (parts : List Part) :
    (Engine.prepare claimed e parts).2.Agrees ∧
      Interned e (Engine.prepare claimed e parts).2 ∧
      Accepted (Engine.prepare claimed e parts).2 parts (Engine.prepare claimed e parts).1.1 ∧
      forall prepared, prepared ∈ (Engine.prepare claimed e parts).1.1 ->
        forall file, file ∈ prepared.files -> claimed.get? file = none := by
  induction parts generalizing e claimed with
  | nil =>
      exact ⟨h, Interned.refl e, ⟨by simp [Engine.prepare], by simp [Engine.prepare],
        by simp [Engine.prepare]⟩, by simp [Engine.prepare]⟩
  | cons part rest ih =>
      rcases h.prepareOne claimed part with ⟨hone, hinterned, hok⟩
      rw [Engine.prepare]
      rcases hresult : e.prepareOne claimed part with ⟨failure | prepared, e'⟩
      · rw [hresult] at hone hinterned
        rcases ih hone claimed with ⟨hagrees, hinterned', haccepted, hunclaimed⟩
        refine ⟨hagrees, hinterned.trans hinterned', ?_, hunclaimed⟩
        exact
          { ids := haccepted.ids.cons _
            prepares := by
              intro prepared hprepared
              rcases haccepted.prepares prepared hprepared with ⟨found, hfound, hprep⟩
              exact ⟨found, List.mem_cons_of_mem _ hfound, hprep⟩
            disjoint := haccepted.disjoint }
      · rw [hresult] at hone hinterned hok
        rcases hok prepared rfl with ⟨hprepares, hfree⟩
        rcases ih hone (claim claimed prepared) with
          ⟨hagrees, hinterned', haccepted, hunclaimed⟩
        refine ⟨hagrees, hinterned.trans hinterned', ?_, ?_⟩
        · refine
            { ids := ?_
              prepares := ?_
              disjoint := ?_ }
          · simp only [List.map_cons, hprepares.id]
            exact haccepted.ids.cons_cons _
          · intro other hother
            rcases List.mem_cons.mp hother with rfl | hrest
            · exact ⟨part, List.mem_cons_self, hprepares.of_grown hinterned'.grown⟩
            · rcases haccepted.prepares other hrest with ⟨found, hfound, hprep⟩
              exact ⟨found, List.mem_cons_of_mem _ hfound, hprep⟩
          · refine List.pairwise_cons.mpr ⟨?_, haccepted.disjoint⟩
            intro other hother file hfile hboth
            have hclaimed := hunclaimed other hother file hboth
            rw [get?_claim, if_pos hfile] at hclaimed
            cases hclaimed
        · intro other hother file hfile
          rcases List.mem_cons.mp hother with rfl | hrest
          · exact hfree file hfile
          · have hclaimed := hunclaimed other hrest file hfile
            rw [get?_claim] at hclaimed
            split at hclaimed
            · cases hclaimed
            · exact hclaimed

/-!
# Parts that have nothing in common
-/

/-- The texts by which a store knows the files of a part. -/
def texts (part : Part) : List String := part.files.map fun p => p.normalize.display

theorem Prepares.mem_files_iff {s : Store} {part : Part} {prepared : PreparedPart}
    (h : Prepares s part prepared) (hnodup : s.sources.Nodup) {file : FileId} {text : String}
    (hsource : s.source? file = some text) : file ∈ prepared.files ↔ text ∈ texts part := by
  rw [texts, List.mem_map]
  constructor
  · intro hfile
    rcases h.sources file hfile with ⟨p, hp, hp'⟩
    exact ⟨p, hp, Option.some.inj (hp'.symm.trans hsource)⟩
  · rintro ⟨p, hp, rfl⟩
    rcases h.files p hp with ⟨other, hother, hsame⟩
    rw [Store.source?_injective hnodup hsource hsame]
    exact hother

/-- The files that were claimed before are none of the files of the parts to come. -/
def Unclaimed (s : Store) (claimed : Table FileId PartId) (parts : List Part) : Prop :=
  forall file first, claimed.get? file = some first -> exists text, s.source? file = some text ∧
    forall part, part ∈ parts -> text ∉ texts part

theorem unclaimed_empty (s : Store) (parts : List Part) : Unclaimed s ∅ parts :=
  fun _ _ hfirst => nomatch hfirst

theorem Agrees.prepareOne_isOk {e : Engine} (h : e.Agrees) {claimed : Table FileId PartId}
    {part : Part} {rest : List Part} (hvalid : part.problem? = none)
    (hclaimed : Unclaimed e.storage.store claimed (part :: rest)) :
    exists prepared, (e.prepareOne claimed part).1 = .ok prepared := by
  rcases h.internAll part.files with ⟨hagrees, hinterned, hsources⟩
  have hnone : conflict? claimed ((e.internAll part.files).1.zip part.files) = none := by
    rw [conflict?_eq_none_iff]
    intro f hf
    cases hfirst : claimed.get? f.1 with
    | none => rfl
    | some first =>
        rcases hclaimed f.1 first hfirst with ⟨text, htext, hforeign⟩
        have hown := (List.forall₂_iff_zip.mp hsources).2 hf
        rw [hinterned.grown.sources _ _ htext] at hown
        refine absurd ?_ (hforeign part List.mem_cons_self)
        exact List.mem_map.mpr ⟨f.2, (List.of_mem_zip hf).2, (Option.some.inj hown).symm⟩
  unfold Engine.prepareOne
  rw [hvalid]
  dsimp only
  rw [hnone]
  exact ⟨_, rfl⟩

/-- Well-formed parts without common files all pass. -/
theorem Agrees.prepare_apart {e : Engine} (h : e.Agrees) {claimed : Table FileId PartId}
    {parts : List Part} (hvalid : forall part, part ∈ parts -> part.problem? = none)
    (hapart : parts.Pairwise fun a b => (texts a).Disjoint (texts b))
    (hclaimed : Unclaimed e.storage.store claimed parts) :
    (forall part, part ∈ parts -> exists prepared,
        prepared ∈ (Engine.prepare claimed e parts).1.1 ∧
          Prepares (Engine.prepare claimed e parts).2.storage.store part prepared) ∧
      (Engine.prepare claimed e parts).1.2 = [] := by
  induction parts generalizing e claimed with
  | nil => exact ⟨fun part hpart => absurd hpart List.not_mem_nil, rfl⟩
  | cons part rest ih =>
      rcases List.pairwise_cons.mp hapart with ⟨hfirst, hrest⟩
      rcases h.prepareOne_isOk (hvalid part List.mem_cons_self) hclaimed with ⟨prepared, hok⟩
      rcases h.prepareOne claimed part with ⟨hone, hinterned, hprepares⟩
      have hprep := (hprepares prepared hok).1
      rw [Engine.prepare]
      rcases hresult : e.prepareOne claimed part with ⟨outcome, e'⟩
      rw [hresult] at hok hone hinterned hprep
      dsimp only at hok hone hinterned hprep
      subst hok
      have hmore : Unclaimed e'.storage.store (claim claimed prepared) rest := by
        intro file first hclaim
        rw [get?_claim] at hclaim
        split at hclaim
        · rename_i hfile
          rcases hprep.sources file hfile with ⟨p, hp, hsource⟩
          exact ⟨_, hsource, fun other hother htext =>
            hfirst other hother (List.mem_map.mpr ⟨p, hp, rfl⟩) htext⟩
        · rcases hclaimed file first hclaim with ⟨text, htext, hforeign⟩
          exact ⟨text, hinterned.grown.sources _ _ htext, fun other hother =>
            hforeign other (List.mem_cons_of_mem _ hother)⟩
      rcases ih hone (fun other hother => hvalid other (List.mem_cons_of_mem _ hother)) hrest hmore
        with ⟨hall, hnone⟩
      have hgrown := (hone.prepare (claim claimed prepared) rest).2.1.grown
      refine ⟨?_, hnone⟩
      intro other hother
      rcases List.mem_cons.mp hother with rfl | hlater
      · exact ⟨prepared, List.mem_cons_self, hprep.of_grown hgrown⟩
      · rcases hall other hlater with ⟨found, hfound, hfound'⟩
        exact ⟨found, List.mem_cons_of_mem _ hfound, hfound'⟩

/-!
# Texts that come to be known
-/

theorem mem_sources_intern (e : Engine) {p : Path} {text : String}
    (h : text ∈ (e.intern p).2.storage.store.sources) :
    text ∈ e.storage.store.sources ∨ text = p.normalize.display := by
  have hadded : text ∈ (e.storage.store.addSource p.normalize.display).sources ->
      text ∈ e.storage.store.sources ∨ text = p.normalize.display := by
    rcases Store.addSource_eq e.storage.store p.normalize.display with hsame | ⟨-, hmore⟩
    · rw [hsame]
      exact Or.inl
    · rw [hmore, List.mem_append, List.mem_singleton]
      exact id
  unfold Engine.intern PathBook.intern at h
  dsimp only at h
  cases hknown : e.book.ids.get? p.normalize with
  | some id =>
      rw [hknown] at h
      exact Or.inl h
  | none =>
      rw [hknown] at h
      exact hadded h

theorem mem_sources_internAll (e : Engine) {ps : List Path} {text : String}
    (h : text ∈ (e.internAll ps).2.storage.store.sources) :
    text ∈ e.storage.store.sources ∨ text ∈ ps.map fun p => p.normalize.display := by
  induction ps generalizing e with
  | nil => exact Or.inl h
  | cons p rest ih =>
      rw [List.map_cons, List.mem_cons]
      rcases ih (e.intern p).2 h with hone | hrest
      · rcases mem_sources_intern e hone with hold | hnew
        · exact Or.inl hold
        · exact Or.inr (Or.inl hnew)
      · exact Or.inr (Or.inr hrest)

theorem mem_sources_prepareOne (e : Engine) {claimed : Table FileId PartId} {part : Part}
    {text : String} (h : text ∈ (e.prepareOne claimed part).2.storage.store.sources) :
    text ∈ e.storage.store.sources ∨ text ∈ texts part := by
  unfold Engine.prepareOne at h
  cases hproblem : part.problem? with
  | some reason =>
      rw [hproblem] at h
      exact Or.inl h
  | none =>
      rw [hproblem] at h
      dsimp only at h
      split at h <;> exact mem_sources_internAll e h

theorem mem_sources_prepare (e : Engine) {claimed : Table FileId PartId} {parts : List Part}
    {text : String} (h : text ∈ (Engine.prepare claimed e parts).2.storage.store.sources) :
    text ∈ e.storage.store.sources ∨ exists part, part ∈ parts ∧ text ∈ texts part := by
  induction parts generalizing e claimed with
  | nil => exact Or.inl h
  | cons part rest ih =>
      have hone : text ∈ (e.prepareOne claimed part).2.storage.store.sources ∨
          exists other, other ∈ rest ∧ text ∈ texts other := by
        rw [Engine.prepare] at h
        rcases hresult : e.prepareOne claimed part with ⟨failure | prepared, e'⟩
        · rw [hresult] at h
          exact ih e' h
        · rw [hresult] at h
          exact ih e' h
      rcases hone with hfirst | ⟨other, hother, htext⟩
      · rcases mem_sources_prepareOne e hfirst with hold | hnew
        · exact Or.inl hold
        · exact Or.inr ⟨part, List.mem_cons_self, hnew⟩
      · exact Or.inr ⟨other, List.mem_cons_of_mem _ hother, htext⟩

end Engine
end SymbolIndex
