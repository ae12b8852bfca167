import Mathlib.Data.List.Nodup
import SymbolIndex.PathBook
import SymbolIndex.Proofs.Table

/-!
# What a path book knows

The book and the store agree: an id stands for the text that the store holds under it.
Issuing ids adds texts and takes none away, and asking for the path of an id changes no
answer.
-/

namespace SymbolIndex

namespace Store

/-!
# Source texts
-/

theorem source?_eq_some_iff (s : Store) (id : FileId) (text : String) :
    s.source? id = some text ↔ exists n : Nat, id = ⟨(n : Int) + 1⟩ ∧ s.sources[n]? = some text := by
  unfold source?
  constructor
  · intro h
    split at h
    · cases h
    · rename_i hpositive
      refine ⟨(id.number - 1).toNat, ?_, h⟩
      rcases id with ⟨number⟩
      simp only [FileId.mk.injEq] at hpositive ⊢
      omega
  · rintro ⟨n, rfl, hn⟩
    rw [if_neg (by simp only; omega)]
    simpa using hn

theorem hasSource_iff (s : Store) (id : FileId) :
    s.hasSource id = true ↔ exists text, s.source? id = some text := by
  rw [hasSource, Option.isSome_iff_exists]

theorem source?_of_sources_eq {s t : Store} (h : t.sources = s.sources) (id : FileId) :
    t.source? id = s.source? id := by
  rw [source?, source?, h]

theorem sourceId?_eq (s : Store) (text : String) :
    s.sourceId? text =
      (s.sources.findIdx? fun t => t == text).map fun n : Nat => ⟨(n : Int) + 1⟩ := by
  unfold sourceId?
  cases s.sources.findIdx? fun t => t == text with
  | none => rfl
  | some n => rfl

theorem source?_of_sourceId? {s : Store} {text : String} {id : FileId}
    (h : s.sourceId? text = some id) : s.source? id = some text := by
  rw [sourceId?_eq] at h
  rcases Option.map_eq_some_iff.mp h with ⟨n, hn, rfl⟩
  rcases List.findIdx?_eq_some_iff_getElem.mp hn with ⟨hlt, heq, -⟩
  rw [source?_eq_some_iff]
  refine ⟨n, rfl, ?_⟩
  rw [List.getElem?_eq_getElem hlt]
  simpa using heq

theorem mem_sources_of_source? {s : Store} {id : FileId} {text : String}
    (h : s.source? id = some text) : text ∈ s.sources := by
  rcases (source?_eq_some_iff s id text).mp h with ⟨n, -, hn⟩
  exact List.mem_of_getElem? hn

theorem exists_sourceId? {s : Store} {text : String} (h : text ∈ s.sources) :
    exists id, s.sourceId? text = some id := by
  rw [sourceId?_eq]
  cases hfind : s.sources.findIdx? fun t => t == text with
  | some n => exact ⟨_, rfl⟩
  | none =>
      have hnone := List.findIdx?_eq_none_iff.mp hfind text h
      simp at hnone

theorem source?_injective {s : Store} (hnodup : s.sources.Nodup) {a b : FileId} {text : String}
    (ha : s.source? a = some text) (hb : s.source? b = some text) : a = b := by
  rcases (source?_eq_some_iff s a text).mp ha with ⟨n, rfl, hn⟩
  rcases (source?_eq_some_iff s b text).mp hb with ⟨m, rfl, hm⟩
  rcases List.getElem?_eq_some_iff.mp hn with ⟨hnlt, hnval⟩
  rcases List.getElem?_eq_some_iff.mp hm with ⟨hmlt, hmval⟩
  rw [(List.Nodup.getElem_inj_iff hnodup).mp (hnval.trans hmval.symm)]

theorem sourceId?_of_source? {s : Store} (hnodup : s.sources.Nodup) {id : FileId} {text : String}
    (h : s.source? id = some text) : s.sourceId? text = some id := by
  rcases (source?_eq_some_iff s id text).mp h with ⟨n, -, hn⟩
  rcases exists_sourceId? (List.mem_of_getElem? hn) with ⟨found, hfound⟩
  rw [hfound, source?_injective hnodup (source?_of_sourceId? hfound) h]

theorem addSource_eq (s : Store) (text : String) :
    s.addSource text = s ∨
      text ∉ s.sources ∧ s.addSource text = { s with sources := s.sources ++ [text] } := by
  unfold addSource
  cases h : s.sourceId? text with
  | some id => exact Or.inl rfl
  | none =>
      refine Or.inr ⟨?_, rfl⟩
      intro hmem
      rcases exists_sourceId? hmem with ⟨id, hid⟩
      rw [h] at hid
      cases hid

theorem source?_addSource {s : Store} {id : FileId} {old : String} (h : s.source? id = some old)
    (text : String) : (s.addSource text).source? id = some old := by
  rcases addSource_eq s text with heq | ⟨-, heq⟩
  · rw [heq]
    exact h
  · rcases (source?_eq_some_iff s id old).mp h with ⟨n, hid, hn⟩
    rw [heq, source?_eq_some_iff]
    refine ⟨n, hid, ?_⟩
    rw [List.getElem?_append_left (List.getElem?_eq_some_iff.mp hn).1]
    exact hn

theorem nodup_addSource {s : Store} (h : s.sources.Nodup) (text : String) :
    (s.addSource text).sources.Nodup := by
  rcases addSource_eq s text with heq | ⟨hfresh, heq⟩
  · rw [heq]
    exact h
  · rw [heq]
    refine List.nodup_append.mpr ⟨h, List.nodup_singleton text, ?_⟩
    intro old hold new hnew heq
    rw [List.mem_singleton.mp hnew] at heq
    exact hfresh (heq ▸ hold)

theorem source?_sourceId?_addSource (s : Store) (text : String) :
    (s.addSource text).source? (((s.addSource text).sourceId? text).getD default) =
      some text := by
  have hmem : text ∈ (s.addSource text).sources := by
    unfold addSource
    cases h : s.sourceId? text with
    | some id =>
        rcases (source?_eq_some_iff s id text).mp (source?_of_sourceId? h) with ⟨n, -, hn⟩
        exact List.mem_of_getElem? hn
    | none => simp
  rcases exists_sourceId? hmem with ⟨id, hid⟩
  rw [hid]
  exact source?_of_sourceId? hid

end Store

namespace PathBook

/-- No text is stored twice, and every path that is remembered shows as the text of its id. -/
structure Coherent (b : PathBook) (s : Store) : Prop where
  distinct : s.sources.Nodup
  ids : forall p id, b.ids.get? p = some id -> s.source? id = some p.display
  paths : forall id p, b.paths.get? id = some p -> s.source? id = some p.display

theorem coherent_empty {s : Store} (h : s.sources.Nodup) : empty.Coherent s where
  distinct := h
  ids := by
    intro p id hid
    cases hid
  paths := by
    intro id p hp
    cases hp

theorem Coherent.of_sources_eq {b : PathBook} {s t : Store} (h : b.Coherent s)
    (heq : t.sources = s.sources) : b.Coherent t where
  distinct := by rw [heq]; exact h.distinct
  ids := by
    intro p id hid
    rw [Store.source?_of_sources_eq heq]
    exact h.ids p id hid
  paths := by
    intro id p hp
    rw [Store.source?_of_sources_eq heq]
    exact h.paths id p hp

theorem Coherent.remember {b : PathBook} {s : Store} (h : b.Coherent s) {p : Path} {id : FileId}
    (hsource : s.source? id = some p.display) : (b.remember p id).Coherent s where
  distinct := h.distinct
  ids := by
    intro q other hq
    rw [PathBook.remember, Table.get?_insert] at hq
    split at hq
    · rename_i heq
      cases hq
      rw [← heq]
      exact hsource
    · exact h.ids q other hq
  paths := by
    intro other q hq
    rw [PathBook.remember, Table.get?_insert] at hq
    split at hq
    · rename_i heq
      cases hq
      rw [← heq]
      exact hsource
    · exact h.paths other q hq

/-!
# Asking for paths
-/

theorem Coherent.consult {b : PathBook} {s : Store} (h : b.Coherent s) (id : FileId) :
    (b.consult s id).Coherent s := by
  unfold PathBook.consult
  split
  · exact h
  · split
    · rename_i text htext
      apply h.remember
      rw [Path.display_ofString]
      exact htext
    · exact h

theorem Coherent.source?_of_path? {b : PathBook} {s : Store} (h : b.Coherent s) {id : FileId}
    {p : Path} (hp : b.path? s id = some p) : s.source? id = some p.display := by
  unfold path? at hp
  cases hremembered : b.paths.get? id with
  | some q =>
      rw [hremembered] at hp
      cases hp
      exact h.paths id p hremembered
  | none =>
      rw [hremembered] at hp
      rcases Option.map_eq_some_iff.mp hp with ⟨text, htext, rfl⟩
      rw [Path.display_ofString, htext]

theorem path?_of_sources_eq {b : PathBook} {s t : Store} (h : t.sources = s.sources)
    (id : FileId) : b.path? t id = b.path? s id := by
  rw [path?, path?, Store.source?_of_sources_eq h]

theorem path?_consult (b : PathBook) (s : Store) (id other : FileId) :
    (b.consult s id).path? s other = b.path? s other := by
  unfold consult
  cases hpath : b.paths.get? id with
  | some p => rfl
  | none =>
      cases htext : s.source? id with
      | none => rfl
      | some text =>
          simp only [path?, remember, Table.get?_insert]
          by_cases hother : id = other
          · subst hother
            rw [if_pos rfl, hpath, htext]
            rfl
          · rw [if_neg hother]

/-!
# Issuing ids
-/

/-- A store that has all the source texts of another one under the same ids, and else is the same. -/
structure Grown (s t : Store) : Prop where
  sources : forall id text, s.source? id = some text -> t.source? id = some text
  rest : t = { s with sources := t.sources }

theorem grown_refl (s : Store) : Grown s s := ⟨fun _ _ h => h, rfl⟩

theorem Grown.trans {s t u : Store} (h : Grown s t) (h' : Grown t u) : Grown s u where
  sources := fun id text hsource => h'.sources id text (h.sources id text hsource)
  rest := by
    have hrest := h'.rest
    rw [h.rest] at hrest
    exact hrest

theorem grown_addSource (s : Store) (text : String) : Grown s (s.addSource text) where
  sources := fun _ _ h => Store.source?_addSource h text
  rest := by
    rcases Store.addSource_eq s text with heq | ⟨-, heq⟩
    · rw [heq]
    · rw [heq]

theorem Coherent.of_grown {b : PathBook} {s t : Store} (h : b.Coherent s) (hgrown : Grown s t)
    (hnodup : t.sources.Nodup) : b.Coherent t where
  distinct := hnodup
  ids := fun p id hid => hgrown.sources _ _ (h.ids p id hid)
  paths := fun id p hp => hgrown.sources _ _ (h.paths id p hp)

theorem find?_congr (b : PathBook) (s : Store) {p q : Path} (h : p.normalize = q.normalize) :
    b.find? s p = b.find? s q := by
  rw [find?, find?, h]

theorem intern_congr (b : PathBook) (s : Store) {p q : Path} (h : p.normalize = q.normalize) :
    b.intern s p = b.intern s q := by
  rw [intern, intern, h]

theorem Coherent.intern {b : PathBook} {s : Store} (h : b.Coherent s) (p : Path) :
    (b.intern s p).2.1.Coherent (b.intern s p).2.2 ∧ Grown s (b.intern s p).2.2 ∧
      (b.intern s p).2.2.source? (b.intern s p).1 = some p.normalize.display := by
  unfold PathBook.intern
  dsimp only
  cases hid : b.ids.get? p.normalize with
  | some id => exact ⟨h, grown_refl s, h.ids _ id hid⟩
  | none =>
      have hgrown := grown_addSource s p.normalize.display
      have hsource := Store.source?_sourceId?_addSource s p.normalize.display
      have hcoherent := h.of_grown hgrown (Store.nodup_addSource h.distinct _)
      exact ⟨hcoherent.remember hsource, hgrown, hsource⟩

theorem path?_intern {b : PathBook} {s : Store} {p q : Path} {id : FileId}
    (h : (b.intern s p).2.1.path? (b.intern s p).2.2 id = some q) :
    q = p.normalize ∨ b.path? s id = some q ∨
      exists text, text ∈ (b.intern s p).2.2.sources ∧ q = Path.ofString text := by
  unfold PathBook.intern at h ⊢
  dsimp only at h ⊢
  cases hknown : b.ids.get? p.normalize with
  | some known =>
      rw [hknown] at h
      exact Or.inr (Or.inl h)
  | none =>
      rw [hknown] at h
      dsimp only at h ⊢
      rw [path?, remember, Table.get?_insert] at h
      split at h
      · rename_i hremembered
        cases h
        split at hremembered
        · exact Or.inl (Option.some.inj hremembered).symm
        · right
          left
          rw [path?, hremembered]
      · rcases Option.map_eq_some_iff.mp h with ⟨text, htext, rfl⟩
        exact Or.inr (Or.inr ⟨text, Store.mem_sources_of_source? htext, rfl⟩)

theorem Coherent.internAll {b : PathBook} {s : Store} (h : b.Coherent s) (ps : List Path) :
    (b.internAll s ps).2.1.Coherent (b.internAll s ps).2.2 ∧
      Grown s (b.internAll s ps).2.2 ∧
      List.Forall₂ (fun id p => (b.internAll s ps).2.2.source? id = some p.normalize.display)
        (b.internAll s ps).1 ps := by
  induction ps generalizing b s with
  | nil => exact ⟨h, grown_refl s, List.Forall₂.nil⟩
  | cons p rest ih =>
      rcases h.intern p with ⟨hcoherent, hgrown, hsource⟩
      rcases ih hcoherent with ⟨hcoherent', hgrown', hsources⟩
      exact ⟨hcoherent', hgrown.trans hgrown',
        List.Forall₂.cons (hgrown'.sources _ _ hsource) hsources⟩

theorem Coherent.find?_eq_some {b : PathBook} {s : Store} (h : b.Coherent s) {p : Path}
    {id : FileId} (hsource : s.source? id = some p.normalize.display) :
    b.find? s p = some id := by
  unfold PathBook.find?
  dsimp only
  cases hid : b.ids.get? p.normalize with
  | some found =>
      exact congrArg some (Store.source?_injective h.distinct (h.ids _ found hid) hsource)
  | none => exact Store.sourceId?_of_source? h.distinct hsource

/-!
# Asking again
-/

theorem Coherent.intern_of_source? {b : PathBook} {s : Store} (h : b.Coherent s) {p : Path}
    {id : FileId} (hsource : s.source? id = some p.normalize.display) :
    (b.intern s p).1 = id ∧ (b.intern s p).2.2 = s := by
  unfold PathBook.intern
  dsimp only
  cases hid : b.ids.get? p.normalize with
  | some found => exact ⟨Store.source?_injective h.distinct (h.ids _ found hid) hsource, rfl⟩
  | none =>
      have hfound := Store.sourceId?_of_source? h.distinct hsource
      have hstore : s.addSource p.normalize.display = s := by rw [Store.addSource, hfound]
      dsimp only
      rw [hstore, hfound]
      exact ⟨rfl, rfl⟩

theorem Coherent.internAll_of_source? {b : PathBook} {s : Store} (h : b.Coherent s)
    {ids : List FileId} {ps : List Path}
    (hsources : List.Forall₂ (fun id p => s.source? id = some p.normalize.display) ids ps) :
    (b.internAll s ps).1 = ids ∧ (b.internAll s ps).2.2 = s := by
  induction hsources generalizing b with
  | nil => exact ⟨rfl, rfl⟩
  | cons hsource _hrest ih =>
      rename_i id p ids ps
      rcases h.intern_of_source? hsource with ⟨hid, hstore⟩
      have hcoherent := (h.intern p).1
      rw [PathBook.internAll]
      rcases hinterned : b.intern s p with ⟨found, b', s'⟩
      rw [hinterned] at hid hstore hcoherent
      dsimp only at hid hstore hcoherent ⊢
      subst hid hstore
      rcases ih hcoherent with ⟨hids, hsame⟩
      exact ⟨congrArg _ hids, hsame⟩

/-- Every path that has an id in the first book has one in the second. -/
def Extends (b b' : PathBook) : Prop :=
  forall p, b.ids.contains p = true -> b'.ids.contains p = true

theorem Extends.refl (b : PathBook) : b.Extends b := fun _ h => h

theorem Extends.trans {b b' b'' : PathBook} (h : b.Extends b') (h' : b'.Extends b'') :
    b.Extends b'' :=
  fun p hp => h' p (h p hp)

theorem extends_remember (b : PathBook) (p : Path) (id : FileId) : b.Extends (b.remember p id) := by
  intro q hq
  rw [remember, Table.contains, Table.get?_insert]
  split
  · rfl
  · exact hq

theorem extends_consult (b : PathBook) (s : Store) (id : FileId) : b.Extends (b.consult s id) := by
  unfold consult
  split
  · exact Extends.refl b
  · split
    · exact extends_remember b _ id
    · exact Extends.refl b

theorem extends_intern (b : PathBook) (s : Store) (p : Path) : b.Extends (b.intern s p).2.1 := by
  unfold intern
  dsimp only
  split
  · exact Extends.refl b
  · exact extends_remember b _ _

theorem contains_intern (b : PathBook) (s : Store) (p : Path) :
    (b.intern s p).2.1.ids.contains p.normalize = true := by
  unfold intern
  dsimp only
  cases hid : b.ids.get? p.normalize with
  | some id =>
      rw [Table.contains, hid]
      rfl
  | none =>
      rw [remember, Table.contains, Table.get?_insert, if_pos rfl]
      rfl

theorem extends_internAll (b : PathBook) (s : Store) (ps : List Path) :
    b.Extends (b.internAll s ps).2.1 := by
  induction ps generalizing b s with
  | nil => exact Extends.refl b
  | cons p rest ih => exact (extends_intern b s p).trans (ih _ _)

theorem contains_internAll (b : PathBook) (s : Store) {ps : List Path} {p : Path} (hp : p ∈ ps) :
    (b.internAll s ps).2.1.ids.contains p.normalize = true := by
  induction ps generalizing b s with
  | nil => cases hp
  | cons first rest ih =>
      rcases List.mem_cons.mp hp with rfl | hrest
      · exact extends_internAll _ _ rest _ (contains_intern b s p)
      · exact ih _ _ hrest

theorem internAll_of_contains {b : PathBook} {s : Store} {ps : List Path}
    (h : forall p, p ∈ ps -> b.ids.contains p.normalize = true) : (b.internAll s ps).2 = (b, s) := by
  induction ps with
  | nil => rfl
  | cons p rest ih =>
      have hp := h p List.mem_cons_self
      rw [Table.contains, Option.isSome_iff_exists] at hp
      rcases hp with ⟨id, hid⟩
      have hintern : b.intern s p = (id, b, s) := by
        unfold intern
        dsimp only
        rw [hid]
      rw [internAll, hintern]
      exact ih fun q hq => h q (List.mem_cons_of_mem _ hq)

end PathBook
end SymbolIndex
