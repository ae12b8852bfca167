import SymbolIndex.PathBook.Shelf
import SymbolIndex.Proofs.Distinct
import SymbolIndex.Proofs.Path
import SymbolIndex.Proofs.PathBook

/-!
# What the books of a shelf answer

Every book agrees with the store, whatever was asked before and of which book. The store
numbers the texts of normal forms. As long as all normal forms are text, these numbers
tell paths apart and lead back to them. Normal forms that are shown alike share a number.
-/

namespace SymbolIndex

namespace Store

variable {s : Store} {text : String} {id : FileId}

theorem mem_fileIds_iff : id ∈ s.fileIds ↔ exists text, s.source? id = some text := by
  constructor
  · intro h
    rcases List.mem_map.mp h with ⟨n, hn, rfl⟩
    have hlt : n < s.sources.length := List.mem_range.mp hn
    exact ⟨s.sources[n], (source?_eq_some_iff s _ _).mpr ⟨n, rfl, List.getElem?_eq_getElem hlt⟩⟩
  · intro h
    rcases h with ⟨text, htext⟩
    rcases (source?_eq_some_iff s id text).mp htext with ⟨n, rfl, hn⟩
    rcases List.getElem?_eq_some_iff.mp hn with ⟨hlt, -⟩
    exact List.mem_map.mpr ⟨n, List.mem_range.mpr hlt, rfl⟩

theorem sourceId?_eq_none (h : text ∉ s.sources) : s.sourceId? text = none := by
  cases hid : s.sourceId? text with
  | none => rfl
  | some id => exact absurd (mem_sources_of_source? (source?_of_sourceId? hid)) h

theorem addSource_of_notMem (h : text ∉ s.sources) (hnodup : s.sources.Nodup) :
    (s.addSource text).sourceId? text = some ⟨(s.sources.length : Int) + 1⟩ ∧
      (s.addSource text).fileIds = s.fileIds ++ [⟨(s.sources.length : Int) + 1⟩] := by
  have hadded : s.addSource text = { s with sources := s.sources ++ [text] } := by
    rw [addSource, sourceId?_eq_none h]
  constructor
  · apply sourceId?_of_source? (nodup_addSource hnodup text)
    rw [source?_eq_some_iff]
    exact ⟨s.sources.length, rfl, by rw [hadded]; simp⟩
  · rw [hadded, fileIds, List.length_append, List.length_singleton, List.range_succ,
      List.map_append]
    rfl

end Store

namespace PathBook

variable {b : PathBook} {s : Store} {p : Path} {id : FileId}

theorem Coherent.intern_of_notMem (h : b.Coherent s) (hnew : p.normalize.display ∉ s.sources) :
    (b.intern s p).1 = ⟨(s.sources.length : Int) + 1⟩ ∧
      (b.intern s p).2.2.fileIds = s.fileIds ++ [(b.intern s p).1] := by
  rcases Store.addSource_of_notMem hnew h.distinct with ⟨hid, hids⟩
  unfold PathBook.intern
  dsimp only
  cases hknown : b.ids.get? p.normalize with
  | some known => exact absurd (Store.mem_sources_of_source? (h.ids _ known hknown)) hnew
  | none =>
      dsimp only
      rw [hid, hids]
      exact ⟨rfl, rfl⟩

theorem Coherent.eraseDups_intern (h : b.Coherent s) (p : Path) {ids : List FileId}
    (hids : ids.eraseDups = s.fileIds) :
    (ids ++ [(b.intern s p).1]).eraseDups = (b.intern s p).2.2.fileIds := by
  rw [eraseDups_concat, hids]
  by_cases hmem : p.normalize.display ∈ s.sources
  · rcases Store.exists_sourceId? hmem with ⟨id, hid⟩
    have hsource := Store.source?_of_sourceId? hid
    rcases h.intern_of_source? hsource with ⟨hsame, hstore⟩
    rw [hsame, hstore, if_pos (Store.mem_fileIds_iff.mpr ⟨_, hsource⟩)]
  · rcases h.intern_of_notMem hmem with ⟨hnext, hgrown⟩
    have hnew : (b.intern s p).1 ∉ s.fileIds := by
      intro hold
      rw [hnext] at hold
      rcases List.mem_map.mp hold with ⟨n, hn, hsame⟩
      have hlt := List.mem_range.mp hn
      simp only [FileId.mk.injEq] at hsame
      omega
    rw [if_neg hnew, hgrown]

theorem Coherent.find?_eq_none (h : b.Coherent s) (hnew : p.normalize.display ∉ s.sources) :
    b.find? s p = none := by
  unfold PathBook.find?
  dsimp only
  cases hknown : b.ids.get? p.normalize with
  | some known => exact absurd (Store.mem_sources_of_source? (h.ids _ known hknown)) hnew
  | none => exact Store.sourceId?_eq_none hnew

theorem Coherent.exists_path? (h : b.Coherent s) {text : String} (hsource : s.source? id = some text) :
    exists q, b.path? s id = some q ∧ q.display = text := by
  have hsome : exists q, b.path? s id = some q := by
    unfold path?
    cases b.paths.get? id with
    | some q => exact ⟨q, rfl⟩
    | none => exact ⟨_, congrArg (Option.map Path.ofString) hsource⟩
  rcases hsome with ⟨q, hq⟩
  refine ⟨q, hq, ?_⟩
  have hshown := h.source?_of_path? hq
  rw [hsource] at hshown
  exact (Option.some.inj hshown).symm

theorem Coherent.path?_eq_none (h : b.Coherent s) (hsource : s.source? id = none) :
    b.path? s id = none := by
  cases hq : b.path? s id with
  | none => rfl
  | some q =>
      have hshown := h.source?_of_path? hq
      rw [hsource] at hshown
      cases hshown

/-!
# What a book remembers
-/

theorem paths_remember {q : Path} {other : FileId}
    (h : (b.remember p id).paths.get? other = some q) :
    b.paths.get? other = some q ∨ id = other ∧ p = q := by
  rw [remember, Table.get?_insert] at h
  split at h
  · rename_i hsame
    exact Or.inr ⟨hsame, Option.some.inj h⟩
  · exact Or.inl h

theorem paths_intern {q : Path} (h : (b.intern s p).2.1.paths.get? id = some q) :
    b.paths.get? id = some q ∨ (b.intern s p).1 = id ∧ p.normalize = q := by
  unfold intern at h ⊢
  dsimp only at h ⊢
  cases hknown : b.ids.get? p.normalize with
  | some known =>
      rw [hknown] at h
      exact Or.inl h
  | none =>
      rw [hknown] at h
      exact paths_remember h

theorem paths_consult {q : Path} {other : FileId}
    (h : (b.consult s id).paths.get? other = some q) :
    b.paths.get? other = some q ∨ q.IsText := by
  unfold consult at h
  split at h
  · exact Or.inl h
  · split at h
    · rename_i text htext
      rcases paths_remember h with hold | ⟨-, hnew⟩
      · exact Or.inl hold
      · rw [← hnew]
        exact Or.inr (Path.isText_ofString text)
    · exact Or.inl h

theorem snd_resolve (b : PathBook) (s : Store) (id : FileId) :
    (b.resolve s id).2 = b.consult s id := by
  unfold resolve path? consult
  cases b.paths.get? id with
  | some p => rfl
  | none => cases s.source? id <;> rfl

theorem resolve_of_path? (h : b.path? s id = some p) : (b.resolve s id).1 = .ok p := by
  rw [resolve, h]

theorem resolve_of_path?_eq_none (h : b.path? s id = none) :
    (b.resolve s id).1 = .error (.unknownFile id) := by
  rw [resolve, h]

end PathBook

namespace Shelf

variable {s : Shelf} {log : List (Path × FileId)} {n : Nat} {p q : Path} {id : FileId}

/-!
# What every request keeps
-/

/-- The books agree with the store, which has all the ids that were issued and no others. -/
structure Sound (s : Shelf) (log : List (Path × FileId)) : Prop where
  coherent : forall n, (s.book n).Coherent s.store
  sourced : forall p id, (p, id) ∈ log -> s.store.source? id = some p.normalize.display
  counted : (log.map Prod.snd).eraseDups = s.store.fileIds
  remembered : forall n id q, (s.book n).paths.get? id = some q ->
    q.IsText ∨ exists p, (p, id) ∈ log ∧ p.normalize = q

theorem sound_new : Sound new [] where
  coherent := fun _ => PathBook.coherent_empty List.nodup_nil
  sourced := by
    intro p id hmem
    cases hmem
  counted := rfl
  remembered := by
    intro n id q hq
    cases hq

theorem Sound.put (h : Sound s log) {b : PathBook} (hb : b.Coherent s.store)
    (hremembered : forall id q, b.paths.get? id = some q ->
      q.IsText ∨ exists p, (p, id) ∈ log ∧ p.normalize = q) (n : Nat) :
    Sound (s.put n b s.store) log where
  coherent := by
    intro m
    show (if m = n then b else s.book m).Coherent s.store
    split
    · exact hb
    · exact h.coherent m
  sourced := h.sourced
  counted := h.counted
  remembered := by
    intro m id q hq
    change (if m = n then b else s.book m).paths.get? id = some q at hq
    split at hq
    · exact hremembered id q hq
    · exact h.remembered m id q hq

theorem Sound.intern (h : Sound s log) (n : Nat) (p : Path) :
    Sound (s.serve (.intern n p)).2 (log ++ [(p, ((s.book n).intern s.store p).1)]) := by
  rcases (h.coherent n).intern p with ⟨hcoherent, hgrown, hsource⟩
  constructor
  · intro m
    show (if m = n then _ else s.book m).Coherent _
    split
    · exact hcoherent
    · exact (h.coherent m).of_grown hgrown hcoherent.distinct
  · intro q id hmem
    rcases List.mem_append.mp hmem with hold | hnew
    · exact hgrown.sources _ _ (h.sourced q id hold)
    · cases List.mem_singleton.mp hnew
      exact hsource
  · rw [List.map_append]
    exact (h.coherent n).eraseDups_intern p h.counted
  · intro m id q hq
    change (if m = n then ((s.book n).intern s.store p).2.1 else s.book m).paths.get? id = some q
      at hq
    have hold : forall m, (s.book m).paths.get? id = some q -> q.IsText ∨
        exists r, (r, id) ∈ log ++ [(p, ((s.book n).intern s.store p).1)] ∧ r.normalize = q := by
      intro m hbefore
      rcases h.remembered m id q hbefore with htext | ⟨r, hr, hnormal⟩
      · exact Or.inl htext
      · exact Or.inr ⟨r, List.mem_append_left _ hr, hnormal⟩
    split at hq
    · rcases PathBook.paths_intern hq with hbefore | ⟨hid, hnormal⟩
      · exact hold n hbefore
      · rw [← hid]
        exact Or.inr ⟨p, List.mem_append_right _ List.mem_cons_self, hnormal⟩
    · exact hold m hq

theorem Sound.interns (h : Sound s log) (n : Nat) (ps : List Path) :
    Sound (s.after (ps.map (.intern n))) (log ++ s.log (ps.map (.intern n))) := by
  induction ps generalizing s log with
  | nil =>
      rw [List.map_nil, Shelf.log, List.append_nil]
      exact h
  | cons p rest ih =>
      have hrest := ih (h.intern n p)
      rw [List.append_assoc] at hrest
      exact hrest

theorem put_self (s : Shelf) (n : Nat) : s.put n (s.book n) s.store = s := by
  unfold put
  congr 1
  funext m
  split
  · rename_i hm
    rw [hm]
  · rfl

theorem put_put (s : Shelf) (n : Nat) (b b' : PathBook) (t t' : Store) :
    (s.put n b t).put n b' t' = s.put n b' t' := by
  unfold put
  congr 1
  funext m
  dsimp only
  split
  · rfl
  · rfl

theorem serve_internAll (s : Shelf) (n : Nat) (ps : List Path) :
    s.serve (.internAll n ps) =
      (.ids ((s.log (ps.map (.intern n))).map Prod.snd), s.after (ps.map (.intern n))) := by
  induction ps generalizing s with
  | nil => exact congrArg (Prod.mk _) (put_self s n)
  | cons p rest ih =>
      rcases hfirst : (s.book n).intern s.store p with ⟨id, b, store⟩
      rcases hlater : b.internAll store rest with ⟨ids, b', store'⟩
      have hone : s.serve (.intern n p) = (.id id, s.put n b store) := by
        simp only [serve, hfirst]
      have hmore : (s.put n b store).serve (.internAll n rest) = (.ids ids, s.put n b' store') := by
        have hbook : (s.put n b store).book n = b := if_pos rfl
        have hstore : (s.put n b store).store = store := rfl
        simp only [serve, hbook, hstore, hlater, put_put]
      have hall : s.serve (.internAll n (p :: rest)) = (.ids (id :: ids), s.put n b' store') := by
        simp only [serve, PathBook.internAll, hfirst, hlater]
      have hrest := ih (s.put n b store)
      rw [hmore, Prod.mk.injEq, BookAnswer.ids.injEq] at hrest
      rw [hall, List.map_cons, Shelf.log, after, answer, hone, hrest.1, hrest.2]
      rfl

theorem paths_interns (s : Shelf) (n : Nat) (ps : List Path) :
    (s.log (ps.map (.intern n))).map Prod.fst = ps := by
  induction ps generalizing s with
  | nil => rfl
  | cons p rest ih => exact congrArg (p :: ·) (ih (s.serve (.intern n p)).2)

theorem issued_internAll (s : Shelf) (n : Nat) (ps : List Path) :
    (BookRequest.internAll n ps).issued (s.answer (.internAll n ps)) =
      s.log (ps.map (.intern n)) := by
  rw [answer, serve_internAll]
  exact (List.zip_of_prod (paths_interns s n ps) rfl).symm

theorem Sound.silent (h : Sound s log) : Sound s (log ++ []) := by
  rw [List.append_nil]
  exact h

theorem Sound.serve (h : Sound s log) (r : BookRequest) :
    Sound (s.serve r).2 (log ++ r.issued (s.answer r)) := by
  have hempty : forall m : Nat, forall id q, PathBook.empty.paths.get? id = some q ->
      q.IsText ∨ exists p, (p, id) ∈ log ∧ p.normalize = q := by
    intro m id q hq
    cases hq
  cases r with
  | create n =>
      exact (h.put (PathBook.coherent_empty (h.coherent n).distinct) (hempty n) n).silent
  | reopen =>
      have hbooks : forall m : Nat, PathBook.empty.Coherent s.store :=
        fun m => PathBook.coherent_empty (h.coherent m).distinct
      exact Sound.silent ⟨hbooks, h.sourced, h.counted, hempty⟩
  | intern n p => exact h.intern n p
  | internAll n ps =>
      rw [issued_internAll, serve_internAll]
      exact h.interns n ps
  | find n p => exact h.silent
  | resolve n id =>
      apply Sound.silent
      show Sound (s.put n ((s.book n).resolve s.store id).2 s.store) log
      rw [PathBook.snd_resolve]
      apply h.put ((h.coherent n).consult id)
      intro other q hq
      rcases PathBook.paths_consult hq with hbefore | htext
      · exact h.remembered n other q hbefore
      · exact Or.inl htext

theorem Sound.after (h : Sound s log) (requests : List BookRequest) :
    Sound (s.after requests) (log ++ s.log requests) := by
  induction requests generalizing s log with
  | nil =>
      rw [Shelf.log, List.append_nil]
      exact h
  | cons r rest ih =>
      have hrest := ih (h.serve r)
      rw [List.append_assoc] at hrest
      exact hrest

theorem sound_after (requests : List BookRequest) :
    Sound (new.after requests) (new.log requests) := sound_new.after requests

/-!
# Ids and what they stand for
-/

theorem Sound.id_eq_iff (h : Sound s log) {other : FileId} (hp : (p, id) ∈ log)
    (hq : (q, other) ∈ log) : id = other ↔ p.normalize.display = q.normalize.display := by
  have hsource := h.sourced p id hp
  have hother := h.sourced q other hq
  constructor
  · intro hsame
    rw [hsame, hother] at hsource
    exact (Option.some.inj hsource).symm
  · intro hshown
    rw [hshown] at hsource
    exact Store.source?_injective (h.coherent 0).distinct hsource hother

theorem Sound.exists_issued (h : Sound s log) {text : String} (hmem : text ∈ s.store.sources) :
    exists p id, (p, id) ∈ log ∧ p.normalize.display = text := by
  rcases Store.exists_sourceId? hmem with ⟨id, hid⟩
  have hsource := Store.source?_of_sourceId? hid
  have hissued : id ∈ (log.map Prod.snd).eraseDups := by
    rw [h.counted]
    exact Store.mem_fileIds_iff.mpr ⟨text, hsource⟩
  rcases List.mem_map.mp (List.mem_eraseDups.mp hissued) with ⟨⟨p, other⟩, hp, rfl⟩
  refine ⟨p, other, hp, ?_⟩
  have hshown := h.sourced p other hp
  rw [hsource] at hshown
  exact (Option.some.inj hshown).symm

theorem Sound.notMem_sources (h : Sound s log) (htext : forall p id, (p, id) ∈ log -> p.normalize.IsText)
    (hq : q.IsText) (hnew : forall p id, (p, id) ∈ log -> p.normalize ≠ q.normalize) :
    q.normalize.display ∉ s.store.sources := by
  intro hmem
  rcases h.exists_issued hmem with ⟨p, id, hp, hshown⟩
  apply hnew p id hp
  rw [← Path.ofString_display (htext p id hp), hshown, Path.ofString_display (Path.isText_normalize hq)]

theorem Sound.exists_resolved (h : Sound s log) (hp : (p, id) ∈ log) (n : Nat) :
    exists q, s.answer (.resolve n id) = .path (.ok q) ∧
      q.display = p.normalize.display ∧ (s.book n).path? s.store id = some q := by
  rcases (h.coherent n).exists_path? (h.sourced p id hp) with ⟨q, hq, hshown⟩
  exact ⟨q, congrArg BookAnswer.path (PathBook.resolve_of_path? hq), hshown, hq⟩

theorem Sound.resolved_created (h : Sound s log) (hp : (p, id) ∈ log) (n : Nat) :
    (s.serve (.create n)).2.answer (.resolve n id) =
      .path (.ok (.ofString p.normalize.display)) := by
  have hbook : (s.serve (.create n)).2.book n = .empty := if_pos rfl
  have hpath : ((s.serve (.create n)).2.book n).path? s.store id =
      some (.ofString p.normalize.display) := by
    rw [hbook]
    exact congrArg (Option.map Path.ofString) (h.sourced p id hp)
  exact congrArg BookAnswer.path (PathBook.resolve_of_path? hpath)

/-!
# Paths that are text
-/

section Text

variable (h : Sound s log) (htext : forall p id, (p, id) ∈ log -> p.normalize.IsText)

include h htext

theorem Sound.isText_of_remembered (hq : (s.book n).paths.get? id = some q) : q.IsText := by
  rcases h.remembered n id q hq with hq | ⟨p, hp, rfl⟩
  · exact hq
  · exact htext p id hp

theorem Sound.resolved (hp : (p, id) ∈ log) (n : Nat) :
    s.answer (.resolve n id) = .path (.ok p.normalize) := by
  rcases h.exists_resolved hp n with ⟨q, hanswer, hshown, hpath⟩
  have hq : q.IsText := by
    unfold PathBook.path? at hpath
    split at hpath
    · rename_i hremembered
      cases hpath
      exact h.isText_of_remembered htext hremembered
    · rcases Option.map_eq_some_iff.mp hpath with ⟨text, -, rfl⟩
      exact Path.isText_ofString text
  rw [hanswer, ← Path.ofString_display hq, hshown, Path.ofString_display (htext p id hp)]

end Text

end Shelf
end SymbolIndex
