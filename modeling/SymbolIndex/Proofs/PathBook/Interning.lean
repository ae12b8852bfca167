import SymbolIndex.Proofs.PathBook.Shelf

/-!
# Interning paths

Any number of books over one store answer alike, and like the store alone, as long as the
paths are text. Paths that are no text are stored as they are shown. Those that are shown
alike share an id, and a book that is new leads to what is shown.
-/

namespace SymbolIndex

namespace BookRequest

/-- All the paths that a request names are text. -/
def IsText (r : BookRequest) : Prop := forall p, p ∈ r.paths -> p.IsText

end BookRequest

namespace Shelf

variable {s : Shelf} {log : List (Path × FileId)} {n : Nat} {p q : Path} {id : FileId}

/-- Which paths were interned. -/
def IsInterned (log : List (Path × FileId)) (p : Path) : Prop :=
  exists q id, (q, id) ∈ log ∧ q.normalize = p.normalize

/-- How a shelf answers when `log` says which ids were issued for which paths. -/
structure Keeps (s : Shelf) (log : List (Path × FileId)) : Prop where
  /-- The ids count up from one in the order in which they were first issued. -/
  counted : (log.map Prod.snd).eraseDups =
    (List.range s.store.sources.length).map fun k : Nat => ⟨(k : Int) + 1⟩
  /-- A path that was interned in any spelling keeps its id, and nothing is stored. -/
  again : forall p id, (p, id) ∈ log -> forall n q, q.normalize = p.normalize ->
    s.answer (.intern n q) = .id id ∧ (s.serve (.intern n q)).2.store = s.store
  /-- Any other path gets the next id. -/
  next : forall n q, q.IsText -> ¬ IsInterned log q ->
    s.answer (.intern n q) = .id ⟨(s.store.sources.length : Int) + 1⟩
  inTurn : forall n ps, s.serve (.internAll n ps) =
    (.ids ((s.log (ps.map (.intern n))).map Prod.snd), s.after (ps.map (.intern n)))
  found : forall p id, (p, id) ∈ log -> forall n q, q.normalize = p.normalize ->
    s.answer (.find n q) = .found (some id)
  absent : forall n q, q.IsText -> ¬ IsInterned log q -> s.answer (.find n q) = .found none
  /-- Looking for a path changes nothing. -/
  looks : forall n q, (s.serve (.find n q)).2 = s
  resolved : forall p id, (p, id) ∈ log -> forall n,
    s.answer (.resolve n id) = .path (.ok p.normalize)
  unknown : forall id, id ∉ log.map Prod.snd -> forall n,
    s.answer (.resolve n id) = .path (.error (.unknownFile id))
  /-- What a book remembers is what the store has. -/
  hits : forall n p id, (s.book n).ids.get? p = some id -> s.store.sourceId? p.display = some id
  paths : forall n id p, (s.book n).paths.get? id = some p ->
    (s.store.source? id).map .ofString = some p

theorem Sound.keeps (h : Sound s log) (htext : forall p id, (p, id) ∈ log -> p.normalize.IsText) :
    Keeps s log where
  counted := h.counted
  again := by
    intro p id hp n q hq
    have hsource := h.sourced p id hp
    rw [← hq] at hsource
    rcases (h.coherent n).intern_of_source? hsource with ⟨hid, hstore⟩
    exact ⟨congrArg BookAnswer.id hid, hstore⟩
  next := by
    intro n q hq hnew
    have hfresh := h.notMem_sources htext hq fun p id hp hsame => hnew ⟨p, id, hp, hsame⟩
    exact congrArg BookAnswer.id ((h.coherent n).intern_of_notMem hfresh).1
  inTurn := s.serve_internAll
  found := by
    intro p id hp n q hq
    have hsource := h.sourced p id hp
    rw [← hq] at hsource
    exact congrArg BookAnswer.found ((h.coherent n).find?_eq_some hsource)
  absent := by
    intro n q hq hnew
    have hfresh := h.notMem_sources htext hq fun p id hp hsame => hnew ⟨p, id, hp, hsame⟩
    exact congrArg BookAnswer.found ((h.coherent n).find?_eq_none hfresh)
  looks := fun _ _ => rfl
  resolved := fun p id hp n => h.resolved htext hp n
  unknown := by
    intro id hnew n
    have hnone : s.store.source? id = none := by
      cases hsource : s.store.source? id with
      | none => rfl
      | some text =>
          have hissued := Store.mem_fileIds_iff.mpr ⟨text, hsource⟩
          rw [← h.counted] at hissued
          exact absurd (List.mem_eraseDups.mp hissued) hnew
    have hpath := (h.coherent n).path?_eq_none hnone
    exact congrArg BookAnswer.path (PathBook.resolve_of_path?_eq_none hpath)
  hits := by
    intro n p id hid
    exact Store.sourceId?_of_source? (h.coherent n).distinct ((h.coherent n).ids p id hid)
  paths := by
    intro n id p hp
    rw [(h.coherent n).paths id p hp, Option.map_some,
      Path.ofString_display (h.isText_of_remembered htext hp)]

theorem mem_log_paths {requests : List BookRequest} (h : (p, id) ∈ s.log requests) :
    exists r, r ∈ requests ∧ p ∈ r.paths := by
  induction requests generalizing s with
  | nil => cases h
  | cons r rest ih =>
      rcases List.mem_append.mp h with hfirst | hlater
      · refine ⟨r, List.mem_cons_self, ?_⟩
        cases r with
        | intern n q =>
            cases List.mem_singleton.mp hfirst
            exact List.mem_cons_self
        | internAll n ps =>
            rw [issued_internAll] at hfirst
            have hmem := List.mem_map_of_mem (f := Prod.fst) hfirst
            rw [paths_interns] at hmem
            exact hmem
        | _ => cases hfirst
      · rcases ih hlater with ⟨r, hr, hp⟩
        exact ⟨r, List.mem_cons_of_mem _ hr, hp⟩

/--
Whatever was asked of any books, also before the store was opened again: as long as all
paths are text, every book gives the one id that was issued for a normal form, and leads
back from the id to the normal form. New ids count up from one, looking for a path issues
none, and what a book remembers is what the store says.
-/
theorem books_keep_one_directory {requests : List BookRequest}
    (htext : forall r, r ∈ requests -> r.IsText) :
    (new.after requests).Keeps (new.log requests) := by
  apply (sound_after requests).keeps
  intro p id hp
  rcases mem_log_paths hp with ⟨r, hr, hmem⟩
  exact Path.isText_normalize (htext r hr p hmem)

/-- A path in two spellings, asked of two books, and after the store was opened again. -/
def twoBooks : List BookRequest :=
  [.intern 0 (.ofString "/w/./a"), .internAll 1 [.ofString "/w/b", .ofString "/w/b/../a"],
    .resolve 1 ⟨2⟩, .reopen, .find 0 (.ofString "/w/b")]

theorem two_books_keep_one_directory :
    (forall r, r ∈ twoBooks -> r.IsText) ∧ (new.after twoBooks).Keeps (new.log twoBooks) ∧
      (new.log twoBooks).map Prod.snd = [⟨1⟩, ⟨2⟩, ⟨1⟩] := by
  have htext : forall r, r ∈ twoBooks -> r.IsText := by
    intro r hr p hp
    simp only [twoBooks, List.mem_cons, List.not_mem_nil, or_false] at hr
    rcases hr with rfl | rfl | rfl | rfl | rfl <;>
      simp only [BookRequest.paths, List.mem_cons, List.not_mem_nil, or_false] at hp
    · rw [hp]
      exact Path.isText_ofString _
    · rcases hp with rfl | rfl <;> exact Path.isText_ofString _
    · rw [hp]
      exact Path.isText_ofString _
  exact ⟨htext, books_keep_one_directory htext, by decide +kernel⟩

/-!
# Paths that are no text
-/

/-- Ids tell normal forms apart and lead back to them, in every book and in one that is new. -/
structure Identifies (s : Shelf) (log : List (Path × FileId)) : Prop where
  distinct : forall p q id, (p, id) ∈ log -> (q, id) ∈ log -> p.normalize = q.normalize
  resolved : forall p id, (p, id) ∈ log -> forall n,
    s.answer (.resolve n id) = .path (.ok p.normalize)
  created : forall p id, (p, id) ∈ log -> forall n,
    (s.serve (.create n)).2.answer (.resolve n id) = .path (.ok p.normalize)

theorem Sound.identifies_iff (h : Sound s log) :
    Identifies s log ↔ forall p id, (p, id) ∈ log -> p.normalize.IsText := by
  constructor
  · intro hidentifies p id hp
    have hshown := h.resolved_created hp 0
    rw [hidentifies.created p id hp 0] at hshown
    rw [Path.isText_iff_ofString_display]
    exact (Except.ok.inj (BookAnswer.path.inj hshown)).symm
  · intro htext
    constructor
    · intro p q id hp hq
      have hshown := (h.id_eq_iff hp hq).mp rfl
      rw [← Path.ofString_display (htext p id hp), hshown, Path.ofString_display (htext q id hq)]
    · exact fun p id hp n => h.resolved htext hp n
    · intro p id hp n
      rw [h.resolved_created hp n, Path.ofString_display (htext p id hp)]

/--
Whatever was asked of any books about paths of any bytes: two paths have one id exactly
when their normal forms are shown alike, every book leads from an id to a path that is
shown alike, and a new one to what is shown. The ids identify the paths exactly as long as
the normal forms of all paths that were interned are text.
-/
theorem ids_identify_paths_iff (requests : List BookRequest) :
    let s := new.after requests
    let log := new.log requests
    (forall p q id other, (p, id) ∈ log -> (q, other) ∈ log ->
        (id = other ↔ p.normalize.display = q.normalize.display)) ∧
      (forall p id, (p, id) ∈ log -> forall n,
        (exists q, s.answer (.resolve n id) = .path (.ok q) ∧
          q.display = p.normalize.display) ∧
        (s.serve (.create n)).2.answer (.resolve n id) =
          .path (.ok (.ofString p.normalize.display))) ∧
      (Identifies s log ↔ forall p id, (p, id) ∈ log -> p.normalize.IsText) := by
  intro s log
  have hsound : Sound s log := sound_after requests
  constructor
  · exact fun p q id other hp hq => hsound.id_eq_iff hp hq
  · constructor
    · intro p id hp n
      rcases hsound.exists_resolved hp n with ⟨q, hanswer, hshown, -⟩
      exact ⟨⟨q, hanswer, hshown⟩, hsound.resolved_created hp n⟩
    · exact hsound.identifies_iff

/-- Two names of one byte each that starts no character. -/
def brokenNames : List BookRequest :=
  [.intern 0 ⟨[Path.slash, 0xff]⟩, .intern 0 ⟨[Path.slash, 0xfe]⟩]

/--
The two paths are normal forms and get one id. The book leads from the id of the first
path to the second one, and a new book to neither.
-/
theorem broken_names_share_an_id :
    new.log brokenNames = [(⟨[Path.slash, 0xff]⟩, ⟨1⟩), (⟨[Path.slash, 0xfe]⟩, ⟨1⟩)] ∧
      (Path.mk [Path.slash, 0xff]).normalize ≠ (Path.mk [Path.slash, 0xfe]).normalize ∧
      (new.after brokenNames).answer (.resolve 0 ⟨1⟩) = .path (.ok ⟨[Path.slash, 0xfe]⟩) ∧
      (new.after brokenNames).answer (.resolve 1 ⟨1⟩) = .path (.ok (.ofString "/\uFFFD")) ∧
      ¬ Identifies (new.after brokenNames) (new.log brokenNames) := by
  have hlog : new.log brokenNames =
      [(⟨[Path.slash, 0xff]⟩, ⟨1⟩), (⟨[Path.slash, 0xfe]⟩, ⟨1⟩)] := by decide +kernel
  have hdiffer :
      (Path.mk [Path.slash, 0xff]).normalize ≠ (Path.mk [Path.slash, 0xfe]).normalize := by decide
  have hlast : ((new.after brokenNames).book 0).path? (new.after brokenNames).store ⟨1⟩ =
      some ⟨[Path.slash, 0xfe]⟩ := by decide +kernel
  have hshown : ((new.after brokenNames).book 1).path? (new.after brokenNames).store ⟨1⟩ =
      some (.ofString "/\uFFFD") := by decide +kernel
  refine ⟨hlog, hdiffer, congrArg BookAnswer.path (PathBook.resolve_of_path? hlast),
    congrArg BookAnswer.path (PathBook.resolve_of_path? hshown), ?_⟩
  intro hidentifies
  apply hdiffer
  apply hidentifies.distinct _ _ ⟨1⟩
  · rw [hlog]
    exact List.mem_cons_self
  · rw [hlog]
    exact List.mem_cons_of_mem _ List.mem_cons_self

end Shelf
end SymbolIndex
