import SymbolIndex.Proofs.Store.Records

/-!
# Stores that differ in the numbers of symbols

Symbols of all files are numbered by one counter, so the order in which files are stored
shows in the numbers and nowhere else. Two stores in which the records of each file are
the same but for the number of its first symbol are the same but for a renumbering,
which keeps the order of the symbols of a file.
-/

namespace SymbolIndex

def SymbolRow.rename (f : SymbolId -> SymbolId) (row : SymbolRow) : SymbolRow :=
  { row with id := f row.id }

def LocationRow.rename (f : SymbolId -> SymbolId) (l : LocationRow) : LocationRow :=
  { l with symbol := f l.symbol }

/-- The number `k` further on. -/
def SymbolId.shift (k : Int) (id : SymbolId) : SymbolId := ⟨id.number + k⟩

theorem SymbolId.shift_zero : SymbolId.shift 0 = id := by
  funext id
  simp [SymbolId.shift]

theorem SymbolId.shift_shift (j k : Int) (id : SymbolId) :
    (id.shift j).shift k = id.shift (j + k) := by
  simp [SymbolId.shift, Int.add_assoc]

namespace Store

/-- Rows whose symbols have other numbers. -/
def renamed (f : SymbolId -> SymbolId) (rows : List SymbolRow × List LocationRow) :
    List SymbolRow × List LocationRow :=
  (rows.1.map (SymbolRow.rename f), rows.2.map (LocationRow.rename f))

@[simp] theorem renamed_id (rows : List SymbolRow × List LocationRow) : renamed id rows = rows := by
  have hsymbols : SymbolRow.rename id = id := rfl
  have hlocations : LocationRow.rename id = id := rfl
  rw [renamed, hsymbols, hlocations, List.map_id, List.map_id]

theorem renamed_renamed (f g : SymbolId -> SymbolId) (rows : List SymbolRow × List LocationRow) :
    renamed g (renamed f rows) = renamed (g ∘ f) rows := by
  rw [renamed, renamed, renamed, List.map_map, List.map_map]
  rfl

theorem symbolRows_shift (file : FileId) (part : PartId) (first k : Nat)
    (symbols : List CollectedSymbol) :
    (symbolRows file part first symbols).map (SymbolRow.rename (SymbolId.shift k)) =
      symbolRows file part (first + k) symbols := by
  induction symbols generalizing first with
  | nil => rfl
  | cons symbol rest ih =>
      rw [symbolRows, List.map_cons, ih, symbolRows, Nat.succ_add_eq_add_succ,
        Nat.add_succ]
      rfl

/-!
# One file in two stores
-/

/-- The same is stored about a file, but for the number of its first symbol. -/
structure SameFile (file : FileId) (s t : Store) : Prop where
  parts : t.parts = s.parts
  members : t.members = s.members
  status : t.statuses.get? file = s.statuses.get? file
  records : exists k : Int, t.recordsAt file = renamed (SymbolId.shift k) (s.recordsAt file)

variable {file : FileId} {s t u : Store}

theorem SameFile.refl (file : FileId) (s : Store) : SameFile file s s :=
  ⟨rfl, rfl, rfl, 0, by rw [SymbolId.shift_zero, renamed_id]⟩

theorem SameFile.trans (h : SameFile file s t) (h' : SameFile file t u) : SameFile file s u where
  parts := h'.parts.trans h.parts
  members := h'.members.trans h.members
  status := h'.status.trans h.status
  records := by
    rcases h.records with ⟨j, hj⟩
    rcases h'.records with ⟨k, hk⟩
    refine ⟨j + k, ?_⟩
    rw [hk, hj, renamed_renamed]
    congr 1
    funext id
    exact id.shift_shift j k

theorem SameFile.symm (h : SameFile file s t) : SameFile file t s where
  parts := h.parts.symm
  members := h.members.symm
  status := h.status.symm
  records := by
    rcases h.records with ⟨k, hk⟩
    refine ⟨-k, ?_⟩
    have hback : SymbolId.shift (-k) ∘ SymbolId.shift k = id := by
      funext id
      rw [Function.comp_apply, SymbolId.shift_shift, Int.add_right_neg, SymbolId.shift_zero]
    rw [hk, renamed_renamed, hback, renamed_id]

/-!
# Two files in two stores
-/

/-- Rows that are those of another file. -/
def refiled (file : FileId) (rows : List SymbolRow × List LocationRow) :
    List SymbolRow × List LocationRow :=
  (rows.1.map fun row => { row with file }, rows.2.map fun l => { l with file })

theorem refiled_renamed (g : FileId) (f : SymbolId -> SymbolId)
    (rows : List SymbolRow × List LocationRow) :
    refiled g (renamed f rows) = renamed f (refiled g rows) := by
  rw [refiled, renamed, refiled, renamed, List.map_map, List.map_map, List.map_map, List.map_map]
  rfl

theorem refiled_recordsAt (s : Store) (file : FileId) :
    refiled file (s.recordsAt file) = s.recordsAt file := by
  refine Prod.ext (List.map_congr_left ?_ |>.trans (List.map_id _))
    (List.map_congr_left ?_ |>.trans (List.map_id _))
  · intro row hrow
    rw [← of_decide_eq_true (List.mem_filter.mp hrow).2]
    rfl
  · intro l hl
    rw [← of_decide_eq_true (List.mem_filter.mp hl).2]
    rfl

theorem symbolRows_refiled (f g : FileId) (part : PartId) (first : Nat)
    (symbols : List CollectedSymbol) :
    (symbolRows f part first symbols).map (fun row => { row with file := g }) =
      symbolRows g part first symbols := by
  induction symbols generalizing first with
  | nil => rfl
  | cons symbol rest ih => rw [symbolRows, List.map_cons, ih, symbolRows]

/-- What is stored about one file is what another store has about another file. -/
structure Twins (f g : FileId) (s t : Store) : Prop where
  arguments : forall id, t.parts.get? id = s.parts.get? id
  member : t.members.get? g = s.members.get? f
  status : t.statuses.get? g = s.statuses.get? f
  records : exists k : Int,
    t.recordsAt g = refiled g (renamed (SymbolId.shift k) (s.recordsAt f))

theorem Records.twins {f g : FileId} {part : PartId} {r : Results} (h : s.Records f part r)
    (h' : t.Records g part r) :
    exists k : Int, t.recordsAt g = refiled g (renamed (SymbolId.shift k) (s.recordsAt f)) := by
  rcases h with ⟨first, hfirst⟩
  rcases h' with ⟨first', hfirst'⟩
  -- both sets are those numbered from zero, moved by as much as their first numbers say
  have hzero : forall (file : FileId) (first : Nat),
      (symbolRows file part first r.symbols, r.locations.map (locationRow file first)) =
        renamed (SymbolId.shift first)
          (symbolRows file part 0 r.symbols, r.locations.map (locationRow file 0)) := by
    intro file first
    rw [renamed, symbolRows_shift, Nat.zero_add, List.map_map]
    refine Prod.ext rfl (List.map_congr_left ?_)
    intro l _hl
    simp [locationRow, LocationRow.rename, SymbolId.shift, Int.add_comm]
  have hfiles : refiled g (symbolRows f part 0 r.symbols, r.locations.map (locationRow f 0)) =
      (symbolRows g part 0 r.symbols, r.locations.map (locationRow g 0)) := by
    rw [refiled, symbolRows_refiled, List.map_map]
    rfl
  refine ⟨(first' : Int) - first, ?_⟩
  rw [hfirst, hfirst', hzero f first, hzero g first', renamed_renamed, refiled_renamed, hfiles]
  congr 1
  funext id
  rw [Function.comp_apply, SymbolId.shift_shift, Int.add_comm, Int.sub_add_cancel]

theorem Records.shifted {part : PartId} {r : Results} (h : s.Records file part r)
    (h' : t.Records file part r) :
    exists k : Int, t.recordsAt file = renamed (SymbolId.shift k) (s.recordsAt file) := by
  rcases h.twins h' with ⟨k, hk⟩
  exact ⟨k, by rw [hk, refiled_renamed, refiled_recordsAt]⟩

theorem Twins.of_sameFile {f g : FileId} {s' t' : Store} (h : Twins f g s t)
    (hs : SameFile f s s') (ht : SameFile g t t') : Twins f g s' t' where
  arguments := by
    rw [hs.parts, ht.parts]
    exact h.arguments
  member := by rw [hs.members, ht.members, h.member]
  status := by rw [hs.status, ht.status, h.status]
  records := by
    rcases hs.symm.records with ⟨i, hi⟩
    rcases h.records with ⟨j, hj⟩
    rcases ht.records with ⟨k, hk⟩
    refine ⟨i + j + k, ?_⟩
    rw [hk, hj, hi, ← refiled_renamed, renamed_renamed, renamed_renamed]
    congr 2
    funext id
    rw [Function.comp_apply, Function.comp_apply, SymbolId.shift_shift, SymbolId.shift_shift,
      Int.add_assoc]

/-!
# All files
-/

/-- Two stores that are the same but for the numbers of symbols, which `f` translates. -/
structure Renumbered (f : SymbolId -> SymbolId) (s t : Store) : Prop where
  sources : t.sources = s.sources
  parts : t.parts = s.parts
  members : t.members = s.members
  statuses : forall file, t.statuses.get? file = s.statuses.get? file
  symbols : t.symbols.Perm (s.symbols.map (SymbolRow.rename f))
  locations : t.locations.Perm (s.locations.map (LocationRow.rename f))
  injective : forall a b, a ∈ s.symbols -> b ∈ s.symbols -> f a.id = f b.id -> a.id = b.id
  ordered : forall a b, a ∈ s.symbols -> b ∈ s.symbols -> a.file = b.file ->
    a.id.number < b.id.number -> (f a.id).number < (f b.id).number
  next : t.nextSymbol = s.nextSymbol

theorem perm_of_filter_eq {α : Type} [DecidableEq α] (kind : α -> FileId) {xs ys : List α}
    (h : forall file, xs.filter (fun x => decide (kind x = file)) =
      ys.filter fun y => decide (kind y = file)) : xs.Perm ys := by
  rw [List.perm_iff_count]
  intro x
  have hkind := congrArg (List.count x) (h (kind x))
  rwa [List.count_filter (by simp), List.count_filter (by simp)] at hkind

/-- The number of a symbol when the numbers of each file are moved as far as `k` says. -/
def moved (s : Store) (k : FileId -> Int) (id : SymbolId) : SymbolId :=
  match s.symbols.find? fun row => decide (row.id = id) with
  | some row => id.shift (k row.file)
  | none => id

theorem Linked.moved_eq (hs : s.Linked) (k : FileId -> Int) {row : SymbolRow}
    (hrow : row ∈ s.symbols) : s.moved k row.id = row.id.shift (k row.file) := by
  unfold moved
  cases hfind : s.symbols.find? fun other => decide (other.id = row.id) with
  | none =>
      have hnone := List.find?_eq_none.mp hfind row hrow
      simp at hnone
  | some other =>
      have hid : other.id = row.id := by simpa using List.find?_some hfind
      rw [hs.eq_of_id_eq (List.mem_of_find?_eq_some hfind) hrow hid]

theorem Linked.renamed_moved (hs : s.Linked) (k : FileId -> Int) (file : FileId) :
    renamed (s.moved k) (s.recordsAt file) =
      renamed (SymbolId.shift (k file)) (s.recordsAt file) := by
  refine Prod.ext (List.map_congr_left ?_) (List.map_congr_left ?_)
  · intro row hrow
    rcases List.mem_filter.mp hrow with ⟨hmem, hfile⟩
    rw [SymbolRow.rename, SymbolRow.rename, hs.moved_eq k hmem, of_decide_eq_true hfile]
  · intro l hl
    rcases List.mem_filter.mp hl with ⟨hmem, hfile⟩
    rcases hs.anchored l hmem with ⟨row, hrow, hid, hrowFile⟩
    rw [LocationRow.rename, LocationRow.rename, ← hid, hs.moved_eq k hrow, hrowFile,
      of_decide_eq_true hfile]

theorem exists_renumbered (hs : s.Linked) (ht : t.Linked) (hsources : t.sources = s.sources)
    (hnext : t.nextSymbol = s.nextSymbol) (h : forall file, SameFile file s t) :
    exists f, Renumbered f s t := by
  choose k hk using fun file => (h file).records
  have hrows : forall file, t.recordsAt file = renamed (s.moved k) (s.recordsAt file) :=
    fun file => (hk file).trans (hs.renamed_moved k file).symm
  have hsymbols : t.symbols.Perm (s.symbols.map (SymbolRow.rename (s.moved k))) := by
    refine perm_of_filter_eq SymbolRow.file fun file => ?_
    rw [List.filter_map]
    exact congrArg Prod.fst (hrows file)
  have hlocations : t.locations.Perm (s.locations.map (LocationRow.rename (s.moved k))) := by
    refine perm_of_filter_eq LocationRow.file fun file => ?_
    rw [List.filter_map]
    exact congrArg Prod.snd (hrows file)
  refine ⟨s.moved k, hsources, (h default).parts, (h default).members,
    fun file => (h file).status, hsymbols, hlocations, ?_, ?_, hnext⟩
  · intro a b ha hb hab
    -- rows of one number are one row in `t`, and so they are moved equally far
    have hrename : forall row, row ∈ s.symbols -> row.rename (s.moved k) ∈ t.symbols :=
      fun row hrow => hsymbols.mem_iff.mpr (List.mem_map_of_mem hrow)
    have hsame := ht.eq_of_id_eq (hrename a ha) (hrename b hb) hab
    have hfile : (a.rename (s.moved k)).file = (b.rename (s.moved k)).file := by rw [hsame]
    change a.file = b.file at hfile
    rw [hs.moved_eq k ha, hs.moved_eq k hb, hfile] at hab
    have hback := congrArg (SymbolId.shift (-k b.file)) hab
    rwa [SymbolId.shift_shift, SymbolId.shift_shift, Int.add_right_neg,
      SymbolId.shift_zero] at hback
  · intro a b ha hb hfile hlt
    rw [hs.moved_eq k ha, hs.moved_eq k hb, hfile]
    exact Int.add_lt_add_right hlt _

end Store
end SymbolIndex
