import SymbolIndex.Proofs.Store.Records

/-!
# Reading records back

The symbols and locations of a file as a result set: the symbols in the order of their
rows, and each location with the place of its symbol among them. A result set that was
recorded is read back as it was.
-/

namespace SymbolIndex
namespace Store

def readSymbolRow (row : SymbolRow) : Option CollectedSymbol :=
  (SymbolKind.ofText? row.kind).map fun kind => ⟨row.usr, kind, row.name⟩

def placeOf? (rows : List SymbolRow) (id : SymbolId) : Option Nat :=
  rows.findIdx? fun row => decide (row.id = id)

/-- A location that names its symbol by the place among `rows`. -/
def readLocationRow (rows : List SymbolRow) (l : LocationRow) : Option CollectedLocation :=
  match placeOf? rows l.symbol, Role.ofText? l.role with
  | some symbol, some role => some ⟨symbol, l.line, l.column, role⟩
  | _, _ => none

/-- The result set that the rows of a file make up. -/
def readBack (s : Store) (file : FileId) : Option Results :=
  let (rows, places) := s.recordsAt file
  match rows.mapM readSymbolRow, places.mapM (readLocationRow rows) with
  | some symbols, some locations => some ⟨symbols, locations⟩
  | _, _ => none

theorem kindOfText?_text (kind : SymbolKind) : SymbolKind.ofText? kind.text = some kind := by
  cases kind <;> decide +kernel

theorem mapM_readSymbolRow (file : FileId) (part : PartId) (first : Nat)
    (symbols : List CollectedSymbol) :
    (symbolRows file part first symbols).mapM readSymbolRow = some symbols := by
  induction symbols generalizing first with
  | nil => rfl
  | cons symbol rest ih =>
      rw [symbolRows, List.mapM_cons, ih]
      simp [readSymbolRow, kindOfText?_text]

theorem placeOf?_symbolRows (file : FileId) (part : PartId) (first : Nat)
    {symbols : List CollectedSymbol} {n : Nat} (h : n < symbols.length) :
    placeOf? (symbolRows file part first symbols) ⟨(first + n : Nat)⟩ = some n := by
  induction symbols generalizing first n with
  | nil => cases h
  | cons symbol rest ih =>
      rw [placeOf?, symbolRows, List.findIdx?_cons]
      cases n with
      | zero => simp
      | succ n =>
          have hrest := ih (first + 1) (Nat.lt_of_succ_lt_succ h)
          rw [placeOf?, show first + 1 + n = first + (n + 1) by omega] at hrest
          rw [if_neg (by simp; omega), hrest]
          rfl

theorem readLocationRow_locationRow (file : FileId) (part : PartId) (first : Nat)
    {symbols : List CollectedSymbol} {l : CollectedLocation} (h : l.symbol < symbols.length) :
    readLocationRow (symbolRows file part first symbols) (locationRow file first l) = some l := by
  simp only [readLocationRow, locationRow, placeOf?_symbolRows file part first h,
    Role.ofText?_text]

theorem mapM_readLocationRow (file : FileId) (part : PartId) (first : Nat)
    {symbols : List CollectedSymbol} {locations : List CollectedLocation}
    (h : forall l, l ∈ locations -> l.symbol < symbols.length) :
    (locations.map (locationRow file first)).mapM
      (readLocationRow (symbolRows file part first symbols)) = some locations := by
  induction locations with
  | nil => rfl
  | cons l rest ih =>
      rw [List.map_cons, List.mapM_cons,
        readLocationRow_locationRow file part first (h l List.mem_cons_self),
        ih fun other hother => h other (List.mem_cons_of_mem l hother)]
      rfl

theorem Records.readBack {s : Store} {file : FileId} {part : PartId} {r : Results}
    (h : s.Records file part r) (hr : strayLocation? r = none) : s.readBack file = some r := by
  rcases h with ⟨first, hfirst⟩
  have hlocations := mapM_readLocationRow file part first ((strayLocation?_eq_none_iff r).mp hr)
  simp only [Store.readBack, hfirst, mapM_readSymbolRow, hlocations]

end Store
end SymbolIndex
