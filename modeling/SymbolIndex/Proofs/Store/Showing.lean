import SymbolIndex.Proofs.Store.ReadBack
import SymbolIndex.Store.Query

/-!
# What queries show

The rows of a file are not what a reader of the index sees. Queries show the symbols of a
file in the order of their numbers, and the locations of a symbol by line and column,
whatever the order in which they were stored.
-/

namespace SymbolIndex
namespace Store

/-- The symbols of a result set as queries give them, numbered from `first` on. -/
def shownSymbols (file : FileId) (part : PartId) (first : Nat)
    (symbols : List CollectedSymbol) : List SymbolRecord :=
  (symbols.zipIdx first).map fun (symbol, number) =>
    ⟨⟨number⟩, symbol.usr, symbol.kind, symbol.name, file, part⟩

/-- Places in a file stand by line and column. -/
def placeLe (a b : CollectedLocation) : Bool :=
  if a.line ≠ b.line then decide (a.line ≤ b.line) else decide (a.column ≤ b.column)

def shownLocation (file : FileId) (first : Nat) (l : CollectedLocation) : LocationRecord :=
  ⟨⟨(first + l.symbol : Nat)⟩, file, l.line, l.column, l.role⟩

/-- The locations of the symbol at `index`, those of one place in the order of the results. -/
def shownLocations (file : FileId) (first : Nat) (locations : List CollectedLocation)
    (index : Nat) : List LocationRecord :=
  ((locations.filter fun l => decide (l.symbol = index)).mergeSort placeLe).map
    (shownLocation file first)

/-- Queries show a result set of a part about a file, its symbols numbered from `first` on. -/
structure Shows (s : Store) (file : FileId) (part : PartId) (r : Results) (first : Nat) :
    Prop where
  symbols : s.symbolsIn file = .ok (shownSymbols file part first r.symbols)
  locations : forall index, index < r.symbols.length ->
    s.locationsOf ⟨(first + index : Nat)⟩ = .ok (shownLocations file first r.locations index)

theorem Shows.putStatus {s : Store} {file : FileId} {part : PartId} {r : Results} {first : Nat}
    (h : s.Shows file part r first) (other : FileId) (row : StatusRow) :
    (s.putStatus other row).Shows file part r first :=
  ⟨h.symbols, h.locations⟩

theorem mapM_readSymbol (file : FileId) (part : PartId) (first : Nat)
    (symbols : List CollectedSymbol) :
    (symbolRows file part first symbols).mapM readSymbol =
      .ok (shownSymbols file part first symbols) := by
  induction symbols generalizing first with
  | nil => rfl
  | cons symbol rest ih =>
      rw [symbolRows, List.mapM_cons, ih, readSymbol, kindOfText?_text]
      rfl

theorem readLocation_locationRow (file : FileId) (first : Nat) (l : CollectedLocation) :
    readLocation (locationRow file first l) = .ok (shownLocation file first l) := by
  rw [readLocation, locationRow, Role.ofText?_text]
  rfl

theorem mapM_readLocation (file : FileId) (first : Nat) (locations : List CollectedLocation) :
    (locations.map (locationRow file first)).mapM readLocation =
      .ok (locations.map (shownLocation file first)) := by
  have hread : readLocation ∘ locationRow file first =
      fun l => Except.ok (shownLocation file first l) :=
    funext (readLocation_locationRow file first)
  rw [List.mapM_map, hread]
  exact List.mapM_pure

theorem locationLe_locationRow (file : FileId) (first : Nat) (a b : CollectedLocation) :
    locationLe (locationRow file first a) (locationRow file first b) = placeLe a b := by
  rw [locationLe, if_neg fun hne => hne rfl]
  rfl

theorem Linked.locations_of_symbol {s : Store} (h : s.Linked) {row : SymbolRow}
    (hrow : row ∈ s.symbols) :
    s.locations.filter (fun l => decide (l.symbol = row.id)) =
      (s.recordsAt row.file).2.filter fun l => decide (l.symbol = row.id) := by
  rw [recordsAt, List.filter_filter]
  apply List.filter_congr
  intro l hl
  by_cases hsymbol : l.symbol = row.id
  · rcases h.anchored l hl with ⟨anchor, hanchor, hid, hfile⟩
    rw [h.eq_of_id_eq hanchor hrow (hid.trans hsymbol)] at hfile
    simp [hfile]
  · simp [hsymbol]

theorem Linked.shows {s : Store} (h : s.Linked) {file : FileId} {part : PartId} {r : Results}
    {first : Nat} (hrecords : s.recordsAt file =
      (symbolRows file part first r.symbols, r.locations.map (locationRow file first))) :
    s.Shows file part r first where
  symbols := by
    have hrows : (s.recordsAt file).1 = symbolRows file part first r.symbols := by rw [hrecords]
    rw [symbolsIn]
    exact (congrArg (List.mapM readSymbol) hrows).trans (mapM_readSymbol file part first r.symbols)
  locations := by
    intro index hindex
    rcases exists_mem_symbolRows file part first hindex with ⟨row, hrow, hid⟩
    have hstored : row ∈ (s.recordsAt file).1 := by
      rw [hrecords]
      exact hrow
    have hplaces := h.locations_of_symbol (List.mem_filter.mp hstored).1
    rw [(mem_symbolRows hrow).1, hid, hrecords, List.filter_map] at hplaces
    have hpick : ((fun l : LocationRow => decide (l.symbol = ⟨(first + index : Nat)⟩)) ∘
        locationRow file first) = fun l => decide (l.symbol = index) := by
      funext l
      simp only [Function.comp_apply, locationRow, SymbolId.mk.injEq, Int.natCast_inj,
        Nat.add_left_cancel_iff]
    rw [locationsOf, hplaces, hpick,
      ← List.map_mergeSort fun a _ b _ => (locationLe_locationRow file first a b).symm,
      mapM_readLocation]
    rfl

end Store
end SymbolIndex
