import SymbolIndex.Proofs.Store.Records

/-!
# Records put in row by row

The records of a file are replaced by dropping the old rows and putting in the new ones
one by one; each symbol gets the next number, and a location is looked up among the
numbers just given. That stops at the first location that names no symbol, and otherwise
gives the rows that the result set stands for.
-/

namespace SymbolIndex
namespace Store

def insertSymbol (s : Store) (file : FileId) (part : PartId) (symbol : CollectedSymbol) : Store :=
  { s with
    symbols := s.symbols ++ [⟨⟨s.nextSymbol⟩, symbol.usr, symbol.name, symbol.kind.text, file, part⟩]
    nextSymbol := s.nextSymbol + 1 }

/-- Put in symbols one after the other; also give their numbers. -/
def insertSymbols (s : Store) (file : FileId) (part : PartId) :
    List CollectedSymbol -> Store × List SymbolId
  | [] => (s, [])
  | symbol :: rest =>
      let (after, ids) := (s.insertSymbol file part symbol).insertSymbols file part rest
      (after, ⟨s.nextSymbol⟩ :: ids)

def insertLocation (file : FileId) (ids : List SymbolId) (s : Store) (l : CollectedLocation) :
    Except Failure Store :=
  match ids[l.symbol]? with
  | some id =>
      .ok { s with locations := s.locations ++ [⟨id, file, l.line, l.column, l.role.text⟩] }
  | none => .error (strayFailure l)

/-- Replace the records of a file row by row. -/
def insertRecords (s : Store) (file : FileId) (part : PartId) (r : Results) :
    Except Failure Store :=
  let kept := s.dropSymbols fun row => decide (row.file = file)
  let (filled, ids) := kept.insertSymbols file part r.symbols
  r.locations.foldlM (insertLocation file ids) filled

theorem insertSymbols_eq (s : Store) (file : FileId) (part : PartId)
    (symbols : List CollectedSymbol) :
    s.insertSymbols file part symbols =
      ({ s with
          symbols := s.symbols ++ symbolRows file part s.nextSymbol symbols
          nextSymbol := s.nextSymbol + symbols.length },
        (List.range' s.nextSymbol symbols.length).map fun n : Nat => ⟨n⟩) := by
  induction symbols generalizing s with
  | nil => simp [insertSymbols, symbolRows]
  | cons symbol rest ih =>
      rw [insertSymbols, ih]
      simp [insertSymbol, symbolRows, List.range'_succ, Nat.add_assoc, Nat.add_comm 1]

theorem getElem?_ids (first count index : Nat) :
    ((List.range' first count).map fun n : Nat => (⟨n⟩ : SymbolId))[index]? =
      if index < count then some ⟨(first + index : Nat)⟩ else none := by
  by_cases hindex : index < count
  · simp [hindex]
  · simp [hindex]

theorem foldlM_insertLocation (s : Store) (file : FileId) (first count : Nat)
    (locations : List CollectedLocation) :
    locations.foldlM (insertLocation file ((List.range' first count).map fun n : Nat => ⟨n⟩)) s =
      match locations.find? fun l => decide (count ≤ l.symbol) with
      | some l => .error (strayFailure l)
      | none => .ok { s with locations := s.locations ++ locations.map (locationRow file first) } := by
  induction locations generalizing s with
  | nil => simp; rfl
  | cons l rest ih =>
      rw [List.foldlM_cons, insertLocation, getElem?_ids, List.find?_cons]
      by_cases hl : l.symbol < count
      · rw [if_pos hl, decide_eq_false (Nat.not_le_of_lt hl)]
        refine (ih _).trans ?_
        cases rest.find? fun l => decide (count ≤ l.symbol) with
        | some l => rfl
        | none => simp [locationRow]
      · rw [if_neg hl, decide_eq_true (Nat.le_of_not_lt hl)]
        rfl

theorem insertRecords_eq (s : Store) (file : FileId) (part : PartId) (r : Results) :
    s.insertRecords file part r =
      match strayLocation? r with
      | some l => .error (strayFailure l)
      | none => .ok (s.replaceRecords file part r) := by
  rw [insertRecords, insertSymbols_eq]
  exact foldlM_insertLocation _ file s.nextSymbol r.symbols.length r.locations

end Store
end SymbolIndex
