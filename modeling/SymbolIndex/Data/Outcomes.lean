import SymbolIndex.Data.Rows
import SymbolIndex.Scheduler
import SymbolIndex.Store.Mutation

/-!
# Outcomes

What became of results and of tasks as data: the list of a word and its details.
-/

namespace SymbolIndex

instance : ToData ApplyOutcome := ⟨fun
  | .applied symbols locations => .list [.text "applied", toData symbols, toData locations]
  | .unchanged => .list [.text "unchanged"]
  | .stale => .list [.text "stale"]⟩

instance : ToData TaskOutcome := ⟨fun
  | .indexed symbols locations => .list [.text "indexed", toData symbols, toData locations]
  | .unchanged => .list [.text "unchanged"]
  | .stale => .list [.text "stale"]
  | .parseFailed message => .list [.text "parse_failed", .text message]
  | .storageFailed message => .list [.text "storage_failed", .text message]
  | .collectorUnavailable message => .list [.text "collector_unavailable", .text message]⟩

end SymbolIndex
