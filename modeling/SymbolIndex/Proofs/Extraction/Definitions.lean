import Mathlib.Algebra.GroupWithZero.Nat
import Mathlib.Data.List.Induction
import SymbolIndex.Proofs.Distinct
import SymbolIndex.Proofs.Extraction.Accepted
import SymbolIndex.Proofs.Matching
import SymbolIndex.Proofs.Results

/-!
# The definitions of a tree

The definitions found in a tree are put down one by one: each leaves one location, and a
symbol if its key is new. What comes out is read off the accepted nodes in preorder.
-/

namespace SymbolIndex
namespace Extraction

open SyntaxTree

/-!
# The node that names a definition
-/

theorem mem_nodes_of_innermostName {t name : SyntaxTree} (h : innermostName t = some name) :
    name ∈ t.nodes := by
  induction t using induction_on_children with
  | node i cs ih =>
      rw [innermostName] at h
      split at h
      · cases h
        exact self_mem_nodes _
      · split at h
        · split at h
          · rename_i c hchild
            have hmem := child?_mem hchild
            exact mem_nodes_of_child hmem (ih c hmem h)
          · cases h
        · cases h

theorem mem_nodes_of_declaredName {t name : SyntaxTree} (h : declaredName t = some name) :
    name ∈ t.nodes := by
  induction t using induction_on_children with
  | node i cs ih =>
      rw [declaredName] at h
      split at h
      · rename_i name' hname
        cases h
        exact mem_nodes_of_innermostName hname
      · split at h
        · rename_i c hchild
          have hmem := child?_mem hchild
          exact mem_nodes_of_child hmem (ih c hmem h)
        · cases h

theorem mem_nodesIn_of_definitionName {t name : SyntaxTree} (h : definitionName t = some name) :
    name ∈ nodesIn t.children := by
  rw [definitionName] at h
  split at h
  · rename_i c hchild
    exact mem_nodesIn.mpr ⟨c, child?_mem hchild, mem_nodes_of_innermostName h⟩
  · rcases Option.bind_eq_some_iff.mp h with ⟨c, hchild, hname⟩
    exact mem_nodesIn.mpr ⟨c, child?_mem hchild, mem_nodes_of_declaredName hname⟩

theorem mem_nodes_of_definitionName {t name : SyntaxTree} (h : definitionName t = some name) :
    name ∈ t.nodes := by
  rcases mem_nodesIn.mp (mem_nodesIn_of_definitionName h) with ⟨c, hc, hname⟩
  exact mem_nodes_of_child hc hname

namespace Source

variable {s : Source} {root : SyntaxTree} {ds : List Definition}

/-!
# Definitions put down one by one
-/

theorem defineAll_concat (ds : List Definition) (d : Definition) :
    defineAll (ds ++ [d]) = (defineAll ds).define d.symbol d.line d.column := by
  rw [defineAll, List.foldl_append]
  rfl

theorem usrs_defineAll (ds : List Definition) :
    (defineAll ds).usrs = (ds.map Definition.usr).eraseDups := by
  induction ds using List.reverseRecOn with
  | nil => rfl
  | append_singleton ds d ih =>
      rw [defineAll_concat, Results.usrs_define, ih, List.map_append, List.map_singleton,
        eraseDups_concat]
      rfl

theorem nodup_usrs_defineAll (ds : List Definition) : (defineAll ds).usrs.Nodup := by
  induction ds using List.reverseRecOn with
  | nil => exact List.nodup_nil
  | append_singleton ds d ih =>
      rw [defineAll_concat]
      exact Results.nodup_usrs_define ih

/-- Each symbol is that of the first definition under its key. -/
theorem find?_of_mem_symbols {symbol : CollectedSymbol} (h : symbol ∈ (defineAll ds).symbols) :
    exists d, ds.find? (fun d => d.usr == symbol.usr) = some d ∧ symbol = d.symbol := by
  induction ds using List.reverseRecOn with
  | nil => cases h
  | append_singleton ds d ih =>
      rw [defineAll_concat, Results.symbols_define] at h
      have hearlier : symbol ∈ (defineAll ds).symbols ->
          exists d', (ds ++ [d]).find? (fun d => d.usr == symbol.usr) = some d' ∧
            symbol = d'.symbol := by
        intro hmem
        rcases ih hmem with ⟨d', hfind, hsymbol⟩
        exact ⟨d', by rw [List.find?_append, hfind, Option.some_or], hsymbol⟩
      split at h
      · exact hearlier h
      · rename_i hnew
        rcases List.mem_append.mp h with hmem | hself
        · exact hearlier hmem
        · rw [List.mem_singleton.mp hself]
          refine ⟨d, ?_, rfl⟩
          -- a definition that came before would have left its key
          rw [List.find?_append, List.find?_eq_none.mpr, Option.none_or]
          · simp [Definition.symbol]
          · intro d' hd' hsame
            rw [usrs_defineAll, List.mem_eraseDups] at hnew
            exact hnew (beq_iff_eq.mp hsame ▸ List.mem_map_of_mem hd')

/-- A location that a definition has left. -/
structure Marks (r : Results) (d : Definition) (l : CollectedLocation) : Prop where
  role : l.role = .definition
  line : l.line = d.line
  column : l.column = d.column
  symbol : r.symbolIndex d.usr = some l.symbol

theorem locations_defineAll (ds : List Definition) :
    List.Forall₂ (Marks (defineAll ds)) ds (defineAll ds).locations := by
  induction ds using List.reverseRecOn with
  | nil => exact List.Forall₂.nil
  | append_singleton ds d ih =>
      rw [defineAll_concat]
      rcases Results.locations_define (defineAll ds) d.symbol d.line d.column with
        ⟨i, hindex, hlocations⟩
      rw [hlocations]
      apply List.rel_append
      · exact ih.imp fun d' l h =>
          ⟨h.role, h.line, h.column, Results.symbolIndex_define_of_some h.symbol⟩
      · exact List.Forall₂.cons ⟨rfl, rfl, rfl, hindex⟩ List.Forall₂.nil

theorem marks_of_mem_locations {l : CollectedLocation} (h : l ∈ (defineAll ds).locations) :
    exists d, d ∈ ds ∧ Marks (defineAll ds) d l :=
  exists_left_of_forall₂ (locations_defineAll ds) h

theorem exists_marks_of_mem {d : Definition} (h : d ∈ ds) :
    exists l, l ∈ (defineAll ds).locations ∧ Marks (defineAll ds) d l :=
  exists_right_of_forall₂ (locations_defineAll ds) h

/-!
# What is collected
-/

/-- The results before references are added. -/
def defined (s : Source) (root : SyntaxTree) : Results :=
  defineAll ((s.accepted root).map (s.definitionOf root))

/-- The locations of references. -/
def references (s : Source) (root : SyntaxTree) : List CollectedLocation :=
  (namedNodes root).filterMap fun t =>
    (s.referenceOf ((s.accepted root).map (s.definitionOf root)) (s.defined root) t).map fun index =>
      ⟨index, position t.info.row, position t.info.column, .reference⟩

theorem collect_eq : s.collect root =
    ⟨(s.defined root).symbols, (s.defined root).locations ++ s.references root⟩ := by
  rw [collect, definitionsIn_eq_map]
  rfl

theorem role_of_mem_defined {l : CollectedLocation} (h : l ∈ (s.defined root).locations) :
    l.role = .definition := by
  rcases marks_of_mem_locations h with ⟨d, -, hmarks⟩
  exact hmarks.role

theorem role_of_mem_references {l : CollectedLocation} (h : l ∈ s.references root) :
    l.role = .reference := by
  rcases List.mem_filterMap.mp h with ⟨t, -, ht⟩
  rcases Option.map_eq_some_iff.mp ht with ⟨index, -, rfl⟩
  rfl

theorem filter_definition_collect :
    ((s.collect root).locations.filter fun l => l.role == .definition) =
      (s.defined root).locations := by
  rw [collect_eq, List.filter_append, List.filter_eq_self.mpr, List.filter_eq_nil_iff.mpr,
    List.append_nil]
  · intro l hl
    simp [role_of_mem_references hl]
  · intro l hl
    simp [role_of_mem_defined hl]

theorem toNat_position {n : Nat} (h : n < 2 ^ 32 - 1) : (position n).toNat = n + 1 := by
  rw [position, UInt32.toNat_add, UInt32.toNat_ofNat']
  have hone : UInt32.toNat 1 = 1 := rfl
  omega

theorem mem_nodes_of_accepts {way : Way} {n : Naming} (h : s.Accepts root way n) :
    n.node ∈ root.nodes := by
  rcases h with ⟨above, t, halong, hdefines⟩
  have ht : t ∈ root.nodes := mem_nodes_of_along? halong (List.mem_append_right _ List.mem_cons_self)
  exact mem_nodes_trans ht (mem_nodes_of_definitionName hdefines.node)

/-- A location stands where an accepted node is named, and its symbol has the key of that node. -/
structure DefinedAt (s : Source) (root : SyntaxTree) (r : Results) (a : Way × Naming)
    (l : CollectedLocation) : Prop where
  line : l.line.toNat = a.2.node.info.row + 1
  column : l.column.toNat = a.2.node.info.column + 1
  symbol : r.usrs[l.symbol]? = some (s.keyAt root a.1 a.2.name)

/--
The accepted nodes, in preorder, have one defining location each. The symbols have the keys
of these nodes in the order in which they come up first, with the kind and the name of the
first node under each key.
-/
theorem collect_definitions (s : Source) (root : SyntaxTree) (hwithin : root.Within (2 ^ 32 - 1)) :
    exists accepted : List (Way × Naming),
      (forall way n, (way, n) ∈ accepted ↔ s.Accepts root way n) ∧
      (accepted.Pairwise fun a b => a.1 < b.1) ∧
      List.Forall₂ (s.DefinedAt root (s.collect root)) accepted
        ((s.collect root).locations.filter fun l => l.role == .definition) ∧
      (s.collect root).usrs = (accepted.map fun a => s.keyAt root a.1 a.2.name).eraseDups ∧
      forall symbol, symbol ∈ (s.collect root).symbols ->
        exists a, accepted.find? (fun a => s.keyAt root a.1 a.2.name == symbol.usr) = some a ∧
          symbol.kind = a.2.kind ∧ symbol.name = a.2.name := by
  refine ⟨s.accepted root, fun way n => mem_accepted, pairwise_accepted, ?_, ?_, ?_⟩
  · rw [filter_definition_collect, collect_eq]
    have hmarks := List.forall₂_map_left_iff.mp
      (locations_defineAll ((s.accepted root).map (s.definitionOf root)))
    have hnamed : forall a, a ∈ s.accepted root -> a.2.node ∈ root.nodes :=
      fun a ha => mem_nodes_of_accepts (mem_accepted.mp ha)
    apply ((List.forall₂_and_left _ _).mpr ⟨hnamed, hmarks⟩).imp
    intro a l h
    rcases h with ⟨hmem, hleft⟩
    constructor
    · rw [hleft.line]
      exact toNat_position (hwithin _ hmem).1
    · rw [hleft.column]
      exact toNat_position (hwithin _ hmem).2
    · exact Results.getElem?_usrs_symbolIndex hleft.symbol
  · rw [collect_eq]
    have husrs := usrs_defineAll ((s.accepted root).map (s.definitionOf root))
    rw [List.map_map] at husrs
    exact husrs
  · intro symbol hsymbol
    rw [collect_eq] at hsymbol
    rcases find?_of_mem_symbols hsymbol with ⟨d, hfind, rfl⟩
    rw [List.find?_map] at hfind
    rcases Option.map_eq_some_iff.mp hfind with ⟨a, ha, rfl⟩
    exact ⟨a, ha, rfl, rfl⟩

theorem collect_definitions_nested :
    nestedTree.Within (2 ^ 32 - 1) ∧
      (nested.collect nestedTree).usrs = ["py:f", "py:A", "py:A::f"] ∧
      exists accepted : List (Way × Naming),
        (forall way n, (way, n) ∈ accepted ↔ nested.Accepts nestedTree way n) ∧
        List.Forall₂ (nested.DefinedAt nestedTree (nested.collect nestedTree)) accepted
          [⟨0, 1, 5, .definition⟩, ⟨1, 2, 7, .definition⟩, ⟨2, 3, 9, .definition⟩] := by
  have hwithin : nestedTree.Within (2 ^ 32 - 1) := by decide
  have hlocations : ((nested.collect nestedTree).locations.filter fun l => l.role == .definition) =
      [⟨0, 1, 5, .definition⟩, ⟨1, 2, 7, .definition⟩, ⟨2, 3, 9, .definition⟩] := by decide +kernel
  rcases collect_definitions nested nestedTree hwithin with ⟨accepted, hmem, -, hdefined, -, -⟩
  rw [hlocations] at hdefined
  exact ⟨hwithin, by decide +kernel, accepted, hmem, hdefined⟩

end Source
end Extraction
end SymbolIndex
