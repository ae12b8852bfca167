import SymbolIndex.Proofs.Extraction.Definitions

/-!
# The references of a tree

Which identifiers refer to a definition, and to which one, said without the tables that the
definitions leave: the first accepted node in preorder with the identifier's text for a
name, wherever in the text it stands.
-/

namespace SymbolIndex

namespace SyntaxTree

/-- Nodes at the same row and column start at the same byte. -/
def Placed (root : SyntaxTree) : Prop :=
  forall t, t ∈ root.nodes -> forall u, u ∈ root.nodes ->
    t.info.row = u.info.row -> t.info.column = u.info.column -> t.info.start = u.info.start

instance (root : SyntaxTree) : Decidable root.Placed :=
  inferInstanceAs (Decidable (forall t, t ∈ root.nodes -> forall u, u ∈ root.nodes ->
    t.info.row = u.info.row -> t.info.column = u.info.column -> t.info.start = u.info.start))

end SyntaxTree

namespace Extraction
namespace Source

open SyntaxTree

variable {s : Source} {root t : SyntaxTree} {way : Way} {n : Naming}

/-!
# Named nodes in preorder
-/

theorem namedNodes_eq (t : SyntaxTree) :
    namedNodes t = t.tour.map fun stop => stop.2.getLastD t := by
  induction t using induction_on_children with
  | node i cs ih =>
      have hbelow : forall (number : Nat) (d : SyntaxTree),
          namedNodesIn cs = (tourIn number cs).map fun stop => stop.2.getLastD d := by
        induction cs with
        | nil => exact fun number d => rfl
        | cons t rest ihrest =>
            intro number d
            rw [namedNodesIn, tourIn, List.map_append,
              ← ihrest (fun c hc => ih c (List.mem_cons_of_mem _ hc)) (number + 1) d]
            congr 1
            cases t.info.named with
            | false => rfl
            | true =>
                rw [if_pos rfl, if_pos rfl, List.map_map, ih t List.mem_cons_self]
                apply List.map_congr_left
                intro stop _hstop
                exact (@List.getLastD_cons _ d t stop.2).symm
      rw [namedNodes, tour, List.map_cons, ← hbelow 0]
      rfl

/-- The named nodes with the ways to them. -/
def reached (root : SyntaxTree) : List (Way × SyntaxTree) :=
  root.tour.map fun stop => (stop.1, stop.2.getLastD root)

theorem mem_reached : (way, t) ∈ reached root ↔ root.node? way = some t := by
  rw [reached, List.mem_map, node?, Option.map_eq_some_iff]
  constructor
  · intro h
    rcases h with ⟨stop, hstop, heq⟩
    cases heq
    exact ⟨stop.2, mem_tour.mp hstop, rfl⟩
  · intro h
    rcases h with ⟨ts, halong, rfl⟩
    exact ⟨(way, ts), mem_tour.mpr halong, rfl⟩

theorem pairwise_reached : (reached root).Pairwise fun a b => a.1 < b.1 :=
  List.pairwise_map.mpr (pairwise_tour root)

/-!
# What an identifier refers to
-/

/-- The accepted node at the end of a way is the first one with its name. -/
structure NamedFirst (s : Source) (root : SyntaxTree) (way : Way) (n : Naming) : Prop where
  accepted : s.Accepts root way n
  first : forall way' n', s.Accepts root way' n' -> n'.name = n.name -> ¬ way' < way

/-- A node is an identifier that names no accepted node but has the name of one. -/
structure Refers (s : Source) (root t : SyntaxTree) : Prop where
  identifier : Language.isIdentifier t.kind = true
  apart : forall way n, s.Accepts root way n -> n.node.info.start ≠ t.info.start
  named : exists way n, s.Accepts root way n ∧ s.textOf t = some n.name

theorem find?_accepted_eq_some {name : String}
    (h : (s.accepted root).find? (fun a => a.2.name == name) = some (way, n)) :
    s.NamedFirst root way n ∧ n.name = name := by
  rcases List.find?_eq_some_iff_append.mp h with ⟨hname, earlier, later, hsplit, hearlier⟩
  have hsorted : (s.accepted root).Pairwise fun a b => a.1 < b.1 := pairwise_accepted
  rw [hsplit] at hsorted
  have hself : (way, n) ∈ s.accepted root := List.mem_of_find?_eq_some h
  refine ⟨⟨mem_accepted.mp hself, ?_⟩, beq_iff_eq.mp hname⟩
  intro way' n' haccepts hsame hlt
  have hmem := mem_accepted.mpr haccepts
  rw [hsplit, List.mem_append, List.mem_cons] at hmem
  rcases hmem with hbefore | hhere | hafter
  · have hother := hearlier _ hbefore
    rw [hsame, hname] at hother
    cases hother
  · cases hhere
    exact List.lt_irrefl _ hlt
  · have hlater := (List.pairwise_cons.mp (List.pairwise_append.mp hsorted).2.1).1 _ hafter
    exact List.lt_asymm hlt hlater

theorem exists_find?_accepted (h : s.Accepts root way n) :
    exists a, (s.accepted root).find? (fun a => a.2.name == n.name) = some a :=
  Option.isSome_iff_exists.mp
    (List.find?_isSome.mpr ⟨(way, n), mem_accepted.mpr h, beq_self_eq_true n.name⟩)

theorem exists_index_of_accepts (h : s.Accepts root way n) :
    exists i, (s.defined root).symbolIndex (s.keyAt root way n.name) = some i := by
  apply Results.exists_symbolIndex
  rw [defined, usrs_defineAll, List.mem_eraseDups, List.map_map]
  exact List.mem_map_of_mem (f := Definition.usr ∘ s.definitionOf root) (mem_accepted.mpr h)

theorem any_start_eq_false_iff :
    ((s.accepted root).map (s.definitionOf root)).any (fun d => d.start == t.info.start) = false ↔
      forall way n, s.Accepts root way n -> n.node.info.start ≠ t.info.start := by
  rw [List.any_map, List.any_eq_false]
  constructor
  · intro h way n haccepts hstart
    exact h (way, n) (mem_accepted.mpr haccepts) (beq_iff_eq.mpr hstart)
  · intro h a ha hstart
    exact h a.1 a.2 (mem_accepted.mp ha) (beq_iff_eq.mp hstart)

/-- The symbol that a node refers to, by the tables that the definitions have left. -/
def indexOf? (s : Source) (root t : SyntaxTree) : Option Nat :=
  s.referenceOf ((s.accepted root).map (s.definitionOf root)) (s.defined root) t

theorem isSome_indexOf? (h : s.Refers root t) : (s.indexOf? root t).isSome = true := by
  rcases h.named with ⟨way, n, haccepts, htext⟩
  rcases exists_find?_accepted haccepts with ⟨a, ha⟩
  have hfirst := (find?_accepted_eq_some ha).1
  rcases exists_index_of_accepts hfirst.accepted with ⟨index, hindex⟩
  rw [indexOf?, referenceOf, h.identifier, any_start_eq_false_iff.mpr h.apart, htext]
  dsimp only
  rw [List.find?_map]
  change (Option.bind (Option.map _ ((s.accepted root).find? fun a => a.2.name == n.name))
    _).isSome = true
  rw [ha]
  exact Option.isSome_iff_exists.mpr ⟨index, hindex⟩

theorem refers_of_indexOf? {i : Nat} (h : s.indexOf? root t = some i) :
    s.Refers root t ∧ exists way n, s.NamedFirst root way n ∧ s.textOf t = some n.name ∧
      (s.defined root).usrs[i]? = some (s.keyAt root way n.name) := by
  rw [indexOf?, referenceOf] at h
  split at h
  · cases h
  · rename_i hcondition
    rw [Bool.not_eq_true, Bool.or_eq_false_iff, Bool.not_eq_false'] at hcondition
    rcases hcondition with ⟨hidentifier, hstart⟩
    split at h
    · cases h
    · rename_i name htext
      rcases Option.bind_eq_some_iff.mp h with ⟨d, hd, hindex⟩
      rw [List.find?_map] at hd
      rcases Option.map_eq_some_iff.mp hd with ⟨a, ha, rfl⟩
      rcases find?_accepted_eq_some ha with ⟨hfirst, rfl⟩
      refine ⟨⟨hidentifier, any_start_eq_false_iff.mp hstart, a.1, a.2, hfirst.accepted, htext⟩, ?_⟩
      exact ⟨a.1, a.2, hfirst, htext, Results.getElem?_usrs_symbolIndex hindex⟩

/-- A location stands where a node stands, and its symbol is the first defined under the node's text. -/
structure CitedAt (s : Source) (root : SyntaxTree) (r : Results) (c : Way × SyntaxTree)
    (l : CollectedLocation) : Prop where
  role : l.role = .reference
  line : l.line = UInt32.ofNat c.2.info.row + 1
  column : l.column = UInt32.ofNat c.2.info.column + 1
  symbol : exists target n, s.NamedFirst root target n ∧ s.textOf c.2 = some n.name ∧
    r.usrs[l.symbol]? = some (s.keyAt root target n.name)

/-- The nodes that refer to a definition, with the ways to them. -/
def cited (s : Source) (root : SyntaxTree) : List (Way × SyntaxTree) :=
  (reached root).filter fun c => (s.indexOf? root c.2).isSome

theorem mem_cited : (way, t) ∈ s.cited root ↔ root.node? way = some t ∧ s.Refers root t := by
  rw [cited, List.mem_filter, mem_reached]
  constructor
  · intro h
    rcases Option.isSome_iff_exists.mp h.2 with ⟨i, hi⟩
    exact ⟨h.1, (refers_of_indexOf? hi).1⟩
  · intro h
    exact ⟨h.1, isSome_indexOf? h.2⟩

theorem forall₂_references :
    List.Forall₂ (s.CitedAt root (s.collect root)) (s.cited root) (s.references root) := by
  let location (c : Way × SyntaxTree) : Option CollectedLocation :=
    (s.indexOf? root c.2).map fun index =>
      ⟨index, position c.2.info.row, position c.2.info.column, .reference⟩
  have hnodes : namedNodes root = (reached root).map Prod.snd := by
    rw [namedNodes_eq, reached, List.map_map]
    rfl
  have hreferences : s.references root = (reached root).filterMap location := by
    rw [references, hnodes, List.filterMap_map]
    rfl
  have hcited : s.cited root = (reached root).filter fun c => (location c).isSome := by
    rw [cited]
    congr 1
    funext c
    exact Option.isSome_map.symm
  rw [hreferences, hcited]
  apply forall₂_filter_filterMap
  intro c l hl
  rcases Option.map_eq_some_iff.mp hl with ⟨index, hindex, rfl⟩
  rcases (refers_of_indexOf? hindex).2 with ⟨target, n, hfirst, htext, hkey⟩
  refine ⟨rfl, rfl, rfl, target, n, hfirst, htext, ?_⟩
  rw [collect_eq]
  exact hkey

theorem position_ne_of_refers {t : SyntaxTree} (hplaced : root.Placed) (ht : t ∈ root.nodes)
    (hrefers : s.Refers root t) (haccepts : s.Accepts root way n) :
    (n.node.info.row, n.node.info.column) ≠ (t.info.row, t.info.column) := by
  intro hsame
  rcases Prod.mk.inj hsame with ⟨hrow, hcolumn⟩
  exact hrefers.apart way n haccepts
    (hplaced _ (mem_nodes_of_accepts haccepts) _ ht hrow hcolumn)

theorem position_injective {m k : Nat} (hm : m < 2 ^ 32) (hk : k < 2 ^ 32)
    (h : position m = position k) : m = k := by
  have hword : UInt32.ofNat m = UInt32.ofNat k := (UInt32.add_left_inj 1).mp h
  have hnat := congrArg UInt32.toNat hword
  rw [UInt32.toNat_ofNat', UInt32.toNat_ofNat', Nat.mod_eq_of_lt hm, Nat.mod_eq_of_lt hk] at hnat
  exact hnat

/--
The references come after the definitions: one for each node that refers to a definition, in
preorder, to the symbol of the first definition of its name. Where positions follow the
bytes, no reference stands at the position of a definition, and none is reported there as
long as rows and columns fit into 32 bits.
-/
theorem collect_references (s : Source) (root : SyntaxTree) :
    exists (definitions references : List CollectedLocation) (cited : List (Way × SyntaxTree)),
      (s.collect root).locations = definitions ++ references ∧
      (forall l, l ∈ definitions -> l.role = .definition) ∧
      (forall way t, (way, t) ∈ cited ↔ root.node? way = some t ∧ s.Refers root t) ∧
      (cited.Pairwise fun a b => a.1 < b.1) ∧
      List.Forall₂ (s.CitedAt root (s.collect root)) cited references ∧
      (root.Placed -> forall way n c, s.Accepts root way n -> c ∈ cited ->
        (n.node.info.row, n.node.info.column) ≠ (c.2.info.row, c.2.info.column)) ∧
      (root.Placed -> root.Within (2 ^ 32) -> forall d l, d ∈ definitions -> l ∈ references ->
        (d.line, d.column) ≠ (l.line, l.column)) := by
  have hapart : root.Placed -> forall way n c, s.Accepts root way n -> c ∈ s.cited root ->
      (n.node.info.row, n.node.info.column) ≠ (c.2.info.row, c.2.info.column) := by
    intro hplaced way n c haccepts hc
    rcases mem_cited.mp hc with ⟨hnode, hrefers⟩
    exact position_ne_of_refers hplaced (mem_nodes_of_node? hnode) hrefers haccepts
  refine ⟨(s.defined root).locations, s.references root, s.cited root, by rw [collect_eq],
    fun l hl => role_of_mem_defined hl, fun way t => mem_cited,
    pairwise_reached.filter _, forall₂_references, hapart, ?_⟩
  intro hplaced hwithin d l hd hl hsame
  rcases marks_of_mem_locations hd with ⟨found, hfound, hmarks⟩
  rcases List.mem_map.mp hfound with ⟨a, ha, rfl⟩
  rcases exists_left_of_forall₂ forall₂_references hl with ⟨c, hc, hat⟩
  have haccepts := mem_accepted.mp ha
  have hname := hwithin _ (mem_nodes_of_accepts haccepts)
  have hnode := hwithin _ (mem_nodes_of_node? (mem_cited.mp hc).1)
  rcases Prod.mk.inj hsame with ⟨hline, hcolumn⟩
  apply hapart hplaced a.1 a.2 c haccepts hc
  rw [Prod.mk.injEq]
  constructor
  · exact position_injective hname.1 hnode.1 (hmarks.line.symm.trans (hline.trans hat.line))
  · exact position_injective hname.2 hnode.2 (hmarks.column.symm.trans (hcolumn.trans hat.column))

theorem collect_references_nested :
    nestedTree.Placed ∧ nestedTree.Within (2 ^ 32) ∧
      exists (definitions : List CollectedLocation) (cited : List (Way × SyntaxTree)),
        (nested.collect nestedTree).locations =
          definitions ++ [⟨1, 1, 10, .reference⟩, ⟨0, 3, 18, .reference⟩] ∧
        (forall way t, (way, t) ∈ cited ↔ nestedTree.node? way = some t ∧ nested.Refers nestedTree t) ∧
        List.Forall₂ (nested.CitedAt nestedTree (nested.collect nestedTree)) cited
          [⟨1, 1, 10, .reference⟩, ⟨0, 3, 18, .reference⟩] ∧
        forall d l, d ∈ definitions ->
          l ∈ [(⟨1, 1, 10, .reference⟩ : CollectedLocation), ⟨0, 3, 18, .reference⟩] ->
            (d.line, d.column) ≠ (l.line, l.column) := by
  have hplaced : nestedTree.Placed := by decide
  have hwithin : nestedTree.Within (2 ^ 32) := by decide
  rcases collect_references nested nestedTree with
    ⟨definitions, references, cited, hlocations, hroles, hmem, -, hcited, -, hdistinct⟩
  have hfilter : references =
      (nested.collect nestedTree).locations.filter fun l => l.role == .reference := by
    rw [hlocations, List.filter_append, List.filter_eq_nil_iff.mpr, List.nil_append,
      List.filter_eq_self.mpr]
    · intro l hl
      rcases exists_left_of_forall₂ hcited hl with ⟨c, -, hat⟩
      rw [hat.role]
      rfl
    · intro l hl
      rw [hroles l hl]
      exact Bool.noConfusion
  have hvalue : references = [⟨1, 1, 10, .reference⟩, ⟨0, 3, 18, .reference⟩] := by
    rw [hfilter]
    decide +kernel
  exact ⟨hplaced, hwithin, definitions, cited, hvalue ▸ hlocations, hmem, hvalue ▸ hcited,
    hvalue ▸ hdistinct hplaced hwithin⟩

end Source
end Extraction
end SymbolIndex
