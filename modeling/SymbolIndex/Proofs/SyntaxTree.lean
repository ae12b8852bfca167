import Mathlib.Data.List.Pairwise
import SymbolIndex.SyntaxTree

/-!
# Ways through a syntax tree

A node of a tree is found by a way: which child to go down to from the root, again and
again. The ways that lead through named nodes alone, each with the nodes on it, are listed
by a tour of the tree. The tour is in preorder, which is the lexicographic order of the
ways, and it meets the named nodes as a traversal does.
-/

namespace SymbolIndex
namespace SyntaxTree

/-- The numbers of the children to go down to. -/
abbrev Way := List Nat

/-- The nodes on a way below the first one, if all of them are there and named. -/
def along? : SyntaxTree -> Way -> Option (List SyntaxTree)
  | _, [] => some []
  | t, i :: way =>
      match t.children[i]? with
      | some c => if c.info.named then (along? c way).map (c :: ·) else none
      | none => none

/-- The node at the end of a way through named nodes. -/
def node? (root : SyntaxTree) (way : Way) : Option SyntaxTree :=
  (root.along? way).map fun nodes => nodes.getLastD root

mutual

/-- All nodes of a tree, named or not. -/
def nodes : SyntaxTree -> List SyntaxTree
  | .node i cs => .node i cs :: nodesIn cs

def nodesIn : List SyntaxTree -> List SyntaxTree
  | [] => []
  | t :: rest => nodes t ++ nodesIn rest

end

/-- All rows and columns of a tree are below a bound. -/
def Within (bound : Nat) (root : SyntaxTree) : Prop :=
  forall t, t ∈ root.nodes -> t.info.row < bound ∧ t.info.column < bound

instance (bound : Nat) (root : SyntaxTree) : Decidable (root.Within bound) :=
  inferInstanceAs (Decidable (forall t, t ∈ root.nodes -> _))

@[elab_as_elim]
theorem induction_on_children {P : SyntaxTree -> Prop}
    (node : forall i cs, (forall c, c ∈ cs -> P c) -> P (.node i cs)) : forall t, P t
  | .node i cs => node i cs fun c _hc => induction_on_children node c
termination_by t => sizeOf t
decreasing_by exact sizeOf_child_lt (t := .node i cs) _hc

/-!
# All nodes
-/

theorem self_mem_nodes (t : SyntaxTree) : t ∈ t.nodes := by
  cases t with
  | node i cs => rw [nodes]; exact List.mem_cons_self

theorem mem_nodesIn {u : SyntaxTree} {ts : List SyntaxTree} :
    u ∈ nodesIn ts ↔ exists t, t ∈ ts ∧ u ∈ t.nodes := by
  induction ts with
  | nil => simp [nodesIn]
  | cons t rest ih => simp [nodesIn, ih]

theorem mem_nodes_of_child {t c u : SyntaxTree} (hc : c ∈ t.children) (hu : u ∈ c.nodes) :
    u ∈ t.nodes := by
  cases t with
  | node i cs =>
      rw [nodes]
      exact List.mem_cons_of_mem _ (mem_nodesIn.mpr ⟨c, hc, hu⟩)

theorem length_nodes_lt {t c : SyntaxTree} (hc : c ∈ t.children) :
    c.nodes.length < t.nodes.length := by
  have hbelow : forall cs : List SyntaxTree, c ∈ cs -> c.nodes.length ≤ (nodesIn cs).length := by
    intro cs hmem
    induction cs with
    | nil => cases hmem
    | cons first rest ih =>
        rw [nodesIn, List.length_append]
        rcases List.mem_cons.mp hmem with rfl | hrest
        · exact Nat.le_add_right ..
        · exact Nat.le_trans (ih hrest) (Nat.le_add_left ..)
  cases t with
  | node i cs =>
      rw [nodes, List.length_cons]
      exact Nat.lt_succ_of_le (hbelow cs hc)

theorem mem_nodes_trans {t u v : SyntaxTree} (hu : u ∈ t.nodes) (hv : v ∈ u.nodes) : v ∈ t.nodes := by
  induction t using induction_on_children with
  | node i cs ih =>
      rw [nodes, List.mem_cons] at hu
      rcases hu with rfl | hbelow
      · exact hv
      · rcases mem_nodesIn.mp hbelow with ⟨c, hc, hmem⟩
        exact mem_nodes_of_child (t := .node i cs) hc (ih c hc hmem)

theorem mem_nodes_of_along? {t u : SyntaxTree} {way : Way} {ts : List SyntaxTree}
    (h : t.along? way = some ts) (hu : u ∈ ts) : u ∈ t.nodes := by
  induction way generalizing t ts with
  | nil =>
      cases h
      cases hu
  | cons i way ih =>
      rw [along?] at h
      split at h
      · rename_i c hc
        have hchild := List.mem_of_getElem? hc
        split at h
        · rcases Option.map_eq_some_iff.mp h with ⟨us, hus, rfl⟩
          rcases List.mem_cons.mp hu with rfl | hbelow
          · exact mem_nodes_of_child hchild (self_mem_nodes u)
          · exact mem_nodes_of_child hchild (ih hus hbelow)
        · cases h
      · cases h

theorem mem_nodes_of_node? {root t : SyntaxTree} {way : Way} (h : root.node? way = some t) :
    t ∈ root.nodes := by
  rcases Option.map_eq_some_iff.mp h with ⟨ts, hts, rfl⟩
  cases ts with
  | nil => exact self_mem_nodes root
  | cons first rest =>
      apply mem_nodes_of_along? hts
      rw [List.getLastD_cons]
      exact List.getLastD_mem_cons

/-!
# The tour
-/

mutual

/-- The ways through named nodes with the nodes on them, in preorder. -/
def tour : SyntaxTree -> List (Way × List SyntaxTree)
  | .node _ cs => ([], []) :: tourIn 0 cs

/-- The tours of trees that are the children from number `n` on. -/
def tourIn (n : Nat) : List SyntaxTree -> List (Way × List SyntaxTree)
  | [] => []
  | t :: rest =>
      (if t.info.named then (tour t).map fun stop => (n :: stop.1, t :: stop.2) else [])
        ++ tourIn (n + 1) rest

end

theorem tour_eq (t : SyntaxTree) : t.tour = ([], []) :: tourIn 0 t.children := by
  cases t with
  | node i cs => rw [tour, children]

theorem mem_tourIn {n : Nat} {cs : List SyntaxTree} {way : Way} {ts : List SyntaxTree} :
    (way, ts) ∈ tourIn n cs ↔
      exists i c v us, cs[i]? = some c ∧ c.info.named = true ∧ (v, us) ∈ c.tour ∧
        way = (n + i) :: v ∧ ts = c :: us := by
  induction cs generalizing n with
  | nil => simp [tourIn]
  | cons t rest ih =>
      have hfirst : (way, ts) ∈ (if t.info.named then
            t.tour.map fun stop => (n :: stop.1, t :: stop.2) else []) ↔
          t.info.named = true ∧ exists v us, (v, us) ∈ t.tour ∧ way = n :: v ∧ ts = t :: us := by
        cases t.info.named <;> simp [eq_comm]
      rw [tourIn, List.mem_append, hfirst, ih]
      constructor
      · rintro (⟨hnamed, v, us, hmem, rfl, rfl⟩ | ⟨i, c, v, us, hc, hnamed, hmem, rfl, rfl⟩)
        · exact ⟨0, t, v, us, rfl, hnamed, hmem, rfl, rfl⟩
        · exact ⟨i + 1, c, v, us, hc, hnamed, hmem, by rw [Nat.add_right_comm, Nat.add_assoc], rfl⟩
      · rintro ⟨i, c, v, us, hc, hnamed, hmem, rfl, rfl⟩
        cases i with
        | zero =>
            cases hc
            exact Or.inl ⟨hnamed, v, us, hmem, rfl, rfl⟩
        | succ i =>
            exact Or.inr ⟨i, c, v, us, hc, hnamed, hmem,
              by rw [Nat.add_right_comm, Nat.add_assoc], rfl⟩

theorem mem_tour {t : SyntaxTree} {way : Way} {ts : List SyntaxTree} :
    (way, ts) ∈ t.tour ↔ t.along? way = some ts := by
  induction way generalizing t ts with
  | nil =>
      rw [tour_eq, List.mem_cons, mem_tourIn, along?]
      constructor
      · rintro (hroot | ⟨j, c, v, us, -, -, -, hway, -⟩)
        · cases hroot
          rfl
        · cases hway
      · intro h
        cases h
        exact Or.inl rfl
  | cons i way ih =>
      rw [tour_eq, List.mem_cons, mem_tourIn, along?]
      constructor
      · rintro (hroot | ⟨j, c, v, us, hc, hnamed, hmem, hway, rfl⟩)
        · cases hroot
        · rw [Nat.zero_add, List.cons.injEq] at hway
          rcases hway with ⟨rfl, rfl⟩
          rw [hc]
          dsimp only
          rw [if_pos hnamed, ih.mp hmem, Option.map_some]
      · intro h
        right
        split at h
        · rename_i c hc
          split at h
          · rename_i hnamed
            rcases Option.map_eq_some_iff.mp h with ⟨us, hus, rfl⟩
            exact ⟨i, c, way, us, hc, hnamed, ih.mpr hus, by rw [Nat.zero_add], rfl⟩
          · cases h
        · cases h

theorem pairwise_tour (t : SyntaxTree) : t.tour.Pairwise fun a b => a.1 < b.1 := by
  induction t using induction_on_children with
  | node i cs ih =>
      have hbelow : forall n, (tourIn n cs).Pairwise fun a b => a.1 < b.1 := by
        induction cs with
        | nil => exact fun n => List.Pairwise.nil
        | cons t rest ihrest =>
            intro n
            rw [tourIn]
            refine List.pairwise_append.mpr
              ⟨?_, ihrest (fun c hc => ih c (List.mem_cons_of_mem _ hc)) _, ?_⟩
            · split
              · refine List.pairwise_map.mpr ((ih t List.mem_cons_self).imp ?_)
                intro a b hlt
                exact List.cons_lt_cons_iff.mpr (Or.inr ⟨rfl, hlt⟩)
              · exact List.Pairwise.nil
            · -- a later child has a larger number
              rintro ⟨way, ts⟩ hfirst ⟨way', ts'⟩ hlater
              rcases mem_tourIn.mp hlater with ⟨j, c, v, us, -, -, -, rfl, -⟩
              split at hfirst
              · rcases List.mem_map.mp hfirst with ⟨stop, -, heq⟩
                cases heq
                exact List.cons_lt_cons_iff.mpr (Or.inl (by omega))
              · cases hfirst
      rw [tour]
      refine List.pairwise_cons.mpr ⟨?_, hbelow 0⟩
      rintro ⟨way, ts⟩ hmem
      rcases mem_tourIn.mp hmem with ⟨j, c, v, us, -, -, -, rfl, -⟩
      exact List.nil_lt_cons _ _

end SyntaxTree

end SymbolIndex
