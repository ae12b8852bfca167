import Mathlib.Data.List.Basic
import SymbolIndex.Extraction
import SymbolIndex.Proofs.SyntaxTree

/-!
# The nodes that define symbols

Which nodes of a tree define a symbol, and under which key, said without the traversal
that finds them. The traversal makes one definition for each of these nodes, in preorder.
-/

namespace SymbolIndex
namespace Extraction

open SyntaxTree

/-- What a defining node is known by: the kind of its symbol, the node that names it, and the name. -/
structure Naming where
  kind : SymbolKind
  node : SyntaxTree
  name : String

namespace Source

variable {s : Source} {root t : SyntaxTree} {scope : List String} {n : Naming}

/-- A node of a defining kind, with a body if its kind requires one, whose name is UTF-8. -/
structure Defines (s : Source) (t : SyntaxTree) (n : Naming) : Prop where
  kind : s.language.definitionKind t.kind = some n.kind
  body : Language.requiresBody t.kind = true -> t.hasField .body = true
  node : definitionName t = some n.node
  name : s.textOf n.node = some n.name

/-- A way through named nodes ends, below the root, at a node that defines a symbol. -/
def Accepts (s : Source) (root : SyntaxTree) (way : Way) (n : Naming) : Prop :=
  exists above t, root.along? way = some (above ++ [t]) ∧ s.Defines t n

def naming? (s : Source) (t : SyntaxTree) : Option Naming :=
  match s.language.definitionKind t.kind with
  | none => none
  | some kind =>
      if Language.requiresBody t.kind && !t.hasField .body then none
      else (definitionName t).bind fun node => (s.textOf node).map fun name => ⟨kind, node, name⟩

/-- The name that a node gives to the scope inside it: of its symbol, or of the scope it opens. -/
def scopeName? (s : Source) (t : SyntaxTree) : Option String :=
  ((s.naming? t).map Naming.name).or (s.scopeAt t)

/-- The names of the scopes around the end of a way, outermost first; the root gives none. -/
def scopesAround (s : Source) (root : SyntaxTree) (way : Way) : List String :=
  ((root.along? way).getD []).dropLast.filterMap s.scopeName?

/-- The key of what is defined under a name at the end of a way. -/
def keyAt (s : Source) (root : SyntaxTree) (way : Way) (name : String) : String :=
  s.language.usrPrefix ++ ":" ++ String.intercalate "::" (s.scopesAround root way ++ [name])

theorem naming?_eq_some_iff : s.naming? t = some n ↔ s.Defines t n := by
  constructor
  · intro h
    rw [naming?] at h
    split at h
    · cases h
    · rename_i kind hkind
      split at h
      · cases h
      · rename_i hbody
        rcases Option.bind_eq_some_iff.mp h with ⟨node, hnode, hnamed⟩
        rcases Option.map_eq_some_iff.mp hnamed with ⟨name, hname, rfl⟩
        exact ⟨hkind, by simpa using hbody, hnode, hname⟩
  · intro h
    rw [naming?, h.kind]
    dsimp only
    rw [if_neg (by simpa using h.body), h.node, Option.bind_some, h.name, Option.map_some]

/-!
# The traversal
-/

/-- The definition that a naming makes inside the given scopes. -/
def definitionIn (s : Source) (scope : List String) (n : Naming) : Definition :=
  ⟨qualifiedKey s.language scope n.name, n.kind, n.name, n.node.info.start,
    position n.node.info.row, position n.node.info.column⟩

theorem definitionAt_eq : s.definitionAt scope t = (s.naming? t).map (s.definitionIn scope) := by
  rw [definitionAt, naming?]
  cases s.language.definitionKind t.kind with
  | none => rfl
  | some kind =>
      dsimp only
      split
      · rfl
      · cases definitionName t with
        | none => rfl
        | some node =>
            dsimp only [Option.bind_some]
            cases s.textOf node <;> rfl

theorem scopeBelow_eq : s.scopeBelow scope t = scope ++ (s.scopeName? t).toList := by
  rw [scopeBelow, definitionAt_eq, scopeName?]
  cases s.naming? t with
  | some n => rfl
  | none =>
      cases s.scopeAt t with
      | some name => rfl
      | none => exact (List.append_nil scope).symm

/-- The definition that the last node of a chain makes, when the chain starts inside `scope`. -/
def definitionAlong (s : Source) (scope : List String) (ts : List SyntaxTree) : Option Definition :=
  ts.getLast?.bind (s.definitionAt (scope ++ ts.dropLast.filterMap s.scopeName?))

theorem definitionAlong_singleton : s.definitionAlong scope [t] = s.definitionAt scope t := by
  simp [definitionAlong]

theorem definitionAlong_cons {us : List SyntaxTree} (h : us ≠ []) :
    s.definitionAlong scope (t :: us) = s.definitionAlong (s.scopeBelow scope t) us := by
  cases us with
  | nil => exact absurd rfl h
  | cons u us =>
      rw [definitionAlong, definitionAlong, List.getLast?_cons_cons, List.dropLast_cons_cons,
        scopeBelow_eq, List.append_assoc]
      cases hname : s.scopeName? t with
      | none => rw [List.filterMap_cons_none hname]; rfl
      | some name => rw [List.filterMap_cons_some hname]; rfl

theorem definitionsIn_eq_of {cs : List SyntaxTree}
    (h : forall c, c ∈ cs -> forall scope, definitionsOf s scope c =
      c.tour.filterMap fun stop => s.definitionAlong scope (c :: stop.2)) (number : Nat) :
    definitionsIn s scope cs =
      (tourIn number cs).filterMap fun stop => s.definitionAlong scope stop.2 := by
  induction cs generalizing number with
  | nil => rfl
  | cons c rest ih =>
      rw [definitionsIn, tourIn, List.filterMap_append,
        ih (fun c hc => h c (List.mem_cons_of_mem _ hc)) (number + 1)]
      congr 1
      cases c.info.named with
      | false => rfl
      | true =>
          rw [if_pos rfl, if_pos rfl, List.filterMap_map, h c List.mem_cons_self]
          rfl

theorem definitionsOf_eq (t : SyntaxTree) (scope : List String) :
    definitionsOf s scope t =
      t.tour.filterMap fun stop => s.definitionAlong scope (t :: stop.2) := by
  induction t using induction_on_children generalizing scope with
  | node i cs ih =>
      have hbelow : forall stop, stop ∈ tourIn 0 cs ->
          s.definitionAlong (s.scopeBelow scope (.node i cs)) stop.2 =
            s.definitionAlong scope (.node i cs :: stop.2) := by
        intro stop hstop
        rcases mem_tourIn.mp hstop with ⟨_, c, _, us, _, _, _, _, hnodes⟩
        rw [hnodes, definitionAlong_cons (List.cons_ne_nil c us)]
      rw [definitionsOf, tour, definitionsIn_eq_of ih 0, List.filterMap_congr hbelow]
      cases hroot : s.definitionAt scope (.node i cs) with
      | none => rw [List.filterMap_cons_none (by rw [definitionAlong_singleton, hroot])]; rfl
      | some d => rw [List.filterMap_cons_some (by rw [definitionAlong_singleton, hroot])]; rfl

/-!
# The accepted nodes in preorder
-/

/-- The ways to the nodes that define a symbol, with what these nodes are known by. -/
def accepted (s : Source) (root : SyntaxTree) : List (Way × Naming) :=
  root.tour.filterMap fun stop =>
    (stop.2.getLast?.bind s.naming?).map fun n => (stop.1, n)

theorem mem_accepted {way : Way} : (way, n) ∈ s.accepted root ↔ s.Accepts root way n := by
  rw [accepted, List.mem_filterMap]
  constructor
  · intro h
    rcases h with ⟨⟨way', ts⟩, hstop, hmap⟩
    rcases Option.map_eq_some_iff.mp hmap with ⟨n', hn', heq⟩
    cases heq
    rcases Option.bind_eq_some_iff.mp hn' with ⟨t, ht, hnaming⟩
    rcases List.getLast?_eq_some_iff.mp ht with ⟨above, rfl⟩
    exact ⟨above, t, mem_tour.mp hstop, naming?_eq_some_iff.mp hnaming⟩
  · intro h
    rcases h with ⟨above, t, halong, hdefines⟩
    refine ⟨(way, above ++ [t]), mem_tour.mpr halong, ?_⟩
    rw [List.getLast?_concat, Option.bind_some, naming?_eq_some_iff.mpr hdefines, Option.map_some]

theorem pairwise_accepted : (s.accepted root).Pairwise fun a b => a.1 < b.1 := by
  refine List.Pairwise.filterMap _ ?_ (pairwise_tour root)
  intro stop stop' hlt a ha b hb
  rcases Option.map_eq_some_iff.mp ha with ⟨_, _, rfl⟩
  rcases Option.map_eq_some_iff.mp hb with ⟨_, _, rfl⟩
  exact hlt

/-- The definition that an accepted node makes. -/
def definitionOf (s : Source) (root : SyntaxTree) (a : Way × Naming) : Definition :=
  s.definitionIn (s.scopesAround root a.1) a.2

theorem definitionsIn_eq_map :
    s.definitionsIn [] root.children = (s.accepted root).map (s.definitionOf root) := by
  rw [definitionsIn_eq_of (fun c _ scope => definitionsOf_eq c scope) 0, accepted, tour_eq,
    List.filterMap_cons_none rfl, List.map_filterMap]
  apply List.filterMap_congr
  intro stop hstop
  have halong : root.along? stop.1 = some stop.2 := by
    apply mem_tour.mp
    rw [tour_eq]
    exact List.mem_cons_of_mem _ hstop
  rw [definitionAlong]
  cases stop.2.getLast? with
  | none => rfl
  | some t =>
      rw [Option.bind_some, Option.bind_some, definitionAt_eq, Option.map_map]
      congr 1
      funext n
      simp [definitionOf, scopesAround, halong]

/-!
# A text with nested definitions
-/

/-- A function, a class and a method of the function's name, each of the first two referred to. -/
def nested : Source := ⟨.python, Text.bytesOf "def f(): A\nclass A:\n    def f(self): f\n"⟩

def nestedTree : SyntaxTree :=
  let node kind start stop row column fields cs : SyntaxTree :=
    .node ⟨kind, true, start, stop, row, column, fields⟩ cs
  node "module" 0 39 0 0 [] [
    node "function_definition" 0 10 0 0 [] [
      node "identifier" 4 5 0 4 [.name] [],
      node "block" 9 10 0 9 [.body] [node "identifier" 9 10 0 9 [] []]],
    node "class_definition" 11 38 1 0 [] [
      node "identifier" 17 18 1 6 [.name] [],
      node "block" 24 38 2 4 [.body] [
        node "function_definition" 24 38 2 4 [] [
          node "identifier" 28 29 2 8 [.name] [],
          node "block" 37 38 2 17 [.body] [node "identifier" 37 38 2 17 [] []]]]]]

end Source
end Extraction
end SymbolIndex
