import Mathlib.Logic.Function.Iterate
import SymbolIndex.Extraction.Search
import SymbolIndex.Proofs.Extraction.Definitions

/-!
# The identifier that a definition declares

The node that names a definition is described by where the fields of the tree lead, without
the functions that follow them. The description gives every node exactly one answer, which
is the one that is computed, and a search that looks at one node after another comes to it.
-/

namespace SymbolIndex
namespace Extraction

open SyntaxTree

/-!
# Where fields lead
-/

/-- Qualified names lead from a node to one that is no qualified name, or has no name. -/
inductive LeadsTo : SyntaxTree -> SyntaxTree -> Prop where
  | here {t : SyntaxTree} (hend : qualified? t = none) : LeadsTo t t
  | further {t c last : SyntaxTree} (hname : qualified? t = some c) (hleads : LeadsTo c last) :
      LeadsTo t last

/-- The declarator of a node, the declarator of that one, and so on to the last. -/
inductive Declarators : SyntaxTree -> List SyntaxTree -> Prop where
  | none {t : SyntaxTree} (hend : t.child? .declarator = none) : Declarators t []
  | some {t d : SyntaxTree} {ds : List SyntaxTree} (hchild : t.child? .declarator = some d)
      (hbelow : Declarators d ds) : Declarators t (d :: ds)

def LeadsToName (t name : SyntaxTree) : Prop := LeadsTo t name ∧ isNameKind name.kind = true

/-- Qualified names lead from a node to something that is no name. -/
def LeadsAstray (t : SyntaxTree) : Prop :=
  exists last, LeadsTo t last ∧ isNameKind last.kind = false

/-- The node that names a definition, or that there is none. -/
inductive Names (t : SyntaxTree) : Option SyntaxTree -> Prop where
  | named {c name : SyntaxTree} (hname : t.child? .name = some c) (hleads : LeadsToName c name) :
      Names t (some name)
  /-- Declarators do not count where a name is given. -/
  | misnamed {c : SyntaxTree} (hname : t.child? .name = some c) (hastray : LeadsAstray c) :
      Names t none
  | declared {before after : List SyntaxTree} {d name : SyntaxTree} (hname : t.child? .name = none)
      (hchain : Declarators t (before ++ d :: after))
      (hbefore : forall e, e ∈ before -> LeadsAstray e) (hleads : LeadsToName d name) :
      Names t (some name)
  | undeclared {ds : List SyntaxTree} (hname : t.child? .name = none) (hchain : Declarators t ds)
      (hastray : forall d, d ∈ ds -> LeadsAstray d) : Names t none

variable {t c d last name : SyntaxTree} {ds : List SyntaxTree}

theorem child?_of_qualified? (h : qualified? t = some c) :
    t.kind = "qualified_identifier" ∧ t.child? .name = some c := by
  rw [qualified?] at h
  split at h
  · rename_i hkind
    exact ⟨hkind, h⟩
  · cases h

theorem qualified?_of_isNameKind (h : isNameKind t.kind = true) : qualified? t = none := by
  rw [qualified?, if_neg]
  intro hkind
  rw [hkind] at h
  exact absurd h (by decide)

theorem exists_leadsTo (t : SyntaxTree) : exists last, LeadsTo t last := by
  induction t using induction_on_children with
  | node i cs ih =>
      cases hname : qualified? (.node i cs) with
      | none => exact ⟨_, .here hname⟩
      | some c =>
          rcases ih c (child?_mem (child?_of_qualified? hname).2) with ⟨last, hleads⟩
          exact ⟨last, .further hname hleads⟩

theorem exists_declarators (t : SyntaxTree) : exists ds, Declarators t ds := by
  induction t using induction_on_children with
  | node i cs ih =>
      cases hchild : child? (.node i cs) .declarator with
      | none => exact ⟨[], .none hchild⟩
      | some d =>
          rcases ih d (child?_mem hchild) with ⟨ds, hbelow⟩
          exact ⟨d :: ds, .some hchild hbelow⟩

/-!
# What is computed
-/

theorem innermostName_eq (t : SyntaxTree) : innermostName t =
    if isNameKind t.kind then some t else (qualified? t).bind innermostName := by
  rw [innermostName, qualified?]
  split
  · rfl
  · split
    · split
      · rename_i c hchild
        rw [hchild, Option.bind_some]
      · rename_i hchild
        rw [hchild, Option.bind_none]
    · rfl

theorem declaredName_eq (t : SyntaxTree) : declaredName t =
    (innermostName t).or ((t.child? .declarator).bind declaredName) := by
  rw [declaredName]
  split
  · rename_i name hname
    rw [hname, Option.some_or]
  · rename_i hname
    rw [hname, Option.none_or]
    split
    · rename_i d hchild
      rw [hchild, Option.bind_some]
    · rename_i hchild
      rw [hchild, Option.bind_none]

theorem innermostName_of_leadsTo (h : LeadsTo t last) :
    innermostName t = if isNameKind last.kind then some last else none := by
  induction h with
  | here hend => rw [innermostName_eq, hend, Option.bind_none]
  | further hname hleads ih =>
      rw [innermostName_eq, if_neg, hname, Option.bind_some, ih]
      intro hkind
      rw [qualified?_of_isNameKind hkind] at hname
      cases hname

theorem innermostName_eq_some_iff : innermostName t = some name ↔ LeadsToName t name := by
  constructor
  · intro h
    rcases exists_leadsTo t with ⟨last, hleads⟩
    rw [innermostName_of_leadsTo hleads] at h
    split at h
    · rename_i hkind
      cases h
      exact ⟨hleads, hkind⟩
    · cases h
  · rintro ⟨hleads, hkind⟩
    rw [innermostName_of_leadsTo hleads, if_pos hkind]

theorem innermostName_eq_none_iff : innermostName t = none ↔ LeadsAstray t := by
  constructor
  · intro h
    rcases exists_leadsTo t with ⟨last, hleads⟩
    rw [innermostName_of_leadsTo hleads] at h
    split at h
    · cases h
    · rename_i hkind
      exact ⟨last, hleads, Bool.eq_false_iff.mpr hkind⟩
  · rintro ⟨last, hleads, hkind⟩
    rw [innermostName_of_leadsTo hleads, hkind]
    rfl

theorem bind_declaredName_of_declarators (h : Declarators t ds) :
    (t.child? .declarator).bind declaredName = ds.findSome? innermostName := by
  induction h with
  | none hend => rw [hend, Option.bind_none, List.findSome?_nil]
  | some hchild hbelow ih =>
      rw [hchild, Option.bind_some, declaredName_eq, ih, List.findSome?_cons]
      cases innermostName _ with
      | none => rfl
      | some name => rfl

theorem definitionName_of_child? (h : t.child? .name = some c) :
    definitionName t = innermostName c := by
  rw [definitionName, h]

theorem definitionName_of_declarators (hname : t.child? .name = none) (h : Declarators t ds) :
    definitionName t = ds.findSome? innermostName := by
  rw [definitionName, hname]
  exact bind_declaredName_of_declarators h

theorem names_definitionName (t : SyntaxTree) : Names t (definitionName t) := by
  cases hname : t.child? .name with
  | some c =>
      rw [definitionName_of_child? hname]
      cases hfound : innermostName c with
      | some name => exact .named hname (innermostName_eq_some_iff.mp hfound)
      | none => exact .misnamed hname (innermostName_eq_none_iff.mp hfound)
  | none =>
      rcases exists_declarators t with ⟨ds, hchain⟩
      rw [definitionName_of_declarators hname hchain]
      cases hfound : ds.findSome? innermostName with
      | some name =>
          rcases List.findSome?_eq_some_iff.mp hfound with ⟨before, d, after, rfl, hd, hbefore⟩
          refine .declared hname hchain ?_ (innermostName_eq_some_iff.mp hd)
          exact fun e he => innermostName_eq_none_iff.mp (hbefore e he)
      | none =>
          refine .undeclared hname hchain ?_
          exact fun d hd => innermostName_eq_none_iff.mp (List.findSome?_eq_none_iff.mp hfound d hd)

theorem definitionName_of_names {found : Option SyntaxTree} (h : Names t found) :
    definitionName t = found := by
  cases h with
  | named hname hleads =>
      rw [definitionName_of_child? hname]
      exact innermostName_eq_some_iff.mpr hleads
  | misnamed hname hastray =>
      rw [definitionName_of_child? hname]
      exact innermostName_eq_none_iff.mpr hastray
  | declared hname hchain hbefore hleads =>
      rw [definitionName_of_declarators hname hchain]
      refine List.findSome?_eq_some_iff.mpr ⟨_, _, _, rfl, innermostName_eq_some_iff.mpr hleads, ?_⟩
      exact fun e he => innermostName_eq_none_iff.mpr (hbefore e he)
  | undeclared hname hchain hastray =>
      rw [definitionName_of_declarators hname hchain, List.findSome?_eq_none_iff]
      exact fun d hd => innermostName_eq_none_iff.mpr (hastray d hd)

theorem isNameKind_of_names (h : Names t (some name)) : isNameKind name.kind = true := by
  cases h with
  | named hname hleads => exact hleads.2
  | declared hname hchain hbefore hleads => exact hleads.2

/-!
# The search ends
-/

namespace Search

/-- A search comes to a state after at most some looks. -/
def Within (looks : Nat) (s s' : Search) : Prop := exists n, n ≤ looks ∧ look^[n] s = s'

variable {s s' s'' : Search} {n m : Nat}

theorem Within.refl (s : Search) : Within 0 s s := ⟨0, Nat.le_refl 0, rfl⟩

theorem Within.look_first (h : Within n (look s) s') : Within (n + 1) s s' := by
  rcases h with ⟨k, hk, hlooks⟩
  exact ⟨k + 1, Nat.succ_le_succ hk, by rw [Function.iterate_succ_apply, hlooks]⟩

theorem Within.trans (h : Within n s s') (h' : Within m s' s'') : Within (n + m) s s'' := by
  rcases h with ⟨k, hk, hlooks⟩
  rcases h' with ⟨k', hk', hlooks'⟩
  refine ⟨k' + k, by omega, ?_⟩
  rw [Function.iterate_add_apply, hlooks, hlooks']

theorem Within.mono (h : Within n s s') (hle : n ≤ m) : Within m s s' := by
  rcases h with ⟨k, hk, hlooks⟩
  exact ⟨k, Nat.le_trans hk hle, hlooks⟩

/-- What comes after the chain of qualified names from a node. -/
def afterNames (t : SyntaxTree) (declarator : Option SyntaxTree) : Search :=
  match innermostName t with
  | some name => .over (some name)
  | none => turnBack declarator

theorem within_afterNames (t : SyntaxTree) (declarator : Option SyntaxTree) :
    Within t.nodes.length (.looking t declarator) (afterNames t declarator) := by
  induction t using induction_on_children with
  | node i cs ih =>
      have hpositive : 1 ≤ (SyntaxTree.node i cs).nodes.length := by
        rw [nodes]
        exact Nat.succ_le_succ (Nat.zero_le _)
      rw [afterNames, innermostName_eq]
      cases hkind : isNameKind (SyntaxTree.node i cs).kind with
      | true =>
          refine Within.mono (Within.look_first ?_) hpositive
          rw [look, hkind]
          exact Within.refl _
      | false =>
          cases hname : qualified? (.node i cs) with
          | none =>
              refine Within.mono (Within.look_first ?_) hpositive
              rw [look, hkind, hname]
              exact Within.refl _
          | some c =>
              have hmem := child?_mem (child?_of_qualified? hname).2
              refine Within.mono (Within.look_first ?_) (length_nodes_lt hmem)
              rw [look, hkind, hname]
              exact ih c hmem

theorem within_declaratorOf (t : SyntaxTree) :
    Within (t.nodes.length ^ 2) (declaratorOf t)
      (.over ((t.child? .declarator).bind declaredName)) := by
  induction t using induction_on_children with
  | node i cs ih =>
      rw [declaratorOf]
      cases hchild : child? (.node i cs) .declarator with
      | none => exact (Within.refl _).mono (Nat.zero_le _)
      | some d =>
          have hmem := child?_mem hchild
          have hsquare : d.nodes.length + d.nodes.length ^ 2 ≤ (node i cs).nodes.length ^ 2 := by
            refine Nat.le_trans ?_ (Nat.pow_le_pow_left (length_nodes_lt hmem) 2)
            rw [Nat.pow_two, Nat.pow_two, Nat.succ_mul_succ]
            omega
          have hnames := within_afterNames d (some d)
          rw [Option.bind_some, declaredName_eq]
          rw [afterNames] at hnames
          cases hfound : innermostName d with
          | some name =>
              rw [hfound] at hnames
              exact hnames.mono (Nat.le_trans (Nat.le_add_right ..) hsquare)
          | none =>
              rw [hfound] at hnames
              exact (hnames.trans (ih d hmem)).mono hsquare

theorem within_start (t : SyntaxTree) :
    Within (t.nodes.length ^ 2) (start t) (.over (definitionName t)) := by
  rw [start]
  cases hname : t.child? .name with
  | some c =>
      rw [definitionName_of_child? hname]
      have hnames := within_afterNames c none
      have hover : afterNames c none = .over (innermostName c) := by
        rw [afterNames]
        cases innermostName c with
        | some name => rfl
        | none => rfl
      rw [hover] at hnames
      refine hnames.mono (Nat.le_trans (Nat.le_of_lt (length_nodes_lt (child?_mem hname))) ?_)
      exact Nat.le_self_pow (by decide) _
  | none =>
      rw [definitionName, hname]
      exact within_declaratorOf t

end Search

/-!
# The name of a definition
-/

/--
The search for the name of any node comes to an end, after no more looks than the square of
the number of nodes in its tree. It finds what the fields declare to be the name, and only
that. If this is a node, it stands below the one it names and its kind is that of a name.
-/
theorem declared_identifier_is_found (t : SyntaxTree) :
    (exists looks, looks ≤ t.nodes.length ^ 2 ∧
      Search.look^[looks] (.start t) = .over (definitionName t)) ∧
    (forall found, definitionName t = found ↔ Names t found) ∧
    forall name, definitionName t = some name ->
      name ∈ nodesIn t.children ∧ isNameKind name.kind = true := by
  refine ⟨Search.within_start t, ?_, ?_⟩
  · intro found
    exact ⟨fun h => h ▸ names_definitionName t, definitionName_of_names⟩
  · intro name h
    exact ⟨mem_nodesIn_of_definitionName h, isNameKind_of_names (h ▸ names_definitionName t)⟩

def sampleNode (kind : String) (start stop : Nat) (fields : List Field)
    (cs : List SyntaxTree) : SyntaxTree :=
  .node ⟨kind, true, start, stop, 0, start, fields⟩ cs

/-! The tree of `int *A::f() {}`, from the inside out. -/

def memberName : SyntaxTree := sampleNode "identifier" 8 9 [.name] []

def qualifiedName : SyntaxTree :=
  sampleNode "qualified_identifier" 5 9 [.declarator]
    [sampleNode "namespace_identifier" 5 6 [] [], memberName]

def functionDeclarator : SyntaxTree :=
  sampleNode "function_declarator" 5 11 [.declarator]
    [qualifiedName, sampleNode "parameter_list" 9 11 [] []]

def pointerDeclarator : SyntaxTree :=
  sampleNode "pointer_declarator" 4 11 [.declarator] [functionDeclarator]

def memberFunction : SyntaxTree :=
  sampleNode "function_definition" 0 14 []
    [sampleNode "primitive_type" 0 3 [.type] [], pointerDeclarator,
      sampleNode "compound_statement" 12 14 [.body] []]

theorem member_name_is_found :
    (exists looks, looks ≤ 81 ∧
        Search.look^[looks] (.start memberFunction) = .over (some memberName)) ∧
      definitionName memberFunction = some memberName ∧
      memberName ∈ nodesIn memberFunction.children := by
  have hchain : Declarators memberFunction
      ([pointerDeclarator, functionDeclarator] ++ qualifiedName :: []) :=
    .some rfl (.some rfl (.some rfl (.none rfl)))
  have hbefore : forall d, d ∈ [pointerDeclarator, functionDeclarator] -> LeadsAstray d := by
    intro d hd
    rcases List.mem_pair.mp hd with rfl | rfl
    · exact ⟨pointerDeclarator, .here (by decide), by decide⟩
    · exact ⟨functionDeclarator, .here (by decide), by decide⟩
  have hleads : LeadsToName qualifiedName memberName := ⟨.further rfl (.here rfl), by decide⟩
  rcases declared_identifier_is_found memberFunction with ⟨hends, hfinds, hbelow⟩
  have hfound := (hfinds (some memberName)).mpr (.declared rfl hchain hbefore hleads)
  rw [hfound] at hends
  exact ⟨hends, hfound, (hbelow memberName hfound).1⟩

end Extraction
end SymbolIndex
