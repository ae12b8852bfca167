import Mathlib.Data.List.Induction
import Mathlib.Logic.Relation
import SymbolIndex.Path.Resolution
import SymbolIndex.Proofs.Path.Parent

/-!
# Normal forms and lexical resolution

Leaving out components that say nothing ends in one list, whichever is left out first,
and that is the resolved path. The normal form has the same names. It keeps one `..` of
an odd number of those that lead up and none of an even number, because a `..` takes away
whatever stands last, a kept `..` like a name.
-/

namespace SymbolIndex

namespace Route

variable {cs ds : List Component} {v w : Route}

theorem ext_iff : v = w ↔ v.ups = w.ups ∧ v.names = w.names := by
  cases v
  cases w
  simp

theorem nil_append (w : Route) : append ⟨0, []⟩ w = w := by
  simp [append]

theorem append_nil (w : Route) : append w ⟨0, []⟩ = w := by
  simp [append]

theorem below_append (bytes : List UInt8) (v w : Route) :
    (v.append w).below bytes = (v.below bytes).append w := by
  rcases v with ⟨ups, names⟩
  cases ups with
  | succ n =>
      show below bytes ⟨n + 1 + (w.ups - names.length), _⟩ = _
      rw [Nat.add_right_comm]
      rfl
  | zero =>
      by_cases hfar : w.ups ≤ names.length
      · have hnone : w.ups - names.length = 0 := Nat.sub_eq_zero_of_le hfar
        have hmore : w.ups - (names.length + 1) = 0 := by omega
        have hlength : names.length + 1 - w.ups = names.length - w.ups + 1 := by omega
        simp [append, below, hnone, hmore, hlength]
      · -- the name is taken back after all the names below it
        have hups : w.ups - names.length = w.ups - (names.length + 1) + 1 := by omega
        have hnone : names.length - w.ups = 0 := by omega
        have hmore : names.length + 1 - w.ups = 0 := by omega
        simp [append, below, hups, hnone, hmore]

theorem of_append (cs ds : List Component) : of (cs ++ ds) = (of cs).append (of ds) := by
  induction cs with
  | nil => exact (nil_append (of ds)).symm
  | cons c rest ih =>
      cases c with
      | root => exact ih
      | here => exact ih
      | up =>
          show Route.mk ((of (rest ++ ds)).ups + 1) (of (rest ++ ds)).names = _
          rw [ih]
          exact Route.ext_iff.mpr ⟨Nat.add_right_comm _ _ _, rfl⟩
      | name bytes =>
          show (of (rest ++ ds)).below bytes = ((of rest).below bytes).append (of ds)
          rw [ih, below_append]

theorem of_replicate_up (n : Nat) : of (List.replicate n .up) = ⟨n, []⟩ := by
  induction n with
  | zero => rfl
  | succ n ih => rw [List.replicate_succ, of, ih]

theorem of_map_name (names : List (List UInt8)) : of (names.map .name) = ⟨0, names⟩ := by
  induction names with
  | nil => rfl
  | cons bytes rest ih =>
      rw [List.map_cons, of, ih]
      rfl

theorem of_components (w : Route) : of w.components = w := by
  rw [components, of_append, of_replicate_up, of_map_name]
  simp [append]

theorem mem_of_mem_names {bytes : List UInt8} (h : bytes ∈ (of cs).names) :
    Component.name bytes ∈ cs := by
  induction cs with
  | nil => cases h
  | cons c rest ih =>
      cases c with
      | name other =>
          rw [of] at h
          rcases hrest : of rest with ⟨ups, names⟩
          rw [hrest] at h ih
          cases ups with
          | zero =>
              rcases List.mem_cons.mp h with rfl | hlater
              · exact List.mem_cons_self
              · exact List.mem_cons_of_mem _ (ih hlater)
          | succ n => exact List.mem_cons_of_mem _ (ih h)
      | _ => exact List.mem_cons_of_mem _ (ih h)

theorem root_notMem_components (w : Route) : Component.root ∉ w.components := by
  simp [components, List.mem_replicate]

end Route

/-!
# What leaving out keeps
-/

namespace Cancels

variable {cs ds : List Component}

theorem of_pair (bytes : List UInt8) (after : List Component) :
    Route.of (.name bytes :: .up :: after) = Route.of after := rfl

theorem root_mem_iff (h : Cancels cs ds) : Component.root ∈ cs ↔ Component.root ∈ ds := by
  cases h with
  | here before after => simp
  | pair before bytes after => simp
  | top after => simp

theorem names_eq (h : Cancels cs ds) : (Route.of cs).names = (Route.of ds).names := by
  cases h with
  | here before after =>
      rw [Route.of_append, Route.of_append]
      rfl
  | pair before bytes after => rw [Route.of_append, of_pair, ← Route.of_append]
  | top after => rfl

theorem ups_eq (h : Cancels cs ds) (hroot : Component.root ∉ cs) :
    (Route.of cs).ups = (Route.of ds).ups := by
  cases h with
  | here before after =>
      rw [Route.of_append, Route.of_append]
      rfl
  | pair before bytes after => rw [Route.of_append, of_pair, ← Route.of_append]
  | top after => exact absurd List.mem_cons_self hroot

theorem cons (h : Cancels cs ds) (hroot : Component.root ∉ cs) (c : Component) :
    Cancels (c :: cs) (c :: ds) := by
  cases h with
  | here before after => exact here (c :: before) after
  | pair before bytes after => exact pair (c :: before) bytes after
  | top after => exact absurd List.mem_cons_self hroot

/-- Two lists that say the same: both have the root or none has it, and they take the same route. -/
def Same (cs ds : List Component) : Prop :=
  (Component.root ∈ cs ↔ Component.root ∈ ds) ∧ (Route.of cs).names = (Route.of ds).names ∧
    (Component.root ∉ cs -> (Route.of cs).ups = (Route.of ds).ups)

theorem same (h : Cancels cs ds) : Same cs ds := ⟨h.root_mem_iff, h.names_eq, h.ups_eq⟩

theorem same_of_eqvGen (h : Relation.EqvGen Cancels cs ds) : Same cs ds := by
  induction h with
  | rel cs ds hstep => exact hstep.same
  | refl cs => exact ⟨Iff.rfl, rfl, fun _ => rfl⟩
  | symm cs ds _ ih =>
      exact ⟨ih.1.symm, ih.2.1.symm, fun hroot => (ih.2.2 (mt ih.1.mp hroot)).symm⟩
  | trans cs ds es _ _ ih ih' =>
      constructor
      · exact ih.1.trans ih'.1
      · constructor
        · exact ih.2.1.trans ih'.2.1
        · intro hroot
          exact (ih.2.2 hroot).trans (ih'.2.2 (mt ih.1.mpr hroot))

/-!
# Where leaving out ends
-/

theorem reduces_cons (h : Relation.ReflTransGen Cancels cs ds) (hroot : Component.root ∉ cs)
    (c : Component) : Relation.ReflTransGen Cancels (c :: cs) (c :: ds) := by
  induction h using Relation.ReflTransGen.head_induction_on with
  | refl => exact .refl
  | head hstep _ ih =>
      exact .head (hstep.cons hroot c) (ih (mt hstep.root_mem_iff.mpr hroot))

theorem reduces_route (hroot : Component.root ∉ cs) :
    Relation.ReflTransGen Cancels cs (Route.of cs).components := by
  induction cs with
  | nil => exact .refl
  | cons c rest ih =>
      rw [List.mem_cons, not_or] at hroot
      have hrest := reduces_cons (ih hroot.2) hroot.2 c
      cases c with
      | root => exact absurd rfl hroot.1
      | here => exact .head (here [] rest) (ih hroot.2)
      | up => exact hrest
      | name bytes =>
          rw [Route.of]
          rcases hroute : Route.of rest with ⟨ups, names⟩
          rw [hroute] at hrest
          cases ups with
          | zero => exact hrest
          | succ n => exact hrest.tail (pair [] bytes _)

/-- Nothing but another `..` stands before a `..`, and there is no `.`. -/
def Final (cs : List Component) : Prop :=
  Component.here ∉ cs ∧ cs.Pairwise fun c d => d = .up -> c = .up

theorem not_of_final (h : Final cs) : ¬ Cancels cs ds := by
  intro hstep
  cases hstep with
  | here before after => exact h.1 (List.mem_append_right before List.mem_cons_self)
  | pair before bytes after =>
      have hpairs := List.pairwise_cons.mp (List.pairwise_append.mp h.2).2.1
      cases hpairs.1 .up List.mem_cons_self rfl
  | top after => cases (List.pairwise_cons.mp h.2).1 .up List.mem_cons_self rfl

theorem final_names (names : List (List UInt8)) : Final (names.map .name) := by
  constructor
  · simp
  · rw [List.pairwise_map]
    exact List.pairwise_of_forall fun _ _ hup => Component.noConfusion hup

theorem final_components (w : Route) : Final w.components := by
  rcases final_names w.names with ⟨hhere, hpairs⟩
  constructor
  · rw [Route.components, List.mem_append, not_or, List.mem_replicate]
    exact ⟨fun h => Component.noConfusion h.2, hhere⟩
  · rw [Route.components, List.pairwise_append, List.pairwise_replicate]
    exact ⟨Or.inr id, hpairs, fun c hc _ _ _ => (List.mem_replicate.mp hc).2⟩

theorem final_root (names : List (List UInt8)) : Final (.root :: names.map .name) := by
  rcases final_names names with ⟨hhere, hpairs⟩
  constructor
  · rw [List.mem_cons, not_or]
    exact ⟨Component.noConfusion, hhere⟩
  · rw [List.pairwise_cons]
    constructor
    · intro c hc hup
      rw [hup] at hc
      simp at hc
    · exact hpairs

theorem reduces_root (n : Nat) (after : List Component) :
    Relation.ReflTransGen Cancels (.root :: (List.replicate n .up ++ after)) (.root :: after) := by
  induction n with
  | zero => exact .refl
  | succ n ih => exact .head (top _) ih

end Cancels

namespace Path

variable {p q : Path}

/-!
# The route of a path
-/

/-- What the pieces of a path say. -/
def said (bytes : List UInt8) : List Component := (pieces bytes).filterMap componentOf

theorem root_notMem_said (bytes : List UInt8) : Component.root ∉ said bytes := by
  intro hmem
  rcases List.mem_filterMap.mp hmem with ⟨piece, -, hsays⟩
  exact componentOf_ne_root hsays rfl

theorem pieces_slash (bytes : List UInt8) : pieces (slash :: bytes) = [] :: pieces bytes := by
  rw [pieces, if_pos rfl]

theorem said_slash (bytes : List UInt8) : said (slash :: bytes) = said bytes := by
  rw [said, pieces_slash]
  rfl

theorem pieces_append_slash (front bytes : List UInt8) :
    pieces (front ++ slash :: bytes) = pieces front ++ pieces bytes := by
  induction front with
  | nil => exact pieces_slash bytes
  | cons b rest ih =>
      rw [List.cons_append, pieces, pieces, ih]
      split
      · rfl
      · cases hrest : pieces rest with
        | nil => exact absurd hrest (pieces_ne_nil rest)
        | cons piece more => rfl

theorem said_append (front bytes : List UInt8) :
    said (front ++ slash :: bytes) = said front ++ said bytes := by
  rw [said, pieces_append_slash, List.filterMap_append]
  rfl

theorem components_of_not_isAbsolute (h : p.isAbsolute = false) :
    p.components = said p.bytes ∨ p.components = .here :: said p.bytes := by
  unfold components said
  cases hpieces : pieces p.bytes with
  | nil => exact absurd hpieces (pieces_ne_nil p.bytes)
  | cons first more =>
      dsimp only
      rw [h, List.filterMap_cons]
      by_cases hdot : isDot first = true
      · right
        have hnone : componentOf first = none := by
          rw [componentOf_eq_none_iff, isIdle, hdot, Bool.or_true]
        simp [hdot, hnone]
      · left
        cases componentOf first <;> simp [hdot]

theorem exists_components (p : Path) : exists rest, Component.root ∉ rest ∧
    p.components = if p.isAbsolute then .root :: rest else rest := by
  cases habsolute : p.isAbsolute with
  | true =>
      exact ⟨said (p.bytes.drop 1), root_notMem_said _, components_of_isAbsolute habsolute⟩
  | false =>
      rcases components_of_not_isAbsolute habsolute with hform | hform
      · exact ⟨_, root_notMem_said _, hform⟩
      · refine ⟨_, ?_, hform⟩
        rw [List.mem_cons, not_or]
        exact ⟨Component.noConfusion, root_notMem_said _⟩

theorem route_of_components {rest : List Component}
    (h : p.components = if p.isAbsolute then .root :: rest else rest) :
    p.route = Route.of rest := by
  rw [route, h]
  cases p.isAbsolute with
  | true => rfl
  | false => rfl

theorem root_mem_components_iff (p : Path) :
    Component.root ∈ p.components ↔ p.isAbsolute = true := by
  rcases exists_components p with ⟨rest, hroot, hform⟩
  rw [hform]
  cases p.isAbsolute with
  | true => simp
  | false => simpa using hroot

theorem route_eq (p : Path) : p.route = Route.of (said p.bytes) := by
  unfold route
  cases habsolute : p.isAbsolute with
  | true =>
      rw [components_of_isAbsolute habsolute, bytes_of_isAbsolute habsolute, said_slash]
      rfl
  | false =>
      rcases components_of_not_isAbsolute habsolute with hform | hform
      · rw [hform]
      · rw [hform]
        rfl

theorem route_join (h : q.isAbsolute = false) : (p.join q).route = p.route.append q.route := by
  rw [route_eq, route_eq p, route_eq q, ← Route.of_append]
  unfold join
  rw [if_neg (by rw [h]; exact Bool.false_ne_true)]
  split
  · rename_i hwhole
    rw [Bool.or_eq_true] at hwhole
    rcases hwhole with hempty | hslash
    · have hbytes : p.bytes = [] := List.isEmpty_iff.mp hempty
      rw [hbytes]
      rfl
    · -- the slash at the end of the directory stands between the two
      rw [beq_iff_eq] at hslash
      rcases List.getLast?_eq_some_iff.mp hslash with ⟨front, hfront⟩
      have hempty : said [] = [] := rfl
      rw [hfront, List.append_assoc, said_append, hempty, List.append_nil, ← said_append]
      rfl
  · exact congrArg Route.of (said_append p.bytes q.bytes)

theorem isAbsolute_join (hp : p.isAbsolute = true) (hq : q.isAbsolute = false) :
    (p.join q).isAbsolute = true := by
  unfold join
  rw [if_neg (by rw [hq]; exact Bool.false_ne_true)]
  unfold isAbsolute
  rw [bytes_of_isAbsolute hp]
  split <;> rfl

/-!
# Spelling a route
-/

/-- The components of a path that takes a route, from the root or from anywhere. -/
def routeComponents (absolute : Bool) (w : Route) : List Component :=
  if absolute then .root :: w.components else w.components

theorem resolved_eq (p : Path) : p.resolved =
    ofComponents (routeComponents p.isAbsolute
      ⟨if p.isAbsolute then 0 else p.route.ups, p.route.names⟩) := by
  unfold resolved routeComponents
  cases p.isAbsolute <;> rfl

theorem isStep_of_mem_route (p : Path) (n : Nat) :
    forall c, c ∈ Route.components ⟨n, p.route.names⟩ -> IsStep c := by
  intro c hc
  rcases List.mem_append.mp hc with hup | hname
  · rw [(List.mem_replicate.mp hup).2]
    exact .up
  · rcases List.mem_map.mp hname with ⟨bytes, hbytes, rfl⟩
    exact .name (isName_of_mem_components (Route.mem_of_mem_names hbytes))

theorem components_spelled (p : Path) (absolute : Bool) (n : Nat) :
    (ofComponents (routeComponents absolute ⟨n, p.route.names⟩)).components =
      routeComponents absolute ⟨n, p.route.names⟩ := by
  cases absolute with
  | true => exact components_ofComponents_root (isStep_of_mem_route p n)
  | false => exact components_ofComponents (isStep_of_mem_route p n)

theorem route_spelled (p : Path) (absolute : Bool) (n : Nat) :
    (ofComponents (routeComponents absolute ⟨n, p.route.names⟩)).route = ⟨n, p.route.names⟩ := by
  rw [route, components_spelled]
  cases absolute with
  | true => exact Route.of_components _
  | false => exact Route.of_components _

theorem isAbsolute_spelled (p : Path) (absolute : Bool) (n : Nat) :
    (ofComponents (routeComponents absolute ⟨n, p.route.names⟩)).isAbsolute = absolute := by
  rw [Bool.eq_iff_iff, ← root_mem_components_iff, components_spelled]
  cases absolute with
  | true => exact iff_of_true List.mem_cons_self rfl
  | false => exact iff_of_false (Route.root_notMem_components _) Bool.false_ne_true

theorem spelled_eq_iff {absolute : Bool} {n m : Nat} :
    ofComponents (routeComponents absolute ⟨n, p.route.names⟩) =
        ofComponents (routeComponents absolute ⟨m, q.route.names⟩) ↔
      n = m ∧ p.route.names = q.route.names := by
  constructor
  · intro h
    have hroute := congrArg route h
    rw [route_spelled, route_spelled] at hroute
    exact Route.ext_iff.mp hroute
  · intro h
    rw [h.1, h.2]

/-!
# Where folding ends
-/

theorem foldl_pushComponent {cs front : List Component} (hroot : Component.root ∉ cs)
    (hfront : front = [] ∨ front = [.root]) :
    cs.foldl pushComponent front =
      (Route.components ⟨(Route.of cs).ups % 2, (Route.of cs).names⟩).reverse ++ front := by
  induction cs using List.reverseRecOn with
  | nil => rfl
  | append_singleton before c ih =>
      rw [List.mem_append, not_or, List.mem_singleton] at hroot
      rw [List.foldl_append, List.foldl_cons, List.foldl_nil, ih hroot.1, Route.of_append]
      rcases Route.of before with ⟨ups, names⟩
      cases c with
      | root => exact absurd rfl hroot.2
      | here =>
          rw [show Route.of [.here] = ⟨0, []⟩ from rfl, Route.append_nil]
          rfl
      | name bytes => simp [Route.of, Route.below, Route.append, Route.components, pushComponent]
      | up =>
          rw [show Route.of [.up] = ⟨1, []⟩ from rfl]
          rcases List.eq_nil_or_concat names with rfl | ⟨others, last, rfl⟩
          · -- what stands last is the front, or the one `..` that was kept
            have hparity : ups % 2 = 0 ∧ (ups + 1) % 2 = 1 ∨ ups % 2 = 1 ∧ (ups + 1) % 2 = 0 := by
              omega
            rcases hparity with ⟨heven, hodd⟩ | ⟨hodd, heven⟩
            · rcases hfront with rfl | rfl <;>
                simp [Route.append, Route.components, heven, hodd, pushComponent]
            · rcases hfront with rfl | rfl <;>
                simp [Route.append, Route.components, heven, hodd, pushComponent]
          · simp [Route.append, Route.components, pushComponent]

theorem normalize_eq (p : Path) : p.normalize =
    ofComponents (routeComponents p.isAbsolute ⟨p.route.ups % 2, p.route.names⟩) := by
  rcases exists_components p with ⟨rest, hroot, hform⟩
  rw [normalize, foldComponents, routeComponents, route_of_components hform, hform]
  cases p.isAbsolute with
  | true =>
      show ofComponents (rest.foldl pushComponent [.root]).reverse = _
      rw [foldl_pushComponent hroot (Or.inr rfl)]
      simp
  | false =>
      show ofComponents (rest.foldl pushComponent []).reverse = _
      rw [foldl_pushComponent hroot (Or.inl rfl)]
      simp

/-!
# Lexical equality
-/

/-- One path becomes the other when components that say nothing are left out and put in. -/
def LexicallyEqual (p q : Path) : Prop := Relation.EqvGen Cancels p.components q.components

theorem reduces_resolved (p : Path) :
    Relation.ReflTransGen Cancels p.components p.resolved.components := by
  rw [resolved_eq, components_spelled]
  rcases exists_components p with ⟨rest, hroot, hform⟩
  have hreduces := Cancels.reduces_route hroot
  rw [route_of_components hform, hform]
  cases p.isAbsolute with
  | true => exact (Cancels.reduces_cons hreduces hroot .root).trans (Cancels.reduces_root _ _)
  | false => exact hreduces

theorem not_cancels_resolved (p : Path) (cs : List Component) :
    ¬ Cancels p.resolved.components cs := by
  rw [resolved_eq, components_spelled]
  cases p.isAbsolute with
  | true => exact Cancels.not_of_final (Cancels.final_root _)
  | false => exact Cancels.not_of_final (Cancels.final_components _)

theorem lexicallyEqual_iff : LexicallyEqual p q ↔ p.resolved = q.resolved := by
  constructor
  · intro h
    rcases Cancels.same_of_eqvGen h with ⟨hroot, hnames, hups⟩
    rw [root_mem_components_iff, root_mem_components_iff, ← Bool.eq_iff_iff] at hroot
    rw [root_mem_components_iff] at hups
    rw [resolved_eq, resolved_eq, ← hroot, route, route, hnames]
    cases habsolute : p.isAbsolute with
    | true => rfl
    | false =>
        rw [habsolute] at hups
        rw [hups Bool.false_ne_true]
  · intro h
    have hp := Relation.EqvGen.reflTransGen_le_eqvGen Cancels _ _ (reduces_resolved p)
    have hq := Relation.EqvGen.reflTransGen_le_eqvGen Cancels _ _ (reduces_resolved q)
    rw [← h] at hq
    exact .trans _ _ _ hp (.symm _ _ hq)

theorem lexicallyEqual_iff_names (hp : p.isAbsolute = true) (hq : q.isAbsolute = true) :
    LexicallyEqual p q ↔ p.route.names = q.route.names := by
  rw [lexicallyEqual_iff, resolved_eq, resolved_eq, hp, hq, spelled_eq_iff]
  exact and_iff_right rfl

/-- The directory that lies `n` names below the root. -/
def deep (n : Nat) : Path := ofComponents (.root :: (List.replicate n [0x61]).map .name)

theorem route_deep (n : Nat) : (deep n).route = ⟨0, List.replicate n [0x61]⟩ := by
  have hsteps : forall c, c ∈ (List.replicate n [0x61]).map Component.name -> IsStep c := by
    intro c hc
    rcases List.mem_map.mp hc with ⟨bytes, hbytes, rfl⟩
    rw [(List.mem_replicate.mp hbytes).2]
    exact .name ⟨by decide, by decide⟩
  rw [route, deep, components_ofComponents_root hsteps]
  exact Route.of_map_name _

theorem isAbsolute_deep (n : Nat) : (deep n).isAbsolute = true := by
  cases n with
  | zero => rfl
  | succ n =>
      rw [deep, ofComponents_eq (by simp [List.replicate_succ])]
      rfl

/--
A relative path and its normal form mean the same place in every directory exactly when
the path leads up once at most.
-/
theorem same_place_iff (h : p.isAbsolute = false) :
    (forall base : Path, base.isAbsolute = true ->
        LexicallyEqual (base.join p.normalize) (base.join p)) ↔ p.route.ups ≤ 1 := by
  have hnormal : p.normalize.isAbsolute = false := by
    rw [normalize_eq, isAbsolute_spelled, h]
  have hroute : p.normalize.route = ⟨p.route.ups % 2, p.route.names⟩ := by
    rw [normalize_eq, route_spelled]
  constructor
  · intro hall
    have hdeep := hall (deep p.route.ups) (isAbsolute_deep _)
    rw [lexicallyEqual_iff_names (isAbsolute_join (isAbsolute_deep _) hnormal)
      (isAbsolute_join (isAbsolute_deep _) h), route_join hnormal, route_join h, hroute,
      route_deep] at hdeep
    have hlength := congrArg List.length hdeep
    simp only [Route.append, List.length_append, List.length_take, List.length_replicate] at hlength
    omega
  · intro hups base hbase
    rw [lexicallyEqual_iff_names (isAbsolute_join hbase hnormal) (isAbsolute_join hbase h),
      route_join hnormal, route_join h, hroute, Nat.mod_eq_of_lt (Nat.lt_succ_of_le hups)]

/--
The resolved path is what leaving out ends in, and lexically equal paths have the same.
The normal form goes down by the same names. It is the resolved path exactly when a
relative path leads up once at most, and when a number of `..` that is even leads out of
the root of an absolute path.
-/
theorem normalize_eq_resolved_iff (p : Path) :
    Relation.ReflTransGen Cancels p.components p.resolved.components ∧
      (forall cs, ¬ Cancels p.resolved.components cs) ∧
      (forall q, LexicallyEqual p q ↔ p.resolved = q.resolved) ∧
      p.normalize = ofComponents (routeComponents p.isAbsolute ⟨p.route.ups % 2, p.route.names⟩) ∧
      (p.normalize = p.resolved ↔
        if p.isAbsolute then p.route.ups % 2 = 0 else p.route.ups ≤ 1) ∧
      (forall q, p.isAbsolute = true -> LexicallyEqual p q ->
        (p.normalize = q.normalize ↔ p.route.ups % 2 = q.route.ups % 2)) ∧
      (p.isAbsolute = false ->
        ((forall base : Path, base.isAbsolute = true ->
          LexicallyEqual (base.join p.normalize) (base.join p)) ↔ p.route.ups ≤ 1)) := by
  refine ⟨reduces_resolved p, not_cancels_resolved p, fun q => lexicallyEqual_iff, normalize_eq p,
    ?_, ?_, same_place_iff⟩
  · rw [normalize_eq, resolved_eq, spelled_eq_iff, and_iff_left rfl]
    cases p.isAbsolute with
    | true => exact Iff.rfl
    | false =>
        rw [if_neg Bool.false_ne_true, if_neg Bool.false_ne_true]
        omega
  · intro q hp hequal
    have hq : q.isAbsolute = true := by
      rw [← root_mem_components_iff, ← (Cancels.same_of_eqvGen hequal).1, root_mem_components_iff]
      exact hp
    rw [normalize_eq, normalize_eq q, hp, hq, spelled_eq_iff,
      and_iff_left ((lexicallyEqual_iff_names hp hq).mp hequal)]

/-- Two lexically equal paths that lead above the root once have one normal form. -/
theorem one_normal_form_above_the_root :
    (ofString "/a/../../x").normalize = (ofString "/../x").normalize := by
  have hequal : LexicallyEqual (ofString "/a/../../x") (ofString "/../x") :=
    lexicallyEqual_iff.mpr (by decide +kernel)
  have hall := normalize_eq_resolved_iff (ofString "/a/../../x")
  exact (hall.2.2.2.2.2.1 (ofString "/../x") (by decide) hequal).mpr (by decide +kernel)

/--
A second `..` at the front takes away the first one, so that `../..` becomes the empty
path. The parent of the root is kept apart from the root, and its parent is not.
-/
theorem second_up_takes_away_the_first :
    (ofString "../..").normalize = ofString "" ∧ (ofString "../..").resolved = ofString "../.." ∧
      (ofString "../../a").normalize = ofString "a" ∧
      (ofString "../../a").resolved = ofString "../../a" ∧
      (ofString "/..").normalize = ofString "/.." ∧ (ofString "/..").resolved = ofString "/" ∧
      (ofString "/../..").normalize = ofString "/" ∧
      ¬ forall p : Path, p.normalize = p.resolved := by
  refine ⟨by decide, by decide, by decide, by decide, by decide, by decide, by decide, ?_⟩
  intro hall
  exact absurd (hall (ofString "../..")) (by decide)

end Path

end SymbolIndex
