import SymbolIndex.Disk
import SymbolIndex.Proofs.Path.Joining

/-!
# Where paths lead

Every directory of a disk is entered from the one around it, so that a `..` after a name
takes back just this name. An absolute path that leads somewhere therefore leads to the
place that its route names, and its normal form leads to the same place. The normal form
may lead somewhere when the path does not: a name that is taken back later must be there
all the same.
-/

namespace SymbolIndex

namespace Route

theorem names_concat (cs : List Component) (c : Component) :
    (of (cs ++ [c])).names = match c with
      | .up => (of cs).names.dropLast
      | .name bytes => (of cs).names ++ [bytes]
      | _ => (of cs).names := by
  rw [of_append]
  cases c with
  | root => exact congrArg names (append_nil (of cs))
  | here => exact congrArg names (append_nil (of cs))
  | up =>
      show (of cs).names.take ((of cs).names.length - 1) ++ [] = _
      rw [List.append_nil, List.dropLast_eq_take]
  | name bytes =>
      show (of cs).names.take ((of cs).names.length - 0) ++ [bytes] = _
      rw [Nat.sub_zero, List.take_length]

end Route

namespace Path

/-!
# Bytes and pieces of a normal form
-/

theorem mem_joined_iff {parts : List (List UInt8)} {b : UInt8} (hb : b ≠ slash) :
    b ∈ joined parts ↔ exists part, part ∈ parts ∧ b ∈ part := by
  induction parts with
  | nil => simp [joined]
  | cons first rest ih =>
      cases rest with
      | nil => simp [joined]
      | cons second more => simp [joined, ih, hb]

theorem mem_of_mem_normalize {p : Path} {b : UInt8} (h : b ∈ p.normalize.bytes)
    (hslash : b ≠ slash) (hdot : b ≠ dot) : b ∈ p.bytes := by
  rw [normalize_eq] at h
  by_cases hroot : routeComponents p.isAbsolute ⟨p.route.ups % 2, p.route.names⟩ = [.root]
  · rw [hroot] at h
    exact absurd (List.mem_singleton.mp h) hslash
  · rw [ofComponents_eq hroot, mem_joined_iff hslash] at h
    rcases h with ⟨part, hpart, hmem⟩
    rcases List.mem_map.mp hpart with ⟨c, hc, rfl⟩
    have hstep : c = .root ∨ c ∈ Route.components ⟨p.route.ups % 2, p.route.names⟩ := by
      unfold routeComponents at hc
      split at hc
      · exact List.mem_cons.mp hc
      · exact Or.inr hc
    rcases hstep with rfl | hmoves
    · cases hmem
    · rcases List.mem_append.mp hmoves with hup | hname
      · rw [(List.mem_replicate.mp hup).2] at hmem
        simp [spelling, hdot] at hmem
      · rcases List.mem_map.mp hname with ⟨bytes, hbytes, rfl⟩
        have hpiece := (mem_pieces_of_mem_components (Route.mem_of_mem_names hbytes)).1
        rw [← joined_pieces p.bytes, mem_joined_iff hslash]
        exact ⟨bytes, hpiece, hmem⟩

theorem pieces_ofComponents {cs : List Component} (hne : cs ≠ [])
    (h : forall c, c ∈ cs -> IsStep c) :
    pieces (ofComponents (.root :: cs)).bytes = [] :: cs.map spelling := by
  rw [ofComponents_eq (by simpa using hne), List.map_cons]
  apply pieces_joined (List.cons_ne_nil _ _)
  intro piece hpiece
  rcases List.mem_cons.mp hpiece with rfl | hlater
  · exact List.not_mem_nil
  · exact (says_of_mem_map_spelling h hlater).1

theorem ne_nil_of_says {piece : List UInt8} (h : Says piece) : piece ≠ [] := by
  rintro rfl
  cases h.2

theorem filter_pieces_ofComponents {cs : List Component} (h : forall c, c ∈ cs -> IsStep c) :
    (pieces (ofComponents (.root :: cs)).bytes).filter (fun piece => !piece.isEmpty) =
      cs.map spelling := by
  by_cases hne : cs = []
  · rw [hne]
    rfl
  · rw [pieces_ofComponents hne h, List.filter_cons_of_neg (by simp)]
    apply List.filter_eq_self.mpr
    intro piece hpiece
    have hmeans := ne_nil_of_says (says_of_mem_map_spelling h hpiece)
    rw [List.isEmpty_eq_false_iff.mpr hmeans, Bool.not_false]

end Path

namespace Disk

variable {d : Disk} {p : Path} {place : Place}

/-!
# Ways to a place
-/

/-- There is a way to a place: what lies around it are directories, and no name is too long. -/
structure Open (d : Disk) (place : Place) : Prop where
  directory : forall front back, place = front ++ back -> back ≠ [] ->
    d.node? front = some .directory
  short : forall name, name ∈ place -> name.length ≤ longestName

theorem open_nil (d : Disk) : d.Open [] where
  directory := by
    intro front back hsplit hback
    exact absurd (List.append_eq_nil_iff.mp hsplit.symm).2 hback
  short := fun _ hname => absurd hname List.not_mem_nil

theorem Open.of_append {front back : Place} (h : d.Open (front ++ back)) : d.Open front where
  directory := by
    intro before after hsplit hafter
    apply h.directory before (after ++ back)
    · rw [hsplit, List.append_assoc]
    · exact List.append_ne_nil_of_left_ne_nil hafter back
  short := fun name hname => h.short name (List.mem_append_left back hname)

theorem Open.concat (h : d.Open place) (hnode : d.node? place = some .directory)
    {name : List UInt8} (hshort : name.length ≤ longestName) : d.Open (place ++ [name]) where
  directory := by
    intro front back hsplit hback
    rcases List.eq_nil_or_concat back with rfl | ⟨before, last, rfl⟩
    · exact absurd rfl hback
    · rw [List.concat_eq_append, ← List.append_assoc] at hsplit
      have hplace := (List.append_inj' hsplit rfl).1
      cases before with
      | nil =>
          rw [List.append_nil] at hplace
          rw [← hplace]
          exact hnode
      | cons first more => exact h.directory front (first :: more) hplace (List.cons_ne_nil _ _)
  short := by
    intro other hother
    rcases List.mem_append.mp hother with hbefore | hlast
    · exact h.short other hbefore
    · rw [List.mem_singleton.mp hlast]
      exact hshort

/-- Entering a name goes to a place around or below a directory, or stays there. -/
theorem enter_eq_ok {name : List UInt8} {next : Place} (hname : name ≠ [])
    (h : d.enter place name = .ok next) :
    d.node? place = some .directory ∧
      match Path.componentOf name with
      | some .up => next = place.dropLast
      | some (.name bytes) => next = place ++ [bytes] ∧ bytes.length ≤ longestName
      | _ => next = place := by
  unfold enter at h
  cases hnode : d.node? place with
  | none =>
      rw [hnode] at h
      cases h
  | some node =>
      rw [hnode] at h
      cases node with
      | file content modified => cases h
      | directory =>
          refine ⟨rfl, ?_⟩
          have hempty : name.isEmpty = false := List.isEmpty_eq_false_iff.mpr hname
          unfold Path.componentOf Path.isIdle
          rw [hempty, Bool.false_or]
          cases hdot : Path.isDot name with
          | true =>
              simp only [hdot, if_true, Except.ok.injEq] at h
              exact h.symm
          | false =>
              cases hdots : Path.isDotDot name with
              | true =>
                  simp only [hdot, hdots, Bool.false_eq_true, if_true, if_false,
                    Except.ok.injEq] at h
                  exact h.symm
              | false =>
                  simp only [hdot, hdots, Bool.false_eq_true, if_false] at h
                  split at h
                  · cases h
                  · rename_i hshort
                    cases h
                    exact ⟨rfl, Nat.le_of_not_lt hshort⟩

theorem foldlM_concat_eq_ok {names : List (List UInt8)} {name : List UInt8} :
    (names ++ [name]).foldlM d.enter [] = .ok place ↔
      exists before, names.foldlM d.enter [] = .ok before ∧ d.enter before name = .ok place := by
  rw [List.foldlM_append]
  cases names.foldlM d.enter [] with
  | error fault => simp [bind, Except.bind]
  | ok before =>
      simp only [bind, Except.bind, List.foldlM_cons, List.foldlM_nil, Except.ok.injEq,
        exists_eq_left']
      cases d.enter before name with
      | error fault => simp
      | ok next => rfl

/-- Whoever comes through takes the route of what he enters, through directories only. -/
theorem foldlM_enter_eq_ok {names : List (List UInt8)}
    (hnames : forall name, name ∈ names -> name ≠ [])
    (h : names.foldlM d.enter [] = .ok place) :
    place = (Route.of (names.filterMap Path.componentOf)).names ∧ d.Open place := by
  induction names using List.reverseRecOn generalizing place with
  | nil =>
      cases h
      exact ⟨rfl, d.open_nil⟩
  | append_singleton front name ih =>
      rcases foldlM_concat_eq_ok.mp h with ⟨before, hfront, hentered⟩
      rcases ih (fun other hother => hnames other (List.mem_append_left _ hother)) hfront with
        ⟨hbefore, hopen⟩
      have hname := hnames name (List.mem_append_right _ (List.mem_singleton.mpr rfl))
      rcases enter_eq_ok hname hentered with ⟨hnode, hnext⟩
      rw [List.filterMap_append, List.filterMap_cons, List.filterMap_nil]
      cases hmeans : Path.componentOf name with
      | none =>
          rw [hmeans] at hnext
          rw [hnext, List.append_nil]
          exact ⟨hbefore, hopen⟩
      | some c =>
          rw [hmeans] at hnext
          rw [Route.names_concat, ← hbefore]
          cases c with
          | root => exact absurd rfl (Path.componentOf_ne_root hmeans)
          | here => exact ⟨hnext, by rw [hnext]; exact hopen⟩
          | up =>
              have hsplit : d.Open (before.take (before.length - 1) ++
                  before.drop (before.length - 1)) := by
                rw [List.take_append_drop]
                exact hopen
              refine ⟨hnext, ?_⟩
              rw [hnext, List.dropLast_eq_take]
              exact hsplit.of_append
          | name bytes =>
              refine ⟨hnext.1, ?_⟩
              rw [hnext.1]
              exact hopen.concat hnode hnext.2

theorem Open.foldlM_enter (h : d.Open place)
    (hnames : forall name, name ∈ place -> Path.IsName name) :
    place.foldlM d.enter [] = .ok place := by
  induction place using List.reverseRecOn with
  | nil => rfl
  | append_singleton front name ih =>
      have hfront := ih h.of_append
        (fun other hother => hnames other (List.mem_append_left _ hother))
      have hmem : name ∈ front ++ [name] := List.mem_append_right _ (List.mem_singleton.mpr rfl)
      have hnode := h.directory front [name] rfl (List.cons_ne_nil _ _)
      have hnamed := (hnames name hmem).named
      have hentered : d.enter front name = .ok (front ++ [name]) := by
        unfold Path.componentOf Path.isIdle at hnamed
        unfold enter
        rw [hnode]
        cases hdot : Path.isDot name with
        | true => simp [hdot] at hnamed
        | false =>
            cases hdots : Path.isDotDot name with
            | true => simp [hdot, hdots] at hnamed
            | false =>
                have hshort := Nat.not_lt.mpr (h.short name hmem)
                simp [hshort]
      exact foldlM_concat_eq_ok.mpr ⟨front, hfront, hentered⟩

theorem foldlM_enter_up (d : Disk) (n : Nat) (names : List (List UInt8)) :
    (List.replicate n [Path.dot, Path.dot] ++ names).foldlM d.enter [] = names.foldlM d.enter [] := by
  induction n with
  | zero => rfl
  | succ n ih =>
      rw [List.replicate_succ, List.cons_append, List.foldlM_cons]
      exact ih

/-!
# Normal forms
-/

theorem walk_eq_ok (habsolute : p.isAbsolute = true) (h : d.walk p = .ok place) :
    p.bytes.contains 0 = false ∧ place = p.route.names ∧ d.Open place := by
  unfold walk at h
  split at h
  · cases h
  · rename_i hnul
    split at h
    · cases h
    · have hnames : forall name, name ∈ (Path.pieces p.bytes).filter (fun piece => !piece.isEmpty) ->
          name ≠ [] := by
        intro name hname hnil
        rw [hnil] at hname
        simp at hname
      rcases foldlM_enter_eq_ok hnames h with ⟨hplace, hopen⟩
      refine ⟨Bool.eq_false_iff.mpr hnul, ?_, hopen⟩
      -- empty pieces say nothing
      have hsaid : ((Path.pieces p.bytes).filter fun piece => !piece.isEmpty).filterMap
          Path.componentOf = Path.said p.bytes := by
        rw [Path.said, List.filterMap_filter]
        apply List.filterMap_congr
        intro piece _
        cases piece with
        | nil => rfl
        | cons b rest => rfl
      rw [hplace, hsaid, Path.route_eq]

theorem walk_normalize (habsolute : p.isAbsolute = true) (h : d.walk p = .ok place) :
    d.walk p.normalize = .ok place := by
  rcases walk_eq_ok habsolute h with ⟨hnul, hplace, hopen⟩
  have habsolute' : p.normalize.isAbsolute = true := by rw [Path.isAbsolute_normalize, habsolute]
  have hnul' : p.normalize.bytes.contains 0 = false := by
    rw [Bool.eq_false_iff]
    intro hcontains
    have hmem := Path.mem_of_mem_normalize (List.contains_iff_mem.mp hcontains)
      (by decide) (by decide)
    rw [List.contains_iff_mem.mpr hmem] at hnul
    cases hnul
  have hempty : p.normalize.isEmpty = false := by
    rw [Path.isEmpty, Path.bytes_of_isAbsolute habsolute']
    rfl
  have hpieces : (Path.pieces p.normalize.bytes).filter (fun piece => !piece.isEmpty) =
      List.replicate (p.route.ups % 2) [Path.dot, Path.dot] ++ p.route.names := by
    rw [Path.normalize_eq, habsolute]
    show (Path.pieces (Path.ofComponents (.root :: _)).bytes).filter _ = _
    rw [Path.filter_pieces_ofComponents (Path.isStep_of_mem_route p _), Route.components,
      List.map_append, List.map_replicate, List.map_map]
    exact congrArg _ (List.map_id _)
  have hnames : forall name, name ∈ place -> Path.IsName name := by
    intro name hname
    rw [hplace] at hname
    exact Path.isName_of_mem_components (Route.mem_of_mem_names hname)
  unfold walk
  rw [hnul', hempty, habsolute', hpieces, if_neg Bool.false_ne_true, if_neg Bool.false_ne_true,
    if_pos rfl]
  dsimp only
  rw [foldlM_enter_up, ← hplace]
  exact hopen.foldlM_enter hnames

theorem endsInSlash_normalize (habsolute : p.isAbsolute = true) (hnames : p.route.names ≠ []) :
    endsInSlash p.normalize = false := by
  have hsteps := Path.isStep_of_mem_route p (p.route.ups % 2)
  have hne : Route.components ⟨p.route.ups % 2, p.route.names⟩ ≠ [] :=
    List.append_ne_nil_of_right_ne_nil _ (mt List.map_eq_nil_iff.mp hnames)
  have hpieces := Path.pieces_ofComponents hne hsteps
  rw [Bool.eq_false_iff]
  intro hends
  rw [endsInSlash, beq_iff_eq] at hends
  rcases List.getLast?_eq_some_iff.mp hends with ⟨front, hfront⟩
  rw [Path.normalize_eq, habsolute, Path.routeComponents, if_pos rfl] at hfront
  rw [hfront, Path.pieces_append_slash] at hpieces
  -- the piece after the slash at the end would be empty
  rcases List.eq_nil_or_concat ((Route.components ⟨p.route.ups % 2, p.route.names⟩).map
      Path.spelling) with hnil | ⟨before, last, hlast⟩
  · exact hne (List.map_eq_nil_iff.mp hnil)
  · have hmem : last ∈ (Route.components ⟨p.route.ups % 2, p.route.names⟩).map Path.spelling := by
      rw [hlast]
      simp
    rw [hlast, List.concat_eq_append, ← List.cons_append] at hpieces
    have hempty : [[]] = [last] := (List.append_inj' hpieces rfl).2
    exact Path.ne_nil_of_says (Path.says_of_mem_map_spelling hsteps hmem)
      (List.singleton_inj.mp hempty).symm

theorem lookup_normalize (habsolute : p.isAbsolute = true) {node : DiskNode}
    (h : d.lookup p = .ok node) : d.lookup p.normalize = .ok node := by
  unfold lookup at h ⊢
  cases hwalk : d.walk p with
  | error fault =>
      rw [hwalk] at h
      cases h
  | ok place =>
      have hplace := (walk_eq_ok habsolute hwalk).2.1
      rw [walk_normalize habsolute hwalk]
      rw [hwalk] at h
      simp only [bind, Except.bind] at h ⊢
      cases hnode : d.node? place with
      | none =>
          rw [hnode] at h
          cases h
      | some found =>
          rw [hnode] at h
          cases found with
          | directory => exact h
          | file content modified =>
              -- the root is a directory
              have hnames : p.route.names ≠ [] := by
                intro hnil
                rw [hplace, hnil] at hnode
                cases hnode
              dsimp only at h ⊢
              rw [endsInSlash_normalize habsolute hnames, if_neg Bool.false_ne_true]
              split at h
              · cases h
              · exact h

theorem doesExist_normalize (habsolute : p.isAbsolute = true) (h : d.doesExist p = true) :
    d.doesExist p.normalize = true := by
  unfold doesExist at h ⊢
  cases hlookup : d.lookup p with
  | error fault =>
      rw [hlookup] at h
      cases h
  | ok node =>
      rw [lookup_normalize habsolute hlookup]
      rfl

end Disk
end SymbolIndex
