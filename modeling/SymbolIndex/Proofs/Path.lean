import SymbolIndex.Path

/-!
# Paths that are text

No character but the slash itself has the byte of a slash in it. The pieces of a path
that is text are therefore text, and so is its normal form, which is put together from
some of them. The components of a normal form are read back from how it is spelled, so a
normal form is its own normal form.
-/

namespace SymbolIndex

namespace Text

/-- The bytes are the UTF-8 form of some characters. -/
def IsText (bytes : List UInt8) : Prop :=
  exists cs : List Char, bytes = cs.flatMap String.utf8EncodeChar

theorem bytesOf_eq (s : String) : bytesOf s = s.toList.flatMap String.utf8EncodeChar := by
  rw [bytesOf, String.toUTF8, ← String.utf8Encode_toList, List.utf8Encode]
  simp

theorem isText_bytesOf (s : String) : IsText (bytesOf s) := ⟨s.toList, bytesOf_eq s⟩

theorem exists_of_isText {bytes : List UInt8} (h : IsText bytes) :
    exists s, bytes = bytesOf s := by
  rcases h with ⟨cs, rfl⟩
  exact ⟨String.ofList cs, by rw [bytesOf_eq, String.toList_ofList]⟩

theorem isText_nil : IsText [] := ⟨[], rfl⟩

theorem isText_append {a b : List UInt8} (ha : IsText a) (hb : IsText b) : IsText (a ++ b) := by
  rcases ha with ⟨as, rfl⟩
  rcases hb with ⟨bs, rfl⟩
  exact ⟨as ++ bs, by rw [List.flatMap_append]⟩

end Text

namespace Path

open Text

theorem encode_slash : String.utf8EncodeChar '/' = [slash] := by decide

theorem ascii_notMem_encode {c d : Char} (hd : d.val.toNat < 128) (hc : c ≠ d) :
    UInt8.ofNat d.val.toNat ∉ String.utf8EncodeChar c := by
  have hval : c.val.toNat ≠ d.val.toNat := by
    intro h
    apply hc
    apply Char.ext
    exact UInt32.toNat_inj.mp h
  intro hmem
  unfold String.utf8EncodeChar at hmem
  dsimp only at hmem
  have hbyte : forall n : Nat, UInt8.ofNat d.val.toNat = UInt8.ofNat n -> n % 256 = d.val.toNat := by
    intro n hn
    have hnat := congrArg UInt8.toNat hn
    rw [UInt8.toNat_ofNat', UInt8.toNat_ofNat', Nat.mod_eq_of_lt (by omega)] at hnat
    exact hnat.symm
  split at hmem
  · have hn := hbyte _ (List.mem_singleton.mp hmem)
    omega
  · split at hmem
    · simp only [List.mem_cons, List.not_mem_nil, or_false] at hmem
      rcases hmem with h | h <;> have hn := hbyte _ h <;> omega
    · split at hmem
      · simp only [List.mem_cons, List.not_mem_nil, or_false] at hmem
        rcases hmem with h | h | h <;> have hn := hbyte _ h <;> omega
      · simp only [List.mem_cons, List.not_mem_nil, or_false] at hmem
        rcases hmem with h | h | h | h <;> have hn := hbyte _ h <;> omega

theorem slash_notMem_encode {c : Char} (hc : c ≠ '/') : slash ∉ String.utf8EncodeChar c :=
  ascii_notMem_encode (by decide) hc

theorem pieces_append {bytes : List UInt8} (h : slash ∉ bytes) (rest : List UInt8) :
    exists piece more, pieces rest = piece :: more ∧
      pieces (bytes ++ rest) = (bytes ++ piece) :: more := by
  induction bytes with
  | nil =>
      cases hpieces : pieces rest with
      | nil => exact absurd hpieces (pieces_ne_nil rest)
      | cons piece more => exact ⟨piece, more, rfl, hpieces⟩
  | cons b bytes ih =>
      rw [List.mem_cons, not_or] at h
      rcases ih h.2 with ⟨piece, more, hrest, hpieces⟩
      refine ⟨piece, more, hrest, ?_⟩
      rw [List.cons_append, pieces, if_neg (Ne.symm h.1), hpieces]
      rfl

theorem isText_of_mem_pieces {bytes piece : List UInt8} (hbytes : IsText bytes)
    (hpiece : piece ∈ pieces bytes) : IsText piece := by
  rcases hbytes with ⟨cs, rfl⟩
  induction cs generalizing piece with
  | nil =>
      rw [List.mem_singleton.mp hpiece]
      exact isText_nil
  | cons c cs ih =>
      rw [List.flatMap_cons] at hpiece
      by_cases hc : c = '/'
      · rw [hc, encode_slash, List.singleton_append, pieces, if_pos rfl] at hpiece
        rcases List.mem_cons.mp hpiece with rfl | hrest
        · exact isText_nil
        · exact ih hrest
      · rcases pieces_append (slash_notMem_encode hc) (cs.flatMap String.utf8EncodeChar) with
          ⟨first, more, hrest, hpieces⟩
        rw [hpieces] at hpiece
        rcases List.mem_cons.mp hpiece with rfl | hmore
        · refine isText_append ⟨[c], by simp⟩ (ih ?_)
          rw [hrest]
          exact List.mem_cons_self
        · apply ih
          rw [hrest]
          exact List.mem_cons_of_mem _ hmore

theorem isText_joined {parts : List (List UInt8)} (h : forall part, part ∈ parts -> IsText part) :
    IsText (joined parts) := by
  induction parts with
  | nil => exact isText_nil
  | cons first rest ih =>
      have hfirst := h first List.mem_cons_self
      have hrest := ih (fun part hpart => h part (List.mem_cons_of_mem _ hpart))
      cases rest with
      | nil => exact hfirst
      | cons second more =>
          have hslash : IsText [slash] := ⟨['/'], by rw [List.flatMap_singleton, encode_slash]⟩
          exact isText_append hfirst (isText_append hslash hrest)

/-!
# Normal forms
-/

theorem eq_of_componentOf_eq_name {piece bytes : List UInt8}
    (h : componentOf piece = some (.name bytes)) : piece = bytes := by
  unfold componentOf at h
  split at h
  · cases h
  · split at h
    · cases h
    · cases h
      rfl

theorem mem_pieces_of_mem_components {p : Path} {bytes : List UInt8}
    (h : Component.name bytes ∈ p.components) :
    bytes ∈ pieces p.bytes ∧ componentOf bytes = some (.name bytes) := by
  have hone : forall piece, componentOf piece = some (.name bytes) ->
      piece = bytes ∧ componentOf bytes = some (.name bytes) := by
    intro piece hpiece
    rcases eq_of_componentOf_eq_name hpiece
    exact ⟨rfl, hpiece⟩
  have hall : forall more : List (List UInt8), Component.name bytes ∈ more.filterMap componentOf ->
      bytes ∈ more ∧ componentOf bytes = some (.name bytes) := by
    intro more hmem
    rcases List.mem_filterMap.mp hmem with ⟨piece, hpiece, hname⟩
    rcases hone piece hname with ⟨rfl, hsays⟩
    exact ⟨hpiece, hsays⟩
  unfold components at h
  cases hpieces : pieces p.bytes with
  | nil => exact absurd hpieces (pieces_ne_nil p.bytes)
  | cons first more =>
      have hmore : Component.name bytes ∈ more.filterMap componentOf ->
          bytes ∈ first :: more ∧ componentOf bytes = some (.name bytes) :=
        fun hmem => ⟨List.mem_cons_of_mem _ (hall more hmem).1, (hall more hmem).2⟩
      rw [hpieces] at h
      dsimp only at h
      split at h
      · exact hmore (by simpa using h)
      · split at h
        · exact hmore (by simpa using h)
        · rcases List.mem_append.mp h with hfirst | hlater
          · rcases hone first (Option.mem_toList.mp hfirst) with ⟨rfl, hsays⟩
            exact ⟨List.mem_cons_self, hsays⟩
          · exact hmore hlater

theorem mem_of_mem_foldl_pushComponent {cs out : List Component} {bytes : List UInt8}
    (h : Component.name bytes ∈ cs.foldl pushComponent out) :
    Component.name bytes ∈ cs ∨ Component.name bytes ∈ out := by
  induction cs generalizing out with
  | nil => exact Or.inr h
  | cons c cs ih =>
      rcases ih h with hrest | hpush
      · exact Or.inl (List.mem_cons_of_mem _ hrest)
      · unfold pushComponent at hpush
        split at hpush
        · rcases List.mem_singleton.mp hpush
        · exact Or.inr hpush
        · rcases List.mem_cons.mp hpush with hname | hout
          · rw [hname]
            exact Or.inl List.mem_cons_self
          · exact Or.inr hout
        · rcases List.mem_singleton.mp hpush
        · simp at hpush
        · exact Or.inr (List.mem_cons_of_mem _ hpush)

/-- The path is the one of some text. -/
def IsText (p : Path) : Prop := Text.IsText p.bytes

theorem isText_ofString (s : String) : (ofString s).IsText := isText_bytesOf s

theorem ofString_display {p : Path} (h : p.IsText) : ofString p.display = p := by
  rcases exists_of_isText h with ⟨s, hs⟩
  apply ofString_display_of_text? (s := s)
  rw [text?, hs, ofBytes?_bytesOf]

theorem isText_iff_ofString_display (p : Path) : p.IsText ↔ ofString p.display = p := by
  constructor
  · exact ofString_display
  · intro h
    rw [← h]
    exact isText_ofString _

instance : DecidablePred IsText := fun p =>
  decidable_of_iff (ofString p.display = p) (isText_iff_ofString_display p).symm

theorem isText_normalize {p : Path} (h : p.IsText) : p.normalize.IsText := by
  have hnames : forall bytes, Component.name bytes ∈ foldComponents p.components ->
      Text.IsText bytes := by
    intro bytes hmem
    rcases mem_of_mem_foldl_pushComponent (List.mem_reverse.mp hmem) with hold | hnone
    · exact isText_of_mem_pieces h (mem_pieces_of_mem_components hold).1
    · cases hnone
  have hdot : Text.IsText [dot] := ⟨['.'], by decide⟩
  have hdots : Text.IsText [dot, dot] := ⟨['.', '.'], by decide⟩
  unfold normalize ofComponents
  dsimp only
  split
  · exact ⟨['/'], by decide⟩
  · apply isText_joined
    intro part hpart
    rcases List.mem_map.mp hpart with ⟨c, hc, rfl⟩
    cases c with
    | root => exact isText_nil
    | here => exact hdot
    | up => exact hdots
    | name bytes => exact hnames bytes hc

/-!
# Folding twice
-/

/-- The name of a file: it is one piece of a path, and it says something. -/
structure IsName (bytes : List UInt8) : Prop where
  whole : slash ∉ bytes
  named : componentOf bytes = some (.name bytes)

/-- What can stand before the names of a normal form. -/
def fronts : List (List Component) := [[], [.up], [.root], [.root, .up]]

/-- Components as folding leaves them. -/
def IsFolded (cs : List Component) : Prop :=
  exists front, front ∈ fronts ∧ exists names : List (List UInt8),
    (forall bytes, bytes ∈ names -> IsName bytes) ∧ cs = front ++ names.map .name

theorem slash_notMem_of_mem_pieces {bytes piece : List UInt8} (h : piece ∈ pieces bytes) :
    slash ∉ piece := by
  induction bytes generalizing piece with
  | nil =>
      rw [List.mem_singleton.mp h]
      exact List.not_mem_nil
  | cons b rest ih =>
      rw [pieces] at h
      split at h
      · rcases List.mem_cons.mp h with rfl | hrest
        · exact List.not_mem_nil
        · exact ih hrest
      · rename_i hb
        split at h
        · rw [List.mem_singleton.mp h, List.mem_singleton]
          exact Ne.symm hb
        · rename_i first more hpieces
          rw [hpieces] at ih
          rcases List.mem_cons.mp h with rfl | hmore
          · rw [List.mem_cons, not_or]
            exact ⟨Ne.symm hb, ih List.mem_cons_self⟩
          · exact ih (List.mem_cons_of_mem _ hmore)

theorem isName_of_mem_components {p : Path} {bytes : List UInt8}
    (h : Component.name bytes ∈ p.components) : IsName bytes := by
  rcases mem_pieces_of_mem_components h with ⟨hpiece, hsays⟩
  exact ⟨slash_notMem_of_mem_pieces hpiece, hsays⟩

theorem isFolded_pushComponent {out : List Component} (hout : IsFolded out.reverse)
    {c : Component} (hc : forall bytes, c = .name bytes -> IsName bytes) :
    IsFolded (pushComponent out c).reverse := by
  rcases hout with ⟨front, hfront, names, hnames, hform⟩
  have hout : out = (names.map Component.name).reverse ++ front.reverse := by
    rw [← List.reverse_append, ← hform, List.reverse_reverse]
  subst hout
  cases c with
  | root => exact ⟨[.root], by decide, [], by simp, by simp [pushComponent]⟩
  | here => exact ⟨front, hfront, names, hnames, by simp [pushComponent]⟩
  | name bytes =>
      refine ⟨front, hfront, names ++ [bytes], ?_, by simp [pushComponent]⟩
      intro other hother
      rcases List.mem_append.mp hother with hold | hnew
      · exact hnames other hold
      · rw [List.mem_singleton.mp hnew]
        exact hc bytes rfl
  | up =>
      rcases List.eq_nil_or_concat names with rfl | ⟨before, last, rfl⟩
      · -- nothing but the front is there
        simp only [fronts, List.mem_cons, List.not_mem_nil, or_false] at hfront
        rcases hfront with rfl | rfl | rfl | rfl
        · exact ⟨[.up], by decide, [], by simp, by simp [pushComponent]⟩
        · exact ⟨[], by decide, [], by simp, by simp [pushComponent]⟩
        · exact ⟨[.root, .up], by decide, [], by simp, by simp [pushComponent]⟩
        · exact ⟨[.root], by decide, [], by simp, by simp [pushComponent]⟩
      · refine ⟨front, hfront, before, fun other hother => hnames other ?_, ?_⟩
        · simp [hother]
        · simp [pushComponent]

theorem isFolded_foldComponents {cs : List Component}
    (h : forall bytes, Component.name bytes ∈ cs -> IsName bytes) :
    IsFolded (foldComponents cs) := by
  have hfold : forall out : List Component, IsFolded out.reverse ->
      IsFolded (cs.foldl pushComponent out).reverse := by
    induction cs with
    | nil => exact fun out hout => hout
    | cons c rest ih =>
        intro out hout
        apply ih (fun bytes hbytes => h bytes (List.mem_cons_of_mem _ hbytes))
        exact isFolded_pushComponent hout (fun bytes hc => h bytes (by simp [hc]))
  exact hfold [] ⟨[], by decide, [], by simp, rfl⟩

theorem IsFolded.foldComponents_eq {cs : List Component} (h : IsFolded cs) :
    foldComponents cs = cs := by
  rcases h with ⟨front, hfront, names, -, rfl⟩
  have hnames : forall out : List Component, (names.map Component.name).foldl pushComponent out =
      (names.map Component.name).reverse ++ out := by
    induction names with
    | nil => exact fun out => rfl
    | cons bytes rest ih =>
        intro out
        rw [List.map_cons, List.foldl_cons, ih]
        simp [pushComponent]
  have hfold : front.foldl pushComponent [] = front.reverse := by
    simp only [fronts, List.mem_cons, List.not_mem_nil, or_false] at hfront
    rcases hfront with rfl | rfl | rfl | rfl <;> rfl
  rw [foldComponents, List.foldl_append, hfold, hnames, List.reverse_append,
    List.reverse_reverse, List.reverse_reverse]

theorem pieces_joined {parts : List (List UInt8)} (hne : parts ≠ [])
    (h : forall part, part ∈ parts -> slash ∉ part) : pieces (joined parts) = parts := by
  induction parts with
  | nil => exact absurd rfl hne
  | cons first rest ih =>
      have hfirst := h first List.mem_cons_self
      cases rest with
      | nil =>
          rcases pieces_append hfirst [] with ⟨piece, more, hpieces, hform⟩
          cases hpieces
          simpa [joined] using hform
      | cons second more =>
          have hrest := ih (by simp) (fun part hpart => h part (List.mem_cons_of_mem _ hpart))
          rcases pieces_append hfirst (slash :: joined (second :: more)) with
            ⟨piece, others, hpieces, hform⟩
          rw [pieces, if_pos rfl, hrest] at hpieces
          cases hpieces
          rw [joined, hform, List.append_nil]
          exact List.cons_ne_nil second more

/-- A piece that says something. -/
def Says (piece : List UInt8) : Prop := slash ∉ piece ∧ isIdle piece = false

theorem IsName.sayso {bytes : List UInt8} (h : IsName bytes) : Says bytes := by
  refine ⟨h.whole, ?_⟩
  have hnamed := h.named
  unfold componentOf at hnamed
  cases hidle : isIdle bytes with
  | false => rfl
  | true =>
      rw [hidle, if_pos rfl] at hnamed
      cases hnamed

theorem components_joined {said : List (List UInt8)} (h : forall piece, piece ∈ said -> Says piece) :
    (Path.mk (joined said)).components = said.filterMap componentOf := by
  cases said with
  | nil => rfl
  | cons first more =>
      have hpieces : pieces (joined (first :: more)) = first :: more :=
        pieces_joined (List.cons_ne_nil first more) (fun piece hpiece => (h piece hpiece).1)
      rcases h first List.mem_cons_self with ⟨hslash, hidle⟩
      rw [isIdle, Bool.or_eq_false_iff] at hidle
      have hrelative : (Path.mk (joined (first :: more))).isAbsolute = false := by
        cases first with
        | nil => cases hidle.1
        | cons b rest =>
            have hb : b ≠ slash := fun hb => hslash (hb ▸ List.mem_cons_self)
            have hhead : (joined ((b :: rest) :: more)).head? = some b := by
              cases more <;> rfl
            simp [isAbsolute, hhead, hb]
      unfold components
      rw [hpieces]
      dsimp only
      rw [hrelative, hidle.2, List.filterMap_cons]
      cases componentOf first <;> rfl

theorem components_joined_root {said : List (List UInt8)} (hne : said ≠ [])
    (h : forall piece, piece ∈ said -> Says piece) :
    (Path.mk (joined ([] :: said))).components = .root :: said.filterMap componentOf := by
  have hpieces : pieces (joined ([] :: said)) = [] :: said := by
    apply pieces_joined (List.cons_ne_nil [] said)
    intro piece hpiece
    rcases List.mem_cons.mp hpiece with rfl | hmem
    · exact List.not_mem_nil
    · exact (h piece hmem).1
  have habsolute : (Path.mk (joined ([] :: said))).isAbsolute = true := by
    cases said with
    | nil => exact absurd rfl hne
    | cons first more => rfl
  unfold components
  rw [hpieces]
  dsimp only
  rw [habsolute, if_pos rfl]

/-- How a component is spelled between slashes. -/
def spelling : Component -> List UInt8
  | .root => []
  | .here => [dot]
  | .up => [dot, dot]
  | .name bytes => bytes

theorem ofComponents_eq {cs : List Component} (h : cs ≠ [.root]) :
    ofComponents cs = ⟨joined (cs.map spelling)⟩ := by
  have hsame : forall spell : Component -> List UInt8, (forall c, spell c = spelling c) ->
      cs.map spell = cs.map spelling := fun spell hspell => by rw [funext hspell]
  unfold ofComponents
  dsimp only
  split
  · exact absurd rfl h
  · rw [hsame]
    intro c
    cases c <;> rfl

/-- A component that may stand anywhere in a path. -/
inductive IsStep : Component -> Prop
  | up : IsStep .up
  | name {bytes : List UInt8} (h : IsName bytes) : IsStep (.name bytes)

theorem IsStep.spelled {c : Component} (h : IsStep c) :
    Says (spelling c) ∧ componentOf (spelling c) = some c := by
  cases h with
  | up => exact ⟨⟨by decide, by decide⟩, by decide⟩
  | name hname => exact ⟨hname.sayso, hname.named⟩

theorem says_of_mem_map_spelling {cs : List Component} (h : forall c, c ∈ cs -> IsStep c)
    {piece : List UInt8} (hpiece : piece ∈ cs.map spelling) : Says piece := by
  rcases List.mem_map.mp hpiece with ⟨c, hc, rfl⟩
  exact (h c hc).spelled.1

theorem filterMap_spelling {cs : List Component} (h : forall c, c ∈ cs -> IsStep c) :
    (cs.map spelling).filterMap componentOf = cs := by
  induction cs with
  | nil => rfl
  | cons c rest ih =>
      rw [List.map_cons, List.filterMap_cons, (h c List.mem_cons_self).spelled.2,
        ih (fun d hd => h d (List.mem_cons_of_mem _ hd))]

theorem components_ofComponents {cs : List Component} (h : forall c, c ∈ cs -> IsStep c) :
    (ofComponents cs).components = cs := by
  have hne : cs ≠ [.root] := by
    intro hroot
    rw [hroot] at h
    cases h .root List.mem_cons_self
  rw [ofComponents_eq hne, components_joined (fun _ hpiece => says_of_mem_map_spelling h hpiece),
    filterMap_spelling h]

theorem components_ofComponents_root {cs : List Component} (h : forall c, c ∈ cs -> IsStep c) :
    (ofComponents (.root :: cs)).components = .root :: cs := by
  cases cs with
  | nil => rfl
  | cons c rest =>
      rw [ofComponents_eq (by simp)]
      apply (components_joined_root (List.cons_ne_nil (spelling c) (rest.map spelling))
        (fun _ hpiece => says_of_mem_map_spelling h hpiece)).trans
      exact congrArg (Component.root :: ·) (filterMap_spelling h)

theorem IsFolded.components_ofComponents {cs : List Component} (h : IsFolded cs) :
    (ofComponents cs).components = cs := by
  rcases h with ⟨front, hfront, names, hnames, rfl⟩
  have hsteps : forall c, c ∈ names.map Component.name -> IsStep c := by
    intro c hc
    rcases List.mem_map.mp hc with ⟨bytes, hbytes, rfl⟩
    exact .name (hnames bytes hbytes)
  have hup : forall c, c ∈ .up :: names.map Component.name -> IsStep c := by
    intro c hc
    rcases List.mem_cons.mp hc with rfl | hmem
    · exact .up
    · exact hsteps c hmem
  simp only [fronts, List.mem_cons, List.not_mem_nil, or_false] at hfront
  rcases hfront with rfl | rfl | rfl | rfl
  · exact Path.components_ofComponents hsteps
  · exact Path.components_ofComponents hup
  · exact components_ofComponents_root hsteps
  · exact components_ofComponents_root hup

theorem normalize_normalize (p : Path) : p.normalize.normalize = p.normalize := by
  have hfolded : IsFolded (foldComponents p.components) :=
    isFolded_foldComponents (fun _ hbytes => isName_of_mem_components hbytes)
  rw [normalize, normalize, hfolded.components_ofComponents, hfolded.foldComponents_eq]

end Path
end SymbolIndex
