import Mathlib.Algebra.GroupWithZero.Nat
import SymbolIndex.Proofs.Path

/-!
# Paths as they are shown

A path that is no text is shown with a replacement character for each broken character,
and what is shown is what the store keeps. No byte of a broken character is a slash or a
dot, and none is shown as one, so that the pieces of a path are shown one by one and a
normal form is shown as a normal form.
-/

namespace SymbolIndex

namespace Text

/-- A byte that is a character by itself. -/
def IsPlain (b : UInt8) : Prop := b.toNat < 128

theorem inByteRange_iff (lo hi b : UInt8) :
    inByteRange lo hi b = true ↔ lo.toNat ≤ b.toNat ∧ b.toNat ≤ hi.toNat := by
  rw [inByteRange, Bool.and_eq_true, decide_eq_true_iff, decide_eq_true_iff, UInt8.le_iff_toNat_le,
    UInt8.le_iff_toNat_le]

theorem IsPlain.not_inByteRange {lo hi b : UInt8} (h : IsPlain b) (hlo : 128 ≤ lo.toNat) :
    inByteRange lo hi b = false := by
  rw [Bool.eq_false_iff, ne_eq, inByteRange_iff]
  intro hrange
  exact absurd (Nat.lt_of_lt_of_le h hlo) (Nat.not_lt.mpr hrange.1)

theorem IsPlain.sequenceLength {b : UInt8} (h : IsPlain b) : sequenceLength b = 1 := by
  rw [Text.sequenceLength, if_pos]
  exact UInt8.lt_iff_toNat_lt.mpr h

/-!
# Characters end where a plain byte stands
-/

theorem secondRange_ge (b : UInt8) : 128 ≤ (secondRange b).1.toNat := by
  unfold secondRange
  repeat' split
  all_goals decide

theorem continuationRun_append {b : UInt8} (hb : IsPlain b) (n : Nat) (bytes rest : List UInt8) :
    continuationRun n (bytes ++ b :: rest) = continuationRun n bytes := by
  induction bytes generalizing n with
  | nil =>
      cases n with
      | zero => rfl
      | succ n =>
          have hends : inByteRange 0x80 0xbf b = false := hb.not_inByteRange (by decide)
          simp [continuationRun, hends]
  | cons c bytes ih =>
      cases n with
      | zero => rfl
      | succ n => rw [List.cons_append, continuationRun, continuationRun, ih]

theorem followers_append {b : UInt8} (hb : IsPlain b) (c : UInt8) (bytes rest : List UInt8) :
    followers c (bytes ++ b :: rest) = followers c bytes := by
  have hends : inByteRange (secondRange c).1 (secondRange c).2 b = false :=
    hb.not_inByteRange (secondRange_ge c)
  unfold followers
  rcases sequenceLength c with _ | _ | n
  · rfl
  · rfl
  · cases bytes with
    | nil => simp [hends]
    | cons d bytes =>
        rw [List.cons_append]
        dsimp only
        rw [continuationRun_append hb]

theorem continuationRun_le (n : Nat) (bytes : List UInt8) :
    continuationRun n bytes ≤ n ∧ continuationRun n bytes ≤ bytes.length := by
  induction bytes generalizing n with
  | nil => cases n <;> simp [continuationRun]
  | cons b rest ih =>
      cases n with
      | zero => simp [continuationRun]
      | succ n =>
          rw [continuationRun]
          have hrest := ih n
          split
          · simpa using hrest
          · simp

theorem followers_le (b : UInt8) (rest : List UInt8) : followers b rest ≤ rest.length := by
  unfold followers
  split
  · dsimp only
    split
    · exact Nat.succ_le_succ (continuationRun_le _ _).2
    · exact Nat.zero_le _
  · exact Nat.zero_le _

/-- The character that the first byte of some bytes is shown as, with its followers. -/
def firstShown (b : UInt8) (rest : List UInt8) : Char :=
  if sequenceLength b = followers b rest + 1 then characterOf b (rest.take (followers b rest))
  else replacement

theorem decodeLossy_cons (b : UInt8) (rest : List UInt8) :
    decodeLossy (b :: rest) =
      firstShown b rest :: decodeLossy (rest.drop (followers b rest)) := by
  rw [decodeLossy, firstShown]

theorem IsPlain.followers {b : UInt8} (h : IsPlain b) (rest : List UInt8) : followers b rest = 0 := by
  unfold Text.followers
  rw [h.sequenceLength]

theorem IsPlain.firstShown {b : UInt8} (h : IsPlain b) (rest : List UInt8) :
    firstShown b rest = Char.ofNat b.toNat := by
  rw [Text.firstShown, h.followers, if_pos h.sequenceLength]
  rfl

theorem decodeLossy_append {b : UInt8} (hb : IsPlain b) (bytes rest : List UInt8) :
    decodeLossy (bytes ++ b :: rest) = decodeLossy bytes ++ decodeLossy (b :: rest) := by
  induction bytes using decodeLossy.induct with
  | case1 => rw [decodeLossy, List.nil_append, List.nil_append]
  | case2 c bytes n ih =>
      have hn : n ≤ bytes.length := followers_le c bytes
      rw [List.cons_append, decodeLossy_cons, decodeLossy_cons c bytes, firstShown, firstShown,
        followers_append hb, List.take_append_of_le_length hn, List.drop_append_of_le_length hn, ih,
        List.cons_append]

/-!
# No byte of a broken character is shown as a plain one
-/

theorem secondRange_start (b : UInt8) :
    (b.toNat = 0xe0 -> secondRange b = (0xa0, 0xbf)) ∧
      (b.toNat = 0xf0 -> secondRange b = (0x90, 0xbf)) := by
  constructor
  · intro hb
    rw [show b = 0xe0 from UInt8.toNat_inj.mp hb]
    rfl
  · intro hb
    rw [show b = 0xf0 from UInt8.toNat_inj.mp hb]
    rfl

theorem range_of_sequenceLength {b : UInt8} {n : Nat} (h : sequenceLength b = n + 2) :
    (n = 0 ∧ 0xc2 ≤ b.toNat ∧ b.toNat ≤ 0xdf) ∨ (n = 1 ∧ 0xe0 ≤ b.toNat ∧ b.toNat ≤ 0xef) ∨
      (n = 2 ∧ 0xf0 ≤ b.toNat ∧ b.toNat ≤ 0xf4) := by
  unfold sequenceLength at h
  simp only [inByteRange_iff] at h
  split at h
  · cases h
  · split at h
    · rename_i htwo
      exact .inl ⟨by omega, htwo⟩
    · split at h
      · rename_i hthree
        exact .inr (.inl ⟨by omega, hthree⟩)
      · split at h
        · rename_i hfour
          exact .inr (.inr ⟨by omega, hfour⟩)
        · cases h

theorem value_ge {b c : UInt8} {n : Nat} (hlength : sequenceLength b = n + 2)
    (hrange : inByteRange (secondRange b).1 (secondRange b).2 c = true) :
    128 ≤ (b.toNat % 2 ^ (5 - n) * 64 + lowBits c) * 64 ^ n := by
  rw [inByteRange_iff] at hrange
  have hlow : 128 ≤ c.toNat := Nat.le_trans (secondRange_ge b) hrange.1
  rcases secondRange_start b with ⟨hthree, hfour⟩
  unfold lowBits
  rcases range_of_sequenceLength hlength with ⟨rfl, hlo, hhi⟩ | ⟨rfl, hlo, hhi⟩ | ⟨rfl, hlo, hhi⟩
  · simp only [Nat.reduceSub, Nat.reducePow]
    omega
  · simp only [Nat.reduceSub, Nat.reducePow]
    by_cases hb : b.toNat = 0xe0
    · rw [hthree hb] at hrange
      have hc : 0xa0 ≤ c.toNat ∧ c.toNat ≤ 0xbf := hrange
      omega
    · omega
  · simp only [Nat.reduceSub, Nat.reducePow]
    by_cases hb : b.toNat = 0xf0
    · rw [hfour hb] at hrange
      have hc : 0x90 ≤ c.toNat ∧ c.toNat ≤ 0xbf := hrange
      omega
    · omega
theorem foldl_lowBits_ge (lead : Nat) (bytes : List UInt8) :
    lead * 64 ^ bytes.length ≤ bytes.foldl (fun n c => n * 64 + lowBits c) lead := by
  induction bytes generalizing lead with
  | nil => simp
  | cons c rest ih =>
      have hrest := ih (lead * 64 + lowBits c)
      rw [List.foldl_cons, List.length_cons, Nat.pow_succ']
      calc lead * (64 * 64 ^ rest.length)
          = lead * 64 * 64 ^ rest.length := (Nat.mul_assoc _ _ _).symm
        _ ≤ (lead * 64 + lowBits c) * 64 ^ rest.length :=
            Nat.mul_le_mul_right _ (Nat.le_add_right _ _)
        _ ≤ _ := hrest

theorem eq_or_eq_nul_of_ofNat {n : Nat} {d : Char} (h : Char.ofNat n = d) :
    d.val.toNat = n ∨ d.val.toNat = 0 := by
  subst h
  by_cases hvalid : n.isValidChar
  · left
    rw [Char.ofNat, dif_pos hvalid]
    rfl
  · right
    rw [Char.ofNat, dif_neg hvalid]
    rfl

theorem isPlain_of_sequenceLength {b : UInt8} (h : sequenceLength b = 1) : IsPlain b := by
  unfold sequenceLength at h
  split at h
  · rename_i hlt
    exact UInt8.lt_iff_toNat_lt.mp hlt
  · repeat' split at h
    all_goals cases h

/-- A character of several bytes is no ASCII character but, perhaps, the null character. -/
theorem characterOf_ne {b : UInt8} (hb : ¬ IsPlain b) {rest : List UInt8}
    (hwhole : sequenceLength b = followers b rest + 1) {d : Char} (hd : d.val.toNat < 128)
    (hnul : d.val.toNat ≠ 0) : characterOf b (rest.take (followers b rest)) ≠ d := by
  unfold followers at hwhole ⊢
  rcases hlength : sequenceLength b with _ | _ | n
  · rw [hlength] at hwhole
    cases hwhole
  · exact absurd (isPlain_of_sequenceLength hlength) hb
  · rw [hlength] at hwhole
    cases rest with
    | nil => cases hwhole
    | cons c more =>
        dsimp only at hwhole ⊢
        by_cases hrange : inByteRange (secondRange b).1 (secondRange b).2 c = true
        · rw [if_pos hrange] at hwhole ⊢
          have hrun : continuationRun n more = n := by omega
          have hlen : (more.take n).length = n := by
            rw [List.length_take, Nat.min_eq_left]
            rw [← hrun]
            exact (continuationRun_le n more).2
          rw [hrun, List.take_succ_cons]
          have hvalue : characterOf b (c :: more.take n) = Char.ofNat ((more.take n).foldl
              (fun n c => n * 64 + lowBits c) (b.toNat % 2 ^ (5 - n) * 64 + lowBits c)) := by
            unfold characterOf
            rw [List.length_cons, hlen]
            rcases range_of_sequenceLength hlength with ⟨rfl, -⟩ | ⟨rfl, -⟩ | ⟨rfl, -⟩ <;> rfl
          have hlarge := foldl_lowBits_ge (b.toNat % 2 ^ (5 - n) * 64 + lowBits c) (more.take n)
          rw [hlen] at hlarge
          have hge := value_ge hlength hrange
          intro heq
          rw [hvalue] at heq
          rcases eq_or_eq_nul_of_ofNat heq with hsame | hzero
          · omega
          · exact hnul hzero
        · rw [if_neg hrange] at hwhole
          omega

theorem firstShown_ne {b : UInt8} (hb : ¬ IsPlain b) (rest : List UInt8) {d : Char}
    (hd : d.val.toNat < 128) (hnul : d.val.toNat ≠ 0) : firstShown b rest ≠ d := by
  unfold firstShown
  split
  · rename_i hwhole
    exact characterOf_ne hb hwhole hd hnul
  · rintro rfl
    exact absurd hd (by decide)

/-!
# Bytes of what is shown
-/

/-- The bytes of the text that bytes are shown as where they are no text. -/
def shown (bytes : List UInt8) : List UInt8 := (decodeLossy bytes).flatMap String.utf8EncodeChar

theorem shown_nil : shown [] = [] := by
  rw [shown, decodeLossy]
  rfl

theorem shown_cons (b : UInt8) (rest : List UInt8) :
    shown (b :: rest) =
      String.utf8EncodeChar (firstShown b rest) ++ shown (rest.drop (followers b rest)) := by
  rw [shown, decodeLossy_cons, List.flatMap_cons, shown]

theorem IsPlain.toNat_ofNat {b : UInt8} (h : IsPlain b) :
    (Char.ofNat b.toNat).val.toNat = b.toNat := by
  have hvalid : b.toNat.isValidChar := Or.inl (Nat.lt_trans h (by decide))
  rw [Char.ofNat, dif_pos hvalid]
  rfl

theorem IsPlain.encode {b : UInt8} (h : IsPlain b) :
    String.utf8EncodeChar (Char.ofNat b.toNat) = [b] := by
  unfold String.utf8EncodeChar
  dsimp only
  rw [h.toNat_ofNat, if_pos (Nat.le_of_lt_succ h), UInt8.ofNat_toNat]

theorem shown_plain {b : UInt8} (h : IsPlain b) (rest : List UInt8) :
    shown (b :: rest) = b :: shown rest := by
  rw [shown_cons, h.firstShown, h.encode, h.followers]
  rfl

theorem shown_append {b : UInt8} (hb : IsPlain b) (bytes rest : List UInt8) :
    shown (bytes ++ b :: rest) = shown bytes ++ b :: shown rest := by
  rw [← shown_plain hb, shown, shown, shown, decodeLossy_append hb, List.flatMap_append]

section Plain

variable {b : UInt8} (hb : IsPlain b) (hnul : b.toNat ≠ 0)

include hb hnul

theorem notMem_encode_firstShown {c : UInt8} (hc : ¬ IsPlain c) (rest : List UInt8) :
    b ∉ String.utf8EncodeChar (firstShown c rest) := by
  have hval := hb.toNat_ofNat
  have hne : firstShown c rest ≠ Char.ofNat b.toNat := by
    apply firstShown_ne hc
    · rw [hval]
      exact hb
    · rw [hval]
      exact hnul
  have hnot := Path.ascii_notMem_encode (d := Char.ofNat b.toNat) (by rw [hval]; exact hb) hne
  rw [hval, UInt8.ofNat_toNat] at hnot
  exact hnot

theorem mem_of_mem_shown {bytes : List UInt8} (h : b ∈ shown bytes) : b ∈ bytes := by
  induction bytes using decodeLossy.induct with
  | case1 =>
      rw [shown_nil] at h
      exact h
  | case2 c rest n ih =>
      rw [shown_cons] at h
      rcases List.mem_append.mp h with hfirst | hlater
      · by_cases hc : IsPlain c
        · rw [hc.firstShown, hc.encode] at hfirst
          rw [List.mem_singleton.mp hfirst]
          exact List.mem_cons_self
        · exact absurd hfirst (notMem_encode_firstShown hb hnul hc rest)
      · exact List.mem_cons_of_mem _ (List.mem_of_mem_drop (ih hlater))

theorem shown_eq_self {bytes : List UInt8} (h : forall c, c ∈ shown bytes -> c = b) :
    shown bytes = bytes := by
  induction bytes with
  | nil => exact shown_nil
  | cons c rest ih =>
      by_cases hc : IsPlain c
      · rw [shown_plain hc] at h ⊢
        rw [ih fun d hd => h d (List.mem_cons_of_mem _ hd)]
      · exfalso
        rw [shown_cons] at h
        cases hencode : String.utf8EncodeChar (firstShown c rest) with
        | nil =>
            have hlength := String.length_utf8EncodeChar (firstShown c rest)
            rw [hencode] at hlength
            exact absurd hlength (Nat.ne_of_lt (Char.utf8Size_pos _))
        | cons d more =>
            have hmem : d ∈ String.utf8EncodeChar (firstShown c rest) := by
              rw [hencode]
              exact List.mem_cons_self
            rw [h d (List.mem_append_left _ hmem)] at hmem
            exact notMem_encode_firstShown hb hnul hc rest hmem

end Plain

end Text

namespace Path

open Text

theorem isPlain_slash : IsPlain slash := Nat.lt_of_sub_pos (by decide)

theorem isPlain_dot : IsPlain dot := Nat.lt_of_sub_pos (by decide)

/-!
# Normal forms are shown as normal forms
-/

theorem shown_joined (parts : List (List UInt8)) :
    shown (joined parts) = joined (parts.map shown) := by
  induction parts with
  | nil => exact shown_nil
  | cons first rest ih =>
      cases rest with
      | nil => rfl
      | cons second more =>
          rw [joined, shown_append isPlain_slash, ih]
          · rfl
          · exact List.cons_ne_nil second more

theorem IsName.shown {bytes : List UInt8} (h : IsName bytes) : IsName (shown bytes) := by
  have hdots : (forall c, c ∈ Text.shown bytes -> c = dot) -> IsName (Text.shown bytes) := by
    intro hall
    rw [shown_eq_self isPlain_dot (by decide) hall]
    exact h
  refine ⟨fun hslash => h.whole (mem_of_mem_shown isPlain_slash (by decide) hslash), ?_⟩
  cases hidle : isIdle (Text.shown bytes) with
  | true =>
      refine (hdots ?_).named
      intro c hc
      rw [isIdle, Bool.or_eq_true, List.isEmpty_iff, isDot, beq_iff_eq] at hidle
      rcases hidle with hnil | hdot
      · rw [hnil] at hc
        cases hc
      · rw [hdot] at hc
        exact List.mem_singleton.mp hc
  | false =>
      cases hup : isDotDot (Text.shown bytes) with
      | true =>
          refine (hdots ?_).named
          intro c hc
          rw [isDotDot, beq_iff_eq] at hup
          rw [hup] at hc
          simpa using hc
      | false => rw [componentOf, hidle, if_neg Bool.false_ne_true, hup, if_neg Bool.false_ne_true]

/-- A component whose name is shown. -/
def shownComponent : Component -> Component
  | .name bytes => .name (Text.shown bytes)
  | c => c

theorem spelling_shownComponent (c : Component) :
    spelling (shownComponent c) = Text.shown (spelling c) := by
  cases c with
  | root => exact shown_nil.symm
  | here => rw [spelling, shown_plain isPlain_dot, shown_nil]; rfl
  | up => rw [spelling, shown_plain isPlain_dot, shown_plain isPlain_dot, shown_nil]; rfl
  | name bytes => rfl

theorem IsFolded.shown {cs : List Component} (h : IsFolded cs) :
    IsFolded (cs.map shownComponent) := by
  rcases h with ⟨front, hfront, names, hnames, rfl⟩
  have hsame : front.map shownComponent = front := by
    simp only [fronts, List.mem_cons, List.not_mem_nil, or_false] at hfront
    rcases hfront with rfl | rfl | rfl | rfl <;> rfl
  refine ⟨front, hfront, names.map Text.shown, ?_, ?_⟩
  · intro bytes hbytes
    rcases List.mem_map.mp hbytes with ⟨name, hname, rfl⟩
    exact (hnames name hname).shown
  · rw [List.map_append, hsame, List.map_map, List.map_map]
    rfl

theorem shown_ofComponents (cs : List Component) :
    Text.shown (ofComponents cs).bytes = (ofComponents (cs.map shownComponent)).bytes := by
  by_cases hroot : cs = [.root]
  · rw [hroot]
    show Text.shown [slash] = [slash]
    rw [shown_plain isPlain_slash, shown_nil]
  · have hroot' : cs.map shownComponent ≠ [.root] := by
      intro heq
      rcases List.map_eq_singleton_iff.mp heq with ⟨c, rfl, hc⟩
      cases c with
      | root => exact hroot rfl
      | _ => cases hc
    rw [ofComponents_eq hroot, ofComponents_eq hroot', shown_joined, List.map_map, List.map_map]
    congr 2
    funext c
    exact (spelling_shownComponent c).symm

theorem normalize_ofString_display (p : Path) :
    (ofString p.normalize.display).normalize = ofString p.normalize.display := by
  cases htext : p.normalize.text? with
  | some s =>
      rw [ofString_display_of_text? htext]
      exact normalize_normalize p
  | none =>
      have hfolded : IsFolded (foldComponents p.components) :=
        isFolded_foldComponents (fun _ hbytes => isName_of_mem_components hbytes)
      have hshown : ofString p.normalize.display =
          ofComponents ((foldComponents p.components).map shownComponent) := by
        rw [text?] at htext
        rw [ofString, bytesOf_eq, display, ofBytesLossy, htext]
        dsimp only
        rw [String.toList_ofList, normalize]
        exact congrArg Path.mk (shown_ofComponents _)
      rw [hshown, normalize, hfolded.shown.components_ofComponents, hfolded.shown.foldComponents_eq]

end Path
end SymbolIndex
