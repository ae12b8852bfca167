import Mathlib.Algebra.GroupWithZero.Nat
import Mathlib.Data.List.Chain
import SymbolIndex.Proofs.Path
import SymbolIndex.Proofs.Storage.Answers

/-!
# What a digest is made of

The bytes that are hashed hold no count of the records and nothing between the symbols
and the locations. They tell result sets apart all the same, as long as no key and no
name holds one of the two characters that end the fields of a symbol, and the places of
symbols are short of six bytes: a location then has two zero bytes in a row where no
symbol has them, and every record ends where its own bytes say.
-/

namespace SymbolIndex

/-!
# Numbers
-/

@[simp] theorem length_littleEndian (n x : Nat) : (littleEndian n x).length = n := by
  induction n generalizing x with
  | zero => rfl
  | succ n ih => rw [littleEndian, List.length_cons, ih]

theorem littleEndian_injective {n x y : Nat} (hx : x < 256 ^ n) (hy : y < 256 ^ n)
    (h : littleEndian n x = littleEndian n y) : x = y := by
  induction n generalizing x y with
  | zero => omega
  | succ n ih =>
      rw [littleEndian, littleEndian, List.cons.injEq] at h
      rw [Nat.pow_succ] at hx hy
      have hlow : x % 256 = y % 256 := by
        have hbyte := congrArg UInt8.toNat h.1
        rwa [UInt8.toNat_ofNat', UInt8.toNat_ofNat'] at hbyte
      have hhigh : x / 256 = y / 256 :=
        ih (Nat.div_lt_of_lt_mul (by omega)) (Nat.div_lt_of_lt_mul (by omega)) h.2
      omega

theorem littleEndian_of_lt {m x : Nat} (n : Nat) (hx : x < 256 ^ m) :
    littleEndian (m + n) x = littleEndian m x ++ List.replicate n 0 := by
  induction m generalizing x with
  | zero =>
      obtain rfl : x = 0 := by omega
      rw [Nat.zero_add, littleEndian, List.nil_append]
      induction n with
      | zero => rfl
      | succ n ih =>
          rw [littleEndian, Nat.zero_div, ih, List.replicate_succ]
          rfl
  | succ m ih =>
      rw [Nat.pow_succ] at hx
      rw [Nat.succ_add, littleEndian, littleEndian, List.cons_append,
        ih (Nat.div_lt_of_lt_mul (by omega))]

/-!
# Texts
-/

namespace Text

theorem bytesOf_injective {s t : String} (h : bytesOf s = bytesOf t) : s = t := by
  have hread := congrArg ofBytes? h
  rw [ofBytes?_bytesOf, ofBytes?_bytesOf] at hread
  exact Option.some.inj hread

theorem ascii_notMem_bytesOf {c : Char} (hc : c.val.toNat < 128) {s : String}
    (h : c ∉ s.toList) : UInt8.ofNat c.val.toNat ∉ bytesOf s := by
  rw [bytesOf_eq, List.mem_flatMap]
  rintro ⟨d, hd, hbyte⟩
  refine Path.ascii_notMem_encode hc ?_ hbyte
  rintro rfl
  exact h hd

end Text

theorem append_end_injective {stop : UInt8} {a b x y : List UInt8} (ha : stop ∉ a)
    (hb : stop ∉ b) (h : a ++ stop :: x = b ++ stop :: y) : a = b ∧ x = y := by
  induction a generalizing b with
  | nil =>
      cases b with
      | nil => exact ⟨rfl, (List.cons.inj h).2⟩
      | cons c rest => exact absurd ((List.cons.inj h).1 ▸ List.mem_cons_self) hb
  | cons c rest ih =>
      rw [List.mem_cons, not_or] at ha
      cases b with
      | nil => exact absurd (List.cons.inj h).1.symm ha.1
      | cons d more =>
          rw [List.mem_cons, not_or] at hb
          rcases List.cons.inj h with ⟨rfl, hrest⟩
          rcases ih ha.2 hb.2 hrest with ⟨rfl, hxy⟩
          exact ⟨rfl, hxy⟩

/-- No two zero bytes stand next to each other. -/
def Spaced (bytes : List UInt8) : Prop := bytes.IsChain fun a b => a ≠ 0 ∨ b ≠ 0

theorem spaced_of_zero_notMem {bytes : List UInt8} (h : 0 ∉ bytes) : Spaced bytes := by
  apply List.Pairwise.isChain
  apply List.pairwise_of_forall_mem_list
  intro a ha b _
  exact Or.inl fun hzero => h (hzero ▸ ha)

theorem Spaced.append_zero {before after : List UInt8} (hbefore : 0 ∉ before)
    (hafter : Spaced after) (hhead : after.head? ≠ some 0) : Spaced (before ++ 0 :: after) := by
  refine List.isChain_append.mpr ⟨spaced_of_zero_notMem hbefore, ?_, ?_⟩
  · refine List.isChain_cons.mpr ⟨?_, hafter⟩
    intro b hb
    exact Or.inr fun hzero => hhead (hzero ▸ hb)
  · intro a ha b _
    exact Or.inl fun hzero => hbefore (hzero ▸ List.mem_of_getLast? ha)

/-!
# Symbols
-/

namespace CollectedSymbol

/-- Neither the key nor the name holds a character that ends a field. -/
def Plain (s : CollectedSymbol) : Prop :=
  forall c, c ∈ s.usr.toList ++ s.name.toList -> c ≠ '\x00' ∧ c ≠ '\x01'

-- By the characters of the two texts: there are instances that go through all characters.
instance : DecidablePred Plain := fun s =>
  List.decidableBAll _ (s.usr.toList ++ s.name.toList)

variable {s t : CollectedSymbol} {x y : List UInt8}

theorem Plain.zero_notMem_usr (h : s.Plain) : 0 ∉ Text.bytesOf s.usr :=
  Text.ascii_notMem_bytesOf (c := '\x00') (by decide) fun hmem =>
    (h _ (List.mem_append_left _ hmem)).1 rfl

theorem Plain.zero_notMem_name (h : s.Plain) : 0 ∉ Text.bytesOf s.name :=
  Text.ascii_notMem_bytesOf (c := '\x00') (by decide) fun hmem =>
    (h _ (List.mem_append_right _ hmem)).1 rfl

theorem Plain.one_notMem_name (h : s.Plain) : 1 ∉ Text.bytesOf s.name :=
  Text.ascii_notMem_bytesOf (c := '\x01') (by decide) fun hmem =>
    (h _ (List.mem_append_right _ hmem)).2 rfl

theorem zero_notMem_kind (kind : SymbolKind) : 0 ∉ Text.bytesOf kind.text := by
  cases kind <;> decide

theorem five_le_length_kind (kind : SymbolKind) : 5 ≤ (Text.bytesOf kind.text).length := by
  cases kind <;> decide

theorem kind_injective {kind other : SymbolKind}
    (h : Text.bytesOf kind.text = Text.bytesOf other.text) : kind = other := by
  have hread := Store.kindOfText?_text kind
  rw [Text.bytesOf_injective h, Store.kindOfText?_text] at hread
  exact (Option.some.inj hread).symm

theorem encoding_append (s : CollectedSymbol) (x : List UInt8) :
    s.encoding ++ x = Text.bytesOf s.usr ++ 0 :: (Text.bytesOf s.kind.text ++
      0 :: (Text.bytesOf s.name ++ 1 :: x)) := by
  simp [encoding]

theorem encoding_append_injective (hs : s.Plain) (ht : t.Plain)
    (h : s.encoding ++ x = t.encoding ++ y) : s = t ∧ x = y := by
  rw [encoding_append, encoding_append] at h
  rcases append_end_injective hs.zero_notMem_usr ht.zero_notMem_usr h with ⟨husr, hafter⟩
  rcases append_end_injective (zero_notMem_kind _) (zero_notMem_kind _) hafter with
    ⟨hkind, hlast⟩
  rcases append_end_injective hs.one_notMem_name ht.one_notMem_name hlast with ⟨hname, hrest⟩
  refine ⟨?_, hrest⟩
  cases s
  cases t
  cases Text.bytesOf_injective husr
  cases Text.bytesOf_injective hname
  cases kind_injective hkind
  rfl

theorem eight_le_length_encoding (s : CollectedSymbol) : 8 ≤ s.encoding.length := by
  have hkind := five_le_length_kind s.kind
  simp only [encoding, List.length_append, List.length_cons, List.length_nil]
  omega

theorem Plain.spaced (h : s.Plain) : Spaced s.encoding := by
  have hend : 0 ∉ Text.bytesOf s.name ++ [1] := by
    rw [List.mem_append, not_or]
    exact ⟨h.zero_notMem_name, by decide⟩
  rw [← List.append_nil s.encoding, encoding_append]
  apply Spaced.append_zero h.zero_notMem_usr
  · apply Spaced.append_zero (zero_notMem_kind s.kind) (spaced_of_zero_notMem hend)
    exact fun hzero => hend (List.mem_of_head? hzero)
  · have hkind : Text.bytesOf s.kind.text ≠ [] := by
      intro hnone
      have hlength := five_le_length_kind s.kind
      rw [hnone] at hlength
      cases hlength
    rw [List.head?_append_of_ne_nil _ hkind]
    exact fun hzero => zero_notMem_kind s.kind (List.mem_of_head? hzero)

end CollectedSymbol

/-!
# Locations
-/

namespace CollectedLocation

/-- The place of the symbol is a number of at most six bytes. -/
def Short (l : CollectedLocation) : Prop := l.symbol < 2 ^ 48

instance : DecidablePred Short := fun l => inferInstanceAs (Decidable (l.symbol < 2 ^ 48))

variable {l m : CollectedLocation} {x y : List UInt8}

theorem role_append_injective {role other : Role}
    (h : Text.bytesOf role.text ++ x = Text.bytesOf other.text ++ y) : role = other ∧ x = y := by
  have hdefinition : Text.bytesOf Role.definition.text =
      [100, 101, 102, 105, 110, 105, 116, 105, 111, 110] := by decide
  have hreference : Text.bytesOf Role.reference.text =
      [114, 101, 102, 101, 114, 101, 110, 99, 101] := by decide
  cases role with
  | definition =>
      cases other with
      | definition => exact ⟨rfl, List.append_cancel_left h⟩
      | reference =>
          rw [hdefinition, hreference] at h
          cases (List.cons.inj h).1
  | reference =>
      cases other with
      | definition =>
          rw [hdefinition, hreference] at h
          cases (List.cons.inj h).1
      | reference => exact ⟨rfl, List.append_cancel_left h⟩

theorem encoding_append_injective (hl : l.Short) (hm : m.Short)
    (h : l.encoding ++ x = m.encoding ++ y) : l = m ∧ x = y := by
  simp only [encoding, List.append_assoc] at h
  rcases List.append_inj h (by simp) with ⟨hsymbol, hplace⟩
  rcases List.append_inj hplace (by simp) with ⟨hline, hafter⟩
  rcases List.append_inj hafter (by simp) with ⟨hcolumn, hlast⟩
  rcases role_append_injective hlast with ⟨hrole, hrest⟩
  refine ⟨?_, hrest⟩
  have hsize : (2 : Nat) ^ 48 ≤ 256 ^ 8 := by decide
  have hsame := littleEndian_injective (Nat.lt_of_lt_of_le hl hsize)
    (Nat.lt_of_lt_of_le hm hsize) hsymbol
  have hsameLine := UInt32.toNat_inj.mp (littleEndian_injective l.line.toNat_lt
    m.line.toNat_lt hline)
  have hsameColumn := UInt32.toNat_inj.mp (littleEndian_injective l.column.toNat_lt
    m.column.toNat_lt hcolumn)
  cases l
  cases m
  cases hsame
  cases hsameLine
  cases hsameColumn
  cases hrole
  rfl

theorem Short.encoding_eq (h : l.Short) :
    exists rest, l.encoding = littleEndian 6 l.symbol ++ 0 :: 0 :: rest := by
  have hsymbol : littleEndian 8 l.symbol = littleEndian 6 l.symbol ++ [0, 0] :=
    littleEndian_of_lt 2 (Nat.lt_of_lt_of_le h (by decide))
  refine ⟨littleEndian 4 l.line.toNat ++ (littleEndian 4 l.column.toNat ++
    Text.bytesOf l.role.text), ?_⟩
  simp [encoding, hsymbol]

theorem encoding_ne_nil (h : l.Short) : l.encoding ≠ [] := by
  rcases h.encoding_eq with ⟨rest, hrest⟩
  rw [hrest]
  simp

theorem symbol_append_ne {s : CollectedSymbol} (hs : s.Plain) (hl : l.Short) :
    s.encoding ++ x ≠ l.encoding ++ y := by
  intro h
  rcases hl.encoding_eq with ⟨rest, hrest⟩
  have hfront : s.encoding.take 8 = littleEndian 6 l.symbol ++ [0, 0] := by
    rw [← List.take_append_of_le_length s.eight_le_length_encoding, h, hrest, List.append_assoc,
      List.take_append, length_littleEndian,
      List.take_of_length_le (l := littleEndian 6 l.symbol) (by rw [length_littleEndian]; decide)]
    rfl
  have hspaced : Spaced (littleEndian 6 l.symbol ++ [0, 0]) := hfront ▸ hs.spaced.take 8
  rcases (List.isChain_append_cons_cons.mp hspaced).2.1 with hfirst | hsecond
  · exact hfirst rfl
  · exact hsecond rfl

end CollectedLocation

/-!
# Result sets
-/

namespace Results

/-- The keys, names and places of a result set are such that its bytes tell it apart. -/
structure Plain (r : Results) : Prop where
  symbols : forall s, s ∈ r.symbols -> s.Plain
  locations : forall l, l ∈ r.locations -> l.Short

instance : DecidablePred Plain := fun r =>
  decidable_of_iff ((forall s, s ∈ r.symbols -> s.Plain) ∧ forall l, l ∈ r.locations -> l.Short)
    ⟨fun h => ⟨h.1, h.2⟩, fun h => ⟨h.symbols, h.locations⟩⟩

theorem locations_injective {ls ms : List CollectedLocation}
    (hls : forall l, l ∈ ls -> l.Short) (hms : forall m, m ∈ ms -> m.Short)
    (h : ls.flatMap CollectedLocation.encoding = ms.flatMap CollectedLocation.encoding) :
    ls = ms := by
  induction ls generalizing ms with
  | nil =>
      cases ms with
      | nil => rfl
      | cons m more =>
          rw [List.flatMap_nil, List.flatMap_cons, List.nil_eq, List.append_eq_nil_iff] at h
          exact absurd h.1 (CollectedLocation.encoding_ne_nil (hms m List.mem_cons_self))
  | cons l rest ih =>
      cases ms with
      | nil =>
          rw [List.flatMap_nil, List.flatMap_cons, List.append_eq_nil_iff] at h
          exact absurd h.1 (CollectedLocation.encoding_ne_nil (hls l List.mem_cons_self))
      | cons m more =>
          rw [List.flatMap_cons, List.flatMap_cons] at h
          rcases CollectedLocation.encoding_append_injective (hls l List.mem_cons_self)
            (hms m List.mem_cons_self) h with ⟨rfl, hrest⟩
          rw [ih (fun other hother => hls other (List.mem_cons_of_mem l hother))
            (fun other hother => hms other (List.mem_cons_of_mem l hother)) hrest]

theorem symbol_append_ne_locations {s : CollectedSymbol} {ls : List CollectedLocation}
    {x : List UInt8} (hs : s.Plain) (hls : forall l, l ∈ ls -> l.Short) :
    s.encoding ++ x ≠ ls.flatMap CollectedLocation.encoding := by
  cases ls with
  | nil =>
      intro h
      have hlength := s.eight_le_length_encoding
      rw [List.flatMap_nil, List.append_eq_nil_iff] at h
      rw [h.1] at hlength
      cases hlength
  | cons l rest => exact CollectedLocation.symbol_append_ne hs (hls l List.mem_cons_self)

theorem Plain.eq_of_encoding_eq {r s : Results} (hr : r.Plain) (hs : s.Plain)
    (h : r.encoding = s.encoding) : r = s := by
  rcases r with ⟨rsymbols, rlocations⟩
  rcases s with ⟨ssymbols, slocations⟩
  unfold encoding at h
  dsimp only at h
  induction rsymbols generalizing ssymbols with
  | nil =>
      cases ssymbols with
      | nil => exact congrArg (Results.mk []) (locations_injective hr.locations hs.locations h)
      | cons t more =>
          rw [List.flatMap_cons, List.append_assoc] at h
          exact absurd h.symm
            (symbol_append_ne_locations (hs.symbols t List.mem_cons_self) hr.locations)
  | cons t rest ih =>
      cases ssymbols with
      | nil =>
          rw [List.flatMap_cons, List.append_assoc] at h
          exact absurd h
            (symbol_append_ne_locations (hr.symbols t List.mem_cons_self) hs.locations)
      | cons u more =>
          rw [List.flatMap_cons, List.flatMap_cons, List.append_assoc, List.append_assoc] at h
          rcases CollectedSymbol.encoding_append_injective (hr.symbols t List.mem_cons_self)
            (hs.symbols u List.mem_cons_self) h with ⟨rfl, hrest⟩
          have hboth := ih
            ⟨fun v hv => hr.symbols v (List.mem_cons_of_mem t hv), hr.locations⟩ more
            ⟨fun v hv => hs.symbols v (List.mem_cons_of_mem t hv), hs.locations⟩ hrest
          cases hboth
          rfl

theorem encoding_eq_of_digest_eq {r s : Results} (h : r.digest = s.digest)
    (hhash : Blake3.hash r.encoding = Blake3.hash s.encoding -> r.encoding = s.encoding) :
    r.encoding = s.encoding := by
  apply hhash
  have hread := congrArg Text.ofHex? h
  rw [digest, digest, Text.ofHex?_hex, Text.ofHex?_hex] at hread
  exact Option.some.inj hread

end Results

namespace Store

theorem Filed.exists_readBack {s : Store} (h : s.Filed) {file : FileId} {row : StatusRow}
    (hrow : s.statuses.get? file = some row) :
    exists r, s.readBack file = some r ∧ r.digest = row.digest := by
  rcases h.indexed file row hrow with ⟨r, hplain, hdigest, hrecords⟩
  exact ⟨r, hrecords.readBack hplain, hdigest⟩

end Store

namespace Storage

/--
Result sets without separators in their keys and names, whose locations name symbols below
the 48th power of two, are told apart by the bytes that are hashed. So a delivery that is
answered as unchanged, after any calls, brought what is stored already, unless the hash
function gives the different bytes of two such sets one hash.
-/
theorem hashed_bytes_tell_results_apart :
    (forall r s : Results, r.Plain -> s.Plain -> r.encoding = s.encoding -> r = s) ∧
    forall (calls : List StorageCall) (d : Delivery),
      let t := empty.after calls
      (t.deliver d).1 = .ok .unchanged ->
        exists stored, t.store.readBack d.task.file = some stored ∧
          stored.digest = d.results.digest ∧
          (stored.Plain -> d.results.Plain ->
            (Blake3.hash stored.encoding = Blake3.hash d.results.encoding ->
              stored.encoding = d.results.encoding) -> stored = d.results) := by
  refine ⟨fun r s hr hs h => hr.eq_of_encoding_eq hs h, ?_⟩
  intro calls d t hunchanged
  have h : t.store.Consistent := consistent_after Store.consistent_empty calls
  rcases ((answer_eq_unchanged_iff t d).mp hunchanged).2 with ⟨old, hold, -, hdigest⟩
  rcases h.filed.exists_readBack hold with ⟨stored, hread, hstored⟩
  refine ⟨stored, hread, hstored.trans hdigest, ?_⟩
  intro hplain hnew hhash
  exact hplain.eq_of_encoding_eq hnew
    (Results.encoding_eq_of_digest_eq (hstored.trans hdigest) hhash)

/-- One symbol with its definition and a reference to it. -/
def sampleResults : Results :=
  ⟨[⟨"c:a", .callable, "a"⟩], [⟨0, 3, 5, .definition⟩, ⟨0, 9, 1, .reference⟩]⟩

def sampleDelivery : Delivery := ⟨⟨⟨1⟩, ⟨"app"⟩, []⟩, ⟨0, 0⟩, sampleResults⟩

def sampleCalls : List StorageCall :=
  [.intern (.ofString "/w/a"), .updatePart ⟨"app"⟩ [] [⟨1⟩],
    .applyResults sampleDelivery.task sampleDelivery.status sampleResults]

/-- The results are collected anew, and what is stored is known to be the same. -/
theorem sample_results_are_told_apart :
    let collected := (Results.empty.define ⟨"c:a", .callable, "a"⟩ 3 5).addLocation 0 9 1 .reference
    (collected.Plain ∧ sampleResults.Plain ∧ collected.encoding = sampleResults.encoding ∧
      collected = sampleResults) ∧
    ((empty.after sampleCalls).deliver sampleDelivery).1 = .ok .unchanged ∧
      exists stored, (empty.after sampleCalls).store.readBack ⟨1⟩ = some stored ∧
        stored = sampleResults := by
  intro collected
  have hcollected : collected.Plain := by decide +kernel
  have hsample : sampleResults.Plain := by decide +kernel
  have hbytes : collected.encoding = sampleResults.encoding := by decide +kernel
  have hunchanged : ((empty.after sampleCalls).deliver sampleDelivery).1 = .ok .unchanged := by
    decide +kernel
  refine ⟨⟨hcollected, hsample, hbytes,
    hashed_bytes_tell_results_apart.1 _ _ hcollected hsample hbytes⟩, hunchanged, ?_⟩
  rcases hashed_bytes_tell_results_apart.2 sampleCalls sampleDelivery hunchanged with
    ⟨stored, hread, -, hsame⟩
  have hstored : some sampleResults = some stored := Eq.trans (by decide +kernel) hread
  cases hstored
  exact ⟨sampleResults, hread, hsame hsample hsample fun _ => rfl⟩

/-- A separator within a name can hide a symbol: two result sets, one string of bytes. -/
example : (⟨[⟨"a", .callable, "b"⟩, ⟨"c", .value, "d"⟩], []⟩ : Results).encoding =
    (⟨[⟨"a", .callable, "b\x01c\x00value\x00d"⟩], []⟩ : Results).encoding := by decide +kernel

end Storage
end SymbolIndex
