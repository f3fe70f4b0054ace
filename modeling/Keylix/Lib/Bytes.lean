import Mathlib

/-!
# Byte strings

Texts are lists of bytes, as a UTF-8 string type stores them. This file has the ASCII classes and
case folding used on such texts, numerals in a base of at most sixteen with their parser, the
64-bit integers such texts stand for, the cut of a text at the first byte of a class, and the
predicate of byte lists that are UTF-8.

`parseNumeral_numeral` is the round trip of numerals. `takeWhile_not_append` and
`dropWhile_not_append` compute a cut whose delimiter is known.
-/

set_option autoImplicit false

namespace Keylix.Lib

/-- A byte string. -/
abbrev Bytes := List UInt8

/-- The byte of an ASCII character. -/
abbrev byte (c : Char) : UInt8 := c.toUInt8

/-- The bytes of an ASCII text. -/
def ascii (s : String) : Bytes := s.toList.map Char.toUInt8

/-- A byte array of fixed length. -/
abbrev ByteArr (n : Nat) := { b : Bytes // b.length = n }

/-! ## ASCII classes -/

def isAsciiDigit (b : UInt8) : Bool := byte '0' ≤ b && b ≤ byte '9'

def isAsciiUpper (b : UInt8) : Bool := byte 'A' ≤ b && b ≤ byte 'Z'

def isAsciiLower (b : UInt8) : Bool := byte 'a' ≤ b && b ≤ byte 'z'

def isAsciiAlphanumeric (b : UInt8) : Bool := isAsciiDigit b || isAsciiUpper b || isAsciiLower b

/-- Every byte is below `0x80`. -/
def isAscii (s : Bytes) : Bool := s.all (· < 0x80)

/-- Lower case of one ASCII byte; every other byte is unchanged. -/
def toAsciiLower (b : UInt8) : UInt8 := if isAsciiUpper b then b + 32 else b

/-- Lower case of an ASCII text. -/
def toAsciiLowercase (s : Bytes) : Bytes := s.map toAsciiLower

/-- Equality of texts up to ASCII case. -/
def eqIgnoreAsciiCase (s t : Bytes) : Bool := toAsciiLowercase s == toAsciiLowercase t

theorem toAsciiLower_idem (b : UInt8) : toAsciiLower (toAsciiLower b) = toAsciiLower b := by
  revert b
  decide +kernel

@[simp] theorem toAsciiLowercase_idem (s : Bytes) :
    toAsciiLowercase (toAsciiLowercase s) = toAsciiLowercase s := by
  simp [toAsciiLowercase, toAsciiLower_idem]

@[simp] theorem toAsciiLowercase_append (s t : Bytes) :
    toAsciiLowercase (s ++ t) = toAsciiLowercase s ++ toAsciiLowercase t :=
  List.map_append

@[simp] theorem length_toAsciiLowercase (s : Bytes) : (toAsciiLowercase s).length = s.length :=
  List.length_map _

theorem eqIgnoreAsciiCase_iff (s t : Bytes) :
    eqIgnoreAsciiCase s t = true ↔ toAsciiLowercase s = toAsciiLowercase t := by
  simp [eqIgnoreAsciiCase]

/-! ## Numerals -/

/-- The digit of value `d < 16`, in lower case. -/
def digitByte (d : Nat) : UInt8 :=
  if d < 10 then byte '0' + UInt8.ofNat d else byte 'a' + UInt8.ofNat (d - 10)

/-- The value of a hexadecimal digit of either case. -/
def digitValue (b : UInt8) : Option Nat :=
  if isAsciiDigit b then some (b.toNat - 48)
  else if byte 'a' ≤ b && b ≤ byte 'f' then some (b.toNat - 87)
  else if byte 'A' ≤ b && b ≤ byte 'F' then some (b.toNat - 55)
  else none

/-- The numeral of `n` in base `b`, most significant digit first, without leading zeros. -/
def numeral (b n : Nat) : Bytes :=
  if n = 0 then [byte '0'] else (Nat.digits b n).reverse.map digitByte

/-- The decimal numeral. -/
abbrev decimal (n : Nat) : Bytes := numeral 10 n

/-- The value of a digit string read most significant digit first, from the value `acc` of the
digits before it. Bytes that are no digit of the base are rejected. -/
def parseDigits (b : Nat) : Nat → Bytes → Option Nat
  | acc, [] => some acc
  | acc, c :: cs =>
      match digitValue c with
      | some d => if d < b then parseDigits b (acc * b + d) cs else none
      | none => none

/-- The value of a non-empty digit string. -/
def parseNumeral (b : Nat) (s : Bytes) : Option Nat :=
  if s.isEmpty then none else parseDigits b 0 s

/-- The decimal text of an integer. -/
def decimalInt (z : Int) : Bytes :=
  if z < 0 then byte '-' :: decimal z.natAbs else decimal z.natAbs

theorem digitValue_digitByte {d : Nat} (h : d < 16) : digitValue (digitByte d) = some d := by
  revert d
  decide

theorem isAsciiDigit_digitByte {d : Nat} (h : d < 10) : isAsciiDigit (digitByte d) = true := by
  revert d
  decide

theorem numeral_ne_nil (b n : Nat) : numeral b n ≠ [] := by
  unfold numeral
  split
  · simp
  · simp [Nat.digits_ne_nil_iff_ne_zero, *]

/-- Digits of a numeral come from digits below the base. -/
theorem mem_numeral {b n : Nat} (hb : 1 < b) {c : UInt8} (hc : c ∈ numeral b n) :
    ∃ d < b, c = digitByte d := by
  unfold numeral at hc
  split at hc
  · exact ⟨0, by omega, by simpa [digitByte] using hc⟩
  · simp only [List.mem_map, List.mem_reverse] at hc
    obtain ⟨d, hd, rfl⟩ := hc
    exact ⟨d, Nat.digits_lt_base hb hd, rfl⟩

theorem isAsciiDigit_of_mem_decimal {n : Nat} {c : UInt8} (hc : c ∈ decimal n) :
    isAsciiDigit c = true := by
  obtain ⟨d, hd, rfl⟩ := mem_numeral (by norm_num) hc
  exact isAsciiDigit_digitByte hd

theorem parseDigits_append (b : Nat) (s t : Bytes) (acc : Nat) :
    parseDigits b acc (s ++ t) = (parseDigits b acc s).bind fun v => parseDigits b v t := by
  induction s generalizing acc with
  | nil => rfl
  | cons c cs ih =>
    simp only [List.cons_append, parseDigits]
    cases digitValue c with
    | none => rfl
    | some d =>
      by_cases hd : d < b
      · simp only [hd, if_true]
        exact ih (acc * b + d)
      · simp [hd]

/-- Reading the reversed digit list computes `Nat.ofDigits`. -/
theorem parseDigits_reverse {b : Nat} (hb : b ≤ 16) (L : List Nat) (hL : ∀ d ∈ L, d < b) :
    parseDigits b 0 (L.reverse.map digitByte) = some (Nat.ofDigits b L) := by
  induction L with
  | nil => rfl
  | cons d L ih =>
    have hd : d < b := hL d List.mem_cons_self
    have hval : digitValue (digitByte d) = some d := digitValue_digitByte (by omega)
    rw [List.reverse_cons, List.map_append, parseDigits_append,
      ih fun x hx => hL x (List.mem_cons_of_mem _ hx)]
    simp only [List.map_cons, List.map_nil, Option.bind_some, parseDigits, hval, hd, if_true,
      Nat.ofDigits_cons, Option.some.injEq]
    ring

/-- Numerals parse back. -/
theorem parseNumeral_numeral {b : Nat} (hb : 1 < b) (hb' : b ≤ 16) (n : Nat) :
    parseNumeral b (numeral b n) = some n := by
  have hne : (numeral b n).isEmpty = false := by simp [numeral_ne_nil]
  unfold parseNumeral
  rw [hne, if_neg Bool.false_ne_true]
  unfold numeral
  split
  · have hval : digitValue (byte '0') = some 0 := by decide
    have hpos : 0 < b := by omega
    simp only [parseDigits, Nat.zero_mul, Nat.zero_add, if_true, *]
  · rw [parseDigits_reverse hb' _ fun d hd => Nat.digits_lt_base hb hd, Nat.ofDigits_digits]

/-- Digits without a leading zero are the numeral of their value. -/
theorem decimal_of_parseNumeral {s : Bytes} {n : Nat} (hdigits : ∀ c ∈ s, isAsciiDigit c = true)
    (hzero : s.head? = some (byte '0') → s = [byte '0']) (h : parseNumeral 10 s = some n) :
    decimal n = s := by
  have hbyte : ∀ c : UInt8, isAsciiDigit c = true → digitByte (c.toNat - 48) = c := by
    decide +kernel
  have hvalue : ∀ c : UInt8, isAsciiDigit c = true → c.toNat - 48 < 10 := by decide +kernel
  have hnonzero : ∀ c : UInt8, isAsciiDigit c = true → c.toNat - 48 = 0 → c = byte '0' := by
    decide +kernel
  cases s with
  | nil => cases h
  | cons c s =>
    by_cases hc : c = byte '0'
    · -- the only numeral that starts with a zero
      have hs := hzero (by rw [hc]; rfl)
      have hn : parseNumeral 10 [byte '0'] = some 0 := by decide
      rw [hs, hn] at h
      cases h
      rw [hs]
      rfl
    · -- the values of the digits, least significant first
      obtain ⟨L, hL⟩ : ∃ L, L = ((c :: s).map fun c => c.toNat - 48).reverse := ⟨_, rfl⟩
      have hlt : ∀ d ∈ L, d < 10 := by
        intro d hd
        rw [hL, List.mem_reverse, List.mem_map] at hd
        obtain ⟨b, hb, rfl⟩ := hd
        exact hvalue b (hdigits b hb)
      have htext : L.reverse.map digitByte = c :: s := by
        rw [hL, List.reverse_reverse, List.map_map]
        exact (List.map_congr_left fun b hb => hbyte b (hdigits b hb)).trans (List.map_id' _)
      have hlast : ∀ hne : L ≠ [], L.getLast hne ≠ 0 := by
        intro hne hlast
        simp only [hL, List.map_cons, List.reverse_cons, List.getLast_append_singleton] at hlast
        exact hc (hnonzero c (hdigits c List.mem_cons_self) hlast)
      have hn : n = Nat.ofDigits 10 L := by
        have hparse := parseDigits_reverse (by norm_num) L hlt
        rw [htext] at hparse
        change parseDigits 10 0 (c :: s) = some n at h
        rw [hparse] at h
        exact (Option.some.inj h).symm
      have hdigitsN : Nat.digits 10 n = L := by
        rw [hn]
        exact Nat.digits_ofDigits 10 (by norm_num) L hlt hlast
      have hpos : n ≠ 0 := by
        rintro rfl
        rw [Nat.digits_zero] at hdigitsN
        rw [← hdigitsN] at htext
        cases htext
      rw [decimal, numeral, if_neg hpos, hdigitsN, htext]

/-- Only the numeral of zero starts with a zero. -/
theorem decimal_eq_of_head?_zero {n : Nat} (h : (decimal n).head? = some (byte '0')) :
    decimal n = [byte '0'] := by
  have hzero : ∀ d < 10, digitByte d = byte '0' → d = 0 := by decide
  rw [decimal, numeral] at h ⊢
  split at h
  · next hn => rw [if_pos hn]
  · next hn =>
    have hne : Nat.digits 10 n ≠ [] := Nat.digits_ne_nil_iff_ne_zero.2 hn
    rw [List.head?_map, List.head?_reverse, List.getLast?_eq_getLast_of_ne_nil hne,
      Option.map_some] at h
    have hlt := Nat.digits_lt_base (by norm_num : 1 < 10) (List.getLast_mem hne)
    exact absurd (hzero _ hlt (Option.some.inj h)) (Nat.getLast_digit_ne_zero 10 hn)

/-- The leading zeros that a decimal number does not need. -/
def redundantZeros (digits : Bytes) : Nat :=
  (digits.dropLast.takeWhile fun c => decide (c = byte '0')).length

/-- A digit string is longer than the numeral of its value by its redundant zeros. -/
theorem length_decimal_add {digits : Bytes} {n : Nat}
    (hdigits : ∀ c ∈ digits, isAsciiDigit c = true) (h : parseNumeral 10 digits = some n) :
    (decimal n).length + redundantZeros digits = digits.length := by
  induction digits with
  | nil => cases h
  | cons c cs ih =>
    by_cases hzero : c = byte '0' ∧ cs ≠ []
    · obtain ⟨rfl, hne⟩ := hzero
      have hvalue : digitValue (byte '0') = some 0 := by decide
      have hparse : parseNumeral 10 cs = some n := by
        rw [parseNumeral, if_neg (by simpa using hne)]
        rw [parseNumeral, if_neg (by simp)] at h
        simpa [parseDigits, hvalue] using h
      have hred : redundantZeros (byte '0' :: cs) = redundantZeros cs + 1 := by
        simp [redundantZeros, List.dropLast_cons_of_ne_nil hne]
      have hrec := ih (fun d hd => hdigits d (List.mem_cons_of_mem _ hd)) hparse
      rw [hred, List.length_cons]
      omega
    · -- the first digit is needed, so there is no leading zero
      have hred : redundantZeros (c :: cs) = 0 := by
        cases cs with
        | nil => rfl
        | cons d cs =>
          have hc : c ≠ byte '0' := fun he => hzero ⟨he, by simp⟩
          simp [redundantZeros, hc]
      have hhead : (c :: cs).head? = some (byte '0') → c :: cs = [byte '0'] := by
        intro hh
        have hc : c = byte '0' := Option.some.inj hh
        have hcs : cs = [] := by
          by_contra hne
          exact hzero ⟨hc, hne⟩
        rw [hc, hcs]
      rw [decimal_of_parseNumeral hdigits hhead h, hred, Nat.add_zero]

/-- A numeral of a value below `b ^ k` has at most `k` digits. -/
theorem length_numeral_le {b k n : Nat} (hb : 1 < b) (hk : 0 < k) (hn : n < b ^ k) :
    (numeral b n).length ≤ k := by
  unfold numeral
  split
  · exact hk
  · simpa using (Nat.digits_length_le_iff hb n).2 hn

/-! ## Hexadecimal texts -/

/-- A hexadecimal digit in lower case. -/
def isLowerHex (b : UInt8) : Bool := isAsciiDigit b || (byte 'a' ≤ b && b ≤ byte 'f')

/-- Two digits a byte. -/
def hexText (s : Bytes) : Bytes :=
  s.flatMap fun b => [digitByte (b.toNat / 16), digitByte (b.toNat % 16)]

theorem isLowerHex_digitByte {d : Nat} (h : d < 16) : isLowerHex (digitByte d) = true := by
  revert d
  decide

@[simp] theorem length_hexText (s : Bytes) : (hexText s).length = 2 * s.length := by
  simp [hexText, List.length_flatMap, Nat.mul_comm]

theorem isLowerHex_of_mem_hexText {s : Bytes} {c : UInt8} (hc : c ∈ hexText s) :
    isLowerHex c = true := by
  simp only [hexText, List.mem_flatMap, List.mem_cons, List.not_mem_nil, or_false] at hc
  obtain ⟨b, -, rfl | rfl⟩ := hc
  · have := b.toNat_lt
    exact isLowerHex_digitByte (by omega)
  · exact isLowerHex_digitByte (Nat.mod_lt _ (by norm_num))

theorem digitByte_injOn {d e : Nat} (hd : d < 16) (he : e < 16) (h : digitByte d = digitByte e) :
    d = e := by
  have hval := digitValue_digitByte hd
  rw [h, digitValue_digitByte he] at hval
  exact (Option.some.inj hval).symm

theorem hexText_injective : Function.Injective hexText := by
  intro s
  induction s with
  | nil =>
    intro t h
    cases t with
    | nil => rfl
    | cons c t => cases h
  | cons b s ih =>
    intro t h
    cases t with
    | nil => cases h
    | cons c t =>
      have hsplit : digitByte (b.toNat / 16) :: digitByte (b.toNat % 16) :: hexText s =
          digitByte (c.toNat / 16) :: digitByte (c.toNat % 16) :: hexText t := h
      simp only [List.cons.injEq] at hsplit
      obtain ⟨hhigh, hlow, hrest⟩ := hsplit
      have hb := b.toNat_lt
      have hc := c.toNat_lt
      have hhigh' := digitByte_injOn (by omega) (by omega) hhigh
      have hlow' := digitByte_injOn (Nat.mod_lt _ (by norm_num)) (Nat.mod_lt _ (by norm_num)) hlow
      have hbyte : b = c := UInt8.toNat_inj.1 (by omega)
      rw [hbyte, ih hrest]

/-! ## 64-bit integers -/

/-- A signed 64-bit integer. -/
structure I64 where
  toInt : Int
  lower : -2 ^ 63 ≤ toInt
  upper : toInt < 2 ^ 63
  deriving DecidableEq

namespace I64

/-- An integer of the range. -/
def ofRange (z : Int) (h : -2 ^ 63 ≤ z ∧ z < 2 ^ 63) : I64 := ⟨z, h.1, h.2⟩

/-- The integer, when it is in range. -/
def ofInt? (z : Int) : Option I64 :=
  if h : -2 ^ 63 ≤ z ∧ z < 2 ^ 63 then some ⟨z, h.1, h.2⟩ else none

@[ext] theorem ext_toInt {a b : I64} (h : a.toInt = b.toInt) : a = b := by
  cases a
  cases b
  cases h
  rfl

theorem ofInt?_eq_some_iff {z : Int} {a : I64} : ofInt? z = some a ↔ a.toInt = z := by
  unfold ofInt?
  split
  · constructor
    · intro h
      cases h
      rfl
    · intro h
      exact congrArg some (ext_toInt h.symm)
  · next hz =>
    constructor
    · intro h
      cases h
    · intro h
      exact absurd ⟨h ▸ a.lower, h ▸ a.upper⟩ hz

theorem ofInt?_eq_none_iff {z : Int} : ofInt? z = none ↔ z < -2 ^ 63 ∨ 2 ^ 63 ≤ z := by
  unfold ofInt?
  split
  · next hz =>
    simp only [reduceCtorEq, false_iff]
    omega
  · next hz =>
    simp only [true_iff]
    omega

@[simp] theorem ofInt?_toInt (a : I64) : ofInt? a.toInt = some a := ofInt?_eq_some_iff.2 rfl

end I64

/-! ## Cutting a text at a delimiter -/

section Cut

variable {α : Type} {p : α → Bool}

theorem takeWhile_not_append {s t : List α} (hs : ∀ a ∈ s, p a = false)
    (ht : ∀ a, t.head? = some a → p a = true) : (s ++ t).takeWhile (fun a => !p a) = s := by
  rw [List.takeWhile_append_of_pos (by simpa using hs)]
  cases t with
  | nil => simp
  | cons a t => simp [ht a rfl]

theorem dropWhile_not_append {s t : List α} (hs : ∀ a ∈ s, p a = false)
    (ht : ∀ a, t.head? = some a → p a = true) : (s ++ t).dropWhile (fun a => !p a) = t := by
  rw [List.dropWhile_append_of_pos (by simpa using hs)]
  cases t with
  | nil => simp
  | cons a t => simp [ht a rfl]

theorem of_mem_takeWhile_not {s : List α} {a : α} (h : a ∈ s.takeWhile fun a => !p a) :
    p a = false := by
  simpa using List.mem_takeWhile_imp h

theorem head?_dropWhile_not {s : List α} {a : α}
    (h : (s.dropWhile fun a => !p a).head? = some a) : p a = true := by
  have := List.head?_dropWhile_not (fun a => !p a) s
  rw [h] at this
  simpa using this

end Cut

/-! ## Separated texts -/

section Separated

variable {α : Type} [DecidableEq α] {c : α}

/-- Induction over the pieces of a separated text. -/
theorem splitOn_induction {P : List α → Prop} (hlast : ∀ s, c ∉ s → P s)
    (hpiece : ∀ s t, c ∉ s → P t → P (s ++ c :: t)) (s : List α) : P s := by
  induction hn : s.length using Nat.strong_induction_on generalizing s with
  | _ n ih =>
    by_cases hmem : c ∈ s
    · obtain ⟨front, rest, rfl, hfront⟩ := List.eq_append_cons_of_mem hmem
      refine hpiece front rest hfront (ih rest.length ?_ rest rfl)
      rw [← hn, List.length_append, List.length_cons]
      omega
    · exact hlast s hmem

/-- The separators are counted, one after each piece. -/
theorem length_splitOn (s : List α) :
    s.length + 1 = ((s.splitOn c).map fun piece => piece.length + 1).sum := by
  induction s using splitOn_induction (c := c) with
  | hlast s hs =>
    rw [List.splitOn_eq_singleton hs]
    simp
  | hpiece s t hs ih =>
    rw [List.splitOn_append_cons_self_of_not_mem hs, List.map_cons, List.sum_cons, ← ih,
      List.length_append, List.length_cons]
    omega

theorem mem_iff_mem_splitOn {a : α} (ha : a ≠ c) (s : List α) :
    a ∈ s ↔ ∃ piece ∈ s.splitOn c, a ∈ piece := by
  induction s using splitOn_induction (c := c) with
  | hlast s hs =>
    rw [List.splitOn_eq_singleton hs]
    simp
  | hpiece s t hs ih =>
    rw [List.splitOn_append_cons_self_of_not_mem hs, List.mem_append, List.mem_cons, ih]
    simp [ha]

end Separated

/-! ## UTF-8 -/

/-- The byte lists that encode a sequence of characters. -/
def IsUtf8 (b : Bytes) : Prop := ∃ cs : List Char, b = cs.flatMap String.utf8EncodeChar

instance (b : Bytes) : Decidable (IsUtf8 b) :=
  decidable_of_iff b.toByteArray.IsValidUTF8 <| by
    constructor
    · rintro ⟨cs, h⟩
      exact ⟨cs, List.toByteArray_inj.1 h⟩
    · rintro ⟨cs, rfl⟩
      exact ⟨cs, rfl⟩

/-- A string: bytes that are UTF-8. -/
structure Str where
  bytes : Bytes
  utf8 : IsUtf8 bytes
  deriving DecidableEq

theorem IsUtf8.append {s t : Bytes} (hs : IsUtf8 s) (ht : IsUtf8 t) : IsUtf8 (s ++ t) := by
  obtain ⟨cs, rfl⟩ := hs
  obtain ⟨ds, rfl⟩ := ht
  exact ⟨cs ++ ds, List.flatMap_append.symm⟩

/-- ASCII texts are UTF-8. -/
theorem isUtf8_of_isAscii {s : Bytes} (h : isAscii s = true) : IsUtf8 s := by
  have key : ∀ b : UInt8, b < 0x80 → String.utf8EncodeChar (Char.ofNat b.toNat) = [b] := by
    decide +kernel
  refine ⟨s.map fun b => Char.ofNat b.toNat, ?_⟩
  simp only [isAscii, List.all_eq_true, decide_eq_true_eq] at h
  induction s with
  | nil => rfl
  | cons b s ih =>
    rw [List.map_cons, List.flatMap_cons, key b (h b List.mem_cons_self),
      ← ih fun x hx => h x (List.mem_cons_of_mem _ hx)]
    rfl

end Keylix.Lib
