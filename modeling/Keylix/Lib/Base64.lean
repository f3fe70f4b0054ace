import Keylix.Lib.Bytes

/-!
# Unpadded base64url

The URL-safe alphabet of RFC 4648 without padding, with the strict decoder: a symbol outside the
alphabet, a final group of one symbol and a final group with non-zero spare bits are all rejected.
Encoding and strict decoding are inverse to each other (`decode_encode`, `encode_of_decode`), so a
text has at most one decoding and a decoded text is the canonical one.
-/

set_option autoImplicit false

namespace Keylix.Lib.Base64

/-- The symbol of a six-bit value. -/
def symbol (v : Nat) : UInt8 :=
  if v < 26 then byte 'A' + UInt8.ofNat v
  else if v < 52 then byte 'a' + UInt8.ofNat (v - 26)
  else if v < 62 then byte '0' + UInt8.ofNat (v - 52)
  else if v = 62 then byte '-'
  else byte '_'

/-- The six-bit value of a symbol. -/
def value (c : UInt8) : Option Nat :=
  if isAsciiUpper c then some (c.toNat - 65)
  else if isAsciiLower c then some (c.toNat - 71)
  else if isAsciiDigit c then some (c.toNat + 4)
  else if c = byte '-' then some 62
  else if c = byte '_' then some 63
  else none

/-- Encoding, three bytes to four symbols. -/
def encode : Bytes → Bytes
  | [] => []
  | [a] => [symbol (a.toNat / 4), symbol (a.toNat % 4 * 16)]
  | [a, b] =>
      [symbol (a.toNat / 4), symbol (a.toNat % 4 * 16 + b.toNat / 16), symbol (b.toNat % 16 * 4)]
  | a :: b :: c :: rest =>
      symbol (a.toNat / 4) :: symbol (a.toNat % 4 * 16 + b.toNat / 16) ::
        symbol (b.toNat % 16 * 4 + c.toNat / 64) :: symbol (c.toNat % 64) :: encode rest

/-- Strict decoding. -/
def decode : Bytes → Option Bytes
  | [] => some []
  | [_] => none
  | [p, q] => do
      let v ← value p
      let w ← value q
      if w % 16 = 0 then some [UInt8.ofNat (v * 4 + w / 16)] else none
  | [p, q, r] => do
      let v ← value p
      let w ← value q
      let x ← value r
      if x % 4 = 0 then
        some [UInt8.ofNat (v * 4 + w / 16), UInt8.ofNat (w % 16 * 16 + x / 4)]
      else none
  | p :: q :: r :: s :: rest => do
      let v ← value p
      let w ← value q
      let x ← value r
      let y ← value s
      let tail ← decode rest
      some (UInt8.ofNat (v * 4 + w / 16) :: UInt8.ofNat (w % 16 * 16 + x / 4) ::
        UInt8.ofNat (x % 4 * 64 + y) :: tail)

/-! ## Symbols -/

@[simp] theorem value_symbol {v : Nat} (h : v < 64) : value (symbol v) = some v := by
  revert v
  decide

theorem value_spec {c : UInt8} {v : Nat} (h : value c = some v) : v < 64 ∧ symbol v = c := by
  have key : ∀ c : UInt8, ∀ v ∈ value c, v < 64 ∧ symbol v = c := by decide +kernel
  exact key c v h

/-- The bytes an encoding consists of. -/
def isSymbol (c : UInt8) : Bool := isAsciiAlphanumeric c || c = byte '-' || c = byte '_'

theorem isSymbol_symbol (v : Nat) : isSymbol (symbol v) = true := by
  by_cases hv : v < 64
  · revert v
    decide
  · have hlast : symbol v = byte '_' := by
      unfold symbol
      rw [if_neg (by omega), if_neg (by omega), if_neg (by omega), if_neg (by omega)]
    rw [hlast]
    decide

/-! ## Round trips -/

/-- Decoding is a left inverse of encoding. -/
theorem decode_encode (b : Bytes) : decode (encode b) = some b := by
  -- three bytes are four symbols: both sides are sums of the same quotients and remainders
  fun_induction encode b with
  | case1 => rfl
  | case2 a =>
    have ha := a.toNat_lt
    have h₁ : a.toNat / 4 < 64 := by omega
    have h₂ : a.toNat % 4 * 16 < 64 := by omega
    have e : a.toNat / 4 * 4 + a.toNat % 4 * 16 / 16 = a.toNat := by omega
    simp only [decode, value_symbol, h₁, h₂, Option.bind_eq_bind, Option.bind_some, e,
      UInt8.ofNat_toNat, Nat.mul_mod_left, if_true]
  | case3 a b =>
    have ha := a.toNat_lt
    have hb := b.toNat_lt
    have h₁ : a.toNat / 4 < 64 := by omega
    have h₂ : a.toNat % 4 * 16 + b.toNat / 16 < 64 := by omega
    have h₃ : b.toNat % 16 * 4 < 64 := by omega
    have e₁ : a.toNat / 4 * 4 + (a.toNat % 4 * 16 + b.toNat / 16) / 16 = a.toNat := by omega
    have e₂ : (a.toNat % 4 * 16 + b.toNat / 16) % 16 * 16 + b.toNat % 16 * 4 / 4 = b.toNat := by
      omega
    simp only [decode, value_symbol, h₁, h₂, h₃, Option.bind_eq_bind, Option.bind_some, e₁, e₂,
      UInt8.ofNat_toNat, Nat.mul_mod_left, if_true]
  | case4 a b c rest ih =>
    have ha := a.toNat_lt
    have hb := b.toNat_lt
    have hc := c.toNat_lt
    have h₁ : a.toNat / 4 < 64 := by omega
    have h₂ : a.toNat % 4 * 16 + b.toNat / 16 < 64 := by omega
    have h₃ : b.toNat % 16 * 4 + c.toNat / 64 < 64 := by omega
    have h₄ : c.toNat % 64 < 64 := by omega
    have e₁ : a.toNat / 4 * 4 + (a.toNat % 4 * 16 + b.toNat / 16) / 16 = a.toNat := by omega
    have e₂ : (a.toNat % 4 * 16 + b.toNat / 16) % 16 * 16 +
        (b.toNat % 16 * 4 + c.toNat / 64) / 4 = b.toNat := by omega
    have e₃ : (b.toNat % 16 * 4 + c.toNat / 64) % 4 * 64 + c.toNat % 64 = c.toNat := by omega
    simp only [decode, value_symbol, h₁, h₂, h₃, h₄, Option.bind_eq_bind, Option.bind_some, ih,
      e₁, e₂, e₃, UInt8.ofNat_toNat]

theorem encode_injective : Function.Injective encode := by
  intro a b h
  have ha := decode_encode a
  rw [h, decode_encode b] at ha
  exact (Option.some.inj ha).symm

theorem toNat_ofNat_of_lt {n : Nat} (h : n < 256) : (UInt8.ofNat n).toNat = n := by
  rw [UInt8.toNat_ofNat', Nat.mod_eq_of_lt h]

/-- A decoded text is the encoding of its value. -/
theorem encode_of_decode {s b : Bytes} (h : decode s = some b) : encode b = s := by
  fun_induction decode s generalizing b with
  | case1 => cases h; rfl
  | case2 => cases h
  | case3 p q =>
    simp only [Option.bind_eq_bind, Option.bind_eq_some_iff] at h
    obtain ⟨v, hv, w, hw, h⟩ := h
    obtain ⟨hv64, rfl⟩ := value_spec hv
    obtain ⟨hw64, rfl⟩ := value_spec hw
    -- bits that are left over have to be zero, so that no other text has this value
    split at h
    · cases h
      have e := toNat_ofNat_of_lt (n := v * 4 + w / 16) (by omega)
      have e₁ : (v * 4 + w / 16) / 4 = v := by omega
      have e₂ : (v * 4 + w / 16) % 4 * 16 = w := by omega
      simp only [encode, e, e₁, e₂]
    · cases h
  | case4 p q r =>
    simp only [Option.bind_eq_bind, Option.bind_eq_some_iff] at h
    obtain ⟨v, hv, w, hw, x, hx, h⟩ := h
    obtain ⟨hv64, rfl⟩ := value_spec hv
    obtain ⟨hw64, rfl⟩ := value_spec hw
    obtain ⟨hx64, rfl⟩ := value_spec hx
    split at h
    · cases h
      have e := toNat_ofNat_of_lt (n := v * 4 + w / 16) (by omega)
      have f := toNat_ofNat_of_lt (n := w % 16 * 16 + x / 4) (by omega)
      have e₁ : (v * 4 + w / 16) / 4 = v := by omega
      have e₂ : (v * 4 + w / 16) % 4 * 16 + (w % 16 * 16 + x / 4) / 16 = w := by omega
      have e₃ : (w % 16 * 16 + x / 4) % 16 * 4 = x := by omega
      simp only [encode, e, f, e₁, e₂, e₃]
    · cases h
  | case5 p q r s rest ih =>
    simp only [Option.bind_eq_bind, Option.bind_eq_some_iff, Option.some.injEq] at h
    obtain ⟨v, hv, w, hw, x, hx, y, hy, tail, htail, rfl⟩ := h
    obtain ⟨hv64, rfl⟩ := value_spec hv
    obtain ⟨hw64, rfl⟩ := value_spec hw
    obtain ⟨hx64, rfl⟩ := value_spec hx
    obtain ⟨hy64, rfl⟩ := value_spec hy
    have e := toNat_ofNat_of_lt (n := v * 4 + w / 16) (by omega)
    have f := toNat_ofNat_of_lt (n := w % 16 * 16 + x / 4) (by omega)
    have g := toNat_ofNat_of_lt (n := x % 4 * 64 + y) (by omega)
    have e₁ : (v * 4 + w / 16) / 4 = v := by omega
    have e₂ : (v * 4 + w / 16) % 4 * 16 + (w % 16 * 16 + x / 4) / 16 = w := by omega
    have e₃ : (w % 16 * 16 + x / 4) % 16 * 4 + (x % 4 * 64 + y) / 64 = x := by omega
    have e₄ : (x % 4 * 64 + y) % 64 = y := by omega
    simp only [encode, e, f, g, e₁, e₂, e₃, e₄, ih htail]

/-! ## Shape of an encoding -/

/-- Four symbols for three bytes, rounded up. -/
theorem length_encode (b : Bytes) : (encode b).length = (4 * b.length + 2) / 3 := by
  fun_induction encode b with
  | case1 => rfl
  | case2 a => simp
  | case3 a b => simp
  | case4 a b c rest ih =>
    simp only [List.length_cons, ih]
    omega

theorem isSymbol_of_mem_encode {b : Bytes} {c : UInt8} (h : c ∈ encode b) : isSymbol c = true := by
  fun_induction encode b with
  | case1 => simp at h
  | case2 a =>
    simp only [List.mem_cons, List.not_mem_nil, or_false] at h
    rcases h with rfl | rfl <;> exact isSymbol_symbol _
  | case3 a b =>
    simp only [List.mem_cons, List.not_mem_nil, or_false] at h
    rcases h with rfl | rfl | rfl <;> exact isSymbol_symbol _
  | case4 a b c rest ih =>
    simp only [List.mem_cons] at h
    rcases h with rfl | rfl | rfl | rfl | h
    · exact isSymbol_symbol _
    · exact isSymbol_symbol _
    · exact isSymbol_symbol _
    · exact isSymbol_symbol _
    · exact ih h

theorem not_mem_encode {b : Bytes} {c : UInt8} (hc : isSymbol c = false) : c ∉ encode b := by
  intro h
  rw [isSymbol_of_mem_encode h] at hc
  cases hc

theorem encode_eq_nil_iff (b : Bytes) : encode b = [] ↔ b = [] := by
  rw [← List.length_eq_zero_iff, ← List.length_eq_zero_iff, length_encode]
  omega

theorem isAscii_encode (b : Bytes) : isAscii (encode b) = true := by
  have key : ∀ c : UInt8, isSymbol c = true → c < 0x80 := by decide +kernel
  simp only [isAscii, List.all_eq_true, decide_eq_true_eq]
  exact fun c hc => key c (isSymbol_of_mem_encode hc)

end Keylix.Lib.Base64
