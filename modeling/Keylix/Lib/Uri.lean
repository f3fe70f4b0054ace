import Keylix.Lib.Bytes

/-!
# Percent-encoding and dot segments

Two parts of the generic URI syntax that a normaliser works on.

A component is a list of tokens (`PctToken`): bytes that stand for themselves, and escapes, which
are kept by value so that the case of their digits is gone. `tokens` reads a component and `text`
writes it with upper-case digits; `tokens_text` is the round trip. `normalEscapes_text` and
`lowerOutsideEscapes_text` say what the tokens of a text are from the bytes at its positions.

A path that starts with a slash is the list of its segments, and `resolveSegments` removes the dot
segments with a stack: `.` is dropped, `..` drops the segment before it, and either one at the end
leaves an empty last segment.
-/

set_option autoImplicit false

namespace Keylix.Lib

/-! ## Tokens of a component -/

/-- A byte of a component, or an escape with its value. -/
inductive PctToken where
  | lit (b : UInt8)
  | esc (v : UInt8)
  deriving DecidableEq

namespace PctToken

/-- The upper-case digit of value `d < 16`. -/
def upperDigit (d : Nat) : UInt8 :=
  if d < 10 then byte '0' + UInt8.ofNat d else byte 'A' + UInt8.ofNat (d - 10)

/-- The tokens of a component. A percent sign without two hexadecimal digits is an error. -/
def tokens : Bytes → Option (List PctToken)
  | [] => some []
  | b :: rest =>
      if b = byte '%' then
        match rest with
        | h :: l :: rest =>
            match digitValue h, digitValue l with
            | some high, some low =>
                (tokens rest).map (esc (UInt8.ofNat (high * 16 + low)) :: ·)
            | _, _ => none
        | _ => none
      else (tokens rest).map (lit b :: ·)

/-- The text of a token. -/
def tokenText : PctToken → Bytes
  | lit b => [b]
  | esc v => [byte '%', upperDigit (v.toNat / 16), upperDigit (v.toNat % 16)]

/-- The text of a component. -/
def text (ts : List PctToken) : Bytes := ts.flatMap tokenText

/-- Replaces the escape of a byte that needs none by the byte. -/
def decode (unreserved : UInt8 → Bool) : PctToken → PctToken
  | lit b => lit b
  | esc v => if unreserved v then lit v else esc v

/-- Lower case of the bytes that stand for themselves. -/
def foldCase : PctToken → PctToken
  | lit b => lit (toAsciiLower b)
  | esc v => esc v

theorem tokens_lit {b : UInt8} (hb : b ≠ byte '%') (rest : Bytes) :
    tokens (b :: rest) = (tokens rest).map (lit b :: ·) := by
  rw [tokens.eq_def]
  exact if_neg hb

theorem tokens_esc {h l : UInt8} {high low : Nat} (hh : digitValue h = some high)
    (hl : digitValue l = some low) (rest : Bytes) :
    tokens (byte '%' :: h :: l :: rest) =
      (tokens rest).map (esc (UInt8.ofNat (high * 16 + low)) :: ·) := by
  rw [tokens, if_pos rfl]
  simp only [hh, hl]

/-- What the tokens of a text are, by its first byte. -/
theorem tokens_cases {s : Bytes} {ts : List PctToken} (h : tokens s = some ts) :
    (s = [] ∧ ts = []) ∨
      (∃ b rest us, s = b :: rest ∧ b ≠ byte '%' ∧ tokens rest = some us ∧ ts = lit b :: us) ∨
      (∃ d e high low rest us, s = byte '%' :: d :: e :: rest ∧ digitValue d = some high ∧
        digitValue e = some low ∧ tokens rest = some us ∧
        ts = esc (UInt8.ofNat (high * 16 + low)) :: us) := by
  cases s with
  | nil => exact Or.inl ⟨rfl, (Option.some.inj h).symm⟩
  | cons b rest =>
    by_cases hb : b = byte '%'
    · subst hb
      rw [tokens.eq_def] at h
      simp only [if_true] at h
      split at h
      · next d e rest =>
        split at h
        · next high low hd he =>
          obtain ⟨us, hus, rfl⟩ := Option.map_eq_some_iff.1 h
          exact Or.inr (Or.inr ⟨d, e, high, low, rest, us, rfl, hd, he, hus, rfl⟩)
        · cases h
      · cases h
    · rw [tokens_lit hb] at h
      obtain ⟨us, hus, rfl⟩ := Option.map_eq_some_iff.1 h
      exact Or.inr (Or.inl ⟨b, rest, us, rfl, hb, hus, rfl⟩)

/-! ## Round trip -/

theorem digitValue_upperDigit {d : Nat} (h : d < 16) :
    digitValue (upperDigit d) = some d ∧ digitValue (toAsciiLower (upperDigit d)) = some d := by
  revert d
  decide

theorem ofNat_nibbles (v : UInt8) : UInt8.ofNat (v.toNat / 16 * 16 + v.toNat % 16) = v := by
  rw [show v.toNat / 16 * 16 + v.toNat % 16 = v.toNat by omega, UInt8.ofNat_toNat]

/-- The text of tokens is read back. -/
theorem tokens_text {ts : List PctToken} (h : ∀ t ∈ ts, t ≠ lit (byte '%')) :
    tokens (text ts) = some ts := by
  induction ts with
  | nil => rfl
  | cons t ts ih =>
    have hrec := ih fun u hu => h u (List.mem_cons_of_mem _ hu)
    cases t with
    | lit b =>
      have hb : b ≠ byte '%' := by
        rintro rfl
        exact h _ List.mem_cons_self rfl
      show tokens (b :: text ts) = _
      rw [tokens_lit hb, hrec]
      rfl
    | esc v =>
      have hv := v.toNat_lt
      show tokens (byte '%' :: _ :: _ :: text ts) = _
      rw [tokens_esc (digitValue_upperDigit (by omega)).1 (digitValue_upperDigit (by omega)).1,
        hrec, ofNat_nibbles]
      rfl

theorem text_injective {ts us : List PctToken} (hts : ∀ t ∈ ts, t ≠ lit (byte '%'))
    (hus : ∀ t ∈ us, t ≠ lit (byte '%')) (h : text ts = text us) : ts = us := by
  have hread := tokens_text hts
  rw [h, tokens_text hus] at hread
  exact (Option.some.inj hread).symm

/-- Reading never leaves a bare percent sign. -/
theorem ne_percent_of_tokens {s : Bytes} {ts : List PctToken} (h : tokens s = some ts) :
    ∀ t ∈ ts, t ≠ lit (byte '%') := by
  induction ts generalizing s with
  | nil => simp
  | cons t ts ih =>
    rcases tokens_cases h with ⟨-, hnil⟩ | ⟨b, rest, us, -, hb, hus, he⟩ |
      ⟨d, e, high, low, rest, us, -, -, -, hus, he⟩
    · cases hnil
    · cases he
      intro u hu
      rcases List.mem_cons.1 hu with rfl | hu
      · simpa using hb
      · exact ih hus u hu
    · cases he
      intro u hu
      rcases List.mem_cons.1 hu with rfl | hu
      · simp
      · exact ih hus u hu

/-- The text in lower case has the tokens in lower case. -/
theorem tokens_toAsciiLowercase_text {ts : List PctToken} (h : ∀ t ∈ ts, t ≠ lit (byte '%')) :
    tokens (toAsciiLowercase (text ts)) = some (ts.map foldCase) := by
  have hpercent : ∀ b : UInt8, toAsciiLower b = byte '%' → b = byte '%' := by decide +kernel
  induction ts with
  | nil => rfl
  | cons t ts ih =>
    have hrec := ih fun u hu => h u (List.mem_cons_of_mem _ hu)
    cases t with
    | lit b =>
      have hb : toAsciiLower b ≠ byte '%' := by
        intro hlow
        exact h _ List.mem_cons_self (by rw [hpercent b hlow])
      show tokens (toAsciiLower b :: toAsciiLowercase (text ts)) = _
      rw [tokens_lit hb, hrec]
      rfl
    | esc v =>
      have hv := v.toNat_lt
      show tokens (byte '%' :: toAsciiLower _ :: toAsciiLower _ :: toAsciiLowercase (text ts)) = _
      rw [tokens_esc (digitValue_upperDigit (by omega)).2 (digitValue_upperDigit (by omega)).2,
        hrec, ofNat_nibbles]
      rfl

/-! ## Bytes -/

/-- A byte that stands for itself occurs in the text. -/
theorem mem_of_lit_mem {s : Bytes} {ts : List PctToken} (h : tokens s = some ts) {b : UInt8}
    (hb : lit b ∈ ts) : b ∈ s := by
  induction ts generalizing s with
  | nil => cases hb
  | cons t ts ih =>
    rcases tokens_cases h with ⟨-, hnil⟩ | ⟨c, rest, us, rfl, -, hus, he⟩ |
      ⟨d, e, high, low, rest, us, rfl, -, -, hus, he⟩
    · cases hnil
    · cases he
      rcases List.mem_cons.1 hb with hc | hb
      · cases hc
        exact List.mem_cons_self
      · exact List.mem_cons_of_mem _ (ih hus hb)
    · cases he
      rcases List.mem_cons.1 hb with hc | hb
      · cases hc
      · simp [ih hus hb]

/-- The bytes of a text are those that stand for themselves and those of escapes. -/
theorem mem_text {ts : List PctToken} {c : UInt8} (hc : c ∈ text ts) :
    lit c ∈ ts ∨ c = byte '%' ∨ ∃ d < 16, c = upperDigit d := by
  simp only [text, List.mem_flatMap] at hc
  obtain ⟨t, ht, hc⟩ := hc
  cases t with
  | lit b =>
    obtain rfl : c = b := by simpa [tokenText] using hc
    exact Or.inl ht
  | esc v =>
    have hv := v.toNat_lt
    simp only [tokenText, List.mem_cons, List.not_mem_nil, or_false] at hc
    rcases hc with rfl | rfl | rfl
    · exact Or.inr (Or.inl rfl)
    · exact Or.inr (Or.inr ⟨_, by omega, rfl⟩)
    · exact Or.inr (Or.inr ⟨_, by omega, rfl⟩)

theorem text_append (ts us : List PctToken) : text (ts ++ us) = text ts ++ text us :=
  List.flatMap_append

/-- A change of tokens that lengthens no token lengthens no text. -/
theorem length_text_map_le {f : PctToken → PctToken}
    (h : ∀ t, (tokenText (f t)).length ≤ (tokenText t).length) (ts : List PctToken) :
    (text (ts.map f)).length ≤ (text ts).length := by
  induction ts with
  | nil => exact Nat.le_refl _
  | cons t ts ih =>
    have ht := h t
    simp only [text, List.map_cons, List.flatMap_cons, List.length_append] at ih ⊢
    omega

theorem length_decode_le (p : UInt8 → Bool) (t : PctToken) :
    (tokenText (decode p t)).length ≤ (tokenText t).length := by
  cases t with
  | lit b => exact Nat.le_refl _
  | esc v =>
    cases hp : p v with
    | true => simp [decode, hp, tokenText]
    | false => simp [decode, hp]

theorem length_foldCase_le (t : PctToken) :
    (tokenText (foldCase t)).length ≤ (tokenText t).length := by
  cases t with
  | lit b => exact Nat.le_refl _
  | esc v => exact Nat.le_refl _

/-- An escape that `decode` replaces. -/
def isDecodable (unreserved : UInt8 → Bool) : PctToken → Bool
  | lit _ => false
  | esc v => unreserved v

/-- Decoding takes two bytes from every escape it replaces. -/
theorem length_text_map_decode (p : UInt8 → Bool) (ts : List PctToken) :
    (text (ts.map (decode p))).length + 2 * ts.countP (isDecodable p) = (text ts).length := by
  induction ts with
  | nil => rfl
  | cons t ts ih =>
    simp only [text, List.map_cons, List.flatMap_cons, List.length_append, List.countP_cons] at ih ⊢
    cases t with
    | lit b =>
      simp only [decode, isDecodable, Bool.false_eq_true, if_false]
      omega
    | esc v =>
      cases hv : p v with
      | true =>
        simp only [decode, isDecodable, hv, if_true, tokenText, List.length_cons, List.length_nil]
        omega
      | false =>
        simp only [decode, isDecodable, hv, Bool.false_eq_true, if_false]
        omega

theorem length_text_map_foldCase (ts : List PctToken) :
    (text (ts.map foldCase)).length = (text ts).length := by
  have htoken : ∀ t, (tokenText (foldCase t)).length = (tokenText t).length := by
    rintro (b | v) <;> rfl
  induction ts with
  | nil => rfl
  | cons t ts ih =>
    simp only [text, List.map_cons, List.flatMap_cons, List.length_append, htoken] at ih ⊢
    rw [ih]

/-- A byte that is part of no escape cuts the tokens. -/
theorem tokens_append_cons {c : UInt8} (hc : digitValue c = none) (hc' : c ≠ byte '%')
    (s t : Bytes) :
    tokens (s ++ c :: t) =
      (tokens s).bind fun ts => (tokens t).map fun us => ts ++ lit c :: us := by
  induction s using tokens.induct with
  | case1 =>
    rw [List.nil_append, tokens_lit hc']
    rfl
  | case2 h l rest high low hl hh ih =>
    simp only [List.cons_append]
    rw [tokens_esc hh hl, tokens_esc hh hl, ih]
    cases tokens rest <;> cases tokens t <;> rfl
  | case3 h l rest hno =>
    have hnone : ∀ t, tokens (byte '%' :: h :: l :: t) = none := by
      intro t
      rw [tokens.eq_def]
      simp only [if_true]
    simp only [List.cons_append]
    rw [hnone, hnone]
    rfl
  | case4 rest hno =>
    match rest, hno with
    | [], _ =>
      -- the byte would have to be the first digit of the escape
      cases t with
      | nil => rfl
      | cons d t => simp [tokens, hc]
    | [d], _ => simp [tokens, hc]
    | d :: e :: rest, hno => exact absurd rfl (hno d e rest)
  | case5 b rest hb ih =>
    rw [List.cons_append, tokens_lit hb, tokens_lit hb, ih]
    cases tokens rest <;> cases tokens t <;> rfl

/-! ## Escapes in a text -/

/-- An upper-case hexadecimal digit. -/
def isUpperHex (b : UInt8) : Bool := isAsciiDigit b || (byte 'A' ≤ b && b ≤ byte 'F')

/-- The byte that two hexadecimal digits encode. -/
def escapeValue (high low : UInt8) : Option UInt8 :=
  match digitValue high, digitValue low with
  | some high, some low => some (UInt8.ofNat (high * 16 + low))
  | _, _ => none

/-- Every percent sign is followed by two upper-case hexadecimal digits that encode no unreserved
character. -/
def NormalEscapes (unreserved : UInt8 → Bool) (s : Bytes) : Prop :=
  ∀ i, s[i]? = some (byte '%') →
    ∃ high low, s[i + 1]? = some high ∧ s[i + 2]? = some low ∧ isUpperHex high = true ∧
      isUpperHex low = true ∧ ∀ v, escapeValue high low = some v → unreserved v = false

/-- Every upper-case letter is one of the two digits after a percent sign. -/
def LowerOutsideEscapes (s : Bytes) : Prop :=
  ∀ i b, s[i]? = some b → isAsciiUpper b = true →
    ∃ j, s[j]? = some (byte '%') ∧ (i = j + 1 ∨ i = j + 2)

/-- The digits of an escape in upper case, from its value. -/
theorem upperDigits_escape {high low : UInt8} (hhigh : isUpperHex high = true)
    (hlow : isUpperHex low = true) :
    ∃ v, escapeValue high low = some v ∧ tokenText (esc v) = [byte '%', high, low] ∧
      ∃ d e, digitValue high = some d ∧ digitValue low = some e ∧ v = UInt8.ofNat (d * 16 + e) := by
  have key : ∀ b : UInt8, isUpperHex b = true →
      ∃ d < 16, digitValue b = some d ∧ upperDigit d = b := by decide +kernel
  obtain ⟨d, hd, hdv, rfl⟩ := key high hhigh
  obtain ⟨e, he, hev, rfl⟩ := key low hlow
  have hnat : (UInt8.ofNat (d * 16 + e)).toNat = d * 16 + e := by
    simp only [UInt8.toNat_ofNat']
    omega
  have hdiv : (d * 16 + e) / 16 = d := by omega
  have hmod : (d * 16 + e) % 16 = e := by omega
  refine ⟨UInt8.ofNat (d * 16 + e), ?_, ?_, d, e, hdv, hev, rfl⟩
  · simp only [escapeValue, hdv, hev]
  · simp only [tokenText, hnat, hdiv, hmod]

theorem upperDigit_ne_percent {d : Nat} (h : d < 16) : upperDigit d ≠ byte '%' := by
  revert d
  decide

theorem isUpperHex_upperDigit {d : Nat} (h : d < 16) : isUpperHex (upperDigit d) = true := by
  revert d
  decide

theorem normalEscapes_nil (p : UInt8 → Bool) : NormalEscapes p [] := by
  intro i hi
  cases hi

theorem normalEscapes_lit {p : UInt8 → Bool} {b : UInt8} (hb : b ≠ byte '%') {s : Bytes} :
    NormalEscapes p (b :: s) ↔ NormalEscapes p s := by
  constructor
  · intro h i hi
    exact h (i + 1) hi
  · intro h i hi
    cases i with
    | zero => exact absurd (Option.some.inj hi) hb
    | succ i => exact h i hi

theorem normalEscapes_esc {p : UInt8 → Bool} {v : UInt8} {s : Bytes} :
    NormalEscapes p (tokenText (esc v) ++ s) ↔ p v = false ∧ NormalEscapes p s := by
  have hv := v.toNat_lt
  have hhigh : v.toNat / 16 < 16 := by omega
  have hlow : v.toNat % 16 < 16 := Nat.mod_lt _ (by norm_num)
  have hvalue : escapeValue (upperDigit (v.toNat / 16)) (upperDigit (v.toNat % 16)) = some v := by
    simp only [escapeValue, (digitValue_upperDigit hhigh).1, (digitValue_upperDigit hlow).1,
      ofNat_nibbles]
  constructor
  · intro h
    refine ⟨?_, fun i hi => h (i + 3) hi⟩
    -- the percent sign at the front is that of the escape
    obtain ⟨high, low, hh, hl, -, -, hp⟩ := h 0 rfl
    cases hh
    cases hl
    exact hp v hvalue
  · rintro ⟨hp, h⟩ i hi
    -- the digits are no percent signs, so that every other escape lies behind them
    match i, hi with
    | 0, _ =>
      refine ⟨_, _, rfl, rfl, isUpperHex_upperDigit hhigh, isUpperHex_upperDigit hlow, ?_⟩
      intro w hw
      rw [hvalue] at hw
      cases hw
      exact hp
    | 1, hi => exact absurd (Option.some.inj hi) (upperDigit_ne_percent hhigh)
    | 2, hi => exact absurd (Option.some.inj hi) (upperDigit_ne_percent hlow)
    | i + 3, hi => exact h i hi

/-- The escapes of a text of tokens are normal if and only if decoding changes no token. -/
theorem normalEscapes_text {p : UInt8 → Bool} {ts : List PctToken}
    (hts : ∀ t ∈ ts, t ≠ lit (byte '%')) :
    NormalEscapes p (text ts) ↔ ∀ t ∈ ts, decode p t = t := by
  induction ts with
  | nil => simp [text, normalEscapes_nil]
  | cons t ts ih =>
    have hrec := ih fun u hu => hts u (List.mem_cons_of_mem _ hu)
    rw [List.forall_mem_cons, ← hrec]
    cases t with
    | lit b =>
      have hb : b ≠ byte '%' := fun he => hts _ List.mem_cons_self (by rw [he])
      change NormalEscapes p (b :: text ts) ↔ _
      simp [normalEscapes_lit hb, decode]
    | esc v =>
      change NormalEscapes p (tokenText (esc v) ++ text ts) ↔ _
      simp [normalEscapes_esc, decode]

/-- A text with normal escapes is the text of its tokens. -/
theorem exists_tokens_of_normalEscapes {p : UInt8 → Bool} {s : Bytes} (h : NormalEscapes p s) :
    ∃ ts, tokens s = some ts ∧ text ts = s := by
  -- the induction follows the reading of the tokens; a percent sign always has its two digits
  induction s using tokens.induct with
  | case1 => exact ⟨[], rfl, rfl⟩
  | case2 d e rest high low he hd ih =>
    obtain ⟨d', e', hd', he', hupper, hupper', hp⟩ := h 0 rfl
    cases hd'
    cases he'
    obtain ⟨v, hv, htext, -⟩ := upperDigits_escape hupper hupper'
    obtain ⟨ts, hts, hrest⟩ := ih (fun i hi => h (i + 3) hi)
    simp only [escapeValue, hd, he] at hv
    cases hv
    refine ⟨esc (UInt8.ofNat (high * 16 + low)) :: ts, ?_, ?_⟩
    · rw [tokens_esc hd he, hts]
      rfl
    · rw [text, List.flatMap_cons, htext, ← text, hrest]
      rfl
  | case3 d e rest hno =>
    obtain ⟨d', e', hd', he', hupper, hupper', hp⟩ := h 0 rfl
    cases hd'
    cases he'
    obtain ⟨v, -, -, high, low, hd, he, -⟩ := upperDigits_escape hupper hupper'
    exact absurd he (hno high low hd)
  | case4 rest hno =>
    obtain ⟨d, e, hd, he, -⟩ := h 0 rfl
    match rest, hno, hd, he with
    | d :: e :: rest, hno, _, _ => exact absurd rfl (hno d e rest)
  | case5 b rest hb ih =>
    obtain ⟨ts, hts, hrest⟩ := ih ((normalEscapes_lit hb).1 h)
    refine ⟨lit b :: ts, ?_, ?_⟩
    · rw [tokens_lit hb, hts]
      rfl
    · rw [text, List.flatMap_cons, ← text, hrest]
      rfl

theorem lowerOutsideEscapes_lit {b : UInt8} (hb : b ≠ byte '%') {s : Bytes} :
    LowerOutsideEscapes (b :: s) ↔ isAsciiUpper b = false ∧ LowerOutsideEscapes s := by
  constructor
  · intro h
    constructor
    · rw [← Bool.not_eq_true]
      intro hupper
      obtain ⟨j, -, hj⟩ := h 0 b rfl hupper
      omega
    · intro i c hi hc
      obtain ⟨j, hj, hij⟩ := h (i + 1) c hi hc
      cases j with
      | zero => exact absurd (Option.some.inj hj) hb
      | succ j => exact ⟨j, hj, by omega⟩
  · rintro ⟨hupper, h⟩ i c hi hc
    cases i with
    | zero =>
      cases hi
      rw [hupper] at hc
      cases hc
    | succ i =>
      obtain ⟨j, hj, hij⟩ := h i c hi hc
      exact ⟨j + 1, hj, by omega⟩

theorem lowerOutsideEscapes_esc {v : UInt8} {s : Bytes} :
    LowerOutsideEscapes (tokenText (esc v) ++ s) ↔ LowerOutsideEscapes s := by
  have hv := v.toNat_lt
  have hhigh : v.toNat / 16 < 16 := by omega
  have hlow : v.toNat % 16 < 16 := Nat.mod_lt _ (by norm_num)
  constructor
  · intro h i c hi hc
    obtain ⟨j, hj, hij⟩ := h (i + 3) c hi hc
    match j, hj, hij with
    | 0, _, hij => omega
    | 1, hj, _ => exact absurd (Option.some.inj hj) (upperDigit_ne_percent hhigh)
    | 2, hj, _ => exact absurd (Option.some.inj hj) (upperDigit_ne_percent hlow)
    | j + 3, hj, hij => exact ⟨j, hj, by omega⟩
  · intro h i c hi hc
    match i, hi with
    | 0, hi =>
      cases hi
      exact absurd hc (by decide)
    | 1, _ => exact ⟨0, rfl, Or.inl rfl⟩
    | 2, _ => exact ⟨0, rfl, Or.inr rfl⟩
    | i + 3, hi =>
      obtain ⟨j, hj, hij⟩ := h i c hi hc
      exact ⟨j + 3, hj, by omega⟩

/-- A text of tokens has no upper-case letter outside its escapes if and only if folding the case
changes no token. -/
theorem lowerOutsideEscapes_text {ts : List PctToken} (hts : ∀ t ∈ ts, t ≠ lit (byte '%')) :
    LowerOutsideEscapes (text ts) ↔ ∀ t ∈ ts, foldCase t = t := by
  have hfold : ∀ b : UInt8, toAsciiLower b = b ↔ isAsciiUpper b = false := by decide +kernel
  induction ts with
  | nil =>
    refine ⟨fun _ => by simp, fun _ i b hi => ?_⟩
    cases hi
  | cons t ts ih =>
    have hrec : LowerOutsideEscapes (text ts) ↔ ∀ t ∈ ts, foldCase t = t :=
      ih fun u hu => hts u (List.mem_cons_of_mem _ hu)
    rw [List.forall_mem_cons, ← hrec]
    cases t with
    | lit b =>
      have hb : b ≠ byte '%' := fun he => hts _ List.mem_cons_self (by rw [he])
      change LowerOutsideEscapes (b :: text ts) ↔ _
      simp [lowerOutsideEscapes_lit hb, foldCase, hfold]
    | esc v =>
      change LowerOutsideEscapes (tokenText (esc v) ++ text ts) ↔ _
      simp [lowerOutsideEscapes_esc, foldCase]

end PctToken

/-! ## Segments of a path -/

/-- The path of a list of segments: each with a slash before it. -/
def joinSegments (segs : List Bytes) : Bytes := segs.flatMap fun s => byte '/' :: s

/-- The segments of a path that starts with a slash. -/
def pathSegments (path : Bytes) : List Bytes := path.tail.splitOn (byte '/')

theorem joinSegments_cons (s : Bytes) (segs : List Bytes) :
    joinSegments (s :: segs) = byte '/' :: (s ++ joinSegments segs) := rfl

theorem joinSegments_append (segs segs' : List Bytes) :
    joinSegments (segs ++ segs') = joinSegments segs ++ joinSegments segs' :=
  List.flatMap_append

theorem joinSegments_eq_intercalate (s : Bytes) (segs : List Bytes) :
    joinSegments (s :: segs) = byte '/' :: [byte '/'].intercalate (s :: segs) := by
  induction segs generalizing s with
  | nil => simp [joinSegments]
  | cons t segs ih =>
    rw [joinSegments_cons, ih, List.intercalate_cons_cons]
    simp

theorem joinSegments_pathSegments (rest : Bytes) :
    joinSegments (pathSegments (byte '/' :: rest)) = byte '/' :: rest := by
  have hne : rest.splitOn (byte '/') ≠ [] := List.splitOn_ne_nil _ _
  have hinter : [byte '/'].intercalate (rest.splitOn (byte '/')) = rest :=
    List.intercalate_splitOn (byte '/')
  simp only [pathSegments, List.tail_cons]
  cases hsplit : rest.splitOn (byte '/') with
  | nil => exact absurd hsplit hne
  | cons s segs =>
    rw [joinSegments_eq_intercalate, ← hsplit, hinter]

theorem pathSegments_joinSegments {segs : List Bytes} (hne : segs ≠ [])
    (h : ∀ s ∈ segs, byte '/' ∉ s) : pathSegments (joinSegments segs) = segs := by
  cases segs with
  | nil => exact absurd rfl hne
  | cons s segs =>
    rw [joinSegments_eq_intercalate, pathSegments, List.tail_cons, List.splitOn_intercalate _ h hne]

theorem pathSegments_ne_nil (path : Bytes) : pathSegments path ≠ [] := List.splitOn_ne_nil _ _

/-- No segment of a path contains a slash. -/
theorem not_mem_of_mem_pathSegments {path s : Bytes} (h : s ∈ pathSegments path) :
    byte '/' ∉ s := by
  unfold pathSegments at h
  generalize path.tail = rest at h
  induction rest generalizing s with
  | nil =>
    obtain rfl : s = [] := by simpa using h
    simp
  | cons c rest ih =>
    rw [List.splitOn_cons_eq_if_modifyHead] at h
    split at h
    · rcases List.mem_cons.1 h with rfl | h
      · simp
      · exact ih h
    · next hc =>
      cases hsplit : rest.splitOn (byte '/') with
      | nil => exact absurd hsplit (List.splitOn_ne_nil _ _)
      | cons t segs =>
        rw [hsplit, List.modifyHead_cons] at h
        rcases List.mem_cons.1 h with rfl | h
        · have ht := ih (s := t) (by rw [hsplit]; exact List.mem_cons_self)
          have hc' : byte '/' ≠ c := fun he => hc (by rw [← he]; exact beq_self_eq_true _)
          simp [ht, hc']
        · exact ih (by rw [hsplit]; exact List.mem_cons_of_mem _ h)

/-! ## Dot segments -/

/-- The segment `.`. -/
abbrev dot : Bytes := [byte '.']

/-- The segment `..`. -/
abbrev dotDot : Bytes := [byte '.', byte '.']

/-- The segments before the next one after a segment that is not the last. -/
def pushSegment (out : List Bytes) (s : Bytes) : List Bytes :=
  if s = dot then out else if s = dotDot then out.dropLast else out ++ [s]

/-- The segments after the last one: a dot segment leaves an empty segment. -/
def closeSegments (out : List Bytes) (s : Bytes) : List Bytes :=
  if s = dot ∨ s = dotDot then pushSegment out s ++ [[]] else pushSegment out s

/-- Removes the dot segments of a list of segments, after the segments `out`. -/
def resolveSegments : List Bytes → List Bytes → List Bytes
  | out, [] => out
  | out, [s] => closeSegments out s
  | out, s :: t :: rest => resolveSegments (pushSegment out s) (t :: rest)

theorem forall_mem_pushSegment {p : Bytes → Prop} {out : List Bytes} {s : Bytes}
    (hout : ∀ u ∈ out, p u) (hs : s ≠ dot → s ≠ dotDot → p s) : ∀ u ∈ pushSegment out s, p u := by
  unfold pushSegment
  split
  · exact hout
  · split
    · exact fun u hu => hout u (List.dropLast_subset _ hu)
    · next h₁ h₂ =>
      intro u hu
      rcases List.mem_append.1 hu with hu | hu
      · exact hout u hu
      · rw [List.mem_singleton.1 hu]
        exact hs h₁ h₂

/-- A property of segments that the empty segment has is kept. -/
theorem forall_mem_resolveSegments {p : Bytes → Prop} (hnil : p []) {out segs : List Bytes}
    (hout : ∀ s ∈ out, p s) (hsegs : ∀ s ∈ segs, s ≠ dot → s ≠ dotDot → p s) :
    ∀ s ∈ resolveSegments out segs, p s := by
  induction out, segs using resolveSegments.induct with
  | case1 out => exact hout
  | case2 out s =>
    have hpush := forall_mem_pushSegment hout (hsegs s List.mem_cons_self)
    intro u hu
    simp only [resolveSegments, closeSegments] at hu
    split at hu
    · rcases List.mem_append.1 hu with hu | hu
      · exact hpush u hu
      · rw [List.mem_singleton.1 hu]
        exact hnil
    · exact hpush u hu
  | case3 out s t rest ih =>
    exact ih (forall_mem_pushSegment hout (hsegs s List.mem_cons_self))
      fun u hu => hsegs u (List.mem_cons_of_mem _ hu)

theorem resolveSegments_ne_nil (out segs : List Bytes) (h : segs ≠ []) :
    resolveSegments out segs ≠ [] := by
  induction out, segs using resolveSegments.induct with
  | case1 out => exact absurd rfl h
  | case2 out s =>
    simp only [resolveSegments, closeSegments]
    split
    · simp
    · next hs =>
      push Not at hs
      simp [pushSegment, hs]
  | case3 out s t rest ih => exact ih (by simp)

/-- Without dot segments nothing is removed. -/
theorem resolveSegments_of_not_dot {out segs : List Bytes}
    (h : ∀ s ∈ segs, s ≠ dot ∧ s ≠ dotDot) : resolveSegments out segs = out ++ segs := by
  induction out, segs using resolveSegments.induct with
  | case1 out => simp [resolveSegments]
  | case2 out s =>
    have hs := h s List.mem_cons_self
    simp [resolveSegments, closeSegments, pushSegment, hs]
  | case3 out s t rest ih =>
    have hs := h s List.mem_cons_self
    rw [resolveSegments, ih fun u hu => h u (List.mem_cons_of_mem _ hu), pushSegment, if_neg hs.1,
      if_neg hs.2]
    simp

/-! ## Lengths -/

theorem length_joinSegments_append (segs segs' : List Bytes) :
    (joinSegments (segs ++ segs')).length =
      (joinSegments segs).length + (joinSegments segs').length := by
  rw [joinSegments_append, List.length_append]

theorem length_joinSegments_single (s : Bytes) : (joinSegments [s]).length = s.length + 1 := by
  simp [joinSegments]

theorem length_joinSegments_dropLast_le (out : List Bytes) :
    (joinSegments out.dropLast).length ≤ (joinSegments out).length := by
  rcases List.eq_nil_or_concat out with rfl | ⟨init, last, rfl⟩
  · exact Nat.le_refl _
  · rw [List.concat_eq_append, List.dropLast_concat, length_joinSegments_append]
    exact Nat.le_add_right _ _

theorem length_pushSegment_le (out : List Bytes) (s : Bytes) :
    (joinSegments (pushSegment out s)).length ≤ (joinSegments out).length + s.length + 1 := by
  unfold pushSegment
  split
  · omega
  · split
    · have := length_joinSegments_dropLast_le out
      omega
    · rw [length_joinSegments_append, length_joinSegments_single]
      omega

/-- Resolving dot segments never makes a path longer. -/
theorem length_resolveSegments_le (out segs : List Bytes) :
    (joinSegments (resolveSegments out segs)).length ≤
      (joinSegments out).length + (joinSegments segs).length := by
  induction out, segs using resolveSegments.induct with
  | case1 out => simp [resolveSegments]
  | case2 out s =>
    simp only [resolveSegments, closeSegments, length_joinSegments_single]
    split
    · next hs =>
      -- a last dot segment leaves an empty one, which is shorter
      have hlen : 1 ≤ s.length := by rcases hs with rfl | rfl <;> decide
      have hpush : (joinSegments (pushSegment out s)).length ≤ (joinSegments out).length := by
        rcases hs with rfl | rfl
        · simp [pushSegment]
        · simpa [pushSegment] using length_joinSegments_dropLast_le out
      rw [length_joinSegments_append, length_joinSegments_single]
      simp only [List.length_nil]
      omega
    · have := length_pushSegment_le out s
      omega
  | case3 out s t rest ih =>
    have hpush := length_pushSegment_le out s
    rw [joinSegments_cons s, List.length_cons, List.length_append]
    simp only [resolveSegments]
    omega

/-! ## Exact lengths -/

/-- The bytes of the segments that resolving drops, with their slashes, from the last segment to the
first: the dot segments, and one segment for each of the `pending` segments `..` after it. -/
def droppedBytes : Nat → List Bytes → Nat
  | _, [] => 0
  | pending, s :: rest =>
      if s = dot then s.length + 1 + droppedBytes pending rest
      else if s = dotDot then s.length + 1 + droppedBytes (pending + 1) rest
      else
        match pending with
        | 0 => droppedBytes 0 rest
        | pending + 1 => s.length + 1 + droppedBytes pending rest

/-- The bytes that resolving drops from a path. A dot segment at the end leaves its slash. -/
def dotBytes (segs : List Bytes) : Nat :=
  droppedBytes 0 segs.reverse -
    if segs.getLast? = some dot ∨ segs.getLast? = some dotDot then 1 else 0

/-- The stack after a list of segments, less its last `pending` segments. -/
theorem length_foldl_pushSegment (segs : List Bytes) (pending : Nat) :
    (joinSegments ((segs.foldl pushSegment []).rdrop pending)).length +
      droppedBytes pending segs.reverse = (joinSegments segs).length := by
  induction segs using List.reverseRecOn generalizing pending with
  | nil => simp [droppedBytes, joinSegments]
  | append_singleton init s ih =>
    rw [List.foldl_append, List.foldl_cons, List.foldl_nil, List.reverse_append,
      List.reverse_singleton, List.singleton_append, length_joinSegments_append,
      length_joinSegments_single]
    generalize init.foldl pushSegment [] = out at ih ⊢
    by_cases hdot : s = dot
    · rw [pushSegment, if_pos hdot, droppedBytes.eq_def]
      simp only [hdot, if_true]
      have := ih pending
      omega
    by_cases hdotDot : s = dotDot
    -- two dots drop one more of the segments before them
    · have hdrop : out.dropLast.rdrop pending = out.rdrop (pending + 1) := by
        rw [List.rdrop, List.rdrop, List.dropLast_eq_take, List.take_take, List.length_take]
        congr 1
        omega
      rw [pushSegment, if_neg hdot, if_pos hdotDot, hdrop, droppedBytes.eq_def]
      simp only [if_neg hdot, if_pos hdotDot]
      have := ih (pending + 1)
      omega
    · rw [pushSegment, if_neg hdot, if_neg hdotDot, droppedBytes.eq_def]
      simp only [hdot, hdotDot, if_false]
      -- a segment stays when no later one drops it
      cases pending with
      | zero =>
        have := ih 0
        rw [List.rdrop_zero] at this ⊢
        rw [length_joinSegments_append, length_joinSegments_single]
        simp only
        omega
      | succ pending =>
        have := ih pending
        rw [List.rdrop_concat_succ]
        simp only
        omega

theorem resolveSegments_concat (out init : List Bytes) (s : Bytes) :
    resolveSegments out (init ++ [s]) = closeSegments (init.foldl pushSegment out) s := by
  induction init generalizing out with
  | nil => rfl
  | cons t init ih =>
    have hstep : resolveSegments out (t :: (init ++ [s])) =
        resolveSegments (pushSegment out t) (init ++ [s]) := by
      cases init <;> rfl
    exact hstep.trans (ih _)

/-- A path is longer than its resolution by the bytes that are dropped. -/
theorem length_resolveSegments_add {segs : List Bytes} (hne : segs ≠ []) :
    (joinSegments (resolveSegments [] segs)).length + dotBytes segs =
    (joinSegments segs).length := by
  obtain ⟨init, s, rfl⟩ : ∃ init s, segs = init ++ [s] :=
    ⟨_, _, (List.dropLast_append_getLast hne).symm⟩
  have hstack := length_foldl_pushSegment (init ++ [s]) 0
  rw [List.foldl_append, List.foldl_cons, List.foldl_nil, List.rdrop_zero] at hstack
  simp only [resolveSegments_concat, closeSegments, dotBytes, List.getLast?_append,
    List.getLast?_singleton, Option.some_or, Option.some.injEq]
  by_cases hs : s = dot ∨ s = dotDot
  · have hpos : 1 ≤ droppedBytes 0 (init ++ [s]).reverse := by
      rw [List.reverse_append, List.reverse_singleton, List.singleton_append, droppedBytes.eq_def]
      rcases hs with rfl | rfl
      · simp
        omega
      · simp
        omega
    rw [if_pos hs, if_pos hs, length_joinSegments_append, length_joinSegments_single]
    simp only [List.length_nil]
    omega
  · rw [if_neg hs, if_neg hs]
    exact hstack

end Keylix.Lib
