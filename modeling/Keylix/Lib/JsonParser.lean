import Keylix.Lib.Json

/-!
# A parser of compact JSON texts

A recursive-descent parser of the texts that `Json.render` writes, and the proof that it reads them
back (`compactText`), so that the assumptions of `JsonText` are those of an existing parser. White
space, floating-point numbers and `\u` escapes above `\u00ff` are outside its language.
-/

set_option autoImplicit false

namespace Keylix.Lib

namespace Json

/-- The byte of an escape, with the text after it. -/
def parseEscape : Bytes → Option (UInt8 × Bytes)
  | [] => none
  | c :: rest =>
      if c = byte '"' then some (byte '"', rest)
      else if c = byte '\\' then some (byte '\\', rest)
      else if c = byte 'b' then some (8, rest)
      else if c = byte 't' then some (9, rest)
      else if c = byte 'n' then some (10, rest)
      else if c = byte 'f' then some (12, rest)
      else if c = byte 'r' then some (13, rest)
      else if c = byte 'u' then
        match rest with
        | z :: z' :: h :: l :: rest =>
            if z = byte '0' ∧ z' = byte '0' then do
              let high ← digitValue h
              let low ← digitValue l
              some (UInt8.ofNat (high * 16 + low), rest)
            else none
        | _ => none
      else none

/-- The bytes of a string up to its closing quotation mark, with the text after it. The first
argument bounds the number of bytes. -/
def parseStr : Nat → Bytes → Option (Bytes × Bytes)
  | 0, _ => none
  | _ + 1, [] => none
  | n + 1, c :: rest =>
      if c = byte '"' then some ([], rest)
      else if c = byte '\\' then do
        let (b, rest) ← parseEscape rest
        let (s, rest) ← parseStr n rest
        some (b :: s, rest)
      else if c < 0x20 then none
      else do
        let (s, rest) ← parseStr n rest
        some (c :: s, rest)

/-- A decimal integer, with the text after its digits. -/
def parseInt (s : Bytes) : Option (Int × Bytes) :=
  match s with
  | [] => none
  | c :: rest =>
      if c = byte '-' then do
        let n ← parseNumeral 10 (rest.takeWhile isAsciiDigit)
        some (-(n : Int), rest.dropWhile isAsciiDigit)
      else do
        let n ← parseNumeral 10 ((c :: rest).takeWhile isAsciiDigit)
        some ((n : Int), (c :: rest).dropWhile isAsciiDigit)

/-- Removes an expected text. -/
def expect (t s : Bytes) : Option Bytes :=
  if t.isPrefixOf s then some (s.drop t.length) else none

mutual

/-- A value, with the text after it. The first argument bounds the length of the text. -/
def parseValue : Nat → Bytes → Option (Json × Bytes)
  | 0, _ => none
  | _ + 1, [] => none
  | n + 1, c :: rest =>
      if c = byte 'n' then (expect (ascii "ull") rest).map fun r => (.null, r)
      else if c = byte 't' then (expect (ascii "rue") rest).map fun r => (.bool true, r)
      else if c = byte 'f' then (expect (ascii "alse") rest).map fun r => (.bool false, r)
      else if c = byte '"' then (parseStr (n + 1) rest).map fun (s, r) => (.str s, r)
      else if c = byte '[' then
        if rest.head? = some (byte ']') then some (.arr [], rest.tail)
        else do
          let (x, rest) ← parseValue n rest
          let (xs, rest) ← parseItems n rest
          some (.arr (x :: xs), rest)
      else if c = byte '{' then
        if rest.head? = some (byte '}') then some (.obj [], rest.tail)
        else do
          let (m, rest) ← parseMember n rest
          let (ms, rest) ← parseMembers n rest
          some (.obj (m :: ms), rest)
      else (parseInt (c :: rest)).map fun (z, r) => (.int z, r)
termination_by structural n => n

/-- The items after the first. -/
def parseItems : Nat → Bytes → Option (List Json × Bytes)
  | 0, _ => none
  | _ + 1, [] => none
  | n + 1, c :: rest =>
      if c = byte ']' then some ([], rest)
      else if c = byte ',' then do
        let (x, rest) ← parseValue n rest
        let (xs, rest) ← parseItems n rest
        some (x :: xs, rest)
      else none
termination_by structural n => n

/-- One member of an object. -/
def parseMember : Nat → Bytes → Option ((Bytes × Json) × Bytes)
  | 0, _ => none
  | _ + 1, [] => none
  | n + 1, c :: rest =>
      if c = byte '"' then do
        let (k, rest) ← parseStr (n + 1) rest
        let rest ← expect [byte ':'] rest
        let (v, rest) ← parseValue n rest
        some ((k, v), rest)
      else none
termination_by structural n => n

/-- The members after the first. -/
def parseMembers : Nat → Bytes → Option (List (Bytes × Json) × Bytes)
  | 0, _ => none
  | _ + 1, [] => none
  | n + 1, c :: rest =>
      if c = byte '}' then some ([], rest)
      else if c = byte ',' then do
        let (m, rest) ← parseMember n rest
        let (ms, rest) ← parseMembers n rest
        some (m :: ms, rest)
      else none
termination_by structural n => n

end

/-- A whole text. -/
def parseText (s : Bytes) : Option Json :=
  match parseValue s.length s with
  | some (j, []) => some j
  | _ => none

/-! ## Strings -/

/-- The three forms of the text of a byte. -/
theorem escapeByte_cases (b : UInt8) :
    (∃ e, escapeByte b = [byte '\\', e] ∧ ∀ rest, parseEscape (e :: rest) = some (b, rest)) ∨
      (b < 0x20 ∧ escapeByte b = byte '\\' :: byte 'u' :: byte '0' :: byte '0' ::
        [digitByte (b.toNat / 16), digitByte (b.toNat % 16)]) ∨
      (b ≠ byte '"' ∧ b ≠ byte '\\' ∧ ¬ b < 0x20 ∧ escapeByte b = [b]) := by
  by_cases h₁ : b = byte '"'
  · subst h₁; exact Or.inl ⟨byte '"', rfl, fun _ => rfl⟩
  by_cases h₂ : b = byte '\\'
  · subst h₂; exact Or.inl ⟨byte '\\', rfl, fun _ => rfl⟩
  by_cases h₃ : b = 8
  · subst h₃; exact Or.inl ⟨byte 'b', rfl, fun _ => rfl⟩
  by_cases h₄ : b = 9
  · subst h₄; exact Or.inl ⟨byte 't', rfl, fun _ => rfl⟩
  by_cases h₅ : b = 10
  · subst h₅; exact Or.inl ⟨byte 'n', rfl, fun _ => rfl⟩
  by_cases h₆ : b = 12
  · subst h₆; exact Or.inl ⟨byte 'f', rfl, fun _ => rfl⟩
  by_cases h₇ : b = 13
  · subst h₇; exact Or.inl ⟨byte 'r', rfl, fun _ => rfl⟩
  have hrest : escapeByte b = if b < 0x20 then
      ascii "\\u00" ++ [digitByte (b.toNat / 16), digitByte (b.toNat % 16)] else [b] := by
    unfold escapeByte
    rw [if_neg h₁, if_neg h₂, if_neg h₃, if_neg h₄, if_neg h₅, if_neg h₆, if_neg h₇]
  by_cases h₈ : b < 0x20
  · refine Or.inr (Or.inl ⟨h₈, ?_⟩)
    rw [hrest, if_pos h₈]
    rfl
  · refine Or.inr (Or.inr ⟨h₁, h₂, h₈, ?_⟩)
    rw [hrest, if_neg h₈]

theorem parseEscape_u {b : UInt8} (hb : b < 0x20) (rest : Bytes) :
    parseEscape (byte 'u' :: byte '0' :: byte '0' :: digitByte (b.toNat / 16) ::
      digitByte (b.toNat % 16) :: rest) = some (b, rest) := by
  have hlt : b.toNat < 32 := by simpa using UInt8.lt_iff_toNat_lt.1 hb
  have hhigh : digitValue (digitByte (b.toNat / 16)) = some (b.toNat / 16) :=
    digitValue_digitByte (by omega)
  have hlow : digitValue (digitByte (b.toNat % 16)) = some (b.toNat % 16) :=
    digitValue_digitByte (by omega)
  have hsum : b.toNat / 16 * 16 + b.toNat % 16 = b.toNat := by omega
  show ((digitValue (digitByte (b.toNat / 16))).bind fun high =>
    (digitValue (digitByte (b.toNat % 16))).bind fun low =>
      some (UInt8.ofNat (high * 16 + low), rest)) = some (b, rest)
  rw [hhigh, hlow]
  simp only [Option.bind_some, hsum, UInt8.ofNat_toNat]

/-- The text of one byte is read back as that byte. -/
theorem parseStr_escapeByte (n : Nat) (b : UInt8) (rest : Bytes) :
    parseStr (n + 1) (escapeByte b ++ rest) =
      (parseStr n rest).bind fun p => some (b :: p.1, p.2) := by
  have hbackslash : ∀ t, parseStr (n + 1) (byte '\\' :: t) =
      (parseEscape t).bind fun p => (parseStr n p.2).bind fun q => some (p.1 :: q.1, q.2) :=
    fun t => rfl
  rcases escapeByte_cases b with ⟨e, he, hparse⟩ | ⟨hb, he⟩ | ⟨h₁, h₂, h₃, he⟩
  · rw [he, List.cons_append, List.cons_append, List.nil_append, hbackslash, hparse]
    rfl
  · rw [he]
    simp only [List.cons_append, List.nil_append]
    rw [hbackslash, parseEscape_u hb]
    rfl
  · rw [he]
    simp only [List.cons_append, List.nil_append, parseStr, h₁, h₂, h₃, if_false,
      Option.bind_eq_bind]

/-- The text of a string is read back, with what follows it. -/
theorem parseStr_escape (s rest : Bytes) (n : Nat) (hn : s.length < n) :
    parseStr n (escape s ++ byte '"' :: rest) = some (s, rest) := by
  induction s generalizing n with
  | nil =>
    obtain ⟨m, rfl⟩ : ∃ m, n = m + 1 := ⟨n - 1, by omega⟩
    simp [escape, parseStr]
  | cons b s ih =>
    obtain ⟨m, rfl⟩ : ∃ m, n = m + 1 := ⟨n - 1, by omega⟩
    have hm : s.length < m := by simpa using hn
    rw [escape, List.flatMap_cons, List.append_assoc, parseStr_escapeByte, ← escape, ih m hm]
    rfl

/-! ## Numbers -/

/-- The text does not continue a numeral. -/
def EndsNumeral (rest : Bytes) : Prop := ∀ c, rest.head? = some c → isAsciiDigit c = false

theorem takeWhile_decimal {rest : Bytes} (h : EndsNumeral rest) (n : Nat) :
    (decimal n ++ rest).takeWhile isAsciiDigit = decimal n := by
  rw [List.takeWhile_append_of_pos fun c hc => isAsciiDigit_of_mem_decimal hc]
  cases rest with
  | nil => simp
  | cons c rest => simp [h c rfl]

theorem dropWhile_decimal {rest : Bytes} (h : EndsNumeral rest) (n : Nat) :
    (decimal n ++ rest).dropWhile isAsciiDigit = rest := by
  rw [List.dropWhile_append_of_pos fun c hc => isAsciiDigit_of_mem_decimal hc]
  cases rest with
  | nil => simp
  | cons c rest => simp [h c rfl]

/-- The first byte of a decimal numeral. -/
theorem decimal_eq_cons (n : Nat) : ∃ c t, decimal n = c :: t ∧ isAsciiDigit c = true := by
  cases h : decimal n with
  | nil => exact absurd h (numeral_ne_nil 10 n)
  | cons c t =>
    refine ⟨c, t, rfl, isAsciiDigit_of_mem_decimal (n := n) ?_⟩
    rw [h]
    exact List.mem_cons_self

theorem parseInt_decimalInt {rest : Bytes} (h : EndsNumeral rest) (z : Int) :
    parseInt (decimalInt z ++ rest) = some (z, rest) := by
  unfold decimalInt
  have hparse : parseNumeral 10 (decimal z.natAbs) = some z.natAbs :=
    parseNumeral_numeral (by norm_num) (by norm_num) z.natAbs
  split
  · next hz =>
    simp only [List.cons_append, parseInt, if_true, takeWhile_decimal h, dropWhile_decimal h,
      hparse, Option.bind_eq_bind, Option.bind_some, Option.some.injEq, Prod.mk.injEq, and_true]
    omega
  · next hz =>
    obtain ⟨c, t, hc, hdigit⟩ := decimal_eq_cons z.natAbs
    have hminus : c ≠ byte '-' := by
      rintro rfl
      exact absurd hdigit (by decide)
    have htake := takeWhile_decimal h z.natAbs
    have hdrop := dropWhile_decimal h z.natAbs
    rw [hc] at htake hdrop hparse ⊢
    simp only [List.cons_append] at htake hdrop ⊢
    simp only [parseInt, hminus, if_false, htake, hdrop, hparse, Option.bind_eq_bind,
      Option.bind_some, Option.some.injEq, Prod.mk.injEq, and_true]
    omega

/-! ## Values -/

theorem expect_append (t rest : Bytes) : expect t (t ++ rest) = some rest := by
  simp [expect]

theorem renderStr_append (s rest : Bytes) :
    renderStr s ++ rest = byte '"' :: (escape s ++ byte '"' :: rest) := by
  simp [renderStr]

theorem length_le_escapedLength (s : Bytes) : s.length ≤ escapedLength s := by
  have hpos : ∀ b : UInt8, 1 ≤ escapedByteLength b := by decide +kernel
  induction s with
  | nil => exact Nat.le_refl 0
  | cons b s ih =>
    have hb := hpos b
    simp only [escapedLength, List.map_cons, List.sum_cons, List.length_cons] at ih ⊢
    omega

/-- The text of an integer starts with no byte that starts another value. -/
theorem decimalInt_eq_cons (z : Int) : ∃ c t, decimalInt z = c :: t ∧
    ∀ d ∈ [byte 'n', byte 't', byte 'f', byte '"', byte '[', byte '{', byte ']', byte '}'],
      c ≠ d := by
  have hdigits : ∀ c : UInt8, isAsciiDigit c = true →
      ∀ d ∈ [byte 'n', byte 't', byte 'f', byte '"', byte '[', byte '{', byte ']', byte '}'],
        c ≠ d := by decide +kernel
  unfold decimalInt
  split
  · refine ⟨byte '-', decimal z.natAbs, rfl, ?_⟩
    decide +kernel
  · obtain ⟨c, t, hc, hdigit⟩ := decimal_eq_cons z.natAbs
    exact ⟨c, t, hc, hdigits c hdigit⟩

/-- No text of a value starts with a closing bracket. -/
theorem render_eq_cons {j : Json} (hj : j.Plain) : ∃ c t, render j = c :: t ∧ c ≠ byte ']' := by
  cases j with
  | null => exact ⟨byte 'n', _, rfl, by decide⟩
  | bool b =>
    cases b with
    | true => exact ⟨byte 't', _, rfl, by decide⟩
    | false => exact ⟨byte 'f', _, rfl, by decide⟩
  | int z =>
    obtain ⟨c, t, hc, hne⟩ := decimalInt_eq_cons z
    exact ⟨c, t, hc, hne _ (by simp)⟩
  | float t => exact absurd hj (by simp [Plain])
  | str s => exact ⟨byte '"', _, rfl, by decide⟩
  | arr xs =>
    cases xs with
    | nil => exact ⟨byte '[', _, rfl, by decide⟩
    | cons x xs => exact ⟨byte '[', _, rfl, by decide⟩
  | obj ms =>
    cases ms with
    | nil => exact ⟨byte '{', _, rfl, by decide⟩
    | cons m ms => exact ⟨byte '{', _, rfl, by decide⟩

theorem endsNumeral_cons {c : UInt8} (h : isAsciiDigit c = false) (t : Bytes) :
    EndsNumeral (c :: t) := by
  intro d hd
  cases hd
  exact h

theorem endsNumeral_renderItems (xs : List Json) (rest : Bytes) :
    EndsNumeral (renderItems xs ++ rest) := by
  cases xs with
  | nil => exact endsNumeral_cons (by decide) _
  | cons x xs => exact endsNumeral_cons (by decide) _

theorem endsNumeral_renderMembers (ms : List (Bytes × Json)) (rest : Bytes) :
    EndsNumeral (renderMembers ms ++ rest) := by
  cases ms with
  | nil => exact endsNumeral_cons (by decide) _
  | cons m ms => exact endsNumeral_cons (by decide) _

/-- The branch of a number. -/
theorem parseValue_int (n : Nat) {rest : Bytes} (h : EndsNumeral rest) (z : Int) :
    parseValue (n + 1) (decimalInt z ++ rest) = some (.int z, rest) := by
  have hparse := parseInt_decimalInt h z
  obtain ⟨c, t, hc, hne⟩ := decimalInt_eq_cons z
  simp only [List.mem_cons, List.not_mem_nil, or_false, forall_eq_or_imp, forall_eq] at hne
  obtain ⟨h₁, h₂, h₃, h₄, h₅, h₆, -, -⟩ := hne
  rw [hc, List.cons_append] at hparse ⊢
  simp only [parseValue, h₁, h₂, h₃, h₄, h₅, h₆, if_false, hparse, Option.map_some]

theorem parseValue_str (n : Nat) (s rest : Bytes) (hn : (renderStr s).length ≤ n + 1) :
    parseValue (n + 1) (renderStr s ++ rest) = some (.str s, rest) := by
  have hlen : s.length < n + 1 := by
    have := length_le_escapedLength s
    rw [length_renderStr] at hn
    omega
  have hparse := parseStr_escape s rest (n + 1) hlen
  have hquote : parseValue (n + 1) (byte '"' :: (escape s ++ byte '"' :: rest)) =
      (parseStr (n + 1) (escape s ++ byte '"' :: rest)).map fun (s, r) => (.str s, r) := rfl
  rw [renderStr_append, hquote, hparse]
  rfl

mutual

/-- The compact text of a value is read back, with what follows it. -/
theorem parseValue_render (j : Json) (hj : j.Plain) (n : Nat) (hn : (render j).length ≤ n)
    (rest : Bytes) (hrest : EndsNumeral rest) : parseValue n (render j ++ rest) =
      some (j, rest) := by
  obtain ⟨c, t, hc, hbracket⟩ := render_eq_cons hj
  -- the text is not empty, so that the fuel is not either
  obtain ⟨m, rfl⟩ : ∃ m, n = m + 1 := ⟨n - 1, by rw [hc] at hn; simp at hn; omega⟩
  match j, hj, hn, hc with
  | .null, _, _, _ => rfl
  | .bool true, _, _, _ => rfl
  | .bool false, _, _, _ => rfl
  | .int z, _, _, _ => exact parseValue_int m hrest z
  | .str s, _, hn, _ => exact parseValue_str m s rest hn
  | .arr [], _, _, _ => rfl
  | .arr (x :: xs), hj, hn, _ =>
    have hx : x.Plain := hj.1
    have hxs : PlainItems xs := hj.2
    have hlen : (render x).length + (renderItems xs).length ≤ m := by simpa [render] using hn
    obtain ⟨d, u, hd, hne⟩ := render_eq_cons hx
    -- the first item does not start with a closing bracket, so that the array is not read as empty
    have hhead : (render x ++ (renderItems xs ++ rest)).head? ≠ some (byte ']') := by
      simpa [hd] using hne
    have hopen : ∀ s : Bytes, s.head? ≠ some (byte ']') → parseValue (m + 1) (byte '[' :: s) =
        (parseValue m s).bind fun p => (parseItems m p.2).bind fun q =>
          some (.arr (p.1 :: q.1), q.2) := fun s hs => if_neg hs
    rw [render, List.cons_append, List.append_assoc, hopen _ hhead,
      parseValue_render x hx m (by omega) _ (endsNumeral_renderItems xs rest)]
    simp only [Option.bind_some]
    rw [parseItems_render xs hxs m (by omega) rest]
    rfl
  | .obj [], _, _, _ => rfl
  | .obj (y :: ys), hj, hn, _ =>
    have hy : PlainMember y := hj.1
    have hys : PlainMembers ys := hj.2
    have hlen : (renderMember y).length + (renderMembers ys).length ≤ m := by
      simpa [render] using hn
    -- a member starts with a quotation mark
    have hhead : (renderMember y ++ (renderMembers ys ++ rest)).head? ≠ some (byte '}') := by
      obtain ⟨k, v⟩ := y
      simp only [renderMember, renderStr, List.cons_append, List.head?_cons]
      decide
    have hopen : ∀ s : Bytes, s.head? ≠ some (byte '}') → parseValue (m + 1) (byte '{' :: s) =
        (parseMember m s).bind fun p => (parseMembers m p.2).bind fun q =>
          some (.obj (p.1 :: q.1), q.2) := fun s hs => if_neg hs
    rw [render, List.cons_append, List.append_assoc, hopen _ hhead,
      parseMember_render y hy m (by omega) _ (endsNumeral_renderMembers ys rest)]
    simp only [Option.bind_some]
    rw [parseMembers_render ys hys m (by omega) rest]
    rfl
termination_by structural j

theorem parseItems_render (xs : List Json) (hxs : PlainItems xs) (n : Nat)
    (hn : (renderItems xs).length ≤ n) (rest : Bytes) :
    parseItems n (renderItems xs ++ rest) = some (xs, rest) := by
  match xs, hxs, hn with
  | [], _, hn =>
    obtain ⟨m, rfl⟩ : ∃ m, n = m + 1 := ⟨n - 1, by simp [renderItems] at hn; omega⟩
    rfl
  | x :: xs, hxs, hn =>
    obtain ⟨m, rfl⟩ : ∃ m, n = m + 1 := ⟨n - 1, by simp [renderItems] at hn; omega⟩
    have hlen : (render x).length + (renderItems xs).length ≤ m := by simpa [renderItems] using hn
    have hcomma : ∀ s : Bytes, parseItems (m + 1) (byte ',' :: s) =
        (parseValue m s).bind fun p => (parseItems m p.2).bind fun q =>
          some (p.1 :: q.1, q.2) := fun s => rfl
    rw [renderItems, List.cons_append, List.append_assoc, hcomma,
      parseValue_render x hxs.1 m (by omega) _ (endsNumeral_renderItems xs rest)]
    simp only [Option.bind_some]
    rw [parseItems_render xs hxs.2 m (by omega) rest]
    rfl
termination_by structural xs

theorem parseMember_render (y : Bytes × Json) (hy : PlainMember y) (n : Nat)
    (hn : (renderMember y).length ≤ n) (rest : Bytes) (hrest : EndsNumeral rest) :
    parseMember n (renderMember y ++ rest) = some (y, rest) := by
  match y, hy, hn with
  | (k, v), hy, hn =>
    have hlen : escapedLength k + 3 + (render v).length ≤ n := by
      simp only [renderMember, List.length_append, length_renderStr, List.length_cons] at hn
      omega
    obtain ⟨m, rfl⟩ : ∃ m, n = m + 1 := ⟨n - 1, by omega⟩
    have hk : k.length < m + 1 := by
      have := length_le_escapedLength k
      omega
    have hquote : ∀ s : Bytes, parseMember (m + 1) (byte '"' :: s) =
        (parseStr (m + 1) s).bind fun p => (expect [byte ':'] p.2).bind fun r =>
          (parseValue m r).bind fun q => some ((p.1, q.1), q.2) := fun s => rfl
    have hcolon : ∀ s : Bytes, expect [byte ':'] (byte ':' :: s) = some s :=
      fun s => expect_append [byte ':'] s
    rw [renderMember, List.append_assoc, renderStr_append, hquote, List.cons_append,
      parseStr_escape k _ (m + 1) hk]
    simp only [Option.bind_some, hcolon]
    rw [parseValue_render v hy.2 m (by omega) rest hrest]
    rfl
termination_by structural y

theorem parseMembers_render (ys : List (Bytes × Json)) (hys : PlainMembers ys) (n : Nat)
    (hn : (renderMembers ys).length ≤ n) (rest : Bytes) :
    parseMembers n (renderMembers ys ++ rest) = some (ys, rest) := by
  match ys, hys, hn with
  | [], _, hn =>
    obtain ⟨m, rfl⟩ : ∃ m, n = m + 1 := ⟨n - 1, by simp [renderMembers] at hn; omega⟩
    rfl
  | y :: ys, hys, hn =>
    obtain ⟨m, rfl⟩ : ∃ m, n = m + 1 := ⟨n - 1, by simp [renderMembers] at hn; omega⟩
    have hlen : (renderMember y).length + (renderMembers ys).length ≤ m := by
      simpa [renderMembers] using hn
    have hcomma : ∀ s : Bytes, parseMembers (m + 1) (byte ',' :: s) =
        (parseMember m s).bind fun p => (parseMembers m p.2).bind fun q =>
          some (p.1 :: q.1, q.2) := fun s => rfl
    rw [renderMembers, List.cons_append, List.append_assoc, hcomma,
      parseMember_render y hys.1 m (by omega) _ (endsNumeral_renderMembers ys rest)]
    simp only [Option.bind_some]
    rw [parseMembers_render ys hys.2 m (by omega) rest]
    rfl
termination_by structural ys

end

theorem parseText_render (j : Json) (hj : j.Plain) : parseText (render j) = some j := by
  have hends : EndsNumeral [] := by
    intro c hc
    cases hc
  have hparse := parseValue_render j hj (render j).length (Nat.le_refl _) [] hends
  rw [List.append_nil] at hparse
  rw [parseText, hparse]

end Json

/-- A parser of compact texts. -/
def compactText : JsonText where
  parse := Json.parseText
  parse_render := fun j hj _ => Json.parseText_render j hj

end Keylix.Lib
