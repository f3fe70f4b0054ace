import Keylix.Lib.Bytes

/-!
# IPv6 addresses

The textual form of IPv6 addresses, as the standard library of the verified program reads and
writes it. An address is eight 16-bit segments.

The reader takes groups of at most four hexadecimal digits separated by colons, with one `::` for
at least one group of zeros and an embedded IPv4 address in place of the last two groups. The
writer uses the mixed form for IPv4-mapped addresses and elsewhere replaces the first longest run of
at least two zero segments by `::`.

`Ipv6Addr.parse_display` is the round trip.
-/

set_option autoImplicit false

namespace Keylix.Lib

/-- An IPv6 address. -/
structure Ipv6Addr where
  segments : List Nat
  length_eq : segments.length = 8
  segment_lt : ∀ g ∈ segments, g < 65536
  deriving DecidableEq

namespace Ipv6Addr

/-! ## Reading -/

/-- The byte is a digit of the radix. -/
def isDigit (radix : Nat) (b : UInt8) : Bool :=
  match digitValue b with
  | some d => d < radix
  | none => false

/-- A number below `bound` of at most `maxDigits` digits, with the text after it. -/
def readNumber (radix maxDigits bound : Nat) (allowZeroPrefix : Bool) (s : Bytes) :
    Option (Nat × Bytes) :=
  let digits := s.takeWhile (isDigit radix)
  if digits.isEmpty || maxDigits < digits.length then none
  else if !allowZeroPrefix && digits.head? = some (byte '0') && 1 < digits.length then none
  else
    match parseDigits radix 0 digits with
    | some n => if n < bound then some (n, s.dropWhile (isDigit radix)) else none
    | none => none

/-- A part that is preceded by a separator unless its index is zero. -/
def readSeparator {α : Type} (sep : UInt8) (index : Nat) (inner : Bytes → Option α) (s : Bytes) :
    Option α :=
  if index = 0 then inner s
  else
    match s with
    | [] => none
    | c :: rest => if c = sep then inner rest else none

/-- An IPv4 address: its four octets, with the text after it. -/
def readIpv4Addr (s : Bytes) : Option ((Nat × Nat × Nat × Nat) × Bytes) := do
  let (a, s) ← readNumber 10 3 256 false s
  let (b, s) ← readSeparator (byte '.') 1 (readNumber 10 3 256 false) s
  let (c, s) ← readSeparator (byte '.') 2 (readNumber 10 3 256 false) s
  let (d, s) ← readSeparator (byte '.') 3 (readNumber 10 3 256 false) s
  some ((a, b, c, d), s)

/-- The groups from index `i` on, when `n` of them still fit: the groups read, whether the last two
come from an embedded IPv4 address, and the text after them. -/
def readGroups : Nat → Nat → Bytes → List Nat × Bool × Bytes
  | 0, _, s => ([], false, s)
  | n + 1, i, s =>
      match if 0 < n then readSeparator (byte ':') i readIpv4Addr s else none with
      | some ((a, b, c, d), rest) => ([a * 256 + b, c * 256 + d], true, rest)
      | none =>
          match readSeparator (byte ':') i (readNumber 16 4 65536 true) s with
          | some (g, rest) =>
              let (gs, v4, rest) := readGroups n (i + 1) rest
              (g :: gs, v4, rest)
          | none => ([], false, s)

/-- The segments of an address, with the text after it. -/
def readIpv6Addr (s : Bytes) : Option (List Nat × Bytes) :=
  let (head, headIpv4, rest) := readGroups 8 0 s
  if head.length = 8 then some (head, rest)
  else if headIpv4 then none
  else
    match rest with
    | c :: d :: rest =>
        if c = byte ':' ∧ d = byte ':' then
          let (tail, _, rest) := readGroups (8 - (head.length + 1)) 0 rest
          some (head ++ List.replicate (8 - head.length - tail.length) 0 ++ tail, rest)
        else none
    | _ => none

theorem readNumber_lt {radix maxDigits bound n : Nat} {zero : Bool} {s rest : Bytes}
    (h : readNumber radix maxDigits bound zero s = some (n, rest)) : n < bound := by
  simp only [readNumber] at h
  split at h
  · cases h
  split at h
  · cases h
  split at h
  · split at h
    · cases h
      assumption
    · cases h
  · cases h

theorem readSeparator_eq_some {α : Type} {sep : UInt8} {index : Nat} {inner : Bytes → Option α}
    {s : Bytes} {a : α} (h : readSeparator sep index inner s = some a) :
    ∃ t, inner t = some a := by
  simp only [readSeparator] at h
  split at h
  · exact ⟨s, h⟩
  split at h
  · cases h
  split at h
  · exact ⟨_, h⟩
  · cases h

theorem readIpv4Addr_lt {a b c d : Nat} {s rest : Bytes}
    (h : readIpv4Addr s = some ((a, b, c, d), rest)) :
    a < 256 ∧ b < 256 ∧ c < 256 ∧ d < 256 := by
  simp only [readIpv4Addr, Option.bind_eq_bind, Option.bind_eq_some_iff, Prod.exists] at h
  obtain ⟨a', s₁, ha, b', s₂, hb, c', s₃, hc, d', s₄, hd, h⟩ := h
  obtain ⟨t₁, hb⟩ := readSeparator_eq_some hb
  obtain ⟨t₂, hc⟩ := readSeparator_eq_some hc
  obtain ⟨t₃, hd⟩ := readSeparator_eq_some hd
  cases h
  exact ⟨readNumber_lt ha, readNumber_lt hb, readNumber_lt hc, readNumber_lt hd⟩

/-- The groups read fit the bound and are 16-bit values. -/
theorem readGroups_spec (n i : Nat) (s : Bytes) :
    (readGroups n i s).1.length ≤ n ∧ ∀ g ∈ (readGroups n i s).1, g < 65536 := by
  induction n generalizing i s with
  | zero => simp [readGroups]
  | succ n ih =>
    simp only [readGroups]
    split
    · next a b c d rest h =>
      -- a dotted part takes the place of two groups, and ends the address
      split at h
      · obtain ⟨t, ht⟩ := readSeparator_eq_some h
        obtain ⟨ha, hb, hc, hd⟩ := readIpv4Addr_lt ht
        refine ⟨by simp; omega, ?_⟩
        simp only [List.mem_cons, List.not_mem_nil, or_false, forall_eq_or_imp, forall_eq]
        omega
      · cases h
    · split
      · next g rest h =>
        obtain ⟨t, ht⟩ := readSeparator_eq_some h
        obtain ⟨hlen, hlt⟩ := ih (i + 1) rest
        refine ⟨by simpa using hlen, ?_⟩
        simp only [List.mem_cons, forall_eq_or_imp]
        exact ⟨readNumber_lt ht, hlt⟩
      · simp

theorem readIpv6Addr_spec {s rest : Bytes} {gs : List Nat} (h : readIpv6Addr s = some (gs, rest)) :
    gs.length = 8 ∧ ∀ g ∈ gs, g < 65536 := by
  simp only [readIpv6Addr] at h
  have hhead := readGroups_spec 8 0 s
  split at h
  · cases h
    exact ⟨by assumption, hhead.2⟩
  -- the zeros fill what the two halves leave, so that there are eight groups in all
  · split at h
    · cases h
    split at h
    · next c d t _ =>
      split at h
      · have htail := readGroups_spec (8 - ((readGroups 8 0 s).1.length + 1)) 0 t
        cases h
        refine ⟨by simp only [List.length_append, List.length_replicate]; omega, ?_⟩
        intro g hg
        simp only [List.mem_append, List.mem_replicate] at hg
        rcases hg with (hg | ⟨_, rfl⟩) | hg
        · exact hhead.2 g hg
        · norm_num
        · exact htail.2 g hg
      · cases h
    · cases h

/-- The address of a text. The whole text must be read. -/
def parse (s : Bytes) : Option Ipv6Addr :=
  match h : readIpv6Addr s with
  | some (gs, []) => some ⟨gs, (readIpv6Addr_spec h).1, (readIpv6Addr_spec h).2⟩
  | _ => none

/-! ## Writing -/

/-- The hexadecimal text of a group. -/
abbrev hex (g : Nat) : Bytes := numeral 16 g

/-- The groups after the first, each with the colon before it. -/
def fmtTail (gs : List Nat) : Bytes := gs.flatMap fun g => byte ':' :: hex g

/-- A colon-separated part of an address. -/
def fmtSubslice : List Nat → Bytes
  | [] => []
  | g :: gs => hex g ++ fmtTail gs

/-- A run of zero segments. -/
structure Span where
  start : Nat
  len : Nat

/-- The first longest run of zeros of the segments from index `i` on, from the run that ends before
them and the longest run so far. -/
def longestZeros : Nat → Span → Span → List Nat → Span
  | _, _, longest, [] => longest
  | i, current, longest, g :: gs =>
      if g = 0 then
        let current : Span := ⟨if current.len = 0 then i else current.start, current.len + 1⟩
        longestZeros (i + 1) current (if longest.len < current.len then current else longest) gs
      else longestZeros (i + 1) ⟨0, 0⟩ longest gs

/-- The IPv4 address of an IPv4-mapped address: the two last segments. -/
def toIpv4Mapped : List Nat → Option (Nat × Nat)
  | [0, 0, 0, 0, 0, 0xffff, g, h] => some (g, h)
  | _ => none

/-- The dotted form of two segments. -/
def fmtIpv4 (g h : Nat) : Bytes :=
  decimal (g / 256) ++ byte '.' :: (decimal (g % 256) ++ byte '.' ::
    (decimal (h / 256) ++ byte '.' :: decimal (h % 256)))

/-- The text of segments. -/
def displaySegments (gs : List Nat) : Bytes :=
  match toIpv4Mapped gs with
  | some (g, h) => ascii "::ffff:" ++ fmtIpv4 g h
  | none =>
      let zeroes := longestZeros 0 ⟨0, 0⟩ ⟨0, 0⟩ gs
      if 1 < zeroes.len then
        fmtSubslice (gs.take zeroes.start) ++ ascii "::" ++
          fmtSubslice (gs.drop (zeroes.start + zeroes.len))
      else fmtSubslice gs

/-- The text of an address. -/
def display (a : Ipv6Addr) : Bytes := displaySegments a.segments

/-! ## Reading numbers back -/

/-- A text that does not continue a number. -/
def StopsNumber (rest : Bytes) : Prop :=
  ∀ c, rest.head? = some c → digitValue c = none ∧ c ≠ byte '.'

theorem isDigit_of_mem_numeral {b n : Nat} (hb : 1 < b) (hb' : b ≤ 16) {c : UInt8}
    (hc : c ∈ numeral b n) : isDigit b c = true := by
  obtain ⟨d, hd, rfl⟩ := mem_numeral hb hc
  rw [isDigit, digitValue_digitByte (by omega)]
  simpa using hd

theorem takeWhile_numeral {b n : Nat} (hb : 1 < b) (hb' : b ≤ 16) {rest : Bytes}
    (h : ∀ c, rest.head? = some c → isDigit b c = false) :
    (numeral b n ++ rest).takeWhile (isDigit b) = numeral b n := by
  rw [List.takeWhile_append_of_pos fun c hc => isDigit_of_mem_numeral hb hb' hc]
  cases rest with
  | nil => simp
  | cons c rest => simp [h c rfl]

theorem dropWhile_numeral {b n : Nat} (hb : 1 < b) (hb' : b ≤ 16) {rest : Bytes}
    (h : ∀ c, rest.head? = some c → isDigit b c = false) :
    (numeral b n ++ rest).dropWhile (isDigit b) = rest := by
  rw [List.dropWhile_append_of_pos fun c hc => isDigit_of_mem_numeral hb hb' hc]
  cases rest with
  | nil => simp
  | cons c rest => simp [h c rfl]

/-- A numeral without a rejected zero is read back. -/
theorem readNumber_numeral {b n maxDigits bound : Nat} {zero : Bool} (hb : 1 < b) (hb' : b ≤ 16)
    (hlen : (numeral b n).length ≤ maxDigits) (hn : n < bound)
    (hzero : zero = false → (numeral b n).head? = some (byte '0') → (numeral b n).length ≤ 1)
    {rest : Bytes} (h : ∀ c, rest.head? = some c → isDigit b c = false) :
    readNumber b maxDigits bound zero (numeral b n ++ rest) = some (n, rest) := by
  have hne : (numeral b n).isEmpty = false := by simp [numeral_ne_nil]
  have hparse := parseNumeral_numeral hb hb' n
  simp only [parseNumeral, hne, Bool.false_eq_true, if_false] at hparse
  have hlen' : ¬ maxDigits < (numeral b n).length := by omega
  have hprefix : (!zero && (numeral b n).head? = some (byte '0') &&
      decide (1 < (numeral b n).length)) = false := by
    cases zero with
    | true => rfl
    | false =>
      by_cases hhead : (numeral b n).head? = some (byte '0')
      · have := hzero rfl hhead
        simp only [hhead, Bool.not_false, decide_true, Bool.true_and, decide_eq_false_iff_not]
        omega
      · simp [hhead]
  simp only [readNumber, takeWhile_numeral hb hb' h, dropWhile_numeral hb hb' h, hne, hparse, hn,
    hlen', hprefix, decide_false, Bool.or_self, Bool.false_eq_true, if_false, if_true]

theorem StopsNumber.not_isDigit {rest : Bytes} (h : StopsNumber rest) (b : Nat) :
    ∀ c, rest.head? = some c → isDigit b c = false := by
  intro c hc
  rw [isDigit, (h c hc).1]

/-- A group is read back. -/
theorem readNumber_hex {g : Nat} (hg : g < 65536) {rest : Bytes} (h : StopsNumber rest) :
    readNumber 16 4 65536 true (hex g ++ rest) = some (g, rest) := by
  have hlen : (hex g).length ≤ 4 := length_numeral_le (by norm_num) (by norm_num) (by omega)
  exact readNumber_numeral (by norm_num) (by norm_num) hlen hg (by simp) (h.not_isDigit 16)

/-- An octet is read back. -/
theorem readNumber_octet {a : Nat} (ha : a < 256) {rest : Bytes}
    (h : ∀ c, rest.head? = some c → digitValue c = none) :
    readNumber 10 3 256 false (decimal a ++ rest) = some (a, rest) := by
  have key : ∀ a < 256, (decimal a).length ≤ 3 ∧
      ((decimal a).head? = some (byte '0') → (decimal a).length ≤ 1) := by decide +kernel
  refine readNumber_numeral (by norm_num) (by norm_num) (key a ha).1 ha
    (fun _ => (key a ha).2) ?_
  intro c hc
  rw [isDigit, h c hc]

/-- The dotted form is read back. -/
theorem readIpv4Addr_fmtIpv4 {g h : Nat} (hg : g < 65536) (hh : h < 65536) :
    readIpv4Addr (fmtIpv4 g h) = some ((g / 256, g % 256, h / 256, h % 256), []) := by
  have hdot : ∀ t : Bytes, ∀ c, (byte '.' :: t).head? = some c → digitValue c = none := by
    rintro t c hc
    cases hc
    decide
  have hnil : ∀ c, ([] : Bytes).head? = some c → digitValue c = none := by
    rintro c hc
    cases hc
  have hsep : ∀ i t, readSeparator (byte '.') (i + 1) (readNumber 10 3 256 false) (byte '.' :: t) =
      readNumber 10 3 256 false t := by
    intro i t
    simp [readSeparator]
  have hlast := readNumber_octet (a := h % 256) (by omega) hnil
  rw [List.append_nil] at hlast
  simp only [readIpv4Addr, fmtIpv4, readNumber_octet (a := g / 256) (by omega) (hdot _), hsep,
    readNumber_octet (a := g % 256) (by omega) (hdot _),
    readNumber_octet (a := h / 256) (by omega) (hdot _), hlast, Option.bind_eq_bind,
    Option.bind_some]

/-! ## Reading groups back -/

/-- Without a dot after the first digits there is no IPv4 address. -/
theorem readIpv4Addr_eq_none {s : Bytes}
    (h : (s.dropWhile (isDigit 10)).head? ≠ some (byte '.')) : readIpv4Addr s = none := by
  simp only [readIpv4Addr, Option.bind_eq_bind]
  cases hnum : readNumber 10 3 256 false s with
  | none => rfl
  | some p =>
    obtain ⟨a, rest⟩ := p
    have hrest : rest = s.dropWhile (isDigit 10) := by
      simp only [readNumber] at hnum
      split at hnum
      · cases hnum
      split at hnum
      · cases hnum
      split at hnum
      · split at hnum
        · cases hnum
          rfl
        · cases hnum
      · cases hnum
    simp only [Option.bind_some]
    have hsep : readSeparator (byte '.') 1 (readNumber 10 3 256 false) rest = none := by
      rw [← hrest] at h
      cases rest with
      | nil => rfl
      | cons c rest =>
        have hc : c ≠ byte '.' := by simpa using h
        simp [readSeparator, hc]
    rw [hsep]
    rfl

/-- A group is no IPv4 address. -/
theorem readIpv4Addr_hex (g : Nat) {rest : Bytes} (h : StopsNumber rest) :
    readIpv4Addr (hex g ++ rest) = none := by
  apply readIpv4Addr_eq_none
  have hmem : ∀ c ∈ hex g, c ≠ byte '.' := by
    rintro c hc rfl
    have := isDigit_of_mem_numeral (by norm_num) (by norm_num) hc
    exact absurd this (by decide)
  generalize hex g = t at hmem
  induction t with
  | nil =>
    cases rest with
    | nil => simp
    | cons c rest =>
      have hc := h c rfl
      simp [h.not_isDigit 10 c rfl, hc.2]
  | cons c t ih =>
    rw [List.cons_append, List.dropWhile_cons]
    split
    · exact ih fun x hx => hmem x (List.mem_cons_of_mem _ hx)
    · simpa using hmem c List.mem_cons_self

/-- Where a sequence of groups ends: at the end of the text or at `::`. -/
def StopsGroups (rest : Bytes) : Prop := rest = [] ∨ ∃ t, rest = byte ':' :: byte ':' :: t

theorem stopsNumber_colon (t : Bytes) : StopsNumber (byte ':' :: t) := by
  rintro c hc
  cases hc
  decide

theorem StopsGroups.stopsNumber {rest : Bytes} (h : StopsGroups rest) : StopsNumber rest := by
  rcases h with rfl | ⟨t, rfl⟩
  · rintro c hc
    cases hc
  · exact stopsNumber_colon _

theorem stopsNumber_fmtTail (gs : List Nat) {rest : Bytes} (h : StopsGroups rest) :
    StopsNumber (fmtTail gs ++ rest) := by
  cases gs with
  | nil => exact h.stopsNumber
  | cons g gs => exact stopsNumber_colon _

theorem readNumber_colon (t : Bytes) : readNumber 16 4 65536 true (byte ':' :: t) = none := by
  have : isDigit 16 (byte ':') = false := by decide
  simp [readNumber, this]

theorem readIpv4Addr_colon (t : Bytes) : readIpv4Addr (byte ':' :: t) = none := by
  have hdigit : isDigit 10 (byte ':') = false := by decide
  have hdot : byte ':' ≠ byte '.' := by decide
  apply readIpv4Addr_eq_none
  simpa [hdigit] using hdot

/-- No group starts where the groups end. -/
theorem readGroups_stop (n i : Nat) {rest : Bytes} (h : StopsGroups rest) :
    readGroups n i rest = ([], false, rest) := by
  cases n with
  | zero => rfl
  | succ n =>
    have hv4 : readSeparator (byte ':') i readIpv4Addr rest = none := by
      rcases h with rfl | ⟨t, rfl⟩
      · unfold readSeparator
        split
        · rfl
        · rfl
      · unfold readSeparator
        split
        · exact readIpv4Addr_colon _
        · simpa using readIpv4Addr_colon t
    have hnum : readSeparator (byte ':') i (readNumber 16 4 65536 true) rest = none := by
      rcases h with rfl | ⟨t, rfl⟩
      · unfold readSeparator
        split
        · rfl
        · rfl
      · unfold readSeparator
        split
        · exact readNumber_colon _
        · simpa using readNumber_colon t
    simp only [readGroups, hv4, hnum, ite_self]

theorem readGroups_fmtTail (gs : List Nat) (n i : Nat) (hn : gs.length ≤ n) (hi : 0 < i)
    (hgs : ∀ g ∈ gs, g < 65536) {rest : Bytes} (h : StopsGroups rest) :
    readGroups n i (fmtTail gs ++ rest) = (gs, false, rest) := by
  induction gs generalizing n i with
  | nil => exact readGroups_stop n i h
  | cons g gs ih =>
    obtain ⟨m, rfl⟩ : ∃ m, n = m + 1 := ⟨n - 1, by simp at hn; omega⟩
    have hi' : i ≠ 0 := by omega
    have hstop := stopsNumber_fmtTail gs h
    have hg : g < 65536 := hgs g List.mem_cons_self
    have hrec := ih m (i + 1) (by simpa using hn) (by omega)
      fun x hx => hgs x (List.mem_cons_of_mem _ hx)
    have htext : fmtTail (g :: gs) ++ rest = byte ':' :: (hex g ++ (fmtTail gs ++ rest)) := by
      simp [fmtTail]
    simp only [htext, readGroups, readSeparator, hi', if_false, if_true, readIpv4Addr_hex g hstop,
      readNumber_hex hg hstop, hrec, ite_self]

/-- Groups are read back up to where they end. -/
theorem readGroups_fmtSubslice (gs : List Nat) (n : Nat) (hn : gs.length ≤ n)
    (hgs : ∀ g ∈ gs, g < 65536) {rest : Bytes} (h : StopsGroups rest) :
    readGroups n 0 (fmtSubslice gs ++ rest) = (gs, false, rest) := by
  cases gs with
  | nil => exact readGroups_stop n 0 h
  | cons g gs =>
    obtain ⟨m, rfl⟩ : ∃ m, n = m + 1 := ⟨n - 1, by simp at hn; omega⟩
    have hstop := stopsNumber_fmtTail gs h
    have hg : g < 65536 := hgs g List.mem_cons_self
    have hrec := readGroups_fmtTail gs m 1 (by simpa using hn) (by norm_num)
      (fun x hx => hgs x (List.mem_cons_of_mem _ hx)) h
    simp only [fmtSubslice, List.append_assoc, readGroups, readSeparator, if_true,
      readIpv4Addr_hex g hstop, readNumber_hex hg hstop, hrec, ite_self, Nat.zero_add]

/-! ## The round trip -/

/-- The segments of a span are zero. -/
def ZeroSpan (gs : List Nat) (z : Span) : Prop :=
  ∃ front back, gs = front ++ List.replicate z.len 0 ++ back ∧ (0 < z.len → front.length = z.start)

theorem ZeroSpan.append {gs : List Nat} {z : Span} (h : ZeroSpan gs z) (t : List Nat) :
    ZeroSpan (gs ++ t) z := by
  obtain ⟨front, back, rfl, hstart⟩ := h
  exact ⟨front, back ++ t, by simp, hstart⟩

/-- The scan keeps two runs of the segments it has passed: the one that ends there and the longest
one. -/
theorem longestZeros_zeroSpan (done gs : List Nat) (current longest : Span)
    (hcur : ∃ front, done = front ++ List.replicate current.len 0 ∧
      (0 < current.len → front.length = current.start))
    (hlong : ZeroSpan done longest) :
    ZeroSpan (done ++ gs) (longestZeros done.length current longest gs) := by
  induction gs generalizing done current longest with
  | nil => simpa [longestZeros] using hlong
  | cons g gs ih =>
    have hsplit : done ++ g :: gs = (done ++ [g]) ++ gs := by simp
    have hlen : done.length + 1 = (done ++ [g]).length := by simp
    unfold longestZeros
    rw [hsplit, hlen]
    split
    -- a zero extends the run that ends here, or starts one
    · next hg =>
      subst hg
      obtain ⟨front, hdone, hstart⟩ := hcur
      have hcur' : ∃ front, done ++ [0] = front ++ List.replicate (current.len + 1) 0 ∧
          front.length = if current.len = 0 then done.length else current.start := by
        refine ⟨front, ?_, ?_⟩
        · rw [List.replicate_succ', ← List.append_assoc, ← hdone]
        · split
          · next h0 => rw [hdone, h0]; simp
          · next h0 => exact hstart (by omega)
      refine ih (done ++ [0]) _ _ ?_ ?_
      · obtain ⟨front, h₁, h₂⟩ := hcur'
        exact ⟨front, h₁, fun _ => h₂⟩
      · obtain ⟨front, h₁, h₂⟩ := hcur'
        generalize (if current.len = 0 then done.length else current.start) = start at h₂ ⊢
        split
        · exact ⟨front, [], by simpa using h₁, fun _ => h₂⟩
        · exact hlong.append [0]
    -- any other segment ends the run
    · exact ih (done ++ [g]) _ _ ⟨done ++ [g], by simp, by simp⟩ (hlong.append [g])

theorem toIpv4Mapped_eq_some {gs : List Nat} {g h : Nat} (he : toIpv4Mapped gs = some (g, h)) :
    gs = [0, 0, 0, 0, 0, 0xffff, g, h] := by
  unfold toIpv4Mapped at he
  split at he
  · cases he
    rfl
  · cases he

/-- The mixed form of an IPv4-mapped address is read back. -/
theorem readIpv6Addr_mapped {g h : Nat} (hg : g < 65536) (hh : h < 65536) :
    readIpv6Addr (ascii "::ffff:" ++ fmtIpv4 g h) = some ([0, 0, 0, 0, 0, 0xffff, g, h], []) := by
  have htext : ascii "::ffff:" ++ fmtIpv4 g h =
      byte ':' :: byte ':' :: (hex 0xffff ++ byte ':' :: fmtIpv4 g h) := by
    have hffff : hex 0xffff = ascii "ffff" := by decide
    rw [hffff]
    rfl
  have hhead := readGroups_stop 8 0
    (Or.inr ⟨hex 0xffff ++ byte ':' :: fmtIpv4 g h, rfl⟩)
  have hstop := stopsNumber_colon (fmtIpv4 g h)
  have hgh : g / 256 * 256 + g % 256 = g ∧ h / 256 * 256 + h % 256 = h := by omega
  have htail : readGroups 7 0 (hex 0xffff ++ byte ':' :: fmtIpv4 g h) =
      ([0xffff, g, h], true, []) := by
    simp only [readGroups, readSeparator, readIpv4Addr_hex 0xffff hstop,
      readNumber_hex (g := 0xffff) (by norm_num) hstop, readIpv4Addr_fmtIpv4 hg hh, hgh,
      if_true, Nat.zero_add, Nat.one_ne_zero, if_false, Nat.zero_lt_succ]
  rw [htext]
  simp only [readIpv6Addr, hhead, List.length_nil, Nat.reduceSub, htail]
  simp [List.replicate]

/-- The text of segments is read back. -/
theorem readIpv6Addr_displaySegments {gs : List Nat} (hlen : gs.length = 8)
    (hlt : ∀ g ∈ gs, g < 65536) : readIpv6Addr (displaySegments gs) = some (gs, []) := by
  unfold displaySegments
  cases hmapped : toIpv4Mapped gs with
  | some p =>
    obtain ⟨g, h⟩ := p
    obtain rfl := toIpv4Mapped_eq_some hmapped
    simp only [List.mem_cons, List.not_mem_nil, or_false, forall_eq_or_imp, forall_eq] at hlt
    exact readIpv6Addr_mapped hlt.2.2.2.2.2.2.1 hlt.2.2.2.2.2.2.2
  | none =>
    -- the scan starts with two empty runs
    have hspan :=
      longestZeros_zeroSpan [] gs ⟨0, 0⟩ ⟨0, 0⟩ ⟨[], rfl, by simp⟩ ⟨[], [], rfl, by simp⟩
    simp only [List.nil_append, List.length_nil] at hspan
    generalize longestZeros 0 ⟨0, 0⟩ ⟨0, 0⟩ gs = z at hspan
    simp only
    split
    · next hz =>
      -- the two halves are read up to the double colon and up to the end
      obtain ⟨front, back, hgs, hstart⟩ := hspan
      have hstart := hstart (by omega)
      have htotal : front.length + z.len + back.length = 8 := by
        rw [← hlen, hgs]
        simp [Nat.add_assoc]
      have hfront : gs.take z.start = front := by rw [hgs, ← hstart]; simp
      have hback : gs.drop (z.start + z.len) = back := by rw [hgs, ← hstart]; simp
      have hltf : ∀ g ∈ front, g < 65536 := fun g hg => hlt g (by rw [hgs]; simp [hg])
      have hltb : ∀ g ∈ back, g < 65536 := fun g hg => hlt g (by rw [hgs]; simp [hg])
      have hcolons : ascii "::" ++ fmtSubslice back =
          byte ':' :: byte ':' :: fmtSubslice back := rfl
      have hread := readGroups_fmtSubslice front 8 (by omega) hltf (Or.inr ⟨fmtSubslice back, rfl⟩)
      have htail := readGroups_fmtSubslice back (8 - (front.length + 1)) (by omega) hltb
        (Or.inl rfl)
      rw [List.append_nil] at htail
      have hzeros : 8 - front.length - back.length = z.len := by omega
      have hne : front.length ≠ 8 := by omega
      rw [hfront, hback, List.append_assoc, hcolons]
      simp only [readIpv6Addr, hread, htail, hne, if_false, Bool.false_eq_true, and_self, if_true,
        hzeros]
      rw [hgs]
    · have hread := readGroups_fmtSubslice gs 8 (by omega) hlt (Or.inl rfl)
      rw [List.append_nil] at hread
      simp only [readIpv6Addr, hread, hlen, if_true]

/-- The text of an address is read back. -/
theorem parse_display (a : Ipv6Addr) : parse (display a) = some a := by
  have hread := readIpv6Addr_displaySegments a.length_eq a.segment_lt
  unfold parse display
  split
  · next gs h =>
    rw [hread] at h
    cases h
    rfl
  · next hno => exact absurd hread (hno _)

theorem display_injective : Function.Injective display := by
  intro a b h
  have ha := parse_display a
  rw [h, parse_display b] at ha
  exact (Option.some.inj ha).symm

/-! ## The bytes of a text -/

/-- The bytes an address is written with. -/
def isAddrByte (c : UInt8) : Bool := (digitValue c).isSome || c = byte ':' || c = byte '.'

theorem isAddrByte_of_mem_numeral {b n : Nat} (hb : 1 < b) (hb' : b ≤ 16) {c : UInt8}
    (hc : c ∈ numeral b n) : isAddrByte c = true := by
  obtain ⟨d, hd, rfl⟩ := mem_numeral hb hc
  simp [isAddrByte, digitValue_digitByte (show d < 16 by omega)]

theorem isAddrByte_of_mem_fmtSubslice {gs : List Nat} {c : UInt8} (hc : c ∈ fmtSubslice gs) :
    isAddrByte c = true := by
  cases gs with
  | nil => cases hc
  | cons g gs =>
    simp only [fmtSubslice, fmtTail, List.mem_append, List.mem_flatMap, List.mem_cons] at hc
    rcases hc with hc | ⟨h, -, rfl | hc⟩
    · exact isAddrByte_of_mem_numeral (by norm_num) (by norm_num) hc
    · decide
    · exact isAddrByte_of_mem_numeral (by norm_num) (by norm_num) hc

theorem isAddrByte_of_mem_display {a : Ipv6Addr} {c : UInt8} (hc : c ∈ display a) :
    isAddrByte c = true := by
  have hcolons : ∀ c ∈ ascii "::", isAddrByte c = true := by decide +kernel
  have hmixed : ∀ c ∈ ascii "::ffff:", isAddrByte c = true := by decide +kernel
  have hdot : isAddrByte (byte '.') = true := by decide
  have hnum : ∀ n, ∀ c ∈ decimal n, isAddrByte c = true := fun n c hc =>
    isAddrByte_of_mem_numeral (by norm_num) (by norm_num) hc
  simp only [display, displaySegments] at hc
  split at hc
  · simp only [fmtIpv4, List.mem_append, List.mem_cons] at hc
    rcases hc with hc | hc | rfl | hc | rfl | hc | rfl | hc
    · exact hmixed c hc
    all_goals first | exact hdot | exact hnum _ c hc
  · split at hc
    · simp only [List.mem_append] at hc
      rcases hc with (hc | hc) | hc
      · exact isAddrByte_of_mem_fmtSubslice hc
      · exact hcolons c hc
      · exact isAddrByte_of_mem_fmtSubslice hc
    · exact isAddrByte_of_mem_fmtSubslice hc

/-! ## The length of a text -/

theorem length_fmtSubslice_le {gs : List Nat} (h : ∀ g ∈ gs, g < 65536) :
    (fmtSubslice gs).length ≤ 5 * gs.length := by
  have hhex : ∀ g, g < 65536 → (hex g).length ≤ 4 := fun g hg =>
    length_numeral_le (by norm_num) (by norm_num) (by omega)
  have htail : ∀ gs : List Nat, (∀ g ∈ gs, g < 65536) → (fmtTail gs).length ≤ 5 * gs.length := by
    intro gs
    induction gs with
    | nil =>
      intro _
      exact Nat.le_refl _
    | cons g gs ih =>
      intro h
      have hg := hhex g (h g List.mem_cons_self)
      have hgs := ih fun g' hg' => h g' (List.mem_cons_of_mem _ hg')
      simp only [fmtTail, List.flatMap_cons, List.length_append, List.length_cons] at hgs ⊢
      omega
  cases gs with
  | nil => exact Nat.zero_le _
  | cons g gs =>
    have hg := hhex g (h g List.mem_cons_self)
    have hgs := htail gs fun g' hg' => h g' (List.mem_cons_of_mem _ hg')
    simp only [fmtSubslice, List.length_append, List.length_cons]
    omega

theorem length_fmtIpv4_le {g h : Nat} (hg : g < 65536) (hh : h < 65536) :
    (fmtIpv4 g h).length ≤ 15 := by
  have hdec : ∀ n, n < 256 → (decimal n).length ≤ 3 := fun n hn =>
    length_numeral_le (by norm_num) (by norm_num) (by omega)
  have h₁ := hdec (g / 256) (by omega)
  have h₂ := hdec (g % 256) (by omega)
  have h₃ := hdec (h / 256) (by omega)
  have h₄ := hdec (h % 256) (by omega)
  simp only [fmtIpv4, List.length_append, List.length_cons]
  omega

theorem length_display_le (a : Ipv6Addr) : (display a).length ≤ 42 := by
  have hlt := a.segment_lt
  have hlen := a.length_eq
  simp only [display, displaySegments]
  split
  · next g h hmapped =>
    have hgs := toIpv4Mapped_eq_some hmapped
    have hg : g < 65536 := hlt g (by rw [hgs]; simp)
    have hh : h < 65536 := hlt h (by rw [hgs]; simp)
    have hfmt := length_fmtIpv4_le hg hh
    have hmixed : (ascii "::ffff:").length = 7 := by decide
    rw [List.length_append]
    omega
  · split
    · generalize (longestZeros 0 ⟨0, 0⟩ ⟨0, 0⟩ a.segments).start = start
      generalize (longestZeros 0 ⟨0, 0⟩ ⟨0, 0⟩ a.segments).len = len
      have hfront := length_fmtSubslice_le fun g hg => hlt g (List.mem_of_mem_take (i := start) hg)
      have hback := length_fmtSubslice_le fun g hg =>
        hlt g (List.mem_of_mem_drop (i := start + len) hg)
      have hcolons : (ascii "::").length = 2 := by decide
      simp only [List.length_append, List.length_take, List.length_drop] at hfront hback ⊢
      omega
    · have := length_fmtSubslice_le hlt
      omega

end Ipv6Addr

end Keylix.Lib
