import Keylix.Dpop.Request

/-!
# What normalisation computes

Each normalising function of the request target in terms of the structure of its input:
`normalizePercentEncoding` maps over the tokens of a component, `normalizeRegNameHost` folds their
case as well, and `removeDotSegments` resolves the list of segments of a path with a stack.
-/

set_option autoImplicit false

namespace Keylix.Dpop

open Keylix.Lib Keylix.Lib.PctToken

/-! ## Percent-encoding -/

/-- The tokens of a component after the escapes of unreserved characters are decoded. -/
def decodedTokens (s : Bytes) : Option (List PctToken) :=
  (tokens s).map (List.map (decode isUnreserved))

theorem hexValue_eq (b : UInt8) : hexValue b = (digitValue b).map UInt8.ofNat := by
  revert b
  decide +kernel

theorem hexUpper_eq {d : Nat} (h : d < 16) : hexUpper (UInt8.ofNat d) = upperDigit d := by
  revert d
  decide

theorem shift_or_eq {d e : Nat} (hd : d < 16) (he : e < 16) :
    UInt8.ofNat d <<< 4 ||| UInt8.ofNat e = UInt8.ofNat (d * 16 + e) := by
  have key : ∀ d < 16, ∀ e < 16,
      UInt8.ofNat d <<< 4 ||| UInt8.ofNat e = UInt8.ofNat (d * 16 + e) := by decide
  exact key d hd e he

theorem digitValue_lt {b : UInt8} {d : Nat} (h : digitValue b = some d) : d < 16 := by
  have key : ∀ b : UInt8, ∀ d ∈ digitValue b, d < 16 := by decide +kernel
  exact key b d h

/-- Percent-encoding is normalised token by token. -/
theorem normalizePercentEncoding_eq (s : Bytes) :
    normalizePercentEncoding s =
      match decodedTokens s with
      | some ts => .ok (text ts)
      | none => .error .invalidRequestTarget := by
  unfold decodedTokens
  induction s using tokens.induct with
  | case1 => rfl
  | case2 h l rest high low hl hh ih =>
    have hhigh := digitValue_lt hh
    have hlow := digitValue_lt hl
    rw [tokens_esc hh hl, normalizePercentEncoding.eq_def]
    simp only [ne_eq, not_true_eq_false, if_false, hexValue_eq, hh, hl, Option.map_some, ih,
      shift_or_eq hhigh hlow, hexUpper_eq hhigh, hexUpper_eq hlow]
    cases tokens rest with
    | none => rfl
    | some us =>
      -- the byte of two digits gives the digits back
      have hnat : (UInt8.ofNat (high * 16 + low)).toNat = high * 16 + low := by
        simp only [UInt8.toNat_ofNat']
        omega
      have hdiv : (high * 16 + low) / 16 = high := by omega
      have hmod : (high * 16 + low) % 16 = low := by omega
      simp only [Option.map_some, Except.map, List.map_cons, decode]
      split
      · rfl
      · simp only [text, List.flatMap_cons, tokenText, hnat, hdiv, hmod, List.cons_append,
          List.nil_append]
  -- the code fails on the first character that is no digit, the tokens on either one
  | case3 h l rest hno =>
    have hnone : tokens (byte '%' :: h :: l :: rest) = none := by
      rw [tokens.eq_def]
      simp only [if_true]
    rw [hnone, normalizePercentEncoding.eq_def]
    simp only [ne_eq, not_true_eq_false, if_false, hexValue_eq, Option.map_none]
    cases hh : digitValue h with
    | none => rfl
    | some high =>
      cases hl : digitValue l with
      | none => rfl
      | some low => exact absurd hl (hno high low hh)
  -- an escape that is cut off
  | case4 rest hno =>
    cases rest with
    | nil => rfl
    | cons d rest =>
      cases rest with
      | nil => rfl
      | cons e rest => exact absurd rfl (hno d e rest)
  | case5 b rest hb ih =>
    rw [tokens_lit hb, normalizePercentEncoding.eq_def]
    simp only [ne_eq, hb, not_false_eq_true, if_true, ih]
    cases tokens rest with
    | none => rfl
    | some us => rfl

theorem normalizePercentEncoding_ok_iff {s t : Bytes} :
    normalizePercentEncoding s = .ok t ↔ ∃ ts, decodedTokens s = some ts ∧ t = text ts := by
  rw [normalizePercentEncoding_eq]
  cases decodedTokens s with
  | none => simp
  | some ts => simp [eq_comm]

theorem isUnreserved_ne_percent {b : UInt8} (h : isUnreserved b = true) : b ≠ byte '%' := by
  rintro rfl
  exact absurd h (by decide)

theorem decode_idem (t : PctToken) :
    decode isUnreserved (decode isUnreserved t) = decode isUnreserved t := by
  cases t with
  | lit b => rfl
  | esc v => by_cases hv : isUnreserved v = true <;> simp [decode, hv]

theorem decode_ne_percent {t : PctToken} (h : t ≠ lit (byte '%')) :
    decode isUnreserved t ≠ lit (byte '%') := by
  cases t with
  | lit b => exact h
  | esc v =>
    by_cases hv : isUnreserved v = true
    · simpa [decode, hv] using isUnreserved_ne_percent hv
    · simp [decode, hv]

/-- What decoding leaves. -/
theorem decodedTokens_spec {s : Bytes} {ts : List PctToken} (h : decodedTokens s = some ts) :
    ∀ t ∈ ts, t ≠ lit (byte '%') ∧ decode isUnreserved t = t := by
  obtain ⟨us, hus, rfl⟩ := Option.map_eq_some_iff.1 h
  intro t ht
  obtain ⟨u, hu, rfl⟩ := List.mem_map.1 ht
  exact ⟨decode_ne_percent (ne_percent_of_tokens hus u hu), decode_idem u⟩

/-- The bytes that decoding leaves as they are come from the text or are unreserved. -/
theorem mem_or_unreserved_of_decodedTokens {s : Bytes} {ts : List PctToken}
    (h : decodedTokens s = some ts) {b : UInt8} (hb : lit b ∈ ts) :
    b ∈ s ∨ isUnreserved b = true := by
  obtain ⟨us, hus, rfl⟩ := Option.map_eq_some_iff.1 h
  obtain ⟨u, hu, he⟩ := List.mem_map.1 hb
  cases u with
  | lit c =>
    cases he
    exact Or.inl (mem_of_lit_mem hus hu)
  | esc v =>
    by_cases hv : isUnreserved v = true
    · simp only [decode, hv, if_true, lit.injEq] at he
      subst he
      exact Or.inr hv
    · simp [decode, hv] at he

/-- A component in normal form. -/
def PctNormal (s : Bytes) : Prop :=
  ∃ ts, tokens s = some ts ∧ text ts = s ∧ ∀ t ∈ ts, decode isUnreserved t = t

theorem pctNormal_text {ts : List PctToken}
    (h : ∀ t ∈ ts, t ≠ lit (byte '%') ∧ decode isUnreserved t = t) : PctNormal (text ts) :=
  ⟨ts, tokens_text fun t ht => (h t ht).1, rfl, fun t ht => (h t ht).2⟩

theorem PctNormal.decodedTokens {s : Bytes} (h : PctNormal s) :
    ∃ ts, decodedTokens s = some ts ∧ text ts = s := by
  obtain ⟨ts, hts, htext, hdec⟩ := h
  refine ⟨ts, ?_, htext⟩
  rw [Dpop.decodedTokens, hts, Option.map_some, List.map_congr_left hdec, List.map_id']

theorem PctNormal.normalizePercentEncoding {s : Bytes} (h : PctNormal s) :
    normalizePercentEncoding s = .ok s := by
  obtain ⟨ts, hts, htext⟩ := h.decodedTokens
  exact normalizePercentEncoding_ok_iff.2 ⟨ts, hts, htext.symm⟩

theorem length_text_of_tokens {s : Bytes} {ts : List PctToken} (h : tokens s = some ts) :
    (text ts).length = s.length := by
  induction ts generalizing s with
  | nil =>
    rcases tokens_cases h with ⟨rfl, -⟩ | ⟨_, _, _, _, _, _, he⟩ |
      ⟨_, _, _, _, _, _, _, _, _, _, he⟩
    · rfl
    · cases he
    · cases he
  | cons t ts ih =>
    rcases tokens_cases h with ⟨-, he⟩ | ⟨b, rest, us, rfl, -, hus, he⟩ |
      ⟨d, e, high, low, rest, us, rfl, -, -, hus, he⟩
    · cases he
    · cases he
      simpa [text, tokenText] using ih hus
    · cases he
      have := ih hus
      simp only [text, List.flatMap_cons, tokenText, List.length_append, List.length_cons,
        List.length_nil] at this ⊢
      omega

/-- A slash cuts a component in normal form into two. -/
theorem pctNormal_append_slash {s t : Bytes} :
    PctNormal (s ++ byte '/' :: t) ↔ PctNormal s ∧ PctNormal t := by
  have hslash : digitValue (byte '/') = none ∧ byte '/' ≠ byte '%' := by decide
  have htokens := tokens_append_cons hslash.1 hslash.2 s t
  constructor
  · rintro ⟨ts, hts, htext, hdec⟩
    rw [htokens, Option.bind_eq_some_iff] at hts
    obtain ⟨us, hus, hts⟩ := hts
    obtain ⟨vs, hvs, rfl⟩ := Option.map_eq_some_iff.1 hts
    have hcut : text us ++ byte '/' :: text vs = s ++ byte '/' :: t := by
      rw [← htext, text_append]
      rfl
    obtain ⟨hs, ht⟩ := List.append_inj hcut (length_text_of_tokens hus)
    refine ⟨⟨us, hus, hs, fun u hu => hdec u (by simp [hu])⟩,
      ⟨vs, hvs, (List.cons.inj ht).2, fun v hv => hdec v (by simp [hv])⟩⟩
  · rintro ⟨⟨us, hus, hs, hdecu⟩, ⟨vs, hvs, ht, hdecv⟩⟩
    refine ⟨us ++ lit (byte '/') :: vs, ?_, ?_, ?_⟩
    · rw [htokens, hus, hvs]
      rfl
    · rw [text_append, hs]
      show s ++ byte '/' :: text vs = _
      rw [ht]
    · intro u hu
      rcases List.mem_append.1 hu with hu | hu
      · exact hdecu u hu
      · rcases List.mem_cons.1 hu with rfl | hu
        · rfl
        · exact hdecv u hu

theorem pctNormal_nil : PctNormal [] := ⟨[], rfl, rfl, by simp⟩

/-- A path is in normal form when its segments are. -/
theorem pctNormal_joinSegments {segs : List Bytes} :
    PctNormal (joinSegments segs) ↔ ∀ s ∈ segs, PctNormal s := by
  have hcons : ∀ t, PctNormal (byte '/' :: t) ↔ PctNormal t := fun t => by
    simpa [pctNormal_nil] using pctNormal_append_slash (s := []) (t := t)
  induction segs with
  | nil => simp [joinSegments, pctNormal_nil]
  | cons s segs ih =>
    rw [joinSegments_cons, hcons, List.forall_mem_cons]
    refine Iff.trans ?_ (and_congr_right' ih)
    cases segs with
    | nil => simp [joinSegments, pctNormal_nil]
    | cons t segs => rw [joinSegments_cons, pctNormal_append_slash, hcons]

/-! ## Host names -/

/-- The tokens of a host name: decoded, and with the letters in lower case. -/
def hostTokens (rawHost : Bytes) : Option (List PctToken) :=
  (decodedTokens rawHost).map (List.map foldCase)

theorem foldCase_idem (t : PctToken) : foldCase (foldCase t) = foldCase t := by
  cases t with
  | lit b => simp [foldCase, toAsciiLower_idem]
  | esc v => rfl

theorem foldCase_ne_percent {t : PctToken} (h : t ≠ lit (byte '%')) :
    foldCase t ≠ lit (byte '%') := by
  have key : ∀ b : UInt8, toAsciiLower b = byte '%' → b = byte '%' := by decide +kernel
  cases t with
  | lit b =>
    intro he
    simp only [foldCase, lit.injEq] at he
    exact h (by rw [key b he])
  | esc v => simp [foldCase]

theorem decode_foldCase {t : PctToken} (h : decode isUnreserved t = t) :
    decode isUnreserved (foldCase t) = foldCase t := by
  cases t with
  | lit b => rfl
  | esc v => exact h

/-- What the two passes over a host name compute. -/
theorem normalizeRegNameHost_eq (rawHost : Bytes) :
    normalizeRegNameHost rawHost =
      match hostTokens rawHost with
      | some ts => .ok (text ts)
      | none => .error .invalidRequestTarget := by
  unfold normalizeRegNameHost hostTokens
  rw [normalizePercentEncoding_eq]
  cases hdec : decodedTokens rawHost with
  | none => rfl
  | some ts =>
    have hspec := decodedTokens_spec hdec
    have hlow : decodedTokens (toAsciiLowercase (text ts)) = some (ts.map foldCase) := by
      rw [decodedTokens, tokens_toAsciiLowercase_text fun t ht => (hspec t ht).1, Option.map_some,
        List.map_map]
      refine congrArg some (List.map_congr_left fun t ht => ?_)
      exact decode_foldCase (hspec t ht).2
    show normalizePercentEncoding (toAsciiLowercase (text ts)) = _
    rw [normalizePercentEncoding_eq, hlow]
    rfl

/-- A token of a normalised host name. -/
def HostToken (t : PctToken) : Prop :=
  t ≠ lit (byte '%') ∧ decode isUnreserved t = t ∧ foldCase t = t

theorem hostTokens_spec {rawHost : Bytes} {ts : List PctToken} (h : hostTokens rawHost = some ts) :
    ∀ t ∈ ts, HostToken t := by
  obtain ⟨us, hus, rfl⟩ := Option.map_eq_some_iff.1 h
  intro t ht
  obtain ⟨u, hu, rfl⟩ := List.mem_map.1 ht
  obtain ⟨hpercent, hdec⟩ := decodedTokens_spec hus u hu
  exact ⟨foldCase_ne_percent hpercent, decode_foldCase hdec, foldCase_idem u⟩

/-- A normalised host name is left as it is. -/
theorem hostTokens_text {ts : List PctToken} (h : ∀ t ∈ ts, HostToken t) :
    hostTokens (text ts) = some ts := by
  have hdec : decodedTokens (text ts) = some ts := by
    rw [decodedTokens, tokens_text fun t ht => (h t ht).1, Option.map_some,
      List.map_congr_left fun t ht => (h t ht).2.1, List.map_id']
  rw [hostTokens, hdec, Option.map_some, List.map_congr_left fun t ht => (h t ht).2.2, List.map_id']

/-! ## Dot segments -/

theorem removeLastSegment_joinSegments {segs : List Bytes} (h : ∀ s ∈ segs, byte '/' ∉ s) :
    removeLastSegment (joinSegments segs) = joinSegments segs.dropLast := by
  rcases List.eq_nil_or_concat segs with rfl | ⟨init, s, rfl⟩
  · rfl
  · have hs : ∀ c ∈ s.reverse, decide (c ≠ byte '/') = true := by
      intro c hc
      have : c ≠ byte '/' := fun he => h s (by simp) (he ▸ List.mem_reverse.1 hc)
      simpa using this
    have hjoin : (joinSegments (init ++ [s])).reverse =
        s.reverse ++ byte '/' :: (joinSegments init).reverse := by
      rw [joinSegments_append]
      simp [joinSegments]
    rw [List.concat_eq_append, removeLastSegment, hjoin, List.dropWhile_append_of_pos hs]
    simp

/-- The first segment of a path with its slash. -/
theorem firstSegmentEnd_joinSegments {s : Bytes} (segs : List Bytes) (hs : byte '/' ∉ s) :
    (joinSegments (s :: segs)).take (firstSegmentEnd (joinSegments (s :: segs))) = byte '/' :: s ∧
      (joinSegments (s :: segs)).drop (firstSegmentEnd (joinSegments (s :: segs))) =
        joinSegments segs := by
  have hend : firstSegmentEnd (joinSegments (s :: segs)) = s.length + 1 := by
    rw [joinSegments_cons, firstSegmentEnd, List.head?_cons, if_pos rfl, List.tail_cons]
    cases segs with
    | nil =>
      have hnone : (s ++ joinSegments []).findIdx? (· = byte '/') = none := by
        rw [List.findIdx?_eq_none_iff]
        intro c hc
        have hc' : c ∈ s := by simpa [joinSegments] using hc
        have : c ≠ byte '/' := fun he => hs (he ▸ hc')
        simpa using this
      rw [hnone]
      simp [joinSegments]
    | cons t segs => rw [joinSegments_cons, findIdx?_append_cons hs]
  rw [hend, joinSegments_cons]
  simp

/-- A prefix that ends with a slash is a first segment. -/
theorem isPrefixOf_joinSegments {p s : Bytes} {segs : List Bytes} (hp : byte '/' ∉ p)
    (hs : byte '/' ∉ s) :
    (byte '/' :: (p ++ [byte '/'])).isPrefixOf (joinSegments (s :: segs)) = true ↔
      s = p ∧ segs ≠ [] := by
  rw [List.isPrefixOf_iff_prefix, joinSegments_cons, List.cons_prefix_cons]
  constructor
  · rintro ⟨-, rest, hrest⟩
    have hfind := findIdx?_append_cons hp rest
    have htext : p ++ byte '/' :: rest = s ++ joinSegments segs := by simpa using hrest
    cases segs with
    | nil =>
      have hmem : byte '/' ∈ p ++ byte '/' :: rest := by simp
      rw [htext] at hmem
      exact absurd (by simpa [joinSegments] using hmem) hs
    | cons t segs =>
      rw [joinSegments_cons] at htext
      rw [htext, findIdx?_append_cons hs] at hfind
      have hlen : s.length = p.length := Option.some.inj hfind
      exact ⟨(List.append_inj htext hlen.symm).1.symm, by simp⟩
  · rintro ⟨rfl, hne⟩
    cases segs with
    | nil => exact absurd rfl hne
    | cons t segs =>
      refine ⟨rfl, t ++ joinSegments segs, ?_⟩
      rw [joinSegments_cons]
      simp

theorem joinSegments_eq_single {p s : Bytes} {segs : List Bytes} (hp : byte '/' ∉ p) :
    joinSegments (s :: segs) = byte '/' :: p ↔ s = p ∧ segs = [] := by
  constructor
  · intro h
    cases segs with
    | nil =>
      rw [joinSegments_cons] at h
      exact ⟨by simpa [joinSegments] using h, rfl⟩
    | cons t segs =>
      rw [joinSegments_cons, joinSegments_cons] at h
      have hmem : byte '/' ∈ p := by
        rw [← (List.cons.inj h).2]
        simp
      exact absurd hmem hp
  · rintro ⟨rfl, rfl⟩
    simp [joinSegments]

/-- The segments that remain after the first: a dot segment at the end leaves an empty one. -/
def remainingSegments (s : Bytes) (segs : List Bytes) : List Bytes :=
  if (s = dot ∨ s = dotDot) ∧ segs = [] then [[]] else segs

theorem resolveSegments_cons (out : List Bytes) (s : Bytes) (segs : List Bytes) :
    resolveSegments out (s :: segs) =
      resolveSegments (pushSegment out s) (remainingSegments s segs) := by
  cases segs with
  | nil =>
    by_cases hs : s = dot ∨ s = dotDot
    · simp [resolveSegments, closeSegments, remainingSegments, hs, pushSegment]
    · simp [resolveSegments, closeSegments, remainingSegments, hs]
  | cons t segs => simp [resolveSegments, remainingSegments]

/-- No text that starts with something else than a slash is a prefix of a path. -/
theorem isPrefixOf_joinSegments_of_ne_slash {c : UInt8} (hc : c ≠ byte '/') (p s : Bytes)
    (segs : List Bytes) : (c :: p).isPrefixOf (joinSegments (s :: segs)) = false := by
  rw [joinSegments_cons]
  simp [List.isPrefixOf, hc]

/-- A round on a path whose first segment is a dot segment. -/
theorem removeDotSegmentsLoop_dot (n : Nat) {out : List Bytes} (hout : ∀ t ∈ out, byte '/' ∉ t)
    {s : Bytes} (hs : s = dot ∨ s = dotDot) (segs : List Bytes) :
    removeDotSegmentsLoop (n + 1) (joinSegments (s :: segs)) (joinSegments out) =
      removeDotSegmentsLoop n (joinSegments (remainingSegments s segs))
        (joinSegments (pushSegment out s)) := by
  have hempty : (joinSegments (s :: segs)).isEmpty = false := rfl
  -- a path starts with a slash, so that the two relative prefixes do not match
  have h₁ : (ascii "../").isPrefixOf (joinSegments (s :: segs)) = false :=
    isPrefixOf_joinSegments_of_ne_slash (by decide) _ s segs
  have h₂ : (ascii "./").isPrefixOf (joinSegments (s :: segs)) = false :=
    isPrefixOf_joinSegments_of_ne_slash (by decide) _ s segs
  simp only [removeDotSegmentsLoop, hempty, h₁, h₂, Bool.false_eq_true, if_false]
  rcases hs with rfl | rfl
  · cases segs with
    | nil => rfl
    | cons t segs =>
      have h₃ : (ascii "/./").isPrefixOf (joinSegments (dot :: t :: segs)) = true := rfl
      rw [h₃, if_pos rfl]
      simp only [remainingSegments, pushSegment, if_true, reduceCtorEq, and_false, if_false]
      rfl
  · have hlast := removeLastSegment_joinSegments hout
    have hpush : pushSegment out dotDot = out.dropLast := rfl
    rw [hpush, ← hlast]
    -- the last segment is the whole input: the comparison matches, and leaves a slash
    cases segs with
    | nil => rfl
    | cons t segs =>
      have h₅ : (ascii "/../").isPrefixOf (joinSegments (dotDot :: t :: segs)) = true := rfl
      have h₃ : (ascii "/./").isPrefixOf (joinSegments (dotDot :: t :: segs)) = false := rfl
      have h₄ : joinSegments (dotDot :: t :: segs) ≠ ascii "/." :=
        fun h => absurd ((joinSegments_eq_single (p := dot) (by decide)).1 h).2 (by simp)
      rw [h₃, if_neg Bool.false_ne_true, if_neg h₄, h₅, if_pos rfl]
      simp only [remainingSegments, reduceCtorEq, and_false, if_false]
      rfl

/-- A round on a path whose first segment is no dot segment. -/
theorem removeDotSegmentsLoop_move (n : Nat) (out : List Bytes) {s : Bytes} (hs : byte '/' ∉ s)
    (hdot : s ≠ dot) (hdotDot : s ≠ dotDot) (segs : List Bytes) :
    removeDotSegmentsLoop (n + 1) (joinSegments (s :: segs)) (joinSegments out) =
      removeDotSegmentsLoop n (joinSegments segs) (joinSegments (out ++ [s])) := by
  have hempty : (joinSegments (s :: segs)).isEmpty = false := rfl
  have h₁ : (ascii "../").isPrefixOf (joinSegments (s :: segs)) = false :=
    isPrefixOf_joinSegments_of_ne_slash (by decide) _ s segs
  have h₂ : (ascii "./").isPrefixOf (joinSegments (s :: segs)) = false :=
    isPrefixOf_joinSegments_of_ne_slash (by decide) _ s segs
  -- none of the six dot forms matches
  have h₃ : (ascii "/./").isPrefixOf (joinSegments (s :: segs)) = false :=
    Bool.eq_false_iff.2 fun h =>
      hdot ((isPrefixOf_joinSegments (p := dot) (by decide) hs).1 h).1
  have h₄ : joinSegments (s :: segs) ≠ ascii "/." :=
    fun h => hdot ((joinSegments_eq_single (p := dot) (by decide)).1 h).1
  have h₅ : (ascii "/../").isPrefixOf (joinSegments (s :: segs)) = false :=
    Bool.eq_false_iff.2 fun h =>
      hdotDot ((isPrefixOf_joinSegments (p := dotDot) (by decide) hs).1 h).1
  have h₆ : joinSegments (s :: segs) ≠ ascii "/.." :=
    fun h => hdotDot ((joinSegments_eq_single (p := dotDot) (by decide)).1 h).1
  have h₇ : (decide (joinSegments (s :: segs) = ascii ".") ||
      decide (joinSegments (s :: segs) = ascii "..")) = false := by
    have hdots : ∀ t, byte '/' :: t ≠ ascii "." ∧ byte '/' :: t ≠ ascii ".." := by
      intro t
      constructor <;> exact fun h => absurd (List.cons.inj h).1 (by decide)
    rw [joinSegments_cons]
    simp [hdots]
  obtain ⟨htake, hrest⟩ := firstSegmentEnd_joinSegments segs hs
  have hmove : joinSegments out ++ byte '/' :: s = joinSegments (out ++ [s]) := by
    rw [joinSegments_append]
    simp [joinSegments]
  simp only [removeDotSegmentsLoop, hempty, h₁, h₂, h₃, h₄, h₅, h₆, h₇, Bool.false_eq_true,
    if_false, htake, hrest, hmove]

/-- The loop resolves the segments of the input after those of the output. -/
theorem removeDotSegmentsLoop_joinSegments (n : Nat) (out segs : List Bytes)
    (hout : ∀ s ∈ out, byte '/' ∉ s) (hsegs : ∀ s ∈ segs, byte '/' ∉ s)
    (hn : (joinSegments segs).length ≤ n) :
    removeDotSegmentsLoop n (joinSegments segs) (joinSegments out) =
      joinSegments (resolveSegments out segs) := by
  -- the fuel covers the length of the input, and every round takes at least its first byte
  induction n generalizing out segs with
  | zero =>
    cases segs with
    | nil => rfl
    | cons s segs => simp [joinSegments] at hn
  | succ n ih =>
    cases segs with
    | nil => rfl
    | cons s segs =>
      have hs := hsegs s List.mem_cons_self
      have hpush : ∀ t ∈ pushSegment out s, byte '/' ∉ t :=
        forall_mem_pushSegment hout fun _ _ => hs
      have hlen : s.length + (joinSegments segs).length ≤ n := by
        rw [joinSegments_cons] at hn
        simpa using hn
      rw [resolveSegments_cons]
      -- a dot segment is dropped, with the segment before it for two dots; a last one leaves a
      -- slash
      by_cases hdots : s = dot ∨ s = dotDot
      · have hpos : 1 ≤ s.length := by
          rcases hdots with rfl | rfl <;> simp
        rw [removeDotSegmentsLoop_dot n hout hdots segs]
        refine ih _ _ hpush ?_ ?_
        · unfold remainingSegments
          split
          · simp
          · exact fun t ht => hsegs t (List.mem_cons_of_mem _ ht)
        · unfold remainingSegments
          split
          · simp [joinSegments]
            omega
          · omega
      -- any other segment is moved to the output
      · obtain ⟨hdot, hdotDot⟩ := not_or.1 hdots
        have hremain : remainingSegments s segs = segs := by simp [remainingSegments, hdots]
        have hpush' : pushSegment out s = out ++ [s] := by simp [pushSegment, hdot, hdotDot]
        rw [removeDotSegmentsLoop_move n out hs hdot hdotDot segs, hremain, ← hpush']
        exact ih _ _ hpush (fun t ht => hsegs t (List.mem_cons_of_mem _ ht)) (by omega)

/-- Dot segments are removed as the stack of segments resolves them. -/
theorem removeDotSegments_eq (rest : Bytes) :
    removeDotSegments (byte '/' :: rest) =
      joinSegments (resolveSegments [] (pathSegments (byte '/' :: rest))) := by
  have hloop := removeDotSegmentsLoop_joinSegments (byte '/' :: rest).length []
    (pathSegments (byte '/' :: rest)) (by simp) (fun s hs => not_mem_of_mem_pathSegments hs)
    (by rw [joinSegments_pathSegments])
  rw [joinSegments_pathSegments] at hloop
  exact hloop

end Keylix.Dpop
