import Keylix.Dpop.Equivalence

/-!
# The canonical form of a target

`IsCanonical` describes the normalised targets by their bytes, with no reference to the functions
that normalise: what may stand in the host, the port and the path, and what may not. The texts of
this form are the texts of the abstract targets in normal form (`isCanonical_iff`), so that
`normalizeHttpUri` returns nothing else and leaves them as they are.
-/

set_option autoImplicit false

namespace Keylix.Dpop

open Keylix.Lib Keylix.Lib.PctToken

/-! ## The form -/

/-- A printable byte other than the space. -/
def isVisible (b : UInt8) : Bool := 0x21 ≤ b && b ≤ 0x7e

/-- The delimiters that a host name does not contain. -/
def isHostDelimiter (b : UInt8) : Bool := (ascii "/?#@:[]").contains b

/-- A host: an address in brackets, or a name in lower case. -/
inductive CanonicalHost : Bytes → Prop
  | ipv6 (addr : Ipv6Addr) : CanonicalHost (byte '[' :: (addr.display ++ [byte ']']))
  | regName {name : Bytes} (ne_nil : name ≠ []) (delimiters : ∀ b ∈ name, isHostDelimiter b = false)
      (lower : LowerOutsideEscapes name) (escapes : NormalEscapes isUnreserved name) :
      CanonicalHost name

/-- The port after a host: none, or a decimal number without leading zeros that is not the default
of the scheme. -/
inductive CanonicalPort (scheme : Scheme) : Bytes → Prop
  | default : CanonicalPort scheme []
  | explicit {digits : Bytes} {port : Nat} (decimal : ∀ b ∈ digits, isAsciiDigit b = true)
      (leading : digits.head? = some (byte '0') → digits = [byte '0'])
      (value : parseNumeral 10 digits = some port) (le : port ≤ 65535)
      (ne_default : port ≠ scheme.defaultPort) : CanonicalPort scheme (byte ':' :: digits)

/-- A path without dot segments, query and fragment. -/
structure CanonicalPath (path : Bytes) : Prop where
  slash : path.head? = some (byte '/')
  not_query : byte '?' ∉ path
  not_fragment : byte '#' ∉ path
  not_dot : dot ∉ pathSegments path
  not_dotDot : dotDot ∉ pathSegments path
  escapes : NormalEscapes isUnreserved path

/-- A target in canonical form. -/
def IsCanonical (s : Bytes) : Prop :=
  ∃ (scheme : Scheme) (host port path : Bytes),
    s = scheme.text ++ ascii "://" ++ host ++ port ++ path ∧ CanonicalHost host ∧
      CanonicalPort scheme port ∧ CanonicalPath path ∧ ∀ b ∈ s, isVisible b = true

/-! ## Escapes and tokens -/

theorem isVisible_eq_isTargetByte (b : UInt8) : isVisible b = isTargetByte b := by
  revert b
  decide +kernel

theorem pctNormal_iff_normalEscapes {s : Bytes} : PctNormal s ↔ NormalEscapes isUnreserved s := by
  constructor
  · rintro ⟨ts, hts, rfl, hdecode⟩
    exact (normalEscapes_text (ne_percent_of_tokens hts)).2 hdecode
  · intro h
    obtain ⟨ts, hts, rfl⟩ := exists_tokens_of_normalEscapes h
    exact ⟨ts, hts, rfl, (normalEscapes_text (ne_percent_of_tokens hts)).1 h⟩

/-! ## From abstract targets -/

theorem isHostByte_iff {b : UInt8} :
    isHostByte b = true ↔ isVisible b = true ∧ isHostDelimiter b = false := by
  revert b
  decide +kernel

theorem canonicalHost_text {host : Host} (h : host.Normal) : CanonicalHost host.text := by
  cases host with
  | ipv6 addr => exact .ipv6 addr
  | regName name =>
    obtain ⟨hne, htokens, hbytes⟩ := h
    have hpercent : ∀ t ∈ name, t ≠ lit (byte '%') := fun t ht => (htokens t ht).1
    refine .regName ?_ ?_ ?_ ?_
    · cases name with
      | nil => exact absurd rfl hne
      | cons t ts => cases t <;> simp [Host.text, text, tokenText]
    · exact fun b hb => (isHostByte_iff.1 (isHostByte_of_mem_text hbytes hb)).2
    · exact (lowerOutsideEscapes_text hpercent).2 fun t ht => (htokens t ht).2.2
    · exact (normalEscapes_text hpercent).2 fun t ht => (htokens t ht).2.1

theorem canonicalPort_portText {scheme : Scheme} {port : Nat} (h : port < 65536) :
    CanonicalPort scheme (portText scheme port) := by
  unfold portText
  split
  · exact .default
  · next hport =>
    exact .explicit (fun b hb => isAsciiDigit_of_mem_decimal hb) decimal_eq_of_head?_zero
      (parseNumeral_numeral (by norm_num) (by norm_num) port) (by omega) hport

theorem canonicalPath_segments {T : HttpTarget} (h : T.Normal) :
    CanonicalPath (joinSegments T.segments) := by
  have hbytes := HttpTarget.path_bytes h
  have hsegs : pathSegments (joinSegments T.segments) = T.segments :=
    pathSegments_joinSegments h.segments_ne fun s hs => (h.segments s hs).not_slash
  refine ⟨?_, ?_, ?_, ?_, ?_, ?_⟩
  · cases hcons : T.segments with
    | nil => exact absurd hcons h.segments_ne
    | cons s segs => rfl
  · exact fun hm => absurd (hbytes _ hm).2 (by decide)
  · exact fun hm => absurd (hbytes _ hm).2 (by decide)
  · rw [hsegs]
    exact fun hs => (h.segments _ hs).ne_dot rfl
  · rw [hsegs]
    exact fun hs => (h.segments _ hs).ne_dotDot rfl
  · rw [← pctNormal_iff_normalEscapes, pctNormal_joinSegments]
    exact fun s hs => (h.segments s hs).pctNormal

theorem isCanonical_text {T : HttpTarget} (h : T.Normal) : IsCanonical T.text := by
  refine ⟨T.scheme, T.host.text, portText T.scheme T.port, joinSegments T.segments, rfl,
    canonicalHost_text h.host, canonicalPort_portText h.port, canonicalPath_segments h, ?_⟩
  intro b hb
  rw [isVisible_eq_isTargetByte]
  exact T.text_bytes h b hb

/-! ## To abstract targets -/

theorem CanonicalHost.exists_host {host : Bytes} (h : CanonicalHost host)
    (hvisible : ∀ b ∈ host, isVisible b = true) : ∃ H : Host, H.Normal ∧ host = H.text := by
  cases h with
  | ipv6 addr => exact ⟨.ipv6 addr, trivial, rfl⟩
  | regName hne hdelimiters hlower hescapes =>
    obtain ⟨ts, hts, rfl, hdecode⟩ := pctNormal_iff_normalEscapes.2 hescapes
    have hpercent := ne_percent_of_tokens hts
    have hfold := (lowerOutsideEscapes_text hpercent).1 hlower
    refine ⟨.regName ts, ⟨?_, ?_, ?_⟩, rfl⟩
    · rintro rfl
      exact hne rfl
    · exact fun t ht => ⟨hpercent t ht, hdecode t ht, hfold t ht⟩
    · intro b hb
      have hmem := mem_of_lit_mem hts hb
      exact isHostByte_iff.2 ⟨hvisible b hmem, hdelimiters b hmem⟩

theorem CanonicalPort.exists_port {scheme : Scheme} {port : Bytes} (h : CanonicalPort scheme port) :
    ∃ p < 65536, port = portText scheme p := by
  cases h with
  | default =>
    refine ⟨scheme.defaultPort, defaultPort_lt scheme, ?_⟩
    rw [portText, if_pos rfl]
  | explicit hdigits hleading hvalue hle hne =>
    refine ⟨_, Nat.lt_succ_of_le hle, ?_⟩
    rw [portText, if_neg hne, decimal_of_parseNumeral hdigits hleading hvalue]

theorem CanonicalPath.exists_segments {path : Bytes} (h : CanonicalPath path)
    (hvisible : ∀ b ∈ path, isVisible b = true) :
    ∃ segs, segs ≠ [] ∧ (∀ s ∈ segs, SegmentNormal s) ∧ path = joinSegments segs := by
  have hdelimiter : ∀ b : UInt8, b ≠ byte '?' → b ≠ byte '#' → endsPath b = false := by
    decide +kernel
  -- the path is the join of its segments, so the bytes of a segment are bytes of the path
  obtain ⟨rest, rfl⟩ : ∃ rest, path = byte '/' :: rest := by
    cases path with
    | nil => cases h.slash
    | cons c rest => exact ⟨rest, by rw [Option.some.inj h.slash]⟩
  have hjoin := joinSegments_pathSegments rest
  have hpct : ∀ s ∈ pathSegments (byte '/' :: rest), PctNormal s := by
    rw [← pctNormal_joinSegments, hjoin]
    exact pctNormal_iff_normalEscapes.2 h.escapes
  refine ⟨pathSegments (byte '/' :: rest), pathSegments_ne_nil _, ?_, hjoin.symm⟩
  intro s hs
  refine ⟨not_mem_of_mem_pathSegments hs, ?_, ?_, hpct s hs, ?_⟩
  · rintro rfl
    exact h.not_dot hs
  · rintro rfl
    exact h.not_dotDot hs
  · intro b hb
    have hmem := mem_joinSegments hs hb
    rw [hjoin] at hmem
    refine ⟨?_, hdelimiter b (fun he => h.not_query (he ▸ hmem)) fun he =>
      h.not_fragment (he ▸ hmem)⟩
    rw [← isVisible_eq_isTargetByte]
    exact hvisible b hmem

/-- The texts in canonical form are the texts of the targets in normal form. -/
theorem isCanonical_iff {s : Bytes} : IsCanonical s ↔ ∃ T : HttpTarget, T.Normal ∧ s = T.text := by
  constructor
  · rintro ⟨scheme, host, port, path, rfl, hhost, hport, hpath, hvisible⟩
    obtain ⟨H, hH, rfl⟩ := hhost.exists_host fun b hb => hvisible b (by simp [hb])
    obtain ⟨p, hp, rfl⟩ := hport.exists_port
    obtain ⟨segs, hne, hsegs, rfl⟩ := hpath.exists_segments fun b hb => hvisible b (by simp [hb])
    exact ⟨⟨scheme, H, p, segs⟩, ⟨hH, hp, hne, hsegs⟩, rfl⟩
  · rintro ⟨T, hT, rfl⟩
    exact isCanonical_text hT

/-! ## Parsing -/

/-- **Parsing returns the canonical form, and leaves it as it is.** -/
theorem parse_canonical :
    (∀ input t, EffectiveRequestTarget.parse input = .ok t → IsCanonical t.asStr) ∧
      ∀ s, IsCanonical s → s.length ≤ 2048 →
        ∃ t, EffectiveRequestTarget.parse s = .ok t ∧ t.asStr = s := by
  constructor
  · intro input t h
    rw [EffectiveRequestTarget.parse_eq_ok_iff] at h
    obtain ⟨T, -, htext, hT⟩ := normalizeHttpUri_eq_text h
    exact isCanonical_iff.2 ⟨T, hT, htext⟩
  · intro s hs hlen
    obtain ⟨T, hT, rfl⟩ := isCanonical_iff.1 hs
    have hfixed := normalizeHttpUri_text hT hlen
    exact ⟨⟨_, _, hfixed⟩, EffectiveRequestTarget.parse_eq_ok_iff.2 hfixed, rfl⟩

/-- An escape that is decoded to a dot segment, an address and the default port. -/
theorem parse_canonical_sample :
    ∃ t, EffectiveRequestTarget.parse (ascii "HTTPS://[0:0::1]:0443/a/%2e%2E/b%2fc?q") = .ok t ∧
      t.asStr = ascii "https://[::1]/b%2Fc" ∧ IsCanonical t.asStr ∧
      ∃ u, EffectiveRequestTarget.parse t.asStr = .ok u ∧ u.asStr = t.asStr := by
  have hnormal : normalizeHttpUri (ascii "HTTPS://[0:0::1]:0443/a/%2e%2E/b%2fc?q") =
      .ok (ascii "https://[::1]/b%2Fc") := by decide +kernel
  have hparse := (EffectiveRequestTarget.parse_eq_ok_iff (t := ⟨_, _, hnormal⟩)).2 hnormal
  have hcanonical := parse_canonical.1 _ _ hparse
  have hlen : (ascii "https://[::1]/b%2Fc").length ≤ 2048 := by decide +kernel
  exact ⟨_, hparse, rfl, hcanonical, parse_canonical.2 _ hcanonical hlen⟩

end Keylix.Dpop
