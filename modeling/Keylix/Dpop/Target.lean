import Keylix.Dpop.Normalization

/-!
# The meaning of a request target

A normalised target is the text of an abstract target: a scheme, a host, a port and a list of
segments. `HttpUri.target` reads the abstract target of a URI off the URI's components, and
`normalizeHttpUri_eq_text` says that normalisation writes it. The text of an abstract target in
normal form is its own normalisation (`normalizeHttpUri_text`), and no two of them share a text
(`HttpTarget.text_injective`).
-/

set_option autoImplicit false

namespace Keylix.Dpop

open Keylix.Lib Keylix.Lib.PctToken

/-! ## Abstract targets -/

/-- A host: an IPv6 address, or a name given by its tokens. -/
inductive Host where
  | ipv6 (addr : Ipv6Addr)
  | regName (name : List PctToken)
  deriving DecidableEq

def Host.text : Host → Bytes
  | .ipv6 addr => byte '[' :: (addr.display ++ [byte ']'])
  | .regName name => PctToken.text name

/-- A request target. -/
structure HttpTarget where
  scheme : Scheme
  host : Host
  port : Nat
  segments : List Bytes
  deriving DecidableEq

/-- The default port is not written. -/
def portText (scheme : Scheme) (port : Nat) : Bytes :=
  if port = scheme.defaultPort then [] else byte ':' :: decimal port

def HttpTarget.text (t : HttpTarget) : Bytes :=
  t.scheme.text ++ ascii "://" ++ t.host.text ++ portText t.scheme t.port ++
    joinSegments t.segments

/-! ## Components of a URI -/

/-- The components of a URI that a target depends on. -/
structure HttpUri where
  scheme : Bytes
  authority : Bytes
  path : Bytes

/-- The delimiters that end an authority. -/
def endsAuthority (b : UInt8) : Bool := (ascii "/?#").contains b

/-- The delimiters that end a path. -/
def endsPath (b : UInt8) : Bool := (ascii "?#").contains b

/-- The components of a text, cut at the first delimiters. -/
def HttpUri.ofText (input : Bytes) : HttpUri :=
  let afterSlashes := (input.dropWhile fun b => !decide (b = byte ':')).drop 3
  { scheme := input.takeWhile fun b => !decide (b = byte ':')
    authority := afterSlashes.takeWhile fun b => !endsAuthority b
    path := (afterSlashes.dropWhile fun b => !endsAuthority b).takeWhile fun b => !endsPath b }

/-- The host of an authority: the address in the brackets, or the name before the colon with the
escapes of unreserved characters decoded and the letters in lower case. -/
def hostOf (authority : Bytes) : Option Host :=
  if authority.head? = some (byte '[') then
    (Ipv6Addr.parse (authority.tail.takeWhile fun b => !decide (b = byte ']'))).map .ipv6
  else (hostTokens (authority.takeWhile fun b => !decide (b = byte ':'))).map .regName

/-- The numeric value of the port of an authority, when it has one. -/
def explicitPort (authority : Bytes) : Option Nat :=
  let afterHost :=
    if authority.head? = some (byte '[') then
      (authority.dropWhile fun b => !decide (b = byte ']')).tail
    else authority.dropWhile fun b => !decide (b = byte ':')
  parseNumeral 10 afterHost.tail

/-- The segments of a path after the escapes of unreserved characters are decoded, the other
escapes are in upper case and the dot segments are resolved. The empty path counts as `/`. -/
def resolvedPath (path : Bytes) : Option (List Bytes) :=
  (decodedTokens (if path.isEmpty then [byte '/'] else path)).map fun ts =>
    resolveSegments [] (pathSegments (text ts))

def HttpUri.schemeOf (u : HttpUri) : Option Scheme := (parseScheme u.scheme).toOption

def HttpUri.effectivePort (u : HttpUri) (scheme : Scheme) : Nat :=
  (explicitPort u.authority).getD scheme.defaultPort

/-- The target of a URI. -/
def HttpUri.target (u : HttpUri) : Option HttpTarget := do
  let scheme ← u.schemeOf
  let host ← hostOf u.authority
  let segments ← resolvedPath u.path
  some ⟨scheme, host, u.effectivePort scheme, segments⟩

/-! ## Normal form -/

/-- A byte a target may contain. -/
def isTargetByte (b : UInt8) : Bool := b < 0x80 && !isControlOrSpace b

/-- A byte that stands for itself in a host name. -/
def isHostByte (b : UInt8) : Bool := isTargetByte b && !(ascii "/?#@[]:").contains b

def Host.Normal : Host → Prop
  | .ipv6 _ => True
  | .regName name =>
      name ≠ [] ∧ (∀ t ∈ name, HostToken t) ∧ ∀ b, lit b ∈ name → isHostByte b = true

/-- A segment in normal form. -/
structure SegmentNormal (s : Bytes) : Prop where
  not_slash : byte '/' ∉ s
  ne_dot : s ≠ dot
  ne_dotDot : s ≠ dotDot
  pctNormal : PctNormal s
  bytes : ∀ b ∈ s, isTargetByte b = true ∧ endsPath b = false

/-- A target in normal form. -/
structure HttpTarget.Normal (t : HttpTarget) : Prop where
  host : t.host.Normal
  port : t.port < 65536
  segments_ne : t.segments ≠ []
  segments : ∀ s ∈ t.segments, SegmentNormal s

/-! ## Texts of hosts and ports -/

theorem text_scheme_ne (s : Scheme) : ∀ b ∈ s.text, b ≠ byte ':' := by
  cases s with
  | http => decide +kernel
  | https => decide +kernel

/-- The bytes of escapes may stand in a host and in a path. -/
theorem upperDigit_bytes {d : Nat} (h : d < 16) :
    isHostByte (upperDigit d) = true ∧ endsPath (upperDigit d) = false := by
  revert d
  decide

theorem unreserved_bytes {b : UInt8} (h : isUnreserved b = true) :
    isHostByte b = true ∧ endsPath b = false := by
  revert b
  decide +kernel

theorem isHostByte_of_mem_text {name : List PctToken}
    (h : ∀ b, lit b ∈ name → isHostByte b = true) {b : UInt8} (hb : b ∈ text name) :
    isHostByte b = true := by
  rcases mem_text hb with hb | rfl | ⟨d, hd, rfl⟩
  · exact h b hb
  · decide
  · exact (upperDigit_bytes hd).1

/-- The bytes of an address: none of them ends an authority or closes the brackets. -/
theorem addrByte_bytes {b : UInt8} (h : Ipv6Addr.isAddrByte b = true) :
    isTargetByte b = true ∧ endsAuthority b = false ∧ b ≠ byte '@' ∧ b ≠ byte ']' := by
  revert b
  decide +kernel

theorem hostByte_bytes {b : UInt8} (h : isHostByte b = true) :
    isTargetByte b = true ∧ endsAuthority b = false ∧ b ≠ byte '@' ∧ b ≠ byte '[' ∧
      b ≠ byte ']' ∧ b ≠ byte ':' := by
  revert b
  decide +kernel

theorem digit_bytes {b : UInt8} (h : isAsciiDigit b = true) :
    isTargetByte b = true ∧ endsAuthority b = false ∧ b ≠ byte '@' ∧ b ≠ byte '[' ∧
      b ≠ byte ']' ∧ b ≠ byte ':' := by
  revert b
  decide +kernel

/-- The bytes of the text of a host. -/
theorem host_text_bytes {host : Host} (h : host.Normal) {b : UInt8} (hb : b ∈ host.text) :
    isTargetByte b = true ∧ endsAuthority b = false ∧ b ≠ byte '@' := by
  cases host with
  | ipv6 addr =>
    simp only [Host.text, List.mem_cons, List.mem_append, List.not_mem_nil, or_false] at hb
    rcases hb with rfl | hb | rfl
    · decide
    · obtain ⟨h₁, h₂, h₃, -⟩ := addrByte_bytes (Ipv6Addr.isAddrByte_of_mem_display hb)
      exact ⟨h₁, h₂, h₃⟩
    · decide
  | regName name =>
    obtain ⟨h₁, h₂, h₃, -⟩ := hostByte_bytes (isHostByte_of_mem_text h.2.2 hb)
    exact ⟨h₁, h₂, h₃⟩

theorem portText_bytes {scheme : Scheme} {port : Nat} {b : UInt8}
    (hb : b ∈ portText scheme port) :
    isTargetByte b = true ∧ endsAuthority b = false ∧ b ≠ byte '@' := by
  unfold portText at hb
  split at hb
  · cases hb
  · rcases List.mem_cons.1 hb with rfl | hb
    · decide
    · obtain ⟨h₁, h₂, h₃, -⟩ := digit_bytes (isAsciiDigit_of_mem_decimal hb)
      exact ⟨h₁, h₂, h₃⟩

/-! ## Ports -/

theorem parsePort_eq_ok {rawPort : Bytes} {port : Nat} (h : parsePort rawPort = .ok port) :
    parseNumeral 10 rawPort = some port ∧ port < 65536 := by
  unfold parsePort at h
  split at h
  · cases h
  split at h
  · next p hp =>
    split at h
    · cases h
      exact ⟨hp, by assumption⟩
    · cases h
  · cases h

theorem parsePort_decimal {port : Nat} (h : port < 65536) :
    parsePort (decimal port) = .ok port := by
  have hne : (decimal port).isEmpty = false := by simp [numeral_ne_nil]
  have hall : (decimal port).all isAsciiDigit = true :=
    List.all_eq_true.2 fun b hb => isAsciiDigit_of_mem_decimal hb
  have hparse : parseNumeral 10 (decimal port) = some port :=
    parseNumeral_numeral (by norm_num) (by norm_num) port
  simp [parsePort, hne, hall, hparse, h]

/-! ## Authorities -/

theorem rsplitOnce_of_not_mem {c : UInt8} {s : Bytes} (h : c ∉ s) : rsplitOnce c s = none := by
  simp [rsplitOnce, h]

theorem rsplitOnce_append_cons {c : UInt8} (s : Bytes) {t : Bytes} (h : c ∉ t) :
    rsplitOnce c (s ++ c :: t) = some (s, t) := by
  have hpos : ∀ x ∈ t.reverse, decide (x ≠ c) = true := by
    intro x hx
    have : x ≠ c := fun he => h (he ▸ List.mem_reverse.1 hx)
    simpa using this
  have hrev : (s ++ c :: t).reverse = t.reverse ++ c :: s.reverse := by simp
  have hmem : (s ++ c :: t).contains c = true := by simp
  rw [rsplitOnce, if_pos hmem, hrev, List.dropWhile_append_of_pos hpos,
    List.takeWhile_append_of_pos hpos]
  simp

/-- A text with at most one colon, cut at the colon. -/
theorem cut_of_count_le {c : UInt8} {s : Bytes} (hmem : c ∈ s) (hcount : s.count c ≤ 1) :
    ∃ a b, s = a ++ c :: b ∧ c ∉ a ∧ c ∉ b := by
  obtain ⟨a, b, rfl, ha⟩ := List.eq_append_cons_of_mem hmem
  refine ⟨a, b, rfl, ha, ?_⟩
  intro hb
  have hpos := List.count_pos_iff.2 hb
  rw [List.count_append, List.count_cons_self] at hcount
  omega

theorem takeWhile_ne {c : UInt8} {s t : Bytes} (hs : c ∉ s) (ht : ∀ x, t.head? = some x → x = c) :
    (s ++ t).takeWhile (fun b => !decide (b = c)) = s :=
  takeWhile_not_append (fun _ ha => decide_eq_false fun he => hs (he ▸ ha))
    fun _ ha => decide_eq_true (ht _ ha)

theorem dropWhile_ne {c : UInt8} {s t : Bytes} (hs : c ∉ s) (ht : ∀ x, t.head? = some x → x = c) :
    (s ++ t).dropWhile (fun b => !decide (b = c)) = t :=
  dropWhile_not_append (fun _ ha => decide_eq_false fun he => hs (he ▸ ha))
    fun _ ha => decide_eq_true (ht _ ha)

/-- Every byte may stand in an authority. -/
def IsAuthority (authority : Bytes) : Prop :=
  ∀ b ∈ authority, isTargetByte b = true ∧ endsAuthority b = false ∧ b ≠ byte '@'

theorem parseTailPort_colon (rawPort : Bytes) :
    parseTailPort (byte ':' :: rawPort) = (parsePort rawPort).map some := by
  show (do let port ← parsePort rawPort; Except.ok (some port)) = _
  cases parsePort rawPort <;> rfl

theorem parseTailPort_eq_ok {tail : Bytes} {port : Option Nat}
    (h : parseTailPort tail = .ok port) :
    (tail = [] ∧ port = none) ∨
      ∃ rawPort p, tail = byte ':' :: rawPort ∧ parsePort rawPort = .ok p ∧ port = some p := by
  cases tail with
  | nil =>
    cases h
    exact Or.inl ⟨rfl, rfl⟩
  | cons c rawPort =>
    by_cases hc : c = byte ':'
    · subst hc
      rw [parseTailPort_colon] at h
      cases hp : parsePort rawPort with
      | error e =>
        rw [hp] at h
        cases h
      | ok p =>
        rw [hp] at h
        cases h
        exact Or.inr ⟨rawPort, p, rfl, hp, rfl⟩
    · have hno : (ascii ":").isPrefixOf (c :: rawPort) = false := by
        simp [ascii, List.isPrefixOf, Ne.symm hc]
      simp only [parseTailPort, List.isEmpty_cons, Bool.false_eq_true, if_false, stripPrefix,
        hno] at h
      cases h

/-- The two forms of an accepted authority. -/
theorem normalizeHostPort_cases {authority : Bytes} {r : Bytes × Option Nat}
    (h : normalizeHostPort authority = .ok r) :
    (∃ literal tail addr port, authority = byte '[' :: (literal ++ byte ']' :: tail) ∧
        byte ']' ∉ literal ∧ Ipv6Addr.parse literal = some addr ∧ parseTailPort tail = .ok port ∧
        r = (byte '[' :: (addr.display ++ [byte ']']), port)) ∨
      ∃ name tail host port, authority = name ++ tail ∧ name ≠ [] ∧ byte '[' ∉ authority ∧
        byte ']' ∉ authority ∧ byte ':' ∉ name ∧ normalizeRegNameHost name = .ok host ∧
        parseTailPort tail = .ok port ∧ r = (host, port) := by
  unfold normalizeHostPort at h
  split at h
  · next hbracket =>
    split at h
    · cases h
    next close hclose =>
    obtain ⟨hsplit, hnot⟩ := findIdx?_eq_some_split hclose
    split at h
    · cases h
    next addr haddr =>
    -- the opening bracket is the first byte before the closing one
    obtain ⟨literal, hliteral⟩ : ∃ literal, authority.take close = byte '[' :: literal := by
      cases htake : authority.take close with
      | nil =>
        rw [hsplit, htake] at hbracket
        exact absurd (Option.some.inj hbracket) (by decide)
      | cons c literal =>
        rw [hsplit, htake] at hbracket
        exact ⟨literal, by rw [Option.some.inj hbracket]⟩
    rw [hliteral] at hsplit hnot haddr
    cases hport : parseTailPort (authority.drop (close + 1)) with
    | error e =>
      rw [hport] at h
      cases h
    | ok port =>
      rw [hport] at h
      cases h
      exact Or.inl ⟨literal, _, addr, port, hsplit, fun hm => hnot (List.mem_cons_of_mem _ hm),
        haddr, hport, rfl⟩
  · split at h
    · cases h
    next hchars =>
    simp only [Bool.or_eq_true, List.contains_iff_mem, decide_eq_true_eq, not_or, not_lt] at hchars
    obtain ⟨⟨hopen, hclose⟩, hcount⟩ := hchars
    right
    by_cases hcolon : byte ':' ∈ authority
    · obtain ⟨name, rawPort, rfl, hname, hraw⟩ := cut_of_count_le hcolon hcount
      rw [rsplitOnce_append_cons name hraw] at h
      cases hp : parsePort rawPort with
      | error e =>
        simp only [hp] at h
        cases h
      | ok p =>
        simp only [hp] at h
        change (if name.isEmpty then _ else _ : Except DpopError (Bytes × Option Nat)) = _ at h
        split at h
        · cases h
        next hne =>
        cases hhost : normalizeRegNameHost name with
        | error e =>
          rw [hhost] at h
          cases h
        | ok host =>
          rw [hhost] at h
          cases h
          refine ⟨name, byte ':' :: rawPort, host, some p, rfl, by simpa using hne, hopen, hclose,
            hname, hhost, ?_, rfl⟩
          rw [parseTailPort_colon, hp]
          rfl
    · rw [rsplitOnce_of_not_mem hcolon] at h
      change (if authority.isEmpty then _ else _ : Except DpopError (Bytes × Option Nat)) = _ at h
      split at h
      · cases h
      next hne =>
      cases hhost : normalizeRegNameHost authority with
      | error e =>
        rw [hhost] at h
        cases h
      | ok host =>
        rw [hhost] at h
        cases h
        exact ⟨authority, [], host, none, by simp, by simpa using hne, hopen, hclose, hcolon, hhost,
          rfl, rfl⟩

theorem head?_tail_eq {tail : Bytes} {port : Option Nat} (h : parseTailPort tail = .ok port) :
    ∀ x, tail.head? = some x → x = byte ':' := by
  rintro x hx
  rcases parseTailPort_eq_ok h with ⟨rfl, -⟩ | ⟨rawPort, p, rfl, -, -⟩
  · cases hx
  · cases hx
    rfl

/-- The value of the port after a host. -/
theorem parseNumeral_tail {tail : Bytes} {port : Option Nat} (h : parseTailPort tail = .ok port) :
    parseNumeral 10 tail.tail = port ∧ ∀ p, port = some p → p < 65536 := by
  rcases parseTailPort_eq_ok h with ⟨rfl, rfl⟩ | ⟨rawPort, p, rfl, hp, rfl⟩
  · exact ⟨rfl, by simp⟩
  · obtain ⟨hnum, hlt⟩ := parsePort_eq_ok hp
    refine ⟨hnum, ?_⟩
    rintro q hq
    cases hq
    exact hlt

/-- The tokens of a host name are in normal form. -/
theorem regName_normal {authority name : Bytes} {ts : List PctToken} (hauth : IsAuthority authority)
    (hsub : ∀ b ∈ name, b ∈ authority) (hne : name ≠ []) (hopen : byte '[' ∉ authority)
    (hclose : byte ']' ∉ authority) (hcolon : byte ':' ∉ name) (hts : hostTokens name = some ts) :
    (Host.regName ts).Normal := by
  obtain ⟨us, hus, rfl⟩ := Option.map_eq_some_iff.1 hts
  refine ⟨?_, hostTokens_spec hts, ?_⟩
  · intro hnil
    obtain ⟨vs, hvs, rfl⟩ := Option.map_eq_some_iff.1 hus
    obtain rfl : vs = [] := by simpa using hnil
    have hlen := length_text_of_tokens hvs
    exact hne (List.eq_nil_of_length_eq_zero hlen.symm)
  · have hlower : ∀ c : UInt8, isHostByte c = true → isHostByte (toAsciiLower c) = true := by
      decide +kernel
    have hbyte : ∀ c : UInt8, isTargetByte c = true ∧ endsAuthority c = false ∧ c ≠ byte '@' ∧
        c ≠ byte '[' ∧ c ≠ byte ']' ∧ c ≠ byte ':' → isHostByte c = true := by
      decide +kernel
    intro b hb
    obtain ⟨u, hu, he⟩ := List.mem_map.1 hb
    cases u with
    | esc v => cases he
    | lit c =>
      cases he
      refine hlower c ?_
      rcases mem_or_unreserved_of_decodedTokens hus hu with hc | hc
      · obtain ⟨h₁, h₂, h₃⟩ := hauth c (hsub c hc)
        exact hbyte c ⟨h₁, h₂, h₃, fun he => hopen (he ▸ hsub c hc),
          fun he => hclose (he ▸ hsub c hc), fun he => hcolon (he ▸ hc)⟩
      · exact (unreserved_bytes hc).1

/-- What the host and the port of an authority are normalised to. -/
theorem normalizeHostPort_eq_ok {authority host : Bytes} {port : Option Nat}
    (hauth : IsAuthority authority) (h : normalizeHostPort authority = .ok (host, port)) :
    ∃ H, hostOf authority = some H ∧ host = H.text ∧ H.Normal ∧ explicitPort authority = port ∧
      ∀ p, port = some p → p < 65536 := by
  rcases normalizeHostPort_cases h with ⟨literal, tail, addr, q, rfl, hnot, haddr, hport, he⟩ |
    ⟨name, tail, name', q, rfl, hne, hopen, hclose, hcolon, hname, hport, he⟩
  · cases he
    obtain ⟨hnum, hlt⟩ := parseNumeral_tail hport
    -- the bracket that ends the literal is the first one, so that the host is cut where the code
    -- cuts
    have hstop : ∀ x, (byte ']' :: tail).head? = some x → x = byte ']' := by
      rintro x hx
      cases hx
      rfl
    have hfirst : byte '[' ≠ byte ']' := by decide
    refine ⟨.ipv6 addr, ?_, rfl, trivial, ?_, hlt⟩
    · simp only [hostOf, List.head?_cons, if_true, List.tail_cons, takeWhile_ne hnot hstop, haddr,
        Option.map_some]
    · simp only [explicitPort, List.head?_cons, if_true, List.dropWhile_cons, hfirst,
        decide_false, Bool.not_false, dropWhile_ne hnot hstop, List.tail_cons, hnum]
  · cases he
    obtain ⟨hnum, hlt⟩ := parseNumeral_tail hport
    have hstop := head?_tail_eq hport
    -- a name has no bracket, so that it is not taken for a literal
    have hbracket : (name ++ tail).head? ≠ some (byte '[') := by
      intro hh
      exact hopen (List.mem_of_mem_head? hh)
    rw [normalizeRegNameHost_eq] at hname
    cases hts : hostTokens name with
    | none =>
      rw [hts] at hname
      cases hname
    | some ts =>
      rw [hts] at hname
      cases hname
      refine ⟨.regName ts, ?_, rfl, ?_, ?_, hlt⟩
      · simp only [hostOf, hbracket, if_false, takeWhile_ne hcolon hstop, hts, Option.map_some]
      · exact regName_normal hauth (fun b hb => List.mem_append_left _ hb) hne hopen hclose hcolon
          hts
      · simp only [explicitPort, hbracket, if_false, dropWhile_ne hcolon hstop, hnum]

/-- The port as it is written after a host. -/
def tailText (port : Option Nat) : Bytes :=
  match port with
  | some port => byte ':' :: decimal port
  | none => []

theorem parseTailPort_tailText {port : Option Nat} (h : ∀ p, port = some p → p < 65536) :
    parseTailPort (tailText port) = .ok port := by
  cases port with
  | none => rfl
  | some p =>
    rw [tailText, parseTailPort_colon, parsePort_decimal (h p rfl)]
    rfl

/-- A bracketed address and its port are left as they are. -/
theorem normalizeHostPort_ipv6 (addr : Ipv6Addr) {port : Option Nat}
    (hport : ∀ p, port = some p → p < 65536) :
    normalizeHostPort ((Host.ipv6 addr).text ++ tailText port) =
      .ok ((Host.ipv6 addr).text, port) := by
  have hnot : byte ']' ∉ byte '[' :: addr.display := by
    intro hm
    rcases List.mem_cons.1 hm with he | hm
    · exact absurd he (by decide)
    · exact (addrByte_bytes (Ipv6Addr.isAddrByte_of_mem_display hm)).2.2.2 rfl
  have htext : (Host.ipv6 addr).text ++ tailText port =
      (byte '[' :: addr.display) ++ byte ']' :: tailText port := by
    simp [Host.text]
  have hhead : ((byte '[' :: addr.display) ++ byte ']' :: tailText port).head? =
      some (byte '[') := rfl
  have htake : (((byte '[' :: addr.display) ++ byte ']' :: tailText port).take
      (byte '[' :: addr.display).length).drop 1 = addr.display := by
    rw [List.take_left']
    · rfl
    · rfl
  have hdrop : ((byte '[' :: addr.display) ++ byte ']' :: tailText port).drop
      ((byte '[' :: addr.display).length + 1) = tailText port := by
    simp
  rw [htext, normalizeHostPort, if_pos hhead, findIdx?_append_cons hnot]
  simp only
  rw [htake, hdrop, Ipv6Addr.parse_display]
  simp only [parseTailPort_tailText hport]
  rfl

/-- A normalised name and its port are left as they are. -/
theorem normalizeHostPort_regName {name : List PctToken} (hname : (Host.regName name).Normal)
    {port : Option Nat} (hport : ∀ p, port = some p → p < 65536) :
    normalizeHostPort (text name ++ tailText port) = .ok (text name, port) := by
  obtain ⟨hne, htokens, hbytes⟩ := hname
  have hchars : ∀ b ∈ text name, b ≠ byte '[' ∧ b ≠ byte ']' ∧ b ≠ byte ':' := fun b hb =>
    (hostByte_bytes (isHostByte_of_mem_text hbytes hb)).2.2.2
  have htail : ∀ b ∈ tailText port, b ≠ byte '[' ∧ b ≠ byte ']' := by
    intro b hb
    cases port with
    | none => cases hb
    | some p =>
      rcases List.mem_cons.1 hb with rfl | hb
      · decide
      · obtain ⟨-, -, -, h₁, h₂, -⟩ := digit_bytes (isAsciiDigit_of_mem_decimal hb)
        exact ⟨h₁, h₂⟩
  have hno : ∀ b ∈ text name ++ tailText port, b ≠ byte '[' ∧ b ≠ byte ']' := by
    intro b hb
    rcases List.mem_append.1 hb with hb | hb
    · exact ⟨(hchars b hb).1, (hchars b hb).2.1⟩
    · exact htail b hb
  have hopen : byte '[' ∉ text name ++ tailText port := fun hm => (hno _ hm).1 rfl
  have hclose : byte ']' ∉ text name ++ tailText port := fun hm => (hno _ hm).2 rfl
  have hcolon : byte ':' ∉ text name := fun hm => (hchars _ hm).2.2 rfl
  have hbracket : (text name ++ tailText port).head? ≠ some (byte '[') :=
    fun hh => hopen (List.mem_of_mem_head? hh)
  have hempty : (text name).isEmpty = false := by
    cases name with
    | nil => exact absurd rfl hne
    | cons t ts => cases t <;> rfl
  have hhost : normalizeRegNameHost (text name) = .ok (text name) := by
    rw [normalizeRegNameHost_eq, hostTokens_text htokens]
  have hchecks : ((text name ++ tailText port).contains (byte '[') ||
      (text name ++ tailText port).contains (byte ']') ||
        decide (1 < (text name ++ tailText port).count (byte ':'))) = false := by
    have hcount : ¬ 1 < (text name ++ tailText port).count (byte ':') := by
      rw [List.count_append, List.count_eq_zero_of_not_mem hcolon]
      cases port with
      | none => simp [tailText]
      | some p =>
        have hdigits : byte ':' ∉ decimal p := fun hm =>
          (digit_bytes (isAsciiDigit_of_mem_decimal hm)).2.2.2.2.2 rfl
        simp [tailText, List.count_eq_zero_of_not_mem hdigits]
    rw [List.contains_eq_mem, List.contains_eq_mem, decide_eq_false hopen, decide_eq_false hclose,
      decide_eq_false hcount]
    rfl
  rw [normalizeHostPort, if_neg hbracket, hchecks, if_neg Bool.false_ne_true]
  cases port with
  | none =>
    rw [tailText, List.append_nil, rsplitOnce_of_not_mem hcolon]
    show (if (text name).isEmpty then _ else _ : Except DpopError (Bytes × Option Nat)) = _
    rw [hempty, if_neg Bool.false_ne_true, hhost]
    rfl
  | some p =>
    have hdigits : byte ':' ∉ decimal p := fun hm =>
      (digit_bytes (isAsciiDigit_of_mem_decimal hm)).2.2.2.2.2 rfl
    rw [tailText, rsplitOnce_append_cons _ hdigits]
    simp only [parsePort_decimal (hport p rfl)]
    show (if (text name).isEmpty then _ else _ : Except DpopError (Bytes × Option Nat)) = _
    rw [hempty, if_neg Bool.false_ne_true, hhost]
    rfl

/-- A host in normal form and its port are left as they are. -/
theorem normalizeHostPort_text {host : Host} (hhost : host.Normal) {port : Option Nat}
    (hport : ∀ p, port = some p → p < 65536) :
    normalizeHostPort (host.text ++ tailText port) = .ok (host.text, port) := by
  cases host with
  | ipv6 addr => exact normalizeHostPort_ipv6 addr hport
  | regName name => exact normalizeHostPort_regName hhost hport

end Keylix.Dpop
