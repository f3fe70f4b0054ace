import Keylix.Dpop.Equivalence

/-!
# Reconstruction of the external target

The request-target adapters of `keylix-http`: a target is put together from a scheme, an authority
and a path with a query, which come from the request itself or from the forwarding headers of a
trusted proxy, and is parsed as one text.

Each part is checked on its own before the parts are joined. `confined_iff_not_mem_colon` says when
the checks are enough: the target is the normalisation of the three parts if and only if the
scheme contains no colon.
-/

set_option autoImplicit false

namespace Keylix.Http

open Keylix.Lib Keylix.Dpop

def maxForwardingValueBytes : Nat := 1024

def maxExternalPathBytes : Nat := 2048

/-- The forwarding-header convention a resolver accepts. -/
inductive ProxyHeaderFamily where
  | forwarded
  | xForwarded
  deriving DecidableEq

/-- The forwarding metadata of a request. -/
structure ForwardingHeaders where
  forwarded : Option Bytes
  xForwardedProto : Option Bytes
  xForwardedHost : Option Bytes

inductive HttpTargetError where
  | untrustedProxy
  | missingForwardingMetadata
  | ambiguousForwardingMetadata
  | invalidForwardingMetadata
  | invalidRequestTarget
  deriving DecidableEq

/-! ## Header values -/

def isOws (b : UInt8) : Bool := b = byte ' ' || b = 9

/-- Removes spaces and tabs at both ends. -/
def trimOws (value : Bytes) : Bytes :=
  ((value.dropWhile isOws).reverse.dropWhile isOws).reverse

def isInvalidHeaderValueByte (b : UInt8) : Bool := b ≤ 0x20 || b = 0x7f

def isInvalidRequestTargetByte (b : UInt8) : Bool := b ≤ 0x20 || b = 0x7f

def isHeaderTokenByte (b : UInt8) : Bool :=
  (ascii "!#$%&'*+-.^_`|~").contains b || isAsciiAlphanumeric b

def checkedForwardingValue (raw : Bytes) : Except HttpTargetError Bytes :=
  if raw.isEmpty || maxForwardingValueBytes < raw.length || !isAscii raw then
    .error .invalidForwardingMetadata
  else if (trimOws raw).isEmpty then .error .invalidForwardingMetadata
  else .ok (trimOws raw)

def singleForwardingValue (raw : Bytes) : Except HttpTargetError Bytes := do
  let value ← checkedForwardingValue raw
  if value.contains (byte ',') then .error .ambiguousForwardingMetadata
  else if value.any isInvalidHeaderValueByte then .error .invalidForwardingMetadata
  else .ok value

/-- The texts before and after the first occurrence of `c`. -/
def splitOnce (c : UInt8) (s : Bytes) : Option (Bytes × Bytes) :=
  (s.findIdx? (· = c)).map fun i => (s.take i, s.drop (i + 1))

/-- The loop over the parameters of a `Forwarded` value, with the `proto` and the `host` found so
far. Other parameters are skipped. -/
def parseParameters : List Bytes → Option Bytes → Option Bytes →
    Except HttpTargetError (Option Bytes × Option Bytes)
  | [], proto, host => .ok (proto, host)
  | parameter :: rest, proto, host =>
      match splitOnce (byte '=') (trimOws parameter) with
      | none => .error .invalidForwardingMetadata
      | some (rawName, rawValue) =>
          let name := trimOws rawName
          let value := trimOws rawValue
          if name.isEmpty || value.isEmpty || !name.all isHeaderTokenByte ||
              value.any isInvalidHeaderValueByte then .error .invalidForwardingMetadata
          else if eqIgnoreAsciiCase name (ascii "proto") then
            if proto.isSome then .error .ambiguousForwardingMetadata
            else parseParameters rest (some value) host
          else if eqIgnoreAsciiCase name (ascii "host") then
            if host.isSome then .error .ambiguousForwardingMetadata
            else parseParameters rest proto (some value)
          else parseParameters rest proto host

def parseSingleForwarded (raw : Bytes) : Except HttpTargetError (Bytes × Bytes) := do
  let raw ← checkedForwardingValue raw
  if raw.contains (byte ',') || raw.contains (byte '"') || raw.contains (byte '\\') then
    .error .ambiguousForwardingMetadata
  else do
    let (proto, host) ← parseParameters (raw.splitOn (byte ';')) none none
    match proto, host with
    | some proto, some host => .ok (proto, host)
    | _, _ => .error .missingForwardingMetadata

def resolveForwarded (headers : ForwardingHeaders) : Except HttpTargetError (Bytes × Bytes) :=
  if headers.xForwardedProto.isSome || headers.xForwardedHost.isSome then
    .error .ambiguousForwardingMetadata
  else
    match headers.forwarded with
    | none => .error .missingForwardingMetadata
    | some raw => parseSingleForwarded raw

def resolveXForwarded (headers : ForwardingHeaders) : Except HttpTargetError (Bytes × Bytes) :=
  if headers.forwarded.isSome then .error .ambiguousForwardingMetadata
  else
    match headers.xForwardedProto, headers.xForwardedHost with
    | some proto, some host => do
        let proto ← singleForwardingValue proto
        let host ← singleForwardingValue host
        .ok (proto, host)
    | _, _ => .error .missingForwardingMetadata

/-! ## Targets -/

/-- Each part is checked; then the parts are joined and parsed as one URI. -/
def buildTarget (scheme authority externalPathAndQuery : Bytes) :
    Except HttpTargetError EffectiveRequestTarget :=
  if scheme.isEmpty || maxForwardingValueBytes < scheme.length ||
      authority.isEmpty || maxForwardingValueBytes < authority.length ||
      externalPathAndQuery.isEmpty || maxExternalPathBytes < externalPathAndQuery.length ||
      !isAscii scheme || !isAscii authority || !isAscii externalPathAndQuery ||
      externalPathAndQuery.head? ≠ some (byte '/') || externalPathAndQuery.contains (byte '#') ||
      authority.any (ascii "/?#").contains || scheme.any isInvalidHeaderValueByte ||
      authority.any isInvalidHeaderValueByte ||
      externalPathAndQuery.any isInvalidRequestTargetByte then .error .invalidRequestTarget
  else
    match EffectiveRequestTarget.parse
        (scheme ++ ascii "://" ++ authority ++ externalPathAndQuery) with
    | .ok target => .ok target
    | .error _ => .error .invalidRequestTarget

def resolveDirectTarget (scheme authority externalPathAndQuery : Bytes) :
    Except HttpTargetError EffectiveRequestTarget :=
  buildTarget scheme authority externalPathAndQuery

/-- A resolver: which peers are trusted proxies, and which headers they send. -/
structure TrustedProxyTargetResolver (P : Type) where
  isTrustedProxy : P → Bool
  family : ProxyHeaderFamily

namespace TrustedProxyTargetResolver

variable {P : Type}

/-- The scheme and the authority that the headers of the accepted family carry. -/
def resolveHeaders (resolver : TrustedProxyTargetResolver P) (headers : ForwardingHeaders) :
    Except HttpTargetError (Bytes × Bytes) :=
  match resolver.family with
  | .forwarded => resolveForwarded headers
  | .xForwarded => resolveXForwarded headers

def resolve (resolver : TrustedProxyTargetResolver P) (peer : P) (externalPathAndQuery : Bytes)
    (headers : ForwardingHeaders) : Except HttpTargetError EffectiveRequestTarget :=
  if !resolver.isTrustedProxy peer then .error .untrustedProxy
  else do
    let (scheme, authority) ← resolver.resolveHeaders headers
    buildTarget scheme authority externalPathAndQuery

end TrustedProxyTargetResolver

/-! ## Confinement -/

/-- The target is exactly the normalisation of the three parts: the components read off its text
are the scheme in lower case, the host and the effective port of the authority, and the normalised
path before the query. -/
def Confined (scheme authority externalPathAndQuery : Bytes) (t : EffectiveRequestTarget) : Prop :=
  ∃ T, (HttpUri.ofText t.asStr).target = some T ∧ T.text = t.asStr ∧
    T.scheme.text = toAsciiLowercase scheme ∧ hostOf authority = some T.host ∧
    (explicitPort authority).getD T.scheme.defaultPort = T.port ∧
    resolvedPath (externalPathAndQuery.takeWhile fun b => !decide (b = byte '?')) =
      some T.segments

/-- What the checks and the parse establish. -/
theorem buildTarget_eq_ok {scheme authority path : Bytes} {t : EffectiveRequestTarget}
    (h : buildTarget scheme authority path = .ok t) :
    path.head? = some (byte '/') ∧ byte '#' ∉ path ∧ (∀ b ∈ authority, endsAuthority b = false) ∧
      normalizeHttpUri (scheme ++ ascii "://" ++ authority ++ path) = .ok t.value := by
  unfold buildTarget at h
  split at h
  · cases h
  next hchecks =>
  simp only [Bool.or_eq_true, not_or, decide_eq_true_eq, not_not, List.contains_iff_mem,
    List.any_eq_true, not_exists, not_and] at hchecks
  obtain ⟨⟨⟨⟨⟨⟨-, hslash⟩, hhash⟩, hauth⟩, -⟩, -⟩, -⟩ := hchecks
  split at h
  · next target hparse =>
    cases h
    refine ⟨hslash, hhash, ?_, EffectiveRequestTarget.parse_eq_ok_iff.1 hparse⟩
    intro b hb
    simpa [endsAuthority] using hauth b hb
  · cases h

theorem pathPart_eq_takeWhile {path : Bytes} (h : byte '#' ∉ path) :
    pathPart path = path.takeWhile fun b => !decide (b = byte '?') := by
  have hends : ∀ b : UInt8, b ≠ byte '#' → endsPath b = decide (b = byte '?') := by decide +kernel
  unfold pathPart
  induction path with
  | nil => rfl
  | cons b path ih =>
    have hb : b ≠ byte '#' := fun he => h (he ▸ List.mem_cons_self)
    rw [List.takeWhile_cons, List.takeWhile_cons, hends b hb,
      ih fun hm => h (List.mem_cons_of_mem _ hm)]

/-- Without a colon in the scheme, the joined text is cut where it was joined. -/
theorem confined_of_not_mem_colon {scheme authority path : Bytes} {t : EffectiveRequestTarget}
    (h : buildTarget scheme authority path = .ok t) (hcolon : byte ':' ∉ scheme) :
    Confined scheme authority path t := by
  obtain ⟨hslash, hhash, hauth, hnorm⟩ := buildTarget_eq_ok h
  have hcut : IsCut (scheme ++ ascii "://" ++ authority ++ path) scheme authority path := by
    refine ⟨?_, hcolon, hauth, ?_⟩
    · have hsep : ascii "://" = byte ':' :: ascii "//" := rfl
      rw [hsep]
      simp
    · intro b hb
      rw [hslash] at hb
      cases hb
      decide
  obtain ⟨T, htarget, htext, hnormal⟩ := normalizeHttpUri_eq_text hnorm
  rw [ofText_of_isCut hcut, pathPart_eq_takeWhile hhash] at htarget
  obtain ⟨hscheme, hhost, hport, hpath⟩ := HttpUri.target_eq_some htarget
  refine ⟨T, ?_, htext.symm, (parseScheme_eq_ok hscheme).symm, hhost, ?_, hpath⟩
  · rw [EffectiveRequestTarget.asStr, htext]
    exact target_ofText_text hnormal
  · simpa [HttpUri.port, HttpUri.schemeOf, hscheme, Except.toOption, HttpUri.effectivePort]
      using hport

/-- The scheme of a target has no colon. -/
theorem not_mem_colon_of_confined {scheme authority path : Bytes} {t : EffectiveRequestTarget}
    (h : Confined scheme authority path t) : byte ':' ∉ scheme := by
  obtain ⟨T, -, -, hscheme, -⟩ := h
  intro hm
  have hlow : byte ':' ∈ toAsciiLowercase scheme := by
    have : toAsciiLower (byte ':') = byte ':' := by decide
    rw [← this]
    exact List.mem_map_of_mem hm
  rw [← hscheme] at hlow
  exact text_scheme_ne T.scheme _ hlow rfl

/-- **The target is confined to its parts if and only if the scheme contains no colon**, for the
parts of a direct request and for the parts that a trusted proxy relays. -/
theorem confined_iff_not_mem_colon {P : Type} (resolver : TrustedProxyTargetResolver P) (peer : P)
    (scheme authority path : Bytes) (headers : ForwardingHeaders) (t : EffectiveRequestTarget) :
    (buildTarget scheme authority path = .ok t →
      (Confined scheme authority path t ↔ byte ':' ∉ scheme)) ∧
    (resolveDirectTarget scheme authority path = .ok t →
      (Confined scheme authority path t ↔ byte ':' ∉ scheme)) ∧
    (resolver.resolve peer path headers = .ok t →
      ∃ scheme authority, resolver.resolveHeaders headers = .ok (scheme, authority) ∧
        (Confined scheme authority path t ↔ byte ':' ∉ scheme)) := by
  have hbuild : ∀ scheme authority, buildTarget scheme authority path = .ok t →
      (Confined scheme authority path t ↔ byte ':' ∉ scheme) := fun scheme authority h =>
    ⟨not_mem_colon_of_confined, confined_of_not_mem_colon h⟩
  refine ⟨hbuild scheme authority, hbuild scheme authority, ?_⟩
  intro h
  unfold TrustedProxyTargetResolver.resolve at h
  split at h
  · cases h
  cases hheaders : resolver.resolveHeaders headers with
  | error e =>
    rw [hheaders] at h
    cases h
  | ok parts =>
    obtain ⟨scheme', authority'⟩ := parts
    rw [hheaders] at h
    exact ⟨scheme', authority', rfl, hbuild scheme' authority' h⟩

/-- The target of a request whose parts keep to themselves. -/
def directTarget : EffectiveRequestTarget where
  value := ascii "https://api.example.com/rpc"
  normalized := ⟨ascii "HTTPS://Api.Example.com:443/a/../rpc?q=:", by decide +kernel⟩

theorem confined_iff_not_mem_colon_direct :
    resolveDirectTarget (ascii "HTTPS") (ascii "Api.Example.com:443") (ascii "/a/../rpc?q=:") =
        .ok directTarget ∧
      Confined (ascii "HTTPS") (ascii "Api.Example.com:443") (ascii "/a/../rpc?q=:")
        directTarget := by
  have hbuild : resolveDirectTarget (ascii "HTTPS") (ascii "Api.Example.com:443")
      (ascii "/a/../rpc?q=:") = .ok directTarget := by decide +kernel
  exact ⟨hbuild, ((confined_iff_not_mem_colon (P := Unit) ⟨fun _ => true, .xForwarded⟩ () _ _ _
    ⟨none, none, none⟩ directTarget).2.1 hbuild).2 (by decide)⟩

/-- The target of a relayed scheme that supplies the host and the path as well: the authority and
the path of the request end up in the query, which is dropped. -/
def injectedTarget : EffectiveRequestTarget where
  value := ascii "https://evil.example/p"
  normalized := ⟨ascii "https://evil.example/p?://api.example.com/rpc", by decide +kernel⟩

theorem xForwardedProto_not_confined :
    TrustedProxyTargetResolver.resolve (P := Unit) ⟨fun _ => true, .xForwarded⟩ () (ascii "/rpc")
        ⟨none, some (ascii "https://evil.example/p?"), some (ascii "api.example.com")⟩ =
          .ok injectedTarget ∧
      buildTarget (ascii "https://evil.example/p?") (ascii "api.example.com") (ascii "/rpc") =
        .ok injectedTarget ∧
      ¬ Confined (ascii "https://evil.example/p?") (ascii "api.example.com") (ascii "/rpc")
        injectedTarget := by
  refine ⟨by decide +kernel, by decide +kernel, ?_⟩
  intro hconfined
  exact not_mem_colon_of_confined hconfined (by decide)

end Keylix.Http
