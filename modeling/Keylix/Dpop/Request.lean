import Keylix.Lib.Ipv6
import Keylix.Lib.Uri
import Keylix.Dpop.Ports

/-!
# Request targets

The normalisation of absolute HTTP(S) URIs for the comparison of request targets, and the request
context that proof construction and verification share.

A text is cut at a delimiter with `find`, `take` and `drop` as in the source. The last section
gives the cut in terms of the longest part without the delimiter.
-/

set_option autoImplicit false

namespace Keylix.Dpop

open Keylix.Lib

def maxTargetBytes : Nat := 2048

def maxMethodBytes : Nat := 64

/-! ## Methods -/

def isHttpTokenByte (b : UInt8) : Bool :=
  (ascii "!#$%&'*+-.^_`|~").contains b || isAsciiAlphanumeric b

def validateMethod (method : Bytes) : Except DpopError Unit :=
  if method.isEmpty || maxMethodBytes < method.length || !method.all isHttpTokenByte then
    .error .invalidMethod
  else .ok ()

/-! ## Percent-encoding -/

def isUnreserved (b : UInt8) : Bool :=
  isAsciiAlphanumeric b || (ascii "-._~").contains b

def hexValue (b : UInt8) : Option UInt8 :=
  if byte '0' ≤ b && b ≤ byte '9' then some (b - byte '0')
  else if byte 'a' ≤ b && b ≤ byte 'f' then some (b - byte 'a' + 10)
  else if byte 'A' ≤ b && b ≤ byte 'F' then some (b - byte 'A' + 10)
  else none

def hexUpper (value : UInt8) : UInt8 :=
  if value ≤ 9 then byte '0' + value else byte 'A' + (value - 10)

/-- Decodes the escapes of unreserved characters and writes the others with upper-case digits. The
texts are ASCII here, so that a byte is the character pushed. -/
def normalizePercentEncoding : Bytes → Except DpopError Bytes
  | [] => .ok []
  | b :: rest =>
      if b ≠ byte '%' then (normalizePercentEncoding rest).map (b :: ·)
      else
        match rest with
        | h :: l :: rest =>
            match hexValue h, hexValue l with
            | some high, some low =>
                let value := high <<< 4 ||| low
                (normalizePercentEncoding rest).map fun output =>
                  if isUnreserved value then value :: output
                  else byte '%' :: hexUpper high :: hexUpper low :: output
            | _, _ => .error .invalidRequestTarget
        | _ => .error .invalidRequestTarget

/-! ## Dot segments -/

/-- Drops the last segment and its slash. -/
def removeLastSegment (output : Bytes) : Bytes :=
  ((output.reverse.dropWhile (· ≠ byte '/')).tail).reverse

/-- The length of the first segment, with the slash before it. -/
def firstSegmentEnd (input : Bytes) : Nat :=
  if input.head? = some (byte '/') then
    match input.tail.findIdx? (· = byte '/') with
    | some position => position + 1
    | none => input.length
  else (input.findIdx? (· = byte '/')).getD input.length

/-- The loop of `removeDotSegments`: every round shortens the input, so that its length bounds the
number of rounds. -/
def removeDotSegmentsLoop : Nat → Bytes → Bytes → Bytes
  | 0, _, output => output
  | n + 1, input, output =>
      if input.isEmpty then output
      else if (ascii "../").isPrefixOf input then removeDotSegmentsLoop n (input.drop 3) output
      else if (ascii "./").isPrefixOf input then removeDotSegmentsLoop n (input.drop 2) output
      else if (ascii "/./").isPrefixOf input then
        removeDotSegmentsLoop n (byte '/' :: input.drop 3) output
      else if input = ascii "/." then removeDotSegmentsLoop n [byte '/'] output
      else if (ascii "/../").isPrefixOf input then
        removeDotSegmentsLoop n (byte '/' :: input.drop 4) (removeLastSegment output)
      else if input = ascii "/.." then
        removeDotSegmentsLoop n [byte '/'] (removeLastSegment output)
      else if input = ascii "." || input = ascii ".." then removeDotSegmentsLoop n [] output
      else
        removeDotSegmentsLoop n (input.drop (firstSegmentEnd input))
          (output ++ input.take (firstSegmentEnd input))

def removeDotSegments (path : Bytes) : Bytes := removeDotSegmentsLoop path.length path []

/-! ## Authorities -/

inductive Scheme where
  | http
  | https
  deriving DecidableEq

def Scheme.text : Scheme → Bytes
  | .http => ascii "http"
  | .https => ascii "https"

def Scheme.defaultPort : Scheme → Nat
  | .http => 80
  | .https => 443

/-- The scheme of a text, up to case. -/
def parseScheme (rawScheme : Bytes) : Except DpopError Scheme :=
  if eqIgnoreAsciiCase rawScheme (ascii "https") then .ok .https
  else if eqIgnoreAsciiCase rawScheme (ascii "http") then .ok .http
  else .error .invalidRequestTarget

/-- Leading zeros are read like any other digit. -/
def parsePort (rawPort : Bytes) : Except DpopError Nat :=
  if rawPort.isEmpty || !rawPort.all isAsciiDigit then .error .invalidRequestTarget
  else
    match parseNumeral 10 rawPort with
    | some port => if port < 65536 then .ok port else .error .invalidRequestTarget
    | none => .error .invalidRequestTarget

def normalizeRegNameHost (rawHost : Bytes) : Except DpopError Bytes := do
  let normalized ← normalizePercentEncoding rawHost
  normalizePercentEncoding (toAsciiLowercase normalized)

/-- Removes an expected first part. -/
def stripPrefix (start s : Bytes) : Except DpopError Bytes :=
  if start.isPrefixOf s then .ok (s.drop start.length) else .error .invalidRequestTarget

/-- The texts before and after the last occurrence of `c`. -/
def rsplitOnce (c : UInt8) (s : Bytes) : Option (Bytes × Bytes) :=
  if s.contains c then
    some ((s.reverse.dropWhile (· ≠ c)).tail.reverse, (s.reverse.takeWhile (· ≠ c)).reverse)
  else none

/-- The port after the closing bracket of an address. -/
def parseTailPort (tail : Bytes) : Except DpopError (Option Nat) :=
  if tail.isEmpty then .ok none
  else do
    let rawPort ← stripPrefix (ascii ":") tail
    let port ← parsePort rawPort
    .ok (some port)

/-- The host of an authority as it is written in the target, with its explicit port. -/
def normalizeHostPort (authority : Bytes) : Except DpopError (Bytes × Option Nat) :=
  if authority.head? = some (byte '[') then
    match authority.findIdx? (· = byte ']') with
    | none => .error .invalidRequestTarget
    | some close =>
        match Ipv6Addr.parse ((authority.take close).drop 1) with
        | none => .error .invalidRequestTarget
        | some ipv6 => do
            let port ← parseTailPort (authority.drop (close + 1))
            .ok (byte '[' :: (ipv6.display ++ [byte ']']), port)
  else if authority.contains (byte '[') || authority.contains (byte ']') ||
      1 < authority.count (byte ':') then .error .invalidRequestTarget
  else do
    let (rawHost, port) ←
      match rsplitOnce (byte ':') authority with
      | some (host, rawPort) => do
          let port ← parsePort rawPort
          .ok (host, some port)
      | none => .ok (authority, none)
    if rawHost.isEmpty then .error .invalidRequestTarget
    else do
      let host ← normalizeRegNameHost rawHost
      .ok (host, port)

/-- The default port of the scheme is left out. -/
def normalizeAuthority (authority : Bytes) (scheme : Scheme) :
    Except DpopError (Bytes × Option Nat) := do
  let (host, port) ← normalizeHostPort authority
  .ok (host, if port = some scheme.defaultPort then none else port)

/-! ## Targets -/

def findFirst (input needles : Bytes) : Option Nat := input.findIdx? needles.contains

/-- The text of a target from its normalised parts. -/
def assembleTarget (scheme : Scheme) (host : Bytes) (port : Option Nat) (path : Bytes) : Bytes :=
  scheme.text ++ ascii "://" ++ host ++
    (match port with
      | some port => byte ':' :: decimal port
      | none => []) ++
    if path.isEmpty then [byte '/'] else path

/-- The bytes that no target contains. -/
def isControlOrSpace (b : UInt8) : Bool := b ≤ 0x20 || b = 0x7f

def normalizeHttpUri (input : Bytes) : Except DpopError Bytes :=
  if input.isEmpty || maxTargetBytes < input.length || !isAscii input ||
      input.any isControlOrSpace then .error .invalidRequestTarget
  else
    match input.findIdx? (· = byte ':') with
    | none => .error .invalidRequestTarget
    | some schemeEnd => do
        let scheme ← parseScheme (input.take schemeEnd)
        let afterSlashes ← stripPrefix (ascii "//") (input.drop (schemeEnd + 1))
        let authorityEnd := (findFirst afterSlashes (ascii "/?#")).getD afterSlashes.length
        let authority := afterSlashes.take authorityEnd
        let suffix := afterSlashes.drop authorityEnd
        if authority.isEmpty || authority.contains (byte '@') then .error .invalidRequestTarget
        else do
          let (host, port) ← normalizeAuthority authority scheme
          let pathEnd := (findFirst suffix (ascii "?#")).getD suffix.length
          let rawPath := suffix.take pathEnd
          if !rawPath.isEmpty && rawPath.head? ≠ some (byte '/') then .error .invalidRequestTarget
          else do
            let percentNormalized ←
              normalizePercentEncoding (if rawPath.isEmpty then [byte '/'] else rawPath)
            .ok (assembleTarget scheme host port (removeDotSegments percentNormalized))

/-- A normalised request target. -/
structure EffectiveRequestTarget where
  value : Bytes
  normalized : ∃ input, normalizeHttpUri input = .ok value

namespace EffectiveRequestTarget

@[ext] theorem ext_value {t u : EffectiveRequestTarget} (h : t.value = u.value) : t = u := by
  cases t
  cases u
  cases h
  rfl

instance : DecidableEq EffectiveRequestTarget := fun t u =>
  decidable_of_iff (t.value = u.value) ⟨ext_value, fun h => h ▸ rfl⟩

def parse (input : Bytes) : Except DpopError EffectiveRequestTarget :=
  match h : normalizeHttpUri input with
  | .ok value => .ok ⟨value, input, h⟩
  | .error e => .error e

def asStr (t : EffectiveRequestTarget) : Bytes := t.value

theorem parse_eq_ok_iff {input : Bytes} {t : EffectiveRequestTarget} :
    parse input = .ok t ↔ normalizeHttpUri input = .ok t.value := by
  unfold parse
  split
  · next value h =>
    constructor
    · intro he
      cases he
      exact h
    · intro he
      rw [he] at h
      cases h
      rfl
  · next e h =>
    constructor
    · intro he
      cases he
    · intro he
      rw [he] at h
      cases h

end EffectiveRequestTarget

/-! ## Failures

Every failure of the normalisation is the same. -/

section Failures

variable {e : DpopError}

theorem normalizePercentEncoding_eq_error {s : Bytes}
    (h : normalizePercentEncoding s = .error e) : e = .invalidRequestTarget := by
  fun_induction normalizePercentEncoding s with
  | case1 => cases h
  | case2 b rest hb ih => exact ih (map_eq_error_iff.1 h)
  | case3 =>
    next ih => exact ih (map_eq_error_iff.1 h)
  | case4 => exact (Except.error.inj h).symm
  | case5 => exact (Except.error.inj h).symm

theorem parsePort_eq_error {s : Bytes} (h : parsePort s = .error e) :
    e = .invalidRequestTarget := by
  unfold parsePort at h
  split at h
  · exact (Except.error.inj h).symm
  split at h
  · split at h
    · cases h
    · exact (Except.error.inj h).symm
  · exact (Except.error.inj h).symm

theorem stripPrefix_eq_error {start s : Bytes} (h : stripPrefix start s = .error e) :
    e = .invalidRequestTarget := by
  unfold stripPrefix at h
  split at h
  · cases h
  · exact (Except.error.inj h).symm

theorem parseTailPort_eq_error {tail : Bytes} (h : parseTailPort tail = .error e) :
    e = .invalidRequestTarget := by
  unfold parseTailPort at h
  split at h
  · cases h
  rcases bind_eq_error_iff.1 h with h | ⟨_, -, h⟩
  · exact stripPrefix_eq_error h
  rcases bind_eq_error_iff.1 h with h | ⟨_, -, h⟩
  · exact parsePort_eq_error h
  · cases h

theorem normalizeHostPort_eq_error {authority : Bytes}
    (h : normalizeHostPort authority = .error e) :
    e = .invalidRequestTarget := by
  unfold normalizeHostPort at h
  split at h
  · split at h
    · exact (Except.error.inj h).symm
    split at h
    · exact (Except.error.inj h).symm
    rcases bind_eq_error_iff.1 h with h | ⟨_, -, h⟩
    · exact parseTailPort_eq_error h
    · cases h
  split at h
  · exact (Except.error.inj h).symm
  have hhost : ∀ {rawHost : Bytes} {port : Option Nat},
      (if rawHost.isEmpty then .error .invalidRequestTarget
        else do
          let host ← normalizeRegNameHost rawHost
          .ok (host, port) : Except DpopError (Bytes × Option Nat)) = .error e →
        e = .invalidRequestTarget := by
    intro rawHost port h
    split at h
    · exact (Except.error.inj h).symm
    rcases bind_eq_error_iff.1 h with h | ⟨_, -, h⟩
    · rcases bind_eq_error_iff.1 h with h | ⟨_, -, h⟩
      · exact normalizePercentEncoding_eq_error h
      · exact normalizePercentEncoding_eq_error h
    · cases h
  dsimp only at h
  split at h
  · rcases bind_eq_error_iff.1 h with h | ⟨_, -, h⟩
    · exact parsePort_eq_error h
    · exact hhost h
  · exact hhost h

theorem normalizeHttpUri_eq_error {input : Bytes} (h : normalizeHttpUri input = .error e) :
    e = .invalidRequestTarget := by
  unfold normalizeHttpUri at h
  split at h
  · exact (Except.error.inj h).symm
  split at h
  · exact (Except.error.inj h).symm
  rcases bind_eq_error_iff.1 h with h | ⟨_, -, h⟩
  · unfold parseScheme at h
    split at h
    · cases h
    split at h
    · cases h
    · exact (Except.error.inj h).symm
  rcases bind_eq_error_iff.1 h with h | ⟨_, -, h⟩
  · exact stripPrefix_eq_error h
  dsimp only at h
  split at h
  · exact (Except.error.inj h).symm
  rcases bind_eq_error_iff.1 h with h | ⟨_, -, h⟩
  · unfold normalizeAuthority at h
    rcases bind_eq_error_iff.1 h with h | ⟨_, -, h⟩
    · exact normalizeHostPort_eq_error h
    · cases h
  split at h
  · exact (Except.error.inj h).symm
  rcases bind_eq_error_iff.1 h with h | ⟨_, -, h⟩
  · exact normalizePercentEncoding_eq_error h
  · cases h

theorem EffectiveRequestTarget.parse_eq_error {input : Bytes} (h : parse input = .error e) :
    e = .invalidRequestTarget := by
  unfold parse at h
  split at h
  · cases h
  · next e' he =>
    cases h
    exact normalizeHttpUri_eq_error he

end Failures

/-! ## Requests -/

/-- A request: a proof for it carries the hash of the access token and the nonce, when given. -/
structure DpopRequest where
  method : Bytes
  target : EffectiveRequestTarget
  accessToken : Option Bytes
  nonce : Option DpopNonce
  validMethod : validateMethod method = .ok ()

namespace DpopRequest

def new (method : Bytes) (target : EffectiveRequestTarget) : Except DpopError DpopRequest :=
  match h : validateMethod method with
  | .ok () => .ok ⟨method, target, none, none, h⟩
  | .error e => .error e

def withAccessToken (request : DpopRequest) (accessToken : Bytes) : DpopRequest :=
  { request with accessToken := some accessToken }

def withNonce (request : DpopRequest) (nonce : DpopNonce) : DpopRequest :=
  { request with nonce := some nonce }

end DpopRequest

/-! ## Cuts -/

theorem take_findIdx?_getD {α : Type} (p : α → Bool) (s : List α) :
    s.take ((s.findIdx? p).getD s.length) = s.takeWhile fun a => !p a := by
  induction s with
  | nil => rfl
  | cons a s ih =>
    rw [List.findIdx?_cons, List.takeWhile_cons]
    cases hp : p a with
    | true => simp
    | false =>
      cases hs : s.findIdx? p with
      | none => simpa [hs] using ih
      | some i => simpa [hs] using ih

theorem drop_findIdx?_getD {α : Type} (p : α → Bool) (s : List α) :
    s.drop ((s.findIdx? p).getD s.length) = s.dropWhile fun a => !p a := by
  induction s with
  | nil => rfl
  | cons a s ih =>
    rw [List.findIdx?_cons, List.dropWhile_cons]
    cases hp : p a with
    | true => simp
    | false =>
      cases hs : s.findIdx? p with
      | none => simpa [hs] using ih
      | some i => simpa [hs] using ih

/-- The index of the delimiter, when what stands before it is known. -/
theorem findIdx?_append_cons {α : Type} [DecidableEq α] {c : α} {s : List α} (hs : c ∉ s)
    (t : List α) : (s ++ c :: t).findIdx? (· = c) = some s.length := by
  induction s with
  | nil => simp [List.findIdx?_cons]
  | cons a s ih =>
    have ha : a ≠ c := fun h => hs (h ▸ List.mem_cons_self)
    have hs' : c ∉ s := fun h => hs (List.mem_cons_of_mem _ h)
    rw [List.cons_append, List.findIdx?_cons]
    simp [ha, ih hs']

theorem findIdx?_eq_some_split {α : Type} [DecidableEq α] {c : α} {s : List α} {i : Nat}
    (h : s.findIdx? (· = c) = some i) :
    s = s.take i ++ c :: s.drop (i + 1) ∧ c ∉ s.take i := by
  induction s generalizing i with
  | nil => cases h
  | cons a s ih =>
    rw [List.findIdx?_cons] at h
    by_cases ha : a = c
    · simp only [ha, decide_true, if_true, Option.some.injEq] at h
      subst h
      simp [ha]
    · simp only [ha, decide_false, Bool.false_eq_true, if_false, Option.map_eq_some_iff] at h
      obtain ⟨j, hj, rfl⟩ := h
      obtain ⟨hsplit, hnot⟩ := ih hj
      refine ⟨?_, ?_⟩
      · simpa using hsplit
      · simpa [hnot] using Ne.symm ha

end Keylix.Dpop
