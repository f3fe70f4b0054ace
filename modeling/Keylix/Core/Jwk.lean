import Keylix.Lib.Base64
import Keylix.Lib.JsonValue
import Keylix.Lib.Program

/-!
# Public P-256 keys

The JSON Web Keys of `keylix-core`: reading a key from JSON, writing it, and its thumbprint. The
hash, the check that a point lies on the curve and the signature check belong to the cryptographic
library and are fields of `Crypto`; a key that is not a point of the curve cannot be built.

`fromJson_toJson` is the round trip of a key through its JSON form.
-/

set_option autoImplicit false

namespace Keylix.Core

open Keylix.Lib

/-- What the cryptographic library provides: SHA-256, and P-256 public keys in uncompressed form
with the check of a fixed-format ES256 signature. -/
structure Crypto where
  PublicKey : Type
  sha256 : Bytes → ByteArr 32
  parsedPublicKey : Bytes → Option PublicKey
  verifySig : PublicKey → Bytes → Bytes → Bool

/-- A failure to read a public key. -/
inductive JwkError where
  | invalidJson
  | unsupportedKeyType
  | unsupportedCurve
  | privateKeyMaterial
  | invalidCoordinateEncoding (coordinate : Bytes)
  | invalidCoordinateLength (coordinate : Bytes)
  | invalidPublicPoint
  deriving DecidableEq

/-- The SHA-256 thumbprint of a key. -/
structure JwkThumbprint where
  bytes : ByteArr 32
  deriving DecidableEq

def JwkThumbprint.toBase64url (t : JwkThumbprint) : Bytes := Base64.encode t.bytes.1

theorem JwkThumbprint.toBase64url_injective : Function.Injective JwkThumbprint.toBase64url := by
  rintro ⟨bytes⟩ ⟨bytes'⟩ h
  exact congrArg JwkThumbprint.mk (Subtype.ext (Base64.encode_injective h))

/-- The uncompressed form of a point. -/
def uncompressedPoint (x y : ByteArr 32) : Bytes := 0x04 :: (x.1 ++ y.1)

/-- A public P-256 key: two coordinates of a point of the curve. -/
structure PublicP256Jwk (crypto : Crypto) where
  x : ByteArr 32
  y : ByteArr 32
  isPoint : (crypto.parsedPublicKey (uncompressedPoint x y)).isSome = true

/-- The fields read from the JSON form. -/
structure PublicP256JwkWire where
  kty : Bytes
  crv : Bytes
  x : Bytes
  y : Bytes
  privateMember : Bool

/-- The record type of the JSON form. -/
def jwkFields : List Json.Field :=
  [⟨ascii "kty", .required⟩, ⟨ascii "crv", .required⟩, ⟨ascii "x", .required⟩,
    ⟨ascii "y", .required⟩, ⟨ascii "d", .defaulted⟩]

/-- Any value of the member `d`, `null` included, marks private key material. -/
def PublicP256JwkWire.ofJson (j : Json) : Option PublicP256JwkWire :=
  match Json.recordFields false jwkFields j with
  | some [some kty, some crv, some x, some y, d] => do
      let kty ← kty.asString
      let crv ← crv.asString
      let x ← x.asString
      let y ← y.asString
      some ⟨kty, crv, x, y, d.isSome⟩
  | _ => none

/-- A coordinate: canonical base64url text of 32 bytes. -/
def decodeCoordinate (coordinate encoded : Bytes) : Except JwkError (ByteArr 32) :=
  match Base64.decode encoded with
  | none => .error (.invalidCoordinateEncoding coordinate)
  | some decoded =>
      if h : decoded.length = 32 then
        if Base64.encode decoded ≠ encoded then .error (.invalidCoordinateEncoding coordinate)
        else .ok ⟨decoded, h⟩
      else .error (.invalidCoordinateLength coordinate)

/-- Base64url text needs no escapes. -/
theorem escape_encode (b : Bytes) : Json.escape (Base64.encode b) = Base64.encode b := by
  have hsymbol : ∀ c : UInt8, Base64.isSymbol c = true → Json.escapedByteLength c = 1 := by
    decide +kernel
  apply Json.escape_eq_self
  intro c hc
  exact hsymbol c (Base64.isSymbol_of_mem_encode hc)

section Key

variable (crypto : Crypto)

/-- Checks the fields of a key. -/
def PublicP256Jwk.fromWire (wire : PublicP256JwkWire) : Except JwkError (PublicP256Jwk crypto) :=
  if wire.privateMember then .error .privateKeyMaterial
  else if wire.kty ≠ ascii "EC" then .error .unsupportedKeyType
  else if wire.crv ≠ ascii "P-256" then .error .unsupportedCurve
  else do
    let x ← decodeCoordinate (ascii "x") wire.x
    let y ← decodeCoordinate (ascii "y") wire.y
    if h : (crypto.parsedPublicKey (uncompressedPoint x y)).isSome = true then .ok ⟨x, y, h⟩
    else .error .invalidPublicPoint

/-- Reads a key from a JSON text. -/
def PublicP256Jwk.fromJson (json : JsonText) (input : Bytes) :
    Except JwkError (PublicP256Jwk crypto) :=
  match (json.parse input).bind PublicP256JwkWire.ofJson with
  | none => .error .invalidJson
  | some wire => fromWire crypto wire

end Key

namespace PublicP256Jwk

variable {crypto : Crypto}

/-- The JSON form of a key. -/
def toJson (jwk : PublicP256Jwk crypto) : Json :=
  .obj [(ascii "kty", .str (ascii "EC")), (ascii "crv", .str (ascii "P-256")),
    (ascii "x", .str (Base64.encode jwk.x.1)), (ascii "y", .str (Base64.encode jwk.y.1))]

/-- The text the thumbprint is taken of: the required members in lexicographic order. -/
def canonicalThumbprintInput (jwk : PublicP256Jwk crypto) : Bytes :=
  ascii "\x7b\"crv\":\"P-256\",\"kty\":\"EC\",\"x\":\"" ++ Base64.encode jwk.x.1 ++
    ascii "\",\"y\":\"" ++ Base64.encode jwk.y.1 ++ ascii "\"\x7d"

def thumbprint (jwk : PublicP256Jwk crypto) : JwkThumbprint :=
  ⟨crypto.sha256 jwk.canonicalThumbprintInput⟩

@[ext] theorem ext_coordinates {j k : PublicP256Jwk crypto} (hx : j.x = k.x) (hy : j.y = k.y) :
    j = k := by
  cases j
  cases k
  cases hx
  cases hy
  rfl

/-! ## Round trip -/

/-- The form in which a stored key is written again: the members in lexicographic order. -/
theorem toValue_toJson (jwk : PublicP256Jwk crypto) :
    jwk.toJson.toValue =
      .obj [(ascii "crv", .str (ascii "P-256")), (ascii "kty", .str (ascii "EC")),
      (ascii "x", .str (Base64.encode jwk.x.1)), (ascii "y", .str (Base64.encode jwk.y.1))] := by
  have h₁ : ascii "crv" ≠ ascii "kty" ∧ ascii "crv" < ascii "kty" := by decide
  have h₂ : ascii "x" ≠ ascii "crv" ∧ ¬ ascii "x" < ascii "crv" ∧ ascii "x" ≠ ascii "kty" ∧
      ¬ ascii "x" < ascii "kty" := by decide
  have h₃ : ascii "y" ≠ ascii "crv" ∧ ¬ ascii "y" < ascii "crv" ∧ ascii "y" ≠ ascii "kty" ∧
      ¬ ascii "y" < ascii "kty" ∧ ascii "y" ≠ ascii "x" ∧ ¬ ascii "y" < ascii "x" := by
    decide
  simp only [toJson, Json.toValue, Json.toOrdered, Json.toValueMember, Json.insertMember, h₁, h₂,
    h₃, if_true, if_false]

theorem ofJson_toValue_toJson (jwk : PublicP256Jwk crypto) :
    PublicP256JwkWire.ofJson jwk.toJson.toValue =
      some ⟨ascii "EC", ascii "P-256", Base64.encode jwk.x.1, Base64.encode jwk.y.1, false⟩ := by
  rw [toValue_toJson]
  rfl

theorem decodeCoordinate_encode (coordinate : Bytes) (x : ByteArr 32) :
    decodeCoordinate coordinate (Base64.encode x.1) = .ok x := by
  simp [decodeCoordinate, Base64.decode_encode, x.2]

theorem decodeCoordinate_eq_ok_iff {coordinate encoded : Bytes} {x : ByteArr 32} :
    decodeCoordinate coordinate encoded = .ok x ↔ encoded = Base64.encode x.1 := by
  constructor
  · intro h
    unfold decodeCoordinate at h
    split at h
    · cases h
    split at h
    · split at h
      · cases h
      next hcanonical =>
      rw [not_not] at hcanonical
      cases h
      exact hcanonical.symm
    · cases h
  · rintro rfl
    exact decodeCoordinate_encode coordinate x

/-- The fields that make a key. -/
theorem fromWire_eq_ok_iff {wire : PublicP256JwkWire} {key : PublicP256Jwk crypto} :
    fromWire crypto wire = .ok key ↔
      wire.privateMember = false ∧ wire.kty = ascii "EC" ∧ wire.crv = ascii "P-256" ∧
        wire.x = Base64.encode key.x.1 ∧ wire.y = Base64.encode key.y.1 := by
  unfold fromWire
  split
  · next hprivate => simp [hprivate]
  next hprivate =>
  split
  · next hkty => simp [hkty]
  next hkty =>
  split
  · next hcrv => simp [hcrv]
  next hcrv =>
  rw [not_not] at hkty hcrv
  simp only [bind_eq_ok_iff, decodeCoordinate_eq_ok_iff, hkty, hcrv, true_and,
    Bool.not_eq_true _ ▸ hprivate]
  constructor
  · rintro ⟨x, hx, y, hy, h⟩
    split at h
    · cases h
      exact ⟨hx, hy⟩
    · cases h
  · rintro ⟨hx, hy⟩
    exact ⟨key.x, hx, key.y, hy, dif_pos key.isPoint⟩

theorem plain_toJson (key : PublicP256Jwk crypto) : key.toJson.Plain ∧ key.toJson.depth ≤ 127 := by
  have hname : ∀ n ∈ [ascii "kty", ascii "crv", ascii "x", ascii "y", ascii "EC", ascii "P-256"],
      IsUtf8 n := by
    intro n hn
    refine isUtf8_of_isAscii ?_
    revert n
    decide
  have hencode : ∀ b, IsUtf8 (Base64.encode b) :=
    fun b => isUtf8_of_isAscii (Base64.isAscii_encode b)
  simp only [List.mem_cons, List.not_mem_nil, or_false, forall_eq_or_imp, forall_eq] at hname
  constructor
  · simp [toJson, Json.Plain, Json.PlainMembers, Json.PlainMember, hname, hencode]
  · simp [toJson, Json.depth, Json.depthMembers, Json.depthMember]

theorem plain_toValue_toJson (jwk : PublicP256Jwk crypto) :
    jwk.toJson.toValue.Plain ∧ jwk.toJson.toValue.depth ≤ 127 := by
  obtain ⟨hplain, hdepth⟩ := jwk.plain_toJson
  obtain ⟨hstored, hstoredDepth⟩ := Json.plain_toValue _ hplain
  exact ⟨hstored, hstoredDepth.trans hdepth⟩

/-- A key is read back from its stored JSON form. -/
theorem fromJson_toJson (json : JsonText) (jwk : PublicP256Jwk crypto) :
    fromJson crypto json jwk.toJson.toValue.render = .ok jwk := by
  obtain ⟨hplain, hdepth⟩ := jwk.plain_toValue_toJson
  rw [fromJson, json.parse_render _ hplain hdepth, Option.bind_some, ofJson_toValue_toJson]
  simp only [fromWire, Bool.false_eq_true, if_false, ne_eq, not_true_eq_false,
    decodeCoordinate_encode]
  show (if h : _ then _ else _ : Except JwkError (PublicP256Jwk crypto)) = _
  rw [dif_pos jwk.isPoint]

end PublicP256Jwk

end Keylix.Core
