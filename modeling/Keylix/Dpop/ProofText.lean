import Keylix.Core.Thumbprint
import Keylix.Dpop.Agreement

/-!
# Which texts are proofs

The texts that the parser accepts. The header, the claims and the key are records; each of them is
read from an object by the names of its members, or from an array by position (`Form`).

`parse_exists_iff`: a text is accepted if and only if it is a proof text of some forms.
`parse_exact_iff`: the parser is exact for the object forms, except on the texts with an array in
the place of one of the three objects. `parse_array_claims` is one of them.
-/

set_option autoImplicit false

namespace Keylix.Dpop

open Keylix.Lib Keylix.Core

/-! ## Proof texts -/

/-- How a record is written. -/
inductive Form where
  | object
  | array
  deriving DecidableEq

/-- The members of a header. -/
def ReadsHeader (j : Json) (typ alg : Bytes) (jwk : Json) : Form → Prop
  | .object => ∃ ms, j = .obj ms ∧ (ascii "typ", .str typ) ∈ ms ∧ (ascii "alg", .str alg) ∈ ms ∧
      (ascii "jwk", jwk) ∈ ms
  | .array => j = .arr [.str typ, .str alg, jwk]

/-- The members of a public key: a private one is not among them. -/
def ReadsKey (j : Json) (kty crv x y : Bytes) : Form → Prop
  | .object => ∃ ms, j = .obj ms ∧ (ascii "kty", .str kty) ∈ ms ∧ (ascii "crv", .str crv) ∈ ms ∧
      (ascii "x", .str x) ∈ ms ∧ (ascii "y", .str y) ∈ ms ∧ ascii "d" ∉ ms.map Prod.fst
  | .array => j = .arr [.str kty, .str crv, .str x, .str y]

/-- An optional member: absent, `null` or a string. -/
def OptionalMember (ms : List (Bytes × Json)) (name : Bytes) : Option Bytes → Prop
  | none => name ∉ ms.map Prod.fst ∨ (name, .null) ∈ ms
  | some s => (name, .str s) ∈ ms

/-- An optional item: absent, `null` or a string. -/
def OptionalItem (item : Option Json) : Option Bytes → Prop
  | none => item = none ∨ item = some .null
  | some s => item = some (.str s)

/-- The members of the claims. -/
def ReadsClaims (j : Json) (claims : ClaimsWire) : Form → Prop
  | .object => ∃ ms, j = .obj ms ∧ (ascii "jti", .str claims.jti) ∈ ms ∧
      (ascii "htm", .str claims.htm) ∈ ms ∧ (ascii "htu", .str claims.htu) ∈ ms ∧
      (ascii "iat", .int claims.iat.toInt) ∈ ms ∧ OptionalMember ms (ascii "ath") claims.ath ∧
      OptionalMember ms (ascii "nonce") claims.nonce
  | .array => ∃ rest, j = .arr (.str claims.jti :: .str claims.htm :: .str claims.htu ::
      .int claims.iat.toInt :: rest) ∧ rest.length ≤ 2 ∧ OptionalItem rest[0]? claims.ath ∧
      OptionalItem rest[1]? claims.nonce

/-- The bounds of the claims. -/
structure ClaimBounds (claims : ClaimsWire) : Prop where
  jti : 1 ≤ claims.jti.length ∧ claims.jti.length ≤ 256
  htm : 1 ≤ claims.htm.length ∧ claims.htm.length ≤ 64
  htu : 1 ≤ claims.htu.length ∧ claims.htu.length ≤ 2048
  iat : 0 < claims.iat.toInt ∧ claims.iat.toInt < 2 ^ 63
  ath : ∀ ath, claims.ath = some ath → ath.length = 43
  nonce : ∀ nonce, claims.nonce = some nonce → 1 ≤ nonce.length ∧ nonce.length ≤ 1024

/-- Three non-empty segments, each of them strict base64url of a bounded text. -/
structure Framed (input header payload signature : Bytes) : Prop where
  length_le : input.length ≤ 8192
  segments : ∃ encodedHeader encodedPayload encodedSignature,
    input.splitOn (byte '.') = [encodedHeader, encodedPayload, encodedSignature] ∧
    encodedHeader ≠ [] ∧ encodedPayload ≠ [] ∧ encodedSignature ≠ [] ∧
    Base64.decode encodedHeader = some header ∧ Base64.decode encodedPayload = some payload ∧
    Base64.decode encodedSignature = some signature
  header_le : header.length ≤ 2048
  payload_le : payload.length ≤ 4096
  signature_le : signature.length ≤ 128

/-- A header with a public key. -/
def HeaderText (crypto : Crypto) (header key : Form) (j : Json) : Prop :=
  uniqueJson j = true ∧ ∃ typ alg jwk, ReadsHeader j typ alg jwk header ∧
    ∃ x y : ByteArr 32, ReadsKey jwk (ascii "EC") (ascii "P-256") (Base64.encode x.1)
        (Base64.encode y.1) key ∧
      (crypto.parsedPublicKey (uncompressedPoint x y)).isSome = true

/-- Claims within their bounds. -/
def ClaimsText (form : Form) (j : Json) : Prop :=
  uniqueJson j = true ∧ ∃ claims, ReadsClaims j claims form ∧ ClaimBounds claims

/-- How the three records of a proof are written. -/
structure Forms where
  header : Form
  claims : Form
  key : Form
  deriving DecidableEq

def Forms.objects : Forms := ⟨.object, .object, .object⟩

/-- A proof text, with its records written in the given forms. -/
def ProofText (crypto : Crypto) (json : JsonText) (input : Bytes) (forms : Forms) : Prop :=
  ∃ header payload signature j k, Framed input header payload signature ∧
    json.parse header = some j ∧ json.parse payload = some k ∧
    HeaderText crypto forms.header forms.key j ∧ ClaimsText forms.claims k

/-! ## Records -/

theorem nodup_of_uniqueJson {ms : List (Bytes × Json)} (h : uniqueJson (.obj ms) = true) :
    (ms.map Prod.fst).Nodup := by
  simp only [uniqueJson, Bool.and_eq_true, decide_eq_true_eq] at h
  exact h.1

/-- The header of an object or of an array. -/
theorem HeaderWire.ofJson_eq_some_iff {j : Json} (hj : uniqueJson j = true) {header : HeaderWire} :
    HeaderWire.ofJson j = some header ↔
      ∃ form jwk, ReadsHeader j header.typ header.alg jwk form ∧ header.jwk = jwk.toValue := by
  constructor
  · intro h
    unfold HeaderWire.ofJson at h
    split at h
    · next typ alg jwk hfields =>
      obtain ⟨t, ht, h⟩ := Option.bind_eq_some_iff.1 h
      obtain ⟨a, ha, h⟩ := Option.bind_eq_some_iff.1 h
      cases h
      rw [Json.asString_eq_some_iff] at ht ha
      subst ht ha
      -- an object is read by name, an array by position; no other value is a record
      cases j with
      | obj ms =>
        rw [Json.recordFields_obj_eq_some_iff (nodup_of_uniqueJson hj)] at hfields
        simp only [headerFields, List.forall₂_cons, List.forall₂_nil_left_iff, and_true] at hfields
        obtain ⟨h₁, h₂, h₃⟩ := hfields
        exact ⟨.object, jwk, ⟨ms, rfl, h₁, h₂, h₃⟩, rfl⟩
      | arr xs =>
        refine ⟨.array, jwk, ?_, rfl⟩
        simp only [Json.recordFields, headerFields] at hfields
        rcases xs with _ | ⟨x, _ | ⟨y, _ | ⟨z, _ | ⟨w, xs⟩⟩⟩⟩ <;>
          simp_all [Json.fieldsOfItems, ReadsHeader]
      | _ => cases hfields
    · cases h
  · rintro ⟨form, jwk, h, hjwk⟩
    cases form with
    | object =>
      obtain ⟨ms, rfl, h₁, h₂, h₃⟩ := h
      have hfields : Json.recordFields false headerFields (.obj ms) =
          some [some (.str header.typ), some (.str header.alg), some jwk] := by
        rw [Json.recordFields_obj_eq_some_iff (nodup_of_uniqueJson hj)]
        exact .cons h₁ (.cons h₂ (.cons h₃ .nil))
      rw [HeaderWire.ofJson, hfields]
      simp [Json.asString, ← hjwk]
    | array =>
      have hj : j = .arr [.str header.typ, .str header.alg, jwk] := h
      rw [hj]
      simp [HeaderWire.ofJson, Json.recordFields, headerFields, Json.fieldsOfItems, Json.asString,
        ← hjwk]

theorem optionalMember_iff {ms : List (Bytes × Json)} {f : Json.Field} (hf : f.kind ≠ .required)
    {value : Option Bytes} :
    (∃ v, Json.FieldIs ms f v ∧ Json.asOptionalString v = some value) ↔
      OptionalMember ms f.name value := by
  cases value with
  | none =>
    simp only [Json.asOptionalString_eq_none_iff]
    constructor
    · rintro ⟨v, hv, rfl | rfl⟩
      · exact Or.inl hv.2
      · exact Or.inr hv
    · rintro (h | h)
      · exact ⟨none, ⟨hf, h⟩, Or.inl rfl⟩
      · exact ⟨some .null, h, Or.inr rfl⟩
  | some s =>
    simp only [Json.asOptionalString_eq_some_iff]
    constructor
    · rintro ⟨v, hv, rfl⟩
      exact hv
    · intro h
      exact ⟨some (.str s), h, rfl⟩

theorem optionalItem_iff {item : Option Json} {value : Option Bytes} :
    Json.asOptionalString item = some value ↔ OptionalItem item value := by
  cases value with
  | none => exact Json.asOptionalString_eq_none_iff
  | some s => exact Json.asOptionalString_eq_some_iff

/-- The fields of claims written as an array: four items, and up to two more. -/
theorem recordFields_claims_arr {xs : List Json} {jti htm htu iat : Json}
    {ath nonce : Option Json} :
    Json.recordFields false claimsFields (.arr xs) =
        some [some jti, some htm, some htu, some iat, ath, nonce] ↔
      ∃ rest, xs = jti :: htm :: htu :: iat :: rest ∧ rest.length ≤ 2 ∧ ath = rest[0]? ∧
        nonce = rest[1]? := by
  simp only [Json.recordFields, claimsFields]
  rcases xs with _ | ⟨a, _ | ⟨b, _ | ⟨c, _ | ⟨d, _ | ⟨e, _ | ⟨f, _ | ⟨g, xs⟩⟩⟩⟩⟩⟩⟩ <;>
    simp [Json.fieldsOfItems, eq_comm, and_assoc]

/-- The claims of an object or of an array. -/
theorem ClaimsWire.ofJson_eq_some_iff {j : Json} (hj : uniqueJson j = true) {claims : ClaimsWire} :
    ClaimsWire.ofJson j = some claims ↔ ∃ form, ReadsClaims j claims form := by
  constructor
  · intro h
    unfold ClaimsWire.ofJson at h
    split at h
    · next jti htm htu iat ath nonce hfields =>
      obtain ⟨_, hjti, h⟩ := Option.bind_eq_some_iff.1 h
      obtain ⟨_, hhtm, h⟩ := Option.bind_eq_some_iff.1 h
      obtain ⟨_, hhtu, h⟩ := Option.bind_eq_some_iff.1 h
      obtain ⟨_, hiat, h⟩ := Option.bind_eq_some_iff.1 h
      obtain ⟨_, hath, h⟩ := Option.bind_eq_some_iff.1 h
      obtain ⟨_, hnonce, h⟩ := Option.bind_eq_some_iff.1 h
      cases h
      rw [Json.asString_eq_some_iff] at hjti hhtm hhtu
      rw [Json.asI64_eq_some_iff] at hiat
      subst hjti hhtm hhtu hiat
      -- an object is read by name, an array by position; no other value is a record
      cases j with
      | obj ms =>
        rw [Json.recordFields_obj_eq_some_iff (nodup_of_uniqueJson hj)] at hfields
        simp only [claimsFields, List.forall₂_cons, List.forall₂_nil_left_iff, and_true] at hfields
        obtain ⟨h₁, h₂, h₃, h₄, h₅, h₆⟩ := hfields
        exact ⟨.object, ms, rfl, h₁, h₂, h₃, h₄, (optionalMember_iff (by simp)).1 ⟨ath, h₅, hath⟩,
          (optionalMember_iff (by simp)).1 ⟨nonce, h₆, hnonce⟩⟩
      | arr xs =>
        obtain ⟨rest, rfl, hlen, rfl, rfl⟩ := recordFields_claims_arr.1 hfields
        exact ⟨.array, rest, rfl, hlen, optionalItem_iff.1 hath, optionalItem_iff.1 hnonce⟩
      | _ => cases hfields
    · cases h
  · rintro ⟨form, h⟩
    cases form with
    | object =>
      obtain ⟨ms, rfl, h₁, h₂, h₃, h₄, h₅, h₆⟩ := h
      obtain ⟨ath, hath, hath'⟩ := (optionalMember_iff (f := ⟨ascii "ath", .defaulted⟩)
        (by simp)).2 h₅
      obtain ⟨nonce, hnonce, hnonce'⟩ := (optionalMember_iff (f := ⟨ascii "nonce", .defaulted⟩)
        (by simp)).2 h₆
      have hfields : Json.recordFields false claimsFields (.obj ms) =
          some [some (.str claims.jti), some (.str claims.htm), some (.str claims.htu),
            some (.int claims.iat.toInt), ath, nonce] := by
        rw [Json.recordFields_obj_eq_some_iff (nodup_of_uniqueJson hj)]
        exact .cons h₁ (.cons h₂ (.cons h₃ (.cons h₄ (.cons hath (.cons hnonce .nil)))))
      have hiat : (Json.int claims.iat.toInt).asI64 = some claims.iat :=
        Json.asI64_eq_some_iff.2 rfl
      rw [ClaimsWire.ofJson, hfields]
      simp [Json.asString, hiat, hath', hnonce']
    | array =>
      obtain ⟨rest, rfl, hlen, h₅, h₆⟩ := h
      have hfields : Json.recordFields false claimsFields (.arr (.str claims.jti ::
          .str claims.htm :: .str claims.htu :: .int claims.iat.toInt :: rest)) =
          some [some (.str claims.jti), some (.str claims.htm), some (.str claims.htu),
            some (.int claims.iat.toInt), rest[0]?, rest[1]?] :=
        recordFields_claims_arr.2 ⟨rest, rfl, hlen, rfl, rfl⟩
      have hiat : (Json.int claims.iat.toInt).asI64 = some claims.iat :=
        Json.asI64_eq_some_iff.2 rfl
      rw [ClaimsWire.ofJson, hfields]
      simp [Json.asString, hiat, optionalItem_iff.2 h₅, optionalItem_iff.2 h₆]

/-- The names of an object are pairwise different. -/
def NodupNames (j : Json) : Prop := ∀ ms, j = .obj ms → (ms.map Prod.fst).Nodup

/-- The key of an object or of an array. -/
theorem PublicP256JwkWire_ofJson_eq_some_iff {j : Json} (hj : NodupNames j) {kty crv x y : Bytes} :
    PublicP256JwkWire.ofJson j = some ⟨kty, crv, x, y, false⟩ ↔
      ∃ form, ReadsKey j kty crv x y form := by
  rw [ofJson_eq_some_iff]
  constructor
  · rintro (⟨hkty, hcrv, hx, hy, hd⟩ | _)
    · refine ⟨.object, _, rfl, ?_, ?_, ?_, ?_, ?_⟩
      · exact Json.mem_of_memberValues hkty
      · exact Json.mem_of_memberValues hcrv
      · exact Json.mem_of_memberValues hx
      · exact Json.mem_of_memberValues hy
      · exact Json.not_mem_of_memberValues hd
    · exact ⟨.array, rfl⟩
  · rintro ⟨form, h⟩
    cases form with
    | object =>
      obtain ⟨ms, rfl, hkty, hcrv, hx, hy, hd⟩ := h
      have hnodup := hj ms rfl
      exact .object (Json.memberValues_of_mem hnodup hkty) (Json.memberValues_of_mem hnodup hcrv)
        (Json.memberValues_of_mem hnodup hx) (Json.memberValues_of_mem hnodup hy)
        (Json.memberValues_of_not_mem hd)
    | array =>
      cases h
      exact .array

/-! ## The key, stored and read again -/

/-- A stored key is the key that was read. -/
theorem readsKey_toValue {j : Json} (hj : NodupNames j) {kty crv x y : Bytes} {form : Form} :
    ReadsKey j.toValue kty crv x y form ↔ ReadsKey j kty crv x y form := by
  have hstr : ∀ {j : Json} {s : Bytes}, j.toValue = .str s ↔ j = .str s := by
    intro j s
    cases j <;> simp [Json.toValue]
  cases form with
  | object =>
    cases j with
    | obj ms =>
      have hmem : ∀ name s, (name, Json.str s) ∈ Json.toOrdered ms [] ↔
          (name, Json.str s) ∈ ms := by
        intro name s
        rw [Json.mem_toOrdered (hj ms rfl) Json.ordered_nil]
        constructor
        · rintro (⟨read, hread, he⟩ | ⟨-, h⟩)
          · rwa [hstr.1 he.symm] at hread
          · cases h
        · intro h
          exact Or.inl ⟨.str s, h, rfl⟩
      have hname : ∀ name, name ∈ (Json.toOrdered ms []).map Prod.fst ↔ name ∈ ms.map Prod.fst := by
        intro name
        simp only [List.mem_map, Prod.exists, exists_and_right, exists_eq_right,
          Json.mem_toOrdered (hj ms rfl) Json.ordered_nil]
        simp
      simp only [ReadsKey, Json.toValue, Json.obj.injEq, exists_eq_left', hmem, hname]
    | _ => simp [ReadsKey, Json.toValue]
  | array =>
    cases j with
    | arr xs =>
      simp only [ReadsKey, Json.toValue, Json.toValues_eq_map, Json.arr.injEq]
      rcases xs with _ | ⟨a, _ | ⟨b, _ | ⟨c, _ | ⟨d, _ | ⟨e, xs⟩⟩⟩⟩⟩ <;> simp [hstr]
    | _ => simp [ReadsKey, Json.toValue]

/-- A key is the same up to floating-point numbers. -/
theorem readsKey_of_withoutFloats {j k : Json} (h : j.withoutFloats = k.withoutFloats)
    {kty crv x y : Bytes} {form : Form} (hk : ReadsKey k kty crv x y form) :
    ReadsKey j kty crv x y form := by
  cases form with
  | object =>
    obtain ⟨ms, rfl, h₁, h₂, h₃, h₄, h₅⟩ := hk
    cases j with
    | obj ms' =>
      simp only [Json.withoutFloats, Json.obj.injEq] at h
      have hnames := Json.names_of_withoutFloats h
      rw [Json.withoutFloatsMembers_eq_map, Json.withoutFloatsMembers_eq_map] at h
      have hmem : ∀ name s, (name, Json.str s) ∈ ms → (name, Json.str s) ∈ ms' := by
        intro name s hs
        have hs' : (name, Json.str s) ∈ ms.map fun m => (m.1, m.2.withoutFloats) :=
          List.mem_map.2 ⟨_, hs, rfl⟩
        rw [← h, List.mem_map] at hs'
        obtain ⟨⟨name', v⟩, hv, he⟩ := hs'
        simp only [Prod.mk.injEq, Json.withoutFloats_eq_str_iff] at he
        obtain ⟨rfl, rfl⟩ := he
        exact hv
      exact ⟨ms', rfl, hmem _ _ h₁, hmem _ _ h₂, hmem _ _ h₃, hmem _ _ h₄, hnames ▸ h₅⟩
    | _ => simp [Json.withoutFloats] at h
  | array =>
    have hk' : k = .arr [.str kty, .str crv, .str x, .str y] := hk
    subst hk'
    cases j with
    | arr xs =>
      simp only [Json.withoutFloats, Json.withoutFloatsItems_eq_map, Json.arr.injEq] at h
      rcases xs with _ | ⟨a, _ | ⟨b, _ | ⟨c, _ | ⟨d, _ | ⟨e, xs⟩⟩⟩⟩⟩ <;>
        simp_all [ReadsKey, Json.withoutFloats_eq_str_iff, Json.withoutFloats]
    | _ => simp [Json.withoutFloats] at h

theorem nodupNames_toValue (j : Json) : NodupNames j.toValue := by
  intro ms hms
  cases j with
  | obj members =>
    simp only [Json.toValue, Json.obj.injEq] at hms
    rw [← hms]
    exact (Json.ordered_toOrdered Json.ordered_nil).nodup
  | _ => simp [Json.toValue] at hms

theorem nodupNames_of_withoutFloats {j k : Json} (h : j.withoutFloats = k.withoutFloats)
    (hk : NodupNames k) : NodupNames j := by
  rintro ms rfl
  cases k with
  | obj ms' =>
    simp only [Json.withoutFloats, Json.obj.injEq] at h
    rw [Json.names_of_withoutFloats h]
    exact hk ms' rfl
  | _ => simp [Json.withoutFloats] at h

section Exactness

variable {crypto : Crypto} {json : JsonText}

/-- The key inside a value that was read. -/
theorem exists_key_iff (hreread : json.Rereads) {input : Bytes} {j jwk : Json}
    (hparse : json.parse input = some j) (hchild : jwk ∈ j.children) (hunique : NodupNames jwk) :
    (∃ key, PublicP256Jwk.fromJson crypto json jwk.toValue.render = .ok key) ↔
      ∃ form, ∃ x y : ByteArr 32, ReadsKey jwk (ascii "EC") (ascii "P-256") (Base64.encode x.1)
          (Base64.encode y.1) form ∧
        (crypto.parsedPublicKey (uncompressedPoint x y)).isSome = true := by
  obtain ⟨read, hread, hsame⟩ := hreread input j jwk hparse hchild
  have hnodup := nodupNames_of_withoutFloats hsame (nodupNames_toValue jwk)
  have hreads : ∀ {kty crv x y form}, ReadsKey read kty crv x y form ↔
      ReadsKey jwk kty crv x y form := by
    intro kty crv x y form
    rw [← readsKey_toValue hunique]
    exact ⟨readsKey_of_withoutFloats hsame.symm, readsKey_of_withoutFloats hsame⟩
  rw [PublicP256Jwk.fromJson, hread, Option.bind_some]
  constructor
  · rintro ⟨key, hkey⟩
    split at hkey
    · cases hkey
    next wire hwire =>
    obtain ⟨kty, crv, x, y, privateMember⟩ := wire
    obtain ⟨hprivate, hkty, hcrv, hx, hy⟩ := PublicP256Jwk.fromWire_eq_ok_iff.1 hkey
    simp only at hprivate hkty hcrv hx hy
    subst hprivate hkty hcrv hx hy
    obtain ⟨form, hform⟩ := (PublicP256JwkWire_ofJson_eq_some_iff hnodup).1 hwire
    exact ⟨form, key.x, key.y, hreads.1 hform, key.isPoint⟩
  · rintro ⟨form, x, y, hform, hpoint⟩
    rw [(PublicP256JwkWire_ofJson_eq_some_iff hnodup).2 ⟨form, hreads.2 hform⟩]
    exact ⟨⟨x, y, hpoint⟩, PublicP256Jwk.fromWire_eq_ok_iff.2 ⟨rfl, rfl, rfl, rfl, rfl⟩⟩

/-! ## Parts -/

theorem rejectDuplicateJsonMembers_eq_ok_iff {input : Bytes} :
    rejectDuplicateJsonMembers json input = .ok () ↔
      ∃ j, json.parse input = some j ∧ uniqueJson j = true := by
  unfold rejectDuplicateJsonMembers
  cases json.parse input with
  | none => simp
  | some j =>
    simp only [Option.some.injEq, exists_eq_left']
    split
    · next h => simp [h]
    · next h => simp [h]

theorem validateClaimShape_eq_ok_iff {claims : ClaimsWire} :
    validateClaimShape claims = .ok () ↔ ClaimBounds claims := by
  unfold validateClaimShape
  split
  · next h =>
    refine iff_of_false (by simp) ?_
    rintro ⟨hjti, hhtm, hhtu, hiat, hath, hnonce⟩
    simp only [Bool.or_eq_true, List.isEmpty_iff_length_eq_zero, decide_eq_true_eq,
      Option.any_eq_true] at h
    have hjti' : claims.jti.length ≤ maxJtiBytes := hjti.2
    have hhtm' : claims.htm.length ≤ maxHtmBytes := hhtm.2
    have hhtu' : claims.htu.length ≤ maxHtuBytes := hhtu.2
    rcases h with ((((((((h | h) | h) | h) | h) | h) | h) | ⟨ath, hath', h⟩) | ⟨nonce, hnonce', h⟩)
    · omega
    · omega
    · omega
    · omega
    · omega
    · omega
    · omega
    · exact h (hath ath hath')
    · obtain ⟨hpos, hle⟩ := hnonce nonce hnonce'
      have hle' : nonce.length ≤ maxNonceBytes := hle
      omega
  · next h =>
    refine iff_of_true rfl ?_
    simp only [Bool.or_eq_true, List.isEmpty_iff_length_eq_zero, decide_eq_true_eq,
      Option.any_eq_true, not_or, not_exists, not_and, not_lt, not_le, not_not] at h
    obtain ⟨⟨⟨⟨⟨⟨⟨⟨h₁, h₂⟩, h₃⟩, h₄⟩, h₅⟩, h₆⟩, h₇⟩, h₈⟩, h₉⟩ := h
    refine ⟨⟨Nat.one_le_iff_ne_zero.2 h₁, h₂⟩, ⟨Nat.one_le_iff_ne_zero.2 h₃, h₄⟩,
      ⟨Nat.one_le_iff_ne_zero.2 h₅, h₆⟩, ⟨h₇, claims.iat.upper⟩, h₈, ?_⟩
    intro nonce hnonce
    obtain ⟨hne, hle⟩ := h₉ nonce hnonce
    exact ⟨Nat.one_le_iff_ne_zero.2 hne, hle⟩

theorem decodeSegment_eq_ok_iff {encoded decoded : Bytes} {maxDecodedBytes : Nat} :
    decodeSegment encoded maxDecodedBytes = .ok decoded ↔
      Base64.decode encoded = some decoded ∧ decoded.length ≤ maxDecodedBytes := by
  constructor
  · intro h
    have hdecode := decodeSegment_eq_ok h
    rw [← Base64.encode_of_decode hdecode] at h
    exact ⟨hdecode, (decodeSegment_encode_iff.1 h).1⟩
  · rintro ⟨hdecode, hlen⟩
    rw [← Base64.encode_of_decode hdecode]
    exact decodeSegment_encode_iff.2 ⟨hlen, rfl⟩

/-- The values inside a value without repeated names have none either. -/
theorem nodupNames_of_child {j v : Json} (hj : uniqueJson j = true) (hv : v ∈ j.children) :
    NodupNames v := by
  have hunique : uniqueJson v = true := by
    cases j with
    | arr xs =>
      simp only [uniqueJson] at hj
      induction xs with
      | nil => cases hv
      | cons x xs ih =>
        simp only [uniqueItems, Bool.and_eq_true] at hj
        rcases List.mem_cons.1 hv with rfl | hv
        · exact hj.1
        · exact ih hj.2 hv
    | obj ms =>
      simp only [uniqueJson, Bool.and_eq_true] at hj
      obtain ⟨m, hm, rfl⟩ := List.mem_map.1 hv
      exact uniqueMembers_iff.1 hj.2 m hm
    | _ => cases hv
  rintro ms rfl
  exact nodup_of_uniqueJson hunique

theorem mem_children_of_readsHeader {j jwk : Json} {typ alg : Bytes} {form : Form}
    (h : ReadsHeader j typ alg jwk form) : jwk ∈ j.children := by
  cases form with
  | object =>
    obtain ⟨ms, rfl, -, -, hjwk⟩ := h
    exact List.mem_map.2 ⟨_, hjwk, rfl⟩
  | array =>
    have hj : j = .arr [.str typ, .str alg, jwk] := h
    rw [hj]
    simp [Json.children]

/-- The two records of decoded segments. -/
theorem exists_parseParts_iff (hreread : json.Rereads)
    (encodedHeader encodedPayload headerBytes payloadBytes signature : Bytes) :
    (∃ proof, UnverifiedDpopProof.parseParts crypto json encodedHeader encodedPayload headerBytes
        payloadBytes signature = .ok proof) ↔
      ∃ j k, json.parse headerBytes = some j ∧ json.parse payloadBytes = some k ∧
        (∃ header key, HeaderText crypto header key j) ∧ ∃ form, ClaimsText form k := by
  unfold UnverifiedDpopProof.parseParts
  constructor
  · rintro ⟨proof, h⟩
    obtain ⟨_, hheader, h⟩ := bind_eq_ok_iff.1 h
    obtain ⟨_, hpayload, h⟩ := bind_eq_ok_iff.1 h
    -- the whole tree is checked for duplicates before any record is read from it
    obtain ⟨j, hj, hunique⟩ := rejectDuplicateJsonMembers_eq_ok_iff.1 hheader
    obtain ⟨k, hk, hunique'⟩ := rejectDuplicateJsonMembers_eq_ok_iff.1 hpayload
    rw [hj, hk, Option.bind_some, Option.bind_some] at h
    split at h
    · next header claims hofHeader hofClaims =>
      obtain ⟨_, hshape, h⟩ := bind_eq_ok_iff.1 h
      obtain ⟨headerForm, jwk, hreads, hjwk⟩ := (HeaderWire.ofJson_eq_some_iff hunique).1 hofHeader
      have hchild := mem_children_of_readsHeader hreads
      split at h
      -- the key is read again from the rendered member, so that its members have to be unique too
      · next key hkey =>
        rw [hjwk] at hkey
        obtain ⟨keyForm, x, y, hreadsKey, hpoint⟩ := (exists_key_iff hreread hj hchild
          (nodupNames_of_child hunique hchild)).1 ⟨key, hkey⟩
        obtain ⟨form, hclaims⟩ := (ClaimsWire.ofJson_eq_some_iff hunique').1 hofClaims
        exact ⟨j, k, hj, hk, ⟨headerForm, keyForm, hunique, _, _, jwk, hreads, x, y, hreadsKey,
          hpoint⟩, form, hunique', claims, hclaims, validateClaimShape_eq_ok_iff.1 hshape⟩
      · cases h
    · cases h
  · rintro ⟨j, k, hj, hk, ⟨headerForm, keyForm, hunique, typ, alg, jwk, hreads, x, y, hreadsKey,
      hpoint⟩, form, hunique', claims, hclaims, hbounds⟩
    have hchild := mem_children_of_readsHeader hreads
    have hofHeader : HeaderWire.ofJson j = some ⟨typ, alg, jwk.toValue⟩ :=
      (HeaderWire.ofJson_eq_some_iff hunique).2 ⟨headerForm, jwk, hreads, rfl⟩
    have hofClaims : ClaimsWire.ofJson k = some claims :=
      (ClaimsWire.ofJson_eq_some_iff hunique').2 ⟨form, hclaims⟩
    obtain ⟨key, hkey⟩ : ∃ key, PublicP256Jwk.fromJson crypto json jwk.toValue.render = .ok key :=
      (exists_key_iff hreread hj hchild (nodupNames_of_child hunique hchild)).2
        ⟨keyForm, x, y, hreadsKey, hpoint⟩
    refine ⟨⟨encodedHeader, encodedPayload, signature, ⟨typ, alg, jwk.toValue⟩, claims, key⟩, ?_⟩
    refine bind_eq_ok_iff.2 ⟨(), rejectDuplicateJsonMembers_eq_ok_iff.2 ⟨j, hj, hunique⟩, ?_⟩
    refine bind_eq_ok_iff.2 ⟨(), rejectDuplicateJsonMembers_eq_ok_iff.2 ⟨k, hk, hunique'⟩, ?_⟩
    -- the same order of checks, each passed
    rw [hj, hk, Option.bind_some, Option.bind_some, hofHeader, hofClaims]
    refine bind_eq_ok_iff.2 ⟨(), validateClaimShape_eq_ok_iff.2 hbounds, ?_⟩
    simp only [hkey]

/-- **The accepted texts are the proof texts of some forms.** -/
theorem parse_exists_iff (hreread : json.Rereads) (input : Bytes) :
    (∃ proof, UnverifiedDpopProof.parse crypto json input = .ok proof) ↔
      ∃ forms, ProofText crypto json input forms := by
  constructor
  · rintro ⟨proof, h⟩
    unfold UnverifiedDpopProof.parse at h
    split at h
    · cases h
    split at h
    · cases h
    next hlen =>
    split at h
    · next encodedHeader encodedPayload encodedSignature hsplit =>
      split at h
      · cases h
      next hne =>
      simp only [Bool.or_eq_true, List.isEmpty_iff, not_or] at hne
      obtain ⟨header, hheader, h⟩ := bind_eq_ok_iff.1 h
      obtain ⟨payload, hpayload, h⟩ := bind_eq_ok_iff.1 h
      obtain ⟨signature, hsignature, h⟩ := bind_eq_ok_iff.1 h
      -- the bounds of the decoded segments come from the decoder, not from the text
      rw [decodeSegment_eq_ok_iff] at hheader hpayload hsignature
      obtain ⟨j, k, hj, hk, ⟨headerForm, keyForm, hheaderText⟩, form, hclaimsText⟩ :=
        (exists_parseParts_iff hreread _ _ _ _ _).1 ⟨proof, h⟩
      refine ⟨⟨headerForm, form, keyForm⟩, header, payload, signature, j, k, ?_, hj, hk,
        hheaderText, hclaimsText⟩
      exact ⟨Nat.le_of_not_lt hlen,
        ⟨_, _, _, hsplit, hne.1.1, hne.1.2, hne.2, hheader.1, hpayload.1,
        hsignature.1⟩, hheader.2, hpayload.2, hsignature.2⟩
    · cases h
  · rintro ⟨forms, header, payload, signature, j, k, hframed, hj, hk, hheaderText, hclaimsText⟩
    obtain ⟨encodedHeader, encodedPayload, encodedSignature, hsplit, hne₁, hne₂, hne₃, hheader,
      hpayload, hsignature⟩ := hframed.segments
    obtain ⟨proof, hproof⟩ := (exists_parseParts_iff hreread encodedHeader encodedPayload header
      payload signature).2 ⟨j, k, hj, hk, ⟨_, _, hheaderText⟩, _, hclaimsText⟩
    -- a text of three segments has two dots, so that it is not empty
    have hempty : ¬ input.isEmpty = true := by
      intro h
      rw [List.isEmpty_iff.1 h] at hsplit
      simp at hsplit
    have hlen : ¬ maxProofBytes < input.length := Nat.not_lt.2 hframed.length_le
    refine ⟨proof, ?_⟩
    rw [UnverifiedDpopProof.parse, if_neg hempty, if_neg hlen, hsplit]
    simp only [List.isEmpty_eq_false_iff.2 hne₁, List.isEmpty_eq_false_iff.2 hne₂,
      List.isEmpty_eq_false_iff.2 hne₃, Bool.or_false, Bool.false_eq_true, if_false]
    refine bind_eq_ok_iff.2 ⟨header, decodeSegment_eq_ok_iff.2 ⟨hheader, hframed.header_le⟩, ?_⟩
    refine bind_eq_ok_iff.2 ⟨payload, decodeSegment_eq_ok_iff.2 ⟨hpayload, hframed.payload_le⟩, ?_⟩
    exact bind_eq_ok_iff.2 ⟨signature, decodeSegment_eq_ok_iff.2
      ⟨hsignature, hframed.signature_le⟩, hproof⟩

/-! ## Exactness -/

theorem readsHeader_unique {j jwk jwk' : Json} {typ alg typ' alg' : Bytes} {form form' : Form}
    (hj : uniqueJson j = true) (h : ReadsHeader j typ alg jwk form)
    (h' : ReadsHeader j typ' alg' jwk' form') : form = form' ∧ jwk = jwk' := by
  cases form with
  | object =>
    obtain ⟨ms, rfl, -, -, hjwk⟩ := h
    cases form' with
    | object =>
      obtain ⟨ms', he, -, -, hjwk'⟩ := h'
      cases he
      have hvalues := Json.memberValues_of_mem (nodup_of_uniqueJson hj) hjwk
      rw [Json.memberValues_of_mem (nodup_of_uniqueJson hj) hjwk'] at hvalues
      exact ⟨rfl, (List.head_eq_of_cons_eq hvalues).symm⟩
    | array => cases h'
  | array =>
    cases h
    cases form' with
    | object =>
      obtain ⟨ms', he, -⟩ := h'
      cases he
    | array =>
      cases h'
      exact ⟨rfl, rfl⟩

theorem readsKey_unique {j : Json} {kty crv x y kty' crv' x' y' : Bytes} {form form' : Form}
    (h : ReadsKey j kty crv x y form) (h' : ReadsKey j kty' crv' x' y' form') : form = form' := by
  cases form with
  | object =>
    obtain ⟨ms, rfl, -⟩ := h
    cases form' with
    | object => rfl
    | array => cases h'
  | array =>
    cases h
    cases form' with
    | object =>
      obtain ⟨ms', he, -⟩ := h'
      cases he
    | array => rfl

theorem readsClaims_unique {j : Json} {claims claims' : ClaimsWire} {form form' : Form}
    (h : ReadsClaims j claims form) (h' : ReadsClaims j claims' form') : form = form' := by
  cases form with
  | object =>
    obtain ⟨ms, rfl, -⟩ := h
    cases form' with
    | object => rfl
    | array =>
      obtain ⟨rest, he, -⟩ := h'
      cases he
  | array =>
    obtain ⟨rest, rfl, -⟩ := h
    cases form' with
    | object =>
      obtain ⟨ms', he, -⟩ := h'
      cases he
    | array => rfl

/-- A text has the forms of one proof text only. -/
theorem ProofText.forms_unique {input : Bytes} {forms forms' : Forms}
    (h : ProofText crypto json input forms) (h' : ProofText crypto json input forms') :
    forms = forms' := by
  obtain ⟨header, payload, signature, j, k, hframed, hj, hk, ⟨hunique, typ, alg, jwk, hheader, x, y,
    hkey, -⟩, -, claims, hclaims, -⟩ := h
  obtain ⟨header', payload', signature', j', k', hframed', hj', hk', ⟨-, typ', alg', jwk', hheader',
    x', y', hkey', -⟩, -, claims', hclaims', -⟩ := h'
  obtain ⟨_, _, _, hsplit, -, -, -, hdecode₁, hdecode₂, -⟩ := hframed.segments
  obtain ⟨_, _, _, hsplit', -, -, -, hdecode₁', hdecode₂', -⟩ := hframed'.segments
  rw [hsplit] at hsplit'
  simp only [List.cons.injEq, and_true] at hsplit'
  obtain ⟨rfl, rfl, -⟩ := hsplit'
  rw [hdecode₁] at hdecode₁'
  cases hdecode₁'
  rw [hdecode₂] at hdecode₂'
  cases hdecode₂'
  rw [hj] at hj'
  cases hj'
  rw [hk] at hk'
  cases hk'
  obtain ⟨hform, rfl⟩ := readsHeader_unique hunique hheader hheader'
  have hkeyForm := readsKey_unique hkey hkey'
  have hclaimsForm := readsClaims_unique hclaims hclaims'
  cases forms
  cases forms'
  simp_all

/-- **The parser is exact if and only if no array stands in the place of an object.** -/
theorem parse_exact_iff (hreread : json.Rereads) (input : Bytes) :
    ((∃ proof, UnverifiedDpopProof.parse crypto json input = .ok proof) ↔
        ProofText crypto json input .objects) ↔
      ¬ ∃ forms, forms ≠ .objects ∧ ProofText crypto json input forms := by
  rw [parse_exists_iff hreread]
  constructor
  · rintro h ⟨forms, hne, htext⟩
    exact hne (htext.forms_unique (h.1 ⟨forms, htext⟩))
  · intro h
    constructor
    · rintro ⟨forms, htext⟩
      by_cases hforms : forms = .objects
      · exact hforms ▸ htext
      · exact absurd ⟨forms, hforms, htext⟩ h
    · intro htext
      exact ⟨.objects, htext⟩

/-- The proofs that the builder writes are proof texts of objects. -/
theorem proofText_compactProof (jwk : PublicP256Jwk crypto) {claims : ClaimsWire}
    {signature : Bytes} (hutf : claims.Utf8) (hbounds : ClaimBounds claims)
    (hpayload : claimsLength claims ≤ 4096) (hsignature : signature.length = es256SignatureBytes)
    (hlen : (compactProof jwk claims signature).length ≤ 8192) :
    ProofText crypto json (compactProof jwk claims signature) .objects := by
  obtain ⟨hplain, hdepth⟩ := plain_headerBuild jwk
  obtain ⟨hplain', hdepth', hunique'⟩ := plain_build hutf
  -- an encoded segment is empty for an empty content alone
  have hne : ∀ {b : Bytes}, b.length ≠ 0 → Base64.encode b ≠ [] := by
    intro b hb he
    rw [Base64.encode_eq_nil_iff] at he
    exact hb (he ▸ rfl)
  have hclaims : claims.build.render.length ≠ 0 := by
    rw [length_build, claimsLength]
    omega
  refine ⟨_, _, signature, _, _, ?_, json.parse_render _ hplain hdepth,
    json.parse_render _ hplain' hdepth', ⟨uniqueJson_headerBuild jwk, ascii "dpop+jwt",
      ascii "ES256", jwk.toJson, ?_, jwk.x, jwk.y, ?_, jwk.isPoint⟩, hunique', claims, ?_, hbounds⟩
  · refine ⟨hlen, ⟨_, _, _, splitOn_compactProof jwk claims signature, hne ?_, hne hclaims, hne ?_,
      Base64.decode_encode _, Base64.decode_encode _, Base64.decode_encode _⟩, ?_, ?_, ?_⟩
    · rw [length_headerBuild]
      norm_num
    · rw [hsignature]
      decide
    · rw [length_headerBuild]
      norm_num
    · rw [length_build]
      exact hpayload
    · rw [hsignature]
      decide
  · exact ⟨_, rfl, by simp, by simp, by simp⟩
  · refine ⟨_, rfl, by simp, by simp, by simp, by simp, ?_⟩
    show ascii "d" ∉ [ascii "kty", ascii "crv", ascii "x", ascii "y"]
    decide
  · -- an optional claim is a member, or its name is not among the members
    obtain ⟨jti, htm, htu, iat, ath, nonce⟩ := claims
    refine ⟨_, rfl, by simp [ClaimsWire.members], by simp [ClaimsWire.members],
      by simp [ClaimsWire.members], by simp [ClaimsWire.members], ?_, ?_⟩
    · cases ath with
      | some ath => exact by simp [OptionalMember, ClaimsWire.members]
      | none =>
        left
        cases nonce with
        | none =>
          show ascii "ath" ∉ [ascii "jti", ascii "htm", ascii "htu", ascii "iat"]
          decide
        | some nonce =>
          show ascii "ath" ∉ [ascii "jti", ascii "htm", ascii "htu", ascii "iat", ascii "nonce"]
          decide
    · cases nonce with
      | some nonce => exact by simp [OptionalMember, ClaimsWire.members]
      | none =>
        left
        cases ath with
        | none =>
          show ascii "nonce" ∉ [ascii "jti", ascii "htm", ascii "htu", ascii "iat"]
          decide
        | some ath =>
          show ascii "nonce" ∉ [ascii "jti", ascii "htm", ascii "htu", ascii "iat", ascii "ath"]
          decide

end Exactness

/-! ## Claims in an array -/

/-- A proof whose claims are an array of the four required values. -/
def arrayClaims : Json :=
  .arr [.str (ascii "id"), .str (ascii "GET"), .str (ascii "https://a/"), .int 1000]

def arrayProof : Bytes :=
  Base64.encode (headerBuild sampleJwk).render ++ byte '.' ::
    (Base64.encode arrayClaims.render ++ byte '.' :: Base64.encode (List.replicate 64 0))

theorem parse_arrayProof :
    (UnverifiedDpopProof.parse permissiveCrypto compactText arrayProof).isOk = true := by
  decide +kernel

theorem splitOn_arrayProof : arrayProof.splitOn (byte '.') =
    [Base64.encode (headerBuild sampleJwk).render, Base64.encode arrayClaims.render,
      Base64.encode (List.replicate 64 0)] := by
  decide +kernel

theorem parse_arrayClaims : compactText.parse arrayClaims.render = some arrayClaims := by
  refine compactText.parse_render _ ?_ (by decide)
  refine ⟨?_, ?_, ?_, ⟨by norm_num, by norm_num⟩, trivial⟩
  · exact isUtf8_of_isAscii (by decide)
  · exact isUtf8_of_isAscii (by decide)
  · exact isUtf8_of_isAscii (by decide)

def objectClaims : ClaimsWire :=
  ⟨ascii "id", ascii "GET", ascii "https://a/", sampleTime, none, none⟩

/-- The same claims in an object. -/
theorem parse_exact_sample :
    (∃ proof, UnverifiedDpopProof.parse permissiveCrypto plainText
        (compactProof sampleJwk objectClaims (List.replicate 64 0)) = .ok proof) ↔
      ProofText permissiveCrypto plainText
        (compactProof sampleJwk objectClaims (List.replicate 64 0)) .objects := by
  refine (parse_exact_iff rereads_plainText _).2 ?_
  rintro ⟨forms, hne, htext⟩
  refine hne (htext.forms_unique (proofText_compactProof sampleJwk ?_ ?_ ?_ ?_ ?_))
  · exact ⟨isUtf8_of_isAscii (by decide), isUtf8_of_isAscii (by decide),
      isUtf8_of_isAscii (by decide), (fun _ h => nomatch h), (fun _ h => nomatch h)⟩
  · exact ⟨by decide, by decide, by decide, ⟨by decide, by decide⟩, (fun _ h => nomatch h),
      (fun _ h => nomatch h)⟩
  · decide +kernel
  · exact List.length_replicate
  · decide +kernel

/-- A proof whose claims are an array is accepted, and is no proof text of objects. -/
theorem parse_array_claims :
    ¬ ((∃ proof, UnverifiedDpopProof.parse permissiveCrypto compactText arrayProof = .ok proof) ↔
      ProofText permissiveCrypto compactText arrayProof .objects) := by
  intro hexact
  have haccepted : ∃ proof, UnverifiedDpopProof.parse permissiveCrypto compactText arrayProof =
      .ok proof := by
    have hok := parse_arrayProof
    cases hparse : UnverifiedDpopProof.parse permissiveCrypto compactText arrayProof with
    | error e =>
      rw [hparse] at hok
      cases hok
    | ok proof => exact ⟨proof, rfl⟩
  obtain ⟨header, payload, signature, j, k, hframed, -, hk, -, -, claims, ⟨ms, rfl, -⟩, -⟩ :=
    hexact.1 haccepted
  obtain ⟨_, _, _, hsplit, -, -, -, -, hpayload, -⟩ := hframed.segments
  rw [splitOn_arrayProof] at hsplit
  simp only [List.cons.injEq, and_true] at hsplit
  rw [← hsplit.2.1, Base64.decode_encode] at hpayload
  cases hpayload
  rw [parse_arrayClaims] at hk
  cases hk

end Keylix.Dpop
