import Keylix.Core.Jwk

/-!
# Thumbprints of documents

The text that is hashed is built from the decoded coordinates of a key. `thumbprint_document`: it is
the text of the document's own strings, because a coordinate has one accepted spelling.

The strings of a document (`Fields`) are the members of an object, each of them the only one of its
name, or the items of an array by position.
-/

set_option autoImplicit false

namespace Keylix.Core

open Keylix.Lib

/-! ## The strings of a document -/

/-- The strings `kty`, `crv`, `x` and `y` of a document without private key material. -/
inductive Fields (kty crv x y : Bytes) : Json → Prop where
  | object {ms : List (Bytes × Json)} (hkty : Json.memberValues ms (ascii "kty") = [.str kty])
      (hcrv : Json.memberValues ms (ascii "crv") = [.str crv])
      (hx : Json.memberValues ms (ascii "x") = [.str x])
      (hy : Json.memberValues ms (ascii "y") = [.str y])
      (hd : Json.memberValues ms (ascii "d") = []) : Fields kty crv x y (.obj ms)
  | array : Fields kty crv x y (.arr [.str kty, .str crv, .str x, .str y])

section Documents

variable {kty crv x y : Bytes} {j : Json}

theorem recordFields_jwk_iff :
    Json.recordFields false jwkFields j =
        some [some (.str kty), some (.str crv), some (.str x), some (.str y), none] ↔
      Fields kty crv x y j := by
  constructor
  · intro h
    cases j with
    | obj ms =>
      rw [Json.recordFields_obj_iff] at h
      obtain ⟨hkty, h⟩ := List.forall₂_cons.1 h
      obtain ⟨hcrv, h⟩ := List.forall₂_cons.1 h
      obtain ⟨hx, h⟩ := List.forall₂_cons.1 h
      obtain ⟨hy, h⟩ := List.forall₂_cons.1 h
      obtain ⟨hd, -⟩ := List.forall₂_cons.1 h
      rw [Json.fieldOfMembers_eq_present_iff] at hkty hcrv hx hy
      exact .object hkty hcrv hx hy (Json.fieldOfMembers_eq_absent_iff.1 hd).2
    | arr xs =>
      simp only [Json.recordFields, jwkFields] at h
      rcases xs with _ | ⟨a, _ | ⟨b, _ | ⟨c, _ | ⟨d, _ | ⟨e, _ | ⟨f, xs⟩⟩⟩⟩⟩⟩ <;>
        simp [Json.fieldsOfItems] at h
      obtain ⟨rfl, rfl, rfl, rfl⟩ := h
      exact .array
    | _ => cases h
  · rintro (⟨hkty, hcrv, hx, hy, hd⟩ | _)
    · rw [Json.recordFields_obj_iff]
      refine .cons ?_ (.cons ?_ (.cons ?_ (.cons ?_ (.cons ?_ .nil))))
      · exact Json.fieldOfMembers_eq_present_iff.2 hkty
      · exact Json.fieldOfMembers_eq_present_iff.2 hcrv
      · exact Json.fieldOfMembers_eq_present_iff.2 hx
      · exact Json.fieldOfMembers_eq_present_iff.2 hy
      · exact Json.fieldOfMembers_eq_absent_iff.2 ⟨by decide, hd⟩
    · rfl

/-- The fields that are read are the strings of the document. -/
theorem ofJson_eq_some_iff :
    PublicP256JwkWire.ofJson j = some ⟨kty, crv, x, y, false⟩ ↔ Fields kty crv x y j := by
  rw [← recordFields_jwk_iff]
  constructor
  · intro h
    unfold PublicP256JwkWire.ofJson at h
    split at h
    · next kty' crv' x' y' d hfields =>
      obtain ⟨_, hkty, h⟩ := Option.bind_eq_some_iff.1 h
      obtain ⟨_, hcrv, h⟩ := Option.bind_eq_some_iff.1 h
      obtain ⟨_, hx, h⟩ := Option.bind_eq_some_iff.1 h
      obtain ⟨_, hy, h⟩ := Option.bind_eq_some_iff.1 h
      rw [Json.asString_eq_some_iff] at hkty hcrv hx hy
      subst hkty hcrv hx hy
      obtain ⟨rfl, rfl, rfl, rfl, hd⟩ := PublicP256JwkWire.mk.inj (Option.some.inj h)
      have hnone : d = none := by simpa using hd
      rw [hfields, hnone]
    · cases h
  · intro h
    rw [PublicP256JwkWire.ofJson, h]
    rfl

end Documents

section Keys

variable {crypto : Crypto} {json : JsonText}

namespace PublicP256Jwk

/-- The documents of a key. -/
theorem fromJson_eq_ok_iff {input : Bytes} {key : PublicP256Jwk crypto} :
    fromJson crypto json input = .ok key ↔
      ∃ j, json.parse input = some j ∧
        Fields (ascii "EC") (ascii "P-256") (Base64.encode key.x.1) (Base64.encode key.y.1) j := by
  unfold fromJson
  constructor
  · intro h
    split at h
    · cases h
    next wire hwire =>
    obtain ⟨j, hj, hread⟩ := Option.bind_eq_some_iff.1 hwire
    obtain ⟨hprivate, hkty, hcrv, hx, hy⟩ := fromWire_eq_ok_iff.1 h
    obtain ⟨kty, crv, x, y, privateMember⟩ := wire
    subst hprivate hkty hcrv hx hy
    exact ⟨j, hj, ofJson_eq_some_iff.1 hread⟩
  · rintro ⟨j, hj, hfields⟩
    rw [hj, Option.bind_some, ofJson_eq_some_iff.2 hfields]
    exact fromWire_eq_ok_iff.2 ⟨rfl, rfl, rfl, rfl, rfl⟩

end PublicP256Jwk

/-- A document has at most one string of each name. -/
theorem Fields.unique {j : Json} {kty crv x y kty' crv' x' y' : Bytes} (h : Fields kty crv x y j)
    (h' : Fields kty' crv' x' y' j) : kty = kty' ∧ crv = crv' ∧ x = x' ∧ y = y' := by
  have hwire := ofJson_eq_some_iff.2 h
  rw [ofJson_eq_some_iff.2 h'] at hwire
  obtain ⟨rfl, rfl, rfl, rfl, -⟩ := PublicP256JwkWire.mk.inj (Option.some.inj hwire)
  exact ⟨rfl, rfl, rfl, rfl⟩

/-- Members in another order, and members of other names, do not change the strings. -/
theorem Fields.of_perm {ms ms' extra : List (Bytes × Json)} {kty crv x y : Bytes}
    (h : Fields kty crv x y (.obj ms)) (hperm : ms'.Perm (ms ++ extra))
    (hextra : ∀ m ∈ extra, ∀ f ∈ jwkFields, f.name ≠ m.1) : Fields kty crv x y (.obj ms') := by
  have hvalues : ∀ f ∈ jwkFields,
      (Json.memberValues ms' f.name).Perm (Json.memberValues ms f.name) := by
    intro f hf
    have hnone : Json.memberValues extra f.name = [] := by
      apply Json.memberValues_of_not_mem
      intro hmem
      obtain ⟨m, hm, hname⟩ := List.mem_map.1 hmem
      exact hextra m hm f hf hname.symm
    have happend := (hperm.filter fun m => m.1 = f.name).map Prod.snd
    rw [← Json.memberValues, ← Json.memberValues, Json.memberValues_append, hnone,
      List.append_nil] at happend
    exact happend
  have hname : ∀ n ∈ [ascii "kty", ascii "crv", ascii "x", ascii "y", ascii "d"],
      (Json.memberValues ms' n).Perm (Json.memberValues ms n) := by
    simpa [jwkFields] using hvalues
  simp only [List.mem_cons, List.not_mem_nil, or_false, forall_eq_or_imp, forall_eq] at hname
  obtain ⟨hpkty, hpcrv, hpx, hpy, hpd⟩ := hname
  obtain ⟨hkty, hcrv, hx, hy, hd⟩ | _ := h
  rw [hkty, List.perm_singleton] at hpkty
  rw [hcrv, List.perm_singleton] at hpcrv
  rw [hx, List.perm_singleton] at hpx
  rw [hy, List.perm_singleton] at hpy
  rw [hd, List.perm_nil] at hpd
  exact .object hpkty hpcrv hpx hpy hpd

/-! ## The hashed text -/

/-- The compact text of the required members in lexicographic order. -/
def thumbprintText (crv kty x y : Bytes) : Bytes :=
  Json.render (.obj [(ascii "crv", .str crv), (ascii "kty", .str kty), (ascii "x", .str x),
    (ascii "y", .str y)])

namespace PublicP256Jwk

theorem canonicalThumbprintInput_eq (key : PublicP256Jwk crypto) :
    key.canonicalThumbprintInput = thumbprintText (ascii "P-256") (ascii "EC")
      (Base64.encode key.x.1) (Base64.encode key.y.1) := by
  have hopen : ascii "\x7b\"crv\":\"P-256\",\"kty\":\"EC\",\"x\":\"" =
      byte '{' :: (Json.renderStr (ascii "crv") ++ byte ':' :: Json.renderStr (ascii "P-256")) ++
        byte ',' :: (Json.renderStr (ascii "kty") ++ byte ':' :: Json.renderStr (ascii "EC")) ++
        byte ',' :: (Json.renderStr (ascii "x") ++ [byte ':', byte '"']) := by decide
  have hsep : ascii "\",\"y\":\"" =
      byte '"' :: byte ',' :: (Json.renderStr (ascii "y") ++ [byte ':', byte '"']) := by
    decide
  have hclose : ascii "\"\x7d" = [byte '"', byte '}'] := by decide
  have hencode : ∀ b, Json.renderStr (Base64.encode b) =
      byte '"' :: (Base64.encode b ++ [byte '"']) := by
    intro b
    rw [Json.renderStr, escape_encode, List.cons_append]
  rw [canonicalThumbprintInput, hopen, hsep, hclose, thumbprintText]
  simp only [Json.render, Json.renderMember, Json.renderMembers, hencode, List.append_assoc,
    List.cons_append, List.nil_append]

/-- The hashed text determines the coordinates. -/
theorem canonicalThumbprintInput_inj {key key' : PublicP256Jwk crypto} :
    key.canonicalThumbprintInput = key'.canonicalThumbprintInput ↔
      Base64.encode key.x.1 = Base64.encode key'.x.1 ∧
        Base64.encode key.y.1 = Base64.encode key'.y.1 := by
  constructor
  · intro h
    have hlen : ∀ b b' : ByteArr 32, (Base64.encode b.1).length = (Base64.encode b'.1).length := by
      intro b b'
      rw [Base64.length_encode, Base64.length_encode, b.2, b'.2]
    unfold canonicalThumbprintInput at h
    simp only [List.append_assoc] at h
    obtain ⟨hx, h⟩ := List.append_inj (List.append_cancel_left h) (hlen key.x key'.x)
    obtain ⟨hy, -⟩ := List.append_inj (List.append_cancel_left h) (hlen key.y key'.y)
    exact ⟨hx, hy⟩
  · rintro ⟨hx, hy⟩
    rw [canonicalThumbprintInput, canonicalThumbprintInput, hx, hy]

/-- The JSON form of a key holds the strings of its document. -/
theorem fields_toJson (key : PublicP256Jwk crypto) :
    Fields (ascii "EC") (ascii "P-256") (Base64.encode key.x.1) (Base64.encode key.y.1)
      key.toJson :=
  .object rfl rfl rfl rfl rfl

/-- **The thumbprint of a key is the thumbprint of its document.** The hashed text is the compact
text of the document's own strings. Members in another order and members of other names do not
change the key. Two documents have the same hashed text exactly if they have the same coordinates.
And a key is written without a member `d`, and read back. -/
theorem thumbprint_document (crypto : Crypto) (json : JsonText) :
    (∀ input (key : PublicP256Jwk crypto), fromJson crypto json input = .ok key →
      ∃ j kty crv x y, json.parse input = some j ∧ Fields kty crv x y j ∧
        key.canonicalThumbprintInput = thumbprintText crv kty x y ∧
        key.thumbprint = ⟨crypto.sha256 (thumbprintText crv kty x y)⟩) ∧
    (∀ input input' (key : PublicP256Jwk crypto), ∀ ms ms' extra : List (Bytes × Json),
      fromJson crypto json input = .ok key → json.parse input = some (.obj ms) →
      json.parse input' = some (.obj ms') → ms'.Perm (ms ++ extra) →
      (∀ m ∈ extra, ∀ f ∈ jwkFields, f.name ≠ m.1) → fromJson crypto json input' = .ok key) ∧
    (∀ input input' (key key' : PublicP256Jwk crypto) (j j' : Json),
      ∀ kty crv x y kty' crv' x' y' : Bytes,
      fromJson crypto json input = .ok key → fromJson crypto json input' = .ok key' →
      json.parse input = some j → Fields kty crv x y j →
      json.parse input' = some j' → Fields kty' crv' x' y' j' →
      (key.canonicalThumbprintInput = key'.canonicalThumbprintInput ↔ x = x' ∧ y = y')) ∧
    ∀ key : PublicP256Jwk crypto,
      (∃ ms, key.toJson = .obj ms ∧ ascii "d" ∉ ms.map Prod.fst) ∧
        fromJson crypto json key.toJson.render = .ok key := by
  refine ⟨?_, ?_, ?_, ?_⟩
  · intro input key h
    obtain ⟨j, hj, hfields⟩ := fromJson_eq_ok_iff.1 h
    have htext := key.canonicalThumbprintInput_eq
    exact ⟨j, _, _, _, _, hj, hfields, htext, by rw [thumbprint, htext]⟩
  · intro input input' key ms ms' extra h hms hms' hperm hextra
    obtain ⟨j, hj, hfields⟩ := fromJson_eq_ok_iff.1 h
    rw [hms] at hj
    cases hj
    exact fromJson_eq_ok_iff.2 ⟨_, hms', hfields.of_perm hperm hextra⟩
  · intro input input' key key' j j' kty crv x y kty' crv' x' y' h h' hj hfields hj' hfields'
    obtain ⟨k, hk, hkey⟩ := fromJson_eq_ok_iff.1 h
    obtain ⟨k', hk', hkey'⟩ := fromJson_eq_ok_iff.1 h'
    rw [hj] at hk
    rw [hj'] at hk'
    cases hk
    cases hk'
    -- the strings of a document are those of its key
    obtain ⟨-, -, rfl, rfl⟩ := hfields.unique hkey
    obtain ⟨-, -, rfl, rfl⟩ := hfields'.unique hkey'
    exact canonicalThumbprintInput_inj
  · intro key
    obtain ⟨hplain, hdepth⟩ := key.plain_toJson
    refine ⟨⟨_, rfl, ?_⟩, ?_⟩
    · simp only [List.map_cons, List.map_nil]
      decide +kernel
    · exact fromJson_eq_ok_iff.2 ⟨_, json.parse_render _ hplain hdepth, key.fields_toJson⟩

end PublicP256Jwk

end Keys

end Keylix.Core
