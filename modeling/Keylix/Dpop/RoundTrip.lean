import Keylix.Lib.JsonParser
import Keylix.Dpop.Verification

/-!
# What the builder writes, the parser reads

The compact proof of a request, its parse and its verification. `parse_compact_eq_ok_iff` gives the
parse of a proof put together from a key, claims and a signature; from it follow when the parser
accepts what the builder emits (`parse_build_iff`) and what the verifier decides on it
(`build_parse_verify`).
-/

set_option autoImplicit false

namespace Keylix.Dpop

open Keylix.Lib Keylix.Core
open Keylix.Lib.Prog (exec exec_bind exec_ret)

section RoundTrip

variable {crypto : Crypto} (json : JsonText)

/-! ## Header and claims -/

theorem ofJson_headerBuild (jwk : PublicP256Jwk crypto) :
    HeaderWire.ofJson (headerBuild jwk) =
      some ⟨ascii "dpop+jwt", ascii "ES256", jwk.toJson.toValue⟩ := rfl

theorem uniqueJson_headerBuild (jwk : PublicP256Jwk crypto) :
    uniqueJson (headerBuild jwk) = true := by
  have h₁ : [ascii "typ", ascii "alg", ascii "jwk"].Nodup := by decide
  have h₂ : [ascii "kty", ascii "crv", ascii "x", ascii "y"].Nodup := by decide
  simp only [headerBuild, PublicP256Jwk.toJson, uniqueJson, uniqueMembers, uniqueMember,
    List.map_cons, List.map_nil, h₁, h₂, decide_true, Bool.and_self]

theorem plain_headerBuild (jwk : PublicP256Jwk crypto) :
    (headerBuild jwk).Plain ∧ (headerBuild jwk).depth ≤ 127 := by
  have hname : ∀ n ∈ [ascii "typ", ascii "alg", ascii "jwk", ascii "dpop+jwt", ascii "ES256"],
      IsUtf8 n := by
    intro n hn
    refine isUtf8_of_isAscii ?_
    revert n
    decide
  simp only [List.mem_cons, List.not_mem_nil, or_false, forall_eq_or_imp, forall_eq] at hname
  constructor
  · simp [headerBuild, Json.Plain, Json.PlainMembers, Json.PlainMember, hname, jwk.plain_toJson.1]
  · simp [headerBuild, PublicP256Jwk.toJson, Json.depth, Json.depthMembers, Json.depthMember]

theorem escapedLength_encode (b : Bytes) :
    Json.escapedLength (Base64.encode b) = (Base64.encode b).length := by
  rw [← Json.length_escape, escape_encode]

/-- The header of every proof has the same length. -/
theorem length_headerBuild (jwk : PublicP256Jwk crypto) :
    (headerBuild jwk).render.length = 165 := by
  have hcoord : ∀ x : ByteArr 32, Json.escapedLength (Base64.encode x.1) = 43 := by
    intro x
    rw [escapedLength_encode, Base64.length_encode, x.2]
  have hconst : Json.escapedLength (ascii "typ") = 3 ∧ Json.escapedLength (ascii "alg") = 3 ∧
      Json.escapedLength (ascii "jwk") = 3 ∧ Json.escapedLength (ascii "dpop+jwt") = 8 ∧
      Json.escapedLength (ascii "ES256") = 5 ∧ Json.escapedLength (ascii "kty") = 3 ∧
      Json.escapedLength (ascii "crv") = 3 ∧ Json.escapedLength (ascii "x") = 1 ∧
      Json.escapedLength (ascii "y") = 1 ∧ Json.escapedLength (ascii "EC") = 2 ∧
      Json.escapedLength (ascii "P-256") = 5 := by decide
  simp only [headerBuild, PublicP256Jwk.toJson, Json.render, Json.renderMember, Json.renderMembers,
    List.length_cons, List.length_append, List.length_nil, Json.length_renderStr, hcoord, hconst]

/-- The claims are read back. -/
theorem ofJson_build (claims : ClaimsWire) : ClaimsWire.ofJson claims.build = some claims := by
  obtain ⟨jti, htm, htu, iat, ath, nonce⟩ := claims
  have hiat : I64.ofInt? iat.toInt = some iat := I64.ofInt?_toInt iat
  cases ath with
  | none =>
    cases nonce with
    | none =>
      show (do let i ← I64.ofInt? iat.toInt; some (ClaimsWire.mk jti htm htu i none none)) = _
      rw [hiat]
      rfl
    | some nonce =>
      show (do
        let i ← I64.ofInt? iat.toInt
        some (ClaimsWire.mk jti htm htu i none (some nonce))) = _
      rw [hiat]
      rfl
  | some ath =>
    cases nonce with
    | none =>
      show (do let i ← I64.ofInt? iat.toInt; some (ClaimsWire.mk jti htm htu i (some ath) none)) = _
      rw [hiat]
      rfl
    | some nonce =>
      show (do
        let i ← I64.ofInt? iat.toInt
        some (ClaimsWire.mk jti htm htu i (some ath) (some nonce))) = _
      rw [hiat]
      rfl

/-- The texts of claims are UTF-8. -/
structure ClaimsWire.Utf8 (claims : ClaimsWire) : Prop where
  jti : IsUtf8 claims.jti
  htm : IsUtf8 claims.htm
  htu : IsUtf8 claims.htu
  ath : ∀ ath, claims.ath = some ath → IsUtf8 ath
  nonce : ∀ nonce, claims.nonce = some nonce → IsUtf8 nonce

theorem uniqueMembers_iff {ms : List (Bytes × Json)} :
    uniqueMembers ms = true ↔ ∀ m ∈ ms, uniqueJson m.2 = true := by
  induction ms with
  | nil => simp [uniqueMembers]
  | cons m ms ih =>
    obtain ⟨k, v⟩ := m
    simp [uniqueMembers, uniqueMember, ih]

/-- The members of the claims: different names, and values that are texts or numbers. -/
theorem members_spec {claims : ClaimsWire} (h : claims.Utf8) :
    (claims.members.map Prod.fst).Nodup ∧
      ∀ m ∈ claims.members, IsUtf8 m.1 ∧ m.2.Plain ∧ m.2.depth = 0 ∧ uniqueJson m.2 = true := by
  obtain ⟨jti, htm, htu, iat, ath, nonce⟩ := claims
  obtain ⟨hjti, hhtm, hhtu, hath, hnonce⟩ := h
  have hiat : -2 ^ 63 ≤ iat.toInt ∧ iat.toInt < 2 ^ 64 := by
    have := iat.lower
    have := iat.upper
    omega
  have hname : ∀ n ∈ [ascii "jti", ascii "htm", ascii "htu", ascii "iat", ascii "ath",
      ascii "nonce"], IsUtf8 n := by
    intro n hn
    refine isUtf8_of_isAscii ?_
    revert n
    decide
  constructor
  -- the two optional claims make four lists of names
  · cases ath with
    | none =>
      cases nonce with
      | none =>
        show [ascii "jti", ascii "htm", ascii "htu", ascii "iat"].Nodup
        decide
      | some nonce =>
        show [ascii "jti", ascii "htm", ascii "htu", ascii "iat", ascii "nonce"].Nodup
        decide
    | some ath =>
      cases nonce with
      | none =>
        show [ascii "jti", ascii "htm", ascii "htu", ascii "iat", ascii "ath"].Nodup
        decide
      | some nonce =>
        show [ascii "jti", ascii "htm", ascii "htu", ascii "iat", ascii "ath", ascii "nonce"].Nodup
        decide
  · intro m hm
    simp only [ClaimsWire.members, List.mem_append, List.mem_cons, List.not_mem_nil, or_false,
      Option.mem_toList, Option.map_eq_some_iff] at hm
    rcases hm with ((rfl | rfl | rfl | rfl) | ⟨a, ha, rfl⟩) | ⟨n, hn, rfl⟩
    · exact ⟨hname _ (by simp), hjti, rfl, rfl⟩
    · exact ⟨hname _ (by simp), hhtm, rfl, rfl⟩
    · exact ⟨hname _ (by simp), hhtu, rfl, rfl⟩
    · exact ⟨hname _ (by simp), hiat, rfl, rfl⟩
    · exact ⟨hname _ (by simp), hath a ha, rfl, rfl⟩
    · exact ⟨hname _ (by simp), hnonce n hn, rfl, rfl⟩

theorem plain_build {claims : ClaimsWire} (h : claims.Utf8) :
    claims.build.Plain ∧ claims.build.depth ≤ 127 ∧ uniqueJson claims.build = true := by
  obtain ⟨hnodup, hmem⟩ := members_spec h
  refine ⟨?_, ?_, ?_⟩
  · exact Json.plainMembers_iff.2 fun m hm => ⟨(hmem m hm).1, (hmem m hm).2.1⟩
  · have hdepth := Json.depthMembers_le (d := 0) fun m hm => Nat.le_of_eq (hmem m hm).2.2.1
    simp only [ClaimsWire.build, Json.depth]
    omega
  · simp only [ClaimsWire.build, uniqueJson, hnodup, decide_true, Bool.true_and]
    exact uniqueMembers_iff.2 fun m hm => (hmem m hm).2.2.2

/-- The length of the claims text. -/
def claimsLength (claims : ClaimsWire) : Nat :=
  35 + Json.escapedLength claims.jti + Json.escapedLength claims.htm +
    Json.escapedLength claims.htu + (decimalInt claims.iat.toInt).length +
    (claims.ath.elim 0 fun ath => Json.escapedLength ath + 9) +
    (claims.nonce.elim 0 fun nonce => Json.escapedLength nonce + 11)

theorem sum_toList_map {α : Type} (o : Option α) (f : α → Nat) :
    (o.toList.map f).sum = o.elim 0 f := by
  cases o with
  | none => rfl
  | some a => simp

theorem length_build (claims : ClaimsWire) : claims.build.render.length = claimsLength claims := by
  have hname : Json.escapedLength (ascii "jti") = 3 ∧ Json.escapedLength (ascii "htm") = 3 ∧
      Json.escapedLength (ascii "htu") = 3 ∧ Json.escapedLength (ascii "iat") = 3 ∧
      Json.escapedLength (ascii "ath") = 3 ∧ Json.escapedLength (ascii "nonce") = 5 := by
    decide
  have hoption : ∀ (o : Option Bytes) (name : Bytes),
      ((o.map fun v => (name, Json.str v)).toList.map fun m =>
        (Json.renderMember m).length + 1).sum =
          o.elim 0 fun v => Json.escapedLength v + (Json.escapedLength name + 6) := by
    intro o name
    rw [sum_toList_map]
    cases o with
    | none => rfl
    | some v =>
      simp only [Option.map_some, Option.elim, Json.renderMember, Json.render, List.length_append,
        List.length_cons, Json.length_renderStr]
      omega
  rw [ClaimsWire.build, Json.length_render_obj (by simp [ClaimsWire.members]), ClaimsWire.members,
    List.map_append, List.map_append, List.sum_append, List.sum_append, hoption, hoption]
  simp only [List.map_cons, List.map_nil, List.sum_cons, List.sum_nil, Json.renderMember,
    Json.render, List.length_append, List.length_cons, Json.length_renderStr, hname, claimsLength,
    Nat.reduceAdd]
  omega

/-! ## Segments -/

theorem decodeSegment_encode_iff {b c : Bytes} {max : Nat} :
    decodeSegment (Base64.encode b) max = .ok c ↔ b.length ≤ max ∧ c = b := by
  have hpad : (Base64.encode b).contains (byte '=') = false := by
    rw [List.contains_eq_mem]
    exact decide_eq_false (Base64.not_mem_encode (by decide))
  have hlen := Base64.length_encode b
  unfold decodeSegment
  rw [hpad, Base64.decode_encode]
  by_cases hb : b.length ≤ max
  · have hmax : ¬ max * 2 < (Base64.encode b).length := by omega
    have hdec : ¬ max < b.length := by omega
    simp [hmax, hdec, hb, eq_comm]
  · simp only [hb, false_and, iff_false]
    split
    · simp
    · simp only [if_pos (Nat.lt_of_not_le hb), reduceCtorEq, not_false_eq_true]

/-- The proof put together from a key, claims and a signature. -/
def compactProof (jwk : PublicP256Jwk crypto) (claims : ClaimsWire) (signature : Bytes) : Bytes :=
  signingInput jwk claims ++ byte '.' :: Base64.encode signature

theorem splitOn_compactProof (jwk : PublicP256Jwk crypto) (claims : ClaimsWire)
    (signature : Bytes) :
    (compactProof jwk claims signature).splitOn (byte '.') =
      [Base64.encode (headerBuild jwk).render, Base64.encode claims.build.render,
        Base64.encode signature] := by
  have hdot : ∀ b, byte '.' ∉ Base64.encode b := fun b => Base64.not_mem_encode (by decide)
  rw [compactProof, signingInput, List.append_assoc, List.cons_append,
    List.splitOn_append_cons_self_of_not_mem (hdot _),
    List.splitOn_append_cons_self_of_not_mem (hdot _), List.splitOn_eq_singleton (hdot _)]

theorem length_compactProof (jwk : PublicP256Jwk crypto) (claims : ClaimsWire)
    {signature : Bytes} (h : signature.length = es256SignatureBytes) :
    (compactProof jwk claims signature).length = 308 + (4 * claimsLength claims + 2) / 3 := by
  rw [compactProof, signingInput]
  simp only [List.length_append, List.length_cons, Base64.length_encode, length_headerBuild,
    length_build, h, es256SignatureBytes]
  omega

/-- The parsed form of a proof. -/
def parsedProof (jwk : PublicP256Jwk crypto) (claims : ClaimsWire) (signature : Bytes) :
    UnverifiedDpopProof crypto where
  encodedHeader := Base64.encode (headerBuild jwk).render
  encodedPayload := Base64.encode claims.build.render
  signature := signature
  header := ⟨ascii "dpop+jwt", ascii "ES256", jwk.toJson.toValue⟩
  claims := claims
  publicJwk := jwk

/-- The parse of the decoded segments. -/
theorem parseParts_build {jwk : PublicP256Jwk crypto} {claims : ClaimsWire} (hutf : claims.Utf8)
    (signature : Bytes) :
    UnverifiedDpopProof.parseParts crypto json (Base64.encode (headerBuild jwk).render)
        (Base64.encode claims.build.render) (headerBuild jwk).render claims.build.render signature =
      (validateClaimShape claims).map fun _ => parsedProof jwk claims signature := by
  obtain ⟨hhp, hhd⟩ := plain_headerBuild jwk
  obtain ⟨hcp, hcd, hcu⟩ := plain_build hutf
  have hheader := json.parse_render _ hhp hhd
  have hclaims := json.parse_render _ hcp hcd
  simp only [UnverifiedDpopProof.parseParts, rejectDuplicateJsonMembers, hheader, hclaims, hcu,
    uniqueJson_headerBuild, if_true, Option.bind_some, ofJson_headerBuild, ofJson_build,
    PublicP256Jwk.fromJson_toJson, bind, Except.bind]
  cases validateClaimShape claims with
  | error e => rfl
  | ok u => rfl

/-- **What the parser makes of a compact proof.** -/
theorem parse_compact_eq_ok_iff {jwk : PublicP256Jwk crypto} {claims : ClaimsWire}
    (hutf : claims.Utf8) {signature : Bytes} (hsig : signature.length = es256SignatureBytes)
    {p : UnverifiedDpopProof crypto} :
    UnverifiedDpopProof.parse crypto json (compactProof jwk claims signature) = .ok p ↔
      claimsLength claims ≤ maxPayloadBytes ∧ validateClaimShape claims = .ok () ∧
        p = parsedProof jwk claims signature := by
  have hlen := length_compactProof jwk claims hsig
  have hclaims := length_build claims
  have hheader := length_headerBuild jwk
  have hne : ∀ b : Bytes, 0 < b.length → (Base64.encode b).isEmpty = false := by
    intro b hb
    have hnil : Base64.encode b ≠ [] := fun h => by
      rw [Base64.encode_eq_nil_iff] at h
      rw [h] at hb
      exact Nat.lt_irrefl 0 hb
    simpa using hnil
  have hempty : (compactProof jwk claims signature).isEmpty = false := by
    rw [List.isEmpty_eq_false_iff]
    intro h
    rw [h] at hlen
    simp at hlen
    omega
  have hpos : 0 < claimsLength claims := by
    unfold claimsLength
    omega
  -- no segment is empty, as none of the three contents is
  have hparts : ((Base64.encode (headerBuild jwk).render).isEmpty ||
      (Base64.encode claims.build.render).isEmpty || (Base64.encode signature).isEmpty) =
        false := by
    rw [hne _ (by omega), hne _ (by omega), hne _ (by rw [hsig]; decide)]
    rfl
  unfold UnverifiedDpopProof.parse
  rw [hempty, if_neg Bool.false_ne_true, splitOn_compactProof]
  simp only [hparts, Bool.false_eq_true, if_false]
  -- the payload is the only segment whose length the claims decide
  by_cases hmax : claimsLength claims ≤ maxPayloadBytes
  · have hproof : ¬ maxProofBytes < (compactProof jwk claims signature).length := by
      unfold maxPayloadBytes at hmax
      unfold maxProofBytes
      omega
    have h₁ := decodeSegment_encode_iff.2 ⟨show (headerBuild jwk).render.length ≤ maxHeaderBytes by
      rw [hheader]; decide, rfl⟩
    have h₂ := decodeSegment_encode_iff.2 ⟨hclaims ▸ hmax, rfl⟩
    have h₃ := decodeSegment_encode_iff.2 ⟨show signature.length ≤ maxSignatureBytes by
      rw [hsig]; decide, rfl⟩
    rw [if_neg hproof, h₁, h₂, h₃]
    show UnverifiedDpopProof.parseParts crypto json _ _ _ _ _ = _ ↔ _
    rw [parseParts_build json hutf signature]
    cases validateClaimShape claims with
    | error e => simp [Except.map]
    | ok u => simp [Except.map, hmax, eq_comm]
  · simp only [hmax, false_and, iff_false]
    -- a text that is too long is refused before it is split, or else its payload when it is decoded
    split
    · simp
    · simp only [bind_eq_ok_iff, decodeSegment_encode_iff]
      rintro ⟨-, -, payload, ⟨hpayload, -⟩, -⟩
      rw [hclaims] at hpayload
      exact hmax hpayload

/-! ## Construction -/

/-- What a successful build has done. -/
theorem exec_build_eq_ok {S : Signature} {σ : Type} {h : (op : S.Op) → σ → S.Res op × σ}
    {builder : DpopProofBuilder crypto S} {request : DpopRequest} {s : σ} {proof : Bytes}
    (hbuild : (exec h (builder.build request) s).1 = .ok proof) :
    ∃ issuedAt proofId signature, (exec h builder.clock.unixSeconds s).1 = .ok issuedAt ∧
      0 < issuedAt.toInt ∧
      (exec h builder.proofIds.generate (exec h builder.clock.unixSeconds s).2).1 = .ok proofId ∧
      SignatureValid builder.signer.publicJwk (signingInput builder.signer.publicJwk
        (requestClaims crypto request issuedAt proofId)) signature ∧
      proof = compactProof builder.signer.publicJwk (requestClaims crypto request issuedAt proofId)
        signature := by
  unfold DpopProofBuilder.build at hbuild
  rw [exec_bind] at hbuild
  cases hclock : (exec h builder.clock.unixSeconds s).1 with
  | error e =>
    rw [hclock] at hbuild
    cases hbuild
  | ok issuedAt =>
    rw [hclock] at hbuild
    simp only at hbuild
    -- a clock at or before the epoch is refused
    split at hbuild
    · cases hbuild
    next hpos =>
    rw [exec_bind] at hbuild
    cases hid : (exec h builder.proofIds.generate (exec h builder.clock.unixSeconds s).2).1 with
    | error e =>
      rw [hid] at hbuild
      cases hbuild
    | ok proofId =>
      rw [hid] at hbuild
      simp only at hbuild
      rw [exec_bind] at hbuild
      split at hbuild
      · cases hbuild
      next signature _ =>
      -- the signature of the signer is checked before the proof is handed out
      have hseal : sealProof builder.signer.publicJwk (signingInput builder.signer.publicJwk
          (requestClaims crypto request issuedAt proofId)) signature = .ok proof := hbuild
      unfold sealProof at hseal
      split at hseal
      · cases hseal
      split at hseal
      · cases hseal
      next hverify =>
      cases hseal
      exact ⟨issuedAt, proofId, signature, rfl, by omega, rfl,
        verifyEs256Signature_eq_ok_iff.1 hverify, rfl⟩

end RoundTrip

end Keylix.Dpop
