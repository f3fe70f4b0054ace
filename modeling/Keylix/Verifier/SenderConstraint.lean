import Keylix.Dpop.ReplayMemory
import Keylix.Verifier.Host
import Keylix.Verifier.Nonce

/-!
# Sender constraint

Clients that hold keys, the reference host, and an adversary who decides which requests the host
sees. A client signs with its key only what the builder of proofs asks it to sign; the host answers
one request at a time, may crash at any point of a request or of its start, and comes up again on
what the crash left of its replay directory. Directory operations fail in any way. The adversary
makes up requests, replays them and moves proofs between them; it does not sign with a client's key
and has no other key with the thumbprint of one (`Unforged`). The host's clock does not step back,
across crashes and restarts too (`hostHandler`): after a step back, a proof whose marker was swept
would be fresh again.

`sender_constrained` is injective agreement: every verified request that the host confirms for a
client's key goes back to a proof that this client signed for the same method and target and for a
token with the same SHA-256 hash, within the window of the policy, and no signed proof is behind two
verified requests.
-/

set_option autoImplicit false

namespace Keylix.Verifier

open Keylix.Lib Keylix.Core Keylix.Dpop Keylix.OAuth
open Keylix.Lib.Prog (Safe Outcome Reach)

/-! ## Clients -/

/-- The operations of a client that builds a proof. -/
inductive ClientOp where
  | unixSeconds
  | generate
  | sign (input : Bytes)

def clientOps : Signature where
  Op := ClientOp
  Res
    | .unixSeconds => Except DpopPortError I64
    | .generate => Except DpopPortError ProofId
    | .sign _ => Except DpopPortError Bytes

/-- The builder of a client with its key. -/
def clientBuilder {crypto : Crypto} (key : PublicP256Jwk crypto) :
    DpopProofBuilder crypto clientOps where
  signer := ⟨key, fun input => Prog.perform (S := clientOps) (.sign input)⟩
  clock := ⟨Prog.perform (S := clientOps) .unixSeconds⟩
  proofIds := ⟨Prog.perform (S := clientOps) .generate⟩

/-- Any answers; the state is the texts that were signed. -/
def clientHandler : Prog.Handler clientOps (List Bytes)
  | .unixSeconds, s, _, s' => s' = s
  | .generate, s, _, s' => s' = s
  | .sign input, s, _, s' => s' = s ++ [input]

/-- The text is the signing input of a proof for the request. -/
def ProofText {crypto : Crypto} (key : PublicP256Jwk crypto) (request : DpopRequest)
    (issuedAt : I64) (proofId : ProofId) (input : Bytes) : Prop :=
  0 < issuedAt.toInt ∧ input = signingInput key (requestClaims crypto request issuedAt proofId)

/-- **The builder has nothing signed but proofs for its request.** -/
theorem safe_build {crypto : Crypto} (key : PublicP256Jwk crypto) (request : DpopRequest) :
    Safe clientHandler
      (fun signed => ∀ input ∈ signed, ∃ issuedAt proofId,
        ProofText key request issuedAt proofId input)
      (fun _ _ => True) ((clientBuilder key).build request) [] := by
  have hnone : ∀ input ∈ ([] : List Bytes), ∃ issuedAt proofId,
      ProofText key request issuedAt proofId input := by
    intro input hinput
    cases hinput
  refine ⟨hnone, ?_⟩
  rintro (x : Except DpopPortError I64) s rfl
  cases x with
  | error e => exact ⟨hnone, trivial⟩
  | ok issuedAt =>
    simp only [Prog.bind]
    split
    · exact ⟨hnone, trivial⟩
    next hpos =>
    refine ⟨hnone, ?_⟩
    rintro (x : Except DpopPortError ProofId) s rfl
    cases x with
    | error e => exact ⟨hnone, trivial⟩
    | ok proofId =>
      refine ⟨hnone, ?_⟩
      rintro (x : Except DpopPortError Bytes) s rfl
      have hone :
          ∀ input ∈ [] ++ [signingInput key (requestClaims crypto request issuedAt proofId)],
          ∃ issuedAt proofId, ProofText key request issuedAt proofId input := by
        intro input hinput
        rw [List.nil_append, List.mem_singleton] at hinput
        exact ⟨issuedAt, proofId, Int.not_le.1 hpos, hinput⟩
      cases x with
      | error e => exact ⟨hone, trivial⟩
      | ok signature => exact ⟨hone, trivial⟩

/-! ## The system -/

section System

variable {ι : Type} {crypto : Crypto}

/-- A text that a client signed, with the request that it was building a proof for. -/
structure SignedText (ι : Type) where
  client : ι
  request : DpopRequest
  input : Bytes

/-- A verified request, with the last reading of the host's clock when it was answered. -/
structure Acceptance where
  request : VerifierRequest
  time : I64

/-- The clients, the host and what happened so far. -/
structure Realm (ι : Type) where
  host : HostState
  /-- The open replay store, while the host runs. -/
  store : Option (FileReplayStore hostOps)
  signed : List (SignedText ι)
  /-- The latest first. -/
  accepted : List Acceptance

/-- A host that has not been started, on any directory. -/
def Realm.initial (fs : Fs) (start : I64) : Realm ι := ⟨⟨fs, .empty, start⟩, none, [], []⟩

variable (keys : ι → PublicP256Jwk crypto) (json : JsonText)

/-- A valid signature on a proof that the request carries, under a key with the thumbprint of a
client, is the client's. This takes in that no other key has that thumbprint. -/
def Unforged (signed : List (SignedText ι)) (request : VerifierRequest) : Prop :=
  ∀ p : UnverifiedDpopProof crypto,
    UnverifiedDpopProof.parse crypto json request.dpopProof = .ok p → ∀ i,
      p.publicJwk.thumbprint = (keys i).thumbprint →
      SignatureValid p.publicJwk (p.encodedHeader ++ byte '.' :: p.encodedPayload) p.signature →
        ∃ text ∈ signed, text.client = i ∧
          text.input = p.encodedHeader ++ byte '.' :: p.encodedPayload

/-- The acceptances after a result. -/
def accept (past : List Acceptance) (request : VerifierRequest) (time : I64) :
    VerifierResult → List Acceptance
  | .verified _ _ => ⟨request, time⟩ :: past
  | .rejected _ _ _ => past

inductive RealmStep (cfg : HostConfig) : Realm ι → Realm ι → Prop where
  /-- A client builds a proof, to the end or not. -/
  | sign {r : Realm ι} {rest : Prog clientOps (Except DpopError Bytes)}
      {signed : List Bytes} (i : ι) (request : DpopRequest)
      (h : Reach clientHandler ((clientBuilder (keys i)).build request, []) (rest, signed)) :
      RealmStep cfg r { r with signed := r.signed ++ signed.map fun input => ⟨i, request, input⟩ }
  /-- The host starts, or fails to start. -/
  | start {r : Realm ι} {opened : Except DpopPortError (FileReplayStore hostOps)} {fs : Fs}
      (hdown : r.store = none)
      (h : Outcome (fsHandler cfg.host True) cfg.openReplay r.host.fs opened fs) :
      RealmStep cfg r
        { r with host := { r.host with fs := fs, nonces := .empty }, store := opened.toOption }
  /-- The host crashes while it starts. -/
  | crashStart {r : Realm ι} {fs fs' : Fs}
      {rest : Prog fileOps (Except DpopPortError (FileReplayStore hostOps))}
      (hdown : r.store = none)
      (h : Reach (fsHandler cfg.host True) (cfg.openReplay, r.host.fs) (rest, fs))
      (hcrash : fs.Crash fs') : RealmStep cfg r { r with host := { r.host with fs := fs' } }
  /-- The host answers a request. -/
  | answer {r : Realm ι} {store : FileReplayStore hostOps} {result : VerifierResult}
      {host : HostState} (request : VerifierRequest) (hup : r.store = some store)
      (hunforged : Unforged keys json r.signed request)
      (h : Outcome (hostHandler cfg.host)
        ((cfg.application store).verify crypto json request) r.host
        result host) :
      RealmStep cfg r
        { r with host := host, accepted := accept r.accepted request host.clock result }
  /-- The host crashes, while it answers a request or before. -/
  | crash {r : Realm ι} {store : FileReplayStore hostOps} {host : HostState} {fs : Fs}
      {rest : Prog processOps VerifierResult} (request : VerifierRequest)
      (hup : r.store = some store)
      (h : Reach (hostHandler cfg.host)
        ((cfg.application store).verify crypto json request, r.host) (rest, host))
      (hcrash : host.fs.Crash fs) :
      RealmStep cfg r { r with host := { host with fs := fs }, store := none }

/-! ## Injective agreement -/

/-- The signed text is behind the acceptance. Tokens are compared by their SHA-256 hashes. -/
structure Justifies (cfg : HostConfig) (text : SignedText ι) (a : Acceptance) : Prop where
  /-- The proof of the request is the text with a signature. -/
  proof : ∃ signature, signature.length = es256SignatureBytes ∧
    a.request.dpopProof = text.input ++ byte '.' :: Base64.encode signature
  method : text.request.method = a.request.method
  target : EffectiveRequestTarget.parse a.request.target = .ok text.request.target
  token : ∃ token, text.request.accessToken = some token ∧
    crypto.sha256 token = crypto.sha256 a.request.accessToken
  nonce : ∀ context, cfg.noncePolicy = .required context → text.request.nonce ≠ none
  window : ∃ issuedAt proofId,
    ProofText (keys text.client) text.request issuedAt proofId text.input ∧
      -300 ≤ a.time.toInt - issuedAt.toInt ∧ a.time.toInt - issuedAt.toInt ≤ 300

/-- The host confirmed the key of a client. -/
def Acceptance.Confirms (a : Acceptance) (i : ι) : Prop :=
  a.request.confirmationJkt = some (keys i).thumbprint.toBase64url

/-- Injective agreement. -/
structure SenderConstrained (cfg : HostConfig) (r : Realm ι) : Prop where
  /-- The client of a confirmed key signed the proof. -/
  agreement : ∀ a ∈ r.accepted, ∀ i, a.Confirms keys i →
    ∃ text ∈ r.signed, text.client = i ∧ Justifies keys cfg text a
  /-- A signed text is behind one verified request at most. -/
  injective : r.accepted.Pairwise fun a b =>
    ∀ text : SignedText ι, Justifies keys cfg text a → ¬ Justifies keys cfg text b

end System

/-! ## What a verified request determines -/

section Runs

variable {ι : Type} {crypto : Crypto} {keys : ι → PublicP256Jwk crypto} {json : JsonText}
  {cfg : HostConfig}

namespace VerifiedFor

variable {a b : VerifierRequest} {proof proof' : UnverifiedDpopProof crypto}
  {value value' : DpopRequest} {now now' : I64} {asked asked' : ReplayRequest}

/-- Verified requests whose proofs show one key and the same claims ask the store the same. -/
theorem asked_eq (ha : VerifiedFor json a proof value now asked)
    (hb : VerifiedFor json b proof' value' now' asked') (hkey : proof.publicJwk = proof'.publicJwk)
    (hclaims : proof.claims = proof'.claims) : asked = asked' := by
  have hmethod : value.method = value'.method := by
    rw [← ha.binding.method, ← hb.binding.method, hclaims]
  have htarget : value.target = value'.target := by
    have htarget' := hb.binding.target
    rw [← hclaims, ha.binding.target] at htarget'
    exact Except.ok.inj htarget'
  have hsame := ha.claims.key
  rw [hkey, hclaims, hmethod, htarget, hb.claims.key] at hsame
  have hexpires : asked.expiresAtUnix = asked'.expiresAtUnix := by
    apply I64.ext_toInt
    rw [ha.claims.expires, hb.claims.expires, hclaims]
  cases asked
  cases asked'
  cases Except.ok.inj hsame
  cases hexpires
  rfl

theorem unique (ha : VerifiedFor json a proof value now asked)
    (hb : VerifiedFor json a proof' value' now' asked') : asked = asked' := by
  obtain rfl : proof = proof' := Except.ok.inj (ha.parsed.symm.trans hb.parsed)
  exact ha.asked_eq hb rfl rfl

end VerifiedFor

/-- The proof that a signed text makes with a signature. -/
theorem parsed_of_proofText {key : PublicP256Jwk crypto} {request : DpopRequest} {issuedAt : I64}
    {proofId : ProofId} {input signature : Bytes} {p : UnverifiedDpopProof crypto}
    (htext : ProofText key request issuedAt proofId input)
    (hlen : signature.length = es256SignatureBytes)
    (hparse : UnverifiedDpopProof.parse crypto json
      (input ++ byte '.' :: Base64.encode signature) = .ok p) :
    p.publicJwk = key ∧ p.claims = requestClaims crypto request issuedAt proofId ∧
      FitsLimits request issuedAt proofId := by
  obtain ⟨hpos, rfl⟩ := htext
  obtain ⟨hfits, rfl⟩ := (parse_requestProof_iff json key request hpos proofId hlen).1 hparse
  exact ⟨rfl, rfl, hfits⟩

/-- A verified request with the text of a client is justified by it. -/
theorem justifies_of_verifiedFor {text : SignedText ι} {a : Acceptance}
    {proof : UnverifiedDpopProof crypto} {value : DpopRequest} {now : I64} {asked : ReplayRequest}
    (hv : VerifiedFor json a.request proof value now asked)
    (hnonce : ∀ context, cfg.noncePolicy = .required context → value.nonce ≠ none)
    (hnow : now.toInt ≤ a.time.toInt) (htime : a.time.toInt ≤ asked.expiresAtUnix.toInt)
    (htext : ∃ issuedAt proofId,
      ProofText (keys text.client) text.request issuedAt proofId text.input)
    (hinput : text.input = proof.encodedHeader ++ byte '.' :: proof.encodedPayload) :
    Justifies keys cfg text a := by
  obtain ⟨issuedAt, proofId, htext⟩ := htext
  -- the proof of the request is the text with its signature
  obtain ⟨encodedSignature, hsegments, hdecode⟩ := (parse_eq_ok hv.parsed).segments
  have hlen := hv.binding.signature.1
  have hproof : a.request.dpopProof = text.input ++ byte '.' :: Base64.encode proof.signature := by
    rw [hsegments, hinput, Base64.encode_of_decode hdecode, List.append_assoc, List.cons_append]
  obtain ⟨-, hclaims, hfits⟩ := parsed_of_proofText htext hlen (hproof ▸ hv.parsed)
  refine ⟨⟨proof.signature, hlen, hproof⟩, ?_, ?_, ?_, ?_, ⟨issuedAt, proofId, htext, ?_⟩⟩
  · rw [← hv.method, ← hv.binding.method, hclaims]
    rfl
  · have htarget := hv.binding.target
    rw [hclaims] at htarget
    have hparse : EffectiveRequestTarget.parse text.request.target.asStr =
        .ok text.request.target :=
      EffectiveRequestTarget.parse_asStr hfits.target
    rw [hv.target, ← Except.ok.inj (hparse.symm.trans htarget)]
  · have htoken := hv.claims.token _ hv.token
    rw [hclaims] at htoken
    obtain ⟨token, htoken', hhash⟩ := Option.map_eq_some_iff.1 htoken
    exact ⟨token, htoken', Subtype.ext (Base64.encode_injective hhash)⟩
  · intro context hpolicy hnone
    obtain ⟨nonce, hsome⟩ := Option.ne_none_iff_exists'.1 (hnonce context hpolicy)
    have haccepted := hv.claims.nonce nonce hsome
    rw [hclaims] at haccepted
    simp only [requestClaims, hnone] at haccepted
    cases haccepted
  · have hiat : proof.claims.iat = issuedAt := by rw [hclaims]; rfl
    have hfuture := hv.claims.notFuture
    have hexpires := hv.claims.expires
    rw [hiat] at hfuture hexpires
    simp only [VerificationPolicy.default] at hfuture hexpires
    omega

/-- Requests behind one signed text ask the store the same. -/
theorem asked_eq_of_justifies {text : SignedText ι} {a b : Acceptance}
    {proof proof' : UnverifiedDpopProof crypto} {value value' : DpopRequest} {now now' : I64}
    {asked asked' : ReplayRequest} (ha : VerifiedFor json a.request proof value now asked)
    (hb : VerifiedFor json b.request proof' value' now' asked')
    (hja : Justifies keys cfg text a) (hjb : Justifies keys cfg text b) : asked = asked' := by
  obtain ⟨issuedAt, proofId, htext, -⟩ := hja.window
  obtain ⟨signature, hlen, hproof⟩ := hja.proof
  obtain ⟨signature', hlen', hproof'⟩ := hjb.proof
  obtain ⟨hkey, hclaims, -⟩ := parsed_of_proofText htext hlen (hproof ▸ ha.parsed)
  obtain ⟨hkey', hclaims', -⟩ := parsed_of_proofText htext hlen' (hproof' ▸ hb.parsed)
  exact ha.asked_eq hb (hkey.trans hkey'.symm) (hclaims.trans hclaims'.symm)

/-! ## What a run keeps -/

variable (crypto json) in
/-- The markers of the verified requests. -/
def verifiedMarkers (accepted : List Acceptance) : Markers := fun key expires =>
  ∃ a ∈ accepted, ∃ (proof : UnverifiedDpopProof crypto) (value : DpopRequest) (now : I64)
    (asked : ReplayRequest), VerifiedFor json a.request proof value now asked ∧ asked.key = key ∧
      asked.expiresAtUnix = expires

theorem verifiedMarkers_nonneg {accepted : List Acceptance} (key : ReplayKey) (expires : I64)
    (h : verifiedMarkers crypto json accepted key expires) : 0 ≤ expires.toInt := by
  obtain ⟨a, -, proof, value, now, asked, hv, -, rfl⟩ := h
  exact hv.nonneg

variable (keys json cfg) in
structure RealmInv (r : Realm ι) : Prop where
  kept : r.host.Keeps (verifiedMarkers crypto json r.accepted)
  opened : ∀ store, r.store = some store → store.clock = hostClock ∧ store.operationLock = hostLock
  signed : ∀ text ∈ r.signed, ∃ issuedAt proofId,
    ProofText (keys text.client) text.request issuedAt proofId text.input
  verified : ∀ a ∈ r.accepted, ∃ (proof : UnverifiedDpopProof crypto) (value : DpopRequest)
    (now : I64) (asked : ReplayRequest), VerifiedFor json a.request proof value now asked
  constrained : SenderConstrained keys cfg r

/-- Before the host is started. -/
theorem realmInv_initial {fs : Fs} (hfs : fs.Holds anyEntry) (start : I64) :
    RealmInv keys json cfg (Realm.initial fs start : Realm ι) where
  kept := ⟨hfs, fun key expires h => by obtain ⟨a, ha, -⟩ := h; cases ha⟩
  opened := fun store h => by cases h
  signed := fun text h => by cases h
  verified := fun a h => by cases h
  constrained := ⟨fun a h => (List.not_mem_nil h).elim, List.Pairwise.nil⟩

/-- The host changed, and nothing was signed or verified. -/
theorem RealmInv.setHost {r : Realm ι} (hr : RealmInv keys json cfg r) (host : HostState)
    (store : Option (FileReplayStore hostOps))
    (hkept : host.Keeps (verifiedMarkers crypto json r.accepted))
    (hopened : ∀ s, store = some s → s.clock = hostClock ∧ s.operationLock = hostLock) :
    RealmInv keys json cfg { r with host := host, store := store } where
  kept := hkept
  opened := hopened
  signed := hr.signed
  verified := hr.verified
  constrained := ⟨hr.constrained.agreement, hr.constrained.injective⟩

/-- More signed texts justify no less. -/
theorem RealmInv.sign {r : Realm ι} (hr : RealmInv keys json cfg r) {texts : List (SignedText ι)}
    (htexts : ∀ text ∈ texts, ∃ issuedAt proofId,
      ProofText (keys text.client) text.request issuedAt proofId text.input) :
    RealmInv keys json cfg { r with signed := r.signed ++ texts } where
  kept := hr.kept
  opened := hr.opened
  signed := by
    intro text htext
    rcases List.mem_append.1 htext with htext | htext
    · exact hr.signed text htext
    · exact htexts text htext
  verified := hr.verified
  constrained := by
    refine ⟨?_, hr.constrained.injective⟩
    intro a ha i hi
    obtain ⟨text, htext, hj⟩ := hr.constrained.agreement a ha i hi
    exact ⟨text, List.mem_append_left _ htext, hj⟩

/-- A verified request. -/
theorem RealmInv.accept {r : Realm ι} (hr : RealmInv keys json cfg r) {request : VerifierRequest}
    {host : HostState} (hunforged : Unforged keys json r.signed request)
    (hkept : host.Keeps (verifiedMarkers crypto json r.accepted))
    {proof : UnverifiedDpopProof crypto} {value : DpopRequest} {now : I64} {asked : ReplayRequest}
    (hv : VerifiedFor json request proof value now asked)
    (hnonce : ∀ context, cfg.noncePolicy = .required context → value.nonce ≠ none)
    (hnow : now.toInt ≤ host.clock.toInt)
    (hfresh : FreshMarker (verifiedMarkers crypto json r.accepted) asked.key asked.expiresAtUnix
      host) :
    RealmInv keys json cfg
      { r with host := host, accepted := ⟨request, host.clock⟩ :: r.accepted } where
  kept := by
    refine ⟨hkept.holds, ?_⟩
    rintro key expires ⟨a, ha, proof', value', now', asked', hv', rfl, rfl⟩
    rcases List.mem_cons.1 ha with rfl | ha
    · -- the marker of the request is on disk
      rw [← hv.unique hv']
      exact Or.inl hfresh.durable
    · exact hkept.marker _ _ ⟨a, ha, proof', value', now', asked', hv', rfl, rfl⟩
  opened := hr.opened
  signed := hr.signed
  verified := by
    intro a ha
    rcases List.mem_cons.1 ha with rfl | ha
    · exact ⟨proof, value, now, asked, hv⟩
    · exact hr.verified a ha
  constrained := by
    refine ⟨?_, List.pairwise_cons.2 ⟨?_, hr.constrained.injective⟩⟩
    · intro a ha i hi
      rcases List.mem_cons.1 ha with rfl | ha
      · have hthumbprint : proof.publicJwk.thumbprint = (keys i).thumbprint := by
          exact JwkThumbprint.toBase64url_injective
            (Option.some.inj (hv.confirmation.symm.trans hi))
        obtain ⟨text, htext, hclient, hinput⟩ :=
          hunforged proof hv.parsed i hthumbprint hv.binding.signature
        exact ⟨text, htext, hclient, justifies_of_verifiedFor hv hnonce hnow hfresh.intime
          (hr.signed text htext) hinput⟩
      · exact hr.constrained.agreement a ha i hi
    · -- the marker of an earlier request with the text would be past its expiry
      intro b hb text hja hjb
      obtain ⟨proof', value', now', asked', hv'⟩ := hr.verified b hb
      obtain rfl := asked_eq_of_justifies (a := ⟨request, host.clock⟩) hv hv' hja hjb
      have hexpired := hfresh.expired _ ⟨b, hb, proof', value', now', asked, hv', rfl, rfl⟩
      have hintime := hfresh.intime
      omega

/-- One step keeps the invariant. -/
theorem RealmInv.step {r r' : Realm ι} (hr : RealmInv keys json cfg r)
    (hstep : RealmStep keys json cfg r r') : RealmInv keys json cfg r' := by
  have hopen : Safe (fsHandler cfg.host True)
      (Kept anyEntry (verifiedMarkers crypto json r.accepted) r.host.clock)
      (fun opened _ => ∀ store, opened = .ok store →
        store.clock = hostClock ∧ store.operationLock = hostLock) cfg.openReplay r.host.fs :=
    keeps_new (format_true cfg.host) hostClock hostLock cfg.replayDir cfg.trustedUid
      cfg.replayCapacity hr.kept
  cases hstep with
  | sign i request h =>
    apply hr.sign
    intro text htext
    obtain ⟨input, hinput, rfl⟩ := List.mem_map.1 htext
    exact ((safe_build (keys i) request).reach h).inv input hinput
  | @start opened fs hdown h =>
    obtain ⟨hkept, hopened⟩ := hopen.outcome h
    refine hr.setHost ⟨fs, .empty, r.host.clock⟩ _ hkept ?_
    intro store hstore
    cases opened with
    | error e => cases hstore
    | ok store' =>
      cases hstore
      exact hopened store rfl
  | @crashStart fs fs' rest hdown h hcrash =>
    exact hr.setHost { r.host with fs := fs' } r.store
      (Kept.crash (hopen.reach h).inv (format_true cfg.host) hcrash) hr.opened
  | @answer store result host request hup hunforged h =>
    obtain ⟨hclock, hlock⟩ := hr.opened store hup
    have hsafe : Safe (hostHandler cfg.host)
        (HostState.Keeps (verifiedMarkers crypto json r.accepted))
        (VerifiedIn crypto json cfg (verifiedMarkers crypto json r.accepted) request)
        ((cfg.application store).verify crypto json request) r.host :=
      safe_hostVerify hclock hlock verifiedMarkers_nonneg hr.kept
    obtain ⟨hkept, hverified⟩ := hsafe.outcome h
    cases result with
    | rejected version failure nonce =>
      exact hr.setHost host r.store hkept hr.opened
    | verified version binding =>
      obtain ⟨proof, value, now, asked, hv, hnonce, hnow, hfresh⟩ := hverified ⟨_, _, rfl⟩
      exact hr.accept hunforged hkept hv hnonce hnow hfresh
  | @crash store host fs rest request hup h hcrash =>
    obtain ⟨hclock, hlock⟩ := hr.opened store hup
    have hsafe : Safe (hostHandler cfg.host)
        (HostState.Keeps (verifiedMarkers crypto json r.accepted))
        (VerifiedIn crypto json cfg (verifiedMarkers crypto json r.accepted) request)
        ((cfg.application store).verify crypto json request) r.host :=
      safe_hostVerify hclock hlock verifiedMarkers_nonneg hr.kept
    refine hr.setHost { host with fs := fs } none
      (Kept.crash (hsafe.reach h).inv (format_true cfg.host) hcrash) ?_
    intro s hs
    cases hs

/-- **The host is sender constrained.** In every state of every run, from any directory. The runs
are those in which the clock of the host does not step back and no request carries a forged
signature or a foreign key with the thumbprint of a client (`Unforged`); the token is determined up
to its SHA-256 hash. -/
theorem sender_constrained (keys : ι → PublicP256Jwk crypto) (json : JsonText) (cfg : HostConfig)
    {fs : Fs} (hfs : fs.Holds anyEntry) (start : I64) {r : Realm ι}
    (hrun : Relation.ReflTransGen (RealmStep keys json cfg) (Realm.initial fs start) r) :
    SenderConstrained keys cfg r := by
  have hinv : RealmInv keys json cfg r := by
    induction hrun with
    | refl => exact realmInv_initial hfs start
    | tail _ hstep ih => exact ih.step hstep
  exact hinv.constrained

end Runs

/-! ## One client and one request -/

section Sample

def sampleHostConfig : HostConfig where
  host := sampleHost
  replayDir := samplePath
  trustedUid := 1000
  replayCapacity := 8
  nonceCapacity := 1
  nonceCapacity_ne := Nat.one_ne_zero
  noncePolicy := .optional

def sampleKeys : Unit → PublicP256Jwk permissiveCrypto := fun _ => sampleJwk

/-- The text that the client signs for the sample request. -/
def sampleText : SignedText Unit where
  client := ()
  request := sampleDpopRequest none
  input := signingInput sampleJwk
    (requestClaims permissiveCrypto (sampleDpopRequest none) sampleTime sampleProofId)

/-- A well-formed directory of the process is opened. -/
theorem exists_openReplay (cfg : HostConfig) {fs : Fs} (hs : fs.Holds (EntryOk cfg.host.uid))
    (hcap : cfg.replayCapacity ≠ 0) (huid : cfg.trustedUid = cfg.host.uid)
    (howned : SecureDir.ServiceOwned cfg.host cfg.replayDir cfg.trustedUid) :
    ∃ file h fs', Outcome (okHandler cfg.host) cfg.openReplay fs
        (.ok ⟨hostClock, ⟨cfg.trustedUid⟩, cfg.replayCapacity, file, hostLock, h⟩) fs' ∧
      fs'.Holds (EntryOk cfg.host.uid) ∧ Recovered fs fs' := by
  obtain ⟨r, fs', hrun⟩ := Prog.exists_outcome (okHandler_total cfg.host) cfg.openReplay fs
  have hruns : Runs cfg.host sampleTime
      (Opened cfg.host hostClock hostLock cfg.replayDir cfg.trustedUid cfg.replayCapacity fs)
      cfg.openReplay fs :=
    runs_new hostClock hostLock cfg.replayDir cfg.trustedUid cfg.replayCapacity hs
  obtain ⟨-, hopened⟩ :=
    (hruns.handler_mono (okHandler_le_fsHandler cfg.host False)).outcome hrun
  cases r with
  | error e => exact absurd ⟨hcap, huid, howned⟩ hopened
  | ok store =>
    obtain ⟨⟨file, h, rfl⟩, -, -, hs', hrecovered⟩ := hopened
    exact ⟨file, h, fs', hrun, hs', hrecovered⟩

/-- A program of the directory runs in the process. -/
theorem outcome_process {α : Type} {host : FsHost} {p : Prog fileOps α} {s : HostState} {r : α}
    {fs' : Fs} (h : Outcome (okHandler host) p s.fs r fs') :
    Outcome (hostHandler host) p.inl s r { s with fs := fs' } := by
  induction p generalizing s with
  | ret a =>
    obtain ⟨rfl, rfl⟩ := h
    exact ⟨rfl, rfl⟩
  | call op k ih =>
    obtain ⟨x, fs₁, hop, h⟩ := h
    exact ⟨x, { s with fs := fs₁ }, ⟨fs₁, okHandler_le_fsHandler host True op _ x _ hop, rfl⟩,
      ih (s := { s with fs := fs₁ }) x h⟩

/-- A request that passes every check without state at a time, with its proof. -/
structure PassesChecks (crypto : Crypto) (json : JsonText) (request : VerifierRequest)
    (proof : UnverifiedDpopProof crypto) (now : I64) (asked : ReplayRequest) : Prop where
  version : request.version = verifierProtocolVersion
  accessToken : request.accessToken.isEmpty = false
  dpopProof : request.dpopProof.isEmpty = false
  header : parseDpopHeaderValues crypto json [request.dpopProof] = .ok proof
  value : ∃ target base, EffectiveRequestTarget.parse request.target = .ok target ∧
    DpopRequest.new request.method target = .ok base ∧
    verifyBinding proof (VerifierApplication.dpopRequest base request.accessToken none) = .ok () ∧
    verifyClaims .default proof
      (VerifierApplication.dpopRequest base request.accessToken none) now =
      .ok (true, asked)
  composed : ∀ v : VerifiedDpopProof, v.keyThumbprint = proof.publicJwk.thumbprint →
    v.accessTokenHashVerified = true →
    ∃ version binding,
      VerifierApplication.composeResult crypto request v = .verified version binding

/-- A request that passes the checks is verified over a directory without markers. -/
theorem exists_verified {crypto : Crypto} {json : JsonText} {request : VerifierRequest}
    {proof : UnverifiedDpopProof crypto} {now : I64} {asked : ReplayRequest}
    (hpasses : PassesChecks crypto json request proof now asked) {cfg : HostConfig}
    (hpolicy : cfg.noncePolicy = .optional) {store : FileReplayStore hostOps}
    (hclock : store.clock = hostClock) (hlock : store.operationLock = hostLock)
    (hdir : store.directory.ownerUid = cfg.host.uid) {s : HostState}
    (hm : Encodes cfg.host.uid .empty s.fs) (hnow : s.clock.toInt ≤ now.toInt) :
    ∃ version binding fs', Outcome (hostHandler cfg.host)
      ((cfg.application store).verify crypto json request) s (.verified version binding)
      { s with fs := fs', clock := now } := by
  obtain ⟨target, base, htarget, hnew, hbind, hclaims⟩ := hpasses.value
  obtain ⟨haccepted, -⟩ := verifyClaims_eq_ok_iff.1 hclaims
  have hexpires : now.toInt ≤ asked.expiresAtUnix.toInt := by
    have hnow := haccepted.notExpired
    rw [haccepted.expires]
    omega
  have hnonneg : 0 ≤ asked.expiresAtUnix.toInt := by
    have hpos := haccepted.issuedAt
    rw [haccepted.expires]
    omega
  -- the section answers that the key is fresh
  obtain ⟨fs', hsection, -⟩ := @exists_section_encodes cfg.host now .empty s.fs store.directory
    asked.key asked.expiresAtUnix hdir hnonneg store.capacity hm hexpires
  have hfresh : (recordEntry store.capacity now asked.key asked.expiresAtUnix .empty).1 =
      .ok .fresh := by
    rw [recordEntry_fresh_iff]
    exact ⟨fun e he => (Option.some_ne_none e he.symm).elim, Nat.pos_of_ne_zero store.capacity_ne⟩
  rw [hfresh] at hsection
  let read : HostState := { s with clock := now }
  have hreading : ∀ t : HostState, t.clock.toInt ≤ now.toInt →
      hostHandler cfg.host (.inr .unixSeconds) t (.ok now) { t with clock := now } :=
    fun t ht => Or.inr ⟨now, ht, rfl, rfl⟩
  -- the lock, the reading, the section and the release
  have hcall : Outcome (hostHandler cfg.host) (store.checkAndRecord asked.key asked.expiresAtUnix)
      read (.ok .fresh) { read with fs := fs' } := by
    unfold FileReplayStore.checkAndRecord
    rw [hclock, hlock]
    refine ⟨(.ok () : Except DpopPortError Unit), read, rfl, ?_⟩
    refine ⟨(.ok now : Except DpopPortError I64), read, hreading read le_rfl, ?_⟩
    show Outcome _ ((store.directory.recordMarker store.capacity now asked.key
      asked.expiresAtUnix).inl >>= fun answer => hostLock.unlock >>= fun _ => pure answer) _ _ _
    exact Prog.outcome_bind.2 ⟨_, _, outcome_process (s := read) hsection, (), _, rfl, rfl, rfl⟩
  generalize hvalue : VerifierApplication.dpopRequest base request.accessToken none = value at *
  let verified : VerifiedDpopProof :=
    ⟨proof.publicJwk.thumbprint, proof.claims.iat, value.nonce.isSome, true, true⟩
  have hverify : Outcome (hostHandler cfg.host)
      (DpopVerifier.verify ⟨hostClock, .default⟩ proof value store.replayStore) s (.ok verified)
      { read with fs := fs' } := by
    simp only [DpopVerifier.verify, hbind]
    refine Prog.outcome_bind.2 ⟨.ok now, read,
      ⟨(.ok now : Except DpopPortError I64), read, hreading s hnow, rfl, rfl⟩, ?_⟩
    simp only [hclaims]
    exact Prog.outcome_bind.2 ⟨_, _, hcall, rfl, rfl⟩
  obtain ⟨version, binding, hcomposed⟩ := hpasses.composed verified rfl rfl
  have hnonce : (cfg.application store).requiredNonce = .ret (.ok none) := by
    simp only [VerifierApplication.requiredNonce, HostConfig.application, hpolicy, Prog.pure_eq]
  refine ⟨version, binding, fs', ?_⟩
  unfold VerifierApplication.verify
  rw [if_neg (not_not.2 hpasses.version), hpasses.accessToken, hpasses.dpopProof]
  simp only [Bool.or_self, Bool.false_eq_true, if_false, htarget, hnonce, Prog.bind_ret]
  unfold VerifierApplication.verifyWithNonce
  simp only [hnew, hpasses.header, hvalue]
  refine Prog.outcome_bind.2 ⟨.ok verified, { read with fs := fs' }, hverify, ?_⟩
  exact ⟨hcomposed.symm, rfl⟩

/-- The sample request passes them. -/
theorem exists_passesChecks : ∃ request proof asked,
    PassesChecks permissiveCrypto compactText request proof sampleTime asked ∧
      request.confirmationJkt = some sampleJwk.thumbprint.toBase64url ∧
      signingInput sampleJwk (requestClaims permissiveCrypto (sampleDpopRequest none) sampleTime
        sampleProofId) = proof.encodedHeader ++ byte '.' :: proof.encodedPayload := by
  have haccepted : NonceAccepted (Option.map DpopNonce.asStr none) none :=
    fun n hn => (Option.some_ne_none n hn.symm).elim
  obtain ⟨asked, hclaims⟩ := claims_signed sampleJwk (List.replicate 64 0) haccepted
  refine ⟨sampleVerifierRequest none (some sampleJkt), sampleParsed none, asked, ?_, rfl, rfl⟩
  refine ⟨rfl, rfl, rfl, header_sample compactText shortNonce_none _, ?_, ?_⟩
  · exact ⟨sampleTarget, sampleRequest, parse_sampleTarget, new_sample, binding_sample none none,
      hclaims⟩
  · intro v hkey hhash
    refine (VerifierApplication.composeResult_verified_iff _ _ _).2 ⟨hhash, ?_⟩
    rw [hkey]
    rfl

/-- The sample client signs, the host starts, and the request is verified. -/
theorem sender_constrained_sample : ∃ r : Realm Unit,
    Relation.ReflTransGen (RealmStep sampleKeys compactText sampleHostConfig)
      (Realm.initial emptyDirectory sampleTime) r ∧
      (∃ a ∈ r.accepted, a.Confirms sampleKeys ()) ∧
      SenderConstrained sampleKeys sampleHostConfig r := by
  obtain ⟨request, proof, asked, hpasses, hconfirmed, hinput⟩ := exists_passesChecks
  obtain ⟨-, hparse⟩ := (VerifierApplication.parseDpopHeaderValues_single_iff permissiveCrypto
    compactText).1 hpasses.header
  -- the client signs one text
  have hsign : Outcome clientHandler
      ((clientBuilder (sampleKeys ())).build (sampleDpopRequest none)) []
      (sealProof sampleJwk sampleText.input (List.replicate 64 0)) [sampleText.input] :=
    ⟨(.ok sampleTime : Except DpopPortError I64), [], rfl,
      (.ok sampleProofId : Except DpopPortError ProofId), [], rfl,
      (.ok (List.replicate 64 0) : Except DpopPortError Bytes), _, rfl, rfl, rfl⟩
  have hfirst : RealmStep sampleKeys compactText sampleHostConfig
      (Realm.initial emptyDirectory sampleTime)
      ⟨⟨emptyDirectory, .empty, sampleTime⟩, none, [sampleText], []⟩ :=
    .sign () (sampleDpopRequest none) hsign.reach
  -- the host starts on the empty directory
  have hempty := isEmpty_emptyDirectory
  obtain ⟨file, h, fs', hopen, hfs', hrecovered⟩ := exists_openReplay sampleHostConfig
    (hempty.holds _) (by decide) rfl serviceOwned_sample
  let store : FileReplayStore hostOps := ⟨hostClock, ⟨1000⟩, 8, file, hostLock, h⟩
  let signed : Realm Unit := ⟨⟨emptyDirectory, .empty, sampleTime⟩, none, [sampleText], []⟩
  let started : Realm Unit := ⟨⟨fs', .empty, sampleTime⟩, some store, [sampleText], []⟩
  have hopen' : Outcome (fsHandler sampleHostConfig.host True) sampleHostConfig.openReplay
      signed.host.fs (.ok store) fs' := hopen.mono (okHandler_le_fsHandler sampleHost True)
  have hsecond : RealmStep sampleKeys compactText sampleHostConfig signed started :=
    RealmStep.start (r := signed) rfl hopen'
  -- the request carries the text with its signature
  have hm : Encodes sampleHostConfig.host.uid .empty started.host.fs :=
    encodes_empty hempty hfs' hrecovered
  obtain ⟨version, binding, fs'', hverified⟩ := exists_verified hpasses
    (show sampleHostConfig.noncePolicy = .optional from rfl)
    (show store.clock = hostClock from rfl) rfl rfl hm le_rfl
  have hunforged : Unforged sampleKeys compactText started.signed request := by
    intro p hp i _ _
    cases hparse.symm.trans hp
    exact ⟨sampleText, List.mem_singleton.2 rfl, rfl, hinput⟩
  have hthird := RealmStep.answer (r := started) request rfl hunforged hverified
  have hrun := ((Relation.ReflTransGen.single hfirst).tail hsecond).tail hthird
  refine ⟨_, hrun, ⟨_, List.mem_cons_self, hconfirmed⟩, ?_⟩
  exact sender_constrained sampleKeys compactText sampleHostConfig (hempty.holds _) sampleTime hrun

end Sample

end Keylix.Verifier
