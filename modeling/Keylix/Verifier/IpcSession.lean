import Keylix.Lib.JsonParser
import Keylix.Lib.Program
import Keylix.Verifier.Ipc

/-!
# Clients, a verifier and an adversary

Any number of clients and one verifier exchange sealed messages over a transport that an adversary
controls: a party opens any bytes whatever, so every message may be read, dropped, reordered,
duplicated, delivered to another party or made up. What the adversary cannot do is state the two
assumptions of a run: a tag is accepted only for a text that a holder of the key authenticated
before (`Authentic`), and two requests never share a correlation.

`response_bound_to_request`: a client accepts a response only if the verifier opened exactly its
request and sealed exactly that response for it.
-/

set_option autoImplicit false

namespace Keylix.Verifier

open Keylix.Lib

section Session

variable {hmac : Hmac} {ι : Type}

/-- What happened so far. -/
structure IpcState (hmac : Hmac) where
  /-- The texts that tags were computed for, with the keys. -/
  macLog : List (hmac.Key × Bytes)
  /-- The sealed requests, with their payloads. -/
  requests : List (SealedIpcRequest × Bytes)
  /-- The requests that the verifier opened. -/
  opened : List AuthenticatedIpcRequest
  /-- The requests that the verifier sealed a response for, with the payload of the response. -/
  responses : List (AuthenticatedIpcRequest × Bytes)

def IpcState.initial : IpcState hmac := ⟨[], [], [], []⟩

variable (json : JsonText)

/-- A tag in a message is accepted only for a text that was authenticated with the key before. -/
def Authentic (set : PeerCredentialSet hmac) (domain : Domain) (frame : Bytes)
    (macLog : List (hmac.Key × Bytes)) : Prop :=
  ∀ d, set.decode json frame = .ok d →
    hmac.verify d.peer.key (macInput domain d.peer.id d.correlation d.payload) d.mac = true →
    (d.peer.key, macInput domain d.peer.id d.correlation d.payload) ∈ macLog

variable (clients : ι → PeerCredentialSet hmac) (verifier : PeerCredentialSet hmac)

/-- One call of a party that succeeds. A call that fails authenticates nothing and changes
nothing. -/
inductive IpcStep : IpcState hmac → IpcState hmac → Prop where
  | sealRequest {s : IpcState hmac} (i : ι) {peerId payload : Bytes}
      {correlation : ByteArr ipcCorrelationBytes} {request : SealedIpcRequest}
      {peer : PeerCredential hmac}
      (hfresh : ∀ r ∈ s.requests, r.1.correlation ≠ correlation)
      (hpeer : (clients i).find peerId = some peer)
      (h : (clients i).sealRequest peerId payload (some correlation) = .ok request) :
      IpcStep s { s with
        macLog := (peer.key, macInput .request peerId correlation payload) :: s.macLog
        requests := (request, payload) :: s.requests }
  | openRequest {s : IpcState hmac} {frame : Bytes} {request : AuthenticatedIpcRequest}
      (hauth : Authentic json verifier .request frame s.macLog)
      (h : verifier.openRequest json frame = .ok request) :
      IpcStep s { s with opened := request :: s.opened }
  | sealResponse {s : IpcState hmac} {request : AuthenticatedIpcRequest} {payload frame : Bytes}
      {peer : PeerCredential hmac} (hopened : request ∈ s.opened)
      (hpeer : verifier.find request.peerId = some peer)
      (h : verifier.sealResponse request payload = .ok frame) :
      IpcStep s { s with
        macLog := (peer.key, macInput .response request.peerId request.correlation payload) ::
          s.macLog
        responses := (request, payload) :: s.responses }

/-! ## What a run keeps -/

theorem find_eq_some {set : PeerCredentialSet hmac} {id : Bytes} {peer : PeerCredential hmac}
    (h : set.find id = some peer) : peer.id = id ∧ validPeerId id = true := by
  have hid : peer.id = id := by simpa using List.find?_some h
  exact ⟨hid, hid ▸ peer.validId⟩

/-- What is opened was decoded, and its tag was accepted. -/
theorem openEnvelope_eq_ok {set : PeerCredentialSet hmac} {frame : Bytes} {domain : Domain}
    {opened : AuthenticatedIpcRequest} (h : set.openEnvelope json frame domain = .ok opened) :
    ∃ d, set.decode json frame = .ok d ∧
      hmac.verify d.peer.key (macInput domain d.peer.id d.correlation d.payload) d.mac = true ∧
      opened = ⟨d.peer.id, d.correlation, d.payload⟩ := by
  unfold PeerCredentialSet.openEnvelope at h
  cases hd : set.decode json frame with
  | error e =>
    rw [hd] at h
    cases h
  | ok d =>
    rw [hd] at h
    simp only [bind, Except.bind] at h
    split at h
    · next hmac =>
      cases h
      exact ⟨d, rfl, hmac, rfl⟩
    · cases h

/-- What is opened under the assumption on tags was authenticated before. -/
theorem Authentic.opened {set : PeerCredentialSet hmac} {frame : Bytes} {domain : Domain}
    {macLog : List (hmac.Key × Bytes)} (hauth : Authentic json set domain frame macLog)
    {opened : AuthenticatedIpcRequest} (h : set.openEnvelope json frame domain = .ok opened) :
    validPeerId opened.peerId = true ∧
      ∃ key, (key, macInput domain opened.peerId opened.correlation opened.payload) ∈ macLog := by
  obtain ⟨d, hd, hverify, rfl⟩ := openEnvelope_eq_ok json h
  exact ⟨d.peer.validId, d.peer.key, hauth d hd hverify⟩

theorem sealRequest_eq_ok {set : PeerCredentialSet hmac} {peerId payload : Bytes}
    {correlation : ByteArr ipcCorrelationBytes} {request : SealedIpcRequest}
    (h : set.sealRequest peerId payload (some correlation) = .ok request) :
    request.peerId = peerId ∧ request.correlation = correlation := by
  obtain ⟨frame, -, he⟩ := bind_eq_ok_iff.1 h
  cases he
  exact ⟨rfl, rfl⟩

/-- The text of a tag is the request of a client or the response of the verifier. -/
inductive IpcState.Accounts (s : IpcState hmac) (input : Bytes) : Prop where
  | request {r : SealedIpcRequest} {payload : Bytes} (hr : (r, payload) ∈ s.requests)
      (hid : validPeerId r.peerId = true)
      (h : input = macInput .request r.peerId r.correlation payload)
  | response {a : AuthenticatedIpcRequest} {payload : Bytes} (ha : (a, payload) ∈ s.responses)
      (hid : validPeerId a.peerId = true)
      (h : input = macInput .response a.peerId a.correlation payload)

/-- A request was sealed with the identity, the correlation and the payload of an opened one. -/
def IpcState.Sealed (s : IpcState hmac) (a : AuthenticatedIpcRequest) : Prop :=
  ∃ r, (r, a.payload) ∈ s.requests ∧ r.peerId = a.peerId ∧ r.correlation = a.correlation

/-- What holds in every state of a run. -/
structure SessionInv (s : IpcState hmac) : Prop where
  accounts : ∀ m ∈ s.macLog, s.Accounts m.2
  opened : ∀ a ∈ s.opened, s.Sealed a
  responses : ∀ r ∈ s.responses, r.1 ∈ s.opened
  correlations : ∀ r ∈ s.requests, ∀ r' ∈ s.requests,
    r.1.correlation = r'.1.correlation → r = r'

theorem sessionInv_initial : SessionInv (IpcState.initial : IpcState hmac) :=
  ⟨by simp [IpcState.initial], by simp [IpcState.initial], by simp [IpcState.initial],
    by simp [IpcState.initial]⟩

/-- More requests and responses account for no less. -/
theorem IpcState.Accounts.mono {s s' : IpcState hmac} {input : Bytes} (h : s.Accounts input)
    (hrequests : ∀ r ∈ s.requests, r ∈ s'.requests)
    (hresponses : ∀ r ∈ s.responses, r ∈ s'.responses) : s'.Accounts input := by
  cases h with
  | request hr hid h => exact .request (hrequests _ hr) hid h
  | response ha hid h => exact .response (hresponses _ ha) hid h

theorem IpcState.Sealed.mono {s s' : IpcState hmac} {a : AuthenticatedIpcRequest} (h : s.Sealed a)
    (hrequests : ∀ r ∈ s.requests, r ∈ s'.requests) : s'.Sealed a := by
  obtain ⟨r, hr, hpeer, hcorrelation⟩ := h
  exact ⟨r, hrequests _ hr, hpeer, hcorrelation⟩

/-- An authenticated request text was sealed by a client. -/
theorem SessionInv.request_of_mem {s : IpcState hmac} (hs : SessionInv s) {key : hmac.Key}
    {a : AuthenticatedIpcRequest} (hid : validPeerId a.peerId = true)
    (h : (key, macInput .request a.peerId a.correlation a.payload) ∈ s.macLog) : s.Sealed a := by
  cases hs.accounts _ h with
  | @request r payload hr hid' he =>
    obtain ⟨-, hpeer, hcorrelation, hpayload⟩ := macInput_injective hid hid' he
    refine ⟨r, ?_, hpeer.symm, hcorrelation.symm⟩
    rw [hpayload]
    exact hr
  | response _ hid' he =>
    -- the domains differ
    obtain ⟨hdomain, -⟩ := macInput_injective hid hid' he
    cases hdomain

/-- An authenticated response text was sealed by the verifier. -/
theorem SessionInv.response_of_mem {s : IpcState hmac} (hs : SessionInv s) {key : hmac.Key}
    {resp : AuthenticatedIpcRequest} (hid : validPeerId resp.peerId = true)
    (h : (key, macInput .response resp.peerId resp.correlation resp.payload) ∈ s.macLog) :
    ∃ a, (a, resp.payload) ∈ s.responses ∧ a.peerId = resp.peerId ∧
      a.correlation = resp.correlation := by
  cases hs.accounts _ h with
  | request _ hid' he =>
    obtain ⟨hdomain, -⟩ := macInput_injective hid hid' he
    cases hdomain
  | @response a payload ha hid' he =>
    obtain ⟨-, hpeer, hcorrelation, hpayload⟩ := macInput_injective hid hid' he
    refine ⟨a, ?_, hpeer.symm, hcorrelation.symm⟩
    rw [hpayload]
    exact ha

/-- One call keeps the invariant. -/
theorem SessionInv.step {s s' : IpcState hmac} (hs : SessionInv s)
    (hstep : IpcStep json clients verifier s s') : SessionInv s' := by
  cases hstep with
  | @sealRequest i peerId payload correlation request peer hfresh hpeer h =>
    obtain ⟨hid, hcorrelation⟩ := sealRequest_eq_ok h
    have hgrow : ∀ r ∈ s.requests, r ∈ (request, payload) :: s.requests :=
      fun r hr => List.mem_cons_of_mem _ hr
    refine ⟨?_, ?_, hs.responses, ?_⟩
    · intro m hm
      rcases List.mem_cons.1 hm with rfl | hm
      · refine .request List.mem_cons_self ?_ (by rw [hid, hcorrelation])
        rw [hid]
        exact (find_eq_some hpeer).2
      · exact (hs.accounts m hm).mono hgrow fun _ hr => hr
    · intro a ha
      exact (hs.opened a ha).mono hgrow
    · -- the new correlation differs from every earlier one
      intro r hr r' hr' he
      rcases List.mem_cons.1 hr with rfl | hr
      · rcases List.mem_cons.1 hr' with rfl | hr'
        · rfl
        · exact absurd (he.symm.trans hcorrelation) (hfresh r' hr')
      · rcases List.mem_cons.1 hr' with rfl | hr'
        · exact absurd (he.trans hcorrelation) (hfresh r hr)
        · exact hs.correlations r hr r' hr' he
  | @openRequest frame a hauth h =>
    -- only a request that a client has sealed can be opened: its code is that of a recorded message
    obtain ⟨hid, key, hmem⟩ := hauth.opened json h
    refine ⟨?_, ?_, ?_, hs.correlations⟩
    · intro m hm
      exact (hs.accounts m hm).mono (fun _ hr => hr) fun _ hr => hr
    · intro a' ha'
      rcases List.mem_cons.1 ha' with rfl | ha'
      · exact hs.request_of_mem hid hmem
      · exact hs.opened a' ha'
    · intro r hr
      exact List.mem_cons_of_mem _ (hs.responses r hr)
  | @sealResponse a payload frame peer hopened hpeer h =>
    refine ⟨?_, hs.opened, ?_, hs.correlations⟩
    · intro m hm
      rcases List.mem_cons.1 hm with rfl | hm
      · exact .response List.mem_cons_self (find_eq_some hpeer).2 rfl
      · exact (hs.accounts m hm).mono (fun _ hr => hr) fun _ hr => List.mem_cons_of_mem _ hr
    · intro r hr
      rcases List.mem_cons.1 hr with rfl | hr
      · exact hopened
      · exact hs.responses r hr

/-- The invariant holds in every state of a run. -/
theorem sessionInv_of_run {s : IpcState hmac}
    (hrun : Relation.ReflTransGen (IpcStep json clients verifier) .initial s) : SessionInv s := by
  induction hrun with
  | refl => exact sessionInv_initial
  | tail _ hstep ih => exact ih.step json clients verifier hstep

/-- **A response is bound to its exact request.** When a client accepts a response for a request,
the verifier opened a request with the same identity, correlation and payload before, and sealed a
response with the payload of this one for it. -/
theorem response_bound_to_request {s : IpcState hmac}
    (hrun : Relation.ReflTransGen (IpcStep json clients verifier) .initial s) (i : ι)
    {request : SealedIpcRequest} {payload frame : Bytes} {response : AuthenticatedIpcRequest}
    (hsealed : (request, payload) ∈ s.requests)
    (hauth : Authentic json (clients i) .response frame s.macLog)
    (h : (clients i).openResponseForRequest json request frame = .ok response) :
    ∃ a ∈ s.opened, a.peerId = request.peerId ∧ a.correlation = request.correlation ∧
      a.payload = payload ∧ (a, response.payload) ∈ s.responses := by
  have hs := sessionInv_of_run json clients verifier hrun
  obtain ⟨response', hopen, h⟩ := bind_eq_ok_iff.1 h
  split at h
  · cases h
  next hmatch =>
  cases h
  push Not at hmatch
  obtain ⟨hpeer, hcorrelation⟩ := hmatch
  obtain ⟨hid, key, hmem⟩ := hauth.opened json hopen
  obtain ⟨a, ha, hapeer, hacorrelation⟩ := hs.response_of_mem hid hmem
  have hopened : a ∈ s.opened := hs.responses _ ha
  -- the request that the verifier opened has the correlation of this one, so it is this one
  obtain ⟨r, hr, hrpeer, hrcorrelation⟩ := hs.opened a hopened
  have hsame : (r, a.payload) = (request, payload) := by
    refine hs.correlations _ hr _ hsealed ?_
    rw [hrcorrelation, hacorrelation, hcorrelation]
  have hpayload : a.payload = payload := congrArg Prod.snd hsame
  refine ⟨a, hopened, ?_, ?_, hpayload, ha⟩
  · rw [hapeer, hpeer]
  · rw [hacorrelation, hcorrelation]

end Session

/-! ## One exchange -/

section Exchange

theorem decode_peer_mem {hmac : Hmac} (json : JsonText) {set : PeerCredentialSet hmac}
    {frame : Bytes} {d : DecodedEnvelope hmac} (h : set.decode json frame = .ok d) :
    d.peer ∈ set.peers := by
  unfold PeerCredentialSet.decode at h
  split at h
  · cases h
  split at h
  · cases h
  split at h
  · cases h
  obtain ⟨correlation, -, h⟩ := bind_eq_ok_iff.1 h
  obtain ⟨payload, -, h⟩ := bind_eq_ok_iff.1 h
  obtain ⟨mac, -, h⟩ := bind_eq_ok_iff.1 h
  split at h
  · cases h
  next peer hpeer =>
  cases h
  exact List.mem_of_find?_eq_some hpeer

/-- A message that opens is authentic when its text was authenticated with every key of the set. -/
theorem Authentic.of_open {hmac : Hmac} (json : JsonText) {set : PeerCredentialSet hmac}
    {frame : Bytes} {domain : Domain} {macLog : List (hmac.Key × Bytes)}
    {opened : AuthenticatedIpcRequest} (h : set.openEnvelope json frame domain = .ok opened)
    (hlog : ∀ peer ∈ set.peers,
      (peer.key, macInput domain opened.peerId opened.correlation opened.payload) ∈ macLog) :
    Authentic json set domain frame macLog := by
  obtain ⟨d, hd, -, rfl⟩ := openEnvelope_eq_ok json h
  intro d' hd' _
  rw [hd] at hd'
  cases hd'
  exact hlog d.peer (decode_peer_mem json hd)

def exchangeCorrelation : ByteArr ipcCorrelationBytes := ⟨List.replicate 32 1, rfl⟩

/-- Messages of a peer, with their tags by HMAC-SHA-256 under its secret. -/
def operatorTags : List ((Domain × Bytes) × ByteArr 32) :=
  [((.request, ascii "query"),
      ⟨[142, 33, 92, 127, 180, 157, 155, 197, 166, 205, 27, 229, 157, 123, 41, 15, 11, 197, 171, 37,
        49, 245, 222, 215, 237, 54, 125, 206, 32, 186, 232, 149], rfl⟩),
    ((.response, ascii "reply"),
      ⟨[21, 242, 246, 23, 243, 236, 161, 188, 109, 153, 122, 39, 54, 106, 157, 15, 212, 96, 168, 42,
        189, 53, 43, 37, 37, 72, 132, 242, 252, 215, 223, 118], rfl⟩),
    ((.response,
        ascii "\x7b\"status\":\"rejected\",\"version\":1,\"failure\":\"malformed_request\"\x7d"),
      ⟨[142, 102, 36, 79, 182, 235, 148, 205, 176, 1, 114, 146, 255, 47, 88, 70, 98, 206, 169, 3,
        106, 113, 15, 50, 14, 188, 221, 199, 95, 0, 13, 72], rfl⟩),
    ((.request,
        ascii "\x7b\"version\":1,\"method\":\"GET\",\"target\":\"https://a/\"," ++
          ascii "\"access_token\":\"token\",\"dpop_proof\":\"proof\"," ++
          ascii "\"confirmation_jkt\":null\x7d"),
      ⟨[7, 129, 255, 33, 188, 112, 120, 58, 186, 250, 73, 8, 58, 208, 215, 159, 144, 233, 70, 204,
        120, 177, 181, 76, 35, 137, 250, 25, 198, 244, 108, 46], rfl⟩),
    ((.response,
        ascii "\x7b\"status\":\"rejected\",\"version\":1,\"failure\":\"invalid_proof\"\x7d"),
      ⟨[126, 88, 86, 73, 170, 30, 157, 192, 179, 2, 116, 79, 144, 189, 179, 114, 45, 139, 173, 110,
        10, 190, 175, 181, 17, 157, 105, 167, 113, 220, 86, 84], rfl⟩)]

/-- The tags of these messages, and another tag for every other text. -/
def operatorTag (input : Bytes) : ByteArr 32 :=
  ((operatorTags.map fun entry => (macInput entry.1.1 (ascii "operator") exchangeCorrelation
    entry.1.2, entry.2)).lookup input).getD ⟨List.replicate 32 0, rfl⟩

def operatorHmac : Hmac where
  Key := Bytes
  newKey := id
  sign := fun _ input => operatorTag input
  verify := fun _ input tag => decide (tag = (operatorTag input).1)

def operator : PeerCredential operatorHmac := ⟨ascii "operator", List.replicate 32 7, by decide⟩

def operators : PeerCredentialSet operatorHmac := ⟨[operator], by decide⟩

def openedRequest : AuthenticatedIpcRequest := ⟨operator.id, exchangeCorrelation, ascii "query"⟩

def openedResponse : AuthenticatedIpcRequest := ⟨operator.id, exchangeCorrelation, ascii "reply"⟩

/-- The frame of a message. -/
def exchangeFrame (payload : Bytes) (domain : Domain) : Bytes :=
  (operators.sealEnvelope operator.id exchangeCorrelation payload domain).toOption.getD []

def exchangeRequest : SealedIpcRequest :=
  ⟨exchangeFrame openedRequest.payload .request, operator.id, exchangeCorrelation⟩

/-- The state after the request was sealed and opened and its response sealed. -/
def exchangeState : IpcState operatorHmac where
  macLog :=
    [(operator.key, macInput .response operator.id exchangeCorrelation openedResponse.payload),
      (operator.key, macInput .request operator.id exchangeCorrelation openedRequest.payload)]
  requests := [(exchangeRequest, openedRequest.payload)]
  opened := [openedRequest]
  responses := [(openedRequest, openedResponse.payload)]

theorem run_exchange : Relation.ReflTransGen (IpcStep compactText (fun _ : Unit => operators)
    operators) .initial exchangeState := by
  have hfind : operators.find operator.id = some operator := rfl
  have hseal : operators.sealRequest operator.id openedRequest.payload (some exchangeCorrelation) =
      .ok exchangeRequest := rfl
  have hopen : operators.openRequest compactText exchangeRequest.frame = .ok openedRequest := by
    decide +kernel
  have hrespond : operators.sealResponse openedRequest openedResponse.payload =
      .ok (exchangeFrame openedResponse.payload .response) := rfl
  have hauth : Authentic compactText operators .request exchangeRequest.frame
      [(operator.key,
        macInput .request operator.id exchangeCorrelation openedRequest.payload)] := by
    refine .of_open compactText hopen ?_
    intro peer hpeer
    rw [List.mem_singleton.1 hpeer]
    exact List.mem_singleton_self _
  have hlast := List.mem_singleton_self openedRequest
  exact ((Relation.ReflTransGen.single (.sealRequest () (by simp [IpcState.initial]) hfind
    hseal)).tail (.openRequest hauth hopen)).tail (.sealResponse hlast hfind hrespond)

theorem open_exchangeResponse : operators.openEnvelope compactText
    (exchangeFrame openedResponse.payload .response) .response = .ok openedResponse := by
  decide +kernel

/-- The client accepts the response of the exchange, which the verifier sealed for its request. -/
theorem response_bound_to_request_exchange :
    operators.openResponseForRequest compactText exchangeRequest
        (exchangeFrame openedResponse.payload .response) = .ok openedResponse ∧
      ∃ a ∈ exchangeState.opened, a.peerId = exchangeRequest.peerId ∧
        a.correlation = exchangeRequest.correlation ∧ a.payload = openedRequest.payload ∧
        (a, openedResponse.payload) ∈ exchangeState.responses := by
  have hopen : operators.openResponseForRequest compactText exchangeRequest
      (exchangeFrame openedResponse.payload .response) = .ok openedResponse := by
    decide +kernel
  refine ⟨hopen, response_bound_to_request compactText (fun _ => operators) operators run_exchange
    () (List.mem_singleton_self _) (.of_open compactText open_exchangeResponse ?_) hopen⟩
  intro peer hpeer
  rw [List.mem_singleton.1 hpeer]
  exact List.mem_cons_self

end Exchange

end Keylix.Verifier
