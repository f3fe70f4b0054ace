import Keylix.Verifier.RemoteCall

/-!
# The loop over connections

The reference host takes one connection after the other and ignores what each of them returns. A
connection may stop at any byte, in either direction: it may send anything, and accept any part of
what is written to it.

`serve_refines`: the service sees a sequence of direct calls, one for each connection that sent a
request of a peer and none for any other, and what a connection is sent is part of the line for its
own call. Every sequence of direct calls whose requests fit a payload is the one of such a loop; a
longer request is not sealed by a peer.
-/

set_option autoImplicit false

namespace Keylix.Verifier

open Keylix.Lib Keylix.Core Keylix.Dpop Keylix.OAuth
open Keylix.Lib.Prog (Handler Outcome outcome_bind outcome_inl outcome_inr sumHandler)

/-! ## What is written -/

section Writes

variable {bytes frame : Bytes} {t t' : StreamState} {r : Except Unit Unit}

/-- A part of the text was written, and all of it if there was no failure. -/
def WritesPart (text : Bytes) (t : StreamState) (r : Except Unit Unit) (t' : StreamState) : Prop :=
  ∃ part, part <+: text ∧ t'.written = t.written ++ part ∧ (r = .ok () → part = text)

theorem writesPart_writeBeforeDeadline
    (h : Outcome streamHandler (writeBeforeDeadline bytes) t r t') : WritesPart bytes t r t' := by
  induction bytes using writeBeforeDeadline.induct generalizing t with
  | case1 =>
    rw [writeBeforeDeadline, dif_pos rfl] at h
    obtain ⟨-, rfl⟩ := h
    exact ⟨[], List.nil_prefix, (List.append_nil _).symm, fun _ => rfl⟩
  | case2 bytes hempty ih =>
    rw [writeBeforeDeadline, dif_neg hempty] at h
    obtain ⟨x, t₁, hwrite, h⟩ := h
    rcases hwrite with ⟨rfl, rfl⟩ | ⟨n, rfl, rfl⟩
    · obtain ⟨rfl, rfl⟩ := h
      exact ⟨[], List.nil_prefix, (List.append_nil _).symm, fun hr => by cases hr⟩
    simp only at h
    split at h
    next hn =>
      -- a write of no bytes is a failure
      obtain ⟨rfl, rfl⟩ := h
      refine ⟨[], List.nil_prefix, ?_, fun hr => by cases hr⟩
      rw [hn, List.take_zero]
    next hn =>
    obtain ⟨part, hpart, hwritten, hall⟩ := ih n hn h
    refine ⟨bytes.take n.1 ++ part, ?_, ?_, ?_⟩
    · have hprefix := (List.prefix_append_right_inj (bytes.take n.1)).2 hpart
      rwa [List.take_append_drop] at hprefix
    · rw [hwritten, List.append_assoc]
    · intro hr
      rw [hall hr, List.take_append_drop]

theorem writesPart_writeFrame (h : Outcome streamHandler (writeFrame frame) t r t') :
    WritesPart (frame ++ [byte '\n']) t r t' := by
  unfold writeFrame at h
  split at h
  · obtain ⟨rfl, rfl⟩ := h
    exact ⟨[], List.nil_prefix, (List.append_nil _).symm, fun hr => by cases hr⟩
  obtain ⟨r₁, t₁, h₁, hrest⟩ := outcome_bind.1 h
  obtain ⟨part₁, hpart₁, hwritten₁, hall₁⟩ := writesPart_writeBeforeDeadline h₁
  cases r₁ with
  | error e =>
    obtain ⟨rfl, rfl⟩ := hrest
    exact ⟨part₁, hpart₁.trans (List.prefix_append _ _), hwritten₁, fun hr => by cases hr⟩
  | ok u =>
    rw [hall₁ rfl] at hwritten₁
    obtain ⟨r₂, t₂, h₂, hflush⟩ := outcome_bind.1 hrest
    obtain ⟨part₂, hpart₂, hwritten₂, hall₂⟩ := writesPart_writeBeforeDeadline h₂
    have hwritten : t₂.written = t.written ++ (frame ++ part₂) := by
      rw [hwritten₂, hwritten₁, List.append_assoc]
    have hprefix := (List.prefix_append_right_inj frame).2 hpart₂
    cases r₂ with
    | error e =>
      obtain ⟨rfl, rfl⟩ := hflush
      exact ⟨_, hprefix, hwritten, fun hr => by cases hr⟩
    | ok u =>
      obtain ⟨x, t₃, hsame, rfl, rfl⟩ := hflush
      obtain rfl : t' = t₂ := hsame
      exact ⟨_, hprefix, hwritten, fun _ => by rw [hall₂ rfl]⟩

end Writes

/-! ## Connections -/

/-- A connection that was served: its stream when it was accepted and when it was closed, the frame
that was received or the failure to receive one, and what was returned for it. -/
structure Served where
  accepted : StreamState
  received : Except Unit Bytes
  returned : Except Unit Unit
  closed : StreamState

section Connections

variable {hmac : Hmac} (crypto : Crypto) (json : JsonText)

/-- The request of a peer that a connection sent, if it sent one. -/
def Served.request (peers : PeerCredentialSet hmac) (connection : Served) :
    Option VerifierRequest :=
  match connection.received with
  | .error _ => none
  | .ok frame =>
    match peers.openRequest json frame with
    | .error _ => none
    | .ok authenticated => (json.parse authenticated.payload).bind VerifierRequest.ofJson

/-- The call of a connection, if there is one, and the line that it is sent. -/
inductive Accounts (peers : PeerCredentialSet hmac) :
    Served → Option (VerifierRequest × VerifierResult) → Prop where
  /-- No frame was received, and nothing is sent. -/
  | silent {t t' : StreamState} (hread : Outcome streamHandler readFrame t (.error ()) t')
      (h : t'.written = t.written) :
      Accounts peers ⟨t, .error (), .error (), t'⟩ none
  /-- The frame is not opened. -/
  | refused {t t₀ t' : StreamState} {r : Except Unit Unit} {frame : Bytes} {e : IpcFailure}
      (hread : Outcome streamHandler readFrame t (.ok frame) t₀)
      (hopen : peers.openRequest json frame = .error e)
      (hwrite : WritesPart (unsealedRejection ++ [byte '\n']) t r t') :
      Accounts peers ⟨t, .ok frame, r, t'⟩ none
  /-- The payload of a peer is no request. -/
  | undecoded {t t₀ t' : StreamState} {r : Except Unit Unit} {frame sealed : Bytes}
      {authenticated : AuthenticatedIpcRequest}
      (hread : Outcome streamHandler readFrame t (.ok frame) t₀)
      (hopen : peers.openRequest json frame = .ok authenticated)
      (hpayload : (json.parse authenticated.payload).bind VerifierRequest.ofJson = none)
      (hsealed : peers.sealResponse authenticated
        (VerifierResult.reject .malformedRequest).toJson.render = .ok sealed)
      (hwrite : WritesPart (sealed ++ [byte '\n']) t r t') :
      Accounts peers ⟨t, .ok frame, r, t'⟩ none
  /-- The request of a peer is answered with the result of its call. -/
  | called {t t₀ t' : StreamState} {r : Except Unit Unit} {frame sealed : Bytes}
      {authenticated : AuthenticatedIpcRequest} {request : VerifierRequest}
      {result : VerifierResult}
      (hread : Outcome streamHandler readFrame t (.ok frame) t₀)
      (hopen : peers.openRequest json frame = .ok authenticated)
      (hpayload : (json.parse authenticated.payload).bind VerifierRequest.ofJson = some request)
      (hsealed : peers.sealResponse authenticated result.toJson.render = .ok sealed)
      (hwrite : WritesPart (sealed ++ [byte '\n']) t r t') :
      Accounts peers ⟨t, .ok frame, r, t'⟩ (some (request, result))

namespace Configuration

/-- The direct calls of the service, one after the other. -/
inductive Calls (c : Configuration hmac) :
    c.σ → List (VerifierRequest × VerifierResult) → Prop where
  | start : Calls c c.state []
  | call {s s' : c.σ} {calls : List (VerifierRequest × VerifierResult)} {request : VerifierRequest}
      {result : VerifierResult} (h : Calls c s calls)
      (hverify : Outcome c.handler (c.app.verify crypto json request) s result s') :
      Calls c s' (calls ++ [(request, result)])

/-- The loop over the incoming connections. What a connection returns is ignored, and an accept that
fails has no connection. The runs of a connection are those of `handleConnection`, by
`outcome_handleConnection_iff`. -/
inductive Serves (c : Configuration hmac) : c.σ → List Served → Prop where
  | start : Serves c c.state []
  | connection {s s' : c.σ} {served : List Served} {t t' : StreamState}
      {received : Except Unit Bytes} {r : Except Unit Unit} (h : Serves c s served)
      (hrun : { c with state := s }.Connects crypto json t received r s' t') :
      Serves c s' (served ++ [⟨t, received, r, t'⟩])

/-- The effect of the call of a connection. -/
def Asks (c : Configuration hmac) : Option (VerifierRequest × VerifierResult) → c.σ → c.σ → Prop
  | none, s, s' => s' = s
  | some call, s, s' => Outcome c.handler (c.app.verify crypto json call.1) s call.2 s'

end Configuration

variable {crypto json} {c : Configuration hmac}

/-- The result of a peer is sealed for it, and a part of its line is written. -/
theorem writesPart_respond {authenticated : AuthenticatedIpcRequest} {frame : Bytes}
    (hopen : c.peers.openRequest json frame = .ok authenticated) {result : VerifierResult}
    (hresult : result.FromService) {t t' : StreamState} {r : Except Unit Unit}
    (h : Outcome streamHandler (respond c.peers authenticated result) t r t') :
    ∃ sealed, c.peers.sealResponse authenticated result.toJson.render = .ok sealed ∧
      WritesPart (sealed ++ [byte '\n']) t r t' := by
  obtain ⟨peer, hpeer, hid⟩ := Configuration.peer_of_openRequest hopen
  obtain ⟨hne, hlen⟩ := length_result_le hresult
  rw [Configuration.respond_eq hpeer hid hresult] at h
  refine ⟨_, ?_, writesPart_writeFrame h⟩
  rw [PeerCredentialSet.sealResponse, hid, sealEnvelope_of_mem hpeer hne hlen]

/-- The call of a connection is for the request that it sent. -/
theorem request_of_accounts {connection : Served} {call : Option (VerifierRequest × VerifierResult)}
    (h : Accounts json c.peers connection call) :
    connection.request json c.peers = call.map Prod.fst := by
  cases h with
  | silent => rfl
  | refused _ hopen => simp only [Served.request, hopen, Option.map_none]
  | undecoded _ hopen hpayload => simp only [Served.request, hopen, hpayload, Option.map_none]
  | called _ hopen hpayload => simp only [Served.request, hopen, hpayload, Option.map_some]

theorem requests_of_accounts {served : List Served}
    {calls : List (Option (VerifierRequest × VerifierResult))}
    (h : List.Forall₂ (Accounts json c.peers) served calls) :
    (calls.filterMap id).map Prod.fst = served.filterMap (Served.request json c.peers) := by
  induction h with
  | nil => rfl
  | @cons connection call served calls haccount _ ih =>
    have hrequest := request_of_accounts haccount
    cases call with
    | none =>
      rw [List.filterMap_cons_none (by rfl), List.filterMap_cons_none hrequest, ih]
    | some call =>
      rw [List.filterMap_cons_some (by rfl), List.filterMap_cons_some hrequest, List.map_cons, ih]

/-- One connection makes at most one call, and is sent part of one line. -/
theorem accounts_of_connects {s' : c.σ} {t t' : StreamState} {received : Except Unit Bytes}
    {r : Except Unit Unit} (h : c.Connects crypto json t received r s' t') :
    ∃ call, Accounts json c.peers ⟨t, received, r, t'⟩ call ∧
      c.Asks crypto json call c.state s' := by
  obtain ⟨t₀, hread, h⟩ := h
  have hquiet : t₀.written = t.written := written_readLoop hread
  have hpart : ∀ {text : Bytes} {t₁ : StreamState}, WritesPart text t₀ r t₁ →
      WritesPart text t r t₁ := by
    rintro text t₁ ⟨part, hprefix, hwritten, hall⟩
    exact ⟨part, hprefix, by rw [hwritten, hquiet], hall⟩
  cases received with
  | error e =>
    obtain ⟨rfl, rfl, rfl⟩ := h
    exact ⟨none, .silent hread hquiet, rfl⟩
  | ok frame =>
    simp only at h
    cases hopen : c.peers.openRequest json frame with
    | error e =>
      rw [answerFrame_of_error hopen] at h
      obtain ⟨hstate, hwrite⟩ := outcome_inr.1 h
      exact ⟨none, .refused hread hopen (hpart (writesPart_writeFrame hwrite)), hstate⟩
    | ok authenticated =>
      cases hpayload : (json.parse authenticated.payload).bind VerifierRequest.ofJson with
      | none =>
        have hanswer : answerFrame crypto json c.peers c.app frame =
            (respond c.peers authenticated (.reject .malformedRequest)).inr := by
          simp only [answerFrame, hopen, hpayload]
        rw [hanswer] at h
        obtain ⟨hstate, hwrite⟩ := outcome_inr.1 h
        obtain ⟨sealed, hsealed, hwrite⟩ :=
          writesPart_respond hopen (fromService_reject .malformedRequest) hwrite
        exact ⟨none, .undecoded hread hopen hpayload hsealed (hpart hwrite), hstate⟩
      | some request =>
        have hanswer : answerFrame crypto json c.peers c.app frame =
            (c.app.verify crypto json request).inl >>= fun result =>
              (respond c.peers authenticated result).inr := by
          simp only [answerFrame, hopen, hpayload]
        rw [hanswer] at h
        obtain ⟨result, ⟨s₁, t₁⟩, hverify, hwrite⟩ := outcome_bind.1 h
        obtain ⟨hstream, hverify⟩ := outcome_inl.1 hverify
        obtain rfl : t₁ = t₀ := hstream
        obtain ⟨hstate, hwrite⟩ := outcome_inr.1 hwrite
        obtain rfl : s' = s₁ := hstate
        obtain ⟨sealed, hsealed, hwrite⟩ := writesPart_respond hopen
          ((fromService_verify crypto json c.app request).outcome hverify) hwrite
        exact ⟨some (request, result), .called hread hopen hpayload hsealed (hpart hwrite),
          hverify⟩

/-- The loop sees direct calls. -/
theorem calls_of_serves {s : c.σ} {served : List Served} (h : c.Serves crypto json s served) :
    ∃ calls, List.Forall₂ (Accounts json c.peers) served calls ∧
      c.Calls crypto json s (calls.filterMap id) := by
  induction h with
  | start => exact ⟨[], .nil, .start⟩
  | @connection s s' _ _ _ _ _ _ hrun ih =>
    obtain ⟨calls, haccounts, hcalls⟩ := ih
    obtain ⟨call, haccount, hasks⟩ :=
      @accounts_of_connects hmac crypto json { c with state := s } s' _ _ _ _ hrun
    refine ⟨calls ++ [call], List.rel_append haccounts (.cons haccount .nil), ?_⟩
    rw [List.filterMap_append]
    cases call with
    | none =>
      obtain rfl := hasks
      simpa using hcalls
    | some call => exact hcalls.call hasks

/-- A peer can make every call that its text fits. -/
theorem exists_connection_of_call {peer : PeerCredential hmac} {request : VerifierRequest}
    {result : VerifierResult} {s s' : c.σ} (hcorrect : hmac.Correct) (hpeer : peer ∈ c.peers.peers)
    (hrequest : request.Typed) (hlen : request.toJson.render.length ≤ maxVerifierPayloadBytes)
    (hverify : Outcome c.handler (c.app.verify crypto json request) s result s')
    (correlation : ByteArr ipcCorrelationBytes) :
    ∃ t frame t', { c with state := s }.Connects crypto json t (.ok frame) (.ok ()) s' t' ∧
      Accounts json c.peers ⟨t, .ok frame, .ok (), t'⟩ (some (request, result)) := by
  obtain ⟨t₀, t', hread, hanswer, hwritten⟩ := @exists_answer_line hmac crypto json
    { c with state := s } peer correlation request hcorrect hpeer hrequest hlen result s' hverify
  have hread := hread.mono streamHandler_of_deliver
  have hstreams : ∀ op u x u', sumHandler c.handler deliver op u x u' →
      sumHandler c.handler streamHandler op u x u' := by
    rintro (op | op) u x u' ⟨h, hother⟩
    · exact ⟨h, hother⟩
    · exact ⟨streamHandler_of_deliver op _ _ _ h, hother⟩
  obtain ⟨hne, hfits⟩ :=
    length_result_le ((fromService_verify crypto json c.app request).outcome hverify)
  refine ⟨_, _, t', ⟨t₀, hread, hanswer.mono hstreams⟩, ?_⟩
  exact .called hread (openRequest_line hcorrect hpeer hlen)
    (VerifierRequest.parse_render json hrequest) (sealEnvelope_of_mem hpeer hne hfits)
    ⟨_, List.prefix_refl _, hwritten, fun _ => rfl⟩

/-- **The loop over connections is a sequence of direct calls.** Whatever the connections send and
accept, the service is called once for each connection that sent a request of a peer, in their
order, and never for another; each connection is sent part of the line with the result of its own
call, of the refusal of its payload, or of the constant refusal. And every sequence of direct calls
whose requests are `Typed` (a version of 16 bits, texts in UTF-8) and have a text of
`maxVerifierPayloadBytes` at most is the one of a loop in which a peer makes each of them and
receives its result. -/
theorem serve_refines (c : Configuration hmac) {peer : PeerCredential hmac}
    (hcorrect : hmac.Correct) (hpeer : peer ∈ c.peers.peers) :
    (∀ s served, c.Serves crypto json s served →
      ∃ calls, List.Forall₂ (Accounts json c.peers) served calls ∧
        (calls.filterMap id).map Prod.fst = served.filterMap (Served.request json c.peers) ∧
        c.Calls crypto json s (calls.filterMap id)) ∧
    ∀ s calls, c.Calls crypto json s calls →
      (∀ call ∈ calls, call.1.Typed ∧ call.1.toJson.render.length ≤ maxVerifierPayloadBytes) →
      ∃ served, c.Serves crypto json s served ∧
        List.Forall₂ (Accounts json c.peers) served (calls.map some) ∧
        ∀ connection ∈ served, connection.returned = .ok () := by
  constructor
  · intro s served h
    obtain ⟨calls, haccounts, hcalls⟩ := calls_of_serves h
    exact ⟨calls, haccounts, requests_of_accounts haccounts, hcalls⟩
  intro s calls h hcalls
  induction h with
  | start => exact ⟨[], .start, .nil, by simp⟩
  | @call s s' calls request result _ hverify ih =>
    obtain ⟨served, hserves, haccounts, hreturned⟩ :=
      ih fun call hcall => hcalls call (List.mem_append_left _ hcall)
    obtain ⟨htyped, hlen⟩ := hcalls (request, result) (by simp)
    obtain ⟨t, frame, t', hrun, haccount⟩ :=
      exists_connection_of_call hcorrect hpeer htyped hlen hverify exchangeCorrelation
    refine ⟨served ++ [⟨t, .ok frame, .ok (), t'⟩], hserves.connection hrun, ?_, ?_⟩
    · rw [List.map_append]
      exact List.rel_append haccounts (.cons haccount .nil)
    · intro connection hmem
      rcases List.mem_append.1 hmem with hmem | hmem
      · exact hreturned connection hmem
      · rw [List.mem_singleton.1 hmem]

end Connections

/-- A loop that answers one request of a peer. -/
theorem serve_refines_sample :
    ∃ served, (closedConfiguration operators).Serves permissiveCrypto compactText () served ∧
      List.Forall₂ (Accounts compactText operators) served
        [some (remoteRequest, .reject .invalidProof)] := by
  obtain ⟨request, result, hrequest, hresult, htyped, hlen, hverify⟩ :=
    exists_remoteRequest permissiveCrypto compactText
  have hcalls := Configuration.Calls.start.call hverify
  obtain ⟨served, hserves, haccounts, -⟩ :=
    (@serve_refines operatorHmac permissiveCrypto compactText (closedConfiguration operators)
      operator correct_operatorHmac List.mem_cons_self).2 () _ hcalls (by
        intro call hmem
        rw [List.nil_append, List.mem_singleton] at hmem
        rw [hmem]
        exact ⟨htyped, hlen⟩)
  rw [hrequest, hresult]
  exact ⟨served, hserves, haccounts⟩

end Keylix.Verifier
