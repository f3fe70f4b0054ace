import Keylix.Dpop.Agreement
import Keylix.Lib.SelfDelimiting

/-!
# The identity of a proof

What a replay marker stands for: the thumbprint of the key, the method, the normalised target and
the identifier of a proof. The text that is hashed is the four parts, each after its length, so that
two identities have the same text only if they are equal; and the key that the verifier hands to the
replay store depends on nothing else of the proof or the request.
-/

set_option autoImplicit false

namespace Keylix.Dpop

open Keylix.Lib Keylix.Core
open Keylix.Lib.Prog (Performs)

/-! ## Length-prefixed parts -/

theorem length_u64ToBeBytes (n : Nat) : (u64ToBeBytes n).length = 8 := by
  rw [u64ToBeBytes, List.length_map, List.length_range]

/-- A length is read back from its eight bytes. -/
theorem u64ToBeBytes_inj {n m : Nat} (hn : n < 2 ^ 64) (hm : m < 2 ^ 64)
    (h : u64ToBeBytes n = u64ToBeBytes m) : n = m := by
  have hdigit : ∀ i < 8, n / 256 ^ (7 - i) % 256 = m / 256 ^ (7 - i) % 256 := by
    intro i hi
    have hget := congrArg (fun l : Bytes => (l.getD i 0).toNat) h
    simpa [u64ToBeBytes, hi] using hget
  have h₀ := hdigit 0 (by norm_num)
  have h₁ := hdigit 1 (by norm_num)
  have h₂ := hdigit 2 (by norm_num)
  have h₃ := hdigit 3 (by norm_num)
  have h₄ := hdigit 4 (by norm_num)
  have h₅ := hdigit 5 (by norm_num)
  have h₆ := hdigit 6 (by norm_num)
  have h₇ := hdigit 7 (by norm_num)
  norm_num at *
  omega

/-- A part after the eight bytes of its length. -/
def lengthPrefixed (part : Bytes) : Bytes := u64ToBeBytes part.length ++ part

theorem selfDelimitingOn_lengthPrefixed :
    SelfDelimitingOn lengthPrefixed {part | part.length < 2 ^ 64} :=
  (selfDelimitingOn_of_length (s := {n | n < 2 ^ 64}) (fun n _ => length_u64ToBeBytes n)
    fun _ hn _ hm he => u64ToBeBytes_inj hn hm he).lengthPrefixed

theorem lengthPrefixed_ne_nil (part : Bytes) : lengthPrefixed part ≠ [] := by
  intro h
  have hlen := congrArg List.length h
  rw [lengthPrefixed, List.length_append, length_u64ToBeBytes] at hlen
  simp at hlen

/-- The hashed text is the parts one after another. -/
theorem replayMaterial_eq_ok {parts : List Bytes} {material : Bytes}
    (h : replayMaterial parts = .ok material) :
    (∀ part ∈ parts, part.length < 2 ^ 64) ∧ parts.flatMap lengthPrefixed = material := by
  induction parts generalizing material with
  | nil =>
    cases h
    exact ⟨fun part hpart => absurd hpart List.not_mem_nil, rfl⟩
  | cons part parts ih =>
    unfold replayMaterial at h
    split at h
    · next hlen =>
      obtain ⟨rest, hrest, rfl⟩ := map_eq_ok_iff.1 h
      obtain ⟨hparts, rfl⟩ := ih hrest
      exact ⟨List.forall_mem_cons.2 ⟨hlen, hparts⟩, rfl⟩
    · cases h

/-- **The hashed text determines the parts.** -/
theorem replayMaterial_inj {parts parts' : List Bytes} {material : Bytes}
    (h : replayMaterial parts = .ok material) (h' : replayMaterial parts' = .ok material) :
    parts = parts' := by
  obtain ⟨hlen, hflat⟩ := replayMaterial_eq_ok h
  obtain ⟨hlen', hflat'⟩ := replayMaterial_eq_ok h'
  exact selfDelimitingOn_lengthPrefixed.flatMap_injOn (fun part _ => lengthPrefixed_ne_nil part)
    hlen hlen' (hflat.trans hflat'.symm)

theorem exists_replayMaterial {parts : List Bytes} (h : ∀ part ∈ parts, part.length < 2 ^ 64) :
    ∃ material, replayMaterial parts = .ok material := by
  induction parts with
  | nil => exact ⟨[], rfl⟩
  | cons part parts ih =>
    obtain ⟨rest, hrest⟩ := ih fun p hp => h p (List.mem_cons_of_mem _ hp)
    refine ⟨u64ToBeBytes part.length ++ part ++ rest, ?_⟩
    rw [replayMaterial, if_pos (h part List.mem_cons_self), hrest]
    rfl

/-! ## Identities -/

structure ReplayIdentity where
  thumbprint : JwkThumbprint
  method : Bytes
  target : EffectiveRequestTarget
  jti : Bytes
  deriving DecidableEq

namespace ReplayIdentity

/-- The text that is hashed. -/
def material (id : ReplayIdentity) : Except DpopError Bytes :=
  replayMaterial [id.thumbprint.bytes.1, id.method, id.target.asStr, id.jti]

/-- The lengths are below the bound of their fields. -/
structure Bounded (id : ReplayIdentity) : Prop where
  method : id.method.length < 2 ^ 64
  jti : id.jti.length < 2 ^ 64

theorem Bounded.exists_material {id : ReplayIdentity} (h : id.Bounded) :
    ∃ material, id.material = .ok material := by
  refine exists_replayMaterial ?_
  have hthumb : id.thumbprint.bytes.1.length < 2 ^ 64 := by
    rw [id.thumbprint.bytes.2]
    norm_num
  have htarget : id.target.asStr.length < 2 ^ 64 :=
    Nat.lt_of_le_of_lt id.target.length_asStr_le (by decide)
  simp only [List.mem_cons, List.not_mem_nil, or_false, forall_eq_or_imp, forall_eq]
  exact ⟨hthumb, h.method, htarget, h.jti⟩

/-- Equal texts come from equal identities. -/
theorem material_inj {id id' : ReplayIdentity} {material : Bytes} (h : id.material = .ok material)
    (h' : id'.material = .ok material) : id = id' := by
  obtain ⟨⟨⟨thumbprint, hlen⟩⟩, method, target, jti⟩ := id
  obtain ⟨⟨⟨thumbprint', hlen'⟩⟩, method', target', jti'⟩ := id'
  have hparts := replayMaterial_inj h h'
  simp only [List.cons.injEq, and_true] at hparts
  obtain ⟨rfl, rfl, htarget, rfl⟩ := hparts
  cases EffectiveRequestTarget.ext_value htarget
  rfl

end ReplayIdentity

section Keys

variable {crypto : Crypto}

/-- The identity under which a verification asks the replay store. -/
def replayIdentity (proof : UnverifiedDpopProof crypto) (request : DpopRequest) : ReplayIdentity :=
  ⟨proof.publicJwk.thumbprint, request.method, request.target, proof.claims.jti⟩

/-- The requests to a replay store, as operations next to those of an environment. -/
def askOps : Signature := ⟨ReplayRequest, fun _ => Except DpopPortError ReplayStatus⟩

def askingStore (E : Signature) : ReplayStore (E.sum askOps) :=
  ⟨fun key expires => Prog.perform (S := E.sum askOps) (.inr ⟨key, expires⟩)⟩

/-- The replay store is asked for one key only. -/
def AsksFor (E : Signature) (key : ReplayKey) : (E.sum askOps).Op → Prop
  | .inl _ => True
  | .inr asked => asked.key = key

/-- The key of an identity. -/
def keyOf (crypto : Crypto) (id : ReplayIdentity) : ReplayKey :=
  match id.material with
  | .ok material => ⟨crypto.sha256 material⟩
  | .error _ => ⟨crypto.sha256 []⟩

theorem keyOf_eq {id : ReplayIdentity} {key : ReplayKey}
    (h : deriveReplayKey crypto id.thumbprint id.method id.target id.jti = .ok key) :
    keyOf crypto id = key := by
  obtain ⟨material, hmaterial, rfl⟩ := map_eq_ok_iff.1 h
  have hid : id.material = .ok material := hmaterial
  rw [keyOf, hid]

/-- The verifier asks the replay store for the key of the identity. -/
theorem performs_verify_asksFor {E : Signature} (clock : Clock E) (policy : VerificationPolicy)
    (proof : UnverifiedDpopProof crypto) (request : DpopRequest) :
    Performs (AsksFor E (keyOf crypto (replayIdentity proof request)))
      (DpopVerifier.verify ⟨⟨clock.unixSeconds.inl⟩, policy⟩ proof request (askingStore E)) := by
  unfold DpopVerifier.verify
  split
  · trivial
  refine Performs.bind (Prog.performs_inl (fun _ => trivial) _) ?_
  intro time
  cases time with
  | error e => trivial
  | ok now =>
    simp only
    split
    · trivial
    · next hashVerified asked hclaims =>
      have hkey := (verifyClaims_eq_ok_iff.1 hclaims).1.key
      exact ⟨(keyOf_eq hkey).symm, fun answer => trivial⟩

/-- **The replay identity is exact**: the hashed texts of two identities are equal if and only if
the identities are, and the key that a verification hands to the replay store is a function of its
identity alone. -/
theorem replayIdentity_exact (crypto : Crypto) (id id' : ReplayIdentity) (h : id.Bounded)
    (h' : id'.Bounded) :
    (∃ material material', id.material = .ok material ∧ id'.material = .ok material' ∧
      (material = material' ↔ id = id')) ∧
    ∃ key : ReplayIdentity → ReplayKey,
      (∀ id material, id.material = .ok material → key id = ⟨crypto.sha256 material⟩) ∧
      ∀ (E : Signature) (clock : Clock E) (policy : VerificationPolicy)
        (proof : UnverifiedDpopProof crypto) (request : DpopRequest),
        Performs (AsksFor E (key (replayIdentity proof request)))
          (DpopVerifier.verify ⟨⟨clock.unixSeconds.inl⟩, policy⟩ proof request
            (askingStore E)) := by
  obtain ⟨material, hmaterial⟩ := h.exists_material
  obtain ⟨material', hmaterial'⟩ := h'.exists_material
  refine ⟨⟨material, material', hmaterial, hmaterial', ?_, ?_⟩, keyOf crypto, ?_, ?_⟩
  · rintro rfl
    exact ReplayIdentity.material_inj hmaterial hmaterial'
  · rintro rfl
    rw [hmaterial] at hmaterial'
    exact Except.ok.inj hmaterial'
  · intro id material hid
    rw [keyOf, hid]
  · intro E clock policy proof request
    exact performs_verify_asksFor clock policy proof request

/-- Two identities that differ in where the method ends and the identifier begins. -/
theorem replayIdentity_exact_sample :
    ∃ material material',
      (ReplayIdentity.mk sampleJwk.thumbprint (ascii "GET") sampleTarget (ascii "a")).material =
        .ok material ∧
      (ReplayIdentity.mk sampleJwk.thumbprint (ascii "GETa") sampleTarget []).material =
        .ok material' ∧ material ≠ material' := by
  obtain ⟨⟨material, material', h, h', hiff⟩, -⟩ := replayIdentity_exact permissiveCrypto
    ⟨sampleJwk.thumbprint, ascii "GET", sampleTarget, ascii "a"⟩
    ⟨sampleJwk.thumbprint, ascii "GETa", sampleTarget, []⟩
    ⟨by decide, by decide⟩ ⟨by decide, by decide⟩
  refine ⟨material, material', h, h', fun he => ?_⟩
  exact absurd (congrArg ReplayIdentity.method (hiff.1 he)) (by decide)

end Keys

end Keylix.Dpop
