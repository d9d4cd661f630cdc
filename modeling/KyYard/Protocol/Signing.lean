import KyYard.Foundation.Sha256
import KyYard.Foundation.Text
import KyYard.Foundation.Utf8

/-!
# Signed messages

Agents and the server sign a context and fields, each behind its length in four bytes (`preimage`).
Nothing is assumed of a field but that it is shorter than `2 ^ 32` bytes; then the bytes determine
the context and every field. `signed_for_one` carries this to the verifiers of the four messages,
under a scheme that nobody forges: a signature is accepted only under the key, for the purpose and
with the fields it was made for.
-/

namespace KyYard.Protocol

open Foundation

/-! ## Preimages -/

/-- What a signature is made for. -/
inductive SignContext
  | enroll
  | auth
  | rotate
  | server
deriving DecidableEq

def SignContext.text : SignContext → String
  | .enroll => "kyyard-agent-enroll-v1"
  | .auth => "kyyard-agent-auth-v1"
  | .rotate => "kyyard-agent-rotate-v1"
  | .server => "kyyard-server-challenge-v2"

/-- Bytes behind their length; a length past four bytes wraps. -/
def lengthPrefixed (f : Bytes) : Bytes := Sha256.toBytes 4 f.length ++ f

/-- The context, then each field with its length. -/
def preimage (context : SignContext) (fields : List Bytes) : Bytes :=
  lengthPrefixed (Utf8.encode context.text.toList) ++ fields.flatMap lengthPrefixed

/-- What an agent signs to connect. -/
def authPreimage (endpointID nonce serverHost : Bytes) (version : Int) : Bytes :=
  preimage .auth [endpointID, nonce, serverHost, Utf8.encode (Text.itoaInt version).toList]

/-- What the server signs. -/
def challengePreimage (nonce agentNonce serverHost instanceFingerprint : Bytes) : Bytes :=
  preimage .server [nonce, agentNonce, serverHost, instanceFingerprint]

/-! ## Verifiers -/

def publicKeySize : Nat := 32
def signatureSize : Nat := 64
def tokenSize : Nat := 32
def nonceSize : Nat := 32

/-- The hash of a key. -/
def fingerprint (publicKey : Bytes) : Bytes :=
  Utf8.encode (Text.hexEncode (Sha256.sum256 publicKey))

/-- The parts of a challenge that its proof covers. -/
structure Challenge where
  nonce : Bytes
  instanceKey : Bytes
  signature : Bytes

section Verifiers

-- the check of a signature: the key, the message and the signature
variable (verify : Bytes → Bytes → Bytes → Bool)

/-- The old key vouches for the new one. -/
def verifyRotation (currentKey currentRawFingerprint newKey signature : Bytes) : Bool :=
  currentKey.length == publicKeySize && newKey.length == publicKeySize &&
    signature.length == signatureSize &&
    verify currentKey (preimage .rotate [currentRawFingerprint, newKey]) signature

/-- The key vouches for the token. -/
def verifyEnrollment (publicKey token proof : Bytes) : Bool :=
  publicKey.length == publicKeySize && token.length == tokenSize && proof.length == signatureSize &&
    verify publicKey (preimage .enroll [token]) proof

/-- The agent holds the key. -/
def verifyAuth (publicKey endpointID nonce serverHost : Bytes) (version : Int) (signature : Bytes) :
    Bool :=
  publicKey.length == publicKeySize && nonce.length == nonceSize &&
    signature.length == signatureSize &&
    verify publicKey (authPreimage endpointID nonce serverHost version) signature

/-- The server is the pinned one. -/
def Challenge.proven (c : Challenge) (agentNonce serverHost pinned : Bytes) : Bool :=
  c.instanceKey.length == publicKeySize && c.nonce.length == nonceSize &&
    agentNonce.length == nonceSize && c.signature.length == signatureSize &&
    fingerprint c.instanceKey == pinned &&
    verify c.instanceKey (challengePreimage c.nonce agentNonce serverHost pinned) c.signature

end Verifiers

/-! ## What is signed -/

/-- A message that is signed, with what its signer puts in. -/
inductive SigningInput
  | enroll (token : Bytes)
  | auth (endpointID nonce serverHost : Bytes) (version : Int)
  | rotate (currentRawFingerprint newKey : Bytes)
  | server (nonce agentNonce serverHost instanceFingerprint : Bytes)

namespace SigningInput

def context : SigningInput → SignContext
  | .enroll .. => .enroll
  | .auth .. => .auth
  | .rotate .. => .rotate
  | .server .. => .server

def fields : SigningInput → List Bytes
  | .enroll token => [token]
  | .auth endpointID nonce serverHost version =>
    [endpointID, nonce, serverHost, Utf8.encode (Text.itoaInt version).toList]
  | .rotate currentRawFingerprint newKey => [currentRawFingerprint, newKey]
  | .server nonce agentNonce serverHost pinned => [nonce, agentNonce, serverHost, pinned]

/-- The message as its verifier takes it, under a key. -/
def accepted (verify : Bytes → Bytes → Bytes → Bool) (key signature : Bytes) : SigningInput → Bool
  | .enroll token => verifyEnrollment verify key token signature
  | .auth endpointID nonce serverHost version =>
    verifyAuth verify key endpointID nonce serverHost version signature
  | .rotate currentRawFingerprint newKey =>
    verifyRotation verify key currentRawFingerprint newKey signature
  | .server nonce agentNonce serverHost pinned =>
    Challenge.proven verify ⟨nonce, key, signature⟩ agentNonce serverHost pinned

/-- Every field is shorter than its length can say. -/
def Short (i : SigningInput) : Prop := ∀ f ∈ i.fields, f.length < 2 ^ 32

end SigningInput

/-! ## Reading a preimage back -/

/-- A prefix of known length says where its field ends. -/
theorem lengthPrefixed_inj {f g r t : Bytes} (hf : f.length < 2 ^ 32) (hg : g.length < 2 ^ 32)
    (h : lengthPrefixed f ++ r = lengthPrefixed g ++ t) : f = g ∧ r = t := by
  simp only [lengthPrefixed, List.append_assoc] at h
  obtain ⟨hlength, hrest⟩ := List.append_inj h (by rw [Sha256.toBytes_length, Sha256.toBytes_length])
  have hmod := Sha256.mod_eq_of_toBytes_eq hlength
  have hsame : f.length = g.length := by omega
  exact List.append_inj hrest hsame

theorem lengthPrefixed_ne_nil (f : Bytes) : lengthPrefixed f ≠ [] := by
  intro h
  have hlength := congrArg List.length h
  rw [lengthPrefixed, List.length_append, Sha256.toBytes_length, List.length_nil] at hlength
  omega

/-- Fields are read back one by one; neither list can end before the other. -/
theorem flatMap_lengthPrefixed_inj {fs gs : List Bytes} (hf : ∀ f ∈ fs, f.length < 2 ^ 32)
    (hg : ∀ g ∈ gs, g.length < 2 ^ 32)
    (h : fs.flatMap lengthPrefixed = gs.flatMap lengthPrefixed) : fs = gs := by
  induction fs generalizing gs with
  | nil =>
    cases gs with
    | nil => rfl
    | cons g => exact absurd (List.append_eq_nil_iff.1 h.symm).1 (lengthPrefixed_ne_nil g)
  | cons f fs ih =>
    cases gs with
    | nil => exact absurd (List.append_eq_nil_iff.1 h).1 (lengthPrefixed_ne_nil f)
    | cons =>
      rw [List.forall_mem_cons] at hf hg
      obtain ⟨rfl, hrest⟩ := lengthPrefixed_inj hf.1 hg.1 h
      rw [ih hf.2 hg.2 hrest]

theorem preimage_inj {c c' : SignContext} {fs gs : List Bytes} (hf : ∀ f ∈ fs, f.length < 2 ^ 32)
    (hg : ∀ g ∈ gs, g.length < 2 ^ 32) (h : preimage c fs = preimage c' gs) : c = c' ∧ fs = gs := by
  have hshort : ∀ c : SignContext, (Utf8.encode c.text.toList).length < 2 ^ 32 := by
    intro c
    cases c <;> decide +kernel
  obtain ⟨htext, hfields⟩ := lengthPrefixed_inj (hshort c) (hshort c') h
  refine ⟨?_, flatMap_lengthPrefixed_inj hf hg hfields⟩
  revert htext
  cases c <;> cases c' <;> decide +kernel

/-- Two messages have one preimage only if they are of one kind with the same fields. Where every
accepted signature was made, under that key and for those bytes, one made for a message is accepted
for no other and under no other key. -/
theorem signed_for_one (i j : SigningInput) (hi : i.Short) (hj : j.Short) :
    (preimage i.context i.fields = preimage j.context j.fields ↔
        i.context = j.context ∧ i.fields = j.fields) ∧
      ∀ (verify : Bytes → Bytes → Bytes → Bool) (madeFor : Bytes → Option (Bytes × Bytes)),
        (∀ key message signature, verify key message signature = true →
          madeFor signature = some (key, message)) →
        ∀ key key' signature, madeFor signature = some (key, preimage i.context i.fields) →
          j.accepted verify key' signature = true →
            key = key' ∧ i.context = j.context ∧ i.fields = j.fields := by
  refine ⟨⟨preimage_inj hi hj, ?_⟩, ?_⟩
  · rintro ⟨hcontext, hfields⟩
    rw [hcontext, hfields]
  · intro verify madeFor hgenuine key key' signature hmade haccepted
    have hverified : verify key' (preimage j.context j.fields) signature = true := by
      cases j <;> exact (Bool.and_eq_true_iff.1 haccepted).2
    have hmade' := hgenuine _ _ _ hverified
    obtain ⟨hkey, hbytes⟩ := Prod.mk.inj (Option.some.inj (hmade.symm.trans hmade'))
    exact ⟨hkey, preimage_inj hi hj hbytes⟩

/-- A proof of enrollment under the one signature there is. -/
theorem enrollment_signed_for_one :
    let token : Bytes := List.replicate tokenSize 7
    let key : Bytes := List.replicate publicKeySize 1
    let signature : Bytes := List.replicate signatureSize 2
    let made := (key, preimage .enroll [token])
    let verify := fun k m s => decide (s = signature ∧ (k, m) = made)
    (SigningInput.enroll token).accepted verify key signature = true ∧
      ∀ key' (j : SigningInput), j.Short → j.accepted verify key' signature = true →
        key = key' ∧ j.context = .enroll ∧ j.fields = [token] := by
  intro token key signature made verify
  refine ⟨by decide +kernel, ?_⟩
  intro key' j hj haccepted
  have hshort : (SigningInput.enroll token).Short := by
    intro f hf
    rw [List.mem_singleton.1 hf]
    decide +kernel
  obtain ⟨hkey, hcontext, hfields⟩ := (signed_for_one _ j hshort hj).2 verify
    (fun s => if s = signature then some made else none)
    (fun k m s h => by
      obtain ⟨hs, hmade⟩ := of_decide_eq_true h
      rw [if_pos hs, hmade])
    key key' signature (if_pos rfl) haccepted
  exact ⟨hkey, hcontext.symm, hfields.symm⟩

end KyYard.Protocol
