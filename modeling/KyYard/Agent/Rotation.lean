import KyYard.Store.Endpoints

/-!
# Key rotation between an agent and the server

The agent keeps three key slots: the current key, one it offered and one whose offer it gave up. The
server keeps the approved key and at most one under review. Frames between them may be lost, late or
repeated, either side may stop at any time, and the two clocks need not agree.

`keys_held` says that the agent holds every key the server may accept or acknowledge, after any run
in which an offer is handled once and while it is pending (`Careful`), a refusal is read for the
pending key it answers, and an offer does not lapse onto a key the server still holds.
`rotation_loses_key` gives two runs in which the agent loses such a key: an offer that reaches the
server twice, and an offer that lapses onto another.
-/

namespace KyYard.Agent

open Foundation Store

/-! ## The agent's identity -/

/-- The part of the stored identity that rotation reads. A private key is named by its public half;
`recoveryAttempt` is never written to disk. -/
structure Identity where
  privateKey : String
  pendingPrivateKey : Option String
  pendingFingerprint : String
  pendingSince : Int
  pendingRecorded : Bool
  lapsedPrivateKey : Option String
  lapsedRecorded : Bool
  recoveryAttempt : Nat
  rotatedAt : Int
deriving DecidableEq

namespace Identity

/-- The agent's own limit on an offer, a day longer than the server's. -/
def pendingKeyLife : Int := 8 * 24 * 3600 * 1000000000

/-- Every key the agent can sign with. -/
def keys (id : Identity) : List String :=
  id.privateKey :: (id.pendingPrivateKey.toList ++ id.lapsedPrivateKey.toList)

/-- The acknowledged pending key becomes the current one. -/
def promote (id : Identity) (now : Int) : Identity where
  privateKey := id.pendingPrivateKey.getD id.privateKey
  pendingPrivateKey := none
  pendingFingerprint := ""
  pendingSince := 0
  pendingRecorded := false
  lapsedPrivateKey := none
  lapsedRecorded := false
  recoveryAttempt := 0
  rotatedAt := if id.pendingPrivateKey.isSome then now else id.rotatedAt

/-- The keys to try when the current one is refused: those the server confirmed come first. -/
def candidates (id : Identity) : List String :=
  [true, false].flatMap fun want =>
    (if id.pendingRecorded = want then id.pendingPrivateKey.toList else []) ++
      (if id.lapsedRecorded = want then id.lapsedPrivateKey.toList else [])

/-- The walk over the candidates goes one further, or back to the current key. -/
def tryNext (id : Identity) : Identity :=
  if id.candidates.length ≤ id.recoveryAttempt then { id with recoveryAttempt := 0 }
  else { id with recoveryAttempt := id.recoveryAttempt + 1 }

/-- A recovery is under way. -/
def recovering (id : Identity) : Bool := decide (0 < id.recoveryAttempt)

/-- The candidate now tried. -/
def currentCandidate (id : Identity) : Option String :=
  if id.recoveryAttempt < 1 then none else id.candidates[id.recoveryAttempt - 1]?

/-- The key it signs with. -/
def signingKey (id : Identity) : String := id.currentCandidate.getD id.privateKey

/-- The candidate the server accepted becomes the identity and the other keys go. -/
def commitCandidate (id : Identity) (now : Int) : Identity :=
  match id.currentCandidate with
  | none => { id with recoveryAttempt := 0 }
  | some key => ⟨key, none, "", 0, false, none, false, 0, now⟩

/-- The offer is given up; its key is kept in place of one given up before. -/
def lapse (id : Identity) : Identity :=
  { id with
    lapsedPrivateKey := id.pendingPrivateKey
    lapsedRecorded := id.pendingRecorded
    pendingPrivateKey := none
    pendingFingerprint := ""
    pendingSince := 0
    pendingRecorded := false }

end Identity

/-- Signatures and fingerprints as the protocol needs them: a fingerprint names one key, and a
rotation verifies only under the key that signed it. -/
structure KeyScheme extends Crypto where
  sign : String → String → String
  fingerprint_injective : Function.Injective fingerprint
  fingerprint_ne : ∀ key, fingerprint key ≠ ""
  verifies_own : ∀ current signer new, verifyRotation current new (sign signer new) = true →
    current = signer

/-! ## Frames -/

/-- The agent's offer of a key, signed with the one it authenticates with. -/
structure Rotate where
  publicKey : String
  signature : String
deriving DecidableEq

/-- What the server answers. -/
inductive RotationCode
  | rotationPending
  | rotationBlocked
  | rotationRefused
deriving DecidableEq

/-- The server's answer to an offer. `answers` is the key offered; it is not in the frame. -/
structure Rotated where
  answers : String
  fingerprint : String
  code : Option RotationCode
deriving DecidableEq

/-- A new key is minted and saved as pending before it is sent. -/
def offerRotation (c : KeyScheme) (key : String) (now : Int) (id : Identity) : Identity × Rotate :=
  ({ id with
      pendingPrivateKey := some key
      pendingFingerprint := c.fingerprint key
      pendingSince := now
      pendingRecorded := false },
    ⟨key, c.sign id.signingKey key⟩)

/-- The offer was not recorded, or another one was. -/
def Rotated.refuses (ack : Rotated) (id : Identity) : Bool :=
  ack.code.isSome || ack.fingerprint != id.pendingFingerprint

/-- What the agent makes of the answer to its offer. -/
def readRotate (c : KeyScheme) (ack : Rotated) (now : Int) (id : Identity) : Identity :=
  if ack.refuses id then
    let dropped := { id with
      pendingPrivateKey := none, pendingFingerprint := "", pendingRecorded := false }
    match ack.code, id.lapsedPrivateKey with
    -- the server still holds the offer that was given up: it is the live one again
    | some .rotationPending, some key => { dropped with
        pendingPrivateKey := some key
        pendingFingerprint := c.fingerprint key
        pendingSince := now
        pendingRecorded := true
        lapsedPrivateKey := none
        lapsedRecorded := false }
    | _, _ => dropped
  else { id with lapsedPrivateKey := none, lapsedRecorded := false, pendingRecorded := true }

/-- Whether a notice of an acknowledged key is about the pending one. -/
def promotes (c : KeyScheme) (fingerprint : String) (id : Identity) : Bool :=
  fingerprint != "" && id.pendingPrivateKey.map c.fingerprint == some fingerprint

/-- The server's handler of an offer. -/
def answerRotate (c : KeyScheme) (endpointID : String) (rot : Rotate) (now : Int) (db : EndpointDb) :
    EndpointDb × Rotated :=
  match rotateEndpointKey c.toCrypto endpointID rot.publicKey rot.signature now db with
  | .ok db' => (db', ⟨rot.publicKey, c.fingerprint rot.publicKey, none⟩)
  | .error .rotationPending => (db, ⟨rot.publicKey, "", some .rotationPending⟩)
  | .error .rotationBlocked => (db, ⟨rot.publicKey, "", some .rotationBlocked⟩)
  | .error _ => (db, ⟨rot.publicKey, "", some .rotationRefused⟩)

/-! ## Both sides and the frames between them -/

/-- A session: just greeted, or reading frames. -/
inductive Stage
  | hello
  | loop
deriving DecidableEq

/-- The two sides, the server's clock and every frame sent so far. A frame stays where it is when it
is read, so it may be read again, later, or never. `handled` lists the keys whose offers the server
has answered and `minted` those the agent ever had. -/
structure World where
  agent : Identity
  session : Option Stage
  db : EndpointDb
  now : Int
  offers : List Rotate
  replies : List Rotated
  notices : List String
  handled : List String
  minted : List String

/-- The signatures in use, the endpoint's id and how often its agent rotates. -/
structure Setting where
  scheme : KeyScheme
  endpointID : String
  rotateEvery : Int

/-- The steps of both sides. -/
inductive RotationOp
  /-- A handshake with the key in hand, at the agent's time. -/
  | connect (now : Int)
  /-- The session ends without a reason. -/
  | disconnect
  /-- The server ends the session because its key is retired. -/
  | keyRetired
  /-- The agent starts again from disk. -/
  | restart
  /-- After the greeting, by the agent's clock. -/
  | lapse (now : Int)
  | offer (key : String) (now : Int)
  | enterLoop
  /-- The server reads an offer. -/
  | handle (rot : Rotate)
  /-- The agent reads an answer. -/
  | reply (ack : Rotated) (now : Int)
  | acknowledge (organization fingerprint : String)
  /-- The agent reads that a key was acknowledged. -/
  | notice (fingerprint : String) (now : Int)
  /-- Any other transaction on the endpoint tables. -/
  | other (op : EndpointOp)
  | wait (d : Nat)

/-- The transactions that record or acknowledge a key of the endpoint. -/
def ofRotation (endpointID : String) : EndpointOp → Bool
  | .rotate id _ _ _ => id == endpointID
  | .acknowledge _ id _ _ => id == endpointID
  | _ => false

variable (S : Setting)

/-- The handshake: an accepted candidate is committed, a refused key sends the agent to the next. -/
def handshake (now : Int) (w : World) : World :=
  match agentIdentity S.endpointID (S.scheme.fingerprint w.agent.signingKey) w.now w.db with
  | .ok _ => { w with
      agent := if w.agent.recovering then w.agent.commitCandidate now else w.agent
      session := some .hello }
  | .error .keyRetired => { w with agent := w.agent.tryNext }
  | .error .forbidden | .error .notFound =>
    { w with agent := if w.agent.recovering then w.agent.tryNext else w.agent }
  | .error _ => w

def rotationStep : RotationOp → World → Except EndpointError World
  | .connect now, w => if w.session = none then .ok (handshake S now w) else .error .invalid
  | .disconnect, w => .ok { w with session := none }
  | .keyRetired, w =>
    if w.session = some .loop then .ok { w with session := none, agent := w.agent.tryNext }
    else .error .invalid
  | .restart, w => .ok { w with session := none, agent := { w.agent with recoveryAttempt := 0 } }
  | .lapse now, w =>
    if w.session = some .hello ∧ w.agent.pendingFingerprint ≠ "" ∧
        Identity.pendingKeyLife < now - w.agent.pendingSince then
      .ok { w with agent := w.agent.lapse }
    else .error .invalid
  | .offer key now, w =>
    -- a new key is random: none like it was minted before
    if w.session = some .hello ∧ 0 < S.rotateEvery ∧ w.agent.pendingFingerprint = "" ∧
        S.rotateEvery ≤ now - w.agent.rotatedAt ∧ key ∉ w.minted then
      .ok { w with
        agent := (offerRotation S.scheme key now w.agent).1
        session := some .loop
        offers := (offerRotation S.scheme key now w.agent).2 :: w.offers
        minted := key :: w.minted }
    else .error .invalid
  | .enterLoop, w =>
    if w.session = some .hello then .ok { w with session := some .loop } else .error .invalid
  | .handle rot, w =>
    if rot ∈ w.offers then
      .ok { w with
        db := (answerRotate S.scheme S.endpointID rot w.now w.db).1
        replies := (answerRotate S.scheme S.endpointID rot w.now w.db).2 :: w.replies
        handled := rot.publicKey :: w.handled }
    else .error .invalid
  | .reply ack now, w =>
    if w.session = some .loop ∧ ack ∈ w.replies then
      .ok { w with agent := readRotate S.scheme ack now w.agent }
    else .error .invalid
  | .acknowledge organization fingerprint, w =>
    match acknowledgeEndpointKey organization S.endpointID fingerprint w.now w.db with
    | .error e => .error e
    | .ok db => .ok { w with db := db, notices := fingerprint :: w.notices }
  | .notice fingerprint now, w =>
    if w.session = some .loop ∧ fingerprint ∈ w.notices then
      if promotes S.scheme fingerprint w.agent then
        .ok { w with agent := w.agent.promote now, session := none }
      else .ok w
    else .error .invalid
  | .other op, w =>
    if ofRotation S.endpointID op then .error .invalid
    else match (endpointMachine S.scheme.toCrypto).step op w.db with
      | .error e => .error e
      | .ok db => .ok { w with db := db }
  | .wait d, w => .ok { w with now := w.now + d }

/-- The steps in any order. -/
def rotationMachine : Machine World RotationOp EndpointError where
  step := rotationStep S

/-! ## What the server holds -/

/-- The key is approved for the endpoint. -/
def Approved (endpointID : String) (db : EndpointDb) (key : String) : Prop :=
  ∃ k ∈ db.keys, k.endpointID = endpointID ∧ k.state = .approved ∧ k.publicKey = key

/-- The key may still be acknowledged for the endpoint. -/
def UnderReview (endpointID : String) (now : Int) (db : EndpointDb) (key : String) : Prop :=
  ∃ k ∈ db.keys, k.endpointID = endpointID ∧ k.live now = true ∧ k.publicKey = key

instance (endpointID : String) (db : EndpointDb) (key : String) :
    Decidable (Approved endpointID db key) :=
  inferInstanceAs (Decidable (∃ k ∈ db.keys, _ ∧ _ ∧ _))

instance (endpointID : String) (now : Int) (db : EndpointDb) (key : String) :
    Decidable (UnderReview endpointID now db key) :=
  inferInstanceAs (Decidable (∃ k ∈ db.keys, _ ∧ _ ∧ _))

/-- The server holds the key for the endpoint, approved or under a review that has not expired. -/
def Holds (w : World) (key : String) : Prop :=
  Approved S.endpointID w.db key ∨ UnderReview S.endpointID w.now w.db key

instance (w : World) (key : String) : Decidable (Holds S w key) :=
  inferInstanceAs (Decidable (_ ∨ _))

/-! ## Steps that lose no key -/

/-- The condition on a step. An offer is handled once and while it is pending; a refusal that is
read answers the pending key, if there is one; an offer lapses only onto a key the server has let
go. -/
def Careful (w : World) : RotationOp → Prop
  | .handle rot => rot.publicKey ∉ w.handled ∧ w.agent.pendingPrivateKey = some rot.publicKey
  | .reply ack _ => ack.refuses w.agent = true →
      w.agent.pendingPrivateKey = none ∨ w.agent.pendingPrivateKey = some ack.answers
  | .lapse _ => ∀ key ∈ w.agent.lapsedPrivateKey.toList, ¬ Holds S w key
  | _ => True

instance (w : World) : (op : RotationOp) → Decidable (Careful S w op)
  | .handle _ => inferInstanceAs (Decidable (_ ∧ _))
  | .reply _ _ => inferInstanceAs (Decidable (_ → _ ∨ _))
  | .lapse _ => inferInstanceAs (Decidable (∀ key ∈ w.agent.lapsedPrivateKey.toList, _))
  | .connect _ | .disconnect | .keyRetired | .restart | .offer _ _ | .enterLoop
  | .acknowledge _ _ | .notice _ _ | .other _ | .wait _ => .isTrue trivial

/-- An approved endpoint and its agent before any rotation. -/
structure Enrolled (w : World) : Prop where
  present : ∃ e ∈ w.db.endpoints, e.id = S.endpointID
  reviewed : ∀ e ∈ w.db.endpoints, e.id = S.endpointID → e.state ≠ .pending
  fingerprints : ∀ k ∈ w.db.keys, k.endpointID = S.endpointID →
    k.fingerprint = S.scheme.fingerprint k.publicKey
  current : ∀ key, Approved S.endpointID w.db key → key = w.agent.privateKey
  settled : ∀ key, ¬ UnderReview S.endpointID w.now w.db key
  slots : w.agent.pendingPrivateKey = none ∧ w.agent.lapsedPrivateKey = none ∧
    w.agent.pendingFingerprint = "" ∧ w.agent.recoveryAttempt = 0
  minted : w.minted = [w.agent.privateKey]
  quiet : w.session = none ∧ w.offers = [] ∧ w.replies = [] ∧ w.notices = [] ∧ w.handled = []

/-! ## What the server's transactions do to the endpoint's keys -/

/-- The endpoint is there and past its review. -/
def Reviewed (endpointID : String) (db : EndpointDb) : Prop :=
  (∃ e ∈ db.endpoints, e.id = endpointID) ∧
    ∀ e ∈ db.endpoints, e.id = endpointID → e.state ≠ .pending

/-- The endpoint's keys are among those from before, each in its old state or retired. -/
def NoGain (endpointID : String) (db db' : EndpointDb) : Prop :=
  ∀ k' ∈ db'.keys, k'.endpointID = endpointID → ∃ k ∈ db.keys, k.endpointID = endpointID ∧
    k.fingerprint = k'.fingerprint ∧ k.publicKey = k'.publicKey ∧ k.createdAt = k'.createdAt ∧
    (k'.state = k.state ∨ k'.state = .retired)

section Server

variable {endpointID : String} {db db' : EndpointDb}

theorem noGain_refl : NoGain endpointID db db := fun k hk hid =>
  ⟨k, hk, hid, rfl, rfl, rfl, .inl rfl⟩

variable {s : EndpointState → EndpointState} {g : KeyRow → KeyState}

theorem noGain_setStates {id : String}
    (hg : id = endpointID → ∀ k, g k = k.state ∨ g k = .retired) :
    NoGain endpointID db (db.setStates id s g) := by
  intro k' hk' hid
  obtain ⟨k, hk, hkid, hfp, heq, hne⟩ := mem_keys_setStates hk'
  refine ⟨k, hk, hkid ▸ hid, hfp.symm, ?_⟩
  by_cases hx : k.endpointID = id
  · rw [heq hx]
    exact ⟨rfl, rfl, hg (hx.symm.trans (hkid.symm.trans hid)) k⟩
  · rw [hne hx]
    exact ⟨rfl, rfl, .inl rfl⟩

/-- A key inserted for another endpoint. -/
theorem noGain_append {k : KeyRow} (hk : k.endpointID ≠ endpointID) (h : NoGain endpointID db db') :
    NoGain endpointID db { db' with keys := db'.keys ++ [k] } := by
  intro k' hk' hid
  rcases Table.mem_concat.1 hk' with hk' | hk'
  · exact h k' hk' hid
  · rw [hk'] at hid
    exact absurd hid hk

theorem reviewed_setStates {id : String} (h : Reviewed endpointID db)
    (hs : ∀ x, s x = .pending → x = .pending) : Reviewed endpointID (db.setStates id s g) := by
  obtain ⟨⟨e, he, heid⟩, hnp⟩ := h
  constructor
  · refine ⟨_, Table.mem_updateWhere.2 ⟨e, he, rfl⟩, ?_⟩
    rw [← heid]
    split <;> rfl
  · intro e' he' hid hp
    obtain ⟨e₀, he₀, heid₀, -, heq, hne⟩ := mem_endpoints_setStates he'
    by_cases hx : e₀.id = id
    · exact hnp e₀ he₀ (heid₀ ▸ hid) (hs _ (heq hx ▸ hp))
    · rw [hne hx] at hp hid
      exact hnp e₀ he₀ hid hp

/-- An endpoint inserted under another id. -/
theorem reviewed_append {e : EndpointRow} {keys : List KeyRow} {tokens : List TokenRow}
    (h : Reviewed endpointID db) (he : e.id ≠ endpointID) :
    Reviewed endpointID { db with
      endpoints := db.endpoints ++ [e], keys := keys, tokens := tokens } := by
  obtain ⟨⟨e₀, he₀, hid₀⟩, hnp⟩ := h
  refine ⟨⟨e₀, List.mem_append_left _ he₀, hid₀⟩, ?_⟩
  intro e' he' hid
  rcases Table.mem_concat.1 he' with he' | he'
  · exact hnp e' he' hid
  · rw [he'] at hid
    exact absurd hid he

/-- The other transactions give the endpoint no key and keep it past its review. -/
theorem noGain_step {c : Crypto} {op : EndpointOp} (h : Reviewed endpointID db)
    (hop : ofRotation endpointID op = false) (hstep : (endpointMachine c).step op db = .ok db') :
    NoGain endpointID db db' ∧ Reviewed endpointID db' := by
  -- a transaction that inserts an endpoint or approves one is about another
  have hother : ∀ id, (∀ e ∈ db.endpoints, e.id ≠ id) → id ≠ endpointID := by
    rintro id hfresh rfl
    obtain ⟨e, he, hid⟩ := h.1
    exact hfresh e he hid
  cases op with
  | createToken =>
    simp only [endpointMachine, createEnrollmentToken, guard_error_eq_ok, Except.ok.injEq] at hstep
    obtain ⟨-, rfl⟩ := hstep
    exact ⟨noGain_refl, h⟩
  | enroll _ id =>
    obtain ⟨t, -, -, hfresh, rfl⟩ := enroll_ok hstep
    exact ⟨noGain_append (hother id hfresh) noGain_refl, reviewed_append h (hother id hfresh)⟩
  | initLocal id =>
    simp only [endpointMachine, initLocalDocker, guard_error_eq_ok, Except.ok.injEq] at hstep
    obtain ⟨hany, rfl⟩ := hstep
    have hfresh : ∀ e ∈ db.endpoints, e.id ≠ id := by
      intro e he hid
      exact hany (List.any_eq_true.2 ⟨e, he, by simp [hid]⟩)
    exact ⟨noGain_append (hother id hfresh) noGain_refl, reviewed_append h (hother id hfresh)⟩
  | approve =>
    obtain ⟨⟨e, he, heid, hpending⟩, rfl⟩ := approveEndpoint_ok hstep
    refine ⟨noGain_setStates ?_, reviewed_setStates h (by simp)⟩
    intro hid
    exact absurd hpending (h.2 e he (heid.trans hid))
  | reject organization id =>
    obtain rfl := terminate_ok (show terminate organization id (· == .pending) db = _ from hstep)
    exact ⟨noGain_setStates fun _ _ => .inr rfl, reviewed_setStates h (by simp)⟩
  | revoke organization id =>
    obtain rfl := terminate_ok (show terminate organization id (· != .revoked) db = _ from hstep)
    exact ⟨noGain_setStates fun _ _ => .inr rfl, reviewed_setStates h (by simp)⟩
  | rotate id =>
    have hne : id ≠ endpointID := by simpa [ofRotation] using hop
    obtain ⟨e, -, -, -, -, -, -, -, rfl⟩ := rotateEndpointKey_ok hstep
    exact ⟨noGain_append hne (noGain_setStates fun hid => absurd hid hne),
      reviewed_setStates (g := fun k =>
        if k.state = .pendingReview then .retired else k.state) h fun _ hs => hs⟩
  | acknowledge _ id =>
    have hne : id ≠ endpointID := by simpa [ofRotation] using hop
    obtain ⟨-, -, rfl⟩ := acknowledgeEndpointKey_ok hstep
    exact ⟨noGain_setStates fun hid => absurd hid hne, reviewed_setStates h fun _ hs => hs⟩
  | inventory | offline =>
    obtain rfl := Except.ok.inj hstep
    refine ⟨noGain_setStates fun _ _ => .inl rfl, reviewed_setStates h ?_⟩
    intro x
    cases x <;> simp
  | duplicate | acknowledgeDuplicate =>
    obtain rfl := Except.ok.inj hstep
    exact ⟨noGain_refl, h⟩

theorem NoGain.approved (h : NoGain endpointID db db') {key : String}
    (hk : Approved endpointID db' key) : Approved endpointID db key := by
  obtain ⟨k', hk', hid, hs, rfl⟩ := hk
  obtain ⟨k, hk, hkid, -, hkey, -, hstate⟩ := h k' hk' hid
  rcases hstate with hstate | hstate
  · exact ⟨k, hk, hkid, hstate ▸ hs, hkey⟩
  · rw [hstate] at hs
    cases hs

/-- A review that is still open was open before. -/
theorem NoGain.underReview (h : NoGain endpointID db db') {now now' : Int} (hnow : now ≤ now')
    {key : String} (hk : UnderReview endpointID now' db' key) :
    UnderReview endpointID now db key := by
  obtain ⟨k', hk', hid, hlive, rfl⟩ := hk
  obtain ⟨k, hk, hkid, -, hkey, hcreated, hstate⟩ := h k' hk' hid
  refine ⟨k, hk, hkid, ?_, hkey⟩
  simp only [KeyRow.live, Bool.and_eq_true, decide_eq_true_eq] at hlive ⊢
  rcases hstate with hstate | hstate
  · exact ⟨hstate ▸ hlive.1, by omega⟩
  · rw [hstate] at hlive
    cases hlive.1

/-- A recorded offer: it was signed with an approved key, the approved keys stay and the new key is
the only one under review. -/
theorem rotateEndpointKey_keys {c : Crypto} {newPublicKey signature : String} {now : Int}
    (h : rotateEndpointKey c endpointID newPublicKey signature now db = .ok db') :
    (∃ key, Approved endpointID db key ∧ c.verifyRotation key newPublicKey signature = true) ∧
      (∀ key, Approved endpointID db' key → Approved endpointID db key) ∧
      ∀ key, UnderReview endpointID now db' key → key = newPublicKey := by
  obtain ⟨e, -, -, -, -, ⟨k, hk, hid, hs, hverify⟩, -, -, rfl⟩ := rotateEndpointKey_ok h
  refine ⟨⟨k.publicKey, ⟨k, hk, hid, hs, rfl⟩, hverify⟩, ?_, ?_⟩
  · rintro key ⟨k', hk', hid', hs', rfl⟩
    rcases Table.mem_concat.1 hk' with hk' | hk'
    · apply (noGain_setStates _ : NoGain endpointID _ _).approved ⟨k', hk', hid', hs', rfl⟩
      intro _ x
      by_cases hx : x.state = .pendingReview <;> simp [hx]
    · rw [hk'] at hs'
      cases hs'
  · rintro key ⟨k', hk', hid', hlive, rfl⟩
    rcases Table.mem_concat.1 hk' with hk' | hk'
    · obtain ⟨k₀, -, hkid, -, heq, -⟩ := mem_keys_setStates hk'
      rw [heq (hkid.symm.trans hid')] at hlive
      by_cases hx : k₀.state = .pendingReview <;> simp [KeyRow.live, KeyRow.with, hx] at hlive
    · rw [hk']

/-- An acknowledged key was under review; only keys with its fingerprint are approved now and none
is under review. -/
theorem acknowledgeEndpointKey_keys {organization fingerprint : String} {now : Int}
    (h : acknowledgeEndpointKey organization endpointID fingerprint now db = .ok db') :
    (∃ k ∈ db.keys, k.endpointID = endpointID ∧ k.fingerprint = fingerprint ∧
        UnderReview endpointID now db k.publicKey) ∧
      (∀ k ∈ db'.keys, k.endpointID = endpointID → k.state ≠ .retired →
        k.state = .approved ∧ ∃ k₀ ∈ db.keys, k₀.endpointID = endpointID ∧
          k₀.fingerprint = fingerprint ∧ k₀.publicKey = k.publicKey) := by
  obtain ⟨⟨k, hk, hid, hfp, hlive⟩, -, rfl⟩ := acknowledgeEndpointKey_ok h
  refine ⟨⟨k, hk, hid, hfp, k, hk, hid, hlive, rfl⟩, ?_⟩
  intro k' hk' hid' hs
  obtain ⟨k₀, hk₀, hkid, -, heq, -⟩ := mem_keys_setStates hk'
  have hkid₀ := hkid.symm.trans hid'
  rw [heq hkid₀] at hs ⊢
  by_cases hx : k₀.fingerprint = fingerprint
  · exact ⟨by simp [KeyRow.with, hx], k₀, hk₀, hkid₀, hx, rfl⟩
  · simp [KeyRow.with, hx] at hs

/-- The rows of an endpoint name their keys by the fingerprint. -/
def Named (c : KeyScheme) (endpointID : String) (db : EndpointDb) : Prop :=
  ∀ k ∈ db.keys, k.endpointID = endpointID → k.fingerprint = c.fingerprint k.publicKey

theorem NoGain.named {c : KeyScheme} (h : NoGain endpointID db db')
    (hn : Named c endpointID db) : Named c endpointID db' := by
  intro k' hk' hid
  obtain ⟨k, hk, hkid, hfp, hkey, -⟩ := h k' hk' hid
  rw [← hfp, ← hkey]
  exact hn k hk hkid

theorem named_setStates {c : KeyScheme} {id : String} (hn : Named c endpointID db) :
    Named c endpointID (db.setStates id s g) := by
  intro k' hk' hid
  obtain ⟨k, hk, hkid, hfp, heq, hne⟩ := mem_keys_setStates hk'
  rw [hfp, hn k hk (hkid.symm.trans hid)]
  by_cases hx : k.endpointID = id
  · rw [heq hx, KeyRow.with]
  · rw [hne hx]

end Server

/-! ## The invariant -/

/-- The key is in the pending or the lapsed slot. -/
def Identity.Offered (id : Identity) (key : String) : Prop :=
  id.pendingPrivateKey = some key ∨ id.lapsedPrivateKey = some key

variable {key : String} {w : World}

theorem Identity.mem_keys {id : Identity} :
    key ∈ id.keys ↔ key = id.privateKey ∨ id.Offered key := by
  simp [Identity.keys, Identity.Offered]

theorem Identity.not_offered {id : Identity} (hp : id.pendingPrivateKey = none)
    (hl : id.lapsedPrivateKey = none) : ¬ id.Offered key := by
  simp [Identity.Offered, hp, hl]

theorem Identity.mem_candidates {id : Identity} (h : key ∈ id.candidates) : id.Offered key := by
  simp only [Identity.candidates, List.mem_flatMap, List.mem_append] at h
  obtain ⟨want, -, h | h⟩ := h
  · split at h
    · exact .inl (by simpa using h)
    · simp at h
  · split at h
    · exact .inr (by simpa using h)
    · simp at h

/-- The server holds at most this key, and not for review. -/
def OnlyApproved (w : World) (key : String) : Prop :=
  (∀ key', Approved S.endpointID w.db key' → key' = key) ∧
    ∀ key', ¬ UnderReview S.endpointID w.now w.db key'

/-- The invariant. -/
structure Inv (w : World) : Prop where
  reviewed : Reviewed S.endpointID w.db
  named : Named S.scheme S.endpointID w.db
  unique : ∀ key key', Approved S.endpointID w.db key → Approved S.endpointID w.db key' → key = key'
  distinct : w.agent.keys.Nodup
  pendingName : w.agent.pendingFingerprint =
    (w.agent.pendingPrivateKey.map S.scheme.fingerprint).getD ""
  session : w.session ≠ none → w.agent.recoveryAttempt = 0
  minted : ∀ key ∈ w.agent.keys, key ∈ w.minted
  /-- An approved key other than the current one leaves none under review. -/
  approved : ∀ key, Approved S.endpointID w.db key → key = w.agent.privateKey ∨
    w.agent.Offered key ∧ ∀ key', ¬ UnderReview S.endpointID w.now w.db key'
  review : ∀ key, UnderReview S.endpointID w.now w.db key → w.agent.Offered key
  known : ∀ key, Holds S w key → key = w.agent.privateKey ∨ key ∈ w.handled
  handled : ∀ key ∈ w.handled, key ∈ w.minted
  offers : ∀ rot ∈ w.offers, rot.publicKey ∈ w.minted ∧ (w.agent.Offered rot.publicKey →
    rot.signature = S.scheme.sign w.agent.privateKey rot.publicKey)
  refused : ∀ ack ∈ w.replies, ack.code ≠ none → ack.answers ∈ w.handled ∧ ¬ Holds S w ack.answers
  /-- A recorded offer retired the one given up before it. -/
  recorded : ∀ ack ∈ w.replies, ack.code = none → ack.answers ∈ w.handled ∧
    ack.fingerprint = S.scheme.fingerprint ack.answers ∧
    (w.agent.pendingPrivateKey = some ack.answers → ∀ key, Holds S w key →
      key = w.agent.privateKey ∨ key = ack.answers)
  /-- An acknowledged key is the only one held until the agent takes it. -/
  noticed : ∀ fingerprint ∈ w.notices,
    (∃ key ∈ w.minted, S.scheme.fingerprint key = fingerprint) ∧
      ∀ key, w.agent.Offered key → S.scheme.fingerprint key = fingerprint →
        key ∈ w.handled ∧ OnlyApproved S w key

variable {S}

section

variable (h : Inv S w)
include h

theorem Inv.ne_current (hk : w.agent.Offered key) : key ≠ w.agent.privateKey := by
  rintro rfl
  have hd := h.distinct
  simp only [Identity.keys, List.nodup_cons, List.mem_append, Option.mem_toList] at hd
  exact hd.1 hk

theorem Inv.pending_none (hp : w.agent.pendingFingerprint = "") :
    w.agent.pendingPrivateKey = none := by
  rw [h.pendingName] at hp
  cases hk : w.agent.pendingPrivateKey with
  | none => rfl
  | some key =>
    rw [hk] at hp
    exact absurd hp (S.scheme.fingerprint_ne key)

/-- What the server holds is in one of the agent's slots. -/
theorem Inv.mem_keys (hk : Holds S w key) : key ∈ w.agent.keys := by
  apply Identity.mem_keys.2
  rcases hk with hk | hk
  · exact (h.approved key hk).imp_right And.left
  · exact .inr (h.review key hk)

/-- The server's side changes and holds no more than before. -/
theorem Inv.shrink {db : EndpointDb} {now : Int} (hnow : w.now ≤ now)
    (hr : Reviewed S.endpointID db) (hgain : NoGain S.endpointID w.db db) :
    Inv S { w with db := db, now := now } := by
  have happroved : ∀ key, Approved S.endpointID db key → Approved S.endpointID w.db key :=
    fun _ => hgain.approved
  have hreview : ∀ key, UnderReview S.endpointID now db key →
      UnderReview S.endpointID w.now w.db key := fun _ => hgain.underReview hnow
  have hholds : ∀ key, Holds S { w with db := db, now := now } key → Holds S w key :=
    fun key hk => hk.imp (happroved key) (hreview key)
  exact
    { h with
      reviewed := hr
      named := hgain.named h.named
      unique := fun key key' hk hk' => h.unique key key' (happroved key hk) (happroved key' hk')
      approved := fun key hk => (h.approved key (happroved key hk)).imp_right
        fun ⟨ho, hn⟩ => ⟨ho, fun key' hk' => hn key' (hreview key' hk')⟩
      review := fun key hk => h.review key (hreview key hk)
      known := fun key hk => h.known key (hholds key hk)
      refused := fun ack hack hcode =>
        ⟨(h.refused ack hack hcode).1, fun hk => (h.refused ack hack hcode).2 (hholds _ hk)⟩
      recorded := fun ack hack hcode =>
        have ⟨hm, hf, hheld⟩ := h.recorded ack hack hcode
        ⟨hm, hf, fun hp key hk => hheld hp key (hholds key hk)⟩
      noticed := fun fingerprint hfp =>
        have ⟨hm, hheld⟩ := h.noticed fingerprint hfp
        ⟨hm, fun key ho hkey =>
          have ⟨hk, honly, hnone⟩ := hheld key ho hkey
          ⟨hk, fun key' hk' => honly key' (happroved key' hk'),
            fun key' hk' => hnone key' (hreview key' hk')⟩⟩ }

/-- The agent's offers change, with the current key kept and no slot emptied of a key the server
holds. -/
theorem Inv.slots {a : Identity} {o : Option Stage} (hcurrent : a.privateKey = w.agent.privateKey)
    (hsub : ∀ key, a.Offered key → w.agent.Offered key)
    (hkeep : ∀ key, Holds S w key → w.agent.Offered key → a.Offered key) (hdistinct : a.keys.Nodup)
    (hname : a.pendingFingerprint = (a.pendingPrivateKey.map S.scheme.fingerprint).getD "")
    (hsession : o ≠ none → a.recoveryAttempt = 0)
    (hpending : ∀ key, a.pendingPrivateKey = some key → w.agent.pendingPrivateKey = some key ∨
      ∀ key', Holds S w key' → key' = w.agent.privateKey ∨ key' = key) :
    Inv S { w with agent := a, session := o } := by
  refine
    { h with
      distinct := hdistinct, pendingName := hname, session := hsession, minted := ?_,
      approved := ?_, review := ?_, known := ?_, offers := ?_, recorded := ?_, noticed := ?_ }
  · intro key hk
    apply h.minted key
    rw [Identity.mem_keys] at hk ⊢
    exact hk.imp (hcurrent ▸ ·) (hsub key)
  · intro key hk
    simp only [hcurrent]
    rcases h.approved key hk with hc | ⟨ho, hn⟩
    · exact .inl hc
    · exact .inr ⟨hkeep key (.inl hk) ho, hn⟩
  · intro key hk
    exact hkeep key (.inr hk) (h.review key hk)
  · intro key hk
    simp only [hcurrent]
    exact h.known key hk
  · intro rot hrot
    simp only [hcurrent]
    exact ⟨(h.offers rot hrot).1, fun ho => (h.offers rot hrot).2 (hsub _ ho)⟩
  · intro ack hack hcode
    obtain ⟨hm, hf, hheld⟩ := h.recorded ack hack hcode
    refine ⟨hm, hf, ?_⟩
    intro hp key hk
    simp only [hcurrent]
    rcases hpending _ hp with hp' | hall
    · exact hheld hp' key hk
    · exact hall key hk
  · intro fingerprint hfp
    obtain ⟨hm, hheld⟩ := h.noticed fingerprint hfp
    exact ⟨hm, fun key ho => hheld key (hsub key ho)⟩

/-- The agent takes the only key the server holds as its current one and empties the slots. -/
theorem Inv.takeover {a : Identity} {o : Option Stage}
    (hoffered : w.agent.Offered a.privateKey) (honly : OnlyApproved S w a.privateKey)
    (hempty : a.pendingPrivateKey = none ∧ a.lapsedPrivateKey = none ∧ a.pendingFingerprint = "")
    (hsession : a.recoveryAttempt = 0) : Inv S { w with agent := a, session := o } := by
  obtain ⟨hp, hl, hname⟩ := hempty
  have hno : ∀ key, ¬ a.Offered key := fun _ => Identity.not_offered hp hl
  refine
    { h with
      distinct := by simp [Identity.keys, hp, hl]
      pendingName := by simp [hp, hname]
      session := fun _ => hsession
      minted := ?_, approved := ?_, review := ?_, known := ?_, offers := ?_, recorded := ?_,
      noticed := ?_ }
  · intro key hk
    rcases Identity.mem_keys.1 hk with rfl | hk
    · exact h.minted _ (Identity.mem_keys.2 (.inr hoffered))
    · exact absurd hk (hno key)
  · intro key hk
    exact .inl (honly.1 key hk)
  · intro key hk
    exact absurd hk (honly.2 key)
  · rintro key (hk | hk)
    · exact .inl (honly.1 key hk)
    · exact absurd hk (honly.2 key)
  · intro rot hrot
    exact ⟨(h.offers rot hrot).1, fun ho => absurd ho (hno _)⟩
  · intro ack hack hcode
    obtain ⟨hm, hf, -⟩ := h.recorded ack hack hcode
    refine ⟨hm, hf, ?_⟩
    intro hp'
    rw [hp] at hp'
    cases hp'
  · intro fingerprint hfp
    exact ⟨(h.noticed fingerprint hfp).1, fun key ho => absurd ho (hno key)⟩

/-! ## The steps one by one -/

/-- Only the walk over the candidates or the session changes. -/
theorem Inv.attempt {n : Nat} {o : Option Stage} (hsession : o ≠ none → n = 0) :
    Inv S { w with agent := { w.agent with recoveryAttempt := n }, session := o } :=
  h.slots rfl (fun _ hk => hk) (fun _ _ hk => hk) h.distinct h.pendingName hsession
    fun _ hk => .inl hk

theorem Inv.tryNext : Inv S { w with agent := w.agent.tryNext, session := none } := by
  unfold Identity.tryNext
  split
  · exact h.attempt (by simp)
  · exact h.attempt (by simp)

/-- The handshake accepts the approved key only. -/
theorem Inv.accepted {k : KeyRow}
    (hk : agentIdentity S.endpointID (S.scheme.fingerprint w.agent.signingKey) w.now w.db = .ok k) :
    Approved S.endpointID w.db w.agent.signingKey := by
  obtain ⟨e, he, hid, -, hmem, hpair, hstate⟩ := agentIdentity_ok hk
  have hkid : k.endpointID = S.endpointID := congrArg Prod.fst hpair
  have hfp : k.fingerprint = S.scheme.fingerprint w.agent.signingKey := congrArg Prod.snd hpair
  rw [h.named k hmem hkid] at hfp
  refine ⟨k, hmem, hkid, ?_, S.scheme.fingerprint_injective hfp⟩
  rcases hstate with hs | ⟨hp, -⟩
  · exact hs
  · exact absurd hp (h.reviewed.2 e he hid)

theorem Inv.commitCandidate (now : Int) (ha : Approved S.endpointID w.db w.agent.signingKey) :
    Inv S { w with agent := w.agent.commitCandidate now, session := some .hello } := by
  unfold Identity.commitCandidate
  split
  · exact h.attempt fun _ => rfl
  next key hkey =>
  have hoffered : w.agent.Offered key := by
    unfold Identity.currentCandidate at hkey
    split at hkey
    · cases hkey
    exact Identity.mem_candidates (List.mem_of_getElem? hkey)
  rw [Identity.signingKey, hkey] at ha
  refine h.takeover hoffered ⟨fun key' hk' => h.unique key' key hk' ha, ?_⟩ ⟨rfl, rfl, rfl⟩ rfl
  -- the candidate is approved and is not the current key
  exact ((h.approved key ha).resolve_left (h.ne_current hoffered)).2

theorem Inv.handshake (hs : w.session = none) (now : Int) : Inv S (handshake S now w) := by
  have hstay : Inv S { w with agent := w.agent.tryNext } := by
    have := h.tryNext
    rwa [← hs] at this
  unfold KyYard.Agent.handshake
  split
  · next k hk =>
    have ha := h.accepted hk
    split
    · exact h.commitCandidate now ha
    · next hr =>
      have hzero : w.agent.recoveryAttempt = 0 := by simpa [Identity.recovering] using hr
      have := h.attempt (o := some .hello) fun _ => rfl
      rwa [← hzero] at this
  · exact hstay
  · split
    · exact hstay
    · exact h
  · split
    · exact hstay
    · exact h
  · exact h

theorem Inv.lapse (hs : w.session = some .hello)
    (hcareful : ∀ key ∈ w.agent.lapsedPrivateKey.toList, ¬ Holds S w key) :
    Inv S { w with agent := w.agent.lapse } := by
  have hsub : ∀ key, w.agent.lapse.Offered key → w.agent.Offered key := by
    rintro key (hk | hk)
    · cases hk
    · exact .inl hk
  refine h.slots rfl hsub ?_ ?_ rfl (fun _ => h.session (by simp [hs])) ?_
  · -- the key that goes is one the server has let go
    rintro key hheld (hk | hk)
    · exact .inr hk
    · exact absurd hheld (hcareful key (by simp [hk]))
  · have hd := h.distinct
    simp only [Identity.keys, ← List.cons_append] at hd
    simpa [Identity.keys, Identity.lapse] using (List.nodup_append'.1 hd).1
  · intro key hk
    cases hk

/-- A new key takes the empty pending slot. -/
theorem Inv.offer {now : Int} {w' : World} (hstep : rotationStep S (.offer key now) w = .ok w') :
    Inv S w' := by
  obtain ⟨⟨hs, -, hempty, -, hfresh⟩, rfl⟩ := ok_of_guard hstep
  have hnone := h.pending_none hempty
  have hzero := h.session (by simp [hs])
  have hmono : ∀ k, w.agent.Offered k → (offerRotation S.scheme key now w.agent).1.Offered k := by
    rintro k (hk | hk)
    · rw [hnone] at hk
      cases hk
    · exact .inr hk
  have hback : ∀ k, (offerRotation S.scheme key now w.agent).1.Offered k → k = key ∨
      w.agent.Offered k := by
    rintro k (hk | hk)
    · exact .inl (Option.some.inj hk).symm
    · exact .inr (.inr hk)
  refine
    { h with
      distinct := ?_, pendingName := rfl, session := fun _ => hzero, minted := ?_, approved := ?_,
      review := fun k hk => hmono k (h.review k hk)
      handled := fun k hk => List.mem_cons_of_mem _ (h.handled k hk)
      offers := ?_, recorded := ?_, noticed := ?_ }
  · have hd := h.distinct
    have hkey : key ∉ w.agent.keys := fun hk => hfresh (h.minted key hk)
    simp only [Identity.keys, hnone] at hd hkey ⊢
    exact (List.Perm.swap _ _ _).nodup (List.nodup_cons.2 ⟨hkey, hd⟩)
  · intro k hk
    rcases Identity.mem_keys.1 hk with rfl | hk
    · exact List.mem_cons_of_mem _ (h.minted _ (Identity.mem_keys.2 (.inl rfl)))
    · rcases hback k hk with rfl | hk
      · exact List.mem_cons_self
      · exact List.mem_cons_of_mem _ (h.minted k (Identity.mem_keys.2 (.inr hk)))
  · intro k hk
    exact (h.approved k hk).imp_right fun ⟨ho, hn⟩ => ⟨hmono k ho, hn⟩
  · intro rot hrot
    rcases List.mem_cons.1 hrot with rfl | hrot
    · simp [offerRotation, Identity.signingKey, Identity.currentCandidate, hzero]
    obtain ⟨hm, hsig⟩ := h.offers rot hrot
    refine ⟨List.mem_cons_of_mem _ hm, ?_⟩
    intro ho
    rcases hback _ ho with hkey | ho
    · exact absurd (hkey ▸ hm) hfresh
    · exact hsig ho
  · intro ack hack hcode
    obtain ⟨hm, hf, -⟩ := h.recorded ack hack hcode
    refine ⟨hm, hf, ?_⟩
    intro hp
    exact absurd (Option.some.inj hp ▸ h.handled _ hm) hfresh
  · intro fingerprint hfp
    obtain ⟨⟨k, hk, hkey⟩, hheld⟩ := h.noticed fingerprint hfp
    refine ⟨⟨k, List.mem_cons_of_mem _ hk, hkey⟩, ?_⟩
    intro k' ho hk'
    rcases hback k' ho with rfl | ho
    · exact absurd (S.scheme.fingerprint_injective (hkey.trans hk'.symm) ▸ hk) hfresh
    · exact hheld k' ho hk'

/-- The server answers the pending offer for the first time and refuses it. -/
theorem Inv.refuse {ack : Rotated}
    (hnew : key ∉ w.handled) (hp : w.agent.pendingPrivateKey = some key)
    (hack : ack.answers = key) (hcode : ack.code ≠ none) :
    Inv S { w with replies := ack :: w.replies, handled := key :: w.handled } := by
  have hnot : ¬ Holds S w key := by
    intro hk
    rcases h.known key hk with hc | hc
    · exact h.ne_current (.inl hp) hc
    · exact hnew hc
  refine
    { h with
      known := fun k hk => (h.known k hk).imp_right (List.mem_cons_of_mem _)
      handled := ?_, refused := ?_, recorded := ?_, noticed := ?_ }
  · intro k hk
    rcases List.mem_cons.1 hk with rfl | hk
    · exact h.minted _ (Identity.mem_keys.2 (.inr (.inl hp)))
    · exact h.handled k hk
  · intro r hr hrcode
    rcases List.mem_cons.1 hr with rfl | hr
    · rw [hack]
      exact ⟨List.mem_cons_self, hnot⟩
    · exact (h.refused r hr hrcode).imp_left (List.mem_cons_of_mem _)
  · intro r hr hrcode
    rcases List.mem_cons.1 hr with rfl | hr
    · exact absurd hrcode hcode
    · exact (h.recorded r hr hrcode).imp_left (List.mem_cons_of_mem _)
  · intro fingerprint hfp
    obtain ⟨hm, hheld⟩ := h.noticed fingerprint hfp
    exact ⟨hm, fun k ho hk => (hheld k ho hk).imp_left (List.mem_cons_of_mem _)⟩

/-- The server answers the pending offer for the first time and records it. -/
theorem Inv.record {rot : Rotate} {db : EndpointDb}
    (hrot : rot ∈ w.offers) (hnew : rot.publicKey ∉ w.handled)
    (hp : w.agent.pendingPrivateKey = some rot.publicKey)
    (hdb : rotateEndpointKey S.scheme.toCrypto S.endpointID rot.publicKey rot.signature w.now w.db =
      .ok db) :
    Inv S { w with
      db := db
      replies := ⟨rot.publicKey, S.scheme.fingerprint rot.publicKey, none⟩ :: w.replies
      handled := rot.publicKey :: w.handled } := by
  obtain ⟨⟨signer, hsigner, hverify⟩, happroved, hreview⟩ := rotateEndpointKey_keys hdb
  obtain ⟨hnamed, hreviewed⟩ : Named S.scheme S.endpointID db ∧ Reviewed S.endpointID db := by
    obtain ⟨e, -, -, -, -, -, -, -, rfl⟩ := rotateEndpointKey_ok hdb
    constructor
    · intro k hk hid
      rcases Table.mem_concat.1 hk with hk | hk
      · exact named_setStates h.named k hk hid
      · rw [hk]
    · exact reviewed_setStates (g := fun k =>
        if k.state = .pendingReview then .retired else k.state) h.reviewed fun _ hs => hs
  -- the offer was signed with the agent's current key, so that is the approved one
  have hcurrent : signer = w.agent.privateKey := by
    rw [(h.offers rot hrot).2 (.inl hp)] at hverify
    exact S.scheme.verifies_own _ _ _ hverify
  have honly : ∀ k, Approved S.endpointID db k → k = w.agent.privateKey := fun k hk =>
    (h.unique k signer (happroved k hk) hsigner).trans hcurrent
  have hheld : ∀ k, Approved S.endpointID db k ∨ UnderReview S.endpointID w.now db k →
      k = w.agent.privateKey ∨ k = rot.publicKey := fun k hk => hk.imp (honly k) (hreview k)
  refine
    { h with
      reviewed := hreviewed
      named := hnamed
      unique := fun k k' hk hk' => (honly k hk).trans (honly k' hk').symm
      approved := fun k hk => .inl (honly k hk)
      review := fun k hk => .inl (hreview k hk ▸ hp)
      known := fun k hk => (hheld k hk).imp_right (by rintro rfl; exact List.mem_cons_self)
      handled := ?_, refused := ?_, recorded := ?_, noticed := ?_ }
  · intro k hk
    rcases List.mem_cons.1 hk with rfl | hk
    · exact (h.offers rot hrot).1
    · exact h.handled k hk
  · intro r hr hcode
    rcases List.mem_cons.1 hr with rfl | hr
    · exact absurd rfl hcode
    · obtain ⟨hm, hnot⟩ := h.refused r hr hcode
      refine ⟨List.mem_cons_of_mem _ hm, ?_⟩
      rintro (hk | hk)
      · exact hnot (.inl (happroved _ hk))
      · exact hnew (hreview _ hk ▸ hm)
  · intro r hr hcode
    rcases List.mem_cons.1 hr with rfl | hr
    · exact ⟨List.mem_cons_self, rfl, fun _ => hheld⟩
    · obtain ⟨hm, hf, -⟩ := h.recorded r hr hcode
      refine ⟨List.mem_cons_of_mem _ hm, hf, ?_⟩
      intro hp'
      exact absurd (Option.some.inj (hp.symm.trans hp') ▸ hm) hnew
  · intro fingerprint hfp
    obtain ⟨hm, hnoticed⟩ := h.noticed fingerprint hfp
    refine ⟨hm, ?_⟩
    intro k ho hk
    -- an acknowledged offer would be the approved key, which is the current one
    obtain ⟨-, hacked, -⟩ := hnoticed k ho hk
    exact absurd ((hacked signer hsigner).symm.trans hcurrent) (h.ne_current ho)

theorem Inv.handle {rot : Rotate} {w' : World} (hstep : rotationStep S (.handle rot) w = .ok w')
    (hnew : rot.publicKey ∉ w.handled) (hp : w.agent.pendingPrivateKey = some rot.publicKey) :
    Inv S w' := by
  obtain ⟨hrot, rfl⟩ := ok_of_guard hstep
  unfold answerRotate
  split
  · next db hdb => exact h.record hrot hnew hp hdb
  · exact h.refuse hnew hp rfl (by simp)
  · exact h.refuse hnew hp rfl (by simp)
  · exact h.refuse hnew hp rfl (by simp)

/-- A refusal is read: the pending key, which the server does not hold, goes, and the key given up
is the only one left on offer. -/
theorem Inv.drop {a : Identity} (hcurrent : a.privateKey = w.agent.privateKey)
    (hoffers : ∀ key, a.Offered key ↔ w.agent.lapsedPrivateKey = some key)
    (hnot : ∀ key, w.agent.pendingPrivateKey = some key → ¬ Holds S w key)
    (hdistinct : a.keys.Nodup)
    (hname : a.pendingFingerprint = (a.pendingPrivateKey.map S.scheme.fingerprint).getD "")
    (hzero : a.recoveryAttempt = 0) : Inv S { w with agent := a } := by
  -- what the server holds for review or in place of the current key is the key given up
  have hlapsed : ∀ key, Holds S w key → w.agent.Offered key →
      w.agent.lapsedPrivateKey = some key := by
    rintro key hk (ho | ho)
    · exact absurd hk (hnot key ho)
    · exact ho
  refine h.slots hcurrent (fun key hk => .inr ((hoffers key).1 hk)) ?_ hdistinct hname
    (fun _ => hzero) ?_
  · intro key hk ho
    exact (hoffers key).2 (hlapsed key hk ho)
  · intro k hk
    right
    intro k' hk'
    rcases Identity.mem_keys.1 (h.mem_keys hk') with hc | ho
    · exact .inl hc
    · exact .inr (Option.some.inj ((hlapsed k' hk' ho).symm.trans ((hoffers k).1 (.inl hk))))

/-- The answer that the pending offer is recorded: the key given up before is gone. -/
theorem Inv.confirm (hzero : w.agent.recoveryAttempt = 0)
    (hp : w.agent.pendingPrivateKey = some key)
    (hheld : ∀ k, Holds S w k → k = w.agent.privateKey ∨ k = key) :
    Inv S { w with agent := { w.agent with
      lapsedPrivateKey := none, lapsedRecorded := false, pendingRecorded := true } } := by
  refine h.slots rfl ?_ ?_ ?_ h.pendingName (fun _ => hzero) ?_
  · rintro k (hk | hk)
    · exact .inl hk
    · cases hk
  · intro k hk ho
    rcases hheld k hk with hc | rfl
    · exact absurd hc (h.ne_current ho)
    · exact .inl hp
  · simp only [Identity.keys, hp, Option.toList_some, Option.toList_none, List.append_nil,
      List.nodup_cons, List.mem_singleton, List.not_mem_nil, not_false_eq_true, List.nodup_nil,
      and_true]
    exact fun hc => h.ne_current (.inl hp) hc.symm
  · intro k hk
    exact .inl hk

theorem Inv.reply {ack : Rotated} {now : Int} (hs : w.session = some .loop) (hack : ack ∈ w.replies)
    (hcareful : ack.refuses w.agent = true →
      w.agent.pendingPrivateKey = none ∨ w.agent.pendingPrivateKey = some ack.answers) :
    Inv S { w with agent := readRotate S.scheme ack now w.agent } := by
  have hzero := h.session (by simp [hs])
  unfold readRotate
  by_cases hr : ack.refuses w.agent = true
  · -- a refusal for the pending key, which the server therefore does not hold
    have hnot : ∀ key, w.agent.pendingPrivateKey = some key → ¬ Holds S w key := by
      intro key hkey
      obtain rfl : ack.answers = key := by
        rcases hcareful hr with hnone | hsome
        · rw [hnone] at hkey
          cases hkey
        · exact Option.some.inj (hsome.symm.trans hkey)
      apply (h.refused ack hack _).2
      intro hcode
      have hname := h.pendingName
      rw [hkey, Option.map_some, ← (h.recorded ack hack hcode).2.1] at hname
      simp [Rotated.refuses, hcode, hname] at hr
    have hd := h.distinct
    simp only [Identity.keys, List.nodup_cons, List.mem_append, not_or] at hd
    rw [if_pos hr]
    split
    · next key _ hkey =>
      refine h.drop rfl ?_ hnot ?_ rfl hzero
      · simp [Identity.Offered, hkey]
      · simpa [Identity.keys, hkey, eq_comm] using hd.1.2
    · refine h.drop rfl ?_ hnot ?_ rfl hzero
      · simp [Identity.Offered]
      · have hlast := And.intro hd.1.2 (List.nodup_append'.1 hd.2).2.1
        simpa [Identity.keys] using hlast
  · rw [if_neg hr]
    simp only [Rotated.refuses, Bool.or_eq_true, Option.isSome_iff_ne_none, bne_iff_ne, not_or,
      not_not] at hr
    obtain ⟨hcode, hname⟩ := hr
    obtain ⟨-, hfp, hheld⟩ := h.recorded ack hack hcode
    rw [hfp, h.pendingName] at hname
    have hp : w.agent.pendingPrivateKey = some ack.answers := by
      cases hp : w.agent.pendingPrivateKey with
      | none =>
        rw [hp] at hname
        exact absurd hname (S.scheme.fingerprint_ne _)
      | some =>
        rw [hp] at hname
        exact congrArg some (S.scheme.fingerprint_injective hname).symm
    exact h.confirm hzero hp (hheld hp)

theorem Inv.acknowledge {organization fingerprint : String} {db : EndpointDb}
    (hdb : acknowledgeEndpointKey organization S.endpointID fingerprint w.now w.db = .ok db) :
    Inv S { w with db := db, notices := fingerprint :: w.notices } := by
  obtain ⟨⟨k₀, hk₀, hid₀, hfp₀, hreview₀⟩, hrows⟩ := acknowledgeEndpointKey_keys hdb
  obtain ⟨hnamed, hreviewed⟩ : Named S.scheme S.endpointID db ∧ Reviewed S.endpointID db := by
    obtain ⟨-, -, rfl⟩ := acknowledgeEndpointKey_ok hdb
    exact ⟨named_setStates h.named, reviewed_setStates h.reviewed fun _ hs => hs⟩
  have hname₀ : S.scheme.fingerprint k₀.publicKey = fingerprint := by
    rw [← h.named k₀ hk₀ hid₀, hfp₀]
  have honly : ∀ key, Approved S.endpointID db key → key = k₀.publicKey := by
    rintro key ⟨k, hk, hid, hs, rfl⟩
    obtain ⟨-, k₁, hk₁, hid₁, hfp₁, hkey⟩ := hrows k hk hid (by simp [hs])
    apply S.scheme.fingerprint_injective
    rw [hname₀, ← hkey, ← h.named k₁ hk₁ hid₁, hfp₁]
  have hnone : ∀ key, ¬ UnderReview S.endpointID w.now db key := by
    rintro key ⟨k, hk, hid, hlive, rfl⟩
    simp only [KeyRow.live, Bool.and_eq_true, beq_iff_eq] at hlive
    obtain ⟨hs, -⟩ := hrows k hk hid (by simp [hlive.1])
    rw [hs] at hlive
    cases hlive.1
  have hholds : ∀ key, Approved S.endpointID db key ∨ UnderReview S.endpointID w.now db key →
      Holds S w key := by
    rintro key (hk | hk)
    · rw [honly key hk]
      exact .inr hreview₀
    · exact absurd hk (hnone key)
  have hoffered : w.agent.Offered k₀.publicKey := h.review _ hreview₀
  refine
    { h with
      reviewed := hreviewed
      named := hnamed
      unique := fun k k' hk hk' => (honly k hk).trans (honly k' hk').symm
      approved := fun k hk => .inr ⟨honly k hk ▸ hoffered, hnone⟩
      review := fun k hk => absurd hk (hnone k)
      known := fun k hk => h.known k (hholds k hk)
      refused := fun ack hack hcode => ⟨(h.refused ack hack hcode).1,
        fun hk => (h.refused ack hack hcode).2 (hholds _ hk)⟩
      recorded := ?_, noticed := ?_ }
  · intro ack hack hcode
    obtain ⟨hm, hf, hheld⟩ := h.recorded ack hack hcode
    exact ⟨hm, hf, fun hp k hk => hheld hp k (hholds k hk)⟩
  · intro fp hfp
    rcases List.mem_cons.1 hfp with rfl | hfp
    · refine ⟨⟨_, h.minted _ (Identity.mem_keys.2 (.inr hoffered)), hname₀⟩, ?_⟩
      intro key _ hkey
      obtain rfl := S.scheme.fingerprint_injective (hkey.trans hname₀.symm)
      exact ⟨(h.known _ (.inr hreview₀)).resolve_left (h.ne_current hoffered), honly, hnone⟩
    · obtain ⟨hm, hheld⟩ := h.noticed fp hfp
      refine ⟨hm, ?_⟩
      intro key ho hkey
      obtain ⟨hm, -, hnone'⟩ := hheld key ho hkey
      -- after an earlier acknowledgement there was nothing left to acknowledge
      exact absurd hreview₀ (hnone' _)

theorem Inv.notice {fingerprint : String} {now : Int}
    (hfp : fingerprint ∈ w.notices) (hp : promotes S.scheme fingerprint w.agent = true) :
    Inv S { w with agent := w.agent.promote now, session := none } := by
  simp only [promotes, Bool.and_eq_true, beq_iff_eq] at hp
  obtain ⟨key, hkey, hname⟩ := Option.map_eq_some_iff.1 hp.2
  have hcurrent : (w.agent.promote now).privateKey = key := by simp [Identity.promote, hkey]
  obtain ⟨-, honly⟩ := (h.noticed fingerprint hfp).2 key (.inl hkey) hname
  apply h.takeover
  · rw [hcurrent]
    exact .inl hkey
  · rw [hcurrent]
    exact honly
  · exact ⟨rfl, rfl, rfl⟩
  · rfl

end

theorem inv_step (op : RotationOp) (w w' : World) (h : Inv S w) (hc : Careful S w op)
    (hstep : (rotationMachine S).step op w = .ok w') : Inv S w' := by
  cases op with
  | connect now =>
    obtain ⟨hs, rfl⟩ := ok_of_guard hstep
    exact h.handshake hs now
  | disconnect | restart =>
    obtain rfl := Except.ok.inj hstep
    exact h.attempt (by simp)
  | keyRetired =>
    obtain ⟨-, rfl⟩ := ok_of_guard hstep
    exact h.tryNext
  | lapse =>
    obtain ⟨⟨hs, -⟩, rfl⟩ := ok_of_guard hstep
    exact h.lapse hs hc
  | offer => exact h.offer hstep
  | enterLoop =>
    obtain ⟨hs, rfl⟩ := ok_of_guard hstep
    exact { h with session := fun _ => h.session (by simp [hs]) }
  | handle => exact h.handle hstep hc.1 hc.2
  | reply =>
    obtain ⟨⟨hs, hack⟩, rfl⟩ := ok_of_guard hstep
    exact h.reply hs hack hc
  | acknowledge =>
    simp only [rotationMachine, rotationStep] at hstep
    split at hstep
    · cases hstep
    next db hdb =>
    obtain rfl := Except.ok.inj hstep
    exact h.acknowledge hdb
  | notice =>
    obtain ⟨⟨-, hfp⟩, hstep⟩ := guard_else_error_eq_ok.1 hstep
    split at hstep
    · next hp =>
      obtain rfl := Except.ok.inj hstep
      exact h.notice hfp hp
    · obtain rfl := Except.ok.inj hstep
      exact h
  | other =>
    simp only [rotationMachine, rotationStep, guard_error_eq_ok, Bool.not_eq_true] at hstep
    obtain ⟨hop, hstep⟩ := hstep
    split at hstep
    · cases hstep
    next db hdb =>
    obtain rfl := Except.ok.inj hstep
    obtain ⟨hgain, hr⟩ := noGain_step h.reviewed hop hdb
    exact h.shrink le_rfl hr hgain
  | wait =>
    obtain rfl := Except.ok.inj hstep
    exact h.shrink (by omega) h.reviewed noGain_refl

theorem inv_enrolled (h : Enrolled S w) : Inv S w := by
  obtain ⟨hp, hl, hname, hzero⟩ := h.slots
  obtain ⟨hs, hoffers, hreplies, hnotices, hhandled⟩ := h.quiet
  have hno : ∀ key, ¬ w.agent.Offered key := fun _ => Identity.not_offered hp hl
  exact
    { reviewed := ⟨h.present, h.reviewed⟩
      named := h.fingerprints
      unique := fun key key' hk hk' => (h.current key hk).trans (h.current key' hk').symm
      distinct := by simp [Identity.keys, hp, hl]
      pendingName := by simp [hp, hname]
      session := fun hsome => absurd hs hsome
      minted := by
        intro key hk
        rw [h.minted, List.mem_singleton]
        exact (Identity.mem_keys.1 hk).resolve_right (hno key)
      approved := fun key hk => .inl (h.current key hk)
      review := fun key hk => absurd hk (h.settled key)
      known := fun key hk => .inl (h.current key (hk.resolve_right (h.settled key)))
      handled := by simp [hhandled]
      offers := by simp [hoffers]
      refused := by simp [hreplies]
      recorded := by simp [hreplies]
      noticed := by simp [hnotices] }

/-- After any run of careful steps, the agent holds every key the server holds. -/
theorem keys_held (S : Setting) (w w' : World) (h : Enrolled S w)
    (hrun : ((rotationMachine S).restrict (Careful S)).Steps w w') :
    ∀ key, Holds S w' key → key ∈ w'.agent.keys := by
  intro key hk
  have hinv : Inv S w' := Machine.restrict_keeps inv_step hrun (inv_enrolled h)
  exact hinv.mem_keys hk

/-! ## Concrete runs -/

/-- Keys that sign by their name. -/
def nameScheme : KeyScheme where
  sha256Hex := fun s => s
  fingerprint := fun key => "fp:" ++ key
  validKey _ := true
  verifyEnrollment _ _ _ := true
  verifyRotation current _ signature := signature == current
  sign signer _ := signer
  fingerprint_injective := fun a b h => by simpa using h
  fingerprint_ne := fun key h => by simpa using congrArg String.length h
  verifies_own := fun current signer new h => (beq_iff_eq.1 h).symm

def hourly : Setting := ⟨nameScheme, "e", 3600⟩

/-- An active endpoint whose agent has just started. -/
def started : World where
  agent := ⟨"k0", none, "", 0, false, none, false, 0, 0⟩
  session := none
  db := ⟨[⟨"e", "o", "host", .active, 0, none⟩], [⟨"e", "fp:k0", "k0", .approved, 0⟩], [], []⟩
  now := 0
  offers := []
  replies := []
  notices := []
  handled := []
  minted := ["k0"]

theorem started_enrolled : Enrolled hourly started where
  present := by decide
  reviewed := by decide
  fingerprints := by decide
  current := by
    rintro key ⟨k, hk, -, -, rfl⟩
    obtain rfl := List.mem_singleton.1 hk
    rfl
  settled := by
    rintro key ⟨k, hk, -, hlive, -⟩
    obtain rfl := List.mem_singleton.1 hk
    cases hlive
  slots := ⟨rfl, rfl, rfl, rfl⟩
  minted := rfl
  quiet := ⟨rfl, rfl, rfl, rfl, rfl⟩

/-- The agent's clock after the given number of its limits on an offer. -/
def agentDay (n : Nat) : Int := 3600 + n * (Identity.pendingKeyLife + 1)

/-- The offer is recorded, its answer lost and the offer given up by a fast clock; the next offer is
refused because of it, and it is acknowledged while the agent reads that. -/
def skewedRotation : List RotationOp :=
  [.connect 0, .offer "k1" (agentDay 0), .handle ⟨"k1", "k0"⟩, .restart, .connect 0,
    .lapse (agentDay 1), .offer "k2" (agentDay 1), .handle ⟨"k2", "k0"⟩, .acknowledge "o" "fp:k1",
    .reply ⟨"k2", "", some .rotationPending⟩ (agentDay 1), .keyRetired, .connect (agentDay 1)]

/-- The agent ends with the acknowledged key. -/
theorem keys_held_control :
    let w := ((rotationMachine hourly).restrict (Careful hourly)).run skewedRotation started
    (Holds hourly w "k1" ∧ w.agent.privateKey = "k1" ∧ w.session = some .hello) ∧
      ∀ key, Holds hourly w key → key ∈ w.agent.keys := by
  refine ⟨by decide +kernel, ?_⟩
  exact keys_held hourly started _ started_enrolled (Machine.steps_run skewedRotation started)

/-- The offer reaches the server twice and both answers are read. -/
def repeatedOffer : List RotationOp :=
  [.connect 0, .offer "k1" (agentDay 0), .handle ⟨"k1", "k0"⟩, .handle ⟨"k1", "k0"⟩,
    .reply ⟨"k1", "fp:k1", none⟩ (agentDay 0), .reply ⟨"k1", "", some .rotationPending⟩ (agentDay 0)]

/-- The first offer is recorded, the second is lost, and both are given up by a fast clock. -/
def lapsedTwice : List RotationOp :=
  [.connect 0, .offer "k1" (agentDay 0), .handle ⟨"k1", "k0"⟩, .restart, .connect 0,
    .lapse (agentDay 1), .offer "k2" (agentDay 1), .disconnect, .connect 0, .lapse (agentDay 2)]

/-- The agent drops the second answer's key, which the server holds; and it overwrites a key it gave
up that the server still holds. -/
theorem rotation_loses_key :
    Enrolled hourly started ∧
      (let w := (rotationMachine hourly).run repeatedOffer started;
        Holds hourly w "k1" ∧ "k1" ∉ w.agent.keys) ∧
      (let w := (rotationMachine hourly).run lapsedTwice started;
        Holds hourly w "k1" ∧ "k1" ∉ w.agent.keys) :=
  ⟨started_enrolled, by decide +kernel, by decide +kernel⟩

end KyYard.Agent
