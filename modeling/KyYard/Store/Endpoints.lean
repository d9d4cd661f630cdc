import KyYard.Foundation.Machine
import KyYard.Foundation.Table
import KyYard.Store.Spec

/-!
# Endpoints and their keys

An endpoint enrolls with a token, is approved or rejected by an operator, rotates its key under
review and may be revoked. The transactions here are those that write the tables of endpoints, keys
and enrollment tokens, and `agentIdentity` is what the connection handshake asks of them.

`EndpointDb.Sound` is what every transaction preserves. `endpoint_identity` reads off it what holds
after any transactions with any arguments: an endpoint has at most one approved key and one under
review, a token makes at most one endpoint, revocation is final, and only the approved key, or the
enrolled key of a pending endpoint, is accepted.
-/

namespace KyYard.Store

open Foundation

/-! ## Tables -/

/-- The state of an endpoint. -/
inductive EndpointState
  | pending
  | approved
  | active
  | offline
  | revoked
deriving DecidableEq

/-- The state of a key. -/
inductive KeyState
  | approved
  | pendingReview
  | retired
deriving DecidableEq

/-- How an endpoint came to be: the token's id and the fingerprint it enrolled with. -/
structure Enrollment where
  token : String
  fingerprint : String
deriving DecidableEq

/-- An endpoint. `enrolled` is no column; it is `none` for the built-in one. -/
structure EndpointRow where
  id : String
  organizationID : String
  name : String
  state : EndpointState
  createdAt : Int
  enrolled : Option Enrollment
deriving DecidableEq

/-- A key of an endpoint. -/
structure KeyRow where
  endpointID : String
  fingerprint : String
  publicKey : String
  state : KeyState
  createdAt : Int
deriving DecidableEq

/-- The primary key of the key table. -/
def KeyRow.pair (k : KeyRow) : String × String := (k.endpointID, k.fingerprint)

/-- A token to enroll with, once. -/
structure TokenRow where
  id : String
  tokenHash : String
  organizationID : String
  expiresAt : Int
  consumedAt : Option Int
  endpointID : String
deriving DecidableEq

/-- The tables; `duplicates` lists the endpoints with an unacknowledged duplicate connection. -/
structure EndpointDb where
  endpoints : List EndpointRow
  keys : List KeyRow
  tokens : List TokenRow
  duplicates : List String
deriving DecidableEq

def EndpointDb.empty : EndpointDb := ⟨[], [], [], []⟩

/-- The cryptography the server calls: digests, and checks of an enrollment proof and of a rotation
signed with the current key. Nothing is assumed of it. -/
structure Crypto where
  sha256Hex : String → String
  fingerprint : String → String
  validKey : String → Bool
  verifyEnrollment : String → String → String → Bool
  verifyRotation : String → String → String → Bool

/-- Why a transaction is refused. -/
inductive EndpointError
  | forbidden
  | invalid
  | notFound
  | alreadyExists
  | rotationBlocked
  | rotationPending
  | keyRetired
  | keyPendingReview
deriving DecidableEq

def pendingEndpointLife : Int := 24 * 3600 * 1000000000
def pendingKeyLife : Int := 7 * 24 * 3600 * 1000000000
def enrollmentTokenLife : Int := 15 * 60 * 1000000000

/-- A pending enrollment nobody reviewed in time. -/
def EndpointRow.expired (e : EndpointRow) (now : Int) : Bool :=
  e.state == .pending && decide (pendingEndpointLife < now - e.createdAt)

/-- A key under review that may still be acknowledged. -/
def KeyRow.live (k : KeyRow) (now : Int) : Bool :=
  k.state == .pendingReview && decide (now - pendingKeyLife < k.createdAt)

/-- One endpoint's state and the states of its keys changed. -/
def EndpointDb.setStates (db : EndpointDb) (id : String) (s : EndpointState → EndpointState)
    (g : KeyRow → KeyState) : EndpointDb :=
  { db with
    endpoints := Table.updateWhere (·.id == id) (fun e => { e with state := s e.state }) db.endpoints
    keys := Table.updateWhere (·.endpointID == id) (fun k => { k with state := g k }) db.keys }

/-! ## Enrollment -/

/-- `CreateEnrollmentToken`. -/
def createEnrollmentToken (c : Crypto) (id organization secret : String) (now : Int)
    (db : EndpointDb) : Except EndpointError EndpointDb :=
  if db.tokens.any fun t => t.id == id || t.tokenHash == c.sha256Hex secret then .error .alreadyExists
  else .ok { db with tokens := db.tokens ++
    [⟨id, c.sha256Hex secret, organization, now + enrollmentTokenLife, none, ""⟩] }

/-- What an agent enrolls with. -/
structure EnrollmentRequest where
  publicKey : String
  token : String
  proof : String
  name : String
  facts : Dict String

/-- The facts that are kept. -/
def factKeys : List String :=
  ["hostname", "os", "runtime_version", "cpus", "memory_bytes", "runtime", "server_version",
    "node_count", "platform"]

def maxFactsBytes : Nat := 4096

/-- The known facts are safe to show and small. -/
def validFacts (facts : Dict String) : Bool :=
  let kept := facts.filter fun k _ => factKeys.contains k
  kept.entries.all (fun e => displaySafe e.2) &&
    (String.ofList (dictJson Json.str kept).encode).utf8ByteSize ≤ maxFactsBytes

/-- Consumes a token and inserts the endpoint, under the random id `id`, with its key. -/
def enroll (c : Crypto) (req : EnrollmentRequest) (id : String) (now : Int) (db : EndpointDb) :
    Except EndpointError EndpointDb :=
  if !(c.verifyEnrollment req.publicKey req.token req.proof && validTenantName req.name &&
      validFacts req.facts) then .error .forbidden
  else match Table.find TokenRow.tokenHash (c.sha256Hex req.token) db.tokens with
    | none => .error .forbidden
    | some t =>
      if t.consumedAt.isSome || decide (t.expiresAt ≤ now) then .error .forbidden
      else if db.endpoints.any fun e => e.id == id ||
          (e.organizationID == t.organizationID && e.name == Text.trimSpace req.name) then
        .error .alreadyExists
      else
        let fp := c.fingerprint req.publicKey
        .ok { db with
          endpoints := db.endpoints ++
            [⟨id, t.organizationID, Text.trimSpace req.name, .pending, now, some ⟨t.id, fp⟩⟩]
          keys := db.keys ++ [⟨id, fp, req.publicKey, .pendingReview, now⟩]
          tokens := Table.updateWhere (·.tokenHash == t.tokenHash)
            (fun r => { r with consumedAt := some now, endpointID := id }) db.tokens }

/-- The built-in endpoint of the server's own host, made once with its key approved. -/
def initLocalDocker (c : Crypto) (id organization name publicKey : String) (now : Int)
    (db : EndpointDb) : Except EndpointError EndpointDb :=
  if db.endpoints.any fun e => e.id == id || (e.organizationID == organization && e.name == name) then
    .error .alreadyExists
  else .ok { db with
    endpoints := db.endpoints ++ [⟨id, organization, name, .approved, now, none⟩]
    keys := db.keys ++ [⟨id, c.fingerprint publicKey, publicKey, .approved, now⟩] }

/-! ## Review -/

/-- The endpoint of an organization. -/
def EndpointDb.endpoint? (db : EndpointDb) (organization id : String) : Option EndpointRow :=
  db.endpoints.find? fun e => e.organizationID == organization && e.id == id

/-- Approves a pending endpoint with the fingerprint the operator reviewed. -/
def approveEndpoint (organization id fingerprint : String) (now : Int) (db : EndpointDb) :
    Except EndpointError EndpointDb :=
  match (db.endpoint? organization id).filter (·.state == .pending) with
  | none => .error .notFound
  | some e =>
    if pendingEndpointLife < now - e.createdAt then .error .invalid
    else if !db.keys.any fun k => k.endpointID == id && k.fingerprint == fingerprint &&
        k.state == .pendingReview then .error .invalid
    else .ok (db.setStates id (fun _ => .approved) fun k =>
      if k.fingerprint = fingerprint ∧ k.state = .pendingReview then .approved else k.state)

/-- The one transition into the terminal state; keys retire with it. -/
def terminate (organization id : String) (condition : EndpointState → Bool) (db : EndpointDb) :
    Except EndpointError EndpointDb :=
  if ((db.endpoint? organization id).filter (condition ·.state)).isNone then .error .notFound
  else .ok (db.setStates id (fun _ => .revoked) fun _ => .retired)

/-- A pending endpoint is turned away. -/
def rejectEndpoint (organization id : String) : EndpointDb → Except EndpointError EndpointDb :=
  terminate organization id (· == .pending)

/-- An endpoint is cut off for good. -/
def revokeEndpoint (organization id : String) : EndpointDb → Except EndpointError EndpointDb :=
  terminate organization id (· != .revoked)

/-! ## Rotation -/

/-- Records a key the agent minted, for review. -/
def rotateEndpointKey (c : Crypto) (id newPublicKey signature : String) (now : Int)
    (db : EndpointDb) : Except EndpointError EndpointDb :=
  if !c.validKey newPublicKey then .error .invalid
  else match Table.find EndpointRow.id id db.endpoints with
    | none => .error .forbidden
    | some e =>
      if e.state = .pending ∨ e.state = .revoked then .error .forbidden
      else match db.keys.find? fun k => k.endpointID == id && k.state == .approved with
        | none => .error .forbidden
        | some current =>
          if !c.verifyRotation current.publicKey newPublicKey signature then .error .forbidden
          else if db.duplicates.contains id then .error .rotationBlocked
          else if db.keys.any fun k => k.endpointID == id && k.live now then .error .rotationPending
          -- a key past its review is retired; the same key is never offered twice
          else if db.keys.any fun k => k.pair = (id, c.fingerprint newPublicKey) then
            .error .alreadyExists
          else
            let retired := db.setStates id (fun s => s) fun k =>
              if k.state = .pendingReview then .retired else k.state
            .ok { retired with keys := retired.keys ++
              [⟨id, c.fingerprint newPublicKey, newPublicKey, .pendingReview, now⟩] }

/-- The named key becomes the only approved one. -/
def acknowledgeEndpointKey (organization id fingerprint : String) (now : Int) (db : EndpointDb) :
    Except EndpointError EndpointDb :=
  if !db.keys.any fun k => k.endpointID == id && k.fingerprint == fingerprint && k.live now then
    .error .invalid
  else match db.endpoint? organization id with
    | none => .error .invalid
    | some e =>
      if e.state = .pending ∨ e.state = .revoked then .error .invalid
      else .ok (db.setStates id (fun s => s) fun k =>
        if k.fingerprint = fingerprint then .approved else .retired)

/-! ## Sessions -/

/-- The key that may authenticate an endpoint. -/
def agentIdentity (id fingerprint : String) (now : Int) (db : EndpointDb) :
    Except EndpointError KeyRow :=
  match Table.find EndpointRow.id id db.endpoints with
  | none => .error .notFound
  | some e =>
    if e.state = .revoked ∨ e.expired now then .error .forbidden
    else match Table.find KeyRow.pair (id, fingerprint) db.keys with
      | none => .error .forbidden
      | some k =>
        match k.state with
        | .approved => .ok k
        | .retired => .error .keyRetired
        | .pendingReview =>
          if e.state = .pending then .ok k
          else if now - k.createdAt ≤ pendingKeyLife then .error .keyPendingReview
          else .error .keyRetired

/-- A reported inventory brings an approved or offline endpoint to active. -/
def acceptInventory (id : String) (db : EndpointDb) : Except EndpointError EndpointDb :=
  .ok (db.setStates id (fun s => if s = .approved ∨ s = .offline then .active else s) KeyRow.state)

/-- The session ended. -/
def markOffline (id : String) (db : EndpointDb) : Except EndpointError EndpointDb :=
  .ok (db.setStates id (fun s => if s = .active then .offline else s) KeyRow.state)

/-! ## The machine -/

/-- The transactions on endpoints. -/
inductive EndpointOp
  | createToken (id organization secret : String) (now : Int)
  | enroll (req : EnrollmentRequest) (id : String) (now : Int)
  | initLocal (id organization name publicKey : String) (now : Int)
  | approve (organization id fingerprint : String) (now : Int)
  | reject (organization id : String)
  | revoke (organization id : String)
  | rotate (id newPublicKey signature : String) (now : Int)
  | acknowledge (organization id fingerprint : String) (now : Int)
  | inventory (id : String)
  | offline (id : String)
  | duplicate (id : String)
  | acknowledgeDuplicate (id : String)

/-- The writers of endpoints' states and keys and of tokens. `RenameEndpoint`, and `RemoveEnvironment`,
which deletes the endpoints of an environment once all are revoked, are left out. -/
def endpointMachine (c : Crypto) : Machine EndpointDb EndpointOp EndpointError where
  step
    | .createToken id organization secret now => createEnrollmentToken c id organization secret now
    | .enroll req id now => enroll c req id now
    | .initLocal id organization name publicKey now =>
      initLocalDocker c id organization name publicKey now
    | .approve organization id fingerprint now => approveEndpoint organization id fingerprint now
    | .reject organization id => rejectEndpoint organization id
    | .revoke organization id => revokeEndpoint organization id
    | .rotate id newPublicKey signature now => rotateEndpointKey c id newPublicKey signature now
    | .acknowledge organization id fingerprint now =>
      acknowledgeEndpointKey organization id fingerprint now
    | .inventory id => acceptInventory id
    | .offline id => markOffline id
    | .duplicate id => fun db => .ok { db with duplicates := id :: db.duplicates }
    | .acknowledgeDuplicate id => fun db =>
      .ok { db with duplicates := db.duplicates.filter (· ≠ id) }

/-! ## What every transaction preserves -/

/-- What every transaction keeps. -/
structure EndpointDb.Sound (db : EndpointDb) : Prop where
  ids : (db.endpoints.map EndpointRow.id).Nodup
  pairs : (db.keys.map KeyRow.pair).Nodup
  owned : ∀ k ∈ db.keys, ∃ e ∈ db.endpoints, e.id = k.endpointID
  approved_unique : ∀ k ∈ db.keys, ∀ k' ∈ db.keys, k.endpointID = k'.endpointID →
    k.state = .approved → k'.state = .approved → k = k'
  review_unique : ∀ k ∈ db.keys, ∀ k' ∈ db.keys, k.endpointID = k'.endpointID →
    k.state = .pendingReview → k'.state = .pendingReview → k = k'
  pending_enrolled : ∀ e ∈ db.endpoints, e.state = .pending → ∀ k ∈ db.keys,
    k.endpointID = e.id → k.state = .pendingReview ∧
      ∃ en, e.enrolled = some en ∧ en.fingerprint = k.fingerprint
  revoked_retired : ∀ e ∈ db.endpoints, e.state = .revoked → ∀ k ∈ db.keys,
    k.endpointID = e.id → k.state = .retired
  token_ids : (db.tokens.map TokenRow.id).Nodup
  token_hashes : (db.tokens.map TokenRow.tokenHash).Nodup
  token_used : ∀ e ∈ db.endpoints, ∀ en, e.enrolled = some en →
    ∃ t ∈ db.tokens, t.id = en.token ∧ t.consumedAt.isSome = true ∧ t.endpointID = e.id

/-- A key of one endpoint after its states were changed. -/
def KeyRow.with (g : KeyRow → KeyState) (k : KeyRow) : KeyRow := { k with state := g k }

variable {db db' : EndpointDb} {id organization fingerprint : String}
  {s : EndpointState → EndpointState} {g : KeyRow → KeyState} {e : EndpointRow} {c : Crypto}
  {now : Int}

theorem mem_keys_setStates {k : KeyRow} (h : k ∈ (db.setStates id s g).keys) :
    ∃ k₀ ∈ db.keys, k.endpointID = k₀.endpointID ∧ k.fingerprint = k₀.fingerprint ∧
      (k₀.endpointID = id → k = k₀.with g) ∧ (k₀.endpointID ≠ id → k = k₀) := by
  obtain ⟨k₀, hk₀, rfl⟩ := Table.mem_updateWhere.1 h
  refine ⟨k₀, hk₀, ?_⟩
  by_cases hid : k₀.endpointID = id <;> simp [hid, KeyRow.with]

theorem mem_endpoints_setStates (h : e ∈ (db.setStates id s g).endpoints) :
    ∃ e₀ ∈ db.endpoints, e.id = e₀.id ∧ e.enrolled = e₀.enrolled ∧
      (e₀.id = id → e.state = s e₀.state) ∧ (e₀.id ≠ id → e = e₀) := by
  obtain ⟨e₀, he₀, rfl⟩ := Table.mem_updateWhere.1 h
  refine ⟨e₀, he₀, ?_⟩
  by_cases hid : e₀.id = id <;> simp [hid]

/-- An endpoint has one key in the state at most. -/
def OneKey (st : KeyState) (keys : List KeyRow) : Prop :=
  ∀ k ∈ keys, ∀ k' ∈ keys, k.endpointID = k'.endpointID → k.state = st → k'.state = st → k = k'

theorem OneKey.setStates {st : KeyState} (h : OneKey st db.keys)
    (hg : ∀ k ∈ db.keys, ∀ k' ∈ db.keys, k.endpointID = id → k'.endpointID = id →
      g k = st → g k' = st → k = k') : OneKey st (db.setStates id s g).keys := by
  intro k hk k' hk' hsame hs hs'
  obtain ⟨k₀, hk₀, hid, -, heq, hne⟩ := mem_keys_setStates hk
  obtain ⟨k₁, hk₁, hid', -, heq', hne'⟩ := mem_keys_setStates hk'
  have hsame₀ : k₀.endpointID = k₁.endpointID := by rw [← hid, ← hid', hsame]
  by_cases hx : k₀.endpointID = id
  · rw [heq hx] at hs
    rw [heq' (hsame₀ ▸ hx)] at hs'
    rw [heq hx, heq' (hsame₀ ▸ hx), hg k₀ hk₀ k₁ hk₁ hx (hsame₀ ▸ hx) hs hs']
  · rw [hne hx] at hs ⊢
    rw [hne' (hsame₀ ▸ hx)] at hs' ⊢
    exact h k₀ hk₀ k₁ hk₁ hsame₀ hs hs'

theorem OneKey.concat {st : KeyState} {keys : List KeyRow} {k : KeyRow} (h : OneKey st keys)
    (hk : k.state = st → ∀ k' ∈ keys, k'.endpointID = k.endpointID → k'.state ≠ st) :
    OneKey st (keys ++ [k]) := by
  intro k₁ m₁ k₂ m₂ hsame hs₁ hs₂
  rcases Table.mem_concat.1 m₁ with h₁ | rfl <;> rcases Table.mem_concat.1 m₂ with h₂ | rfl
  · exact h k₁ h₁ k₂ h₂ hsame hs₁ hs₂
  · exact absurd hs₁ (hk hs₂ k₁ h₁ hsame)
  · exact absurd hs₂ (hk hs₁ k₂ h₂ hsame.symm)
  · rfl

/-- A change of one endpoint's states is sound if its keys keep their uniqueness, an endpoint left
pending keeps its keys, and one that is revoked has them retired. -/
theorem sound_setStates (h : db.Sound)
    (happroved : ∀ k ∈ db.keys, ∀ k' ∈ db.keys, k.endpointID = id → k'.endpointID = id →
      g k = .approved → g k' = .approved → k = k')
    (hreview : ∀ k ∈ db.keys, k.endpointID = id → g k = .pendingReview → k.state = .pendingReview)
    (hpending : ∀ e ∈ db.endpoints, e.id = id → s e.state = .pending → e.state = .pending ∧
      ∀ k ∈ db.keys, k.endpointID = id → g k = k.state)
    (hrevoked : ∀ e ∈ db.endpoints, e.id = id → s e.state = .revoked →
      ∀ k ∈ db.keys, k.endpointID = id → g k = .retired) : (db.setStates id s g).Sound where
  ids := Table.nodup_updateWhere h.ids (by intro _; rfl)
  pairs := Table.nodup_updateWhere h.pairs (by intro _; rfl)
  owned := by
    intro k hk
    obtain ⟨k₀, hk₀, hid, -⟩ := mem_keys_setStates hk
    obtain ⟨e, he, heid⟩ := h.owned k₀ hk₀
    refine ⟨_, Table.mem_updateWhere.2 ⟨e, he, rfl⟩, ?_⟩
    rw [hid, ← heid]
    split <;> rfl
  approved_unique := OneKey.setStates h.approved_unique happroved
  review_unique := by
    refine OneKey.setStates h.review_unique fun k hk k' hk' hid hid' hs hs' => ?_
    exact h.review_unique k hk k' hk' (hid.trans hid'.symm) (hreview k hk hid hs)
      (hreview k' hk' hid' hs')
  pending_enrolled := by
    intro e he hs k hk hke
    obtain ⟨e₀, he₀, heid, hen, heq, hne⟩ := mem_endpoints_setStates he
    obtain ⟨k₀, hk₀, hkid, hfp, hkeq, hkne⟩ := mem_keys_setStates hk
    have hk₀e : k₀.endpointID = e₀.id := by rw [← hkid, hke, heid]
    rw [hen]
    by_cases hx : e₀.id = id
    · obtain ⟨hs₀, hkeep⟩ := hpending e₀ he₀ hx (heq hx ▸ hs)
      have hold := h.pending_enrolled e₀ he₀ hs₀ k₀ hk₀ hk₀e
      rw [hkeq (hk₀e.trans hx)]
      exact ⟨(hkeep k₀ hk₀ (hk₀e.trans hx)).trans hold.1, hold.2⟩
    · rw [hkne (hk₀e ▸ hx)]
      rw [hne hx] at hs
      exact h.pending_enrolled e₀ he₀ hs k₀ hk₀ hk₀e
  revoked_retired := by
    intro e he hs k hk hke
    obtain ⟨e₀, he₀, heid, -, heq, hne⟩ := mem_endpoints_setStates he
    obtain ⟨k₀, hk₀, hkid, -, hkeq, hkne⟩ := mem_keys_setStates hk
    have hk₀e : k₀.endpointID = e₀.id := by rw [← hkid, hke, heid]
    by_cases hx : e₀.id = id
    · rw [hkeq (hk₀e.trans hx)]
      exact hrevoked e₀ he₀ hx (heq hx ▸ hs) k₀ hk₀ (hk₀e.trans hx)
    · rw [hkne (hk₀e ▸ hx)]
      rw [hne hx] at hs
      exact h.revoked_retired e₀ he₀ hs k₀ hk₀ hk₀e
  token_ids := h.token_ids
  token_hashes := h.token_hashes
  token_used := by
    intro e he en hen
    obtain ⟨e₀, he₀, heid, hen₀, -⟩ := mem_endpoints_setStates he
    rw [heid]
    exact h.token_used e₀ he₀ en (hen₀ ▸ hen)

/-- A new endpoint's row, with the token it consumed, and its first key. -/
theorem sound_newEndpoint (h : db.Sound) {k : KeyRow}
    {tokens : List TokenRow} (hid : ∀ e' ∈ db.endpoints, e'.id ≠ e.id) (hk : k.endpointID = e.id)
    (hpending : e.state = .pending → k.state = .pendingReview ∧
      ∃ en, e.enrolled = some en ∧ en.fingerprint = k.fingerprint) (hrevoked : e.state ≠ .revoked)
    (hids : (tokens.map TokenRow.id).Nodup) (hhashes : (tokens.map TokenRow.tokenHash).Nodup)
    (hused : ∀ e' ∈ db.endpoints ++ [e], ∀ en, e'.enrolled = some en →
      ∃ t ∈ tokens, t.id = en.token ∧ t.consumedAt.isSome = true ∧ t.endpointID = e'.id) :
    ({ db with
        endpoints := db.endpoints ++ [e]
        keys := db.keys ++ [k]
        tokens := tokens } : EndpointDb).Sound := by
  -- no key stored so far belongs to the new endpoint
  have hother : ∀ k' ∈ db.keys, k'.endpointID ≠ e.id := by
    intro k' hk' hke
    obtain ⟨e', he', heid⟩ := h.owned k' hk'
    exact hid e' he' (heid.trans hke)
  constructor
  · exact Table.nodup_concat h.ids hid
  · refine Table.nodup_concat h.pairs fun k' hk' hpair => ?_
    exact hother k' hk' ((congrArg Prod.fst hpair).trans hk)
  · intro k' hk'
    rcases Table.mem_concat.1 hk' with hk' | rfl
    · obtain ⟨e', he', heid⟩ := h.owned k' hk'
      exact ⟨e', List.mem_append_left _ he', heid⟩
    · exact ⟨e, by simp, hk.symm⟩
  · exact OneKey.concat h.approved_unique fun _ k' hk' hke => absurd (hke.trans hk) (hother k' hk')
  · exact OneKey.concat h.review_unique fun _ k' hk' hke => absurd (hke.trans hk) (hother k' hk')
  · intro e' me hs k' mk hke
    rcases Table.mem_concat.1 me with he' | rfl <;> rcases Table.mem_concat.1 mk with hk' | rfl
    · exact h.pending_enrolled e' he' hs k' hk' hke
    · exact absurd (hke.symm.trans hk) (hid e' he')
    · exact absurd hke (hother k' hk')
    · exact hpending hs
  · intro e' me hs k' mk hke
    rcases Table.mem_concat.1 me with he' | rfl
    · rcases Table.mem_concat.1 mk with hk' | rfl
      · exact h.revoked_retired e' he' hs k' hk' hke
      · exact absurd (hke.symm.trans hk) (hid e' he')
    · exact absurd hs hrevoked
  · exact hids
  · exact hhashes
  · exact hused

/-- A new key under review of an endpoint that is neither pending nor revoked and has no other. -/
theorem sound_newKey (h : db.Sound) {k : KeyRow}
    (he : e ∈ db.endpoints) (hk : k.endpointID = e.id) (hstate : k.state = .pendingReview)
    (hnp : e.state ≠ .pending) (hnr : e.state ≠ .revoked)
    (hfresh : ∀ k' ∈ db.keys, k'.pair ≠ k.pair)
    (hnone : ∀ k' ∈ db.keys, k'.endpointID = e.id → k'.state ≠ .pendingReview) :
    ({ db with keys := db.keys ++ [k] } : EndpointDb).Sound := by
  have hsameRow : ∀ e' ∈ db.endpoints, e'.id = e.id → e' = e := fun e' he' hid =>
    List.inj_on_of_nodup_map h.ids he' he hid
  refine { h with pairs := ?_, owned := ?_, approved_unique := ?_, review_unique := ?_,
                  pending_enrolled := ?_, revoked_retired := ?_ }
  · exact Table.nodup_concat h.pairs hfresh
  · intro k' hk'
    rcases Table.mem_concat.1 hk' with hk' | rfl
    · exact h.owned k' hk'
    · exact ⟨e, he, hk.symm⟩
  · refine OneKey.concat h.approved_unique fun hs => ?_
    rw [hstate] at hs
    cases hs
  · exact OneKey.concat h.review_unique fun _ k' hk' hke => hnone k' hk' (hke.trans hk)
  · intro e' he' hs k' hk' hke
    rcases Table.mem_concat.1 hk' with hk' | hk'
    · exact h.pending_enrolled e' he' hs k' hk' hke
    · rw [hk'] at hke
      exact absurd (hsameRow e' he' (hke.symm.trans hk) ▸ hs) hnp
  · intro e' he' hs k' hk' hke
    rcases Table.mem_concat.1 hk' with hk' | hk'
    · exact h.revoked_retired e' he' hs k' hk' hke
    · rw [hk'] at hke
      exact absurd (hsameRow e' he' (hke.symm.trans hk) ▸ hs) hnr

/-! ## The transactions one by one -/

theorem mem_of_endpoint?
    (h : db.endpoint? organization id = some e) : e ∈ db.endpoints ∧ e.id = id := by
  have hp := List.find?_some h
  simp only [Bool.and_eq_true, beq_iff_eq] at hp
  exact ⟨List.mem_of_find?_eq_some h, hp.2⟩

theorem sound_createEnrollmentToken {secret : String} (h : db.Sound)
    (hstep : createEnrollmentToken c id organization secret now db = .ok db') : db'.Sound := by
  obtain ⟨hany, hstep⟩ := guard_error_eq_ok.1 hstep
  obtain rfl := Except.ok.inj hstep
  simp only [List.any_eq_true, Bool.or_eq_true, beq_iff_eq, not_exists, not_and, not_or] at hany
  refine { h with token_ids := ?_, token_hashes := ?_, token_used := ?_ }
  · exact Table.nodup_concat h.token_ids fun t ht => (hany t ht).1
  · exact Table.nodup_concat h.token_hashes fun t ht => (hany t ht).2
  · intro e he en hen
    obtain ⟨t, ht, hrest⟩ := h.token_used e he en hen
    exact ⟨t, List.mem_append_left _ ht, hrest⟩

/-- What a successful enrollment found and wrote. -/
theorem enroll_ok {req : EnrollmentRequest} (h : enroll c req id now db = .ok db') :
    ∃ t ∈ db.tokens, t.consumedAt = none ∧ (∀ e ∈ db.endpoints, e.id ≠ id) ∧
      db' = { db with
        endpoints := db.endpoints ++ [⟨id, t.organizationID, Text.trimSpace req.name, .pending, now,
          some ⟨t.id, c.fingerprint req.publicKey⟩⟩]
        keys := db.keys ++ [⟨id, c.fingerprint req.publicKey, req.publicKey, .pendingReview, now⟩]
        tokens := Table.updateWhere (·.tokenHash == t.tokenHash)
          (fun r => { r with consumedAt := some now, endpointID := id }) db.tokens } := by
  obtain ⟨-, h⟩ := guard_error_eq_ok.1 h
  split at h
  · cases h
  next t ht =>
  obtain ⟨hunused, h⟩ := guard_error_eq_ok.1 h
  obtain ⟨hany, h⟩ := guard_error_eq_ok.1 h
  simp only [Bool.or_eq_true, Option.isSome_iff_ne_none, not_or, not_not] at hunused
  simp only [List.any_eq_true, Bool.or_eq_true, beq_iff_eq, not_exists, not_and, not_or] at hany
  exact ⟨t, Table.mem_of_find _ ht, hunused.1, fun e he => (hany e he).1, (Except.ok.inj h).symm⟩

theorem sound_enroll {req : EnrollmentRequest}
    (h : db.Sound) (hstep : enroll c req id now db = .ok db') : db'.Sound := by
  obtain ⟨t, ht, hunused, hid, rfl⟩ := enroll_ok hstep
  refine sound_newEndpoint h hid rfl (fun _ => ⟨rfl, _, rfl, rfl⟩) (by simp)
    (Table.nodup_updateWhere h.token_ids (by intro _; rfl))
    (Table.nodup_updateWhere h.token_hashes (by intro _; rfl)) ?_
  intro e he en hen
  rcases Table.mem_concat.1 he with he | rfl
  · -- an endpoint from before used another token: this one was not consumed
    obtain ⟨u, hu, huid, hused, hue⟩ := h.token_used e he en hen
    have hne : u.tokenHash ≠ t.tokenHash := by
      intro heq
      rw [List.inj_on_of_nodup_map h.token_hashes hu ht heq, hunused] at hused
      cases hused
    exact ⟨u, Table.mem_updateWhere.2 ⟨u, hu, by simp [hne]⟩, huid, hused, hue⟩
  · obtain rfl := Option.some.inj hen
    exact ⟨_, Table.mem_updateWhere.2 ⟨t, ht, rfl⟩, by simp, by simp, by simp⟩

theorem sound_initLocalDocker {name publicKey : String} (h : db.Sound)
    (hstep : initLocalDocker c id organization name publicKey now db = .ok db') : db'.Sound := by
  obtain ⟨hany, hstep⟩ := guard_error_eq_ok.1 hstep
  obtain rfl := Except.ok.inj hstep
  simp only [List.any_eq_true, Bool.or_eq_true, beq_iff_eq, not_exists, not_and, not_or] at hany
  refine sound_newEndpoint h (fun e he => (hany e he).1) rfl ?_ (by simp) h.token_ids h.token_hashes ?_
  · intro hs
    cases hs
  · intro e he en hen
    rcases Table.mem_concat.1 he with he | he
    · exact h.token_used e he en hen
    · rw [he] at hen
      cases hen

theorem approveEndpoint_ok (h : approveEndpoint organization id fingerprint now db = .ok db') :
    (∃ e ∈ db.endpoints, e.id = id ∧ e.state = .pending) ∧
      db' = db.setStates id (fun _ => .approved) fun k =>
        if k.fingerprint = fingerprint ∧ k.state = .pendingReview then .approved else k.state := by
  unfold approveEndpoint at h
  split at h
  · cases h
  next e he =>
  simp only [guard_error_eq_ok] at h
  obtain ⟨he, hs⟩ := Option.filter_eq_some_iff.1 he
  exact ⟨⟨e, (mem_of_endpoint? he).1, (mem_of_endpoint? he).2, by simpa using hs⟩,
    (Except.ok.inj h.2.2).symm⟩

theorem sound_approveEndpoint (h : db.Sound)
    (hstep : approveEndpoint organization id fingerprint now db = .ok db') : db'.Sound := by
  obtain ⟨⟨e, he, heid, hpending⟩, rfl⟩ := approveEndpoint_ok hstep
  -- every key of the endpoint is under review, and there is one at most
  have hreview : ∀ k ∈ db.keys, k.endpointID = id → k.state = .pendingReview := fun k hk hid =>
    (h.pending_enrolled e he hpending k hk (hid.trans heid.symm)).1
  apply sound_setStates h
  · intro k hk k' hk' hid hid' _ _
    exact h.review_unique k hk k' hk' (hid.trans hid'.symm) (hreview k hk hid) (hreview k' hk' hid')
  · intro k hk hid _
    exact hreview k hk hid
  · intro e' _ _ hs
    cases hs
  · intro e' _ _ hs
    cases hs

theorem terminate_ok {condition : EndpointState → Bool}
    (h : terminate organization id condition db = .ok db') :
    db' = db.setStates id (fun _ => .revoked) fun _ => .retired := by
  exact (Except.ok.inj (guard_error_eq_ok.1 h).2).symm

theorem sound_terminate {condition : EndpointState → Bool} (h : db.Sound)
    (hstep : terminate organization id condition db = .ok db') : db'.Sound := by
  obtain rfl := terminate_ok hstep
  apply sound_setStates h
  · intro k _ k' _ _ _ hs
    cases hs
  · intro k _ _ hs
    cases hs
  · intro e _ _ hs
    cases hs
  · intro _ _ _ _ _ _ _
    rfl

/-- What a recorded offer found and wrote. -/
theorem rotateEndpointKey_ok {newPublicKey signature : String}
    (h : rotateEndpointKey c id newPublicKey signature now db = .ok db') :
    ∃ e ∈ db.endpoints, e.id = id ∧ e.state ≠ .pending ∧ e.state ≠ .revoked ∧
      (∃ k ∈ db.keys, k.endpointID = id ∧ k.state = .approved ∧
        c.verifyRotation k.publicKey newPublicKey signature = true) ∧
      (∀ k ∈ db.keys, k.endpointID = id → k.live now = false) ∧
      (∀ k ∈ db.keys, k.pair ≠ (id, c.fingerprint newPublicKey)) ∧
      db' = { db.setStates id (fun s => s) fun k =>
          if k.state = .pendingReview then .retired else k.state with
        keys := (db.setStates id (fun s => s) fun k =>
            if k.state = .pendingReview then .retired else k.state).keys ++
          [⟨id, c.fingerprint newPublicKey, newPublicKey, .pendingReview, now⟩] } := by
  obtain ⟨-, h⟩ := guard_error_eq_ok.1 h
  split at h
  · cases h
  next e he =>
  obtain ⟨hs, h⟩ := guard_error_eq_ok.1 h
  split at h
  · cases h
  next current hcurrent =>
  simp only [guard_error_eq_ok] at h
  obtain ⟨hverify, -, hlive, hpair, h⟩ := h
  simp only [not_or] at hs
  simp only [List.any_eq_true, Bool.and_eq_true, beq_iff_eq, not_exists, not_and,
    Bool.not_eq_true] at hlive
  simp only [List.any_eq_true, decide_eq_true_eq, not_exists, not_and] at hpair
  have happroved := List.find?_some hcurrent
  simp only [Bool.and_eq_true, beq_iff_eq] at happroved
  exact ⟨e, Table.mem_of_find _ he, Table.key_of_find _ he, hs.1, hs.2,
    ⟨current, List.mem_of_find?_eq_some hcurrent, happroved.1, happroved.2,
      by simpa using hverify⟩, hlive, hpair, (Except.ok.inj h).symm⟩

theorem sound_rotateEndpointKey {newPublicKey signature : String} (h : db.Sound)
    (hstep : rotateEndpointKey c id newPublicKey signature now db = .ok db') : db'.Sound := by
  obtain ⟨e, he, heid, hnp, hnr, -, -, hpair, rfl⟩ := rotateEndpointKey_ok hstep
  have hretired : (db.setStates id (fun s => s) fun k =>
      if k.state = .pendingReview then .retired else k.state).Sound := by
    apply sound_setStates h
    · intro k hk k' hk' hid hid' hs hs'
      have hkeep : ∀ x : KeyRow, (if x.state = .pendingReview then KeyState.retired else x.state) =
          .approved → x.state = .approved := by
        intro x hx
        split at hx
        · cases hx
        exact hx
      exact h.approved_unique k hk k' hk' (hid.trans hid'.symm) (hkeep k hs) (hkeep k' hs')
    · intro k _ _ hs
      by_contra hne
      rw [if_neg hne] at hs
      exact hne hs
    · intro e' he' hid hs
      rw [List.inj_on_of_nodup_map h.ids he' he (hid.trans heid.symm)] at hs
      exact absurd hs hnp
    · intro e' he' hid hs
      rw [List.inj_on_of_nodup_map h.ids he' he (hid.trans heid.symm)] at hs
      exact absurd hs hnr
  refine sound_newKey hretired (Table.mem_updateWhere.2 ⟨e, he, rfl⟩) ?_ rfl ?_ ?_ ?_ ?_
  · simp [heid]
  · simpa using hnp
  · simpa using hnr
  · intro k hk
    obtain ⟨k₀, hk₀, hid, hfp, -⟩ := mem_keys_setStates hk
    have := hpair k₀ hk₀
    rwa [KeyRow.pair, ← hid, ← hfp] at this
  · intro k hk hid hs
    obtain ⟨k₀, -, hkid, -, hkeq, -⟩ := mem_keys_setStates hk
    have hk₀ : k₀.endpointID = id := by
      rw [← hkid, hid]
      simp [heid]
    rw [hkeq hk₀, KeyRow.with] at hs
    split at hs
    · cases hs
    next hne => exact hne hs

theorem acknowledgeEndpointKey_ok
    (h : acknowledgeEndpointKey organization id fingerprint now db = .ok db') :
    (∃ k ∈ db.keys, k.endpointID = id ∧ k.fingerprint = fingerprint ∧ k.live now = true) ∧
      (∃ e ∈ db.endpoints, e.id = id ∧ e.state ≠ .pending ∧ e.state ≠ .revoked) ∧
      db' = db.setStates id (fun s => s) fun k =>
        if k.fingerprint = fingerprint then .approved else .retired := by
  obtain ⟨hany, h⟩ := guard_error_eq_ok.1 h
  split at h
  · cases h
  next e he =>
  obtain ⟨hs, h⟩ := guard_error_eq_ok.1 h
  simp only [Bool.not_eq_true', Bool.not_eq_false, List.any_eq_true, Bool.and_eq_true,
    beq_iff_eq] at hany
  obtain ⟨k, hk, ⟨hid, hfp⟩, hlive⟩ := hany
  simp only [not_or] at hs
  exact ⟨⟨k, hk, hid, hfp, hlive⟩, ⟨e, (mem_of_endpoint? he).1, (mem_of_endpoint? he).2, hs⟩,
    (Except.ok.inj h).symm⟩

theorem sound_acknowledgeEndpointKey (h : db.Sound)
    (hstep : acknowledgeEndpointKey organization id fingerprint now db = .ok db') : db'.Sound := by
  obtain ⟨-, ⟨e, he, heid, hnp, hnr⟩, rfl⟩ := acknowledgeEndpointKey_ok hstep
  have hrow : ∀ e' ∈ db.endpoints, e'.id = id → e' = e := fun e' he' hid =>
    List.inj_on_of_nodup_map h.ids he' he (hid.trans heid.symm)
  apply sound_setStates h
  · intro k hk k' hk' hid hid' hs hs'
    have hfp : ∀ x : KeyRow, (if x.fingerprint = fingerprint then KeyState.approved else .retired) =
        .approved → x.fingerprint = fingerprint := by
      intro x hx
      by_contra hne
      rw [if_neg hne] at hx
      cases hx
    apply List.inj_on_of_nodup_map h.pairs hk hk'
    rw [KeyRow.pair, KeyRow.pair, hid, hid', hfp k hs, hfp k' hs']
  · intro k _ _ hs
    split at hs <;> cases hs
  · intro e' he' hid hs
    exact absurd (hrow e' he' hid ▸ hs) hnp
  · intro e' he' hid hs
    exact absurd (hrow e' he' hid ▸ hs) hnr

/-- A change of an endpoint's state that neither enters nor leaves pending or revoked. -/
theorem sound_setState (h : db.Sound) (hp : ∀ x, s x = .pending → x = .pending)
    (hr : ∀ x, s x = .revoked → x = .revoked) : (db.setStates id s KeyRow.state).Sound := by
  apply sound_setStates h
  · intro k hk k' hk' hid hid' hs hs'
    exact h.approved_unique k hk k' hk' (hid.trans hid'.symm) hs hs'
  · intro _ _ _ hs
    exact hs
  · intro e he hid hs
    exact ⟨hp _ hs, fun _ _ _ => rfl⟩
  · intro e he hid hs k hk hk'
    exact h.revoked_retired e he (hr _ hs) k hk (hk'.trans hid.symm)

theorem sound_step (c : Crypto) (op : EndpointOp) (db db' : EndpointDb) (h : db.Sound)
    (hstep : (endpointMachine c).step op db = .ok db') : db'.Sound := by
  cases op with
  | createToken => exact sound_createEnrollmentToken h hstep
  | enroll => exact sound_enroll h hstep
  | initLocal => exact sound_initLocalDocker h hstep
  | approve => exact sound_approveEndpoint h hstep
  | reject organization id =>
    exact sound_terminate h (show terminate organization id (· == .pending) db = .ok db' from hstep)
  | revoke organization id =>
    exact sound_terminate h (show terminate organization id (· != .revoked) db = .ok db' from hstep)
  | rotate => exact sound_rotateEndpointKey h hstep
  | acknowledge => exact sound_acknowledgeEndpointKey h hstep
  | inventory | offline =>
    obtain rfl := Except.ok.inj hstep
    apply sound_setState h <;> intro x <;> cases x <;> simp
  | duplicate =>
    obtain rfl := Except.ok.inj hstep
    exact { h with }
  | acknowledgeDuplicate =>
    obtain rfl := Except.ok.inj hstep
    exact { h with }

/-! ## Identity -/

/-- Every revoked endpoint is still there and revoked. -/
def StaysRevoked (db db' : EndpointDb) : Prop :=
  ∀ e ∈ db.endpoints, e.state = .revoked → ∃ e' ∈ db'.endpoints, e'.id = e.id ∧ e'.state = .revoked

theorem staysRevoked_setStates
    (hs : ∀ e ∈ db.endpoints, e.id = id → e.state = .revoked → s .revoked = .revoked) :
    StaysRevoked db (db.setStates id s g) := by
  intro e he hr
  refine ⟨_, Table.mem_updateWhere.2 ⟨e, he, rfl⟩, ?_, ?_⟩
  · split <;> rfl
  · split
    · next hid =>
      rw [hr]
      exact hs e he (by simpa using hid) hr
    · exact hr

theorem staysRevoked_of_subset (h : db.endpoints ⊆ db'.endpoints) :
    StaysRevoked db db' := fun e he hr => ⟨e, h he, rfl, hr⟩

theorem staysRevoked_step (c : Crypto) (op : EndpointOp) (db db' : EndpointDb) (h : db.Sound)
    (hstep : (endpointMachine c).step op db = .ok db') : StaysRevoked db db' := by
  cases op with
  | createToken =>
    obtain rfl := Except.ok.inj (guard_error_eq_ok.1 hstep).2
    exact staysRevoked_of_subset (List.Subset.refl _)
  | enroll =>
    obtain ⟨t, -, -, -, rfl⟩ := enroll_ok hstep
    exact staysRevoked_of_subset (List.subset_append_left _ _)
  | initLocal =>
    obtain rfl := Except.ok.inj (guard_error_eq_ok.1 hstep).2
    exact staysRevoked_of_subset (List.subset_append_left _ _)
  | approve =>
    obtain ⟨⟨e, he, heid, hpending⟩, rfl⟩ := approveEndpoint_ok hstep
    apply staysRevoked_setStates
    intro e' he' hid hr
    rw [List.inj_on_of_nodup_map h.ids he' he (hid.trans heid.symm), hpending] at hr
    cases hr
  | reject organization id =>
    obtain rfl := terminate_ok (show terminate organization id (· == .pending) db = _ from hstep)
    exact staysRevoked_setStates fun _ _ _ _ => rfl
  | revoke organization id =>
    obtain rfl := terminate_ok (show terminate organization id (· != .revoked) db = _ from hstep)
    exact staysRevoked_setStates fun _ _ _ _ => rfl
  | rotate =>
    obtain ⟨e, -, -, -, -, -, -, -, rfl⟩ := rotateEndpointKey_ok hstep
    intro e he hr
    exact staysRevoked_setStates (s := fun s => s) (g := fun k =>
      if k.state = .pendingReview then .retired else k.state) (fun _ _ _ _ => rfl) e he hr
  | acknowledge =>
    obtain ⟨-, -, rfl⟩ := acknowledgeEndpointKey_ok hstep
    exact staysRevoked_setStates fun _ _ _ _ => rfl
  | inventory | offline =>
    obtain rfl := Except.ok.inj hstep
    exact staysRevoked_setStates fun _ _ _ _ => rfl
  | duplicate | acknowledgeDuplicate =>
    obtain rfl := Except.ok.inj hstep
    exact staysRevoked_of_subset (List.Subset.refl _)

theorem StaysRevoked.trans {a b c : EndpointDb} (h : StaysRevoked a b) (h' : StaysRevoked b c) :
    StaysRevoked a c := by
  intro e he hr
  obtain ⟨e', he', hid, hr'⟩ := h e he hr
  obtain ⟨e'', he'', hid', hr''⟩ := h' e' he' hr'
  exact ⟨e'', he'', hid'.trans hid, hr''⟩

theorem sound_empty : EndpointDb.empty.Sound where
  ids := List.nodup_nil
  pairs := List.nodup_nil
  owned := by simp [EndpointDb.empty]
  approved_unique := by simp [EndpointDb.empty]
  review_unique := by simp [EndpointDb.empty]
  pending_enrolled := by simp [EndpointDb.empty]
  revoked_retired := by simp [EndpointDb.empty]
  token_ids := List.nodup_nil
  token_hashes := List.nodup_nil
  token_used := by simp [EndpointDb.empty]

/-- What the handshake accepts. -/
theorem agentIdentity_ok {k : KeyRow} (h : agentIdentity id fingerprint now db = .ok k) :
    ∃ e ∈ db.endpoints, e.id = id ∧ e.state ≠ .revoked ∧ k ∈ db.keys ∧
      k.pair = (id, fingerprint) ∧
      (k.state = .approved ∨ (e.state = .pending ∧ k.state = .pendingReview)) := by
  unfold agentIdentity at h
  split at h
  · cases h
  next e he =>
  obtain ⟨hs, h⟩ := guard_error_eq_ok.1 h
  simp only [not_or] at hs
  split at h
  · cases h
  next k' hk' =>
  have hmem := Table.mem_of_find _ hk'
  have hpair := Table.key_of_find _ hk'
  have hrow := Table.mem_of_find _ he
  have hid := Table.key_of_find _ he
  split at h
  · next hstate =>
    obtain rfl := Except.ok.inj h
    exact ⟨e, hrow, hid, hs.1, hmem, hpair, .inl hstate⟩
  · cases h
  · next hstate =>
    split at h
    · next hp =>
      obtain rfl := Except.ok.inj h
      exact ⟨e, hrow, hid, hs.1, hmem, hpair, .inr ⟨hp, hstate⟩⟩
    · split at h <;> cases h

/-- After any transactions: an endpoint has at most one approved key and at most one under review; a
token made at most one endpoint; a revoked endpoint stays revoked whatever follows and none of its
keys is accepted; and an accepted key is the approved one or the enrolled key of a pending
endpoint. -/
theorem endpoint_identity (c : Crypto) (db : EndpointDb) (h : (endpointMachine c).Steps .empty db) :
    (∀ k ∈ db.keys, ∀ k' ∈ db.keys, k.endpointID = k'.endpointID →
        (k.state = .approved ∧ k'.state = .approved ∨
          k.state = .pendingReview ∧ k'.state = .pendingReview) → k = k') ∧
      (∀ e ∈ db.endpoints, ∀ e' ∈ db.endpoints, ∀ en en', e.enrolled = some en →
        e'.enrolled = some en' → en.token = en'.token → e = e') ∧
      (∀ e ∈ db.endpoints, e.state = .revoked →
        (∀ db', (endpointMachine c).Steps db db' →
          ∃ e' ∈ db'.endpoints, e'.id = e.id ∧ e'.state = .revoked) ∧
        ∀ fingerprint now k, agentIdentity e.id fingerprint now db ≠ .ok k) ∧
      ∀ id fingerprint now k, agentIdentity id fingerprint now db = .ok k →
        k ∈ db.keys ∧ k.pair = (id, fingerprint) ∧ (k.state = .approved ∨
          ∃ e ∈ db.endpoints, e.id = id ∧ e.state = .pending ∧
            ∃ en, e.enrolled = some en ∧ en.fingerprint = fingerprint) := by
  have hsound : db.Sound := h.keeps (sound_step c) sound_empty
  refine ⟨?_, ?_, ?_, ?_⟩
  · rintro k hk k' hk' hsame (⟨hs, hs'⟩ | ⟨hs, hs'⟩)
    · exact hsound.approved_unique k hk k' hk' hsame hs hs'
    · exact hsound.review_unique k hk k' hk' hsame hs hs'
  · intro e he e' he' en en' hen hen' htoken
    obtain ⟨t, ht, htid, -, hte⟩ := hsound.token_used e he en hen
    obtain ⟨t', ht', htid', -, hte'⟩ := hsound.token_used e' he' en' hen'
    have hsame : t = t' := List.inj_on_of_nodup_map hsound.token_ids ht ht'
      (htid.trans (htoken.trans htid'.symm))
    apply List.inj_on_of_nodup_map hsound.ids he he'
    rw [← hte, ← hte', hsame]
  · intro e he hr
    constructor
    · intro db' hrun
      have hstays : StaysRevoked db db' := hrun.rel (sound_step c)
        (fun _ => staysRevoked_of_subset (List.Subset.refl _)) (fun _ _ _ => StaysRevoked.trans)
        (staysRevoked_step c) hsound
      exact hstays e he hr
    · intro fingerprint now k hk
      obtain ⟨e', he', hid, hne, -⟩ := agentIdentity_ok hk
      rw [List.inj_on_of_nodup_map hsound.ids he' he hid] at hne
      exact hne hr
  · intro id fingerprint now k hk
    obtain ⟨e, he, hid, -, hmem, hpair, hstate⟩ := agentIdentity_ok hk
    refine ⟨hmem, hpair, ?_⟩
    rcases hstate with happroved | ⟨hp, -⟩
    · exact .inl happroved
    · have hke : k.endpointID = e.id := (congrArg Prod.fst hpair).trans hid.symm
      obtain ⟨-, en, hen, hfp⟩ := hsound.pending_enrolled e he hp k hmem hke
      exact .inr ⟨e, he, hid, hp, en, hen, hfp.trans (congrArg Prod.snd hpair)⟩

/-- A server that takes every proof and names a key by itself. -/
def openCrypto : Crypto where
  sha256Hex := fun s => s
  fingerprint := fun s => s
  validKey _ := true
  verifyEnrollment _ _ _ := true
  verifyRotation _ _ _ := true

/-- An endpoint that enrolls, is approved, rotates its key and is then revoked. -/
def endpointLife : List EndpointOp :=
  [.createToken "t" "o" "secret" 0, .enroll ⟨"k1", "secret", "", "host", Dict.empty⟩ "e" 1,
    .approve "o" "e" "k1" 2, .inventory "e", .rotate "e" "k2" "" 3, .acknowledge "o" "e" "k2" 4]

theorem endpoint_identity_control :
    let db := (endpointMachine openCrypto).run endpointLife .empty
    (db.keys.map fun k => (k.fingerprint, k.state)) = [("k1", .retired), ("k2", .approved)] ∧
      ∀ id fingerprint now k, agentIdentity id fingerprint now db = .ok k →
        k ∈ db.keys ∧ k.pair = (id, fingerprint) ∧ (k.state = .approved ∨
          ∃ e ∈ db.endpoints, e.id = id ∧ e.state = .pending ∧
            ∃ en, e.enrolled = some en ∧ en.fingerprint = fingerprint) := by
  refine ⟨by decide +kernel, ?_⟩
  exact (endpoint_identity openCrypto _ (Machine.steps_run endpointLife EndpointDb.empty)).2.2.2

end KyYard.Store
