import KyYard.Foundation.Machine
import KyYard.Store.Spec
import KyYard.Accounts.Schema

/-!
# Tenant transactions

Memberships and the credentials an organization administrator hands out: AI agent tokens, status
feeds and kyPulse pairing codes. A request runs under `runAs`, which reads the caller's live role in
the transaction and writes the audit row with it; a refused request leaves the database alone and
has its row written afterwards, in a transaction of its own (`Refusal.record`).

Whoever stops being an active organization administrator loses the credentials they created:
`revokeLostAdminCredentials` runs in the transaction that takes the authority. `live` is what is
left of a kind of credential; the lemmas say what each write does to it, to the audit trail and to
who administers what.
-/

namespace KyYard.Accounts

open Foundation
open Protocol (cleanText)
open Store (validTenantName)

/-! ## Authority -/

/-- The request context the server derives. -/
structure TenantAccess where
  actorID : String
  organizationID : String
  environmentID : String
  ipAddress : String
  serviceTokenID : String
deriving DecidableEq

/-- `Principal`. -/
def TenantAccess.principal (a : TenantAccess) : String :=
  if a.serviceTokenID ≠ "" then "service:" ++ a.serviceTokenID else a.actorID

namespace Db

variable (db : Db)

/-- An account that may sign in. -/
def active (id : String) : Bool := db.users.any fun u => u.id = id && u.status = "active"

/-- An active administrator's membership: active itself, on an active account. -/
def adminRow (m : Membership) : Bool :=
  m.role = .organizationAdmin && m.status = .active && db.active m.userID

/-- The user is an active administrator of the organization. -/
def administers (org user : String) : Bool :=
  db.memberships.any fun m => m.organizationID = org && m.userID = user && db.adminRow m

/-- The organization has an active administrator. -/
def hasAdmin (org : String) : Bool :=
  db.memberships.any fun m => m.organizationID = org && db.adminRow m

variable {db}

theorem administers_iff {org user : String} : db.administers org user = true ↔
    ∃ m ∈ db.memberships, m.organizationID = org ∧ m.userID = user ∧ db.adminRow m = true := by
  simp [administers, and_assoc]

theorem hasAdmin_iff {org : String} :
    db.hasAdmin org = true ↔ ∃ user, db.administers org user = true := by
  simp only [administers_iff, hasAdmin, List.any_eq_true, Bool.and_eq_true, decide_eq_true_eq]
  constructor
  · rintro ⟨m, hm, horg, hrow⟩
    exact ⟨m.userID, m, hm, horg, rfl, hrow⟩
  · rintro ⟨user, m, hm, horg, -, hrow⟩
    exact ⟨m, hm, horg, hrow⟩

end Db

/-- The fixed role of a live token of the organization. -/
def serviceRole (a : TenantAccess) (db : Db) : Except Err Role :=
  match db.serviceTokens.find? fun t =>
      t.id = a.serviceTokenID && t.organizationID = a.organizationID with
  | none => .error .noPrincipal
  | some t =>
    if t.revokedAt.isSome then .error .forbidden
    else
      match t.scope with
      | .pulse => .ok .pulseReader
      | .mcpRead => .ok .agentReader
      | .mcpOperate => .ok .agentOperator

/-- The live role of the caller. -/
def principalRole (a : TenantAccess) (db : Db) : Except Err Role :=
  if a.serviceTokenID ≠ "" then serviceRole a db
  else
    match db.user? a.actorID,
      Table.find Membership.key (a.organizationID, a.actorID) db.memberships with
    | some u, some m =>
      if u.status ≠ "active" || u.mustChangePassword || m.status ≠ .active then .error .forbidden
      else .ok (.tenant m.role)
    | _, _ => .error .noPrincipal

/-- A refused request: nothing of it is committed, and the row, if any, is still to be written. -/
structure Refusal where
  err : Err
  record : Option AuditRecord
deriving DecidableEq

/-- What a request is about: its action, the name its audit rows carry, the resource they name if it
is not empty, and when it runs. -/
structure Request where
  access : TenantAccess
  action : Action
  name : String
  target : String
  now : Int

namespace Request

variable (r : Request)

/-- The audit row of the request. -/
def record (details result : String) : AuditRecord where
  userID := r.access.principal
  action := r.name
  resource := cleanText (if r.target ≠ "" then r.target
    else if r.access.environmentID ≠ "" then r.access.environmentID
    else r.access.organizationID) 255
  details := details
  ipAddress := r.access.ipAddress
  createdAt := r.now
  scope := "organization"
  organizationID := r.access.organizationID
  environmentID := r.access.environmentID
  result := result

/-- The caller may take the action, in the environment it names if it names one. -/
def authorize (db : Db) : Except Err Unit :=
  match principalRole r.access db with
  | .error e => .error e
  | .ok role =>
    if ¬ allows role r.action then .error .forbidden
    else if r.access.environmentID ≠ "" ∧ r.action ≠ .environmentCreate ∧
        ¬ db.environments.any (fun e =>
          e.organizationID = r.access.organizationID && e.id = r.access.environmentID) then
      .error .notFound
    else .ok ()

/-- What a refused request leaves to be written: nothing where the caller has no row in the
organization, since its scope is not verified then. -/
def refuse (e : Err) : Refusal :=
  if e = .noPrincipal then ⟨.forbidden, none⟩
  else ⟨e, some (r.record "" (if e = .forbidden then "denied" else "failure"))⟩

/-- `runAs` for a mutation. `op` answers with the details of the success row. -/
def runAs (op : Db → Except Err (Db × String)) (db : Db) : Except Refusal Db :=
  if (r.access.actorID = "" ∧ r.access.serviceTokenID = "") ∨ r.access.organizationID = "" then
    .error ⟨.forbidden, none⟩
  else
    match r.authorize db with
    | .error e => .error (r.refuse e)
    | .ok () =>
      match op db with
      | .error e => .error (r.refuse e)
      | .ok (db', details) => .ok (db'.log (r.record (cleanText details 255) "success"))

variable {r}

theorem runAs_eq_ok {op : Db → Except Err (Db × String)} {db db' : Db} :
    r.runAs op db = .ok db' ↔
      ¬ ((r.access.actorID = "" ∧ r.access.serviceTokenID = "") ∨ r.access.organizationID = "") ∧
        r.authorize db = .ok () ∧ ∃ db₁ details, op db = .ok (db₁, details) ∧
          db' = db₁.log (r.record (cleanText details 255) "success") := by
  unfold runAs
  rw [guard_error_eq_ok]
  apply and_congr_right
  intro _
  cases r.authorize db with
  | error => simp
  | ok =>
    cases hop : op db with
    | error => simp
    | ok p =>
      obtain ⟨db₁, details⟩ := p
      simp [eq_comm]

/-- Whoever may hand a credential out is an active administrator of the organization, and is named
by the account, not by a token. -/
theorem administers_of_authorize {db : Db} (h : r.authorize db = .ok ())
    (hd : r.action.delegates = true) :
    r.access.serviceTokenID = "" ∧
      db.administers r.access.organizationID r.access.actorID = true := by
  unfold authorize at h
  cases hrole : principalRole r.access db with
  | error =>
    rw [hrole] at h
    cases h
  | ok role =>
    rw [hrole] at h
    simp only [guard_error_eq_ok, not_not] at h
    obtain rfl := administrator_of_delegates h.1 hd
    unfold principalRole at hrole
    split at hrole
    · -- a token's scope never gives a membership's role
      unfold serviceRole at hrole
      split at hrole
      · cases hrole
      rw [guard_error_eq_ok] at hrole
      obtain ⟨-, hrole⟩ := hrole
      split at hrole <;> cases hrole
    · next htoken =>
      refine ⟨not_not.1 htoken, ?_⟩
      split at hrole
      · next u m hu hm =>
        simp only [guard_error_eq_ok, Except.ok.injEq, Role.tenant.injEq, Bool.or_eq_true,
          decide_eq_true_eq, not_or, not_not] at hrole
        obtain ⟨⟨⟨hstatus, -⟩, hactive⟩, hadmin⟩ := hrole
        have hkey := Table.key_of_find Membership.key hm
        simp only [Membership.key, Prod.mk.injEq] at hkey
        rw [Db.administers_iff]
        refine ⟨m, Table.mem_of_find Membership.key hm, hkey.1, hkey.2, ?_⟩
        have hid := Table.key_of_find User.id hu
        have hmem := Table.mem_of_find User.id hu
        simp only [Db.adminRow, hadmin, hactive, Db.active, decide_true, Bool.true_and,
          List.any_eq_true, Bool.and_eq_true, decide_eq_true_eq]
        exact ⟨u, hmem, hid.trans hkey.2.symm, hstatus⟩
      · cases hrole

end Request

/-! ## Delegated credentials -/

/-- The credentials that go with their creator's authority. -/
inductive CredentialKind
  | agentToken
  | statusFeed
  | pairingCode
deriving DecidableEq

/-- The action an audit row names when a credential of the kind is ended, here as by a person. -/
def CredentialKind.action : CredentialKind → String
  | agentToken => Action.agentTokensManage.name
  | statusFeed => "status_feed.revoke"
  | pairingCode => Action.serviceTokensManage.name

theorem CredentialKind.action_inj {k k' : CredentialKind} (h : k.action = k'.action) : k = k' := by
  revert h
  cases k <;> cases k' <;> decide

/-- What a credential is to the sweep: the organization it opens and who created it. -/
structure Credential where
  id : String
  organizationID : String
  createdBy : String
deriving DecidableEq

def ServiceToken.credential (t : ServiceToken) : Credential := ⟨t.id, t.organizationID, t.createdBy⟩

def StatusFeed.credential (f : StatusFeed) : Credential := ⟨f.id, f.organizationID, f.createdBy⟩

def ServicePairing.credential (p : ServicePairing) : Credential :=
  ⟨p.id, p.organizationID, p.createdBy⟩

/-- An unrevoked AI agent token. -/
def ServiceToken.live (t : ServiceToken) : Bool := t.scope ≠ .pulse && t.revokedAt.isNone

/-- Not revoked. -/
def StatusFeed.live (f : StatusFeed) : Bool := f.revokedAt.isNone

/-- An unclaimed pairing code. -/
def ServicePairing.live (p : ServicePairing) : Bool := p.consumedAt.isNone

namespace Db

/-- The credentials of a kind that still work. -/
def live (db : Db) : CredentialKind → List Credential
  | .agentToken => (db.serviceTokens.filter ServiceToken.live).map ServiceToken.credential
  | .statusFeed => (db.statusFeeds.filter StatusFeed.live).map StatusFeed.credential
  | .pairingCode => (db.servicePairings.filter ServicePairing.live).map ServicePairing.credential

/-- The primary keys of the table of a kind. -/
def ids (db : Db) : CredentialKind → List String
  | .agentToken => db.serviceTokens.map ServiceToken.id
  | .statusFeed => db.statusFeeds.map StatusFeed.id
  | .pairingCode => db.servicePairings.map ServicePairing.id

/-- The write that ends one credential: a token and a feed are revoked, a code is deleted. -/
def endCredential (k : CredentialKind) (id actor : String) (now : Int) (db : Db) : Db :=
  match k with
  | .agentToken =>
    { db with
      serviceTokens := Table.updateWhere (fun t => t.id = id && t.revokedAt.isNone)
        (fun t => { t with revokedAt := some now, revokedBy := actor }) db.serviceTokens }
  | .statusFeed =>
    { db with
      statusFeeds := Table.updateWhere (fun f => f.id = id && f.revokedAt.isNone)
        (fun f => { f with revokedAt := some now, revokedBy := actor }) db.statusFeeds }
  | .pairingCode =>
    { db with
      servicePairings := db.servicePairings.filter fun p => !(p.id = id && p.consumedAt.isNone) }

variable {db : Db}

theorem live_ids_sublist (k : CredentialKind) :
    ((db.live k).map Credential.id).Sublist (db.ids k) := by
  cases k with
  | agentToken | statusFeed | pairingCode =>
    simp only [live, List.map_map]
    exact (List.filter_sublist).map _

/-- Revoking the rows with an id, seen through the credentials that still work. -/
theorem live_revoke {α : Type} {t : List α} {key : α → String} {lives free : α → Bool} {f : α → α}
    {cred : α → Credential} {id : String} (hcred : ∀ r, (cred r).id = key r)
    (hfree : ∀ r, lives r = true → free r = true) (hdead : ∀ r, lives (f r) = false) :
    ((Table.updateWhere (fun r => key r = id && free r) f t).filter lives).map cred =
      ((t.filter lives).map cred).filter (·.id ≠ id) := by
  induction t with
  | nil => rfl
  | cons r t ih =>
    simp only [Table.updateWhere, Bool.and_eq_true, decide_eq_true_eq] at ih ⊢
    rw [List.map_cons, List.filter_cons, List.filter_cons]
    cases hl : lives r with
    | true =>
      by_cases hk : key r = id
      · simp [hk, hfree r hl, hdead, hcred, ih]
      · simp [hk, hl, hcred, ih]
    | false =>
      by_cases hk : key r = id ∧ free r = true
      · simp [hk.1, hk.2, hdead, ih]
      · simp [hk, hl, ih]

theorem live_endCredential_self (k : CredentialKind) (id actor : String) (now : Int) (db : Db) :
    (db.endCredential k id actor now).live k = (db.live k).filter (·.id ≠ id) := by
  cases k with
  | agentToken =>
    apply live_revoke
    · exact fun _ => rfl
    · simp [ServiceToken.live]
    · simp [ServiceToken.live]
  | statusFeed =>
    apply live_revoke
    · exact fun _ => rfl
    · simp [StatusFeed.live]
    · simp [StatusFeed.live]
  | pairingCode =>
    simp only [endCredential, live, List.filter_map, List.filter_filter]
    congr 1
    apply List.filter_congr
    intro p _
    by_cases hp : p.id = id <;>
      simp [ServicePairing.live, ServicePairing.credential, hp]

theorem live_endCredential_of_ne {k k' : CredentialKind} (h : k' ≠ k) (id actor : String)
    (now : Int) (db : Db) : (db.endCredential k id actor now).live k' = db.live k' := by
  cases k <;> cases k' <;> first | rfl | exact absurd rfl h

/-- Ending a credential brings none back. -/
theorem live_of_endCredential {k k' : CredentialKind} {id actor : String} {now : Int} {c : Credential}
    (hc : c ∈ (db.endCredential k id actor now).live k') : c ∈ db.live k' := by
  by_cases hk : k' = k
  · subst hk
    rw [live_endCredential_self] at hc
    exact (List.mem_filter.1 hc).1
  · rwa [live_endCredential_of_ne hk] at hc

theorem ids_endCredential (k k' : CredentialKind) (id actor : String) (now : Int) (db : Db) :
    ((db.endCredential k id actor now).ids k').Sublist (db.ids k') := by
  cases k with
  | agentToken =>
    cases k' with
    | agentToken =>
      simp only [endCredential, ids]
      rw [Table.map_updateWhere]
      exact fun _ => rfl
    | statusFeed | pairingCode => exact List.Sublist.refl _
  | statusFeed =>
    cases k' with
    | statusFeed =>
      simp only [endCredential, ids]
      rw [Table.map_updateWhere]
      exact fun _ => rfl
    | agentToken | pairingCode => exact List.Sublist.refl _
  | pairingCode =>
    cases k' with
    | pairingCode => exact (List.filter_sublist).map _
    | agentToken | statusFeed => exact List.Sublist.refl _

end Db

/-- The audit row of a credential that goes with its creator's authority. -/
def lostRecord (k : CredentialKind) (id org user actor : String) (now : Int) : AuditRecord where
  userID := actor
  action := k.action
  resource := id
  details := "revoked: creator " ++ user ++ " is no longer an organization administrator"
  ipAddress := ""
  createdAt := now
  scope := "organization"
  organizationID := org
  environmentID := ""
  result := "success"

namespace Db

/-- The ids of a user's live credentials of a kind in an organization. -/
def createdIDs (k : CredentialKind) (org user : String) (db : Db) : List String :=
  ((db.live k).filter fun c => c.organizationID = org && c.createdBy = user).map Credential.id

/-- Every one of the ids ended, each with its row. -/
def endAll (k : CredentialKind) (org user actor : String) (now : Int) (ids : List String)
    (db : Db) : Db :=
  ids.foldl (fun db id =>
    (db.endCredential k id actor now).log (lostRecord k id org user actor now)) db

/-- The kinds in turn, each with the ids it has when its turn comes. -/
def endKinds (org user actor : String) (now : Int) (ks : List CredentialKind) (db : Db) : Db :=
  ks.foldl (fun db k => db.endAll k org user actor now (db.createdIDs k org user)) db

/-- `revokeLostAdminCredentials`. -/
def revokeLostAdminCredentials (org user actor : String) (now : Int) (db : Db) : Db :=
  if db.administers org user then db
  else db.endKinds org user actor now [.agentToken, .statusFeed, .pairingCode]

/-- `requireActiveAdmin`. -/
def requireActiveAdmin (org : String) (db : Db) : Except Err Unit :=
  if db.hasAdmin org then .ok () else .error .lastAdmin

end Db

/-! ## What a sweep changes -/

/-- `db'` holds the same accounts and memberships as `db`: nobody gained or lost authority. -/
structure SameAuthority (db db' : Db) : Prop where
  users : db'.users = db.users
  memberships : db'.memberships = db.memberships

namespace SameAuthority

variable {db db₁ db' : Db}

theorem refl (db : Db) : SameAuthority db db := ⟨rfl, rfl⟩

theorem trans (h : SameAuthority db db₁) (h' : SameAuthority db₁ db') : SameAuthority db db' :=
  ⟨h'.users.trans h.users, h'.memberships.trans h.memberships⟩

theorem administers (h : SameAuthority db db') (org user : String) :
    db'.administers org user = db.administers org user := by
  unfold Db.administers Db.adminRow Db.active
  rw [h.users, h.memberships]

theorem hasAdmin (h : SameAuthority db db') (org : String) :
    db'.hasAdmin org = db.hasAdmin org := by
  unfold Db.hasAdmin Db.adminRow Db.active
  rw [h.users, h.memberships]

end SameAuthority

/-- The row says that the credential was ended. -/
def AuditRecord.ends (k : CredentialKind) (id org : String) (r : AuditRecord) : Bool :=
  r.action = k.action && r.resource = id && r.organizationID = org

/-- The credential has this id in this organization. -/
def Credential.isAt (id org : String) (c : Credential) : Bool := c.id = id && c.organizationID = org

/-- From `db` to `db'` credentials only end, and each one that does has exactly one row: rows and
what is left add up to what was there. -/
structure Conserves (db db' : Db) : Prop where
  live : ∀ k, ∀ c ∈ db'.live k, c ∈ db.live k
  rows : ∃ rows, db'.audit = db.audit ++ rows ∧ ∀ k id org,
    rows.countP (·.ends k id org) + (db'.live k).countP (·.isAt id org) =
      (db.live k).countP (·.isAt id org)

namespace Conserves

variable {db db₁ db' : Db}

theorem refl (db : Db) : Conserves db db := ⟨fun _ _ h => h, [], by simp, by simp⟩

theorem trans (h : Conserves db db₁) (h' : Conserves db₁ db') : Conserves db db' := by
  obtain ⟨rows, haudit, hcount⟩ := h.rows
  obtain ⟨rows', haudit', hcount'⟩ := h'.rows
  refine ⟨fun k c hc => h.live k c (h'.live k c hc), rows ++ rows', ?_, ?_⟩
  · rw [haudit', haudit, List.append_assoc]
  · intro k id org
    rw [List.countP_append, ← hcount k id org, ← hcount' k id org]
    omega

/-- A write that leaves credentials and the audit trail alone. -/
theorem of_eq (hlive : ∀ k, db'.live k = db.live k) (haudit : db'.audit = db.audit) :
    Conserves db db' := by
  refine ⟨fun k c hc => hlive k ▸ hc, [], by simp [haudit], ?_⟩
  intro k id org
  rw [hlive]
  simp

/-- A row about something else. -/
theorem log {r : AuditRecord} (h : ∀ k : CredentialKind, r.action ≠ k.action) :
    Conserves db (db.log r) := by
  have hlive : ∀ k, (db.log r).live k = db.live k := by
    intro k
    cases k <;> rfl
  refine ⟨fun k c hc => hlive k ▸ hc, [r], rfl, ?_⟩
  intro k id org
  have hr : r.ends k id org = false := by simp [AuditRecord.ends, h k]
  simp [hr, hlive]

end Conserves

/-- Taking the one row at a place out of a table leaves every other place as it was. -/
theorem countP_isAt_filter_ne {l : List Credential} {id id' org : String} (h : id' ≠ id) :
    (l.filter (·.id ≠ id)).countP (·.isAt id' org) = l.countP (·.isAt id' org) := by
  rw [List.countP_filter]
  apply List.countP_congr
  intro c _
  simp only [Credential.isAt, Bool.and_eq_true, decide_eq_true_eq]
  constructor
  · exact fun hc => hc.1
  · rintro ⟨hid, horg⟩
    exact ⟨⟨hid, horg⟩, fun heq => h (hid.symm.trans heq)⟩

namespace Db

variable {db : Db} {k : CredentialKind} {org user actor : String} {now : Int}

theorem sameAuthority_log (r : AuditRecord) : SameAuthority db (db.log r) := ⟨rfl, rfl⟩

theorem audit_endCredential (id : String) : (db.endCredential k id actor now).audit = db.audit := by
  cases k <;> rfl

@[simp]
theorem live_log (r : AuditRecord) (k : CredentialKind) : (db.log r).live k = db.live k := by
  cases k <;> rfl

@[simp]
theorem ids_log (r : AuditRecord) (k : CredentialKind) : (db.log r).ids k = db.ids k := by
  cases k <;> rfl

/-- Ending a credential that works, with its row. -/
theorem conserves_endCredential {id : String} (hn : (db.ids k).Nodup)
    (hid : ∃ c ∈ db.live k, c.id = id ∧ c.organizationID = org) :
    Conserves db ((db.endCredential k id actor now).log (lostRecord k id org user actor now)) := by
  refine ⟨?_, [lostRecord k id org user actor now], ?_, ?_⟩
  · intro k' c hc
    exact live_of_endCredential hc
  · rw [Db.log, audit_endCredential]
  intro k' id' org'
  rw [live_log]
  have hrow : (lostRecord k id org user actor now).ends k' id' org' =
      decide (k' = k ∧ id' = id ∧ org' = org) := by
    rw [Bool.eq_iff_iff]
    simp only [AuditRecord.ends, Bool.and_eq_true, decide_eq_true_eq]
    constructor
    · rintro ⟨⟨hk, rfl⟩, rfl⟩
      exact ⟨(CredentialKind.action_inj hk).symm, rfl, rfl⟩
    · rintro ⟨rfl, rfl, rfl⟩
      exact ⟨⟨rfl, rfl⟩, rfl⟩
  rw [List.countP_singleton, hrow]
  by_cases hk : k' = k
  · subst hk
    rw [live_endCredential_self]
    by_cases hid' : id' = id
    · subst hid'
      -- the one live credential with the id is in the organization the row names
      obtain ⟨c, hc, rfl, rfl⟩ := hid
      have hlive : ((db.live k').map Credential.id).Nodup := hn.sublist (live_ids_sublist k')
      have hone : (db.live k').countP (·.isAt c.id org') =
          if org' = c.organizationID then 1 else 0 := by
        rw [List.countP_eq_length_filter]
        have hfilter : (db.live k').filter (·.isAt c.id org') =
            [c].filter (fun c => c.organizationID = org') := by
          rw [← Table.filter_key_eq Credential.id hlive hc]
          simp [Credential.isAt, Bool.and_comm]
        rw [hfilter]
        by_cases horg : c.organizationID = org'
        · simp [horg]
        · have : ¬ org' = c.organizationID := fun h => horg h.symm
          simp [horg, this]
      have hnone : ((db.live k').filter (·.id ≠ c.id)).countP (·.isAt c.id org') = 0 := by
        rw [List.countP_eq_zero]
        intro d hd
        have := (List.mem_filter.1 hd).2
        simp only [decide_not, Bool.not_eq_true'] at this
        simp [Credential.isAt, this]
      rw [hnone, hone]
      simp
    · rw [countP_isAt_filter_ne hid']
      simp [hid']
  · rw [live_endCredential_of_ne hk]
    simp [hk]

/-- From `db` to `db'` credentials end, the audit trail grows, and nothing else changes. -/
structure Swept (db db' : Db) : Prop where
  frame : db' = { db with
    serviceTokens := db'.serviceTokens
    statusFeeds := db'.statusFeeds
    servicePairings := db'.servicePairings
    audit := db'.audit }
  ids : ∀ k, (db'.ids k).Sublist (db.ids k)
  live : ∀ k, ∀ c ∈ db'.live k, c ∈ db.live k
  audit : ∃ rows, db'.audit = db.audit ++ rows

namespace Swept

variable {db db₁ db' : Db}

theorem refl (db : Db) : Swept db db where
  frame := rfl
  ids _ := List.Sublist.refl _
  live _ _ h := h
  audit := ⟨[], (List.append_nil _).symm⟩

theorem trans (h : Swept db db₁) (h' : Swept db₁ db') : Swept db db' where
  frame := by
    apply h'.frame.trans
    rw [h.frame]
  ids k := (h'.ids k).trans (h.ids k)
  live k c hc := h.live k c (h'.live k c hc)
  audit := by
    obtain ⟨rows, hrows⟩ := h.audit
    obtain ⟨rows', hrows'⟩ := h'.audit
    exact ⟨rows ++ rows', by rw [hrows', hrows, List.append_assoc]⟩

theorem users (h : Swept db db') : db'.users = db.users := by
  have hframe := congrArg Db.users h.frame
  exact hframe

theorem toSameAuthority (h : Swept db db') : SameAuthority db db' := by
  have hframe := congrArg Db.memberships h.frame
  exact ⟨h.users, hframe⟩

theorem administers (h : Swept db db') (org user : String) :
    db'.administers org user = db.administers org user := h.toSameAuthority.administers org user

theorem hasAdmin (h : Swept db db') (org : String) : db'.hasAdmin org = db.hasAdmin org :=
  h.toSameAuthority.hasAdmin org

end Swept

theorem swept_log (r : AuditRecord) : Swept db (db.log r) where
  frame := rfl
  ids k := by rw [ids_log]
  live k c hc := by rwa [live_log] at hc
  audit := ⟨[r], rfl⟩

theorem swept_endCredential (id : String) : Swept db (db.endCredential k id actor now) where
  frame := by cases k <;> rfl
  ids k' := ids_endCredential k k' id actor now db
  live _ _ hc := live_of_endCredential hc
  audit := ⟨[], by rw [audit_endCredential, List.append_nil]⟩

theorem swept_endAll (ids : List String) : Swept db (db.endAll k org user actor now ids) := by
  induction ids generalizing db with
  | nil => exact Swept.refl db
  | cons id ids ih => exact ((swept_endCredential id).trans (swept_log _)).trans ih

/-- Of the ids ended, none is live. -/
theorem not_mem_of_live_endAll {ids : List String} {c : Credential}
    (hc : c ∈ (db.endAll k org user actor now ids).live k) : c.id ∉ ids := by
  induction ids generalizing db with
  | nil => exact List.not_mem_nil
  | cons id ids ih =>
    rw [List.mem_cons, not_or]
    constructor
    · have hfirst := (swept_endAll ids).live k c hc
      rw [live_log, live_endCredential_self] at hfirst
      simpa using (List.mem_filter.1 hfirst).2
    · exact ih hc

theorem conserves_endAll {ids : List String} (hn : (db.ids k).Nodup) (hids : ids.Nodup)
    (hlive : ∀ id ∈ ids, ∃ c ∈ db.live k, c.id = id ∧ c.organizationID = org) :
    Conserves db (db.endAll k org user actor now ids) := by
  induction ids generalizing db with
  | nil => exact Conserves.refl db
  | cons id ids ih =>
    rw [List.nodup_cons] at hids
    apply (conserves_endCredential hn (hlive id List.mem_cons_self)).trans
    apply ih _ hids.2
    · -- the ids still to come are not the one just ended
      intro id' hid'
      obtain ⟨c, hc, rfl, horg⟩ := hlive id' (List.mem_cons_of_mem id hid')
      refine ⟨c, ?_, rfl, horg⟩
      rw [live_log, live_endCredential_self, List.mem_filter]
      refine ⟨hc, ?_⟩
      rw [decide_eq_true_eq]
      intro heq
      exact hids.1 (heq ▸ hid')
    · exact hn.sublist (ids_endCredential k k id actor now db)

theorem swept_endKinds (ks : List CredentialKind) :
    Swept db (db.endKinds org user actor now ks) := by
  induction ks generalizing db with
  | nil => exact Swept.refl db
  | cons k ks ih => exact (swept_endAll _).trans ih

theorem not_created_of_live_endKinds {ks : List CredentialKind} {c : Credential} (hk : k ∈ ks)
    (hc : c ∈ (db.endKinds org user actor now ks).live k) :
    ¬ (c.organizationID = org ∧ c.createdBy = user) := by
  induction ks generalizing db with
  | nil => exact absurd hk List.not_mem_nil
  | cons k' ks ih =>
    rcases List.mem_cons.1 hk with rfl | hk
    · have hstage := (swept_endKinds ks).live k c hc
      have hids := not_mem_of_live_endAll hstage
      rintro ⟨horg, hby⟩
      apply hids
      rw [createdIDs, List.mem_map]
      refine ⟨c, List.mem_filter.2 ⟨(swept_endAll _).live k c hstage, ?_⟩, rfl⟩
      simp [horg, hby]
    · exact ih hk hc

theorem conserves_endKinds {ks : List CredentialKind} (hn : ∀ k, (db.ids k).Nodup) :
    Conserves db (db.endKinds org user actor now ks) := by
  induction ks generalizing db with
  | nil => exact Conserves.refl db
  | cons k ks ih =>
    have hlive : ((db.live k).map Credential.id).Nodup := (hn k).sublist (live_ids_sublist k)
    have hfirst : Conserves db
        (db.endAll k org user actor now (db.createdIDs k org user)) := by
      apply conserves_endAll (hn k)
      · exact hlive.sublist (List.filter_sublist.map _)
      · intro id hid
        obtain ⟨c, hc, rfl⟩ := List.mem_map.1 hid
        obtain ⟨hc, hby⟩ := List.mem_filter.1 hc
        simp only [Bool.and_eq_true, decide_eq_true_eq] at hby
        exact ⟨c, hc, rfl, hby.1⟩
    exact hfirst.trans (ih fun k' => (hn k').sublist ((swept_endAll _).ids k'))

theorem swept_revokeLost (org user actor : String) (now : Int) (db : Db) :
    Swept db (db.revokeLostAdminCredentials org user actor now) := by
  rw [revokeLostAdminCredentials]
  split
  · exact Swept.refl db
  · exact swept_endKinds _

theorem conserves_revokeLost (hn : ∀ k, (db.ids k).Nodup) :
    Conserves db (db.revokeLostAdminCredentials org user actor now) := by
  rw [revokeLostAdminCredentials]
  split
  · exact Conserves.refl db
  · exact conserves_endKinds hn

/-- After the sweep, a credential the user created in the organization is live only if they
administer it. -/
theorem administers_of_live_revokeLost {c : Credential}
    (hc : c ∈ (db.revokeLostAdminCredentials org user actor now).live k)
    (horg : c.organizationID = org) (hby : c.createdBy = user) :
    db.administers org user = true := by
  rw [revokeLostAdminCredentials] at hc
  split at hc
  · next h => exact h
  · have hk : k ∈ [CredentialKind.agentToken, .statusFeed, .pairingCode] := by
      cases k <;> simp
    exact absurd ⟨horg, hby⟩ (not_created_of_live_endKinds hk hc)

/-- The rows written from `db` to `db'` are all about credentials that ended. -/
def Tells (db db' : Db) : Prop :=
  ∃ rows, db'.audit = db.audit ++ rows ∧ ∀ r ∈ rows, ∃ k : CredentialKind, r.action = k.action

theorem Tells.refl (db : Db) : Tells db db :=
  ⟨[], (List.append_nil _).symm, fun _ hr => absurd hr List.not_mem_nil⟩

theorem Tells.trans {db db₁ db' : Db} (h : Tells db db₁) (h' : Tells db₁ db') : Tells db db' := by
  obtain ⟨rows, haudit, hrows⟩ := h
  obtain ⟨rows', haudit', hrows'⟩ := h'
  refine ⟨rows ++ rows', by rw [haudit', haudit, List.append_assoc], ?_⟩
  intro r hr
  rcases List.mem_append.1 hr with hr | hr
  · exact hrows r hr
  · exact hrows' r hr

theorem tells_endAll (ids : List String) : Tells db (db.endAll k org user actor now ids) := by
  induction ids generalizing db with
  | nil => exact Tells.refl db
  | cons id ids ih =>
    have hfirst : Tells db
        ((db.endCredential k id actor now).log (lostRecord k id org user actor now)) := by
      refine ⟨[lostRecord k id org user actor now], ?_, ?_⟩
      · rw [Db.log, audit_endCredential]
      · intro r hr
        rw [List.mem_singleton.1 hr]
        exact ⟨k, rfl⟩
    exact hfirst.trans ih

theorem tells_revokeLost (org user actor : String) (now : Int) (db : Db) :
    Tells db (db.revokeLostAdminCredentials org user actor now) := by
  have hkinds : ∀ ks, ∀ db : Db, Tells db (db.endKinds org user actor now ks) := by
    intro ks
    induction ks with
    | nil => exact Tells.refl
    | cons k ks ih => exact fun db => (tells_endAll _).trans (ih _)
  rw [revokeLostAdminCredentials]
  split
  · exact Tells.refl db
  · exact hkinds _ db

end Db

end KyYard.Accounts
