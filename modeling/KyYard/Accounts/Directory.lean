import KyYard.Accounts.Members

/-!
# What a directory changes

Two directories write accounts. KySignOn sends signed events about the accounts it provisioned
(`apply` under `applyDirectoryEvent`); the installer's directory switches the accounts the installer
created on and off (`applyInstallerDirectory`, `revokeInstallerIdentity`). Both go through one
transaction under the audit lock.

KySignOn's changes run under the administrator quorum, so the loss of a last administrator leaves a
row. The installer's do not: `installerAvailability` sweeps the account's credentials and asks no
organization whether an administrator is left.
-/

namespace KyYard.Accounts

open Foundation
open Protocol (cleanText)

/-! ## Accounts of a provider -/

def usernameRegex : Pattern := .rep 3 64 (.one (Class.orOf Class.alnum "_-."))

/-- `ValidateUsername`. -/
def validUsername (username : String) : Bool := usernameRegex.accepts username

/-- `LocalUsername`: the claim if it is a username, otherwise a name from the identity's hash. -/
def localUsername (provider subject claimed : String) : String :=
  if validUsername claimed then claimed
  else "sso_" ++ ((sha256Hex (provider ++ "\x00" ++ subject).toUTF8.toList).take 16).toString

def installerProvider : String := "kyidentity"

namespace Db

/-- `getUserBySSO`. -/
def userBySSO (provider subject : String) (db : Db) : Option User :=
  match db.identities.find? fun i => i.provider = provider && i.subject = subject with
  | none => none
  | some i => db.user? i.userID

/-- `insertSSOIdentity`: an identity has one account, and an account one identity at a provider. -/
def insertSSOIdentity (userID provider subject : String) (db : Db) : Except Err Db :=
  match db.identities.find? fun i => i.provider = provider && i.subject = subject with
  | some i => if i.userID ≠ userID then .error .alreadyExists else .ok db
  | none =>
    if db.identities.any fun i => i.userID = userID && i.provider = provider then
      .error .alreadyExists
    else .ok { db with identities := db.identities ++ [⟨provider, subject, userID⟩] }

/-- `createUser`. -/
def createUser (b : Backend) (user : User) (db : Db) : Except Err Db :=
  if user.ssoProvider = installerProvider then .error .installerOwned
  else if db.users.any fun u =>
      u.id = user.id || b.lower u.username = b.lower user.username then
    .error .alreadyExists
  else
    let db₁ := { db with
      users := db.users ++ [{ user with
        recoveryCodesHash := if user.recoveryCodesHash = "" then "[]"
          else user.recoveryCodesHash }] }
    if user.ssoProvider = "local" ∨ user.ssoSubject = "" then .ok db₁
    else db₁.insertSSOIdentity user.id user.ssoProvider user.ssoSubject

end Db

/-- The update of `UpdateUserIdentity`: an account the installer owns keeps its name, role and
status, and a taken username is refused. -/
def identityRow (b : Backend) (user : User) (db : Db) : Except Err (Option Db) :=
  match db.user? user.id with
  | none => .ok none
  | some old =>
    if db.installerOwned user.id ∧ ¬ (old.username = user.username ∧ old.role = user.role ∧
        old.status = user.status) then
      .ok none
    else if db.users.any fun u =>
        u.id ≠ user.id && b.lower u.username = b.lower user.username then
      .error .alreadyExists
    else
      .ok (some { db with
        users := Table.updateWhere (fun u => u.id = user.id)
          (fun u => { u with
            username := user.username
            email := user.email
            displayName := user.displayName
            role := user.role
            status := user.status }) db.users })

section

variable {b : Backend} {user : User} {db db' : Db}

theorem insertSSOIdentity_frame {userID provider subject : String}
    (h : db.insertSSOIdentity userID provider subject = .ok db') :
    ∃ is, db' = { db with identities := is } := by
  unfold Db.insertSSOIdentity at h
  split at h
  all_goals
    rw [guard_error_eq_ok] at h
    exact ⟨_, (Except.ok.inj h.2).symm⟩

/-- A new account has a new id. -/
theorem createUser_frame (h : db.createUser b user = .ok db') :
    (∀ v ∈ db.users, v.id ≠ user.id) ∧ ∃ codes is, db' = { db with
      users := db.users ++ [{ user with recoveryCodesHash := codes }], identities := is } := by
  simp only [Db.createUser, guard_error_eq_ok, List.any_eq_true, not_exists, not_and,
    Bool.or_eq_true, decide_eq_true_eq, not_or] at h
  obtain ⟨-, hfresh, h⟩ := h
  refine ⟨fun v hv => (hfresh v hv).1, ?_⟩
  split at h
  · exact ⟨_, _, (Except.ok.inj h).symm⟩
  · exact ⟨_, insertSSOIdentity_frame h⟩

theorem identityRow_frame (h : identityRow b user db = .ok (some db')) :
    ∃ f, (∀ u, (f u).id = u.id ∧ (f u).passwordHash = u.passwordHash ∧
        (f u).ssoProvider = u.ssoProvider ∧ (f u).status = user.status) ∧
      db' = { db with users := Table.updateWhere (fun u => u.id = user.id) f db.users } := by
  unfold identityRow at h
  split at h
  · cases h
  split at h
  · cases h
  rw [guard_error_eq_ok] at h
  refine ⟨_, ?_, (Option.some.inj (Except.ok.inj h.2)).symm⟩
  exact fun _ => ⟨rfl, rfl, rfl, rfl⟩

end

/-- `UpdateUserIdentity`. -/
def updateUserIdentity (b : Backend) (user : User) (now : Int) : Db → Except Err Db :=
  adminQuorum b user.id true now (identityRow b user)

/-- `directoryTx.DeleteUser`. -/
def directoryDelete (b : Backend) (id : String) (now : Int) : Db → Except Err Db :=
  adminQuorum b id true now (deleteRow id)

/-! ## KySignOn -/

/-- `KySignOnSyncPayload`. -/
structure SyncPayload where
  event : String
  eventID : String
  id : String
  username : String
  email : String
  displayName : String
  role : String
  status : String
  timestamp : Int
deriving DecidableEq

def kysignon : String := "kysignon"

/-- The account an event names, refused if the directory does not own it. -/
def directoryAccount (payload : SyncPayload) (db : Db) : Except Err (Option User) :=
  match db.userBySSO kysignon payload.id with
  | none => .ok none
  | some existing =>
    if existing.ssoProvider ≠ kysignon then .error (.usernameTaken existing.username)
    else .ok (some existing)

/-- The role and the status an event asks for. -/
def SyncPayload.wantedRole (p : SyncPayload) : String := if p.role = "" then "user" else p.role

/-- The status an event asks for. -/
def SyncPayload.wantedStatus (p : SyncPayload) : String :=
  if p.status = "" then "active" else p.status

/-- An account after a created or updated event. An invalid name is a refused rename only. -/
def SyncPayload.onto (p : SyncPayload) (u : User) : User :=
  { u with
    username := if validUsername p.username then p.username else u.username
    email := p.email
    displayName := p.displayName
    role := p.wantedRole
    status := p.wantedStatus }

/-- The account a first event creates. -/
def SyncPayload.newUser (p : SyncPayload) (suffix : String) : User where
  id := "usr_" ++ suffix
  username := localUsername kysignon p.id p.username
  email := p.email
  displayName := p.displayName
  passwordHash := ""
  role := p.wantedRole
  status := p.wantedStatus
  ssoProvider := kysignon
  ssoSubject := p.id
  totpSecretEnc := ""
  totpEnabled := false
  recoveryCodesHash := ""
  mustChangePassword := false

/-- A taken username is a refusal. -/
def refused (username : String) : Err → Err
  | .alreadyExists => .usernameTaken username
  | e => e

/-- A created or updated event. -/
def applyUpsert (b : Backend) (payload : SyncPayload) (suffix : String) (now : Int) (db : Db) :
    Except Err Db :=
  match directoryAccount payload db with
  | .error e => .error e
  | .ok (some existing) =>
    match updateUserIdentity b (payload.onto existing) now db with
    | .error e => .error (refused (payload.onto existing).username e)
    | .ok db' =>
      .ok (if existing.role ≠ payload.wantedRole ∨ existing.status ≠ payload.wantedStatus then
        db'.deleteSessions existing.id else db')
  | .ok none =>
    let user := payload.newUser suffix
    if db.users.any fun u => b.lower u.username = b.lower user.username then
      .error (.usernameTaken user.username)
    else (db.createUser b user).mapError (refused user.username)

/-- A deactivated event; one about no account is applied and changes nothing. -/
def applyDeactivated (b : Backend) (payload : SyncPayload) (now : Int) (db : Db) : Except Err Db :=
  match directoryAccount payload db with
  | .error e => .error e
  | .ok none => .ok db
  | .ok (some existing) =>
    (updateUserIdentity b { existing with status := "inactive" } now db).map
      (·.deleteSessions existing.id)

/-- A deleted event. -/
def applyDeleted (b : Backend) (payload : SyncPayload) (now : Int) (db : Db) : Except Err Db :=
  match directoryAccount payload db with
  | .error e => .error e
  | .ok none => .ok db
  | .ok (some existing) => directoryDelete b existing.id now db

/-- `apply`. -/
def apply (b : Backend) (payload : SyncPayload) (suffix : String) (now : Int) (db : Db) :
    Except Err Db :=
  match payload.event with
  | "user.created" => applyUpsert b payload suffix now db
  | "user.updated" => applyUpsert b payload suffix now db
  | "user.deactivated" => applyDeactivated b payload now db
  | "user.deleted" => applyDeleted b payload now db
  | _ => .ok db

/-- Five minutes. -/
def directoryEventWindow : Int := 300000000000

/-- `time.Time.Unix` of an instant. -/
def unix (t : Int) : Int := t / 1000000000

/-- The replay records of `ApplyDirectoryEvent`: ids older than the window go, the event's own id is
new, and no newer event was applied to its subject. -/
def claimEvent (payload : SyncPayload) (now : Int) (db : Db) : Except Err Db :=
  let events := db.directoryEvents.filter fun e => ¬ e.eventAt < unix (now - directoryEventWindow)
  if events.any fun e => e.key = (kysignon, payload.eventID) then .error .staleEvent
  else if db.directorySubjects.any fun s =>
      s.key = (kysignon, payload.id) && ¬ s.eventAt ≤ payload.timestamp then
    .error .staleEvent
  else
    .ok { db with
      directoryEvents := events ++ [⟨kysignon, payload.eventID, payload.timestamp⟩]
      directorySubjects := Table.upsert DirectorySubject.key (fun _ _ => true)
        db.directorySubjects ⟨kysignon, payload.id, payload.timestamp⟩ }

/-- `ApplyDirectoryEvent` with `apply`. -/
def applyDirectoryEvent (b : Backend) (payload : SyncPayload) (suffix : String) (now : Int)
    (db : Db) : Except Err Db :=
  match claimEvent payload now db with
  | .error e => .error e
  | .ok db => apply b payload suffix now db

/-- What the webhook checks before its transaction. -/
def checkSync (payload : SyncPayload) (now : Int) : Except Err Unit :=
  if payload.timestamp = 0 ∨
      directoryEventWindow < (now - payload.timestamp * 1000000000).natAbs then
    .error (.other "webhook timestamp is missing or expired")
  else if payload.eventID = "" ∨ 128 < payload.eventID.utf8ByteSize ∨ payload.id = "" ∨
      255 < payload.id.utf8ByteSize then
    .error (.other "webhook event_id or id is missing or too long")
  else .ok ()

/-- The row of a refused event, written once its transaction is over. -/
def refusedRecord (username : String) (now : Int) : AuditRecord where
  userID := ""
  action := "auth.sso.refused"
  resource := kysignon
  details := "username=" ++ cleanText username 64
  ipAddress := ""
  createdAt := now
  scope := "platform"
  organizationID := ""
  environmentID := ""
  result := "denied"

/-- The transaction of `HandleSyncWebhook` and what its refusal leaves to be written. -/
def syncTransaction (b : Backend) (payload : SyncPayload) (suffix : String) (now : Int) (db : Db) :
    Except Refusal Db :=
  (applyDirectoryEvent b payload suffix now db).mapError fun e =>
    match e with
    | .usernameTaken username => ⟨e, some (refusedRecord username now)⟩
    | _ => ⟨e, none⟩

/-! ## The installer's directory -/

/-- `InstallerUserID`. -/
def installerUserID (issuer subject : String) : String :=
  "usr_" ++ String.ofList
    (Text.hexEncode ((Sha256.sum256 (issuer ++ "\x00" ++ subject).toUTF8.toList).take 12))

/-- `installerIdentityTx`: the identity the bundle and the account's setting agree on. -/
def installerIdentity (issuer subject : String) (db : Db) : Except Err InstallerIdentity :=
  match db.bundle with
  | none => .error .unreadable
  | some bundle =>
    if bundle.issuerURL ≠ issuer then .error .forbidden
    else
      match db.installerUsers.find? fun i => i.userID = installerUserID issuer subject with
      | none => .error .unreadable
      | some owned =>
        if owned.setupID ≠ bundle.setupID ∨ owned.issuer ≠ issuer ∨ owned.subject ≠ subject then
          .error .forbidden
        else if (owned.role = "admin" ∧ (⟨issuer, subject⟩ : BundleIdentity) ∈ bundle.admins) ∨
            (owned.role = "user" ∧ (⟨issuer, subject⟩ : BundleIdentity) ∈ bundle.everyday) then
          .ok owned
        else .error .forbidden

/-- The account is one the installer's provider signs in to, and nobody else. -/
def installerRow (id : String) (u : User) : Bool :=
  u.id = id && u.ssoProvider = installerProvider && u.passwordHash = ""

/-- The update of `installerAvailability`. -/
def installerUpdate (id : String) (active : Bool) (db : Db) : Db :=
  { db with
    users := Table.updateWhere (installerRow id)
      (fun u => { u with status := if active then "active" else "inactive" }) db.users }

/-- The sweep in some organizations, one after the other. -/
def Db.revokeIn (orgs : List String) (user actor : String) (now : Int) (db : Db) : Db :=
  orgs.foldl (fun db org => db.revokeLostAdminCredentials org user actor now) db

/-- The organizations an account is named an administrator of, whatever its state. -/
def Db.adminOrgs (user : String) (db : Db) : List String :=
  (db.memberships.filter fun m => m.userID = user && m.role = .organizationAdmin).map
    Membership.organizationID

/-- `installerAvailability`. -/
def installerAvailability (id : String) (active : Bool) (now : Int) (db : Db) : Except Err Db :=
  if (db.users.filter (installerRow id)).length ≠ 1 then .error .forbidden
  else if active then .ok (installerUpdate id true db)
  else
    let db₁ := (installerUpdate id false db).deleteGrants id
    .ok (db₁.revokeIn (db₁.adminOrgs id) id "directory" now)

/-- `installerAudit`. -/
def installerAudit (action target details : String) (now : Int) : AuditRecord where
  userID := "installer"
  action := action
  resource := target
  details := details
  ipAddress := "installer-local"
  createdAt := now
  scope := "platform"
  organizationID := ""
  environmentID := ""
  result := "success"

/-- A message of the installer's directory. -/
structure InstallerMessage where
  issuer : String
  subject : String
  event : String
  revision : String
  digest : String
  assigned : Bool
  admin : Bool
deriving DecidableEq

/-- The revision a message carries: a positive decimal of 64 bits, written the canonical way. -/
def InstallerMessage.number (m : InstallerMessage) : Option Nat :=
  match Text.decimal? m.revision.toList with
  | none => none
  | some n => if n ≠ 0 ∧ n < 2 ^ 64 ∧ Text.itoa n = m.revision then some n else none

/-- The checks of a message. -/
def InstallerMessage.wellFormed (m : InstallerMessage) : Except Err Nat :=
  match m.number with
  | none => .error (.other "invalid directory revision or digest")
  | some n =>
    if m.digest.utf8ByteSize ≠ 64 then .error (.other "invalid directory revision or digest")
    else if ¬ m.digest.toList.all (fun c => Class.hex c || ('A' ≤ c && c ≤ 'F')) then
      .error (.other "invalid directory digest")
    else if m.event ∉ ["user.created", "user.updated", "user.deactivated", "user.deleted"] then
      .error (.other "unsupported directory event")
    else .ok n

/-- The message leaves the account available. -/
def InstallerMessage.active (m : InstallerMessage) (owned : InstallerIdentity) : Bool :=
  m.assigned && m.admin = decide (owned.role = "admin") && m.event ≠ "user.deleted" &&
    m.event ≠ "user.deactivated"

/-- What the fence says of a message: `none` for one that was applied before. -/
def fenced (n : Nat) (digest : String) : Option InstallerFence → Except Err (Option Unit)
  | none => .ok (some ())
  | some last =>
    if last.revision = 0 then .error (.other "corrupt directory fence")
    else if n < last.revision ∨ n = last.revision ∧ digest ≠ last.digest then
      .error (.other "stale or conflicting directory revision")
    else if n = last.revision then .ok none
    else .ok (some ())

/-- What a message asks for before anything is written: its revision and whether the account is to be
available, or `none` if it was applied before. -/
def InstallerMessage.asks (m : InstallerMessage) (db : Db) : Except Err (Option (Nat × Bool)) :=
  match m.wellFormed with
  | .error e => .error e
  | .ok n =>
    match installerIdentity m.issuer m.subject db with
    | .error e => .error e
    | .ok owned =>
      (fenced n m.digest (Table.find InstallerFence.userID (installerUserID m.issuer m.subject)
        db.installerFences)).map (·.map fun () => (n, m.active owned))

/-- The fence of a message, stored with its effect. -/
def Db.putFence (f : InstallerFence) (db : Db) : Db :=
  { db with
    installerFences := Table.upsert InstallerFence.userID (fun _ _ => true) db.installerFences f }

/-- `ApplyInstallerDirectory`. -/
def applyInstallerDirectory (m : InstallerMessage) (now : Int) (db : Db) : Except Err Db :=
  match m.asks db with
  | .error e => .error e
  | .ok none => .ok db
  | .ok (some (n, active)) =>
    (installerAvailability (installerUserID m.issuer m.subject) active now db).map fun db' =>
      (db'.putFence ⟨installerUserID m.issuer m.subject, n, m.digest⟩).log
        (installerAudit "installer.directory_applied" (installerUserID m.issuer m.subject)
          (m.revision ++ ":" ++ m.digest ++ ":" ++ m.event) now)

/-- The account `RevokeInstallerIdentity` finds still available. -/
def installerAvailable (issuer subject : String) (db : Db) : Except Err Bool :=
  match installerIdentity issuer subject db with
  | .error e => .error e
  | .ok _ =>
    match db.user? (installerUserID issuer subject) with
    | none => .error .unreadable
    | some u => .ok (u.status ≠ "inactive")

/-- `RevokeInstallerIdentity`. -/
def revokeInstallerIdentity (issuer subject : String) (now : Int) (db : Db) : Except Err Db :=
  match installerAvailable issuer subject db with
  | .error e => .error e
  | .ok false => .ok db
  | .ok true =>
    (installerAvailability (installerUserID issuer subject) false now db).map
      (·.log (installerAudit "installer.app_role_lost" (installerUserID issuer subject) "" now))

end KyYard.Accounts
