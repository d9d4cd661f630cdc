import KyYard.Foundation.Sha256
import KyYard.Foundation.Table
import KyYard.Foundation.Text
import KyYard.Accounts.Permissions

/-!
# The account and tenant tables

The rows of the tables that sign-in, memberships, delegated credentials and the two directories
share, with the columns their transactions read or write, and the database as the tables together.

`users.role` and `users.status` hold whatever a directory sent, so they are texts; the columns a
schema check confines (a membership's role and status, a token's scope) are inductive types, and a
nullable one is an `Option`. Instants are in nanoseconds. The correlation ids of audit rows and the
`updated_at` columns are written and never read by what is modelled, and left out.
-/

namespace KyYard.Accounts

open Foundation

/-! ## Accounts -/

/-- A row of `users`. `sso_provider` is `local` for a local account. -/
structure User where
  id : String
  username : String
  email : String
  displayName : String
  passwordHash : String
  role : String
  status : String
  ssoProvider : String
  ssoSubject : String
  totpSecretEnc : String
  totpEnabled : Bool
  recoveryCodesHash : String
  mustChangePassword : Bool
deriving DecidableEq

/-- A provider identity that signs in to an account. -/
structure SSOIdentity where
  provider : String
  subject : String
  userID : String
deriving DecidableEq

/-- A signed-in browser; `ssoProvider` and `ssoSID` name the provider login it came from, both empty
for a password. -/
structure Session where
  tokenHash : String
  userID : String
  createdAt : Int
  expiresAt : Int
  ssoProvider : String
  ssoSID : String
deriving DecidableEq

/-- A sign-in that waits for its second factor. -/
structure MFAChallenge where
  tokenHash : String
  userID : String
  expiresAt : Int
  passwordHash : String
  ssoProvider : String
  ssoSID : String
  ssoIssuedAt : Option Int
  ssoSubject : String
deriving DecidableEq

/-- A device that waits to be paired; the table has no foreign key to `users`. -/
structure DevicePairing where
  secretHash : String
  userID : String
  expiresAt : Int
deriving DecidableEq

/-! ## Tenants -/

/-- A tenant. -/
structure Organization where
  id : String
  name : String
deriving DecidableEq

/-- A part of a tenant. -/
structure Environment where
  organizationID : String
  id : String
deriving DecidableEq

/-- Whether a membership counts. -/
inductive MembershipStatus
  | active
  | disabled
deriving DecidableEq

def MembershipStatus.parse? : String → Option MembershipStatus
  | "active" => some active
  | "disabled" => some disabled
  | _ => none

/-- A member and their role. -/
structure Membership where
  organizationID : String
  userID : String
  role : TenantRole
  status : MembershipStatus
deriving DecidableEq

def Membership.key (m : Membership) : String × String := (m.organizationID, m.userID)

/-! ## Delegated credentials -/

/-- The scope of a `service_tokens` row: kyPulse's, or one of the two an AI agent's may have. -/
inductive Scope
  | pulse
  | mcpRead
  | mcpOperate
deriving DecidableEq

def Scope.name : Scope → String
  | pulse => "pulse"
  | mcpRead => "mcp:read"
  | mcpOperate => "mcp:operate"

/-- `IsAgentScope`, on what a request names. -/
def Scope.agent? : String → Option Scope
  | "mcp:read" => some mcpRead
  | "mcp:operate" => some mcpOperate
  | _ => none

/-- A token of a service or an agent. -/
structure ServiceToken where
  id : String
  organizationID : String
  name : String
  tokenHash : String
  createdBy : String
  createdAt : Int
  scope : Scope
  revokedAt : Option Int
  revokedBy : String
deriving DecidableEq

/-- A feed of the public status. -/
structure StatusFeed where
  id : String
  organizationID : String
  name : String
  tokenHash : String
  createdBy : String
  createdAt : Int
  revokedAt : Option Int
  revokedBy : String
deriving DecidableEq

/-- A code for a token, used once. -/
structure ServicePairing where
  id : String
  organizationID : String
  codeHash : String
  createdBy : String
  createdAt : Int
  expiresAt : Int
  consumedAt : Option Int
deriving DecidableEq

/-! ## Directories -/

/-- An identity of the installer's bundle. -/
structure BundleIdentity where
  issuer : String
  subject : String
deriving DecidableEq

/-- The fields of the installer's configuration that the directory reads. -/
structure InstallerBundle where
  setupID : String
  issuerURL : String
  admins : List BundleIdentity
  everyday : List BundleIdentity
deriving DecidableEq

/-- The setting `installer.user.<id>`: who the installer created the account `userID` for. -/
structure InstallerIdentity where
  userID : String
  setupID : String
  issuer : String
  subject : String
  role : String
deriving DecidableEq

/-- The setting `installer.directory.<id>`: the last directory message applied to `userID`. -/
structure InstallerFence where
  userID : String
  revision : Nat
  digest : String
deriving DecidableEq

/-- A directory event that was applied; `eventAt` is in seconds. -/
structure DirectoryEventRow where
  provider : String
  eventID : String
  eventAt : Int
deriving DecidableEq

def DirectoryEventRow.key (e : DirectoryEventRow) : String × String := (e.provider, e.eventID)

/-- The newest event applied to a subject. -/
structure DirectorySubject where
  provider : String
  subject : String
  eventAt : Int
deriving DecidableEq

def DirectorySubject.key (s : DirectorySubject) : String × String := (s.provider, s.subject)

/-! ## Audit -/

/-- A row of the audit trail. -/
structure AuditRecord where
  userID : String
  action : String
  resource : String
  details : String
  ipAddress : String
  createdAt : Int
  scope : String
  organizationID : String
  environmentID : String
  result : String
deriving DecidableEq

/-! ## The database -/

/-- The tables together. `bundle` is the installer's configuration if it is stored, decodes and is
valid. -/
structure Db where
  users : List User
  identities : List SSOIdentity
  sessions : List Session
  challenges : List MFAChallenge
  pairings : List DevicePairing
  organizations : List Organization
  environments : List Environment
  memberships : List Membership
  serviceTokens : List ServiceToken
  statusFeeds : List StatusFeed
  servicePairings : List ServicePairing
  bundle : Option InstallerBundle
  installerUsers : List InstallerIdentity
  installerFences : List InstallerFence
  directoryEvents : List DirectoryEventRow
  directorySubjects : List DirectorySubject
  audit : List AuditRecord
deriving DecidableEq

/-- A database with no row. -/
def Db.empty : Db where
  users := []
  identities := []
  sessions := []
  challenges := []
  pairings := []
  organizations := []
  environments := []
  memberships := []
  serviceTokens := []
  statusFeeds := []
  servicePairings := []
  bundle := none
  installerUsers := []
  installerFences := []
  directoryEvents := []
  directorySubjects := []
  audit := []

inductive Driver
  | sqlite
  | postgres
deriving DecidableEq

/-- What the database behind the store decides: its locking and its `LOWER`. -/
structure Backend where
  driver : Driver
  lower : String → String

/-- Why a request is refused. `unreadable` is a stored value that is missing or does not decode,
`other` an error whose text is all there is to it. -/
inductive Err
  | notFound
  | forbidden
  | noPrincipal
  | invalid
  | alreadyExists
  | lastAdmin
  | installerOwned
  | staleEvent
  | agentTokenLimit
  | statusFeedLimit
  | pairingCodesExhausted
  | usernameTaken (username : String)
  | unreadable
  | other (message : String)
deriving DecidableEq

namespace Db

variable (db : Db)

def user? (id : String) : Option User := Table.find User.id id db.users

/-- One row in the audit trail. -/
def log (r : AuditRecord) : Db := { db with audit := db.audit ++ [r] }

/-- The installer owns the account. -/
def installerOwned (id : String) : Bool := db.installerUsers.any fun i => i.userID = id

/-- `DELETE FROM users`: the foreign keys take what belongs to the account along. -/
def deleteUser (id : String) : Db :=
  { db with
    users := db.users.filter (·.id ≠ id)
    identities := db.identities.filter (·.userID ≠ id)
    sessions := db.sessions.filter (·.userID ≠ id)
    challenges := db.challenges.filter (·.userID ≠ id)
    memberships := db.memberships.filter (·.userID ≠ id) }

/-- The sessions of one account. -/
def deleteSessions (id : String) : Db :=
  { db with sessions := db.sessions.filter (·.userID ≠ id) }

/-- Sessions, pending second factors and pending devices of one account. -/
def deleteGrants (id : String) : Db :=
  { db with
    sessions := db.sessions.filter (·.userID ≠ id)
    challenges := db.challenges.filter (·.userID ≠ id)
    pairings := db.pairings.filter (·.userID ≠ id) }

end Db

/-- `crypto.SHA256Hex`. -/
def sha256Hex (bytes : List UInt8) : String := String.ofList (Text.hexEncode (Sha256.sum256 bytes))

end KyYard.Accounts
