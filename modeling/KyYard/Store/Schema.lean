import KyYard.Foundation.Table
import KyYard.Protocol.Result
import KyYard.Store.Spec

/-!
# The store's tables

The rows of the tables that deployments, update policies, health validations and image checks share,
with the columns their transactions read or write, and the database as the tables together. Every
row belongs to one organization and environment for good, so the tenant columns are left out: these
are the tables of one organization.

A column with a closed vocabulary is an inductive type, a nullable one an `Option`. Instants are in
nanoseconds.
-/

namespace KyYard.Store

open Foundation Protocol

/-! ## Applications and instances -/

/-- An application and its newest revision. -/
structure Application where
  id : String
  name : String
  latestRevision : Nat
  removedAt : Option Int
deriving DecidableEq

/-- A revision; `intact` says that its stored text matches its digest and decodes to `spec`. -/
structure Revision where
  applicationID : String
  number : Nat
  spec : ApplicationSpec
  intact : Bool
deriving DecidableEq

/-- An adopted application: on Docker `ns` is empty. `revision` is the one adoption recorded,
`currentRevision` the one the last succeeded apply deployed, 0 before the first. -/
structure Instance where
  id : String
  applicationID : String
  endpointID : String
  project : String
  ns : String
  revision : Nat
  currentRevision : Nat
  previousRevision : Nat
  mappingVersion : Nat
  mappedRevision : Nat
deriving DecidableEq

/-- A container an instance owns; `serviceName` is empty while no service is mapped to it. -/
structure Resource where
  instanceID : String
  endpointID : String
  containerID : String
  name : String
  imageID : String
  createdUnix : Int
  serviceName : String
deriving DecidableEq

/-! ## Deployments -/

/-- A named object in a namespace. -/
structure KubernetesObject where
  ns : String
  name : String
deriving DecidableEq

/-- A service of a plan. A pulled service has a digest, a cluster service an object. -/
structure PlannedService where
  name : String
  imageID : String
  containerID : String
  replaces : InspectionTarget
  pullReference : String
  pullDigest : String
  object : Option KubernetesObject
  claimMounts : List KubernetesMount
deriving DecidableEq

/-- A container to remove, pinned. -/
structure RemovalPlanTarget where
  service : String
  containerID : String
  imageID : String
  createdUnix : Int
  name : String
deriving DecidableEq

/-- What a row decided: the services an apply replaces or the containers a removal deletes. `ns` is
set exactly for a cluster. -/
structure DeploymentPlan where
  project : String
  services : List PlannedService
  containers : List RemovalPlanTarget
  ns : String
  claims : List KubernetesClaim
deriving DecidableEq

/-- What a row is for. -/
inductive DeploymentKind
  | apply
  | remove
deriving DecidableEq

/-- How far a row got. -/
inductive DeploymentState
  | planned
  | applying
  | succeeded
  | failed
  | denied
  | timedOut
  | unknown
deriving DecidableEq

/-- Planned or applying: what the unique index on live rows counts. -/
def DeploymentState.live : DeploymentState → Bool
  | planned => true
  | applying => true
  | _ => false

/-- An outcome that closes a row. -/
def DeploymentState.terminal : DeploymentState → Bool
  | succeeded => true
  | failed => true
  | denied => true
  | timedOut => true
  | _ => false

/-- A row of the deployment history. -/
structure Deployment where
  id : String
  applicationID : String
  instanceID : String
  endpointID : String
  kind : DeploymentKind
  state : DeploymentState
  revision : Nat
  mappingVersion : Nat
  plan : DeploymentPlan
  createdAt : Int
  expiresAt : Int
  deadline : Option Int
  settledAt : Option Int
  detail : String
  result : Option StoredDeploymentResult
  correlationID : String
  policyRunID : Option String
deriving DecidableEq

/-! ## Update policies -/

/-- What a policy does with an update. -/
inductive PolicyMode
  | apply
  | planOnly
deriving DecidableEq

/-- Whether it has runs. -/
inductive PolicyStatus
  | active
  | paused
deriving DecidableEq

/-- A weekly window: minutes of the day on some weekdays, Sunday being 0. It never crosses
midnight. -/
structure Window where
  weekdays : List Nat
  startMinute : Nat
  endMinute : Nat
  ordered : startMinute < endMinute
  bounded : endMinute ≤ 1440
deriving DecidableEq

/-- The update policy of an application. -/
structure UpdatePolicy where
  id : String
  applicationID : String
  createdBy : String
  mode : PolicyMode
  timezone : String
  window : Window
  status : PolicyStatus
  pausedReason : String
  consecutiveFailures : Nat
  createdAt : Int
  updatedAt : Int
deriving DecidableEq

/-- How a policy's run ended. -/
inductive RunOutcome
  | skippedMissed
  | skippedBusy
  | noUpdate
  | planned
  | applied
  | blocked
  | failed
  | paused
deriving DecidableEq

/-- A run of a policy for the window that starts at `occurrence`; `outcome` is `none` while it is in
flight. -/
structure PolicyRun where
  id : String
  policyID : String
  applicationID : String
  occurrence : Int
  startedAt : Int
  finishedAt : Option Int
  outcome : Option RunOutcome
  deploymentID : Option String
  detail : String
  correlationID : String
deriving DecidableEq

/-! ## Validations -/

/-- How far a validation got. -/
inductive Phase
  | grace
  | observing
  | done
deriving DecidableEq

/-- What a validation found. -/
inductive Verdict
  | healthy
  | unhealthy
  | exited
  | restarting
  | unverifiable
  | changed
deriving DecidableEq

/-- The failures an automated update is rolled back for. -/
def Verdict.rollback : Verdict → Bool
  | unhealthy => true
  | exited => true
  | restarting => true
  | _ => false

/-- What became of a rollback. -/
inductive RollbackOutcome
  | applied
  | ineligible
  | failed
deriving DecidableEq

/-- The health validation of a succeeded apply. -/
structure Validation where
  deploymentID : String
  applicationID : String
  instanceID : String
  endpointID : String
  policyRunID : Option String
  automated : Bool
  isRollback : Bool
  phase : Phase
  startedAt : Int
  observeUntil : Int
  verdict : Option Verdict
  detail : String
  baseline : String
  rollbackDeploymentID : Option String
  rollbackOutcome : Option RollbackOutcome
  rollbackDetail : String
  correlationID : String
  finishedAt : Option Int
deriving DecidableEq

/-! ## Image checks and the audit log -/

/-- What a check found. -/
inductive CheckVerdict
  | current
  | updateAvailable
  | pinned
  | unknownLocal
  | registryError
deriving DecidableEq

/-- A service's image check. `readAt` is no column: it says when the local digest was read. -/
structure ImageCheck where
  instanceID : String
  serviceName : String
  reference : String
  localDigest : String
  remoteDigest : String
  verdict : CheckVerdict
  detail : String
  checkedAt : Int
  readAt : Int
deriving DecidableEq

inductive AuditAction
  | applicationDeploy
  | applicationDestroy
  | policyRun
  | policyPaused
  | validation
deriving DecidableEq

inductive AuditResult
  | success
  | failure
  | denied
  | unknown
deriving DecidableEq

/-- A row of the audit log. -/
structure AuditRecord where
  userID : String
  action : AuditAction
  resource : String
  details : String
  createdAt : Int
  correlationID : String
  result : AuditResult
deriving DecidableEq

/-! ## The database -/

/-- The tables together. -/
structure Db where
  applications : List Application
  revisions : List Revision
  instances : List Instance
  resources : List Resource
  deployments : List Deployment
  policies : List UpdatePolicy
  runs : List PolicyRun
  validations : List Validation
  imageChecks : List ImageCheck
  audit : List AuditRecord
deriving DecidableEq

/-- A new server's store. -/
def Db.empty : Db := ⟨[], [], [], [], [], [], [], [], [], []⟩

/-- Why a transaction is refused. Nothing is written then. `alreadyExists` stands for every violated
unique index. -/
inductive StoreError
  | invalid
  | notFound
  | alreadyExists
  | unreadableResult
  | adoptionChanged
  | applicationAdopted
  | applicationLimit
  | revisionConflict
  | revisionCorrupt
  | deploymentInProgress
  | deploymentPlanned
  | endpointOffline
  | runtimeUnsupported
  | namespaceUnknown
  | removalTooLarge
  | blocked
  | policyChanged
  | policyNotPaused
  | mappingRequired
  | invalidMode
  | invalidTimezone
  | invalidWeekdays
  | invalidWindow
deriving DecidableEq

/-! ## Reading and deleting -/

namespace Db

def application? (db : Db) (id : String) : Option Application :=
  Table.find Application.id id db.applications

def revision? (db : Db) (app : String) (number : Nat) : Option Revision :=
  db.revisions.find? fun r => r.applicationID = app && r.number = number

def instance? (db : Db) (id : String) : Option Instance := Table.find Instance.id id db.instances

/-- The instance of an application, which has at most one. -/
def instanceOf? (db : Db) (app : String) : Option Instance :=
  Table.find Instance.applicationID app db.instances

def deployment? (db : Db) (id : String) : Option Deployment :=
  Table.find Deployment.id id db.deployments

/-- The instance's planned or applying row. -/
def live? (db : Db) (instanceID : String) : Option Deployment :=
  db.deployments.find? fun d => d.instanceID = instanceID && d.state.live

def policy? (db : Db) (id : String) : Option UpdatePolicy :=
  Table.find UpdatePolicy.id id db.policies

def run? (db : Db) (id : String) : Option PolicyRun := Table.find PolicyRun.id id db.runs

def validation? (db : Db) (deployment : String) : Option Validation :=
  Table.find Validation.deploymentID deployment db.validations

/-- A deployment takes its validation with it. -/
def deleteDeployments (p : Deployment → Bool) (db : Db) : Db :=
  { db with
    deployments := db.deployments.filter fun d => !p d
    validations := db.validations.filter fun v =>
      !db.deployments.any fun d => p d && d.id = v.deploymentID }

/-- Forgets the checks of an instance. -/
def clearImageChecks (instanceID : String) (db : Db) : Db :=
  { db with imageChecks := db.imageChecks.filter fun c => c.instanceID ≠ instanceID }

/-- An instance takes its containers and image checks with it; its deployments stay. -/
def deleteInstance (id : String) (db : Db) : Db :=
  { db with
    instances := db.instances.filter fun i => i.id ≠ id
    resources := db.resources.filter fun r => r.instanceID ≠ id
    imageChecks := db.imageChecks.filter fun c => c.instanceID ≠ id }

/-- A policy takes its runs with it, and what names a run forgets it. -/
def deletePolicies (p : UpdatePolicy → Bool) (db : Db) : Db :=
  let gone (run : PolicyRun) := db.policies.any fun q => p q && q.id = run.policyID
  let keep (run : Option String) :=
    run.filter fun id => !db.runs.any fun r => gone r && r.id = id
  { db with
    policies := db.policies.filter fun q => !p q
    runs := db.runs.filter fun r => !gone r
    deployments := db.deployments.map fun d => { d with policyRunID := keep d.policyRunID }
    validations := db.validations.map fun v => { v with policyRunID := keep v.policyRunID } }

/-- An application takes its revisions, deployments and policy with it. -/
def deleteApplication (id : String) (db : Db) : Db :=
  let db := (db.deletePolicies (·.applicationID = id)).deleteDeployments (·.applicationID = id)
  { db with
    revisions := db.revisions.filter fun r => r.applicationID ≠ id
    applications := db.applications.filter fun a => a.id ≠ id }

end Db

end KyYard.Store
