import KyYard.Store.Adoption
import KyYard.Store.ClusterClaims

/-!
# Deployment transactions

A plan is inserted, applied, and settled by the agent's result or by what the server knows without
one; a removal starts as an applying row. `settleDeployment` is the one writer of outcomes. What a
transaction reads beside the tables comes as an argument: the endpoint's row, what the inventory and
the registry say about the images, whether the frame can be built and sent.

The lemmas `..._ok` say what each transaction checked and wrote when it committed.
-/

namespace KyYard.Store

open Foundation Protocol

/-- How long a plan may be applied. -/
def deploymentPlanTTL : Int := 10 * 60 * second
/-- How long an apply may take. -/
def deploymentApplyDeadline : Int := 10 * 60 * second
def sweepSlack : Int := 2 * 60 * second
def maxDeploymentResultStoredBytes : Nat := 160 * 1024

/-- A request id, never empty: the caller's, or a fresh one. -/
abbrev RequestID := { s : String // s ≠ "" }

/-! ## Audit rows -/

/-- A removal is audited as a destruction. -/
def DeploymentKind.action : DeploymentKind → AuditAction
  | .apply => .applicationDeploy
  | .remove => .applicationDestroy

def Deployment.resource (d : Deployment) : String :=
  cleanText (d.applicationID ++ "/deployments/" ++ d.id) 255

/-- The audit row of a decision. -/
def Deployment.auditRow (d : Deployment) (user outcome : String) (result : AuditResult)
    (now : Int) : AuditRecord :=
  ⟨user, d.kind.action, d.resource, "outcome=" ++ outcome, now, d.correlationID, result⟩

def auditResults : Outcome → AuditResult
  | .succeeded => .success
  | .failed | .timedOut => .failure
  | .denied => .denied
  | .unknown | .skipped => .unknown

/-! ## Plans -/

/-- What the operator saw when planning. -/
structure PlanRequest where
  instanceID : String
  mappingVersion : Nat
  revision : Nat
  confirm : String

/-- What a plan takes from outside the tables: the endpoint's runtime, each service's image and, if
it is pulled, its reference and digest, and whether anything else blocks the plan. -/
structure PlanContext where
  runtime : Runtime
  unchanged : Bool
  imageID : String → String
  pullReference : String → String
  pullDigest : String → String
  blocked : Bool

/-- The container of an instance that is bound to a service. -/
def Db.bound? (db : Db) (instanceID service : String) : Option Resource :=
  db.resources.find? fun r => r.instanceID = instanceID && r.serviceName = service && service ≠ ""

/-- A Docker service of a plan names the container it replaces. -/
def dockerService (db : Db) (i : Instance) (c : PlanContext) (s : ApplicationService) :
    PlannedService :=
  let r := db.bound? i.id s.name
  { name := s.name
    imageID := c.imageID s.name
    containerID := (r.map Resource.containerID).getD ""
    replaces := (r.map fun r => ⟨r.containerID, r.imageID, r.createdUnix⟩).getD .zero
    pullReference := c.pullReference s.name
    pullDigest := c.pullDigest s.name
    object := none
    claimMounts := [] }

/-- A cluster service of a plan names its object and the claims it mounts. -/
def clusterService (i : Instance) (spec : ApplicationSpec) (c : PlanContext)
    (s : ApplicationService) : PlannedService :=
  { name := s.name
    imageID := ""
    containerID := ""
    replaces := .zero
    pullReference := c.pullReference s.name
    pullDigest := c.pullDigest s.name
    object := some ⟨i.ns, ((kubernetesNames i.project spec.serviceNames).get? s.name).getD ""⟩
    claimMounts := (kubernetesClaims i.project spec).2 s.name }

/-- The plan a draft decides on. -/
def draftPlan (db : Db) (i : Instance) (spec : ApplicationSpec) (c : PlanContext) :
    DeploymentPlan :=
  if i.ns = "" then ⟨i.project, spec.services.map (dockerService db i c), [], "", []⟩
  else
    ⟨i.project, spec.services.map (clusterService i spec c), [], i.ns,
      (kubernetesClaims i.project spec).1⟩

/-- On Docker a plan covers every container of the instance: each is bound, to a service of the
revision, and each service has one. The mapping was reviewed at the latest revision. -/
def mappingCovers (db : Db) (a : Application) (i : Instance) (spec : ApplicationSpec) : Bool :=
  let owned := db.resources.filter fun r => r.instanceID = i.id && r.endpointID = i.endpointID
  owned ≠ [] && i.mappingVersion ≠ 0 && i.mappedRevision = a.latestRevision &&
    owned.all (fun r => spec.serviceNames.contains r.serviceName) &&
    spec.serviceNames.all fun s => owned.any fun r => r.serviceName = s

/-- Inserts a row; its instance has no other live one. -/
def Db.insertDeployment (d : Deployment) (db : Db) : Except StoreError Db :=
  if db.deployments.any fun e =>
      e.id = d.id || (d.state.live && e.state.live && e.instanceID = d.instanceID) then
    .error .alreadyExists
  else .ok { db with deployments := db.deployments ++ [d] }

/-- Replaces the instance's planned row; a running one refuses. -/
def insertPlan (d : Deployment) (db : Db) : Except StoreError Db :=
  match db.live? d.instanceID with
  | none => db.insertDeployment d
  | some l =>
    if l.state = .applying then .error .deploymentInProgress
    else (db.deleteDeployments (·.id = l.id)).insertDeployment d

/-- The plan's row. -/
def plannedRow (id : String) (i : Instance) (revision : Nat) (plan : DeploymentPlan)
    (correlation : RequestID) (now : Int) : Deployment :=
  { id := id, applicationID := i.applicationID, instanceID := i.id, endpointID := i.endpointID
    kind := .apply
    state := .planned, revision := revision, mappingVersion := i.mappingVersion, plan := plan
    createdAt := now, expiresAt := now + deploymentPlanTTL, deadline := none, settledAt := none
    detail := "", result := none, correlationID := correlation.1, policyRunID := none }

/-- The revision a request plans: the latest one if it names none. -/
def PlanRequest.number (r : PlanRequest) (a : Application) : Nat :=
  if r.revision = 0 then a.latestRevision else r.revision

/-- `PlanDeployment`. -/
def planDeployment (app id : String) (r : PlanRequest) (c : PlanContext)
    (correlation : RequestID) (now : Int) (db : Db) : Except StoreError Db :=
  match db.application? app, db.instanceOf? app with
  | some a, some i =>
    if (c.runtime = .kubernetes) ≠ (i.ns ≠ "") then .error .runtimeUnsupported
    else if c.unchanged = false then .error .adoptionChanged
    else
      match db.revision? app (r.number a) with
      | none => .error .notFound
      | some rev =>
        if rev.intact = false ∨ validateApplicationSpec rev.spec = false then
          .error .revisionCorrupt
        else if r.instanceID ≠ i.id ∨ r.mappingVersion ≠ i.mappingVersion ∨
            r.confirm ≠ i.project then .error .adoptionChanged
        else if c.blocked = true ∨ (i.ns = "" ∧ mappingCovers db a i rev.spec = false) then
          .error .blocked
        else
          insertPlan
            (plannedRow id i (r.number a) (draftPlan db i rev.spec c) correlation now) db
  | _, _ => .error .notFound

/-! ## Applying a plan -/

/-- What an apply takes from outside the tables: the endpoint's state, and whether the rest of the
frame can be built and accepted (values, registries, capabilities, size). -/
structure ApplyContext where
  active : Bool
  frame : Bool

/-- The policy a run or a rollback acts for, the caller, and the run to record. -/
structure PolicyGuard where
  policy : String
  actor : String
  run : Option String

/-- The policy must still exist, be active, apply and act as the caller. -/
def PolicyGuard.holds (g : PolicyGuard) (app : String) (db : Db) : Bool :=
  (db.policy? g.policy).any fun p =>
    p.applicationID = app && p.status = .active && p.mode = .apply && p.createdBy = g.actor

/-- What the frame checks of the tables: the plan names the revision's services in order; on Docker
each still owns the container it replaces, on a cluster the namespace is still the plan's and every
service is pinned. -/
def frameMatches (d : Deployment) (i : Instance) (db : Db) : Bool :=
  match db.revision? d.applicationID d.revision with
  | none => false
  | some rev =>
    rev.intact && rev.spec.serviceNames = d.plan.services.map PlannedService.name &&
      d.correlationID ≠ "" &&
      if d.plan.ns = "" then
        d.plan.services.all fun s => db.resources.any fun r =>
          r.instanceID = d.instanceID && r.endpointID = d.endpointID &&
            r.containerID = s.containerID
      else i.ns = d.plan.ns && d.plan.services.all fun s => s.pullDigest ≠ "" && s.object.isSome

/-- The row once its frame is on the way. -/
def Deployment.started (d : Deployment) (run : Option String) (now : Int) : Deployment :=
  { d with
    state := .applying, deadline := some (now + deploymentApplyDeadline), policyRunID := run }

/-- `ApplyDeployment`. -/
def applyDeployment (app id confirm : String) (guard : Option PolicyGuard) (c : ApplyContext)
    (now : Int) (db : Db) : Except StoreError Db :=
  match db.application? app with
  | none => .error .notFound
  | some a =>
    if guard.any (fun g => !g.holds app db) then .error .policyChanged
    else
      match (db.deployment? id).filter (·.applicationID = app) with
      | none => .error .notFound
      | some d =>
        if d.state = .applying then .error .deploymentInProgress
        else if confirm ≠ d.plan.project then .error .invalid
        else if d.kind ≠ .apply ∨ d.state ≠ .planned ∨ d.expiresAt ≤ now ∨ d.revision < 1 ∨
            a.latestRevision < d.revision then .error .adoptionChanged
        else
          match (db.instance? d.instanceID).filter (·.endpointID = d.endpointID) with
          | none => .error .adoptionChanged
          | some i =>
            if i.mappingVersion ≠ d.mappingVersion then .error .adoptionChanged
            else if c.active = false then .error .endpointOffline
            else if frameMatches d i db = false then .error .adoptionChanged
            else if c.frame = false then .error .invalid
            else
              .ok { db with
                deployments := Table.updateWhere (fun e => e.id = id && e.state = .planned)
                  (·.started (guard.bind PolicyGuard.run) now) db.deployments }

/-! ## Outcomes without a result -/

/-- Moves the rows a filter selects, with one audit row each under the system actor. -/
def systemTransition (p : Deployment → Bool) (set : Deployment → Deployment) (outcome : String)
    (result : AuditResult) (now : Int) (db : Db) : Db :=
  { db with
    deployments := Table.updateWhere p set db.deployments
    audit := db.audit ++ (db.deployments.filter p).map (·.auditRow "system" outcome result now) }

/-- A row whose frame never left. -/
def Deployment.unsent (d : Deployment) (detail : String) (now : Int) : Deployment :=
  { d with state := .failed, detail := cleanText detail 255, settledAt := some now }

/-- The frame never left the server; a disconnect may have abandoned the row first. -/
def failDeployment (id detail : String) (now : Int) (db : Db) : Db :=
  systemTransition (fun d => d.id = id && (d.state = .applying || d.state = .unknown))
    (·.unsent detail now)
    "not_sent" .failure now db

/-- The row whose outcome nobody knows, and why. -/
def Deployment.lost (d : Deployment) (detail : String) : Deployment :=
  { d with state := .unknown, detail := detail }

/-- The endpoint's connection ended. -/
def abandonDeployments (endpointID : String) (now : Int) (db : Db) : Db :=
  systemTransition (fun d => d.endpointID = endpointID && d.state = .applying)
    (·.lost "the connection ended before a result arrived")
    "abandoned" .unknown now db

/-- Applying rows past their deadline, plus slack for a result in flight. -/
def sweepDeployments (now : Int) (db : Db) : Db :=
  systemTransition (fun d => d.state = .applying && d.deadline.any (· < now - sweepSlack))
    (·.lost "no result arrived before the deadline")
    "swept" .unknown now db

/-! ## Settling -/

/-- A newer row of the instance was applied or settled. -/
def Db.actedSince (db : Db) (d : Deployment) : Bool :=
  db.deployments.any fun n =>
    n.instanceID = d.instanceID && d.createdAt < n.createdAt && n.state ≠ .planned

/-- A row that may still take a result: applying, or unknown while its instance exists and nothing
newer was acted on. -/
def Db.settleable (db : Db) (d : Deployment) : Bool :=
  d.state = .applying ||
    (d.state = .unknown && (db.instance? d.instanceID).isSome && !db.actedSince d)

/-- The row a result of the endpoint may settle. -/
def Db.settleable? (db : Db) (endpointID id : String) : Option Deployment :=
  (db.deployment? id).filter fun d => d.endpointID = endpointID && db.settleable d

/-- The planned service of a name; of two, the last. -/
def DeploymentPlan.service? (plan : DeploymentPlan) (name : String) : Option PlannedService :=
  plan.services.reverse.find? fun s => s.name = name

/-- Each identity names a planned service of its own and passes the runtime's check, and a success
accounts for every service. -/
def identitiesFit (fits : PlannedService → DeploymentIdentity → Bool) (plan : DeploymentPlan)
    (res : DeploymentResult) : Bool :=
  (res.services.map DeploymentIdentity.service).Nodup &&
    res.services.all (fun id => (plan.service? id.service).any (fits · id)) &&
    (res.outcome ≠ some .succeeded || res.services.length = plan.services.length)

/-- A container runs the pinned image or, pulled, the planned digest. -/
def dockerFits (s : PlannedService) (id : DeploymentIdentity) : Bool :=
  id.kind = .container &&
    if s.pullDigest ≠ "" then id.imageDigest = s.pullDigest else id.imageID = s.imageID

/-- A Deployment stands in the planned namespace, under the planned name, at the planned digest. -/
def clusterFits (s : PlannedService) (id : DeploymentIdentity) : Bool :=
  s.object.any fun o => id.kind = .deployment && id.ns = o.ns && id.name = o.name &&
    id.imageDigest = s.pullDigest

/-- The container a service replaced gives way to the one the agent reports. -/
def rebind (instanceID endpointID : String) (plan : DeploymentPlan) (rs : List Resource)
    (id : DeploymentIdentity) : Except StoreError (List Resource) :=
  let old := ((plan.service? id.service).map PlannedService.containerID).getD ""
  let isOld (r : Resource) : Bool :=
    r.instanceID = instanceID && r.endpointID = endpointID && r.containerID = old
  match rs.find? isOld with
  | none => .error .adoptionChanged
  | some r =>
    insertResource (rs.filter fun r => !isOld r)
      ⟨instanceID, endpointID, id.containerID, r.name, id.imageID, id.createdUnix, id.service⟩

/-- An apply binds the containers reported. -/
def settleApply (endpointID instanceID : String) (plan : DeploymentPlan) (res : DeploymentResult)
    (db : Db) : Except StoreError Db :=
  let cleared (db : Db) :=
    if res.outcome = some .succeeded then db.clearImageChecks instanceID else db
  if plan.ns ≠ "" then
    if identitiesFit clusterFits plan res then .ok (cleared db) else .error .invalid
  else if identitiesFit dockerFits plan res = false then .error .invalid
  else
    match res.services.foldlM (rebind instanceID endpointID plan) db.resources with
    | .error e => .error e
    | .ok rs => .ok (cleared { db with resources := rs })

/-- A removed instance is forgotten and its application marked. -/
def releaseRemoved (app instanceID : String) (now : Int) (db : Db) : Db :=
  let db := db.deleteInstance instanceID
  { db with
    applications := Table.updateWhere (fun a => a.id = app)
      (fun a => { a with removedAt := some now }) db.applications }

/-- What a step of a service reported. -/
def stepOutcome (res : DeploymentResult) (service : String) (step : StepName) : Option Outcome :=
  (res.steps.find? fun s => s.service = service && s.step = step).map DeploymentStep.outcome

/-- The steps show the service's container off the host: its precondition matched, and it was
removed or already gone. -/
def offHost (res : DeploymentResult) (service : String) : Bool :=
  stepOutcome res service .precondition = some .succeeded &&
    (stepOutcome res service .remove = some .succeeded ||
      (stepOutcome res service .stop = some .skipped &&
        stepOutcome res service .remove = some .skipped))

/-- A cluster removal reports preconditions, removals and the claims it kept. -/
def clusterRemovalStep (s : DeploymentStep) : Bool :=
  s.step = .precondition || s.step = .remove ||
    (s.step = .volume && s.outcome = .skipped && s.detail = detailRetained)

/-- A Docker removal reports three steps of each target, each once. -/
def dockerRemovalSteps (plan : DeploymentPlan) (res : DeploymentResult) : Bool :=
  (res.steps.all fun s => plan.containers.any (fun c => c.service = s.service) &&
    (s.step = .precondition || s.step = .stop || s.step = .remove)) &&
    (res.steps.map fun s => (s.service, s.step)).Nodup

/-- The container a removal's target names; of two under one service, the last. -/
def DeploymentPlan.target (plan : DeploymentPlan) (service : String) : String :=
  ((plan.containers.reverse.find? fun c => c.service = service).map
    RemovalPlanTarget.containerID).getD ""

/-- A removal releases what is gone. -/
def settleRemoval (endpointID app instanceID : String) (plan : DeploymentPlan)
    (res : DeploymentResult) (now : Int) (db : Db) : Except StoreError Db :=
  let released (db : Db) :=
    if res.outcome = some .succeeded then releaseRemoved app instanceID now db else db
  if res.services ≠ [] then .error .invalid
  else if plan.ns ≠ "" then
    if res.steps.all clusterRemovalStep then .ok (released db) else .error .invalid
  else if dockerRemovalSteps plan res = false then .error .invalid
  else
    let targets := (plan.containers.map RemovalPlanTarget.service).dedup
    let gone := targets.filter (offHost res)
    if res.outcome = some .succeeded ∧ gone.length ≠ targets.length then .error .invalid
    else
      .ok (released { db with
        resources := db.resources.filter fun r =>
          !(r.instanceID = instanceID && r.endpointID = endpointID &&
            gone.any fun s => plan.target s = r.containerID) })

/-! ## The writer of outcomes -/

def validationGrace : Int := 30 * second
def validationWindow : Int := 2 * 60 * second

/-- The validation of a succeeded apply: automated if a policy run applied the deployment, a
rollback's if a validation named the deployment as its rollback. -/
def openedValidation (d : Deployment) (now : Int) (db : Db) : Validation :=
  { deploymentID := d.id, applicationID := d.applicationID, instanceID := d.instanceID
    endpointID := d.endpointID, policyRunID := d.policyRunID, automated := d.policyRunID.isSome
    isRollback := db.validations.any fun v => v.rollbackDeploymentID = some d.id
    phase := .grace, startedAt := now, observeUntil := now + (validationGrace + validationWindow)
    verdict := none, detail := "", baseline := "", rollbackDeploymentID := none
    rollbackOutcome := none, rollbackDetail := "", correlationID := d.correlationID
    finishedAt := none }

/-- The state an outcome gives a row; a skip is no outcome of a result. -/
def outcomeState? : Outcome → Option DeploymentState
  | .succeeded => some .succeeded
  | .failed => some .failed
  | .denied => some .denied
  | .timedOut => some .timedOut
  | .unknown => some .unknown
  | .skipped => none

/-- The row with its outcome. -/
def Deployment.settled (d : Deployment) (st : DeploymentState) (res : DeploymentResult)
    (now : Int) : Deployment :=
  { d with state := st, detail := "", result := some res.stored, settledAt := some now }

/-- An apply that succeeded becomes the instance's current revision. -/
def Db.promote (d : Deployment) (db : Db) : Db :=
  { db with
    instances := Table.updateWhere (fun i => i.id = d.instanceID)
      (fun i => { i with previousRevision := i.currentRevision, currentRevision := d.revision })
      db.instances }

/-- A plan made against the containers a late answer replaces is expired. -/
def Db.expireNewer (d : Deployment) (now : Int) (db : Db) : Db :=
  { db with
    deployments := Table.updateWhere
      (fun n => n.instanceID = d.instanceID && n.state = .planned && d.createdAt < n.createdAt)
      (fun n => { n with expiresAt := now }) db.deployments }

/-- The instance's current revision and the opened validation, if an apply succeeded. -/
def recordSuccess (d : Deployment) (st : DeploymentState) (now : Int) (db : Db) :
    Except StoreError Db :=
  if d.kind = .apply ∧ st = .succeeded then
    if (db.validation? d.id).isSome then .error .alreadyExists
    else .ok { db.promote d with validations := db.validations ++ [openedValidation d now db] }
  else .ok db

/-- What a result does to the containers of its row's instance. -/
def settleResources (d : Deployment) (res : DeploymentResult) (now : Int) (db : Db) :
    Except StoreError Db :=
  match d.kind with
  | .remove => settleRemoval d.endpointID d.applicationID d.instanceID d.plan res now db
  | .apply => settleApply d.endpointID d.instanceID d.plan res db

/-- The part of a settle after the row is found. -/
def settleRow (d : Deployment) (res : DeploymentResult) (st : DeploymentState) (o : Outcome)
    (now : Int) (db : Db) : Except StoreError Db :=
  match settleResources d res now db with
  | .error e => .error e
  | .ok db =>
    let db := { db with
      deployments := Table.updateWhere (fun e => e.id = d.id) (·.settled st res now)
        db.deployments }
    match recordSuccess d st now db with
    | .error e => .error e
    | .ok db =>
      let db := db.expireNewer d now
      .ok { db with
        audit := db.audit ++
          [d.auditRow ("agent:" ++ d.endpointID) o.text (auditResults o) now] }

/-- `SettleDeployment`. -/
def settleDeployment (endpointID : String) (r : DeploymentResult) (now : Int) (db : Db) :
    Except StoreError Db :=
  let res := legacyResult r
  match res.outcome.bind fun o => (outcomeState? o).map fun st => (o, st) with
  | none => .error .unreadableResult
  | some (o, st) =>
    if res.validate = false then .error .unreadableResult
    else if maxDeploymentResultStoredBytes < res.stored.json.size then .error .invalid
    else
      match db.settleable? endpointID res.deployment with
      | none => .error .notFound
      | some d =>
        if res.requestID ≠ "" ∧ res.requestID ≠ d.correlationID then .error .invalid
        else settleRow d res st o now db

/-- The endpoint answered with a result that does not fit the plan: the host may have acted. A
repeat changes nothing. -/
def refuseDeploymentResult (endpointID id detail : String) (now : Int) (db : Db) :
    Except StoreError Db :=
  match db.settleable? endpointID id with
  | none => .error .notFound
  | some d =>
    let detail := cleanText detail 255
    if d.state = .unknown ∧ d.detail = detail then .ok db
    else
      .ok { db with
        deployments := Table.updateWhere (fun e => e.id = id)
          (·.lost detail) db.deployments
        audit := db.audit ++
          [d.auditRow ("agent:" ++ endpointID) "refused" (auditResults .unknown) now] }

/-! ## Removal -/

/-- What a removal confirms. -/
structure RemovalBody where
  instanceID : String
  confirm : String

/-- What a removal takes from outside the tables: the endpoint's row, whether the application is the
source of an open migration or the caller may not destroy containers (`refused`), whether the
inventory is fresh and shows no other container of the project, and whether the frame and the plan
fit their bounds. -/
structure RemovalContext where
  ep : EndpointView
  refused : Bool
  stray : Bool
  fits : Bool

/-- The target of a container; one that no service is mapped to is named by its id. -/
def Resource.target (r : Resource) : RemovalPlanTarget :=
  let service := if r.serviceName = "" then
      "unmapped-" ++ String.ofList (r.containerID.toList.take 12) else r.serviceName
  ⟨service, r.containerID, r.imageID, r.createdUnix, r.name⟩

/-- The services of some revisions in order, the claims they mount and each service's mounts; 0
stands for no revision. -/
def revisionServices (db : Db) (app project : String) (numbers : List Nat) :
    Except StoreError (List PlannedService × List KubernetesClaim) :=
  match (numbers.filter (· ≠ 0)).mapM fun n => db.revision? app n with
  | none => .error .notFound
  | some revs =>
    if revs.any fun r => !r.intact then .error .revisionCorrupt
    else
      let specs := revs.map Revision.spec
      let names := Text.sort (specs.flatMap ApplicationSpec.serviceNames).dedup
      let mounts (s : String) := (specs.flatMap fun p => (kubernetesClaims project p).2 s).foldl
        (fun l (m : KubernetesMount) => if l.any fun x => x.claim == m.claim then l else l ++ [m]) []
      .ok (names.map fun s => ⟨s, "", "", .zero, "", "", none, mounts s⟩,
        (specs.flatMap fun p => (kubernetesClaims project p).1).foldl addClaim [])

/-- What a removal deletes: the instance's containers, or the services of its latest and its current
revision. -/
def removalPlan (a : Application) (i : Instance) (db : Db) : Except StoreError DeploymentPlan :=
  if i.ns = "" then
    let targets := ((db.resources.filter fun r =>
        r.instanceID = i.id && r.endpointID = i.endpointID).insertionSort fun r s =>
          Text.le r.containerID s.containerID = true).map Resource.target
    if targets = [] then .error .adoptionChanged else .ok ⟨i.project, [], targets, "", []⟩
  else
    match revisionServices db a.id i.project [a.latestRevision, i.currentRevision] with
    | .error e => .error e
    | .ok (services, claims) => .ok ⟨i.project, services, [], i.ns, claims⟩

/-- The last acted-on row of the instance is an apply of unknown outcome. -/
def Db.applyUnknown (db : Db) (instanceID : String) : Bool :=
  db.deployments.any fun d => d.instanceID = instanceID && d.kind = .apply && d.state = .unknown &&
    !db.deployments.any fun n => n.instanceID = instanceID && n.state ≠ .planned &&
      (d.createdAt < n.createdAt || (d.createdAt = n.createdAt && !Text.le n.id d.id))

/-- The removal's row: there is nothing to review, so it starts applying. -/
def removalRow (id : String) (a : Application) (i : Instance) (plan : DeploymentPlan)
    (correlation : RequestID) (now : Int) : Deployment :=
  { id := id, applicationID := i.applicationID, instanceID := i.id, endpointID := i.endpointID
    kind := .remove, state := .applying, revision := a.latestRevision
    mappingVersion := i.mappingVersion, plan := plan, createdAt := now
    expiresAt := now + deploymentApplyDeadline
    deadline := some (now + deploymentApplyDeadline), settledAt := none, detail := ""
    result := none, correlationID := correlation.1, policyRunID := none }

/-- `RemoveApplication`, up to the frame. -/
def removeApplication (app id : String) (r : RemovalBody) (c : RemovalContext)
    (correlation : RequestID) (now : Int) (db : Db) : Except StoreError Db :=
  match db.application? app with
  | none => .error .notFound
  | some a =>
    match (db.instance? r.instanceID).filter (·.applicationID = app) with
    | none => .error .adoptionChanged
    | some i =>
      if (c.ep.runtime = .kubernetes) ≠ (i.ns ≠ "") then .error .runtimeUnsupported
      else if r.confirm ≠ i.project then .error .invalid
      else if c.refused then .error .blocked
      else if c.ep.active = false then .error .endpointOffline
      else if (db.live? i.id).any (·.state = .applying) then .error .deploymentInProgress
      else if (db.live? i.id).any (now < ·.expiresAt) then .error .deploymentPlanned
      else
        match db.revision? app a.latestRevision, removalPlan a i db with
        | none, _ => .error .notFound
        | _, .error e => .error e
        | some _, .ok plan =>
          if maxRemovalTargets < plan.services.length + plan.containers.length then
            .error .removalTooLarge
          else if c.stray = true ∨ db.applyUnknown i.id = true then .error .blocked
          else if c.fits = false then .error .invalid
          else
            (db.deleteDeployments fun d =>
              d.instanceID = i.id && d.state = .planned).insertDeployment
                (removalRow id a i plan correlation now)

/-! ## What committed transactions did -/

section Inversion

variable {db db' : Db} {app : String} {now : Int}

variable {d : Deployment} {st : DeploymentState} {endpointID : String} {res : DeploymentResult}

/-- A live row joins the table in the place of planned rows of its instance: none that stays has its
id or is live for its instance. -/
def Db.Opened (db : Db) (d : Deployment) (db' : Db) : Prop :=
  ∃ p : Deployment → Bool,
    (∀ e ∈ db.deployments, p e = true → e.instanceID = d.instanceID ∧ e.state = .planned) ∧
    (∀ e ∈ db.deployments, p e = false →
      e.id ≠ d.id ∧ (e.state.live = true → e.instanceID ≠ d.instanceID)) ∧
    db' = { db.deleteDeployments p with
      deployments := (db.deleteDeployments p).deployments ++ [d] }

theorem opened_of_insertDeployment {p : Deployment → Bool} (hlive : d.state.live = true)
    (hp : ∀ e ∈ db.deployments, p e = true → e.instanceID = d.instanceID ∧ e.state = .planned)
    (h : (db.deleteDeployments p).insertDeployment d = .ok db') : db.Opened d db' := by
  simp only [Db.insertDeployment, guard_error_eq_ok, Except.ok.injEq, List.any_eq_true,
    Bool.or_eq_true, Bool.and_eq_true, decide_eq_true_eq, not_exists, not_and, not_or] at h
  obtain ⟨hfree, rfl⟩ := h
  refine ⟨p, hp, ?_, rfl⟩
  intro e he hpe
  obtain ⟨hid, hl⟩ := hfree e (List.mem_filter.2 ⟨he, by simp [hpe]⟩)
  exact ⟨hid, fun hel => hl ⟨hlive, hel⟩⟩

theorem deleteDeployments_false (db : Db) : db.deleteDeployments (fun _ => false) = db := by
  simp [Db.deleteDeployments, List.any_eq_false.2]

theorem insertPlan_ok (hn : (db.deployments.map Deployment.id).Nodup)
    (hlive : d.state.live = true) (h : insertPlan d db = .ok db') : db.Opened d db' := by
  unfold insertPlan at h
  split at h
  · rw [← deleteDeployments_false db] at h
    apply opened_of_insertDeployment hlive _ h
    simp
  · next l hl =>
    rw [guard_error_eq_ok] at h
    obtain ⟨hne, h⟩ := h
    have hstate := List.find?_some hl
    simp only [Bool.and_eq_true, decide_eq_true_eq] at hstate
    apply opened_of_insertDeployment hlive _ h
    intro e he hid
    have hel : e = l := List.inj_on_of_nodup_map hn he
      (List.mem_of_find?_eq_some hl) (by simpa using hid)
    cases hs : l.state <;> simp_all [DeploymentState.live]

theorem planDeployment_ok (hn : (db.deployments.map Deployment.id).Nodup) {id : String}
    {r : PlanRequest} {c : PlanContext} {correlation : RequestID}
    (h : planDeployment app id r c correlation now db = .ok db') :
    ∃ a i rev, db.application? app = some a ∧ db.instanceOf? app = some i ∧
      db.revision? app (r.number a) = some rev ∧ validateApplicationSpec rev.spec = true ∧
      (i.ns = "" → mappingCovers db a i rev.spec = true) ∧
      db.Opened (plannedRow id i (r.number a) (draftPlan db i rev.spec c) correlation now) db' := by
  unfold planDeployment at h
  split at h
  · next a i ha hi =>
    simp only [guard_error_eq_ok] at h
    obtain ⟨-, -, h⟩ := h
    split at h
    · cases h
    next rev hrev =>
    simp only [guard_error_eq_ok, not_or, not_and, Bool.not_eq_false] at h
    obtain ⟨⟨-, hvalid⟩, -, ⟨-, hcovers⟩, h⟩ := h
    exact ⟨a, i, rev, ha, hi, hrev, hvalid, hcovers, insertPlan_ok hn rfl h⟩
  · cases h

theorem applyDeployment_ok {id confirm : String} {guard : Option PolicyGuard} {c : ApplyContext}
    (h : applyDeployment app id confirm guard c now db = .ok db') :
    ∃ d i, db.deployment? id = some d ∧ d.applicationID = app ∧
      (∀ g ∈ guard, g.holds app db = true) ∧ d.kind = .apply ∧ d.state = .planned ∧
      now < d.expiresAt ∧ 1 ≤ d.revision ∧ db.instance? d.instanceID = some i ∧
      i.mappingVersion = d.mappingVersion ∧ frameMatches d i db = true ∧
      db' = { db with
        deployments := Table.updateWhere (fun e => e.id = id && e.state = .planned)
          (·.started (guard.bind PolicyGuard.run) now) db.deployments } := by
  unfold applyDeployment at h
  split at h
  · cases h
  rw [guard_error_eq_ok] at h
  obtain ⟨hguard, h⟩ := h
  split at h
  · cases h
  next d hd =>
  simp only [guard_error_eq_ok] at h
  obtain ⟨-, -, hplan, h⟩ := h
  split at h
  · cases h
  next i hi =>
  simp only [guard_error_eq_ok, Except.ok.injEq, not_not, Bool.not_eq_false] at h
  obtain ⟨hversion, -, hframe, -, rfl⟩ := h
  simp only [not_or, not_not, not_le] at hplan
  obtain ⟨hkind, hstate, hexp, hrev, -⟩ := hplan
  rw [Option.filter_eq_some_iff] at hd hi
  refine ⟨d, i, hd.1, by simpa using hd.2, ?_, hkind, hstate, hexp, by omega, hi.1, hversion,
    hframe, rfl⟩
  intro g hg
  subst hg
  simpa using hguard

theorem removeApplication_ok {id : String} {r : RemovalBody} {c : RemovalContext}
    {correlation : RequestID} (h : removeApplication app id r c correlation now db = .ok db') :
    ∃ a i plan, db.application? app = some a ∧ db.instance? r.instanceID = some i ∧
      i.applicationID = app ∧ removalPlan a i db = .ok plan ∧ db.applyUnknown i.id = false ∧
      (∀ l, db.live? i.id = some l → l.state ≠ .applying) ∧
      db.Opened (removalRow id a i plan correlation now) db' := by
  unfold removeApplication at h
  split at h
  · cases h
  next a ha =>
  split at h
  · cases h
  next i hi =>
  simp only [guard_error_eq_ok] at h
  obtain ⟨-, -, -, -, hlive, -, h⟩ := h
  split at h
  · cases h
  · cases h
  · next plan hrev hplan =>
    simp only [guard_error_eq_ok, not_or, Bool.not_eq_true] at h
    obtain ⟨-, ⟨-, hunknown⟩, -, h⟩ := h
    rw [Option.filter_eq_some_iff] at hi
    refine ⟨a, i, plan, ha, hi.1, by simpa using hi.2, hplan, hunknown, ?_, ?_⟩
    · intro l hl hs
      exact hlive (by simp [hl, hs])
    · apply opened_of_insertDeployment rfl _ h
      simp [removalRow]

/-! ### Settling -/

/-- The result shows the container of a Docker removal off the host. -/
def DeploymentPlan.Forgets (plan : DeploymentPlan) (res : DeploymentResult) (r : Resource) : Prop :=
  plan.ns = "" ∧ ∃ s ∈ plan.containers.map RemovalPlanTarget.service, offHost res s = true ∧
    plan.target s = r.containerID

/-- What the rows of an instance's containers are after a result, and what it accepted. -/
structure Rebound (d : Deployment) (res : DeploymentResult) (db : Db) (rs : List Resource) :
    Prop where
  docker : d.kind = .apply → d.plan.ns = "" →
    identitiesFit dockerFits d.plan res = true ∧
      res.services.foldlM (rebind d.instanceID d.endpointID d.plan) db.resources = .ok rs
  cluster : d.kind = .apply → d.plan.ns ≠ "" →
    identitiesFit clusterFits d.plan res = true ∧ rs = db.resources
  removal : d.kind = .remove → ∃ p : Resource → Bool, rs = db.resources.filter p ∧
    ∀ r ∈ db.resources, p r = false → r.instanceID = d.instanceID ∧ r.endpointID = d.endpointID ∧
      d.plan.Forgets res r

/-- The tables after a result is settled. -/
structure Settled (d : Deployment) (res : DeploymentResult) (o : Outcome) (st : DeploymentState)
    (now : Int) (db db' : Db) : Prop where
  deployments : db'.deployments = Table.updateWhere
    (fun n => n.instanceID = d.instanceID && n.state = .planned && d.createdAt < n.createdAt)
    (fun n => { n with expiresAt := now })
    (Table.updateWhere (fun e => e.id = d.id) (·.settled st res now) db.deployments)
  instances : db'.instances =
    if st = .succeeded then
      match d.kind with
      | .apply => (db.promote d).instances
      | .remove => (db.deleteInstance d.instanceID).instances
    else db.instances
  applications : db'.applications =
    if st = .succeeded ∧ d.kind = .remove then
      Table.updateWhere (fun a => a.id = d.applicationID) (fun a => { a with removedAt := some now })
        db.applications
    else db.applications
  resources : ∃ rs, Rebound d res db rs ∧
    db'.resources = if st = .succeeded ∧ d.kind = .remove then
      rs.filter fun r => r.instanceID ≠ d.instanceID else rs
  imageChecks : db'.imageChecks =
    if st = .succeeded then (db.clearImageChecks d.instanceID).imageChecks else db.imageChecks
  validations : db'.validations =
    if st = .succeeded ∧ d.kind = .apply then db.validations ++ [openedValidation d now db]
    else db.validations
  unvalidated : st = .succeeded → d.kind = .apply → db.validation? d.id = none
  audit : db'.audit =
    db.audit ++ [d.auditRow ("agent:" ++ d.endpointID) o.text (auditResults o) now]
  revisions : db'.revisions = db.revisions
  policies : db'.policies = db.policies
  runs : db'.runs = db.runs

theorem outcomeState?_succeeded {o : Outcome}
    (h : outcomeState? o = some st) : o = .succeeded ↔ st = .succeeded := by
  cases o <;> cases h <;> simp

theorem settleApply_ok {instanceID : String} {plan : DeploymentPlan}
    (h : settleApply endpointID instanceID plan res db = .ok db') :
    ∃ rs, (plan.ns = "" → identitiesFit dockerFits plan res = true ∧
        res.services.foldlM (rebind instanceID endpointID plan) db.resources = .ok rs) ∧
      (plan.ns ≠ "" → identitiesFit clusterFits plan res = true ∧ rs = db.resources) ∧
      db' = { db with
        resources := rs
        imageChecks := if res.outcome = some .succeeded then
          (db.clearImageChecks instanceID).imageChecks else db.imageChecks } := by
  unfold settleApply at h
  by_cases hns : plan.ns = ""
  · simp only [hns, ne_eq, not_true_eq_false, if_false, guard_error_eq_ok, Bool.not_eq_false] at h
    obtain ⟨hfit, h⟩ := h
    split at h
    · cases h
    next rs hrs =>
    refine ⟨rs, fun _ => ⟨hfit, hrs⟩, fun hc => absurd hns hc, ?_⟩
    rw [← Except.ok.inj h]
    by_cases ho : res.outcome = some .succeeded <;> simp [ho, Db.clearImageChecks]
  · simp only [hns, ne_eq, not_false_eq_true, if_true, guard_else_error_eq_ok, Except.ok.injEq] at h
    obtain ⟨hfit, rfl⟩ := h
    refine ⟨db.resources, fun hc => absurd hc hns, fun _ => ⟨hfit, rfl⟩, ?_⟩
    by_cases ho : res.outcome = some .succeeded <;> simp [ho, Db.clearImageChecks]

theorem settleRemoval_ok {instanceID : String} {plan : DeploymentPlan}
    (h : settleRemoval endpointID app instanceID plan res now db = .ok db') :
    ∃ p : Resource → Bool,
      (∀ r ∈ db.resources, p r = false → r.instanceID = instanceID ∧ r.endpointID = endpointID ∧
        plan.Forgets res r) ∧
      db' = if res.outcome = some .succeeded then
          releaseRemoved app instanceID now { db with resources := db.resources.filter p }
        else { db with resources := db.resources.filter p } := by
  unfold settleRemoval at h
  simp only [guard_error_eq_ok] at h
  obtain ⟨-, h⟩ := h
  by_cases hns : plan.ns = ""
  · simp only [hns, ne_eq, not_true_eq_false, if_false, guard_error_eq_ok, Except.ok.injEq] at h
    obtain ⟨-, -, rfl⟩ := h
    refine ⟨_, ?_, rfl⟩
    intro r _ hr
    simp only [Bool.not_eq_false', Bool.and_eq_true, decide_eq_true_eq, List.any_eq_true,
      List.mem_filter, List.mem_dedup] at hr
    obtain ⟨⟨hi, he⟩, s, ⟨hs, hoff⟩, hr⟩ := hr
    exact ⟨hi, he, hns, s, hs, hoff, hr⟩
  · simp only [hns, ne_eq, not_false_eq_true, if_true, guard_else_error_eq_ok, Except.ok.injEq] at h
    obtain ⟨-, rfl⟩ := h
    refine ⟨fun _ => true, by simp, ?_⟩
    simp

/-- The tables after a result's containers are settled and before its row is. -/
structure SettledResources (d : Deployment) (res : DeploymentResult) (st : DeploymentState)
    (now : Int) (db db' : Db) : Prop where
  instances : db'.instances = if st = .succeeded ∧ d.kind = .remove then
    db.instances.filter (fun i => i.id ≠ d.instanceID) else db.instances
  applications : db'.applications = if st = .succeeded ∧ d.kind = .remove then
    Table.updateWhere (fun a => a.id = d.applicationID) (fun a => { a with removedAt := some now })
      db.applications else db.applications
  resources : ∃ rs, Rebound d res db rs ∧
    db'.resources = if st = .succeeded ∧ d.kind = .remove then
      rs.filter fun r => r.instanceID ≠ d.instanceID else rs
  imageChecks : db'.imageChecks =
    if st = .succeeded then (db.clearImageChecks d.instanceID).imageChecks else db.imageChecks
  deployments : db'.deployments = db.deployments
  validations : db'.validations = db.validations
  audit : db'.audit = db.audit
  revisions : db'.revisions = db.revisions
  policies : db'.policies = db.policies
  runs : db'.runs = db.runs

theorem settleResources_ok (hsucc : res.outcome = some .succeeded ↔ st = .succeeded)
    (h : settleResources d res now db = .ok db') : SettledResources d res st now db db' := by
  unfold settleResources at h
  cases hk : d.kind with
  | apply =>
    simp only [hk] at h
    obtain ⟨rs, hdocker, hcluster, rfl⟩ := settleApply_ok h
    have hrs : Rebound d res db rs := ⟨fun _ => hdocker, fun _ => hcluster, by simp [hk]⟩
    exact
      { instances := by simp [hk], applications := by simp [hk]
        resources := ⟨rs, hrs, by simp [hk]⟩, imageChecks := by simp [hsucc], deployments := rfl
        validations := rfl, audit := rfl, revisions := rfl, policies := rfl, runs := rfl }
  | remove =>
    simp only [hk] at h
    obtain ⟨p, hp, rfl⟩ := settleRemoval_ok h
    have hrs : Rebound d res db (db.resources.filter p) :=
      ⟨by simp [hk], by simp [hk], fun _ => ⟨p, rfl, hp⟩⟩
    by_cases hs : st = .succeeded
    · simp only [hsucc, hs]
      exact
        { instances := by simp [hk, releaseRemoved, Db.deleteInstance]
          applications := by simp [hk, releaseRemoved, Db.deleteInstance]
          resources := ⟨_, hrs, by simp [hk, releaseRemoved, Db.deleteInstance]⟩
          imageChecks := by simp [releaseRemoved, Db.deleteInstance, Db.clearImageChecks]
          deployments := rfl, validations := rfl, audit := rfl, revisions := rfl, policies := rfl
          runs := rfl }
    · simp only [hsucc, hs]
      exact
        { instances := by simp [hs], applications := by simp [hs]
          resources := ⟨_, hrs, by simp [hs]⟩, imageChecks := by simp [hs], deployments := rfl
          validations := rfl, audit := rfl, revisions := rfl, policies := rfl, runs := rfl }

theorem settleRow_ok {o : Outcome} (ho : res.outcome = some o) (hst : outcomeState? o = some st)
    (h : settleRow d res st o now db = .ok db') : Settled d res o st now db db' := by
  have hsucc : res.outcome = some .succeeded ↔ st = .succeeded := by
    rw [ho, Option.some.injEq, outcomeState?_succeeded hst]
  unfold settleRow at h
  split at h
  · cases h
  next db₁ h₁ =>
  have hr := settleResources_ok hsucc h₁
  simp only at h
  split at h
  · cases h
  next db₂ h₂ =>
  obtain rfl := Except.ok.inj h
  unfold recordSuccess at h₂
  split at h₂
  · next hs =>
    -- a succeeded apply: the instance is promoted and a validation opened
    simp only [guard_error_eq_ok, Option.not_isSome_iff_eq_none, Except.ok.injEq] at h₂
    obtain ⟨hnone, rfl⟩ := h₂
    obtain ⟨hk, rfl⟩ := hs
    have hinst : db₁.instances = db.instances := by simpa [hk] using hr.instances
    refine
      { deployments := by simp [Db.expireNewer, Db.promote, hr.deployments]
        instances := by simp [Db.expireNewer, Db.promote, hk, hinst]
        applications := by simpa [Db.expireNewer, Db.promote] using hr.applications
        resources := hr.resources, imageChecks := hr.imageChecks, validations := ?_
        unvalidated := fun _ _ => ?_, audit := ?_, revisions := hr.revisions
        policies := hr.policies, runs := hr.runs }
    · rw [if_pos ⟨rfl, hk⟩]
      refine congrArg₂ (· ++ [·]) hr.validations ?_
      rw [openedValidation, openedValidation, hr.validations]
    · simpa [Db.validation?, hr.validations] using hnone
    · simp [Db.expireNewer, Db.promote, hr.audit]
  · next hno =>
    obtain rfl := Except.ok.inj h₂
    refine
      { deployments := by simp [Db.expireNewer, hr.deployments], instances := ?_
        applications := hr.applications, resources := hr.resources
        imageChecks := hr.imageChecks, validations := ?_
        unvalidated := fun hs hk => absurd ⟨hk, hs⟩ hno, audit := by simp [Db.expireNewer, hr.audit]
        revisions := hr.revisions, policies := hr.policies, runs := hr.runs }
    · cases hk : d.kind with
      | apply =>
        have hs : st ≠ .succeeded := fun hs => hno ⟨hk, hs⟩
        simpa [hs, Db.expireNewer] using hr.instances
      | remove => simpa [hk, Db.expireNewer, Db.deleteInstance] using hr.instances
    · have hno' : ¬ (st = .succeeded ∧ d.kind = .apply) := fun hc => hno hc.symm
      simpa [hno', Db.expireNewer] using hr.validations

theorem settleable?_eq_some {id : String} :
    db.settleable? endpointID id = some d ↔
      db.deployment? id = some d ∧ d.endpointID = endpointID ∧ db.settleable d = true := by
  simp [Db.settleable?]

theorem settleDeployment_ok {r : DeploymentResult}
    (h : settleDeployment endpointID r now db = .ok db') :
    ∃ d o st, r.outcome = some o ∧ outcomeState? o = some st ∧
      (legacyResult r).validate = true ∧ db.deployment? r.deployment = some d ∧
      d.endpointID = endpointID ∧ db.settleable d = true ∧
      Settled d (legacyResult r) o st now db db' := by
  unfold settleDeployment at h
  simp only at h
  split at h
  · cases h
  next o st hos =>
  simp only [guard_error_eq_ok, Bool.not_eq_false] at h
  obtain ⟨hvalid, -, h⟩ := h
  split at h
  · cases h
  next d hd =>
  simp only [guard_error_eq_ok] at h
  simp only [Option.bind_eq_some_iff, Option.map_eq_some_iff, Prod.mk.injEq] at hos
  obtain ⟨o', ho', st', hst', rfl, rfl⟩ := hos
  rw [settleable?_eq_some, legacyResult_deployment] at hd
  obtain ⟨hrow, hend, hsettle⟩ := hd
  refine ⟨d, o', st', by rw [← ho', legacyResult_outcome], hst', hvalid, hrow, hend, hsettle, ?_⟩
  exact settleRow_ok ho' hst' h.2

theorem refuseDeploymentResult_ok {id detail : String}
    (h : refuseDeploymentResult endpointID id detail now db = .ok db') :
    ∃ d, db.deployment? id = some d ∧ d.endpointID = endpointID ∧ db.settleable d = true ∧
      (db' = db ∨
        db' = { db with
          deployments := Table.updateWhere (fun e => e.id = id) (·.lost (cleanText detail 255))
            db.deployments
          audit := db.audit ++
            [d.auditRow ("agent:" ++ endpointID) "refused" (auditResults .unknown) now] }) := by
  unfold refuseDeploymentResult at h
  split at h
  · cases h
  next d hd =>
  obtain ⟨hrow, hend, hsettle⟩ := settleable?_eq_some.1 hd
  refine ⟨d, hrow, hend, hsettle, ?_⟩
  simp only at h
  split at h
  · exact .inl (Except.ok.inj h).symm
  · exact .inr (Except.ok.inj h).symm

end Inversion

end KyYard.Store
