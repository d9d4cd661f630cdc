import KyYard.Store.Policies

/-!
# Health validations and rollbacks

The settle of a succeeded apply opens its validation. The loop takes a baseline, records a verdict,
and for an automated update that failed names a rollback deployment and records how the rollback
ended, which pauses the policy. A rollback whose outcome was never written is decided from its
deployment's row (`decideNamedRollbacks`), on every tick and after a restart.
-/

namespace KyYard.Store

open Foundation Protocol

def maxBaselineBytes : Nat := 32768

def rollbackNotSent : String := "not_sent"
def rollbackInterrupted : String := "interrupted"
def validationDetailServerDown : String := "the server was not running during the window"
def validationReasonRolledBack : String := "rolled back after a failed update"
def validationReasonNotRolledBack : String := "update failed and could not be rolled back: "
def validationReasonUnverified : String := "update could not be validated: "

/-! ## Verdicts -/

def Verdict.text : Verdict → String
  | healthy => "healthy"
  | unhealthy => "unhealthy"
  | exited => "exited"
  | restarting => "restarting"
  | unverifiable => "unverifiable"
  | changed => "changed"

/-- The audit result of a verdict. -/
def validationResults : Verdict → AuditResult
  | .healthy => .success
  | _ => .failure

/-- Stores the baseline of the first observation after grace; it comes encoded. -/
def beginObservation (deployment baseline : String) (db : Db) : Except StoreError Db :=
  if maxBaselineBytes < baseline.utf8ByteSize then .error .invalid
  else if db.validations.any fun v => v.deploymentID = deployment && v.phase = .grace then
    .ok { db with
      validations := Table.updateWhere (fun v => v.deploymentID = deployment && v.phase = .grace)
        (fun v => { v with phase := .observing, baseline := baseline }) db.validations }
  else .error .notFound

/-- A validation with its verdict. -/
def Validation.finished (v : Validation) (verdict : Verdict) (detail : String) (now : Int) :
    Validation :=
  { v with phase := .done, verdict := some verdict, detail := detail, finishedAt := some now }

/-- Records a verdict and says whether a rollback decision is due. An automated update that could
not be validated pauses its policy. -/
def finishValidation (deployment : String) (verdict : Verdict) (detail : String) (now : Int)
    (db : Db) : Except StoreError (Db × Bool) :=
  match (db.validation? deployment).filter (·.phase ≠ .done) with
  | none => .error .notFound
  | some v =>
    let detail := cleanText detail 255
    let db := { db with
      validations := Table.updateWhere (fun w => w.deploymentID = deployment && w.phase ≠ .done)
        (·.finished verdict detail now) db.validations }
    let db := auditPolicy (v.applicationID ++ "/deployments/" ++ deployment) .validation
      verdict.text (validationResults verdict) v.correlationID now db
    if v.automated = false ∨ v.isRollback = true then .ok (db, false)
    else
      match v.policyRunID with
      | none => .ok (db, false)
      | some run =>
        if verdict = .unverifiable then
          .ok (pauseForValidation run (validationReasonUnverified ++ detail) v.correlationID now db,
            false)
        else .ok (db, verdict.rollback)

/-! ## Rollbacks -/

/-- A finished automated validation whose rollback decision is owed. -/
def Validation.awaitingRollback (v : Validation) : Bool :=
  v.phase = .done && v.automated && !v.isRollback && v.policyRunID.isSome &&
    v.verdict.any Verdict.rollback && v.rollbackOutcome.isNone && v.rollbackDeploymentID.isNone

/-- Names the rollback deployment, before it is applied; no other validation names it. -/
def markRollbackPlanned (deployment rollback : String) (db : Db) : Except StoreError Db :=
  if db.validations.any fun v => v.deploymentID = deployment && v.awaitingRollback then
    if db.validations.any fun v => v.rollbackDeploymentID = some rollback then .error .alreadyExists
    else
      .ok { db with
        validations := Table.updateWhere
          (fun v => v.deploymentID = deployment && v.awaitingRollback)
          (fun v => { v with rollbackDeploymentID := some rollback }) db.validations }
  else .error .notFound

/-- The validation takes an outcome: none is recorded and its verdict is a failure. -/
def Validation.takesOutcome (deployment : String) (v : Validation) : Bool :=
  v.deploymentID = deployment && v.rollbackOutcome.isNone && v.verdict.any Verdict.rollback

/-- A validation with its outcome. -/
def Validation.rolledBack (v : Validation) (outcome : RollbackOutcome) (detail : String) :
    Validation :=
  { v with rollbackOutcome := some outcome, rollbackDetail := detail }

/-- Records how a rollback ended and pauses the policy. `applied` needs a named deployment. -/
def markRollbackOutcome (deployment : String) (outcome : RollbackOutcome) (detail : String)
    (now : Int) (db : Db) : Except StoreError Db :=
  match (db.validation? deployment).filter fun v =>
      v.phase = .done && v.automated && !v.isRollback && v.rollbackOutcome.isNone with
  | none => .error .notFound
  | some v =>
    if outcome = .applied ∧ v.rollbackDeploymentID = none then .error .invalid
    else if (db.validations.any (Validation.takesOutcome deployment)) = false then .error .notFound
    else
      let detail := cleanText detail 255
      let db := { db with
        validations := Table.updateWhere (Validation.takesOutcome deployment)
          (·.rolledBack outcome detail) db.validations }
      match v.policyRunID with
      | none => .ok db
      | some run =>
        let reason := if outcome = .applied then validationReasonRolledBack
          else validationReasonNotRolledBack ++ detail
        .ok (pauseForValidation run reason v.correlationID now db)

/-! ## Deciding and reconciling -/

/-- The order in which validations are worked off. -/
def Validation.before (a b : Validation) : Prop :=
  a.startedAt < b.startedAt ∨
    (a.startedAt = b.startedAt ∧ Text.le a.deploymentID b.deploymentID = true)

instance : DecidableRel Validation.before := fun _ _ =>
  inferInstanceAs (Decidable (_ ∨ (_ ∧ _)))

/-- The deployments of the validations a test selects, oldest first. -/
def Db.validationIDs (db : Db) (p : Validation → Bool) : List String :=
  ((db.validations.filter p).insertionSort Validation.before).map Validation.deploymentID

/-- A named rollback without an outcome. -/
def Validation.undecided (v : Validation) : Bool :=
  v.rollbackDeploymentID.isSome && v.rollbackOutcome.isNone

/-- The row of a validation's rollback, if it is still there. -/
def Db.rollbackRow? (db : Db) (v : Validation) : Option Deployment :=
  v.rollbackDeploymentID.bind db.deployment?

/-- The named rollback settled as succeeded. -/
def Db.rollbackSucceeded (db : Db) (v : Validation) : Bool :=
  (db.rollbackRow? v).any (·.state = .succeeded)

/-- The rollback will never succeed: its row is gone, or neither succeeded, nor running, nor a plan
that has not expired. -/
def Db.rollbackLost (db : Db) (now : Int) (v : Validation) : Bool :=
  (db.rollbackRow? v).all fun d =>
    d.state ≠ .succeeded && !(d.state = .applying || (d.state = .planned && now < d.expiresAt))

/-- Outcomes of rollbacks a restart cut off. -/
def decideNamedRollbacks (now : Int) (db : Db) : Except StoreError Db :=
  match (db.validationIDs fun v => v.undecided && db.rollbackSucceeded v).foldlM
      (fun db id => markRollbackOutcome id .applied "" now db) db with
  | .error e => .error e
  | .ok db =>
    (db.validationIDs fun v => v.undecided && db.rollbackLost now v).foldlM
      (fun db id => markRollbackOutcome id .failed rollbackInterrupted now db) db

/-- A validation still in grace past its window never had its baseline taken. -/
def reconcileValidations (now : Int) (db : Db) : Except StoreError Db :=
  match (db.validationIDs fun v => v.phase = .grace && v.observeUntil < now).foldlM
      (fun db id =>
        (finishValidation id .unverifiable validationDetailServerDown now db).map Prod.fst) db with
  | .error e => .error e
  | .ok db => decideNamedRollbacks now db

/-- What a starting server settles of the last one's work. -/
def reconcileAfterStart (now : Int) (db : Db) : Except StoreError Db :=
  match reconcilePolicyRuns now db with
  | .error e => .error e
  | .ok db => reconcileValidations now db

end KyYard.Store
