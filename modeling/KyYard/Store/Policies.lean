import KyYard.Foundation.Zone
import KyYard.Store.Deployments

/-!
# Update policies and their runs

An administrator saves, resumes and deletes an application's policy. The scheduler opens one run for
a window, or records the window as skipped, and finishes the run with an outcome that counts against
the policy or clears its count; a policy pauses after `policyFailureLimit` failures in a row, when
its creator lost authority, or when a validation asks for it. Every outcome and every pause has its
audit row.
-/

namespace KyYard.Store

open Foundation Protocol

def minPolicyWindowMinutes : Int := 15
/-- Failures in a row that pause a policy. -/
def policyFailureLimit : Nat := 3

def policyDetailCreatorLost : String := "the policy's creator no longer holds application.deploy"
def policyDetailRestarted : String := "the server restarted during the run"
def policyReasonFailures : String := "three consecutive windows failed"

/-! ## Policies -/

/-- What an administrator saves; `mode` is `none` for a word that is no mode. -/
structure PolicyInput where
  mode : Option PolicyMode
  timezone : String
  weekdays : List Int
  startMinute : Int
  endMinute : Int

/-- A zone that loads; the empty name and `Local` load too, but they name the server's own. -/
def validPolicyZone (zones : String → Option Zone) (name : String) : Bool :=
  name ≠ "" && name ≠ "Local" && name.utf8ByteSize ≤ 64 && displaySafe name && (zones name).isSome

/-- The checked mode and window; weekdays are stored in ascending order. -/
def PolicyInput.checked (zones : String → Option Zone) (input : PolicyInput) :
    Except StoreError (PolicyMode × Window) :=
  match input.mode with
  | none => .error .invalidMode
  | some mode =>
    if validPolicyZone zones input.timezone = false then .error .invalidTimezone
    else if input.weekdays = [] ∨ 7 < input.weekdays.length ∨
        (∃ d ∈ input.weekdays, d < 0 ∨ 6 < d) ∨ ¬ input.weekdays.Nodup then
      .error .invalidWeekdays
    else if h : 0 ≤ input.startMinute ∧ input.endMinute ≤ 1440 ∧
        minPolicyWindowMinutes ≤ input.endMinute - input.startMinute then
      .ok (mode,
        { weekdays := (input.weekdays.insertionSort (· ≤ ·)).map Int.toNat
          startMinute := input.startMinute.toNat
          endMinute := input.endMinute.toNat
          ordered := by
            obtain ⟨h₁, -, h₂⟩ := h
            unfold minPolicyWindowMinutes at h₂
            omega
          bounded := by omega })
    else .error .invalidWindow

/-- The policy of an application, which has at most one. -/
def Db.policyOf? (db : Db) (app : String) : Option UpdatePolicy :=
  Table.find UpdatePolicy.applicationID app db.policies

/-- Creates the policy, or replaces its settings: the saver becomes its creator, its status and
failures stay. -/
def putUpdatePolicy (zones : String → Option Zone) (app actor id : String) (input : PolicyInput)
    (now : Int) (db : Db) : Except StoreError Db :=
  match input.checked zones with
  | .error e => .error e
  | .ok (mode, window) =>
    if (db.application? app).isNone then .error .notFound
    else
      match db.policyOf? app with
      | none =>
        if db.policies.any fun p => p.id = id then .error .alreadyExists
        else
          .ok { db with
            policies := db.policies ++
              [⟨id, app, actor, mode, input.timezone, window, .active, "", 0, now, now⟩] }
      | some p =>
        .ok { db with
          policies := Table.updateWhere (fun q => q.id = p.id)
            (fun q => { q with
              createdBy := actor, mode := mode, timezone := input.timezone, window := window
              updatedAt := now })
            db.policies }

/-- `DeleteUpdatePolicy`. -/
def deleteUpdatePolicy (app : String) (db : Db) : Except StoreError Db :=
  match db.policyOf? app with
  | none => .error .notFound
  | some p => .ok (db.deletePolicies (·.id = p.id))

/-- A resumed policy starts with no failure. -/
def UpdatePolicy.resumed (p : UpdatePolicy) (now : Int) : UpdatePolicy :=
  { p with status := .active, pausedReason := "", consecutiveFailures := 0, updatedAt := now }

/-- `ResumeUpdatePolicy`: failures count anew. -/
def resumeUpdatePolicy (app : String) (now : Int) (db : Db) : Except StoreError Db :=
  match db.policyOf? app with
  | none => .error .notFound
  | some p =>
    if p.status ≠ .paused then .error .policyNotPaused
    else
      .ok { db with
        policies := Table.updateWhere (fun q => q.id = p.id) (·.resumed now) db.policies }

/-! ## Audit rows and pauses -/

/-- One row of the scheduler, under the system actor. -/
def auditPolicy (resource : String) (action : AuditAction) (details : String)
    (result : AuditResult) (correlation : String) (now : Int) (db : Db) : Db :=
  { db with
    audit := db.audit ++
      [⟨"system", action, cleanText resource 255, cleanText details 255, now, correlation,
        result⟩] }

/-- The resource of a policy's audit rows. -/
def policyResource (app policy : String) : String := app ++ "/policies/" ++ policy

/-- The policy paused, with the reason. -/
def UpdatePolicy.pausedFor (p : UpdatePolicy) (reason : String) (now : Int) : UpdatePolicy :=
  { p with status := .paused, pausedReason := reason, updatedAt := now }

/-- Pauses an active policy, with its audit row; one that is paused or gone is left alone. -/
def pausePolicy (app policy reason : String) (result : AuditResult) (correlation : String)
    (now : Int) (db : Db) : Db :=
  if db.policies.any fun p => p.id = policy && p.status = .active then
    auditPolicy (policyResource app policy) .policyPaused reason result correlation now
      { db with
        policies := Table.updateWhere (fun p => p.id = policy && p.status = .active)
          (·.pausedFor reason now) db.policies }
  else db

/-- Pauses the policy whose run made a deployment. -/
def pauseForValidation (run reason correlation : String) (now : Int) (db : Db) : Db :=
  match (db.run? run).bind fun r => db.policy? r.policyID with
  | none => db
  | some p => pausePolicy p.applicationID p.id (cleanText reason 255) .failure correlation now db

/-! ## Runs -/

def RunOutcome.text : RunOutcome → String
  | skippedMissed => "skipped_missed"
  | skippedBusy => "skipped_busy"
  | noUpdate => "no_update"
  | planned => "planned"
  | applied => "applied"
  | blocked => "blocked"
  | failed => "failed"
  | paused => "paused"

/-- The audit result of a run. -/
def policyResults : RunOutcome → AuditResult
  | .blocked | .failed => .failure
  | .paused => .denied
  | _ => .success

/-- Opens the run for a window of an active policy; a window has one. -/
def insertPolicyRun (policy : String) (occurrence : Int) (id correlation : String) (now : Int)
    (db : Db) : Except StoreError Db :=
  match (db.policy? policy).filter (·.status = .active) with
  | none => .error .notFound
  | some p =>
    if db.runs.any fun r => r.id = id || (r.policyID = policy && r.occurrence = occurrence) then
      .error .alreadyExists
    else
      .ok { db with
        runs := db.runs ++
          [⟨id, policy, p.applicationID, occurrence, now, none, none, none, "", correlation⟩] }

/-- A run started, before any of its work. -/
def beginPolicyRun (policy : String) (occurrence : Int) (id correlation : String) (now : Int)
    (db : Db) : Except StoreError Db :=
  insertPolicyRun policy occurrence id correlation now db

/-- A run with its outcome. -/
def PolicyRun.finished (r : PolicyRun) (outcome : RunOutcome) (deployment : Option String)
    (detail : String) (now : Int) : PolicyRun :=
  { r with
    outcome := some outcome, deploymentID := deployment.or r.deploymentID
    detail := cleanText detail 255, finishedAt := some now }

/-- The resource of a run's audit row. -/
def PolicyRun.resource (r : PolicyRun) : String :=
  policyResource r.applicationID r.policyID ++ "/runs/" ++ r.id

/-- What an outcome does to the count of failures, and the reason to pause, if there is one. -/
def countRun (policy : String) (outcome : RunOutcome) (db : Db) :
    Except StoreError (Db × Option String) :=
  let set (f : Nat → Nat) : Db :=
    { db with
      policies := Table.updateWhere (fun p => p.id = policy)
        (fun p => { p with consecutiveFailures := f p.consecutiveFailures }) db.policies }
  match outcome with
  | .blocked | .failed =>
    match (set (· + 1)).policy? policy with
    | none => .error .notFound
    | some p =>
      .ok (set (· + 1),
        if policyFailureLimit ≤ p.consecutiveFailures then some policyReasonFailures else none)
  | .applied | .planned | .noUpdate => .ok (set fun _ => 0, none)
  | .paused => .ok (db, some policyDetailCreatorLost)
  | .skippedMissed | .skippedBusy => .ok (db, none)

/-- Settles an open run. -/
def finishPolicyRun (run : String) (outcome : RunOutcome) (deployment : Option String)
    (detail : String) (now : Int) (db : Db) : Except StoreError Db :=
  match (db.run? run).filter (·.outcome.isNone) with
  | none => .error .notFound
  | some r =>
    let db := { db with
      runs := Table.updateWhere (fun e => e.id = run && e.outcome.isNone)
        (·.finished outcome deployment detail now) db.runs }
    match countRun r.policyID outcome db with
    | .error e => .error e
    | .ok (db, pause) =>
      let db := auditPolicy r.resource .policyRun outcome.text (policyResults outcome)
        r.correlationID now db
      match pause with
      | none => .ok db
      | some reason =>
        .ok (pausePolicy r.applicationID r.policyID reason
          (if outcome = .paused then .denied else .failure) r.correlationID now db)

/-- Records a window the scheduler did not run, as one finished run. -/
def skipPolicyWindow (policy : String) (occurrence : Int) (id correlation : String)
    (outcome : RunOutcome) (detail : String) (now : Int) (db : Db) : Except StoreError Db :=
  if outcome ≠ .skippedMissed ∧ outcome ≠ .skippedBusy then .error .invalid
  else
    match insertPolicyRun policy occurrence id correlation now db with
    | .error e => .error e
    | .ok db => finishPolicyRun id outcome none detail now db

/-- Names the deployment an open run is about to send. -/
def attachPolicyRunDeployment (run deployment : String) (db : Db) : Except StoreError Db :=
  if db.runs.any fun r => r.id = run && r.outcome.isNone then
    .ok { db with
      runs := Table.updateWhere (fun r => r.id = run && r.outcome.isNone)
        (fun r => { r with deploymentID := some deployment }) db.runs }
  else .error .notFound

/-- The order of reconciliation. -/
def PolicyRun.before (a b : PolicyRun) : Prop :=
  a.startedAt < b.startedAt ∨ (a.startedAt = b.startedAt ∧ Text.le a.id b.id = true)

instance : DecidableRel PolicyRun.before := fun _ _ =>
  inferInstanceAs (Decidable (_ ∨ (_ ∧ _)))

/-- The runs in flight, oldest first. -/
def Db.openRuns (db : Db) : List String :=
  ((db.runs.filter (·.outcome.isNone)).insertionSort PolicyRun.before).map PolicyRun.id

/-- Fails every run the previous process left open. -/
def reconcilePolicyRuns (now : Int) (db : Db) : Except StoreError Db :=
  db.openRuns.foldlM
    (fun db id => finishPolicyRun id .failed none policyDetailRestarted now db) db

end KyYard.Store
