import KyYard.Store.Watch

/-!
# The scheduler and the validation loop

The server's background work over the store: policy runs that open, plan, apply and finish, and
validations that are read, judged and rolled back. A task remembers what it read and made; tasks
interleave with each other and with every transaction of users, agents and retention, and a restart
forgets them all and reconciles the tables.

`policy_runs` says what holds of policies and runs along every interleaving, `rollback_machine` of
validations and rollbacks. A rollback's outcome `applied` is recorded as soon as the frame was
handed over (`applied_before_success`).
-/

namespace KyYard.Store

open Foundation Protocol

/-! ## Tasks -/

/-- A policy run under way: the policy as the tick read it, and the plan the run made. -/
structure RunTask where
  run : String
  policy : UpdatePolicy
  planned : Option String
deriving DecidableEq

/-- How far the work on a validation is: read by a tick (`owed` if its verdict is in and the rollback
decision is not), to be rolled back, the rollback planned, named on the validation, applied, and
decided. -/
inductive RollbackStage
  | pending (owed : Bool)
  | due
  | planned (id : String)
  | named (id : String)
  | applied (id : String)
  | decided (outcome : RollbackOutcome) (detail : String)
deriving DecidableEq

/-- A rollback that was begun and not sent. -/
def RollbackStage.unsent : RollbackStage → Bool
  | due => true
  | planned _ => true
  | named _ => true
  | _ => false

/-- The work on one validation, with the policy and its creator as the tick read them. -/
structure RollbackTask where
  deployment : String
  app : String
  policy : String
  actor : String
  stage : RollbackStage
deriving DecidableEq

/-- A validation a tick picks up: open, or owed a rollback decision. -/
def pendingValidation (deployment : String) (db : Db) : Option RollbackTask :=
  match db.validation? deployment with
  | none => none
  | some v =>
    if v.phase ≠ .done ∨ v.awaitingRollback = true then
      let p := (v.policyRunID.bind db.run?).bind fun r => db.policy? r.policyID
      some ⟨deployment, v.applicationID, (p.map UpdatePolicy.id).getD "",
        (p.map UpdatePolicy.createdBy).getD "", .pending (v.phase = .done)⟩
    else none

/-! ## The machine -/

/-- The ledger with more deployments sent. -/
def Ledger.send (sends : List String) (ledger : Ledger) : Ledger :=
  { ledger with sent := sends ++ ledger.sent }

/-- The server, its tasks, and the ledger, which no step reads. -/
structure Automation where
  server : Server
  runs : List RunTask
  rollbacks : List RollbackTask
  ledger : Ledger

/-- A new server. -/
def Automation.new : Automation := ⟨.new, [], [], ⟨[], [], []⟩⟩

/-- The steps of users, agents, scheduler and validation loop. -/
inductive AutomationOp
  | store (op : StoreOp)
  | putUpdatePolicy (zones : String → Option Zone) (app actor id : String) (input : PolicyInput)
  | deleteUpdatePolicy (app : String)
  | resumeUpdatePolicy (app : String)
  | skipPolicyWindow (policy : String) (occurrence : Int) (id correlation : String)
      (outcome : RunOutcome) (detail : String)
  | beginPolicyRun (policy : UpdatePolicy) (occurrence : Int) (id correlation : String)
  | planRun (t : RunTask) (id : String) (r : PlanRequest) (c : PlanContext)
      (correlation : RequestID)
  | applyRun (t : RunTask) (confirm : String) (c : ApplyContext)
  | attachRun (t : RunTask)
  | finishRun (t : RunTask) (outcome : RunOutcome) (deployment : Option String) (detail : String)
  | dropRun (t : RunTask)
  | readPending (deployment : String)
  | beginObservation (t : RollbackTask) (baseline : String)
  | finishValidation (t : RollbackTask) (verdict : Verdict) (detail : String)
  | rollBack (t : RollbackTask)
  | planRollback (t : RollbackTask) (id : String) (r : PlanRequest) (c : PlanContext)
      (correlation : RequestID)
  | nameRollback (t : RollbackTask)
  | applyRollback (t : RollbackTask) (confirm : String) (c : ApplyContext)
  | deliverRollback (t : RollbackTask) (delivered : Bool)
  | giveUpRollback (t : RollbackTask) (outcome : RollbackOutcome) (detail : String)
  | finishRollback (t : RollbackTask)
  | dropRollback (t : RollbackTask)
  | decideNamedRollbacks
  | restart

namespace Automation

/-- A transaction of the store. -/
def commit (now : Int) (op : StoreOp) (s : Automation) : Except (Option StoreError) Automation :=
  match storeMachine.step (now, op) s.server with
  | .error e => .error e
  | .ok server => .ok { s with server := server, ledger := s.ledger.send op.sends }

/-- A transaction of the scheduler or the validation loop. -/
def write (now : Int) (tx : Db → Except StoreError Db) (s : Automation) :
    Except (Option StoreError) Automation :=
  if s.server.clock < now then
    match tx s.server.db with
    | .error e => .error (some e)
    | .ok db => .ok { s with server := { s.server with db := db, clock := now } }
  else .error none

/-- Ghost notes of a step. -/
def notePlan (note : Ledger → Ledger) (s : Automation) : Automation :=
  { s with ledger := note s.ledger }

def replaceRun (t t' : RunTask) (s : Automation) : Automation :=
  { s with runs := t' :: s.runs.erase t }

def replaceRollback (t t' : RollbackTask) (s : Automation) : Automation :=
  { s with rollbacks := t' :: s.rollbacks.erase t }

def dropRollback (t : RollbackTask) (s : Automation) : Automation :=
  { s with rollbacks := s.rollbacks.erase t }

/-- The steps of a policy run. -/
def stepRun (now : Int) (t : RunTask) (op : AutomationOp) (s : Automation) :
    Except (Option StoreError) Automation :=
  if t ∉ s.runs then .error none
  else
    match op with
    | .planRun _ id r c correlation =>
      (s.commit now
        (.lifecycle (.planDeployment t.policy.applicationID id r c correlation))).map fun s =>
          (s.notePlan fun l => { l with runPlans := id :: l.runPlans }).replaceRun t
            { t with planned := some id }
    | .applyRun _ confirm c =>
      match t.planned with
      | none => .error none
      | some id =>
        if t.policy.mode ≠ .apply then .error none
        else
          s.commit now (.lifecycle (.applyDeployment t.policy.applicationID id confirm
            (some ⟨t.policy.id, t.policy.createdBy, some t.run⟩) c))
    | .attachRun _ =>
      match t.planned with
      | none => .error none
      | some id => s.write now (attachPolicyRunDeployment t.run id)
    | .finishRun _ outcome deployment detail =>
      (s.write now (finishPolicyRun t.run outcome deployment detail now)).map fun s =>
        { s with runs := s.runs.erase t }
    | _ => .ok { s with runs := s.runs.erase t }

/-- The steps of a validation and its rollback. -/
def stepRollback (now : Int) (t : RollbackTask) (op : AutomationOp) (s : Automation) :
    Except (Option StoreError) Automation :=
  if t ∉ s.rollbacks then .error none
  else
    match op, t.stage with
    | .beginObservation _ baseline, .pending false =>
      s.write now (beginObservation t.deployment baseline)
    | .finishValidation _ verdict detail, .pending false =>
      match Store.finishValidation t.deployment verdict detail now s.server.db with
      | .error e => .error (some e)
      | .ok (db, due) =>
        (s.write now fun _ => .ok db).map fun s =>
          if due then s.replaceRollback t { t with stage := .due } else s.dropRollback t
    | .rollBack _, .pending true => .ok (s.replaceRollback t { t with stage := .due })
    | .planRollback _ id r c correlation, .due =>
      (s.commit now (.lifecycle (.planDeployment t.app id r c correlation))).map fun s =>
        (s.notePlan fun l => { l with rollbackPlans := id :: l.rollbackPlans }).replaceRollback t
          { t with stage := .planned id }
    | .nameRollback _, .planned id =>
      (s.write now (markRollbackPlanned t.deployment id)).map
        (replaceRollback t { t with stage := .named id })
    | .applyRollback _ confirm c, .named id =>
      (s.commit now (.lifecycle (.applyDeployment t.app id confirm
        (some ⟨t.policy, t.actor, none⟩) c))).map
        (replaceRollback t { t with stage := .applied id })
    | .deliverRollback _ true, .applied _ =>
      .ok (s.replaceRollback t { t with stage := .decided .applied "" })
    | .deliverRollback _ false, .applied id =>
      (s.commit now (.lifecycle (.failDeployment id
        "the endpoint disconnected before the deployment was sent"))).map
        (replaceRollback t { t with stage := .decided .failed rollbackNotSent })
    | .giveUpRollback _ outcome detail, stage =>
      if outcome = .applied ∨ stage.unsent = false then .error none
      else .ok (s.replaceRollback t { t with stage := .decided outcome detail })
    | .finishRollback _, .decided outcome detail =>
      (s.write now (markRollbackOutcome t.deployment outcome detail now)).map (dropRollback t)
    | .dropRollback _, _ => .ok (s.dropRollback t)
    | _, _ => .error none

end Automation

/-- Users apply without a policy, and only the scheduler and the validation loop write their own
tables. -/
def StoreOp.byUser (db : Db) (op : StoreOp) : Bool :=
  op.sparesPolicies db &&
    match op with
    | .lifecycle (.applyDeployment _ _ _ guard _) => guard.isNone
    | _ => true

/-- One transaction or one step of a task at a time. -/
def automation : Machine Automation (Int × AutomationOp) (Option StoreError) where
  step op s :=
    match op.2 with
    | .store o => if o.byUser s.server.db = false then .error none else s.commit op.1 o
    | .putUpdatePolicy zones app actor id input =>
      s.write op.1 (putUpdatePolicy zones app actor id input op.1)
    | .deleteUpdatePolicy app => s.write op.1 (deleteUpdatePolicy app)
    | .resumeUpdatePolicy app => s.write op.1 (resumeUpdatePolicy app op.1)
    | .skipPolicyWindow policy occurrence id correlation outcome detail =>
      s.write op.1 (skipPolicyWindow policy occurrence id correlation outcome detail op.1)
    | .beginPolicyRun policy occurrence id correlation =>
      (s.write op.1 (beginPolicyRun policy.id occurrence id correlation op.1)).map fun s =>
        { s with runs := ⟨id, policy, none⟩ :: s.runs }
    | .planRun t .. | .applyRun t .. | .attachRun t | .finishRun t .. | .dropRun t =>
      s.stepRun op.1 t op.2
    | .readPending deployment =>
      match pendingValidation deployment s.server.db with
      | none => .error none
      | some t => .ok { s with rollbacks := t :: s.rollbacks }
    | .beginObservation t _ | .finishValidation t .. | .rollBack t | .planRollback t ..
    | .nameRollback t | .applyRollback t .. | .deliverRollback t _ | .giveUpRollback t ..
    | .finishRollback t | .dropRollback t => s.stepRollback op.1 t op.2
    | .decideNamedRollbacks => s.write op.1 (decideNamedRollbacks op.1)
    | .restart =>
      (s.write op.1 (reconcileAfterStart op.1)).map fun s => { s with runs := [], rollbacks := [] }

/-! ## What a step does to the tables -/

/-- Rows and validations go on: no closed row comes back, and a validation only gains. -/
structure Onward (fresh : List String) (db db' : Db) : Prop where
  rows : ∀ d' ∈ db'.deployments, (∃ d ∈ db.deployments, d'.id = d.id ∧
    (d.state = .succeeded → d'.state = .succeeded)) ∨ d'.id ∈ fresh
  back : ∀ v' ∈ db'.validations, (∃ v ∈ db.validations, v.Later v') ∨
    ∃ d ∈ db.deployments, d.id = v'.deploymentID ∧ d.state ≠ .succeeded
  forth : ∀ v ∈ db.validations, (∃ v' ∈ db'.validations, v.Later v') ∨
    ∀ d' ∈ db'.deployments, d'.id ≠ v.deploymentID

section Onwards

variable {now : Int} {fresh sends forRun : List String} {ledger : Ledger} {db db' : Db}

theorem Validation.Same.later {v v' : Validation} (h : v.Same v') : v.Later v' := by
  rw [h.1]
  exact ⟨rfl, rfl, rfl, fun _ hx => hx, fun _ hx => hx, fun _ hx => hx⟩

theorem Validation.Same.recorded {v v' : Validation} (h : v.Same v') (hv : v.Recorded ledger) :
    v'.Recorded ledger := by
  rw [h.1]
  exact ⟨hv.verdict, hv.named, hv.planned, hv.outcome, hv.applied, hv.automated, hv.done⟩

theorem Validation.Recorded.more {v : Validation} (h : v.Recorded ledger) :
    v.Recorded (ledger.send sends) := by
  refine ⟨h.verdict, h.named, h.planned, h.outcome, fun ha => ?_, h.automated, h.done⟩
  obtain ⟨id, hid, hname⟩ := h.applied ha
  exact ⟨id, List.mem_append_right _ hid, hname⟩

theorem Follows.onward (h : Follows now fresh sends forRun db db') : Onward fresh db db' := by
  refine ⟨?_, ?_, ?_⟩
  · intro d' hd'
    rcases h.rows d' hd' with ⟨d, hd, hg⟩ | ⟨hfresh, -⟩
    · exact .inl ⟨d, hd, hg.id, hg.succeeded⟩
    · exact .inr hfresh
  · intro v' hv'
    rcases h.back v' hv' with ⟨v, hv, hs⟩ | ⟨d, hd, hstate, rfl⟩
    · exact .inl ⟨v, hv, hs.later⟩
    · exact .inr ⟨d, hd, rfl, hstate⟩
  · intro v hv
    rcases h.forth v hv with ⟨v', hv', hs⟩ | hgone
    · exact .inl ⟨v', hv', hs.later⟩
    · exact .inr hgone

theorem Tends.onward (h : Tends ledger db db') : Onward fresh db db' := by
  obtain ⟨f, g, k, h, -⟩ := h
  refine ⟨?_, ?_, ?_⟩
  · rw [h.deployments]
    exact fun d hd => .inl ⟨d, hd, rfl, fun hs => hs⟩
  · intro v' hv'
    rw [h.validations] at hv'
    obtain ⟨v, hv, rfl⟩ := List.mem_map.1 hv'
    exact .inl ⟨v, hv, (h.validation v hv).1⟩
  · intro v hv
    refine .inl ⟨k v, ?_, (h.validation v hv).1⟩
    rw [h.validations]
    exact List.mem_map_of_mem hv

theorem Onward.of_tables (deployments : db'.deployments = db.deployments)
    (validations : db'.validations = db.validations) : Onward fresh db db' := by
  refine ⟨?_, ?_, ?_⟩
  · rw [deployments]
    exact fun d hd => .inl ⟨d, hd, rfl, fun hs => hs⟩
  · rw [validations]
    exact fun v hv => .inl ⟨v, hv, .refl v⟩
  · rw [validations]
    exact fun v hv => .inl ⟨v, hv, .refl v⟩

theorem Follows.kept (h : Follows now fresh sends forRun db db') (hdb : Kept ledger db)
    (hforRun : ∀ id ∈ forRun, id ∈ ledger.runPlans) : Kept (ledger.send sends) db' := by
  obtain ⟨q, hq⟩ := h.policies
  obtain ⟨r, hr⟩ := h.runs
  have hpolicies : ∀ p ∈ db'.policies, p ∈ db.policies := by
    rw [hq]
    exact fun p hp => (List.mem_filter.1 hp).1
  have hruns : ∀ x ∈ db'.runs, x ∈ db.runs := by
    rw [hr]
    exact fun x hx => (List.mem_filter.1 hx).1
  refine ⟨?_, fun p hp => hdb.within p (hpolicies p hp), ?_, ?_,
    fun x hx p hp hid => hdb.owner x (hruns x hx) p (hpolicies p hp) hid, h.housed hdb.home,
    h.distinct hdb.validationIDs, ?_, ?_, ?_⟩
  · rw [hq]
    exact hdb.policyIDs.sublist (List.filter_sublist.map _)
  · rw [hr]
    exact hdb.runIDs.sublist (List.filter_sublist.map _)
  · rw [hr]
    exact hdb.windows.sublist (List.filter_sublist.map _)
  · intro v' hv'
    rcases h.back v' hv' with ⟨v, hv, hs⟩ | ⟨d, hd, -, rfl⟩
    · exact (hs.recorded (hdb.recorded v hv)).more
    · have hrun := fun hauto => hdb.applied d hd (Option.isSome_iff_ne_none.1 hauto)
      refine ⟨?_, ?_, ?_, ?_, ?_, hrun, ?_⟩ <;> simp [openedValidation]
  · intro d' hd' hstate
    rcases h.rows d' hd' with ⟨d, hd, hg⟩ | ⟨-, -, -, hsends⟩
    · rw [hg.id]
      rcases hg.planned hstate with hs | hs
      · exact List.mem_append_right _ (hdb.sent d hd hs)
      · exact List.mem_append_left _ hs
    · exact List.mem_append_left _ (hsends hstate)
  · intro d' hd' hrun
    rcases h.rows d' hd' with ⟨d, hd, hg⟩ | ⟨-, hnone, -⟩
    · rw [hg.id]
      rcases hg.run hrun with hs | hs
      · exact hdb.applied d hd hs
      · exact hforRun d.id hs
    · exact absurd hnone hrun

end Onwards

/-! ## Policies and runs -/

/-- The runs that have their outcome now and had none before. -/
def Db.finishedSince (db db' : Db) : List PolicyRun :=
  db'.runs.filter fun r => r.outcome.isSome && !(db.run? r.id).any (·.outcome.isSome)

/-- The policies that were active and are paused now. -/
def Db.pausedSince (db db' : Db) : List UpdatePolicy :=
  db.policies.filter fun p => p.status = .active && (db'.policy? p.id).any (·.status = .paused)

/-- What a step does to policies and runs: an outcome stays, the audit log gains one row for each run
that finishes and for each policy that pauses, and a run is opened for an active policy only. A
policy's failures in a row are counted from the outcomes of its runs that finish, unless it is
resumed, and a new policy has none. -/
structure PolicyStep (db db' : Db) : Prop where
  stays : ∀ r ∈ db.runs, ∀ r' ∈ db'.runs, r'.id = r.id → r.outcome ≠ none → r'.outcome = r.outcome
  runRows : db'.runRows.Perm (db.runRows ++ (db.finishedSince db').map PolicyRun.row)
  pauseRows : db'.pauseRows.Perm (db.pauseRows ++ (db.pausedSince db').map UpdatePolicy.row)
  opened : ∀ r' ∈ db'.runs, (∀ r ∈ db.runs, r.id ≠ r'.id) →
    ∃ p ∈ db.policies, p.id = r'.policyID ∧ p.status = .active
  counted : ∀ p ∈ db.policies, ∀ p' ∈ db'.policies, p'.id = p.id →
    (p.status = .paused ∧ p'.status = .active ∧ p'.consecutiveFailures = 0) ∨
      CountsTo p.consecutiveFailures ((db.finishedSince db').filter (·.policyID = p.id))
        p'.consecutiveFailures
  created : ∀ p' ∈ db'.policies, (∀ p ∈ db.policies, p.id ≠ p'.id) → p'.consecutiveFailures = 0

section Policies

variable {now : Int} {fresh sends forRun : List String} {ledger : Ledger} {db db₁ db' : Db}

theorem Kept.run?_eq (hdb : Kept ledger db) {r : PolicyRun} (hr : r ∈ db.runs) :
    db.run? r.id = some r :=
  Table.find_of_mem PolicyRun.id hdb.runIDs hr

/-- The runs that finish when rows change in place. -/
theorem Upkeep.finishedSince {f : PolicyRun → PolicyRun} {g : UpdatePolicy → UpdatePolicy}
    {k : Validation → Validation} (h : Upkeep ledger f g k db db') (hdb : Kept ledger db) :
    db.finishedSince db' =
      (db.runs.filter fun r => r.outcome.isNone && (f r).outcome.isSome).map f := by
  rw [Db.finishedSince, h.runs, List.filter_map]
  congr 1
  apply List.filter_congr
  intro r hr
  simp only [Function.comp_apply, (h.run r).1, hdb.run?_eq hr]
  cases ho : r.outcome <;> simp [ho]

/-- Rows that change in place. -/
theorem Tends.policyStep (h : Tends ledger db db') (hdb : Kept ledger db) : PolicyStep db db' := by
  have hdb' := h.kept hdb
  obtain ⟨f, g, k, h, htally⟩ := h
  have hfinished := h.finishedSince hdb
  have hpolicy : ∀ p ∈ db.policies, db'.policy? p.id = some (g p) := by
    intro p hp
    rw [← (h.policy p).1]
    apply Table.find_of_mem UpdatePolicy.id hdb'.policyIDs
    rw [h.policies]
    exact List.mem_map_of_mem hp
  refine ⟨?_, ?_, ?_, ?_, ?_, ?_⟩
  · intro r hr r' hr' hid hne
    rw [h.runs] at hr'
    obtain ⟨e, he, rfl⟩ := List.mem_map.1 hr'
    have her : e = r := List.inj_on_of_nodup_map hdb.runIDs he hr ((h.run e).1.symm.trans hid)
    rw [her, (h.run r).2.2.2.2 hne]
  · have hrows : (db.finishedSince db').map PolicyRun.row =
        (db.runs.filter fun r => r.outcome.isNone && (f r).outcome.isSome).map PolicyRun.row := by
      rw [hfinished, List.map_map]
      exact List.map_congr_left fun r _ => (h.run r).row
    rw [hrows]
    exact h.runRows
  · have hrows : db.pausedSince db' =
        db.policies.filter fun p => p.status = .active && (g p).status = .paused := by
      apply List.filter_congr
      intro p hp
      rw [hpolicy p hp]
      simp
    rw [hrows]
    exact h.pauseRows
  · intro r' hr' hnew
    rw [h.runs] at hr'
    obtain ⟨r, hr, rfl⟩ := List.mem_map.1 hr'
    exact absurd (h.run r).1.symm (hnew r hr)
  · intro p hp p' hp' hid
    have hfind := Table.find_of_mem UpdatePolicy.id hdb'.policyIDs hp'
    rw [hid] at hfind
    obtain rfl : g p = p' := Option.some.inj ((hpolicy p hp).symm.trans hfind)
    have hruns : (db.finishedSince db').filter (·.policyID = p.id) = finishing f db p.id := by
      rw [hfinished, List.filter_map, finishing]
      congr 1
      exact List.filter_congr fun r _ => by simp [(h.run r).2.1]
    rw [hruns]
    exact .inr (htally p hp)
  · intro p' hp' hnew
    rw [h.policies] at hp'
    obtain ⟨p, hp, rfl⟩ := List.mem_map.1 hp'
    exact absurd (h.policy p).1.symm (hnew p hp)

/-- No run finishes and no policy pauses. -/
theorem PolicyStep.of_frame (hdb : Kept ledger db) (hrows : db'.runRows = db.runRows)
    (hpauses : db'.pauseRows = db.pauseRows)
    (hruns : ∀ r' ∈ db'.runs, r' ∈ db.runs ∨ r'.outcome = none ∧ (∀ r ∈ db.runs, r.id ≠ r'.id) ∧
      ∃ p ∈ db.policies, p.id = r'.policyID ∧ p.status = .active)
    (hpolicies : ∀ p' ∈ db'.policies,
      p' ∈ db.policies ∨ p'.status = .active ∧ p'.consecutiveFailures = 0 ∧
        ∀ p ∈ db.policies, p.id = p'.id → p.status = .paused) : PolicyStep db db' := by
  have hfinished : db.finishedSince db' = [] := by
    rw [Db.finishedSince, List.filter_eq_nil_iff]
    intro r' hr'
    rcases hruns r' hr' with hmem | ⟨hopen, -⟩
    · rw [hdb.run?_eq hmem]
      cases ho : r'.outcome <;> simp [ho]
    · simp [hopen]
  refine ⟨?_, ?_, ?_, ?_, ?_, ?_⟩
  · intro r hr r' hr' hid _
    rcases hruns r' hr' with hmem | ⟨-, hnew, -⟩
    · rw [List.inj_on_of_nodup_map hdb.runIDs hmem hr hid]
    · exact absurd hid.symm (hnew r hr)
  · rw [hfinished, hrows, List.map_nil, List.append_nil]
  · have hnone : db.pausedSince db' = [] := by
      rw [Db.pausedSince, List.filter_eq_nil_iff]
      intro p hp hpaused
      simp only [Bool.and_eq_true, decide_eq_true_eq, Option.any_eq_true] at hpaused
      obtain ⟨hactive, p', hfind, hp'⟩ := hpaused
      rcases hpolicies p' (Table.mem_of_find _ hfind) with hmem | ⟨hs, -⟩
      · rw [List.inj_on_of_nodup_map hdb.policyIDs hmem hp (Table.key_of_find _ hfind), hactive] at hp'
        cases hp'
      · rw [hs] at hp'
        cases hp'
    rw [hnone, hpauses, List.map_nil, List.append_nil]
  · intro r' hr' hnew
    rcases hruns r' hr' with hmem | ⟨-, -, hactive⟩
    · exact absurd rfl (hnew r' hmem)
    · exact hactive
  · intro p hp p' hp' hid
    rcases hpolicies p' hp' with hmem | ⟨hactive, hzero, hpaused⟩
    · rw [hfinished, List.inj_on_of_nodup_map hdb.policyIDs hmem hp hid]
      exact .inr (.refl _)
    · exact .inl ⟨hpaused p hp hid.symm, hactive, hzero⟩
  · intro p' hp' hnew
    rcases hpolicies p' hp' with hmem | ⟨-, hzero, -⟩
    · exact absurd rfl (hnew p' hmem)
    · exact hzero

theorem Follows.policyStep (h : Follows now fresh sends forRun db db') (hdb : Kept ledger db) :
    PolicyStep db db' := by
  obtain ⟨q, hq⟩ := h.policies
  obtain ⟨r, hr⟩ := h.runs
  refine .of_frame hdb h.audit.1 h.audit.2 ?_ ?_
  · rw [hr]
    exact fun r' hr' => .inl (List.mem_filter.1 hr').1
  · rw [hq]
    exact fun p hp => .inl (List.mem_filter.1 hp).1

/-! ### Policies saved and resumed -/

theorem putUpdatePolicy_ok {zones : String → Option Zone} {app actor id : String}
    {input : PolicyInput} (hdb : Kept ledger db)
    (h : putUpdatePolicy zones app actor id input now db = .ok db') :
    Tends ledger db db' ∨ ∃ p : UpdatePolicy, p.status = .active ∧ p.consecutiveFailures = 0 ∧
      (∀ q ∈ db.policies, q.id ≠ p.id) ∧ db' = { db with policies := db.policies ++ [p] } := by
  unfold putUpdatePolicy at h
  split at h
  · cases h
  rw [guard_error_eq_ok] at h
  obtain ⟨-, h⟩ := h
  split at h
  · rw [guard_error_eq_ok] at h
    obtain ⟨hfree, h⟩ := h
    cases h
    refine .inr ⟨_, rfl, rfl, ?_, rfl⟩
    simpa using hfree
  · cases h
    refine .inl ((Upkeep.of_policies hdb ?_ ?_).tends (fun _ _ => rfl) ?_)
    · intro q
      split
      · exact ⟨⟨rfl, rfl, fun hs => hs⟩, rfl⟩
      · exact ⟨.refl q, rfl⟩
    · intro q hq
      split
      · exact hdb.within q hq
      · exact hdb.within q hq
    · intro q _
      split <;> rfl

theorem Kept.create (hdb : Kept ledger db) {p : UpdatePolicy} (hfailures : p.consecutiveFailures = 0)
    (hfree : ∀ q ∈ db.policies, q.id ≠ p.id) :
    Kept ledger { db with policies := db.policies ++ [p] } := by
  refine ⟨?_, ?_, hdb.runIDs, hdb.windows, ?_, ?_, hdb.validationIDs, hdb.recorded, hdb.sent,
    hdb.applied⟩
  · exact Table.nodup_concat hdb.policyIDs hfree
  · intro q hq
    rcases Table.mem_concat.1 hq with hq | hq
    · exact hdb.within q hq
    · rw [hq]
      intro _
      simp [hfailures, policyFailureLimit]
  · intro r hr q hq hid
    rcases Table.mem_concat.1 hq with hq | hq
    · exact hdb.owner r hr q hq hid
    · -- a run's policy is there already, so the new id is not its
      obtain ⟨p', hp', hid'⟩ := hdb.home r hr
      rw [hq] at hid
      exact absurd (hid'.trans hid.symm) (hfree p' hp')
  · intro r hr
    obtain ⟨p', hp', hid⟩ := hdb.home r hr
    exact ⟨p', List.mem_append_left _ hp', hid⟩

theorem resumeUpdatePolicy_ok {app : String} (h : resumeUpdatePolicy app now db = .ok db') :
    ∃ p ∈ db.policies, p.status = .paused ∧ db' = { db with
      policies := Table.updateWhere (fun q => q.id = p.id) (·.resumed now) db.policies } := by
  unfold resumeUpdatePolicy at h
  split at h
  · cases h
  next p hp =>
  rw [guard_error_eq_ok, not_not] at h
  exact ⟨p, Table.mem_of_find _ hp, h.1, (Except.ok.inj h.2).symm⟩

theorem Kept.resume (hdb : Kept ledger db) (id : String) (now : Int) :
    Kept ledger { db with
      policies := Table.updateWhere (fun q => q.id = id) (·.resumed now) db.policies } := by
  refine ⟨?_, ?_, hdb.runIDs, hdb.windows, ?_, ?_, hdb.validationIDs, hdb.recorded, hdb.sent,
    hdb.applied⟩
  · exact Table.nodup_updateWhere hdb.policyIDs fun _ => rfl
  · intro p' hp'
    obtain ⟨p, hp, rfl⟩ := Table.mem_updateWhere.1 hp'
    split
    · intro _
      simp [UpdatePolicy.resumed, policyFailureLimit]
    · exact hdb.within p hp
  · intro r hr p' hp' hid
    obtain ⟨p, hp, rfl⟩ := Table.mem_updateWhere.1 hp'
    split at hid
    · next hq =>
      rw [if_pos hq]
      exact hdb.owner r hr p hp hid
    · next hq =>
      rw [if_neg hq]
      exact hdb.owner r hr p hp hid
  · intro r hr
    obtain ⟨p, hp, hid⟩ := hdb.home r hr
    refine ⟨_, Table.mem_updateWhere.2 ⟨p, hp, rfl⟩, ?_⟩
    split <;> exact hid

/-! ### Runs opened -/

theorem insertPolicyRun_ok {policy id correlation : String} {occurrence : Int}
    (h : insertPolicyRun policy occurrence id correlation now db = .ok db') :
    ∃ p r, p ∈ db.policies ∧ p.status = .active ∧ r.policyID = p.id ∧
      r.applicationID = p.applicationID ∧ r.outcome = none ∧
      (∀ e ∈ db.runs, e.id ≠ r.id ∧ (e.policyID, e.occurrence) ≠ (r.policyID, r.occurrence)) ∧
      db' = { db with runs := db.runs ++ [r] } := by
  unfold insertPolicyRun at h
  split at h
  · cases h
  next p hp =>
  obtain ⟨hfind, hactive⟩ := Option.filter_eq_some_iff.1 hp
  simp only [guard_error_eq_ok, Except.ok.injEq] at h
  obtain ⟨hfree, rfl⟩ := h
  have hid := Table.key_of_find _ hfind
  refine ⟨p, _, Table.mem_of_find _ hfind, by simpa using hactive, hid.symm, rfl, rfl, ?_, rfl⟩
  intro e he
  simp only [List.any_eq_true, Bool.or_eq_true, Bool.and_eq_true, decide_eq_true_eq, not_exists,
    not_and, not_or] at hfree
  obtain ⟨h₁, h₂⟩ := hfree e he
  refine ⟨h₁, fun heq => ?_⟩
  rw [Prod.mk.injEq] at heq
  exact h₂ heq.1 heq.2

theorem Kept.open (hdb : Kept ledger db) {p : UpdatePolicy} {r : PolicyRun} (hp : p ∈ db.policies)
    (hpolicy : r.policyID = p.id) (happ : r.applicationID = p.applicationID)
    (hfree : ∀ e ∈ db.runs, e.id ≠ r.id ∧
      (e.policyID, e.occurrence) ≠ (r.policyID, r.occurrence)) :
    Kept ledger { db with runs := db.runs ++ [r] } := by
  refine ⟨hdb.policyIDs, hdb.within, Table.nodup_concat hdb.runIDs fun e he => (hfree e he).1,
    Table.nodup_concat hdb.windows fun e he => (hfree e he).2, ?_, ?_, hdb.validationIDs,
    hdb.recorded, hdb.sent, hdb.applied⟩
  · intro e he q hq hid
    rcases Table.mem_concat.1 he with he | he
    · exact hdb.owner e he q hq hid
    · rw [he] at hid ⊢
      rw [happ, List.inj_on_of_nodup_map hdb.policyIDs hq hp (hid.trans hpolicy)]
  · intro e he
    rcases Table.mem_concat.1 he with he | he
    · exact hdb.home e he
    · rw [he]
      exact ⟨p, hp, hpolicy.symm⟩

/-- A run opened and then finished. -/
theorem PolicyStep.after_open (hdb : Kept ledger db) {p : UpdatePolicy} {r : PolicyRun}
    (hp : p ∈ db.policies) (hactive : p.status = .active) (hpolicy : r.policyID = p.id)
    (happ : r.applicationID = p.applicationID) (hopen : r.outcome = none)
    (hfree : ∀ e ∈ db.runs, e.id ≠ r.id ∧ (e.policyID, e.occurrence) ≠ (r.policyID, r.occurrence))
    (h : Tends ledger { db with runs := db.runs ++ [r] } db') : PolicyStep db db' := by
  have hkept := hdb.open hp hpolicy happ hfree
  have hstep := h.policyStep hkept
  -- the new run was open, so it counts as finished from both sides
  have hsame : db.finishedSince db' =
      ({ db with runs := db.runs ++ [r] } : Db).finishedSince db' := by
    apply List.filter_congr
    intro e _
    have hfind : (({ db with runs := db.runs ++ [r] } : Db).run? e.id).any (·.outcome.isSome) =
        (db.run? e.id).any (·.outcome.isSome) := by
      simp only [Db.run?, Table.find, List.find?_append]
      cases db.runs.find? fun x => x.id = e.id with
      | some => rfl
      | none => by_cases hr : r.id = e.id <;> simp [hr, hopen]
    rw [hfind]
  refine ⟨fun e he => hstep.stays e (List.mem_append_left _ he), ?_, hstep.pauseRows, ?_, ?_,
    hstep.created⟩
  · rw [hsame]
    exact hstep.runRows
  · intro r' hr' hnew
    obtain ⟨f, g, k, h, -⟩ := h
    rw [h.runs] at hr'
    obtain ⟨e, he, rfl⟩ := List.mem_map.1 hr'
    rcases Table.mem_concat.1 he with he | he
    · exact absurd (h.run e).1.symm (hnew e he)
    · rw [he, (h.run r).2.1, hpolicy]
      exact ⟨p, hp, rfl, hactive⟩
  · rw [hsame]
    exact hstep.counted

end Policies

/-! ## The invariant of the machine -/

/-- The ledger only grows. -/
def Ledger.Le (l l' : Ledger) : Prop :=
  (∀ id ∈ l.sent, id ∈ l'.sent) ∧ (∀ id ∈ l.runPlans, id ∈ l'.runPlans) ∧
    ∀ id ∈ l.rollbackPlans, id ∈ l'.rollbackPlans

/-- What a stage says about the deployment it carries; `names id` stands for the validation naming
it. -/
def RollbackStage.Fits (ledger : Ledger) (names : String → Prop) : RollbackStage → Prop
  | pending _ => True
  | due => True
  | planned id => id ∈ ledger.rollbackPlans
  | named id => names id
  | applied id => names id ∧ id ∈ ledger.sent
  | decided .applied _ => ∃ id ∈ ledger.sent, names id
  | decided _ _ => True

/-- The validation, if it is still there, names this rollback. -/
def RollbackTask.Names (t : RollbackTask) (db : Db) (id : String) : Prop :=
  ∀ v ∈ db.validations, v.deploymentID = t.deployment → v.rollbackDeploymentID = some id

/-- A task works for a deployment that succeeded, and remembers what it did. -/
structure RollbackTask.Inv (ledger : Ledger) (used : List String) (db : Db) (t : RollbackTask) :
    Prop where
  known : t.deployment ∈ used
  settled : ∀ d ∈ db.deployments, d.id = t.deployment → d.state = .succeeded
  fits : t.stage.Fits ledger (t.Names db)

/-- The invariant. -/
structure Automation.Inv (s : Automation) : Prop where
  sound : Sound s.server.clock s.server.used s.server.db
  kept : Kept s.ledger s.server.db
  watched : Watched s.server.db
  disjoint : ∀ id ∈ s.ledger.runPlans, id ∉ s.ledger.rollbackPlans
  drawn : ∀ id, id ∈ s.ledger.runPlans ∨ id ∈ s.ledger.rollbackPlans → id ∈ s.server.used
  runs : ∀ t ∈ s.runs, ∀ id, t.planned = some id → id ∈ s.ledger.runPlans
  rollbacks : ∀ t ∈ s.rollbacks, t.Inv s.ledger s.server.used s.server.db

/-- What a step does to the tables. -/
structure Advance (fresh : List String) (db db' : Db) : Prop where
  policies : PolicyStep db db'
  onward : Onward fresh db db'
  paused : ∀ v ∈ db.validations, ∀ v' ∈ db'.validations, v'.deploymentID = v.deploymentID →
    v.rollbackOutcome = none → v'.rollbackOutcome ≠ none → db'.PausedFor v'

section Invariant

variable {now : Int} {fresh sends forRun used : List String} {ledger ledger' : Ledger}
  {db db' : Db}

theorem RollbackStage.Fits.mono {stage : RollbackStage} {names names' : String → Prop}
    (h : stage.Fits ledger names) (hledger : ledger.Le ledger') (hnames : ∀ id, names id → names' id) :
    stage.Fits ledger' names' := by
  cases stage with
  | pending => trivial
  | due => trivial
  | planned id => exact hledger.2.2 id h
  | named id => exact hnames id h
  | applied id => exact ⟨hnames id h.1, hledger.1 id h.2⟩
  | decided outcome =>
    cases outcome with
    | applied =>
      obtain ⟨id, hid, hn⟩ := h
      exact ⟨id, hledger.1 id hid, hnames id hn⟩
    | ineligible => trivial
    | failed => trivial

/-- A task stands through every step of the tables. -/
theorem RollbackTask.Inv.onward {t : RollbackTask} (h : t.Inv ledger used db)
    (ho : Onward fresh db db') (hfresh : ∀ id ∈ fresh, id ∉ used) (hledger : ledger.Le ledger') :
    t.Inv ledger' (fresh ++ used) db' := by
  refine ⟨List.mem_append_right _ h.known, ?_, h.fits.mono hledger ?_⟩
  · intro d' hd' hid
    rcases ho.rows d' hd' with ⟨d, hd, heq, hs⟩ | hf
    · exact hs (h.settled d hd (heq.symm.trans hid))
    · exact absurd h.known (hfresh _ (hid ▸ hf))
  · intro id hn v' hv' hid
    rcases ho.back v' hv' with ⟨v, hv, hlater⟩ | ⟨d, hd, heq, hne⟩
    · exact hlater.2.2.2.2.1 id (hn v hv (hlater.1.symm.trans hid))
    · exact absurd (h.settled d hd (heq.trans hid)) hne

theorem Kept.mono (h : Kept ledger db) (hledger : ledger.Le ledger') : Kept ledger' db := by
  refine ⟨h.policyIDs, h.within, h.runIDs, h.windows, h.owner, h.home, h.validationIDs, ?_,
    fun d hd hs => hledger.1 _ (h.sent d hd hs), fun d hd hr => hledger.2.1 _ (h.applied d hd hr)⟩
  intro v hv
  have hrec := h.recorded v hv
  refine ⟨hrec.verdict, hrec.named, fun id hid => hledger.2.2 id (hrec.planned id hid), hrec.outcome,
    fun ha => ?_, fun ha => hledger.2.1 _ (hrec.automated ha), hrec.done⟩
  obtain ⟨id, hid, hname⟩ := hrec.applied ha
  exact ⟨id, hledger.1 id hid, hname⟩

theorem Ledger.Le.refl (l : Ledger) : l.Le l := ⟨fun _ h => h, fun _ h => h, fun _ h => h⟩

theorem Ledger.Le.trans {l₁ l₂ l₃ : Ledger} (h : l₁.Le l₂) (h' : l₂.Le l₃) : l₁.Le l₃ :=
  ⟨fun id hid => h'.1 id (h.1 id hid), fun id hid => h'.2.1 id (h.2.1 id hid),
    fun id hid => h'.2.2 id (h.2.2 id hid)⟩

theorem Ledger.le_send (l : Ledger) (sends : List String) : l.Le (l.send sends) :=
  ⟨fun _ h => List.mem_append_right _ h, fun _ h => h, fun _ h => h⟩

theorem Follows.advance (h : Follows now fresh sends forRun db db') (hdb : Kept ledger db) :
    Advance fresh db db' := by
  refine ⟨h.policyStep hdb, h.onward, ?_⟩
  intro v hv v' hv' hid hnone hsome
  rcases h.back v' hv' with ⟨w, hw, hs⟩ | ⟨d, -, -, rfl⟩
  · have hwv : w = v := List.inj_on_of_nodup_map hdb.validationIDs hw hv (hs.id.symm.trans hid)
    rw [hs.1, hwv] at hsome
    exact absurd hnone hsome
  · exact absurd rfl hsome

theorem Tends.advance (h : Tends ledger db db') (hdb : Kept ledger db) : Advance fresh db db' := by
  refine ⟨h.policyStep hdb, h.onward, ?_⟩
  obtain ⟨f, g, k, h, -⟩ := h
  intro v hv v' hv' hid hnone hsome
  rw [h.validations] at hv'
  obtain ⟨w, hw, rfl⟩ := List.mem_map.1 hv'
  have hwv : w = v :=
    List.inj_on_of_nodup_map hdb.validationIDs hw hv ((h.validation w hw).1.1.symm.trans hid)
  exact h.paused w hw (hwv ▸ hnone) hsome

/-- A step that leaves deployments and validations alone. -/
theorem Advance.of_policyStep (hdb : Kept ledger db) (h : PolicyStep db db')
    (deployments : db'.deployments = db.deployments) (validations : db'.validations = db.validations) :
    Advance fresh db db' := by
  refine ⟨h, .of_tables deployments validations, ?_⟩
  intro v hv v' hv' hid hnone hsome
  rw [validations] at hv'
  rw [List.inj_on_of_nodup_map hdb.validationIDs hv' hv hid] at hsome
  exact absurd hnone hsome

theorem Tends.watched (h : Tends ledger db db') (hw : Watched db) : Watched db' := by
  obtain ⟨f, g, k, h, -⟩ := h
  intro id
  unfold Db.Succeeded
  rw [h.deployments, h.validations, Table.map_col fun v hv => (h.validation v hv).1.1]
  exact hw id

theorem Tends.sound {clock : Int} (h : Tends ledger db db') (hs : Sound clock used db) :
    Sound clock used db' := by
  obtain ⟨f, g, k, h, -⟩ := h
  refine hs.tables le_rfl h.deployments ?_
  have hrest := congrArg Db.instances h.rest
  exact hrest

end Invariant

/-- A step of a task that is already at work. -/
def AutomationOp.ofTask : AutomationOp → Bool
  | .store _ | .putUpdatePolicy .. | .deleteUpdatePolicy _ | .resumeUpdatePolicy _
  | .skipPolicyWindow .. | .beginPolicyRun .. | .readPending _ | .decideNamedRollbacks
  | .restart => false
  | _ => true

namespace Automation

variable {s s' : Automation} {now : Int}

theorem inv_new : Automation.new.Inv := by
  refine ⟨Server.inv_new.sound, ⟨List.nodup_nil, ?_, List.nodup_nil, List.nodup_nil, ?_, ?_,
    List.nodup_nil, ?_, ?_, ?_⟩, ?_, ?_, ?_, ?_, ?_⟩
  · intro p hp
    cases hp
  · intro r hr
    cases hr
  · intro r hr
    cases hr
  · intro v hv
    cases hv
  · intro d hd
    cases hd
  · intro d hd
    cases hd
  · intro id
    constructor
    · rintro ⟨d, hd, -⟩
      cases hd
    · intro hid
      cases hid
  · intro id hid
    cases hid
  · rintro id (hid | hid)
    · cases hid
    · cases hid
  · intro t ht
    cases ht
  · intro t ht
    cases ht

theorem commit_ok {op : StoreOp} (h : s.commit now op = .ok s') :
    s.server.clock < now ∧ (∀ id ∈ op.fresh, id ∉ s.server.used) ∧
      ∃ db, op.exec now s.server.db = .ok db ∧
        s' = { s with
          server := ⟨db, now, op.fresh ++ s.server.used⟩, ledger := s.ledger.send op.sends } := by
  unfold commit at h
  split at h
  · cases h
  next server hstep =>
  obtain ⟨hclock, hfresh, db, hexec, rfl⟩ := serverMachine_ok hstep
  exact ⟨hclock, hfresh, db, hexec, (Except.ok.inj h).symm⟩

theorem write_ok {tx : Db → Except StoreError Db} (h : s.write now tx = .ok s') :
    s.server.clock < now ∧ ∃ db, tx s.server.db = .ok db ∧
      s' = { s with server := { s.server with db := db, clock := now } } := by
  unfold write at h
  rw [guard_else_error_eq_ok] at h
  obtain ⟨hclock, h⟩ := h
  split at h
  · cases h
  next db hdb => exact ⟨hclock, db, hdb, (Except.ok.inj h).symm⟩

/-- The tables advance and the invariant holds again. -/
def Advances (s s' : Automation) : Prop :=
  s'.Inv ∧ (∀ id ∈ s.server.used, id ∈ s'.server.used) ∧ s.ledger.Le s'.ledger ∧
    ∃ fresh, (∀ id ∈ fresh, id ∉ s.server.used) ∧ Advance fresh s.server.db s'.server.db

/-- A transaction of the store keeps the invariant. -/
theorem Inv.commit (h : s.Inv) {op : StoreOp} (hspares : op.sparesPolicies s.server.db = true)
    (hrun : ∀ id ∈ op.forRun, id ∈ s.ledger.runPlans) (hc : s.commit now op = .ok s') :
    s.Advances s' ∧ s'.runs = s.runs ∧ s'.rollbacks = s.rollbacks ∧
      s'.ledger = s.ledger.send op.sends ∧ s'.server.used = op.fresh ++ s.server.used ∧
      (∀ id ∈ op.fresh, id ∉ s.server.used) := by
  obtain ⟨hclock, hfresh, db, hexec, rfl⟩ := commit_ok hc
  have hfollows := follows_of_exec h.sound.ids h.watched hspares hexec
  refine ⟨⟨⟨?_, hfollows.kept h.kept hrun, hfollows.watched, h.disjoint, ?_, h.runs, ?_⟩, ?_,
    s.ledger.le_send op.sends, op.fresh, hfresh, hfollows.advance h.kept⟩, rfl, rfl, rfl, rfl, hfresh⟩
  · have hstep : storeMachine.step (now, op) s.server = .ok ⟨db, now, op.fresh ++ s.server.used⟩ := by
      simp only [serverMachine, transactionMachine, guard_else_error_eq_ok, hexec]
      exact ⟨hclock, hfresh, trivial⟩
    exact Sound.store_step h.sound hstep
  · exact fun id hid => List.mem_append_right _ (h.drawn id hid)
  · intro t ht
    exact (h.rollbacks t ht).onward hfollows.onward hfresh (s.ledger.le_send op.sends)
  · exact fun id hid => List.mem_append_right _ hid

/-- So does a transaction of the scheduler or the validation loop. -/
theorem Inv.write (h : s.Inv) {tx : Db → Except StoreError Db}
    (htx : ∀ db', tx s.server.db = .ok db' → Sound s.server.clock s.server.used db' ∧
      Kept s.ledger db' ∧ Watched db' ∧ Advance [] s.server.db db') (hw : s.write now tx = .ok s') :
    s.Advances s' ∧ s'.runs = s.runs ∧ s'.rollbacks = s.rollbacks ∧ s'.ledger = s.ledger ∧
      s'.server.used = s.server.used ∧ tx s.server.db = .ok s'.server.db := by
  obtain ⟨hclock, db, hdb, rfl⟩ := write_ok hw
  obtain ⟨hsound, hkept, hwatched, hadvance⟩ := htx db hdb
  refine ⟨⟨⟨hsound.tables hclock.le rfl rfl, hkept, hwatched, h.disjoint, h.drawn, h.runs, ?_⟩,
    fun _ hid => hid, .refl _, [], fun _ hid => (by cases hid), hadvance⟩, rfl, rfl, rfl, rfl, hdb⟩
  intro t ht
  exact (h.rollbacks t ht).onward hadvance.onward (fun _ hid => (by cases hid)) (.refl _)

/-- Rows that change in place. -/
theorem Inv.tends (h : s.Inv) {db' : Db} (ht : Tends s.ledger s.server.db db') :
    Sound s.server.clock s.server.used db' ∧ Kept s.ledger db' ∧ Watched db' ∧
      Advance [] s.server.db db' :=
  ⟨ht.sound h.sound, ht.kept h.kept, ht.watched h.watched, ht.advance h.kept⟩

/-! ### What happens to tasks -/

theorem Advances.refl (h : s.Inv) : s.Advances s :=
  ⟨h, fun _ hid => hid, .refl _, [], fun _ hid => (by cases hid),
    (Tends.refl h.kept).advance h.kept⟩

variable {s₁ : Automation} {t : RollbackTask}

/-- A task starts, goes on or ends. -/
theorem Advances.tasks {runs : List RunTask} {rollbacks : List RollbackTask}
    (h : s.Advances s₁) (hruns : ∀ t ∈ runs, ∀ id, t.planned = some id → id ∈ s₁.ledger.runPlans)
    (hrollbacks : ∀ t ∈ rollbacks, t.Inv s₁.ledger s₁.server.used s₁.server.db) :
    s.Advances { s₁ with runs := runs, rollbacks := rollbacks } :=
  ⟨⟨h.1.sound, h.1.kept, h.1.watched, h.1.disjoint, h.1.drawn, hruns, hrollbacks⟩, h.2⟩

theorem Advances.replaceRun (h : s.Advances s₁) (t : RunTask) {t' : RunTask}
    (ht' : ∀ id, t'.planned = some id → id ∈ s₁.ledger.runPlans) :
    s.Advances (s₁.replaceRun t t') := by
  refine h.tasks ?_ h.1.rollbacks
  intro e he
  rcases List.mem_cons.1 he with rfl | he
  · exact ht'
  · exact h.1.runs e (List.mem_of_mem_erase he)

theorem Advances.replaceRollback (h : s.Advances s₁) (t : RollbackTask)
    {t' : RollbackTask} (ht' : t'.Inv s₁.ledger s₁.server.used s₁.server.db) :
    s.Advances (s₁.replaceRollback t t') := by
  refine h.tasks h.1.runs ?_
  intro e he
  rcases List.mem_cons.1 he with rfl | he
  · exact ht'
  · exact h.1.rollbacks e (List.mem_of_mem_erase he)

theorem Advances.eraseRun (h : s.Advances s₁) (t : RunTask) :
    s.Advances { s₁ with runs := s₁.runs.erase t } :=
  h.tasks (fun e he => h.1.runs e (List.mem_of_mem_erase he)) h.1.rollbacks

theorem Advances.dropRollback (h : s.Advances s₁) (t : RollbackTask) :
    s.Advances (s₁.dropRollback t) :=
  h.tasks h.1.runs fun e he => h.1.rollbacks e (List.mem_of_mem_erase he)

/-- A plan that no one had made before is noted. -/
theorem Inv.notePlan (h : s.Inv) (id : String) {note : Ledger → Ledger} (hused : id ∈ s.server.used)
    (hfree : ∀ x, x ∈ s.ledger.runPlans ∨ x ∈ s.ledger.rollbackPlans → x ≠ id)
    (hnote : note s.ledger = { s.ledger with runPlans := id :: s.ledger.runPlans } ∨
      note s.ledger = { s.ledger with rollbackPlans := id :: s.ledger.rollbackPlans }) :
    (s.notePlan note).Inv ∧ s.ledger.Le (note s.ledger) := by
  have hle : s.ledger.Le (note s.ledger) := by
    rcases hnote with hnote | hnote <;> rw [hnote]
    · exact ⟨fun _ hx => hx, fun _ hx => List.mem_cons_of_mem _ hx, fun _ hx => hx⟩
    · exact ⟨fun _ hx => hx, fun _ hx => hx, fun _ hx => List.mem_cons_of_mem _ hx⟩
  refine ⟨⟨h.sound, h.kept.mono hle, h.watched, ?_, ?_, ?_, ?_⟩, hle⟩
  · intro x hrun hback
    simp only [Automation.notePlan] at hrun hback
    rcases hnote with hnote | hnote <;> rw [hnote] at hrun hback
    · rcases List.mem_cons.1 hrun with rfl | hrun
      · exact hfree x (.inr hback) rfl
      · exact h.disjoint x hrun hback
    · rcases List.mem_cons.1 hback with rfl | hback
      · exact hfree x (.inl hrun) rfl
      · exact h.disjoint x hrun hback
  · intro x hx
    simp only [Automation.notePlan] at hx
    rcases hnote with hnote | hnote <;> rw [hnote] at hx
    · rcases hx with hx | hx
      · rcases List.mem_cons.1 hx with rfl | hx
        · exact hused
        · exact h.drawn x (.inl hx)
      · exact h.drawn x (.inr hx)
    · rcases hx with hx | hx
      · exact h.drawn x (.inl hx)
      · rcases List.mem_cons.1 hx with rfl | hx
        · exact hused
        · exact h.drawn x (.inr hx)
  · exact fun t ht id hid => hle.2.1 id (h.runs t ht id hid)
  · intro t ht
    have hinv := h.rollbacks t ht
    exact ⟨hinv.known, hinv.settled, hinv.fits.mono hle fun _ hn => hn⟩

/-- A plan made by a task. -/
theorem Inv.plan (h : s.Inv) {app id : String} {r : PlanRequest} {c : PlanContext}
    {correlation : RequestID} {note : Ledger → Ledger}
    (hc : s.commit now (.lifecycle (.planDeployment app id r c correlation)) = .ok s₁)
    (hnote : ∀ l : Ledger, note l = { l with runPlans := id :: l.runPlans } ∨
      note l = { l with rollbackPlans := id :: l.rollbackPlans }) :
    s.Advances (s₁.notePlan note) ∧ s₁.runs = s.runs ∧ s₁.rollbacks = s.rollbacks := by
  obtain ⟨hadv, hruns, hrollbacks, hledger, hused, hfresh⟩ :=
    h.commit rfl (fun _ hid => (by cases hid)) hc
  have hnew : id ∈ s₁.server.used := by
    rw [hused]
    exact List.mem_append_left _ List.mem_cons_self
  have hfree : ∀ x, x ∈ s₁.ledger.runPlans ∨ x ∈ s₁.ledger.rollbackPlans → x ≠ id := by
    intro x hx heq
    rw [hledger] at hx
    exact hfresh id List.mem_cons_self (heq ▸ h.drawn x hx)
  obtain ⟨hinv, hle⟩ := hadv.1.notePlan id hnew hfree (hnote _)
  exact ⟨⟨hinv, hadv.2.1, hadv.2.2.1.trans hle, hadv.2.2.2⟩, hruns, hrollbacks⟩

/-! ### The steps -/

/-- The step of a task is a run's or a rollback's. -/
theorem step_of_task {op : AutomationOp} (h : op.ofTask = true)
    (hstep : automation.step (now, op) s = .ok s') :
    (∃ t, s.stepRun now t op = .ok s') ∨ ∃ t, s.stepRollback now t op = .ok s' := by
  cases op with
  | planRun t | applyRun t | attachRun t | finishRun t | dropRun t => exact .inl ⟨t, hstep⟩
  | beginObservation t | finishValidation t | rollBack t | planRollback t | nameRollback t
  | applyRollback t | deliverRollback t | giveUpRollback t | finishRollback t | dropRollback t =>
    exact .inr ⟨t, hstep⟩
  | _ => cases h

theorem stepRun_advances (h : s.Inv) (now : Int) (t : RunTask) (op : AutomationOp)
    (hstep : s.stepRun now t op = .ok s') : s.Advances s' := by
  unfold stepRun at hstep
  rw [guard_error_eq_ok, not_not] at hstep
  obtain ⟨ht, hstep⟩ := hstep
  split at hstep
  · -- the plan is one of the run's
    next id r c correlation =>
    obtain ⟨s₁, hc, rfl⟩ := map_eq_ok.1 hstep
    refine (h.plan hc fun _ => .inl rfl).1.replaceRun t ?_
    intro x hx
    rw [← Option.some.inj hx]
    exact List.mem_cons_self
  · next confirm c =>
    split at hstep
    · cases hstep
    next id hid =>
    rw [guard_error_eq_ok] at hstep
    refine (h.commit rfl ?_ hstep.2).1
    intro x hx
    rw [List.mem_singleton.1 hx]
    exact h.runs t ht id hid
  · split at hstep
    · cases hstep
    exact (h.write (fun db' hdb' => h.tends (.of_attach h.kept hdb')) hstep).1
  · obtain ⟨s₁, hw, rfl⟩ := map_eq_ok.1 hstep
    exact (h.write (fun db' hdb' => h.tends (.of_finishPolicyRun h.kept hdb')) hw).1.eraseRun t
  · cases hstep
    exact (Advances.refl h).eraseRun t

/-- A task goes on to its next stage. -/
theorem Advances.restage (hadv : s.Advances s₁)
    (hrollbacks : s₁.rollbacks = s.rollbacks) (ht : t ∈ s.rollbacks)
    {stage : RollbackStage} (hfits : t.stage.Fits s₁.ledger (t.Names s₁.server.db) →
      stage.Fits s₁.ledger (t.Names s₁.server.db)) :
    s.Advances (s₁.replaceRollback t { t with stage := stage }) := by
  have hinv := hadv.1.rollbacks t (hrollbacks ▸ ht)
  exact hadv.replaceRollback t ⟨hinv.known, hinv.settled, hfits hinv.fits⟩

/-- Once named, a rollback is the one the validation has. -/
theorem names_of_markRollbackPlanned {db db' : Db} {id : String}
    (hids : (db.validations.map Validation.deploymentID).Nodup)
    (h : markRollbackPlanned t.deployment id db = .ok db') : t.Names db' id := by
  simp only [markRollbackPlanned, guard_else_error_eq_ok, guard_error_eq_ok, Except.ok.injEq] at h
  obtain ⟨hawaits, -, rfl⟩ := h
  simp only [List.any_eq_true, Bool.and_eq_true, decide_eq_true_eq] at hawaits
  obtain ⟨w, hw, hwid, hwaits⟩ := hawaits
  intro v' hv' hid
  obtain ⟨v, hv, rfl⟩ := Table.mem_updateWhere.1 hv'
  have hvid : v.deploymentID = t.deployment := by
    split at hid <;> exact hid
  have hvw : v = w := List.inj_on_of_nodup_map hids hv hw (hvid.trans hwid.symm)
  rw [if_pos (by simp [hvw, hwid, hwaits])]

/-- The outcome `applied` is decided for a deployment that was sent. -/
theorem Inv.sent_of_decided (h : s.Inv) (ht : t ∈ s.rollbacks)
    {outcome : RollbackOutcome} {detail : String} (hstage : t.stage = .decided outcome detail)
    (happlied : outcome = .applied) (v : Validation) (hv : v ∈ s.server.db.validations)
    (hvid : v.deploymentID = t.deployment) (id : String) (hid : v.rollbackDeploymentID = some id) :
    id ∈ s.ledger.sent := by
  have hfits := (h.rollbacks t ht).fits
  rw [hstage, happlied] at hfits
  obtain ⟨x, hx, hnames⟩ := hfits
  rw [← Option.some.inj ((hnames v hv hvid).symm.trans hid)]
  exact hx

theorem stepRollback_advances (h : s.Inv) (now : Int) (t : RollbackTask) (op : AutomationOp)
    (hstep : s.stepRollback now t op = .ok s') : s.Advances s' := by
  unfold stepRollback at hstep
  rw [guard_error_eq_ok, not_not] at hstep
  obtain ⟨ht, hstep⟩ := hstep
  split at hstep
  · -- beginObservation
    exact (h.write (fun db' hdb' => h.tends (.of_beginObservation h.kept hdb')) hstep).1
  · -- finishValidation: a failing verdict makes the rollback due
    split at hstep
    · cases hstep
    next db due hfinish =>
    obtain ⟨s₁, hw, rfl⟩ := map_eq_ok.1 hstep
    obtain ⟨hadv, -, hrollbacks, -⟩ := h.write (fun db' hdb' => h.tends
      (.of_finishValidation h.kept (hfinish.trans (by rw [Except.ok.inj hdb'])))) hw
    split
    · exact hadv.restage hrollbacks ht fun _ => trivial
    · exact hadv.dropRollback t
  · -- rollBack
    cases hstep
    exact (Advances.refl h).restage rfl ht fun _ => trivial
  · -- planRollback
    next id r c correlation _ =>
    obtain ⟨s₁, hc, rfl⟩ := map_eq_ok.1 hstep
    obtain ⟨hadv, -, hrollbacks⟩ := h.plan hc fun _ => .inr rfl
    exact hadv.restage hrollbacks ht fun _ => List.mem_cons_self
  · -- nameRollback
    next id hstage =>
    obtain ⟨s₁, hw, rfl⟩ := map_eq_ok.1 hstep
    have hplan : id ∈ s.ledger.rollbackPlans := by
      have hfits := (h.rollbacks t ht).fits
      rwa [hstage] at hfits
    obtain ⟨hadv, -, hrollbacks, -, -, htx⟩ := h.write
      (fun db' hdb' => h.tends (.of_markRollbackPlanned h.kept hplan hdb')) hw
    exact hadv.restage hrollbacks ht fun _ =>
      names_of_markRollbackPlanned h.kept.validationIDs htx
  · -- applyRollback
    next confirm c id hstage =>
    obtain ⟨s₁, hc, rfl⟩ := map_eq_ok.1 hstep
    obtain ⟨hadv, -, hrollbacks, hledger, -⟩ := h.commit rfl (fun _ hid => (by cases hid)) hc
    refine hadv.restage hrollbacks ht fun hfits => ?_
    rw [hstage] at hfits
    refine ⟨hfits, ?_⟩
    rw [hledger]
    exact List.mem_append_left _ List.mem_cons_self
  · -- deliverRollback
    next id hstage =>
    cases hstep
    refine (Advances.refl h).restage rfl ht fun hfits => ?_
    rw [hstage] at hfits
    exact ⟨id, hfits.2, hfits.1⟩
  · -- deliverRollback, not delivered
    obtain ⟨s₁, hc, rfl⟩ := map_eq_ok.1 hstep
    obtain ⟨hadv, -, hrollbacks, -⟩ := h.commit rfl (fun _ hid => (by cases hid)) hc
    exact hadv.restage hrollbacks ht fun _ => trivial
  · -- giveUpRollback
    next outcome detail =>
    rw [guard_error_eq_ok, not_or] at hstep
    obtain ⟨⟨hne, -⟩, hstep⟩ := hstep
    cases hstep
    refine (Advances.refl h).restage rfl ht fun _ => ?_
    cases outcome with
    | applied => exact absurd rfl hne
    | ineligible => trivial
    | failed => trivial
  · -- finishRollback
    next outcome detail hstage =>
    obtain ⟨s₁, hw, rfl⟩ := map_eq_ok.1 hstep
    refine Advances.dropRollback (h.write (fun db' hdb' => ?_) hw).1 t
    exact h.tends (.of_markRollbackOutcome h.kept (h.sent_of_decided ht hstage) hdb')
  · -- dropRollback
    cases hstep
    exact (Advances.refl h).dropRollback t
  · cases hstep

/-- A task a tick picks up is of an apply that succeeded. -/
theorem Inv.pending (h : s.Inv) {deployment : String}
    (ht : pendingValidation deployment s.server.db = some t) :
    t.Inv s.ledger s.server.used s.server.db := by
  unfold pendingValidation at ht
  split at ht
  · cases ht
  next v hv =>
  split at ht
  · cases ht
    have hid : v.deploymentID = deployment := Table.key_of_find _ hv
    obtain ⟨d, hd, hdid, -, hstate⟩ := (h.watched deployment).2
      (hid ▸ List.mem_map_of_mem (Table.mem_of_find _ hv))
    refine ⟨?_, ?_, trivial⟩
    · exact hdid ▸ (h.sound.known d hd).1
    · intro e he heid
      rw [List.inj_on_of_nodup_map h.sound.ids he hd (heid.trans hdid.symm)]
      exact hstate
  · cases ht

theorem Inv.open (h : s.Inv) {policy id correlation : String} {occurrence : Int} {db' : Db}
    (hdb' : insertPolicyRun policy occurrence id correlation now s.server.db = .ok db') :
    Sound s.server.clock s.server.used db' ∧ Kept s.ledger db' ∧ Watched db' ∧
      Advance [] s.server.db db' := by
  obtain ⟨p, r, hp, hactive, hpolicy, happ, hopen, hfree, rfl⟩ := insertPolicyRun_ok hdb'
  have hkept := h.kept.open hp hpolicy happ hfree
  refine ⟨h.sound.tables le_rfl rfl rfl, hkept, h.watched, .of_policyStep h.kept ?_ rfl rfl⟩
  exact .after_open h.kept hp hactive hpolicy happ hopen hfree (.refl hkept)

theorem store_advances (h : s.Inv) {op : StoreOp}
    (hstep : automation.step (now, .store op) s = .ok s') : s.Advances s' := by
  obtain ⟨hbyUser, hc⟩ := guard_error_eq_ok.1 hstep
  obtain ⟨hspares, huser⟩ := Bool.and_eq_true_iff.1 (Bool.not_eq_false _ ▸ hbyUser)
  refine (h.commit hspares ?_ hc).1
  -- a user's apply has no guard, so it is for no run
  intro id hid
  unfold StoreOp.forRun at hid
  split at hid
  · have hnone := Option.isNone_iff_eq_none.1 huser
    simp [hnone] at hid
  · cases hid

/-- What a transaction on the tables of policies and runs does, as `Inv.write` asks for it. -/
theorem Inv.put (h : s.Inv) {zones : String → Option Zone} {app actor id : String}
    {input : PolicyInput} {db' : Db}
    (hdb' : putUpdatePolicy zones app actor id input now s.server.db = .ok db') :
    Sound s.server.clock s.server.used db' ∧ Kept s.ledger db' ∧ Watched db' ∧
      Advance [] s.server.db db' := by
  rcases putUpdatePolicy_ok h.kept hdb' with htends | ⟨p, hactive, hfailures, hfree, rfl⟩
  · exact h.tends htends
  refine ⟨h.sound.tables le_rfl rfl rfl, h.kept.create hfailures hfree, h.watched,
    .of_policyStep h.kept ?_ rfl rfl⟩
  refine .of_frame h.kept rfl rfl (fun r hr => .inl hr) ?_
  intro q hq
  rcases Table.mem_concat.1 hq with hq | rfl
  · exact .inl hq
  · exact .inr ⟨hactive, hfailures, fun p hp hid => absurd hid (hfree p hp)⟩

theorem Inv.delete (h : s.Inv) {app : String} {db' : Db}
    (hdb' : deleteUpdatePolicy app s.server.db = .ok db') :
    Sound s.server.clock s.server.used db' ∧ Kept s.ledger db' ∧ Watched db' ∧
      Advance [] s.server.db db' := by
  unfold deleteUpdatePolicy at hdb'
  split at hdb'
  · cases hdb'
  next p _ =>
  cases hdb'
  have hfollows : Follows 0 [] [] [] s.server.db _ :=
    (Shrinks.deletePolicies fun q => q.id = p.id).follows h.watched
  exact ⟨h.sound.deletePolicies _, hfollows.kept h.kept fun _ hid => (by cases hid),
    hfollows.watched, hfollows.advance h.kept⟩

theorem Inv.resume (h : s.Inv) {app : String} {db' : Db}
    (hdb' : resumeUpdatePolicy app now s.server.db = .ok db') :
    Sound s.server.clock s.server.used db' ∧ Kept s.ledger db' ∧ Watched db' ∧
      Advance [] s.server.db db' := by
  obtain ⟨p, hp, hpaused, rfl⟩ := resumeUpdatePolicy_ok hdb'
  refine ⟨h.sound.tables le_rfl rfl rfl, h.kept.resume p.id now, h.watched,
    .of_policyStep h.kept ?_ rfl rfl⟩
  refine .of_frame h.kept rfl rfl (fun r hr => .inl hr) ?_
  intro q' hq'
  obtain ⟨q, hq, rfl⟩ := Table.mem_updateWhere.1 hq'
  split
  · next hid =>
    refine .inr ⟨rfl, rfl, fun e he heq => ?_⟩
    have hep : e = p := List.inj_on_of_nodup_map h.kept.policyIDs he hp
      (heq.trans (of_decide_eq_true hid))
    rw [hep, hpaused]
  · exact .inl hq

theorem Inv.skip (h : s.Inv) {policy id correlation detail : String} {occurrence : Int}
    {outcome : RunOutcome} {db' : Db}
    (hdb' : skipPolicyWindow policy occurrence id correlation outcome detail now s.server.db =
      .ok db') :
    Sound s.server.clock s.server.used db' ∧ Kept s.ledger db' ∧ Watched db' ∧
      Advance [] s.server.db db' := by
  simp only [skipPolicyWindow, guard_error_eq_ok] at hdb'
  obtain ⟨-, hdb'⟩ := hdb'
  split at hdb'
  · cases hdb'
  next db₁ hinsert =>
  obtain ⟨p, r, hp, hactive, hpolicy, happ, hopen, hfree, rfl⟩ := insertPolicyRun_ok hinsert
  have hkept := h.kept.open hp hpolicy happ hfree
  have htends := Tends.of_finishPolicyRun hkept hdb'
  refine ⟨htends.sound (h.sound.tables le_rfl rfl rfl), htends.kept hkept, htends.watched h.watched, ?_⟩
  have hadvance : Advance [] _ db' := htends.advance hkept
  obtain ⟨hrows, hback, hforth⟩ := hadvance.onward
  exact ⟨.after_open h.kept hp hactive hpolicy happ hopen hfree htends, ⟨hrows, hback, hforth⟩,
    hadvance.paused⟩

/-- Every step of the machine keeps the invariant, and the tables advance. -/
theorem step_advances (h : s.Inv) {op : Int × AutomationOp}
    (hstep : automation.step op s = .ok s') : s.Advances s' := by
  obtain ⟨now, op⟩ := op
  by_cases htask : op.ofTask = true
  · rcases step_of_task htask hstep with ⟨t, hrun⟩ | ⟨t, hrollback⟩
    · exact stepRun_advances h now t op hrun
    · exact stepRollback_advances h now t op hrollback
  cases op with
  | store => exact store_advances h hstep
  | putUpdatePolicy => exact (h.write (fun _ hdb' => h.put hdb') hstep).1
  | deleteUpdatePolicy => exact (h.write (fun _ hdb' => h.delete hdb') hstep).1
  | resumeUpdatePolicy => exact (h.write (fun _ hdb' => h.resume hdb') hstep).1
  | skipPolicyWindow => exact (h.write (fun _ hdb' => h.skip hdb') hstep).1
  | beginPolicyRun =>
    obtain ⟨s₁, hw, rfl⟩ := map_eq_ok.1 hstep
    have hadv := (h.write (fun db' hdb' => h.open hdb') hw).1
    refine hadv.tasks ?_ hadv.1.rollbacks
    intro t ht x hx
    rcases List.mem_cons.1 ht with rfl | ht
    · cases hx
    · exact hadv.1.runs t ht x hx
  | readPending =>
    simp only [automation] at hstep
    split at hstep
    · cases hstep
    next t ht =>
    cases hstep
    refine (Advances.refl h).tasks h.runs ?_
    intro e he
    rcases List.mem_cons.1 he with rfl | he
    · exact h.pending ht
    · exact h.rollbacks e he
  | decideNamedRollbacks =>
    exact (h.write (fun db' hdb' => h.tends (.of_decideNamedRollbacks h.kept hdb')) hstep).1
  | restart =>
    obtain ⟨s₁, hw, rfl⟩ := map_eq_ok.1 hstep
    have hadv := (h.write (fun db' hdb' => h.tends (.of_reconcileAfterStart h.kept hdb')) hw).1
    exact hadv.tasks (fun t ht => (by cases ht)) fun t ht => (by cases ht)
  | _ => exact absurd rfl htask

/-- What holds of every reachable state. -/
theorem inv_of_steps (h : automation.Steps .new s) : s.Inv :=
  h.keeps (fun _ _ _ hs hstep => (step_advances hs hstep).1) inv_new

/-- In every run, with instants that grow, a policy run has its policy, and a running deployment
the instance of its application and endpoint. -/
theorem rows_at_home (ops : List (Int × AutomationOp)) :
    let db := (automation.run ops .new).server.db
    db.Housed ∧ ∀ d ∈ db.deployments, d.state = .applying → ∃ i ∈ db.instances,
      i.id = d.instanceID ∧ i.applicationID = d.applicationID ∧ i.endpointID = d.endpointID := by
  intro db
  have h := inv_of_steps (automation.steps_run ops .new)
  refine ⟨h.kept.home, fun d hd hs => ?_⟩
  obtain ⟨i, hi, hid⟩ := h.sound.home d hd hs
  exact ⟨i, hi, hid, h.sound.owner d hd i hi hid⟩

/-- The ledger grows, used ids stay used, a row that is gone stays away, and a validation goes on or
its row is gone. -/
def Continues (s s' : Automation) : Prop :=
  s.ledger.Le s'.ledger ∧
  (∀ id ∈ s.server.used, id ∈ s'.server.used ∧
    ((∀ d ∈ s.server.db.deployments, d.id ≠ id) → ∀ d ∈ s'.server.db.deployments, d.id ≠ id)) ∧
  ∀ v ∈ s.server.db.validations, v.deploymentID ∈ s.server.used →
    (∃ v' ∈ s'.server.db.validations, v.Later v') ∨
      ∀ d ∈ s'.server.db.deployments, d.id ≠ v.deploymentID

theorem Continues.refl (s : Automation) : s.Continues s :=
  ⟨.refl _, fun _ hid => ⟨hid, fun hgone => hgone⟩, fun v hv _ => .inl ⟨v, hv, .refl v⟩⟩

theorem Continues.trans (h : s.Continues s₁) (h' : s₁.Continues s') : s.Continues s' := by
  obtain ⟨hledger, hused, hvalidations⟩ := h
  obtain ⟨hledger', hused', hvalidations'⟩ := h'
  refine ⟨hledger.trans hledger', fun id hid => ?_, fun v hv hid => ?_⟩
  · obtain ⟨hid₁, hgone⟩ := hused id hid
    exact ⟨(hused' id hid₁).1, fun hg => (hused' id hid₁).2 (hgone hg)⟩
  · have hid₁ := (hused _ hid).1
    rcases hvalidations v hv hid with ⟨v₁, hv₁, hlater⟩ | hgone
    · rcases hvalidations' v₁ hv₁ (hlater.1 ▸ hid₁) with ⟨v', hv', hlater'⟩ | hgone
      · exact .inl ⟨v', hv', hlater.trans hlater'⟩
      · exact .inr (hlater.1 ▸ hgone)
    · exact .inr ((hused' _ hid₁).2 hgone)

theorem Advances.continues (h : s.Advances s') : s.Continues s' := by
  obtain ⟨-, hused, hledger, fresh, hfresh, hadvance⟩ := h
  refine ⟨hledger, fun id hid => ⟨hused id hid, ?_⟩, fun v hv _ => hadvance.onward.forth v hv⟩
  intro hgone d' hd' hid'
  rcases hadvance.onward.rows d' hd' with ⟨d, hd, heq, -⟩ | hnew
  · exact hgone d hd (heq.symm.trans hid')
  · exact hfresh _ hnew (hid' ▸ hid)

theorem continues_of_steps (h : s.Inv) (hs : automation.Steps s s') : s'.Inv ∧ s.Continues s' :=
  ⟨hs.keeps (fun _ _ _ hs hstep => (step_advances hs hstep).1) h,
    hs.rel (fun _ _ _ hs hstep => (step_advances hs hstep).1) Continues.refl
      (fun _ _ _ h h' => h.trans h') (fun _ _ _ hs hstep => (step_advances hs hstep).continues) h⟩

/-- Along a run, the validation of a deployment only gains. -/
theorem later_of_steps (h : s.Inv) (hs : automation.Steps s s') {v v' : Validation}
    (hv : v ∈ s.server.db.validations) (hv' : v' ∈ s'.server.db.validations)
    (hid : v'.deploymentID = v.deploymentID) : v.Later v' := by
  obtain ⟨hinv', -, -, hvalidations⟩ := continues_of_steps h hs
  obtain ⟨d, hd, hdid, -⟩ := (h.watched v.deploymentID).2 (List.mem_map_of_mem hv)
  rcases hvalidations v hv (hdid ▸ (h.sound.known d hd).1) with ⟨w, hw, hlater⟩ | hgone
  · rwa [List.inj_on_of_nodup_map hinv'.kept.validationIDs hv' hw (hid.trans hlater.1.symm)]
  · -- a validation there has its row
    obtain ⟨d', hd', hdid', -⟩ := (hinv'.watched v'.deploymentID).2 (List.mem_map_of_mem hv')
    exact absurd (hdid'.trans hid) (hgone d' hd')

end Automation

/-! ## Policies along every interleaving -/

/-- The policy a step applies a deployment for. -/
def AutomationOp.policy? : AutomationOp → Option String
  | .applyRun t .. => some t.policy.id
  | .applyRollback t .. => some t.policy
  | _ => none

theorem active_of_commit {s s' : Automation} {now : Int} {app id confirm : String} {g : PolicyGuard}
    {c : ApplyContext}
    (h : s.commit now (.lifecycle (.applyDeployment app id confirm (some g) c)) = .ok s') :
    ∃ p ∈ s.server.db.policies, p.id = g.policy ∧ p.status = .active := by
  obtain ⟨-, -, db, hexec, -⟩ := Automation.commit_ok h
  obtain ⟨-, -, -, -, hguard, -⟩ := applyDeployment_ok hexec
  have hholds := hguard g rfl
  simp only [PolicyGuard.holds, Option.any_eq_true, Bool.and_eq_true, decide_eq_true_eq] at hholds
  obtain ⟨p, hp, ⟨⟨-, hactive⟩, -⟩, -⟩ := hholds
  exact ⟨p, Table.mem_of_find _ hp, Table.key_of_find _ hp, hactive⟩

/-- No policy applies while it is paused. -/
theorem active_of_apply {s s' : Automation} {op : Int × AutomationOp} {policy : String}
    (hpolicy : op.2.policy? = some policy) (hstep : automation.step op s = .ok s') :
    ∃ p ∈ s.server.db.policies, p.id = policy ∧ p.status = .active := by
  obtain ⟨now, op⟩ := op
  cases op with
  | applyRun t confirm c =>
    cases hpolicy
    have hrun : s.stepRun now t (.applyRun t confirm c) = .ok s' := hstep
    obtain ⟨-, hrun⟩ := guard_error_eq_ok.1 hrun
    simp only at hrun
    split at hrun
    · cases hrun
    exact active_of_commit (guard_error_eq_ok.1 hrun).2
  | applyRollback t confirm c =>
    cases hpolicy
    have hrun : s.stepRollback now t (.applyRollback t confirm c) = .ok s' := hstep
    obtain ⟨-, hrun⟩ := guard_error_eq_ok.1 hrun
    cases hstage : t.stage with
    | named =>
      simp only [hstage] at hrun
      obtain ⟨s₁, hc, -⟩ := map_eq_ok.1 hrun
      exact active_of_commit hc
    | _ => simp [hstage] at hrun
  | _ => cases hpolicy

/-- In every reachable state a window has at most one run and an active policy is below the limit.
Every step keeps outcomes, writes one audit row for each run that finishes and for each policy that
pauses, opens runs for active policies only, and applies for an active policy only. It counts a
policy's failures in a row from the outcomes of its runs, so the failure that reaches the limit
pauses the policy, and only a resume makes it active again. -/
theorem policy_runs {s : Automation} (h : automation.Steps .new s) :
    (s.server.db.runs.map fun r => (r.policyID, r.occurrence)).Nodup ∧
      (∀ p ∈ s.server.db.policies, p.status = .active →
        p.consecutiveFailures < policyFailureLimit) ∧
      ∀ op s', automation.step op s = .ok s' → PolicyStep s.server.db s'.server.db ∧
        ∀ policy, op.2.policy? = some policy →
          ∃ p ∈ s.server.db.policies, p.id = policy ∧ p.status = .active := by
  have hinv := Automation.inv_of_steps h
  refine ⟨hinv.kept.windows, hinv.kept.within, fun op s' hstep => ⟨?_, fun policy hpolicy => ?_⟩⟩
  · obtain ⟨-, -, -, fresh, -, hadvance⟩ := Automation.step_advances hinv hstep
    exact hadvance.policies
  · exact active_of_apply hpolicy hstep

/-! ### A policy at work -/

/-- A policy as the scheduler reads it: every day, from midnight on. -/
def samplePolicy : UpdatePolicy :=
  ⟨"policy", "a", "admin", .apply, "UTC", ⟨[0], 0, 60, by decide, by decide⟩, .active, "", 0, 7, 7⟩

def sampleRun (planned : Option String) : RunTask := ⟨"run", samplePolicy, planned⟩

/-- The policy's first window: the application runs, the policy is saved, and its run applies an
update. -/
def policyRun : List (Int × AutomationOp) :=
  (adoptedRun ++ appliedRun 1 4).map (Prod.map id fun op => .store (.lifecycle op)) ++
    [(6, .store (.lifecycle (.settleDeployment "e" (sampleResult 1 2)))),
      (7, .putUpdatePolicy (fun _ => some (.fixed 0)) "a" "admin" "policy"
        ⟨some .apply, "UTC", [0], 0, 60⟩),
      (8, .beginPolicyRun samplePolicy 0 "run" "r"),
      (9, .planRun (sampleRun none) (rowID 2) ⟨"i", 1, 0, "p"⟩
        ⟨.docker, true, fun _ => sampleImage 2, fun _ => "", fun _ => "", false⟩ sampleRequestID),
      (10, .applyRun (sampleRun (some (rowID 2))) "p" ⟨true, true⟩),
      (11, .attachRun (sampleRun (some (rowID 2)))),
      (12, .finishRun (sampleRun (some (rowID 2))) .applied none ""),
      (13, .store (.lifecycle (.settleDeployment "e" (sampleResult 2 3))))]

/-- A later window. -/
def openedWindow (n : Nat) (now : Int) : Int × AutomationOp :=
  (now, .beginPolicyRun samplePolicy n (rowID n) "r")

/-- Its run fails. -/
def failedWindow (n : Nat) (now : Int) : Int × AutomationOp :=
  (now, .finishRun ⟨rowID n, samplePolicy, none⟩ .failed none "")

/-- The policies' status and failures in a row. -/
def Automation.standing (s : Automation) : List (PolicyStatus × Nat) :=
  s.server.db.policies.map fun p => (p.status, p.consecutiveFailures)

/-- The first window's run applies, those of the next three fail. The third failure pauses the
policy, with its audit row; no run is opened then, and a resume starts at no failure. -/
theorem policy_runs_control :
    let s := automation.run (policyRun ++ [openedWindow 1 20, failedWindow 1 21, openedWindow 2 30,
      failedWindow 2 31, openedWindow 3 40]) .new
    let s' := automation.run [failedWindow 3 41] s
    s.standing = [(.active, 2)] ∧ s'.standing = [(.paused, 3)] ∧
      s'.server.db.pauseRows = s.server.db.pauseRows ++ ["a/policies/policy"] ∧
      (automation.run [openedWindow 4 50] s').server.db.runs.length = s'.server.db.runs.length ∧
      (automation.run [(60, .resumeUpdatePolicy "a")] s').standing = [(.active, 0)] ∧
      PolicyStep s.server.db s'.server.db := by
  intro s s'
  refine ⟨by decide +kernel, by decide +kernel, by decide +kernel, by decide +kernel,
    by decide +kernel, ?_⟩
  have hok : (automation.step (failedWindow 3 41) s).toOption.isSome = true := by
    decide +kernel
  have hsteps : automation.Steps .new s := Machine.steps_run _ _
  clear_value s
  exact ((policy_runs hsteps).2.2 _ _ (Machine.step_eq_run hok)).1

/-! ## Rollbacks along every interleaving -/

/-- In every reachable state each succeeded apply has exactly one validation. From there on a
validation keeps its verdict, its rollback and its outcome; only a failing verdict on an automated
update that is no rollback has one named, and a deployment so named has none itself. `applied` is
recorded for a deployment that was sent, named rollbacks can always be decided, and an outcome
leaves the policy paused. -/
theorem rollback_machine {s : Automation} (h : automation.Steps .new s) :
    (s.server.db.validations.map Validation.deploymentID).Nodup ∧
      (∀ id, s.server.db.Succeeded id ↔ id ∈ s.server.db.validations.map Validation.deploymentID) ∧
      (∀ s', automation.Steps s s' → ∀ v ∈ s.server.db.validations, ∀ v' ∈ s'.server.db.validations,
        (v'.deploymentID = v.deploymentID → v.Later v') ∧
        (v.rollbackDeploymentID = some v'.deploymentID → v'.rollbackDeploymentID = none)) ∧
      (∀ v ∈ s.server.db.validations, (v.rollbackDeploymentID ≠ none → v.Failing) ∧
        (v.rollbackOutcome = some .applied →
          ∃ id ∈ s.ledger.sent, v.rollbackDeploymentID = some id)) ∧
      (∀ now, ∃ db', decideNamedRollbacks now s.server.db = .ok db') ∧
      ∀ op s', automation.step op s = .ok s' → ∀ v ∈ s.server.db.validations,
        ∀ v' ∈ s'.server.db.validations, v'.deploymentID = v.deploymentID →
        v.rollbackOutcome = none → v'.rollbackOutcome ≠ none → s'.server.db.PausedFor v' := by
  have hinv := Automation.inv_of_steps h
  refine ⟨hinv.kept.validationIDs, hinv.watched, ?_, ?_, ?_, ?_⟩
  · intro s' hs' v hv v' hv'
    refine ⟨Automation.later_of_steps hinv hs' hv hv', fun hname => ?_⟩
    obtain ⟨hinv', hledger, -⟩ := Automation.continues_of_steps hinv hs'
    have hplan := hledger.2.2 _ ((hinv.kept.recorded v hv).planned _ hname)
    have hrec := hinv'.kept.recorded v' hv'
    by_contra hnamed
    exact hinv'.disjoint _ (hrec.automated (hrec.named hnamed).2.1) hplan
  · intro v hv
    have hrec := hinv.kept.recorded v hv
    exact ⟨hrec.named, hrec.applied⟩
  · intro now
    obtain ⟨db', hdb', -⟩ := decideNamedRollbacks_commits hinv.kept now
    exact ⟨db', hdb'⟩
  · intro op s' hstep
    obtain ⟨-, -, -, fresh, -, hadvance⟩ := Automation.step_advances hinv hstep
    exact hadvance.paused

/-- The work on the sample's update, at a stage. -/
def sampleRollback (stage : RollbackStage) : RollbackTask :=
  ⟨rowID 2, "a", "policy", "admin", stage⟩

/-- The update is found unhealthy and its rollback is planned, named, applied and delivered; the
outcome is recorded before the agent reports anything. -/
def rolledBackRun : List (Int × AutomationOp) :=
  policyRun ++
    [(14, .readPending (rowID 2)),
      (15, .finishValidation (sampleRollback (.pending false)) .unhealthy ""),
      (16, .planRollback (sampleRollback .due) (rowID 3) ⟨"i", 1, 0, "p"⟩
        ⟨.docker, true, fun _ => sampleImage 2, fun _ => "", fun _ => "", false⟩ sampleRequestID),
      (17, .nameRollback (sampleRollback (.planned (rowID 3)))),
      (18, .applyRollback (sampleRollback (.named (rowID 3))) "p" ⟨true, true⟩),
      (19, .deliverRollback (sampleRollback (.applied (rowID 3))) true),
      (20, .finishRollback (sampleRollback (.decided .applied "")))]

/-- The rollback is on record as applied, and its deployment has not succeeded. -/
theorem applied_before_success :
    let s := automation.run rolledBackRun .new
    automation.Steps .new s ∧
      s.server.db.validations.map
          (fun v => (v.deploymentID, v.rollbackDeploymentID, v.rollbackOutcome)) =
        [(rowID 1, none, none), (rowID 2, some (rowID 3), some .applied)] ∧
      (s.server.db.deployment? (rowID 3)).map Deployment.state = some .applying ∧
      ¬ s.server.db.Succeeded (rowID 3) := by
  refine ⟨Machine.steps_run _ _, by decide +kernel, by decide +kernel, ?_⟩
  unfold Db.Succeeded
  decide +kernel

/-- The rollback was sent, and the policy is paused. -/
theorem rollback_machine_control :
    let s := automation.run rolledBackRun .new
    s.server.db.policies.map UpdatePolicy.status = [.paused] ∧
      (∃ v ∈ s.server.db.validations, v.rollbackOutcome = some .applied ∧
        ∃ id ∈ s.ledger.sent, v.rollbackDeploymentID = some id) := by
  intro s
  have hv : ∃ v ∈ s.server.db.validations, v.rollbackOutcome = some .applied := by
    decide +kernel
  obtain ⟨v, hv, happlied⟩ := hv
  refine ⟨by decide +kernel, v, hv, happlied, ?_⟩
  obtain ⟨-, -, -, hrecorded, -⟩ := rollback_machine (s := s) (Machine.steps_run _ _)
  exact (hrecorded v hv).2 happlied

end KyYard.Store
