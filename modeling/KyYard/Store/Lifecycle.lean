import KyYard.Store.Deployments

/-!
# The deployment lifecycle

A server runs transactions one at a time, each at the instant its clock reads and with fresh ids
(`transactionMachine`). The results are about a clock that is never set back (`serverMachine`).
`Change` sums up what a committed transaction does to the rows of deployments and instances; every
result here splits on it. A live row is the newest of its instance (`Sound.newest`), which makes it
the only live one, and a row that was acted on stays (`Db.Keeps`).

`deployment_lifecycle` collects what holds along every run: one live row for an instance, closed
rows never change, a late result is refused once something newer was acted on, and the instance
names the revision of the apply that succeeded last. Which of two rows is newer is read off their
instants: with the clock set back between two plans a late result settles under a row that is
applying (`late_result_settles`).
-/

namespace KyYard.Store

open Foundation Protocol

/-! ## The server -/

/-- The database, the instant of the last transaction and the ids drawn so far. -/
structure Server where
  db : Db
  clock : Int
  used : List String

/-- A new server. -/
def Server.new : Server := ⟨.empty, 0, []⟩

/-- Transactions of one kind, each at some instant and with ids that were never drawn. One that is
refused changes nothing. -/
def transactionMachine {ι : Type} (exec : ι → Int → Db → Except StoreError Db)
    (fresh : ι → List String) : Machine Server (Int × ι) (Option StoreError) where
  step op s :=
    if ∀ id ∈ fresh op.2, id ∉ s.used then
      match exec op.2 op.1 s.db with
      | .ok db => .ok ⟨db, op.1, fresh op.2 ++ s.used⟩
      | .error e => .error (some e)
    else .error none

/-- The same with a clock that is never set back: each transaction runs at a later instant than
every one before. The store itself does not look. -/
def serverMachine {ι : Type} (exec : ι → Int → Db → Except StoreError Db) (fresh : ι → List String) :
    Machine Server (Int × ι) (Option StoreError) where
  step op s := if s.clock < op.1 then (transactionMachine exec fresh).step op s else .error none

theorem serverMachine_ok {ι : Type} {exec : ι → Int → Db → Except StoreError Db}
    {fresh : ι → List String} {op : Int × ι} {s s' : Server}
    (h : (serverMachine exec fresh).step op s = .ok s') :
    s.clock < op.1 ∧ (∀ id ∈ fresh op.2, id ∉ s.used) ∧
      ∃ db, exec op.2 op.1 s.db = .ok db ∧ s' = ⟨db, op.1, fresh op.2 ++ s.used⟩ := by
  obtain ⟨hclock, h⟩ := guard_else_error_eq_ok.1 h
  obtain ⟨hfresh, h⟩ := guard_else_error_eq_ok.1 h
  split at h
  · next db hdb => exact ⟨hclock, hfresh, db, hdb, (Except.ok.inj h).symm⟩
  · cases h

/-- The transactions on applications, instances and deployments. Those on the other tables are
summed up as `other`, which may write anything there. -/
inductive LifecycleOp
  | createApplication (id name : String) (spec : ApplicationSpec)
  | appendApplicationRevision (app : String) (expected : Nat) (spec : ApplicationSpec)
  | adoptApplication (app instanceID : String) (r : AdoptionRequest) (p : AdoptionPreview)
  | mapKubernetes (app instanceID endpointID ns : String) (ep : EndpointView)
  | setApplicationMapping (app : String) (r : MappingRequest) (runtime : Runtime)
      (unchanged : Bool) (digest : String)
  | releaseApplication (app id confirm : String)
  | planDeployment (app id : String) (r : PlanRequest) (c : PlanContext) (correlation : RequestID)
  | applyDeployment (app id confirm : String) (guard : Option PolicyGuard) (c : ApplyContext)
  | failDeployment (id detail : String)
  | abandonDeployments (endpointID : String)
  | sweepDeployments
  | settleDeployment (endpointID : String) (r : DeploymentResult)
  | refuseDeploymentResult (endpointID id detail : String)
  | removeApplication (app id : String) (r : RemovalBody) (c : RemovalContext)
      (correlation : RequestID)
  | other (policies : List UpdatePolicy) (runs : List PolicyRun) (validations : List Validation)
      (imageChecks : List ImageCheck) (audit : List AuditRecord)

namespace LifecycleOp

/-- The transaction itself. -/
def exec : LifecycleOp → Int → Db → Except StoreError Db
  | createApplication id name spec, _, db => Store.createApplication id name spec db
  | appendApplicationRevision app expected spec, _, db =>
    Store.appendApplicationRevision app expected spec db
  | adoptApplication app instanceID r p, _, db => Store.adoptApplication app instanceID r p db
  | mapKubernetes app instanceID endpointID ns ep, _, db =>
    Store.mapKubernetes app instanceID endpointID ns ep db
  | setApplicationMapping app r runtime unchanged digest, _, db =>
    Store.setApplicationMapping app r runtime unchanged digest db
  | releaseApplication app id confirm, now, db => Store.releaseApplication app id confirm now db
  | planDeployment app id r c correlation, now, db =>
    Store.planDeployment app id r c correlation now db
  | applyDeployment app id confirm guard c, now, db =>
    Store.applyDeployment app id confirm guard c now db
  | failDeployment id detail, now, db => .ok (Store.failDeployment id detail now db)
  | abandonDeployments endpointID, now, db => .ok (Store.abandonDeployments endpointID now db)
  | sweepDeployments, now, db => .ok (Store.sweepDeployments now db)
  | settleDeployment endpointID r, now, db => Store.settleDeployment endpointID r now db
  | refuseDeploymentResult endpointID id detail, now, db =>
    Store.refuseDeploymentResult endpointID id detail now db
  | removeApplication app id r c correlation, now, db =>
    Store.removeApplication app id r c correlation now db
  | other policies runs validations imageChecks audit, _, db =>
    .ok { db with policies, runs, validations, imageChecks, audit }

/-- The ids a transaction draws. -/
def fresh : LifecycleOp → List String
  | createApplication id _ _ => [id]
  | adoptApplication _ instanceID _ _ => [instanceID]
  | mapKubernetes _ instanceID _ _ _ => [instanceID]
  | planDeployment _ id _ _ _ => [id]
  | removeApplication _ id _ _ _ => [id]
  | _ => []

end LifecycleOp

/-- The server under these transactions, with a clock that is never set back. -/
abbrev lifecycleMachine : Machine Server (Int × LifecycleOp) (Option StoreError) :=
  serverMachine LifecycleOp.exec LifecycleOp.fresh

/-! ## What a transaction does to rows and instances -/

/-- A row moves without a result: its frame is sent, or it is given up. -/
inductive Deployment.Moves (db : Db) (d d' : Deployment) : Prop
  | start (run : Option String) (now : Int) (state : d.state = .planned) (kind : d.kind = .apply)
      (numbered : 1 ≤ d.revision)
      (home : ∃ i ∈ db.instances, i.id = d.instanceID ∧ (d.plan.ns ≠ "" → i.ns = d.plan.ns))
      (row : d' = d.started run now)
  | close (st : DeploymentState) (detail : String) (settledAt : Option Int)
      (state : d.state = .applying ∨ d.state = .unknown) (outcome : st = .unknown ∨ st = .failed)
      (row : d' = { d with state := st, detail := detail, settledAt := settledAt })

/-- A mapping keeps what an instance is and what it deployed. -/
def Instance.SameDeployed (i i' : Instance) : Prop :=
  i'.id = i.id ∧ i'.applicationID = i.applicationID ∧ i'.endpointID = i.endpointID ∧
    i'.revision = i.revision ∧ i'.currentRevision = i.currentRevision

/-- What a committed transaction does to deployments and instances. -/
inductive Change (now : Int) (fresh : List String) (db db' : Db) : Prop
  | elsewhere (rows : db'.deployments = db.deployments) (instances : db'.instances = db.instances)
  | adopted (i : Instance) (id : i.id ∈ fresh) (current : i.currentRevision = 0)
      (free : ∀ j ∈ db.instances, j.id ≠ i.id) (rows : db'.deployments = db.deployments)
      (instances : db'.instances = db.instances ++ [i])
  | remapped (g : Instance → Instance) (same : ∀ i : Instance, i.SameDeployed (g i))
      (rows : db'.deployments = db.deployments) (instances : db'.instances = db.instances.map g)
  | released (i : Instance) (mem : i ∈ db.instances)
      (idle : ∀ d ∈ db.deployments, d.applicationID = i.applicationID → d.instanceID = i.id →
        d.state ≠ .applying)
      (rows : db'.deployments = db.deployments.filter fun d =>
        !(d.applicationID = i.applicationID && d.instanceID = i.id && d.state = .planned))
      (instances : db'.instances = db.instances.filter fun j => j.id ≠ i.id)
  | opened (d : Deployment) (i : Instance) (mem : i ∈ db.instances) (id : d.id ∈ fresh)
      (application : d.applicationID = i.applicationID) (inst : d.instanceID = i.id)
      (endpoint : d.endpointID = i.endpointID) (created : d.createdAt = now)
      (state : d.state = .planned ∧ d.kind = .apply ∨ d.state = .applying ∧ d.kind = .remove)
      (rows : db.Opened d db')
  | moved (p : Deployment → Bool) (f : Deployment → Deployment)
      (moves : ∀ d ∈ db.deployments, p d = true → d.Moves db (f d))
      (rows : db'.deployments = Table.updateWhere p f db.deployments)
      (instances : db'.instances = db.instances)
  | settled (d : Deployment) (res : DeploymentResult) (o : Outcome) (st : DeploymentState)
      (mem : d ∈ db.deployments) (outcome : outcomeState? o = some st)
      (open_ : db.settleable d = true) (tables : Settled d res o st now db db')

section Changes

variable {now : Int} {fresh : List String} {db db' : Db}

theorem Change.of_update {p : Deployment → Bool} {f : Deployment → Deployment}
    (rows : db'.deployments = Table.updateWhere p f db.deployments)
    (instances : db'.instances = db.instances)
    (h : ∀ d ∈ db.deployments, p d = true → ∃ st detail settledAt,
      (d.state = .applying ∨ d.state = .unknown) ∧ (st = .unknown ∨ st = .failed) ∧
        f d = { d with state := st, detail := detail, settledAt := settledAt }) :
    Change now fresh db db' := by
  refine .moved p f ?_ rows instances
  intro d hd hp
  obtain ⟨st, detail, settledAt, hstate, hst, hrow⟩ := h d hd hp
  exact .close st detail settledAt hstate hst hrow

variable {app id : String}

/-- The one row that an apply starts. -/
theorem moves_of_apply (hn : (db.deployments.map Deployment.id).Nodup) {confirm : String}
    {guard : Option PolicyGuard} {c : ApplyContext}
    (h : applyDeployment app id confirm guard c now db = .ok db') :
    ∃ p f, (∀ d ∈ db.deployments, p d = true → d.Moves db (f d)) ∧
      db'.deployments = Table.updateWhere p f db.deployments ∧ db'.instances = db.instances := by
  obtain ⟨d, i, hd, -, -, hkind, hstate, -, hrev, hi, -, hframe, rfl⟩ := applyDeployment_ok h
  refine ⟨_, _, ?_, rfl, rfl⟩
  intro e he hp
  simp only [Bool.and_eq_true, decide_eq_true_eq] at hp
  have hed : e = d := List.inj_on_of_nodup_map hn he (Table.mem_of_find _ hd)
    (hp.1.trans (Table.key_of_find _ hd).symm)
  subst hed
  refine .start _ now hstate hkind hrev
    ⟨i, Table.mem_of_find _ hi, Table.key_of_find _ hi, fun hns => ?_⟩ rfl
  -- the frame is for the namespace the instance is in
  unfold frameMatches at hframe
  split at hframe
  · cases hframe
  simp only [hns, if_false, Bool.and_eq_true, decide_eq_true_eq] at hframe
  exact hframe.2.1

theorem Change.of_apply {confirm : String} {guard : Option PolicyGuard} {c : ApplyContext}
    (hn : (db.deployments.map Deployment.id).Nodup)
    (h : applyDeployment app id confirm guard c now db = .ok db') : Change now fresh db db' := by
  obtain ⟨p, f, hmoves, hrows, hinstances⟩ := moves_of_apply hn h
  exact .moved p f hmoves hrows hinstances

theorem state_of_settleable {d : Deployment} (h : db.settleable d = true) :
    d.state = .applying ∨ d.state = .unknown := by
  simp only [Db.settleable, Bool.or_eq_true, Bool.and_eq_true, decide_eq_true_eq] at h
  rcases h with h | h
  · exact .inl h
  · exact .inr h.1.1

theorem Change.of_refuse {endpointID detail : String}
    (hn : (db.deployments.map Deployment.id).Nodup)
    (h : refuseDeploymentResult endpointID id detail now db = .ok db') :
    Change now fresh db db' := by
  obtain ⟨d, hd, -, hsettle, rfl | rfl⟩ := refuseDeploymentResult_ok h
  · exact .elsewhere rfl rfl
  refine .of_update rfl rfl ?_
  intro e he hp
  have hid : e.id = d.id := by
    rw [Table.key_of_find _ hd]
    simpa using hp
  have hed : e = d := List.inj_on_of_nodup_map hn he (Table.mem_of_find _ hd) hid
  subst hed
  exact ⟨.unknown, _, e.settledAt, state_of_settleable hsettle, .inl rfl, rfl⟩

theorem Change.of_release {confirm : String}
    (h : releaseApplication app id confirm now db = .ok db') : Change now fresh db db' := by
  obtain ⟨⟨i, hi, rfl, rfl⟩, hidle, rfl⟩ := releaseApplication_ok h
  exact .released i hi hidle rfl rfl

theorem Change.of_map {instanceID endpointID ns : String} {ep : EndpointView}
    (h : mapKubernetes app instanceID endpointID ns ep db = .ok db') :
    Change now [instanceID] db db' := by
  rcases mapKubernetes_ok h with ⟨i, hnew, -, hfree, rfl⟩ | ⟨a, i, -, -, -, -, -, rfl⟩
  · exact .adopted i (by simp [hnew.1]) hnew.2.2.1 (fun j hj => (hfree j hj).1) rfl rfl
  · refine .remapped _ ?_ rfl rfl
    intro j
    by_cases hj : j.id = i.id <;> simp [Instance.SameDeployed, hj]

theorem Change.of_adopt {instanceID : String} {r : AdoptionRequest} {p : AdoptionPreview}
    (h : adoptApplication app instanceID r p db = .ok db') : Change now [instanceID] db db' := by
  obtain ⟨i, rs, hnew, -, hfree, -, rfl⟩ := adoptApplication_ok h
  exact .adopted i (by simp [hnew.1]) hnew.2.2.1 (fun j hj => (hfree j hj).1) rfl rfl

theorem Change.of_mapping {r : MappingRequest} {runtime : Runtime}
    {unchanged : Bool} {digest : String}
    (h : setApplicationMapping app r runtime unchanged digest db = .ok db') :
    Change now fresh db db' := by
  obtain ⟨a, i, -, -, -, -, -, rfl⟩ := setApplicationMapping_ok h
  refine .remapped _ ?_ rfl rfl
  intro j
  by_cases hj : j.id = i.id <;> simp [Instance.SameDeployed, hj]

theorem Change.of_plan {r : PlanRequest} {c : PlanContext}
    {correlation : RequestID} (hn : (db.deployments.map Deployment.id).Nodup)
    (h : planDeployment app id r c correlation now db = .ok db') : Change now [id] db db' := by
  obtain ⟨a, i, rev, -, hi, -, -, -, hopen⟩ := planDeployment_ok hn h
  exact .opened _ i (Table.mem_of_find _ hi) (by simp [plannedRow]) rfl rfl rfl rfl
    (.inl ⟨rfl, rfl⟩) hopen

theorem Change.of_remove {r : RemovalBody} {c : RemovalContext}
    {correlation : RequestID} (h : removeApplication app id r c correlation now db = .ok db') :
    Change now [id] db db' := by
  obtain ⟨a, i, plan, -, hi, -, -, -, -, hopen⟩ := removeApplication_ok h
  exact .opened _ i (Table.mem_of_find _ hi) (by simp [removalRow]) rfl rfl rfl rfl
    (.inr ⟨rfl, rfl⟩) hopen

theorem Change.of_settle {endpointID : String} {r : DeploymentResult}
    (h : settleDeployment endpointID r now db = .ok db') : Change now fresh db db' := by
  obtain ⟨d, o, st, -, hst, -, hd, -, hsettle, htables⟩ := settleDeployment_ok h
  exact .settled d _ o st (Table.mem_of_find _ hd) hst hsettle htables

/-- The transactions that write instances or containers. -/
def LifecycleOp.binds : LifecycleOp → Bool
  | adoptApplication .. | mapKubernetes .. | setApplicationMapping .. | releaseApplication ..
  | settleDeployment .. => true
  | _ => false

/-- All others leave both tables alone. -/
theorem bindings_of_exec (hn : (db.deployments.map Deployment.id).Nodup) {op : LifecycleOp}
    (h : op.exec now db = .ok db') (hop : op.binds = false) :
    db'.instances = db.instances ∧ db'.resources = db.resources := by
  cases op with
  | createApplication =>
    obtain rfl := createApplication_ok h
    exact ⟨rfl, rfl⟩
  | appendApplicationRevision =>
    obtain ⟨spec', rfl⟩ := appendApplicationRevision_ok h
    exact ⟨rfl, rfl⟩
  | planDeployment =>
    obtain ⟨a, i, rev, -, -, -, -, -, p, -, -, rfl⟩ := planDeployment_ok hn h
    exact ⟨rfl, rfl⟩
  | applyDeployment =>
    obtain ⟨d, i, -, -, -, -, -, -, -, -, -, -, rfl⟩ := applyDeployment_ok h
    exact ⟨rfl, rfl⟩
  | refuseDeploymentResult =>
    obtain ⟨d, -, -, -, rfl | rfl⟩ := refuseDeploymentResult_ok h <;> exact ⟨rfl, rfl⟩
  | removeApplication =>
    obtain ⟨a, i, plan, -, -, -, -, -, -, p, -, -, rfl⟩ := removeApplication_ok h
    exact ⟨rfl, rfl⟩
  | failDeployment _ _ | abandonDeployments | sweepDeployments | other _ _ _ _ _ =>
    obtain rfl := Except.ok.inj h
    exact ⟨rfl, rfl⟩
  | _ => cases hop

/-- Each transaction makes one of these changes. -/
theorem change_of_exec (hn : (db.deployments.map Deployment.id).Nodup) {op : LifecycleOp}
    (h : op.exec now db = .ok db') : Change now op.fresh db db' := by
  cases op with
  | createApplication =>
    obtain rfl := createApplication_ok h
    exact .elsewhere rfl rfl
  | appendApplicationRevision =>
    obtain ⟨spec', rfl⟩ := appendApplicationRevision_ok h
    exact .elsewhere rfl rfl
  | adoptApplication => exact .of_adopt h
  | mapKubernetes => exact .of_map h
  | setApplicationMapping => exact .of_mapping h
  | releaseApplication => exact .of_release h
  | planDeployment => exact .of_plan hn h
  | applyDeployment => exact .of_apply hn h
  | failDeployment =>
    obtain rfl := Except.ok.inj h
    refine .of_update rfl rfl ?_
    intro d _ hp
    simp only [Bool.and_eq_true, Bool.or_eq_true, decide_eq_true_eq] at hp
    exact ⟨.failed, _, _, hp.2, .inr rfl, rfl⟩
  | abandonDeployments =>
    obtain rfl := Except.ok.inj h
    refine .of_update rfl rfl ?_
    intro d _ hp
    simp only [Bool.and_eq_true, decide_eq_true_eq] at hp
    exact ⟨.unknown, _, d.settledAt, .inl hp.2, .inl rfl, rfl⟩
  | sweepDeployments =>
    obtain rfl := Except.ok.inj h
    refine .of_update rfl rfl ?_
    intro d _ hp
    simp only [Bool.and_eq_true, decide_eq_true_eq] at hp
    exact ⟨.unknown, _, d.settledAt, .inl hp.1, .inl rfl, rfl⟩
  | settleDeployment => exact .of_settle h
  | refuseDeploymentResult => exact .of_refuse hn h
  | removeApplication => exact .of_remove h
  | other =>
    obtain rfl := Except.ok.inj h
    exact .elsewhere rfl rfl

end Changes

/-! ## Rows and instances in every reachable state -/

/-- What every transaction preserves: ids are distinct and drawn, a live row is the newest of its
instance, a running row has its instance, and a row belongs to its instance's application. -/
structure Sound (clock : Int) (used : List String) (db : Db) : Prop where
  ids : (db.deployments.map Deployment.id).Nodup
  instanceIDs : (db.instances.map Instance.id).Nodup
  known : ∀ d ∈ db.deployments, d.id ∈ used ∧ d.instanceID ∈ used ∧ d.createdAt ≤ clock
  knownInstance : ∀ i ∈ db.instances, i.id ∈ used
  newest : ∀ d ∈ db.deployments, d.state.live = true → ∀ n ∈ db.deployments,
    n.instanceID = d.instanceID → n.id ≠ d.id → n.createdAt < d.createdAt
  home : ∀ d ∈ db.deployments, d.state = .applying → ∃ i ∈ db.instances, i.id = d.instanceID
  owner : ∀ d ∈ db.deployments, ∀ i ∈ db.instances, i.id = d.instanceID →
    i.applicationID = d.applicationID ∧ i.endpointID = d.endpointID
  numbered : ∀ d ∈ db.deployments, d.kind = .apply → d.state ≠ .planned → 1 ≤ d.revision
  settled : ∀ d ∈ db.deployments, d.kind = .apply → d.state = .succeeded →
    ∃ t ≤ clock, d.settledAt = some t

section Soundness

variable {now clock : Int} {fresh used : List String} {db db' : Db}

/-- The identity of a row never changes. -/
def Deployment.Same (d d' : Deployment) : Prop :=
  d'.id = d.id ∧ d'.applicationID = d.applicationID ∧ d'.instanceID = d.instanceID ∧
    d'.endpointID = d.endpointID ∧ d'.kind = d.kind ∧ d'.revision = d.revision ∧
    d'.createdAt = d.createdAt

theorem Deployment.Moves.same {d d' : Deployment} (h : d.Moves db d') : d.Same d' := by
  cases h with
  | start _ _ _ _ _ _ row =>
    subst row
    exact ⟨rfl, rfl, rfl, rfl, rfl, rfl, rfl⟩
  | close _ _ _ _ _ row =>
    subst row
    exact ⟨rfl, rfl, rfl, rfl, rfl, rfl, rfl⟩

/-- An instance keeps its application and endpoint. -/
def Instance.SameOwner (i i' : Instance) : Prop :=
  i'.id = i.id ∧ i'.applicationID = i.applicationID ∧ i'.endpointID = i.endpointID

/-- A row changes in place and keeps its identity: it does not become live, a running one has its
instance, and what leaves the plan or succeeds is recorded. -/
structure Deployment.Sits (now : Int) (db' : Db) (d d' : Deployment) : Prop where
  same : d.Same d'
  live : d'.state.live = true → d.state.live = true
  home : d'.state = .applying → ∃ i ∈ db'.instances, i.id = d.instanceID
  numbered : d.kind = .apply → d'.state ≠ .planned → 1 ≤ d.revision
  settled : d.kind = .apply → d'.state = .succeeded → ∃ t ≤ now, d'.settledAt = some t

/-- Rows deleted and changed in place. -/
theorem Sound.update (h : Sound clock used db) (hclock : clock ≤ now)
    {q : Deployment → Bool} {g : Deployment → Deployment}
    (hrows : ∀ d ∈ db.deployments, d.Sits now db' (g d))
    (hinst : (db'.instances.map Instance.id).Nodup)
    (hback : ∀ i' ∈ db'.instances, ∃ i ∈ db.instances, i.SameOwner i')
    (rows : db'.deployments = (db.deployments.filter q).map g) : Sound now used db' := by
  have hmem : ∀ d' ∈ db'.deployments, ∃ d ∈ db.deployments, d' = g d := by
    intro d' hd'
    rw [rows] at hd'
    obtain ⟨d, hd, rfl⟩ := List.mem_map.1 hd'
    exact ⟨d, List.mem_of_mem_filter hd, rfl⟩
  refine ⟨?_, hinst, ?_, ?_, ?_, ?_, ?_, ?_, ?_⟩
  · rw [rows, Table.map_col fun d hd => (hrows d (List.mem_of_mem_filter hd)).same.1]
    exact h.ids.sublist (List.filter_sublist.map _)
  · intro d' hd'
    obtain ⟨d, hd, rfl⟩ := hmem d' hd'
    obtain ⟨h₁, -, h₃, -, -, -, h₇⟩ := (hrows d hd).same
    obtain ⟨k₁, k₂, k₃⟩ := h.known d hd
    rw [h₁, h₃, h₇]
    exact ⟨k₁, k₂, k₃.trans hclock⟩
  · intro i' hi'
    obtain ⟨i, hi, hid, -⟩ := hback i' hi'
    rw [hid]
    exact h.knownInstance i hi
  · intro d' hd' hl n' hn' hinst' hne
    obtain ⟨d, hd, rfl⟩ := hmem d' hd'
    obtain ⟨n, hn, rfl⟩ := hmem n' hn'
    obtain ⟨d₁, -, d₃, -, -, -, d₇⟩ := (hrows d hd).same
    obtain ⟨n₁, -, n₃, -, -, -, n₇⟩ := (hrows n hn).same
    rw [d₇, n₇]
    apply h.newest d hd ((hrows d hd).live hl) n hn
    · rw [← n₃, ← d₃]
      exact hinst'
    · rw [← n₁, ← d₁]
      exact hne
  · intro d' hd' hs
    obtain ⟨d, hd, rfl⟩ := hmem d' hd'
    rw [(hrows d hd).same.2.2.1]
    exact (hrows d hd).home hs
  · intro d' hd' i' hi' hid
    obtain ⟨d, hd, rfl⟩ := hmem d' hd'
    obtain ⟨i, hi, hi₁, hi₂, hi₃⟩ := hback i' hi'
    obtain ⟨-, d₂, d₃, d₄, -⟩ := (hrows d hd).same
    rw [hi₂, hi₃, d₂, d₄]
    apply h.owner d hd i hi
    rw [← hi₁, hid, d₃]
  · intro d' hd' hk hs
    obtain ⟨d, hd, rfl⟩ := hmem d' hd'
    obtain ⟨-, -, -, -, d₅, d₆, -⟩ := (hrows d hd).same
    rw [d₆]
    exact (hrows d hd).numbered (d₅ ▸ hk) hs
  · intro d' hd' hk hs
    obtain ⟨d, hd, rfl⟩ := hmem d' hd'
    exact (hrows d hd).settled ((hrows d hd).same.2.2.2.2.1 ▸ hk) hs

theorem Deployment.Same.refl (d : Deployment) : d.Same d := ⟨rfl, rfl, rfl, rfl, rfl, rfl, rfl⟩

theorem Instance.SameOwner.refl (i : Instance) : i.SameOwner i := ⟨rfl, rfl, rfl⟩

/-- A row that stays as it is, if a running one keeps its instance. -/
theorem Sound.sits (h : Sound clock used db) (hclock : clock ≤ now) {d : Deployment}
    (hd : d ∈ db.deployments)
    (hhome : d.state = .applying → ∃ i ∈ db'.instances, i.id = d.instanceID) :
    d.Sits now db' d := by
  refine ⟨.refl d, fun hl => hl, hhome, h.numbered d hd, fun hk hs => ?_⟩
  obtain ⟨t, ht, hset⟩ := h.settled d hd hk hs
  exact ⟨t, ht.trans hclock, hset⟩

/-- Rows deleted and instances changed: a running row keeps its instance. -/
theorem Sound.delete (h : Sound clock used db) (hclock : clock ≤ now) {q : Deployment → Bool}
    (hhome : ∀ d ∈ db.deployments, d.state = .applying → ∃ i ∈ db'.instances, i.id = d.instanceID)
    (hinst : (db'.instances.map Instance.id).Nodup)
    (hback : ∀ i' ∈ db'.instances, ∃ i ∈ db.instances, i.SameOwner i')
    (rows : db'.deployments = db.deployments.filter q) : Sound now used db' :=
  h.update hclock (fun d hd => h.sits hclock hd (hhome d hd)) hinst hback
    (by rw [rows, List.map_id'])

theorem Sound.deleteDeployments (h : Sound clock used db) (p : Deployment → Bool) :
    Sound clock used (db.deleteDeployments p) :=
  h.delete le_rfl h.home h.instanceIDs (fun i hi => ⟨i, hi, Instance.SameOwner.refl i⟩) rfl

theorem Sound.tables (h : Sound clock used db) (hclock : clock ≤ now)
    (rows : db'.deployments = db.deployments) (instances : db'.instances = db.instances) :
    Sound now used db' := by
  refine h.delete (q := fun _ => true) hclock (instances ▸ h.home) (instances ▸ h.instanceIDs)
    (fun i hi => ⟨i, instances ▸ hi, Instance.SameOwner.refl i⟩) ?_
  rw [rows, List.filter_true]

/-- A new instance has no rows. -/
theorem Sound.adopt (h : Sound clock used db) (hclock : clock ≤ now) {i : Instance}
    (hid : i.id ∈ fresh) (hfresh : ∀ id ∈ fresh, id ∉ used) (rows : db'.deployments = db.deployments)
    (instances : db'.instances = db.instances ++ [i]) : Sound now (fresh ++ used) db' := by
  have hnew : i.id ∉ used := hfresh _ hid
  refine ⟨rows ▸ h.ids, ?_, ?_, ?_, ?_, ?_, ?_, ?_, ?_⟩
  · rw [instances]
    exact Table.nodup_concat h.instanceIDs fun j hj hid => hnew (hid ▸ h.knownInstance j hj)
  · intro d hd
    obtain ⟨h₁, h₂, h₃⟩ := h.known d (rows ▸ hd)
    exact ⟨List.mem_append_right _ h₁, List.mem_append_right _ h₂, h₃.trans hclock⟩
  · intro j hj
    rw [instances, List.mem_append, List.mem_singleton] at hj
    rcases hj with hj | rfl
    · exact List.mem_append_right _ (h.knownInstance j hj)
    · exact List.mem_append_left _ hid
  · rw [rows]
    exact h.newest
  · intro d hd hs
    obtain ⟨j, hj, hjd⟩ := h.home d (rows ▸ hd) hs
    exact ⟨j, by rw [instances]; exact List.mem_append_left _ hj, hjd⟩
  · intro d hd j hj hjd
    rw [rows] at hd
    rw [instances, List.mem_append, List.mem_singleton] at hj
    rcases hj with hj | rfl
    · exact h.owner d hd j hj hjd
    · exact absurd (hjd ▸ (h.known d hd).2.1) hnew
  · rw [rows]
    exact h.numbered
  · intro d hd hk hs
    obtain ⟨t, ht, hset⟩ := h.settled d (rows ▸ hd) hk hs
    exact ⟨t, ht.trans hclock, hset⟩

/-- A live row joins its instance's as the newest. -/
theorem Sound.insert (h : Sound clock used db) (hclock : clock < now) {d : Deployment} {i : Instance}
    (mem : i ∈ db.instances) (hid : d.id ∈ fresh) (hfresh : ∀ id ∈ fresh, id ∉ used)
    (application : d.applicationID = i.applicationID) (inst : d.instanceID = i.id)
    (endpoint : d.endpointID = i.endpointID) (created : d.createdAt = now)
    (state : d.state = .planned ∧ d.kind = .apply ∨ d.state = .applying ∧ d.kind = .remove)
    (hfree : ∀ e ∈ db.deployments, e.state.live = true → e.instanceID ≠ d.instanceID)
    (rows : db'.deployments = db.deployments ++ [d]) (instances : db'.instances = db.instances) :
    Sound now (fresh ++ used) db' := by
  have hmem : ∀ e ∈ db'.deployments, e ∈ db.deployments ∨ e = d := by
    intro e he
    rwa [rows, List.mem_append, List.mem_singleton] at he
  refine ⟨?_, instances ▸ h.instanceIDs, ?_, ?_, ?_, ?_, ?_, ?_, ?_⟩
  · rw [rows]
    exact Table.nodup_concat h.ids fun e he heid => hfresh _ hid (heid ▸ (h.known e he).1)
  · intro e he
    rcases hmem e he with he | rfl
    · obtain ⟨h₁, h₂, h₃⟩ := h.known e he
      exact ⟨List.mem_append_right _ h₁, List.mem_append_right _ h₂, h₃.trans hclock.le⟩
    · exact ⟨List.mem_append_left _ hid,
        List.mem_append_right _ (inst ▸ h.knownInstance i mem), created.le⟩
  · intro j hj
    exact List.mem_append_right _ (h.knownInstance j (instances ▸ hj))
  · -- every row there is older than the new one, and none of its instance's is live
    intro e he hl n hn hni hne
    rcases hmem e he with he | rfl
    · rcases hmem n hn with hn | rfl
      · exact h.newest e he hl n hn hni hne
      · exact absurd hni.symm (hfree e he hl)
    · rcases hmem n hn with hn | rfl
      · rw [created]
        exact lt_of_le_of_lt (h.known n hn).2.2 hclock
      · exact absurd rfl hne
  · intro e he hs
    rw [instances]
    rcases hmem e he with he | rfl
    · exact h.home e he hs
    · exact ⟨i, mem, inst.symm⟩
  · intro e he j hj hje
    rw [instances] at hj
    rcases hmem e he with he | rfl
    · exact h.owner e he j hj hje
    · have hji : j = i := List.inj_on_of_nodup_map h.instanceIDs hj mem (hje.trans inst)
      subst hji
      exact ⟨application.symm, endpoint.symm⟩
  · intro e he hk hs
    rcases hmem e he with he | rfl
    · exact h.numbered e he hk hs
    · rcases state with ⟨hp, -⟩ | ⟨-, hr⟩
      · exact absurd hp hs
      · rw [hr] at hk
        cases hk
  · intro e he hk hs
    rcases hmem e he with he | rfl
    · obtain ⟨t, ht, hset⟩ := h.settled e he hk hs
      exact ⟨t, ht.trans hclock.le, hset⟩
    · rcases state with ⟨hp, -⟩ | ⟨hp, -⟩ <;> rw [hp] at hs <;> cases hs

theorem Sound.more (h : Sound clock used db) : Sound clock (fresh ++ used) db :=
  { h with
    known := fun d hd =>
      ⟨List.mem_append_right _ (h.known d hd).1, List.mem_append_right _ (h.known d hd).2.1,
        (h.known d hd).2.2⟩
    knownInstance := fun i hi => List.mem_append_right _ (h.knownInstance i hi) }

/-- What a row becomes when it moves. -/
theorem Deployment.Moves.state {d d' : Deployment} (h : d.Moves db d') :
    (d'.state.live = true → d.state.live = true) ∧
      (d'.state = .applying → d.state = .planned ∧ ∃ i ∈ db.instances, i.id = d.instanceID) ∧
      (d.kind = .apply → d.state = .planned → 1 ≤ d.revision) ∧ d'.state ≠ .succeeded ∧
      d'.state ≠ .planned ∧ d.state.terminal = false := by
  cases h with
  | start _ _ state _ numbered home row =>
    subst row
    obtain ⟨i, hi, hid, -⟩ := home
    exact ⟨fun _ => by simp [state, DeploymentState.live], fun _ => ⟨state, i, hi, hid⟩,
      fun _ _ => numbered, by simp [Deployment.started], by simp [Deployment.started],
      by simp [state, DeploymentState.terminal]⟩
  | close _ _ _ state outcome row =>
    subst row
    refine ⟨?_, ?_, ?_, ?_, ?_, ?_⟩
    · rcases outcome with rfl | rfl <;> simp [DeploymentState.live]
    · rcases outcome with rfl | rfl <;> simp
    · intro _ hp
      rcases state with hs | hs <;> rw [hs] at hp <;> cases hp
    · rcases outcome with rfl | rfl <;> simp
    · rcases outcome with rfl | rfl <;> simp
    · rcases state with hs | hs <;> simp [hs, DeploymentState.terminal]

theorem Sound.moved (h : Sound clock used db) (hclock : clock ≤ now) {p : Deployment → Bool}
    {f : Deployment → Deployment} (moves : ∀ d ∈ db.deployments, p d = true → d.Moves db (f d))
    (rows : db'.deployments = Table.updateWhere p f db.deployments)
    (instances : db'.instances = db.instances) : Sound now used db' := by
  refine h.update hclock (q := fun _ => true) (g := fun d => if p d = true then f d else d)
    ?_ (instances ▸ h.instanceIDs) (fun i hi => ⟨i, instances ▸ hi, Instance.SameOwner.refl i⟩) ?_
  · intro d hd
    split
    · next hp =>
      have hm := moves d hd hp
      refine ⟨hm.same, hm.state.1, fun hs => ?_, fun hk _ => ?_,
        fun _ hs => absurd hs hm.state.2.2.2.1⟩
      · rw [instances]
        exact (hm.state.2.1 hs).2
      · by_cases hplan : d.state = .planned
        · exact hm.state.2.2.1 hk hplan
        · exact h.numbered d hd hk hplan
    · exact h.sits hclock hd (instances ▸ h.home d hd)
  · rw [rows, Table.updateWhere, List.filter_true]

/-! ### Settled rows -/

/-- What a settle makes of each row: its own takes the outcome, newer plans expire. -/
def Deployment.afterSettle (d : Deployment) (res : DeploymentResult) (st : DeploymentState)
    (now : Int) (e : Deployment) : Deployment :=
  let e := if e.id = d.id then e.settled st res now else e
  if e.instanceID = d.instanceID && e.state = .planned && d.createdAt < e.createdAt then
    { e with expiresAt := now }
  else e

variable {d : Deployment} {res : DeploymentResult} {o : Outcome} {st : DeploymentState}

theorem Settled.rows (h : Settled d res o st now db db') :
    db'.deployments = db.deployments.map (d.afterSettle res st now) := by
  rw [h.deployments, Table.updateWhere, Table.updateWhere, List.map_map]
  apply List.map_congr_left
  intro e _
  simp only [decide_eq_true_eq]
  rfl

theorem outcomeState?_ne {o : Outcome} (h : outcomeState? o = some st) :
    st ≠ .planned ∧ st ≠ .applying := by
  cases o <;> cases h <;> simp

/-- The settled row itself, or another one, which at most expires as a plan. -/
theorem afterSettle_cases (res : DeploymentResult) (now : Int) (hst : outcomeState? o = some st)
    (e : Deployment) :
    (e.id = d.id ∧ d.afterSettle res st now e = e.settled st res now) ∨
      (e.id ≠ d.id ∧ (d.afterSettle res st now e = e ∨
        e.state = .planned ∧ d.afterSettle res st now e = { e with expiresAt := now })) := by
  unfold Deployment.afterSettle
  by_cases hid : e.id = d.id
  · have hne : (e.settled st res now).state ≠ .planned := (outcomeState?_ne hst).1
    simp [hid, hne]
  · right
    refine ⟨hid, ?_⟩
    simp only [if_neg hid]
    split
    · next hp =>
      simp only [Bool.and_eq_true, decide_eq_true_eq] at hp
      exact .inr ⟨hp.1.2, rfl⟩
    · exact .inl rfl

theorem afterSettle_same (e : Deployment) : e.Same (d.afterSettle res st now e) := by
  unfold Deployment.afterSettle
  by_cases hid : e.id = d.id <;> simp only [hid, if_true, if_false] <;> split <;>
    exact ⟨rfl, rfl, rfl, rfl, rfl, rfl, rfl⟩

/-- A running row of the instance is the one that may settle. -/
theorem Sound.alone (h : Sound clock used db) (hd : d ∈ db.deployments)
    (hsettle : db.settleable d = true) {e : Deployment} (he : e ∈ db.deployments)
    (hs : e.state = .applying) (hi : e.instanceID = d.instanceID) : e.id = d.id := by
  by_contra hne
  have hlive : e.state.live = true := by simp [hs, DeploymentState.live]
  have hlt := h.newest e he hlive d hd hi.symm (Ne.symm hne)
  simp only [Db.settleable, Bool.or_eq_true, Bool.and_eq_true, decide_eq_true_eq,
    Bool.not_eq_true', Db.actedSince, List.any_eq_false] at hsettle
  rcases hsettle with happly | ⟨-, hnone⟩
  · -- both would be live, each newer than the other
    have hgt := h.newest d hd (by simp [happly, DeploymentState.live]) e he hi hne
    omega
  · exact hnone e he ⟨⟨hi, hlt⟩, by simp [hs]⟩

theorem Settled.instance_back (h : Settled d res o st now db db') {i' : Instance}
    (hi' : i' ∈ db'.instances) : ∃ i ∈ db.instances, i.SameOwner i' := by
  rw [h.instances] at hi'
  split at hi'
  · split at hi'
    · obtain ⟨i, hi, rfl⟩ := Table.mem_updateWhere.1 hi'
      refine ⟨i, hi, ?_⟩
      by_cases hid : i.id = d.instanceID <;> simp [hid, Instance.SameOwner]
    · exact ⟨i', List.mem_of_mem_filter hi', Instance.SameOwner.refl i'⟩
  · exact ⟨i', hi', Instance.SameOwner.refl i'⟩

theorem Settled.instanceIDs (h : Settled d res o st now db db')
    (hn : (db.instances.map Instance.id).Nodup) : (db'.instances.map Instance.id).Nodup := by
  rw [h.instances]
  split
  · split
    · apply Table.nodup_updateWhere hn
      intro i
      rfl
    · exact hn.sublist (List.filter_sublist.map _)
  · exact hn

/-- An instance goes only when its removal succeeded. -/
theorem Settled.instance_stays (h : Settled d res o st now db db') {i : Instance}
    (hi : i ∈ db.instances) (hne : i.id ≠ d.instanceID) : ∃ i' ∈ db'.instances, i'.id = i.id := by
  rw [h.instances]
  split
  · split
    · exact ⟨_, Table.mem_updateWhere.2 ⟨i, hi, rfl⟩, by simp [hne]⟩
    · exact ⟨i, List.mem_filter.2 ⟨hi, by simpa using hne⟩, rfl⟩
  · exact ⟨i, hi, rfl⟩

theorem Sound.settle (h : Sound clock used db) (hclock : clock ≤ now) (hd : d ∈ db.deployments)
    (hst : outcomeState? o = some st) (hsettle : db.settleable d = true)
    (htables : Settled d res o st now db db') : Sound now used db' := by
  have hstate := state_of_settleable hsettle
  have hself : ∀ e ∈ db.deployments, e.id = d.id → e = d := fun e he hid =>
    List.inj_on_of_nodup_map h.ids he hd hid
  refine h.update hclock (q := fun _ => true) (g := d.afterSettle res st now) ?_
    (htables.instanceIDs h.instanceIDs) (fun i' hi' => htables.instance_back hi') ?_
  · intro e he
    have hsame : e.Same (d.afterSettle res st now e) := afterSettle_same e
    rcases afterSettle_cases res now hst e with ⟨hid, heq⟩ | ⟨hne, heq | ⟨hp, heq⟩⟩
    · rw [heq] at hsame ⊢
      obtain rfl := hself e he hid
      obtain ⟨h₁, h₂⟩ := outcomeState?_ne hst
      refine ⟨hsame, fun hl => ?_, fun hs => absurd hs h₂, fun hk _ => h.numbered e he hk ?_,
        fun _ _ => ⟨now, le_rfl, rfl⟩⟩
      · cases hs : st <;> simp_all [Deployment.settled, DeploymentState.live]
      · rcases hstate with hc | hc <;> simp [hc]
    · rw [heq]
      refine h.sits hclock he fun hs => ?_
      obtain ⟨i, hi, hie⟩ := h.home e he hs
      have hother : i.id ≠ d.instanceID := by
        intro hc
        exact hne (h.alone hd hsettle he hs (hie.symm.trans hc))
      obtain ⟨i', hi', heqi⟩ := htables.instance_stays hi hother
      exact ⟨i', hi', heqi.trans hie⟩
    · -- a plan expires
      rw [heq] at hsame ⊢
      exact ⟨hsame, fun hl => hl, by simp [hp], fun _ hs => absurd hp hs, by simp [hp]⟩
  · rw [htables.rows, List.filter_true]

/-- Every change keeps rows and instances sound. -/
theorem Sound.change (h : Sound clock used db) (hclock : clock < now)
    (hfresh : ∀ id ∈ fresh, id ∉ used) (hc : Change now fresh db db') :
    Sound now (fresh ++ used) db' := by
  cases hc with
  | elsewhere rows instances => exact (h.tables hclock.le rows instances).more
  | adopted _ id _ _ rows instances =>
    exact h.adopt hclock.le id hfresh rows instances
  | remapped g same rows instances =>
    refine (h.delete (q := fun _ => true) hclock.le ?_ ?_ ?_ ?_).more
    · intro d hd hs
      obtain ⟨i, hi, hid⟩ := h.home d hd hs
      exact ⟨g i, by rw [instances]; exact List.mem_map_of_mem hi, (same i).1.trans hid⟩
    · rw [instances, Table.map_col fun i _ => (same i).1]
      exact h.instanceIDs
    · intro i' hi'
      rw [instances] at hi'
      obtain ⟨i, hi, rfl⟩ := List.mem_map.1 hi'
      exact ⟨i, hi, (same i).1, (same i).2.1, (same i).2.2.1⟩
    · rw [rows, List.filter_true]
  | released i mem idle rows instances =>
    refine (h.delete hclock.le ?_ ?_ ?_ rows).more
    · intro d hd hs
      obtain ⟨j, hj, hjd⟩ := h.home d hd hs
      refine ⟨j, ?_, hjd⟩
      rw [instances, List.mem_filter]
      refine ⟨hj, ?_⟩
      have hne : j.id ≠ i.id := by
        intro hji
        have hij : j = i := List.inj_on_of_nodup_map h.instanceIDs hj mem hji
        subst hij
        exact idle d hd (h.owner d hd j hj hjd).1.symm hjd.symm hs
      simpa using hne
    · rw [instances]
      exact h.instanceIDs.sublist (List.filter_sublist.map _)
    · intro j hj
      rw [instances] at hj
      exact ⟨j, List.mem_of_mem_filter hj, Instance.SameOwner.refl j⟩
  | opened d i mem id application inst endpoint created state rows =>
    obtain ⟨p, hp, hfree, rfl⟩ := rows
    refine (h.deleteDeployments p).insert hclock mem id hfresh application inst endpoint created
      state ?_ rfl rfl
    intro e he hl
    obtain ⟨hmem, hpe⟩ := List.mem_filter.1 he
    exact (hfree e hmem (by simpa using hpe)).2 hl
  | moved p f moves rows instances => exact (h.moved hclock.le moves rows instances).more
  | settled _ _ _ _ mem outcome open_ tables =>
    exact (h.settle hclock.le mem outcome open_ tables).more

end Soundness

/-! ## Rows that were acted on -/

/-- Every row past its plan is still there, past its plan, and a closed one is as it was. -/
def Db.Keeps (db db' : Db) : Prop :=
  ∀ d ∈ db.deployments, d.state ≠ .planned → ∃ d' ∈ db'.deployments,
    d.Same d' ∧ d'.state ≠ .planned ∧ (d.state.terminal = true → d' = d)

theorem Deployment.Same.trans {d₁ d₂ d₃ : Deployment} (h : d₁.Same d₂) (h' : d₂.Same d₃) :
    d₁.Same d₃ := by
  obtain ⟨a, b, c, d, e, f, g⟩ := h
  obtain ⟨a', b', c', d', e', f', g'⟩ := h'
  exact ⟨a'.trans a, b'.trans b, c'.trans c, d'.trans d, e'.trans e, f'.trans f, g'.trans g⟩

theorem Db.Keeps.refl (db : Db) : db.Keeps db := fun d hd hs =>
  ⟨d, hd, Deployment.Same.refl d, hs, fun _ => rfl⟩

theorem Db.Keeps.trans {db₁ db₂ db₃ : Db} (h : db₁.Keeps db₂) (h' : db₂.Keeps db₃) :
    db₁.Keeps db₃ := by
  intro d hd hs
  obtain ⟨d', hd', hsame, hs', hterm⟩ := h d hd hs
  obtain ⟨d'', hd'', hsame', hs'', hterm'⟩ := h' d' hd' hs'
  refine ⟨d'', hd'', hsame.trans hsame', hs'', ?_⟩
  intro ht
  obtain rfl := hterm ht
  exact hterm' ht

theorem Db.Keeps.of_filter {db db' : Db} {q : Deployment → Bool}
    (hq : ∀ d ∈ db.deployments, d.state ≠ .planned → q d = true)
    (hsub : ∀ d ∈ db.deployments.filter q, d ∈ db'.deployments) : db.Keeps db' := fun d hd hs =>
  ⟨d, hsub d (List.mem_filter.2 ⟨hd, hq d hd hs⟩), Deployment.Same.refl d, hs, fun _ => rfl⟩

section Runs

variable {now clock : Int} {fresh used : List String} {db db' : Db}

/-- Every change keeps the rows that were acted on. -/
theorem Sound.keeps (h : Sound clock used db) (hc : Change now fresh db db') : db.Keeps db' := by
  cases hc with
  | elsewhere rows instances | adopted i id current free rows instances
  | remapped _ _ rows =>
    exact .of_filter (fun _ _ _ => rfl) (by simp [rows])
  | released _ _ _ rows =>
    refine .of_filter ?_ fun d hd => by rw [rows]; exact hd
    intro d _ hs
    simp [hs]
  | opened _ _ _ _ _ _ _ _ _ rows =>
    obtain ⟨p, hp, -, rfl⟩ := rows
    refine .of_filter ?_ fun e he => List.mem_append_left _ he
    intro e he hs
    by_contra hc
    exact hs (hp e he (by simpa using hc)).2
  | moved p f moves rows =>
    intro d hd hs
    by_cases hp : p d = true
    · have hm := moves d hd hp
      refine ⟨f d, ?_, hm.same, hm.state.2.2.2.2.1, fun ht => ?_⟩
      · rw [rows, Table.mem_updateWhere]
        exact ⟨d, hd, by simp [hp]⟩
      · rw [hm.state.2.2.2.2.2] at ht
        cases ht
    · refine ⟨d, ?_, Deployment.Same.refl d, hs, fun _ => rfl⟩
      rw [rows, Table.mem_updateWhere]
      exact ⟨d, hd, by simp [hp]⟩
  | settled d res o st mem outcome open_ tables =>
    intro e he hs
    have hmem : d.afterSettle res st now e ∈ db'.deployments := by
      rw [tables.rows]
      exact List.mem_map_of_mem he
    refine ⟨_, hmem, afterSettle_same e, ?_⟩
    rcases afterSettle_cases res now outcome e with ⟨hid, heq⟩ | ⟨-, heq | ⟨hp, -⟩⟩
    · -- the settled row was open
      have hed : e = d := List.inj_on_of_nodup_map h.ids he mem hid
      rw [heq]
      refine ⟨(outcomeState?_ne outcome).1, fun ht => ?_⟩
      rcases state_of_settleable open_ with hc | hc <;>
        simp [hed, hc, DeploymentState.terminal] at ht
    · rw [heq]
      exact ⟨hs, fun _ => rfl⟩
    · exact absurd hp hs

/-! ## The current revision -/

/-- The revision an instance deployed last, or the one adoption recorded. -/
def Instance.deployedRevision (i : Instance) : Nat :=
  if i.currentRevision = 0 then i.revision else i.currentRevision

/-- A succeeded apply of an instance. -/
def Deployment.succeededApply (instanceID : String) (d : Deployment) : Bool :=
  d.instanceID = instanceID && d.kind = .apply && d.state = .succeeded

/-- Settled later, or at the same instant with the greater id. -/
def Deployment.SettledAfter (a b : Deployment) : Prop :=
  b.settledAt.getD 0 < a.settledAt.getD 0 ∨
    b.settledAt.getD 0 = a.settledAt.getD 0 ∧ Text.le b.id a.id = true

instance : DecidableRel Deployment.SettledAfter := fun _ _ => inferInstanceAs (Decidable (_ ∨ _))

/-- The succeeded applies of an instance, the one that settled last first. -/
def Db.succeededApplies (db : Db) (instanceID : String) : List Deployment :=
  (db.deployments.filter (·.succeededApply instanceID)).insertionSort Deployment.SettledAfter

/-- An instance's current revision is that of its last succeeded apply, 0 before the first. -/
def Current (db : Db) : Prop :=
  ∀ i ∈ db.instances,
    i.currentRevision = ((db.succeededApplies i.id).head?.map Deployment.revision).getD 0

theorem Current.frame (h : Current db)
    (hframe : ∀ i' ∈ db'.instances, ∃ i ∈ db.instances, i'.id = i.id ∧
      i'.currentRevision = i.currentRevision ∧
      db'.deployments.filter (·.succeededApply i.id) =
        db.deployments.filter (·.succeededApply i.id)) : Current db' := by
  intro i' hi'
  obtain ⟨i, hi, hid, hcur, hrows⟩ := hframe i' hi'
  rw [hcur, hid, h i hi]
  unfold Db.succeededApplies
  rw [hrows]

variable {d : Deployment}

theorem succeededApply_iff {instanceID : String} :
    d.succeededApply instanceID = true ↔
      d.instanceID = instanceID ∧ d.kind = .apply ∧ d.state = .succeeded := by
  simp [Deployment.succeededApply, and_assoc]

theorem not_succeededApply {instanceID : String} (h : d.state ≠ .succeeded) :
    d.succeededApply instanceID = false := by
  simp [Deployment.succeededApply, h]

/-- A settle that is no succeeded apply of the instance leaves its succeeded applies. -/
theorem Settled.filter_eq {res : DeploymentResult} {o : Outcome}
    {st : DeploymentState} (tables : Settled d res o st now db db')
    (hself : ∀ e ∈ db.deployments, e.id = d.id → e = d)
    (hopen : d.state ≠ .succeeded) {instanceID : String}
    (hno : ¬ (st = .succeeded ∧ d.kind = .apply ∧ d.instanceID = instanceID)) :
    db'.deployments.filter (·.succeededApply instanceID) =
      db.deployments.filter (·.succeededApply instanceID) := by
  rw [tables.deployments, Table.filter_updateWhere, Table.filter_updateWhere]
  · intro e he hid
    obtain rfl := hself e he (by simpa using hid)
    refine ⟨not_succeededApply hopen, ?_⟩
    rw [← Bool.not_eq_true, succeededApply_iff]
    rintro ⟨hi, hk, hs⟩
    exact hno ⟨hs, hk, hi⟩
  · intro e _ hp
    simp only [Bool.and_eq_true, decide_eq_true_eq] at hp
    have hs : e.state ≠ .succeeded := by simp [hp.1.2]
    exact ⟨not_succeededApply hs, not_succeededApply hs⟩

/-- After a succeeded apply settled, it is the first of its instance. -/
theorem Sound.head_settled (h : Sound clock used db) (hclock : clock < now)
    {res : DeploymentResult} {o : Outcome} {st : DeploymentState} (mem : d ∈ db.deployments)
    (outcome : outcomeState? o = some st) (tables : Settled d res o st now db db')
    (hst : st = .succeeded) (hk : d.kind = .apply) :
    (db'.succeededApplies d.instanceID).head? = some (d.settled st res now) := by
  apply Table.head?_insertionSort
  · refine List.mem_filter.2 ⟨?_, succeededApply_iff.2 ⟨rfl, hk, hst⟩⟩
    rw [tables.rows, List.mem_map]
    refine ⟨d, mem, ?_⟩
    rcases afterSettle_cases res now outcome d with ⟨-, heq⟩ | ⟨hne, -⟩
    · exact heq
    · exact absurd rfl hne
  · intro x hx hne
    obtain ⟨hxm, hxs⟩ := List.mem_filter.1 hx
    obtain ⟨-, hxk, hxs⟩ := succeededApply_iff.1 hxs
    rw [tables.rows, List.mem_map] at hxm
    obtain ⟨e, he, rfl⟩ := hxm
    -- every other one settled before this instant
    have hlt : (d.afterSettle res st now e).settledAt.getD 0 <
        (d.settled st res now).settledAt.getD 0 := by
      rcases afterSettle_cases res now outcome e with ⟨hid, heq⟩ | ⟨-, heq | ⟨hp, heq⟩⟩
      · have hed : e = d := List.inj_on_of_nodup_map h.ids he mem hid
        rw [heq, hed] at hne
        exact absurd rfl hne
      · rw [heq] at hxk hxs ⊢
        obtain ⟨t, ht, hset⟩ := h.settled e he hxk hxs
        rw [hset]
        exact lt_of_le_of_lt ht hclock
      · rw [heq, hp] at hxs
        cases hxs
    refine ⟨.inl hlt, ?_⟩
    rintro (hc | ⟨hc, -⟩) <;> omega

/-- A succeeded apply makes its revision the current one of its instance, and no other result does. -/
theorem Current.settled (h : Current db) (hsound : Sound clock used db) (hclock : clock < now)
    {res : DeploymentResult} {o : Outcome} {st : DeploymentState} (mem : d ∈ db.deployments)
    (outcome : outcomeState? o = some st) (open_ : db.settleable d = true)
    (tables : Settled d res o st now db db') : Current db' := by
  have hself : ∀ e ∈ db.deployments, e.id = d.id → e = d := fun e he hid =>
    List.inj_on_of_nodup_map hsound.ids he mem hid
  have hopen : d.state ≠ .succeeded := by
    rcases state_of_settleable open_ with hs | hs <;> simp [hs]
  by_cases hpromote : st = .succeeded ∧ d.kind = .apply
  · obtain ⟨hst, hk⟩ := hpromote
    have hhead := hsound.head_settled hclock mem outcome tables hst hk
    intro i' hi'
    rw [tables.instances, if_pos hst] at hi'
    simp only [hk] at hi'
    obtain ⟨i, hi, rfl⟩ := Table.mem_updateWhere.1 hi'
    by_cases hid : i.id = d.instanceID
    · simp only [hid, decide_true, if_true]
      rw [hhead]
      rfl
    · simp only [hid, decide_false, Bool.false_eq_true, if_false]
      rw [h i hi]
      unfold Db.succeededApplies
      rw [tables.filter_eq hself hopen fun hc => hid hc.2.2.symm]
  · apply h.frame
    intro i' hi'
    have hrows : db'.deployments.filter (·.succeededApply i'.id) =
        db.deployments.filter (·.succeededApply i'.id) :=
      tables.filter_eq hself hopen fun hc => hpromote ⟨hc.1, hc.2.1⟩
    refine ⟨i', ?_, rfl, rfl, hrows⟩
    rw [tables.instances] at hi'
    split at hi'
    · next hst =>
      split at hi'
      · next hk => exact absurd ⟨hst, hk⟩ hpromote
      · exact List.mem_of_mem_filter hi'
    · exact hi'

/-- Every change keeps the current revisions true. -/
theorem Current.change (h : Current db) (hsound : Sound clock used db) (hclock : clock < now)
    (hfresh : ∀ id ∈ fresh, id ∉ used) (hc : Change now fresh db db') : Current db' := by
  cases hc with
  | elsewhere rows instances =>
    exact h.frame fun i hi => ⟨i, instances ▸ hi, rfl, rfl, by rw [rows]⟩
  | adopted _ id current _ rows instances =>
    intro j hj
    rw [instances, List.mem_append, List.mem_singleton] at hj
    rcases hj with hj | rfl
    · rw [h j hj]
      unfold Db.succeededApplies
      rw [rows]
    · -- no row can name an instance whose id was just drawn
      have hnone : db'.deployments.filter (·.succeededApply j.id) = [] := by
        rw [rows, List.filter_eq_nil_iff]
        intro d hd hs
        rw [succeededApply_iff] at hs
        exact hfresh _ id (hs.1 ▸ (hsound.known d hd).2.1)
      simp [Db.succeededApplies, hnone, current]
  | remapped g same rows instances =>
    apply h.frame
    intro i' hi'
    rw [instances] at hi'
    obtain ⟨i, hi, rfl⟩ := List.mem_map.1 hi'
    obtain ⟨hid, -, -, -, hcur⟩ := same i
    exact ⟨i, hi, hid, hcur, by rw [rows]⟩
  | released _ _ _ rows instances =>
    apply h.frame
    intro j hj
    rw [instances] at hj
    refine ⟨j, List.mem_of_mem_filter hj, rfl, rfl, ?_⟩
    rw [rows, List.filter_filter]
    apply List.filter_congr
    intro d _
    by_cases hs : d.state = .planned
    · simp [Deployment.succeededApply, hs]
    · simp [hs]
  | opened d _ _ _ _ _ _ _ state rows =>
    obtain ⟨p, hp, -, rfl⟩ := rows
    apply h.frame
    intro j hj
    refine ⟨j, hj, rfl, rfl, ?_⟩
    have hnew : d.state ≠ .succeeded := by
      rcases state with ⟨hs, -⟩ | ⟨hs, -⟩ <;> simp [hs]
    rw [List.filter_append, List.filter_singleton, not_succeededApply hnew]
    simp only [cond_false, List.append_nil, Db.deleteDeployments, List.filter_filter]
    apply List.filter_congr
    intro e he
    by_cases hpe : p e = true
    · simp [Deployment.succeededApply, (hp e he hpe).2]
    · simp [hpe]
  | moved p f moves rows instances =>
    apply h.frame
    intro j hj
    refine ⟨j, instances ▸ hj, rfl, rfl, ?_⟩
    rw [rows, Table.filter_updateWhere]
    intro d hd hpd
    have hm := (moves d hd hpd).state
    have hopen : d.state ≠ .succeeded := by
      intro hs
      rw [hs] at hm
      simp [DeploymentState.terminal] at hm
    exact ⟨not_succeededApply hopen, not_succeededApply hm.2.2.2.1⟩
  | settled _ _ _ _ mem outcome open_ tables =>
    exact h.settled hsound hclock mem outcome open_ tables

/-! ## The lifecycle -/

/-- What holds of a server in every reachable state. -/
structure Server.Inv (s : Server) : Prop where
  sound : Sound s.clock s.used s.db
  current : Current s.db

theorem Server.inv_new : Server.new.Inv := by
  refine ⟨⟨List.nodup_nil, List.nodup_nil, ?_, ?_, ?_, ?_, ?_, ?_, ?_⟩, ?_⟩ <;>
    · intro x hx
      cases hx

theorem lifecycle_step {op : Int × LifecycleOp} {s s' : Server} (h : s.Inv)
    (hstep : lifecycleMachine.step op s = .ok s') : s'.Inv ∧ s.db.Keeps s'.db := by
  obtain ⟨hclock, hfresh, db, hexec, rfl⟩ := serverMachine_ok hstep
  have hc := change_of_exec h.sound.ids hexec
  exact ⟨⟨h.sound.change hclock hfresh hc, h.current.change h.sound hclock hfresh hc⟩,
    h.sound.keeps hc⟩

theorem lifecycle_inv {s s' : Server} (h : lifecycleMachine.Steps s s') (hs : s.Inv) : s'.Inv :=
  h.keeps (fun _ _ _ hi hstep => (lifecycle_step hi hstep).1) hs

theorem lifecycle_keeps {s s' : Server} (h : lifecycleMachine.Steps s s') (hs : s.Inv) :
    s.db.Keeps s'.db :=
  h.rel (fun _ _ _ hi hstep => (lifecycle_step hi hstep).1)
    (fun s => .refl s.db) (fun _ _ _ h h' => h.trans h')
    (fun _ _ _ hi hstep => (lifecycle_step hi hstep).2) hs

theorem Sound.live_unique (h : Sound clock used db) {d' : Deployment} (hd : d ∈ db.deployments)
    (hd' : d' ∈ db.deployments) (hl : d.state.live = true) (hl' : d'.state.live = true)
    (hi : d'.instanceID = d.instanceID) : d' = d := by
  by_contra hne
  have hid : d'.id ≠ d.id := fun hc => hne (List.inj_on_of_nodup_map h.ids hd' hd hc)
  have h₁ := h.newest d hd hl d' hd' hi hid
  have h₂ := h.newest d' hd' hl' d hd hi.symm hid.symm
  omega

theorem Server.Inv.deployedRevision {s : Server} (h : s.Inv) {i : Instance}
    (hi : i ∈ s.db.instances) :
    i.deployedRevision = match (s.db.succeededApplies i.id).head? with
      | some d => d.revision
      | none => i.revision := by
  have hcur := h.current i hi
  unfold Instance.deployedRevision
  cases hhead : (s.db.succeededApplies i.id).head? with
  | none =>
    rw [hhead] at hcur
    simp [hcur]
  | some d =>
    rw [hhead] at hcur
    have hmem : d ∈ s.db.succeededApplies i.id := List.mem_of_head? hhead
    rw [Db.succeededApplies, List.mem_insertionSort, List.mem_filter, succeededApply_iff] at hmem
    obtain ⟨hd, -, hk, hs⟩ := hmem
    have hrev := h.sound.numbered d hd hk (by simp [hs])
    have hne : i.currentRevision ≠ 0 := by
      rw [hcur]
      simpa using by omega
    rw [if_neg hne, hcur]
    rfl

/-- Nothing newer was acted on when a result settles. -/
theorem Sound.refuses_late (h : Sound clock used db) {n : Deployment} (hd : d ∈ db.deployments)
    (hn : n ∈ db.deployments) (hi : n.instanceID = d.instanceID) (hlt : d.createdAt < n.createdAt)
    (hs : n.state ≠ .planned) : db.settleable d = false := by
  rw [← Bool.not_eq_true]
  simp only [Db.settleable, Bool.or_eq_true, Bool.and_eq_true, decide_eq_true_eq,
    Bool.not_eq_true', Db.actedSince, List.any_eq_false]
  rintro (happly | ⟨-, hnone⟩)
  · -- a running row is the newest of its instance
    have hne : n.id ≠ d.id := by
      intro hid
      rw [List.inj_on_of_nodup_map h.ids hn hd hid] at hlt
      omega
    have := h.newest d hd (by simp [happly, DeploymentState.live]) n hn hi hne
    omega
  · exact hnone n hn ⟨⟨hi, hlt⟩, by simpa using hs⟩

/-- The deployment lifecycle, in every reachable state and whatever runs from there: an instance has
at most one planned or applying row; its deployed revision is that of the apply that succeeded last,
or the adopted one; a closed row never changes; and once a newer row of the instance was acted on, no
result settles the older one. -/
theorem deployment_lifecycle {s : Server} (h : lifecycleMachine.Steps Server.new s) :
    (∀ d ∈ s.db.deployments, ∀ d' ∈ s.db.deployments, d.state.live = true →
        d'.state.live = true → d'.instanceID = d.instanceID → d' = d) ∧
      (∀ i ∈ s.db.instances,
        i.deployedRevision = match (s.db.succeededApplies i.id).head? with
          | some d => d.revision
          | none => i.revision) ∧
      (∀ d ∈ s.db.deployments, d.state.terminal = true → ∀ s', lifecycleMachine.Steps s s' →
        s'.db.deployment? d.id = some d) ∧
      ∀ d ∈ s.db.deployments, ∀ n ∈ s.db.deployments, n.instanceID = d.instanceID →
        d.createdAt < n.createdAt → n.state ≠ .planned → ∀ s', lifecycleMachine.Steps s s' →
        ∀ endpointID r now db', r.deployment = d.id →
          settleDeployment endpointID r now s'.db ≠ .ok db' := by
  have hinv := lifecycle_inv h Server.inv_new
  refine ⟨?_, fun i hi => hinv.deployedRevision hi, ?_, ?_⟩
  · intro d hd d' hd' hl hl' hi
    exact hinv.sound.live_unique hd hd' hl hl' hi
  · intro d hd ht s' hs'
    have hp : d.state ≠ .planned := by
      intro hp
      simp [hp, DeploymentState.terminal] at ht
    obtain ⟨d', hd', -, -, hsame⟩ := lifecycle_keeps hs' hinv d hd hp
    obtain rfl := hsame ht
    exact Table.find_of_mem _ (lifecycle_inv hs' hinv).sound.ids hd'
  · intro d hd n hn hi hlt hacted s' hs' endpointID r now db' hr hsettle
    have hinv' := lifecycle_inv hs' hinv
    -- the older row is past its plan as well: a plan is the newest of its instance
    have hp : d.state ≠ .planned := by
      intro hp
      have hne : n.id ≠ d.id := by
        intro hid
        rw [List.inj_on_of_nodup_map hinv.sound.ids hn hd hid] at hlt
        omega
      have := hinv.sound.newest d hd (by simp [hp, DeploymentState.live]) n hn hi hne
      omega
    have hkeeps := lifecycle_keeps hs' hinv
    obtain ⟨d', hd', hsame, -⟩ := hkeeps d hd hp
    obtain ⟨n', hn', hsame', hacted', -⟩ := hkeeps n hn hacted
    obtain ⟨x, o, st, -, -, -, hx, -, hopen, -⟩ := settleDeployment_ok hsettle
    have hxd : x = d' := by
      apply List.inj_on_of_nodup_map hinv'.sound.ids (Table.mem_of_find _ hx) hd'
      rw [Table.key_of_find _ hx, hr, hsame.1]
    obtain ⟨-, -, hdi, -, -, -, hdc⟩ := hsame
    obtain ⟨-, -, hni, -, -, -, hnc⟩ := hsame'
    have hlate := hinv'.sound.refuses_late hd' hn' (by rw [hni, hdi, hi]) (by rw [hdc, hnc]; exact hlt)
      hacted'
    rw [hxd, hlate] at hopen
    cases hopen

end Runs

/-! ## A run -/

/-- Distinct ids of rows. -/
def rowID (n : Nat) : String :=
  "00000000-0000-0000-0000-00000000000" ++ String.ofList [Text.hexDigit n]

/-- A container's id and an image's, one for each digit. -/
def hexID (n : Nat) : String := String.ofList (List.replicate 64 (Text.hexDigit n))
def sampleImage (n : Nat) : String := "sha256:" ++ hexID n

/-- One service. -/
def webSpec : ApplicationSpec :=
  ⟨"compose.v1", [⟨[], .unset, "web", "nginx:1", .empty, []⟩], [], none⟩

def sampleRequestID : RequestID := ⟨"r", by decide⟩

/-- An application whose one container is adopted and mapped. -/
def adoptedRun : List (Int × LifecycleOp) :=
  [(1, .createApplication "a" "app" webSpec),
    (2, .adoptApplication "a" "i" ⟨"e", "p", "digest", "p"⟩ ⟨[⟨hexID 1, "web", sampleImage 1, 1⟩], "digest"⟩),
    (3, .setApplicationMapping "a" ⟨"i", 0, "digest", "p", ⟨[("web", hexID 1)], by simp⟩⟩ .docker true
      "digest")]

/-- A plan of the latest revision, at one instant, and its apply at the next. -/
def appliedRun (n : Nat) (now : Int) : List (Int × LifecycleOp) :=
  [(now, .planDeployment "a" (rowID n) ⟨"i", 1, 0, "p"⟩
      ⟨.docker, true, fun _ => sampleImage 2, fun _ => "", fun _ => "", false⟩ sampleRequestID),
    (now + 1, .applyDeployment "a" (rowID n) "p" none ⟨true, true⟩)]

/-- The service runs as the container of a digit. -/
def sampleResult (n container : Nat) : DeploymentResult :=
  ⟨rowID n, "r", some .succeeded, none, [],
    [{ service := "web", imageDigest := "", containerID := hexID container, imageID := sampleImage 2
       createdUnix := 2 }]⟩

/-- The apply of an application on a cluster. -/
def clusterRun : List (Int × LifecycleOp) :=
  [(1, .createApplication "a" "app" webSpec),
    (2, .mapKubernetes "a" "i" "e" "prod" ⟨true, .kubernetes, ["prod"]⟩),
    (3, .planDeployment "a" (rowID 1) ⟨"i", 1, 0, "app"⟩
      ⟨.kubernetes, true, fun _ => "", fun _ => "nginx", fun _ => sampleImage 2, false⟩
      sampleRequestID),
    (4, .applyDeployment "a" (rowID 1) "app" none ⟨true, true⟩)]

def clusterResult : DeploymentResult :=
  ⟨rowID 1, "r", some .succeeded, none, [],
    [{ service := "web", imageDigest := sampleImage 2, kind := .deployment, containerID := ""
       imageID := "", createdUnix := 0, ns := "prod", name := "app-web", uid := rowID 3
       generation := 1 }]⟩

/-- The first apply is abandoned, the second one succeeds: the first one's result comes too late. -/
theorem deployment_lifecycle_control :
    let s := lifecycleMachine.run (adoptedRun ++ appliedRun 1 4 ++ [(6, .abandonDeployments "e")] ++
      appliedRun 2 7 ++ [(9, .settleDeployment "e" (sampleResult 2 2))]) Server.new
    s.db.deployments.map (fun d => (d.id, d.state)) =
        [(rowID 1, .unknown), (rowID 2, .succeeded)] ∧
      s.db.instances.map Instance.deployedRevision = [1] ∧
      ∀ s', lifecycleMachine.Steps s s' → ∀ endpointID r now db', r.deployment = rowID 1 →
        settleDeployment endpointID r now s'.db ≠ .ok db' := by
  intro s
  have hpair : ∃ d ∈ s.db.deployments, ∃ n ∈ s.db.deployments, n.instanceID = d.instanceID ∧
      d.createdAt < n.createdAt ∧ n.state ≠ .planned ∧ d.id = rowID 1 := by
    decide +kernel
  refine ⟨by decide +kernel, by decide +kernel, ?_⟩
  intro s' hs' endpointID r now db' hr
  obtain ⟨d, hd, n, hn, hi, hlt, hacted, hid⟩ := hpair
  obtain ⟨-, -, -, hlate⟩ := deployment_lifecycle (s := s) (Machine.steps_run _ Server.new)
  exact hlate d hd n hn hi hlt hacted s' hs' endpointID r now db' (hr.trans hid.symm)

/-- The clock is set back from 102 to 50 between two plans. The second row is then the older one by its
instant, so the first one's late result settles while the second is applying. -/
theorem late_result_settles :
    let machine := transactionMachine LifecycleOp.exec LifecycleOp.fresh
    let s := machine.run (adoptedRun ++ appliedRun 1 100 ++ [(102, .abandonDeployments "e")] ++
      appliedRun 2 50) Server.new
    let s' := machine.run [(52, .settleDeployment "e" (sampleResult 1 2))] s
    s.db.deployments.map (fun d => (d.id, d.instanceID, d.state)) =
        [(rowID 1, "i", .unknown), (rowID 2, "i", .applying)] ∧
      s'.db.deployments.map (fun d => (d.id, d.instanceID, d.state)) =
        [(rowID 1, "i", .succeeded), (rowID 2, "i", .applying)] := by
  decide +kernel

end KyYard.Store
