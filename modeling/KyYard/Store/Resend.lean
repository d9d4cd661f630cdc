import KyYard.Store.Retention

/-!
# A result delivered again

An agent sends its whole ledger on every reconnect, so the store meets the same result many times,
with plans made in between. A terminal outcome closes its row, and the row refuses the rest. An
unknown outcome leaves its row open: the same result is settled once more, at a later instant and
with one more audit row, unless it reports containers that can be bound only once.

`settle_once` says exactly when all deliveries after the first are ignored.
-/

namespace KyYard.Store

open Foundation Protocol

/-! ## When a result is accepted -/

/-- The checks on a result alone. -/
def readable (r : DeploymentResult) : Bool :=
  (r.outcome.bind outcomeState?).isSome && (legacyResult r).validate &&
    (legacyResult r).stored.json.size ≤ maxDeploymentResultStoredBytes

/-- The identities of a result take the places of the containers its row replaced. -/
def rebindAll (d : Deployment) (res : DeploymentResult) (rs : List Resource) :
    Except StoreError (List Resource) :=
  res.services.foldlM (rebind d.instanceID d.endpointID d.plan) rs

/-- The checks of a result against its row and the instance's containers. -/
def fitsResources (d : Deployment) (res : DeploymentResult) (rs : List Resource) : Bool :=
  match d.kind with
  | .apply =>
    if d.plan.ns ≠ "" then identitiesFit clusterFits d.plan res
    else identitiesFit dockerFits d.plan res && (rebindAll d res rs).isOk
  | .remove =>
    res.services = [] &&
      if d.plan.ns ≠ "" then res.steps.all clusterRemovalStep
      else
        let targets := (d.plan.containers.map RemovalPlanTarget.service).dedup
        dockerRemovalSteps d.plan res &&
          (res.outcome ≠ some .succeeded || (targets.filter (offHost res)).length = targets.length)

/-- A row that may be settled takes the result. -/
def accepts (r : DeploymentResult) (d : Deployment) (db : Db) : Bool :=
  readable r && ((legacyResult r).requestID = "" || (legacyResult r).requestID = d.correlationID) &&
    fitsResources d (legacyResult r) db.resources &&
    !(d.kind = .apply && r.outcome = some .succeeded && (db.validation? d.id).isSome)

section Commits

variable (now : Int) (db : Db) (d : Deployment) (res : DeploymentResult)

theorem settleResources_commits :
    (∃ db', settleResources d res now db = .ok db') ↔ fitsResources d res db.resources = true := by
  unfold settleResources fitsResources
  cases d.kind with
  | apply =>
    unfold settleApply rebindAll
    by_cases hns : d.plan.ns = ""
    · cases hfold : res.services.foldlM (rebind d.instanceID d.endpointID d.plan) db.resources <;>
        simp [hns, Except.toBool]
    · simp [hns]
  | remove =>
    unfold settleRemoval
    by_cases hns : d.plan.ns = ""
    · simp [hns, -List.length_filter_eq_length_iff, imp_iff_not_or]
    · simp [hns]

theorem settleRow_commits {o : Outcome} {st : DeploymentState} (ho : res.outcome = some o)
    (hst : outcomeState? o = some st) :
    (∃ db', settleRow d res st o now db = .ok db') ↔
      fitsResources d res db.resources = true ∧
        ¬ (d.kind = .apply ∧ o = .succeeded ∧ (db.validation? d.id).isSome = true) := by
  have hsucc := outcomeState?_succeeded hst
  have hout : res.outcome = some .succeeded ↔ st = .succeeded := by
    rw [ho, Option.some.injEq, hsucc]
  rw [← settleResources_commits now, hsucc]
  unfold settleRow
  cases hres : settleResources d res now db with
  | error => simp
  | ok db₁ =>
    simp only [Except.ok.injEq, exists_eq', true_and]
    rw [Db.validation?, ← (settleResources_ok hout hres).validations]
    -- the row's own update leaves the validations alone
    unfold recordSuccess
    by_cases hs : d.kind = .apply ∧ st = .succeeded
    · by_cases hv : (Table.find Validation.deploymentID d.id db₁.validations).isSome = true
      · simp [hs.1, hs.2, hv, Db.validation?]
      · simp [hs.1, hs.2, hv, Db.validation?]
    · simp only [if_neg hs, Except.ok.injEq, exists_eq', true_iff]
      exact fun hall => hs ⟨hall.1, hall.2.1⟩

theorem settleDeployment_commits (endpointID : String) (r : DeploymentResult) :
    (∃ db', settleDeployment endpointID r now db = .ok db') ↔
      ∃ d, db.settleable? endpointID r.deployment = some d ∧ accepts r d db = true := by
  unfold settleDeployment accepts readable
  simp only [legacyResult_outcome, legacyResult_deployment]
  cases ho : r.outcome with
  | none => simp
  | some o =>
    cases hst : outcomeState? o with
    | none => simp [hst]
    | some =>
      have ho' : (legacyResult r).outcome = some o := by rw [legacyResult_outcome, ho]
      cases hd : db.settleable? endpointID r.deployment with
      | none => simp [hst]
      | some d =>
        have hrow := settleRow_commits now db d _ ho' hst
        simp [hst, hrow, and_assoc, or_iff_not_imp_left]

end Commits

/-! ## What comes in between -/

section Between

variable {now : Int} {db db' : Db} {endpointID : String} {r : DeploymentResult}

/-- A plan changes neither the open rows nor what they are checked against. -/
theorem settleable?_of_opened (hn : (db.deployments.map Deployment.id).Nodup) {d x : Deployment}
    (hstate : d.state = .planned) (hopen : db.Opened d db')
    (hx : db'.settleable? endpointID r.deployment = some x) :
    db.settleable? endpointID r.deployment = some x ∧ db'.resources = db.resources ∧
      db'.validation? x.id = db.validation? x.id := by
  obtain ⟨p, hp, -, rfl⟩ := hopen
  obtain ⟨hrow, hend, hsettle⟩ := settleable?_eq_some.1 hx
  have hxstate := state_of_settleable hsettle
  have hmem : x ∈ db.deployments ∧ p x = false := by
    have hm := Table.mem_of_find _ hrow
    rw [List.mem_append, List.mem_singleton] at hm
    rcases hm with hm | rfl
    · simpa [Db.deleteDeployments] using hm
    · rw [hstate] at hxstate
      simp at hxstate
  have hid : x.id = r.deployment := Table.key_of_find _ hrow
  refine ⟨settleable?_eq_some.2 ⟨?_, hend, ?_⟩, rfl, ?_⟩
  · rw [← hid]
    exact Table.find_of_mem _ hn hmem.1
  · -- a row that was acted on is no plan, so it was not replaced
    simp only [Db.settleable, Bool.or_eq_true, Bool.and_eq_true, Bool.not_eq_true', Db.actedSince,
      List.any_eq_false, not_and] at hsettle ⊢
    refine hsettle.imp_right ?_
    rintro ⟨hu, hnone⟩
    refine ⟨hu, ?_⟩
    intro n hn' hlt hacted
    refine hnone n (List.mem_append_left _ (List.mem_filter.2 ⟨hn', ?_⟩)) hlt hacted
    by_contra hc
    exact absurd (hp n hn' (by simpa using hc)).2 (by simpa using hacted)
  · -- the validations of other rows went with them
    apply Table.find_filter
    intro v _ hv
    rw [Bool.not_eq_true', List.any_eq_false]
    intro e he hpe
    simp only [Bool.and_eq_true, decide_eq_true_eq] at hpe
    rw [List.inj_on_of_nodup_map hn he hmem.1 (hpe.2.trans hv), hmem.2] at hpe
    exact absurd hpe.1 Bool.false_ne_true

/-- A plan does not make the store accept a result it refused. -/
theorem refused_of_opened (hn : (db.deployments.map Deployment.id).Nodup) {d : Deployment}
    (hstate : d.state = .planned) (hopen : db.Opened d db')
    (hrefused : ∀ now db₁, settleDeployment endpointID r now db ≠ .ok db₁) (db₁ : Db) :
    settleDeployment endpointID r now db' ≠ .ok db₁ := by
  intro h
  obtain ⟨x, hx, haccepts⟩ := (settleDeployment_commits now db' endpointID r).1 ⟨db₁, h⟩
  obtain ⟨hx', hres, hval⟩ := settleable?_of_opened hn hstate hopen hx
  obtain ⟨db₂, h₂⟩ := (settleDeployment_commits now db endpointID r).2
    ⟨x, hx', by rwa [accepts, hres, hval] at haccepts⟩
  exact hrefused now db₂ h₂

end Between

/-! ## The second delivery -/

/-- What a result reports can be settled twice: a removal and a cluster bind nothing, and on Docker
the containers it names can take their own places. -/
def bindsTwice (d : Deployment) (res : DeploymentResult) (rs : List Resource) : Bool :=
  d.kind = .remove || d.plan.ns ≠ "" ||
    match rebindAll d res rs with
    | .ok rs => (rebindAll d res rs).isOk
    | .error _ => false

section Second

variable {now clock : Int} {used : List String} {db db' : Db} {d : Deployment}
  {res : DeploymentResult} {o : Outcome} {st : DeploymentState}

/-- The row as a result left it. -/
theorem Settled.row (h : Sound clock used db) (hd : d ∈ db.deployments)
    (hst : outcomeState? o = some st) (htables : Settled d res o st now db db')
    {x : Deployment} (hx : db'.deployment? d.id = some x) : x = d.settled st res now := by
  have hmem := Table.mem_of_find _ hx
  rw [htables.rows, List.mem_map] at hmem
  obtain ⟨e, he, rfl⟩ := hmem
  have hid : e.id = d.id := (afterSettle_same e).1.symm.trans (Table.key_of_find _ hx)
  obtain rfl := List.inj_on_of_nodup_map h.ids he hd hid
  rcases afterSettle_cases res now hst e with ⟨-, heq⟩ | ⟨hne, -⟩
  · exact heq
  · exact absurd rfl hne

/-- In a sound state a row may be settled exactly if it is open, its instance exists and nothing newer
was acted on. -/
theorem Sound.settleable_iff (h : Sound clock used db) (hd : d ∈ db.deployments) :
    db.settleable d = true ↔ (d.state = .applying ∨ d.state = .unknown) ∧
      (db.instance? d.instanceID).isSome = true ∧ db.actedSince d = false := by
  simp only [Db.settleable, Bool.or_eq_true, Bool.and_eq_true, decide_eq_true_eq, Bool.not_eq_true']
  constructor
  · rintro (happly | ⟨⟨hunknown, hhome⟩, hlast⟩)
    · refine ⟨.inl happly, (Table.find_isSome_iff _).2 (h.home d hd happly), ?_⟩
      -- a running row is the newest of its instance
      rw [Db.actedSince, List.any_eq_false]
      intro n hn hc
      simp only [Bool.and_eq_true, decide_eq_true_eq] at hc
      obtain ⟨⟨hi, hlt⟩, -⟩ := hc
      by_cases hid : n.id = d.id
      · rw [List.inj_on_of_nodup_map h.ids hn hd hid] at hlt
        omega
      · have := h.newest d hd (by simp [happly, DeploymentState.live]) n hn hi hid
        omega
    · exact ⟨.inr hunknown, hhome, hlast⟩
  · rintro ⟨happly | hunknown, hhome, hlast⟩
    · exact .inl happly
    · exact .inr ⟨⟨hunknown, hhome⟩, hlast⟩

/-- A row of unknown outcome stays open: it is still the last that was acted on. -/
theorem Settled.open_again (h : Sound clock used db) (hclock : clock ≤ now)
    (hd : d ∈ db.deployments) (hsettle : db.settleable d = true)
    (htables : Settled d res .unknown .unknown now db db') :
    db'.deployment? d.id = some (d.settled .unknown res now) ∧
      db'.settleable (d.settled .unknown res now) = true := by
  have hst : outcomeState? .unknown = some .unknown := rfl
  have hsound := h.settle hclock hd hst hsettle htables
  obtain ⟨-, hhome, hlast⟩ := (h.settleable_iff hd).1 hsettle
  have hmem : d.settled .unknown res now ∈ db'.deployments := by
    rw [htables.rows, List.mem_map]
    refine ⟨d, hd, ?_⟩
    rcases afterSettle_cases res now hst d with ⟨-, heq⟩ | ⟨hne, -⟩
    · exact heq
    · exact absurd rfl hne
  refine ⟨Table.find_of_mem _ hsound.ids hmem, (hsound.settleable_iff hmem).2 ⟨.inr rfl, ?_, ?_⟩⟩
  · rw [Db.instance?, htables.instances]
    exact hhome
  · -- no row but the settled one gained a state
    rw [Db.actedSince, List.any_eq_false] at hlast ⊢
    intro n hn hc
    rw [htables.rows, List.mem_map] at hn
    obtain ⟨e, he, rfl⟩ := hn
    rcases afterSettle_cases res now hst e with ⟨hid, heq⟩ | ⟨-, heq | ⟨hplan, heq⟩⟩
    · rw [heq, List.inj_on_of_nodup_map h.ids he hd hid] at hc
      simp at hc
    · rw [heq] at hc
      exact hlast e he hc
    · rw [heq] at hc
      simp [hplan] at hc

/-- A result fits a second time exactly if its identities can be bound twice. -/
theorem fitsResources_again {rs : List Resource} (hfits : fitsResources d res db.resources = true)
    (hrs : Rebound d res db rs) :
    fitsResources d res rs = true ↔ bindsTwice d res db.resources = true := by
  unfold fitsResources at hfits ⊢
  unfold bindsTwice
  cases hk : d.kind with
  | remove => simpa [hk] using hfits
  | apply =>
    by_cases hns : d.plan.ns = ""
    · obtain ⟨hfit, hfold⟩ := hrs.docker hk hns
      have hall : rebindAll d res db.resources = .ok rs := hfold
      simp [hns, hfit, hall]
    · simpa [hk, hns] using hfits

/-- After a first delivery the store accepts the result again exactly if its outcome is unknown and
what it reports can be settled twice. -/
theorem settle_again (h : Sound clock used db) (hclock : clock ≤ now) {endpointID : String}
    {r : DeploymentResult} (hfirst : settleDeployment endpointID r now db = .ok db') (later : Int) :
    (∃ db₂, settleDeployment endpointID r later db' = .ok db₂) ↔
      r.outcome = some .unknown ∧ ∃ d, db.settleable? endpointID r.deployment = some d ∧
        bindsTwice d (legacyResult r) db.resources = true := by
  obtain ⟨d, o, st, ho, hst, -, hrow, hend, hsettle, htables⟩ := settleDeployment_ok hfirst
  have hd := Table.mem_of_find _ hrow
  have hid : d.id = r.deployment := Table.key_of_find _ hrow
  have hsome : db.settleable? endpointID r.deployment = some d :=
    settleable?_eq_some.2 ⟨hrow, hend, hsettle⟩
  obtain ⟨d', hd', haccepts⟩ := (settleDeployment_commits now db endpointID r).1 ⟨db', hfirst⟩
  obtain rfl : d = d' := Option.some.inj (hsome.symm.trans hd')
  rw [settleDeployment_commits]
  constructor
  · rintro ⟨x, hx, hagain⟩
    obtain ⟨hxrow, -, hxsettle⟩ := settleable?_eq_some.1 hx
    obtain rfl := htables.row h hd hst (hid ▸ hxrow)
    -- only an unknown outcome leaves the row open
    have hunknown : st = .unknown := by
      rcases state_of_settleable hxsettle with hs | hs
      · exact absurd hs (outcomeState?_ne hst).2
      · exact hs
    obtain rfl : o = .unknown := by
      subst hunknown
      cases o <;> cases hst
      rfl
    refine ⟨ho, d, hsome, ?_⟩
    obtain ⟨rs, hrs, hresources⟩ := htables.resources
    rw [if_neg (by simp [hunknown])] at hresources
    simp only [accepts, hresources, Bool.and_eq_true] at hagain haccepts
    exact (fitsResources_again haccepts.1.2 hrs).1 hagain.1.2
  · rintro ⟨hunknown, x, hx, htwice⟩
    obtain rfl : d = x := Option.some.inj (hsome.symm.trans hx)
    obtain rfl : o = .unknown := Option.some.inj (ho.symm.trans hunknown)
    obtain rfl : st = .unknown := (Option.some.inj hst).symm
    obtain ⟨hrow', hsettle'⟩ := htables.open_again h hclock hd hsettle
    refine ⟨d.settled .unknown (legacyResult r) now,
      settleable?_eq_some.2 ⟨hid ▸ hrow', hend, hsettle'⟩, ?_⟩
    obtain ⟨rs, hrs, hresources⟩ := htables.resources
    simp only [accepts, hresources, hunknown, Bool.and_eq_true] at haccepts ⊢
    exact ⟨⟨haccepts.1.1, (fitsResources_again haccepts.1.2 hrs).2 htwice⟩, by simp⟩

end Second

/-! ## All deliveries -/

/-- Another plan is made, or the result is delivered again. -/
def Between (endpointID : String) (r : DeploymentResult) (s s' : Server) : Prop :=
  ∃ now op, ((∃ app id q c k, op = .planDeployment app id q c k) ∨
    op = .settleDeployment endpointID r) ∧ storeMachine.step (now, .lifecycle op) s = .ok s'

/-- Delivering the result now leaves every row, the instances and their containers, and the audit log
as they are. -/
def Ignored (endpointID : String) (r : DeploymentResult) (s : Server) : Prop :=
  ∀ now, s.clock < now → ∀ db', settleDeployment endpointID r now s.db = .ok db' →
    db'.deployments = s.db.deployments ∧ db'.instances = s.db.instances ∧
      db'.resources = s.db.resources ∧ db'.audit = s.db.audit

/-- The store after one delivery. -/
def Server.delivered (endpointID : String) (r : DeploymentResult) (now : Int) (s : Server) : Server :=
  storeMachine.run [(now, .lifecycle (.settleDeployment endpointID r))] s

section Deliveries

variable {endpointID : String} {r : DeploymentResult} {s s' : Server}

/-- A refused result stays refused. -/
theorem refused_between (hbetween : Relation.ReflTransGen (Between endpointID r) s s')
    (hsound : Sound s.clock s.used s.db)
    (hrefused : ∀ now db₁, settleDeployment endpointID r now s.db ≠ .ok db₁) :
    ∀ now db₁, settleDeployment endpointID r now s'.db ≠ .ok db₁ := by
  suffices Sound s'.clock s'.used s'.db ∧
      ∀ now db₁, settleDeployment endpointID r now s'.db ≠ .ok db₁ from this.2
  induction hbetween with
  | refl => exact ⟨hsound, hrefused⟩
  | tail _ hnext ih =>
    obtain ⟨hs, hr⟩ := ih
    obtain ⟨now, op, hop, hstep⟩ := hnext
    refine ⟨hs.store_step hstep, ?_⟩
    obtain ⟨-, -, db, hexec, rfl⟩ := serverMachine_ok hstep
    rcases hop with ⟨app, id, q, c, k, rfl⟩ | rfl
    · obtain ⟨a, i, rev, -, -, -, -, -, hopen⟩ := planDeployment_ok hs.ids hexec
      exact fun later db₁ => refused_of_opened hs.ids rfl hopen hr db₁
    · exact absurd hexec (hr now db)

theorem delivered_ok {now : Int} {db : Db} (hnow : s.clock < now)
    (h : settleDeployment endpointID r now s.db = .ok db) :
    s.delivered endpointID r now = ⟨db, now, s.used⟩ := by
  simp [Server.delivered, Machine.run, serverMachine, transactionMachine, hnow, StoreOp.exec,
    LifecycleOp.exec, StoreOp.fresh, LifecycleOp.fresh, h, Except.toOption]

theorem delivered_refused {now : Int} (h : ∀ db, settleDeployment endpointID r now s.db ≠ .ok db) :
    s.delivered endpointID r now = s := by
  unfold Server.delivered Machine.run
  cases hstep : storeMachine.step (now, .lifecycle (.settleDeployment endpointID r)) s with
  | error => simp [hstep, Except.toOption]
  | ok =>
    obtain ⟨-, -, db, hexec, -⟩ := serverMachine_ok hstep
    exact absurd hexec (h db)

/-- From any reachable state, every delivery of a result after the first is ignored, whatever is
planned in between, exactly if the first one was not the settling of an unknown outcome that can be
settled twice. -/
theorem settle_once (h : storeMachine.Steps Server.new s) (endpointID : String)
    (r : DeploymentResult) {now : Int} (hnow : s.clock < now) :
    (∀ s', Relation.ReflTransGen (Between endpointID r) (s.delivered endpointID r now) s' →
        Ignored endpointID r s') ↔
      ¬ (r.outcome = some .unknown ∧ ∃ d, s.db.settleable? endpointID r.deployment = some d ∧
        accepts r d s.db = true ∧ bindsTwice d (legacyResult r) s.db.resources = true) := by
  have hsound := store_sound h
  by_cases hfirst : ∃ db, settleDeployment endpointID r now s.db = .ok db
  · obtain ⟨db, hdb⟩ := hfirst
    obtain ⟨d, hd, haccepts⟩ := (settleDeployment_commits now s.db endpointID r).1 ⟨db, hdb⟩
    have hagain := settle_again hsound hnow.le hdb
    rw [delivered_ok hnow hdb]
    constructor
    · -- a second settling writes a second audit row
      rintro hall ⟨hunknown, x, hx, -, htwice⟩
      obtain ⟨db₂, h₂⟩ := (hagain (now + 1)).2 ⟨hunknown, x, hx, htwice⟩
      obtain ⟨-, -, -, haudit⟩ := hall _ .refl (now + 1) (lt_add_one now) db₂ h₂
      obtain ⟨_, _, _, -, -, -, -, -, -, htables⟩ := settleDeployment_ok h₂
      rw [htables.audit] at haudit
      simp at haudit
    · intro hno s' hs' later _ db₂ h₂
      refine absurd h₂ (refused_between hs' ?_ ?_ later db₂)
      · have hchange : Change now [] s.db db := .of_settle hdb
        exact hsound.change hnow (fun _ hid => absurd hid List.not_mem_nil) hchange
      · intro t db₁ h₁
        obtain ⟨hunknown, x, hx, htwice⟩ := (hagain t).1 ⟨db₁, h₁⟩
        obtain rfl : d = x := Option.some.inj (hd.symm.trans hx)
        exact hno ⟨hunknown, d, hd, haccepts, htwice⟩
  · -- refused once, refused at every instant
    have hrefused : ∀ t db₁, settleDeployment endpointID r t s.db ≠ .ok db₁ := by
      intro t db₁ h₁
      apply hfirst
      rw [settleDeployment_commits]
      exact (settleDeployment_commits t s.db endpointID r).1 ⟨db₁, h₁⟩
    rw [delivered_refused (hrefused now)]
    constructor
    · rintro - ⟨-, x, hx, haccepts, -⟩
      exact hfirst ((settleDeployment_commits now s.db endpointID r).2 ⟨x, hx, haccepts⟩)
    · intro _ s' hs' later _ db₂ h₂
      exact absurd h₂ (refused_between hs' hsound hrefused later db₂)

end Deliveries

/-! ## An agent that restarted -/

/-- The first apply of the adopted application is on its way. -/
def sentRun : List (Int × StoreOp) := (adoptedRun ++ appliedRun 1 4).map (Prod.map id .lifecycle)

/-- What an agent reports for an apply that its restart interrupted. -/
def restartedResult : DeploymentResult := .bare (rowID 1) "r" .unknown .restarted

/-- A succeeded result is settled once: with another plan made after it, the next delivery is
refused. -/
theorem settle_once_control :
    let s := storeMachine.run sentRun Server.new
    s.clock < 6 ∧
      ∀ s', Relation.ReflTransGen (Between "e" (sampleResult 1 2))
        (s.delivered "e" (sampleResult 1 2) 6) s' → Ignored "e" (sampleResult 1 2) s' := by
  intro s
  have hnow : s.clock < 6 := by decide +kernel
  refine ⟨hnow, (settle_once (Machine.steps_run sentRun Server.new) "e" _ hnow).2 ?_⟩
  rintro ⟨hunknown, -⟩
  exact absurd hunknown (by decide)

/-- The result of the interrupted apply is settled again when the agent reconnects: the row's
settling moves and the audit log grows. -/
theorem settle_twice :
    let s := storeMachine.run sentRun Server.new
    let s₁ := s.delivered "e" restartedResult 6
    let s₂ := s₁.delivered "e" restartedResult 7
    storeMachine.Steps Server.new s ∧ s.clock < 6 ∧
      s₁.db.deployments.map (fun d => (d.state, d.settledAt)) = [(.unknown, some 6)] ∧
      s₂.db.deployments.map (fun d => (d.state, d.settledAt)) = [(.unknown, some 7)] ∧
      s₁.db.audit.length = 1 ∧ s₂.db.audit.length = 2 ∧ ¬ Ignored "e" restartedResult s₁ := by
  intro s s₁ s₂
  have hok : (settleDeployment "e" restartedResult 7 s₁.db).isOk = true := by decide +kernel
  refine ⟨Machine.steps_run sentRun Server.new, by decide +kernel, by decide +kernel,
    by decide +kernel, by decide +kernel, by decide +kernel, ?_⟩
  intro hignored
  cases hdb : settleDeployment "e" restartedResult 7 s₁.db with
  | error =>
    rw [hdb] at hok
    cases hok
  | ok db' =>
    obtain ⟨-, -, -, haudit⟩ := hignored 7 (by decide +kernel) db' hdb
    obtain ⟨_, _, _, -, -, -, -, -, -, htables⟩ := settleDeployment_ok hdb
    rw [htables.audit] at haudit
    simp at haudit

end KyYard.Store
