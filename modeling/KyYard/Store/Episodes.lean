import KyYard.Store.Rollback

/-!
# The episodes of a history

For the history of an instance a transaction is one of two things: an apply succeeds, or none does
(`episode_of_exec`). Where none does, every row keeps its identity and its plan, a closed one stays
as it was, and every instance keeps the revisions it deployed. The scheduler's and the validation
loop's own transactions touch neither, and but for the three steps that bring a task or a rollback in
they leave the names of rollbacks alone (`step_kind`).
-/

namespace KyYard.Store

open Foundation Protocol

/-! ## Where nothing succeeds -/

/-- A row goes on without success: a closed one only loses its run. -/
structure Deployment.Traces (d d' : Deployment) : Prop where
  same : d.Same d'
  plan : d'.plan = d.plan
  closed : d.state.terminal = true → d' = { d with policyRunID := d'.policyRunID }
  live : d'.state.live = true → d.state.live = true ∧ d'.settledAt = d.settledAt
  succeeded : d'.kind = .apply → d'.state = .succeeded → d.state = .succeeded

/-- An instance keeps what it is and what it deployed. -/
structure Instance.SameHistory (i i' : Instance) : Prop where
  id : i'.id = i.id
  application : i'.applicationID = i.applicationID
  endpoint : i'.endpointID = i.endpointID
  revision : i'.revision = i.revision
  current : i'.currentRevision = i.currentRevision
  previous : i'.previousRevision = i.previousRevision

/-- No apply succeeds. -/
structure Quiet (fresh : List String) (db db' : Db) : Prop where
  rows : ∀ d' ∈ db'.deployments, (∃ d ∈ db.deployments, d.Traces d') ∨
    d'.id ∈ fresh ∧ d'.state.live = true ∧ d'.settledAt = none
  instances : ∀ i' ∈ db'.instances, (∃ i ∈ db.instances, i.SameHistory i') ∨
    i'.id ∈ fresh ∧ i'.currentRevision = 0 ∧ i'.previousRevision = 0

section Rows

variable {now clock : Int} {fresh used : List String} {db db' : Db}

theorem Deployment.Traces.refl (d : Deployment) : d.Traces d :=
  ⟨Deployment.Same.refl d, rfl, fun _ => rfl, fun h => ⟨h, rfl⟩, fun _ h => h⟩

theorem Deployment.Moves.traces {d d' : Deployment} (h : d.Moves db d') : d.Traces d' := by
  obtain ⟨hlive, -, -, hsucceeded, -, hopen⟩ := h.state
  refine ⟨h.same, ?_, fun ht => absurd ht (by simp [hopen]), fun hl => ⟨hlive hl, ?_⟩,
    fun _ hs => absurd hs hsucceeded⟩
  · cases h with
    | start _ _ _ _ _ _ row => rw [row]; rfl
    | close _ _ _ _ _ row => rw [row]
  · cases h with
    | start _ _ _ _ _ _ row => rw [row]; rfl
    | close _ _ _ _ outcome row =>
      rw [row] at hl
      rcases outcome with rfl | rfl <;> cases hl

/-- A row that gets its outcome, a success excepted, and those that expire with it. -/
theorem afterSettle_traces {d : Deployment} {res : DeploymentResult} {o : Outcome}
    {st : DeploymentState} (hst : outcomeState? o = some st) (hopen : db.settleable d = true)
    (hself : ∀ e ∈ db.deployments, e.id = d.id → e = d) {e : Deployment} (he : e ∈ db.deployments)
    (hquiet : d.kind = .apply → st ≠ .succeeded) : e.Traces (d.afterSettle res st now e) := by
  rcases afterSettle_cases res now hst e with ⟨hid, heq⟩ | ⟨-, heq | ⟨hplanned, heq⟩⟩
  · have hne := outcomeState?_ne hst
    obtain rfl := hself e he hid
    rw [heq]
    refine ⟨⟨rfl, rfl, rfl, rfl, rfl, rfl, rfl⟩, rfl, fun ht => ?_, fun hl => ?_,
      fun hk hs => absurd hs (hquiet hk)⟩
    · rcases state_of_settleable hopen with hc | hc <;> simp [hc, DeploymentState.terminal] at ht
    · cases st <;> simp_all [Deployment.settled, DeploymentState.live]
  · rw [heq]
    exact .refl e
  · rw [heq]
    exact ⟨⟨rfl, rfl, rfl, rfl, rfl, rfl, rfl⟩, rfl, fun ht => absurd ht
      (by simp [hplanned, DeploymentState.terminal]), fun hl => ⟨hl, rfl⟩, fun _ hs => hs⟩

/-! Rows and instances that are left alone, changed in place or shortened. -/

theorem Instance.SameHistory.refl (i : Instance) : i.SameHistory i := ⟨rfl, rfl, rfl, rfl, rfl, rfl⟩

theorem Quiet.of_sub (rows : ∀ d' ∈ db'.deployments, ∃ d ∈ db.deployments, d.Traces d')
    (instances : ∀ i' ∈ db'.instances, ∃ i ∈ db.instances, i.SameHistory i') : Quiet fresh db db' :=
  ⟨fun d' hd' => .inl (rows d' hd'), fun i' hi' => .inl (instances i' hi')⟩

theorem Quiet.of_tables (rows : db'.deployments = db.deployments)
    (instances : db'.instances = db.instances) : Quiet fresh db db' :=
  .of_sub (fun d hd => ⟨d, rows ▸ hd, .refl d⟩) fun i hi => ⟨i, instances ▸ hi, .refl i⟩

theorem Quiet.of_append {i : Instance} (hid : i.id ∈ fresh) (hcurrent : i.currentRevision = 0)
    (hprevious : i.previousRevision = 0) (rows : db'.deployments = db.deployments)
    (instances : db'.instances = db.instances ++ [i]) : Quiet fresh db db' := by
  refine ⟨fun d hd => .inl ⟨d, rows ▸ hd, .refl d⟩, ?_⟩
  intro i' hi'
  rw [instances] at hi'
  rcases Table.mem_concat.1 hi' with hi' | hi'
  · exact .inl ⟨i', hi', .refl i'⟩
  · rw [hi']
    exact .inr ⟨hid, hcurrent, hprevious⟩

theorem Quiet.of_instances {p : Instance → Bool} {f : Instance → Instance}
    (hf : ∀ i : Instance, i.SameHistory (f i)) (rows : db'.deployments = db.deployments)
    (instances : db'.instances = Table.updateWhere p f db.instances) : Quiet fresh db db' := by
  refine .of_sub (fun d hd => ⟨d, rows ▸ hd, .refl d⟩) ?_
  intro i' hi'
  rw [instances] at hi'
  obtain ⟨i, hi, rfl⟩ := Table.mem_updateWhere.1 hi'
  refine ⟨i, hi, ?_⟩
  split
  · exact hf i
  · exact .refl i

theorem Quiet.of_moved {p : Deployment → Bool} {f : Deployment → Deployment}
    (moves : ∀ d ∈ db.deployments, p d = true → d.Moves db (f d))
    (rows : db'.deployments = Table.updateWhere p f db.deployments)
    (instances : db'.instances = db.instances) : Quiet fresh db db' := by
  refine .of_sub ?_ fun i hi => ⟨i, instances ▸ hi, .refl i⟩
  intro d' hd'
  rw [rows] at hd'
  obtain ⟨d, hd, rfl⟩ := Table.mem_updateWhere.1 hd'
  refine ⟨d, hd, ?_⟩
  split
  · next hp => exact (moves d hd hp).traces
  · exact .refl d

theorem Quiet.of_opened {d : Deployment} (h : db.Opened d db') (hid : d.id ∈ fresh)
    (hlive : d.state.live = true) (hsettled : d.settledAt = none) : Quiet fresh db db' := by
  obtain ⟨p, -, -, rfl⟩ := h
  refine ⟨?_, fun i hi => .inl ⟨i, hi, .refl i⟩⟩
  intro d' hd'
  rcases Table.mem_concat.1 hd' with hd' | hd'
  · exact .inl ⟨d', List.mem_of_mem_filter hd', .refl d'⟩
  · rw [hd']
    exact .inr ⟨hid, hlive, hsettled⟩

theorem Quiet.of_settled (hs : Sound clock used db) {d : Deployment} {res : DeploymentResult}
    {o : Outcome} {st : DeploymentState} (hd : d ∈ db.deployments) (hst : outcomeState? o = some st)
    (hopen : db.settleable d = true) (h : Settled d res o st now db db')
    (hquiet : d.kind = .apply → st ≠ .succeeded) : Quiet fresh db db' := by
  apply Quiet.of_sub
  · intro d' hd'
    rw [h.rows] at hd'
    obtain ⟨e, he, rfl⟩ := List.mem_map.1 hd'
    have hself : ∀ e ∈ db.deployments, e.id = d.id → e = d := fun e he hid =>
      List.inj_on_of_nodup_map hs.ids he hd hid
    exact ⟨e, he, afterSettle_traces hst hopen hself he hquiet⟩
  · intro i' hi'
    rw [h.instances] at hi'
    split at hi'
    · next hsucc =>
      cases hk : d.kind with
      | apply => exact absurd hsucc (hquiet hk)
      | remove =>
        simp only [hk] at hi'
        exact ⟨i', List.mem_of_mem_filter hi', .refl i'⟩
    · exact ⟨i', hi', .refl i'⟩

end Rows

/-! ## Episodes -/

/-- An apply succeeds. -/
structure Succeeds (now : Int) (d : Deployment) (res : DeploymentResult) (db db' : Db) : Prop where
  mem : d ∈ db.deployments
  kind : d.kind = .apply
  settleable : db.settleable d = true
  outcome : res.outcome = some .succeeded
  tables : Settled d res .succeeded .succeeded now db db'

section Episodes

variable {now clock : Int} {used : List String} {db db' : Db}

theorem quiet_of_refuse (hn : (db.deployments.map Deployment.id).Nodup) {endpointID id detail : String}
    {fresh : List String} (h : refuseDeploymentResult endpointID id detail now db = .ok db') :
    Quiet fresh db db' := by
  obtain ⟨d, hd, -, hsettle, rfl | rfl⟩ := refuseDeploymentResult_ok h
  · exact .of_tables rfl rfl
  refine .of_moved ?_ rfl rfl
  intro e he hp
  have hed : e = d := List.inj_on_of_nodup_map hn he (Table.mem_of_find _ hd)
    ((of_decide_eq_true hp).trans (Table.key_of_find _ hd).symm)
  subst hed
  exact .close .unknown _ e.settledAt (state_of_settleable hsettle) (.inl rfl) rfl

theorem episode_of_settle (hs : Sound clock used db) {endpointID : String} {r : DeploymentResult}
    {fresh : List String} (h : settleDeployment endpointID r now db = .ok db') :
    Quiet fresh db db' ∨ ∃ d, d.id = r.deployment ∧ Succeeds now d (legacyResult r) db db' := by
  obtain ⟨d, o, st, ho, hst, -, hd, -, hsettle, htables⟩ := settleDeployment_ok h
  have hmem := Table.mem_of_find _ hd
  by_cases hwin : d.kind = .apply ∧ st = .succeeded
  · obtain ⟨hk, rfl⟩ := hwin
    have hoo : o = .succeeded := by
      cases o <;> cases hst
      rfl
    subst hoo
    exact .inr ⟨d, Table.key_of_find _ hd, hmem, hk, hsettle, (legacyResult_outcome r).trans ho, htables⟩
  · exact .inl (.of_settled hs hmem hst hsettle htables fun hk hc => hwin ⟨hk, hc⟩)

theorem episode_of_lifecycle (hs : Sound clock used db) {op : LifecycleOp}
    (h : op.exec now db = .ok db') : Quiet op.fresh db db' ∨
      ∃ endpointID r d, op = .settleDeployment endpointID r ∧ d.id = r.deployment ∧
        Succeeds now d (legacyResult r) db db' := by
  cases op with
  | settleDeployment endpointID r =>
    rcases episode_of_settle hs h with hquiet | ⟨d, hid, hwins⟩
    · exact .inl hquiet
    · exact .inr ⟨endpointID, r, d, rfl, hid, hwins⟩
  | createApplication =>
    obtain rfl := createApplication_ok h
    exact .inl (.of_tables rfl rfl)
  | appendApplicationRevision =>
    obtain ⟨spec', rfl⟩ := appendApplicationRevision_ok h
    exact .inl (.of_tables rfl rfl)
  | adoptApplication =>
    obtain ⟨i, rs, hnew, -, -, -, rfl⟩ := adoptApplication_ok h
    exact .inl (.of_append (List.mem_singleton.2 hnew.1) hnew.2.2.1 hnew.2.2.2 rfl rfl)
  | mapKubernetes =>
    rcases mapKubernetes_ok h with ⟨i, hnew, -, -, rfl⟩ | ⟨a, i, -, -, -, -, -, rfl⟩
    · exact .inl (.of_append (List.mem_singleton.2 hnew.1) hnew.2.2.1 hnew.2.2.2 rfl rfl)
    · refine .inl (.of_instances ?_ rfl rfl)
      exact fun _ => ⟨rfl, rfl, rfl, rfl, rfl, rfl⟩
  | setApplicationMapping =>
    obtain ⟨a, i, -, -, -, -, -, rfl⟩ := setApplicationMapping_ok h
    refine .inl (.of_instances ?_ rfl rfl)
    exact fun _ => ⟨rfl, rfl, rfl, rfl, rfl, rfl⟩
  | releaseApplication =>
    obtain ⟨-, -, rfl⟩ := releaseApplication_ok h
    exact .inl (.of_sub (fun d hd => ⟨d, List.mem_of_mem_filter hd, .refl d⟩)
      fun i hi => ⟨i, List.mem_of_mem_filter hi, .refl i⟩)
  | planDeployment =>
    obtain ⟨a, i, rev, -, -, -, -, -, hopen⟩ := planDeployment_ok hs.ids h
    exact .inl (.of_opened hopen (List.mem_singleton.2 rfl) rfl rfl)
  | applyDeployment =>
    obtain ⟨p, f, hmoves, hrows, hinstances⟩ := moves_of_apply hs.ids h
    exact .inl (.of_moved hmoves hrows hinstances)
  | failDeployment =>
    obtain rfl := Except.ok.inj h
    refine .inl (.of_moved ?_ rfl rfl)
    intro d _ hp
    simp only [Bool.and_eq_true, Bool.or_eq_true, decide_eq_true_eq] at hp
    exact .close .failed _ _ hp.2 (.inr rfl) rfl
  | abandonDeployments =>
    obtain rfl := Except.ok.inj h
    refine .inl (.of_moved ?_ rfl rfl)
    intro d _ hp
    simp only [Bool.and_eq_true, decide_eq_true_eq] at hp
    exact .close .unknown _ d.settledAt (.inl hp.2) (.inl rfl) rfl
  | sweepDeployments =>
    obtain rfl := Except.ok.inj h
    refine .inl (.of_moved ?_ rfl rfl)
    intro d _ hp
    simp only [Bool.and_eq_true, decide_eq_true_eq] at hp
    exact .close .unknown _ d.settledAt (.inl hp.1) (.inl rfl) rfl
  | refuseDeploymentResult => exact .inl (quiet_of_refuse hs.ids h)
  | removeApplication =>
    obtain ⟨a, i, plan, -, -, -, -, -, -, hopen⟩ := removeApplication_ok h
    exact .inl (.of_opened hopen (List.mem_singleton.2 rfl) rfl rfl)
  | other =>
    obtain rfl := Except.ok.inj h
    exact .inl (.of_tables rfl rfl)

theorem Quiet.deletePolicies (p : UpdatePolicy → Bool) : Quiet [] db (db.deletePolicies p) := by
  refine .of_sub ?_ fun i hi => ⟨i, hi, .refl i⟩
  intro d' hd'
  obtain ⟨d, hd, rfl⟩ := List.mem_map.1 hd'
  exact ⟨d, hd, ⟨rfl, rfl, rfl, rfl, rfl, rfl, rfl⟩, rfl, fun _ => rfl, fun h => ⟨h, rfl⟩,
    fun _ h => h⟩

theorem Quiet.deleteDeployments (p : Deployment → Bool) : Quiet [] db (db.deleteDeployments p) :=
  .of_sub (fun d hd => ⟨d, List.mem_of_mem_filter hd, .refl d⟩) fun i hi => ⟨i, hi, .refl i⟩

theorem Deployment.Traces.trans {d d₁ d' : Deployment} (h : d.Traces d₁) (h' : d₁.Traces d') :
    d.Traces d' := by
  refine ⟨h.same.trans h'.same, h'.plan.trans h.plan, fun ht => ?_, fun hl => ?_,
    fun hk hs => h.succeeded (h'.same.2.2.2.2.1 ▸ hk) (h'.succeeded hk hs)⟩
  · have hstate : d₁.state = d.state := by rw [h.closed ht]
    rw [h'.closed (hstate ▸ ht), h.closed ht]
  · obtain ⟨hl₁, hset₁⟩ := h'.live hl
    obtain ⟨hl₀, hset₀⟩ := h.live hl₁
    exact ⟨hl₀, hset₁.trans hset₀⟩

theorem Instance.SameHistory.trans {i i₁ i' : Instance} (h : i.SameHistory i₁)
    (h' : i₁.SameHistory i') : i.SameHistory i' :=
  ⟨h'.id.trans h.id, h'.application.trans h.application, h'.endpoint.trans h.endpoint,
    h'.revision.trans h.revision, h'.current.trans h.current, h'.previous.trans h.previous⟩

/-- Nothing is drawn and nothing succeeds, twice. -/
theorem Quiet.trans {db₁ : Db} (h : Quiet [] db db₁) (h' : Quiet [] db₁ db') : Quiet [] db db' := by
  refine .of_sub ?_ ?_
  · intro d' hd'
    rcases h'.rows d' hd' with ⟨d₁, hd₁, htr'⟩ | ⟨hnew, -⟩
    · rcases h.rows d₁ hd₁ with ⟨d, hd, htr⟩ | ⟨hnew, -⟩
      · exact ⟨d, hd, htr.trans htr'⟩
      · cases hnew
    · cases hnew
  · intro i' hi'
    rcases h'.instances i' hi' with ⟨i₁, hi₁, hsame'⟩ | ⟨hnew, -⟩
    · rcases h.instances i₁ hi₁ with ⟨i, hi, hsame⟩ | ⟨hnew, -⟩
      · exact ⟨i, hi, hsame.trans hsame'⟩
      · cases hnew
    · cases hnew

theorem Quiet.deleteApplication (id : String) : Quiet [] db (db.deleteApplication id) :=
  ((Quiet.deletePolicies _).trans (Quiet.deleteDeployments _)).trans (.of_tables rfl rfl)

theorem Quiet.deleteApplications (ids : List String) :
    Quiet [] db (ids.foldl (fun db id => db.deleteApplication id) db) := by
  induction ids generalizing db with
  | nil => exact .of_tables rfl rfl
  | cons id ids ih => exact (Quiet.deleteApplication id).trans ih

/-- A transaction of the store settles a result by which an apply succeeds. -/
def StoreOp.Wins (now : Int) (d : Deployment) (res : DeploymentResult) (db db' : Db) (op : StoreOp) :
    Prop :=
  (∃ endpointID r, op = .lifecycle (.settleDeployment endpointID r) ∧ d.id = r.deployment ∧
    res = legacyResult r) ∧ Succeeds now d res db db'

/-- Either no apply succeeds or one does. -/
theorem episode_of_exec (hs : Sound clock used db) {op : StoreOp} (h : op.exec now db = .ok db') :
    Quiet op.fresh db db' ∨ ∃ d res, op.Wins now d res db db' := by
  cases op with
  | lifecycle =>
    rcases episode_of_lifecycle hs h with hquiet | ⟨endpointID, r, d, rfl, hid, hwins⟩
    · exact .inl hquiet
    · exact .inr ⟨d, _, ⟨endpointID, r, rfl, hid, rfl⟩, hwins⟩
  | _ =>
    left
    exact StoreOp.deletes h nofun (.of_tables rfl rfl) (fun _ p hq => hq.trans (.deletePolicies p))
      (fun _ p hq => hq.trans (.deleteDeployments p)) fun _ id hq => hq.trans (.deleteApplication id)

end Episodes

/-! ## Names that stay -/

/-- The same deployment, application and rollback. -/
def Validation.SameName (v v' : Validation) : Prop :=
  v'.deploymentID = v.deploymentID ∧ v'.applicationID = v.applicationID ∧
    v'.rollbackDeploymentID = v.rollbackDeploymentID

/-- No validation is new and none names another rollback. -/
def SameNames (db db' : Db) : Prop :=
  ∀ v' ∈ db'.validations, ∃ v ∈ db.validations, v.SameName v'

section Names

variable {now : Int} {db db₁ db' : Db}

theorem SameNames.of_eq (h : db'.validations = db.validations) : SameNames db db' := by
  rw [SameNames, h]
  exact fun v hv => ⟨v, hv, rfl, rfl, rfl⟩

theorem SameNames.trans (h : SameNames db db₁) (h' : SameNames db₁ db') : SameNames db db' := by
  intro v' hv'
  obtain ⟨v₁, hv₁, hid', happ', hname'⟩ := h' v' hv'
  obtain ⟨v, hv, hid, happ, hname⟩ := h v₁ hv₁
  exact ⟨v, hv, hid'.trans hid, happ'.trans happ, hname'.trans hname⟩

theorem SameNames.foldlM {α : Type} {step : Db → α → Except StoreError Db}
    (hstep : ∀ db a db', step db a = .ok db' → SameNames db db') {l : List α}
    (h : l.foldlM step db = .ok db') : SameNames db db' :=
  foldlM_keeps (fun b a b' hb hs => hb.trans (hstep b a b' hs)) (.of_eq rfl) h

theorem validations_putUpdatePolicy {zones : String → Option Zone} {app actor id : String}
    {input : PolicyInput} (h : putUpdatePolicy zones app actor id input now db = .ok db') :
    db'.validations = db.validations := by
  unfold putUpdatePolicy at h
  split at h
  · cases h
  rw [guard_error_eq_ok] at h
  obtain ⟨-, h⟩ := h
  split at h
  · rw [guard_error_eq_ok] at h
    obtain ⟨-, h⟩ := h
    cases h
    rfl
  · cases h
    rfl

theorem SameNames.of_finishPolicyRun {run : String} {outcome : RunOutcome}
    {deployment : Option String} {detail : String}
    (h : finishPolicyRun run outcome deployment detail now db = .ok db') : SameNames db db' := by
  unfold finishPolicyRun at h
  split at h
  · cases h
  simp only at h
  split at h
  · cases h
  next db₁ pause hcount =>
  have hvals : db₁.validations = db.validations := by
    unfold countRun at hcount
    cases outcome <;> simp only at hcount
    case blocked | failed =>
      split at hcount
      · cases hcount
      cases hcount
      rfl
    all_goals
      cases hcount
      rfl
  split at h
  · cases h
    exact .of_eq hvals
  · cases h
    refine .of_eq (Eq.trans ?_ hvals)
    unfold pausePolicy
    split <;> rfl

theorem SameNames.of_attach {run id : String}
    (h : attachPolicyRunDeployment run id db = .ok db') : SameNames db db' := by
  obtain ⟨-, rfl⟩ := ok_of_guard h
  exact .of_eq rfl

/-- Validations that change, but for what they are of and the rollback they name. -/
theorem SameNames.of_update {p : Validation → Bool} {f : Validation → Validation}
    (hf : ∀ v : Validation, v.SameName (f v)) :
    SameNames db { db with validations := Table.updateWhere p f db.validations } := by
  intro v' hv'
  obtain ⟨v, hv, rfl⟩ := Table.mem_updateWhere.1 hv'
  refine ⟨v, hv, ?_⟩
  split
  · exact hf v
  · exact ⟨rfl, rfl, rfl⟩

theorem SameNames.of_beginObservation {deployment baseline : String}
    (h : beginObservation deployment baseline db = .ok db') : SameNames db db' := by
  simp only [beginObservation, guard_error_eq_ok, guard_else_error_eq_ok, Except.ok.injEq] at h
  obtain ⟨-, -, rfl⟩ := h
  exact .of_update fun _ => ⟨rfl, rfl, rfl⟩

theorem SameNames.of_finishValidation {deployment : String} {verdict : Verdict} {detail : String}
    {due : Bool} (h : finishValidation deployment verdict detail now db = .ok (db', due)) :
    SameNames db db' := by
  unfold finishValidation at h
  split at h
  · cases h
  have hfinish : SameNames db { db with
      validations := Table.updateWhere (fun w => w.deploymentID = deployment && w.phase ≠ .done)
        (·.finished verdict (cleanText detail 255) now) db.validations } :=
    .of_update fun _ => ⟨rfl, rfl, rfl⟩
  refine hfinish.trans (.of_eq ?_)
  split at h
  · cases h
    rfl
  split at h
  · cases h
    rfl
  · split at h
    · cases h
      exact validations_pauseForValidation ..
    · cases h
      rfl

theorem SameNames.of_markRollbackOutcome {deployment : String} {outcome : RollbackOutcome}
    {detail : String} (h : markRollbackOutcome deployment outcome detail now db = .ok db') :
    SameNames db db' := by
  unfold markRollbackOutcome at h
  split at h
  · cases h
  simp only [guard_error_eq_ok] at h
  obtain ⟨-, -, h⟩ := h
  have hmark : SameNames db { db with
      validations := Table.updateWhere (Validation.takesOutcome deployment)
        (·.rolledBack outcome (cleanText detail 255)) db.validations } :=
    .of_update fun _ => ⟨rfl, rfl, rfl⟩
  refine hmark.trans (.of_eq ?_)
  split at h
  · cases h
    rfl
  · cases h
    exact validations_pauseForValidation ..

theorem SameNames.of_decideNamedRollbacks (h : decideNamedRollbacks now db = .ok db') :
    SameNames db db' := by
  unfold decideNamedRollbacks at h
  split at h
  · cases h
  next db₁ hfirst =>
  exact (SameNames.foldlM (fun _ _ _ => .of_markRollbackOutcome) hfirst).trans
    (.foldlM (fun _ _ _ => .of_markRollbackOutcome) h)

theorem SameNames.of_reconcileAfterStart (h : reconcileAfterStart now db = .ok db') :
    SameNames db db' := by
  unfold reconcileAfterStart at h
  split at h
  · cases h
  next db₁ hruns =>
  refine (SameNames.foldlM (fun _ _ _ => .of_finishPolicyRun) hruns).trans ?_
  unfold reconcileValidations at h
  split at h
  · cases h
  next db₂ hmissed =>
  refine (SameNames.foldlM ?_ hmissed).trans (.of_decideNamedRollbacks h)
  intro db id db' hfinish
  obtain ⟨⟨db₃, due⟩, hfinish', rfl⟩ := map_eq_ok.1 hfinish
  exact .of_finishValidation hfinish'

end Names

/-! ## The server's own transactions -/

/-- The scheduler and the validation loop write none of the tables a history is made of, and change
validations in place. -/
structure Aside (ledger : Ledger) (db db' : Db) : Prop where
  deployments : db'.deployments = db.deployments
  instances : db'.instances = db.instances
  resources : db'.resources = db.resources
  revisions : db'.revisions = db.revisions
  applications : db'.applications = db.applications
  validations : ∀ v' ∈ db'.validations, ∃ v ∈ db.validations,
    v.Later v' ∧ v.SameHome v' ∧ v.Recorded ledger ∧ v'.Recorded ledger

/-- The transactions tasks run: none of them settles or prunes. -/
def StoreOp.byTask : StoreOp → Bool
  | .lifecycle (.planDeployment ..) => true
  | .lifecycle (.applyDeployment ..) => true
  | .lifecycle (.failDeployment ..) => true
  | .deletePolicies _ => true
  | _ => false

section Aside

variable {ledger : Ledger} {db db₁ db' : Db}

theorem Tends.aside (h : Tends ledger db db') (hdb : Kept ledger db) : Aside ledger db db' := by
  obtain ⟨f, g, k, h, -⟩ := h
  have hrest := h.rest
  simp only [Db.rest, Db.mk.injEq] at hrest
  obtain ⟨happlications, hrevisions, hinstances, hresources, hdeployments, -⟩ := hrest
  refine ⟨hdeployments, hinstances, hresources, hrevisions, happlications, ?_⟩
  intro v' hv'
  rw [h.validations] at hv'
  obtain ⟨v, hv, rfl⟩ := List.mem_map.1 hv'
  obtain ⟨hlater, hhome, hrec⟩ := h.validation v hv
  exact ⟨v, hv, hlater, hhome, hdb.recorded v hv, hrec⟩

/-- Only policies and runs change. -/
theorem Aside.of_policies (hdb : Kept ledger db) (policies : List UpdatePolicy)
    (runs : List PolicyRun) : Aside ledger db { db with policies := policies, runs := runs } :=
  ⟨rfl, rfl, rfl, rfl, rfl, fun v hv =>
    ⟨v, hv, .refl v, .refl v, hdb.recorded v hv, hdb.recorded v hv⟩⟩

end Aside

/-- The steps by which a validation gets a task, or a task a rollback. -/
def AutomationOp.ties : AutomationOp → Bool
  | .readPending _ | .planRollback .. | .nameRollback _ => true
  | _ => false

namespace Automation

variable {s s' : Automation} {now : Int}

/-- A step of the machine is a transaction of the store or one of the server's own. -/
def Stores (op : Int × AutomationOp) (s s' : Automation) : Prop :=
  ∃ o, o.exec op.1 s.server.db = .ok s'.server.db ∧ (∀ id ∈ o.fresh, id ∉ s.server.used) ∧
    s.server.clock < op.1 ∧ s'.server.clock = op.1 ∧ s'.server.used = o.fresh ++ s.server.used ∧
    o.sparesPolicies s.server.db = true ∧ (op.2 = .store o ∨ o.byTask = true)

def Asides (s s' : Automation) : Prop :=
  Aside s.ledger s.server.db s'.server.db ∧ s.server.clock ≤ s'.server.clock ∧
    s'.server.used = s.server.used

/-- Every task is one there was, at another stage that plans nothing new. -/
def Restages (s s' : Automation) : Prop :=
  ∀ t' ∈ s'.rollbacks, ∃ t ∈ s.rollbacks, t'.app = t.app ∧ t'.deployment = t.deployment ∧
    ∀ id, t'.stage = .planned id → t.stage = .planned id

theorem Restages.of_eq (h : s'.rollbacks = s.rollbacks) : Restages s s' := by
  rw [Restages, h]
  exact fun t ht => ⟨t, ht, rfl, rfl, fun _ hid => hid⟩

theorem Restages.dropRollback (t : RollbackTask) : Restages s (s.dropRollback t) :=
  fun e he => ⟨e, List.mem_of_mem_erase he, rfl, rfl, fun _ hid => hid⟩

theorem Restages.replaceRollback {t : RollbackTask} (ht : t ∈ s.rollbacks) {stage : RollbackStage}
    (hstage : ∀ id, stage ≠ .planned id) :
    Restages s (s.replaceRollback t { t with stage := stage }) := by
  intro e he
  rcases List.mem_cons.1 he with rfl | he
  · exact ⟨t, ht, rfl, rfl, fun id hid => absurd hid (hstage id)⟩
  · exact ⟨e, List.mem_of_mem_erase he, rfl, rfl, fun _ hid => hid⟩

/-- A step writes as the store does or beside it. Unless it ties, it leaves the names of rollbacks and
what is planned for them alone. -/
def Kind (op : Int × AutomationOp) (s s' : Automation) : Prop :=
  (op.2.ties = true ∨ Restages s s') ∧
    (Stores op s s' ∨
      Asides s s' ∧ (op.2.ties = true ∨ SameNames s.server.db s'.server.db))

section Kinds

variable {op : Int × AutomationOp} {s₁ : Automation}

theorem kind_of_commit {o : StoreOp} (hspares : o.sparesPolicies s.server.db = true)
    (hby : op.2 = .store o ∨ o.byTask = true) (hc : s.commit op.1 o = .ok s₁)
    (htasks : s₁.rollbacks = s.rollbacks → op.2.ties = true ∨ Restages s₁ s')
    (hserver : s'.server = s₁.server) : Kind op s s' := by
  obtain ⟨hclock, hfresh, db, hexec, rfl⟩ := commit_ok hc
  refine ⟨htasks rfl, .inl ⟨o, ?_, hfresh, hclock, ?_, ?_, hspares, hby⟩⟩
  · rw [hserver]
    exact hexec
  · rw [hserver]
  · rw [hserver]

theorem kind_of_write {tx : Db → Except StoreError Db}
    (htx : ∀ db', tx s.server.db = .ok db' → Aside s.ledger s.server.db db' ∧
      (op.2.ties = true ∨ SameNames s.server.db db')) (hw : s.write op.1 tx = .ok s₁)
    (htasks : s₁.rollbacks = s.rollbacks → op.2.ties = true ∨ Restages s₁ s')
    (hserver : s'.server = s₁.server) : Kind op s s' := by
  obtain ⟨hclock, db, hdb, rfl⟩ := write_ok hw
  obtain ⟨haside, hnames⟩ := htx db hdb
  refine ⟨htasks rfl, .inr ⟨⟨?_, ?_, ?_⟩, ?_⟩⟩
  · rw [hserver]
    exact haside
  · rw [hserver]
    exact hclock.le
  · rw [hserver]
  · rw [hserver]
    exact hnames

theorem kind_of_task (h : s.Inv) (htasks : op.2.ties = true ∨ Restages s s')
    (hserver : s'.server = s.server) : Kind op s s' := by
  refine ⟨htasks, .inr ⟨?_, .inr (.of_eq (by rw [hserver]))⟩⟩
  unfold Asides
  rw [hserver]
  exact ⟨(Tends.refl h.kept).aside h.kept, le_rfl, rfl⟩

end Kinds

theorem stepRun_kind (h : s.Inv) (now : Int) (t : RunTask) (op : AutomationOp)
    (hstep : s.stepRun now t op = .ok s') : Kind (now, op) s s' := by
  obtain ⟨-, hstep⟩ := guard_error_eq_ok.1 hstep
  split at hstep
  · obtain ⟨s₁, hc, rfl⟩ := map_eq_ok.1 hstep
    exact kind_of_commit rfl (.inr rfl) hc (fun _ => .inr (.of_eq rfl)) rfl
  · split at hstep
    · cases hstep
    exact kind_of_commit rfl (.inr rfl) (guard_error_eq_ok.1 hstep).2
      (fun _ => .inr (.of_eq rfl)) rfl
  · split at hstep
    · cases hstep
    refine kind_of_write (fun db' hdb' => ?_) hstep (fun _ => .inr (.of_eq rfl)) rfl
    exact ⟨(Tends.of_attach h.kept hdb').aside h.kept, .inr (.of_attach hdb')⟩
  · obtain ⟨s₁, hw, rfl⟩ := map_eq_ok.1 hstep
    refine kind_of_write (fun db' hdb' => ?_) hw (fun _ => .inr (.of_eq rfl)) rfl
    exact ⟨(Tends.of_finishPolicyRun h.kept hdb').aside h.kept, .inr (.of_finishPolicyRun hdb')⟩
  · cases hstep
    exact kind_of_task h (.inr (.of_eq rfl)) rfl

theorem stepRollback_kind (h : s.Inv) (now : Int) (t : RollbackTask) (op : AutomationOp)
    (hstep : s.stepRollback now t op = .ok s') : Kind (now, op) s s' := by
  unfold stepRollback at hstep
  rw [guard_error_eq_ok, not_not] at hstep
  obtain ⟨ht, hstep⟩ := hstep
  split at hstep
  · -- beginObservation
    refine kind_of_write (fun db' hdb' => ?_) hstep (fun _ => .inr (.of_eq rfl)) rfl
    exact ⟨(Tends.of_beginObservation h.kept hdb').aside h.kept, .inr (.of_beginObservation hdb')⟩
  · -- finishValidation
    split at hstep
    · cases hstep
    next db due hfinish =>
    obtain ⟨s₁, hw, rfl⟩ := map_eq_ok.1 hstep
    refine kind_of_write (fun db' hdb' => ?_) hw (fun hrolls => .inr ?_) ?_
    · obtain rfl := Except.ok.inj hdb'
      exact ⟨(Tends.of_finishValidation h.kept hfinish).aside h.kept,
        .inr (.of_finishValidation hfinish)⟩
    · split
      · exact .replaceRollback (hrolls ▸ ht) nofun
      · exact .dropRollback t
    · split <;> rfl
  · -- rollBack
    cases hstep
    exact kind_of_task h (.inr (.replaceRollback ht nofun)) rfl
  · -- planRollback
    obtain ⟨s₁, hc, rfl⟩ := map_eq_ok.1 hstep
    exact kind_of_commit rfl (.inr rfl) hc (fun _ => .inl rfl) rfl
  · -- nameRollback
    next id hstage =>
    obtain ⟨s₁, hw, rfl⟩ := map_eq_ok.1 hstep
    refine kind_of_write (fun db' hdb' => ?_) hw (fun _ => .inl rfl) rfl
    have hfits := (h.rollbacks t ht).fits
    rw [hstage] at hfits
    exact ⟨(Tends.of_markRollbackPlanned h.kept hfits hdb').aside h.kept, .inl rfl⟩
  · -- applyRollback
    obtain ⟨s₁, hc, rfl⟩ := map_eq_ok.1 hstep
    exact kind_of_commit rfl (.inr rfl) hc
      (fun hrolls => .inr (.replaceRollback (hrolls ▸ ht) nofun)) rfl
  · -- deliverRollback
    cases hstep
    exact kind_of_task h (.inr (.replaceRollback ht nofun)) rfl
  · -- deliverRollback, not delivered
    obtain ⟨s₁, hc, rfl⟩ := map_eq_ok.1 hstep
    exact kind_of_commit rfl (.inr rfl) hc
      (fun hrolls => .inr (.replaceRollback (hrolls ▸ ht) nofun)) rfl
  · -- giveUpRollback
    obtain ⟨-, hstep⟩ := guard_error_eq_ok.1 hstep
    cases hstep
    exact kind_of_task h (.inr (.replaceRollback ht nofun)) rfl
  · -- finishRollback
    next outcome detail hstage =>
    obtain ⟨s₁, hw, rfl⟩ := map_eq_ok.1 hstep
    refine kind_of_write (fun db' hdb' => ?_) hw (fun _ => .inr (.dropRollback t)) rfl
    exact ⟨(Tends.of_markRollbackOutcome h.kept (h.sent_of_decided ht hstage) hdb').aside h.kept,
      .inr (.of_markRollbackOutcome hdb')⟩
  · -- dropRollback
    cases hstep
    exact kind_of_task h (.inr (.dropRollback t)) rfl
  · cases hstep

/-- Every step is one or the other. -/
theorem step_kind (h : s.Inv) {op : Int × AutomationOp}
    (hstep : automation.step op s = .ok s') : Kind op s s' := by
  obtain ⟨now, op⟩ := op
  by_cases htask : op.ofTask = true
  · rcases step_of_task htask hstep with ⟨t, hrun⟩ | ⟨t, hrollback⟩
    · exact stepRun_kind h now t op hrun
    · exact stepRollback_kind h now t op hrollback
  cases op with
  | store =>
    obtain ⟨hbyUser, hc⟩ := guard_error_eq_ok.1 hstep
    have hspares := (Bool.and_eq_true_iff.1 (Bool.not_eq_false _ ▸ hbyUser)).1
    exact kind_of_commit hspares (.inl rfl) hc (fun _ => .inr (.of_eq rfl)) rfl
  | putUpdatePolicy =>
    refine kind_of_write (fun db' hdb' => ?_) hstep (fun _ => .inr (.of_eq rfl)) rfl
    refine ⟨?_, .inr (.of_eq (validations_putUpdatePolicy hdb'))⟩
    rcases putUpdatePolicy_ok h.kept hdb' with htends | ⟨p, -, -, -, rfl⟩
    · exact htends.aside h.kept
    · exact .of_policies h.kept _ _
  | deleteUpdatePolicy =>
    obtain ⟨hclock, db, hdb, rfl⟩ := write_ok hstep
    unfold deleteUpdatePolicy at hdb
    split at hdb
    · cases hdb
    exact ⟨.inr (.of_eq rfl), .inl ⟨.deletePolicies _, hdb, fun _ hid => (by cases hid), hclock,
      rfl, rfl, rfl, .inr rfl⟩⟩
  | resumeUpdatePolicy =>
    refine kind_of_write (fun db' hdb' => ?_) hstep (fun _ => .inr (.of_eq rfl)) rfl
    obtain ⟨p, -, -, rfl⟩ := resumeUpdatePolicy_ok hdb'
    exact ⟨.of_policies h.kept _ _, .inr (.of_eq rfl)⟩
  | skipPolicyWindow =>
    refine kind_of_write (fun db' hdb' => ?_) hstep (fun _ => .inr (.of_eq rfl)) rfl
    simp only [skipPolicyWindow, guard_error_eq_ok] at hdb'
    obtain ⟨-, hdb'⟩ := hdb'
    split at hdb'
    · cases hdb'
    next db₁ hinsert =>
    obtain ⟨p, r, hp, -, hpolicy, happ, -, hfree, rfl⟩ := insertPolicyRun_ok hinsert
    have hkept := h.kept.open hp hpolicy happ hfree
    have haside := (Tends.of_finishPolicyRun hkept hdb').aside hkept
    have hnames : SameNames _ db' := .of_finishPolicyRun hdb'
    exact ⟨⟨haside.deployments, haside.instances, haside.resources, haside.revisions,
      haside.applications, haside.validations⟩, .inr hnames⟩
  | beginPolicyRun =>
    obtain ⟨s₁, hw, rfl⟩ := map_eq_ok.1 hstep
    refine kind_of_write (fun db' hdb' => ?_) hw (fun _ => .inr (.of_eq rfl)) rfl
    obtain ⟨p, r, -, -, -, -, -, -, rfl⟩ := insertPolicyRun_ok hdb'
    exact ⟨.of_policies h.kept _ _, .inr (.of_eq rfl)⟩
  | readPending =>
    simp only [automation] at hstep
    split at hstep
    · cases hstep
    cases hstep
    exact kind_of_task h (.inl rfl) rfl
  | decideNamedRollbacks =>
    refine kind_of_write (fun db' hdb' => ?_) hstep (fun _ => .inr (.of_eq rfl)) rfl
    exact ⟨(Tends.of_decideNamedRollbacks h.kept hdb').aside h.kept,
      .inr (.of_decideNamedRollbacks hdb')⟩
  | restart =>
    obtain ⟨s₁, hw, rfl⟩ := map_eq_ok.1 hstep
    refine kind_of_write (fun db' hdb' => ?_) hw (fun _ => .inr fun t ht => (by cases ht)) rfl
    exact ⟨(Tends.of_reconcileAfterStart h.kept hdb').aside h.kept,
      .inr (.of_reconcileAfterStart hdb')⟩
  | _ => exact absurd rfl htask

theorem store_or_aside (h : s.Inv) {op : Int × AutomationOp}
    (hstep : automation.step op s = .ok s') : Stores op s s' ∨ Asides s s' :=
  (step_kind h hstep).2.imp_right And.left

end Automation

end KyYard.Store
