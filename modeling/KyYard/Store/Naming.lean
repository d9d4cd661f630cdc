import KyYard.Store.Episodes

/-!
# The rollback a validation names

One transaction names a rollback (`markRollbackPlanned`). A task plans its rollback for the
application it validates, so a named rollback is a deployment of the validation's own application
(`Tied`), in every reachable state (`tied_of_steps`).
-/

namespace KyYard.Store

open Foundation Protocol

/-! ## Names of the same application -/

section Rows

variable {now clock : Int} {used : List String} {db db' : Db}

/-- A transaction of the store leaves the application of a row. -/
theorem rows_of_exec (hs : Sound clock used db) {op : StoreOp} (h : op.exec now db = .ok db')
    {d' : Deployment} (hd' : d' ∈ db'.deployments) :
    (∃ d ∈ db.deployments, d.Same d') ∨ d'.id ∈ op.fresh := by
  rcases episode_of_exec hs h with hquiet | ⟨d, res, -, hw⟩
  · rcases hquiet.rows d' hd' with ⟨d, hd, htr⟩ | ⟨hnew, -⟩
    · exact .inl ⟨d, hd, htr.same⟩
    · exact .inr hnew
  · rw [hw.tables.rows, List.mem_map] at hd'
    obtain ⟨e, he, rfl⟩ := hd'
    exact .inl ⟨e, he, afterSettle_same e⟩

/-- A plan is of the application it was asked for. -/
theorem application_of_plan (hs : Sound clock used db) {app id : String} {r : PlanRequest}
    {c : PlanContext} {correlation : RequestID}
    (h : planDeployment app id r c correlation now db = .ok db') {d : Deployment}
    (hd : d ∈ db'.deployments) (hid : d.id = id) : d.applicationID = app := by
  obtain ⟨a, i, rev, -, hi, -, -, -, p, -, hstays, rfl⟩ := planDeployment_ok hs.ids h
  rcases Table.mem_concat.1 hd with hd | hd
  · obtain ⟨hd, hp⟩ := List.mem_filter.1 hd
    exact absurd hid (hstays d hd (by simpa using hp)).1
  · rw [hd]
    have happ : i.applicationID = app := Table.key_of_find _ hi
    exact happ

end Rows

/-- A task works for the application of its validation, and so does the rollback it planned and the
one the validation names. -/
structure Automation.Tied (s : Automation) : Prop where
  named : ∀ v ∈ s.server.db.validations, ∀ r ∈ s.server.db.deployments,
    v.rollbackDeploymentID = some r.id → r.applicationID = v.applicationID
  task : ∀ t ∈ s.rollbacks, ∀ v ∈ s.server.db.validations, v.deploymentID = t.deployment →
    v.applicationID = t.app
  planned : ∀ t ∈ s.rollbacks, ∀ id, t.stage = .planned id → ∀ r ∈ s.server.db.deployments,
    r.id = id → r.applicationID = t.app

namespace Automation

variable {s s₁ s' : Automation} {now : Int}

theorem Tied.new : Automation.new.Tied := by
  refine ⟨?_, ?_, ?_⟩ <;> intro x hx <;> cases hx

/-- A step that leaves the rows, the names and what is planned alone. -/
theorem Tied.aside (h : s.Tied) (hrows : s'.server.db.deployments = s.server.db.deployments)
    (hnames : SameNames s.server.db s'.server.db) (htasks : Restages s s') : s'.Tied := by
  refine ⟨?_, ?_, ?_⟩
  · intro v' hv' r hr hname
    obtain ⟨v, hv, -, happ, hsame⟩ := hnames v' hv'
    exact (h.named v hv r (hrows ▸ hr) (hsame ▸ hname)).trans happ.symm
  · intro t' ht' v' hv' hid
    obtain ⟨t, ht, htapp, hdep, -⟩ := htasks t' ht'
    obtain ⟨v, hv, hvid, hvapp, -⟩ := hnames v' hv'
    have happ := h.task t ht v hv (hvid.symm.trans (hid.trans hdep))
    exact hvapp.trans (happ.trans htapp.symm)
  · intro t' ht' id hstage' r hr hid
    obtain ⟨t, ht, happ, -, hstage⟩ := htasks t' ht'
    exact (h.planned t ht id (hstage id hstage') r (hrows ▸ hr) hid).trans happ.symm

/-- A transaction of the store: what it opens names nothing and what it draws is named by none. -/
theorem Tied.exec (h : s.Tied) (hinv : s.Inv) {op : StoreOp}
    (hspares : op.sparesPolicies s.server.db = true) (hfresh : ∀ id ∈ op.fresh, id ∉ s.server.used)
    (hexec : op.exec now s.server.db = .ok s'.server.db) (hrolls : s'.rollbacks = s.rollbacks) :
    s'.Tied := by
  have hfollows := follows_of_exec hinv.sound.ids hinv.watched hspares hexec
  -- a deployment planned for a rollback is not drawn again
  have hrow : ∀ id ∈ s.ledger.rollbackPlans, ∀ r' ∈ s'.server.db.deployments, r'.id = id →
      ∃ r ∈ s.server.db.deployments, r.id = id ∧ r'.applicationID = r.applicationID := by
    intro id hid r' hr' hrid
    rcases rows_of_exec hinv.sound hexec hr' with ⟨r, hr, hsame⟩ | hnew
    · exact ⟨r, hr, hsame.1.symm.trans hrid, hsame.2.1⟩
    · exact absurd (hinv.drawn id (.inr hid)) (hfresh id (hrid ▸ hnew))
  refine ⟨?_, ?_, ?_⟩
  · intro v' hv' r' hr' hname
    rcases hfollows.back v' hv' with ⟨v, hv, hsame, -⟩ | ⟨d, -, -, rfl⟩
    · have hname : v.rollbackDeploymentID = some r'.id := by
        rw [hsame] at hname
        exact hname
      obtain ⟨r, hr, hrid, happ⟩ := hrow _ ((hinv.kept.recorded v hv).planned _ hname) r' hr' rfl
      rw [happ, hsame]
      exact h.named v hv r hr (hrid ▸ hname)
    · cases hname
  · intro t ht v' hv' hid
    rw [hrolls] at ht
    rcases hfollows.back v' hv' with ⟨v, hv, hsame, -⟩ | ⟨d, hd, hstate, rfl⟩
    · rw [hsame] at hid ⊢
      exact h.task t ht v hv hid
    · exact absurd ((hinv.rollbacks t ht).settled d hd hid) hstate
  · intro t ht id hstage r' hr' hid
    rw [hrolls] at ht
    have hfits := (hinv.rollbacks t ht).fits
    rw [hstage] at hfits
    obtain ⟨r, hr, hrid, happ⟩ := hrow id hfits r' hr' hid
    exact happ.trans (h.planned t ht id hstage r hr hrid)

/-- A task names the rollback it planned. -/
theorem Tied.name (h : s.Tied) {t : RollbackTask} (ht : t ∈ s.rollbacks) {id : String}
    (hstage : t.stage = .planned id) (hw : s.write now (markRollbackPlanned t.deployment id) = .ok s') :
    s'.Tied ∧ s'.rollbacks = s.rollbacks := by
  obtain ⟨-, db, hdb, rfl⟩ := write_ok hw
  simp only [markRollbackPlanned, guard_error_eq_ok, guard_else_error_eq_ok, Except.ok.injEq] at hdb
  obtain ⟨-, -, rfl⟩ := hdb
  refine ⟨⟨?_, ?_, h.planned⟩, rfl⟩
  · intro v' hv' r hr hname
    obtain ⟨v, hv, rfl⟩ := Table.mem_updateWhere.1 hv'
    split at hname
    · next hp =>
      simp only [Bool.and_eq_true, decide_eq_true_eq] at hp
      have hrid : r.id = id := (Option.some.inj hname).symm
      rw [if_pos (by simp [hp.1, hp.2]), h.planned t ht id hstage r hr hrid]
      exact (h.task t ht v hv hp.1).symm
    · next hp =>
      rw [if_neg hp]
      exact h.named v hv r hr hname
  · intro e he v' hv' hid
    obtain ⟨v, hv, rfl⟩ := Table.mem_updateWhere.1 hv'
    split at hid
    · next hp =>
      rw [if_pos hp]
      exact h.task e he v hv hid
    · next hp =>
      rw [if_neg hp]
      exact h.task e he v hv hid

/-- A task plans a rollback for its application. -/
theorem Tied.plan (h : s.Tied) (hinv : s.Inv) {t : RollbackTask} (ht : t ∈ s.rollbacks) {id : String}
    {r : PlanRequest} {c : PlanContext} {correlation : RequestID} {note : Ledger → Ledger}
    (hc : s.commit now (.lifecycle (.planDeployment t.app id r c correlation)) = .ok s₁) :
    ((s₁.notePlan note).replaceRollback t { t with stage := .planned id }).Tied := by
  obtain ⟨-, hfresh, db, hexec, hs₁⟩ := commit_ok hc
  have htied : s₁.Tied := by
    rw [hs₁]
    exact h.exec hinv rfl hfresh hexec rfl
  subst hs₁
  refine ⟨htied.named, ?_, ?_⟩
  · intro e he v hv hid
    rcases List.mem_cons.1 he with rfl | he
    · exact htied.task t ht v hv hid
    · exact htied.task e (List.mem_of_mem_erase he) v hv hid
  · intro e he x hstage row hrow hid
    rcases List.mem_cons.1 he with rfl | he
    · obtain rfl := RollbackStage.planned.inj hstage
      exact application_of_plan hinv.sound hexec hrow hid
    · exact htied.planned e (List.mem_of_mem_erase he) x hstage row hrow hid

/-- A tick picks a validation up for the application it is of. -/
theorem Tied.pending (h : s.Tied) (hkept : Kept s.ledger s.server.db) {deployment : String}
    {t : RollbackTask} (ht : pendingValidation deployment s.server.db = some t) :
    Tied { s with rollbacks := t :: s.rollbacks } := by
  unfold pendingValidation at ht
  split at ht
  · cases ht
  next v hv =>
  split at ht
  · obtain rfl := Option.some.inj ht
    refine ⟨h.named, ?_, ?_⟩
    · intro e he w hw hid
      rcases List.mem_cons.1 he with rfl | he
      · have hwv : w = v := List.inj_on_of_nodup_map hkept.validationIDs hw (Table.mem_of_find _ hv)
          (hid.trans (Table.key_of_find _ hv).symm)
        rw [hwv]
      · exact h.task e he w hw hid
    · intro e he id hstage r hr hid
      rcases List.mem_cons.1 he with rfl | he
      · cases hstage
      · exact h.planned e he id hstage r hr hid
  · cases ht

/-- The steps by which a task or a rollback comes in. -/
theorem Tied.ties (h : s.Tied) (hinv : s.Inv) {op : AutomationOp} (hties : op.ties = true)
    (hstep : automation.step (now, op) s = .ok s') : s'.Tied := by
  cases op with
  | readPending =>
    simp only [automation] at hstep
    split at hstep
    · cases hstep
    next t ht =>
    cases hstep
    exact h.pending hinv.kept ht
  | planRollback t id r c correlation =>
    have hrun : s.stepRollback now t (.planRollback t id r c correlation) = .ok s' := hstep
    unfold stepRollback at hrun
    rw [guard_error_eq_ok, not_not] at hrun
    obtain ⟨ht, hrun⟩ := hrun
    cases hstage : t.stage with
    | due =>
      simp only [hstage] at hrun
      obtain ⟨s₁, hc, rfl⟩ := map_eq_ok.1 hrun
      exact h.plan hinv ht hc
    | _ => simp [hstage] at hrun
  | nameRollback t =>
    have hrun : s.stepRollback now t (.nameRollback t) = .ok s' := hstep
    unfold stepRollback at hrun
    rw [guard_error_eq_ok, not_not] at hrun
    obtain ⟨ht, hrun⟩ := hrun
    cases hstage : t.stage with
    | planned =>
      simp only [hstage] at hrun
      obtain ⟨s₁, hw, rfl⟩ := map_eq_ok.1 hrun
      obtain ⟨htied, hrolls⟩ := h.name ht hstage hw
      exact htied.aside rfl (.of_eq rfl) (.replaceRollback (hrolls ▸ ht) (by simp))
    | _ => simp [hstage] at hrun
  | _ => cases hties

theorem step_tied (h : s.Tied) (hinv : s.Inv) {op : Int × AutomationOp}
    (hstep : automation.step op s = .ok s') : s'.Tied := by
  obtain ⟨now, op⟩ := op
  by_cases hties : op.ties = true
  · exact h.ties hinv hties hstep
  obtain ⟨htasks, hkind⟩ := step_kind hinv hstep
  have htasks : Restages s s' := htasks.resolve_left hties
  rcases hkind with ⟨o, hexec, hfresh, -, -, -, hspares, -⟩ | ⟨haside, hnames⟩
  · have htied : Automation.Tied { s' with rollbacks := s.rollbacks } :=
      h.exec hinv hspares hfresh hexec rfl
    exact htied.aside rfl (.of_eq rfl) htasks
  · exact h.aside haside.1.deployments (hnames.resolve_left hties) htasks

theorem tied_of_steps (h : automation.Steps .new s) : s.Tied := by
  have hboth := h.keeps (I := fun s => s.Inv ∧ s.Tied)
    (fun _ _ _ hs hstep => ⟨(step_advances hs.1 hstep).1, step_tied hs.2 hs.1 hstep⟩)
    ⟨inv_new, Tied.new⟩
  exact hboth.2

end Automation

end KyYard.Store
