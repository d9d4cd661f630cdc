import KyYard.Store.Validations

/-!
# What the scheduler and the validation loop keep

Every transaction of the scheduler and the validation loop changes the rows of policies, runs and
validations in place. `Upkeep` says how: a finished run stays as it is, a paused policy stays paused,
a verdict, a named rollback and an outcome stay once they are set, each run that finishes and each
policy that pauses has one audit row, and a recorded outcome leaves its policy paused. `Tends` adds
that a policy's failures in a row are counted from the outcomes of its runs. Both compose
(`Upkeep.trans`, `Tends.trans`), so they hold of the reconciliations, which fold such transactions,
and they keep the invariant of the tables (`Upkeep.kept`).
-/

namespace KyYard.Store

open Foundation Protocol

/-! ## The audit log -/

/-- The resources of the rows for finished runs. -/
def Db.runRows (db : Db) : List String :=
  (db.audit.filter (·.action = .policyRun)).map AuditRecord.resource

/-- The resources of the rows for paused policies. -/
def Db.pauseRows (db : Db) : List String :=
  (db.audit.filter (·.action = .policyPaused)).map AuditRecord.resource

/-- The resource of a run's audit row. -/
def PolicyRun.row (r : PolicyRun) : String := cleanText r.resource 255

/-- The resource of a policy's audit row. -/
def UpdatePolicy.row (p : UpdatePolicy) : String :=
  cleanText (policyResource p.applicationID p.id) 255

/-! ## How rows change -/

/-- What a server remembers of the deployments it made: those that left `planned`, and the plans that
policy runs and rollbacks made. -/
structure Ledger where
  sent : List String
  runPlans : List String
  rollbackPlans : List String

/-- A run keeps its window, and its outcome once it has one. -/
def PolicyRun.Later (r r' : PolicyRun) : Prop :=
  r'.id = r.id ∧ r'.policyID = r.policyID ∧ r'.applicationID = r.applicationID ∧
    r'.occurrence = r.occurrence ∧ (r.outcome ≠ none → r' = r)

/-- A policy keeps its application, and a paused one stays so. -/
def UpdatePolicy.Later (p p' : UpdatePolicy) : Prop :=
  p'.id = p.id ∧ p'.applicationID = p.applicationID ∧ (p.status = .paused → p'.status = .paused)

/-- A validation keeps what it was opened for, and its verdict, its rollback and the rollback's
outcome once they are set. -/
def Validation.Later (v v' : Validation) : Prop :=
  v'.deploymentID = v.deploymentID ∧ v'.automated = v.automated ∧ v'.isRollback = v.isRollback ∧
    (∀ x, v.verdict = some x → v'.verdict = some x) ∧
    (∀ x, v.rollbackDeploymentID = some x → v'.rollbackDeploymentID = some x) ∧
    (∀ x, v.rollbackOutcome = some x → v'.rollbackOutcome = some x)

/-- A validation stays that of its run, its instance and its application. -/
def Validation.SameHome (v v' : Validation) : Prop :=
  v'.policyRunID = v.policyRunID ∧ v'.instanceID = v.instanceID ∧ v'.applicationID = v.applicationID

/-- An active policy is below the limit. -/
def UpdatePolicy.Within (p : UpdatePolicy) : Prop :=
  p.status = .active → p.consecutiveFailures < policyFailureLimit

/-- The automated update that failed, and is no rollback itself. -/
def Validation.Failing (v : Validation) : Prop :=
  v.phase = .done ∧ v.automated = true ∧ v.isRollback = false ∧
    v.verdict.any Verdict.rollback = true

/-- A verdict and nothing else ends a validation, only a failing one has a rollback, a rollback is
one of the plans made as such, `applied` stands for a deployment that was sent, and an automated
validation is of a run's plan. -/
structure Validation.Recorded (ledger : Ledger) (v : Validation) : Prop where
  verdict : v.verdict ≠ none → v.phase = .done
  named : v.rollbackDeploymentID ≠ none → v.Failing
  planned : ∀ id, v.rollbackDeploymentID = some id → id ∈ ledger.rollbackPlans
  outcome : v.rollbackOutcome ≠ none → v.Failing
  applied : v.rollbackOutcome = some .applied →
    ∃ id ∈ ledger.sent, v.rollbackDeploymentID = some id
  automated : v.automated = true → v.deploymentID ∈ ledger.runPlans
  done : v.phase = .done → v.verdict ≠ none

/-- The policy a validation acts for is paused, if there still is one. -/
def Db.PausedFor (db : Db) (v : Validation) : Prop :=
  ∀ run, v.policyRunID = some run → ∀ r ∈ db.runs, r.id = run → ∀ p ∈ db.policies,
    p.id = r.policyID → p.status = .paused

/-- What holds of the tables of policies, runs and validations. -/
structure Kept (ledger : Ledger) (db : Db) : Prop where
  policyIDs : (db.policies.map UpdatePolicy.id).Nodup
  within : ∀ p ∈ db.policies, p.Within
  runIDs : (db.runs.map PolicyRun.id).Nodup
  windows : (db.runs.map fun r => (r.policyID, r.occurrence)).Nodup
  owner : ∀ r ∈ db.runs, ∀ p ∈ db.policies, p.id = r.policyID →
    p.applicationID = r.applicationID
  home : ∀ r ∈ db.runs, ∃ p ∈ db.policies, p.id = r.policyID
  validationIDs : (db.validations.map Validation.deploymentID).Nodup
  recorded : ∀ v ∈ db.validations, v.Recorded ledger
  sent : ∀ d ∈ db.deployments, d.state ≠ .planned → d.id ∈ ledger.sent
  applied : ∀ d ∈ db.deployments, d.policyRunID ≠ none → d.id ∈ ledger.runPlans

/-! ## The relation -/

/-- The tables these transactions leave alone. -/
def Db.rest (db : Db) : Db :=
  { db with policies := [], runs := [], validations := [], audit := [] }

/-- Rows change in place, `f`, `g` and `k` being the changes of runs, policies and validations. -/
structure Upkeep (ledger : Ledger) (f : PolicyRun → PolicyRun) (g : UpdatePolicy → UpdatePolicy)
    (k : Validation → Validation) (db db' : Db) : Prop where
  runs : db'.runs = db.runs.map f
  policies : db'.policies = db.policies.map g
  validations : db'.validations = db.validations.map k
  rest : db'.rest = db.rest
  run : ∀ r : PolicyRun, r.Later (f r)
  policy : ∀ p : UpdatePolicy, p.Later (g p)
  within : ∀ p ∈ db.policies, (g p).Within
  validation : ∀ v ∈ db.validations,
    v.Later (k v) ∧ v.SameHome (k v) ∧ (k v).Recorded ledger
  runRows : db'.runRows.Perm (db.runRows ++
    (db.runs.filter fun r => r.outcome.isNone && (f r).outcome.isSome).map PolicyRun.row)
  pauseRows : db'.pauseRows.Perm (db.pauseRows ++
    (db.policies.filter fun p => p.status = .active && (g p).status = .paused).map UpdatePolicy.row)
  paused : ∀ v ∈ db.validations, v.rollbackOutcome = none → (k v).rollbackOutcome ≠ none →
    db'.PausedFor (k v)

/-! ## Failures in a row -/

/-- What the outcome of a run makes of its policy's failures in a row. -/
def RunOutcome.counts : RunOutcome → Nat → Nat
  | blocked, n | failed, n => n + 1
  | applied, _ | planned, _ | noUpdate, _ => 0
  | paused, n | skippedMissed, n | skippedBusy, n => n

/-- What a run makes of them; an open one has not counted yet. -/
def PolicyRun.counts (r : PolicyRun) (n : Nat) : Nat := r.outcome.elim n (·.counts n)

/-- Counting some runs, in the order they finished, takes the failures in a row from `n` to `m`. -/
def CountsTo (n : Nat) (runs : List PolicyRun) (m : Nat) : Prop :=
  ∃ order : List PolicyRun, order.Perm runs ∧ order.foldl (fun n r => r.counts n) n = m

/-- The runs of a policy that a change finishes, as they are then. -/
def finishing (f : PolicyRun → PolicyRun) (db : Db) (policy : String) : List PolicyRun :=
  ((db.runs.filter fun r => r.outcome.isNone && (f r).outcome.isSome).filter
    (·.policyID = policy)).map f

/-- Every policy's failures in a row are counted from the runs that finish. -/
def Tallied (f : PolicyRun → PolicyRun) (g : UpdatePolicy → UpdatePolicy) (db : Db) : Prop :=
  ∀ p ∈ db.policies,
    CountsTo p.consecutiveFailures (finishing f db p.id) (g p).consecutiveFailures

/-- Rows change in place, somehow, and failures are counted. -/
def Tends (ledger : Ledger) (db db' : Db) : Prop :=
  ∃ f g k, Upkeep ledger f g k db db' ∧ Tallied f g db

section Composition

variable {ledger : Ledger} {f f' : PolicyRun → PolicyRun} {g g' : UpdatePolicy → UpdatePolicy}
  {k k' : Validation → Validation} {db db₁ db' : Db}

theorem PolicyRun.Later.refl (r : PolicyRun) : r.Later r := ⟨rfl, rfl, rfl, rfl, fun _ => rfl⟩

theorem UpdatePolicy.Later.refl (p : UpdatePolicy) : p.Later p := ⟨rfl, rfl, fun h => h⟩

theorem Validation.Later.refl (v : Validation) : v.Later v :=
  ⟨rfl, rfl, rfl, fun _ h => h, fun _ h => h, fun _ h => h⟩

theorem Validation.Later.trans {v₁ v₂ v₃ : Validation} (h : v₁.Later v₂) (h' : v₂.Later v₃) :
    v₁.Later v₃ :=
  ⟨h'.1.trans h.1, h'.2.1.trans h.2.1, h'.2.2.1.trans h.2.2.1,
    fun x hx => h'.2.2.2.1 x (h.2.2.2.1 x hx), fun x hx => h'.2.2.2.2.1 x (h.2.2.2.2.1 x hx),
    fun x hx => h'.2.2.2.2.2 x (h.2.2.2.2.2 x hx)⟩

theorem Validation.SameHome.refl (v : Validation) : v.SameHome v := ⟨rfl, rfl, rfl⟩

theorem Validation.SameHome.trans {v₁ v₂ v₃ : Validation} (h : v₁.SameHome v₂) (h' : v₂.SameHome v₃) :
    v₁.SameHome v₃ :=
  ⟨h'.1.trans h.1, h'.2.1.trans h.2.1, h'.2.2.trans h.2.2⟩

theorem PolicyRun.Later.row {r r' : PolicyRun} (h : r.Later r') : r'.row = r.row := by
  obtain ⟨hid, hpolicy, happ, -⟩ := h
  simp [PolicyRun.row, PolicyRun.resource, hid, hpolicy, happ]

theorem UpdatePolicy.Later.row {p p' : UpdatePolicy} (h : p.Later p') : p'.row = p.row := by
  simp [UpdatePolicy.row, h.1, h.2.1]

theorem Db.PausedFor.later {v v' : Validation} (h : db₁.PausedFor v)
    (hrun : v'.policyRunID = v.policyRunID) (hruns : db'.runs = db₁.runs.map f)
    (hpolicies : db'.policies = db₁.policies.map g) (hf : ∀ r : PolicyRun, r.Later (f r))
    (hg : ∀ p : UpdatePolicy, p.Later (g p)) : db'.PausedFor v' := by
  intro run hv r' hr' hid p' hp' hpid
  rw [hruns] at hr'
  rw [hpolicies] at hp'
  obtain ⟨r, hr, rfl⟩ := List.mem_map.1 hr'
  obtain ⟨p, hp, rfl⟩ := List.mem_map.1 hp'
  apply (hg p).2.2
  apply h run (hrun ▸ hv) r hr ((hf r).1.symm.trans hid) p hp
  rw [← (hg p).1, hpid, (hf r).2.1]

theorem Upkeep.trans (h : Upkeep ledger f g k db db₁) (h' : Upkeep ledger f' g' k' db₁ db') :
    Upkeep ledger (f' ∘ f) (g' ∘ g) (k' ∘ k) db db' := by
  have hmem : ∀ v ∈ db.validations, k v ∈ db₁.validations := by
    intro v hv
    rw [h.validations]
    exact List.mem_map_of_mem hv
  refine ⟨?_, ?_, ?_, h'.rest.trans h.rest, ?_, ?_, ?_, ?_, ?_, ?_, ?_⟩
  · rw [h'.runs, h.runs, List.map_map]
  · rw [h'.policies, h.policies, List.map_map]
  · rw [h'.validations, h.validations, List.map_map]
  · intro r
    obtain ⟨h₁, h₂, h₃, h₄, h₅⟩ := h.run r
    obtain ⟨h₁', h₂', h₃', h₄', h₅'⟩ := h'.run (f r)
    refine ⟨h₁'.trans h₁, h₂'.trans h₂, h₃'.trans h₃, h₄'.trans h₄, ?_⟩
    intro hr
    have hfr := h₅ hr
    exact (h₅' (by rw [hfr]; exact hr)).trans hfr
  · intro p
    obtain ⟨h₁, h₂, h₃⟩ := h.policy p
    obtain ⟨h₁', h₂', h₃'⟩ := h'.policy (g p)
    exact ⟨h₁'.trans h₁, h₂'.trans h₂, fun hp => h₃' (h₃ hp)⟩
  · intro p hp
    apply h'.within
    rw [h.policies]
    exact List.mem_map_of_mem hp
  · intro v hv
    obtain ⟨hl, hr, -⟩ := h.validation v hv
    obtain ⟨hl', hr', hrec⟩ := h'.validation (k v) (hmem v hv)
    exact ⟨hl.trans hl', hr.trans hr', hrec⟩
  · -- a run finishes in the first part or in the second, never in both
    have h'rows := h'.runRows
    rw [h.runs] at h'rows
    refine Table.rows_perm_trans (fun r => (h.run r).row) ?_ ?_ h.runRows h'rows
    · intro r _ hr
      simp only [Bool.and_eq_true, Function.comp_apply] at hr ⊢
      rw [(h'.run (f r)).2.2.2.2 (Option.isSome_iff_ne_none.1 hr.2)]
      exact hr
    · intro r _
      cases hr : r.outcome with
      | none => cases (f r).outcome <;> simp
      | some =>
        have hfr : f r = r := (h.run r).2.2.2.2 (by simp [hr])
        simp [hfr, hr]
  · have h'rows := h'.pauseRows
    rw [h.policies] at h'rows
    refine Table.rows_perm_trans (fun p => (h.policy p).row) ?_ ?_ h.pauseRows h'rows
    · intro p _ hp
      simp only [Bool.and_eq_true, decide_eq_true_eq] at hp ⊢
      exact ⟨hp.1, (h'.policy (g p)).2.2 hp.2⟩
    · intro p _
      cases hp : p.status with
      | active => cases (g p).status <;> simp
      | paused => simp [(h.policy p).2.2 hp]
  · intro v hv hnone hsome
    by_cases hk : (k v).rollbackOutcome = none
    · exact h'.paused (k v) (hmem v hv) hk hsome
    · exact (h.paused v hv hnone hk).later (h'.validation (k v) (hmem v hv)).2.1.1 h'.runs h'.policies
        h'.run h'.policy

theorem CountsTo.refl (n : Nat) : CountsTo n [] n := ⟨[], .refl [], rfl⟩

theorem CountsTo.trans {n m l : Nat} {xs ys : List PolicyRun} (h : CountsTo n xs m)
    (h' : CountsTo m ys l) : CountsTo n (xs ++ ys) l := by
  obtain ⟨order, hperm, rfl⟩ := h
  obtain ⟨order', hperm', rfl⟩ := h'
  exact ⟨order ++ order', hperm.append hperm', List.foldl_append⟩

theorem CountsTo.perm {n m : Nat} {xs ys : List PolicyRun} (h : CountsTo n xs m) (hperm : xs.Perm ys) :
    CountsTo n ys m := by
  obtain ⟨order, hxs, hm⟩ := h
  exact ⟨order, hxs.trans hperm, hm⟩

/-- A run of a policy finishes in the first of two changes or in the second. -/
theorem Upkeep.finishing_trans (h : Upkeep ledger f g k db db₁)
    (h' : Upkeep ledger f' g' k' db₁ db') (policy : String) :
    (finishing f db policy ++ finishing f' db₁ policy).Perm (finishing (f' ∘ f) db policy) := by
  have hfirst : finishing f db policy = (db.runs.filter fun r =>
      r.policyID = policy && (r.outcome.isNone && (f r).outcome.isSome)).map (f' ∘ f) := by
    rw [finishing, List.filter_filter]
    apply List.map_congr_left
    intro r hr
    obtain ⟨-, hp⟩ := List.mem_filter.1 hr
    simp only [Bool.and_eq_true] at hp
    exact ((h'.run (f r)).2.2.2.2 (Option.isSome_iff_ne_none.1 hp.2.2)).symm
  have hsecond : finishing f' db₁ policy = (db.runs.filter fun r =>
      !(r.policyID = policy && (r.outcome.isNone && (f r).outcome.isSome)) &&
        (r.policyID = policy && (r.outcome.isNone && ((f' ∘ f) r).outcome.isSome))).map
          (f' ∘ f) := by
    rw [finishing, h.runs, List.filter_filter, List.filter_map, List.map_map]
    congr 1
    apply List.filter_congr
    intro r _
    obtain ⟨-, hpolicy, -, -, hdone⟩ := h.run r
    cases hr : r.outcome with
    | none =>
      by_cases hp : r.policyID = policy
      · cases hfr : (f r).outcome <;> simp [hpolicy, hfr, hp]
      · simp [hpolicy, hp]
    | some => simp [hdone (by simp [hr]), hr]
  rw [hfirst, hsecond, ← List.map_append, finishing, List.filter_filter]
  refine ((Table.filter_perm_split ?_).map _).symm
  intro r _ hr
  simp only [Bool.and_eq_true, Function.comp_apply] at hr ⊢
  rw [(h'.run (f r)).2.2.2.2 (Option.isSome_iff_ne_none.1 hr.2.2)]
  exact hr

theorem Tends.trans (h : Tends ledger db db₁) (h' : Tends ledger db₁ db') : Tends ledger db db' := by
  obtain ⟨f, g, k, h, ht⟩ := h
  obtain ⟨f', g', k', h', ht'⟩ := h'
  refine ⟨_, _, _, h.trans h', fun p hp => ?_⟩
  have hsecond := ht' (g p) (by
    rw [h.policies]
    exact List.mem_map_of_mem hp)
  rw [(h.policy p).1] at hsecond
  exact ((ht p hp).trans hsecond).perm (h.finishing_trans h' p.id)

theorem Upkeep.deployments (h : Upkeep ledger f g k db db') : db'.deployments = db.deployments := by
  have hrest := congrArg Db.deployments h.rest
  exact hrest

/-- The invariant is kept. -/
theorem Upkeep.kept (h : Upkeep ledger f g k db db') (hdb : Kept ledger db) : Kept ledger db' := by
  refine ⟨?_, ?_, ?_, ?_, ?_, ?_, ?_, ?_, h.deployments ▸ hdb.sent, h.deployments ▸ hdb.applied⟩
  · rw [h.policies, Table.map_col fun p _ => (h.policy p).1]
    exact hdb.policyIDs
  · intro p' hp'
    rw [h.policies] at hp'
    obtain ⟨p, hp, rfl⟩ := List.mem_map.1 hp'
    exact h.within p hp
  · rw [h.runs, Table.map_col fun r _ => (h.run r).1]
    exact hdb.runIDs
  · rw [h.runs, Table.map_col fun r _ => Prod.ext (h.run r).2.1 (h.run r).2.2.2.1]
    exact hdb.windows
  · intro r' hr' p' hp' hid
    rw [h.runs] at hr'
    rw [h.policies] at hp'
    obtain ⟨r, hr, rfl⟩ := List.mem_map.1 hr'
    obtain ⟨p, hp, rfl⟩ := List.mem_map.1 hp'
    obtain ⟨-, hpolicy, happ, -⟩ := h.run r
    rw [(h.policy p).2.1, happ]
    apply hdb.owner r hr p hp
    rw [← (h.policy p).1, hid, hpolicy]
  · intro r' hr'
    rw [h.runs] at hr'
    obtain ⟨r, hr, rfl⟩ := List.mem_map.1 hr'
    obtain ⟨p, hp, hid⟩ := hdb.home r hr
    refine ⟨g p, ?_, ?_⟩
    · rw [h.policies]
      exact List.mem_map_of_mem hp
    · rw [(h.policy p).1, hid, (h.run r).2.1]
  · rw [h.validations, Table.map_col fun v hv => (h.validation v hv).1.1]
    exact hdb.validationIDs
  · intro v' hv'
    rw [h.validations] at hv'
    obtain ⟨v, hv, rfl⟩ := List.mem_map.1 hv'
    exact (h.validation v hv).2.2

theorem Tends.kept (h : Tends ledger db db') (hdb : Kept ledger db) : Kept ledger db' := by
  obtain ⟨f, g, k, h, -⟩ := h
  exact h.kept hdb

end Composition

/-! ## Transactions that finish and pause nothing -/

section Quiet

variable {ledger : Ledger} {f : PolicyRun → PolicyRun} {g : UpdatePolicy → UpdatePolicy}
  {k : Validation → Validation} {db db' : Db}

theorem filter_unfinished {l : List PolicyRun} (h : ∀ r ∈ l, (f r).outcome = r.outcome) :
    (l.filter fun r => r.outcome.isNone && (f r).outcome.isSome) = [] := by
  rw [List.filter_eq_nil_iff]
  intro r hr
  rw [h r hr]
  cases r.outcome <;> simp

/-- No run finishes and no count changes. -/
theorem Upkeep.tends (h : Upkeep ledger f g k db db')
    (hf : ∀ r ∈ db.runs, (f r).outcome = r.outcome)
    (hg : ∀ p ∈ db.policies, (g p).consecutiveFailures = p.consecutiveFailures) :
    Tends ledger db db' := by
  refine ⟨f, g, k, h, fun p hp => ?_⟩
  rw [finishing, filter_unfinished hf, hg p hp]
  exact CountsTo.refl _

theorem filter_unpaused {l : List UpdatePolicy} (h : ∀ p ∈ l, (g p).status = p.status) :
    (l.filter fun p => p.status = .active && (g p).status = .paused) = [] := by
  rw [List.filter_eq_nil_iff]
  intro p hp
  rw [h p hp]
  cases p.status <;> simp

/-- No run finishes, no policy changes its status and no outcome is recorded. -/
theorem Upkeep.quiet (hruns : db'.runs = db.runs.map f) (hpolicies : db'.policies = db.policies.map g)
    (hvalidations : db'.validations = db.validations.map k) (hrest : db'.rest = db.rest)
    (hrows : db'.runRows = db.runRows ∧ db'.pauseRows = db.pauseRows)
    (hf : ∀ r : PolicyRun, r.Later (f r) ∧ (f r).outcome = r.outcome)
    (hg : ∀ p : UpdatePolicy, p.Later (g p)) (hstatus : ∀ p ∈ db.policies, (g p).status = p.status)
    (hwithin : ∀ p ∈ db.policies, (g p).Within)
    (hk : ∀ v ∈ db.validations, v.Later (k v) ∧ v.SameHome (k v) ∧
      (k v).Recorded ledger ∧ (k v).rollbackOutcome = v.rollbackOutcome) :
    Upkeep ledger f g k db db' := by
  refine ⟨hruns, hpolicies, hvalidations, hrest, fun r => (hf r).1, hg, hwithin,
    fun v hv => ⟨(hk v hv).1, (hk v hv).2.1, (hk v hv).2.2.1⟩, ?_, ?_, ?_⟩
  · rw [filter_unfinished fun r _ => (hf r).2, hrows.1, List.map_nil, List.append_nil]
  · rw [filter_unpaused hstatus, hrows.2, List.map_nil, List.append_nil]
  · intro v hv hnone hsome
    exact absurd ((hk v hv).2.2.2.trans hnone) hsome

theorem Upkeep.refl (hdb : Kept ledger db) : Upkeep ledger id id id db db := by
  refine .quiet (List.map_id _).symm (List.map_id _).symm (List.map_id _).symm rfl ⟨rfl, rfl⟩
    (fun r => ⟨.refl r, rfl⟩) .refl (fun _ _ => rfl) hdb.within ?_
  exact fun v hv => ⟨.refl v, .refl v, hdb.recorded v hv, rfl⟩

theorem Tends.refl (hdb : Kept ledger db) : Tends ledger db db :=
  (Upkeep.refl hdb).tends (fun _ _ => rfl) fun _ _ => rfl

/-- A change of validations that records no outcome. -/
theorem Upkeep.of_validations (hdb : Kept ledger db)
    (hk : ∀ v ∈ db.validations, v.Later (k v) ∧ v.SameHome (k v) ∧
      (k v).Recorded ledger ∧ (k v).rollbackOutcome = v.rollbackOutcome) :
    Upkeep ledger id id k db { db with validations := db.validations.map k } :=
  .quiet (List.map_id _).symm (List.map_id _).symm rfl rfl ⟨rfl, rfl⟩ (fun r => ⟨.refl r, rfl⟩)
    .refl (fun _ _ => rfl) hdb.within hk

/-- A change of policies that keeps their status. -/
theorem Upkeep.of_policies (hdb : Kept ledger db)
    (hg : ∀ p : UpdatePolicy, p.Later (g p) ∧ (g p).status = p.status)
    (hwithin : ∀ p ∈ db.policies, (g p).Within) :
    Upkeep ledger id g id db { db with policies := db.policies.map g } :=
  .quiet (List.map_id _).symm rfl (List.map_id _).symm rfl ⟨rfl, rfl⟩ (fun r => ⟨.refl r, rfl⟩)
    (fun p => (hg p).1) (fun p _ => (hg p).2) hwithin (fun v hv => ⟨.refl v, .refl v, hdb.recorded v hv, rfl⟩)

/-- A row of the audit log about neither a run nor a pause. -/
theorem Upkeep.of_audit (hdb : Kept ledger db) (action : AuditAction)
    (haction : action ≠ .policyRun ∧ action ≠ .policyPaused) (resource details : String)
    (result : AuditResult) (correlation : String) (now : Int) :
    Upkeep ledger id id id db
      (auditPolicy resource action details result correlation now db) := by
  refine .quiet (List.map_id _).symm (List.map_id _).symm (List.map_id _).symm rfl ⟨?_, ?_⟩
    (fun r => ⟨.refl r, rfl⟩) .refl (fun _ _ => rfl) hdb.within
    (fun v hv => ⟨.refl v, .refl v, hdb.recorded v hv, rfl⟩)
  · simp [Db.runRows, auditPolicy, haction.1]
  · simp [Db.pauseRows, auditPolicy, haction.2]

/-! ## Pauses -/

/-- Changes of validations before: their outcomes may be recorded, if the policy is paused in the
end. -/
theorem Upkeep.after_validations
    (h : Upkeep ledger f g id { db with validations := db.validations.map k } db')
    (hk : ∀ v ∈ db.validations, v.Later (k v) ∧ v.SameHome (k v))
    (hpaused : ∀ v ∈ db.validations, v.rollbackOutcome = none → (k v).rollbackOutcome ≠ none →
      db'.PausedFor (k v)) : Upkeep ledger f g k db db' := by
  refine ⟨h.runs, h.policies, by rw [h.validations, List.map_id], h.rest, h.run, h.policy, h.within,
    ?_, h.runRows, h.pauseRows, hpaused⟩
  intro v hv
  exact ⟨(hk v hv).1, (hk v hv).2, (h.validation (k v) (List.mem_map_of_mem hv)).2.2⟩

/-- Changes of policies before that keep their status. -/
theorem Upkeep.after_policies {c : UpdatePolicy → UpdatePolicy}
    (h : Upkeep ledger f g k { db with policies := db.policies.map c } db')
    (hc : ∀ p : UpdatePolicy, p.Later (c p) ∧ (c p).status = p.status) :
    Upkeep ledger f (g ∘ c) k db db' := by
  refine ⟨h.runs, by rw [h.policies, List.map_map], h.validations, h.rest, h.run, ?_, ?_,
    h.validation, h.runRows, ?_, h.paused⟩
  · intro p
    obtain ⟨h₁, h₂, -⟩ := (hc p).1
    obtain ⟨h₁', h₂', h₃'⟩ := h.policy (c p)
    exact ⟨h₁'.trans h₁, h₂'.trans h₂, fun hp => h₃' ((hc p).2.trans hp)⟩
  · exact fun p hp => h.within (c p) (List.mem_map_of_mem hp)
  · have hrows : ∀ l : List UpdatePolicy,
        ((l.map c).filter fun p => p.status = .active && (g p).status = .paused).map
          UpdatePolicy.row =
        (l.filter fun p => p.status = .active && ((g ∘ c) p).status = .paused).map
          UpdatePolicy.row := by
      intro l
      rw [List.filter_map, List.map_map, List.filter_congr]
      · exact List.map_congr_left fun p _ => (hc p).1.row
      · intro p _
        simp only [Function.comp_apply, (hc p).2]
    rw [← hrows]
    exact h.pauseRows

/-- The policies with an active one paused. -/
def pausing (policy reason : String) (now : Int) (p : UpdatePolicy) : UpdatePolicy :=
  if p.id = policy && p.status = .active then p.pausedFor reason now else p

theorem later_pausing (policy reason : String) (now : Int) (p : UpdatePolicy) :
    p.Later (pausing policy reason now p) := by
  unfold pausing
  split
  · exact ⟨rfl, rfl, fun _ => rfl⟩
  · exact .refl p

theorem failures_pausing (policy reason : String) (now : Int) (p : UpdatePolicy) :
    (pausing policy reason now p).consecutiveFailures = p.consecutiveFailures := by
  unfold pausing
  split <;> rfl

theorem status_pausing {policy reason : String} {now : Int} {p : UpdatePolicy}
    (h : p.id = policy) : (pausing policy reason now p).status = .paused := by
  cases hs : p.status <;> simp [pausing, h, hs, UpdatePolicy.pausedFor]

theorem pausing_of_ne {policy reason : String} {now : Int} {p : UpdatePolicy}
    (h : p.id ≠ policy) : pausing policy reason now p = p := by
  simp [pausing, h]

/-- A pause, with its row; the count of the policy itself may be over the limit before. -/
theorem Upkeep.of_pause {app policy : String} (hids : (db.policies.map UpdatePolicy.id).Nodup)
    (hwithin : ∀ p ∈ db.policies, p.id ≠ policy → p.Within)
    (howner : ∀ p ∈ db.policies, p.id = policy → p.applicationID = app)
    (hrec : ∀ v ∈ db.validations, v.Recorded ledger) (reason : String) (result : AuditResult)
    (correlation : String) (now : Int) :
    Upkeep ledger id (pausing policy reason now) id db
      (pausePolicy app policy reason result correlation now db) := by
  have hstep : ∀ p ∈ db.policies, (pausing policy reason now p).Within := by
    intro p hp
    by_cases hid : p.id = policy
    · intro hactive
      rw [status_pausing hid] at hactive
      cases hactive
    · rw [pausing_of_ne hid]
      exact hwithin p hp hid
  unfold pausePolicy
  split
  · next hany =>
    simp only [List.any_eq_true, Bool.and_eq_true, decide_eq_true_eq] at hany
    obtain ⟨p, hp, hid, hactive⟩ := hany
    have hone : (db.policies.filter fun q =>
        q.status = .active && (pausing policy reason now q).status = .paused) = [p] := by
      rw [← Table.filter_key_eq UpdatePolicy.id hids hp]
      apply List.filter_congr
      intro q hq
      by_cases hqid : q.id = policy
      · have hqp : q = p := List.inj_on_of_nodup_map hids hq hp (hqid.trans hid.symm)
        simp [hqp, hactive, status_pausing hid]
      · have hne : ¬ q.id = p.id := fun heq => hqid (heq.trans hid)
        rw [pausing_of_ne hqid]
        cases hs : q.status <;> simp [hne]
    refine ⟨(List.map_id _).symm, rfl, (List.map_id _).symm, rfl, .refl,
      later_pausing policy reason now, hstep, fun v hv => ⟨.refl v, .refl v, hrec v hv⟩, ?_, ?_, ?_⟩
    · rw [filter_unfinished (f := id) fun _ _ => rfl]
      simp [Db.runRows, auditPolicy]
    · rw [hone]
      simp [Db.pauseRows, auditPolicy, UpdatePolicy.row, howner p hp hid, hid]
    · exact fun v _ hnone hsome => absurd hnone hsome
  · next hany =>
    -- the policy is paused already, or gone: nothing is written
    have hsame : ∀ p ∈ db.policies, pausing policy reason now p = p := by
      intro p hp
      simp only [List.any_eq_true, Bool.and_eq_true, decide_eq_true_eq, not_exists, not_and] at hany
      have hno : ¬ (p.id = policy ∧ p.status = .active) := fun h => hany p hp h.1 h.2
      simp [pausing, hno]
    have hmap : db.policies = db.policies.map (pausing policy reason now) := by
      rw [List.map_congr_left hsame, List.map_id']
    exact .quiet (List.map_id _).symm hmap (List.map_id _).symm rfl ⟨rfl, rfl⟩
      (fun r => ⟨.refl r, rfl⟩) (later_pausing policy reason now) (fun p hp => by rw [hsame p hp])
      hstep fun v hv => ⟨.refl v, .refl v, hrec v hv, rfl⟩

/-- The pause a validation asks for. -/
theorem Upkeep.of_pauseForValidation (hdb : Kept ledger db) (run reason correlation : String)
    (now : Int) : ∃ g, Upkeep ledger id g id db (pauseForValidation run reason correlation now db) ∧
      (∀ p : UpdatePolicy, (g p).consecutiveFailures = p.consecutiveFailures) ∧
      ∀ r ∈ db.runs, r.id = run → ∀ p ∈ db.policies, p.id = r.policyID →
        (g p).status = .paused := by
  unfold pauseForValidation
  split
  · next hnone =>
    refine ⟨id, .refl hdb, fun _ => rfl, ?_⟩
    intro r hr hid p hp hpid
    have hrun : db.run? run = some r := hid ▸ Table.find_of_mem PolicyRun.id hdb.runIDs hr
    have hpolicy : db.policy? r.policyID = some p :=
      hpid ▸ Table.find_of_mem UpdatePolicy.id hdb.policyIDs hp
    rw [hrun, Option.bind_some, hpolicy] at hnone
    cases hnone
  · next q hq =>
    obtain ⟨r₀, hr₀, hq⟩ := Option.bind_eq_some_iff.1 hq
    refine ⟨_, .of_pause hdb.policyIDs (fun p hp _ => hdb.within p hp) ?_ hdb.recorded _ _ _ _,
      failures_pausing q.id _ now, ?_⟩
    · intro p hp hid
      rw [List.inj_on_of_nodup_map hdb.policyIDs hp (Table.mem_of_find _ hq) hid]
    · intro r hr hid p _ hpid
      apply status_pausing
      have hrr : r = r₀ := List.inj_on_of_nodup_map hdb.runIDs hr (Table.mem_of_find _ hr₀)
        (hid.trans (Table.key_of_find _ hr₀).symm)
      rw [hpid, hrr]
      exact (Table.key_of_find _ hq).symm

end Quiet

/-! ## Runs -/

section Runs

variable {ledger : Ledger} {db db' : Db} {now : Int}

/-- A run that finishes, with its row. -/
theorem Upkeep.of_record (hdb : Kept ledger db) {r : PolicyRun} (hr : r ∈ db.runs)
    (hopen : r.outcome = none) (outcome : RunOutcome) (deployment : Option String)
    (detail : String) (now : Int) :
    ∃ f, Upkeep ledger f id id db
      (auditPolicy r.resource .policyRun outcome.text (policyResults outcome) r.correlationID now
        { db with
          runs := Table.updateWhere (fun e => e.id = r.id && e.outcome.isNone)
            (·.finished outcome deployment detail now) db.runs }) ∧
      (db.runs.filter fun e => e.outcome.isNone && (f e).outcome.isSome) = [r] ∧
      (f r).outcome = some outcome := by
  have hone : (db.runs.filter fun e => e.outcome.isNone &&
      (if (e.id = r.id && e.outcome.isNone) = true then e.finished outcome deployment detail now
        else e).outcome.isSome) = [r] := by
    rw [← Table.filter_key_eq PolicyRun.id hdb.runIDs hr]
    apply List.filter_congr
    intro e he
    by_cases hid : e.id = r.id
    · have her : e = r := List.inj_on_of_nodup_map hdb.runIDs he hr hid
      simp [her, hopen, PolicyRun.finished]
    · cases ho : e.outcome <;> simp [hid, ho]
  refine ⟨_, ⟨rfl, (List.map_id _).symm, (List.map_id _).symm, rfl, ?_, .refl, hdb.within,
    fun v hv => ⟨.refl v, .refl v, hdb.recorded v hv⟩, ?_, ?_,
    fun _ _ hnone hsome => absurd hnone hsome⟩, hone, by simp [hopen, PolicyRun.finished]⟩
  · intro e
    split
    · next he =>
      simp only [Bool.and_eq_true, Option.isNone_iff_eq_none] at he
      exact ⟨rfl, rfl, rfl, rfl, fun hne => absurd he.2 hne⟩
    · exact .refl e
  · rw [hone]
    simp [Db.runRows, auditPolicy, PolicyRun.row]
  · rw [filter_unpaused (g := id) fun _ _ => rfl]
    simp [Db.pauseRows, auditPolicy]

/-- The policies with the count of one changed. -/
def counted (policy : String) (c : Nat → Nat) (p : UpdatePolicy) : UpdatePolicy :=
  if p.id = policy then { p with consecutiveFailures := c p.consecutiveFailures } else p

theorem later_counted (policy : String) (c : Nat → Nat) (p : UpdatePolicy) :
    p.Later (counted policy c p) ∧ (counted policy c p).status = p.status := by
  unfold counted
  split
  · exact ⟨⟨rfl, rfl, fun h => h⟩, rfl⟩
  · exact ⟨.refl p, rfl⟩

theorem counted_of_ne {policy : String} {c : Nat → Nat} {p : UpdatePolicy} (h : p.id ≠ policy) :
    counted policy c p = p := if_neg h

theorem updateWhere_counted (policy : String) (c : Nat → Nat) (l : List UpdatePolicy) :
    Table.updateWhere (fun p => p.id = policy)
      (fun p => { p with consecutiveFailures := c p.consecutiveFailures }) l =
      l.map (counted policy c) := by
  simp [Table.updateWhere, counted]

/-- The count of one policy changed; if that gives no reason to pause, an active policy stays below
the limit. -/
def Counts (policy : String) (c : Nat → Nat) (pause : Option String) (db db' : Db) : Prop :=
  db' = { db with policies := db.policies.map (counted policy c) } ∧
    (pause = none → ∀ p ∈ db.policies, p.Within → (counted policy c p).Within)

/-- An outcome counts as it should, and the failure that reaches the limit is a reason to pause. -/
theorem countRun_ok {policy : String} {outcome : RunOutcome} {pause : Option String}
    (hids : (db.policies.map UpdatePolicy.id).Nodup)
    (h : countRun policy outcome db = .ok (db', pause)) :
    Counts policy outcome.counts pause db db' := by
  have hnone : countRun policy outcome db = .ok (db, pause) → Counts policy id pause db db' := by
    intro heq
    rw [heq, Except.ok.injEq, Prod.mk.injEq] at h
    have hid : ∀ p : UpdatePolicy, counted policy id p = p := by
      intro p
      unfold counted
      split <;> rfl
    refine ⟨?_, fun _ p _ hp => (hid p).symm ▸ hp⟩
    rw [List.map_congr_left fun p _ => hid p, List.map_id']
    exact h.1.symm
  have hreset : countRun policy outcome db = countRun policy .applied db →
      Counts policy (fun _ => 0) pause db db' := by
    intro heq
    rw [heq] at h
    simp only [countRun, updateWhere_counted policy fun _ => 0, Except.ok.injEq, Prod.mk.injEq] at h
    refine ⟨h.1.symm, fun _ p _ hp => ?_⟩
    by_cases hid : p.id = policy
    · intro _
      simp [counted, hid, policyFailureLimit]
    · rw [counted_of_ne hid]
      exact hp
  have hfailed : countRun policy outcome db = countRun policy .failed db →
      Counts policy (· + 1) pause db db' := by
    intro heq
    rw [heq] at h
    simp only [countRun, updateWhere_counted policy (· + 1), Db.policy?] at h
    split at h
    · cases h
    next q hq =>
    simp only [Except.ok.injEq, Prod.mk.injEq] at h
    obtain ⟨hdb', hpause⟩ := h
    refine ⟨hdb'.symm, fun hp₀ p hp hwithin => ?_⟩
    by_cases hid : p.id = policy
    · -- the count that was read is this policy's
      have hq' : q = counted policy (· + 1) p := by
        rw [Table.find_map UpdatePolicy.id fun p => (later_counted policy (· + 1) p).1.1] at hq
        rw [← hid, Table.find_of_mem UpdatePolicy.id hids hp] at hq
        rw [← hid]
        exact (Option.some.inj hq).symm
      intro _
      rw [← hq']
      by_contra hlimit
      rw [if_pos (by omega), hp₀] at hpause
      cases hpause
    · rw [counted_of_ne hid]
      exact hwithin
  cases outcome with
  | blocked => exact hfailed rfl
  | failed => exact hfailed rfl
  | applied => exact hreset rfl
  | planned => exact hreset rfl
  | noUpdate => exact hreset rfl
  | paused | skippedMissed | skippedBusy =>
    apply hnone
    simp only [countRun, Except.ok.injEq, Prod.mk.injEq] at h
    rw [← h.2]
    rfl

/-- The count of a policy changes and the policy pauses. -/
theorem Upkeep.of_charge (hdb : Kept ledger db) {app policy : String} (c : Nat → Nat)
    (howner : ∀ p ∈ db.policies, p.id = policy → p.applicationID = app) (reason : String)
    (result : AuditResult) (correlation : String) (now : Int) :
    Upkeep ledger id (pausing policy reason now ∘ counted policy c) id db
      (pausePolicy app policy reason result correlation now
        { db with policies := db.policies.map (counted policy c) }) := by
  have hc := later_counted policy c
  refine .after_policies (.of_pause ?_ ?_ ?_ ?_ _ _ _ _) hc
  · rw [Table.map_col fun p _ => (hc p).1.1]
    exact hdb.policyIDs
  · intro p' hp' hne
    obtain ⟨p, hp, rfl⟩ := List.mem_map.1 hp'
    rw [(hc p).1.1] at hne
    rw [counted_of_ne hne]
    exact hdb.within p hp
  · intro p' hp' hid
    obtain ⟨p, hp, rfl⟩ := List.mem_map.1 hp'
    rw [(hc p).1.2.1]
    exact howner p hp ((hc p).1.1.symm.trans hid)
  · exact hdb.recorded

/-- A run finishes, and its policy pauses where the outcome asks for it. -/
theorem Tends.of_finishPolicyRun (hdb : Kept ledger db) {run : String} {outcome : RunOutcome}
    {deployment : Option String} {detail : String}
    (h : finishPolicyRun run outcome deployment detail now db = .ok db') : Tends ledger db db' := by
  unfold finishPolicyRun at h
  split at h
  · cases h
  next r hr =>
  obtain ⟨hfind, hopen⟩ := Option.filter_eq_some_iff.1 hr
  have hmem := Table.mem_of_find _ hfind
  obtain rfl : r.id = run := Table.key_of_find _ hfind
  obtain ⟨f, hrecord, hone, houtcome⟩ := Upkeep.of_record hdb hmem (by simpa using hopen) outcome
    deployment detail now
  have hkept := hrecord.kept hdb
  simp only at h
  split at h
  · cases h
  next db₂ pause hcount =>
  obtain ⟨rfl, hwithin⟩ := countRun_ok (by exact hdb.policyIDs) hcount
  -- the one run that finishes counts for its own policy
  have htally : ∀ g : UpdatePolicy → UpdatePolicy,
      (∀ p, (g p).consecutiveFailures =
        (counted r.policyID outcome.counts p).consecutiveFailures) →
      Tallied (id ∘ f) (g ∘ id) db := by
    intro g hg p _
    have hfinishing : finishing (id ∘ f) db p.id = ([r].filter (·.policyID = p.id)).map f :=
      congrArg (fun l => (l.filter (·.policyID = p.id)).map f) hone
    rw [hfinishing, Function.comp_apply, id, hg]
    by_cases hid : p.id = r.policyID
    · refine ⟨[f r], by simp [hid], ?_⟩
      simp [counted, hid, PolicyRun.counts, houtcome]
    · rw [counted_of_ne hid]
      simpa [Ne.symm hid] using CountsTo.refl p.consecutiveFailures
  split at h
  · cases h
    exact ⟨_, _, _, hrecord.trans (.of_policies hkept (later_counted r.policyID outcome.counts)
      fun p hp => hwithin rfl p hp (hdb.within p hp)), htally _ fun _ => rfl⟩
  · next reason =>
    cases h
    exact ⟨_, _, _, hrecord.trans (.of_charge hkept outcome.counts
      (fun p hp hid => hdb.owner r hmem p hp hid) _ _ _ _),
      htally _ fun p => failures_pausing r.policyID reason now _⟩

/-- A run that is still open names its deployment. -/
theorem Tends.of_attach (hdb : Kept ledger db) {run deployment : String}
    (h : attachPolicyRunDeployment run deployment db = .ok db') : Tends ledger db db' := by
  obtain ⟨-, rfl⟩ := ok_of_guard h
  have hrun : ∀ r : PolicyRun, r.Later
        (if (r.id = run && r.outcome.isNone) = true then { r with deploymentID := some deployment }
          else r) ∧
      (if (r.id = run && r.outcome.isNone) = true then { r with deploymentID := some deployment }
        else r).outcome = r.outcome := by
    intro r
    split
    · next hr =>
      simp only [Bool.and_eq_true, Option.isNone_iff_eq_none] at hr
      exact ⟨⟨rfl, rfl, rfl, rfl, fun hne => absurd hr.2 hne⟩, rfl⟩
    · exact ⟨.refl r, rfl⟩
  refine Upkeep.tends (.quiet rfl (List.map_id _).symm (List.map_id _).symm rfl ⟨rfl, rfl⟩ hrun
    .refl (fun _ _ => rfl) hdb.within fun v hv => ⟨.refl v, .refl v, hdb.recorded v hv, rfl⟩)
    (fun r _ => (hrun r).2) fun _ _ => rfl

/-! ## Validations -/

variable {deployment : String}

theorem Tends.of_beginObservation (hdb : Kept ledger db) {baseline : String}
    (h : beginObservation deployment baseline db = .ok db') : Tends ledger db db' := by
  simp only [beginObservation, guard_error_eq_ok, guard_else_error_eq_ok, Except.ok.injEq] at h
  obtain ⟨-, -, rfl⟩ := h
  refine (Upkeep.of_validations hdb ?_).tends (fun _ _ => rfl) fun _ _ => rfl
  intro v hv
  have hrec := hdb.recorded v hv
  split
  · next hgrace =>
    simp only [Bool.and_eq_true, decide_eq_true_eq] at hgrace
    -- a validation in grace has neither verdict nor rollback
    have hnot : ¬ v.phase = .done := by simp [hgrace.2]
    refine ⟨⟨rfl, rfl, rfl, fun _ h => h, fun _ h => h, fun _ h => h⟩, .refl v, ?_, rfl⟩
    exact ⟨fun hne => absurd (hrec.verdict hne) hnot, fun hne => absurd (hrec.named hne).1 hnot,
      hrec.planned, fun hne => absurd (hrec.outcome hne).1 hnot, hrec.applied, hrec.automated,
      fun hdone => (by cases hdone)⟩
  · exact ⟨.refl v, .refl v, hrec, rfl⟩

/-- A verdict is recorded; one that could not be had pauses the policy. -/
theorem Tends.of_finishValidation (hdb : Kept ledger db) {verdict : Verdict}
    {detail : String} {due : Bool}
    (h : finishValidation deployment verdict detail now db = .ok (db', due)) :
    Tends ledger db db' := by
  unfold finishValidation at h
  split at h
  · cases h
  next v hv =>
  obtain ⟨k, hverdict⟩ : ∃ k, Upkeep ledger id id k db { db with
      validations := Table.updateWhere (fun w => w.deploymentID = deployment && w.phase ≠ .done)
        (·.finished verdict (cleanText detail 255) now) db.validations } := by
    refine ⟨_, .of_validations hdb ?_⟩
    intro w hw
    have hrec := hdb.recorded w hw
    split
    · next hopen =>
      simp only [Bool.and_eq_true, decide_eq_true_eq] at hopen
      -- an open validation has neither verdict nor rollback yet
      have hnone : w.verdict = none := by
        by_contra hne
        exact hopen.2 (hrec.verdict hne)
      have hunnamed : w.rollbackDeploymentID = none := by
        by_contra hne
        exact hopen.2 (hrec.named hne).1
      have hundecided : w.rollbackOutcome = none := by
        by_contra hne
        exact hopen.2 (hrec.outcome hne).1
      refine ⟨⟨rfl, rfl, rfl, ?_, fun _ h => h, fun _ h => h⟩, .refl w,
        ⟨fun _ => rfl, ?_, hrec.planned, ?_, ?_, hrec.automated, ?_⟩, rfl⟩
      all_goals simp [Validation.finished, hnone, hunnamed, hundecided]
    · exact ⟨.refl w, .refl w, hrec, rfl⟩
  have haudit := Upkeep.of_audit (hverdict.kept hdb) .validation ⟨by simp, by simp⟩
    (v.applicationID ++ "/deployments/" ++ deployment) verdict.text (validationResults verdict)
    v.correlationID now
  have hkept := haudit.kept (hverdict.kept hdb)
  apply (hverdict.tends (fun _ _ => rfl) fun _ _ => rfl).trans
  apply (haudit.tends (fun _ _ => rfl) fun _ _ => rfl).trans
  split at h
  · cases h
    exact .refl hkept
  split at h
  · cases h
    exact .refl hkept
  next run _ =>
  split at h
  · cases h
    obtain ⟨g, hpause, hcounts, -⟩ := Upkeep.of_pauseForValidation hkept run
      (validationReasonUnverified ++ cleanText detail 255) v.correlationID now
    exact hpause.tends (fun _ _ => rfl) fun p _ => hcounts p
  · cases h
    exact .refl hkept

/-- A rollback is named. -/
theorem Tends.of_markRollbackPlanned (hdb : Kept ledger db) {rollback : String}
    (hplan : rollback ∈ ledger.rollbackPlans)
    (h : markRollbackPlanned deployment rollback db = .ok db') : Tends ledger db db' := by
  simp only [markRollbackPlanned, guard_else_error_eq_ok, guard_error_eq_ok, Except.ok.injEq] at h
  obtain ⟨-, -, rfl⟩ := h
  refine (Upkeep.of_validations hdb ?_).tends (fun _ _ => rfl) fun _ _ => rfl
  intro v hv
  have hrec := hdb.recorded v hv
  split
  · next hawaits =>
    simp only [Validation.awaitingRollback, Bool.and_eq_true, Bool.not_eq_true', decide_eq_true_eq,
      Option.isNone_iff_eq_none] at hawaits
    obtain ⟨-, ⟨⟨⟨⟨⟨hdone, hauto⟩, hroll⟩, -⟩, hfailed⟩, hundecided⟩, hunnamed⟩ := hawaits
    refine ⟨⟨rfl, rfl, rfl, fun _ h => h, ?_, fun _ h => h⟩, .refl v,
      ⟨fun _ => hdone, ?_, ?_, ?_, ?_, hrec.automated, hrec.done⟩, rfl⟩
    · simp [hunnamed]
    · exact fun _ => ⟨hdone, hauto, hroll, hfailed⟩
    · intro id hid
      exact Option.some.inj hid ▸ hplan
    · exact fun _ => ⟨hdone, hauto, hroll, hfailed⟩
    · simp [hundecided]
  · exact ⟨.refl v, .refl v, hrec, rfl⟩

theorem Kept.validations (hdb : Kept ledger db) {k : Validation → Validation}
    (hk : ∀ v ∈ db.validations, (k v).deploymentID = v.deploymentID ∧ (k v).Recorded ledger) :
    Kept ledger { db with validations := db.validations.map k } := by
  refine ⟨hdb.policyIDs, hdb.within, hdb.runIDs, hdb.windows, hdb.owner, hdb.home, ?_, ?_, hdb.sent,
    hdb.applied⟩
  · rw [Table.map_col fun v hv => (hk v hv).1]
    exact hdb.validationIDs
  · intro v' hv'
    obtain ⟨v, hv, rfl⟩ := List.mem_map.1 hv'
    exact (hk v hv).2

/-- An outcome is recorded, and the policy is paused with it. -/
theorem Tends.of_markRollbackOutcome (hdb : Kept ledger db)
    {outcome : RollbackOutcome} {detail : String}
    (hsent : outcome = .applied → ∀ v ∈ db.validations, v.deploymentID = deployment → ∀ id,
      v.rollbackDeploymentID = some id → id ∈ ledger.sent)
    (h : markRollbackOutcome deployment outcome detail now db = .ok db') : Tends ledger db db' := by
  unfold markRollbackOutcome at h
  split at h
  · cases h
  next v hv =>
  obtain ⟨hfind, hopen⟩ := Option.filter_eq_some_iff.1 hv
  simp only [Bool.and_eq_true, Bool.not_eq_true', decide_eq_true_eq] at hopen
  obtain ⟨⟨⟨hdone, hauto⟩, hroll⟩, -⟩ := hopen
  have hmem := Table.mem_of_find _ hfind
  have hid := Table.key_of_find _ hfind
  simp only [guard_error_eq_ok] at h
  obtain ⟨hnamed, -, h⟩ := h
  -- the row that takes the outcome is the one that was read
  have hone : ∀ w ∈ db.validations, w.takesOutcome deployment = true → w = v := by
    intro w hw htakes
    simp only [Validation.takesOutcome, Bool.and_eq_true, decide_eq_true_eq] at htakes
    exact List.inj_on_of_nodup_map hdb.validationIDs hw hmem (htakes.1.1.trans hid.symm)
  have hk : ∀ w ∈ db.validations, ∀ w', w' = (if w.takesOutcome deployment = true then
      w.rolledBack outcome (cleanText detail 255) else w) →
      w.Later w' ∧ w.SameHome w' ∧ w'.Recorded ledger := by
    rintro w hw _ rfl
    have hrec := hdb.recorded w hw
    split
    · next htakes =>
      obtain rfl := hone w hw htakes
      simp only [Validation.takesOutcome, Bool.and_eq_true, Option.isNone_iff_eq_none] at htakes
      refine ⟨⟨rfl, rfl, rfl, fun _ h => h, fun _ h => h, ?_⟩, .refl w, fun _ => hdone, hrec.named,
        hrec.planned, fun _ => ⟨hdone, hauto, hroll, htakes.2⟩, ?_, hrec.automated, hrec.done⟩
      · simp [htakes.1.2]
      · intro happlied
        have happlied : outcome = .applied := by simpa [Validation.rolledBack] using happlied
        obtain ⟨id, hname⟩ := Option.ne_none_iff_exists'.1 (fun hn => hnamed ⟨happlied, hn⟩)
        exact ⟨id, hsent happlied w hw hid id hname, hname⟩
    · exact ⟨.refl w, .refl w, hrec⟩
  have hkept := hdb.validations fun w hw => ⟨(hk w hw _ rfl).1.1, (hk w hw _ rfl).2.2⟩
  split at h
  · next hrun =>
    cases h
    refine ((Upkeep.refl hkept).after_validations (fun w hw => ⟨(hk w hw _ rfl).1, (hk w hw _ rfl).2.1⟩)
      ?_).tends (fun _ _ => rfl) fun _ _ => rfl
    intro w hw hnone hsome run hrunw
    by_cases htakes : w.takesOutcome deployment = true
    · rw [if_pos htakes, hone w hw htakes] at hrunw
      simp [Validation.rolledBack, hrun] at hrunw
    · rw [if_neg htakes] at hsome
      exact absurd hnone hsome
  · next run hrun =>
    cases h
    obtain ⟨g, hpause, hcounts, hpaused⟩ := Upkeep.of_pauseForValidation hkept run
      (if outcome = .applied then validationReasonRolledBack
        else validationReasonNotRolledBack ++ cleanText detail 255) v.correlationID now
    refine (hpause.after_validations (fun w hw => ⟨(hk w hw _ rfl).1, (hk w hw _ rfl).2.1⟩)
      ?_).tends (fun _ _ => rfl) fun p _ => hcounts p
    intro w hw hnone hsome run' hrunw r hr hrid p' hp' hpid
    by_cases htakes : w.takesOutcome deployment = true
    · rw [if_pos htakes, hone w hw htakes] at hrunw
      have hrr : run' = run := by simpa [Validation.rolledBack, hrun, eq_comm] using hrunw
      have hruns := hpause.runs
      rw [List.map_id] at hruns
      rw [hpause.policies] at hp'
      obtain ⟨p, hp, rfl⟩ := List.mem_map.1 hp'
      rw [hruns] at hr
      exact hpaused r hr (hrid.trans hrr) p hp ((hpause.policy p).1.symm.trans hpid)
    · rw [if_neg htakes] at hsome
      exact absurd hnone hsome

end Runs

/-! ## Reconciliations -/

section Folds

variable {ledger : Ledger} {db db' : Db} {now : Int}

/-- One transaction after the other. -/
theorem Tends.foldlM {α : Type} {step : Db → α → Except StoreError Db}
    (hstep : ∀ db db' a, Kept ledger db → step db a = .ok db' → Tends ledger db db') {l : List α}
    (hdb : Kept ledger db) (h : l.foldlM step db = .ok db') : Tends ledger db db' := by
  have hkeeps := foldlM_keeps (I := fun x => Kept ledger x ∧ Tends ledger db x) (fun b a b' hb hs =>
    ⟨(hstep b b' a hb.1 hs).kept hb.1, hb.2.trans (hstep b b' a hb.1 hs)⟩)
    ⟨hdb, .refl hdb⟩ h
  exact hkeeps.2

theorem validations_pauseForValidation (run reason correlation : String) (now : Int) (db : Db) :
    (pauseForValidation run reason correlation now db).validations = db.validations := by
  unfold pauseForValidation
  split
  · rfl
  · unfold pausePolicy
    split <;> rfl

/-- A named rollback without an outcome takes one. -/
theorem markRollbackOutcome_commits (hdb : Kept ledger db) {v : Validation}
    (hv : v ∈ db.validations) (hundecided : v.undecided = true) (outcome : RollbackOutcome)
    (detail : String) (now : Int) :
    ∃ db', markRollbackOutcome v.deploymentID outcome detail now db = .ok db' ∧
      db'.validations = Table.updateWhere (Validation.takesOutcome v.deploymentID)
        (·.rolledBack outcome (cleanText detail 255)) db.validations := by
  simp only [Validation.undecided, Bool.and_eq_true, Option.isSome_iff_ne_none] at hundecided
  obtain ⟨hnamed, hnone⟩ := hundecided
  obtain ⟨hdone, hauto, hroll, hfailed⟩ := (hdb.recorded v hv).named hnamed
  have hfind : (db.validation? v.deploymentID).filter (fun v =>
      v.phase = .done && v.automated && !v.isRollback && v.rollbackOutcome.isNone) = some v := by
    rw [Option.filter_eq_some_iff]
    exact ⟨Table.find_of_mem Validation.deploymentID hdb.validationIDs hv,
      by simp [hdone, hauto, hroll, hnone]⟩
  have htakes : db.validations.any (Validation.takesOutcome v.deploymentID) = true := by
    rw [List.any_eq_true]
    exact ⟨v, hv, by simp [Validation.takesOutcome, hnone, hfailed]⟩
  unfold markRollbackOutcome
  rw [hfind]
  simp only [hnamed, and_false, htakes]
  cases v.policyRunID with
  | none => exact ⟨_, rfl, rfl⟩
  | some => exact ⟨_, rfl, validations_pauseForValidation _ _ _ _ _⟩

/-- Undecided rollbacks take their outcome one after the other. -/
theorem marks_commit (outcome : RollbackOutcome) (detail : String) (now : Int) {ids : List String}
    (hids : ids.Nodup) (hdb : Kept ledger db)
    (hnamed : ∀ id ∈ ids, ∃ v ∈ db.validations, v.deploymentID = id ∧ v.undecided = true ∧
      (outcome = .applied → ∃ x ∈ ledger.sent, v.rollbackDeploymentID = some x)) :
    ∃ db', ids.foldlM (fun db id => markRollbackOutcome id outcome detail now db) db = .ok db' ∧
      Tends ledger db db' := by
  induction ids generalizing db with
  | nil => exact ⟨db, rfl, .refl hdb⟩
  | cons id ids ih =>
    obtain ⟨hnot, htail⟩ := List.nodup_cons.1 hids
    obtain ⟨v, hv, rfl, hundecided, happlied⟩ := hnamed id List.mem_cons_self
    obtain ⟨db₁, hmark, hrows⟩ := markRollbackOutcome_commits hdb hv hundecided outcome detail now
    have hfirst : Tends ledger db db₁ := by
      refine .of_markRollbackOutcome hdb ?_ hmark
      intro ho w hw hwid x hx
      obtain ⟨y, hy, hname⟩ := happlied ho
      rw [List.inj_on_of_nodup_map hdb.validationIDs hw hv hwid, hname, Option.some.injEq] at hx
      exact hx ▸ hy
    obtain ⟨db', hrest, htends⟩ := ih htail (hfirst.kept hdb) (by
      intro id' hid'
      obtain ⟨w, hw, hwid, hwopen⟩ := hnamed id' (List.mem_cons_of_mem _ hid')
      refine ⟨w, ?_, hwid, hwopen⟩
      -- the outcome went to another row
      have hne : w.deploymentID ≠ v.deploymentID := fun heq => hnot (heq ▸ hwid ▸ hid')
      rw [hrows, Table.mem_updateWhere]
      exact ⟨w, hw, by simp [Validation.takesOutcome, hne]⟩)
    refine ⟨db', ?_, hfirst.trans htends⟩
    rw [List.foldlM_cons, hmark]
    exact hrest

theorem nodup_validationIDs (hdb : Kept ledger db) (p : Validation → Bool) :
    (db.validationIDs p).Nodup := by
  have hperm := (List.perm_insertionSort Validation.before (db.validations.filter p)).map
    Validation.deploymentID
  exact hperm.nodup_iff.2 (hdb.validationIDs.sublist ((List.filter_sublist).map _))

theorem mem_validationIDs {p : Validation → Bool} {id : String} (h : id ∈ db.validationIDs p) :
    ∃ v ∈ db.validations, p v = true ∧ v.deploymentID = id := by
  obtain ⟨v, hv, rfl⟩ := List.mem_map.1 h
  obtain ⟨hmem, hp⟩ := List.mem_filter.1 ((List.mem_insertionSort _).1 hv)
  exact ⟨v, hmem, hp, rfl⟩

/-- Deciding the named rollbacks never fails. -/
theorem decideNamedRollbacks_commits (hdb : Kept ledger db) (now : Int) :
    ∃ db', decideNamedRollbacks now db = .ok db' ∧ Tends ledger db db' := by
  obtain ⟨db₁, happlied, hfirst⟩ := marks_commit .applied "" now
    (nodup_validationIDs hdb fun v => v.undecided && db.rollbackSucceeded v) hdb (by
      intro id hid
      obtain ⟨v, hv, hp, rfl⟩ := mem_validationIDs hid
      rw [Bool.and_eq_true] at hp
      refine ⟨v, hv, rfl, hp.1, fun _ => ?_⟩
      -- a succeeded row was sent
      have hrow := hp.2
      rw [Db.rollbackSucceeded, Option.any_eq_true] at hrow
      obtain ⟨d, hd, hstate⟩ := hrow
      obtain ⟨x, hx, hfind⟩ := Option.bind_eq_some_iff.1 hd
      have hsent := hdb.sent d (Table.mem_of_find _ hfind) (by simp_all)
      rw [Table.key_of_find _ hfind] at hsent
      exact ⟨x, hsent, hx⟩)
  have hkept := hfirst.kept hdb
  obtain ⟨db', hfailed, hsecond⟩ := marks_commit .failed rollbackInterrupted now
    (nodup_validationIDs hkept fun v => v.undecided && db₁.rollbackLost now v) hkept (by
      intro id hid
      obtain ⟨v, hv, hp, rfl⟩ := mem_validationIDs hid
      rw [Bool.and_eq_true] at hp
      exact ⟨v, hv, rfl, hp.1, fun hc => by cases hc⟩)
  refine ⟨db', ?_, hfirst.trans hsecond⟩
  unfold decideNamedRollbacks
  rw [happlied]
  exact hfailed

theorem Tends.of_decideNamedRollbacks (hdb : Kept ledger db)
    (h : decideNamedRollbacks now db = .ok db') : Tends ledger db db' := by
  obtain ⟨db₁, hok, htends⟩ := decideNamedRollbacks_commits hdb now
  rw [hok] at h
  cases h
  exact htends

theorem Tends.of_reconcileAfterStart (hdb : Kept ledger db)
    (h : reconcileAfterStart now db = .ok db') : Tends ledger db db' := by
  unfold reconcileAfterStart at h
  split at h
  · cases h
  next db₁ hruns =>
  have hfirst := Tends.foldlM (fun _ _ _ hkept hrun => .of_finishPolicyRun hkept hrun) hdb hruns
  apply hfirst.trans
  have hkept := hfirst.kept hdb
  unfold reconcileValidations at h
  split at h
  · cases h
  next db₂ hmissed =>
  have hsecond : Tends ledger db₁ db₂ := by
    refine .foldlM ?_ hkept hmissed
    intro db db' id hdb hstep
    cases hv : finishValidation id .unverifiable validationDetailServerDown now db with
    | error =>
      rw [hv] at hstep
      cases hstep
    | ok =>
      rw [hv] at hstep
      cases hstep
      exact .of_finishValidation hdb hv
  exact hsecond.trans (.of_decideNamedRollbacks (hsecond.kept hkept) h)

end Folds

end KyYard.Store
