import KyYard.Store.Retention
import KyYard.Store.Upkeep

/-!
# What the store's transactions do to validations

The transactions of users, agents and retention settle, move and delete deployments and leave the
work of the scheduler and the validation loop alone: they delete policies and runs at most, write no
audit row of a run or a pause, and touch a validation only to open it, to delete it with its
deployment, or to forget its run (`Follows`). Every succeeded apply keeps its validation
(`Watched`). Transactions that open nothing compose (`Shrinks.trans`).
-/

namespace KyYard.Store

open Foundation Protocol

/-! ## Rows -/

/-- The deployments a transaction sends: their rows leave `planned`, or start past it. -/
def StoreOp.sends : StoreOp → List String
  | .lifecycle (.applyDeployment _ id _ _ _) => [id]
  | .lifecycle (.removeApplication _ id _ _ _) => [id]
  | _ => []

/-- The deployment a transaction applies for a policy run. -/
def StoreOp.forRun : StoreOp → List String
  | .lifecycle (.applyDeployment _ id _ guard _) =>
    if (guard.bind PolicyGuard.run).isSome then [id] else []
  | _ => []

/-- The transactions on other tables write only image checks. -/
def StoreOp.sparesPolicies (db : Db) : StoreOp → Bool
  | .lifecycle (.other policies runs validations _ audit) =>
    policies = db.policies && runs = db.runs && validations = db.validations && audit = db.audit
  | _ => true

/-- How a row goes on: a succeeded one stays so, only a sent one leaves `planned`, and only an apply
for a run gives it one. -/
structure Deployment.Goes (sends forRun : List String) (d d' : Deployment) : Prop where
  id : d'.id = d.id
  succeeded : d.state = .succeeded → d'.state = .succeeded
  planned : d'.state ≠ .planned → d.state ≠ .planned ∨ d.id ∈ sends
  run : d'.policyRunID ≠ none → d.policyRunID ≠ none ∨ d.id ∈ forRun

theorem Deployment.Goes.refl (sends forRun : List String) (d : Deployment) :
    d.Goes sends forRun d :=
  ⟨rfl, fun h => h, .inl, .inl⟩

/-- A validation at most loses the run it acts for. -/
def Validation.Same (v v' : Validation) : Prop :=
  v' = { v with policyRunID := v'.policyRunID } ∧ (v.policyRunID = none → v'.policyRunID = none)

theorem Validation.Same.refl (v : Validation) : v.Same v := ⟨rfl, fun h => h⟩

theorem Validation.Same.id {v v' : Validation} (h : v.Same v') :
    v'.deploymentID = v.deploymentID := by
  rw [h.1]

theorem Validation.Same.trans {v₁ v₂ v₃ : Validation} (h : v₁.Same v₂) (h' : v₂.Same v₃) :
    v₁.Same v₃ := by
  refine ⟨?_, fun hnone => h'.2 (h.2 hnone)⟩
  rw [h'.1, h.1]

/-- Every run has its policy. -/
def Db.Housed (db : Db) : Prop := ∀ r ∈ db.runs, ∃ p ∈ db.policies, p.id = r.policyID

/-- An apply with this id succeeded. -/
def Db.Succeeded (db : Db) (id : String) : Prop :=
  ∃ d ∈ db.deployments, d.id = id ∧ d.kind = .apply ∧ d.state = .succeeded

/-- The validations are those of the succeeded applies. -/
def Watched (db : Db) : Prop :=
  ∀ id, db.Succeeded id ↔ id ∈ db.validations.map Validation.deploymentID

/-! ## Transactions that open nothing -/

/-- Rows go on or go, and a validation goes with its deployment only. -/
structure Shrinks (db db' : Db) : Prop where
  policies : ∃ q, db'.policies = db.policies.filter q
  runs : ∃ q, db'.runs = db.runs.filter q
  housed : db.Housed → db'.Housed
  audit : db'.runRows = db.runRows ∧ db'.pauseRows = db.pauseRows
  ids : (db'.deployments.map Deployment.id).Sublist (db.deployments.map Deployment.id)
  rows : ∀ d' ∈ db'.deployments, ∃ d ∈ db.deployments, d.Goes [] [] d'
  back : ∀ v' ∈ db'.validations, ∃ v ∈ db.validations, v.Same v'
  forth : ∀ v ∈ db.validations, (∃ v' ∈ db'.validations, v.Same v') ∨
    ∀ d' ∈ db'.deployments, d'.id ≠ v.deploymentID
  distinct : (db'.validations.map Validation.deploymentID).Sublist
    (db.validations.map Validation.deploymentID)
  watched : Watched db → Watched db'

section Shrinking

variable {db db₁ db' : Db}

theorem Shrinks.of_tables (policies : db'.policies = db.policies) (runs : db'.runs = db.runs)
    (deployments : db'.deployments = db.deployments) (validations : db'.validations = db.validations)
    (audit : db'.audit = db.audit) : Shrinks db db' := by
  refine ⟨⟨fun _ => true, ?_⟩, ⟨fun _ => true, ?_⟩, ?_, ?_, ?_, ?_, ?_, ?_, ?_, ?_⟩
  · rw [policies, List.filter_true]
  · rw [runs, List.filter_true]
  · unfold Db.Housed
    rw [policies, runs]
    exact fun h => h
  · simp [Db.runRows, Db.pauseRows, audit]
  · rw [deployments]
  · rw [deployments]
    exact fun d hd => ⟨d, hd, .refl _ _ d⟩
  · rw [validations]
    exact fun v hv => ⟨v, hv, .refl v⟩
  · rw [validations]
    exact fun v hv => .inl ⟨v, hv, .refl v⟩
  · rw [validations]
  · intro hw id
    unfold Db.Succeeded
    rw [deployments, validations]
    exact hw id

theorem Shrinks.trans (h : Shrinks db db₁) (h' : Shrinks db₁ db') : Shrinks db db' := by
  obtain ⟨q, hq⟩ := h.policies
  obtain ⟨q', hq'⟩ := h'.policies
  obtain ⟨r, hr⟩ := h.runs
  obtain ⟨r', hr'⟩ := h'.runs
  refine ⟨⟨fun x => q' x && q x, ?_⟩, ⟨fun x => r' x && r x, ?_⟩,
    fun hh => h'.housed (h.housed hh), ⟨h'.audit.1.trans h.audit.1, h'.audit.2.trans h.audit.2⟩,
    h'.ids.trans h.ids, ?_, ?_, ?_, h'.distinct.trans h.distinct, fun hw => h'.watched (h.watched hw)⟩
  · rw [hq', hq, List.filter_filter]
  · rw [hr', hr, List.filter_filter]
  · intro d' hd'
    obtain ⟨d₁, hd₁, hg'⟩ := h'.rows d' hd'
    obtain ⟨d, hd, hg⟩ := h.rows d₁ hd₁
    refine ⟨d, hd, hg'.id.trans hg.id, fun hs => hg'.succeeded (hg.succeeded hs), ?_, ?_⟩
    · intro hne
      rcases hg'.planned hne with hp | hp
      · exact hg.planned hp
      · cases hp
    · intro hne
      rcases hg'.run hne with hp | hp
      · exact hg.run hp
      · cases hp
  · intro v' hv'
    obtain ⟨v₁, hv₁, hs'⟩ := h'.back v' hv'
    obtain ⟨v, hv, hs⟩ := h.back v₁ hv₁
    exact ⟨v, hv, hs.trans hs'⟩
  · intro v hv
    rcases h.forth v hv with ⟨v₁, hv₁, hs⟩ | hgone
    · rcases h'.forth v₁ hv₁ with ⟨v', hv', hs'⟩ | hgone'
      · exact .inl ⟨v', hv', hs.trans hs'⟩
      · exact .inr fun d' hd' heq => hgone' d' hd' (heq.trans hs.id.symm)
    · -- no row comes back
      refine .inr fun d' hd' heq => ?_
      obtain ⟨d₁, hd₁, hg'⟩ := h'.rows d' hd'
      exact hgone d₁ hd₁ (hg'.id.symm.trans heq)

/-- A deployment takes its validation with it. -/
theorem Shrinks.deleteDeployments (hn : (db.deployments.map Deployment.id).Nodup)
    (p : Deployment → Bool) : Shrinks db (db.deleteDeployments p) := by
  have hkept : ∀ id, (∃ d ∈ db.deployments, d.id = id ∧ p d = false) →
      (db.deployments.any fun d => p d && d.id = id) = false := by
    rintro id ⟨d, hd, rfl, hp⟩
    rw [List.any_eq_false]
    intro e he
    by_cases hid : e.id = d.id
    · rw [List.inj_on_of_nodup_map hn he hd hid]
      simp [hp]
    · simp [hid]
  refine ⟨⟨fun _ => true, (List.filter_true _).symm⟩, ⟨fun _ => true, (List.filter_true _).symm⟩,
    fun hh => hh, ⟨rfl, rfl⟩, List.filter_sublist.map _, ?_, ?_, ?_, List.filter_sublist.map _, ?_⟩
  · intro d' hd'
    exact ⟨d', (List.mem_filter.1 hd').1, .refl _ _ d'⟩
  · intro v' hv'
    exact ⟨v', (List.mem_filter.1 hv').1, .refl v'⟩
  · intro v hv
    by_cases hgone : (db.deployments.any fun d => p d && d.id = v.deploymentID) = true
    · refine .inr fun d' hd' heq => ?_
      obtain ⟨hd', hp⟩ := List.mem_filter.1 hd'
      rw [hkept v.deploymentID ⟨d', hd', heq, by simpa using hp⟩] at hgone
      cases hgone
    · exact .inl ⟨v, List.mem_filter.2 ⟨hv, by simpa using hgone⟩, .refl v⟩
  · intro hw id
    constructor
    · rintro ⟨d, hd, rfl, hkind, hstate⟩
      obtain ⟨hd, hp⟩ := List.mem_filter.1 hd
      obtain ⟨v, hv, hid⟩ := List.mem_map.1 ((hw d.id).1 ⟨d, hd, rfl, hkind, hstate⟩)
      refine List.mem_map.2 ⟨v, List.mem_filter.2 ⟨hv, ?_⟩, hid⟩
      rw [hid, hkept d.id ⟨d, hd, rfl, by simpa using hp⟩]
      rfl
    · intro hid
      obtain ⟨v, hv, rfl⟩ := List.mem_map.1 hid
      obtain ⟨hv, hkeeps⟩ := List.mem_filter.1 hv
      obtain ⟨d, hd, heq, hkind, hstate⟩ := (hw v.deploymentID).2 (List.mem_map_of_mem hv)
      simp only [Bool.not_eq_true', List.any_eq_false, Bool.and_eq_true, decide_eq_true_eq,
        not_and] at hkeeps
      refine ⟨d, List.mem_filter.2 ⟨hd, ?_⟩, heq, hkind, hstate⟩
      cases hp : p d with
      | false => rfl
      | true => exact absurd heq (hkeeps d hd hp)

/-- A policy takes its runs with it; what names them forgets them. -/
theorem Shrinks.deletePolicies (p : UpdatePolicy → Bool) : Shrinks db (db.deletePolicies p) := by
  -- ids are kept, so both columns stay as they are
  have hids : (db.deletePolicies p).deployments.map Deployment.id = db.deployments.map Deployment.id :=
    List.map_map
  have hvalidations : (db.deletePolicies p).validations.map Validation.deploymentID =
      db.validations.map Validation.deploymentID := List.map_map
  refine ⟨⟨_, rfl⟩, ⟨_, rfl⟩, ?_, ⟨rfl, rfl⟩, hids ▸ .refl _, ?_, ?_, ?_, hvalidations ▸ .refl _, ?_⟩
  · intro hh r hr
    obtain ⟨hr, hstays⟩ := List.mem_filter.1 hr
    obtain ⟨q, hq, hid⟩ := hh r hr
    simp only [Bool.not_eq_true', List.any_eq_false, Bool.and_eq_true, decide_eq_true_eq,
      not_and] at hstays
    refine ⟨q, List.mem_filter.2 ⟨hq, ?_⟩, hid⟩
    cases hp : p q with
    | false => rfl
    | true => exact absurd hid (hstays q hq hp)
  · intro d' hd'
    obtain ⟨d, hd, rfl⟩ := List.mem_map.1 hd'
    refine ⟨d, hd, rfl, fun h => h, .inl, fun hne => .inl fun hnone => hne ?_⟩
    simp [hnone]
  · intro v' hv'
    obtain ⟨v, hv, rfl⟩ := List.mem_map.1 hv'
    exact ⟨v, hv, rfl, fun hnone => (by simp [hnone])⟩
  · intro v hv
    exact .inl ⟨_, List.mem_map_of_mem hv, rfl, fun hnone => (by simp [hnone])⟩
  · intro hw id
    have hrows : (db.deletePolicies p).Succeeded id ↔ db.Succeeded id := by
      constructor
      · rintro ⟨d', hd', hid, hkind, hstate⟩
        obtain ⟨d, hd, rfl⟩ := List.mem_map.1 hd'
        exact ⟨d, hd, hid, hkind, hstate⟩
      · rintro ⟨d, hd, hid, hkind, hstate⟩
        exact ⟨_, List.mem_map_of_mem hd, hid, hkind, hstate⟩
    rw [hrows, hw id, hvalidations]

theorem Shrinks.deleteApplication (hn : (db.deployments.map Deployment.id).Nodup) (id : String) :
    Shrinks db (db.deleteApplication id) := by
  have hpolicies : Shrinks db (db.deletePolicies (·.applicationID = id)) := .deletePolicies _
  have hrows := Shrinks.deleteDeployments (hn.sublist hpolicies.ids) (·.applicationID = id)
  exact (hpolicies.trans hrows).trans (.of_tables rfl rfl rfl rfl rfl)

/-- A transaction that only deletes. -/
theorem shrinks_of_exec (hn : (db.deployments.map Deployment.id).Nodup) {op : StoreOp} {now : Int}
    (h : op.exec now db = .ok db') (hop : ∀ o, op ≠ .lifecycle o) : Shrinks db db' := by
  apply StoreOp.deletes h hop
  · exact .of_tables rfl rfl rfl rfl rfl
  · exact fun _ p hx => hx.trans (.deletePolicies p)
  · exact fun _ p hx => hx.trans (.deleteDeployments (hn.sublist hx.ids) p)
  · exact fun _ id hx => hx.trans (.deleteApplication (hn.sublist hx.ids) id)

end Shrinking

/-! ## Every transaction -/

/-- What a transaction does to rows and validations: `fresh` are the ids it draws, `sends` the
deployments it sends and `forRun` the one it applies for a run. -/
structure Follows (now : Int) (fresh sends forRun : List String) (db db' : Db) : Prop where
  policies : ∃ q, db'.policies = db.policies.filter q
  runs : ∃ q, db'.runs = db.runs.filter q
  housed : db.Housed → db'.Housed
  audit : db'.runRows = db.runRows ∧ db'.pauseRows = db.pauseRows
  rows : ∀ d' ∈ db'.deployments, (∃ d ∈ db.deployments, d.Goes sends forRun d') ∨
    d'.id ∈ fresh ∧ d'.policyRunID = none ∧ d'.state ≠ .succeeded ∧
      (d'.state ≠ .planned → d'.id ∈ sends)
  back : ∀ v' ∈ db'.validations, (∃ v ∈ db.validations, v.Same v') ∨
    ∃ d ∈ db.deployments, d.state ≠ .succeeded ∧ v' = openedValidation d now db
  forth : ∀ v ∈ db.validations, (∃ v' ∈ db'.validations, v.Same v') ∨
    ∀ d' ∈ db'.deployments, d'.id ≠ v.deploymentID
  distinct : (db.validations.map Validation.deploymentID).Nodup →
    (db'.validations.map Validation.deploymentID).Nodup
  watched : Watched db'

section Following

variable {now : Int} {fresh sends forRun : List String} {db db' : Db}

theorem Shrinks.follows (h : Shrinks db db') (hw : Watched db) : Follows now fresh [] [] db db' :=
  ⟨h.policies, h.runs, h.housed, h.audit, fun d' hd' => .inl (h.rows d' hd'),
    fun v' hv' => .inl (h.back v' hv'), h.forth, fun hn => hn.sublist h.distinct, h.watched hw⟩

theorem Follows.of_tables (hw : Watched db) (policies : db'.policies = db.policies)
    (runs : db'.runs = db.runs) (deployments : db'.deployments = db.deployments)
    (validations : db'.validations = db.validations) (audit : db'.audit = db.audit) :
    Follows now fresh [] [] db db' :=
  (Shrinks.of_tables policies runs deployments validations audit).follows hw

/-- An outcome's audit row is about neither a run nor a pause. -/
theorem rows_of_audit {rows : List AuditRecord} (haudit : db'.audit = db.audit ++ rows)
    (hrows : ∀ a ∈ rows, ∃ kind : DeploymentKind, a.action = kind.action) :
    db'.runRows = db.runRows ∧ db'.pauseRows = db.pauseRows := by
  have hnone : ∀ action : AuditAction, (∀ kind : DeploymentKind, kind.action ≠ action) →
      (db'.audit.filter fun a => a.action = action) = db.audit.filter fun a => a.action = action := by
    intro action hne
    have hnil : (rows.filter fun a => a.action = action) = [] := by
      rw [List.filter_eq_nil_iff]
      intro a ha
      obtain ⟨kind, hkind⟩ := hrows a ha
      rw [hkind]
      simpa using hne kind
    rw [haudit, List.filter_append, hnil, List.append_nil]
  unfold Db.runRows Db.pauseRows
  rw [hnone, hnone]
  · exact ⟨rfl, rfl⟩
  · intro kind
    cases kind <;> simp [DeploymentKind.action]
  · intro kind
    cases kind <;> simp [DeploymentKind.action]

/-- Rows move, none of them to or from success. -/
theorem Follows.of_moved (hw : Watched db) {p : Deployment → Bool} {f : Deployment → Deployment}
    (policies : db'.policies = db.policies) (runs : db'.runs = db.runs)
    (validations : db'.validations = db.validations)
    (audit : db'.runRows = db.runRows ∧ db'.pauseRows = db.pauseRows)
    (rows : db'.deployments = Table.updateWhere p f db.deployments)
    (hf : ∀ d ∈ db.deployments, p d = true → d.Goes sends forRun (f d) ∧
      d.state ≠ .succeeded ∧ (f d).state ≠ .succeeded) : Follows now fresh sends forRun db db' := by
  refine ⟨⟨fun _ => true, ?_⟩, ⟨fun _ => true, ?_⟩, ?_, audit, ?_, ?_, ?_, ?_, ?_⟩
  · rw [policies, List.filter_true]
  · rw [runs, List.filter_true]
  · unfold Db.Housed
    rw [policies, runs]
    exact fun h => h
  · intro d' hd'
    rw [rows, Table.mem_updateWhere] at hd'
    obtain ⟨d, hd, rfl⟩ := hd'
    refine .inl ⟨d, hd, ?_⟩
    split
    · next hp => exact (hf d hd hp).1
    · exact .refl _ _ d
  · rw [validations]
    exact fun v hv => .inl ⟨v, hv, .refl v⟩
  · rw [validations]
    exact fun v hv => .inl ⟨v, hv, .refl v⟩
  · rw [validations]
    exact fun hn => hn
  · intro id
    rw [validations, ← hw id]
    constructor
    · rintro ⟨d', hd', hid, hkind, hstate⟩
      rw [rows, Table.mem_updateWhere] at hd'
      obtain ⟨d, hd, rfl⟩ := hd'
      by_cases hp : p d = true
      · rw [if_pos hp] at hstate
        exact absurd hstate (hf d hd hp).2.2
      · rw [if_neg hp] at hid hkind hstate
        exact ⟨d, hd, hid, hkind, hstate⟩
    · rintro ⟨d, hd, hid, hkind, hstate⟩
      refine ⟨d, ?_, hid, hkind, hstate⟩
      rw [rows, Table.mem_updateWhere]
      refine ⟨d, hd, ?_⟩
      by_cases hp : p d = true
      · exact absurd hstate (hf d hd hp).2.1
      · rw [if_neg hp]

/-- A row opens in the place of planned ones. -/
theorem Follows.of_opened (hn : (db.deployments.map Deployment.id).Nodup) (hw : Watched db)
    {d : Deployment} (hid : d.id ∈ fresh) (hrun : d.policyRunID = none)
    (hstate : d.state ≠ .succeeded) (hsends : d.state ≠ .planned → d.id ∈ sends)
    (h : db.Opened d db') : Follows now fresh sends forRun db db' := by
  obtain ⟨p, hplanned, -, rfl⟩ := h
  have hshrinks := Shrinks.deleteDeployments hn p
  -- a planned row has no validation, so all validations stay
  have hstays : ∀ v ∈ db.validations, v ∈ (db.deleteDeployments p).validations := by
    intro v hv
    obtain ⟨e, he, heq, -, hsucceeded⟩ := (hw v.deploymentID).2 (List.mem_map_of_mem hv)
    refine List.mem_filter.2 ⟨hv, ?_⟩
    rw [Bool.not_eq_true', List.any_eq_false]
    intro e' he'
    rw [Bool.and_eq_true, decide_eq_true_eq]
    rintro ⟨hp, heq'⟩
    rw [List.inj_on_of_nodup_map hn he' he (heq'.trans heq.symm)] at hp
    rw [(hplanned e he hp).2] at hsucceeded
    cases hsucceeded
  refine ⟨hshrinks.policies, hshrinks.runs, hshrinks.housed, hshrinks.audit, ?_,
    fun v hv => .inl (hshrinks.back v hv),
    fun v hv => .inl ⟨v, hstays v hv, .refl v⟩, fun hn => hn.sublist hshrinks.distinct, ?_⟩
  · intro d' hd'
    rcases Table.mem_concat.1 hd' with hd' | rfl
    · exact .inl ⟨d', (List.mem_filter.1 hd').1, .refl _ _ d'⟩
    · exact .inr ⟨hid, hrun, hstate, hsends⟩
  · intro id
    rw [← hshrinks.watched hw id]
    constructor
    · rintro ⟨e, he, heq⟩
      rcases Table.mem_concat.1 he with he | rfl
      · exact ⟨e, he, heq⟩
      · exact absurd heq.2.2 hstate
    · rintro ⟨e, he, heq⟩
      exact ⟨e, List.mem_append_left _ he, heq⟩

section Settling

variable {d : Deployment} {res : DeploymentResult} {o : Outcome} {st : DeploymentState}

/-- The settled row takes its state, every other one keeps its own. -/
theorem afterSettle_state (hn : (db.deployments.map Deployment.id).Nodup) (hd : d ∈ db.deployments)
    (hst : outcomeState? o = some st) (res : DeploymentResult) (now : Int) :
    ∀ e ∈ db.deployments, (e = d ∧ (d.afterSettle res st now e).state = st) ∨
      (e.id ≠ d.id ∧ (d.afterSettle res st now e).state = e.state) := by
  intro e he
  rcases afterSettle_cases res now hst e with ⟨hid, heq⟩ | ⟨hid, heq | ⟨-, heq⟩⟩
  · exact .inl ⟨List.inj_on_of_nodup_map hn he hd hid, by rw [heq]; rfl⟩
  · exact .inr ⟨hid, by rw [heq]⟩
  · exact .inr ⟨hid, by rw [heq]⟩

/-- What a result adds to the succeeded applies. -/
theorem Settled.succeeded_iff (hn : (db.deployments.map Deployment.id).Nodup)
    (hd : d ∈ db.deployments) (hst : outcomeState? o = some st) (hstate : d.state ≠ .succeeded)
    (h : Settled d res o st now db db') (id : String) :
    db'.Succeeded id ↔ db.Succeeded id ∨ (id = d.id ∧ d.kind = .apply ∧ st = .succeeded) := by
  have hrow := afterSettle_state hn hd hst res now
  have hsames : ∀ e : Deployment, e.Same (d.afterSettle res st now e) := afterSettle_same
  unfold Db.Succeeded
  rw [h.rows]
  constructor
  · rintro ⟨e', he', rfl, hkind, hs⟩
    obtain ⟨e, he, rfl⟩ := List.mem_map.1 he'
    obtain ⟨hsame, -, -, -, hkind', -⟩ := hsames e
    rcases hrow e he with ⟨rfl, hes⟩ | ⟨-, hes⟩
    · exact .inr ⟨hsame, hkind' ▸ hkind, hes ▸ hs⟩
    · exact .inl ⟨e, he, hsame.symm, hkind' ▸ hkind, hes ▸ hs⟩
  · rintro (⟨e, he, rfl, hkind, hs⟩ | ⟨rfl, hkind, hs⟩)
    · obtain ⟨hsame, -, -, -, hkind', -⟩ := hsames e
      refine ⟨_, List.mem_map_of_mem he, hsame, hkind'.trans hkind, ?_⟩
      rcases hrow e he with ⟨rfl, -⟩ | ⟨-, hes⟩
      · exact absurd hs hstate
      · exact hes.trans hs
    · obtain ⟨hsame, -, -, -, hkind', -⟩ := hsames d
      refine ⟨_, List.mem_map_of_mem hd, hsame, hkind'.trans hkind, ?_⟩
      rcases hrow d hd with ⟨-, hes⟩ | ⟨hne, -⟩
      · exact hes.trans hs
      · exact absurd rfl hne

end Settling

/-- A succeeded apply opens its validation. -/
theorem Follows.of_settled (hn : (db.deployments.map Deployment.id).Nodup) (hw : Watched db)
    {d : Deployment} {res : DeploymentResult} {o : Outcome} {st : DeploymentState}
    (hd : d ∈ db.deployments) (hst : outcomeState? o = some st) (hopen : db.settleable d = true)
    (h : Settled d res o st now db db') : Follows now fresh [] [] db db' := by
  have hstate : d.state ≠ .succeeded ∧ d.state ≠ .planned := by
    rcases state_of_settleable hopen with hs | hs <;> simp [hs]
  have haudit : db'.runRows = db.runRows ∧ db'.pauseRows = db.pauseRows := by
    refine rows_of_audit h.audit ?_
    intro a ha
    obtain rfl := List.mem_singleton.1 ha
    exact ⟨d.kind, rfl⟩
  have hrow := afterSettle_state hn hd hst res now
  have hrun : ∀ e : Deployment, (d.afterSettle res st now e).policyRunID = e.policyRunID := by
    intro e
    rcases afterSettle_cases res now hst e with ⟨-, heq⟩ | ⟨-, heq | ⟨-, heq⟩⟩ <;> rw [heq]
    rfl
  refine ⟨⟨fun _ => true, ?_⟩, ⟨fun _ => true, ?_⟩, ?_, haudit, ?_, ?_, ?_, ?_, ?_⟩
  · rw [h.policies, List.filter_true]
  · rw [h.runs, List.filter_true]
  · unfold Db.Housed
    rw [h.policies, h.runs]
    exact fun h => h
  · intro e' he'
    rw [h.rows] at he'
    obtain ⟨e, he, rfl⟩ := List.mem_map.1 he'
    refine .inl ⟨e, he, (afterSettle_same e).1, ?_, ?_, ?_⟩
    · intro hs
      rcases hrow e he with ⟨rfl, -⟩ | ⟨-, hes⟩
      · exact absurd hs hstate.1
      · exact hes.trans hs
    · intro hne
      rcases hrow e he with ⟨rfl, -⟩ | ⟨-, hes⟩
      · exact .inl hstate.2
      · exact .inl (hes ▸ hne)
    · intro hne
      exact .inl (hrun e ▸ hne)
  · intro v' hv'
    rw [h.validations] at hv'
    split at hv'
    · rcases Table.mem_concat.1 hv' with hv' | hv'
      · exact .inl ⟨v', hv', .refl v'⟩
      · exact .inr ⟨d, hd, hstate.1, hv'⟩
    · exact .inl ⟨v', hv', .refl v'⟩
  · intro v hv
    refine .inl ⟨v, ?_, .refl v⟩
    rw [h.validations]
    split
    · exact List.mem_append_left _ hv
    · exact hv
  · intro hdistinct
    rw [h.validations]
    split
    · next hs =>
      have hnone := h.unvalidated hs.1 hs.2
      rw [Db.validation?, Table.find_eq_none_iff] at hnone
      exact Table.nodup_concat hdistinct hnone
    · exact hdistinct
  · intro id
    rw [h.succeeded_iff hn hd hst hstate.1, hw id, h.validations]
    by_cases hs : st = .succeeded ∧ d.kind = .apply
    · simp [hs, openedValidation]
    · rw [if_neg hs]
      simp only [or_iff_left_iff_imp]
      rintro ⟨-, hkind, hst'⟩
      exact absurd ⟨hst', hkind⟩ hs

/-- A system transition leaves successes alone. -/
theorem Follows.of_transition (hw : Watched db) {p : Deployment → Bool}
    {set : Deployment → Deployment} {outcome : String} {result : AuditResult}
    (hset : ∀ d ∈ db.deployments, p d = true → (d.state = .applying ∨ d.state = .unknown) ∧
      ((set d).state = .unknown ∨ (set d).state = .failed) ∧ (set d).id = d.id ∧
      (set d).policyRunID = d.policyRunID) :
    Follows now fresh [] [] db (systemTransition p set outcome result now db) := by
  refine .of_moved hw rfl rfl rfl (rows_of_audit rfl ?_) rfl ?_
  · intro a ha
    obtain ⟨d, -, rfl⟩ := List.mem_map.1 ha
    exact ⟨d.kind, rfl⟩
  · intro d hd hp
    obtain ⟨hold, hnew, hid, hrun⟩ := hset d hd hp
    have hgone : d.state ≠ .succeeded ∧ d.state ≠ .planned := by
      rcases hold with hs | hs <;> simp [hs]
    refine ⟨⟨hid, fun hs => absurd hs hgone.1, fun _ => .inl hgone.2, fun hne => .inl (hrun ▸ hne)⟩,
      hgone.1, ?_⟩
    rcases hnew with hs | hs <;> simp [hs]

theorem Follows.of_apply (hw : Watched db) {app id confirm : String}
    {guard : Option PolicyGuard} {c : ApplyContext}
    (h : applyDeployment app id confirm guard c now db = .ok db') :
    Follows now fresh [id] (if (guard.bind PolicyGuard.run).isSome then [id] else []) db db' := by
  obtain ⟨d, i, hd, -, -, -, hstate, -, -, -, -, -, rfl⟩ := applyDeployment_ok h
  refine .of_moved hw rfl rfl rfl ⟨rfl, rfl⟩ rfl ?_
  intro e he hp
  simp only [Bool.and_eq_true, decide_eq_true_eq] at hp
  refine ⟨⟨rfl, ?_, ?_, ?_⟩, by simp [hp.2], by simp [Deployment.started]⟩
  · intro hs
    rw [hp.2] at hs
    cases hs
  · exact fun _ => .inr (by simp [hp.1])
  · intro hne
    have hsome : (guard.bind PolicyGuard.run).isSome = true := Option.isSome_iff_ne_none.2 hne
    exact .inr (by rw [if_pos hsome]; simp [hp.1])

theorem Follows.of_refuse (hw : Watched db) (hn : (db.deployments.map Deployment.id).Nodup)
    {endpointID id detail : String}
    (h : refuseDeploymentResult endpointID id detail now db = .ok db') :
    Follows now fresh [] [] db db' := by
  obtain ⟨d, hd, -, hsettle, rfl | rfl⟩ := refuseDeploymentResult_ok h
  · exact .of_tables hw rfl rfl rfl rfl rfl
  refine .of_moved hw rfl rfl rfl (rows_of_audit rfl ?_) rfl ?_
  · intro a ha
    obtain rfl := List.mem_singleton.1 ha
    exact ⟨d.kind, rfl⟩
  · intro e he hp
    have hid : e.id = d.id := by
      rw [Table.key_of_find _ hd]
      simpa using hp
    obtain rfl : e = d := List.inj_on_of_nodup_map hn he (Table.mem_of_find _ hd) hid
    have hgone : e.state ≠ .succeeded ∧ e.state ≠ .planned := by
      rcases state_of_settleable hsettle with hs | hs <;> simp [hs]
    exact ⟨⟨rfl, fun hs => absurd hs hgone.1, fun _ => .inl hgone.2, .inl⟩, hgone.1,
      by simp [Deployment.lost]⟩

theorem follows_of_lifecycle (hn : (db.deployments.map Deployment.id).Nodup) (hw : Watched db)
    {op : LifecycleOp} (hspares : (StoreOp.lifecycle op).sparesPolicies db = true)
    (h : op.exec now db = .ok db') :
    Follows now op.fresh (StoreOp.lifecycle op).sends (StoreOp.lifecycle op).forRun db db' := by
  cases op with
  | createApplication =>
    obtain rfl := createApplication_ok h
    exact .of_tables hw rfl rfl rfl rfl rfl
  | appendApplicationRevision =>
    obtain ⟨spec', rfl⟩ := appendApplicationRevision_ok h
    exact .of_tables hw rfl rfl rfl rfl rfl
  | adoptApplication =>
    obtain ⟨i, rs, -, -, -, -, rfl⟩ := adoptApplication_ok h
    exact .of_tables hw rfl rfl rfl rfl rfl
  | mapKubernetes =>
    rcases mapKubernetes_ok h with ⟨i, -, -, -, rfl⟩ | ⟨a, i, -, -, -, -, -, rfl⟩
    · exact .of_tables hw rfl rfl rfl rfl rfl
    · exact .of_tables hw rfl rfl rfl rfl rfl
  | setApplicationMapping =>
    obtain ⟨a, i, -, -, -, -, -, rfl⟩ := setApplicationMapping_ok h
    exact .of_tables hw rfl rfl rfl rfl rfl
  | releaseApplication app id =>
    obtain ⟨-, -, rfl⟩ := releaseApplication_ok h
    have hrows := Shrinks.deleteDeployments hn fun d =>
      d.applicationID = app && d.instanceID = id && d.state = .planned
    refine Shrinks.follows (hrows.trans ?_) hw
    exact .of_tables rfl rfl rfl rfl rfl
  | planDeployment =>
    obtain ⟨a, i, rev, -, -, -, -, -, hopen⟩ := planDeployment_ok hn h
    exact .of_opened hn hw (by simp [plannedRow, LifecycleOp.fresh]) rfl (by simp [plannedRow])
      (fun hne => absurd rfl hne) hopen
  | applyDeployment => exact .of_apply hw h
  | failDeployment =>
    obtain rfl := Except.ok.inj h
    refine .of_transition hw ?_
    intro d _ hp
    simp only [Bool.and_eq_true, Bool.or_eq_true, decide_eq_true_eq] at hp
    exact ⟨hp.2, .inr rfl, rfl, rfl⟩
  | abandonDeployments =>
    obtain rfl := Except.ok.inj h
    refine .of_transition hw ?_
    intro d _ hp
    simp only [Bool.and_eq_true, decide_eq_true_eq] at hp
    exact ⟨.inl hp.2, .inl rfl, rfl, rfl⟩
  | sweepDeployments =>
    obtain rfl := Except.ok.inj h
    refine .of_transition hw ?_
    intro d _ hp
    simp only [Bool.and_eq_true, decide_eq_true_eq] at hp
    exact ⟨.inl hp.1, .inl rfl, rfl, rfl⟩
  | settleDeployment =>
    obtain ⟨d, o, st, -, hst, -, hd, -, hsettle, htables⟩ := settleDeployment_ok h
    exact .of_settled hn hw (Table.mem_of_find _ hd) hst hsettle htables
  | refuseDeploymentResult => exact .of_refuse hw hn h
  | removeApplication =>
    obtain ⟨a, i, plan, -, -, -, -, -, -, hopen⟩ := removeApplication_ok h
    exact .of_opened hn hw (by simp [removalRow, LifecycleOp.fresh]) rfl (by simp [removalRow])
      (fun _ => by simp [removalRow, StoreOp.sends]) hopen
  | other =>
    obtain rfl := Except.ok.inj h
    simp only [StoreOp.sparesPolicies, Bool.and_eq_true, decide_eq_true_eq] at hspares
    obtain ⟨⟨⟨rfl, rfl⟩, rfl⟩, rfl⟩ := hspares
    exact .of_tables hw rfl rfl rfl rfl rfl

/-- Every transaction of users, agents and retention. -/
theorem follows_of_exec (hn : (db.deployments.map Deployment.id).Nodup) (hw : Watched db)
    {op : StoreOp} (hspares : op.sparesPolicies db = true) (h : op.exec now db = .ok db') :
    Follows now op.fresh op.sends op.forRun db db' := by
  cases op with
  | lifecycle => exact follows_of_lifecycle hn hw hspares h
  | _ => exact (shrinks_of_exec hn h nofun).follows hw

end Following

end KyYard.Store
