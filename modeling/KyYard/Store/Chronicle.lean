import KyYard.Store.Episodes
import KyYard.Store.Resend

/-!
# A chronicle of the applies that succeeded

Retention deletes rows, so what happened is not what the tables show. A `Chronicle` runs the server
and writes down each apply as it succeeds, with the revision its instance ran until then. The row of
an instance's last success is always there, and so is the one before a success whose rollback is not
decided (`Told`), in every reachable state (`told_of_steps`).
-/

namespace KyYard.Store

open Foundation Protocol

/-! ## The chronicle -/

/-- An apply that succeeded, as its row was then, and the revision its instance ran before. -/
structure Success where
  row : Deployment
  before : Nat

/-- When it succeeded. -/
def Success.at (x : Success) : Int := x.row.settledAt.getD 0

/-- The server and its applies that succeeded, the last one first. -/
structure Chronicle where
  auto : Automation
  successes : List Success

namespace Chronicle

def new : Chronicle := ⟨.new, []⟩

def db (c : Chronicle) : Db := c.auto.server.db

/-- The applies that succeeded between two states of the tables. -/
def wins (db db' : Db) : List Deployment :=
  db'.deployments.filter fun d => d.kind = .apply && d.state = .succeeded &&
    !db.deployments.any fun e => e.id = d.id && e.state = .succeeded

/-- The revision an instance runs. -/
def currentRevision (db : Db) (instanceID : String) : Nat :=
  ((db.instance? instanceID).map Instance.currentRevision).getD 0

/-- The server took a step. -/
def extend (c : Chronicle) (auto : Automation) : Chronicle :=
  ⟨auto, (wins c.db auto.server.db).map (fun d => ⟨d, currentRevision c.db d.instanceID⟩) ++
    c.successes⟩

/-- The last success of an instance. -/
def last? (c : Chronicle) (instanceID : String) : Option Success :=
  c.successes.find? fun x => x.row.instanceID = instanceID

/-- The apply of the same instance that succeeded last before another one. -/
def prior? (c : Chronicle) (x : Success) : Option Success :=
  c.successes.find? fun y => y.row.instanceID = x.row.instanceID && y.at < x.at

end Chronicle

/-- The server under every step, with its chronicle. -/
def chronicle : Machine Chronicle (Int × AutomationOp) (Option StoreError) where
  step op c := (automation.step op c.auto).map c.extend

/-! ## What the tables keep of it -/

/-- The last success of an instance is the one it runs, and its row is there. -/
structure Chronicle.Runs (c : Chronicle) (i : Instance) (x : Success) : Prop where
  row : ∃ d ∈ c.db.deployments, d.id = x.row.id
  current : i.currentRevision = x.row.revision
  previous : i.previousRevision = x.before

/-- What holds of the tables and the chronicle in every reachable state. -/
structure Chronicle.Told (c : Chronicle) : Prop where
  inv : c.auto.Inv
  unsettled : ∀ d ∈ c.db.deployments, d.state.live = true → d.settledAt = none
  settled : ∀ x ∈ c.successes, x.row.kind = .apply ∧ x.row.state = .succeeded ∧
    ∃ t ≤ c.auto.server.clock, x.row.settledAt = some t
  known : ∀ x ∈ c.successes, x.row.id ∈ c.auto.server.used ∧
    x.row.instanceID ∈ c.auto.server.used
  order : c.successes.Pairwise fun x y => y.at < x.at
  entry : ∀ x ∈ c.successes, ∀ d ∈ c.db.deployments, d.id = x.row.id →
    d = { x.row with policyRunID := d.policyRunID }
  told : ∀ d ∈ c.db.deployments, d.kind = .apply → d.state = .succeeded →
    ∃ x ∈ c.successes, x.row.id = d.id
  owners : ∀ x ∈ c.successes, ∀ i ∈ c.db.instances, i.id = x.row.instanceID →
    i.applicationID = x.row.applicationID
  shared : ∀ x ∈ c.successes, ∀ y ∈ c.successes, x.row.instanceID = y.row.instanceID →
    x.row.applicationID = y.row.applicationID
  fresh : ∀ i ∈ c.db.instances, c.last? i.id = none →
    i.currentRevision = 0 ∧ i.previousRevision = 0
  latest : ∀ i ∈ c.db.instances, ∀ x, c.last? i.id = some x → c.Runs i x
  homes : ∀ v ∈ c.db.validations, ∃ x ∈ c.successes, x.row.id = v.deploymentID ∧
    v.instanceID = x.row.instanceID ∧ v.applicationID = x.row.applicationID
  prior : ∀ v ∈ c.db.validations, v.rollbackOpen = true → ∀ x ∈ c.successes,
    x.row.id = v.deploymentID → ∀ y, c.prior? x = some y →
    ∃ p ∈ c.db.deployments, p.id = y.row.id

/-! ## Rows that stay -/

section Rows

variable {now clock : Int} {fresh used : List String} {ledger : Ledger} {db db' : Db}

/-- A validation stays where it is, and a decided one stays decided. -/
def Validation.Shuts (v v' : Validation) : Prop :=
  v'.deploymentID = v.deploymentID ∧ v'.instanceID = v.instanceID ∧
    v'.applicationID = v.applicationID ∧ (v'.rollbackOpen = true → v.rollbackOpen = true)

theorem rollbackOpen_iff {v : Validation} : v.rollbackOpen = true ↔ v.automated = true ∧
    v.isRollback = false ∧ v.policyRunID ≠ none ∧ v.rollbackOutcome = none ∧
    (v.phase ≠ .done ∨ v.verdict.any Verdict.rollback = true) := by
  simp [Validation.rollbackOpen, and_assoc, Option.isSome_iff_ne_none]

theorem Validation.Same.shuts {v v' : Validation} (h : v.Same v') : v.Shuts v' := by
  obtain ⟨heq, hrun⟩ := h
  refine ⟨by rw [heq], by rw [heq], by rw [heq], fun hopen => ?_⟩
  rw [rollbackOpen_iff] at hopen ⊢
  obtain ⟨hauto, hroll, hsome, hnone, hphase⟩ := hopen
  rw [heq] at hauto hroll hnone hphase
  exact ⟨hauto, hroll, fun hc => hsome (hrun hc), hnone, hphase⟩

/-- A verdict ends a validation and stays. -/
theorem Validation.Later.shuts {v v' : Validation} (h : v.Later v') (hhome : v.SameHome v')
    (hrec : v.Recorded ledger) (hrec' : v'.Recorded ledger) : v.Shuts v' := by
  obtain ⟨hid, hauto, hroll, hverdict, -, houtcome⟩ := h
  refine ⟨hid, hhome.2.1, hhome.2.2, fun hopen => ?_⟩
  rw [rollbackOpen_iff] at hopen ⊢
  obtain ⟨hauto', hroll', hsome, hnone, hphase⟩ := hopen
  refine ⟨hauto ▸ hauto', hroll ▸ hroll', hhome.1 ▸ hsome, ?_, ?_⟩
  · cases ho : v.rollbackOutcome with
    | none => rfl
    | some x =>
      rw [houtcome x ho] at hnone
      cases hnone
  · by_cases hdone : v.phase = .done
    · obtain ⟨x, hx⟩ := Option.ne_none_iff_exists'.1 (hrec.done hdone)
      have hx' := hverdict x hx
      rcases hphase with hphase | hphase
      · exact absurd (hrec'.verdict (by simp [hx'])) hphase
      · rw [hx'] at hphase
        exact .inr (hx ▸ hphase)
    · exact .inl hdone

theorem Aside.shuts (h : Aside ledger db db') :
    ∀ v' ∈ db'.validations, ∃ v ∈ db.validations, v.Shuts v' := by
  intro v' hv'
  obtain ⟨v, hv, hlater, hhome, hrec, hrec'⟩ := h.validations v' hv'
  exact ⟨v, hv, hlater.shuts hhome hrec hrec'⟩

/-- A row past its plan stays, or its application has no row any more. -/
def Db.StaysOrGone (db db' : Db) : Prop :=
  ∀ d ∈ db.deployments, d.state ≠ .planned →
    (∃ d' ∈ db'.deployments, d'.id = d.id ∧ d'.state ≠ .planned ∧
      d'.applicationID = d.applicationID) ∨
    ∀ d' ∈ db'.deployments, d'.applicationID ≠ d.applicationID

theorem Db.StaysOrGone.deleteApplication (id : String) : db.StaysOrGone (db.deleteApplication id) := by
  intro d hd hacted
  by_cases happ : d.applicationID = id
  · refine .inr fun d' hd' => ?_
    have hne := (List.mem_filter.1 hd').2
    rw [happ]
    simpa using hne
  · exact .inl ⟨_, List.mem_filter.2 ⟨List.mem_map_of_mem hd, by simpa using happ⟩, rfl, hacted, rfl⟩

theorem Db.StaysOrGone.deleteApplications (ids : List String) :
    db.StaysOrGone (ids.foldl (fun db id => db.deleteApplication id) db) := by
  induction ids generalizing db with
  | nil => exact fun d hd hacted => .inl ⟨d, hd, rfl, hacted, rfl⟩
  | cons id ids ih =>
    intro d hd hacted
    rcases Db.StaysOrGone.deleteApplication id d hd hacted with ⟨d₁, hd₁, hid, hacted₁, happ⟩ | hgone
    · rcases ih d₁ hd₁ hacted₁ with ⟨d', hd', hid', hacted', happ'⟩ | hgone
      · exact .inl ⟨d', hd', hid'.trans hid, hacted', happ'.trans happ⟩
      · exact .inr (happ ▸ hgone)
    · -- no row comes back
      refine .inr fun d' hd' happ' => ?_
      rcases (Quiet.deleteApplications ids).rows d' hd' with ⟨d₁, hd₁, htr⟩ | ⟨hnew, -⟩
      · exact hgone d₁ hd₁ (htr.same.2.1.symm.trans happ')
      · cases hnew

theorem staysOrGone_of_exec (hs : Sound clock used db) {op : StoreOp}
    (hop : ∀ batch, op ≠ .pruneDeployments batch) (h : op.exec now db = .ok db') :
    db.StaysOrGone db' := by
  cases op with
  | lifecycle =>
    intro d hd hacted
    obtain ⟨d', hd', hsame, hacted', -⟩ := hs.keeps (change_of_exec hs.ids h) d hd hacted
    exact .inl ⟨d', hd', hsame.1, hacted', hsame.2.1⟩
  | discardApplication app =>
    obtain ⟨-, rfl⟩ := discardApplication_ok h
    exact .deleteApplication app
  | deletePolicies =>
    obtain rfl := Except.ok.inj h
    exact fun d hd hacted => .inl ⟨_, List.mem_map_of_mem hd, rfl, hacted, rfl⟩
  | pruneDeployments batch => exact absurd rfl (hop batch)
  | pruneRemovedApplications =>
    obtain rfl := Except.ok.inj h
    exact .deleteApplications _

end Rows

namespace Chronicle

variable {c : Chronicle} {a : Automation} {fresh : List String}

theorem Told.new : Chronicle.new.Told := by
  refine ⟨Automation.inv_new, ?_, ?_, ?_, List.Pairwise.nil, ?_, ?_, ?_, ?_, ?_, ?_, ?_, ?_⟩
  all_goals
    intro x hx
    cases hx

theorem last?_mem {id : String} {x : Success} (h : c.last? id = some x) :
    x ∈ c.successes ∧ x.row.instanceID = id :=
  ⟨List.mem_of_find?_eq_some h, by simpa using List.find?_some h⟩

theorem prior?_mem {x y : Success} (h : c.prior? x = some y) :
    y ∈ c.successes ∧ y.row.instanceID = x.row.instanceID ∧ y.at < x.at := by
  have hp := List.find?_some h
  simp only [Bool.and_eq_true, decide_eq_true_eq] at hp
  exact ⟨List.mem_of_find?_eq_some h, hp⟩

/-- Where no apply succeeds, nothing is written down. -/
theorem wins_quiet {db db' : Db} (h : Quiet fresh db db') : wins db db' = [] := by
  rw [wins, List.filter_eq_nil_iff]
  intro d' hd' hwin
  simp only [Bool.and_eq_true, decide_eq_true_eq, Bool.not_eq_true', List.any_eq_false,
    not_and] at hwin
  obtain ⟨⟨hkind, hstate⟩, hnew⟩ := hwin
  rcases h.rows d' hd' with ⟨d, hd, htr⟩ | ⟨-, hlive, -⟩
  · exact hnew d hd htr.same.1.symm (htr.succeeded hkind hstate)
  · rw [hstate] at hlive
    cases hlive

theorem extend_quiet (h : Quiet fresh c.db a.server.db) : c.extend a = ⟨a, c.successes⟩ := by
  rw [extend, wins_quiet h]
  rfl

/-- The rows an instance or an open rollback needs are still there. -/
structure Spared (c : Chronicle) (db' : Db) : Prop where
  latest : ∀ i' ∈ db'.instances, ∀ x, c.last? i'.id = some x →
    (∃ d ∈ c.db.deployments, d.id = x.row.id) → ∃ d' ∈ db'.deployments, d'.id = x.row.id
  prior : ∀ v' ∈ db'.validations, v'.rollbackOpen = true → ∀ y ∈ c.successes,
    y.row.instanceID = v'.instanceID → (∃ p ∈ c.db.deployments, p.id = y.row.id) →
    ∃ p' ∈ db'.deployments, p'.id = y.row.id

/-- The entry of a validated deployment is of the validation's instance. -/
theorem Told.instance_eq (h : c.Told) {v : Validation} (hv : v ∈ c.db.validations) {x : Success}
    (hx : x ∈ c.successes) (hid : x.row.id = v.deploymentID) : x.row.instanceID = v.instanceID := by
  obtain ⟨d, hd, hdid, -⟩ := (h.inv.watched v.deploymentID).2 (List.mem_map_of_mem hv)
  obtain ⟨x₀, hx₀, hid₀, hinst, -⟩ := h.homes v hv
  -- both entries are that of the one row
  have heq := congrArg Deployment.instanceID (h.entry x hx d hd (hdid.trans hid.symm))
  have heq₀ := congrArg Deployment.instanceID (h.entry x₀ hx₀ d hd (hdid.trans hid₀.symm))
  exact heq.symm.trans (heq₀.trans hinst.symm)

theorem Told.quiet (h : c.Told) (hinv : a.Inv) (hquiet : Quiet fresh c.db a.server.db)
    (hfresh : ∀ id ∈ fresh, id ∉ c.auto.server.used)
    (hclock : c.auto.server.clock ≤ a.server.clock) (hused : a.server.used = fresh ++ c.auto.server.used)
    (hshuts : ∀ v' ∈ a.server.db.validations, ∃ v ∈ c.db.validations, v.Shuts v')
    (hspared : c.Spared a.server.db) : (c.extend a).Told := by
  rw [extend_quiet hquiet]
  refine ⟨hinv, ?_, ?_, ?_, h.order, ?_, ?_, ?_, h.shared, ?_, ?_, ?_, ?_⟩
  · intro d' hd' hlive
    rcases hquiet.rows d' hd' with ⟨d, hd, htr⟩ | ⟨-, -, hnone⟩
    · obtain ⟨hlive, hsettled⟩ := htr.live hlive
      rw [hsettled]
      exact h.unsettled d hd hlive
    · exact hnone
  · intro x hx
    obtain ⟨hkind, hstate, t, ht, hsettled⟩ := h.settled x hx
    exact ⟨hkind, hstate, t, ht.trans hclock, hsettled⟩
  · intro x hx
    obtain ⟨hid, hinst⟩ := h.known x hx
    simp only [hused]
    exact ⟨List.mem_append_right _ hid, List.mem_append_right _ hinst⟩
  · intro x hx d' hd' hid
    rcases hquiet.rows d' hd' with ⟨d, hd, htr⟩ | ⟨hnew, -⟩
    · have hd₀ := h.entry x hx d hd (htr.same.1.symm.trans hid)
      have hterm : d.state.terminal = true := by
        rw [hd₀]
        simp [(h.settled x hx).2.1, DeploymentState.terminal]
      rw [htr.closed hterm, hd₀]
    · exact absurd (h.known x hx).1 (hfresh _ (hid ▸ hnew))
  · intro d' hd' hkind hstate
    rcases hquiet.rows d' hd' with ⟨d, hd, htr⟩ | ⟨-, hlive, -⟩
    · obtain ⟨x, hx, hid⟩ := h.told d hd (htr.same.2.2.2.2.1 ▸ hkind) (htr.succeeded hkind hstate)
      exact ⟨x, hx, hid.trans htr.same.1.symm⟩
    · rw [hstate] at hlive
      cases hlive
  · intro x hx i' hi' hid
    rcases hquiet.instances i' hi' with ⟨i, hi, hsame⟩ | ⟨hnew, -⟩
    · exact hsame.application.trans (h.owners x hx i hi (hsame.id.symm.trans hid))
    · exact absurd (h.known x hx).2 (hfresh _ (hid ▸ hnew))
  · intro i' hi' hnone
    rcases hquiet.instances i' hi' with ⟨i, hi, hsame⟩ | ⟨-, hcurrent, hprevious⟩
    · obtain ⟨hcurrent, hprevious⟩ := h.fresh i hi (hsame.id ▸ hnone)
      exact ⟨hsame.current.trans hcurrent, hsame.previous.trans hprevious⟩
    · exact ⟨hcurrent, hprevious⟩
  · intro i' hi' x hx
    rcases hquiet.instances i' hi' with ⟨i, hi, hsame⟩ | ⟨hnew, -⟩
    · obtain ⟨hrow, hcurrent, hprevious⟩ := h.latest i hi x (hsame.id ▸ hx)
      exact ⟨hspared.latest i' hi' x hx hrow, hsame.current.trans hcurrent,
        hsame.previous.trans hprevious⟩
    · obtain ⟨hmem, hid⟩ := last?_mem hx
      exact absurd (h.known x hmem).2 (hfresh _ (hid ▸ hnew))
  · intro v' hv'
    obtain ⟨v, hv, hid, hinst, happ, -⟩ := hshuts v' hv'
    obtain ⟨x, hx, hxid, hxinst, hxapp⟩ := h.homes v hv
    exact ⟨x, hx, hxid.trans hid.symm, hinst.trans hxinst, happ.trans hxapp⟩
  · intro v' hv' hopen x hx hxid y hy
    obtain ⟨v, hv, hid, hinst, -, hshut⟩ := hshuts v' hv'
    have hvx : x.row.instanceID = v.instanceID := h.instance_eq hv hx (hxid.trans hid)
    obtain ⟨hymem, hyinst, -⟩ := prior?_mem hy
    refine hspared.prior v' hv' hopen y hymem (hyinst.trans (hvx.trans hinst.symm)) ?_
    exact h.prior v hv (hshut hopen) x hx (hxid.trans hid) y hy

/-! ### A success -/

section Won

variable {now : Int} {d : Deployment} {res : DeploymentResult}

/-- The row that succeeded, and the others as they were but for newer plans, which expire. -/
theorem won_rows (hs : Sound c.auto.server.clock c.auto.server.used c.db)
    (hw : Succeeds now d res c.db a.server.db) {d' : Deployment} (hd' : d' ∈ a.server.db.deployments) :
    d' = d.settled .succeeded res now ∨ ∃ e ∈ c.db.deployments, e.id ≠ d.id ∧
      (d' = e ∨ e.state = .planned ∧ d' = { e with expiresAt := now }) := by
  rw [hw.tables.rows, List.mem_map] at hd'
  obtain ⟨e, he, rfl⟩ := hd'
  rcases afterSettle_cases (o := .succeeded) res now rfl e with ⟨hid, heq⟩ | ⟨hne, hcase⟩
  · obtain rfl := List.inj_on_of_nodup_map hs.ids he hw.mem hid
    exact .inl heq
  · exact .inr ⟨e, he, hne, hcase⟩

theorem won_row (hw : Succeeds now d res c.db a.server.db) :
    d.settled .succeeded res now ∈ a.server.db.deployments := by
  rw [hw.tables.rows, List.mem_map]
  refine ⟨d, hw.mem, ?_⟩
  rcases afterSettle_cases (o := .succeeded) res now rfl d with ⟨-, heq⟩ | ⟨hne, -⟩
  · exact heq
  · exact absurd rfl hne

/-- Every row stays. -/
theorem won_stays (hw : Succeeds now d res c.db a.server.db) {id : String}
    (h : ∃ e ∈ c.db.deployments, e.id = id) : ∃ e' ∈ a.server.db.deployments, e'.id = id := by
  obtain ⟨e, he, rfl⟩ := h
  rw [hw.tables.rows]
  exact ⟨_, List.mem_map_of_mem he, (afterSettle_same e).1⟩

theorem wins_won (hs : Sound c.auto.server.clock c.auto.server.used c.db) (hinv : a.Inv)
    (hw : Succeeds now d res c.db a.server.db) :
    wins c.db a.server.db = [d.settled .succeeded res now] := by
  rw [← Table.filter_key_eq Deployment.id hinv.sound.ids (won_row hw)]
  apply List.filter_congr
  intro d' hd'
  have hopen := state_of_settleable hw.settleable
  rw [Bool.eq_iff_iff]
  simp only [Bool.and_eq_true, decide_eq_true_eq, Bool.not_eq_true', List.any_eq_false, not_and]
  constructor
  · rintro ⟨⟨-, hstate⟩, hnew⟩
    rcases won_rows hs hw hd' with rfl | ⟨e, he, -, rfl | ⟨hplan, rfl⟩⟩
    · rfl
    · exact absurd hstate (hnew _ he rfl)
    · rw [hplan] at hstate
      cases hstate
  · intro hid
    obtain rfl := List.inj_on_of_nodup_map hinv.sound.ids hd' (won_row hw) hid
    refine ⟨⟨hw.kind, rfl⟩, fun e he heid hstate => ?_⟩
    obtain rfl := List.inj_on_of_nodup_map hs.ids he hw.mem heid
    rw [hstate] at hopen
    rcases hopen with hopen | hopen <;> cases hopen

/-- The chronicle with one success more. -/
def add (c : Chronicle) (a : Automation) (x : Success) : Chronicle := ⟨a, x :: c.successes⟩

/-- What is written down of a success. -/
def won (c : Chronicle) (d : Deployment) (res : DeploymentResult) (now : Int) : Success :=
  ⟨d.settled .succeeded res now, currentRevision c.db d.instanceID⟩

theorem extend_won (hs : Sound c.auto.server.clock c.auto.server.used c.db) (hinv : a.Inv)
    (hw : Succeeds now d res c.db a.server.db) : c.extend a = c.add a (c.won d res now) := by
  rw [extend, wins_won hs hinv hw]
  rfl

theorem last?_add_self {x : Success} : (c.add a x).last? x.row.instanceID = some x := by
  simp [last?, add]

theorem last?_add {x : Success} {id : String} (hne : id ≠ x.row.instanceID) :
    (c.add a x).last? id = c.last? id := by
  simp [last?, add, hne.symm]

/-- A later success is before no earlier one. -/
theorem prior?_add {x y : Success} (hlt : y.at < x.at) : (c.add a x).prior? y = c.prior? y := by
  simp [prior?, add, not_lt.2 hlt.le]

/-- Before the last success is the one that was last until then. -/
theorem prior?_add_self {x : Success} (hlt : ∀ y ∈ c.successes, y.at < x.at) :
    (c.add a x).prior? x = c.last? x.row.instanceID := by
  simp only [prior?, add, last?, lt_irrefl, decide_false, Bool.and_false, Bool.false_eq_true,
    not_false_eq_true, List.find?_cons_of_neg]
  rw [← List.head?_filter, ← List.head?_filter]
  congr 1
  apply List.filter_congr
  intro y hy
  simp [hlt y hy]

variable (hclock : c.auto.server.clock < now)

include hclock in
theorem Told.at_lt (h : c.Told) {x : Success} (hx : x ∈ c.successes) :
    x.at < (c.won d res now).at := by
  obtain ⟨-, -, t, ht, hset⟩ := h.settled x hx
  simp only [Success.at, hset, won, Deployment.settled, Option.getD_some]
  exact ht.trans_lt hclock

/-- A row that may still settle is not one that succeeded. -/
theorem Told.fresh_row (h : c.Told) (hw : Succeeds now d res c.db a.server.db) {x : Success}
    (hx : x ∈ c.successes) : x.row.id ≠ d.id := by
  intro hid
  have hstate := congrArg Deployment.state (h.entry x hx d hw.mem hid.symm)
  have hopen := state_of_settleable hw.settleable
  rw [hstate, (h.settled x hx).2.1] at hopen
  rcases hopen with hopen | hopen <;> cases hopen

/-- The instance of a deployment that may settle. -/
theorem Told.home (h : c.Told) (hw : Succeeds now d res c.db a.server.db) :
    ∃ i ∈ c.db.instances, i.id = d.instanceID :=
  (Table.find_isSome_iff _).1 ((h.inv.sound.settleable_iff hw.mem).1 hw.settleable).2.1

theorem currentRevision_eq {db : Db} (hn : (db.instances.map Instance.id).Nodup) {i : Instance}
    (hi : i ∈ db.instances) {id : String} (hid : i.id = id) :
    currentRevision db id = i.currentRevision := by
  subst hid
  simp [currentRevision, Db.instance?, Table.find_of_mem Instance.id hn hi]

/-- An instance as a success leaves it. -/
theorem won_instance (hw : Succeeds now d res c.db a.server.db) {i' : Instance}
    (hi' : i' ∈ a.server.db.instances) : ∃ i ∈ c.db.instances, i'.id = i.id ∧
      i'.applicationID = i.applicationID ∧
      (i.id = d.instanceID → i'.currentRevision = d.revision ∧
        i'.previousRevision = i.currentRevision) ∧
      (i.id ≠ d.instanceID → i' = i) := by
  have hinst := hw.tables.instances
  simp only [hw.kind] at hinst
  rw [hinst] at hi'
  obtain ⟨i, hi, rfl⟩ := Table.mem_updateWhere.1 hi'
  refine ⟨i, hi, ?_⟩
  by_cases hid : i.id = d.instanceID <;> simp [hid]

/-- The last success of an instance after a new one. -/
theorem Told.latest_won (h : c.Told) (hw : Succeeds now d res c.db a.server.db) {i' : Instance}
    (hi' : i' ∈ a.server.db.instances) {x : Success}
    (hx : (c.add a (c.won d res now)).last? i'.id = some x) :
    (c.add a (c.won d res now)).Runs i' x := by
  have hs := h.inv.sound
  obtain ⟨i, hi, hii, -, hself, hother⟩ := won_instance hw hi'
  by_cases hid : i'.id = d.instanceID
  · have hsome : (c.add a (c.won d res now)).last? d.instanceID = some (c.won d res now) :=
      last?_add_self
    rw [hid, hsome] at hx
    obtain rfl := Option.some.inj hx
    obtain ⟨hcurrent, hprevious⟩ := hself (hii ▸ hid)
    exact ⟨⟨_, won_row hw, rfl⟩, hcurrent,
      hprevious.trans (currentRevision_eq hs.instanceIDs hi (hii.symm.trans hid)).symm⟩
  · rw [last?_add hid] at hx
    obtain rfl := hother (hii ▸ hid)
    obtain ⟨hrow, hcurrent, hprevious⟩ := h.latest _ hi x hx
    exact ⟨won_stays hw hrow, hcurrent, hprevious⟩

/-- The success before a validated one stays on record. -/
theorem Told.prior_won (h : c.Told) (hw : Succeeds now d res c.db a.server.db)
    (hlt : ∀ x ∈ c.successes, x.at < (c.won d res now).at) {v' : Validation}
    (hv' : v' ∈ a.server.db.validations) (hopen : v'.rollbackOpen = true) {x : Success}
    (hx : x ∈ (c.add a (c.won d res now)).successes) (hxid : x.row.id = v'.deploymentID)
    {y : Success} (hy : (c.add a (c.won d res now)).prior? x = some y) :
    ∃ p ∈ a.server.db.deployments, p.id = y.row.id := by
  obtain ⟨i₀, hi₀, hid₀⟩ := h.home hw
  have hvals := hw.tables.validations
  rw [if_pos ⟨rfl, hw.kind⟩] at hvals
  rcases List.mem_append.1 (hvals ▸ hv') with hv | hv
  · -- an older validation: its entry is an older one
    have hxold : x ∈ c.successes := by
      rcases hx with _ | ⟨_, hx⟩
      · have hnone := (Table.find_eq_none_iff Validation.deploymentID).1
          (hw.tables.unvalidated rfl hw.kind)
        exact absurd hxid.symm (hnone v' hv)
      · exact hx
    rw [prior?_add (hlt x hxold)] at hy
    exact won_stays hw (h.prior v' hv hopen x hxold hxid y hy)
  · obtain rfl := List.mem_singleton.1 hv
    rcases hx with _ | ⟨_, hxold⟩
    · -- the new one: before it the instance ran its last success
      rw [prior?_add_self hlt] at hy
      obtain ⟨hrow, -⟩ := h.latest i₀ hi₀ y (hid₀ ▸ hy)
      exact won_stays hw hrow
    · exact absurd hxid (h.fresh_row hw hxold)

include hclock in
theorem Told.success (h : c.Told) (hinv : a.Inv) (hw : Succeeds now d res c.db a.server.db)
    (hnow : a.server.clock = now) (hused : a.server.used = c.auto.server.used) :
    (c.extend a).Told := by
  have hs := h.inv.sound
  rw [extend_won hs hinv hw]
  have hlt : ∀ x ∈ c.successes, x.at < (c.won d res now).at := fun x hx => h.at_lt hclock hx
  obtain ⟨i₀, hi₀, hid₀⟩ := h.home hw
  refine ⟨hinv, ?_, ?_, ?_, ?_, ?_, ?_, ?_, ?_, ?_, ?_, ?_, ?_⟩
  · intro d' hd' hlive
    rcases won_rows hs hw hd' with rfl | ⟨e, he, -, rfl | ⟨-, rfl⟩⟩
    · cases hlive
    · exact h.unsettled _ he hlive
    · exact h.unsettled e he hlive
  · rintro x (_ | ⟨_, hx⟩)
    · exact ⟨hw.kind, rfl, now, hnow.ge, rfl⟩
    · obtain ⟨hkind, hstate, t, ht, hset⟩ := h.settled x hx
      exact ⟨hkind, hstate, t, (ht.trans hclock.le).trans hnow.ge, hset⟩
  · rintro x (_ | ⟨_, hx⟩)
    · obtain ⟨hid, hinst, -⟩ := hs.known d hw.mem
      exact ⟨hused ▸ hid, hused ▸ hinst⟩
    · exact hused ▸ h.known x hx
  · exact List.pairwise_cons.2 ⟨hlt, h.order⟩
  · rintro x (_ | ⟨_, hx⟩) d' hd' hid
    · obtain rfl := List.inj_on_of_nodup_map hinv.sound.ids hd' (won_row hw) hid
      rfl
    · rcases won_rows hs hw hd' with rfl | ⟨e, he, -, rfl | ⟨hplan, rfl⟩⟩
      · exact absurd hid.symm (h.fresh_row hw hx)
      · exact h.entry x hx _ he hid
      · have hstate := congrArg Deployment.state (h.entry x hx e he hid)
        rw [hplan, (h.settled x hx).2.1] at hstate
        cases hstate
  · intro d' hd' hkind hstate
    rcases won_rows hs hw hd' with rfl | ⟨e, he, -, rfl | ⟨hplan, rfl⟩⟩
    · exact ⟨_, List.mem_cons_self, rfl⟩
    · obtain ⟨x, hx, hid⟩ := h.told _ he hkind hstate
      exact ⟨x, List.mem_cons_of_mem _ hx, hid⟩
    · rw [hplan] at hstate
      cases hstate
  · rintro x (_ | ⟨_, hx⟩) i' hi' hid
    · exact (hinv.sound.owner _ (won_row hw) i' hi' hid).1
    · obtain ⟨i, hi, hii, happ, -⟩ := won_instance hw hi'
      exact happ.trans (h.owners x hx i hi (hii.symm.trans hid))
  · -- the application of an instance's deployments is that of the instance
    have hold : ∀ y ∈ c.successes, d.instanceID = y.row.instanceID →
        d.applicationID = y.row.applicationID := fun y hy hinst =>
      (hs.owner d hw.mem i₀ hi₀ hid₀).1.symm.trans (h.owners y hy i₀ hi₀ (hid₀.trans hinst))
    rintro x (_ | ⟨_, hx⟩) y (_ | ⟨_, hy⟩) hinst
    · rfl
    · exact hold y hy hinst
    · exact (hold x hx hinst.symm).symm
    · exact h.shared x hx y hy hinst
  · intro i' hi' hnone
    obtain ⟨i, hi, hii, -, -, hother⟩ := won_instance hw hi'
    by_cases hid : i'.id = d.instanceID
    · have hsome : (c.add a (c.won d res now)).last? d.instanceID = some (c.won d res now) :=
        last?_add_self
      rw [hid, hsome] at hnone
      cases hnone
    · rw [last?_add hid] at hnone
      obtain rfl := hother (hii ▸ hid)
      exact h.fresh _ hi hnone
  · exact fun i' hi' x hx => h.latest_won hw hi' hx
  · intro v' hv'
    have hvals := hw.tables.validations
    rw [if_pos ⟨rfl, hw.kind⟩] at hvals
    rcases List.mem_append.1 (hvals ▸ hv') with hv | hv
    · obtain ⟨x, hx, hhome⟩ := h.homes v' hv
      exact ⟨x, List.mem_cons_of_mem _ hx, hhome⟩
    · obtain rfl := List.mem_singleton.1 hv
      exact ⟨_, List.mem_cons_self, rfl, rfl, rfl⟩
  · exact fun v' hv' hopen x hx hxid y hy => h.prior_won hw hlt hv' hopen hx hxid hy

end Won

/-! ### What a transaction spares -/

section Sparing

variable {now : Int} {db' : Db}

theorem Spared.of_rows (h : db'.deployments = c.db.deployments) : c.Spared db' := by
  refine ⟨?_, ?_⟩
  · intro _ _ _ _ hrow
    rwa [h]
  · intro _ _ _ _ _ _ hrow
    rwa [h]

/-- Every other success of the instance was earlier than the last. -/
theorem Told.last_latest (h : c.Told) {id : String} {x y : Success} (hx : c.last? id = some x)
    (hy : y ∈ c.successes) (hinst : y.row.instanceID = id) : y = x ∨ y.at < x.at := by
  obtain ⟨-, before, after, hsplit, hbefore⟩ := List.find?_eq_some_iff_append.1 hx
  have horder := h.order
  rw [hsplit] at hy horder
  rcases List.mem_append.1 hy with hy | hy
  · have hne := hbefore y hy
    simp [hinst] at hne
  · rcases List.mem_cons.1 hy with rfl | hy
    · exact .inl rfl
    · exact .inr ((List.pairwise_cons.1 (List.pairwise_append.1 horder).2.1).1 y hy)

/-- A row in the chronicle is an apply that succeeded. -/
theorem Told.row_eq (h : c.Told) {x : Success} (hx : x ∈ c.successes) {d : Deployment}
    (hd : d ∈ c.db.deployments) (hid : d.id = x.row.id) : d.kind = .apply ∧ d.state = .succeeded ∧
      d.instanceID = x.row.instanceID ∧ d.applicationID = x.row.applicationID ∧
      d.revision = x.row.revision ∧ d.settledAt = some x.at := by
  obtain ⟨hkind, hstate, t, -, hset⟩ := h.settled x hx
  rw [h.entry x hx d hd hid]
  exact ⟨hkind, hstate, rfl, rfl, rfl, by simp [Success.at, hset]⟩

/-- The row of an instance's last success is pinned. -/
theorem Told.pinned_last (h : c.Told) {i : Instance} (hi : i ∈ c.db.instances) {x : Success}
    (hx : c.last? i.id = some x) {d : Deployment} (hd : d ∈ c.db.deployments)
    (hid : d.id = x.row.id) : c.db.pinned d = true := by
  obtain ⟨hmem, hinst⟩ := last?_mem hx
  obtain ⟨hkind, hstate, hdi, -, hrev, hset⟩ := h.row_eq hmem hd hid
  obtain ⟨-, hcurrent, -⟩ := h.latest i hi x hx
  simp only [Db.pinned, Bool.and_eq_true, decide_eq_true_eq, List.any_eq_true, Bool.or_eq_true,
    Bool.not_eq_true', List.any_eq_false, not_and]
  refine ⟨⟨⟨hkind, hstate⟩, i, hi, (hdi.trans hinst).symm, .inl (hrev.trans hcurrent.symm)⟩, ?_⟩
  rintro n hn ⟨⟨⟨hni, -⟩, hnk⟩, hns⟩
  obtain ⟨y, hy, hyid⟩ := h.told n hn hnk hns
  obtain ⟨-, -, hyi, -, -, hyset⟩ := h.row_eq hy hn hyid.symm
  rw [hset, hyset]
  rcases h.last_latest hx hy (hyi.symm.trans (hni.trans (hdi.trans hinst))) with rfl | hlt
  · rw [hid, hyid]
    simp [Text.le]
  · simp [not_lt.2 hlt.le, hlt.ne]

/-- Retention of deployments takes neither the last success of an instance nor, while a rollback of
the instance is open, any success. -/
theorem Told.spared_prune (h : c.Told) (batch : List String) :
    c.Spared (pruneDeployments batch now c.db) := by
  refine ⟨?_, ?_⟩
  · rintro i hi x hx ⟨d, hd, hid⟩
    have hpinned := h.pinned_last hi hx hd hid
    exact ⟨d, List.mem_filter.2 ⟨hd, by simp [Db.falls, Db.prunable, hpinned]⟩, hid⟩
  · rintro v hv hopen y hy hinst ⟨p, hp, hid⟩
    obtain ⟨hkind, hstate, hpi, -⟩ := h.row_eq hy hp hid
    have hv : v ∈ c.db.validations := List.mem_of_mem_filter hv
    have hguard : (c.db.validations.any fun w => w.instanceID = p.instanceID && w.rollbackOpen) =
        true := List.any_eq_true.2 ⟨v, hv, by simp [hopen, hpi, hinst]⟩
    exact ⟨p, List.mem_filter.2 ⟨hp, by simp [Db.falls, Db.prunable, hkind, hstate, hguard]⟩, hid⟩

/-- Every other transaction takes deployments with their application only. -/
theorem Told.spared_exec (h : c.Told) {op : StoreOp} (hop : ∀ batch, op ≠ .pruneDeployments batch)
    (hexec : op.exec now c.db = .ok db') (hquiet : Quiet fresh c.db db') (hw : Watched db')
    (hfresh : ∀ id ∈ fresh, id ∉ c.auto.server.used)
    (hshuts : ∀ v' ∈ db'.validations, ∃ v ∈ c.db.validations, v.Shuts v') : c.Spared db' := by
  have hs := h.inv.sound
  refine ⟨?_, ?_⟩
  · rintro i hi x hx ⟨d, hd, hid⟩
    obtain ⟨hmem, hinst⟩ := last?_mem hx
    obtain ⟨-, hstate, hdi, -⟩ := h.row_eq hmem hd hid
    have hacted : d.state ≠ .planned := by simp [hstate]
    obtain ⟨d', hd', hlasts⟩ := recalls_of_exec hs hop hexec d hd hacted
      ⟨i, hi, (hdi.trans hinst).symm⟩
    exact ⟨d', hd', hlasts.1.1.trans hid⟩
  · rintro v' hv' hopen y hy hinst ⟨p, hp, hid⟩
    obtain ⟨-, hstate, -, happ, -⟩ := h.row_eq hy hp hid
    have hacted : p.state ≠ .planned := by simp [hstate]
    rcases staysOrGone_of_exec hs hop hexec p hp hacted with ⟨p', hp', hid', -⟩ | hgone
    · exact ⟨p', hp', hid'.trans hid⟩
    -- the validated deployment is of the same application, and its row is there
    obtain ⟨v, hv, hvid, hvinst, -⟩ := hshuts v' hv'
    obtain ⟨x, hx, hxid, hxinst, -⟩ := h.homes v hv
    obtain ⟨d', hd', hdid, -⟩ := (hw v'.deploymentID).2 (List.mem_map_of_mem hv')
    have hdx : d'.id = x.row.id := hdid.trans (hvid.trans hxid.symm)
    refine absurd ?_ (hgone d' hd')
    rcases hquiet.rows d' hd' with ⟨d, hd, htr⟩ | ⟨hnew, -⟩
    · obtain ⟨-, -, -, hdapp, -⟩ := h.row_eq hx hd (htr.same.1.symm.trans hdx)
      have hxy : x.row.instanceID = y.row.instanceID :=
        hxinst.symm.trans (hvinst.symm.trans hinst.symm)
      exact htr.same.2.1.trans (hdapp.trans ((h.shared x hx y hy hxy).trans happ.symm))
    · exact absurd (h.known x hx).1 (hfresh _ (hdx ▸ hnew))

/-- Where no apply succeeds no validation opens. -/
theorem Told.shuts_exec (h : c.Told) {op : StoreOp} (hspares : op.sparesPolicies c.db = true)
    (hexec : op.exec now c.db = .ok db') (hquiet : Quiet op.fresh c.db db')
    (hfresh : ∀ id ∈ op.fresh, id ∉ c.auto.server.used) :
    ∀ v' ∈ db'.validations, ∃ v ∈ c.db.validations, v.Shuts v' := by
  have hfollows := follows_of_exec h.inv.sound.ids h.inv.watched hspares hexec
  intro v' hv'
  rcases hfollows.back v' hv' with ⟨v, hv, hsame⟩ | ⟨d, hd, hstate, heq⟩
  · exact ⟨v, hv, hsame.shuts⟩
  obtain ⟨d', hd', hid, hkind, hwon⟩ := (hfollows.watched v'.deploymentID).2
    (List.mem_map_of_mem hv')
  have hid : d'.id = d.id := by rw [hid, heq, openedValidation]
  rcases hquiet.rows d' hd' with ⟨e, he, htr⟩ | ⟨hnew, -⟩
  · obtain rfl := List.inj_on_of_nodup_map h.inv.sound.ids he hd (htr.same.1.symm.trans hid)
    exact absurd (htr.succeeded hkind hwon) hstate
  · exact absurd (h.inv.sound.known d hd).1 (hfresh _ (hid ▸ hnew))

end Sparing

/-- Each step keeps what the chronicle tells. -/
theorem Told.step (h : c.Told) {op : Int × AutomationOp} (hstep : automation.step op c.auto = .ok a) :
    (c.extend a).Told := by
  obtain ⟨hinv, -⟩ := Automation.step_advances h.inv hstep
  rcases Automation.store_or_aside h.inv hstep with
    ⟨o, hexec, hfresh, hclock, hnow, hused, hspares, -⟩ | ⟨haside, hclock, hused⟩
  · rcases episode_of_exec h.inv.sound hexec with hquiet | ⟨d, res, ⟨e, r, rfl, -⟩, hw⟩
    · have hshuts := h.shuts_exec hspares hexec hquiet hfresh
      refine h.quiet hinv hquiet hfresh (hnow ▸ hclock.le) hused hshuts ?_
      by_cases hprune : ∃ batch, o = .pruneDeployments batch
      · obtain ⟨batch, rfl⟩ := hprune
        rw [← Except.ok.inj hexec]
        exact h.spared_prune batch
      · exact h.spared_exec (not_exists.1 hprune) hexec hquiet hinv.watched hfresh hshuts
    · exact h.success hclock hinv hw hnow hused
  · have hquiet : Quiet [] c.db a.server.db := .of_tables haside.deployments haside.instances
    exact h.quiet hinv hquiet (fun _ hid => (by cases hid)) hclock hused haside.shuts
      (.of_rows haside.deployments)

/-- The chronicle only watches. -/
theorem auto_of_steps (h : chronicle.Steps .new c) : automation.Steps .new c.auto := by
  have hnew : automation.Steps .new Chronicle.new.auto := Relation.ReflTransGen.refl
  refine h.keeps (I := fun c => automation.Steps .new c.auto) ?_ hnew
  intro op c c' hc hstep
  obtain ⟨a, hauto, rfl⟩ := map_eq_ok.1 hstep
  exact hc.tail ⟨op, hauto⟩

theorem told_of_steps (h : chronicle.Steps .new c) : c.Told := by
  refine h.keeps ?_ Told.new
  intro op c c' hc hstep
  obtain ⟨a, hauto, rfl⟩ := map_eq_ok.1 hstep
  exact hc.step hauto

end Chronicle

end KyYard.Store
