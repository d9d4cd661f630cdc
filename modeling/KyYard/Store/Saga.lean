import KyYard.Store.Lineage
import KyYard.Store.Pruning

/-!
# What ran before

A `Saga` remembers, beside the successes, every apply that was sent and every container an instance
has had. `rollback_returns` says what a rollback returns to, in every run in which results report new
containers and retention leaves the history a rollback on a cluster reads (`careful`): on Docker the
images the deployment replaced and the revision that ran before it, on a cluster the revision and the
digests of the success before it, with nothing sent since. Retention that deletes a newer apply breaks
the last part (`rollback_after_prune`).
-/

namespace KyYard.Store

open Foundation Protocol

/-! ## The saga -/

/-- The chronicle, with every apply that was sent and every container an instance has had. -/
structure Saga where
  past : Chronicle
  sent : List Deployment
  owned : List (String × String)

namespace Saga

def new : Saga := ⟨.new, [], []⟩

def db (s : Saga) : Db := s.past.db

/-- The applies the tables show as sent. -/
def sentRows (db : Db) : List Deployment :=
  db.deployments.filter fun d => d.kind = .apply && d.state ≠ .planned

/-- The containers the tables bind to an instance and those a result names for it. -/
def containers (db : Db) : List (String × String) :=
  db.resources.map (fun r => (r.instanceID, r.containerID)) ++
    db.deployments.flatMap fun d => ((d.result.map StoredDeploymentResult.services).getD []).map
      fun id => (d.instanceID, id.containerID)

/-- The chronicle took a step. -/
def extend (s : Saga) (past : Chronicle) : Saga :=
  ⟨past, sentRows past.db ++ s.sent, containers past.db ++ s.owned⟩

/-- The containers a Docker result reports are new to its instance. -/
def newContainers (s : Saga) (r : DeploymentResult) : Bool :=
  (s.db.deployment? r.deployment).all fun d => d.plan.ns ≠ "" ||
    r.services.all fun id => !s.owned.contains (d.instanceID, id.containerID)

end Saga

/-- Outside the pass are, of an instance on a cluster, the success before the last one and, for each
apply there that has a newer one that was sent, such a newer one. -/
def Db.sparesHistory (db : Db) (now : Int) (batch : List String) : Bool :=
  db.deployments.all (fun d => db.falls now batch d || d.kind ≠ .apply || d.plan.ns = "" ||
      !db.laterSent d || db.sparesLater now batch d) &&
    db.instances.all fun i =>
      match db.succeededApplies i.id with
      | d :: p :: _ => d.plan.ns = "" ||
          db.deployments.any fun e => !db.falls now batch e && e.id = p.id
      | _ => true

/-- The server with its saga. -/
def saga : Machine Saga (Int × AutomationOp) (Option StoreError) where
  step op s := (chronicle.step op s.past).map s.extend

/-- Results report new containers, and retention leaves the history a rollback reads. -/
def Saga.careful (s : Saga) (op : Int × AutomationOp) : Prop :=
  match op.2 with
  | .store (.lifecycle (.settleDeployment _ r)) => s.newContainers r = true
  | .store (.pruneDeployments batch) => s.db.sparesHistory op.1 batch = true
  | _ => True

instance (s : Saga) (op : Int × AutomationOp) : Decidable (s.careful op) := by
  unfold Saga.careful
  split <;> infer_instance

/-! ## The last two successes of an instance -/

instance : Std.Total Deployment.SettledAfter where
  total a b := by
    unfold Deployment.SettledAfter
    rcases lt_trichotomy (a.settledAt.getD 0) (b.settledAt.getD 0) with hlt | heq | hgt
    · exact .inr (.inl hlt)
    · rcases Text.le_total a.id b.id with hle | hle
      · exact .inr (.inr ⟨heq, hle⟩)
      · exact .inl (.inr ⟨heq.symm, hle⟩)
    · exact .inl (.inl hgt)

instance : IsTrans Deployment Deployment.SettledAfter where
  trans a b c hab hbc := by
    unfold Deployment.SettledAfter at *
    rcases hab with hab | ⟨hab, hid⟩ <;> rcases hbc with hbc | ⟨hbc, hid'⟩
    · exact .inl (hbc.trans hab)
    · exact .inl (hbc ▸ hab)
    · exact .inl (hab ▸ hbc)
    · exact .inr ⟨hbc.trans hab, Text.le_trans hid' hid⟩

section Order

variable {db : Db} {instanceID : String}

theorem mem_succeededApplies {d : Deployment} :
    d ∈ db.succeededApplies instanceID ↔
      d ∈ db.deployments ∧ d.succeededApply instanceID = true := by
  rw [Db.succeededApplies, List.mem_insertionSort, List.mem_filter]

theorem nodup_succeededApplies (hn : (db.deployments.map Deployment.id).Nodup) :
    (db.succeededApplies instanceID).Nodup :=
  (List.perm_insertionSort _ _).nodup_iff.2 ((List.Nodup.of_map _ hn).filter _)

/-- One settled after another did not settle before it. -/
theorem settledAt_le_of_settledAfter {a b : Deployment} (h : a.SettledAfter b) :
    b.settledAt.getD 0 ≤ a.settledAt.getD 0 := by
  rcases h with h | ⟨h, -⟩
  · exact h.le
  · exact h.le

end Order

namespace Chronicle

variable {c : Chronicle}

/-- The success a row is of. -/
theorem Told.entry_of (h : c.Told) {instanceID : String} {d : Deployment}
    (hd : d ∈ c.db.succeededApplies instanceID) :
    ∃ x ∈ c.successes, x.row.id = d.id ∧ x.row.instanceID = instanceID ∧
      d.settledAt.getD 0 = x.at := by
  obtain ⟨hmem, hwon⟩ := mem_succeededApplies.1 hd
  obtain ⟨hinst, hkind, hstate⟩ := succeededApply_iff.1 hwon
  obtain ⟨x, hx, hid⟩ := h.told d hmem hkind hstate
  obtain ⟨-, -, hdi, -, -, hset⟩ := h.row_eq hx hmem hid.symm
  exact ⟨x, hx, hid, hdi.symm.trans hinst, by rw [hset, Option.getD_some]⟩

/-- Every other success of the instance before this one was earlier than the one before it. -/
theorem Told.prior_latest (h : c.Told) {x y z : Success} (hy : c.prior? x = some y)
    (hz : z ∈ c.successes) (hinst : z.row.instanceID = x.row.instanceID) (hlt : z.at < x.at) :
    z = y ∨ z.at < y.at := by
  obtain ⟨-, before, after, hsplit, hbefore⟩ := List.find?_eq_some_iff_append.1 hy
  have horder := h.order
  rw [hsplit] at hz horder
  rcases List.mem_append.1 hz with hz | hz
  · have hne := hbefore z hz
    simp [hinst, hlt] at hne
  · rcases List.mem_cons.1 hz with rfl | hz
    · exact .inl rfl
    · exact .inr ((List.pairwise_cons.1 (List.pairwise_append.1 horder).2.1).1 z hz)

/-- The rows of an instance's last success and of the one before it come first. -/
theorem Told.applies_eq (h : c.Told) {i : Instance} (hi : i ∈ c.db.instances) {x : Success}
    (hx : c.last? i.id = some x) :
    ∃ d rest, c.db.succeededApplies i.id = d :: rest ∧ d.id = x.row.id ∧
      ∀ y, c.prior? x = some y → (∃ p ∈ c.db.deployments, p.id = y.row.id) →
        ∃ p rest', rest = p :: rest' ∧ p.id = y.row.id := by
  obtain ⟨hxmem, hxinst⟩ := last?_mem hx
  obtain ⟨⟨dx, hdx, hdxid⟩, -, -⟩ := h.latest i hi x hx
  have hmem : ∀ {z : Success} {e : Deployment}, z ∈ c.successes → z.row.instanceID = i.id →
      e ∈ c.db.deployments → e.id = z.row.id → e ∈ c.db.succeededApplies i.id := by
    intro z e hz hzi he hid
    obtain ⟨hkind, hstate, hei, -⟩ := h.row_eq hz he hid
    exact mem_succeededApplies.2 ⟨he, succeededApply_iff.2 ⟨hei.trans hzi, hkind, hstate⟩⟩
  have hat : ∀ {z : Success} {e : Deployment}, z ∈ c.successes → e ∈ c.db.deployments →
      e.id = z.row.id → e.settledAt.getD 0 = z.at := by
    intro z e hz he hid
    rw [(h.row_eq hz he hid).2.2.2.2.2, Option.getD_some]
  have hdxin := hmem hxmem hxinst hdx hdxid
  have hsorted : (c.db.succeededApplies i.id).Pairwise Deployment.SettledAfter :=
    List.pairwise_insertionSort _ _
  have hnodup : (c.db.succeededApplies i.id).Nodup := nodup_succeededApplies h.inv.sound.ids
  cases hrows : c.db.succeededApplies i.id with
  | nil =>
    rw [hrows] at hdxin
    cases hdxin
  | cons d rest =>
    rw [hrows] at hsorted hnodup hdxin
    obtain ⟨hfirst, hsorted⟩ := List.pairwise_cons.1 hsorted
    obtain ⟨hdrest, -⟩ := List.nodup_cons.1 hnodup
    -- the head is the last success: no row settled later
    have hdx : d = dx := by
      rcases List.mem_cons.1 hdxin with heq | hin
      · exact heq.symm
      obtain ⟨z, hz, hzid, hzi, hzat⟩ := h.entry_of (hrows ▸ List.mem_cons_self)
      have hle := settledAt_le_of_settledAfter (hfirst dx hin)
      rw [hat hxmem hdx hdxid] at hle
      rcases h.last_latest hx hz hzi with rfl | hlt
      · have hd := (mem_succeededApplies.1 (hrows ▸ List.mem_cons_self)).1
        exact List.inj_on_of_nodup_map h.inv.sound.ids hd hdx (hzid.symm.trans hdxid.symm)
      · omega
    subst hdx
    refine ⟨d, rest, rfl, hdxid, ?_⟩
    rintro y hy ⟨dy, hdy, hdyid⟩
    obtain ⟨hymem, hyinst, hyx⟩ := prior?_mem hy
    have hdyin : dy ∈ rest := by
      have hin := hmem hymem (hyinst.trans hxinst) hdy hdyid
      rw [hrows] at hin
      rcases List.mem_cons.1 hin with heq | hin
      · have hdat := hat hxmem hdx hdxid
        rw [← heq, hat hymem hdy hdyid] at hdat
        omega
      · exact hin
    cases rest with
    | nil => cases hdyin
    | cons p rest' =>
      refine ⟨p, rest', rfl, ?_⟩
      rcases List.mem_cons.1 hdyin with heq | hin
      · rw [← heq]
        exact hdyid
      -- the second one is of the success before
      obtain ⟨hsecond, -⟩ := List.pairwise_cons.1 hsorted
      have hpin : p ∈ c.db.succeededApplies i.id := by
        rw [hrows]
        exact List.mem_cons_of_mem _ List.mem_cons_self
      obtain ⟨z, hz, hzid, hzi, hzat⟩ := h.entry_of hpin
      have hle := settledAt_le_of_settledAfter (hsecond dy hin)
      rw [hat hymem hdy hdyid] at hle
      have hzx : z.at < x.at := by
        rcases h.last_latest hx hz hzi with rfl | hlt
        · have hpd : p = d := List.inj_on_of_nodup_map h.inv.sound.ids
            (mem_succeededApplies.1 hpin).1 hdx (hzid.symm.trans hdxid.symm)
          exact absurd (hpd ▸ List.mem_cons_self) hdrest
        · exact hlt
      rcases h.prior_latest hy hz (hzi.trans hxinst.symm) hzx with rfl | hlt
      · exact hzid.symm
      · omega

end Chronicle

/-! ## Rows and plans -/

section Rows

variable {now clock : Int} {used : List String} {db db' : Db}

variable {op : StoreOp} {d' : Deployment}

/-- A row comes from one with the same plan that was as open, or it is a plan of now. -/
theorem row_back (hs : Sound clock used db)
    (hexec : op.exec now db = .ok db') (hd' : d' ∈ db'.deployments) :
    (∃ d ∈ db.deployments, d.Same d' ∧ d'.plan = d.plan ∧
      (d'.state.terminal = false → d.state.terminal = false)) ∨ d'.id ∈ op.fresh := by
  rcases episode_of_exec hs hexec with hquiet | ⟨e, res, -, hw⟩
  · rcases hquiet.rows d' hd' with ⟨d, hd, htr⟩ | ⟨hnew, -⟩
    · refine .inl ⟨d, hd, htr.same, htr.plan, fun hopen => ?_⟩
      by_contra hterm
      rw [htr.closed (by simpa using hterm)] at hopen
      exact hterm hopen
    · exact .inr hnew
  · rw [hw.tables.rows, List.mem_map] at hd'
    obtain ⟨d, hd, rfl⟩ := hd'
    refine .inl ⟨d, hd, afterSettle_same d, ?_, ?_⟩
    · unfold Deployment.afterSettle
      by_cases hid : d.id = e.id <;> simp only [hid, if_true, if_false] <;> split <;> rfl
    · rcases afterSettle_cases (o := .succeeded) res now rfl d with
        ⟨-, heq⟩ | ⟨-, heq | ⟨hplan, heq⟩⟩
      · rw [heq]
        intro hopen
        cases hopen
      · rw [heq]
        exact fun hopen => hopen
      · simp [hplan, DeploymentState.terminal]

/-- A new apply is a plan drawn from the tables as they are. -/
def DrawnPlan (now : Int) (db db' : Db) (d : Deployment) : Prop :=
  ∃ a i spec c revision correlation, i ∈ db.instances ∧ validateApplicationSpec spec = true ∧
    (i.ns = "" → mappingCovers db a i spec = true) ∧
    d = plannedRow d.id i revision (draftPlan db i spec c) correlation now ∧
    db'.resources = db.resources

theorem drawn_of_lifecycle (hs : Sound clock used db) {op : LifecycleOp}
    (hfresh : ∀ id ∈ op.fresh, id ∉ used) (hexec : op.exec now db = .ok db')
    (hd' : d' ∈ db'.deployments) (hk : d'.kind = .apply) (hnew : d'.id ∈ op.fresh) :
    DrawnPlan now db db' d' := by
  have hnot : d' ∉ db.deployments := fun hd => hfresh _ hnew (hs.known d' hd).1
  cases op with
  | createApplication =>
    obtain rfl := createApplication_ok hexec
    exact absurd hd' hnot
  | adoptApplication =>
    obtain ⟨i, rs, -, -, -, -, rfl⟩ := adoptApplication_ok hexec
    exact absurd hd' hnot
  | mapKubernetes =>
    rcases mapKubernetes_ok hexec with ⟨i, -, -, -, rfl⟩ | ⟨a, i, -, -, -, -, -, rfl⟩ <;>
      exact absurd hd' hnot
  | planDeployment _ _ _ c correlation =>
    obtain ⟨a, i, rev, -, hi, -, hvalid, hcovers, p, -, -, rfl⟩ := planDeployment_ok hs.ids hexec
    rcases Table.mem_concat.1 hd' with hd | hd
    · exact absurd (List.mem_of_mem_filter hd) hnot
    · rw [hd]
      exact ⟨a, i, rev.spec, c, _, correlation, Table.mem_of_find _ hi, hvalid, hcovers, rfl, rfl⟩
  | removeApplication =>
    obtain ⟨a, i, plan, -, -, -, -, -, -, p, -, -, rfl⟩ := removeApplication_ok hexec
    rcases Table.mem_concat.1 hd' with hd | hd
    · exact absurd (List.mem_of_mem_filter hd) hnot
    · rw [hd] at hk
      cases hk
  | _ => cases hnew

theorem drawn_of_exec (hs : Sound clock used db)
    (hfresh : ∀ id ∈ op.fresh, id ∉ used) (hexec : op.exec now db = .ok db')
    (hd' : d' ∈ db'.deployments) (hk : d'.kind = .apply) (hnew : d'.id ∈ op.fresh) :
    DrawnPlan now db db' d' := by
  cases op with
  | lifecycle => exact drawn_of_lifecycle hs hfresh hexec hd' hk hnew
  | _ => cases hnew

theorem laterSent_congr {d : Deployment} (h : d.Same d') : db.laterSent d' = db.laterSent d := by
  obtain ⟨-, -, hinst, -, -, -, hcreated⟩ := h
  rw [Db.laterSent, Db.laterSent, hinst, hcreated]

theorem instance_back (hs : Sound clock used db) (hexec : op.exec now db = .ok db')
    {i' : Instance} (hi' : i' ∈ db'.instances) :
    (∃ i ∈ db.instances, i.id = i'.id) ∨ i'.id ∈ op.fresh := by
  rcases episode_of_exec hs hexec with hquiet | ⟨d, res, -, hw⟩
  · rcases hquiet.instances i' hi' with ⟨i, hi, hsame⟩ | ⟨hnew, -⟩
    · exact .inl ⟨i, hi, hsame.id.symm⟩
    · exact .inr hnew
  · obtain ⟨i, hi, hsame⟩ := hw.tables.instance_back hi'
    exact .inl ⟨i, hi, hsame.1.symm⟩

/-- A row that was sent was sent before, or it starts now at the place its plan names. -/
theorem sent_back (hs : Sound clock used db) (hfresh : ∀ id ∈ op.fresh, id ∉ used)
    (hexec : op.exec now db = .ok db') {d : Deployment} (hd : d ∈ db.deployments)
    (hd' : d' ∈ db'.deployments) (hid : d'.id = d.id) (hacted : d'.state ≠ .planned) :
    d.state ≠ .planned ∨
      ∃ i ∈ db'.instances, i.id = d.instanceID ∧ (d.plan.ns ≠ "" → i.ns = d.plan.ns) := by
  have heq : ∀ {e : Deployment}, e ∈ db.deployments → e.id = d.id → e = d := fun he heid =>
    List.inj_on_of_nodup_map hs.ids he hd heid
  have hsame : d' ∈ db.deployments → d.state ≠ .planned := fun hmem => heq hmem hid ▸ hacted
  cases op with
  | lifecycle =>
    cases change_of_exec hs.ids hexec with
    | elsewhere rows => exact .inl (hsame (rows ▸ hd'))
    | adopted _ _ _ _ rows => exact .inl (hsame (rows ▸ hd'))
    | remapped _ _ rows => exact .inl (hsame (rows ▸ hd'))
    | released _ _ _ rows =>
      rw [rows] at hd'
      exact .inl (hsame (List.mem_of_mem_filter hd'))
    | opened _ _ _ id _ _ _ _ _ rows =>
      obtain ⟨p, -, -, rfl⟩ := rows
      rcases Table.mem_concat.1 hd' with hd' | hd'
      · exact .inl (hsame (List.mem_of_mem_filter hd'))
      · rw [hd'] at hid
        exact absurd (hs.known d hd).1 (hfresh _ (hid ▸ id))
    | moved p f moves rows instances =>
      rw [rows] at hd'
      obtain ⟨e, he, rfl⟩ := Table.mem_updateWhere.1 hd'
      by_cases hp : p e = true
      · rw [if_pos hp] at hid
        obtain rfl := heq he ((moves e he hp).same.1.symm.trans hid)
        cases moves e he hp with
        | start _ _ _ _ _ home => exact .inr (instances ▸ home)
        | close _ _ _ state =>
          rcases state with hstate | hstate <;> simp [hstate]
      · rw [if_neg hp] at hid hacted
        obtain rfl := heq he hid
        exact .inl hacted
    | settled _ res _ _ mem outcome open_ tables =>
      rw [tables.rows, List.mem_map] at hd'
      obtain ⟨f, hf, rfl⟩ := hd'
      obtain rfl := heq hf ((afterSettle_same f).1.symm.trans hid)
      left
      rcases afterSettle_cases res now outcome f with ⟨hfe, -⟩ | ⟨-, heq' | ⟨hplanned, heq'⟩⟩
      · rw [List.inj_on_of_nodup_map hs.ids hf mem hfe]
        rcases state_of_settleable open_ with hstate | hstate <;> simp [hstate]
      · rw [heq'] at hacted
        exact hacted
      · rw [heq'] at hacted
        exact absurd hplanned hacted
  | _ =>
    obtain ⟨e, he, hgoes⟩ := (shrinks_of_exec hs.ids hexec nofun).rows d' hd'
    obtain rfl := heq he (hgoes.id.symm.trans hid)
    left
    rcases hgoes.planned hacted with hstate | hsent
    · exact hstate
    · cases hsent

/-- An apply on Docker is of an instance on Docker; one that was sent to a cluster is of an instance on
a cluster. -/
structure Docked (db : Db) : Prop where
  docker : ∀ d ∈ db.deployments, d.kind = .apply → d.plan.ns = "" →
    ∀ i ∈ db.instances, i.id = d.instanceID → i.ns = ""
  cluster : ∀ d ∈ db.deployments, d.kind = .apply → d.state ≠ .planned → d.plan.ns ≠ "" →
    ∀ i ∈ db.instances, i.id = d.instanceID → i.ns ≠ ""

theorem docked_of_exec (h : Docked db) (hs : Sound clock used db)
    (hs' : Sound now (op.fresh ++ used) db') (hfresh : ∀ id ∈ op.fresh, id ∉ used)
    (hexec : op.exec now db = .ok db') : Docked db' := by
  -- the instance a row had before the transaction
  have hback : ∀ {d : Deployment} {i' : Instance}, d ∈ db.deployments → i' ∈ db'.instances →
      i'.id = d.instanceID → ∃ i ∈ db.instances, i.id = i'.id := by
    intro d i' hd hi' hid
    rcases instance_back hs hexec hi' with hold | hnew
    · exact hold
    · exact absurd (hs.known d hd).2.1 (hfresh _ (hid ▸ hnew))
  refine ⟨?_, ?_⟩
  · intro d' hd' hk hns i' hi' hid'
    rcases row_back hs hexec hd' with ⟨d, hd, hsame, hplan, -⟩ | hnew
    · have hdi : i'.id = d.instanceID := hid'.trans hsame.2.2.1
      obtain ⟨i, hi, hid⟩ := hback hd hi' hdi
      have hins := h.docker d hd (hsame.2.2.2.2.1 ▸ hk) (hplan ▸ hns) i hi (hid.trans hdi)
      exact docker_of_exec hs hfresh hexec hi hi' hid hins
    · obtain ⟨a, i, spec, c, revision, correlation, hi, -, -, hrow, -⟩ :=
        drawn_of_exec hs hfresh hexec hd' hk hnew
      have hins : i.ns = "" := by
        by_contra hne
        rw [hrow] at hns
        simp [plannedRow, draftPlan, hne] at hns
      have hid : i.id = i'.id := by
        rw [hid', hrow]
        rfl
      exact docker_of_exec hs hfresh hexec hi hi' hid hins
  · intro d' hd' hk hacted hns i' hi' hid'
    rcases row_back hs hexec hd' with ⟨d, hd, hsame, hplan, -⟩ | hnew
    · have hdi : i'.id = d.instanceID := hid'.trans hsame.2.2.1
      rw [hplan] at hns
      rcases sent_back hs hfresh hexec hd hd' hsame.1 hacted with hsent | ⟨i, hi, hid, hsited⟩
      · -- no mapping moves an instance that something was sent to
        rcases moors_of_exec hs hexec i' hi' with hnew | ⟨i, hi, hid, hns' | hnone⟩
        · exact absurd (hs.known d hd).2.1 (hfresh _ (hdi ▸ hnew))
        · rw [hns']
          exact h.cluster d hd (hsame.2.2.2.2.1 ▸ hk) hsent hns i hi (hid.trans hdi)
        · have hsome : db.sentTo i.id = true :=
            sentTo_eq_true.2 ⟨d, hd, (hid.trans hdi).symm, hsent⟩
          rw [hnone] at hsome
          cases hsome
      · rw [List.inj_on_of_nodup_map hs'.instanceIDs hi' hi (hdi.trans hid.symm), hsited hns]
        exact hns
    · obtain ⟨a, i, spec, c, revision, correlation, -, -, -, hrow, -⟩ :=
        drawn_of_exec hs hfresh hexec hd' hk hnew
      rw [hrow] at hacted
      exact absurd rfl hacted

end Rows

theorem service_name_ne {spec : ApplicationSpec} (h : validateApplicationSpec spec = true)
    {t : ApplicationService} (ht : t ∈ spec.services) : t.name ≠ "" := by
  obtain ⟨-, -, hserv, -⟩ := validateApplicationSpec_checks h
  have hvalid := hserv t ht
  simp only [ApplicationService.valid, Bool.and_eq_true] at hvalid
  intro hempty
  have hname := hvalid.1.1.1.1.1.1.1.1.1.1
  rw [hempty] at hname
  revert hname
  decide

/-! ## What the saga tells -/

/-- Every container of the instance is one the plan replaces. -/
def Covers (db : Db) (d : Deployment) : Prop :=
  ∀ r ∈ db.resources, r.instanceID = d.instanceID →
    ∃ t ∈ d.plan.services, t.containerID = r.containerID

/-- A container the plan replaces is gone. -/
def Overtaken (db : Db) (d : Deployment) : Prop :=
  ∃ t ∈ d.plan.services, ∀ r ∈ db.resources, r.instanceID = d.instanceID →
    r.containerID ≠ t.containerID

/-- What of the history is on record, and what of it is gone: on a cluster the tables still show the
success before the last one; on Docker no container that an earlier success made is left. -/
structure Saga.Recounts (s : Saga) : Prop where
  docker : ∀ x ∈ s.past.successes, x.row.plan.ns = "" → ∀ i ∈ s.db.instances,
    i.id = x.row.instanceID → i.ns = ""
  prior : ∀ i ∈ s.db.instances, ∀ x, s.past.last? i.id = some x → x.row.plan.ns ≠ "" →
    ∀ y, s.past.prior? x = some y → ∃ p ∈ s.db.deployments, p.id = y.row.id
  made : ∀ x ∈ s.past.successes, ∀ res, x.row.result = some res → ∀ id ∈ res.services,
    (x.row.instanceID, id.containerID) ∈ s.owned
  gone : ∀ x ∈ s.past.successes, x.row.plan.ns = "" →
    ∀ y, s.past.last? x.row.instanceID = some y → y ≠ x → ∀ res, x.row.result = some res →
    ∀ id ∈ res.services, ∀ r ∈ s.db.resources, r.instanceID = x.row.instanceID →
    r.containerID ≠ id.containerID

/-- What holds of the tables and the saga in every reachable state. An open plan covers the containers
of its instance or has been overtaken; on a cluster the tables still show that something newer was
sent. -/
structure Saga.Traced (s : Saga) : Prop extends s.Recounts where
  told : s.past.Told
  placed : Placed s.past.auto.server.used s.db
  docked : Docked s.db
  dated : ∀ n ∈ s.sent, n.createdAt ≤ s.past.auto.server.clock
  later : ∀ d ∈ s.db.deployments, d.kind = .apply → d.plan.ns ≠ "" →
    (∃ i ∈ s.db.instances, i.id = d.instanceID) → ∀ n ∈ s.sent, n.instanceID = d.instanceID →
    d.createdAt < n.createdAt → s.db.laterSent d = true
  bound : ∀ r ∈ s.db.resources, (r.instanceID, r.containerID) ∈ s.owned
  names : ∀ d ∈ s.db.deployments, d.kind = .apply → d.plan.ns = "" →
    (d.plan.services.map PlannedService.name).Nodup
  olds : ∀ d ∈ s.db.deployments, d.kind = .apply → d.plan.ns = "" → ∀ t ∈ d.plan.services,
    (d.instanceID, t.containerID) ∈ s.owned
  plans : ∀ d ∈ s.db.deployments, d.kind = .apply → d.plan.ns = "" → d.state.terminal = false →
    Covers s.db d ∨ Overtaken s.db d

/-- What a step does to the containers of an instance: a new one is new to the instance, and then an
old one is gone. -/
structure Turns (owned : List (String × String)) (db db' : Db) (instanceID : String) : Prop where
  new : ∀ r' ∈ db'.resources, r'.instanceID = instanceID →
    (∃ r ∈ db.resources, r.instanceID = instanceID ∧ r.containerID = r'.containerID) ∨
      (instanceID, r'.containerID) ∉ owned
  swap : (∀ r' ∈ db'.resources, r'.instanceID = instanceID →
      ∃ r ∈ db.resources, r.instanceID = instanceID ∧ r.containerID = r'.containerID) ∨
    ∃ r ∈ db.resources, r.instanceID = instanceID ∧ ∀ r' ∈ db'.resources,
      r'.instanceID = instanceID → r'.containerID ≠ r.containerID

theorem Turns.of_old {owned : List (String × String)} {db db' : Db} {instanceID : String}
    (h : ∀ r' ∈ db'.resources, r'.instanceID = instanceID →
      ∃ r ∈ db.resources, r.instanceID = instanceID ∧ r.containerID = r'.containerID) :
    Turns owned db db' instanceID :=
  ⟨fun r' hr' hi => .inl (h r' hr' hi), .inl h⟩

namespace Saga

variable {s : Saga} {now : Int} {db' : Db} {o : StoreOp}

theorem Traced.new : Saga.new.Traced := by
  refine ⟨⟨?_, ?_, ?_, ?_⟩, Chronicle.Told.new, ⟨List.Pairwise.nil, ?_, ?_, ?_⟩, ⟨?_, ?_⟩, ?_, ?_,
    ?_, ?_, ?_, ?_⟩
  all_goals
    intro x hx
    cases hx

variable {d : Deployment}

/-- The instance of an apply that settles is there, before and after. -/
theorem home_of_settled {clock : Int} {used : List String} {db : Db} (hs : Sound clock used db)
    {res : DeploymentResult} {out : Outcome} {st : DeploymentState}
    (hd : d ∈ db.deployments) (hk : d.kind = .apply) (hsettle : db.settleable d = true)
    (ht : Settled d res out st now db db') : ∃ i ∈ db'.instances, i.id = d.instanceID := by
  obtain ⟨i, hi, hid⟩ := (Table.find_isSome_iff _).1 ((hs.settleable_iff hd).1 hsettle).2.1
  have hinsts := ht.instances
  simp only [hk] at hinsts
  rw [hinsts]
  split
  · exact ⟨_, Table.mem_updateWhere.2 ⟨i, hi, rfl⟩, by simp [hid]⟩
  · exact ⟨i, hi, hid⟩

/-- A container of an instance that exists is on the endpoint of its deployments. -/
theorem endpoint_eq {used : List String} {db : Db} {clock : Int} (hplaced : Placed used db)
    (hs : Sound clock used db) (hd : d ∈ db.deployments)
    (hi : ∃ i ∈ db.instances, i.id = d.instanceID) {r : Resource} (hr : r ∈ db.resources)
    (hri : r.instanceID = d.instanceID) : r.endpointID = d.endpointID := by
  obtain ⟨i, hi, hid⟩ := hi
  rw [← hplaced.sited r hr i hi (hid.trans hri.symm), (hs.owner d hd i hi hid).2]

/-- What settling an apply does to the containers of an instance. -/
theorem Traced.turns_settle (h : s.Traced) {r : DeploymentResult} {out : Outcome}
    {st : DeploymentState} (hnew : s.newContainers r = true)
    (hd : s.db.deployment? r.deployment = some d) (hk : d.kind = .apply)
    (hsettle : s.db.settleable d = true) (hs' : Sound now s.past.auto.server.used db')
    (hplaced : Placed s.past.auto.server.used db')
    (ht : Settled d (legacyResult r) out st now s.db db') (instanceID : String) :
    Turns s.owned s.db db' instanceID := by
  have hs := h.told.inv.sound
  have hmem := Table.mem_of_find _ hd
  obtain ⟨hcontainers, -, -⟩ := ht.containers hk
  -- only the deployment's own instance gets containers, and those are reported
  have hreported : ∀ r' ∈ db'.resources, r' ∈ s.db.resources ∨ d.plan.ns = "" ∧
      r'.instanceID = d.instanceID ∧ ∃ id ∈ r.services, r'.containerID = id.containerID := by
    intro r' hr'
    rcases hcontainers r' hr' with hr' | ⟨hns, hi, -, hid⟩
    · exact .inl hr'
    · rw [legacyResult_services] at hid
      exact .inr ⟨hns, hi, hid⟩
  have hunseen : d.plan.ns = "" → ∀ id ∈ r.services, (d.instanceID, id.containerID) ∉ s.owned := by
    intro hns id hid
    simp only [newContainers, hd, Option.all_some, hns, ne_eq, not_true_eq_false, decide_false,
      Bool.false_or, List.all_eq_true, Bool.not_eq_true', List.contains_eq_mem,
      decide_eq_false_iff_not] at hnew
    exact hnew id hid
  by_cases hinst : d.plan.ns = "" ∧ instanceID = d.instanceID ∧ r.services ≠ []
  · obtain ⟨hns, rfl, hne⟩ := hinst
    refine ⟨?_, .inr ?_⟩
    · intro r' hr' hi
      rcases hreported r' hr' with hr' | ⟨-, -, id, hid, hc⟩
      · exact .inl ⟨r', hr', hi, rfl⟩
      · exact .inr (hc ▸ hunseen hns id hid)
    · obtain ⟨rs, hrs, hresources⟩ := ht.resources
      rw [if_neg (by simp [hk])] at hresources
      obtain ⟨-, hfold⟩ := hrs.docker hk hns
      rw [legacyResult_services] at hfold
      obtain ⟨first, rest, hrest⟩ := List.exists_cons_of_ne_nil hne
      rw [hrest] at hfold
      obtain ⟨r₀, hr₀, hi₀, he₀, hlost⟩ := foldlM_rebind_gone hfold
      refine ⟨r₀, hr₀, hi₀, ?_⟩
      intro r' hr' hi'
      have hend : r'.endpointID = d.endpointID := by
        have hrow : d.afterSettle (legacyResult r) st now d ∈ db'.deployments := by
          rw [ht.rows]
          exact List.mem_map_of_mem hmem
        have hsame : d.Same (d.afterSettle (legacyResult r) st now d) := afterSettle_same d
        obtain ⟨i, hi, hid⟩ := home_of_settled hs hmem hk hsettle ht
        exact (endpoint_eq hplaced hs' hrow ⟨i, hi, hid.trans hsame.2.2.1.symm⟩ hr'
          (hi'.trans hsame.2.2.1.symm)).trans hsame.2.2.2.1
      refine hlost ?_ r' (hresources ▸ hr') hi' hend
      intro x hx hc
      refine hunseen hns x (hrest ▸ hx) ?_
      rw [hc, ← hi₀]
      exact h.bound r₀ hr₀
  · apply Turns.of_old
    intro r' hr' hi
    rcases hreported r' hr' with hr' | ⟨hns, hri, id, hid, -⟩
    · exact ⟨r', hr', hi, rfl⟩
    · exact absurd ⟨hns, hi.symm.trans hri, List.ne_nil_of_mem hid⟩ hinst

/-- What a transaction of the store does to the containers of an instance. -/
theorem Traced.turns (h : s.Traced) (hs' : Sound now (o.fresh ++ s.past.auto.server.used) db')
    (hfresh : ∀ id ∈ o.fresh, id ∉ s.past.auto.server.used) (hexec : o.exec now s.db = .ok db')
    (hplaced : Placed (o.fresh ++ s.past.auto.server.used) db')
    (hkind : o.SettlesApply now s.db db' ∨ Holds o.fresh s.db db')
    (hset : ∀ e r, o = .lifecycle (.settleDeployment e r) → s.newContainers r = true)
    {instanceID : String} (hid : instanceID ∈ s.past.auto.server.used) :
    Turns s.owned s.db db' instanceID := by
  rcases hkind with ⟨e, r, d, out, st, rfl, hd, hk, -, -, -, hsettle, ht⟩ | hholds
  · exact h.turns_settle (hset e r rfl) hd hk hsettle hs' hplaced ht instanceID
  · apply Turns.of_old
    intro r' hr' hi
    rcases hholds r' hr' with ⟨r, hr, hinst, -, hc, -⟩ | hnew
    · exact ⟨r, hr, hinst.symm.trans hi, hc.symm⟩
    · exact absurd hid (hfresh _ (hi ▸ hnew))

/-- An open plan still covers its instance, or one of its containers is gone now. -/
theorem Traced.plans_old (h : s.Traced) {d' : Deployment} (hd : d ∈ s.db.deployments)
    (hk : d.kind = .apply) (hns : d.plan.ns = "") (hopen : d.state.terminal = false)
    (hinst : d'.instanceID = d.instanceID) (hplan : d'.plan = d.plan)
    (hturns : Turns s.owned s.db db' d.instanceID) : Covers db' d' ∨ Overtaken db' d' := by
  rw [Covers, Overtaken, hinst, hplan]
  rcases h.plans d hd hk hns hopen with hcovers | ⟨t, ht, hgone⟩
  · rcases hturns.swap with hold | ⟨r, hr, hri, hlost⟩
    · left
      intro r' hr' hi'
      obtain ⟨r, hr, hri, hc⟩ := hold r' hr' hi'
      obtain ⟨t, ht, htc⟩ := hcovers r hr hri
      exact ⟨t, ht, htc.trans hc⟩
    · right
      obtain ⟨t, ht, htc⟩ := hcovers r hr hri
      exact ⟨t, ht, fun r' hr' hi' => htc ▸ hlost r' hr' hi'⟩
  · right
    refine ⟨t, ht, fun r' hr' hi' hc => ?_⟩
    rcases hturns.new r' hr' hi' with ⟨r, hr, hri, hrc⟩ | hunseen
    · exact hgone r hr hri (hrc.trans hc)
    · exact hunseen (hc ▸ h.olds d hd hk hns t ht)

/-- A plan covers the containers of its instance when it is drawn, and each of its containers is one
of them. -/
theorem Traced.plans_new (h : s.Traced) (hdrawn : DrawnPlan now s.db db' d)
    (hns : d.plan.ns = "") : (d.plan.services.map PlannedService.name).Nodup ∧
      (∀ t ∈ d.plan.services, ∃ r ∈ db'.resources, r.instanceID = d.instanceID ∧
        r.containerID = t.containerID) ∧ Covers db' d := by
  obtain ⟨a, i, spec, c, revision, correlation, hi, hvalid, hcovers, hrow, hresources⟩ := hdrawn
  rw [hrow] at hns ⊢
  simp only [plannedRow] at hns ⊢
  have hins : i.ns = "" := by
    by_contra hne
    simp [draftPlan, hne] at hns
  have hcovers := hcovers hins
  simp only [mappingCovers, Bool.and_eq_true, decide_eq_true_eq, List.all_eq_true, List.any_eq_true,
    List.mem_filter, List.contains_eq_mem] at hcovers
  obtain ⟨⟨-, hbound⟩, hserved⟩ := hcovers
  have hservices : (draftPlan s.db i spec c).services = spec.services.map (dockerService s.db i c) := by
    simp [draftPlan, hins]
  have hnamesNodup := (wellFormed_of_validateApplicationSpec hvalid).serviceNames_nodup
  -- a bound service of the plan names its container
  have hcontainer : ∀ r ∈ s.db.resources, r.instanceID = i.id → ∀ t ∈ spec.services,
      t.name = r.serviceName → (dockerService s.db i c t).containerID = r.containerID := by
    intro r hr hri t ht htn
    have hne : t.name ≠ "" := service_name_ne hvalid ht
    obtain ⟨x, hx⟩ : ∃ x, s.db.bound? i.id t.name = some x := by
      apply Option.isSome_iff_exists.1
      rw [Db.bound?, List.find?_isSome]
      exact ⟨r, hr, by simp [hri, htn.symm, hne]⟩
    have hp := List.find?_some hx
    simp only [Bool.and_eq_true, decide_eq_true_eq] at hp
    have hxr : x = r := h.placed.once x (List.mem_of_find?_eq_some hx) r hr
      (hp.1.1.trans hri.symm) (hp.1.2 ▸ hne) (hp.1.2.trans htn)
    simp only [dockerService, hx, Option.map_some, Option.getD_some, hxr]
  rw [Covers, hresources, hservices]
  refine ⟨?_, ?_, ?_⟩
  · rw [List.map_map]
    exact hnamesNodup
  · intro t' ht'
    obtain ⟨t, ht, rfl⟩ := List.mem_map.1 ht'
    obtain ⟨r, ⟨hr, hri, -⟩, hrs⟩ := hserved t.name (List.mem_map_of_mem ht)
    exact ⟨r, hr, hri, (hcontainer r hr hri t ht hrs.symm).symm⟩
  · intro r hr hri
    have hend : r.endpointID = i.endpointID := (h.placed.sited r hr i hi hri.symm).symm
    obtain ⟨t, ht, htn⟩ := List.mem_map.1 (hbound r ⟨hr, hri, hend⟩)
    exact ⟨_, List.mem_map_of_mem ht, hcontainer r hr hri t ht htn⟩

/-- A newer apply that was sent is still seen. -/
theorem Traced.later_step (h : s.Traced) (hclock : s.past.auto.server.clock < now)
    (hfresh : ∀ id ∈ o.fresh, id ∉ s.past.auto.server.used) (hexec : o.exec now s.db = .ok db')
    (hprune : ∀ batch, o = .pruneDeployments batch → s.db.sparesHistory now batch = true)
    {d' : Deployment} (hd' : d' ∈ db'.deployments) (hk : d'.kind = .apply) (hns : d'.plan.ns ≠ "")
    (hi' : ∃ i ∈ db'.instances, i.id = d'.instanceID) {n : Deployment} (hn : n ∈ s.sent)
    (hinst : n.instanceID = d'.instanceID) (hlt : d'.createdAt < n.createdAt) :
    db'.laterSent d' = true := by
  have hs := h.told.inv.sound
  rcases row_back hs hexec hd' with ⟨d, hd, hsame, hplan, -⟩ | hnew
  · obtain ⟨i', hi', hid'⟩ := hi'
    obtain ⟨i, hi, hid⟩ : ∃ i ∈ s.db.instances, i.id = d.instanceID := by
      rcases instance_back hs hexec hi' with ⟨i, hi, hid⟩ | hnew
      · exact ⟨i, hi, hid.trans (hid'.trans hsame.2.2.1)⟩
      · exact absurd (hs.known d hd).2.1 (hfresh _ (hsame.2.2.1 ▸ hid' ▸ hnew))
    have hsent := h.later d hd (hsame.2.2.2.2.1 ▸ hk) (hplan ▸ hns) ⟨i, hi, hid⟩ n hn
      (hinst.trans hsame.2.2.1) (hsame.2.2.2.2.2.2 ▸ hlt)
    by_cases hop : ∃ batch, o = .pruneDeployments batch
    · obtain ⟨batch, rfl⟩ := hop
      have hspares := hprune batch rfl
      obtain rfl := Except.ok.inj hexec
      simp only [Db.sparesHistory, Bool.and_eq_true, List.all_eq_true, Bool.or_eq_true,
        decide_eq_true_eq] at hspares
      obtain ⟨hmem, hstays⟩ := List.mem_filter.1 hd'
      rw [laterSent_prune]
      rcases hspares.1 d' hmem with (((hc | hc) | hc) | hc) | hleft
      · rw [hc] at hstays
        cases hstays
      · exact absurd hk hc
      · exact absurd hc hns
      · rw [laterSent_congr hsame, hsent] at hc
        cases hc
      · exact hleft
    · simp only [Db.laterSent, List.any_eq_true, Bool.and_eq_true, decide_eq_true_eq] at hsent ⊢
      obtain ⟨e, he, ⟨⟨hei, hek⟩, helt⟩, hacted⟩ := hsent
      obtain ⟨e', he', hlasts⟩ := recalls_of_exec hs (not_exists.1 hop) hexec e he hacted
        ⟨i', hi', hid'.trans (hsame.2.2.1.trans hei.symm)⟩
      obtain ⟨hesame, hacted', -⟩ := hlasts
      refine ⟨e', he', ⟨⟨?_, hesame.2.2.2.2.1.trans hek⟩, ?_⟩, hacted'⟩
      · exact hesame.2.2.1.trans (hei.trans hsame.2.2.1.symm)
      · rw [hsame.2.2.2.2.2.2, hesame.2.2.2.2.2.2]
        exact helt
  · -- a plan of now is newer than all that was sent
    obtain ⟨a, i, spec, c, revision, correlation, -, -, -, hrow, -⟩ :=
      drawn_of_exec hs hfresh hexec hd' hk hnew
    have hcreated := congrArg Deployment.createdAt hrow
    simp only [plannedRow] at hcreated
    have hdated := h.dated n hn
    omega

/-- The success before the last one is still on record. -/
theorem Traced.prior_step (h : s.Traced) (hexec : o.exec now s.db = .ok db')
    (hprune : ∀ batch, o = .pruneDeployments batch → s.db.sparesHistory now batch = true)
    {i i' : Instance} (hi : i ∈ s.db.instances) (hi' : i' ∈ db'.instances) (hid : i.id = i'.id)
    {x y : Success} (hx : s.past.last? i.id = some x) (hns : x.row.plan.ns ≠ "")
    (hy : s.past.prior? x = some y) : ∃ p ∈ db'.deployments, p.id = y.row.id := by
  have hs := h.told.inv.sound
  obtain ⟨p, hp, hpid⟩ := h.prior i hi x hx hns y hy
  obtain ⟨hymem, hyinst, -⟩ := Chronicle.prior?_mem hy
  obtain ⟨hxmem, hxinst⟩ := Chronicle.last?_mem hx
  by_cases hop : ∃ batch, o = .pruneDeployments batch
  · obtain ⟨batch, rfl⟩ := hop
    have hspares := hprune batch rfl
    obtain rfl := Except.ok.inj hexec
    obtain ⟨d, rest, hrows, hdid, hsecond⟩ := h.told.applies_eq hi hx
    obtain ⟨p', rest', rfl, hp'id⟩ := hsecond y hy ⟨p, hp, hpid⟩
    have hd : d ∈ s.db.deployments :=
      (mem_succeededApplies.1 (hrows ▸ List.mem_cons_self)).1
    have hdns : d.plan.ns ≠ "" := by
      rw [h.told.entry x hxmem d hd hdid]
      exact hns
    simp only [Db.sparesHistory, Bool.and_eq_true, List.all_eq_true] at hspares
    have hleft := hspares.2 i hi
    have hrows : s.db.succeededApplies i.id = d :: p' :: rest' := hrows
    rw [hrows] at hleft
    simp only [hdns, decide_false, Bool.false_or, List.any_eq_true, Bool.and_eq_true,
      decide_eq_true_eq] at hleft
    obtain ⟨e, he, hstays, heid⟩ := hleft
    exact ⟨e, List.mem_filter.2 ⟨he, hstays⟩, heid.trans hp'id⟩
  · obtain ⟨-, hstate, hpi, -⟩ := h.told.row_eq hymem hp hpid
    have hacted : p.state ≠ .planned := by simp [hstate]
    obtain ⟨p', hp', hlasts⟩ := recalls_of_exec hs (not_exists.1 hop) hexec p hp hacted
      ⟨i', hi', hid.symm.trans (hxinst.symm.trans (hyinst.symm.trans hpi.symm))⟩
    exact ⟨p', hp', hlasts.1.1.trans hpid⟩

/-- What the tables show goes into the saga. -/
theorem mem_owned_of_bound {c : Chronicle} {r : Resource} (hr : r ∈ c.db.resources) :
    (r.instanceID, r.containerID) ∈ (s.extend c).owned :=
  List.mem_append_left _ (List.mem_append_left _
    (List.mem_map_of_mem hr))

/-- A sent apply is in the tables now, or was told of before. -/
theorem mem_sent {c : Chronicle} {n : Deployment} (hn : n ∈ (s.extend c).sent) :
    (n ∈ c.db.deployments ∧ n.kind = .apply ∧ n.state ≠ .planned) ∨ n ∈ s.sent := by
  rcases List.mem_append.1 hn with hn | hn
  · obtain ⟨hn, hp⟩ := List.mem_filter.1 hn
    simp only [Bool.and_eq_true, decide_eq_true_eq] at hp
    exact .inl ⟨hn, hp⟩
  · exact .inr hn

/-- Rows, containers and instances as they were. -/
theorem Traced.same (h : s.Traced) {c : Chronicle} (htold : c.Told)
    (hdeployments : c.db.deployments = s.db.deployments) (hinstances : c.db.instances = s.db.instances)
    (hresources : c.db.resources = s.db.resources) (hsuccesses : c.successes = s.past.successes)
    (hclock : s.past.auto.server.clock ≤ c.auto.server.clock)
    (hused : c.auto.server.used = s.past.auto.server.used) : (s.extend c).Traced := by
  have hlast : ∀ id, c.last? id = s.past.last? id := fun id => by
    rw [Chronicle.last?, hsuccesses]
    rfl
  have hprior : ∀ x, c.prior? x = s.past.prior? x := fun x => by
    rw [Chronicle.prior?, hsuccesses]
    rfl
  refine ⟨⟨?_, ?_, ?_, ?_⟩, htold, ⟨?_, ?_, ?_, ?_⟩, ⟨?_, ?_⟩, ?_, ?_, ?_, ?_, ?_, ?_⟩
  · intro x hx hns i hi
    exact h.docker x (hsuccesses ▸ hx) hns i (hinstances ▸ hi)
  · intro i hi x hx hns y hy
    have hi : i ∈ s.db.instances := hinstances ▸ hi
    obtain ⟨p, hp, hpid⟩ := h.prior i hi x ((hlast i.id).symm.trans hx) hns y ((hprior x).symm.trans hy)
    exact ⟨p, hdeployments ▸ hp, hpid⟩
  · intro x hx res hres id hid
    exact List.mem_append_right _ (h.made x (hsuccesses ▸ hx) res hres id hid)
  · intro x hx hns y hy hne res hres id hid r hr
    exact h.gone x (hsuccesses ▸ hx) hns y ((hlast _).symm.trans hy) hne res hres id hid r
      (hresources ▸ hr)
  · exact hresources ▸ h.placed.distinct
  · intro r hr r' hr'
    exact h.placed.once r (hresources ▸ hr) r' (hresources ▸ hr')
  · intro r hr i hi
    exact h.placed.sited r (hresources ▸ hr) i (hinstances ▸ hi)
  · intro r hr
    have hr : r ∈ s.db.resources := hresources ▸ hr
    exact hused ▸ h.placed.known r hr
  · intro d hd hk hns i hi
    exact h.docked.docker d (hdeployments ▸ hd) hk hns i (hinstances ▸ hi)
  · intro d hd hk hacted hns i hi
    exact h.docked.cluster d (hdeployments ▸ hd) hk hacted hns i (hinstances ▸ hi)
  · intro n hn
    rcases mem_sent hn with ⟨hn, -⟩ | hn
    · exact (htold.inv.sound.known n hn).2.2
    · exact (h.dated n hn).trans hclock
  · intro d hd hk hns hi n hn hinst hlt
    rcases mem_sent hn with ⟨hn, hnk, hacted⟩ | hn
    · exact List.any_eq_true.2 ⟨n, hn, by simp [hinst, hnk, hlt, hacted]⟩
    · have hsent := h.later d (hdeployments ▸ hd) hk hns (hinstances ▸ hi) n hn hinst hlt
      have hrows : (s.extend c).db.deployments = s.db.deployments := hdeployments
      rw [Db.laterSent, hrows]
      exact hsent
  · exact fun r hr => mem_owned_of_bound hr
  · exact fun d hd => h.names d (hdeployments ▸ hd)
  · intro d hd hk hns t ht
    exact List.mem_append_right _ (h.olds d (hdeployments ▸ hd) hk hns t ht)
  · intro d hd hk hns hopen
    have hrows : (s.extend c).db.resources = s.db.resources := hresources
    rw [Covers, Overtaken, hrows]
    exact h.plans d (hdeployments ▸ hd) hk hns hopen

section Stored

variable {a : Automation}

/-- A success leaves no container its instance had before. -/
theorem Traced.all_new (h : s.Traced) {d : Deployment} {r : DeploymentResult}
    (hw : Succeeds now d (legacyResult r) s.db db') (hid : d.id = r.deployment)
    (hnew : s.newContainers r = true) (hns : d.plan.ns = "")
    (hturns : Turns s.owned s.db db' d.instanceID)
    (hend : ∀ r' ∈ db'.resources, r'.instanceID = d.instanceID → r'.endpointID = d.endpointID)
    {r' : Resource} (hr' : r' ∈ db'.resources) (hi' : r'.instanceID = d.instanceID) :
    (d.instanceID, r'.containerID) ∉ s.owned := by
  have hs := h.told.inv.sound
  have hd : s.db.deployment? r.deployment = some d := by
    rw [← hid]
    exact Table.find_of_mem Deployment.id hs.ids hw.mem
  have hunseen : ∀ id ∈ (legacyResult r).services, (d.instanceID, id.containerID) ∉ s.owned := by
    intro id hmem
    rw [legacyResult_services] at hmem
    simp only [newContainers, hd, Option.all_some, hns, ne_eq, not_true_eq_false, decide_false,
      Bool.false_or, List.all_eq_true, Bool.not_eq_true', List.contains_eq_mem,
      decide_eq_false_iff_not] at hnew
    exact hnew id hmem
  have hreplaces := fun t (ht : t ∈ d.plan.services) =>
    hw.replaces hns (h.names d hw.mem hw.kind hns)
      (fun id hmem t ht hc => hunseen id hmem (hc ▸ h.olds d hw.mem hw.kind hns t ht)) ht
  have hopen : d.state.terminal = false := by
    rcases state_of_settleable hw.settleable with hstate | hstate <;> rw [hstate] <;> rfl
  rcases h.plans d hw.mem hw.kind hns hopen with hcovers | ⟨t, ht, hgone⟩
  · rcases hturns.new r' hr' hi' with ⟨r₀, hr₀, hri, hrc⟩ | hout
    · -- an old container is one of the plan's, and those are gone
      obtain ⟨t, ht, htc⟩ := hcovers r₀ hr₀ hri
      exact absurd (hrc.symm.trans htc.symm) ((hreplaces t ht).2 r' hr' hi' (hend r' hr' hi'))
    · exact hout
  · obtain ⟨r₀, hr₀, hri, -, hrc⟩ := (hreplaces t ht).1
    exact absurd hrc (hgone r₀ hr₀ hri)

/-- A container some success made is neither an old one that is left nor a new one. -/
theorem Traced.gone_step (h : s.Traced) {x y : Success} (hx : x ∈ s.past.successes)
    (hns : x.row.plan.ns = "") (hy : s.past.last? x.row.instanceID = some y) (hne : y ≠ x)
    {res : StoredDeploymentResult} (hres : x.row.result = some res) {id : DeploymentIdentity}
    (hid : id ∈ res.services) (hturns : Turns s.owned s.db db' x.row.instanceID) {r' : Resource}
    (hr' : r' ∈ db'.resources) (hi' : r'.instanceID = x.row.instanceID) :
    r'.containerID ≠ id.containerID := by
  intro hc
  rcases hturns.new r' hr' hi' with ⟨r, hr, hri, hrc⟩ | hout
  · exact h.gone x hx hns y hy hne res hres id hid r hr hri (hrc.trans hc)
  · exact hout (hc ▸ h.made x hx res hres id hid)

/-- The instance of a success on Docker stays one. -/
theorem Traced.docker_step (h : s.Traced) (hexec : o.exec now s.db = .ok db')
    (hfresh : ∀ id ∈ o.fresh, id ∉ s.past.auto.server.used) {x : Success}
    (hx : x ∈ s.past.successes) (hns : x.row.plan.ns = "") {i' : Instance}
    (hi' : i' ∈ db'.instances) (hid' : i'.id = x.row.instanceID) : i'.ns = "" := by
  have hs := h.told.inv.sound
  rcases instance_back hs hexec hi' with ⟨i, hi, hid⟩ | hnew
  · exact docker_of_exec hs hfresh hexec hi hi' hid (h.docker x hx hns i hi (hid.trans hid'))
  · exact absurd (h.told.known x hx).2 (hfresh _ (hid' ▸ hnew))

theorem Traced.recounts_quiet (h : s.Traced) (hexec : o.exec now s.db = .ok a.server.db)
    (hfresh : ∀ id ∈ o.fresh, id ∉ s.past.auto.server.used)
    (hprune : ∀ batch, o = .pruneDeployments batch → s.db.sparesHistory now batch = true)
    (hquiet : Quiet o.fresh s.db a.server.db)
    (hturns : ∀ id ∈ s.past.auto.server.used, Turns s.owned s.db a.server.db id) :
    (s.extend (s.past.extend a)).Recounts := by
  rw [Chronicle.extend_quiet hquiet]
  refine ⟨?_, ?_, ?_, ?_⟩
  · intro x hx hns i' hi' hid'
    exact h.docker_step hexec hfresh hx hns hi' hid'
  · intro i' hi' x hx hns y hy
    obtain ⟨hxmem, hxinst⟩ := Chronicle.last?_mem hx
    rcases hquiet.instances i' hi' with ⟨i, hi, hsame⟩ | ⟨hnew, -⟩
    · exact h.prior_step hexec hprune hi hi' hsame.id.symm (hsame.id ▸ hx) hns hy
    · exact absurd (h.told.known x hxmem).2 (hfresh _ (hxinst ▸ hnew))
  · intro x hx res hres id hid
    exact List.mem_append_right _ (h.made x hx res hres id hid)
  · intro x hx hns y hy hne res hres id hid r hr hri
    exact h.gone_step hx hns hy hne hres hid (hturns _ (h.told.known x hx).2) hr hri

theorem Traced.recounts_won (h : s.Traced) (hinv : a.Inv) (hclock : s.past.auto.server.clock < now)
    (hexec : o.exec now s.db = .ok a.server.db)
    (hfresh : ∀ id ∈ o.fresh, id ∉ s.past.auto.server.used) {d : Deployment}
    {r : DeploymentResult} (hw : Succeeds now d (legacyResult r) s.db a.server.db)
    (hid : d.id = r.deployment) (hnew : s.newContainers r = true)
    (hplaced : Placed a.server.used a.server.db) (hdocked : Docked a.server.db)
    (hturns : ∀ id ∈ s.past.auto.server.used, Turns s.owned s.db a.server.db id) :
    (s.extend (s.past.extend a)).Recounts := by
  have hs := h.told.inv.sound
  have hadd := Chronicle.extend_won hs hinv hw
  have hlt : ∀ x ∈ s.past.successes, x.at < (s.past.won d (legacyResult r) now).at := fun x hx =>
    h.told.at_lt hclock hx
  have hself : (s.past.add a (s.past.won d (legacyResult r) now)).last? d.instanceID =
      some (s.past.won d (legacyResult r) now) := Chronicle.last?_add_self
  have hrow := Chronicle.won_row hw
  rw [hadd]
  refine ⟨?_, ?_, ?_, ?_⟩
  · rintro x (_ | ⟨_, hx⟩) hns i' hi' hid'
    · exact hdocked.docker _ hrow hw.kind hns i' hi' hid'
    · exact h.docker_step hexec hfresh hx hns hi' hid'
  · intro i' hi' x hx hns y hy
    obtain ⟨i, hi, hii, -, -, -⟩ := Chronicle.won_instance hw hi'
    by_cases hid' : i'.id = d.instanceID
    · -- before the new success the instance ran its last one, which is on record
      rw [hid'] at hx
      obtain rfl := Option.some.inj (hself.symm.trans hx)
      have hy' := (Chronicle.prior?_add_self hlt).symm.trans hy
      obtain ⟨hrow, -⟩ := h.told.latest i hi y (hii ▸ hid' ▸ hy')
      exact Chronicle.won_stays hw hrow
    · have hx' := (Chronicle.last?_add hid').symm.trans hx
      obtain ⟨hxmem, -⟩ := Chronicle.last?_mem hx'
      have hy' := (Chronicle.prior?_add (hlt x hxmem)).symm.trans hy
      exact Chronicle.won_stays hw (h.prior i hi x (hii ▸ hx') hns y hy')
  · rintro x (_ | ⟨_, hx⟩) res hres id hmem
    · refine List.mem_append_left _ (List.mem_append_right _ (List.mem_flatMap.2 ⟨_, hrow, ?_⟩))
      rw [show (d.settled .succeeded (legacyResult r) now).result = some res from hres]
      exact List.mem_map_of_mem hmem
    · exact List.mem_append_right _ (h.made x hx res hres id hmem)
  · intro x hx hns y hy hne res hres id hmem r' hr' hri
    by_cases hinst : x.row.instanceID = d.instanceID
    · rw [hinst] at hy
      obtain rfl := Option.some.inj (hself.symm.trans hy)
      -- an earlier success of the instance: everything its instance has is new
      have hold : x ∈ s.past.successes := by
        rcases hx with _ | ⟨_, hx⟩
        · exact absurd rfl hne
        · exact hx
      obtain ⟨i, hi, hii⟩ := home_of_settled hs hw.mem hw.kind hw.settleable hw.tables
      have hns' : d.plan.ns = "" := by
        by_contra hne
        exact hdocked.cluster _ hrow hw.kind (by simp [Deployment.settled]) hne i hi hii
          (h.docker_step hexec hfresh hold hns hi (hii.trans hinst.symm))
      intro hc
      refine h.all_new hw hid hnew hns' (hturns _ (hs.known d hw.mem).2.1) ?_ hr'
        (hri.trans hinst) ?_
      · intro r'' hr'' hri''
        exact endpoint_eq hplaced hinv.sound hrow ⟨i, hi, hii⟩ hr'' hri''
      · rw [hc, ← hinst]
        exact h.made x hold res hres id hmem
    · have hy' := (Chronicle.last?_add hinst).symm.trans hy
      rcases hx with _ | ⟨_, hx⟩
      · exact absurd rfl hinst
      · exact h.gone_step hx hns hy' hne hres hmem (hturns _ (h.told.known x hx).2) hr' hri

theorem Traced.stored (h : s.Traced) (hinv : a.Inv) (hexec : o.exec now s.db = .ok a.server.db)
    (hfresh : ∀ id ∈ o.fresh, id ∉ s.past.auto.server.used)
    (hclock : s.past.auto.server.clock < now) (hnow : a.server.clock = now)
    (hused : a.server.used = o.fresh ++ s.past.auto.server.used)
    (hset : ∀ e r, o = .lifecycle (.settleDeployment e r) → s.newContainers r = true)
    (hprune : ∀ batch, o = .pruneDeployments batch → s.db.sparesHistory now batch = true)
    (htold : (s.past.extend a).Told) : (s.extend (s.past.extend a)).Traced := by
  have hs := h.told.inv.sound
  have hs' : Sound now (o.fresh ++ s.past.auto.server.used) a.server.db := by
    rw [← hnow, ← hused]
    exact hinv.sound
  obtain ⟨hplaced, hkind⟩ := placed_of_exec h.placed hs hs' hfresh hexec
  have hturns : ∀ id ∈ s.past.auto.server.used, Turns s.owned s.db a.server.db id := fun id hid =>
    h.turns hs' hfresh hexec hplaced hkind hset hid
  have hrow := fun d' (hd' : d' ∈ a.server.db.deployments) => row_back hs hexec hd'
  have hdrawn := fun d' (hd' : d' ∈ a.server.db.deployments) => drawn_of_exec hs hfresh hexec hd'
  have hdocked := docked_of_exec h.docked hs hs' hfresh hexec
  have hrecounts : (s.extend (s.past.extend a)).Recounts := by
    rcases episode_of_exec hs hexec with hquiet | ⟨d, res, ⟨e, r, rfl, hid, rfl⟩, hw⟩
    · exact h.recounts_quiet hexec hfresh hprune hquiet hturns
    · exact h.recounts_won hinv hclock hexec hfresh hw hid (hset e r rfl) (hused ▸ hplaced) hdocked
        hturns
  refine ⟨hrecounts, htold, ?_, hdocked, ?_, ?_, fun r hr => mem_owned_of_bound hr, ?_, ?_, ?_⟩
  · have hsame : (s.extend (s.past.extend a)).past.auto.server.used =
        o.fresh ++ s.past.auto.server.used := hused
    rw [hsame]
    exact hplaced
  · intro n hn
    rcases mem_sent hn with ⟨hn, -⟩ | hn
    · exact (hinv.sound.known n hn).2.2
    · exact (h.dated n hn).trans (hnow ▸ hclock.le)
  · intro d' hd' hk hns hi n hn hinst hlt
    rcases mem_sent hn with ⟨hn, hnk, hacted⟩ | hn
    · exact List.any_eq_true.2 ⟨n, hn, by simp [hinst, hnk, hlt, hacted]⟩
    · exact h.later_step hclock hfresh hexec hprune hd' hk hns hi hn hinst hlt
  · intro d' hd' hk hns
    rcases hrow d' hd' with ⟨d, hd, hsame, hplan, -⟩ | hnew
    · rw [hplan] at hns ⊢
      exact h.names d hd (hsame.2.2.2.2.1 ▸ hk) hns
    · exact (h.plans_new (hdrawn d' hd' hk hnew) hns).1
  · intro d' hd' hk hns t ht
    rcases hrow d' hd' with ⟨d, hd, hsame, hplan, -⟩ | hnew
    · rw [hplan] at hns ht
      rw [hsame.2.2.1]
      exact List.mem_append_right _ (h.olds d hd (hsame.2.2.2.2.1 ▸ hk) hns t ht)
    · obtain ⟨r, hr, hri, hrc⟩ := (h.plans_new (hdrawn d' hd' hk hnew) hns).2.1 t ht
      rw [← hri, ← hrc]
      exact mem_owned_of_bound hr
  · intro d' hd' hk hns hopen
    rcases hrow d' hd' with ⟨d, hd, hsame, hplan, hstate⟩ | hnew
    · rw [hplan] at hns
      exact h.plans_old hd (hsame.2.2.2.2.1 ▸ hk) hns (hstate hopen) hsame.2.2.1 hplan
        (hturns _ (hs.known d hd).2.1)
    · exact .inl (h.plans_new (hdrawn d' hd' hk hnew) hns).2.2

/-- One step of the server. -/
theorem Traced.step (h : s.Traced) {op : Int × AutomationOp} (hcareful : s.careful op)
    (hstep : automation.step op s.past.auto = .ok a) : (s.extend (s.past.extend a)).Traced := by
  obtain ⟨hinv, -⟩ := Automation.step_advances h.told.inv hstep
  have htold := h.told.step hstep
  rcases Automation.store_or_aside h.told.inv hstep with
    ⟨o, hexec, hfresh, hclock, hnow, hused, -, hby⟩ | ⟨haside, hclock, hused⟩
  · refine h.stored hinv hexec hfresh hclock hnow hused ?_ ?_ htold
    · rintro e r rfl
      rcases hby with hop | hby
      · rw [careful, hop] at hcareful
        exact hcareful
      · cases hby
    · rintro batch rfl
      rcases hby with hop | hby
      · rw [careful, hop] at hcareful
        exact hcareful
      · cases hby
  · have hquiet : Quiet [] s.past.db a.server.db := .of_tables haside.deployments haside.instances
    rw [Chronicle.extend_quiet hquiet] at htold ⊢
    exact h.same htold haside.deployments haside.instances haside.resources rfl hclock hused

theorem traced_of_steps (h : (saga.restrict careful).Steps .new s) : s.Traced := by
  refine Machine.restrict_keeps ?_ h Traced.new
  intro op s s' hs hcareful hstep
  obtain ⟨past, hpast, rfl⟩ := map_eq_ok.1 hstep
  obtain ⟨a, hauto, rfl⟩ := map_eq_ok.1 hpast
  exact hs.step hcareful hauto

end Stored

end Saga

/-! ## Rollbacks -/

/-- What a rollback of a deployment on Docker returns to: every service runs the container the
deployment made, the images are those the plan replaced, the revision is the one that ran before, or
the adopted one. -/
structure Saga.DockerReturn (s : Saga) (x : Success) (d : Deployment) (i : Instance) (t : Rollback) :
    Prop where
  services : ∀ p ∈ d.plan.services, ∃ r ∈ s.db.resources, r.instanceID = i.id ∧
    r.serviceName = p.name
  bound : ∀ r ∈ s.db.resources, r.instanceID = i.id → r.serviceName ≠ "" →
    ∃ result, d.result = some result ∧
      ∃ id ∈ result.services, id.service = r.serviceName ∧ id.containerID = r.containerID
  images : ∀ p ∈ d.plan.services, t.images.contains p.name = true
  replaced : ∀ name image, t.images.get? name = some image →
    ∃ p ∈ d.plan.services, p.name = name ∧ p.replaces.imageID = image
  revision : t.revision = if x.before = 0 then i.revision else x.before

/-- What a rollback of a deployment on a cluster returns to: the revision and the pinned images of the
apply that succeeded last before it, and no newer apply was ever sent. -/
structure Saga.ClusterReturn (s : Saga) (x : Success) (d : Deployment) (t : Rollback) : Prop where
  prior : ∃ y, s.past.prior? x = some y ∧ t.revision = y.row.revision ∧
    (∀ p ∈ y.row.plan.services, t.images.contains p.name = true) ∧
    ∀ name image, t.images.get? name = some image →
      ∃ p ∈ y.row.plan.services, p.name = name ∧ p.pullReference = image ∧ p.pinned = true
  newest : ∀ n ∈ s.sent, n.instanceID = d.instanceID → n.createdAt ≤ d.createdAt

namespace Saga

variable {s : Saga}

/-- An instance with a success has a last one. -/
theorem Traced.last_of_success (h : s.Traced) {x : Success} (hx : x ∈ s.past.successes) :
    ∃ y, s.past.last? x.row.instanceID = some y ∧ (x = y ∨ x.at < y.at) := by
  obtain ⟨y, hy⟩ : ∃ y, s.past.last? x.row.instanceID = some y := by
    apply Option.isSome_iff_exists.1
    rw [Chronicle.last?, List.find?_isSome]
    exact ⟨x, hx, by simp⟩
  exact ⟨y, hy, h.told.last_latest hy hx rfl⟩

theorem Traced.docker_return (h : s.Traced) {x : Success} (hx : x ∈ s.past.successes)
    {d : Deployment} (hd : d ∈ s.db.deployments) (hdx : d.id = x.row.id) {i : Instance}
    (hi : i ∈ s.db.instances) (hid : i.id = d.instanceID) {result : StoredDeploymentResult}
    (hresult : d.result = some result) (hns : d.plan.ns = "") {t : Rollback}
    (ht : DockerTarget d i result s.db t) : s.DockerReturn x d i t := by
  have hrow := h.told.entry x hx d hd hdx
  have hinst : d.instanceID = x.row.instanceID := by rw [hrow]
  -- after a later success no container of this one would be left
  have hlast : s.past.last? i.id = some x := by
    obtain ⟨y, hy, -⟩ := h.last_of_success hx
    rw [hid, hinst, hy]
    by_contra hne
    obtain ⟨p, rest, hplan⟩ := List.exists_cons_of_ne_nil ht.planned
    obtain ⟨r, hr, hri, -, hnamed⟩ := ht.services p (hplan ▸ List.mem_cons_self)
    obtain ⟨c, hc, -, hcontainer⟩ := ht.bound r hr hri hnamed
    rw [hrow] at hresult hns
    exact h.gone x hx hns y hy (fun heq => hne (heq ▸ rfl)) result hresult c hc r hr
      (hri.trans (hid.trans hinst)) hcontainer.symm
  refine ⟨?_, ?_, ht.images, ht.replaced, ?_⟩
  · intro p hp
    obtain ⟨r, hr, hri, hname, -⟩ := ht.services p hp
    exact ⟨r, hr, hri, hname⟩
  · intro r hr hri hnamed
    exact ⟨result, hresult, ht.bound r hr hri hnamed⟩
  · rw [ht.revision, Instance.replacedRevision, (h.told.latest i hi x hlast).previous]

theorem Traced.cluster_return (h : s.Traced) {x : Success} (hx : x ∈ s.past.successes)
    {d : Deployment} (hd : d ∈ s.db.deployments) (hdx : d.id = x.row.id) {i : Instance}
    (hi : i ∈ s.db.instances) (hid : i.id = d.instanceID) (hns : d.plan.ns ≠ "") {p : Deployment}
    {t : Rollback} (ht : ClusterTarget d i s.db p t) : s.ClusterReturn x d t := by
  have hrow := h.told.entry x hx d hd hdx
  have hinst : d.instanceID = x.row.instanceID := by rw [hrow]
  obtain ⟨latest, rest, hrows, hlatest⟩ := ht.latest
  obtain ⟨y, hy, hxy⟩ := h.last_of_success hx
  rw [← hinst, ← hid] at hy
  obtain ⟨d₀, rest₀, hrows₀, hd₀, hsecond⟩ := h.told.applies_eq hi hy
  have hrows₀ : s.db.succeededApplies i.id = d₀ :: rest₀ := hrows₀
  rw [hrows] at hrows₀
  obtain ⟨rfl, rfl⟩ := List.cons.inj hrows₀
  -- the newest row on record is the deployment's: it is the last success
  obtain rfl : y = x := by
    obtain ⟨hymem, -⟩ := Chronicle.last?_mem hy
    have hdy : d.id = y.row.id := hlatest.symm.trans hd₀
    obtain ⟨-, -, -, -, -, hxat⟩ := h.told.row_eq hx hd hdx
    obtain ⟨-, -, -, -, -, hyat⟩ := h.told.row_eq hymem hd hdy
    have hat : x.at = y.at := Option.some.inj (hxat.symm.trans hyat)
    rcases hxy with heq | hlt
    · exact heq.symm
    · omega
  have hp : p ∈ s.past.db.succeededApplies i.id := by
    have hrows : s.past.db.succeededApplies i.id = latest :: p :: rest := hrows
    rw [hrows]
    exact List.mem_cons_of_mem _ List.mem_cons_self
  have hpmem : p ∈ s.db.deployments := (mem_succeededApplies.1 hp).1
  obtain ⟨z, hz, hzid, hzinst, -⟩ := h.told.entry_of hp
  refine ⟨?_, ?_⟩
  · obtain ⟨w, hw⟩ : ∃ w, s.past.prior? y = some w := by
      apply Option.isSome_iff_exists.1
      rw [Chronicle.prior?, List.find?_isSome]
      refine ⟨z, hz, ?_⟩
      have hzy : z.at < y.at := by
        rcases h.told.last_latest hy hz hzinst with rfl | hlt
        · -- two rows of one success would be one row
          have hsame : p = latest := List.inj_on_of_nodup_map h.told.inv.sound.ids hpmem
            (mem_succeededApplies.1 (hrows ▸ List.mem_cons_self)).1
            (hzid.symm.trans hd₀.symm)
          have hnodup : (s.db.succeededApplies i.id).Nodup :=
            nodup_succeededApplies h.told.inv.sound.ids
          rw [hrows, hsame] at hnodup
          exact absurd List.mem_cons_self (List.nodup_cons.1 hnodup).1
        · exact hlt
      simp [hzinst.trans (hid.trans hinst), hzy]
    have hwrow := h.prior i hi y hy (by rw [hrow] at hns; exact hns) w hw
    obtain ⟨p', rest', hrest, hp'⟩ := hsecond w hw hwrow
    obtain ⟨rfl, rfl⟩ := List.cons.inj hrest
    obtain ⟨hwmem, -, -⟩ := Chronicle.prior?_mem hw
    have hprow := h.told.entry w hwmem p hpmem hp'
    refine ⟨w, hw, ?_, ?_, ?_⟩
    · rw [ht.revision, hprow]
    · intro q hq
      exact ht.images q (by rw [hprow]; exact hq)
    · intro name image himage
      obtain ⟨q, hq, hname, hpull, hpinned⟩ := ht.pulled name image himage
      rw [hprow] at hq
      exact ⟨q, hq, hname, hpull, hpinned⟩
  · intro n hn hninst
    by_contra hlt
    have hkind : d.kind = .apply := (h.told.row_eq hx hd hdx).1
    have hsent := h.later d hd hkind hns ⟨i, hi, hid⟩ n hn hninst (not_le.1 hlt)
    rw [ht.later] at hsent
    cases hsent

end Saga

/-- A rollback returns to what ran before, in every run in which results report new containers and
retention leaves the history it reads. -/
theorem rollback_returns {s : Saga} (h : (saga.restrict Saga.careful).Steps .new s)
    (onHosts : String → String → Bool) (app deployment : String) {t : Rollback}
    (ht : rollbackTarget onHosts app deployment s.db = .ok (.ok t)) :
    ∃ x ∈ s.past.successes, ∃ d ∈ s.db.deployments, ∃ i ∈ s.db.instances, d.id = deployment ∧
      x.row.id = deployment ∧ i.id = d.instanceID ∧
      (d.plan.ns = "" → s.DockerReturn x d i t) ∧ (d.plan.ns ≠ "" → s.ClusterReturn x d t) := by
  have htraced := Saga.traced_of_steps h
  obtain ⟨d, v, i, result, hd, hv, hi, hresult, hdocker, hcluster⟩ :=
    rollbackTarget_ok htraced.placed.once ht
  obtain ⟨x, hx, hxid, -⟩ := htraced.told.homes v (Table.mem_of_find _ hv)
  have hvid : v.deploymentID = deployment := Table.key_of_find _ hv
  have hdmem := Table.mem_of_find _ hd
  have hdid : d.id = deployment := Table.key_of_find _ hd
  have himem := Table.mem_of_find _ hi
  have hiid : i.id = d.instanceID := Table.key_of_find _ hi
  have hdx : d.id = x.row.id := hdid.trans (hvid.symm.trans hxid.symm)
  refine ⟨x, hx, d, hdmem, i, himem, hdid, hxid.trans hvid, hiid, ?_, ?_⟩
  · intro hns
    exact htraced.docker_return hx hdmem hdx himem hiid hresult hns (hdocker hns)
  · intro hns
    obtain ⟨p, hp⟩ := hcluster hns
    exact htraced.cluster_return hx hdmem hdx himem hiid hns hp

/-- The update of a cluster returns to the revision and the digest its policy replaced, that of a
Docker host to the image of the container it replaced. -/
theorem rollback_returns_update :
    (let s := (saga.restrict Saga.careful).run clusterUpdate .new
     s.past.successes.map (fun x => x.row.id) = [rowID 2, rowID 1] ∧
       ∃ t, rollbackTarget (fun _ _ => true) "a" (rowID 2) s.db = .ok (.ok t) ∧
         ∃ x ∈ s.past.successes, ∃ d ∈ s.db.deployments, d.id = rowID 2 ∧ s.ClusterReturn x d t) ∧
      let s := (saga.restrict Saga.careful).run policyRun .new
      s.past.successes.map (fun x => x.row.id) = [rowID 2, rowID 1] ∧
        ∃ t, rollbackTarget (fun _ _ => true) "a" (rowID 2) s.db = .ok (.ok t) ∧
          ∃ x ∈ s.past.successes, ∃ d ∈ s.db.deployments, ∃ i ∈ s.db.instances, d.id = rowID 2 ∧
            s.DockerReturn x d i t := by
  refine ⟨?_, ?_⟩
  · intro s
    have hsteps : (saga.restrict Saga.careful).Steps .new s := Machine.steps_run _ _
    have htarget : rollbackTarget (fun _ _ => true) "a" (rowID 2) s.db =
        .ok (.ok ⟨"i", 1, "app", 1, .ofList [("web", "nginx@" ++ sampleImage 2)]⟩) := by
      decide +kernel
    have hcluster : ∀ d ∈ s.db.deployments, d.plan.ns ≠ "" := by decide +kernel
    refine ⟨by decide +kernel, _, htarget, ?_⟩
    obtain ⟨x, hx, d, hd, i, -, hid, -, -, -, hreturn⟩ := rollback_returns hsteps _ _ _ htarget
    exact ⟨x, hx, d, hd, hid, hreturn (hcluster d hd)⟩
  · intro s
    have hsteps : (saga.restrict Saga.careful).Steps .new s := Machine.steps_run _ _
    have htarget : rollbackTarget (fun _ _ => true) "a" (rowID 2) s.db =
        .ok (.ok ⟨"i", 1, "p", 1, .ofList [("web", sampleImage 2)]⟩) := by
      decide +kernel
    have hdocker : ∀ d ∈ s.db.deployments, d.plan.ns = "" := by decide +kernel
    refine ⟨by decide +kernel, _, htarget, ?_⟩
    obtain ⟨x, hx, d, hd, i, hi, hid, -, -, hreturn, -⟩ := rollback_returns hsteps _ _ _ htarget
    exact ⟨x, hx, d, hd, i, hi, hid, hreturn (hdocker d hd)⟩

/-- Once retention has deleted the newer apply that failed, the update is rolled back under it. -/
theorem rollback_after_prune :
    let s := saga.run
      (overtakenRun ++ [(15 + deploymentHistoryRetention, .store (.pruneDeployments [rowID 3]))]) .new
    saga.Steps .new s ∧
      rollbackTarget (fun _ _ => true) "a" (rowID 2) s.db =
        .ok (.ok ⟨"i", 1, "app", 1, .ofList [("web", "nginx@" ++ sampleImage 2)]⟩) ∧
      ∃ d ∈ s.db.deployments, d.id = rowID 2 ∧ d.plan.ns ≠ "" ∧
        ∃ n ∈ s.sent, n.id = rowID 3 ∧ n.instanceID = d.instanceID ∧ d.createdAt < n.createdAt := by
  refine ⟨Machine.steps_run _ _, by decide +kernel, by decide +kernel⟩

end KyYard.Store
