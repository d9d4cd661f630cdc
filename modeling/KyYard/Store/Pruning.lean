import KyYard.Store.Chronicle
import KyYard.Store.Naming

/-!
# Retention and open rollbacks

A pass of retention deletes rows and changes nothing else a rollback reads (`Thins`). Where it leaves
the rows the decision reads, the decision stays what it was (`Thins.rollbackTarget`).

`retention_keeps_rollbacks` says that retention never takes a row an open rollback needs and, where a
pass leaves a newer deployment that was sent, never changes what `rollbackTarget` decides. A pass that
deletes a newer deployment that failed does (`prune_changes_target`).
-/

namespace KyYard.Store

open Foundation Protocol

/-! ## Fewer rows -/

/-- Rows go, each validation only with its deployment, and the others at most forget their run. -/
structure Thins (q : Deployment → Bool) (f : Deployment → Deployment) (k : Validation → Bool)
    (g : Validation → Validation) (db db' : Db) : Prop where
  row : ∀ d, f d = { d with policyRunID := (f d).policyRunID }
  validation : ∀ v : Validation, v.Same (g v)
  deployments : db'.deployments = (db.deployments.filter q).map f
  validations : db'.validations = (db.validations.filter k).map g
  gone : ∀ v ∈ db.validations, k v = false → ∃ d ∈ db.deployments, q d = false ∧ d.id = v.deploymentID
  instances : db'.instances = db.instances
  resources : db'.resources = db.resources

namespace Thins

variable {q q' : Deployment → Bool} {f f' : Deployment → Deployment} {k k' : Validation → Bool}
  {g g' : Validation → Validation} {db db₁ db' : Db}

theorem deleteDeployments (p : Deployment → Bool) (db : Db) :
    Thins (fun d => !p d) id (fun v => !db.deployments.any fun d => p d && d.id = v.deploymentID) id
      db (db.deleteDeployments p) := by
  refine ⟨fun _ => rfl, fun _ => ⟨rfl, fun hv => hv⟩, ?_, ?_, ?_, rfl, rfl⟩
  · rw [List.map_id]
    rfl
  · rw [List.map_id]
    rfl
  · intro v _ hk
    simp only [Bool.not_eq_false', List.any_eq_true, Bool.and_eq_true, decide_eq_true_eq] at hk
    obtain ⟨d, hd, hp, hid⟩ := hk
    exact ⟨d, hd, by simp [hp], hid⟩

theorem of_map (row : ∀ d, f d = { d with policyRunID := (f d).policyRunID })
    (validation : ∀ v : Validation, v.Same (g v))
    (deployments : db'.deployments = db.deployments.map f)
    (validations : db'.validations = db.validations.map g) (instances : db'.instances = db.instances)
    (resources : db'.resources = db.resources) :
    Thins (fun _ => true) f (fun _ => true) g db db' := by
  refine ⟨row, validation, ?_, ?_, ?_, instances, resources⟩
  · rw [deployments, List.filter_true]
  · rw [validations, List.filter_true]
  · intro _ _ hk
    cases hk

theorem refl (db : Db) : Thins (fun _ => true) id (fun _ => true) id db db :=
  of_map (fun _ => rfl) (fun _ => ⟨rfl, fun hv => hv⟩) (List.map_id _).symm (List.map_id _).symm rfl rfl

theorem trans (h : Thins q f k g db db₁) (h' : Thins q' f' k' g' db₁ db') :
    Thins (fun d => q d && q' (f d)) (f' ∘ f) (fun v => k v && k' (g v)) (g' ∘ g) db db' := by
  refine ⟨?_, ?_, ?_, ?_, ?_, h'.instances.trans h.instances, h'.resources.trans h.resources⟩
  · intro d
    rw [Function.comp_apply, h'.row, h.row]
  · intro v
    refine ⟨?_, fun hv => (h'.validation (g v)).2 ((h.validation v).2 hv)⟩
    rw [Function.comp_apply, (h'.validation (g v)).1, (h.validation v).1]
  · rw [h'.deployments, h.deployments, List.filter_map, List.map_map, List.filter_filter]
    congr 2
    funext d
    exact Bool.and_comm ..
  · rw [h'.validations, h.validations, List.filter_map, List.map_map, List.filter_filter]
    congr 2
    funext v
    exact Bool.and_comm ..
  · intro v hv hk
    by_cases hkept : k v = true
    · simp only [hkept] at hk
      obtain ⟨d₁, hd₁, hq, hid⟩ := h'.gone (g v)
        (h.validations ▸ List.mem_map_of_mem (List.mem_filter.2 ⟨hv, hkept⟩)) hk
      rw [h.deployments] at hd₁
      obtain ⟨d, hd, rfl⟩ := List.mem_map.1 hd₁
      refine ⟨d, List.mem_of_mem_filter hd, by simp [hq], ?_⟩
      rw [h.row, (h.validation v).1] at hid
      exact hid
    · obtain ⟨d, hd, hq, hid⟩ := h.gone v hv (by simpa using hkept)
      exact ⟨d, hd, by simp [hq], hid⟩

/-! ### What readers see -/

theorem deployment? (h : Thins q f k g db db') {id : String}
    (hq : ∀ d ∈ db.deployments, d.id = id → q d = true) :
    db'.deployment? id = (db.deployment? id).map f := by
  rw [Db.deployment?, h.deployments, Table.find_map Deployment.id (fun d => by rw [h.row]),
    Table.find_filter Deployment.id hq]
  rfl

theorem validation? (h : Thins q f k g db db') {id : String}
    (hk : ∀ v ∈ db.validations, v.deploymentID = id → k v = true) :
    db'.validation? id = (db.validation? id).map g := by
  rw [Db.validation?, h.validations, Table.find_map Validation.deploymentID
    (fun v => by rw [(h.validation v).1]), Table.find_filter Validation.deploymentID hk]
  rfl

/-- The succeeded applies of an instance that loses none. -/
theorem succeededApplies (h : Thins q f k g db db') {instanceID : String}
    (hq : ∀ d ∈ db.deployments, d.succeededApply instanceID = true → q d = true) :
    db'.succeededApplies instanceID = (db.succeededApplies instanceID).map f := by
  have hsame : (Deployment.succeededApply instanceID) ∘ f = Deployment.succeededApply instanceID := by
    funext d
    rw [Function.comp_apply, h.row]
    rfl
  rw [Db.succeededApplies, Db.succeededApplies, List.map_insertionSort _ Deployment.SettledAfter,
    h.deployments,
    List.filter_map, hsame, List.filter_filter]
  · congr 2
    apply List.filter_congr
    intro d hd
    by_cases hp : d.succeededApply instanceID = true
    · simp [hq d hd hp]
    · simp [hp]
  · intro a _ b _
    rw [h.row a, h.row b]
    rfl

/-- The rows a decision about a deployment reads are left. -/
structure Leaves (q : Deployment → Bool) (k : Validation → Bool) (db db' : Db) (d : Deployment) :
    Prop where
  row : ∀ e ∈ db.deployments, e.id = d.id → q e = true
  validations : ∀ v ∈ db.validations, v.deploymentID = d.id ∨ v.instanceID = d.instanceID →
    k v = true
  running : ∀ v ∈ db.validations, v.instanceID = d.instanceID → ∀ r ∈ db.deployments,
    v.rollbackDeploymentID = some r.id → r.state.live = true → q r = true
  succeeded : ∀ e ∈ db.deployments, e.succeededApply d.instanceID = true → q e = true
  sent : d.plan.ns ≠ "" → db.laterSent d = true → db'.laterSent d = true
  revisions : ∀ n, db'.revision? d.applicationID n = db.revision? d.applicationID n

variable {d : Deployment}

theorem rollbackInFlight (h : Thins q f k g db db') (hd : Leaves q k db db' d) :
    db'.rollbackInFlight d.instanceID d.id = db.rollbackInFlight d.instanceID d.id := by
  have hlive : ∀ v ∈ db.validations, v.instanceID = d.instanceID →
      (db'.deployments.any fun r => (g v).rollbackDeploymentID = some r.id && r.state.live) =
        db.deployments.any fun r => v.rollbackDeploymentID = some r.id && r.state.live := by
    intro v hv hinst
    rw [h.deployments, List.any_map, List.any_filter, (h.validation v).1, Bool.eq_iff_iff,
      List.any_eq_true, List.any_eq_true]
    refine exists_congr fun r => and_congr_right fun hr => ?_
    rw [Function.comp_apply, h.row r]
    simp only [Bool.and_eq_true, decide_eq_true_eq]
    constructor
    · exact fun hc => hc.2
    · exact fun hc => ⟨hd.running v hv hinst r hr hc.1 hc.2, hc⟩
  rw [Db.rollbackInFlight, Db.rollbackInFlight]
  nth_rewrite 1 [h.validations]
  rw [List.any_map, List.any_filter, Bool.eq_iff_iff, List.any_eq_true, List.any_eq_true]
  refine exists_congr fun v => and_congr_right fun hv => ?_
  by_cases hinst : v.instanceID = d.instanceID
  · rw [hd.validations v hv (.inr hinst), Bool.true_and, Function.comp_apply, hlive v hv hinst,
      (h.validation v).1]
  · have hg : (g v).instanceID = v.instanceID := by rw [(h.validation v).1]
    simp [hinst, hg]

theorem laterSent_le (h : Thins q f k g db db') (hsent : db'.laterSent d = true) :
    db.laterSent d = true := by
  simp only [Db.laterSent, List.any_eq_true] at hsent ⊢
  obtain ⟨n', hn', hp⟩ := hsent
  rw [h.deployments] at hn'
  obtain ⟨n, hn, rfl⟩ := List.mem_map.1 hn'
  rw [h.row] at hp
  exact ⟨n, List.mem_of_mem_filter hn, hp⟩

theorem clusterRollback (h : Thins q f k g db db') (hd : Leaves q k db db' d) (i : Instance)
    (hi : i.id = d.instanceID) (hns : d.plan.ns ≠ "") :
    Store.clusterRollback (f d) i db' = Store.clusterRollback d i db := by
  have hsent : db'.laterSent d = db.laterSent d :=
    Bool.eq_iff_iff.2 ⟨h.laterSent_le, hd.sent hns⟩
  have happlies : db'.succeededApplies i.id = (db.succeededApplies i.id).map f :=
    h.succeededApplies fun e he => hi ▸ hd.succeeded e he
  have hvalid : ∀ n, db'.revisionValid d.applicationID n = db.revisionValid d.applicationID n := by
    intro n
    rw [Db.revisionValid, Db.revisionValid, hd.revisions]
  rw [h.row d]
  have hlater : db'.laterSent { d with policyRunID := (f d).policyRunID } = db.laterSent d := hsent
  rw [Store.clusterRollback, Store.clusterRollback, hlater, happlies]
  cases db.succeededApplies i.id with
  | nil => rfl
  | cons latest rest =>
    cases rest with
    | nil =>
      rw [List.map_cons, List.map_nil, h.row latest]
    | cons prior =>
      rw [List.map_cons, List.map_cons, h.row latest, h.row prior]
      simp only [hvalid]

theorem dockerRollback (h : Thins q f k g db db') (hd : Leaves q k db db' d)
    (onHost : String → Bool) (i : Instance) (result : StoredDeploymentResult) :
    Store.dockerRollback onHost (f d) i result db' = Store.dockerRollback onHost d i result db := by
  have hvalid : ∀ n, db'.revisionValid d.applicationID n = db.revisionValid d.applicationID n := by
    intro n
    rw [Db.revisionValid, Db.revisionValid, hd.revisions]
  have hbound : db'.boundServices i.id = db.boundServices i.id := by
    rw [Db.boundServices, h.resources]
    rfl
  rw [h.row d, Store.dockerRollback, Store.dockerRollback]
  simp only [hvalid, hbound]

/-- Where the rows it reads are left, the decision is the same. -/
theorem rollbackTarget (h : Thins q f k g db db') {deployment : String}
    (hrow : db.deployment? deployment = some d) (hd : Leaves q k db db' d)
    (onHost : String → String → Bool) (app : String) :
    Store.rollbackTarget onHost app deployment db' = Store.rollbackTarget onHost app deployment db := by
  have hid : d.id = deployment := Table.key_of_find _ hrow
  subst hid
  have hrow' := h.deployment? hd.row
  have hval' := h.validation? fun v hv hvid => hd.validations v hv (.inl hvid)
  rw [hrow] at hrow'
  rw [Store.rollbackTarget, Store.rollbackTarget, hrow, hrow', hval']
  have hflight := h.rollbackInFlight hd
  have hinstance : ∀ id, db'.instance? id = db.instance? id := by
    intro id
    rw [Db.instance?, h.instances]
    rfl
  by_cases happ : d.applicationID = app
  · have happ' : (f d).applicationID = app := by rw [h.row, happ]
    cases hv : db.validation? d.id with
    | none => simp
    | some v =>
      have hroll : (g v).isRollback = v.isRollback := by rw [(h.validation v).1]
      have hname : (g v).rollbackDeploymentID = v.rollbackDeploymentID := by rw [(h.validation v).1]
      have hfi : (f d).instanceID = d.instanceID := by rw [h.row]
      have hres : (f d).result = d.result := by rw [h.row]
      have hplan : (f d).plan = d.plan := by rw [h.row]
      have hend : (f d).endpointID = d.endpointID := by rw [h.row]
      by_cases hr : v.isRollback = true
      · simp [hroll, hr]
      simp only [Option.map_some, Option.filter_some, happ, happ', decide_true, if_true, hroll, hr,
        Bool.not_false, hfi, hinstance, hname, hflight, hres, hplan, hend]
      cases hi : db.instance? d.instanceID with
      | none => rfl
      | some i =>
        by_cases hns : d.plan.ns = ""
        · simp only [hns, h.dockerRollback hd, ne_eq, not_true_eq_false, if_false]
        · simp only [h.clusterRollback hd i (Table.key_of_find _ hi) hns, ne_eq, hns,
            not_false_eq_true, if_true]
  · have happ' : (f d).applicationID ≠ app := by
      rw [h.row]
      exact happ
    simp [Option.filter, happ, happ']

end Thins

/-! ## What the passes leave -/

section Passes

variable {c : Chronicle} {v : Validation} {d : Deployment}

/-- The row of an open validation is an apply of its instance that succeeded. -/
theorem Chronicle.Told.validated (h : c.Told) (hv : v ∈ c.db.validations) :
    ∃ d, c.db.deployment? v.deploymentID = some d ∧ d ∈ c.db.deployments ∧
      d.id = v.deploymentID ∧ d.succeededApply v.instanceID = true := by
  obtain ⟨d, hd, hid, hkind, hstate⟩ := (h.inv.watched v.deploymentID).2 (List.mem_map_of_mem hv)
  obtain ⟨x, hx, hxid⟩ := h.told d hd hkind hstate
  have hinst := h.instance_eq hv hx (hxid.trans hid)
  have hdi : d.instanceID = x.row.instanceID := (h.row_eq hx hd hxid.symm).2.2.1
  refine ⟨d, ?_, hd, hid, ?_⟩
  · rw [← hid]
    exact Table.find_of_mem Deployment.id h.inv.sound.ids hd
  · simp [Deployment.succeededApply, hdi, hinst, hkind, hstate]

/-- A pass leaves every succeeded apply of an instance with an open rollback. -/
theorem not_falls (hv : v ∈ c.db.validations) (hopen : v.rollbackOpen = true) {now : Int}
    {batch : List String} (hd : d.succeededApply v.instanceID = true) :
    c.db.falls now batch d = false := by
  obtain ⟨hinst, hkind, hstate⟩ := succeededApply_iff.1 hd
  have hguard : (c.db.validations.any fun w => w.instanceID = d.instanceID && w.rollbackOpen) =
      true := List.any_eq_true.2 ⟨v, hv, by simp [hopen, hinst]⟩
  simp [Db.falls, Db.prunable, hkind, hstate, hguard]

/-- What a pass over deployments leaves of an open rollback, but for newer deployments. -/
theorem leaves_prune (h : c.Told) (hv : v ∈ c.db.validations) (hopen : v.rollbackOpen = true)
    (hid : d.id = v.deploymentID) (hd : d.succeededApply v.instanceID = true) {now : Int}
    {batch : List String} (hsent : d.plan.ns ≠ "" → c.db.laterSent d = true →
      (pruneDeployments batch now c.db).laterSent d = true) :
    Thins.Leaves (fun d => !c.db.falls now batch d)
      (fun v => !c.db.deployments.any fun d =>
        c.db.falls now batch d && d.id = v.deploymentID)
      c.db (pruneDeployments batch now c.db) d := by
  have hinst := (succeededApply_iff.1 hd).1
  have hrow : ∀ w ∈ c.db.validations, w.deploymentID = d.id ∨ w.instanceID = d.instanceID →
      ∀ e ∈ c.db.deployments, e.id = w.deploymentID → c.db.falls now batch e = false := by
    intro w hw hwd e he hew
    obtain ⟨e', -, he', heid, hewon⟩ := h.validated hw
    obtain rfl := List.inj_on_of_nodup_map h.inv.sound.ids he he' (hew.trans heid.symm)
    have hwi : w.instanceID = v.instanceID := by
      rcases hwd with hwd | hwd
      · rw [List.inj_on_of_nodup_map h.inv.kept.validationIDs hw hv (hwd.trans hid)]
      · exact hwd.trans hinst
    exact not_falls hv hopen (hwi ▸ hewon)
  refine ⟨?_, ?_, ?_, ?_, hsent, fun _ => rfl⟩
  · intro e he heid
    simp [hrow v hv (.inl hid.symm) e he (heid.trans hid)]
  · intro w hw hwd
    simp only [Bool.not_eq_true', List.any_eq_false, Bool.and_eq_true, decide_eq_true_eq, not_and]
    intro e he hp heid
    rw [hrow w hw hwd e he heid] at hp
    cases hp
  · intro w _ _ r hr _ hlive
    simp [Db.falls, Db.prunable, h.unsettled r hr hlive]
  · intro e he hewon
    simp [not_falls hv hopen (hinst ▸ hewon)]

theorem revision?_deleteApplication {app first : String} (hne : app ≠ first) (n : Nat) (db : Db) :
    (db.deleteApplication first).revision? app n = db.revision? app n := by
  simp only [Db.revision?, Db.deleteApplication]
  rw [List.find?_filter]
  congr 1
  funext r
  by_cases hr : r.applicationID = app
  · simp [hr, hne]
  · simp [hr]

/-- Deleting applications one after the other. -/
theorem thins_deleteApplications (apps : List String) (db : Db) :
    ∃ q f k g, Thins q f k g db (apps.foldl (fun db app => db.deleteApplication app) db) ∧
      (∀ d : Deployment, d.applicationID ∉ apps → q d = true) ∧
      ∀ app ∉ apps, ∀ n, (apps.foldl (fun db app => db.deleteApplication app) db).revision? app n =
        db.revision? app n := by
  induction apps generalizing db with
  | nil => exact ⟨_, _, _, _, .refl db, fun _ _ => rfl, fun _ _ _ => rfl⟩
  | cons first apps ih =>
    obtain ⟨q, f, k, g, hrest, hq, hrev⟩ := ih (db.deleteApplication first)
    have hpolicies : Thins (fun _ => true) _ (fun _ => true) _ db
        (db.deletePolicies (·.applicationID = first)) :=
      .of_map (fun _ => rfl) (fun v => ⟨rfl, fun hv => by simp [hv]⟩) rfl rfl rfl rfl
    have hrows := Thins.deleteDeployments (·.applicationID = first)
      (db.deletePolicies (·.applicationID = first))
    have htables : Thins (fun _ => true) id (fun _ => true) id
        ((db.deletePolicies (·.applicationID = first)).deleteDeployments (·.applicationID = first))
        (db.deleteApplication first) :=
      .of_map (fun _ => rfl) (fun _ => ⟨rfl, fun hv => hv⟩) (List.map_id _).symm
        (List.map_id _).symm rfl rfl
    refine ⟨_, _, _, _, ((hpolicies.trans hrows).trans htables).trans hrest, ?_, ?_⟩
    · intro d hd
      simp only [List.mem_cons, not_or] at hd
      simp only [hd.1]
      exact hq _ hd.2
    · intro app happ n
      simp only [List.mem_cons, not_or] at happ
      rw [List.foldl_cons, hrev app happ.2 n]
      exact revision?_deleteApplication happ.1 n db

/-- An application with an instance is not forgotten. -/
theorem not_forgotten {i : Instance} (hi : i ∈ c.db.instances) {now : Int} {batch : List String} :
    i.applicationID ∉ (batch.take pruneBatch).filter fun app =>
      (c.db.application? app).any (c.db.forgotten now) := by
  intro hmem
  obtain ⟨a, ha, hforgotten⟩ := (Option.any_eq_true ..).1 (List.mem_filter.1 hmem).2
  have happ : a.id = i.applicationID := Table.key_of_find _ ha
  simp only [Db.forgotten, Bool.and_eq_true, Bool.not_eq_true', List.any_eq_false,
    decide_eq_true_eq] at hforgotten
  exact hforgotten.2 i hi happ.symm

/-- Whatever is of the instance is of its application, and stays with it. -/
theorem leaves_applications (h : c.Told) (htied : c.auto.Tied) {i : Instance}
    (hi : i ∈ c.db.instances) (hd : d ∈ c.db.deployments) (hwon : d.succeededApply i.id = true)
    {apps : List String} (happs : i.applicationID ∉ apps) {q : Deployment → Bool}
    {f : Deployment → Deployment} {k : Validation → Bool} {g : Validation → Validation} {db' : Db}
    (hthins : Thins q f k g c.db db') (hq : ∀ d : Deployment, d.applicationID ∉ apps → q d = true)
    (hrev : ∀ app ∉ apps, ∀ n, db'.revision? app n = c.db.revision? app n) :
    Thins.Leaves q k c.db db' d := by
  obtain ⟨hinst, hkind, hstate⟩ := succeededApply_iff.1 hwon
  have hstays : ∀ e ∈ c.db.deployments, e.instanceID = d.instanceID → q e = true := by
    intro e he hei
    apply hq
    rw [← (h.inv.sound.owner e he i hi (hinst.symm.trans hei.symm)).1]
    exact happs
  have happ : d.applicationID = i.applicationID := (h.inv.sound.owner d hd i hi hinst.symm).1.symm
  have hwi : ∀ w ∈ c.db.validations, w.deploymentID = d.id ∨ w.instanceID = d.instanceID →
      w.instanceID = i.id := by
    rintro w hw (hwd | hwd)
    · obtain ⟨e, -, he, heid, hewon⟩ := h.validated hw
      obtain rfl := List.inj_on_of_nodup_map h.inv.sound.ids he hd (heid.trans hwd)
      exact (succeededApply_iff.1 hewon).1.symm.trans hinst
    · exact hwd.trans hinst
  refine ⟨?_, ?_, ?_, ?_, ?_, ?_⟩
  · intro e he heid
    rw [List.inj_on_of_nodup_map h.inv.sound.ids he hd heid]
    exact hstays d hd rfl
  · intro w hw hwd
    by_contra hk
    obtain ⟨e, he, hqe, heid⟩ := hthins.gone w hw (by simpa using hk)
    obtain ⟨e', -, he', heid', hewon⟩ := h.validated hw
    obtain rfl := List.inj_on_of_nodup_map h.inv.sound.ids he he' (heid.trans heid'.symm)
    have hei : e.instanceID = d.instanceID :=
      (succeededApply_iff.1 hewon).1.trans ((hwi w hw hwd).trans hinst.symm)
    rw [hstays e he hei] at hqe
    cases hqe
  · intro w hw hwd r hr hname _
    -- a named rollback is of the validation's application
    obtain ⟨x, hx, -, hxinst, hxapp⟩ := h.homes w hw
    have hwx : i.id = x.row.instanceID := (hwi w hw (.inr hwd)).symm.trans hxinst
    have hr := (htied.named w hw r hr hname).trans (hxapp.trans (h.owners x hx i hi hwx).symm)
    exact hq r (hr ▸ happs)
  · intro e he hewon
    exact hstays e he (succeededApply_iff.1 hewon).1
  · intro _ hsent
    simp only [Db.laterSent, List.any_eq_true] at hsent ⊢
    obtain ⟨n, hn, hp⟩ := hsent
    have hni : n.instanceID = d.instanceID := by
      simp only [Bool.and_eq_true, decide_eq_true_eq] at hp
      exact hp.1.1.1
    refine ⟨f n, ?_, ?_⟩
    · rw [hthins.deployments]
      exact List.mem_map_of_mem (List.mem_filter.2 ⟨hn, hstays n hn hni⟩)
    · rw [hthins.row]
      exact hp
  · exact hrev _ (happ ▸ happs)

/-- Without its instance a deployment has no target. -/
theorem rollbackTarget_gone {db : Db} {deployment : String}
    (h : ∀ d, db.deployment? deployment = some d → db.instance? d.instanceID = none)
    (onHost : String → String → Bool) (app : String) :
    rollbackTarget onHost app deployment db = .error .notFound := by
  unfold rollbackTarget
  split
  · next d v hd _ =>
    rw [h d (Option.filter_eq_some_iff.1 hd).1]
  · rfl

end Passes

/-- A newer apply of the instance that was sent is outside the pass. -/
def Db.sparesLater (db : Db) (now : Int) (batch : List String) (d : Deployment) : Bool :=
  db.deployments.any fun n => !db.falls now batch n && (n.instanceID = d.instanceID &&
    n.kind = .apply && d.createdAt < n.createdAt && n.state ≠ .planned)

theorem laterSent_prune (db : Db) (now : Int) (batch : List String) (d : Deployment) :
    (pruneDeployments batch now db).laterSent d = db.sparesLater now batch d :=
  List.any_filter

/-- If a cluster deployment has a newer apply that was sent, one is outside the pass. -/
def Db.sparesSent (db : Db) (now : Int) (batch : List String) (deployment : String) : Bool :=
  (db.deployment? deployment).all fun d =>
    d.plan.ns = "" || !db.laterSent d || db.sparesLater now batch d

/-- While a rollback is open, the deployment it may undo, its validation and the apply that succeeded
before it are on record, and a pass that leaves the newer applies that were sent leaves the decision
as it is. Removed applications fall due without their instance, where there is no decision to change. -/
theorem retention_keeps_rollbacks {c : Chronicle} (h : chronicle.Steps .new c) {v : Validation}
    (hv : v ∈ c.db.validations) (hopen : v.rollbackOpen = true) :
    (∃ x ∈ c.successes, x.row.id = v.deploymentID ∧ x.row.instanceID = v.instanceID ∧
      (∃ d ∈ c.db.deployments, d = { x.row with policyRunID := d.policyRunID }) ∧
      ∀ y, c.prior? x = some y →
        ∃ p ∈ c.db.deployments, p = { y.row with policyRunID := p.policyRunID }) ∧
    (∀ now batch, v ∈ (pruneDeployments batch now c.db).validations ∧
      (c.db.sparesSent now batch v.deploymentID = true → ∀ onHost app,
        rollbackTarget onHost app v.deploymentID (pruneDeployments batch now c.db) =
          rollbackTarget onHost app v.deploymentID c.db)) ∧
    ∀ now batch,
      ((∃ i ∈ c.db.instances, i.id = v.instanceID) →
        ∃ v' ∈ (pruneRemovedApplications batch now c.db).validations, v.Same v') ∧
      ∀ onHost app,
        rollbackTarget onHost app v.deploymentID (pruneRemovedApplications batch now c.db) =
          rollbackTarget onHost app v.deploymentID c.db := by
  have htold := Chronicle.told_of_steps h
  have htied := Automation.tied_of_steps (Chronicle.auto_of_steps h)
  obtain ⟨d, hfind, hd, hid, hwon⟩ := htold.validated hv
  have hinst := (succeededApply_iff.1 hwon).1
  refine ⟨?_, ?_, ?_⟩
  · obtain ⟨x, hx, hxid, hxinst, -⟩ := htold.homes v hv
    refine ⟨x, hx, hxid, hxinst.symm, ⟨d, hd, htold.entry x hx d hd (hid.trans hxid.symm)⟩, ?_⟩
    intro y hy
    obtain ⟨p, hp, hpid⟩ := htold.prior v hv hopen x hx hxid y hy
    exact ⟨p, hp, htold.entry y (Chronicle.prior?_mem hy).1 p hp hpid⟩
  · intro now batch
    refine ⟨?_, fun hspares onHost app => ?_⟩
    · refine List.mem_filter.2 ⟨hv, ?_⟩
      simp only [Bool.not_eq_true', List.any_eq_false, Bool.and_eq_true, decide_eq_true_eq, not_and]
      intro e he hp heid
      obtain rfl := List.inj_on_of_nodup_map htold.inv.sound.ids he hd (heid.trans hid.symm)
      rw [not_falls hv hopen hwon] at hp
      cases hp
    · refine (Thins.deleteDeployments _ _).rollbackTarget hfind
        (leaves_prune htold hv hopen hid hwon fun hns hsent => ?_) onHost app
      rw [laterSent_prune]
      simpa [Db.sparesSent, hfind, hns, hsent] using hspares
  · intro now batch
    obtain ⟨q, f, k, g, hthins, hq, hrev⟩ := thins_deleteApplications
      ((batch.take pruneBatch).filter fun app => (c.db.application? app).any (c.db.forgotten now))
      c.db
    refine ⟨?_, fun onHost app => ?_⟩
    · rintro ⟨i, hi, hii⟩
      have hleaves := leaves_applications htold htied hi hd (hii ▸ hwon) (not_forgotten hi) hthins
        hq hrev
      refine ⟨g v, ?_, ?_⟩
      · rw [pruneRemovedApplications, hthins.validations]
        exact List.mem_map_of_mem (List.mem_filter.2 ⟨hv, hleaves.validations v hv (.inl hid.symm)⟩)
      · exact hthins.validation v
    · by_cases hi : ∃ i ∈ c.db.instances, i.id = v.instanceID
      · obtain ⟨i, hi, hii⟩ := hi
        exact hthins.rollbackTarget hfind (leaves_applications htold htied hi hd (hii ▸ hwon)
          (not_forgotten hi) hthins hq hrev) onHost app
      · have hnone : ∀ db : Db, db.instances = c.db.instances → ∀ e : Deployment,
            e.instanceID = v.instanceID → db.instance? e.instanceID = none := by
          intro db hdb e he
          rw [Db.instance?, hdb, he]
          exact (Table.find_eq_none_iff Instance.id).2 fun i hmem hii => hi ⟨i, hmem, hii⟩
        rw [rollbackTarget_gone _ onHost app, rollbackTarget_gone _ onHost app]
        · intro e he
          rw [hfind] at he
          obtain rfl := Option.some.inj he
          exact hnone c.db rfl _ hinst
        · intro e he
          have hmem := Table.mem_of_find _ he
          rw [pruneRemovedApplications, hthins.deployments] at hmem
          obtain ⟨e₀, he₀, rfl⟩ := List.mem_map.1 hmem
          have heid : (f e₀).id = v.deploymentID := Table.key_of_find _ he
          rw [hthins.row] at heid
          obtain rfl := List.inj_on_of_nodup_map htold.inv.sound.ids (List.mem_of_mem_filter he₀) hd
            (heid.trans hid.symm)
          refine hnone _ hthins.instances _ ?_
          rw [hthins.row]
          exact hinst

/-! ## A decision that retention changes -/

/-- A plan for a cluster, with the image by its digest. -/
def clusterPlan (row image : Nat) : LifecycleOp :=
  .planDeployment "a" (rowID row) ⟨"i", 1, 0, "app"⟩
    ⟨.kubernetes, true, fun _ => "", fun _ => "nginx@" ++ sampleImage image, fun _ => sampleImage image,
      false⟩ sampleRequestID

def clusterReport (row image : Nat) : DeploymentResult :=
  { clusterResult with
    deployment := rowID row
    services := clusterResult.services.map fun id => { id with imageDigest := sampleImage image } }

/-- An application on a cluster, updated by its policy; the validation of the update stays open. -/
def clusterUpdate : List (Int × AutomationOp) :=
  [(1, .createApplication "a" "app" webSpec),
      (2, .mapKubernetes "a" "i" "e" "prod" ⟨true, .kubernetes, ["prod"]⟩), (3, clusterPlan 1 2),
      (4, .applyDeployment "a" (rowID 1) "app" none ⟨true, true⟩),
      (5, .settleDeployment "e" (clusterReport 1 2))].map
        (Prod.map id fun op => AutomationOp.store (.lifecycle op)) ++
    [(7, .putUpdatePolicy (fun _ => some (.fixed 0)) "a" "admin" "policy"
        ⟨some .apply, "UTC", [0], 0, 60⟩),
      (8, .beginPolicyRun samplePolicy 0 "run" "r"),
      (9, .planRun (sampleRun none) (rowID 2) ⟨"i", 1, 0, "app"⟩
        ⟨.kubernetes, true, fun _ => "", fun _ => "nginx@" ++ sampleImage 3, fun _ => sampleImage 3,
          false⟩ sampleRequestID),
      (10, .applyRun (sampleRun (some (rowID 2))) "app" ⟨true, true⟩),
      (11, .store (.lifecycle (.settleDeployment "e" (clusterReport 2 3))))]

/-- A newer apply reaches the cluster and fails there. -/
def overtakenRun : List (Int × AutomationOp) :=
  clusterUpdate ++
    [(12, clusterPlan 3 2), (13, .applyDeployment "a" (rowID 3) "app" none ⟨true, true⟩),
      (14, .settleDeployment "e" (.bare (rowID 3) "r" .failed .stepFailed))].map
        (Prod.map id fun op => AutomationOp.store (.lifecycle op))

/-- The newer apply stands in the way of a rollback until retention deletes its row. -/
theorem prune_changes_target :
    let c := chronicle.run overtakenRun .new
    let db' := pruneDeployments [rowID 3] (15 + deploymentHistoryRetention) c.db
    chronicle.Steps .new c ∧
      c.db.validations.map (fun v => (v.deploymentID, v.rollbackOpen)) =
        [(rowID 1, false), (rowID 2, true)] ∧
      db'.validations = c.db.validations ∧
      rollbackTarget (fun _ _ => true) "a" (rowID 2) c.db = .ok (.error .serviceSetChanged) ∧
      rollbackTarget (fun _ _ => true) "a" (rowID 2) db' =
        .ok (.ok ⟨"i", 1, "app", 1, .ofList [("web", "nginx@" ++ sampleImage 2)]⟩) := by
  refine ⟨Machine.steps_run _ _, by decide +kernel, by decide +kernel, by decide +kernel,
    by decide +kernel⟩

/-- Without it the update can be rolled back, however late a pass comes. -/
theorem retention_keeps_rollbacks_control :
    let c := chronicle.run clusterUpdate .new
    let db' := pruneDeployments [rowID 1] (15 + deploymentHistoryRetention) c.db
    c.successes.map (fun x => x.row.id) = [rowID 2, rowID 1] ∧
      rollbackTarget (fun _ _ => true) "a" (rowID 2) db' =
        .ok (.ok ⟨"i", 1, "app", 1, .ofList [("web", "nginx@" ++ sampleImage 2)]⟩) := by
  intro c db'
  have hopen : ∃ v ∈ c.db.validations, v.rollbackOpen = true ∧ v.deploymentID = rowID 2 := by
    decide +kernel
  have hspares : c.db.sparesSent (15 + deploymentHistoryRetention) [rowID 1] (rowID 2) = true := by
    decide +kernel
  have htarget : rollbackTarget (fun _ _ => true) "a" (rowID 2) c.db =
      .ok (.ok ⟨"i", 1, "app", 1, .ofList [("web", "nginx@" ++ sampleImage 2)]⟩) := by
    decide +kernel
  refine ⟨by decide +kernel, ?_⟩
  obtain ⟨v, hv, hvopen, hid⟩ := hopen
  have hsteps : chronicle.Steps .new c := Machine.steps_run _ _
  have hkeeps := ((retention_keeps_rollbacks hsteps hv hvopen).2.1
    (15 + deploymentHistoryRetention) [rowID 1]).2
  rw [hid] at hkeeps
  rw [← htarget]
  exact hkeeps hspares (fun _ _ => true) "a"

end KyYard.Store
