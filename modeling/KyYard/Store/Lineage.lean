import KyYard.Store.Episodes

/-!
# The containers an instance has had

A container joins an instance with its adoption or when a deployment reports it, in the place of one
the deployment replaced. `Placed` says where containers are: on their instance's endpoint, each under
one service. `Settled.replaces` says what a success leaves: where a plan covers all containers and the
reported ones are new, only reported ones.
-/

namespace KyYard.Store

open Foundation Protocol

/-! ## Where containers are -/

/-- Containers are distinct, on the endpoint of their instance, one for each service. -/
structure Placed (used : List String) (db : Db) : Prop where
  distinct : (db.resources.map Resource.place).Nodup
  once : db.BoundOnce
  sited : ∀ r ∈ db.resources, ∀ i ∈ db.instances, i.id = r.instanceID → i.endpointID = r.endpointID
  known : ∀ r ∈ db.resources, r.instanceID ∈ used

/-- The containers of an instance only go; others join with an instance of their own. -/
def Holds (fresh : List String) (db db' : Db) : Prop :=
  ∀ r' ∈ db'.resources, (∃ r ∈ db.resources, r.SameContainer r') ∨ r'.instanceID ∈ fresh

section Placing

variable {now clock : Int} {used fresh : List String} {db db' : Db}

theorem BoundOnce.sub (h : db.BoundOnce) (hsub : ∀ r ∈ db'.resources, r ∈ db.resources) :
    db'.BoundOnce :=
  fun r hr r' hr' => h r (hsub r hr) r' (hsub r' hr')

/-- A request binds a service to one container. -/
theorem serviceOf_inj {r : MappingRequest} {a b : String} (hne : r.serviceOf a ≠ "")
    (h : r.serviceOf a = r.serviceOf b) : a = b := by
  have hentry : ∀ {c : String}, r.serviceOf c ≠ "" → (r.serviceOf c, c) ∈ r.bindings.entries := by
    intro c hc
    unfold MappingRequest.serviceOf at hc ⊢
    cases hfind : r.bindings.entries.find? fun e => e.2 = c with
    | none =>
      rw [hfind] at hc
      exact absurd rfl hc
    | some e =>
      have hsnd : e.2 = c := by simpa using List.find?_some hfind
      rw [← hsnd]
      exact List.mem_of_find?_eq_some hfind
  have ha := hentry hne
  have hb := hentry (h ▸ hne)
  rw [← h] at hb
  exact congrArg Prod.snd (List.inj_on_of_nodup_map r.bindings.nodup ha hb rfl)

theorem BoundOnce.mapping (hn : (db.resources.map Resource.place).Nodup) (h : db.BoundOnce)
    {app : String} {r : MappingRequest} {runtime : Runtime} {unchanged : Bool} {digest : String}
    (hmap : setApplicationMapping app r runtime unchanged digest db = .ok db') : db'.BoundOnce := by
  obtain ⟨a, i, -, -, -, -, -, rfl⟩ := setApplicationMapping_ok hmap
  intro x' hx' y' hy' hinst hne hsame
  obtain ⟨x, hx, rfl⟩ := Table.mem_updateWhere.1 hx'
  obtain ⟨y, hy, rfl⟩ := Table.mem_updateWhere.1 hy'
  have hxy : x.instanceID = y.instanceID := by
    simpa only [apply_ite Resource.instanceID, ite_self] using hinst
  by_cases hxi : x.instanceID = i.id
  · have hyi : y.instanceID = i.id := hxy.symm.trans hxi
    simp only [hxi, hyi] at hne hsame ⊢
    by_cases hxe : x.endpointID = i.endpointID
    · by_cases hye : y.endpointID = i.endpointID
      · simp only [hxe, hye, if_true] at hne hsame
        have hc := serviceOf_inj hne hsame
        have hrow : x = y := List.inj_on_of_nodup_map hn hx hy (by
          simp only [Resource.place, hxe, hye, hc])
        rw [hrow]
      · simp only [hxe, hye, if_true] at hne hsame
        exact absurd hsame hne
    · simp [hxe] at hne
  · have hyi : y.instanceID ≠ i.id := hxy ▸ hxi
    simp only [hxi, hyi] at hne hsame ⊢
    exact h x hx y hy hxy hne hsame

theorem BoundOnce.adopt (h : db.BoundOnce) {app instanceID : String} {r : AdoptionRequest}
    {p : AdoptionPreview} (hadopt : adoptApplication app instanceID r p db = .ok db') :
    db'.BoundOnce := by
  obtain ⟨i, rs, -, -, -, hrs, rfl⟩ := adoptApplication_ok hadopt
  obtain ⟨rfl, -⟩ := foldlM_insertResource hrs
  -- an adopted container is not bound to a service yet
  have hold : ∀ x ∈ db.resources ++ p.containers.map (·.resource i), x.serviceName ≠ "" →
      x ∈ db.resources := by
    intro x hx hne
    rcases List.mem_append.1 hx with hx | hx
    · exact hx
    · obtain ⟨c, -, rfl⟩ := List.mem_map.1 hx
      exact absurd rfl hne
  intro x hx y hy hinst hne hsame
  exact h x (hold x hx hne) y (hold y hy (hsame ▸ hne)) hinst hne hsame

/-- A container that joins clashes with no other over its service. -/
theorem BoundOnce.insert {rs rs' : List Resource} {r : Resource}
    (h : ({ db with resources := rs } : Db).BoundOnce) (hr : insertResource rs r = .ok rs') :
    ({ db with resources := rs' } : Db).BoundOnce := by
  simp only [insertResource, guard_error_eq_ok, Except.ok.injEq, List.any_eq_true, not_exists,
    not_and, Resource.clashes, Bool.or_eq_true, Bool.and_eq_true, decide_eq_true_eq, not_or] at hr
  obtain ⟨hfree, rfl⟩ := hr
  intro x hx y hy hinst hne hsame
  rcases List.mem_append.1 hx with hx | hx <;> rcases List.mem_append.1 hy with hy | hy
  · exact h x hx y hy hinst hne hsame
  · rw [List.mem_singleton.1 hy] at hinst hsame
    exact absurd hsame.symm ((hfree x hx).2 ⟨hsame ▸ hne, hinst.symm⟩)
  · rw [List.mem_singleton.1 hx] at hinst hne hsame
    exact absurd hsame ((hfree y hy).2 ⟨hne, hinst⟩)
  · rw [List.mem_singleton.1 hx, List.mem_singleton.1 hy]

theorem BoundOnce.rebind {instanceID endpointID : String} {plan : DeploymentPlan}
    {rs rs' : List Resource} {id : DeploymentIdentity}
    (h : ({ db with resources := rs } : Db).BoundOnce)
    (hr : rebind instanceID endpointID plan rs id = .ok rs') :
    ({ db with resources := rs' } : Db).BoundOnce := by
  unfold Store.rebind at hr
  simp only at hr
  split at hr
  · cases hr
  refine BoundOnce.insert ?_ hr
  exact BoundOnce.sub h fun r hr => List.mem_of_mem_filter hr

theorem BoundOnce.settle {d : Deployment} {res : DeploymentResult} {o : Outcome}
    {st : DeploymentState} (h : db.BoundOnce) (ht : Settled d res o st now db db') : db'.BoundOnce := by
  obtain ⟨rs, hrs, hresources⟩ := ht.resources
  have honce : ({ db with resources := rs } : Db).BoundOnce := by
    cases hk : d.kind with
    | apply =>
      by_cases hns : d.plan.ns = ""
      · exact foldlM_keeps
          (fun _ _ _ hb hr => BoundOnce.rebind hb hr) h (hrs.docker hk hns).2
      · rw [(hrs.cluster hk hns).2]
        exact h
    | remove =>
      obtain ⟨p, rfl, -⟩ := hrs.removal hk
      exact BoundOnce.sub h fun r hr => List.mem_of_mem_filter hr
  refine BoundOnce.sub honce fun r hr => ?_
  rw [hresources] at hr
  split at hr
  · exact List.mem_of_mem_filter hr
  · exact hr

theorem BoundOnce.lifecycle (hn : (db.resources.map Resource.place).Nodup)
    (hids : (db.deployments.map Deployment.id).Nodup) (h : db.BoundOnce) {op : LifecycleOp}
    (hexec : op.exec now db = .ok db') : db'.BoundOnce := by
  cases op with
  | adoptApplication => exact BoundOnce.adopt h hexec
  | mapKubernetes =>
    rcases mapKubernetes_ok hexec with ⟨i, -, -, -, rfl⟩ | ⟨a, i, -, -, -, -, -, rfl⟩ <;> exact h
  | setApplicationMapping => exact BoundOnce.mapping hn h hexec
  | releaseApplication =>
    obtain ⟨-, -, rfl⟩ := releaseApplication_ok hexec
    exact BoundOnce.sub h fun r hr => List.mem_of_mem_filter hr
  | settleDeployment =>
    obtain ⟨d, o, st, -, -, -, -, -, -, ht⟩ := settleDeployment_ok hexec
    exact BoundOnce.settle h ht
  | _ => exact BoundOnce.sub h fun r hr => (bindings_of_exec hids hexec rfl).2 ▸ hr

theorem BoundOnce.exec (hn : (db.resources.map Resource.place).Nodup)
    (hids : (db.deployments.map Deployment.id).Nodup) (h : db.BoundOnce) {op : StoreOp}
    (hexec : op.exec now db = .ok db') : db'.BoundOnce := by
  cases op with
  | lifecycle => exact BoundOnce.lifecycle hn hids h hexec
  | _ =>
    refine BoundOnce.sub h fun r hr => ?_
    have hsame := StoreOp.deletes (P := fun x => x.resources = db.resources) hexec nofun rfl
      (fun _ _ hx => hx) (fun _ _ hx => hx) fun _ _ hx => hx
    exact hsame ▸ hr

/-- A container that settling an apply leaves is an old one or one it reports for its instance. -/
theorem Placed.settle {d : Deployment} {res : DeploymentResult} {o : Outcome} {st : DeploymentState}
    (h : Placed used db) (hs : Sound clock used db) (hs' : Sound now used db')
    (hd : d ∈ db.deployments) (hk : d.kind = .apply) (ht : Settled d res o st now db db') :
    Placed used db' := by
  obtain ⟨hmem, -, hdistinct⟩ := ht.containers hk
  refine ⟨hdistinct h.distinct, BoundOnce.settle h.once ht, ?_, ?_⟩
  · intro r hr i' hi' hid
    rcases hmem r hr with hr | ⟨-, hinst, hend, -⟩
    · obtain ⟨i, hi, hsame⟩ := ht.instance_back hi'
      rw [hsame.2.2]
      exact h.sited r hr i hi (hsame.1.symm.trans hid)
    · have hd' : d.afterSettle res st now d ∈ db'.deployments := by
        rw [ht.rows]
        exact List.mem_map_of_mem hd
      have hsame : d.Same (d.afterSettle res st now d) := afterSettle_same d
      have howner := hs'.owner _ hd' i' hi' (hid.trans (hinst.trans hsame.2.2.1.symm))
      exact howner.2.trans (hsame.2.2.2.1.trans hend.symm)
  · intro r hr
    rcases hmem r hr with hr | ⟨-, hinst, -⟩
    · exact h.known r hr
    · rw [hinst]
      exact (hs.known d hd).2.1

theorem Placed.carries (h : Placed used db)
    (hs' : Sound now (fresh ++ used) db') (hfresh : ∀ id ∈ fresh, id ∉ used)
    (hc : Carries fresh db db') (honce : db'.BoundOnce) : Placed (fresh ++ used) db' := by
  refine ⟨hc.distinct h.distinct, honce, ?_, ?_⟩
  · intro r' hr' i' hi' hid
    have hfind' := Table.find_of_mem Instance.id hs'.instanceIDs hi'
    rcases hc.resources r' hr' with ⟨r, hr, hinst, hend, -⟩ | ⟨-, hnew⟩
    · rcases hc.instances i'.id i' hfind' with hnew | ⟨i, hfind, hsame, -⟩
      · exact absurd (h.known r hr) (hfresh _ ((hid.trans hinst) ▸ hnew))
      · rw [hsame, hend]
        exact h.sited r hr i (Table.mem_of_find _ hfind)
          ((Table.key_of_find _ hfind).trans (hid.trans hinst))
    · exact (hnew i' (hid ▸ hfind')).1
  · intro r' hr'
    rcases hc.resources r' hr' with ⟨r, hr, hinst, -⟩ | ⟨hnew, -⟩
    · exact List.mem_append_right _ (hinst ▸ h.known r hr)
    · exact List.mem_append_left _ hnew

/-- A transaction of the store either settles an apply or takes containers away. -/
theorem placed_of_exec (h : Placed used db) (hs : Sound clock used db)
    {op : StoreOp} (hs' : Sound now (op.fresh ++ used) db')
    (hfresh : ∀ id ∈ op.fresh, id ∉ used) (hexec : op.exec now db = .ok db') :
    Placed (op.fresh ++ used) db' ∧ (op.SettlesApply now db db' ∨ Holds op.fresh db db') := by
  have honce := BoundOnce.exec h.distinct hs.ids h.once hexec
  by_cases hother : ∃ policies runs validations imageChecks audit,
      op = .lifecycle (.other policies runs validations imageChecks audit)
  · obtain ⟨policies, runs, validations, imageChecks, audit, rfl⟩ := hother
    obtain rfl := Except.ok.inj hexec
    exact ⟨⟨h.distinct, honce, h.sited, h.known⟩, .inr fun r hr => .inl ⟨r, hr, rfl, rfl, rfl, rfl⟩⟩
  · have hspares : op.sparesChecks db = true := by
      unfold StoreOp.sparesChecks
      split
      · exact absurd ⟨_, _, _, _, _, rfl⟩ hother
      · rfl
    rcases carries_of_exec hs.ids hs.instanceIDs hspares hexec with hsettles | ⟨hc, -⟩
    · refine ⟨?_, .inl hsettles⟩
      obtain ⟨endpointID, r, d, o, st, rfl, hd, hk, -, -, -, -, ht⟩ := hsettles
      exact h.settle hs hs' (Table.mem_of_find _ hd) hk ht
    · exact ⟨h.carries hs' hfresh hc honce,
        .inr fun r' hr' => (hc.resources r' hr').imp_right And.left⟩

end Placing

/-! ## What a success replaces -/

section Replacing

variable {instanceID endpointID : String} {plan : DeploymentPlan}

/-- The container a service of a plan replaces. -/
def DeploymentPlan.old (plan : DeploymentPlan) (service : String) : String :=
  ((plan.service? service).map PlannedService.containerID).getD ""

/-- Each reported service had its container, and none of these is left. -/
theorem foldlM_rebind_each {ids : List DeploymentIdentity} {rs rs' : List Resource}
    (hnew : ∀ x ∈ ids, ∀ y ∈ ids, x.containerID ≠ plan.old y.service)
    (h : ids.foldlM (rebind instanceID endpointID plan) rs = .ok rs') :
    ∀ id ∈ ids, (∃ r ∈ rs, r.instanceID = instanceID ∧ r.endpointID = endpointID ∧
        r.containerID = plan.old id.service) ∧
      ∀ r' ∈ rs', r'.instanceID = instanceID → r'.endpointID = endpointID →
        r'.containerID ≠ plan.old id.service := by
  induction ids generalizing rs with
  | nil =>
    intro id hid
    cases hid
  | cons a ids ih =>
    obtain ⟨rs₁, ha, hrest⟩ := foldlM_cons_eq_ok.1 h
    obtain ⟨r, hr, hinst, hend, hold, hmem, -⟩ := rebind_ok ha
    have ih := ih (fun x hx y hy =>
      hnew x (List.mem_cons_of_mem _ hx) y (List.mem_cons_of_mem _ hy)) hrest
    intro id hid
    rcases List.mem_cons.1 hid with rfl | hid
    · refine ⟨⟨r, hr, hinst, hend, hold⟩, ?_⟩
      -- its container went at once, and no reported one is it
      intro r' hr' hinst' hend' hc
      rcases (foldlM_rebind hrest).1 r' hr' with hr₁ | ⟨-, -, x, hx, hcx⟩
      · rcases hmem r' hr₁ with ⟨-, hne⟩ | ⟨-, -, hcx⟩
        · exact hne ⟨hinst', hend', hc.trans hold.symm⟩
        · exact hnew id List.mem_cons_self id List.mem_cons_self (hcx.symm.trans hc)
      · exact hnew x (List.mem_cons_of_mem _ hx) id List.mem_cons_self (hcx.symm.trans hc)
    · obtain ⟨⟨r₁, hr₁, hinst₁, hend₁, hc₁⟩, hgone⟩ := ih id hid
      refine ⟨?_, hgone⟩
      rcases hmem r₁ hr₁ with ⟨hr₁, -⟩ | ⟨-, -, hcx⟩
      · exact ⟨r₁, hr₁, hinst₁, hend₁, hc₁⟩
      · exact absurd (hcx.symm.trans hc₁)
          (hnew a List.mem_cons_self id (List.mem_cons_of_mem _ hid))

/-- With distinct names, a service is found under its own. -/
theorem service?_eq {s : PlannedService} (hn : (plan.services.map PlannedService.name).Nodup)
    (hs : s ∈ plan.services) : plan.service? s.name = some s := by
  unfold DeploymentPlan.service?
  have hrev : (plan.services.reverse.map PlannedService.name).Nodup := by
    rw [List.map_reverse]
    exact List.nodup_reverse.2 hn
  exact Table.find_of_mem PlannedService.name hrev (List.mem_reverse.2 hs)

/-- A success reports every planned service. -/
theorem reported_of_success {fits : PlannedService → DeploymentIdentity → Bool}
    {res : DeploymentResult} (hfit : identitiesFit fits plan res = true)
    (hout : res.outcome = some .succeeded)
    {s : PlannedService} (hs : s ∈ plan.services) : ∃ id ∈ res.services, id.service = s.name := by
  simp only [identitiesFit, Bool.and_eq_true, Bool.or_eq_true, decide_eq_true_eq, List.all_eq_true,
    hout, ne_eq, not_true_eq_false, false_or] at hfit
  obtain ⟨⟨hdistinct, hall⟩, hlength⟩ := hfit
  have hsub : res.services.map DeploymentIdentity.service ⊆ plan.services.map PlannedService.name := by
    intro name hname
    obtain ⟨id, hid, rfl⟩ := List.mem_map.1 hname
    obtain ⟨t, ht, -⟩ := (Option.any_eq_true ..).1 (hall id hid)
    have hmem := List.mem_of_find?_eq_some ht
    have hkey := List.find?_some ht
    rw [← of_decide_eq_true hkey]
    exact List.mem_map_of_mem (List.mem_reverse.1 hmem)
  have hperm := (hdistinct.subperm hsub).perm_of_length_le (by
    rw [List.length_map, List.length_map]
    exact hlength.ge)
  obtain ⟨id, hid, hname⟩ := List.mem_map.1 (hperm.mem_iff.2 (List.mem_map_of_mem hs))
  exact ⟨id, hid, hname⟩

variable {now : Int} {db db' : Db} {d : Deployment} {res : DeploymentResult}

/-- A success replaces every container of its plan. -/
theorem Succeeds.replaces (h : Succeeds now d res db db') (hns : d.plan.ns = "")
    (hn : (d.plan.services.map PlannedService.name).Nodup)
    (hnew : ∀ id ∈ res.services, ∀ s ∈ d.plan.services, id.containerID ≠ s.containerID)
    {s : PlannedService} (hs : s ∈ d.plan.services) :
    (∃ r ∈ db.resources, r.instanceID = d.instanceID ∧ r.endpointID = d.endpointID ∧
        r.containerID = s.containerID) ∧
      ∀ r' ∈ db'.resources, r'.instanceID = d.instanceID → r'.endpointID = d.endpointID →
        r'.containerID ≠ s.containerID := by
  obtain ⟨rs, hrs, hresources⟩ := h.tables.resources
  rw [if_neg (by simp [h.kind])] at hresources
  obtain ⟨hfit, hfold⟩ := hrs.docker h.kind hns
  have hold : ∀ t ∈ d.plan.services, d.plan.old t.name = t.containerID := by
    intro t ht
    rw [DeploymentPlan.old, service?_eq hn ht]
    rfl
  obtain ⟨id, hid, hname⟩ := reported_of_success hfit h.outcome hs
  have heach := foldlM_rebind_each (fun x hx y hy => ?_) hfold id hid
  · rw [hname, hold s hs] at heach
    rw [hresources]
    exact heach
  · -- what a reported service replaced is a planned container
    simp only [identitiesFit, Bool.and_eq_true, List.all_eq_true] at hfit
    obtain ⟨t, ht, -⟩ := (Option.any_eq_true ..).1 (hfit.1.2 y hy)
    have hmem := List.mem_reverse.1 (List.mem_of_find?_eq_some ht)
    rw [DeploymentPlan.old, ht]
    exact hnew x hx t hmem

end Replacing

end KyYard.Store
