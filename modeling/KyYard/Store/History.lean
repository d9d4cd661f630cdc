import KyYard.Store.Retention

/-!
# What the history of an instance keeps

A cluster instance may move to another namespace while no deployment was sent to it, and whether one
was is read off the history: its rows past `planned`. Every transaction but retention keeps such rows
as long as the instance exists (`recalls_of_exec`), so in every run in which retention leaves each
deployed instance one of them, the namespace stays (`namespace_stays`). A pass that deletes the only
one, a deployment that failed, lets the instance move (`namespace_moves_after_prune`).
-/

namespace KyYard.Store

open Foundation Protocol

/-! ## Rows past their plan -/

/-- A row past its plan goes on; a closed one only loses the run it was applied for. -/
def Deployment.Lasts (d d' : Deployment) : Prop :=
  d.Same d' ∧ d'.state ≠ .planned ∧
    (d.state.terminal = true → d' = { d with policyRunID := d'.policyRunID })

/-- The rows past their plan of the instances that are still there go on. -/
def Db.Recalls (db db' : Db) : Prop :=
  ∀ d ∈ db.deployments, d.state ≠ .planned → (∃ i ∈ db'.instances, i.id = d.instanceID) →
    ∃ d' ∈ db'.deployments, d.Lasts d'

section Rows

variable {now clock : Int} {used : List String} {db db₁ db' : Db}

theorem Deployment.Lasts.refl {d : Deployment} (h : d.state ≠ .planned) : d.Lasts d :=
  ⟨Deployment.Same.refl d, h, fun _ => rfl⟩

theorem Deployment.Lasts.trans {d d₁ d' : Deployment} (h : d.Lasts d₁) (h' : d₁.Lasts d') :
    d.Lasts d' := by
  obtain ⟨hsame, -, hclosed⟩ := h
  obtain ⟨hsame', hacted, hclosed'⟩ := h'
  refine ⟨hsame.trans hsame', hacted, fun hterm => ?_⟩
  have hstate : d₁.state = d.state := by rw [hclosed hterm]
  rw [hclosed' (hstate ▸ hterm), hclosed hterm]

theorem Db.Keeps.recalls (h : db.Keeps db') : db.Recalls db' := by
  intro d hd hacted _
  obtain ⟨d', hd', hsame, hacted', hclosed⟩ := h d hd hacted
  exact ⟨d', hd', hsame, hacted', fun hterm => (by rw [hclosed hterm])⟩

/-- The deletion of an application without an instance is none of theirs. -/
theorem Db.Recalls.deleteApplication (hs : Sound clock used db) {id : String}
    (hfree : ∀ i ∈ db.instances, i.applicationID ≠ id) : db.Recalls (db.deleteApplication id) := by
  rintro d hd hacted ⟨i, hi, hid⟩
  have happ : d.applicationID ≠ id := (hs.owner d hd i hi hid).1 ▸ hfree i hi
  refine ⟨_, List.mem_filter.2 ⟨List.mem_map_of_mem hd, by simpa using happ⟩, ?_⟩
  exact ⟨⟨rfl, rfl, rfl, rfl, rfl, rfl, rfl⟩, hacted, fun _ => rfl⟩

theorem instances_deleteApplications (ids : List String) :
    (ids.foldl (fun db id => db.deleteApplication id) db).instances = db.instances := by
  induction ids generalizing db with
  | nil => rfl
  | cons id ids ih => exact ih

theorem Db.Recalls.deleteApplications (hs : Sound clock used db) {ids : List String}
    (hfree : ∀ id ∈ ids, ∀ i ∈ db.instances, i.applicationID ≠ id) :
    db.Recalls (ids.foldl (fun db id => db.deleteApplication id) db) := by
  induction ids generalizing db with
  | nil => exact fun d hd hacted _ => ⟨d, hd, .refl hacted⟩
  | cons id ids ih =>
    have hfirst := Db.Recalls.deleteApplication hs (hfree id List.mem_cons_self)
    have hrest : (db.deleteApplication id).Recalls _ := ih (hs.deleteApplication id)
      fun id' hid' => hfree id' (List.mem_cons_of_mem _ hid')
    rintro d hd hacted ⟨i, hi, hid⟩
    -- the instances are the same all along
    have hi₁ : i ∈ db.instances := by
      rwa [instances_deleteApplications] at hi
    obtain ⟨d₁, hd₁, hlasts⟩ := hfirst d hd hacted ⟨i, hi₁, hid⟩
    obtain ⟨d', hd', hlasts'⟩ := hrest d₁ hd₁ hlasts.2.1 ⟨i, hi, hid.trans hlasts.1.2.2.1.symm⟩
    exact ⟨d', hd', hlasts.trans hlasts'⟩

/-- Removed applications past their retention have no instance. -/
theorem Db.Recalls.pruneRemoved (hs : Sound clock used db) (batch : List String) (now : Int) :
    db.Recalls (pruneRemovedApplications batch now db) := by
  apply Db.Recalls.deleteApplications hs
  intro id hid i hi happ
  obtain ⟨-, hforgotten⟩ := List.mem_filter.1 hid
  obtain ⟨a, ha, hforgotten⟩ := (Option.any_eq_true _ _).1 hforgotten
  have hkey : a.id = id := Table.key_of_find _ ha
  simp only [Db.forgotten, Bool.and_eq_true, Bool.not_eq_true', List.any_eq_false,
    decide_eq_true_eq] at hforgotten
  exact hforgotten.2 i hi (happ.trans hkey.symm)

/-- Every transaction but retention of deployments keeps the rows past their plan. -/
theorem recalls_of_exec (hs : Sound clock used db) {op : StoreOp}
    (hop : ∀ batch, op ≠ .pruneDeployments batch) (h : op.exec now db = .ok db') :
    db.Recalls db' := by
  cases op with
  | lifecycle => exact (hs.keeps (change_of_exec hs.ids h)).recalls
  | discardApplication =>
    obtain ⟨hnone, rfl⟩ := discardApplication_ok h
    apply Db.Recalls.deleteApplication hs
    intro i hi happ
    exact (Table.find_eq_none_iff _).1 hnone i hi happ
  | deletePolicies =>
    obtain rfl := Except.ok.inj h
    intro d hd hacted _
    exact ⟨_, List.mem_map_of_mem hd, ⟨rfl, rfl, rfl, rfl, rfl, rfl, rfl⟩, hacted, fun _ => rfl⟩
  | pruneDeployments batch => exact absurd rfl (hop batch)
  | pruneRemovedApplications batch =>
    obtain rfl := Except.ok.inj h
    exact .pruneRemoved hs batch now

end Rows

/-! ## The namespace of an instance -/

/-- Some deployment of the instance was sent: its row is past `planned`. -/
def Db.sentTo (db : Db) (instanceID : String) : Bool :=
  db.deployments.any fun d => d.instanceID = instanceID && d.state ≠ .planned

/-- An instance keeps its namespace, unless nothing was sent to it. -/
def Db.Moors (fresh : List String) (db db' : Db) : Prop :=
  ∀ i' ∈ db'.instances, i'.id ∈ fresh ∨
    ∃ i ∈ db.instances, i.id = i'.id ∧ (i'.ns = i.ns ∨ db.sentTo i.id = false)

section Namespaces

variable {now clock : Int} {used fresh : List String} {db db' : Db}

theorem sentTo_eq_true {id : String} :
    db.sentTo id = true ↔ ∃ d ∈ db.deployments, d.instanceID = id ∧ d.state ≠ .planned := by
  simp [Db.sentTo]

theorem Db.Recalls.sentTo (h : db.Recalls db') {i : Instance} (hi : i ∈ db'.instances)
    (hsent : db.sentTo i.id = true) : db'.sentTo i.id = true := by
  obtain ⟨d, hd, hid, hacted⟩ := sentTo_eq_true.1 hsent
  obtain ⟨d', hd', hsame, hacted', -⟩ := h d hd hacted ⟨i, hi, hid.symm⟩
  exact sentTo_eq_true.2 ⟨d', hd', hsame.2.2.1.trans hid, hacted'⟩

/-- Every instance that is not new keeps its namespace. -/
def Db.Sites (fresh : List String) (db db' : Db) : Prop :=
  ∀ i' ∈ db'.instances, i'.id ∈ fresh ∨ ∃ i ∈ db.instances, i.id = i'.id ∧ i'.ns = i.ns

theorem Db.Sites.of_sub (h : ∀ i' ∈ db'.instances, ∃ i ∈ db.instances, i.id = i'.id ∧ i'.ns = i.ns) :
    db.Sites fresh db' :=
  fun i' hi' => .inr (h i' hi')

theorem Db.Sites.of_same (h : db'.instances = db.instances) : db.Sites fresh db' :=
  .of_sub fun i' hi' => ⟨i', h ▸ hi', rfl, rfl⟩

theorem Db.Sites.of_append {i : Instance} (hid : i.id ∈ fresh)
    (h : db'.instances = db.instances ++ [i]) : db.Sites fresh db' := by
  intro i' hi'
  rw [h] at hi'
  rcases Table.mem_concat.1 hi' with hi' | hi'
  · exact .inr ⟨i', hi', rfl, rfl⟩
  · exact .inl (hi' ▸ hid)

theorem Db.Sites.of_settled {d : Deployment} {res : DeploymentResult} {o : Outcome}
    {st : DeploymentState} (h : Settled d res o st now db db') : db.Sites fresh db' := by
  apply Db.Sites.of_sub
  intro i' hi'
  rw [h.instances] at hi'
  split at hi'
  · cases hk : d.kind with
    | apply =>
      simp only [hk] at hi'
      obtain ⟨i, hi, rfl⟩ := Table.mem_updateWhere.1 hi'
      exact ⟨i, hi, by split <;> rfl, by split <;> rfl⟩
    | remove =>
      simp only [hk] at hi'
      exact ⟨i', List.mem_of_mem_filter hi', rfl, rfl⟩
  · exact ⟨i', hi', rfl, rfl⟩

/-- Only a mapping to a cluster moves an instance. -/
theorem sites_of_lifecycle (hs : Sound clock used db) {op : LifecycleOp}
    (hmap : ∀ app instanceID endpointID ns ep, op ≠ .mapKubernetes app instanceID endpointID ns ep)
    (h : op.exec now db = .ok db') : db.Sites op.fresh db' := by
  cases op with
  | adoptApplication =>
    obtain ⟨i, rs, hnew, -, -, -, rfl⟩ := adoptApplication_ok h
    exact .of_append (List.mem_singleton.2 hnew.1) rfl
  | mapKubernetes => exact absurd rfl (hmap _ _ _ _ _)
  | setApplicationMapping =>
    obtain ⟨a, i, -, -, -, -, -, rfl⟩ := setApplicationMapping_ok h
    apply Db.Sites.of_sub
    intro j' hj'
    obtain ⟨j, hj, rfl⟩ := Table.mem_updateWhere.1 hj'
    exact ⟨j, hj, by split <;> rfl, by split <;> rfl⟩
  | releaseApplication =>
    obtain ⟨-, -, rfl⟩ := releaseApplication_ok h
    exact .of_sub fun i' hi' => ⟨i', List.mem_of_mem_filter hi', rfl, rfl⟩
  | settleDeployment =>
    obtain ⟨d, o, st, -, -, -, -, -, -, htables⟩ := settleDeployment_ok h
    exact .of_settled htables
  | _ => exact .of_same (bindings_of_exec hs.ids h rfl).1

theorem sites_of_exec (hs : Sound clock used db) {op : StoreOp}
    (hmap : ∀ app instanceID endpointID ns ep,
      op ≠ .lifecycle (.mapKubernetes app instanceID endpointID ns ep))
    (h : op.exec now db = .ok db') : db.Sites op.fresh db' := by
  cases op with
  | lifecycle =>
    refine sites_of_lifecycle hs (fun app instanceID endpointID ns ep heq => ?_) h
    exact hmap app instanceID endpointID ns ep (congrArg StoreOp.lifecycle heq)
  | _ =>
    apply Db.Sites.of_same
    exact StoreOp.deletes (P := fun x => x.instances = db.instances) h nofun rfl
      (fun _ _ hx => hx) (fun _ _ hx => hx) fun _ _ hx => hx

theorem Db.Sites.moors (h : db.Sites fresh db') : db.Moors fresh db' := by
  intro i' hi'
  rcases h i' hi' with hnew | ⟨i, hi, hid, hns⟩
  · exact .inl hnew
  · exact .inr ⟨i, hi, hid, .inl hns⟩

theorem Db.Moors.of_map {app instanceID endpointID ns : String} {ep : EndpointView}
    (hn : (db.instances.map Instance.id).Nodup)
    (h : mapKubernetes app instanceID endpointID ns ep db = .ok db') : db.Moors [instanceID] db' := by
  rcases mapKubernetes_ok h with ⟨i, hnew, -, -, rfl⟩ | ⟨a, i, -, hi, -, hstays, -, rfl⟩
  · exact (Db.Sites.of_append (List.mem_singleton.2 hnew.1) rfl).moors
  intro j' hj'
  obtain ⟨j, hj, rfl⟩ := Table.mem_updateWhere.1 hj'
  by_cases hid : j.id = i.id
  · rw [if_pos (by simpa using hid)]
    refine .inr ⟨j, hj, rfl, ?_⟩
    rcases hstays with hns | hplanned
    · rw [List.inj_on_of_nodup_map hn hj (Table.mem_of_find _ hi) hid]
      exact .inl hns.symm
    · refine .inr ?_
      rw [← Bool.not_eq_true, sentTo_eq_true]
      rintro ⟨d, hd, hdid, hacted⟩
      exact hacted (hplanned d hd (hdid.trans hid))
  · rw [if_neg (by simpa using hid)]
    exact .inr ⟨j, hj, rfl, .inl rfl⟩

/-- Every transaction keeps the namespace of an instance something was sent to. -/
theorem moors_of_exec (hs : Sound clock used db) {op : StoreOp} (h : op.exec now db = .ok db') :
    db.Moors op.fresh db' := by
  by_cases hmap : ∃ app instanceID endpointID ns ep,
      op = .lifecycle (.mapKubernetes app instanceID endpointID ns ep)
  · obtain ⟨app, instanceID, endpointID, ns, ep, rfl⟩ := hmap
    exact .of_map hs.instanceIDs h
  · exact (sites_of_exec hs (by simpa using hmap) h).moors

/-- An instance on Docker stays one. -/
theorem docker_of_exec (hs : Sound clock used db) {op : StoreOp} (hfresh : ∀ id ∈ op.fresh, id ∉ used)
    (h : op.exec now db = .ok db') {i i' : Instance} (hi : i ∈ db.instances)
    (hi' : i' ∈ db'.instances) (hid : i.id = i'.id) (hns : i.ns = "") : i'.ns = "" := by
  by_cases hmap : ∃ app instanceID endpointID ns ep,
      op = .lifecycle (.mapKubernetes app instanceID endpointID ns ep)
  · obtain ⟨app, instanceID, endpointID, ns, ep, rfl⟩ := hmap
    rcases mapKubernetes_ok h with ⟨j, hnew, -, -, rfl⟩ | ⟨a, j, -, hj, hcluster, -, -, rfl⟩
    · rcases Table.mem_concat.1 hi' with hi' | hi'
      · rw [← List.inj_on_of_nodup_map hs.instanceIDs hi hi' hid]
        exact hns
      · rw [hi', hnew.1] at hid
        exact absurd (hid ▸ hs.knownInstance i hi) (hfresh _ (List.mem_singleton.2 rfl))
    · obtain ⟨k, hk, rfl⟩ := Table.mem_updateWhere.1 hi'
      have hki : i = k := by
        apply List.inj_on_of_nodup_map hs.instanceIDs hi hk
        rw [hid]
        split <;> rfl
      subst hki
      -- only an instance on a cluster is mapped again
      have hne : i.id ≠ j.id := fun heq => hcluster
        (List.inj_on_of_nodup_map hs.instanceIDs hi (Table.mem_of_find _ hj) heq ▸ hns)
      rw [if_neg (by simpa using hne)]
      exact hns
  · rcases sites_of_exec hs (by simpa using hmap) h i' hi' with hnew | ⟨j, hj, hjid, hjns⟩
    · exact absurd (hid ▸ hs.knownInstance i hi) (hfresh _ hnew)
    · rw [hjns, List.inj_on_of_nodup_map hs.instanceIDs hj hi (hjid.trans hid.symm)]
      exact hns

end Namespaces

/-! ## Runs -/

/-- Each cluster instance that something was sent to has a row that says so outside the pass. -/
def StoreOp.sparesSent (now : Int) (db : Db) : StoreOp → Bool
  | .pruneDeployments batch => db.instances.all fun i => i.ns = "" || !db.sentTo i.id ||
      db.deployments.any fun d =>
        !db.falls now batch d && (d.instanceID = i.id && d.state ≠ .planned)
  | _ => true

/-- The store whose retention spares those rows. -/
abbrev sparing : Machine Server (Int × StoreOp) (Option (Option StoreError)) :=
  storeMachine.restrict fun s op => op.2.sparesSent op.1 s.db = true

/-- The instance, if it is there, stands in the namespace and something was sent to it. -/
structure Moored (id ns : String) (s : Server) : Prop where
  sound : Sound s.clock s.used s.db
  known : id ∈ s.used
  stands : ∀ i ∈ s.db.instances, i.id = id → i.ns = ns ∧ s.db.sentTo id = true

theorem Moored.step {id ns : String} (hns : ns ≠ "") {s s' : Server} {op : Int × StoreOp}
    (h : Moored id ns s) (hspares : op.2.sparesSent op.1 s.db = true)
    (hstep : storeMachine.step op s = .ok s') : Moored id ns s' := by
  have hsound := Sound.store_step h.sound hstep
  obtain ⟨now, op⟩ := op
  obtain ⟨-, hfresh, db, hexec, rfl⟩ := serverMachine_ok hstep
  refine ⟨hsound, List.mem_append_right _ h.known, ?_⟩
  intro i' hi' hid
  rcases moors_of_exec h.sound hexec i' hi' with hnew | ⟨i, hi, heq, hmoved⟩
  · -- ids are drawn once, so the instance did not come back
    exact absurd (hid ▸ h.known) (hfresh _ hnew)
  obtain ⟨hstands, hsent⟩ := h.stands i hi (heq.trans hid)
  have hne : db.sentTo id = true := by
    cases op with
    | pruneDeployments =>
      obtain rfl := Except.ok.inj hexec
      have hall := List.all_eq_true.1 hspares i hi
      rw [Db.sentTo, pruneDeployments, Db.deleteDeployments, List.any_filter]
      simpa [heq, hid, hstands, hns, hsent] using hall
    | _ => exact hid ▸ (recalls_of_exec h.sound (by simp) hexec).sentTo hi' (hid ▸ hsent)
  rcases hmoved with hmoved | hnone
  · exact ⟨hmoved.trans hstands, hne⟩
  · rw [heq, hid, hsent] at hnone
    cases hnone

/-- Once a deployment was sent to a cluster instance, its namespace never changes while it exists, in
every run in which retention spares the rows that say so. -/
theorem namespace_stays {s s' : Server} (h : storeMachine.Steps .new s) {i i' : Instance}
    (hi : i ∈ s.db.instances) (hns : i.ns ≠ "") (hsent : s.db.sentTo i.id = true)
    (hs : sparing.Steps s s') (hi' : i' ∈ s'.db.instances) (hid : i'.id = i.id) : i'.ns = i.ns := by
  have hsound := store_sound h
  have hmoored : Moored i.id i.ns s := by
    refine ⟨hsound, hsound.knownInstance i hi, ?_⟩
    intro j hj hj'
    rw [List.inj_on_of_nodup_map hsound.instanceIDs hj hi hj']
    exact ⟨rfl, hsent⟩
  have hmoored' : Moored i.id i.ns s' :=
    Machine.restrict_keeps (fun _ _ _ hm hc hstep => hm.step hns hc hstep) hs hmoored
  exact (hmoored'.stands i' hi' hid).1

/-! ### A failed deployment -/

/-- The endpoint lists two namespaces. -/
def twoNamespaces : EndpointView := ⟨true, .kubernetes, ["prod", "test"]⟩

/-- The first apply of a cluster instance reaches the agent and fails there. -/
def failedRun : List (Int × StoreOp) :=
  (clusterRun.set 1 (2, .mapKubernetes "a" "i" "e" "prod" twoNamespaces)).map
      (Prod.map id .lifecycle) ++
    [(5, .lifecycle (.settleDeployment "e" (.bare (rowID 1) "r" .failed .stepFailed)))]

/-- Retention, and a mapping to the other namespace. -/
def movedRun (now : Int) : List (Int × StoreOp) :=
  [(now, .pruneDeployments [rowID 1]),
    (now + 1, .lifecycle (.mapKubernetes "a" "j" "e" "test" twoNamespaces))]

/-- Ninety days after the failure the row is gone, and the instance moves. -/
theorem namespace_moves_after_prune :
    let s := storeMachine.run failedRun .new
    let s' := storeMachine.run (movedRun (6 + deploymentHistoryRetention)) s
    storeMachine.Steps .new s ∧ storeMachine.Steps s s' ∧
      s.db.deployments.map (fun d => (d.instanceID, d.state, d.result.isSome)) =
        [("i", .failed, true)] ∧
      s.db.instances.map (fun i => (i.id, i.ns)) = [("i", "prod")] ∧
      s'.db.instances.map (fun i => (i.id, i.ns)) = [("i", "test")] := by
  exact ⟨Machine.steps_run _ _, Machine.steps_run _ _, by decide +kernel, by decide +kernel,
    by decide +kernel⟩

/-- Before that the mapping is refused. -/
theorem namespace_stays_control :
    let s := storeMachine.run failedRun .new
    let s' := sparing.run (movedRun 6) s
    s'.clock = 6 ∧ ∀ i ∈ s.db.instances, ∀ i' ∈ s'.db.instances, i'.id = i.id → i'.ns = i.ns := by
  intro s s'
  have hsent : ∀ i ∈ s.db.instances, i.ns ≠ "" ∧ s.db.sentTo i.id = true := by decide +kernel
  have hs : storeMachine.Steps .new s := Machine.steps_run _ _
  have hs' : sparing.Steps s s' := Machine.steps_run _ _
  refine ⟨by decide +kernel, ?_⟩
  intro i hi i' hi' hid
  exact namespace_stays hs hi (hsent i hi).1 (hsent i hi).2 hs' hi' hid

end KyYard.Store
