import KyYard.Store.Retention

/-!
# Containers, mappings and revisions over transactions

What an instance is bound to changes in few ways. `Carries` sums up every transaction but the settling
of an apply: revisions and mapping versions only grow, containers only go, and new ones come with a
new instance. A settled apply puts the containers it reports in the places of those its plan replaced
(`foldlM_rebind`); on a cluster it binds nothing.
-/

namespace KyYard.Store

open Foundation Protocol

/-! ## What a transaction takes away -/

/-- What identifies a container. -/
def Resource.place (r : Resource) : String × String := (r.endpointID, r.containerID)

/-- A container stays as it was, up to its service. -/
def Resource.SameContainer (r r' : Resource) : Prop :=
  r'.instanceID = r.instanceID ∧ r'.endpointID = r.endpointID ∧ r'.containerID = r.containerID ∧
    r'.imageID = r.imageID

/-- Revisions and mapping versions only grow, an apply has services, and image checks only go. -/
structure Around (fresh : List String) (db db' : Db) : Prop where
  applications : ∀ id a', db'.application? id = some a' → id ∈ fresh ∨
    ∃ a, db.application? id = some a ∧ a.latestRevision ≤ a'.latestRevision
  instances : ∀ id i', db'.instance? id = some i' → id ∈ fresh ∨
    ∃ i, db.instance? id = some i ∧ i'.endpointID = i.endpointID ∧ (i.ns = "" → i'.ns = "") ∧
      i.mappingVersion ≤ i'.mappingVersion
  plans : ∀ d' ∈ db'.deployments, d'.kind = .apply → d'.plan.services ≠ [] ∨
    ∃ d ∈ db.deployments, d.kind = .apply ∧ d.plan = d'.plan
  imageChecks : ∀ c ∈ db'.imageChecks, c ∈ db.imageChecks

/-- The containers of an instance only go; those of a new one are its own. -/
structure Carries (fresh : List String) (db db' : Db) : Prop extends Around fresh db db' where
  resources : ∀ r' ∈ db'.resources, (∃ r ∈ db.resources, r.SameContainer r') ∨
    r'.instanceID ∈ fresh ∧ ∀ i', db'.instance? r'.instanceID = some i' →
      i'.endpointID = r'.endpointID ∧ i'.ns = ""
  distinct : (db.resources.map Resource.place).Nodup →
    (db'.resources.map Resource.place).Nodup

section Carry

variable {fresh : List String} {db db' : Db} {now : Int}

/-! Tables that are left alone, changed in place or shortened. -/

/-- An instance that is not new keeps its endpoint and loses no version of its mapping. -/
def InstancesKept (fresh : List String) (db db' : Db) : Prop :=
  ∀ id i', db'.instance? id = some i' → id ∈ fresh ∨
    ∃ i, db.instance? id = some i ∧ i'.endpointID = i.endpointID ∧ (i.ns = "" → i'.ns = "") ∧
      i.mappingVersion ≤ i'.mappingVersion

theorem applications_updated {p : Application → Bool} {f : Application → Application}
    (h : db'.applications = Table.updateWhere p f db.applications) (hid : ∀ a, (f a).id = a.id)
    (hle : ∀ a, a.latestRevision ≤ (f a).latestRevision) (id : String) (a' : Application)
    (ha' : db'.application? id = some a') : id ∈ fresh ∨
      ∃ a, db.application? id = some a ∧ a.latestRevision ≤ a'.latestRevision := by
  rw [Db.application?, h] at ha'
  obtain ⟨a, ha, rfl⟩ := Table.find_updateWhere hid ha'
  refine .inr ⟨a, ha, ?_⟩
  by_cases hp : p a = true
  · rw [if_pos hp]
    exact hle a
  · rw [if_neg hp]

theorem instances_updated {p : Instance → Bool} {f : Instance → Instance}
    (h : db'.instances = Table.updateWhere p f db.instances)
    (hf : ∀ i, (f i).id = i.id ∧ (f i).endpointID = i.endpointID)
    (hns : ∀ i ∈ db.instances, p i = true → i.ns = "" → (f i).ns = "")
    (hle : ∀ i, i.mappingVersion ≤ (f i).mappingVersion) : InstancesKept fresh db db' := by
  intro id i' hi'
  rw [Db.instance?, h] at hi'
  obtain ⟨i, hi, rfl⟩ := Table.find_updateWhere (fun i => (hf i).1) hi'
  refine .inr ⟨i, hi, ?_⟩
  by_cases hp : p i = true
  · rw [if_pos hp]
    exact ⟨(hf i).2, hns i (Table.mem_of_find _ hi) hp, hle i⟩
  · rw [if_neg hp]
    exact ⟨rfl, fun h => h, le_rfl⟩

theorem applications_same (h : db'.applications = db.applications) (id : String)
    (a' : Application) (ha' : db'.application? id = some a') : id ∈ fresh ∨
      ∃ a, db.application? id = some a ∧ a.latestRevision ≤ a'.latestRevision := by
  rw [Db.application?, h] at ha'
  exact .inr ⟨a', ha', le_rfl⟩

theorem instances_same (h : db'.instances = db.instances) : InstancesKept fresh db db' := by
  intro id i' hi'
  rw [Db.instance?, h] at hi'
  exact .inr ⟨i', hi', rfl, fun h => h, le_rfl⟩

theorem plans_same
    (h : ∀ d' ∈ db'.deployments, ∃ d ∈ db.deployments, d.kind = d'.kind ∧ d.plan = d'.plan)
    (d' : Deployment) (hd' : d' ∈ db'.deployments) (hk : d'.kind = .apply) :
    d'.plan.services ≠ [] ∨ ∃ d ∈ db.deployments, d.kind = .apply ∧ d.plan = d'.plan := by
  obtain ⟨d, hd, hkind, hplan⟩ := h d' hd'
  exact .inr ⟨d, hd, hkind.trans hk, hplan⟩

theorem resources_sub (h : ∀ r ∈ db'.resources, r ∈ db.resources) (r' : Resource)
    (hr' : r' ∈ db'.resources) : (∃ r ∈ db.resources, r.SameContainer r') ∨
      r'.instanceID ∈ fresh ∧ ∀ i', db'.instance? r'.instanceID = some i' →
        i'.endpointID = r'.endpointID ∧ i'.ns = "" :=
  .inl ⟨r', h r' hr', rfl, rfl, rfl, rfl⟩

/-- Only rows change, and no row changes its plan. -/
theorem Carries.of_rows (applications : db'.applications = db.applications)
    (instances : db'.instances = db.instances) (resources : db'.resources = db.resources)
    (imageChecks : db'.imageChecks = db.imageChecks)
    (rows : ∀ d' ∈ db'.deployments, ∃ d ∈ db.deployments, d.kind = d'.kind ∧ d.plan = d'.plan) :
    Carries fresh db db' where
  applications := applications_same applications
  instances := instances_same instances
  plans := plans_same rows
  imageChecks := fun _ hc => imageChecks ▸ hc
  resources := resources_sub fun _ hr => resources ▸ hr
  distinct := fun hn => resources ▸ hn

theorem updated_plan {p : Deployment → Bool} {f : Deployment → Deployment} {t : List Deployment}
    {d' : Deployment} (h : d' ∈ Table.updateWhere p f t)
    (hf : ∀ d, (f d).kind = d.kind ∧ (f d).plan = d.plan) :
    ∃ d ∈ t, d.kind = d'.kind ∧ d.plan = d'.plan := by
  obtain ⟨d, hd, rfl⟩ := Table.mem_updateWhere.1 h
  refine ⟨d, hd, ?_⟩
  by_cases hp : p d = true
  · rw [if_pos hp]
    exact ⟨(hf d).1.symm, (hf d).2.symm⟩
  · rw [if_neg hp]
    exact ⟨rfl, rfl⟩

/-- A new row is a removal's, or its plan has services. -/
theorem Carries.of_opened {d : Deployment} (h : db.Opened d db')
    (hplan : d.kind = .apply → d.plan.services ≠ []) : Carries fresh db db' := by
  obtain ⟨p, -, -, rfl⟩ := h
  refine ⟨⟨applications_same rfl, instances_same rfl, ?_, fun _ hc => hc⟩,
    resources_sub fun _ hr => hr, fun hn => hn⟩
  intro d' hd' hk
  rw [List.mem_append, List.mem_singleton] at hd'
  rcases hd' with hd' | rfl
  · exact .inr ⟨d', List.mem_of_mem_filter hd', hk, rfl⟩
  · exact .inl (hplan hk)

variable {app : String} {res : DeploymentResult} {st : DeploymentState}

theorem Carries.of_plan {id : String} {r : PlanRequest} {c : PlanContext}
    {correlation : RequestID} (hn : (db.deployments.map Deployment.id).Nodup)
    (h : planDeployment app id r c correlation now db = .ok db') : Carries fresh db db' := by
  obtain ⟨a, i, rev, -, -, -, hvalid, -, hopen⟩ := planDeployment_ok hn h
  apply Carries.of_opened hopen
  intro _
  have hne := (validateApplicationSpec_checks hvalid).1
  unfold plannedRow draftPlan
  by_cases hns : i.ns = "" <;> simpa [hns] using hne

/-- An instance joins under a new id. -/
theorem instances_appended {i : Instance} (hid : i.id ∈ fresh)
    (h : db'.instances = db.instances ++ [i]) : InstancesKept fresh db db' := by
  intro id i' hi'
  rw [Db.instance?, h] at hi'
  rcases Table.find_concat _ hi' with hi' | rfl
  · exact .inr ⟨i', hi', rfl, fun h => h, le_rfl⟩
  · exact .inl hid

/-- New containers keep the table's containers distinct. -/
theorem insertResource_ok {rs rs' : List Resource} {r : Resource}
    (h : insertResource rs r = .ok rs') :
    rs' = rs ++ [r] ∧ ∀ s ∈ rs, ¬ (s.endpointID = r.endpointID ∧ s.containerID = r.containerID) := by
  simp only [insertResource, guard_error_eq_ok, Except.ok.injEq, List.any_eq_true, not_exists,
    not_and, Resource.clashes, Bool.or_eq_true, Bool.and_eq_true, decide_eq_true_eq, not_or] at h
  refine ⟨h.2.symm, ?_⟩
  rintro s hs ⟨he, hc⟩
  exact (h.1 s hs).1 he.symm hc.symm

theorem insertResource_distinct {rs rs' : List Resource} {r : Resource}
    (hn : (rs.map Resource.place).Nodup) (h : insertResource rs r = .ok rs') :
    (rs'.map Resource.place).Nodup := by
  obtain ⟨rfl, hfree⟩ := insertResource_ok h
  refine Table.nodup_concat hn fun s hs hplace => ?_
  exact hfree s hs ⟨congrArg Prod.fst hplace, congrArg Prod.snd hplace⟩

theorem foldlM_insertResource {new rs rs' : List Resource}
    (h : new.foldlM insertResource rs = .ok rs') :
    rs' = rs ++ new ∧ ((rs.map Resource.place).Nodup → (rs'.map Resource.place).Nodup) := by
  induction new generalizing rs with
  | nil =>
    obtain rfl := Except.ok.inj h
    exact ⟨(List.append_nil _).symm, fun hn => hn⟩
  | cons r new ih =>
    obtain ⟨rs₁, hr, h⟩ := foldlM_cons_eq_ok.1 h
    obtain ⟨hrs', hn'⟩ := ih h
    obtain ⟨rfl, -⟩ := insertResource_ok hr
    refine ⟨by rw [hrs', List.append_assoc, List.singleton_append], ?_⟩
    intro hn
    exact hn' (insertResource_distinct hn hr)

theorem Carries.of_adopt {instanceID : String} {r : AdoptionRequest} {p : AdoptionPreview}
    (h : adoptApplication app instanceID r p db = .ok db') : Carries [instanceID] db db' := by
  obtain ⟨i, rs, ⟨hid, -⟩, hns, hfree, hrs, rfl⟩ := adoptApplication_ok h
  obtain ⟨rfl, hn⟩ := foldlM_insertResource hrs
  have hfresh : i.id ∈ [instanceID] := List.mem_singleton.2 hid
  refine ⟨⟨applications_updated rfl (fun _ => rfl) (fun _ => le_rfl),
    instances_appended hfresh rfl, plans_same fun d hd => ⟨d, hd, rfl, rfl⟩, fun _ hc => hc⟩, ?_, hn⟩
  intro r' hr'
  rcases List.mem_append.1 hr' with hr' | hr'
  · exact .inl ⟨r', hr', rfl, rfl, rfl, rfl⟩
  obtain ⟨c, -, rfl⟩ := List.mem_map.1 hr'
  refine .inr ⟨hfresh, ?_⟩
  -- the instance found under the new id is the new one
  intro i' hi'
  have hmem := Table.mem_of_find _ hi'
  have hkey : i'.id = i.id := Table.key_of_find _ hi'
  rcases Table.mem_concat.1 hmem with hmem | hmem
  · exact absurd hkey (hfree i' hmem).1
  · rw [hmem]
    exact ⟨rfl, hns⟩

theorem Carries.of_map {instanceID endpointID ns : String} {ep : EndpointView}
    (hn : (db.instances.map Instance.id).Nodup)
    (h : mapKubernetes app instanceID endpointID ns ep db = .ok db') :
    Carries [instanceID] db db' := by
  rcases mapKubernetes_ok h with ⟨i, ⟨hid, -⟩, -, -, rfl⟩ | ⟨a, i, -, hi, hns, -, -, rfl⟩
  · exact ⟨⟨applications_updated rfl (fun _ => rfl) (fun _ => le_rfl),
      instances_appended (List.mem_singleton.2 hid) rfl,
      plans_same fun d hd => ⟨d, hd, rfl, rfl⟩, fun _ hc => hc⟩,
      resources_sub fun _ hr => hr, fun hn => hn⟩
  · refine ⟨⟨applications_updated rfl (fun _ => rfl) (fun _ => le_rfl),
      instances_updated rfl (fun _ => ⟨rfl, rfl⟩) ?_ (fun _ => Nat.le_succ _),
      plans_same fun d hd => ⟨d, hd, rfl, rfl⟩, fun _ hc => hc⟩,
      resources_sub fun _ hr => hr, fun hn => hn⟩
    -- only an instance on a cluster moves
    intro j hj hid hempty
    have hji : j = i :=
      List.inj_on_of_nodup_map hn hj (Table.mem_of_find _ hi) (by simpa using hid)
    exact absurd (hji ▸ hempty) hns

theorem Carries.of_mapping {r : MappingRequest} {runtime : Runtime}
    {unchanged : Bool} {digest : String}
    (h : setApplicationMapping app r runtime unchanged digest db = .ok db') :
    Carries fresh db db' := by
  obtain ⟨a, i, -, -, -, -, -, rfl⟩ := setApplicationMapping_ok h
  refine ⟨⟨applications_same rfl,
    instances_updated rfl (fun _ => ⟨rfl, rfl⟩) (fun _ _ _ hns => hns) (fun _ => Nat.le_succ _),
    plans_same fun d hd => ⟨d, hd, rfl, rfl⟩, fun _ hc => hc⟩, ?_,
    fun hn => Table.nodup_updateWhere hn fun _ => rfl⟩
  intro r' hr'
  obtain ⟨c, hc, rfl⟩ := Table.mem_updateWhere.1 hr'
  refine .inl ⟨c, hc, ?_⟩
  by_cases hi : c.instanceID = i.id <;> simp [hi, Resource.SameContainer]

/-- An instance goes with its containers and its checks. -/
theorem instances_deleted (hn : (db.instances.map Instance.id).Nodup) {q : Instance → Bool}
    (h : db'.instances = db.instances.filter q) : InstancesKept fresh db db' := by
  intro id i' hi'
  have hmem := Table.mem_of_find _ hi'
  rw [h] at hmem
  have hfind := Table.find_of_mem _ hn (List.mem_of_mem_filter hmem)
  rw [Table.key_of_find _ hi'] at hfind
  exact .inr ⟨i', hfind, rfl, fun h => h, le_rfl⟩

theorem distinct_filter {q : Resource → Bool} (hn : (db.resources.map Resource.place).Nodup) :
    ((db.resources.filter q).map Resource.place).Nodup :=
  hn.sublist (List.filter_sublist.map _)

theorem Carries.of_release {id confirm : String} (hn : (db.instances.map Instance.id).Nodup)
    (h : releaseApplication app id confirm now db = .ok db') : Carries fresh db db' := by
  obtain ⟨-, -, rfl⟩ := releaseApplication_ok h
  exact ⟨⟨applications_same rfl, instances_deleted hn rfl,
    plans_same fun d hd => ⟨d, List.mem_of_mem_filter hd, rfl, rfl⟩,
    fun _ hc => List.mem_of_mem_filter hc⟩,
    resources_sub fun _ hr => List.mem_of_mem_filter hr, distinct_filter⟩

theorem Settled.plans {d : Deployment} {o : Outcome} (h : Settled d res o st now db db') :
    ∀ d' ∈ db'.deployments, ∃ d ∈ db.deployments, d.kind = d'.kind ∧ d.plan = d'.plan := by
  intro d' hd'
  rw [h.deployments] at hd'
  obtain ⟨d₁, hd₁, hk₁, hp₁⟩ := updated_plan hd' fun _ => ⟨rfl, rfl⟩
  obtain ⟨d₀, hd₀, hk₀, hp₀⟩ := updated_plan hd₁ fun _ => ⟨rfl, rfl⟩
  exact ⟨d₀, hd₀, hk₀.trans hk₁, hp₀.trans hp₁⟩

theorem Settled.imageChecks_sub {d : Deployment} {o : Outcome} (h : Settled d res o st now db db') :
    ∀ c ∈ db'.imageChecks, c ∈ db.imageChecks := by
  intro c hc
  rw [h.imageChecks] at hc
  split at hc
  · exact List.mem_of_mem_filter hc
  · exact hc

/-- A removal's result takes containers away. -/
theorem Carries.of_removal (hn : (db.instances.map Instance.id).Nodup) {d : Deployment}
    {o : Outcome} (hk : d.kind = .remove)
    (h : Settled d res o st now db db') : Carries fresh db db' := by
  obtain ⟨rs, hrs, hresources⟩ := h.resources
  obtain ⟨p, rfl, -⟩ := hrs.removal hk
  have happs : db'.applications = Table.updateWhere
      (fun a => decide (st = .succeeded) && decide (a.id = d.applicationID))
      (fun a => { a with removedAt := some now }) db.applications := by
    rw [h.applications]
    by_cases hst : st = .succeeded
    · simp [hst, hk]
    · simp [hst, Table.updateWhere]
  have hinst : db'.instances =
      db.instances.filter fun i => !(decide (st = .succeeded) && decide (i.id = d.instanceID)) := by
    rw [h.instances, hk]
    by_cases hst : st = .succeeded
    · simp [hst, Db.deleteInstance]
    · simp [hst]
  refine ⟨⟨applications_updated happs (fun _ => rfl) (fun _ => le_rfl), instances_deleted hn hinst,
    plans_same h.plans, h.imageChecks_sub⟩, resources_sub ?_, ?_⟩
  · intro r hr
    rw [hresources] at hr
    split at hr
    · exact List.mem_of_mem_filter (List.mem_of_mem_filter hr)
    · exact List.mem_of_mem_filter hr
  · intro hd
    rw [hresources]
    split
    · exact (distinct_filter hd).sublist (List.filter_sublist.map _)
    · exact distinct_filter hd

/-- A second transaction without new ids. -/
theorem Carries.trans {db'' : Db} (h : Carries [] db db') (h' : Carries [] db' db'') :
    Carries [] db db'' := by
  refine ⟨⟨?_, ?_, ?_, fun c hc => h.imageChecks c (h'.imageChecks c hc)⟩, ?_,
    fun hn => h'.distinct (h.distinct hn)⟩
  · intro id a'' ha''
    rcases h'.applications id a'' ha'' with hc | ⟨a', ha', hle'⟩
    · cases hc
    · rcases h.applications id a' ha' with hc | ⟨a, ha, hle⟩
      · cases hc
      · exact .inr ⟨a, ha, hle.trans hle'⟩
  · intro id i'' hi''
    rcases h'.instances id i'' hi'' with hc | ⟨i', hi', he', hns', hle'⟩
    · cases hc
    · rcases h.instances id i' hi' with hc | ⟨i, hi, he, hns, hle⟩
      · cases hc
      · exact .inr ⟨i, hi, he'.trans he, fun h => hns' (hns h), hle.trans hle'⟩
  · intro d'' hd'' hk
    rcases h'.plans d'' hd'' hk with hne | ⟨d', hd', hk', hp'⟩
    · exact .inl hne
    · rcases h.plans d' hd' hk' with hne | ⟨d, hd, hkd, hpd⟩
      · exact .inl (hp' ▸ hne)
      · exact .inr ⟨d, hd, hkd, hpd.trans hp'⟩
  · intro r'' hr''
    rcases h'.resources r'' hr'' with ⟨r', hr', h₁, h₂, h₃, h₄⟩ | ⟨hc, -⟩
    · rcases h.resources r' hr' with ⟨r, hr, g₁, g₂, g₃, g₄⟩ | ⟨hc, -⟩
      · exact .inl ⟨r, hr, h₁.trans g₁, h₂.trans g₂, h₃.trans g₃, h₄.trans g₄⟩
      · cases hc
    · cases hc

theorem Carries.deletePolicies (p : UpdatePolicy → Bool) :
    Carries fresh db (db.deletePolicies p) := by
  refine .of_rows rfl rfl rfl rfl ?_
  intro d' hd'
  obtain ⟨d, hd, rfl⟩ := List.mem_map.1 hd'
  exact ⟨d, hd, rfl, rfl⟩

theorem Carries.deleteDeployments (p : Deployment → Bool) :
    Carries fresh db (db.deleteDeployments p) :=
  .of_rows rfl rfl rfl rfl fun d hd => ⟨d, List.mem_of_mem_filter hd, rfl, rfl⟩

theorem Carries.deleteApplication (id : String) : Carries [] db (db.deleteApplication id) := by
  apply ((Carries.deletePolicies _).trans (Carries.deleteDeployments _)).trans
  refine ⟨⟨?_, instances_same rfl, plans_same fun d hd => ⟨d, hd, rfl, rfl⟩, fun _ hc => hc⟩,
    resources_sub fun _ hr => hr, fun hn => hn⟩
  intro id' a' ha'
  have hkey := Table.key_of_find _ ha'
  have hmem := Table.mem_of_find _ ha'
  have hne : a'.id ≠ id := by simpa using (List.mem_filter.1 hmem).2
  refine .inr ⟨a', ?_, le_rfl⟩
  rw [← ha']
  refine (Table.find_filter Application.id ?_).symm
  intro a _ ha
  rw [ha, ← hkey]
  simpa using hne

theorem Carries.of_create {id name : String} {spec : ApplicationSpec}
    (h : createApplication id name spec db = .ok db') : Carries [id] db db' := by
  obtain rfl := createApplication_ok h
  refine ⟨⟨?_, instances_same rfl, plans_same fun d hd => ⟨d, hd, rfl, rfl⟩, fun _ hc => hc⟩,
    resources_sub fun _ hr => hr, fun hn => hn⟩
  intro id' a' ha'
  rcases Table.find_concat Application.id ha' with ha' | hid
  · exact .inr ⟨a', ha', le_rfl⟩
  · exact .inl (List.mem_singleton.2 hid)

/-- Rows that change in place keep their plans. -/
theorem Carries.of_update {p : Deployment → Bool} {f : Deployment → Deployment}
    {audit : List AuditRecord} (hf : ∀ d, (f d).kind = d.kind ∧ (f d).plan = d.plan) :
    Carries fresh db
      { db with deployments := Table.updateWhere p f db.deployments, audit := audit } :=
  .of_rows rfl rfl rfl rfl fun _ hd' => updated_plan hd' hf

/-- The transactions on other tables write no image checks. -/
def StoreOp.sparesChecks (db : Db) : StoreOp → Bool
  | .lifecycle (.other _ _ _ imageChecks _) => imageChecks = db.imageChecks
  | _ => true

/-- The succeeded apply a transaction settles. -/
def StoreOp.settles (now : Int) (db : Db) : StoreOp → List (String × Int)
  | .lifecycle (.settleDeployment _ r) =>
    if r.outcome = some .succeeded then
      (((db.deployment? r.deployment).filter (·.kind = .apply)).map fun d =>
        (d.instanceID, now)).toList
    else []
  | _ => []

/-- A transaction settles the result of an apply. -/
def StoreOp.SettlesApply (now : Int) (db db' : Db) (op : StoreOp) : Prop :=
  ∃ endpointID r d o st, op = .lifecycle (.settleDeployment endpointID r) ∧
    db.deployment? r.deployment = some d ∧ d.kind = .apply ∧ r.outcome = some o ∧
    outcomeState? o = some st ∧ (legacyResult r).validate = true ∧ db.settleable d = true ∧
    Settled d (legacyResult r) o st now db db'

theorem carries_of_lifecycle (hn : (db.deployments.map Deployment.id).Nodup)
    (hi : (db.instances.map Instance.id).Nodup) {op : LifecycleOp}
    (hspares : (StoreOp.lifecycle op).sparesChecks db = true) (h : op.exec now db = .ok db') :
    (StoreOp.lifecycle op).SettlesApply now db db' ∨
      Carries op.fresh db db' ∧ (StoreOp.lifecycle op).settles now db = [] := by
  cases op with
  | createApplication => exact .inr ⟨.of_create h, rfl⟩
  | appendApplicationRevision =>
    obtain ⟨spec', rfl⟩ := appendApplicationRevision_ok h
    exact .inr ⟨⟨⟨applications_updated rfl (fun _ => rfl) (fun _ => Nat.le_succ _),
      instances_same rfl, plans_same fun d hd => ⟨d, hd, rfl, rfl⟩, fun _ hc => hc⟩,
      resources_sub fun _ hr => hr, fun hn => hn⟩, rfl⟩
  | adoptApplication => exact .inr ⟨.of_adopt h, rfl⟩
  | mapKubernetes => exact .inr ⟨.of_map hi h, rfl⟩
  | setApplicationMapping => exact .inr ⟨.of_mapping h, rfl⟩
  | releaseApplication => exact .inr ⟨.of_release hi h, rfl⟩
  | planDeployment => exact .inr ⟨.of_plan hn h, rfl⟩
  | applyDeployment =>
    obtain ⟨d, i, -, -, -, -, -, -, -, -, -, -, rfl⟩ := applyDeployment_ok h
    exact .inr ⟨.of_update fun _ => ⟨rfl, rfl⟩, rfl⟩
  | failDeployment _ _ | abandonDeployments | sweepDeployments =>
    obtain rfl := Except.ok.inj h
    exact .inr ⟨.of_update fun _ => ⟨rfl, rfl⟩, rfl⟩
  | settleDeployment endpointID r =>
    obtain ⟨d, o, st, ho, hst, hvalid, hd, -, hsettle, htables⟩ := settleDeployment_ok h
    cases hk : d.kind with
    | apply => exact .inl ⟨endpointID, r, d, o, st, rfl, hd, hk, ho, hst, hvalid, hsettle, htables⟩
    | remove => exact .inr ⟨.of_removal hi hk htables, by simp [StoreOp.settles, hd, hk]⟩
  | refuseDeploymentResult =>
    obtain ⟨d, -, -, -, rfl | rfl⟩ := refuseDeploymentResult_ok h
    · exact .inr ⟨.of_rows rfl rfl rfl rfl fun d hd => ⟨d, hd, rfl, rfl⟩, rfl⟩
    · exact .inr ⟨.of_update fun _ => ⟨rfl, rfl⟩, rfl⟩
  | removeApplication =>
    obtain ⟨a, i, plan, -, -, -, -, -, -, hopen⟩ := removeApplication_ok h
    exact .inr ⟨.of_opened hopen (fun hk => by cases hk), rfl⟩
  | other _ _ _ imageChecks =>
    obtain rfl := Except.ok.inj h
    have hsame : imageChecks = db.imageChecks := by simpa [StoreOp.sparesChecks] using hspares
    exact .inr ⟨.of_rows rfl rfl rfl hsame fun d hd => ⟨d, hd, rfl, rfl⟩, rfl⟩

/-- All transactions but the settling of an apply only take away from what a check read. -/
theorem carries_of_exec (hn : (db.deployments.map Deployment.id).Nodup)
    (hi : (db.instances.map Instance.id).Nodup) {op : StoreOp} (hspares : op.sparesChecks db = true)
    (h : op.exec now db = .ok db') : op.SettlesApply now db db' ∨
      Carries op.fresh db db' ∧ op.settles now db = [] := by
  cases op with
  | lifecycle => exact carries_of_lifecycle hn hi hspares h
  | _ =>
    refine .inr ⟨?_, rfl⟩
    apply StoreOp.deletes h nofun
    · exact .of_rows rfl rfl rfl rfl fun d hd => ⟨d, hd, rfl, rfl⟩
    · exact fun _ p hc => hc.trans (.deletePolicies p)
    · exact fun _ p hc => hc.trans (.deleteDeployments p)
    · exact fun _ id hc => hc.trans (.deleteApplication id)

end Carry

/-! ## The settling of an apply -/

section Rebinding

variable {instanceID endpointID : String} {plan : DeploymentPlan}

/-- A container gives way to the one reported for its service. -/
theorem rebind_ok {rs rs' : List Resource} {id : DeploymentIdentity}
    (h : rebind instanceID endpointID plan rs id = .ok rs') :
    ∃ r ∈ rs, r.instanceID = instanceID ∧ r.endpointID = endpointID ∧
      r.containerID = ((plan.service? id.service).map PlannedService.containerID).getD "" ∧
      (∀ r' ∈ rs', (r' ∈ rs ∧ ¬ (r'.instanceID = instanceID ∧ r'.endpointID = endpointID ∧
          r'.containerID = r.containerID)) ∨
        r'.instanceID = instanceID ∧ r'.endpointID = endpointID ∧ r'.containerID = id.containerID) ∧
      ((rs.map Resource.place).Nodup → (rs'.map Resource.place).Nodup) := by
  unfold rebind at h
  simp only at h
  split at h
  · cases h
  next r hr =>
  have hp := List.find?_some hr
  simp only [Bool.and_eq_true, decide_eq_true_eq] at hp
  refine ⟨r, List.mem_of_find?_eq_some hr, hp.1.1, hp.1.2, hp.2, ?_, ?_⟩
  · obtain ⟨rfl, -⟩ := insertResource_ok h
    intro r' hr'
    rcases Table.mem_concat.1 hr' with hr' | hr'
    · obtain ⟨hmem, hne⟩ := List.mem_filter.1 hr'
      refine .inl ⟨hmem, ?_⟩
      rintro ⟨h₁, h₂, h₃⟩
      simp [h₁, h₂, h₃, hp.2] at hne
    · rw [hr']
      exact .inr ⟨rfl, rfl, rfl⟩
  · intro hn
    exact insertResource_distinct (hn.sublist (List.filter_sublist.map _)) h

/-- After all services are rebound, a container is an old one or one the result reports. -/
theorem foldlM_rebind {ids : List DeploymentIdentity} {rs rs' : List Resource}
    (h : ids.foldlM (rebind instanceID endpointID plan) rs = .ok rs') :
    (∀ r' ∈ rs', r' ∈ rs ∨ r'.instanceID = instanceID ∧ r'.endpointID = endpointID ∧
      ∃ id ∈ ids, r'.containerID = id.containerID) ∧
    ((rs.map Resource.place).Nodup → (rs'.map Resource.place).Nodup) := by
  induction ids generalizing rs with
  | nil =>
    obtain rfl := Except.ok.inj h
    exact ⟨fun r' hr' => .inl hr', fun hn => hn⟩
  | cons id ids ih =>
    obtain ⟨rs₁, hr, h⟩ := foldlM_cons_eq_ok.1 h
    obtain ⟨hmem, hn'⟩ := ih h
    obtain ⟨r, -, -, -, -, hmem₁, hn₁⟩ := rebind_ok hr
    refine ⟨?_, fun hn => hn' (hn₁ hn)⟩
    intro r' hr'
    rcases hmem r' hr' with hr' | ⟨hi, he, x, hx, hc⟩
    · rcases hmem₁ r' hr' with ⟨hr', -⟩ | ⟨hi, he, hc⟩
      · exact .inl hr'
      · exact .inr ⟨hi, he, id, List.mem_cons_self, hc⟩
    · exact .inr ⟨hi, he, x, List.mem_cons_of_mem _ hx, hc⟩

/-- The first service's container is gone, unless a service reports it again. -/
theorem foldlM_rebind_gone {id : DeploymentIdentity} {ids : List DeploymentIdentity}
    {rs rs' : List Resource}
    (h : (id :: ids).foldlM (rebind instanceID endpointID plan) rs = .ok rs') :
    ∃ r ∈ rs, r.instanceID = instanceID ∧ r.endpointID = endpointID ∧
      ((∀ x ∈ id :: ids, x.containerID ≠ r.containerID) → ∀ r' ∈ rs',
        r'.instanceID = instanceID → r'.endpointID = endpointID → r'.containerID ≠ r.containerID) := by
  obtain ⟨rs₁, hr, h⟩ := foldlM_cons_eq_ok.1 h
  obtain ⟨r, hmem, hi, he, -, hold, -⟩ := rebind_ok hr
  refine ⟨r, hmem, hi, he, ?_⟩
  intro hnew r' hr' hi' he' hc
  rcases (foldlM_rebind h).1 r' hr' with hr₁ | ⟨-, -, x, hx, hcx⟩
  · rcases hold r' hr₁ with ⟨-, hne⟩ | ⟨-, -, hcx⟩
    · exact hne ⟨hi', he', hc⟩
    · exact hnew id List.mem_cons_self (hcx.symm.trans hc)
  · exact hnew x (List.mem_cons_of_mem _ hx) (hcx.symm.trans hc)

end Rebinding

section SettledTables

variable {fresh : List String} {db db' : Db}

/-- What a settled apply leaves as it was. -/
theorem Settled.around {d : Deployment} {res : DeploymentResult} {o : Outcome}
    {st : DeploymentState} {now : Int} (hk : d.kind = .apply) (h : Settled d res o st now db db') :
    Around fresh db db' := by
  have hinst : db'.instances = Table.updateWhere
      (fun i => decide (st = .succeeded) && decide (i.id = d.instanceID))
      (fun i => { i with previousRevision := i.currentRevision, currentRevision := d.revision })
      db.instances := by
    rw [h.instances, hk]
    by_cases hst : st = .succeeded
    · simp [hst, Db.promote]
    · simp [hst, Table.updateWhere]
  exact ⟨applications_same (by simpa [hk] using h.applications),
    instances_updated hinst (fun _ => ⟨rfl, rfl⟩) (fun _ _ _ hns => hns) (fun _ => le_rfl),
    plans_same h.plans, h.imageChecks_sub⟩

/-- The containers after an apply are old ones, and on Docker those it reports. -/
theorem Settled.containers {d : Deployment} {res : DeploymentResult} {o : Outcome}
    {st : DeploymentState} {now : Int} (hk : d.kind = .apply) (h : Settled d res o st now db db') :
    (∀ r' ∈ db'.resources, r' ∈ db.resources ∨ d.plan.ns = "" ∧ r'.instanceID = d.instanceID ∧
      r'.endpointID = d.endpointID ∧ ∃ id ∈ res.services, r'.containerID = id.containerID) ∧
    (d.plan.ns = "" → res.services ≠ [] → ∃ r ∈ db.resources, r.instanceID = d.instanceID ∧
      r.endpointID = d.endpointID) ∧
    ((db.resources.map Resource.place).Nodup → (db'.resources.map Resource.place).Nodup) := by
  obtain ⟨rs, hrs, hresources⟩ := h.resources
  rw [if_neg (by simp [hk])] at hresources
  rw [hresources]
  by_cases hns : d.plan.ns = ""
  · obtain ⟨-, hfold⟩ := hrs.docker hk hns
    obtain ⟨hmem, hn⟩ := foldlM_rebind hfold
    refine ⟨fun r' hr' => (hmem r' hr').imp_right fun h => ⟨hns, h⟩, fun _ hne => ?_, hn⟩
    obtain ⟨id, ids, hids⟩ := List.exists_cons_of_ne_nil hne
    rw [hids] at hfold
    obtain ⟨r, hr, hi, he, -⟩ := foldlM_rebind_gone hfold
    exact ⟨r, hr, hi, he⟩
  · obtain ⟨-, rfl⟩ := hrs.cluster hk hns
    exact ⟨fun r' hr' => .inl hr', fun hc => absurd hc hns, fun hn => hn⟩

end SettledTables

end KyYard.Store
