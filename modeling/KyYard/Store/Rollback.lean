import KyYard.Store.Automation
import KyYard.Store.Bindings
import KyYard.Store.History

/-!
# What a failed update may be rolled back to

`rollbackTarget` decides whether a validated deployment can be rolled back, and to what. On Docker
the target is read off the deployment's own plan, the instance and its bindings; on a cluster it is
the succeeded apply before the deployment. `rollbackTarget_ok` says what a decision to roll back has
found in the tables.
-/

namespace KyYard.Store

open Foundation Protocol

/-! ## The decision -/

/-- Why a deployment cannot be rolled back. -/
inductive RollbackReason
  | noPriorIdentity
  | priorDefinitionInvalid
  | serviceSetChanged
  | namespaceChanged
  | claimsChanged
  | priorImagesMissing
  | inFlight
  | alreadyRolledBack
deriving DecidableEq

/-- What a rollback applies again: a revision, and the image each service ran before. -/
structure Rollback where
  instanceID : String
  mappingVersion : Nat
  project : String
  revision : Nat
  images : Dict String
deriving DecidableEq

/-- The spec of a revision that exists, matches its digest and is still valid. -/
def Db.revisionValid (db : Db) (app : String) (revision : Nat) : Option ApplicationSpec :=
  ((db.revision? app revision).filter fun r => r.intact && validateApplicationSpec r.spec).map
    Revision.spec

/-- The container each service of an instance is bound to. -/
def Db.boundServices (db : Db) (instanceID : String) : Dict String :=
  .ofList ((db.resources.filter fun r => r.instanceID = instanceID && r.serviceName ≠ "").map
    fun r => (r.serviceName, r.containerID))

/-- Another rollback of the instance is under way. -/
def Db.rollbackInFlight (db : Db) (instanceID deployment : String) : Bool :=
  db.validations.any fun v => v.instanceID = instanceID && v.deploymentID ≠ deployment &&
    ((v.isRollback && v.phase ≠ .done) ||
      db.deployments.any fun r => v.rollbackDeploymentID = some r.id && r.state.live)

/-- The revision a Docker deployment replaced; none before is the adopted one. -/
def Instance.replacedRevision (i : Instance) : Nat :=
  if i.previousRevision = 0 then i.revision else i.previousRevision

/-- The services of the prior spec, of the plan, of the result and of the bindings are the same, and
each is bound to the container the deployment created. -/
def sameServices (spec : ApplicationSpec) (images bound created : Dict String) : Bool :=
  spec.services.length = images.size && bound.size = images.size && created.size = images.size &&
    spec.services.all fun s => images.contains s.name && (created.get? s.name).getD "" ≠ "" &&
      (bound.get? s.name).getD "" = (created.get? s.name).getD ""

/-- The decision on a Docker host. -/
def dockerRollback (onHost : String → Bool) (d : Deployment) (i : Instance)
    (result : StoredDeploymentResult) (db : Db) : Except StoreError (Except RollbackReason Rollback) :=
  if d.plan.services = [] then .ok (.error .noPriorIdentity)
  else if i.replacedRevision < 1 then .error .invalid
  else
    let images := Dict.ofList (d.plan.services.map fun s => (s.name, s.replaces.imageID))
    match db.revisionValid d.applicationID i.replacedRevision with
    | none => .ok (.error .priorDefinitionInvalid)
    | some spec =>
      let created := Dict.ofList (result.services.map fun id => (id.service, id.containerID))
      if sameServices spec images (db.boundServices i.id) created = false then
        .ok (.error .serviceSetChanged)
      else if d.plan.services.any fun s => s.replaces.imageID = "" then
        .ok (.error .noPriorIdentity)
      else if images.entries.any fun e => !onHost e.2 then .ok (.error .priorImagesMissing)
      else .ok (.ok ⟨i.id, i.mappingVersion, i.project, i.replacedRevision, images⟩)

/-- An apply of the instance that was created later left `planned`. -/
def Db.laterSent (db : Db) (d : Deployment) : Bool :=
  db.deployments.any fun n => n.instanceID = d.instanceID && n.kind = .apply &&
    d.createdAt < n.createdAt && n.state ≠ .planned

/-- The claim mounts of a plan's service; of two with one name, the last one's. -/
def DeploymentPlan.mounts? (plan : DeploymentPlan) (name : String) : Option (List KubernetesMount) :=
  (plan.service? name).map PlannedService.claimMounts

/-- The reference names its digest. -/
def PlannedService.pinned (s : PlannedService) : Bool :=
  s.pullDigest ≠ "" && Text.hasSuffix s.pullReference ("@" ++ s.pullDigest)

/-- The decision on a cluster. -/
def clusterRollback (d : Deployment) (i : Instance) (db : Db) : Except RollbackReason Rollback :=
  if db.laterSent d then .error .serviceSetChanged
  else
    match db.succeededApplies i.id with
    | [] => .error .serviceSetChanged
    | [latest] => if latest.id ≠ d.id then .error .serviceSetChanged else .error .noPriorIdentity
    | latest :: prior :: _ =>
      if latest.id ≠ d.id then .error .serviceSetChanged
      else if prior.plan.ns ≠ d.plan.ns then .error .namespaceChanged
      else if prior.plan.services.length ≠ d.plan.services.length ∨
          prior.plan.services.any (fun s => (d.plan.mounts? s.name).isNone) then
        .error .serviceSetChanged
      else if prior.plan.claims ≠ d.plan.claims ∨
          prior.plan.services.any (fun s => s.claimMounts ≠ (d.plan.mounts? s.name).getD []) then
        .error .claimsChanged
      else if prior.plan.services.any (fun s => !s.pinned) then .error .noPriorIdentity
      else if (db.revisionValid d.applicationID prior.revision).isNone then
        .error .priorDefinitionInvalid
      else
        .ok ⟨i.id, i.mappingVersion, i.project, prior.revision,
          .ofList (prior.plan.services.map fun s => (s.name, s.pullReference))⟩

/-- The decision about a deployment with a validation that is no rollback's; `onHost` are the images
an endpoint's inventory shows. -/
def rollbackTarget (onHost : String → String → Bool) (app deployment : String) (db : Db) :
    Except StoreError (Except RollbackReason Rollback) :=
  match (db.deployment? deployment).filter (·.applicationID = app),
      (db.validation? deployment).filter (!·.isRollback) with
  | some d, some v =>
    match db.instance? d.instanceID with
    | none => .error .notFound
    | some i =>
      if v.rollbackDeploymentID.getD "" ≠ "" then .ok (.error .alreadyRolledBack)
      else if db.rollbackInFlight d.instanceID deployment then .ok (.error .inFlight)
      else
        match d.result with
        | none => .error .revisionCorrupt
        | some result =>
          if d.plan.ns ≠ "" then .ok (clusterRollback d i db)
          else dockerRollback (onHost d.endpointID) d i result db
  | _, _ => .error .notFound

/-! ## What a decision has found -/

/-- The services of an instance are bound to one container each. -/
def Db.BoundOnce (db : Db) : Prop :=
  ∀ r ∈ db.resources, ∀ r' ∈ db.resources, r.instanceID = r'.instanceID → r.serviceName ≠ "" →
    r.serviceName = r'.serviceName → r = r'

section Inversion

variable {onHost : String → Bool} {d : Deployment} {i : Instance} {result : StoredDeploymentResult}
  {db : Db} {t : Rollback}

theorem mem_boundServices {instanceID service container : String}
    (h : (db.boundServices instanceID).get? service = some container) :
    ∃ r ∈ db.resources, r.instanceID = instanceID ∧ r.serviceName = service ∧ service ≠ "" ∧
      r.containerID = container := by
  obtain ⟨r, hr, heq⟩ := List.mem_map.1 (Dict.mem_of_get?_ofList h)
  obtain ⟨rfl, rfl⟩ := Prod.mk.inj heq
  obtain ⟨hr, hp⟩ := List.mem_filter.1 hr
  simp only [Bool.and_eq_true, decide_eq_true_eq] at hp
  exact ⟨r, hr, hp.1, rfl, hp.2, rfl⟩

theorem boundServices_of_mem (hone : db.BoundOnce) {r : Resource} (hr : r ∈ db.resources)
    (hservice : r.serviceName ≠ "") :
    (db.boundServices r.instanceID).get? r.serviceName = some r.containerID := by
  have hmem : r ∈ db.resources.filter fun x => x.instanceID = r.instanceID && x.serviceName ≠ "" :=
    List.mem_filter.2 ⟨hr, by simp [hservice]⟩
  have hkey := Dict.contains_ofList
    (List.mem_map_of_mem (f := fun x : Resource => (x.serviceName, x.containerID)) hmem)
  obtain ⟨container, hc⟩ := Option.isSome_iff_exists.1 hkey
  obtain ⟨r', hr', hi, hs, -, rfl⟩ := mem_boundServices hc
  rw [hone r hr r' hr' hi.symm hservice hs.symm] at hc ⊢
  exact hc

variable {spec : ApplicationSpec}

theorem revisionValid_eq_some {app : String} {n : Nat}
    (h : db.revisionValid app n = some spec) : validateApplicationSpec spec = true := by
  obtain ⟨r, hr, rfl⟩ := Option.map_eq_some_iff.1 h
  have hp := (Option.filter_eq_some_iff.1 hr).2
  exact (Bool.and_eq_true_iff.1 hp).2

/-- Each service of the spec is bound to the container that was created for it. -/
theorem created_of_mem {images bound created : Dict String}
    (h : sameServices spec images bound created = true) {name : String}
    (hname : name ∈ spec.serviceNames) :
    ∃ container, bound.get? name = some container ∧ created.get? name = some container := by
  simp only [sameServices, Bool.and_eq_true, decide_eq_true_eq, List.all_eq_true] at h
  obtain ⟨s, hs, rfl⟩ := List.mem_map.1 hname
  obtain ⟨⟨-, hcreated⟩, heq⟩ := h.2 s hs
  cases hc : created.get? s.name with
  | none => simp [hc] at hcreated
  | some =>
    cases hb : bound.get? s.name with
    | none =>
      rw [hb] at heq
      exact absurd heq.symm hcreated
    | some container' =>
      rw [hb, hc] at heq
      exact ⟨container', rfl, congrArg Option.some heq.symm⟩

/-- A table of as many names as the spec has services, with each of them, has no other. -/
theorem mem_spec_of_keys (hnames : spec.serviceNames.Nodup) {t : Dict String}
    (hsize : t.size = spec.services.length) (hsub : spec.serviceNames ⊆ t.keys) {name : String}
    (hname : name ∈ t.keys) : name ∈ spec.serviceNames := by
  have hperm := (hnames.subperm hsub).perm_of_length_le (by
    simp only [Dict.keys, ApplicationSpec.serviceNames, List.length_map]
    exact hsize.le)
  exact hperm.mem_iff.2 hname

/-- The bound services and the planned ones are those of the spec. -/
theorem mem_spec_of_sameServices {images bound created : Dict String}
    (hnames : spec.serviceNames.Nodup) (h : sameServices spec images bound created = true) :
    (∀ name ∈ bound.keys, name ∈ spec.serviceNames) ∧
      ∀ name ∈ images.keys, name ∈ spec.serviceNames := by
  have hbound : spec.serviceNames ⊆ bound.keys := by
    intro n hn
    obtain ⟨container, hbound, -⟩ := created_of_mem h hn
    rw [← Dict.contains_iff, Dict.contains, hbound]
    rfl
  simp only [sameServices, Bool.and_eq_true, decide_eq_true_eq, List.all_eq_true] at h
  obtain ⟨⟨⟨hspec, hsize⟩, -⟩, hall⟩ := h
  have himages : spec.serviceNames ⊆ images.keys := by
    intro n hn
    obtain ⟨s, hs, rfl⟩ := List.mem_map.1 hn
    exact Dict.contains_iff.1 (hall s hs).1.1
  exact ⟨fun _ hn => mem_spec_of_keys hnames (hsize.trans hspec.symm) hbound hn,
    fun _ hn => mem_spec_of_keys hnames hspec.symm himages hn⟩

/-- A Docker rollback returns to the revision and the images the deployment replaced, and the planned
services are the bound ones, each bound to the container the deployment created. -/
structure DockerTarget (d : Deployment) (i : Instance) (result : StoredDeploymentResult) (db : Db)
    (t : Rollback) : Prop where
  revision : t.revision = i.replacedRevision
  images : ∀ s ∈ d.plan.services, t.images.contains s.name = true
  replaced : ∀ name image, t.images.get? name = some image →
    ∃ s ∈ d.plan.services, s.name = name ∧ s.replaces.imageID = image
  bound : ∀ r ∈ db.resources, r.instanceID = i.id → r.serviceName ≠ "" →
    ∃ id ∈ result.services, id.service = r.serviceName ∧ id.containerID = r.containerID
  planned : d.plan.services ≠ []
  services : ∀ s ∈ d.plan.services, ∃ r ∈ db.resources, r.instanceID = i.id ∧
    r.serviceName = s.name ∧ r.serviceName ≠ ""

theorem dockerRollback_ok (hone : db.BoundOnce)
    (h : dockerRollback onHost d i result db = .ok (.ok t)) : DockerTarget d i result db t := by
  unfold dockerRollback at h
  simp only at h
  split at h
  · cases h
  next hplan =>
  obtain ⟨-, h⟩ := guard_error_eq_ok.1 h
  split at h
  · cases h
  next spec hspec =>
  have hvalid := revisionValid_eq_some hspec
  split at h
  · cases h
  next hsame =>
  rw [Bool.not_eq_false] at hsame
  split at h
  · cases h
  split at h
  · cases h
  cases h
  have hnames := (wellFormed_of_validateApplicationSpec hvalid).serviceNames_nodup
  obtain ⟨hofBound, hofPlan⟩ := mem_spec_of_sameServices hnames hsame
  refine ⟨rfl, ?_, ?_, ?_, hplan, ?_⟩
  · intro s hs
    exact Dict.contains_ofList (List.mem_map_of_mem hs)
  · intro name image himage
    obtain ⟨s, hs, heq⟩ := List.mem_map.1 (Dict.mem_of_get?_ofList himage)
    exact ⟨s, hs, congrArg Prod.fst heq, congrArg Prod.snd heq⟩
  · intro r hr hi hservice
    have hbound := boundServices_of_mem hone hr hservice
    rw [hi] at hbound
    have hkey : r.serviceName ∈ (db.boundServices i.id).keys := by
      rw [← Dict.contains_iff, Dict.contains, hbound]
      rfl
    obtain ⟨container, hb, hcreated⟩ := created_of_mem hsame (hofBound _ hkey)
    rw [hbound, Option.some.injEq] at hb
    obtain ⟨id, hid, heq⟩ := List.mem_map.1 (Dict.mem_of_get?_ofList hcreated)
    exact ⟨id, hid, congrArg Prod.fst heq, (congrArg Prod.snd heq).trans hb.symm⟩
  · intro s hs
    have hkey := Dict.contains_iff.1 (Dict.contains_ofList
      (List.mem_map_of_mem (f := fun s : PlannedService => (s.name, s.replaces.imageID)) hs))
    obtain ⟨container, hb, -⟩ := created_of_mem hsame (hofPlan _ hkey)
    obtain ⟨r, hr, hi, hservice, hne, -⟩ := mem_boundServices hb
    exact ⟨r, hr, hi, hservice, hservice ▸ hne⟩

/-- A cluster rollback returns to the second of the instance's latest succeeded applies, the first
being the deployment, and no later apply was sent. -/
structure ClusterTarget (d : Deployment) (i : Instance) (db : Db) (p : Deployment) (t : Rollback) :
    Prop where
  later : db.laterSent d = false
  latest : ∃ latest rest, db.succeededApplies i.id = latest :: p :: rest ∧ latest.id = d.id
  revision : t.revision = p.revision
  images : ∀ s ∈ p.plan.services, t.images.contains s.name = true
  pulled : ∀ name image, t.images.get? name = some image →
    ∃ s ∈ p.plan.services, s.name = name ∧ s.pullReference = image ∧ s.pinned = true

theorem clusterRollback_ok (h : clusterRollback d i db = .ok t) :
    ∃ p, ClusterTarget d i db p t := by
  unfold clusterRollback at h
  rw [guard_error_eq_ok] at h
  obtain ⟨hlater, h⟩ := h
  split at h
  · cases h
  · split at h <;> cases h
  · next latest prior rest hlist =>
    simp only [guard_error_eq_ok, Except.ok.injEq] at h
    obtain ⟨hid, -, -, -, hpinned, -, rfl⟩ := h
    refine ⟨prior, by simpa using hlater, ⟨latest, rest, hlist, by simpa using hid⟩, rfl, ?_, ?_⟩
    · intro s hs
      exact Dict.contains_ofList (List.mem_map_of_mem hs)
    · intro name image himage
      obtain ⟨s, hs, heq⟩ := List.mem_map.1 (Dict.mem_of_get?_ofList himage)
      refine ⟨s, hs, congrArg Prod.fst heq, congrArg Prod.snd heq, ?_⟩
      simp only [List.any_eq_true, Bool.not_eq_true', not_exists, not_and,
        Bool.not_eq_false] at hpinned
      exact hpinned s hs

/-- What a decision to roll back has found. -/
theorem rollbackTarget_ok {onHosts : String → String → Bool} {app deployment : String}
    (hone : db.BoundOnce) (h : rollbackTarget onHosts app deployment db = .ok (.ok t)) :
    ∃ d v i result, db.deployment? deployment = some d ∧ db.validation? deployment = some v ∧
      db.instance? d.instanceID = some i ∧ d.result = some result ∧
      (d.plan.ns = "" → DockerTarget d i result db t) ∧
      (d.plan.ns ≠ "" → ∃ p, ClusterTarget d i db p t) := by
  unfold rollbackTarget at h
  split at h
  · next d v hd hv =>
    split at h
    · cases h
    next i hi =>
    split at h
    · cases h
    split at h
    · cases h
    split at h
    · cases h
    next result hresult =>
    refine ⟨d, v, i, result, (Option.filter_eq_some_iff.1 hd).1, (Option.filter_eq_some_iff.1 hv).1,
      hi, hresult, ?_, ?_⟩
    · intro hns
      rw [if_neg (by simpa using hns)] at h
      exact dockerRollback_ok hone h
    · intro hns
      rw [if_pos hns, Except.ok.injEq] at h
      exact clusterRollback_ok h
  · cases h

end Inversion

end KyYard.Store
