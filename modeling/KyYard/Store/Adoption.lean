import KyYard.Foundation.Machine
import KyYard.Store.Schema

/-!
# Applications, adoption and mapping

The transactions that create an application and its revisions, adopt running containers for it, map
its services and release it again. Each takes what it reads beside the tables as an argument: the
endpoint's row and inventory are not written here.

The lemmas `..._ok` say what each transaction checked and wrote when it committed.
-/

namespace KyYard.Store

open Foundation Protocol

def maxApplicationsPerOrganization : Nat := 100
def maxApplicationRevisions : Nat := 100
def maxContainers : Nat := 1000

/-! ## Applications and revisions -/

/-- `CreateApplication`, with its first revision. -/
def createApplication (id name : String) (spec : ApplicationSpec) (db : Db) :
    Except StoreError Db :=
  if !validTenantName (Text.trimSpace name) || !validateApplicationSpec spec then .error .invalid
  else if maxApplicationsPerOrganization ≤ db.applications.length then .error .applicationLimit
  else if db.applications.any fun a => a.id = id || a.name = Text.trimSpace name then
    .error .alreadyExists
  else
    .ok { db with
      applications := db.applications ++ [⟨id, Text.trimSpace name, 1, none⟩]
      revisions := db.revisions ++ [⟨id, 1, spec, true⟩] }

/-- What a spec without cluster choices keeps of the last one's. -/
def KubernetesExtension.carried (k : KubernetesExtension) (spec : ApplicationSpec) :
    Option KubernetesExtension :=
  let kept := (k.volumes.getD .empty).filter fun name _ => spec.declared.contains name
  let ips := k.serviceIPs.filter fun name ip =>
    ip != "" && spec.services.any fun s => s.name = name && !s.ports.isEmpty
  if kept.entries.isEmpty && ips.entries.isEmpty then none else some ⟨some kept, ips⟩

/-- The spec a revision stores: cluster choices it does not make are carried over. -/
def carriedSpec (app : String) (expected : Nat) (spec : ApplicationSpec) (db : Db) :
    Except StoreError ApplicationSpec :=
  match spec.kubernetes with
  | some _ => .ok spec
  | none =>
    match db.revision? app expected with
    | none => .error .notFound
    | some previous =>
      if previous.intact then
        .ok { spec with kubernetes := previous.spec.kubernetes.bind (·.carried spec) }
      else .error .revisionCorrupt

/-- A new revision after the expected one. -/
def appendApplicationRevision (app : String) (expected : Nat) (spec : ApplicationSpec) (db : Db) :
    Except StoreError Db :=
  if expected < 1 ∨ maxApplicationRevisions < expected ∨ validateApplicationSpec spec = false then
    .error .invalid
  else
    match db.application? app with
    | none => .error .notFound
    | some a =>
      if maxApplicationRevisions ≤ a.latestRevision then .error .applicationLimit
      else if a.latestRevision ≠ expected then .error .revisionConflict
      else
        match carriedSpec app expected spec db with
        | .error e => .error e
        | .ok spec =>
          if validateApplicationSpec spec = false then .error .invalid
          else
            .ok { db with
              applications := Table.updateWhere (fun a => a.id = app)
                (fun a => { a with latestRevision := a.latestRevision + 1 }) db.applications
              revisions := db.revisions ++ [⟨app, expected + 1, spec, true⟩] }

/-- Only an application that is not adopted can be discarded. -/
def discardApplication (app : String) (expected : Nat) (db : Db) : Except StoreError Db :=
  if expected < 1 ∨ maxApplicationRevisions < expected then .error .invalid
  else
    match db.application? app with
    | none => .error .notFound
    | some a =>
      if a.latestRevision ≠ expected then .error .revisionConflict
      else if (db.instanceOf? app).isSome then .error .applicationAdopted
      else .ok (db.deleteApplication app)

/-! ## Adoption -/

/-- The row of an endpoint, as a transaction reads it. -/
structure EndpointView where
  active : Bool
  runtime : Runtime
  deployNamespaces : List String

/-- A container of the preview. -/
structure AdoptedContainer where
  id : String
  name : String
  imageID : String
  createdUnix : Int
deriving DecidableEq

/-- The containers of a project on an endpoint, from an inventory that is complete and fresh, and
the digest of the whole. -/
structure AdoptionPreview where
  containers : List AdoptedContainer
  digest : String

/-- What an adoption confirms. -/
structure AdoptionRequest where
  endpointID : String
  project : String
  digest : String
  confirm : String

/-- One instance per application and place. -/
def Db.insertInstance (i : Instance) (db : Db) : Except StoreError Db :=
  if db.instances.any fun j => j.id = i.id || j.applicationID = i.applicationID ||
      (j.endpointID = i.endpointID && j.project = i.project) then .error .alreadyExists
  else .ok { db with instances := db.instances ++ [i] }

/-- The two unique indexes on containers: an endpoint's container belongs to one instance, and an
instance's service to one container. -/
def Resource.clashes (r s : Resource) : Bool :=
  (r.endpointID = s.endpointID && r.containerID = s.containerID) ||
    (r.serviceName ≠ "" && r.instanceID = s.instanceID && r.serviceName = s.serviceName)

/-- A row that clashes with none. -/
def insertResource (rs : List Resource) (r : Resource) : Except StoreError (List Resource) :=
  if rs.any r.clashes then .error .alreadyExists else .ok (rs ++ [r])

/-- An application that is managed again awaits no retention. -/
def Db.revive (app : String) (db : Db) : Db :=
  { db with
    applications := Table.updateWhere (fun a => a.id = app) (fun a => { a with removedAt := none })
      db.applications }

def AdoptedContainer.resource (c : AdoptedContainer) (i : Instance) : Resource :=
  ⟨i.id, i.endpointID, c.id, c.name, c.imageID, c.createdUnix, ""⟩

/-- `AdoptApplication`. -/
def adoptApplication (app instanceID : String) (r : AdoptionRequest) (p : AdoptionPreview)
    (db : Db) : Except StoreError Db :=
  match db.application? app with
  | none => .error .notFound
  | some a =>
    if p.containers = [] ∨ ¬ (p.containers.map (·.id)).Nodup ∨
        maxContainers < p.containers.length ∨ r.digest ≠ p.digest ∨ r.confirm ≠ r.project then
      .error .adoptionChanged
    else if maxContainers <
        db.resources.countP (·.endpointID = r.endpointID) + p.containers.length then
      .error .applicationLimit
    else
      let i : Instance :=
        ⟨instanceID, app, r.endpointID, r.project, "", a.latestRevision, 0, 0, 0, 0⟩
      match db.insertInstance i, (p.containers.map (·.resource i)).foldlM insertResource
          db.resources with
      | .ok db, .ok rs => .ok { db.revive app with resources := rs }
      | .error e, _ => .error e
      | _, .error e => .error e

/-! ## Mapping -/

/-- The project of a cluster instance, from its application's name. Lower-casing takes two letters
outside ASCII into it. -/
def kubernetesProject (name : String) : String :=
  let lower (c : Char) : Char :=
    if 'A' ≤ c && c ≤ 'Z' then Char.ofNat (c.toNat + 32)
    else if c.toNat = 0x212a then 'k' else if c.toNat = 0x130 then 'i' else c
  let add (b : List Char) (c : Char) : List Char :=
    if Class.lower c || Class.digit c then b ++ [c]
    else if b ≠ [] && b.getLast? ≠ some '-' then b ++ ['-'] else b
  let out := Text.trim (· == '-') ((name.toList.map lower).foldl add [])
  let out := if maxKubeObjectName < out.length then
      (out.take maxKubeObjectName).rdropWhile (· == '-') else out
  if out = [] then "app" else String.ofList out

/-- The container each service stands for. -/
structure MappingRequest where
  instanceID : String
  version : Nat
  digest : String
  confirm : String
  bindings : Dict String

/-- A row of the instance is running. -/
def Db.applying (db : Db) (instanceID : String) : Bool :=
  db.deployments.any fun d => d.instanceID = instanceID && d.state = .applying

/-- The instance on a cluster endpoint is created, or moved to another namespace while nothing was
sent to the one it leaves. -/
def mapKubernetes (app instanceID endpointID ns : String) (ep : EndpointView) (db : Db) :
    Except StoreError Db :=
  match db.application? app with
  | none => .error .notFound
  | some a =>
    if ep.runtime ≠ .kubernetes then .error .runtimeUnsupported
    else if ns ∉ ep.deployNamespaces then .error .namespaceUnknown
    else
      match db.instanceOf? app with
      | none =>
        match db.insertInstance ⟨instanceID, app, endpointID, kubernetesProject a.name, ns,
            a.latestRevision, 0, 0, 1, a.latestRevision⟩ with
        | .error e => .error e
        | .ok db => .ok (db.revive app)
      | some i =>
        let sent := db.deployments.any fun d => d.instanceID = i.id && d.state ≠ .planned
        if i.endpointID ≠ endpointID ∨ i.ns = "" ∨ (i.ns ≠ ns ∧ sent = true) then
          .error .applicationAdopted
        else if db.applying i.id then .error .deploymentInProgress
        else
          .ok (({ db with
            instances := Table.updateWhere (fun j => j.id = i.id)
              (fun j => { j with
                ns := ns, mappingVersion := j.mappingVersion + 1
                mappedRevision := a.latestRevision })
              db.instances } : Db).revive app)

/-- The container a service is bound to by a request. -/
def MappingRequest.serviceOf (r : MappingRequest) (container : String) : String :=
  ((r.bindings.entries.find? fun e => e.2 = container).map Prod.fst).getD ""

/-- The inventory must still show every container of the instance as it was adopted (`unchanged`),
under the digest the request names. -/
def setApplicationMapping (app : String) (r : MappingRequest) (runtime : Runtime)
    (unchanged : Bool) (digest : String) (db : Db) : Except StoreError Db :=
  if 1000000000 ≤ r.version ∨ 100 < r.bindings.size then .error .invalid else
  match db.application? app, db.instanceOf? app with
  | some a, some i =>
    let owned := db.resources.filter fun c => c.instanceID = i.id && c.endpointID = i.endpointID
    if runtime ≠ .docker ∨ i.ns ≠ "" then .error .runtimeUnsupported
    else if unchanged = false ∨ owned = [] then .error .adoptionChanged
    else
      match db.revision? app a.latestRevision with
      | none => .error .notFound
      | some rev =>
        if rev.intact = false then .error .revisionCorrupt
        else if r.instanceID ≠ i.id ∨ r.version ≠ i.mappingVersion ∨ r.digest ≠ digest ∨
            r.confirm ≠ i.project then .error .adoptionChanged
        else if db.applying i.id then .error .deploymentInProgress
        else if ¬ (r.bindings.entries.map Prod.snd).Nodup ∨ r.bindings.entries.any fun e =>
            !rev.spec.serviceNames.contains e.1 || !owned.any fun c => c.containerID = e.2 then
          .error .invalid
        else
          .ok { db with
            instances := Table.updateWhere (fun j => j.id = i.id)
              (fun j => { j with
                mappingVersion := j.mappingVersion + 1, mappedRevision := a.latestRevision })
              db.instances
            resources := Table.updateWhere (fun c => c.instanceID = i.id)
              (fun c => { c with
                serviceName := if c.endpointID = i.endpointID then r.serviceOf c.containerID
                  else "" })
              db.resources }
  | _, _ => .error .notFound

/-! ## Release -/

/-- `ReleaseApplication`: the containers stay. -/
def releaseApplication (app id confirm : String) (now : Int) (db : Db) : Except StoreError Db :=
  match db.application? app with
  | none => .error .notFound
  | some _ =>
    let live := db.deployments.filter fun d =>
      d.applicationID = app && d.instanceID = id && d.state.live
    if live.any fun d => d.state = .applying then .error .deploymentInProgress
    else if live.any fun d => now < d.expiresAt then .error .deploymentPlanned
    else if db.instances.all fun i => !(i.applicationID = app && i.id = id && i.project = confirm)
    then .error .adoptionChanged
    else
      .ok ((db.deleteDeployments fun d =>
        d.applicationID = app && d.instanceID = id && d.state = .planned).deleteInstance id)

/-! ## What committed transactions did -/

section Inversion

variable {db db' : Db} {app : String}

theorem createApplication_ok {id name : String} {spec : ApplicationSpec}
    (h : createApplication id name spec db = .ok db') :
    db' = { db with
      applications := db.applications ++ [⟨id, Text.trimSpace name, 1, none⟩]
      revisions := db.revisions ++ [⟨id, 1, spec, true⟩] } := by
  simp only [createApplication, guard_error_eq_ok, Except.ok.injEq] at h
  exact h.2.2.2.symm

theorem appendApplicationRevision_ok {expected : Nat} {spec : ApplicationSpec}
    (h : appendApplicationRevision app expected spec db = .ok db') :
    ∃ spec', db' = { db with
      applications := Table.updateWhere (fun a => a.id = app)
        (fun a => { a with latestRevision := a.latestRevision + 1 }) db.applications
      revisions := db.revisions ++ [⟨app, expected + 1, spec', true⟩] } := by
  simp only [appendApplicationRevision, guard_error_eq_ok] at h
  obtain ⟨-, h⟩ := h
  split at h
  · cases h
  simp only [guard_error_eq_ok] at h
  obtain ⟨-, -, h⟩ := h
  split at h
  · cases h
  next spec' _ =>
  simp only [guard_error_eq_ok, Except.ok.injEq] at h
  exact ⟨spec', h.2.symm⟩

theorem discardApplication_ok {expected : Nat} (h : discardApplication app expected db = .ok db') :
    db.instanceOf? app = none ∧ db' = db.deleteApplication app := by
  simp only [discardApplication, guard_error_eq_ok] at h
  obtain ⟨-, h⟩ := h
  split at h
  · cases h
  simp only [guard_error_eq_ok, Option.not_isSome_iff_eq_none, Except.ok.injEq] at h
  exact ⟨h.2.1, h.2.2.symm⟩

theorem insertInstance_ok {i : Instance} (h : db.insertInstance i = .ok db') :
    (∀ j ∈ db.instances, j.id ≠ i.id ∧ j.applicationID ≠ i.applicationID) ∧
      db' = { db with instances := db.instances ++ [i] } := by
  simp only [Db.insertInstance, guard_error_eq_ok, Except.ok.injEq, List.any_eq_true,
    Bool.or_eq_true, decide_eq_true_eq, not_exists, not_and, not_or] at h
  exact ⟨fun j hj => (h.1 j hj).1, h.2.symm⟩

/-- A new instance has deployed nothing and names the revision that was the latest. -/
def Instance.New (i : Instance) (id app : String) : Prop :=
  i.id = id ∧ i.applicationID = app ∧ i.currentRevision = 0 ∧ i.previousRevision = 0

theorem adoptApplication_ok {instanceID : String} {r : AdoptionRequest} {p : AdoptionPreview}
    (h : adoptApplication app instanceID r p db = .ok db') :
    ∃ i rs, i.New instanceID app ∧ i.ns = "" ∧
      (∀ j ∈ db.instances, j.id ≠ i.id ∧ j.applicationID ≠ i.applicationID) ∧
      (p.containers.map (·.resource i)).foldlM insertResource db.resources = .ok rs ∧
      db' = { ({ db with instances := db.instances ++ [i] } : Db).revive app with
        resources := rs } := by
  unfold adoptApplication at h
  split at h
  · cases h
  simp only [guard_error_eq_ok] at h
  obtain ⟨-, -, h⟩ := h
  split at h
  · next db₁ rs hi hrs =>
    obtain ⟨hfree, rfl⟩ := insertInstance_ok hi
    refine ⟨_, rs, ⟨rfl, rfl, rfl, rfl⟩, rfl, hfree, hrs, ?_⟩
    exact (Except.ok.inj h).symm
  · cases h
  · cases h

theorem mapKubernetes_ok {instanceID endpointID ns : String} {ep : EndpointView}
    (h : mapKubernetes app instanceID endpointID ns ep db = .ok db') :
    (∃ i, i.New instanceID app ∧ i.ns = ns ∧
        (∀ j ∈ db.instances, j.id ≠ i.id ∧ j.applicationID ≠ i.applicationID) ∧
        db' = ({ db with instances := db.instances ++ [i] } : Db).revive app) ∨
      ∃ a i, db.application? app = some a ∧ db.instanceOf? app = some i ∧ i.ns ≠ "" ∧
        (i.ns = ns ∨ ∀ d ∈ db.deployments, d.instanceID = i.id → d.state = .planned) ∧
        db.applying i.id = false ∧
        db' = ({ db with
          instances := Table.updateWhere (fun j => j.id = i.id)
            (fun j => { j with
              ns := ns, mappingVersion := j.mappingVersion + 1
              mappedRevision := a.latestRevision })
            db.instances } : Db).revive app := by
  unfold mapKubernetes at h
  split at h
  · cases h
  next a ha =>
  simp only [guard_error_eq_ok] at h
  obtain ⟨-, -, h⟩ := h
  split at h
  · split at h
    · cases h
    next hi =>
    obtain ⟨hfree, rfl⟩ := insertInstance_ok hi
    exact .inl ⟨_, ⟨rfl, rfl, rfl, rfl⟩, rfl, hfree, (Except.ok.inj h).symm⟩
  · next i hi =>
    simp only [guard_error_eq_ok, Except.ok.injEq, not_or, not_and, Bool.not_eq_true,
      List.any_eq_false, Bool.and_eq_true, decide_eq_true_eq, not_not] at h
    obtain ⟨⟨-, hns, hsent⟩, happlying, rfl⟩ := h
    refine .inr ⟨a, i, ha, hi, hns, ?_, happlying, rfl⟩
    by_cases hx : i.ns = ns
    · exact .inl hx
    · exact .inr fun d hd hid => hsent hx d hd hid

theorem setApplicationMapping_ok {r : MappingRequest} {runtime : Runtime} {unchanged : Bool}
    {digest : String} (h : setApplicationMapping app r runtime unchanged digest db = .ok db') :
    ∃ a i, db.application? app = some a ∧ db.instanceOf? app = some i ∧ i.ns = "" ∧
      db.applying i.id = false ∧ (r.bindings.entries.map Prod.snd).Nodup ∧
      db' = { db with
        instances := Table.updateWhere (fun j => j.id = i.id)
          (fun j => { j with
            mappingVersion := j.mappingVersion + 1, mappedRevision := a.latestRevision })
          db.instances
        resources := Table.updateWhere (fun c => c.instanceID = i.id)
          (fun c => { c with
            serviceName := if c.endpointID = i.endpointID then r.serviceOf c.containerID
              else "" })
          db.resources } := by
  unfold setApplicationMapping at h
  simp only [guard_error_eq_ok] at h
  obtain ⟨-, h⟩ := h
  split at h
  · next a i ha hi =>
    simp only [guard_error_eq_ok] at h
    obtain ⟨hr, -, h⟩ := h
    split at h
    · cases h
    simp only [guard_error_eq_ok, Except.ok.injEq, not_or, not_not, Bool.not_eq_true] at h hr
    obtain ⟨-, -, happlying, ⟨hnodup, -⟩, rfl⟩ := h
    exact ⟨a, i, ha, hi, hr.2, happlying, hnodup, rfl⟩
  · cases h

theorem releaseApplication_ok {id confirm : String} {now : Int}
    (h : releaseApplication app id confirm now db = .ok db') :
    (∃ i ∈ db.instances, i.applicationID = app ∧ i.id = id) ∧
      (∀ d ∈ db.deployments, d.applicationID = app → d.instanceID = id → d.state ≠ .applying) ∧
      db' = (db.deleteDeployments fun d =>
        d.applicationID = app && d.instanceID = id && d.state = .planned).deleteInstance id := by
  unfold releaseApplication at h
  split at h
  · cases h
  simp only [guard_error_eq_ok, Except.ok.injEq, List.any_eq_true, List.mem_filter,
    Bool.and_eq_true, decide_eq_true_eq, not_exists, not_and, List.all_eq_true, Bool.not_eq_true',
    Bool.and_eq_false_imp, not_forall] at h
  obtain ⟨hnone, -, ⟨i, hi, ⟨happ, hid⟩, -⟩, rfl⟩ := h
  refine ⟨⟨i, hi, happ, hid⟩, ?_, rfl⟩
  intro d hd hda hdi hs
  exact hnone d ⟨hd, ⟨hda, hdi⟩, by simp [hs, DeploymentState.live]⟩ hs

end Inversion

end KyYard.Store
