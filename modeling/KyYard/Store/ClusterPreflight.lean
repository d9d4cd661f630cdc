import KyYard.Store.ClusterClaims

/-!
# Preflight of a cluster application

`buildKubernetesPreflight` decides whether a plan may be minted for a spec on a cluster: the
namespace is granted, and each service is stateless or mounts chosen volumes of its own, is
expressible, and keeps the object names it was applied under.

The guard on names covers the services only. `volume_keeps_claim_iff` says when an executable plan
mounts a volume from the claim the last applied revision mounted it from, and `volume_moves` is a
plan that moves it: another volume is declared whose slug is the same.
-/

namespace KyYard.Store

open Foundation Protocol

/-! ## Data -/

/-- What blocks a plan, or one service of it. -/
inductive Blocker
  | k8sNamespace
  | serviceIPInUse
  | serviceIPImmutable
  | kubernetesUnsupported
  | explicitImageReferenceRequired
  | desiredPortOverlap
deriving DecidableEq

def Blocker.text : Blocker → String
  | k8sNamespace => "k8s_namespace"
  | serviceIPInUse => "service_ip_in_use"
  | serviceIPImmutable => "service_ip_immutable"
  | kubernetesUnsupported => "kubernetes_unsupported"
  | explicitImageReferenceRequired => "explicit_image_reference_required"
  | desiredPortOverlap => "desired_port_overlap"

/-- Why a service cannot run on a cluster. -/
inductive KubernetesCode
  | volume
  | volumeShared
  | hostIP
  | restart
  | name
  | nameTaken
  | serviceRenamed
deriving DecidableEq

def KubernetesCode.text : KubernetesCode → String
  | volume => "k8s_volume"
  | volumeShared => "k8s_volume_shared"
  | hostIP => "k8s_host_ip"
  | restart => "k8s_restart"
  | name => "k8s_name"
  | nameTaken => "k8s_name_taken"
  | serviceRenamed => "k8s_service_renamed"

/-- The kinds of workload an inventory lists. -/
inductive WorkloadKind
  | deployment
  | statefulSet
  | daemonSet
  | other (s : String)
deriving DecidableEq

/-- A workload of the inventory; `instanceID` is empty for one the product did not deploy. -/
structure Workload where
  kind : WorkloadKind
  ns : String
  name : String
  instanceID : String

/-- A Service of the inventory. -/
structure InventoryService where
  ns : String
  name : String
  clusterIP : String
  instanceID : String

/-- What an agent reported of its cluster. -/
structure KubernetesInventory where
  workloads : List Workload
  services : List InventoryService

/-- A cluster mapping of an application: its instance, namespace and the namespaces granted. -/
structure ApplicationMapping where
  instanceID : String
  version : Nat
  endpointID : String
  endpointName : String
  revision : Nat
  project : String
  ns : String
  deployNamespaces : List String

/-- One service's verdict. `choiceRequired` is the detail of `k8s_volume`: every volume behind it is
a named one that only lacks a storage choice. -/
structure PreflightService where
  name : String
  reference : String
  blockers : List Blocker
  unsupported : List KubernetesCode
  choiceRequired : Bool

/-- The answer to the operator. -/
structure DeploymentPreflight where
  instanceID : String
  endpointID : String
  endpointName : String
  revision : Nat
  mappingVersion : Nat
  executable : Bool
  blockers : List Blocker
  services : List PreflightService

/-! ## Checks of one service -/

/-- Why a service's volumes cannot become claims, and whether only a storage choice is missing. -/
def kubernetesVolumeCodes (spec : ApplicationSpec) (s : ApplicationService) :
    List KubernetesCode × Bool :=
  let named := s.volumes.filter fun v => v.kind == .named
  let bind := s.volumes.any fun v => v.kind ≠ .named
  let shared := named.any fun v => 1 < volumeUsers spec v.source
  let unchosen := named.any fun v =>
    !decide (1 < volumeUsers spec v.source) && (spec.volume v.source).isNone
  let first := if bind || maxKubernetesMounts < named.length then ([KubernetesCode.volume], false)
    else if unchosen then ([.volume], true)
    else ([], false)
  (first.1 ++ (if shared then [.volumeShared] else []), first.2)

/-- The restart policies a cluster pod has. -/
def kubernetesRestart (r : Restart) : Bool := r ∈ [.unset, .always, .unlessStopped]

section Preflight

variable (visit : List String) (m : ApplicationMapping) (spec : ApplicationSpec)
variable (snapshot : Option KubernetesInventory) (applied : List String)

/-- The object name of a service in the plan. -/
def objectName (name : String) : String :=
  ((kubernetesNames m.project spec.serviceNames).get? name).getD ""

/-- How many services have this object name. -/
def objectUses (n : String) : Nat :=
  (kubernetesNames m.project spec.serviceNames).entries.countP fun e => e.2 == n

/-- A Deployment of the namespace that is not this instance's holds the name. -/
def held (n : String) : Bool :=
  snapshot.any fun inv => inv.workloads.any fun w =>
    w.kind == .deployment && w.ns == m.ns && w.instanceID ≠ m.instanceID && w.name == n

/-- The applied service whose objects have the name, empty if there is none. Of several, the one
that `visit`, the order in which the map of applied names is ranged over, comes to last. -/
def appliedBy (n : String) : String :=
  (visit.reverse.find? fun s => (kubernetesNames m.project applied).get? s == some n).getD ""

/-- The service's objects would be renamed, or taken over from another service. -/
def serviceRenamed (name : String) : Bool :=
  (match (kubernetesNames m.project applied).get? name with
    | some old => old ≠ objectName m spec name
    | none => false) ||
  (appliedBy visit m applied (objectName m spec name) ≠ "" &&
    appliedBy visit m applied (objectName m spec name) ≠ name)

/-- The address chosen for the service is in use, or another one is already its own. -/
def serviceIPBlockers (s : ApplicationService) : List Blocker :=
  let ip := spec.serviceIP s.name
  match snapshot with
  | some inv => if ip = "" then [] else inv.services.flatMap fun have_ =>
      let own := have_.ns == m.ns && have_.name == objectName m spec s.name &&
        have_.instanceID == m.instanceID
      (if have_.clusterIP == ip && !own then [.serviceIPInUse] else []) ++
        (if own && have_.clusterIP ≠ ip then [.serviceIPImmutable] else [])
  | none => []

/-- The codes of one service, and whether only a storage choice is missing. -/
def serviceCodes (s : ApplicationService) : List KubernetesCode × Bool :=
  let (codes, choice) := kubernetesVolumeCodes spec s
  (codes ++ (if s.ports.any fun p => p.hostIP ≠ "" then [.hostIP] else []) ++
    (if kubernetesRestart s.restart then [] else [.restart]) ++
    (if 1 < objectUses m spec (objectName m spec s.name) || !validLabelValue s.name ||
      !validLabelValue m.project then [.name] else []) ++
    (if held m snapshot (objectName m spec s.name) then [.nameTaken] else []) ++
    (if serviceRenamed visit m spec applied s.name then [.serviceRenamed] else []), choice)

/-- Two ports of the service publish the same number and protocol. -/
def portOverlap (s : ApplicationService) : Bool :=
  !decide (s.ports.map fun p => (p.published, p.protocol)).Nodup

/-- A service before its checks. -/
def preflightService (s : ApplicationService) : PreflightService :=
  let (codes, choice) := serviceCodes visit m spec snapshot applied s
  { name := s.name
    reference := s.image
    blockers := serviceIPBlockers m spec snapshot s ++
      (if codes.isEmpty then [] else [.kubernetesUnsupported]) ++
      (if (splitImageReference s.image).2 = "" then [.explicitImageReferenceRequired] else []) ++
      (if portOverlap s then [.desiredPortOverlap] else [])
    unsupported := codes
    choiceRequired := choice }

/-- The verdict on a spec under a cluster mapping. `applied` are the services of the instance's last
applied revision. -/
def buildKubernetesPreflight : DeploymentPreflight :=
  let blockers := if m.deployNamespaces.contains m.ns then [] else [Blocker.k8sNamespace]
  let services := spec.services.map (preflightService visit m spec snapshot applied)
  { instanceID := m.instanceID
    endpointID := m.endpointID
    endpointName := m.endpointName
    revision := m.revision
    mappingVersion := m.version
    executable := (services.all fun row => row.blockers.isEmpty) && blockers.isEmpty
    blockers := blockers
    services := services }

variable {visit m spec snapshot applied}

/-- An executable plan has no service with an unsupported code. -/
theorem serviceCodes_nil_of_executable
    (h : (buildKubernetesPreflight visit m spec snapshot applied).executable = true)
    {s : ApplicationService} (hs : s ∈ spec.services) :
    (serviceCodes visit m spec snapshot applied s).1 = [] := by
  simp only [buildKubernetesPreflight, Bool.and_eq_true, List.all_map, List.all_eq_true,
    Function.comp_apply, preflightService, List.isEmpty_iff, List.append_eq_nil_iff] at h
  have hcodes := (h.1 s hs).1.1.2
  by_contra hne
  simp [hne] at hcodes

/-- The volumes of an executable plan are named, chosen and mounted by one service. -/
theorem volume_of_executable
    (h : (buildKubernetesPreflight visit m spec snapshot applied).executable = true)
    {s : ApplicationService} (hs : s ∈ spec.services) {v : ApplicationVolume} (hv : v ∈ s.volumes) :
    v.kind = .named ∧ (spec.volume v.source).isSome ∧ volumeUsers spec v.source = 1 := by
  have hnil := serviceCodes_nil_of_executable h hs
  simp only [serviceCodes, kubernetesVolumeCodes, List.append_eq_nil_iff] at hnil
  obtain ⟨⟨⟨⟨⟨⟨hfirst, hshared⟩, -⟩, -⟩, -⟩, -⟩, -⟩ := hnil
  have hnotshared : ¬(s.volumes.filter fun v => v.kind == .named).any
      (fun v => decide (1 < volumeUsers spec v.source)) = true := by
    intro hany
    simp [hany] at hshared
  have hkind : v.kind = .named := by
    by_contra hk
    have hbind : (s.volumes.any fun v => decide (v.kind ≠ .named)) = true :=
      List.any_eq_true.2 ⟨v, hv, by simpa using hk⟩
    simp only [hbind, Bool.true_or, if_true, reduceCtorEq] at hfirst
  have hnamed : v ∈ s.volumes.filter fun v => v.kind == .named :=
    List.mem_filter.2 ⟨hv, by simp [hkind]⟩
  have hle : volumeUsers spec v.source ≤ 1 := by
    by_contra hlt
    exact hnotshared (List.any_eq_true.2 ⟨v, hnamed, by simpa using hlt⟩)
  have hpos : 0 < volumeUsers spec v.source := by
    refine List.countP_pos_iff.2 ⟨s, hs, ?_⟩
    exact List.any_eq_true.2 ⟨v, hv, by simp [hkind]⟩
  refine ⟨hkind, ?_, by omega⟩
  by_contra hc
  have hunchosen : ((s.volumes.filter fun v => v.kind == .named).any fun v =>
      !decide (1 < volumeUsers spec v.source) && (spec.volume v.source).isNone) = true := by
    refine List.any_eq_true.2 ⟨v, hnamed, ?_⟩
    simp only [Option.not_isSome_iff_eq_none] at hc
    simp [hc, hle]
  split at hfirst
  · cases hfirst
  cases hfirst

end Preflight

/-! ## Volumes across revisions -/

/-- Every volume that both specs declare and that the first mounted from a claim is mounted by the
second from that claim, wherever the second mounts it. -/
def KeepsClaims (project : String) (spec₁ spec₂ : ApplicationSpec) : Prop :=
  ∀ v c, v ∈ spec₁.declared → v ∈ spec₂.declared → MountedFrom project spec₁ v c →
    ∀ s ∈ spec₂.services, ∀ vol ∈ s.volumes, vol.kind = .named → vol.source = v →
      (∃ m ∈ (kubernetesClaims project spec₂).2 s.name, m.mountPath = vol.target) ∧
      ∀ m ∈ (kubernetesClaims project spec₂).2 s.name, m.mountPath = vol.target → m.claim = c

/-- The spec mounts the volume from a claim: some service mounts it by name, one only, and it has a
storage choice. -/
def Claimed (spec : ApplicationSpec) (v : String) : Prop :=
  (∃ s ∈ spec.services, s.mountsNamed v = true) ∧ (spec.volume v).isSome ∧ volumeUsers spec v = 1

/-- A volume the first spec mounts from a claim and the second one mounts too has its slug to itself
in both specs or in neither (or a suffix that changes nothing). -/
def SuffixStable (project : String) (spec₁ spec₂ : ApplicationSpec) : Prop :=
  ∀ v ∈ spec₁.declared, v ∈ spec₂.declared → Claimed spec₁ v →
    (∃ s ∈ spec₂.services, s.mountsNamed v = true) →
    suffixed project spec₁.declared v = suffixed project spec₂.declared v ∨
      slug project v = suffixedName project v

/-- An executable plan keeps its volumes' claims exactly when no volume's suffix comes or goes. -/
theorem volume_keeps_claim_iff (visit : List String) (m : ApplicationMapping)
    (spec₁ spec₂ : ApplicationSpec) (snapshot : Option KubernetesInventory)
    (h₁ : validateApplicationSpec spec₁ = true) (h₂ : validateApplicationSpec spec₂ = true)
    (hexec : (buildKubernetesPreflight visit m spec₂ snapshot spec₁.serviceNames).executable = true) :
    KeepsClaims m.project spec₁ spec₂ ↔ SuffixStable m.project spec₁ spec₂ := by
  have hw₁ := wellFormed_of_validateApplicationSpec h₁
  have hw₂ := wellFormed_of_validateApplicationSpec h₂
  -- Every mount of the second plan is of the claim its volume's name gives.
  have hmount : ∀ s ∈ spec₂.services, ∀ vol ∈ s.volumes, vol.kind = .named →
      ⟨kubernetesName m.project spec₂.declared vol.source, vol.target, vol.readOnly⟩ ∈
        (kubernetesClaims m.project spec₂).2 s.name := by
    intro s hs vol hvol hk
    obtain ⟨-, hc, hu⟩ := volume_of_executable hexec hs hvol
    obtain ⟨d, hd⟩ := claimMount_of_chosen m.project hk hc hu
    have hmem := hw₂.source_declared s hs vol hvol hk
    simp only [claimNames, kubernetesNames_get?, hmem] at hd
    exact (mem_mounts_iff hw₂ hs).2 ⟨vol, hvol, d, hd⟩
  constructor
  · rintro hkeeps v hv₁ hv₂ hclaimed ⟨s, hs, hsv⟩
    have hfrom : MountedFrom m.project spec₁ v (kubernetesName m.project spec₁.declared v) :=
      (mountedFrom_iff hw₁).2 ⟨hclaimed.1, hclaimed.2.1, hclaimed.2.2, rfl⟩
    simp only [ApplicationService.mountsNamed, List.any_eq_true, Bool.and_eq_true,
      beq_iff_eq] at hsv
    obtain ⟨vol, hvol, hk, rfl⟩ := hsv
    have heq := (hkeeps _ _ hv₁ hv₂ hfrom s hs vol hvol hk rfl).2 _ (hmount s hs vol hvol hk) rfl
    exact (kubernetesName_stable_iff _ _ _ _).1 heq.symm
  · rintro hstable v c hv₁ hv₂ hfrom s hs vol hvol hk rfl
    obtain ⟨hmounted, hc, hu, rfl⟩ := (mountedFrom_iff hw₁).1 hfrom
    have hsv : s.mountsNamed vol.source = true := List.any_eq_true.2 ⟨vol, hvol, by simp [hk]⟩
    have hname := (kubernetesName_stable_iff _ _ _ _).2
      (hstable _ hv₁ hv₂ ⟨hmounted, hc, hu⟩ ⟨s, hs, hsv⟩)
    refine ⟨⟨_, hmount s hs vol hvol hk, rfl⟩, fun mnt hmnt hp => ?_⟩
    obtain ⟨d, hd⟩ := mount_unique hw₂ hs hvol hmnt hp
    obtain ⟨-, -, -, rfl⟩ := claimMount_eq_some hd
    simp only [claimNames, kubernetesNames_get?, hv₂]
    exact hname.symm

/-- An application mapped to the one namespace its cluster grants. -/
def shopMapping : ApplicationMapping where
  instanceID := "i"
  version := 1
  endpointID := "e"
  endpointName := "cluster"
  revision := 2
  project := "p"
  ns := "shop"
  deployNamespaces := ["shop"]

/-- A volume that keeps its slug to itself keeps its claim. -/
theorem volume_keeps_claim_control :
    KeepsClaims "p" (volumesSpec ["data_a"] ["data_a"] (by decide))
      (volumesSpec ["data_a", "logs"] ["data_a", "logs"] (by decide)) := by
  refine (volume_keeps_claim_iff ["web"] shopMapping _ _ none ?_ ?_ ?_).2 ?_
  · decide +kernel
  · decide +kernel
  · decide +kernel
  · intro v hv _ _ _
    have hvd : v = "data_a" := by simpa [volumesSpec, ApplicationSpec.declared] using hv
    subst hvd
    exact Or.inl (by decide +kernel)

/-- Declaring `data.a` beside `data_a`, mounted by nobody, moves the data of `data_a` to another
claim: the plan is executable and mounts a claim of another name. -/
theorem volume_moves :
    validateApplicationSpec (volumesSpec ["data_a"] ["data_a"] (by decide)) = true ∧
      validateApplicationSpec (volumesSpec ["data_a", "data.a"] ["data_a"] (by decide)) = true ∧
      (buildKubernetesPreflight ["web"] shopMapping
        (volumesSpec ["data_a", "data.a"] ["data_a"] (by decide)) none
        (volumesSpec ["data_a"] ["data_a"] (by decide)).serviceNames).executable = true ∧
      ¬KeepsClaims shopMapping.project (volumesSpec ["data_a"] ["data_a"] (by decide))
        (volumesSpec ["data_a", "data.a"] ["data_a"] (by decide)) := by
  refine ⟨by decide +kernel, by decide +kernel, by decide +kernel, fun hkeeps => ?_⟩
  have hmoved : ∃ m ∈ (kubernetesClaims "p"
      (volumesSpec ["data_a", "data.a"] ["data_a"] (by decide))).2 "web",
      m.mountPath = "/data/data_a" ∧ m.claim ≠ "p-data-a" := by decide +kernel
  obtain ⟨mnt, hmnt, hpath, hclaim⟩ := hmoved
  have hfrom : MountedFrom "p" (volumesSpec ["data_a"] ["data_a"] (by decide)) "data_a"
      "p-data-a" := by
    refine ⟨_, List.mem_cons_self, namedVolume "data_a" "/data/data_a", ?_, rfl, rfl, ?_⟩
    · exact List.mem_cons_self
    · exact List.mem_cons_self
  have hkept := hkeeps "data_a" "p-data-a" (by decide) (by decide) hfrom _ List.mem_cons_self
    (namedVolume "data_a" "/data/data_a") List.mem_cons_self rfl rfl
  exact hclaim (hkept.2 mnt hmnt hpath)

end KyYard.Store
