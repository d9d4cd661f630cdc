import KyYard.Store.Spec

/-!
# Claims of a cluster application

`kubernetesClaims` turns the chosen named volumes of a spec into PersistentVolumeClaims, named by
the shared rule over the declared volumes, and each service's mounts of them. A volume's claim is
its identity: two volumes with one claim name share their data.

`claimNames_distinct_iff` says when that cannot happen. The naming rule suffixes a name only where
slugs collide, and nothing stops a third volume from spelling a suffixed name
(`claimNames_collide`).
-/

namespace KyYard.Store

open Foundation Protocol

/-- The service mounts the volume by name. -/
def ApplicationService.mountsNamed (s : ApplicationService) (name : String) : Bool :=
  s.volumes.any fun v => v.kind == .named && v.source == name

/-- How many services mount a named volume. -/
def volumeUsers (spec : ApplicationSpec) (name : String) : Nat :=
  spec.services.countP (·.mountsNamed name)

/-- The claim names of the declared volumes. -/
def claimNames (project : String) (spec : ApplicationSpec) : Dict String :=
  kubernetesNames project spec.declared

/-- The claim and the mount of one volume of a service. A volume with no choice, or one that not
exactly one service mounts, gets none. -/
def claimMount (project : String) (spec : ApplicationSpec) (v : ApplicationVolume) :
    Option (KubernetesClaim × KubernetesMount) :=
  match spec.volume v.source with
  | none => none
  | some choice =>
    if v.kind ≠ .named ∨ volumeUsers spec v.source ≠ 1 then none
    else
      let claim := ((claimNames project spec).get? v.source).getD ""
      some (⟨claim, choice.storageClass, choice.size, choice.accessMode⟩,
        ⟨claim, v.target, v.readOnly⟩)

/-- A claim joins the list once for each name. -/
def addClaim (claims : List KubernetesClaim) (c : KubernetesClaim) : List KubernetesClaim :=
  if claims.any fun d => d.name == c.name then claims else claims ++ [c]

/-- The claims of a spec, and each service's mounts of them in mount order. -/
def kubernetesClaims (project : String) (spec : ApplicationSpec) :
    List KubernetesClaim × (String → List KubernetesMount) :=
  let made (s : ApplicationService) := s.volumes.filterMap (claimMount project spec)
  ((spec.services.flatMap made).foldl (fun claims c => addClaim claims c.1) [],
    fun name => ((spec.services.filter fun s => s.name == name).flatMap made).map Prod.snd)

/-- The volume `v` is mounted from the claim `c` by the plan of a spec: some service mounts it by
name, and the plan's mount at that path is of `c`. -/
def MountedFrom (project : String) (spec : ApplicationSpec) (v c : String) : Prop :=
  ∃ s ∈ spec.services, ∃ vol ∈ s.volumes, vol.kind = .named ∧ vol.source = v ∧
    ⟨c, vol.target, vol.readOnly⟩ ∈ (kubernetesClaims project spec).2 s.name

variable {project : String} {spec : ApplicationSpec} {v : ApplicationVolume}

/-- What a claim mount is made of. -/
theorem claimMount_eq_some {c : KubernetesClaim} {m : KubernetesMount}
    (h : claimMount project spec v = some (c, m)) :
    v.kind = .named ∧ (spec.volume v.source).isSome ∧ volumeUsers spec v.source = 1 ∧
      m = ⟨((claimNames project spec).get? v.source).getD "", v.target, v.readOnly⟩ := by
  unfold claimMount at h
  cases hc : spec.volume v.source with
  | none => simp [hc] at h
  | some =>
    simp only [hc] at h
    split at h
    · cases h
    next hk =>
    push Not at hk
    simp only [Option.some.injEq, Prod.mk.injEq] at h
    exact ⟨hk.1, rfl, hk.2, h.2.symm⟩

/-- A chosen volume that one service mounts gets its claim. -/
theorem claimMount_of_chosen (project : String)
    (hk : v.kind = .named) (hc : (spec.volume v.source).isSome)
    (hu : volumeUsers spec v.source = 1) :
    ∃ c, claimMount project spec v =
      some (c, ⟨((claimNames project spec).get? v.source).getD "", v.target, v.readOnly⟩) := by
  obtain ⟨choice, hchoice⟩ := Option.isSome_iff_exists.1 hc
  simp [claimMount, hchoice, hk, hu]

/-- With distinct service names, the mounts under a name are those of its service. -/
theorem mem_mounts_iff (hw : spec.WellFormed)
    {s : ApplicationService} (hs : s ∈ spec.services) {m : KubernetesMount} :
    m ∈ (kubernetesClaims project spec).2 s.name ↔
      ∃ v ∈ s.volumes, ∃ c, claimMount project spec v = some (c, m) := by
  have hsame : ∀ t ∈ spec.services, t.name = s.name → t = s := fun t ht he =>
    List.inj_on_of_nodup_map hw.serviceNames_nodup ht hs he
  simp only [kubernetesClaims, List.mem_map, List.mem_flatMap, List.mem_filter, beq_iff_eq,
    List.mem_filterMap, Prod.exists, exists_eq_right]
  constructor
  · rintro ⟨c, t, ⟨ht, hname⟩, v, hv, hm⟩
    rw [hsame t ht hname] at hv
    exact ⟨v, hv, c, hm⟩
  · rintro ⟨v, hv, c, hm⟩
    exact ⟨c, s, ⟨hs, rfl⟩, v, hv, hm⟩

/-- In a well-formed spec a mount at a volume's path is that volume's mount. -/
theorem mount_unique (hw : spec.WellFormed)
    {s : ApplicationService} (hs : s ∈ spec.services) (hv : v ∈ s.volumes)
    {m : KubernetesMount} (hm : m ∈ (kubernetesClaims project spec).2 s.name)
    (hp : m.mountPath = v.target) : ∃ c, claimMount project spec v = some (c, m) := by
  obtain ⟨u, hu, c, hc⟩ := (mem_mounts_iff hw hs).1 hm
  obtain ⟨-, -, -, hmu⟩ := claimMount_eq_some hc
  have htarget : u.target = v.target := by
    rw [← hp, hmu]
  have huv : u = v := List.inj_on_of_nodup_map (hw.targets_nodup s hs) hu hv htarget
  exact ⟨c, huv ▸ hc⟩

/-- A mounted volume is chosen, has one user, and its claim carries its name. -/
theorem mountedFrom_iff (hw : spec.WellFormed) {v c : String} :
    MountedFrom project spec v c ↔
      (∃ s ∈ spec.services, s.mountsNamed v = true) ∧ (spec.volume v).isSome ∧
        volumeUsers spec v = 1 ∧ c = kubernetesName project spec.declared v := by
  constructor
  · rintro ⟨s, hs, vol, hvol, hk, rfl, hm⟩
    obtain ⟨d, hd⟩ := mount_unique hw hs hvol hm rfl
    obtain ⟨-, hc, hu, hmount⟩ := claimMount_eq_some hd
    have hmem := hw.source_declared s hs vol hvol hk
    refine ⟨⟨s, hs, ?_⟩, hc, hu, ?_⟩
    · simp only [ApplicationService.mountsNamed, List.any_eq_true]
      exact ⟨vol, hvol, by simp [hk]⟩
    · have hclaim := congrArg KubernetesMount.claim hmount
      simpa [claimNames, hmem] using hclaim
  · rintro ⟨⟨s, hs, hmounts⟩, hc, hu, rfl⟩
    simp only [ApplicationService.mountsNamed, List.any_eq_true, Bool.and_eq_true,
      beq_iff_eq] at hmounts
    obtain ⟨vol, hvol, hk, rfl⟩ := hmounts
    obtain ⟨d, hd⟩ := claimMount_of_chosen project hk hc hu
    have hmem := hw.source_declared s hs vol hvol hk
    have hname : ((claimNames project spec).get? vol.source).getD "" =
        kubernetesName project spec.declared vol.source := by simp [claimNames, hmem]
    rw [hname] at hd
    exact ⟨s, hs, vol, hvol, hk, rfl, (mem_mounts_iff hw hs).2 ⟨vol, hvol, d, hd⟩⟩

/-! ## Volume identity -/

/-- Different declared volumes have different claim names, and no claim is mounted for two
volumes. -/
def ClaimsDistinct (project : String) (spec : ApplicationSpec) : Prop :=
  (∀ v ∈ spec.declared, ∀ w ∈ spec.declared, v ≠ w →
    (claimNames project spec).get? v ≠ (claimNames project spec).get? w) ∧
  ∀ v w c, MountedFrom project spec v c → MountedFrom project spec w c → v = w

/-- A mounted volume is a declared one. -/
theorem declared_of_mountedFrom (hw : spec.WellFormed)
    {v c : String} (h : MountedFrom project spec v c) : v ∈ spec.declared := by
  obtain ⟨s, hs, vol, hvol, hk, rfl, -⟩ := h
  exact hw.source_declared s hs vol hvol hk

/-- The volumes of a valid spec keep apart exactly when no suffix of the naming rule clashes. -/
theorem claimNames_distinct_iff (project : String) (spec : ApplicationSpec)
    (h : validateApplicationSpec spec = true) :
    ClaimsDistinct project spec ↔ NoSuffixClash project spec.declared := by
  have hw := wellFormed_of_validateApplicationSpec h
  rw [← kubernetesName_distinct_iff]
  constructor
  · rintro ⟨hnames, -⟩ v hv w hw' hne heq
    refine hnames v hv w hw' hne ?_
    simp [claimNames, hv, hw', heq]
  · intro hnames
    refine ⟨fun v hv w hw' hne heq => ?_, fun v w c hv hw' => ?_⟩
    · simp only [claimNames, kubernetesNames_get?, hv, hw', if_true, Option.some.injEq] at heq
      exact hnames v hv w hw' hne heq
    · by_contra hne
      have hcv := ((mountedFrom_iff hw).1 hv).2.2.2
      have hcw := ((mountedFrom_iff hw).1 hw').2.2.2
      exact hnames v (declared_of_mountedFrom hw hv) w (declared_of_mountedFrom hw hw') hne
        (hcv.symm.trans hcw)

/-- A volume mounted by name at a path. -/
def namedVolume (source target : String) : ApplicationVolume := ⟨.named, source, target, false⟩

/-- One service that mounts each given volume below `/data`, each with a storage choice of 1Gi. -/
def volumesSpec (declared mounted : List String) (h : mounted.Nodup) : ApplicationSpec where
  kind := "compose.v1"
  services := [{
    ports := []
    restart := .unset
    name := "web"
    image := "nginx:1"
    environment := Dict.empty
    volumes := mounted.map fun v => namedVolume v ("/data/" ++ v) }]
  volumes := declared.map fun v => ⟨v, false⟩
  kubernetes := some {
    volumes := some ⟨mounted.map fun v => (v, ⟨"", "1Gi", "ReadWriteOnce"⟩), by
      simpa [List.map_map, Function.comp_def] using h⟩
    serviceIPs := Dict.empty }

/-- Volumes without a clash keep apart. -/
theorem claimNames_distinct_control :
    validateApplicationSpec (volumesSpec ["a_b", "a.b"] ["a_b"] (by decide)) = true ∧
      ClaimsDistinct "p" (volumesSpec ["a_b", "a.b"] ["a_b"] (by decide)) := by
  have hvalid : validateApplicationSpec (volumesSpec ["a_b", "a.b"] ["a_b"] (by decide)) = true := by
    decide +kernel
  refine ⟨hvalid, (claimNames_distinct_iff "p" _ hvalid).2 ?_⟩
  decide +kernel

/-- `a_b` and `a.b` share a slug and are suffixed; the third volume spells the first one's suffixed
name. -/
def collidingSpec : ApplicationSpec :=
  volumesSpec ["a_b", "a.b", "a-b-79bf66"] ["a_b", "a-b-79bf66"] (by decide)

/-- Two volumes of a valid spec are mounted from one claim. -/
theorem claimNames_collide :
    validateApplicationSpec collidingSpec = true ∧
      MountedFrom "p" collidingSpec "a_b" "p-a-b-79bf66" ∧
      MountedFrom "p" collidingSpec "a-b-79bf66" "p-a-b-79bf66" ∧
      ¬ClaimsDistinct "p" collidingSpec := by
  have hvalid : validateApplicationSpec collidingSpec = true := by decide +kernel
  have hw := wellFormed_of_validateApplicationSpec hvalid
  have hfirst : MountedFrom "p" collidingSpec "a_b" "p-a-b-79bf66" :=
    (mountedFrom_iff hw).2 (by decide +kernel)
  have hsecond : MountedFrom "p" collidingSpec "a-b-79bf66" "p-a-b-79bf66" :=
    (mountedFrom_iff hw).2 (by decide +kernel)
  refine ⟨hvalid, hfirst, hsecond, fun hd => ?_⟩
  exact absurd (hd.2 _ _ _ hfirst hsecond) (by decide)

end KyYard.Store
