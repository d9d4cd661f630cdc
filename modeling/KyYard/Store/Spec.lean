import KyYard.Foundation.Json
import KyYard.Protocol.Frame

/-!
# Application specs

The desired-state contract of an application: services with images, ports, environment references
and volumes, the declared volumes, and what only a cluster needs. `encodeApplicationSpec` checks a
spec and encodes it; a spec is valid when it does (`validateApplicationSpec`).

What validity promises to the rest of the store is collected in `ApplicationSpec.WellFormed`, the
part of it that later results use.
-/

namespace KyYard.Store

open Foundation Protocol

/-! ## Data -/

/-- A volume by name, a host path, or a text that is neither. -/
inductive VolumeKind
  | named
  | bind
  | other (s : String)
deriving DecidableEq

def VolumeKind.text : VolumeKind → String
  | named => "named"
  | bind => "bind"
  | other s => s

/-- A published port. -/
structure ApplicationPort where
  target : Int
  published : Int
  hostIP : String
  protocol : PortProtocol
deriving DecidableEq

/-- A declared volume or an absolute host path, mounted at `target`. -/
structure ApplicationVolume where
  kind : VolumeKind
  source : String
  target : String
  readOnly : Bool
deriving DecidableEq

/-- A volume the application declares. -/
structure DeclaredVolume where
  name : String
  «external» : Bool
deriving DecidableEq

/-- A service; its environment maps variable names to secret references. -/
structure ApplicationService where
  ports : List ApplicationPort
  restart : Restart
  name : String
  image : String
  environment : Dict String
  volumes : List ApplicationVolume
deriving DecidableEq

/-- One volume's claim. -/
structure KubernetesVolume where
  storageClass : String
  size : String
  accessMode : String
deriving DecidableEq

/-- Storage choices per named volume and optional Service addresses. `volumes` is `none` for a nil
map. -/
structure KubernetesExtension where
  volumes : Option (Dict KubernetesVolume)
  serviceIPs : Dict String
deriving DecidableEq

/-- The specification of a revision. -/
structure ApplicationSpec where
  kind : String
  services : List ApplicationService
  volumes : List DeclaredVolume
  kubernetes : Option KubernetesExtension
deriving DecidableEq

namespace ApplicationSpec

/-- The services in order. -/
def serviceNames (spec : ApplicationSpec) : List String := spec.services.map ApplicationService.name

/-- The declared volume names in order. -/
def declared (spec : ApplicationSpec) : List String := spec.volumes.map DeclaredVolume.name

/-- The storage choice of a declared volume. -/
def volume (spec : ApplicationSpec) (name : String) : Option KubernetesVolume :=
  spec.kubernetes.bind fun k => k.volumes.bind fun d => d.get? name

/-- The address chosen for a service, empty if none is. -/
def serviceIP (spec : ApplicationSpec) (name : String) : String :=
  (spec.kubernetes.bind fun k => k.serviceIPs.get? name).getD ""

end ApplicationSpec

/-! ## Encoding -/

/-- A map as an object, its keys in order. -/
def dictJson {V : Type} (f : V → Json) (d : Dict V) : Json :=
  .obj ((d.entries.insertionSort fun a b => Text.le a.1 b.1 = true).map fun e => (e.1, f e.2))

def ApplicationPort.json (p : ApplicationPort) : Json :=
  .obj (("target", .num p.target) :: ("published", .num p.published) ::
    Json.omitEmpty (p.hostIP == "") "host_ip" (.str p.hostIP) ++
    [("protocol", .str p.protocol.text)])

def ApplicationVolume.json (v : ApplicationVolume) : Json :=
  .obj (("kind", .str v.kind.text) :: ("source", .str v.source) :: ("target", .str v.target) ::
    Json.omitEmpty (!v.readOnly) "read_only" (.bool v.readOnly))

def ApplicationService.json (s : ApplicationService) : Json :=
  .obj (Json.omitEmpty s.ports.isEmpty "ports" (.arr (s.ports.map ApplicationPort.json)) ++
    Json.omitEmpty (s.restart == .unset) "restart" (.str s.restart.text) ++
    [("name", .str s.name), ("image", .str s.image)] ++
    Json.omitEmpty (s.environment.size == 0) "environment"
      (dictJson (fun ref => .obj [("secret_ref", .str ref)]) s.environment) ++
    Json.omitEmpty s.volumes.isEmpty "volumes" (.arr (s.volumes.map ApplicationVolume.json)))

def DeclaredVolume.json (v : DeclaredVolume) : Json :=
  .obj (("name", .str v.name) :: Json.omitEmpty (!v.external) "external" (.bool v.external))

def KubernetesVolume.json (v : KubernetesVolume) : Json :=
  .obj [("storage_class", .str v.storageClass), ("size", .str v.size),
    ("access_mode", .str v.accessMode)]

def KubernetesExtension.json (k : KubernetesExtension) : Json :=
  .obj (("volumes", (k.volumes.map (dictJson KubernetesVolume.json)).getD .null) ::
    Json.omitEmpty (k.serviceIPs.size == 0) "service_ips" (dictJson .str k.serviceIPs))

def ApplicationSpec.json (spec : ApplicationSpec) : Json :=
  .obj (("kind", .str spec.kind) :: ("services", .arr (spec.services.map ApplicationService.json)) ::
    Json.omitEmpty spec.volumes.isEmpty "volumes" (.arr (spec.volumes.map DeclaredVolume.json)) ++
    (spec.kubernetes.map fun k => [("kubernetes", k.json)]).getD [])

/-! ## Validation -/

def maxApplicationSpecBytes : Nat := 64 * 1024

def applicationServiceName : Pattern :=
  .seq (.one fun c => Class.lower c || Class.digit c)
    (.rep 0 62 (.one (Class.orOf Class.lower "0123456789_-")))

def applicationEnvName : Pattern :=
  .seq (.one fun c => Class.lower c || Class.upper c || c == '_')
    (.rep 0 127 (.one (Class.orOf Class.alnum "_")))

def applicationVolumeName : Pattern :=
  .seq (.one Class.alnum) (.rep 0 63 (.one (Class.orOf Class.alnum "_.-")))

def applicationSecretName : Pattern :=
  .seq (.one Class.alnum) (.rep 0 127 (.one (Class.orOf Class.alnum "_.-")))

def validVolumeName (name : String) : Bool := applicationVolumeName.accepts name

/-- Text that is safe to show: at most 255 bytes, no control character, line separator or
bidirectional control. -/
def displaySafe (s : String) : Bool :=
  s.utf8ByteSize ≤ 255 && s.toList.all fun c =>
    !(Text.isControl c || c.val == 0x2028 || c.val == 0x2029 ||
      (0x202a ≤ c.val && c.val ≤ 0x202e) || (0x2066 ≤ c.val && c.val ≤ 0x2069))

/-- Shown safely and not blank. -/
def validTenantName (name : String) : Bool := Text.trimSpace name ≠ "" && displaySafe name

/-- An absolute, normalized, display-safe path with no surrounding white space. -/
def cleanAbsolutePath (p : String) : Bool :=
  Text.cleanAbsolute p && Text.trimSpace p == p && displaySafe p

/-- A claim of known access and size. -/
def KubernetesVolume.valid (v : KubernetesVolume) : Bool :=
  validStorageClass v.storageClass && (storageSizeBytes v.size).isSome &&
    v.accessMode == accessReadWriteOnce

/-- Ports in range, protocol known. -/
def ApplicationPort.valid (p : ApplicationPort) : Bool :=
  1 ≤ p.target && p.target ≤ 65535 && 1 ≤ p.published && p.published ≤ 65535 &&
    (p.protocol == .tcp || p.protocol == .udp) &&
    (p.hostIP == "" || (Addr.parse? p.hostIP).any fun a => a.zone == "")

/-- The source is a declared volume or a clean host path, the target a clean path below the root. -/
def ApplicationVolume.valid (declared : List String) (v : ApplicationVolume) : Bool :=
  ((v.kind == .named && declared.contains v.source) ||
    (v.kind == .bind && cleanAbsolutePath v.source)) &&
    cleanAbsolutePath v.target && v.target ≠ "/"

/-- The checks of one service. -/
def ApplicationService.valid (declared : List String) (s : ApplicationService) : Bool :=
  applicationServiceName.accepts s.name && s.image.utf8ByteSize ≤ 512 &&
    validImageReference s.image && s.environment.size ≤ 128 &&
    s.restart ∈ [.unset, .no, .always, .unlessStopped, .onFailure] &&
    s.ports.length ≤ 64 && s.ports.all ApplicationPort.valid &&
    s.volumes.length ≤ 32 && s.volumes.all (·.valid declared) &&
    decide (s.volumes.map ApplicationVolume.target).Nodup &&
    s.environment.entries.all fun e =>
      applicationEnvName.accepts e.1 && applicationSecretName.accepts e.2

/-- Choices for declared volumes only, and distinct addresses for services with ports. -/
def KubernetesExtension.valid (spec : ApplicationSpec) (k : KubernetesExtension) : Bool :=
  let chosen := (k.volumes.getD Dict.empty).entries
  chosen.length ≤ maxKubernetesClaims && k.serviceIPs.size ≤ maxDeploymentServices &&
    (chosen.all fun e => spec.declared.contains e.1 && e.2.valid) &&
    (k.serviceIPs.entries.all fun e => spec.serviceNames.contains e.1 && validClusterIP e.2 &&
      spec.services.any fun s => s.name == e.1 && !s.ports.isEmpty) &&
    decide (k.serviceIPs.entries.map Prod.snd).Nodup

/-- The encoded spec with its digest, or nothing for an invalid one. -/
def encodeApplicationSpec (spec : ApplicationSpec) : Option (List Char × String) :=
  let raw := spec.json.encode
  if spec.kind == "compose.v1" && !spec.services.isEmpty && spec.services.length ≤ 100 &&
      spec.volumes.length ≤ 64 && spec.declared.all validVolumeName && decide spec.declared.Nodup &&
      spec.services.all (·.valid spec.declared) && decide spec.serviceNames.Nodup &&
      (spec.kubernetes.all (·.valid spec)) && spec.json.size ≤ maxApplicationSpecBytes then
    some (raw, "sha256:" ++ String.ofList
      (Text.hexEncode (Sha256.sum256 (String.ofList raw).toUTF8.toList)))
  else none

/-- It encodes. -/
def validateApplicationSpec (spec : ApplicationSpec) : Bool := (encodeApplicationSpec spec).isSome

/-! ## What validity promises -/

/-- Distinct names, distinct mount targets in a service, and every volume mounted by name is
declared. -/
structure ApplicationSpec.WellFormed (spec : ApplicationSpec) : Prop where
  declared_nodup : spec.declared.Nodup
  serviceNames_nodup : spec.serviceNames.Nodup
  targets_nodup : ∀ s ∈ spec.services, (s.volumes.map ApplicationVolume.target).Nodup
  source_declared : ∀ s ∈ spec.services, ∀ v ∈ s.volumes, v.kind = .named → v.source ∈ spec.declared

theorem validateApplicationSpec_checks {spec : ApplicationSpec}
    (h : validateApplicationSpec spec = true) :
    spec.services ≠ [] ∧ spec.declared.Nodup ∧
      (∀ s ∈ spec.services, s.valid spec.declared = true) ∧ spec.serviceNames.Nodup := by
  unfold validateApplicationSpec encodeApplicationSpec at h
  split at h
  · next hv =>
    simp only [Bool.and_eq_true, Bool.not_eq_true', List.isEmpty_eq_false_iff, decide_eq_true_eq,
      List.all_eq_true] at hv
    obtain ⟨⟨⟨⟨⟨⟨⟨⟨⟨-, hne⟩, -⟩, -⟩, -⟩, hdecl⟩, hserv⟩, hnames⟩, -⟩, -⟩ := hv
    exact ⟨hne, hdecl, hserv, hnames⟩
  · cases h

theorem wellFormed_of_validateApplicationSpec {spec : ApplicationSpec}
    (h : validateApplicationSpec spec = true) : spec.WellFormed := by
  obtain ⟨-, hdecl, hserv, hnames⟩ := validateApplicationSpec_checks h
  refine ⟨hdecl, hnames, ?_, ?_⟩
  · intro s hs
    have hvalid := hserv s hs
    simp only [ApplicationService.valid, Bool.and_eq_true, decide_eq_true_eq] at hvalid
    exact hvalid.1.2
  · intro s hs v hv hk
    have hvalid := hserv s hs
    simp only [ApplicationService.valid, Bool.and_eq_true, List.all_eq_true] at hvalid
    have hmount := hvalid.1.1.2 v hv
    simp only [ApplicationVolume.valid, hk, Bool.and_eq_true] at hmount
    simpa using hmount.1.1

end KyYard.Store
