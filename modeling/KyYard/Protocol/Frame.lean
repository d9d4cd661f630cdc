import Mathlib.Data.Rat.Floor
import KyYard.Foundation.Netip
import KyYard.Protocol.Names

/-!
# Deployment frames

What the control plane sends an agent to deploy (`DeploymentRequest`) and what the agent sends back
(`DeploymentResult`), with the checks both sides make of a request. The words of the protocol
(outcomes, steps, codes) are closed enumerations here, each with its text.

`DeploymentRequest.Docker` collects what a request that passed `validateFor` promises a Docker
agent.
-/

namespace KyYard.Protocol

open Foundation

/-! ## Words -/

/-- How a step or a run ended. -/
inductive Outcome
  | succeeded
  | failed
  | denied
  | timedOut
  | unknown
  | skipped
deriving DecidableEq

/-- The steps of a run. -/
inductive StepName
  | precondition
  | image
  | pull
  | volume
  | stop
  | rename
  | create
  | start
  | remove
  | recheck
  | rollback
  | apply
  | rollout
deriving DecidableEq

/-- The closed vocabulary of a step that did not succeed. -/
inductive StepCode
  | runtimeUnreadable | containerMissing | identityMismatch | imageIdentityMismatch
  | configurationUnreported | unsupported | bindMissing | volumeMountMissing | volumeNotOwned
  | volumeMissing | volumeCreateFailed | imageMissing | pinnedImageMissing | configurationDrift
  | nameReserved | nameTaken | identityUnusable | identityUnreadable | identityUnverified
  | dependents | deadline | pullFailed | pullUnauthorized | pullNotFound | pullDigestMismatch
  | cancelled | runtimeTimeout | runtimeError | runtimeStatus | legacy | forbidden
  | rolloutTimeout | conflict | podSecurity | admissionDenied | claimImmutable
  | serviceIPImmutable | serviceIPUnavailable | rollbackFailed | startFailedRolledBack
  | exitedEarly | applicationManaged | namespaceNotGranted | pvcRetention | secretRefRefused
  | selfProtected
deriving DecidableEq

/-- The closed vocabulary of a result that did not succeed. -/
inductive ResultCode
  | stepFailed | clockSkew | invalidRequest | wrongEndpoint | busy | restarted | unreadable
  | legacy
deriving DecidableEq

inductive PortProtocol
  | tcp
  | udp
  | other (s : String)
deriving DecidableEq

def PortProtocol.text : PortProtocol → String
  | tcp => "tcp"
  | udp => "udp"
  | other s => s

/-- A restart policy; `unset` is the empty text. -/
inductive Restart
  | unset
  | no
  | always
  | unlessStopped
  | onFailure
  | other (s : String)
deriving DecidableEq

def Restart.text : Restart → String
  | unset => ""
  | no => "no"
  | always => "always"
  | unlessStopped => "unless-stopped"
  | onFailure => "on-failure"
  | other s => s

inductive MountKind
  | volume
  | bind
  | tmpfs
  | other (s : String)
deriving DecidableEq

/-! ## Requests -/

/-- The container a service replaces, pinned by id, image and creation time. -/
structure InspectionTarget where
  containerID : String
  imageID : String
  createdUnix : Int
deriving DecidableEq

/-- The target of a run, which replaces nothing. -/
def InspectionTarget.zero : InspectionTarget := ⟨"", "", 0⟩

/-- A port mapping. -/
structure Port where
  hostIP : String
  host : Int
  container : Int
  protocol : PortProtocol
deriving DecidableEq

/-- A mount of a container. -/
structure Mount where
  kind : MountKind
  source : String
  target : String
  readOnly : Bool
deriving DecidableEq

/-- A network to join. -/
structure NetworkAttachmentSpec where
  name : String
  aliases : List String
  ip : String
deriving DecidableEq

/-- Limits of a container. -/
structure Resources where
  nanoCPUs : Int
  memoryBytes : Int
  memorySwapBytes : Int
  pidsLimit : Int
deriving DecidableEq

/-- A healthcheck; its times are in seconds. -/
structure Healthcheck where
  test : List String
  intervalSeconds : Rat
  timeoutSeconds : Rat
  startPeriodSeconds : Rat
  retries : Int
deriving DecidableEq

/-- A device of the host. -/
structure Device where
  host : String
  container : String
  permissions : String
deriving DecidableEq

/-- A log driver and its options. -/
structure LogConfig where
  driver : String
  options : Dict String
deriving DecidableEq

/-- Every setting of one container that a direct edit or run sets. -/
structure ExplicitService where
  command : Option (List String)
  entrypoint : Option (List String)
  user : String
  workingDir : String
  hostname : String
  labels : Dict String
  networkMode : String
  networks : List NetworkAttachmentSpec
  resources : Resources
  healthcheck : Option Healthcheck
  privileged : Bool
  readOnlyRootfs : Bool
  init : Bool
  tty : Bool
  stdinOpen : Bool
  capAdd : List String
  capDrop : List String
  securityOpt : List String
  extraHosts : List String
  dns : List String
  devices : List Device
  log : LogConfig
  stopSignal : String
  stopTimeout : Option Int
  restartRetries : Int
  acknowledgedBinds : List String
deriving DecidableEq

/-- An image by host, repository and digest, and the tag that follows it. -/
structure ImagePull where
  reference : String
  digest : String
  tag : String
deriving DecidableEq

/-- Credentials for a registry. -/
structure RegistryAuth where
  username : String
  secret : String
deriving DecidableEq

/-- A PersistentVolumeClaim of an instance. -/
structure KubernetesClaim where
  name : String
  storageClass : String
  size : String
  accessMode : String
deriving DecidableEq

/-- A claim mounted at a path. -/
structure KubernetesMount where
  claim : String
  mountPath : String
  readOnly : Bool
deriving DecidableEq

/-- Where a cluster agent applies an instance's objects, and what it labels them with. -/
structure KubernetesTarget where
  ns : String
  applicationID : String
  instanceID : String
  specDigest : String
  claims : List KubernetesClaim
deriving DecidableEq

/-- One service of a frame. A nil mount list is `none`. -/
structure DeploymentService where
  name : String
  containerName : String
  imageID : String
  replaces : InspectionTarget
  restart : Restart
  ports : List Port
  env : Dict String
  pull : Option ImagePull
  mounts : Option (List Mount)
  secretKeys : List String
  volumes : List KubernetesMount
  clusterIP : String
  explicit : Option ExplicitService
deriving DecidableEq

/-- The mounts, none for a nil list. -/
def DeploymentService.mountList (s : DeploymentService) : List Mount := s.mounts.getD []

/-- A deployment. Times are in nanoseconds; `issuedAt` is `none` for the zero time. -/
structure DeploymentRequest where
  deployment : String
  requestID : String
  endpoint : String
  project : String
  revision : Int
  issuedAt : Option Int
  deadline : Int
  services : List DeploymentService
  registries : Dict RegistryAuth
  volumes : List String
  kubernetes : Option KubernetesTarget
  explicit : Bool

/-! ## Results -/

/-- A recorded step. -/
structure DeploymentStep where
  service : String
  step : StepName
  outcome : Outcome
  code : Option StepCode
  detail : String
deriving DecidableEq

/-- What an identity names: a Docker container or a Kubernetes Deployment. -/
inductive IdentityKind
  | container
  | deployment
deriving DecidableEq

/-- What a service now runs as: a container, or a Deployment at a generation. -/
structure DeploymentIdentity where
  service : String
  imageDigest : String
  containerID : String := ""
  imageID : String := ""
  createdUnix : Int := 0
  kind : IdentityKind := .container
  ns : String := ""
  name : String := ""
  uid : String := ""
  generation : Int := 0
deriving DecidableEq

/-- A result; `outcome` is `none` while the run goes on. -/
structure DeploymentResult where
  deployment : String
  requestID : String
  outcome : Option Outcome
  code : Option ResultCode
  steps : List DeploymentStep
  services : List DeploymentIdentity
deriving DecidableEq

/-- The empty result of a request. -/
def DeploymentResult.empty (deployment requestID : String) : DeploymentResult :=
  ⟨deployment, requestID, none, none, [], []⟩

/-- What a step answers. -/
structure StepAnswer where
  outcome : Outcome
  code : Option StepCode
  detail : String
deriving DecidableEq

def succeeded : StepAnswer := ⟨.succeeded, none, ""⟩

/-- The outcome is neither success nor a skip. -/
def failedStep (o : Outcome) : Bool := o ≠ .succeeded && o ≠ .skipped

/-! ## Bounds and grammars -/

def second : Int := 1000000000
def maxClockSkew : Int := 5 * 60 * second
def deploymentLifetime : Int := 15 * 60 * second
def maxDeploymentServices : Nat := 100
def maxDeploymentEnvEntries : Nat := 128
def maxDeploymentEnvValueBytes : Nat := 16 * 1024
def maxDeploymentEnvBytes : Nat := 64 * 1024
def maxDeploymentPorts : Nat := 64
def maxDeploymentStepDetailBytes : Nat := 256
def maxRegistryAuthHosts : Nat := 16
def maxRegistryAuthSecretBytes : Nat := 4096
def maxDeploymentVolumes : Nat := 64
def maxMountPathBytes : Nat := 4096
def maxMounts : Nat := 32
def maxLabels : Nat := 32
def maxLabelBytes : Nat := 256
def maxConfigurationLabelValueBytes : Nat := 4096
def maxArgv : Nat := 64
def maxArgvEntryBytes : Nat := 4096
def maxListEntries : Nat := 32
def maxListEntryBytes : Nat := 1024
def maxConfigurationNetworks : Nat := 16
def maxLogOptions : Nat := 16
def maxRestartCount : Int := 1000000
def maxKubernetesClaims : Nat := 16
def maxKubernetesMounts : Nat := 8
def explicitProject : String := "direct"
def explicitRevision : Int := 1
def accessReadWriteOnce : String := "ReadWriteOnce"

def deploymentUUID : Pattern :=
  let hex (n : Nat) : Pattern := .rep n n (.one Class.hex)
  .seq (hex 8) (.seq (.char '-') (.seq (hex 4) (.seq (.char '-') (.seq (hex 4) (.seq (.char '-')
    (.seq (hex 4) (.seq (.char '-') (hex 12))))))))

def deploymentProject : Pattern :=
  .seq (.one Class.alnum) (.rep 0 63 (.one (Class.orOf Class.alnum "_.-")))

def deploymentServiceName : Pattern :=
  .seq (.one fun c => Class.lower c || Class.digit c)
    (.rep 0 62 (.one (Class.orOf Class.lower "0123456789_-")))

def deploymentEnvName : Pattern :=
  .seq (.one fun c => Class.lower c || Class.upper c || c == '_')
    (.rep 0 127 (.one (Class.orOf Class.alnum "_")))

def deploymentVolume : Pattern :=
  .seq (.one Class.alnum) (.rep 1 128 (.one (Class.orOf Class.alnum "_.-")))

/-- The id of a request. -/
def validRequestID (s : String) : Bool :=
  (Pattern.rep 1 64 (.one (Class.orOf Class.alnum "_-"))).accepts s

/-- The id of a stream. -/
def execStreamID (s : String) : Bool :=
  (Pattern.rep 1 128 (.one (Class.orOf Class.alnum "_-"))).accepts s

/-- An image id in full. -/
def fullImageID (s : String) : Bool := imageID.accepts s

/-- A character `cleanText` drops: controls, line separators and bidirectional controls. -/
def unclean (c : Char) : Bool :=
  Text.isControl c || c.val == 0x2028 || c.val == 0x2029 ||
    (0x202a ≤ c.val && c.val ≤ 0x202e) || (0x2066 ≤ c.val && c.val ≤ 0x2069) || c.val == 0xfffd

/-- The characters of clean text, up to the last that fits in `max` bytes. -/
def cleanChars (max : Nat) : Nat → List Char → List Char
  | _, [] => []
  | used, c :: cs =>
    if unclean c then cleanChars max used cs
    else if max < used + c.utf8Size then []
    else c :: cleanChars max (used + c.utf8Size) cs

/-- Displayable text of at most `max` bytes. -/
def cleanText (s : String) (max : Nat) : String := String.ofList (cleanChars max 0 s.toList)

/-- Text that `cleanText` leaves alone. -/
def text (s : String) (max : Nat) : Bool := s.utf8ByteSize ≤ max && cleanText s max == s

/-- A value that may hold newlines: no NUL, at most `max` bytes. -/
def rawText (s : String) (max : Nat) : Bool :=
  s.utf8ByteSize ≤ max && !s.toList.contains (Char.ofNat 0)

/-- A format character. -/
def isFormat (c : Char) : Bool :=
  c.val ∈ [0xad, 0x61c, 0x6dd, 0x70f, 0x8e2, 0x180e, 0xfeff, 0x110bd, 0x110cd, 0xe0001] ||
    [(0x600, 0x605), (0x890, 0x891), (0x200b, 0x200f), (0x202a, 0x202e), (0x2060, 0x2064),
      (0x2066, 0x206f), (0xfff9, 0xfffb), (0x13430, 0x1343f), (0x1bca0, 0x1bca3),
      (0x1d173, 0x1d17a), (0xe0020, 0xe007f)].any fun (lo, hi) => lo ≤ c.val && c.val ≤ hi

/-- An absolute path in canonical form, not the root, that displays as it is. -/
def cleanAbsolute (p : String) : Bool :=
  1 < p.utf8ByteSize && p.utf8ByteSize ≤ maxMountPathBytes && Text.cleanAbsolute p &&
    cleanText p maxMountPathBytes == p && !p.toList.any isFormat

/-! ## Checks of a service -/

/-- A target in the Docker shape: full ids and a creation time. -/
def InspectionTarget.valid (t : InspectionTarget) : Bool :=
  validContainerHexID t.containerID && fullImageID t.imageID && 0 < t.createdUnix

/-- The host address a port binds: the IPv4 wildcard, the IPv6 one, another, or none for a port that
is exposed but unpublished. -/
inductive BindAddress
  | exposed
  | v4Any
  | v6Any
  | ip (s : String)
deriving DecidableEq

/-- One published port as the runtime binds it. -/
structure Binding where
  ip : BindAddress
  port : Int
  protocol : PortProtocol
deriving DecidableEq

def portNumber (n : Int) : Bool := 1 ≤ n && n ≤ 65535

def PortProtocol.known (p : PortProtocol) : Bool := p == .tcp || p == .udp

/-- The binding of a port, if it is valid. A host address is allowed only with `hostIP`; with
`exposed`, host port 0 is a port that is not published. -/
def Port.binding? (hostIP exposed : Bool) (p : Port) : Option Binding :=
  if exposed && p.host == 0 then
    if portNumber p.container && p.protocol.known && p.hostIP == "" then
      some ⟨.exposed, p.container, p.protocol⟩ else none
  else if !(portNumber p.container && portNumber p.host && p.protocol.known &&
      (p.hostIP == "" || hostIP)) then none
  else if p.hostIP == "" then some ⟨.v4Any, p.host, p.protocol⟩
  else match Addr.parse? p.hostIP with
    | none => none
    | some ip =>
      if ip.zone ≠ "" then none
      else match ip with
        | .v4 _ => some ⟨if ip.isUnspecified then .v4Any else .ip ip.text, p.host, p.protocol⟩
        | .v6 _ _ => some ⟨if ip.isUnspecified then .v6Any else .ip ip.text, p.host, p.protocol⟩

/-- The bindings of lists of ports, if each list is short enough, every port is valid and no binding
occurs twice. -/
def validPorts (lists : List (List Port)) (hostIP exposed : Bool) : Bool :=
  lists.all (fun ports => ports.length ≤ maxDeploymentPorts) &&
    match lists.flatten.mapM (Port.binding? hostIP exposed) with
    | some bindings => decide bindings.Nodup
    | none => false

/-- Names allowed, values within bounds. -/
def validEnv (env : Dict String) (name : String → Bool) : Bool :=
  env.size ≤ maxDeploymentEnvEntries &&
    (env.entries.all fun e => name e.1 && rawText e.2 maxDeploymentEnvValueBytes) &&
    (env.entries.map fun e => e.1.utf8ByteSize + e.2.utf8ByteSize).sum ≤ maxDeploymentEnvBytes

/-- An environment name as Docker takes it. -/
def configurationEnvName (n : String) : Bool :=
  n ≠ "" && n.utf8ByteSize ≤ 128 && !n.toList.contains '=' && !n.toList.contains (Char.ofNat 0)

/-- Mounts at distinct clean targets; `tmpfs` only where it is allowed. -/
def validMounts (mounts : List Mount) (tmpfs : Bool) : Bool :=
  mounts.length ≤ maxMounts && decide (mounts.map Mount.target).Nodup && mounts.all fun m =>
    cleanAbsolute m.target && match m.kind with
      | .volume => deploymentVolume.accepts m.source
      | .bind => cleanAbsolute m.source
      | .tmpfs => tmpfs && m.source == ""
      | .other _ => false

/-- The registry host a reference names, empty if none. -/
def ImagePull.host (p : ImagePull) : String :=
  if validImageReference p.reference then
    match Text.cut (splitImageReference p.reference).1 "/" with
    | some (first, _) =>
      if first.toList.any (fun c => c == '.' || c == ':') || first == "localhost" then first else ""
    | none => ""
  else ""

/-- A digest, and a reference at it. -/
def ImagePull.valid (p : ImagePull) : Bool :=
  let (name, digest) := splitImageReference p.reference
  p.host ≠ "" && imageID.accepts digest && digest == p.digest &&
    (p.tag == "" || (validImageReference p.tag && !Text.contains p.tag "@" &&
      (splitImageReference p.tag).2 ≠ "" && (splitImageReference p.tag).1 == name))

/-- A network namespace mode rather than a network. -/
def namespaceNetwork (name : String) : Bool := name == "host" || Text.hasPrefix name "container:"

/-- A short list of clean texts. -/
def textList (l : List String) (max : Nat) : Bool :=
  l.length ≤ maxListEntries && l.all (text · max)

/-- An argument vector within bounds. -/
def rawArgv (l : List String) : Bool := l.length ≤ maxArgv && l.all (rawText · maxArgvEntryBytes)

/-- An address, if any. -/
def validIPOrEmpty (s : String) : Bool :=
  s == "" || (Addr.parse? s).any fun a => a.zone == ""

/-- Names and address are valid. -/
def NetworkAttachmentSpec.valid (n : NetworkAttachmentSpec) : Bool :=
  n.name ≠ "" && text n.name 256 && !namespaceNetwork n.name && textList n.aliases 256 &&
    validIPOrEmpty n.ip

/-- A bounded test, times in range. -/
def Healthcheck.valid (h : Healthcheck) : Bool :=
  let time (t : Rat) : Bool := 0 ≤ t && t ≤ 1000000000000
  rawArgv h.test && time h.intervalSeconds && time h.timeoutSeconds &&
    time h.startPeriodSeconds && 0 ≤ h.retries && h.retries ≤ 1000

/-- Paths and permissions. -/
def Device.valid (d : Device) : Bool :=
  text d.host maxListEntryBytes && d.host ≠ "" && text d.container maxListEntryBytes &&
    d.container ≠ "" && (Pattern.rep 1 3 (.one fun c => c ∈ ['r', 'w', 'm'])).accepts d.permissions

/-- Labels within bounds. -/
def validLabels (labels : Dict String) : Bool :=
  labels.size ≤ maxLabels && labels.entries.all fun e => e.1 ≠ "" && text e.1 maxLabelBytes &&
    text e.2 maxConfigurationLabelValueBytes

/-- A driver with few options. -/
def LogConfig.valid (l : LogConfig) : Bool :=
  text l.driver 64 && l.options.size ≤ maxLogOptions && l.options.entries.all fun e =>
    e.1 ≠ "" && text e.1 256 && text e.2 256

/-- Limits, or -1 for none. -/
def Resources.valid (r : Resources) : Bool :=
  0 ≤ r.nanoCPUs && 0 ≤ r.memoryBytes && -1 ≤ r.memorySwapBytes && -1 ≤ r.pidsLimit

/-- Every setting is valid. -/
def ExplicitService.valid (e : ExplicitService) : Bool :=
  rawArgv (e.command.getD []) && rawArgv (e.entrypoint.getD []) && text e.user 256 &&
    text e.workingDir maxMountPathBytes && text e.hostname 256 && text e.networkMode 256 &&
    text e.stopSignal 32 && (e.stopTimeout.all fun t => 0 ≤ t && t ≤ 3600) &&
    0 ≤ e.restartRetries && e.restartRetries ≤ maxRestartCount &&
    ([e.capAdd, e.capDrop, e.securityOpt, e.extraHosts, e.dns].all (textList · maxListEntryBytes)) &&
    e.resources.valid && validLabels e.labels && e.networks.length ≤ maxConfigurationNetworks &&
    e.networks.all NetworkAttachmentSpec.valid &&
    decide (e.networks.map NetworkAttachmentSpec.name).Nodup && e.healthcheck.all Healthcheck.valid &&
    e.devices.length ≤ maxListEntries && e.devices.all Device.valid && e.log.valid &&
    e.acknowledgedBinds.length ≤ maxMounts && e.acknowledgedBinds.all cleanAbsolute

/-! ## Checks of a request -/

/-- Why a request is refused. -/
inductive RequestError
  | clockSkew
  | invalid
deriving DecidableEq

/-- A frame has an issue time close to the reader's clock, and a deadline after it. -/
def issued (issuedAt : Option Int) (deadline now : Int) : Except RequestError Unit :=
  match issuedAt with
  | none => .error .invalid
  | some t =>
    if maxClockSkew < now - t ∨ now - t < -maxClockSkew then .error .clockSkew
    else if deadline ≤ t ∨ t + deploymentLifetime < deadline then .error .invalid
    else .ok ()

/-- The result of a frame that was refused, with no step run. A request id that is not valid is not
echoed. -/
def refused (res : DeploymentResult) (e : RequestError) : DeploymentResult :=
  let res := if validRequestID res.requestID then res else { res with requestID := "" }
  match e with
  | .clockSkew => { res with outcome := some .failed, code := some .clockSkew }
  | .invalid => { res with outcome := some .denied, code := some .invalidRequest }

/-- A service of a Docker frame. -/
def DeploymentService.validDocker (explicit : Bool) (s : DeploymentService) : Bool :=
  deploymentServiceName.accepts s.name && validContainerID s.containerName &&
    (match s.pull with
      | none => fullImageID s.imageID
      | some p => s.imageID == "" && p.valid) &&
    (s.replaces.valid || (explicit && s.replaces == .zero)) &&
    s.restart ∈ [.unset, .no, .always, .unlessStopped, .onFailure] && s.secretKeys.isEmpty &&
    s.volumes.isEmpty && s.clusterIP == "" && s.explicit.isSome == explicit &&
    (s.explicit.all fun e => e.valid && (e.restartRetries ≤ 0 || s.restart == .onFailure)) &&
    (s.mounts.any fun m => validMounts m explicit) &&
    validEnv s.env (if explicit then configurationEnvName else deploymentEnvName.accepts)

/-- The volumes some service mounts. -/
def DeploymentRequest.mounted (r : DeploymentRequest) : List String :=
  r.services.flatMap fun s => s.mountList.filterMap fun m =>
    if m.kind = .volume then some m.source else none

/-- The hosts some service pulls from. -/
def DeploymentRequest.pulled (r : DeploymentRequest) : List String :=
  r.services.filterMap fun s => s.pull.map ImagePull.host

/-- A Docker frame: services under distinct names, container names and targets, and exactly the
volumes and credentials they need. -/
def DeploymentRequest.validDocker (r : DeploymentRequest) : Bool :=
  (!r.explicit || (r.services.length == 1 && r.project == explicitProject &&
    r.revision == explicitRevision)) &&
    r.services.all (·.validDocker r.explicit) &&
    decide (r.services.map DeploymentService.name).Nodup &&
    decide (r.services.map DeploymentService.containerName).Nodup &&
    decide (r.services.map fun s => s.replaces.containerID).Nodup &&
    validPorts (r.services.map DeploymentService.ports) true r.explicit &&
    r.volumes.length ≤ maxDeploymentVolumes && decide r.volumes.Nodup &&
    (r.volumes.all r.mounted.contains) && (r.mounted.all r.volumes.contains) &&
    r.registries.size ≤ maxRegistryAuthHosts && r.registries.entries.all fun e =>
      r.pulled.contains e.1 && e.2.secret ≠ "" && rawText e.2.secret maxRegistryAuthSecretBytes &&
        e.2.username.utf8ByteSize ≤ 255

/-- A claim size in bytes: a whole number of Mi, Gi or Ti, at most 16Ti. -/
def storageSizeBytes (s : String) : Option Nat :=
  let cs := s.toList
  let number := cs.takeWhile Class.digit
  let unit := cs.dropWhile Class.digit
  let shift := if unit = "Mi".toList then some 20 else if unit = "Gi".toList then some 30
    else if unit = "Ti".toList then some 40 else none
  shift.bind fun k =>
    if number.length ≤ 6 ∧ number.headD '0' ≠ '0' then
      let bytes := Text.digitsValue number * 2 ^ k
      if bytes ≤ 16 * 2 ^ 40 then some bytes else none
    else none

/-- The cluster default, or a subdomain. -/
def validStorageClass (s : String) : Bool := s == "" || validDNSSubdomain s

/-- A canonical unicast address. -/
def validClusterIP (s : String) : Bool :=
  match Addr.parse? s with
  | some ip => ip.zone == "" && !ip.is4In6 && ip.isGlobalUnicast && ip.text == s
  | none => false

/-- A name, a size, known access. -/
def KubernetesClaim.valid (c : KubernetesClaim) : Bool :=
  validDNSLabel c.name && validStorageClass c.storageClass && (storageSizeBytes c.size).isSome &&
    c.accessMode == accessReadWriteOnce

/-- A namespace, ids and a digest. -/
def KubernetesTarget.valid (k : KubernetesTarget) : Bool :=
  validDNSLabel k.ns && deploymentUUID.accepts k.applicationID &&
    deploymentUUID.accepts k.instanceID && imageID.accepts k.specDigest

/-- Distinct claims, each mounted by exactly one service, at distinct clean paths. -/
def validClaims (claims : List KubernetesClaim) (services : List DeploymentService) : Bool :=
  claims.length ≤ maxKubernetesClaims && claims.all KubernetesClaim.valid &&
    decide (claims.map KubernetesClaim.name).Nodup &&
    (services.all fun s => s.volumes.length ≤ maxKubernetesMounts &&
      decide (s.volumes.map KubernetesMount.mountPath).Nodup && s.volumes.all fun m =>
        (claims.any fun c => c.name == m.claim) && cleanAbsolute m.mountPath &&
          services.all fun t => t.name == s.name || !t.volumes.any fun n => n.claim == m.claim) &&
    claims.all fun c => services.any fun s => s.volumes.any fun m => m.claim == c.name

/-- A service of a cluster frame: no Docker field, an image by digest. -/
def DeploymentService.validKubernetes (s : DeploymentService) : Bool :=
  deploymentServiceName.accepts s.name && s.containerName == "" && s.imageID == "" &&
    (s.pull.any fun p => p.valid && p.tag == "") && s.replaces == .zero && s.mountList.isEmpty &&
    s.restart ∈ [.unset, .always, .unlessStopped] &&
    (s.clusterIP == "" || (validClusterIP s.clusterIP && !s.ports.isEmpty)) &&
    validPorts [s.ports] false false && validEnv s.env deploymentEnvName.accepts &&
    s.secretKeys.all s.env.contains && decide (s.secretKeys.Pairwise fun a b => Text.le b a = false)

/-- The checks of a cluster request. -/
def DeploymentRequest.validKubernetes (r : DeploymentRequest) (k : KubernetesTarget) : Bool :=
  k.valid && r.volumes.isEmpty && r.registries.size == 0 &&
    r.services.all DeploymentService.validKubernetes &&
    decide (r.services.map DeploymentService.name).Nodup &&
    decide ((r.services.map DeploymentService.clusterIP).filter (· ≠ "")).Nodup &&
    validClaims k.claims r.services

/-- Refuses anything the adapter would have to guess about. -/
def DeploymentRequest.validate (r : DeploymentRequest) (now : Int) : Except RequestError Unit :=
  if !(deploymentUUID.accepts r.deployment && validRequestID r.requestID &&
      execStreamID r.endpoint && deploymentProject.accepts r.project && 1 ≤ r.revision &&
      r.revision ≤ 100) then .error .invalid
  else match issued r.issuedAt r.deadline now with
    | .error e => .error e
    | .ok () =>
      if r.deadline ≤ now ∨ now + deploymentLifetime < r.deadline then .error .invalid
      else if r.services = [] ∨ maxDeploymentServices < r.services.length then .error .invalid
      else match r.kubernetes with
        | some k => if !r.explicit && r.validKubernetes k then .ok () else .error .invalid
        | none => if r.validDocker then .ok () else .error .invalid

/-- The runtime of an agent. -/
inductive Runtime
  | docker
  | kubernetes
deriving DecidableEq

/-- `validate`, holding the frame to the agent's runtime. -/
def DeploymentRequest.validateFor (r : DeploymentRequest) (runtime : Runtime) (now : Int) :
    Except RequestError Unit :=
  if r.kubernetes.isSome ≠ (runtime == .kubernetes) then .error .invalid else r.validate now

/-! ## Removals -/

/-- A container to remove, pinned. -/
structure RemovalTarget where
  service : String
  target : InspectionTarget
deriving DecidableEq

/-- The removal of an application: its containers by their pinned targets or, on a cluster, the
services whose objects the agent deletes. -/
structure RemovalRequest where
  deployment : String
  requestID : String
  endpoint : String
  project : String
  issuedAt : Option Int
  deadline : Int
  containers : List RemovalTarget
  kubernetes : Option KubernetesTarget
  services : List String

def maxRemovalTargets : Nat := 100

def validServiceName (s : String) : Bool := deploymentServiceName.accepts s

/-- A cluster removal: a target without claims, and distinct services. -/
def RemovalRequest.validKubernetes (r : RemovalRequest) (k : KubernetesTarget) : Bool :=
  k.valid && k.claims.isEmpty && r.containers.isEmpty && !r.services.isEmpty &&
    r.services.length ≤ maxRemovalTargets && r.services.all validServiceName &&
    decide r.services.Nodup

/-- A Docker removal: containers of distinct services under distinct targets. -/
def RemovalRequest.validDocker (r : RemovalRequest) : Bool :=
  r.services.isEmpty && !r.containers.isEmpty && r.containers.length ≤ maxRemovalTargets &&
    (r.containers.all fun c => validServiceName c.service && c.target.valid) &&
    decide (r.containers.map RemovalTarget.service).Nodup &&
    decide (r.containers.map fun c => c.target.containerID).Nodup

/-- The checks of a removal. -/
def RemovalRequest.validate (r : RemovalRequest) (now : Int) : Except RequestError Unit :=
  if !(deploymentUUID.accepts r.deployment && validRequestID r.requestID &&
      execStreamID r.endpoint && deploymentProject.accepts r.project) then .error .invalid
  else match issued r.issuedAt r.deadline now with
    | .error e => .error e
    | .ok () =>
      if r.deadline ≤ now ∨ now + deploymentLifetime < r.deadline then .error .invalid
      else match r.kubernetes with
        | some k => if r.validKubernetes k then .ok () else .error .invalid
        | none => if r.validDocker then .ok () else .error .invalid

/-- `validate`, holding the frame to the agent's runtime. -/
def RemovalRequest.validateFor (r : RemovalRequest) (runtime : Runtime) (now : Int) :
    Except RequestError Unit :=
  if r.kubernetes.isSome ≠ (runtime == .kubernetes) then .error .invalid else r.validate now

/-! ## What a valid frame promises -/

/-- Services under distinct names, container names and targets, one only in an explicit frame. -/
structure DeploymentRequest.Docker (r : DeploymentRequest) : Prop where
  names_nodup : (r.services.map DeploymentService.name).Nodup
  containerNames_nodup : (r.services.map DeploymentService.containerName).Nodup
  targets_nodup : (r.services.map fun s => s.replaces.containerID).Nodup
  service_valid : ∀ s ∈ r.services, s.validDocker r.explicit = true
  explicit_single : r.explicit = true → r.services.length = 1

theorem docker_of_validateFor {r : DeploymentRequest} {now : Int}
    (h : r.validateFor .docker now = .ok ()) : r.Docker := by
  unfold DeploymentRequest.validateFor at h
  split at h
  · cases h
  next hk =>
  have hnone : r.kubernetes = none := by
    cases hr : r.kubernetes with
    | none => rfl
    | some => simp [hr] at hk
  have hvalid : r.validDocker = true := by
    unfold DeploymentRequest.validate at h
    rw [hnone] at h
    split at h
    · cases h
    split at h
    · cases h
    split at h
    · cases h
    split at h
    · cases h
    by_contra hv
    simp [hv] at h
  simp only [DeploymentRequest.validDocker, Bool.and_eq_true, decide_eq_true_eq,
    List.all_eq_true] at hvalid
  obtain ⟨⟨⟨⟨⟨⟨⟨⟨⟨⟨⟨he, hs⟩, hn⟩, hc⟩, ht⟩, -⟩, -⟩, -⟩, -⟩, -⟩, -⟩, -⟩ := hvalid
  refine ⟨hn, hc, ht, hs, fun hx => ?_⟩
  simp only [hx, Bool.not_true, Bool.false_or, Bool.and_eq_true, beq_iff_eq] at he
  exact he.1.1

end KyYard.Protocol
