import KyYard.Docker.Inspection

/-!
# The create body

The whole configuration of a container the adapter creates: the definition's subset with the
Compose labels discovery groups by, or every setting of an explicit frame as given.
-/

namespace KyYard.Docker

open Foundation Protocol

/-- How a container joins one network. -/
structure EndpointSettings where
  aliases : List String
  ipv4Address : Option String
deriving DecidableEq

/-- A mount of a create. -/
structure MountSpec where
  kind : MountKind
  source : String
  target : String
  readOnly : Bool
deriving DecidableEq

/-- The body of a create request; an absent field takes the daemon's default. -/
structure ContainerCreate where
  image : String
  env : List String
  labels : Dict String
  exposedPorts : List String
  cmd : Option (List String)
  entrypoint : Option (List String)
  user : String
  workingDir : String
  hostname : String
  macAddress : String
  tty : Bool
  openStdin : Bool
  stopSignal : String
  stopTimeout : Option Int
  healthcheck : Option EngineHealthcheck
  networkMode : String
  portBindings : Dict (List PortBinding)
  mounts : List MountSpec
  restartName : Restart
  restartRetries : Int
  memory : Int
  memorySwap : Int
  nanoCpus : Int
  pidsLimit : Int
  privileged : Bool
  readonlyRootfs : Bool
  init : Bool
  capAdd : List String
  capDrop : List String
  securityOpt : List String
  extraHosts : List String
  dns : List String
  devices : List EngineDevice
  log : Option LogConfig
  network : Option (String × EndpointSettings)
deriving DecidableEq

/-- The key of a container port. -/
def portKey (p : Port) : String := Text.itoaInt p.container ++ "/" ++ p.protocol.text

/-- A value appended to the list at a key. -/
def appendAt {V : Type} (d : Dict (List V)) (k : String) (v : V) : Dict (List V) :=
  d.insert k ((d.get? k).getD [] ++ [v])

/-- The published bindings, by container port; host port 0 is exposed only. -/
def bindPorts (ports : List Port) : Dict (List PortBinding) :=
  ports.foldl (fun d p => if 0 < p.host then
    appendAt d (portKey p) ⟨p.hostIP, Text.itoaInt p.host⟩ else d) Dict.empty

/-- Nanoseconds of seconds, rounded to the nearest, halves away from zero. -/
def nanoseconds (s : Rat) : Int :=
  let x := s * (second : Rat)
  if 0 ≤ x then (x + 1 / 2).floor else -((-x + 1 / 2).floor)

/-- A healthcheck in the Engine's units. -/
def engineHealthcheck (h : Healthcheck) : EngineHealthcheck where
  test := h.test
  interval := nanoseconds h.intervalSeconds
  timeout := nanoseconds h.timeoutSeconds
  startPeriod := nanoseconds h.startPeriodSeconds
  retries := h.retries

/-- The network that create joins: the network mode's, else the first; and the rest, connected
afterwards. -/
def attachments (e : ExplicitService) : Option NetworkAttachmentSpec × List NetworkAttachmentSpec :=
  match e.networks with
  | [] => (none, [])
  | n :: ns =>
    let mode := if e.networkMode = "" ∨ e.networkMode = "default" then "bridge" else e.networkMode
    let i := (e.networks.findIdx? fun n => n.name == mode).getD 0
    (some (e.networks.getD i n), (n :: ns).eraseIdx i)

/-- How a network is joined. -/
def endpoint (n : NetworkAttachmentSpec) : EndpointSettings where
  aliases := n.aliases
  ipv4Address := if n.ip = "" then none else some n.ip

/-- Every explicit setting as given, with no label or network added. -/
def explicitBody (body : ContainerCreate) (e : ExplicitService) : ContainerCreate :=
  let first := (attachments e).1
  { body with
    labels := e.labels
    cmd := e.command
    entrypoint := e.entrypoint
    user := e.user
    workingDir := e.workingDir
    hostname := e.hostname
    tty := e.tty
    openStdin := e.stdinOpen
    stopSignal := e.stopSignal
    stopTimeout := e.stopTimeout
    healthcheck := e.healthcheck.map engineHealthcheck
    restartRetries := e.restartRetries
    memory := e.resources.memoryBytes
    memorySwap := e.resources.memorySwapBytes
    nanoCpus := e.resources.nanoCPUs
    pidsLimit := e.resources.pidsLimit
    privileged := e.privileged
    readonlyRootfs := e.readOnlyRootfs
    init := e.init
    capAdd := e.capAdd
    capDrop := e.capDrop
    securityOpt := e.securityOpt
    extraHosts := e.extraHosts
    dns := e.dns
    devices := e.devices.map fun d => ⟨d.host, d.container, d.permissions⟩
    log := if e.log.driver = "" then none else some e.log
    networkMode := match first with
      | some n => if e.networkMode = "" ∧ ¬namespaceNetwork n.name then n.name else e.networkMode
      | none => e.networkMode
    network := first.map fun n => (n.name, endpoint n) }

/-- The labels discovery groups Compose containers by, and those of the deployment. -/
def composeLabels (req : DeploymentRequest) (s : DeploymentService) : Dict String where
  entries := [("com.docker.compose.project", req.project), ("com.docker.compose.service", s.name),
    ("com.docker.compose.container-number", "1"), ("com.docker.compose.oneoff", "False"),
    ("com.docker.compose.config-hash", ""), ("kyyard.deployment", req.deployment),
    ("kyyard.revision", Text.itoaInt req.revision)]
  nodup := by simp

/-- The network a Compose project's containers run on. -/
def projectNetwork (req : DeploymentRequest) : String := req.project ++ "_default"

/-- The image a service is created from: the id, or for a pulled one the reference at its digest. -/
def createImage (s : DeploymentService) : String :=
  match s.pull with
  | none => s.imageID
  | some p => if p.tag = "" then p.reference else p.tag ++ "@" ++ p.digest

/-- The create body of a service. -/
def createBody (req : DeploymentRequest) (s : DeploymentService) (networkMode : String) :
    ContainerCreate :=
  let body : ContainerCreate := {
    image := createImage s
    env := (s.env.entries.insertionSort fun a b => Text.le a.1 b.1 = true).map fun e =>
      e.1 ++ "=" ++ e.2
    labels := Dict.empty
    exposedPorts := (s.ports.map portKey).dedup
    cmd := none
    entrypoint := none
    user := ""
    workingDir := ""
    hostname := ""
    macAddress := ""
    tty := false
    openStdin := false
    stopSignal := ""
    stopTimeout := none
    healthcheck := none
    networkMode := ""
    portBindings := bindPorts s.ports
    mounts := s.mountList.map fun m => ⟨m.kind, m.source, m.target, m.readOnly⟩
    restartName := if s.restart = .unset then .no else s.restart
    restartRetries := 0
    memory := 0
    memorySwap := 0
    nanoCpus := 0
    pidsLimit := 0
    privileged := false
    readonlyRootfs := false
    init := false
    capAdd := []
    capDrop := []
    securityOpt := []
    extraHosts := []
    dns := []
    devices := []
    log := none
    network := none }
  match s.explicit with
  | some e => explicitBody body e
  | none =>
    let body := { body with labels := composeLabels req s }
    if networkMode = projectNetwork req then
      { body with
        networkMode := projectNetwork req
        network := some (projectNetwork req, ⟨[s.name], none⟩) }
    else body

end KyYard.Docker
