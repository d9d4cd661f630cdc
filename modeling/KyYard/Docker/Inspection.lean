import KyYard.Foundation.Json
import KyYard.Protocol.Frame

/-!
# Container inspections

What the Engine answers about a container (`Inspection`), as the adapter decodes it: the typed
fields its structures name, and every key of the configuration by name (`RawInspection`), so that a
setting no typed field names is seen too.

On it stand the checks of a replacement: `undescribed` lists what a definition cannot express,
`RawInspection.uncarried` what an explicit frame does not carry, and `overCap` what a configuration
read would cut.
-/

namespace KyYard.Docker

open Foundation Protocol

/-! ## Answers of the Engine -/

/-- A mount as the Engine lists it. -/
structure InspectedMount where
  kind : MountKind
  name : String
  source : String
  destination : String
  mode : String
  propagation : String
  rw : Bool
deriving DecidableEq

structure BindOptions where
  propagation : String
  nonRecursive : Bool
  readOnlyNonRecursive : Bool
  readOnlyForceRecursive : Bool
  createMountpoint : Bool
deriving DecidableEq

structure VolumeOptions where
  noCopy : Bool
  subpath : String
  driver : Option String
  driverOptions : Dict String
  labels : Dict String
deriving DecidableEq

structure TmpfsOptions where
  sizeBytes : Int
  mode : Int
  options : List (List String)
deriving DecidableEq

/-- A mount as it was asked for, with its options. -/
structure RequestedMount where
  consistency : String
  bindOptions : Option BindOptions
  volumeOptions : Option VolumeOptions
  tmpfsOptions : Option TmpfsOptions
deriving DecidableEq

/-- A healthcheck; times in nanoseconds. -/
structure EngineHealthcheck where
  test : List String
  interval : Int
  timeout : Int
  startPeriod : Int
  retries : Int
deriving DecidableEq

/-- No healthcheck: absent, no test, or the image's explicit `NONE`. -/
def noHealthcheck : Option EngineHealthcheck → Bool
  | none => true
  | some h => h.test == [] || h.test == ["NONE"]

/-- A device as the Engine has it. -/
structure EngineDevice where
  pathOnHost : String
  pathInContainer : String
  cgroupPermissions : String
deriving DecidableEq

/-- Where a port is published. -/
structure PortBinding where
  hostIP : String
  hostPort : String
deriving DecidableEq

/-- The container's own configuration. A nil argument list is `none`. -/
structure ContainerConfig where
  image : String
  user : String
  workingDir : String
  hostname : String
  stopSignal : String
  macAddress : String
  env : List String
  cmd : Option (List String)
  entrypoint : Option (List String)
  labels : Dict String
  exposedPorts : List String
  tty : Bool
  openStdin : Bool
  stopTimeout : Option Int
  healthcheck : Option EngineHealthcheck
deriving DecidableEq

/-- The host's side of a container's configuration. -/
structure HostConfig where
  networkMode : String
  privileged : Option Bool
  autoRemove : Option Bool
  readonlyRootfs : Option Bool
  init : Option Bool
  restartName : Restart
  restartRetries : Int
  portBindings : Dict (List PortBinding)
  tmpfs : Dict String
  sysctls : Dict String
  capAdd : List String
  capDrop : List String
  securityOpt : List String
  groupAdd : List String
  extraHosts : List String
  links : List String
  dns : List String
  dnsOptions : List String
  dnsSearch : List String
  devices : List EngineDevice
  ulimits : List String
  deviceRequests : List String
  pidMode : String
  ipcMode : String
  runtime : String
  usernsMode : String
  cgroupParent : String
  cpusetCpus : String
  memory : Int
  memorySwap : Int
  memoryReservation : Int
  nanoCpus : Int
  cpuShares : Int
  cpuQuota : Int
  pidsLimit : Option Int
  volumesFrom : List String
  volumeDriver : String
  mounts : List RequestedMount
  logType : String
  logConfig : Dict String
deriving DecidableEq

/-- One network of a container. -/
structure Endpoint where
  aliases : List String
  ipv4Address : Option String
deriving DecidableEq

/-- The networks of a container. -/
structure NetworkSettings where
  networks : Dict Endpoint
  ports : Dict (List PortBinding)
deriving DecidableEq

/-- A container's state, in the Engine's words. -/
inductive ContainerStatus
  | created
  | running
  | paused
  | restarting
  | removing
  | exited
  | dead
  | other (s : String)
deriving DecidableEq

/-- What a health check says. -/
inductive HealthStatus
  | unset
  | none
  | starting
  | healthy
  | unhealthy
  | other (s : String)
deriving DecidableEq

/-- How a container stands. -/
structure ContainerState where
  status : ContainerStatus
  running : Bool
  paused : Bool
  health : Option HealthStatus
deriving DecidableEq

/-- The same container by key. -/
structure RawInspection where
  config : Dict Json
  hostConfig : Dict Json
  networks : Option (Dict (Dict Json))

/-- One container as the Engine reports it; a field it did not report is `none`. -/
structure Inspection where
  id : String
  image : String
  name : String
  createdUnix : Int
  mounts : Option (List InspectedMount)
  config : Option ContainerConfig
  hostConfig : Option HostConfig
  networkSettings : Option NetworkSettings
  state : Option ContainerState
  restartCount : Option Int
  raw : RawInspection

/-- The image's side of a configuration. -/
structure ImageConfig where
  user : String
  workingDir : String
  stopSignal : String
  cmd : Option (List String)
  entrypoint : Option (List String)
  healthcheck : Option EngineHealthcheck
deriving DecidableEq

/-- What is read of an image. -/
structure ImageInspection where
  id : String
  repoDigests : List String
  config : ImageConfig

/-- What is read of a volume. -/
structure VolumeInspection where
  driver : String
  labels : Dict String
  options : Dict String

/-! ## Codes -/

/-- Configuration the product cannot take over, in the order it is reported. -/
inductive UnsupportedCode
  | mountType | anonymousVolume | volumesFrom | volumeDriver | mountOptions | tmpfs | autoRemove
  | readOnlyRootfs | privileged | capabilities | securityOpt | devices | pidMode | ipcMode | user
  | runtime | resourceLimits | ulimits | sysctls | deviceRequests | init | usernsMode
  | cgroupParent | groupAdd | extraHosts | dns | links | network | imageConfig
deriving DecidableEq

def UnsupportedCode.text : UnsupportedCode → String
  | mountType => "mount_type" | anonymousVolume => "anonymous_volume"
  | volumesFrom => "volumes_from" | volumeDriver => "volume_driver"
  | mountOptions => "mount_options" | tmpfs => "tmpfs" | autoRemove => "auto_remove"
  | readOnlyRootfs => "read_only_rootfs" | privileged => "privileged"
  | capabilities => "capabilities" | securityOpt => "security_opt" | devices => "devices"
  | pidMode => "pid_mode" | ipcMode => "ipc_mode" | user => "user" | runtime => "runtime"
  | resourceLimits => "resource_limits" | ulimits => "ulimits" | sysctls => "sysctls"
  | deviceRequests => "device_requests" | init => "init" | usernsMode => "userns_mode"
  | cgroupParent => "cgroup_parent" | groupAdd => "group_add" | extraHosts => "extra_hosts"
  | dns => "dns" | links => "links" | network => "network" | imageConfig => "image_config"

/-- Every code, in the order of the vocabulary. -/
def unsupportedCodes : List UnsupportedCode :=
  [.mountType, .anonymousVolume, .volumesFrom, .volumeDriver, .mountOptions, .tmpfs, .autoRemove,
    .readOnlyRootfs, .privileged, .capabilities, .securityOpt, .devices, .pidMode, .ipcMode, .user,
    .runtime, .resourceLimits, .ulimits, .sysctls, .deviceRequests, .init, .usernsMode,
    .cgroupParent, .groupAdd, .extraHosts, .dns, .links, .network, .imageConfig]

/-- The codes of settings an explicit service cannot express. -/
def configurationOnlyCodes : List UnsupportedCode :=
  [.volumesFrom, .volumeDriver, .mountOptions, .ulimits, .sysctls, .deviceRequests, .pidMode,
    .ipcMode, .usernsMode, .cgroupParent, .groupAdd, .links, .runtime, .anonymousVolume]

/-- A code with an Engine key: a setting no configuration field carries. -/
inductive ConfigurationCode
  | known (c : UnsupportedCode)
  | hostConfig (key : String)
deriving DecidableEq

def ConfigurationCode.text : ConfigurationCode → String
  | known c => c.text
  | hostConfig key => "host_config:" ++ key

/-! ## Typed checks -/

/-- The Engine returned every field the checks read through a pointer. -/
def reported (i : Inspection) : Bool :=
  match i.hostConfig with
  | some h => i.config.isSome && i.networkSettings.isSome && i.mounts.isSome &&
      h.privileged.isSome && h.autoRemove.isSome && h.readonlyRootfs.isSome
  | none => false

/-- The parts of a text between commas. -/
def commaParts (s : String) : List String := (s.toList.splitOn ',').map String.ofList

/-- A propagation other than the default. -/
def propagates (p : String) : Bool := p ≠ "" && p ≠ "rprivate"

/-- A bind option the recreate would drop. -/
def BindOptions.drops (b : BindOptions) : Bool :=
  propagates b.propagation || b.nonRecursive || b.readOnlyNonRecursive || b.readOnlyForceRecursive

/-- A volume option the recreate would drop. -/
def VolumeOptions.drops (v : VolumeOptions) : Bool :=
  v.noCopy || v.subpath ≠ "" || v.driver.any fun n => n ≠ "" && n ≠ "local"

/-- A tmpfs option the recreate would drop. -/
def TmpfsOptions.drops (t : TmpfsOptions) : Bool :=
  t.sizeBytes ≠ 0 || t.mode ≠ 0 || !t.options.isEmpty

/-- An option on the old container's mounts that the recreate would drop. -/
def mountOptions (h : HostConfig) (mounts : List InspectedMount) : Bool :=
  (h.tmpfs.entries.any fun e =>
    (commaParts e.2).any fun o => o ≠ "" && o ≠ "rw" && o ≠ "ro") ||
  (mounts.any fun m => propagates m.propagation || (commaParts m.mode).contains "nocopy") ||
  h.mounts.any fun m => m.bindOptions.any BindOptions.drops ||
    m.volumeOptions.any VolumeOptions.drops || m.tmpfsOptions.any TmpfsOptions.drops

/-- The name Docker generates for a volume nobody named. -/
def anonymousVolume (name : String) : Bool := (Pattern.rep 64 64 (.one Class.hex)).accepts name

/-- The configuration a recreate from a definition would drop, as codes in their order. -/
def undescribed (c : ContainerConfig) (h : HostConfig) (n : NetworkSettings)
    (mounts : List InspectedMount) (imageUser projectNetwork defaultRuntime : String) :
    List UnsupportedCode :=
  let network := if h.networkMode = "default" ∨ h.networkMode = "bridge" then "bridge"
    else projectNetwork
  let checks : List (UnsupportedCode × Bool) := [
    (.mountType, mounts.any fun m => m.kind ≠ .volume && m.kind ≠ .bind),
    (.anonymousVolume, mounts.any fun m => m.kind == .volume && anonymousVolume m.name),
    (.volumesFrom, !h.volumesFrom.isEmpty),
    (.volumeDriver, h.volumeDriver ≠ "" && h.volumeDriver ≠ "local"),
    (.mountOptions, mountOptions h mounts),
    (.tmpfs, h.tmpfs.size ≠ 0),
    (.autoRemove, h.autoRemove.getD false),
    (.readOnlyRootfs, h.readonlyRootfs.getD false),
    (.privileged, h.privileged.getD false),
    (.capabilities, !h.capAdd.isEmpty || !h.capDrop.isEmpty),
    (.securityOpt, !h.securityOpt.isEmpty),
    (.devices, !h.devices.isEmpty),
    (.pidMode, h.pidMode ≠ "" && h.pidMode ≠ "private"),
    (.ipcMode, h.ipcMode ≠ "" && h.ipcMode ≠ "private" && h.ipcMode ≠ "shareable"),
    (.user, c.user ≠ imageUser),
    (.runtime, h.runtime ≠ "" && h.runtime ≠ defaultRuntime),
    (.resourceLimits, 0 < h.memory || 0 < h.memorySwap || 0 < h.memoryReservation ||
      0 < h.nanoCpus || 0 < h.cpuShares || 0 < h.cpuQuota || h.cpusetCpus ≠ "" ||
      h.pidsLimit.any (· ≠ 0)),
    (.ulimits, !h.ulimits.isEmpty),
    (.sysctls, h.sysctls.size ≠ 0),
    (.deviceRequests, !h.deviceRequests.isEmpty),
    (.init, h.init.getD false),
    (.usernsMode, h.usernsMode ≠ ""),
    (.cgroupParent, h.cgroupParent ≠ ""),
    (.groupAdd, !h.groupAdd.isEmpty),
    (.extraHosts, !h.extraHosts.isEmpty),
    (.dns, !h.dns.isEmpty || !h.dnsOptions.isEmpty || !h.dnsSearch.isEmpty),
    (.links, !h.links.isEmpty),
    (.network, (h.networkMode ≠ "default" && h.networkMode ≠ "bridge" &&
      h.networkMode ≠ projectNetwork) || n.networks.size ≠ 1 || !n.networks.contains network)]
  (checks.filter Prod.snd).map Prod.fst

/-- A command, entrypoint, healthcheck, directory or signal the container was given at run time. -/
def differs (c : ContainerConfig) (im : ImageConfig) : Bool :=
  c.cmd.getD [] ≠ im.cmd.getD [] || c.entrypoint.getD [] ≠ im.entrypoint.getD [] ||
    noHealthcheck c.healthcheck ≠ noHealthcheck im.healthcheck ||
    (!noHealthcheck c.healthcheck && c.healthcheck ≠ im.healthcheck) ||
    c.workingDir ≠ im.workingDir || c.stopSignal ≠ im.stopSignal

/-- The fields of a configuration that the replacement's structures decode. -/
def ContainerConfig.forDeploy (c : ContainerConfig) : ContainerConfig :=
  { c with hostname := "", env := [], exposedPorts := [], tty := false, openStdin := false,
           stopTimeout := none }

/-- The fields of a host configuration that the replacement's structures decode. -/
def HostConfig.forDeploy (h : HostConfig) : HostConfig :=
  { h with restartName := .unset, restartRetries := 0, portBindings := Dict.empty, logType := "",
           logConfig := Dict.empty,
           mounts := h.mounts.map fun m =>
             { m with
               consistency := ""
               bindOptions := m.bindOptions.map fun b => { b with createMountpoint := false }
               volumeOptions := m.volumeOptions.map fun v =>
                 { v with driverOptions := Dict.empty, labels := Dict.empty } } }

/-- Two reads agree in what a recreate depends on: configuration, host configuration and mounts. -/
def sameConfiguration (a b : Inspection) : Bool :=
  a.config.map ContainerConfig.forDeploy == b.config.map ContainerConfig.forDeploy &&
    a.hostConfig.map HostConfig.forDeploy == b.hostConfig.map HostConfig.forDeploy &&
    a.mounts == b.mounts

/-! ## Checks by key -/

/-- What the read knows of a key: that a configuration field carries it or another check reads it,
or the code it is flagged under when set. -/
inductive KeyRule
  | carried
  | flagged (c : UnsupportedCode)
deriving DecidableEq

def configKeys (k : String) : Option KeyRule :=
  if k ∈ ["Image", "User", "WorkingDir", "Hostname", "StopSignal", "Env", "Cmd", "Entrypoint",
      "Labels", "ExposedPorts", "Tty", "OpenStdin", "StopTimeout", "Healthcheck", "MacAddress",
      "AttachStdin", "AttachStdout", "AttachStderr", "StdinOnce", "Volumes", "OnBuild",
      "ArgsEscaped", "Shell"] then some .carried
  else none

def hostConfigKeys (k : String) : Option KeyRule :=
  if k ∈ ["NetworkMode", "Privileged", "ReadonlyRootfs", "Init", "RestartPolicy", "PortBindings",
      "Memory", "MemorySwap", "NanoCpus", "PidsLimit", "CapAdd", "CapDrop", "SecurityOpt",
      "ExtraHosts", "Dns", "Devices", "LogConfig", "Tmpfs", "Binds", "Mounts", "VolumesFrom",
      "VolumeDriver", "Ulimits", "Sysctls", "DeviceRequests", "PidMode", "IpcMode", "UsernsMode",
      "CgroupParent", "GroupAdd", "Links", "Runtime", "ConsoleSize", "ContainerIDFile",
      "MaskedPaths", "ReadonlyPaths"] then some .carried
  else if k ∈ ["CpuShares", "CpuPeriod", "CpuQuota", "CpuRealtimePeriod", "CpuRealtimeRuntime",
      "CpusetCpus", "CpusetMems", "CpuCount", "CpuPercent", "MemoryReservation",
      "MemorySwappiness", "KernelMemory", "KernelMemoryTCP", "BlkioWeight", "BlkioWeightDevice",
      "BlkioDeviceReadBps", "BlkioDeviceWriteBps", "BlkioDeviceReadIOps", "BlkioDeviceWriteIOps",
      "IOMaximumBandwidth", "IOMaximumIOps"] then some (.flagged .resourceLimits)
  else if k ∈ ["DnsOptions", "DnsSearch"] then some (.flagged .dns)
  else if k = "AutoRemove" then some (.flagged .autoRemove)
  else none

def endpointKeys (k : String) : Option KeyRule :=
  if k ∈ ["Aliases", "IPAMConfig", "NetworkID", "EndpointID", "Gateway", "IPAddress",
      "IPPrefixLen", "IPv6Gateway", "GlobalIPv6Address", "GlobalIPv6PrefixLen", "MacAddress",
      "DNSNames"] then some .carried
  else if k = "Links" then some (.flagged .links)
  else none

/-- An Engine key. -/
def engineKey (k : String) : Bool := (Pattern.rep 1 64 (.one Class.alnum)).accepts k

/-- The value is the one the daemon gives a container that sets nothing. -/
def daemonDefault (cgroupVersion key : String) (v : Json) : Bool :=
  match key, v with
  | "ShmSize", .num n => n == 67108864
  | "CgroupnsMode", .str m => m == if cgroupVersion = "1" then "host" else "private"
  | "MemorySwappiness", .num n => n == -1
  | _, _ => false

/-- A value that sets nothing. -/
def unset (cgroupVersion key : String) (v : Json) : Bool :=
  daemonDefault cgroupVersion key v || match v with
    | .null => true
    | .bool b => !b
    | .num n => n == 0
    | .str s => s == ""
    | .arr l => l.isEmpty
    | .obj l => l.isEmpty

/-- The code of one key. Of the address settings of a network only the IPv4 one is carried. -/
def uncarriedKey (cgroupVersion : String) (rules : String → Option KeyRule) (k : String) (v : Json) :
    Option ConfigurationCode :=
  if k = "IPAMConfig" then
    match v with
    | .obj ipam => if ipam.any fun e => e.1 ≠ "IPv4Address" && !unset cgroupVersion e.1 e.2 then
        some (.hostConfig "IPAMConfig") else none
    | _ => none
  else if unset cgroupVersion k v then none
  else match rules k with
    | some .carried => none
    | some (.flagged c) => some (.known c)
    | none => some (.hostConfig k)

/-- The codes of the set keys of a section that the configuration does not carry; nothing for a key
outside the Engine's grammar. -/
def uncarriedSection (cgroupVersion : String) (rules : String → Option KeyRule)
    (section_ : Dict Json) : Option (List ConfigurationCode) :=
  if section_.keys.all engineKey then
    some (section_.entries.filterMap fun e => uncarriedKey cgroupVersion rules e.1 e.2)
  else none

/-- The codes of every set key of a container that the configuration does not carry. -/
def RawInspection.uncarried (r : RawInspection) (cgroupVersion : String) :
    Option (List ConfigurationCode) :=
  match r.networks with
  | none => none
  | some networks => do
    let c ← uncarriedSection cgroupVersion configKeys r.config
    let h ← uncarriedSection cgroupVersion hostConfigKeys r.hostConfig
    let n ← networks.entries.mapM fun e => uncarriedSection cgroupVersion endpointKeys e.2
    pure (c ++ h ++ n.flatten)

/-- Two reads with equal configuration, key by key. -/
def RawInspection.sameKeys (a b : RawInspection) : Bool :=
  let same (x y : Dict Json) : Bool :=
    x.size == y.size && x.entries.all fun e => (y.get? e.1).any fun v => v.encode == e.2.encode
  same a.config b.config && same a.hostConfig b.hostConfig

/-- The known codes of a set in their order, then at most `maxListEntries` Engine keys in theirs. -/
def orderedCodes (codes : List ConfigurationCode) : List ConfigurationCode :=
  let keys := codes.filterMap fun c => match c with
    | .hostConfig k => some k
    | .known _ => none
  (unsupportedCodes.filter fun c => codes.contains (.known c)).map .known ++
    ((Text.sort keys.dedup).take maxListEntries).map .hostConfig

/-! ## Lists a configuration read would cut -/

/-- Clean text of at most `max` bytes. -/
def fits (max : Nat) (s : String) : Bool := cleanText s max == s

def deviceFits (d : EngineDevice) : Bool :=
  d.pathOnHost ≠ "" && d.pathInContainer ≠ "" && fits maxListEntryBytes d.pathOnHost &&
    fits maxListEntryBytes d.pathInContainer

/-- Container port and protocol of an Engine port key. -/
def parsePortKey (key : String) : Option (Int × PortProtocol) :=
  match Text.cut key "/" with
  | none => none
  | some (target, proto) =>
    match Text.atoi? target with
    | none => none
    | some port =>
      if portNumber port && Text.itoaInt port == target then
        if proto = "tcp" then some (port, .tcp) else if proto = "udp" then some (port, .udp)
        else none
      else none

/-- The start of a container's id that Docker uses as host name and alias. -/
def shortID (id : String) : String := String.ofList (id.toList.take 12)

/-- A mode that joins no network of its own. -/
def networkless (mode : String) : Bool :=
  mode == "host" || mode == "none" || Text.hasPrefix mode "container:"

/-- A list longer than the protocol carries, or with an entry that does not fit. -/
def listCut {α : Type} (l : List α) (fit : α → Bool) : Bool :=
  maxListEntries < l.length || l.any fun e => !fit e

/-- A list that a configuration read would cut: an explicit frame cannot carry all of it. -/
def overCap (i : Inspection) (c : ContainerConfig) (h : HostConfig) (n : NetworkSettings)
    (mounts : List InspectedMount) : Bool :=
  let bound := h.portBindings.entries.filter fun e => !e.2.isEmpty
  ([h.capAdd, h.capDrop, h.securityOpt, h.extraHosts, h.dns].any (listCut · (fits maxListEntryBytes)))
    || listCut h.devices deviceFits ||
    (!networkless h.networkMode && ((n.networks.entries.any fun e =>
      listCut (e.2.aliases.filter (· ≠ shortID i.id)) (fits 256)) ||
        maxConfigurationNetworks < n.networks.size)) ||
    (h.portBindings.entries.any fun e => (parsePortKey e.1).isNone ||
      e.2.any fun b => b.hostPort == "") ||
    (c.exposedPorts.any fun k => (parsePortKey k).isNone) ||
    maxDeploymentPorts < (h.portBindings.entries.map fun e => e.2.length).sum +
      (c.exposedPorts.filter fun k => !(bound.map Prod.fst).contains k).length ||
    (mounts.any fun m => m.kind ≠ .volume && m.kind ≠ .bind && m.kind ≠ .tmpfs) ||
    maxMounts < mounts.length +
      (h.tmpfs.keys.filter fun t => !mounts.any fun m => m.destination == t).length ||
    maxLogOptions < h.logConfig.size

end KyYard.Docker
