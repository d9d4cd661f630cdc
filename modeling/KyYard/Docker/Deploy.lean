import KyYard.Docker.Daemon

/-!
# Deployment runs

The adapter's `deploy`: first every service's precondition, volumes and image, then each service's
replacement by recheck, rename, create, stop, start and remove, with the undo of a step that
failed. A run is a program over the requests of `KyYard.Docker.Daemon` with the run's own record
(`DeployRun`) as state. The client and the request are fixed for a run and stand as variables.

Contexts are not modelled as values: what a cancelled or expired context does to a call is its
lost answer. The clock is read by requests.
-/

namespace KyYard.Docker

open Foundation Protocol

/-! ## Budgets -/

/-- Seconds Docker waits before killing a container being stopped. -/
def stopGrace : Int := 10
def maxStopGrace : Int := 3600
def operationBudget : Int := 30 * second
def callBudget : Int := 20 * second
def startWatch : Int := 5 * second

/-- The time one service's second phase may need. -/
def replaceBudget : Int := 2 * operationBudget + 4 * callBudget

/-- The reserve for undoing a failed start. -/
def rollbackBudget : Int := operationBudget + 2 * callBudget

def watchBudget : Int := startWatch + callBudget

/-- The wait for a container whose stop went unanswered. -/
def stopWait : Int := stopGrace * second + callBudget

/-- The grace a container asked for, in seconds. -/
def graceOf : Option Int → Int
  | none => stopGrace
  | some t => if t < 0 ∨ maxStopGrace < t then maxStopGrace else t

/-- The time a stop needs past `operationBudget`. -/
def extraGrace (grace : Int) : Int := max 0 (grace - stopGrace) * second

/-- A grace longer than the default, cut so that its extra time fits the room. -/
def fitGrace (grace room : Int) : Int :=
  if grace ≤ stopGrace then grace else min grace (stopGrace + max 0 (room.tdiv second))

/-- How long to wait for a stop, with a reserve kept for the restart. -/
def waitBound (wait remaining reserve : Int) : Int := max 0 (min wait (remaining - reserve))

/-- How long all pulls of a frame may take together. -/
def pullPhase (remaining : Int) : Int := min (remaining - replaceBudget) ((remaining * 4).tdiv 5)

/-! ## Steps -/

/-- The record of a run. -/
structure DeployRun where
  res : DeploymentResult
  defaultRuntime : String
  cgroupVersion : String
  pullDeadline : Int
  ensured : List String
  keepOnly : List String
  begun : Bool

/-- A part of a run. -/
abbrev Run (α : Type) : Type := Stateful Req Ans DeployRun α

/-- One request of a run. -/
def ask (q : Req) : Run (Ans q) := Stateful.send q

def deny (c : StepCode) : StepAnswer := ⟨.denied, some c, ""⟩
def fail (c : StepCode) : StepAnswer := ⟨.failed, some c, ""⟩

/-- A call that did not succeed: a status is an answer; without one, a cancelled run leaves the
outcome unknown, an expired deadline times it out, and a broken connection fails it. -/
def outcomeFor (err : Option Lost) (status : Nat) : StepAnswer :=
  match err with
  | some .cancelled => ⟨.unknown, some .cancelled, ""⟩
  | some .deadline => ⟨.timedOut, some .runtimeTimeout, ""⟩
  | some .connection => fail .runtimeError
  | none =>
    if status < 100 ∨ 599 < status then fail .runtimeError
    else ⟨.failed, some .runtimeStatus, Text.itoa status⟩

/-- `outcomeFor` of a read. -/
def ReadError.outcome : ReadError → StepAnswer
  | .status n => outcomeFor none n
  | .lost k => outcomeFor (some k) 0

/-- The Engine may have acted without saying so. -/
def unanswered (o : Outcome) : Bool := o == .unknown || o == .timedOut

/-- A step appended to the result. -/
def addStep (s : DeploymentStep) : Run Unit := do
  ask (.record s)
  modify fun r => { r with res := { r.res with steps := r.res.steps ++ [s] } }

/-- The first step that does not succeed fixes the result's outcome. -/
def conclude (a : StepAnswer) : Run Unit := do
  if a.outcome ≠ .succeeded then
    modify fun r =>
      { r with res := { r.res with outcome := some a.outcome, code := some .stepFailed } }

/-- One step: skipped once the outcome is fixed, run and recorded otherwise. `skipped` stands for
what the step leaves behind when it does not run. -/
def step {β : Type} (service : String) (name : StepName) (skipped : β)
    (body : Run (StepAnswer × β)) : Run β := do
  let r ← get
  if r.res.outcome.isSome then
    addStep ⟨service, name, .skipped, none, ""⟩
    return skipped
  else
    let (a, b) ← body
    conclude a
    addStep (if a.outcome = .succeeded then ⟨service, name, .succeeded, none, ""⟩
      else ⟨service, name, a.outcome, a.code, a.detail⟩)
    return b

/-- The old container was not put back, recorded after the step that failed. -/
def rollbackFailed (service : String) : Run Unit :=
  addStep ⟨service, .rollback, .failed, some .rollbackFailed, ""⟩

/-- An undo that did not put everything back is recorded. -/
def confess (service : String) (restored : Bool) : Run Unit :=
  if !restored then rollbackFailed service else pure ()

/-- The caller is told, once, that the run is about to change the host. -/
def beginRun : Run Unit := do
  let r ← get
  if !r.begun then
    set { r with begun := true }
    ask .started

section Run

variable (c : Client) (req : DeploymentRequest)

/-! ## First phase -/

/-- An explicit frame that creates a container rather than replacing one. -/
def run (s : DeploymentService) : Bool := req.explicit && s.replaces == .zero

/-- The host paths the operator confirmed. -/
def acknowledged (s : DeploymentService) : List String :=
  (s.explicit.map ExplicitService.acknowledgedBinds).getD []

/-- A run's bind whose host path the operator did not confirm. -/
def unacknowledgedBind (s : DeploymentService) : Bool :=
  s.mountList.any fun m => m.kind == .bind && !(acknowledged s).contains m.source

/-- The container belongs to the installer. -/
def installerManaged (labels : Dict String) : Bool :=
  labels.get? "ky.managed-by" == some "kyquickstart"

/-- The old container already mounts the volume at the target with the same write access. -/
def keeps (old : List InspectedMount) (m : Mount) : Bool :=
  old.any fun o => o.kind == .volume && o.name == m.source && o.destination == m.target &&
    o.rw == !m.readOnly

/-- The refusal of configuration a recreate would drop: as many whole codes as the detail holds. -/
def unsupported (codes : List String) : StepAnswer :=
  let join (d c : String) : String := d ++ "," ++ c
  let rec go : String → List String → String
    | d, [] => d
    | d, c :: cs =>
      if maxDeploymentStepDetailBytes < d.utf8ByteSize + 1 + c.utf8ByteSize then d
      else go (join d c) cs
  match codes with
  | [] => ⟨.denied, some .unsupported, ""⟩
  | c :: cs => ⟨.denied, some .unsupported, go c cs⟩

/-- The codes an explicit precondition refuses. -/
def explicitCodes (i : Inspection) (cgroupVersion : String) (codes : List UnsupportedCode) :
    Option (List ConfigurationCode) :=
  (i.raw.uncarried cgroupVersion).map fun more =>
    orderedCodes ((codes.filter configurationOnlyCodes.contains).map .known ++ more)

/-- A mount the old container does not cover: binds are preserve-only unless acknowledged, and a
keep-only volume may only be kept where it is. -/
def mountRefusal (s : DeploymentService) (keepOnly : List String) (old : List InspectedMount) :
    Option StepCode :=
  s.mountList.findSome? fun m =>
    if m.kind == .bind && !(acknowledged s).contains m.source && !old.any (fun o =>
        o.kind == .bind && o.source == m.source && o.destination == m.target &&
          (o.rw == !m.readOnly || (s.explicit.isSome && m.readOnly))) then some .bindMissing
    else if m.kind == .volume && keepOnly.contains m.source && !keeps old m then
      some .volumeMountMissing
    else none

/-- The precondition's verdict on the container read, before the image is read; `none` accepts. -/
def preconditionRefusal (s : DeploymentService) (r : DeployRun) (i : Inspection) :
    Option StepAnswer :=
  if i.id ≠ s.replaces.containerID ∨ i.image ≠ s.replaces.imageID ∨
      i.createdUnix ≠ s.replaces.createdUnix then some (deny .identityMismatch)
  else match i.config, i.hostConfig, i.networkSettings, i.mounts with
    | some config, some host, some network, some mounts =>
      if !reported i then some (deny .configurationUnreported)
      else if installerManaged config.labels ||
          (s.explicit.any fun e => installerManaged e.labels) then
        some (deny .applicationManaged)
      else
        let codes := undescribed config host network mounts config.user (projectNetwork req)
          r.defaultRuntime
        let refusal : Option StepAnswer :=
          if req.explicit then
            match explicitCodes i r.cgroupVersion codes with
            | none => some (deny .configurationUnreported)
            | some refused =>
              if overCap i config host network mounts then some (deny .configurationUnreported)
              else if refused.isEmpty then none
              else some (unsupported (refused.map ConfigurationCode.text))
          else if codes.isEmpty then none
          else some (unsupported (codes.map UnsupportedCode.text))
        refusal.orElse fun _ => (mountRefusal s r.keepOnly mounts).map deny
    | _, _, _, _ => some (deny .configurationUnreported)

/-- The precondition's verdict on the image of the old container. -/
def imageRefusal (i : Inspection) (im : ImageConfig) : StepAnswer :=
  match i.config with
  | none => succeeded
  | some config =>
    let codes := (if config.user ≠ im.user then [UnsupportedCode.user] else []) ++
      (if differs config im then [.imageConfig] else [])
    if codes.isEmpty then succeeded else unsupported (codes.map UnsupportedCode.text)

/-- The precondition of a replacement; the container it read. -/
def precondition (s : DeploymentService) : Run (StepAnswer × Option Inspection) := do
  let r ← get
  if c.self ≠ "" ∧ s.replaces.containerID = c.self then return (deny .selfProtected, none)
  else if r.defaultRuntime = "" ∧ ¬req.explicit then return (fail .runtimeUnreadable, none)
  else
    match ← ask (.inspect s.replaces.containerID) with
    | .error (.status 404) => return (deny .containerMissing, none)
    | .error e => return (e.outcome, none)
    | .ok i =>
      match preconditionRefusal req s r i with
      | some a => return (a, some i)
      | none =>
        if req.explicit then return (succeeded, some i)
        else
          match ← ask (.inspectImage s.replaces.imageID) with
          | .error (.status 404) => return (deny .imageMissing, some i)
          | .error e => return (e.outcome, some i)
          | .ok im => return (imageRefusal i im.config, some i)

/-- The project's plain local volume. -/
def VolumeInspection.owned (v : VolumeInspection) (project : String) : Bool :=
  v.labels.get? "com.docker.compose.project" == some project && v.driver == "local" &&
    v.options.size == 0

/-- A volume another driver or device options may back with a host path. -/
def VolumeInspection.hostBacked (v : VolumeInspection) : Bool :=
  v.driver ≠ "local" || v.options.size ≠ 0

/-- A missing volume is created: an explicit frame creates any name, unlabelled, another only the
project's own volumes. -/
def createMissingVolume (source : String) : Run StepAnswer := do
  let labels : Option (Dict String) :=
    if req.explicit then some Dict.empty
    else
      let short := Text.trimPrefix source (req.project ++ "_")
      if !Text.hasPrefix source (req.project ++ "_") || short == "" then none
      else some ((Dict.empty.insert "com.docker.compose.project" req.project).insert
        "com.docker.compose.volume" short)
  match labels with
  | none => return deny .volumeMissing
  | some labels =>
    let p ← ask (.createVolume source labels)
    if p.err.isSome then return outcomeFor p.err p.status
    else if p.status ≠ 201 then return fail .volumeCreateFailed
    else if (!req.explicit && !p.out.owned req.project) || p.out.hostBacked then
      return deny .volumeNotOwned
    else return succeeded

/-- One volume's step. A volume that is not the project's own becomes keep-only. -/
def ensureVolume (s : DeploymentService) (old : List InspectedMount) (source : String) :
    Run (StepAnswer × Unit) := do
  match ← ask (.inspectVolume source) with
  | .ok v =>
    if v.owned req.project || (req.explicit && !v.hostBacked) then return (succeeded, ())
    else if !old.any (fun o => o.kind == .volume && o.name == source) then
      return (deny .volumeNotOwned, ())
    else if s.mountList.any (fun m => m.kind == .volume && m.source == source && !keeps old m) then
      return (deny .volumeMountMissing, ())
    else
      modify fun r => { r with keepOnly := source :: r.keepOnly }
      return (succeeded, ())
  | .error (.status 404) => return (← createMissingVolume req source, ())
  | .error e => return (e.outcome, ())

/-- A volume step, if the mount is of a volume no earlier mount named. -/
def ensureMount (s : DeploymentService) (old : List InspectedMount) (m : Mount) : Run PUnit := do
  let r ← get
  if m.kind = .volume ∧ ¬r.ensured.contains m.source then
    set { r with ensured := m.source :: r.ensured }
    step s.name .volume () (ensureVolume req s old m.source)

/-- A volume step for each volume the service mounts that no earlier service did. -/
def ensureVolumes (s : DeploymentService) (old : List InspectedMount) : Run PUnit :=
  s.mountList.forM (ensureMount req s old)

/-- A Docker Hub repository the way the daemon reports it. -/
def canonicalRepository (name : String) : String :=
  let rest := if Text.hasPrefix name "docker.io/" then Text.trimPrefix name "docker.io/"
    else Text.trimPrefix name "index.docker.io/"
  Text.trimPrefix rest "library/"

/-- The pulled image tagged, if the frame asks for it. -/
def tag (tagRef id : String) : Run (StepAnswer × String) := do
  if tagRef = "" then return (succeeded, id)
  else
    let (repo, tag) := splitImageReference tagRef
    let p ← ask (.tagImage id repo tag)
    if p.err.isSome then return (outcomeFor p.err 0, "")
    else if p.status ≠ 201 then return (fail .pullFailed, "")
    else return (succeeded, id)

/-- The image fetched by digest and proven to be that repository at that digest; its id. -/
def pull (p : ImagePull) : Run (StepAnswer × String) := do
  let r ← get
  let now ← ask .now
  if r.pullDeadline - now < callBudget then return (⟨.timedOut, some .deadline, ""⟩, "")
  else
    let (name, digest) := (Text.cut p.reference "@").getD (p.reference, "")
    let auth := (req.registries.get? p.host).map fun a => (p.host, a)
    match ← ask (.pullImage name digest auth) with
    | .lost k => return (outcomeFor (some k) 0, "")
    | .status n =>
      if n = 401 ∨ n = 403 then return (fail .pullUnauthorized, "")
      else if n = 404 then return (fail .pullNotFound, "")
      else return (fail .pullFailed, "")
    | .done true => return (fail .pullFailed, "")
    | .done false =>
      match ← ask (.inspectImage p.reference) with
      | .error e => return (e.outcome, "")
      | .ok im =>
        if im.id.utf8ByteSize == 71 && Text.hasPrefix im.id "sha256:" &&
            validImageReference im.id && im.repoDigests.any (fun rd =>
            (Text.cut rd "@").any fun (n, d) =>
              d == digest && canonicalRepository n == canonicalRepository name) then
          tag p.tag im.id
        else return (fail .pullDigestMismatch, "")

/-- The pinned image is present. -/
def pinnedImage (id : String) : Run (StepAnswer × String) := do
  match ← ask (.inspectImage id) with
  | .error (.status 404) => return (fail .pinnedImageMissing, id)
  | .error e => return (e.outcome, id)
  | .ok im => return (if im.id = id then succeeded else fail .imageIdentityMismatch, id)

/-- The pull step, or the check of the pinned image; the image id. -/
def imageStep (s : DeploymentService) : Run String :=
  match s.pull with
  | some p => step s.name .pull s.imageID (pull req p)
  | none => step s.name .image s.imageID (pinnedImage s.imageID)

/-- The service with the id of its image. -/
def image (s : DeploymentService) : Run DeploymentService := do
  let id ← imageStep req s
  return { s with imageID := id }

/-- What a service's first phase settled for its replacement. -/
structure Prepared where
  s : DeploymentService
  name : String
  networkMode : String
  before : Option Inspection

/-- A service's precondition, volumes and image. A run has no precondition: an unacknowledged bind is
denied at create, with nothing pulled or created first. -/
def prepare (s : DeploymentService) : Run Prepared := do
  if run req s then
    if (s.explicit.any fun e => installerManaged e.labels) then
      step s.name .precondition () (pure (deny .applicationManaged, ()))
      return ⟨s, "", "", none⟩
    else if !unacknowledgedBind s then
      ensureVolumes req s []
      let s ← image req s
      return ⟨s, "", "", none⟩
    else return ⟨s, "", "", none⟩
  else
    let before ← step s.name .precondition none (precondition c req s)
    ensureVolumes req s ((before.bind Inspection.mounts).getD [])
    let s ← image req s
    return {
      s := s
      name := (before.map fun i => Text.trimPrefix i.name "/").getD ""
      networkMode := ((before.bind Inspection.hostConfig).map HostConfig.networkMode).getD ""
      before := before }

/-! ## Undoing -/

/-- What marks an old container renamed aside. -/
def parkedSuffix : String := ".kyyard-prev-"

/-- The name a deployment parks the old container under. -/
def parked (containerName : String) : String :=
  containerName ++ parkedSuffix ++ String.ofList (req.deployment.toList.take 8)

/-- A name without any parked suffix. -/
def unparkedName (name : String) : String :=
  ((Text.cut name parkedSuffix).map Prod.fst).getD name

/-- A container removed; gone already counts. -/
def discard (id : String) (force : Bool) : Run Bool := do
  let p ← ask (.remove id force)
  return p.err.isNone && (p.status < 400 || p.status == 404)

/-- The old container's name given back. -/
def unpark (p : Prepared) : Run Bool := do
  let a ← ask (.rename p.s.replaces.containerID (unparkedName p.name))
  return !a.refused

/-- The old container started again, and paused if it was. -/
def revive (p : Prepared) (paused : Bool) : Run Bool := do
  let a ← ask (.start p.s.replaces.containerID)
  if a.refused then return false
  else if !paused then return true
  else
    let b ← ask (.pause p.s.replaces.containerID)
    return !b.refused

/-- A container's identity and state as a restore reads them. -/
structure ContainerNow where
  id : String
  name : String
  image : String
  labels : Dict String
  status : ContainerStatus
  running : Bool

/-- What a restore reads of an inspection that reported a state. -/
def ContainerNow.of (i : Inspection) (st : ContainerState) : ContainerNow where
  id := i.id
  name := i.name
  image := i.image
  labels := (i.config.map ContainerConfig.labels).getD Dict.empty
  status := st.status
  running := st.running

/-- A read of a container for a restore to act on. `none` is a state that was not reported. -/
def current (ref : String) : Run (Except ReadError (Option ContainerNow)) := do
  match ← ask (.inspect ref) with
  | .error e => return .error e
  | .ok i => return .ok (i.state.map (ContainerNow.of i))

/-- The container a run created is removed by force. After an unanswered start or create it is
removed, unforced and by the id read, only once a read shows that it was never started and, found
by name, that it has the name and the frame's image and is not the container being replaced. -/
def settle (s : DeploymentService) (created : String) (outcome : Outcome) : Run Bool := do
  if !unanswered outcome then discard created true
  else
    match ← current (if created = "" then s.containerName else created) with
    | .error (.status 404) => return true
    | .error _ => return false
    | .ok none => return false
    | .ok (some now) =>
      if !validContainerHexID now.id then return false
      else if now.status ≠ .created then return true
      else if created = "" ∧ (now.name ≠ "/" ++ s.containerName ∨ now.image ≠ s.imageID ∨
          now.id = s.replaces.containerID) then return true
      else discard now.id false

/-- The new container, if any, removed before it ever started. -/
def discardNew (s : DeploymentService) (created : String) (outcome : Outcome) : Run Bool :=
  if created ≠ "" then discard created true
  else if unanswered outcome then settle s "" outcome
  else pure true

/-- The host put back after a step failed before the new container started: the new container, if
any, removed, and the old one given its name back. -/
def undo (p : Prepared) (created : String) (outcome : Outcome) : Run Bool := do
  let discarded ← discardNew p.s created outcome
  if !discarded then return false
  else if run req p.s then return true
  else unpark p

/-- What a dead run of this recreate left holding the service's name is removed, unforced: never
started, not the old container, while the old one carries a name parked for that name and, unless
the frame is explicit, labelled by the run that parked it. -/
def reclaim (p : Prepared) : Run Bool := do
  let mark := p.s.containerName ++ parkedSuffix
  let parkedBy := Text.trimPrefix p.name mark
  if run req p.s || !Text.hasPrefix p.name mark || parkedBy == "" then return false
  else
    match ← current p.s.containerName with
    | .error _ => return false
    | .ok none => return false
    | .ok (some now) =>
      if !validContainerHexID now.id ∨ now.id = p.s.replaces.containerID ∨
          now.name ≠ "/" ++ p.s.containerName ∨ now.status ≠ .created then return false
      else if installerManaged now.labels ∨ (¬req.explicit ∧
          ¬Text.hasPrefix ((now.labels.get? "kyyard.deployment").getD "") parkedBy) then
        return false
      else discard now.id false

/-- The old container started again after an unanswered stop, once it is not running. One still
running when the wait ends, or with no time left to wait, is left running. -/
def reviveIfStopped (p : Prepared) (paused : Bool) (grace : Int) : Run Bool := do
  let opened ← ask .now
  match ← current p.s.replaces.containerID with
  | .error _ => return false
  | .ok none => return false
  | .ok (some now) =>
    if now.running then
      let t ← ask .now
      let remaining := opened + rollbackBudget + extraGrace grace - t
      if waitBound (stopWait + extraGrace grace) remaining operationBudget = 0 then return true
      else
        match ← ask (.wait p.s.replaces.containerID) with
        | .stopped => revive p paused
        | .stillRunning => return true
        | .failed => return false
    else revive p paused

/-- The old container's name given back after an unanswered rename, if a read shows it parked. -/
def unparkIfParked (p : Prepared) (name : String) : Run Bool := do
  match ← current p.s.replaces.containerID with
  | .error _ => return false
  | .ok none => return false
  | .ok (some now) => if now.name ≠ "/" ++ name then return true else unpark p

/-! ## Second phase -/

/-- What the recheck settles: the old container's state, and the grace of its stop. -/
structure Rechecked where
  paused : Bool
  wasRunning : Bool
  grace : Int

/-- The time kept for one service's replacement, its undo and its watch. -/
def serviceBudget : Int := replaceBudget + rollbackBudget + watchBudget

/-- What the recheck leaves behind when it does not succeed. -/
def Rechecked.idle : Rechecked := ⟨false, false, stopGrace⟩

/-- The old container read again: the same container, configured as the precondition read it. -/
def recheckContainer (p : Prepared) (later : Nat) : Run (StepAnswer × Rechecked) := do
  match ← ask (.inspect p.s.replaces.containerID) with
  | .error (.status 404) => return (deny .containerMissing, .idle)
  | .error e => return (e.outcome, .idle)
  | .ok i =>
    if (i.config.any fun config => installerManaged config.labels) then
      return (deny .applicationManaged, .idle)
    else if i.id ≠ p.s.replaces.containerID ∨ i.image ≠ p.s.replaces.imageID ∨
        i.createdUnix ≠ p.s.replaces.createdUnix ∨
        ¬(p.before.any fun b => sameConfiguration b i &&
          (!req.explicit || b.raw.sameKeys i.raw)) then
      return (deny .configurationDrift, .idle)
    else
      let t ← ask .now
      let grace := match i.config with
        | none => stopGrace
        | some config => fitGrace (graceOf config.stopTimeout)
            ((req.deadline - t - (1 + later) * serviceBudget).tdiv 2)
      return (succeeded, {
        paused := (i.state.map ContainerState.paused).getD false
        wasRunning := (i.state.map ContainerState.running).getD false
        grace := grace })

/-- The recheck, right before the old container is touched. -/
def recheck (p : Prepared) (later : Nat) : Run (StepAnswer × Rechecked) := do
  let now ← ask .now
  if req.deadline - now < serviceBudget then return (⟨.timedOut, some .deadline, ""⟩, .idle)
  else
    beginRun
    recheckContainer req p later

/-- The old container parked; whether an unanswered rename was undone. -/
def rename (p : Prepared) : Run (StepAnswer × Bool) := do
  let name := parked req p.s.containerName
  if p.name = name then return (succeeded, true)
  else
    let a ← ask (.rename p.s.replaces.containerID name)
    if !a.refused then return (succeeded, true)
    else
      let answer := if a.status = 409 then fail .nameReserved else outcomeFor a.err a.status
      if unanswered answer.outcome then return (answer, ← unparkIfParked p name)
      else return (answer, true)

/-- The original tag of a reference that names tag and digest. -/
def containerImageReference (reference : String) : String :=
  match Text.cut reference "@" with
  | none => reference
  | some (tag, digest) =>
    if validImageReference tag && validImageReference ("image@" ++ digest) then
      let pin := (splitImageReference tag).2
      if pin ≠ "" && !Text.hasPrefix pin "sha256:" then tag else reference
    else reference

/-- The body of the create request. An explicit edit keeps the requested address of the primary
network and a previously pinned tag of the same image. -/
def bodyFor (p : Prepared) : ContainerCreate :=
  let body := createBody req p.s p.networkMode
  match p.before with
  | none => body
  | some b =>
    match b.config with
    | none => body
    | some config =>
      if req.explicit then
        { body with
          macAddress := config.macAddress
          image := if p.s.pull.isNone ∧ b.image = p.s.imageID ∧
            containerImageReference config.image ≠ config.image then config.image else body.image }
      else body

/-- The networks beyond the first, connected one by one; the answer of the first that fails. -/
def connectAll (created : String) : List NetworkAttachmentSpec → Run StepAnswer
  | [] => pure succeeded
  | n :: ns => do
    let a ← ask (.connect n.name created (endpoint n))
    if a.err.isSome ∨ a.status ≠ 200 then return outcomeFor a.err a.status
    else connectAll created ns

/-- The create request, once more after a reclaim. -/
def postCreate (p : Prepared) : Run (Posted String) := do
  let first ← ask (.create p.s.containerName (bodyFor req p))
  if first.status = 409 then
    let again ← reclaim req p
    if again then ask (.create p.s.containerName (bodyFor req p)) else return first
  else return first

/-- The new container created and connected; the answer and its id. -/
def sendCreate (p : Prepared) : Run (StepAnswer × String) := do
  let a ← postCreate req p
  if a.err.isSome ∨ a.status ≠ 201 then
    return (if a.status = 409 then fail .nameTaken else outcomeFor a.err a.status, "")
  else if !validContainerHexID a.out then return (fail .identityUnusable, "")
  else
    let rest := (p.s.explicit.map fun e => (attachments e).2).getD []
    return (← connectAll a.out rest, a.out)

/-- The guards of a run's create, which has no recheck; `none` lets it go on. -/
def createGuard (p : Prepared) : Run (Option StepAnswer) := do
  if !run req p.s then return none
  else if unacknowledgedBind p.s then return some (deny .bindMissing)
  else
    let now ← ask .now
    if req.deadline - now < replaceBudget then return some ⟨.timedOut, some .deadline, ""⟩
    else
      beginRun
      return none

/-- What the create step leaves behind: the new container's id, and whether a failure was undone. -/
structure CreateLeft where
  created : String
  restored : Bool

/-- The create, undone if it failed. -/
def createOrUndo (p : Prepared) : Run (StepAnswer × CreateLeft) := do
  let (a, created) ← sendCreate req p
  if a.outcome = .succeeded then return (a, ⟨created, true⟩)
  else if run req p.s ∧ created = "" then
    -- A run has no old container to put back; only an unanswered create may have left one.
    if unanswered a.outcome then return (a, ⟨created, ← settle p.s "" a.outcome⟩)
    else return (a, ⟨created, true⟩)
  else return (a, ⟨created, ← undo req p created a.outcome⟩)

/-- The create step's body: nothing is sent if a guard refuses. -/
def createStep (p : Prepared) : Run (StepAnswer × CreateLeft) := do
  match ← createGuard req p with
  | some a => return (a, ⟨"", true⟩)
  | none => createOrUndo req p

/-- The create step; the new container's id, empty if there is none. -/
def create (p : Prepared) : Run String := do
  let left ← step p.s.name .create ⟨"", true⟩ (createStep req p)
  confess p.s.name left.restored
  return left.created

/-- What a watch sees in one read: `none` to go on. -/
def watchVerdict (i : Inspection) : Option StepAnswer :=
  match i.state, i.restartCount with
  | some st, some n =>
    if 0 < n || !st.running || st.status == .exited || st.status == .dead ||
        st.status == .restarting || st.health == some .unhealthy then some (fail .exitedEarly)
    else match st.health with
      | none | some .unset | some .starting | some .none => none
      | some _ => some succeeded
  | _, _ => some (fail .exitedEarly)

/-- A started container read until it fails, turns healthy or the window has passed; `polls` is how
often that can be. -/
def watch (id : String) (deadline : Int) : Nat → Run StepAnswer
  | 0 => do
    match ← ask (.inspect id) with
    | .error e => return e.outcome
    | .ok i => return (watchVerdict i).getD succeeded
  | polls + 1 => do
    match ← ask (.inspect id) with
    | .error e => return e.outcome
    | .ok i =>
      match watchVerdict i with
      | some a => return a
      | none =>
        let now ← ask .now
        if deadline ≤ now then return succeeded
        else
          match ← ask .sleep with
          | .elapsed => watch id deadline polls
          | .cancelled => return outcomeFor (some .cancelled) 0
          | .deadline => return outcomeFor (some .deadline) 0

/-- The identity the new container runs as, read back and compared. -/
def verifyIdentity (s : DeploymentService) (created : String) : Run StepAnswer := do
  match ← ask (.inspect created) with
  | .error e => return ⟨e.outcome.outcome, some .identityUnreadable, created⟩
  | .ok i =>
    if i.id ≠ created ∨ i.image ≠ s.imageID ∨
        ¬(InspectionTarget.valid ⟨i.id, i.image, i.createdUnix⟩) then
      return ⟨.failed, some .identityUnverified, created⟩
    else
      modify fun r => { r with res := { r.res with services := r.res.services ++
        [{ service := s.name
           imageDigest := (s.pull.map ImagePull.digest).getD ""
           containerID := i.id
           imageID := i.image
           createdUnix := i.createdUnix }] } }
      return succeeded

/-- The container watched after its start if the old one was running. -/
def watchStarted (created : String) (watched : Bool) : Run StepAnswer := do
  if watched then
    let now ← ask .now
    watch created (now + startWatch) c.polls
  else return succeeded

/-- The start step's body: the answer, and whether the container was up so that only its identity
read failed. -/
def startStep (s : DeploymentService) (created : String) (watched : Bool) :
    Run (StepAnswer × (Outcome × Bool)) := do
  let a ← ask (.start created)
  if a.err.isSome ∨ 400 ≤ a.status then
    let answer := outcomeFor a.err a.status
    return (answer, answer.outcome, false)
  else
    let seen ← watchStarted c created watched
    if seen.outcome ≠ .succeeded then return (seen, seen.outcome, false)
    else
      let answer ← verifyIdentity s created
      return (answer, answer.outcome, true)

/-- The start step; its outcome, skipped when it did not run. -/
def start (s : DeploymentService) (created : String) (watched : Bool) : Run (Outcome × Bool) :=
  step s.name .start (.skipped, false) (startStep c s created watched)

/-- The stop step's body: whether the old container was running when stopped, and whether a failure
was undone. An unanswered stop may have stopped it. -/
def stopStep (p : Prepared) (created : String) (now : Rechecked) :
    Run (StepAnswer × (Bool × Bool)) := do
  let a ← ask (.stop p.s.replaces.containerID now.grace)
  if !a.refused then return (succeeded, a.status ≠ 304, true)
  else
    let answer := outcomeFor a.err a.status
    let undone ← undo req p created .skipped
    if !unanswered answer.outcome ∨ !now.wasRunning then return (answer, false, undone)
    else
      let revived ← reviveIfStopped p now.paused now.grace
      return (answer, false, revived && undone)

/-- The last recorded step recoded after its rollback. -/
def recode (steps : List DeploymentStep) : List DeploymentStep :=
  match steps.getLast? with
  | none => steps
  | some s => steps.dropLast ++ [{ s with code := some .startFailedRolledBack, detail := "" }]

/-- The new container removed by force, the old one renamed back and, if it was running, started. -/
def putBack (p : Prepared) (created : String) (running paused : Bool) : Run Bool := do
  let gone ← discard created true
  if !gone then return false
  else
    let unparked ← unpark p
    if running then
      let revived ← revive p paused
      return revived && unparked
    else return unparked

/-- A recreate whose start failed, undone. -/
def rollback (p : Prepared) (created : String) (running paused : Bool) : Run Unit := do
  let restored ← putBack p created running paused
  if !restored then rollbackFailed p.s.name
  else
    modify fun r => { r with res := { r.res with steps := recode r.res.steps } }
    addStep ⟨p.s.name, .rollback, .succeeded, none, ""⟩

/-- The rollback of a recreate whose start failed. -/
def rollbackIf (failed : Bool) (p : Prepared) (created : String) (running paused : Bool) :
    Run Unit :=
  if failed then rollback p created running paused else pure ()

/-- The remove step's body. -/
def removeStep (p : Prepared) : Run (StepAnswer × Unit) := do
  let a ← ask (.remove p.s.replaces.containerID false)
  if a.refused then return (outcomeFor a.err a.status, ())
  else return (succeeded, ())

/-- A run's container created and started, and removed if it did not come up. -/
def replaceRun (p : Prepared) : Run Unit := do
  let created ← create req p
  let (outcome, up) ← start c p.s created false
  if failedStep outcome ∧ !up then
    confess p.s.name (← settle p.s created outcome)

/-- One service's replacement; `later` is the number of services after it. -/
def replace (p : Prepared) (later : Nat) : Run Unit := do
  if run req p.s then replaceRun c req p
  else
    let now ← step p.s.name .recheck .idle (recheck req p later)
    let unparked ← step p.s.name .rename true (rename req p)
    confess p.s.name unparked
    let created ← create req p
    let (running, restored) ← step p.s.name .stop (false, true) (stopStep req p created now)
    confess p.s.name restored
    let (outcome, _) ← start c p.s created running
    rollbackIf (failedStep outcome) p created running now.paused
    step p.s.name .remove () (removeStep p)

/-! ## A whole run -/

/-- Every service's first phase, in plan order. -/
def prepareAll : List DeploymentService → Run (List Prepared)
  | [] => pure []
  | s :: ss => do
    let p ← prepare c req s
    return p :: (← prepareAll ss)

/-- Every service's replacement, in plan order. -/
def replaceAll : List Prepared → Run Unit
  | [] => pure ()
  | p :: ps => do
    replace c req p ps.length
    replaceAll ps

/-- The empty result of a request. -/
def emptyResult : DeploymentResult := .empty req.deployment req.requestID

/-- The result of a frame that was refused. -/
def refusal (e : RequestError) : DeploymentResult := refused (emptyResult req) e

/-- The record a run starts with. -/
def DeployRun.initial : DeployRun := ⟨emptyResult req, "", "", 0, [], [], false⟩

/-- The daemon's defaults noted, if they were reported. -/
def noteDefaults : Run Unit := do
  match ← ask .info with
  | .ok d =>
    if d.defaultRuntime ≠ "" then
      modify fun r =>
        { r with defaultRuntime := d.defaultRuntime, cgroupVersion := d.cgroupVersion }
  | .error _ => pure ()

/-- The run of an accepted frame. -/
def deployAccepted : Run DeploymentResult := do
  noteDefaults
  let t ← ask .now
  let now ← ask .now
  let window := pullPhase (req.deadline - t - rollbackBudget - watchBudget)
  modify fun r => { r with pullDeadline := now + window }
  let ready ← prepareAll c req req.services
  replaceAll c req ready
  let r ← get
  return { r.res with outcome := some (r.res.outcome.getD .succeeded) }

/-- A deployment: the frame is checked and, if accepted, run. -/
def deploy : Prog Req Ans DeploymentResult := do
  let now ← Prog.send .now
  match req.validateFor .docker now with
  | .error e => return refusal req e
  | .ok () =>
    let (res, _) ← deployAccepted c req (.initial req)
    return res

end Run

end KyYard.Docker
