import KyYard.Foundation.Json
import KyYard.Protocol.Frame

/-!
# Deployment results on the wire

`DeploymentResult.validate` is the check both sides make of a result: the agent before it records or
sends one, the server before it reads one. Outcomes, steps and codes are enumerations here, so the
checks of their texts hold by construction. `StoredDeploymentResult` is what the server keeps of a
result, with the JSON whose size it bounds.
-/

namespace KyYard.Protocol

open Foundation

def maxDeploymentResultSteps : Nat := 8 * maxDeploymentServices + maxDeploymentVolumes + 1
def maxUnsupported : Nat := 40
def detailRetained : String := "retained"

def validDeploymentID (id : String) : Bool := deploymentUUID.accepts id

/-! ## Details -/

/-- What a step code's detail may hold. -/
inductive DetailRule
  | none
  | unsupported
  | containerID
  | status
  | object
  | rollout
  | podSecurity
deriving DecidableEq

/-- The rule of each step code. -/
def StepCode.detailRule : StepCode → DetailRule
  | .unsupported => .unsupported
  | .nameTaken | .conflict | .admissionDenied | .claimImmutable | .serviceIPImmutable
  | .serviceIPUnavailable => .object
  | .identityUnreadable | .identityUnverified => .containerID
  | .runtimeStatus => .status
  | .rolloutTimeout => .rollout
  | .podSecurity => .podSecurity
  | _ => .none

/-- The texts of the settings the product cannot take over. -/
def unsupportedTexts : List String :=
  ["mount_type", "anonymous_volume", "volumes_from", "volume_driver", "mount_options", "tmpfs",
    "auto_remove", "read_only_rootfs", "privileged", "capabilities", "security_opt", "devices",
    "pid_mode", "ipc_mode", "user", "runtime", "resource_limits", "ulimits", "sysctls",
    "device_requests", "init", "userns_mode", "cgroup_parent", "group_add", "extra_hosts", "dns",
    "links", "network", "image_config", "k8s_volume", "k8s_host_ip", "k8s_restart", "k8s_name",
    "k8s_namespace", "k8s_volume_shared", "k8s_name_taken", "k8s_service_renamed"]

def hostConfigCode : Pattern :=
  .seq (.lit "host_config:") (.rep 1 64 (.one Class.alnum))

def statusDetail : Pattern :=
  .seq (.one fun c => '1' ≤ c && c ≤ '5') (.rep 2 2 (.one Class.digit))

/-- The first of some texts. -/
def anyOf (texts : List String) : Pattern := texts.foldr (fun t p => .alt (.lit t) p) .empty

/-- An object's kind and name. -/
def kubeObject : Pattern :=
  let an : Pattern := .one fun c => Class.lower c || Class.digit c
  .seq (anyOf ["Deployment", "Service", "ConfigMap", "Secret", "PersistentVolumeClaim"])
    (.seq (.char '/') (.seq an
      (.opt (.seq (.rep 0 241 (.one (Class.orOf Class.lower "0123456789-."))) an))))

def rolloutReason : Pattern :=
  .alt (.seq (anyOf ["progressing", "available", "replicafailure", "pod"]) (.seq (.char '=')
      (.rep 1 64 (.one fun c => Class.lower c || Class.upper c))))
    (.seq (.lit "claim=") (anyOf ["Pending", "Lost"]))

/-- Up to three reasons. -/
def rolloutDetail : Pattern :=
  .opt (.seq rolloutReason (.rep 0 2 (.seq (.char ',') rolloutReason)))

/-- Distinct codes of uncarried settings, separated by commas. -/
def unsupportedDetail (codes : List String) : Bool :=
  decide codes.Nodup && codes.all (fun c => hostConfigCode.accepts c || unsupportedTexts.contains c) &&
    codes.length ≤ maxUnsupported

/-- The detail has the shape its code allows. -/
def validStepCode (code : StepCode) (detail : String) : Bool :=
  match code.detailRule with
  | .unsupported => unsupportedDetail ((detail.toList.splitOn ',').map String.ofList)
  | .containerID => validContainerHexID detail
  | .status => statusDetail.accepts detail
  | .object => detail == "" || kubeObject.accepts detail
  | .rollout => rolloutDetail.accepts detail
  | .podSecurity => ["", "missing", "privileged", "invalid"].contains detail
  | .none => detail == ""

/-! ## Results -/

/-- The checks of one step. -/
def DeploymentStep.valid (s : DeploymentStep) : Bool :=
  let retained := s.outcome == .skipped && s.step == .volume && s.code.isNone &&
    s.detail == detailRetained
  deploymentServiceName.accepts s.service && s.detail.utf8ByteSize ≤ maxDeploymentStepDetailBytes &&
    if failedStep s.outcome then s.code.any (validStepCode · s.detail)
    else retained || (s.code.isNone && s.detail == "")

/-- One of two shapes: a Docker container, or a Kubernetes Deployment. -/
def DeploymentIdentity.valid (id : DeploymentIdentity) : Bool :=
  match id.kind with
  | .container => id.ns == "" && id.name == "" && id.uid == "" && id.generation == 0 &&
      (⟨id.containerID, id.imageID, id.createdUnix⟩ : InspectionTarget).valid &&
      (id.imageDigest == "" || fullImageID id.imageDigest)
  | .deployment => id.containerID == "" && id.imageID == "" && id.createdUnix == 0 &&
      validDNSLabel id.ns && validDNSLabel id.name && deploymentUUID.accepts id.uid &&
      1 ≤ id.generation && fullImageID id.imageDigest

/-- The outcomes a result may report; a skip is a step's only. -/
def resultOutcome : Option Outcome → Bool
  | none | some .skipped => false
  | some _ => true

/-- The checks of a result. -/
def DeploymentResult.validate (r : DeploymentResult) : Bool :=
  deploymentUUID.accepts r.deployment && resultOutcome r.outcome &&
    (r.requestID == "" || validRequestID r.requestID) &&
    r.steps.length ≤ maxDeploymentResultSteps && r.services.length ≤ maxDeploymentServices &&
    (r.outcome == some .succeeded) == r.code.isNone && r.steps.all DeploymentStep.valid &&
    r.services.all fun id => deploymentServiceName.accepts id.service && id.valid

/-- A result in which nothing ran. -/
def DeploymentResult.bare (deployment requestID : String) (outcome : Outcome) (code : ResultCode) :
    DeploymentResult :=
  ⟨deployment, requestID, some outcome, some code, [], []⟩

/-! ## The stored form -/

def Outcome.text : Outcome → String
  | .succeeded => "succeeded"
  | .failed => "failed"
  | .denied => "denied"
  | .timedOut => "timed_out"
  | .unknown => "unknown"
  | .skipped => "skipped"

def StepName.text : StepName → String
  | .precondition => "precondition" | .image => "image" | .pull => "pull" | .volume => "volume"
  | .stop => "stop" | .rename => "rename" | .create => "create" | .start => "start"
  | .remove => "remove" | .recheck => "recheck" | .rollback => "rollback" | .apply => "apply"
  | .rollout => "rollout"

def StepCode.text : StepCode → String
  | .runtimeUnreadable => "runtime_unreadable" | .containerMissing => "container_missing"
  | .identityMismatch => "identity_mismatch" | .imageIdentityMismatch => "image_identity_mismatch"
  | .configurationUnreported => "configuration_unreported" | .unsupported => "unsupported"
  | .bindMissing => "bind_missing" | .volumeMountMissing => "volume_mount_missing"
  | .volumeNotOwned => "volume_not_owned" | .volumeMissing => "volume_missing"
  | .volumeCreateFailed => "volume_create_failed" | .imageMissing => "image_missing"
  | .pinnedImageMissing => "pinned_image_missing" | .configurationDrift => "configuration_drift"
  | .nameReserved => "name_reserved" | .nameTaken => "name_taken"
  | .identityUnusable => "identity_unusable" | .identityUnreadable => "identity_unreadable"
  | .identityUnverified => "identity_unverified" | .dependents => "dependents"
  | .deadline => "deadline" | .pullFailed => "pull_failed"
  | .pullUnauthorized => "pull_unauthorized" | .pullNotFound => "pull_not_found"
  | .pullDigestMismatch => "pull_digest_mismatch" | .cancelled => "cancelled"
  | .runtimeTimeout => "runtime_timeout" | .runtimeError => "runtime_error"
  | .runtimeStatus => "runtime_status" | .legacy => "legacy" | .forbidden => "forbidden"
  | .rolloutTimeout => "rollout_timeout" | .conflict => "conflict" | .podSecurity => "pod_security"
  | .admissionDenied => "admission_denied" | .claimImmutable => "claim_immutable"
  | .serviceIPImmutable => "service_ip_immutable"
  | .serviceIPUnavailable => "service_ip_unavailable" | .rollbackFailed => "rollback_failed"
  | .startFailedRolledBack => "start_failed_rolled_back" | .exitedEarly => "exited_early"
  | .applicationManaged => "application_managed" | .namespaceNotGranted => "namespace_not_granted"
  | .pvcRetention => "pvc_retention" | .secretRefRefused => "secret_ref_refused"
  | .selfProtected => "self_protected"

def ResultCode.text : ResultCode → String
  | .stepFailed => "step_failed" | .clockSkew => "clock_skew" | .invalidRequest => "invalid_request"
  | .wrongEndpoint => "wrong_endpoint" | .busy => "busy" | .restarted => "restarted"
  | .unreadable => "unreadable" | .legacy => "legacy"

def DeploymentStep.json (s : DeploymentStep) : Json :=
  .obj [("service", .str s.service), ("step", .str s.step.text), ("outcome", .str s.outcome.text),
    ("code", .str ((s.code.map StepCode.text).getD "")), ("detail", .str s.detail)]

def IdentityKind.text : IdentityKind → String
  | .container => ""
  | .deployment => "Deployment"

def DeploymentIdentity.json (id : DeploymentIdentity) : Json :=
  .obj ([("service", .str id.service), ("container_id", .str id.containerID),
      ("image_id", .str id.imageID), ("created_unix", .num id.createdUnix)] ++
    Json.omitEmpty (id.imageDigest == "") "image_digest" (.str id.imageDigest) ++
    Json.omitEmpty (id.kind == .container) "kind" (.str id.kind.text) ++
    Json.omitEmpty (id.ns == "") "namespace" (.str id.ns) ++
    Json.omitEmpty (id.name == "") "name" (.str id.name) ++
    Json.omitEmpty (id.uid == "") "uid" (.str id.uid) ++
    Json.omitEmpty (id.generation == 0) "generation" (.num id.generation))

/-- What the result column keeps; the outcome is the row's state. -/
structure StoredDeploymentResult where
  code : Option ResultCode
  steps : List DeploymentStep
  services : List DeploymentIdentity
deriving DecidableEq

def StoredDeploymentResult.json (r : StoredDeploymentResult) : Json :=
  .obj (Json.omitEmpty r.code.isNone "code" (.str ((r.code.map ResultCode.text).getD "")) ++
    [("steps", .arr (r.steps.map DeploymentStep.json)),
      ("services", .arr (r.services.map DeploymentIdentity.json))])

/-- What the store keeps of a result. -/
def DeploymentResult.stored (r : DeploymentResult) : StoredDeploymentResult :=
  ⟨r.code, r.steps, r.services⟩

/-- A result from before codes existed: it has no request id, and each missing code reads as
`legacy`, without its text. -/
def legacyResult (r : DeploymentResult) : DeploymentResult :=
  if r.requestID ≠ "" then r
  else { r with
    steps := r.steps.map fun s =>
      if s.code.isNone && failedStep s.outcome then { s with code := some .legacy, detail := "" }
      else s
    code := if r.code.isNone && r.outcome != some .succeeded then some .legacy else r.code }

@[simp]
theorem legacyResult_deployment (r : DeploymentResult) :
    (legacyResult r).deployment = r.deployment := by
  unfold legacyResult
  split <;> rfl

@[simp]
theorem legacyResult_services (r : DeploymentResult) : (legacyResult r).services = r.services := by
  unfold legacyResult
  split <;> rfl

@[simp]
theorem legacyResult_outcome (r : DeploymentResult) : (legacyResult r).outcome = r.outcome := by
  unfold legacyResult
  split <;> rfl

theorem ne_empty_of_validDeploymentID {id : String} (h : validDeploymentID id = true) : id ≠ "" := by
  rintro rfl
  revert h
  decide

end KyYard.Protocol
