import Mathlib.Tactic.Common

/-!
# Roles and what they allow

The matrix of `permissions.go`: which role may take which action. A person acts under the role of a
membership, a service token under the fixed role of its scope. Three actions hand a credential out,
and only an organization administrator may take them (`administrator_of_delegates`).
-/

namespace KyYard.Accounts

/-- An action that is authorised and audited under one name. -/
inductive Action
  | applicationAdopt | applicationRelease | secretReveal | applicationRead | applicationImport
  | applicationEdit | applicationDestroy | platformAdmin | organizationRead | membersManage
  | environmentRead | environmentCreate | environmentUpdate | environmentDelete | auditRead
  | endpointRead | endpointEnroll | endpointUpdate | endpointRevoke | containerOperate
  | containerDestroy | imagePull | imageDestroy | containerLogs | containerExec
  | containerConfigure | applicationDeploy | registryRead | registryManage | applicationPolicy
  | applicationMigrate | serviceTokensManage | agentTokensManage | statusFeedsManage | suiteRead
  | suiteManage
deriving DecidableEq

/-- The stable identifier an audit row carries. -/
def Action.name : Action → String
  | applicationAdopt => "application.adopt"
  | applicationRelease => "application.release"
  | secretReveal => "secret.reveal"
  | applicationRead => "application.read"
  | applicationImport => "application.import"
  | applicationEdit => "application.edit"
  | applicationDestroy => "application.destroy"
  | platformAdmin => "platform.admin"
  | organizationRead => "organization.read"
  | membersManage => "organization.members.manage"
  | environmentRead => "environment.read"
  | environmentCreate => "environment.create"
  | environmentUpdate => "environment.update"
  | environmentDelete => "environment.delete"
  | auditRead => "organization.audit.read"
  | endpointRead => "endpoint.read"
  | endpointEnroll => "endpoint.enroll"
  | endpointUpdate => "endpoint.update"
  | endpointRevoke => "endpoint.revoke"
  | containerOperate => "container.operate"
  | containerDestroy => "container.destroy"
  | imagePull => "image.pull"
  | imageDestroy => "image.destroy"
  | containerLogs => "container.logs"
  | containerExec => "container.exec"
  | containerConfigure => "container.configure"
  | applicationDeploy => "application.deploy"
  | registryRead => "registry.read"
  | registryManage => "registry.manage"
  | applicationPolicy => "application.policy"
  | applicationMigrate => "application.migrate"
  | serviceTokensManage => "organization.service_tokens.manage"
  | agentTokensManage => "organization.agent_tokens.manage"
  | statusFeedsManage => "organization.status_feeds.manage"
  | suiteRead => "suite.read"
  | suiteManage => "suite.manage"

/-- The role of a membership. -/
inductive TenantRole
  | organizationAdmin
  | environmentAdmin
  | operator
  | developer
  | readOnly
deriving DecidableEq

/-- `validTenantRole`: the roles a request may name. -/
def TenantRole.parse? : String → Option TenantRole
  | "organization_admin" => some organizationAdmin
  | "environment_admin" => some environmentAdmin
  | "operator" => some operator
  | "developer" => some developer
  | "read_only" => some readOnly
  | _ => none

/-- The role a principal acts under: a membership's, or the fixed one of a token's scope. -/
inductive Role
  | tenant (role : TenantRole)
  | pulseReader
  | agentReader
  | agentOperator
deriving DecidableEq

/-- `Allows`. -/
def allows : Role → Action → Bool
  | .tenant .organizationAdmin, action =>
    match action with
    | .platformAdmin | .suiteRead | .suiteManage => false
    | _ => true
  | .tenant .environmentAdmin, action =>
    match action with
    | .applicationAdopt | .applicationRelease | .applicationRead | .applicationImport
    | .applicationEdit | .applicationDestroy | .applicationDeploy | .organizationRead
    | .environmentRead | .environmentCreate | .environmentUpdate | .environmentDelete
    | .endpointRead | .endpointEnroll | .endpointUpdate | .endpointRevoke | .containerOperate
    | .containerDestroy | .imagePull | .imageDestroy | .containerLogs | .registryRead => true
    | _ => false
  | .tenant .operator, action =>
    match action with
    | .applicationRead | .organizationRead | .environmentRead | .endpointRead | .containerOperate
    | .imagePull | .containerLogs | .registryRead => true
    | _ => false
  | .tenant .developer, action =>
    match action with
    | .applicationRead | .applicationEdit | .applicationDeploy | .organizationRead
    | .environmentRead | .endpointRead | .containerLogs | .registryRead => true
    | _ => false
  | .tenant .readOnly, action =>
    match action with
    | .applicationRead | .organizationRead | .environmentRead | .endpointRead | .registryRead =>
      true
    | _ => false
  | .pulseReader, action =>
    match action with
    | .organizationRead | .environmentRead | .endpointRead | .containerLogs | .auditRead => true
    | _ => false
  | .agentReader, action =>
    match action with
    | .organizationRead | .environmentRead | .endpointRead | .containerLogs | .applicationRead =>
      true
    | _ => false
  | .agentOperator, action =>
    match action with
    | .organizationRead | .environmentRead | .endpointRead | .containerLogs | .applicationRead
    | .containerOperate | .applicationDeploy => true
    | _ => false

/-- An action whose effect is a credential that works without its creator. -/
def Action.delegates : Action → Bool
  | serviceTokensManage => true
  | agentTokensManage => true
  | statusFeedsManage => true
  | _ => false

/-- Only an organization administrator hands a credential out. -/
theorem administrator_of_delegates {role : Role} {action : Action} (h : allows role action = true)
    (hd : action.delegates = true) : role = .tenant .organizationAdmin := by
  cases action with
  | serviceTokensManage | agentTokensManage | statusFeedsManage =>
    cases role with
    | tenant role => cases role <;> first | rfl | cases h
    | pulseReader | agentReader | agentOperator => cases h
  | _ => cases hd

end KyYard.Accounts
