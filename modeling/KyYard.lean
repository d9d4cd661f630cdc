import KyYard.Protocol.Signing
import KyYard.Protocol.Metrics
import KyYard.Store.ClusterPreflight
import KyYard.Store.PolicySchedule
import KyYard.Store.Samples
import KyYard.Agent.Rotation
import KyYard.Agent.Snapshots
import KyYard.Agent.Deployments
import KyYard.Docker.Removals
import KyYard.Docker.Remove
import KyYard.Docker.Restore
import KyYard.Kubernetes.Objects
import KyYard.Kubernetes.Identity
import KyYard.Store.ImageChecks
import KyYard.Store.Saga
import KyYard.Agent.Logs
import KyYard.Accounts.ClientIP
import KyYard.Accounts.Authority
import KyYard.Accounts.Webhook
import KyYard.Accounts.Replacement
import KyYard.Accounts.Logout
import KyYard.Kubernetes.Logs
import KyYard.Agent.Hello
import KyYard.Kubernetes.Installer
