import KyYard.Docker.CreateBody
import KyYard.Foundation.Interaction

/-!
# The Docker daemon as the agent sees it

Every request the deployment adapter sends, with the type of its answer. An answer is what the
adapter's client returns: a read is a decoded value, a status that is not 200, or lost; a post is a
status and possibly an error. How an answer was lost is all the adapter can tell: the run was
cancelled, a deadline passed, or the connection broke.

Next to the daemon's requests stand the other things a run does that its surroundings see: it reads
the clock, sleeps, calls the durable `started` hook, and records a step of its result.
-/

namespace KyYard.Docker

open Foundation Protocol

/-- How an answer was lost. -/
inductive Lost
  | cancelled
  | deadline
  | connection
deriving DecidableEq

/-- Why a read gave no value. -/
inductive ReadError
  | status (n : Nat)
  | lost (k : Lost)
deriving DecidableEq

/-- What a post returns: the status, 0 if none arrived, an error, and the decoded answer. -/
structure Posted (α : Type) where
  status : Nat
  err : Option Lost
  out : α

/-- How a sleep ended. -/
inductive Woken
  | elapsed
  | cancelled
  | deadline

/-- What a wait for a container to stop returned. -/
inductive Waited
  | stopped
  | stillRunning
  | failed

/-- What a pull returned: a status that is not 200, a lost stream, or a whole stream, which may
report a failure inside. -/
inductive Pulled
  | status (n : Nat)
  | lost (k : Lost)
  | done (failure : Bool)

/-- The daemon's defaults. -/
structure DaemonInfo where
  defaultRuntime : String
  cgroupVersion : String

/-- What a run asks for or does. -/
inductive Req
  | now
  | sleep
  | started
  | record (s : DeploymentStep)
  | info
  | inspect (ref : String)
  | inspectImage (ref : String)
  | inspectVolume (name : String)
  | createVolume (name : String) (labels : Dict String)
  | pullImage (name digest : String) (auth : Option (String × RegistryAuth))
  | tagImage (id repo tag : String)
  | create (name : String) (body : ContainerCreate)
  | connect (network container : String) (e : EndpointSettings)
  | rename (ref name : String)
  | stop (ref : String) (grace : Int)
  | start (ref : String)
  | pause (ref : String)
  | wait (ref : String)
  | remove (ref : String) (force : Bool)

/-- The answer to each. -/
@[reducible] def Ans : Req → Type
  | .now => Int
  | .sleep => Woken
  | .started => Unit
  | .record _ => Unit
  | .info => Except ReadError DaemonInfo
  | .inspect _ => Except ReadError Inspection
  | .inspectImage _ => Except ReadError ImageInspection
  | .inspectVolume _ => Except ReadError VolumeInspection
  | .createVolume _ _ => Posted VolumeInspection
  | .pullImage _ _ _ => Pulled
  | .tagImage _ _ _ => Posted Unit
  | .create _ _ => Posted String
  | .connect _ _ _ => Posted Unit
  | .rename _ _ => Posted Unit
  | .stop _ _ => Posted Unit
  | .start _ => Posted Unit
  | .pause _ => Posted Unit
  | .wait _ => Waited
  | .remove _ _ => Posted Unit

/-- The requests that create, rename, stop, start or remove a container, or change one in another
way. -/
def Req.touches : Req → Bool
  | .create _ _ | .connect _ _ _ | .rename _ _ | .stop _ _ | .start _ | .pause _ | .remove _ _ =>
    true
  | _ => false

/-- A post that took no effect: an error, or a status from 400 on. -/
def Posted.refused {α : Type} (p : Posted α) : Bool := p.err.isSome || 400 ≤ p.status

/-- The adapter's own container, and how often a watch reads before its window has passed. -/
structure Client where
  self : String
  polls : Nat

end KyYard.Docker
