import KyYard.Foundation.Dict

/-!
# What the installer manages

Nothing of the installer's is touched. `installerOwned` follows the controllers of an object upwards
and answers no only if it has read them all.

`installerOwned_eq_false_iff`: the answer is no if and only if the walk has read a chain of
controllers to its end within `maxControllerHops`, each at the UID its child refers to, and none of
them has the installer's mark.
-/

namespace KyYard.Kubernetes

open Foundation

def installerOwnerLabel : String := "ky.managed-by"

/-- How many controllers above an object are read. -/
def maxControllerHops : Nat := 3

/-- The labels have the installer's mark. -/
def installerManaged (labels : Dict String) : Bool :=
  labels.get? installerOwnerLabel == some "kyquickstart"

/-- What an object's metadata says of an owner. -/
structure OwnerReference where
  apiVersion : String
  kind : String
  name : String
  uid : String
  controller : Bool

/-- An object as it was read, with the labels of its pod template if it was read with one. -/
structure MetaObject where
  ns : String
  uid : String
  labels : Dict String
  owners : List OwnerReference
  template : Option (Dict String)

/-- The object or its pod template has the installer's mark. -/
def MetaObject.installerManagedObject (o : MetaObject) : Bool :=
  installerManaged o.labels || o.template.any installerManaged

/-- The kinds that are read as themselves. -/
inductive Workload
  | replicaSet
  | deployment
  | statefulSet
  | daemonSet
  | job
  | cronJob

/-- The kind a group and a kind name. -/
def workload? : String → Option Workload
  | "apps/ReplicaSet" => some .replicaSet
  | "apps/Deployment" => some .deployment
  | "apps/StatefulSet" => some .statefulSet
  | "apps/DaemonSet" => some .daemonSet
  | "batch/Job" => some .job
  | "batch/CronJob" => some .cronJob
  | _ => none

/-- The kinds whose pod template is looked at. -/
def Workload.templated : Workload → Bool
  | deployment | statefulSet | daemonSet => true
  | _ => false

/-- The API server at each hop of a walk, whose answers may change in between, and what the client
library makes of an object: `getControllerOf` is the reference to its controller,
`parseGroupVersion` the group and the version of an API version. The client for metadata may be
missing. -/
structure Cluster where
  getControllerOf : MetaObject → Option OwnerReference
  parseGroupVersion : String → Option (String × String)
  get : Nat → Workload → String → String → Option MetaObject
  restMapping : Nat → String → String → String → Option String
  metadata : Option (Nat → String → String → String → Option MetaObject)

variable (c : Cluster)

/-- The object a controller reference names. Of a kind that is not read as itself only the metadata
is read. -/
def controller (hop : Nat) (ns : String) (ref : OwnerReference) : Option MetaObject := do
  let (group, version) ← c.parseGroupVersion ref.apiVersion
  match workload? (group ++ "/" ++ ref.kind) with
  | some w =>
    let o ← c.get hop w ns ref.name
    return if w.templated then o else { o with template := none }
  | none =>
    let md ← c.metadata
    let resource ← c.restMapping hop group ref.kind version
    let o ← md hop resource ns ref.name
    return { o with template := none }

/-- The loop, with the hops left and those made. -/
def walk (left hop : Nat) (o : MetaObject) : Bool :=
  if o.installerManagedObject then true
  else
    match c.getControllerOf o with
    | none => false
    | some ref =>
      match left with
      | 0 => true
      | left + 1 =>
        match controller c hop o.ns ref with
        | none => true
        | some next => if next.uid ≠ ref.uid then true else walk left (hop + 1) next

/-- The object, or a controller above it, is taken for the installer's. -/
def installerOwned (o : MetaObject) : Bool := walk c maxControllerHops 0 o

/-- These are the controllers above an object to the end of the chain, each read at the UID its
child refers to, and nothing on the chain has the mark. -/
def Clear : Nat → MetaObject → List MetaObject → Prop
  | _, o, [] => o.installerManagedObject = false ∧ c.getControllerOf o = none
  | hop, o, next :: above => o.installerManagedObject = false ∧
    (∃ ref, c.getControllerOf o = some ref ∧ controller c hop o.ns ref = some next ∧
      next.uid = ref.uid) ∧ Clear (hop + 1) next above

theorem walk_eq_false_iff (left hop : Nat) (o : MetaObject) :
    walk c left hop o = false ↔ ∃ above, above.length ≤ left ∧ Clear c hop o above := by
  constructor
  · intro h
    fun_induction walk c left hop o with
    | case2 left hop o hm href => exact ⟨[], Nat.zero_le _, Bool.eq_false_iff.2 hm, href⟩
    | case6 hop o hm ref href left next hread huid ih =>
      obtain ⟨above, hlen, hclear⟩ := ih h
      exact ⟨next :: above, Nat.succ_le_succ hlen, Bool.eq_false_iff.2 hm,
        ⟨ref, href, hread, not_not.1 huid⟩, hclear⟩
    | _ => cases h
  · rintro ⟨above, hlen, hclear⟩
    induction above generalizing left hop o with
    | nil =>
      obtain ⟨hm, href⟩ := hclear
      cases left <;> simp [walk, hm, href]
    | cons next above ih =>
      obtain ⟨hm, ⟨ref, href, hread, huid⟩, hclear⟩ := hclear
      cases left with
      | zero => cases hlen
      | succ left =>
        simp [walk, hm, href, hread, huid, ih left _ _ (Nat.le_of_succ_le_succ hlen) hclear]

/-- The walk answers no exactly for a chain that it has read to its end, at the UIDs referred to and
without the mark. -/
theorem installerOwned_eq_false_iff (o : MetaObject) : installerOwned c o = false ↔
    ∃ above, above.length ≤ maxControllerHops ∧ Clear c 0 o above :=
  walk_eq_false_iff c maxControllerHops 0 o

end KyYard.Kubernetes
