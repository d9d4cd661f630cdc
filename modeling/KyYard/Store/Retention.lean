import KyYard.Store.Lifecycle

/-!
# Retention and the whole store

Retention deletes settled deployments and removed applications after a while. With it, the discarding
of applications and the deletion of policies, `StoreOp` covers the transactions that write
deployments or instances, but for `CreateMigrationDestination`, which adds an application with its
instance on a cluster; the others write elsewhere (`LifecycleOp.other`). Rows and instances stay
sound under all of them (`store_sound`).
-/

namespace KyYard.Store

open Foundation Protocol

def deploymentHistoryRetention : Int := 90 * 24 * 3600 * second
def applicationRemovedRetention : Int := 90 * 24 * 3600 * second
def pruneBatch : Nat := 5000

/-! ## What goes -/

/-- An automated validation whose rollback is not decided. -/
def Validation.rollbackOpen (v : Validation) : Bool :=
  v.automated && !v.isRollback && v.policyRunID.isSome && v.rollbackOutcome.isNone &&
    (v.phase ≠ .done || v.verdict.any Verdict.rollback)

/-- The latest succeeded apply of the instance's current or previous revision stays. -/
def Db.pinned (db : Db) (d : Deployment) : Bool :=
  d.kind = .apply && d.state = .succeeded &&
    (db.instances.any fun i => i.id = d.instanceID &&
      (d.revision = i.currentRevision || d.revision = i.previousRevision)) &&
    !db.deployments.any fun n => n.instanceID = d.instanceID && n.revision = d.revision &&
      n.kind = .apply && n.state = .succeeded &&
      match d.settledAt, n.settledAt with
      | some t, some u => t < u || (u = t && !Text.le n.id d.id)
      | _, _ => false

/-- A settled row past its retention, unless it is pinned, its application awaits retention itself,
or a rollback that is still open may return to it. -/
def Db.prunable (db : Db) (now : Int) (d : Deployment) : Bool :=
  (d.settledAt.any (· < now - deploymentHistoryRetention)) && !db.pinned d &&
    !(db.applications.any fun a => a.id = d.applicationID && a.removedAt.isSome) &&
    !(d.kind = .apply && d.state = .succeeded &&
      db.validations.any fun v => v.instanceID = d.instanceID && v.rollbackOpen)

/-- The row is in the batch of a pass and past its retention. -/
def Db.falls (db : Db) (now : Int) (batch : List String) (d : Deployment) : Bool :=
  (batch.take pruneBatch).contains d.id && db.prunable now d

/-- Deletes a batch of the rows past their retention; the database picks which. -/
def pruneDeployments (batch : List String) (now : Int) (db : Db) : Db :=
  db.deleteDeployments (db.falls now batch)

/-- A removed application past its retention that was not adopted again. -/
def Db.forgotten (db : Db) (now : Int) (a : Application) : Bool :=
  (a.removedAt.any (· < now - applicationRemovedRetention)) &&
    !db.instances.any fun i => i.applicationID = a.id

/-- Deletes a batch of removed applications. -/
def pruneRemovedApplications (batch : List String) (now : Int) (db : Db) : Db :=
  ((batch.take pruneBatch).filter fun id =>
    (db.application? id).any (db.forgotten now)).foldl (fun db id => db.deleteApplication id) db

/-! ## Every transaction -/

/-- The transactions that write deployments or instances. -/
inductive StoreOp
  | lifecycle (op : LifecycleOp)
  | discardApplication (app : String) (expected : Nat)
  | deletePolicies (p : UpdatePolicy → Bool)
  | pruneDeployments (batch : List String)
  | pruneRemovedApplications (batch : List String)

namespace StoreOp

def exec : StoreOp → Int → Db → Except StoreError Db
  | lifecycle op, now, db => op.exec now db
  | discardApplication app expected, _, db => Store.discardApplication app expected db
  | deletePolicies p, _, db => .ok (db.deletePolicies p)
  | pruneDeployments batch, now, db => .ok (Store.pruneDeployments batch now db)
  | pruneRemovedApplications batch, now, db => .ok (Store.pruneRemovedApplications batch now db)

def fresh : StoreOp → List String
  | lifecycle op => op.fresh
  | _ => []

end StoreOp

/-- The server under every transaction on deployments and instances. -/
abbrev storeMachine : Machine Server (Int × StoreOp) (Option StoreError) :=
  serverMachine StoreOp.exec StoreOp.fresh

section Soundness

variable {now clock : Int} {used : List String} {db db' : Db}

theorem Sound.deletePolicies (h : Sound clock used db) (p : UpdatePolicy → Bool) :
    Sound clock used (db.deletePolicies p) := by
  have rows : (db.deletePolicies p).deployments = (db.deployments.filter fun _ => true).map _ :=
    congrArg (List.map _) (List.filter_true _).symm
  refine h.update le_rfl (fun d hd => ?_) h.instanceIDs
    (fun i hi => ⟨i, hi, Instance.SameOwner.refl i⟩) rows
  exact ⟨⟨rfl, rfl, rfl, rfl, rfl, rfl, rfl⟩, fun hl => hl, h.home d hd, h.numbered d hd,
    h.settled d hd⟩

theorem Sound.deleteApplication (h : Sound clock used db) (id : String) :
    Sound clock used (db.deleteApplication id) :=
  ((h.deletePolicies _).deleteDeployments _).tables le_rfl rfl rfl

/-- What holds however rows are deleted holds after a transaction that only deletes. -/
theorem StoreOp.deletes {op : StoreOp} (h : op.exec now db = .ok db') (hop : ∀ o, op ≠ .lifecycle o)
    {P : Db → Prop} (hdb : P db) (policies : ∀ db p, P db → P (db.deletePolicies p))
    (rows : ∀ db p, P db → P (db.deleteDeployments p))
    (application : ∀ db id, P db → P (db.deleteApplication id)) : P db' := by
  cases op with
  | lifecycle op => exact absurd rfl (hop op)
  | discardApplication app =>
    obtain ⟨-, rfl⟩ := discardApplication_ok h
    exact application db app hdb
  | deletePolicies p =>
    obtain rfl := Except.ok.inj h
    exact policies db p hdb
  | pruneDeployments =>
    obtain rfl := Except.ok.inj h
    exact rows db _ hdb
  | pruneRemovedApplications =>
    obtain rfl := Except.ok.inj h
    exact List.foldlRecOn _ _ hdb fun db hdb id _ => application db id hdb

theorem Sound.store_step {op : Int × StoreOp} {s s' : Server} (h : Sound s.clock s.used s.db)
    (hstep : storeMachine.step op s = .ok s') : Sound s'.clock s'.used s'.db := by
  obtain ⟨hclock, hfresh, db, hexec, rfl⟩ := serverMachine_ok hstep
  obtain ⟨now, op⟩ := op
  cases op with
  | lifecycle => exact h.change hclock hfresh (change_of_exec h.ids hexec)
  | _ =>
    refine Sound.tables ?_ hclock.le rfl rfl
    exact StoreOp.deletes hexec nofun h (fun _ p h => h.deletePolicies p)
      (fun _ p h => h.deleteDeployments p) fun _ id h => h.deleteApplication id

/-- Rows and instances are sound in every reachable state of the store. -/
theorem store_sound {s : Server} (h : storeMachine.Steps Server.new s) :
    Sound s.clock s.used s.db :=
  h.keeps (fun _ _ _ hs hstep => Sound.store_step hs hstep) Server.inv_new.sound

end Soundness

end KyYard.Store
