import KyYard.Store.Bindings

/-!
# Image checks

A check of an application's images reads the mapping and the inventory in one transaction, asks the
registries with none open, and writes its rows in another, if the state it read (`imageCheckState`)
is still the same. Between the two anything may run. A succeeded apply clears the instance's rows,
and on Docker it changes the state, since each service gets a new container. On a cluster nothing in
the state changes, and a check that read before the apply writes its rows after it.

`image_checks_fresh` says that no row outlives an apply it did not see, if every apply that settles
while a check is under way changes what the check compares.
-/

namespace KyYard.Store

open Foundation Protocol

/-! ## The state a check describes -/

/-- Containers with their images, in container id order. -/
def containerState (rs : List Resource) : List (String × String) :=
  (rs.insertionSort fun r s => Text.le r.containerID s.containerID = true).map fun r =>
    (r.containerID, r.imageID)

/-- The state as the source formats it. -/
def imageCheckStateOf (version revision : Nat) (containers : List (String × String)) : String :=
  containers.foldl (fun state c => state ++ (" " ++ c.1 ++ "=" ++ c.2))
    (version.repr ++ " " ++ revision.repr)

/-- The state of an instance now; a released one has none. -/
def imageCheckState (app instanceID : String) (db : Db) : Option String :=
  match (db.instance? instanceID).filter (·.applicationID = app), db.application? app with
  | some i, some a =>
    some (imageCheckStateOf i.mappingVersion a.latestRevision
      (containerState (db.resources.filter (·.instanceID = instanceID))))
  | _, _ => none

/-! ## Reading -/

/-- An image reference, split. -/
structure RegistryRef where
  host : String
  repository : String
  digest : String

/-- What a check takes from outside the tables: the endpoint's runtime, whether the inventory is
fresh and shows every container as the store has it, how references parse, the digest the inventory
shows for a service under a reference, and whether a registry may be asked. -/
structure CheckContext where
  runtime : Runtime
  unchanged : Bool
  parse : String → Option RegistryRef
  localDigest : String → RegistryRef → String
  reachable : String → Bool

/-- A service to check. A verdict set here means that no registry is asked. -/
structure CheckWork where
  service : String
  reference : String
  localDigest : String
  decided : Option (CheckVerdict × String)
deriving DecidableEq

/-- What is left to ask of the registry. -/
def checkWork (c : CheckContext) (s : ApplicationService) : CheckWork :=
  match c.parse s.image with
  | none => ⟨s.name, s.image, "", some (.registryError, "unavailable")⟩
  | some ref =>
    if ref.digest ≠ "" then ⟨s.name, s.image, "", some (.pinned, "")⟩
    else
      let digest := c.localDigest s.name ref
      if digest = "" then ⟨s.name, s.image, "", some (.unknownLocal, "")⟩
      else if c.reachable ref.host = false then
        ⟨s.name, s.image, digest, some (.registryError, "not_configured")⟩
      else ⟨s.name, s.image, digest, none⟩

/-- A check between its two transactions. -/
structure CheckTask where
  app : String
  instanceID : String
  version : Nat
  revision : Nat
  containers : List (String × String)
  work : List CheckWork
  readAt : Int
deriving DecidableEq

/-- The state the check has read. -/
def CheckTask.state (k : CheckTask) : String :=
  imageCheckStateOf k.version k.revision k.containers

/-- The first transaction. On Docker the inventory has the instance's containers, all under full
ids. -/
def readImageChecks (app : String) (c : CheckContext) (now : Int) (db : Db) :
    Except StoreError CheckTask :=
  match db.application? app, db.instanceOf? app with
  | some a, some i =>
    let containers := if i.ns = "" then
      containerState (db.resources.filter fun r => r.instanceID = i.id && r.endpointID = i.endpointID)
      else []
    if (c.runtime = .kubernetes) ≠ (i.ns ≠ "") then .error .runtimeUnsupported
    else if c.unchanged = false ∨ (i.ns = "" ∧ containers = []) ∨
        containers.any (fun x => !validContainerHexID x.1) = true then .error .adoptionChanged
    else
      match db.revision? app a.latestRevision with
      | none => .error .notFound
      | some rev =>
        if rev.intact = false ∨ validateApplicationSpec rev.spec = false then
          .error .revisionCorrupt
        else if i.mappingVersion < 1 then .error .mappingRequired
        else
          .ok ⟨app, i.id, i.mappingVersion, a.latestRevision, containers,
            (rev.spec.services.filter fun s =>
              i.ns ≠ "" || (db.bound? i.id s.name).isSome).map (checkWork c), now⟩
  | _, _ => .error .notFound

/-! ## Asking and writing -/

/-- How a registry fails. -/
inductive RegistryError
  | unauthorized
  | notFound
  | rateLimited
  | privateDestination
  | redirected
  | other

def registryErrorDetail : RegistryError → String
  | .unauthorized => "unauthorized"
  | .notFound => "not_found"
  | .rateLimited => "rate_limited"
  | .privateDestination => "private_destination"
  | .redirected => "redirected"
  | .other => "unavailable"

/-- What the registries answered, by service; one given up on is an error. -/
abbrev Registry := String → Except RegistryError String

/-- The row of a service once the registry answered. -/
def CheckWork.row (w : CheckWork) (head : Registry) (k : CheckTask) (now : Int) : ImageCheck :=
  let row (remote : String) (verdict : CheckVerdict) (detail : String) : ImageCheck :=
    ⟨k.instanceID, w.service, w.reference, w.localDigest, remote, verdict, detail, now, k.readAt⟩
  match w.decided, head w.service with
  | some (verdict, detail), _ => row "" verdict detail
  | none, .error e => row "" .registryError (registryErrorDetail e)
  | none, .ok digest =>
    row digest (if digest = w.localDigest then .current else .updateAvailable) ""

/-- The second transaction, under the application's lock. -/
def writeImageChecks (k : CheckTask) (head : Registry) (now : Int) (db : Db) :
    Except StoreError Db :=
  match db.application? k.app with
  | none => .error .notFound
  | some _ =>
    match imageCheckState k.app k.instanceID db with
    | none => .error .adoptionChanged
    | some state =>
      if state ≠ k.state then .error .adoptionChanged
      else
        let db := db.clearImageChecks k.instanceID
        .ok { db with imageChecks := db.imageChecks ++ k.work.map (·.row head k now) }

/-! ## Checks under way -/

/-- The server with the checks under way, and every succeeded apply there was: its instance and the
instant it settled. -/
structure Checker where
  server : Server
  tasks : List CheckTask
  settles : List (String × Int)

def Checker.new : Checker := ⟨.new, [], []⟩

/-- The steps of checks, and all others. -/
inductive CheckOp
  | store (op : StoreOp)
  | read (app : String) (c : CheckContext)
  | write (k : CheckTask) (head : Registry)
  | abandon (k : CheckTask)

/-- Checks between transactions. -/
def checkMachine : Machine Checker (Int × CheckOp) (Option StoreError) where
  step op s :=
    match op.2 with
    | .store o =>
      if o.sparesChecks s.server.db = false then .error none
      else
        match storeMachine.step (op.1, o) s.server with
        | .error e => .error e
        | .ok server => .ok ⟨server, s.tasks, s.settles ++ o.settles op.1 s.server.db⟩
    | .read app c =>
      if s.server.clock < op.1 then
        match readImageChecks app c op.1 s.server.db with
        | .error e => .error (some e)
        | .ok k => .ok { s with server := { s.server with clock := op.1 }, tasks := k :: s.tasks }
      else .error none
    | .write k head =>
      if s.server.clock < op.1 ∧ k ∈ s.tasks then
        match writeImageChecks k head op.1 s.server.db with
        | .error e => .error (some e)
        | .ok db =>
          .ok { s with server := { s.server with db := db, clock := op.1 }, tasks := s.tasks.erase k }
      else .error none
    | .abandon k => .ok { s with tasks := s.tasks.erase k }

/-! ## The condition -/

/-- The mapping or the revision changed since the check read. -/
def CheckTask.reviewed (k : CheckTask) (db : Db) : Bool :=
  (db.instance? k.instanceID).any (·.mappingVersion ≠ k.version) ||
    (db.application? k.app).any (·.latestRevision ≠ k.revision)

/-- The result of an apply changes what the check compares: on Docker its containers are none of
those the check read, and on a cluster it is no success, or the check is outdated anyway. -/
def CheckTask.notices (k : CheckTask) (d : Deployment) (r : DeploymentResult) (db : Db) : Bool :=
  if d.plan.ns = "" then
    r.services.all fun id => !(k.containers.map Prod.fst).contains id.containerID
  else r.outcome ≠ some .succeeded || k.reviewed db

/-- Every check under way notices the apply that settles. -/
def Checker.noticed (s : Checker) (op : Int × CheckOp) : Bool :=
  match op.2 with
  | .store (.lifecycle (.settleDeployment _ r)) =>
    (s.server.db.deployment? r.deployment).all fun d => d.kind = .remove ||
      s.tasks.all fun k => k.instanceID ≠ d.instanceID || k.notices d r s.server.db
  | _ => true

/-! ## States that agree -/

/-- A container of a state as it is spelled. -/
def spelled (c : String × String) : List Char := ' ' :: (c.1.toList ++ '=' :: c.2.toList)

theorem toList_imageCheckStateOf (version revision : Nat) (cs : List (String × String)) :
    (imageCheckStateOf version revision cs).toList =
      version.repr.toList ++ (' ' :: (revision.repr.toList ++ cs.flatMap spelled)) := by
  have hfold : ∀ init : String,
      (cs.foldl (fun state c => state ++ (" " ++ c.1 ++ "=" ++ c.2)) init).toList =
        init.toList ++ cs.flatMap spelled := by
    induction cs with
    | nil => simp
    | cons c cs ih =>
      intro init
      rw [List.foldl_cons, ih]
      simp [spelled]
  rw [imageCheckStateOf, hfold]
  simp

theorem repr_injective {m n : Nat} (h : m.repr.toList = n.repr.toList) : m = n := by
  have hd : Nat.toDigits 10 m = Nat.toDigits 10 n := by simpa using h
  rw [← Nat.ofDigitChars_toDigits (b := 10) (n := m) (by decide) (by decide), hd,
    Nat.ofDigitChars_toDigits (by decide) (by decide)]

theorem repr_ne_space {n : Nat} {c : Char} (hc : c ∈ n.repr.toList) : (c != ' ') = true := by
  have hd : c.isDigit = true := by
    apply Nat.isDigit_of_mem_toDigits (b := 10) (by decide) (by decide)
    simpa using hc
  by_contra hs
  rw [bne_iff_ne, not_not] at hs
  subst hs
  cases hd

theorem hexID_ne_eq {s : String} (h : validContainerHexID s = true) {c : Char}
    (hc : c ∈ s.toList) : (c != '=') = true := by
  have hall : (Pattern.rep 64 64 (.one Class.hex)).All fun c => Class.hex c = true :=
    fun _ hc => hc
  have hx := Pattern.all_of_accepts hall h c hc
  by_contra hs
  rw [bne_iff_ne, not_not] at hs
  subst hs
  cases hx

/-- Two lists of containers under full ids are spelled alike only if they agree, provided that no id
has two images. -/
theorem flatMap_spelled_inj {cs cs' : List (String × String)}
    (hcs : ∀ x ∈ cs, validContainerHexID x.1 = true)
    (hcs' : ∀ x ∈ cs', validContainerHexID x.1 = true)
    (himage : ∀ x ∈ cs, ∀ y ∈ cs', x.1 = y.1 → x.2 = y.2)
    (h : cs.flatMap spelled = cs'.flatMap spelled) : cs = cs' := by
  induction cs generalizing cs' with
  | nil =>
    cases cs' with
    | nil => rfl
    | cons => simp [spelled] at h
  | cons x cs ih =>
    cases cs' with
    | nil => simp [spelled] at h
    | cons y =>
      rw [List.forall_mem_cons] at hcs hcs'
      simp only [List.flatMap_cons, spelled, List.cons_append, List.append_assoc,
        List.cons.injEq, true_and] at h
      -- the ids end at the first equals sign
      obtain ⟨hid, hrest⟩ := Text.append_inj_of_head (fun c => hexID_ne_eq hcs.1)
        (fun c => hexID_ne_eq hcs'.1) (by simp) (by simp) h
      have hxy : x.1 = y.1 := String.toList_inj.1 hid
      have himg : x.2 = y.2 := himage x List.mem_cons_self y List.mem_cons_self hxy
      rw [himg, List.cons.injEq, List.append_cancel_left_eq] at hrest
      rw [ih hcs.2 hcs'.2 (fun a ha b hb => himage a (List.mem_cons_of_mem _ ha) b
        (List.mem_cons_of_mem _ hb)) hrest.2, Prod.ext hxy himg]

theorem imageCheckStateOf_inj {v v' n n' : Nat} {cs cs' : List (String × String)}
    (hcs : ∀ x ∈ cs, validContainerHexID x.1 = true)
    (hcs' : ∀ x ∈ cs', validContainerHexID x.1 = true)
    (himage : ∀ x ∈ cs, ∀ y ∈ cs', x.1 = y.1 → x.2 = y.2)
    (h : imageCheckStateOf v n cs = imageCheckStateOf v' n' cs') : v = v' ∧ n = n' ∧ cs = cs' := by
  have hl := congrArg String.toList h
  rw [toList_imageCheckStateOf, toList_imageCheckStateOf] at hl
  have hhead : ∀ l : List (String × String), ∀ c ∈ (l.flatMap spelled).head?, (c != ' ') = false := by
    intro l c hc
    cases l with
    | nil => simp at hc
    | cons =>
      simp only [List.flatMap_cons, spelled, List.cons_append, List.head?_cons, Option.mem_def,
        Option.some.injEq] at hc
      subst hc
      rfl
  obtain ⟨hv, hl⟩ := Text.append_inj_of_head (fun c => repr_ne_space)
    (fun c => repr_ne_space) (by simp) (by simp) hl
  obtain ⟨hn, hl⟩ := Text.append_inj_of_head (fun c => repr_ne_space)
    (fun c => repr_ne_space) (hhead cs) (hhead cs') (List.cons.inj hl).2
  exact ⟨repr_injective hv, repr_injective hn, flatMap_spelled_inj hcs hcs' himage hl⟩

/-! ## What holds of every check under way -/

/-- A check that will not be written: its instance was mapped again, its application revised, or a
container it read is gone. -/
def CheckTask.Outdated (k : CheckTask) (db : Db) : Prop :=
  (∀ i, db.instance? k.instanceID = some i → k.version < i.mappingVersion) ∨
    (∀ a, db.application? k.app = some a → k.revision < a.latestRevision) ∨
    ∃ x ∈ k.containers, ∀ r ∈ db.resources, r.instanceID = k.instanceID → r.containerID ≠ x.1

/-- The instance has the containers the check read, or the check is outdated; and a check that an
apply overtook is outdated. -/
structure CheckTask.Inv (k : CheckTask) (used : List String) (settles : List (String × Int))
    (db : Db) : Prop where
  known : k.instanceID ∈ used ∧ k.app ∈ used
  full : ∀ x ∈ k.containers, validContainerHexID x.1 = true
  distinct : (k.containers.map Prod.fst).Nodup
  version : ∀ i, db.instance? k.instanceID = some i → k.version ≤ i.mappingVersion
  revision : ∀ a, db.application? k.app = some a → k.revision ≤ a.latestRevision
  bound : ∀ r ∈ db.resources, r.instanceID = k.instanceID →
    (r.containerID, r.imageID) ∈ k.containers ∨
      (∀ x ∈ k.containers, r.containerID ≠ x.1) ∧ validContainerHexID r.containerID = true ∧
        k.Outdated db
  settled : ∀ e ∈ settles, e.1 = k.instanceID → e.2 ≤ k.readAt ∨ k.Outdated db

/-- The invariant. -/
structure Checker.Inv (s : Checker) : Prop where
  sound : Sound s.server.clock s.server.used s.server.db
  applications : ∀ id a, s.server.db.application? id = some a → id ∈ s.server.used
  plans : ∀ d ∈ s.server.db.deployments, d.kind = .apply → d.plan.services ≠ []
  containers : ∀ r ∈ s.server.db.resources, r.instanceID ∈ s.server.used ∧
    ∀ i, s.server.db.instance? r.instanceID = some i → i.endpointID = r.endpointID ∧ i.ns = ""
  distinct : (s.server.db.resources.map Resource.place).Nodup
  tasks : ∀ k ∈ s.tasks, k.Inv s.server.used s.settles s.server.db
  rows : ∀ c ∈ s.server.db.imageChecks, ∀ e ∈ s.settles, e.1 = c.instanceID → e.2 ≤ c.readAt
  times : ∀ e ∈ s.settles, e.2 ≤ s.server.clock

theorem Checker.inv_new : Checker.new.Inv := by
  refine ⟨Server.inv_new.sound, ?_, ?_, ?_, List.nodup_nil, ?_, ?_, ?_⟩
  · intro id a h
    cases h
  all_goals
    intro x hx
    cases hx

section Tasks

variable {k : CheckTask} {fresh used : List String} {settles : List (String × Int)} {db db' : Db}

/-- An outdated check stays so, if no container it read comes back. -/
theorem CheckTask.Outdated.stays (h : k.Outdated db) (haround : Around fresh db db')
    (hi : k.instanceID ∉ fresh) (ha : k.app ∉ fresh)
    (hback : ∀ r' ∈ db'.resources, r'.instanceID = k.instanceID →
      (∀ x ∈ k.containers, r'.containerID ≠ x.1) ∨
        ∃ r ∈ db.resources, r.instanceID = k.instanceID ∧ r.containerID = r'.containerID) :
    k.Outdated db' := by
  rcases h with hversion | hrevision | ⟨x, hx, hgone⟩
  · refine .inl fun i' hi' => ?_
    rcases haround.instances _ i' hi' with hc | ⟨i, hfind, -, -, hle⟩
    · exact absurd hc hi
    · exact (hversion i hfind).trans_le hle
  · refine .inr (.inl fun a' ha' => ?_)
    rcases haround.applications _ a' ha' with hc | ⟨a, hfind, hle⟩
    · exact absurd hc ha
    · exact (hrevision a hfind).trans_le hle
  · refine .inr (.inr ⟨x, hx, fun r' hr' hri hc => ?_⟩)
    rcases hback r' hr' hri with hnew | ⟨r, hr, hir, hcr⟩
    · exact hnew x hx hc
    · exact hgone r hr hir (hcr.trans hc)

theorem CheckTask.Inv.versions (h : k.Inv used settles db) (haround : Around fresh db db')
    (hfresh : ∀ id ∈ fresh, id ∉ used) :
    (∀ i, db'.instance? k.instanceID = some i → k.version ≤ i.mappingVersion) ∧
      ∀ a, db'.application? k.app = some a → k.revision ≤ a.latestRevision := by
  constructor
  · intro i' hi'
    rcases haround.instances _ i' hi' with hc | ⟨i, hfind, -, -, hle⟩
    · exact absurd h.known.1 (hfresh _ hc)
    · exact (h.version i hfind).trans hle
  · intro a' ha'
    rcases haround.applications _ a' ha' with hc | ⟨a, hfind, hle⟩
    · exact absurd h.known.2 (hfresh _ hc)
    · exact (h.revision a hfind).trans hle

/-- A transaction that only takes away leaves the checks as they are. -/
theorem CheckTask.Inv.carry (h : k.Inv used settles db) (hcarries : Carries fresh db db')
    (hfresh : ∀ id ∈ fresh, id ∉ used) : k.Inv (fresh ++ used) settles db' := by
  have hi : k.instanceID ∉ fresh := fun hc => hfresh _ hc h.known.1
  have ha : k.app ∉ fresh := fun hc => hfresh _ hc h.known.2
  -- a container of the instance was there before
  have hold : ∀ r' ∈ db'.resources, r'.instanceID = k.instanceID → ∃ r ∈ db.resources,
      r.instanceID = k.instanceID ∧ r.containerID = r'.containerID ∧ r.imageID = r'.imageID := by
    intro r' hr' hri
    rcases hcarries.resources r' hr' with ⟨r, hr, h₁, -, h₃, h₄⟩ | ⟨hc, -⟩
    · exact ⟨r, hr, h₁.symm.trans hri, h₃.symm, h₄.symm⟩
    · exact absurd (hri ▸ hc) hi
  have hstays : k.Outdated db → k.Outdated db' := by
    intro hout
    apply hout.stays hcarries.toAround hi ha
    intro r' hr' hri
    obtain ⟨r, hr, h₁, h₂, -⟩ := hold r' hr' hri
    exact .inr ⟨r, hr, h₁, h₂⟩
  obtain ⟨hversion, hrevision⟩ := h.versions hcarries.toAround hfresh
  refine ⟨⟨List.mem_append_right _ h.known.1, List.mem_append_right _ h.known.2⟩, h.full, h.distinct,
    hversion, hrevision, ?_, ?_⟩
  · intro r' hr' hri
    obtain ⟨r, hr, h₁, h₂, h₃⟩ := hold r' hr' hri
    rw [← h₂, ← h₃]
    exact (h.bound r hr h₁).imp_right fun ⟨hx, hfull, hout⟩ => ⟨hx, hfull, hstays hout⟩
  · intro e he hei
    exact (h.settled e he hei).imp_right hstays

/-- A container that fits its service's plan is reported under a full id. -/
theorem fullID_of_fits {plan : DeploymentPlan} {res : DeploymentResult}
    (hvalid : res.validate = true) (hfit : identitiesFit dockerFits plan res = true)
    {id : DeploymentIdentity} (hid : id ∈ res.services) :
    validContainerHexID id.containerID = true := by
  simp only [DeploymentResult.validate, Bool.and_eq_true, List.all_eq_true] at hvalid
  simp only [identitiesFit, Bool.and_eq_true, List.all_eq_true, Option.any_eq_true] at hfit
  obtain ⟨s, -, hs⟩ := hfit.1.2 id hid
  have hkind : id.kind = .container := by
    simp only [dockerFits, Bool.and_eq_true, decide_eq_true_eq] at hs
    exact hs.1
  have hv := (hvalid.2 id hid).2
  simp only [DeploymentIdentity.valid, hkind, InspectionTarget.valid, Bool.and_eq_true] at hv
  exact hv.1.2.1.1

section SettledApply

variable {d : Deployment} {r : DeploymentResult} {o : Outcome} {st : DeploymentState} {now : Int}

/-- An apply that reports containers outdates every check of its instance that it does not
repeat. -/
theorem CheckTask.Inv.overtaken (h : k.Inv used settles db) (hk : d.kind = .apply)
    (hns : d.plan.ns = "") (hinst : k.instanceID = d.instanceID)
    (hcontainers : ∀ r ∈ db.resources, ∀ i, db.instance? r.instanceID = some i →
      i.endpointID = r.endpointID)
    (hnew : ∀ id ∈ r.services, ∀ x ∈ k.containers, id.containerID ≠ x.1) (hne : r.services ≠ [])
    (htables : Settled d (legacyResult r) o st now db db') : k.Outdated db' := by
  have haround : Around [] db db' := htables.around hk
  have hmem := (htables.containers hk).1
  obtain ⟨rs, hrs, hresources⟩ := htables.resources
  rw [if_neg (by simp [hk])] at hresources
  obtain ⟨-, hfold⟩ := hrs.docker hk hns
  rw [legacyResult_services] at hfold hmem
  obtain ⟨id, ids, hids⟩ := List.exists_cons_of_ne_nil hne
  rw [hids] at hfold
  obtain ⟨old, hold, hoi, hoe, hgone⟩ := foldlM_rebind_gone hfold
  rw [← hids, ← hresources] at hgone
  rcases h.bound old hold (hoi.trans hinst.symm) with hread | ⟨-, -, hout⟩
  · -- the check read the container that gave way
    cases hfind : db'.instance? k.instanceID with
    | none =>
      refine .inl fun i hi => ?_
      rw [hfind] at hi
      cases hi
    | some i' =>
      rcases haround.instances _ i' hfind with hc | ⟨i, hi, -⟩
      · cases hc
      refine .inr (.inr ⟨_, hread, fun r' hr' hri => ?_⟩)
      have hend : r'.endpointID = d.endpointID := by
        rcases hmem r' hr' with hr' | ⟨-, -, he, -⟩
        · rw [← hcontainers r' hr' i (hri ▸ hi), ← hoe]
          exact hcontainers old hold i (hoi.trans hinst.symm ▸ hi)
        · exact he
      exact hgone (fun x hx => hnew x hx _ hread) r' hr' (hri.trans hinst) hend
  · -- it was outdated before
    refine hout.stays haround (by simp) (by simp) ?_
    intro r' hr' hri
    rcases hmem r' hr' with hr' | ⟨-, -, -, x, hx, hc⟩
    · exact .inr ⟨r', hr', hri, rfl⟩
    · exact .inl fun y hy => hc ▸ hnew x hx y hy

/-- The succeeded apply, if it is one. -/
def settleOf (d : Deployment) (st : DeploymentState) (now : Int) : List (String × Int) :=
  if st = .succeeded then [(d.instanceID, now)] else []

theorem mem_settleOf {d : Deployment} {st : DeploymentState} {now : Int} {e : String × Int}
    (he : e ∈ settleOf d st now) : st = .succeeded ∧ e = (d.instanceID, now) := by
  unfold settleOf at he
  split at he
  · next hsucc => exact ⟨hsucc, List.mem_singleton.1 he⟩
  · cases he

/-- A check under way that notices the apply stays what it was, or is outdated. -/
theorem CheckTask.Inv.settle (h : k.Inv used settles db) (hk : d.kind = .apply)
    (hplan : d.plan.services ≠ []) (hst : outcomeState? o = some st) (ho : r.outcome = some o)
    (hcontainers : ∀ r ∈ db.resources, ∀ i, db.instance? r.instanceID = some i →
      i.endpointID = r.endpointID)
    (hnotices : k.instanceID = d.instanceID → k.notices d r db = true)
    (hvalid : (legacyResult r).validate = true)
    (htables : Settled d (legacyResult r) o st now db db') :
    k.Inv used (settles ++ settleOf d st now) db' := by
  have haround : Around [] db db' := htables.around hk
  have hmem := (htables.containers hk).1
  obtain ⟨hversion, hrevision⟩ := h.versions haround (by simp)
  rw [legacyResult_services] at hmem
  -- on Docker, the result's containers are none of those the check read
  have hnew : k.instanceID = d.instanceID → d.plan.ns = "" →
      ∀ id ∈ r.services, ∀ x ∈ k.containers, id.containerID ≠ x.1 := by
    intro hinst hns id hid x hx hc
    have hn := hnotices hinst
    simp only [CheckTask.notices, hns, if_true, List.all_eq_true, Bool.not_eq_true',
      List.contains_eq_mem, decide_eq_false_iff_not, List.mem_map, not_exists, not_and] at hn
    exact hn id hid x hx hc.symm
  have hstays : k.Outdated db → k.Outdated db' := by
    intro hout
    refine hout.stays haround (by simp) (by simp) ?_
    intro r' hr' hri
    rcases hmem r' hr' with hr' | ⟨hns, hi, -, x, hx, hc⟩
    · exact .inr ⟨r', hr', hri, rfl⟩
    · exact .inl fun y hy => hc ▸ hnew (hri.symm.trans hi) hns x hx y hy
  have hovertaken : k.instanceID = d.instanceID → d.plan.ns = "" → r.services ≠ [] →
      k.Outdated db' := fun hinst hns hne =>
    h.overtaken hk hns hinst hcontainers (hnew hinst hns) hne htables
  refine ⟨h.known, h.full, h.distinct, hversion, hrevision, ?_, ?_⟩
  · intro r' hr' hri
    rcases hmem r' hr' with hold | ⟨hns, hi, -, x, hx, hc⟩
    · exact (h.bound r' hold hri).imp_right fun ⟨hy, hfull, hout⟩ => ⟨hy, hfull, hstays hout⟩
    have hinst : k.instanceID = d.instanceID := hri.symm.trans hi
    obtain ⟨rs, hrs, -⟩ := htables.resources
    have hfit := (hrs.docker hk hns).1
    refine .inr ⟨fun y hy => hc ▸ hnew hinst hns x hx y hy, ?_, ?_⟩
    · rw [hc]
      exact fullID_of_fits hvalid hfit (by rwa [legacyResult_services])
    · exact hovertaken hinst hns (List.ne_nil_of_mem hx)
  · intro e he hei
    rcases List.mem_append.1 he with he | he
    · exact (h.settled e he hei).imp_right hstays
    -- the apply that settles now
    refine .inr ?_
    obtain ⟨hsucc, rfl⟩ := mem_settleOf he
    have hinst : k.instanceID = d.instanceID := hei.symm
    have hout : r.outcome = some .succeeded := by
      rw [ho, (outcomeState?_succeeded hst).2 hsucc]
    by_cases hns : d.plan.ns = ""
    · apply hovertaken hinst hns
      obtain ⟨rs, hrs, -⟩ := htables.resources
      have hfit := (hrs.docker hk hns).1
      simp only [identitiesFit, legacyResult_outcome, legacyResult_services, hout, ne_eq,
        not_true_eq_false, decide_false, Bool.false_or, Bool.and_eq_true,
        decide_eq_true_eq] at hfit
      rw [← List.length_pos_iff, hfit.2]
      exact List.length_pos_iff.2 hplan
    · have hn := hnotices hinst
      simp only [CheckTask.notices, hns, if_false, hout, ne_eq, not_true_eq_false, decide_false,
        Bool.false_or, CheckTask.reviewed, Bool.or_eq_true, Option.any_eq_true,
        decide_eq_true_eq] at hn
      apply hstays
      rcases hn with ⟨i, hi, hne⟩ | ⟨a, ha, hne⟩
      · refine .inl fun j hj => ?_
        obtain rfl : i = j := Option.some.inj (hi.symm.trans hj)
        have := h.version i hi
        omega
      · refine .inr (.inl fun b hb => ?_)
        obtain rfl : a = b := Option.some.inj (ha.symm.trans hb)
        have := h.revision a ha
        omega

end SettledApply

end Tasks

/-! ## Runs -/

section Steps

variable {s s' : Checker} {now : Int} {db db' : Db}

theorem Checker.Inv.carry (h : s.Inv) {fresh : List String}
    (hfresh : ∀ id ∈ fresh, id ∉ s.server.used)
    (hsound : Sound now (fresh ++ s.server.used) db') (hclock : s.server.clock ≤ now)
    (hcarries : Carries fresh s.server.db db') :
    Checker.Inv ⟨⟨db', now, fresh ++ s.server.used⟩, s.tasks, s.settles⟩ := by
  refine ⟨hsound, ?_, ?_, ?_, hcarries.distinct h.distinct,
    fun k hk => (h.tasks k hk).carry hcarries hfresh,
    fun c hc => h.rows c (hcarries.imageChecks c hc), fun e he => (h.times e he).trans hclock⟩
  · intro id a' ha'
    rcases hcarries.applications id a' ha' with hid | ⟨a, ha, -⟩
    · exact List.mem_append_left _ hid
    · exact List.mem_append_right _ (h.applications id a ha)
  · intro d' hd' hk
    rcases hcarries.plans d' hd' hk with hne | ⟨d, hd, hkd, hp⟩
    · exact hne
    · exact hp ▸ h.plans d hd hkd
  · intro r' hr'
    rcases hcarries.resources r' hr' with ⟨r, hr, hi, he, -, -⟩ | ⟨hid, hnew⟩
    · obtain ⟨hused, hhome⟩ := h.containers r hr
      refine ⟨hi ▸ List.mem_append_right _ hused, fun i' hi' => ?_⟩
      rcases hcarries.instances _ i' hi' with hc | ⟨i, hfind, hei, hns, -⟩
      · exact absurd (hi ▸ hused) (hfresh _ hc)
      · obtain ⟨h₁, h₂⟩ := hhome i (hi ▸ hfind)
        exact ⟨by rw [hei, h₁, he], hns h₂⟩
    · exact ⟨List.mem_append_left _ hid, hnew⟩

theorem Checker.Inv.settle (h : s.Inv) {d : Deployment} {r : DeploymentResult} {o : Outcome}
    {st : DeploymentState} (hsound : Sound now s.server.used db') (hclock : s.server.clock < now)
    (hd : d ∈ s.server.db.deployments) (hk : d.kind = .apply) (ho : r.outcome = some o)
    (hst : outcomeState? o = some st) (hvalid : (legacyResult r).validate = true)
    (hnotices : ∀ k ∈ s.tasks, k.instanceID = d.instanceID → k.notices d r s.server.db = true)
    (htables : Settled d (legacyResult r) o st now s.server.db db') :
    Checker.Inv ⟨⟨db', now, s.server.used⟩, s.tasks, s.settles ++ settleOf d st now⟩ := by
  have haround : Around [] s.server.db db' := htables.around hk
  obtain ⟨hmem, hhad, hdistinct⟩ := htables.containers hk
  have hhome : ∀ r ∈ s.server.db.resources, ∀ i', db'.instance? r.instanceID = some i' →
      i'.endpointID = r.endpointID ∧ i'.ns = "" := by
    intro r hr i' hi'
    rcases haround.instances _ i' hi' with hc | ⟨i, hfind, hei, hns, -⟩
    · cases hc
    · obtain ⟨h₁, h₂⟩ := (h.containers r hr).2 i hfind
      exact ⟨hei.trans h₁, hns h₂⟩
  refine ⟨hsound, ?_, ?_, ?_, hdistinct h.distinct, ?_, ?_, ?_⟩
  · intro id a' ha'
    rcases haround.applications id a' ha' with hc | ⟨a, ha, -⟩
    · cases hc
    · exact h.applications id a ha
  · intro d' hd' hk'
    rcases haround.plans d' hd' hk' with hne | ⟨d₀, hd₀, hk₀, hp⟩
    · exact hne
    · exact hp ▸ h.plans d₀ hd₀ hk₀
  · intro r' hr'
    rcases hmem r' hr' with hr' | ⟨hns, hi, he, x, hx, -⟩
    · exact ⟨(h.containers r' hr').1, hhome r' hr'⟩
    · obtain ⟨old, hold, hoi, hoe⟩ := hhad hns (List.ne_nil_of_mem hx)
      refine ⟨hi ▸ hoi ▸ (h.containers old hold).1, fun i' hi' => ?_⟩
      rw [he, ← hoe]
      exact hhome old hold i' (by rwa [hi, ← hoi] at hi')
  · intro k hk'
    exact (h.tasks k hk').settle hk (h.plans d hd hk) hst ho
      (fun r hr i hi => ((h.containers r hr).2 i hi).1) (hnotices k hk') hvalid htables
  · intro c hc e he hei
    rcases List.mem_append.1 he with he | he
    · exact h.rows c (haround.imageChecks c hc) e he hei
    -- the rows of the instance went with the apply
    obtain ⟨hsucc, rfl⟩ := mem_settleOf he
    rw [htables.imageChecks, if_pos hsucc] at hc
    exact absurd hei.symm (by simpa using (List.mem_filter.1 hc).2)
  · intro e he
    rcases List.mem_append.1 he with he | he
    · exact (h.times e he).trans hclock.le
    · rw [(mem_settleOf he).2]

theorem mem_containerState {rs : List Resource} {x : String × String} :
    x ∈ containerState rs ↔ ∃ r ∈ rs, (r.containerID, r.imageID) = x := by
  simp [containerState]

/-- Containers of one host are distinct in their state. -/
theorem containerState_nodup {rs : List Resource} {endpointID : String}
    (hn : (rs.map Resource.place).Nodup) (he : ∀ r ∈ rs, r.endpointID = endpointID) :
    ((containerState rs).map Prod.fst).Nodup := by
  have hperm := (List.perm_insertionSort
    (fun r s : Resource => Text.le r.containerID s.containerID = true) rs).map Resource.containerID
  have hids : (rs.map Resource.containerID).Nodup := by
    apply List.Nodup.map_on _ (List.Nodup.of_map _ hn)
    intro r hr r' hr' hc
    exact List.inj_on_of_nodup_map hn hr hr' (Prod.ext ((he r hr).trans (he r' hr').symm) hc)
  rw [containerState, List.map_map]
  exact hperm.nodup_iff.2 hids

variable {k : CheckTask}

theorem readImageChecks_ok {app : String} {c : CheckContext}
    (h : readImageChecks app c now db = .ok k) :
    ∃ a i, db.application? app = some a ∧ db.instanceOf? app = some i ∧ k.app = app ∧
      k.instanceID = i.id ∧ k.version = i.mappingVersion ∧ k.revision = a.latestRevision ∧
      k.containers = (if i.ns = "" then containerState (db.resources.filter fun r =>
        r.instanceID = i.id && r.endpointID = i.endpointID) else []) ∧
      (∀ x ∈ k.containers, validContainerHexID x.1 = true) ∧ k.readAt = now := by
  unfold readImageChecks at h
  split at h
  · next a i ha hi =>
    simp only [guard_error_eq_ok, not_or, Bool.not_eq_true, List.any_eq_false] at h
    obtain ⟨-, ⟨-, -, hfull⟩, h⟩ := h
    split at h
    · cases h
    simp only [guard_error_eq_ok, Except.ok.injEq] at h
    obtain ⟨-, -, rfl⟩ := h
    exact ⟨a, i, ha, hi, rfl, rfl, rfl, rfl, rfl, fun x hx => by simpa using hfull x hx, rfl⟩
  · cases h

theorem Checker.Inv.read (h : s.Inv) (hclock : s.server.clock < now) {app : String}
    {c : CheckContext} (hread : readImageChecks app c now s.server.db = .ok k) :
    Checker.Inv { s with server := { s.server with clock := now }, tasks := k :: s.tasks } := by
  refine ⟨h.sound.tables hclock.le rfl rfl, h.applications, h.plans, h.containers, h.distinct, ?_,
    h.rows, fun e he => (h.times e he).trans hclock.le⟩
  intro k' hk'
  rcases List.mem_cons.1 hk' with rfl | hk'
  · obtain ⟨a, i, ha, hi, rfl, hinst, hversion, hrevision, hcontainers, hfull, hat⟩ :=
      readImageChecks_ok hread
    have himem := Table.mem_of_find _ hi
    have hfind : s.server.db.instance? i.id = some i :=
      Table.find_of_mem _ h.sound.instanceIDs himem
    refine ⟨⟨hinst ▸ h.sound.knownInstance i himem, h.applications _ a ha⟩, hfull, ?_, ?_, ?_, ?_,
      ?_⟩
    · rw [hcontainers]
      split
      · apply containerState_nodup (distinct_filter h.distinct)
        intro r hr
        have hr := (List.mem_filter.1 hr).2
        simp only [Bool.and_eq_true, decide_eq_true_eq] at hr
        exact hr.2
      · exact List.nodup_nil
    · intro j hj
      rw [hinst, hfind] at hj
      rw [hversion, ← Option.some.inj hj]
    · intro b hb
      rw [hrevision, Option.some.inj (ha.symm.trans hb)]
    · intro r hr hri
      obtain ⟨he, hns⟩ := (h.containers r hr).2 i (by rw [hri, hinst, hfind])
      rw [hcontainers, if_pos hns, mem_containerState]
      exact .inl ⟨r, List.mem_filter.2 ⟨hr, by simp [hri, hinst, he]⟩, rfl⟩
    · intro e he _
      exact .inl (hat ▸ (h.times e he).trans hclock.le)
  · exact h.tasks k' hk'

/-- A check whose state is unchanged is not outdated. -/
theorem CheckTask.Inv.not_outdated {used : List String}
    {settles : List (String × Int)} (h : k.Inv used settles db)
    (hstate : imageCheckState k.app k.instanceID db = some k.state) : ¬ k.Outdated db := by
  unfold imageCheckState at hstate
  split at hstate
  · next i a hi ha =>
    rw [Option.filter_eq_some_iff] at hi
    have hmem : ∀ x ∈ containerState (db.resources.filter (·.instanceID = k.instanceID)),
        ∃ r ∈ db.resources, r.instanceID = k.instanceID ∧ (r.containerID, r.imageID) = x := by
      intro x hx
      obtain ⟨r, hr, hrx⟩ := mem_containerState.1 hx
      obtain ⟨hr, hri⟩ := List.mem_filter.1 hr
      exact ⟨r, hr, by simpa using hri, hrx⟩
    have hfull : ∀ x ∈ containerState (db.resources.filter (·.instanceID = k.instanceID)),
        validContainerHexID x.1 = true := by
      intro x hx
      obtain ⟨r, hr, hri, rfl⟩ := hmem x hx
      rcases h.bound r hr hri with hread | ⟨-, hfull, -⟩
      · exact h.full _ hread
      · exact hfull
    have himage : ∀ x ∈ containerState (db.resources.filter (·.instanceID = k.instanceID)),
        ∀ y ∈ k.containers, x.1 = y.1 → x.2 = y.2 := by
      intro x hx y hy hxy
      obtain ⟨r, hr, hri, rfl⟩ := hmem x hx
      rcases h.bound r hr hri with hread | ⟨hne, -⟩
      · exact congrArg Prod.snd (List.inj_on_of_nodup_map h.distinct hread hy hxy)
      · exact absurd hxy (hne y hy)
    obtain ⟨hv, hn, hcs⟩ := imageCheckStateOf_inj hfull h.full himage (Option.some.inj hstate)
    rintro (hversion | hrevision | ⟨x, hx, hgone⟩)
    · have := hversion i hi.1
      omega
    · have := hrevision a ha
      omega
    · rw [← hcs] at hx
      obtain ⟨r, hr, hri, rfl⟩ := hmem x hx
      exact hgone r hr hri rfl
  · cases hstate

theorem Checker.Inv.write (h : s.Inv) (hclock : s.server.clock < now)
    {head : Registry} (hk : k ∈ s.tasks)
    (hwrite : writeImageChecks k head now s.server.db = .ok db') :
    Checker.Inv { s with server := { s.server with db := db', clock := now },
                         tasks := s.tasks.erase k } := by
  unfold writeImageChecks at hwrite
  split at hwrite
  · cases hwrite
  split at hwrite
  · cases hwrite
  next state hstate =>
  simp only [guard_error_eq_ok, not_not, Except.ok.injEq] at hwrite
  obtain ⟨rfl, rfl⟩ := hwrite
  have hinv := h.tasks k hk
  refine ⟨h.sound.tables hclock.le rfl rfl, h.applications, h.plans, h.containers,
    h.distinct, ?_, ?_, fun e he => (h.times e he).trans hclock.le⟩
  · intro k' hk'
    have hk' := h.tasks k' (List.mem_of_mem_erase hk')
    exact ⟨hk'.known, hk'.full, hk'.distinct, hk'.version, hk'.revision, hk'.bound, hk'.settled⟩
  · intro c hc e he hei
    rcases List.mem_append.1 hc with hc | hc
    · exact h.rows c (List.mem_of_mem_filter hc) e he hei
    -- no apply overtook the check
    obtain ⟨w, -, rfl⟩ := List.mem_map.1 hc
    have hrow : (w.row head k now).instanceID = k.instanceID ∧ (w.row head k now).readAt = k.readAt := by
      unfold CheckWork.row
      split <;> exact ⟨rfl, rfl⟩
    rcases hinv.settled e he (hei.trans hrow.1) with hle | hout
    · exact hrow.2 ▸ hle
    · exact absurd hout (hinv.not_outdated hstate)

/-- A step that every check under way notices keeps the invariant. -/
theorem Checker.Inv.step (h : s.Inv) {op : Int × CheckOp} (hnoticed : s.noticed op = true)
    (hstep : checkMachine.step op s = .ok s') : s'.Inv := by
  obtain ⟨now, op⟩ := op
  cases op with
  | store =>
    simp only [checkMachine, guard_error_eq_ok, Bool.not_eq_false] at hstep
    obtain ⟨hspares, hstep⟩ := hstep
    split at hstep
    · cases hstep
    next server hserver =>
    obtain rfl := Except.ok.inj hstep
    have hsound := h.sound.store_step hserver
    obtain ⟨hclock, hfresh, db', hexec, rfl⟩ := serverMachine_ok hserver
    rcases carries_of_exec h.sound.ids h.sound.instanceIDs hspares hexec with
      ⟨endpointID, r, d, o, st, rfl, hd, hk, ho, hst, hvalid, -, htables⟩ | ⟨hcarries, hnone⟩
    · have hsettle : StoreOp.settles now s.server.db (.lifecycle (.settleDeployment endpointID r)) =
          settleOf d st now := by
        by_cases hsucc : st = .succeeded
        · simp [StoreOp.settles, settleOf, ho, hd, hk, hsucc, (outcomeState?_succeeded hst).2]
        · have hne : o ≠ .succeeded := fun hc => hsucc ((outcomeState?_succeeded hst).1 hc)
          simp [StoreOp.settles, settleOf, ho, hsucc, hne]
      rw [hsettle]
      refine h.settle hsound hclock (Table.mem_of_find _ hd) hk ho hst hvalid ?_ htables
      intro k hmem hinst
      simp only [Checker.noticed, hd, hk, Option.all_some, reduceCtorEq, decide_false,
        Bool.false_or, List.all_eq_true, Bool.or_eq_true, decide_eq_true_eq] at hnoticed
      exact (hnoticed k hmem).resolve_left (not_not.2 hinst)
    · rw [hnone, List.append_nil]
      exact h.carry hfresh hsound hclock.le hcarries
  | read =>
    obtain ⟨hclock, hstep⟩ := guard_else_error_eq_ok.1 hstep
    split at hstep
    · cases hstep
    next k hread =>
    obtain rfl := Except.ok.inj hstep
    exact h.read hclock hread
  | write =>
    obtain ⟨⟨hclock, hk⟩, hstep⟩ := guard_else_error_eq_ok.1 hstep
    split at hstep
    · cases hstep
    next db' hwrite =>
    obtain rfl := Except.ok.inj hstep
    exact h.write hclock hk hwrite
  | abandon =>
    obtain rfl := Except.ok.inj hstep
    exact ⟨h.sound, h.applications, h.plans, h.containers, h.distinct,
      fun k' hk' => h.tasks k' (List.mem_of_mem_erase hk'), h.rows, h.times⟩

/-- No image check outlives an apply it did not see: in every run in which each apply that settles
changes what the checks under way compare, a row was read after every succeeded apply of its
instance. -/
theorem image_checks_fresh
    (h : (checkMachine.restrict fun s op => s.noticed op = true).Steps Checker.new s) :
    ∀ c ∈ s.server.db.imageChecks, ∀ e ∈ s.settles, e.1 = c.instanceID → e.2 ≤ c.readAt :=
  (Machine.restrict_keeps (fun _ _ _ hs hn hstep => Checker.Inv.step hs hn hstep) h
    Checker.inv_new).rows

end Steps

/-! ## Two runs -/

/-- A host that runs an older image than the registry has. -/
def sampleChecks (runtime : Runtime) : CheckContext :=
  ⟨runtime, true, fun _ => some ⟨"docker.io", "library/nginx", ""⟩, fun _ _ => sampleImage 1,
    fun _ => true⟩

def sampleRegistry : Registry := fun _ => .ok (sampleImage 2)

def sampleTask (containers : List (String × String)) (readAt : Int) : CheckTask :=
  ⟨"a", "i", 1, 1, containers, [⟨"web", "nginx:1", sampleImage 1, none⟩], readAt⟩

/-- On Docker, a check reads before the apply settles and is refused after it; the next one is
written. -/
def dockerCheckRun : List (Int × CheckOp) :=
  (adoptedRun ++ appliedRun 1 4).map (Prod.map id fun op => .store (.lifecycle op)) ++
    [(6, .read "a" (sampleChecks .docker)),
      (7, .store (.lifecycle (.settleDeployment "e" (sampleResult 1 2)))),
      (8, .write (sampleTask [(hexID 1, sampleImage 1)] 6) sampleRegistry),
      (9, .read "a" (sampleChecks .docker)),
      (10, .write (sampleTask [(hexID 2, sampleImage 2)] 9) sampleRegistry)]

theorem image_checks_fresh_control :
    let s := (checkMachine.restrict fun s op => s.noticed op = true).run dockerCheckRun Checker.new
    s.settles = [("i", 7)] ∧ s.server.db.imageChecks.map ImageCheck.readAt = [9] ∧
      ∀ c ∈ s.server.db.imageChecks, ∀ e ∈ s.settles, e.1 = c.instanceID → e.2 ≤ c.readAt := by
  intro s
  exact ⟨by decide +kernel, by decide +kernel,
    image_checks_fresh (Machine.steps_run dockerCheckRun Checker.new)⟩

def clusterCheckRun : List (Int × CheckOp) :=
  clusterRun.map (Prod.map id fun op => .store (.lifecycle op)) ++
    [(5, .read "a" (sampleChecks .kubernetes)),
      (6, .store (.lifecycle (.settleDeployment "e" clusterResult))),
      (7, .write (sampleTask [] 5) sampleRegistry)]

/-- On a cluster, a check that read before the apply settles writes after it that the update the
apply took is still available. -/
theorem cluster_check_outlives_apply :
    let s := checkMachine.run clusterCheckRun Checker.new
    checkMachine.Steps Checker.new s ∧ s.settles = [("i", 6)] ∧
      s.server.db.imageChecks.map (fun c => (c.verdict, c.remoteDigest, c.readAt)) =
        [(.updateAvailable, sampleImage 2, 5)] ∧
      ¬ ∀ c ∈ s.server.db.imageChecks, ∀ e ∈ s.settles, e.1 = c.instanceID → e.2 ≤ c.readAt := by
  exact ⟨Machine.steps_run clusterCheckRun Checker.new, by decide +kernel, by decide +kernel,
    by decide +kernel⟩

end KyYard.Store
