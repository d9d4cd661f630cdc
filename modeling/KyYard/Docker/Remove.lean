import KyYard.Docker.Phases

/-!
# Docker removals

A removal stops and deletes each container of its frame in order: precondition, stop, remove
(`removeTarget`). A container already gone counts as removed, and the first step that does not succeed
ends the run. Main result: `removal_verified`.
-/

namespace KyYard.Docker

open Foundation Protocol Stateful

/-! ## The run -/

/-- One target's stop and remove with its precondition, at the default grace. -/
def removeBudget : Int := operationBudget + 2 * callBudget

/-- What the precondition of a removal leaves behind: whether the container was gone already, and the
grace of its stop. -/
structure Found where
  gone : Bool
  grace : Int

def Found.default : Found := ⟨false, stopGrace⟩

section Removal

variable (c : Client) (req : RemovalRequest)

/-- The container is the one the server knows; `later` is the number of targets after it. -/
def targetPrecondition (t : RemovalTarget) (later : Nat) : Run (StepAnswer × Found) := do
  if c.self ≠ "" ∧ t.target.containerID = c.self then return (deny .selfProtected, .default)
  else
    match ← ask (.inspect t.target.containerID) with
    | .error (.status 404) => return (succeeded, ⟨true, stopGrace⟩)
    | .error e => return (e.outcome, .default)
    | .ok i =>
      if i.id ≠ t.target.containerID ∨ i.image ≠ t.target.imageID ∨
          i.createdUnix ≠ t.target.createdUnix then return (deny .identityMismatch, .default)
      else if (i.config.any fun config => installerManaged config.labels) then
        return (deny .applicationManaged, .default)
      else
        let now ← ask .now
        return (succeeded, ⟨false, fitGrace (graceOf (i.config.bind ContainerConfig.stopTimeout))
          (req.deadline - now - (1 + later) * removeBudget)⟩)

/-- The stop step. -/
def stopTarget (t : RemovalTarget) (grace : Int) : Run (StepAnswer × Unit) := do
  let now ← ask .now
  if req.deadline - now < removeBudget then return (⟨.timedOut, some .deadline, ""⟩, ())
  else
    beginRun
    let a ← ask (.stop t.target.containerID grace)
    if a.err.isSome ∨ (400 ≤ a.status ∧ a.status ≠ 304) then
      return (outcomeFor a.err a.status, ())
    else return (succeeded, ())

/-- The remove step. -/
def deleteTarget (t : RemovalTarget) : Run (StepAnswer × Unit) := do
  let a ← ask (.remove t.target.containerID false)
  if a.status = 409 then return (fail .dependents, ())
  else if a.err.isSome ∨ (400 ≤ a.status ∧ a.status ≠ 404) then
    return (outcomeFor a.err a.status, ())
  else return (succeeded, ())

/-- One target; `later` is the number of targets after it. -/
def removeTarget (t : RemovalTarget) (later : Nat) : Run Unit := do
  let found ← step t.service .precondition .default (targetPrecondition c req t later)
  if found.gone then
    addStep (skippedStep t.service .stop)
    addStep (skippedStep t.service .remove)
  else
    step t.service .stop () (stopTarget req t found.grace)
    step t.service .remove () (deleteTarget t)

def removeTargets : List RemovalTarget → Run Unit
  | [] => pure ()
  | t :: ts => do
    removeTarget c req t ts.length
    removeTargets ts

/-- The run of an accepted frame. -/
def removeAccepted : Run DeploymentResult := do
  removeTargets c req req.containers
  let r ← get
  return { r.res with outcome := some (r.res.outcome.getD .succeeded) }

/-- A removal: the frame is checked and, if accepted, run. -/
def remove : Prog Req Ans DeploymentResult := do
  let now ← Prog.send .now
  let res := DeploymentResult.empty req.deployment req.requestID
  match req.validateFor .docker now with
  | .error e => return refused res e
  | .ok () =>
    let (res, _) ← removeAccepted c req ⟨res, "", "", 0, [], [], false⟩
    return res

end Removal

/-! ## What a removal touches -/

/-- The target is not the agent's own container, and this run read it with the identity the frame has
and without the installer's label. -/
def Verified (c : Client) (t : RemovalTarget) (h : History) : Prop :=
  ¬ (c.self ≠ "" ∧ t.target.containerID = c.self) ∧ ∃ i : Inspection,
    (⟨.inspect t.target.containerID, .ok i⟩ : Event Req Ans) ∈ h ∧ i.id = t.target.containerID ∧
      i.image = t.target.imageID ∧ i.createdUnix = t.target.createdUnix ∧
      ¬ (i.config.any fun config => installerManaged config.labels)

/-- A removal stops and removes verified targets, unforced, and changes nothing else. -/
def targetOwed (c : Client) (req : RemovalRequest) : Req → History → Prop
  | .stop ref _, h => ∃ t ∈ req.containers, t.target.containerID = ref ∧ Verified c t h
  | .remove ref force, h =>
    force = false ∧ ∃ t ∈ req.containers, t.target.containerID = ref ∧ Verified c t h
  | .now, _ | .started, _ | .record _, _ | .inspect _, _ => True
  | _, _ => False

abbrev targets (c : Client) (req : RemovalRequest) : Contract Req Ans History :=
  Prog.dialogue (targetOwed c req)

variable {c : Client} {req : RemovalRequest} {t : RemovalTarget} {r : DeployRun} {h : History}

theorem Verified.grow {h' : History} (hv : Verified c t h) : Verified c t (h ++ h') := by
  obtain ⟨hself, i, hi, hsame⟩ := hv
  exact ⟨hself, i, List.mem_append_left _ hi, hsame⟩

theorem Verified.ask {q : Req} (hq : ∀ h, Verified c t h → targetOwed c req q h) :
    Keeps (targets c req) (fun _ h => Verified c t h) (ask q) := by
  intro r h hv
  refine ⟨hq h hv, ?_⟩
  rintro a _ rfl
  exact hv.grow

/-- What a step that succeeds has verified stays so while the outcome is open. -/
theorem Verified.step (t : RemovalTarget) {β : Type} (P : β → Prop) {service : String}
    {name : StepName} {skipped : β} {body : Run (StepAnswer × β)} (hbody : r.res.outcome = none →
      wp (targets c req) body (fun x _ h => x.1.outcome = .succeeded → P x.2 → Verified c t h) r h) :
    wp (targets c req) (step service name skipped body)
      (fun b r h => r.res.outcome = none → P b → Verified c t h) r h := by
  rw [wp_step]
  split
  · next ho =>
    rw [wp_addStep]
    refine ⟨trivial, fun a h _ hn => ?_⟩
    simp [show r.res.outcome = none from hn] at ho
  · next ho =>
    refine wp_mono (hbody (by simpa using ho)) fun x r h hx => ⟨trivial, ?_⟩
    rintro a _ rfl hn hP
    exact (hx ((concluded_outcome_none r x.1).1 hn).1 hP).grow

theorem stopTarget_keeps (ht : t ∈ req.containers) (grace : Int) :
    Keeps (targets c req) (fun _ h => Verified c t h) (stopTarget req t grace) := by
  refine Keeps.bind (Verified.ask fun _ _ => trivial) fun _ => Keeps.ite (Keeps.pure _) ?_
  refine Keeps.bind (Keeps.get fun r h hv => ?_) fun _ => Keeps.bind
    (Verified.ask fun _ hv => ⟨t, ht, rfl, hv⟩) fun _ => Keeps.ite (Keeps.pure _) (Keeps.pure _)
  split
  · exact Verified.ask (q := .started) (fun _ _ => trivial) _ h hv
  · exact hv

theorem deleteTarget_keeps (ht : t ∈ req.containers) :
    Keeps (targets c req) (fun _ h => Verified c t h) (deleteTarget t) :=
  Keeps.bind (Verified.ask fun _ hv => ⟨rfl, t, ht, rfl, hv⟩) fun _ =>
    Keeps.ite (Keeps.pure _) (Keeps.ite (Keeps.pure _) (Keeps.pure _))

/-- A precondition that succeeds has verified the target or found it gone. -/
theorem wp_targetPrecondition (later : Nat) :
    wp (targets c req) (targetPrecondition c req t later)
      (fun x _ h => x.1.outcome = .succeeded → x.2.gone = false → Verified c t h) r h := by
  unfold targetPrecondition
  split
  · simp [deny]
  next hself =>
  refine wp_ask_bind trivial ?_
  rintro a _ rfl
  split
  · simp
  · next e _ => exact fun hs => absurd hs e.outcome_ne_succeeded
  next i =>
  split
  · simp [deny]
  next hsame =>
  split
  · simp [deny]
  next hfree =>
  refine wp_ask_bind trivial ?_
  rintro now _ rfl - -
  simp only [not_or, not_not] at hsame
  exact ⟨hself, i, by simp, hsame.1, hsame.2.1, hsame.2.2, hfree⟩

theorem removeTarget_keeps (ht : t ∈ req.containers) (later : Nat) :
    Keeps (targets c req) (fun _ _ => True) (removeTarget c req t later) := by
  intro r h _
  unfold removeTarget
  rw [wp_bind]
  refine wp_mono (Verified.step t (fun f => f.gone = false)
    fun _ => wp_targetPrecondition later) fun found r h hv => ?_
  split
  · exact ⟨trivial, fun _ _ _ => ⟨trivial, fun _ _ _ => trivial⟩⟩
  next hgone =>
  rw [wp_bind]
  refine wp_mono (Verified.step t (fun _ => True) fun ho => ?_) fun _ r h hv => ?_
  · have hv := hv ho (by simpa using hgone)
    exact wp_mono (stopTarget_keeps ht _ r h hv) fun _ _ _ hv _ _ => hv
  · refine wp_mono (Verified.step t (fun _ => True) fun ho => ?_) fun _ _ _ _ => trivial
    exact wp_mono (deleteTarget_keeps ht r h (hv ho trivial)) fun _ _ _ hv _ _ => hv

theorem removeTargets_keeps : ∀ ts : List RemovalTarget, (∀ t ∈ ts, t ∈ req.containers) →
    Keeps (targets c req) (fun _ _ => True) (removeTargets c req ts)
  | [], _ => Keeps.pure _
  | t :: ts, h => Keeps.bind (removeTarget_keeps (h t List.mem_cons_self) _) fun _ =>
    removeTargets_keeps ts fun t ht => h t (List.mem_cons_of_mem _ ht)

/-- Whatever the daemon answers, a removal stops and removes only containers of its frame that it read
with the frame's identity, none of them by force, and changes nothing else. -/
theorem removal_verified (answer : (q : Req) → History → Ans q) :
    let tr := ((remove c req).play answer []).1
    ∀ i : Fin tr.length, targetOwed c req (tr.get i).req (tr.take i) := by
  intro tr i
  have hrun : Keeps (targets c req) (fun _ _ => True) (removeAccepted c req) :=
    Keeps.bind (removeTargets_keeps _ fun _ ht => ht) fun _ => Keeps.get fun _ _ _ => trivial
  have hw : (remove c req).wp (targets c req) (fun _ _ => True) [] := by
    unfold remove
    rw [Prog.wp_bind]
    refine ⟨trivial, fun now h _ => ?_⟩
    rw [Prog.wp_ret]
    split
    · trivial
    · rw [Prog.wp_bind]
      exact Prog.wp_mono _ (hrun _ h trivial) fun _ _ _ => trivial
  have hsplit : tr = tr.take i ++ tr.get i :: tr.drop (i + 1) := by simp
  exact (Prog.wp_runs hw (Prog.play_runs answer _ [])).2 _ _ _ hsplit

end KyYard.Docker
