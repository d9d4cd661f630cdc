import KyYard.Docker.Deploy

/-!
# Rules for the parts of a run

What a proof about a run needs of its parts, for any contract and any invariant: the rule of a step
(`wp_step`), and that every part which sends no request of a kind keeps an invariant those requests
keep (`Stable`). The parts that remove containers, and those that call the started hook, are left to
the results that speak about them.
-/

namespace KyYard.Docker

open Foundation Protocol Stateful

variable {σ : Type} {C : Contract Req Ans σ} {I : DeployRun → σ → Prop}

/-! ## One request, one step -/

/-- The record with one more step in its result. -/
def DeployRun.withStep (r : DeployRun) (s : DeploymentStep) : DeployRun :=
  { r with res := { r.res with steps := r.res.steps ++ [s] } }

/-- The record after a step answered. -/
def DeployRun.concluded (r : DeployRun) (a : StepAnswer) : DeployRun :=
  if a.outcome ≠ .succeeded then
    { r with res := { r.res with outcome := some a.outcome, code := some .stepFailed } }
  else r

/-- A step that was not run. -/
def skippedStep (service : String) (name : StepName) : DeploymentStep :=
  ⟨service, name, .skipped, none, ""⟩

/-- A step that succeeded. -/
def succeededStep (service : String) (name : StepName) : DeploymentStep :=
  ⟨service, name, .succeeded, none, ""⟩

/-- What is recorded of a step that was run. -/
def answeredStep (service : String) (name : StepName) (a : StepAnswer) : DeploymentStep :=
  if a.outcome = .succeeded then succeededStep service name
  else ⟨service, name, a.outcome, a.code, a.detail⟩

section Fields

variable (r : DeployRun) (s : DeploymentStep) (a : StepAnswer)

@[simp] theorem withStep_outcome : (r.withStep s).res.outcome = r.res.outcome := rfl
@[simp] theorem withStep_begun : (r.withStep s).begun = r.begun := rfl

@[simp] theorem concluded_steps : (r.concluded a).res.steps = r.res.steps := by
  unfold DeployRun.concluded; split <;> rfl

@[simp] theorem concluded_begun : (r.concluded a).begun = r.begun := by
  unfold DeployRun.concluded; split <;> rfl

@[simp] theorem concluded_ensured : (r.concluded a).ensured = r.ensured := by
  unfold DeployRun.concluded; split <;> rfl

/-- The outcome stays open exactly when it was and the step succeeded. -/
theorem concluded_outcome_none :
    (r.concluded a).res.outcome = none ↔ a.outcome = .succeeded ∧ r.res.outcome = none := by
  unfold DeployRun.concluded
  split
  · next h => simp [h]
  · next h => simp [not_not.mp h]

variable (service : String) (name : StepName)

@[simp] theorem answeredStep_name : (answeredStep service name a).step = name := by
  unfold answeredStep; split <;> rfl

theorem answeredStep_of_succeeded (h : a.outcome = .succeeded) :
    answeredStep service name a = succeededStep service name := by
  simp [answeredStep, h]

end Fields

/-- A part that starts with a request. -/
theorem wp_ask_bind {α : Type} {q : Req} {f : Ans q → Run α} {Q : α → DeployRun → σ → Prop}
    {r : DeployRun} {s : σ} (howed : C.owed q s)
    (h : ∀ b t, C.step q s b t → wp C (f b) Q r t) : wp C (ask q >>= f) Q r s := by
  exact ⟨howed, h⟩

@[simp] theorem wp_addStep (st : DeploymentStep) (Q : Unit → DeployRun → σ → Prop) :
    wp C (addStep st) Q = fun r s =>
      C.owed (.record st) s ∧ ∀ b t, C.step (.record st) s b t → Q () (r.withStep st) t := by
  rfl

@[simp] theorem wp_conclude (a : StepAnswer) (Q : Unit → DeployRun → σ → Prop) :
    wp C (conclude a) Q = fun r s => Q () (r.concluded a) s := by
  unfold conclude DeployRun.concluded
  split <;> rfl

theorem confess_keeps (h : ∀ st, Keeps C I (addStep st)) (service : String) (restored : Bool) :
    Keeps C I (confess service restored) :=
  Keeps.ite (h _) (Keeps.pure _)

@[simp] theorem confess_true (service : String) : confess service true = pure () := rfl

/-- A step is skipped once the outcome is fixed; otherwise its body runs and is recorded. -/
theorem wp_step {β : Type} (service : String) (name : StepName) (skipped : β)
    (body : Run (StepAnswer × β)) (Q : β → DeployRun → σ → Prop) (r : DeployRun) (s : σ) :
    wp C (step service name skipped body) Q r s ↔
      if r.res.outcome.isSome then
        wp C (addStep (skippedStep service name)) (fun _ => Q skipped) r s
      else
        wp C body (fun x r' s' => wp C (addStep (answeredStep service name x.1))
          (fun _ => Q x.2) (r'.concluded x.1) s') r s := by
  unfold step
  simp only [wp_bind, wp_get, wp_ite]
  split
  · rfl
  · simp only [wp_conclude]
    rfl

section Step

variable {β : Type} {service : String} {name : StepName} {skipped : β} {body : Run (StepAnswer × β)}
  {Q : β → DeployRun → σ → Prop} {r : DeployRun} {s : σ}

/-- A step whose outcome was fixed before only records that it was skipped. -/
theorem wp_step_skipped (ho : r.res.outcome.isSome = true)
    (h : wp C (addStep (skippedStep service name)) (fun _ => Q skipped) r s) :
    wp C (step service name skipped body) Q r s := by
  rw [wp_step, if_pos ho]
  exact h

/-- A step of a run whose outcome is open runs its body. -/
theorem wp_step_open (ho : r.res.outcome = none)
    (h : wp C body (fun x r' s' => wp C (addStep (answeredStep service name x.1))
      (fun _ => Q x.2) (r'.concluded x.1) s') r s) :
    wp C (step service name skipped body) Q r s := by
  rw [wp_step, if_neg (by simp [ho])]
  exact h

/-- What a step leaves behind, by whether the outcome is fixed after it (`K`) or still open (`W'`). -/
theorem wp_step_split (K W W' : β → DeployRun → σ → Prop)
    (hK : ∀ b st r u, K b r u →
      C.owed (.record st) u ∧ ∀ a t, C.step (.record st) u a t → K b (r.withStep st) t)
    (hW : ∀ b r u, W b r u → C.owed (.record (succeededStep service name)) u ∧
      ∀ a t, C.step (.record (succeededStep service name)) u a t →
        W' b (r.withStep (succeededStep service name)) t)
    (hskip : r.res.outcome.isSome = true → K skipped r s)
    (hbody : r.res.outcome = none → wp C body (fun x r' t => r'.res.outcome = none ∧
      (x.1.outcome = .succeeded → W x.2 r' t) ∧
      (x.1.outcome ≠ .succeeded → K x.2 (r'.concluded x.1) t)) r s) :
    wp C (step service name skipped body) (fun b r' t =>
      (r'.res.outcome.isSome = true → K b r' t) ∧ (r'.res.outcome = none → W' b r' t)) r s := by
  cases ho : r.res.outcome with
  | some =>
    have hs : r.res.outcome.isSome = true := by simp [ho]
    refine wp_step_skipped hs ?_
    rw [wp_addStep]
    obtain ⟨howed, hnext⟩ := hK skipped (skippedStep service name) r s (hskip hs)
    refine ⟨howed, fun a t ht => ⟨fun _ => hnext a t ht, fun hn => ?_⟩⟩
    rw [withStep_outcome, ho] at hn
    cases hn
  | none =>
    refine wp_step_open ho (wp_mono (hbody ho) ?_)
    rintro x r' u ⟨ho', hWu, hKu⟩
    rw [wp_addStep]
    by_cases hx : x.1.outcome = .succeeded
    · obtain ⟨howed, hnext⟩ := hW x.2 r' u (hWu hx)
      rw [answeredStep_of_succeeded _ _ _ hx, DeployRun.concluded, if_neg (not_not.2 hx)]
      refine ⟨howed, fun a t ht => ⟨fun hs => ?_, fun _ => hnext a t ht⟩⟩
      rw [withStep_outcome, ho'] at hs
      cases hs
    · obtain ⟨howed, hnext⟩ := hK x.2 (answeredStep service name x.1) _ u (hKu hx)
      refine ⟨howed, fun a t ht => ⟨fun _ => hnext a t ht, fun hn => ?_⟩⟩
      exact absurd ((concluded_outcome_none r' x.1).mp hn).1 hx

/-- What a step leaves behind: `P` in any case, and `W` if the outcome stays open, which it does only
if it was open and the body succeeded. -/
theorem wp_step_spec (P W W' : β → σ → Prop)
    (hP : ∀ b st u, P b u → C.owed (.record st) u ∧ ∀ a t, C.step (.record st) u a t → P b t)
    (hW : ∀ b u a t, C.step (.record (succeededStep service name)) u a t → W b u → W' b t)
    (hskip : P skipped s)
    (hbody : r.res.outcome = none → wp C body (fun x r' t => r'.res.outcome = none ∧ P x.2 t ∧
      (x.1.outcome = .succeeded → W x.2 t)) r s) :
    wp C (step service name skipped body) (fun b r' t => P b t ∧
      (r'.res.outcome = none → r.res.outcome = none ∧ W' b t)) r s := by
  refine wp_mono (wp_step_split (fun b _ u => P b u)
    (fun b _ u => r.res.outcome = none ∧ P b u ∧ W b u)
    (fun b _ u => r.res.outcome = none ∧ P b u ∧ W' b u)
    (fun b st _ u h => hP b st u h) ?_ (fun _ => hskip) fun ho => ?_) ?_
  · rintro b r' u ⟨ho, hPu, hWu⟩
    obtain ⟨howed, hnext⟩ := hP b (succeededStep service name) u hPu
    exact ⟨howed, fun a t ht => ⟨ho, hnext a t ht, hW b u a t ht hWu⟩⟩
  · refine wp_mono (hbody ho) ?_
    rintro x r' t ⟨ho', hPt, hWt⟩
    exact ⟨ho', fun hx => ⟨ho, hPt, hWt hx⟩, fun _ => hPt⟩
  · rintro b r' t ⟨hK, hW'⟩
    cases ho : r'.res.outcome with
    | none => exact ⟨(hW' ho).2.1, fun _ => ⟨(hW' ho).1, (hW' ho).2.2⟩⟩
    | some => exact ⟨hK (by simp [ho]), nofun⟩

/-- A step that leaves nothing behind but what its records keep. -/
theorem wp_step_keeps {E : σ → Prop}
    (hrecord : ∀ st u, E u → C.owed (.record st) u ∧ ∀ a t, C.step (.record st) u a t → E t)
    (hbody : Keeps C (fun r u => r.res.outcome = none ∧ E u) body) (hE : E s) :
    wp C (step service name skipped body)
      (fun _ r' t => E t ∧ (r'.res.outcome = none → r.res.outcome = none)) r s := by
  refine wp_mono (wp_step_spec (fun _ => E) (fun _ _ => True) (fun _ _ => True)
    (fun _ => hrecord) (fun _ _ _ _ _ _ => trivial) hE fun ho => ?_)
    fun b r' t ht => ⟨ht.1, fun hn => (ht.2 hn).1⟩
  exact wp_mono (hbody r s ⟨ho, hE⟩) fun x r' t ht => ⟨ht.1, ht.2, fun _ => trivial⟩

end Step

/-! ## Parts that keep an invariant -/

/-- Requests that leave every container as it is. -/
def Req.quiet : Req → Bool
  | .started | .record _ => false
  | q => !q.touches

/-- Every request but removals, the started hook and the record of a step. -/
def Req.plain : Req → Bool
  | .started | .record _ | .remove _ _ => false
  | _ => true

/-- A call that did not succeed fails its step. -/
theorem outcomeFor_failed (err : Option Lost) (status : Nat) :
    failedStep (outcomeFor err status).outcome = true := by
  unfold outcomeFor
  split
  · rfl
  · rfl
  · rfl
  · split <;> rfl

theorem ReadError.outcome_failed (e : ReadError) : failedStep e.outcome.outcome = true := by
  cases e <;> exact outcomeFor_failed _ _

theorem ne_succeeded_of_failed {o : Outcome} (h : failedStep o = true) : o ≠ .succeeded := by
  rintro rfl
  cases h

theorem ne_skipped_of_failed {o : Outcome} (h : failedStep o = true) : o ≠ .skipped := by
  rintro rfl
  cases h

theorem outcomeFor_ne_succeeded (err : Option Lost) (status : Nat) :
    (outcomeFor err status).outcome ≠ .succeeded :=
  ne_succeeded_of_failed (outcomeFor_failed err status)

theorem ReadError.outcome_ne_succeeded (e : ReadError) : e.outcome.outcome ≠ .succeeded :=
  ne_succeeded_of_failed e.outcome_failed

/-- Two records of a run that differ at most in what the run notes beside its progress. -/
structure DeployRun.SameProgress (r r' : DeployRun) : Prop where
  outcome : r'.res.outcome = r.res.outcome
  steps : r'.res.steps = r.res.steps
  begun : r'.begun = r.begun
  ensured : r'.ensured = r.ensured

/-- An invariant of a run's progress that the requests of a kind keep. -/
structure Stable (C : Contract Req Ans σ) (kind : Req → Bool) (I : DeployRun → σ → Prop) :
    Prop where
  ask : ∀ q, kind q = true → ∀ r s, I r s → C.owed q s ∧ ∀ b t, C.step q s b t → I r t
  progress : ∀ (r r' : DeployRun) s, r.SameProgress r' → I r s → I r' s

theorem Stable.keeps {kind : Req → Bool} (h : Stable C kind I) {q : Req} (hq : kind q = true) :
    Keeps C I (Docker.ask q) := h.ask q hq

theorem Stable.note {kind : Req → Bool} (h : Stable C kind I) {f : DeployRun → DeployRun}
    (hf : ∀ r : DeployRun, r.SameProgress (f r)) : Keeps C I (modify f : Run PUnit) :=
  fun r s hI => h.progress r (f r) s (hf r) hI

theorem Stable.noteDefaults (h : Stable C Req.quiet I) : Keeps C I noteDefaults := by
  refine Keeps.bind (h.keeps rfl) fun info => ?_
  split
  · exact Keeps.ite (h.note fun r => ⟨rfl, rfl, rfl, rfl⟩) (Keeps.pure _)
  · exact Keeps.pure _

section Quiet

variable {c : Client} {req : DeploymentRequest}

section

variable (h : Stable C Req.quiet I)
include h

theorem precondition_keeps (s : DeploymentService) : Keeps C I (precondition c req s) := by
  refine Keeps.get fun r u hI => ?_
  split
  · exact Keeps.pure _ r u hI
  split
  · exact Keeps.pure _ r u hI
  refine Keeps.bind (h.keeps rfl) (fun b => ?_) r u hI
  split
  · exact Keeps.pure _
  · exact Keeps.pure _
  · split
    · exact Keeps.pure _
    · refine Keeps.ite (Keeps.pure _) (Keeps.bind (h.keeps rfl) fun b => ?_)
      split <;> exact Keeps.pure _

theorem createMissingVolume_keeps (source : String) :
    Keeps C I (createMissingVolume req source) := by
  unfold createMissingVolume
  dsimp only
  split
  · exact Keeps.pure _
  · refine Keeps.bind (h.keeps rfl) fun p => ?_
    exact Keeps.ite (Keeps.pure _)
      (Keeps.ite (Keeps.pure _) (Keeps.ite (Keeps.pure _) (Keeps.pure _)))

theorem ensureVolume_keeps (s : DeploymentService) (old : List InspectedMount) (source : String) :
    Keeps C I (ensureVolume req s old source) := by
  refine Keeps.bind (h.keeps rfl) fun b => ?_
  split
  · refine Keeps.ite (Keeps.pure _) (Keeps.ite (Keeps.pure _) (Keeps.ite (Keeps.pure _) ?_))
    exact Keeps.bind (h.note fun r => ⟨rfl, rfl, rfl, rfl⟩) fun _ => Keeps.pure _
  · exact Keeps.bind (createMissingVolume_keeps h source) fun _ => Keeps.pure _
  · exact Keeps.pure _

theorem tag_keeps (ref id : String) : Keeps C I (tag ref id) := by
  refine Keeps.ite (Keeps.pure _) (Keeps.bind (h.keeps rfl) fun p => ?_)
  exact Keeps.ite (Keeps.pure _) (Keeps.ite (Keeps.pure _) (Keeps.pure _))

theorem pull_keeps (p : ImagePull) : Keeps C I (pull req p) := by
  refine Keeps.get fun r u hI => ?_
  refine Keeps.bind (h.keeps rfl) (fun now => ?_) r u hI
  refine Keeps.ite (Keeps.pure _) (Keeps.bind (h.keeps rfl) fun b => ?_)
  split
  · exact Keeps.pure _
  · exact Keeps.ite (Keeps.pure _) (Keeps.ite (Keeps.pure _) (Keeps.pure _))
  · exact Keeps.pure _
  · refine Keeps.bind (h.keeps rfl) fun b => ?_
    split
    · exact Keeps.pure _
    · exact Keeps.ite (tag_keeps h _ _) (Keeps.pure _)

theorem pinnedImage_keeps (id : String) : Keeps C I (pinnedImage id) := by
  refine Keeps.bind (h.keeps rfl) fun b => ?_
  split <;> exact Keeps.pure _

theorem current_keeps (ref : String) : Keeps C I (current ref) := by
  refine Keeps.bind (h.keeps rfl) fun b => ?_
  split <;> exact Keeps.pure _

theorem recheckContainer_keeps (p : Prepared) (later : Nat) :
    Keeps C I (recheckContainer req p later) := by
  refine Keeps.bind (h.keeps rfl) fun b => ?_
  split
  · exact Keeps.pure _
  · exact Keeps.pure _
  · refine Keeps.ite (Keeps.pure _) (Keeps.ite (Keeps.pure _) ?_)
    exact Keeps.bind (h.keeps rfl) fun t => Keeps.pure _

end

theorem watchVerdict_ne_skipped {i : Inspection} {a : StepAnswer} (h : watchVerdict i = some a) :
    a.outcome ≠ .skipped := by
  unfold watchVerdict at h
  split at h
  · split at h
    · cases h; nofun
    · split at h <;> cases h
      nofun
  · cases h; nofun

theorem watch_spec (h : Stable C Req.quiet I) (id : String) (deadline : Int) :
    ∀ (polls : Nat) {r : DeployRun} {s : σ}, I r s →
      wp C (watch id deadline polls) (fun a r' t => I r' t ∧ a.outcome ≠ .skipped) r s
  | 0, r, s, hI => by
    unfold watch
    rw [wp_bind]
    refine wp_mono (h.keeps rfl r s hI) fun b r s hI => ?_
    split
    · next e => exact ⟨hI, ne_skipped_of_failed e.outcome_failed⟩
    · next i =>
      refine ⟨hI, ?_⟩
      cases hv : watchVerdict i with
      | none => nofun
      | some a => exact watchVerdict_ne_skipped hv
  | polls + 1, r, s, hI => by
    unfold watch
    rw [wp_bind]
    refine wp_mono (h.keeps rfl r s hI) fun b r s hI => ?_
    split
    · next e => exact ⟨hI, ne_skipped_of_failed e.outcome_failed⟩
    split
    · next a hv => exact ⟨hI, watchVerdict_ne_skipped hv⟩
    rw [wp_bind]
    refine wp_mono (h.keeps rfl r s hI) fun now r s hI => ?_
    rw [wp_ite]
    split
    · exact ⟨hI, nofun⟩
    rw [wp_bind]
    refine wp_mono (h.keeps rfl r s hI) fun w r s hI => ?_
    split
    · exact watch_spec h id deadline polls hI
    · exact ⟨hI, nofun⟩
    · exact ⟨hI, nofun⟩

theorem verifyIdentity_spec (h : Stable C Req.quiet I) (s : DeploymentService) (created : String)
    {r : DeployRun} {u : σ} (hI : I r u) :
    wp C (verifyIdentity s created) (fun a r' t => I r' t ∧ a.outcome ≠ .skipped) r u := by
  unfold verifyIdentity
  rw [wp_bind]
  refine wp_mono (h.keeps rfl r u hI) fun b r u hI => ?_
  split
  · next e => exact ⟨hI, ne_skipped_of_failed e.outcome_failed⟩
  split
  · exact ⟨hI, nofun⟩
  exact ⟨h.progress r _ u ⟨rfl, rfl, rfl, rfl⟩ hI, nofun⟩

theorem connectAll_keeps {created : String}
    (h : ∀ n : NetworkAttachmentSpec, Keeps C I (Docker.ask (.connect n.name created (endpoint n)))) :
    ∀ ns : List NetworkAttachmentSpec, Keeps C I (connectAll created ns)
  | [] => Keeps.pure _
  | n :: ns => Keeps.bind (h n) fun _ => Keeps.ite (Keeps.pure _) (connectAll_keeps h ns)

/-- The start step leaves behind the outcome it answers, which is not a skip. -/
theorem startStep_spec (h : Stable C Req.quiet I) (s : DeploymentService) {created : String}
    (hs : Keeps C I (Docker.ask (.start created))) (watched : Bool) {r : DeployRun} {u : σ}
    (hI : I r u) :
    wp C (startStep c s created watched)
      (fun x r' t => I r' t ∧ x.2.1 = x.1.outcome ∧ x.1.outcome ≠ .skipped) r u := by
  have hwatch : ∀ {r u}, I r u → wp C (watchStarted c created watched)
      (fun a r' t => I r' t ∧ a.outcome ≠ .skipped) r u := by
    intro r u hI
    unfold watchStarted
    split
    · rw [wp_bind]
      exact wp_mono (h.keeps rfl r u hI) fun now r u hI => watch_spec h created _ _ hI
    · exact ⟨hI, nofun⟩
  unfold startStep
  rw [wp_bind]
  refine wp_mono (hs r u hI) fun a r u hI => ?_
  split
  · exact ⟨hI, rfl, ne_skipped_of_failed (outcomeFor_failed _ _)⟩
  rw [wp_bind]
  refine wp_mono (hwatch hI) fun seen r u hseen => ?_
  split
  · exact ⟨hseen.1, rfl, hseen.2⟩
  rw [wp_bind]
  exact wp_mono (verifyIdentity_spec h s created hseen.1) fun a r u ha => ⟨ha.1, rfl, ha.2⟩

theorem startStep_keeps (h : Stable C Req.quiet I) (s : DeploymentService) {created : String}
    (hs : Keeps C I (Docker.ask (.start created))) (watched : Bool) :
    Keeps C I (startStep c s created watched) :=
  fun _ _ hI => wp_mono (startStep_spec h s hs watched hI) fun _ _ _ ht => ht.1

end Quiet

section Plain

variable {c : Client} {req : DeploymentRequest}

section

variable (h : Stable C Req.plain I)
include h

theorem Stable.quiet : Stable C Req.quiet I where
  ask q hq := h.ask q (by cases q <;> first | rfl | cases hq)
  progress := h.progress

theorem unpark_keeps (p : Prepared) : Keeps C I (unpark p) :=
  Keeps.bind (h.keeps rfl) fun _ => Keeps.pure _

theorem revive_keeps (p : Prepared) (paused : Bool) : Keeps C I (revive p paused) := by
  refine Keeps.bind (h.keeps rfl) fun a => Keeps.ite (Keeps.pure _) (Keeps.ite (Keeps.pure _) ?_)
  exact Keeps.bind (h.keeps rfl) fun _ => Keeps.pure _

theorem reviveIfStopped_keeps (p : Prepared) (paused : Bool)
    (grace : Int) : Keeps C I (reviveIfStopped p paused grace) := by
  refine Keeps.bind (h.keeps rfl) fun opened => Keeps.bind (current_keeps h.quiet _) fun b => ?_
  split
  · exact Keeps.pure _
  · exact Keeps.pure _
  · refine Keeps.ite ?_ (revive_keeps h p paused)
    refine Keeps.bind (h.keeps rfl) fun t => Keeps.ite (Keeps.pure _) ?_
    refine Keeps.bind (h.keeps rfl) fun w => ?_
    split
    · exact revive_keeps h p paused
    · exact Keeps.pure _
    · exact Keeps.pure _

theorem unparkIfParked_keeps (p : Prepared) (name : String) :
    Keeps C I (unparkIfParked p name) := by
  refine Keeps.bind (current_keeps h.quiet _) fun b => ?_
  split
  · exact Keeps.pure _
  · exact Keeps.pure _
  · exact Keeps.ite (Keeps.pure _) (unpark_keeps h p)

theorem rename_keeps (p : Prepared) : Keeps C I (rename req p) := by
  refine Keeps.ite (Keeps.pure _) (Keeps.bind (h.keeps rfl) fun a => ?_)
  refine Keeps.ite (Keeps.pure _) (Keeps.ite ?_ (Keeps.pure _))
  exact Keeps.bind (unparkIfParked_keeps h p _) fun _ => Keeps.pure _

/-- A guard that refuses does not succeed. -/
theorem createGuard_spec (hb : Keeps C I beginRun) (p : Prepared)
    {r : DeployRun} {s : σ} (hI : I r s) :
    wp C (createGuard req p) (fun x r' t => I r' t ∧ ∀ a, x = some a → a.outcome ≠ .succeeded)
      r s := by
  simp only [createGuard, wp_ite, wp_bind]
  split
  · exact ⟨hI, nofun⟩
  split
  · exact ⟨hI, by rintro a ⟨⟩ ⟨⟩⟩
  refine wp_mono (h.keeps rfl r s hI) fun now r' t hI => ?_
  split
  · exact ⟨hI, by rintro a ⟨⟩ ⟨⟩⟩
  · exact wp_mono (hb r' t hI) fun _ r'' v hI => ⟨hI, nofun⟩

end

end Plain

/-! ## The first phase -/

section First

/-- What reads of containers and images report. -/
structure Sight where
  container : String → Inspection → Prop
  image : String → ImageInspection → Prop

variable {c : Client} {req : DeploymentRequest} {E : σ → Prop} {S : Sight}

/-- Quiet requests and records keep `E`, and what a read reports there is in sight. -/
structure Watched (C : Contract Req Ans σ) (E : σ → Prop) (S : Sight) : Prop where
  quiet : ∀ q, q.quiet = true → ∀ u, E u → C.owed q u ∧ ∀ b t, C.step q u b t → E t
  record : ∀ st u, E u → C.owed (.record st) u ∧ ∀ b t, C.step (.record st) u b t → E t
  seen : ∀ ref i u t, E u → C.step (.inspect ref) u (.ok i) t → S.container ref i
  seenImage : ∀ ref im u t, E u → C.step (.inspectImage ref) u (.ok im) t → S.image ref im

/-- The container the precondition of a service accepts: the one read, which is the one named. -/
def Accepted (S : Sight) (s : DeploymentService) (i : Inspection) : Prop :=
  S.container s.replaces.containerID i ∧ i.id = s.replaces.containerID

/-- The image id a service is left with: the frame's, or that of the image pulled. -/
def ImageSettled (S : Sight) (s : DeploymentService) (id : String) : Prop :=
  match s.pull with
  | none => id = s.imageID
  | some q => ∃ im, S.image q.reference im ∧ im.id = id

/-- What the first phase settled of a service, in a run whose record is `r`. -/
structure PreparedFrom (req : DeploymentRequest) (S : Sight) (r : DeployRun)
    (s : DeploymentService) (p : Prepared) : Prop where
  service : p.s = { s with imageID := p.s.imageID }
  seen : r.res.outcome = none → run req s = false →
    (∃ i, Accepted S s i ∧ p.before = some i ∧
      p.name = Text.trimPrefix i.name "/") ∧ ImageSettled S s p.s.imageID

section Names

variable {r : DeployRun} {s : DeploymentService} {p : Prepared} (h : PreparedFrom req S r s p)
include h

theorem PreparedFrom.name : p.s.name = s.name := by rw [h.service]
theorem PreparedFrom.containerName : p.s.containerName = s.containerName := by rw [h.service]
theorem PreparedFrom.replaces : p.s.replaces = s.replaces := by rw [h.service]

end Names

theorem Watched.stable (h : Watched C E S) (o : Option Outcome) :
    Stable C Req.quiet (fun r u => r.res.outcome = o ∧ E u) where
  ask q hq _ u hE := ⟨(h.quiet q hq u hE.2).1, fun b t ht => ⟨hE.1, (h.quiet q hq u hE.2).2 b t ht⟩⟩
  progress _ _ _ hr hE := ⟨hr.outcome.trans hE.1, hE.2⟩

theorem unsupported_outcome (codes : List String) : (unsupported codes).outcome = .denied := by
  cases codes <;> rfl

theorem preconditionRefusal_denies {s : DeploymentService} {r : DeployRun} {i : Inspection}
    {a : StepAnswer} (h : preconditionRefusal req s r i = some a) : a.outcome = .denied := by
  unfold preconditionRefusal at h
  split at h
  · cases h; rfl
  split at h
  · split at h
    · cases h; rfl
    split at h
    · cases h; rfl
    -- The configuration's verdict, or else the mounts'.
    rw [Option.orElse_eq_or, Option.or_eq_some_iff] at h
    rcases h with h | ⟨-, h⟩
    · split at h
      · split at h
        · cases h; rfl
        split at h
        · cases h; rfl
        split at h
        · cases h
        cases h; exact unsupported_outcome _
      · split at h
        · cases h
        cases h; exact unsupported_outcome _
    · obtain ⟨code, -, rfl⟩ := Option.map_eq_some_iff.mp h
      rfl
  · cases h; rfl

section

variable (h : Watched C E S)
include h

/-- The precondition reads the container it accepts. -/
theorem Watched.precondition (s : DeploymentService) {r : DeployRun} {u : σ}
    (ho : r.res.outcome = none) (hE : E u) :
    wp C (precondition c req s) (fun x r' t => r'.res.outcome = none ∧ E t ∧
      (x.1.outcome = .succeeded → ∃ i, x.2 = some i ∧ Accepted S s i)) r u := by
  unfold Docker.precondition
  rw [wp_bind, wp_get]
  split
  · exact ⟨ho, hE, nofun⟩
  split
  · exact ⟨ho, hE, nofun⟩
  obtain ⟨howed, hnext⟩ := h.quiet (.inspect s.replaces.containerID) rfl u hE
  refine wp_ask_bind howed fun b t ht => ?_
  have hE := hnext b t ht
  split
  · exact ⟨ho, hE, nofun⟩
  · next e _ => exact ⟨ho, hE, fun hx => absurd hx e.outcome_ne_succeeded⟩
  · next i =>
    have hi := h.seen s.replaces.containerID i u t ‹E u› ht
    split
    · next a hr =>
      refine ⟨ho, hE, fun hx => ?_⟩
      rw [preconditionRefusal_denies hr] at hx
      cases hx
    · next hr =>
      have hid : i.id = s.replaces.containerID := by
        by_contra hne
        rw [preconditionRefusal, if_pos (.inl hne)] at hr
        cases hr
      split
      · exact ⟨ho, hE, fun _ => ⟨i, rfl, hi, hid⟩⟩
      obtain ⟨howed, hnext⟩ := h.quiet (.inspectImage s.replaces.imageID) rfl t hE
      refine wp_ask_bind howed fun b v hv => ?_
      have hE := hnext b v hv
      split
      · exact ⟨ho, hE, fun _ => ⟨i, rfl, hi, hid⟩⟩
      · exact ⟨ho, hE, fun _ => ⟨i, rfl, hi, hid⟩⟩
      · exact ⟨ho, hE, fun _ => ⟨i, rfl, hi, hid⟩⟩

theorem Watched.ensureVolumes (s : DeploymentService)
    (old : List InspectedMount) {r : DeployRun} {u : σ} (hE : E u) :
    wp C (ensureVolumes req s old)
      (fun _ r' t => E t ∧ (r'.res.outcome = none → r.res.outcome = none)) r u := by
  have hmount : ∀ m, Keeps C
      (fun r' t => E t ∧ (r'.res.outcome = none → r.res.outcome = none)) (ensureMount req s old m) := by
    intro m r' t ht
    simp only [ensureMount, wp_bind, wp_get, wp_ite, wp_set]
    split
    · refine wp_mono (wp_step_keeps h.record (ensureVolume_keeps (h.stable none) s old m.source) ht.1) ?_
      exact fun _ r'' t' ht' => ⟨ht'.1, fun hn => ht.2 (ht'.2 hn)⟩
    · exact ht
  exact wp_forM ⟨hE, id⟩ fun m _ => hmount m

/-- A pull that succeeds leaves the id of the image read by its reference. -/
theorem Watched.pull (q : ImagePull) {r : DeployRun} {u : σ}
    (ho : r.res.outcome = none) (hE : E u) :
    wp C (pull req q) (fun x r' t => r'.res.outcome = none ∧ E t ∧
      (x.1.outcome = .succeeded → ∃ im, S.image q.reference im ∧ im.id = x.2)) r u := by
  have hask : ∀ q : Req, q.quiet = true →
      Keeps C (fun r u => r.res.outcome = none ∧ E u) (Docker.ask q) :=
    fun q hq => (h.stable none).keeps hq
  unfold Docker.pull
  rw [wp_bind, wp_get]
  beta_reduce
  rw [wp_bind]
  refine wp_mono (hask _ rfl r u ⟨ho, hE⟩) fun now r u hE => ?_
  rw [wp_ite]
  split
  · exact ⟨hE.1, hE.2, nofun⟩
  dsimp only
  rw [wp_bind]
  refine wp_mono (hask _ rfl r u hE) fun b r u hE => ?_
  split
  · exact ⟨hE.1, hE.2, fun hx => absurd hx (outcomeFor_ne_succeeded _ _)⟩
  · split
    · exact ⟨hE.1, hE.2, nofun⟩
    split
    · exact ⟨hE.1, hE.2, nofun⟩
    · exact ⟨hE.1, hE.2, nofun⟩
  · exact ⟨hE.1, hE.2, nofun⟩
  · obtain ⟨howed, hnext⟩ := h.quiet (.inspectImage q.reference) rfl u hE.2
    refine wp_ask_bind howed fun b t ht => ?_
    have hE' := hnext b t ht
    split
    · next e => exact ⟨hE.1, hE', fun hx => absurd hx e.outcome_ne_succeeded⟩
    next im =>
    have him := h.seenImage q.reference im u t hE.2 ht
    rw [wp_ite]
    split
    · unfold tag
      split
      · exact ⟨hE.1, hE', fun _ => ⟨im, him, rfl⟩⟩
      rw [wp_bind]
      refine wp_mono (hask _ rfl r t ⟨hE.1, hE'⟩) fun a r u hE => ?_
      split
      · exact ⟨hE.1, hE.2, fun hx => absurd hx (outcomeFor_ne_succeeded _ _)⟩
      split
      · exact ⟨hE.1, hE.2, nofun⟩
      · exact ⟨hE.1, hE.2, fun _ => ⟨im, him, rfl⟩⟩
    · exact ⟨hE.1, hE', nofun⟩

theorem Watched.image (s : DeploymentService) {r : DeployRun} {u : σ} (hE : E u) :
    wp C (image req s) (fun s' r' t => E t ∧
      (r'.res.outcome = none → r.res.outcome = none ∧ ImageSettled S s s'.imageID) ∧
      s' = { s with imageID := s'.imageID }) r u := by
  unfold Docker.image imageStep ImageSettled
  rw [wp_bind]
  cases s.pull with
  | none =>
    refine wp_mono (wp_step_spec (fun _ => E) (fun id _ => id = s.imageID)
      (fun id _ => id = s.imageID) (fun _ => h.record) (fun _ _ _ _ _ hb => hb) hE fun ho => ?_)
      fun id r' t ht => ⟨ht.1, ht.2, rfl⟩
    obtain ⟨howed, hnext⟩ := h.quiet (.inspectImage s.imageID) rfl u hE
    refine wp_ask_bind howed fun b t ht => ?_
    have hE := hnext b t ht
    split
    · exact ⟨ho, hE, fun _ => rfl⟩
    · exact ⟨ho, hE, fun _ => rfl⟩
    · exact ⟨ho, hE, fun _ => rfl⟩
  | some q =>
    refine wp_mono (wp_step_spec (fun _ => E) (fun id _ => ∃ im, S.image q.reference im ∧ im.id = id)
      (fun id _ => ∃ im, S.image q.reference im ∧ im.id = id) (fun _ => h.record)
      (fun _ _ _ _ _ hb => hb) hE fun ho => h.pull q ho hE) fun id r' t ht => ⟨ht.1, ht.2, rfl⟩

theorem Watched.volumes_image (s : DeploymentService)
    (old : List InspectedMount) {r : DeployRun} {u : σ} (hE : E u) :
    wp C (Docker.ensureVolumes req s old) (fun _ => wp C (Docker.image req s)
      (fun s' r' t => E t ∧
        (r'.res.outcome = none → r.res.outcome = none ∧ ImageSettled S s s'.imageID) ∧
        s' = { s with imageID := s'.imageID })) r u := by
  refine wp_mono (h.ensureVolumes s old hE) fun _ r' t ht => ?_
  refine wp_mono (h.image s ht.1) fun s' r'' t' ht' => ⟨ht'.1, fun hn => ?_, ht'.2.2⟩
  exact ⟨ht.2 (ht'.2.1 hn).1, (ht'.2.1 hn).2⟩

/-- A service's first phase settles its image only, and remembers the container it read. -/
theorem Watched.prepare (s : DeploymentService) {r : DeployRun} {u : σ} (hE : E u) :
    wp C (prepare c req s) (fun p r' t => E t ∧
      (r'.res.outcome = none → r.res.outcome = none) ∧ PreparedFrom req S r' s p) r u := by
  unfold Docker.prepare
  by_cases hrun : Docker.run req s = true
  · have hno : ∀ {P : Prop}, Docker.run req s = false → P := fun hn => by simp [hrun] at hn
    rw [if_pos hrun]
    simp only [wp_ite, wp_bind]
    split
    · refine wp_mono (wp_step_keeps h.record (Keeps.pure _) hE) fun _ r' t ht => ?_
      exact ⟨ht.1, ht.2, rfl, fun _ hn => hno hn⟩
    · split
      · refine wp_mono (h.volumes_image s [] hE) fun _ r' t ht => ?_
        refine wp_mono ht fun s' r'' t' ht' => ⟨ht'.1, fun hn => (ht'.2.1 hn).1, ht'.2.2, ?_⟩
        exact fun _ hn => hno hn
      · exact ⟨hE, id, rfl, fun _ hn => hno hn⟩
  · rw [if_neg hrun]
    simp only [wp_bind]
    refine wp_mono (wp_step_spec (fun _ => E)
      (fun b _ => ∃ i, b = some i ∧ Accepted S s i) (fun b _ => ∃ i, b = some i ∧ Accepted S s i)
      (fun _ => h.record) (fun _ _ _ _ _ hb => hb) hE fun ho => h.precondition s ho hE) ?_
    rintro before r' t ⟨hE, hbefore⟩
    refine wp_mono (h.volumes_image s _ hE) fun _ r'' t' ht => ?_
    refine wp_mono ht fun s' r''' v hv => ?_
    refine ⟨hv.1, fun hn => (hbefore (hv.2.1 hn).1).1, hv.2.2, fun hn _ => ?_⟩
    obtain ⟨i, rfl, hi⟩ := (hbefore (hv.2.1 hn).1).2
    exact ⟨⟨i, hi, rfl, rfl⟩, (hv.2.1 hn).2⟩

end

theorem Watched.prepareAll (h : Watched C E S) :
    ∀ (ss : List DeploymentService) {r : DeployRun} {u : σ}, E u →
      wp C (prepareAll c req ss) (fun ps r' t => E t ∧
        (r'.res.outcome = none → r.res.outcome = none) ∧
        List.Forall₂ (PreparedFrom req S r') ss ps) r u
  | [], r, u, hE => ⟨hE, id, .nil⟩
  | s :: ss, r, u, hE => by
    simp only [Docker.prepareAll, wp_bind, wp_pure]
    refine wp_mono (h.prepare s hE) ?_
    rintro p r' t ⟨hE, hout, hp⟩
    refine wp_mono (h.prepareAll ss hE) ?_
    rintro ps r'' v ⟨hE, hout', hps⟩
    refine ⟨hE, fun hn => hout (hout' hn), .cons ⟨hp.service, fun hn => ?_⟩ hps⟩
    exact hp.seen (hout' hn)

/-- A service as its first phase left it: under the names of one of the request's. -/
def Serves (req : DeploymentRequest) (s' : DeploymentService) : Prop :=
  ∃ s ∈ req.services, s.name = s'.name ∧ s.containerName = s'.containerName ∧
    s.replaces = s'.replaces

/-- What stands in one of two related lists has its like in the other. -/
theorem exists_of_forall₂ {α β : Type} {R : α → β → Prop} {l : List α} {m : List β}
    (h : List.Forall₂ R l m) {a : α} (ha : a ∈ l) : ∃ b ∈ m, R a b := by
  induction h with
  | nil => cases ha
  | cons hr _ ih =>
    rcases List.mem_cons.mp ha with rfl | ha
    · exact ⟨_, List.mem_cons_self, hr⟩
    · obtain ⟨b, hmem, hb⟩ := ih ha
      exact ⟨b, List.mem_cons_of_mem _ hmem, hb⟩

/-- What has been prepared is a service. -/
theorem exists_service {r : DeployRun} {ss : List DeploymentService} {ps : List Prepared}
    (hps : List.Forall₂ (PreparedFrom req S r) ss ps) {p : Prepared} (hp : p ∈ ps) :
    ∃ s ∈ ss, PreparedFrom req S r s p :=
  exists_of_forall₂ (List.Forall₂.flip hps) hp

/-- Services after their first phase are services of the request. -/
theorem serves_of_forall₂ {r : DeployRun} {ps : List Prepared}
    (hps : List.Forall₂ (PreparedFrom req S r) req.services ps) : ∀ p ∈ ps, Serves req p.s := by
  intro p hp
  obtain ⟨s, hs, hp⟩ := exists_service hps hp
  exact ⟨s, hs, hp.name.symm, hp.containerName.symm, hp.replaces.symm⟩

end First

/-! ## Parts that remove containers -/

section Acts

variable {c : Client} {req : DeploymentRequest}

/-- Every request but the started hook and the record of a step. -/
def Req.acts : Req → Bool
  | .started | .record _ => false
  | _ => true

section

variable (h : Stable C Req.acts I)
include h

theorem Stable.plain : Stable C Req.plain I where
  ask q hq := h.ask q (by cases q <;> first | rfl | cases hq)
  progress := h.progress

theorem discard_keeps (id : String) (force : Bool) : Keeps C I (discard id force) :=
  Keeps.bind (h.keeps rfl) fun _ => Keeps.pure _

theorem settle_keeps (s : DeploymentService) (created : String)
    (outcome : Outcome) : Keeps C I (settle s created outcome) := by
  refine Keeps.ite (discard_keeps h created true) ?_
  refine Keeps.bind (current_keeps h.plain.quiet _) fun b => ?_
  split
  · exact Keeps.pure _
  · exact Keeps.pure _
  · exact Keeps.pure _
  · exact Keeps.ite (Keeps.pure _)
      (Keeps.ite (Keeps.pure _) (Keeps.ite (Keeps.pure _) (discard_keeps h _ false)))

theorem undo_keeps (p : Prepared) (created : String)
    (outcome : Outcome) : Keeps C I (undo req p created outcome) := by
  have hnew : Keeps C I (discardNew p.s created outcome) :=
    Keeps.ite (discard_keeps h created true)
      (Keeps.ite (settle_keeps h p.s "" outcome) (Keeps.pure _))
  refine Keeps.bind hnew fun gone => Keeps.ite (Keeps.pure _) (Keeps.ite (Keeps.pure _) ?_)
  exact unpark_keeps h.plain p

theorem reclaim_keeps (p : Prepared) : Keeps C I (reclaim req p) := by
  refine Keeps.ite (Keeps.pure _) (Keeps.bind (current_keeps h.plain.quiet _) fun b => ?_)
  split
  · exact Keeps.pure _
  · exact Keeps.pure _
  · exact Keeps.ite (Keeps.pure _) (Keeps.ite (Keeps.pure _) (discard_keeps h _ false))

theorem sendCreate_keeps (p : Prepared) : Keeps C I (sendCreate req p) := by
  have hpost : Keeps C I (postCreate req p) := by
    refine Keeps.bind (h.keeps rfl) fun first => Keeps.ite ?_ (Keeps.pure _)
    exact Keeps.bind (reclaim_keeps h p) fun again => Keeps.ite (h.keeps rfl) (Keeps.pure _)
  refine Keeps.bind hpost fun a => Keeps.ite (Keeps.pure _) (Keeps.ite (Keeps.pure _) ?_)
  exact Keeps.bind (connectAll_keeps (fun _ => h.keeps rfl) _) fun _ => Keeps.pure _

theorem createOrUndo_keeps (p : Prepared) : Keeps C I (createOrUndo req p) := by
  refine Keeps.bind (sendCreate_keeps h p) fun x => ?_
  refine Keeps.ite (Keeps.pure _) (Keeps.ite (Keeps.ite ?_ (Keeps.pure _)) ?_)
  · exact Keeps.bind (settle_keeps h p.s "" _) fun _ => Keeps.pure _
  · exact Keeps.bind (undo_keeps h p _ _) fun _ => Keeps.pure _

theorem stopStep_keeps (p : Prepared) (created : String)
    (now : Rechecked) : Keeps C I (stopStep req p created now) := by
  refine Keeps.bind (h.keeps rfl) fun a => Keeps.ite (Keeps.pure _) ?_
  refine Keeps.bind (undo_keeps h p created _) fun undone => Keeps.ite (Keeps.pure _) ?_
  exact Keeps.bind (reviveIfStopped_keeps h.plain p _ _) fun _ => Keeps.pure _

theorem putBack_keeps (p : Prepared) (created : String)
    (running paused : Bool) : Keeps C I (putBack p created running paused) := by
  refine Keeps.bind (discard_keeps h created true) fun gone => Keeps.ite (Keeps.pure _) ?_
  refine Keeps.bind (unpark_keeps h.plain p) fun unparked => Keeps.ite ?_ (Keeps.pure _)
  exact Keeps.bind (revive_keeps h.plain p paused) fun _ => Keeps.pure _

theorem removeStep_keeps (p : Prepared) : Keeps C I (removeStep p) :=
  Keeps.bind (h.keeps rfl) fun _ => Keeps.ite (Keeps.pure _) (Keeps.pure _)

end

/-- An invariant that every part of the second phase keeps. -/
structure Steady (C : Contract Req Ans σ) (I : DeployRun → σ → Prop) : Prop where
  acts : Stable C Req.acts I
  began : Keeps C I beginRun
  added : ∀ st, Keeps C I (addStep st)
  concluded : ∀ r s a, I r s → I (r.concluded a) s
  recoded : Keeps C I
    (modify fun r => { r with res := { r.res with steps := recode r.res.steps } } : Run PUnit)

section

variable (h : Steady C I)
include h

theorem Steady.step {β : Type} {service : String} {name : StepName} {skipped : β}
    {body : Run (StepAnswer × β)} (hbody : Keeps C I body) :
    Keeps C I (step service name skipped body) := by
  intro r s hI
  rw [wp_step]
  split
  · exact h.added _ r s hI
  · exact wp_mono (hbody r s hI) fun x r' t hI' => h.added _ _ t (h.concluded r' t x.1 hI')

theorem Steady.createStep (p : Prepared) : Keeps C I (createStep req p) := by
  have hguard : Keeps C I (createGuard req p) :=
    fun r s hI => wp_mono (createGuard_spec h.acts.plain h.began p hI) fun _ _ _ ht => ht.1
  refine Keeps.bind hguard fun g => ?_
  cases g with
  | some => exact Keeps.pure _
  | none => exact createOrUndo_keeps h.acts p

theorem Steady.create (p : Prepared) : Keeps C I (create req p) :=
  Keeps.bind (h.step (h.createStep p)) fun _ =>
    Keeps.bind (confess_keeps h.added _ _) fun _ => Keeps.pure _

theorem Steady.start (s : DeploymentService) (created : String) (watched : Bool) :
    Keeps C I (start c s created watched) :=
  h.step (startStep_keeps h.acts.plain.quiet s (h.acts.keeps rfl) watched)

theorem Steady.recheck (p : Prepared) (later : Nat) : Keeps C I (recheck req p later) :=
  Keeps.bind (h.acts.keeps rfl) fun _ => Keeps.ite (Keeps.pure _)
    (Keeps.bind h.began fun _ => recheckContainer_keeps h.acts.plain.quiet p later)

theorem Steady.rollbackIf (failed : Bool) (p : Prepared) (created : String)
    (running paused : Bool) : Keeps C I (rollbackIf failed p created running paused) := by
  refine Keeps.ite (Keeps.bind (putBack_keeps h.acts p created running paused) fun restored => ?_)
    (Keeps.pure _)
  exact Keeps.ite (h.added _) (Keeps.bind h.recoded fun _ => h.added _)

theorem Steady.replace (p : Prepared) (later : Nat) : Keeps C I (replace c req p later) := by
  refine Keeps.ite ?_ ?_
  · refine Keeps.bind (h.create p) fun created => Keeps.bind (h.start _ _ _) fun out => ?_
    refine Keeps.ite ?_ (Keeps.pure _)
    exact Keeps.bind (settle_keeps h.acts _ _ _) fun _ => confess_keeps h.added _ _
  · refine Keeps.bind (h.step (h.recheck p later)) fun now => ?_
    refine Keeps.bind (h.step (rename_keeps h.acts.plain p)) fun unparked => ?_
    refine Keeps.bind (confess_keeps h.added _ _) fun _ => Keeps.bind (h.create p) fun created => ?_
    refine Keeps.bind (h.step (stopStep_keeps h.acts p created now)) fun stopped => ?_
    refine Keeps.bind (confess_keeps h.added _ _) fun _ => Keeps.bind (h.start _ _ _) fun out => ?_
    exact Keeps.bind (h.rollbackIf _ p created _ _) fun _ => h.step (removeStep_keeps h.acts p)

end

theorem Steady.replaceAll (h : Steady C I) :
    ∀ ps : List Prepared, Keeps C I (replaceAll c req ps)
  | [] => Keeps.pure _
  | p :: ps => Keeps.bind (h.replace p ps.length) fun _ => h.replaceAll ps

end Acts

/-! ## A run that is over -/

section Over

variable {c : Client} {req : DeploymentRequest}

/-- The outcome is fixed, and the invariant holds. -/
def Over (I : DeployRun → σ → Prop) (r : DeployRun) (s : σ) : Prop :=
  r.res.outcome.isSome = true ∧ I r s

theorem over_step {β : Type} {service : String} {name : StepName} {skipped : β}
    {body : Run (StepAnswer × β)} (hI : ∀ st, st.outcome = .skipped → Keeps C I (addStep st))
    {r : DeployRun} {s : σ} (h : Over I r s) :
    wp C (step service name skipped body) (fun b r' s' => b = skipped ∧ Over I r' s') r s := by
  have hadd := hI (skippedStep service name) rfl r s h.2
  refine wp_step_skipped h.1 ?_
  exact ⟨hadd.1, fun b t ht => ⟨rfl, h.1, hadd.2 b t ht⟩⟩

/-- Once the outcome is fixed, the replacement of a service only records skipped steps. -/
theorem over_replace (hI : ∀ st, st.outcome = .skipped → Keeps C I (addStep st)) (p : Prepared)
    (later : Nat) : Keeps C (Over I) (replace c req p later) := by
  have hcreate : ∀ r s, Over I r s →
      wp C (create req p) (fun b r' s' => b = "" ∧ Over I r' s') r s := by
    intro r s h
    unfold create
    rw [wp_bind]
    refine wp_mono (over_step hI h) ?_
    rintro left r' s' ⟨rfl, h'⟩
    exact ⟨rfl, h'⟩
  have hstart : ∀ created watched r s, Over I r s →
      wp C (start c p.s created watched) (fun b r' s' => b = (.skipped, false) ∧ Over I r' s') r s :=
    fun created watched r s h => over_step hI h
  intro r s h
  unfold replace
  split
  · unfold replaceRun
    rw [wp_bind]
    refine wp_mono (hcreate r s h) ?_
    rintro created r s ⟨rfl, h⟩
    rw [wp_bind]
    refine wp_mono (hstart _ _ r s h) ?_
    rintro out r s ⟨rfl, h⟩
    exact h
  · rw [wp_bind]
    refine wp_mono (over_step hI h) ?_
    rintro now r s ⟨rfl, h⟩
    rw [wp_bind]
    refine wp_mono (over_step hI h) ?_
    rintro unparked r s ⟨rfl, h⟩
    rw [wp_bind, confess_true, wp_pure, wp_bind]
    refine wp_mono (hcreate r s h) ?_
    rintro created r s ⟨rfl, h⟩
    rw [wp_bind]
    refine wp_mono (over_step hI h) ?_
    rintro stopped r s ⟨rfl, h⟩
    rw [wp_bind, confess_true, wp_pure, wp_bind]
    refine wp_mono (hstart _ _ r s h) ?_
    rintro out r s ⟨rfl, h⟩
    exact wp_mono (over_step hI h) fun _ r s h => h.2

theorem over_replaceAll (hI : ∀ st, st.outcome = .skipped → Keeps C I (addStep st)) :
    ∀ ps : List Prepared, Keeps C (Over I) (replaceAll c req ps)
  | [] => Keeps.pure _
  | p :: ps => Keeps.bind (over_replace hI p ps.length) fun _ => over_replaceAll hI ps

end Over

/-! ## A whole run -/

/-- A run refuses its frame, or runs it. -/
theorem wp_deploy {c : Client} {req : DeploymentRequest} {Q : DeploymentResult → σ → Prop} {s : σ}
    (howed : C.owed .now s) (hrefused : ∀ now t e, C.step .now s now t → Q (refusal req e) t)
    (hrun : ∀ now t, C.step .now s now t → req.Docker →
      wp C (deployAccepted c req) (fun res _ => Q res) (.initial req) t) :
    (deploy c req).wp C Q s := by
  unfold deploy
  rw [Prog.wp_bind]
  refine ⟨howed, fun now t ht => ?_⟩
  rw [Prog.wp_ret]
  cases hv : req.validateFor .docker now with
  | error e => exact hrefused now t e ht
  | ok =>
    rw [Prog.wp_bind]
    exact hrun now t ht (docker_of_validateFor hv)

/-- The result of a run from its last record. -/
def DeployRun.result (r : DeployRun) : DeploymentResult :=
  { r.res with outcome := some (r.res.outcome.getD .succeeded) }

/-- The run of an accepted frame is its first phase, followed by the replacements. -/
theorem Watched.deployAccepted {c : Client} {req : DeploymentRequest} {E : σ → Prop}
    {S : Sight} (h : Watched C E S)
    {Q : DeploymentResult → σ → Prop} {r : DeployRun} {u : σ} (hE : E u)
    (hrest : ∀ ps r' t, E t → List.Forall₂ (PreparedFrom req S r') req.services ps →
      wp C (replaceAll c req ps) (fun _ r'' v => Q r''.result v) r' t) :
    wp C (deployAccepted c req) (fun res _ => Q res) r u := by
  have hquiet : Stable C Req.quiet (fun _ t => E t) :=
    ⟨fun q hq _ t ht => h.quiet q hq t ht, fun _ _ _ _ ht => ht⟩
  unfold Docker.deployAccepted
  rw [wp_bind]
  refine wp_mono (hquiet.noteDefaults r u hE) fun _ r u hE => ?_
  rw [wp_bind]
  refine wp_mono (hquiet.keeps rfl r u hE) fun t r u hE => ?_
  rw [wp_bind]
  refine wp_mono (hquiet.keeps rfl r u hE) fun now r u hE => ?_
  simp only [wp_bind, wp_modify]
  refine wp_mono (h.prepareAll req.services hE) ?_
  rintro ps r' t ⟨hE, -, hps⟩
  exact hrest ps r' t hE hps

end KyYard.Docker
