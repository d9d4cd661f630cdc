import KyYard.Docker.RunRules

/-!
# The two phases of a run

A run first settles every service's precondition, volumes and image, and only then touches a
container. The first phase of a request is known in advance as a list of steps
(`firstPhaseSteps`): one precondition for each service that replaces a container, one volume step
for each volume not mounted by an earlier service, and one image or pull step for each service.

Main result: `phase_separation`. In every dialogue of a run with the daemon, under no assumption on
the answers, a request that touches a container is preceded by the record of exactly these steps,
all succeeded, and by the started hook; the hook is called at most once, and only after the same
record.
-/

namespace KyYard.Docker

open Foundation Protocol Stateful

/-! ## What a dialogue recorded -/

/-- A dialogue of a run. -/
abbrev History : Type := List (Event Req Ans)

/-- The step a request records. -/
def Req.step? : Req → Option DeploymentStep
  | .record s => some s
  | _ => none

/-- The steps a dialogue recorded, in order. -/
def recorded (h : History) : List DeploymentStep := h.filterMap fun e => e.req.step?

/-- The call of the started hook. -/
def Req.isStarted : Req → Bool
  | .started => true
  | _ => false

/-- The started hook was called. -/
def hookCalled (h : History) : Bool := h.any fun e => e.req.isStarted

/-- The steps of the first phase. -/
def firstPhase : StepName → Bool
  | .precondition | .volume | .image | .pull => true
  | _ => false

@[simp] theorem recorded_append (h : History) (e : Event Req Ans) :
    recorded (h ++ [e]) = recorded h ++ e.req.step?.toList := by
  cases hs : e.req.step? <;> simp [recorded, hs]

@[simp] theorem hookCalled_append (h : History) (e : Event Req Ans) :
    hookCalled (h ++ [e]) = (hookCalled h || e.req.isStarted) := by
  simp [hookCalled]

/-! ## The first phase of a request -/

variable (c : Client) (req : DeploymentRequest)

/-- The volumes mounted that are not among those seen, each once. -/
def newVolumes : List String → List Mount → List String
  | _, [] => []
  | seen, m :: ms =>
    if m.kind = .volume ∧ ¬seen.contains m.source then
      m.source :: newVolumes (m.source :: seen) ms
    else newVolumes seen ms

/-- The volumes seen after a service. -/
def seenAfter (seen : List String) (ms : List Mount) : List String :=
  (newVolumes seen ms).reverse ++ seen

/-- The step that settles a service's image. -/
def imageStepName (s : DeploymentService) : StepName := if s.pull.isSome then .pull else .image

/-- The first phase of a service, when every step of it succeeds. -/
def serviceSteps (seen : List String) (s : DeploymentService) : List DeploymentStep :=
  (if run req s then [] else [succeededStep s.name .precondition]) ++
    (newVolumes seen s.mountList).map (fun _ => succeededStep s.name .volume) ++
    [succeededStep s.name (imageStepName s)]

/-- The first phase of services, when every step of it succeeds. -/
def firstPhaseSteps : List String → List DeploymentService → List DeploymentStep
  | _, [] => []
  | seen, s :: ss => serviceSteps req seen s ++ firstPhaseSteps (seenAfter seen s.mountList) ss

/-- The first phase is behind: its recorded steps are all those of the request, succeeded. -/
def FirstPhaseDone (h : History) : Prop :=
  (recorded h).filter (fun st => firstPhase st.step) = firstPhaseSteps req [] req.services

variable {s : DeploymentService} {st : DeploymentStep} {r : DeployRun} {h : History}
  {service : String} {name : StepName}

theorem firstPhase_of_mem_serviceSteps {seen : List String}
    (h : st ∈ serviceSteps req seen s) : firstPhase st.step = true := by
  simp only [serviceSteps, List.mem_append, List.mem_map, List.mem_singleton] at h
  rcases h with (h | ⟨v, -, rfl⟩) | rfl
  · split at h
    · cases h
    rw [List.mem_singleton.mp h]
    rfl
  · rfl
  · cases hp : s.pull <;> simp [succeededStep, imageStepName, hp, firstPhase]

theorem firstPhase_of_mem_firstPhaseSteps :
    ∀ {ss : List DeploymentService} {seen : List String},
      st ∈ firstPhaseSteps req seen ss → firstPhase st.step = true
  | [], _, h => by cases h
  | s :: ss, seen, h => by
    rcases List.mem_append.mp h with h | h
    · exact firstPhase_of_mem_serviceSteps req h
    · exact firstPhase_of_mem_firstPhaseSteps h

/-- What a run owes: a container is touched, and the hook called, after the first phase only, a
container is touched after the hook only, and the hook is called once. -/
def phaseOwed (q : Req) (h : History) : Prop :=
  (q.touches = true → FirstPhaseDone req h ∧ hookCalled h = true) ∧
    (q.isStarted = true → FirstPhaseDone req h ∧ hookCalled h = false)

/-- The contract of a run about its phases. -/
abbrev phases : Contract Req Ans History := Prog.dialogue (phaseOwed req)

/-- A request that touches no container and is not the hook is always owed. -/
theorem phaseOwed_of_quiet {q : Req} (hq : q.touches = false) (hs : q.isStarted = false)
    (h : History) : phaseOwed req q h :=
  ⟨fun ht => by simp [hq] at ht, fun ht => by simp [hs] at ht⟩

/-! ## The first phase -/

/-- The first phase is under way: nothing was touched, and while the outcome is open the steps
recorded are those given, all succeeded. -/
structure Preparing (steps : List DeploymentStep) (seen : List String) (r : DeployRun)
    (h : History) : Prop where
  begun : r.begun = false
  silent : hookCalled h = false
  ok : r.res.outcome = none → r.ensured = seen ∧ recorded h = steps

variable {c req} {steps : List DeploymentStep} {seen : List String}

theorem quiet_facts {q : Req} (hq : q.quiet = true) :
    q.touches = false ∧ q.isStarted = false ∧ q.step? = none := by
  cases q <;> first | exact ⟨rfl, rfl, rfl⟩ | cases hq

theorem preparing_stable : Stable (phases req) Req.quiet (Preparing steps seen) where
  ask q hq r h hp := by
    obtain ⟨htouch, hhook, hstep⟩ := quiet_facts hq
    refine ⟨phaseOwed_of_quiet req htouch hhook h, ?_⟩
    rintro b t rfl
    exact ⟨hp.begun, by simp [hp.silent, hhook], by simpa [hstep] using hp.ok⟩
  progress r r' h hr hp :=
    ⟨hr.begun.trans hp.begun, hp.silent, fun ho => by
      rw [hr.ensured]
      exact hp.ok (hr.outcome ▸ ho)⟩

/-- The record of a step while the first phase is under way. -/
theorem preparing_addStep {steps' : List DeploymentStep}
    (hb : r.begun = false) (hs : hookCalled h = false)
    (hok : r.res.outcome = none → r.ensured = seen ∧ recorded h ++ [st] = steps') :
    wp (phases req) (addStep st) (fun _ => Preparing steps' seen) r h := by
  refine ⟨phaseOwed_of_quiet req rfl rfl h, ?_⟩
  rintro b t rfl
  exact ⟨hb, by simp [hs, Req.isStarted], by simpa [Req.step?] using hok⟩

/-- A step of a first phase that failed adds nothing that matters. -/
theorem preparing_skip {β : Type} {skipped : β} {body : Run (StepAnswer × β)} (hb : r.begun = false)
    (hs : hookCalled h = false) (ho : r.res.outcome.isSome = true) :
    wp (phases req) (step service name skipped body) (fun _ => Preparing steps seen) r h := by
  refine wp_step_skipped ho (preparing_addStep hb hs fun hn => ?_)
  simp [hn] at ho

/-- A step of the first phase adds itself to the steps recorded, or ends the run. -/
theorem preparing_step {β : Type} {skipped : β}
    {body : Run (StepAnswer × β)} (hbody : Keeps (phases req) (Preparing steps seen) body)
    (hp : Preparing steps seen r h) :
    wp (phases req) (step service name skipped body)
      (fun _ => Preparing (steps ++ [succeededStep service name]) seen) r h := by
  cases ho : r.res.outcome with
  | some => exact preparing_skip hp.begun hp.silent (by simp [ho])
  | none =>
    refine wp_step_open ho (wp_mono (hbody r h hp) ?_)
    intro x r' h' hp'
    refine preparing_addStep (by simp [hp'.begun]) hp'.silent fun hn => ?_
    obtain ⟨hx, hn'⟩ := (concluded_outcome_none r' x.1).mp hn
    obtain ⟨hseen, hrec⟩ := hp'.ok hn'
    refine ⟨by simp [hseen], ?_⟩
    rw [answeredStep_of_succeeded _ _ _ hx, hrec]

/-- One mount of a service: a volume not seen before gets its step. -/
theorem preparing_mount (s : DeploymentService) (old : List InspectedMount) (m : Mount)
    (hp : Preparing steps seen r h) :
    wp (phases req) (ensureMount req s old m)
      (fun _ => Preparing
        (steps ++ (newVolumes seen [m]).map fun _ => succeededStep s.name .volume)
        (seenAfter seen [m])) r h := by
  simp only [ensureMount, wp_bind, wp_get]
  cases ho : r.res.outcome with
  | some =>
    -- The outcome is fixed: what was seen no longer matters.
    split
    · exact preparing_skip hp.begun hp.silent (by simp [ho])
    · exact ⟨hp.begun, hp.silent, fun hn => by simp [ho] at hn⟩
  | none =>
    obtain ⟨hseen, hrec⟩ := hp.ok ho
    subst hseen
    split
    · next hm =>
      have hnew : newVolumes r.ensured [m] = [m.source] := by
        simp only [newVolumes, if_pos hm]
      rw [seenAfter, hnew]
      exact preparing_step (ensureVolume_keeps preparing_stable s old m.source)
        ⟨hp.begun, hp.silent, fun _ => ⟨rfl, hrec⟩⟩
    · next hm =>
      have hnew : newVolumes r.ensured [m] = [] := by
        simp only [newVolumes, if_neg hm]
      rw [seenAfter, hnew]
      simpa using hp

theorem newVolumes_cons (m : Mount) (ms : List Mount) :
    newVolumes seen (m :: ms) = newVolumes seen [m] ++ newVolumes (seenAfter seen [m]) ms := by
  by_cases hm : m.kind = .volume ∧ ¬seen.contains m.source
  · simp only [newVolumes, seenAfter, if_pos hm]
    rfl
  · simp only [newVolumes, seenAfter, if_neg hm]
    rfl

theorem preparing_mounts (s : DeploymentService) (old : List InspectedMount) :
    ∀ {ms : List Mount} {steps : List DeploymentStep} {seen : List String} {r : DeployRun}
      {h : History}, Preparing steps seen r h →
      wp (phases req) (ms.forM (ensureMount req s old))
        (fun _ => Preparing
          (steps ++ (newVolumes seen ms).map fun _ => succeededStep s.name .volume)
          (seenAfter seen ms)) r h
  | [], _, _, _, _, hp => by simpa [newVolumes, seenAfter] using hp
  | m :: ms, steps, seen, r, h, hp => by
    show wp _ (ensureMount req s old m >>= fun _ => ms.forM (ensureMount req s old)) _ r h
    rw [wp_bind]
    refine wp_mono (preparing_mount s old m hp) fun _ r' h' hp' => ?_
    refine wp_mono (preparing_mounts s old hp') fun _ r'' h'' hp'' => ?_
    have hseen : seenAfter seen (m :: ms) = seenAfter (seenAfter seen [m]) ms := by
      rw [seenAfter, newVolumes_cons m ms]
      simp [seenAfter]
    rw [hseen, newVolumes_cons m ms, List.map_append, ← List.append_assoc]
    exact hp''

/-- A service whose create would be denied for a bind nobody acknowledged. -/
def bindDenied (req : DeploymentRequest) (s : DeploymentService) : Bool :=
  run req s && unacknowledgedBind s

/-- The volumes and the image of a service. -/
theorem preparing_volumes_image (s : DeploymentService) (old : List InspectedMount)
    (hp : Preparing steps seen r h) :
    wp (phases req) (ensureVolumes req s old) (fun _ => wp (phases req) (image req s)
      (fun _ => Preparing (steps ++
        ((newVolumes seen s.mountList).map (fun _ => succeededStep s.name .volume) ++
        [succeededStep s.name (imageStepName s)])) (seenAfter seen s.mountList))) r h := by
  refine wp_mono (preparing_mounts s old hp) fun _ r' h' hp' => ?_
  rw [← List.append_assoc]
  unfold image imageStep imageStepName
  rw [wp_bind]
  cases s.pull with
  | none => exact preparing_step (pinnedImage_keeps preparing_stable _) hp'
  | some p => exact preparing_step (pull_keeps preparing_stable p) hp'

/-- The first phase of a service: its steps are recorded, or the run is over. -/
theorem preparing_prepare (hs : bindDenied req s = false) (hp : Preparing steps seen r h) :
    wp (phases req) (prepare c req s)
      (fun _ => Preparing (steps ++ serviceSteps req seen s) (seenAfter seen s.mountList)) r h := by
  unfold prepare serviceSteps
  by_cases hrun : run req s = true
  · have hbind : unacknowledgedBind s = false := by simpa [bindDenied, hrun] using hs
    simp only [hrun, hbind, if_true, wp_ite, wp_bind]
    split
    · -- A label of the installer ends the run here.
      cases ho : r.res.outcome with
      | some => exact preparing_skip hp.begun hp.silent (by simp [ho])
      | none =>
        refine wp_step_open ho (preparing_addStep (by simp [hp.begun]) hp.silent fun hn => ?_)
        obtain ⟨hx, -⟩ := (concluded_outcome_none _ _).mp hn
        cases hx
    · exact preparing_volumes_image s [] hp
  · simp only [if_neg hrun, wp_bind, List.append_assoc]
    refine wp_mono (preparing_step (precondition_keeps preparing_stable s) hp) ?_
    intro before r' h' hp'
    rw [← List.append_assoc]
    exact preparing_volumes_image s _ hp'

theorem preparing_prepareAll : ∀ {ss : List DeploymentService} {steps : List DeploymentStep}
    {seen : List String} {r : DeployRun} {h : History},
    (∀ s ∈ ss, bindDenied req s = false) → Preparing steps seen r h →
    wp (phases req) (prepareAll c req ss)
      (fun _ r' h' => ∃ seen', Preparing (steps ++ firstPhaseSteps req seen ss) seen' r' h') r h
  | [], steps, seen, r, h, _, hp => ⟨seen, by simpa [firstPhaseSteps] using hp⟩
  | s :: ss, steps, seen, r, h, hs, hp => by
    simp only [prepareAll, wp_bind, wp_pure]
    refine wp_mono (preparing_prepare (hs s List.mem_cons_self) hp) fun p r' h' hp' => ?_
    have hs' : ∀ s ∈ ss, bindDenied req s = false := fun s h => hs s (List.mem_cons_of_mem _ h)
    refine wp_mono (preparing_prepareAll hs' hp') ?_
    rintro ps r'' h'' ⟨seen', hp''⟩
    refine ⟨seen', ?_⟩
    rw [firstPhaseSteps, ← List.append_assoc]
    exact hp''

/-! ## The second phase -/

/-- The first phase is behind, and the run knows whether it called the hook. -/
structure Replacing (req : DeploymentRequest) (r : DeployRun) (h : History) : Prop where
  done : FirstPhaseDone req h
  hook : r.begun = hookCalled h

/-- The second phase has begun: containers may be touched. -/
structure Begun (req : DeploymentRequest) (r : DeployRun) (h : History) : Prop
    extends Replacing req r h where
  begun : r.begun = true

theorem firstPhaseDone_append (hd : FirstPhaseDone req h) {e : Event Req Ans}
    (he : ∀ st, e.req.step? = some st → firstPhase st.step = false) :
    FirstPhaseDone req (h ++ [e]) := by
  unfold FirstPhaseDone
  rw [recorded_append, List.filter_append, hd]
  cases hs : e.req.step? with
  | none => simp
  | some st => simp [he st hs]

theorem replacing_stable : Stable (phases req) Req.quiet (Replacing req) where
  ask q hq r h hr := by
    obtain ⟨htouch, hhook, hstep⟩ := quiet_facts hq
    refine ⟨phaseOwed_of_quiet req htouch hhook h, ?_⟩
    rintro b t rfl
    exact ⟨firstPhaseDone_append hr.done fun st hst => by simp [hstep] at hst,
      by simp [hr.hook, hhook]⟩
  progress r r' h hs hr := ⟨hr.done, hs.begun.trans hr.hook⟩

theorem begun_stable : Stable (phases req) Req.acts (Begun req) where
  ask q hq r h hr := by
    have hhook : q.isStarted = false := by cases q <;> first | rfl | cases hq
    have hstep : q.step? = none := by cases q <;> first | rfl | cases hq
    refine ⟨⟨fun _ => ⟨hr.done, hr.hook ▸ hr.begun⟩, fun hq => by simp [hhook] at hq⟩, ?_⟩
    rintro b t rfl
    exact ⟨⟨firstPhaseDone_append hr.done fun st hst => by simp [hstep] at hst,
      by simp [hr.hook, hhook]⟩, hr.begun⟩
  progress r r' h hs hr := ⟨⟨hr.done, hs.begun.trans hr.hook⟩, hs.begun.trans hr.begun⟩

/-- The record of a step of the second phase. -/
theorem replacing_addStep (hst : firstPhase st.step = false)
    (hr : Replacing req r h) {Q : Unit → DeployRun → History → Prop}
    (hQ : ∀ h', Replacing req (r.withStep st) h' → Q () (r.withStep st) h') :
    wp (phases req) (addStep st) Q r h := by
  refine ⟨phaseOwed_of_quiet req rfl rfl h, ?_⟩
  rintro b t rfl
  refine hQ _ ⟨firstPhaseDone_append hr.done ?_, by simp [hr.hook, Req.isStarted]⟩
  rintro st' ⟨⟩
  exact hst

/-- The hook is called where the second phase begins. -/
theorem replacing_beginRun (hr : Replacing req r h) :
    wp (phases req) beginRun (fun _ => Begun req) r h := by
  simp only [beginRun, wp_bind, wp_get]
  split
  · next hb =>
    have hsilent : hookCalled h = false := by rw [← hr.hook]; simpa using hb
    refine ⟨⟨fun ht => by simp [Req.touches] at ht, fun _ => ⟨hr.done, hsilent⟩⟩, ?_⟩
    rintro b t rfl
    exact ⟨⟨firstPhaseDone_append hr.done (fun st hst => by cases hst), by simp [Req.isStarted]⟩, rfl⟩
  · next hb => exact ⟨hr, by simpa using hb⟩

/-- A step of the second phase. `fine` are the values it can leave behind without having begun. -/
theorem replacing_step {β : Type} {skipped : β}
    {body : Run (StepAnswer × β)} (fine : β → Prop) (hname : firstPhase name = false)
    (hskip : fine skipped) (hr : Replacing req r h)
    (hbody : r.res.outcome = none → wp (phases req) body (fun x r' h' => Replacing req r' h' ∧
      (x.1.outcome = .succeeded ∨ ¬fine x.2 → r'.begun = true)) r h) :
    wp (phases req) (step service name skipped body) (fun b r' h' => Replacing req r' h' ∧
      (r'.res.outcome = none ∨ ¬fine b → r'.begun = true)) r h := by
  cases ho : r.res.outcome with
  | some =>
    refine wp_step_skipped (by simp [ho]) (replacing_addStep hname hr fun h' hr' => ⟨hr', ?_⟩)
    rintro (hn | hn)
    · simp [ho] at hn
    · exact absurd hskip hn
  | none =>
    refine wp_step_open ho (wp_mono (hbody ho) ?_)
    rintro x r' h' ⟨hr', hx⟩
    have hc : Replacing req (r'.concluded x.1) h' := ⟨hr'.done, by simp [hr'.hook]⟩
    refine replacing_addStep (by simpa using hname) hc fun h'' hr'' => ⟨hr'', ?_⟩
    simp only [withStep_outcome, withStep_begun, concluded_begun, concluded_outcome_none]
    rintro (⟨hs, -⟩ | hn)
    · exact hx (.inl hs)
    · exact hx (.inr hn)

/-- Between two steps of the second phase: while the outcome is open, it has begun. -/
def Running (req : DeploymentRequest) (r : DeployRun) (h : History) : Prop :=
  Replacing req r h ∧ (r.res.outcome = none → r.begun = true)

/-- A step after the first of a service, whose body may touch containers. -/
theorem running_step {β : Type} {skipped : β}
    {body : Run (StepAnswer × β)} (fine : β → Prop) (hname : firstPhase name = false)
    (hskip : fine skipped) (hbody : Keeps (phases req) (Begun req) body) (hr : Running req r h) :
    wp (phases req) (step service name skipped body) (fun b r' h' => Running req r' h' ∧
      (¬fine b → r'.begun = true)) r h := by
  have hstep : wp (phases req) (step service name skipped body) (fun b r' h' =>
      Replacing req r' h' ∧ (r'.res.outcome = none ∨ ¬fine b → r'.begun = true)) r h := by
    refine replacing_step fine hname hskip hr.1 fun ho => ?_
    refine wp_mono (hbody r h ⟨hr.1, hr.2 ho⟩) fun x r' h' hb => ⟨hb.toReplacing, fun _ => hb.begun⟩
  refine wp_mono hstep fun b r' h' hb => ⟨⟨hb.1, fun ho => hb.2 (.inl ho)⟩, fun hn => hb.2 (.inr hn)⟩

theorem running_confess (service : String) (restored : Bool) :
    Keeps (phases req) (Running req) (confess service restored) := by
  refine Keeps.ite ?_ (Keeps.pure _)
  intro r h hr
  exact replacing_addStep rfl hr.1 fun h' hr' => ⟨hr', hr.2⟩

theorem replacing_recheck (p : Prepared) (later : Nat) (hr : Replacing req r h) :
    wp (phases req) (recheck req p later) (fun x r' h' => Replacing req r' h' ∧
      (x.1.outcome = .succeeded → r'.begun = true)) r h := by
  unfold recheck
  rw [wp_bind]
  refine wp_mono (replacing_stable.keeps rfl r h hr) fun now r h hr => ?_
  simp only [wp_ite, wp_bind]
  split
  · exact ⟨hr, nofun⟩
  · refine wp_mono (replacing_beginRun hr) fun _ r h hb => ?_
    refine wp_mono (recheckContainer_keeps begun_stable.plain.quiet p later r h hb) ?_
    exact fun x r h hb => ⟨hb.toReplacing, fun _ => hb.begun⟩

theorem replacing_createGuard (p : Prepared)
    (hr : Replacing req r h) (hb : run req p.s = false → r.begun = true) :
    wp (phases req) (createGuard req p) (fun x r' h' => Replacing req r' h' ∧
      ((∀ a, x = some a → a.outcome = .succeeded) → r'.begun = true)) r h := by
  simp only [createGuard, wp_ite, wp_bind, wp_pure]
  split
  · next hrun => exact ⟨hr, fun _ => hb (by simpa using hrun)⟩
  split
  · exact ⟨hr, fun hx => absurd (hx _ rfl) (by decide)⟩
  · refine wp_mono (replacing_stable.keeps rfl r h hr) fun now r h hr => ?_
    split
    · exact ⟨hr, fun hx => absurd (hx _ rfl) (by decide)⟩
    · exact wp_mono (replacing_beginRun hr) fun _ r h hb => ⟨hb.toReplacing, fun _ => hb.begun⟩

theorem running_create (p : Prepared) (hr : Replacing req r h)
    (hb : r.res.outcome = none → run req p.s = false → r.begun = true) :
    wp (phases req) (create req p) (fun _ => Running req) r h := by
  unfold create
  rw [wp_bind]
  have hstep : wp (phases req) (step p.s.name .create ⟨"", true⟩ (createStep req p))
      (fun b r' h' => Replacing req r' h' ∧ (r'.res.outcome = none ∨ ¬True → r'.begun = true)) r h := by
    refine replacing_step (fun _ => True) rfl trivial hr fun ho => ?_
    unfold createStep
    rw [wp_bind]
    refine wp_mono (replacing_createGuard p hr (hb ho)) ?_
    rintro g r h ⟨hr, hg⟩
    cases g with
    | some => exact ⟨hr, by simpa using hg⟩
    | none =>
      refine wp_mono (createOrUndo_keeps begun_stable p r h ⟨hr, hg nofun⟩) ?_
      exact fun x r h hb => ⟨hb.toReplacing, fun _ => hb.begun⟩
  refine wp_mono hstep fun left r h hr => ?_
  rw [wp_bind]
  exact running_confess _ _ r h ⟨hr.1, fun ho => hr.2 (.inl ho)⟩

theorem running_start (s : DeploymentService) (created : String) (watched : Bool)
    (hr : Running req r h) :
    wp (phases req) (start c s created watched) (fun b r' h' => Running req r' h' ∧
      (¬failedStep b.1 = false → r'.begun = true)) r h := by
  refine running_step (fun b => failedStep b.1 = false) ?_ ?_
    (startStep_keeps begun_stable.plain.quiet s (begun_stable.keeps rfl) watched) hr
  · rfl
  · rfl

theorem begun_rollback (p : Prepared) (created : String) (running paused : Bool)
    (hb : Begun req r h) :
    wp (phases req) (rollback p created running paused) (fun _ => Running req) r h := by
  unfold rollback
  rw [wp_bind]
  refine wp_mono (putBack_keeps begun_stable p created running paused r h hb) fun restored r h hb => ?_
  have hrun : Running req r h := ⟨hb.toReplacing, fun _ => hb.begun⟩
  split
  · exact running_confess p.s.name false r h hrun
  · simp only [wp_bind, wp_modify]
    apply replacing_addStep
    · rfl
    · exact ⟨hb.done, hb.hook⟩
    · exact fun h' hr' => ⟨hr', fun _ => hb.begun⟩

theorem replacing_replaceRun (p : Prepared) (hrun : run req p.s = true) :
    Keeps (phases req) (Replacing req) (replaceRun c req p) := by
  intro r h hr
  unfold replaceRun
  rw [wp_bind]
  refine wp_mono (running_create p hr fun _ hn => by simp [hrun] at hn) fun created r h hr => ?_
  rw [wp_bind]
  refine wp_mono (running_start p.s created false hr) ?_
  rintro ⟨outcome, up⟩ r h ⟨hr, hfail⟩
  rw [wp_ite]
  split
  · next hf =>
    have hb : Begun req r h := ⟨hr.1, hfail (by simp [hf.1])⟩
    rw [wp_bind]
    refine wp_mono (settle_keeps begun_stable p.s created outcome r h hb) fun ok r h hb => ?_
    exact wp_mono (running_confess _ ok r h ⟨hb.toReplacing, fun _ => hb.begun⟩) fun _ _ _ h => h.1
  · exact hr.1

theorem replacing_replace (p : Prepared) (later : Nat) :
    Keeps (phases req) (Replacing req) (replace c req p later) := by
  unfold replace
  by_cases hrun : run req p.s = true
  · rw [if_pos hrun]
    exact replacing_replaceRun p hrun
  rw [if_neg hrun]
  intro r h hr
  rw [wp_bind]
  -- The recheck begins the second phase, or fixes the outcome.
  refine wp_mono (replacing_step (fun _ => True) rfl trivial hr fun _ =>
    wp_mono (replacing_recheck p later hr) ?_) ?_
  · rintro x r h ⟨hr, hx⟩
    exact ⟨hr, by simpa using hx⟩
  rintro now r h ⟨hr, hb⟩
  have hr : Running req r h := ⟨hr, fun ho => hb (.inl ho)⟩
  rw [wp_bind]
  refine wp_mono (running_step (fun _ => True) rfl trivial
    (rename_keeps begun_stable.plain p) hr) fun unparked r h hr => ?_
  rw [wp_bind]
  refine wp_mono (running_confess _ unparked r h hr.1) fun _ r h hr => ?_
  rw [wp_bind]
  refine wp_mono (running_create p hr.1 fun ho _ => hr.2 ho) fun created r h hr => ?_
  rw [wp_bind]
  refine wp_mono (running_step (fun _ => True) rfl trivial
    (stopStep_keeps begun_stable p created now) hr) fun stopped r h hr => ?_
  rw [wp_bind]
  refine wp_mono (running_confess _ stopped.2 r h hr.1) fun _ r h hr => ?_
  rw [wp_bind]
  refine wp_mono (running_start p.s created stopped.1 hr) ?_
  rintro ⟨outcome, up⟩ r h ⟨hr, hfail⟩
  have hback : wp (phases req)
      (rollbackIf (failedStep outcome) p created stopped.1 now.paused)
      (fun _ => Running req) r h := by
    unfold rollbackIf
    split
    · next hf => exact begun_rollback p created _ _ ⟨hr.1, hfail (by simp [hf])⟩
    · exact hr
  rw [wp_bind]
  refine wp_mono hback fun _ r h hr => ?_
  exact wp_mono (running_step (fun _ => True) rfl trivial
    (removeStep_keeps begun_stable p) hr) fun _ r h hr => hr.1.1

theorem replacing_replaceAll : ∀ ps : List Prepared,
    Keeps (phases req) (Replacing req) (replaceAll c req ps)
  | [] => Keeps.pure _
  | p :: ps => Keeps.bind (replacing_replace p ps.length) fun _ => replacing_replaceAll ps

/-! ## A whole run -/

/-- Recording a step is always owed. -/
theorem record_owed (st : DeploymentStep) : Keeps (phases req) (fun _ _ => True) (addStep st) := by
  intro r h _
  exact ⟨phaseOwed_of_quiet req rfl rfl h, fun _ _ _ => trivial⟩

/-- A run whose create is denied for its binds prepares nothing. -/
theorem denied_prepare (hs : bindDenied req s = true) (r : DeployRun)
    (h : History) : wp (phases req) (prepare c req s) (fun p _ _ => p.s = s) r h := by
  simp only [bindDenied, Bool.and_eq_true] at hs
  unfold prepare
  rw [if_pos hs.1]
  split
  · rw [wp_bind, wp_step]
    split
    · exact wp_mono (record_owed _ r h trivial) fun _ _ _ _ => rfl
    · rw [wp_pure]
      exact wp_mono (record_owed _ _ h trivial) fun _ _ _ _ => rfl
  · rw [if_neg (by simp [hs.2])]
    rfl

/-- Nor does it touch a container: its create is denied before anything is sent. -/
theorem denied_replaceAll {p : Prepared} (hs : bindDenied req p.s = true) (r : DeployRun)
    (h : History) : wp (phases req) (replaceAll c req [p]) (fun _ _ _ => True) r h := by
  cases ho : r.res.outcome with
  | some =>
    refine wp_mono (over_replaceAll (fun st _ => record_owed st) [p] r h ⟨?_, trivial⟩)
      fun _ _ _ _ => trivial
    simp [ho]
  | none =>
    simp only [bindDenied, Bool.and_eq_true] at hs
    have hguard : createGuard req p = pure (some (deny .bindMissing)) := by
      unfold createGuard
      rw [if_neg (by simp [hs.1]), if_pos hs.2]
    have hcreate : wp (phases req) (create req p)
        (fun _ => Over (fun _ _ => True)) r h := by
      unfold create
      rw [wp_bind]
      refine wp_step_open ho ?_
      simp only [createStep, hguard]
      exact ⟨phaseOwed_of_quiet req rfl rfl h, fun _ _ _ => ⟨rfl, trivial⟩⟩
    simp only [replaceAll, replace, replaceRun, hs.1, if_true, wp_bind]
    refine wp_mono hcreate fun created r h hover => ?_
    refine wp_mono (over_step (fun st _ => record_owed st) hover) ?_
    rintro x r h ⟨rfl, -⟩
    trivial

theorem phases_deployAccepted (hreq : req.Docker) (hp : Preparing [] [] r h) :
    wp (phases req) (deployAccepted c req) (fun _ _ _ => True) r h := by
  unfold deployAccepted
  rw [wp_bind]
  refine wp_mono (preparing_stable.noteDefaults r h hp) fun _ r h hp => ?_
  rw [wp_bind]
  refine wp_mono (preparing_stable.keeps rfl r h hp) fun t r h hp => ?_
  rw [wp_bind]
  refine wp_mono (preparing_stable.keeps rfl r h hp) fun now r h hp => ?_
  simp only [wp_bind, wp_modify]
  by_cases hdenied : ∃ s ∈ req.services, bindDenied req s = true
  · obtain ⟨s, hs, hd⟩ := hdenied
    have hexp : req.explicit = true := by
      simp only [bindDenied, run, Bool.and_eq_true] at hd
      exact hd.1.1
    obtain ⟨s', hs'⟩ := List.length_eq_one_iff.mp (hreq.explicit_single hexp)
    obtain rfl : s = s' := by simpa [hs'] using hs
    rw [hs']
    simp only [prepareAll, wp_bind]
    refine wp_mono (denied_prepare hd _ h) ?_
    rintro p r h rfl
    exact denied_replaceAll hd r h
  · have hall : ∀ s ∈ req.services, bindDenied req s = false := by simpa using hdenied
    refine wp_mono (preparing_prepareAll hall ⟨hp.begun, hp.silent, hp.ok⟩) ?_
    rintro ready r h ⟨seen, hp⟩
    cases ho : r.res.outcome with
    | some =>
      refine wp_mono (over_replaceAll (fun st _ => record_owed st) ready r h ⟨?_, trivial⟩)
        fun _ _ _ _ => trivial
      simp [ho]
    | none =>
      obtain ⟨-, hrec⟩ := hp.ok ho
      have hr : Replacing req r h := by
        refine ⟨?_, hp.begun.trans hp.silent.symm⟩
        unfold FirstPhaseDone
        rw [hrec, List.nil_append, List.filter_eq_self]
        exact fun st hst => firstPhase_of_mem_firstPhaseSteps req hst
      exact wp_mono (replacing_replaceAll ready r h hr) fun _ _ _ _ => trivial

/-- Every run meets the contract of its phases. -/
theorem phases_deploy : (deploy c req).wp (phases req) (fun _ _ => True) [] := by
  refine wp_deploy (phaseOwed_of_quiet req rfl rfl []) (fun _ _ _ _ => trivial) ?_
  rintro now t rfl hreq
  exact phases_deployAccepted hreq ⟨rfl, rfl, fun _ => ⟨rfl, rfl⟩⟩

/-- At most one element of a list satisfies `p` if none before it ever does. -/
theorem countP_le_one {α : Type} {p : α → Bool} : ∀ {l : List α},
    (∀ pre x post, l = pre ++ x :: post → p x = true → pre.any p = false) → l.countP p ≤ 1
  | [], _ => by simp
  | x :: l, h => by
    have hl : l.countP p ≤ 1 := by
      refine countP_le_one fun pre y post hl hy => ?_
      have := h (x :: pre) y post (by rw [hl]; rfl) hy
      simp only [List.any_cons, Bool.or_eq_false_iff] at this
      exact this.2
    rw [List.countP_cons]
    split
    · next hx =>
      have hnone : l.countP p = 0 := by
        rw [List.countP_eq_zero]
        intro y hy hpy
        obtain ⟨pre, post, hsplit⟩ := List.append_of_mem hy
        have := h (x :: pre) y post (by rw [hsplit]; rfl) hpy
        simp [hx] at this
      omega
    · exact hl

/-- **The phases of a run are separate.** Whatever the daemon answers: a container is touched only
after every step of the request's first phase was recorded as succeeded and the started hook was
called; the hook is called only after the same record and with no container touched before; and it
is called at most once. -/
theorem phase_separation {tr : History} {res : DeploymentResult}
    (hr : Prog.Runs (deploy c req) tr res) :
    (∀ pre e post, tr = pre ++ e :: post → e.req.touches = true →
      FirstPhaseDone req pre ∧ hookCalled pre = true) ∧
    (∀ pre e post, tr = pre ++ e :: post → e.req.isStarted = true →
      FirstPhaseDone req pre ∧ ∀ x ∈ pre, x.req.touches = false) ∧
    tr.countP (fun e => e.req.isStarted) ≤ 1 := by
  obtain ⟨-, howed⟩ := Prog.wp_runs (@phases_deploy c req) hr
  have htouch : ∀ pre e post, tr = pre ++ e :: post → e.req.touches = true →
      FirstPhaseDone req pre ∧ hookCalled pre = true :=
    fun pre e post he => (howed pre e post he).1
  have hhook : ∀ pre e post, tr = pre ++ e :: post → e.req.isStarted = true →
      FirstPhaseDone req pre ∧ hookCalled pre = false :=
    fun pre e post he => (howed pre e post he).2
  refine ⟨htouch, fun pre e post he hs => ⟨(hhook pre e post he hs).1, fun x hx => ?_⟩, ?_⟩
  · -- A container touched before would have needed the hook before.
    by_contra hx'
    obtain ⟨before, after, hpre⟩ := List.append_of_mem hx
    have htr : tr = before ++ x :: (after ++ e :: post) := by rw [he, hpre]; simp
    have hcalled := (htouch before x _ htr (by simpa using hx')).2
    have hnot := (hhook pre e post he hs).2
    rw [hpre] at hnot
    simp only [hookCalled] at hnot hcalled
    simp [hcalled] at hnot
  · exact countP_le_one fun pre x post hx hs => (hhook pre x post hx hs).2

/-! ## One recreate -/

/-- A full container id of one repeated digit. -/
def containerIDOf (digit : Char) : String := String.ofList (List.replicate 64 digit)

/-- A full image id of one repeated digit. -/
def imageIDOf (digit : Char) : String := "sha256:" ++ containerIDOf digit

/-- A service `web` that replaces the container `aa…a`. -/
def webService : DeploymentService where
  name := "web"
  containerName := "web"
  imageID := imageIDOf '2'
  replaces := ⟨containerIDOf 'a', imageIDOf '1', 1⟩
  restart := .unset
  ports := []
  env := .empty
  pull := none
  mounts := some []
  secretKeys := []
  volumes := []
  clusterIP := ""
  explicit := none

/-- The recreate of that service. -/
def webRequest : DeploymentRequest where
  deployment := "00000000-0000-0000-0000-000000000000"
  requestID := "r"
  endpoint := "e"
  project := "shop"
  revision := 1
  issuedAt := some 0
  deadline := 900 * second
  services := [webService]
  registries := .empty
  volumes := []
  kubernetes := none
  explicit := false

/-- A container with nothing configured. -/
def plainInspection (id name image : String) (state : ContainerState) : Inspection where
  id := id
  image := image
  name := name
  createdUnix := 1
  mounts := some []
  config := some {
    image := "", user := "", workingDir := "", hostname := "", stopSignal := "", macAddress := ""
    env := [], cmd := none, entrypoint := none, labels := .empty, exposedPorts := []
    tty := false, openStdin := false, stopTimeout := none, healthcheck := none }
  hostConfig := some {
    networkMode := "bridge", privileged := some false, autoRemove := some false
    readonlyRootfs := some false, init := none, restartName := .unset, restartRetries := 0
    portBindings := .empty, tmpfs := .empty, sysctls := .empty, capAdd := [], capDrop := []
    securityOpt := [], groupAdd := [], extraHosts := [], links := [], dns := [], dnsOptions := []
    dnsSearch := [], devices := [], ulimits := [], deviceRequests := [], pidMode := "", ipcMode := ""
    runtime := "", usernsMode := "", cgroupParent := "", cpusetCpus := "", memory := 0
    memorySwap := 0, memoryReservation := 0, nanoCpus := 0, cpuShares := 0, cpuQuota := 0
    pidsLimit := none, volumesFrom := [], volumeDriver := "", mounts := [], logType := ""
    logConfig := .empty }
  networkSettings := some ⟨Dict.empty.insert "bridge" ⟨[], none⟩, .empty⟩
  state := some state
  restartCount := some 0
  raw := ⟨.empty, .empty, some .empty⟩

/-- A container that is up. -/
def up : ContainerState := ⟨.running, true, false, none⟩

/-- A daemon on which everything succeeds. -/
def smoothDaemon : (q : Req) → History → Ans q
  | .now, _ => 0
  | .sleep, _ => .elapsed
  | .started, _ => ()
  | .record _, _ => ()
  | .info, _ => .ok ⟨"runc", "2"⟩
  | .inspect ref, _ => .ok (if ref = containerIDOf 'a' then
      plainInspection ref "/web" (imageIDOf '1') up
    else plainInspection ref "/web" (imageIDOf '2') up)
  | .inspectImage ref, _ => .ok ⟨ref, [], ⟨"", "", "", none, none, none⟩⟩
  | .inspectVolume _, _ => .error (.status 404)
  | .createVolume _ _, _ => ⟨201, none, "local", .empty, .empty⟩
  | .pullImage _ _ _, _ => .done false
  | .tagImage _ _ _, _ => ⟨201, none, ()⟩
  | .create _ _, _ => ⟨201, none, containerIDOf 'b'⟩
  | .connect _ _ _, _ => ⟨200, none, ()⟩
  | .rename _ _, _ => ⟨204, none, ()⟩
  | .stop _ _, _ => ⟨204, none, ()⟩
  | .start _, _ => ⟨204, none, ()⟩
  | .pause _, _ => ⟨204, none, ()⟩
  | .wait _, _ => .stopped
  | .remove _ _, _ => ⟨204, none, ()⟩

/-- The recreate on that daemon. -/
def smoothRun : History × DeploymentResult := (deploy ⟨"", 0⟩ webRequest).play smoothDaemon []

/-- A recreate that goes through both phases. -/
theorem phase_separation_control :
    smoothRun.2.outcome = some .succeeded ∧
    (recorded smoothRun.1).map DeploymentStep.step =
      [.precondition, .image, .recheck, .rename, .create, .stop, .start, .remove] ∧
    (∀ pre e post, smoothRun.1 = pre ++ e :: post → e.req.touches = true →
      FirstPhaseDone webRequest pre ∧ hookCalled pre = true) := by
  refine ⟨by decide +kernel, by decide +kernel, ?_⟩
  exact (phase_separation (Prog.play_runs smoothDaemon (deploy ⟨"", 0⟩ webRequest) [])).1

end KyYard.Docker
