import KyYard.Docker.HostParts
import KyYard.Docker.Phases

/-!
# Restored, or confessed

On a host whose daemon tells the truth or loses its answer, a run that recreates containers leaves
each service in one of three states: its replacement started, the container it replaced is back as it
was and nothing of this run holds the service's name, or the result has a rollback step that failed.
Main result: `restored_or_confessed`, for runs whose steps are `Careful`. `connection_lost_on_rename`
is a run with a step that is not: it leaves the old container parked with nothing said.
-/

namespace KyYard.Docker

open Foundation Protocol Stateful

/-! ## The setting of a run -/

/-- How the daemon reads the image references of a frame: an image id is itself, and a reference with
tag and digest goes by its digest. -/
structure ImageStore (req : DeploymentRequest) (resolve : String → String) : Prop where
  pinned : ∀ s ∈ req.services, s.pull = none → resolve s.imageID = s.imageID
  tagged : ∀ s ∈ req.services, ∀ q, s.pull = some q → q.tag ≠ "" →
    resolve (q.tag ++ "@" ++ q.digest) = resolve q.reference

/-- What a run that recreates containers needs of its frame and of the host before it: no service's
container name has the form of a container id, and no container another service replaces is a
never-started one under that name. -/
structure Setting (req : DeploymentRequest) (w₀ : World) : Prop where
  recreates : ∀ s ∈ req.services, run req s = false
  names : ∀ s ∈ req.services, validContainerHexID s.containerName = false
  apart : ∀ s ∈ req.services, ∀ s' ∈ req.services,
    s'.replaces.containerID ≠ s.replaces.containerID →
    ∀ b, w₀.box s'.replaces.containerID = some b → b.name = s.containerName → b.life ≠ .created

/-! ## How a service ends -/

/-- The result has a step of the service with the outcome. -/
def Told (steps : List DeploymentStep) (service : String) (name : StepName) (o : Outcome) : Prop :=
  ∃ st ∈ steps, st.service = service ∧ st.step = name ∧ st.outcome = o

/-- The container the service replaces is there as before the run, under its name or that name
without a parked suffix, and no container of this run has the service's name. -/
structure Restored (w₀ : World) (s : DeploymentService) (w : World) : Prop where
  old : ∀ b, w₀.box s.replaces.containerID = some b →
    ∃ b', w.box s.replaces.containerID = some b' ∧
      (b'.name = b.name ∨ b'.name = unparkedName b.name) ∧ b'.life = b.life
  new : ∀ id b, w₀.box id = none → w.box id = some b → b.name ≠ s.containerName

/-- The service started, or its old container is back, or the result says that it is not. -/
def Settled (w₀ : World) (s : DeploymentService) (steps : List DeploymentStep) (w : World) : Prop :=
  Told steps s.name .start .succeeded ∨ Restored w₀ s w ∨ Told steps s.name .rollback .failed

section Ends

variable {req : DeploymentRequest} {w₀ : World} {resolve : String → String} {s : DeploymentService}
  {w w' : World} {steps : List DeploymentStep} {service : String} {name : StepName} {o : Outcome}

theorem Told.append (h : Told steps service name o) (st : DeploymentStep) :
    Told (steps ++ [st]) service name o := by
  obtain ⟨st', hmem, hst'⟩ := h
  exact ⟨st', List.mem_append_left _ hmem, hst'⟩

/-- A recoded step keeps its service, name and outcome. -/
theorem Told.recode (h : Told steps service name o) : Told (recode steps) service name o := by
  obtain ⟨st, hmem, hst⟩ := h
  unfold Docker.recode
  cases hlast : steps.getLast? with
  | none => exact ⟨st, hmem, hst⟩
  | some =>
    obtain ⟨front, rfl⟩ := List.getLast?_eq_some_iff.mp hlast
    rw [List.dropLast_concat]
    rcases List.mem_append.mp hmem with hfront | htail
    · exact ⟨st, List.mem_append_left _ hfront, hst⟩
    · rw [List.mem_singleton] at htail
      subst htail
      exact ⟨_, List.mem_append_right _ List.mem_cons_self, hst⟩

theorem Restored.drift (h : Restored w₀ s w) (hd : Drifts w₀ w w') : Restored w₀ s w' := by
  constructor
  · intro b hb
    rw [hd.kept _ (by rw [hb]; nofun)]
    exact h.old b hb
  · intro id b hid hb
    obtain ⟨b', hb', hn, -⟩ := hd.back hb
    rw [hn]
    exact h.new id b' hid hb'

theorem Settled.drift (h : Settled w₀ s steps w) (hd : Drifts w₀ w w') : Settled w₀ s steps w' := by
  rcases h with h | h | h
  · exact .inl h
  · exact .inr (.inl (h.drift hd))
  · exact .inr (.inr h)

/-- A later record keeps what the earlier one told. -/
theorem Settled.mono {steps' : List DeploymentStep} (h : Settled w₀ s steps w)
    (hsteps : ∀ service name o, Told steps service name o → Told steps' service name o) :
    Settled w₀ s steps' w := by
  rcases h with h | h | h
  · exact .inl (hsteps _ _ _ h)
  · exact .inr (.inl h)
  · exact .inr (.inr (hsteps _ _ _ h))

theorem Settled.record (h : Settled w₀ s steps w) {st : DeploymentStep} {a : Unit}
    (ht : (host req w₀ resolve).step (.record st) w a w') : Settled w₀ s (steps ++ [st]) w' :=
  (h.drift (ht.1.drifts rfl)).mono fun _ _ _ ht => ht.append st

end Ends

/-! ## The replacement of one service -/

section Replacement

variable {cl : Client} {req : DeploymentRequest} {w₀ : World} {resolve : String → String}
  {p : Prepared} {before : Life} {w₁ w : World} {r : DeployRun}

/-- A replacement that is over, up to the confession of an undo that did not succeed. -/
structure Ending (w₀ : World) (p : Prepared) (w₁ : World) (restored : Bool)
    (steps : List DeploymentStep) (w : World) : Prop where
  elsewhere : Elsewhere w₀ p.s w₁ w
  settled : restored = true → Settled w₀ p.s steps w

/-- The old container as it was, and no new one. -/
def Back (p : Prepared) (before : Life) (name : String) (life : Life) (new : Option String) : Prop :=
  (name = p.name ∨ name = unparkedName p.name) ∧ life = before ∧ new = none

/-- The replacement stands at a stage that `φ` allows. -/
def Standing (w₀ : World) (p : Prepared) (w₁ : World)
    (φ : String → Life → Option String → Prop) (w : World) : Prop :=
  ∃ name life new, Stage w₀ p.s w₁ name life new w ∧ φ name life new

/-- The replacement is over, with its end confessed, or goes on from a stage that `φ` allows. -/
def Going (w₀ : World) (p : Prepared) (w₁ : World) (φ : String → Life → Option String → Prop)
    (r : DeployRun) (w : World) : Prop :=
  (r.res.outcome.isSome = true → Ending w₀ p w₁ true r.res.steps w) ∧
    (r.res.outcome = none → Standing w₀ p w₁ φ w)

variable {restored : Bool} {φ : String → Life → Option String → Prop}

theorem Ending.record {steps : List DeploymentStep}
    (h : Ending w₀ p w₁ restored steps w) {st : DeploymentStep} {a : Unit} {w' : World}
    (ht : (host req w₀ resolve).step (.record st) w a w') :
    Ending w₀ p w₁ restored (steps ++ [st]) w' :=
  ⟨h.elsewhere.trans (ht.1.drifts rfl).elsewhere, fun hr => (h.settled hr).record ht⟩

/-- A confession ends the replacement. -/
theorem confess_spec (h : Ending w₀ p w₁ restored r.res.steps w) :
    wp (host req w₀ resolve) (confess p.s.name restored) (fun _ r' w' =>
      r'.res.outcome = r.res.outcome ∧ Ending w₀ p w₁ true r'.res.steps w') r w := by
  cases restored with
  | true => exact ⟨rfl, h⟩
  | false =>
    refine ⟨trivial, fun a w' ht => ⟨rfl, (h.record ht).elsewhere, fun _ => ?_⟩⟩
    exact .inr (.inr ⟨_, List.mem_append_right _ List.mem_cons_self, rfl, rfl, rfl⟩)

variable (hp : Ready req w₀ resolve p before)
include hp

theorem Standing.record (h : Standing w₀ p w₁ φ w) {st : DeploymentStep} {a : Unit} {w' : World}
    (ht : (host req w₀ resolve).step (.record st) w a w') : Standing w₀ p w₁ φ w' := by
  obtain ⟨name, life, new, hs, hφ⟩ := h
  exact ⟨name, life, new, hs.drift hp.there (ht.1.drifts rfl), hφ⟩

theorem confess_standing (h : Standing w₀ p w₁ φ w) {service : String} :
    wp (host req w₀ resolve) (confess service restored) (fun _ r' w' =>
      r'.res.outcome = r.res.outcome ∧ Standing w₀ p w₁ φ w') r w := by
  cases restored with
  | true => exact ⟨rfl, h⟩
  | false =>
    exact ⟨trivial, fun a w' ht => ⟨rfl, h.record hp ht⟩⟩

theorem Stage.ending {name : String} {life : Life} {new : Option String}
    (h : Stage w₀ p.s w₁ name life new w) (hback : restored = true → Back p before name life new)
    (steps : List DeploymentStep) : Ending w₀ p w₁ restored steps w := by
  refine ⟨h.elsewhere, fun hr => .inr (.inl ?_)⟩
  obtain ⟨hname, rfl, rfl⟩ := hback hr
  obtain ⟨image₀, hbox₀⟩ := hp.box
  obtain ⟨image, hbox⟩ := h.old
  constructor
  · intro b hb
    obtain rfl := Option.some.inj (hbox₀.symm.trans hb)
    exact ⟨_, hbox, hname, rfl⟩
  · intro id b hid hb hn
    cases h.news id b hid hb hn

/-- A step of a replacement, with the confession after it: a body that succeeds leads to the next
stage, one that does not says whether it was undone. -/
theorem step_confess_spec {β : Type} {stepName : StepName} {skipped : β}
    {body : Run (StepAnswer × β)} (restored : β → Bool)
    (ψ : β → String → Life → Option String → Prop) (hgo : Going w₀ p w₁ φ r w)
    (hbody : ∀ name life new, r.res.outcome = none → Stage w₀ p.s w₁ name life new w →
      φ name life new → wp (host req w₀ resolve) body (fun x r' w' => r'.res.outcome = none ∧
        ∃ name' life' new', Stage w₀ p.s w₁ name' life' new' w' ∧
          (x.1.outcome = .succeeded → ψ x.2 name' life' new') ∧
          (x.1.outcome ≠ .succeeded → restored x.2 = true → Back p before name' life' new')) r w) :
    wp (host req w₀ resolve) (step p.s.name stepName skipped body) (fun b =>
      wp (host req w₀ resolve) (confess p.s.name (restored b)) fun _ => Going w₀ p w₁ (ψ b)) r w := by
  refine wp_mono (wp_step_split (fun b r w => Ending w₀ p w₁ (restored b) r.res.steps w)
    (fun b _ w => Standing w₀ p w₁ (ψ b) w) (fun b _ w => Standing w₀ p w₁ (ψ b) w)
    ?_ ?_ ?_ ?_) ?_
  · intro b st r w h
    exact ⟨trivial, fun a w' ht => h.record ht⟩
  · intro b r w h
    exact ⟨trivial, fun a w' ht => h.record hp ht⟩
  · intro hs
    exact ⟨(hgo.1 hs).elsewhere, fun _ => (hgo.1 hs).settled rfl⟩
  · intro ho
    obtain ⟨name, life, new, hs, hφ⟩ := hgo.2 ho
    refine wp_mono (hbody name life new ho hs hφ) ?_
    intro x r' w' hx
    obtain ⟨ho', name', life', new', hs', hdone, hback⟩ := hx
    exact ⟨ho', fun hx => ⟨name', life', new', hs', hdone hx⟩,
      fun hx => Stage.ending hp hs' (hback hx) _⟩
  · intro b r' w' h
    cases ho : r'.res.outcome with
    | none =>
      refine wp_mono (confess_standing hp (h.2 ho)) ?_
      intro _ r'' w'' hst
      refine ⟨fun hs => ?_, fun _ => hst.2⟩
      rw [hst.1, ho] at hs
      cases hs
    | some =>
      refine wp_mono (confess_spec (h.1 (by simp [ho]))) ?_
      intro _ r'' w'' hend
      refine ⟨fun _ => hend.2, fun hn => ?_⟩
      rw [hend.1, ho] at hn
      cases hn

/-- The new container is there and the old one stopped, if it was running; what the run knows of the
old container's state before. -/
def Stopped (before : Life) (created : String) (running paused : Bool) (_ : String) (life : Life)
    (new : Option String) : Prop :=
  new = some created ∧ life = (if before.up then .exited else before) ∧ running = before.up ∧
    paused = decide (before = .paused)

/-- The start leaves the stage as it is. -/
theorem startStep_stage {name : String} {life : Life} {created : String} (watched : Bool)
    (ho : r.res.outcome = none) (h : Stage w₀ p.s w₁ name life (some created) w) :
    wp (host req w₀ resolve) (startStep cl p.s created watched) (fun x r' w' =>
      (r'.res.outcome = none ∧ Stage w₀ p.s w₁ name life (some created) w') ∧
      x.2.1 = x.1.outcome ∧ x.1.outcome ≠ .skipped) r w := by
  have hquiet : Stable (host req w₀ resolve) Req.quiet (fun r' w =>
      r'.res.outcome = none ∧ Stage w₀ p.s w₁ name life (some created) w) := by
    constructor
    · intro q hq r' w hI
      refine ⟨trivial, fun a w' ht => ⟨hI.1, ?_⟩⟩
      exact hI.2.drift hp.there (ht.1.drifts (Req.still_of_quiet hq))
    · intro r' r'' w hr hI
      exact ⟨hr.outcome.trans hI.1, hI.2⟩
  apply startStep_spec hquiet
  · intro r' w hI
    exact ⟨trivial, fun a w' ht => ⟨hI.1, hI.2.start_new hp.there ht.1⟩⟩
  · exact ⟨ho, h⟩

/-- The rollback of a start that failed ends the replacement. -/
theorem rollback_spec {name : String} {created : String}
    (h : Stage w₀ p.s w₁ name (if before.up then .exited else before) (some created) w) :
    wp (host req w₀ resolve) (rollback p created before.up (decide (before = .paused)))
      (fun _ r' w' => r'.res.outcome = r.res.outcome ∧ Ending w₀ p w₁ true r'.res.steps w') r w := by
  unfold rollback
  rw [wp_bind]
  refine wp_mono (putBack_spec hp h) ?_
  rintro restored r' w' ⟨rfl, name', life', new', hs, hback⟩
  have hend : Ending w₀ p w₁ restored (recode r'.res.steps) w' :=
    Stage.ending hp hs (fun hr => ⟨.inr (hback hr).1, (hback hr).2⟩) _
  cases restored with
  | false =>
    show wp _ (confess p.s.name false) _ r' w'
    exact confess_spec (Stage.ending hp hs (fun hr => by cases hr) _)
  | true =>
    exact ⟨trivial, fun a w'' ht => ⟨rfl, hend.record ht⟩⟩

/-- The start, and the rollback if it failed. -/
theorem start_rollback_spec {created : String} {running paused : Bool}
    (hgo : Going w₀ p w₁ (Stopped before created running paused) r w) :
    wp (host req w₀ resolve) (start cl p.s created running) (fun x =>
      wp (host req w₀ resolve) (rollbackIf (failedStep x.1) p created running paused)
        fun _ r' w' => (r'.res.outcome.isSome = true → Ending w₀ p w₁ true r'.res.steps w') ∧
          (r'.res.outcome = none → Told r'.res.steps p.s.name .start .succeeded ∧
            Standing w₀ p w₁ (fun _ _ _ => True) w')) r w := by
  refine wp_mono (wp_step_split
    (fun x r w => if failedStep x.1 then Standing w₀ p w₁ (Stopped before created running paused) w
      else Ending w₀ p w₁ true r.res.steps w)
    (fun x _ w => x.1 = .succeeded ∧ Standing w₀ p w₁ (fun _ _ _ => True) w)
    (fun x r w => x.1 = .succeeded ∧ Told r.res.steps p.s.name .start .succeeded ∧
      Standing w₀ p w₁ (fun _ _ _ => True) w) ?_ ?_ ?_ ?_) ?_
  · intro x st r w h
    refine ⟨trivial, fun a w' ht => ?_⟩
    split
    · next hf =>
      rw [if_pos hf] at h
      exact h.record hp ht
    · next hf =>
      rw [if_neg hf] at h
      exact h.record ht
  · intro x r w h
    refine ⟨trivial, fun a w' ht => ⟨h.1, ?_, h.2.record hp ht⟩⟩
    exact ⟨_, List.mem_append_right _ List.mem_cons_self, rfl, rfl, rfl⟩
  · intro hs
    exact hgo.1 hs
  · intro ho
    obtain ⟨name, life, new, hs, rfl, rfl, hstate⟩ := hgo.2 ho
    refine wp_mono (startStep_stage hp running ho hs) ?_
    intro x r' w' hx
    obtain ⟨⟨ho', hs'⟩, hout, hskip⟩ := hx
    refine ⟨ho', fun hx => ⟨hout.trans hx, _, _, _, hs', trivial⟩, fun hx => ?_⟩
    -- A start step that ran is not skipped, so it failed.
    rw [hout, if_pos (by simp [failedStep, hx, hskip])]
    exact ⟨_, _, _, hs', rfl, rfl, hstate⟩
  · intro x r' w' h
    unfold rollbackIf
    cases ho : r'.res.outcome with
    | none =>
      obtain ⟨hx, htold, hst⟩ := h.2 ho
      rw [hx]
      refine ⟨fun hs => ?_, fun _ => ⟨htold, hst⟩⟩
      rw [ho] at hs
      cases hs
    | some =>
      have hK := h.1 (by simp [ho])
      split
      · next hf =>
        rw [if_pos hf] at hK
        obtain ⟨name, life, new, hs, rfl, rfl, rfl, rfl⟩ := hK
        refine wp_mono (rollback_spec hp hs) ?_
        intro _ r'' w'' hend
        refine ⟨fun _ => hend.2, fun hn => ?_⟩
        rw [hend.1, ho] at hn
        cases hn
      · next hf =>
        rw [if_neg hf] at hK
        refine ⟨fun _ => hK, fun hn => ?_⟩
        rw [ho] at hn
        cases hn

/-- What the recheck tells of the old container is true. -/
def Rechecked.Knows (now : Rechecked) (before : Life) : Prop :=
  now.wasRunning = before.up ∧ now.paused = decide (before = .paused)

/-- The create step, with the confession after it. -/
theorem create_spec {now : Rechecked} (hgo : Going w₀ p w₁
      (fun _ life new => life = before ∧ new = none ∧ now.Knows before) r w) :
    wp (host req w₀ resolve) (create req p) (fun created => Going w₀ p w₁ fun _ life new =>
      life = before ∧ created ≠ "" ∧ new = some created ∧ now.Knows before) r w := by
  unfold create
  simp only [wp_bind]
  apply step_confess_spec hp CreateLeft.restored (fun left _ life new =>
    life = before ∧ left.created ≠ "" ∧ new = some left.created ∧ now.Knows before) hgo
  intro name life new ho hs hφ
  obtain ⟨rfl, rfl, hnow⟩ := hφ
  refine wp_mono (createStep_spec hp hs) ?_
  rintro x r' w' ⟨rfl, name', new', hs', hdone, hback⟩
  refine ⟨ho, name', _, new', hs', fun hx => ⟨rfl, (hdone hx).1, (hdone hx).2, hnow⟩, ?_⟩
  intro hx hr
  exact ⟨.inr (hback hx hr).1, rfl, (hback hx hr).2⟩

/-- The replacement of a service: it is settled when the replacement is over, and if the outcome is
still open, it started. -/
theorem replace_spec (later : Nat) (ho : r.res.outcome = none)
    (h : Stage w₀ p.s w₁ p.name before none w) :
    wp (host req w₀ resolve) (replace cl req p later) (fun _ r' w' =>
      Ending w₀ p w₁ true r'.res.steps w' ∧
      (r'.res.outcome = none → Told r'.res.steps p.s.name .start .succeeded)) r w := by
  unfold replace
  rw [if_neg (by simp [hp.recreates]), wp_bind]
  have hgo : Going w₀ p w₁ (fun name life new => name = p.name ∧ life = before ∧ new = none) r w := by
    refine ⟨fun hs => ?_, fun _ => ⟨_, _, _, h, rfl, rfl, rfl⟩⟩
    rw [ho] at hs
    cases hs
  -- The recheck.
  refine wp_mono (step_confess_spec hp (fun _ => true) (fun now name life new =>
    name = p.name ∧ life = before ∧ new = none ∧ now.Knows before) hgo ?_) ?_
  · intro name life new ho hs hφ
    obtain ⟨rfl, rfl, rfl⟩ := hφ
    refine wp_mono (recheck_spec hp later ho hs) ?_
    rintro x r' w' ⟨ho', hs', hknows⟩
    exact ⟨ho', _, _, _, hs', fun hx => ⟨rfl, rfl, rfl, hknows hx⟩, fun _ _ => ⟨.inl rfl, rfl, rfl⟩⟩
  intro now r w hgo
  -- The old container is parked.
  rw [wp_bind]
  refine wp_mono (step_confess_spec hp id (fun _ _ life new =>
    life = before ∧ new = none ∧ now.Knows before) hgo ?_) ?_
  · intro name life new ho hs hφ
    obtain ⟨rfl, rfl, rfl, hnow⟩ := hφ
    refine wp_mono (rename_spec hp hs) ?_
    rintro x r' w' ⟨rfl, name', hs', hback⟩
    exact ⟨ho, name', _, none, hs', fun _ => ⟨rfl, rfl, hnow⟩,
      fun hx hr => ⟨hback hx hr, rfl, rfl⟩⟩
  intro unparked r w hconfess
  rw [wp_bind]
  refine wp_mono hconfess ?_
  intro _ r w hgo
  -- The new container.
  rw [wp_bind]
  refine wp_mono (create_spec hp hgo) ?_
  intro created r w hgo
  -- The old container is stopped.
  rw [wp_bind]
  refine wp_mono (step_confess_spec hp Prod.snd
    (fun x => Stopped before created x.1 now.paused) hgo ?_) ?_
  · intro name life new ho hs hφ
    obtain ⟨rfl, hne, rfl, hrun, hpaused⟩ := hφ
    refine wp_mono (stopStep_spec hp hne hrun hpaused hs) ?_
    rintro x r' w' ⟨rfl, name', life', new', hs', hdone, hback⟩
    refine ⟨ho, name', life', new', hs', fun hx => ?_, fun hx hr => ?_⟩
    · obtain ⟨hrunning, hnew, hlife⟩ := hdone hx
      exact ⟨hnew, hlife, hrunning, hpaused⟩
    · obtain ⟨hname, hlife, hnew⟩ := hback hx hr
      exact ⟨.inr hname, hlife, hnew⟩
  intro stopped r w hconfess
  rw [wp_bind]
  refine wp_mono hconfess ?_
  intro _ r w hgo
  -- The new one is started, or the old one is put back.
  rw [wp_bind]
  refine wp_mono (start_rollback_spec hp hgo) ?_
  intro x r w hrollback
  rw [wp_bind]
  refine wp_mono hrollback ?_
  intro _ r w hend
  -- The old container is removed.
  refine wp_mono (wp_step_split (fun _ r w => Ending w₀ p w₁ true r.res.steps w)
    (fun _ r w => Ending w₀ p w₁ true r.res.steps w ∧ Told r.res.steps p.s.name .start .succeeded)
    (fun _ r w => Ending w₀ p w₁ true r.res.steps w ∧ Told r.res.steps p.s.name .start .succeeded)
    ?_ ?_ hend.1 ?_) ?_
  · intro _ st r w h
    exact ⟨trivial, fun a w' ht => h.record ht⟩
  · intro _ r w h
    exact ⟨trivial, fun a w' ht => ⟨h.1.record ht, h.2.append _⟩⟩
  · intro ho
    obtain ⟨htold, name, life, new, hs, -⟩ := hend.2 ho
    refine wp_mono (removeStep_spec hp hs) ?_
    rintro x r' w' ⟨rfl, helse⟩
    refine ⟨ho, fun _ => ⟨⟨helse, fun _ => .inl htold⟩, htold⟩, fun _ => ⟨helse, fun _ => .inl ?_⟩⟩
    rw [concluded_steps]
    exact htold
  · intro _ r w h
    cases ho : r.res.outcome with
    | none => exact ⟨(h.2 ho).1, fun _ => (h.2 ho).2⟩
    | some => exact ⟨h.1 (by simp [ho]), nofun⟩

end Replacement

/-! ## All services -/

section All

variable {cl : Client} {req : DeploymentRequest} {w₀ : World} {resolve : String → String}
  {w w' : World}

/-- The service's containers are as they were before the run. -/
structure Untouched (w₀ : World) (s : DeploymentService) (w : World) : Prop where
  old : ∀ b, w₀.box s.replaces.containerID = some b → w.box s.replaces.containerID = some b
  new : ∀ id b, w₀.box id = none → w.box id = some b → b.name ≠ s.containerName

/-- The replacement of `s` leaves the containers of `s'` alone. -/
structure Apart (w₀ : World) (s s' : DeploymentService) : Prop where
  targets : s'.replaces.containerID ≠ s.replaces.containerID
  names : s'.containerName ≠ s.containerName
  started : ∀ b, w₀.box s'.replaces.containerID = some b → b.name = s.containerName →
    b.life ≠ .created

theorem Untouched.restored {s : DeploymentService} (h : Untouched w₀ s w) : Restored w₀ s w :=
  ⟨fun b hb => ⟨b, h.old b hb, .inl rfl, rfl⟩, h.new⟩

theorem Untouched.stage {p : Prepared} {before : Life} (hp : Ready req w₀ resolve p before)
    (h : Untouched w₀ p.s w) : Stage w₀ p.s w p.name before none w := by
  obtain ⟨image, hbox⟩ := hp.box
  refine ⟨Elsewhere.refl w, ⟨image, h.old _ hbox⟩, fun id b hid hb hn => ?_, fun c hc => ?_⟩
  · exact absurd hn (h.new id b hid hb)
  · cases hc

theorem Untouched.elsewhere {s s' : DeploymentService} (ha : Apart w₀ s s')
    (h : Untouched w₀ s' w) (he : Elsewhere w₀ s w w') : Untouched w₀ s' w' := by
  constructor
  · intro b hb
    rcases he.old _ (by rw [hb]; nofun) ha.targets with hsame | ⟨b', hb', hn, hlife⟩
    · rw [hsame]
      exact h.old b hb
    · obtain rfl := Option.some.inj ((h.old b hb).symm.trans hb')
      exact absurd hlife (ha.started b hb hn)
  · intro id b' hid hb' hn
    obtain ⟨b, hb, hbn⟩ := he.new id b' hid hb' (hn ▸ ha.names)
    exact h.new id b hid hb (hbn.trans hn)

/-- A step told once stays told. -/
theorem told_steady (service : String) (name : StepName) (o : Outcome) :
    Steady (host req w₀ resolve) (fun r _ => Told r.res.steps service name o) where
  acts := by
    constructor
    · intro q _ r w h
      exact ⟨trivial, fun _ _ _ => h⟩
    · intro r r' w hr h
      rw [hr.steps]
      exact h
  began := by
    intro r w h
    simp only [beginRun, wp_bind, wp_get]
    split
    · exact ⟨trivial, fun _ _ _ => h⟩
    · exact h
  added := by
    intro st r w h
    exact ⟨trivial, fun _ _ _ => h.append st⟩
  concluded := by
    intro r w a h
    rw [concluded_steps]
    exact h
  recoded := by
    intro r w h
    exact h.recode

/-- Once the outcome is fixed, services that are settled stay so. -/
theorem over_settled (ps : List Prepared) (ss : List DeploymentService) {r : DeployRun}
    (ho : r.res.outcome.isSome = true) (h : ∀ s ∈ ss, Settled w₀ s r.res.steps w) :
    wp (host req w₀ resolve) (replaceAll cl req ps)
      (fun _ r' w' => ∀ s ∈ ss, Settled w₀ s r'.res.steps w') r w := by
  have hsteps : ∀ st : DeploymentStep, st.outcome = .skipped → Keeps (host req w₀ resolve)
      (fun r w => ∀ s ∈ ss, Settled w₀ s r.res.steps w) (addStep st) := by
    intro st _ r w h
    exact ⟨trivial, fun a w' ht s hs => (h s hs).record ht⟩
  exact wp_mono (over_replaceAll hsteps ps r w ⟨ho, h⟩) fun _ _ _ h => h.2

theorem replaceAll_spec :
    ∀ (ps : List Prepared) {r : DeployRun} {w : World},
      (∀ p ∈ ps, Untouched w₀ p.s w) → ps.Pairwise (fun p q => Apart w₀ p.s q.s) →
      (r.res.outcome = none → ∀ p ∈ ps, ∃ before, Ready req w₀ resolve p before) →
      wp (host req w₀ resolve) (replaceAll cl req ps)
        (fun _ r' w' => ∀ s ∈ ps.map Prepared.s, Settled w₀ s r'.res.steps w') r w
  | [], r, w, _, _, _ => fun s hs => by cases hs
  | p :: ps, r, w, hun, hapart, hready => by
    cases ho : r.res.outcome with
    | some o =>
      apply over_settled (p :: ps) _ (by simp [ho])
      intro s hs
      obtain ⟨q, hq, rfl⟩ := List.mem_map.mp hs
      exact .inr (.inl (hun q hq).restored)
    | none =>
      obtain ⟨before, hp⟩ := hready ho p List.mem_cons_self
      have hrest := List.pairwise_cons.mp hapart
      unfold replaceAll
      rw [wp_bind]
      refine wp_mono (replace_spec hp ps.length ho (Untouched.stage hp (hun p List.mem_cons_self))) ?_
      intro _ r' w' h
      obtain ⟨hend, hstarted⟩ := h
      have hun' : ∀ q ∈ ps, Untouched w₀ q.s w' := fun q hq =>
        Untouched.elsewhere (hrest.1 q hq) (hun q (List.mem_cons_of_mem _ hq)) hend.elsewhere
      cases ho' : r'.res.outcome with
      | some o =>
        -- This one failed: the services after it are skipped.
        apply over_settled ps _ (by simp [ho'])
        intro s hs
        rcases List.mem_cons.mp hs with rfl | hs
        · exact hend.settled rfl
        · obtain ⟨q, hq, rfl⟩ := List.mem_map.mp hs
          exact .inr (.inl (hun' q hq).restored)
      | none =>
        -- This one started, which the result tells from then on.
        have hready' : r'.res.outcome = none → ∀ q ∈ ps, ∃ before, Ready req w₀ resolve q before :=
          fun _ q hq => hready ho q (List.mem_cons_of_mem _ hq)
        refine wp_mono (wp_and (replaceAll_spec ps hun' hrest.2 hready')
          ((told_steady p.s.name .start .succeeded).replaceAll ps r' w' (hstarted ho'))) ?_
        intro _ r'' w'' h s hs
        rcases List.mem_cons.mp hs with rfl | hs
        · exact .inl h.2
        · exact h.1 s hs

end All

/-! ## A whole run -/

section Whole

variable {cl : Client} {req : DeploymentRequest} {w₀ : World} {resolve : String → String}

/-- What reads report while the host is as it was. -/
def sight (w₀ : World) (resolve : String → String) : Sight where
  container ref i := ∃ id b, w₀.Finds ref id b ∧ Reports resolve i id b
  image ref im := im.id = resolve ref

/-- Before the first change nothing drifts. -/
theorem Drifts.eq {w : World} (h : Drifts w₀ w₀ w) : w = w₀ := by
  apply World.ext
  funext id
  cases hid : w₀.box id with
  | none => exact (h.gone id).mpr hid
  | some => exact (h.kept id (by rw [hid]; nofun)).trans hid

theorem host_watched : Watched (host req w₀ resolve) (fun w => w = w₀) (sight w₀ resolve) where
  quiet := by
    rintro q hq w rfl
    exact ⟨trivial, fun a w' ht => (ht.1.drifts (Req.still_of_quiet hq)).eq⟩
  record := by
    rintro st w rfl
    exact ⟨trivial, fun a w' ht => (ht.1.drifts rfl).eq⟩
  seen := by
    rintro ref i w w' rfl ht
    obtain ⟨id, b, hf, hr⟩ := ht.1.read
    rw [(ht.1.drifts rfl).eq] at hf
    exact ⟨id, b, hf, hr⟩
  seenImage := by
    rintro ref im w w' rfl ht
    obtain ⟨⟨v, -, -, him⟩, -⟩ := ht
    exact him

theorem createBody_image (s : DeploymentService) (mode : String) :
    (createBody req s mode).image = createImage s := by
  unfold createBody
  cases s.explicit with
  | some => rfl
  | none =>
    dsimp only
    split <;> rfl

/-- The create request names the image the first phase settled. -/
theorem bodyFor_image {p : Prepared}
    {i : Inspection} {id : String} {b : Box} (hrep : Reports resolve i id b)
    (hbefore : p.before = some i) (hcreate : resolve (createImage p.s) = p.s.imageID) :
    resolve (bodyFor req p).image = p.s.imageID := by
  unfold bodyFor
  rw [hbefore]
  dsimp only
  cases hc : i.config with
  | none =>
    rw [createBody_image]
    exact hcreate
  | some config =>
    dsimp only
    split
    · split
      · -- A tag pinned to the image that is kept.
        next hkept => rw [hrep.pinned config hc hkept.2.2, hkept.2.1]
      · rw [createBody_image]
        exact hcreate
    · rw [createBody_image]
      exact hcreate

variable {s : DeploymentService}

theorem createImage_resolves (hi : ImageStore req resolve)
    (hs : s ∈ req.services) {id : String} (hid : ImageSettled (sight w₀ resolve) s id) :
    resolve (createImage { s with imageID := id }) = id := by
  unfold ImageSettled at hid
  unfold createImage
  cases hq : s.pull with
  | none =>
    rw [hq] at hid
    subst hid
    exact hi.pinned s hs hq
  | some q =>
    rw [hq] at hid
    obtain ⟨im, him, rfl⟩ := hid
    dsimp only
    split
    · exact Eq.symm him
    · next htag =>
      rw [hi.tagged s hs q hq htag]
      exact Eq.symm him

/-- A service whose first phase succeeded is ready to be replaced. -/
theorem ready_of_prepared (hset : Setting req w₀) (hi : ImageStore req resolve)
    {r : DeployRun} (ho : r.res.outcome = none) (hs : s ∈ req.services)
    {p : Prepared} (hp : PreparedFrom req (sight w₀ resolve) r s p) :
    ∃ before, Ready req w₀ resolve p before := by
  obtain ⟨⟨i, ⟨⟨id, b, hf, hrep⟩, hid⟩, hbefore, hname⟩, himage⟩ := hp.seen ho (hset.recreates s hs)
  refine ⟨b.life, ⟨s, hs, hp.name.symm, hp.containerName.symm, hp.replaces.symm⟩, ?_, ?_,
    ⟨b.image, ?_⟩, ?_⟩
  · have hrun := hset.recreates s hs
    unfold run at hrun ⊢
    rw [hp.replaces]
    exact hrun
  · rw [hp.containerName]
    exact hset.names s hs
  · obtain rfl : id = s.replaces.containerID := hrep.id_eq.symm.trans hid
    rw [hp.replaces, hf.1, hname, hrep.name_eq, Text.trimPrefix_append]
  · apply bodyFor_image hrep hbefore
    rw [hp.service]
    exact createImage_resolves hi hs himage

theorem Apart.of_prepared {S : Sight} {r : DeployRun} {s' : DeploymentService} {p p' : Prepared}
    (hp : PreparedFrom req S r s p) (hp' : PreparedFrom req S r s' p') (h : Apart w₀ s s') :
    Apart w₀ p.s p'.s := by
  constructor
  · rw [hp.replaces, hp'.replaces]
    exact h.targets
  · rw [hp.containerName, hp'.containerName]
    exact h.names
  · rw [hp.containerName, hp'.replaces]
    exact h.started

theorem Settled.of_prepared {S : Sight} {r : DeployRun} {p : Prepared}
    (hp : PreparedFrom req S r s p) {steps : List DeploymentStep} {w : World}
    (h : Settled w₀ p.s steps w) : Settled w₀ s steps w := by
  rw [hp.service] at h
  rcases h with h | h | h
  · exact .inl h
  · exact .inr (.inl ⟨h.old, h.new⟩)
  · exact .inr (.inr h)

/-- The services of a valid frame do not get in each other's way. -/
theorem services_apart (hset : Setting req w₀) (hreq : req.Docker) :
    req.services.Pairwise (Apart w₀) := by
  have htargets := List.pairwise_map.mp hreq.targets_nodup
  have hnames := List.pairwise_map.mp hreq.containerNames_nodup
  refine (htargets.and hnames).imp_of_mem ?_
  intro s s' hs hs' h
  exact ⟨h.1.symm, h.2.symm, hset.apart s hs s' hs' h.1.symm⟩

theorem prepared_apart {S : Sight} {r : DeployRun} {ss : List DeploymentService}
    {ps : List Prepared} (hps : List.Forall₂ (PreparedFrom req S r) ss ps)
    (h : ss.Pairwise (Apart w₀)) : ps.Pairwise fun p q => Apart w₀ p.s q.s := by
  induction hps with
  | nil => exact .nil
  | @cons s p ss ps hp hps ih =>
    obtain ⟨hs, hss⟩ := List.pairwise_cons.mp h
    refine List.pairwise_cons.mpr ⟨fun q hq => ?_, ih hss⟩
    obtain ⟨s', hs', hq'⟩ := exists_service hps hq
    exact Apart.of_prepared hp hq' (hs s' hs')

/-- On every host whose daemon tells the truth, and that is careful with the answers it loses: when
the run returns, each service has started, or the container it replaced is back and nothing of this
run holds its name, or the result has a rollback of it that failed. -/
theorem restored_or_confessed (hset : Setting req w₀) (hi : ImageStore req resolve)
    {tr : List (Event Req Ans)} {res : DeploymentResult} {w : World}
    (h : Prog.Exec (host req w₀ resolve).step (deploy cl req) w₀ tr res w) :
    ∀ s ∈ req.services, Settled w₀ s res.steps w := by
  have hrestored : ∀ s, Restored w₀ s w₀ := fun s =>
    Untouched.restored ⟨fun b hb => hb, fun id b hid hb => by rw [hid] at hb; cases hb⟩
  refine Prog.wp_exec
    (Q := fun res w => ∀ s ∈ req.services, Settled w₀ s res.steps w) ?_ h
  apply wp_deploy trivial
  · intro now t e ht s _
    rw [(ht.1.drifts rfl).eq]
    exact .inr (.inl (hrestored s))
  · intro now t ht hreq
    apply host_watched.deployAccepted (ht.1.drifts rfl).eq
    rintro ps r w rfl hps
    refine wp_mono (replaceAll_spec ps (fun p _ => ?_) (prepared_apart hps (services_apart hset hreq))
      fun ho p hp => ?_) ?_
    · exact ⟨fun b hb => hb, fun id b hid hb => by rw [hid] at hb; cases hb⟩
    · obtain ⟨s, hs, hp⟩ := exists_service hps hp
      exact ready_of_prepared hset hi ho hs hp
    · intro _ r' w' hsettled s hs
      obtain ⟨p, hmem, hp⟩ := exists_of_forall₂ hps hs
      exact Settled.of_prepared hp (hsettled p.s (List.mem_map_of_mem hmem))

end Whole

/-! ## A host with one service -/

/-- The replaced container under a name, and the new one, if it is there. -/
structure Scene where
  name : String
  life : Life
  new : Option Life
  distinct : new ≠ none → name ≠ "web"

/-- The containers of a scene. -/
def Scene.box (sc : Scene) (id : String) : Option Box :=
  if id = containerIDOf 'a' then some ⟨sc.name, imageIDOf '1', sc.life⟩
  else if id = containerIDOf 'b' then sc.new.map fun l => ⟨"web", imageIDOf '2', l⟩
  else none

variable {sc : Scene}

theorem Scene.box_some {id : String} {b : Box} (h : sc.box id = some b) :
    (id = containerIDOf 'a' ∧ b = ⟨sc.name, imageIDOf '1', sc.life⟩) ∨
      (id = containerIDOf 'b' ∧ ∃ l, sc.new = some l ∧ b = ⟨"web", imageIDOf '2', l⟩) := by
  unfold Scene.box at h
  split_ifs at h with ha hb
  · exact .inl ⟨ha, (Option.some.inj h).symm⟩
  · obtain ⟨l, hl, rfl⟩ := Option.map_eq_some_iff.mp h
    exact .inr ⟨hb, l, hl, rfl⟩

def Scene.world (sc : Scene) : World where
  box := sc.box
  hex := by
    intro id b hb
    rcases sc.box_some hb with ⟨rfl, -⟩ | ⟨rfl, -⟩
    · decide
    · decide
  unique := by
    intro id id' b b' hb hb' hn
    rcases sc.box_some hb with ⟨rfl, rfl⟩ | ⟨rfl, l, hl, rfl⟩ <;>
      rcases sc.box_some hb' with ⟨rfl, rfl⟩ | ⟨rfl, l', hl', rfl⟩
    · rfl
    · exact absurd hn (sc.distinct (by rw [hl']; nofun))
    · exact absurd hn.symm (sc.distinct (by rw [hl]; nofun))
    · rfl

/-- What the daemon does with a request it can carry out. -/
inductive Mood
  | answers
  | refuses
  | breaks

/-- The answer to a post, and the scene after it. -/
def posted {α : Type} (mood : Mood) (status : Nat) (out : α) (sc : Scene) (next : Option Scene) :
    Posted α × Scene :=
  match mood, next with
  | .answers, some sc' => (⟨status, none, out⟩, sc')
  | .breaks, next => (⟨0, some .connection, out⟩, next.getD sc)
  | _, _ => (⟨500, none, out⟩, sc)

/-- The state a container reports. -/
def Life.report : Life → ContainerState
  | .created => ⟨.created, false, false, none⟩
  | .running => ⟨.running, true, false, none⟩
  | .paused => ⟨.paused, true, true, none⟩
  | .exited => ⟨.exited, false, false, none⟩

/-- The scene after a rename of the old container, unless the name is taken. -/
def Scene.rename (sc : Scene) (ref name : String) : Option Scene :=
  if h : ref = containerIDOf 'a' ∧ sc.new = none then
    some { sc with name := name, distinct := fun hn => absurd h.2 hn }
  else none

/-- The scene with another life of the old container. -/
def Scene.become (sc : Scene) (life : Life) : Scene := { sc with life := life }

/-- The scene after a create under the service's name. -/
def Scene.create (sc : Scene) (name image : String) : Option Scene :=
  if h : name = "web" ∧ image = imageIDOf '2' ∧ sc.new = none ∧ sc.name ≠ "web" then
    some { sc with new := some .created, distinct := fun _ => h.2.2.2 }
  else none

/-- The scene without the new container. -/
def Scene.discard (sc : Scene) : Scene := { sc with new := none, distinct := fun hn => absurd rfl hn }

/-- A daemon on a scene, in a mood for each request. It does not answer what no run below asks. -/
def sceneDaemon (mood : Req → Mood) : (q : Req) → Scene → Ans q × Scene
  | .now, sc => (0, sc)
  | .sleep, sc => (.elapsed, sc)
  | .started, sc => ((), sc)
  | .record _, sc => ((), sc)
  | .info, sc => (.ok ⟨"runc", "2"⟩, sc)
  | .inspect ref, sc =>
    (if ref = containerIDOf 'a' then
      .ok (plainInspection ref ("/" ++ sc.name) (imageIDOf '1') sc.life.report)
    else .error (.lost .deadline), sc)
  | .inspectImage ref, sc => (.ok ⟨ref, [], ⟨"", "", "", none, none, none⟩⟩, sc)
  | .inspectVolume _, sc => (.error (.status 404), sc)
  | .createVolume _ _, sc => (⟨201, none, "local", .empty, .empty⟩, sc)
  | .pullImage _ _ _, sc => (.done false, sc)
  | .tagImage _ _ _, sc => (⟨201, none, ()⟩, sc)
  | .create name body, sc =>
    posted (mood (.create name body)) 201 (containerIDOf 'b') sc (sc.create name body.image)
  | .connect _ _ _, sc => (⟨200, none, ()⟩, sc)
  | .rename ref name, sc => posted (mood (.rename ref name)) 204 () sc (sc.rename ref name)
  | .stop ref g, sc => posted (mood (.stop ref g)) 204 () sc
      (if ref = containerIDOf 'a' ∧ sc.life.up = true then some (sc.become .exited) else none)
  | .start ref, sc => posted (mood (.start ref)) 204 () sc
      (if ref = containerIDOf 'a' then some (sc.become sc.life.started) else none)
  | .pause _, sc => (⟨500, none, ()⟩, sc)
  | .wait _, sc => (.failed, sc)
  | .remove ref force, sc => posted (mood (.remove ref force)) 204 () sc
      (if ref = containerIDOf 'b' ∧ sc.new ≠ none ∧ force = true then some sc.discard else none)

theorem Scene.world_new (sc : Scene) : sc.world.box (containerIDOf 'b') =
    sc.new.map fun l => ⟨"web", imageIDOf '2', l⟩ := by
  have hne : containerIDOf 'b' ≠ containerIDOf 'a' := by decide
  simp [Scene.world, Scene.box, hne]

theorem Scene.finds_old (sc : Scene) : sc.world.Finds (containerIDOf 'a') (containerIDOf 'a')
    ⟨sc.name, imageIDOf '1', sc.life⟩ :=
  ⟨by simp [Scene.world, Scene.box], .inl rfl⟩

/-- A post whose effect leads to the next scene took effect or not, as its answer says. -/
theorem posted_took {α : Type} {mood : Mood} {status : Nat} {out : α}
    {next : Option Scene} {effect : World → Prop} (hs : status < 400)
    (h : ∀ sc', next = some sc' → effect sc'.world) :
    Took (posted mood status out sc next).1 effect sc.world (posted mood status out sc next).2.world := by
  cases next with
  | none => cases mood <;> exact .refused rfl
  | some sc' =>
    cases mood with
    | answers => exact .done hs (h sc' rfl)
    | refuses => exact .refused rfl
    | breaks => exact .done (show 0 < 400 by decide) (h sc' rfl)

theorem posted_out {α : Type} {mood : Mood} {status : Nat} {out : α}
    {next : Option Scene} : (posted mood status out sc next).1.out = out := by
  cases mood <;> cases next <;> rfl

/-- An answer that arrived is the one asked for, or a refusal. -/
theorem posted_status {α : Type} {mood : Mood} {status : Nat} {out : α}
    {next : Option Scene} (h : (posted mood status out sc next).1.err = none) :
    (posted mood status out sc next).1.status = status ∨
      (posted mood status out sc next).1.status = 500 := by
  cases mood <;> cases next <;> first | exact .inl rfl | exact .inr rfl | cases h

theorem Scene.becomes_old {sc' : Scene} (hnew : sc'.new = sc.new) :
    sc.world.Becomes (containerIDOf 'a') (some ⟨sc'.name, imageIDOf '1', sc'.life⟩) sc'.world := by
  funext id
  show sc'.box id = Function.update sc.box _ _ id
  by_cases hid : id = containerIDOf 'a'
  · subst hid
    simp [Scene.box]
  · simp [Scene.box, hid, hnew]

theorem Scene.becomes_new {sc' : Scene} (hname : sc'.name = sc.name) (hlife : sc'.life = sc.life) :
    sc.world.Becomes (containerIDOf 'b') (sc'.new.map fun l => ⟨"web", imageIDOf '2', l⟩) sc'.world := by
  have hne : containerIDOf 'b' ≠ containerIDOf 'a' := by decide
  funext id
  show sc'.box id = Function.update sc.box _ _ id
  by_cases hid : id = containerIDOf 'b'
  · subst hid
    simp [Scene.box, hne]
  · simp [Scene.box, hid, hname, hlife]

theorem Scene.reports_old (sc : Scene) : Reports id
    (plainInspection (containerIDOf 'a') ("/" ++ sc.name) (imageIDOf '1') sc.life.report)
    (containerIDOf 'a') ⟨sc.name, imageIDOf '1', sc.life⟩ where
  id_eq := rfl
  name_eq := rfl
  image_eq := rfl
  state := by
    refine ⟨_, rfl, ?_, ?_, ?_⟩ <;> cases sc.life <;> simp [Life.report, Life.up]
  pinned := by
    intro config hc hpinned
    simp only [plainInspection, Option.some.injEq] at hc
    subst hc
    exact absurd (by decide) hpinned

/-- The daemon tells the truth, whatever its moods. -/
theorem sceneDaemon_truthful {w₀ : World} (hb : w₀.box (containerIDOf 'b') = none)
    (mood : Req → Mood) (q : Req) (sc : Scene) :
    Truthful w₀ id q sc.world (sceneDaemon mood q sc).1 (sceneDaemon mood q sc).2.world := by
  refine ⟨sc.world, Drifts.refl _, ?_⟩
  cases q with
  | inspect ref =>
    refine ⟨rfl, ?_⟩
    by_cases href : ref = containerIDOf 'a'
    · subst href
      exact ⟨_, _, sc.finds_old, sc.reports_old⟩
    · simp only [sceneDaemon, if_neg href]
      nofun
  | inspectImage => exact ⟨rfl, rfl⟩
  | create _ body =>
    refine ⟨posted_took (by decide) fun sc' h => ?_, fun hn hlt => ?_⟩
    · unfold Scene.create at h
      split_ifs at h with hr
      obtain rfl := Option.some.inj h
      obtain ⟨rfl, himage, hnew, -⟩ := hr
      refine ⟨containerIDOf 'b', ?_, hb, fun _ => posted_out, ?_⟩
      · rw [Scene.world_new, hnew]
        rfl
      · rw [show id body.image = _ from himage]
        exact Scene.becomes_new rfl rfl
    · rcases posted_status hn with h | h
      · exact h
      · exact absurd (lt_of_eq_of_lt h.symm hlt) (by decide)
  | rename =>
    apply posted_took (by decide)
    intro sc' h
    unfold Scene.rename at h
    split_ifs at h with hr
    obtain rfl := Option.some.inj h
    obtain ⟨rfl, hn⟩ := hr
    exact ⟨_, _, sc.finds_old, Scene.becomes_old rfl⟩
  | stop =>
    apply posted_took (by decide)
    intro sc' h
    split_ifs at h with hr
    obtain rfl := Option.some.inj h
    obtain ⟨rfl, hup⟩ := hr
    refine ⟨_, _, sc.finds_old, ?_⟩
    rw [if_pos hup]
    refine ⟨fun hn h304 => ?_, Scene.becomes_old rfl⟩
    rcases posted_status hn with h | h
    · exact absurd (h.symm.trans h304) (by decide)
    · exact absurd (h.symm.trans h304) (by decide)
  | start =>
    apply posted_took (by decide)
    intro sc' h
    split_ifs at h with hr
    obtain rfl := Option.some.inj h
    subst hr
    exact ⟨_, _, sc.finds_old, Scene.becomes_old rfl⟩
  | pause => exact .refused rfl
  | wait => exact ⟨rfl, trivial⟩
  | remove =>
    refine ⟨posted_took (by decide) fun sc' h => ?_, fun hn h404 => ?_⟩
    · split_ifs at h with hr
      obtain rfl := Option.some.inj h
      obtain ⟨rfl, hnew, hforce⟩ := hr
      obtain ⟨l, hl⟩ := Option.ne_none_iff_exists'.mp hnew
      refine ⟨containerIDOf 'b', ⟨"web", imageIDOf '2', l⟩, ⟨?_, .inl rfl⟩, .inl hforce,
        Scene.becomes_new rfl rfl⟩
      rw [Scene.world_new, hl]
      rfl
    · rcases posted_status hn with h | h
      · exact absurd (h.symm.trans h404) (by decide)
      · exact absurd (h.symm.trans h404) (by decide)
  | _ => rfl

/-- A daemon that never breaks a connection is careful. -/
theorem sceneDaemon_careful {req : DeploymentRequest} {w₀ : World} {mood : Req → Mood}
    (h : ∀ q, mood q ≠ .breaks) (q : Req) (sc : Scene) :
    Careful req w₀ q sc.world (sceneDaemon mood q sc).1 (sceneDaemon mood q sc).2.world := by
  have herr : ∀ {α : Type} {q : Req} {status : Nat} {out : α} {next : Option Scene},
      (posted (mood q) status out sc next).1.err ≠ some .connection := by
    intro α q status out next
    have hq := h q
    cases hm : mood q with
    | answers => cases next <;> nofun
    | refuses => cases next <;> nofun
    | breaks => exact absurd hm hq
  cases q with
  | rename _ _ | stop _ _ | create _ _ => exact fun he => absurd he herr
  | _ => trivial

/-- The service's container runs. -/
def upScene : Scene := ⟨"web", .running, none, fun hn => absurd rfl hn⟩

theorem web_setting : Setting webRequest upScene.world where
  recreates := by decide
  names := by decide
  apart := by
    intro s hs s' hs' hne
    simp only [webRequest, List.mem_singleton] at hs hs'
    subst hs hs'
    exact absurd rfl hne

theorem web_images : ImageStore webRequest id where
  pinned := fun _ _ _ => rfl
  tagged := by
    intro s hs q hq
    simp only [webRequest, List.mem_singleton] at hs
    subst hs
    cases hq

/-- The daemon refuses to start the new container. -/
def startRefused : Req → Mood
  | .start ref => if ref = containerIDOf 'b' then .refuses else .answers
  | _ => .answers

/-- The recreate on that daemon. -/
def refusedRun : List (Event Req Ans) × DeploymentResult × Scene :=
  (deploy ⟨"", 0⟩ webRequest).simulate (sceneDaemon startRefused) upScene

/-- A recreate whose start is refused puts the old container back, and says so. -/
theorem restored_or_confessed_control :
    refusedRun.2.1.steps.map (fun st => (st.step, st.outcome)) =
      [(.precondition, .succeeded), (.image, .succeeded), (.recheck, .succeeded),
        (.rename, .succeeded), (.create, .succeeded), (.stop, .succeeded), (.start, .failed),
        (.rollback, .succeeded), (.remove, .skipped)] ∧
    (∀ s ∈ webRequest.services,
      Settled upScene.world s refusedRun.2.1.steps refusedRun.2.2.world) := by
  have hnever : ∀ q, startRefused q ≠ .breaks := by
    intro q
    cases q with
    | start =>
      unfold startRefused
      dsimp only
      split <;> nofun
    | _ => nofun
  have hrun : Prog.Exec (host webRequest upScene.world id).step (deploy ⟨"", 0⟩ webRequest)
      upScene.world refusedRun.1 refusedRun.2.1 refusedRun.2.2.world :=
    Prog.simulate_exec Scene.world (fun q sc =>
      ⟨sceneDaemon_truthful rfl _ q sc, sceneDaemon_careful hnever q sc⟩) _ upScene
  exact ⟨by decide +kernel, restored_or_confessed web_setting web_images hrun⟩

/-- The daemon carries out the rename that parks the old container, and its answer is lost by a
broken connection. -/
def renameBreaks : Req → Mood
  | .rename _ _ => .breaks
  | _ => .answers

/-- The recreate on that daemon. -/
def brokenRun : List (Event Req Ans) × DeploymentResult × Scene :=
  (deploy ⟨"", 0⟩ webRequest).simulate (sceneDaemon renameBreaks) upScene

/-- The adapter takes the lost answer for a failed rename: it does not look again, and the result has
no rollback step while the old container keeps the parked name. -/
theorem connection_lost_on_rename : ∃ tr res w,
    Prog.Exec (Truthful upScene.world id) (deploy ⟨"", 0⟩ webRequest) upScene.world tr res w ∧
    webRequest.validateFor .docker 0 = .ok () ∧ Setting webRequest upScene.world ∧
    ImageStore webRequest id ∧ ¬Settled upScene.world webService res.steps w := by
  refine ⟨brokenRun.1, brokenRun.2.1, brokenRun.2.2.world,
    Prog.simulate_exec Scene.world (sceneDaemon_truthful rfl renameBreaks) _ upScene,
    by decide +kernel, web_setting, web_images, ?_⟩
  have hsteps : brokenRun.2.1.steps.all (fun st => st.step ≠ .rollback ∧
      (st.step = .start → st.outcome = .skipped)) = true := by decide +kernel
  rw [List.all_eq_true] at hsteps
  intro hsettled
  rcases hsettled with ⟨st, hst, -, hstep, hout⟩ | hrestored | ⟨st, hst, -, hstep, -⟩
  · have := (of_decide_eq_true (hsteps st hst)).2 hstep
    rw [hout] at this
    cases this
  · obtain ⟨b, hb, hn, -⟩ := hrestored.old ⟨"web", imageIDOf '1', .running⟩ upScene.finds_old.1
    obtain rfl := Option.some.inj (brokenRun.2.2.finds_old.1.symm.trans hb)
    revert hn
    decide +kernel
  · exact (of_decide_eq_true (hsteps st hst)).1 hstep

end KyYard.Docker
