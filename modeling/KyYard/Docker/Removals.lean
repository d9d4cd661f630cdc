import KyYard.Docker.Phases

/-!
# What a run removes

Every removal a run sends is of a container it may destroy (`Removable`): one its own create
returned; the container a service replaced, after the start of the replacement was recorded as
succeeded; or a container read under the service's own name in the never-started state, unforced.
There is one more case, of a container read by the id a create returned and removed by the id the
read reported (`RemovableRead`). A daemon that reports the id it was asked for makes it the first
case; nothing makes it one of the three otherwise (`removal_of_another_container`).

Main result: `removals_owned`, over every dialogue of a run, whatever is answered.
-/

namespace KyYard.Docker

open Foundation Protocol Stateful

/-! ## What may be removed -/

/-- A create of this run returned the id. -/
def CreatedIn (h : History) (id : String) : Prop :=
  ∃ (name : String) (body : ContainerCreate) (p : Posted String),
    (⟨.create name body, p⟩ : Event Req Ans) ∈ h ∧ p.err = none ∧ p.status = 201 ∧ p.out = id

/-- A read of this run reported the container, never started. -/
def NeverStarted (h : History) (ref : String) (i : Inspection) : Prop :=
  (⟨.inspect ref, .ok i⟩ : Event Req Ans) ∈ h ∧ i.state.map ContainerState.status = some .created

variable (req : DeploymentRequest)

/-- The containers a run may remove after the dialogue `h`, and whether by force. -/
inductive Removable (h : History) : String → Bool → Prop
  | created {id : String} (force : Bool) : CreatedIn h id → Removable h id force
  | replaced {s : DeploymentService} : s ∈ req.services → run req s = false →
      succeededStep s.name .start ∈ recorded h → Removable h s.replaces.containerID false
  | leftover {s : DeploymentService} {i : Inspection} : s ∈ req.services →
      NeverStarted h s.containerName i → i.name = "/" ++ s.containerName → Removable h i.id false

/-- The same, with a container removed by the id that a read of a created one reported, for a service
that replaces nothing. -/
inductive RemovableRead (h : History) : String → Bool → Prop
  | of {id : String} {force : Bool} : Removable req h id force → RemovableRead h id force
  | readBack {s : DeploymentService} {created : String} {i : Inspection} : s ∈ req.services →
      run req s = true → CreatedIn h created → NeverStarted h created i → RemovableRead h i.id false

/-- What a run owes about removals. -/
def removalOwed : Req → History → Prop
  | .remove ref force, h => RemovableRead req h ref force
  | _, _ => True

/-- The contract of a run about its removals. -/
abbrev removals : Contract Req Ans History := Prog.dialogue (removalOwed req)

/-! ## Facts that a growing dialogue keeps -/

/-- A fact about a dialogue that later requests keep. -/
def Grows (P : History → Prop) : Prop := ∀ h e, P h → P (h ++ [e])

theorem Grows.and {P Q : History → Prop} (hP : Grows P) (hQ : Grows Q) :
    Grows (fun h => P h ∧ Q h) :=
  fun h e hh => ⟨hP h e hh.1, hQ h e hh.2⟩

theorem Grows.imp {P : History → Prop} {A : Prop} (hP : Grows P) : Grows (fun h => A → P h) :=
  fun h e hh ha => hP h e (hh ha)

theorem grows_true : Grows (fun _ => True) := fun _ _ _ => trivial

theorem grows_mem (e : Event Req Ans) : Grows (fun h => e ∈ h) :=
  fun _ _ he => List.mem_append_left _ he

theorem grows_createdIn (id : String) : Grows (fun h => CreatedIn h id) := by
  rintro h e ⟨name, body, p, hp, hrest⟩
  exact ⟨name, body, p, List.mem_append_left _ hp, hrest⟩

theorem grows_recorded (st : DeploymentStep) : Grows (fun h => st ∈ recorded h) := by
  intro h e hst
  rw [recorded_append]
  exact List.mem_append_left _ hst

variable {req} {P : History → Prop} {o : Option Outcome}

/-- A request other than a removal is always owed, and keeps what grows. -/
theorem Grows.stable (hP : Grows P) :
    Stable (removals req) Req.plain (fun r h => r.res.outcome = o ∧ P h) where
  ask q hq r h hh := by
    have howed : removalOwed req q h := by cases q <;> trivial
    refine ⟨howed, ?_⟩
    rintro b t rfl
    exact ⟨hh.1, hP h _ hh.2⟩
  progress _ _ _ hs hh := ⟨hs.outcome.trans hh.1, hh.2⟩

theorem Grows.record (hP : Grows P) (st : DeploymentStep) (h : History) (hh : P h) :
    (removals req).owed (.record st) h ∧
      ∀ a t, (removals req).step (.record st) h a t → P t := by
  refine ⟨trivial, ?_⟩
  rintro a t rfl
  exact hP h _ hh

theorem Grows.confess (hP : Grows P) (service : String) (restored : Bool) :
    Keeps (removals req) (fun r h => r.res.outcome = o ∧ P h) (confess service restored) := by
  refine confess_keeps (fun st r h hh => ?_) service restored
  exact ⟨trivial, fun a t ht => ⟨hh.1, (hP.record st h hh.2).2 a t ht⟩⟩

/-- The hook may be called any time. -/
theorem Grows.beginRun (hP : Grows P) :
    Keeps (removals req) (fun r h => r.res.outcome = o ∧ P h) beginRun := by
  refine Keeps.get fun r h hh => ?_
  split
  · refine ⟨trivial, ?_⟩
    rintro b t rfl
    exact ⟨hh.1, hP h _ hh.2⟩
  · exact hh

/-! ## The parts that remove -/

theorem Grows.discard (hP : Grows P) {id : String} {force : Bool}
    (hid : ∀ h, P h → RemovableRead req h id force) :
    Keeps (removals req) (fun r h => r.res.outcome = o ∧ P h) (discard id force) := by
  intro r h hh
  refine wp_ask_bind (hid h hh.2) ?_
  rintro b t rfl
  exact ⟨hh.1, hP h _ hh.2⟩

variable {r : DeployRun} {h : History} {created : String} {p : Prepared}

section

variable (hP : Grows P)
include hP

/-- A read of a container is remembered. -/
theorem Grows.current (ref : String)
    {Q : Except ReadError (Option ContainerNow) → DeployRun → History → Prop}
    (hh : r.res.outcome = o ∧ P h)
    (hlost : ∀ b h', r.res.outcome = o ∧ P h' → (∀ now, b ≠ .ok (some now)) → Q b r h')
    (hread : ∀ i st h', i.state = some st →
      r.res.outcome = o ∧ (P h' ∧ (⟨.inspect ref, .ok i⟩ : Event Req Ans) ∈ h') →
      Q (.ok (some (.of i st))) r h') : wp (removals req) (current ref) Q r h := by
  refine wp_ask_bind trivial ?_
  rintro b t rfl
  have hgrow := hP h ⟨.inspect ref, b⟩ hh.2
  cases b with
  | error => exact hlost _ _ ⟨hh.1, hgrow⟩ (by simp)
  | ok i =>
    cases hst : i.state with
    | none =>
      have := hlost (.ok none) _ ⟨hh.1, hgrow⟩ (by simp)
      simpa [hst] using this
    | some st =>
      have := hread i st _ hst ⟨hh.1, hgrow, List.mem_append_right _ (List.mem_singleton.mpr rfl)⟩
      simpa [hst] using this

theorem Grows.settle {s : DeploymentService} (hs : Serves req s)
    {outcome : Outcome}
    (hc : created ≠ "" → run req s = true ∧ ∀ h, P h → CreatedIn h created)
    (hu : unanswered outcome = false → created ≠ "") :
    Keeps (removals req) (fun r h => r.res.outcome = o ∧ P h) (settle s created outcome) := by
  unfold Docker.settle
  split
  · next hans =>
    have hne : created ≠ "" := hu (by simpa using hans)
    exact hP.discard fun h hh => .of (.created true ((hc hne).2 h hh))
  intro r h hh
  rw [wp_bind]
  refine hP.current _ hh (fun b h' hh' hb => ?_) fun i st h' hst hh' => ?_
  · split
    · exact hh'
    · exact hh'
    · exact hh'
    · next now => exact absurd rfl (hb now)
  · have hkeep : r.res.outcome = o ∧ P h' := ⟨hh'.1, hh'.2.1⟩
    simp only [wp_ite]
    split
    · exact hkeep
    split
    · exact hkeep
    split
    · exact hkeep
    next hstatus hname =>
    have hread : ∀ h, (P h ∧ (⟨.inspect (if created = "" then s.containerName else created), .ok i⟩ :
        Event Req Ans) ∈ h) → RemovableRead req h i.id false := by
      rintro h ⟨hP', hmem⟩
      have hnever : i.state.map ContainerState.status = some .created := by
        rw [hst]
        simpa [ContainerNow.of] using hstatus
      obtain ⟨s', hs', -, hcn, hrep⟩ := hs
      by_cases he : created = ""
      · rw [if_pos he] at hmem
        have hn : i.name = "/" ++ s.containerName := by
          by_contra hn
          exact hname ⟨he, .inl hn⟩
        rw [← hcn] at hmem hn
        exact .of (.leftover hs' ⟨hmem, hnever⟩ hn)
      · rw [if_neg he] at hmem
        have hrun : run req s' = true := by
          rw [run, hrep]
          exact (hc he).1
        exact .readBack hs' hrun ((hc he).2 h hP') ⟨hmem, hnever⟩
    exact wp_mono ((hP.and (grows_mem _)).discard hread r h' hh')
      fun _ r'' h'' hh'' => ⟨hh''.1, hh''.2.1⟩

theorem Grows.undo (hs : Serves req p.s)
    (outcome : Outcome) (hc : created ≠ "" → ∀ h, P h → CreatedIn h created) :
    Keeps (removals req) (fun r h => r.res.outcome = o ∧ P h) (undo req p created outcome) := by
  have hnew : Keeps (removals req) (fun r h => r.res.outcome = o ∧ P h)
      (discardNew p.s created outcome) := by
    unfold discardNew
    split
    · next hne => exact hP.discard fun h hh => .of (.created true (hc hne h hh))
    split
    · next hans => exact hP.settle hs (fun hn => absurd rfl hn) fun hu => by simp [hu] at hans
    · exact Keeps.pure _
  refine Keeps.bind hnew fun gone => Keeps.ite (Keeps.pure _) (Keeps.ite (Keeps.pure _) ?_)
  exact unpark_keeps hP.stable p

theorem Grows.reclaim (hs : Serves req p.s) :
    Keeps (removals req) (fun r h => r.res.outcome = o ∧ P h) (reclaim req p) := by
  refine Keeps.ite (Keeps.pure _) fun r h hh => ?_
  rw [wp_bind]
  refine hP.current _ hh (fun b h' hh' hb => ?_) fun i st h' hst hh' => ?_
  · split
    · exact hh'
    · exact hh'
    · next now => exact absurd rfl (hb now)
  · have hkeep : r.res.outcome = o ∧ P h' := ⟨hh'.1, hh'.2.1⟩
    simp only [wp_ite]
    split
    · exact hkeep
    next hid =>
    split
    · exact hkeep
    simp only [ContainerNow.of, not_or, not_not] at hid
    obtain ⟨s', hs', -, hcn, -⟩ := hs
    have hread : ∀ h, (P h ∧ (⟨.inspect p.s.containerName, .ok i⟩ : Event Req Ans) ∈ h) →
        RemovableRead req h i.id false := by
      rintro h ⟨-, hmem⟩
      have hnever : i.state.map ContainerState.status = some .created := by
        rw [hst]
        simpa using hid.2.2.2
      have hn := hid.2.2.1
      rw [← hcn] at hmem hn
      exact .of (.leftover hs' ⟨hmem, hnever⟩ hn)
    exact wp_mono ((hP.and (grows_mem _)).discard hread r h' hh')
      fun _ r'' h'' hh'' => ⟨hh''.1, hh''.2.1⟩

/-- The id a create step leaves behind was returned by a create of this run. -/
theorem Grows.sendCreate (hs : Serves req p.s) (hh : r.res.outcome = o ∧ P h) :
    wp (removals req) (sendCreate req p) (fun x r' h' => (r'.res.outcome = o ∧ P h') ∧
      (x.2 ≠ "" → CreatedIn h' x.2) ∧ (x.1.outcome = .succeeded → x.2 ≠ "")) r h := by
  -- The answer used is the answer of one of the create requests.
  have hpost : wp (removals req) (postCreate req p) (fun a r' h' => (r'.res.outcome = o ∧ P h') ∧
      ∃ name body, (⟨.create name body, a⟩ : Event Req Ans) ∈ h') r h := by
    refine wp_ask_bind trivial ?_
    rintro first t rfl
    have hfirst : ∃ name body, (⟨.create name body, first⟩ : Event Req Ans) ∈
        h ++ [⟨.create p.s.containerName (bodyFor req p), first⟩] :=
      ⟨_, _, List.mem_append_right _ (List.mem_singleton.mpr rfl)⟩
    split
    · rw [wp_bind]
      have hgrow : Grows (fun h => P h ∧
          ∃ name body, (⟨.create name body, first⟩ : Event Req Ans) ∈ h) := by
        rintro h e ⟨hh, name, body, hmem⟩
        exact ⟨hP h e hh, name, body, List.mem_append_left _ hmem⟩
      refine wp_mono (hgrow.reclaim hs r _ ⟨hh.1, hP h _ hh.2, hfirst⟩) ?_
      rintro again r' h' ⟨ho, hP', hmem⟩
      split
      · refine ⟨trivial, ?_⟩
        rintro a t rfl
        exact ⟨⟨ho, hP h' _ hP'⟩, _, _, List.mem_append_right _ (List.mem_singleton.mpr rfl)⟩
      · exact ⟨⟨ho, hP'⟩, hmem⟩
    · exact ⟨⟨hh.1, hP h _ hh.2⟩, hfirst⟩
  unfold Docker.sendCreate
  rw [wp_bind]
  refine wp_mono hpost ?_
  rintro a r h ⟨hh, name, body, hmem⟩
  simp only [wp_ite, wp_bind]
  split
  · refine ⟨hh, fun hne => absurd rfl hne, fun hx => ?_⟩
    split at hx
    · cases hx
    exact absurd hx (outcomeFor_ne_succeeded _ _)
  split
  · exact ⟨hh, fun hne => absurd rfl hne, nofun⟩
  next hok hid =>
  have hcreated : CreatedIn h a.out := by
    simp only [not_or, not_not, Option.not_isSome_iff_eq_none] at hok
    exact ⟨name, body, a, hmem, hok.1, hok.2, rfl⟩
  refine wp_mono (connectAll_keeps (fun _ => (hP.and (grows_createdIn a.out)).stable.keeps rfl) _ r h
    ⟨hh.1, hh.2, hcreated⟩) ?_
  rintro x r' h' ⟨ho, hP', hc⟩
  refine ⟨⟨ho, hP'⟩, fun _ => hc, fun _ hne => hid ?_⟩
  rw [show a.out = "" from hne]
  decide

theorem Grows.createOrUndo (hs : Serves req p.s) (hh : r.res.outcome = o ∧ P h) :
    wp (removals req) (createOrUndo req p) (fun x r' h' => (r'.res.outcome = o ∧ P h') ∧
      (x.2.created ≠ "" → CreatedIn h' x.2.created) ∧
      (x.1.outcome = .succeeded → x.2.created ≠ "")) r h := by
  unfold Docker.createOrUndo
  rw [wp_bind]
  refine wp_mono (hP.sendCreate hs hh) ?_
  rintro ⟨a, created⟩ r h ⟨hh, hc, hok⟩
  have hgrow : Grows (fun h => P h ∧ (created ≠ "" → CreatedIn h created)) :=
    hP.and (grows_createdIn created).imp
  have hh' : r.res.outcome = o ∧ P h ∧ (created ≠ "" → CreatedIn h created) := ⟨hh.1, hh.2, hc⟩
  -- Whatever is undone, the create's answer stands.
  have hdone : ∀ (_ : Bool) (r : DeployRun) (h : History),
      (r.res.outcome = o ∧ P h ∧ (created ≠ "" → CreatedIn h created)) →
      (r.res.outcome = o ∧ P h) ∧ (created ≠ "" → CreatedIn h created) ∧
      (a.outcome = .succeeded → created ≠ "") :=
    fun _ r h hh => ⟨⟨hh.1, hh.2.1⟩, hh.2.2, hok⟩
  simp only [wp_ite, wp_bind]
  split
  · exact hdone true r h hh'
  split
  · next hrun =>
    split
    · next hans =>
      refine wp_mono (hgrow.settle hs (fun hn => absurd rfl hn) (fun hu => ?_) r h hh') hdone
      simp [hu] at hans
    · exact hdone true r h hh'
  · refine wp_mono (hgrow.undo hs a.outcome (fun hne h hh => hh.2 hne) r h hh') hdone

/-- The create step leaves the id of a container of this run, or none if it failed. -/
theorem Grows.create (hs : Serves req p.s) (hh : P h) :
    wp (removals req) (create req p) (fun created r' h' =>
      (P h' ∧ (created ≠ "" → CreatedIn h' created)) ∧
      (r'.res.outcome = none → r.res.outcome = none ∧ created ≠ "")) r h := by
  unfold Docker.create
  rw [wp_bind]
  have hgrow : ∀ b : CreateLeft, Grows (fun h => P h ∧ (b.created ≠ "" → CreatedIn h b.created)) :=
    fun b => hP.and (grows_createdIn b.created).imp
  refine wp_mono (wp_step_spec (fun b h => P h ∧ (b.created ≠ "" → CreatedIn h b.created))
    (fun b _ => b.created ≠ "") (fun b _ => b.created ≠ "") (fun b => (hgrow b).record)
    (fun _ _ _ _ _ hb => hb) ⟨hh, fun hne => absurd rfl hne⟩ fun ho => ?_) ?_
  · unfold createStep
    rw [wp_bind]
    refine wp_mono (createGuard_spec hP.stable hP.beginRun p ⟨ho, hh⟩) ?_
    rintro g r' h' ⟨hh', hg⟩
    cases g with
    | some a => exact ⟨hh'.1, ⟨hh'.2, fun hne => absurd rfl hne⟩, fun hx => absurd hx (hg a rfl)⟩
    | none =>
      refine wp_mono (hP.createOrUndo hs hh') ?_
      exact fun x r h hx => ⟨hx.1.1, ⟨hx.1.2, hx.2.1⟩, hx.2.2⟩
  · rintro left r' h' ⟨hh', hn⟩
    rw [wp_bind]
    refine wp_mono ((hgrow left).confess p.s.name left.restored r' h' ⟨rfl, hh'⟩) ?_
    rintro _ r'' h'' ⟨ho, hh''⟩
    exact ⟨hh'', fun hn' => hn (ho ▸ hn')⟩

theorem Grows.stopStep (hs : Serves req p.s)
    (hc : created ≠ "" → ∀ h, P h → CreatedIn h created) (now : Rechecked) :
    Keeps (removals req) (fun r h => r.res.outcome = o ∧ P h) (stopStep req p created now) := by
  refine Keeps.bind (hP.stable.keeps rfl) fun a => Keeps.ite (Keeps.pure _) ?_
  refine Keeps.bind (hP.undo hs _ hc) fun undone => Keeps.ite (Keeps.pure _) ?_
  exact Keeps.bind (reviveIfStopped_keeps hP.stable p _ _) fun _ => Keeps.pure _

theorem Grows.rollback (hc : ∀ h, P h → CreatedIn h created) (running paused : Bool) :
    Keeps (removals req) (fun r h => r.res.outcome = o ∧ P h)
      (rollback p created running paused) := by
  have hback : Keeps (removals req) (fun r h => r.res.outcome = o ∧ P h)
      (putBack p created running paused) := by
    refine Keeps.bind (hP.discard fun h hh => .of (.created true (hc h hh))) fun gone => ?_
    refine Keeps.ite (Keeps.pure _) (Keeps.bind (unpark_keeps hP.stable p) fun unparked => ?_)
    exact Keeps.ite (Keeps.bind (revive_keeps hP.stable p paused) fun _ => Keeps.pure _)
      (Keeps.pure _)
  refine Keeps.bind hback fun restored => Keeps.ite (hP.confess p.s.name false) ?_
  intro r h hh
  refine ⟨trivial, ?_⟩
  rintro a t rfl
  exact ⟨hh.1, hP h _ hh.2⟩

/-- The start step: it ran only if the outcome was open, and the outcome stays open only if its
success was recorded. -/
theorem Grows.start {c : Client} (s : DeploymentService) (created : String)
    (watched : Bool) (hh : P h) :
    wp (removals req) (start c s created watched) (fun x r' h' =>
      (P h' ∧ (failedStep x.1 = true → r.res.outcome = none)) ∧
      (r'.res.outcome = none → r.res.outcome = none ∧
        succeededStep s.name .start ∈ recorded h')) r h := by
  refine wp_step_spec
    (fun (x : Outcome × Bool) h => P h ∧ (failedStep x.1 = true → r.res.outcome = none))
    (fun _ _ => True) (fun _ h => succeededStep s.name .start ∈ recorded h)
    (fun b => (hP.and fun _ _ hf => hf).record) ?_ ⟨hh, nofun⟩ fun ho => ?_
  · rintro b u a t rfl -
    simp [Req.step?]
  · refine wp_mono (startStep_keeps hP.stable.quiet s (hP.stable.keeps rfl) watched r h ⟨ho, hh⟩) ?_
    exact fun x r' h' hx => ⟨hx.1, ⟨hx.2, fun _ => ho⟩, fun _ => trivial⟩

end

theorem replaceRun_removals {c : Client} (hs : Serves req p.s) (hrun : run req p.s = true) :
    wp (removals req) (replaceRun c req p) (fun _ _ _ => True) r h := by
  unfold replaceRun
  rw [wp_bind]
  refine wp_mono (grows_true.create hs trivial) ?_
  rintro created r h ⟨⟨-, hc⟩, hne⟩
  rw [wp_bind]
  have hgrow := (grows_createdIn created).imp (A := created ≠ "")
  refine wp_mono (hgrow.start p.s created false hc) ?_
  rintro ⟨outcome, up⟩ r h ⟨⟨hc, hran⟩, -⟩
  rw [wp_ite]
  split
  · next hf =>
    have hne : created ≠ "" := (hne (hran hf.1)).2
    rw [wp_bind]
    refine wp_mono (hgrow.settle hs (fun _ => ⟨hrun, fun h hh => hh hne⟩) (fun _ => hne) r h ⟨rfl, hc⟩) ?_
    rintro ok r h ⟨-, hc⟩
    exact wp_mono (hgrow.confess p.s.name ok r h ⟨rfl, hc⟩) fun _ _ _ _ => trivial
  · trivial

theorem replace_removals {c : Client} (hs : Serves req p.s) (later : Nat)
    : wp (removals req) (replace c req p later) (fun _ _ _ => True) r h := by
  unfold replace
  by_cases hrun : run req p.s = true
  · rw [if_pos hrun]
    exact replaceRun_removals hs hrun
  rw [if_neg hrun]
  have hrecheck : Keeps (removals req) (fun r h => r.res.outcome = none ∧ True)
      (recheck req p later) := by
    refine Keeps.bind (grows_true.stable.keeps rfl) fun now => Keeps.ite (Keeps.pure _) ?_
    exact Keeps.bind grows_true.beginRun fun _ => recheckContainer_keeps grows_true.stable.quiet p later
  rw [wp_bind]
  refine wp_mono (wp_step_keeps grows_true.record hrecheck trivial) fun now r h _ => ?_
  rw [wp_bind]
  refine wp_mono (wp_step_keeps grows_true.record (rename_keeps grows_true.stable p) trivial)
    fun unparked r h _ => ?_
  rw [wp_bind]
  refine wp_mono (grows_true.confess p.s.name unparked r h ⟨rfl, trivial⟩) fun _ r h _ => ?_
  rw [wp_bind]
  refine wp_mono (grows_true.create hs trivial) ?_
  rintro created r h ⟨⟨-, hc⟩, hne⟩
  have hgrow := (grows_createdIn created).imp (A := created ≠ "")
  rw [wp_bind]
  refine wp_mono (wp_step_keeps hgrow.record (hgrow.stopStep hs (fun hne h hh => hh hne) now) hc) ?_
  rintro ⟨running, restored⟩ r₁ h ⟨hc, hout⟩
  rw [wp_bind]
  refine wp_mono (hgrow.confess p.s.name restored r₁ h ⟨rfl, hc⟩) ?_
  rintro _ r₂ h ⟨hout₂, hc⟩
  rw [wp_bind]
  refine wp_mono (hgrow.start p.s created running hc) ?_
  rintro ⟨outcome, up⟩ r₃ h ⟨⟨hc, hran⟩, hstarted⟩
  -- The start is recorded as succeeded while the outcome is open, through the rollback too.
  have hgrow' := hgrow.and
    ((grows_recorded (succeededStep p.s.name .start)).imp (A := r₃.res.outcome = none))
  have hc' := And.intro hc fun hn => (hstarted hn).2
  rw [wp_bind]
  have hback : wp (removals req)
      (rollbackIf (failedStep outcome) p created running now.paused)
      (fun _ r' h' => r'.res.outcome = r₃.res.outcome ∧ (created ≠ "" → CreatedIn h' created) ∧
        (r₃.res.outcome = none → succeededStep p.s.name .start ∈ recorded h')) r₃ h := by
    unfold rollbackIf
    split
    · next hf =>
      have hne : created ≠ "" := (hne (hout (hout₂ ▸ hran hf))).2
      exact hgrow'.rollback (fun h hh => hh.1 hne) running now.paused r₃ h ⟨rfl, hc'⟩
    · exact ⟨rfl, hc'⟩
  refine wp_mono hback ?_
  rintro _ r₄ h ⟨hout₄, -, hrec⟩
  refine wp_mono (wp_step_spec (fun _ _ => True) (fun _ _ => True) (fun _ _ => True)
    (fun _ => grows_true.record) (fun _ _ _ _ _ _ => trivial) trivial fun ho => ?_)
    fun _ _ _ _ => trivial
  obtain ⟨s, hmem, hname, -, hrep⟩ := hs
  have hrun' : run req s = false := by
    simp only [run, hrep]
    simpa [run] using hrun
  have howed : RemovableRead req h p.s.replaces.containerID false := by
    rw [← hrep]
    exact .of (.replaced hmem hrun' (hname ▸ hrec (hout₄ ▸ ho)))
  refine wp_ask_bind howed ?_
  rintro b t rfl
  split
  · exact ⟨ho, trivial, fun _ => trivial⟩
  · exact ⟨ho, trivial, fun _ => trivial⟩

theorem replaceAll_removals {c : Client} : ∀ {ps : List Prepared} {r : DeployRun} {h : History},
    (∀ p ∈ ps, Serves req p.s) →
    wp (removals req) (replaceAll c req ps) (fun _ _ _ => True) r h
  | [], _, _, _ => trivial
  | p :: ps, r, h, hs => by
    unfold replaceAll
    rw [wp_bind]
    refine wp_mono (replace_removals (hs p List.mem_cons_self) ps.length) fun _ r h _ => ?_
    exact replaceAll_removals fun q hq => hs q (List.mem_cons_of_mem _ hq)

/-! ## A whole run -/

theorem watched_removals :
    Watched (removals req) (fun _ => True) ⟨fun _ _ => True, fun _ _ => True⟩ where
  quiet q hq h _ := ⟨by cases q <;> trivial, fun _ _ _ => trivial⟩
  record _ _ _ := ⟨trivial, fun _ _ _ => trivial⟩
  seen _ _ _ _ _ _ := trivial
  seenImage _ _ _ _ _ _ := trivial

/-- Every run meets the contract of its removals. -/
theorem removals_deploy {c : Client} : (deploy c req).wp (removals req) (fun _ _ => True) [] := by
  refine wp_deploy trivial (fun _ _ _ _ => trivial) ?_
  rintro now t rfl -
  refine watched_removals.deployAccepted trivial fun ps r h _ hps => ?_
  exact replaceAll_removals (serves_of_forall₂ hps)

/-- **What a run removes.** Whatever the daemon answers, every removal a run sends is of a container
that a create of the run returned, of the one a service replaced once the start of its replacement
was recorded as succeeded, or, unforced, of one read as never started: under the service's own name,
or by an id that a create of the run returned. -/
theorem removals_owned {c : Client} {tr : History} {res : DeploymentResult}
    (hr : Prog.Runs (deploy c req) tr res) {pre post : History} {ref : String} {force : Bool}
    {a : Posted Unit} (he : tr = pre ++ ⟨.remove ref force, a⟩ :: post) :
    RemovableRead req pre ref force :=
  (Prog.wp_runs (removals_deploy) hr).2 pre _ post he

/-- The removal of the container with an id. -/
def Req.removes (id : String) : Req → Bool
  | .remove ref _ => ref == id
  | _ => false

/-- The removal of an id in a dialogue, with what came before it. -/
theorem exists_removal (tr : History) (id : String)
    (h : tr.any (fun e => e.req.removes id) = true) :
    ∃ pre post force a, tr = pre ++ ⟨.remove id force, a⟩ :: post := by
  obtain ⟨⟨q, a⟩, hmem, hq⟩ := List.any_eq_true.mp h
  obtain ⟨pre, post, hsplit⟩ := List.append_of_mem hmem
  cases q with
  | remove ref force =>
    obtain rfl : ref = id := by simpa [Req.removes] using hq
    exact ⟨pre, post, force, a, hsplit⟩
  | _ => simp [Req.removes] at hq

/-- A recreate that succeeds removes the container it replaced. -/
theorem removals_owned_control : ∃ pre post force a,
    smoothRun.1 = pre ++ ⟨.remove (containerIDOf 'a') force, a⟩ :: post ∧
      RemovableRead webRequest pre (containerIDOf 'a') force := by
  obtain ⟨pre, post, force, a, hsplit⟩ :=
    exists_removal smoothRun.1 (containerIDOf 'a') (by decide +kernel)
  refine ⟨pre, post, force, a, hsplit, ?_⟩
  exact removals_owned (Prog.play_runs smoothDaemon (deploy ⟨"", 0⟩ webRequest) []) hsplit

/-! ## A container removed by the id a read reported -/

/-- A container `web` created directly, with nothing configured. -/
def directService : DeploymentService where
  name := "direct"
  containerName := "web"
  imageID := imageIDOf '2'
  replaces := .zero
  restart := .unset
  ports := []
  env := .empty
  pull := none
  mounts := some []
  secretKeys := []
  volumes := []
  clusterIP := ""
  explicit := some {
    command := none, entrypoint := none, user := "", workingDir := "", hostname := ""
    labels := .empty, networkMode := "", networks := [], resources := ⟨0, 0, 0, 0⟩
    healthcheck := none, privileged := false, readOnlyRootfs := false, init := false, tty := false
    stdinOpen := false, capAdd := [], capDrop := [], securityOpt := [], extraHosts := [], dns := []
    devices := [], log := ⟨"", .empty⟩, stopSignal := "", stopTimeout := none, restartRetries := 0
    acknowledgedBinds := [] }

def directRequest : DeploymentRequest :=
  { webRequest with project := explicitProject, services := [directService], explicit := true }

/-- A daemon whose answer to the start is lost, and which then reports another container, never
started, under the id of the one it created. -/
def strayDaemon : (q : Req) → History → Ans q
  | .start _, _ => ⟨0, some .deadline, ()⟩
  | .inspect _, _ => .ok (plainInspection (containerIDOf 'c') "/other" (imageIDOf '1')
      ⟨.created, false, false, none⟩)
  | q, h => smoothDaemon q h

def strayRun : History × DeploymentResult :=
  (deploy ⟨"", 0⟩ directRequest).play strayDaemon []

/-- The event creates no container `id` and reads none under the name. -/
def Event.unrelated (id name : String) : Event Req Ans → Bool
  | ⟨.create _ _, p⟩ => p.out ≠ id
  | ⟨.inspect ref, _⟩ => ref ≠ name
  | _ => true

/-- Such a run removes a container that it did not create, does not replace, and never read under
its service's name. -/
theorem removal_of_another_container : ∃ pre post force a,
    Prog.Runs (deploy ⟨"", 0⟩ directRequest) strayRun.1 strayRun.2 ∧
    strayRun.1 = pre ++ ⟨.remove (containerIDOf 'c') force, a⟩ :: post ∧
    ¬Removable directRequest pre (containerIDOf 'c') force := by
  obtain ⟨pre, post, force, a, hsplit⟩ :=
    exists_removal strayRun.1 (containerIDOf 'c') (by decide +kernel)
  refine ⟨pre, post, force, a, Prog.play_runs strayDaemon _ [], hsplit, ?_⟩
  have hall : strayRun.1.all (Event.unrelated (containerIDOf 'c') "web") = true := by
    decide +kernel
  have hpre : ∀ e ∈ pre, Event.unrelated (containerIDOf 'c') "web" e = true := by
    intro e he
    rw [hsplit, List.all_append, Bool.and_eq_true] at hall
    exact List.all_eq_true.mp hall.1 e he
  generalize hid : containerIDOf 'c' = id at *
  intro hrem
  cases hrem with
  | created _ hc =>
    obtain ⟨name, body, p, hmem, -, -, hout⟩ := hc
    have := hpre _ hmem
    simp [Event.unrelated, hout] at this
  | replaced hs hrun =>
    obtain rfl := List.mem_singleton.mp hs
    exact absurd hrun (by decide)
  | leftover hs hnever =>
    obtain rfl := List.mem_singleton.mp hs
    have := hpre _ hnever.1
    simp [Event.unrelated, directService] at this

end KyYard.Docker
