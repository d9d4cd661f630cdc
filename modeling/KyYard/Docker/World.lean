import KyYard.Docker.RunRules

/-!
# A host whose daemon tells the truth

The containers of a host (`World`), and what the daemon may do with a request of a run
(`Truthful`): it answers, and then the answer says what happened, or the answer is lost, and the
request has taken effect or not. A container that was there before the run changes only by requests;
one the run started may stop, or come back, at any time.

`resolve` is the daemon's reading of an image reference as an image id.
-/

namespace KyYard.Docker

open Foundation Protocol

/-! ## Containers -/

/-- What a container is doing; `created` is never started. -/
inductive Life
  | created
  | running
  | paused
  | exited
deriving DecidableEq

/-- The container has a process, paused or not. -/
def Life.up : Life → Bool
  | .running | .paused => true
  | .created | .exited => false

/-- What a start makes of a container. -/
def Life.started (l : Life) : Life := if l.up then l else .running

/-- A container of the host. -/
structure Box where
  name : String
  image : String
  life : Life

/-- The containers of a host by id: ids have their form, and no name is used twice. -/
@[ext] structure World where
  box : String → Option Box
  hex : ∀ id b, box id = some b → validContainerHexID id = true
  unique : ∀ id id' b b', box id = some b → box id' = some b' → b.name = b'.name → id = id'

namespace World

/-- Some container has the name. -/
def Named (w : World) (name : String) : Prop := ∃ id b, w.box id = some b ∧ b.name = name

/-- The container a reference stands for: by its id, else by its name, else by the start of its
id. -/
def Finds (w : World) (ref id : String) (b : Box) : Prop :=
  w.box id = some b ∧ (id = ref ∨ (w.box ref = none ∧
    (b.name = ref ∨ (¬w.Named ref ∧ Text.hasPrefix id ref = true))))

/-- No container has the reference as id or name. -/
def Missing (w : World) (ref : String) : Prop := w.box ref = none ∧ ¬w.Named ref

/-- One container changed, appeared or disappeared. -/
def Becomes (w : World) (id : String) (b : Option Box) (w' : World) : Prop :=
  w'.box = Function.update w.box id b

variable {w w' : World} {ref id : String} {b b' : Box} {x : Option Box}

theorem Finds.of_id (h : w.Finds ref id b) (hb : w.box ref = some b') : id = ref ∧ b = b' := by
  obtain ⟨hid, rfl | ⟨hnone, -⟩⟩ := h
  · exact ⟨rfl, Option.some.inj (hid.symm.trans hb)⟩
  · rw [hb] at hnone
    cases hnone

theorem Becomes.self (h : w.Becomes id x w') : w'.box id = x := by
  rw [show w'.box = _ from h, Function.update_self]

theorem Becomes.other (h : w.Becomes id x w') {id' : String} (hne : id' ≠ id) :
    w'.box id' = w.box id' := by
  rw [show w'.box = _ from h, Function.update_of_ne hne]

/-- A reference that cannot be an id is read as a name, if a container has it. -/
theorem Finds.by_name (h : w.Finds ref id b) (href : validContainerHexID ref = false) :
    b.name = ref ∨ ¬w.Named ref := by
  obtain ⟨hid, rfl | ⟨-, hn | ⟨hn, -⟩⟩⟩ := h
  · rw [w.hex _ b hid] at href
    cases href
  · exact .inl hn
  · exact .inr hn

end World

/-! ## Answers -/

/-- The inspection says what the container is. A container created from a reference pinned by digest
runs the image of that reference. -/
structure Reports (resolve : String → String) (i : Inspection) (id : String) (b : Box) : Prop where
  id_eq : i.id = id
  name_eq : i.name = "/" ++ b.name
  image_eq : i.image = b.image
  state : ∃ st, i.state = some st ∧ st.running = b.life.up ∧
    st.paused = decide (b.life = .paused) ∧ (st.status = .created ↔ b.life = .created)
  pinned : ∀ config, i.config = some config →
    containerImageReference config.image ≠ config.image → resolve config.image = i.image

/-- A post: a status from 400 on says that it took no effect, one below, with no error, that it did;
with an error and no such status, either. -/
inductive Took {α : Type} (a : Posted α) (effect : World → Prop) (w : World) : World → Prop
  | done {w' : World} : a.status < 400 → effect w' → Took a effect w w'
  | refused : a.refused = true → Took a effect w w

variable (w₀ : World) (resolve : String → String)

/-- What the daemon does with a request. -/
def Acts : (q : Req) → World → Ans q → World → Prop
  | .inspect ref, w, a, w' => w' = w ∧ match a with
      | .ok i => ∃ id b, w.Finds ref id b ∧ Reports resolve i id b
      | .error e => e = .status 404 → w.Missing ref
  | .inspectImage ref, w, a, w' => w' = w ∧ match a with
      | .ok im => im.id = resolve ref
      | .error _ => True
  | .create name body, w, a, w' =>
      Took a (fun w' => ∃ id, w.box id = none ∧ w₀.box id = none ∧ (a.err = none → a.out = id) ∧
        w.Becomes id (some ⟨name, resolve body.image, .created⟩) w') w w' ∧
      (a.err = none → a.status < 400 → a.status = 201)
  | .rename ref name, w, a, w' =>
      Took a (fun w' => ∃ id b, w.Finds ref id b ∧
        w.Becomes id (some { b with name := name }) w') w w'
  | .stop ref _, w, a, w' =>
      Took a (fun w' => ∃ id b, w.Finds ref id b ∧
        if b.life.up then (a.err = none → a.status ≠ 304) ∧
          w.Becomes id (some { b with life := .exited }) w'
        else (a.err = none → a.status = 304) ∧ w' = w) w w'
  | .start ref, w, a, w' =>
      Took a (fun w' => ∃ id b, w.Finds ref id b ∧
        w.Becomes id (some { b with life := b.life.started }) w') w w'
  | .pause ref, w, a, w' =>
      Took a (fun w' => ∃ id b, w.Finds ref id b ∧ b.life = .running ∧
        w.Becomes id (some { b with life := .paused }) w') w w'
  | .wait ref, w, a, w' => w' = w ∧ match a with
      | .stopped => ∃ id b, w.Finds ref id b ∧ b.life.up = false
      | .stillRunning => ∃ id b, w.Finds ref id b ∧ b.life.up = true
      | .failed => True
  | .remove ref force, w, a, w' =>
      Took a (fun w' => ∃ id b, w.Finds ref id b ∧ (force = true ∨ b.life.up = false) ∧
        w.Becomes id none w') w w' ∧
      (a.err = none → a.status = 404 → w.Missing ref)
  | _, w, _, w' => w' = w

/-- What may happen on the host without a request: a container of this run that was started may
stop or come back. -/
structure Drifts (w w' : World) : Prop where
  kept : ∀ id, w₀.box id ≠ none → w'.box id = w.box id
  gone : ∀ id, w'.box id = none ↔ w.box id = none
  same : ∀ id b b', w.box id = some b → w'.box id = some b' →
    b'.name = b.name ∧ b'.image = b.image ∧ (b'.life = .created ↔ b.life = .created)

/-- A daemon that tells the truth, on a host that `w₀` was the state of before the run. -/
def Truthful (q : Req) (w : World) (a : Ans q) (w' : World) : Prop :=
  ∃ v, Drifts w₀ w v ∧ Acts w₀ resolve q v a w'

variable {w₀ resolve}

theorem Drifts.refl (w : World) : Drifts w₀ w w :=
  ⟨fun _ _ => rfl, fun _ => Iff.rfl, fun id b b' h h' => by
    obtain rfl := Option.some.inj (h.symm.trans h')
    exact ⟨rfl, rfl, Iff.rfl⟩⟩

/-- A container after a drift was there before, with the same name. -/
theorem Drifts.back {w w' : World} (h : Drifts w₀ w w') {id : String} {b' : Box}
    (hb : w'.box id = some b') :
    ∃ b, w.box id = some b ∧ b'.name = b.name ∧ b'.image = b.image ∧
      (b'.life = .created ↔ b.life = .created) := by
  cases hw : w.box id with
  | none =>
    have := (h.gone id).mpr hw
    rw [hb] at this
    cases this
  | some b => exact ⟨b, rfl, h.same id b b' hw hb⟩

/-- Requests that change no container. -/
def Req.still : Req → Bool
  | .create _ _ | .rename _ _ | .stop _ _ | .start _ | .pause _ | .remove _ _ => false
  | _ => true

theorem Req.still_of_quiet {q : Req} (hq : q.quiet = true) : q.still = true := by
  cases q <;> first | rfl | cases hq

/-- A request that changes no container is at most a drift. -/
theorem Truthful.drifts {q : Req} (hq : q.still = true) {w w' : World} {a : Ans q}
    (h : Truthful w₀ resolve q w a w') : Drifts w₀ w w' := by
  obtain ⟨v, hd, ha⟩ := h
  have he : w' = v := by
    cases q with
    | inspect => exact ha.1
    | inspectImage => exact ha.1
    | wait => exact ha.1
    | create | rename | stop | start | pause | remove => cases hq
    | _ => exact ha
  rw [he]
  exact hd

/-- A read finds its container as it is after the read. -/
theorem Truthful.read {ref : String} {i : Inspection} {w w' : World}
    (h : Truthful w₀ resolve (.inspect ref) w (.ok i) w') :
    ∃ id b, w'.Finds ref id b ∧ Reports resolve i id b := by
  obtain ⟨v, -, rfl, hf⟩ := h
  exact hf

end KyYard.Docker
