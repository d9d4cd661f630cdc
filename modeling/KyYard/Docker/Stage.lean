import KyYard.Docker.World

/-!
# Where the replacement of a service stands

`Stage` says of a host how far the replacement of one service has come: the name and the life of the
container it replaces, and the container of this run under the service's name. What a request of the
replacement makes of a stage is one lemma each, for a daemon that tells the truth (`Truthful`); with
no answer, a request has led from one stage to the next or not. `Elsewhere` bounds what a replacement
changes beside its own containers, so that the services after it find theirs as they were.
-/

namespace KyYard.Docker

open Foundation Protocol

/-! ## What the replacement of one service changes elsewhere -/

section Service

variable {req : DeploymentRequest} {w₀ : World} {resolve : String → String} {s : DeploymentService}

/-- Containers from before the run are untouched but for the one the service replaces and those never
started under the service's name, and no new container has another name than it had or the service's. -/
structure Elsewhere (w₀ : World) (s : DeploymentService) (w w' : World) : Prop where
  old : ∀ id, w₀.box id ≠ none → id ≠ s.replaces.containerID → w'.box id = w.box id ∨
    ∃ b, w.box id = some b ∧ b.name = s.containerName ∧ b.life = .created
  new : ∀ id b', w₀.box id = none → w'.box id = some b' → b'.name ≠ s.containerName →
    ∃ b, w.box id = some b ∧ b.name = b'.name

theorem Elsewhere.refl (w : World) : Elsewhere w₀ s w w :=
  ⟨fun _ _ _ => .inl rfl, fun _ b' _ h _ => ⟨b', h, rfl⟩⟩

theorem Elsewhere.trans {w w' w'' : World} (h : Elsewhere w₀ s w w') (h' : Elsewhere w₀ s w' w'') :
    Elsewhere w₀ s w w'' := by
  refine ⟨fun id hid hne => ?_, fun id b'' hid hb'' hn => ?_⟩
  · rcases h.old id hid hne with he | he
    · rcases h'.old id hid hne with he' | ⟨b, hb, hb'⟩
      · exact .inl (he'.trans he)
      · exact .inr ⟨b, he ▸ hb, hb'⟩
    · exact .inr he
  · obtain ⟨b', hb', hn'⟩ := h'.new id b'' hid hb'' hn
    obtain ⟨b, hb, hn''⟩ := h.new id b' hid hb' (hn' ▸ hn)
    exact ⟨b, hb, hn''.trans hn'⟩

theorem Drifts.elsewhere {w w' : World} (h : Drifts w₀ w w') : Elsewhere w₀ s w w' := by
  refine ⟨fun id hid _ => .inl (h.kept id hid), fun id b' _ hb' _ => ?_⟩
  obtain ⟨b, hb, hn, -⟩ := h.back hb'
  exact ⟨b, hb, hn.symm⟩

/-- A change of the replaced container only. -/
theorem elsewhere_of_old {w w' : World} {x : Option Box}
    (h₀ : w₀.box s.replaces.containerID ≠ none) (h : w.Becomes s.replaces.containerID x w') :
    Elsewhere w₀ s w w' := by
  refine ⟨fun id _ hne => .inl (h.other hne), fun id b' hid hb' _ => ⟨b', ?_, rfl⟩⟩
  have hne : id ≠ s.replaces.containerID := fun he => h₀ (he ▸ hid)
  rw [← h.other hne]
  exact hb'

/-- A change of one container under the service's name, from before the run only if it was never
started. -/
theorem elsewhere_of_named {w w' : World} {id : String} {x : Option Box}
    (h : w.Becomes id x w') (hx : ∀ b, x = some b → b.name = s.containerName)
    (hid : w₀.box id ≠ none → ∃ b, w.box id = some b ∧ b.name = s.containerName ∧
      b.life = .created) : Elsewhere w₀ s w w' := by
  refine ⟨fun id' hid' _ => ?_, fun id' b' _ hb' hn => ?_⟩
  · by_cases he : id' = id
    · exact .inr (he ▸ hid (he ▸ hid'))
    · exact .inl (h.other he)
  · by_cases he : id' = id
    · subst he
      exact absurd (hx b' (h.self.symm.trans hb')) hn
    · exact ⟨b', h.other he ▸ hb', rfl⟩

/-! ## Where a replacement stands -/

/-- The replaced container has a name and a life, and `new` is the container of this run under the
service's name, if there is one. `w₁` is the host at the start of the replacement. -/
structure Stage (w₀ : World) (s : DeploymentService) (w₁ : World) (name : String) (life : Life)
    (new : Option String) (w : World) : Prop where
  elsewhere : Elsewhere w₀ s w₁ w
  old : ∃ image, w.box s.replaces.containerID = some ⟨name, image, life⟩
  news : ∀ id b, w₀.box id = none → w.box id = some b → b.name = s.containerName → new = some id
  present : ∀ c, new = some c → w₀.box c = none ∧ ∃ b, w.box c = some b ∧ b.name = s.containerName

variable {w₁ w v w' : World} {name : String} {life : Life} {new : Option String} {c : String}

/-- The container of this run was never started and runs the image. -/
def Fresh (image : String) (new : Option String) (w : World) : Prop :=
  ∀ c b, new = some c → w.box c = some b → b.life = .created ∧ b.image = image

theorem Stage.drift (h : Stage w₀ s w₁ name life new w)
    (h₀ : w₀.box s.replaces.containerID ≠ none) (hd : Drifts w₀ w v) :
    Stage w₀ s w₁ name life new v := by
  refine ⟨h.elsewhere.trans hd.elsewhere, ?_, fun id b hid hb hn => ?_, fun c hc => ?_⟩
  · rw [hd.kept _ h₀]
    exact h.old
  · obtain ⟨b', hb', hn', -⟩ := hd.back hb
    exact h.news id b' hid hb' (hn' ▸ hn)
  · obtain ⟨hc₀, b, hb, hn⟩ := h.present c hc
    cases hv : v.box c with
    | none => rw [(hd.gone c).mp hv] at hb; cases hb
    | some b' => exact ⟨hc₀, b', rfl, ((hd.same c b b' hb hv).1).trans hn⟩

/-- The replaced container changed. -/
theorem Stage.set_old (h : Stage w₀ s w₁ name life new v)
    (h₀ : w₀.box s.replaces.containerID ≠ none) {name' image' : String} {life' : Life}
    (hb : v.Becomes s.replaces.containerID (some ⟨name', image', life'⟩) w') :
    Stage w₀ s w₁ name' life' new w' := by
  have hne : ∀ {id}, w₀.box id = none → id ≠ s.replaces.containerID :=
    fun hid he => h₀ (he ▸ hid)
  refine ⟨h.elsewhere.trans (elsewhere_of_old h₀ hb), ⟨image', hb.self⟩, fun id b hid hb' hn => ?_,
    fun c hc => ?_⟩
  · exact h.news id b hid (hb.other (hne hid) ▸ hb') hn
  · obtain ⟨hc₀, b, hbc, hn⟩ := h.present c hc
    exact ⟨hc₀, b, (hb.other (hne hc₀)).trans hbc, hn⟩

/-- The container of this run under the service's name appeared, or changed its life. -/
theorem Stage.put_new (h : Stage w₀ s w₁ name life new v)
    (h₀ : w₀.box s.replaces.containerID ≠ none) (hnew : ∀ c', new = some c' → c' = c)
    (hc₀ : w₀.box c = none) {b : Box} (hn : b.name = s.containerName)
    (hb : v.Becomes c (some b) w') : Stage w₀ s w₁ name life (some c) w' := by
  have hne : s.replaces.containerID ≠ c := fun he => h₀ (he ▸ hc₀)
  refine ⟨h.elsewhere.trans (elsewhere_of_named hb ?_ fun hx => absurd hc₀ hx), ?_,
    fun id b' hid hb' hn' => ?_, ?_⟩
  · rintro b' ⟨⟩
    exact hn
  · rw [hb.other hne]
    exact h.old
  · by_cases he : id = c
    · rw [he]
    · exact absurd (hnew id (h.news id b' hid (hb.other he ▸ hb') hn')) he
  · rintro c' ⟨⟩
    exact ⟨hc₀, b, hb.self, hn⟩

/-- A container under the service's name that is not the replaced one went away; from before the run
only if it was never started. -/
theorem Stage.remove_named (h : Stage w₀ s w₁ name life new v) {b : Box}
    (hne : c ≠ s.replaces.containerID) (hbox : v.box c = some b) (hn : b.name = s.containerName)
    (hlife : w₀.box c ≠ none → b.life = .created) (hb : v.Becomes c none w') :
    Stage w₀ s w₁ name life none w' := by
  refine ⟨h.elsewhere.trans (elsewhere_of_named hb (fun _ hx => by cases hx)
    fun hx => ⟨b, hbox, hn, hlife hx⟩), ?_, fun id b' hid hb' hn' => ?_, fun c hc => by cases hc⟩
  · rw [hb.other hne.symm]
    exact h.old
  · -- Names are used once, so no other container has the service's.
    by_cases he : id = c
    · rw [he, hb.self] at hb'
      cases hb'
    · rw [hb.other he] at hb'
      exact absurd (v.unique id c b' b hb' hbox (hn'.trans hn.symm)) he

/-- No container of this run is left under a name nothing has. -/
theorem Stage.none_of_not_named (h : Stage w₀ s w₁ name life new w)
    (hn : ¬w.Named s.containerName) : new = none := by
  cases new with
  | none => rfl
  | some c =>
    obtain ⟨-, b, hb, hbn⟩ := h.present c rfl
    exact absurd ⟨c, b, hb, hbn⟩ hn

/-- The container under the service's name is the one of this run, if there is one. -/
theorem Stage.new_eq (h : Stage w₀ s w₁ name life (some c) w) {id : String} {b : Box}
    (hb : w.box id = some b) (hn : b.name = s.containerName) : id = c := by
  obtain ⟨-, b', hb', hn'⟩ := h.present c rfl
  exact w.unique id c b b' hb hb' (hn.trans hn'.symm)

/-- No container of this run is left when the replaced one has the service's name. -/
theorem Stage.none_of_name (h : Stage w₀ s w₁ s.containerName life new w)
    (h₀ : w₀.box s.replaces.containerID ≠ none) : new = none := by
  cases new with
  | none => rfl
  | some =>
    obtain ⟨image, hbox⟩ := h.old
    obtain rfl := h.new_eq hbox rfl
    exact absurd (h.present _ rfl).1 h₀

/-! ## Posts -/

variable {α : Type} {a : Posted α} {effect : World → Prop}

theorem Posted.not_refused : a.refused = false ↔ a.err = none ∧ a.status < 400 := by
  simp [Posted.refused]

theorem Took.effect_of_not_refused (h : Took a effect v w') (ha : a.refused = false) :
    effect w' := by
  cases h with
  | done _ he => exact he
  | refused hr => rw [ha] at hr; cases hr

/-- Where a post leads from `x` if its effect leads to `y`. -/
theorem Took.leads {ι : Type} {P : ι → World → Prop} {x y : ι} (h : Took a effect v w')
    (hx : P x v) (hy : effect w' → P y w') :
    ∃ z, P z w' ∧ (a.refused = false → z = y) ∧ (400 ≤ a.status → z = x) ∧ (z = x ∨ z = y) := by
  cases h with
  | done _ he => exact ⟨y, hy he, fun _ => rfl, fun h4 => by omega, .inr rfl⟩
  | refused hr => exact ⟨x, hx, fun hn => by simp [hr] at hn, fun _ => rfl, .inl rfl⟩

/-! ## Requests of a replacement -/

variable (h₀ : w₀.box s.replaces.containerID ≠ none)
include h₀

section

variable (h : Stage w₀ s w₁ name life new w)
include h

theorem Stage.rename_old {n : String} {a : Posted Unit}
    (ht : Truthful w₀ resolve (.rename s.replaces.containerID n) w a w') :
    ∃ n', Stage w₀ s w₁ n' life new w' ∧ (a.refused = false → n' = n) ∧
      (400 ≤ a.status → n' = name) ∧ (n' = name ∨ n' = n) := by
  obtain ⟨v, hd, ha⟩ := ht
  have hv := h.drift h₀ hd
  obtain ⟨image, hbox⟩ := hv.old
  refine Took.leads ha hv ?_
  rintro ⟨id, b, hf, hb⟩
  obtain ⟨rfl, rfl⟩ := hf.of_id hbox
  exact hv.set_old h₀ hb

theorem Stage.stop_old {g : Int} {a : Posted Unit}
    (ht : Truthful w₀ resolve (.stop s.replaces.containerID g) w a w') :
    ∃ l, Stage w₀ s w₁ name l new w' ∧
      (a.refused = false → l = (if life.up then .exited else life) ∧ (life.up ↔ a.status ≠ 304)) ∧
      (400 ≤ a.status → l = life) ∧ (l = life ∨ life.up = true ∧ l = .exited) := by
  obtain ⟨v, hd, ha⟩ := ht
  have hv := h.drift h₀ hd
  obtain ⟨image, hbox⟩ := hv.old
  have heff : ∀ w', (∃ id b, v.Finds s.replaces.containerID id b ∧
      if b.life.up then (a.err = none → a.status ≠ 304) ∧
        v.Becomes id (some { b with life := .exited }) w'
      else (a.err = none → a.status = 304) ∧ w' = v) →
      Stage w₀ s w₁ name (if life.up then .exited else life) new w' ∧
        (a.err = none → (life.up ↔ a.status ≠ 304)) := by
    rintro w' ⟨id, b, hf, hb⟩
    obtain ⟨rfl, rfl⟩ := hf.of_id hbox
    cases hup : life.up with
    | true =>
      simp only [hup] at hb
      exact ⟨hv.set_old h₀ hb.2, fun hn => by simp [hb.1 hn]⟩
    | false =>
      simp only [hup] at hb
      obtain ⟨hs, rfl⟩ := hb
      exact ⟨hv, fun hn => by simp [hs hn]⟩
  obtain ⟨l, hl, hdone, hans, hor⟩ := Took.leads (P := fun l => Stage w₀ s w₁ name l new) ha hv
    fun he => (heff w' he).1
  refine ⟨l, hl, fun hr => ⟨hdone hr, ?_⟩, hans, ?_⟩
  · refine (heff w' (Took.effect_of_not_refused ha hr)).2 ?_
    exact (Posted.not_refused.mp hr).1
  · rcases hor with rfl | rfl
    · exact .inl rfl
    · cases life.up <;> simp

theorem Stage.start_old {a : Posted Unit}
    (ht : Truthful w₀ resolve (.start s.replaces.containerID) w a w') :
    ∃ l, Stage w₀ s w₁ name l new w' ∧ (a.refused = false → l = life.started) := by
  obtain ⟨v, hd, ha⟩ := ht
  have hv := h.drift h₀ hd
  obtain ⟨image, hbox⟩ := hv.old
  have hlead := Took.leads (P := fun l => Stage w₀ s w₁ name l new) ha hv <| by
    rintro ⟨id, b, hf, hb⟩
    obtain ⟨rfl, rfl⟩ := hf.of_id hbox
    exact hv.set_old h₀ hb
  obtain ⟨l, hl, hdone, -⟩ := hlead
  exact ⟨l, hl, hdone⟩

theorem Stage.pause_old {a : Posted Unit}
    (ht : Truthful w₀ resolve (.pause s.replaces.containerID) w a w') :
    ∃ l, Stage w₀ s w₁ name l new w' ∧ (a.refused = false → l = .paused) := by
  obtain ⟨v, hd, ha⟩ := ht
  have hv := h.drift h₀ hd
  obtain ⟨image, hbox⟩ := hv.old
  have hlead := Took.leads (P := fun l => Stage w₀ s w₁ name l new) ha hv <| by
    rintro ⟨id, b, hf, -, hb⟩
    obtain ⟨rfl, rfl⟩ := hf.of_id hbox
    exact hv.set_old h₀ hb
  obtain ⟨l, hl, hdone, -⟩ := hlead
  exact ⟨l, hl, hdone⟩

/-- The removal of a container under the service's name, never started if it is from before. -/
theorem Stage.remove_found {force : Bool} {a : Posted Unit}
    {b : Box} (hne : c ≠ s.replaces.containerID) (hbox : w.box c = some b)
    (hn : b.name = s.containerName) (hlife : w₀.box c ≠ none → b.life = .created)
    (ht : Truthful w₀ resolve (.remove c force) w a w') :
    ∃ new', Stage w₀ s w₁ name life new' w' ∧
      ((a.err.isNone && (a.status < 400 || a.status == 404)) = true → new' = none) ∧
      (new' = new ∨ new' = none) := by
  obtain ⟨v, hd, ha, hmiss⟩ := ht
  have hv := h.drift h₀ hd
  obtain ⟨b', hbox', hn', hlife'⟩ : ∃ b', v.box c = some b' ∧ b'.name = s.containerName ∧
      (w₀.box c ≠ none → b'.life = .created) := by
    cases hvb : v.box c with
    | none => rw [(hd.gone c).mp hvb] at hbox; cases hbox
    | some b' =>
      obtain ⟨hname, -, hcreated⟩ := hd.same c b b' hbox hvb
      exact ⟨b', rfl, hname.trans hn, fun hx => hcreated.mpr (hlife hx)⟩
  obtain ⟨new', hnew, hdone, -, hor⟩ := Took.leads (y := none)
    ha hv <| by
      rintro ⟨id, b'', hf, -, hb⟩
      obtain ⟨rfl, rfl⟩ := hf.of_id hbox'
      exact hv.remove_named hne hbox' hn' hlife' hb
  refine ⟨new', hnew, fun hok => ?_, hor⟩
  simp only [Bool.and_eq_true, Option.isNone_iff_eq_none, Bool.or_eq_true, decide_eq_true_eq,
    beq_iff_eq] at hok
  obtain ⟨hn, hs | hs⟩ := hok
  · exact hdone (by simp [Posted.refused, hn]; omega)
  · -- It is there, so the daemon cannot say it is missing.
    have := (hmiss hn hs).1
    rw [hbox'] at this
    cases this

end

theorem Stage.start_new (h : Stage w₀ s w₁ name life (some c) w) {a : Posted Unit}
    (ht : Truthful w₀ resolve (.start c) w a w') : Stage w₀ s w₁ name life (some c) w' := by
  obtain ⟨v, hd, ha⟩ := ht
  have hv := h.drift h₀ hd
  obtain ⟨hc₀, b, hbox, hn⟩ := hv.present c rfl
  cases ha with
  | done _ he =>
    obtain ⟨id, b', hf, hb⟩ := he
    obtain ⟨rfl, rfl⟩ := hf.of_id hbox
    refine hv.put_new h₀ ?_ hc₀ (b := { b' with life := b'.life.started }) hn hb
    exact fun c' hc' => (Option.some.inj hc').symm
  | refused => exact hv

omit h₀ in
theorem Fresh.drift {image : String} (h : Fresh image new w) (hd : Drifts w₀ w v) :
    Fresh image new v := by
  intro c b hc hb
  obtain ⟨b', hb', -, himage, hlife⟩ := hd.back hb
  obtain ⟨hl, hi⟩ := h c b' hc hb'
  exact ⟨hlife.mpr hl, himage.trans hi⟩

/-- A create leaves a container under the service's name or none. -/
theorem Stage.create (h : Stage w₀ s w₁ name life none w) {body : ContainerCreate}
    {a : Posted String} (ht : Truthful w₀ resolve (.create s.containerName body) w a w') :
    ∃ new', Stage w₀ s w₁ name life new' w' ∧ Fresh (resolve body.image) new' w' ∧
      (a.refused = false → new' = some a.out ∧ a.status = 201) ∧
      (400 ≤ a.status → new' = none) := by
  obtain ⟨v, hd, ha, hcreated⟩ := ht
  have hv := h.drift h₀ hd
  cases ha with
  | done hs he =>
    obtain ⟨id, -, hid₀, hout, hb⟩ := he
    refine ⟨some id, hv.put_new h₀ nofun hid₀ rfl hb, ?_, fun hr => ?_, fun h4 => by omega⟩
    · rintro c b ⟨⟩ hbox
      obtain rfl := Option.some.inj (hb.self.symm.trans hbox)
      exact ⟨rfl, rfl⟩
    · obtain ⟨hn, hs⟩ := Posted.not_refused.mp hr
      exact ⟨by rw [hout hn], hcreated hn hs⟩
  | refused hr =>
    refine ⟨none, hv, fun c b hc => (by cases hc), fun hn => ?_, fun _ => rfl⟩
    rw [hr] at hn
    cases hn

theorem Stage.read_old (h : Stage w₀ s w₁ name life new w) {i : Inspection}
    (ht : Truthful w₀ resolve (.inspect s.replaces.containerID) w (.ok i) w') :
    i.name = "/" ++ name ∧ ∃ st, i.state = some st ∧ st.running = life.up ∧
      st.paused = decide (life = .paused) := by
  obtain ⟨id, b, hf, hr⟩ := ht.read
  obtain ⟨image, hbox⟩ := (h.drift h₀ (ht.drifts rfl)).old
  obtain ⟨rfl, rfl⟩ := hf.of_id hbox
  obtain ⟨st, hst, hrun, hpaused, -⟩ := hr.state
  exact ⟨hr.name_eq, st, hst, hrun, hpaused⟩

end Service

end KyYard.Docker
