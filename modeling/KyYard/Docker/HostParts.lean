import KyYard.Docker.Stage

/-!
# The parts of a run on a host

What each part of a replacement does on a host whose daemon tells the truth or loses its answer
(`host`): from which stage it leads to which, and what its own report of success says. A part that
undoes something reports success only if it is undone.

The steps of the run have to be `Careful`: a rename that parks the old container, a stop, and a create
under a name that is not the old container's, take no effect when their answer is lost by a broken
connection. The adapter reads the container again only after a lost answer that it counts as
unanswered, a cancelled run or a deadline; a broken connection it counts as a failure of the call.
-/

namespace KyYard.Docker

open Foundation Protocol Stateful

/-! ## The contract of a host -/

/-- An answer lost by a broken connection hides no effect of the requests that are not looked at
again. -/
def Careful (req : DeploymentRequest) (w₀ : World) : (q : Req) → World → Ans q → World → Prop
  | .rename ref name, w, a, w' => a.err = some .connection →
      (∃ s ∈ req.services, ref = s.replaces.containerID ∧ name = parked req s.containerName) →
      Drifts w₀ w w'
  | .stop _ _, w, a, w' => a.err = some .connection → Drifts w₀ w w'
  | .create name _, w, a, w' => a.err = some .connection →
      (∀ s ∈ req.services, s.containerName = name →
        ∀ b, w₀.box s.replaces.containerID = some b → unparkedName b.name = name) ∨
      Drifts w₀ w w'
  | _, _, _, _ => True

/-- The contract of such a host: it takes any request. -/
def host (req : DeploymentRequest) (w₀ : World) (resolve : String → String) :
    Contract Req Ans World where
  owed _ _ := True
  step q w a w' := Truthful w₀ resolve q w a w' ∧ Careful req w₀ q w a w'

section Parts

variable {req : DeploymentRequest} {w₀ : World} {resolve : String → String}

/-- A part that starts with a request. -/
theorem wp_host {α : Type} {q : Req} {f : Ans q → Run α} {Q : α → DeployRun → World → Prop}
    {r : DeployRun} {w : World}
    (h : ∀ a w', Truthful w₀ resolve q w a w' → Careful req w₀ q w a w' →
      wp (host req w₀ resolve) (f a) Q r w') : wp (host req w₀ resolve) (ask q >>= f) Q r w :=
  wp_ask_bind trivial fun a w' ht => h a w' ht.1 ht.2

/-- What the first phase settles of a service that is to be recreated: the container it replaces as
it was before the run, and the image of its create request. -/
structure Ready (req : DeploymentRequest) (w₀ : World) (resolve : String → String) (p : Prepared)
    (before : Life) : Prop where
  serves : Serves req p.s
  recreates : run req p.s = false
  named : validContainerHexID p.s.containerName = false
  box : ∃ image, w₀.box p.s.replaces.containerID = some ⟨p.name, image, before⟩
  image : resolve (bodyFor req p).image = p.s.imageID

theorem Ready.there {p : Prepared} {before : Life} (h : Ready req w₀ resolve p before) :
    w₀.box p.s.replaces.containerID ≠ none := by
  obtain ⟨image, hbox⟩ := h.box
  rw [hbox]
  nofun

variable {p : Prepared} {w₁ w : World} {name : String} {life : Life} {new : Option String}
  {c : String} {r : DeployRun}
variable (h₀ : w₀.box p.s.replaces.containerID ≠ none)
include h₀

/-! ## Putting the old container back -/

theorem unpark_spec (h : Stage w₀ p.s w₁ name life new w) :
    wp (host req w₀ resolve) (unpark p) (fun ok r' w' => r' = r ∧ ∃ name',
      Stage w₀ p.s w₁ name' life new w' ∧ (ok = true → name' = unparkedName p.name)) r w := by
  refine wp_host fun a w' ht _ => ?_
  obtain ⟨name', hs, hdone, -⟩ := h.rename_old h₀ ht
  exact ⟨rfl, name', hs, fun hok => hdone (by simpa using hok)⟩

theorem revive_spec (h : Stage w₀ p.s w₁ name life new w) (paused : Bool) :
    wp (host req w₀ resolve) (revive p paused) (fun ok r' w' => r' = r ∧ ∃ life',
      Stage w₀ p.s w₁ name life' new w' ∧
      (ok = true → life' = if paused then .paused else life.started)) r w := by
  refine wp_host fun a w' ht _ => ?_
  obtain ⟨l, hs, hdone⟩ := h.start_old h₀ ht
  split
  · exact ⟨rfl, l, hs, nofun⟩
  next hr =>
  split
  · next hp =>
    refine ⟨rfl, l, hs, fun _ => ?_⟩
    rw [if_neg (by simpa using hp)]
    exact hdone (by simpa using hr)
  · next hp =>
    refine wp_host fun b w'' ht' _ => ?_
    obtain ⟨l', hs', hdone'⟩ := hs.pause_old h₀ ht'
    refine ⟨rfl, l', hs', fun hok => ?_⟩
    rw [if_pos (by simpa using hp)]
    exact hdone' (by simpa using hok)

/-- A read of the old container for a restore. -/
theorem current_old_spec (h : Stage w₀ p.s w₁ name life new w) :
    wp (host req w₀ resolve) (current p.s.replaces.containerID) (fun x r' w' => r' = r ∧
      Stage w₀ p.s w₁ name life new w' ∧
      ∀ now, x = .ok (some now) → now.running = life.up ∧ now.name = "/" ++ name) r w := by
  refine wp_host fun a w' ht _ => ?_
  have hs := h.drift h₀ (ht.drifts rfl)
  split
  · exact ⟨rfl, hs, nofun⟩
  · obtain ⟨hname, st, hst, hrun, -⟩ := h.read_old h₀ ht
    refine ⟨rfl, hs, fun now hnow => ?_⟩
    simp only [hst, Option.map_some, Except.ok.injEq, Option.some.injEq] at hnow
    subst hnow
    exact ⟨hrun, hname⟩

omit h₀ in
/-- A stopped container that is started, and paused if it was, is as it was. -/
theorem Life.revived {before : Life} (hup : before.up = true) :
    (if decide (before = .paused) then .paused else Life.started .exited) = before := by
  cases before <;> first | rfl | cases hup

theorem reviveIfStopped_spec {before : Life} (hup : before.up = true)
    (hl : life = before ∨ life = .exited) (h : Stage w₀ p.s w₁ name life new w) (grace : Int) :
    wp (host req w₀ resolve) (reviveIfStopped p (decide (before = .paused)) grace)
      (fun ok r' w' => r' = r ∧ ∃ life', Stage w₀ p.s w₁ name life' new w' ∧
        (ok = true → life' = before)) r w := by
  have hrevive : ∀ {w}, Stage w₀ p.s w₁ name life new w → life.up = false →
      wp (host req w₀ resolve) (revive p (decide (before = .paused)))
        (fun ok r' w' => r' = r ∧ ∃ life', Stage w₀ p.s w₁ name life' new w' ∧
          (ok = true → life' = before)) r w := by
    intro w h hdown
    have hl : life = .exited := hl.resolve_left (by rintro rfl; simp [hup] at hdown)
    subst hl
    refine wp_mono (revive_spec h₀ h _) ?_
    rintro ok r' w' ⟨rfl, l, hs, hok⟩
    exact ⟨rfl, l, hs, fun ho => (hok ho).trans (Life.revived hup)⟩
  have hstays : life.up = true → life = before := fun hu =>
    hl.resolve_right (by rintro rfl; cases hu)
  unfold reviveIfStopped
  refine wp_host fun opened w' ht _ => ?_
  have h := h.drift h₀ (ht.drifts rfl)
  rw [wp_bind]
  refine wp_mono (current_old_spec h₀ h) ?_
  rintro x r' w' ⟨rfl, h, hnow⟩
  split
  · exact ⟨rfl, life, h, nofun⟩
  · exact ⟨rfl, life, h, nofun⟩
  · next now =>
    obtain ⟨hrun, -⟩ := hnow now rfl
    rw [wp_ite]
    split
    · next hr =>
      have hu : life.up = true := by rw [← hrun]; exact hr
      refine wp_host fun t w' ht _ => ?_
      have h := h.drift h₀ (ht.drifts rfl)
      dsimp only
      rw [wp_ite]
      split
      · exact ⟨rfl, life, h, fun _ => hstays hu⟩
      refine wp_host fun a w' ht _ => ?_
      have h := h.drift h₀ (ht.drifts rfl)
      split
      · -- It was stopped when the wait ended.
        obtain ⟨v, hd, rfl, id, b, hf, hb⟩ := ht
        obtain ⟨image, hbox⟩ := h.old
        obtain ⟨rfl, rfl⟩ := hf.of_id hbox
        exact hrevive h hb
      · exact ⟨rfl, life, h, fun _ => hstays hu⟩
      · exact ⟨rfl, life, h, nofun⟩
    · next hr => exact hrevive h (by rw [← hrun]; simpa using hr)

/-- After a rename that may have parked the old container. -/
theorem unparkIfParked_spec {parkedName : String} (hn : name = p.name ∨ name = parkedName)
    (h : Stage w₀ p.s w₁ name life new w) :
    wp (host req w₀ resolve) (unparkIfParked p parkedName) (fun ok r' w' => r' = r ∧ ∃ name',
      Stage w₀ p.s w₁ name' life new w' ∧
      (ok = true → name' = p.name ∨ name' = unparkedName p.name)) r w := by
  unfold unparkIfParked
  rw [wp_bind]
  refine wp_mono (current_old_spec h₀ h) ?_
  rintro x r' w' ⟨rfl, h, hnow⟩
  split
  · exact ⟨rfl, name, h, nofun⟩
  · exact ⟨rfl, name, h, nofun⟩
  · next now =>
    obtain ⟨-, hname⟩ := hnow now rfl
    split
    · next hne =>
      refine ⟨rfl, name, h, fun _ => .inl (hn.resolve_right ?_)⟩
      rintro rfl
      exact hne hname
    · refine wp_mono (unpark_spec h₀ h) ?_
      rintro ok r' w' ⟨rfl, name', hs, hok⟩
      exact ⟨rfl, name', hs, fun ho => .inr (hok ho)⟩

/-! ## Removing the new container -/

theorem discard_spec (h : Stage w₀ p.s w₁ name life (some c) w) (force : Bool) :
    wp (host req w₀ resolve) (discard c force) (fun ok r' w' => r' = r ∧ ∃ new',
      Stage w₀ p.s w₁ name life new' w' ∧ (ok = true → new' = none)) r w := by
  obtain ⟨hc₀, b, hb, hn⟩ := h.present c rfl
  have hne : c ≠ p.s.replaces.containerID := fun he => h₀ (he ▸ hc₀)
  refine wp_host fun a w' ht _ => ?_
  obtain ⟨new', hs, hdone, -⟩ := h.remove_found h₀ hne hb hn (fun hx => absurd hc₀ hx) ht
  exact ⟨rfl, new', hs, hdone⟩

/-- The removal of a never-started container read under the service's name. -/
theorem discard_found_spec {b : Box} (h : Stage w₀ p.s w₁ name life new w)
    (hne : c ≠ p.s.replaces.containerID) (hbox : w.box c = some b)
    (hn : b.name = p.s.containerName) (hlife : b.life = .created) :
    wp (host req w₀ resolve) (discard c false) (fun ok r' w' => r' = r ∧ ∃ new',
      Stage w₀ p.s w₁ name life new' w' ∧ (ok = true → new' = none) ∧
      (new' = new ∨ new' = none)) r w := by
  refine wp_host fun a w' ht _ => ?_
  obtain ⟨new', hs, hdone, hor⟩ := h.remove_found h₀ hne hbox hn (fun _ => hlife) ht
  exact ⟨rfl, new', hs, hdone, hor⟩

/-- A read of the service's name for a restore: the container under the name, or one found by the
start of its id when nothing has the name. -/
theorem current_name_spec (hname : validContainerHexID p.s.containerName = false) {image : String}
    (h : Stage w₀ p.s w₁ name life new w) (hfresh : Fresh image new w) :
    wp (host req w₀ resolve) (current p.s.containerName) (fun x r' w' => r' = r ∧
      Stage w₀ p.s w₁ name life new w' ∧ Fresh image new w' ∧
      (x = .error (.status 404) → ¬w'.Named p.s.containerName) ∧
      ∀ now, x = .ok (some now) → ∃ b, w'.box now.id = some b ∧ now.name = "/" ++ b.name ∧
        now.image = b.image ∧ (now.status = .created ↔ b.life = .created) ∧
        (b.name = p.s.containerName ∨ ¬w'.Named p.s.containerName)) r w := by
  refine wp_host fun a w' ht _ => ?_
  have hs := h.drift h₀ (ht.drifts rfl)
  have hf := hfresh.drift (ht.drifts rfl)
  split
  · refine ⟨rfl, hs, hf, ?_, nofun⟩
    rintro ⟨⟩
    obtain ⟨v, -, rfl, hmissing⟩ := ht
    exact (hmissing rfl).2
  · next i _ =>
    obtain ⟨id, b, hfind, hrep⟩ := ht.read
    obtain ⟨st, hst, -, -, hcreated⟩ := hrep.state
    refine ⟨rfl, hs, hf, nofun, fun now hnow => ?_⟩
    simp only [hst, Option.map_some, Except.ok.injEq, Option.some.injEq] at hnow
    subst hnow
    have hid : (ContainerNow.of i st).id = id := hrep.id_eq
    rw [hid]
    exact ⟨b, hfind.1, hrep.name_eq, hrep.image_eq, hcreated, hfind.by_name hname⟩

/-- What an unanswered create left is removed, or nothing of this run is there. -/
theorem settle_spec (hname : validContainerHexID p.s.containerName = false)
    (h : Stage w₀ p.s w₁ name life new w) (hfresh : Fresh p.s.imageID new w) {outcome : Outcome}
    (hu : unanswered outcome = true) :
    wp (host req w₀ resolve) (settle p.s "" outcome) (fun ok r' w' => r' = r ∧ ∃ new',
      Stage w₀ p.s w₁ name life new' w' ∧ (ok = true → new' = none)) r w := by
  unfold settle
  rw [if_neg (by simp [hu]), wp_bind]
  refine wp_mono (current_name_spec h₀ hname h hfresh) ?_
  rintro x r' w ⟨rfl, h, hfresh, hmissing, hnow⟩
  split
  · exact ⟨rfl, new, h, fun _ => h.none_of_not_named (hmissing rfl)⟩
  · exact ⟨rfl, new, h, nofun⟩
  · exact ⟨rfl, new, h, nofun⟩
  next now =>
  obtain ⟨b, hbox, hnm, himage, hcreated, hfound⟩ := hnow now rfl
  split
  · exact ⟨rfl, new, h, nofun⟩
  -- Whatever the read shows that is not the container of this run, there is none then.
  have hkept : (∀ c, new = some c → now.id = c → False) →
      (b.name = p.s.containerName ∨ ¬w.Named p.s.containerName) → new = none := by
    intro hother hfound
    cases hnew : new with
    | none => rfl
    | some c =>
      rw [hnew] at h
      rcases hfound with hn | hn
      · exact absurd (h.new_eq hbox hn) (hother c hnew)
      · cases h.none_of_not_named hn
  split
  · next hst =>
    refine ⟨rfl, new, h, fun _ => hkept (fun c hc hid => ?_) hfound⟩
    exact hst (hcreated.mpr (hfresh c b hc (hid ▸ hbox)).1)
  next hst =>
  split
  · next hother =>
    refine ⟨rfl, new, h, fun _ => hkept (fun c hc hid => ?_) hfound⟩
    obtain ⟨-, hx | hx | hx⟩ := hother
    · subst hc
      obtain ⟨-, b', hb', hn'⟩ := h.present c rfl
      obtain rfl := Option.some.inj (hbox.symm.trans (hid ▸ hb'))
      exact hx (by rw [hnm, hn'])
    · exact hx (himage.trans (hfresh c b hc (hid ▸ hbox)).2)
    · subst hc
      exact h₀ (by rw [← hx, hid]; exact (h.present c rfl).1)
  · next hsame =>
    have hboth : b.name = p.s.containerName ∧ now.id ≠ p.s.replaces.containerID := by
      simp only [true_and, not_or, not_not] at hsame
      obtain ⟨hn, -, hid⟩ := hsame
      exact ⟨String.append_right_inj "/" |>.mp (hnm.symm.trans hn), hid⟩
    refine wp_mono (discard_found_spec h₀ h hboth.2 hbox hboth.1 (hcreated.mp (not_not.mp hst))) ?_
    rintro ok r' w' ⟨rfl, new', hs, hok, -⟩
    exact ⟨rfl, new', hs, hok⟩

/-! ## The parts of a replacement -/

omit h₀

variable {before : Life} (hp : Ready req w₀ resolve p before)
include hp

/-- What an undo may find: a container it knows, one an unanswered create left, or none, unless the
old container cannot get its name back beside it. -/
structure Undoable (p : Prepared) (created : String) (outcome : Outcome) (new : Option String)
    (w : World) : Prop where
  known : created ≠ "" → new = some created
  fresh : created = "" → unanswered outcome = true → Fresh p.s.imageID new w
  answered : created = "" → unanswered outcome = false →
    new = none ∨ unparkedName p.name = p.s.containerName

variable {created : String}

theorem discardNew_spec (h : Stage w₀ p.s w₁ name life new w)
    {outcome : Outcome} (hu : Undoable p created outcome new w) :
    wp (host req w₀ resolve) (discardNew p.s created outcome) (fun ok r' w' => r' = r ∧ ∃ new',
      Stage w₀ p.s w₁ name life new' w' ∧
      (ok = true → new' = none ∨ unparkedName p.name = p.s.containerName)) r w := by
  unfold discardNew
  split
  · next hc =>
    obtain rfl := hu.known hc
    refine wp_mono (discard_spec hp.there h true) ?_
    rintro ok r' w' ⟨rfl, new', hs, hok⟩
    exact ⟨rfl, new', hs, fun ho => .inl (hok ho)⟩
  next hc =>
  have hc := not_not.mp hc
  split
  · next hun =>
    refine wp_mono (settle_spec hp.there hp.named h (hu.fresh hc hun) hun) ?_
    rintro ok r' w' ⟨rfl, new', hs, hok⟩
    exact ⟨rfl, new', hs, fun ho => .inl (hok ho)⟩
  · next hun => exact ⟨rfl, new, h, fun _ => hu.answered hc (by simpa using hun)⟩

theorem undo_spec (h : Stage w₀ p.s w₁ name life new w) {outcome : Outcome}
    (hu : Undoable p created outcome new w) :
    wp (host req w₀ resolve) (undo req p created outcome) (fun ok r' w' => r' = r ∧
      ∃ name' new', Stage w₀ p.s w₁ name' life new' w' ∧
        (ok = true → name' = unparkedName p.name ∧ new' = none)) r w := by
  unfold undo
  rw [wp_bind]
  refine wp_mono (discardNew_spec hp h hu) ?_
  rintro discarded r' w' ⟨rfl, new', h, hgone⟩
  split
  · exact ⟨rfl, name, new', h, nofun⟩
  next hd =>
  rw [if_neg (by simp [hp.recreates])]
  refine wp_mono (unpark_spec hp.there h) ?_
  rintro ok r' w' ⟨rfl, name', hs, hok⟩
  refine ⟨rfl, name', new', hs, fun ho => ⟨hok ho, ?_⟩⟩
  rcases hgone (by simpa using hd) with hn | hn
  · exact hn
  · -- Both would have the service's name.
    rw [hok ho, hn] at hs
    exact hs.none_of_name hp.there

theorem reclaim_spec (h : Stage w₀ p.s w₁ name life none w) :
    wp (host req w₀ resolve) (reclaim req p)
      (fun _ r' w' => r' = r ∧ Stage w₀ p.s w₁ name life none w') r w := by
  unfold reclaim
  dsimp only
  split
  · exact ⟨rfl, h⟩
  rw [wp_bind]
  have hfresh : Fresh "" none w := fun c b hc => by cases hc
  refine wp_mono (current_name_spec hp.there hp.named h hfresh) ?_
  rintro x r' w ⟨rfl, h, -, -, hnow⟩
  split
  · exact ⟨rfl, h⟩
  · exact ⟨rfl, h⟩
  next now =>
  obtain ⟨b, hbox, hnm, -, hcreated, -⟩ := hnow now rfl
  split
  · exact ⟨rfl, h⟩
  next hmine =>
  simp only [not_or, not_not] at hmine
  obtain ⟨-, hid, hn, hst⟩ := hmine
  split
  · exact ⟨rfl, h⟩
  have hname : b.name = p.s.containerName :=
    (String.append_right_inj "/").mp (hnm.symm.trans hn)
  refine wp_mono (discard_found_spec hp.there h hid hbox hname (hcreated.mp hst)) ?_
  rintro ok r' w' ⟨rfl, new', hs, -, hor⟩
  obtain rfl : new' = none := hor.elim id id
  exact ⟨rfl, hs⟩

/-- What an answer to the create request says of the container of this run. -/
structure CreateAnswer (p : Prepared) (a : Posted String) (new : Option String) : Prop where
  done : a.refused = false → new = some a.out ∧ a.status = 201
  refused : 400 ≤ a.status → new = none
  broken : a.err = some .connection → new = none ∨ unparkedName p.name = p.s.containerName

theorem sendCreateRequest_spec (h : Stage w₀ p.s w₁ name life none w) {a : Posted String}
    {w' : World} (ht : Truthful w₀ resolve (.create p.s.containerName (bodyFor req p)) w a w')
    (hc : Careful req w₀ (.create p.s.containerName (bodyFor req p)) w a w') :
    ∃ new', Stage w₀ p.s w₁ name life new' w' ∧ Fresh p.s.imageID new' w' ∧
      CreateAnswer p a new' := by
  obtain ⟨new', hs, hfresh, hdone, hrefused⟩ := h.create hp.there ht
  rw [hp.image] at hfresh
  by_cases hb : a.err = some .connection
  · rcases hc hb with hname | hd
    · obtain ⟨s, hmem, -, hsc, hsr⟩ := hp.serves
      obtain ⟨image, hbox⟩ := hp.box
      refine ⟨new', hs, hfresh, hdone, hrefused, fun _ => .inr ?_⟩
      exact hname s hmem hsc _ (hsr ▸ hbox)
    · refine ⟨none, h.drift hp.there hd, fun c b hc => (by cases hc), fun hr => ?_, fun _ => rfl,
        fun _ => .inl rfl⟩
      rw [(Posted.not_refused.mp hr).1] at hb
      cases hb
  · exact ⟨new', hs, hfresh, hdone, hrefused, fun hx => absurd hx hb⟩

theorem postCreate_spec (h : Stage w₀ p.s w₁ name life none w) :
    wp (host req w₀ resolve) (postCreate req p) (fun a r' w' => r' = r ∧ ∃ new',
      Stage w₀ p.s w₁ name life new' w' ∧ Fresh p.s.imageID new' w' ∧ CreateAnswer p a new') r w := by
  refine wp_host fun first w' ht hc => ?_
  obtain ⟨new', hs, hfresh, hans⟩ := sendCreateRequest_spec hp h ht hc
  split
  · next h409 =>
    obtain rfl := hans.refused (by omega)
    rw [wp_bind]
    refine wp_mono (reclaim_spec hp hs) ?_
    rintro again r' w'' ⟨rfl, h⟩
    split
    · exact ⟨trivial, fun a v hv => ⟨rfl, sendCreateRequest_spec hp h hv.1 hv.2⟩⟩
    · exact ⟨rfl, none, h, fun c b hc => (by cases hc), hans⟩
  · exact ⟨rfl, new', hs, hfresh, hans⟩

omit hp in
theorem connectAll_stage (h₀ : w₀.box p.s.replaces.containerID ≠ none)
    (ns : List NetworkAttachmentSpec) :
    Keeps (host req w₀ resolve) (fun r' w => r' = r ∧ Stage w₀ p.s w₁ name life new w)
      (connectAll c ns) := by
  refine connectAll_keeps (fun n r' w hI => ?_) ns
  exact ⟨trivial, fun _ _ ht => ⟨hI.1, hI.2.drift h₀ (ht.1.drifts rfl)⟩⟩

theorem sendCreate_spec (h : Stage w₀ p.s w₁ name life none w) :
    wp (host req w₀ resolve) (sendCreate req p) (fun x r' w' => r' = r ∧ ∃ new',
      Stage w₀ p.s w₁ name life new' w' ∧
      (x.1.outcome = .succeeded → x.2 ≠ "" ∧ new' = some x.2) ∧
      Undoable p x.2 x.1.outcome new' w') r w := by
  unfold sendCreate
  rw [wp_bind]
  refine wp_mono (postCreate_spec hp h) ?_
  rintro a r' w ⟨rfl, new', h, hfresh, hans⟩
  rw [wp_ite]
  split
  · next herr =>
    refine ⟨rfl, new', h, fun hx => ?_, fun hx => absurd rfl hx, fun _ _ => hfresh, fun _ hu => ?_⟩
    · dsimp only at hx
      split at hx
      · cases hx
      exact absurd hx (outcomeFor_ne_succeeded _ _)
    · -- Not unanswered: a name conflict, another status, or a broken connection.
      dsimp only at hu
      split at hu
      · next h409 => exact .inl (hans.refused (by omega))
      cases he : a.err with
      | none =>
        refine .inl (hans.refused ?_)
        by_contra hlt
        have := (hans.done (Posted.not_refused.mpr ⟨he, by omega⟩)).2
        simp [he, this] at herr
      | some k =>
        rw [he] at hu
        cases k with
        | cancelled => cases hu
        | deadline => cases hu
        | connection => exact hans.broken he
  next hok =>
  simp only [not_or, Bool.not_eq_true, Option.isSome_eq_false_iff, Option.isNone_iff_eq_none] at hok
  obtain ⟨rfl, -⟩ := hans.done (Posted.not_refused.mpr ⟨hok.1, by omega⟩)
  obtain ⟨-, b, hb, -⟩ := h.present _ rfl
  have hhex := w.hex _ b hb
  rw [if_neg (by simp [hhex]), wp_bind]
  refine wp_mono (connectAll_stage hp.there _ r' w ⟨rfl, h⟩) ?_
  rintro answer r' w' ⟨rfl, h⟩
  have hne : a.out ≠ "" := by
    intro he
    rw [he] at hhex
    revert hhex
    decide
  exact ⟨rfl, some a.out, h, fun _ => ⟨hne, rfl⟩, fun _ => rfl, fun hx => absurd hx hne,
    fun hx => absurd hx hne⟩

theorem createStep_spec (h : Stage w₀ p.s w₁ name life none w) :
    wp (host req w₀ resolve) (createStep req p) (fun x r' w' => r' = r ∧ ∃ name' new',
      Stage w₀ p.s w₁ name' life new' w' ∧
      (x.1.outcome = .succeeded → x.2.created ≠ "" ∧ new' = some x.2.created) ∧
      (x.1.outcome ≠ .succeeded → x.2.restored = true →
        name' = unparkedName p.name ∧ new' = none)) r w := by
  have hguard : createGuard req p = pure none := by simp [createGuard, hp.recreates]
  unfold createStep
  rw [hguard, wp_bind, wp_pure]
  unfold createOrUndo
  rw [wp_bind]
  refine wp_mono (sendCreate_spec hp h) ?_
  rintro ⟨a, created⟩ r' w ⟨rfl, new', h, hdone, hu⟩
  rw [wp_ite]
  split
  · next hx => exact ⟨rfl, name, new', h, fun _ => hdone hx, fun hn => absurd hx hn⟩
  next hx =>
  rw [if_neg (by simp [hp.recreates]), wp_bind]
  refine wp_mono (undo_spec hp h hu) ?_
  rintro ok r' w' ⟨rfl, name', new'', hs, hok⟩
  exact ⟨rfl, name', new'', hs, fun hn => absurd hn hx, fun _ => hok⟩

/-- The recheck reads whether the old container is running and paused. -/
theorem recheck_spec (later : Nat) (ho : r.res.outcome = none)
    (h : Stage w₀ p.s w₁ name before none w) :
    wp (host req w₀ resolve) (recheck req p later) (fun x r' w' => r'.res.outcome = none ∧
      Stage w₀ p.s w₁ name before none w' ∧ (x.1.outcome = .succeeded →
        x.2.wasRunning = before.up ∧ x.2.paused = decide (before = .paused))) r w := by
  have hread : ∀ {r : DeployRun} {w}, r.res.outcome = none → Stage w₀ p.s w₁ name before none w →
      wp (host req w₀ resolve) (recheckContainer req p later) (fun x r' w' =>
        r'.res.outcome = none ∧ Stage w₀ p.s w₁ name before none w' ∧
        (x.1.outcome = .succeeded →
          x.2.wasRunning = before.up ∧ x.2.paused = decide (before = .paused))) r w := by
    intro r w ho h
    refine wp_host fun a w' ht _ => ?_
    have hs := h.drift hp.there (ht.drifts rfl)
    split
    · exact ⟨ho, hs, nofun⟩
    · exact ⟨ho, hs, fun hx => absurd hx (ReadError.outcome_ne_succeeded _)⟩
    · obtain ⟨-, st, hst, hrun, hpaused⟩ := h.read_old hp.there ht
      split
      · exact ⟨ho, hs, nofun⟩
      split
      · exact ⟨ho, hs, nofun⟩
      · refine wp_host fun t w'' ht' _ => ?_
        refine ⟨ho, hs.drift hp.there (ht'.drifts rfl), fun _ => ?_⟩
        simp only [hst]
        exact ⟨hrun, hpaused⟩
  refine wp_host fun now w' ht _ => ?_
  have h := h.drift hp.there (ht.drifts rfl)
  split
  · exact ⟨ho, h, nofun⟩
  unfold beginRun
  simp only [wp_bind, wp_get]
  split
  · refine ⟨trivial, fun _ w'' ht' => hread ho ?_⟩
    exact h.drift hp.there (ht'.1.drifts rfl)
  · exact hread ho h

/-- A rename that did not succeed left the old container under its name, or was undone. -/
theorem rename_spec (h : Stage w₀ p.s w₁ p.name life none w) :
    wp (host req w₀ resolve) (rename req p) (fun x r' w' => r' = r ∧ ∃ name',
      Stage w₀ p.s w₁ name' life none w' ∧
      (x.1.outcome ≠ .succeeded → x.2 = true →
        name' = p.name ∨ name' = unparkedName p.name)) r w := by
  unfold rename
  dsimp only
  split
  · exact ⟨rfl, p.name, h, fun hn => absurd rfl hn⟩
  refine wp_host fun a w' ht hc => ?_
  obtain ⟨name', hs, hdone, hrefused, hor⟩ := h.rename_old hp.there ht
  split
  · exact ⟨rfl, name', hs, fun hn => absurd rfl hn⟩
  next hr =>
  generalize hans : (if a.status = 409 then fail .nameReserved else outcomeFor a.err a.status) = answer
  split
  · rw [wp_bind]
    refine wp_mono (unparkIfParked_spec hp.there hor hs) ?_
    rintro ok r' w'' ⟨rfl, name'', hs', hok⟩
    exact ⟨rfl, name'', hs', fun _ => hok⟩
  next hu =>
  -- Answered, or lost by a broken connection: the name is as it was.
  by_cases hst : 400 ≤ a.status
  · exact ⟨rfl, name', hs, fun _ _ => .inl (hrefused hst)⟩
  rw [if_neg (by omega)] at hans
  rw [← hans] at hu
  cases he : a.err with
  | none => exact absurd (Posted.not_refused.mpr ⟨he, by omega⟩) (by simpa using hr)
  | some k =>
    rw [he] at hu
    cases k with
    | cancelled => exact absurd rfl hu
    | deadline => exact absurd rfl hu
    | connection =>
      obtain ⟨s, hmem, -, hsc, hsr⟩ := hp.serves
      have hd := hc he ⟨s, hmem, by rw [hsr], by rw [hsc]⟩
      exact ⟨rfl, p.name, h.drift hp.there hd, fun _ _ => .inl rfl⟩

/-- A stop that succeeded tells whether the old container was running; one that did not is undone, or
said not to be. -/
theorem stopStep_spec {now : Rechecked} (hc : created ≠ "")
    (hrun : now.wasRunning = before.up) (hpaused : now.paused = decide (before = .paused))
    (h : Stage w₀ p.s w₁ name before (some created) w) :
    wp (host req w₀ resolve) (stopStep req p created now) (fun x r' w' => r' = r ∧
      ∃ name' life' new', Stage w₀ p.s w₁ name' life' new' w' ∧
        (x.1.outcome = .succeeded → x.2.1 = before.up ∧ new' = some created ∧
          life' = if before.up then .exited else before) ∧
        (x.1.outcome ≠ .succeeded → x.2.2 = true →
          name' = unparkedName p.name ∧ life' = before ∧ new' = none)) r w := by
  refine wp_host fun a w' ht hcareful => ?_
  obtain ⟨life', hs, hdone, hrefused, hor⟩ := h.stop_old hp.there ht
  split
  · next hr =>
    obtain ⟨hl, hup⟩ := hdone (by simpa using hr)
    refine ⟨rfl, name, life', _, hs, fun _ => ⟨?_, rfl, hl⟩, fun hn => absurd rfl hn⟩
    cases hb : before.up <;> simp_all
  next hr =>
  -- Unless the stop went unanswered, the old container is as it was.
  obtain ⟨life', hs, hlife, hor⟩ : ∃ life', Stage w₀ p.s w₁ name life' (some created) w' ∧
      (unanswered (outcomeFor a.err a.status).outcome = false → life' = before) ∧
      (life' = before ∨ before.up = true ∧ life' = .exited) := by
    by_cases hb : a.err = some .connection
    · exact ⟨before, h.drift hp.there (hcareful hb), fun _ => rfl, .inl rfl⟩
    refine ⟨life', hs, fun hu => ?_, hor⟩
    cases he : a.err with
    | none =>
      refine hrefused ?_
      by_contra hlt
      exact hr (by simp [Posted.refused, he]; omega)
    | some k =>
      rw [he] at hu
      cases k with
      | cancelled => cases hu
      | deadline => cases hu
      | connection => exact absurd he hb
  rw [wp_bind]
  have hu : Undoable p created .skipped (some created) w' :=
    ⟨fun _ => rfl, fun hx => absurd hx hc, fun hx => absurd hx hc⟩
  refine wp_mono (undo_spec hp hs hu) ?_
  rintro undone r' w'' ⟨rfl, name', new', hs, hundone⟩
  split
  · next hno =>
    refine ⟨rfl, name', life', new', hs, fun hx => absurd hx (outcomeFor_ne_succeeded _ _), ?_⟩
    intro _ hok
    refine ⟨(hundone hok).1, ?_, (hundone hok).2⟩
    rcases hno with hno | hno
    · exact hlife (by simpa using hno)
    · rw [hrun] at hno
      exact hor.resolve_right fun hx => by simp [hx.1] at hno
  next hyes =>
  simp only [not_or, Bool.not_eq_true, Bool.not_eq_false', hrun] at hyes
  rw [wp_bind, hpaused]
  refine wp_mono (reviveIfStopped_spec hp.there hyes.2 (hor.imp_right And.right) hs now.grace) ?_
  rintro revived r' w''' ⟨rfl, life'', hs, hrevived⟩
  refine ⟨rfl, name', life'', new', hs, fun hx => absurd hx (outcomeFor_ne_succeeded _ _), ?_⟩
  intro _ hok
  simp only [Bool.and_eq_true] at hok
  exact ⟨(hundone hok.2).1, hrevived hok.1, (hundone hok.2).2⟩

/-- The rollback of a start that failed. -/
theorem putBack_spec
    (h : Stage w₀ p.s w₁ name (if before.up then .exited else before) (some created) w) :
    wp (host req w₀ resolve) (putBack p created before.up (decide (before = .paused)))
      (fun ok r' w' => r' = r ∧ ∃ name' life' new', Stage w₀ p.s w₁ name' life' new' w' ∧
        (ok = true → name' = unparkedName p.name ∧ life' = before ∧ new' = none)) r w := by
  unfold putBack
  rw [wp_bind]
  refine wp_mono (discard_spec hp.there h true) ?_
  rintro gone r' w' ⟨rfl, new', h, hgone⟩
  rw [wp_ite]
  split
  · exact ⟨rfl, name, _, new', h, nofun⟩
  next hg =>
  have hnew : new' = none := hgone (by simpa using hg)
  rw [wp_bind]
  refine wp_mono (unpark_spec hp.there h) ?_
  rintro unparked r' w'' ⟨rfl, name', h, hname⟩
  rw [wp_ite]
  split
  · next hup =>
    rw [if_pos hup] at h
    rw [wp_bind]
    refine wp_mono (revive_spec hp.there h _) ?_
    rintro revived r' w''' ⟨rfl, life', h, hlife⟩
    refine ⟨rfl, name', life', new', h, fun hok => ?_⟩
    simp only [Bool.and_eq_true] at hok
    exact ⟨hname hok.2, (hlife hok.1).trans (Life.revived hup), hnew⟩
  · next hup =>
    rw [if_neg hup] at h
    exact ⟨rfl, name', before, new', h, fun hok => ⟨hname hok, rfl, hnew⟩⟩

theorem removeStep_spec (h : Stage w₀ p.s w₁ name life new w) :
    wp (host req w₀ resolve) (removeStep p)
      (fun _ r' w' => r' = r ∧ Elsewhere w₀ p.s w₁ w') r w := by
  refine wp_host fun a w' ht _ => ?_
  obtain ⟨v, hd, ha, -⟩ := ht
  have hv := h.drift hp.there hd
  have he : Elsewhere w₀ p.s w₁ w' := by
    cases ha with
    | done _ he =>
      obtain ⟨image, hbox⟩ := hv.old
      obtain ⟨id, b, hf, -, hb⟩ := he
      obtain ⟨rfl, rfl⟩ := hf.of_id hbox
      exact hv.elsewhere.trans (elsewhere_of_old hp.there hb)
    | refused => exact hv.elsewhere
  split
  · exact ⟨rfl, he⟩
  · exact ⟨rfl, he⟩

end Parts

end KyYard.Docker
