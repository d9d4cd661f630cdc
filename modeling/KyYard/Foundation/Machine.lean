import Mathlib.Logic.Relation

/-!
# State machines with fallible operations

A `Machine` takes an operation and a state to the next state, or refuses the operation, which then
changes nothing. What every operation preserves holds along every run (`Steps.keeps`), and what
every operation does to a state it may meet composes over a run (`Steps.rel`). `run` executes a list
of operations. `restrict` allows an operation only in the states that meet a condition, and what the
allowed operations preserve holds along every restricted run (`restrict_keeps`).
-/

namespace KyYard.Foundation

universe u v w

/-! ## Guards -/

section Guards

variable {ε : Type u} {α : Type v} {p : Prop} [Decidable p] {e : ε} {x : Except ε α} {a : α}

@[simp]
theorem guard_error_eq_ok : (if p then .error e else x) = .ok a ↔ ¬ p ∧ x = .ok a := by
  by_cases hp : p <;> simp [hp]

@[simp]
theorem guard_else_error_eq_ok : (if p then x else .error e) = .ok a ↔ p ∧ x = .ok a := by
  by_cases hp : p <;> simp [hp]

theorem ok_of_guard {b : α} (h : (if p then .ok a else .error e) = Except.ok b) : p ∧ a = b :=
  (guard_else_error_eq_ok.1 h).imp_right Except.ok.inj

theorem map_eq_ok {β : Type w} {f : α → β} {b : β} :
    x.map f = .ok b ↔ ∃ a, x = .ok a ∧ f a = b := by
  cases x <;> simp [Except.map]

theorem mapError_eq_ok {ε' : Type w} {f : ε → ε'} : x.mapError f = .ok a ↔ x = .ok a := by
  cases x with
  | error => exact ⟨fun h => (by cases h), fun h => (by cases h)⟩
  | ok => exact ⟨fun h => congrArg _ (Except.ok.inj h), fun h => congrArg _ (Except.ok.inj h)⟩

/-- A fold that succeeds takes its first step and succeeds from there. -/
theorem foldlM_cons_eq_ok {β : Type v} {step : β → α → Except ε β} {l : List α} {b b' : β} :
    (a :: l).foldlM step b = .ok b' ↔ ∃ b₁, step b a = .ok b₁ ∧ l.foldlM step b₁ = .ok b' := by
  rw [List.foldlM_cons]
  cases hstep : step b a with
  | error =>
    constructor
    · intro h
      cases h
    · rintro ⟨b₁, h, -⟩
      cases h
  | ok b₁ =>
    constructor
    · exact fun h => ⟨b₁, rfl, h⟩
    · rintro ⟨b₂, h, hrest⟩
      obtain rfl := Except.ok.inj h
      exact hrest

/-- What each step of a fold keeps holds at its end. -/
theorem foldlM_keeps {β : Type v} {step : β → α → Except ε β} {I : β → Prop}
    (hstep : ∀ b a b', I b → step b a = .ok b' → I b') {l : List α} {b b' : β} (hb : I b)
    (h : l.foldlM step b = .ok b') : I b' := by
  induction l generalizing b with
  | nil =>
    obtain rfl := Except.ok.inj h
    exact hb
  | cons a l ih =>
    obtain ⟨b₁, ha, hrest⟩ := foldlM_cons_eq_ok.1 h
    exact ih (hstep b a b₁ hb ha) hrest

end Guards

/-! ## Machines -/

/-- States `σ`, operations `ι`, reasons for refusal `ε`. -/
structure Machine (σ : Type u) (ι : Type v) (ε : Type w) where
  step : ι → σ → Except ε σ

namespace Machine

variable {σ : Type u} {ι : Type v} {ε : Type w} (m : Machine σ ι ε)

/-- Some operation leads from one state to the other. -/
def Next (s s' : σ) : Prop := ∃ i, m.step i s = .ok s'

/-- Some operations, one after the other, lead from one state to the other. -/
def Steps : σ → σ → Prop := Relation.ReflTransGen m.Next

/-- A list of operations; a refused one is passed over. -/
def run (ops : List ι) (s : σ) : σ := ops.foldl (fun s i => (m.step i s).toOption.getD s) s

/-- The machine that also refuses an operation where a condition fails. -/
def restrict (C : σ → ι → Prop) [∀ s i, Decidable (C s i)] : Machine σ ι (Option ε) where
  step i s := if C s i then (m.step i s).mapError some else .error none

variable {m}

/-- What every operation preserves holds after any run. -/
theorem Steps.keeps {I : σ → Prop} (hI : ∀ i s s', I s → m.step i s = .ok s' → I s') {s s' : σ}
    (h : m.Steps s s') (hs : I s) : I s' := by
  induction h with
  | refl => exact hs
  | tail _ hnext ih =>
    obtain ⟨i, hi⟩ := hnext
    exact hI i _ _ ih hi

/-- What every operation does to a state that meets the invariant, a run does, if it composes. -/
theorem Steps.rel {I : σ → Prop} {R : σ → σ → Prop}
    (hI : ∀ i s s', I s → m.step i s = .ok s' → I s') (hrefl : ∀ s, R s s)
    (htrans : ∀ s t u, R s t → R t u → R s u)
    (hR : ∀ i s s', I s → m.step i s = .ok s' → R s s') {s s' : σ}
    (h : m.Steps s s') (hs : I s) : R s s' := by
  have both : I s' ∧ R s s' := by
    induction h with
    | refl => exact ⟨hs, hrefl s⟩
    | tail _ hnext ih =>
      obtain ⟨i, hi⟩ := hnext
      exact ⟨hI i _ _ ih.1 hi, htrans _ _ _ ih.2 (hR i _ _ ih.1 hi)⟩
  exact both.2

theorem steps_run (ops : List ι) (s : σ) : m.Steps s (m.run ops s) := by
  induction ops generalizing s with
  | nil => exact Relation.ReflTransGen.refl
  | cons i ops ih =>
    rw [run, List.foldl_cons]
    cases hi : m.step i s with
    | error => exact ih s
    | ok s' => exact Relation.ReflTransGen.head ⟨i, hi⟩ (ih s')

/-- An operation that succeeds leads to where a run of it alone ends. -/
theorem step_eq_run {i : ι} {s : σ} (h : (m.step i s).toOption.isSome = true) :
    m.step i s = .ok (m.run [i] s) := by
  cases hi : m.step i s with
  | error =>
    rw [hi] at h
    cases h
  | ok s' => simp [run, hi, Except.toOption]

theorem step_of_restrict {C : σ → ι → Prop} [∀ s i, Decidable (C s i)] {i : ι} {s s' : σ}
    (h : (m.restrict C).step i s = .ok s') : C s i ∧ m.step i s = .ok s' := by
  unfold restrict at h
  simp only at h
  split at h
  · next hc => exact ⟨hc, mapError_eq_ok.1 h⟩
  · cases h

/-- What every allowed operation preserves holds after any run of allowed operations. -/
theorem restrict_keeps {C : σ → ι → Prop} [∀ s i, Decidable (C s i)] {I : σ → Prop}
    (hI : ∀ i s s', I s → C s i → m.step i s = .ok s' → I s') {s s' : σ}
    (h : (m.restrict C).Steps s s') (hs : I s) : I s' := by
  apply h.keeps _ hs
  intro i t t' ht hstep
  obtain ⟨hc, hi⟩ := step_of_restrict hstep
  exact hI i t t' ht hc hi

end Machine

end KyYard.Foundation
