import Mathlib.Logic.Relation

/-!
# Programs that talk to an environment

`Prog Req Ans α` is a program that sends requests `q : Req`, is answered in `Ans q`, and ends with
a value. Nothing is assumed about the environment: a contract (`Contract`) says which requests the
program owes it in which state, and how a request may be answered and change that state.
`Prog.wp` is the weakest precondition of a program under a contract, computed by recursion on the
program, so that a proof about a program follows its text.

Two readings of a program are connected to it. `Prog.Exec` is an execution in a changing
environment state (`Prog.wp_exec`). `Prog.Runs` is the bare dialogue: the list of requests with the
answers they got, under no assumption on the answers (`Prog.wp_runs`); there the contract's state is
the dialogue so far, so `Contract.owed` speaks about what was sent and answered before a request.

`Stateful` adds a private state of the program, with the same rules.
-/

namespace KyYard.Foundation

/-- A program over requests `Req`, each answered in its own type. -/
inductive Prog (Req : Type) (Ans : Req → Type) (α : Type) : Type
  | ret (a : α) : Prog Req Ans α
  | ask (q : Req) (k : Ans q → Prog Req Ans α) : Prog Req Ans α

/-- A request with the answer it got. -/
structure Event (Req : Type) (Ans : Req → Type) where
  req : Req
  ans : Ans req

/-- What a program owes an environment in state `s`, and what the environment may do with a
request: answer it and move to another state. -/
structure Contract (Req : Type) (Ans : Req → Type) (σ : Type) where
  owed : Req → σ → Prop
  step : (q : Req) → σ → Ans q → σ → Prop

namespace Prog

variable {Req : Type} {Ans : Req → Type} {α β σ : Type}

/-- Sequential composition. -/
def bind (p : Prog Req Ans α) (f : α → Prog Req Ans β) : Prog Req Ans β :=
  match p with
  | ret a => f a
  | ask q k => ask q fun b => (k b).bind f

instance : Monad (Prog Req Ans) where
  pure := ret
  bind := bind

/-- One request. -/
def send (q : Req) : Prog Req Ans (Ans q) := ask q ret

/-- Weakest precondition: every request is owed where it is sent, and every end satisfies `Q`. -/
def wp (C : Contract Req Ans σ) (p : Prog Req Ans α) (Q : α → σ → Prop) (s : σ) : Prop :=
  match p with
  | ret a => Q a s
  | ask q k => C.owed q s ∧ ∀ b t, C.step q s b t → (k b).wp C Q t

@[simp] theorem wp_ret (C : Contract Req Ans σ) (a : α) (Q : α → σ → Prop) (s : σ) :
    (ret a : Prog Req Ans α).wp C Q s = Q a s := rfl

theorem wp_bind (C : Contract Req Ans σ) (p : Prog Req Ans α) (f : α → Prog Req Ans β)
    (Q : β → σ → Prop) (s : σ) : (p >>= f).wp C Q s ↔ p.wp C (fun a t => (f a).wp C Q t) s := by
  induction p generalizing s with
  | ret a => rfl
  | ask q k ih =>
    constructor
    · rintro ⟨ho, h⟩
      exact ⟨ho, fun b t hb => (ih b t).1 (h b t hb)⟩
    · rintro ⟨ho, h⟩
      exact ⟨ho, fun b t hb => (ih b t).2 (h b t hb)⟩

variable {p : Prog Req Ans α} {tr : List (Event Req Ans)}

/-- The rule of consequence. -/
theorem wp_mono (C : Contract Req Ans σ) {Q Q' : α → σ → Prop} {s : σ}
    (h : p.wp C Q s) (hQ : ∀ a t, Q a t → Q' a t) : p.wp C Q' s := by
  induction p generalizing s with
  | ret a => exact hQ a s h
  | ask q k ih => exact ⟨h.1, fun b t hb => ih b (h.2 b t hb)⟩

/-- Two postconditions of one program hold together. -/
theorem wp_and (C : Contract Req Ans σ) {Q Q' : α → σ → Prop} {s : σ}
    (h : p.wp C Q s) (h' : p.wp C Q' s) : p.wp C (fun a t => Q a t ∧ Q' a t) s := by
  induction p generalizing s with
  | ret a => exact ⟨h, h'⟩
  | ask q k ih => exact ⟨h.1, fun b t hb => ih b (h.2 b t hb) (h'.2 b t hb)⟩

/-- An execution of a program in an environment that moves by `step`: the requests with their
answers, the value, and the last environment state. -/
inductive Exec (step : (q : Req) → σ → Ans q → σ → Prop) :
    Prog Req Ans α → σ → List (Event Req Ans) → α → σ → Prop
  | ret (a : α) (s : σ) : Exec step (.ret a) s [] a s
  | ask {q : Req} {k : Ans q → Prog Req Ans α} {b : Ans q} {s t u : σ}
      {tr : List (Event Req Ans)} {a : α} :
      step q s b t → Exec step (k b) t tr a u → Exec step (.ask q k) s (⟨q, b⟩ :: tr) a u

/-- The dialogue of a program, with answers under no assumption. -/
inductive Runs : Prog Req Ans α → List (Event Req Ans) → α → Prop
  | ret (a : α) : Runs (.ret a) [] a
  | ask {q : Req} {k : Ans q → Prog Req Ans α} (b : Ans q) {tr : List (Event Req Ans)} {a : α} :
      Runs (k b) tr a → Runs (.ask q k) (⟨q, b⟩ :: tr) a

/-- An execution that meets its contract ends in the postcondition. -/
theorem wp_exec {C : Contract Req Ans σ} {Q : α → σ → Prop} {s t : σ}
    {a : α} (hw : p.wp C Q s) (h : Exec C.step p s tr a t) : Q a t := by
  induction h with
  | ret a s => exact hw
  | ask hb _ ih => exact ih (hw.2 _ _ hb)

/-- The dialogue of an execution. -/
theorem Exec.runs {step : (q : Req) → σ → Ans q → σ → Prop} {s t : σ}
    {a : α} (h : Exec step p s tr a t) : Runs p tr a := by
  induction h with
  | ret a s => exact .ret a
  | ask _ _ ih => exact .ask _ ih

/-- The execution in an environment that answers by a function of its own state. -/
def simulate {τ : Type} (answer : (q : Req) → τ → Ans q × τ) :
    Prog Req Ans α → τ → List (Event Req Ans) × α × τ
  | ret a, t => ([], a, t)
  | ask q k, t =>
    let b := answer q t
    let rest := simulate answer (k b.1) b.2
    (⟨q, b.1⟩ :: rest.1, rest.2)

/-- It is an execution under every rule its answers keep, seen through `view`. -/
theorem simulate_exec {τ : Type} {answer : (q : Req) → τ → Ans q × τ}
    {step : (q : Req) → σ → Ans q → σ → Prop} (view : τ → σ)
    (h : ∀ q t, step q (view t) (answer q t).1 (view (answer q t).2)) (p : Prog Req Ans α) (t : τ) :
    Exec step p (view t) (p.simulate answer t).1 (p.simulate answer t).2.1
      (view (p.simulate answer t).2.2) := by
  induction p generalizing t with
  | ret a => exact .ret a (view t)
  | ask q k ih => exact .ask (h q t) (ih (answer q t).1 (answer q t).2)

/-- The dialogue with an environment that answers by a function of the dialogue so far. -/
def play (answer : (q : Req) → List (Event Req Ans) → Ans q) (p : Prog Req Ans α)
    (h : List (Event Req Ans)) : List (Event Req Ans) × α :=
  let x := p.simulate (fun q h => (answer q h, h ++ [⟨q, answer q h⟩])) h
  (x.1, x.2.1)

theorem play_runs (answer : (q : Req) → List (Event Req Ans) → Ans q) (p : Prog Req Ans α)
    (h : List (Event Req Ans)) : Runs p (p.play answer h).1 (p.play answer h).2 :=
  (@simulate_exec _ _ _ _ _ _ (fun _ _ _ _ => True) id (fun _ _ => trivial) p h).runs

/-- The contract whose state is the dialogue so far: any answer may come. -/
def dialogue (owed : Req → List (Event Req Ans) → Prop) :
    Contract Req Ans (List (Event Req Ans)) where
  owed := owed
  step q h b h' := h' = h ++ [⟨q, b⟩]

/-- A program that meets a dialogue contract sends every request where it is owed, and its value
and whole dialogue satisfy the postcondition. -/
theorem wp_runs {owed : Req → List (Event Req Ans) → Prop}
    {Q : α → List (Event Req Ans) → Prop} {h : List (Event Req Ans)} {a : α}
    (hw : p.wp (dialogue owed) Q h) (hr : Runs p tr a) :
    Q a (h ++ tr) ∧ ∀ pre e post, tr = pre ++ e :: post → owed e.req (h ++ pre) := by
  induction hr generalizing h with
  | ret a =>
    refine ⟨by simpa using hw, fun pre e post he => ?_⟩
    simp at he
  | @ask q k b tr a _ ih =>
    obtain ⟨ho, hk⟩ := hw
    have hstep : (dialogue owed).step q h b (h ++ [⟨q, b⟩]) := rfl
    obtain ⟨hQ, hev⟩ := ih (hk b _ hstep)
    refine ⟨by simpa using hQ, fun pre e post he => ?_⟩
    cases pre with
    | nil =>
      obtain ⟨rfl, -⟩ := he
      rw [List.append_nil]
      exact ho
    | cons x pre =>
      simp only [List.cons_append, List.cons.injEq] at he
      obtain ⟨rfl, htr⟩ := he
      simpa using hev pre e post htr

end Prog

/-- A program with a private state `ρ`. -/
abbrev Stateful (Req : Type) (Ans : Req → Type) (ρ α : Type) : Type := StateT ρ (Prog Req Ans) α

namespace Stateful

variable {Req : Type} {Ans : Req → Type} {ρ α β σ : Type}

/-- One request, leaving the private state. -/
def send (q : Req) : Stateful Req Ans ρ (Ans q) := fun r => .ask q fun b => .ret (b, r)

/-- Weakest precondition over the private state and the environment's. -/
def wp (C : Contract Req Ans σ) (m : Stateful Req Ans ρ α) (Q : α → ρ → σ → Prop) (r : ρ) (s : σ) :
    Prop :=
  Prog.wp C (m r) (fun x t => Q x.1 x.2 t) s

variable (C : Contract Req Ans σ) (Q : α → ρ → σ → Prop)

@[simp] theorem wp_pure (a : α) : wp C (pure a : Stateful Req Ans ρ α) Q = Q a := rfl

@[simp] theorem wp_bind (m : Stateful Req Ans ρ β) (f : β → Stateful Req Ans ρ α) :
    wp C (m >>= f) Q = wp C m (fun b => wp C (f b) Q) := by
  funext r s
  exact propext (Prog.wp_bind C (m r) (fun x => f x.1 x.2) _ s)

@[simp] theorem wp_get (Q : ρ → ρ → σ → Prop) :
    wp C (get : Stateful Req Ans ρ ρ) Q = fun r s => Q r r s := rfl

@[simp] theorem wp_set (r' : ρ) (Q : PUnit → ρ → σ → Prop) :
    wp C (set r' : Stateful Req Ans ρ PUnit) Q = fun _ s => Q ⟨⟩ r' s := rfl

@[simp] theorem wp_modify (f : ρ → ρ) (Q : PUnit → ρ → σ → Prop) :
    wp C (modify f : Stateful Req Ans ρ PUnit) Q = fun r s => Q ⟨⟩ (f r) s := rfl

@[simp] theorem wp_ite (c : Prop) [Decidable c] (m m' : Stateful Req Ans ρ α) :
    wp C (if c then m else m') Q = if c then wp C m Q else wp C m' Q := by
  split <;> rfl

variable {C Q} {r : ρ} {s : σ}

variable {m : Stateful Req Ans ρ α}

theorem wp_mono {Q' : α → ρ → σ → Prop} (h : wp C m Q r s)
    (hQ : ∀ a r' t, Q a r' t → Q' a r' t) : wp C m Q' r s :=
  Prog.wp_mono C h fun x t hx => hQ x.1 x.2 t hx

theorem wp_and {Q' : α → ρ → σ → Prop} (h : wp C m Q r s)
    (h' : wp C m Q' r s) : wp C m (fun a r' t => Q a r' t ∧ Q' a r' t) r s :=
  Prog.wp_and C h h'

/-- A loop over a list keeps an invariant its body keeps. -/
theorem wp_forM {γ : Type} {f : γ → Stateful Req Ans ρ PUnit} {I : ρ → σ → Prop} :
    ∀ {l : List γ} {r : ρ} {s : σ}, I r s →
      (∀ x ∈ l, ∀ r s, I r s → wp C (f x) (fun _ => I) r s) →
      wp C (l.forM f) (fun _ => I) r s
  | [], _, _, hI, _ => hI
  | x :: l, r, s, hI, hf => by
    have h := hf x List.mem_cons_self r s hI
    show wp C (f x >>= fun _ => l.forM f) _ r s
    rw [wp_bind]
    exact wp_mono h fun _ r' t h' => wp_forM h' fun y hy => hf y (List.mem_cons_of_mem _ hy)

/-! ### Parts that keep an invariant -/

/-- The part meets its contract from every state that satisfies `I`, and ends in one. -/
def Keeps (C : Contract Req Ans σ) (I : ρ → σ → Prop) (m : Stateful Req Ans ρ α) : Prop :=
  ∀ r s, I r s → wp C m (fun _ => I) r s

variable {I : ρ → σ → Prop}

theorem Keeps.pure (a : α) : Keeps C I (Pure.pure a : Stateful Req Ans ρ α) := fun _ _ h => h

theorem Keeps.bind {m : Stateful Req Ans ρ β} {f : β → Stateful Req Ans ρ α} (hm : Keeps C I m)
    (hf : ∀ b, Keeps C I (f b)) : Keeps C I (m >>= f) := by
  intro r s h
  rw [wp_bind]
  exact wp_mono (hm r s h) fun b r' t h' => hf b r' t h'

theorem Keeps.ite {c : Prop} [Decidable c] {m' : Stateful Req Ans ρ α} (hm : Keeps C I m)
    (hm' : Keeps C I m') : Keeps C I (if c then m else m') := by
  split
  · exact hm
  · exact hm'

/-- A part that reads the private state keeps what it keeps for each value of it. -/
theorem Keeps.get {f : ρ → Stateful Req Ans ρ α} (h : ∀ r s, I r s → wp C (f r) (fun _ => I) r s) :
    Keeps C I (MonadState.get >>= f) := by
  intro r s hI
  exact h r s hI

end Stateful

end KyYard.Foundation
