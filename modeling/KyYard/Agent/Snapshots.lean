import KyYard.Foundation.Machine

/-!
# Results behind inventories

A session of an agent reads the runtime beside its loop, one read at a time (`Snapshots`). The result
of a mutation rides on the first read that starts after it reached the loop, and is written once the
inventory of that read is published.

`results_follow_inventory` is about every order in which results, requests for an inventory, other
frames and finished reads reach the loop, and every write that may break the session.
-/

namespace KyYard.Agent

open Foundation

variable {F : Type}

/-! ## The loop -/

/-- The reads: `riding` goes out after the running one, `waiting` after the next. -/
structure Snapshots (F : Type) where
  running : Bool
  again : Bool
  riding : List F
  waiting : List F

/-- A snapshot asked for. -/
def Snapshots.request (s : Snapshots F) (after : List F) : Snapshots F :=
  if s.running then { s with again := true, waiting := s.waiting ++ after }
  else ⟨true, false, s.waiting ++ after, []⟩

/-- The frames that rode on the read just received; a follow-up starts where one is asked for. -/
def Snapshots.done (s : Snapshots F) : List F × Snapshots F :=
  let rest := { s with running := false, riding := [] }
  (s.riding, if s.again || !s.waiting.isEmpty then rest.request [] else rest)

/-- What waited rides on the follow-up, which starts if anything did. -/
theorem Snapshots.done_next (s : Snapshots F) : s.done.2.riding = s.waiting ∧
    s.done.2.waiting = [] ∧ (s.done.2.running = false → s.waiting = []) := by
  rw [Snapshots.done]
  split
  · simp [Snapshots.request]
  · next hno =>
    have hnil : s.waiting = [] := by
      cases hw : s.waiting with
      | nil => rfl
      | cons => simp [hw] at hno
    exact ⟨hnil.symm, hnil, fun _ => hnil⟩

/-- What is written: an inventory, with how many results had reached the loop when its read started,
a result that waited for one, or a frame that waits for nothing. -/
inductive Written (F : Type)
  | inventory (since : Nat)
  | result (f : F)
  | other

/-- The result, if it is one. -/
def Written.result? : Written F → Option F
  | .result f => some f
  | _ => none

def results (w : List (Written F)) : List F := w.filterMap Written.result?

/-- A session. The loop does not keep `arrived`, the results in the order they reached it, nor
`since`, how many had when the running read started. -/
structure Session (F : Type) where
  pending : Bool
  live : Bool
  snaps : Snapshots F
  written : List (Written F)
  arrived : List F
  since : Nat

namespace Session

/-- An approved endpoint reports once before the loop. -/
def new (pending : Bool) : Session F :=
  ⟨pending, true, ⟨false, false, [], []⟩, if pending then [] else [.inventory 0], [], 0⟩

def request (s : Session F) (after : List F) : Session F :=
  { s with
    snaps := s.snaps.request after
    arrived := s.arrived ++ after
    since := if s.snaps.running then s.since else (s.arrived ++ after).length }

/-- A read is back: its inventory goes out and then what rode on it. The session ends at the write
that fails, which is number `n` if there are as many. -/
def ready (s : Session F) (n : Nat) : Session F :=
  let out := .inventory s.since :: s.snaps.done.1.map .result
  if n < out.length then { s with live := false, written := s.written ++ out.take n }
  else { s with
    snaps := s.snaps.done.2
    written := s.written ++ out
    since := if s.snaps.done.2.running then s.arrived.length else s.since }

end Session

/-- What reaches the loop: the ticker or a refresh, the result of a command or of a live deployment,
a frame to send as it is, a finished read, or the end of the session. -/
inductive SessionOp (F : Type)
  | inventory
  | result (f : F)
  | send
  | ready (n : Nat)
  | stop

/-- Any order of operations. -/
def sessionMachine : Machine (Session F) (SessionOp F) Unit where
  step op s :=
    if s.live = false then .error ()
    else match op with
      | .inventory => .ok (if s.pending then s else s.request [])
      | .result f => .ok (s.request [f])
      | .send => .ok { s with written := s.written ++ [.other] }
      | .ready n => if s.snaps.running then .ok (s.ready n) else .error ()
      | .stop => .ok { s with live := false }

/-! ## What is written -/

/-- Every result stands behind an inventory whose read started after the result had arrived. -/
def Covered (w : List (Written F)) : Prop :=
  ∀ pre f post, w = pre ++ .result f :: post → ∃ n, .inventory n ∈ pre ∧ (results pre).length < n

variable {w : List (Written F)} {s s' : Session F}

theorem results_append (w v : List (Written F)) : results (w ++ v) = results w ++ results v :=
  List.filterMap_append

theorem results_riding {x : Written F} (hx : x.result? = none) (held : List F) :
    results (x :: held.map .result) = held := by
  rw [results, List.filterMap_cons_none hx, List.filterMap_map]
  exact List.filterMap_some

theorem Covered.of_append {v : List (Written F)} (h : Covered (w ++ v)) : Covered w := by
  intro pre f post hw
  apply h pre f (post ++ v)
  rw [hw, List.append_assoc, List.cons_append]

/-- What goes out at once: a frame, and behind it the results that rode on it. -/
theorem Covered.append (h : Covered w) {x : Written F} (hx : x.result? = none) (held : List F)
    (hle : held ≠ [] → ∃ n, x = .inventory n ∧ (results w).length + held.length ≤ n) :
    Covered (w ++ x :: held.map .result) := by
  intro pre f post heq
  have hlen := congrArg (fun l => (results l).length) heq
  rcases List.append_eq_append_iff.1 heq with ⟨rest, rfl, hrest⟩ | ⟨rest, rfl, hrest⟩
  · cases rest with
    | nil =>
      obtain ⟨rfl, -⟩ := List.cons.inj hrest
      cases hx
    | cons =>
      obtain ⟨rfl, hheld⟩ := List.cons.inj hrest
      obtain ⟨n, rfl, hn⟩ := hle (by rintro rfl; simp at hheld)
      refine ⟨n, by simp, ?_⟩
      rw [results_append, results_riding hx, results_append _ (_ :: post)] at hlen
      simp [results, Written.result?] at hlen hn ⊢
      omega
  · cases rest with
    | nil =>
      obtain ⟨rfl, -⟩ := List.cons.inj hrest
      cases hx
    | cons y rest =>
      obtain ⟨rfl, -⟩ := List.cons.inj hrest
      exact h pre f rest rfl

/-! ## Every run -/

/-- In a live session every result that has arrived is written, rides on the running read or waits
for the next, in this order. -/
structure Session.Held (s : Session F) : Prop where
  order : results s.written ++ s.snaps.riding ++ s.snaps.waiting = s.arrived
  since : s.snaps.running = true → s.since = (results s.written).length + s.snaps.riding.length
  idle : s.snaps.running = false → s.snaps.riding = [] ∧ s.snaps.waiting = []

/-- The invariant. -/
structure Session.Inv (s : Session F) : Prop where
  sent : results s.written <+: s.arrived
  covered : Covered s.written
  held : s.live = true → s.Held

theorem Session.Held.request (h : s.Held) (after : List F) : (s.request after).Held := by
  cases hr : s.snaps.running with
  | true =>
    refine ⟨?_, ?_, ?_⟩
    · simp [Session.request, Snapshots.request, hr, ← h.order]
    · simpa [Session.request, Snapshots.request, hr] using h.since hr
    · simp [Session.request, Snapshots.request, hr]
  | false =>
    obtain ⟨hriding, hwaiting⟩ := h.idle hr
    have horder := h.order
    rw [hriding, hwaiting, List.append_nil, List.append_nil] at horder
    refine ⟨?_, ?_, ?_⟩ <;> simp [Session.request, Snapshots.request, hr, hwaiting, horder]

theorem Session.Inv.ready (h : s.Inv) (hlive : s.live = true) (hr : s.snaps.running = true)
    (n : Nat) : (s.ready n).Inv := by
  obtain ⟨horder, hsince, -⟩ := h.held hlive
  have hcovered : Covered (s.written ++ .inventory s.since :: s.snaps.done.1.map .result) :=
    h.covered.append rfl _ fun _ => ⟨_, rfl, Nat.le_of_eq (hsince hr).symm⟩
  have hall : results (s.written ++ .inventory s.since :: s.snaps.done.1.map .result) =
      results s.written ++ s.snaps.riding := by
    rw [results_append, results_riding rfl, Snapshots.done]
  rw [← hall] at horder
  rw [Session.ready]
  split
  · -- what the failed write leaves is the beginning of all that would have gone out
    rw [← List.take_append_drop n (_ :: _), ← List.append_assoc] at hcovered horder
    rw [results_append, List.append_assoc] at horder
    exact ⟨⟨_, horder⟩, hcovered.of_append, nofun⟩
  · obtain ⟨hriding, hwaiting, hidle⟩ := s.snaps.done_next
    refine ⟨⟨_, horder⟩, hcovered, fun _ => ⟨?_, ?_, ?_⟩⟩
    · simpa only [hriding, hwaiting, List.append_nil] using horder
    · intro hnext
      rw [if_pos hnext, ← horder, List.length_append, hriding]
    · intro hstop
      exact ⟨hriding.trans (hidle hstop), hwaiting⟩

theorem session_step (op : SessionOp F) (s s' : Session F) (h : s.Inv)
    (hstep : sessionMachine.step op s = .ok s') : s'.Inv := by
  obtain ⟨hlive, hstep⟩ := guard_error_eq_ok.1 hstep
  have hlive := eq_true_of_ne_false hlive
  have hrequest : ∀ after, (s.request after).Inv := fun after =>
    ⟨h.sent.trans (List.prefix_append _ _), h.covered, fun _ => (h.held hlive).request after⟩
  cases op with
  | inventory =>
    obtain rfl := Except.ok.inj hstep
    split
    · exact h
    · exact hrequest []
  | result f =>
    obtain rfl := Except.ok.inj hstep
    exact hrequest [f]
  | send =>
    obtain rfl := Except.ok.inj hstep
    have hsame : results (s.written ++ [.other]) = results s.written := by
      simp [results, Written.result?]
    refine ⟨hsame ▸ h.sent, h.covered.append rfl [] nofun, fun _ => ?_⟩
    obtain ⟨horder, hsince, hidle⟩ := h.held hlive
    exact ⟨hsame ▸ horder, hsame ▸ hsince, hidle⟩
  | ready n =>
    obtain ⟨hr, rfl⟩ := ok_of_guard hstep
    exact h.ready hlive hr n
  | stop =>
    obtain rfl := Except.ok.inj hstep
    exact ⟨h.sent, h.covered, by simp⟩

theorem session_new (pending : Bool) : (Session.new pending : Session F).Inv := by
  have hheld : (Session.new pending : Session F).Held := by
    cases pending <;> exact ⟨rfl, nofun, fun _ => ⟨rfl, rfl⟩⟩
  have hnil : Covered ([] : List (Written F)) := fun pre f post hw => absurd hw (by simp)
  cases pending
  · exact ⟨List.nil_prefix, hnil.append rfl [] nofun, fun _ => hheld⟩
  · exact ⟨List.nil_prefix, hnil, fun _ => hheld⟩

/-- Results are written once, in the order they reached the loop, each behind an inventory whose read
started when it had arrived. While the session lives, none waits but for the running read or, once
that is back, for the next. -/
theorem results_follow_inventory (pending : Bool) (s : Session F)
    (h : sessionMachine.Steps (Session.new pending) s) :
    results s.written <+: s.arrived ∧
      Covered s.written ∧
      (s.live = true →
        results s.written ++ s.snaps.riding ++ s.snaps.waiting = s.arrived ∧
        (s.snaps.riding ≠ [] ∨ s.snaps.waiting ≠ [] → s.snaps.running = true) ∧
        (s.snaps.waiting ≠ [] →
          s.snaps.done.2.running = true ∧ s.snaps.done.2.riding = s.snaps.waiting)) := by
  have hinv : s.Inv := h.keeps session_step (session_new pending)
  refine ⟨hinv.sent, hinv.covered, fun hlive => ?_⟩
  obtain ⟨horder, -, hidle⟩ := hinv.held hlive
  refine ⟨horder, ?_, ?_⟩
  · intro hsome
    refine eq_true_of_ne_false fun hstop => ?_
    obtain ⟨hriding, hwaiting⟩ := hidle hstop
    exact hsome.elim (absurd hriding) (absurd hwaiting)
  · intro hne
    obtain ⟨hriding, -, hidle⟩ := s.snaps.done_next
    exact ⟨eq_true_of_ne_false fun hstop => hne (hidle hstop), hriding⟩

/-- A result arrives while a read runs and goes out behind the next one. -/
theorem result_follows_next_inventory :
    let s := sessionMachine.run [.inventory, .result 7, .ready 5, .ready 5] (Session.new false)
    s.written = [.inventory 0, .inventory 0, .inventory 1, .result 7] ∧
      results s.written <+: s.arrived := by
  intro s
  exact ⟨rfl, (results_follow_inventory false s (Machine.steps_run _ _)).1⟩

end KyYard.Agent
