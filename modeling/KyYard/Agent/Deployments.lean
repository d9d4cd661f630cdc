import KyYard.Foundation.Machine
import KyYard.Protocol.Result

/-!
# The agent's deployment ledger

The agent runs one deployment at a time. It records durably that a run begins to change the host and
what the run's result is, answers a frame it has seen with the recorded result, and after a restart
settles what was interrupted.

`runs_once` says what holds in every run of the agent over any frames, interleavings and crashes in
which no result is recorded and no process starts with the ledger full of results stamped at or
after its own clock: a remembered run is never executed again, one run is in progress at a time, a
begun entry stays until it is finished, an interrupted run is answered as restarted, a result is
recorded as the run gave it, and it stays as long as it is less than a day old and one of the newest.
`clock_back_forgets` are runs whose clock goes back, in which a begun run and a result are forgotten.
-/

namespace KyYard.Agent

open Foundation Protocol

/-! ## The ledger -/

/-- How long a result is kept. -/
def deploymentLedgerLife : Int := 24 * 3600 * second
/-- How many results are kept. -/
def deploymentLedgerMax : Nat := 20

/-- What is remembered of a run; `started` is `none` for the zero time. -/
structure DeploymentEntry where
  result : DeploymentResult
  finished : Int
  started : Option Int
  requestID : String
deriving DecidableEq

/-- The result of a run that has none. -/
def noResult : DeploymentResult := .empty "" ""

/-- A run that began changing the host and has no result yet. -/
def DeploymentEntry.pending (e : DeploymentEntry) : Bool :=
  e.result.deployment == "" && e.started.isSome

/-- The entries by deployment. -/
abbrev Ledger := Dict DeploymentEntry

/-- What is left of the ledger by age. -/
def Ledger.current (now : Int) (done : Ledger) : Ledger :=
  done.filter fun _ e => e.pending || !decide (e.finished < now - deploymentLedgerLife)

/-- The finished entries, the oldest first. -/
def Ledger.byAge (done : Ledger) : List (String × DeploymentEntry) :=
  (done.entries.filter fun e => !e.2.pending).insertionSort (·.2.finished ≤ ·.2.finished)

/-- Finished entries go by age and then by number; one that is begun stays. -/
def prune (now : Int) (done : Ledger) : Ledger :=
  let kept := Ledger.current now done
  let ids := kept.byAge.map Prod.fst
  if ids.length ≤ deploymentLedgerMax then kept
  else kept.filter fun id _ => !(ids.take (ids.length - deploymentLedgerMax)).contains id

/-- How many results are stamped at an instant or after it. -/
def Ledger.since (t : Int) (done : Ledger) : Nat :=
  (done.entries.filter fun e => !e.2.pending && decide (t ≤ e.2.finished)).length

/-- By a clock, a result is at most a day old and one of the newest. -/
def Ledger.Newest (now : Int) (done : Ledger) (e : DeploymentEntry) : Prop :=
  now - deploymentLedgerLife ≤ e.finished ∧ done.since e.finished ≤ deploymentLedgerMax

/-- The entry of a run that a restart interrupted. -/
def restarted (now : Int) (id : String) (e : DeploymentEntry) : DeploymentEntry where
  result := .bare id e.requestID .unknown .restarted
  finished := now
  started := none
  requestID := ""

/-- Interrupted runs get their result. -/
def settleStarted (now : Int) (done : Ledger) : Ledger :=
  done.map fun id e => if e.pending then restarted now id e else e

/-- What a new process reads; an entry with neither a start nor a result is dropped. -/
def loaded (disk : Ledger) : Ledger :=
  disk.filter fun _ e => !(e.result.deployment == "" && e.started.isNone)

/-! ## The deployer -/

/-- Why a frame fails its checks. -/
inductive RequestError
  | clockSkew
  | invalid
deriving DecidableEq

/-- A decoded frame of any of the three kinds: what its check says when it is read, and whether the
agent has a runtime for it. -/
structure Request where
  id : String
  requestID : String
  endpoint : String
  check : Option RequestError
  executable : Bool
deriving DecidableEq

/-- An execution in the single slot. -/
structure Run where
  id : String
  requestID : String
deriving DecidableEq

/-- The process, its file and what it has sent, the newest first. `running` is empty when the slot
is free; `checked` are the frames past their first check. -/
structure Deployer where
  done : Ledger
  running : String
  checked : List Request
  runs : List Run
  disk : Ledger
  sent : List (String × DeploymentResult)

/-- An empty ledger. -/
def Deployer.new : Deployer := ⟨.empty, "", [], [], .empty, []⟩

def denied (id requestID : String) (code : ResultCode) : DeploymentResult :=
  .bare id requestID .denied code

/-- A result is sent. -/
def Deployer.send (d : Deployer) (id : String) (r : DeploymentResult) : Deployer :=
  { d with sent := (id, r) :: d.sent }

/-- The answer to a frame that fails its check. -/
def refusal (r : Request) (e : RequestError) : DeploymentResult :=
  let echoed := if validRequestID r.requestID then r.requestID else ""
  match e with
  | .clockSkew => .bare r.id echoed .failed .clockSkew
  | .invalid => denied r.id echoed .invalidRequest

/-- The first half of `run`: a live run is left alone, a remembered one is answered, a frame that
fails its checks is refused, and any other goes on. -/
def receive (endpointID : String) (r : Request) (d : Deployer) : Deployer :=
  if !validDeploymentID r.id then d
  else if r.id ≠ "" ∧ d.running = r.id then d
  else match d.done.get? r.id with
    | some prior => d.send r.id prior.result
    | none =>
      match r.check with
      | some e => d.send r.id (refusal r e)
      | none =>
        if r.endpoint ≠ endpointID then d.send r.id (denied r.id r.requestID .wrongEndpoint)
        else { d with checked := r :: d.checked }

/-- The second half of `run`: looks again and takes the slot. -/
def claimSlot (r : Request) (d : Deployer) : Deployer :=
  let d := { d with checked := d.checked.erase r }
  match d.done.get? r.id with
  | some prior => d.send r.id prior.result
  | none =>
    if !r.executable then d.send r.id (denied r.id r.requestID .invalidRequest)
    else if d.running = "" then { d with running := r.id, runs := ⟨r.id, r.requestID⟩ :: d.runs }
    else if d.running = r.id then d
    else d.send r.id (denied r.id r.requestID .busy)

/-- Records durably that the run is about to change the host. -/
def begin (run : Run) (now : Int) (d : Deployer) : Deployer :=
  let done := d.done.insert run.id ⟨noResult, 0, some now, run.requestID⟩
  { d with done := done, disk := done }

/-- The result as it is recorded: one the server would refuse to read is replaced. -/
def readable (run : Run) (res : DeploymentResult) : DeploymentResult :=
  let named := if res.deployment = "" then { res with deployment := run.id } else res
  let echoed := { named with requestID := run.requestID }
  if echoed.deployment = run.id ∧ echoed.validate then echoed
  else .bare run.id run.requestID .unknown .unreadable

/-- Records the result durably, frees the slot and sends the result. -/
def finish (run : Run) (res : DeploymentResult) (now : Int) (d : Deployer) : Deployer :=
  let done := prune now (d.done.insert run.id ⟨readable run res, now, none, ""⟩)
  { d with
    done := done
    disk := done
    running := ""
    runs := d.runs.erase run
    sent := (run.id, readable run res) :: d.sent }

/-- Queues every remembered result for a new session. -/
def resend (now : Int) (d : Deployer) : Deployer :=
  let done := prune now d.done
  { d with
    done := done
    sent := ((done.entries.filter fun e => !e.2.pending).map fun e => (e.1, e.2.result)) ++ d.sent }

/-- A crash at any point and a new process on the file. -/
def restart (now : Int) (d : Deployer) : Deployer :=
  let settled := settleStarted now (loaded d.disk)
  { d with
    done := prune now settled
    running := ""
    checked := []
    runs := []
    disk := if (loaded d.disk).entries.any fun e => e.2.pending then settled else d.disk }

/-- What happens to the agent. -/
inductive DeployerOp
  | receive (r : Request)
  | claimSlot (r : Request)
  | begin (run : Run) (now : Int)
  | finish (run : Run) (res : DeploymentResult) (now : Int)
  | resend (now : Int)
  | restart (now : Int)

/-- Nothing is refused but a step of a frame or a run that is not there. -/
def deployerMachine (endpointID : String) : Machine Deployer DeployerOp Unit where
  step
    | .receive r, d => .ok (receive endpointID r d)
    | .claimSlot r, d => if r ∈ d.checked then .ok (claimSlot r d) else .error ()
    | .begin run now, d => if run ∈ d.runs then .ok (begin run now d) else .error ()
    | .finish run res now, d => if run ∈ d.runs then .ok (finish run res now d) else .error ()
    | .resend now, d => .ok (resend now d)
    | .restart now, d => .ok (restart now d)

/-- The condition on the clock: when a result is recorded or a process starts, the ledger is not full
of results stamped at or after that instant. -/
def ClockRoom (d : Deployer) : DeployerOp → Prop
  | .finish _ _ now => Ledger.since now d.done < deploymentLedgerMax
  | .restart now => Ledger.since now d.disk < deploymentLedgerMax
  | _ => True

instance (d : Deployer) : (op : DeployerOp) → Decidable (ClockRoom d op)
  | .finish _ _ _ | .restart _ => inferInstanceAs (Decidable (_ < _))
  | .receive _ | .claimSlot _ | .begin _ _ | .resend _ => .isTrue trivial

/-! ## Pruning -/

section Prune

variable {now : Int} {done : Ledger} {id : String} {e : DeploymentEntry}

theorem get?_current : (Ledger.current now done).get? id =
    (done.get? id).filter fun e =>
      e.pending || !decide (e.finished < now - deploymentLedgerLife) :=
  Dict.get?_filter _ _ _

/-- What is left was there before. -/
theorem get?_of_prune (h : (prune now done).get? id = some e) : done.get? id = some e := by
  have hcurrent : (Ledger.current now done).get? id = some e → done.get? id = some e := by
    intro hc
    rw [get?_current] at hc
    exact (Option.filter_eq_some_iff.1 hc).1
  unfold prune at h
  simp only at h
  split at h
  · exact hcurrent h
  · rw [Dict.get?_filter] at h
    exact hcurrent (Option.filter_eq_some_iff.1 h).1

/-- An entry of the current ledger stays unless it is among the oldest finished ones. -/
theorem get?_prune (h : done.get? id = some e)
    (hage : e.pending = true ∨ now - deploymentLedgerLife ≤ e.finished)
    (hnewest : id ∉ ((Ledger.current now done).byAge.map Prod.fst).take
      (((Ledger.current now done).byAge.map Prod.fst).length - deploymentLedgerMax)) :
    (prune now done).get? id = some e := by
  have hcurrent : (Ledger.current now done).get? id = some e := by
    rw [get?_current, h]
    rcases hage with hp | hf
    · simp [hp]
    · simp [Int.not_lt.2 hf]
  unfold prune
  simp only
  split
  · exact hcurrent
  · rw [Dict.get?_filter, hcurrent, Option.filter_eq_some_iff]
    exact ⟨rfl, by simpa using hnewest⟩

theorem mem_byAge {x : String × DeploymentEntry} :
    x ∈ done.byAge ↔ done.get? x.1 = some x.2 ∧ x.2.pending = false := by
  rw [Ledger.byAge, Dict.get?_eq_some_iff]
  simp

/-- An entry that is begun is never pruned. -/
theorem get?_prune_of_pending (h : done.get? id = some e) (hp : e.pending = true) :
    (prune now done).get? id = some e := by
  apply get?_prune h (.inl hp)
  intro hm
  obtain ⟨⟨id', e'⟩, hx, rfl⟩ := List.mem_map.1 (List.mem_of_mem_take hm)
  obtain ⟨hget, hnp⟩ := mem_byAge.1 hx
  rw [get?_current, h] at hget
  obtain rfl := Option.some.inj (Option.filter_eq_some_iff.1 hget).1
  rw [hp] at hnp
  cases hnp

theorem byAge_sorted (done : Ledger) :
    done.byAge.Pairwise fun a b => a.2.finished ≤ b.2.finished := by
  exact List.pairwise_insertionSort _ _

/-- A finished entry is kept by number if at most `deploymentLedgerMax` finished entries, itself
included, are stamped no earlier. -/
theorem not_mem_oldest (hroom : done.since e.finished ≤ deploymentLedgerMax)
    (h : done.get? id = some e) :
    id ∉ (done.byAge.map Prod.fst).take
      ((done.byAge.map Prod.fst).length - deploymentLedgerMax) := by
  intro hm
  rw [← List.map_take, List.length_map] at hm
  obtain ⟨⟨id', e'⟩, hx, rfl⟩ := List.mem_map.1 hm
  obtain ⟨hget, -⟩ := mem_byAge.1 (List.mem_of_mem_take hx)
  obtain rfl := Option.some.inj (hget.symm.trans h)
  have hsorted := byAge_sorted done
  -- every entry after the oldest ones is stamped no earlier, and there are `deploymentLedgerMax`
  generalize hk : done.byAge.length - deploymentLedgerMax = k at hx
  have hlen : (done.byAge.drop k).length = deploymentLedgerMax := by
    have : 0 < k := by
      cases k with
      | zero => simp at hx
      | succ => omega
    rw [List.length_drop]
    omega
  rw [← List.take_append_drop k done.byAge, List.pairwise_append] at hsorted
  have hlater : ∀ x ∈ done.byAge.drop k, e'.finished ≤ x.2.finished := fun x hd =>
    hsorted.2.2 _ hx x hd
  have hcount : deploymentLedgerMax + 1 ≤
      done.byAge.countP fun x => decide (e'.finished ≤ x.2.finished) := by
    rw [← List.take_append_drop k done.byAge, List.countP_append]
    have hdrop : (done.byAge.drop k).countP (fun x => decide (e'.finished ≤ x.2.finished)) =
        deploymentLedgerMax := by
      rw [← hlen, List.countP_eq_length]
      simpa using hlater
    have htake : 0 < (done.byAge.take k).countP fun x => decide (e'.finished ≤ x.2.finished) :=
      List.countP_pos_iff.2 ⟨_, hx, by simp⟩
    omega
  have hperm : done.byAge.Perm (done.entries.filter fun e => !e.2.pending) :=
    List.perm_insertionSort _ _
  rw [hperm.countP_eq, List.countP_filter, List.countP_eq_length_filter] at hcount
  simp only [Ledger.since, Bool.and_comm] at hroom hcount
  omega

/-- One of the newest stays. -/
theorem get?_prune_of_newest (h : done.get? id = some e) (hnewest : done.Newest now e) :
    (prune now done).get? id = some e := by
  apply get?_prune h (.inr hnewest.1)
  apply not_mem_oldest (e := e)
  · apply le_trans _ hnewest.2
    exact ((List.filter_sublist).filter _).length_le
  · rw [get?_current, h]
    simp [Int.not_lt.2 hnewest.1]

/-- One entry more is one result more at most. -/
theorem since_insert (t : Int) (done : Ledger) (id : String) (e : DeploymentEntry) :
    Ledger.since t (done.insert id e) ≤ done.since t + 1 := by
  unfold Ledger.since Dict.insert
  rw [List.filter_append, List.length_append]
  refine Nat.add_le_add ?_ (List.length_filter_le _ _)
  exact (List.filter_sublist.filter _).length_le

end Prune

/-! ## Restarts -/

section Restart

variable {now : Int} {disk : Ledger} {id : String} {e : DeploymentEntry}

@[simp]
theorem restarted_pending : (restarted now id e).pending = false := by
  simp [restarted, DeploymentEntry.pending]

@[simp]
theorem restarted_finished : (restarted now id e).finished = now := rfl

theorem get?_settleStarted : (settleStarted now disk).get? id =
    (disk.get? id).map fun e => if e.pending then restarted now id e else e :=
  Dict.get?_map _ _ _

theorem settleStarted_not_pending (h : (settleStarted now disk).get? id = some e) :
    e.pending = false := by
  rw [get?_settleStarted] at h
  obtain ⟨e₀, -, rfl⟩ := Option.map_eq_some_iff.1 h
  split
  · exact restarted_pending
  · next hp => simpa using hp

theorem get?_of_loaded (h : (loaded disk).get? id = some e) : disk.get? id = some e := by
  rw [loaded, Dict.get?_filter] at h
  exact (Option.filter_eq_some_iff.1 h).1

theorem get?_loaded (h : disk.get? id = some e)
    (hsome : e.pending = true ∨ e.result.deployment ≠ "") : (loaded disk).get? id = some e := by
  rw [loaded, Dict.get?_filter, h]
  rcases hsome with hp | hd
  · simp only [DeploymentEntry.pending, Bool.and_eq_true] at hp
    simp [hp.2]
  · simp [hd]

/-- At most one begun entry and fewer than `deploymentLedgerMax` late results leave room for every
settled entry. -/
theorem settled_room (hroom : Ledger.since now disk < deploymentLedgerMax)
    (hone : (disk.entries.filter fun x => x.2.pending).length ≤ 1) :
    Ledger.since now (settleStarted now (loaded disk)) ≤ deploymentLedgerMax := by
  have hle : ∀ l : List (String × DeploymentEntry),
      ((l.map fun x => (x.1, if x.2.pending then restarted now x.1 x.2 else x.2)).filter fun x =>
        !x.2.pending && decide (now ≤ x.2.finished)).length ≤
      (l.filter fun x => !x.2.pending && decide (now ≤ x.2.finished)).length +
        (l.filter fun x => x.2.pending).length := by
    intro l
    induction l with
    | nil => simp
    | cons x l ih =>
      by_cases hp : x.2.pending = true
      · simp [hp] at ih ⊢
        omega
      · by_cases hf : now ≤ x.2.finished <;> simp [hp, hf] at ih ⊢ <;> omega
  have hsub : (loaded disk).entries.Sublist disk.entries := List.filter_sublist
  have hlate := (hsub.filter fun x => !x.2.pending && decide (now ≤ x.2.finished)).length_le
  have hpending := (hsub.filter fun x => x.2.pending).length_le
  have := hle (loaded disk).entries
  change Ledger.since now (settleStarted now (loaded disk)) ≤ _ at this
  unfold Ledger.since at hroom
  omega

end Restart

/-! ## The invariant -/

/-- The invariant. -/
structure Deployer.Inv (d : Deployer) : Prop where
  /-- The slot is free, or one run holds it. -/
  slot : d.runs = [] ∧ d.running = "" ∨ ∃ run, d.runs = [run] ∧ d.running = run.id
  ids : (∀ run ∈ d.runs, run.id ≠ "") ∧ ∀ r ∈ d.checked, r.id ≠ ""
  begun : ∀ id e, d.done.get? id = some e → e.pending = true → ∃ run ∈ d.runs, run.id = id
  unfinished : ∀ run ∈ d.runs, ∀ e, d.done.get? run.id = some e → e.pending = true
  named : ∀ id e, d.disk.get? id = some e → e.pending = true ∨ e.result.deployment ≠ ""
  saved : ∀ id e, d.done.get? id = some e → d.disk.get? id = some e
  started : ∀ id e, d.disk.get? id = some e → e.pending = true → d.done.get? id = some e

theorem inv_new : Deployer.new.Inv where
  slot := .inl ⟨rfl, rfl⟩
  ids := by simp [Deployer.new]
  begun := by simp [Deployer.new]
  unfinished := by simp [Deployer.new]
  named := by simp [Deployer.new]
  saved := by simp [Deployer.new]
  started := by simp [Deployer.new]

section Steps

variable {d : Deployer}

/-- Frames checked or results sent change nothing else. -/
theorem Deployer.Inv.frame (h : d.Inv) {checked : List Request}
    {l : List (String × DeploymentResult)} (hc : ∀ r ∈ checked, r.id ≠ "") :
    ({ d with checked := checked, sent := l } : Deployer).Inv :=
  { h with ids := ⟨h.ids.1, hc⟩ }

theorem Deployer.Inv.receive (h : d.Inv) (endpointID : String) (r : Request) :
    (receive endpointID r d).Inv := by
  unfold KyYard.Agent.receive
  split
  · exact h
  next hvalid =>
  simp only [Bool.not_eq_true', Bool.not_eq_false] at hvalid
  split
  · exact h
  split
  · exact h.frame h.ids.2
  split
  · exact h.frame h.ids.2
  split
  · exact h.frame h.ids.2
  · apply h.frame
    intro x hx
    rcases List.mem_cons.1 hx with rfl | hx
    · exact ne_empty_of_validDeploymentID hvalid
    · exact h.ids.2 x hx

/-- The slot is taken for a run that is not remembered. -/
theorem Deployer.Inv.take (h : d.Inv) {r : Request} {checked : List Request}
    (hid : r.id ≠ "") (hc : ∀ r ∈ checked, r.id ≠ "") (hnone : d.done.get? r.id = none)
    (hfree : d.running = "") :
    ({ d with
      checked := checked, running := r.id, runs := ⟨r.id, r.requestID⟩ :: d.runs } : Deployer).Inv := by
  have hruns : d.runs = [] := by
    rcases h.slot with ⟨hr, -⟩ | ⟨run, hr, hrun⟩
    · exact hr
    · exact absurd (hrun.symm.trans hfree) (h.ids.1 run (by simp [hr]))
  refine { h with slot := ?_, ids := ⟨?_, hc⟩, begun := ?_, unfinished := ?_ }
  · exact .inr ⟨_, by rw [hruns], rfl⟩
  · intro run hrun
    rw [hruns, List.mem_singleton] at hrun
    rw [hrun]
    exact hid
  · intro id e he hp
    obtain ⟨run, hrun, -⟩ := h.begun id e he hp
    rw [hruns] at hrun
    cases hrun
  · intro run hrun e he
    rw [hruns, List.mem_singleton] at hrun
    rw [hrun] at he
    exact absurd (hnone.symm.trans he) (by simp)

theorem Deployer.Inv.claimSlot (h : d.Inv) {r : Request} (hr : r ∈ d.checked) :
    (claimSlot r d).Inv := by
  have hid := h.ids.2 r hr
  have hc : ∀ x ∈ d.checked.erase r, x.id ≠ "" := fun x hx => h.ids.2 x (List.mem_of_mem_erase hx)
  unfold KyYard.Agent.claimSlot
  simp only
  split
  · exact h.frame hc
  next hnone =>
  split
  · exact h.frame hc
  · split
    · next hfree => exact h.take hid hc hnone hfree
    · split
      · exact h.frame hc
      · exact h.frame hc

theorem Deployer.Inv.only_run (h : d.Inv) {run : Run} (hrun : run ∈ d.runs) : d.runs = [run] := by
  rcases h.slot with ⟨hr, -⟩ | ⟨run', hr, -⟩
  · rw [hr] at hrun
    cases hrun
  · rw [hr, List.mem_singleton] at hrun
    rw [hr, hrun]

theorem Deployer.Inv.begin (h : d.Inv) {run : Run} (hrun : run ∈ d.runs) (now : Int) :
    (begin run now d).Inv := by
  have hpending : ∀ e : DeploymentEntry,
      e = ⟨noResult, 0, some now, run.requestID⟩ → e.pending = true := by
    rintro e rfl
    rfl
  refine { h with begun := ?_, unfinished := ?_, named := ?_, saved := fun _ _ he => he,
                  started := fun _ _ he _ => he }
  · intro id e he hp
    simp only [KyYard.Agent.begin, Dict.get?_insert] at he
    split at he
    · next hid => exact ⟨run, hrun, hid.symm⟩
    · exact h.begun id e he hp
  · intro run' hrun' e he
    simp only [KyYard.Agent.begin, Dict.get?_insert] at he
    split at he
    · exact hpending e (Option.some.inj he).symm
    · exact h.unfinished run' hrun' e he
  · intro id e he
    simp only [KyYard.Agent.begin, Dict.get?_insert] at he
    split at he
    · exact .inl (hpending e (Option.some.inj he).symm)
    · exact h.named id e (h.saved id e he)

theorem Deployer.Inv.finish (h : d.Inv) {run : Run} (hrun : run ∈ d.runs) (res : DeploymentResult)
    (now : Int) : (finish run res now d).Inv := by
  have hruns := h.only_run hrun
  have hid := h.ids.1 run hrun
  -- nothing is left begun: the only begun entry was the run's own
  have hfinished : ∀ id e, (KyYard.Agent.finish run res now d).done.get? id = some e →
      e.pending = false ∧ e.result.deployment ≠ "" := by
    intro id e he
    have he := get?_of_prune he
    rw [Dict.get?_insert] at he
    split at he
    · obtain rfl := Option.some.inj he
      refine ⟨Bool.and_false _, ?_⟩
      unfold readable
      extract_lets named echoed
      split
      · next h => exact h.1 ▸ hid
      · exact hid
    next hne =>
    have hnp : e.pending = false := by
      rw [Bool.eq_false_iff]
      intro hp
      obtain ⟨run', hrun', hid'⟩ := h.begun id e he hp
      rw [hruns, List.mem_singleton] at hrun'
      rw [hrun'] at hid'
      exact hne hid'.symm
    refine ⟨hnp, (h.named id e (h.saved id e he)).resolve_left ?_⟩
    simp [hnp]
  have hnoruns : (KyYard.Agent.finish run res now d).runs = [] := by
    simp [KyYard.Agent.finish, hruns]
  exact
    { slot := .inl ⟨hnoruns, rfl⟩
      ids := ⟨by simp [hnoruns], h.ids.2⟩
      begun := fun id e he hp => absurd hp (by simp [(hfinished id e he).1])
      unfinished := by simp [hnoruns]
      named := fun id e he => .inr (hfinished id e he).2
      saved := fun _ _ he => he
      started := fun _ _ he _ => he }

theorem Deployer.Inv.resend (h : d.Inv) (now : Int) : (resend now d).Inv :=
  { h with
    begun := fun id e he hp => h.begun id e (get?_of_prune he) hp
    unfinished := fun run hrun e he => h.unfinished run hrun e (get?_of_prune he)
    saved := fun id e he => h.saved id e (get?_of_prune he)
    started := fun id e he hp => get?_prune_of_pending (h.started id e he hp) hp }

theorem Deployer.Inv.restart (h : d.Inv) (now : Int) : (restart now d).Inv := by
  have hdone : ∀ id e, (KyYard.Agent.restart now d).done.get? id = some e →
      (settleStarted now (loaded d.disk)).get? id = some e := fun id e he => get?_of_prune he
  have hnamed : ∀ id e, (settleStarted now (loaded d.disk)).get? id = some e →
      e.result.deployment ≠ "" := by
    intro id e he
    rw [get?_settleStarted] at he
    obtain ⟨e₀, he₀, rfl⟩ := Option.map_eq_some_iff.1 he
    have hdisk := get?_of_loaded he₀
    split
    · next hp =>
      obtain ⟨run, hrun, rfl⟩ := h.begun id e₀ (h.started id e₀ hdisk hp) hp
      exact h.ids.1 run hrun
    · next hp => exact (h.named id e₀ hdisk).resolve_left hp
  have hsaved : (∀ id e, (KyYard.Agent.restart now d).disk.get? id = some e →
      e.pending = false ∧ e.result.deployment ≠ "") ∧
      ∀ id e, (settleStarted now (loaded d.disk)).get? id = some e →
        (KyYard.Agent.restart now d).disk.get? id = some e := by
    simp only [KyYard.Agent.restart]
    split
    · exact ⟨fun id e he => ⟨settleStarted_not_pending he, hnamed id e he⟩, fun _ _ he => he⟩
    next hnone =>
    -- nothing on file is begun, so what was read is what stays there
    have hnp : ∀ id e, d.disk.get? id = some e → e.pending = false := by
      intro id e he
      rw [Bool.eq_false_iff]
      intro hp
      apply hnone
      exact List.any_eq_true.2 ⟨(id, e), Dict.get?_eq_some_iff.1 (get?_loaded he (.inl hp)), hp⟩
    refine ⟨fun id e he => ⟨hnp id e he, (h.named id e he).resolve_left (by simp [hnp id e he])⟩, ?_⟩
    intro id e he
    rw [get?_settleStarted] at he
    obtain ⟨e₀, he₀, rfl⟩ := Option.map_eq_some_iff.1 he
    have hdisk := get?_of_loaded he₀
    rwa [hnp id e₀ hdisk, if_neg Bool.false_ne_true]
  exact
    { slot := .inl ⟨rfl, rfl⟩
      ids := ⟨by simp [KyYard.Agent.restart], by simp [KyYard.Agent.restart]⟩
      begun := fun id e he hp => absurd hp (by simp [settleStarted_not_pending (hdone id e he)])
      unfinished := by simp [KyYard.Agent.restart]
      named := fun id e he => .inr (hsaved.1 id e he).2
      saved := fun id e he => hsaved.2 id e (hdone id e he)
      started := fun id e he hp => absurd hp (by simp [(hsaved.1 id e he).1]) }

end Steps

theorem deployer_inv_step (endpointID : String) (op : DeployerOp) (d d' : Deployer) (h : d.Inv)
    (hstep : (deployerMachine endpointID).step op d = .ok d') : d'.Inv := by
  cases op with
  | receive r =>
    obtain rfl := Except.ok.inj hstep
    exact h.receive endpointID r
  | claimSlot =>
    obtain ⟨hr, rfl⟩ := ok_of_guard hstep
    exact h.claimSlot hr
  | begin _ now =>
    obtain ⟨hrun, rfl⟩ := ok_of_guard hstep
    exact h.begin hrun now
  | finish _ res now =>
    obtain ⟨hrun, rfl⟩ := ok_of_guard hstep
    exact h.finish hrun res now
  | resend now =>
    obtain rfl := Except.ok.inj hstep
    exact h.resend now
  | restart now =>
    obtain rfl := Except.ok.inj hstep
    exact h.restart now

/-! ## At most once -/

/-- The step starts an execution of the id. -/
def Executes (d d' : Deployer) (id : String) : Prop :=
  ∃ run, run.id = id ∧ d'.runs = run :: d.runs

/-- Where a begun entry is after a step: a restart settles it, its own run may change it, and
otherwise it stays. -/
def Kept (id : String) (e : DeploymentEntry) (d' : Deployer) : DeployerOp → Prop
  | .restart now => d'.done.get? id = some (restarted now id e)
  | .finish run _ _ => run.id = id
  | .begin run now => run.id = id ∧ d'.done.get? id = some ⟨noResult, 0, some now, run.requestID⟩
  | _ => d'.done.get? id = some e

/-- The clock of a step that prunes, and the ledger it prunes. -/
def pruning (d : Deployer) : DeployerOp → Option (Int × Ledger)
  | .finish run res now => some (now, d.done.insert run.id ⟨readable run res, now, none, ""⟩)
  | .resend now => some (now, d.done)
  | .restart now => some (now, settleStarted now (loaded d.disk))
  | _ => none

/-- A step by whose clock a result is at most a day old and one of the newest. -/
def Spares (endpointID : String) (e : DeploymentEntry) (d d' : Deployer) : Prop :=
  ∃ op, (deployerMachine endpointID).step op d = .ok d' ∧
    ∀ now done, pruning d op = some (now, done) → done.Newest now e

/-- A step after which the id is still remembered. -/
def Remembers (endpointID id : String) (d d' : Deployer) : Prop :=
  (deployerMachine endpointID).Next d d' ∧ (d'.done.get? id).isSome = true

section Once

variable {endpointID : String} {d d' : Deployer} {id : String} {e : DeploymentEntry}

theorem Deployer.Inv.length_runs (h : d.Inv) : d.runs.length ≤ 1 := by
  rcases h.slot with ⟨hr, -⟩ | ⟨run, hr, -⟩
  · simp [hr]
  · simp [hr]

theorem Deployer.Inv.not_running (h : d.Inv) (he : d.done.get? id = some e)
    (hp : e.pending = false) (hid : id ≠ "") : d.running ≠ id := by
  intro hrun
  rcases h.slot with ⟨-, hfree⟩ | ⟨run, hr, hrunning⟩
  · exact hid (hrun.symm.trans hfree)
  · rw [← hrun, hrunning] at he
    rw [h.unfinished run (by simp [hr]) e he] at hp
    cases hp

/-- A step that takes the slot took it for an id that was not remembered. -/
theorem not_executes (he : d.done.get? id = some e)
    (hnext : (deployerMachine endpointID).Next d d') : ¬ Executes d d' id := by
  rintro ⟨run, rfl, hruns⟩
  have hne : ∀ l : List Run, l ≠ run :: l := fun l hl => by
    simpa using congrArg List.length hl
  have hshort : ∀ l : List Run, l.length ≤ d.runs.length → l ≠ run :: d.runs := by
    intro l hlen hl
    rw [hl, List.length_cons] at hlen
    omega
  obtain ⟨op, hstep⟩ := hnext
  cases op with
  | receive =>
    obtain rfl := Except.ok.inj hstep
    revert hruns
    unfold receive
    repeat' split
    all_goals exact hne _
  | claimSlot =>
    obtain ⟨-, rfl⟩ := ok_of_guard hstep
    revert hruns
    unfold claimSlot
    simp only
    split
    · exact hne _
    next hnone =>
    split
    · exact hne _
    split
    · intro hruns
      -- the slot was taken for the frame's id, which is not remembered
      obtain rfl := (List.cons.inj hruns).1
      rw [hnone] at he
      cases he
    · split
      · exact hne _
      · exact hne _
  | begin =>
    obtain ⟨-, rfl⟩ := ok_of_guard hstep
    exact hne _ hruns
  | finish =>
    obtain ⟨-, rfl⟩ := ok_of_guard hstep
    exact hshort _ List.length_erase_le hruns
  | resend =>
    obtain rfl := Except.ok.inj hstep
    exact hne _ hruns
  | restart =>
    obtain rfl := Except.ok.inj hstep
    exact hshort _ (Nat.zero_le _) hruns

@[simp]
theorem receive_done (r : Request) : (receive endpointID r d).done = d.done := by
  unfold receive
  repeat' split
  all_goals rfl

@[simp]
theorem claimSlot_done (r : Request) : (claimSlot r d).done = d.done := by
  unfold claimSlot
  simp only
  repeat' split
  all_goals rfl

/-- The begun entries of the file are one at most. -/
theorem Deployer.Inv.begun_once (h : d.Inv) :
    (d.disk.entries.filter fun x => x.2.pending).length ≤ 1 := by
  have hid : ∀ x ∈ d.disk.entries.filter fun x => x.2.pending, x.1 = d.running := by
    intro x hx
    obtain ⟨hmem, hp⟩ := List.mem_filter.1 hx
    have hdone := h.started x.1 x.2 (Dict.get?_eq_some_iff.2 hmem) hp
    obtain ⟨run, hrun, hrid⟩ := h.begun x.1 x.2 hdone hp
    rcases h.slot with ⟨hr, -⟩ | ⟨run', hr, hrunning⟩
    · rw [hr] at hrun
      cases hrun
    · rw [hr, List.mem_singleton] at hrun
      rw [← hrid, hrun, hrunning]
  have hnodup : ((d.disk.entries.filter fun x => x.2.pending).map Prod.fst).Nodup :=
    d.disk.nodup.sublist (List.filter_sublist.map Prod.fst)
  generalize d.disk.entries.filter (fun x => x.2.pending) = l at hid hnodup
  match l, hid, hnodup with
  | [], _, _ => simp
  | [_], _, _ => simp
  | x :: y :: l, hid, hnodup =>
    have hx := hid x (by simp)
    have hy := hid y (by simp)
    simp [hx, hy] at hnodup

theorem kept_step (h : d.Inv) (he : d.done.get? id = some e) (hp : e.pending = true)
    {op : DeployerOp} (hroom : ClockRoom d op)
    (hstep : (deployerMachine endpointID).step op d = .ok d') : Kept id e d' op := by
  cases op with
  | receive =>
    obtain rfl := Except.ok.inj hstep
    simpa [Kept] using he
  | claimSlot =>
    obtain ⟨-, rfl⟩ := ok_of_guard hstep
    simpa [Kept] using he
  | begin =>
    obtain ⟨hrun, rfl⟩ := ok_of_guard hstep
    obtain ⟨run', hrun', rfl⟩ := h.begun id e he hp
    rw [h.only_run hrun, List.mem_singleton] at hrun'
    refine ⟨by rw [hrun'], ?_⟩
    simp [begin, Dict.get?_insert, hrun']
  | finish =>
    obtain ⟨hrun, rfl⟩ := ok_of_guard hstep
    obtain ⟨run', hrun', rfl⟩ := h.begun id e he hp
    rw [h.only_run hrun, List.mem_singleton] at hrun'
    exact congrArg Run.id hrun'.symm
  | resend =>
    obtain rfl := Except.ok.inj hstep
    exact get?_prune_of_pending he hp
  | restart now =>
    obtain rfl := Except.ok.inj hstep
    have hsettled : (settleStarted now (loaded d.disk)).get? id = some (restarted now id e) := by
      rw [get?_settleStarted, get?_loaded (h.saved id e he) (.inl hp)]
      simp [hp]
    refine get?_prune_of_newest hsettled ⟨?_, settled_room hroom h.begun_once⟩
    rw [restarted_finished, deploymentLedgerLife, second]
    omega

/-- A result is recorded as the run gave it, in memory and on file. -/
theorem finish_records {run : Run} (res : DeploymentResult) {now : Int}
    (hroom : ClockRoom d (.finish run res now)) :
    (finish run res now d).done.get? run.id = some ⟨readable run res, now, none, ""⟩ ∧
      (finish run res now d).disk = (finish run res now d).done := by
  refine ⟨get?_prune_of_newest (by rw [Dict.get?_insert, if_pos rfl]) ⟨?_, ?_⟩, rfl⟩
  · simp only [deploymentLedgerLife, second]
    omega
  · exact (since_insert now d.done run.id _).trans hroom

/-- No run is in progress for a recorded result. -/
theorem Deployer.Inv.other (h : d.Inv) (he : d.done.get? id = some e) (hp : e.pending = false) :
    ∀ run ∈ d.runs, id ≠ run.id := by
  rintro run hrun rfl
  rw [h.unfinished run hrun e he] at hp
  cases hp

/-- A step keeps a recorded result that is one of the newest. -/
theorem spares_step (h : d.Inv) (he : d.done.get? id = some e) (hp : e.pending = false)
    (hnext : Spares endpointID e d d') : d'.done.get? id = some e := by
  obtain ⟨op, hstep, hnewest⟩ := hnext
  cases op with
  | receive =>
    obtain rfl := Except.ok.inj hstep
    simpa using he
  | claimSlot =>
    obtain ⟨-, rfl⟩ := ok_of_guard hstep
    simpa using he
  | begin run =>
    obtain ⟨hrun, rfl⟩ := ok_of_guard hstep
    simpa [begin, Dict.get?_insert, h.other he hp run hrun] using he
  | finish run =>
    obtain ⟨hrun, rfl⟩ := ok_of_guard hstep
    refine get?_prune_of_newest ?_ (hnewest _ _ rfl)
    rw [Dict.get?_insert, if_neg (h.other he hp run hrun)]
    exact he
  | resend =>
    obtain rfl := Except.ok.inj hstep
    exact get?_prune_of_newest he (hnewest _ _ rfl)
  | restart =>
    obtain rfl := Except.ok.inj hstep
    refine get?_prune_of_newest ?_ (hnewest _ _ rfl)
    -- it is on file, and no interrupted run
    have hdisk := h.saved id e he
    rw [get?_settleStarted, get?_loaded hdisk (h.named id e hdisk)]
    simp [hp]

theorem spares_steps (h : d.Inv) (he : d.done.get? id = some e) (hp : e.pending = false)
    (hrun : Relation.ReflTransGen (Spares endpointID e) d d') : d'.done.get? id = some e := by
  have both : d'.Inv ∧ d'.done.get? id = some e := by
    induction hrun with
    | refl => exact ⟨h, he⟩
    | tail _ hnext ih =>
      obtain ⟨op, hstep, hnewest⟩ := hnext
      exact ⟨deployer_inv_step endpointID op _ _ ih.1 hstep,
        spares_step ih.1 ih.2 hp ⟨op, hstep, hnewest⟩⟩
  exact both.2

/-- A recorded result is what it was, as long as it is remembered. -/
theorem fixed_step (h : d.Inv) (he : d.done.get? id = some e) (hp : e.pending = false)
    (hnext : Remembers endpointID id d d') : d'.done.get? id = some e := by
  obtain ⟨⟨op, hstep⟩, hsome⟩ := hnext
  obtain ⟨e', he'⟩ := Option.isSome_iff_exists.1 hsome
  rw [he']
  congr 1
  -- what is remembered after the step was remembered, in memory or on file, before it
  have hother := h.other he hp
  have hsame : ∀ e', d.done.get? id = some e' → e' = e := fun e' h' =>
    Option.some.inj (h'.symm.trans he)
  cases op with
  | receive =>
    obtain rfl := Except.ok.inj hstep
    exact hsame e' (by simpa using he')
  | claimSlot =>
    obtain ⟨-, rfl⟩ := ok_of_guard hstep
    exact hsame e' (by simpa using he')
  | begin run =>
    obtain ⟨hrun, rfl⟩ := ok_of_guard hstep
    simp only [begin, Dict.get?_insert, hother run hrun] at he'
    exact hsame e' he'
  | finish run =>
    obtain ⟨hrun, rfl⟩ := ok_of_guard hstep
    have hinsert := get?_of_prune he'
    rw [Dict.get?_insert, if_neg (hother run hrun)] at hinsert
    exact hsame e' hinsert
  | resend =>
    obtain rfl := Except.ok.inj hstep
    exact hsame e' (get?_of_prune he')
  | restart =>
    obtain rfl := Except.ok.inj hstep
    have hsettled := get?_of_prune he'
    rw [get?_settleStarted] at hsettled
    obtain ⟨e₀, he₀, rfl⟩ := Option.map_eq_some_iff.1 hsettled
    have : e₀ = e := Option.some.inj ((get?_of_loaded he₀).symm.trans (h.saved id e he))
    simp [this, hp]

theorem fixed_steps (h : d.Inv) (he : d.done.get? id = some e) (hp : e.pending = false)
    (hrun : Relation.ReflTransGen (Remembers endpointID id) d d') : d'.done.get? id = some e := by
  have both : d'.Inv ∧ d'.done.get? id = some e := by
    induction hrun with
    | refl => exact ⟨h, he⟩
    | tail _ hnext ih =>
      obtain ⟨op, hstep⟩ := hnext.1
      exact ⟨deployer_inv_step endpointID op _ _ ih.1 hstep, fixed_step ih.1 ih.2 hp hnext⟩
  exact both.2

/-- A frame for a remembered result is answered with it. -/
theorem receive_answers (h : d.Inv) (he : d.done.get? id = some e) (hp : e.pending = false)
    (hid : validDeploymentID id = true) {r : Request} (hr : r.id = id) :
    (receive endpointID r d).sent = (id, e.result) :: d.sent := by
  subst hr
  have hlive := h.not_running he hp (ne_empty_of_validDeploymentID hid)
  unfold receive
  rw [if_neg (by simp [hid]), if_neg (fun hl => hlive hl.2), he]
  rfl

end Once

/-- After any run of the agent that meets `ClockRoom`: one run at most is in progress; a remembered id
is not executed; a begun entry stays until its run finishes it, and a restart turns it into the
restarted result; a finished run's result is recorded as the run gave it, in memory and on file. A
recorded result stays, across restarts too, as long as every step that prunes finds it at most a day
old and one of the newest; while it is remembered it is as it was; and it answers every frame for
its id. -/
theorem runs_once (endpointID : String) (d : Deployer)
    (h : ((deployerMachine endpointID).restrict ClockRoom).Steps .new d) :
    d.runs.length ≤ 1 ∧
      (∀ id e, d.done.get? id = some e → ∀ d', (deployerMachine endpointID).Next d d' →
        ¬ Executes d d' id) ∧
      (∀ id e, d.done.get? id = some e → e.pending = true → ∀ op d', ClockRoom d op →
        (deployerMachine endpointID).step op d = .ok d' → Kept id e d' op) ∧
      (∀ run ∈ d.runs, ∀ res now, ClockRoom d (.finish run res now) →
        (finish run res now d).done.get? run.id = some ⟨readable run res, now, none, ""⟩ ∧
          (finish run res now d).disk = (finish run res now d).done) ∧
      ∀ id e, d.done.get? id = some e → e.pending = false →
        (∀ d', Relation.ReflTransGen (Spares endpointID e) d d' → d'.done.get? id = some e) ∧
          (∀ d', Relation.ReflTransGen (Remembers endpointID id) d d' →
            d'.done.get? id = some e) ∧
          ∀ r : Request, r.id = id → validDeploymentID id = true →
            (receive endpointID r d).sent = (id, e.result) :: d.sent := by
  have hinv : d.Inv := Machine.restrict_keeps
    (fun op d d' h _ hstep => deployer_inv_step endpointID op d d' h hstep) h inv_new
  refine ⟨hinv.length_runs, ?_, ?_, ?_, ?_⟩
  · intro id e he d' hnext
    exact not_executes he hnext
  · intro id e he hp op d' hroom hstep
    exact kept_step hinv he hp hroom hstep
  · intro run _ res now hroom
    exact finish_records res hroom
  · intro id e he hp
    exact ⟨fun d' hrun => spares_steps hinv he hp hrun, fun d' hrun => fixed_steps hinv he hp hrun,
      fun r hr hid => receive_answers hinv he hp hid hr⟩

/-! ## Concrete runs -/

/-- The id of the `n`th deployment. -/
def deploymentID (n : Nat) : String :=
  "00000000-0000-0000-0000-0000000000" ++ String.ofList [Text.hexDigit (n / 10), Text.hexDigit (n % 10)]

/-- A frame for this agent that passes its checks. -/
def applyFrame (n : Nat) : Request := ⟨deploymentID n, "r", "e", none, true⟩

def applyRun (n : Nat) : Run := ⟨deploymentID n, "r"⟩

/-- A deployment that begins and succeeds. -/
def deployed (n : Nat) (now : Int) : List DeployerOp :=
  [.receive (applyFrame n), .claimSlot (applyFrame n), .begin (applyRun n) now,
    .finish (applyRun n) ⟨"", "", some .succeeded, none, [], []⟩ now]

/-- A deployment that begins. -/
def interrupted (n : Nat) (now : Int) : List DeployerOp :=
  [.receive (applyFrame n), .claimSlot (applyFrame n), .begin (applyRun n) now]

/-- One result, then a run cut off by a restart: the result is as it was recorded, and both answer
when their frames come again. -/
theorem runs_once_control :
    let m := (deployerMachine "e").restrict ClockRoom
    let d := m.run (deployed 1 10 ++ interrupted 2 20 ++ [.restart 30]) .new
    let e := restarted 30 (deploymentID 2) ⟨noResult, 0, some 20, "r"⟩
    d.done.get? (deploymentID 1) =
        some ⟨⟨deploymentID 1, "r", some .succeeded, none, [], []⟩, 10, none, ""⟩ ∧
      d.done.get? (deploymentID 2) = some e ∧
      ∀ r : Request, r.id = deploymentID 2 →
        (receive "e" r d).sent = (deploymentID 2, e.result) :: d.sent := by
  intro m d e
  have he : d.done.get? (deploymentID 2) = some e := by decide +kernel
  refine ⟨by decide +kernel, he, ?_⟩
  intro r hr
  obtain ⟨-, -, -, -, hrecorded⟩ := runs_once "e" d (Machine.steps_run _ Deployer.new)
  exact (hrecorded _ e he (by decide +kernel)).2.2 r hr (by decide +kernel)

/-- A full ledger, all of whose results are stamped 100. -/
def fullLedger : List DeployerOp := (List.range 20).flatMap fun n => deployed (n + 1) 100

/-- The clock goes back behind the results on record. A process that starts then forgets the run
that had begun, and a run that finishes then is forgotten with its result; in both cases the same
frame executes again. -/
theorem clock_back_forgets :
    let m := deployerMachine "e"
    let d := m.run (fullLedger ++ interrupted 21 100) .new
    let again := [DeployerOp.receive (applyFrame 21), .claimSlot (applyFrame 21)]
    d.done.get? (deploymentID 21) = some ⟨noResult, 0, some 100, "r"⟩ ∧
      (restart 0 d).done.get? (deploymentID 21) = none ∧
      (m.run again (restart 0 d)).runs = [applyRun 21] ∧
      let d' := m.run (fullLedger ++ deployed 21 0) .new
      d'.sent.head? = some (deploymentID 21, ⟨deploymentID 21, "r", some .succeeded, none, [], []⟩) ∧
        d'.done.get? (deploymentID 21) = none ∧ (m.run again d').runs = [applyRun 21] := by
  decide +kernel

end KyYard.Agent
