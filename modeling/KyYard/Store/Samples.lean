import KyYard.Foundation.Table
import KyYard.Store.Spec

/-!
# Container samples and hourly rollups

Agents report samples of their containers, a pass of `rollUp` summarises ended hours of them and
`prune` deletes what is past retention. A pass takes the samples from `since` on and groups them by
hour; a summary replaces a stored one only if it counts at least as many samples.

`since` is an instant and need not start an hour. `rollups_whole_iff` says for which passes of a run
every summary written covers its whole hour; that a stored count never goes down holds for every
run. The pass of `rollup_of_half_an_hour` writes a summary of half an hour. `samples_bounded` bounds
what frames may store, whatever they report and however the clock moves.
-/

namespace KyYard.Store

open Foundation

/-! ## Rows -/

/-- One container's reading; a negative percentage or restart count is no answer. -/
structure Reading where
  containerID : String
  cpuPercent : Rat
  memoryBytes : Int
  memoryLimit : Int
  rxBytes : Int
  txBytes : Int
  pids : Int
  restartCount : Int
deriving DecidableEq

/-- A stored reading. -/
structure Sample extends Reading where
  endpointID : String
  observedAt : Int
deriving DecidableEq

def hour : Int := 3600 * 1000000000

/-- The start of the hour an instant lies in. -/
def hourOf (t : Int) : Int := t / hour * hour

/-- The key of a rollup: one hour. -/
structure RollupKey where
  endpointID : String
  containerID : String
  hour : Int
deriving DecidableEq

/-- A container's hour, summarised. -/
structure Rollup where
  key : RollupKey
  samples : Nat
  cpuAvg : Rat
  cpuMax : Rat
  memoryAvg : Int
  memoryMax : Int
  rxBytes : Int
  txBytes : Int
  pidsMax : Int
  restartCount : Int
deriving DecidableEq

/-- The hour a sample falls in. -/
def Sample.key (s : Sample) : RollupKey := ⟨s.endpointID, s.containerID, hourOf s.observedAt⟩

/-- The two tables. A container's hour has one summary. -/
structure Telemetry where
  samples : List Sample
  rollups : List Rollup
  distinct : (rollups.map Rollup.key).Nodup
deriving DecidableEq

/-- The stored summary of a container's hour. -/
def Telemetry.rollup (t : Telemetry) (k : RollupKey) : Option Rollup :=
  Table.find Rollup.key k t.rollups

/-! ## Recording -/

/-- A metrics frame; `observedAt` is `none` for the zero time. -/
structure Metrics where
  observedAt : Option Int
  samples : List Reading

def maxSamplesPerFrame : Nat := 1000
def sampleCadence : Int := 50 * 1000000000
def maxSkew : Int := 5 * 60 * 1000000000

/-- Why a frame is refused. -/
inductive SampleError
  | invalid
  | budget
deriving DecidableEq

/-- Few samples, of printable ids. -/
def validateSamples (m : Metrics) : Bool :=
  m.samples.length ≤ maxSamplesPerFrame && m.samples.all fun s =>
    s.containerID ≠ "" && s.containerID.utf8ByteSize ≤ 128 && displaySafe s.containerID

/-- The time a frame is stored under: its own, unless that is far from the server's clock. -/
def observedTime (m : Metrics) (now : Int) : Int :=
  match m.observedAt with
  | none => now
  | some t => if now + maxSkew < t ∨ t < now - maxSkew then now else t

/-- The newest sample of a container. -/
def newest (t : Telemetry) (endpoint container : String) : Option Int :=
  ((t.samples.filter fun s => s.endpointID == endpoint && s.containerID == container).map
    Sample.observedAt).max?

/-- The readings a frame adds: one per container, none within the cadence of its last. -/
def writes (t : Telemetry) (endpoint : String) (observed : Int) (readings : List Reading) :
    List Reading :=
  readings.foldl (fun out s =>
    if (newest t endpoint s.containerID).any (fun last => observed - last < sampleCadence) ||
        out.any (·.containerID == s.containerID) then out
    else out ++ [s]) []

/-- One metrics frame stored. `ceiling` bounds an endpoint's rows. -/
def recordSamples (ceiling : Nat) (endpoint : String) (m : Metrics) (now : Int) (t : Telemetry) :
    Except SampleError Telemetry :=
  if !validateSamples m then .error .invalid
  else
    let observed := observedTime m now
    let added := writes t endpoint observed m.samples
    if added = [] then .ok t
    else if ceiling < added.length then .error .budget
    else if ceiling - added.length < t.samples.countP (·.endpointID == endpoint) then .error .budget
    else
      let rows := added.map fun r => (⟨r, endpoint, observed⟩ : Sample)
      -- a row already stored for the same instant stays
      let fresh := rows.filter fun r => !t.samples.any fun s =>
        s.endpointID == r.endpointID && s.containerID == r.containerID &&
          s.observedAt == r.observedAt
      .ok { t with samples := t.samples ++ fresh }

/-! ## Retention -/

def sampleRetention : Int := 6 * hour
def rollupRetention : Int := 7 * 24 * hour
def degradedSampleRetention : Int := hour
def degradedRollupRetention : Int := 24 * hour

/-- A prune pass deletes rows past retention, a batch of them: which ones is the database's choice.
Retention is shorter under disk pressure. -/
def prune (pressure : Bool) (now : Int) (pickSample : Sample → Bool) (pickRollup : Rollup → Bool)
    (t : Telemetry) : Telemetry :=
  let samples := now - if pressure then degradedSampleRetention else sampleRetention
  let rollups := now - if pressure then degradedRollupRetention else rollupRetention
  { samples := t.samples.filter fun s => !(decide (s.observedAt < samples) && pickSample s)
    rollups := t.rollups.filter fun r => !(decide (r.key.hour < rollups) && pickRollup r)
    distinct := t.distinct.sublist (List.filter_sublist.map Rollup.key) }

/-! ## Rollups -/

inductive Driver
  | sqlite
  | postgres
deriving DecidableEq

/-- The cast of an average to an integer: SQLite cuts it, PostgreSQL rounds half away from zero. -/
def Driver.castInteger : Driver → Rat → Int
  | .sqlite, q => q.num.tdiv q.den
  | .postgres, q => if 0 ≤ q then ⌊q + 1 / 2⌋ else -⌊-q + 1 / 2⌋

/-- The mean of some numbers. -/
def average? (l : List Rat) : Option Rat := if l = [] then none else some (l.sum / l.length)

/-- The summary of some samples under a key. A negative percentage or restart count is left out. -/
def aggregate (d : Driver) (k : RollupKey) (samples : List Sample) : Rollup :=
  let cpu := (samples.map (·.cpuPercent)).filter fun q => decide (0 ≤ q)
  let restarts := (samples.map (·.restartCount)).filter fun n => decide (0 ≤ n)
  { key := k
    samples := samples.length
    cpuAvg := (average? cpu).getD (-1)
    cpuMax := cpu.max?.getD (-1)
    memoryAvg := d.castInteger ((average? (samples.map fun s => (s.memoryBytes : Rat))).getD 0)
    memoryMax := (samples.map (·.memoryBytes)).max?.getD 0
    rxBytes := (samples.map (·.rxBytes)).max?.getD 0
    txBytes := (samples.map (·.txBytes)).max?.getD 0
    pidsMax := (samples.map (·.pids)).max?.getD 0
    restartCount := restarts.max?.getD (-1) }

/-- The end of the last whole hour. -/
def cutoff (now : Int) : Int := hourOf now

/-- Where a pass starts: the time asked for, at most the raw window back. -/
def effectiveSince (since : Option Int) (now : Int) : Int :=
  match since with
  | none => cutoff now - sampleRetention
  | some s => if s < cutoff now - sampleRetention then cutoff now - sampleRetention else s

/-- The samples a pass reads. -/
def selected (t : Telemetry) (since : Option Int) (now : Int) : List Sample :=
  t.samples.filter fun s =>
    decide (s.observedAt < cutoff now) && decide (effectiveSince since now ≤ s.observedAt)

/-- The summaries a pass computes, one for each container and hour it read. -/
def rollupRows (d : Driver) (t : Telemetry) (since : Option Int) (now : Int) : List Rollup :=
  ((selected t since now).map Sample.key).dedup.map fun k =>
    aggregate d k ((selected t since now).filter fun s => s.key = k)

/-- A summary replaces a stored one if it counts at least as many samples. -/
def Rollup.lands (old new : Rollup) : Bool := decide (old.samples ≤ new.samples)

/-- One pass. -/
def rollUp (d : Driver) (since : Option Int) (now : Int) (t : Telemetry) : Telemetry :=
  { t with
    rollups := (rollupRows d t since now).foldl (Table.upsert Rollup.key Rollup.lands) t.rollups
    distinct := Table.nodup_foldl_upsert Rollup.key Rollup.lands t.distinct _ }

/-- The summaries a pass writes. -/
def written (d : Driver) (t : Telemetry) (since : Option Int) (now : Int) : List Rollup :=
  (rollupRows d t since now).filter fun r => (t.rollup r.key).all (·.lands r)

/-! ## Runs -/

/-- The writers of samples and rollups. -/
inductive TelemetryOp
  | record (endpoint : String) (m : Metrics) (now : Int)
  | prune (pressure : Bool) (now : Int) (pickSample : Sample → Bool) (pickRollup : Rollup → Bool)
  | rollUp (since : Option Int) (now : Int)

/-- One operation; a refused frame changes nothing. -/
def TelemetryOp.exec (d : Driver) (ceiling : Nat) (t : Telemetry) : TelemetryOp → Telemetry
  | .record endpoint m now => (recordSamples ceiling endpoint m now t).toOption.getD t
  | .prune pressure now pickSample pickRollup => Store.prune pressure now pickSample pickRollup t
  | .rollUp since now => Store.rollUp d since now t

/-- The operations of a run, each with the tables it met. -/
def telemetrySteps (d : Driver) (ceiling : Nat) :
    Telemetry → List TelemetryOp → List (Telemetry × TelemetryOp)
  | _, [] => []
  | t, op :: ops => (t, op) :: telemetrySteps d ceiling (op.exec d ceiling t) ops

/-! ## What a pass does to the summaries -/

theorem hourOf_le (t : Int) : hourOf t ≤ t := by
  unfold hourOf hour
  omega

theorem lt_hourOf_add (t : Int) : t < hourOf t + hour := by
  unfold hourOf hour
  omega

theorem hourOf_mono {s t : Int} (h : s ≤ t) : hourOf s ≤ hourOf t := by
  unfold hourOf hour
  omega

/-- Of two different hours the later starts when the earlier has ended. -/
theorem hourOf_add_le {s t : Int} (h : hourOf s < hourOf t) : hourOf s + hour ≤ hourOf t := by
  unfold hourOf hour at *
  omega

variable {t : Telemetry} {since : Option Int} {now : Int}

theorem hourOf_effectiveSince (h : hourOf (effectiveSince since now) ≠ effectiveSince since now) :
    since = some (effectiveSince since now) := by
  unfold effectiveSince at *
  have haligned : hourOf (cutoff now - sampleRetention) = cutoff now - sampleRetention := by
    unfold cutoff sampleRetention hourOf hour
    omega
  cases since with
  | none => exact absurd haligned h
  | some =>
    simp only at h ⊢
    split
    · next hlt => simp [hlt, haligned] at h
    · rfl

/-- A pass starts no earlier than asked. -/
theorem le_effectiveSince {s : Int} : s ≤ effectiveSince (some s) now := by
  unfold effectiveSince
  simp only
  split
  · next h => exact h.le
  · exact le_refl s

theorem mem_selected {s : Sample} :
    s ∈ selected t since now ↔
      s ∈ t.samples ∧ s.observedAt < cutoff now ∧ effectiveSince since now ≤ s.observedAt := by
  simp [selected]

theorem key_aggregate (d : Driver) (k : RollupKey) (samples : List Sample) :
    (aggregate d k samples).key = k := rfl

theorem mem_rollupRows {d : Driver} {r : Rollup} :
    r ∈ rollupRows d t since now ↔ (∃ s ∈ selected t since now, s.key = r.key) ∧
      r = aggregate d r.key ((selected t since now).filter fun s => s.key = r.key) := by
  unfold rollupRows
  simp only [List.mem_map, List.mem_dedup]
  constructor
  · rintro ⟨k, ⟨s, hs, rfl⟩, rfl⟩
    exact ⟨⟨s, hs, rfl⟩, rfl⟩
  · rintro ⟨⟨s, hs, hk⟩, hr⟩
    exact ⟨r.key, ⟨s, hs, hk⟩, hr.symm⟩

theorem mem_written {d : Driver} {r : Rollup} :
    r ∈ written d t since now ↔ r ∈ rollupRows d t since now ∧
      ∀ old, t.rollup r.key = some old → old.samples ≤ r.samples := by
  simp [written, Option.all_eq_true, Rollup.lands]

/-- After a pass a container's hour has the summary the pass wrote, or the one it had. -/
theorem rollup_rollUp (d : Driver) (since : Option Int) (now : Int) (t : Telemetry)
    (k : RollupKey) :
    (rollUp d since now t).rollup k =
      (Table.find Rollup.key k (rollupRows d t since now)).elim (t.rollup k) fun r =>
        some (Table.settled Rollup.lands (t.rollup k) r) := by
  apply Table.find_foldl_upsert
  simpa [rollupRows, Function.comp_def, key_aggregate] using List.nodup_dedup _

/-! ## Counts -/

/-- The stored count of a container's hour does not go down from one table to the next. -/
def NeverFewer (t t' : Telemetry) : Prop :=
  ∀ k r r', t.rollup k = some r → t'.rollup k = some r' → r.samples ≤ r'.samples

/-- Tables that only lose summaries. -/
theorem neverFewer_of_subset {t' : Telemetry} (h : t'.rollups ⊆ t.rollups) : NeverFewer t t' := by
  intro k r r' hr hr'
  have hmem := h (Table.mem_of_find Rollup.key hr')
  have hfind := Table.find_of_mem Rollup.key t.distinct hmem
  rw [Table.key_of_find Rollup.key hr'] at hfind
  rw [Option.some.inj (hr.symm.trans hfind)]

theorem neverFewer_rollUp (d : Driver) (since : Option Int) (now : Int) (t : Telemetry) :
    NeverFewer t (rollUp d since now t) := by
  intro k r r' hr hr'
  rw [rollup_rollUp, hr] at hr'
  cases hrow : Table.find Rollup.key k (rollupRows d t since now) with
  | none =>
    rw [hrow] at hr'
    rw [Option.some.inj hr']
  | some row =>
    rw [hrow] at hr'
    rw [← Option.some.inj hr', Table.settled]
    by_cases hl : r.lands row = true
    · rw [if_pos hl]
      exact of_decide_eq_true hl
    · rw [if_neg hl]

theorem rollups_recordSamples {ceiling : Nat} {endpoint : String} {m : Metrics}
    {t' : Telemetry} (h : recordSamples ceiling endpoint m now t = .ok t') :
    t'.rollups = t.rollups := by
  unfold recordSamples at h
  simp only at h
  repeat' split at h
  all_goals first
    | (cases h; done)
    | (obtain rfl := Except.ok.inj h; rfl)

theorem neverFewer_exec (d : Driver) (ceiling : Nat) (t : Telemetry) (op : TelemetryOp) :
    NeverFewer t (op.exec d ceiling t) := by
  cases op with
  | record endpoint m now =>
    cases h : recordSamples ceiling endpoint m now t with
    | error =>
      apply neverFewer_of_subset
      simp [TelemetryOp.exec, h, Except.toOption]
    | ok =>
      apply neverFewer_of_subset
      simp [TelemetryOp.exec, h, Except.toOption, rollups_recordSamples h]
  | prune =>
    exact neverFewer_of_subset (List.filter_subset_self _)
  | rollUp since now => exact neverFewer_rollUp d since now t

/-! ## Bounds -/

/-- An endpoint's rows are within the ceiling, and each sample is a cadence after those of its
container stored before it. -/
structure Telemetry.Bounded (ceiling : Nat) (t : Telemetry) : Prop where
  count : ∀ e, t.samples.countP (·.endpointID == e) ≤ ceiling
  apart : t.samples.Pairwise fun s s' => s.endpointID = s'.endpointID →
    s.containerID = s'.containerID → s.observedAt + sampleCadence ≤ s'.observedAt

/-- The container's last sample is less than a cadence old. -/
def recent (t : Telemetry) (endpoint : String) (observed : Int) (container : String) : Bool :=
  (newest t endpoint container).any fun last => observed - last < sampleCadence

/-- A frame is stored under a time near the clock: of each container without a recent sample its
first reading, and nothing else. -/
structure StoredWhole (endpoint : String) (m : Metrics) (now : Int) (t t' : Telemetry) : Prop where
  near : |observedTime m now - now| ≤ maxSkew
  rows : ∃ added : List Reading,
    t'.samples = t.samples ++ added.map (⟨·, endpoint, observedTime m now⟩) ∧
    ∀ c, added.filter (·.containerID == c) =
      if recent t endpoint (observedTime m now) c then []
      else (m.samples.find? (·.containerID == c)).toList

section Bounds

variable {ceiling : Nat} {endpoint : String} {m : Metrics} {now observed : Int} {t t' : Telemetry}

/-- The first reading of each container that has no recent sample. -/
theorem writes_filter (readings : List Reading) (c : String) :
    (writes t endpoint observed readings).filter (·.containerID == c) =
      if recent t endpoint observed c then [] else (readings.find? (·.containerID == c)).toList := by
  induction readings using List.reverseRecOn with
  | nil => cases recent t endpoint observed c <;> rfl
  | append_singleton l s ih =>
    have hstep : writes t endpoint observed (l ++ [s]) =
        if recent t endpoint observed s.containerID ||
            (writes t endpoint observed l).any (·.containerID == s.containerID)
        then writes t endpoint observed l else writes t endpoint observed l ++ [s] :=
      List.foldl_append
    rw [hstep, List.find?_append]
    by_cases hs : s.containerID = c
    · subst hs
      have hany : (writes t endpoint observed l).any (·.containerID == s.containerID) = true ↔
          (writes t endpoint observed l).filter (·.containerID == s.containerID) ≠ [] := by
        simp
      cases hr : recent t endpoint observed s.containerID with
      | true => simpa [hr] using ih
      | false =>
        rw [ih, hr] at hany
        -- a reading of the container before this one is the one taken
        cases hf : l.find? (·.containerID == s.containerID) with
        | none =>
          have hnone : (writes t endpoint observed l).any (·.containerID == s.containerID) = false := by
            simpa [hf] using hany
          simp [hnone, ih, hf]
        | some =>
          have hsome : (writes t endpoint observed l).any (·.containerID == s.containerID) = true := by
            simpa [hf] using hany
          simp [hsome, ih, hr, hf]
    · have hother : ([s].filter (·.containerID == c)) = [] := by simp [hs]
      have hfind : [s].find? (·.containerID == c) = none := by simp [hs]
      rw [hfind, Option.or_none, ← ih]
      split
      · rfl
      · rw [List.filter_append, hother, List.append_nil]

theorem nodup_writes (readings : List Reading) :
    ((writes t endpoint observed readings).map (·.containerID)).Nodup := by
  rw [List.nodup_iff_count_le_one]
  intro c
  have hle : ((writes t endpoint observed readings).filter (·.containerID == c)).length ≤ 1 := by
    rw [writes_filter]
    split
    · exact Nat.zero_le 1
    · exact Option.length_toList_le
  rw [List.count_eq_countP, List.countP_map, List.countP_eq_length_filter]
  exact hle

theorem not_recent_of_mem_writes {readings : List Reading} {r : Reading}
    (hr : r ∈ writes t endpoint observed readings) : recent t endpoint observed r.containerID = false := by
  by_contra hrecent
  have hmem : r ∈ (writes t endpoint observed readings).filter (·.containerID == r.containerID) :=
    List.mem_filter.2 ⟨hr, beq_self_eq_true _⟩
  rw [writes_filter, if_pos (by simpa using hrecent)] at hmem
  cases hmem

/-- A container that is not recent has every stored sample a cadence ago. -/
theorem cadence_of_not_recent {s : Sample} (hs : s ∈ t.samples)
    (h : recent t s.endpointID observed s.containerID = false) :
    s.observedAt + sampleCadence ≤ observed := by
  have hmem : s.observedAt ∈ (t.samples.filter fun x => x.endpointID == s.endpointID &&
      x.containerID == s.containerID).map Sample.observedAt :=
    List.mem_map_of_mem (List.mem_filter.2 ⟨hs, by simp⟩)
  cases hmax : newest t s.endpointID s.containerID with
  | none =>
    rw [newest, List.max?_eq_none_iff] at hmax
    rw [hmax] at hmem
    cases hmem
  | some last =>
    have hle : s.observedAt ≤ last := (List.max?_eq_some_iff.1 hmax).2 _ hmem
    simp only [recent, hmax, Option.any_some, decide_eq_false_iff_not] at h
    omega

theorem near_observedTime (m : Metrics) (now : Int) : |observedTime m now - now| ≤ maxSkew := by
  unfold observedTime
  split
  · simp [maxSkew]
  · split
    · simp [maxSkew]
    · rw [abs_le]
      omega

/-- An accepted frame writes every reading it may, and stays within the ceiling. -/
theorem recordSamples_ok (h : recordSamples ceiling endpoint m now t = .ok t') :
    let added := writes t endpoint (observedTime m now) m.samples
    t'.samples = t.samples ++ added.map (⟨·, endpoint, observedTime m now⟩) ∧
      (added = [] ∨ t.samples.countP (·.endpointID == endpoint) + added.length ≤ ceiling) := by
  intro added
  simp only [recordSamples] at h
  split at h
  · cases h
  split at h
  · next hnone =>
    obtain rfl := Except.ok.inj h
    exact ⟨by simp [added, hnone], .inl hnone⟩
  split at h
  · cases h
  split at h
  · cases h
  next hle hroom =>
  obtain rfl := Except.ok.inj h
  refine ⟨?_, .inr ?_⟩
  swap
  · show _ + (writes t endpoint (observedTime m now) m.samples).length ≤ ceiling
    omega
  -- no row of the same instant is stored: the container would be recent
  refine congrArg (t.samples ++ ·) (List.filter_eq_self.2 ?_)
  intro row hrow
  obtain ⟨r, hr, rfl⟩ := List.mem_map.1 hrow
  simp only [Bool.not_eq_true', List.any_eq_false, Bool.and_eq_true, beq_iff_eq]
  rintro s hs ⟨⟨rfl, hc⟩, hsame⟩
  have hold := not_recent_of_mem_writes hr
  rw [← hc] at hold
  have hcadence := cadence_of_not_recent hs hold
  simp only [sampleCadence] at hcadence
  omega

theorem bounded_recordSamples (ht : t.Bounded ceiling)
    (h : recordSamples ceiling endpoint m now t = .ok t') : t'.Bounded ceiling := by
  obtain ⟨hrows, hroom⟩ := recordSamples_ok h
  constructor
  · intro e
    rw [hrows, List.countP_append]
    by_cases he : e = endpoint
    · subst he
      rcases hroom with hnone | hroom
      · simpa [hnone] using ht.count e
      · exact (Nat.add_le_add_left (List.countP_le_length.trans_eq (List.length_map _)) _).trans hroom
    · have hzero : ((writes t endpoint (observedTime m now) m.samples).map
          (⟨·, endpoint, observedTime m now⟩ : Reading → Sample)).countP (·.endpointID == e) = 0 := by
        simp [Ne.symm he]
      rw [hzero]
      exact ht.count e
  · rw [hrows, List.pairwise_append]
    refine ⟨ht.apart, ?_, ?_⟩
    · refine List.pairwise_map.2 ((List.pairwise_map.1 (nodup_writes m.samples)).imp ?_)
      exact fun hne _ hc => absurd hc hne
    · rintro s hs row hrow he hc
      obtain ⟨r, hr, rfl⟩ := List.mem_map.1 hrow
      have hold := not_recent_of_mem_writes hr
      exact cadence_of_not_recent hs (by rwa [he, hc])

theorem bounded_exec (d : Driver) (op : TelemetryOp) (ht : t.Bounded ceiling) :
    (op.exec d ceiling t).Bounded ceiling := by
  cases op with
  | record endpoint m now =>
    cases h : recordSamples ceiling endpoint m now t with
    | error => simpa [TelemetryOp.exec, h, Except.toOption] using ht
    | ok => simpa [TelemetryOp.exec, h, Except.toOption] using bounded_recordSamples ht h
  | prune =>
    exact ⟨fun e => List.filter_sublist.countP_le.trans (ht.count e), ht.apart.sublist List.filter_sublist⟩
  | rollUp => exact ⟨ht.count, ht.apart⟩

theorem bounded_telemetrySteps (d : Driver) (ops : List TelemetryOp) (ht : t.Bounded ceiling) :
    ∀ x ∈ telemetrySteps d ceiling t ops, x.1.Bounded ceiling := by
  induction ops generalizing t with
  | nil =>
    intro x hx
    cases hx
  | cons op ops ih =>
    intro x hx
    rcases List.mem_cons.1 hx with rfl | hx
    · exact ht
    · exact ih (bounded_exec d op ht) x hx

/-- Along every run of frames, passes and prunes from an empty store, the samples stay within the
ceiling and a cadence apart, and a frame is stored whole near the clock or refused whole. -/
theorem samples_bounded (d : Driver) (ceiling : Nat) (ops : List TelemetryOp) :
    ∀ x ∈ telemetrySteps d ceiling ⟨[], [], List.nodup_nil⟩ ops,
      x.1.Bounded ceiling ∧ (x.2.exec d ceiling x.1).Bounded ceiling ∧
      ∀ endpoint m now, x.2 = .record endpoint m now →
        StoredWhole endpoint m now x.1 (x.2.exec d ceiling x.1) ∨ x.2.exec d ceiling x.1 = x.1 ∧
          ∃ e, recordSamples ceiling endpoint m now x.1 = .error e := by
  intro x hx
  have hempty : Telemetry.Bounded ceiling ⟨[], [], List.nodup_nil⟩ :=
    ⟨fun _ => Nat.zero_le _, List.Pairwise.nil⟩
  have ht := bounded_telemetrySteps d ops hempty x hx
  refine ⟨ht, bounded_exec d x.2 ht, ?_⟩
  intro endpoint m now hop
  rw [hop]
  cases h : recordSamples ceiling endpoint m now x.1 with
  | error e => exact .inr ⟨by simp [TelemetryOp.exec, h, Except.toOption], e, rfl⟩
  | ok =>
    refine .inl ⟨near_observedTime m now, _, ?_, writes_filter m.samples⟩
    simpa [TelemetryOp.exec, h, Except.toOption] using (recordSamples_ok h).1

/-- A second frame within the cadence stores nothing. -/
theorem samples_bounded_again :
    let frame : Metrics := ⟨none, [⟨"c", 1, 1, 1, 0, 0, 1, 0⟩]⟩
    ∃ x ∈ telemetrySteps .sqlite 1 ⟨[], [], List.nodup_nil⟩
        [.record "e" frame 0, .record "e" frame 1],
      x.1.samples.length = 1 ∧ x.1.Bounded 1 := by
  intro frame
  have h := samples_bounded .sqlite 1 [.record "e" frame 0, .record "e" frame 1] _
    (.tail _ (.head _))
  exact ⟨_, .tail _ (.head _), by decide +kernel, h.1⟩

end Bounds

/-! ## Whole hours -/

/-- Every summary a pass writes is that of all stored samples of its container and hour, and the
hour started at or after the time asked for. -/
def WholeHours (d : Driver) (t : Telemetry) (since : Option Int) (now : Int) : Prop :=
  ∀ r ∈ written d t since now,
    r = aggregate d r.key (t.samples.filter fun s => s.key = r.key) ∧
      ∀ s, since = some s → s ≤ r.key.hour

/-- The pass starts on an hour; or every container with a sample it reads from the hour it starts in
has a stored summary of more samples than those. -/
def StartsOnHour (t : Telemetry) (since : Option Int) (now : Int) : Prop :=
  hourOf (effectiveSince since now) = effectiveSince since now ∨
    ∀ s ∈ selected t since now, hourOf s.observedAt = hourOf (effectiveSince since now) →
      ∃ old, t.rollup s.key = some old ∧
        ((selected t since now).filter fun x => x.key = s.key).length < old.samples

/-- From an hour that starts within the pass every stored sample is read. -/
theorem selected_of_key {s : Sample}
    (hs : s ∈ selected t since now) (hstart : effectiveSince since now ≤ s.key.hour) :
    ((selected t since now).filter fun x => x.key = s.key) =
      t.samples.filter fun x => x.key = s.key := by
  obtain ⟨-, hcut, -⟩ := mem_selected.1 hs
  unfold selected
  rw [List.filter_filter]
  apply List.filter_congr
  intro x _
  by_cases hx : x.key = s.key
  · have hhour : hourOf x.observedAt = hourOf s.observedAt := congrArg RollupKey.hour hx
    have hbefore : x.observedAt < cutoff now := by
      have hle : hourOf s.observedAt + hour ≤ cutoff now := by
        unfold cutoff hourOf hour at *
        omega
      have := lt_hourOf_add x.observedAt
      omega
    have hafter : effectiveSince since now ≤ x.observedAt := by
      have := hourOf_le x.observedAt
      have : s.key.hour = hourOf s.observedAt := rfl
      omega
    simp [hbefore, hafter]
  · simp [hx]

/-- An hour that a pass reads started within it, or is the hour the pass starts in. -/
theorem start_le_or_eq {s : Sample} (hs : s ∈ selected t since now) :
    effectiveSince since now ≤ s.key.hour ∨
      hourOf s.observedAt = hourOf (effectiveSince since now) := by
  obtain ⟨-, -, hle⟩ := mem_selected.1 hs
  rcases (hourOf_mono hle).lt_or_eq with hlt | heq
  · left
    have h1 := hourOf_add_le hlt
    have h2 := lt_hourOf_add (effectiveSince since now)
    have : s.key.hour = hourOf s.observedAt := rfl
    omega
  · exact .inr heq.symm

theorem wholeHours_of_startsOnHour {d : Driver}
    (h : StartsOnHour t since now) : WholeHours d t since now := by
  intro r hr
  obtain ⟨hrow, hlands⟩ := mem_written.1 hr
  obtain ⟨⟨s, hs, hk⟩, hagg⟩ := mem_rollupRows.1 hrow
  have hstart : effectiveSince since now ≤ s.key.hour := by
    rcases start_le_or_eq hs with hle | heq
    · exact hle
    rcases h with haligned | hmore
    · have : s.key.hour = hourOf s.observedAt := rfl
      omega
    -- the summary of a part of the first hour would not be written
    obtain ⟨old, hold, hlt⟩ := hmore s hs heq
    have hle := hlands old (hk ▸ hold)
    rw [hagg] at hle
    simp only [aggregate, ← hk] at hle
    omega
  refine ⟨?_, ?_⟩
  · conv_lhs => rw [hagg]
    rw [← hk, selected_of_key hs hstart]
  · rintro x rfl
    rw [← hk]
    exact le_effectiveSince.trans hstart

theorem startsOnHour_of_wholeHours {d : Driver}
    (h : WholeHours d t since now) : StartsOnHour t since now := by
  by_cases haligned : hourOf (effectiveSince since now) = effectiveSince since now
  · exact .inl haligned
  right
  intro s hs heq
  by_contra hno
  -- nothing stored stops the summary of the part of the hour the pass read
  have hmem : aggregate d s.key ((selected t since now).filter fun x => x.key = s.key) ∈
      written d t since now := by
    rw [mem_written, mem_rollupRows]
    refine ⟨⟨⟨s, hs, rfl⟩, rfl⟩, ?_⟩
    intro old hold
    by_contra hlt
    exact hno ⟨old, hold, not_le.1 hlt⟩
  have hle := (h _ hmem).2 _ (hourOf_effectiveSince haligned)
  have hhour : s.key.hour = hourOf s.observedAt := rfl
  have := hourOf_le (effectiveSince since now)
  rw [key_aggregate] at hle
  omega

/-- Along every run stored counts never go down, and every summary written covers its whole hour
exactly when every pass starts on an hour or writes nothing for the hour it starts in. -/
theorem rollups_whole_iff (d : Driver) (ceiling : Nat) (t : Telemetry) (ops : List TelemetryOp) :
    (∀ x ∈ telemetrySteps d ceiling t ops, NeverFewer x.1 (x.2.exec d ceiling x.1) ∧
        ∀ since now, x.2 = .rollUp since now → WholeHours d x.1 since now) ↔
      ∀ x ∈ telemetrySteps d ceiling t ops,
        ∀ since now, x.2 = .rollUp since now → StartsOnHour x.1 since now := by
  constructor
  · intro h x hx since now hop
    exact startsOnHour_of_wholeHours ((h x hx).2 since now hop)
  · intro h x hx
    refine ⟨neverFewer_exec d ceiling x.1 x.2, ?_⟩
    intro since now hop
    exact wholeHours_of_startsOnHour (h x hx since now hop)

/-- A sample of a container at a minute of the epoch's day. -/
def sampleAt (minute : Int) : Sample :=
  { containerID := "c"
    cpuPercent := 1
    memoryBytes := 1
    memoryLimit := 1
    rxBytes := 0
    txBytes := 0
    pids := 1
    restartCount := 0
    endpointID := "e"
    observedAt := minute * 60 * 1000000000 }

/-- At 12:30 a pass that looks two hours back reads one of the two samples of the hour from ten and
writes its summary, although the hour started before the time asked for. -/
theorem rollup_of_half_an_hour :
    (written .sqlite ⟨[sampleAt 610, sampleAt 640], [], List.nodup_nil⟩
        (some (630 * 60 * 1000000000)) (750 * 60 * 1000000000)).map
        (fun r => (r.key.hour, r.samples)) = [(600 * 60 * 1000000000, 1)] ∧
      ¬ WholeHours .sqlite ⟨[sampleAt 610, sampleAt 640], [], List.nodup_nil⟩
        (some (630 * 60 * 1000000000)) (750 * 60 * 1000000000) := by
  constructor
  · decide +kernel
  · intro h
    rcases startsOnHour_of_wholeHours h with haligned | hmore
    · revert haligned
      decide
    · obtain ⟨old, hold, -⟩ := hmore (sampleAt 640) (by decide +kernel) (by decide)
      simp [Telemetry.rollup, Table.find] at hold

end KyYard.Store
