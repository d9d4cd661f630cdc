import KyYard.Api.LogStream

/-!
# Copying a container's log

A container with a terminal writes its log raw (`copyRaw`). Without one the daemon frames it: eight
bytes of header, the last four of them the length of the payload that follows. `Demux` is the loop
that takes the payloads out (`copyDemuxed`), as a machine. One operation is a read of the body, with
whatever bytes and error the body answers; the other is a step of the loop that needs no read, with
what the sink would answer if the step hands it a chunk. The buffered reader between the loop and the
body is modelled with its buffer, its pending error and the large reads that pass the buffer by.

`copies_payload`: over frames within the limit, however the body cuts them and wherever it ends, the
sink gets chunks within the limit that are the payload received, in order, and while the loop waits
for the body the only payload it holds is that of the read in progress.
-/

namespace KyYard.Docker.LogCopy

open Foundation
open Api (maxLogChunkBytes)

/-- A header that announces a longer frame is not trusted. -/
def dockerFrameLimit : Nat := 2 ^ 20

def headerBytes : Nat := 8

/-- The value of bytes, the most significant one first. -/
def bigEndian (bs : Bytes) : Nat := bs.foldl (fun n b => 256 * n + b.toNat) 0

/-- The error of a read. -/
inductive ReadErr where
  | eof
  | failed (reason : String)
deriving DecidableEq

/-- How a copy ends. -/
inductive Outcome where
  /-- The body ended, in good order or not. -/
  | body (err : ReadErr)
  | sink (reason : String)
  /-- A header announced too long a frame. -/
  | announced (size : Nat)
deriving DecidableEq

/-- A log that ends is not a failure. -/
def Outcome.err : Outcome → Option String
  | .body .eof => none
  | .body (.failed reason) => some reason
  | .sink reason => some reason
  | .announced size => some s!"the runtime announced a {size} byte log frame"

/-! ## A raw log -/

/-- The reads of a raw body, each handed on as it is, with what the sink answered to each. -/
def copyRaw : List (Bytes × Option ReadErr × Option String) → List Bytes × Option Outcome
  | [] => ([], none)
  | (data, err, sink) :: reads =>
    if data ≠ [] ∧ sink.isSome then ([data], sink.map .sink)
    else
      let passed := if data = [] then [] else [data]
      match err with
      | some e => (passed, some (.body e))
      | none =>
        let (more, outcome) := copyRaw reads
        (passed ++ more, outcome)

/-! ## A framed log -/

/-- What a read is for: a header, or `take` of the `remaining` bytes of a payload. -/
inductive Goal where
  | header
  | fill (remaining take : Nat)
deriving DecidableEq

/-- The bytes a read wants, -/
def Goal.size : Goal → Nat
  | .header => headerBytes
  | .fill _ take => take

/-- the place it needs in the chunk, -/
def Goal.room : Goal → Nat
  | .header => 0
  | .fill _ take => take

/-- and the payload in what it got. -/
def Goal.gains : Goal → Bytes → Bytes
  | .header, _ => []
  | .fill _ _, got => got

/-- Where the loop of `copyDemuxed` stands. -/
inductive Pc where
  /-- Between two frames. -/
  | frame
  /-- Inside a frame, with this much of its payload to come. -/
  | payload (remaining : Nat)
  /-- In a read that has `got`. -/
  | read (goal : Goal) (got : Bytes)
  | ended (outcome : Outcome)
deriving DecidableEq

/-- The reader of a framed log. -/
structure Demux where
  /-- The buffer of the reader. -/
  buffered : Bytes
  /-- The error it reports once the buffer is empty. -/
  readErr : Option ReadErr
  /-- Payload gathered for one chunk. -/
  chunk : Bytes
  pc : Pc
  /-- The chunks the sink got. -/
  passed : List Bytes
  /-- Every byte the body gave. -/
  received : Bytes
deriving DecidableEq

namespace Demux

def start : Demux := ⟨[], none, [], .frame, [], []⟩

/-- What was gathered is handed on; then the loop goes on, or ends with the sink's error. -/
def flush (s : Demux) (sink : Option String) (next : Pc) : Demux :=
  if s.chunk = [] then { s with pc := next }
  else
    { s with
      chunk := []
      passed := s.passed ++ [s.chunk]
      pc := match sink with
        | some reason => .ended (.sink reason)
        | none => next }

/-- A read has all it wants. -/
def complete (s : Demux) : Goal → Bytes → Demux
  | .header, got =>
    let size := bigEndian (got.drop 4)
    { s with pc := if size > dockerFrameLimit then .ended (.announced size) else .payload size }
  | .fill remaining take, got => { s with chunk := s.chunk ++ got, pc := .payload (remaining - take) }

/-- One step of the loop that reads nothing from the body. -/
def advance (sink : Option String) (s : Demux) : Except Unit Demux :=
  match s.pc with
  | .frame =>
    -- flush before any read that would wait on the daemon
    .ok (if s.buffered.length < headerBytes then s.flush sink (.read .header [])
      else { s with pc := .read .header [] })
  | .payload remaining =>
    if remaining = 0 then .ok { s with pc := .frame }
    else
      let take := min remaining (maxLogChunkBytes - s.chunk.length)
      .ok (if take = 0 ∨ s.buffered.length < take then
          s.flush sink (.read (.fill remaining (min remaining maxLogChunkBytes)) [])
        else { s with pc := .read (.fill remaining take) [] })
  | .read goal got =>
    if goal.size ≤ got.length then .ok (s.complete goal got)
    else if s.buffered ≠ [] then
      .ok { s with
        buffered := s.buffered.drop (goal.size - got.length)
        pc := .read goal (got ++ s.buffered.take (goal.size - got.length)) }
    else
      match s.readErr with
      | some e =>
        .ok ({ s with chunk := s.chunk ++ goal.gains got, readErr := none }.flush sink (.ended (.body e)))
      | none => .error ()
  | .ended _ => .error ()

/-- The loop waits on the body: a read is short of bytes, and the reader has none and no error. -/
def waits (s : Demux) : Option (Goal × Bytes) :=
  match s.pc with
  | .read goal got =>
    if got.length < goal.size ∧ s.buffered = [] ∧ s.readErr = none then some (goal, got) else none
  | _ => none

/-- A read of the body. One that wants as much as the buffer holds goes past the buffer, and its error
is lost when it is full. -/
def read (data : Bytes) (err : Option ReadErr) (s : Demux) : Except Unit Demux :=
  match s.waits with
  | none => .error ()
  | some (goal, got) =>
    if maxLogChunkBytes ≤ goal.size - got.length then
      if goal.size - got.length < data.length then .error ()
      else .ok { s with
        pc := .read goal (got ++ data)
        readErr := if data.length = goal.size - got.length then none else err
        received := s.received ++ data }
    else if maxLogChunkBytes < data.length then .error ()
    else .ok { s with buffered := data, readErr := err, received := s.received ++ data }

end Demux

inductive Op where
  | advance (sink : Option String)
  | read (data : Bytes) (err : Option ReadErr)
deriving DecidableEq

/-- The loop of `copyDemuxed` beside a body and a sink that answer as they like. -/
def copyDemuxed : Machine Demux Op Unit where
  step
    | .advance sink, s => s.advance sink
    | .read data err, s => s.read data err

/-! ## Frames -/

/-- A frame as the daemon writes it. -/
structure LogFrame where
  header : Bytes
  payload : Bytes
  whole : header.length = headerBytes
  announced : bigEndian (header.drop 4) = payload.length
  fits : payload.length ≤ dockerFrameLimit

/-- The bytes of frames. -/
def stream (frames : List LogFrame) : Bytes := frames.flatMap fun f => f.header ++ f.payload

/-- The payload of frames. -/
def payloads (frames : List LogFrame) : Bytes := frames.flatMap LogFrame.payload

/-- The payload among the first `n` bytes of frames. -/
def payloadIn : List LogFrame → Nat → Bytes
  | [], _ => []
  | f :: frames, n =>
    f.payload.take (n - headerBytes) ++ payloadIn frames (n - headerBytes - f.payload.length)

/-- The body gives the bytes of these frames, in order. -/
def Feeds (frames : List LogFrame) (s : Demux) : Op → Prop
  | .read data _ => s.received ++ data <+: stream frames
  | .advance _ => True

instance (frames : List LogFrame) (s : Demux) (op : Op) : Decidable (Feeds frames s op) := by
  cases op with
  | read data err => exact inferInstanceAs (Decidable (_ <+: _))
  | advance sink => exact instDecidableTrue

/-- The payload of a read in progress. -/
def Pc.payloadRead : Pc → Bytes
  | .read goal got => goal.gains got
  | _ => []

theorem stream_append (frames more : List LogFrame) :
    stream (frames ++ more) = stream frames ++ stream more := List.flatMap_append

theorem payloadIn_header (frames : List LogFrame) {n : Nat} (h : n ≤ headerBytes) :
    payloadIn frames n = [] := by
  induction frames generalizing n with
  | nil => rfl
  | cons f frames ih =>
    rw [payloadIn, Nat.sub_eq_zero_of_le h, Nat.zero_sub, ih (Nat.zero_le _)]
    rfl

/-- Whole frames come with all their payload. -/
theorem payloadIn_append (done todo : List LogFrame) (n : Nat) :
    payloadIn (done ++ todo) ((stream done).length + n) = payloads done ++ payloadIn todo n := by
  induction done with
  | nil => simp [stream, payloads]
  | cons f done ih =>
    have hlen : (stream (f :: done)).length =
        headerBytes + f.payload.length + (stream done).length := by
      simp [stream, f.whole, Nat.add_assoc]
    have hall : f.payload.length ≤ (stream (f :: done)).length + n - headerBytes := by omega
    have hrest : (stream (f :: done)).length + n - headerBytes - f.payload.length =
        (stream done).length + n := by omega
    rw [List.cons_append, payloadIn, List.take_of_length_le hall, hrest, ih, ← List.append_assoc]
    rfl

/-- A frame that is cut off comes with the payload before the cut. -/
theorem payloadIn_frame {f : LogFrame} (todo : List LogFrame) {p : Bytes} (h : p <+: f.payload) :
    payloadIn (f :: todo) (headerBytes + p.length) = p := by
  have hrest : p.length - f.payload.length = 0 := Nat.sub_eq_zero_of_le h.length_le
  rw [payloadIn, Nat.add_sub_cancel_left, hrest, payloadIn_header todo (Nat.zero_le _),
    List.append_nil]
  exact (List.prefix_iff_eq_take.1 h).symm

/-- More bytes only add payload. -/
theorem payloadIn_mono (frames : List LogFrame) {m n : Nat} (h : m ≤ n) :
    payloadIn frames m <+: payloadIn frames n := by
  induction frames generalizing m n with
  | nil => exact List.prefix_rfl
  | cons f frames ih =>
    rw [payloadIn, payloadIn]
    by_cases hall : f.payload.length ≤ m - headerBytes
    · -- the frame is whole in both
      rw [List.take_of_length_le hall, List.take_of_length_le (by omega)]
      exact (List.prefix_append_right_inj _).2 (ih (by omega))
    · have hzero : m - headerBytes - f.payload.length = 0 := by omega
      rw [hzero, payloadIn_header frames (Nat.zero_le _), List.append_nil]
      exact (List.take_prefix_take_left (by omega)).trans (List.prefix_append _ _)

/-! ## Where the loop stands in the frames -/

/-- The loop at `pc` has read `consumed`, and `handed` is the payload it gathered or handed on. -/
inductive Stands (frames : List LogFrame) : Pc → Bytes → Bytes → Prop
  | frame {done todo : List LogFrame} : frames = done ++ todo →
      Stands frames .frame (stream done) (payloads done)
  | header {done todo : List LogFrame} {got : Bytes} : frames = done ++ todo →
      got.length ≤ headerBytes →
      Stands frames (.read .header got) (stream done ++ got) (payloads done)
  | payload {done todo : List LogFrame} {f : LogFrame} {p : Bytes} {remaining : Nat} :
      frames = done ++ f :: todo → p.length + remaining = f.payload.length →
      Stands frames (.payload remaining) (stream done ++ (f.header ++ p)) (payloads done ++ p)
  | fill {done todo : List LogFrame} {f : LogFrame} {p got : Bytes} {remaining take : Nat} :
      frames = done ++ f :: todo → p.length + remaining = f.payload.length → take ≤ remaining →
      got.length ≤ take →
      Stands frames (.read (.fill remaining take) got) (stream done ++ (f.header ++ (p ++ got)))
        (payloads done ++ p)

/-- What is read of a frame is the start of it. -/
theorem prefix_payload {f : LogFrame} {todo : List LogFrame} {p rest : Bytes}
    (h : f.header ++ p ++ rest <+: stream (f :: todo)) (hlen : p.length ≤ f.payload.length) :
    p <+: f.payload := by
  have hp : f.header ++ p <+: f.header ++ (f.payload ++ stream todo) := by
    have hstream : stream (f :: todo) = f.header ++ (f.payload ++ stream todo) := by simp [stream]
    rw [← hstream]
    exact (List.prefix_append _ _).trans h
  rw [List.prefix_append_right_inj] at hp
  exact List.prefix_of_prefix_length_le hp (List.prefix_append _ _) hlen

/-- The payload among the bytes read is what was handed on and what the read in progress has. -/
theorem Stands.payload_eq {frames : List LogFrame} {pc : Pc} {consumed handed rest : Bytes}
    (h : Stands frames pc consumed handed) (hfed : consumed ++ rest <+: stream frames) :
    handed ++ pc.payloadRead = payloadIn frames consumed.length := by
  -- within a frame: the payload of the frames before it, and the part read of its own
  have hwithin : ∀ {done todo : List LogFrame} {f : LogFrame} {q : Bytes},
      frames = done ++ f :: todo → consumed = stream done ++ (f.header ++ q) →
      q.length ≤ f.payload.length → payloads done ++ q = payloadIn frames consumed.length := by
    intro done todo f q hframes hconsumed hlen
    have hq : q <+: f.payload := by
      rw [hframes, hconsumed, stream_append, List.append_assoc, List.prefix_append_right_inj] at hfed
      exact prefix_payload hfed hlen
    rw [hframes, hconsumed, List.length_append, payloadIn_append, List.length_append, f.whole,
      payloadIn_frame todo hq]
  cases h with
  | @frame done todo hframes =>
    have hall := payloadIn_append done todo 0
    rw [payloadIn_header todo (Nat.zero_le _), ← hframes, Nat.add_zero] at hall
    rw [hall]
    rfl
  | @header done todo got hframes hgot =>
    rw [List.length_append, hframes, payloadIn_append, payloadIn_header todo hgot]
    rfl
  | @payload done todo f p remaining hframes hp =>
    have hpayload := hwithin hframes rfl (by omega)
    simpa [Pc.payloadRead] using hpayload
  | @fill done todo f p got remaining take hframes hp htake hgot =>
    have hlen : (p ++ got).length ≤ f.payload.length := by
      rw [List.length_append]
      omega
    rw [List.append_assoc]
    exact hwithin hframes rfl hlen

/-- How far the loop is, once it is over. -/
def Outcome.Leaves (frames : List LogFrame) (s : Demux) : Outcome → Prop
  | .body _ => s.passed.flatten = payloadIn frames s.received.length
  | .sink _ => s.passed.flatten <+: payloadIn frames s.received.length
  | .announced _ => False

/-- A chunk in hand fits its buffer with what the read in progress adds, and a read that would wait has
no chunk in hand. -/
def Demux.Room (s : Demux) : Prop :=
  match s.pc with
  | .read goal got => s.chunk.length + goal.room ≤ maxLogChunkBytes ∧
      (s.chunk = [] ∨ goal.size ≤ got.length + s.buffered.length)
  | _ => s.chunk.length ≤ maxLogChunkBytes

/-- The loop is in the middle of the frames, with `consumed` read. -/
structure Copying (frames : List LogFrame) (s : Demux) (consumed : Bytes) : Prop where
  received : s.received = consumed ++ s.buffered
  stands : Stands frames s.pc consumed (s.passed.flatten ++ s.chunk)
  room : s.Room

/-- The invariant. -/
structure Inv (frames : List LogFrame) (s : Demux) : Prop where
  fed : s.received <+: stream frames
  small : ∀ c ∈ s.passed, c.length ≤ maxLogChunkBytes
  copy : (∃ consumed, Copying frames s consumed) ∨
    ∃ outcome : Outcome, s.pc = .ended outcome ∧ outcome.Leaves frames s

theorem Inv.start (frames : List LogFrame) : Inv frames .start := by
  refine ⟨List.nil_prefix, fun c hc => absurd hc List.not_mem_nil, .inl ⟨[], rfl, ?_, ?_⟩⟩
  · exact (.frame rfl : Stands frames .frame (stream []) (payloads []))
  · exact Nat.zero_le _

/-- What a flush does, whatever the sink answers. -/
theorem flush_eq (s : Demux) (sink : Option String) (next : Pc) :
    ∃ passed pc, s.flush sink next = { s with chunk := [], passed := passed, pc := pc } ∧
      passed.flatten = s.passed.flatten ++ s.chunk ∧ (∀ c ∈ passed, c ∈ s.passed ∨ c = s.chunk) ∧
      (pc = next ∨ ∃ reason, pc = .ended (.sink reason)) := by
  obtain ⟨buffered, readErr, chunk, at', passed, received⟩ := s
  unfold Demux.flush
  by_cases hchunk : chunk = []
  · subst hchunk
    refine ⟨passed, next, rfl, ?_, fun c hc => .inl hc, .inl rfl⟩
    exact (List.append_nil _).symm
  · rw [if_neg hchunk]
    refine ⟨passed ++ [chunk], _, rfl, ?_, ?_, ?_⟩
    · rw [List.flatten_append, List.flatten_singleton]
    · intro c hc
      rcases List.mem_append.1 hc with hc | hc
      · exact .inl hc
      · exact .inr (List.mem_singleton.1 hc)
    · cases sink with
      | none => exact .inl rfl
      | some reason => exact .inr ⟨reason, rfl⟩

section Step

variable {frames : List LogFrame} {s s' : Demux} {consumed : Bytes}

/-- A flush hands on what there is, and the loop goes on behind it. -/
theorem Inv.flush (hfed : s.received <+: stream frames)
    (hsmall : ∀ c ∈ s.passed, c.length ≤ maxLogChunkBytes)
    (hchunk : s.chunk.length ≤ maxLogChunkBytes)
    (hhanded : s.passed.flatten ++ s.chunk <+: payloadIn frames s.received.length)
    (sink : Option String) {next : Pc}
    (hnext : ∀ passed, passed.flatten = s.passed.flatten ++ s.chunk →
      (∃ consumed, Copying frames { s with chunk := [], passed := passed, pc := next } consumed) ∨
        ∃ outcome : Outcome, next = .ended outcome ∧
          outcome.Leaves frames { s with chunk := [], passed := passed, pc := next }) :
    Inv frames (s.flush sink next) := by
  obtain ⟨passed, pc, hflush, hflat, hmem, hpc⟩ := flush_eq s sink next
  rw [hflush]
  refine ⟨hfed, ?_, ?_⟩
  · intro c hc
    rcases hmem c hc with hold | rfl
    · exact hsmall c hold
    · exact hchunk
  · rcases hpc with rfl | ⟨reason, rfl⟩
    · exact hnext passed hflat
    · refine .inr ⟨.sink reason, rfl, ?_⟩
      show passed.flatten <+: _
      rw [hflat]
      exact hhanded

theorem Copying.fed (h : Copying frames s consumed) (hfed : s.received <+: stream frames) :
    consumed ++ s.buffered <+: stream frames := h.received ▸ hfed

/-- What was gathered or handed on is payload received. -/
theorem Copying.handed (h : Copying frames s consumed) (hfed : s.received <+: stream frames) :
    s.passed.flatten ++ s.chunk <+: payloadIn frames s.received.length := by
  have heq := h.stands.payload_eq (h.fed hfed)
  have hmono : payloadIn frames consumed.length <+: payloadIn frames s.received.length := by
    apply payloadIn_mono
    rw [h.received, List.length_append]
    exact Nat.le_add_right _ _
  rw [← heq] at hmono
  exact (List.prefix_append _ _).trans hmono

/-- Away from a read only the size of the chunk matters. -/
theorem Copying.chunk_le (h : Copying frames s consumed) : s.chunk.length ≤ maxLogChunkBytes := by
  have hroom := h.room
  unfold Demux.Room at hroom
  split at hroom
  · exact (Nat.le_add_right _ _).trans hroom.1
  · exact hroom

/-! ## One step -/

variable {goal : Goal} {handed got : Bytes} {sink : Option String}

/-- A read starts, of bytes that are all in the buffer. -/
theorem Inv.begin (h : Inv frames s) (hcopy : Copying frames s consumed)
    (hstands : Stands frames (.read goal []) consumed (s.passed.flatten ++ s.chunk))
    (hroom : s.chunk.length + goal.room ≤ maxLogChunkBytes)
    (hready : goal.size ≤ s.buffered.length) : Inv frames { s with pc := .read goal [] } := by
  refine ⟨h.fed, h.small, .inl ⟨consumed, hcopy.received, hstands, hroom, .inr ?_⟩⟩
  rw [List.length_nil, Nat.zero_add]
  exact hready

/-- A read starts that may wait, with nothing in hand. -/
theorem Inv.begin_flush (h : Inv frames s) (hcopy : Copying frames s consumed)
    (hstands : Stands frames (.read goal []) consumed (s.passed.flatten ++ s.chunk))
    (hroom : goal.room ≤ maxLogChunkBytes) (sink : Option String) :
    Inv frames (s.flush sink (.read goal [])) := by
  refine Inv.flush h.fed h.small hcopy.chunk_le (hcopy.handed h.fed) sink fun passed hflat => ?_
  refine .inl ⟨consumed, hcopy.received, ?_, ?_, .inl rfl⟩
  · rw [List.append_nil, hflat]
    exact hstands
  · rw [List.length_nil, Nat.zero_add]
    exact hroom

theorem Stands.begin_header (h : Stands frames .frame consumed handed) :
    Stands frames (.read .header []) consumed handed := by
  cases h with
  | @frame done todo hframes =>
    have hnone : Stands frames (.read .header []) (stream done ++ []) (payloads done) :=
      .header hframes (Nat.zero_le _)
    rwa [List.append_nil] at hnone

theorem Stands.begin_fill {remaining take : Nat}
    (h : Stands frames (.payload remaining) consumed handed) (htake : take ≤ remaining) :
    Stands frames (.read (.fill remaining take) []) consumed handed := by
  cases h with
  | @payload done todo f p _ hframes hp =>
    have hnone : Stands frames (.read (.fill remaining take) [])
        (stream done ++ (f.header ++ (p ++ []))) (payloads done ++ p) :=
      .fill hframes hp htake (Nat.zero_le _)
    rwa [List.append_nil] at hnone

/-- A frame whose payload is all read is done. -/
theorem Stands.done {rest : Bytes} (h : Stands frames (.payload 0) consumed handed)
    (hfed : consumed ++ rest <+: stream frames) : Stands frames .frame consumed handed := by
  cases h with
  | @payload done todo f p _ hframes hp =>
    have hwhole : p = f.payload := by
      rw [hframes, stream_append, List.append_assoc, List.prefix_append_right_inj] at hfed
      exact (prefix_payload hfed hp.le).eq_of_length hp
    have hdone : Stands frames .frame (stream (done ++ [f])) (payloads (done ++ [f])) := by
      apply Stands.frame
      rw [hframes, List.append_assoc]
      rfl
    have hstream : stream (done ++ [f]) = stream done ++ (f.header ++ p) := by
      simp [stream, hwhole]
    have hpayloads : payloads (done ++ [f]) = payloads done ++ p := by
      simp [payloads, hwhole]
    rwa [hstream, hpayloads] at hdone

/-- A header that is read is that of the next frame. -/
theorem Stands.header_full {rest : Bytes} (h : Stands frames (.read .header got) consumed handed)
    (hfed : consumed ++ rest <+: stream frames) (hfull : headerBytes ≤ got.length) :
    ∃ f : LogFrame, got = f.header ∧
      Stands frames (.payload f.payload.length) consumed handed := by
  cases h with
  | @header done todo _ hframes hgot =>
    have hlen : got.length = headerBytes := le_antisymm hgot hfull
    have hnext : got <+: stream todo := by
      rw [hframes, stream_append, List.append_assoc, List.prefix_append_right_inj] at hfed
      exact (List.prefix_append _ _).trans hfed
    cases todo with
    | nil =>
      -- no frame is left, and eight bytes of it were read
      have hnone := hnext.length_le
      rw [hlen] at hnone
      exact absurd hnone (by decide)
    | cons f todo =>
      have hheader : got = f.header := by
        have hwhole : f.header <+: stream (f :: todo) := by simp [stream]
        exact (List.prefix_of_prefix_length_le hnext hwhole (by rw [hlen, f.whole])).eq_of_length
          (by rw [hlen, f.whole])
      refine ⟨f, hheader, ?_⟩
      have hstart : Stands frames (.payload f.payload.length) (stream done ++ (f.header ++ []))
          (payloads done ++ []) := .payload hframes (Nat.zero_add _)
      rw [List.append_nil, List.append_nil] at hstart
      rw [hheader]
      exact hstart

theorem Stands.fill_full {remaining take : Nat}
    (h : Stands frames (.read (.fill remaining take) got) consumed handed)
    (hfull : take ≤ got.length) :
    got.length = take ∧ Stands frames (.payload (remaining - take)) consumed (handed ++ got) := by
  cases h with
  | @fill done todo f p _ _ _ hframes hp htake hgot =>
    refine ⟨le_antisymm hgot hfull, ?_⟩
    rw [List.append_assoc]
    apply Stands.payload hframes
    rw [List.length_append]
    omega

theorem Inv.complete (h : Inv frames s) (hcopy : Copying frames s consumed)
    (hpc : s.pc = .read goal got) (hfull : goal.size ≤ got.length) :
    Inv frames (s.complete goal got) := by
  have hstands := hcopy.stands
  have hroom := hcopy.room
  unfold Demux.Room at hroom
  rw [hpc] at hstands hroom
  cases goal with
  | header =>
    obtain ⟨f, rfl, hpayload⟩ := hstands.header_full (hcopy.fed h.fed) hfull
    rw [Demux.complete, f.announced, if_neg (Nat.not_lt.2 f.fits)]
    exact ⟨h.fed, h.small, .inl ⟨consumed, hcopy.received, hpayload, hcopy.chunk_le⟩⟩
  | fill =>
    obtain ⟨hgot, hpayload⟩ := hstands.fill_full hfull
    refine ⟨h.fed, h.small, .inl ⟨consumed, hcopy.received, ?_, ?_⟩⟩
    · rw [List.append_assoc] at hpayload
      exact hpayload
    · show (s.chunk ++ got).length ≤ maxLogChunkBytes
      rw [List.length_append, hgot]
      exact hroom.1

/-- A read in progress gets bytes, up to as many as it wants. -/
theorem Stands.add {data : Bytes} (h : Stands frames (.read goal got) consumed handed)
    (hdata : got.length + data.length ≤ goal.size) :
    Stands frames (.read goal (got ++ data)) (consumed ++ data) handed := by
  rw [← List.length_append] at hdata
  cases h with
  | header hframes =>
    rw [List.append_assoc]
    exact Stands.header hframes hdata
  | fill hframes hp htake =>
    simp only [List.append_assoc]
    exact Stands.fill hframes hp htake hdata

/-- Bytes move from the buffer into the read. -/
theorem Inv.move (h : Inv frames s) (hcopy : Copying frames s consumed)
    (hpc : s.pc = .read goal got) (hshort : got.length < goal.size) :
    Inv frames { s with
      buffered := s.buffered.drop (goal.size - got.length)
      pc := .read goal (got ++ s.buffered.take (goal.size - got.length)) } := by
  have hstands := hcopy.stands
  have hroom := hcopy.room
  unfold Demux.Room at hroom
  rw [hpc] at hstands hroom
  refine ⟨h.fed, h.small, .inl ⟨consumed ++ s.buffered.take (goal.size - got.length), ?_, ?_, ?_⟩⟩
  · rw [List.append_assoc, List.take_append_drop]
    exact hcopy.received
  · refine hstands.add ?_
    rw [List.length_take]
    omega
  · refine ⟨hroom.1, hroom.2.imp_right fun hready => ?_⟩
    rw [List.length_append, List.length_take]
    omega

/-- The body has ended: what the read in progress got is handed on with the rest. -/
theorem Inv.finish (h : Inv frames s) (hcopy : Copying frames s consumed)
    (hpc : s.pc = .read goal got) (hshort : got.length < goal.size) (hempty : s.buffered = [])
    (sink : Option String) (e : ReadErr) :
    Inv frames (Demux.flush { s with chunk := s.chunk ++ goal.gains got, readErr := none } sink
      (.ended (.body e))) := by
  have hall : s.passed.flatten ++ (s.chunk ++ goal.gains got) =
      payloadIn frames s.received.length := by
    have heq := hcopy.stands.payload_eq (hcopy.fed h.fed)
    rw [hpc] at heq
    rw [hcopy.received, hempty, List.append_nil, ← heq, List.append_assoc]
    rfl
  have hlen : (s.chunk ++ goal.gains got).length ≤ maxLogChunkBytes := by
    have hroom := hcopy.room
    unfold Demux.Room at hroom
    rw [hpc] at hroom
    rw [List.length_append]
    refine le_trans (Nat.add_le_add_left ?_ _) hroom.1
    cases goal with
    | header => exact Nat.zero_le _
    | fill => exact hshort.le
  refine Inv.flush (s := { s with chunk := s.chunk ++ goal.gains got, readErr := none })
    h.fed h.small hlen ?_ sink fun passed hflat => .inr ⟨.body e, rfl, ?_⟩
  · rw [hall]
  · show passed.flatten = _
    rw [hflat]
    exact hall

theorem Inv.advance (h : Inv frames s) (hstep : s.advance sink = .ok s') : Inv frames s' := by
  have hcopy : ∃ consumed, Copying frames s consumed := by
    refine h.copy.resolve_right ?_
    rintro ⟨outcome, hover, -⟩
    rw [Demux.advance, hover] at hstep
    cases hstep
  obtain ⟨consumed, hcopy⟩ := hcopy
  have hstands := hcopy.stands
  have hchunk := hcopy.chunk_le
  cases hpc : s.pc with
  | frame =>
    rw [Demux.advance, hpc] at hstep
    rw [hpc] at hstands
    cases hstep
    split
    · exact h.begin_flush hcopy hstands.begin_header (Nat.zero_le _) sink
    · next hready => exact h.begin hcopy hstands.begin_header hchunk (Nat.le_of_not_lt hready)
  | payload remaining =>
    rw [Demux.advance, hpc] at hstep
    rw [hpc] at hstands
    dsimp only at hstep
    split at hstep
    · next hzero =>
      cases hstep
      rw [hzero] at hstands
      exact ⟨h.fed, h.small, .inl ⟨consumed, hcopy.received, hstands.done (hcopy.fed h.fed), hchunk⟩⟩
    · cases hstep
      split
      · exact h.begin_flush hcopy (hstands.begin_fill (Nat.min_le_left _ _)) (Nat.min_le_right _ _)
          sink
      · next hready =>
        refine h.begin hcopy (hstands.begin_fill (Nat.min_le_left _ _)) ?_ ?_
        · show s.chunk.length + min remaining (maxLogChunkBytes - s.chunk.length) ≤ _
          omega
        · exact Nat.le_of_not_lt fun hlt => hready (.inr hlt)
  | read =>
    rw [Demux.advance, hpc] at hstep
    dsimp only at hstep
    split at hstep
    · next hfull =>
      cases hstep
      exact h.complete hcopy hpc hfull
    · next hshort =>
      split at hstep
      · cases hstep
        exact h.move hcopy hpc (Nat.lt_of_not_le hshort)
      next hempty =>
      split at hstep
      · next e _ =>
        cases hstep
        exact h.finish hcopy hpc (Nat.lt_of_not_le hshort) (not_not.1 hempty) sink e
      · cases hstep
  | ended =>
    rw [hpc] at hstands
    cases hstands

/-! ## Reads -/

theorem waits_eq_some (h : s.waits = some (goal, got)) :
    s.pc = .read goal got ∧ got.length < goal.size ∧ s.buffered = [] ∧ s.readErr = none := by
  unfold Demux.waits at h
  split at h
  · next hpc =>
    split at h
    · next hwait =>
      cases h
      exact ⟨hpc, hwait⟩
    · cases h
  · cases h

/-- A loop that waits has nothing in hand. -/
theorem Copying.idle (h : Copying frames s consumed)
    (hwaits : s.waits = some (goal, got)) : s.chunk = [] := by
  obtain ⟨hpc, hshort, hempty, -⟩ := waits_eq_some hwaits
  have hroom := h.room
  unfold Demux.Room at hroom
  rw [hpc] at hroom
  refine hroom.2.resolve_right fun hready => ?_
  rw [hempty] at hready
  exact absurd hready (Nat.not_le.2 hshort)

theorem Inv.waiting (h : Inv frames s)
    (hwaits : s.waits = some (goal, got)) : ∃ consumed, Copying frames s consumed := by
  refine h.copy.resolve_right ?_
  rintro ⟨outcome, hover, -⟩
  rw [(waits_eq_some hwaits).1] at hover
  cases hover

theorem Inv.read (h : Inv frames s) {data : Bytes} {err : Option ReadErr}
    (hfeeds : s.received ++ data <+: stream frames) (hstep : s.read data err = .ok s') :
    Inv frames s' := by
  unfold Demux.read at hstep
  split at hstep
  · cases hstep
  next goal got hwaits =>
  obtain ⟨consumed, hcopy⟩ := h.waiting hwaits
  obtain ⟨hpc, hshort, hempty, -⟩ := waits_eq_some hwaits
  have hidle := hcopy.idle hwaits
  have hreceived := hcopy.received
  have hstands := hcopy.stands
  have hroom := hcopy.room
  unfold Demux.Room at hroom
  rw [hempty, List.append_nil] at hreceived
  rw [hpc] at hstands hroom
  split at hstep
  · split at hstep
    · cases hstep
    next hfits =>
    -- past the buffer
    cases hstep
    refine ⟨hfeeds, h.small, .inl ⟨consumed ++ data, ?_, ?_, hroom.1, .inl hidle⟩⟩
    · rw [hempty, List.append_nil, hreceived]
    · exact hstands.add (by omega)
  · split at hstep
    · cases hstep
    -- into the buffer
    cases hstep
    refine ⟨hfeeds, h.small, .inl ⟨consumed, ?_, hpc ▸ hstands, ?_⟩⟩
    · rw [hreceived]
    · rw [hpc]
      exact ⟨hroom.1, .inl hidle⟩

theorem inv_of_steps (h : (copyDemuxed.restrict (Feeds frames)).Steps .start s) : Inv frames s := by
  refine Machine.restrict_keeps ?_ h (Inv.start frames)
  intro op t t' ht hfeeds hstep
  cases op with
  | advance => exact ht.advance hstep
  | read => exact ht.read hfeeds hstep

/-! ## The loop comes to a read or to its end -/

/-- Nothing is left to do without the body. -/
def Demux.Rests (s : Demux) : Prop := s.waits.isSome ∨ ∃ outcome, s.pc = .ended outcome

/-- Rank of a place in the termination measure. -/
def Pc.rank : Pc → Nat
  | .frame => 2
  | .payload _ => 3
  | .read goal got => if goal.size ≤ got.length then 4 else 1
  | .ended _ => 0

/-- Termination measure of a loop left to itself: four for each byte of the buffer, and the rank. -/
def Demux.work (s : Demux) : Nat := 4 * s.buffered.length + s.pc.rank

theorem flush_work (s : Demux) (sink : Option String) (next : Pc) :
    (s.flush sink next).work ≤ 4 * s.buffered.length + next.rank := by
  obtain ⟨passed, pc, hflush, -, -, hpc⟩ := flush_eq s sink next
  rw [hflush]
  rcases hpc with rfl | ⟨reason, rfl⟩
  · exact le_rfl
  · exact Nat.add_le_add_left (Nat.zero_le _) _

theorem complete_rank (s : Demux) (goal : Goal) (got : Bytes) :
    (s.complete goal got).buffered = s.buffered ∧ (s.complete goal got).pc.rank ≤ 3 := by
  cases goal with
  | header =>
    refine ⟨rfl, ?_⟩
    show Pc.rank (if _ then _ else _) ≤ 3
    split
    · exact Nat.zero_le _
    · exact le_rfl
  | fill => exact ⟨rfl, le_rfl⟩

theorem rank_read (goal : Goal) (got : Bytes) : (Pc.read goal got).rank ≤ 4 := by
  rw [Pc.rank]
  split
  · exact le_rfl
  · exact (by decide : 1 ≤ 4)

theorem rank_fill {remaining take : Nat} (h : take ≠ 0) :
    (Pc.read (.fill remaining take) []).rank = 1 :=
  if_neg fun hzero => h (Nat.le_zero.1 hzero)

theorem advance_work (h : s.advance sink = .ok s') : s'.work < s.work := by
  have hpos : 0 < maxLogChunkBytes := by decide
  unfold Demux.work
  cases hpc : s.pc with
  | frame =>
    have hflush := flush_work s sink (.read .header [])
    rw [Demux.advance, hpc] at h
    cases h
    split
    · exact Nat.lt_of_le_of_lt hflush (Nat.add_lt_add_left (by decide) _)
    · exact Nat.add_lt_add_left (by decide : 1 < 2) _
  | payload remaining =>
    rw [Demux.advance, hpc] at h
    dsimp only at h
    split at h
    · cases h
      exact Nat.add_lt_add_left (by decide : 2 < 3) _
    next hsome =>
    cases h
    split
    · have hflush := flush_work s sink (.read (.fill remaining (min remaining maxLogChunkBytes)) [])
      rw [rank_fill (by omega)] at hflush
      exact Nat.lt_of_le_of_lt hflush (Nat.add_lt_add_left (by decide : 1 < 3) _)
    · next hready =>
      rw [rank_fill fun hzero => hready (.inl hzero)]
      exact Nat.add_lt_add_left (by decide : 1 < 3) _
  | read goal got =>
    rw [Demux.advance, hpc] at h
    dsimp only at h
    split at h
    · next hfull =>
      cases h
      obtain ⟨hbuffered, hrank⟩ := complete_rank s goal got
      rw [hbuffered, Pc.rank, if_pos hfull]
      exact Nat.add_lt_add_left (Nat.lt_succ_of_le hrank) _
    · next hshort =>
      rw [Pc.rank, if_neg hshort]
      split at h
      · next hsome =>
        -- the bytes taken out of the buffer pay for the steps they bring
        cases h
        have hlen := List.length_pos_iff.2 hsome
        have hrank := rank_read goal (got ++ s.buffered.take (goal.size - got.length))
        dsimp only
        rw [List.length_drop]
        omega
      · split at h
        · next e _ =>
          cases h
          have hflush := flush_work { s with chunk := s.chunk ++ goal.gains got, readErr := none } sink
            (.ended (.body e))
          exact Nat.lt_of_le_of_lt hflush (Nat.lt_succ_self _)
        · cases h
  | ended =>
    rw [Demux.advance, hpc] at h
    cases h

/-- Only a loop that rests has no step of its own. -/
theorem advance_error {u : Unit} : s.advance sink = .error u ↔ s.Rests := by
  unfold Demux.advance Demux.Rests Demux.waits
  cases s.pc with
  | frame => simp
  | payload =>
    simp only [Option.isSome_none, Bool.false_eq_true, false_or]
    constructor
    · intro h
      split at h
      · cases h
      cases h
    · rintro ⟨outcome, hpc⟩
      cases hpc
  | read goal got =>
    by_cases hfull : goal.size ≤ got.length
    · simp [hfull, Nat.not_lt.2 hfull]
    · by_cases hempty : s.buffered = []
      · cases s.readErr <;> simp [hfull, Nat.lt_of_not_le hfull, hempty]
      · simp [hfull, hempty]
  | ended => simp

/-- Left to itself the loop comes to rest, whatever the sink answers. -/
theorem rests_of_work (sinks : List (Option String)) (h : s.work ≤ sinks.length) :
    (copyDemuxed.run (sinks.map .advance) s).Rests := by
  have hrun : ∀ (t : Demux) sink more, copyDemuxed.run (.advance sink :: more) t =
      copyDemuxed.run more ((t.advance sink).toOption.getD t) := fun _ _ _ => rfl
  induction sinks generalizing s with
  | nil =>
    cases hadv : s.advance none with
    | ok => exact absurd (advance_work hadv) (by rw [Nat.le_zero.1 h]; exact Nat.not_lt_zero _)
    | error => exact advance_error.1 hadv
  | cons sink sinks ih =>
    rw [List.length_cons] at h
    rw [List.map_cons, hrun]
    cases hadv : s.advance sink with
    | ok s' =>
      have hless := advance_work hadv
      exact ih (s := s') (by omega)
    | error u =>
      have hrests := advance_error.1 hadv
      -- a loop at rest passes every step of its own over
      have hstay : copyDemuxed.run (sinks.map .advance) s = s := by
        clear ih h
        induction sinks with
        | nil => rfl
        | cons sink' sinks ih =>
          rw [List.map_cons, hrun, (advance_error (u := ())).2 hrests]
          exact ih
      show (copyDemuxed.run (sinks.map .advance) s).Rests
      rw [hstay]
      exact hrests

/-- Whatever frames the daemon writes, however its body is read and wherever it ends: the sink gets
chunks within the limit; a loop that waits holds nothing back but the bytes of the read that waits; a
loop that is over has handed on the payload received, unless the sink stopped it; and the loop always
comes to a read or to its end. -/
theorem copies_payload (frames : List LogFrame) {s : Demux}
    (h : (copyDemuxed.restrict (Feeds frames)).Steps .start s) :
    (∀ c ∈ s.passed, c.length ≤ maxLogChunkBytes) ∧
      s.passed.flatten <+: payloadIn frames s.received.length ∧
      (s.waits.isSome → s.chunk = [] ∧
        s.passed.flatten ++ s.pc.payloadRead = payloadIn frames s.received.length) ∧
      (∀ err, s.pc = .ended (.body err) → s.passed.flatten = payloadIn frames s.received.length) ∧
      (∀ size, s.pc ≠ .ended (.announced size)) ∧
      ∃ n, ∀ sinks : List (Option String), sinks.length = n →
        (copyDemuxed.run (sinks.map .advance) s).Rests := by
  have hinv := inv_of_steps h
  have hover : ∀ outcome, s.pc = .ended outcome → outcome.Leaves frames s := by
    intro outcome hpc
    rcases hinv.copy with ⟨consumed, hcopy⟩ | ⟨outcome', hpc', hleaves⟩
    · have hstands := hcopy.stands
      rw [hpc] at hstands
      cases hstands
    · rw [hpc, Pc.ended.injEq] at hpc'
      exact hpc' ▸ hleaves
  refine ⟨hinv.small, ?_, ?_, fun err => hover (.body err), fun size => hover (.announced size),
    s.work, fun sinks hlen => rests_of_work sinks hlen.ge⟩
  · rcases hinv.copy with ⟨consumed, hcopy⟩ | ⟨outcome, hpc, hleaves⟩
    · exact (List.prefix_append _ _).trans (hcopy.handed hinv.fed)
    · cases outcome with
      | body => rw [show s.passed.flatten = _ from hleaves]
      | sink => exact hleaves
      | announced => exact hleaves.elim
  · intro hwaits
    obtain ⟨⟨goal, got⟩, hwant⟩ := Option.isSome_iff_exists.1 hwaits
    obtain ⟨consumed, hcopy⟩ := hinv.waiting hwant
    have hidle := hcopy.idle hwant
    have hall := hcopy.stands.payload_eq (hcopy.fed hinv.fed)
    rw [hidle, List.append_nil] at hall
    refine ⟨hidle, ?_⟩
    rw [hall, hcopy.received, (waits_eq_some hwant).2.2.1, List.append_nil]

end Step

/-- Two frames that arrive in three reads, the second one cut off: the first line is passed on before
the loop waits for the second, and what came of the second when the body ends. -/
theorem copies_payload_cut : let frames : List LogFrame :=
      [⟨[1, 0, 0, 0, 0, 0, 0, 3], [104, 105, 10], rfl, by decide, by decide⟩,
        ⟨[2, 0, 0, 0, 0, 0, 0, 4], [111, 107, 33, 10], rfl, by decide, by decide⟩]
    let ops : List Op := [.advance none, .read [1, 0, 0, 0, 0] none, .advance none,
      .read [0, 0, 3, 104, 105, 10, 2, 0, 0] none] ++ List.replicate 8 (.advance none) ++
      [.read [0, 0, 0, 0, 4, 111, 107] (some .eof)] ++ List.replicate 8 (.advance none)
    let s := (copyDemuxed.restrict (Feeds frames)).run ops .start
    s.passed = [[104, 105, 10], [111, 107]] ∧ s.pc = .ended (.body .eof) ∧
      s.passed.flatten = payloadIn frames s.received.length := by
  refine ⟨by decide +kernel, by decide +kernel, ?_⟩
  exact (copies_payload _ (Machine.steps_run _ _)).2.2.2.1 .eof (by decide +kernel)

end KyYard.Docker.LogCopy
