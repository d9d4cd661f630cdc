import KyYard.Api.LogWriter
import KyYard.Foundation.Machine
import Mathlib.Algebra.BigOperators.Group.List.Basic
import Mathlib.Algebra.Ring.Int.Defs

/-!
# A log stream and its reader

An endpoint's session delivers the chunks of a log to a bounded queue and counts the bytes it has to
drop; the request that opened the stream reads the queue and turns the count into a notice. `step`
has one operation for each atomic action of the two sides: the two of `deliver` (count what the agent
declares lost, then queue the chunk or count it), those of the reader's loop (receive a chunk, swap
the count, write the chunk) and of its end (drain the queue, swap the count, close the response).

`fed` records what was delivered: the text queued and, as holes, the bytes lost, with adjoining holes
made one, until the reader swaps the count for the last time. `transcript` is the response to such a
record when every hole is reported where it is and ends the line before it. `holes_in_place`: the
response is the transcript of what was delivered, in every run in which bytes are lost only while the
queue is empty, the reader is between two chunks and the text before ended its line, and no text is
delivered between the reader's last look at the queue and its last swap.
-/

namespace KyYard.Api

open Foundation

/-- What an agent delivers at once. -/
structure LogChunk where
  data : Bytes
  dropped : Int
deriving DecidableEq

def maxLogChunkBytes : Nat := 32 * 1024

def logFollowBuffer : Nat := 1024 * 1024

/-- What one stream holds for a reader that is not keeping up. -/
def logQueueChunks : Nat := logFollowBuffer / maxLogChunkBytes

/-- The sum of two counts, as 64 bits hold it. -/
def addInt64 (a b : Int) : Int := (a + b).bmod (2 ^ 64)

/-! ## What was delivered -/

/-- Text, or the bytes lost in its place. -/
inductive Piece where
  | text (data : Bytes)
  | hole (bytes : Int)
deriving DecidableEq

/-- A record with one more piece: a hole that adjoins a hole makes it larger. -/
def addPiece : List Piece → Piece → List Piece
  | [], p => [p]
  | [.hole m], .hole n => [.hole (m + n)]
  | q :: record, p => q :: addPiece record p

/-- The bytes a piece says are lost. -/
def Piece.lost : Piece → Int
  | .text _ => 0
  | .hole n => n

/-- The bytes lost in a record. -/
def lost (record : List Piece) : Int := (record.map Piece.lost).sum

/-- The bytes an entry reports as lost. -/
def Entry.reported : Entry → Int
  | .notice (.dropped n) => n
  | _ => 0

/-- The bytes a response says were lost. -/
def noticed (out : List Entry) : Int := (out.map Entry.reported).sum

/-- Entries that stand for the log: the rest are about the request. -/
def Entry.ofLog : Entry → Bool
  | .line _ => true
  | .notice .split => true
  | .notice .limit => true
  | .notice (.dropped _) => true
  | _ => false

section Transcript

variable (toLower : Bytes → Bytes) (search : Bytes)

/-- One piece of a record: a hole ends the line before it and is reported in its place. -/
def LogWriter.record (l : LogWriter) : Piece → LogWriter × Bool
  | .text data => l.write toLower search data
  | .hole n =>
    let (l, done) :=
      if l.pending = [] then (l, false)
      else { l with pending := [] }.emit toLower search l.pending
    if done then (l, true) else ({ l with afterCR := false }.notice (.dropped n), false)

/-- Pieces written one by one. -/
def LogWriter.recordAll (l : LogWriter) : List Piece → LogWriter × Bool
  | [] => (l, false)
  | p :: ps =>
    let (l, done) := l.record toLower search p
    if done then (l, true) else l.recordAll ps

/-- The response to a record that is read to its end, or as far as the loop got. -/
def transcript (follow ended : Bool) (record : List Piece) : List Entry :=
  let (l, done) := (LogWriter.new follow).recordAll toLower search record
  if ended && !done then (l.end none).out else l.out

end Transcript

/-! ## The two sides -/

/-- Where the reader's loop stands. `draining` is its inner loop, after the stream was closed. -/
inductive Phase where
  | waiting (draining : Bool)
  | received (draining : Bool) (chunk : LogChunk)
  | gapped (draining : Bool) (chunk : LogChunk)
  | drained
  | closing
  | left (ended : Bool)
deriving DecidableEq

/-- The loop has swapped the count for the last time. -/
def Phase.over : Phase → Bool
  | .closing => true
  | .left _ => true
  | _ => false

/-- A stream and its reader. -/
structure LogStream where
  chunks : List LogChunk
  dropped : Int
  done : Bool
  «end» : Option LogClose
  /-- A chunk whose declared loss is counted and that is not yet queued. -/
  offering : Option LogChunk
  phase : Phase
  writer : LogWriter
  /-- What was delivered before the loop swapped the count for the last time. -/
  fed : List Piece
deriving DecidableEq

namespace LogStream

/-- A stream that was just opened. -/
def opened (follow : Bool) : LogStream :=
  ⟨[], 0, false, none, none, .waiting false, .new follow, []⟩

/-- A piece is on the record until the last swap of the count. -/
def feed (s : LogStream) (p : Piece) : List Piece :=
  if s.phase.over then s.fed else addPiece s.fed p

/-- Bytes that could not be queued. -/
def lose (s : LogStream) (n : Int) : LogStream :=
  { s with dropped := addInt64 s.dropped n, fed := s.feed (.hole n) }

/-- The atomic actions of the session and of the reader. -/
inductive Op where
  | deliver (chunk : LogChunk)
  | offer
  | finish (close : Option LogClose)
  | receive
  | swap
  | write
  | tick (allowed expired : Bool)
  | gone
  | seeDone
  | drain
  | lastSwap
  | close
deriving DecidableEq

section Step

variable (toLower : Bytes → Bytes) (search : Bytes)

/-- One action; it is refused where its side is not at it. -/
def step : Op → LogStream → Except Unit LogStream
  | .deliver chunk, s =>
    if s.offering.isSome then .error ()
    else
      let s := if chunk.dropped > 0 then s.lose chunk.dropped else s
      .ok (if chunk.data = [] then s else { s with offering := some chunk })
  | .offer, s =>
    match s.offering with
    | none => .error ()
    | some chunk =>
      let s := { s with offering := none }
      .ok (if s.chunks.length < logQueueChunks then
          { s with chunks := s.chunks ++ [chunk], fed := s.feed (.text chunk.data) }
        else s.lose chunk.data.length)
  | .finish close, s =>
    -- the first end is the one that explains what happened
    .ok (if s.done then s else { s with done := true, «end» := close })
  | .receive, s =>
    match s.phase, s.chunks with
    | .waiting draining, chunk :: chunks =>
      .ok { s with chunks := chunks, phase := .received draining chunk }
    | _, _ => .error ()
  | .swap, s =>
    match s.phase with
    | .received draining chunk =>
      .ok { s with dropped := 0, writer := s.writer.gap s.dropped, phase := .gapped draining chunk }
    | _ => .error ()
  | .write, s =>
    match s.phase with
    | .gapped draining chunk =>
      let (l, done) := s.writer.write toLower search chunk.data
      .ok { s with writer := l, phase := if done then .left false else .waiting draining }
    | _ => .error ()
  | .tick allowed expired, s =>
    if s.phase = .waiting false then
      .ok (if !allowed then { s with writer := s.writer.notice .withdrawn, phase := .left false }
        else if expired then { s with writer := s.writer.notice .expired, phase := .left false }
        else { s with writer := s.writer.keepalive })
    else .error ()
  | .gone, s =>
    if s.phase = .waiting false then .ok { s with phase := .left false } else .error ()
  | .seeDone, s =>
    if s.phase = .waiting false ∧ s.done = true then .ok { s with phase := .waiting true }
    else .error ()
  | .drain, s =>
    if s.phase = .waiting true ∧ s.chunks = [] then .ok { s with phase := .drained } else .error ()
  | .lastSwap, s =>
    if s.phase = .drained then
      .ok { s with dropped := 0, writer := s.writer.gap s.dropped, phase := .closing }
    else .error ()
  | .close, s =>
    if s.phase = .closing then
      .ok { s with writer := s.writer.end s.end, phase := .left true }
    else .error ()

/-- The session and the reader, in any order. -/
def machine : Machine LogStream Op Unit := ⟨step toLower search⟩

end Step

/-! ## Runs in which bytes are lost between two lines -/

/-- Bytes lost now are lost behind all the text the reader was given, at the end of a line. -/
def AtHole (s : LogStream) : Prop :=
  (s.phase = .drained ∨ (s.phase = .waiting false ∨ s.phase = .waiting true) ∧ s.chunks = []) ∧
    s.writer.pending = [] ∧ s.writer.afterCR = false

instance (s : LogStream) : Decidable s.AtHole := inferInstanceAs (Decidable (_ ∧ _))

/-- No chunk overflows the queue or comes when the reader has looked at it for the last time, and a
loss the agent declares falls between two lines. After the last swap anything may be delivered. -/
def InOrder (s : LogStream) : Op → Prop
  | .deliver chunk => chunk.dropped > 0 → s.phase.over = true ∨
      s.AtHole ∧ s.dropped + chunk.dropped < 2 ^ 63
  | .offer => s.phase.over = true ∨ s.phase ≠ .drained ∧ s.chunks.length < logQueueChunks
  | _ => True

instance (s : LogStream) (op : Op) : Decidable (s.InOrder op) := by
  cases op <;> unfold InOrder <;> infer_instance

end LogStream

/-! ## The record -/

/-- A record in which the next hole starts a piece of its own. -/
def Open (record : List Piece) : Prop := ∀ n, record.getLast? ≠ some (.hole n)

theorem addPiece_text (record : List Piece) (data : Bytes) :
    addPiece record (.text data) = record ++ [.text data] := by
  induction record with
  | nil => rfl
  | cons q record ih => cases record <;> cases q <;> simp_all [addPiece]

theorem addPiece_hole_of_open {record : List Piece} (h : Open record) (n : Int) :
    addPiece record (.hole n) = record ++ [.hole n] := by
  induction record with
  | nil => rfl
  | cons q record ih =>
    cases record with
    | nil =>
      cases q with
      | text => rfl
      | hole m => exact absurd rfl (h m)
    | cons r record =>
      have hopen : Open (r :: record) := by
        intro m hm
        exact h m (by rw [List.getLast?_cons_cons]; exact hm)
      simp [addPiece, ih hopen]

theorem addPiece_hole (record : List Piece) (m n : Int) :
    addPiece (record ++ [.hole m]) (.hole n) = record ++ [.hole (m + n)] := by
  induction record with
  | nil => rfl
  | cons q record ih => cases record <;> simp_all [addPiece]

/-! ## What writing adds to a response -/

/-- Entries of a chunk of text: none of them reports a loss. -/
def Entry.ofText : Entry → Bool
  | .line _ => true
  | .notice .split => true
  | .notice .limit => true
  | _ => false

namespace LogWriter

variable {toLower : Bytes → Bytes} {search : Bytes}

/-- What an action of a writer does, whatever the response so far. -/
structure Adds (f : LogWriter → LogWriter × Bool) (l : LogWriter) (more : List Entry) : Prop where
  text : ∀ e ∈ more, e.ofText = true
  same : ∀ o, f { l with out := o } =
    ({ (f { l with out := [] }).1 with out := o ++ more }, (f { l with out := [] }).2)

variable (toLower search) in
theorem emit_adds (l : LogWriter) (text : Bytes) :
    ∃ more, Adds (fun l => l.emit toLower search text) l more := by
  have hshown : ∀ e ∈ shown toLower search text, e.ofText = true := by
    intro e he
    unfold shown at he
    split at he
    · rw [List.mem_singleton.1 he]
      rfl
    · exact absurd he List.not_mem_nil
  by_cases hs : l.lines + 1 ≥ maxLogLines ∨ l.bytes + (text.length + 1) ≥ maxLogBytes
  · refine ⟨shown toLower search text ++ [.notice .limit], ?_, ?_⟩
    · intro e he
      rcases List.mem_append.1 he with he | he
      · exact hshown e he
      · rw [List.mem_singleton.1 he]
        rfl
    · simp only [emit_eq, if_pos hs]
      simp
  · refine ⟨shown toLower search text, hshown, ?_⟩
    intro o
    simp only [emit_eq, if_neg hs]

theorem writeLoop_adds (fuel : Nat) (l : LogWriter) (data : Bytes) :
    ∃ more, Adds (fun l => writeLoop toLower search fuel l data) l more := by
  induction fuel generalizing l data with
  | zero => exact ⟨[], fun e he => absurd he List.not_mem_nil, fun o => by simp [writeLoop]⟩
  | succ fuel ih =>
    cases data with
    | nil => exact ⟨[], fun e he => absurd he List.not_mem_nil, fun o => by simp [writeLoop]⟩
    | cons b data =>
      by_cases hlf : l.afterCR = true ∧ b = lf
      · obtain ⟨more, htext, hsame⟩ := ih { l with afterCR := false } data
        refine ⟨more, htext, fun o => ?_⟩
        simp only [writeLoop, if_pos hlf]
        exact hsame o
      · rcases hspan : (b :: data).span unbroken with ⟨text, _ | ⟨ended, rest⟩⟩
        · by_cases hlong : (l.pending ++ text).length ≥ maxLogLineBytes
          · -- the split is reported before the line
            obtain ⟨more, htext, hsame⟩ := emit_adds toLower search
              { l with afterCR := false, pending := [] } (l.pending ++ text)
            refine ⟨.notice .split :: more, ?_, fun o => ?_⟩
            · intro e he
              rcases List.mem_cons.1 he with he | he
              · rw [he]
                rfl
              · exact htext e he
            · simp only [writeLoop, if_neg hlf, hspan, if_pos hlong, notice]
              have ho := hsame (o ++ [.notice .split])
              have hn := hsame ([] ++ [.notice .split])
              dsimp only at ho hn
              rw [ho, hn]
              simp
          · refine ⟨[], fun e he => absurd he List.not_mem_nil, fun o => ?_⟩
            simp only [writeLoop, if_neg hlf, hspan, if_neg hlong, List.append_nil]
        · -- the line, and behind it what the rest of the chunk adds
          obtain ⟨more, htext, hsame⟩ := emit_adds toLower search
            { l with afterCR := decide (ended = cr ∧ rest.head? ≠ some lf), pending := [] }
            (l.pending ++ text)
          dsimp only at hsame
          generalize hemit : LogWriter.emit toLower search
            ⟨l.follow, [], decide (ended = cr ∧ rest.head? ≠ some lf), l.lines, l.bytes, []⟩
            (l.pending ++ text) = r at hsame
          by_cases hdone : r.2 = true
          · refine ⟨more, htext, fun o => ?_⟩
            simp only [writeLoop, if_neg hlf, hspan, hsame, if_pos hdone]
          obtain ⟨more', htext', hsame'⟩ := ih r.1
            (if ended = cr ∧ rest.head? = some lf then rest.tail else rest)
          refine ⟨more ++ more', ?_, fun o => ?_⟩
          · intro e he
            exact (List.mem_append.1 he).elim (htext e) (htext' e)
          · simp only [writeLoop, if_neg hlf, hspan, hsame, if_neg hdone]
            have ho := hsame' (o ++ more)
            have hn := hsame' ([] ++ more)
            dsimp only at ho hn
            rw [ho, hn]
            simp

variable (toLower search) in
theorem write_adds (l : LogWriter) (data : Bytes) :
    ∃ more, Adds (fun l => l.write toLower search data) l more :=
  writeLoop_adds data.length l data

/-! ## Two writers with the same log -/

/-- The same writer but for entries that are about the request. -/
structure Follows (a b : LogWriter) : Prop where
  state : { a with out := [] } = { b with out := [] }
  log : a.out.filter Entry.ofLog = b.out.filter Entry.ofLog

theorem Follows.refl (l : LogWriter) : Follows l l := ⟨rfl, rfl⟩

variable {a b : LogWriter}

theorem Follows.pending (h : Follows a b) : a.pending = b.pending := by
  have hp := congrArg LogWriter.pending h.state
  exact hp

theorem Follows.afterCR (h : Follows a b) : a.afterCR = b.afterCR := by
  have ha := congrArg LogWriter.afterCR h.state
  exact ha

theorem Follows.notice (h : Follows a b) (n : Notice) : Follows (a.notice n) (b.notice n) :=
  ⟨h.state, by simp [LogWriter.notice, h.log]⟩

/-- An entry about the request leaves the log as it is. -/
theorem Follows.aside (h : Follows a b) {e : Entry} (he : e.ofLog = false) :
    Follows { a with out := a.out ++ [e] } b :=
  ⟨h.state, by simp [h.log, he]⟩

variable (toLower search) in
theorem Follows.write (h : Follows a b) (data : Bytes) :
    (a.write toLower search data).2 = (b.write toLower search data).2 ∧
      Follows (a.write toLower search data).1 (b.write toLower search data).1 := by
  obtain ⟨more, -, ha⟩ := write_adds toLower search a data
  have hb := ha b.out
  rw [show ({ a with out := b.out } : LogWriter) = b by
    have := h.state
    cases b
    simp_all] at hb
  rw [ha, hb]
  exact ⟨rfl, rfl, by simp [h.log]⟩

/-- The end shows the same line of the log, whatever it says about the request. -/
theorem Follows.end (h : Follows a b) (c d : Option LogClose) :
    (a.end c).out.filter Entry.ofLog = (b.end d).out.filter Entry.ofLog := by
  have hclosing : ∀ (follow : Bool) (e : Option LogClose),
      ((closing follow e).map Entry.notice).filter Entry.ofLog = [] := by
    intro follow e
    unfold closing
    split
    · rfl
    · cases follow <;> rfl
  rw [end_out, end_out, List.filter_append, List.filter_append, List.filter_append,
    List.filter_append, hclosing, hclosing, h.log, h.pending]

/-! ## Records -/

theorem recordAll_concat {l : LogWriter} {xs : List Piece}
    (h : (l.recordAll toLower search xs).2 = false) (p : Piece) :
    l.recordAll toLower search (xs ++ [p]) =
      (l.recordAll toLower search xs).1.record toLower search p := by
  induction xs generalizing l with
  | nil => rcases hp : l.record toLower search p with ⟨w', _ | _⟩ <;> simp [recordAll, hp]
  | cons x xs ih =>
    rcases hx : l.record toLower search x with ⟨w, _ | _⟩
    · simp only [List.cons_append, recordAll, hx] at h ⊢
      exact ih h
    · simp [recordAll, hx] at h

/-- Between two lines a hole is its notice. -/
theorem record_hole {l : LogWriter} (hp : l.pending = []) (ha : l.afterCR = false) (n : Int) :
    l.record toLower search (.hole n) = (l.notice (.dropped n), false) := by
  have hsame : { l with afterCR := false } = l := by
    rw [← ha]
  simp only [record, if_pos hp, hsame]
  rfl

theorem noticed_append (xs ys : List Entry) : noticed (xs ++ ys) = noticed xs + noticed ys := by
  simp [noticed]

theorem noticed_text {xs : List Entry} (h : ∀ e ∈ xs, e.ofText = true) : noticed xs = 0 := by
  apply List.sum_eq_zero
  intro n hn
  obtain ⟨e, he, rfl⟩ := List.mem_map.1 hn
  have htext := h e he
  unfold Entry.reported
  split
  · cases htext
  · rfl

theorem noticed_write (l : LogWriter) (data : Bytes) :
    noticed (l.write toLower search data).1.out = noticed l.out := by
  obtain ⟨more, htext, hsame⟩ := write_adds toLower search l data
  have h := hsame l.out
  rw [h]
  exact (noticed_append _ _).trans (by rw [noticed_text htext, Int.add_zero])

/-- Only entries of the log report a loss. -/
theorem noticed_filter (xs : List Entry) : noticed (xs.filter Entry.ofLog) = noticed xs := by
  induction xs with
  | nil => rfl
  | cons e xs ih =>
    unfold noticed at ih ⊢
    rw [List.filter_cons]
    split
    · rw [List.map_cons, List.map_cons, List.sum_cons, List.sum_cons, ih]
    next he =>
    have hzero : e.reported = 0 := by
      unfold Entry.reported
      split
      · exact absurd rfl he
      · rfl
    rw [List.map_cons, List.sum_cons, hzero, Int.zero_add, ih]

end LogWriter

theorem lost_append (xs ys : List Piece) : lost (xs ++ ys) = lost xs + lost ys := by
  simp [lost]

theorem addInt64_eq {a b : Int} (ha : 0 ≤ a) (hb : 0 ≤ b) (h : a + b < 2 ^ 63) :
    addInt64 a b = a + b := by
  apply Int.bmod_eq_of_le
  · omega
  · omega

namespace LogStream

variable {toLower : Bytes → Bytes} {search : Bytes}

/-- The loss that is counted and not yet reported. -/
def holding (s : LogStream) : List Piece := if 0 < s.dropped then [.hole s.dropped] else []

/-- The text still queued. -/
def queued (s : LogStream) : List Piece := s.chunks.map fun c => .text c.data

/-- The part of the record that the reader has not taken in yet. -/
def unread (s : LogStream) : List Piece :=
  match s.phase with
  | .waiting _ => s.holding ++ s.queued
  | .received _ chunk => s.holding ++ .text chunk.data :: s.queued
  | .gapped _ chunk => .text chunk.data :: s.queued
  | .drained => s.holding
  | .closing => []
  | .left _ => []

/-- Every phase in which a hole may still be counted. -/
def Phase.counts : Phase → Bool
  | .waiting _ => true
  | .received _ _ => true
  | .drained => true
  | _ => false

/-- The reader has taken in `heard`, and its response is the transcript of it. -/
structure Told (toLower : Bytes → Bytes) (search : Bytes) (follow : Bool) (s : LogStream)
    (heard : List Piece) : Prop where
  going : ((LogWriter.new follow).recordAll toLower search heard).2 = false
  writer : s.writer.Follows ((LogWriter.new follow).recordAll toLower search heard).1
  reported : noticed ((LogWriter.new follow).recordAll toLower search heard).1.out = lost heard
  fed : s.fed = heard ++ s.unread
  counted : s.phase.over = false → 0 ≤ s.dropped ∧ s.dropped < 2 ^ 63
  settled : Phase.counts s.phase = true → 0 < s.dropped →
    s.writer.pending = [] ∧ s.writer.afterCR = false
  swapped : Phase.counts s.phase = false → s.phase.over = false → s.dropped = 0
  fresh : Phase.counts s.phase = true → Open heard

variable {follow : Bool} {s : LogStream} {heard : List Piece}

theorem AtHole.unread (h : s.AtHole) : s.unread = s.holding := by
  obtain ⟨hphase | ⟨hphase | hphase, hchunks⟩, -⟩ := h
  · simp [LogStream.unread, hphase]
  · simp [LogStream.unread, hphase, queued, hchunks]
  · simp [LogStream.unread, hphase, queued, hchunks]

theorem AtHole.counts (h : s.AtHole) : Phase.counts s.phase = true ∧ s.phase.over = false := by
  obtain ⟨hphase | ⟨hphase | hphase, -⟩, -⟩ := h <;> rw [hphase] <;> exact ⟨rfl, rfl⟩

section

variable (h : Told toLower search follow s heard)
include h

/-- A loss between two lines is one more hole at the end of the record. -/
theorem Told.lose (hat : s.AtHole) {n : Int} (hn : 0 < n)
    (hfit : s.dropped + n < 2 ^ 63) : Told toLower search follow (s.lose n) heard := by
  obtain ⟨hcount, hover⟩ := hat.counts
  obtain ⟨hnonneg, -⟩ := h.counted hover
  have hsum : addInt64 s.dropped n = s.dropped + n := addInt64_eq hnonneg (Int.le_of_lt hn) hfit
  have hat' : (s.lose n).AtHole := hat
  refine ⟨h.going, h.writer, h.reported, ?_, fun _ => ?_, fun _ _ => hat.2, ?_, h.fresh⟩
  · have hfed : s.feed (.hole n) = addPiece (heard ++ s.holding) (.hole n) := by
      rw [feed, if_neg (by simp [hover]), h.fed, hat.unread]
    have hholding : (s.lose n).holding = [.hole (s.dropped + n)] := by
      rw [holding, show (s.lose n).dropped = s.dropped + n from hsum, if_pos (by omega)]
    rw [hat'.unread, hholding, show (s.lose n).fed = s.feed (.hole n) from rfl, hfed]
    unfold holding
    split
    · exact addPiece_hole heard s.dropped n
    · have hzero : s.dropped = 0 := by omega
      rw [List.append_nil, addPiece_hole_of_open (h.fresh hcount), hzero, Int.zero_add]
  · rw [show (s.lose n).dropped = s.dropped + n from hsum]
    omega
  · intro hnot
    rw [show (s.lose n).phase = s.phase from rfl, hcount] at hnot
    cases hnot

/-- A chunk that is queued is the end of the record, if it can still be read. -/
theorem Told.queue (hread : s.phase ≠ .drained) (chunk : LogChunk) :
    Told toLower search follow
      { s with offering := none, chunks := s.chunks ++ [chunk], fed := s.feed (.text chunk.data) }
      heard := by
  refine ⟨h.going, h.writer, h.reported, ?_, h.counted, h.settled, h.swapped, h.fresh⟩
  have hfed := h.fed
  cases hphase : s.phase <;> simp_all [feed, unread, queued, holding, Phase.over, addPiece_text]

/-- The counted loss is reported before the chunk that follows it. -/
theorem Told.report (hcounts : Phase.counts s.phase = true) :
    ∃ w, (LogWriter.new follow).recordAll toLower search (heard ++ s.holding) = (w, false) ∧
      (s.writer.gap s.dropped).Follows w ∧ noticed w.out = lost (heard ++ s.holding) := by
  unfold holding LogWriter.gap
  by_cases hn : 0 < s.dropped
  · obtain ⟨hpending, hcr⟩ := h.settled hcounts hn
    rw [if_pos hn, if_pos hn, LogWriter.recordAll_concat h.going,
      LogWriter.record_hole (h.writer.pending ▸ hpending) (h.writer.afterCR ▸ hcr)]
    refine ⟨_, rfl, h.writer.notice _, ?_⟩
    rw [lost_append, ← h.reported]
    exact LogWriter.noticed_append _ _
  · rw [if_neg hn, if_neg hn, List.append_nil]
    exact ⟨_, Prod.ext rfl h.going, h.writer, h.reported⟩

theorem Told.receive {draining : Bool} {chunk : LogChunk} {chunks : List LogChunk}
    (hphase : s.phase = .waiting draining) (hchunks : s.chunks = chunk :: chunks) :
    Told toLower search follow { s with chunks := chunks, phase := .received draining chunk }
      heard := by
  have hfed := h.fed
  have hcounted := h.counted
  have hsettled := h.settled
  have hfresh := h.fresh
  rw [hphase] at hcounted hsettled hfresh
  refine ⟨h.going, h.writer, h.reported, ?_, hcounted, hsettled, nofun, hfresh⟩
  simpa [unread, hphase, queued, hchunks, holding] using hfed

theorem Told.swap {draining : Bool} {chunk : LogChunk}
    (hphase : s.phase = .received draining chunk) :
    Told toLower search follow
      { s with dropped := 0, writer := s.writer.gap s.dropped, phase := .gapped draining chunk }
      (heard ++ s.holding) := by
  obtain ⟨w, hw, hfollows, hnoticed⟩ := h.report (by rw [hphase]; rfl)
  have hfed := h.fed
  refine ⟨by rw [hw], by rw [hw]; exact hfollows, by rw [hw]; exact hnoticed, ?_,
    fun _ => ⟨Int.le_refl 0, show (0 : Int) < 2 ^ 63 by decide⟩, nofun, fun _ _ => rfl, nofun⟩
  simpa [unread, hphase, queued] using hfed

theorem Told.lastSwap (hphase : s.phase = .drained) :
    Told toLower search follow
      { s with dropped := 0, writer := s.writer.gap s.dropped, phase := .closing }
      (heard ++ s.holding) := by
  obtain ⟨w, hw, hfollows, hnoticed⟩ := h.report (by rw [hphase]; rfl)
  have hfed := h.fed
  refine ⟨by rw [hw], by rw [hw]; exact hfollows, by rw [hw]; exact hnoticed, ?_, nofun, nofun,
    nofun, nofun⟩
  simpa [unread, hphase] using hfed

end

/-- The response is the transcript of what the reader took in, which at the end of the stream is
all that was delivered. -/
def Shown (toLower : Bytes → Bytes) (search : Bytes) (follow : Bool) (s : LogStream) : Prop :=
  ∃ heard unread, s.fed = heard ++ unread ∧
    s.writer.out.filter Entry.ofLog =
      (transcript toLower search follow (decide (s.phase = .left true)) heard).filter Entry.ofLog ∧
    (s.phase = .left true → unread = [] ∧ noticed s.writer.out = lost s.fed)

section

variable (h : Told toLower search follow s heard)
include h

theorem Told.shown (hphase : s.phase ≠ .left true) : Shown toLower search follow s := by
  refine ⟨heard, s.unread, h.fed, ?_, fun hleft => absurd hleft hphase⟩
  rw [h.writer.log]
  simp [transcript, hphase]

/-- The chunk is written: the reader waits for the next, or has spent its bounds. -/
theorem Told.write {draining : Bool} {chunk : LogChunk}
    (hphase : s.phase = .gapped draining chunk) :
    if (s.writer.write toLower search chunk.data).2 = true then
      Shown toLower search follow
        { s with writer := (s.writer.write toLower search chunk.data).1, phase := .left false }
    else
      Told toLower search follow
        { s with writer := (s.writer.write toLower search chunk.data).1, phase := .waiting draining }
        (heard ++ [.text chunk.data]) := by
  obtain ⟨hdone, hfollows⟩ := h.writer.write toLower search chunk.data
  have hrecord : (LogWriter.new follow).recordAll toLower search (heard ++ [.text chunk.data]) = _ :=
    LogWriter.recordAll_concat h.going (.text chunk.data)
  have hfed : s.fed = heard ++ [.text chunk.data] ++ s.queued := by
    rw [h.fed]
    simp [unread, hphase]
  have hnone : s.dropped = 0 := h.swapped (by rw [hphase]; rfl) (by rw [hphase]; rfl)
  rw [hdone]
  split
  · refine ⟨heard ++ [.text chunk.data], s.queued, hfed, ?_, nofun⟩
    rw [hfollows.log, transcript, hrecord]
    simp [LogWriter.record]
  · next hgoes =>
    refine ⟨?_, ?_, ?_, ?_, fun _ => ?_, fun _ hn => ?_, nofun, fun _ n => by simp⟩
    · rw [hrecord]
      exact Bool.eq_false_iff.2 hgoes
    · rw [hrecord]
      exact hfollows
    · rw [hrecord, LogWriter.record, LogWriter.noticed_write, h.reported, lost_append]
      exact (Int.add_zero _).symm
    · rw [hfed]
      simp [unread, holding, hnone, queued]
    · show 0 ≤ s.dropped ∧ s.dropped < 2 ^ 63
      rw [hnone]
      decide
    · exact absurd (show 0 < s.dropped from hn) (by rw [hnone]; decide)

/-- An entry about the request is none of the log. -/
theorem Told.aside {e : Entry} (he : e.ofLog = false) :
    Told toLower search follow { s with writer := { s.writer with out := s.writer.out ++ [e] } }
      heard :=
  ⟨h.going, h.writer.aside he, h.reported, h.fed, h.counted, h.settled, h.swapped, h.fresh⟩

/-- The reader may leave at any time. -/
theorem Told.leave : Shown toLower search follow { s with phase := .left false } := by
  refine ⟨heard, s.unread, h.fed, ?_, nofun⟩
  rw [h.writer.log]
  simp [transcript]

theorem Told.seeDone (hphase : s.phase = .waiting false) :
    Told toLower search follow { s with phase := .waiting true } heard := by
  obtain ⟨hgoing, hwriter, hreported, hfed, hcounted, hsettled, -, hfresh⟩ := h
  rw [hphase] at hcounted hsettled hfresh
  rw [unread, hphase] at hfed
  exact ⟨hgoing, hwriter, hreported, hfed, hcounted, hsettled, nofun, hfresh⟩

theorem Told.drain (hphase : s.phase = .waiting true)
    (hchunks : s.chunks = []) : Told toLower search follow { s with phase := .drained } heard := by
  obtain ⟨hgoing, hwriter, hreported, hfed, hcounted, hsettled, -, hfresh⟩ := h
  rw [hphase] at hcounted hsettled hfresh
  rw [unread, hphase] at hfed
  simp only [queued, hchunks, List.map_nil, List.append_nil] at hfed
  exact ⟨hgoing, hwriter, hreported, hfed, hcounted, hsettled, nofun, hfresh⟩

/-- The end of the response: all that was delivered has been told. -/
theorem Told.close (hphase : s.phase = .closing) :
    Shown toLower search follow
      { s with writer := s.writer.end s.end, phase := .left true } := by
  have hfed : s.fed = heard := by
    rw [h.fed, unread, hphase]
    exact List.append_nil _
  refine ⟨heard, [], by rw [List.append_nil]; exact hfed, ?_, fun _ => ⟨rfl, ?_⟩⟩
  · rw [h.writer.end s.end none]
    simp [transcript, h.going]
  · have hnoticed : noticed (s.writer.end s.end).out = noticed s.writer.out := by
      rw [LogWriter.end_out, LogWriter.noticed_append, LogWriter.noticed_append]
      have hclosing : noticed ((LogWriter.closing s.writer.follow s.end).map .notice) = 0 := by
        unfold LogWriter.closing
        split
        · rfl
        · split <;> rfl
      rw [hclosing]
      split <;> exact Int.add_zero _
    rw [hnoticed, hfed, ← h.reported, ← LogWriter.noticed_filter, h.writer.log,
      LogWriter.noticed_filter]

end

/-- The reader is at work and has told what it took in, or it has left and had. -/
def Faithful (toLower : Bytes → Bytes) (search : Bytes) (follow : Bool) (s : LogStream) : Prop :=
  ((∀ b, s.phase ≠ .left b) ∧ ∃ heard, Told toLower search follow s heard) ∨
    ((∃ b, s.phase = .left b) ∧ Shown toLower search follow s)

theorem Faithful.shown (h : Faithful toLower search follow s) : Shown toLower search follow s := by
  rcases h with ⟨hphase, heard, htold⟩ | ⟨-, hshown⟩
  · exact htold.shown (hphase true)
  · exact hshown

theorem faithful_opened (follow : Bool) : Faithful toLower search follow (opened follow) := by
  refine .inl ⟨nofun, [], rfl, LogWriter.Follows.refl _, rfl, rfl, ?_, nofun, nofun, ?_⟩
  · intro _
    show (0 : Int) ≤ 0 ∧ (0 : Int) < 2 ^ 63
    decide
  · intro _ n hn
    cases hn

section

variable (h : Faithful toLower search follow s)
include h

theorem Faithful.frame (offering : Option LogChunk) (done : Bool) (close : Option LogClose) :
    Faithful toLower search follow
      { s with offering := offering, done := done, «end» := close } := by
  rcases h with ⟨hphase, heard, h⟩ | ⟨hphase, hshown⟩
  · exact .inl ⟨hphase, heard, h.going, h.writer, h.reported, h.fed, h.counted, h.settled, h.swapped,
      h.fresh⟩
  · exact .inr ⟨hphase, hshown⟩

/-- Once the reader has swapped the count for the last time, a loss or a chunk is nothing to it. -/
theorem Faithful.unheard (hover : s.phase.over = true) (dropped : Int) (chunks : List LogChunk) :
    Faithful toLower search follow { s with dropped := dropped, chunks := chunks } := by
  rcases h with ⟨hphase, heard, h⟩ | ⟨hphase, hshown⟩
  · refine .inl ⟨hphase, heard, h.going, h.writer, h.reported, ?_, ?_, ?_, ?_, h.fresh⟩
    · have hfed := h.fed
      cases hp : s.phase <;> simp_all [unread, Phase.over]
    · exact fun hnot => absurd (hover.symm.trans hnot) (by decide)
    · cases hp : s.phase <;> simp_all [Phase.counts, Phase.over]
    · exact fun _ hnot => absurd (hover.symm.trans hnot) (by decide)
  · exact .inr ⟨hphase, hshown⟩

theorem Faithful.lose {n : Int} (hn : 0 < n)
    (hat : s.phase.over = true ∨ s.AtHole ∧ s.dropped + n < 2 ^ 63) :
    Faithful toLower search follow (s.lose n) := by
  rcases hat with hover | ⟨hat, hfit⟩
  · have hsame : s.lose n = { s with dropped := addInt64 s.dropped n, chunks := s.chunks } := by
      simp [LogStream.lose, feed, hover]
    rw [hsame]
    exact h.unheard hover _ _
  · rcases h with ⟨hphase, heard, h⟩ | ⟨⟨b, hphase⟩, -⟩
    · exact .inl ⟨hphase, heard, h.lose hat hn hfit⟩
    · have hover := hat.counts.2
      rw [hphase] at hover
      cases hover

/-- A chunk that is queued. -/
theorem Faithful.queue (hread : s.phase ≠ .drained) (chunk : LogChunk) :
    Faithful toLower search follow
      { s with offering := none, chunks := s.chunks ++ [chunk],
               fed := s.feed (.text chunk.data) } := by
  rcases h with ⟨hphase, heard, h⟩ | ⟨⟨b, hphase⟩, hshown⟩
  · exact .inl ⟨hphase, heard, h.queue hread chunk⟩
  · refine .inr ⟨⟨b, hphase⟩, ?_⟩
    have hfed : s.feed (.text chunk.data) = s.fed := by simp [feed, hphase, Phase.over]
    rw [hfed]
    exact hshown

/-- In a phase that is not the last one, the reader has told what it took in. -/
theorem Faithful.told (hphase : ∀ b, s.phase ≠ .left b) :
    ∃ heard, Told toLower search follow s heard := by
  rcases h with ⟨-, h⟩ | ⟨⟨b, hb⟩, -⟩
  · exact h
  · exact absurd hb (hphase b)

theorem Faithful.step_deliver {chunk : LogChunk} {s' : LogStream} (hop : s.InOrder (.deliver chunk))
    (hstep : step toLower search (.deliver chunk) s = .ok s') :
    Faithful toLower search follow s' := by
  simp only [LogStream.step, guard_error_eq_ok, Except.ok.injEq] at hstep
  obtain ⟨-, rfl⟩ := hstep
  have hlost : Faithful toLower search follow
      (if chunk.dropped > 0 then s.lose chunk.dropped else s) := by
    split
    · next hn => exact h.lose hn (hop hn)
    · exact h
  split
  · exact hlost
  · exact hlost.frame (some chunk) _ _

theorem Faithful.step_offer {s' : LogStream} (hop : s.InOrder .offer)
    (hstep : step toLower search .offer s = .ok s') : Faithful toLower search follow s' := by
  simp only [LogStream.step] at hstep
  split at hstep
  · cases hstep
  next chunk hoffer =>
  obtain rfl := Except.ok.inj hstep
  split
  · next hroom =>
    refine h.queue ?_ chunk
    rcases hop with hover | ⟨hread, -⟩
    · intro hdrained
      rw [hdrained] at hover
      cases hover
    · exact hread
  next hfull =>
  -- an overflow in order is one that nobody reads
  have hover : s.phase.over = true := hop.resolve_right fun hroom => hfull hroom.2
  have hframe := h.frame none s.done s.end
  have hsame : ({ s with offering := none } : LogStream).lose chunk.data.length =
      { s with offering := none, dropped := addInt64 s.dropped chunk.data.length } := by
    simp [LogStream.lose, feed, hover]
  rw [hsame]
  exact hframe.unheard hover _ _

theorem Faithful.step_write {s' : LogStream} (hstep : step toLower search .write s = .ok s') :
    Faithful toLower search follow s' := by
  simp only [LogStream.step] at hstep
  split at hstep
  · next draining chunk hphase =>
    obtain rfl := Except.ok.inj hstep
    obtain ⟨heard, htold⟩ := h.told (by simp [hphase])
    have hwrite := htold.write hphase
    split at hwrite
    · next hdone =>
      rw [if_pos hdone]
      exact .inr ⟨⟨false, rfl⟩, hwrite⟩
    · next hdone =>
      rw [if_neg hdone]
      exact .inl ⟨by simp, _, hwrite⟩
  · cases hstep

theorem Faithful.step_tick {allowed expired : Bool} {s' : LogStream}
    (hstep : step toLower search (.tick allowed expired) s = .ok s') :
    Faithful toLower search follow s' := by
  obtain ⟨hphase, rfl⟩ := ok_of_guard hstep
  obtain ⟨heard, htold⟩ := h.told (by simp [hphase])
  split
  · have haside := htold.aside (e := .notice .withdrawn) rfl
    exact .inr ⟨⟨false, rfl⟩, haside.leave⟩
  split
  · have haside := htold.aside (e := .notice .expired) rfl
    exact .inr ⟨⟨false, rfl⟩, haside.leave⟩
  · refine .inl ⟨by simp [hphase], heard, ?_⟩
    unfold LogWriter.keepalive
    split
    · exact htold.aside rfl
    · exact htold

/-- Every action keeps the response faithful, if it is in order. -/
theorem Faithful.step {op : Op} {s' : LogStream}
    (hop : s.InOrder op) (hstep : step toLower search op s = .ok s') :
    Faithful toLower search follow s' := by
  cases op with
  | deliver => exact h.step_deliver hop hstep
  | offer => exact h.step_offer hop hstep
  | write => exact h.step_write hstep
  | tick => exact h.step_tick hstep
  | finish close =>
    obtain rfl := Except.ok.inj hstep
    split
    · exact h
    · exact h.frame s.offering true close
  | receive =>
    simp only [LogStream.step] at hstep
    split at hstep
    · next draining chunk chunks hphase hchunks =>
      obtain rfl := Except.ok.inj hstep
      obtain ⟨heard, htold⟩ := h.told (by simp [hphase])
      exact .inl ⟨by simp, heard, htold.receive hphase hchunks⟩
    · cases hstep
  | swap =>
    simp only [LogStream.step] at hstep
    split at hstep
    · next draining chunk hphase =>
      obtain rfl := Except.ok.inj hstep
      obtain ⟨heard, htold⟩ := h.told (by simp [hphase])
      exact .inl ⟨by simp, _, htold.swap hphase⟩
    · cases hstep
  | gone =>
    obtain ⟨hphase, rfl⟩ := ok_of_guard hstep
    obtain ⟨heard, htold⟩ := h.told (by simp [hphase])
    exact .inr ⟨⟨false, rfl⟩, htold.leave⟩
  | seeDone =>
    obtain ⟨⟨hphase, -⟩, rfl⟩ := ok_of_guard hstep
    obtain ⟨heard, htold⟩ := h.told (by simp [hphase])
    exact .inl ⟨by simp, heard, htold.seeDone hphase⟩
  | drain =>
    obtain ⟨⟨hphase, hchunks⟩, rfl⟩ := ok_of_guard hstep
    obtain ⟨heard, htold⟩ := h.told (by simp [hphase])
    exact .inl ⟨by simp, heard, htold.drain hphase hchunks⟩
  | lastSwap =>
    obtain ⟨hphase, rfl⟩ := ok_of_guard hstep
    obtain ⟨heard, htold⟩ := h.told (by simp [hphase])
    exact .inl ⟨by simp, _, htold.lastSwap hphase⟩
  | close =>
    obtain ⟨hphase, rfl⟩ := ok_of_guard hstep
    obtain ⟨heard, htold⟩ := h.told (by simp [hphase])
    exact .inr ⟨⟨true, rfl⟩, htold.close hphase⟩

end

variable (toLower search) in
/-- In every run in which bytes are lost between two lines only and no text comes between the drain
and the last swap, the response is the transcript of what the reader took in, and at the end of the
stream that is all that was delivered: each hole is reported where it is, and the bytes reported are
the bytes lost. -/
theorem holes_in_place (follow : Bool) (s : LogStream)
    (h : ((machine toLower search).restrict InOrder).Steps (opened follow) s) :
    Shown toLower search follow s := by
  apply Faithful.shown
  apply Machine.restrict_keeps _ h (faithful_opened follow)
  intro op t t' ht hop hstep
  exact ht.step hop hstep

/-- "up\n", then 5 bytes lost and "down\n", then the end. -/
def lossBetweenLines : List Op :=
  [.deliver ⟨[117, 112, 10], 0⟩, .offer, .receive, .swap, .write,
    .deliver ⟨[100, 111, 119, 110, 10], 5⟩, .offer, .finish none, .seeDone, .receive, .swap, .write,
    .drain, .lastSwap, .close]

theorem holes_in_place_between_lines :
    Shown LogWriter.asciiLower [] false
        (((machine LogWriter.asciiLower []).restrict InOrder).run lossBetweenLines (opened false)) ∧
      (((machine LogWriter.asciiLower []).restrict InOrder).run lossBetweenLines
          (opened false)).writer.out =
        [.line [117, 112], .notice (.dropped 5), .line [100, 111, 119, 110]] :=
  ⟨holes_in_place LogWriter.asciiLower [] false _ (Machine.steps_run lossBetweenLines _),
    by decide +kernel⟩

/-- One line more than the queue holds, then the end. -/
def overflow : List Op :=
  (List.replicate (logQueueChunks + 1) [.deliver ⟨[97, 10], 0⟩, .offer]).flatten ++
    [.finish none, .seeDone] ++
    (List.replicate logQueueChunks [.receive, .swap, .write]).flatten ++ [.drain, .lastSwap, .close]

/-- "ab", then 5 bytes lost and "cd\n", then the end. -/
def lossInLine : List Op :=
  [.deliver ⟨[97, 98], 0⟩, .offer, .receive, .swap, .write, .deliver ⟨[99, 100, 10], 5⟩, .offer,
    .finish none, .seeDone, .receive, .swap, .write, .drain, .lastSwap, .close]

/-- The overflow is reported before all the lines it came after, and a line is joined across a
hole: the responses, and the transcripts of what was delivered. -/
theorem holes_misplaced :
    (((machine LogWriter.asciiLower []).run overflow (opened false)).writer.out =
        .notice (.dropped 2) :: List.replicate logQueueChunks (.line [97]) ∧
      transcript LogWriter.asciiLower [] false true
          ((machine LogWriter.asciiLower []).run overflow (opened false)).fed =
        List.replicate logQueueChunks (.line [97]) ++ [.notice (.dropped 2)]) ∧
    (((machine LogWriter.asciiLower []).run lossInLine (opened false)).writer.out =
        [.notice (.dropped 5), .line [97, 98, 99, 100]] ∧
      transcript LogWriter.asciiLower [] false true
          ((machine LogWriter.asciiLower []).run lossInLine (opened false)).fed =
        [.line [97, 98], .notice (.dropped 5), .line [99, 100]]) := by
  refine ⟨⟨?_, ?_⟩, ?_, ?_⟩ <;> decide +kernel

end LogStream

end KyYard.Api
