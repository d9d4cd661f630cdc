import KyYard.Foundation.Lines
import Mathlib.Algebra.GroupWithZero.Nat
import Mathlib.Data.List.Infix

/-!
# The log response

`LogWriter` turns the chunks of a container's log into lines and the lines into a response, counting
what it has read against the bounds of a request. A response is a list of `Entry`: a line of the
container, a notice of the server, or the comment that keeps an idle stream open. The standard
library's `ToLower` is a parameter.

`serve` writes chunks until a bound is reached and ends the response after the last one.
`serve_stream` gives its response as a function of the byte stream alone, however it was cut, and
`serve_lines` compares the container lines in it with the matching lines of the stream.
-/

namespace KyYard.Api

open Foundation

/-- One line is split past this many bytes. -/
def maxLogLineBytes : Nat := 64 * 1024

/-- A request ends at this many lines, -/
def maxLogLines : Nat := 10000

/-- or at this many bytes. -/
def maxLogBytes : Nat := 4 * 1024 * 1024

/-- What the server says in a response. -/
inductive Notice where
  | split
  | limit
  | dropped (bytes : Int)
  | withdrawn
  | expired
  | failed (reason : String)
  | ended
deriving DecidableEq

def Notice.text : Notice → String
  | .split => s!"a line longer than {maxLogLineBytes} bytes was split"
  | .limit => s!"this request reached its limit of {maxLogLines} lines or {maxLogBytes} bytes; ask for a narrower window to see more"
  | .dropped n => s!"{n} bytes were dropped here because this reader was not keeping up"
  | .withdrawn => "your access to this log was withdrawn"
  | .expired => "this stream reached its time limit; open it again to carry on watching"
  | .failed reason => "the stream ended: " ++ reason
  | .ended => "the stream ended"

/-- What stands in a response. -/
inductive Entry where
  | line (text : Bytes)
  | notice (n : Notice)
  | keepalive
deriving DecidableEq

/-- The container's lines of a response. -/
def containerLines (out : List Entry) : List Bytes :=
  out.filterMap fun
    | .line text => some text
    | _ => none

/-- Why a stream ended, as its endpoint or the server says. -/
structure LogClose where
  reason : String
  failed : Bool
deriving DecidableEq

/-- The writer of one response. -/
structure LogWriter where
  follow : Bool
  pending : Bytes
  afterCR : Bool
  lines : Nat
  bytes : Nat
  out : List Entry
deriving DecidableEq

/-- The search string is empty, or found without regard to case. -/
def found (toLower : Bytes → Bytes) (search line : Bytes) : Bool :=
  search.isEmpty || decide (toLower search <:+: toLower line)

namespace LogWriter

def new (follow : Bool) : LogWriter := ⟨follow, [], false, 0, 0, []⟩

@[simp] theorem new_follow (follow : Bool) : (new follow).follow = follow := rfl
@[simp] theorem new_pending (follow : Bool) : (new follow).pending = [] := rfl
@[simp] theorem new_afterCR (follow : Bool) : (new follow).afterCR = false := rfl
@[simp] theorem new_out (follow : Bool) : (new follow).out = [] := rfl

/-- A line of the container: whatever is left of a break is taken out. -/
def line (l : LogWriter) (text : Bytes) : LogWriter :=
  { l with out := l.out ++ [.line (text.filter unbroken)] }

def notice (l : LogWriter) (n : Notice) : LogWriter := { l with out := l.out ++ [.notice n] }

/-- The notice of lost bytes, if any. -/
def gap (l : LogWriter) (dropped : Int) : LogWriter :=
  if dropped > 0 then l.notice (.dropped dropped) else l

/-- A comment, when following. -/
def keepalive (l : LogWriter) : LogWriter :=
  if l.follow then { l with out := l.out ++ [.keepalive] } else l

section Search

variable (toLower : Bytes → Bytes) (search : Bytes)

/-- One line: it counts against the bounds whether or not it is shown. -/
def emit (l : LogWriter) (text : Bytes) : LogWriter × Bool :=
  let l := { l with lines := l.lines + 1, bytes := l.bytes + (text.length + 1) }
  let l := if found toLower search text then l.line text else l
  if l.lines ≥ maxLogLines ∨ l.bytes ≥ maxLogBytes then (l.notice .limit, true) else (l, false)

/-- The loop of `write`. Every turn takes a byte off the chunk, so its length is fuel enough. -/
def writeLoop : Nat → LogWriter → Bytes → LogWriter × Bool
  | 0, l, _ => (l, false)
  | _ + 1, l, [] => (l, false)
  | fuel + 1, l, b :: data =>
    -- the pairing of CR and LF survives the end of a chunk
    if l.afterCR = true ∧ b = lf then writeLoop fuel { l with afterCR := false } data
    else
      match (b :: data).span unbroken with
      | (text, []) =>
        let l := { l with afterCR := false, pending := l.pending ++ text }
        if l.pending.length ≥ maxLogLineBytes then
          ({ l with pending := [] }.notice .split).emit toLower search l.pending
        else (l, false)
      | (text, ended :: rest) =>
        let pair := ended = cr ∧ rest.head? = some lf
        let alone := ended = cr ∧ rest.head? ≠ some lf
        let (l, done) :=
          { l with afterCR := decide alone, pending := [] }.emit toLower search (l.pending ++ text)
        if done then (l, true) else writeLoop fuel l (if pair then rest.tail else rest)

/-- A chunk: the lines it completes, and whether the request has spent its bounds. -/
def write (l : LogWriter) (data : Bytes) : LogWriter × Bool :=
  writeLoop toLower search data.length l data

/-- What the server says at the end of a stream. -/
def closing (follow : Bool) (closed : Option LogClose) : List Notice :=
  match closed with
  | some ⟨reason, true⟩ => [.failed reason]
  | _ => if follow then [.ended] else []

/-- The last partial line, and why the stream stopped. -/
def «end» (l : LogWriter) (closed : Option LogClose) : LogWriter :=
  let l := if l.pending ≠ [] then { l.line l.pending with pending := [] } else l
  (closing l.follow closed).foldl notice l

/-- Chunks one after the other, until one reaches a bound. -/
def writeAll (l : LogWriter) : List Bytes → LogWriter × Bool
  | [] => (l, false)
  | data :: chunks =>
    let (l, done) := l.write toLower search data
    if done then (l, true) else writeAll l chunks

/-- The response to a stream that is read to its end or to a bound. -/
def serve (follow : Bool) (closed : Option LogClose) (chunks : List Bytes) : List Entry :=
  let (l, done) := (new follow).writeAll toLower search chunks
  if done then l.out else (l.end closed).out

/-! ## A chunk is the lines it completes -/

/-- Lines one after the other, until one reaches a bound. -/
def emitAll (l : LogWriter) : List Bytes → LogWriter × Bool
  | [] => (l, false)
  | text :: texts =>
    let (l, done) := l.emit toLower search text
    if done then (l, true) else emitAll l texts

variable {toLower search}

/-- What a line adds to the response. -/
def shown (toLower : Bytes → Bytes) (search text : Bytes) : List Entry :=
  if found toLower search text then [.line (text.filter unbroken)] else []

theorem emit_eq (l : LogWriter) (text : Bytes) :
    l.emit toLower search text =
      if l.lines + 1 ≥ maxLogLines ∨ l.bytes + (text.length + 1) ≥ maxLogBytes then
        (⟨l.follow, l.pending, l.afterCR, l.lines + 1, l.bytes + (text.length + 1),
          l.out ++ shown toLower search text ++ [.notice .limit]⟩, true)
      else
        (⟨l.follow, l.pending, l.afterCR, l.lines + 1, l.bytes + (text.length + 1),
          l.out ++ shown toLower search text⟩, false) := by
  unfold emit shown
  cases found toLower search text <;> simp [line, notice]

/-- The line being read has no part in what a finished line does. -/
theorem emit_frame (l : LogWriter) (text p : Bytes) (a : Bool) :
    ({ l with pending := p, afterCR := a }).emit toLower search text =
      ({ (l.emit toLower search text).1 with pending := p, afterCR := a },
        (l.emit toLower search text).2) := by
  rw [emit_eq, emit_eq]
  split <;> rfl

theorem emitAll_append (l : LogWriter) (xs ys : List Bytes) :
    l.emitAll toLower search (xs ++ ys) =
      if (l.emitAll toLower search xs).2 then l.emitAll toLower search xs
      else (l.emitAll toLower search xs).1.emitAll toLower search ys := by
  induction xs generalizing l with
  | nil => rfl
  | cons x xs ih =>
    simp only [List.cons_append, emitAll]
    split
    · rfl
    · exact ih _

theorem emitAll_frame (l : LogWriter) (xs : List Bytes) (p : Bytes) (a : Bool) :
    ({ l with pending := p, afterCR := a }).emitAll toLower search xs =
      ({ (l.emitAll toLower search xs).1 with pending := p, afterCR := a },
        (l.emitAll toLower search xs).2) := by
  induction xs generalizing l with
  | nil => rfl
  | cons x xs ih =>
    simp only [emitAll, emit_frame]
    split
    · rfl
    · exact ih _

/-- A writer that took bytes, beside one that took the finished lines in them: the same response
and, unless a bound was reached, the same writer but for the line being read. -/
structure Agrees (p q : LogWriter × Bool) (rest : Bytes) (afterCR : Bool) : Prop where
  done : p.2 = q.2
  out : p.1.out = q.1.out
  state : p.2 = false → p.1 = { q.1 with pending := rest, afterCR := afterCR }

/-- What follows a break is cut as the loop goes on with it. -/
theorem run_after_break {ended : UInt8} (rest : Bytes) :
    Cut.run ⟨[], [], ended == cr⟩ rest =
      Cut.run ⟨[], [], decide (ended = cr ∧ rest.head? ≠ some lf)⟩
        (if ended = cr ∧ rest.head? = some lf then rest.tail else rest) := by
  by_cases hcr : ended = cr
  · by_cases hlf : rest.head? = some lf
    · obtain ⟨tail, rfl⟩ := List.head?_eq_some_iff.1 hlf
      simp only [hcr, beq_self_eq_true, Cut.run_afterCR_lf]
      simp
    · simp [hcr, hlf]
  · rw [beq_false_of_ne hcr]
    simp [hcr]

/-- The loop writes the lines that the cut of the bytes finishes. -/
theorem writeLoop_agrees (fuel : Nat) (l : LogWriter) (data : Bytes) (hfuel : data.length ≤ fuel)
    (hrest : (Cut.run ⟨[], l.pending, l.afterCR⟩ data).rest.length < maxLogLineBytes) :
    Agrees (writeLoop toLower search fuel l data)
      (l.emitAll toLower search (Cut.run ⟨[], l.pending, l.afterCR⟩ data).lines)
      (Cut.run ⟨[], l.pending, l.afterCR⟩ data).rest
      (Cut.run ⟨[], l.pending, l.afterCR⟩ data).afterCR := by
  induction fuel generalizing l data with
  | zero =>
    obtain rfl := List.length_eq_zero_iff.1 (Nat.le_zero.1 hfuel)
    exact ⟨rfl, rfl, fun _ => rfl⟩
  | succ fuel ih =>
    match data with
    | [] => exact ⟨rfl, rfl, fun _ => rfl⟩
    | b :: data =>
      rw [writeLoop]
      split
      · next h =>
        -- the line feed of a break whose carriage return ended the chunk before
        obtain ⟨hcr, rfl⟩ := h
        rw [hcr] at hrest ⊢
        have hrun := ih { l with afterCR := false } data (Nat.le_of_succ_le_succ hfuel) hrest
        have hsame : { l with afterCR := false } = { l with pending := l.pending, afterCR := false } :=
          rfl
        rw [emitAll_frame] at hrun
        exact ⟨hrun.done, hrun.out, hrun.state⟩
      · next h =>
        have hcut : Cut.run ⟨[], l.pending, l.afterCR⟩ (b :: data) =
            Cut.run ⟨[], l.pending, false⟩ (b :: data) := by
          cases hcr : l.afterCR with
          | false => rfl
          | true =>
            rw [hcr] at h
            exact Cut.run_afterCR (by simpa using h) _ _ (List.cons_ne_nil _ _)
        rw [hcut] at hrest ⊢
        split
        · next text hspan =>
          -- no break: the bytes join the line being read
          obtain ⟨hdata, hun, -⟩ := span_unbroken hspan
          rw [hdata, List.append_nil, Cut.run_unbroken hun] at hrest ⊢
          rw [if_neg (Nat.not_le.2 hrest)]
          exact ⟨rfl, rfl, fun _ => rfl⟩
        · next text ended rest hspan =>
          -- a break: one line is finished and the loop goes on behind it
          obtain ⟨hdata, hun, hend⟩ := span_unbroken hspan
          rw [hdata, Cut.run_append, Cut.run_unbroken hun, Cut.run_cons,
            Cut.feed_break (hend ended rfl), Cut.run_lines, run_after_break] at hrest ⊢
          simp only [emit_frame, List.nil_append, List.singleton_append, emitAll]
          split
          · exact ⟨rfl, rfl, nofun⟩
          have hlen : rest.length ≤ fuel := by
            have := congrArg List.length hdata
            simp only [List.length_cons, List.length_append] at this hfuel
            omega
          have hnext := ih
            { (l.emit toLower search (l.pending ++ text)).1 with
              pending := [], afterCR := decide (ended = cr ∧ rest.head? ≠ some lf) }
            (if ended = cr ∧ rest.head? = some lf then rest.tail else rest)
            (by
              split
              · exact rest.tail_sublist.length_le.trans hlen
              · exact hlen) hrest
          rw [emitAll_frame] at hnext
          exact ⟨hnext.done, hnext.out, hnext.state⟩

theorem writeAll_cons (l : LogWriter) (data : Bytes) (chunks : List Bytes) :
    l.writeAll toLower search (data :: chunks) =
      if (l.write toLower search data).2 then ((l.write toLower search data).1, true)
      else (l.write toLower search data).1.writeAll toLower search chunks := rfl

variable (toLower search) in
/-- Chunks write the lines that the cut of the whole stream finishes. -/
theorem writeAll_agrees (l : LogWriter) (chunks : List Bytes)
    (hrest : ∀ s t, chunks.flatten = s ++ t →
      (Cut.run ⟨[], l.pending, l.afterCR⟩ s).rest.length < maxLogLineBytes) :
    Agrees (l.writeAll toLower search chunks)
      (l.emitAll toLower search (Cut.run ⟨[], l.pending, l.afterCR⟩ chunks.flatten).lines)
      (Cut.run ⟨[], l.pending, l.afterCR⟩ chunks.flatten).rest
      (Cut.run ⟨[], l.pending, l.afterCR⟩ chunks.flatten).afterCR := by
  induction chunks generalizing l with
  | nil => exact ⟨rfl, rfl, fun _ => rfl⟩
  | cons data chunks ih =>
    have hdata : Agrees (l.write toLower search data) _ _ _ :=
      writeLoop_agrees data.length l data le_rfl (hrest data chunks.flatten rfl)
    rw [List.flatten_cons, Cut.run_append]
    generalize hc : Cut.run ⟨[], l.pending, l.afterCR⟩ data = c at hdata
    rw [Cut.run_lines, emitAll_append, ← hdata.done, writeAll_cons]
    by_cases hdone : (l.write toLower search data).2
    · rw [if_pos hdone, if_pos hdone]
      exact ⟨hdone.symm.trans hdata.done, hdata.out, nofun⟩
    rw [if_neg hdone, if_neg hdone]
    -- the writer goes on from where the finished lines of the first chunk left it
    have hstate := hdata.state (Bool.eq_false_iff.2 hdone)
    have hnext := ih (l.write toLower search data).1 (by
      intro s t hst
      have hlong := hrest (data ++ s) t (by rw [List.flatten_cons, hst, List.append_assoc])
      rw [Cut.run_append, hc, Cut.run_lines] at hlong
      rw [hstate]
      exact hlong)
    rw [hstate, emitAll_frame (l.emitAll toLower search c.lines).1 _ c.rest c.afterCR] at hnext
    rw [hstate]
    exact ⟨hnext.done, hnext.out, hnext.state⟩

/-! ## The response as a function of the stream -/

theorem foldl_notice (ns : List Notice) (l : LogWriter) :
    (ns.foldl notice l).out = l.out ++ ns.map .notice := by
  induction ns generalizing l with
  | nil => simp
  | cons n ns ih =>
    rw [List.foldl_cons, ih]
    simp [notice]

/-- The end shows a last partial line, whatever is searched for. -/
theorem end_out (l : LogWriter) (closed : Option LogClose) : (l.end closed).out = l.out ++
      ((if l.pending = [] then [] else [.line (l.pending.filter unbroken)]) ++
        (closing l.follow closed).map .notice) := by
  unfold LogWriter.end
  rw [foldl_notice]
  by_cases hp : l.pending = []
  · simp [hp]
  · simp [hp, line]

/-- Lines read so far reach a bound of the request. -/
def spent (read : List Bytes) : Prop :=
  read.length ≥ maxLogLines ∨ (read.map fun text => text.length + 1).sum ≥ maxLogBytes

instance : DecidablePred spent := fun _ => inferInstanceAs (Decidable (_ ∨ _))

/-- The lines of a stream up to the first at which a bound is reached, after those already read. -/
def cutOff (read : List Bytes) : List Bytes → List Bytes
  | [] => []
  | text :: texts => text :: if spent (read ++ [text]) then [] else cutOff (read ++ [text]) texts

/-- A bound is reached among these lines, after those already read. -/
def stops (read : List Bytes) : List Bytes → Bool
  | [] => false
  | text :: texts => decide (spent (read ++ [text])) || stops (read ++ [text]) texts

/-- Lines have been counted as they were read. -/
def Counted (l : LogWriter) (read : List Bytes) : Prop :=
  l.lines = read.length ∧ l.bytes = (read.map fun text => text.length + 1).sum

variable (toLower search) in
/-- What writing lines does: the matching ones up to the bound are shown, then the bound is
reported. -/
theorem emitAll_out (l : LogWriter) (read xs : List Bytes) (h : l.Counted read) :
    (l.emitAll toLower search xs).2 = stops read xs ∧
      (l.emitAll toLower search xs).1.follow = l.follow ∧
      (l.emitAll toLower search xs).1.out =
        l.out ++ ((cutOff read xs).flatMap (shown toLower search) ++
          if stops read xs then [.notice .limit] else []) := by
  induction xs generalizing l read with
  | nil => simp [emitAll, stops, cutOff]
  | cons x xs ih =>
    have hspent : (l.lines + 1 ≥ maxLogLines ∨ l.bytes + (x.length + 1) ≥ maxLogBytes) ↔
        spent (read ++ [x]) := by simp [spent, h.1, h.2]
    simp only [emitAll, emit_eq, hspent, stops, cutOff]
    by_cases hs : spent (read ++ [x])
    · simp [hs]
    simp only [hs, if_false, Bool.false_eq_true]
    obtain ⟨hdone, hfollow, hout⟩ := ih
      ⟨l.follow, l.pending, l.afterCR, l.lines + 1, l.bytes + (x.length + 1),
        l.out ++ shown toLower search x⟩ (read ++ [x])
      ⟨by simp [h.1], by simp [h.2]⟩
    refine ⟨hdone, hfollow, ?_⟩
    rw [hout]
    simp

/-- The response to a stream: the matching lines up to a bound, and at the end of the stream its
last partial line. -/
def response (toLower : Bytes → Bytes) (search : Bytes) (follow : Bool) (closed : Option LogClose)
    (stream : Bytes) : List Entry :=
  let (ls, rest) := splitLines [] stream
  (cutOff [] ls).flatMap (shown toLower search) ++
    if stops [] ls then [.notice .limit]
    else (if rest = [] then [] else [.line (rest.filter unbroken)]) ++
      (closing follow closed).map .notice

/-- However a stream is cut into chunks, its response is the same. -/
theorem serve_stream (follow : Bool) (closed : Option LogClose) (chunks : List Bytes)
    (h : ∀ line ∈ streamLines chunks.flatten, line.length < maxLogLineBytes) :
    serve toLower search follow closed chunks =
      response toLower search follow closed chunks.flatten := by
  have hcut := writeAll_agrees toLower search (new follow) chunks (by
    intro s t hst
    rw [hst] at h
    exact Cut.rest_lt (by decide) h)
  obtain ⟨hlines, hrest⟩ := Cut.run_splitLines [] chunks.flatten
  obtain ⟨hdone, hfollow, hout⟩ := emitAll_out toLower search (new follow) []
    (Cut.run ⟨[], [], false⟩ chunks.flatten).lines ⟨rfl, rfl⟩
  simp only [new_pending, new_afterCR, new_out, new_follow, List.nil_append] at hcut hfollow hout
  simp only [response, ← hlines, ← hrest]
  unfold serve
  dsimp only
  rw [hcut.done, hdone]
  by_cases hstop : stops [] (Cut.run ⟨[], [], false⟩ chunks.flatten).lines = true
  · rw [if_pos hstop, if_pos hstop, hcut.out, hout, if_pos hstop]
  · have hgoes : ((new follow).writeAll toLower search chunks).2 = false := by
      rw [hcut.done, hdone]
      exact Bool.eq_false_iff.2 hstop
    rw [if_neg hstop, if_neg hstop, end_out, hcut.state hgoes, hout, hfollow, if_neg hstop,
      List.append_nil]

/-- The last line is finished, or found, or behind a bound. -/
def LastFound (toLower : Bytes → Bytes) (search stream : Bytes) : Prop :=
  stops [] (splitLines [] stream).1 = true ∨ (splitLines [] stream).2 = [] ∨
    found toLower search (splitLines [] stream).2 = true

theorem containerLines_shown (xs : List Bytes) (h : ∀ x ∈ xs, ∀ b ∈ x, unbroken b = true) :
    containerLines (xs.flatMap (shown toLower search)) = xs.filter (found toLower search) := by
  induction xs with
  | nil => rfl
  | cons x xs ih =>
    have hx : x.filter unbroken = x := List.filter_eq_self.2 (h x List.mem_cons_self)
    rw [List.flatMap_cons, containerLines, List.filterMap_append, ← containerLines,
      ← containerLines, ih fun y hy => h y (List.mem_cons_of_mem _ hy), shown]
    by_cases hf : found toLower search x = true <;> simp [hf, hx, containerLines]

theorem cutOff_append (read xs ys : List Bytes) :
    cutOff read (xs ++ ys) =
      cutOff read xs ++ if stops read xs then [] else cutOff (read ++ xs) ys := by
  induction xs generalizing read with
  | nil => simp [cutOff, stops]
  | cons x xs ih =>
    simp only [List.cons_append, cutOff, stops]
    by_cases hs : spent (read ++ [x])
    · simp [hs]
    · simp [hs, ih]

theorem cutOff_sublist (read xs : List Bytes) : (cutOff read xs).Sublist xs := by
  induction xs generalizing read with
  | nil => exact List.Sublist.slnil
  | cons x xs ih =>
    rw [cutOff]
    split
    · exact (List.nil_sublist xs).cons_cons x
    · exact (ih (read ++ [x])).cons_cons x

theorem containerLines_append (xs ys : List Entry) :
    containerLines (xs ++ ys) = containerLines xs ++ containerLines ys := List.filterMap_append

theorem containerLines_notices (ns : List Notice) : containerLines (ns.map .notice) = [] := by
  simp [containerLines]

/-- The last line of a stream, if it is read: behind a bound it is not. -/
def lastRead (stream : Bytes) : List Bytes :=
  if stops [] (splitLines [] stream).1 = true ∨ (splitLines [] stream).2 = [] then []
  else [(splitLines [] stream).2]

variable (toLower search) in
/-- The finished lines are searched; the last one is shown as it is. -/
theorem containerLines_response (follow : Bool) (closed : Option LogClose) (stream : Bytes) :
    containerLines (response toLower search follow closed stream) =
      (cutOff [] (splitLines [] stream).1).filter (found toLower search) ++ lastRead stream := by
  have hclean : ∀ line ∈ cutOff [] (splitLines [] stream).1, ∀ b ∈ line, unbroken b = true := by
    intro line hline
    apply Cut.unbroken_of_splitLines
    exact List.mem_append_left _ ((cutOff_sublist _ _).subset hline)
  have hrest : (splitLines [] stream).2.filter unbroken = (splitLines [] stream).2 := by
    apply List.filter_eq_self.2
    apply Cut.unbroken_of_splitLines
    exact List.mem_append_right _ (List.mem_singleton_self _)
  simp only [response, lastRead]
  rw [containerLines_append, containerLines_shown _ hclean]
  by_cases hstop : stops [] (splitLines [] stream).1 = true
  · simp [hstop, containerLines]
  by_cases hempty : (splitLines [] stream).2 = []
  · rw [if_neg hstop, if_pos hempty, if_pos (.inr hempty), List.nil_append, containerLines_notices]
  · rw [if_neg hstop, if_neg hempty, if_neg (not_or.2 ⟨hstop, hempty⟩), containerLines_append,
      containerLines_notices, hrest]
    rfl

/-- The lines of a stream up to a bound. -/
theorem cutOff_streamLines (stream : Bytes) :
    cutOff [] (streamLines stream) = cutOff [] (splitLines [] stream).1 ++ lastRead stream := by
  unfold streamLines lastRead
  dsimp only
  by_cases hempty : (splitLines [] stream).2 = []
  · rw [if_pos hempty, if_pos (.inr hempty), List.append_nil]
  · rw [if_neg hempty, cutOff_append]
    by_cases hstop : stops [] (splitLines [] stream).1 = true
    · rw [if_pos hstop, if_pos (.inl hstop)]
    · rw [if_neg hstop, if_neg (not_or.2 ⟨hstop, hempty⟩)]
      simp [cutOff]

variable (toLower search) in
/-- The container lines of a response are the matching lines of the stream, up to a bound, exactly
when the last line is finished, or matches, or is behind the bound; and no response depends on how
its stream was cut. -/
theorem serve_lines (follow : Bool) (closed : Option LogClose) (chunks : List Bytes)
    (h : ∀ line ∈ streamLines chunks.flatten, line.length < maxLogLineBytes) :
    (containerLines (serve toLower search follow closed chunks) =
        (cutOff [] (streamLines chunks.flatten)).filter (found toLower search) ↔
      LastFound toLower search chunks.flatten) ∧
    ∀ chunks' : List Bytes, chunks'.flatten = chunks.flatten →
      serve toLower search follow closed chunks' = serve toLower search follow closed chunks := by
  constructor
  · rw [serve_stream follow closed chunks h, containerLines_response, cutOff_streamLines,
      List.filter_append, List.append_cancel_left_eq, eq_comm, List.filter_eq_self]
    unfold lastRead LastFound
    by_cases hread : stops [] (splitLines [] chunks.flatten).1 = true ∨
        (splitLines [] chunks.flatten).2 = []
    · rw [if_pos hread, ← or_assoc]
      exact iff_of_true (fun _ hmem => absurd hmem List.not_mem_nil) (.inl hread)
    · rw [if_neg hread, ← or_assoc, or_iff_right hread]
      simp
  · intro chunks' heq
    rw [serve_stream follow closed chunks h, serve_stream follow closed chunks' (heq ▸ h), heq]

/-- ASCII letters to lower case: `ToLower` on ASCII text. -/
def asciiLower (s : Bytes) : Bytes := s.map fun b => if 65 ≤ b ∧ b ≤ 90 then b + 32 else b

/-- "Up\r", "\nso DOWN\nend" searched for "down": the pieces of the break are one, and the last line
is behind a break. -/
theorem serve_lines_crlf :
    containerLines (serve asciiLower [100, 111, 119, 110] true none
        [[85, 112, 13], [10, 115, 111, 32, 68, 79, 87, 78, 10]]) =
      [[115, 111, 32, 68, 79, 87, 78]] ∧
    serve asciiLower [100, 111, 119, 110] true none
        [[85, 112, 13, 10, 115, 111, 32, 68, 79, 87, 78, 10]] =
      serve asciiLower [100, 111, 119, 110] true none
        [[85, 112, 13], [10, 115, 111, 32, 68, 79, 87, 78, 10]] := by
  have h := serve_lines asciiLower [100, 111, 119, 110] true none
    [[85, 112, 13], [10, 115, 111, 32, 68, 79, 87, 78, 10]] (by decide +kernel)
  refine ⟨(h.1.2 (by unfold LastFound; decide +kernel)).trans (by decide +kernel), h.2 _ rfl⟩

/-- "b" searched for "x": the line is shown although it does not match. -/
theorem serve_shows_unmatched :
    containerLines (serve asciiLower [120] false none [[98]]) = [[98]] ∧
      (cutOff [] (streamLines [98])).filter (found asciiLower [120]) = [] := by
  constructor <;> decide +kernel

end Search

end LogWriter

end KyYard.Api
