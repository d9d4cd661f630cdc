import KyYard.Api.LogStream
import KyYard.Foundation.EventStream
import KyYard.Protocol.Frame

/-!
# The log response as an event stream

A response that follows a log is framed as server-sent events: a container's line is a data field, a
notice of the server is an event of its own name that carries the token of the request, and an idle
stream gets a comment. `Entry.frame` is that framing, `EventStream.decode` the grammar a reader has
for it.

`calls_decode`: whatever the writer is called for, its response decodes to one default event for each
line, one `notice` event for each notice and nothing else. The reason an endpoint gives for the end of
a log reaches a notice only through `cleanText`.
-/

namespace KyYard.Api

open Foundation Foundation.EventStream

/-- The text an agent may attach to a result. -/
def maxResultDetailBytes : Nat := 4 * 1024

/-- The token of a request: eight random bytes in hexadecimal. -/
def noticeToken (draw : Bytes) : Bytes := Utf8.encode (Text.hexEncode draw)

/-! ## Framing -/

/-- What one entry puts on the wire of a response that follows. -/
def Entry.frame (token : Bytes) : Entry → Bytes
  | .line text => ascii "data: " ++ text ++ ascii "\n\n"
  | .notice n =>
    ascii "event: notice\ndata: [" ++ token ++ ascii "] " ++ ascii n.text ++ ascii "\n\n"
  | .keepalive => ascii ": keepalive\n\n"

/-- The body of a response that follows. -/
def wire (token : Bytes) (out : List Entry) : Bytes := out.flatMap (Entry.frame token)

/-- What a listener is to hear of an entry. -/
def Entry.event (token : Bytes) : Entry → Option Event
  | .line text => some ⟨ascii "message", text, []⟩
  | .notice n => some ⟨ascii "notice", ascii "[" ++ token ++ ascii "] " ++ ascii n.text, []⟩
  | .keepalive => none

/-- The lines of an entry's frame. -/
def Entry.lines (token : Bytes) : Entry → List Bytes
  | .line text => [ascii "data" ++ colon :: space :: text, []]
  | .notice n =>
    [ascii "event" ++ colon :: space :: ascii "notice",
      ascii "data" ++ colon :: space :: (ascii "[" ++ token ++ ascii "] " ++ ascii n.text), []]
  | .keepalive => [colon :: ascii " keepalive", []]

theorem Entry.frame_eq (token : Bytes) (e : Entry) :
    e.frame token = (e.lines token).flatMap fun l => l ++ [lf] := by
  have hdata : ascii "data: " = ascii "data" ++ [colon, space] := by decide
  have hend : ascii "\n\n" = [lf, lf] := by decide
  cases e with
  | line => simp [frame, lines, hdata, hend]
  | notice =>
    have hnotice : ascii "event: notice\ndata: [" =
        ascii "event" ++ [colon, space] ++ ascii "notice" ++ [lf] ++ ascii "data" ++
          [colon, space] ++ ascii "[" := by decide
    simp [frame, lines, hnotice, hend]
  | keepalive =>
    have hcomment : ascii ": keepalive\n\n" = (colon :: ascii " keepalive") ++ [lf, lf] := by decide
    simp [frame, lines, hcomment]

/-- An entry none of whose bytes ends a line. -/
def Entry.Plain : Entry → Prop
  | .line text => ∀ b ∈ text, unbroken b = true
  | .notice n => ∀ c ∈ n.text.toList, c ≠ '\n' ∧ c ≠ '\r'
  | .keepalive => True

theorem unbroken_noticeToken (draw : Bytes) : ∀ b ∈ noticeToken draw, unbroken b = true := by
  apply Utf8.unbroken_encode
  intro c hc
  have hhex := Text.hex_of_mem_hexEncode hc
  constructor
  · rintro rfl
    exact absurd hhex (by decide)
  · rintro rfl
    exact absurd hhex (by decide)

theorem Entry.Plain.lines {e : Entry} (h : e.Plain) (draw : Bytes) :
    ∀ l ∈ e.lines (noticeToken draw), ∀ b ∈ l, unbroken b = true := by
  have hascii : ∀ l ∈ [ascii "data", ascii "event", ascii "notice", ascii "[", ascii "] ",
      ascii " keepalive", [colon], [space]], l.all unbroken = true := by decide
  simp only [List.forall_mem_cons, List.all_eq_true, List.not_mem_nil, false_imp_iff, implies_true,
    and_true] at hascii
  obtain ⟨hdata, hevent, hname, hopen, hclose, hcomment, hcolon, hspace⟩ := hascii
  cases e with
  | line text =>
    have htext : ∀ b ∈ text, unbroken b = true := h
    simp only [Entry.lines, List.forall_mem_cons, List.forall_mem_append, List.not_mem_nil,
      false_imp_iff, implies_true, and_true]
    exact ⟨hdata, hcolon, hspace, htext⟩
  | notice n =>
    have htext : ∀ b ∈ ascii n.text, unbroken b = true := Utf8.unbroken_encode h
    have htoken := unbroken_noticeToken draw
    simp only [Entry.lines, List.forall_mem_cons, List.forall_mem_append, List.not_mem_nil,
      false_imp_iff, implies_true, and_true]
    exact ⟨⟨hevent, hcolon, hspace, hname⟩, hdata, hcolon, hspace, ⟨⟨hopen, htoken⟩, hclose⟩, htext⟩
  | keepalive =>
    simp only [Entry.lines, List.forall_mem_cons, List.not_mem_nil, false_imp_iff, implies_true,
      and_true]
    exact ⟨hcolon, hcomment⟩

/-- A frame, read between two events, is one event or none. -/
theorem foldl_lines (token : Bytes) (e : Entry) (events : List Event) :
    (e.lines token).foldl Reader.line { Reader.fresh with events } =
      { Reader.fresh with events := events ++ (e.event token).toList } := by
  have hdata : ascii "data" ≠ [] ∧ colon ∉ ascii "data" := by decide
  have hevent : ascii "event" ≠ [] ∧ colon ∉ ascii "event" := by decide
  have hset : ∀ (r : Reader) value, r.set (ascii "data") value =
      { r with data := r.data ++ value ++ [lf] } := by
    intro r value
    rw [Reader.set, if_neg (by decide), if_pos rfl]
  cases e with
  | line =>
    simp only [Entry.lines, Entry.event, List.foldl_cons, Reader.line_empty,
      Reader.line_field _ hdata.1 hdata.2, hset]
    simp [Reader.dispatch, Reader.fresh]
  | notice =>
    have hname : ascii "notice" ≠ [] := by decide
    simp only [Entry.lines, Entry.event, List.foldl_cons, Reader.line_empty,
      Reader.line_field _ hdata.1 hdata.2, Reader.line_field _ hevent.1 hevent.2, hset]
    simp [Reader.set, Reader.dispatch, Reader.fresh, hname]
  | keepalive =>
    simp only [Entry.lines, Entry.event, List.foldl_cons, Reader.line_comment, Reader.line_empty]
    simp [Reader.dispatch, Reader.fresh]

/-- A response of plain entries decodes to their events. -/
theorem decode_wire (draw : Bytes) {out : List Entry} (h : ∀ e ∈ out, e.Plain) :
    decode (wire (noticeToken draw) out) =
      { Reader.fresh with events := out.filterMap (Entry.event (noticeToken draw)) } := by
  have hwire : wire (noticeToken draw) out =
      (out.flatMap (Entry.lines (noticeToken draw))).flatMap fun l => l ++ [lf] := by
    rw [List.flatMap_assoc]
    exact List.flatMap_congr fun e _ => e.frame_eq _
  rw [hwire, decode_lines]
  · have hfold : ∀ (events : List Event),
        (out.flatMap (Entry.lines (noticeToken draw))).foldl Reader.line
          { Reader.fresh with events } =
        { Reader.fresh with events := events ++ out.filterMap (Entry.event (noticeToken draw)) } := by
      clear h hwire
      induction out with
      | nil => simp
      | cons e out ih =>
        intro events
        rw [List.flatMap_cons, List.foldl_append, foldl_lines, ih]
        cases he : e.event (noticeToken draw) <;> simp [he]
    exact hfold []
  · intro l hl
    obtain ⟨e, he, hmem⟩ := List.mem_flatMap.1 hl
    exact (h e he).lines draw l hmem
  · rw [← hwire]
    cases out with
    | nil => simp [wire]
    | cons e =>
      -- no frame starts with the first byte of a byte order mark
      cases e with
      | line =>
        have hhead : (ascii "data: ").head? = some 100 := by decide
        simp [wire, Entry.frame, hhead]
      | notice =>
        have hhead : (ascii "event: notice\ndata: [").head? = some 101 := by decide
        simp [wire, Entry.frame, hhead]
      | keepalive =>
        have hhead : (ascii ": keepalive\n\n").head? = some 58 := by decide
        simp [wire, Entry.frame, hhead]

/-! ## What the server says -/

/-- A text that ends no line. -/
def Whole (s : String) : Prop := ∀ c ∈ s.toList, c ≠ '\n' ∧ c ≠ '\r'

instance (s : String) : Decidable (Whole s) := List.decidableBAll _ _

theorem Whole.append {s t : String} (hs : Whole s) (ht : Whole t) : Whole (s ++ t) := by
  intro c hc
  rw [String.toList_append, List.mem_append] at hc
  rcases hc with hc | hc
  · exact hs c hc
  · exact ht c hc

theorem whole_nat (n : Nat) : Whole (toString n) := by
  intro c hc
  have hdigit : c.isDigit = true := by
    refine Nat.isDigit_of_mem_toDigits (b := 10) (n := n) (by decide) (by decide) ?_
    simpa using hc
  constructor
  · rintro rfl
    exact absurd hdigit (by decide)
  · rintro rfl
    exact absurd hdigit (by decide)

theorem whole_int (n : Int) : Whole (toString n) := by
  cases n with
  | ofNat n => exact whole_nat n
  | negSucc n => exact Whole.append (by decide : Whole "-") (whole_nat (n + 1))

/-- Clean text has no control characters. -/
theorem whole_cleanText (s : String) (max : Nat) : Whole (Protocol.cleanText s max) := by
  have hchars : ∀ (cs : List Char) (used : Nat), ∀ c ∈ Protocol.cleanChars max used cs,
      c ≠ '\n' ∧ c ≠ '\r' := by
    intro cs
    induction cs with
    | nil => exact fun _ _ hc => absurd hc List.not_mem_nil
    | cons d cs ih =>
      intro used c hc
      rw [Protocol.cleanChars] at hc
      split at hc
      · exact ih used c hc
      next hclean =>
      split at hc
      · exact absurd hc List.not_mem_nil
      rcases List.mem_cons.1 hc with rfl | hc
      · constructor
        · rintro rfl
          exact hclean (by decide)
        · rintro rfl
          exact hclean (by decide)
      · exact ih _ c hc
  intro c hc
  rw [Protocol.cleanText, String.toList_ofList] at hc
  exact hchars _ 0 c hc

/-- The reason in a notice, if there is one, is one line. -/
def Notice.Whole : Notice → Prop
  | .failed reason => Api.Whole reason
  | _ => True

theorem Notice.Whole.text {n : Notice} (h : n.Whole) : Api.Whole n.text := by
  cases n with
  | split => decide +kernel
  | limit => decide +kernel
  | dropped n => exact ((whole_int n).append (by decide))
  | withdrawn => decide
  | expired => decide
  | failed => exact Api.Whole.append (by decide) h
  | ended => decide

/-! ## Why a stream ends -/

/-- Every way a stream is finished. -/
inductive Ending where
  /-- The reader is done with it. -/
  | released
  /-- A membership or a role was taken away. -/
  | withdrawn
  | disconnected
  | reconnected
  /-- A chunk longer than the protocol allows. -/
  | oversized
  /-- The endpoint says so. -/
  | closed (reason : String) (failed : Bool)
deriving DecidableEq

/-- The close event of an ending. -/
def Ending.close : Ending → Option LogClose
  | .released => none
  | .withdrawn => some ⟨"your access to this log was withdrawn", true⟩
  | .disconnected => some ⟨"the endpoint disconnected", true⟩
  | .reconnected => some ⟨"the endpoint reconnected", true⟩
  | .oversized => some ⟨"the endpoint sent an oversized chunk", true⟩
  | .closed reason failed => some ⟨Protocol.cleanText reason maxResultDetailBytes, failed⟩

theorem Ending.whole (e : Ending) : ∀ c ∈ e.close, Whole c.reason := by
  intro c hc
  cases e with
  | released => cases hc
  | closed =>
    cases hc
    exact whole_cleanText _ _
  | _ =>
    cases hc
    decide

/-! ## The writer -/

namespace LogWriter

/-- Every entry is plain, and so is the line being read: `line` has nothing to take out. -/
structure Framed (l : LogWriter) : Prop where
  out : ∀ e ∈ l.out, e.Plain
  pending : ∀ b ∈ l.pending, unbroken b = true

theorem Framed.new (follow : Bool) : (LogWriter.new follow).Framed := by
  constructor
  · exact fun e he => absurd he List.not_mem_nil
  · exact fun b hb => absurd hb List.not_mem_nil

variable {l : LogWriter}

theorem Framed.add (h : l.Framed) {more : List Entry} (hmore : ∀ e ∈ more, e.Plain) :
    Framed { l with out := l.out ++ more } := by
  refine ⟨?_, h.pending⟩
  intro e he
  rcases List.mem_append.1 he with he | he
  · exact h.out e he
  · exact hmore e he

theorem Framed.notice (h : l.Framed) {n : Notice} (hn : n.Whole) : (l.notice n).Framed := by
  refine h.add fun e he => ?_
  rw [List.mem_singleton.1 he]
  exact hn.text

theorem Framed.line (h : l.Framed) (text : Bytes) : (l.line text).Framed := by
  refine h.add fun e he => ?_
  rw [List.mem_singleton.1 he]
  exact fun b hb => (List.mem_filter.1 hb).2

variable (toLower : Bytes → Bytes) (search : Bytes)

theorem Framed.emit (h : l.Framed) (text : Bytes) : (l.emit toLower search text).1.Framed := by
  have hshown : ∀ e ∈ shown toLower search text, e.Plain := by
    intro e he
    unfold shown at he
    split at he
    · rw [List.mem_singleton.1 he]
      exact fun b hb => (List.mem_filter.1 hb).2
    · exact absurd he List.not_mem_nil
  have hlimit : ∀ e ∈ [Entry.notice .limit], e.Plain := by
    intro e he
    rw [List.mem_singleton.1 he]
    exact Notice.Whole.text trivial
  have hadd := h.add hshown
  rw [emit_eq]
  split
  · exact ⟨(hadd.add hlimit).out, h.pending⟩
  · exact ⟨hadd.out, h.pending⟩

theorem Framed.writeLoop (h : l.Framed) (fuel : Nat) (data : Bytes) :
    (LogWriter.writeLoop toLower search fuel l data).1.Framed := by
  induction fuel generalizing l data with
  | zero => exact h
  | succ fuel ih =>
    match data with
    | [] => exact h
    | b :: data =>
      rw [LogWriter.writeLoop]
      split
      · exact ih (l := { l with afterCR := false }) ⟨h.out, h.pending⟩ data
      split
      · next text hspan =>
        -- no break: the bytes join the line being read
        obtain ⟨-, hun, -⟩ := span_unbroken hspan
        have hjoined : ∀ b ∈ l.pending ++ text, unbroken b = true := by
          intro b hb
          rcases List.mem_append.1 hb with hb | hb
          · exact h.pending b hb
          · exact hun b hb
        dsimp only
        split
        · refine Framed.emit toLower search (Framed.notice (n := .split) ?_ trivial) _
          exact ⟨h.out, fun b hb => absurd hb List.not_mem_nil⟩
        · exact ⟨h.out, hjoined⟩
      · next text ended rest hspan =>
        have hcut : Framed { l with
            afterCR := decide (ended = cr ∧ rest.head? ≠ some lf), pending := [] } :=
          ⟨h.out, fun b hb => absurd hb List.not_mem_nil⟩
        have hnext := hcut.emit toLower search (l.pending ++ text)
        dsimp only
        split
        · exact hnext
        · exact ih hnext _

theorem Framed.write (h : l.Framed) (data : Bytes) : (l.write toLower search data).1.Framed :=
  h.writeLoop toLower search data.length data

theorem Framed.gap (h : l.Framed) (dropped : Int) : (l.gap dropped).Framed := by
  unfold LogWriter.gap
  split
  · exact h.notice trivial
  · exact h

theorem Framed.keepalive (h : l.Framed) : l.keepalive.Framed := by
  unfold LogWriter.keepalive
  split
  · refine h.add fun e he => ?_
    rw [List.mem_singleton.1 he]
    trivial
  · exact h

theorem Framed.end (h : l.Framed) {close : Option LogClose}
    (hclose : ∀ c ∈ close, Whole c.reason) : (l.end close).Framed := by
  have hnotices : ∀ (ns : List Notice), (∀ n ∈ ns, n.Whole) →
      ∀ l : LogWriter, l.Framed → (ns.foldl LogWriter.notice l).Framed := by
    intro ns
    induction ns with
    | nil => exact fun _ _ hl => hl
    | cons n ns ih =>
      intro hns l hl
      exact ih (fun m hm => hns m (List.mem_cons_of_mem _ hm)) _
        (hl.notice (hns n List.mem_cons_self))
  have hclosing : ∀ follow, ∀ n ∈ closing follow close, n.Whole := by
    intro follow n hn
    unfold closing at hn
    split at hn
    · next reason =>
      rw [List.mem_singleton.1 hn]
      exact hclose ⟨reason, true⟩ rfl
    · split at hn
      · rw [List.mem_singleton.1 hn]
        trivial
      · exact absurd hn List.not_mem_nil
  refine hnotices _ (hclosing _) _ ?_
  split
  · exact ⟨(h.line l.pending).out, fun b hb => absurd hb List.not_mem_nil⟩
  · exact h

/-! ## Whatever the writer is called for -/

/-- What the handler of a request calls its writer for. -/
inductive Call where
  | chunk (data : Bytes)
  | gap (dropped : Int)
  | withdrawn
  | expired
  | keepalive
  | «end» (ending : Ending)
deriving DecidableEq

/-- One call of the writer. -/
def call (l : LogWriter) : Call → LogWriter
  | .chunk data => (l.write toLower search data).1
  | .gap dropped => l.gap dropped
  | .withdrawn => l.notice .withdrawn
  | .expired => l.notice .expired
  | .keepalive => l.keepalive
  | .end ending => l.end ending.close

theorem Framed.call (h : l.Framed) (c : Call) : (l.call toLower search c).Framed := by
  cases c with
  | chunk data => exact h.write toLower search data
  | gap dropped => exact h.gap dropped
  | withdrawn => exact h.notice trivial
  | expired => exact h.notice trivial
  | keepalive => exact h.keepalive
  | «end» ending => exact h.end ending.whole

theorem Framed.calls (h : l.Framed) (cs : List Call) :
    (cs.foldl (LogWriter.call toLower search) l).Framed := by
  induction cs generalizing l with
  | nil => exact h
  | cons c cs ih => exact ih (h.call toLower search c)

/-- Whatever a container prints and however its chunks, notices, comments and the end of the stream
follow one another: the response is read as the writer's entries, an event for each line and for each
notice, and no line lost a byte to its framing. -/
theorem calls_decode (draw : Bytes) (cs : List Call) :
    decode (wire (noticeToken draw)
        (cs.foldl (LogWriter.call toLower search) (.new true)).out) =
      { Reader.fresh with
        events := (cs.foldl (LogWriter.call toLower search) (.new true)).out.filterMap
          (Entry.event (noticeToken draw)) } ∧
      ∀ b ∈ (cs.foldl (LogWriter.call toLower search) (.new true)).pending, unbroken b = true := by
  have h := (Framed.new true).calls toLower search cs
  exact ⟨decode_wire draw h.out, h.pending⟩

end LogWriter

end KyYard.Api
