import KyYard.Api.LogEvents
import KyYard.Docker.LogCopy
import KyYard.Foundation.Runes

/-!
# Reading a container's log

The agent makes each piece of a log that its runtime hands over valid UTF-8 and sends it in chunks
within the protocol's limit, cut between two characters (`readLog`). A piece is coerced by itself, so
what becomes of a character or of a run of other bytes depends on where the runtime cut the log.

`faithful_iff`: the text sent is that of the whole log, with exactly the bytes of the log replaced that
belong to no character, if and only if no piece ends inside a character or inside a run of other bytes.
Every chunk is valid and within the limit in any case.
-/

namespace KyYard.Agent.Logs

open Foundation Foundation.Runes
open Api (maxLogChunkBytes maxResultDetailBytes)

/-! ## The sink -/

/-- The last place up to `k` where a character starts, or the front. -/
def cutBack (s : Bytes) : Nat → Nat
  | 0 => 0
  | k + 1 => if (s.drop (k + 1)).head?.any fun b => !inner b then k + 1 else cutBack s k

/-- The largest cut up to `max` that does not split a character. -/
def cutAtRune (s : Bytes) (max : Nat) : Nat :=
  if s.length ≤ max then s.length
  else if cutBack s max = 0 then max
  else cutBack s max

/-- The loop of the sink. Every turn takes a byte at least, so the length is fuel enough. -/
def splitLoop : Nat → Bytes → List Bytes
  | 0, _ => []
  | _ + 1, [] => []
  | fuel + 1, b :: s =>
    let cut := cutAtRune (b :: s) maxLogChunkBytes
    (b :: s).take cut :: splitLoop fuel ((b :: s).drop cut)

/-- The chunks of one piece. -/
def sink (piece : Bytes) : List Bytes := splitLoop (toValid piece).length (toValid piece)

/-- What the agent sends. -/
inductive OutFrame where
  | logChunk (data : Bytes)
  | logClose (reason : String) (failed : Bool)
deriving DecidableEq

/-- A log as the runtime reads it: the pieces it hands over, and the error it ends with. -/
structure Source where
  pieces : List Bytes
  err : Option String

/-- The frames of one log. With `cancelled` the session takes that many chunks and no frame after. -/
def readLog (source : Option Source) (cancelled : Option Nat) : List OutFrame :=
  match source, cancelled with
  | none, none => [.logClose "this agent has no runtime to read logs from" true]
  | none, some _ => []
  | some log, some n => ((log.pieces.flatMap sink).take n).map .logChunk
  | some log, none =>
    (log.pieces.flatMap sink).map .logChunk ++
      [match log.err with
        | none => .logClose "the log ended" false
        | some e => .logClose (Protocol.cleanText e maxResultDetailBytes) true]

/-- The text of the chunks among some frames. -/
def chunks (frames : List OutFrame) : List Bytes :=
  frames.filterMap fun
    | .logChunk data => some data
    | .logClose _ _ => none

/-! ## Chunks -/

theorem cutBack_spec (s : Bytes) (k : Nat) : cutBack s k ≤ k ∧
    (0 < cutBack s k → ∃ b, (s.drop (cutBack s k)).head? = some b ∧ inner b = false) ∧
    ∀ j ≤ k, 0 < j → (∃ b, (s.drop j).head? = some b ∧ inner b = false) → j ≤ cutBack s k := by
  induction k with
  | zero => exact ⟨le_rfl, nofun, fun j hj hpos _ => absurd hpos (Nat.not_lt.2 hj)⟩
  | succ k ih =>
    rw [cutBack]
    split
    · next hstart =>
      obtain ⟨b, hb, hinner⟩ := (Option.any_eq_true _ _).1 hstart
      exact ⟨le_rfl, fun _ => ⟨b, hb, by simpa using hinner⟩, fun j hj _ _ => hj⟩
    · next hstart =>
      refine ⟨ih.1.trans (Nat.le_succ k), ih.2.1, fun j hj hpos hb => ?_⟩
      rcases Nat.lt_or_eq_of_le hj with hlt | rfl
      · exact ih.2.2 j (Nat.le_of_lt_succ hlt) hpos hb
      · obtain ⟨b, hb, hinner⟩ := hb
        exact absurd ((Option.any_eq_true _ _).2 ⟨b, hb, by simpa using hinner⟩) hstart

/-- Valid text is cut into valid text. -/
theorem cutAtRune_spec {s : Bytes} (h : valid s = true) (hs : s ≠ []) {max : Nat} (hmax : 4 ≤ max) :
    0 < cutAtRune s max ∧ cutAtRune s max ≤ max ∧ valid (s.take (cutAtRune s max)) = true ∧
      valid (s.drop (cutAtRune s max)) = true := by
  unfold cutAtRune
  split
  · next hshort =>
    refine ⟨List.length_pos_iff.2 hs, hshort, ?_, ?_⟩
    · rwa [List.take_length]
    · rw [List.drop_length]
      rfl
  · next hlong =>
    have hlong := Nat.lt_of_not_le hlong
    obtain ⟨hle, hstart, hlast⟩ := cutBack_spec s max
    -- the second character starts within reach, so the cut is behind the first at least
    have hpos : 0 < cutBack s max := by
      obtain ⟨n, hn, hfour, hsecond⟩ := exists_start h hs
      have hin : n < s.length := by omega
      refine hn.trans_le (hlast n (hfour.trans hmax) hn ⟨s[n], ?_, ?_⟩)
      · simp
      · exact hsecond s[n] (by simp)
    obtain ⟨b, hb, hinner⟩ := hstart hpos
    rw [if_neg hpos.ne']
    refine ⟨hpos, hle, valid_cut h (hle.trans hlong.le) fun c hc => ?_⟩
    rw [hb, Option.some.injEq] at hc
    rw [← hc]
    exact hinner

theorem splitLoop_spec (fuel : Nat) {s : Bytes} (h : valid s = true) (hfuel : s.length ≤ fuel) :
    (splitLoop fuel s).flatten = s ∧
      ∀ data ∈ splitLoop fuel s, valid data = true ∧ data.length ≤ maxLogChunkBytes := by
  induction fuel generalizing s with
  | zero =>
    obtain rfl := List.length_eq_zero_iff.1 (Nat.le_zero.1 hfuel)
    exact ⟨rfl, nofun⟩
  | succ fuel ih =>
    cases s with
    | nil => exact ⟨rfl, nofun⟩
    | cons b s =>
      obtain ⟨hpos, hle, htake, hdrop⟩ := cutAtRune_spec h (List.cons_ne_nil b s)
        (by decide : 4 ≤ maxLogChunkBytes)
      obtain ⟨hflat, hall⟩ := ih hdrop (by
        rw [List.length_drop]
        omega)
      rw [splitLoop]
      constructor
      · rw [List.flatten_cons, hflat, List.take_append_drop]
      · intro data hdata
        rcases List.mem_cons.1 hdata with rfl | hdata
        · exact ⟨htake, (List.length_take_le _ _).trans hle⟩
        · exact hall data hdata

theorem sink_spec (piece : Bytes) : (sink piece).flatten = toValid piece ∧
    ∀ data ∈ sink piece, valid data = true ∧ data.length ≤ maxLogChunkBytes :=
  splitLoop_spec _ (valid_toValid piece) le_rfl

/-- The text of a log is that of its pieces, each coerced by itself. -/
theorem flatten_sinks (pieces : List Bytes) : (pieces.flatMap sink).flatten = pieces.flatMap toValid := by
  induction pieces with
  | nil => rfl
  | cons p pieces ih => rw [List.flatMap_cons, List.flatten_append, (sink_spec p).1, ih, List.flatMap_cons]

/-! ## Where a log is cut -/

/-- No piece ends inside a character: the characters of the log are those of its pieces. -/
def Aligned (pieces : List Bytes) : Prop := tokens pieces.flatten = pieces.flatMap tokens

/-- No piece ends inside a run of bytes that belong to no character. -/
def Unbroken (pieces : List Bytes) : Prop := runsWhole (pieces.map tokens) = true

/-- The text sent is that of the whole log, however it was cut. The bytes that are replaced in the
pieces are those of the log that belong to no character, a valid log comes out as it is, and every chunk
is valid and within the limit. -/
structure Faithful (log : Source) : Prop where
  sent : (chunks (readLog (some log) none)).flatten = toValid log.pieces.flatten
  replaced : log.pieces.flatMap invalid = invalid log.pieces.flatten
  text : valid log.pieces.flatten = true →
    (chunks (readLog (some log) none)).flatten = log.pieces.flatten
  fits : ∀ cancelled, ∀ data ∈ chunks (readLog (some log) cancelled),
    valid data = true ∧ data.length ≤ maxLogChunkBytes

theorem chunks_map (ds : List Bytes) : chunks (ds.map .logChunk) = ds := by
  induction ds with
  | nil => rfl
  | cons d ds ih => exact congrArg (d :: ·) ih

theorem chunks_readLog (log : Source) : chunks (readLog (some log) none) = log.pieces.flatMap sink := by
  have hclose : chunks [match log.err with
      | none => OutFrame.logClose "the log ended" false
      | some e => .logClose (Protocol.cleanText e maxResultDetailBytes) true] = [] := by
    cases log.err <;> rfl
  unfold readLog
  rw [chunks, List.filterMap_append]
  exact (congrArg₂ (· ++ ·) (chunks_map _) hclose).trans (List.append_nil _)

theorem fits_of_mem (log : Source) (cancelled : Option Nat) {data : Bytes}
    (h : data ∈ chunks (readLog (some log) cancelled)) :
    valid data = true ∧ data.length ≤ maxLogChunkBytes := by
  have hmem : data ∈ log.pieces.flatMap sink := by
    cases cancelled with
    | none => rwa [chunks_readLog] at h
    | some =>
      rw [readLog, chunks_map] at h
      exact List.mem_of_mem_take h
  obtain ⟨p, -, hp⟩ := List.mem_flatMap.1 hmem
  exact (sink_spec p).2 data hp

theorem marks_flatMap (pieces : List Bytes) :
    marks (pieces.flatMap tokens) = pieces.flatMap invalid := by
  rw [marks, List.flatMap_assoc]
  rfl

theorem aligned_of_replaced {pieces : List Bytes}
    (h : pieces.flatMap invalid = invalid pieces.flatten) : Aligned pieces := by
  have hbytes : (pieces.flatMap tokens).flatMap Token.bytes = pieces.flatten := by
    rw [List.flatMap_assoc]
    simp only [tokens_bytes]
    exact List.flatMap_id
  refine eq_of_marks (fun t => formed_of_mem) ?_ ?_ ?_
  · intro t ht
    obtain ⟨p, -, hp⟩ := List.mem_flatMap.1 ht
    exact formed_of_mem hp
  · rw [tokens_bytes, hbytes]
  · rw [marks_flatMap, h]
    rfl

/-- For pieces with whole characters the text sent is that of the log exactly if runs are whole. -/
theorem sent_iff (log : Source) (h : Aligned log.pieces) :
    (chunks (readLog (some log) none)).flatten = toValid log.pieces.flatten ↔
      Unbroken log.pieces := by
  have hpieces : log.pieces.flatMap toValid = (log.pieces.map tokens).flatMap (mended false) :=
    (List.flatMap_map tokens (mended false) _).symm
  have hwhole : toValid log.pieces.flatten = mended false (log.pieces.map tokens).flatten := by
    rw [← List.flatMap_def, ← h]
    rfl
  rw [chunks_readLog, flatten_sinks, hpieces, hwhole, eq_comm, mended_flatten_iff]
  rfl

/-- The log is sent as it is, but for the bytes of it that belong to no character, exactly if no piece
ends inside a character or inside a run of other bytes. -/
theorem faithful_iff (log : Source) : Faithful log ↔ Aligned log.pieces ∧ Unbroken log.pieces := by
  constructor
  · intro h
    have haligned := aligned_of_replaced h.replaced
    exact ⟨haligned, (sent_iff log haligned).1 h.sent⟩
  · rintro ⟨haligned, hunbroken⟩
    have hsent := (sent_iff log haligned).2 hunbroken
    refine ⟨hsent, ?_, fun hvalid => ?_, fun cancelled data => fits_of_mem log cancelled⟩
    · rw [← marks_flatMap, ← haligned]
      rfl
    · rw [hsent, toValid_of_valid hvalid]

/-- A terminal prints one character, or two bytes that belong to none, and the two reads of its log get
a byte each. Both bytes of the character are replaced, and the run of the other two is replaced twice. -/
theorem cut_changes_text :
    let log (first second : UInt8) : Source :=
      ⟨(Docker.LogCopy.copyRaw [([first], none, none), ([second], some .eof, none)]).1, none⟩
    (valid (log 0xC3 0xA9).pieces.flatten = true ∧ (log 0xC3 0xA9).pieces.flatten = [0xC3, 0xA9] ∧
        chunks (readLog (some (log 0xC3 0xA9)) none) = [replacement, replacement] ∧
        ¬ Faithful (log 0xC3 0xA9)) ∧
      toValid (log 0xFF 0xFE).pieces.flatten = replacement ∧
        chunks (readLog (some (log 0xFF 0xFE)) none) = [replacement, replacement] ∧
        ¬ Faithful (log 0xFF 0xFE) := by
  refine ⟨⟨by decide, by decide, by decide, ?_⟩, by decide, by decide, ?_⟩
  · intro h
    exact absurd (h.text (by decide)) (by decide)
  · intro h
    exact absurd h.sent (by decide)

end KyYard.Agent.Logs
