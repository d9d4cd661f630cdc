import KyYard.Api.LogStream

/-!
# Reading a pod's log

`copyBounded` hands a pod's log on as it is read, up to the limits of one request.

`copied_eq`: whatever the reads are, what is handed on is the log up to the byte limit or the last
line allowed, whichever comes first, in pieces of at most one chunk.
-/

namespace KyYard.Kubernetes

open Foundation
open Api (maxLogChunkBytes maxLogLines maxLogBytes)

/-- The error of a read. -/
inductive ReadError
  | eof
  | other
deriving DecidableEq

/-- What one read returned; it fits the buffer. -/
structure LogRead where
  data : Bytes
  err : Option ReadError
  fits : data.length ≤ maxLogChunkBytes

/-- How the copy ends. With `open` the reader still waits for the log. -/
inductive CopyEnd (E : Type)
  | done
  | sink (e : E)
  | broke
  | open

/-- A chunk up to the last line allowed, and the lines seen then. -/
def countLines : Nat → Bytes → Nat × Bytes
  | lines, [] => (lines, [])
  | lines, b :: chunk =>
    if b = lf ∧ lines + 1 = maxLogLines then (lines + 1, [b])
    else
      let rest := countLines (if b = lf then lines + 1 else lines) chunk
      (rest.1, b :: rest.2)

variable {E : Type}

/-- The loop, with the pieces handed on. The sink may fail on any piece, and a read that fails once
the reader is gone is no failure. -/
def copyLoop (sink : List Bytes → Bytes → Option E) (gone : Bool) :
    List LogRead → Nat → Nat → List Bytes → List Bytes × CopyEnd E
  | [], _, _, passed => (passed, .open)
  | r :: reads, lines, total, passed =>
    let next (lines total : Nat) (passed : List Bytes) : List Bytes × CopyEnd E :=
      match r.err with
      | none => copyLoop sink gone reads lines total passed
      | some e => (passed, if e = .eof ∨ gone then .done else .broke)
    if r.data = [] then next lines total passed
    else
      let (lines, chunk) := countLines lines (r.data.take (maxLogBytes - total))
      let total := total + chunk.length
      match sink passed chunk with
      | some e => (passed, .sink e)
      | none =>
        if maxLogBytes ≤ total ∨ maxLogLines ≤ lines then (passed ++ [chunk], .done)
        else next lines total (passed ++ [chunk])

def copyBounded (sink : List Bytes → Bytes → Option E) (gone : Bool) (reads : List LogRead) :
    List Bytes × CopyEnd E :=
  copyLoop sink gone reads 0 0 []

/-! ## What is handed on -/

/-- The log that the reads return. -/
def stream : List LogRead → Bytes
  | [] => []
  | r :: reads => r.data ++ if r.err = none then stream reads else []

/-- A text up to and with the `n`th line break. -/
def throughLine : Nat → Bytes → Bytes
  | 0, _ => []
  | _ + 1, [] => []
  | n + 1, b :: s => b :: throughLine (if b = lf then n else n + 1) s

@[simp]
theorem throughLine_nil (n : Nat) : throughLine n [] = [] := by cases n <;> rfl

theorem throughLine_append (n : Nat) (s t : Bytes) :
    throughLine n (s ++ t) = throughLine n s ++ throughLine (n - s.count lf) t := by
  induction s generalizing n with
  | nil => simp
  | cons b s ih =>
    cases n with
    | zero => simp [throughLine]
    | succ n => by_cases hb : b = lf <;> simp [throughLine, hb, ih]

theorem throughLine_length_le (n : Nat) (s : Bytes) : (throughLine n s).length ≤ s.length := by
  induction s generalizing n with
  | nil => simp
  | cons b s ih =>
    cases n with
    | zero => exact Nat.zero_le _
    | succ n => exact Nat.succ_le_succ (ih _)

theorem throughLine_of_count {n : Nat} {s : Bytes} (h : s.count lf < n) : throughLine n s = s := by
  induction s generalizing n with
  | nil => simp
  | cons b s ih =>
    obtain ⟨n, rfl⟩ := Nat.exists_eq_add_of_lt (Nat.zero_lt_of_lt h)
    by_cases hb : b = lf <;> simp [throughLine, hb] at h ⊢ <;> exact ih (by omega)

/-- The loop over a chunk cuts it at the last line allowed. -/
theorem countLines_eq {lines : Nat} (h : lines < maxLogLines) (s : Bytes) :
    countLines lines s =
      (min maxLogLines (lines + s.count lf), throughLine (maxLogLines - lines) s) := by
  induction s generalizing lines with
  | nil => simp [countLines, Nat.min_eq_right (Nat.le_of_lt h)]
  | cons b s ih =>
    obtain ⟨n, hn⟩ : ∃ n, maxLogLines - lines = n + 1 := ⟨maxLogLines - lines - 1, by omega⟩
    rw [countLines, hn]
    by_cases hb : b = lf
    · subst hb
      by_cases hlast : lines + 1 = maxLogLines
      · obtain rfl : n = 0 := by omega
        rw [if_pos ⟨rfl, hlast⟩, List.count_cons_self, Nat.min_eq_left (by omega), hlast]
        simp [throughLine]
      · rw [if_neg fun hc => hlast hc.2, if_pos rfl, ih (by omega), List.count_cons_self,
          show maxLogLines - (lines + 1) = n by omega]
        simp [throughLine, Nat.add_comm, Nat.add_left_comm]
    · rw [if_neg fun hc => hb hc.1, if_neg hb, ih h, List.count_cons_of_ne hb, hn]
      simp [throughLine, hb]

/-- The log within the limits is the piece of the next read and, unless that meets a limit, the rest
of the log within what is left of them. -/
theorem throughLine_read {lines total lines' : Nat} {piece : Bytes} (hl : lines < maxLogLines)
    (data rest : Bytes)
    (hpiece : countLines lines (data.take (maxLogBytes - total)) = (lines', piece)) :
    piece.length ≤ data.length ∧
      throughLine (maxLogLines - lines) ((data ++ rest).take (maxLogBytes - total)) =
        piece ++ if maxLogBytes ≤ total + piece.length ∨ maxLogLines ≤ lines' then []
          else throughLine (maxLogLines - lines') (rest.take (maxLogBytes - (total + piece.length))) := by
  rw [countLines_eq hl, Prod.mk.injEq] at hpiece
  obtain ⟨rfl, rfl⟩ := hpiece
  have hlen := throughLine_length_le (maxLogLines - lines) (data.take (maxLogBytes - total))
  rw [List.length_take] at hlen
  refine ⟨by omega, ?_⟩
  rw [List.take_append, throughLine_append]
  congr 1
  split
  · next hstop =>
    rcases hstop with hbytes | hlines
    · rw [show maxLogBytes - total - data.length = 0 by omega, List.take_zero, throughLine_nil]
    · rw [show maxLogLines - lines - (data.take (maxLogBytes - total)).count lf = 0 by omega]
      simp [throughLine]
  · next hgo =>
    -- the read is within both limits and handed on whole
    have hwhole : throughLine (maxLogLines - lines) (data.take (maxLogBytes - total)) =
        data.take (maxLogBytes - total) := throughLine_of_count (by omega)
    rw [hwhole, List.length_take] at hgo ⊢
    rw [Nat.min_eq_right (by omega : lines + _ ≤ maxLogLines),
      Nat.min_eq_right (by omega : data.length ≤ _), Nat.sub_sub, Nat.sub_sub]

/-- Pieces of the log, all of it unless the sink failed. -/
def Copied (passed : List Bytes) (log : Bytes) (res : List Bytes × CopyEnd E) : Prop :=
  ∃ pieces, res.1 = passed ++ pieces ∧ pieces.flatten <+: log ∧
    ((∀ e, res.2 ≠ .sink e) → pieces.flatten = log) ∧ ∀ p ∈ pieces, p.length ≤ maxLogChunkBytes

theorem Copied.nil {passed : List Bytes} {how : CopyEnd E} : Copied passed [] (passed, how) :=
  ⟨[], by simp⟩

theorem Copied.cons {passed : List Bytes} {chunk log : Bytes} {res : List Bytes × CopyEnd E}
    (hchunk : chunk.length ≤ maxLogChunkBytes) (h : Copied (passed ++ [chunk]) log res) :
    Copied passed (chunk ++ log) res := by
  obtain ⟨pieces, hres, hpre, hall, hle⟩ := h
  refine ⟨chunk :: pieces, by simp [hres], ?_, ?_, ?_⟩
  · simpa using hpre
  · intro hsink
    rw [List.flatten_cons, hall hsink]
  · simpa using ⟨hchunk, hle⟩

theorem copied_copyLoop (sink : List Bytes → Bytes → Option E) (gone : Bool)
    (reads : List LogRead) {lines total : Nat} (passed : List Bytes) (hl : lines < maxLogLines)
    (ht : total < maxLogBytes) :
    Copied passed (throughLine (maxLogLines - lines) ((stream reads).take (maxLogBytes - total)))
      (copyLoop sink gone reads lines total passed) := by
  induction reads generalizing lines total passed with
  | nil => simpa [stream, copyLoop] using Copied.nil
  | cons r reads ih =>
    have hnext : ∀ {lines total : Nat} (passed : List Bytes), lines < maxLogLines →
        total < maxLogBytes →
        Copied passed (throughLine (maxLogLines - lines)
            ((if r.err = none then stream reads else []).take (maxLogBytes - total)))
          (match r.err with
            | none => copyLoop sink gone reads lines total passed
            | some e => (passed, if e = .eof ∨ gone then .done else .broke)) := by
      intro lines total passed hl ht
      cases r.err with
      | none => exact ih passed hl ht
      | some e => simpa using Copied.nil
    rw [copyLoop, stream]
    by_cases hd : r.data = []
    · simpa [hd] using hnext passed hl ht
    rw [if_neg hd]
    obtain ⟨lines', piece, hpiece⟩ : ∃ l p, countLines lines (r.data.take (maxLogBytes - total)) =
      (l, p) := ⟨_, _, rfl⟩
    obtain ⟨hlen, hlog⟩ := throughLine_read hl r.data
      (if r.err = none then stream reads else []) hpiece
    rw [hlog, hpiece]
    dsimp only
    cases sink passed piece with
    | some e => exact ⟨[], by simp⟩
    | none =>
      refine Copied.cons (hlen.trans r.fits) ?_
      dsimp only
      split
      · exact Copied.nil
      · exact hnext _ (by omega) (by omega)

/-- What is handed on is the log within both limits, or a part of it from its front if the sink
fails, in pieces of at most one chunk. -/
theorem copied_eq (sink : List Bytes → Bytes → Option E) (gone : Bool) (reads : List LogRead) :
    let log := throughLine maxLogLines ((stream reads).take maxLogBytes)
    let res := copyBounded sink gone reads
    res.1.flatten <+: log ∧ ((∀ e, res.2 ≠ .sink e) → res.1.flatten = log) ∧
      ∀ p ∈ res.1, p.length ≤ maxLogChunkBytes := by
  obtain ⟨pieces, hres, h⟩ := copied_copyLoop sink gone reads [] (by decide : 0 < maxLogLines)
    (by decide : 0 < maxLogBytes)
  obtain rfl := hres.trans (List.nil_append _)
  exact h

end KyYard.Kubernetes
