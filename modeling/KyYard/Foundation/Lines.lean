import Mathlib.Data.List.TakeDrop
import Mathlib.Data.List.TakeWhile

/-!
# Lines of a byte stream

A line ends at a line feed, at a carriage return, or at the two together, which are one break.
`splitLines` reads the lines off a whole stream. `Cut` is the same cut one byte at a time: its state
after a stream is that of `splitLines` (`run_splitLines`), and feeding a stream in pieces is feeding
it whole (`Cut.run_append`).
-/

namespace KyYard.Foundation

abbrev Bytes := List UInt8

def lf : UInt8 := 10

def cr : UInt8 := 13

/-- A byte that ends no line. -/
def unbroken (b : UInt8) : Bool := b != lf && b != cr

theorem unbroken_eq_false {b : UInt8} : unbroken b = false ↔ b = lf ∨ b = cr := by
  rw [← Bool.not_eq_true, unbroken, Bool.and_eq_true, bne_iff_ne, bne_iff_ne]
  tauto

/-- A text up to its first break. -/
theorem span_unbroken {s text rest : Bytes} (h : s.span unbroken = (text, rest)) :
    s = text ++ rest ∧ (∀ b ∈ text, unbroken b = true) ∧
      ∀ b, rest.head? = some b → unbroken b = false := by
  rw [List.span_eq_takeWhile_dropWhile] at h
  obtain ⟨rfl, rfl⟩ := h
  refine ⟨List.takeWhile_append_dropWhile.symm, fun b hb => List.mem_takeWhile_imp hb, ?_⟩
  intro b hb
  have hnot := List.head?_dropWhile_not unbroken s
  rw [hb] at hnot
  exact hnot

/-- The finished lines of a stream, the first of which starts with `line`, and the rest after the
last break. -/
def splitLines (line : Bytes) : Bytes → List Bytes × Bytes
  | [] => ([], line)
  | b :: bs =>
    if b = lf then
      let (ls, rest) := splitLines [] bs
      (line :: ls, rest)
    else if b = cr then
      match bs with
      | [] => ([line], [])
      | c :: cs =>
        -- CR LF is one break
        let (ls, rest) := if c = lf then splitLines [] cs else splitLines [] (c :: cs)
        (line :: ls, rest)
    else splitLines (line ++ [b]) bs

/-- The lines of a stream, the last one also when no break ends it. -/
def streamLines (s : Bytes) : List Bytes :=
  let (ls, rest) := splitLines [] s
  if rest = [] then ls else ls ++ [rest]

/-- A line that a line feed ends. -/
theorem splitLines_append_lf {l : Bytes} (h : ∀ b ∈ l, unbroken b = true) (line rest : Bytes) :
    splitLines line (l ++ lf :: rest) =
      ((line ++ l) :: (splitLines [] rest).1, (splitLines [] rest).2) := by
  induction l generalizing line with
  | nil =>
    rw [splitLines.eq_def]
    simp
  | cons b l ih =>
    have hb := h b List.mem_cons_self
    simp only [unbroken, Bool.and_eq_true, bne_iff_ne] at hb
    rw [List.cons_append, splitLines.eq_def]
    simp only [hb.1, hb.2]
    rw [ih (fun x hx => h x (List.mem_cons_of_mem _ hx)) (line ++ [b]), List.append_assoc]
    rfl

/-- Lines with a line feed each are the lines of their text. -/
theorem splitLines_lines {ls : List Bytes} (h : ∀ l ∈ ls, ∀ b ∈ l, unbroken b = true) :
    splitLines [] (ls.flatMap fun l => l ++ [lf]) = (ls, []) := by
  induction ls with
  | nil => rw [List.flatMap_nil, splitLines.eq_def]
  | cons l ls ih =>
    rw [List.flatMap_cons, List.append_assoc, List.singleton_append,
      splitLines_append_lf (h l List.mem_cons_self), ih fun x hx => h x (List.mem_cons_of_mem _ hx)]
    rfl

/-! ## One byte at a time -/

/-- Finished lines, the line being read, and whether the last byte was a carriage return. -/
structure Cut where
  lines : List Bytes
  rest : Bytes
  afterCR : Bool
deriving DecidableEq

namespace Cut

def feed (c : Cut) (b : UInt8) : Cut :=
  if c.afterCR = true ∧ b = lf then { c with afterCR := false }
  else if b = lf ∨ b = cr then ⟨c.lines ++ [c.rest], [], b == cr⟩
  else ⟨c.lines, c.rest ++ [b], false⟩

def run (c : Cut) (s : Bytes) : Cut := s.foldl feed c

theorem run_cons (c : Cut) (b : UInt8) (s : Bytes) : c.run (b :: s) = (c.feed b).run s := rfl

theorem run_append (c : Cut) (s t : Bytes) : c.run (s ++ t) = (c.run s).run t :=
  List.foldl_append

/-- Lines finished earlier stay in front. -/
theorem run_lines (ls : List Bytes) (rest : Bytes) (a : Bool) (s : Bytes) :
    run ⟨ls, rest, a⟩ s =
      { run ⟨[], rest, a⟩ s with lines := ls ++ (run ⟨[], rest, a⟩ s).lines } := by
  induction s generalizing ls rest a with
  | nil => simp [run]
  | cons b s ih =>
    rw [run_cons, run_cons]
    unfold feed
    dsimp only
    split
    · exact ih ls rest false
    · split
      · rw [ih (ls ++ [rest]), ih ([] ++ [rest])]
        simp
      · exact ih ls _ false

/-- A text without a break only grows the line being read. -/
theorem run_unbroken {s : Bytes} (h : ∀ b ∈ s, unbroken b = true) (ls : List Bytes) (rest : Bytes) :
    run ⟨ls, rest, false⟩ s = ⟨ls, rest ++ s, false⟩ := by
  induction s generalizing rest with
  | nil => simp [run]
  | cons b s ih =>
    have hb := h b List.mem_cons_self
    simp only [unbroken, Bool.and_eq_true, bne_iff_ne] at hb
    have hfeed : feed ⟨ls, rest, false⟩ b = ⟨ls, rest ++ [b], false⟩ := by
      unfold feed
      rw [if_neg (by simp), if_neg (by simp [hb])]
    rw [run_cons, hfeed, ih fun x hx => h x (List.mem_cons_of_mem _ hx)]
    simp

/-- A break finishes the line being read. -/
theorem feed_break {b : UInt8} (h : unbroken b = false) (ls : List Bytes) (rest : Bytes) :
    feed ⟨ls, rest, false⟩ b = ⟨ls ++ [rest], [], b == cr⟩ := by
  unfold feed
  rw [if_neg (by simp), if_pos (unbroken_eq_false.1 h)]

/-- Only a line feed is read differently after a carriage return. -/
theorem run_afterCR {s : Bytes} (h : s.head? ≠ some lf) (ls : List Bytes) (rest : Bytes)
    (hs : s ≠ []) : run ⟨ls, rest, true⟩ s = run ⟨ls, rest, false⟩ s := by
  cases s with
  | nil => exact absurd rfl hs
  | cons b =>
    have hb : b ≠ lf := fun hb => h (by rw [hb]; rfl)
    simp [run_cons, feed, hb]

theorem run_afterCR_lf (s : Bytes) (ls : List Bytes) (rest : Bytes) :
    run ⟨ls, rest, true⟩ (lf :: s) = run ⟨ls, rest, false⟩ s := by
  simp [run_cons, feed]

/-- The line being read is a part of a line of the whole stream. -/
theorem rest_le (c : Cut) (s : Bytes) :
    ∃ line ∈ (c.run s).lines ++ [(c.run s).rest], c.rest.length ≤ line.length := by
  induction s generalizing c with
  | nil => exact ⟨c.rest, by simp [run], le_rfl⟩
  | cons b s ih =>
    rw [run_cons]
    obtain ⟨line, hline, hle⟩ := ih (c.feed b)
    unfold feed at hline hle ⊢
    split at hline
    · next h =>
      rw [if_pos h] at hle ⊢
      exact ⟨line, hline, hle⟩
    · next h =>
      split at hline
      · next hb =>
        -- the break finishes the line, and finished lines stay
        rw [if_neg h, if_pos hb, run_lines]
        exact ⟨c.rest, by simp, le_rfl⟩
      · next hb =>
        rw [if_neg h, if_neg hb] at hle ⊢
        refine ⟨line, hline, ?_⟩
        simp only [List.length_append] at hle
        omega

/-- No break is left in a line. -/
def Clean (c : Cut) : Prop := ∀ line ∈ c.lines ++ [c.rest], ∀ b ∈ line, unbroken b = true

theorem Clean.feed {c : Cut} (h : c.Clean) (b : UInt8) : (c.feed b).Clean := by
  unfold Cut.feed
  split
  · exact h
  split
  · intro line hline
    rw [List.append_assoc, List.mem_append, List.mem_append] at hline
    rcases hline with hline | hline | hline
    · exact h line (List.mem_append_left _ hline)
    · exact h line (List.mem_append_right _ hline)
    · rw [List.mem_singleton.1 hline]
      exact fun x hx => absurd hx List.not_mem_nil
  · next hb =>
    intro line hline x hx
    rcases List.mem_append.1 hline with hline | hline
    · exact h line (List.mem_append_left _ hline) x hx
    · rw [List.mem_singleton.1 hline] at hx
      rcases List.mem_append.1 hx with hx | hx
      · exact h c.rest (List.mem_append_right _ (List.mem_singleton_self _)) x hx
      · rw [List.mem_singleton.1 hx, ← Bool.not_eq_false, unbroken_eq_false]
        exact hb

theorem Clean.run {c : Cut} (h : c.Clean) (s : Bytes) : (c.run s).Clean := by
  induction s generalizing c with
  | nil => exact h
  | cons b s ih => exact ih (h.feed b)

/-- Byte by byte gives the lines of the whole stream. -/
theorem run_splitLines (line s : Bytes) : (run ⟨[], line, false⟩ s).lines = (splitLines line s).1 ∧
      (run ⟨[], line, false⟩ s).rest = (splitLines line s).2 := by
  fun_induction splitLines line s with
  | case1 line => exact ⟨rfl, rfl⟩
  | case2 line bs ls rest hsplit ih =>
    rw [hsplit] at ih
    have hfeed : feed ⟨[], line, false⟩ lf = ⟨[line], [], false⟩ := by simp [feed, lf, cr]
    rw [run_cons, hfeed, run_lines]
    exact ⟨by rw [ih.1]; rfl, ih.2⟩
  | case3 line h => exact ⟨by simp [run, feed], by simp [run, feed]⟩
  | case4 line c cs ls rest hsplit _ ihlf ih =>
    have hfeed : feed ⟨[], line, false⟩ cr = ⟨[line], [], true⟩ := by simp [feed]
    rw [run_cons, hfeed]
    by_cases hc : c = lf
    · -- the line feed after the carriage return is skipped
      rw [if_pos hc] at hsplit
      rw [hsplit] at ihlf
      rw [hc, run_afterCR_lf, run_lines]
      exact ⟨by rw [ihlf.1]; rfl, ihlf.2⟩
    · rw [if_neg hc] at hsplit
      rw [hsplit] at ih
      rw [run_afterCR (by simpa using hc) _ _ (List.cons_ne_nil _ _), run_lines]
      exact ⟨by rw [ih.1]; rfl, ih.2⟩
  | case5 line b bs hlf hcr ih =>
    have hfeed : feed ⟨[], line, false⟩ b = ⟨[], line ++ [b], false⟩ := by
      simp [feed, hlf, hcr]
    rw [run_cons, hfeed]
    exact ih

/-- The lines of a stream hold no break. -/
theorem unbroken_of_splitLines {s line : Bytes}
    (h : line ∈ (splitLines [] s).1 ++ [(splitLines [] s).2]) : ∀ b ∈ line, unbroken b = true := by
  obtain ⟨hlines, hrest⟩ := run_splitLines [] s
  rw [← hlines, ← hrest] at h
  have hclean : Clean ⟨[], [], false⟩ := by
    intro l hl
    rw [List.nil_append, List.mem_singleton] at hl
    rw [hl]
    exact fun b hb => absurd hb List.not_mem_nil
  exact hclean.run s line h

theorem streamLines_eq (s : Bytes) :
    streamLines s = if (run ⟨[], [], false⟩ s).rest = [] then (run ⟨[], [], false⟩ s).lines
      else (run ⟨[], [], false⟩ s).lines ++ [(run ⟨[], [], false⟩ s).rest] := by
  obtain ⟨hlines, hrest⟩ := run_splitLines [] s
  rw [hlines, hrest]
  rfl

/-- Where the lines of a stream are short, so is what has been read of a line anywhere in it. -/
theorem rest_lt {n : Nat} {s t : Bytes} (hn : 0 < n)
    (h : ∀ line ∈ streamLines (s ++ t), line.length < n) :
    (run ⟨[], [], false⟩ s).rest.length < n := by
  obtain ⟨line, hline, hle⟩ := rest_le (run ⟨[], [], false⟩ s) t
  rw [← run_append] at hline
  rw [streamLines_eq] at h
  rcases List.mem_append.1 hline with hmem | hlast
  · refine lt_of_le_of_lt hle (h line ?_)
    split
    · exact hmem
    · exact List.mem_append_left _ hmem
  · rw [List.mem_singleton] at hlast
    by_cases hempty : (run ⟨[], [], false⟩ (s ++ t)).rest = []
    · rw [hlast, hempty] at hle
      exact lt_of_le_of_lt hle hn
    · refine lt_of_le_of_lt hle (h line ?_)
      rw [if_neg hempty, hlast]
      exact List.mem_append_right _ (List.mem_singleton_self _)

end Cut

end KyYard.Foundation
