import KyYard.Foundation.Utf8

/-!
# Metrics frames

The agent cuts a metrics frame to what the wire takes before it sends it. The cut is found by
bisection over the encoded sizes of prefixes.

`shrinkMetrics_longest` says that the frame sent is the longest prefix within the limits.
-/

namespace KyYard.Protocol

open Foundation

def maxSamples : Nat := 1000
def maxMetricsBytes : Nat := 64 * 1024

/-- How the encoder writes a time and a sample. A time is RFC 3339 with nanoseconds and an offset
at most, in quotes; of a sample's text nothing is assumed but that there is one. -/
structure Encoding (T S : Type) where
  time : T → Bytes
  time_le : ∀ t, (time t).length ≤ 37
  sample : S → Bytes
  sample_ne : ∀ s, sample s ≠ []

/-- A frame; `samples` is `none` for the nil slice. -/
structure Metrics (T S : Type) where
  observedAt : T
  samples : Option (List S)

variable {T S : Type}

/-- How many samples it has. -/
def Metrics.len (m : Metrics T S) : Nat := (m.samples.getD []).length

/-- The frame with the first samples only. -/
def Metrics.take (m : Metrics T S) (n : Nat) : Metrics T S :=
  { m with samples := m.samples.map (List.take n) }

/-- The samples with a comma before all but the first. -/
def Encoding.items (e : Encoding T S) : List S → Bytes
  | [] => []
  | s :: l => e.sample s ++ l.flatMap fun s => Utf8.encode [','] ++ e.sample s

/-- The text of a frame. -/
def Encoding.marshal (e : Encoding T S) (m : Metrics T S) : Bytes :=
  Utf8.encode "\x7b\"observed_at\":".toList ++ e.time m.observedAt ++
    Utf8.encode ",\"samples\":".toList ++
    (match m.samples with
      | none => Utf8.encode "null".toList
      | some l => Utf8.encode ['['] ++ e.items l ++ Utf8.encode [']']) ++
    Utf8.encode ['\x7d']

/-- Within the frame. -/
def Encoding.fits (e : Encoding T S) (m : Metrics T S) : Bool :=
  decide ((e.marshal m).length ≤ maxMetricsBytes)

/-- The bisection between `lo` and `hi`, with the last length that fitted. -/
def bisect (fits : Nat → Bool) (lo hi : Int) (best : Nat) : Nat :=
  if lo ≤ hi then
    let mid := lo + (hi - lo) / 2
    if fits mid.toNat then bisect fits (mid + 1) hi mid.toNat else bisect fits lo (mid - 1) best
  else best
termination_by (hi + 1 - lo).toNat

/-- The longest start that fits. -/
def shrinkMetrics (e : Encoding T S) (m : Metrics T S) : Metrics T S :=
  let m := if maxSamples < m.len then m.take maxSamples else m
  if e.fits m then m else m.take (bisect (fun n => e.fits (m.take n)) 0 m.len 0)

/-! ## The search -/

/-- Where a length that is too long makes every longer one too long, the search ends on a length
that fits and below every other. -/
theorem bisect_spec {fits : Nat → Bool} (hmono : ∀ i j, i ≤ j → fits j = true → fits i = true)
    (lo hi : Int) (best : Nat) (h₀ : 0 ≤ lo) (hbest : fits best = true) (hlo : lo ≤ best + 1)
    (hhi : ∀ j : Nat, hi < j → fits j = false) :
    fits (bisect fits lo hi best) = true ∧ ∀ j, bisect fits lo hi best < j → fits j = false := by
  -- all lengths below `lo` are at most `best`, and none above `hi` fits
  induction lo, hi, best using bisect.induct fits with
  | case1 lo hi best hle mid hfits ih =>
    rw [bisect, if_pos hle, if_pos hfits]
    exact ih (by omega) hfits (by omega) hhi
  | case2 lo hi best hle mid hfits ih =>
    rw [bisect, if_pos hle, if_neg hfits]
    refine ih h₀ hbest hlo fun j hj => ?_
    by_contra hj'
    exact hfits (hmono _ j (by omega) (by simpa using hj'))
  | case3 lo hi best hlt =>
    rw [bisect, if_neg hlt]
    exact ⟨hbest, fun j hj => hhi j (by omega)⟩

/-! ## Sizes -/

theorem length_items_append (e : Encoding T S) (l l' : List S) :
    (e.items l).length ≤ (e.items (l ++ l')).length := by
  cases l with
  | nil => exact Nat.zero_le _
  | cons =>
    simp only [Encoding.items, List.cons_append, List.flatMap_append, List.length_append]
    omega

/-- A longer prefix is written in no fewer bytes. -/
theorem fits_take (e : Encoding T S) (m : Metrics T S) (i j : Nat) (h : i ≤ j)
    (hj : e.fits (m.take j) = true) : e.fits (m.take i) = true := by
  obtain ⟨t, _ | l⟩ := m
  · exact hj
  · obtain ⟨l', hl⟩ := List.take_prefix i (l.take j)
    rw [List.take_take, Nat.min_eq_left h] at hl
    have hle := length_items_append e (l.take i) l'
    rw [hl] at hle
    simp only [Encoding.fits, Encoding.marshal, Metrics.take, Option.map_some, List.length_append,
      decide_eq_true_eq] at hj ⊢
    omega

theorem fits_take_zero (e : Encoding T S) (m : Metrics T S) : e.fits (m.take 0) = true := by
  obtain ⟨t, l⟩ := m
  have htime := e.time_le t
  cases l
  all_goals
    simp only [Encoding.fits, Encoding.marshal, Metrics.take, List.length_append, decide_eq_true_eq]
  · change 15 + _ + 11 + 4 + 1 ≤ 65536
    omega
  · change 15 + _ + 11 + (1 + 0 + 1) + 1 ≤ 65536
    omega

theorem len_take (m : Metrics T S) (n : Nat) : (m.take n).len = min n m.len := by
  obtain ⟨t, _ | l⟩ := m <;> simp [Metrics.take, Metrics.len]

theorem take_take (m : Metrics T S) (i j : Nat) : (m.take j).take i = m.take (min i j) := by
  simp only [Metrics.take, Option.map_map, Function.comp_def, List.take_take]

theorem take_of_len_le {m : Metrics T S} {n : Nat} (h : m.len ≤ n) : m.take n = m := by
  obtain ⟨t, _ | l⟩ := m
  · rfl
  · simpa [Metrics.take, Metrics.len] using h

/-- The frame sent is the first samples of the one given, within both limits; every longer prefix
within the number of samples is too long to send. -/
theorem shrinkMetrics_longest (e : Encoding T S) (m : Metrics T S) :
    ∃ n, shrinkMetrics e m = m.take n ∧ (shrinkMetrics e m).len ≤ maxSamples ∧
      (e.marshal (shrinkMetrics e m)).length ≤ maxMetricsBytes ∧
      ∀ k, (shrinkMetrics e m).len < k → k ≤ m.len → k ≤ maxSamples →
        maxMetricsBytes < (e.marshal (m.take k)).length := by
  have hcut : (if maxSamples < m.len then m.take maxSamples else m) = m.take maxSamples := by
    split
    · rfl
    · next hlen => exact (take_of_len_le (Nat.not_lt.1 hlen)).symm
  unfold shrinkMetrics
  rw [hcut]
  dsimp only
  split
  · next hfits =>
    refine ⟨maxSamples, rfl, ?_, of_decide_eq_true hfits, ?_⟩ <;> rw [len_take]
    · exact Nat.min_le_left _ _
    · intro k _ _ _
      omega
  · next hfits =>
    obtain ⟨hr, hmax⟩ := bisect_spec (fits_take e (m.take maxSamples)) 0 (m.take maxSamples).len 0
      (Int.le_refl 0) (fits_take_zero e _) (by omega) fun j hj => by
        rw [take_of_len_le (by omega), Bool.eq_false_iff]
        exact hfits
    generalize bisect _ _ _ _ = r at hr hmax
    rw [take_take] at hr ⊢
    refine ⟨_, rfl, ?_, of_decide_eq_true hr, ?_⟩ <;> rw [len_take]
    · omega
    · intro k hk hlen hmost
      have hlong := hmax k (by omega)
      rw [take_take, Nat.min_eq_left hmost] at hlong
      simpa [Encoding.fits] using hlong

end KyYard.Protocol
