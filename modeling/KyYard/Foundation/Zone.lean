import Mathlib.Algebra.Order.Group.Int
import Mathlib.Tactic.Common

/-!
# Time zones

A zone gives every instant an offset from UTC that is constant on stretches of time. Instants and
wall clocks are whole seconds: an instant counts from the epoch, a wall clock is the instant plus
the offset in force.

Reading a wall clock off an instant is a function (`Zone.wall`). The other way a wall clock may name
no instant or two, and `Zone.date` picks one: it looks the offset up as if the wall clock were an
instant and, when the instant found lies outside that stretch, takes the offset in force there.

In a `Regular` table two changes of offset are days apart, so around any day the offset is that of
one change (`Regular.exists_turn`).
-/

namespace KyYard.Foundation

/-- A stretch of instants with one offset, from `start` to before `stop`; an absent bound is open. -/
structure Span where
  offset : Int
  start : Option Int
  stop : Option Int
deriving DecidableEq, Repr

/-- The instant lies in the stretch. -/
def Span.contains (s : Span) (t : Int) : Bool :=
  s.start.all (fun a => decide (a ≤ t)) && s.stop.all (fun b => decide (t < b))

/-- An offset table: every instant lies in the stretch it is looked up in, and the stretch is the
same for all of its instants. -/
structure Zone where
  lookup : Int → Span
  contains_lookup : ∀ t, (lookup t).contains t = true
  lookup_eq : ∀ t u, (lookup t).contains u = true → lookup u = lookup t

namespace Zone

/-- The offset in force at an instant. -/
def offset (z : Zone) (t : Int) : Int := (z.lookup t).offset

/-- The wall clock at an instant. -/
def wall (z : Zone) (t : Int) : Int := t + z.offset t

/-- The offset a wall clock is read with. -/
def resolve (z : Zone) (w : Int) : Int :=
  let span := z.lookup w
  if span.offset = 0 then 0
  else if span.contains (w - span.offset) then span.offset
  else z.offset (w - span.offset)

/-- The instant a wall clock is taken for. -/
def date (z : Zone) (w : Int) : Int := w - z.resolve w

/-- One offset for all time. -/
def fixed (offset : Int) : Zone where
  lookup _ := ⟨offset, none, none⟩
  contains_lookup _ := rfl
  lookup_eq _ _ _ := rfl

/-- One change of offset, at the instant `at_`. -/
def change (before after at_ : Int) : Zone where
  lookup t := if t < at_ then ⟨before, none, some at_⟩ else ⟨after, some at_, none⟩
  contains_lookup t := by
    by_cases h : t < at_
    · simp [h, Span.contains]
    · simp [h, Span.contains, not_lt.1 h]
  lookup_eq t u hu := by
    by_cases h : t < at_
    · simp only [h, if_true, Span.contains, Option.all_none, Option.all_some, Bool.true_and,
        decide_eq_true_eq] at hu
      simp [h, hu]
    · simp only [h, if_false, Span.contains, Option.all_none, Option.all_some, Bool.and_true,
        decide_eq_true_eq] at hu
      simp [h, not_lt.2 hu]

/-- A wall clock is read with the offset in force where its own offset as an instant takes it. -/
theorem resolve_eq (z : Zone) (w : Int) : z.resolve w = z.offset (w - z.offset w) := by
  unfold resolve
  by_cases hzero : (z.lookup w).offset = 0
  · simp [offset, hzero]
  by_cases hin : (z.lookup w).contains (w - (z.lookup w).offset) = true
  · simp [offset, hzero, hin, z.lookup_eq w _ hin]
  · simp [offset, hzero, hin]

/-! ## Changes of offset -/

/-- The offset changes at the instant. -/
def Changes (z : Zone) (t : Int) : Prop := z.offset (t - 1) ≠ z.offset t

/-- A table with offsets within 16 hours whose changes are at least three days apart and move the
clock by at most 23 hours. -/
structure Regular (z : Zone) : Prop where
  offset_le : ∀ t, -57600 ≤ z.offset t ∧ z.offset t ≤ 57600
  moves_le : ∀ t, -82800 ≤ z.offset t - z.offset (t - 1) ∧ z.offset t - z.offset (t - 1) ≤ 82800
  apart : ∀ t u, z.Changes t → z.Changes u → t < u → 259200 ≤ u - t

/-- From `l` to `r` the offset is `before` up to the instant `t` and `after` from it on. -/
def Turn (z : Zone) (l r t before after : Int) : Prop :=
  ∀ u, l ≤ u → u ≤ r → z.offset u = if u < t then before else after

theorem offset_eq_of_not_changes {z : Zone} {u v : Int} (huv : u ≤ v)
    (hno : ∀ t, u < t → t ≤ v → ¬ z.Changes t) : z.offset v = z.offset u := by
  induction v, huv using Int.leInduction with
  | base => rfl
  | succ v hv ih =>
    have hlast : z.offset (v + 1 - 1) = z.offset (v + 1) :=
      not_not.1 (hno (v + 1) (by omega) le_rfl)
    rw [← hlast, add_sub_cancel_right]
    exact ih fun t hu ht => hno t hu (by omega)

/-- Around a change the offset is the one of that change. -/
theorem Regular.turn {z : Zone} (hz : z.Regular) {l r t : Int} (ht : z.Changes t) (hl : l < t)
    (hr : t ≤ r) (hlen : r - l < 259200) : z.Turn l r t (z.offset (t - 1)) (z.offset t) := by
  intro u hlu hur
  split
  · rename_i hut
    refine (offset_eq_of_not_changes (by omega) fun x hx hxt hch => ?_).symm
    have hfar := hz.apart x t hch ht (by omega)
    omega
  · refine offset_eq_of_not_changes (by omega) fun x hx hxt hch => ?_
    have hfar := hz.apart t x ht hch hx
    omega

/-- The instant `d` a wall clock `w` is taken for near a change of offset at `t`: one before the
change, one after it or, when the change skips the wall clock, one on the wrong side of it. -/
inductive Read (t before after w d : Int) : Prop
  | early (hd : d = w - before) (hlt : d < t) (hw : w < t ∨ w < t + after)
  | late (hd : d = w - after) (hle : t ≤ d) (hw : t ≤ w ∨ t + before ≤ w)
  | skippedEarly (hd : d = w - after) (hlt : d < t) (hw : w < t) (hskip : t + before ≤ w)
  | skippedLate (hd : d = w - before) (hle : t ≤ d) (hw : t ≤ w) (hskip : w < t + after)

theorem Turn.read {z : Zone} {l r t before after w : Int} (h : z.Turn l r t before after)
    (hw : l ≤ w ∧ w ≤ r) (hb : l ≤ w - before ∧ w - before ≤ r)
    (ha : l ≤ w - after ∧ w - after ≤ r) : Read t before after w (z.date w) := by
  rw [date, resolve_eq, h w hw.1 hw.2]
  by_cases hwt : w < t
  · rw [if_pos hwt, h _ hb.1 hb.2]
    split
    · exact .early rfl (by omega) (.inl hwt)
    · by_cases hle : t ≤ w - after
      · exact .late rfl hle (.inr (by omega))
      · exact .skippedEarly rfl (by omega) hwt (by omega)
  · rw [if_neg hwt, h _ ha.1 ha.2]
    split
    · by_cases hlt : w - before < t
      · exact .early rfl hlt (.inr (by omega))
      · exact .skippedLate rfl (by omega) (by omega) (by omega)
    · exact .late rfl (by omega) (.inl (by omega))

end Zone

end KyYard.Foundation
