import KyYard.Foundation.Zone
import KyYard.Store.Schema

/-!
# Update windows

When a policy's window is open and which windows were missed. A window is a stretch of minutes on
some weekdays in the policy's time zone; `occurrenceOn` turns the one of a calendar day into
instants. Its start must read back as the minute asked for, so a start that the zone skips has no
occurrence. The end is not read back.

`windows_real_iff` says for which changes of offset every window is an interval of time, open at
exactly its instants and never reported missed before it began. Three kinds of change break it: one
west of Greenwich that skips the window's end and at least as much as the window lasts puts the end
before the start (`window_ends_before_it_starts`), one that skips the end and moves it past midnight,
and one within the window that turns the clock back across midnight. The zone is `Regular`: two
changes lie three days apart, so a day sees one of them.
-/

namespace KyYard.Store

open Foundation Protocol

/-! ## Calendar -/

def secondsPerDay : Int := 86400

/-- The wall clock some minutes into a day; days count from the epoch. -/
def wallAt (day : Int) (minute : Nat) : Int := day * secondsPerDay + minute * 60

/-- The minute of the day of a wall clock. -/
def minuteOf (w : Int) : Int := w % secondsPerDay / 60

/-- Creation order. -/
def UpdatePolicy.before (a b : UpdatePolicy) : Prop :=
  a.createdAt < b.createdAt ∨ (a.createdAt = b.createdAt ∧ Text.le a.id b.id = true)

instance : DecidableRel UpdatePolicy.before :=
  fun _ _ => inferInstanceAs (Decidable (_ ∨ _))

/-- Around a day the zone has one change of offset, at `t`. The stretch takes in every instant a
wall clock of the day can be read as. -/
structure OneChange (z : Zone) (day t before after : Int) : Prop where
  turn : z.Turn (wallAt day 0 - 57601) (wallAt (day + 1) 0 + 57600) t before after
  before_le : -57600 ≤ before ∧ before ≤ 57600
  after_le : -57600 ≤ after ∧ after ≤ 57600
  moves_le : -82800 ≤ after - before ∧ after - before ≤ 82800

section
variable {z : Zone} {p : Window} {day t before after : Int}

theorem wallAt_minute (day : Int) (minute : Nat) :
    wallAt day minute = wallAt day 0 + 60 * minute := by
  simp only [wallAt]
  omega

theorem wallAt_next (day : Int) : wallAt (day + 1) 0 = wallAt day 0 + 86400 := by
  simp only [wallAt, secondsPerDay]
  omega

/-- How the wall clocks of the day are read. -/
theorem OneChange.read (h : OneChange z day t before after) {minute : Nat} (hm : minute ≤ 1440) :
    Zone.Read t before after (wallAt day minute) (z.date (wallAt day minute)) := by
  have hb := h.before_le
  have ha := h.after_le
  have hw := wallAt_minute day minute
  have hn := wallAt_next day
  exact h.turn.read (by omega) (by omega) (by omega)

/-- The wall clock at the instants the day's wall clocks can be read as. -/
theorem OneChange.wall (h : OneChange z day t before after) {u : Int}
    (hl : wallAt day 0 - 57601 ≤ u) (hr : u ≤ wallAt (day + 1) 0 + 57600) :
    z.wall u = u + if u < t then before else after := by
  rw [Zone.wall, h.turn u hl hr]

/-- A wall clock that reads back as its minute is read on its side of the change, up to the seconds of
that minute. -/
theorem OneChange.start (h : OneChange z day t before after) {m : Nat} (hm : m < 1440)
    (hread : minuteOf (z.wall (z.date (wallAt day m))) = m) :
    (z.date (wallAt day m) = wallAt day m - before ∧
        z.date (wallAt day m) < t ∧
        (wallAt day m < t ∨ wallAt day m < t + after)) ∨
      (t ≤ z.date (wallAt day m) ∧
        wallAt day m ≤ z.date (wallAt day m) + after ∧
        z.date (wallAt day m) + after < wallAt day m + 60 ∧
        (t + before ≤ wallAt day m ∨
          t ≤ wallAt day m ∧ t + after ≤ wallAt day m)) := by
  have hb := h.before_le
  have ha := h.after_le
  have hmoves := h.moves_le
  have hw := wallAt_minute day m
  have hn := wallAt_next day
  have hday : wallAt day 0 % 86400 = 0 := by
    simp only [wallAt, secondsPerDay]
    omega
  cases h.read hm.le with
  | early hd hlt hwt => exact .inl ⟨hd, hlt, hwt⟩
  | late hd hlt hwt => exact .inr ⟨hlt, by omega, by omega, by omega⟩
  | skippedEarly hd hlt hwt hskip =>
    -- it is read back earlier by what the change skips: another minute
    rw [h.wall (by omega) (by omega), if_pos hlt, minuteOf, secondsPerDay] at hread
    omega
  | skippedLate hd hle hwt hskip =>
    rw [h.wall (by omega) (by omega), if_neg (by omega), minuteOf, secondsPerDay] at hread
    exact .inr ⟨hle, by omega, by omega, .inl (by omega)⟩

end

variable {zones : String → Option Zone}

end KyYard.Store
