import Outband.Foundation.Decimal

/-!
# The calendar and its decimal form

A `DateTime` is a second of the proleptic Gregorian calendar in the years 0 to
9999. `seconds` numbers them from the first one on, and `exists_seconds_eq` says
that it misses none. Their decimal form has four digits for the year and two for
each other field, and `parse14` reads it back.
-/

namespace Outband.Foundation

/-! ### Dates -/

def isLeap (y : Nat) : Bool := y % 4 = 0 ∧ (y % 100 ≠ 0 ∨ y % 400 = 0)

/-- The number of days of month `m` of year `y`. -/
def daysIn (m y : Nat) : Nat :=
  if m = 2 then if isLeap y then 29 else 28 else if m ∈ [4, 6, 9, 11] then 30 else 31

theorem daysIn_pos (m y : Nat) : 0 < daysIn m y := by
  rw [daysIn]
  split_ifs <;> omega

theorem daysIn_le (m y : Nat) : daysIn m y ≤ 31 := by
  rw [daysIn]
  split_ifs <;> omega

/-- A second of the calendar. -/
@[ext]
structure DateTime where
  year : Nat
  month : Nat
  day : Nat
  hour : Nat
  minute : Nat
  second : Nat
  year_lt : year < 10000
  month_pos : 0 < month
  month_le : month ≤ 12
  day_pos : 0 < day
  day_le : day ≤ daysIn month year
  hour_lt : hour < 24
  minute_lt : minute < 60
  second_lt : second < 60
  deriving DecidableEq

/-- The days before year `y`, of which every fourth has a day more, except for three in 400. -/
def yearStart (y : Nat) : Nat := 365 * y + ((y + 3) / 4 + (y + 399) / 400 - (y + 99) / 100)

/-- The days of year `y` before month `m`. -/
def monthStart (y : Nat) : Nat → Nat
  | 0 | 1 => 0
  | m + 2 => monthStart y (m + 1) + daysIn (m + 1) y

theorem monthStart_succ (y : Nat) {m : Nat} (hm : 0 < m) :
    monthStart y (m + 1) = monthStart y m + daysIn m y := by
  obtain ⟨k, rfl⟩ := Nat.exists_eq_add_of_lt hm
  rw [Nat.zero_add, monthStart]

theorem monthStart_thirteen (y : Nat) :
    monthStart y 13 = 365 + if isLeap y then 1 else 0 := by
  have hfebruary : daysIn 2 y = 28 + if isLeap y then 1 else 0 := by
    rw [daysIn, if_pos rfl]
    split <;> rfl
  have hmonths : monthStart y 13 =
      0 + 31 + daysIn 2 y + 31 + 30 + 31 + 30 + 31 + 31 + 30 + 31 + 30 + 31 := rfl
  rw [hmonths, hfebruary]
  omega

theorem yearStart_succ (y : Nat) : yearStart (y + 1) = yearStart y + monthStart y 13 := by
  rw [monthStart_thirteen]
  simp only [yearStart, isLeap, decide_eq_true_eq]
  split_ifs <;> omega

namespace DateTime

variable (d : DateTime)

/-- The days before the day. -/
def days : Nat := yearStart d.year + monthStart d.year d.month + (d.day - 1)

def seconds : Nat := ((d.days * 24 + d.hour) * 60 + d.minute) * 60 + d.second

/-- The second after the last one of the calendar. -/
def endSeconds : Nat := yearStart 10000 * 86400

/-- The first second of a day. -/
def midnight {day month year : Nat} (hday : 0 < day) (hmonth : 0 < month) (hmonth' : month ≤ 12)
    (hday' : day ≤ daysIn month year) (hyear : year < 10000) : DateTime where
  year := year
  month := month
  day := day
  hour := 0
  minute := 0
  second := 0
  year_lt := hyear
  month_pos := hmonth
  month_le := hmonth'
  day_pos := hday
  day_le := hday'
  hour_lt := by omega
  minute_lt := by omega
  second_lt := by omega

/-- Every second but the last is followed by another. -/
theorem exists_next (hlast : d.seconds + 1 < endSeconds) :
    ∃ e : DateTime, e.seconds = d.seconds + 1 := by
  have hday := d.day_pos
  by_cases hsecond : d.second + 1 < 60
  · exact ⟨{ d with second := d.second + 1, second_lt := hsecond }, rfl⟩
  have hsecond' := d.second_lt
  by_cases hminute : d.minute + 1 < 60
  · refine ⟨{ d with
      second := 0
      minute := d.minute + 1
      second_lt := by omega
      minute_lt := hminute }, ?_⟩
    simp only [seconds, days]
    omega
  have hminute' := d.minute_lt
  by_cases hhour : d.hour + 1 < 24
  · refine ⟨{ d with
      second := 0
      minute := 0
      hour := d.hour + 1
      second_lt := by omega
      minute_lt := by omega
      hour_lt := hhour }, ?_⟩
    simp only [seconds, days]
    omega
  have hhour' := d.hour_lt
  by_cases hnext : d.day + 1 ≤ daysIn d.month d.year
  · refine ⟨midnight (by omega) d.month_pos d.month_le hnext d.year_lt, ?_⟩
    simp only [seconds, days, midnight]
    omega
  have hday' := d.day_le
  have hmonth := monthStart_succ d.year d.month_pos
  by_cases hmonths : d.month + 1 ≤ 12
  · refine ⟨midnight Nat.one_pos (by omega) hmonths (daysIn_pos _ _) d.year_lt, ?_⟩
    simp only [seconds, days, midnight]
    omega
  have hdecember : d.month = 12 := by
    have := d.month_le
    omega
  rw [hdecember] at hday' hnext
  have hlength : monthStart d.year 13 = monthStart d.year 12 + daysIn 12 d.year :=
    monthStart_succ d.year (by omega)
  have hyear := yearStart_succ d.year
  have hdays : d.days = yearStart d.year + monthStart d.year 12 + (d.day - 1) := by
    rw [days, hdecember]
  rw [seconds, hdays] at hlast
  rw [seconds, hdays]
  by_cases hyears : d.year + 1 < 10000
  · refine ⟨midnight Nat.one_pos Nat.one_pos (by omega) (daysIn_pos 1 (d.year + 1)) hyears, ?_⟩
    have hjanuary : monthStart (d.year + 1) 1 = 0 := rfl
    simp only [seconds, days, midnight, hjanuary]
    omega
  · have hyear' : 10000 = d.year + 1 := by
      have := d.year_lt
      omega
    have hend : endSeconds = yearStart (d.year + 1) * 86400 := congrArg (yearStart · * 86400) hyear'
    omega

/-- The calendar has no gaps. -/
theorem exists_seconds_eq {n : Nat} (hn : n < endSeconds) : ∃ d : DateTime, d.seconds = n := by
  induction n with
  | zero => exact ⟨midnight Nat.one_pos Nat.one_pos (by omega) (daysIn_pos 1 0) (by omega), rfl⟩
  | succ n ih =>
      obtain ⟨d, rfl⟩ := ih (by omega)
      exact d.exists_next hn

end DateTime

/-! ### Fourteen digits -/

/-- The form `yyyymmddhhmmss`. -/
def DateTime.text14 (d : DateTime) : List Char :=
  decimal 4 d.year ++ decimal 2 d.month ++ decimal 2 d.day ++ decimal 2 d.hour ++
    decimal 2 d.minute ++ decimal 2 d.second

/-- Read a text of the form `yyyymmddhhmmss`. -/
def parse14 (text : List Char) : Option DateTime := do
  let year ← number (text.take 4)
  let month ← number ((text.drop 4).take 2)
  let day ← number ((text.drop 6).take 2)
  let hour ← number ((text.drop 8).take 2)
  let minute ← number ((text.drop 10).take 2)
  let second ← number (text.drop 12)
  if h : text.length = 14 ∧ year < 10000 ∧ (0 < month ∧ month ≤ 12) ∧
      (0 < day ∧ day ≤ daysIn month year) ∧ hour < 24 ∧ minute < 60 ∧ second < 60 then
    some {
      year, month, day, hour, minute, second
      year_lt := h.2.1
      month_pos := h.2.2.1.1
      month_le := h.2.2.1.2
      day_pos := h.2.2.2.1.1
      day_le := h.2.2.2.1.2
      hour_lt := h.2.2.2.2.1
      minute_lt := h.2.2.2.2.2.1
      second_lt := h.2.2.2.2.2.2 }
  else none

namespace DateTime

@[simp]
theorem length_text14 (d : DateTime) : d.text14.length = 14 := by simp [text14]

/-- A date is read back from its text. -/
theorem parse14_text14 (d : DateTime) : parse14 d.text14 = some d := by
  have hdays := daysIn_le d.month d.year
  have hyear : number (d.text14.take 4) = some d.year :=
    number_decimal (k := 4) d.year_lt
  have hmonth : number ((d.text14.drop 4).take 2) = some d.month :=
    number_decimal (k := 2) (n := d.month) (by have := d.month_le; omega)
  have hday : number ((d.text14.drop 6).take 2) = some d.day :=
    number_decimal (k := 2) (n := d.day) (by have := d.day_le; omega)
  have hhour : number ((d.text14.drop 8).take 2) = some d.hour :=
    number_decimal (k := 2) (n := d.hour) (by have := d.hour_lt; omega)
  have hminute : number ((d.text14.drop 10).take 2) = some d.minute :=
    number_decimal (k := 2) (n := d.minute) (by have := d.minute_lt; omega)
  have hsecond : number (d.text14.drop 12) = some d.second :=
    number_decimal (k := 2) (n := d.second) (by have := d.second_lt; omega)
  have hvalid : d.text14.length = 14 ∧ d.year < 10000 ∧ (0 < d.month ∧ d.month ≤ 12) ∧
      (0 < d.day ∧ d.day ≤ daysIn d.month d.year) ∧ d.hour < 24 ∧ d.minute < 60 ∧ d.second < 60 :=
    ⟨d.length_text14, d.year_lt, ⟨d.month_pos, d.month_le⟩, ⟨d.day_pos, d.day_le⟩, d.hour_lt,
      d.minute_lt, d.second_lt⟩
  simp only [parse14, hyear, hmonth, hday, hhour, hminute, hsecond, Option.bind_eq_bind,
    Option.bind_some]
  exact dif_pos hvalid

end DateTime

end Outband.Foundation
