import Outband.Foundation.Calendar
import Outband.Foundation.Trim
import Outband.Inventory.Config

/-!
# CIM timestamps

The event logs of AMT and of an iDRAC over WS-MAN carry CIM timestamps: the local
time in fourteen digits, microseconds, and the offset of the local time from UTC in
minutes, `yyyymmddhhmmss.mmmmmm` with a sign and three digits. `parseAMTTime`
(`internal/amt/client.go`) and `parseDellTimestamp` (`internal/idrac/wsman.go`)
should give the instant. Both read the fourteen digits only.

## Implementation notes

`time.Parse` for the layout `20060102150405` is `parse14`; for the other layouts it
is a parameter. A `time.Time` is its number of nanoseconds from the zero time on, the
first second of year 1.
-/

namespace Outband.Bmc.Timestamps

open Foundation
open Inventory (isSpace)

abbrev Text := List Char

def second : Int := 1000000000

/-- The days of year 0 lie before the zero time. -/
def zeroSeconds : Int := 366 * 86400

/-- The instant of a date in UTC. -/
def ofDate (d : DateTime) : Int := (d.seconds - zeroSeconds) * second

/-- `time.Parse` for the layouts RFC3339 and RFC3339Nano. -/
structure Layouts where
  RFC3339 : Text → Option Int
  RFC3339Nano : Text → Option Int

def parseAMTTime (layouts : Layouts) (s : Text) : Int :=
  let s := trim isSpace s
  if s = [] then 0
  else
    let cim := if 14 ≤ s.length ∧ s.head?.any Char.isDigit then parse14 (s.take 14) else none
    match cim with
    | some d => ofDate d
    | none => (layouts.RFC3339 s).getD 0

def parseDellTimestamp (s : Text) : Int :=
  let s := trim isSpace s
  if s.length < 14 then 0 else ((parse14 (s.take 14)).map ofDate).getD 0

def parseRedfishTime (layouts : Layouts) (s : Text) : Int :=
  let s := trim isSpace s
  if s = [] then 0 else ((layouts.RFC3339 s).or (layouts.RFC3339Nano s)).getD 0

/-! ### Stamps -/

/-- What a CIM timestamp stands for: a local time and its offset from UTC in minutes. -/
structure Stamp where
  date : DateTime
  micros : Nat
  offset : Int
  micros_lt : micros < 1000000
  offset_le : offset.natAbs ≤ 999

namespace Stamp

variable (a b : Stamp)

def text : Text :=
  a.date.text14 ++ '.' :: decimal 6 a.micros ++
    (if a.offset < 0 then '-' else '+') :: decimal 3 a.offset.natAbs

/-- The instant, to the second. -/
def instant : Int := ofDate a.date - a.offset * 60 * second

end Stamp

/-- A parser gives the instants of two stamps, and so their order. -/
structure KeepsInstants (parse : Text → Int) (a b : Stamp) : Prop where
  left : parse a.text = a.instant
  right : parse b.text = b.instant
  order : parse a.text < parse b.text ↔ a.instant < b.instant

variable {layouts : Layouts} {parse : Text → Int} {a b : Stamp}

/-- Every instant of the calendar has a local time at every offset that keeps it in the calendar. -/
theorem exists_stamp (seconds : Int) {offset : Int} (hoffset : offset.natAbs ≤ 999)
    (hfirst : 0 ≤ seconds + offset * 60) (hlast : seconds + offset * 60 < DateTime.endSeconds) :
    ∃ a : Stamp, a.offset = offset ∧ a.instant = (seconds - zeroSeconds) * second := by
  obtain ⟨d, hd⟩ := DateTime.exists_seconds_eq (n := (seconds + offset * 60).toNat) (by omega)
  refine ⟨⟨d, 0, offset, by omega, hoffset⟩, rfl, ?_⟩
  have hseconds : (d.seconds : Int) = seconds + offset * 60 := by omega
  simp only [Stamp.instant, ofDate, hseconds]
  ring

theorem isDigit_digit {n : Nat} (hn : n < 10) : (digit n).isDigit = true := by
  interval_cases n <;> rfl

theorem isSpace_digit {n : Nat} (hn : n < 10) : isSpace (digit n) = false := by
  interval_cases n <;> decide

theorem getLast?_decimal (k n : Nat) : (decimal (k + 1) n).getLast? = some (digit (n % 10)) := by
  rw [decimal, List.getLast?_concat]

theorem head?_text (a : Stamp) : a.text.head? = some (digit (a.date.year / 10 / 10 / 10 % 10)) :=
  rfl

theorem trimmed_text (a : Stamp) : Trimmed isSpace a.text := by
  constructor
  · intro c hc
    rw [head?_text] at hc
    cases hc
    exact isSpace_digit (Nat.mod_lt _ (by omega))
  · intro c hc
    have hlast : a.text.getLast? = some (digit (a.offset.natAbs % 10)) := by
      rw [Stamp.text, List.getLast?_append_of_ne_nil _ (List.cons_ne_nil _ _), List.getLast?_cons,
        getLast?_decimal]
      rfl
    rw [hlast] at hc
    cases hc
    exact isSpace_digit (Nat.mod_lt _ (by omega))

theorem take_text (a : Stamp) : a.text.take 14 = a.date.text14 := by
  rw [Stamp.text, List.append_assoc]
  exact List.take_left' a.date.length_text14

theorem length_text (a : Stamp) : a.text.length = 25 := by
  simp [Stamp.text]

/-- What both parsers give is the local time, as if it were UTC. -/
theorem parseAMTTime_text (layouts : Layouts) (a : Stamp) :
    parseAMTTime layouts a.text = ofDate a.date := by
  have hlength := length_text a
  have hdigit : a.text.head?.any Char.isDigit = true := by
    rw [head?_text]
    exact isDigit_digit (Nat.mod_lt _ (by omega))
  have hne : a.text ≠ [] := by
    rintro hnil
    simp [hnil] at hlength
  simp only [parseAMTTime, (trimmed_text a).trim_eq, if_neg hne, take_text,
    DateTime.parse14_text14, hlength, hdigit]
  simp

theorem parseDellTimestamp_text (a : Stamp) : parseDellTimestamp a.text = ofDate a.date := by
  simp only [parseDellTimestamp, (trimmed_text a).trim_eq, length_text, take_text,
    DateTime.parse14_text14]
  simp

theorem instant_eq_iff (a : Stamp) : ofDate a.date = a.instant ↔ a.offset = 0 := by
  rw [Stamp.instant, second]
  omega

/-- A parser that gives the local time keeps the instants of the stamps without an offset only. -/
theorem keepsInstants_iff (hparse : ∀ a : Stamp, parse a.text = ofDate a.date) (a b : Stamp) :
    KeepsInstants parse a b ↔ a.offset = 0 ∧ b.offset = 0 := by
  constructor
  · intro hkeeps
    rw [← instant_eq_iff, ← instant_eq_iff, ← hparse, ← hparse]
    exact ⟨hkeeps.left, hkeeps.right⟩
  · rintro ⟨ha, hb⟩
    have hleft := (hparse a).trans ((instant_eq_iff a).mpr ha)
    have hright := (hparse b).trans ((instant_eq_iff b).mpr hb)
    exact ⟨hleft, hright, by rw [hleft, hright]⟩

/-- The parsers order two stamps by their local times, whatever the offsets. -/
theorem parseDellTimestamp_lt_iff (a b : Stamp) :
    parseDellTimestamp a.text < parseDellTimestamp b.text ↔ a.date.seconds < b.date.seconds := by
  rw [parseDellTimestamp_text, parseDellTimestamp_text, ofDate, ofDate, second]
  omega

/-- Both parsers keep the instants of two stamps, and their order, exactly when neither has an
offset. -/
theorem parse_keepsInstants_iff (layouts : Layouts) (a b : Stamp) :
    (KeepsInstants (parseAMTTime layouts) a b ∧ KeepsInstants parseDellTimestamp a b) ↔
      a.offset = 0 ∧ b.offset = 0 := by
  rw [keepsInstants_iff (parseAMTTime_text layouts), keepsInstants_iff parseDellTimestamp_text,
    and_self]

/-- Half past twelve five hours west of Greenwich. -/
def westStamp : Stamp where
  date := ⟨2020, 7, 28, 12, 30, 45, by omega, by omega, by omega, by omega, by decide, by omega,
    by omega, by omega⟩
  micros := 0
  offset := -300
  micros_lt := by omega
  offset_le := by decide

example : westStamp.text = "20200728123045.000000-300".toList := by decide

/-- Its instant is five hours later than what is read. -/
theorem westStamp_not_kept :
    westStamp.instant = parseDellTimestamp westStamp.text + 5 * 3600 * second ∧
      ¬ KeepsInstants (parseAMTTime ⟨fun _ => none, fun _ => none⟩) westStamp westStamp ∧
      ¬ KeepsInstants parseDellTimestamp westStamp westStamp := by
  have hoffset : ¬ (westStamp.offset = 0 ∧ westStamp.offset = 0) := by decide
  refine ⟨?_, ?_, ?_⟩
  · rw [parseDellTimestamp_text, Stamp.instant]
    rfl
  · rwa [keepsInstants_iff (parseAMTTime_text _)]
  · rwa [keepsInstants_iff parseDellTimestamp_text]

end Outband.Bmc.Timestamps
