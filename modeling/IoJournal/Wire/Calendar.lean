import Mathlib.Data.List.Lex
import IoJournal.Wire.FixedFields

/-!
# Wire.Calendar

The proleptic Gregorian calendar in UTC without leap seconds, and the RFC 3339 form of an instant
with milliseconds.

* `Civil.toUnix` counts the seconds from 1970-01-01T00:00:00Z to a date and time: whole years,
  then whole months, then days.
* `Civil.ofUnix` is the breakdown. It counts years from 1 March, so that the leap day is the last
  day of its year, and divides by the lengths of 400, 100 and 4 years.
* `toUnix_ofUnix`, `ofUnix_valid`: the breakdown is a date of the calendar, and the right one.
* `le_year_ofUnix_iff`: the year of a second, by the first second of each year.
* `readRfc3339` reads `YYYY-MM-DDTHH:MM:SS.mmmZ` back to seconds and milliseconds.
* `rfc3339_lt_iff`: the octets of two texts are ordered as their instants are.
-/

namespace Wire

/-- A date and a time of day. Months and days count from one. -/
structure Civil where
  year : Int
  month : Nat
  day : Nat
  hour : Nat
  minute : Nat
  second : Nat
  deriving DecidableEq, Repr

namespace Civil

def isLeap (y : Int) : Bool := y % 4 == 0 && (y % 100 != 0 || y % 400 == 0)

def daysInMonth (y : Int) (m : Nat) : Nat :=
  if m = 2 then (if isLeap y then 29 else 28)
  else if m = 4 ∨ m = 6 ∨ m = 9 ∨ m = 11 then 30 else 31

/-- Days from 0000-01-01 to 1 January of `y`: 365 a year, and one for every leap year passed. -/
def daysBeforeYear (y : Int) : Int := 365 * y + (y - 1) / 4 - (y - 1) / 100 + (y - 1) / 400 + 1

/-- Days of the months before `m`. -/
def daysBeforeMonth (y : Int) (m : Nat) : Nat := ((List.range m).tail.map (daysInMonth y)).sum

def dayNumber (y : Int) (m d : Nat) : Int :=
  daysBeforeYear y + daysBeforeMonth y m + d - 1 - 719528

def toUnix (c : Civil) : Int :=
  dayNumber c.year c.month c.day * 86400 + c.hour * 3600 + c.minute * 60 + c.second

structure Valid (c : Civil) : Prop where
  month_pos : 1 ≤ c.month
  month_le : c.month ≤ 12
  day_pos : 1 ≤ c.day
  day_le : c.day ≤ daysInMonth c.year c.month
  hour_lt : c.hour < 24
  minute_lt : c.minute < 60
  second_lt : c.second < 60

/-- The year counted from 1 March, and the day in it, of the `z`-th day after 0000-03-01. -/
def marchYear (z : Int) : Int × Int :=
  let era := z / 146097
  let doe := z % 146097
  let century := min (doe / 36524) 3
  let doc := doe - 36524 * century
  let quad := doc / 1461
  let doq := doc % 1461
  let year := min (doq / 365) 3
  (400 * era + 100 * century + 4 * quad + year, doq - 365 * year)

/-- The month, counted from March as zero, and the day of the month of the `doy`-th day. -/
def marchMonth (doy : Int) : Int × Int :=
  let mp := (5 * doy + 2) / 153
  (mp, doy - (153 * mp + 2) / 5 + 1)

/-- The breakdown of `s` seconds from 1970-01-01T00:00:00Z. -/
def ofUnix (s : Int) : Civil :=
  let days := s / 86400
  let sod := s % 86400
  let (y, doy) := marchYear (days + 719468)
  let (mp, d) := marchMonth doy
  { year := if mp < 10 then y else y + 1
    month := (if mp < 10 then mp + 3 else mp - 9).toNat
    day := d.toNat
    hour := (sod / 3600).toNat
    minute := (sod / 60 % 60).toNat
    second := (sod % 60).toNat }

theorem isLeap_iff (y : Int) : isLeap y = true ↔ y % 4 = 0 ∧ (y % 100 ≠ 0 ∨ y % 400 = 0) := by
  simp [isLeap]

/-- The days of a year counted from 1 March add up, and the 366th is there in leap years only. -/
theorem marchYear_spec (z : Int) :
    z = 365 * (marchYear z).1 + (marchYear z).1 / 4 - (marchYear z).1 / 100 + (marchYear z).1 / 400 +
        (marchYear z).2 ∧
      0 ≤ (marchYear z).2 ∧ (marchYear z).2 ≤ 365 ∧
      ((marchYear z).2 = 365 → isLeap ((marchYear z).1 + 1) = true) := by
  simp only [marchYear, isLeap_iff]
  -- name the quotients: the four lengths nest, so each remainder is bounded by the next length
  generalize hera : z / 146097 = era
  generalize hdoe : z % 146097 = doe
  have hz : z = 146097 * era + doe := by omega
  have hdoe0 : 0 ≤ doe ∧ doe < 146097 := by omega
  clear hera hdoe
  generalize hc : min (doe / 36524) 3 = c
  have hc0 : 0 ≤ c ∧ c ≤ 3 := by omega
  generalize hdoc : doe - 36524 * c = doc
  have hdoc0 : 0 ≤ doc ∧ doc ≤ 36524 ∧ (doc = 36524 → c = 3) := by omega
  have hdoe' : doe = 36524 * c + doc := by omega
  clear hc hdoc
  generalize hq : doc / 1461 = q
  generalize hdoq : doc % 1461 = doq
  have hq0 : doc = 1461 * q + doq ∧ 0 ≤ doq ∧ doq < 1461 := by omega
  clear hq hdoq
  generalize hy : min (doq / 365) 3 = y
  have hy0 : 0 ≤ y ∧ y ≤ 3 ∧ 0 ≤ doq - 365 * y ∧ doq - 365 * y ≤ 365 ∧ (doq - 365 * y = 365 → y = 3) := by
    omega
  generalize hdoy : doq - 365 * y = doy at hy0 ⊢
  have hq24 : 0 ≤ q ∧ q ≤ 24 := by omega
  -- the year of the era has its four digits apart, so its quotients are known
  have h4 : (400 * era + 100 * c + 4 * q + y) / 4 = 100 * era + 25 * c + q := by omega
  have h100 : (400 * era + 100 * c + 4 * q + y) / 100 = 4 * era + c := by omega
  have h400 : (400 * era + 100 * c + 4 * q + y) / 400 = era := by omega
  rw [h4, h100, h400]
  refine ⟨by omega, hy0.2.2.1, hy0.2.2.2.1, fun h => ?_⟩
  have hy3 := hy0.2.2.2.2 h
  refine ⟨by omega, ?_⟩
  by_cases h24 : q = 24
  · right; omega
  · left; omega

theorem marchMonth_spec {doy : Int} (h0 : 0 ≤ doy) (h1 : doy ≤ 365) :
    0 ≤ (marchMonth doy).1 ∧ (marchMonth doy).1 ≤ 11 ∧ 1 ≤ (marchMonth doy).2 ∧
      (marchMonth doy).2 ≤ 31 ∧ doy = (153 * (marchMonth doy).1 + 2) / 5 + (marchMonth doy).2 - 1 ∧
      doy + 1 ≤ (153 * ((marchMonth doy).1 + 1) + 2) / 5 := by
  simp only [marchMonth]
  omega

theorem leapDays (y : Int) :
    y / 4 - y / 100 + y / 400 =
      (y - 1) / 4 - (y - 1) / 100 + (y - 1) / 400 + (if isLeap y then 1 else 0) := by
  split
  · rename_i h
    have := (isLeap_iff y).1 h
    omega
  · rename_i h
    rw [isLeap_iff] at h
    omega

theorem daysBeforeMonth_march (y : Int) {mp : Nat} (h : mp < 10) :
    (daysBeforeMonth y (mp + 3) : Int) = 59 + (if isLeap y then 1 else 0) + (153 * mp + 2) / 5 := by
  have hcases : mp = 0 ∨ mp = 1 ∨ mp = 2 ∨ mp = 3 ∨ mp = 4 ∨ mp = 5 ∨ mp = 6 ∨ mp = 7 ∨ mp = 8 ∨
    mp = 9 := by omega
  rcases hcases with rfl | rfl | rfl | rfl | rfl | rfl | rfl | rfl | rfl | rfl <;>
    cases hl : isLeap y <;> simp [daysBeforeMonth, List.range, List.range.loop, daysInMonth, hl]

section March

variable {y : Int} {mp d : Nat}

/-- March to December lie in the calendar year in which the count from 1 March starts. -/
theorem dayNumber_march (hm : mp < 10) :
    dayNumber y (mp + 3) d =
      365 * y + y / 4 - y / 100 + y / 400 + (153 * mp + 2) / 5 + d - 1 - 719468 := by
  rw [dayNumber, daysBeforeYear, daysBeforeMonth_march y hm]
  have := leapDays y
  omega

/-- January and February lie in the next one. -/
theorem dayNumber_january (hm : 10 ≤ mp) (hm' : mp ≤ 11) :
    dayNumber (y + 1) (mp - 9) d =
      365 * y + y / 4 - y / 100 + y / 400 + (153 * mp + 2) / 5 + d - 1 - 719468 := by
  have h1 : y + 1 - 1 = y := by omega
  rw [dayNumber, daysBeforeYear, h1]
  obtain rfl | rfl : mp = 10 ∨ mp = 11 := by omega
  · simp [daysBeforeMonth, List.range, List.range.loop]
    omega
  · simp [daysBeforeMonth, List.range, List.range.loop, daysInMonth]
    omega

end March

theorem ofUnix_parts (s : Int) : ∃ (y : Int) (mp d : Nat),
    s / 86400 + 719468 = 365 * y + y / 4 - y / 100 + y / 400 + (153 * mp + 2) / 5 + d - 1 ∧
      mp ≤ 11 ∧ 1 ≤ d ∧ d ≤ 31 ∧ (d : Int) + (153 * mp + 2) / 5 ≤ (153 * (mp + 1) + 2) / 5 ∧
      (d : Int) + (153 * mp + 2) / 5 ≤ 366 ∧
      ((d : Int) + (153 * mp + 2) / 5 = 366 → isLeap (y + 1) = true) ∧
      (ofUnix s).day = d ∧
      (mp < 10 ∧ (ofUnix s).year = y ∧ (ofUnix s).month = mp + 3 ∨
        10 ≤ mp ∧ (ofUnix s).year = y + 1 ∧ (ofUnix s).month = mp - 9) := by
  obtain ⟨hz, h0, h1, hleap⟩ := marchYear_spec (s / 86400 + 719468)
  obtain ⟨hm0, hm11, hd1, hd31, hdoy, hnext⟩ := marchMonth_spec h0 h1
  simp only [ofUnix]
  generalize marchYear (s / 86400 + 719468) = p at *
  obtain ⟨y, doy⟩ := p
  simp only at *
  generalize marchMonth doy = q at *
  obtain ⟨mp', d'⟩ := q
  obtain ⟨mp, rfl⟩ : ∃ mp : Nat, mp' = mp := ⟨mp'.toNat, by simp only at hm0; omega⟩
  obtain ⟨d, rfl⟩ : ∃ d : Nat, d' = d := ⟨d'.toNat, by simp only at hd1; omega⟩
  simp only at *
  refine ⟨y, mp, d, by omega, by omega, by omega, by omega, by omega, by omega,
    fun h => hleap (by omega), by omega, ?_⟩
  by_cases hmp : mp < 10
  · left
    rw [if_pos (by omega), if_pos (by omega)]
    omega
  · right
    rw [if_neg (by omega), if_neg (by omega)]
    omega

theorem toUnix_ofUnix (s : Int) : toUnix (ofUnix s) = s := by
  obtain ⟨y, mp, d, hdays, hmp, -, -, -, -, -, hday, h⟩ := ofUnix_parts s
  have hnum : dayNumber (ofUnix s).year (ofUnix s).month (ofUnix s).day = s / 86400 := by
    obtain ⟨hm, hy, hmo⟩ | ⟨hm, hy, hmo⟩ := h
    · rw [hy, hmo, hday, dayNumber_march hm]; omega
    · rw [hy, hmo, hday, dayNumber_january hm hmp]; omega
  rw [toUnix, hnum]
  simp only [ofUnix]
  omega

theorem ofUnix_valid (s : Int) : Valid (ofUnix s) := by
  obtain ⟨y, mp, d, -, hmp, hd1, hd31, hle, hend, hfeb, hday, h⟩ := ofUnix_parts s
  have hhour : (ofUnix s).hour < 24 ∧ (ofUnix s).minute < 60 ∧ (ofUnix s).second < 60 := by
    simp only [ofUnix]; omega
  refine ⟨?_, ?_, by omega, ?_, hhour.1, hhour.2.1, hhour.2.2⟩
  · omega
  · omega
  · -- the slope bounds the day by the next month's start; February ends the year
    rw [hday]
    obtain ⟨hm, -, hmo⟩ | ⟨hm, hy, hmo⟩ := h
    · rw [hmo, daysInMonth, if_neg (by omega)]
      split
      · omega
      · omega
    · rw [hmo, hy, daysInMonth]
      obtain rfl | rfl : mp = 10 ∨ mp = 11 := by omega
      · exact hd31
      · rw [if_pos rfl]
        split
        · omega
        · rename_i hl
          have : ¬ ((d : Int) + (153 * 11 + 2) / 5 = 366) := fun he => hl (hfeb he)
          omega

theorem Valid.day_le_thirtyOne {c : Civil} (hc : c.Valid) : c.day ≤ 31 := by
  have := hc.day_le
  unfold daysInMonth at this
  repeat' split at this
  all_goals omega

theorem day_lt_hundred (s : Int) : (ofUnix s).day < 100 := by
  have := (ofUnix_valid s).day_le_thirtyOne
  omega

theorem ofUnix_inj {s t : Int} (h : ofUnix s = ofUnix t) : s = t := by
  rw [← toUnix_ofUnix s, h, toUnix_ofUnix]

/-! ## Order -/

theorem daysBeforeMonth_succ (y : Int) {m : Nat} (h : 1 ≤ m) :
    daysBeforeMonth y (m + 1) = daysBeforeMonth y m + daysInMonth y m := by
  have hne : List.range m ≠ [] := by
    intro h0
    rw [List.range_eq_nil] at h0
    omega
  rw [daysBeforeMonth, List.range_succ, List.tail_append_of_ne_nil hne, List.map_append, List.sum_append]
  simp [daysBeforeMonth]

theorem daysBeforeMonth_mono (y : Int) {m m' : Nat} (h : 1 ≤ m) (hm : m ≤ m') :
    daysBeforeMonth y m ≤ daysBeforeMonth y m' := by
  induction m', hm using Nat.le_induction with
  | base => exact Nat.le_refl _
  | succ m' hm ih =>
    rw [daysBeforeMonth_succ y (by omega)]
    omega

theorem daysBeforeYear_succ (y : Int) : daysBeforeYear (y + 1) = daysBeforeYear y + daysBeforeMonth y 13 := by
  have hdays : daysBeforeMonth y 13 = 365 + if isLeap y then 1 else 0 := by
    cases hl : isLeap y <;> simp [daysBeforeMonth, List.range, List.range.loop, daysInMonth, hl]
  have hleap := leapDays y
  have h1 : y + 1 - 1 = y := by omega
  rw [daysBeforeYear, daysBeforeYear, hdays, h1]
  split at hleap
  · rename_i hl
    rw [if_pos hl]
    omega
  · rename_i hl
    rw [if_neg hl]
    omega

theorem daysBeforeYear_mono {y y' : Int} (h : y ≤ y') : daysBeforeYear y ≤ daysBeforeYear y' := by
  unfold daysBeforeYear
  omega

theorem Valid.dayNumber_month_lt {c c' : Civil} (hc : c.Valid) (hc' : c'.Valid) (hy : c.year = c'.year)
    (hm : c.month < c'.month) : dayNumber c.year c.month c.day < dayNumber c'.year c'.month c'.day := by
  have hsucc := daysBeforeMonth_succ c.year hc.month_pos
  have hmono := daysBeforeMonth_mono c.year (m := c.month + 1) (by omega) hm
  have hday := hc.day_le
  have hday' := hc'.day_pos
  rw [dayNumber, dayNumber, ← hy]
  omega

theorem Valid.dayNumber_year_lt {c c' : Civil} (hc : c.Valid) (hc' : c'.Valid) (hy : c.year < c'.year) :
    dayNumber c.year c.month c.day < dayNumber c'.year c'.month c'.day := by
  have hyear := daysBeforeYear_succ c.year
  have hmono := daysBeforeYear_mono (show c.year + 1 ≤ c'.year by omega)
  have hsucc := daysBeforeMonth_succ c.year hc.month_pos
  have hlast : c.month + 1 ≤ 13 := by have := hc.month_le; omega
  have hmonth := daysBeforeMonth_mono c.year (by omega) hlast
  have hday := hc.day_le
  have hday' := hc'.day_pos
  rw [dayNumber, dayNumber]
  omega

theorem Valid.toUnix_lt_of_dayNumber {c c' : Civil} (hc : c.Valid)
    (h : dayNumber c.year c.month c.day < dayNumber c'.year c'.month c'.day) : c.toUnix < c'.toUnix := by
  have := hc.hour_lt
  have := hc.minute_lt
  have := hc.second_lt
  rw [toUnix, toUnix]
  omega

theorem Valid.eq_of_toUnix_eq {c c' : Civil} (hc : c.Valid) (hc' : c'.Valid) (h : c.toUnix = c'.toUnix) :
    c = c' := by
  have hyear : c.year = c'.year := by
    rcases lt_trichotomy c.year c'.year with hlt | heq | hgt
    · have := hc.toUnix_lt_of_dayNumber (hc.dayNumber_year_lt hc' hlt)
      omega
    · exact heq
    · have := hc'.toUnix_lt_of_dayNumber (hc'.dayNumber_year_lt hc hgt)
      omega
  have hmonth : c.month = c'.month := by
    rcases lt_trichotomy c.month c'.month with hlt | heq | hgt
    · have := hc.toUnix_lt_of_dayNumber (hc.dayNumber_month_lt hc' hyear hlt)
      omega
    · exact heq
    · have := hc'.toUnix_lt_of_dayNumber (hc'.dayNumber_month_lt hc hyear.symm hgt)
      omega
  have hhour := hc.hour_lt
  have hhour' := hc'.hour_lt
  have hmin := hc.minute_lt
  have hmin' := hc'.minute_lt
  have hsec := hc.second_lt
  have hsec' := hc'.second_lt
  obtain ⟨year, month, day, hour, minute, second⟩ := c
  obtain ⟨year', month', day', hour', minute', second'⟩ := c'
  simp only at *
  subst hyear hmonth
  simp only [toUnix, dayNumber] at h
  rw [Civil.mk.injEq]
  omega

def yearStart (y : Int) : Civil := ⟨y, 1, 1, 0, 0, 0⟩

theorem yearStart_valid (y : Int) : Valid (yearStart y) := by
  have hday : daysInMonth y 1 = 31 := rfl
  constructor <;> simp [yearStart, hday]

theorem le_year_ofUnix_iff (y s : Int) : y ≤ (ofUnix s).year ↔ (yearStart y).toUnix ≤ s := by
  have hvalid := ofUnix_valid s
  have hunix := toUnix_ofUnix s
  rcases lt_trichotomy (ofUnix s).year y with hlt | heq | hgt
  · have := hvalid.toUnix_lt_of_dayNumber (hvalid.dayNumber_year_lt (yearStart_valid y) hlt)
    omega
  · refine ⟨fun _ => ?_, fun _ => Int.le_of_eq heq.symm⟩
    have hmonth := daysBeforeMonth_mono y (Nat.le_refl 1) hvalid.month_pos
    have hday := hvalid.day_pos
    rw [← hunix]
    simp only [toUnix, dayNumber, yearStart, heq]
    omega
  · have := (yearStart_valid y).toUnix_lt_of_dayNumber ((yearStart_valid y).dayNumber_year_lt hvalid hgt)
    rw [hunix] at this
    omega

end Civil

/-! ## The RFC 3339 form -/

def readDigits (bs : Bytes) : Option Nat := if bs.all isDigit then some (decimal bs) else none

theorem readDigits_padded (w n : Nat) : readDigits (padded w n) = some n := by
  rw [readDigits, if_pos (List.all_eq_true.2 (padded_isDigit w n)), decimal_padded]

/-- The text `YYYY-MM-DDTHH:MM:SS.mmmZ` of an instant of the years 0000 to 9999. -/
def rfc3339 (c : Civil) (ms : Nat) : Bytes :=
  padded 4 c.year.toNat ++ [0x2D] ++ padded 2 c.month ++ [0x2D] ++ padded 2 c.day ++ [0x54] ++
    padded 2 c.hour ++ [0x3A] ++ padded 2 c.minute ++ [0x3A] ++ padded 2 c.second ++ [0x2E] ++
    padded 3 ms ++ [0x5A]

/-- Reads `YYYY-MM-DDTHH:MM:SS.mmmZ`: the seconds from the epoch and the milliseconds. -/
def readRfc3339 : Bytes → Option (Int × Nat)
  | [y1, y2, y3, y4, s1, m1, m2, s2, d1, d2, t, h1, h2, c1, n1, n2, c2, e1, e2, p, f1, f2, f3, z] =>
    if s1 = 0x2D ∧ s2 = 0x2D ∧ t = 0x54 ∧ c1 = 0x3A ∧ c2 = 0x3A ∧ p = 0x2E ∧ z = 0x5A then do
      let year ← readDigits [y1, y2, y3, y4]
      let month ← readDigits [m1, m2]
      let day ← readDigits [d1, d2]
      let hour ← readDigits [h1, h2]
      let minute ← readDigits [n1, n2]
      let second ← readDigits [e1, e2]
      let ms ← readDigits [f1, f2, f3]
      return (Civil.toUnix ⟨year, month, day, hour, minute, second⟩, ms)
    else none
  | _ => none

theorem padded_two {n : Nat} (h : n < 100) : ∃ a b, padded 2 n = [a, b] := by
  have := length_padded_of_lt (w := 2) (by decide) h
  exact List.length_eq_two.1 this

theorem padded_three {n : Nat} (h : n < 1000) : ∃ a b c, padded 3 n = [a, b, c] := by
  have := length_padded_of_lt (w := 3) (by decide) h
  exact List.length_eq_three.1 this

theorem padded_four {n : Nat} (h : n < 10000) : ∃ a b c d, padded 4 n = [a, b, c, d] := by
  have hlen := length_padded_of_lt (w := 4) (by decide) h
  match hp : padded 4 n with
  | [a, b, c, d] => exact ⟨a, b, c, d, rfl⟩
  | [] | [_] | [_, _] | [_, _, _] | _ :: _ :: _ :: _ :: _ :: _ => rw [hp] at hlen; simp at hlen

theorem readRfc3339_rfc3339 {c : Civil} (hc : c.Valid) (h0 : 0 ≤ c.year) (h1 : c.year ≤ 9999) {ms : Nat}
    (hms : ms < 1000) : readRfc3339 (rfc3339 c ms) = some (c.toUnix, ms) := by
  have hday : c.day < 100 := by have := hc.day_le_thirtyOne; omega
  obtain ⟨y1, y2, y3, y4, hy⟩ := padded_four (n := c.year.toNat) (by omega)
  obtain ⟨m1, m2, hm⟩ := padded_two (n := c.month) (by have := hc.month_le; omega)
  obtain ⟨d1, d2, hd⟩ := padded_two hday
  obtain ⟨u1, u2, hh⟩ := padded_two (n := c.hour) (by have := hc.hour_lt; omega)
  obtain ⟨n1, n2, hn⟩ := padded_two (n := c.minute) (by have := hc.minute_lt; omega)
  obtain ⟨e1, e2, he⟩ := padded_two (n := c.second) (by have := hc.second_lt; omega)
  obtain ⟨f1, f2, f3, hf⟩ := padded_three hms
  have hyear : ((c.year.toNat : Nat) : Int) = c.year := by omega
  simp only [rfc3339, hy, hm, hd, hh, hn, he, hf, List.cons_append, List.nil_append, readRfc3339]
  rw [← hy, ← hm, ← hd, ← hh, ← hn, ← he, ← hf]
  simp only [readDigits_padded, and_self, if_true, Option.bind_eq_bind, Option.bind_some, hyear]
  rfl

/-! ## The order of the texts -/

/-- The fields of the form: `YYYY-`, `MM-`, `DDT`, `HH:`, `MM:`, `SS.`, `mmmZ`. -/
def rfc3339Fields : List (Nat × UInt8) :=
  [(4, 0x2D), (2, 0x2D), (2, 0x54), (2, 0x3A), (2, 0x3A), (2, 0x2E), (3, 0x5A)]

def Civil.numbers (c : Civil) (ms : Nat) : List Nat :=
  [c.year.toNat, c.month, c.day, c.hour, c.minute, c.second, ms]

theorem rfc3339_eq_fixedFields (c : Civil) (ms : Nat) : rfc3339 c ms = fixedFields rfc3339Fields (c.numbers ms) := by
  simp [rfc3339, rfc3339Fields, Civil.numbers, fixedFields]

section Form

variable {c c' : Civil} {ms ms' : Nat}

theorem Civil.Valid.fits (hc : c.Valid) (h1 : c.year ≤ 9999) (hms : ms < 1000) :
    Fits rfc3339Fields (c.numbers ms) := by
  have := hc.day_le_thirtyOne
  have := hc.month_le
  have := hc.hour_lt
  have := hc.minute_lt
  have := hc.second_lt
  simp only [Fits, rfc3339Fields, Civil.numbers, List.forall₂_cons, List.Forall₂.nil, and_true]
  omega

/-- The numbers count in the order of their places: the first that differs decides. -/
theorem Civil.Valid.lt_of_numbers_lt (hc : c.Valid) (hc' : c'.Valid) (h0 : 0 ≤ c.year) (h0' : 0 ≤ c'.year)
    (hms : ms < 1000) (h : c.numbers ms < c'.numbers ms') :
    c.toUnix * 1000 + ms < c'.toUnix * 1000 + ms' := by
  have hday : dayNumber c.year c.month c.day < dayNumber c'.year c'.month c'.day →
      c.toUnix * 1000 + ms < c'.toUnix * 1000 + ms' := by
    intro hlt
    have := hc.toUnix_lt_of_dayNumber hlt
    omega
  simp only [Civil.numbers, List.cons_lt_cons_iff, List.not_lt_nil, and_false, or_false] at h
  rcases h with hy | ⟨hy, hm | ⟨hm, hd | ⟨hd, h⟩⟩⟩
  · exact hday (hc.dayNumber_year_lt hc' (by omega))
  · exact hday (hc.dayNumber_month_lt hc' (by omega) hm)
  · refine hday ?_
    rw [dayNumber, dayNumber, hm, show c.year = c'.year by omega]
    omega
  · -- the same day: hours, minutes, seconds and milliseconds are a mixed radix
    have := hc.minute_lt
    have := hc.second_lt
    rw [Civil.toUnix, Civil.toUnix, hm, hd, show c.year = c'.year by omega]
    omega

theorem rfc3339_looksLike (hc : c.Valid) (h1 : c.year ≤ 9999) (hms : ms < 1000) :
    LooksLike (ascii "0000-00-00T00:00:00.000Z") (rfc3339 c ms) := by
  have hzero : Fits rfc3339Fields [0, 0, 0, 0, 0, 0, 0] := by
    simp [Fits, rfc3339Fields]
  rw [rfc3339_eq_fixedFields]
  exact fixedFields_looksLike hzero (hc.fits h1 hms)

/-- Octet by octet, two texts are ordered as their instants are. -/
theorem rfc3339_lt_iff (hc : c.Valid) (h0 : 0 ≤ c.year) (h1 : c.year ≤ 9999) (hms : ms < 1000)
    (hc' : c'.Valid) (h0' : 0 ≤ c'.year) (h1' : c'.year ≤ 9999) (hms' : ms' < 1000) :
    rfc3339 c ms < rfc3339 c' ms' ↔ c.toUnix * 1000 + ms < c'.toUnix * 1000 + ms' := by
  rw [rfc3339_eq_fixedFields, rfc3339_eq_fixedFields, fixedFields_lt_iff (hc.fits h1 hms) (hc'.fits h1' hms')]
  constructor
  · exact hc.lt_of_numbers_lt hc' h0 h0' hms
  · intro h
    rcases lt_trichotomy (c.numbers ms) (c'.numbers ms') with hlt | heq | hgt
    · exact hlt
    · simp only [Civil.numbers, List.cons.injEq, and_true] at heq
      obtain ⟨hy, hm, hd, hh, hmin, hs, rfl⟩ := heq
      rw [Civil.toUnix, Civil.toUnix, hm, hd, hh, hmin, hs, show c.year = c'.year by omega] at h
      omega
    · have := hc'.lt_of_numbers_lt hc h0' h0 hms' hgt
      omega

/-- A date and a time of day without a part of the second. -/
def Civil.stamp (c : Civil) : List Nat := [c.year.toNat, c.month, c.day, c.hour, c.minute, c.second]

theorem Civil.Valid.stamp_lt_iff (hc : c.Valid) (hc' : c'.Valid) (h0 : 0 ≤ c.year) (h0' : 0 ≤ c'.year) :
    c.stamp < c'.stamp ↔ c.toUnix < c'.toUnix := by
  have hwide : ∀ c c' : Civil, c.stamp < c'.stamp → c.numbers 0 < c'.numbers 0 := by
    intro c c' h
    rw [show c.numbers 0 = c.stamp ++ [0] from rfl, show c'.numbers 0 = c'.stamp ++ [0] from rfl,
      append_lt_append_iff (show c.stamp.length = c'.stamp.length from rfl)]
    exact .inl h
  constructor
  · intro h
    have := hc.lt_of_numbers_lt hc' h0 h0' (by decide) (hwide c c' h)
    omega
  · intro h
    rcases lt_trichotomy c.stamp c'.stamp with hlt | heq | hgt
    · exact hlt
    · simp only [Civil.stamp, List.cons.injEq, and_true] at heq
      obtain ⟨hy, hm, hd, hh, hmin, hs⟩ := heq
      rw [Civil.toUnix, Civil.toUnix, hm, hd, hh, hmin, hs, show c.year = c'.year by omega] at h
      omega
    · have := hc'.lt_of_numbers_lt hc h0' h0 (by decide) (hwide c' c hgt)
      omega

end Form

end Wire
