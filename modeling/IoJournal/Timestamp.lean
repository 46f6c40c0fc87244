import IoJournal.Wire.Calendar
import IoJournal.Wire.Buffer
import IoJournal.Types

/-!
# IoJournal.Timestamp

`gmtime_r` and the timestamp formatter of `encoders/ij_json_console.c`.

`formatTimestampRfc3339_eq` says when a timestamp has a text, and that the text is the RFC 3339
form of its UTC breakdown, cut to milliseconds. `formatTimestampRfc3339_text` is what a reader of
the log has from it: the form, the instant read back, and an order that sorting the octets gives.
-/

namespace IoJournal

open Wire

/-- `struct tm`, as far as the code reads it. -/
structure Tm where
  tmYear : Int
  tmMon : Nat
  tmMday : Nat
  tmHour : Nat
  tmMin : Nat
  tmSec : Nat
  deriving DecidableEq

/-- `gmtime_r`: NULL when the year does not fit `tm_year`. -/
def gmtimeR (seconds : Int) : Option Tm :=
  let c := Civil.ofUnix seconds
  if -2147483648 ≤ c.year - 1900 ∧ c.year - 1900 ≤ 2147483647 then
    some ⟨c.year - 1900, c.month - 1, c.day, c.hour, c.minute, c.second⟩
  else none

def writeTwoDigits (m : Buffer) (i value : Nat) : Buffer :=
  m.copy i [digit (value / 10 % 10), digit (value % 10)]

def writeThreeDigits (m : Buffer) (i value : Nat) : Buffer :=
  m.copy i [digit (value / 100 % 10), digit (value / 10 % 10), digit (value % 10)]

def writeFourDigits (m : Buffer) (i value : Nat) : Buffer :=
  m.copy i [digit (value / 1000 % 10), digit (value / 100 % 10), digit (value / 10 % 10), digit (value % 10)]

/-- The stores of the formatter, once the timestamp is known to have a text. -/
def writeTimestamp (m : Buffer) (year : Nat) (tm : Tm) (milliseconds : Nat) : Buffer :=
  let m := writeFourDigits m 0 year
  let m := m.store 4 0x2D
  let m := writeTwoDigits m 5 (tm.tmMon + 1)
  let m := m.store 7 0x2D
  let m := writeTwoDigits m 8 tm.tmMday
  let m := m.store 10 0x54
  let m := writeTwoDigits m 11 tm.tmHour
  let m := m.store 13 0x3A
  let m := writeTwoDigits m 14 tm.tmMin
  let m := m.store 16 0x3A
  let m := writeTwoDigits m 17 tm.tmSec
  let m := m.store 19 0x2E
  let m := writeThreeDigits m 20 milliseconds
  let m := m.store 23 0x5A
  m.store 24 0

/-- `ij_format_timestamp_rfc3339`; the buffer's size is the `buffer_size` argument. -/
def formatTimestampRfc3339 (timestamp : Timestamp) (buffer : Buffer) : Status × Buffer :=
  if buffer.size < 25 ∨ 1000000000 ≤ timestamp.nanoseconds then (.invalidArgument, buffer)
  else
    match gmtimeR timestamp.unixSeconds.toInt with
    | none => (.encodeError, buffer)
    | some tm =>
      let year := tm.tmYear + 1900
      if year < 0 ∨ 9999 < year then (.encodeError, buffer)
      else (.ok, writeTimestamp buffer year.toNat tm (timestamp.nanoseconds.toNat / 1000000))

/-! ## The text -/

def Timestamp.civil (ts : Timestamp) : Civil := Civil.ofUnix ts.unixSeconds.toInt

/-- The year has four digits. -/
def Timestamp.Formattable (ts : Timestamp) : Prop := 0 ≤ ts.civil.year ∧ ts.civil.year ≤ 9999

instance (ts : Timestamp) : Decidable ts.Formattable := by unfold Timestamp.Formattable; infer_instance

def Timestamp.text (ts : Timestamp) : Bytes := rfc3339 ts.civil (ts.nanoseconds.toNat / 1000000)

theorem Timestamp.millisecond_lt {ts : Timestamp} (hn : ts.nanoseconds < 1000000000) :
    ts.nanoseconds.toNat / 1000000 < 1000 := by
  have hlt : ts.nanoseconds.toNat < 1000000000 := hn
  omega

theorem padded_two_digits {n : Nat} (h : n < 100) : padded 2 n = [digit (n / 10 % 10), digit (n % 10)] := by
  rw [padded_succ (by decide), padded_one (by omega), Nat.mod_eq_of_lt (a := n / 10) (by omega)]
  rfl

theorem padded_three_digits {n : Nat} (h : n < 1000) :
    padded 3 n = [digit (n / 100 % 10), digit (n / 10 % 10), digit (n % 10)] := by
  rw [padded_succ (by decide), padded_two_digits (by omega), Nat.div_div_eq_div_mul]
  rfl

theorem padded_four_digits {n : Nat} (h : n < 10000) :
    padded 4 n = [digit (n / 1000 % 10), digit (n / 100 % 10), digit (n / 10 % 10), digit (n % 10)] := by
  rw [padded_succ (by decide), padded_three_digits (by omega), Nat.div_div_eq_div_mul, Nat.div_div_eq_div_mul]
  rfl

theorem Timestamp.length_text {ts : Timestamp} (hn : ts.nanoseconds < 1000000000) (hy : ts.Formattable) :
    ts.text.length = 24 := by
  have hc := Civil.ofUnix_valid ts.unixSeconds.toInt
  have hms : ts.nanoseconds.toNat < 1000000000 := hn
  have hday := Civil.day_lt_hundred ts.unixSeconds.toInt
  obtain ⟨h0, h1⟩ := hy
  simp only [Timestamp.civil] at h0 h1
  simp only [Timestamp.text, Timestamp.civil, rfc3339, List.length_append, List.length_cons, List.length_nil]
  rw [length_padded_of_lt (by decide) (show _ < 10 ^ 4 by omega), length_padded_of_lt (by decide) (show _ < 10 ^ 2 from
    (by have := hc.month_le; omega)), length_padded_of_lt (by decide) (show _ < 10 ^ 2 from hday),
    length_padded_of_lt (by decide) (show _ < 10 ^ 2 from (by have := hc.hour_lt; omega)),
    length_padded_of_lt (by decide) (show _ < 10 ^ 2 from (by have := hc.minute_lt; omega)),
    length_padded_of_lt (by decide) (show _ < 10 ^ 2 from (by have := hc.second_lt; omega)),
    length_padded_of_lt (by decide) (show _ < 10 ^ 3 by omega)]

theorem Timestamp.mem_text {ts : Timestamp} {b : UInt8} (h : b ∈ ts.text) : 0x2D ≤ b ∧ b ≤ 0x5A := by
  have hdigit : ∀ w n, b ∈ padded w n → 0x2D ≤ b ∧ b ≤ 0x5A := by
    intro w n hb
    have := padded_isDigit w n b hb
    simp only [isDigit, Bool.and_eq_true, decide_eq_true_eq] at this
    exact ⟨UInt8.le_trans (by decide) this.1, UInt8.le_trans this.2 (by decide)⟩
  simp only [Timestamp.text, rfc3339, List.mem_append, List.mem_singleton] at h
  rcases h with ((((((((((((h | rfl) | h) | rfl) | h) | rfl) | h) | rfl) | h) | rfl) | h) | rfl) | h) | rfl
  all_goals first | exact hdigit _ _ h | decide

theorem formatTimestampRfc3339_eq {ts : Timestamp} (hn : ts.nanoseconds < 1000000000) {m : Buffer}
    (hm : 25 ≤ m.size) :
    formatTimestampRfc3339 ts m =
      if ts.Formattable then (.ok, m.copy 0 (ts.text ++ [0])) else (.encodeError, m) := by
  have hc := Civil.ofUnix_valid ts.unixSeconds.toInt
  have hms : ts.nanoseconds.toNat < 1000000000 := hn
  have hday := Civil.day_lt_hundred ts.unixSeconds.toInt
  rw [formatTimestampRfc3339, if_neg (by rw [not_or, UInt32.not_le]; exact ⟨by omega, hn⟩)]
  by_cases hy : ts.Formattable
  · rw [if_pos hy]
    obtain ⟨h0, h1⟩ := hy
    unfold Timestamp.civil at h0 h1
    have hfit : -2147483648 ≤ (Civil.ofUnix ts.unixSeconds.toInt).year - 1900 ∧
      (Civil.ofUnix ts.unixSeconds.toInt).year - 1900 ≤ 2147483647 := by omega
    have hyear : (Civil.ofUnix ts.unixSeconds.toInt).year - 1900 + 1900 =
      (Civil.ofUnix ts.unixSeconds.toInt).year := by omega
    have hmon : (Civil.ofUnix ts.unixSeconds.toInt).month - 1 + 1 = (Civil.ofUnix ts.unixSeconds.toInt).month :=
      Nat.sub_add_cancel hc.month_pos
    have hmonth : (Civil.ofUnix ts.unixSeconds.toInt).month < 100 := by have := hc.month_le; omega
    have hhour : (Civil.ofUnix ts.unixSeconds.toInt).hour < 100 := by have := hc.hour_lt; omega
    have hmin : (Civil.ofUnix ts.unixSeconds.toInt).minute < 100 := by have := hc.minute_lt; omega
    have hsec : (Civil.ofUnix ts.unixSeconds.toInt).second < 100 := by have := hc.second_lt; omega
    simp only [gmtimeR, if_pos hfit, hyear, if_neg (show ¬ ((Civil.ofUnix ts.unixSeconds.toInt).year < 0 ∨
      9999 < (Civil.ofUnix ts.unixSeconds.toInt).year) by omega), writeTimestamp, hmon, Timestamp.text,
      Timestamp.civil, rfc3339]
    rw [padded_four_digits (by omega), padded_two_digits hmonth, padded_two_digits hday, padded_two_digits hhour,
      padded_two_digits hmin, padded_two_digits hsec, padded_three_digits (by omega)]
    simp only [writeTwoDigits, writeThreeDigits, writeFourDigits, List.cons_append, List.nil_append, Buffer.copy,
      Nat.zero_add, Nat.reduceAdd]
  · rw [if_neg hy]
    unfold Timestamp.Formattable Timestamp.civil at hy
    simp only [gmtimeR]
    split
    · rfl
    · rename_i tm htm
      split at htm
      · cases htm
        rw [if_pos (by simp only; omega)]
      · cases htm

/-! ## What the text says -/

/-- The instant, to the millisecond. -/
def Timestamp.millis (ts : Timestamp) : Int :=
  ts.unixSeconds.toInt * 1000 + (ts.nanoseconds.toNat / 1000000 : Nat)

theorem Timestamp.readRfc3339_text {ts : Timestamp} (hn : ts.nanoseconds < 1000000000) (hy : ts.Formattable) :
    readRfc3339 ts.text = some (ts.unixSeconds.toInt, ts.nanoseconds.toNat / 1000000) := by
  have := readRfc3339_rfc3339 (Civil.ofUnix_valid ts.unixSeconds.toInt) hy.1 hy.2 (Timestamp.millisecond_lt hn)
  rwa [Civil.toUnix_ofUnix] at this

theorem Timestamp.text_looksLike {ts : Timestamp} (hn : ts.nanoseconds < 1000000000) (hy : ts.Formattable) :
    LooksLike (ascii "0000-00-00T00:00:00.000Z") ts.text :=
  rfc3339_looksLike (Civil.ofUnix_valid _) hy.2 (Timestamp.millisecond_lt hn)

section Order

variable {ts ts' : Timestamp} (hn : ts.nanoseconds < 1000000000) (hy : ts.Formattable)
  (hn' : ts'.nanoseconds < 1000000000) (hy' : ts'.Formattable)

include hn hy hn' hy'

theorem Timestamp.text_lt_iff : ts.text < ts'.text ↔ ts.millis < ts'.millis := by
  have hiff := rfc3339_lt_iff (Civil.ofUnix_valid ts.unixSeconds.toInt) hy.1 hy.2 (Timestamp.millisecond_lt hn)
    (Civil.ofUnix_valid ts'.unixSeconds.toInt) hy'.1 hy'.2 (Timestamp.millisecond_lt hn')
  rwa [Civil.toUnix_ofUnix, Civil.toUnix_ofUnix] at hiff

theorem Timestamp.text_eq_iff : ts.text = ts'.text ↔ ts.millis = ts'.millis := by
  have hlt := Timestamp.millisecond_lt hn
  have hlt' := Timestamp.millisecond_lt hn'
  constructor
  · intro h
    have hread := Timestamp.readRfc3339_text hn hy
    rw [h, Timestamp.readRfc3339_text hn' hy', Option.some.injEq, Prod.mk.injEq] at hread
    rw [Timestamp.millis, Timestamp.millis, hread.1, hread.2]
  · intro h
    unfold Timestamp.millis at h
    have hs : ts.unixSeconds.toInt = ts'.unixSeconds.toInt := by omega
    have hms : ts.nanoseconds.toNat / 1000000 = ts'.nanoseconds.toNat / 1000000 := by omega
    rw [Timestamp.text, Timestamp.text, Timestamp.civil, Timestamp.civil, hs, hms]

end Order

theorem Timestamp.formattable_iff (ts : Timestamp) :
    ts.Formattable ↔ ∃ c : Civil, c.Valid ∧ c.toUnix = ts.unixSeconds.toInt ∧ 0 ≤ c.year ∧ c.year ≤ 9999 := by
  have hvalid := Civil.ofUnix_valid ts.unixSeconds.toInt
  have hunix := Civil.toUnix_ofUnix ts.unixSeconds.toInt
  constructor
  · intro h
    exact ⟨_, hvalid, hunix, h⟩
  · rintro ⟨c, hc, hs, hyear⟩
    have hcivil : c = ts.civil := hc.eq_of_toUnix_eq hvalid (hs.trans hunix.symm)
    rw [Timestamp.Formattable, ← hcivil]
    exact hyear

section Written

variable {ts : Timestamp} (hn : ts.nanoseconds < 1000000000) {m : Buffer} (hm : 25 ≤ m.size)

include hn hm

theorem formatTimestampRfc3339_ok_iff : (formatTimestampRfc3339 ts m).1 = .ok ↔ ts.Formattable := by
  rw [formatTimestampRfc3339_eq hn hm]
  split <;> simp [*]

theorem read_formatTimestampRfc3339 (hy : ts.Formattable) :
    (formatTimestampRfc3339 ts m).2.read 0 24 = ts.text := by
  have hlen := Timestamp.length_text hn hy
  have hfits : 0 + (ts.text ++ [0]).length ≤ m.size := by
    rw [List.length_append, hlen, List.length_singleton]
    omega
  have hread := Buffer.read_copy hfits
  rw [List.length_append, List.length_singleton] at hread
  have htext := Buffer.read_of_snoc hread
  have hfmt : (formatTimestampRfc3339 ts m).2 = m.copy 0 (ts.text ++ [0]) := by
    rw [formatTimestampRfc3339_eq hn hm, if_pos hy]
  rw [hlen] at htext
  rw [hfmt, htext]

end Written

/-- The formatter has a text exactly for the seconds whose UTC date lies in the years 0000 to 9999.
The 24 octets it writes have the form `YYYY-MM-DDTHH:MM:SS.mmmZ`, say the second and the millisecond,
and against the octets written for any other timestamp they compare as the two instants do. -/
theorem formatTimestampRfc3339_text {ts : Timestamp} (hn : ts.nanoseconds < 1000000000) {m : Buffer}
    (hm : 25 ≤ m.size) :
    ((formatTimestampRfc3339 ts m).1 = .ok ↔
        ∃ c : Civil, c.Valid ∧ c.toUnix = ts.unixSeconds.toInt ∧ 0 ≤ c.year ∧ c.year ≤ 9999) ∧
      ((formatTimestampRfc3339 ts m).1 = .ok →
        LooksLike (ascii "0000-00-00T00:00:00.000Z") ((formatTimestampRfc3339 ts m).2.read 0 24) ∧
        readRfc3339 ((formatTimestampRfc3339 ts m).2.read 0 24) =
          some (ts.unixSeconds.toInt, ts.nanoseconds.toNat / 1000000) ∧
        ∀ (ts' : Timestamp) (m' : Buffer), ts'.nanoseconds < 1000000000 → 25 ≤ m'.size →
          (formatTimestampRfc3339 ts' m').1 = .ok →
          ((formatTimestampRfc3339 ts m).2.read 0 24 < (formatTimestampRfc3339 ts' m').2.read 0 24 ↔
              ts.millis < ts'.millis) ∧
            ((formatTimestampRfc3339 ts m).2.read 0 24 = (formatTimestampRfc3339 ts' m').2.read 0 24 ↔
              ts.millis = ts'.millis)) := by
  refine ⟨(formatTimestampRfc3339_ok_iff hn hm).trans ts.formattable_iff, fun hok => ?_⟩
  have hy := (formatTimestampRfc3339_ok_iff hn hm).1 hok
  rw [read_formatTimestampRfc3339 hn hm hy]
  refine ⟨Timestamp.text_looksLike hn hy, Timestamp.readRfc3339_text hn hy, ?_⟩
  intro ts' m' hn' hm' hok'
  have hy' := (formatTimestampRfc3339_ok_iff hn' hm').1 hok'
  rw [read_formatTimestampRfc3339 hn' hm' hy']
  exact ⟨Timestamp.text_lt_iff hn hy hn' hy', Timestamp.text_eq_iff hn hy hn' hy'⟩

/-- The last millisecond before 1970 sorts before the first one of it. -/
theorem formatTimestampRfc3339_text_epoch :
    (formatTimestampRfc3339 ⟨-1, 999999999⟩ (.fresh (.replicate 25 0))).2.read 0 24 =
        ascii "1969-12-31T23:59:59.999Z" ∧
      (formatTimestampRfc3339 ⟨-1, 999999999⟩ (.fresh (.replicate 25 0))).2.read 0 24 <
        (formatTimestampRfc3339 ⟨0, 0⟩ (.fresh (.replicate 25 0))).2.read 0 24 := by
  refine ⟨by decide, ?_⟩
  have hn : (⟨-1, 999999999⟩ : Timestamp).nanoseconds < 1000000000 := by decide
  have h := (formatTimestampRfc3339_text hn (m := .fresh (.replicate 25 0)) (by decide)).2 (by decide)
  exact (h.2.2 ⟨0, 0⟩ (.fresh (.replicate 25 0)) (by decide) (by decide) (by decide)).1.2 (by decide)

end IoJournal
