import IoJournal.Encode
import IoJournal.EventCopy

/-!
# IoJournal.TimestampRange

The `int` arithmetic of the timestamp formatter.

The seconds of an event are not checked when it is copied, so the formatter is entered with every year
that `gmtime_r` has a breakdown for. `formatTimestampInts` is the formatter with the values of its
`int` expressions; the year is computed before it is compared with anything, and in the last 1900
years before `tm_year` ends the sum is too large for an `int`.
-/

namespace IoJournal

open Wire

/-- The values of a 32-bit `int`. -/
def InInt (v : Int) : Prop := -2147483648 ≤ v ∧ v ≤ 2147483647

/-- `ij_format_timestamp_rfc3339`, with the values of the `int` expressions in the order in which they are
evaluated: `tm_year + 1900`, and then what is converted to `unsigned int`. -/
def formatTimestampInts (timestamp : Timestamp) (buffer : Buffer) : List Int × Status × Buffer :=
  if buffer.size < 25 ∨ 1000000000 ≤ timestamp.nanoseconds then ([], .invalidArgument, buffer)
  else
    match gmtimeR timestamp.unixSeconds.toInt with
    | none => ([], .encodeError, buffer)
    | some tm =>
      let year := tm.tmYear + 1900
      if year < 0 ∨ 9999 < year then ([year], .encodeError, buffer)
      else ([year, tm.tmMon + 1, tm.tmMday, tm.tmHour, tm.tmMin, tm.tmSec], .ok,
        writeTimestamp buffer year.toNat tm (timestamp.nanoseconds.toNat / 1000000))

/-- The `int` expressions of the formatter when `ij_json_console_encode` calls it. -/
def jsonConsoleInts (event : Option EventCopy) (buffer : Option Bytes) : List Int :=
  match event, buffer with
  | some event, some _ => (formatTimestampInts event.timestamp timestampBuffer).1
  | _, _ => []

/-- The `int` expressions of the formatter when `ij_rfc5424_encode` calls it. -/
def rfc5424Ints (event : Option EventCopy) (config : Option LoggerConfig) (buffer : Option Bytes) : List Int :=
  match event, config, buffer with
  | some event, some _, some bytes =>
    if bytes.length = 0 then []
    else
      match syslogSeverityFromLevel event.level with
      | none => []
      | some _ => (formatTimestampInts event.timestamp timestampBuffer).1
  | _, _, _ => []

/-- The values apart, it is the formatter. -/
theorem formatTimestampInts_snd (timestamp : Timestamp) (buffer : Buffer) :
    (formatTimestampInts timestamp buffer).2 = formatTimestampRfc3339 timestamp buffer := by
  unfold formatTimestampInts formatTimestampRfc3339
  split
  · rfl
  · cases gmtimeR timestamp.unixSeconds.toInt with
    | none => rfl
    | some tm =>
      dsimp only
      split <;> rfl

/-! ## The year of a second -/

/-- The seconds from 2147483648-01-01T00:00:00Z to 2147485547-12-31T23:59:59Z, which is the last one that
`gmtime_r` has a breakdown for. -/
theorem year_too_large_iff (s : Int) :
    2147483648 ≤ (Civil.ofUnix s).year ∧ (Civil.ofUnix s).year ≤ 2147485547 ↔
      67767976233532800 ≤ s ∧ s ≤ 67768036191676799 := by
  have hfirst := Civil.le_year_ofUnix_iff 2147483648 s
  have hnext := Civil.le_year_ofUnix_iff 2147485548 s
  rw [show (Civil.yearStart 2147483648).toUnix = 67767976233532800 by decide] at hfirst
  rw [show (Civil.yearStart 2147485548).toUnix = 67768036191676800 by decide] at hnext
  omega

/-! ## The values -/

section Values

variable {ts : Timestamp} (hn : ts.nanoseconds < 1000000000) {m : Buffer} (hm : 25 ≤ m.size)

include hn hm

theorem formatTimestampInts_inInt_iff :
    (∀ v ∈ (formatTimestampInts ts m).1, InInt v) ↔
      ¬ (67767976233532800 ≤ ts.unixSeconds.toInt ∧ ts.unixSeconds.toInt ≤ 67768036191676799) := by
  have hc := Civil.ofUnix_valid ts.unixSeconds.toInt
  rw [← year_too_large_iff, formatTimestampInts, if_neg (by rw [not_or, UInt32.not_le]; exact ⟨by omega, hn⟩), gmtimeR]
  dsimp only
  split
  · -- no breakdown: nothing is computed, and the year is past the range on either side
    rename_i hnone
    split at hnone
    · cases hnone
    · simp only [List.not_mem_nil, false_implies, implies_true, true_iff]
      omega
  · rename_i tm htm
    split at htm
    · rename_i hfit
      cases htm
      have hyear : (Civil.ofUnix ts.unixSeconds.toInt).year - 1900 + 1900 = (Civil.ofUnix ts.unixSeconds.toInt).year := by
        omega
      simp only [hyear]
      split
      · simp only [List.forall_mem_singleton, InInt]
        omega
      · have hday := hc.day_le_thirtyOne
        have hmonth := hc.month_le
        have hhour := hc.hour_lt
        have hmin := hc.minute_lt
        have hsec := hc.second_lt
        simp only [List.forall_mem_cons, InInt]
        refine ⟨fun _ => by omega, fun _ => ⟨by omega, by omega, by omega, by omega, by omega, by omega, ?_⟩⟩
        exact List.forall_mem_nil _
    · cases htm

end Values

theorem mem_jsonConsoleInts {event : EventCopy} {buffer : Option Bytes} {v : Int}
    (h : v ∈ jsonConsoleInts (some event) buffer) : v ∈ (formatTimestampInts event.timestamp timestampBuffer).1 := by
  cases buffer with
  | none => cases h
  | some bytes => exact h

theorem mem_rfc5424Ints {event : EventCopy} {config : Option LoggerConfig} {buffer : Option Bytes} {v : Int}
    (h : v ∈ rfc5424Ints (some event) config buffer) : v ∈ (formatTimestampInts event.timestamp timestampBuffer).1 := by
  cases config with
  | none => cases h
  | some config =>
    cases buffer with
    | none => cases h
    | some bytes =>
      rw [rfc5424Ints] at h
      split at h
      · cases h
      · split at h
        · cases h
        · exact h

/-- For every event that is accepted, and whatever buffers and configurations the encoders are given, their
timestamps are formatted without overflow of an `int` exactly when the second is not of one of the 1900
years from 2147483648 on. -/
theorem timestampInts_inInt_iff {cpu : Cpu} {heap : Heap} {e : Event} {mode : Int} {c : EventCopy}
    (hcopy : eventCopyFromInput cpu heap (some e) mode = .ok c) :
    (∀ buffer, ∀ v ∈ jsonConsoleInts (some c) buffer, InInt v) ∧
      (∀ config buffer, ∀ v ∈ rfc5424Ints (some c) config buffer, InInt v) ↔
      ¬ (67767976233532800 ≤ e.timestamp.unixSeconds.toInt ∧ e.timestamp.unixSeconds.toInt ≤ 67768036191676799) := by
  obtain ⟨hwf, hrep⟩ := eventCopyFromInput_represents hcopy
  have htime : c.timestamp = e.timestamp := hrep.timestamp
  rw [← formatTimestampInts_inInt_iff hwf.nanoseconds (show 25 ≤ timestampBuffer.size by decide), ← htime]
  constructor
  · intro h
    exact h.1 (some [])
  · intro h
    exact ⟨fun _ v hv => h v (mem_jsonConsoleInts hv), fun _ _ v hv => h v (mem_rfc5424Ints hv)⟩

/-- `loginEvent` in the last second that has a breakdown: `tm_year` is 2147483647. -/
def lastSecondEvent : Event := { loginEvent with timestamp := ⟨67768036191676799, 0⟩ }

theorem not_inInt_last_second :
    ∃ c, eventCopyFromInput scalarCpu zeroHeap (some lastSecondEvent) redactionModeEnabled = .ok c ∧
      (gmtimeR 67768036191676799).map Tm.tmYear = some 2147483647 ∧
      jsonConsoleInts (some c) (some []) = [2147485547] ∧
      ¬ ((∀ buffer, ∀ v ∈ jsonConsoleInts (some c) buffer, InInt v) ∧
        ∀ config buffer, ∀ v ∈ rfc5424Ints (some c) config buffer, InInt v) := by
  have hcopy : ∃ c, eventCopyFromInput scalarCpu zeroHeap (some lastSecondEvent) redactionModeEnabled = .ok c := ⟨_, rfl⟩
  obtain ⟨c, hc⟩ := hcopy
  have htime : c.timestamp = ⟨67768036191676799, 0⟩ := (eventCopyFromInput_represents hc).2.timestamp
  have hints : (formatTimestampInts ⟨67768036191676799, 0⟩ timestampBuffer).1 = [2147485547] := by decide
  rw [← htime] at hints
  refine ⟨c, hc, by decide, hints, ?_⟩
  rintro ⟨hjson, -⟩
  have hlarge : InInt 2147485547 := hjson (some []) _ (by
    show 2147485547 ∈ (formatTimestampInts c.timestamp timestampBuffer).1
    rw [hints]
    exact List.mem_singleton_self _)
  unfold InInt at hlarge
  omega

theorem timestampInts_inInt_iff_login :
    ∃ c, eventCopyFromInput scalarCpu zeroHeap (some loginEvent) redactionModeEnabled = .ok c ∧
      ∀ config buffer, ∀ v ∈ rfc5424Ints (some c) config buffer, InInt v := by
  have hcopy : ∃ c, eventCopyFromInput scalarCpu zeroHeap (some loginEvent) redactionModeEnabled = .ok c := ⟨_, rfl⟩
  obtain ⟨c, hc⟩ := hcopy
  exact ⟨c, hc, ((timestampInts_inInt_iff hc).2 (by decide)).2⟩

end IoJournal
