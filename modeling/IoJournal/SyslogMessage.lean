import IoJournal.Wire.Syslog
import IoJournal.NonInterference
import IoJournal.Logger

/-!
# IoJournal.SyslogMessage

What `rfc5424Encode` writes is a message of the syslog grammar, and reading it back gives the level,
the instant, the name and the message of the event.

`rfc5424Message` is the message of the encoder's format string. The name is the only text of the
caller before the message, and after `sanitized` it holds no space, so it cannot move a field.
-/

namespace IoJournal

open Wire
open Syslog

/-! ## The application name -/

/-- The logger of the event, else that of the configuration, else the nil value. -/
def Event.appName (e : Event) (config : LoggerConfig) : Bytes :=
  if cstrBytes e.logger ≠ [] then cstrBytes e.logger
  else if cstrBytes config.loggerName ≠ [] then cstrBytes config.loggerName
  else nilValue

/-- At most 48 octets, with an underscore for what is not `PRINTUSASCII`. -/
def sanitized (raw : Bytes) : Bytes := (raw.take 48).map fun b => if isPrintUsAscii b then b else 0x5F

theorem syslogSanitizeAppName_eq (raw : Bytes) :
    syslogSanitizeAppName raw (rfc5424AppNameMax + 1) = sanitized raw := by
  have hlen : (if rfc5424AppNameMax < raw.length then rfc5424AppNameMax else raw.length) = min 48 raw.length := by
    unfold rfc5424AppNameMax
    split <;> omega
  have hroom : ¬ rfc5424AppNameMax + 1 ≤ min 48 raw.length := by
    unfold rfc5424AppNameMax
    omega
  simp only [syslogSanitizeAppName, hlen, if_neg hroom]
  rw [sanitized, ← List.take_eq_take_min]
  simp only [isPrintUsAscii, Bool.and_eq_true, decide_eq_true_eq]

theorem Event.appName_ne_nil (e : Event) (config : LoggerConfig) : e.appName config ≠ [] := by
  unfold Event.appName
  split
  · assumption
  · split
    · assumption
    · decide

theorem length_sanitized_pos {raw : Bytes} (h : raw ≠ []) : 1 ≤ (sanitized raw).length := by
  have := List.length_pos_of_ne_nil h
  rw [sanitized, List.length_map, List.length_take]
  omega

theorem length_sanitized_le (raw : Bytes) : (sanitized raw).length ≤ 48 := by
  rw [sanitized, List.length_map, List.length_take]
  omega

theorem sanitized_printable (raw : Bytes) : ∀ b ∈ sanitized raw, isPrintUsAscii b = true := by
  intro b hb
  obtain ⟨a, -, rfl⟩ := List.mem_map.1 hb
  split
  · assumption
  · rfl

/-! ## The message -/

section Message

variable {pri : Nat} (hpri : pri ≤ 191) {timestamp : Bytes} (htimestamp : IsTimestamp timestamp) {appName : Bytes}
  (happName : IsField 48 appName) {message : Bytes} (hmessage : Utf8.Valid message)

/-- `<pri>1 timestamp - name - - - message`. -/
def rfc5424Message : Message where
  prival := numeral pri
  version := numeral syslogRfc5424Version
  timestamp := timestamp
  hostname := nilValue
  appName := appName
  procid := nilValue
  msgid := nilValue
  structuredData := nilValue
  msg := if message = [] then none else some message
  prival_ok := isPrival_numeral hpri
  version_ok := ⟨49, [], by decide, rfl, by decide, by decide, by simp⟩
  timestamp_ok := htimestamp
  hostname_ok := .inl rfl
  appName_ok := happName
  procid_ok := .inl rfl
  msgid_ok := .inl rfl
  structuredData_ok := .inl rfl
  msg_ok := by
    intro t ht
    split at ht
    · cases ht
    · cases ht
      exact isMsg_of_utf8 hmessage

theorem text_rfc5424Message :
    (rfc5424Message hpri htimestamp happName hmessage).text = rfc5424Text pri timestamp appName message := by
  unfold rfc5424Text Message.text rfc5424Message
  by_cases hnil : message = []
  · simp [hnil, optionalMsg, nilValue, ascii]
  · simp [hnil, optionalMsg, nilValue, ascii]

end Message

/-! ## Recovery -/

theorem takeWhile_cstrBytes (s : Option CString) : (cstrBytes s).takeWhile (· != 0) = cstrBytes s := by
  refine List.takeWhile_eq_self_iff.2 fun b hb => ?_
  cases s with
  | none => cases hb
  | some s => exact bne_iff_ne.2 (s.noNul b hb)

theorem Event.record_appName (e : Event) (mode : Int) (config : LoggerConfig) :
    (e.record mode).appName config = e.appName config := by
  have hlogger : ((e.record mode).logger.getD []).takeWhile (· != 0) = cstrBytes e.logger := takeWhile_cstrBytes e.logger
  simp only [Record.appName, hlogger]
  rfl

theorem facility_of_validate {config : LoggerConfig} (h : validateLoggerConfig (some config) = .ok)
    (hsink : SinkKind.ofCode? config.sinkKind = some .syslog) : 0 ≤ config.syslogFacility ∧ config.syslogFacility ≤ 23 := by
  have hvalid : syslogFacilityIsValid config.syslogFacility = true := by
    by_contra hbad
    rw [Bool.not_eq_true] at hbad
    simp [validateLoggerConfig, hsink, hbad] at h
  simp only [syslogFacilityIsValid, Bool.or_eq_true, Bool.and_eq_true, decide_eq_true_eq] at hvalid
  omega

/-- The priority value of an accepted event: the facility does not wrap. -/
theorem Event.WellFormed.pri_eq {e : Event} (h : e.WellFormed) (mode : Int) {config : LoggerConfig}
    (h0 : 0 ≤ config.syslogFacility) (h23 : config.syslogFacility ≤ 23) :
    ∃ severity, syslogSeverityFromLevel e.level = some severity ∧ (e.record mode).pri config ≤ 191 ∧
      ((e.record mode).pri config : Int) = 8 * config.syslogFacility + severity := by
  obtain ⟨severity, hseverity, hle⟩ := syslogSeverityFromLevel_of_valid h.level
  have hpri : ((e.record mode).pri config : Int) = 8 * config.syslogFacility + severity := by
    rw [Record.pri, show (e.record mode).level = e.level from rfl, hseverity, Option.getD_some]
    omega
  exact ⟨severity, hseverity, by omega, hpri⟩

theorem Event.WellFormed.syslog_eq {e : Event} (h : e.WellFormed) {mode : Int} {config : LoggerConfig} {text : Bytes}
    (htext : (e.record mode).syslog config = some text) :
    e.timestamp.Formattable ∧ IsTimestamp e.timestamp.text ∧
      text = rfc5424Text ((e.record mode).pri config) e.timestamp.text (sanitized (e.appName config))
        (cstrBytes e.message) := by
  have hy : e.timestamp.Formattable := by
    by_contra hbad
    rw [Record.syslog, if_neg (show ¬ (e.record mode).timestamp.Formattable from hbad)] at htext
    cases htext
  have hns : e.timestamp.nanoseconds.toNat < 1000000000 := h.nanoseconds
  have hmessage : (e.record mode).message.takeWhile (· != 0) = cstrBytes e.message := takeWhile_cstrBytes e.message
  refine ⟨hy, isTimestamp_rfc3339 (Civil.ofUnix_valid _) hy.1 hy.2 (by omega), ?_⟩
  rw [Record.syslog, if_pos (show (e.record mode).timestamp.Formattable from hy), e.record_appName,
    syslogSanitizeAppName_eq, hmessage] at htext
  simp only [Option.ite_none_right_eq_some, Option.some.injEq] at htext
  exact htext.2.symm

/-- Whatever the encoder writes is one message of the grammar, derived in one way, and its parts are
the severity, the instant, the name and the message it was given. -/
theorem rfc5424Encode_conforms {cpu : Cpu} {heap : Heap} {e : Event} {mode : Int} {c : EventCopy}
    (hcopy : eventCopyFromInput cpu heap (some e) mode = .ok c) {config : LoggerConfig}
    (hconfig : validateLoggerConfig (some config) = .ok) (hsink : SinkKind.ofCode? config.sinkKind = some .syslog)
    {buffer : Bytes} (hok : (rfc5424Encode (some c) (some config) (some buffer)).status = .ok) :
    ∃ (m : Message) (severity : Nat), m.text = (rfc5424Encode (some c) (some config) (some buffer)).output ∧
      (∀ m' : Message, m'.text = (rfc5424Encode (some c) (some config) (some buffer)).output → m' = m) ∧
      syslogSeverityFromLevel e.level = some severity ∧
      (decimal m.prival : Int) = 8 * config.syslogFacility + severity ∧ decimal m.prival ≤ 191 ∧
      readRfc3339 m.timestamp = some (e.timestamp.unixSeconds.toInt, e.timestamp.nanoseconds.toNat / 1000000) ∧
      m.appName = sanitized (e.appName config) ∧ 1 ≤ m.appName.length ∧ m.appName.length ≤ 48 ∧
      (∀ b ∈ m.appName, isPrintUsAscii b = true) ∧
      m.version = ascii "1" ∧ m.hostname = nilValue ∧ m.procid = nilValue ∧ m.msgid = nilValue ∧
      m.structuredData = nilValue ∧
      m.msg = if cstrBytes e.message = [] then none else some (cstrBytes e.message) := by
  obtain ⟨hwf, hrep⟩ := eventCopyFromInput_represents hcopy
  have hvalid := hwf.record_valid mode
  have hpos : 0 < buffer.length := by
    by_contra hzero
    simp [rfc5424Encode, Nat.eq_zero_of_not_pos hzero] at hok
  obtain ⟨text, htext, -, -, hout⟩ :=
    (rfc5424Encode_encodes hrep hvalid.nanoseconds hvalid.level config hpos).output hok
  rw [hout]
  obtain ⟨hfac, hfac'⟩ := facility_of_validate hconfig hsink
  obtain ⟨severity, hseverity, hle, hpri⟩ := hwf.pri_eq mode hfac hfac'
  obtain ⟨hy, htimestamp, rfl⟩ := hwf.syslog_eq htext
  have happ : IsField 48 (sanitized (e.appName config)) :=
    .inr ⟨length_sanitized_pos (e.appName_ne_nil config), length_sanitized_le _, sanitized_printable _⟩
  have hmessage : Utf8.Valid (cstrBytes e.message) := by
    obtain ⟨s, hs, -, -, hutf8⟩ := hwf.message
    rw [hs]
    exact hutf8
  have hmtext := text_rfc5424Message hle htimestamp happ hmessage
  refine ⟨rfc5424Message hle htimestamp happ hmessage, severity, hmtext, fun m' hm' => ?_, hseverity, ?_, ?_, ?_,
    rfl, length_sanitized_pos (e.appName_ne_nil config), length_sanitized_le _, sanitized_printable _, ?_, rfl, rfl,
    rfl, rfl, rfl⟩
  · exact Message.text_inj rfl (hm'.trans hmtext.symm)
  · show (decimal (numeral _) : Int) = _
    rw [decimal_numeral, hpri]
  · show decimal (numeral _) ≤ 191
    rw [decimal_numeral]
    exact hle
  · exact Timestamp.readRfc3339_text hwf.nanoseconds hy
  · show numeral syslogRfc5424Version = ascii "1"
    decide

theorem rfc5424Encode_conforms_login :
    ∃ c, eventCopyFromInput scalarCpu zeroHeap (some loginEvent) redactionModeEnabled = .ok c ∧
      ∃ (m : Message) (severity : Nat),
        m.text = (rfc5424Encode (some c) (some syslogConfig) (some (List.replicate 256 0))).output ∧
        (∀ m' : Message,
          m'.text = (rfc5424Encode (some c) (some syslogConfig) (some (List.replicate 256 0))).output → m' = m) ∧
        syslogSeverityFromLevel loginEvent.level = some severity ∧
        (decimal m.prival : Int) = 8 * syslogConfig.syslogFacility + severity ∧ decimal m.prival ≤ 191 ∧
        readRfc3339 m.timestamp = some (1700000000, 123) ∧
        m.appName = sanitized (loginEvent.appName syslogConfig) ∧ 1 ≤ m.appName.length ∧ m.appName.length ≤ 48 ∧
        (∀ b ∈ m.appName, isPrintUsAscii b = true) ∧
        m.version = ascii "1" ∧ m.hostname = nilValue ∧ m.procid = nilValue ∧ m.msgid = nilValue ∧
        m.structuredData = nilValue ∧
        m.msg = if cstrBytes loginEvent.message = [] then none else some (cstrBytes loginEvent.message) :=
  ⟨(eventCopyFromInput scalarCpu zeroHeap (some loginEvent) redactionModeEnabled).toOption.get (by decide +kernel),
    by rfl, rfc5424Encode_conforms
      (show eventCopyFromInput scalarCpu zeroHeap (some loginEvent) redactionModeEnabled = .ok _ from rfl)
      (by decide) rfl (by decide +kernel)⟩

end IoJournal
