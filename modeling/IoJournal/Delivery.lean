import IoJournal.Logger
import IoJournal.NonInterference
import IoJournal.RotatingStore

/-!
# IoJournal.Delivery

What `IJ_STATUS_OK` means when `ij_logger_log` returns it.

An enabled event is reported as it should be: OK only after validation, with one whole record
handed to the sink. The level filter runs before validation and takes every level it does not know
for a level below the threshold, so a disabled event is OK without being looked at
(`loggerLog_law_iff`).
-/

namespace IoJournal

open Wire

/-! ## Loggers in use -/

/-- The loggers a caller can hold: made by `loggerInit`, used any number of times. -/
inductive Logger.Live : Logger → Prop where
  | init {os : InitOs} {config : Option LoggerConfig} {logger : Logger} :
      (loggerInit os config).logger = some logger → Logger.Live logger
  | log {logger : Logger} (cpu : Cpu) (g17 : Double → Bytes) (os : LogOs) (event : Option Event) :
      Logger.Live logger → Logger.Live (loggerLog cpu g17 os logger event).logger
  | flush {logger logger' : Logger} {answer : FlushAnswer} :
      Logger.Live logger → (loggerFlush answer (some logger)).logger = some logger' → Logger.Live logger'

/-- What a logger in use satisfies as long as it is not shut down. -/
structure Logger.Valid (logger : Logger) : Prop where
  active : logger.active = true
  minLevel : levelIsValid logger.config.minLevel = true

theorem validateLoggerConfig_minLevel {config : LoggerConfig} (h : validateLoggerConfig (some config) = .ok) :
    levelIsValid config.minLevel = true := by
  rw [validateLoggerConfig] at h
  split at h
  · cases h
  · rename_i hfields
    simp only [Bool.or_eq_true, Bool.not_eq_true', not_or, Bool.not_eq_false] at hfields
    exact hfields.1.1.1

theorem loggerInit_valid {os : InitOs} {config : Option LoggerConfig} {logger : Logger}
    (h : (loggerInit os config).logger = some logger) : logger.Valid := by
  obtain ⟨status, -, hinit⟩ | ⟨c, -, hvalid, hinit⟩ := loggerInit_cases os config
  · rw [hinit] at h
    cases h
  · rw [hinit] at h
    obtain ⟨-, hnone⟩ | ⟨-, fileSink, syslogSink, hsome⟩ := openSink_logger os (applyLoggerDefaults c)
    · rw [hnone] at h
      cases h
    · rw [hsome] at h
      cases h
      have hmin := validateLoggerConfig_minLevel hvalid
      exact ⟨rfl, hmin⟩

theorem deliver_config (cpu : Cpu) (g17 : Double → Bytes) (os : LogOs) (logger : Logger) (event : EventCopy) :
    (deliver cpu g17 os logger event).logger.config = logger.config ∧
      (deliver cpu g17 os logger event).logger.active = logger.active := by
  unfold deliver
  split
  · simp only
    split
    · exact ⟨rfl, rfl⟩
    · exact ⟨rfl, rfl⟩
  · simp only
    split
    · exact ⟨rfl, rfl⟩
    · exact ⟨rfl, rfl⟩
  · simp only
    split
    · exact ⟨rfl, rfl⟩
    · split
      · exact ⟨rfl, rfl⟩
      · exact ⟨rfl, rfl⟩
      · exact ⟨rfl, rfl⟩
  · exact ⟨rfl, rfl⟩

theorem loggerLog_config (cpu : Cpu) (g17 : Double → Bytes) (os : LogOs) (logger : Logger) (event : Option Event) :
    (loggerLog cpu g17 os logger event).logger.config = logger.config ∧
      (loggerLog cpu g17 os logger event).logger.active = logger.active := by
  cases event with
  | none => exact ⟨rfl, rfl⟩
  | some e =>
    simp only [loggerLog]
    split
    · exact ⟨rfl, rfl⟩
    · split
      · exact ⟨rfl, rfl⟩
      · split
        · exact ⟨rfl, rfl⟩
        · exact deliver_config cpu g17 os logger _

theorem loggerFlush_config {answer : FlushAnswer} {logger logger' : Logger}
    (h : (loggerFlush answer (some logger)).logger = some logger') :
    logger'.config = logger.config ∧ logger'.active = logger.active := by
  rw [loggerFlush] at h
  simp only at h
  split at h
  · cases h
    exact ⟨rfl, rfl⟩
  · split at h
    · cases h
      exact ⟨rfl, rfl⟩
    · cases h
      exact ⟨rfl, rfl⟩

theorem Logger.Live.valid {logger : Logger} (h : logger.Live) : logger.Valid := by
  induction h with
  | init hinit => exact loggerInit_valid hinit
  | log cpu g17 os event _ ih =>
    obtain ⟨hconfig, hactive⟩ := loggerLog_config cpu g17 os _ event
    exact ⟨hactive.trans ih.active, by rw [hconfig]; exact ih.minLevel⟩
  | flush _ hflush ih =>
    obtain ⟨hconfig, hactive⟩ := loggerFlush_config hflush
    exact ⟨hactive.trans ih.active, by rw [hconfig]; exact ih.minLevel⟩

/-! ## The record of a sink -/

/-- The encoder that `ij_logger_log` calls for a sink. -/
def encodeFor (cpu : Cpu) (g17 : Double → Bytes) (config : LoggerConfig) (stack : Stack) (event : EventCopy) :
    SinkKind → Encoded
  | .console => jsonConsoleEncode cpu g17 (some event) (some stack.bytes)
  | .file => ndjsonEncode cpu g17 (some event) (some stack.bytes)
  | .syslog => rfc5424Encode (some event) (some config) (some stack.bytes)

def Record.textFor (g17 : Double → Bytes) (config : LoggerConfig) (r : Record) : SinkKind → Option Bytes
  | .console => r.json g17
  | .file => (r.json g17).map (· ++ [0x0A])
  | .syslog => r.syslog config

theorem encodeFor_encodes (cpu : Cpu) (g17 : Double → Bytes) (config : LoggerConfig) (stack : Stack)
    {c : EventCopy} {r : Record} (h : c.Represents r) (hn : r.timestamp.nanoseconds < 1000000000)
    (hlevel : levelIsValid r.level = true) (kind : SinkKind) :
    Encodes (encodeFor cpu g17 config stack c kind) stack.bytes.length (r.textFor g17 config kind) := by
  cases kind with
  | console => exact jsonConsoleEncode_encodes cpu g17 h hn stack.bytes
  | file => exact ndjsonEncode_encodes cpu g17 h hn stack.bytes
  | syslog => exact rfc5424Encode_encodes h hn hlevel config (by rw [stack.size]; omega)

/-- The one call of the sink in `ij_logger_log`, for a text that was encoded. -/
def handOver (os : LogOs) (logger : Logger) (text : Bytes) : SinkKind → Logged
  | .console =>
    ⟨(consoleSinkWrite os.writev text).1, logger, (consoleSinkWrite os.writev text).2, [text]⟩
  | .file =>
    ⟨(fileSinkWrite os.file logger.fileSink text).status,
      { logger with fileSink := (fileSinkWrite os.file logger.fileSink text).state },
      (fileSinkWrite os.file logger.fileSink text).effects, [text]⟩
  | .syslog =>
    match SyslogTransport.ofCode? logger.config.syslogTransport with
    | some .udp =>
      ⟨(syslogUdpWrite os.sendto logger.syslogSink text).1, logger,
        (syslogUdpWrite os.sendto logger.syslogSink text).2, [text]⟩
    | some .tcp =>
      ⟨(syslogTcpWrite os.send logger.syslogSink text).1, logger,
        (syslogTcpWrite os.send logger.syslogSink text).2, [text]⟩
    | none => ⟨.sinkError, logger, [], []⟩

theorem deliver_eq (cpu : Cpu) (g17 : Double → Bytes) (os : LogOs) (logger : Logger) (copied : EventCopy)
    {kind : SinkKind} (hkind : SinkKind.ofCode? logger.config.sinkKind = some kind) :
    deliver cpu g17 os logger copied =
      if (encodeFor cpu g17 logger.config os.stack copied kind).status ≠ .ok then
        ⟨(encodeFor cpu g17 logger.config os.stack copied kind).status, logger, [], []⟩
      else handOver os logger (encodeFor cpu g17 logger.config os.stack copied kind).output kind := by
  cases kind with
  | console => simp only [deliver, hkind]; rfl
  | file => simp only [deliver, hkind]; rfl
  | syslog => simp only [deliver, hkind]; rfl

theorem handOver_handed {os : LogOs} {logger : Logger} {text : Bytes} {kind : SinkKind}
    (hok : (handOver os logger text kind).status = .ok) :
    (handOver os logger text kind).handed = [text] := by
  cases kind with
  | console => rfl
  | file => rfl
  | syslog =>
    simp only [handOver] at hok ⊢
    split at hok
    · rfl
    · rfl
    · cases hok

/-- Every exit of the switch with OK is that of the sink, which was given the encoder's output. -/
theorem deliver_ok {cpu : Cpu} {g17 : Double → Bytes} {os : LogOs} {logger : Logger} {event : EventCopy}
    (h : (deliver cpu g17 os logger event).status = .ok) :
    ∃ kind, SinkKind.ofCode? logger.config.sinkKind = some kind ∧
      (encodeFor cpu g17 logger.config os.stack event kind).status = .ok ∧
      deliver cpu g17 os logger event =
        handOver os logger (encodeFor cpu g17 logger.config os.stack event kind).output kind := by
  cases hkind : SinkKind.ofCode? logger.config.sinkKind with
  | none =>
    simp only [deliver, hkind] at h
    cases h
  | some kind =>
    have heq := deliver_eq cpu g17 os logger event hkind
    by_cases hencode : (encodeFor cpu g17 logger.config os.stack event kind).status = .ok
    · rw [if_neg (not_not.2 hencode)] at heq
      exact ⟨kind, rfl, hencode, heq⟩
    · rw [if_pos hencode] at heq
      rw [heq] at h
      exact absurd h hencode

/-! ## The meaning of OK -/

/-- The event is below the threshold, and the sink was left alone. -/
structure Filtered (logger : Logger) (e : Event) (r : Logged) : Prop where
  level : levelIsValid e.level = true
  below : e.level < logger.config.minLevel
  handed : r.handed = []
  effects : r.effects = []
  logger : r.logger = logger

/-- The event passes validation, and all that the call did after encoding its redacted copy was to give the
encoder's output to the sink: one record, whole. -/
structure Delivered (cpu : Cpu) (g17 : Double → Bytes) (os : LogOs) (logger : Logger) (e : Event) (r : Logged) :
    Prop where
  valid : validateEvent cpu (some e) = .ok
  record : ∃ kind copied, SinkKind.ofCode? logger.config.sinkKind = some kind ∧
    eventCopyFromInput cpu os.heap (some e) logger.config.redactionMode = .ok copied ∧
    (encodeFor cpu g17 logger.config os.stack copied kind).status = .ok ∧
    r = handOver os logger (encodeFor cpu g17 logger.config os.stack copied kind).output kind ∧
    r.handed = [(encodeFor cpu g17 logger.config os.stack copied kind).output] ∧
    (e.record logger.config.redactionMode).textFor g17 logger.config kind =
      some (encodeFor cpu g17 logger.config os.stack copied kind).output

/-- What the status OK of `loggerLog` is to mean. -/
structure DeliveryLaw (cpu : Cpu) (g17 : Double → Bytes) (os : LogOs) (logger : Logger) (e : Event) (r : Logged) :
    Prop where
  outcome : r.status = .ok → Filtered logger e r ∨ Delivered cpu g17 os logger e r
  contract : r.status = .ok → validateEvent cpu (some e) = .ok

theorem levelIsEnabled_iff {minLevel level : Int} (h : levelIsValid minLevel = true) :
    levelIsEnabled minLevel level = true ↔ levelIsValid level = true ∧ minLevel ≤ level := by
  rw [levelIsEnabled, h]
  simp only [Bool.true_and, Bool.and_eq_true, decide_eq_true_eq]

theorem loggerLog_disabled {logger : Logger} {e : Event} (cpu : Cpu) (g17 : Double → Bytes) (os : LogOs)
    (hactive : logger.active = true) (h : levelIsEnabled logger.config.minLevel e.level = false) :
    loggerLog cpu g17 os logger (some e) = ⟨.ok, logger, [], []⟩ := by
  simp only [loggerLog, hactive, h, Bool.not_true, Bool.not_false, if_true, Bool.false_eq_true, if_false]

theorem loggerLog_enabled {logger : Logger} {e : Event} (cpu : Cpu) (g17 : Double → Bytes) (os : LogOs)
    (h : levelIsEnabled logger.config.minLevel e.level = true)
    (hok : (loggerLog cpu g17 os logger (some e)).status = .ok) :
    Delivered cpu g17 os logger e (loggerLog cpu g17 os logger (some e)) := by
  simp only [loggerLog, h, Bool.not_true, Bool.false_eq_true, if_false] at hok ⊢
  cases hactive : logger.active with
  | false => rw [hactive] at hok; cases hok
  | true =>
    simp only [hactive, Bool.not_true, Bool.false_eq_true, if_false] at hok ⊢
    cases hcopy : eventCopyFromInput cpu os.heap (some e) logger.config.redactionMode with
    | error status =>
      simp only [hcopy] at hok
      exact absurd hok (eventCopyFromInput_error hcopy)
    | ok copied =>
      simp only [hcopy] at hok ⊢
      obtain ⟨hwf, hrep⟩ := eventCopyFromInput_represents hcopy
      obtain ⟨kind, hkind, hencode, hcall⟩ := deliver_ok hok
      rw [hcall] at hok
      have hencodes := encodeFor_encodes cpu g17 logger.config os.stack hrep hwf.nanoseconds hwf.level kind
      obtain ⟨text, htext, -, -, rfl⟩ := hencodes.output hencode
      have hhanded := handOver_handed hok
      rw [← hcall] at hhanded
      exact ⟨(validateEvent_iff cpu e).2 hwf, kind, copied, hkind, hcopy, hencode, hcall, hhanded, htext⟩

/-- A logger in use keeps the law exactly for the events whose level is a level, and that are
either enabled or valid. -/
theorem loggerLog_law_iff (cpu : Cpu) (g17 : Double → Bytes) (os : LogOs) (logger : Logger) (hlive : logger.Live)
    (e : Event) :
    DeliveryLaw cpu g17 os logger e (loggerLog cpu g17 os logger (some e)) ↔
      levelIsValid e.level = true ∧
        (logger.config.minLevel ≤ e.level ∨ validateEvent cpu (some e) = .ok) := by
  obtain ⟨hactive, hmin⟩ := hlive.valid
  cases henabled : levelIsEnabled logger.config.minLevel e.level with
  | true =>
    obtain ⟨hlevel, hle⟩ := (levelIsEnabled_iff hmin).1 henabled
    refine ⟨fun _ => ⟨hlevel, .inl hle⟩, fun _ => ⟨fun hok => ?_, fun hok => ?_⟩⟩
    · exact .inr (loggerLog_enabled cpu g17 os henabled hok)
    · exact (loggerLog_enabled cpu g17 os henabled hok).valid
  | false =>
    have hdisabled : ¬ (levelIsValid e.level = true ∧ logger.config.minLevel ≤ e.level) := by
      rw [← levelIsEnabled_iff hmin, henabled]
      exact Bool.false_ne_true
    rw [loggerLog_disabled cpu g17 os hactive henabled]
    constructor
    · intro hlaw
      have hvalid := hlaw.contract rfl
      exact ⟨((validateEvent_iff cpu e).1 hvalid).level, .inr hvalid⟩
    · rintro ⟨hlevel, hle | hvalid⟩
      · exact absurd ⟨hlevel, hle⟩ hdisabled
      · refine ⟨fun _ => .inl ⟨hlevel, ?_, rfl, rfl, rfl⟩, fun _ => hvalid⟩
        by_contra hle
        exact hdisabled ⟨hlevel, by omega⟩

def steadyInit : InitOs := ⟨true, true, true, steadyOpen 0, some [⟨some 3, true, 16⟩]⟩

/-- Answers with which everything succeeds, for a text of `len` octets. -/
def steadyLog (len : Nat) : LogOs where
  heap := zeroHeap
  stack := ⟨List.replicate 8192 0, List.length_replicate⟩
  writev := [len + 1]
  file := steadyOs 0 len
  sendto := len
  send := [len + 1, len + 1]

def consoleConfig : LoggerConfig := { syslogConfig with sinkKind := 0 }

def consoleLogger : Logger := applyLoggerDefaults consoleConfig

theorem consoleLogger_live : consoleLogger.Live :=
  @Logger.Live.init steadyInit (some consoleConfig) consoleLogger rfl

theorem loggerLog_law_iff_login :
    consoleLogger.Live ∧ DeliveryLaw scalarCpu printHalf (steadyLog 0) consoleLogger loginEvent
      (loggerLog scalarCpu printHalf (steadyLog 0) consoleLogger (some loginEvent)) :=
  ⟨consoleLogger_live, (loggerLog_law_iff scalarCpu printHalf (steadyLog 0) consoleLogger consoleLogger_live
    loginEvent).2 ⟨by decide, .inl (by decide)⟩⟩

/-- An event with level 99 is reported OK, and is neither a valid event nor one below the threshold. -/
theorem not_deliveryLaw_unknown_level :
    consoleLogger.Live ∧
      (loggerLog scalarCpu printHalf (steadyLog 0) consoleLogger (some { loginEvent with level := 99 })).status = .ok ∧
      validateEvent scalarCpu (some { loginEvent with level := 99 }) = .invalidArgument ∧
      ¬ DeliveryLaw scalarCpu printHalf (steadyLog 0) consoleLogger { loginEvent with level := 99 }
        (loggerLog scalarCpu printHalf (steadyLog 0) consoleLogger (some { loginEvent with level := 99 })) := by
  refine ⟨consoleLogger_live, rfl, rfl, fun hlaw => ?_⟩
  rcases hlaw.outcome rfl with hfiltered | hdelivered
  · exact absurd hfiltered.level (by decide)
  · exact absurd hdelivered.valid nofun

end IoJournal
