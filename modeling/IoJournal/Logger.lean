import IoJournal.NetSinks
import IoJournal.EncodeText

/-!
# IoJournal.Logger

The logger of `core/ij_logger.c`: configuration, lifecycle, and the path of one event from the
caller to its sink.

`ij_logger_log` does not use the ring that `ij_logger_init` creates, so the model keeps only whether
its creation succeeds.
-/

namespace IoJournal

open Wire Posix

/-! ## Configuration -/

/-- `ij_is_power_of_two`. -/
def isPowerOfTwo (value : Nat) : Bool := value != 0 && value &&& (value - 1) == 0

/-- `ij_validate_logger_config`. -/
def validateLoggerConfig (config : Option LoggerConfig) : Status :=
  match config with
  | none => .invalidArgument
  | some c =>
    if !levelIsValid c.minLevel || !sinkKindIsValid c.sinkKind || !redactionModeIsValid c.redactionMode ||
        !fileBackendIsValid c.fileBackend then .invalidArgument
    else if c.queueCapacity ≠ 0 ∧ (c.queueCapacity < queueCapacityMin ∨ queueCapacityMax < c.queueCapacity ∨
        isPowerOfTwo c.queueCapacity = false) then .invalidArgument
    else if SinkKind.ofCode? c.sinkKind = some .file ∧ (c.filePath.map (·.bytes)).getD [] = [] then .invalidArgument
    else if SinkKind.ofCode? c.sinkKind = some .syslog ∧ (syslogTransportIsValid c.syslogTransport = false ∨
        syslogFacilityIsValid c.syslogFacility = false ∨ (c.syslogHost.map (·.bytes)).getD [] = [] ∨
        c.syslogPort = 0) then .invalidArgument
    else .ok

/-- `struct ij_logger`, without the ring. -/
structure Logger where
  config : LoggerConfig
  active : Bool
  fileSink : FileSink
  syslogSink : SyslogSink

/-- `ij_apply_logger_defaults` on a zeroed logger. -/
def applyLoggerDefaults (config : LoggerConfig) : Logger where
  config := { config with
    queueCapacity := if config.queueCapacity = 0 then queueCapacityDefault else config.queueCapacity }
  active := true
  fileSink := .zero
  syslogSink := .zero

/-- `ij_ring_init`; `memory` says whether its allocations and the mutex succeed. -/
def ringInit (memory : Bool) (capacity : Nat) : Status :=
  if capacity < queueCapacityMin ∨ queueCapacityMax < capacity ∨ capacity &&& (capacity - 1) ≠ 0 then .invalidArgument
  else if memory then .ok else .internalError

/-! ## Lifecycle -/

/-- The answers of `ij_logger_init`: the allocation of the logger and of its strings, the ring, and
the calls of the sink. -/
structure InitOs where
  logger : Bool
  strings : Bool
  ring : Bool
  file : OpenOs
  getaddrinfo : Option (List AddressAnswer)

structure LoggerOut where
  status : Status
  logger : Option Logger
  effects : List Effect

/-- The choice of a transport in `ij_logger_init`. -/
def openSyslogSink (os : InitOs) (logger : Logger) : Out SyslogSink :=
  match SyslogTransport.ofCode? logger.config.syslogTransport with
  | some .udp => syslogUdpOpen os.getaddrinfo logger.config.syslogHost
  | some .tcp => syslogTcpOpen os.getaddrinfo logger.config.syslogHost
  | none => ⟨.sinkError, logger.syslogSink, []⟩

/-- The part of `ij_logger_init` that opens the sink. -/
def openSink (os : InitOs) (logger : Logger) : LoggerOut :=
  match SinkKind.ofCode? logger.config.sinkKind with
  | some .file =>
    let out := fileSinkOpen os.file { logger.fileSink with requestedBackend := logger.config.fileBackend }
      (logger.config.filePath.map (·.bytes))
    if out.status ≠ .ok then ⟨out.status, none, out.effects⟩
    else
      ⟨.ok, some { logger with fileSink := { out.state with
          rotateBytes := logger.config.fileRotateBytes
          rotateIntervalSeconds := logger.config.fileRotateIntervalSeconds
          retentionFiles := logger.config.fileRetentionFiles } }, out.effects⟩
  | some .syslog =>
    let out := openSyslogSink os logger
    if out.status ≠ .ok then ⟨out.status, none, out.effects⟩
    else ⟨.ok, some { logger with syslogSink := out.state }, out.effects⟩
  | _ => ⟨.ok, some logger, []⟩

/-- `ij_logger_init`, with a place for the logger. -/
def loggerInit (os : InitOs) (config : Option LoggerConfig) : LoggerOut :=
  if validateLoggerConfig config ≠ .ok then ⟨validateLoggerConfig config, none, []⟩
  else
    match config with
    | none => ⟨.invalidArgument, none, []⟩
    | some config =>
      if !os.logger then ⟨.internalError, none, []⟩
      else
        let logger := applyLoggerDefaults config
        if (config.loggerName.isSome || config.syslogHost.isSome) && !os.strings then ⟨.internalError, none, []⟩
        else if ringInit os.ring logger.config.queueCapacity ≠ .ok then
          ⟨ringInit os.ring logger.config.queueCapacity, none, []⟩
        else openSink os logger

/-- `ij_logger_init` fails before it reaches the sink, or ends as the opening of the sink does. -/
theorem loggerInit_cases (os : InitOs) (config : Option LoggerConfig) :
    (∃ status, status ≠ .ok ∧ loggerInit os config = ⟨status, none, []⟩) ∨
      ∃ c, config = some c ∧ validateLoggerConfig (some c) = .ok ∧
        loggerInit os config = openSink os (applyLoggerDefaults c) := by
  unfold loggerInit
  split
  · rename_i hinvalid
    exact .inl ⟨_, hinvalid, rfl⟩
  · rename_i hvalid
    rw [not_not] at hvalid
    cases config with
    | none => cases hvalid
    | some c =>
      simp only
      split
      · exact .inl ⟨.internalError, nofun, rfl⟩
      · split
        · exact .inl ⟨.internalError, nofun, rfl⟩
        · split
          · rename_i hring
            exact .inl ⟨_, hring, rfl⟩
          · exact .inr ⟨c, rfl, hvalid, rfl⟩

theorem openSink_logger (os : InitOs) (logger : Logger) :
    ((openSink os logger).status ≠ .ok ∧ (openSink os logger).logger = none) ∨
      ((openSink os logger).status = .ok ∧ ∃ fileSink syslogSink,
        (openSink os logger).logger = some { logger with fileSink := fileSink, syslogSink := syslogSink }) := by
  unfold openSink
  split
  · simp only
    split
    · rename_i hfailed
      exact .inl ⟨hfailed, rfl⟩
    · exact .inr ⟨rfl, _, _, rfl⟩
  · simp only
    split
    · rename_i hfailed
      exact .inl ⟨hfailed, rfl⟩
    · exact .inr ⟨rfl, _, _, rfl⟩
  · exact .inr ⟨rfl, _, _, rfl⟩

/-- `ij_logger_shutdown`; the logger is freed. -/
def loggerShutdown (close : CloseAnswer) (logger : Option Logger) : LoggerOut :=
  match logger with
  | none => ⟨.ok, none, []⟩
  | some logger =>
    if !logger.active then ⟨.invalidState, some logger, []⟩
    else ⟨.ok, none, (fileSinkClose close logger.fileSink).2 ++ (syslogSinkClose logger.syslogSink).2⟩

/-- `ij_logger_flush`. -/
def loggerFlush (answer : FlushAnswer) (logger : Option Logger) : LoggerOut :=
  match logger with
  | none => ⟨.invalidArgument, none, []⟩
  | some logger =>
    if !logger.active then ⟨.invalidState, some logger, []⟩
    else if SinkKind.ofCode? logger.config.sinkKind = some .file then
      let out := fileSinkFlush answer logger.fileSink
      ⟨out.status, some { logger with fileSink := out.state }, out.effects⟩
    else ⟨.ok, some logger, []⟩

/-! ## Logging -/

/-- `char payload[8192]`, whatever it holds. -/
structure Stack where
  bytes : Bytes
  size : bytes.length = 8192

/-- The answers of one `ij_logger_log`. -/
structure LogOs where
  heap : Heap
  stack : Stack
  writev : List Int
  file : WriteOs
  sendto : Int
  send : List Int

/-- The result of `ij_logger_log`, with the payloads that were handed to the sink. -/
structure Logged where
  status : Status
  logger : Logger
  effects : List Effect
  handed : List Bytes

/-- The switch of `ij_logger_log`. -/
def deliver (cpu : Cpu) (g17 : Double → Bytes) (os : LogOs) (logger : Logger) (event : EventCopy) : Logged :=
  match SinkKind.ofCode? logger.config.sinkKind with
  | some .console =>
    let encoded := jsonConsoleEncode cpu g17 (some event) (some os.stack.bytes)
    if encoded.status ≠ .ok then ⟨encoded.status, logger, [], []⟩
    else
      let (status, effects) := consoleSinkWrite os.writev encoded.output
      ⟨status, logger, effects, [encoded.output]⟩
  | some .file =>
    let encoded := ndjsonEncode cpu g17 (some event) (some os.stack.bytes)
    if encoded.status ≠ .ok then ⟨encoded.status, logger, [], []⟩
    else
      let out := fileSinkWrite os.file logger.fileSink encoded.output
      ⟨out.status, { logger with fileSink := out.state }, out.effects, [encoded.output]⟩
  | some .syslog =>
    let encoded := rfc5424Encode (some event) (some logger.config) (some os.stack.bytes)
    if encoded.status ≠ .ok then ⟨encoded.status, logger, [], []⟩
    else
      match SyslogTransport.ofCode? logger.config.syslogTransport with
      | some .udp =>
        let (status, effects) := syslogUdpWrite os.sendto logger.syslogSink encoded.output
        ⟨status, logger, effects, [encoded.output]⟩
      | some .tcp =>
        let (status, effects) := syslogTcpWrite os.send logger.syslogSink encoded.output
        ⟨status, logger, effects, [encoded.output]⟩
      | none => ⟨.sinkError, logger, [], []⟩
  | none => ⟨.invalidArgument, logger, [], []⟩

/-- `ij_logger_log` on a logger that is not NULL. -/
def loggerLog (cpu : Cpu) (g17 : Double → Bytes) (os : LogOs) (logger : Logger) (event : Option Event) : Logged :=
  match event with
  | none => ⟨.invalidArgument, logger, [], []⟩
  | some e =>
    if !logger.active then ⟨.invalidState, logger, [], []⟩
    else if !levelIsEnabled logger.config.minLevel e.level then ⟨.ok, logger, [], []⟩
    else
      match eventCopyFromInput cpu os.heap (some e) logger.config.redactionMode with
      | .error status => ⟨status, logger, [], []⟩
      | .ok copied => deliver cpu g17 os logger copied

end IoJournal
