import IoJournal.Wire.Bytes

/-!
# IoJournal.Types

The data types of the public header and of `ij_internal.h`, as the C code has them.

An enum field of a caller's structure can hold any `int`, so it is an `Int` here; the enumerators
are the inductive types, and `ofCode?` says which of them, if any, a field holds. A pointer to a
NUL-terminated string is an `Option CString`; a `CString` carries the proof that the octets before
the terminator are not NUL.
-/

namespace IoJournal

open Wire

inductive Status where
  | ok
  | invalidArgument
  | invalidState
  | queueFull
  | encodeError
  | sinkError
  | internalError
  deriving DecidableEq, Repr

inductive Level where
  | trace
  | debug
  | info
  | warn
  | error
  | fatal
  deriving DecidableEq, Repr

def Level.ofCode? (code : Int) : Option Level :=
  if code = 0 then some .trace
  else if code = 1 then some .debug
  else if code = 2 then some .info
  else if code = 3 then some .warn
  else if code = 4 then some .error
  else if code = 5 then some .fatal
  else none

inductive SinkKind where
  | console
  | file
  | syslog
  deriving DecidableEq, Repr

def SinkKind.ofCode? (code : Int) : Option SinkKind :=
  if code = 0 then some .console
  else if code = 1 then some .file
  else if code = 2 then some .syslog
  else none

inductive SyslogTransport where
  | udp
  | tcp
  deriving DecidableEq, Repr

def SyslogTransport.ofCode? (code : Int) : Option SyslogTransport :=
  if code = 0 then some .udp
  else if code = 1 then some .tcp
  else none

inductive FileBackend where
  | auto
  | sync
  | ioUring
  deriving DecidableEq, Repr

def FileBackend.ofCode? (code : Int) : Option FileBackend :=
  if code = 0 then some .auto
  else if code = 1 then some .sync
  else if code = 2 then some .ioUring
  else none

/-- `IJ_REDACTION_MODE_ENABLED`. -/
def redactionModeEnabled : Int := 1

/-- `IJ_REDACTION_MODE_DISABLED`. -/
def redactionModeDisabled : Int := 0

/-! ## Limits -/

def traceIdSize : Nat := 16
def spanIdSize : Nat := 8
def eventNameMaxLen : Nat := 64
def loggerNameMaxLen : Nat := 64
def attributeKeyMaxLen : Nat := 64
def attributeStringMaxLen : Nat := 512
def attributeCountMax : Nat := 32
def messageMaxLen : Nat := 2048
def eventTextMaxLen : Nat := 4096
def queueCapacityMin : Nat := 256
def queueCapacityDefault : Nat := 1024
def queueCapacityMax : Nat := 65536
def syslogUdpTargetMax : Nat := 2048
def syslogRfc5424Version : Nat := 1

/-- `IJ_REDACTED_LITERAL`. -/
def redactedLiteral : Bytes := ascii "[REDACTED]"

/-! ## The caller's event -/

/-- The octets of a C string before its terminator. -/
structure CString where
  bytes : Bytes
  noNul : ∀ b ∈ bytes, b ≠ 0
  deriving DecidableEq

/-- `strnlen(value, n)`. -/
def CString.strnlen (s : CString) (n : Nat) : Nat := min s.bytes.length n

/-- A `double`, by its bits. -/
structure Double where
  bits : UInt64
  deriving DecidableEq, Repr

/-- `isfinite`: the exponent field is not all ones. -/
def Double.isFinite (d : Double) : Bool := (d.bits >>> 52) &&& 0x7FF != 0x7FF

structure Timestamp where
  unixSeconds : Int64
  nanoseconds : UInt32
  deriving DecidableEq

/-- `ij_attr_value_t`. A string is its pointer with the `len` octets it points to; `other` is a
`kind` field that holds none of the five enumerators. -/
inductive AttrValue where
  | string (data : Option Bytes)
  | signed (v : Int64)
  | unsigned (v : UInt64)
  | bool (v : Bool)
  | double (v : Double)
  | other (kind : Int)
  deriving DecidableEq

structure Attr where
  key : Option CString
  value : AttrValue
  deriving DecidableEq

/-- `attributes` and `attribute_count`: no array with any count, or an array of that many. -/
inductive AttrArray where
  | null (count : Nat)
  | array (attrs : List Attr)
  deriving DecidableEq

def AttrArray.count : AttrArray → Nat
  | .null n => n
  | .array as => as.length

def AttrArray.isNull : AttrArray → Bool
  | .null _ => true
  | .array _ => false

/-- The attributes a loop over `attribute_count` visits. -/
def AttrArray.toList : AttrArray → List Attr
  | .null _ => []
  | .array as => as

/-- `ij_event_t`. -/
structure Event where
  timestamp : Timestamp
  level : Int
  eventName : Option CString
  message : Option CString
  logger : Option CString
  attributes : AttrArray
  traceId : Option (Vector UInt8 traceIdSize)
  spanId : Option (Vector UInt8 spanIdSize)
  traceFlags : UInt8
  hasTraceContext : Bool
  sourceFile : Option CString
  sourceLine : UInt32
  sourceFunction : Option CString
  deriving DecidableEq

/-- `ij_logger_config_t`. -/
structure LoggerConfig where
  minLevel : Int
  sinkKind : Int
  redactionMode : Int
  queueCapacity : Nat
  loggerName : Option CString
  filePath : Option CString
  fileRotateBytes : Nat
  fileRotateIntervalSeconds : Nat
  fileRetentionFiles : Nat
  fileBackend : Int
  syslogHost : Option CString
  syslogPort : UInt16
  syslogTransport : Int
  syslogFacility : Int

/-! ## Enum predicates -/

def levelIsValid (level : Int) : Bool := 0 ≤ level && level ≤ 5

def sinkKindIsValid (kind : Int) : Bool := 0 ≤ kind && kind ≤ 2

def syslogTransportIsValid (transport : Int) : Bool := transport == 0 || transport == 1

def syslogFacilityIsValid (facility : Int) : Bool :=
  0 ≤ facility && facility ≤ 11 || 16 ≤ facility && facility ≤ 23

def redactionModeIsValid (mode : Int) : Bool := mode == 0 || mode == 1

def fileBackendIsValid (backend : Int) : Bool := backend == 0 || backend == 1 || backend == 2

/-- `ij_level_is_enabled`. -/
def levelIsEnabled (minLevel eventLevel : Int) : Bool :=
  levelIsValid minLevel && levelIsValid eventLevel && minLevel ≤ eventLevel

theorem levelIsValid_iff (level : Int) : levelIsValid level = true ↔ ∃ l, Level.ofCode? level = some l := by
  simp only [levelIsValid, Level.ofCode?, Bool.and_eq_true, decide_eq_true_eq]
  constructor
  · rintro ⟨h0, h5⟩
    obtain rfl | rfl | rfl | rfl | rfl | rfl : level = 0 ∨ level = 1 ∨ level = 2 ∨ level = 3 ∨ level = 4 ∨
      level = 5 := by omega
    all_goals exact ⟨_, rfl⟩
  · rintro ⟨l, h⟩
    repeat' split at h
    all_goals first | omega | cases h

end IoJournal
