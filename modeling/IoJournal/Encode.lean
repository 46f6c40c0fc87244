import IoJournal.Builder
import IoJournal.Event
import IoJournal.Timestamp

/-!
# IoJournal.Encode

The three encoders: `encoders/ij_json_console.c`, `encoders/ij_ndjson.c` and
`encoders/ij_rfc5424.c`.

The parameter `g17` is `snprintf` with `"%.17g"` in the C locale. An encoder is given the contents
of its buffer, whose length is `buffer_size`; an `outLen` of `none` means that `*out_len` was not
written.
-/

namespace IoJournal

open Wire

structure Encoded where
  status : Status
  buffer : Buffer
  outLen : Option Nat

def Encoded.output (r : Encoded) : Bytes := r.buffer.read 0 (r.outLen.getD 0)

/-! ## JSON -/

def OwnedString.bytes (m : Buffer) (s : OwnedString) : Bytes :=
  match s.data with
  | none => []
  | some off => m.read off s.len

def levelToJsonLiteral (level : Int) : Bytes :=
  match Level.ofCode? level with
  | some .trace => ascii "\"trace\""
  | some .debug => ascii "\"debug\""
  | some .info => ascii "\"info\""
  | some .warn => ascii "\"warn\""
  | some .error => ascii "\"error\""
  | some .fatal => ascii "\"fatal\""
  | none => ascii "\"unknown\""

/-- `ij_builder_append_raw`: the text up to its terminator. -/
def appendRaw (text : Bytes) : Append := appendRawN (text.takeWhile (· != 0))

def appendAttrValue (cpu : Cpu) (g17 : Double → Bytes) (m : Buffer) (value : OwnedAttrValue) : Append :=
  match value with
  | .string s => appendJsonStringKnownEscape cpu (s.bytes m) s.needsJsonEscape
  | .signed v => appendInt64Decimal v
  | .unsigned v => appendUint64Decimal v
  | .bool v => if v then appendRawN (ascii "true") else appendRawN (ascii "false")
  | .double v => if 64 ≤ (g17 v).length then fun b => (.encodeError, b) else appendRaw (g17 v)

/-- The attribute loop; `first` is `i == 0`. -/
def appendAttrs (cpu : Cpu) (g17 : Double → Bytes) (m : Buffer) : Bool → List OwnedAttr → List Append
  | _, [] => []
  | first, a :: rest =>
    (if first then [] else [appendChar 0x2C]) ++
      (appendJsonKeyKnownEscape cpu (a.key.bytes m) a.key.needsJsonEscape ::
        appendAttrValue cpu g17 m a.value :: appendAttrs cpu g17 m false rest)

/-- The appends of the encoder after the timestamp was formatted as `timestamp`. -/
def jsonAppends (cpu : Cpu) (g17 : Double → Bytes) (event : EventCopy) (timestamp : Bytes) : List Append :=
  [appendRawN (ascii "\x7b\"timestamp\":\""),
    appendRawN timestamp,
    appendRawN (ascii "\",\"level\":"),
    appendRawN (levelToJsonLiteral event.level),
    appendRawN (ascii ",\"event_name\":"),
    appendJsonStringKnownEscape cpu (event.eventName.bytes event.textArena) event.eventName.needsJsonEscape,
    appendRawN (ascii ",\"message\":"),
    appendJsonStringKnownEscape cpu (event.message.bytes event.textArena) event.message.needsJsonEscape] ++
  (if event.loggerName.data.isSome then
    [appendRawN (ascii ",\"logger\":"),
      appendJsonStringKnownEscape cpu (event.loggerName.bytes event.textArena) event.loggerName.needsJsonEscape]
  else []) ++
  (if 0 < event.attributes.length then
    appendRawN (ascii ",\"attributes\":\x7b") :: appendAttrs cpu g17 event.textArena true event.attributes ++
      [appendChar 0x7D]
  else []) ++
  [appendChar 0x7D]

/-- `char timestamp[32]`, before anything is written to it. -/
def timestampBuffer : Buffer := .fresh (List.replicate 32 0)

/-- `ij_json_console_encode`. -/
def jsonConsoleEncode (cpu : Cpu) (g17 : Double → Bytes) (event : Option EventCopy) (buffer : Option Bytes) :
    Encoded :=
  match event, buffer with
  | some event, some bytes =>
    let builder : Builder := ⟨(Buffer.fresh bytes).store 0 0, bytes.length, 0⟩
    match formatTimestampRfc3339 event.timestamp timestampBuffer with
    | (.ok, timestamp) =>
      match chain (jsonAppends cpu g17 event (timestamp.read 0 24)) builder with
      | (.ok, builder) => ⟨.ok, builder.buffer, some builder.length⟩
      | (_, builder) => ⟨.encodeError, builder.buffer, none⟩
    | (_, _) => ⟨.encodeError, builder.buffer, none⟩
  | _, _ => ⟨.invalidArgument, .fresh (buffer.getD []), none⟩

/-- `ij_ndjson_encode`. -/
def ndjsonEncode (cpu : Cpu) (g17 : Double → Bytes) (event : Option EventCopy) (buffer : Option Bytes) : Encoded :=
  match buffer with
  | none => ⟨.invalidArgument, .fresh [], none⟩
  | some bytes =>
    match jsonConsoleEncode cpu g17 event (some bytes) with
    | ⟨.ok, m, jsonLen⟩ =>
      let jsonLen := jsonLen.getD 0
      if bytes.length < jsonLen + 2 then ⟨.encodeError, m, none⟩
      else ⟨.ok, (m.store jsonLen 0x0A).store (jsonLen + 1) 0, some (jsonLen + 1)⟩
    | ⟨status, m, _⟩ => ⟨status, m, none⟩

/-! ## RFC 5424 -/

/-- `ij_syslog_severity_from_level`; `none` is -1. -/
def syslogSeverityFromLevel (level : Int) : Option Nat :=
  match Level.ofCode? level with
  | some .fatal => some 2
  | some .error => some 3
  | some .warn => some 4
  | some .info => some 6
  | some .debug | some .trace => some 7
  | none => none

def syslogAppName (event : EventCopy) (config : LoggerConfig) : Bytes :=
  let logger := (event.loggerName.data.map event.textArena.cstr).getD []
  if logger ≠ [] then logger
  else
    let name := (config.loggerName.map (·.bytes)).getD []
    if name ≠ [] then name else ascii "-"

def rfc5424AppNameMax : Nat := 48

/-- `ij_syslog_sanitize_app_name`: the name written to `out`, whose size is `outSize`. -/
def syslogSanitizeAppName (raw : Bytes) (outSize : Nat) : Bytes :=
  let rawLen := if rfc5424AppNameMax < raw.length then rfc5424AppNameMax else raw.length
  let rawLen := if outSize ≤ rawLen then outSize - 1 else rawLen
  (raw.take rawLen).map fun c => if 33 ≤ c ∧ c ≤ 126 then c else 0x5F

/-- `snprintf` into a buffer of that size: the text is cut to leave room for the terminator; the
result is the whole length, negative when it does not fit an `int`. -/
def snprintf (buffer : Buffer) (text : Bytes) : Int × Buffer :=
  (if text.length ≤ 2147483647 then text.length else -1,
    if buffer.size = 0 then buffer else buffer.copy 0 (text.take (buffer.size - 1) ++ [0]))

/-- The format of `ij_rfc5424_encode` with its arguments put in. -/
def rfc5424Text (pri : Nat) (timestamp appName message : Bytes) : Bytes :=
  ascii "<" ++ numeral pri ++ ascii ">" ++ numeral syslogRfc5424Version ++ ascii " " ++ timestamp ++ ascii " - " ++
    appName ++ ascii " - - -" ++ (if message = [] then [] else ascii " " ++ message)

/-- `ij_rfc5424_encode`. -/
def rfc5424Encode (event : Option EventCopy) (config : Option LoggerConfig) (buffer : Option Bytes) : Encoded :=
  match event, config, buffer with
  | some event, some config, some bytes =>
    if bytes.length = 0 then ⟨.invalidArgument, .fresh bytes, none⟩
    else
      match syslogSeverityFromLevel event.level with
      | none => ⟨.invalidArgument, .fresh bytes, none⟩
      | some severity =>
        match formatTimestampRfc3339 event.timestamp timestampBuffer with
        | (.ok, timestamp) =>
          let pri := ((config.syslogFacility % 4294967296).toNat * 8 + severity) % 4294967296
          let appName := syslogSanitizeAppName (syslogAppName event config) (rfc5424AppNameMax + 1)
          let message := (event.message.data.map event.textArena.cstr).getD []
          let (written, m) := snprintf (.fresh bytes) (rfc5424Text pri (timestamp.cstr 0) appName message)
          if written < 0 ∨ bytes.length ≤ written then ⟨.encodeError, m, none⟩
          else ⟨.ok, m, some written.toNat⟩
        | (_, _) => ⟨.encodeError, .fresh bytes, none⟩
  | _, _, _ => ⟨.invalidArgument, .fresh (buffer.getD []), none⟩

end IoJournal
