import IoJournal.Wire.Buffer
import IoJournal.Simd
import IoJournal.Redact

/-!
# IoJournal.Event

Event validation and the owned copy of an event (`core/ij_event.c`).

`validateEvent` is the reference validator. `eventCopyFromInput` fuses validation and copying: a
sizing pass (`scanEvent`) checks every field, notes its length and whether it needs JSON escapes,
and adds up the arena; a copy pass (`copyEvent`) writes all strings into one arena and overwrites
redacted values in place. An owned string is an offset into that arena.
-/

namespace IoJournal

open Wire

/-! ## The reference validator -/

def validateStringField (cpu : Cpu) (value : Option CString) (maxLen : Nat) (allowEmpty : Bool) : Bool :=
  match value with
  | none => false
  | some s =>
    let len := s.strnlen (maxLen + 1)
    if !allowEmpty && len == 0 || maxLen < len then false
    else utf8IsValidDispatch cpu (s.bytes.take len)

def validateAttrValue (cpu : Cpu) : AttrValue → Bool
  | .string none => false
  | .string (some bs) => if attributeStringMaxLen < bs.length then false else utf8IsValidDispatch cpu bs
  | .signed _ | .unsigned _ | .bool _ => true
  | .double v => v.isFinite
  | .other _ => false

def strlen (value : Option CString) : Nat := (value.map (·.bytes.length)).getD 0

/-- `ij_duplicate_attr_keys`: `strcmp` of every pair. -/
def duplicateAttrKeys : List Attr → Bool
  | [] => false
  | a :: as => as.any (fun b => a.key == b.key) || duplicateAttrKeys as

def attrTextSize (a : Attr) : Nat :=
  strlen a.key +
    match a.value with
    | .string data => (data.getD []).length
    | _ => 0

def eventTextSize (event : Event) : Nat :=
  strlen event.eventName + strlen event.message + strlen event.logger + strlen event.sourceFile +
    strlen event.sourceFunction + (event.attributes.toList.map attrTextSize).sum

def traceContextMissing (event : Event) : Bool :=
  event.hasTraceContext && (event.traceId.isNone || event.spanId.isNone)

/-- `ij_validate_event`. -/
def validateEvent (cpu : Cpu) (event : Option Event) : Status :=
  match event with
  | none => .invalidArgument
  | some e =>
    if !levelIsValid e.level then .invalidArgument
    else if 1000000000 ≤ e.timestamp.nanoseconds then .invalidArgument
    else if !validateStringField cpu e.eventName eventNameMaxLen false ||
        !validateStringField cpu e.message messageMaxLen true then .invalidArgument
    else if e.logger.isSome && !validateStringField cpu e.logger loggerNameMaxLen false then .invalidArgument
    else if e.sourceFile.isSome && !validateStringField cpu e.sourceFile eventTextMaxLen false then
      .invalidArgument
    else if e.sourceFunction.isSome && !validateStringField cpu e.sourceFunction eventTextMaxLen false then
      .invalidArgument
    else if attributeCountMax < e.attributes.count then .invalidArgument
    else if 0 < e.attributes.count && e.attributes.isNull then .invalidArgument
    else if traceContextMissing e then .invalidArgument
    else if e.attributes.toList.any fun a =>
        !validateStringField cpu a.key attributeKeyMaxLen false || !validateAttrValue cpu a.value then
      .invalidArgument
    else if duplicateAttrKeys e.attributes.toList || eventTextMaxLen < eventTextSize e then .invalidArgument
    else .ok

/-! ## The sizing pass -/

structure FieldScan where
  len : Nat
  needsJsonEscape : Bool
  deriving DecidableEq

def asciiNeedsJsonEscape (c : UInt8) : Bool := c < 0x20 || c == 0x22 || c == 0x5C

/-- The branch of `ij_scan_string_field_copy` taken at the first octet above 0x7F. -/
def scanStringSlow (cpu : Cpu) (value : CString) (maxLen : Nat) (allowEmpty : Bool) : Option FieldScan :=
  let len := value.strnlen (maxLen + 1)
  if !allowEmpty && len == 0 || maxLen < len then none
  else if !utf8IsValidDispatch cpu (value.bytes.take len) then none
  else some ⟨len, jsonEscapeFindFirstSpecial cpu (value.bytes.take len) != len⟩

/-- The loop of `ij_scan_string_field_copy` at index `i`; the list is the string from there on. -/
def scanStringLoop (cpu : Cpu) (value : CString) (maxLen : Nat) (allowEmpty : Bool) :
    Bytes → Nat → Bool → Option FieldScan
  | [], i, needs =>
    if maxLen < i then none
    else if !allowEmpty && i == 0 then none
    else some ⟨i, needs⟩
  | c :: rest, i, needs =>
    if maxLen < i then none
    else if c &&& 0x80 ≠ 0 then scanStringSlow cpu value maxLen allowEmpty
    else scanStringLoop cpu value maxLen allowEmpty rest (i + 1) (needs || asciiNeedsJsonEscape c)

def scanStringFieldCopy (cpu : Cpu) (value : Option CString) (maxLen : Nat) (allowEmpty : Bool) :
    Option FieldScan :=
  match value with
  | none => none
  | some s => scanStringLoop cpu s maxLen allowEmpty s.bytes 0 false

/-- The loop of `ij_validate_attr_string_copy`. -/
def validateAttrStringLoop (cpu : Cpu) (value : Bytes) : Bytes → Bool → Option Bool
  | [], needs => some needs
  | c :: rest, needs =>
    if c &&& 0x80 ≠ 0 then
      if !utf8IsValidDispatch cpu value then none
      else some (jsonEscapeFindFirstSpecial cpu value != value.length)
    else validateAttrStringLoop cpu value rest (needs || asciiNeedsJsonEscape c)

def validateAttrStringCopy (cpu : Cpu) (value : Option Bytes) : Option Bool :=
  match value with
  | none => none
  | some bs => if attributeStringMaxLen < bs.length then none else validateAttrStringLoop cpu bs bs false

/-- An optional field: NULL is skipped with length zero. -/
def scanOptionalField (cpu : Cpu) (value : Option CString) (maxLen : Nat) : Option FieldScan :=
  match value with
  | none => some ⟨0, false⟩
  | some s => scanStringFieldCopy cpu (some s) maxLen false

structure AttrScan where
  keyLen : Nat
  keyNeedsJsonEscape : Bool
  stringNeedsJsonEscape : Bool
  shouldRedact : Bool
  deriving DecidableEq

def cstrBytes (value : Option CString) : Bytes := (value.map (·.bytes)).getD []

/-- The value check of the attribute loop: the escape flag of a string, `false` for the others. -/
def scanAttrValue (cpu : Cpu) (value : AttrValue) : Option Bool :=
  match value with
  | .string data => validateAttrStringCopy cpu data
  | v => if validateAttrValue cpu v then some false else none

def AttrValue.isString : AttrValue → Bool
  | .string _ => true
  | _ => false

/-- The length of a string value, zero for the others. -/
def AttrValue.stringLen : AttrValue → Nat
  | .string data => (data.getD []).length
  | _ => 0

/-- Octets of arena for a value: room for the redaction literal even in a short string. -/
def attrValueArena (value : AttrValue) : Nat :=
  if value.isString then max value.stringLen redactedLiteral.length + 1 else 0

/-- `ij_attr_keys_equal`. -/
def attrKeysEqual (left right : Bytes) : Bool := left.length == right.length && left == right

/-- The attribute loop of the sizing pass; `keys` are the keys seen so far. -/
def scanAttrs (cpu : Cpu) (mode : Int) : List Attr → List Bytes → Nat → Nat → Option (List AttrScan × Nat)
  | [], _, _, arena => some ([], arena)
  | a :: as, keys, total, arena =>
    match scanStringFieldCopy cpu a.key attributeKeyMaxLen false with
    | none => none
    | some k =>
      match scanAttrValue cpu a.value with
      | none => none
      | some valueEscape =>
        let key := (cstrBytes a.key).take k.len
        if keys.any (attrKeysEqual key) then none
        else
          let redact := mode == redactionModeEnabled && a.value.isString && keyShouldRedactN key
          let total := total + k.len + a.value.stringLen
          let arena := arena + (k.len + 1) + attrValueArena a.value
          if eventTextMaxLen < total then none
          else
            match scanAttrs cpu mode as (keys ++ [key]) total arena with
            | none => none
            | some (scans, size) => some (⟨k.len, k.needsJsonEscape, valueEscape, redact⟩ :: scans, size)

structure EventScan where
  eventName : FieldScan
  message : FieldScan
  logger : FieldScan
  sourceFile : FieldScan
  sourceFunction : FieldScan
  attributes : List AttrScan
  arenaSize : Nat
  deriving DecidableEq

def optionalArena (value : Option CString) (scan : FieldScan) : Nat :=
  if value.isSome then scan.len + 1 else 0

/-- The checks of `ij_event_copy_from_input` and the sizes they find; `none` is
`IJ_STATUS_INVALID_ARGUMENT`. -/
def scanEvent (cpu : Cpu) (e : Event) (mode : Int) : Option EventScan :=
  if !levelIsValid e.level || 1000000000 ≤ e.timestamp.nanoseconds || attributeCountMax < e.attributes.count ||
      (0 < e.attributes.count && e.attributes.isNull) || traceContextMissing e then none
  else do
    let name ← scanStringFieldCopy cpu e.eventName eventNameMaxLen false
    let message ← scanStringFieldCopy cpu e.message messageMaxLen true
    let logger ← scanOptionalField cpu e.logger loggerNameMaxLen
    let file ← scanOptionalField cpu e.sourceFile eventTextMaxLen
    let function ← scanOptionalField cpu e.sourceFunction eventTextMaxLen
    let total := name.len + message.len + logger.len + file.len + function.len
    if eventTextMaxLen < total then none
    else
      let arena := name.len + 1 + (message.len + 1) + optionalArena e.logger logger +
        optionalArena e.sourceFile file + optionalArena e.sourceFunction function
      let (attrs, size) ← scanAttrs cpu mode e.attributes.toList [] total arena
      return ⟨name, message, logger, file, function, attrs, size⟩

/-! ## The copy pass -/

/-- `ij_owned_string_t`: `data` is an offset into the arena, `none` for NULL. -/
structure OwnedString where
  data : Option Nat
  len : Nat
  needsJsonEscape : Bool
  deriving DecidableEq

def OwnedString.zero : OwnedString := ⟨none, 0, false⟩

inductive OwnedAttrValue where
  | string (s : OwnedString)
  | signed (v : Int64)
  | unsigned (v : UInt64)
  | bool (v : Bool)
  | double (v : Double)
  deriving DecidableEq

structure OwnedAttr where
  key : OwnedString
  value : OwnedAttrValue
  deriving DecidableEq

/-- `ij_event_copy_t`. -/
structure EventCopy where
  timestamp : Timestamp
  level : Int
  eventName : OwnedString
  message : OwnedString
  loggerName : OwnedString
  attributes : List OwnedAttr
  traceId : Vector UInt8 traceIdSize
  spanId : Vector UInt8 spanIdSize
  traceFlags : UInt8
  hasTraceContext : Bool
  sourceFile : OwnedString
  sourceLine : UInt32
  sourceFunction : OwnedString
  textArena : Buffer
  textArenaSize : Nat

/-- The allocator's answers: the contents of the arena block, when there is one, and whether the
attribute array could be had. -/
structure Heap where
  arena : Nat → Option Bytes
  arena_size : ∀ n bs, arena n = some bs → bs.length = n
  attributes : Nat → Bool

/-- The arena and the cursor of the copy pass. -/
structure ArenaCursor where
  arena : Buffer
  cursor : Nat

def copyOwnedStringIntoArena (st : ArenaCursor) (value : Bytes) (len capacity : Nat) (needsJsonEscape : Bool) :
    OwnedString × ArenaCursor :=
  (⟨some st.cursor, len, needsJsonEscape⟩,
    ⟨(st.arena.copy st.cursor (value.take len)).store (st.cursor + len) 0, st.cursor + capacity + 1⟩)

def copyAttrValueIntoArena (st : ArenaCursor) (value : AttrValue) (needsJsonEscape : Bool) :
    Except Status (OwnedAttrValue × ArenaCursor) :=
  match value with
  | .string data =>
    let bs := data.getD []
    let (s, st) := copyOwnedStringIntoArena st bs bs.length (max bs.length redactedLiteral.length) needsJsonEscape
    .ok (.string s, st)
  | .signed v => .ok (.signed v, st)
  | .unsigned v => .ok (.unsigned v, st)
  | .bool v => .ok (.bool v, st)
  | .double v => .ok (.double v, st)
  | .other _ => .error .invalidArgument

/-- The overwrite of a redacted value: the literal with its terminator, over the copied secret. -/
def redactInArena (value : OwnedAttrValue) (st : ArenaCursor) : OwnedAttrValue × ArenaCursor :=
  match value with
  | .string ⟨some off, _, needs⟩ =>
    (.string ⟨some off, redactedLiteral.length, needs⟩,
      { st with arena := st.arena.copy off (redactedLiteral ++ [0]) })
  | v => (v, st)

/-- One turn of the attribute loop of the copy pass. -/
def copyAttr (st : ArenaCursor) (a : Attr) (scan : AttrScan) : Except Status (OwnedAttr × ArenaCursor) :=
  let (key, st) := copyOwnedStringIntoArena st (cstrBytes a.key) scan.keyLen scan.keyLen scan.keyNeedsJsonEscape
  match copyAttrValueIntoArena st a.value scan.stringNeedsJsonEscape with
  | .error status => .error status
  | .ok (value, st) =>
    let (value, st) := if scan.shouldRedact then redactInArena value st else (value, st)
    .ok (⟨key, value⟩, st)

def copyAttrs (st : ArenaCursor) : List (Attr × AttrScan) → Except Status (List OwnedAttr × ArenaCursor)
  | [] => .ok ([], st)
  | (a, scan) :: rest =>
    match copyAttr st a scan with
    | .error status => .error status
    | .ok (attr, st) =>
      match copyAttrs st rest with
      | .error status => .error status
      | .ok (attrs, st) => .ok (attr :: attrs, st)

def copyOptionalField (st : ArenaCursor) (value : Option CString) (scan : FieldScan) : OwnedString × ArenaCursor :=
  match value with
  | none => (.zero, st)
  | some s => copyOwnedStringIntoArena st s.bytes scan.len scan.len scan.needsJsonEscape

/-- The copy pass over an arena block `arena`. -/
def copyEvent (attributesOk : Bool) (arena : Bytes) (e : Event) (scan : EventScan) : Except Status EventCopy :=
  let st : ArenaCursor := ⟨.fresh arena, 0⟩
  let (name, st) := copyOwnedStringIntoArena st (cstrBytes e.eventName) scan.eventName.len scan.eventName.len
    scan.eventName.needsJsonEscape
  let (message, st) := copyOwnedStringIntoArena st (cstrBytes e.message) scan.message.len scan.message.len
    scan.message.needsJsonEscape
  let (logger, st) := copyOptionalField st e.logger scan.logger
  let (file, st) := copyOptionalField st e.sourceFile scan.sourceFile
  let (function, st) := copyOptionalField st e.sourceFunction scan.sourceFunction
  let copied : Except Status (List OwnedAttr × ArenaCursor) :=
    if e.attributes.count = 0 then .ok ([], st)
    else if !attributesOk then .error .internalError
    else copyAttrs st (e.attributes.toList.zip scan.attributes)
  match copied with
  | .error status => .error status
  | .ok (attrs, st) =>
    .ok {
      timestamp := e.timestamp
      level := e.level
      eventName := name
      message := message
      loggerName := logger
      attributes := attrs
      traceId := if e.hasTraceContext then e.traceId.getD (.replicate _ 0) else .replicate _ 0
      spanId := if e.hasTraceContext then e.spanId.getD (.replicate _ 0) else .replicate _ 0
      traceFlags := e.traceFlags
      hasTraceContext := e.hasTraceContext
      sourceFile := file
      sourceLine := e.sourceLine
      sourceFunction := function
      textArena := st.arena
      textArenaSize := scan.arenaSize }

/-- The arena and the cursor that the copy pass ends with. -/
def copyEventCursor (attributesOk : Bool) (arena : Bytes) (e : Event) (scan : EventScan) : Except Status ArenaCursor :=
  let st : ArenaCursor := ⟨.fresh arena, 0⟩
  let (_, st) := copyOwnedStringIntoArena st (cstrBytes e.eventName) scan.eventName.len scan.eventName.len
    scan.eventName.needsJsonEscape
  let (_, st) := copyOwnedStringIntoArena st (cstrBytes e.message) scan.message.len scan.message.len
    scan.message.needsJsonEscape
  let (_, st) := copyOptionalField st e.logger scan.logger
  let (_, st) := copyOptionalField st e.sourceFile scan.sourceFile
  let (_, st) := copyOptionalField st e.sourceFunction scan.sourceFunction
  if e.attributes.count = 0 then .ok st
  else if !attributesOk then .error .internalError
  else (copyAttrs st (e.attributes.toList.zip scan.attributes)).map (·.2)

/-- `ij_event_copy_from_input`. -/
def eventCopyFromInput (cpu : Cpu) (heap : Heap) (event : Option Event) (mode : Int) : Except Status EventCopy :=
  match event with
  | none => .error .invalidArgument
  | some e =>
    match scanEvent cpu e mode with
    | none => .error .invalidArgument
    | some scan =>
      match heap.arena scan.arenaSize with
      | none => .error .internalError
      | some arena => copyEvent (heap.attributes e.attributes.count) arena e scan

end IoJournal
