import IoJournal.Wire.PrintG
import IoJournal.RoundTrip

/-!
# IoJournal.KeptFields

Which fields of an event the JSON record keeps.

* `printDouble` is `%.17g`, so that a numeric attribute can be read back to its number.
* `jsonConsoleEncode_keeps`: two events with one record agree on the time to the millisecond, the
  level, the texts and the attributes.
* The trace context and the source location are checked and copied, but have no member in the
  record: `jsonConsoleEncode_agrees_iff` says that equal records mean equal events exactly when
  these agree by themselves, and `not_agrees_source_line` that they need not.
-/

namespace IoJournal

open Wire

/-! ## Numbers -/

/-- `snprintf` with `%.17g`. -/
def printDouble (d : Double) : Bytes := printG17 d.bits

theorem Double.isFinite_iff (d : Double) : d.isFinite = true ↔ Binary64.exponentField d.bits ≠ 2047 := by
  have hfield : ((d.bits >>> 52) &&& 0x7FF).toNat = Binary64.exponentField d.bits := by
    rw [UInt64.toNat_and, UInt64.toNat_shiftRight, Nat.shiftRight_eq_div_pow]
    exact Nat.and_two_pow_sub_one_eq_mod _ 11
  rw [Double.isFinite, bne_iff_ne, ne_eq, ← UInt64.toNat_inj, hfield]
  rfl

theorem printDouble_number (d : Double) (h : d.isFinite = true) : Json.Number (printDouble d) :=
  printG17_number (d.isFinite_iff.1 h)

theorem literalValue_of_readInt {t : Bytes} {n : Int} (h : readInt t = some n) : literalValue t = n ∧ 0x65 ∉ t := by
  have hdigits : ∀ {ds : Bytes} {k : Nat}, readDigits ds = some k → magnitudeValue ds = k ∧ 0x65 ∉ ds := by
    intro ds k hk
    rw [readDigits] at hk
    split at hk
    · rename_i hall
      cases hk
      rw [List.all_eq_true] at hall
      have hvalue := magnitudeValue_parts ds [] [] [] hall (by simp) (.inr ⟨rfl, rfl⟩) (.inl rfl)
      simp only [List.append_nil, exponentValue, List.length_nil, Nat.cast_zero, sub_self, zpow_zero, mul_one]
        at hvalue
      refine ⟨hvalue, fun hmem => ?_⟩
      exact absurd (hall _ hmem) (by decide)
    · cases hk
  cases t with
  | nil => cases h
  | cons b ds =>
    rw [readInt] at h
    split at h
    · rename_i hb
      obtain ⟨k, hk, rfl⟩ := Option.map_eq_some_iff.1 h
      obtain ⟨hvalue, hno⟩ := hdigits hk
      subst hb
      refine ⟨?_, ?_⟩
      · rw [literalValue, hvalue]
        push_cast
        rfl
      · simpa using hno
    · rename_i hb
      obtain ⟨k, hk, rfl⟩ := Option.map_eq_some_iff.1 h
      obtain ⟨hvalue, hno⟩ := hdigits hk
      refine ⟨?_, hno⟩
      rw [literalValue, hvalue]
      · push_cast
        rfl
      · intro t ht
        exact hb (List.cons.inj ht).1

def AttrValue.number? : AttrValue → Option ℚ
  | .signed v => some v.toInt
  | .unsigned v => some v.toNat
  | .double v => some (Binary64.value v.bits)
  | _ => none

/-- Values that are the same, or the same number. -/
def AttrValue.Same (v w : AttrValue) : Prop := v = w ∨ ∃ x, v.number? = some x ∧ w.number? = some x

def Value.attr : Value → AttrValue
  | .string bs => .string (some bs)
  | .signed v => .signed v
  | .unsigned v => .unsigned v
  | .bool v => .bool v
  | .double v => .double v

theorem Attr.stored_attr {a : Attr} (h : AttrOk a) : (a.stored redactionModeDisabled).attr = a.value := by
  obtain ⟨key, value⟩ := a
  have hok := h.2
  cases value with
  | string data =>
    cases data with
    | none => exact hok.elim
    | some bs => rfl
  | other kind => exact hok.elim
  | signed | unsigned | bool | double => rfl

section Reads

variable {v w : Value} (hv : v.Valid) (hw : w.Valid)

theorem Value.number_of_reads {t : Bytes} (hv : v.Valid) (h : v.Reads printDouble (.num t)) :
    (∃ n : Int, readInt t = some n ∧ v.attr.number? = some (n : ℚ)) ∨
      ∃ d : Double, d.isFinite = true ∧ t = printDouble d ∧ v.attr.number? = some (Binary64.value d.bits) := by
  cases v with
  | signed v => exact .inl ⟨_, h, rfl⟩
  | unsigned v => exact .inl ⟨_, h, by rw [Value.attr, AttrValue.number?]; push_cast; rfl⟩
  | double d => exact .inr ⟨d, hv, h, rfl⟩
  | string | bool => exact h.elim

theorem Value.eq_string_of_reads {g17 : Double → Bytes} {s : Bytes} (h : v.Reads g17 (.str s)) : v = .string s := by
  cases v with
  | string bs => rw [show s = bs from h]
  | signed | unsigned | bool | double => exact h.elim

theorem Value.eq_bool_of_reads {g17 : Double → Bytes} {b : Bool} (h : v.Reads g17 (.bool b)) : v = .bool b := by
  cases v with
  | bool b' => rw [show b = b' from h]
  | string | signed | unsigned | double => exact h.elim

include hv hw in
theorem Value.number_eq {t : Bytes} (h : v.Reads printDouble (.num t)) (h' : w.Reads printDouble (.num t)) :
    ∃ x, v.attr.number? = some x ∧ w.attr.number? = some x := by
  obtain ⟨n, hn, hnum⟩ | ⟨d, hd, ht, hnum⟩ := Value.number_of_reads hv h
  · obtain ⟨n', hn', hnum'⟩ | ⟨d', hd', ht', hnum'⟩ := Value.number_of_reads hw h'
    · rw [hn] at hn'
      cases hn'
      exact ⟨_, hnum, hnum'⟩
    · obtain ⟨hlit, hno⟩ := literalValue_of_readInt hn
      rw [ht'] at hlit hno
      rw [printG17_integer (d'.isFinite_iff.1 hd') hno hlit] at hnum'
      exact ⟨_, hnum, hnum'⟩
  · obtain ⟨n', hn', hnum'⟩ | ⟨d', hd', ht', hnum'⟩ := Value.number_of_reads hw h'
    · obtain ⟨hlit, hno⟩ := literalValue_of_readInt hn'
      rw [ht] at hlit hno
      rw [printG17_integer (d.isFinite_iff.1 hd) hno hlit] at hnum
      exact ⟨_, hnum, hnum'⟩
    · rw [printG17_value_inj (d.isFinite_iff.1 hd) (d'.isFinite_iff.1 hd') (ht.symm.trans ht')] at hnum
      exact ⟨_, hnum, hnum'⟩

include hv hw in
theorem Value.same_of_reads {j : Json} (h : v.Reads printDouble j) (h' : w.Reads printDouble j) :
    v.attr.Same w.attr := by
  cases j with
  | str s => exact .inl (by rw [Value.eq_string_of_reads h, Value.eq_string_of_reads h'])
  | bool b => exact .inl (by rw [Value.eq_bool_of_reads h, Value.eq_bool_of_reads h'])
  | num t => exact .inr (Value.number_eq hv hw h h')
  | null | arr | obj => cases v <;> exact h.elim

end Reads

/-! ## Events -/

/-- The two events come from one place: the same trace context, if any, and the same source location. -/
structure Event.SameOrigin (e e' : Event) : Prop where
  hasTraceContext : e.hasTraceContext = e'.hasTraceContext
  traceContext : e.hasTraceContext = true →
    e.traceId = e'.traceId ∧ e.spanId = e'.spanId ∧ e.traceFlags = e'.traceFlags
  sourceFile : e.sourceFile = e'.sourceFile
  sourceLine : e.sourceLine = e'.sourceLine
  sourceFunction : e.sourceFunction = e'.sourceFunction

/-- The two events agree on what has a member in the record. -/
structure Event.SameRecord (e e' : Event) : Prop where
  millis : e.timestamp.millis = e'.timestamp.millis
  level : e.level = e'.level
  eventName : e.eventName = e'.eventName
  message : e.message = e'.message
  logger : e.logger = e'.logger
  attributes : List.Forall₂ (fun a a' => a.key = a'.key ∧ a.value.Same a'.value)
    e.attributes.toList e'.attributes.toList

/-- The two events agree on every field of the stable field order. -/
structure Event.Agrees (e e' : Event) : Prop extends Event.SameRecord e e', Event.SameOrigin e e'

theorem Level.code_of_ofCode? {code : Int} {level : Level} (h : Level.ofCode? code = some level) :
    code = level.ctorIdx := by
  unfold Level.ofCode? at h
  repeat' split at h
  all_goals cases h
  all_goals assumption

theorem cstr_inj {s s' : Option CString} (h : s.map (·.bytes) = s'.map (·.bytes)) : s = s' := by
  refine Option.map_injective ?_ h
  rintro ⟨bytes, _⟩ ⟨bytes', _⟩ hb
  cases show bytes = bytes' from hb
  rfl

theorem attrs_same {as : List Attr} :
    ∀ {as' : List Attr} {ps : List (Bytes × Json)}, (∀ a ∈ as, AttrOk a) → (∀ a ∈ as', AttrOk a) →
      List.Forall₂ (fun a p => a.key.map (·.bytes) = some p.1 ∧
        (a.stored redactionModeDisabled).Reads printDouble p.2) as ps →
      List.Forall₂ (fun a p => a.key.map (·.bytes) = some p.1 ∧
        (a.stored redactionModeDisabled).Reads printDouble p.2) as' ps →
      List.Forall₂ (fun a a' => a.key = a'.key ∧ a.value.Same a'.value) as as' := by
  induction as with
  | nil =>
    intro as' ps _ _ h h'
    cases h
    cases h'
    exact .nil
  | cons a as ih =>
    intro as' ps hok hok' h h'
    cases h with
    | cons ha hrest =>
      cases h' with
      | cons ha' hrest' =>
        rw [List.forall_mem_cons] at hok hok'
        refine .cons ⟨cstr_inj (ha.1.trans ha'.1.symm), ?_⟩ (ih hok.2 hok'.2 hrest hrest')
        have hsame := Value.same_of_reads (Attr.stored_valid _ hok.1) (Attr.stored_valid _ hok'.1) ha.2 ha'.2
        rwa [Attr.stored_attr hok.1, Attr.stored_attr hok'.1] at hsame

theorem Line.Describes.sameRecord {line : Line} {e e' : Event} (hwf : e.WellFormed) (hwf' : e'.WellFormed)
    (h : line.Describes printDouble redactionModeDisabled e) (h' : line.Describes printDouble redactionModeDisabled e') :
    e.SameRecord e' where
  millis := by
    rw [Timestamp.millis, Timestamp.millis, ← h.seconds, ← h'.seconds, ← h.milliseconds, ← h'.milliseconds]
  level := by rw [Level.code_of_ofCode? h.level, Level.code_of_ofCode? h'.level]
  eventName := cstr_inj (h.eventName.trans h'.eventName.symm)
  message := cstr_inj (h.message.trans h'.message.symm)
  logger := cstr_inj (h.logger.symm.trans h'.logger)
  attributes := attrs_same hwf.attrs hwf'.attrs h.attributes h'.attributes

/-! ## Two runs -/

section Encode

variable {cpu : Cpu} {heap : Heap} {e : Event} {c : EventCopy} {buffer : Bytes}

/-- What the output of a successful encoder is read as, a function of the output alone. -/
theorem jsonConsoleEncode_line (hcopy : eventCopyFromInput cpu heap (some e) redactionModeDisabled = .ok c)
    (hok : (jsonConsoleEncode cpu printDouble (some c) (some buffer)).status = .ok) :
    ∃ line, (Json.parse (jsonConsoleEncode cpu printDouble (some c) (some buffer)).output).bind readLine = some line ∧
      e.WellFormed ∧ line.Describes printDouble redactionModeDisabled e := by
  obtain ⟨hwf, hy, level, attrs, hlevel, hreads, htext⟩ := jsonConsoleEncode_members printDouble_number hcopy hok
  refine ⟨_, ?_, hwf, Event.record_describes hwf hlevel hreads⟩
  rw [Json.parse_complete htext, Option.bind_some]
  exact Record.readLine_members (hwf.record_valid _) hy level attrs

theorem jsonConsoleEncode_keeps {cpu' : Cpu} {heap' : Heap} {e' : Event} {c' : EventCopy} {buffer' : Bytes}
    (hcopy : eventCopyFromInput cpu heap (some e) redactionModeDisabled = .ok c)
    (hok : (jsonConsoleEncode cpu printDouble (some c) (some buffer)).status = .ok)
    (hcopy' : eventCopyFromInput cpu' heap' (some e') redactionModeDisabled = .ok c')
    (hok' : (jsonConsoleEncode cpu' printDouble (some c') (some buffer')).status = .ok)
    (hout : (jsonConsoleEncode cpu printDouble (some c) (some buffer)).output =
      (jsonConsoleEncode cpu' printDouble (some c') (some buffer')).output) : e.SameRecord e' := by
  obtain ⟨line, hline, hwf, hdesc⟩ := jsonConsoleEncode_line hcopy hok
  obtain ⟨line', hline', hwf', hdesc'⟩ := jsonConsoleEncode_line hcopy' hok'
  rw [hout, hline', Option.some.injEq] at hline
  subst hline
  exact Line.Describes.sameRecord hwf hwf' hdesc hdesc'

end Encode

/-- Of two accepted events with one record, the whole of the events agrees exactly when the fields
that the record leaves out do: the trace context and the source location. -/
theorem jsonConsoleEncode_agrees_iff (cpu cpu' : Cpu) (heap heap' : Heap) (e e' : Event) (c c' : EventCopy)
    (buffer buffer' : Bytes)
    (hcopy : eventCopyFromInput cpu heap (some e) redactionModeDisabled = .ok c)
    (hcopy' : eventCopyFromInput cpu' heap' (some e') redactionModeDisabled = .ok c')
    (hok : (jsonConsoleEncode cpu printDouble (some c) (some buffer)).status = .ok)
    (hok' : (jsonConsoleEncode cpu' printDouble (some c') (some buffer')).status = .ok)
    (hout : (jsonConsoleEncode cpu printDouble (some c) (some buffer)).output =
      (jsonConsoleEncode cpu' printDouble (some c') (some buffer')).output) :
    e.Agrees e' ↔ e.SameOrigin e' := by
  constructor
  · intro h
    exact h.toSameOrigin
  · intro h
    exact ⟨jsonConsoleEncode_keeps hcopy hok hcopy' hok' hout, h⟩

/-- `loginEvent` with its count as a double, and trace flags that no trace context goes with. -/
def doubleLoginEvent : Event := { loginEvent with
  attributes := .array (loginEvent.attributes.toList.map fun a =>
    if a.value = .signed (-3) then { a with value := .double ⟨0xC008000000000000⟩ } else a)
  traceFlags := 1 }

theorem jsonConsoleEncode_agrees_iff_double :
    ∃ c c', eventCopyFromInput scalarCpu zeroHeap (some loginEvent) redactionModeDisabled = .ok c ∧
      eventCopyFromInput scalarCpu zeroHeap (some doubleLoginEvent) redactionModeDisabled = .ok c' ∧
      (jsonConsoleEncode scalarCpu printDouble (some c) (some (List.replicate 256 0))).status = .ok ∧
      (jsonConsoleEncode scalarCpu printDouble (some c') (some (List.replicate 256 0))).status = .ok ∧
      (jsonConsoleEncode scalarCpu printDouble (some c) (some (List.replicate 256 0))).output =
        (jsonConsoleEncode scalarCpu printDouble (some c') (some (List.replicate 256 0))).output ∧
      loginEvent.Agrees doubleLoginEvent := by
  refine ⟨_, _, rfl, rfl, ?ok, ?ok', ?out,
    (jsonConsoleEncode_agrees_iff scalarCpu scalarCpu zeroHeap zeroHeap loginEvent doubleLoginEvent _ _
      (List.replicate 256 0) (List.replicate 256 0) rfl rfl ?ok ?ok' ?out).2 ⟨rfl, nofun, rfl, rfl, rfl⟩⟩
  case ok => decide +kernel
  case ok' => decide +kernel
  case out => decide +kernel

/-- Two events from different lines of the source have one record. -/
theorem not_agrees_source_line :
    ∃ c c', eventCopyFromInput scalarCpu zeroHeap (some loginEvent) redactionModeDisabled = .ok c ∧
      eventCopyFromInput scalarCpu zeroHeap (some { loginEvent with sourceLine := 42 }) redactionModeDisabled = .ok c' ∧
      (jsonConsoleEncode scalarCpu printDouble (some c) (some (List.replicate 256 0))).status = .ok ∧
      (jsonConsoleEncode scalarCpu printDouble (some c') (some (List.replicate 256 0))).status = .ok ∧
      (jsonConsoleEncode scalarCpu printDouble (some c) (some (List.replicate 256 0))).output =
        (jsonConsoleEncode scalarCpu printDouble (some c') (some (List.replicate 256 0))).output ∧
      ¬ loginEvent.Agrees { loginEvent with sourceLine := 42 } := by
  refine ⟨_, _, rfl, rfl, by decide +kernel, by decide +kernel, by decide +kernel, ?_⟩
  intro h
  exact absurd h.sourceLine (by decide)

end IoJournal
