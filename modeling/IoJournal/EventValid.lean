import IoJournal.Event

/-!
# IoJournal.EventValid

The event contract, and that both validators decide it.

`Event.WellFormed` states what the public header asks of an event. The sizing pass of the copy
accepts exactly the well-formed events and finds the lengths and flags of `Event.scan`
(`scanEvent_iff`); the reference validator accepts the same ones (`validateEvent_iff`). Neither
depends on the CPU.
-/

namespace IoJournal

open Wire

/-! ## The contract -/

/-- A text field: UTF-8 within its limit, and not empty unless that is allowed. -/
def FieldOk (maxLen : Nat) (allowEmpty : Bool) (s : CString) : Prop :=
  (allowEmpty = true ∨ s.bytes ≠ []) ∧ s.bytes.length ≤ maxLen ∧ Utf8.Valid s.bytes

/-- An optional text field: absent, or within its limit and not empty. -/
def OptionalOk (maxLen : Nat) (value : Option CString) : Prop :=
  ∀ s, value = some s → FieldOk maxLen false s

def ValueOk : AttrValue → Prop
  | .string none => False
  | .string (some bs) => bs.length ≤ attributeStringMaxLen ∧ Utf8.Valid bs
  | .signed _ | .unsigned _ | .bool _ => True
  | .double v => v.isFinite = true
  | .other _ => False

def AttrOk (a : Attr) : Prop :=
  (∃ s, a.key = some s ∧ FieldOk attributeKeyMaxLen false s) ∧ ValueOk a.value

structure Event.WellFormed (e : Event) : Prop where
  level : levelIsValid e.level = true
  nanoseconds : e.timestamp.nanoseconds < 1000000000
  count : e.attributes.count ≤ attributeCountMax
  array : 0 < e.attributes.count → e.attributes.isNull = false
  trace : traceContextMissing e = false
  name : ∃ s, e.eventName = some s ∧ FieldOk eventNameMaxLen false s
  message : ∃ s, e.message = some s ∧ FieldOk messageMaxLen true s
  logger : OptionalOk loggerNameMaxLen e.logger
  sourceFile : OptionalOk eventTextMaxLen e.sourceFile
  sourceFunction : OptionalOk eventTextMaxLen e.sourceFunction
  attrs : ∀ a ∈ e.attributes.toList, AttrOk a
  keys : (e.attributes.toList.map fun a => cstrBytes a.key).Nodup
  text : eventTextSize e ≤ eventTextMaxLen

/-! ## What the sizing pass finds -/

def fieldScan (bs : Bytes) : FieldScan := ⟨bs.length, bs.any isJsonSpecial⟩

def valueEscape : AttrValue → Bool
  | .string data => (data.getD []).any isJsonSpecial
  | _ => false

def attrScan (mode : Int) (a : Attr) : AttrScan where
  keyLen := (cstrBytes a.key).length
  keyNeedsJsonEscape := (cstrBytes a.key).any isJsonSpecial
  stringNeedsJsonEscape := valueEscape a.value
  shouldRedact := mode == redactionModeEnabled && a.value.isString && keyShouldRedactN (cstrBytes a.key)

def attrArena (a : Attr) : Nat := (cstrBytes a.key).length + 1 + attrValueArena a.value

/-- Arena of an optional field. -/
def fieldArena (value : Option CString) : Nat := if value.isSome then (cstrBytes value).length + 1 else 0

def Event.scan (e : Event) (mode : Int) : EventScan where
  eventName := fieldScan (cstrBytes e.eventName)
  message := fieldScan (cstrBytes e.message)
  logger := fieldScan (cstrBytes e.logger)
  sourceFile := fieldScan (cstrBytes e.sourceFile)
  sourceFunction := fieldScan (cstrBytes e.sourceFunction)
  attributes := e.attributes.toList.map (attrScan mode)
  arenaSize := (cstrBytes e.eventName).length + 1 + ((cstrBytes e.message).length + 1) + fieldArena e.logger +
    fieldArena e.sourceFile + fieldArena e.sourceFunction + (e.attributes.toList.map attrArena).sum

/-! ## Text fields -/

theorem asciiNeedsJsonEscape_eq (c : UInt8) : asciiNeedsJsonEscape c = isJsonSpecial c := by
  rw [Bool.eq_iff_iff, isJsonSpecial_iff]
  simp [asciiNeedsJsonEscape, or_assoc]

theorem findFirstSpecial_ne (cpu : Cpu) (bs : Bytes) :
    (jsonEscapeFindFirstSpecial cpu bs != bs.length) = bs.any isJsonSpecial := by
  rw [jsonEscapeFindFirstSpecial_eq, Bool.eq_iff_iff, bne_iff_ne, ne_eq, List.findIdx_eq_length,
    List.any_eq_true]
  simp

theorem utf8IsValidDispatch_iff (cpu : Cpu) (bs : Bytes) : utf8IsValidDispatch cpu bs = true ↔ Utf8.Valid bs := by
  rw [utf8IsValidDispatch_eq, utf8ScalarValidate_iff]

section Fields

variable (cpu : Cpu) {s : CString} {maxLen : Nat} {allowEmpty : Bool}

theorem strnlen_check :
    (!allowEmpty && s.strnlen (maxLen + 1) == 0 || decide (maxLen < s.strnlen (maxLen + 1))) = false ↔
      (allowEmpty = true ∨ s.bytes ≠ []) ∧ s.bytes.length ≤ maxLen := by
  rw [Bool.or_eq_false_iff, Bool.and_eq_false_iff, decide_eq_false_iff_not, Bool.not_eq_false', beq_eq_false_iff_ne,
    CString.strnlen, ← List.length_pos_iff]
  constructor
  · rintro ⟨h1, h2⟩
    refine ⟨h1.imp_right fun h => ?_, ?_⟩
    · omega
    · omega
  · rintro ⟨h1, h2⟩
    refine ⟨h1.imp_right fun h => ?_, ?_⟩
    · omega
    · omega

theorem validateStringField_iff (value : Option CString) :
    validateStringField cpu value maxLen allowEmpty = true ↔
      ∃ s, value = some s ∧ FieldOk maxLen allowEmpty s := by
  cases value with
  | none => simp [validateStringField]
  | some s =>
    simp only [validateStringField, Option.some.injEq, exists_eq_left', FieldOk]
    split
    · rename_i h
      refine ⟨fun h' => (by cases h'), fun ⟨h1, h2, _⟩ => ?_⟩
      rw [strnlen_check.2 ⟨h1, h2⟩] at h
      cases h
    · rename_i h
      obtain ⟨h1, h2⟩ := strnlen_check.1 (Bool.eq_false_iff.2 h)
      have hlen : s.strnlen (maxLen + 1) = s.bytes.length := by unfold CString.strnlen; omega
      rw [hlen, List.take_length, utf8IsValidDispatch_iff]
      exact ⟨fun hv => ⟨h1, h2, hv⟩, fun hv => hv.2.2⟩

theorem scanStringSlow_iff (k : FieldScan) :
    scanStringSlow cpu s maxLen allowEmpty = some k ↔
      FieldOk maxLen allowEmpty s ∧ k = fieldScan s.bytes := by
  simp only [scanStringSlow]
  split
  · rename_i h
    refine ⟨fun h' => (by cases h'), fun ⟨⟨h1, h2, _⟩, _⟩ => ?_⟩
    rw [strnlen_check.2 ⟨h1, h2⟩] at h
    cases h
  · rename_i h
    obtain ⟨h1, h2⟩ := strnlen_check.1 (Bool.eq_false_iff.2 h)
    have hlen : s.strnlen (maxLen + 1) = s.bytes.length := by unfold CString.strnlen; omega
    rw [hlen, List.take_length, findFirstSpecial_ne]
    cases hv : utf8IsValidDispatch cpu s.bytes with
    | false =>
      refine ⟨fun h' => (by cases h'), fun ⟨⟨_, _, h3⟩, _⟩ => ?_⟩
      rw [(utf8IsValidDispatch_iff cpu _).2 h3] at hv
      cases hv
    | true =>
      have hvalid := (utf8IsValidDispatch_iff cpu _).1 hv
      simp only [Bool.not_true, Bool.false_eq_true, if_false, Option.some.injEq]
      exact ⟨fun hk => ⟨⟨h1, h2, hvalid⟩, hk.symm⟩, fun hk => hk.2.symm⟩

theorem ascii_snoc {pre : Bytes} (hpre : ∀ b ∈ pre, b.toNat ≤ 0x7F) {c : UInt8} (hc : c &&& 0x80 = 0) :
    ∀ b ∈ pre ++ [c], b.toNat ≤ 0x7F := by
  intro b hb
  rw [List.mem_append, List.mem_singleton] at hb
  rcases hb with hb | rfl
  · exact hpre b hb
  · exact (mask_high b).1 hc

/-- The scan loop at index `pre.length`: everything before it was ASCII. -/
theorem scanStringLoop_iff (k : FieldScan) (suffix : Bytes) :
    ∀ pre : Bytes, s.bytes = pre ++ suffix → (∀ b ∈ pre, b.toNat ≤ 0x7F) →
      (scanStringLoop cpu s maxLen allowEmpty suffix pre.length (pre.any isJsonSpecial) = some k ↔
        FieldOk maxLen allowEmpty s ∧ k = fieldScan s.bytes) := by
  induction suffix with
  | nil =>
    intro pre hs hpre
    rw [List.append_nil] at hs
    rw [scanStringLoop, ← hs]
    have hvalid : Utf8.Valid s.bytes := Utf8.valid_of_ascii (by rw [hs]; exact hpre)
    split
    · rename_i h
      refine ⟨fun h' => (by cases h'), fun ⟨⟨_, h2, _⟩, _⟩ => ?_⟩
      omega
    · rename_i hlen
      split
      · rename_i h
        refine ⟨fun h' => (by cases h'), fun ⟨⟨h1, _, _⟩, _⟩ => ?_⟩
        simp only [Bool.and_eq_true, Bool.not_eq_true', beq_iff_eq, List.length_eq_zero_iff] at h
        rcases h1 with h1 | h1
        · rw [h1] at h; cases h.1
        · exact absurd h.2 h1
      · rename_i h
        rw [Option.some.injEq]
        refine ⟨fun hk => ⟨⟨?_, by omega, hvalid⟩, hk.symm⟩, fun hk => hk.2.symm⟩
        simp only [Bool.and_eq_true, Bool.not_eq_true', beq_iff_eq, List.length_eq_zero_iff, not_and] at h
        cases ha : allowEmpty
        · exact .inr (h ha)
        · exact .inl rfl
  | cons c suffix ih =>
    intro pre hs hpre
    rw [scanStringLoop]
    split
    · rename_i h
      refine ⟨fun h' => (by cases h'), fun ⟨⟨_, h2, _⟩, _⟩ => ?_⟩
      rw [hs, List.length_append] at h2
      omega
    · split
      · exact scanStringSlow_iff cpu k
      · rename_i _ hc
        have := ih (pre ++ [c]) (by rw [hs]; simp) (ascii_snoc hpre (Decidable.not_not.1 hc))
        rw [List.length_append, List.any_append] at this
        simpa [asciiNeedsJsonEscape_eq] using this

theorem scanStringFieldCopy_iff (value : Option CString) (k : FieldScan) :
    scanStringFieldCopy cpu value maxLen allowEmpty = some k ↔
      ∃ s, value = some s ∧ FieldOk maxLen allowEmpty s ∧ k = fieldScan s.bytes := by
  cases value with
  | none => simp [scanStringFieldCopy]
  | some s =>
    simp only [scanStringFieldCopy, Option.some.injEq, exists_eq_left']
    exact scanStringLoop_iff cpu k s.bytes [] rfl (by simp)

theorem scanOptionalField_iff (value : Option CString) (k : FieldScan) :
    scanOptionalField cpu value maxLen = some k ↔
      OptionalOk maxLen value ∧ k = fieldScan (cstrBytes value) := by
  cases value with
  | none => simp [scanOptionalField, OptionalOk, fieldScan, cstrBytes, eq_comm]
  | some s => simp [scanOptionalField, scanStringFieldCopy_iff, OptionalOk, cstrBytes]

end Fields

/-! ## Attributes -/

section Attributes

variable (cpu : Cpu)

theorem validateAttrStringLoop_iff (value : Bytes) (flag : Bool) (suffix : Bytes) :
    ∀ pre : Bytes, value = pre ++ suffix → (∀ b ∈ pre, b.toNat ≤ 0x7F) →
      (validateAttrStringLoop cpu value suffix (pre.any isJsonSpecial) = some flag ↔
        Utf8.Valid value ∧ flag = value.any isJsonSpecial) := by
  induction suffix with
  | nil =>
    intro pre hs hpre
    rw [List.append_nil] at hs
    subst hs
    rw [validateAttrStringLoop, Option.some.injEq]
    exact ⟨fun h => ⟨Utf8.valid_of_ascii hpre, h.symm⟩, fun h => h.2.symm⟩
  | cons c suffix ih =>
    intro pre hs hpre
    rw [validateAttrStringLoop]
    split
    · rw [findFirstSpecial_ne]
      cases hv : utf8IsValidDispatch cpu value with
      | false =>
        refine ⟨fun h' => (by cases h'), fun ⟨h, _⟩ => ?_⟩
        rw [(utf8IsValidDispatch_iff cpu _).2 h] at hv
        cases hv
      | true =>
        simp only [Bool.not_true, Bool.false_eq_true, if_false, Option.some.injEq]
        exact ⟨fun h => ⟨(utf8IsValidDispatch_iff cpu _).1 hv, h.symm⟩, fun h => h.2.symm⟩
    · rename_i hc
      have := ih (pre ++ [c]) (by rw [hs]; simp) (ascii_snoc hpre (Decidable.not_not.1 hc))
      rw [List.any_append] at this
      simpa [asciiNeedsJsonEscape_eq] using this

theorem validateAttrValue_iff (v : AttrValue) : validateAttrValue cpu v = true ↔ ValueOk v := by
  match v with
  | .string none => simp [validateAttrValue, ValueOk]
  | .string (some bs) =>
    rw [validateAttrValue, ValueOk]
    split
    · rename_i h
      exact ⟨fun h' => (by cases h'), fun h' => absurd h (by omega)⟩
    · rename_i h
      rw [utf8IsValidDispatch_iff]
      exact ⟨fun h' => ⟨by omega, h'⟩, fun h' => h'.2⟩
  | .signed _ | .unsigned _ | .bool _ => simp [validateAttrValue, ValueOk]
  | .double v => rfl
  | .other _ => simp [validateAttrValue, ValueOk]

theorem scanAttrValue_iff (v : AttrValue) (flag : Bool) :
    scanAttrValue cpu v = some flag ↔ ValueOk v ∧ flag = valueEscape v := by
  match v with
  | .string none => simp [scanAttrValue, validateAttrStringCopy, ValueOk]
  | .string (some bs) =>
    simp only [scanAttrValue, validateAttrStringCopy, ValueOk, valueEscape, Option.getD_some]
    split
    · rename_i h
      exact ⟨fun h' => (by cases h'), fun h' => absurd h (by omega)⟩
    · rename_i h
      have := validateAttrStringLoop_iff cpu bs flag bs [] rfl (by simp)
      rw [List.any_nil] at this
      rw [this, and_assoc]
      exact ⟨fun h' => ⟨by omega, h'⟩, fun h' => h'.2⟩
  | .signed _ | .unsigned _ | .bool _ =>
    rw [show (scanAttrValue cpu _ = some flag) = (some false = some flag) from rfl, Option.some.injEq]
    exact ⟨fun h => ⟨trivial, h.symm⟩, fun h => h.2.symm⟩
  | .double v =>
    rw [show (scanAttrValue cpu (.double v) = some flag) =
      ((if v.isFinite then some false else none) = some flag) from rfl]
    cases h : v.isFinite with
    | false => exact ⟨fun h' => (by cases h'), fun h' => absurd h'.1 (by simp [ValueOk, h])⟩
    | true =>
      rw [if_pos rfl, Option.some.injEq]
      exact ⟨fun h' => ⟨h, h'.symm⟩, fun h' => h'.2.symm⟩
  | .other _ => simp [scanAttrValue, validateAttrValue, ValueOk]

theorem attrKeysEqual_iff (k k' : Bytes) : attrKeysEqual k k' = true ↔ k = k' := by
  simp only [attrKeysEqual, Bool.and_eq_true, beq_iff_eq]
  exact ⟨fun h => h.2, fun h => ⟨congrArg _ h, h⟩⟩

theorem attrTextSize_eq (a : Attr) : attrTextSize a = (cstrBytes a.key).length + a.value.stringLen := by
  unfold attrTextSize strlen cstrBytes AttrValue.stringLen
  cases a.key <;> cases a.value <;> simp

section Loop

variable (mode : Int) {a : Attr} (as : List Attr) (keys : List Bytes) (total arena : Nat)

theorem scanAttrs_cons (h : AttrOk a) :
    scanAttrs cpu mode (a :: as) keys total arena =
      if cstrBytes a.key ∈ keys then none
      else if eventTextMaxLen < total + attrTextSize a then none
      else (scanAttrs cpu mode as (keys ++ [cstrBytes a.key]) (total + attrTextSize a) (arena + attrArena a)).map
        fun p => (attrScan mode a :: p.1, p.2) := by
  obtain ⟨⟨s, hs, hfield⟩, hvalue⟩ := h
  have hk := (scanStringFieldCopy_iff cpu a.key _).2 ⟨s, hs, hfield, rfl⟩
  have hv := (scanAttrValue_iff cpu a.value _).2 ⟨hvalue, rfl⟩
  have hbytes : cstrBytes a.key = s.bytes := by simp [hs, cstrBytes]
  have hany : keys.any (attrKeysEqual s.bytes) = true ↔ s.bytes ∈ keys := by
    simp [List.any_eq_true, attrKeysEqual_iff]
  simp only [scanAttrs, hk, hv, fieldScan, hbytes, List.take_length, hany, attrTextSize_eq, attrArena, attrScan,
    Nat.add_assoc]
  congr 2
  cases scanAttrs cpu mode as (keys ++ [s.bytes]) (total + (s.bytes.length + a.value.stringLen))
    (arena + (s.bytes.length + (1 + attrValueArena a.value))) <;> rfl

theorem scanAttrs_cons_bad (h : ¬ AttrOk a) : scanAttrs cpu mode (a :: as) keys total arena = none := by
  rw [scanAttrs]
  split
  · rfl
  · rename_i k hk
    obtain ⟨s, hs, hfield, -⟩ := (scanStringFieldCopy_iff cpu _ _).1 hk
    split
    · rfl
    · rename_i flag hv
      exact absurd ⟨⟨s, hs, hfield⟩, ((scanAttrValue_iff cpu _ _).1 hv).1⟩ h

end Loop

/-- The attribute loop: every attribute is in order, its key is new, and the running total stays
within the limit exactly when the final one does. -/
theorem scanAttrs_iff (mode : Int) (as : List Attr) :
    ∀ (keys : List Bytes) (total arena : Nat) (r : List AttrScan × Nat), total ≤ eventTextMaxLen →
      (scanAttrs cpu mode as keys total arena = some r ↔
        (∀ a ∈ as, AttrOk a) ∧ (as.map fun a => cstrBytes a.key).Nodup ∧
          (∀ a ∈ as, cstrBytes a.key ∉ keys) ∧ total + (as.map attrTextSize).sum ≤ eventTextMaxLen ∧
          r = (as.map (attrScan mode), arena + (as.map attrArena).sum)) := by
  induction as with
  | nil =>
    intro keys total arena r ht
    simp [scanAttrs, ht, eq_comm]
  | cons a as ih =>
    intro keys total arena r ht
    by_cases hok : AttrOk a
    · rw [scanAttrs_cons cpu mode as keys total arena hok]
      simp only [List.forall_mem_cons, hok, true_and, List.map_cons, List.nodup_cons, List.sum_cons]
      by_cases hnew : cstrBytes a.key ∈ keys
      · simp [hnew]
      by_cases hle : eventTextMaxLen < total + attrTextSize a
      · rw [if_neg hnew, if_pos hle]
        refine ⟨fun h => (by cases h), fun ⟨_, _, _, h, _⟩ => ?_⟩
        omega
      rw [if_neg hnew, if_neg hle, Option.map_eq_some_iff]
      constructor
      · rintro ⟨p, hp, rfl⟩
        obtain ⟨hall, hnodup, hfresh, hsum, rfl⟩ := (ih _ _ _ _ (by omega)).1 hp
        refine ⟨hall, ⟨fun hmem => ?_, hnodup⟩, ⟨hnew, fun b hb hmem => ?_⟩, by omega, ?_⟩
        · obtain ⟨b, hb, hbk⟩ := List.mem_map.1 hmem
          exact hfresh b hb (by simp [hbk])
        · exact hfresh b hb (by simp [hmem])
        · rw [Nat.add_assoc]
      · rintro ⟨hall, ⟨hout, hnodup⟩, ⟨_, hfresh⟩, hsum, rfl⟩
        refine ⟨_, (ih _ _ _ _ (by omega)).2 ⟨hall, hnodup, fun b hb hmem => ?_, by omega, rfl⟩, ?_⟩
        · rw [List.mem_append, List.mem_singleton] at hmem
          rcases hmem with hmem | heq
          · exact hfresh b hb hmem
          · exact hout (List.mem_map.2 ⟨b, hb, heq⟩)
        · rw [Nat.add_assoc]
    · rw [scanAttrs_cons_bad cpu mode as keys total arena hok]
      refine ⟨fun h => (by cases h), fun ⟨h, _⟩ => ?_⟩
      exact absurd (h a (by simp)) hok

end Attributes

/-! ## Whole events -/

section Events

variable (cpu : Cpu) (e : Event)

theorem cstrBytes_length (value : Option CString) : (cstrBytes value).length = strlen value := by
  cases value <;> rfl

theorem scanField_iff {maxLen : Nat} {allowEmpty : Bool} (value : Option CString) (k : FieldScan) :
    scanStringFieldCopy cpu value maxLen allowEmpty = some k ↔
      (∃ s, value = some s ∧ FieldOk maxLen allowEmpty s) ∧ k = fieldScan (cstrBytes value) := by
  rw [scanStringFieldCopy_iff]
  constructor
  · rintro ⟨s, rfl, hs, rfl⟩
    exact ⟨⟨s, rfl, hs⟩, rfl⟩
  · rintro ⟨⟨s, rfl, hs⟩, rfl⟩
    exact ⟨s, rfl, hs, rfl⟩

theorem header_check :
    (!levelIsValid e.level || decide (1000000000 ≤ e.timestamp.nanoseconds) ||
        decide (attributeCountMax < e.attributes.count) ||
        (decide (0 < e.attributes.count) && e.attributes.isNull) || traceContextMissing e) = false ↔
      levelIsValid e.level = true ∧ e.timestamp.nanoseconds < 1000000000 ∧
        e.attributes.count ≤ attributeCountMax ∧ (0 < e.attributes.count → e.attributes.isNull = false) ∧
        traceContextMissing e = false := by
  have hn : ¬ (1000000000 ≤ e.timestamp.nanoseconds) ↔ e.timestamp.nanoseconds < 1000000000 := UInt32.not_le
  simp only [Bool.or_eq_false_iff, Bool.not_eq_false', decide_eq_false_iff_not, hn, Nat.not_lt,
    Bool.and_eq_false_imp, decide_eq_true_eq, and_assoc]

/-- The text of the five fields, which the running total starts from. -/
def fieldTextSize : Nat :=
  strlen e.eventName + strlen e.message + strlen e.logger + strlen e.sourceFile + strlen e.sourceFunction

theorem scanEvent_sound (mode : Int) {scan : EventScan} (h : scanEvent cpu e mode = some scan) :
    e.WellFormed ∧ scan = e.scan mode := by
  unfold scanEvent at h
  split at h
  · cases h
  · rename_i hhead
    obtain ⟨hlevel, hnanos, hcount, harray, htrace⟩ := (header_check e).1 (Bool.eq_false_iff.2 hhead)
    simp only [Option.bind_eq_bind, Option.bind_eq_some_iff] at h
    obtain ⟨name, hname, message, hmessage, logger, hlogger, file, hfile, function, hfunction, h⟩ := h
    obtain ⟨okName, rfl⟩ := (scanField_iff cpu _ _).1 hname
    obtain ⟨okMessage, rfl⟩ := (scanField_iff cpu _ _).1 hmessage
    obtain ⟨okLogger, rfl⟩ := (scanOptionalField_iff cpu _ _).1 hlogger
    obtain ⟨okFile, rfl⟩ := (scanOptionalField_iff cpu _ _).1 hfile
    obtain ⟨okFunction, rfl⟩ := (scanOptionalField_iff cpu _ _).1 hfunction
    split at h
    · cases h
    · rename_i htotal
      obtain ⟨⟨attrs, size⟩, hattrs, h⟩ := Option.bind_eq_some_iff.1 h
      obtain ⟨okAttrs, hnodup, -, hsum, heq⟩ := (scanAttrs_iff cpu mode _ _ _ _ _ (by omega)).1 hattrs
      cases h
      simp only [fieldScan, cstrBytes_length] at hsum
      refine ⟨⟨hlevel, hnanos, hcount, harray, htrace, okName, okMessage, okLogger, okFile, okFunction, okAttrs,
        hnodup, hsum⟩, ?_⟩
      cases heq
      rfl

theorem scanEvent_complete (mode : Int) (h : e.WellFormed) : scanEvent cpu e mode = some (e.scan mode) := by
  have htext : fieldTextSize e + (e.attributes.toList.map attrTextSize).sum ≤ eventTextMaxLen := h.text
  have htotal : (cstrBytes e.eventName).length + (cstrBytes e.message).length + (cstrBytes e.logger).length +
      (cstrBytes e.sourceFile).length + (cstrBytes e.sourceFunction).length = fieldTextSize e := by
    simp only [cstrBytes_length, fieldTextSize]
  have hle : fieldTextSize e ≤ eventTextMaxLen := by omega
  unfold scanEvent
  rw [(header_check e).2 ⟨h.level, h.nanoseconds, h.count, h.array, h.trace⟩]
  simp only [Bool.false_eq_true, if_false, Option.bind_eq_bind, (scanField_iff cpu _ _).2 ⟨h.name, rfl⟩,
    (scanField_iff cpu _ _).2 ⟨h.message, rfl⟩, (scanOptionalField_iff cpu _ _).2 ⟨h.logger, rfl⟩,
    (scanOptionalField_iff cpu _ _).2 ⟨h.sourceFile, rfl⟩, (scanOptionalField_iff cpu _ _).2 ⟨h.sourceFunction, rfl⟩,
    Option.bind_some, fieldScan]
  rw [htotal, if_neg (by omega)]
  rw [(scanAttrs_iff cpu mode _ _ _ _ _ hle).2 ⟨h.attrs, h.keys, by simp, htext, rfl⟩]
  rfl

theorem scanEvent_iff (mode : Int) (scan : EventScan) :
    scanEvent cpu e mode = some scan ↔ e.WellFormed ∧ scan = e.scan mode := by
  constructor
  · exact scanEvent_sound cpu e mode
  · rintro ⟨h, rfl⟩
    exact scanEvent_complete cpu e mode h

theorem validateOptional_iff {maxLen : Nat} (value : Option CString) :
    (value.isSome && !validateStringField cpu value maxLen false) = false ↔ OptionalOk maxLen value := by
  cases value with
  | none => simp [OptionalOk]
  | some s =>
    rw [Option.isSome_some, Bool.true_and, Bool.not_eq_false', validateStringField_iff]
    simp [OptionalOk]

theorem duplicateAttrKeys_iff {as : List Attr} (h : ∀ a ∈ as, AttrOk a) :
    duplicateAttrKeys as = false ↔ (as.map fun a => cstrBytes a.key).Nodup := by
  induction as with
  | nil => simp [duplicateAttrKeys]
  | cons a as ih =>
    rw [List.forall_mem_cons] at h
    have hkey : ∀ b ∈ as, (a.key == b.key) = false ↔ cstrBytes b.key ≠ cstrBytes a.key := by
      intro b hb
      obtain ⟨⟨s, hs, -⟩, -⟩ := h.1
      obtain ⟨⟨t, ht, -⟩, -⟩ := h.2 b hb
      have hst : s = t ↔ s.bytes = t.bytes := by rw [CString.mk.injEq]
      rw [hs, ht, beq_eq_false_iff_ne, Ne, Option.some.injEq, hst, eq_comm]
      rfl
    rw [duplicateAttrKeys, Bool.or_eq_false_iff, ih h.2, List.map_cons, List.nodup_cons, List.any_eq_false]
    refine and_congr_left fun _ => ?_
    rw [List.mem_map, not_exists]
    refine forall_congr' fun b => ?_
    rw [not_and]
    exact forall_congr' fun hb => by rw [Bool.not_eq_true, hkey b hb]

theorem check_ok_iff {failed : Prop} [Decidable failed] {rest : Status} :
    (if failed then .invalidArgument else rest) = Status.ok ↔ ¬ failed ∧ rest = .ok := by
  split <;> simp_all

theorem validateAttrs_iff (as : List Attr) :
    (as.any fun a => !validateStringField cpu a.key attributeKeyMaxLen false || !validateAttrValue cpu a.value) = false ↔
      ∀ a ∈ as, AttrOk a := by
  rw [List.any_eq_false]
  refine forall_congr' fun a => forall_congr' fun _ => ?_
  rw [Bool.not_eq_true, Bool.or_eq_false_iff, Bool.not_eq_false', Bool.not_eq_false', validateStringField_iff,
    validateAttrValue_iff]
  exact Iff.rfl

theorem validateEvent_iff : validateEvent cpu (some e) = .ok ↔ e.WellFormed := by
  have hn : ¬ (1000000000 ≤ e.timestamp.nanoseconds) ↔ e.timestamp.nanoseconds < 1000000000 := UInt32.not_le
  rw [validateEvent]
  simp only [check_ok_iff, validateAttrs_iff, hn, Bool.not_eq_true, validateOptional_iff]
  simp only [Bool.not_eq_false', Bool.or_eq_false_iff, validateStringField_iff, Nat.not_lt, Bool.and_eq_false_imp,
    decide_eq_true_eq, decide_eq_false_iff_not, and_true]
  constructor
  · rintro ⟨level, nanoseconds, ⟨name, message⟩, logger, sourceFile, sourceFunction, count, array, trace, attrs,
      keys, text⟩
    exact ⟨level, nanoseconds, count, array, trace, name, message, logger, sourceFile, sourceFunction, attrs,
      (duplicateAttrKeys_iff attrs).1 keys, text⟩
  · intro h
    exact ⟨h.level, h.nanoseconds, ⟨h.name, h.message⟩, h.logger, h.sourceFile, h.sourceFunction, h.count, h.array,
      h.trace, h.attrs, (duplicateAttrKeys_iff h.attrs).2 h.keys, h.text⟩

end Events

end IoJournal
