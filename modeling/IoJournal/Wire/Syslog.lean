import IoJournal.Wire.Calendar
import IoJournal.Wire.Utf8

/-!
# Wire.Syslog

The grammar of a syslog message (RFC 5424, section 6): one predicate per rule, and `Message`, the
parts of a message with a proof of the rule each part obeys.

The header fields hold no space, so the first space after a field ends it. `Message.text_inj` uses
this: a text whose structured data is the nil value has one derivation only.
-/

namespace Wire
namespace Syslog

/-- `PRINTUSASCII = %d33-126`. -/
def isPrintUsAscii (b : UInt8) : Bool := 33 ≤ b && b ≤ 126

/-- `NILVALUE = "-"`. -/
def nilValue : Bytes := [0x2D]

/-! ## The header -/

/-- `PRIVAL = 1*3DIGIT ; range 0 .. 191`. -/
structure IsPrival (t : Bytes) : Prop where
  nonempty : 1 ≤ t.length
  short : t.length ≤ 3
  digits : ∀ b ∈ t, isDigit b = true
  range : decimal t ≤ 191

/-- `VERSION = NONZERO-DIGIT 0*2DIGIT`. -/
def IsVersion (t : Bytes) : Prop :=
  ∃ d ds, t = d :: ds ∧ isDigit d = true ∧ d ≠ 48 ∧ ds.length ≤ 2 ∧ ∀ b ∈ ds, isDigit b = true

/-- `NILVALUE / 1*n PRINTUSASCII`: host name, application name, process and message identifier. -/
def IsField (n : Nat) (t : Bytes) : Prop :=
  t = nilValue ∨ 1 ≤ t.length ∧ t.length ≤ n ∧ ∀ b ∈ t, isPrintUsAscii b = true

/-- `FULL-DATE "T" TIME-HOUR ":" TIME-MINUTE ":" TIME-SECOND`. -/
def dateTime (c : Civil) : Bytes :=
  padded 4 c.year.toNat ++ [0x2D] ++ padded 2 c.month ++ [0x2D] ++ padded 2 c.day ++ [0x54] ++
    padded 2 c.hour ++ [0x3A] ++ padded 2 c.minute ++ [0x3A] ++ padded 2 c.second

/-- `[TIME-SECFRAC]`, with `TIME-SECFRAC = "." 1*6DIGIT`. -/
def IsSecFrac (t : Bytes) : Prop :=
  t = [] ∨ ∃ ds, t = 0x2E :: ds ∧ 1 ≤ ds.length ∧ ds.length ≤ 6 ∧ ∀ b ∈ ds, isDigit b = true

/-- `TIME-OFFSET = "Z" / ("+" / "-") TIME-HOUR ":" TIME-MINUTE`. -/
def IsOffset (t : Bytes) : Prop :=
  t = [0x5A] ∨ ∃ sign hour minute, (sign = 0x2B ∨ sign = 0x2D) ∧ hour < 24 ∧ minute < 60 ∧
    t = sign :: padded 2 hour ++ [0x3A] ++ padded 2 minute

/-- `TIMESTAMP`. The ranges of the fields are those of a date of the calendar. -/
def IsTimestamp (t : Bytes) : Prop :=
  t = nilValue ∨ ∃ c : Civil, c.Valid ∧ 0 ≤ c.year ∧ c.year ≤ 9999 ∧
    ∃ frac offset, IsSecFrac frac ∧ IsOffset offset ∧ t = dateTime c ++ frac ++ offset

/-! ## Structured data and message -/

/-- `SD-NAME = 1*32PRINTUSASCII ; except '=', SP, ']', %d34`. -/
def IsSdName (t : Bytes) : Prop :=
  1 ≤ t.length ∧ t.length ≤ 32 ∧ ∀ b ∈ t, isPrintUsAscii b = true ∧ b ≠ 0x3D ∧ b ≠ 0x5D ∧ b ≠ 0x22

/-- The quote, the backslash and the closing bracket occur behind a backslash only. -/
inductive Escaped : Bytes → Prop where
  | nil : Escaped []
  | plain {b : UInt8} {bs : Bytes} : b ∉ ([0x22, 0x5C, 0x5D] : Bytes) → Escaped bs → Escaped (b :: bs)
  | pair {b : UInt8} {bs : Bytes} : b ∈ ([0x22, 0x5C, 0x5D] : Bytes) → Escaped bs → Escaped (0x5C :: b :: bs)

/-- `SD-PARAM = PARAM-NAME "=" %d34 PARAM-VALUE %d34`. -/
def IsSdParam (t : Bytes) : Prop :=
  ∃ name value, IsSdName name ∧ Utf8.Valid value ∧ Escaped value ∧ t = name ++ [0x3D, 0x22] ++ value ++ [0x22]

/-- `SD-ELEMENT = "[" SD-ID *(SP SD-PARAM) "]"`. -/
def IsSdElement (t : Bytes) : Prop :=
  ∃ (id : Bytes) (params : List Bytes), IsSdName id ∧ (∀ p ∈ params, IsSdParam p) ∧
    t = 0x5B :: (id ++ params.flatMap (fun p => 0x20 :: p) ++ [0x5D])

/-- `STRUCTURED-DATA = NILVALUE / 1*SD-ELEMENT`. -/
def IsStructuredData (t : Bytes) : Prop :=
  t = nilValue ∨ ∃ es : List Bytes, es ≠ [] ∧ (∀ e ∈ es, IsSdElement e) ∧ t = es.flatten

/-- `BOM = %xEF.BB.BF`. -/
def bom : Bytes := [0xEF, 0xBB, 0xBF]

/-- `MSG = MSG-ANY / MSG-UTF8`: octets that do not start with the mark, or the mark and UTF-8. -/
def IsMsg (t : Bytes) : Prop := ¬ bom <+: t ∨ ∃ s, Utf8.Valid s ∧ t = bom ++ s

/-- `SYSLOG-MSG`: the parts of a message. -/
@[ext]
structure Message where
  prival : Bytes
  version : Bytes
  timestamp : Bytes
  hostname : Bytes
  appName : Bytes
  procid : Bytes
  msgid : Bytes
  structuredData : Bytes
  msg : Option Bytes
  prival_ok : IsPrival prival
  version_ok : IsVersion version
  timestamp_ok : IsTimestamp timestamp
  hostname_ok : IsField 255 hostname
  appName_ok : IsField 48 appName
  procid_ok : IsField 128 procid
  msgid_ok : IsField 32 msgid
  structuredData_ok : IsStructuredData structuredData
  msg_ok : ∀ t ∈ msg, IsMsg t

/-- `[SP MSG]`. -/
def optionalMsg : Option Bytes → Bytes
  | none => []
  | some t => 0x20 :: t

/-- `HEADER SP STRUCTURED-DATA [SP MSG]`. -/
def Message.text (m : Message) : Bytes :=
  0x3C :: (m.prival ++ 0x3E :: (m.version ++ 0x20 :: (m.timestamp ++ 0x20 :: (m.hostname ++ 0x20 ::
    (m.appName ++ 0x20 :: (m.procid ++ 0x20 :: (m.msgid ++ 0x20 ::
      (m.structuredData ++ optionalMsg m.msg))))))))

/-! ## Where a field ends -/

theorem not_mem_of_digits {t : Bytes} (h : ∀ b ∈ t, isDigit b = true) {c : UInt8} (hc : isDigit c = false) : c ∉ t := by
  intro hmem
  rw [h c hmem] at hc
  cases hc

theorem IsVersion.no_space {t : Bytes} (h : IsVersion t) : 0x20 ∉ t := by
  obtain ⟨d, ds, rfl, hd, -, -, hds⟩ := h
  exact not_mem_of_digits (List.forall_mem_cons.2 ⟨hd, hds⟩) rfl

theorem IsField.no_space {n : Nat} {t : Bytes} (h : IsField n t) : 0x20 ∉ t := by
  rcases h with rfl | ⟨-, -, h⟩
  · decide
  · intro hmem
    exact absurd (h _ hmem) (by decide)

theorem dateTime_no_space (c : Civil) : 0x20 ∉ dateTime c := by
  have hdigits : ∀ w n, (0x20 : UInt8) ∉ padded w n := fun w n => not_mem_of_digits (padded_isDigit w n) rfl
  simp [dateTime, hdigits]

theorem IsSecFrac.no_space {t : Bytes} (h : IsSecFrac t) : 0x20 ∉ t := by
  rcases h with rfl | ⟨ds, rfl, -, -, hds⟩
  · simp
  · simp [not_mem_of_digits hds (show isDigit 0x20 = false from rfl)]

theorem IsOffset.no_space {t : Bytes} (h : IsOffset t) : 0x20 ∉ t := by
  have hdigits : ∀ w n, (0x20 : UInt8) ∉ padded w n := fun w n => not_mem_of_digits (padded_isDigit w n) rfl
  rcases h with rfl | ⟨sign, hour, minute, hsign, -, -, rfl⟩
  · decide
  · rcases hsign with rfl | rfl <;> simp [hdigits]

theorem IsTimestamp.no_space {t : Bytes} (h : IsTimestamp t) : 0x20 ∉ t := by
  rcases h with rfl | ⟨c, -, -, -, frac, offset, hfrac, hoffset, ht⟩
  · decide
  · rw [ht]
    simp [dateTime_no_space, hfrac.no_space, hoffset.no_space]

theorem field_inj {c : UInt8} {a b s t : Bytes} (ha : c ∉ a) (hb : c ∉ b) (h : a ++ c :: s = b ++ c :: t) :
    a = b ∧ s = t := by
  induction a generalizing b with
  | nil =>
    cases b with
    | nil => exact ⟨rfl, (List.cons.inj h).2⟩
    | cons y b => exact absurd (List.mem_cons.2 (.inl (List.cons.inj h).1)) hb
  | cons x a ih =>
    rw [List.mem_cons, not_or] at ha
    cases b with
    | nil => exact absurd (List.cons.inj h).1.symm ha.1
    | cons y b =>
      obtain ⟨rfl, hrest⟩ := List.cons.inj h
      rw [List.mem_cons, not_or] at hb
      obtain ⟨rfl, rfl⟩ := ih ha.2 hb.2 hrest
      exact ⟨rfl, rfl⟩

theorem IsStructuredData.nil_or_bracket {t : Bytes} (h : IsStructuredData t) : t = nilValue ∨ ∃ s, t = 0x5B :: s := by
  rcases h with rfl | ⟨es, hne, hes, rfl⟩
  · exact .inl rfl
  · obtain ⟨e, es, rfl⟩ := List.exists_cons_of_ne_nil hne
    obtain ⟨id, params, -, -, rfl⟩ := hes e (by simp)
    exact .inr ⟨_, rfl⟩

theorem optionalMsg_inj {s t : Option Bytes} (h : optionalMsg s = optionalMsg t) : s = t := by
  cases s <;> cases t <;> simp_all [optionalMsg]

/-- Without structured data, the text of a message determines its parts. -/
theorem Message.text_inj {m m' : Message} (hnil : m.structuredData = nilValue) (h : m'.text = m.text) : m' = m := by
  unfold Message.text at h
  obtain ⟨hprival, h⟩ := field_inj (not_mem_of_digits m'.prival_ok.digits rfl)
    (not_mem_of_digits m.prival_ok.digits rfl) (List.cons.inj h).2
  obtain ⟨hversion, h⟩ := field_inj m'.version_ok.no_space m.version_ok.no_space h
  obtain ⟨htimestamp, h⟩ := field_inj m'.timestamp_ok.no_space m.timestamp_ok.no_space h
  obtain ⟨hhostname, h⟩ := field_inj m'.hostname_ok.no_space m.hostname_ok.no_space h
  obtain ⟨happName, h⟩ := field_inj m'.appName_ok.no_space m.appName_ok.no_space h
  obtain ⟨hprocid, h⟩ := field_inj m'.procid_ok.no_space m.procid_ok.no_space h
  obtain ⟨hmsgid, h⟩ := field_inj m'.msgid_ok.no_space m.msgid_ok.no_space h
  rw [hnil] at h
  have hdata : m'.structuredData = nilValue := by
    rcases m'.structuredData_ok.nil_or_bracket with hnil' | ⟨s, hs⟩
    · exact hnil'
    · rw [hs] at h
      exact absurd (List.cons.inj h).1 (by decide)
  rw [hdata] at h
  exact Message.ext hprival hversion htimestamp hhostname happName hprocid hmsgid (hdata.trans hnil.symm)
    (optionalMsg_inj (List.append_cancel_left h))

/-! ## Parts that obey their rule -/

theorem isPrival_numeral {n : Nat} (h : n ≤ 191) : IsPrival (numeral n) where
  nonempty := List.length_pos_of_ne_nil (numeral_ne_nil n)
  short := length_numeral_le (by decide) (by omega)
  digits := numeral_isDigit n
  range := by rwa [decimal_numeral]

theorem isTimestamp_rfc3339 {c : Civil} (hc : c.Valid) (h0 : 0 ≤ c.year) (h1 : c.year ≤ 9999) {ms : Nat}
    (hms : ms < 1000) : IsTimestamp (rfc3339 c ms) := by
  have hlen : (padded 3 ms).length = 3 := length_padded_of_lt (by decide) hms
  refine .inr ⟨c, hc, h0, h1, 0x2E :: padded 3 ms, [0x5A], .inr ⟨_, rfl, by omega, by omega, padded_isDigit 3 ms⟩,
    .inl rfl, ?_⟩
  simp [rfc3339, dateTime]

theorem isMsg_of_utf8 {t : Bytes} (h : Utf8.Valid t) : IsMsg t := by
  by_cases hbom : bom <+: t
  · obtain ⟨s, rfl⟩ := hbom
    refine .inr ⟨s, ?_, rfl⟩
    -- the mark is one character, so what follows it is UTF-8 again
    obtain ⟨c, rest, hnext, hrest⟩ := (Utf8.valid_iff_next (by simp [bom])).1 h
    rw [Utf8.next_append (show Utf8.isChar bom = true by decide)] at hnext
    cases hnext
    exact hrest
  · exact .inl hbom

end Syslog
end Wire
