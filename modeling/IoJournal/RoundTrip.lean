import IoJournal.Wire.JsonParse
import IoJournal.EncodeText

/-!
# IoJournal.RoundTrip

A JSON line is read back to what the event said.

* `chars_escape`, `number_intNumeral`: escaped text and numerals are strings and numbers of the
  JSON grammar.
* `Record.json_derives`: the line of a record derives one JSON object.
* `readLine` is the receiver: it reads a parsed object by its member names.
* `jsonConsoleEncode_roundtrip`: what it reads describes the caller's event.
-/

namespace IoJournal

open Wire

/-! ## Strings -/

theorem escapeOf_special (a : UInt8) (hs : isJsonSpecial a = true) :
    (escapeOf a = [0x5C, (escapeOf a).getD 1 0] ∧ Json.simpleEscape ((escapeOf a).getD 1 0) = some a) ∨
    (escapeOf a = [0x5C, 0x75, 0x30, 0x30, (escapeOf a).getD 4 0, (escapeOf a).getD 5 0] ∧
      Json.basicCode 0x30 0x30 ((escapeOf a).getD 4 0) ((escapeOf a).getD 5 0) = some a.toNat ∧
      Json.utf8Encode a.toNat = [a]) := by
  revert hs
  induction a using forall_byte with
  | h n hn => revert n; decide +kernel

theorem chars_special {a : UInt8} (hs : isJsonSpecial a = true) {t s : Bytes} (h : Json.Chars t s) :
    Json.Chars (escapeOf a ++ t) (a :: s) := by
  obtain ⟨heq, hsimple⟩ | ⟨heq, hcode, hutf8⟩ := escapeOf_special a hs
  · rw [heq]
    exact .simple hsimple h
  · rw [heq]
    have := Json.Chars.unicode hcode h
    rwa [hutf8] at this

theorem not_special_of_high {a : UInt8} (h : 0x80 ≤ a.toNat) : isJsonSpecial a = false := by
  rw [Bool.eq_false_iff, ne_eq, isJsonSpecial_iff]
  rintro (h' | rfl | rfl)
  · rw [UInt8.lt_iff_toNat_lt] at h'
    have : (0x20 : UInt8).toNat = 0x20 := rfl
    omega
  · exact absurd h (by decide)
  · exact absurd h (by decide)

theorem isTail_high {b : UInt8} (h : Utf8.isTail b = true) : 0x80 ≤ b.toNat := ((isTail_iff b).1 h).1

theorem isChar_high {c : Bytes} (h : Utf8.isChar c = true) (hlen : 2 ≤ c.length) : ∀ b ∈ c, 0x80 ≤ b.toNat := by
  obtain ⟨a, rfl⟩ | ⟨a, b, rfl⟩ | ⟨a, b, d, rfl⟩ | ⟨a, b, d, e, rfl⟩ := Utf8.isChar_cases h
  · simp at hlen
  · have hlead := Utf8.isChar_two_lead h
    simp only [Utf8.isChar, Bool.and_eq_true] at h
    have hb := isTail_high h.2
    simp only [List.mem_cons, List.not_mem_nil, or_false, forall_eq_or_imp, forall_eq]
    omega
  · have hlead := Utf8.isChar_three_lead h
    simp only [Utf8.isChar, Bool.and_eq_true, Bool.or_eq_true, decide_eq_true_eq, beq_iff_eq, isTail_iff,
      UInt8.le_iff_toNat_le, UInt8.toNat_ofNat] at h
    simp only [List.mem_cons, List.not_mem_nil, or_false, forall_eq_or_imp, forall_eq]
    omega
  · have hlead := Utf8.isChar_four_lead h
    simp only [Utf8.isChar, Bool.and_eq_true, Bool.or_eq_true, decide_eq_true_eq, beq_iff_eq, isTail_iff,
      UInt8.le_iff_toNat_le, UInt8.toNat_ofNat] at h
    simp only [List.mem_cons, List.not_mem_nil, or_false, forall_eq_or_imp, forall_eq]
    omega

theorem unescaped_of_plain {c : Bytes} (h : Utf8.isChar c = true) (hplain : ∀ b ∈ c, isJsonSpecial b = false) :
    Json.unescaped c = true := by
  rw [Json.unescaped, h, Bool.true_and, List.all_eq_true]
  intro b hb
  have hs : ¬ (b < 0x20 ∨ b = 0x22 ∨ b = 0x5C) := by
    rw [← isJsonSpecial_iff, hplain b hb]; exact Bool.false_ne_true
  rw [not_or, not_or, UInt8.not_lt] at hs
  simp [hs]

theorem chars_escape {bs : Bytes} (h : Utf8.Valid bs) : Json.Chars (bs.flatMap escapeOf) bs := by
  induction h with
  | nil => exact .nil
  | @cons c rest hc _ ih =>
    rw [List.flatMap_append]
    by_cases hlen : 2 ≤ c.length
    · have hhigh := isChar_high hc hlen
      have hplain : ∀ b ∈ c, isJsonSpecial b = false := fun b hb => not_special_of_high (hhigh b hb)
      rw [flatMap_escapeOf_plain hplain]
      exact .plain (unescaped_of_plain hc hplain) ih
    · obtain ⟨a, rfl⟩ : ∃ a, c = [a] := by
        obtain ⟨a, rfl⟩ | ⟨a, b, rfl⟩ | ⟨a, b, d, rfl⟩ | ⟨a, b, d, e, rfl⟩ := Utf8.isChar_cases hc
        · exact ⟨a, rfl⟩
        all_goals simp at hlen
      rw [List.flatMap_singleton]
      cases hs : isJsonSpecial a with
      | true => exact chars_special hs ih
      | false =>
        rw [escapeOf_plain hs]
        exact .plain (unescaped_of_plain hc (by simpa using hs)) ih

theorem derives_jsonString {bs : Bytes} (h : Utf8.Valid bs) : Json.Derives (.value (.str bs)) (jsonString bs) :=
  .str (chars_escape h)

/-! ## Numbers -/

theorem number_intNumeral (n : Int) : Json.Number (intNumeral n) := by
  have hint := Json.intPart_numeral n.natAbs
  rw [intNumeral]
  split
  · exact ⟨[0x2D], numeral n.natAbs, [], [], by simp, .inr rfl, hint, .inl rfl, .inl rfl⟩
  · exact ⟨[], numeral n.natAbs, [], [], by simp, .inl rfl, hint, .inl rfl, .inl rfl⟩

theorem intNumeral_natCast (n : Nat) : intNumeral n = numeral n := by
  rw [intNumeral, if_neg (by omega), Int.natAbs_natCast]

theorem number_takeWhile {t : Bytes} (h : Json.Number t) : t.takeWhile (· != 0) = t := by
  have hdigits : ∀ ds, Json.Digits ds → ∀ b ∈ ds, (b != 0) = true := by
    intro ds hds b hb
    have := hds.2 b hb
    by_contra hzero
    rw [bne_iff_ne, ne_eq, not_not] at hzero
    subst hzero
    exact absurd this (by decide)
  obtain ⟨minus, int, frac, exp, rfl, hminus, hint, hfrac, hexp⟩ := h
  refine List.takeWhile_eq_self_iff.2 fun b hb => ?_
  simp only [List.mem_append] at hb
  rcases hb with hb | hb | hb | hb
  · rcases hminus with rfl | rfl
    · cases hb
    · rw [List.mem_singleton.1 hb]; decide
  · rcases hint with rfl | ⟨d, ds, rfl, -, hds⟩
    · rw [List.mem_singleton.1 hb]; decide
    · exact hdigits _ hds b hb
  · rcases hfrac with rfl | ⟨ds, rfl, hds⟩
    · cases hb
    · rcases List.mem_cons.1 hb with rfl | hb
      · decide
      · exact hdigits _ hds b hb
  · rcases hexp with rfl | ⟨e, sign, ds, rfl, he, hsign, hds⟩
    · cases hb
    · rcases List.mem_cons.1 hb with rfl | hb
      · rcases he with rfl | rfl <;> decide
      · rcases List.mem_append.1 hb with hb | hb
        · rcases hsign with rfl | rfl | rfl
          · cases hb
          · rw [List.mem_singleton.1 hb]; decide
          · rw [List.mem_singleton.1 hb]; decide
        · exact hdigits _ hds b hb

/-- The integer a literal without fraction and exponent stands for. -/
def readInt : Bytes → Option Int
  | [] => none
  | b :: ds =>
    if b = 0x2D then (readDigits ds).map fun n : Nat => -(n : Int)
    else (readDigits (b :: ds)).map fun n : Nat => (n : Int)

theorem readDigits_numeral (n : Nat) : readDigits (numeral n) = some n := by
  rw [readDigits, if_pos (List.all_eq_true.2 (numeral_isDigit n)), decimal_numeral]

theorem readInt_intNumeral (n : Int) : readInt (intNumeral n) = some n := by
  rw [intNumeral]
  split
  · rw [readInt, if_pos rfl, readDigits_numeral, Option.map_some]
    congr 1; omega
  · cases hd : numeral n.natAbs with
    | nil => exact absurd hd (numeral_ne_nil _)
    | cons d ds =>
      have hdigit := numeral_isDigit n.natAbs d (by rw [hd]; simp)
      have hne : d ≠ 0x2D := by
        rintro rfl
        exact absurd hdigit (by decide)
      rw [readInt, if_neg hne, ← hd, readDigits_numeral, Option.map_some]
      congr 1; omega

/-! ## Records -/

/-- A JSON value says what an attribute value says. -/
def Value.Reads (g17 : Double → Bytes) : Value → Json → Prop
  | .string bs, .str s => s = bs
  | .signed v, .num t => readInt t = some v.toInt
  | .unsigned v, .num t => readInt t = some (v.toNat : Int)
  | .bool v, .bool b => b = v
  | .double v, .num t => t = g17 v
  | _, _ => False

/-- What the JSON line needs of a value: text in UTF-8, finite numbers. -/
def Value.Valid : Value → Prop
  | .string bs => Utf8.Valid bs
  | .double v => v.isFinite = true
  | _ => True

structure Record.Valid (r : Record) : Prop where
  level : levelIsValid r.level = true
  nanoseconds : r.timestamp.nanoseconds < 1000000000
  eventName : Utf8.Valid r.eventName
  message : Utf8.Valid r.message
  logger : ∀ name, r.logger = some name → Utf8.Valid name
  attributes : ∀ p ∈ r.attributes, Utf8.Valid p.1 ∧ p.2.Valid
  keys : (r.attributes.map Prod.fst).Nodup

theorem Attr.stored_valid (mode : Int) {a : Attr} (h : AttrOk a) : (a.stored mode).Valid := by
  unfold Attr.stored
  have hok := h.2
  cases hv : a.value with
  | string data =>
    rw [hv] at hok
    cases data with
    | none => exact hok.elim
    | some bs =>
      dsimp only
      split
      · exact Utf8.valid_of_ascii (forall_mem_of_all (by decide))
      · exact hok.2
  | double v => rw [hv] at hok; exact hok
  | signed _ | unsigned _ | bool _ | other _ => trivial

theorem FieldOk.valid_cstrBytes {maxLen : Nat} {allowEmpty : Bool} {value : Option CString}
    (h : ∃ s, value = some s ∧ FieldOk maxLen allowEmpty s) : Utf8.Valid (cstrBytes value) := by
  obtain ⟨s, rfl, h⟩ := h
  exact h.2.2

theorem Event.WellFormed.record_valid {e : Event} (h : e.WellFormed) (mode : Int) : (e.record mode).Valid where
  level := h.level
  nanoseconds := h.nanoseconds
  eventName := FieldOk.valid_cstrBytes h.name
  message := FieldOk.valid_cstrBytes h.message
  logger name hname := by
    obtain ⟨s, hs, rfl⟩ := Option.map_eq_some_iff.1 hname
    exact (h.logger s hs).2.2
  attributes p hp := by
    obtain ⟨a, ha, rfl⟩ := List.mem_map.1 hp
    exact ⟨FieldOk.valid_cstrBytes (h.attrs a ha).1, a.stored_valid mode (h.attrs a ha)⟩
  keys := by
    have := h.keys
    rwa [Event.record, List.map_map]

/-- An attribute as a member. -/
def AttrReads (g17 : Double → Bytes) (p : Bytes × Value) (m : Bytes × Json) : Prop := m.1 = p.1 ∧ p.2.Reads g17 m.2

theorem attrReads_keys {g17 : Double → Bytes} {ps : List (Bytes × Value)} {ms : List (Bytes × Json)}
    (h : List.Forall₂ (AttrReads g17) ps ms) : ms.map Prod.fst = ps.map Prod.fst := by
  induction h with
  | nil => rfl
  | cons h _ ih => rw [List.map_cons, List.map_cons, h.1, ih]

section Derivations

variable {g17 : Double → Bytes} (hg : ∀ d : Double, d.isFinite = true → Json.Number (g17 d))
include hg

theorem Value.json_derives {v : Value} (hv : v.Valid) {t : Bytes} (h : v.json g17 = some t) :
    ∃ j, Json.Derives (.value j) t ∧ v.Reads g17 j := by
  cases v with
  | string bs =>
    cases h
    exact ⟨_, derives_jsonString hv, rfl⟩
  | signed v =>
    cases h
    exact ⟨_, .num (number_intNumeral _), readInt_intNumeral _⟩
  | unsigned v =>
    cases h
    rw [← intNumeral_natCast]
    exact ⟨_, .num (number_intNumeral _), readInt_intNumeral _⟩
  | bool v =>
    cases h
    cases v
    · exact ⟨_, .false, rfl⟩
    · exact ⟨_, .true, rfl⟩
  | double v =>
    rw [Value.json] at h
    split at h
    · cases h
    · cases h
      rw [number_takeWhile (hg v hv)]
      exact ⟨_, .num (hg v hv), rfl⟩

theorem attr_memberText {key : Bytes} {value : Value} (hk : Utf8.Valid key) (hv : value.Valid) {t : Bytes}
    (h : value.json g17 = some t) :
    ∃ j, Json.MemberText (key, j) (jsonString key ++ [0x3A] ++ t) ∧ value.Reads g17 j := by
  obtain ⟨j, hj, hreads⟩ := Value.json_derives hg hv h
  refine ⟨j, ⟨key.flatMap escapeOf, t, chars_escape hk, hj, ?_⟩, hreads⟩
  simp [jsonString]

theorem attrsJson_cons {p : Bytes × Value} {ps : List (Bytes × Value)} (hk : Utf8.Valid p.1) (hv : p.2.Valid) {first : Bool}
    {t : Bytes} (h : attrsJson g17 first (p :: ps) = some t) :
    ∃ j u rest, t = (if first then [] else [0x2C]) ++ (u ++ rest) ∧ Json.MemberText (p.1, j) u ∧ p.2.Reads g17 j ∧
      attrsJson g17 false ps = some rest := by
  obtain ⟨key, value⟩ := p
  rw [attrsJson] at h
  obtain ⟨s, u, hs, hu, rfl⟩ := joinText_eq_some h
  cases hs
  obtain ⟨v, rest, hjson, hrest, rfl⟩ := joinText_eq_some hu
  obtain ⟨j, hj, hreads⟩ := attr_memberText hg hk hv hjson
  exact ⟨j, _, rest, by simp, hj, hreads, hrest⟩

theorem attrsJson_members (ps : List (Bytes × Value)) :
    ∀ {t : Bytes}, (∀ p ∈ ps, Utf8.Valid p.1 ∧ p.2.Valid) → attrsJson g17 false ps = some t →
      ∃ ms ts, t = ts.flatMap (fun t => 0x2C :: t) ∧ List.Forall₂ Json.MemberText ms ts ∧
        List.Forall₂ (AttrReads g17) ps ms := by
  induction ps with
  | nil =>
    intro t _ h
    cases h
    exact ⟨[], [], rfl, .nil, .nil⟩
  | cons p ps ih =>
    intro t hvalid h
    rw [List.forall_mem_cons] at hvalid
    obtain ⟨j, u, rest, rfl, hj, hreads, hrest⟩ := attrsJson_cons hg hvalid.1.1 hvalid.1.2 h
    obtain ⟨ms, ts, rfl, hms, hps⟩ := ih hvalid.2 hrest
    exact ⟨(p.1, j) :: ms, u :: ts, by simp, .cons hj hms, .cons ⟨rfl, hreads⟩ hps⟩

theorem attrsJson_derives {ps : List (Bytes × Value)} (hne : ps ≠ []) (hvalid : ∀ p ∈ ps, Utf8.Valid p.1 ∧ p.2.Valid)
    {t : Bytes} (h : attrsJson g17 true ps = some t) :
    ∃ ms, Json.Derives (.members ms) t ∧ List.Forall₂ (AttrReads g17) ps ms := by
  cases ps with
  | nil => exact absurd rfl hne
  | cons p ps =>
    rw [List.forall_mem_cons] at hvalid
    obtain ⟨j, u, rest, rfl, hj, hreads, hrest⟩ := attrsJson_cons hg hvalid.1.1 hvalid.1.2 h
    obtain ⟨ms, ts, rfl, hms, hps⟩ := attrsJson_members hg ps hvalid.2 hrest
    refine ⟨(p.1, j) :: ms, ?_, .cons ⟨rfl, hreads⟩ hps⟩
    have := Json.derives_members hms hj
    simpa using this

end Derivations

def Level.name : Level → Bytes
  | .trace => ascii "trace"
  | .debug => ascii "debug"
  | .info => ascii "info"
  | .warn => ascii "warn"
  | .error => ascii "error"
  | .fatal => ascii "fatal"

theorem levelToJsonLiteral_eq {code : Int} {level : Level} (h : Level.ofCode? code = some level) :
    levelToJsonLiteral code = jsonString level.name := by
  rw [levelToJsonLiteral, h]
  cases level <;> decide

theorem Level.name_valid (level : Level) : Utf8.Valid level.name := by
  cases level <;> exact Utf8.valid_of_ascii (forall_mem_of_all (by decide))

theorem Timestamp.jsonString_text (ts : Timestamp) : jsonString ts.text = 0x22 :: (ts.text ++ [0x22]) := by
  rw [jsonString, flatMap_escapeOf_plain]
  intro b hb
  rw [Bool.eq_false_iff, ne_eq, isJsonSpecial_iff]
  have := Timestamp.mem_text hb
  rintro (h | rfl | rfl)
  · exact absurd (UInt8.lt_of_lt_of_le h (UInt8.le_trans (by decide) this.1)) (UInt8.lt_irrefl _)
  · exact absurd this.1 (by decide)
  · exact absurd this.2 (by decide)

theorem Timestamp.text_valid (ts : Timestamp) : Utf8.Valid ts.text := by
  refine Utf8.valid_of_ascii fun b hb => ?_
  have := (Timestamp.mem_text hb).2
  rw [UInt8.le_iff_toNat_le] at this
  have h5A : (0x5A : UInt8).toNat = 0x5A := rfl
  omega

/-- The members of a line. -/
def Record.members (r : Record) (level : Level) (attrs : List (Bytes × Json)) : List (Bytes × Json) :=
  (ascii "timestamp", .str r.timestamp.text) ::
    ([(ascii "level", .str level.name), (ascii "event_name", .str r.eventName), (ascii "message", .str r.message)] ++
      (match r.logger with
        | none => []
        | some name => [(ascii "logger", .str name)]) ++
      (match attrs with
        | [] => []
        | _ => [(ascii "attributes", .obj attrs)]))

theorem str_memberText {name s : Bytes} (hname : Utf8.Valid name) (hs : Utf8.Valid s) :
    Json.MemberText (name, .str s) (jsonString name ++ [0x3A] ++ jsonString s) :=
  ⟨name.flatMap escapeOf, jsonString s, chars_escape hname, derives_jsonString hs, by simp [jsonString]⟩

theorem Record.logger_members {r : Record} (hv : r.Valid) :
    ∃ ts, r.jsonLogger = ts.flatMap (fun t => 0x2C :: t) ∧
      List.Forall₂ Json.MemberText (match r.logger with
        | none => []
        | some name => [(ascii "logger", .str name)]) ts := by
  have hlogger := hv.logger
  rw [Record.jsonLogger]
  cases hr : r.logger with
  | none => exact ⟨[], rfl, .nil⟩
  | some name =>
    refine ⟨[_], ?_, .cons (str_memberText (Utf8.valid_of_ascii (forall_mem_of_all (by decide))) (hlogger name hr)) .nil⟩
    simp only [List.flatMap_cons, List.flatMap_nil, List.append_nil]
    rfl

theorem Record.attrs_members {g17 : Double → Bytes} (hg : ∀ d : Double, d.isFinite = true → Json.Number (g17 d))
    {r : Record} (hv : r.Valid) {t : Bytes} (h : r.jsonAttrs g17 = some t) :
    ∃ attrs ts, List.Forall₂ (AttrReads g17) r.attributes attrs ∧ t = ts.flatMap (fun t => 0x2C :: t) ∧
      List.Forall₂ Json.MemberText (match attrs with
        | [] => []
        | _ => [(ascii "attributes", .obj attrs)]) ts := by
  rw [Record.jsonAttrs] at h
  split at h
  · rename_i hnil
    cases h
    rw [hnil]
    exact ⟨[], [], .nil, rfl, .nil⟩
  · rename_i hne
    obtain ⟨s, u, hs, hu, rfl⟩ := joinText_eq_some h
    obtain ⟨inner, tail, hinner, htail, rfl⟩ := joinText_eq_some hu
    cases hs
    cases htail
    obtain ⟨attrs, hderives, hreads⟩ := attrsJson_derives hg hne hv.attributes hinner
    cases attrs with
    | nil => exact absurd (List.forall₂_nil_right_iff.1 hreads) hne
    | cons m ms =>
      have hkey : Json.Chars ((ascii "attributes").flatMap escapeOf) (ascii "attributes") :=
        chars_escape (Utf8.valid_of_ascii (forall_mem_of_all (by decide)))
      refine ⟨m :: ms, [_], hreads, ?_, .cons ⟨_, _, hkey, .obj hderives, rfl⟩ .nil⟩
      simp only [List.flatMap_cons, List.flatMap_nil, List.append_nil]
      rfl

theorem Record.json_derives {g17 : Double → Bytes} (hg : ∀ d : Double, d.isFinite = true → Json.Number (g17 d))
    {r : Record} (hv : r.Valid) {t : Bytes} (h : r.json g17 = some t) :
    r.timestamp.Formattable ∧ ∃ level attrs, Level.ofCode? r.level = some level ∧
      List.Forall₂ (AttrReads g17) r.attributes attrs ∧
      Json.Derives (.value (.obj (r.members level attrs))) t := by
  rw [Record.json] at h
  split at h
  · rename_i hy
    refine ⟨hy, ?_⟩
    obtain ⟨level, hlevel⟩ := (levelIsValid_iff r.level).1 hv.level
    obtain ⟨head, u, hhead, hu, rfl⟩ := joinText_eq_some h
    obtain ⟨attrsText, tail, hattrs, htail, rfl⟩ := joinText_eq_some hu
    cases hhead
    cases htail
    obtain ⟨attrs, ts₂, hreads, rfl, hmem₂⟩ := Record.attrs_members hg hv hattrs
    obtain ⟨ts₁, hlogger, hmem₁⟩ := Record.logger_members hv
    refine ⟨level, attrs, hlevel, hreads, ?_⟩
    have ha : ∀ name : String, (∀ b ∈ ascii name, b.toNat ≤ 0x7F) → Utf8.Valid (ascii name) := fun _ =>
      Utf8.valid_of_ascii
    have hfirst := str_memberText (ha "timestamp" (forall_mem_of_all (by decide))) r.timestamp.text_valid
    have hrest : List.Forall₂ Json.MemberText
        [(ascii "level", .str level.name), (ascii "event_name", .str r.eventName), (ascii "message", .str r.message)]
        _ :=
      .cons (str_memberText (ha "level" (forall_mem_of_all (by decide))) level.name_valid)
        (.cons (str_memberText (ha "event_name" (forall_mem_of_all (by decide))) hv.eventName)
          (.cons (str_memberText (ha "message" (forall_mem_of_all (by decide))) hv.message) .nil))
    have hderives := Json.Derives.obj (Json.derives_members (List.rel_append (List.rel_append hrest hmem₁) hmem₂) hfirst)
    -- the literals of the encoder, cut at the borders of the members
    have h₁ : ascii "\x7b\"timestamp\":\"" = 0x7B :: (jsonString (ascii "timestamp") ++ [0x3A, 0x22]) := by decide
    have h₂ : ascii "\",\"level\":" = 0x22 :: 0x2C :: (jsonString (ascii "level") ++ [0x3A]) := by decide
    have h₃ : ascii ",\"event_name\":" = 0x2C :: (jsonString (ascii "event_name") ++ [0x3A]) := by decide
    have h₄ : ascii ",\"message\":" = 0x2C :: (jsonString (ascii "message") ++ [0x3A]) := by decide
    rw [Timestamp.jsonString_text] at hderives
    rw [Record.jsonHead, levelToJsonLiteral_eq hlevel, hlogger, h₁, h₂, h₃, h₄]
    simp only [List.flatMap_append, List.flatMap_cons, List.append_assoc, List.cons_append, List.nil_append]
      at hderives ⊢
    exact hderives
  · cases h

/-! ## The receiver -/

/-- What a receiver reads in a line. -/
structure Line where
  seconds : Int
  milliseconds : Nat
  level : Level
  eventName : Bytes
  message : Bytes
  logger : Option Bytes
  attributes : List (Bytes × Json)

def Level.ofName? (name : Bytes) : Option Level :=
  [Level.trace, .debug, .info, .warn, .error, .fatal].find? fun level => level.name == name

def str? : Json → Option Bytes
  | .str s => some s
  | _ => none

def readLogger : Option Json → Option (Option Bytes)
  | none => some none
  | some (.str s) => some (some s)
  | _ => none

def readAttributes : Option Json → Option (List (Bytes × Json))
  | none => some []
  | some (.obj ms) => some ms
  | _ => none

/-- Reads an object by its member names. -/
def readLine : Json → Option Line
  | .obj ms => do
    let (seconds, milliseconds) ← readRfc3339 (← str? (← ms.lookup (ascii "timestamp")))
    let level ← Level.ofName? (← str? (← ms.lookup (ascii "level")))
    let eventName ← str? (← ms.lookup (ascii "event_name"))
    let message ← str? (← ms.lookup (ascii "message"))
    let logger ← readLogger (ms.lookup (ascii "logger"))
    let attributes ← readAttributes (ms.lookup (ascii "attributes"))
    return ⟨seconds, milliseconds, level, eventName, message, logger, attributes⟩
  | _ => none

/-- A line says what the event said: the time to the millisecond, the level, the texts, and every
attribute in its place, with the literal for a value that redaction replaced. -/
structure Line.Describes (g17 : Double → Bytes) (mode : Int) (line : Line) (e : Event) : Prop where
  seconds : line.seconds = e.timestamp.unixSeconds.toInt
  milliseconds : line.milliseconds = e.timestamp.nanoseconds.toNat / 1000000
  level : Level.ofCode? e.level = some line.level
  eventName : e.eventName.map (·.bytes) = some line.eventName
  message : e.message.map (·.bytes) = some line.message
  logger : line.logger = e.logger.map (·.bytes)
  attributes : List.Forall₂ (fun a p => a.key.map (·.bytes) = some p.1 ∧ (a.stored mode).Reads g17 p.2)
    e.attributes.toList line.attributes

theorem Level.ofName?_name (level : Level) : Level.ofName? level.name = some level := by
  cases level <;> decide

theorem lookup_hit (k : Bytes) (v : Json) (ms : List (Bytes × Json)) : ((k, v) :: ms).lookup k = some v := by
  rw [List.lookup_cons, beq_self_eq_true]

theorem lookup_skip {k k' : Bytes} (h : k ≠ k') (v : Json) (ms : List (Bytes × Json)) :
    ((k', v) :: ms).lookup k = ms.lookup k := by
  rw [List.lookup_cons, beq_eq_false_iff_ne.2 h]

theorem Record.readLine_members {r : Record} (hv : r.Valid) (hy : r.timestamp.Formattable) (level : Level)
    (attrs : List (Bytes × Json)) :
    readLine (.obj (r.members level attrs)) = some ⟨r.timestamp.unixSeconds.toInt,
      r.timestamp.nanoseconds.toNat / 1000000, level, r.eventName, r.message, r.logger, attrs⟩ := by
  have htime := Timestamp.readRfc3339_text hv.nanoseconds hy
  have hlogger : readLogger ((r.members level attrs).lookup (ascii "logger")) = some r.logger := by
    unfold Record.members
    cases r.logger <;> cases attrs <;>
      simp (disch := decide) only [List.cons_append, List.nil_append, List.append_nil, lookup_hit, lookup_skip,
        List.lookup_nil, readLogger]
  have hattrs : readAttributes ((r.members level attrs).lookup (ascii "attributes")) = some attrs := by
    unfold Record.members
    cases r.logger <;> cases attrs <;>
      simp (disch := decide) only [List.cons_append, List.nil_append, List.append_nil, lookup_hit, lookup_skip,
        List.lookup_nil, readAttributes]
  rw [readLine, hlogger, hattrs]
  simp (disch := decide) only [Record.members, List.cons_append, lookup_hit, lookup_skip, str?, htime,
    Level.ofName?_name, Option.bind_eq_bind, Option.bind_some]
  rfl

theorem Record.members_nodup (r : Record) (level : Level) (attrs : List (Bytes × Json)) :
    ((r.members level attrs).map Prod.fst).Nodup := by
  unfold Record.members
  cases r.logger <;> cases attrs
  · exact (by decide : [ascii "timestamp", ascii "level", ascii "event_name", ascii "message"].Nodup)
  · exact (by decide : [ascii "timestamp", ascii "level", ascii "event_name", ascii "message",
      ascii "attributes"].Nodup)
  · exact (by decide : [ascii "timestamp", ascii "level", ascii "event_name", ascii "message", ascii "logger"].Nodup)
  · exact (by decide : [ascii "timestamp", ascii "level", ascii "event_name", ascii "message", ascii "logger",
      ascii "attributes"].Nodup)

theorem Event.record_describes {g17 : Double → Bytes} {e : Event} (h : e.WellFormed) {mode : Int} {level : Level}
    (hlevel : Level.ofCode? e.level = some level) {attrs : List (Bytes × Json)}
    (hattrs : List.Forall₂ (AttrReads g17) (e.record mode).attributes attrs) :
    Line.Describes g17 mode ⟨e.timestamp.unixSeconds.toInt, e.timestamp.nanoseconds.toNat / 1000000, level,
      (e.record mode).eventName, (e.record mode).message, (e.record mode).logger, attrs⟩ e where
  seconds := rfl
  milliseconds := rfl
  level := hlevel
  eventName := by
    obtain ⟨s, hs, -⟩ := h.name
    simp [Event.record, cstrBytes, hs]
  message := by
    obtain ⟨s, hs, -⟩ := h.message
    simp [Event.record, cstrBytes, hs]
  logger := rfl
  attributes := by
    have hok := h.attrs
    rw [Event.record] at hattrs
    generalize e.attributes.toList = as at hattrs hok
    induction as generalizing attrs with
    | nil => cases hattrs; exact .nil
    | cons a as ih =>
      cases hattrs with
      | cons ha hrest =>
        rw [List.forall_mem_cons] at hok
        obtain ⟨⟨s, hs, -⟩, -⟩ := hok.1
        refine .cons ⟨?_, ha.2⟩ (ih hrest hok.2)
        rw [ha.1]
        show a.key.map (·.bytes) = some (cstrBytes a.key)
        rw [hs]
        rfl

/-- The output of a successful encoder is one JSON object, made of the members of the record. -/
theorem jsonConsoleEncode_members {g17 : Double → Bytes}
    (hg : ∀ d : Double, d.isFinite = true → Json.Number (g17 d)) {cpu : Cpu} {heap : Heap} {e : Event} {mode : Int}
    {c : EventCopy} (hcopy : eventCopyFromInput cpu heap (some e) mode = .ok c) {buffer : Bytes}
    (hok : (jsonConsoleEncode cpu g17 (some c) (some buffer)).status = .ok) :
    e.WellFormed ∧ (e.record mode).timestamp.Formattable ∧ ∃ level attrs, Level.ofCode? e.level = some level ∧
      List.Forall₂ (AttrReads g17) (e.record mode).attributes attrs ∧
      Json.Text (.obj ((e.record mode).members level attrs))
        (jsonConsoleEncode cpu g17 (some c) (some buffer)).output := by
  obtain ⟨hwf, hrep⟩ := eventCopyFromInput_represents hcopy
  have hvalid := hwf.record_valid mode
  obtain ⟨t, ht, -, -, hout⟩ := (jsonConsoleEncode_encodes cpu g17 hrep hvalid.nanoseconds buffer).output hok
  obtain ⟨hy, level, attrs, hlevel, hreads, hderives⟩ := Record.json_derives hg hvalid ht
  rw [hout]
  exact ⟨hwf, hy, level, attrs, hlevel, hreads, [], t, [], by simp, Json.ws_nil, hderives, Json.ws_nil⟩

/-- Every line that `jsonConsoleEncode` writes for a copied event is one JSON object without a
repeated member name, and a receiver that parses it reads what the event said. -/
theorem jsonConsoleEncode_roundtrip (g17 : Double → Bytes)
    (hg : ∀ d : Double, d.isFinite = true → Json.Number (g17 d)) (cpu : Cpu) (heap : Heap) (e : Event) (mode : Int)
    (c : EventCopy) (hcopy : eventCopyFromInput cpu heap (some e) mode = .ok c) (buffer : Bytes)
    (hok : (jsonConsoleEncode cpu g17 (some c) (some buffer)).status = .ok) :
    ∃ members line,
      Json.Text (.obj members) (jsonConsoleEncode cpu g17 (some c) (some buffer)).output ∧
      Json.parse (jsonConsoleEncode cpu g17 (some c) (some buffer)).output = some (.obj members) ∧
      (members.map Prod.fst).Nodup ∧ (line.attributes.map Prod.fst).Nodup ∧
      readLine (.obj members) = some line ∧ line.Describes g17 mode e := by
  obtain ⟨hwf, hy, level, attrs, hlevel, hreads, htext⟩ := jsonConsoleEncode_members hg hcopy hok
  have hvalid := hwf.record_valid mode
  refine ⟨_, _, htext, Json.parse_complete htext, Record.members_nodup _ _ _, ?_,
    Record.readLine_members hvalid hy level attrs, Event.record_describes hwf hlevel hreads⟩
  show (attrs.map Prod.fst).Nodup
  rw [attrReads_keys hreads]
  exact hvalid.keys

/-- `%.17g` on the only double of `loginEvent`. -/
def printHalf (_ : Double) : Bytes := ascii "0.5"

theorem printHalf_number (d : Double) : Json.Number (printHalf d) :=
  ⟨[], [0x30], [0x2E, 0x35], [], by unfold printHalf; decide, .inl rfl, .inl rfl, .inr ⟨[0x35], rfl, by decide, forall_mem_of_all (by decide)⟩, .inl rfl⟩

theorem jsonConsoleEncode_roundtrip_login :
    ∃ c, eventCopyFromInput scalarCpu zeroHeap (some loginEvent) redactionModeEnabled = .ok c ∧
      (jsonConsoleEncode scalarCpu printHalf (some c) (some (List.replicate 256 0))).status = .ok ∧
      ∃ members line,
        Json.Text (.obj members) (jsonConsoleEncode scalarCpu printHalf (some c) (some (List.replicate 256 0))).output ∧
        Json.parse (jsonConsoleEncode scalarCpu printHalf (some c) (some (List.replicate 256 0))).output =
          some (.obj members) ∧
        (members.map Prod.fst).Nodup ∧ (line.attributes.map Prod.fst).Nodup ∧
        readLine (.obj members) = some line ∧ line.Describes printHalf redactionModeEnabled loginEvent :=
  ⟨_, rfl, by decide +kernel, jsonConsoleEncode_roundtrip printHalf (fun d _ => printHalf_number d) scalarCpu zeroHeap
    loginEvent redactionModeEnabled _ rfl (List.replicate 256 0) (by decide +kernel)⟩

end IoJournal
