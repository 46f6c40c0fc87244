import IoJournal.RoundTrip

/-!
# IoJournal.Capacity

How long a line is, and which buffers hold it.

`Record.width` counts the octets of a record's line from its fields: two quotes and one, two or six
octets per octet of text, the digits of a number, the separators. A record of an accepted event has
a line of exactly that length (`Record.json_width`), so an encoder succeeds on a buffer exactly when
the line and its terminator fit.
-/

namespace IoJournal

open Wire

/-! ## The width of a line -/

def escapeWidth (c : UInt8) : Nat :=
  if c = 0x5C ∨ c = 0x22 ∨ c = 0x0A ∨ c = 0x0D ∨ c = 0x09 then 2 else if c < 0x20 then 6 else 1

/-- A text with its quotes. -/
def textWidth (bs : Bytes) : Nat := (bs.map escapeWidth).sum + 2

def Value.width (g17 : Double → Bytes) : Value → Nat
  | .string bs => textWidth bs
  | .signed v => (intNumeral v.toInt).length
  | .unsigned v => (numeral v.toNat).length
  | .bool v => if v then 4 else 5
  | .double v => ((g17 v).takeWhile (· != 0)).length

/-- A member of `attributes` with its colon and one separator. -/
def attrWidth (g17 : Double → Bytes) (p : Bytes × Value) : Nat := textWidth p.1 + 1 + p.2.width g17 + 1

def Record.attrsWidth (g17 : Double → Bytes) (r : Record) : Nat :=
  if r.attributes = [] then 0 else 15 + (r.attributes.map (attrWidth g17)).sum

def Record.loggerWidth (r : Record) : Nat :=
  match r.logger with
  | none => 0
  | some name => 10 + textWidth name

/-- The length of the line of a record. -/
def Record.width (g17 : Double → Bytes) (r : Record) : Nat :=
  48 + (levelToJsonLiteral r.level).length + 14 + textWidth r.eventName + 11 + textWidth r.message + r.loggerWidth +
    r.attrsWidth g17 + 1

theorem length_escapeOf (c : UInt8) : (escapeOf c).length = escapeWidth c := by
  unfold escapeOf escapeWidth
  by_cases h1 : c = 0x5C
  · simp [h1]
  by_cases h2 : c = 0x22
  · simp [h2]
  by_cases h3 : c = 0x0A
  · simp [h3]
  by_cases h4 : c = 0x0D
  · simp [h4]
  by_cases h5 : c = 0x09
  · simp [h5]
  simp only [h1, h2, h3, h4, h5, if_false, or_self]
  split <;> rfl

theorem length_jsonString (bs : Bytes) : (jsonString bs).length = textWidth bs := by
  have hlen : (bs.flatMap escapeOf).length = (bs.map escapeWidth).sum := by
    rw [List.length_flatMap]
    simp only [length_escapeOf]
  rw [jsonString, List.length_cons, List.length_append, List.length_singleton, hlen, textWidth]

section Width

variable {g17 : Double → Bytes} (hg : ∀ d : Double, d.isFinite = true → (g17 d).length < 64)
include hg

theorem Value.json_width {v : Value} (h : v.Valid) : ∃ t, v.json g17 = some t ∧ t.length = v.width g17 := by
  cases v with
  | string bs => exact ⟨_, rfl, length_jsonString bs⟩
  | signed v => exact ⟨_, rfl, rfl⟩
  | unsigned v => exact ⟨_, rfl, rfl⟩
  | bool v =>
    cases v with
    | false => exact ⟨_, rfl, rfl⟩
    | true => exact ⟨_, rfl, rfl⟩
  | double v => exact ⟨_, if_neg (Nat.not_le.2 (hg v h)), rfl⟩

/-- The attribute loop: the separator of the first member is the closing brace. -/
theorem attrsJson_width {ps : List (Bytes × Value)} (h : ∀ p ∈ ps, p.2.Valid) :
    ∀ first, ∃ t, attrsJson g17 first ps = some t ∧
      (ps ≠ [] → t.length + (if first then 1 else 0) = (ps.map (attrWidth g17)).sum) ∧ (ps = [] → t = []) := by
  induction ps with
  | nil =>
    intro first
    exact ⟨[], rfl, fun h => absurd rfl h, fun _ => rfl⟩
  | cons p ps ih =>
    intro first
    rw [List.forall_mem_cons] at h
    obtain ⟨key, value⟩ := p
    obtain ⟨tv, htv, hlv⟩ := Value.json_width hg h.1
    obtain ⟨ts, hts, hls, hnil⟩ := ih h.2 false
    refine ⟨_, by rw [attrsJson, htv, hts, joinText_some, joinText_some], fun _ => ?_, fun h => by cases h⟩
    have hrest : ts.length = (ps.map (attrWidth g17)).sum := by
      cases ps with
      | nil => simp [hnil rfl]
      | cons q ps => simpa using hls (List.cons_ne_nil q ps)
    simp only [List.length_append, length_jsonString, List.map_cons, List.sum_cons, attrWidth, hlv, hrest,
      List.length_singleton]
    cases first with
    | true => simp only [if_true, List.length_nil]; omega
    | false => simp only [Bool.false_eq_true, if_false, List.length_singleton]; omega

theorem Record.jsonAttrs_width {r : Record} (h : r.Valid) :
    ∃ t, r.jsonAttrs g17 = some t ∧ t.length = r.attrsWidth g17 := by
  unfold Record.jsonAttrs Record.attrsWidth
  by_cases hnil : r.attributes = []
  · exact ⟨[], if_pos hnil, by rw [if_pos hnil, List.length_nil]⟩
  · obtain ⟨t, ht, hlen, -⟩ := attrsJson_width hg (fun p hp => (h.attributes p hp).2) true
    have hlen := hlen hnil
    refine ⟨_, by rw [if_neg hnil, ht, joinText_some, joinText_some], ?_⟩
    rw [if_neg hnil, List.length_append, List.length_append, ← hlen,
      show (ascii ",\"attributes\":\x7b").length = 15 by decide]
    rfl

omit hg in
theorem Record.length_jsonLogger (r : Record) : r.jsonLogger.length = r.loggerWidth := by
  unfold Record.jsonLogger Record.loggerWidth
  cases r.logger with
  | none => rfl
  | some name =>
    rw [List.length_append, length_jsonString]
    rfl

theorem Record.json_width {r : Record} (h : r.Valid) (hy : r.timestamp.Formattable) :
    ∃ s, r.json g17 = some s ∧ s.length = r.width g17 := by
  obtain ⟨t, ht, hlen⟩ := Record.jsonAttrs_width hg h
  refine ⟨_, by rw [Record.json, if_pos hy, ht, joinText_some, joinText_some], ?_⟩
  simp only [List.length_append, Record.jsonHead, Record.length_jsonLogger, length_jsonString, hlen,
    Timestamp.length_text h.nanoseconds hy, Record.width, List.length_singleton]
  rw [show (ascii "\x7b\"timestamp\":\"").length = 14 by decide, show (ascii "\",\"level\":").length = 10 by decide,
    show (ascii ",\"event_name\":").length = 14 by decide, show (ascii ",\"message\":").length = 11 by decide]
  omega

end Width

/-! ## The buffers that hold it -/

theorem Encodes.capacity {r : Encoded} {n : Nat} {s : Bytes} (h : Encodes r n (some s)) :
    (r.status = .ok ↔ s.length + 1 ≤ n) ∧
      (s.length + 1 ≤ n → r.outLen = some s.length ∧ r.buffer.read 0 (s.length + 1) = s ++ [0]) ∧
      (n < s.length + 1 → r.status = .encodeError ∧ r.outLen = none) := by
  have herr : n < s.length + 1 → r.status = .encodeError ∧ r.outLen = none := by
    intro hlt
    refine h.full fun u hu => ?_
    cases hu
    omega
  refine ⟨⟨fun hok => ?_, fun hle => (h.ok s rfl hle).1⟩, fun hle => (h.ok s rfl hle).2, herr⟩
  by_contra hlt
  have := (herr (by omega)).1
  rw [hok] at this
  cases this

/-- One text, whatever the buffer: the encoders succeed exactly on the buffers with room for it. -/
theorem jsonConsoleEncode_capacity (g17 : Double → Bytes) (hg : ∀ d : Double, d.isFinite = true → (g17 d).length < 64)
    (cpu : Cpu) (heap : Heap) (e : Event) (mode : Int) (c : EventCopy)
    (hcopy : eventCopyFromInput cpu heap (some e) mode = .ok c) (hy : c.timestamp.Formattable) :
    ∃ (L : Nat) (S : Bytes), S.length = L ∧ ∀ buffer : Bytes, 1 ≤ buffer.length →
      let json := jsonConsoleEncode cpu g17 (some c) (some buffer)
      let ndjson := ndjsonEncode cpu g17 (some c) (some buffer)
      ((json.status = .ok ↔ L + 1 ≤ buffer.length) ∧
        (L + 1 ≤ buffer.length → json.outLen = some L ∧ json.buffer.read 0 (L + 1) = S ++ [0]) ∧
        (buffer.length < L + 1 → json.status = .encodeError ∧ json.outLen = none)) ∧
      ((ndjson.status = .ok ↔ L + 2 ≤ buffer.length) ∧
        (L + 2 ≤ buffer.length →
          ndjson.outLen = some (L + 1) ∧ ndjson.buffer.read 0 (L + 2) = S ++ [0x0A, 0]) ∧
        (buffer.length < L + 2 → ndjson.status = .encodeError ∧ ndjson.outLen = none)) := by
  obtain ⟨hwf, hrep⟩ := eventCopyFromInput_represents hcopy
  have hvalid := hwf.record_valid mode
  rw [hrep.timestamp] at hy
  obtain ⟨s, hs, -⟩ := Record.json_width hg hvalid hy
  refine ⟨s.length, s, rfl, fun buffer _ => ⟨?_, ?_⟩⟩
  · have henc := jsonConsoleEncode_encodes cpu g17 hrep hvalid.nanoseconds buffer
    rw [hs] at henc
    exact henc.capacity
  · have henc := ndjsonEncode_encodes cpu g17 hrep hvalid.nanoseconds buffer
    rw [hs, Option.map_some] at henc
    have := henc.capacity
    simp only [List.length_append, List.length_singleton, List.append_assoc] at this
    exact this

theorem jsonConsoleEncode_capacity_login :
    ∃ c, eventCopyFromInput scalarCpu zeroHeap (some loginEvent) redactionModeEnabled = .ok c ∧
      ∃ (L : Nat) (S : Bytes), S.length = L ∧ ∀ buffer : Bytes, 1 ≤ buffer.length →
        let json := jsonConsoleEncode scalarCpu printHalf (some c) (some buffer)
        let ndjson := ndjsonEncode scalarCpu printHalf (some c) (some buffer)
        ((json.status = .ok ↔ L + 1 ≤ buffer.length) ∧
          (L + 1 ≤ buffer.length → json.outLen = some L ∧ json.buffer.read 0 (L + 1) = S ++ [0]) ∧
          (buffer.length < L + 1 → json.status = .encodeError ∧ json.outLen = none)) ∧
        ((ndjson.status = .ok ↔ L + 2 ≤ buffer.length) ∧
          (L + 2 ≤ buffer.length →
            ndjson.outLen = some (L + 1) ∧ ndjson.buffer.read 0 (L + 2) = S ++ [0x0A, 0]) ∧
          (buffer.length < L + 2 → ndjson.status = .encodeError ∧ ndjson.outLen = none)) :=
  ⟨_, rfl, jsonConsoleEncode_capacity printHalf (fun _ _ => by unfold printHalf; decide) scalarCpu zeroHeap loginEvent
    redactionModeEnabled _ rfl (by decide)⟩

end IoJournal
