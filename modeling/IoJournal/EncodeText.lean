import Mathlib.Data.List.TakeWhile
import IoJournal.Encode
import IoJournal.EventCopy

/-!
# IoJournal.EncodeText

The text each encoder writes for a record.

`Record.json` and `Record.syslog` are the texts; they do not depend on the buffer, the CPU or the
arena. `Encodes r n t` says what an encoder with text `t` does on a buffer of `n` octets. The main
results are `jsonConsoleEncode_encodes`, `ndjsonEncode_encodes` and `rfc5424Encode_encodes`.
-/

namespace IoJournal

open Wire

/-! ## JSON -/

def Value.json (g17 : Double → Bytes) : Value → Option Bytes
  | .string bs => some (jsonString bs)
  | .signed v => some (intNumeral v.toInt)
  | .unsigned v => some (numeral v.toNat)
  | .bool v => some (if v then ascii "true" else ascii "false")
  | .double v => if 64 ≤ (g17 v).length then none else some ((g17 v).takeWhile (· != 0))

def attrsJson (g17 : Double → Bytes) : Bool → List (Bytes × Value) → Option Bytes
  | _, [] => some []
  | first, (key, value) :: rest =>
    joinText (some ((if first then [] else [0x2C]) ++ (jsonString key ++ [0x3A])))
      (joinText (value.json g17) (attrsJson g17 false rest))

def Record.jsonHead (r : Record) : Bytes :=
  ascii "\x7b\"timestamp\":\"" ++ (r.timestamp.text ++ (ascii "\",\"level\":" ++ (levelToJsonLiteral r.level ++
    (ascii ",\"event_name\":" ++ (jsonString r.eventName ++ (ascii ",\"message\":" ++ jsonString r.message))))))

def Record.jsonLogger (r : Record) : Bytes :=
  match r.logger with
  | none => []
  | some name => ascii ",\"logger\":" ++ jsonString name

def Record.jsonAttrs (g17 : Double → Bytes) (r : Record) : Option Bytes :=
  if r.attributes = [] then some []
  else joinText (some (ascii ",\"attributes\":\x7b")) (joinText (attrsJson g17 true r.attributes) (some [0x7D]))

/-- The line of a record, when its timestamp and its numbers have a text. -/
def Record.json (g17 : Double → Bytes) (r : Record) : Option Bytes :=
  if r.timestamp.Formattable then
    joinText (some (r.jsonHead ++ r.jsonLogger)) (joinText (r.jsonAttrs g17) (some [0x7D]))
  else none

/-- What an encoder with text `t` does on a buffer of `n` octets. -/
structure Encodes (r : Encoded) (n : Nat) (t : Option Bytes) : Prop where
  size : r.buffer.size = n
  ok : ∀ s, t = some s → s.length < n →
    r.status = .ok ∧ r.outLen = some s.length ∧ r.buffer.read 0 (s.length + 1) = s ++ [0]
  full : (∀ s, t = some s → n ≤ s.length) → r.status = .encodeError ∧ r.outLen = none

theorem Encodes.output {r : Encoded} {n : Nat} {t : Option Bytes} (h : Encodes r n t) (hok : r.status = .ok) :
    ∃ s, t = some s ∧ s.length < n ∧ r.outLen = some s.length ∧ r.output = s := by
  by_cases hroom : ∃ s, t = some s ∧ s.length < n
  · obtain ⟨s, rfl, hlt⟩ := hroom
    obtain ⟨-, hlen, hread⟩ := h.ok s rfl hlt
    refine ⟨s, rfl, hlt, hlen, ?_⟩
    rw [Encoded.output, hlen, Option.getD_some]
    exact Buffer.read_of_snoc hread
  · have := (h.full fun s hs => by
      by_contra hlt
      exact hroom ⟨s, hs, by omega⟩).1
    rw [hok] at this
    cases this

section Appends

variable (cpu : Cpu) (g17 : Double → Bytes) {m : Buffer}

theorem Text.bytes_eq {s : OwnedString} {bs : Bytes} (h : Text m s bs) : s.bytes m = bs := by
  obtain ⟨off, hoff, hread⟩ := h.read
  rw [OwnedString.bytes, hoff, h.len]
  exact Buffer.read_of_snoc hread

theorem appendString_emits {s : OwnedString} {bs : Bytes} (h : Text m s bs) :
    Emits (appendJsonStringKnownEscape cpu (s.bytes m) s.needsJsonEscape) (some (jsonString bs)) := by
  rw [h.bytes_eq]
  exact appendJsonStringKnownEscape_emits cpu h.plain

theorem appendAttrValue_emits {o : OwnedAttrValue} {v : Value} (h : ValueText m o v) :
    Emits (appendAttrValue cpu g17 m o) (v.json g17) := by
  cases v with
  | string bs =>
    obtain ⟨s, rfl, h⟩ := h
    exact appendString_emits cpu h
  | signed v => cases h; exact appendInt64Decimal_emits v
  | unsigned v => cases h; exact appendUint64Decimal_emits v
  | bool v =>
    cases h
    cases v
    · exact appendRawN_emits _
    · exact appendRawN_emits _
  | double v =>
    cases h
    rw [appendAttrValue, Value.json]
    split
    · exact fun b text hb => ⟨rfl, hb.safe, fun s hs => (by cases hs), fun _ => rfl⟩
    · exact appendRawN_emits _

theorem comma_emits {fs : List Append} {t : Option Bytes} (first : Bool) (h : Emits (chain fs) t) :
    Emits (chain ((if first then [] else [appendChar 0x2C]) ++ fs))
      (joinText (some (if first then [] else [0x2C])) t) := by
  cases first with
  | true =>
    rw [if_pos rfl, if_pos rfl, joinText_nil_left]
    exact h
  | false => exact emits_chain_cons (appendChar_emits 0x2C) h

theorem appendAttrs_emits {os : List OwnedAttr} {ps : List (Bytes × Value)} (h : List.Forall₂ (AttrText m) os ps)
    {fs : List Append} {t : Option Bytes} (hfs : Emits (chain fs) t) :
    ∀ first, Emits (chain (appendAttrs cpu g17 m first os ++ fs)) (joinText (attrsJson g17 first ps) t) := by
  induction h with
  | nil =>
    intro first
    rw [attrsJson, joinText_nil_left]
    exact hfs
  | @cons o p os ps ho _ ih =>
    intro first
    obtain ⟨key, value⟩ := p
    have hkey : Emits (appendJsonKeyKnownEscape cpu (o.key.bytes m) o.key.needsJsonEscape)
        (some (jsonString key ++ [0x3A])) := by
      rw [ho.1.bytes_eq]
      exact appendJsonKeyKnownEscape_emits cpu ho.1.plain
    have hrest := comma_emits first (emits_chain_cons hkey
      (emits_chain_cons (appendAttrValue_emits cpu g17 ho.2) (ih false)))
    rw [appendAttrs, List.append_assoc, attrsJson, joinText_assoc, joinText_assoc, ← joinText_some, joinText_assoc]
    exact hrest

theorem jsonAppends_emits {c : EventCopy} {r : Record} (h : c.Represents r) :
    Emits (chain (jsonAppends cpu g17 c r.timestamp.text))
      (joinText (some (r.jsonHead ++ r.jsonLogger)) (joinText (r.jsonAttrs g17) (some [0x7D]))) := by
  have hend : Emits (chain [appendChar 0x7D]) (some [0x7D]) := emits_append (appendChar_emits 0x7D) rfl
  have hattrs : Emits (chain ((if 0 < c.attributes.length then
        appendRawN (ascii ",\"attributes\":\x7b") :: appendAttrs cpu g17 c.textArena true c.attributes ++
          [appendChar 0x7D]
      else []) ++ [appendChar 0x7D])) (joinText (r.jsonAttrs g17) (some [0x7D])) := by
    have hlen := h.attributes.length_eq
    rw [Record.jsonAttrs]
    by_cases hnil : r.attributes = []
    · rw [if_pos hnil, if_neg (by rw [hlen, hnil]; simp), joinText_nil_left]
      exact hend
    · rw [if_neg hnil, if_pos (by rw [hlen]; exact List.length_pos_iff.2 hnil), joinText_assoc, joinText_assoc,
        List.cons_append, List.cons_append, List.append_assoc]
      exact emits_chain_cons (appendRawN_emits _) (appendAttrs_emits cpu g17 h.attributes
        (emits_chain_cons (appendChar_emits 0x7D) hend) true)
  have hlogger : Emits (chain ((if c.loggerName.data.isSome then
        [appendRawN (ascii ",\"logger\":"),
          appendJsonStringKnownEscape cpu (c.loggerName.bytes c.textArena) c.loggerName.needsJsonEscape]
      else []) ++ ((if 0 < c.attributes.length then
        appendRawN (ascii ",\"attributes\":\x7b") :: appendAttrs cpu g17 c.textArena true c.attributes ++
          [appendChar 0x7D]
      else []) ++ [appendChar 0x7D])))
      (joinText (some r.jsonLogger) (joinText (r.jsonAttrs g17) (some [0x7D]))) := by
    have hl := h.logger
    rw [Record.jsonLogger]
    cases hr : r.logger with
    | none =>
      rw [hr] at hl
      have hnone : c.loggerName.data = none := hl
      rw [hnone, joinText_nil_left]
      exact hattrs
    | some name =>
      rw [hr] at hl
      obtain ⟨off, hoff, -⟩ := Text.read hl
      rw [hoff, ← joinText_some, joinText_assoc]
      exact emits_chain_cons (appendRawN_emits _) (emits_chain_cons (appendString_emits cpu hl) hattrs)
  rw [jsonAppends, List.append_assoc, List.append_assoc, h.level, Record.jsonHead]
  simp only [← joinText_some, joinText_assoc]
  exact emits_chain_cons (appendRawN_emits _) (emits_chain_cons (appendRawN_emits _)
    (emits_chain_cons (appendRawN_emits _) (emits_chain_cons (appendRawN_emits _)
      (emits_chain_cons (appendRawN_emits _) (emits_chain_cons (appendString_emits cpu h.eventName)
        (emits_chain_cons (appendRawN_emits _) (emits_chain_cons (appendString_emits cpu h.message) hlogger)))))))

end Appends

/-! ## The encoders -/

theorem start_holds {bytes : Bytes} (h : 0 < bytes.length) :
    Builder.Holds ⟨(Buffer.fresh bytes).store 0 0, bytes.length, 0⟩ [] where
  safe := by
    refine ⟨Buffer.size_store _ _ _, fun k hk => ?_⟩
    rw [List.mem_singleton.1 hk]
    exact h
  length := rfl
  room := h
  text := by
    rw [Buffer.read, Buffer.store_bytes h]
    rfl

theorem timestamp_read {ts : Timestamp} (hn : ts.nanoseconds < 1000000000) (hy : ts.Formattable) :
    (timestampBuffer.copy 0 (ts.text ++ [0])).read 0 (ts.text.length + 1) = ts.text ++ [0] := by
  have hlen : (ts.text ++ [0]).length = ts.text.length + 1 := List.length_append
  have := Buffer.read_copy (show 0 + (ts.text ++ [0]).length ≤ timestampBuffer.size by
    rw [hlen, Timestamp.length_text hn hy]; decide)
  rwa [hlen] at this

theorem jsonConsoleEncode_encodes (cpu : Cpu) (g17 : Double → Bytes) {c : EventCopy} {r : Record}
    (h : c.Represents r) (hn : r.timestamp.nanoseconds < 1000000000) (bytes : Bytes) :
    Encodes (jsonConsoleEncode cpu g17 (some c) (some bytes)) bytes.length (r.json g17) := by
  rw [Record.json]
  simp only [jsonConsoleEncode, h.timestamp, formatTimestampRfc3339_eq hn (show 25 ≤ timestampBuffer.size by decide)]
  by_cases hy : r.timestamp.Formattable
  · have hread : (timestampBuffer.copy 0 (r.timestamp.text ++ [0])).read 0 24 = r.timestamp.text := by
      rw [← Timestamp.length_text hn hy]
      exact Buffer.read_of_snoc (timestamp_read hn hy)
    simp only [if_pos hy, hread]
    have hemits := jsonAppends_emits cpu g17 h
    rcases Nat.eq_zero_or_pos bytes.length with hzero | hpos
    · -- no room even for the terminator: the first append fails
      rw [List.length_eq_zero_iff.1 hzero]
      exact ⟨rfl, fun s _ hs => absurd hs (Nat.not_lt_zero _), fun _ => ⟨rfl, rfl⟩⟩
    · have hrun := hemits _ [] (start_holds hpos)
      generalize chain (jsonAppends cpu g17 c r.timestamp.text) _ = out at hrun ⊢
      obtain ⟨status, b⟩ := out
      have hsize : b.buffer.size = bytes.length := hrun.safe.size.trans hrun.capacity
      refine ⟨?_, fun s hs hlt => ?_, fun hfull => ?_⟩
      · split <;> rename_i heq <;> cases heq <;> exact hsize
      · obtain ⟨hok, hholds⟩ := hrun.ok s hs (by simpa using hlt)
        simp only at hok
        subst hok
        exact ⟨rfl, congrArg some hholds.length, hholds.text⟩
      · have herr := hrun.full fun s hs => by simpa using hfull s hs
        simp only at herr
        subst herr
        exact ⟨rfl, rfl⟩
  · simp only [if_neg hy]
    exact ⟨Buffer.size_store _ _ _, fun s hs => (by cases hs), fun _ => ⟨rfl, rfl⟩⟩

theorem ndjsonEncode_encodes (cpu : Cpu) (g17 : Double → Bytes) {c : EventCopy} {r : Record}
    (h : c.Represents r) (hn : r.timestamp.nanoseconds < 1000000000) (bytes : Bytes) :
    Encodes (ndjsonEncode cpu g17 (some c) (some bytes)) bytes.length ((r.json g17).map (· ++ [0x0A])) := by
  have hjson := jsonConsoleEncode_encodes cpu g17 h hn bytes
  rw [ndjsonEncode]
  generalize jsonConsoleEncode cpu g17 (some c) (some bytes) = out at hjson ⊢
  obtain ⟨status, m, outLen⟩ := out
  have hsize : m.size = bytes.length := hjson.size
  by_cases hroom : ∃ s, r.json g17 = some s ∧ s.length < bytes.length
  · obtain ⟨s, hs, hlt⟩ := hroom
    obtain ⟨hok, hlen, hread⟩ := hjson.ok s hs hlt
    simp only at hok hlen
    subst hok hlen
    simp only [Option.getD_some, hs, Option.map_some]
    have hlen : (s ++ [0x0A]).length = s.length + 1 := List.length_append
    split
    · rename_i hfull
      refine ⟨hsize, fun u hu hlt' => ?_, fun _ => ⟨rfl, rfl⟩⟩
      cases hu
      omega
    · rename_i hfits
      refine ⟨by simpa using hsize, fun u hu _ => ?_, fun hfull => ?_⟩
      · cases hu
        refine ⟨rfl, congrArg some hlen.symm, ?_⟩
        have hnew := Buffer.read_copy (show s.length + [0x0A, 0].length ≤ m.size by
          simp only [List.length_cons, List.length_nil]; omega)
        rw [hlen, Nat.add_assoc, Buffer.read_add, Nat.zero_add, Buffer.read_store_before (by omega),
          Buffer.read_store_before (by omega), Buffer.read_of_snoc hread, List.append_assoc]
        exact congrArg (s ++ ·) hnew
      · have := hfull _ rfl
        omega
  · have hbad : ∀ s, r.json g17 = some s → bytes.length ≤ s.length := fun s hs => by
      by_contra hlt
      exact hroom ⟨s, hs, by omega⟩
    obtain ⟨herr, -⟩ := hjson.full hbad
    simp only at herr
    subst herr
    refine ⟨hsize, fun u hu hlt => ?_, fun _ => ⟨rfl, rfl⟩⟩
    obtain ⟨s, hs, rfl⟩ := Option.map_eq_some_iff.1 hu
    have := hbad s hs
    rw [List.length_append] at hlt
    omega

/-! ## RFC 5424 -/

/-- The name before it is sanitised: the event's logger, else the configured one, else a dash. -/
def Record.appName (r : Record) (config : LoggerConfig) : Bytes :=
  let logger := (r.logger.getD []).takeWhile (· != 0)
  if logger ≠ [] then logger
  else
    let name := (config.loggerName.map (·.bytes)).getD []
    if name ≠ [] then name else ascii "-"

/-- `PRIVAL`. -/
def Record.pri (r : Record) (config : LoggerConfig) : Nat :=
  ((config.syslogFacility % 4294967296).toNat * 8 + (syslogSeverityFromLevel r.level).getD 0) % 4294967296

def Record.syslog (config : LoggerConfig) (r : Record) : Option Bytes :=
  if r.timestamp.Formattable then
    let text := rfc5424Text (r.pri config) r.timestamp.text
      (syslogSanitizeAppName (r.appName config) (rfc5424AppNameMax + 1)) (r.message.takeWhile (· != 0))
    if text.length ≤ 2147483647 then some text else none
  else none

theorem Timestamp.text_takeWhile (ts : Timestamp) : ts.text.takeWhile (· != 0) = ts.text := by
  refine List.takeWhile_eq_self_iff.2 fun b hb => ?_
  rw [bne_iff_ne]
  rintro rfl
  exact absurd (Timestamp.mem_text hb).1 (by decide)

theorem Text.cstr_eq {m : Buffer} {s : OwnedString} {bs : Bytes} (h : Text m s bs) :
    (s.data.map m.cstr).getD [] = bs.takeWhile (· != 0) := by
  obtain ⟨off, hoff, hread⟩ := h.read
  rw [hoff, Option.map_some, Option.getD_some, Buffer.cstr_of_read hread]

theorem OptionalText.cstr_eq {m : Buffer} {s : OwnedString} {bs : Option Bytes} (h : OptionalText m s bs) :
    (s.data.map m.cstr).getD [] = (bs.getD []).takeWhile (· != 0) := by
  cases bs with
  | none =>
    have hnone : s.data = none := h
    rw [hnone]
    rfl
  | some bs => exact Text.cstr_eq h

theorem snprintf_encodes {bytes : Bytes} (hpos : 0 < bytes.length) (text : Bytes) :
    Encodes
      (if (snprintf (.fresh bytes) text).1 < 0 ∨ bytes.length ≤ (snprintf (.fresh bytes) text).1 then
        ⟨.encodeError, (snprintf (.fresh bytes) text).2, none⟩
      else ⟨.ok, (snprintf (.fresh bytes) text).2, some (snprintf (.fresh bytes) text).1.toNat⟩)
      bytes.length (if text.length ≤ 2147483647 then some text else none) := by
  have hne : (Buffer.fresh bytes).size ≠ 0 := Nat.ne_of_gt hpos
  have hsize : (snprintf (.fresh bytes) text).2.size = bytes.length := by
    simp only [snprintf, if_neg hne, Buffer.size_copy]
    rfl
  by_cases hint : text.length ≤ 2147483647
  · have hwritten : (snprintf (.fresh bytes) text).1 = text.length := if_pos hint
    rw [hwritten, if_pos hint]
    by_cases hfit : text.length < bytes.length
    · rw [if_neg (by omega)]
      refine ⟨hsize, fun s hs _ => ?_, fun hfull => ?_⟩
      · cases hs
        refine ⟨rfl, rfl, ?_⟩
        have htake : text.take ((Buffer.fresh bytes).size - 1) = text :=
          List.take_of_length_le (by unfold Buffer.fresh Buffer.size; dsimp only; omega)
        have hlen : (text ++ [0]).length = text.length + 1 := List.length_append
        have := Buffer.read_copy (show 0 + (text ++ [0]).length ≤ (Buffer.fresh bytes).size by
          rw [hlen, Nat.zero_add]; exact hfit)
        rw [hlen] at this
        simp only [snprintf, if_neg hne, htake]
        exact this
      · have := hfull text rfl
        omega
    · rw [if_pos (by omega)]
      refine ⟨hsize, fun s hs hlt => ?_, fun _ => ⟨rfl, rfl⟩⟩
      cases hs
      omega
  · have hwritten : (snprintf (.fresh bytes) text).1 = -1 := if_neg hint
    rw [hwritten, if_neg hint, if_pos (by omega)]
    exact ⟨hsize, fun s hs => (by cases hs), fun _ => ⟨rfl, rfl⟩⟩

theorem syslogSeverityFromLevel_of_valid {level : Int} (h : levelIsValid level = true) :
    ∃ severity, syslogSeverityFromLevel level = some severity ∧ severity ≤ 7 := by
  obtain ⟨l, hl⟩ := (levelIsValid_iff level).1 h
  rw [syslogSeverityFromLevel, hl]
  cases l <;> exact ⟨_, rfl, by decide⟩

theorem rfc5424Encode_encodes {c : EventCopy} {r : Record} (h : c.Represents r)
    (hn : r.timestamp.nanoseconds < 1000000000) (hlevel : levelIsValid r.level = true) (config : LoggerConfig)
    {bytes : Bytes} (hpos : 0 < bytes.length) :
    Encodes (rfc5424Encode (some c) (some config) (some bytes)) bytes.length (r.syslog config) := by
  obtain ⟨severity, hsev, -⟩ := syslogSeverityFromLevel_of_valid hlevel
  have happ : syslogAppName c config = r.appName config := by
    rw [syslogAppName, h.logger.cstr_eq]
    rfl
  rw [Record.syslog]
  simp only [rfc5424Encode, if_neg (Nat.ne_of_gt hpos), h.level, hsev, h.timestamp, happ, h.message.cstr_eq,
    formatTimestampRfc3339_eq hn (show 25 ≤ timestampBuffer.size by decide)]
  by_cases hy : r.timestamp.Formattable
  · have hcstr : (timestampBuffer.copy 0 (r.timestamp.text ++ [0])).cstr 0 = r.timestamp.text := by
      rw [Buffer.cstr_of_read (timestamp_read hn hy), Timestamp.text_takeWhile]
    have hpri : r.pri config = ((config.syslogFacility % 4294967296).toNat * 8 + severity) % 4294967296 := by
      rw [Record.pri, hsev, Option.getD_some]
    simp only [if_pos hy, hcstr, ← hpri]
    generalize rfc5424Text (r.pri config) r.timestamp.text
      (syslogSanitizeAppName (r.appName config) (rfc5424AppNameMax + 1)) (r.message.takeWhile (· != 0)) = text
    exact snprintf_encodes hpos text
  · simp only [if_neg hy]
    exact ⟨rfl, fun s hs => (by cases hs), fun _ => ⟨rfl, rfl⟩⟩

end IoJournal
