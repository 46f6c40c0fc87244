import IoJournal.Wire.Lines
import IoJournal.RoundTrip

/-!
# IoJournal.NdjsonStream

A stream of NDJSON records.

A text is `Clean` when it is UTF-8 without control characters. The line of a record is clean
whatever its texts hold (`Record.json_clean`): strings are escaped octet by octet, and an octet that
is escaped is never part of a longer character. A line feed after each line is then the only control
character of a stream, and the stream has one line per record.
-/

namespace IoJournal

open Wire

/-! ## Clean texts -/

structure Clean (t : Bytes) : Prop where
  utf8 : Utf8.Valid t
  controls : ∀ b ∈ t, 0x20 ≤ b

theorem clean_nil : Clean [] := ⟨.nil, by simp⟩

theorem Clean.append {s t : Bytes} (hs : Clean s) (ht : Clean t) : Clean (s ++ t) where
  utf8 := Utf8.valid_append hs.utf8 ht.utf8
  controls b hb := (List.mem_append.1 hb).elim (hs.controls b) (ht.controls b)

def isPrintable (b : UInt8) : Bool := 0x20 ≤ b && b ≤ 0x7E

theorem clean_of_printable {t : Bytes} (h : ∀ b ∈ t, isPrintable b = true) : Clean t := by
  simp only [isPrintable, Bool.and_eq_true, decide_eq_true_eq] at h
  refine ⟨Utf8.valid_of_ascii fun b hb => ?_, fun b hb => (h b hb).1⟩
  have := UInt8.le_iff_toNat_le.1 (h b hb).2
  have : (0x7E : UInt8).toNat = 0x7E := rfl
  omega

theorem clean_ascii {s : String} (h : (ascii s).all isPrintable = true) : Clean (ascii s) :=
  clean_of_printable (List.all_eq_true.1 h)

theorem escapeOf_printable (a : UInt8) (h : a ≤ 0x7F) (hne : a ≠ 0x7F) : ∀ b ∈ escapeOf a, isPrintable b = true := by
  have hall : a ≤ 0x7F → a ≠ 0x7F → (escapeOf a).all isPrintable = true := by
    induction a using forall_byte with
    | h n hn => revert n; decide +kernel
  exact List.all_eq_true.1 (hall h hne)

theorem clean_escape {bs : Bytes} (h : Utf8.Valid bs) : Clean (bs.flatMap escapeOf) := by
  induction h with
  | nil => exact clean_nil
  | @cons c rest hc _ ih =>
    rw [List.flatMap_append]
    refine Clean.append ?_ ih
    by_cases hlen : 2 ≤ c.length
    · -- a longer character has no octet that is escaped
      have hhigh := isChar_high hc hlen
      have hplain : ∀ b ∈ c, isJsonSpecial b = false := fun b hb => not_special_of_high (hhigh b hb)
      rw [flatMap_escapeOf_plain hplain]
      refine ⟨by simpa using Utf8.Valid.cons hc .nil, fun b hb => ?_⟩
      have := hhigh b hb
      rw [UInt8.le_iff_toNat_le]
      exact Nat.le_trans (by decide) this
    · obtain ⟨a, rfl⟩ : ∃ a, c = [a] := by
        obtain ⟨a, rfl⟩ | ⟨a, b, rfl⟩ | ⟨a, b, d, rfl⟩ | ⟨a, b, d, e, rfl⟩ := Utf8.isChar_cases hc
        · exact ⟨a, rfl⟩
        all_goals simp at hlen
      rw [List.flatMap_singleton]
      by_cases hdel : a = 0x7F
      · subst hdel
        exact ⟨Utf8.valid_of_ascii (forall_mem_of_all (by decide)), forall_mem_of_all (by decide)⟩
      · exact clean_of_printable (escapeOf_printable a (UInt8.le_iff_toNat_le.2 (Utf8.isChar_one.1 hc)) hdel)

theorem clean_jsonString {bs : Bytes} (h : Utf8.Valid bs) : Clean (jsonString bs) := by
  have hquote : Clean [0x22] := clean_of_printable (forall_mem_of_all (by decide))
  exact hquote.append ((clean_escape h).append hquote)

theorem clean_numeral (n : Nat) : Clean (numeral n) := by
  refine clean_of_printable fun b hb => ?_
  have hdigit := numeral_isDigit n b hb
  simp only [isDigit, isPrintable, Bool.and_eq_true, decide_eq_true_eq] at hdigit ⊢
  exact ⟨UInt8.le_trans (by decide) hdigit.1, UInt8.le_trans hdigit.2 (by decide)⟩

theorem clean_intNumeral (n : Int) : Clean (intNumeral n) := by
  unfold intNumeral
  split
  · exact Clean.append (s := [0x2D]) (clean_of_printable (forall_mem_of_all (by decide))) (clean_numeral _)
  · exact clean_numeral _

theorem clean_timestamp (ts : Timestamp) : Clean ts.text := by
  refine clean_of_printable fun b hb => ?_
  have hrange := Timestamp.mem_text hb
  simp only [isPrintable, Bool.and_eq_true, decide_eq_true_eq]
  exact ⟨UInt8.le_trans (by decide) hrange.1, UInt8.le_trans hrange.2 (by decide)⟩

theorem clean_level (code : Int) : Clean (levelToJsonLiteral code) := by
  unfold levelToJsonLiteral
  split <;> exact clean_ascii (by decide)

/-! ## The line of a record -/

section Lines

variable {g17 : Double → Bytes} (hg : ∀ d : Double, d.isFinite = true → ∀ b ∈ g17 d, isPrintable b = true)
include hg

theorem Value.json_clean {v : Value} (h : v.Valid) {t : Bytes} (ht : v.json g17 = some t) : Clean t := by
  cases v with
  | string bs => cases ht; exact clean_jsonString h
  | signed v => cases ht; exact clean_intNumeral _
  | unsigned v => cases ht; exact clean_numeral _
  | bool v =>
    cases ht
    cases v with
    | false => exact clean_ascii (by decide)
    | true => exact clean_ascii (by decide)
  | double v =>
    rw [Value.json] at ht
    split at ht
    · cases ht
    · cases ht
      exact clean_of_printable fun b hb => hg v h b ((List.takeWhile_sublist _).subset hb)

theorem attrsJson_clean {ps : List (Bytes × Value)} (h : ∀ p ∈ ps, Utf8.Valid p.1 ∧ p.2.Valid) :
    ∀ (first : Bool) {t : Bytes}, attrsJson g17 first ps = some t → Clean t := by
  induction ps with
  | nil =>
    intro first t ht
    cases ht
    exact clean_nil
  | cons p ps ih =>
    intro first t ht
    rw [List.forall_mem_cons] at h
    obtain ⟨key, value⟩ := p
    obtain ⟨s₁, u, h₁, hu, rfl⟩ := joinText_eq_some ht
    obtain ⟨s₂, s₃, h₂, h₃, rfl⟩ := joinText_eq_some hu
    cases h₁
    have hcomma : Clean (if first then [] else [0x2C]) := by
      cases first with
      | true => exact clean_nil
      | false => exact clean_of_printable (forall_mem_of_all (by decide))
    have hkey : Clean (jsonString key ++ [0x3A]) :=
      (clean_jsonString h.1.1).append (clean_of_printable (forall_mem_of_all (by decide)))
    exact (hcomma.append hkey).append ((Value.json_clean hg h.1.2 h₂).append (ih h.2 false h₃))

theorem Record.jsonAttrs_clean {r : Record} (h : r.Valid) {t : Bytes} (ht : r.jsonAttrs g17 = some t) : Clean t := by
  unfold Record.jsonAttrs at ht
  split at ht
  · cases ht
    exact clean_nil
  · obtain ⟨s₁, u, h₁, hu, rfl⟩ := joinText_eq_some ht
    obtain ⟨s₂, s₃, h₂, h₃, rfl⟩ := joinText_eq_some hu
    cases h₁
    cases h₃
    exact (clean_ascii (by decide)).append
      ((attrsJson_clean hg h.attributes true h₂).append (clean_of_printable (forall_mem_of_all (by decide))))

omit hg in
theorem Record.jsonHead_clean {r : Record} (h : r.Valid) : Clean r.jsonHead :=
  (clean_ascii (by decide)).append ((clean_timestamp r.timestamp).append ((clean_ascii (by decide)).append
    ((clean_level r.level).append ((clean_ascii (by decide)).append ((clean_jsonString h.eventName).append
      ((clean_ascii (by decide)).append (clean_jsonString h.message)))))))

omit hg in
theorem Record.jsonLogger_clean {r : Record} (h : r.Valid) : Clean r.jsonLogger := by
  unfold Record.jsonLogger
  cases hl : r.logger with
  | none => exact clean_nil
  | some name => exact (clean_ascii (by decide)).append (clean_jsonString (h.logger name hl))

theorem Record.json_clean {r : Record} (h : r.Valid) {s : Bytes} (hs : r.json g17 = some s) : Clean s ∧ s ≠ [] := by
  unfold Record.json at hs
  split at hs
  · obtain ⟨s₁, u, h₁, hu, rfl⟩ := joinText_eq_some hs
    obtain ⟨s₂, s₃, h₂, h₃, rfl⟩ := joinText_eq_some hu
    cases h₁
    cases h₃
    refine ⟨?_, by simp⟩
    exact ((Record.jsonHead_clean h).append (Record.jsonLogger_clean h)).append
      ((Record.jsonAttrs_clean hg h h₂).append (clean_of_printable (forall_mem_of_all (by decide))))
  · cases hs

end Lines

/-! ## Streams -/

/-- An event that was accepted, copied and encoded. -/
structure NdjsonRecord (cpu : Cpu) (g17 : Double → Bytes) where
  heap : Heap
  event : Event
  mode : Int
  copy : EventCopy
  buffer : Bytes
  accepted : eventCopyFromInput cpu heap (some event) mode = .ok copy
  encoded : (ndjsonEncode cpu g17 (some copy) (some buffer)).status = .ok

namespace NdjsonRecord

variable {cpu : Cpu} {g17 : Double → Bytes}

def octets (r : NdjsonRecord cpu g17) : Bytes := (ndjsonEncode cpu g17 (some r.copy) (some r.buffer)).output

def console (r : NdjsonRecord cpu g17) : Status × Bytes :=
  ((jsonConsoleEncode cpu g17 (some r.copy) (some r.buffer)).status,
    (jsonConsoleEncode cpu g17 (some r.copy) (some r.buffer)).output)

theorem octets_eq (hg : ∀ d : Double, d.isFinite = true → ∀ b ∈ g17 d, isPrintable b = true)
    (r : NdjsonRecord cpu g17) :
    r.console.1 = .ok ∧ r.octets = r.console.2 ++ [0x0A] ∧ Clean r.console.2 ∧ r.console.2 ≠ [] := by
  obtain ⟨hwf, hrep⟩ := eventCopyFromInput_represents r.accepted
  have hvalid := hwf.record_valid r.mode
  obtain ⟨u, hu, hlen, -, hout⟩ :=
    (ndjsonEncode_encodes cpu g17 hrep hvalid.nanoseconds r.buffer).output r.encoded
  obtain ⟨s, hs, rfl⟩ := Option.map_eq_some_iff.1 hu
  have henc := jsonConsoleEncode_encodes cpu g17 hrep hvalid.nanoseconds r.buffer
  have hok := (henc.ok s hs (by rw [List.length_append] at hlen; omega)).1
  obtain ⟨s', hs', -, -, hline⟩ := henc.output hok
  rw [hs] at hs'
  cases hs'
  obtain ⟨hclean, hne⟩ := Record.json_clean hg hvalid hs
  have hconsole : r.console.2 = s := hline
  rw [hconsole]
  exact ⟨hok, hout, hclean, hne⟩

end NdjsonRecord

/-- A stream of records is UTF-8 with one line feed per record and no other control character, and
its lines are what the console encoder writes for the records. -/
theorem ndjson_stream (cpu : Cpu) (g17 : Double → Bytes)
    (hg : ∀ d : Double, d.isFinite = true → ∀ b ∈ g17 d, isPrintable b = true)
    (records : List (NdjsonRecord cpu g17)) :
    let stream := records.flatMap (·.octets)
    Utf8.Valid stream ∧
      (∀ b ∈ stream, b < 0x20 → b = 0x0A) ∧ stream.count 0x0A = records.length ∧
      (∀ r ∈ records, r.console.1 = .ok ∧ r.octets = r.console.2 ++ [0x0A] ∧ r.console.2 ≠ [] ∧
        ∀ b ∈ r.console.2, 0x20 ≤ b) ∧
      lines stream = records.map fun r => r.console.2 ++ [0x0A] := by
  intro stream
  have hnolf : ∀ r : NdjsonRecord cpu g17, 0x0A ∉ r.console.2 := fun r hmem =>
    absurd ((r.octets_eq hg).2.2.1.controls 0x0A hmem) (by decide)
  have hstream : stream = records.flatMap fun r => r.console.2 ++ [0x0A] :=
    congrArg (List.flatMap · records) (funext fun r => (r.octets_eq hg).2.1)
  refine ⟨?_, ?_, ?_, fun r _ => ?_, ?_⟩
  · rw [hstream]
    clear hstream stream
    induction records with
    | nil => exact .nil
    | cons r rs ih =>
      rw [List.flatMap_cons]
      exact Utf8.valid_append (Utf8.valid_append (r.octets_eq hg).2.2.1.utf8
        (Utf8.valid_of_ascii (forall_mem_of_all (by decide)))) ih
  · intro b hb hctl
    rw [hstream, List.mem_flatMap] at hb
    obtain ⟨r, -, hb⟩ := hb
    rcases List.mem_append.1 hb with hb | hb
    · exact absurd hctl (UInt8.not_lt.2 ((r.octets_eq hg).2.2.1.controls b hb))
    · exact List.mem_singleton.1 hb
  · rw [hstream, List.count_flatMap]
    have hone : ∀ r : NdjsonRecord cpu g17, (r.console.2 ++ [0x0A]).count 0x0A = 1 := fun r => by
      rw [List.count_append, List.count_eq_zero.2 (hnolf r)]
      rfl
    simp [Function.comp_def, hone]
  · obtain ⟨hok, hoctets, hclean, hne⟩ := r.octets_eq hg
    exact ⟨hok, hoctets, hne, hclean.controls⟩
  · rw [hstream]
    exact lines_flatMap fun r _ => hnolf r

def loginRecord : NdjsonRecord scalarCpu printHalf where
  heap := zeroHeap
  event := loginEvent
  mode := redactionModeEnabled
  copy := (eventCopyFromInput scalarCpu zeroHeap (some loginEvent) redactionModeEnabled).toOption.get (by decide +kernel)
  buffer := List.replicate 256 0
  accepted := by rfl
  encoded := by decide +kernel

theorem ndjson_stream_login :
    let stream := [loginRecord, loginRecord].flatMap (·.octets)
    Utf8.Valid stream ∧ (∀ b ∈ stream, b < 0x20 → b = 0x0A) ∧ stream.count 0x0A = 2 ∧
      (∀ r ∈ [loginRecord, loginRecord], r.console.1 = .ok ∧ r.octets = r.console.2 ++ [0x0A] ∧ r.console.2 ≠ [] ∧
        ∀ b ∈ r.console.2, 0x20 ≤ b) ∧
      lines stream = [loginRecord.console.2 ++ [0x0A], loginRecord.console.2 ++ [0x0A]] :=
  ndjson_stream scalarCpu printHalf (fun _ _ => by unfold printHalf; exact List.all_eq_true.1 (by decide))
    [loginRecord, loginRecord]

end IoJournal
