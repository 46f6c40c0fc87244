import IoJournal.Encode
import IoJournal.EventCopy

/-!
# IoJournal.EncodeBounds

Where the encoders store, for every event and every buffer.

Every append of the JSON encoder keeps the stores inside the buffer (`Bounded`), whatever it is given:
each asks for room before it writes. But the encoder itself stores a terminator at the front before the
first of them, so that a buffer of size zero is written to. `encoders_inside_iff` says that this is the
only store outside.
-/

namespace IoJournal

open Wire

/-- An append that leaves the stores of a safe builder inside its buffer, if it fails or not. -/
def Bounded (f : Append) : Prop := ∀ b : Builder, b.Safe → (f b).2.Safe ∧ (f b).2.capacity = b.capacity

theorem bounded_error (status : Status) : Bounded fun b => (status, b) := by
  intro b h
  exact ⟨h, rfl⟩

theorem appendRawN_bounded (text : Bytes) : Bounded (appendRawN text) := by
  intro b h
  have hsize := h.size
  rw [appendRawN]
  split
  · exact ⟨h, rfl⟩
  · rename_i hroom
    refine ⟨⟨by simpa using hsize, ?_⟩, rfl⟩
    intro k hk
    rcases List.mem_cons.1 hk with rfl | hk
    · show b.length + text.length < b.capacity
      omega
    · rcases Buffer.mem_stores_copy hk with hk | hk
      · exact h.inside k hk
      · show k < b.capacity
        omega

theorem appendChar_bounded (c : UInt8) : Bounded (appendChar c) := by
  rw [appendChar_eq]
  exact appendRawN_bounded [c]

theorem chain_bounded {fs : List Append} (h : ∀ f ∈ fs, Bounded f) : Bounded (chain fs) := by
  induction fs with
  | nil =>
    intro b hb
    exact ⟨hb, rfl⟩
  | cons f fs ih =>
    rw [List.forall_mem_cons] at h
    intro b hb
    have hf := h.1 b hb
    rw [chain]
    split
    · rename_i b' heq
      rw [heq] at hf
      have hrest := ih h.2 b' hf.1
      exact ⟨hrest.1, hrest.2.trans hf.2⟩
    · rename_i b' heq
      rw [heq] at hf
      exact hf

/-! ## The appends of the encoder -/

theorem appendUint64Decimal_bounded (value : UInt64) : Bounded (appendUint64Decimal value) := by
  unfold appendUint64Decimal
  split
  · exact bounded_error _
  · exact appendRawN_bounded _

theorem appendInt64Decimal_bounded (value : Int64) : Bounded (appendInt64Decimal value) := by
  rw [appendInt64Decimal]
  split
  · refine chain_bounded ?_
    simp only [List.forall_mem_cons]
    exact ⟨appendChar_bounded _, appendUint64Decimal_bounded _, List.forall_mem_nil _⟩
  · exact appendUint64Decimal_bounded _

theorem appendEscape_bounded (c : UInt8) : Bounded (appendEscape c) := by
  unfold appendEscape
  repeat' split
  all_goals first | exact appendRawN_bounded _ | exact appendChar_bounded _

theorem appendEscapedLoop_bounded (cpu : Cpu) (fuel : Nat) : ∀ text : Bytes, Bounded (appendEscapedLoop cpu fuel text) := by
  induction fuel with
  | zero =>
    intro text
    exact chain_bounded (List.forall_mem_nil _)
  | succ fuel ih =>
    intro text
    have hplain : ∀ f ∈ if 0 < jsonEscapeFindFirstSpecial cpu text then
        [appendRawN (text.take (jsonEscapeFindFirstSpecial cpu text))] else [], Bounded f := by
      split
      · rw [List.forall_mem_singleton]
        exact appendRawN_bounded _
      · exact List.forall_mem_nil _
    rw [appendEscapedLoop]
    split
    · exact chain_bounded hplain
    · refine chain_bounded ?_
      rw [List.forall_mem_append]
      simp only [List.forall_mem_cons]
      exact ⟨hplain, appendEscape_bounded _, ih _, List.forall_mem_nil _⟩

theorem appendJsonStringKnownEscape_bounded (cpu : Cpu) (text : Bytes) (needs : Bool) :
    Bounded (appendJsonStringKnownEscape cpu text needs) := by
  cases needs with
  | false =>
    rw [fastString_eq]
    exact appendRawN_bounded _
  | true =>
    show Bounded (chain [appendChar 0x22, appendEscapedStringN cpu text, appendChar 0x22])
    refine chain_bounded ?_
    simp only [List.forall_mem_cons]
    exact ⟨appendChar_bounded _, appendEscapedLoop_bounded cpu _ text, appendChar_bounded _, List.forall_mem_nil _⟩

theorem appendJsonKeyKnownEscape_bounded (cpu : Cpu) (key : Bytes) (needs : Bool) :
    Bounded (appendJsonKeyKnownEscape cpu key needs) := by
  cases needs with
  | false =>
    rw [fastKey_eq]
    exact appendRawN_bounded _
  | true =>
    show Bounded (chain [appendJsonStringKnownEscape cpu key true, appendChar 0x3A])
    refine chain_bounded ?_
    simp only [List.forall_mem_cons]
    exact ⟨appendJsonStringKnownEscape_bounded cpu key true, appendChar_bounded _, List.forall_mem_nil _⟩

theorem appendAttrValue_bounded (cpu : Cpu) (g17 : Double → Bytes) (m : Buffer) (value : OwnedAttrValue) :
    Bounded (appendAttrValue cpu g17 m value) := by
  cases value with
  | string s => exact appendJsonStringKnownEscape_bounded cpu _ _
  | signed v => exact appendInt64Decimal_bounded v
  | unsigned v => exact appendUint64Decimal_bounded v
  | bool v => cases v <;> exact appendRawN_bounded _
  | double v =>
    rw [appendAttrValue]
    split
    · exact bounded_error _
    · exact appendRawN_bounded _

theorem appendAttrs_bounded (cpu : Cpu) (g17 : Double → Bytes) (m : Buffer) (attributes : List OwnedAttr) :
    ∀ first : Bool, ∀ f ∈ appendAttrs cpu g17 m first attributes, Bounded f := by
  induction attributes with
  | nil =>
    intro first
    exact List.forall_mem_nil _
  | cons a rest ih =>
    intro first
    rw [appendAttrs, List.forall_mem_append]
    simp only [List.forall_mem_cons]
    refine ⟨?_, appendJsonKeyKnownEscape_bounded cpu _ _, appendAttrValue_bounded cpu g17 m _, ih false⟩
    cases first with
    | true => exact List.forall_mem_nil _
    | false => exact List.forall_mem_singleton.2 (appendChar_bounded _)

theorem jsonAppends_bounded (cpu : Cpu) (g17 : Double → Bytes) (event : EventCopy) (timestamp : Bytes) :
    ∀ f ∈ jsonAppends cpu g17 event timestamp, Bounded f := by
  rw [jsonAppends, List.forall_mem_append, List.forall_mem_append, List.forall_mem_append]
  refine ⟨⟨⟨?_, ?_⟩, ?_⟩, ?_⟩
  · simp only [List.forall_mem_cons]
    exact ⟨appendRawN_bounded _, appendRawN_bounded _, appendRawN_bounded _, appendRawN_bounded _, appendRawN_bounded _,
      appendJsonStringKnownEscape_bounded cpu _ _, appendRawN_bounded _, appendJsonStringKnownEscape_bounded cpu _ _,
      List.forall_mem_nil _⟩
  · split
    · simp only [List.forall_mem_cons]
      exact ⟨appendRawN_bounded _, appendJsonStringKnownEscape_bounded cpu _ _, List.forall_mem_nil _⟩
    · exact List.forall_mem_nil _
  · split
    · rw [List.forall_mem_append, List.forall_mem_cons]
      exact ⟨⟨appendRawN_bounded _, appendAttrs_bounded cpu g17 _ _ true⟩,
        List.forall_mem_singleton.2 (appendChar_bounded _)⟩
    · exact List.forall_mem_nil _
  · exact List.forall_mem_singleton.2 (appendChar_bounded _)

/-! ## The encoders -/

/-- Every store was inside the buffer that the encoder was given; no buffer has no place to store to. -/
def Encoded.Inside (r : Encoded) (buffer : Option Bytes) : Prop := ∀ k ∈ r.buffer.stores, k < (buffer.getD []).length

theorem inside_fresh (status : Status) (buffer : Option Bytes) (outLen : Option Nat) :
    (Encoded.mk status (.fresh (buffer.getD [])) outLen).Inside buffer :=
  List.forall_mem_nil _

/-- The store in front of the first check. In an empty buffer no append finds room after it. -/
theorem jsonConsoleEncode_empty (cpu : Cpu) (g17 : Double → Bytes) (event : EventCopy) :
    jsonConsoleEncode cpu g17 (some event) (some []) = ⟨.encodeError, ⟨[], [0]⟩, none⟩ := by
  simp only [jsonConsoleEncode]
  split
  · rfl
  · rfl

theorem ndjsonEncode_empty (cpu : Cpu) (g17 : Double → Bytes) (event : EventCopy) :
    ndjsonEncode cpu g17 (some event) (some []) = ⟨.encodeError, ⟨[], [0]⟩, none⟩ := by
  rw [ndjsonEncode, jsonConsoleEncode_empty]

theorem not_inside_empty {r : Encoded} (h : 0 ∈ r.buffer.stores) : ¬ r.Inside (some []) := by
  intro hinside
  exact absurd (hinside 0 h) (Nat.lt_irrefl 0)

theorem jsonConsoleEncode_inside (cpu : Cpu) (g17 : Double → Bytes) (event : Option EventCopy) {buffer : Option Bytes}
    (h : buffer ≠ some []) : (jsonConsoleEncode cpu g17 event buffer).Inside buffer := by
  unfold jsonConsoleEncode
  split
  · rename_i event bytes
    have hpos : 0 < bytes.length := List.length_pos_of_ne_nil fun hnil => h (by rw [hnil])
    have hsafe : Builder.Safe ⟨(Buffer.fresh bytes).store 0 0, bytes.length, 0⟩ :=
      ⟨Buffer.size_store _ _ _, List.forall_mem_singleton.2 hpos⟩
    split
    · rename_i timestamp _
      have hchain := chain_bounded (jsonAppends_bounded cpu g17 event (timestamp.read 0 24)) _ hsafe
      have hinside := hchain.1.inside
      rw [hchain.2] at hinside
      dsimp only
      split
      · rename_i heq
        rw [heq] at hinside
        exact hinside
      · rename_i heq
        rw [heq] at hinside
        exact hinside
    · exact hsafe.inside
  · exact inside_fresh _ _ _

theorem ndjsonEncode_inside (cpu : Cpu) (g17 : Double → Bytes) (event : Option EventCopy) {buffer : Option Bytes}
    (h : buffer ≠ some []) : (ndjsonEncode cpu g17 event buffer).Inside buffer := by
  cases buffer with
  | none => exact List.forall_mem_nil _
  | some bytes =>
    have hinside := jsonConsoleEncode_inside cpu g17 event h
    rw [ndjsonEncode]
    split
    · rename_i m jsonLen heq
      rw [heq] at hinside
      dsimp only
      split
      · exact hinside
      · rename_i hroom
        -- the line feed and its terminator come after the check for both
        intro k hk
        show k < bytes.length
        rcases List.mem_cons.1 hk with rfl | hk
        · omega
        · rcases List.mem_cons.1 hk with rfl | hk
          · omega
          · exact hinside k hk
    · rename_i heq
      rw [heq] at hinside
      exact hinside

theorem snprintf_inside (bytes text : Bytes) : ∀ k ∈ (snprintf (.fresh bytes) text).2.stores, k < bytes.length := by
  intro k hk
  have hsize : (Buffer.fresh bytes).size = bytes.length := rfl
  rw [snprintf, hsize] at hk
  dsimp only at hk
  split at hk
  · cases hk
  · rename_i hne
    rcases Buffer.mem_stores_copy hk with hk | hk
    · cases hk
    · rw [List.length_append, List.length_singleton, List.length_take] at hk
      omega

theorem rfc5424Encode_inside (event : Option EventCopy) (config : Option LoggerConfig) (buffer : Option Bytes) :
    (rfc5424Encode event config buffer).Inside buffer := by
  unfold rfc5424Encode
  split
  · rename_i event config bytes
    split
    · exact inside_fresh _ (some bytes) _
    · split
      · exact inside_fresh _ (some bytes) _
      · split
        · dsimp only
          split
          · exact snprintf_inside bytes _
          · exact snprintf_inside bytes _
        · exact inside_fresh _ (some bytes) _
  · exact inside_fresh _ _ _

/-- The stores of all encoders are inside, on every exit, unless the buffer is there and has size zero:
then the JSON encoder stores a terminator at its front, also for NDJSON. -/
theorem encoders_inside_iff (cpu : Cpu) (g17 : Double → Bytes) (event : EventCopy) (config : Option LoggerConfig)
    (buffer : Option Bytes) :
    (jsonConsoleEncode cpu g17 (some event) buffer).Inside buffer ∧
      (ndjsonEncode cpu g17 (some event) buffer).Inside buffer ∧
      (rfc5424Encode (some event) config buffer).Inside buffer ↔ buffer ≠ some [] := by
  constructor
  · rintro ⟨hjson, -, -⟩ rfl
    rw [jsonConsoleEncode_empty] at hjson
    exact not_inside_empty (List.mem_singleton_self 0) hjson
  · intro h
    exact ⟨jsonConsoleEncode_inside cpu g17 _ h, ndjsonEncode_inside cpu g17 _ h, rfc5424Encode_inside _ config buffer⟩

/-- A copied event and a buffer of size zero. -/
theorem not_inside_login :
    ∃ c, eventCopyFromInput scalarCpu zeroHeap (some loginEvent) redactionModeEnabled = .ok c ∧
      ∀ g17, jsonConsoleEncode scalarCpu g17 (some c) (some []) = ⟨.encodeError, ⟨[], [0]⟩, none⟩ ∧
        ¬ (jsonConsoleEncode scalarCpu g17 (some c) (some [])).Inside (some []) ∧
        ¬ (ndjsonEncode scalarCpu g17 (some c) (some [])).Inside (some []) := by
  have hcopy : ∃ c, eventCopyFromInput scalarCpu zeroHeap (some loginEvent) redactionModeEnabled = .ok c := ⟨_, rfl⟩
  obtain ⟨c, hc⟩ := hcopy
  refine ⟨c, hc, ?_⟩
  intro g17
  rw [ndjsonEncode_empty, jsonConsoleEncode_empty]
  exact ⟨rfl, not_inside_empty (List.mem_singleton_self 0), not_inside_empty (List.mem_singleton_self 0)⟩

end IoJournal
