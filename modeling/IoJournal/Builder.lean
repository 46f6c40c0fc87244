import IoJournal.Wire.Buffer
import IoJournal.Simd

/-!
# IoJournal.Builder

The bounded text builder of `encoders/ij_json_console.c`.

An append either adds its text and a terminator, or returns `encodeError`. `Emits f t` says what
`f` adds to any builder: the text `t` when it fits with its terminator, and an error when it does
not fit or when there is no text at all. It composes along the `||` chains of the encoder
(`emits_chain_cons`), so that an encoder's text is read off its list of appends.
-/

namespace IoJournal

open Wire

structure Builder where
  buffer : Buffer
  capacity : Nat
  length : Nat

abbrev Append := Builder → Status × Builder

def appendRawN (text : Bytes) : Append := fun b =>
  if b.capacity < b.length + text.length + 1 then (.encodeError, b)
  else
    let length := b.length + text.length
    (.ok, { b with buffer := (b.buffer.copy b.length text).store length 0, length := length })

def canAppend (b : Builder) (len : Nat) : Bool := b.length + len + 1 ≤ b.capacity

def appendChar (c : UInt8) : Append := fun b =>
  if b.capacity < b.length + 2 then (.encodeError, b)
  else (.ok, { b with buffer := (b.buffer.store b.length c).store (b.length + 1) 0, length := b.length + 1 })

/-- Appends joined by `||` on failure: the first that fails ends the chain with `encodeError`. -/
def chain : List Append → Append
  | [], b => (.ok, b)
  | f :: fs, b =>
    match f b with
    | (.ok, b) => chain fs b
    | (_, b) => (.encodeError, b)

/-! ## What an append adds -/

/-- Every store so far was inside the buffer. -/
structure Builder.Safe (b : Builder) : Prop where
  size : b.buffer.size = b.capacity
  inside : ∀ k ∈ b.buffer.stores, k < b.capacity

/-- The builder holds `text` and its terminator. -/
structure Builder.Holds (b : Builder) (text : Bytes) : Prop where
  safe : b.Safe
  length : b.length = text.length
  room : text.length < b.capacity
  text : b.buffer.read 0 (text.length + 1) = text ++ [0]

structure Emitted (b : Builder) (text : Bytes) (t : Option Bytes) (r : Status × Builder) : Prop where
  capacity : r.2.capacity = b.capacity
  safe : r.2.Safe
  ok : ∀ s, t = some s → text.length + s.length < b.capacity → r.1 = .ok ∧ r.2.Holds (text ++ s)
  full : (∀ s, t = some s → b.capacity ≤ text.length + s.length) → r.1 = .encodeError

def Emits (f : Append) (t : Option Bytes) : Prop := ∀ b text, b.Holds text → Emitted b text t (f b)

theorem emits_nil : Emits (chain []) (some []) := by
  intro b text h
  refine ⟨rfl, h.safe, fun s hs _ => ?_, fun hfull => ?_⟩
  · cases hs
    rw [List.append_nil]
    exact ⟨rfl, h⟩
  · have hle := hfull [] rfl
    have hroom := h.room
    rw [List.length_nil] at hle
    omega

def joinText (s t : Option Bytes) : Option Bytes := s.bind fun s => t.map (s ++ ·)

@[simp] theorem joinText_some (s t : Bytes) : joinText (some s) (some t) = some (s ++ t) := rfl

@[simp] theorem joinText_none_left (t : Option Bytes) : joinText none t = none := rfl

@[simp] theorem joinText_none_right (s : Option Bytes) : joinText s none = none := by cases s <;> rfl

@[simp] theorem joinText_nil_left (t : Option Bytes) : joinText (some []) t = t := by cases t <;> rfl

theorem joinText_eq_some {s t : Option Bytes} {u : Bytes} (h : joinText s t = some u) :
    ∃ s' t', s = some s' ∧ t = some t' ∧ u = s' ++ t' := by
  cases s with
  | none => cases h
  | some s' =>
    obtain ⟨t', ht, rfl⟩ := Option.map_eq_some_iff.1 h
    exact ⟨s', t', rfl, ht, rfl⟩

theorem joinText_assoc (s t u : Option Bytes) : joinText (joinText s t) u = joinText s (joinText t u) := by
  cases s <;> cases t <;> cases u <;> simp [List.append_assoc]

theorem emits_chain_cons {f : Append} {fs : List Append} {s t : Option Bytes} (hf : Emits f s)
    (hfs : Emits (chain fs) t) : Emits (chain (f :: fs)) (joinText s t) := by
  intro b text h
  have hfb := hf b text h
  rw [chain]
  -- either the first append has no room (or no text) and ends the chain, or the rest starts after it
  by_cases hroom : ∃ s', s = some s' ∧ text.length + s'.length < b.capacity
  · obtain ⟨s', rfl, hlt⟩ := hroom
    obtain ⟨hok, hholds⟩ := hfb.ok s' rfl hlt
    have hcap := hfb.capacity
    generalize hr : f b = r at hfb hok hholds hcap
    obtain ⟨status, b'⟩ := r
    simp only at hok hcap
    subst hok
    have hrest := hfs b' (text ++ s') hholds
    refine ⟨hrest.capacity.trans hcap, hrest.safe, fun u hu hlen => ?_, fun hfull => ?_⟩
    · cases t with
      | none => cases hu
      | some t' =>
        cases hu
        have := hrest.ok t' rfl (by rw [hcap]; simp only [List.length_append] at hlen ⊢; omega)
        rwa [List.append_assoc] at this
    · refine hrest.full fun t' ht' => ?_
      have := hfull (s' ++ t') (by rw [ht']; rfl)
      rw [hcap]
      simp only [List.length_append] at this ⊢
      omega
  · have herr : (f b).1 = .encodeError := hfb.full fun s' hs' => by
      by_contra hlt
      exact hroom ⟨s', hs', by omega⟩
    have hcap := hfb.capacity
    have hsafe := hfb.safe
    generalize hr : f b = r at herr hcap hsafe
    obtain ⟨status, b'⟩ := r
    simp only at herr
    subst herr
    refine ⟨hcap, hsafe, fun u hu hlen => ?_, fun _ => rfl⟩
    obtain ⟨s', t', rfl, -, rfl⟩ := joinText_eq_some hu
    rw [List.length_append] at hlen
    exact absurd ⟨s', rfl, by omega⟩ hroom

theorem emits_append {f : Append} {fs : List Append} {s : Option Bytes} (hf : Emits f s) (hfs : fs = []) :
    Emits (chain (f :: fs)) s := by
  subst hfs
  have := emits_chain_cons hf emits_nil
  cases s with
  | none => exact this
  | some s => rwa [joinText_some, List.append_nil] at this

/-! ## Plain text -/

theorem appendRawN_emits (s : Bytes) : Emits (appendRawN s) (some s) := by
  intro b text h
  have hlen := h.length
  have hsize := h.safe.size
  rw [appendRawN, hlen]
  by_cases hfit : b.capacity < text.length + s.length + 1
  · rw [if_pos hfit]
    refine ⟨rfl, h.safe, fun u hu hlt => ?_, fun _ => rfl⟩
    cases hu
    omega
  · rw [if_neg hfit]
    have hlt : text.length + s.length < (b.buffer.copy text.length s).size := by rw [Buffer.size_copy]; omega
    have hsafe : Builder.Safe { b with
        buffer := (b.buffer.copy text.length s).store (text.length + s.length) 0
        length := text.length + s.length } := by
      refine ⟨by simpa using hsize, fun k hk => ?_⟩
      simp only [Buffer.store, List.mem_cons] at hk
      rcases hk with rfl | hk
      · simp only; omega
      · rcases Buffer.mem_stores_copy hk with hk | hk
        · exact h.safe.inside k hk
        · simp only; omega
    dsimp only
    refine ⟨rfl, hsafe, fun u hu _ => ⟨rfl, hsafe, ?_, ?_, ?_⟩, fun hfull => ?_⟩
    · cases hu
      exact List.length_append.symm
    · cases hu
      rw [List.length_append]
      simp only; omega
    · cases hu
      dsimp only
      -- the old text is in front of the copy, the copy and its terminator are read back
      have hold : b.buffer.read 0 text.length = text := Buffer.read_of_snoc h.text
      rw [List.length_append, Nat.add_assoc, Buffer.read_add, Nat.zero_add]
      have hnew := Buffer.read_copy (show text.length + (s ++ [0]).length ≤ b.buffer.size by
        rw [List.length_append, List.length_singleton]; omega)
      rw [Buffer.copy_append, List.length_append, List.length_singleton] at hnew
      rw [Buffer.store_eq_copy, hnew, Buffer.read_copy_before (by omega), Buffer.read_copy_before (by omega), hold,
        List.append_assoc]
    · have := hfull s rfl
      omega

theorem appendChar_eq (c : UInt8) : appendChar c = appendRawN [c] := by
  funext b
  rfl

theorem appendChar_emits (c : UInt8) : Emits (appendChar c) (some [c]) := by
  rw [appendChar_eq]
  exact appendRawN_emits [c]

/-! ## Integers -/

/-- The digit loop over `digits[20]`: the first argument is `position`, `none` is a step below
index zero. -/
def uint64Digits : Nat → Nat → Bytes → Option Bytes
  | 0, _, _ => none
  | position + 1, value, digits =>
    let digits := digit (value % 10) :: digits
    if value / 10 ≠ 0 then uint64Digits position (value / 10) digits else some digits

def appendUint64Decimal (value : UInt64) : Append :=
  match uint64Digits 20 value.toNat [] with
  | none => fun b => (.encodeError, b)
  | some digits => appendRawN digits

def appendInt64Decimal (value : Int64) : Append :=
  let magnitude := value.toUInt64
  if value < 0 then chain [appendChar 0x2D, appendUint64Decimal (0 - magnitude)]
  else appendUint64Decimal magnitude

def intNumeral (n : Int) : Bytes := if n < 0 then 0x2D :: numeral n.natAbs else numeral n.natAbs

theorem uint64Digits_eq (position : Nat) :
    ∀ (value : Nat) (digits : Bytes), 0 < position → value < 10 ^ position →
      uint64Digits position value digits = some (numeral value ++ digits) := by
  induction position with
  | zero =>
    intro value digits h0
    omega
  | succ position ih =>
    intro value digits _ hlt
    rw [uint64Digits]
    by_cases hsmall : value < 10
    · rw [if_neg (by simp [Nat.div_eq_of_lt hsmall]), numeral_of_lt hsmall, Nat.mod_eq_of_lt hsmall]
      rfl
    · have hdiv : value / 10 < 10 ^ position := by
        rw [Nat.pow_succ] at hlt
        omega
      have hpos : 0 < position := by
        rcases Nat.eq_zero_or_pos position with rfl | h
        · simp at hdiv; omega
        · exact h
      rw [if_pos (by omega), ih _ _ hpos hdiv, numeral_snoc (by omega : 10 ≤ value), List.append_assoc]
      rfl

theorem uint64Digits_full (value : UInt64) : uint64Digits 20 value.toNat [] = some (numeral value.toNat) := by
  have hlt := value.toNat_lt
  rw [uint64Digits_eq 20 _ _ (by decide) (by omega), List.append_nil]

theorem appendUint64Decimal_emits (value : UInt64) :
    Emits (appendUint64Decimal value) (some (numeral value.toNat)) := by
  rw [appendUint64Decimal, uint64Digits_full]
  exact appendRawN_emits _

theorem toInt_eq_toUInt64 (value : Int64) :
    value.toInt = if 2 * value.toUInt64.toNat < 18446744073709551616 then (value.toUInt64.toNat : Int)
      else value.toUInt64.toNat - 18446744073709551616 :=
  BitVec.toInt_eq_toNat_cond value.toBitVec

theorem magnitude_nonneg {value : Int64} (h : 0 ≤ value.toInt) : value.toUInt64.toNat = value.toInt.natAbs := by
  have heq := toInt_eq_toUInt64 value
  have hlt := value.toUInt64.toNat_lt
  split at heq <;> omega

theorem magnitude_neg {value : Int64} (h : value.toInt < 0) :
    (0 - value.toUInt64).toNat = value.toInt.natAbs := by
  have heq := toInt_eq_toUInt64 value
  have hlt := value.toUInt64.toNat_lt
  rw [UInt64.toNat_sub, UInt64.toNat_zero]
  split at heq <;> omega

theorem appendInt64Decimal_emits (value : Int64) :
    Emits (appendInt64Decimal value) (some (intNumeral value.toInt)) := by
  rw [appendInt64Decimal]
  split
  · rename_i h
    have hneg : value.toInt < 0 := by simpa [Int64.lt_iff_toInt_lt] using h
    rw [intNumeral, if_pos hneg, ← magnitude_neg hneg]
    exact emits_chain_cons (appendChar_emits 0x2D) (emits_append (appendUint64Decimal_emits _) rfl)
  · rename_i h
    have hnonneg : 0 ≤ value.toInt := by simpa [Int64.lt_iff_toInt_lt] using h
    rw [intNumeral, if_neg (by omega), ← magnitude_nonneg hnonneg]
    exact appendUint64Decimal_emits _

/-! ## Strings -/

def hexDigit (value : UInt8) : UInt8 := if value < 10 then 0x30 + value else 0x61 + (value - 10)

def appendControlEscape (value : UInt8) : Append :=
  appendRawN [0x5C, 0x75, 0x30, 0x30, hexDigit (value >>> 4), hexDigit (value &&& 0x0F)]

/-- The `switch` of the escape loop. -/
def appendEscape (c : UInt8) : Append :=
  if c = 0x5C then appendRawN [0x5C, 0x5C]
  else if c = 0x22 then appendRawN [0x5C, 0x22]
  else if c = 0x0A then appendRawN [0x5C, 0x6E]
  else if c = 0x0D then appendRawN [0x5C, 0x72]
  else if c = 0x09 then appendRawN [0x5C, 0x74]
  else if c < 0x20 then appendControlEscape c
  else appendChar c

/-- The loop of `ij_builder_append_escaped_string_n`: a run of plain octets, then one special octet.
The first argument bounds the turns; every turn but the last takes an octet. -/
def appendEscapedLoop (cpu : Cpu) : Nat → Bytes → Append
  | 0, _ => chain []
  | fuel + 1, text =>
    let next := jsonEscapeFindFirstSpecial cpu text
    let plain := if 0 < next then [appendRawN (text.take next)] else []
    match text.drop next with
    | [] => chain plain
    | c :: rest => chain (plain ++ [appendEscape c, appendEscapedLoop cpu fuel rest])

def appendEscapedStringN (cpu : Cpu) (text : Bytes) : Append := appendEscapedLoop cpu text.length text

def appendJsonStringKnownEscape (cpu : Cpu) (text : Bytes) (needsJsonEscape : Bool) : Append := fun b =>
  if !needsJsonEscape then
    if !canAppend b (text.length + 2) then (.encodeError, b)
    else
      let buffer := b.buffer.store b.length 0x22
      let length := b.length + 1
      let buffer := buffer.copy length text
      let length := length + text.length
      let buffer := buffer.store length 0x22
      let length := length + 1
      (.ok, { b with buffer := buffer.store length 0, length := length })
  else chain [appendChar 0x22, appendEscapedStringN cpu text, appendChar 0x22] b

def appendJsonKeyKnownEscape (cpu : Cpu) (key : Bytes) (needsJsonEscape : Bool) : Append := fun b =>
  if !needsJsonEscape then
    if !canAppend b (key.length + 3) then (.encodeError, b)
    else
      let buffer := b.buffer.store b.length 0x22
      let length := b.length + 1
      let buffer := buffer.copy length key
      let length := length + key.length
      let buffer := buffer.store length 0x22
      let length := length + 1
      let buffer := buffer.store length 0x3A
      let length := length + 1
      (.ok, { b with buffer := buffer.store length 0, length := length })
  else chain [appendJsonStringKnownEscape cpu key true, appendChar 0x3A] b

/-- How one octet of a string is written. -/
def escapeOf (c : UInt8) : Bytes :=
  if c = 0x5C then [0x5C, 0x5C]
  else if c = 0x22 then [0x5C, 0x22]
  else if c = 0x0A then [0x5C, 0x6E]
  else if c = 0x0D then [0x5C, 0x72]
  else if c = 0x09 then [0x5C, 0x74]
  else if c < 0x20 then [0x5C, 0x75, 0x30, 0x30, hexDigit (c >>> 4), hexDigit (c &&& 0x0F)]
  else [c]

def jsonString (bs : Bytes) : Bytes := 0x22 :: (bs.flatMap escapeOf ++ [0x22])

theorem appendEscape_emits (c : UInt8) : Emits (appendEscape c) (some (escapeOf c)) := by
  unfold appendEscape escapeOf
  repeat' split
  all_goals exact appendRawN_emits _

theorem escapeOf_plain {c : UInt8} (h : isJsonSpecial c = false) : escapeOf c = [c] := by
  have hs : ¬ (c < 0x20 ∨ c = 0x22 ∨ c = 0x5C) := by rw [← isJsonSpecial_iff, h]; exact Bool.false_ne_true
  rw [not_or, not_or] at hs
  have hctl : ∀ d : UInt8, d < 0x20 → c ≠ d := fun d hd hcd => hs.1 (hcd ▸ hd)
  rw [escapeOf, if_neg hs.2.2, if_neg hs.2.1, if_neg (hctl _ (by decide)), if_neg (hctl _ (by decide)),
    if_neg (hctl _ (by decide)), if_neg hs.1]

theorem flatMap_escapeOf_plain {bs : Bytes} (h : ∀ c ∈ bs, isJsonSpecial c = false) : bs.flatMap escapeOf = bs := by
  induction bs with
  | nil => rfl
  | cons c bs ih =>
    rw [List.forall_mem_cons] at h
    rw [List.flatMap_cons, escapeOf_plain h.1, ih h.2]
    rfl

theorem take_findIdx_plain (text : Bytes) : ∀ c ∈ text.take (text.findIdx isJsonSpecial), isJsonSpecial c = false := by
  induction text with
  | nil => simp
  | cons c text ih =>
    rw [List.findIdx_cons]
    cases h : isJsonSpecial c with
    | true => simp
    | false =>
      simp only [cond_false, List.take_succ_cons, List.forall_mem_cons]
      exact ⟨h, ih⟩

theorem plainRun_emits (text : Bytes) {fs : List Append} {t : Option Bytes} (h : Emits (chain fs) t) :
    Emits (chain ((if 0 < text.length then [appendRawN text] else []) ++ fs)) (joinText (some text) t) := by
  cases text with
  | nil => rwa [joinText_nil_left]
  | cons c text => exact emits_chain_cons (appendRawN_emits (c :: text)) h

theorem appendEscapedLoop_emits (cpu : Cpu) (fuel : Nat) :
    ∀ text : Bytes, text.length ≤ fuel → Emits (appendEscapedLoop cpu fuel text) (some (text.flatMap escapeOf)) := by
  induction fuel with
  | zero =>
    intro text h
    rw [List.length_eq_zero_iff.1 (Nat.le_zero.1 h)]
    exact emits_nil
  | succ fuel ih =>
    intro text h
    have hle : text.findIdx isJsonSpecial ≤ text.length := List.findIdx_le_length
    have hlen : (text.take (text.findIdx isJsonSpecial)).length = text.findIdx isJsonSpecial := by
      rw [List.length_take, Nat.min_eq_left hle]
    have hsplit := List.take_append_drop (text.findIdx isJsonSpecial) text
    have hplain := flatMap_escapeOf_plain (take_findIdx_plain text)
    rw [appendEscapedLoop, jsonEscapeFindFirstSpecial_eq]
    split
    · rename_i hdrop
      rw [hdrop, List.append_nil] at hsplit
      have := plainRun_emits (text.take (text.findIdx isJsonSpecial)) emits_nil
      rw [List.append_nil, hlen, joinText_some, List.append_nil] at this
      rw [hsplit] at this hplain
      rwa [hsplit, hplain]
    · rename_i c rest hdrop
      rw [hdrop] at hsplit
      have hrest : rest.length ≤ fuel := by
        have := congrArg List.length hdrop
        rw [List.length_drop, List.length_cons] at this
        omega
      have := plainRun_emits (text.take (text.findIdx isJsonSpecial))
        (emits_chain_cons (appendEscape_emits c) (emits_append (ih rest hrest) rfl))
      rw [hlen, joinText_some, joinText_some] at this
      rw [← hsplit, List.flatMap_append, hplain, List.flatMap_cons, hsplit]
      exact this

theorem appendEscapedStringN_emits (cpu : Cpu) (text : Bytes) :
    Emits (appendEscapedStringN cpu text) (some (text.flatMap escapeOf)) :=
  appendEscapedLoop_emits cpu _ text (Nat.le_refl _)

/-- The stores of a fast path, an opening quote and then two blocks, are one block copy. -/
theorem fastCopy_eq (b : Builder) (text tail : Bytes) (h : ¬ b.capacity < b.length + (text.length + tail.length + 1) + 1) :
    appendRawN (0x22 :: (text ++ tail)) b = (.ok, { b with
      buffer := (((b.buffer.store b.length 0x22).copy (b.length + 1) text).copy (b.length + 1 + text.length) tail).store
        (b.length + 1 + text.length + tail.length) 0
      length := b.length + 1 + text.length + tail.length }) := by
  have hlen : b.length + (0x22 :: (text ++ tail)).length = b.length + 1 + text.length + tail.length := by
    rw [List.length_cons, List.length_append]
    omega
  rw [appendRawN, hlen, if_neg (by omega), Buffer.copy, Buffer.copy_append]

theorem fastFull_eq (b : Builder) (text tail : Bytes) (h : b.capacity < b.length + (text.length + tail.length + 1) + 1) :
    appendRawN (0x22 :: (text ++ tail)) b = (.encodeError, b) := by
  rw [appendRawN, List.length_cons, List.length_append, if_pos h]

theorem fastString_eq (cpu : Cpu) (text : Bytes) :
    appendJsonStringKnownEscape cpu text false = appendRawN (0x22 :: (text ++ [0x22])) := by
  funext b
  by_cases h : b.length + (text.length + 2) + 1 ≤ b.capacity
  · rw [fastCopy_eq b text [0x22] (by simp only [List.length_singleton]; omega)]
    simp only [appendJsonStringKnownEscape, canAppend, h]
    rfl
  · rw [fastFull_eq b text [0x22] (by simp only [List.length_singleton]; omega)]
    simp only [appendJsonStringKnownEscape, canAppend, h]
    rfl

theorem fastKey_eq (cpu : Cpu) (key : Bytes) :
    appendJsonKeyKnownEscape cpu key false = appendRawN (0x22 :: (key ++ [0x22, 0x3A])) := by
  funext b
  by_cases h : b.length + (key.length + 3) + 1 ≤ b.capacity
  · rw [fastCopy_eq b key [0x22, 0x3A] (by simp only [List.length_cons, List.length_nil]; omega)]
    simp only [appendJsonKeyKnownEscape, canAppend, h]
    rfl
  · rw [fastFull_eq b key [0x22, 0x3A] (by simp only [List.length_cons, List.length_nil]; omega)]
    simp only [appendJsonKeyKnownEscape, canAppend, h]
    rfl

/-- Both paths write the quoted, escaped text, if the flag is clear only on a plain one. -/
theorem appendJsonStringKnownEscape_emits (cpu : Cpu) {text : Bytes} {needs : Bool}
    (h : needs = false → ∀ c ∈ text, isJsonSpecial c = false) :
    Emits (appendJsonStringKnownEscape cpu text needs) (some (jsonString text)) := by
  cases needs with
  | false =>
    rw [fastString_eq, jsonString, flatMap_escapeOf_plain (h rfl)]
    exact appendRawN_emits _
  | true =>
    have := emits_chain_cons (appendChar_emits 0x22)
      (emits_chain_cons (appendEscapedStringN_emits cpu text) (emits_append (appendChar_emits 0x22) rfl))
    exact this

theorem appendJsonKeyKnownEscape_emits (cpu : Cpu) {key : Bytes} {needs : Bool}
    (h : needs = false → ∀ c ∈ key, isJsonSpecial c = false) :
    Emits (appendJsonKeyKnownEscape cpu key needs) (some (jsonString key ++ [0x3A])) := by
  cases needs with
  | false =>
    rw [fastKey_eq, jsonString, flatMap_escapeOf_plain (h rfl)]
    have := appendRawN_emits (0x22 :: (key ++ [0x22, 0x3A]))
    simpa using this
  | true =>
    exact emits_chain_cons (appendJsonStringKnownEscape_emits cpu (by simp))
      (emits_append (appendChar_emits 0x3A) rfl)

end IoJournal
