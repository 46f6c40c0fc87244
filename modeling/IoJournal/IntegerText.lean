import IoJournal.RoundTrip

/-!
# IoJournal.IntegerText

The integer formatting of `encoders/ij_json_console.c`, down to the stores of its digit loop.

`digitLoop` fills an array of twenty octets from the back. `digitLoop_spec` says what it leaves there
and where it stores, and `appendUint64Decimal_eq` that the append takes its text from that array.
`Builder.Adds` says what an append does to any builder with room, whatever the builder holds.
-/

namespace IoJournal

open Wire

/-! ## The digit loop -/

/-- The loop of `ij_builder_append_uint64_decimal`, with the array and `position`, a `size_t` that wraps
below zero. -/
def digitLoop (digits : Buffer) (position value : UInt64) : Buffer × UInt64 :=
  let position := position - 1
  let digits := digits.store position.toNat (digit (value % 10).toNat)
  if value / 10 ≠ 0 then digitLoop digits position (value / 10) else (digits, position)
termination_by value.toNat
decreasing_by
  rename_i h
  have hne : (value / 10).toNat ≠ 0 := fun h0 => h (UInt64.toNat_inj.1 h0)
  rw [UInt64.toNat_div] at hne ⊢
  exact Nat.div_lt_self (Nat.pos_of_ne_zero fun h0 => hne (by rw [h0]; rfl)) (by decide)

/-- The numeral of `value` was written to the array in front of `stop`: what is there from `start` on, and
where the stores were made. -/
structure DigitsWritten (m : Buffer) (stop value : Nat) (m' : Buffer) (start : Nat) : Prop where
  length : start + (numeral value).length = stop
  size : m'.size = m.size
  text : m'.bytes.drop start = numeral value ++ m.bytes.drop stop
  inside : ∀ k ∈ m'.stores, k ∈ m.stores ∨ start ≤ k ∧ k < stop

section Digits

variable {m m' m'' : Buffer} {start middle value : Nat}

theorem digitsWritten_store (h : start < m.size) {d : Nat} (hd : d < 10) :
    DigitsWritten m (start + 1) d (m.store start (digit d)) start where
  length := by rw [numeral_of_lt hd]; rfl
  size := Buffer.size_store _ _ _
  text := by
    have hlen : (m.bytes.take start).length = start := by
      rw [List.length_take]
      exact Nat.min_eq_left (Nat.le_of_lt h)
    rw [Buffer.store_bytes h, List.drop_append, hlen, List.drop_of_length_le (Nat.le_of_eq hlen), Nat.sub_self,
      numeral_of_lt hd]
    rfl
  inside := by
    intro k hk
    rcases List.mem_cons.1 hk with rfl | hk
    · right; omega
    · exact .inl hk

theorem DigitsWritten.snoc (hvalue : 10 ≤ value) (hlast : DigitsWritten m (middle + 1) (value % 10) m' middle)
    (h : DigitsWritten m' middle (value / 10) m'' start) : DigitsWritten m (middle + 1) value m'' start where
  length := by
    rw [numeral_snoc hvalue, List.length_append, List.length_singleton, ← Nat.add_assoc, h.length]
  size := h.size.trans hlast.size
  text := by
    rw [h.text, hlast.text, numeral_snoc hvalue, numeral_of_lt (Nat.mod_lt _ (by decide)), List.append_assoc]
  inside := by
    intro k hk
    have hlength := h.length
    rcases h.inside k hk with hk | hk
    · rcases hlast.inside k hk with hk | hk
      · exact .inl hk
      · right; omega
    · right; omega

end Digits

theorem toNat_sub_one {position : UInt64} (h : 0 < position.toNat) : position.toNat = (position - 1).toNat + 1 := by
  have hlt := position.toNat_lt
  rw [UInt64.toNat_sub, UInt64.toNat_one]
  omega

theorem toNat_div_ten (value : UInt64) : (value / 10).toNat = value.toNat / 10 := UInt64.toNat_div value 10

theorem toNat_mod_ten (value : UInt64) : (value % 10).toNat = value.toNat % 10 := UInt64.toNat_mod value 10

theorem div_ten_eq_zero_iff (value : UInt64) : value / 10 = 0 ↔ value.toNat < 10 := by
  rw [← UInt64.toNat_inj, toNat_div_ten, UInt64.toNat_zero]
  omega

/-- The loop ends inside the array if the array has a place for each digit. -/
theorem digitLoop_spec (m : Buffer) (position value : UInt64) :
    0 < position.toNat → position.toNat ≤ m.size → value.toNat < 10 ^ position.toNat →
      DigitsWritten m position.toNat value.toNat (digitLoop m position value).1 (digitLoop m position value).2.toNat := by
  -- along the recursion of the loop: the place in front of the position is free, and one digit fewer is left
  fun_induction digitLoop m position value with
  | case1 m position value position' m' hmore ih =>
    intro hpos hsize hvalue
    have hten : 10 ≤ value.toNat := by
      rw [ne_eq, div_ten_eq_zero_iff] at hmore
      omega
    have hprev : position.toNat = position'.toNat + 1 := toNat_sub_one hpos
    have hlast : DigitsWritten m (position'.toNat + 1) (value.toNat % 10) m' position'.toNat := by
      show DigitsWritten m _ _ (m.store position'.toNat (digit (value % 10).toNat)) _
      rw [toNat_mod_ten]
      exact digitsWritten_store (by omega) (Nat.mod_lt _ (by decide))
    rw [hprev, Nat.pow_succ] at hvalue
    have hroom : 0 < position'.toNat := by
      by_contra hzero
      rw [Nat.eq_zero_of_not_pos hzero] at hvalue
      omega
    rw [toNat_div_ten] at ih
    rw [hprev]
    exact hlast.snoc hten (ih hroom (by rw [hlast.size]; omega) (by omega))
  | case2 m position value position' m' hlast =>
    intro hpos hsize hvalue
    have hten : value.toNat < 10 := by
      rwa [ne_eq, not_not, div_ten_eq_zero_iff] at hlast
    have hprev : position.toNat = position'.toNat + 1 := toNat_sub_one hpos
    rw [hprev]
    show DigitsWritten m _ _ (m.store position'.toNat (digit (value % 10).toNat)) _
    rw [toNat_mod_ten, Nat.mod_eq_of_lt hten]
    exact digitsWritten_store (by omega) hten

section Array

variable {digits : Bytes} (hsize : digits.length = 20) (value : UInt64)

include hsize

theorem digitLoop_array :
    DigitsWritten (.fresh digits) 20 value.toNat (digitLoop (.fresh digits) 20 value).1
      (digitLoop (.fresh digits) 20 value).2.toNat := by
  have hlt := value.toNat_lt
  have hsmall : value.toNat < 10 ^ 20 := by omega
  exact digitLoop_spec (.fresh digits) 20 value (by decide) (Nat.le_of_eq hsize.symm) hsmall

/-- The append takes its text from the array, whatever was in it before the loop. -/
theorem appendUint64Decimal_eq :
    appendUint64Decimal value = appendRawN ((digitLoop (.fresh digits) 20 value).1.read
      (digitLoop (.fresh digits) 20 value).2.toNat (20 - (digitLoop (.fresh digits) 20 value).2).toNat) := by
  have h := digitLoop_array hsize value
  generalize digitLoop (.fresh digits) 20 value = r at h ⊢
  have hlength := h.length
  have hcount : (20 - r.2).toNat = (numeral value.toNat).length := by
    have hle : r.2 ≤ 20 := UInt64.le_iff_toNat_le.2 (by show r.2.toNat ≤ 20; omega)
    rw [UInt64.toNat_sub_of_le _ _ hle]
    show 20 - r.2.toNat = _
    omega
  have htext : r.1.read r.2.toNat (20 - r.2).toNat = numeral value.toNat := by
    rw [Buffer.read, h.text, hcount, List.take_left]
  rw [htext, appendUint64Decimal, uint64Digits_full]

end Array

/-! ## Text that is added to a builder -/

/-- The text is behind what the builder had, then its terminator; nothing else changed. -/
structure Builder.Adds (b : Builder) (text : Bytes) (r : Status × Builder) : Prop where
  ok : r.1 = .ok
  capacity : r.2.capacity = b.capacity
  length : r.2.length = b.length + text.length
  bytes : r.2.buffer.bytes =
    b.buffer.bytes.take b.length ++ (text ++ 0 :: b.buffer.bytes.drop (b.length + text.length + 1))
  inside : ∀ k ∈ r.2.buffer.stores, k ∈ b.buffer.stores ∨ b.length ≤ k ∧ k ≤ b.length + text.length

theorem appendRawN_adds {b : Builder} (hsize : b.buffer.size = b.capacity) {text : Bytes}
    (hroom : b.length + text.length < b.capacity) : b.Adds text (appendRawN text b) := by
  rw [appendRawN, if_neg (by omega)]
  have hcopy : (b.buffer.copy b.length text).store (b.length + text.length) 0 = b.buffer.copy b.length (text ++ [0]) := by
    rw [Buffer.copy_append, Buffer.store_eq_copy]
  have hlen : (text ++ [(0 : UInt8)]).length = text.length + 1 := by simp
  exact {
    ok := rfl
    capacity := rfl
    length := rfl
    bytes := by
      show ((b.buffer.copy b.length text).store (b.length + text.length) 0).bytes = _
      rw [hcopy, Buffer.copy_bytes (by omega), hlen, List.append_assoc]
      rfl
    inside := by
      intro k hk
      dsimp only at hk
      rw [hcopy] at hk
      rcases Buffer.mem_stores_copy hk with hk | hk
      · exact .inl hk
      · right; omega }

theorem Builder.Adds.size {b : Builder} {text : Bytes} {r : Status × Builder} (h : b.Adds text r)
    (hroom : b.length + text.length < b.buffer.size) : r.2.buffer.size = b.buffer.size := by
  unfold Buffer.size at hroom ⊢
  rw [h.bytes]
  simp only [List.length_append, List.length_cons, List.length_take, List.length_drop]
  omega

/-- The terminator of the first text is where the second one starts. -/
theorem Builder.Adds.trans {b : Builder} {s t : Bytes} {r r' : Status × Builder} (h : b.Adds s r)
    (h' : r.2.Adds t r') (hroom : b.length + s.length < b.buffer.size) : b.Adds (s ++ t) r' where
  ok := h'.ok
  capacity := h'.capacity.trans h.capacity
  length := by rw [h'.length, h.length, List.length_append, Nat.add_assoc]
  bytes := by
    have hlen : (b.buffer.bytes.take b.length ++ s).length = b.length + s.length := by
      rw [List.length_append, List.length_take, Nat.min_eq_left (by unfold Buffer.size at hroom; omega)]
    have hrest : (b.buffer.bytes.take b.length ++ s ++ 0 :: b.buffer.bytes.drop (b.length + s.length + 1)).drop
        (b.length + s.length + t.length + 1) = b.buffer.bytes.drop (b.length + (s ++ t).length + 1) := by
      rw [Nat.add_assoc _ t.length 1, ← hlen, List.drop_length_add_append, hlen, List.drop_succ_cons, List.drop_drop,
        List.length_append]
      congr 1; omega
    have hbytes := h.bytes
    rw [← List.append_assoc] at hbytes
    rw [h'.bytes, h.length, hbytes, List.take_left' hlen, hrest]
    simp only [List.append_assoc]
  inside := by
    intro k hk
    have hlength := h.length
    rw [List.length_append]
    rcases h'.inside k hk with hk | hk
    · rcases h.inside k hk with hk | hk
      · exact .inl hk
      · right; omega
    · right; omega

theorem chain_pair_adds {b : Builder} {f g : Append} {s t : Bytes} (hf : b.Adds s (f b)) (hg : (f b).2.Adds t (g (f b).2))
    (hroom : b.length + s.length < b.buffer.size) : b.Adds (s ++ t) (chain [f, g] b) := by
  have hboth := hf.trans hg hroom
  have hchain : chain [f, g] b = g (f b).2 := by
    have hok := hf.ok
    have hok' := hg.ok
    simp only [chain]
    generalize f b = r at hok hok' ⊢
    obtain ⟨status, b'⟩ := r
    cases hok
    dsimp only at hok' ⊢
    generalize g b' = r' at hok' ⊢
    obtain ⟨status', b''⟩ := r'
    cases hok'
    rfl
  rw [hchain]
  exact hboth

/-! ## Decimal numerals -/

theorem appendUint64Decimal_adds {b : Builder} (hsize : b.buffer.size = b.capacity) (value : UInt64)
    (hroom : b.length + (intNumeral value.toNat).length < b.capacity) :
    b.Adds (intNumeral value.toNat) (appendUint64Decimal value b) := by
  rw [intNumeral_natCast] at hroom ⊢
  rw [appendUint64Decimal, uint64Digits_full]
  exact appendRawN_adds hsize hroom

theorem appendInt64Decimal_adds {b : Builder} (hsize : b.buffer.size = b.capacity) (value : Int64)
    (hroom : b.length + (intNumeral value.toInt).length < b.capacity) :
    b.Adds (intNumeral value.toInt) (appendInt64Decimal value b) := by
  have hiff : value < 0 ↔ value.toInt < 0 := by simp [Int64.lt_iff_toInt_lt]
  rw [appendInt64Decimal]
  by_cases hneg : value.toInt < 0
  · rw [if_pos (hiff.2 hneg)]
    rw [intNumeral, if_pos hneg, List.length_cons] at hroom
    rw [intNumeral, if_pos hneg]
    have hminus : b.Adds [0x2D] (appendChar 0x2D b) := by
      rw [appendChar_eq]
      exact appendRawN_adds hsize (by rw [List.length_singleton]; omega)
    have hfront : b.length + [(0x2D : UInt8)].length < b.buffer.size := by
      rw [List.length_singleton]
      omega
    refine chain_pair_adds hminus ?_ hfront
    have hadds := @appendUint64Decimal_adds (appendChar 0x2D b).2 (by rw [hminus.size hfront, hminus.capacity, hsize])
      (0 - value.toUInt64)
    rw [magnitude_neg hneg, intNumeral_natCast, hminus.length, hminus.capacity, List.length_singleton] at hadds
    exact hadds (by omega)
  · rw [if_neg (fun h => hneg (hiff.1 h))]
    have hadds := appendUint64Decimal_adds hsize value.toUInt64
    rw [magnitude_nonneg (by omega), Int.natAbs_of_nonneg (by omega)] at hadds
    exact hadds hroom

/-- A numeral of `n` in decimal: a minus sign in front of a negative number only, then digits without a
leading zero, and it is read as `n`. -/
structure CanonicalNumeral (n : Int) (t : Bytes) : Prop where
  shape : ∃ digits, t = (if n < 0 then [0x2D] else []) ++ digits ∧ Json.IntPart digits
  reads : readInt t = some n

theorem canonicalNumeral_intNumeral (n : Int) : CanonicalNumeral n (intNumeral n) where
  shape := by
    refine ⟨numeral n.natAbs, ?_, Json.intPart_numeral _⟩
    rw [intNumeral]
    split <;> rfl
  reads := readInt_intNumeral n

/-- Every integer is appended as its canonical numeral to every builder with room for it, and the digits
come from an array of twenty octets that no store of the loop leaves. -/
theorem decimal_appends (b : Builder) (hsize : b.buffer.size = b.capacity) :
    (∀ value : UInt64, CanonicalNumeral value.toNat (intNumeral value.toNat) ∧
      (b.length + (intNumeral value.toNat).length < b.capacity →
        b.Adds (intNumeral value.toNat) (appendUint64Decimal value b))) ∧
    (∀ value : Int64, CanonicalNumeral value.toInt (intNumeral value.toInt) ∧
      (b.length + (intNumeral value.toInt).length < b.capacity →
        b.Adds (intNumeral value.toInt) (appendInt64Decimal value b))) ∧
    ∀ (digits : Bytes) (value : UInt64), digits.length = 20 →
      let r := digitLoop (.fresh digits) 20 value
      (∀ k ∈ r.1.stores, k < 20) ∧ r.2.toNat < 20 ∧
        appendUint64Decimal value = appendRawN (r.1.read r.2.toNat (20 - r.2).toNat) := by
  refine ⟨fun value => ⟨canonicalNumeral_intNumeral _, appendUint64Decimal_adds hsize value⟩,
    fun value => ⟨canonicalNumeral_intNumeral _, appendInt64Decimal_adds hsize value⟩, ?_⟩
  intro digits value hdigits r
  have h := digitLoop_array hdigits value
  refine ⟨fun k hk => ?_, ?_, appendUint64Decimal_eq hdigits value⟩
  · rcases h.inside k hk with hk | hk
    · cases hk
    · exact hk.2
  · have hlength := h.length
    have hpos := List.length_pos_of_ne_nil (numeral_ne_nil value.toNat)
    show (digitLoop (.fresh digits) 20 value).2.toNat < 20
    omega

/-- `INT64_MIN`, `UINT64_MAX` and zero in a builder with room for each. -/
theorem decimal_appends_extremes :
    ∃ b : Builder, b.buffer.size = b.capacity ∧
      b.Adds (ascii "-9223372036854775808") (appendInt64Decimal Int64.minValue b) ∧
      b.Adds (ascii "18446744073709551615") (appendUint64Decimal 18446744073709551615 b) ∧
      b.Adds (ascii "0") (appendUint64Decimal 0 b) := by
  refine ⟨⟨.fresh (List.replicate 32 0), 32, 0⟩, rfl, ?_⟩
  obtain ⟨hunsigned, hsigned, -⟩ := decimal_appends ⟨.fresh (List.replicate 32 0), 32, 0⟩ rfl
  have hmin : intNumeral Int64.minValue.toInt = ascii "-9223372036854775808" := by decide
  have hmax : intNumeral (18446744073709551615 : UInt64).toNat = ascii "18446744073709551615" := by decide
  have hzero : intNumeral (0 : UInt64).toNat = ascii "0" := by decide
  rw [← hmin, ← hmax, ← hzero]
  exact ⟨(hsigned _).2 (by rw [hmin]; decide), (hunsigned _).2 (by rw [hmax]; decide),
    (hunsigned _).2 (by rw [hzero]; decide)⟩

end IoJournal
