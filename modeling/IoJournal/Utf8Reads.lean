import IoJournal.Simd

/-!
# IoJournal.Utf8Reads

Which octets the UTF-8 validators read.

`IoJournal.Simd` gives the validators the octets of the input. Here they are given what the C code
has: memory behind a pointer, and a length. A run is its verdict and the indices that it read, in
order. `utf8_accepts` says that every validator accepts exactly the UTF-8 octet sequences, and reads
nothing at or above the length.
-/

namespace IoJournal

open Wire

/-- The verdict of a validator and the indices it read. -/
structure Scan where
  verdict : Bool
  reads : List Nat

def Scan.after (indices : List Nat) (s : Scan) : Scan := ⟨s.verdict, indices ++ s.reads⟩

/-- A call on `data + i`: its index `k` is `i + k` of the caller. -/
def Scan.shift (i : Nat) (s : Scan) : Scan := ⟨s.verdict, s.reads.map (i + ·)⟩

/-- `n` octets of memory from index `i` on. -/
def slice (data : Nat → UInt8) : Nat → Nat → Bytes
  | _, 0 => []
  | i, n + 1 => data i :: slice data (i + 1) n

/-- The loop of `ij_utf8_scalar_validate` at index `i`. -/
def utf8ScalarLoop (data : Nat → UInt8) (len i : Nat) : Scan :=
  if i < len then
    let c := data i
    let remaining := len - i
    if c ≤ 0x7F then (utf8ScalarLoop data len (i + 1)).after [i]
    else if c &&& 0xE0 = 0xC0 then
      if remaining < 2 then ⟨false, [i]⟩
      else if data (i + 1) &&& 0xC0 ≠ 0x80 ∨ c < 0xC2 then ⟨false, [i, i + 1]⟩
      else (utf8ScalarLoop data len (i + 2)).after [i, i + 1]
    else if c &&& 0xF0 = 0xE0 then
      if remaining < 3 then ⟨false, [i]⟩
      else
        let c1 := data (i + 1)
        let c2 := data (i + 2)
        if c1 &&& 0xC0 ≠ 0x80 ∨ c2 &&& 0xC0 ≠ 0x80 then ⟨false, [i, i + 1, i + 2]⟩
        else if c = 0xE0 ∧ c1 < 0xA0 ∨ c = 0xED ∧ c1 ≥ 0xA0 then ⟨false, [i, i + 1, i + 2]⟩
        else (utf8ScalarLoop data len (i + 3)).after [i, i + 1, i + 2]
    else if c &&& 0xF8 = 0xF0 then
      if remaining < 4 then ⟨false, [i]⟩
      else
        let c1 := data (i + 1)
        let c2 := data (i + 2)
        let c3 := data (i + 3)
        if c1 &&& 0xC0 ≠ 0x80 ∨ c2 &&& 0xC0 ≠ 0x80 ∨ c3 &&& 0xC0 ≠ 0x80 then ⟨false, [i, i + 1, i + 2, i + 3]⟩
        else if c = 0xF0 ∧ c1 < 0x90 ∨ c = 0xF4 ∧ c1 ≥ 0x90 ∨ c > 0xF4 then ⟨false, [i, i + 1, i + 2, i + 3]⟩
        else (utf8ScalarLoop data len (i + 4)).after [i, i + 1, i + 2, i + 3]
    else ⟨false, [i]⟩
  else ⟨true, []⟩
termination_by len - i

/-- `ij_utf8_scalar_validate`. -/
def utf8ScalarScan (data : Nat → UInt8) (len : Nat) : Scan := utf8ScalarLoop data len 0

/-- The vector loops: `width` octets are loaded at once, and the loop ends at the first block that
has a lane above 0x7F. -/
def utf8BlockLoop (width : Nat) (hwidth : 0 < width) (high : Bytes → Bool) (data : Nat → UInt8) (len i : Nat) : Scan :=
  if i + width ≤ len then
    if high (slice data i width) then
      ((utf8ScalarScan (fun k => data (i + k)) (len - i)).shift i).after (List.range' i width)
    else (utf8BlockLoop width hwidth high data len (i + width)).after (List.range' i width)
  else (utf8ScalarScan (fun k => data (i + k)) (len - i)).shift i
termination_by len - i

/-- `ij_utf8_x86_avx2_validate`. -/
def utf8X86Avx2Scan (cpu : Cpu) (data : Nat → UInt8) (len : Nat) : Scan :=
  if cpu.hasX86Avx2 then utf8BlockLoop 32 (by decide) (fun chunk => movemask chunk != 0) data len 0
  else utf8ScalarScan data len

/-- `ij_utf8_arm_neon_validate`. -/
def utf8ArmNeonScan (cpu : Cpu) (data : Nat → UInt8) (len : Nat) : Scan :=
  if cpu.hasArmNeon then utf8BlockLoop 16 (by decide) (fun chunk => neonAny (laneAnd 0x80 chunk)) data len 0
  else utf8ScalarScan data len

/-- `ij_utf8_is_valid_dispatch`. -/
def utf8DispatchScan (cpu : Cpu) (data : Nat → UInt8) (len : Nat) : Scan :=
  if len < simdMinLen then utf8ScalarScan data len
  else
    match cpu.simdKind with
    | .x86Avx2 => utf8X86Avx2Scan cpu data len
    | .armNeon => utf8ArmNeonScan cpu data len
    | .scalar => utf8ScalarScan data len

/-! ## Memory as a list -/

theorem slice_cons (data : Nat → UInt8) {i len : Nat} (h : i < len) :
    slice data i (len - i) = data i :: slice data (i + 1) (len - (i + 1)) := by
  obtain ⟨n, hn⟩ : ∃ n, len - i = n + 1 := ⟨len - i - 1, by omega⟩
  rw [hn, slice, show len - (i + 1) = n by omega]

theorem slice_two (data : Nat → UInt8) {i len : Nat} (h : i + 2 ≤ len) :
    slice data i (len - i) = data i :: data (i + 1) :: slice data (i + 2) (len - (i + 2)) := by
  rw [slice_cons data (by omega), slice_cons data (by omega)]

theorem slice_three (data : Nat → UInt8) {i len : Nat} (h : i + 3 ≤ len) :
    slice data i (len - i) = data i :: data (i + 1) :: data (i + 2) :: slice data (i + 3) (len - (i + 3)) := by
  rw [slice_two data (by omega), slice_cons data (by omega)]

theorem slice_four (data : Nat → UInt8) {i len : Nat} (h : i + 4 ≤ len) :
    slice data i (len - i) =
      data i :: data (i + 1) :: data (i + 2) :: data (i + 3) :: slice data (i + 4) (len - (i + 4)) := by
  rw [slice_three data (by omega), slice_cons data (by omega)]

theorem slice_shift (data : Nat → UInt8) (i n : Nat) : ∀ j, slice (fun k => data (i + k)) j n = slice data (i + j) n := by
  induction n with
  | zero =>
    intro j
    rfl
  | succ n ih =>
    intro j
    rw [slice, slice, ih (j + 1)]
    rfl

theorem slice_take (data : Nat → UInt8) (w : Nat) : ∀ i n, w ≤ n → (slice data i n).take w = slice data i w := by
  induction w with
  | zero =>
    intro i n _
    rw [List.take_zero]
    rfl
  | succ w ih =>
    intro i n hn
    obtain ⟨m, rfl⟩ : ∃ m, n = m + 1 := ⟨n - 1, by omega⟩
    rw [slice, List.take_succ_cons, ih (i + 1) m (by omega), slice]

theorem slice_drop (data : Nat → UInt8) (w : Nat) : ∀ i n, (slice data i n).drop w = slice data (i + w) (n - w) := by
  induction w with
  | zero =>
    intro i n
    rfl
  | succ w ih =>
    intro i n
    cases n with
    | zero => rw [slice, List.drop_nil, Nat.zero_sub, slice]
    | succ n => rw [slice, List.drop_succ_cons, ih (i + 1) n, Nat.add_sub_add_right, show i + 1 + w = i + (w + 1) by omega]

/-! ## The scalar loop -/

/-- A run from index `i` on that agrees with the scalar validator and stays below the length. -/
structure Scan.Agrees (s : Scan) (data : Nat → UInt8) (len i : Nat) : Prop where
  verdict : s.verdict = utf8ScalarValidate (slice data i (len - i))
  reads : ∀ k ∈ s.reads, i ≤ k ∧ k < len

section Agrees

variable {data : Nat → UInt8} {len i : Nat} {indices : List Nat}

theorem Scan.Agrees.after {s : Scan} {j : Nat} (h : s.Agrees data len j) (hij : i ≤ j)
    (hindices : ∀ k ∈ indices, i ≤ k ∧ k < len)
    (hverdict : utf8ScalarValidate (slice data i (len - i)) = utf8ScalarValidate (slice data j (len - j))) :
    (s.after indices).Agrees data len i where
  verdict := h.verdict.trans hverdict.symm
  reads k hk := by
    rcases List.mem_append.1 hk with hk | hk
    · exact hindices k hk
    · have := h.reads k hk
      omega

theorem Scan.Agrees.refuses (hindices : ∀ k ∈ indices, i ≤ k ∧ k < len)
    (hverdict : utf8ScalarValidate (slice data i (len - i)) = false) : Scan.Agrees ⟨false, indices⟩ data len i :=
  ⟨hverdict.symm, hindices⟩

theorem indices_lt {n : Nat} (h : i + n ≤ len) : ∀ k ∈ List.range' i n, i ≤ k ∧ k < len := by
  intro k hk
  have := List.mem_range'_1.1 hk
  omega

end Agrees

theorem utf8ScalarLoop_agrees (data : Nat → UInt8) (len i : Nat) : (utf8ScalarLoop data len i).Agrees data len i := by
  fun_induction utf8ScalarLoop data len i with
  | case1 i hi c hc ih =>
    refine ih.after (by omega) (indices_lt (n := 1) hi) ?_
    rw [slice_cons data hi, utf8ScalarValidate.eq_def]
    simp only [if_pos hc, c]
  | case2 i hi c remaining hc htwo hshort =>
    refine .refuses (indices_lt (n := 1) hi) ?_
    rw [slice_cons data hi, utf8ScalarValidate.eq_def, show len - (i + 1) = 0 by omega]
    simp only [if_neg hc, if_pos htwo, slice, c]
  | case3 i hi c remaining hc htwo hroom hbad =>
    refine .refuses (indices_lt (n := 2) (by omega)) ?_
    rw [slice_two data (by omega), utf8ScalarValidate.eq_def]
    simp only [if_neg hc, if_pos htwo, if_pos hbad, c]
  | case4 i hi c remaining hc htwo hroom hgood ih =>
    refine ih.after (by omega) (indices_lt (n := 2) (by omega)) ?_
    rw [slice_two data (by omega), utf8ScalarValidate.eq_def]
    simp only [if_neg hc, if_pos htwo, if_neg hgood, c]
  | case5 i hi c remaining hc htwo hthree hshort =>
    refine .refuses (indices_lt (n := 1) hi) ?_
    rw [slice_cons data hi, utf8ScalarValidate.eq_def]
    simp only [if_neg hc, if_neg htwo, if_pos hthree, c]
    obtain h | h : len - (i + 1) = 0 ∨ len - (i + 1) = 1 := by omega
    · rw [h]
      rfl
    · rw [h]
      rfl
  | case6 i hi c remaining hc htwo hthree hroom c1 c2 hbad =>
    refine .refuses (indices_lt (n := 3) (by omega)) ?_
    rw [slice_three data (by omega), utf8ScalarValidate.eq_def]
    simp only [if_neg hc, if_neg htwo, if_pos hthree, if_pos hbad, c, c1, c2]
  | case7 i hi c remaining hc htwo hthree hroom c1 c2 htails hbad =>
    refine .refuses (indices_lt (n := 3) (by omega)) ?_
    rw [slice_three data (by omega), utf8ScalarValidate.eq_def]
    simp only [if_neg hc, if_neg htwo, if_pos hthree, if_neg htails, if_pos hbad, c, c1, c2]
  | case8 i hi c remaining hc htwo hthree hroom c1 c2 htails hgood ih =>
    refine ih.after (by omega) (indices_lt (n := 3) (by omega)) ?_
    rw [slice_three data (by omega), utf8ScalarValidate.eq_def]
    simp only [if_neg hc, if_neg htwo, if_pos hthree, if_neg htails, if_neg hgood, c, c1, c2]
  | case9 i hi c remaining hc htwo hthree hfour hshort =>
    refine .refuses (indices_lt (n := 1) hi) ?_
    rw [slice_cons data hi, utf8ScalarValidate.eq_def]
    simp only [if_neg hc, if_neg htwo, if_neg hthree, if_pos hfour, c]
    obtain h | h | h : len - (i + 1) = 0 ∨ len - (i + 1) = 1 ∨ len - (i + 1) = 2 := by omega
    · rw [h]
      rfl
    · rw [h]
      rfl
    · rw [h]
      rfl
  | case10 i hi c remaining hc htwo hthree hfour hroom c1 c2 c3 hbad =>
    refine .refuses (indices_lt (n := 4) (by omega)) ?_
    rw [slice_four data (by omega), utf8ScalarValidate.eq_def]
    simp only [if_neg hc, if_neg htwo, if_neg hthree, if_pos hfour, if_pos hbad, c, c1, c2, c3]
  | case11 i hi c remaining hc htwo hthree hfour hroom c1 c2 c3 htails hbad =>
    refine .refuses (indices_lt (n := 4) (by omega)) ?_
    rw [slice_four data (by omega), utf8ScalarValidate.eq_def]
    simp only [if_neg hc, if_neg htwo, if_neg hthree, if_pos hfour, if_neg htails, if_pos hbad, c, c1, c2, c3]
  | case12 i hi c remaining hc htwo hthree hfour hroom c1 c2 c3 htails hgood ih =>
    refine ih.after (by omega) (indices_lt (n := 4) (by omega)) ?_
    rw [slice_four data (by omega), utf8ScalarValidate.eq_def]
    simp only [if_neg hc, if_neg htwo, if_neg hthree, if_pos hfour, if_neg htails, if_neg hgood, c, c1, c2, c3]
  | case13 i hi c hc htwo hthree hfour =>
    refine .refuses (indices_lt (n := 1) hi) ?_
    rw [slice_cons data hi, utf8ScalarValidate.eq_def]
    simp only [if_neg hc, if_neg htwo, if_neg hthree, if_neg hfour, c]
  | case14 i hi =>
    refine ⟨?_, by simp⟩
    rw [show len - i = 0 by omega]
    rfl

theorem utf8ScalarScan_agrees (data : Nat → UInt8) (len : Nat) : (utf8ScalarScan data len).Agrees data len 0 :=
  utf8ScalarLoop_agrees data len 0

/-! ## The vector loops -/

theorem utf8ScalarScan_shift_agrees (data : Nat → UInt8) {len i : Nat} (h : i ≤ len) :
    ((utf8ScalarScan (fun k => data (i + k)) (len - i)).shift i).Agrees data len i := by
  obtain ⟨hverdict, hreads⟩ := utf8ScalarScan_agrees (fun k => data (i + k)) (len - i)
  refine ⟨?_, fun k hk => ?_⟩
  · rw [Nat.sub_zero, slice_shift] at hverdict
    exact hverdict
  · obtain ⟨j, hj, rfl⟩ := List.mem_map.1 hk
    have := hreads j hj
    omega

theorem utf8BlockLoop_agrees {width : Nat} (hwidth : 0 < width) {high : Bytes → Bool}
    (hhigh : ∀ chunk, high chunk = false → ∀ b ∈ chunk, b.toNat ≤ 0x7F) (data : Nat → UInt8) (len i : Nat)
    (hi : i ≤ len) : (utf8BlockLoop width hwidth high data len i).Agrees data len i := by
  fun_induction utf8BlockLoop width hwidth high data len i with
  | case1 i hroom hstop =>
    exact (utf8ScalarScan_shift_agrees data hi).after (Nat.le_refl i) (indices_lt hroom) rfl
  | case2 i hroom hgo ih =>
    refine (ih hroom).after (by omega) (indices_lt hroom) ?_
    have hascii : ∀ b ∈ (slice data i (len - i)).take width, b.toNat ≤ 0x7F := by
      rw [slice_take data width i _ (by omega)]
      exact hhigh _ (Bool.eq_false_iff.2 hgo)
    rw [← utf8ScalarValidate_drop hascii, slice_drop, show len - i - width = len - (i + width) by omega]
  | case3 i hend => exact utf8ScalarScan_shift_agrees data hi

theorem utf8X86Avx2Scan_agrees (cpu : Cpu) (data : Nat → UInt8) (len : Nat) :
    (utf8X86Avx2Scan cpu data len).Agrees data len 0 := by
  unfold utf8X86Avx2Scan
  split
  · refine utf8BlockLoop_agrees _ (fun chunk hlow => (movemask_eq_zero chunk).1 ?_) data len 0 (Nat.zero_le _)
    simpa using hlow
  · exact utf8ScalarScan_agrees data len

theorem utf8ArmNeonScan_agrees (cpu : Cpu) (data : Nat → UInt8) (len : Nat) :
    (utf8ArmNeonScan cpu data len).Agrees data len 0 := by
  unfold utf8ArmNeonScan
  split
  · refine utf8BlockLoop_agrees _ (fun chunk hlow b hb => (mask_high b).1 ?_) data len 0 (Nat.zero_le _)
    exact (neonAny_eq_false _).1 hlow (b &&& 0x80) (List.mem_map_of_mem hb)
  · exact utf8ScalarScan_agrees data len

theorem utf8DispatchScan_agrees (cpu : Cpu) (data : Nat → UInt8) (len : Nat) :
    (utf8DispatchScan cpu data len).Agrees data len 0 := by
  unfold utf8DispatchScan
  split
  · exact utf8ScalarScan_agrees data len
  split
  · exact utf8X86Avx2Scan_agrees cpu data len
  · exact utf8ArmNeonScan_agrees cpu data len
  · exact utf8ScalarScan_agrees data len

/-- The verdict is the one that `utf8IsValidDispatch` computes on the octets. -/
theorem utf8DispatchScan_verdict (cpu : Cpu) (data : Nat → UInt8) (len : Nat) :
    (utf8DispatchScan cpu data len).verdict = utf8IsValidDispatch cpu (slice data 0 len) := by
  rw [(utf8DispatchScan_agrees cpu data len).verdict, utf8IsValidDispatch_eq, Nat.sub_zero]

/-- A run that accepts exactly the UTF-8 octet sequences, and reads only indices below the length. -/
structure Scan.Accepts (s : Scan) (data : Nat → UInt8) (len : Nat) : Prop where
  verdict : s.verdict = true ↔ Utf8.Valid (slice data 0 len)
  reads : ∀ k ∈ s.reads, k < len

theorem Scan.Agrees.accepts {s : Scan} {data : Nat → UInt8} {len : Nat} (h : s.Agrees data len 0) :
    s.Accepts data len where
  verdict := by rw [h.verdict, utf8ScalarValidate_iff, Nat.sub_zero]
  reads k hk := (h.reads k hk).2

/-- Every validator, on every CPU, accepts UTF-8 and nothing else. -/
theorem utf8_accepts (cpu : Cpu) (data : Nat → UInt8) (len : Nat) :
    (utf8ScalarScan data len).Accepts data len ∧ (utf8X86Avx2Scan cpu data len).Accepts data len ∧
      (utf8ArmNeonScan cpu data len).Accepts data len ∧ (utf8DispatchScan cpu data len).Accepts data len :=
  ⟨(utf8ScalarScan_agrees data len).accepts, (utf8X86Avx2Scan_agrees cpu data len).accepts,
    (utf8ArmNeonScan_agrees cpu data len).accepts, (utf8DispatchScan_agrees cpu data len).accepts⟩

end IoJournal
