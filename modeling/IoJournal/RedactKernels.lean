import IoJournal.Denylist
import IoJournal.Simd

/-!
# IoJournal.RedactKernels

The vector variants of the key comparison and of the search for a dot (`filters/ij_redact_match_*.c`).

Both take whole blocks of a register and leave the rest to the scalar routine. A block is lowered lane
by lane, with signed comparisons on AVX2 and unsigned ones on NEON; either is `tolower` in every lane
(`redactLowerX86Avx2_eq`, `redactLowerArmNeon_eq`), so that the blocks and the rest together decide
what the scalar routine decides.
-/

namespace IoJournal

open Wire

/-! ## Vector operations -/

/-- `_mm256_cmpgt_epi8` of a vector and a constant; the lanes are signed. -/
def laneGtSigned (c : UInt8) (v : Bytes) : Bytes := v.map fun x => if c.toInt8 < x.toInt8 then 0xFF else 0

/-- `_mm256_cmpgt_epi8` of a constant and a vector. -/
def laneLtSigned (c : UInt8) (v : Bytes) : Bytes := v.map fun x => if x.toInt8 < c.toInt8 then 0xFF else 0

/-- `vcgeq_u8` against a constant. -/
def laneGe (c : UInt8) (v : Bytes) : Bytes := v.map fun x => if c ≤ x then 0xFF else 0

/-- `vcleq_u8` against a constant. -/
def laneLe (c : UInt8) (v : Bytes) : Bytes := v.map fun x => if x ≤ c then 0xFF else 0

/-- `_mm256_and_si256` and `vandq_u8` of two vectors. -/
def laneBoth (v w : Bytes) : Bytes := List.zipWith (· &&& ·) v w

/-- `_mm256_cmpeq_epi8` and `vceqq_u8` of two vectors. -/
def laneSame (v w : Bytes) : Bytes := List.zipWith (fun x y => if x = y then 0xFF else 0) v w

/-- The negation of `vgetq_lane_u64(wide, 0) != UINT64_MAX || vgetq_lane_u64(wide, 1) != UINT64_MAX`. -/
def neonAll (v : Bytes) : Bool :=
  !(lane64 (v.take 8) != 0xFFFFFFFFFFFFFFFF || lane64 (v.drop 8) != 0xFFFFFFFFFFFFFFFF)

/-! ## The kernels -/

def redactLowerX86Avx2 (value : Bytes) : Bytes :=
  let geA := laneGtSigned (byteOf 'A' - 1) value
  let ltZ := laneLtSigned (byteOf 'Z' + 1) value
  let upper := laneBoth geA ltZ
  laneOr value (laneAnd 0x20 upper)

def redactLowerArmNeon (value : Bytes) : Bytes :=
  let geA := laneGe (byteOf 'A') value
  let leZ := laneLe (byteOf 'Z') value
  let upper := laneBoth geA leZ
  laneOr value (laneAnd 0x20 upper)

/-- The comparison loop: blocks of `width` octets that must be the `same`, then the scalar routine on what
is left of both keys. -/
def redactCaseEqualBlocks (width : Nat) (same : Bytes → Bytes → Bool) : Nat → Bytes → Bytes → Bool
  | 0, lhs, rhs => redactCaseEqualScalar lhs rhs
  | n + 1, lhs, rhs =>
    if !same (lhs.take width) (rhs.take width) then false
    else redactCaseEqualBlocks width same n (lhs.drop width) (rhs.drop width)

/-- The search loop: blocks of `width` octets that may have `any` dot, then the scalar routine. -/
def redactHasDotBlocks (width : Nat) (any : Bytes → Bool) : Nat → Bytes → Bool
  | 0, text => redactHasDotScalar text
  | n + 1, text => if any (text.take width) then true else redactHasDotBlocks width any n (text.drop width)

def redactCaseEqualX86Avx2Impl (lhs rhs : Bytes) : Bool :=
  if lhs.length ≠ rhs.length then false
  else redactCaseEqualBlocks 32 (fun lhsChunk rhsChunk =>
    movemask (laneSame (redactLowerX86Avx2 lhsChunk) (redactLowerX86Avx2 rhsChunk)) == 0xFFFFFFFF)
    (lhs.length / 32) lhs rhs

def redactHasDotX86Avx2Impl (text : Bytes) : Bool :=
  redactHasDotBlocks 32 (fun chunk => movemask (laneEq (byteOf '.') chunk) != 0) (text.length / 32) text

def redactCaseEqualX86Avx2 (cpu : Cpu) (lhs rhs : Bytes) : Bool :=
  if cpu.hasX86Avx2 then redactCaseEqualX86Avx2Impl lhs rhs else redactCaseEqualScalar lhs rhs

def redactHasDotX86Avx2 (cpu : Cpu) (text : Bytes) : Bool :=
  if cpu.hasX86Avx2 then redactHasDotX86Avx2Impl text else redactHasDotScalar text

def redactCaseEqualArmNeonImpl (lhs rhs : Bytes) : Bool :=
  if lhs.length ≠ rhs.length then false
  else redactCaseEqualBlocks 16 (fun lhsChunk rhsChunk =>
    neonAll (laneSame (redactLowerArmNeon lhsChunk) (redactLowerArmNeon rhsChunk))) (lhs.length / 16) lhs rhs

def redactHasDotArmNeonImpl (text : Bytes) : Bool :=
  redactHasDotBlocks 16 (fun chunk => neonAny (laneEq (byteOf '.') chunk)) (text.length / 16) text

def redactCaseEqualArmNeon (cpu : Cpu) (lhs rhs : Bytes) : Bool :=
  if cpu.hasArmNeon then redactCaseEqualArmNeonImpl lhs rhs else redactCaseEqualScalar lhs rhs

def redactHasDotArmNeon (cpu : Cpu) (text : Bytes) : Bool :=
  if cpu.hasArmNeon then redactHasDotArmNeonImpl text else redactHasDotScalar text

/-! ## Lowering -/

/-- One lane of the AVX2 lowering: an octet above 0x7F is negative, and so below `'A' - 1`. -/
theorem lower_lane_signed (x : UInt8) :
    x ||| ((if (byteOf 'A' - 1).toInt8 < x.toInt8 then 0xFF else 0) &&&
      (if x.toInt8 < (byteOf 'Z' + 1).toInt8 then 0xFF else 0)) &&& 0x20 = tolower x :=
  forall_byte (P := fun x => x ||| ((if (byteOf 'A' - 1).toInt8 < x.toInt8 then 0xFF else 0) &&&
      (if x.toInt8 < (byteOf 'Z' + 1).toInt8 then 0xFF else 0)) &&& 0x20 = tolower x) (by decide +kernel) x

theorem lower_lane_unsigned (x : UInt8) :
    x ||| ((if byteOf 'A' ≤ x then 0xFF else 0) &&& (if x ≤ byteOf 'Z' then 0xFF else 0)) &&& 0x20 = tolower x :=
  forall_byte (P := fun x => x ||| ((if byteOf 'A' ≤ x then 0xFF else 0) &&&
      (if x ≤ byteOf 'Z' then 0xFF else 0)) &&& 0x20 = tolower x) (by decide +kernel) x

theorem redactLowerX86Avx2_eq (value : Bytes) : redactLowerX86Avx2 value = asciiLower value := by
  induction value with
  | nil => rfl
  | cons x value ih => exact congrArg₂ List.cons (lower_lane_signed x) ih

theorem redactLowerArmNeon_eq (value : Bytes) : redactLowerArmNeon value = asciiLower value := by
  induction value with
  | nil => rfl
  | cons x value ih => exact congrArg₂ List.cons (lower_lane_unsigned x) ih

/-! ## Masks -/

theorem cut_iff (k : Nat) (v w : Bytes) : v = w ↔ v.take k = w.take k ∧ v.drop k = w.drop k := by
  constructor
  · rintro rfl
    exact ⟨rfl, rfl⟩
  · rintro ⟨hfront, hback⟩
    rw [← List.take_append_drop k v, hfront, hback, List.take_append_drop]

section Masks

variable {v w : Bytes}

theorem movemask_laneSame (h : v.length = w.length) : movemask (laneSame v w) + 1 = 2 ^ v.length ↔ v = w := by
  induction v generalizing w with
  | nil =>
    rw [List.length_eq_zero_iff.1 h.symm]
    simp [laneSame, movemask]
  | cons x v ih =>
    cases w with
    | nil => cases h
    | cons y w =>
      have hrest := ih (Nat.succ.inj h)
      have hcons : laneSame (x :: v) (y :: w) = (if x = y then 0xFF else 0) :: laneSame v w := rfl
      rw [hcons, movemask, List.length_cons, Nat.pow_succ, List.cons.injEq, ← hrest]
      by_cases hxy : x = y
      · simp only [hxy, if_true, true_and, show (0x80 : UInt8) ≤ 0xFF by decide]
        omega
      · simp only [hxy, if_false, false_and, show ¬ (0x80 : UInt8) ≤ 0 by decide, iff_false]
        omega

theorem lane64_laneSame (h : v.length = w.length) : lane64 (laneSame v w) + 1 = 256 ^ v.length ↔ v = w := by
  induction v generalizing w with
  | nil =>
    rw [List.length_eq_zero_iff.1 h.symm]
    simp [laneSame, lane64]
  | cons x v ih =>
    cases w with
    | nil => cases h
    | cons y w =>
      have hrest := ih (Nat.succ.inj h)
      have hcons : lane64 (laneSame (x :: v) (y :: w)) =
          (if x = y then 0xFF else 0 : UInt8).toNat + 256 * lane64 (laneSame v w) := rfl
      rw [hcons, List.length_cons, Nat.pow_succ, List.cons.injEq, ← hrest]
      by_cases hxy : x = y
      · simp only [hxy, if_true, true_and, show (0xFF : UInt8).toNat = 255 by decide]
        omega
      · simp only [hxy, if_false, false_and, show (0 : UInt8).toNat = 0 by decide, iff_false]
        omega

theorem avx2Same_iff (hv : v.length = 32) (hw : w.length = 32) :
    (movemask (laneSame (redactLowerX86Avx2 v) (redactLowerX86Avx2 w)) == 0xFFFFFFFF) = true ↔
      asciiLower v = asciiLower w := by
  have hlen : (asciiLower v).length = 32 := by rw [asciiLower, List.length_map, hv]
  have hlen' : (asciiLower w).length = 32 := by rw [asciiLower, List.length_map, hw]
  rw [redactLowerX86Avx2_eq, redactLowerX86Avx2_eq, beq_iff_eq, ← movemask_laneSame (hlen.trans hlen'.symm), hlen]
  omega

theorem neonAll_laneSame (hv : v.length = 16) (hw : w.length = 16) : neonAll (laneSame v w) = true ↔ v = w := by
  have htake : (laneSame v w).take 8 = laneSame (v.take 8) (w.take 8) := List.take_zipWith
  have hdrop : (laneSame v w).drop 8 = laneSame (v.drop 8) (w.drop 8) := List.drop_zipWith
  have hfront := @lane64_laneSame (v.take 8) (w.take 8) (by rw [List.length_take, List.length_take, hv, hw])
  have hback := @lane64_laneSame (v.drop 8) (w.drop 8) (by rw [List.length_drop, List.length_drop, hv, hw])
  rw [List.length_take, hv, Nat.min_eq_left (by decide)] at hfront
  rw [List.length_drop, hv] at hback
  rw [neonAll, htake, hdrop, Bool.not_eq_true', Bool.or_eq_false_iff, bne_eq_false_iff_eq, bne_eq_false_iff_eq]
  rw [cut_iff 8 v w, ← hfront, ← hback]
  omega

theorem neonSame_iff (hv : v.length = 16) (hw : w.length = 16) :
    neonAll (laneSame (redactLowerArmNeon v) (redactLowerArmNeon w)) = true ↔ asciiLower v = asciiLower w := by
  rw [redactLowerArmNeon_eq, redactLowerArmNeon_eq]
  exact neonAll_laneSame (by rw [asciiLower, List.length_map, hv]) (by rw [asciiLower, List.length_map, hw])

theorem avx2Dot_iff (v : Bytes) : (movemask (laneEq (byteOf '.') v) != 0) = true ↔ byteOf '.' ∈ v := by
  rw [bne_iff_ne, ne_eq, movemask_eq_zero, not_iff_comm]
  constructor
  · intro hdot b hb
    obtain ⟨x, hx, rfl⟩ := List.mem_map.1 hb
    rw [if_neg (ne_of_mem_of_not_mem hx hdot)]
    decide
  · intro hlow hdot
    have := hlow _ (List.mem_map_of_mem hdot)
    rw [if_pos rfl] at this
    exact absurd this (by decide)

theorem neonDot_iff (v : Bytes) : neonAny (laneEq (byteOf '.') v) = true ↔ byteOf '.' ∈ v := by
  rw [← Bool.not_eq_false, neonAny_eq_false, not_iff_comm]
  constructor
  · intro hdot b hb
    obtain ⟨x, hx, rfl⟩ := List.mem_map.1 hb
    exact if_neg (ne_of_mem_of_not_mem hx hdot)
  · intro hzero hdot
    have := hzero _ (List.mem_map_of_mem hdot)
    rw [if_pos rfl] at this
    cases this

end Masks

/-! ## Blocks -/

theorem redactCaseEqualBlocks_eq {width : Nat} {same : Bytes → Bytes → Bool}
    (hsame : ∀ {v w : Bytes}, v.length = width → w.length = width → (same v w = true ↔ asciiLower v = asciiLower w))
    (n : Nat) : ∀ lhs rhs : Bytes, lhs.length = rhs.length → n * width ≤ lhs.length →
      redactCaseEqualBlocks width same n lhs rhs = redactCaseEqualScalar lhs rhs := by
  induction n with
  | zero =>
    intro lhs rhs _ _
    rfl
  | succ n ih =>
    intro lhs rhs hlen hroom
    rw [Nat.succ_mul] at hroom
    have hblock := @hsame (lhs.take width) (rhs.take width) (by rw [List.length_take]; omega)
      (by rw [List.length_take]; omega)
    rw [redactCaseEqualBlocks, ih (lhs.drop width) (rhs.drop width) (by rw [List.length_drop, List.length_drop, hlen])
      (by rw [List.length_drop]; omega), Bool.eq_iff_iff, redactCaseEqualScalar_iff, cut_iff width (asciiLower lhs)]
    simp only [asciiLower, ← List.map_take, ← List.map_drop] at hblock ⊢
    rw [← hblock]
    cases same (lhs.take width) (rhs.take width) with
    | false => simp
    | true =>
      simp only [Bool.not_true, Bool.false_eq_true, if_false, true_and]
      exact redactCaseEqualScalar_iff _ _

theorem redactCaseEqualChecked_eq {width : Nat} {same : Bytes → Bytes → Bool}
    (hsame : ∀ {v w : Bytes}, v.length = width → w.length = width → (same v w = true ↔ asciiLower v = asciiLower w))
    (lhs rhs : Bytes) :
    (if lhs.length ≠ rhs.length then false else redactCaseEqualBlocks width same (lhs.length / width) lhs rhs) =
      redactCaseEqualScalar lhs rhs := by
  by_cases hlen : lhs.length = rhs.length
  · rw [if_neg (not_not.2 hlen)]
    exact redactCaseEqualBlocks_eq hsame _ lhs rhs hlen (Nat.div_mul_le_self _ _)
  · rw [if_pos hlen, redactCaseEqualScalar, if_pos hlen]

theorem redactHasDotBlocks_eq {width : Nat} {any : Bytes → Bool}
    (hany : ∀ v : Bytes, any v = true ↔ byteOf '.' ∈ v) (n : Nat) :
    ∀ text : Bytes, redactHasDotBlocks width any n text = redactHasDotScalar text := by
  induction n with
  | zero =>
    intro text
    rfl
  | succ n ih =>
    intro text
    rw [redactHasDotBlocks, ih, Bool.eq_iff_iff, redactHasDotScalar_iff text]
    conv => rhs; rw [← List.take_append_drop width text, List.mem_append, ← hany, ← redactHasDotScalar_iff]
    cases any (text.take width) <;> simp

/-- On every CPU the vector variants return what the scalar routines return, for all octet strings. -/
theorem redactKernels_eq (cpu : Cpu) :
    (∀ lhs rhs, redactCaseEqualX86Avx2 cpu lhs rhs = redactCaseEqualScalar lhs rhs) ∧
      (∀ lhs rhs, redactCaseEqualArmNeon cpu lhs rhs = redactCaseEqualScalar lhs rhs) ∧
      (∀ text, redactHasDotX86Avx2 cpu text = redactHasDotScalar text) ∧
      ∀ text, redactHasDotArmNeon cpu text = redactHasDotScalar text := by
  refine ⟨?_, ?_, ?_, ?_⟩
  · intro lhs rhs
    rw [redactCaseEqualX86Avx2, redactCaseEqualX86Avx2Impl, redactCaseEqualChecked_eq avx2Same_iff, ite_self]
  · intro lhs rhs
    rw [redactCaseEqualArmNeon, redactCaseEqualArmNeonImpl, redactCaseEqualChecked_eq neonSame_iff, ite_self]
  · intro text
    rw [redactHasDotX86Avx2, redactHasDotX86Avx2Impl, redactHasDotBlocks_eq avx2Dot_iff, ite_self]
  · intro text
    rw [redactHasDotArmNeon, redactHasDotArmNeonImpl, redactHasDotBlocks_eq neonDot_iff, ite_self]

end IoJournal
