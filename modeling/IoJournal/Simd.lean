import IoJournal.Wire.Utf8
import IoJournal.Types

/-!
# IoJournal.Simd

The scanners with vector variants: UTF-8 validation (`core/ij_utf8_*.c`) and the search for the
first octet a JSON string must escape (`encoders/ij_json_escape_*.c`), with the runtime dispatch of
`ij_simd_dispatch.h`.

A vector register is the list of its lanes. The `while (i + 32 <= len)` loops run `len / 32` times,
so the number of blocks left is the recursion argument and the input is what is left of the text.

* `utf8ScalarValidate_iff`: the scalar validator accepts exactly the UTF-8 octet sequences.
* `utf8IsValidDispatch_eq`, `jsonEscapeFindFirstSpecial_eq`: on every CPU the dispatchers compute
  what the scalar routines do.
-/

namespace IoJournal

open Wire

/-- What the runtime feature tests of `ij_simd_dispatch.h` report. -/
structure Cpu where
  hasX86Avx2 : Bool
  hasArmNeon : Bool

inductive SimdKind where
  | scalar
  | x86Avx2
  | armNeon
  deriving DecidableEq, Repr

/-- `ij_simd_json_escape_kind` and `ij_simd_utf8_kind`. -/
def Cpu.simdKind (cpu : Cpu) : SimdKind :=
  if cpu.hasX86Avx2 then .x86Avx2 else if cpu.hasArmNeon then .armNeon else .scalar

/-- `IJ_SIMD_JSON_ESCAPE_MIN_LEN` and `IJ_SIMD_UTF8_MIN_LEN`. -/
def simdMinLen : Nat := 32

/-! ## Vector operations -/

/-- `_mm256_cmpeq_epi8` and `vceqq_u8` against a constant in every lane. -/
def laneEq (c : UInt8) (v : Bytes) : Bytes := v.map fun x => if x = c then 0xFF else 0

/-- `_mm256_or_si256` and `vorrq_u8`. -/
def laneOr (v w : Bytes) : Bytes := List.zipWith (· ||| ·) v w

/-- `_mm256_subs_epu8` of a constant: subtraction that stops at zero. -/
def laneSubs (c : UInt8) (v : Bytes) : Bytes := v.map fun x => if x ≤ c then 0 else x - c

/-- `vcltq_u8` against a constant. -/
def laneLt (c : UInt8) (v : Bytes) : Bytes := v.map fun x => if x < c then 0xFF else 0

/-- `vandq_u8` with a constant. -/
def laneAnd (c : UInt8) (v : Bytes) : Bytes := v.map (· &&& c)

/-- `_mm256_movemask_epi8`: the top bit of lane `i` is bit `i`. -/
def movemask : Bytes → Nat
  | [] => 0
  | b :: v => (if 0x80 ≤ b then 1 else 0) + 2 * movemask v

/-- `__builtin_ctz` of a 32-bit word. -/
def ctz : Nat → Nat → Nat
  | 0, _ => 0
  | n + 1, m => if m % 2 = 1 then 0 else 1 + ctz n (m / 2)

/-- A `uint64_t` lane of `vreinterpretq_u64_u8`. -/
def lane64 (v : Bytes) : Nat := v.foldr (fun b acc => b.toNat + 256 * acc) 0

/-- `vgetq_lane_u64(wide, 0) != 0ULL || vgetq_lane_u64(wide, 1) != 0ULL`. -/
def neonAny (v : Bytes) : Bool := lane64 (v.take 8) != 0 || lane64 (v.drop 8) != 0

/-! ## UTF-8 validation -/

/-- `ij_utf8_scalar_validate`, on what is left of the input at `i`. -/
def utf8ScalarValidate : Bytes → Bool
  | [] => true
  | c :: rest =>
    if c ≤ 0x7F then utf8ScalarValidate rest
    else if c &&& 0xE0 = 0xC0 then
      match rest with
      | [] => false
      | c1 :: rest => if c1 &&& 0xC0 ≠ 0x80 ∨ c < 0xC2 then false else utf8ScalarValidate rest
    else if c &&& 0xF0 = 0xE0 then
      match rest with
      | c1 :: c2 :: rest =>
        if c1 &&& 0xC0 ≠ 0x80 ∨ c2 &&& 0xC0 ≠ 0x80 then false
        else if c = 0xE0 ∧ c1 < 0xA0 ∨ c = 0xED ∧ c1 ≥ 0xA0 then false
        else utf8ScalarValidate rest
      | _ => false
    else if c &&& 0xF8 = 0xF0 then
      match rest with
      | c1 :: c2 :: c3 :: rest =>
        if c1 &&& 0xC0 ≠ 0x80 ∨ c2 &&& 0xC0 ≠ 0x80 ∨ c3 &&& 0xC0 ≠ 0x80 then false
        else if c = 0xF0 ∧ c1 < 0x90 ∨ c = 0xF4 ∧ c1 ≥ 0x90 ∨ c > 0xF4 then false
        else utf8ScalarValidate rest
      | _ => false
    else false

/-- `ij_utf8_x86_avx2_impl`: whole ASCII blocks, then the scalar loop. -/
def utf8X86Avx2Impl : Nat → Bytes → Bool
  | 0, data => utf8ScalarValidate data
  | n + 1, data =>
    if movemask (data.take 32) ≠ 0 then utf8ScalarValidate data else utf8X86Avx2Impl n (data.drop 32)

def utf8X86Avx2Validate (cpu : Cpu) (data : Bytes) : Bool :=
  if cpu.hasX86Avx2 then utf8X86Avx2Impl (data.length / 32) data else utf8ScalarValidate data

/-- `ij_utf8_arm_neon_impl`. -/
def utf8ArmNeonImpl : Nat → Bytes → Bool
  | 0, data => utf8ScalarValidate data
  | n + 1, data =>
    if neonAny (laneAnd 0x80 (data.take 16)) then utf8ScalarValidate data
    else utf8ArmNeonImpl n (data.drop 16)

def utf8ArmNeonValidate (cpu : Cpu) (data : Bytes) : Bool :=
  if cpu.hasArmNeon then utf8ArmNeonImpl (data.length / 16) data else utf8ScalarValidate data

def utf8IsValidDispatch (cpu : Cpu) (data : Bytes) : Bool :=
  if data.length < simdMinLen then utf8ScalarValidate data
  else
    match cpu.simdKind with
    | .x86Avx2 => utf8X86Avx2Validate cpu data
    | .armNeon => utf8ArmNeonValidate cpu data
    | .scalar => utf8ScalarValidate data

theorem mask_tail (c : UInt8) : c &&& 0xC0 = 0x80 ↔ Utf8.isTail c = true :=
  forall_byte (P := fun c => c &&& 0xC0 = 0x80 ↔ Utf8.isTail c = true) (by decide +kernel) c

theorem mask_two (c : UInt8) : c &&& 0xE0 = 0xC0 ↔ 0xC0 ≤ c.toNat ∧ c.toNat ≤ 0xDF :=
  forall_byte (P := fun c => c &&& 0xE0 = 0xC0 ↔ 0xC0 ≤ c.toNat ∧ c.toNat ≤ 0xDF) (by decide +kernel) c

theorem mask_three (c : UInt8) : c &&& 0xF0 = 0xE0 ↔ 0xE0 ≤ c.toNat ∧ c.toNat ≤ 0xEF :=
  forall_byte (P := fun c => c &&& 0xF0 = 0xE0 ↔ 0xE0 ≤ c.toNat ∧ c.toNat ≤ 0xEF) (by decide +kernel) c

theorem mask_four (c : UInt8) : c &&& 0xF8 = 0xF0 ↔ 0xF0 ≤ c.toNat ∧ c.toNat ≤ 0xF7 :=
  forall_byte (P := fun c => c &&& 0xF8 = 0xF0 ↔ 0xF0 ≤ c.toNat ∧ c.toNat ≤ 0xF7) (by decide +kernel) c

theorem valid_cons_iff (c : UInt8) (l : Bytes) :
    Utf8.Valid (c :: l) ↔
      c.toNat ≤ 0x7F ∧ Utf8.Valid l ∨
      (∃ c1 r, l = c1 :: r ∧ Utf8.isChar [c, c1] = true ∧ Utf8.Valid r) ∨
      (∃ c1 c2 r, l = c1 :: c2 :: r ∧ Utf8.isChar [c, c1, c2] = true ∧ Utf8.Valid r) ∨
      ∃ c1 c2 c3 r, l = c1 :: c2 :: c3 :: r ∧ Utf8.isChar [c, c1, c2, c3] = true ∧ Utf8.Valid r := by
  constructor
  · intro h
    obtain ⟨ch, r, hn, hr⟩ := (Utf8.valid_iff_next (by simp)).1 h
    obtain ⟨hc, hl⟩ := Utf8.next_sound hn
    obtain ⟨a, rfl⟩ | ⟨a, b, rfl⟩ | ⟨a, b, d, rfl⟩ | ⟨a, b, d, e, rfl⟩ := Utf8.isChar_cases hc
    · cases hl; exact .inl ⟨Utf8.isChar_one.1 hc, hr⟩
    · cases hl; exact .inr (.inl ⟨_, _, rfl, hc, hr⟩)
    · cases hl; exact .inr (.inr (.inl ⟨_, _, _, rfl, hc, hr⟩))
    · cases hl; exact .inr (.inr (.inr ⟨_, _, _, _, rfl, hc, hr⟩))
  · rintro (⟨hc, hr⟩ | ⟨c1, r, rfl, hc, hr⟩ | ⟨c1, c2, r, rfl, hc, hr⟩ | ⟨c1, c2, c3, r, rfl, hc, hr⟩)
    · exact (Utf8.valid_cons_ascii hc).2 hr
    · exact .cons (c := [c, c1]) hc hr
    · exact .cons (c := [c, c1, c2]) hc hr
    · exact .cons (c := [c, c1, c2, c3]) hc hr

theorem isTail_iff (b : UInt8) : Utf8.isTail b = true ↔ 0x80 ≤ b.toNat ∧ b.toNat ≤ 0xBF := by
  simp [Utf8.isTail, UInt8.le_iff_toNat_le]

section Leads

variable {c c1 c2 c3 : UInt8} {l : Bytes}

theorem isChar_two (h : 0xC0 ≤ c.toNat ∧ c.toNat ≤ 0xDF) :
    Utf8.isChar [c, c1] = true ↔ ¬ (¬ c1 &&& 0xC0 = 0x80 ∨ c < 0xC2) := by
  rw [mask_tail]
  simp only [Utf8.isChar, Bool.and_eq_true, decide_eq_true_eq, UInt8.le_iff_toNat_le, UInt8.lt_iff_toNat_lt,
    UInt8.toNat_ofNat, isTail_iff]
  omega

theorem isChar_three (h : 0xE0 ≤ c.toNat ∧ c.toNat ≤ 0xEF) :
    Utf8.isChar [c, c1, c2] = true ↔
      ¬ (¬ c1 &&& 0xC0 = 0x80 ∨ ¬ c2 &&& 0xC0 = 0x80) ∧ ¬ (c = 0xE0 ∧ c1 < 0xA0 ∨ c = 0xED ∧ c1 ≥ 0xA0) := by
  rw [mask_tail, mask_tail]
  simp only [Utf8.isChar, Bool.and_eq_true, Bool.or_eq_true, beq_iff_eq, decide_eq_true_eq, ge_iff_le,
    UInt8.le_iff_toNat_le, UInt8.lt_iff_toNat_lt, ← UInt8.toNat_inj, UInt8.toNat_ofNat, isTail_iff]
  omega

theorem isChar_four (h : 0xF0 ≤ c.toNat ∧ c.toNat ≤ 0xF7) :
    Utf8.isChar [c, c1, c2, c3] = true ↔
      ¬ (¬ c1 &&& 0xC0 = 0x80 ∨ ¬ c2 &&& 0xC0 = 0x80 ∨ ¬ c3 &&& 0xC0 = 0x80) ∧
        ¬ (c = 0xF0 ∧ c1 < 0x90 ∨ c = 0xF4 ∧ c1 ≥ 0x90 ∨ c > 0xF4) := by
  rw [mask_tail, mask_tail, mask_tail]
  simp only [Utf8.isChar, Bool.and_eq_true, Bool.or_eq_true, beq_iff_eq, decide_eq_true_eq, ge_iff_le, gt_iff_lt,
    UInt8.le_iff_toNat_le, UInt8.lt_iff_toNat_lt, ← UInt8.toNat_inj, UInt8.toNat_ofNat, isTail_iff]
  omega

theorem valid_two (h : 0xC0 ≤ c.toNat ∧ c.toNat ≤ 0xDF) :
    Utf8.Valid (c :: l) ↔ ∃ c1 r, l = c1 :: r ∧ Utf8.isChar [c, c1] = true ∧ Utf8.Valid r := by
  rw [valid_cons_iff]
  constructor
  · rintro (⟨h', _⟩ | h' | ⟨_, _, _, _, h', _⟩ | ⟨_, _, _, _, _, h', _⟩)
    · omega
    · exact h'
    · have := Utf8.isChar_three_lead h'; omega
    · have := Utf8.isChar_four_lead h'; omega
  · intro h'; exact .inr (.inl h')

theorem valid_three (h : 0xE0 ≤ c.toNat ∧ c.toNat ≤ 0xEF) :
    Utf8.Valid (c :: l) ↔ ∃ c1 c2 r, l = c1 :: c2 :: r ∧ Utf8.isChar [c, c1, c2] = true ∧ Utf8.Valid r := by
  rw [valid_cons_iff]
  constructor
  · rintro (⟨h', _⟩ | ⟨_, _, _, h', _⟩ | h' | ⟨_, _, _, _, _, h', _⟩)
    · omega
    · have := Utf8.isChar_two_lead h'; omega
    · exact h'
    · have := Utf8.isChar_four_lead h'; omega
  · intro h'; exact .inr (.inr (.inl h'))

theorem valid_four (h : 0xF0 ≤ c.toNat ∧ c.toNat ≤ 0xF7) :
    Utf8.Valid (c :: l) ↔
      ∃ c1 c2 c3 r, l = c1 :: c2 :: c3 :: r ∧ Utf8.isChar [c, c1, c2, c3] = true ∧ Utf8.Valid r := by
  rw [valid_cons_iff]
  constructor
  · rintro (⟨h', _⟩ | ⟨_, _, _, h', _⟩ | ⟨_, _, _, _, h', _⟩ | h')
    · omega
    · have := Utf8.isChar_two_lead h'; omega
    · have := Utf8.isChar_three_lead h'; omega
    · exact h'
  · intro h'; exact .inr (.inr (.inr h'))

theorem not_valid_lead (h1 : ¬ c.toNat ≤ 0x7F) (h2 : ¬ (0xC0 ≤ c.toNat ∧ c.toNat ≤ 0xDF))
    (h3 : ¬ (0xE0 ≤ c.toNat ∧ c.toNat ≤ 0xEF)) (h4 : ¬ (0xF0 ≤ c.toNat ∧ c.toNat ≤ 0xF7)) :
    ¬ Utf8.Valid (c :: l) := by
  rw [valid_cons_iff]
  rintro (⟨h', _⟩ | ⟨_, _, _, h', _⟩ | ⟨_, _, _, _, h', _⟩ | ⟨_, _, _, _, _, h', _⟩)
  · exact h1 h'
  · have := Utf8.isChar_two_lead h'; omega
  · have := Utf8.isChar_three_lead h'; omega
  · have := Utf8.isChar_four_lead h'; omega

end Leads

theorem le_7F_iff (c : UInt8) : c ≤ 0x7F ↔ c.toNat ≤ 0x7F := by
  simp [UInt8.le_iff_toNat_le]

theorem utf8ScalarValidate_iff (data : Bytes) : utf8ScalarValidate data = true ↔ Utf8.Valid data := by
  fun_induction utf8ScalarValidate data with
  | case1 => simp [Utf8.Valid.nil]
  | case2 c rest h1 ih => rw [ih, Utf8.valid_cons_ascii ((le_7F_iff c).1 h1)]
  | case3 c h1 h2 =>
    rw [valid_two ((mask_two c).1 h2)]
    simp
  | case4 c h1 h2 c1 rest hbad =>
    rw [valid_two ((mask_two c).1 h2)]
    refine ⟨fun h => (by cases h), ?_⟩
    rintro ⟨_, _, hl, hc, _⟩
    cases hl
    exact absurd hbad ((isChar_two ((mask_two c).1 h2)).1 hc)
  | case5 c h1 h2 c1 rest hgood ih =>
    rw [ih, valid_two ((mask_two c).1 h2)]
    have hchar : Utf8.isChar [c, c1] = true := (isChar_two ((mask_two c).1 h2)).2 hgood
    simp [hchar]
  | case6 c h1 h2 h3 c1 c2 rest hbad =>
    rw [valid_three ((mask_three c).1 h3)]
    refine ⟨fun h => (by cases h), ?_⟩
    rintro ⟨_, _, _, hl, hc, _⟩
    cases hl
    exact absurd hbad ((isChar_three ((mask_three c).1 h3)).1 hc).1
  | case7 c h1 h2 h3 c1 c2 rest _ hbad =>
    rw [valid_three ((mask_three c).1 h3)]
    refine ⟨fun h => (by cases h), ?_⟩
    rintro ⟨_, _, _, hl, hc, _⟩
    cases hl
    exact absurd hbad ((isChar_three ((mask_three c).1 h3)).1 hc).2
  | case8 c h1 h2 h3 c1 c2 rest htail hgood ih =>
    rw [ih, valid_three ((mask_three c).1 h3)]
    have hchar : Utf8.isChar [c, c1, c2] = true := (isChar_three ((mask_three c).1 h3)).2 ⟨htail, hgood⟩
    simp [hchar]
  | case9 c rest h1 h2 h3 hshort =>
    rw [valid_three ((mask_three c).1 h3)]
    refine ⟨fun h => (by cases h), ?_⟩
    rintro ⟨c1, c2, r, hl, _⟩
    exact absurd hl (hshort c1 c2 r)
  | case10 c h1 h2 h3 h4 c1 c2 c3 rest hbad =>
    rw [valid_four ((mask_four c).1 h4)]
    refine ⟨fun h => (by cases h), ?_⟩
    rintro ⟨_, _, _, _, hl, hc, _⟩
    cases hl
    exact absurd hbad ((isChar_four ((mask_four c).1 h4)).1 hc).1
  | case11 c h1 h2 h3 h4 c1 c2 c3 rest _ hbad =>
    rw [valid_four ((mask_four c).1 h4)]
    refine ⟨fun h => (by cases h), ?_⟩
    rintro ⟨_, _, _, _, hl, hc, _⟩
    cases hl
    exact absurd hbad ((isChar_four ((mask_four c).1 h4)).1 hc).2
  | case12 c h1 h2 h3 h4 c1 c2 c3 rest htail hgood ih =>
    rw [ih, valid_four ((mask_four c).1 h4)]
    have hchar : Utf8.isChar [c, c1, c2, c3] = true := (isChar_four ((mask_four c).1 h4)).2 ⟨htail, hgood⟩
    simp [hchar]
  | case13 c rest h1 h2 h3 h4 hshort =>
    rw [valid_four ((mask_four c).1 h4)]
    refine ⟨fun h => (by cases h), ?_⟩
    rintro ⟨c1, c2, c3, r, hl, _⟩
    exact absurd hl (hshort c1 c2 c3 r)
  | case14 c rest h1 h2 h3 h4 =>
    rw [le_7F_iff] at h1
    rw [mask_two] at h2
    rw [mask_three] at h3
    rw [mask_four] at h4
    simpa using not_valid_lead h1 h2 h3 h4

/-! ### Vector validators -/

theorem movemask_eq_zero (v : Bytes) : movemask v = 0 ↔ ∀ b ∈ v, b.toNat ≤ 0x7F := by
  induction v with
  | nil => simp [movemask]
  | cons b v ih =>
    simp only [movemask, UInt8.le_iff_toNat_le, UInt8.toNat_ofNat, List.forall_mem_cons, ← ih]
    split <;> omega

theorem lane64_eq_zero (v : Bytes) : lane64 v = 0 ↔ ∀ b ∈ v, b = 0 := by
  induction v with
  | nil => simp [lane64]
  | cons b v ih =>
    simp only [lane64, List.foldr_cons, List.forall_mem_cons] at ih ⊢
    rw [← ih, ← UInt8.toNat_inj]
    simp only [UInt8.toNat_ofNat]
    omega

theorem neonAny_eq_false (v : Bytes) : neonAny v = false ↔ ∀ b ∈ v, b = 0 := by
  simp only [neonAny, Bool.or_eq_false_iff, bne_eq_false_iff_eq, lane64_eq_zero]
  conv => rhs; rw [← List.take_append_drop 8 v]
  simp only [List.mem_append]
  constructor
  · rintro ⟨h1, h2⟩ b (hb | hb)
    · exact h1 b hb
    · exact h2 b hb
  · intro h
    exact ⟨fun b hb => h b (.inl hb), fun b hb => h b (.inr hb)⟩

theorem mask_high (c : UInt8) : c &&& 0x80 = 0 ↔ c.toNat ≤ 0x7F :=
  forall_byte (P := fun c => c &&& 0x80 = 0 ↔ c.toNat ≤ 0x7F) (by decide +kernel) c

theorem utf8ScalarValidate_drop {k : Nat} {data : Bytes} (h : ∀ b ∈ data.take k, b.toNat ≤ 0x7F) :
    utf8ScalarValidate (data.drop k) = utf8ScalarValidate data := by
  induction k generalizing data with
  | zero => rfl
  | succ k ih =>
    cases data with
    | nil => rfl
    | cons b data =>
      rw [List.take_succ_cons, List.forall_mem_cons] at h
      rw [List.drop_succ_cons, ih h.2, utf8ScalarValidate.eq_def (b :: data)]
      simp [(le_7F_iff b).2 h.1]

theorem utf8X86Avx2Impl_eq (n : Nat) (data : Bytes) : utf8X86Avx2Impl n data = utf8ScalarValidate data := by
  induction n generalizing data with
  | zero => rfl
  | succ n ih =>
    rw [utf8X86Avx2Impl]
    split
    · rfl
    · rename_i h
      rw [ih]
      exact utf8ScalarValidate_drop ((movemask_eq_zero _).1 (Decidable.not_not.1 h))

theorem utf8ArmNeonImpl_eq (n : Nat) (data : Bytes) : utf8ArmNeonImpl n data = utf8ScalarValidate data := by
  induction n generalizing data with
  | zero => rfl
  | succ n ih =>
    rw [utf8ArmNeonImpl]
    split
    · rfl
    · rename_i h
      rw [ih]
      refine utf8ScalarValidate_drop fun b hb => ?_
      have hz := (neonAny_eq_false _).1 (Bool.eq_false_iff.2 h) (b &&& 0x80) (List.mem_map_of_mem hb)
      exact (mask_high b).1 hz

theorem utf8IsValidDispatch_eq (cpu : Cpu) (data : Bytes) :
    utf8IsValidDispatch cpu data = utf8ScalarValidate data := by
  unfold utf8IsValidDispatch utf8X86Avx2Validate utf8ArmNeonValidate
  simp only [utf8X86Avx2Impl_eq, utf8ArmNeonImpl_eq, ite_self]
  split
  · rfl
  · split <;> rfl

/-! ## The first octet to escape -/

/-- The test of `ij_json_escape_scalar_find_first_special`. -/
def isJsonSpecial (c : UInt8) : Bool :=
  c == 0x5C || c == 0x22 || c == 0x0A || c == 0x0D || c == 0x09 || c < 0x20

/-- `ij_json_escape_scalar_find_first_special`; the length when there is no special octet. -/
def jsonEscapeScalarFindFirstSpecial : Bytes → Nat
  | [] => 0
  | c :: text => if isJsonSpecial c then 0 else 1 + jsonEscapeScalarFindFirstSpecial text

/-- The lanes to escape, in a block: `special | control`. -/
def avx2Special (chunk : Bytes) : Bytes :=
  laneOr
    (laneOr (laneEq 0x22 chunk)
      (laneOr (laneEq 0x5C chunk)
        (laneOr (laneEq 0x0A chunk) (laneOr (laneEq 0x0D chunk) (laneEq 0x09 chunk)))))
    (laneEq 0 (laneSubs 0x1F chunk))

/-- `ij_json_escape_x86_avx2_impl`. -/
def jsonEscapeX86Avx2Impl : Nat → Bytes → Nat
  | 0, text => jsonEscapeScalarFindFirstSpecial text
  | n + 1, text =>
    let mask := movemask (avx2Special (text.take 32))
    if mask ≠ 0 then ctz 32 mask else 32 + jsonEscapeX86Avx2Impl n (text.drop 32)

def jsonEscapeX86Avx2FindFirstSpecial (cpu : Cpu) (text : Bytes) : Nat :=
  if cpu.hasX86Avx2 then jsonEscapeX86Avx2Impl (text.length / 32) text
  else jsonEscapeScalarFindFirstSpecial text

def neonSpecial (chunk : Bytes) : Bytes :=
  laneOr
    (laneOr (laneEq 0x22 chunk)
      (laneOr (laneEq 0x5C chunk)
        (laneOr (laneEq 0x0A chunk) (laneOr (laneEq 0x0D chunk) (laneEq 0x09 chunk)))))
    (laneLt 0x20 chunk)

/-- `ij_json_escape_arm_neon_impl`: a block with a hit is searched again by the scalar loop. -/
def jsonEscapeArmNeonImpl : Nat → Bytes → Nat
  | 0, text => jsonEscapeScalarFindFirstSpecial text
  | n + 1, text =>
    if neonAny (neonSpecial (text.take 16)) then jsonEscapeScalarFindFirstSpecial (text.take 16)
    else 16 + jsonEscapeArmNeonImpl n (text.drop 16)

def jsonEscapeArmNeonFindFirstSpecial (cpu : Cpu) (text : Bytes) : Nat :=
  if cpu.hasArmNeon then jsonEscapeArmNeonImpl (text.length / 16) text
  else jsonEscapeScalarFindFirstSpecial text

def jsonEscapeFindFirstSpecial (cpu : Cpu) (text : Bytes) : Nat :=
  if text.length < simdMinLen then jsonEscapeScalarFindFirstSpecial text
  else
    match cpu.simdKind with
    | .x86Avx2 => jsonEscapeX86Avx2FindFirstSpecial cpu text
    | .armNeon => jsonEscapeArmNeonFindFirstSpecial cpu text
    | .scalar => jsonEscapeScalarFindFirstSpecial text

theorem isJsonSpecial_iff (c : UInt8) : isJsonSpecial c = true ↔ c < 0x20 ∨ c = 0x22 ∨ c = 0x5C :=
  forall_byte (P := fun c => isJsonSpecial c = true ↔ c < 0x20 ∨ c = 0x22 ∨ c = 0x5C) (by decide +kernel) c

theorem laneOr_map (f g : UInt8 → UInt8) (v : Bytes) :
    laneOr (v.map f) (v.map g) = v.map fun c => f c ||| g c := by
  induction v with
  | nil => rfl
  | cons c v ih => simp [laneOr]

theorem avx2Special_eq (chunk : Bytes) :
    avx2Special chunk = chunk.map fun c => if isJsonSpecial c then 0xFF else 0 := by
  simp only [avx2Special, laneEq, laneSubs, List.map_map, laneOr_map]
  refine List.map_congr_left fun c hc => ?_
  clear hc
  induction c using forall_byte with
  | h n hn => revert n; decide +kernel

theorem neonSpecial_eq (chunk : Bytes) :
    neonSpecial chunk = chunk.map fun c => if isJsonSpecial c then 0xFF else 0 := by
  simp only [neonSpecial, laneEq, laneLt, laneOr_map]
  refine List.map_congr_left fun c hc => ?_
  clear hc
  induction c using forall_byte with
  | h n hn => revert n; decide +kernel

theorem jsonEscapeScalarFindFirstSpecial_eq (text : Bytes) :
    jsonEscapeScalarFindFirstSpecial text = text.findIdx isJsonSpecial := by
  induction text with
  | nil => rfl
  | cons c text ih =>
    rw [jsonEscapeScalarFindFirstSpecial, List.findIdx_cons, ih]
    cases isJsonSpecial c
    · simp; omega
    · rfl

/-- Bit `i` of the mask is lane `i`, so the trailing zeros are the lanes before the first hit. -/
theorem ctz_movemask {p : UInt8 → Bool} (v : Bytes) :
    ∀ n, v.length ≤ n → movemask (v.map fun c => if p c then 0xFF else 0) ≠ 0 →
      ctz n (movemask (v.map fun c => if p c then 0xFF else 0)) = v.findIdx p ∧ v.findIdx p < v.length := by
  induction v with
  | nil => intro n _ h; exact absurd rfl h
  | cons c v ih =>
    intro n hn h
    obtain ⟨n, rfl⟩ : ∃ m, n = m + 1 := ⟨n - 1, by simp at hn; omega⟩
    rw [List.findIdx_cons]
    rw [List.map_cons, movemask] at h ⊢
    cases hp : p c with
    | true =>
      rw [hp] at h
      simp only [if_true, show (0x80 : UInt8) ≤ 0xFF from by decide, ctz]
      rw [if_pos (by omega)]
      simp
    | false =>
      rw [hp] at h
      simp only [Bool.false_eq_true, if_false, show ¬ (0x80 : UInt8) ≤ 0 from by decide, Nat.zero_add] at h ⊢
      obtain ⟨h1, h2⟩ := ih n (by simp at hn; omega) (by omega)
      rw [ctz, if_neg (by omega), Nat.mul_div_cancel_left _ (by decide), h1]
      simp only [cond_false, List.length_cons]
      omega

theorem movemask_special_eq_zero (v : Bytes) :
    movemask (v.map fun c => if isJsonSpecial c then 0xFF else 0) = 0 ↔ ∀ c ∈ v, isJsonSpecial c = false := by
  rw [movemask_eq_zero]
  simp only [List.forall_mem_map]
  refine forall₂_congr fun c _ => ?_
  cases isJsonSpecial c <;> decide

section Blocks

variable {k : Nat} {text : Bytes}

theorem findIdx_block (h : (text.take k).findIdx isJsonSpecial < (text.take k).length) :
    text.findIdx isJsonSpecial = (text.take k).findIdx isJsonSpecial := by
  conv => lhs; rw [← List.take_append_drop k text]
  rw [List.findIdx_append, if_pos h]

theorem findIdx_skip (hk : k ≤ text.length) (h : ∀ c ∈ text.take k, isJsonSpecial c = false) :
    text.findIdx isJsonSpecial = k + (text.drop k).findIdx isJsonSpecial := by
  conv => lhs; rw [← List.take_append_drop k text]
  rw [List.findIdx_append, List.findIdx_eq_length.2 h, if_neg (Nat.lt_irrefl _), List.length_take,
    Nat.min_eq_left hk, Nat.add_comm]

end Blocks

theorem jsonEscapeX86Avx2Impl_eq (n : Nat) (text : Bytes) (h : 32 * n ≤ text.length) :
    jsonEscapeX86Avx2Impl n text = text.findIdx isJsonSpecial := by
  induction n generalizing text with
  | zero => exact jsonEscapeScalarFindFirstSpecial_eq text
  | succ n ih =>
    rw [jsonEscapeX86Avx2Impl, avx2Special_eq]
    split
    · rename_i hm
      obtain ⟨h1, h2⟩ := ctz_movemask (text.take 32) 32 (by simp) hm
      rw [h1, findIdx_block h2]
    · rename_i hm
      rw [ih _ (by rw [List.length_drop]; omega)]
      exact (findIdx_skip (by omega) ((movemask_special_eq_zero _).1 (Decidable.not_not.1 hm))).symm

theorem jsonEscapeArmNeonImpl_eq (n : Nat) (text : Bytes) (h : 16 * n ≤ text.length) :
    jsonEscapeArmNeonImpl n text = text.findIdx isJsonSpecial := by
  have hzero : ∀ v : Bytes, (∀ c ∈ v.map fun c => if isJsonSpecial c then (0xFF : UInt8) else 0, c = 0) ↔
      ∀ c ∈ v, isJsonSpecial c = false := by
    intro v
    simp only [List.forall_mem_map]
    refine forall₂_congr fun c _ => ?_
    cases isJsonSpecial c <;> decide
  induction n generalizing text with
  | zero => exact jsonEscapeScalarFindFirstSpecial_eq text
  | succ n ih =>
    rw [jsonEscapeArmNeonImpl, neonSpecial_eq]
    split
    · rename_i hm
      rw [jsonEscapeScalarFindFirstSpecial_eq]
      refine (findIdx_block (List.findIdx_lt_length.2 ?_)).symm
      by_contra hne
      have := (neonAny_eq_false _).2 ((hzero (text.take 16)).2 fun c hc => by
        by_contra hs
        exact hne ⟨c, hc, by simpa using hs⟩)
      rw [this] at hm
      cases hm
    · rename_i hm
      rw [ih _ (by rw [List.length_drop]; omega)]
      refine (findIdx_skip (by omega) ?_).symm
      exact (hzero _).1 ((neonAny_eq_false _).1 (Bool.eq_false_iff.2 hm))

/-- On every CPU the scan finds the first octet below 0x20, quote or backslash. -/
theorem jsonEscapeFindFirstSpecial_eq (cpu : Cpu) (text : Bytes) :
    jsonEscapeFindFirstSpecial cpu text = text.findIdx isJsonSpecial := by
  unfold jsonEscapeFindFirstSpecial jsonEscapeX86Avx2FindFirstSpecial jsonEscapeArmNeonFindFirstSpecial
  rw [jsonEscapeX86Avx2Impl_eq _ _ (by omega), jsonEscapeArmNeonImpl_eq _ _ (by omega),
    jsonEscapeScalarFindFirstSpecial_eq]
  simp only [ite_self]
  split
  · rfl
  · split <;> rfl

/-- An octet that JSON does not allow as itself in a string. -/
def Special (c : UInt8) : Prop := c < 0x20 ∨ c = 0x22 ∨ c = 0x5C

/-- The least index of a special octet, or the length when there is none. -/
def IsFirstSpecial (text : Bytes) (i : Nat) : Prop :=
  (∃ h : i < text.length, Special text[i] ∧ ∀ j, (hj : j < i) → ¬ Special text[j]) ∨
    i = text.length ∧ ∀ c ∈ text, ¬ Special c

theorem high_not_special (c : UInt8) (h : 0x80 ≤ c) : ¬ Special c := by
  have hlow : ¬ (0x80 : UInt8) ≤ 0x20 ∧ ¬ (0x80 : UInt8) ≤ 0x22 ∧ ¬ (0x80 : UInt8) ≤ 0x5C := by decide
  rintro (hc | rfl | rfl)
  · exact hlow.1 (UInt8.le_trans h (UInt8.le_of_lt hc))
  · exact hlow.2.1 h
  · exact hlow.2.2 h

theorem findIdx_isFirstSpecial (text : Bytes) : IsFirstSpecial text (text.findIdx isJsonSpecial) := by
  by_cases h : text.findIdx isJsonSpecial < text.length
  · refine .inl ⟨h, (isJsonSpecial_iff _).1 (List.findIdx_getElem), fun j hj hspecial => ?_⟩
    have hfalse := List.not_of_lt_findIdx hj
    rw [(isJsonSpecial_iff _).2 hspecial] at hfalse
    cases hfalse
  · have hlen : text.findIdx isJsonSpecial = text.length := Nat.le_antisymm List.findIdx_le_length (Nat.not_lt.1 h)
    refine .inr ⟨hlen, fun c hc hspecial => ?_⟩
    have hfalse := List.findIdx_eq_length.1 hlen c hc
    rw [(isJsonSpecial_iff _).2 hspecial] at hfalse
    cases hfalse

/-- Every variant of the scan, on every CPU, finds the first special octet; no octet above 0x7F is
one. -/
theorem jsonEscapeFindFirstSpecial_first (cpu : Cpu) (text : Bytes) :
    IsFirstSpecial text (jsonEscapeFindFirstSpecial cpu text) ∧
      IsFirstSpecial text (jsonEscapeX86Avx2Impl (text.length / 32) text) ∧
      IsFirstSpecial text (jsonEscapeX86Avx2FindFirstSpecial cpu text) ∧
      IsFirstSpecial text (jsonEscapeArmNeonImpl (text.length / 16) text) ∧
      IsFirstSpecial text (jsonEscapeArmNeonFindFirstSpecial cpu text) ∧
      IsFirstSpecial text (jsonEscapeScalarFindFirstSpecial text) ∧ ∀ c : UInt8, 0x80 ≤ c → ¬ Special c := by
  have hfirst := findIdx_isFirstSpecial text
  have havx := jsonEscapeX86Avx2Impl_eq (text.length / 32) text (by omega)
  have hneon := jsonEscapeArmNeonImpl_eq (text.length / 16) text (by omega)
  have hscalar := jsonEscapeScalarFindFirstSpecial_eq text
  rw [jsonEscapeFindFirstSpecial_eq, jsonEscapeX86Avx2FindFirstSpecial, jsonEscapeArmNeonFindFirstSpecial, havx, hneon,
    hscalar, ite_self, ite_self]
  exact ⟨hfirst, hfirst, hfirst, hfirst, hfirst, hfirst, high_not_special⟩

end IoJournal
