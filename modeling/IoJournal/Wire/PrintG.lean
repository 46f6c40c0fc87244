import Mathlib.Data.Int.Log
import Mathlib.Tactic.Positivity
import Mathlib.Tactic.Ring
import Mathlib.Data.List.DropRight
import IoJournal.Wire.Json
import IoJournal.Wire.Binary64

/-!
# Wire.PrintG

The conversion `%.17g` of a binary64 number: 17 significant digits, the nearest ones, with an even
last digit at a tie; trailing zeros of the fraction left out; the exponent written when it is below
-4 or at least 17.

* `literalValue` reads a decimal literal back to the number it stands for.
* `roundedValue_close`: the digits stand for a number within a `2 * 10 ^ 16`th of the one printed.
  As `2 ^ 53 < 10 ^ 16`, this is closer than any other binary64 number.
* `printG17_value_inj`: two numbers with one text are equal. `printG17_integer`: a text that is an
  integer numeral is the text of that integer.
-/

namespace Wire

/-! ## The digits -/

/-- The nearest natural number, the even one at a tie. -/
def roundHalfEven (x : ℚ) : Nat :=
  if x - ⌊x⌋₊ < 1 / 2 then ⌊x⌋₊
  else if 1 / 2 < x - ⌊x⌋₊ then ⌊x⌋₊ + 1
  else if ⌊x⌋₊ % 2 = 0 then ⌊x⌋₊ else ⌊x⌋₊ + 1

/-- The 17 digits of a positive number, as a number, and the place of the first. Rounding up to the
next power of ten moves the place. -/
def significant17 (x : ℚ) : Nat × Int :=
  let n := roundHalfEven (x * 10 ^ (16 - Int.log 10 x))
  if n = 10 ^ 17 then (10 ^ 16, Int.log 10 x + 1) else (n, Int.log 10 x)

/-! ## The text -/

/-- A point and the digits after it, without the zeros at their end. -/
def fractionText (ds : Bytes) : Bytes :=
  match ds.rdropWhile (· == 48) with
  | [] => []
  | d :: fs => 0x2E :: d :: fs

/-- The style of `%f`. -/
def fixedText (ds : Bytes) (e : Int) : Bytes :=
  if 0 ≤ e then ds.take (e.toNat + 1) ++ fractionText (ds.drop (e.toNat + 1))
  else 48 :: fractionText (List.replicate ((-e).toNat - 1) 48 ++ ds)

/-- The style of `%e`. -/
def exponentText (ds : Bytes) (e : Int) : Bytes :=
  ds.take 1 ++ fractionText (ds.drop 1) ++ 0x65 :: (if e < 0 then 0x2D else 0x2B) :: padded 2 e.natAbs

def magnitudeText (x : ℚ) : Bytes :=
  if x = 0 then [48]
  else
    let (n, e) := significant17 x
    if -4 ≤ e ∧ e < 17 then fixedText (numeral n) e else exponentText (numeral n) e

def printG17 (bits : UInt64) : Bytes :=
  (if Binary64.negative bits then [0x2D] else []) ++
    (if Binary64.exponentField bits = 2047 then
      (if Binary64.fractionField bits = 0 then ascii "inf" else ascii "nan")
    else magnitudeText (Binary64.magnitude bits))

/-! ## The digits are near -/

theorem roundHalfEven_close {x : ℚ} (h : 0 ≤ x) : |(roundHalfEven x : ℚ) - x| ≤ 1 / 2 := by
  have hfloor := Nat.floor_le h
  have hceil := Nat.lt_floor_add_one x
  unfold roundHalfEven
  rw [abs_le]
  split
  · constructor <;> linarith
  · split
    · push_cast
      constructor <;> linarith
    · split
      · constructor <;> linarith
      · push_cast
        constructor <;> linarith

theorem significant17_value (x : ℚ) :
    ((significant17 x).1 : ℚ) * 10 ^ ((significant17 x).2 - 16) =
      roundHalfEven (x * 10 ^ (16 - Int.log 10 x)) * 10 ^ (Int.log 10 x - 16) := by
  simp only [significant17]
  split
  · rename_i h
    rw [h, show Int.log 10 x + 1 - 16 = 1 + (Int.log 10 x - 16) by omega, zpow_add₀ (by norm_num)]
    push_cast
    ring
  · rfl

theorem log_le_significant17 (x : ℚ) : Int.log 10 x ≤ (significant17 x).2 := by
  simp only [significant17]
  split <;> simp

section Digits

variable {x : ℚ} (hx : 0 < x)
include hx

theorem scaled_bounds :
    (10 : ℚ) ^ 16 ≤ x * 10 ^ (16 - Int.log 10 x) ∧ x * 10 ^ (16 - Int.log 10 x) < 10 ^ 17 := by
  have hlow := Int.zpow_log_le_self (b := 10) (by decide) hx
  have hhigh := Int.lt_zpow_succ_log_self (b := 10) (by decide) x
  have hpos : (0 : ℚ) < 10 ^ (16 - Int.log 10 x) := by positivity
  push_cast at hlow hhigh
  constructor
  · calc (10 : ℚ) ^ 16 = 10 ^ Int.log 10 x * 10 ^ (16 - Int.log 10 x) := by
          rw [← zpow_add₀ (by norm_num)]
          norm_num
      _ ≤ _ := mul_le_mul_of_nonneg_right hlow hpos.le
  · calc x * 10 ^ (16 - Int.log 10 x) < 10 ^ (Int.log 10 x + 1) * 10 ^ (16 - Int.log 10 x) :=
          mul_lt_mul_of_pos_right hhigh hpos
      _ = 10 ^ 17 := by
          rw [← zpow_add₀ (by norm_num), show Int.log 10 x + 1 + (16 - Int.log 10 x) = 17 by omega]
          norm_num

theorem significant17_bounds : 10 ^ 16 ≤ (significant17 x).1 ∧ (significant17 x).1 < 10 ^ 17 := by
  obtain ⟨hlow, hhigh⟩ := scaled_bounds hx
  have hclose := roundHalfEven_close (x := x * 10 ^ (16 - Int.log 10 x)) (by linarith)
  rw [abs_le] at hclose
  have hn : (10 : ℚ) ^ 16 - 1 < roundHalfEven (x * 10 ^ (16 - Int.log 10 x)) := by linarith [hclose.1]
  have hn' : (roundHalfEven (x * 10 ^ (16 - Int.log 10 x)) : ℚ) < 10 ^ 17 + 1 := by linarith [hclose.2]
  have hge : 10 ^ 16 < roundHalfEven (x * 10 ^ (16 - Int.log 10 x)) + 1 := by
    have : (10 : ℚ) ^ 16 < roundHalfEven (x * 10 ^ (16 - Int.log 10 x)) + 1 := by linarith
    exact_mod_cast this
  have hle : roundHalfEven (x * 10 ^ (16 - Int.log 10 x)) < 10 ^ 17 + 1 := by exact_mod_cast hn'
  simp only [significant17]
  split
  · simp
  · simp only
    omega

theorem significant17_near :
    |((significant17 x).1 : ℚ) * 10 ^ ((significant17 x).2 - 16) - x| ≤ 1 / 2 * 10 ^ (Int.log 10 x - 16) := by
  obtain ⟨hlow, -⟩ := scaled_bounds hx
  have hclose := roundHalfEven_close (x := x * 10 ^ (16 - Int.log 10 x)) (by linarith)
  have hpow : (0 : ℚ) < 10 ^ (Int.log 10 x - 16) := by positivity
  have hscale : x = x * 10 ^ (16 - Int.log 10 x) * 10 ^ (Int.log 10 x - 16) := by
    rw [mul_assoc, ← zpow_add₀ (by norm_num), show 16 - Int.log 10 x + (Int.log 10 x - 16) = 0 by omega, zpow_zero,
      mul_one]
  rw [significant17_value]
  calc _ = |((roundHalfEven (x * 10 ^ (16 - Int.log 10 x)) : ℚ) - x * 10 ^ (16 - Int.log 10 x)) *
        10 ^ (Int.log 10 x - 16)| := by rw [sub_mul, ← hscale]
    _ = |(roundHalfEven (x * 10 ^ (16 - Int.log 10 x)) : ℚ) - x * 10 ^ (16 - Int.log 10 x)| *
        10 ^ (Int.log 10 x - 16) := by rw [abs_mul, abs_of_pos hpow]
    _ ≤ 1 / 2 * 10 ^ (Int.log 10 x - 16) := mul_le_mul_of_nonneg_right hclose hpow.le

end Digits

/-- The number the printed digits stand for. -/
def rounded17 (x : ℚ) : ℚ :=
  if x = 0 then 0 else (significant17 x).1 * 10 ^ ((significant17 x).2 - 16)

theorem rounded17_close {x : ℚ} (h : 0 ≤ x) : 2 * 10 ^ 16 * |rounded17 x - x| ≤ x := by
  unfold rounded17
  split
  · rename_i hzero
    rw [hzero, sub_self, abs_zero, mul_zero]
  · rename_i hzero
    have hx : 0 < x := lt_of_le_of_ne h (Ne.symm hzero)
    have hnear := significant17_near hx
    have hlog := Int.zpow_log_le_self (b := 10) (by decide) hx
    push_cast at hlog
    have hunit : (10 : ℚ) ^ 16 * 10 ^ (Int.log 10 x - 16) = 10 ^ Int.log 10 x := by
      rw [← zpow_natCast, ← zpow_add₀ (by norm_num)]
      norm_num
    linarith

theorem rounded17_nonneg (x : ℚ) : 0 ≤ rounded17 x := by
  unfold rounded17
  split
  · exact le_rfl
  · positivity

theorem rounded17_eq_zero {x : ℚ} (h : 0 ≤ x) (hr : rounded17 x = 0) : x = 0 := by
  have hclose := rounded17_close h
  rw [hr, zero_sub, abs_neg, abs_of_nonneg h] at hclose
  linarith

/-- Binary64 numbers lie further apart than the rounding reaches. -/
theorem rounded17_magnitude_inj {a b : UInt64}
    (h : rounded17 (Binary64.magnitude a) = rounded17 (Binary64.magnitude b)) :
    Binary64.magnitude a = Binary64.magnitude b := by
  have hapart : ∀ a b, rounded17 (Binary64.magnitude a) = rounded17 (Binary64.magnitude b) →
      ¬ Binary64.magnitude a < Binary64.magnitude b := by
    intro a b h hlt
    have hgap := Binary64.magnitude_gap hlt
    have ha := rounded17_close (Binary64.magnitude_nonneg a)
    have hb := rounded17_close (Binary64.magnitude_nonneg b)
    rw [h] at ha
    have ha' := le_abs_self (rounded17 (Binary64.magnitude b) - Binary64.magnitude a)
    have hb' := neg_le_abs (rounded17 (Binary64.magnitude b) - Binary64.magnitude b)
    linarith
  exact le_antisymm (not_lt.1 (hapart b a h.symm)) (not_lt.1 (hapart a b h))

/-- With no place below the units cut off, an integer result is exact. -/
theorem rounded17_integer {bits : UInt64} {n : Int}
    (hplace : Binary64.magnitude bits ≠ 0 → (significant17 (Binary64.magnitude bits)).2 < 17)
    (h : rounded17 (Binary64.magnitude bits) = n) : Binary64.magnitude bits = n := by
  have hclose := rounded17_close (Binary64.magnitude_nonneg bits)
  rw [h] at hclose
  by_contra hne
  by_cases hexp : 0 ≤ Binary64.exponent bits
  · -- a whole number and a whole number, at most a half apart
    have hzero : Binary64.magnitude bits ≠ 0 := by
      intro hzero
      rw [hzero, rounded17, if_pos rfl] at h
      exact hne (hzero.trans h)
    have hpos := lt_of_le_of_ne (Binary64.magnitude_nonneg bits) (Ne.symm hzero)
    have hnear := significant17_near hpos
    have hlog := log_le_significant17 (Binary64.magnitude bits)
    have hunit : (10 : ℚ) ^ (Int.log 10 (Binary64.magnitude bits) - 16) ≤ 1 := by
      have hlast := hplace hzero
      exact zpow_le_one_of_nonpos₀ (by norm_num) (by omega)
    rw [rounded17, if_neg hzero] at h
    rw [h] at hnear
    obtain ⟨k, hk⟩ : ∃ k : Int, Binary64.magnitude bits = k := ⟨_, Binary64.magnitude_integer hexp⟩
    rw [hk] at hnear hne
    have hlt : |(n : ℚ) - k| < 1 := by rw [hk] at hunit; linarith
    have hint : |n - k| < 1 := by exact_mod_cast hlt
    rw [Int.abs_lt_one_iff] at hint
    exact hne (by exact_mod_cast (sub_eq_zero.1 hint).symm)
  · have hgap := Binary64.sub_integer_gap (Int.not_le.1 hexp) hne
    rw [abs_sub_comm] at hgap
    have := abs_nonneg ((n : ℚ) - Binary64.magnitude bits)
    linarith

/-! ## Reading -/

/-- The exponent after its letter. -/
def exponentValue : Bytes → Int
  | [] => 0
  | _ :: 0x2D :: ds => -(decimal ds : Int)
  | _ :: _ :: ds => decimal ds
  | _ => 0

/-- The number without its sign. -/
def magnitudeValue (t : Bytes) : ℚ :=
  let mantissa := t.takeWhile (· != 0x65)
  let fraction := (mantissa.dropWhile (· != 0x2E)).tail
  decimal (mantissa.takeWhile (· != 0x2E) ++ fraction) *
    10 ^ (exponentValue (t.dropWhile (· != 0x65)) - fraction.length)

/-- The number that a decimal literal, as `%d` and `%g` print it, stands for. -/
def literalValue : Bytes → ℚ
  | 0x2D :: t => -magnitudeValue t
  | t => magnitudeValue t

theorem decimal_snoc (bs : Bytes) (b : UInt8) : decimal (bs ++ [b]) = decimal bs * 10 + digitVal b := by
  rw [decimal, List.reverse_append, List.reverse_singleton, List.singleton_append, List.map_cons, Nat.ofDigits_cons,
    decimal]
  omega

theorem takeWhile_digits {ds : Bytes} (h : ∀ b ∈ ds, isDigit b = true) {c : UInt8} (hc : isDigit c = false) (t : Bytes) :
    (ds ++ t).takeWhile (· != c) = ds ++ t.takeWhile (· != c) ∧ (ds ++ t).dropWhile (· != c) = t.dropWhile (· != c) := by
  have hne : ∀ b ∈ ds, (b != c) = true := by
    intro b hb
    rw [bne_iff_ne]
    rintro rfl
    rw [h b hb] at hc
    cases hc
  exact ⟨List.takeWhile_append_of_pos hne, List.dropWhile_append_of_pos hne⟩

theorem magnitudeValue_parts (int point frac ex : Bytes) (hint : ∀ b ∈ int, isDigit b = true)
    (hfrac : ∀ b ∈ frac, isDigit b = true) (hpoint : point = 0x2E :: frac ∨ point = [] ∧ frac = [])
    (hex : ex = [] ∨ ∃ t, ex = 0x65 :: t) :
    magnitudeValue (int ++ point ++ ex) = decimal (int ++ frac) * 10 ^ (exponentValue ex - frac.length) := by
  have hmant : (int ++ point ++ ex).takeWhile (· != 0x65) = int ++ point ∧
      (int ++ point ++ ex).dropWhile (· != 0x65) = ex := by
    have hexp : ex.takeWhile (· != 0x65) = [] ∧ ex.dropWhile (· != 0x65) = ex := by
      rcases hex with rfl | ⟨t, rfl⟩ <;> simp
    obtain ⟨htake, hdrop⟩ := takeWhile_digits hint (c := 0x65) (by decide) (point ++ ex)
    obtain ⟨htake', hdrop'⟩ := takeWhile_digits hfrac (c := 0x65) (by decide) ex
    rw [List.append_assoc, htake, hdrop]
    rcases hpoint with rfl | ⟨rfl, rfl⟩
    · rw [List.cons_append, List.takeWhile_cons_of_pos (by decide), List.dropWhile_cons_of_pos (by decide), htake',
        hdrop', hexp.1, hexp.2, List.append_nil]
      exact ⟨rfl, rfl⟩
    · rw [List.nil_append, hexp.1, hexp.2]
      exact ⟨rfl, rfl⟩
  have hsplit : (int ++ point).takeWhile (· != 0x2E) = int ∧
      ((int ++ point).dropWhile (· != 0x2E)).tail = frac := by
    obtain ⟨htake, hdrop⟩ := takeWhile_digits hint (c := 0x2E) (by decide) point
    rw [htake, hdrop]
    rcases hpoint with rfl | ⟨rfl, rfl⟩
    · simp
    · simp
  simp only [magnitudeValue, hmant.1, hmant.2, hsplit.1, hsplit.2]

theorem decimal_rdropWhile (int ds : Bytes) :
    (decimal (int ++ ds.rdropWhile (· == 48)) : ℚ) * 10 ^ (-((ds.rdropWhile (· == 48)).length : Int)) =
      decimal (int ++ ds) * 10 ^ (-(ds.length : Int)) := by
  induction ds using List.reverseRecOn with
  | nil => rfl
  | append_singleton ds d ih =>
    by_cases hd : d = 48
    · have hzero : digitVal 48 = 0 := rfl
      have hten : (10 : ℚ) ≠ 0 := by norm_num
      rw [hd, List.rdropWhile_concat_pos _ _ _ (by decide), ih, ← List.append_assoc, decimal_snoc, hzero,
        List.length_append, List.length_singleton, Nat.cast_succ, Int.neg_add, zpow_add₀ hten]
      push_cast
      norm_num
      ring
    · rw [List.rdropWhile_concat_neg _ _ _ (by simpa using hd)]

theorem fractionText_eq (ds : Bytes) :
    fractionText ds = 0x2E :: ds.rdropWhile (· == 48) ∨ fractionText ds = [] ∧ ds.rdropWhile (· == 48) = [] := by
  unfold fractionText
  split
  · rename_i h
    exact .inr ⟨rfl, h⟩
  · rename_i h
    rw [h]
    exact .inl rfl

theorem magnitudeValue_fraction (int ds ex : Bytes) (hint : ∀ b ∈ int, isDigit b = true)
    (hds : ∀ b ∈ ds, isDigit b = true) (hex : ex = [] ∨ ∃ t, ex = 0x65 :: t) :
    magnitudeValue (int ++ fractionText ds ++ ex) = decimal (int ++ ds) * 10 ^ (exponentValue ex - ds.length) := by
  have hfrac : ∀ b ∈ ds.rdropWhile (· == 48), isDigit b = true := by
    intro b hb
    exact hds b ((List.rdropWhile_prefix _ _).subset hb)
  have hstrip := decimal_rdropWhile int ds
  have hten : (10 : ℚ) ≠ 0 := by norm_num
  rw [magnitudeValue_parts int _ _ ex hint hfrac (fractionText_eq ds) hex, sub_eq_add_neg, sub_eq_add_neg, zpow_add₀ hten,
    zpow_add₀ hten, mul_left_comm, mul_left_comm (decimal (int ++ ds) : ℚ), hstrip]

/-! ## The text says the digits -/

section Text

variable {n : Nat} (hn : 10 ^ 16 ≤ n ∧ n < 10 ^ 17)
include hn

theorem length_numeral17 : (numeral n).length = 17 := by
  have hle := length_numeral_le (k := 17) (by decide) hn.2
  have hlow : 16 < (numeral n).length := by
    have hne : n ≠ 0 := by omega
    rw [numeral, if_neg hne, List.length_reverse, List.length_map]
    exact (Nat.lt_digits_length_iff (by decide) n).2 hn.1
  omega

theorem magnitudeValue_fixedText {e : Int} (he : e < 17) :
    magnitudeValue (fixedText (numeral n) e) = n * 10 ^ (e - 16) := by
  have hdigits := numeral_isDigit n
  have hlen := length_numeral17 hn
  unfold fixedText
  split
  · have h := magnitudeValue_fraction ((numeral n).take (e.toNat + 1)) ((numeral n).drop (e.toNat + 1)) [] (fun b hb => hdigits b (List.mem_of_mem_take hb)) (fun b hb => hdigits b (List.mem_of_mem_drop hb))
      (.inl rfl)
    rw [List.append_nil, List.take_append_drop, decimal_numeral, List.length_drop, hlen] at h
    rw [h, exponentValue]
    congr 2
    omega
  · have hzeros : ∀ b ∈ List.replicate ((-e).toNat - 1) 48 ++ numeral n, isDigit b = true := by
      intro b hb
      rcases List.mem_append.1 hb with hb | hb
      · rw [List.eq_of_mem_replicate hb]
        rfl
      · exact hdigits b hb
    have h := magnitudeValue_fraction [48] (List.replicate ((-e).toNat - 1) 48 ++ numeral n) [] (by simp [isDigit]) hzeros (.inl rfl)
    have hdecimal : decimal ([48] ++ (List.replicate ((-e).toNat - 1) 48 ++ numeral n)) = n := by
      rw [show ([48] : Bytes) = List.replicate 1 48 from rfl, decimal_replicate_zero, decimal_replicate_zero,
        decimal_numeral]
    rw [List.append_nil, hdecimal, List.length_append, List.length_replicate, hlen] at h
    rw [← List.singleton_append, h, exponentValue]
    congr 2
    omega

theorem magnitudeValue_exponentText (e : Int) :
    magnitudeValue (exponentText (numeral n) e) = n * 10 ^ (e - 16) := by
  have hdigits := numeral_isDigit n
  have hlen := length_numeral17 hn
  have h := magnitudeValue_fraction ((numeral n).take 1) ((numeral n).drop 1)
    (0x65 :: (if e < 0 then 0x2D else 0x2B) :: padded 2 e.natAbs)
    (fun b hb => hdigits b (List.mem_of_mem_take hb)) (fun b hb => hdigits b (List.mem_of_mem_drop hb))
    (.inr ⟨_, rfl⟩)
  have hexp : exponentValue (0x65 :: (if e < 0 then 0x2D else 0x2B) :: padded 2 e.natAbs) = e := by
    split
    · rw [exponentValue, decimal_padded]
      omega
    · rw [exponentValue, decimal_padded]
      · omega
      · decide
  rw [List.take_append_drop, decimal_numeral, List.length_drop, hlen, hexp] at h
  exact h

end Text

theorem magnitudeValue_magnitudeText {x : ℚ} (h : 0 ≤ x) : magnitudeValue (magnitudeText x) = rounded17 x := by
  unfold magnitudeText rounded17
  split
  · decide +kernel
  · rename_i hzero
    have hbounds := significant17_bounds (lt_of_le_of_ne h (Ne.symm hzero))
    simp only
    split
    · rename_i hplace
      exact magnitudeValue_fixedText hbounds hplace.2
    · exact magnitudeValue_exponentText hbounds _

/-! ## The text is a number of the grammar -/

theorem fractionText_fracPart {ds : Bytes} (h : ∀ b ∈ ds, isDigit b = true) : Json.FracPart (fractionText ds) := by
  unfold fractionText
  split
  · exact .inl rfl
  · rename_i d fs hds
    refine .inr ⟨_, rfl, List.cons_ne_nil _ _, ?_⟩
    intro b hb
    rw [← hds] at hb
    exact h b ((List.rdropWhile_prefix _ _).subset hb)

theorem magnitudeText_parts {x : ℚ} (h : 0 ≤ x) :
    ∃ int frac ex, magnitudeText x = int ++ (frac ++ ex) ∧ Json.IntPart int ∧ Json.FracPart frac ∧ Json.ExpPart ex := by
  unfold magnitudeText
  split
  · exact ⟨[48], [], [], rfl, .inl rfl, .inl rfl, .inl rfl⟩
  · rename_i hzero
    have hbounds := significant17_bounds (lt_of_le_of_ne h (Ne.symm hzero))
    have hne : (significant17 x).1 ≠ 0 := by omega
    have hdigits := numeral_isDigit (significant17 x).1
    simp only
    split
    · unfold fixedText
      split
      · exact ⟨_, _, [], by rw [List.append_nil], Json.take_numeral_intPart hne _,
          fractionText_fracPart fun b hb => hdigits b (List.mem_of_mem_drop hb), .inl rfl⟩
      · refine ⟨[48], _, [], by rw [List.append_nil]; rfl, .inl rfl, fractionText_fracPart ?_, .inl rfl⟩
        intro b hb
        rcases List.mem_append.1 hb with hb | hb
        · rw [List.eq_of_mem_replicate hb]
          rfl
        · exact hdigits b hb
    · have hsign : ([if (significant17 x).2 < 0 then 0x2D else 0x2B] : Bytes) = [0x2B] ∨
          ([if (significant17 x).2 < 0 then 0x2D else 0x2B] : Bytes) = [0x2D] := by
        split
        · exact .inr rfl
        · exact .inl rfl
      have hexp : Json.Digits (padded 2 (significant17 x).2.natAbs) := by
        refine ⟨?_, padded_isDigit _ _⟩
        rw [padded]
        exact List.append_ne_nil_of_right_ne_nil _ (numeral_ne_nil _)
      rw [exponentText, List.append_assoc]
      exact ⟨_, _, _, rfl, Json.take_numeral_intPart hne 0,
        fractionText_fracPart fun b hb => hdigits b (List.mem_of_mem_drop hb),
        .inr ⟨0x65, _, _, rfl, .inl rfl, .inr hsign, hexp⟩⟩

/-! ## The text of a finite number -/

section Finite

variable {bits : UInt64} (hfin : Binary64.exponentField bits ≠ 2047)
include hfin

theorem printG17_eq :
    printG17 bits = (if Binary64.negative bits then [0x2D] else []) ++ magnitudeText (Binary64.magnitude bits) := by
  rw [printG17, if_neg hfin]

theorem printG17_number : Json.Number (printG17 bits) := by
  obtain ⟨int, frac, ex, htext, hint, hfrac, hex⟩ := magnitudeText_parts (Binary64.magnitude_nonneg bits)
  rw [printG17_eq hfin, htext]
  refine ⟨_, int, frac, ex, rfl, ?_, hint, hfrac, hex⟩
  split
  · exact .inr rfl
  · exact .inl rfl

theorem literalValue_printG17 :
    literalValue (printG17 bits) =
      if Binary64.negative bits then -rounded17 (Binary64.magnitude bits) else rounded17 (Binary64.magnitude bits) := by
  have hvalue := magnitudeValue_magnitudeText (Binary64.magnitude_nonneg bits)
  rw [printG17_eq hfin]
  split
  · rw [List.singleton_append, literalValue, hvalue]
  · -- the text starts with a digit, not with a sign
    obtain ⟨int, frac, ex, htext, hint, -, -⟩ := magnitudeText_parts (Binary64.magnitude_nonneg bits)
    have hhead : ∀ t, magnitudeText (Binary64.magnitude bits) ≠ 0x2D :: t := by
      intro t ht
      rw [htext] at ht
      rcases hint with rfl | ⟨d, ds, rfl, -, hds⟩
      · simp at ht
      · have hd := hds.2 d (List.mem_cons_self ..)
        rw [List.cons_append, List.cons.injEq] at ht
        rw [ht.1] at hd
        cases hd
    rw [List.nil_append, literalValue, hvalue]
    intro t
    exact hhead t

end Finite

theorem printG17_value_inj {a b : UInt64} (ha : Binary64.exponentField a ≠ 2047) (hb : Binary64.exponentField b ≠ 2047)
    (h : printG17 a = printG17 b) : Binary64.value a = Binary64.value b := by
  have hread := literalValue_printG17 ha
  rw [h, literalValue_printG17 hb] at hread
  have hna := rounded17_nonneg (Binary64.magnitude a)
  have hnb := rounded17_nonneg (Binary64.magnitude b)
  have hzero : rounded17 (Binary64.magnitude a) = 0 → rounded17 (Binary64.magnitude b) = 0 →
      Binary64.magnitude a = 0 ∧ Binary64.magnitude b = 0 := fun h0 h0' =>
    ⟨rounded17_eq_zero (Binary64.magnitude_nonneg a) h0, rounded17_eq_zero (Binary64.magnitude_nonneg b) h0'⟩
  unfold Binary64.value
  cases hsa : Binary64.negative a <;> cases hsb : Binary64.negative b <;>
    simp only [hsa, hsb, if_true, if_false, Bool.false_eq_true] at hread ⊢
  · exact rounded17_magnitude_inj hread.symm
  · -- of opposite signs only the two zeros have one reading
    obtain ⟨ha0, hb0⟩ := hzero (by linarith) (by linarith)
    rw [ha0, hb0, neg_zero]
  · obtain ⟨ha0, hb0⟩ := hzero (by linarith) (by linarith)
    rw [ha0, hb0, neg_zero]
  · rw [rounded17_magnitude_inj (neg_inj.1 hread.symm)]

theorem printG17_integer {bits : UInt64} (hfin : Binary64.exponentField bits ≠ 2047) (he : 0x65 ∉ printG17 bits)
    {n : Int} (h : literalValue (printG17 bits) = n) : Binary64.value bits = n := by
  have hplace : Binary64.magnitude bits ≠ 0 → (significant17 (Binary64.magnitude bits)).2 < 17 := by
    intro hzero
    by_contra hbig
    apply he
    rw [printG17_eq hfin]
    refine List.mem_append_right _ ?_
    rw [magnitudeText, if_neg hzero]
    simp only
    rw [if_neg (fun h => hbig h.2)]
    simp [exponentText]
  rw [literalValue_printG17 hfin] at h
  unfold Binary64.value
  split
  · rename_i hneg
    rw [if_pos hneg] at h
    rw [rounded17_integer hplace (n := -n) (by push_cast; linarith)]
    push_cast
    ring
  · rename_i hneg
    rw [if_neg hneg] at h
    exact rounded17_integer hplace h

end Wire
