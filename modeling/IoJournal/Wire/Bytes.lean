import Mathlib.Data.Nat.Digits.Lemmas

/-!
# Wire.Bytes

Octet strings and the decimal numerals written in them.

* `numeral n` is the canonical decimal numeral of `n` (what `%u` and `%zu` print), `padded w n`
  the one with at least `w` digits (`%0wu`); `decimal` reads either back.
* `numeral_snoc` is the recursion every digit loop follows: the last digit of `n` is `n % 10`, the
  digits before it are the numeral of `n / 10`.
-/

namespace Wire

abbrev Bytes := List UInt8

def ascii (s : String) : Bytes := s.toList.map fun c => UInt8.ofNat c.toNat

theorem forall_byte {P : UInt8 → Prop} (h : ∀ n, n < 256 → P (UInt8.ofNat n)) (b : UInt8) : P b := by
  have hb := h b.toNat b.toNat_lt
  rwa [UInt8.ofNat_toNat] at hb

theorem forall_mem_of_all {p : UInt8 → Prop} [DecidablePred p] {bs : Bytes}
    (h : bs.all (fun b => decide (p b)) = true) : ∀ b ∈ bs, p b := by
  intro b hb
  exact of_decide_eq_true (List.all_eq_true.1 h b hb)

def digit (d : Nat) : UInt8 := UInt8.ofNat (48 + d)

def isDigit (b : UInt8) : Bool := 48 ≤ b && b ≤ 57

def digitVal (b : UInt8) : Nat := b.toNat - 48

theorem digitVal_digit : ∀ d, d < 10 → digitVal (digit d) = d := by decide

theorem isDigit_digit : ∀ d, d < 10 → isDigit (digit d) = true := by decide

/-- The canonical decimal numeral: no leading zero, except in the numeral of zero. -/
def numeral (n : Nat) : Bytes := if n = 0 then [48] else ((Nat.digits 10 n).map digit).reverse

/-- The number a string of digits denotes. -/
def decimal (bs : Bytes) : Nat := Nat.ofDigits 10 (bs.reverse.map digitVal)

def padded (w n : Nat) : Bytes := List.replicate (w - (numeral n).length) 48 ++ numeral n

theorem numeral_of_lt {n : Nat} (h : n < 10) : numeral n = [digit n] := by
  by_cases h0 : n = 0
  · subst h0; rfl
  · simp [numeral, h0, Nat.digits_of_lt 10 n h0 h]

theorem numeral_snoc {n : Nat} (h : 10 ≤ n) : numeral n = numeral (n / 10) ++ [digit (n % 10)] := by
  have h0 : n ≠ 0 := by omega
  have h1 : n / 10 ≠ 0 := by omega
  simp [numeral, h0, h1, Nat.digits_def' (by decide : 1 < 10) (Nat.pos_of_ne_zero h0)]

theorem numeral_ne_nil (n : Nat) : numeral n ≠ [] := by
  by_cases h : n < 10
  · simp [numeral_of_lt h]
  · simp [numeral_snoc (Nat.le_of_not_lt h)]

theorem numeral_isDigit (n : Nat) : ∀ b ∈ numeral n, isDigit b = true := by
  intro b hb
  unfold numeral at hb
  split at hb
  · simp only [List.mem_singleton] at hb
    subst hb; rfl
  · simp only [List.mem_reverse, List.mem_map] at hb
    obtain ⟨d, hd, rfl⟩ := hb
    exact isDigit_digit d (Nat.digits_lt_base (by decide) hd)

theorem decimal_numeral (n : Nat) : decimal (numeral n) = n := by
  unfold numeral
  split
  · rename_i h; subst h; rfl
  · have hid : ((Nat.digits 10 n).map digit).map digitVal = Nat.digits 10 n := by
      rw [List.map_map]
      refine (List.map_congr_left fun d hd => ?_).trans (List.map_id _)
      exact digitVal_digit d (Nat.digits_lt_base (by decide) hd)
    rw [decimal, List.reverse_reverse, hid, Nat.ofDigits_digits]

theorem numeral_head_ne_zero {n : Nat} (hn : n ≠ 0) {ds : Bytes} : numeral n ≠ 48 :: ds := by
  induction n using Nat.strongRecOn generalizing ds with
  | ind n ih =>
    intro h
    by_cases h10 : n < 10
    · rw [numeral_of_lt h10] at h
      injection h with hd _
      have := digitVal_digit n h10
      rw [hd] at this
      exact hn (by rw [← this]; rfl)
    · rw [numeral_snoc (by omega)] at h
      cases hq : numeral (n / 10) with
      | nil => exact numeral_ne_nil _ hq
      | cons d ds' =>
        rw [hq] at h
        injection h with hd _
        exact ih (n / 10) (by omega) (by omega) (hq.trans (by rw [hd]))

theorem length_numeral_le {n k : Nat} (hk : 0 < k) (h : n < 10 ^ k) : (numeral n).length ≤ k := by
  unfold numeral
  split
  · exact hk
  · rw [List.length_reverse, List.length_map]
    exact (Nat.digits_length_le_iff (by decide) n).2 h

theorem decimal_replicate_zero (k : Nat) (ds : Bytes) : decimal (List.replicate k 48 ++ ds) = decimal ds := by
  have hzero : (List.replicate k (48 : UInt8)).map digitVal = List.replicate k 0 := by
    rw [List.map_replicate]
    rfl
  rw [decimal, List.reverse_append, List.map_append, List.reverse_replicate, hzero,
    Nat.ofDigits_append_replicate_zero]
  rfl

theorem decimal_padded (w n : Nat) : decimal (padded w n) = n := by
  rw [padded, decimal_replicate_zero, decimal_numeral]

theorem padded_isDigit (w n : Nat) : ∀ b ∈ padded w n, isDigit b = true := by
  intro b hb
  simp only [padded, List.mem_append, List.mem_replicate] at hb
  rcases hb with ⟨_, rfl⟩ | hb
  · rfl
  · exact numeral_isDigit n b hb

theorem length_padded (w n : Nat) : (padded w n).length = max w (numeral n).length := by
  simp only [padded, List.length_append, List.length_replicate]
  omega

theorem length_padded_of_lt {w n : Nat} (hw : 0 < w) (h : n < 10 ^ w) : (padded w n).length = w := by
  rw [length_padded]
  have := length_numeral_le hw h
  omega

theorem padded_succ {w : Nat} (hw : 0 < w) (n : Nat) :
    padded (w + 1) n = padded w (n / 10) ++ [digit (n % 10)] := by
  by_cases hn : n < 10
  · obtain ⟨v, rfl⟩ : ∃ v, w = v + 1 := ⟨w - 1, by omega⟩
    rw [padded, padded, numeral_of_lt hn, Nat.div_eq_of_lt hn, Nat.mod_eq_of_lt hn, numeral_of_lt (by decide : 0 < 10)]
    simp only [List.length_singleton, Nat.add_sub_cancel]
    rw [List.replicate_succ']
    rfl
  · have hsnoc := numeral_snoc (n := n) (by omega)
    have hlen : (numeral n).length = (numeral (n / 10)).length + 1 := by
      rw [hsnoc, List.length_append, List.length_singleton]
    rw [padded, padded, hlen, hsnoc, Nat.add_sub_add_right, List.append_assoc]

theorem padded_one {n : Nat} (h : n < 10) : padded 1 n = [digit n] := by
  rw [padded, numeral_of_lt h]
  rfl

end Wire
