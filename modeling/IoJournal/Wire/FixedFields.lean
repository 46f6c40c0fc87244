import Mathlib.Data.List.Forall2
import IoJournal.Wire.Bytes

/-!
# Wire.FixedFields

Texts made of numbers of fixed width, each followed by an octet of its own.

* `fixedFields fs ns` writes the numbers `ns` in the fields `fs`.
* `LooksLike sample text`: `text` has a digit wherever `sample` has one and the same octet
  everywhere else. Two texts in the same fields look alike (`fixedFields_looksLike`).
* `fixedFields_lt_iff`: octet by octet, two such texts are ordered as their numbers are, the first
  number counting most.
* `wideFields`, `wideFields_lt_iff`: the same with any octets between the numbers.
-/

namespace Wire

theorem append_lt_append_iff {α : Type*} [LT α] {xs ys us vs : List α} (h : xs.length = ys.length) :
    xs ++ us < ys ++ vs ↔ xs < ys ∨ xs = ys ∧ us < vs := by
  induction xs generalizing ys with
  | nil =>
    cases List.length_eq_zero_iff.1 h.symm
    simp
  | cons x xs ih =>
    cases ys with
    | nil => cases h
    | cons y ys =>
      have hlen : xs.length = ys.length := Nat.succ.inj h
      simp only [List.cons_append, List.cons_lt_cons_iff, ih hlen, List.cons.injEq]
      tauto

theorem digit_lt_digit_iff : ∀ d, d < 10 → ∀ e, e < 10 → (digit d < digit e ↔ d < e) := by decide

theorem padded_inj {w m n : Nat} : padded w m = padded w n ↔ m = n := by
  constructor
  · intro h
    rw [← decimal_padded w m, h, decimal_padded]
  · intro h
    rw [h]

theorem padded_lt_iff {w m n : Nat} (hw : 0 < w) (hm : m < 10 ^ w) (hn : n < 10 ^ w) :
    padded w m < padded w n ↔ m < n := by
  induction w, hw using Nat.le_induction generalizing m n with
  | base =>
    rw [padded_one (by omega), padded_one (by omega), List.cons_lt_cons_iff, digit_lt_digit_iff m (by omega) n (by omega)]
    simp
  | succ w hw ih =>
    rw [Nat.pow_succ] at hm hn
    have hm' : m / 10 < 10 ^ w := by omega
    have hn' : n / 10 < 10 ^ w := by omega
    have hlen : (padded w (m / 10)).length = (padded w (n / 10)).length := by
      rw [length_padded_of_lt hw hm', length_padded_of_lt hw hn']
    have hlast : [digit (m % 10)] < [digit (n % 10)] ↔ m % 10 < n % 10 := by
      rw [List.cons_lt_cons_iff, digit_lt_digit_iff _ (by omega) _ (by omega)]
      simp
    rw [padded_succ hw, padded_succ hw, append_lt_append_iff hlen, ih hm' hn', padded_inj, hlast]
    omega

/-- The numbers in their fields: the width of each, and the octet after it. -/
def fixedFields : List (Nat × UInt8) → List Nat → Bytes
  | (w, s) :: fs, n :: ns => padded w n ++ s :: fixedFields fs ns
  | _, _ => []

/-- Every number has room in its field. -/
def Fits (fs : List (Nat × UInt8)) (ns : List Nat) : Prop :=
  List.Forall₂ (fun f n => 0 < f.1 ∧ n < 10 ^ f.1) fs ns

def LooksLike (sample text : Bytes) : Prop :=
  List.Forall₂ (fun f b => if isDigit f then isDigit b = true else b = f) sample text

theorem looksLike_digits {ds es : Bytes} (hd : ∀ b ∈ ds, isDigit b = true) (he : ∀ b ∈ es, isDigit b = true)
    (h : ds.length = es.length) : LooksLike ds es := by
  rw [LooksLike, List.forall₂_iff_zip]
  refine ⟨h, fun {a b} hab => ?_⟩
  obtain ⟨ha, hb⟩ := List.of_mem_zip hab
  rw [if_pos (hd a ha)]
  exact he b hb

section Fields

variable {fs : List (Nat × UInt8)} {ms ns : List Nat}

theorem fixedFields_looksLike (hm : Fits fs ms) (hn : Fits fs ns) :
    LooksLike (fixedFields fs ms) (fixedFields fs ns) := by
  induction hm generalizing ns with
  | nil =>
    cases hn
    exact .nil
  | @cons f m fs ms hm _ ih =>
    obtain ⟨w, s⟩ := f
    cases hn with
    | cons hn hns =>
      refine List.rel_append (looksLike_digits (padded_isDigit _ _) (padded_isDigit _ _) ?_) (.cons ?_ (ih hns))
      · rw [length_padded_of_lt hm.1 hm.2, length_padded_of_lt hn.1 hn.2]
      · split
        · assumption
        · rfl

theorem fixedFields_lt_iff (hm : Fits fs ms) (hn : Fits fs ns) :
    fixedFields fs ms < fixedFields fs ns ↔ ms < ns := by
  induction hm generalizing ns with
  | nil =>
    cases hn
    simp [fixedFields]
  | @cons f m fs ms hm _ ih =>
    obtain ⟨w, s⟩ := f
    cases hn with
    | @cons _ n _ ns hn hns =>
      have hlen : (padded w m).length = (padded w n).length := by
        rw [length_padded_of_lt hm.1 hm.2, length_padded_of_lt hn.1 hn.2]
      rw [fixedFields, fixedFields, append_lt_append_iff hlen, padded_lt_iff hm.1 hm.2 hn.2, padded_inj,
        List.cons_lt_cons_self, ih hns, List.cons_lt_cons_iff]

end Fields

/-- The numbers in their fields: the width of each, and the octets after it. -/
def wideFields : List (Nat × Bytes) → List Nat → Bytes
  | (w, s) :: fs, n :: ns => padded w n ++ (s ++ wideFields fs ns)
  | _, _ => []

theorem wideFields_lt_iff {fs : List (Nat × Bytes)} {ms ns : List Nat}
    (hm : List.Forall₂ (fun f n => 0 < f.1 ∧ n < 10 ^ f.1) fs ms)
    (hn : List.Forall₂ (fun f n => 0 < f.1 ∧ n < 10 ^ f.1) fs ns) : wideFields fs ms < wideFields fs ns ↔ ms < ns := by
  induction hm generalizing ns with
  | nil =>
    cases hn
    simp [wideFields]
  | @cons f m fs ms hm _ ih =>
    obtain ⟨w, s⟩ := f
    cases hn with
    | @cons _ n _ ns hn hns =>
      have hlen : (padded w m).length = (padded w n).length := by
        rw [length_padded_of_lt hm.1 hm.2, length_padded_of_lt hn.1 hn.2]
      have hself : ¬s < s := List.lt_irrefl s
      rw [wideFields, wideFields, append_lt_append_iff hlen, padded_lt_iff hm.1 hm.2 hn.2, padded_inj,
        append_lt_append_iff rfl, ih hns, List.cons_lt_cons_iff]
      tauto

end Wire
