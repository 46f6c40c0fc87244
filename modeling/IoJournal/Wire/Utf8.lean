import IoJournal.Wire.Bytes

/-!
# Wire.Utf8

The syntax of UTF-8 octet sequences (RFC 3629, section 4): `isChar` lists the octets of one
character, `Valid` their concatenations.

`next` splits the first character off a sequence. It is what a decoder runs, and
`next_append` / `next_sound` are the two facts a decoder needs: a character in front of anything
is found, and what is found is a character.
-/

namespace Wire
namespace Utf8

/-- `UTF8-tail = %x80-BF`. -/
def isTail (b : UInt8) : Bool := 0x80 ≤ b && b ≤ 0xBF

/-- `UTF8-char`: the octets of exactly one character. Overlong forms, surrogates and everything
above U+10FFFF are excluded by the ranges of the second octet and of the lead. -/
def isChar : Bytes → Bool
  | [a] => a ≤ 0x7F
  | [a, b] => 0xC2 ≤ a && a ≤ 0xDF && isTail b
  | [a, b, c] =>
    (a == 0xE0 && 0xA0 ≤ b && b ≤ 0xBF || 0xE1 ≤ a && a ≤ 0xEC && isTail b ||
      a == 0xED && 0x80 ≤ b && b ≤ 0x9F || 0xEE ≤ a && a ≤ 0xEF && isTail b) && isTail c
  | [a, b, c, d] =>
    (a == 0xF0 && 0x90 ≤ b && b ≤ 0xBF || 0xF1 ≤ a && a ≤ 0xF3 && isTail b ||
      a == 0xF4 && 0x80 ≤ b && b ≤ 0x8F) && isTail c && isTail d
  | _ => false

/-- `UTF8-octets = *( UTF8-char )`. -/
inductive Valid : Bytes → Prop where
  | nil : Valid []
  | cons {c rest : Bytes} : isChar c = true → Valid rest → Valid (c ++ rest)

/-- The first character of a sequence and what follows it. -/
def next : Bytes → Option (Bytes × Bytes)
  | [] => none
  | a :: l =>
    if isChar [a] then some ([a], l)
    else
      match l with
      | [] => none
      | b :: l =>
        if isChar [a, b] then some ([a, b], l)
        else
          match l with
          | [] => none
          | c :: l =>
            if isChar [a, b, c] then some ([a, b, c], l)
            else
              match l with
              | [] => none
              | d :: l => if isChar [a, b, c, d] then some ([a, b, c, d], l) else none

theorem isChar_cases {c : Bytes} (h : isChar c = true) :
    (∃ a, c = [a]) ∨ (∃ a b, c = [a, b]) ∨ (∃ a b d, c = [a, b, d]) ∨ ∃ a b d e, c = [a, b, d, e] := by
  rcases c with _ | ⟨a, _ | ⟨b, _ | ⟨d, _ | ⟨e, _ | ⟨f, l⟩⟩⟩⟩⟩ <;> simp_all [isChar]

theorem isChar_one {a : UInt8} : isChar [a] = true ↔ a.toNat ≤ 0x7F := by
  simp [isChar, UInt8.le_iff_toNat_le]

theorem isChar_two_lead {a b : UInt8} (h : isChar [a, b] = true) :
    0xC2 ≤ a.toNat ∧ a.toNat ≤ 0xDF := by
  simp only [isChar, Bool.and_eq_true, decide_eq_true_eq, UInt8.le_iff_toNat_le] at h
  exact h.1

theorem isChar_three_lead {a b c : UInt8} (h : isChar [a, b, c] = true) :
    0xE0 ≤ a.toNat ∧ a.toNat ≤ 0xEF := by
  simp only [isChar, Bool.and_eq_true, Bool.or_eq_true, decide_eq_true_eq, UInt8.le_iff_toNat_le,
    beq_iff_eq, UInt8.toNat_ofNat] at h
  rcases h with ⟨((⟨⟨rfl, _⟩, _⟩ | h) | ⟨⟨rfl, _⟩, _⟩) | h, _⟩
  · decide
  · omega
  · decide
  · omega

theorem isChar_four_lead {a b c d : UInt8} (h : isChar [a, b, c, d] = true) :
    0xF0 ≤ a.toNat ∧ a.toNat ≤ 0xF4 := by
  simp only [isChar, Bool.and_eq_true, Bool.or_eq_true, decide_eq_true_eq, UInt8.le_iff_toNat_le,
    beq_iff_eq, UInt8.toNat_ofNat] at h
  rcases h with ⟨⟨(⟨⟨rfl, _⟩, _⟩ | h) | ⟨⟨rfl, _⟩, _⟩, _⟩, _⟩
  · decide
  · omega
  · decide

theorem next_append {c : Bytes} (h : isChar c = true) (rest : Bytes) :
    next (c ++ rest) = some (c, rest) := by
  -- a longer character never starts with a shorter one: their leads lie in disjoint ranges
  obtain ⟨a, rfl⟩ | ⟨a, b, rfl⟩ | ⟨a, b, d, rfl⟩ | ⟨a, b, d, e, rfl⟩ := isChar_cases h
  · simp [next, h]
  · have hl := isChar_two_lead h
    have h1 : ¬ isChar [a] = true := fun h' => by have := isChar_one.1 h'; omega
    simp [next, h, h1]
  · have hl := isChar_three_lead h
    have h1 : ¬ isChar [a] = true := fun h' => by have := isChar_one.1 h'; omega
    have h2 : ¬ isChar [a, b] = true := fun h' => by have := isChar_two_lead h'; omega
    simp [next, h, h1, h2]
  · have hl := isChar_four_lead h
    have h1 : ¬ isChar [a] = true := fun h' => by have := isChar_one.1 h'; omega
    have h2 : ¬ isChar [a, b] = true := fun h' => by have := isChar_two_lead h'; omega
    have h3 : ¬ isChar [a, b, d] = true := fun h' => by have := isChar_three_lead h'; omega
    simp [next, h, h1, h2, h3]

theorem next_sound {l c rest : Bytes} (h : next l = some (c, rest)) :
    isChar c = true ∧ l = c ++ rest := by
  unfold next at h
  repeat' split at h
  all_goals first | cases h; done | (cases h; exact ⟨‹_›, rfl⟩)

theorem valid_append {l m : Bytes} (hl : Valid l) (hm : Valid m) : Valid (l ++ m) := by
  induction hl with
  | nil => exact hm
  | cons hc _ ih => rw [List.append_assoc]; exact .cons hc ih

theorem valid_iff_next {l : Bytes} (hl : l ≠ []) :
    Valid l ↔ ∃ c rest, next l = some (c, rest) ∧ Valid rest := by
  constructor
  · intro h
    cases h with
    | nil => exact absurd rfl hl
    | cons hc hr => exact ⟨_, _, next_append hc _, hr⟩
  · rintro ⟨c, rest, hn, hr⟩
    obtain ⟨hc, rfl⟩ := next_sound hn
    exact .cons hc hr

theorem valid_cons_ascii {a : UInt8} (ha : a.toNat ≤ 0x7F) {l : Bytes} :
    Valid (a :: l) ↔ Valid l := by
  rw [valid_iff_next (by simp)]
  have hn : next (a :: l) = some ([a], l) := by simp [next, isChar_one.2 ha]
  constructor
  · rintro ⟨c, rest, h, hr⟩
    rw [hn] at h; cases h; exact hr
  · intro hr; exact ⟨_, _, hn, hr⟩

theorem valid_of_ascii {l : Bytes} (h : ∀ b ∈ l, b.toNat ≤ 0x7F) : Valid l := by
  induction l with
  | nil => exact .nil
  | cons a l ih => exact (valid_cons_ascii (h a (by simp))).2 (ih fun b hb => h b (by simp [hb]))

end Utf8
end Wire
