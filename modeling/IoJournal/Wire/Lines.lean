import IoJournal.Wire.Bytes

/-!
# Wire.Lines

Octets as lines, each with the line feed that ends it. The last line may lack its line feed; then
whatever is appended goes on that line. `lines_append_iff` says that two texts put together keep
their lines exactly when the first one ends at a line boundary.
-/

namespace Wire

def lines : Bytes → List Bytes
  | [] => []
  | b :: bs =>
    if b = 0x0A then [b] :: lines bs
    else
      match lines bs with
      | [] => [[b]]
      | l :: ls => (b :: l) :: ls

/-- The text is empty or its last line is complete. -/
def AtLineStart (t : Bytes) : Prop := t = [] ∨ t.getLast? = some 0x0A

instance (t : Bytes) : Decidable (AtLineStart t) := inferInstanceAs (Decidable (_ ∨ _))

theorem atLineStart_cons {b : UInt8} {t : Bytes} (ht : t ≠ []) : AtLineStart (b :: t) ↔ AtLineStart t := by
  obtain ⟨c, t, rfl⟩ := List.exists_cons_of_ne_nil ht
  simp [AtLineStart, List.getLast?_cons_cons]

theorem lines_ne_nil {t : Bytes} (ht : t ≠ []) : lines t ≠ [] := by
  obtain ⟨b, t, rfl⟩ := List.exists_cons_of_ne_nil ht
  unfold lines
  split
  · exact List.cons_ne_nil _ _
  · split <;> exact List.cons_ne_nil _ _

theorem lines_cons {b : UInt8} (hb : b ≠ 0x0A) {t l : Bytes} {ls : List Bytes} (h : lines t = l :: ls) :
    lines (b :: t) = (b :: l) :: ls := by
  rw [lines, if_neg hb, h]

theorem lines_append_iff {s t : Bytes} (ht : t ≠ []) : lines (s ++ t) = lines s ++ lines t ↔ AtLineStart s := by
  induction s with
  | nil => exact iff_of_true rfl (.inl rfl)
  | cons b s ih =>
    by_cases hb : b = 0x0A
    · have hlines : ∀ r, lines (b :: r) = [b] :: lines r := fun r => by rw [lines, if_pos hb]
      rw [List.cons_append, hlines, hlines, List.cons_append, List.cons.injEq]
      by_cases hs : s = []
      · subst hs
        exact iff_of_true ⟨rfl, rfl⟩ (.inr (by rw [hb]; rfl))
      · rw [atLineStart_cons hs, ← ih]
        exact and_iff_right rfl
    · by_cases hs : s = []
      · -- the octet goes on the first line of `t`
        subst hs
        obtain ⟨l, ls, hl⟩ := List.exists_cons_of_ne_nil (lines_ne_nil ht)
        have hsingle : lines [b] = [[b]] := by rw [lines, if_neg hb, lines]
        rw [List.cons_append, List.nil_append, lines_cons hb hl, hsingle, hl]
        refine iff_of_false (fun heq => ?_) (fun hstart => ?_)
        · have := congrArg List.length heq
          simp at this
        · rcases hstart with hnil | hlast
          · cases hnil
          · exact hb (Option.some.inj hlast)
      · obtain ⟨l, ls, hl⟩ := List.exists_cons_of_ne_nil (lines_ne_nil hs)
        obtain ⟨m, ms, hm⟩ := List.exists_cons_of_ne_nil (lines_ne_nil (t := s ++ t) (by simp [hs]))
        rw [atLineStart_cons hs, ← ih, List.cons_append, lines_cons hb hm, lines_cons hb hl, hm, hl]
        simp

theorem lines_line {l : Bytes} (h : 0x0A ∉ l) : lines (l ++ [0x0A]) = [l ++ [0x0A]] := by
  induction l with
  | nil => rfl
  | cons b l ih =>
    rw [List.mem_cons, not_or] at h
    exact lines_cons (Ne.symm h.1) (ih h.2)

theorem lines_flatMap {α : Type} {f : α → Bytes} {as : List α} (h : ∀ a ∈ as, 0x0A ∉ f a) :
    lines (as.flatMap fun a => f a ++ [0x0A]) = as.map fun a => f a ++ [0x0A] := by
  induction as with
  | nil => rfl
  | cons a as ih =>
    rw [List.forall_mem_cons] at h
    rw [List.flatMap_cons, List.map_cons]
    by_cases hrest : as.flatMap (fun a => f a ++ [0x0A]) = []
    · have hnil : as = [] := by
        cases as with
        | nil => rfl
        | cons b bs => simp at hrest
      rw [hrest, hnil, List.append_nil, lines_line h.1]
      rfl
    · rw [(lines_append_iff hrest).2 (.inr (by simp)), lines_line h.1, ih h.2]
      rfl

end Wire
