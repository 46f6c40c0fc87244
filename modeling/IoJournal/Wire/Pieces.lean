import IoJournal.Wire.Lines

/-!
# Wire.Pieces

The lines of a text that is written in pieces, where the end of a line may be missing from a piece.

A piece that lacks its line feed leaves its line open, and the next piece goes on that line (`putPiece`).
`lines_pieces` says that this is all that happens. `flatten_cut` is about a text that ends early.
-/

namespace Wire

/-- One more piece of text at the end of lines, on the last line if that is not complete. -/
def putPiece : List Bytes → Bytes → List Bytes
  | [], piece => [piece]
  | [l], piece => if l.getLast? = some 0x0A then [l, piece] else [l ++ piece]
  | l :: m :: ls, piece => l :: putPiece (m :: ls) piece

/-- There is something in it, and a line feed at most at its end. -/
structure Piece (p : Bytes) : Prop where
  ne_nil : p ≠ []
  inner : 0x0A ∉ p.dropLast

theorem Piece.line {text : Bytes} (h : 0x0A ∉ text) : Piece (text ++ [0x0A]) := by
  refine ⟨by simp, ?_⟩
  rw [List.dropLast_concat]
  exact h

theorem Piece.torn {torn : Bytes} (h : 0x0A ∉ torn) (hne : torn ≠ []) : Piece torn :=
  ⟨hne, fun hmem => h (List.dropLast_subset _ hmem)⟩

theorem putPiece_cons {l : Bytes} {ls : List Bytes} (hls : ls ≠ []) (p : Bytes) :
    putPiece (l :: ls) p = l :: putPiece ls p := by
  cases ls with
  | nil => exact absurd rfl hls
  | cons m ls => rfl

theorem Piece.lines {p : Bytes} (h : Piece p) : lines p = [p] := by
  obtain ⟨init, b, rfl⟩ : ∃ init b, p = init ++ [b] := ⟨_, _, (List.dropLast_append_getLast h.ne_nil).symm⟩
  have hinner := h.inner
  rw [List.dropLast_concat] at hinner
  clear h
  induction init with
  | nil =>
    rw [List.nil_append, Wire.lines, Wire.lines]
    split <;> rfl
  | cons c init ih =>
    rw [List.mem_cons, not_or] at hinner
    rw [List.cons_append, lines_cons (Ne.symm hinner.1) (ih hinner.2)]

theorem lines_append_piece (t : Bytes) {p : Bytes} (h : Piece p) : lines (t ++ p) = putPiece (lines t) p := by
  induction t with
  | nil => exact h.lines
  | cons b t ih =>
    by_cases hb : b = 0x0A
    · have hlines : ∀ r, lines (b :: r) = [b] :: lines r := fun r => by rw [lines, if_pos hb]
      rw [List.cons_append, hlines, hlines, ih]
      by_cases ht : t = []
      · rw [ht, hb]
        rfl
      · rw [putPiece_cons (lines_ne_nil ht)]
    · by_cases ht : t = []
      · have hsingle : lines [b] = [[b]] := by rw [lines, if_neg hb, lines]
        rw [ht, List.cons_append, List.nil_append, lines_cons hb h.lines, hsingle, putPiece, if_neg (by simpa using hb)]
        rfl
      · obtain ⟨l, ls, hl⟩ := List.exists_cons_of_ne_nil (lines_ne_nil ht)
        rw [hl] at ih
        cases ls with
        | nil =>
          rw [putPiece] at ih
          have hlast : (b :: l).getLast? = some 0x0A ↔ l.getLast? = some 0x0A := by
            cases l with
            | nil => simpa using hb
            | cons c l => rw [List.getLast?_cons_cons]
          simp only [List.cons_append, lines_cons hb hl, putPiece, hlast]
          split at ih
          · rw [lines_cons hb ih, if_pos ‹_›]
          · rw [lines_cons hb ih, if_neg ‹_›]
        | cons m ls =>
          rw [putPiece] at ih
          rw [List.cons_append, lines_cons hb hl, lines_cons hb ih, putPiece]

/-- The lines of a text that was written piece by piece. -/
theorem lines_pieces (t : Bytes) {ps : List Bytes} (h : ∀ p ∈ ps, Piece p) :
    lines (t ++ ps.flatten) = ps.foldl putPiece (lines t) := by
  induction ps generalizing t with
  | nil => rw [List.flatten_nil, List.append_nil, List.foldl_nil]
  | cons p ps ih =>
    rw [List.forall_mem_cons] at h
    rw [List.flatten_cons, ← List.append_assoc, ih _ h.2, lines_append_piece t h.1, List.foldl_cons]

/-- A first part of texts put together is some of them whole and a part of the next. -/
theorem flatten_cut {ps : List Bytes} {octets : Bytes} (h : octets <+: ps.flatten) :
    ∃ kept torn rest, ps = kept ++ rest ∧ octets = kept.flatten ++ torn ∧
      (torn = [] ∨ ∃ next, rest.head? = some next ∧ torn <+: next ∧ torn ≠ next) := by
  induction ps generalizing octets with
  | nil => exact ⟨[], [], [], rfl, List.prefix_nil.1 h, .inl rfl⟩
  | cons p ps ih =>
    rw [List.flatten_cons] at h
    rcases List.prefix_or_prefix_of_prefix h (List.prefix_append p ps.flatten) with hpart | ⟨more, rfl⟩
    · by_cases heq : octets = p
      · exact ⟨[p], [], ps, rfl, by simp [heq], .inl rfl⟩
      · exact ⟨[], octets, p :: ps, rfl, rfl, .inr ⟨p, rfl, hpart, heq⟩⟩
    · obtain ⟨kept, torn, rest, rfl, rfl, htorn⟩ := ih ((List.prefix_append_right_inj p).1 h)
      exact ⟨p :: kept, torn, rest, rfl, by rw [List.flatten_cons, List.append_assoc], htorn⟩

theorem whole_of_flatten {kept rest whole : List Bytes} {torn : Bytes} (hne : ∀ p ∈ kept ++ rest, p ≠ [])
    (htorn : torn = [] ∨ ∃ next, rest.head? = some next ∧ torn <+: next ∧ torn ≠ next)
    (hwhole : whole <+: kept ++ rest) (hoctets : whole.flatten <+: kept.flatten ++ torn) :
    whole.length ≤ kept.length := by
  by_contra hlt
  obtain ⟨more, rfl⟩ : kept <+: whole :=
    List.prefix_of_prefix_length_le (List.prefix_append kept rest) hwhole (by omega)
  have hmore := (List.prefix_append_right_inj kept).1 hwhole
  rw [List.flatten_append] at hoctets
  have hpart := (List.prefix_append_right_inj _).1 hoctets
  cases more with
  | nil => exact hlt (by simp)
  | cons next more =>
    obtain ⟨rest, rfl⟩ := hmore
    have hpos : 0 < next.length := List.length_pos_of_ne_nil (hne next (by simp))
    have hle := hpart.length_le
    rw [List.flatten_cons, List.length_append] at hle
    rcases htorn with rfl | ⟨next', hnext, htorn, hproper⟩
    · rw [List.length_nil] at hle
      omega
    · cases hnext
      have heq : torn = next := htorn.eq_of_length_le (by omega)
      exact hproper heq

end Wire
