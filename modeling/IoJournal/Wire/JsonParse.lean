import IoJournal.Wire.Json

/-!
# Wire.JsonParse

Completeness of the JSON reader: `parse` reads every text the grammar derives, as the value it
derives. As `parse` is a function, a text derives at most one value.

* `chars_complete`, `number_complete`: strings and numbers, by the shape of the literal.
* `Reads`: what completeness says of each kind of node, with what may follow it.
* `reads_of_derives`: by induction on the derivation.
-/

namespace Wire
namespace Json

/-! ## White space and fixed octets -/

theorem skipWs_append {w : Bytes} (hw : Ws w) (l : Bytes) : skipWs (w ++ l) = skipWs l := by
  induction w with
  | nil => rfl
  | cons b w ih =>
    have hb := hw b (by simp)
    have := ih fun c hc => hw c (by simp [hc])
    simpa [skipWs, List.dropWhile, hb] using this

theorem skipWs_cons {b : UInt8} (hb : isWs b = false) (l : Bytes) : skipWs (b :: l) = b :: l := by
  simp [skipWs, List.dropWhile, hb]

theorem skipWs_eq_nil {w : Bytes} (hw : Ws w) : skipWs w = [] := by
  have := skipWs_append hw []
  simpa [skipWs] using this

theorem keyword_append (word l : Bytes) : keyword word (word ++ l) = some l := by
  induction word with
  | nil => rfl
  | cons b word ih => simpa [keyword] using ih

theorem expect_append {w : Bytes} {b : UInt8} (hw : Ws w) (hb : isWs b = false) (l : Bytes) :
    expect b (w ++ b :: l) = some l := by
  rw [expect, skipWs_append hw, skipWs_cons hb]
  exact keyword_append [b] l

theorem expect_ne {w : Bytes} {b c : UInt8} (hw : Ws w) (hc : isWs c = false) (h : b ≠ c) (l : Bytes) :
    expect b (w ++ c :: l) = none := by
  rw [expect, skipWs_append hw, skipWs_cons hc]
  simp [keyword, h]

/-! ## Strings -/

theorem unescaped_cons {c : Bytes} (h : unescaped c = true) :
    ∃ b l, c = b :: l ∧ b ≠ 0x22 ∧ b ≠ 0x5C ∧ ¬ b < 0x20 ∧ Utf8.isChar c = true := by
  simp only [unescaped, Bool.and_eq_true, List.all_eq_true, bne_iff_ne, decide_eq_true_eq] at h
  obtain ⟨hc, hall⟩ := h
  cases c with
  | nil => simp [Utf8.isChar] at hc
  | cons b l =>
    obtain ⟨⟨hb, hq⟩, hs⟩ := hall b (by simp)
    exact ⟨b, l, rfl, hq, hs, UInt8.not_lt.2 hb, hc⟩

theorem chars_complete {t s : Bytes} (h : Chars t s) :
    ∀ (n : Nat) (r : Bytes), t.length < n → chars n (t ++ 0x22 :: r) = some (s, r) := by
  induction h with
  | nil =>
    intro n r hn
    obtain ⟨n, rfl⟩ : ∃ m, n = m + 1 := ⟨n - 1, by simp at hn; omega⟩
    simp [chars]
  | @plain c t s hc _ ih =>
    intro n r hn
    obtain ⟨b, l, rfl, hq, hs, hlt, hchar⟩ := unescaped_cons hc
    simp only [List.cons_append, List.length_cons, List.length_append] at hn
    obtain ⟨n, rfl⟩ : ∃ m, n = m + 1 := ⟨n - 1, by omega⟩
    have hnext : Utf8.next (b :: (l ++ (t ++ 0x22 :: r))) = some (b :: l, t ++ 0x22 :: r) :=
      Utf8.next_append hchar _
    simp [chars, hq, hs, hlt, hnext, ih n r (by omega)]
  | @simple e b t s he _ ih =>
    intro n r hn
    simp only [List.length_cons] at hn
    obtain ⟨n, rfl⟩ : ∃ m, n = m + 1 := ⟨n - 1, by omega⟩
    have hu : e ≠ 0x75 := by rintro rfl; simp [simpleEscape] at he
    simp [chars, escape, hu, he, ih n r (by omega)]
  | @unicode a b c d u t s hu _ ih =>
    intro n r hn
    simp only [List.length_cons] at hn
    obtain ⟨n, rfl⟩ : ∃ m, n = m + 1 := ⟨n - 1, by omega⟩
    simp [chars, escape, unicodeEscape, hu, ih n r (by omega)]
  | @pair a b c d e f g h u t s hu _ ih =>
    intro n r hn
    simp only [List.length_cons] at hn
    obtain ⟨n, rfl⟩ : ∃ m, n = m + 1 := ⟨n - 1, by omega⟩
    -- the first half is a surrogate, so it is no character of its own
    have hb : basicCode a b c d = none := by
      simp only [pairCode, Option.bind_eq_bind, Option.bind_eq_some_iff, Option.filter_eq_some_iff] at hu
      obtain ⟨hi, ⟨hhi, hr⟩, _⟩ := hu
      simp only [Bool.and_eq_true, decide_eq_true_eq] at hr
      simp only [basicCode, hhi, Option.filter_some, Bool.or_eq_true, decide_eq_true_eq]
      rw [if_neg (by omega)]
    simp [chars, escape, unicodeEscape, hb, hu, ih n r (by omega)]

/-! ## Numbers -/

/-- What follows a number does not continue it. -/
def Stops (r : Bytes) : Prop :=
  ∀ b ∈ r.head?, isDigit b = false ∧ b ≠ 0x2E ∧ b ≠ 0x65 ∧ b ≠ 0x45

theorem spanDigits_append {ds r : Bytes} (h : Digits ds) (hr : ∀ b ∈ r.head?, isDigit b = false) :
    spanDigits (ds ++ r) = some (ds, r) := by
  have htake : (ds ++ r).takeWhile isDigit = ds := by
    rw [List.takeWhile_append_of_pos h.2]
    cases r with
    | nil => simp
    | cons b r => simp [List.takeWhile, hr b (by simp)]
  have hdrop : (ds ++ r).dropWhile isDigit = r := by
    rw [List.dropWhile_append_of_pos h.2]
    cases r with
    | nil => simp
    | cons b r => simp [List.dropWhile, hr b (by simp)]
  simp [spanDigits, htake, hdrop, h.1]

theorem expPart_append {e r : Bytes} (h : ExpPart e) (hr : Stops r) :
    expPart (e ++ r) = some (e, r) := by
  have hd : ∀ b ∈ r.head?, isDigit b = false := fun b hb => (hr b hb).1
  obtain rfl | ⟨e, sign, ds, rfl, he, hs, hds⟩ := h
  · cases r with
    | nil => rfl
    | cons b r =>
      obtain ⟨_, _, h1, h2⟩ := hr b (by simp)
      simp [expPart, h1, h2]
  · have hsign : expSign (sign ++ (ds ++ r)) = (sign, ds ++ r) := by
      rcases hs with rfl | rfl | rfl
      · obtain ⟨hne, hall⟩ := hds
        cases ds with
        | nil => exact absurd rfl hne
        | cons d ds =>
          have hdig := hall d (by simp)
          have h1 : d ≠ 0x2B := by rintro rfl; simp [isDigit] at hdig
          have h2 : d ≠ 0x2D := by rintro rfl; simp [isDigit] at hdig
          simp [expSign, h1, h2]
      · simp [expSign]
      · simp [expSign]
    simp [expPart, he, hsign, spanDigits_append hds hd]

/-- A fraction, or what is read instead of one, does not start with a digit. -/
theorem fracPart_append {f e r : Bytes} (hf : FracPart f) (he : ExpPart e) (hr : Stops r) :
    fracPart (f ++ (e ++ r)) = some (f, e ++ r) := by
  -- the octet after the fraction: an exponent mark or what follows the number
  have hnext : ∀ b ∈ (e ++ r).head?, isDigit b = false ∧ b ≠ 0x2E := by
    intro b hb
    obtain rfl | ⟨x, sign, ds, rfl, hx, _⟩ := he
    · exact ⟨(hr b hb).1, (hr b hb).2.1⟩
    · simp at hb
      subst hb
      rcases hx with rfl | rfl <;> decide
  obtain rfl | ⟨ds, rfl, hds⟩ := hf
  · cases her : e ++ r with
    | nil => rfl
    | cons b l =>
      have := (hnext b (by simp [her])).2
      simp [fracPart, this]
  · simp [fracPart, spanDigits_append hds fun b hb => (hnext b hb).1]

theorem intPart_append {i f e r : Bytes} (hi : IntPart i) (hf : FracPart f) (he : ExpPart e)
    (hr : Stops r) : intPart (i ++ (f ++ (e ++ r))) = some (i, f ++ (e ++ r)) := by
  have hnext : ∀ b ∈ (f ++ (e ++ r)).head?, isDigit b = false := by
    intro b hb
    obtain rfl | ⟨ds, rfl, _⟩ := hf
    · obtain rfl | ⟨x, sign, ds, rfl, hx, _⟩ := he
      · exact (hr b hb).1
      · simp at hb
        subst hb
        rcases hx with rfl | rfl <;> decide
    · simp at hb
      subst hb; rfl
  obtain rfl | ⟨d, ds, rfl, h0, hds⟩ := hi
  · simp [intPart]
  · rw [List.cons_append, intPart, if_neg h0]
    exact spanDigits_append hds hnext

theorem number_complete {t r : Bytes} (h : Number t) (hr : Stops r) :
    number (t ++ r) = some (t, r) := by
  obtain ⟨m, i, f, e, rfl, hm, hi, hf, he⟩ := h
  have hminus : minusPart (m ++ (i ++ (f ++ (e ++ r)))) = (m, i ++ (f ++ (e ++ r))) := by
    rcases hm with rfl | rfl
    · obtain rfl | ⟨d, ds, rfl, _, hds⟩ := hi
      · simp [minusPart]
      · have hdig := hds.2 d (by simp)
        have : d ≠ 0x2D := by rintro rfl; simp [isDigit] at hdig
        simp [minusPart, this]
    · simp [minusPart]
  simp [number, hminus, intPart_append hi hf he hr, fracPart_append hf he hr, expPart_append he hr]

/-! ## Values -/

/-- What completeness says of a node: the reader of its kind reads `t`, given enough fuel and what
may follow. -/
def Reads : Node → Bytes → Prop
  | .value v, t => ∀ n r, t.length ≤ n → Stops r → value n (t ++ r) = some (v, r)
  | .elements vs, t => ∀ n r, t.length < n → elements n (t ++ 0x5D :: r) = some (vs, r)
  | .members ms, t => ∀ n r, t.length < n → members n (t ++ 0x7D :: r) = some (ms, r)

theorem number_head {t : Bytes} (h : Number t) :
    ∃ b l, t = b :: l ∧ (b = 0x2D ∨ isDigit b = true) := by
  obtain ⟨m, i, f, e, rfl, rfl | rfl, hi, -, -⟩ := h
  · obtain rfl | ⟨d, ds, rfl, _, hds⟩ := hi
    · exact ⟨0x30, _, rfl, .inr rfl⟩
    · exact ⟨d, _, rfl, .inr (hds.2 d (by simp))⟩
  · exact ⟨0x2D, _, rfl, .inl rfl⟩

theorem derives_head {v : Json} {t : Bytes} (h : Derives (.value v) t) :
    ∃ b l, t = b :: l ∧ isWs b = false ∧ b ≠ 0x5D := by
  cases h with
  | num ht =>
    obtain ⟨b, l, rfl, rfl | hb⟩ := number_head ht
    · exact ⟨_, _, rfl, by decide, by decide⟩
    · refine ⟨b, l, rfl, ?_, ?_⟩
      · simp only [isDigit, Bool.and_eq_true, decide_eq_true_eq, UInt8.le_iff_toNat_le] at hb
        simp only [isWs, Bool.or_eq_false_iff, beq_eq_false_iff_ne]
        refine ⟨⟨⟨?_, ?_⟩, ?_⟩, ?_⟩ <;> (rintro rfl; revert hb; decide)
      · rintro rfl; revert hb; decide
  | _ => exact ⟨_, _, rfl, by decide, by decide⟩

theorem ws_stops {w : Bytes} (hw : Ws w) {b : UInt8} (hb : isDigit b = false ∧ b ≠ 0x2E ∧ b ≠ 0x65 ∧ b ≠ 0x45)
    (r : Bytes) : Stops (w ++ b :: r) := by
  intro c hc
  cases w with
  | nil => simp at hc; subst hc; exact hb
  | cons d w =>
    simp at hc; subst hc
    have hd := hw d (by simp)
    simp only [isWs, Bool.or_eq_true, beq_iff_eq] at hd
    rcases hd with ((rfl | rfl) | rfl) | rfl <;> decide

section Cases

variable {w w₁ w₂ w' t k key rest : Bytes} {v : Json} {vs : List Json} {ms : List (Bytes × Json)}

theorem derives_length_pos (hv : Derives (.value v) t) : 0 < t.length := by
  obtain ⟨b, l, rfl, -, -⟩ := derives_head hv
  exact Nat.succ_pos _

theorem skipWs_value (hw : Ws w) (hv : Derives (.value v) t) (tail : Bytes) : skipWs (w ++ (t ++ tail)) = t ++ tail := by
  obtain ⟨b, l, rfl, hb, -⟩ := derives_head hv
  rw [skipWs_append hw, List.cons_append, skipWs_cons hb]

theorem reads_number (h : Number t) : Reads (.value (.num t)) t := by
  intro n r hn hr
  obtain ⟨b, l, rfl, hb⟩ := number_head h
  obtain ⟨n, rfl⟩ : ∃ m, n = m + 1 := ⟨n - 1, by simp at hn; omega⟩
  have hne : b ≠ 0x22 ∧ b ≠ 0x7B ∧ b ≠ 0x5B ∧ b ≠ 0x6E ∧ b ≠ 0x74 ∧ b ≠ 0x66 := by
    refine ⟨?_, ?_, ?_, ?_, ?_, ?_⟩ <;> (rintro rfl; revert hb; decide)
  obtain ⟨h1, h2, h3, h4, h5, h6⟩ := hne
  have hnum := number_complete h hr
  rw [List.cons_append] at hnum ⊢
  simp [value, h1, h2, h3, h4, h5, h6, hnum]

theorem reads_elements (hw : Ws w) (hv : Derives (.value v) t) (ih : Reads (.value v) t) (hw' : Ws w') :
    Reads (.elements [v]) (w ++ (t ++ w')) := by
  intro n r hn
  have hpos := derives_length_pos hv
  simp only [List.length_append] at hn
  obtain ⟨n, rfl⟩ : ∃ m, n = m + 1 := ⟨n - 1, by omega⟩
  have hval := ih n (w' ++ 0x5D :: r) (by omega) (ws_stops hw' (by decide) r)
  have hskip := skipWs_value hw hv (w' ++ 0x5D :: r)
  simp only [List.append_assoc]
  simp only [elements, hskip, hval, Option.bind_eq_bind, Option.bind_some,
    expect_ne hw' (by decide : isWs 0x5D = false) (by decide : (0x2C : UInt8) ≠ 0x5D),
    expect_append hw' (by decide : isWs 0x5D = false)]
  rfl

theorem reads_elements_cons (hw : Ws w) (hv : Derives (.value v) t) (ih : Reads (.value v) t)
    (hw' : Ws w') (ihs : Reads (.elements vs) rest) :
    Reads (.elements (v :: vs)) (w ++ (t ++ (w' ++ 0x2C :: rest))) := by
  intro n r hn
  have hpos := derives_length_pos hv
  simp only [List.length_append, List.length_cons] at hn
  obtain ⟨n, rfl⟩ : ∃ m, n = m + 1 := ⟨n - 1, by omega⟩
  have hval := ih n (w' ++ 0x2C :: (rest ++ 0x5D :: r)) (by omega) (ws_stops hw' (by decide) _)
  have hskip := skipWs_value hw hv (w' ++ 0x2C :: (rest ++ 0x5D :: r))
  simp only [List.append_assoc, List.cons_append]
  simp only [elements, hskip, hval, Option.bind_eq_bind, Option.bind_some,
    expect_append hw' (by decide : isWs 0x2C = false), ihs n r (by omega)]
  rfl

theorem reads_members (hw : Ws w) (hk : Chars k key) (hw₁ : Ws w₁) (hw₂ : Ws w₂)
    (hv : Derives (.value v) t) (ih : Reads (.value v) t) (hw' : Ws w') :
    Reads (.members [(key, v)]) (w ++ 0x22 :: (k ++ 0x22 :: (w₁ ++ 0x3A :: (w₂ ++ (t ++ w'))))) := by
  intro n r hn
  have hpos := derives_length_pos hv
  simp only [List.length_append, List.length_cons] at hn
  obtain ⟨n, rfl⟩ : ∃ m, n = m + 1 := ⟨n - 1, by omega⟩
  have hval := ih n (w' ++ 0x7D :: r) (by omega) (ws_stops hw' (by decide) r)
  have hskip := skipWs_value hw₂ hv (w' ++ 0x7D :: r)
  have hkey := chars_complete hk ((k ++ 0x22 :: (w₁ ++ 0x3A :: (w₂ ++ (t ++ (w' ++ 0x7D :: r))))).length + 1)
    (w₁ ++ 0x3A :: (w₂ ++ (t ++ (w' ++ 0x7D :: r)))) (by simp)
  simp only [List.append_assoc, List.cons_append]
  simp only [members, expect_append hw (by decide : isWs 0x22 = false), Option.bind_eq_bind, Option.bind_some,
    hkey, expect_append hw₁ (by decide : isWs 0x3A = false), hskip, hval,
    expect_ne hw' (by decide : isWs 0x7D = false) (by decide : (0x2C : UInt8) ≠ 0x7D),
    expect_append hw' (by decide : isWs 0x7D = false)]
  rfl

theorem reads_members_cons (hw : Ws w) (hk : Chars k key) (hw₁ : Ws w₁) (hw₂ : Ws w₂)
    (hv : Derives (.value v) t) (ih : Reads (.value v) t) (hw' : Ws w')
    (ihs : Reads (.members ms) rest) :
    Reads (.members ((key, v) :: ms))
      (w ++ 0x22 :: (k ++ 0x22 :: (w₁ ++ 0x3A :: (w₂ ++ (t ++ (w' ++ 0x2C :: rest)))))) := by
  intro n r hn
  have hpos := derives_length_pos hv
  simp only [List.length_append, List.length_cons] at hn
  obtain ⟨n, rfl⟩ : ∃ m, n = m + 1 := ⟨n - 1, by omega⟩
  have hval := ih n (w' ++ 0x2C :: (rest ++ 0x7D :: r)) (by omega) (ws_stops hw' (by decide) _)
  have hskip := skipWs_value hw₂ hv (w' ++ 0x2C :: (rest ++ 0x7D :: r))
  have hkey := chars_complete hk
    ((k ++ 0x22 :: (w₁ ++ 0x3A :: (w₂ ++ (t ++ (w' ++ 0x2C :: (rest ++ 0x7D :: r)))))).length + 1)
    (w₁ ++ 0x3A :: (w₂ ++ (t ++ (w' ++ 0x2C :: (rest ++ 0x7D :: r))))) (by simp)
  simp only [List.append_assoc, List.cons_append]
  simp only [members, expect_append hw (by decide : isWs 0x22 = false), Option.bind_eq_bind, Option.bind_some,
    hkey, expect_append hw₁ (by decide : isWs 0x3A = false), hskip, hval,
    expect_append hw' (by decide : isWs 0x2C = false), ihs n r (by omega)]
  rfl

end Cases

theorem derives_members_head {ms : List (Bytes × Json)} {t : Bytes} (h : Derives (.members ms) t) :
    ∃ w l, Ws w ∧ t = w ++ 0x22 :: l := by
  cases h with
  | member hw => exact ⟨_, _, hw, rfl⟩
  | members hw => exact ⟨_, _, hw, rfl⟩

theorem derives_elements_head {vs : List Json} {t : Bytes} (h : Derives (.elements vs) t) :
    ∃ w b l, Ws w ∧ isWs b = false ∧ b ≠ 0x5D ∧ t = w ++ b :: l := by
  cases h with
  | elem hw hv =>
    obtain ⟨b, l, rfl, hb, hne⟩ := derives_head hv
    exact ⟨_, b, _, hw, hb, hne, rfl⟩
  | elems hw hv =>
    obtain ⟨b, l, rfl, hb, hne⟩ := derives_head hv
    exact ⟨_, b, _, hw, hb, hne, rfl⟩

/-- Every derivation is read back, by induction on it. -/
theorem reads_of_derives {node : Node} {t : Bytes} (h : Derives node t) : Reads node t := by
  induction h with
  | null | true | false =>
    intro n r hn _
    obtain ⟨n, rfl⟩ : ∃ m, n = m + 1 := ⟨n - 1, by simp at hn; omega⟩
    simp [value, keyword]
  | num ht => exact reads_number ht
  | @str t s hs =>
    intro n r hn _
    obtain ⟨n, rfl⟩ : ∃ m, n = m + 1 := ⟨n - 1, by simp at hn; omega⟩
    have := chars_complete hs ((t ++ 0x22 :: r).length + 1) r (by simp)
    simp only [List.cons_append, List.append_assoc, List.nil_append, value, if_true, this]
    rfl
  | @arrNil w hw =>
    intro n r hn _
    obtain ⟨n, rfl⟩ : ∃ m, n = m + 1 := ⟨n - 1, by simp at hn; omega⟩
    simp [value, expect_append hw (by decide : isWs 0x5D = false)]
  | @arr t vs hd ih =>
    intro n r hn _
    obtain ⟨n, rfl⟩ : ∃ m, n = m + 1 := ⟨n - 1, by simp at hn; omega⟩
    have hel := ih n r (by simp at hn; omega)
    obtain ⟨w, b, l, hw, hb, hne, rfl⟩ := derives_elements_head hd
    have hex := expect_ne hw hb hne.symm (l ++ 0x5D :: r)
    simp only [List.append_assoc, List.cons_append, List.nil_append] at hel ⊢
    simp [value, hex, hel]
  | @objNil w hw =>
    intro n r hn _
    obtain ⟨n, rfl⟩ : ∃ m, n = m + 1 := ⟨n - 1, by simp at hn; omega⟩
    simp [value, expect_append hw (by decide : isWs 0x7D = false)]
  | @obj t ms hd ih =>
    intro n r hn _
    obtain ⟨n, rfl⟩ : ∃ m, n = m + 1 := ⟨n - 1, by simp at hn; omega⟩
    have hme := ih n r (by simp at hn; omega)
    obtain ⟨w, l, hw, rfl⟩ := derives_members_head hd
    have hex := expect_ne hw (by decide : isWs 0x22 = false) (by decide : (0x7D : UInt8) ≠ 0x22) (l ++ 0x7D :: r)
    simp only [List.append_assoc, List.cons_append, List.nil_append] at hme ⊢
    simp [value, hex, hme]
  | elem hw hv hw' ih => exact reads_elements hw hv ih hw'
  | elems hw hv hw' _ ih ihs => exact reads_elements_cons hw hv ih hw' ihs
  | member hw hk hw₁ hw₂ hv hw' ih => exact reads_members hw hk hw₁ hw₂ hv ih hw'
  | members hw hk hw₁ hw₂ hv hw' _ ih ihs => exact reads_members_cons hw hk hw₁ hw₂ hv ih hw' ihs

theorem parse_complete {v : Json} {l : Bytes} (h : Text v l) : parse l = some v := by
  obtain ⟨w, t, w', rfl, hw, ht, hw'⟩ := h
  obtain ⟨b, t', rfl, hb, -⟩ := derives_head ht
  have hstops : Stops w' := by
    intro c hc
    cases w' with
    | nil => simp at hc
    | cons d w' => exact ws_stops (w := []) (by simp [Ws]) (by
        have hd := hw' d (by simp)
        simp only [isWs, Bool.or_eq_true, beq_iff_eq] at hd
        rcases hd with ((rfl | rfl) | rfl) | rfl <;> decide) w' c hc
  have hskip : skipWs (w ++ (b :: t' ++ w')) = b :: t' ++ w' := by
    rw [skipWs_append hw, List.cons_append, skipWs_cons hb]
  have hv := reads_of_derives ht (w ++ (b :: t' ++ w')).length w' (by simp; omega) hstops
  rw [parse, hskip, hv]
  simp [skipWs_eq_nil hw']

end Json
end Wire
