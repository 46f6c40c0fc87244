import Mathlib.Data.List.TakeWhile
import IoJournal.Wire.Bytes

/-!
# Wire.Framing

Octet counting, the framing of syslog over a stream: a message goes out as its length in decimal, a
space and its octets.

* `frame` writes a message, `decodeFrame` reads one back from the front of a stream, `decode` reads
  as many as there are.
* A stream of whole frames followed by a part of another one decodes to the messages of the whole
  ones (`decode_frames`). A receiver has no way to find the start of the next frame behind a part.
-/

namespace Wire

def frame (message : Bytes) : Bytes := numeral message.length ++ 0x20 :: message

/-- A length without leading zeros, a space, and that many octets. -/
def decodeFrame (stream : Bytes) : Option (Bytes × Bytes) :=
  let digits := stream.takeWhile isDigit
  match stream.dropWhile isDigit with
  | 0x20 :: rest =>
    if digits = [] ∨ digits.head? = some 48 ∨ rest.length < decimal digits then none
    else some (rest.take (decimal digits), rest.drop (decimal digits))
  | _ => none

def decodeFrames : Nat → Bytes → List Bytes
  | 0, _ => []
  | fuel + 1, stream =>
    match decodeFrame stream with
    | none => []
    | some (message, rest) => message :: decodeFrames fuel rest

def decode (stream : Bytes) : List Bytes := decodeFrames stream.length stream

theorem decodeFrame_length {stream message rest : Bytes} (h : decodeFrame stream = some (message, rest)) :
    rest.length < stream.length := by
  simp only [decodeFrame] at h
  split at h
  · rename_i rest' hdrop
    split at h
    · cases h
    · cases h
      have hle := (List.dropWhile_suffix isDigit (l := stream)).length_le
      rw [hdrop, List.length_cons] at hle
      rw [List.length_drop]
      omega
  · cases h

theorem decodeFrames_enough {fuel : Nat} {stream : Bytes} (h : stream.length ≤ fuel) :
    decodeFrames fuel stream = decode stream := by
  induction fuel using Nat.strong_induction_on generalizing stream with
  | _ fuel ih =>
    cases fuel with
    | zero =>
      rw [List.length_eq_zero_iff.1 (Nat.le_zero.1 h)]
      rfl
    | succ fuel =>
      cases hlen : stream.length with
      | zero =>
        rw [List.length_eq_zero_iff.1 hlen]
        rfl
      | succ n =>
        rw [decode, hlen, decodeFrames, decodeFrames]
        split
        · rfl
        · rename_i message rest hframe
          have hshort := decodeFrame_length hframe
          rw [ih fuel (by omega) (by omega)]
          by_cases hn : n < fuel + 1
          · rw [ih n hn (by omega)]
          · omega

/-! ## Frames -/

theorem takeWhile_numeral (n : Nat) (rest : Bytes) :
    (numeral n ++ 0x20 :: rest).takeWhile isDigit = numeral n ∧
      (numeral n ++ 0x20 :: rest).dropWhile isDigit = 0x20 :: rest := by
  have hdigits := numeral_isDigit n
  rw [List.takeWhile_append_of_pos hdigits, List.dropWhile_append_of_pos hdigits,
    List.takeWhile_cons_of_neg (by decide), List.dropWhile_cons_of_neg (by decide), List.append_nil]
  exact ⟨rfl, rfl⟩

theorem decodeFrame_frame {message : Bytes} (hne : message ≠ []) (rest : Bytes) :
    decodeFrame (frame message ++ rest) = some (message, rest) := by
  have hlen : message.length ≠ 0 := by simpa using hne
  have hzero : (numeral message.length).head? ≠ some 48 := by
    intro hhead
    obtain ⟨ds, hds⟩ := List.head?_eq_some_iff.1 hhead
    exact numeral_head_ne_zero hlen hds
  rw [frame, List.append_assoc, List.cons_append]
  simp only [decodeFrame, (takeWhile_numeral message.length (message ++ rest)).1,
    (takeWhile_numeral message.length (message ++ rest)).2, decimal_numeral]
  rw [if_neg (by
    rw [not_or, not_or]
    exact ⟨numeral_ne_nil _, hzero, by simp⟩), List.take_left, List.drop_left]

theorem decodeFrame_digits {stream : Bytes} (h : ∀ b ∈ stream, isDigit b = true) : decodeFrame stream = none := by
  simp only [decodeFrame, List.dropWhile_eq_nil_iff.2 h]

theorem decodeFrame_part {message part : Bytes} (hpart : part <+: frame message) (hne : part ≠ frame message) :
    decodeFrame part = none := by
  obtain ⟨missing, hmissing⟩ := hpart
  rw [frame, List.append_eq_append_iff] at hmissing
  rcases hmissing with ⟨as, has, -⟩ | ⟨bs, hbs, hrest⟩
  · -- the part ends within the length
    exact decodeFrame_digits fun b hb =>
      numeral_isDigit message.length b (by rw [has]; exact List.mem_append_left _ hb)
  · cases bs with
    | nil =>
      rw [hbs, List.append_nil]
      exact decodeFrame_digits (numeral_isDigit message.length)
    | cons b bs =>
      rw [List.cons_append, List.cons.injEq] at hrest
      obtain ⟨rfl, hmessage⟩ := hrest
      have hshort : bs.length < message.length := by
        have hmissing : missing ≠ [] := by
          rintro rfl
          rw [List.append_nil] at hmessage
          exact hne (by rw [hbs, frame, hmessage])
        have := List.length_pos_iff.2 hmissing
        rw [hmessage, List.length_append]
        omega
      simp only [decodeFrame, hbs, (takeWhile_numeral message.length bs).1, (takeWhile_numeral message.length bs).2,
        decimal_numeral]
      rw [if_pos (.inr (.inr hshort))]

theorem decode_frames {messages : List Bytes} (hne : ∀ m ∈ messages, m ≠ []) {part : Bytes}
    (hpart : decodeFrame part = none) : decode (messages.flatMap frame ++ part) = messages := by
  induction messages with
  | nil =>
    rw [List.flatMap_nil, List.nil_append, decode]
    cases part.length with
    | zero => rfl
    | succ n => rw [decodeFrames, hpart]
  | cons m ms ih =>
    have hm := hne m List.mem_cons_self
    have hrest := ih fun q hq => hne q (List.mem_cons_of_mem _ hq)
    have hlen : 0 < (frame m).length := by simp [frame]
    rw [List.flatMap_cons, List.append_assoc, ← decodeFrames_enough (le_refl _)]
    rw [List.length_append]
    obtain ⟨k, hk⟩ : ∃ k, (frame m).length + (ms.flatMap frame ++ part).length = k + 1 :=
      Nat.exists_eq_succ_of_ne_zero (by omega)
    rw [hk, decodeFrames, decodeFrame_frame hm]
    simp only
    rw [decodeFrames_enough (by omega), hrest]

end Wire
