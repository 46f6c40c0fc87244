import IoJournal.Redact
import Mathlib.Data.List.Infix

/-!
# IoJournal.Denylist

The key matcher against the denylist of `docs/rfc/REDACTION_POLICY.md`.

The matcher is a switch on the length and on the first letter, entered again for every tail of a
dotted key. It does not see the case of a key (`redactMatchKnownKey_lower`), so that what it accepts
can be read off the words themselves.
-/

namespace IoJournal

open Wire

def denylist : List Bytes :=
  [ascii "password", ascii "passwd", ascii "passphrase",
    ascii "secret", ascii "client_secret",
    ascii "token", ascii "access_token", ascii "refresh_token", ascii "id_token",
    ascii "api_key", ascii "apikey", ascii "authorization",
    ascii "session_id", ascii "session", ascii "cookie", ascii "set_cookie",
    ascii "private_key", ascii "secret_key", ascii "signing_key"]

def asciiLower (key : Bytes) : Bytes := key.map tolower

/-! ## The kernels -/

theorem tolower_tolower (c : UInt8) : tolower (tolower c) = tolower c :=
  forall_byte (P := fun c => tolower (tolower c) = tolower c) (by decide +kernel) c

theorem tolower_or (c : UInt8) : tolower c ||| 0x20 = c ||| 0x20 :=
  forall_byte (P := fun c => tolower c ||| 0x20 = c ||| 0x20) (by decide +kernel) c

theorem redactCaseEqualLoop_iff (lhs rhs : Bytes) (h : lhs.length = rhs.length) :
    redactCaseEqualLoop lhs rhs = true ↔ asciiLower lhs = asciiLower rhs := by
  induction lhs generalizing rhs with
  | nil =>
    cases rhs with
    | nil => simp [redactCaseEqualLoop]
    | cons b rhs => cases h
  | cons a lhs ih =>
    cases rhs with
    | nil => cases h
    | cons b rhs =>
      have hlen : lhs.length = rhs.length := Nat.succ.inj h
      rw [redactCaseEqualLoop, asciiLower, asciiLower, List.map_cons, List.map_cons, List.cons.injEq]
      split
      · rename_i hne
        simp [hne]
      · rename_i heq
        rw [not_not] at heq
        rw [ih rhs hlen]
        exact ⟨fun h => ⟨heq, h⟩, fun h => h.2⟩

theorem redactCaseEqualScalar_iff (lhs rhs : Bytes) :
    redactCaseEqualScalar lhs rhs = true ↔ asciiLower lhs = asciiLower rhs := by
  rw [redactCaseEqualScalar]
  split
  · rename_i hlen
    refine ⟨fun h => (by cases h), fun h => absurd ?_ hlen⟩
    simpa [asciiLower] using congrArg List.length h
  · rename_i hlen
    exact redactCaseEqualLoop_iff lhs rhs (not_not.1 hlen)

theorem redactHasDotScalar_iff (text : Bytes) : redactHasDotScalar text = true ↔ byteOf '.' ∈ text := by
  induction text with
  | nil => simp [redactHasDotScalar]
  | cons c text ih =>
    rw [redactHasDotScalar, List.mem_cons]
    split
    · rename_i hdot
      simp [hdot]
    · rename_i hdot
      rw [ih]
      exact ⟨.inr, fun h => h.resolve_left fun heq => hdot heq.symm⟩

/-! ## Known keys -/

theorem asciiLower_asciiLower (key : Bytes) : asciiLower (asciiLower key) = asciiLower key := by
  simp only [asciiLower, List.map_map, Function.comp_def, tolower_tolower]

theorem redactCaseEqualScalar_lower (key word : Bytes) :
    redactCaseEqualScalar (asciiLower key) word = redactCaseEqualScalar key word := by
  rw [Bool.eq_iff_iff, redactCaseEqualScalar_iff, redactCaseEqualScalar_iff, asciiLower_asciiLower]

theorem redactMatchKnownKey_lower (key : Bytes) : redactMatchKnownKey (asciiLower key) = redactMatchKnownKey key := by
  have hlen : (asciiLower key).length = key.length := List.length_map _
  have hfirst : (asciiLower key).getD 0 0 ||| 0x20 = key.getD 0 0 ||| 0x20 := by
    cases key with
    | nil => rfl
    | cons c key => exact tolower_or c
  unfold redactMatchKnownKey
  simp only [redactCaseEqualScalar_lower, hlen, hfirst]

theorem denylist_lower (word : Bytes) (h : word ∈ denylist) : asciiLower word = word := by
  have hall : denylist.all (fun word => asciiLower word == word) = true := by decide +kernel
  exact eq_of_beq (List.all_eq_true.1 hall word h)

theorem denylist_known (word : Bytes) (h : word ∈ denylist) : redactMatchKnownKey word = true := by
  have hall : denylist.all redactMatchKnownKey = true := by decide +kernel
  exact List.all_eq_true.1 hall word h

theorem lower_mem_of_caseEqual {key word : Bytes} (h : redactCaseEqualScalar key word = true)
    (hword : word ∈ denylist) : asciiLower key ∈ denylist := by
  rw [redactCaseEqualScalar_iff, denylist_lower word hword] at h
  rw [h]
  exact hword

theorem redactMatchKnownKey_iff (key : Bytes) : redactMatchKnownKey key = true ↔ asciiLower key ∈ denylist := by
  constructor
  · intro h
    unfold redactMatchKnownKey at h
    dsimp only at h
    -- every leaf of the switch compares with a word of the list
    split at h
    all_goals repeat' split at h
    all_goals first
      | exact lower_mem_of_caseEqual h (by simp [denylist])
      | cases h
      | rw [Bool.or_eq_true, Bool.or_eq_true] at h
        rcases h with (h | h) | h
        all_goals exact lower_mem_of_caseEqual h (by simp [denylist])
  · intro h
    rw [← redactMatchKnownKey_lower]
    exact denylist_known _ h

/-! ## Dotted keys -/

theorem redactMatchTail_iff (key : Bytes) (n : Nat) :
    redactMatchTail key n = true ↔ n < key.length ∧ ∃ word ∈ denylist, word.length = n ∧ word <:+ asciiLower key := by
  have hlower : asciiLower (key.drop (key.length - n)) = (asciiLower key).drop (key.length - n) := List.map_drop
  have hlen : (asciiLower key).length = key.length := List.length_map _
  rw [redactMatchTail, Bool.and_eq_true, decide_eq_true_eq, redactMatchKnownKey_iff, hlower]
  refine and_congr_right fun hn => ⟨fun h => ⟨_, h, ?_, List.drop_suffix _ _⟩, ?_⟩
  · rw [List.length_drop, hlen]
    omega
  · rintro ⟨word, hword, rfl, hsuffix⟩
    rw [← hlen, ← List.suffix_iff_eq_drop.1 hsuffix]
    exact hword

theorem denylist_lengths (word : Bytes) (h : word ∈ denylist) : word.length ∈ [13, 12, 11, 10, 8, 7, 6, 5] := by
  have hall : denylist.all (fun word => [13, 12, 11, 10, 8, 7, 6, 5].contains word.length) = true := by decide +kernel
  exact List.contains_iff_mem.1 (List.all_eq_true.1 hall word h)

theorem redactMatchSuffix_iff (key : Bytes) :
    redactMatchSuffix key = true ↔ ∃ word ∈ denylist, word.length < key.length ∧ word <:+ asciiLower key := by
  have htails : redactMatchSuffix key = true ↔ ∃ n ∈ [13, 12, 11, 10, 8, 7, 6, 5], redactMatchTail key n = true := by
    simp [redactMatchSuffix, or_assoc]
  rw [htails]
  constructor
  · rintro ⟨n, -, h⟩
    obtain ⟨hn, word, hword, rfl, hsuffix⟩ := (redactMatchTail_iff key n).1 h
    exact ⟨word, hword, hn, hsuffix⟩
  · rintro ⟨word, hword, hlt, hsuffix⟩
    exact ⟨_, denylist_lengths word hword, (redactMatchTail_iff key _).2 ⟨hlt, word, hword, rfl, hsuffix⟩⟩

/-- A key is redacted when it is a denylisted word, in any case, or a dotted key that ends in one. -/
theorem keyShouldRedactN_iff (key : Bytes) :
    keyShouldRedactN key = true ↔
      asciiLower key ∈ denylist ∨ byteOf '.' ∈ key ∧ ∃ word ∈ denylist, word <:+ asciiLower key := by
  rw [keyShouldRedactN, Bool.or_eq_true, Bool.and_eq_true, redactMatchKnownKey_iff, redactHasDotScalar_iff,
    redactMatchSuffix_iff]
  constructor
  · rintro (h | ⟨hdot, word, hword, -, hsuffix⟩)
    · exact .inl h
    · exact .inr ⟨hdot, word, hword, hsuffix⟩
  · rintro (h | ⟨hdot, word, hword, hsuffix⟩)
    · exact .inl h
    · have hlen : (asciiLower key).length = key.length := List.length_map _
      rcases Nat.lt_or_ge word.length key.length with hlt | hge
      · exact .inr ⟨hdot, word, hword, hlt, hsuffix⟩
      · -- a suffix as long as the key is the key
        left
        rw [← hsuffix.eq_of_length_le (by omega)]
        exact hword

end IoJournal
