import IoJournal.NetSinks

/-!
# IoJournal.ConsoleSink

The write loop of `sinks/ij_console_sink.c` against an endless sequence of `writev` results.

* `consoleSinkWriteWithin` runs the loop for a bounded number of rounds and says when it is not
  done by then; with `consoleSinkWrite` it agrees as soon as it is (`consoleSinkWrite_of_within`).
* The loop keeps its place in two variables. `offset + remaining = payload_len + 1` links them: what
  a round offers is what `remaining` counts, so a partial write always ends inside the payload.
* `consoleSinkWrite_octets`: the loop ends, and standard output has the payload and one LF, or a
  proper prefix of them after an error.
-/

namespace IoJournal

open Wire Posix

def stdoutOctets (effects : List Effect) : Bytes :=
  effects.flatMap fun
    | .stdout octets => octets
    | _ => []

@[simp] theorem stdoutOctets_nil : stdoutOctets [] = [] := rfl

@[simp] theorem stdoutOctets_stdout (octets : Bytes) (effects : List Effect) :
    stdoutOctets (.stdout octets :: effects) = octets ++ stdoutOctets effects := rfl

/-- The loop of `ij_console_sink_write` for at most `fuel` rounds; `none` when it has not returned by
then. Round `k` asks for `writev k`. -/
def consoleSinkRounds (payload : Bytes) :
    (fuel : Nat) → (writev : Nat → Int) → (offset remaining : Nat) → Option (Status × List Effect)
  | 0, _, _, _ => none
  | fuel + 1, writev, offset, remaining =>
    if remaining = 0 then some (.ok, [])
    else
      let written := writev 0
      if written ≤ 0 then some (.sinkError, [])
      else
        let effect := Effect.stdout ((payload.drop offset ++ [0x0A]).take written.toNat)
        if remaining ≤ written.toNat then some (.ok, [effect])
        else
          (consoleSinkRounds payload fuel (fun k => writev (k + 1))
            (if offset < payload.length then offset + min written.toNat (payload.length - offset) else offset)
            (remaining - written.toNat)).map fun r => (r.1, effect :: r.2)

/-- `ij_console_sink_write` for at most `fuel` rounds. -/
def consoleSinkWriteWithin (fuel : Nat) (writev : Nat → Int) (payload : Bytes) : Option (Status × List Effect) :=
  if payload.length = 0 then some (.invalidArgument, [])
  else consoleSinkRounds payload fuel writev 0 (payload.length + 1)

/-! ## The rounds -/

theorem consoleSinkLoop_of_rounds {payload : Bytes} {fuel : Nat} :
    ∀ {writev : Nat → Int} {offset remaining : Nat} {r : Status × List Effect},
      consoleSinkRounds payload fuel writev offset remaining = some r →
      consoleSinkLoop payload ((List.range fuel).map writev) offset remaining = r := by
  induction fuel with
  | zero =>
    intro writev offset remaining r h
    cases h
  | succ fuel ih =>
    intro writev offset remaining r h
    have hanswers : (List.range (fuel + 1)).map writev =
        writev 0 :: (List.range fuel).map fun k => writev (k + 1) := by
      rw [List.range_succ_eq_map, List.map_cons, List.map_map]
      rfl
    rw [hanswers, consoleSinkLoop]
    simp only [consoleSinkRounds] at h
    split at h
    · rw [if_pos ‹_›]
      exact Option.some.inj h
    · rw [if_neg ‹_›]
      split at h
      · rw [if_pos ‹_›]
        exact Option.some.inj h
      · rw [if_neg ‹_›]
        split at h
        · simp only [if_pos ‹_ ≤ (writev 0).toNat›]
          exact Option.some.inj h
        · obtain ⟨r', hr', rfl⟩ := Option.map_eq_some_iff.1 h
          simp only [if_neg ‹¬ _ ≤ (writev 0).toNat›, ih hr']

theorem consoleSinkRounds_succ {payload : Bytes} {fuel : Nat} :
    ∀ {writev : Nat → Int} {offset remaining : Nat} {r : Status × List Effect},
      consoleSinkRounds payload fuel writev offset remaining = some r →
      consoleSinkRounds payload (fuel + 1) writev offset remaining = some r := by
  induction fuel with
  | zero =>
    intro writev offset remaining r h
    cases h
  | succ fuel ih =>
    intro writev offset remaining r h
    rw [consoleSinkRounds] at h ⊢
    split at h
    · rw [if_pos ‹_›]
      exact h
    · rw [if_neg ‹_›]
      simp only at h ⊢
      split at h
      · rw [if_pos ‹_›]
        exact h
      · rw [if_neg ‹_›]
        split at h
        · rw [if_pos ‹_›]
          exact h
        · obtain ⟨r', hr', rfl⟩ := Option.map_eq_some_iff.1 h
          rw [if_neg ‹_›, ih hr']
          rfl

theorem consoleSinkRounds_returns (payload : Bytes) (fuel : Nat) :
    ∀ (writev : Nat → Int) (offset remaining : Nat), 1 ≤ remaining → remaining ≤ fuel →
      ∃ r, consoleSinkRounds payload fuel writev offset remaining = some r := by
  induction fuel with
  | zero =>
    intro writev offset remaining hrem hfuel
    omega
  | succ fuel ih =>
    intro writev offset remaining hrem hfuel
    simp only [consoleSinkRounds]
    split
    · exact ⟨_, rfl⟩
    · split
      · exact ⟨_, rfl⟩
      · split
        · exact ⟨_, rfl⟩
        · obtain ⟨r, hr⟩ := ih (fun k => writev (k + 1))
            (if offset < payload.length then offset + min (writev 0).toNat (payload.length - offset) else offset)
            (remaining - (writev 0).toNat) (by omega) (by omega)
          rw [hr]
          exact ⟨_, rfl⟩

/-! ## The octets -/

/-- From `offset` on, the loop puts out the rest of the payload and the LF, or stops short of it. -/
theorem consoleSinkLoop_octets (payload : Bytes) (answers : List Int) :
    ∀ offset remaining : Nat, offset + remaining = payload.length + 1 → 1 ≤ remaining →
      ((consoleSinkLoop payload answers offset remaining).1 = .ok ∧
          stdoutOctets (consoleSinkLoop payload answers offset remaining).2 = payload.drop offset ++ [0x0A]) ∨
        ((consoleSinkLoop payload answers offset remaining).1 = .sinkError ∧
          ∃ rest, rest ≠ [] ∧
            stdoutOctets (consoleSinkLoop payload answers offset remaining).2 ++ rest =
              payload.drop offset ++ [0x0A]) := by
  induction answers with
  | nil =>
    intro offset remaining _ hrem
    rw [consoleSinkLoop, if_neg (by omega)]
    exact .inr ⟨rfl, _, by simp, rfl⟩
  | cons written answers ih =>
    intro offset remaining hinv hrem
    have hlen : (payload.drop offset ++ [0x0A]).length = remaining := by
      rw [List.length_append, List.length_drop, List.length_singleton]
      omega
    rw [consoleSinkLoop, if_neg (by omega)]
    split
    · exact .inr ⟨rfl, _, by simp, rfl⟩
    · simp only
      split
      · rename_i hall
        left
        rw [stdoutOctets_stdout, stdoutOctets_nil, List.append_nil, List.take_of_length_le (by omega)]
        exact ⟨rfl, rfl⟩
      · -- a partial write leaves the LF: it ends inside the payload, and `offset` moves by all of it
        rename_i hpositive hpart
        have hoffset : offset < payload.length := by omega
        have hmin : min written.toNat (payload.length - offset) = written.toNat := by omega
        have hsplit : payload.drop offset ++ [0x0A] = (payload.drop offset ++ [0x0A]).take written.toNat ++
            (payload.drop (offset + written.toNat) ++ [0x0A]) := by
          rw [List.take_append_of_le_length (by rw [List.length_drop]; omega), ← List.append_assoc,
            ← List.drop_drop, List.take_append_drop]
        rw [if_pos hoffset, hmin]
        obtain ⟨hok, hout⟩ | ⟨herr, rest, hrest, hout⟩ :=
          ih (offset + written.toNat) (remaining - written.toNat) (by omega) (by omega)
        · left
          rw [stdoutOctets_stdout, hout, ← hsplit]
          exact ⟨hok, rfl⟩
        · right
          refine ⟨herr, rest, hrest, ?_⟩
          rw [stdoutOctets_stdout, List.append_assoc, hout, ← hsplit]

theorem consoleSinkWrite_spec {payload : Bytes} (h : 1 ≤ payload.length) (answers : List Int) :
    ((consoleSinkWrite answers payload).1 = .ok ∧
        stdoutOctets (consoleSinkWrite answers payload).2 = payload ++ [0x0A]) ∨
      ((consoleSinkWrite answers payload).1 = .sinkError ∧
        stdoutOctets (consoleSinkWrite answers payload).2 <+: payload ++ [0x0A] ∧
        stdoutOctets (consoleSinkWrite answers payload).2 ≠ payload ++ [0x0A]) := by
  rw [consoleSinkWrite, if_neg (by omega)]
  obtain hok | ⟨herr, rest, hrest, hout⟩ :=
    consoleSinkLoop_octets payload answers 0 (payload.length + 1) (by omega) (by omega)
  · exact .inl hok
  · right
    rw [List.drop_zero] at hout
    refine ⟨herr, ⟨rest, hout⟩, ?_⟩
    intro heq
    rw [heq] at hout
    exact hrest (List.append_right_eq_self.1 hout)

theorem consoleSinkWrite_of_within {fuel : Nat} {writev : Nat → Int} {payload : Bytes} {r : Status × List Effect}
    (h : consoleSinkWriteWithin fuel writev payload = some r) :
    consoleSinkWrite ((List.range fuel).map writev) payload = r := by
  unfold consoleSinkWriteWithin at h
  unfold consoleSinkWrite
  split at h
  · rw [if_pos ‹_›]
    exact Option.some.inj h
  · rw [if_neg ‹_›]
    exact consoleSinkLoop_of_rounds h

/-- Whatever `writev` answers, round after round, the write returns after at most one call for each
octet. Then standard output has exactly the payload and one LF, or, after an error, a proper prefix
of them: no octet is left out and none goes out twice. -/
theorem consoleSinkWrite_octets {payload : Bytes} (h : 1 ≤ payload.length) (writev : Nat → Int) :
    ∃ r, (∀ fuel, payload.length + 1 ≤ fuel → consoleSinkWriteWithin fuel writev payload = some r ∧
        consoleSinkWrite ((List.range fuel).map writev) payload = r) ∧
      (r.1 = .ok ∧ stdoutOctets r.2 = payload ++ [0x0A] ∨
        r.1 = .sinkError ∧ stdoutOctets r.2 <+: payload ++ [0x0A] ∧ stdoutOctets r.2 ≠ payload ++ [0x0A]) := by
  obtain ⟨r, hr⟩ := consoleSinkRounds_returns payload (payload.length + 1) writev 0 (payload.length + 1) (by omega)
    (Nat.le_refl _)
  have hwithin : ∀ fuel, payload.length + 1 ≤ fuel → consoleSinkWriteWithin fuel writev payload = some r := by
    intro fuel hfuel
    rw [consoleSinkWriteWithin, if_neg (by omega)]
    induction fuel, hfuel using Nat.le_induction with
    | base => exact hr
    | succ fuel _ ih => exact consoleSinkRounds_succ ih
  have hspec := consoleSinkWrite_spec h ((List.range (payload.length + 1)).map writev)
  rw [consoleSinkWrite_of_within (hwithin _ (Nat.le_refl _))] at hspec
  exact ⟨r, fun fuel hfuel => ⟨hwithin fuel hfuel, consoleSinkWrite_of_within (hwithin fuel hfuel)⟩, hspec⟩

/-- `hi` in three calls: the first ends inside the payload, the second at its end, the third sends the LF. -/
theorem consoleSinkWrite_octets_pieces :
    1 ≤ (ascii "hi").length ∧
      consoleSinkWriteWithin 3 (fun _ => 1) (ascii "hi") =
        some (.ok, [.stdout (ascii "h"), .stdout (ascii "i"), .stdout [0x0A]]) ∧
      ∃ r, consoleSinkWriteWithin 3 (fun _ => 1) (ascii "hi") = some r ∧
        (r.1 = .ok ∧ stdoutOctets r.2 = ascii "hi" ++ [0x0A] ∨
          r.1 = .sinkError ∧ stdoutOctets r.2 <+: ascii "hi" ++ [0x0A] ∧ stdoutOctets r.2 ≠ ascii "hi" ++ [0x0A]) := by
  refine ⟨by decide, by decide, ?_⟩
  obtain ⟨r, hruns, hout⟩ := consoleSinkWrite_octets (show 1 ≤ (ascii "hi").length by decide) (fun _ => 1)
  exact ⟨r, (hruns 3 (by decide)).1, hout⟩

end IoJournal
