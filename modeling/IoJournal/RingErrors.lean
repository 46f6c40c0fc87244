import IoJournal.Ring

/-!
# IoJournal.RingErrors

The error paths of the ring: calls whose mutex cannot be locked or unlocked.

A call that fails to lock leaves everything alone, and so does a call on a full or an empty ring. But
a call that moved an event and then fails to unlock reports an error as well: the event is queued and
gone from its producer, or taken from the ring and not delivered. `ringCall_atomic_iff` says that
this is the only way an error is not atomic.
-/

namespace IoJournal

open Wire

/-- A call on the ring, with the answers of the allocator and of the mutex. -/
inductive RingAct where
  | init (memory : Bool) (capacity : Nat)
  | enqueue (lock unlock : Bool) (event : EventCopy)
  | tryDequeue (lock unlock : Bool)
  | destroy (lock : Bool)

def Ring.act (ring : Ring) : RingAct → Ring
  | .init memory capacity => ringInitialise memory ring capacity
  | .enqueue lock unlock event => (ringEnqueue lock unlock ring event).2.1
  | .tryDequeue lock unlock => (ringTryDequeue lock unlock ring).2.1
  | .destroy lock => (ringDestroy lock ring).2

/-- A call that reports an error has moved no event: the queue is as before, and so is the event of the
caller. -/
def Ring.Atomic (ring : Ring) : RingAct → Prop
  | .enqueue lock unlock event =>
    (ringEnqueue lock unlock ring event).1 ≠ .ok →
      (ringEnqueue lock unlock ring event).2.1.contents = ring.contents ∧
        (ringEnqueue lock unlock ring event).2.2 = event
  | .tryDequeue lock unlock =>
    (ringTryDequeue lock unlock ring).1 = false →
      (ringTryDequeue lock unlock ring).2.1.contents = ring.contents
  | _ => True

/-- The mutex is released, or the call has nothing to move: it did not get the mutex, or the ring is full
for a producer or empty for the consumer. -/
def Ring.Released (ring : Ring) : RingAct → Prop
  | .enqueue lock unlock _ => unlock = true ∨ lock = false ∨ ring.capacity ≤ ring.count
  | .tryDequeue lock unlock => unlock = true ∨ lock = false ∨ ring.count = 0
  | _ => True

/-- A ring that was not initialised or was destroyed, or one that holds a queue. -/
def Ring.Sound (ring : Ring) : Prop := ring = .zero ∨ ∃ q, ring.Holds q

/-! ## The unlock answer changes only the report -/

theorem ringEnqueue_unlock (unlock : Bool) (ring : Ring) (event : EventCopy) :
    (ringEnqueue true unlock ring event).2 = (ringEnqueue true true ring event).2 := by
  unfold ringEnqueue
  split
  · rfl
  · simp only [Bool.not_true, Bool.false_eq_true, if_false]
    split <;> rfl

theorem ringTryDequeue_unlock (unlock : Bool) (ring : Ring) :
    (ringTryDequeue true unlock ring).2 = (ringTryDequeue true true ring).2 := by
  unfold ringTryDequeue
  split
  · rfl
  · simp only [Bool.not_true, Bool.false_eq_true, if_false]
    split <;> rfl

theorem ringEnqueue_zero (lock unlock : Bool) (event : EventCopy) :
    ringEnqueue lock unlock .zero event = (.invalidArgument, .zero, event) := rfl

theorem ringTryDequeue_zero (lock unlock : Bool) : ringTryDequeue lock unlock .zero = (false, .zero, none) := rfl

section Held

variable {ring : Ring} {q : List EventCopy}

theorem ringEnqueue_unlocked (h : ring.Holds q) (unlock : Bool) (event : EventCopy) :
    ringEnqueue false unlock ring event = (.internalError, ring, event) := by
  simp only [ringEnqueue, if_neg h.slots_ne, Bool.not_false, if_true]

theorem ringTryDequeue_unlocked (h : ring.Holds q) (unlock : Bool) :
    ringTryDequeue false unlock ring = (false, ring, none) := by
  simp only [ringTryDequeue, if_neg h.slots_ne, Bool.not_false, if_true]

theorem ringEnqueue_not_ok (ring : Ring) (event : EventCopy) : (ringEnqueue true false ring event).1 ≠ .ok := by
  unfold ringEnqueue
  split
  · simp
  · simp only [Bool.not_true, Bool.false_eq_true, if_false, Bool.not_false, if_true]
    split <;> simp

theorem ringTryDequeue_not_found (ring : Ring) : (ringTryDequeue true false ring).1 = false := by
  unfold ringTryDequeue
  split
  · rfl
  · simp only [Bool.not_true, Bool.false_eq_true, if_false]
    split <;> rfl

/-! ## One call -/

theorem Ring.Holds.enqueue_sound (h : ring.Holds q) (lock unlock : Bool) (event : EventCopy) :
    (ringEnqueue lock unlock ring event).2.1.Sound := by
  cases lock with
  | false =>
    rw [ringEnqueue_unlocked h]
    exact .inr ⟨q, h⟩
  | true =>
    rw [ringEnqueue_unlock]
    by_cases hroom : q.length < ring.capacity
    · rw [ringEnqueue_room h hroom]
      exact .inr ⟨_, h.pushed hroom event⟩
    · have hbound := h.bound
      rw [ringEnqueue_full h (by omega)]
      exact .inr ⟨q, { h with }⟩

theorem Ring.Holds.tryDequeue_sound (h : ring.Holds q) (lock unlock : Bool) :
    (ringTryDequeue lock unlock ring).2.1.Sound := by
  cases lock with
  | false =>
    rw [ringTryDequeue_unlocked h]
    exact .inr ⟨q, h⟩
  | true =>
    rw [ringTryDequeue_unlock]
    cases q with
    | nil =>
      rw [ringTryDequeue_empty h]
      exact .inr ⟨[], h⟩
    | cons oldest rest =>
      rw [ringTryDequeue_some h]
      exact .inr ⟨rest, h.popped⟩

end Held

theorem ringInitialise_sound (memory : Bool) (capacity : Nat) {ring : Ring} (h : ring.Sound) :
    (ringInitialise memory ring capacity).Sound := by
  by_cases hok : ringInit memory capacity = .ok
  · exact .inr ⟨[], ringInitialise_holds hok ring⟩
  · unfold ringInitialise
    split
    · exact h
    · contradiction
    · exact .inl rfl

theorem ringDestroy_sound (lock : Bool) {ring : Ring} (h : ring.Sound) : (ringDestroy lock ring).2.Sound := by
  unfold ringDestroy
  split
  · exact h
  · split
    · exact .inl rfl
    · exact .inl rfl

theorem Ring.Sound.act {ring : Ring} (h : ring.Sound) (act : RingAct) : (ring.act act).Sound := by
  cases act with
  | init memory capacity => exact ringInitialise_sound memory capacity h
  | destroy lock => exact ringDestroy_sound lock h
  | enqueue lock unlock event =>
    obtain rfl | ⟨q, hq⟩ := h
    · exact .inl rfl
    · exact hq.enqueue_sound lock unlock event
  | tryDequeue lock unlock =>
    obtain rfl | ⟨q, hq⟩ := h
    · exact .inl rfl
    · exact hq.tryDequeue_sound lock unlock

theorem sound_run (acts : List RingAct) : (Machine.run Ring.act .zero acts).Sound :=
  Machine.run_invariant Ring.Sound (fun _ act h => h.act act) (.inl rfl) acts

section Atomic

variable {ring : Ring} {q : List EventCopy}

/-- A producer whose event was taken cannot be told so by a failed unlock. -/
theorem Ring.Holds.enqueue_atomic_iff (h : ring.Holds q) (lock unlock : Bool) (event : EventCopy) :
    ring.Atomic (.enqueue lock unlock event) ↔ ring.Released (.enqueue lock unlock event) := by
  have hcount := h.count
  have hbound := h.bound
  simp only [Ring.Atomic, Ring.Released]
  cases lock with
  | false =>
    rw [ringEnqueue_unlocked h]
    simp
  | true =>
    by_cases hroom : q.length < ring.capacity
    · cases unlock with
      | true =>
        rw [ringEnqueue_room h hroom]
        simp
      | false =>
        rw [ringEnqueue_unlock, ringEnqueue_room h hroom]
        simp only [Bool.false_eq_true, Bool.true_eq_false, false_or, hcount]
        constructor
        · intro hatomic
          have hsame := (hatomic (ringEnqueue_not_ok ring event)).1
          rw [(h.pushed hroom event).contents, h.contents] at hsame
          exact absurd hsame (by simp)
        · intro hfull
          omega
    · rw [ringEnqueue_unlock, ringEnqueue_full h (by omega)]
      constructor
      · intro _
        right; right
        omega
      · intro _ _
        exact ⟨rfl, rfl⟩

/-- A consumer that was refused by a failed unlock has lost the oldest event. -/
theorem Ring.Holds.tryDequeue_atomic_iff (h : ring.Holds q) (lock unlock : Bool) :
    ring.Atomic (.tryDequeue lock unlock) ↔ ring.Released (.tryDequeue lock unlock) := by
  have hcount := h.count
  simp only [Ring.Atomic, Ring.Released]
  cases lock with
  | false =>
    rw [ringTryDequeue_unlocked h]
    simp
  | true =>
    cases q with
    | nil =>
      rw [ringTryDequeue_unlock, ringTryDequeue_empty h]
      simp [hcount]
    | cons oldest rest =>
      cases unlock with
      | true =>
        rw [ringTryDequeue_some h]
        simp
      | false =>
        rw [ringTryDequeue_unlock, ringTryDequeue_some h]
        simp only [Bool.false_eq_true, Bool.true_eq_false, false_or, hcount]
        constructor
        · intro hatomic
          have hsame := hatomic (ringTryDequeue_not_found ring)
          rw [h.popped.contents, h.contents] at hsame
          exact absurd hsame (by simp)
        · intro hempty
          cases hempty

theorem Ring.Sound.atomic_iff (h : ring.Sound) (act : RingAct) : ring.Atomic act ↔ ring.Released act := by
  cases act with
  | init | destroy => exact Iff.rfl
  | enqueue lock unlock event =>
    obtain rfl | ⟨q, hq⟩ := h
    · simp only [Ring.Atomic, Ring.Released, ringEnqueue_zero]
      simp [Ring.zero]
    · exact hq.enqueue_atomic_iff lock unlock event
  | tryDequeue lock unlock =>
    obtain rfl | ⟨q, hq⟩ := h
    · simp only [Ring.Atomic, Ring.Released, ringTryDequeue_zero]
      simp [Ring.zero]
    · exact hq.tryDequeue_atomic_iff lock unlock

end Atomic

/-- In every state that any calls with any answers lead to, a call is atomic in its errors exactly when
it releases the mutex or has nothing to move; so the calls of a run are all atomic exactly when they
are all released. -/
theorem ringCall_atomic_iff (acts : List RingAct) :
    (∀ act, (Machine.run Ring.act .zero acts).Atomic act ↔ (Machine.run Ring.act .zero acts).Released act) ∧
      (Machine.Along Ring.act Ring.Atomic .zero acts ↔ Machine.Along Ring.act Ring.Released .zero acts) := by
  refine ⟨fun act => (sound_run acts).atomic_iff act, ?_⟩
  rw [Machine.along_iff, Machine.along_iff]
  constructor
  · intro h before act after heq
    exact ((sound_run before).atomic_iff act).1 (h before act after heq)
  · intro h before act after heq
    exact ((sound_run before).atomic_iff act).2 (h before act after heq)

/-- A first event whose producer is told of an error is in the ring, and then taken from it by a consumer
that is told that there was none. -/
theorem not_atomic_unlock_fails :
    ∃ ring, ring = Machine.run Ring.act .zero [.init true 256] ∧
      (ringEnqueue true false ring warning).1 = .internalError ∧ ring.contents = [] ∧
      (ringEnqueue true false ring warning).2.1.contents = [warning] ∧
      (ringEnqueue true false ring warning).2.2 = .zero ∧
      (ringTryDequeue true false (ringEnqueue true false ring warning).2.1).1 = false ∧
      (ringTryDequeue true false (ringEnqueue true false ring warning).2.1).2.1.contents = [] ∧
      ¬ ring.Atomic (.enqueue true false warning) ∧
      ¬ (ringEnqueue true false ring warning).2.1.Atomic (.tryDequeue true false) := by
  refine ⟨_, rfl, ?_⟩
  have hinit : ringInit true 256 = .ok := by decide
  have hcap : (ringInitialise true .zero 256).capacity = 256 := by rw [ringInitialise_ok hinit]
  have hempty : (ringInitialise true .zero 256).Holds [] := ringInitialise_holds hinit .zero
  have hone := hempty.pushed (by rw [hcap]; decide) warning
  have hnot := hempty.enqueue_atomic_iff true false warning
  have hnot' := hone.tryDequeue_atomic_iff true false
  have hpush := ringEnqueue_unlock false (ringInitialise true .zero 256) warning
  rw [ringEnqueue_room hempty (by rw [hcap]; decide)] at hpush
  have hpop := ringTryDequeue_unlock false ((ringInitialise true .zero 256).pushed warning)
  rw [ringTryDequeue_some hone] at hpop
  simp only [Machine.run_cons, Machine.run_nil, Ring.act, hpush]
  refine ⟨by decide, hempty.contents, hone.contents, trivial, ringTryDequeue_not_found _, ?_, ?_, ?_⟩
  · rw [hpop]
    exact hone.popped.contents
  · rw [hnot]
    simp [Ring.Released, hempty.count, hcap]
  · rw [hnot']
    simp [Ring.Released, hone.count]

end IoJournal
