import IoJournal.Ring
import IoJournal.Runs.Monitor

/-!
# IoJournal.RingThreads

The ring of `core/ij_queue.c` with threads, one memory access at a time.

`IoJournal.Ring` takes a run of producers and a consumer as a list of calls. Here a call is what the
source makes of it: it takes the mutex, loads and stores one field after the other, and gives the mutex
back, while a scheduler is free to let any other thread take any step in between. `ringCode` has one place
for each access between `mtx_lock` and `mtx_unlock`; the check of `slots` before the lock reads a pointer
that no call changes.

* `ringCode_enqueue`, `ringCode_tryDequeue`: run alone, the accesses of a call do what `ringEnqueue` and
  `ringTryDequeue` do.
* `ring_linearizable`: whatever the schedule, the calls and their replies are those of a bounded queue on
  which every call happens at once, at some time between its start and its return.
-/

namespace IoJournal

open Wire Monitor

/-! ## The code under the mutex -/

inductive ThreadCall where
  | enqueue (event : EventCopy)
  | tryDequeue

/-- The next access of a call, with the variables that are live there. `event` is what the producer's
event holds. -/
inductive RingPlace where
  | loadCount (event : EventCopy)
  | addDropped (event : EventCopy)
  | loadTail (event : EventCopy) (count : Nat)
  | storeSlot (event : EventCopy) (count tailIndex : Nat)
  | setOccupied (event : EventCopy) (count tailIndex : Nat)
  | clearEvent (event : EventCopy) (count : Nat)
  | reloadTail (event : EventCopy) (count : Nat)
  | storeTail (event : EventCopy) (count tail : Nat)
  | storeCount (event : EventCopy) (count : Nat)
  | addEnqueued (event : EventCopy) (count : Nat)
  | loadMark (event : EventCopy) (count : Nat)
  | storeMark (event : EventCopy) (count : Nat)
  | loadCountOut
  | loadHead (count : Nat)
  | copySlot (count headIndex : Nat)
  | clearSlot (out : EventCopy) (count headIndex : Nat)
  | clearOccupied (out : EventCopy) (count headIndex : Nat)
  | reloadHead (out : EventCopy) (count : Nat)
  | storeHead (out : EventCopy) (count head : Nat)
  | storeCountOut (out : EventCopy) (count : Nat)
  | unlock (reply : RingReply)

/-- One access. -/
def RingPlace.step : RingPlace → Ring → RingPlace × Ring
  | .loadCount event, ring =>
    (if ring.capacity ≤ ring.count then .addDropped event else .loadTail event ring.count, ring)
  | .addDropped event, ring =>
    (.unlock (.enqueued .queueFull event), { ring with droppedEvents := (ring.droppedEvents + 1) % wordSize })
  | .loadTail event count, ring => (.storeSlot event count (ring.tail &&& ring.mask), ring)
  | .storeSlot event count tailIndex, ring =>
    (.setOccupied event count tailIndex, { ring with slots := ring.slots.set tailIndex event })
  | .setOccupied event count tailIndex, ring =>
    (.clearEvent event count, { ring with occupied := ring.occupied.set tailIndex true })
  | .clearEvent _ count, ring => (.reloadTail .zero count, ring)
  | .reloadTail event count, ring => (.storeTail event count ring.tail, ring)
  | .storeTail event count tail, ring =>
    (.storeCount event ((count + 1) % wordSize), { ring with tail := (tail + 1) % wordSize })
  | .storeCount event count, ring => (.addEnqueued event count, { ring with count := count })
  | .addEnqueued event count, ring =>
    (.loadMark event count, { ring with enqueuedEvents := (ring.enqueuedEvents + 1) % wordSize })
  | .loadMark event count, ring =>
    (if ring.highWaterMark < count then .storeMark event count else .unlock (.enqueued .ok event), ring)
  | .storeMark event count, ring => (.unlock (.enqueued .ok event), { ring with highWaterMark := count })
  | .loadCountOut, ring =>
    (if ring.count = 0 then .unlock (.dequeued false none) else .loadHead ring.count, ring)
  | .loadHead count, ring => (.copySlot count (ring.head &&& ring.mask), ring)
  | .copySlot count headIndex, ring => (.clearSlot (ring.slots.getD headIndex .zero) count headIndex, ring)
  | .clearSlot out count headIndex, ring =>
    (.clearOccupied out count headIndex, { ring with slots := ring.slots.set headIndex .zero })
  | .clearOccupied out count headIndex, ring =>
    (.reloadHead out count, { ring with occupied := ring.occupied.set headIndex false })
  | .reloadHead out count, ring => (.storeHead out count ring.head, ring)
  | .storeHead out count head, ring => (.storeCountOut out count, { ring with head := (head + 1) % wordSize })
  | .storeCountOut out count, ring => (.unlock (.dequeued true (some out)), { ring with count := count - 1 })
  | .unlock reply, ring => (.unlock reply, ring)

def RingPlace.result : RingPlace → Option RingReply
  | .unlock reply => some reply
  | _ => none

/-- `ij_ring_enqueue` and `ij_ring_try_dequeue` between `mtx_lock` and `mtx_unlock`. -/
def ringCode : Code Ring ThreadCall RingPlace RingReply where
  enter
    | .enqueue event => .loadCount event
    | .tryDequeue => .loadCountOut
  step := RingPlace.step
  result := RingPlace.result

/-- The most accesses a call makes. -/
def ringAccesses : Nat := 11

theorem ringCode_mark (event : EventCopy) (count : Nat) (ring : Ring) :
    ∃ n, n ≤ 2 ∧ ringCode.Runs n (.loadMark event count) ring (.unlock (.enqueued .ok event))
      { ring with highWaterMark := if ring.highWaterMark < count then count else ring.highWaterMark } := by
  by_cases hmark : ring.highWaterMark < count
  · simp only [if_pos hmark]
    refine ⟨2, Nat.le_refl 2, .step rfl ?_⟩
    simp only [ringCode, RingPlace.step, if_pos hmark]
    exact .step rfl .refl
  · simp only [if_neg hmark]
    refine ⟨1, by decide, .step rfl ?_⟩
    simp only [ringCode, RingPlace.step, if_neg hmark]
    exact .refl

theorem ringCode_enqueue (event : EventCopy) {ring : Ring} (hslots : ring.slots ≠ []) :
    ∃ n, n ≤ ringAccesses ∧ ringCode.Runs n (ringCode.enter (.enqueue event)) ring
      (.unlock (.enqueued (ringEnqueue true true ring event).1 (ringEnqueue true true ring event).2.2))
      (ringEnqueue true true ring event).2.1 := by
  simp only [ringEnqueue, if_neg hslots, Bool.not_true, Bool.false_eq_true, if_false]
  by_cases hfull : ring.capacity ≤ ring.count
  · simp only [if_pos hfull]
    refine ⟨2, by decide, .step rfl ?_⟩
    simp only [ringCode, RingPlace.step, if_pos hfull]
    exact .step rfl .refl
  · simp only [if_neg hfull]
    -- nine accesses up to the load of the mark
    obtain ⟨n, hn, hmark⟩ := ringCode_mark .zero ((ring.count + 1) % wordSize) { ring with
      slots := ring.slots.set (ring.tail &&& ring.mask) event
      occupied := ring.occupied.set (ring.tail &&& ring.mask) true
      tail := (ring.tail + 1) % wordSize
      count := (ring.count + 1) % wordSize
      enqueuedEvents := (ring.enqueuedEvents + 1) % wordSize }
    refine ⟨n + 9, Nat.add_le_add_right hn 9, .step rfl ?_⟩
    simp only [ringCode, RingPlace.step, if_neg hfull]
    exact .step rfl <| .step rfl <| .step rfl <| .step rfl <| .step rfl <| .step rfl <| .step rfl <| .step rfl hmark

theorem ringCode_tryDequeue {ring : Ring} (hslots : ring.slots ≠ []) :
    ∃ n, n ≤ ringAccesses ∧ ringCode.Runs n (ringCode.enter .tryDequeue) ring
      (.unlock (.dequeued (ringTryDequeue true true ring).1 (ringTryDequeue true true ring).2.2))
      (ringTryDequeue true true ring).2.1 := by
  simp only [ringTryDequeue, if_neg hslots, Bool.not_true, Bool.false_eq_true, if_false]
  by_cases hempty : ring.count = 0
  · simp only [if_pos hempty]
    refine ⟨1, by decide, .step rfl ?_⟩
    simp only [ringCode, RingPlace.step, if_pos hempty]
    exact .refl
  · simp only [if_neg hempty]
    refine ⟨8, by decide, .step rfl ?_⟩
    simp only [ringCode, RingPlace.step, if_neg hempty]
    exact .step rfl <| .step rfl <| .step rfl <| .step rfl <| .step rfl <| .step rfl <| .step rfl .refl

/-! ## The queue -/

/-- A call on the queue that the ring stands for. -/
def queuePerform {T : Type} (capacity : Nat) (thread : T) (queue : Fifo (T × EventCopy)) :
    ThreadCall → Fifo (T × EventCopy) × RingReply
  | .enqueue event =>
    let (accepted, queue) := queue.put capacity (thread, event)
    (queue, if accepted then .enqueued .ok .zero else .enqueued .queueFull event)
  | .tryDequeue =>
    let (taken, queue) := queue.take
    (queue, .dequeued taken.isSome (taken.map Prod.snd))

structure Ring.Stands {T : Type} (capacity : Nat) (ring : Ring) (queue : Fifo (T × EventCopy)) : Prop where
  sameCapacity : ring.capacity = capacity
  wellFormed : queue.WellFormed capacity
  holds : ring.Holds (queue.queue.map Prod.snd)

section Queue

variable {T : Type} {capacity : Nat} {ring : Ring} {queue : Fifo (T × EventCopy)}

theorem ringEnqueue_stands (h : ring.Stands capacity queue) (thread : T) (event : EventCopy) :
    .enqueued (ringEnqueue true true ring event).1 (ringEnqueue true true ring event).2.2 =
        (queuePerform capacity thread queue (.enqueue event)).2 ∧
      (ringEnqueue true true ring event).2.1.Stands capacity
        (queuePerform capacity thread queue (.enqueue event)).1 := by
  have hcap := h.sameCapacity
  have hlen : (queue.queue.map Prod.snd).length = queue.queue.length := List.length_map _
  have hbound := h.wellFormed.bound
  have hput := h.wellFormed.put (thread, event)
  by_cases hroom : queue.queue.length < capacity
  · rw [ringEnqueue_room h.holds (by omega) event]
    simp only [queuePerform, Fifo.put, if_pos hroom] at hput ⊢
    refine ⟨rfl, hcap, hput, ?_⟩
    rw [List.map_append]
    exact h.holds.pushed (by omega) event
  · rw [ringEnqueue_full h.holds (by omega) event]
    simp only [queuePerform, Fifo.put, if_neg hroom] at hput ⊢
    exact ⟨rfl, hcap, hput, { h.holds with }⟩

theorem ringTryDequeue_stands (h : ring.Stands capacity queue) (thread : T) :
    .dequeued (ringTryDequeue true true ring).1 (ringTryDequeue true true ring).2.2 =
        (queuePerform capacity thread queue .tryDequeue).2 ∧
      (ringTryDequeue true true ring).2.1.Stands capacity (queuePerform capacity thread queue .tryDequeue).1 := by
  have htake := h.wellFormed.take
  have hholds := h.holds
  simp only [queuePerform, Fifo.take] at htake ⊢
  cases hq : queue.queue with
  | nil =>
    rw [hq] at hholds
    rw [ringTryDequeue_empty hholds]
    exact ⟨rfl, h⟩
  | cons oldest rest =>
    rw [hq] at htake hholds
    rw [ringTryDequeue_some hholds]
    exact ⟨rfl, h.sameCapacity, htake, hholds.popped⟩

/-- The accesses of a call that runs alone do to the ring what the call does to the queue. -/
theorem ringCode_implements : ringCode.Implements ringAccesses (queuePerform (T := T) capacity) (Ring.Stands capacity) := by
  intro thread call ring queue h
  cases call with
  | enqueue event =>
    obtain ⟨n, hn, hruns⟩ := ringCode_enqueue event h.holds.slots_ne
    obtain ⟨hreply, hstands⟩ := ringEnqueue_stands h thread event
    exact ⟨n, _, _, hn, hruns, congrArg some hreply, hstands⟩
  | tryDequeue =>
    obtain ⟨n, hn, hruns⟩ := ringCode_tryDequeue h.holds.slots_ne
    obtain ⟨hreply, hstands⟩ := ringTryDequeue_stands h thread
    exact ⟨n, _, _, hn, hruns, congrArg some hreply, hstands⟩

theorem ringInitialise_stands {memory : Bool} (hinit : ringInit memory capacity = .ok) (before : Ring) :
    (ringInitialise memory before capacity).Stands capacity (.empty : Fifo (T × EventCopy)) := by
  have hholds := ringInitialise_holds hinit before
  rw [ringInitialise_ok hinit] at hholds ⊢
  exact ⟨rfl, Fifo.wellFormed_empty, hholds⟩

theorem queuePerform_wellFormed (thread : T) (call : ThreadCall) (h : queue.WellFormed capacity) :
    (queuePerform capacity thread queue call).1.WellFormed capacity := by
  cases call with
  | enqueue event => exact h.put (thread, event)
  | tryDequeue => exact h.take

end Queue

/-! ## Every schedule -/

/-- The threads of a ring, with every call up to its next access. -/
abbrev RingThreads (T : Type) := System T Ring ThreadCall RingPlace RingReply

/-- In every schedule of the accesses of any number of threads, the calls and replies so far are those of
a run of the bounded queue on which each call happens at once between its start and its return; no two
threads are inside the mutex, and when none is, the ring holds what is queued. Every call can be completed. -/
theorem ring_linearizable {T : Type} [DecidableEq T] (memory : Bool) (before : Ring) (capacity : Nat)
    (hinit : ringInit memory capacity = .ok) (schedule : List (Action T ThreadCall)) :
    let s : RingThreads T := Machine.run ringCode.act (.start (ringInitialise memory before capacity)) schedule
    (∃ a : Object T (Fifo (T × EventCopy)) ThreadCall RingReply,
      a.Reachable (queuePerform capacity) .empty ∧ s.history = a.history ∧
        a.state.queue.length ≤ capacity ∧ a.state.accepted = a.state.delivered ++ a.state.queue ∧
        (s.owner = none → s.shared.contents = a.state.queue.map Prod.snd)) ∧
      (∀ t u place place', s.phase t = .inside place → s.phase u = .inside place' → t = u) ∧
      ∀ t, ∃ continuation : List (Action T ThreadCall), continuation.length ≤ 2 * ringAccesses + 4 ∧
        (Machine.run ringCode.act s continuation).phase t = .idle := by
  intro s
  obtain ⟨a, hreach, hsim⟩ := Code.linearizable ringCode_implements (ringInitialise_stands hinit before) schedule
  have hwf := hreach.invariant (fun t queue call => queuePerform_wellFormed t call) Fifo.wellFormed_empty
  refine ⟨⟨a, hreach, hsim.history, hwf.bound, hwf.history, fun howner => ?_⟩, fun t u _ _ => hsim.exclusive, ?_⟩
  · exact (hsim.free howner).holds.contents
  · exact Code.call_completes ringCode_implements hreach hsim

/-- A producer comes while a consumer is inside, waits, and is inside when the consumer returns. -/
theorem ring_linearizable_overlap :
    ringInit true 256 = .ok ∧ ∃ a : Object Nat (Fifo (Nat × EventCopy)) ThreadCall RingReply,
      a.Reachable (queuePerform 256) .empty ∧ a.history =
        [.invoke 1 .tryDequeue, .invoke 2 (.enqueue warning), .respond 1 (.dequeued false none)] := by
  refine ⟨by decide, ?_⟩
  obtain ⟨⟨a, hreach, hhistory, -⟩, -⟩ := ring_linearizable true .zero 256 (by decide)
    [.invoke 1 .tryDequeue, .lock 1, .invoke 2 (.enqueue warning), .lock 2, .work 1, .unlock 1, .lock 2, .work 2,
      .respond 1, .work 2]
  exact ⟨a, hreach, hhistory.symm⟩

end IoJournal
