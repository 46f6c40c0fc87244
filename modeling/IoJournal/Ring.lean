import IoJournal.Logger
import IoJournal.Runs.Circular
import IoJournal.Runs.Fifo
import IoJournal.Runs.Machine

/-!
# IoJournal.Ring

The bounded ring of `core/ij_queue.c`.

Every call is made under the ring's mutex, so a run of producers and a consumer is a list of calls in
the order in which they took it. `lock` and `unlock` are the answers of the mutex. The counters are
`size_t` and wrap; an index is a counter under the mask.

The ring refines a queue with history (`Fifo`): `Ring.Holds` relates the two, each operation keeps it
(`ringEnqueue_holds`, `ringTryDequeue_holds`), and so does a run.
-/

namespace IoJournal

open Wire

/-! ## The ring -/

def EventCopy.zero : EventCopy where
  timestamp := ⟨0, 0⟩
  level := 0
  eventName := .zero
  message := .zero
  loggerName := .zero
  attributes := []
  traceId := .replicate _ 0
  spanId := .replicate _ 0
  traceFlags := 0
  hasTraceContext := false
  sourceFile := .zero
  sourceLine := 0
  sourceFunction := .zero
  textArena := .fresh []
  textArenaSize := 0

/-- `ij_ring_t`, without the mutex; an empty list of slots is NULL. -/
structure Ring where
  capacity : Nat
  mask : Nat
  head : Nat
  tail : Nat
  count : Nat
  droppedEvents : Nat
  enqueuedEvents : Nat
  highWaterMark : Nat
  slots : List EventCopy
  occupied : List Bool

def Ring.zero : Ring := ⟨0, 0, 0, 0, 0, 0, 0, 0, [], []⟩

/-- What `ij_ring_init` does to the ring. -/
def ringInitialise (memory : Bool) (ring : Ring) (capacity : Nat) : Ring :=
  match ringInit memory capacity with
  | .invalidArgument => ring
  | .ok => ⟨capacity, capacity - 1, 0, 0, 0, 0, 0, 0, List.replicate capacity .zero, List.replicate capacity false⟩
  | _ => .zero

/-- `ij_ring_enqueue`: the status, the ring, and what is left in the caller's event. -/
def ringEnqueue (lock unlock : Bool) (ring : Ring) (event : EventCopy) : Status × Ring × EventCopy :=
  if ring.slots = [] then (.invalidArgument, ring, event)
  else if !lock then (.internalError, ring, event)
  else
    let count := ring.count
    if ring.capacity ≤ count then
      let ring := { ring with droppedEvents := (ring.droppedEvents + 1) % wordSize }
      (if !unlock then .internalError else .queueFull, ring, event)
    else
      let tailIndex := ring.tail &&& ring.mask
      let count := (count + 1) % wordSize
      let ring := { ring with
        slots := ring.slots.set tailIndex event
        occupied := ring.occupied.set tailIndex true
        tail := (ring.tail + 1) % wordSize
        count := count
        enqueuedEvents := (ring.enqueuedEvents + 1) % wordSize
        highWaterMark := if ring.highWaterMark < count then count else ring.highWaterMark }
      (if !unlock then .internalError else .ok, ring, .zero)

/-- `ij_ring_try_dequeue`: the result, the ring, and what was stored in `*out_event`. -/
def ringTryDequeue (lock unlock : Bool) (ring : Ring) : Bool × Ring × Option EventCopy :=
  if ring.slots = [] then (false, ring, none)
  else if !lock then (false, ring, none)
  else if ring.count = 0 then (false, ring, none)
  else
    let headIndex := ring.head &&& ring.mask
    let out := ring.slots.getD headIndex .zero
    let ring := { ring with
      slots := ring.slots.set headIndex .zero
      occupied := ring.occupied.set headIndex false
      head := (ring.head + 1) % wordSize
      count := ring.count - 1 }
    (unlock, ring, some out)

/-- `ij_ring_destroy`: the events that are disposed of, in order, and the ring. -/
def ringDestroy (lock : Bool) (ring : Ring) : List EventCopy × Ring :=
  if ring.slots = [] then ([], ring)
  else if !lock then ([], .zero)
  else
    ((List.range ring.capacity).filterMap fun i =>
      if ring.occupied.getD i false then some (ring.slots.getD i .zero) else none, .zero)

/-! ## Runs -/

/-- A call on the ring, by one of the producers or by the consumer. -/
inductive RingCall (P : Type) where
  | enqueue (producer : P) (event : EventCopy)
  | tryDequeue

/-- What a call returns, with what it leaves in the caller's event. -/
inductive RingReply where
  | enqueued (status : Status) (event : EventCopy)
  | dequeued (found : Bool) (event : Option EventCopy)

/-- The ring, the replies so far, the events that were accepted with their producers, and those that
were delivered. -/
structure RingRun (P : Type) where
  ring : Ring
  replies : List RingReply
  accepted : List (P × EventCopy)
  delivered : List EventCopy

def RingRun.start (P : Type) (ring : Ring) : RingRun P := ⟨ring, [], [], []⟩

/-- One call, with a mutex that can be locked and unlocked. -/
def RingRun.step {P : Type} (s : RingRun P) : RingCall P → RingRun P
  | .enqueue producer event =>
    let (status, ring, left) := ringEnqueue true true s.ring event
    { s with
      ring := ring
      replies := s.replies ++ [.enqueued status left]
      accepted := if status = .ok then s.accepted ++ [(producer, event)] else s.accepted }
  | .tryDequeue =>
    let (found, ring, out) := ringTryDequeue true true s.ring
    { s with
      ring := ring
      replies := s.replies ++ [.dequeued found out]
      delivered := if found then s.delivered ++ out.toList else s.delivered }

/-- The queue that the ring stands for, and the replies that it asks for. -/
structure QueueRun (P : Type) where
  fifo : Fifo (P × EventCopy)
  replies : List RingReply

def QueueRun.start (P : Type) : QueueRun P := ⟨.empty, []⟩

/-- An event is refused exactly when `capacity` events are queued, and then left with its caller; an
accepted one is zeroed there. The consumer gets the oldest event, or nothing when there is none. -/
def QueueRun.step {P : Type} (capacity : Nat) (s : QueueRun P) : RingCall P → QueueRun P
  | .enqueue producer event =>
    let (accepted, fifo) := s.fifo.put capacity (producer, event)
    ⟨fifo, s.replies ++ [if accepted then .enqueued .ok .zero else .enqueued .queueFull event]⟩
  | .tryDequeue =>
    let (taken, fifo) := s.fifo.take
    ⟨fifo, s.replies ++ [.dequeued taken.isSome (taken.map Prod.snd)]⟩

/-! ## What the ring holds -/

/-- The capacity is a power of two that divides the range of a counter, and the mask takes a counter
to its slot. -/
structure Ring.Shape (ring : Ring) : Prop where
  pos : 0 < ring.capacity
  small : ring.capacity < wordSize
  dvd : ring.capacity ∣ wordSize
  mask : ∀ k, k &&& ring.mask = k % ring.capacity

/-- The ring holds the queue `q`: the slots from the head on have its elements, and every other slot is
free and zeroed. -/
structure Ring.Holds (ring : Ring) (q : List EventCopy) : Prop extends Ring.Shape ring where
  bound : q.length ≤ ring.capacity
  count : ring.count = q.length
  tail : ring.tail = (ring.head + q.length) % wordSize
  slots : ring.slots =
    (List.range ring.capacity).map fun i => (Circular.window ring.capacity ring.head q i).getD .zero
  occupied : ring.occupied =
    (List.range ring.capacity).map fun i => (Circular.window ring.capacity ring.head q i).isSome

theorem ringInit_shape {memory : Bool} {capacity : Nat} (h : ringInit memory capacity = .ok) :
    queueCapacityMin ≤ capacity ∧ capacity ≤ queueCapacityMax ∧ capacity.isPowerOfTwo := by
  unfold ringInit at h
  split at h
  · cases h
  · rename_i hshape
    rw [not_or, not_or, not_not] at hshape
    have hmin : queueCapacityMin = 256 := rfl
    refine ⟨by omega, by omega, ?_⟩
    exact (Nat.and_sub_one_eq_zero_iff_isPowerOfTwo (by omega)).1 hshape.2.2

theorem ringInitialise_ok {memory : Bool} {capacity : Nat} (h : ringInit memory capacity = .ok) (before : Ring) :
    ringInitialise memory before capacity = ⟨capacity, capacity - 1, 0, 0, 0, 0, 0, 0, List.replicate capacity .zero,
      List.replicate capacity false⟩ := by
  simp only [ringInitialise, h]

theorem ringInitialise_holds {memory : Bool} {capacity : Nat} (h : ringInit memory capacity = .ok) (before : Ring) :
    (ringInitialise memory before capacity).Holds [] := by
  obtain ⟨hmin, hmax, k, rfl⟩ := ringInit_shape h
  have hk : k ≤ 16 := by
    have hpow : 2 ^ k ≤ 2 ^ 16 := hmax
    exact (Nat.pow_le_pow_iff_right (by decide)).1 hpow
  have hword : wordSize = 2 ^ 64 := rfl
  rw [ringInitialise_ok h]
  exact {
    pos := Nat.two_pow_pos k
    small := by rw [hword]; exact Nat.pow_lt_pow_right (by decide) (by omega)
    dvd := by rw [hword]; exact Nat.pow_dvd_pow 2 (by omega)
    mask := fun n => Nat.and_two_pow_sub_one_eq_mod n k
    bound := Nat.zero_le _
    count := rfl
    tail := rfl
    slots := by simp [Circular.window, List.map_const']
    occupied := by simp [Circular.window, List.map_const'] }

section Operations

variable {ring : Ring} {q : List EventCopy}

theorem Ring.Holds.slots_ne (h : ring.Holds q) : ring.slots ≠ [] := by
  intro hnil
  have hlen := congrArg List.length (hnil.symm.trans h.slots)
  have := h.pos
  simp at hlen
  omega

theorem Ring.Holds.tail_index (h : ring.Holds q) :
    ring.tail &&& ring.mask = (ring.head + q.length) % ring.capacity := by
  rw [h.mask, h.tail, Nat.mod_mod_of_dvd _ h.dvd]

theorem ringEnqueue_full (h : ring.Holds q) (hfull : q.length = ring.capacity) (event : EventCopy) :
    ringEnqueue true true ring event =
      (.queueFull, { ring with droppedEvents := (ring.droppedEvents + 1) % wordSize }, event) := by
  have hcount := h.count
  simp only [ringEnqueue, if_neg h.slots_ne, Bool.not_true, Bool.false_eq_true, if_false]
  rw [if_pos (by omega)]

def Ring.pushed (ring : Ring) (event : EventCopy) : Ring :=
  { ring with
    slots := ring.slots.set (ring.tail &&& ring.mask) event
    occupied := ring.occupied.set (ring.tail &&& ring.mask) true
    tail := (ring.tail + 1) % wordSize
    count := ring.count + 1
    enqueuedEvents := (ring.enqueuedEvents + 1) % wordSize
    highWaterMark := max ring.highWaterMark (ring.count + 1) }

theorem ringEnqueue_room (h : ring.Holds q) (hroom : q.length < ring.capacity) (event : EventCopy) :
    ringEnqueue true true ring event = (.ok, ring.pushed event, .zero) := by
  have hcount := h.count
  have hsmall := h.small
  have hmod : (ring.count + 1) % wordSize = ring.count + 1 := Nat.mod_eq_of_lt (by omega)
  have hmark : (if ring.highWaterMark < ring.count + 1 then ring.count + 1 else ring.highWaterMark) =
      max ring.highWaterMark (ring.count + 1) := by
    split <;> omega
  simp only [ringEnqueue, if_neg h.slots_ne, Bool.not_true, Bool.false_eq_true, if_false, hmod, hmark, Ring.pushed]
  rw [if_neg (by omega)]

theorem Ring.Holds.pushed (h : ring.Holds q) (hroom : q.length < ring.capacity) (event : EventCopy) :
    (ring.pushed event).Holds (q ++ [event]) where
  pos := h.pos
  small := h.small
  dvd := h.dvd
  mask := h.mask
  bound := by
    rw [List.length_append, List.length_singleton]
    exact hroom
  count := by
    rw [List.length_append, List.length_singleton, ← h.count]
    rfl
  tail := by
    show (ring.tail + 1) % wordSize = (ring.head + (q ++ [event]).length) % wordSize
    rw [h.tail, Nat.mod_add_mod, List.length_append, List.length_singleton, Nat.add_assoc]
  slots := by
    show ring.slots.set _ event = (List.range ring.capacity).map fun i =>
      (Circular.window ring.capacity ring.head (q ++ [event]) i).getD .zero
    rw [h.tail_index, h.slots, Circular.set_map_range]
    refine List.map_congr_left fun i hi => ?_
    rw [Circular.window_push event hroom (List.mem_range.1 hi)]
    split <;> rfl
  occupied := by
    show ring.occupied.set _ true = (List.range ring.capacity).map fun i =>
      (Circular.window ring.capacity ring.head (q ++ [event]) i).isSome
    rw [h.tail_index, h.occupied, Circular.set_map_range]
    refine List.map_congr_left fun i hi => ?_
    rw [Circular.window_push event hroom (List.mem_range.1 hi)]
    split <;> rfl

def Ring.popped (ring : Ring) : Ring :=
  { ring with
    slots := ring.slots.set (ring.head &&& ring.mask) .zero
    occupied := ring.occupied.set (ring.head &&& ring.mask) false
    head := (ring.head + 1) % wordSize
    count := ring.count - 1 }

theorem ringTryDequeue_empty (h : ring.Holds []) : ringTryDequeue true true ring = (false, ring, none) := by
  have hzero : ring.count = 0 := h.count
  simp only [ringTryDequeue, if_neg h.slots_ne, Bool.not_true, Bool.false_eq_true, if_false, if_pos hzero]

theorem ringTryDequeue_some {event : EventCopy} (h : ring.Holds (event :: q)) :
    ringTryDequeue true true ring = (true, ring.popped, some event) := by
  have hcount : ring.count ≠ 0 := by
    rw [h.count]
    exact Nat.succ_ne_zero _
  have hout : ring.slots.getD (ring.head &&& ring.mask) .zero = event := by
    have hslot := Circular.window_slot ring.head (event :: q) h.pos
    rw [Nat.add_zero] at hslot
    rw [h.mask, h.slots, List.getD_eq_getElem?_getD, List.getElem?_map,
      List.getElem?_range (Nat.mod_lt _ h.pos), Option.map_some, hslot]
    rfl
  simp only [ringTryDequeue, if_neg h.slots_ne, Bool.not_true, Bool.false_eq_true, if_false, if_neg hcount, hout,
    Ring.popped]

theorem Ring.Holds.popped {event : EventCopy} (h : ring.Holds (event :: q)) : ring.popped.Holds q where
  pos := h.pos
  small := h.small
  dvd := h.dvd
  mask := h.mask
  bound := Nat.le_of_succ_le h.bound
  count := by
    show ring.count - 1 = q.length
    rw [h.count, List.length_cons, Nat.add_sub_cancel]
  tail := by
    show ring.tail = ((ring.head + 1) % wordSize + q.length) % wordSize
    rw [h.tail, Nat.mod_add_mod, List.length_cons, Nat.add_assoc, Nat.add_comm q.length 1]
  slots := by
    show ring.slots.set _ EventCopy.zero = (List.range ring.capacity).map fun i =>
      (Circular.window ring.capacity ((ring.head + 1) % wordSize) q i).getD .zero
    rw [h.mask, h.slots, Circular.set_map_range, Circular.window_mod h.dvd]
    refine List.map_congr_left fun i hi => ?_
    rw [Circular.window_pop event h.bound (List.mem_range.1 hi)]
    split <;> rfl
  occupied := by
    show ring.occupied.set _ false = (List.range ring.capacity).map fun i =>
      (Circular.window ring.capacity ((ring.head + 1) % wordSize) q i).isSome
    rw [h.mask, h.occupied, Circular.set_map_range, Circular.window_mod h.dvd]
    refine List.map_congr_left fun i hi => ?_
    rw [Circular.window_pop event h.bound (List.mem_range.1 hi)]
    split <;> rfl

end Operations

/-! ## Refinement -/

def RingReply.accepts : RingReply → Bool
  | .enqueued status _ => status = .ok
  | .dequeued _ _ => false

def RingReply.refuses : RingReply → Bool
  | .enqueued status _ => status = .queueFull
  | .dequeued _ _ => false

/-- The ring is in step with the queue. -/
structure RingRun.Refines {P : Type} (capacity : Nat) (s : RingRun P) (t : QueueRun P) : Prop where
  sameCapacity : s.ring.capacity = capacity
  wellFormed : t.fifo.WellFormed capacity
  holds : s.ring.Holds (t.fifo.queue.map Prod.snd)
  replies : s.replies = t.replies
  accepted : s.accepted = t.fifo.accepted
  delivered : s.delivered = t.fifo.delivered.map Prod.snd
  enqueuedEvents : s.ring.enqueuedEvents = s.replies.countP RingReply.accepts % wordSize
  droppedEvents : s.ring.droppedEvents = s.replies.countP RingReply.refuses % wordSize
  highWaterMark : s.ring.count ≤ s.ring.highWaterMark

section Refinement

variable {P : Type} {capacity : Nat} {s : RingRun P} {t : QueueRun P}

theorem RingRun.Refines.enqueue (h : s.Refines capacity t) (producer : P) (event : EventCopy) :
    (s.step (.enqueue producer event)).Refines capacity (t.step capacity (.enqueue producer event)) := by
  have hcap := h.sameCapacity
  have hlen : (t.fifo.queue.map Prod.snd).length = t.fifo.queue.length := List.length_map _
  have hput := h.wellFormed.put (producer, event)
  have hbound := h.wellFormed.bound
  simp only [QueueRun.step]
  by_cases hroom : t.fifo.queue.length < capacity
  · simp only [RingRun.step, ringEnqueue_room h.holds (by omega) event]
    simp only [Fifo.put, if_pos hroom] at hput ⊢
    exact {
      sameCapacity := hcap
      wellFormed := hput
      holds := by
        rw [List.map_append]
        exact h.holds.pushed (by omega) event
      replies := by rw [h.replies]; rfl
      accepted := by rw [h.accepted]; rfl
      delivered := h.delivered
      enqueuedEvents := by
        show (s.ring.enqueuedEvents + 1) % wordSize = _
        rw [h.enqueuedEvents, Nat.mod_add_mod, List.countP_append]
        rfl
      droppedEvents := by
        show s.ring.droppedEvents = _
        rw [h.droppedEvents, List.countP_append]
        rfl
      highWaterMark := Nat.le_max_right _ _ }
  · simp only [RingRun.step, ringEnqueue_full h.holds (by omega) event]
    simp only [Fifo.put, if_neg hroom] at hput ⊢
    exact {
      sameCapacity := hcap
      wellFormed := hput
      holds := { h.holds with }
      replies := by rw [h.replies]; rfl
      accepted := h.accepted
      delivered := h.delivered
      enqueuedEvents := by
        rw [h.enqueuedEvents, List.countP_append]
        rfl
      droppedEvents := by
        show (s.ring.droppedEvents + 1) % wordSize = _
        rw [h.droppedEvents, Nat.mod_add_mod, List.countP_append]
        rfl
      highWaterMark := h.highWaterMark }

theorem RingRun.Refines.tryDequeue (h : s.Refines capacity t) :
    (s.step .tryDequeue).Refines capacity (t.step capacity .tryDequeue) := by
  have htake := h.wellFormed.take
  have hholds := h.holds
  have hmark := h.highWaterMark
  simp only [QueueRun.step, Fifo.take] at htake ⊢
  cases hq : t.fifo.queue with
  | nil =>
    rw [hq] at htake hholds
    simp only [RingRun.step, ringTryDequeue_empty hholds]
    exact {
      sameCapacity := h.sameCapacity
      wellFormed := htake
      holds := h.holds
      replies := by rw [h.replies]; rfl
      accepted := h.accepted
      delivered := h.delivered
      enqueuedEvents := by
        rw [h.enqueuedEvents, List.countP_append]
        rfl
      droppedEvents := by
        rw [h.droppedEvents, List.countP_append]
        rfl
      highWaterMark := hmark }
  | cons oldest rest =>
    rw [hq] at htake hholds
    simp only [RingRun.step, ringTryDequeue_some hholds]
    exact {
      sameCapacity := h.sameCapacity
      wellFormed := htake
      holds := hholds.popped
      replies := by rw [h.replies]; rfl
      accepted := h.accepted
      delivered := by
        rw [h.delivered]
        simp
      enqueuedEvents := by
        show s.ring.enqueuedEvents = _
        rw [h.enqueuedEvents, List.countP_append]
        rfl
      droppedEvents := by
        show s.ring.droppedEvents = _
        rw [h.droppedEvents, List.countP_append]
        rfl
      highWaterMark := Nat.le_trans (Nat.sub_le _ _) hmark }

theorem RingRun.Refines.step (h : s.Refines capacity t) (call : RingCall P) :
    (s.step call).Refines capacity (t.step capacity call) := by
  cases call with
  | enqueue producer event => exact h.enqueue producer event
  | tryDequeue => exact h.tryDequeue

theorem RingRun.Refines.mark_step (h : s.Refines capacity t) (call : RingCall P) :
    (s.step call).ring.highWaterMark = max s.ring.highWaterMark (s.step call).ring.count := by
  have hmark := h.highWaterMark
  have hcap := h.sameCapacity
  have hlen : (t.fifo.queue.map Prod.snd).length = t.fifo.queue.length := List.length_map _
  have hbound := h.wellFormed.bound
  cases call with
  | enqueue producer event =>
    by_cases hroom : t.fifo.queue.length < capacity
    · simp only [RingRun.step, ringEnqueue_room h.holds (by omega) event]
      rfl
    · simp only [RingRun.step, ringEnqueue_full h.holds (by omega) event]
      omega
  | tryDequeue =>
    have hholds := h.holds
    cases hq : t.fifo.queue with
    | nil =>
      rw [hq] at hholds
      simp only [RingRun.step, ringTryDequeue_empty hholds]
      omega
    | cons oldest rest =>
      rw [hq] at hholds
      simp only [RingRun.step, ringTryDequeue_some hholds, Ring.popped]
      omega

theorem refines_start {memory : Bool} (hinit : ringInit memory capacity = .ok) (before : Ring) :
    (RingRun.start P (ringInitialise memory before capacity)).Refines capacity (.start P) := by
  have hholds := ringInitialise_holds hinit before
  rw [ringInitialise_ok hinit] at hholds ⊢
  exact {
    sameCapacity := rfl
    wellFormed := Fifo.wellFormed_empty
    holds := hholds
    replies := rfl
    accepted := rfl
    delivered := rfl
    enqueuedEvents := rfl
    droppedEvents := rfl
    highWaterMark := Nat.le_refl _ }

theorem refines_run {memory : Bool} (hinit : ringInit memory capacity = .ok) (before : Ring)
    (calls : List (RingCall P)) :
    (Machine.run RingRun.step (.start P (ringInitialise memory before capacity)) calls).Refines capacity
      (Machine.run (QueueRun.step capacity) (.start P) calls) :=
  Machine.run_relates (fun _ _ call h => h.step call) (refines_start hinit before) calls

end Refinement

/-! ## The queue in the ring -/

/-- The events in the ring, the oldest first. -/
def Ring.contents (ring : Ring) : List EventCopy :=
  (List.range ring.count).map fun j => ring.slots.getD ((ring.head + j) % wordSize &&& ring.mask) .zero

section Contents

variable {ring : Ring} {q : List EventCopy}

theorem Ring.Holds.index (h : ring.Holds q) (j : Nat) :
    (ring.head + j) % wordSize &&& ring.mask = (ring.head + j) % ring.capacity := by
  rw [h.mask, Nat.mod_mod_of_dvd _ h.dvd]

theorem Ring.Holds.slot (h : ring.Holds q) {i : Nat} (hi : i < ring.capacity) :
    ring.slots.getD i .zero = (Circular.window ring.capacity ring.head q i).getD .zero := by
  rw [h.slots, List.getD_eq_getElem?_getD, List.getElem?_map, List.getElem?_range hi]
  rfl

theorem Ring.Holds.flag (h : ring.Holds q) {i : Nat} (hi : i < ring.capacity) :
    ring.occupied.getD i false = (Circular.window ring.capacity ring.head q i).isSome := by
  rw [h.occupied, List.getD_eq_getElem?_getD, List.getElem?_map, List.getElem?_range hi]
  rfl

theorem Ring.Holds.contents (h : ring.Holds q) : ring.contents = q := by
  refine List.ext_getElem (by simp [Ring.contents, h.count]) fun j hj hq => ?_
  have hlt : j < ring.capacity := Nat.lt_of_lt_of_le hq h.bound
  simp only [Ring.contents, List.getElem_map, List.getElem_range]
  rw [h.index, h.slot (Nat.mod_lt _ h.pos), Circular.window_slot ring.head q hlt, List.getElem?_eq_getElem hq,
    Option.getD_some]

/-- `ij_ring_destroy` goes by the flags, and finds the events of the queue. -/
theorem Ring.Holds.destroy_perm (h : ring.Holds q) : (ringDestroy true ring).1.Perm q := by
  have hdisposed : (ringDestroy true ring).1 =
      (List.range ring.capacity).filterMap (Circular.window ring.capacity ring.head q) := by
    simp only [ringDestroy, if_neg h.slots_ne, Bool.not_true, Bool.false_eq_true, if_false]
    refine List.filterMap_congr fun i hi => ?_
    rw [h.flag (List.mem_range.1 hi), h.slot (List.mem_range.1 hi)]
    cases Circular.window ring.capacity ring.head q i <;> rfl
  rw [hdisposed]
  exact Circular.filterMap_window_perm h.bound

end Contents

/-- Along every run the ring answers as the queue does and holds what is queued; the consumer gets the
accepted events in their order, each once, and those of any one producer in that producer's order. -/
theorem ring_refines_fifo {P : Type} [DecidableEq P] (memory : Bool) (before : Ring) (capacity : Nat)
    (hinit : ringInit memory capacity = .ok) (calls : List (RingCall P)) :
    let s := Machine.run RingRun.step (.start P (ringInitialise memory before capacity)) calls
    let t := Machine.run (QueueRun.step capacity) (.start P) calls
    s.replies = t.replies ∧ s.ring.contents = t.fifo.queue.map Prod.snd ∧ t.fifo.queue.length ≤ capacity ∧
      s.accepted = t.fifo.accepted ∧ s.delivered = t.fifo.delivered.map Prod.snd ∧
      t.fifo.accepted = t.fifo.delivered ++ t.fifo.queue ∧
      ∀ producer, t.fifo.delivered.filter (fun x => x.1 = producer) <+:
        t.fifo.accepted.filter (fun x => x.1 = producer) := by
  intro s t
  have h : s.Refines capacity t := refines_run hinit before calls
  exact ⟨h.replies, h.holds.contents, h.wellFormed.bound, h.accepted, h.delivered, h.wellFormed.history,
    fun producer => h.wellFormed.filter_prefix _⟩

def warning : EventCopy := { EventCopy.zero with level := 3 }

theorem ring_refines_fifo_small :
    ringInit true 256 = .ok ∧
      (Machine.run RingRun.step (.start Nat (ringInitialise true .zero 256))
        [.enqueue 1 warning, .tryDequeue, .tryDequeue]).replies =
        [.enqueued .ok .zero, .dequeued true (some warning), .dequeued false none] :=
  ⟨by decide, (ring_refines_fifo true .zero 256 (by decide) [.enqueue 1 warning, .tryDequeue, .tryDequeue]).1⟩

/-- In every state of a run the fields agree with the queue, the counters with the replies, the mark
is the largest count so far, and `ij_ring_destroy` disposes of what was accepted and not delivered. -/
theorem ring_accounting {P : Type} (memory : Bool) (before : Ring) (capacity : Nat)
    (hinit : ringInit memory capacity = .ok) (calls : List (RingCall P)) :
    let start := RingRun.start P (ringInitialise memory before capacity)
    let s := Machine.run RingRun.step start calls
    s.ring.capacity = capacity ∧ s.ring.count ≤ capacity ∧
      s.ring.tail = (s.ring.head + s.ring.count) % wordSize ∧
      s.ring.slots.length = capacity ∧ s.ring.occupied.length = capacity ∧
      (∀ i, i < capacity →
        (s.ring.occupied.getD i false = true ↔
          ∃ j, j < s.ring.count ∧ (s.ring.head + j) % wordSize &&& s.ring.mask = i) ∧
        (s.ring.occupied.getD i false = false → s.ring.slots.getD i .zero = .zero)) ∧
      s.ring.enqueuedEvents = s.replies.countP RingReply.accepts % wordSize ∧
      s.ring.droppedEvents = s.replies.countP RingReply.refuses % wordSize ∧
      (∀ calls', calls' <+: calls → (Machine.run RingRun.step start calls').ring.count ≤ s.ring.highWaterMark) ∧
      (∃ calls', calls' <+: calls ∧ (Machine.run RingRun.step start calls').ring.count = s.ring.highWaterMark) ∧
      ∃ queued, s.accepted.map Prod.snd = s.delivered ++ queued ∧ (ringDestroy true s.ring).1.Perm queued := by
  intro start s
  have h : s.Refines capacity (Machine.run (QueueRun.step capacity) (.start P) calls) := refines_run hinit before calls
  generalize Machine.run (QueueRun.step capacity) (.start P) calls = t at h
  have hcap := h.sameCapacity
  have hholds := h.holds
  have hcount : s.ring.count = (t.fifo.queue.map Prod.snd).length := hholds.count
  have hstart : start.ring.highWaterMark = start.ring.count := by
    simp only [start, RingRun.start, ringInitialise_ok hinit]
  obtain ⟨hle, hpeak⟩ := @Machine.run_peak _ _ RingRun.step (fun s : RingRun P => ∃ t, s.Refines capacity t)
    (fun s => s.ring.count) (fun s => s.ring.highWaterMark)
    (fun s call ⟨_, h⟩ => ⟨⟨_, h.step call⟩, h.mark_step call⟩) start ⟨_, refines_start hinit before⟩ hstart calls
  refine ⟨hcap, ?_, ?_, ?_, ?_, fun i hi => ⟨?_, fun hfree => ?_⟩, h.enqueuedEvents, h.droppedEvents, hle, hpeak,
    t.fifo.queue.map Prod.snd, ?_, hholds.destroy_perm⟩
  · rw [hcount, ← hcap]
    exact hholds.bound
  · rw [hcount]
    exact hholds.tail
  · rw [hholds.slots, List.length_map, List.length_range, hcap]
  · rw [hholds.occupied, List.length_map, List.length_range, hcap]
  · rw [← hcap] at hi
    rw [hholds.flag hi, Circular.window_isSome_iff hholds.bound hi, hcount]
    simp only [hholds.index]
  · rw [← hcap] at hi
    rw [hholds.flag hi, Option.isSome_eq_false_iff, Option.isNone_iff_eq_none] at hfree
    rw [hholds.slot hi, hfree]
    rfl
  · rw [h.accepted, h.wellFormed.history, List.map_append, h.delivered]

theorem ring_accounting_small :
    ringInit true 256 = .ok ∧
      (Machine.run RingRun.step (.start Nat (ringInitialise true .zero 256))
        [.enqueue 1 warning, .enqueue 2 warning, .tryDequeue]).ring.enqueuedEvents = 2 :=
  ⟨by decide, (ring_accounting true .zero 256 (by decide)
    [.enqueue 1 warning, .enqueue 2 warning, .tryDequeue]).2.2.2.2.2.2.1⟩

end IoJournal
