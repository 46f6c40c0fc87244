import IoJournal.RingErrors
import IoJournal.Runs.Allocation

/-!
# IoJournal.EventMemory

The memory of an event copy, from `ij_event_copy_from_input` through the ring to
`ij_event_copy_dispose`.

An event copy has two blocks, its text arena and its attributes. `OwnedCopy` is a copy with these
blocks, `OwnedRing` the ring with the blocks of its two arrays and of the copies in its slots. The
functions that allocate or free are programs of `Allocation`; the others only move blocks.

* `eventCopyFromInputM_owns`: the copy owns its blocks, and a call that fails has freed them.
* `OwnedRing.Holds`: the blocks in the slots are those of the queued copies, slot by slot.
* `ringDestroyM_owns`: what is freed at the end, and what is not when the mutex fails.
* `ring_custody`: over any run of calls nothing is freed twice, and every block in use is in the ring,
  in the hands of a caller, or lost by a mutex that failed.
-/

namespace IoJournal

open Wire Allocation

/-! ## Event copies -/

structure EventBlocks where
  textArena : Option Block
  attributes : Option Block

def EventBlocks.zero : EventBlocks := ⟨none, none⟩

def EventBlocks.held (b : EventBlocks) : Multiset Block := owned b.textArena + owned b.attributes

@[simp] theorem EventBlocks.held_zero : EventBlocks.zero.held = 0 := rfl

structure OwnedCopy where
  event : EventCopy
  blocks : EventBlocks

def OwnedCopy.zero : OwnedCopy := ⟨.zero, .zero⟩

/-- `ij_event_copy_dispose`. -/
def eventCopyDispose (copy : OwnedCopy) : Prog OwnedCopy := do
  free copy.blocks.textArena
  free copy.blocks.attributes
  return .zero

/-- The array of the attributes, if there are any. -/
def mallocAttributes (heap : Heap) (count : Nat) : Prog (Option Block) :=
  if count = 0 then pure none else malloc (heap.attributes count)

/-- `ij_event_copy_from_input`, with its allocations. -/
def eventCopyFromInputM (cpu : Cpu) (heap : Heap) (event : Option Event) (mode : Int) : Prog (Status × OwnedCopy) :=
  match event with
  | none => return (.invalidArgument, .zero)
  | some e =>
    match scanEvent cpu e mode with
    | none => return (.invalidArgument, .zero)
    | some scan => do
      let textArena ← malloc (heap.arena scan.arenaSize).isSome
      match heap.arena scan.arenaSize with
      | none =>
        let copy ← eventCopyDispose ⟨.zero, ⟨textArena, none⟩⟩
        return (.internalError, copy)
      | some arena =>
        let attributes ← mallocAttributes heap e.attributes.count
        match copyEvent (heap.attributes e.attributes.count) arena e scan with
        | .error status =>
          let copy ← eventCopyDispose ⟨.zero, ⟨textArena, attributes⟩⟩
          return (status, copy)
        | .ok copied => return (.ok, ⟨copied, ⟨textArena, attributes⟩⟩)

section Copies

variable {held : Multiset Block}

theorem eventCopyDispose_owns (copy : OwnedCopy) :
    Owns (copy.blocks.held + held) (eventCopyDispose copy) fun out held' => out = .zero ∧ held' = held := by
  rw [EventBlocks.held, add_assoc]
  refine Owns.free_bind ?_
  refine Owns.free_bind ?_
  exact .pure ⟨rfl, rfl⟩

theorem mallocAttributes_owns (heap : Heap) (textArena : Option Block) (count : Nat) :
    Owns (owned textArena + held) (mallocAttributes heap count) fun attributes held' =>
      held' = EventBlocks.held ⟨textArena, attributes⟩ + held := by
  unfold mallocAttributes
  split
  · refine .pure ?_
    rw [EventBlocks.held, owned_none, add_zero]
  · refine (Owns.malloc _).mono fun attributes held' h => ?_
    rw [h.2, EventBlocks.held]
    abel

/-- What a copy call returns: the copy of the model without memory, or a status and an empty copy. -/
def CopyResult (result : Except Status EventCopy) (out : Status × OwnedCopy) : Prop :=
  match result with
  | .error status => out = (status, .zero)
  | .ok copied => out.1 = .ok ∧ out.2.event = copied

theorem eventCopyFromInputM_owns (cpu : Cpu) (heap : Heap) (event : Option Event) (mode : Int) :
    Owns held (eventCopyFromInputM cpu heap event mode) fun out held' =>
      held' = out.2.blocks.held + held ∧ CopyResult (eventCopyFromInput cpu heap event mode) out := by
  have hnothing : held = OwnedCopy.zero.blocks.held + held := (zero_add held).symm
  cases event with
  | none => exact .pure ⟨hnothing, rfl⟩
  | some e =>
    simp only [eventCopyFromInputM, eventCopyFromInput]
    cases scanEvent cpu e mode with
    | none => exact .pure ⟨hnothing, rfl⟩
    | some scan =>
      simp only
      cases heap.arena scan.arenaSize with
      | none =>
        refine (Owns.malloc _).bind fun textArena held₁ h₁ => ?_
        obtain ⟨hnone, hheld⟩ := h₁
        rw [Option.isSome_none, Option.isSome_eq_false_iff, Option.isNone_iff_eq_none] at hnone
        rw [hheld, hnone, owned_none]
        refine (eventCopyDispose_owns ⟨.zero, .zero⟩).bind fun copy held₂ h₂ => ?_
        rw [h₂.1, h₂.2]
        exact .pure ⟨hnothing, rfl⟩
      | some arena =>
        simp only
        refine (Owns.malloc _).bind fun textArena held₁ h₁ => ?_
        rw [h₁.2]
        refine (mallocAttributes_owns heap textArena _).bind fun attributes held₂ h₂ => ?_
        rw [h₂]
        cases copyEvent (heap.attributes e.attributes.count) arena e scan with
        | error status =>
          refine (eventCopyDispose_owns ⟨.zero, ⟨textArena, attributes⟩⟩).bind fun copy held₃ h₃ => ?_
          rw [h₃.1, h₃.2]
          exact .pure ⟨hnothing, rfl⟩
        | ok copied => exact .pure ⟨rfl, rfl, rfl⟩

end Copies

/-! ## The ring -/

/-- `ij_ring_t` with the blocks of its two arrays, and of the copies in its slots. -/
structure OwnedRing where
  ring : Ring
  slots : Option Block
  occupied : Option Block
  copies : List EventBlocks

def OwnedRing.zero : OwnedRing := ⟨.zero, none, none, []⟩

def OwnedRing.held (r : OwnedRing) : Multiset Block :=
  owned r.slots + owned r.occupied + (r.copies.map EventBlocks.held).sum

/-- `ij_ring_init`, with the answers of its two allocations and of `mtx_init`. -/
def ringInitM (slots occupied mutex : Bool) (r : OwnedRing) (capacity : Nat) : Prog (Status × OwnedRing) :=
  if capacity < queueCapacityMin ∨ queueCapacityMax < capacity ∨ capacity &&& (capacity - 1) ≠ 0 then
    return (.invalidArgument, r)
  else do
    let slotsBlock ← malloc slots
    let occupiedBlock ← malloc occupied
    -- the source has this body twice: for the allocations, and then for the mutex
    if slotsBlock.isNone || occupiedBlock.isNone || !mutex then
      free slotsBlock
      free occupiedBlock
      return (.internalError, .zero)
    else
      return (.ok, ⟨ringInitialise true r.ring capacity, slotsBlock, occupiedBlock, List.replicate capacity .zero⟩)

/-- `ij_ring_enqueue`: a copy that is stored takes its blocks along. -/
def ringEnqueueM (lock unlock : Bool) (r : OwnedRing) (copy : OwnedCopy) : Status × OwnedRing × OwnedCopy :=
  let (status, ring, left) := ringEnqueue lock unlock r.ring copy.event
  if r.ring.slots = [] ∨ lock = false ∨ r.ring.capacity ≤ r.ring.count then
    (status, { r with ring := ring }, ⟨left, copy.blocks⟩)
  else
    (status, { r with ring := ring, copies := r.copies.set (r.ring.tail &&& r.ring.mask) copy.blocks }, ⟨left, .zero⟩)

/-- `ij_ring_try_dequeue`: the blocks go where the slot is copied to. -/
def ringTryDequeueM (lock unlock : Bool) (r : OwnedRing) : Bool × OwnedRing × Option OwnedCopy :=
  let (found, ring, out) := ringTryDequeue lock unlock r.ring
  match out with
  | none => (found, { r with ring := ring }, none)
  | some event =>
    let headIndex := r.ring.head &&& r.ring.mask
    (found, { r with ring := ring, copies := r.copies.set headIndex .zero },
      some ⟨event, r.copies.getD headIndex .zero⟩)

def disposeAll : List EventBlocks → Prog Unit
  | [] => return ()
  | b :: bs => do
    let _ ← eventCopyDispose ⟨.zero, b⟩
    disposeAll bs

/-- The slots that `ij_ring_destroy` disposes of. -/
def OwnedRing.disposed (r : OwnedRing) : List EventBlocks :=
  (List.range r.ring.capacity).filterMap fun i =>
    if r.ring.occupied.getD i false then some (r.copies.getD i .zero) else none

/-- `ij_ring_destroy`. -/
def ringDestroyM (lock unlock : Bool) (r : OwnedRing) : Prog OwnedRing :=
  if r.ring.slots = [] then return r
  else if lock then do
    disposeAll r.disposed
    if !unlock then return .zero
    else
      free r.slots
      free r.occupied
      return .zero
  else do
    free r.slots
    free r.occupied
    return .zero

/-- The ring holds a queue of copies: the events, and slot by slot the blocks. -/
structure OwnedRing.Holds (r : OwnedRing) (q : List OwnedCopy) : Prop where
  ring : r.ring.Holds (q.map (·.event))
  copies : r.copies = (List.range r.ring.capacity).map fun i =>
    ((Circular.window r.ring.capacity r.ring.head (q.map (·.blocks)) i).getD .zero)

def copiesHeld (copies : List OwnedCopy) : Multiset Block := (copies.map (·.blocks.held)).sum

@[simp] theorem copiesHeld_nil : copiesHeld [] = 0 := rfl

@[simp] theorem copiesHeld_cons (copy : OwnedCopy) (copies : List OwnedCopy) :
    copiesHeld (copy :: copies) = copy.blocks.held + copiesHeld copies := List.sum_cons

@[simp] theorem copiesHeld_append (copies more : List OwnedCopy) :
    copiesHeld (copies ++ more) = copiesHeld copies + copiesHeld more := by
  rw [copiesHeld, List.map_append, List.sum_append]
  rfl

section Holds

variable {r : OwnedRing} {q : List OwnedCopy}

theorem sum_getD_held (w : Nat → Option EventBlocks) (is : List Nat) :
    ((is.map fun i => (w i).getD .zero).map EventBlocks.held).sum = ((is.filterMap w).map EventBlocks.held).sum := by
  induction is with
  | nil => rfl
  | cons i is ih =>
    simp only [List.map_cons, List.sum_cons, ih]
    cases hi : w i with
    | none => rw [List.filterMap_cons_none hi, Option.getD_none, EventBlocks.held_zero, zero_add]
    | some b => rw [List.filterMap_cons_some hi, Option.getD_some, List.map_cons, List.sum_cons]

theorem OwnedRing.Holds.window_perm (h : r.Holds q) : ((List.range r.ring.capacity).filterMap
    (Circular.window r.ring.capacity r.ring.head (q.map (·.blocks)))).Perm (q.map (·.blocks)) := by
  refine Circular.filterMap_window_perm ?_
  have hbound := h.ring.bound
  rwa [List.length_map] at hbound ⊢

theorem OwnedRing.Holds.copies_held (h : r.Holds q) : (r.copies.map EventBlocks.held).sum = copiesHeld q := by
  rw [h.copies, sum_getD_held, (h.window_perm.map EventBlocks.held).sum_eq, List.map_map]
  rfl

theorem OwnedRing.Holds.held (h : r.Holds q) : r.held = owned r.slots + owned r.occupied + copiesHeld q := by
  rw [OwnedRing.held, h.copies_held]

theorem ringInitM_owns {held : Multiset Block} (slots occupied mutex : Bool) (capacity : Nat) :
    Owns held (ringInitM slots occupied mutex .zero capacity) fun out held' =>
      held' = out.2.held + held ∧ out.1 = ringInit (slots && occupied && mutex) capacity ∧
        out.2.ring = ringInitialise (slots && occupied && mutex) .zero capacity ∧
        (out.1 = .ok ∧ out.2.Holds [] ∧ out.2.slots.isSome = true ∧ out.2.occupied.isSome = true ∨
          out.1 ≠ .ok ∧ out.2 = .zero) := by
  have hnothing : held = OwnedRing.zero.held + held := (zero_add held).symm
  unfold ringInitM
  split
  · rename_i hcapacity
    have hinvalid : ringInit (slots && occupied && mutex) capacity = .invalidArgument := if_pos hcapacity
    refine .pure ⟨hnothing, hinvalid.symm, ?_, .inr ⟨by decide, rfl⟩⟩
    rw [ringInitialise, hinvalid]
    rfl
  · rename_i hcapacity
    have hvalid : ∀ memory, ringInit memory capacity = if memory then .ok else .internalError := fun _ => if_neg hcapacity
    rw [hvalid]
    refine (Owns.malloc slots).bind fun slotsBlock held₁ h₁ => ?_
    obtain ⟨hslots, rfl⟩ := h₁
    refine (Owns.malloc occupied).bind fun occupiedBlock held₂ h₂ => ?_
    obtain ⟨hoccupied, rfl⟩ := h₂
    have hanswers : (slotsBlock.isNone || occupiedBlock.isNone || !mutex) = !(slots && occupied && mutex) := by
      rw [← hslots, ← hoccupied, Bool.not_and, Bool.not_and, Option.not_isSome, Option.not_isSome]
    have hheld : owned occupiedBlock + (owned slotsBlock + held) = owned slotsBlock + (owned occupiedBlock + held) := by
      abel
    rw [hanswers, hheld]
    cases hall : (slots && occupied && mutex) with
    | false =>
      simp only [Bool.not_false, if_true, Bool.false_eq_true, if_false]
      refine Owns.free_bind ?_
      refine Owns.free_bind ?_
      refine .pure ⟨hnothing, rfl, ?_, .inr ⟨by decide, rfl⟩⟩
      rw [ringInitialise, hvalid]
      rfl
    | true =>
      simp only [Bool.not_true, if_true, Bool.false_eq_true, if_false]
      have hok : ringInit true capacity = .ok := hvalid true
      have hring := ringInitialise_holds hok .zero
      have hholds : OwnedRing.Holds ⟨ringInitialise true .zero capacity, slotsBlock, occupiedBlock,
          List.replicate capacity .zero⟩ [] := by
        refine ⟨hring, ?_⟩
        rw [ringInitialise_ok hok]
        simp [Circular.window, List.map_const']
      have hblocks := hholds.held
      rw [copiesHeld_nil, add_zero] at hblocks
      simp only [Bool.and_eq_true] at hall
      refine .pure ⟨?_, rfl, rfl, .inl ⟨rfl, hholds, hslots.trans hall.1.1, hoccupied.trans hall.1.2⟩⟩
      rw [← add_assoc]
      exact (congrArg (· + held) hblocks).symm

theorem OwnedRing.Holds.enqueue (h : r.Holds q) (lock unlock : Bool) (copy : OwnedCopy) :
    (ringEnqueueM lock unlock r copy).2.1.slots = r.slots ∧
      (ringEnqueueM lock unlock r copy).2.1.occupied = r.occupied ∧
      ((ringEnqueueM lock unlock r copy).2.1.Holds q ∧ (ringEnqueueM lock unlock r copy).2.2 = copy ∨
        (ringEnqueueM lock unlock r copy).2.1.Holds (q ++ [copy]) ∧ (ringEnqueueM lock unlock r copy).2.2 = .zero) := by
  have hcount := h.ring.count
  have hbound := h.ring.bound
  have hnull := h.ring.slots_ne
  cases lock with
  | false =>
    simp only [ringEnqueueM, ringEnqueue_unlocked h.ring, true_or, or_true, if_true]
    exact ⟨trivial, trivial, .inl ⟨⟨h.ring, h.copies⟩, trivial⟩⟩
  | true =>
    have hunlock := ringEnqueue_unlock unlock r.ring copy.event
    by_cases hroom : (q.map (·.event)).length < r.ring.capacity
    · rw [ringEnqueue_room h.ring hroom] at hunlock
      have hcond : ¬(r.ring.slots = [] ∨ true = false ∨ r.ring.capacity ≤ r.ring.count) := by
        simp only [hnull, false_or, Bool.true_eq_false]
        omega
      have hout : ringEnqueueM true unlock r copy = ((ringEnqueue true unlock r.ring copy.event).1,
          { r with ring := r.ring.pushed copy.event,
                   copies := r.copies.set (r.ring.tail &&& r.ring.mask) copy.blocks }, ⟨.zero, .zero⟩) := by
        simp only [ringEnqueueM, if_neg hcond, hunlock]
      rw [hout]
      refine ⟨rfl, rfl, .inr ⟨⟨?_, ?_⟩, rfl⟩⟩
      · rw [List.map_append]
        exact h.ring.pushed hroom copy.event
      · show r.copies.set (r.ring.tail &&& r.ring.mask) copy.blocks = (List.range r.ring.capacity).map fun i =>
          (Circular.window r.ring.capacity r.ring.head ((q ++ [copy]).map (·.blocks)) i).getD .zero
        have hlen : (q.map (·.blocks)).length < r.ring.capacity := by
          rwa [List.length_map] at hroom ⊢
        rw [h.ring.tail_index, h.copies, Circular.set_map_range, List.map_append]
        refine List.map_congr_left fun i hi => ?_
        rw [List.map_singleton, Circular.window_push copy.blocks hlen (List.mem_range.1 hi), List.length_map,
          List.length_map]
        split <;> rfl
    · rw [ringEnqueue_full h.ring (by omega)] at hunlock
      have hcond : r.ring.slots = [] ∨ true = false ∨ r.ring.capacity ≤ r.ring.count := by
        right; right
        omega
      have hout : ringEnqueueM true unlock r copy = ((ringEnqueue true unlock r.ring copy.event).1,
          { r with ring := { r.ring with droppedEvents := (r.ring.droppedEvents + 1) % wordSize } }, copy) := by
        simp only [ringEnqueueM, if_pos hcond, hunlock]
      rw [hout]
      exact ⟨rfl, rfl, .inl ⟨⟨{ h.ring with }, h.copies⟩, rfl⟩⟩

theorem OwnedRing.Holds.tryDequeue (h : r.Holds q) (lock unlock : Bool) :
    (ringTryDequeueM lock unlock r).2.1.slots = r.slots ∧
      (ringTryDequeueM lock unlock r).2.1.occupied = r.occupied ∧
      ((ringTryDequeueM lock unlock r).2.1.Holds q ∧ (ringTryDequeueM lock unlock r).2.2 = none ∨
        ∃ copy rest, q = copy :: rest ∧ (ringTryDequeueM lock unlock r).1 = unlock ∧
          (ringTryDequeueM lock unlock r).2.1.Holds rest ∧ (ringTryDequeueM lock unlock r).2.2 = some copy) := by
  cases lock with
  | false =>
    simp only [ringTryDequeueM, ringTryDequeue_unlocked h.ring]
    exact ⟨trivial, trivial, .inl ⟨⟨h.ring, h.copies⟩, trivial⟩⟩
  | true =>
    have hunlock := ringTryDequeue_unlock unlock r.ring
    cases q with
    | nil =>
      rw [ringTryDequeue_empty h.ring] at hunlock
      simp only [ringTryDequeueM, hunlock]
      exact ⟨trivial, trivial, .inl ⟨⟨h.ring, h.copies⟩, trivial⟩⟩
    | cons copy rest =>
      have hholds : r.ring.Holds (copy.event :: rest.map (·.event)) := h.ring
      have hfound : (ringTryDequeue true unlock r.ring).1 = unlock := by
        have hcount : r.ring.count ≠ 0 := by
          rw [hholds.count]
          exact Nat.succ_ne_zero _
        simp only [ringTryDequeue, if_neg hholds.slots_ne, Bool.not_true, Bool.false_eq_true, if_false, if_neg hcount]
      rw [ringTryDequeue_some hholds] at hunlock
      have hindex : r.ring.head &&& r.ring.mask = r.ring.head % r.ring.capacity := hholds.mask _
      have hblocks : r.copies.getD (r.ring.head &&& r.ring.mask) .zero = copy.blocks := by
        have hslot := Circular.window_slot r.ring.head ((copy :: rest).map (·.blocks)) hholds.pos
        rw [Nat.add_zero] at hslot
        rw [hindex, h.copies, List.getD_eq_getElem?_getD, List.getElem?_map,
          List.getElem?_range (Nat.mod_lt _ hholds.pos), Option.map_some, hslot]
        rfl
      have hout : ringTryDequeueM true unlock r = (unlock,
          { r with ring := r.ring.popped, copies := r.copies.set (r.ring.head &&& r.ring.mask) .zero }, some copy) := by
        simp only [ringTryDequeueM, hunlock, hfound, hblocks]
      rw [hout]
      refine ⟨rfl, rfl, .inr ⟨copy, rest, rfl, rfl, ⟨hholds.popped, ?_⟩, rfl⟩⟩
      show r.copies.set (r.ring.head &&& r.ring.mask) .zero = (List.range r.ring.capacity).map fun i =>
        (Circular.window r.ring.capacity ((r.ring.head + 1) % wordSize) (rest.map (·.blocks)) i).getD .zero
      have hlen : (rest.map (·.blocks)).length < r.ring.capacity := by
        have := hholds.bound
        rw [List.length_cons, List.length_map] at this
        rwa [List.length_map]
      rw [hindex, h.copies, Circular.set_map_range, Circular.window_mod hholds.dvd]
      refine List.map_congr_left fun i hi => ?_
      rw [Circular.window_pop copy.blocks hlen (List.mem_range.1 hi)]
      split <;> rfl

theorem disposeAll_owns {held : Multiset Block} (bs : List EventBlocks) :
    Owns ((bs.map EventBlocks.held).sum + held) (disposeAll bs) fun _ held' => held' = held := by
  induction bs with
  | nil => exact .pure (zero_add held)
  | cons b bs ih =>
    rw [List.map_cons, List.sum_cons, add_assoc]
    refine (eventCopyDispose_owns ⟨.zero, b⟩).bind fun copy held₁ h₁ => ?_
    rw [h₁.2]
    exact ih

/-- The flags lead `ij_ring_destroy` to the queued copies. -/
theorem OwnedRing.Holds.disposed (h : r.Holds q) :
    (r.disposed.map EventBlocks.held).sum = copiesHeld q := by
  have hdisposed : r.disposed = (List.range r.ring.capacity).filterMap
      (Circular.window r.ring.capacity r.ring.head (q.map (·.blocks))) := by
    refine List.filterMap_congr fun i hi => ?_
    rw [h.ring.flag (List.mem_range.1 hi), h.copies, List.getD_eq_getElem?_getD, List.getElem?_map,
      List.getElem?_range (List.mem_range.1 hi)]
    simp only [Circular.window, List.getElem?_map, Option.isSome_map, Option.map_some, Option.getD_some]
    cases q[Circular.offset r.ring.capacity r.ring.head i]? <;> rfl
  rw [hdisposed, (h.window_perm.map EventBlocks.held).sum_eq, List.map_map]
  rfl

/-- What `ij_ring_destroy` does not free: the queued copies when it cannot lock, and its two arrays when it
cannot unlock. -/
def OwnedRing.lost (lock unlock : Bool) (r : OwnedRing) : Multiset Block :=
  if lock then (if unlock then 0 else owned r.slots + owned r.occupied) else (r.copies.map EventBlocks.held).sum

theorem ringDestroyM_owns {held : Multiset Block} (lock unlock : Bool) (h : r.Holds q) :
    Owns (r.held + held) (ringDestroyM lock unlock r) fun out held' =>
      out = .zero ∧ held' = r.lost lock unlock + held := by
  have harrays : ∀ more, Owns (owned r.slots + owned r.occupied + more)
      (free r.slots >>= fun _ => free r.occupied >>= fun _ => pure OwnedRing.zero)
      fun out held' => out = .zero ∧ held' = more := by
    intro more
    rw [add_assoc]
    refine Owns.free_bind ?_
    refine Owns.free_bind ?_
    exact .pure ⟨rfl, rfl⟩
  unfold ringDestroyM
  rw [if_neg h.ring.slots_ne, h.held]
  cases lock with
  | false =>
    rw [if_neg Bool.false_ne_true, add_assoc, ← h.copies_held]
    exact harrays _
  | true =>
    have hheld : owned r.slots + owned r.occupied + copiesHeld q + held =
        (r.disposed.map EventBlocks.held).sum + (owned r.slots + owned r.occupied + held) := by
      rw [h.disposed]
      abel
    rw [if_pos rfl, hheld]
    refine (disposeAll_owns _).bind fun _ held₁ h₁ => ?_
    rw [h₁]
    cases unlock with
    | false => exact .pure ⟨rfl, rfl⟩
    | true => exact (harrays _).mono fun out held' h' => ⟨h'.1, h'.2.trans (zero_add held).symm⟩

end Holds

/-! ## Custody -/

/-- The ring, the copies in the hands of its callers, and the blocks that no one can free any more. -/
structure Custody where
  ring : OwnedRing
  hands : List OwnedCopy
  lost : Multiset Block

def Custody.held (s : Custody) : Multiset Block := s.ring.held + copiesHeld s.hands + s.lost

/-- A call, with the answers of the allocator and of the mutex; a copy is named by its place in `hands`. -/
inductive CustodyCall where
  | copy (cpu : Cpu) (heap : Heap) (event : Option Event) (mode : Int)
  | enqueue (lock unlock : Bool) (i : Nat)
  | tryDequeue (lock unlock : Bool)
  | dispose (i : Nat)
  | destroy (lock unlock : Bool)

/-- A consumer that is told that there was nothing leaves its structure alone, whatever is in it. -/
def Custody.step (s : Custody) : CustodyCall → Prog Custody
  | .copy cpu heap event mode => do
    let out ← eventCopyFromInputM cpu heap event mode
    return { s with hands := s.hands ++ [out.2] }
  | .enqueue lock unlock i =>
    match s.hands[i]? with
    | none => return s
    | some copy =>
      let (_, ring, left) := ringEnqueueM lock unlock s.ring copy
      return { s with ring := ring, hands := s.hands.set i left }
  | .tryDequeue lock unlock =>
    let (found, ring, out) := ringTryDequeueM lock unlock s.ring
    match out with
    | none => return { s with ring := ring }
    | some copy =>
      if found then return { s with ring := ring, hands := s.hands ++ [copy] }
      else return { s with ring := ring, lost := s.lost + copy.blocks.held }
  | .dispose i =>
    match s.hands[i]? with
    | none => return s
    | some copy => do
      let left ← eventCopyDispose copy
      return { s with hands := s.hands.set i left }
  | .destroy lock unlock => do
    let ring ← ringDestroyM lock unlock s.ring
    return { s with ring := ring, lost := s.lost + s.ring.lost lock unlock }

structure Hands where
  ring : Ring
  hands : List EventCopy

def Hands.step (t : Hands) : CustodyCall → Hands
  | .copy cpu heap event mode =>
    match eventCopyFromInput cpu heap event mode with
    | .error _ => { t with hands := t.hands ++ [.zero] }
    | .ok copied => { t with hands := t.hands ++ [copied] }
  | .enqueue lock unlock i =>
    match t.hands[i]? with
    | none => t
    | some event =>
      let (_, ring, left) := ringEnqueue lock unlock t.ring event
      ⟨ring, t.hands.set i left⟩
  | .tryDequeue lock unlock =>
    let (found, ring, out) := ringTryDequeue lock unlock t.ring
    ⟨ring, if found then t.hands ++ out.toList else t.hands⟩
  | .dispose i => { t with hands := t.hands.set i .zero }
  | .destroy lock _ => { t with ring := (ringDestroy lock t.ring).2 }

/-- The mutex does what is asked of it where blocks depend on it. -/
def CustodyCall.released : CustodyCall → Bool
  | .tryDequeue lock unlock => !lock || unlock
  | .destroy lock unlock => lock && unlock
  | _ => true

def Custody.plain (s : Custody) : Hands := ⟨s.ring.ring, s.hands.map (·.event)⟩

def OwnedRing.Sound (r : OwnedRing) : Prop := r = .zero ∨ ∃ q, r.Holds q

/-- What a run keeps; `released` tells whether the mutex has failed so far. -/
structure Custody.Follows (s : Custody) (t : Hands × Bool) : Prop where
  sound : s.ring.Sound
  plain : s.plain = t.1
  lost : t.2 = true → s.lost = 0

def Hands.stepReleased (t : Hands × Bool) (c : CustodyCall) : Hands × Bool := (t.1.step c, t.2 && c.released)

theorem stepReleased_run (t : Hands × Bool) (calls : List CustodyCall) :
    Machine.run Hands.stepReleased t calls = (Machine.run Hands.step t.1 calls, t.2 && calls.all (·.released)) := by
  induction calls generalizing t with
  | nil => simp
  | cons c calls ih =>
    rw [Machine.run_cons, Machine.run_cons, ih, List.all_cons, ← Bool.and_assoc]
    rfl

/-! ## A ring that may have been destroyed -/

section Sound

variable {r : OwnedRing}

theorem ringEnqueueM_plain (lock unlock : Bool) (r : OwnedRing) (copy : OwnedCopy) :
    (ringEnqueueM lock unlock r copy).2.1.ring = (ringEnqueue lock unlock r.ring copy.event).2.1 ∧
      (ringEnqueueM lock unlock r copy).2.2.event = (ringEnqueue lock unlock r.ring copy.event).2.2 := by
  simp only [ringEnqueueM]
  split
  · exact ⟨rfl, rfl⟩
  · exact ⟨rfl, rfl⟩

theorem ringTryDequeueM_plain (lock unlock : Bool) (r : OwnedRing) :
    (ringTryDequeueM lock unlock r).1 = (ringTryDequeue lock unlock r.ring).1 ∧
      (ringTryDequeueM lock unlock r).2.1.ring = (ringTryDequeue lock unlock r.ring).2.1 ∧
      (ringTryDequeueM lock unlock r).2.2.map (·.event) = (ringTryDequeue lock unlock r.ring).2.2 := by
  simp only [ringTryDequeueM]
  split
  · rename_i hout
    exact ⟨rfl, rfl, hout.symm⟩
  · rename_i event hout
    exact ⟨rfl, rfl, hout.symm⟩

/-- Between the ring and the caller no block is lost or made. -/
theorem OwnedRing.Sound.enqueue (h : r.Sound) (lock unlock : Bool) (copy : OwnedCopy) :
    (ringEnqueueM lock unlock r copy).2.1.Sound ∧
      (ringEnqueueM lock unlock r copy).2.1.held + (ringEnqueueM lock unlock r copy).2.2.blocks.held =
        r.held + copy.blocks.held := by
  obtain rfl | ⟨q, hq⟩ := h
  · exact ⟨.inl rfl, rfl⟩
  · have hheld := hq.held
    obtain ⟨hslots, hoccupied, ⟨hsame, hleft⟩ | ⟨hpushed, hleft⟩⟩ := hq.enqueue lock unlock copy
    · rw [hsame.held, hslots, hoccupied, hleft, hheld]
      exact ⟨.inr ⟨q, hsame⟩, rfl⟩
    · rw [hpushed.held, hslots, hoccupied, hleft, hheld, copiesHeld_append, copiesHeld_cons, copiesHeld_nil]
      exact ⟨.inr ⟨_, hpushed⟩, by simp [OwnedCopy.zero, add_assoc]⟩

theorem OwnedRing.Sound.tryDequeue (h : r.Sound) (lock unlock : Bool) :
    (ringTryDequeueM lock unlock r).2.1.Sound ∧
      ((ringTryDequeueM lock unlock r).2.2 = none ∧ (ringTryDequeueM lock unlock r).2.1.held = r.held ∨
        ∃ copy, (ringTryDequeueM lock unlock r).2.2 = some copy ∧ (ringTryDequeueM lock unlock r).1 = unlock ∧
          lock = true ∧ (ringTryDequeueM lock unlock r).2.1.held + copy.blocks.held = r.held) := by
  obtain rfl | ⟨q, hq⟩ := h
  · exact ⟨.inl rfl, .inl ⟨rfl, rfl⟩⟩
  · have hheld := hq.held
    obtain ⟨hslots, hoccupied, ⟨hsame, hout⟩ | ⟨copy, rest, rfl, hfound, hpopped, hout⟩⟩ := hq.tryDequeue lock unlock
    · refine ⟨.inr ⟨q, hsame⟩, .inl ⟨hout, ?_⟩⟩
      rw [hsame.held, hslots, hoccupied, hheld]
    · refine ⟨.inr ⟨rest, hpopped⟩, .inr ⟨copy, hout, hfound, ?_, ?_⟩⟩
      · cases lock with
        | true => rfl
        | false =>
          have hnone := (ringTryDequeueM_plain false unlock r).2.2
          rw [hout, ringTryDequeue_unlocked hq.ring] at hnone
          cases hnone
      · rw [hpopped.held, hslots, hoccupied, hheld, copiesHeld_cons]
        abel

theorem OwnedRing.Sound.destroy {held : Multiset Block} (h : r.Sound) (lock unlock : Bool) :
    Owns (r.held + held) (ringDestroyM lock unlock r) fun out held' =>
      out = .zero ∧ held' = r.lost lock unlock + held ∧ out.ring = (ringDestroy lock r.ring).2 := by
  obtain rfl | ⟨q, hq⟩ := h
  · have hnothing : OwnedRing.zero.lost lock unlock = 0 := by
      cases lock <;> cases unlock <;> rfl
    rw [hnothing]
    exact .pure ⟨rfl, rfl, rfl⟩
  · refine (ringDestroyM_owns lock unlock hq).mono fun out held' h' => ⟨h'.1, h'.2, ?_⟩
    rw [h'.1, ringDestroy, if_neg hq.ring.slots_ne]
    split <;> rfl

end Sound

theorem copiesHeld_set {hands : List OwnedCopy} {i : Nat} {copy : OwnedCopy} (h : hands[i]? = some copy) (left : OwnedCopy) :
    copiesHeld (hands.set i left) + copy.blocks.held = copiesHeld hands + left.blocks.held := by
  induction hands generalizing i with
  | nil => cases h
  | cons first rest ih =>
    cases i with
    | zero =>
      cases h
      rw [List.set_cons_zero, copiesHeld_cons, copiesHeld_cons]
      abel
    | succ i =>
      rw [List.set_cons_succ, copiesHeld_cons, copiesHeld_cons, add_assoc, ih h, add_assoc]

theorem exchange {a a' b b' x y : Multiset Block} (h : a' + y = a + x) (h' : b' + x = b + y) : a' + b' = a + b := by
  have hsum : a' + b' + (x + y) = a + b + (x + y) := by
    calc a' + b' + (x + y) = (a' + y) + (b' + x) := by abel
      _ = (a + x) + (b + y) := by rw [h, h']
      _ = a + b + (x + y) := by abel
  exact add_right_cancel hsum

theorem getElem?_plain (s : Custody) (i : Nat) : s.plain.hands[i]? = s.hands[i]?.map (·.event) := List.getElem?_map

section Step

variable {s : Custody} {t : Hands × Bool}

theorem Custody.Follows.copy (h : s.Follows t) (cpu : Cpu) (heap : Heap) (event : Option Event) (mode : Int) :
    Owns s.held (s.step (.copy cpu heap event mode)) fun s' held' =>
      held' = s'.held ∧ s'.Follows (Hands.stepReleased t (.copy cpu heap event mode)) := by
  refine (eventCopyFromInputM_owns cpu heap event mode).bind fun out held' hout => ?_
  obtain ⟨hheld, hresult⟩ := hout
  refine .pure ⟨?_, h.sound, ?_, fun hreleased => h.lost (Bool.and_eq_true_iff.1 hreleased).1⟩
  · rw [hheld, Custody.held, Custody.held, copiesHeld_append, copiesHeld_cons, copiesHeld_nil]
    abel
  · simp only [Hands.stepReleased, Hands.step, ← h.plain, Custody.plain, List.map_append, List.map_singleton]
    cases hcopy : eventCopyFromInput cpu heap event mode with
    | error status =>
      rw [hcopy] at hresult
      rw [show out = (status, .zero) from hresult]
      rfl
    | ok copied =>
      rw [hcopy] at hresult
      rw [hresult.2]

theorem Custody.Follows.enqueue (h : s.Follows t) (lock unlock : Bool) (i : Nat) :
    Owns s.held (s.step (.enqueue lock unlock i)) fun s' held' =>
      held' = s'.held ∧ s'.Follows (Hands.stepReleased t (.enqueue lock unlock i)) := by
  have hreleased : (Hands.stepReleased t (.enqueue lock unlock i)).2 = true → s.lost = 0 :=
    fun hall => h.lost (Bool.and_eq_true_iff.1 hall).1
  have hplain := getElem?_plain s i
  simp only [Custody.step]
  cases hi : s.hands[i]? with
  | none =>
    rw [hi, Option.map_none] at hplain
    refine .pure ⟨rfl, h.sound, ?_, hreleased⟩
    simp only [Hands.stepReleased, Hands.step, ← h.plain, hplain]
  | some copy =>
    rw [hi, Option.map_some] at hplain
    obtain ⟨hsound, hheld⟩ := h.sound.enqueue lock unlock copy
    obtain ⟨hring, hleft⟩ := ringEnqueueM_plain lock unlock s.ring copy
    refine .pure ⟨?_, hsound, ?_, hreleased⟩
    · have hset := copiesHeld_set hi (ringEnqueueM lock unlock s.ring copy).2.2
      exact congrArg (· + s.lost) (exchange hheld hset).symm
    · simp only [Hands.stepReleased, Hands.step, ← h.plain, hplain]
      simp only [Custody.plain, List.map_set, hring, hleft]

theorem Custody.Follows.tryDequeue (h : s.Follows t) (lock unlock : Bool) :
    Owns s.held (s.step (.tryDequeue lock unlock)) fun s' held' =>
      held' = s'.held ∧ s'.Follows (Hands.stepReleased t (.tryDequeue lock unlock)) := by
  obtain ⟨hfound, hring, hevent⟩ := ringTryDequeueM_plain lock unlock s.ring
  obtain ⟨hsound, ⟨hout, hheld⟩ | ⟨copy, hout, hunlock, rfl, hheld⟩⟩ := h.sound.tryDequeue lock unlock
  · simp only [Custody.step, hout]
    refine .pure ⟨?_, hsound, ?_, fun hall => h.lost (Bool.and_eq_true_iff.1 hall).1⟩
    · rw [Custody.held, Custody.held, hheld]
    · rw [hout, Option.map_none] at hevent
      simp only [Hands.stepReleased, Hands.step, ← h.plain, Custody.plain, hring, ← hevent]
      simp
  · rw [hout, Option.map_some] at hevent
    simp only [Custody.step, hout, hunlock]
    cases unlock with
    | true =>
      refine .pure ⟨?_, hsound, ?_, fun hall => h.lost (Bool.and_eq_true_iff.1 hall).1⟩
      · rw [Custody.held, Custody.held, ← hheld, copiesHeld_append, copiesHeld_cons, copiesHeld_nil]
        abel
      · simp only [Hands.stepReleased, Hands.step, ← h.plain, Custody.plain, hring, ← hevent, ← hfound, hunlock]
        simp
    | false =>
      refine .pure ⟨?_, hsound, ?_, fun hall => absurd (Bool.and_eq_true_iff.1 hall).2 (by decide)⟩
      · simp only [Custody.held, ← hheld]
        abel
      · simp only [Hands.stepReleased, Hands.step, ← h.plain, Custody.plain, hring, ← hevent, ← hfound, hunlock]
        simp

theorem Custody.Follows.dispose (h : s.Follows t) (i : Nat) :
    Owns s.held (s.step (.dispose i)) fun s' held' =>
      held' = s'.held ∧ s'.Follows (Hands.stepReleased t (.dispose i)) := by
  have hreleased : (Hands.stepReleased t (.dispose i)).2 = true → s.lost = 0 :=
    fun hall => h.lost (Bool.and_eq_true_iff.1 hall).1
  simp only [Custody.step]
  cases hi : s.hands[i]? with
  | none =>
    refine .pure ⟨rfl, h.sound, ?_, hreleased⟩
    have hlen : t.1.hands.length ≤ i := by
      rw [← h.plain, Custody.plain, List.length_map]
      exact List.getElem?_eq_none_iff.1 hi
    simp only [Hands.stepReleased, Hands.step, List.set_eq_of_length_le hlen]
    exact h.plain
  | some copy =>
    have hset := copiesHeld_set hi .zero
    rw [show OwnedCopy.zero.blocks.held = 0 from rfl, add_zero] at hset
    have hheld : s.held = copy.blocks.held + (s.ring.held + copiesHeld (s.hands.set i .zero) + s.lost) := by
      rw [Custody.held, ← hset]
      abel
    rw [hheld]
    refine (eventCopyDispose_owns copy).bind fun left held' hleft => ?_
    rw [hleft.1, hleft.2]
    refine .pure ⟨rfl, h.sound, ?_, hreleased⟩
    simp only [Hands.stepReleased, Hands.step, ← h.plain, Custody.plain, List.map_set]
    rfl

theorem Custody.Follows.destroy (h : s.Follows t) (lock unlock : Bool) :
    Owns s.held (s.step (.destroy lock unlock)) fun s' held' =>
      held' = s'.held ∧ s'.Follows (Hands.stepReleased t (.destroy lock unlock)) := by
  have hheld : s.held = s.ring.held + (copiesHeld s.hands + s.lost) := add_assoc _ _ _
  rw [hheld]
  refine (h.sound.destroy lock unlock).bind fun ring held' hring => ?_
  obtain ⟨hzero, hheld', hplain⟩ := hring
  refine .pure ⟨?_, .inl hzero, ?_, fun hall => ?_⟩
  · have hnothing : OwnedRing.zero.held = 0 := rfl
    simp only [hheld', Custody.held, hzero, hnothing]
    abel
  · simp only [Hands.stepReleased, Hands.step, ← h.plain, Custody.plain, hplain]
  · obtain ⟨hbefore, hanswers⟩ := Bool.and_eq_true_iff.1 hall
    obtain ⟨rfl, rfl⟩ := Bool.and_eq_true_iff.1 hanswers
    rw [h.lost hbefore]
    rfl

theorem Custody.Follows.step (h : s.Follows t) (c : CustodyCall) :
    Owns s.held (s.step c) fun s' held' => held' = s'.held ∧ s'.Follows (Hands.stepReleased t c) := by
  cases c with
  | copy cpu heap event mode => exact h.copy cpu heap event mode
  | enqueue lock unlock i => exact h.enqueue lock unlock i
  | tryDequeue lock unlock => exact h.tryDequeue lock unlock
  | dispose i => exact h.dispose i
  | destroy lock unlock => exact h.destroy lock unlock

end Step

/-- `ij_ring_init` and then the calls of the producers and the consumer. -/
def custodyRun (slots occupied mutex : Bool) (capacity : Nat) (calls : List CustodyCall) : Prog Custody := do
  let out ← ringInitM slots occupied mutex .zero capacity
  repeated Custody.step ⟨out.2, [], 0⟩ calls

theorem custody_zero {r : OwnedRing} (h : r.Sound) (hnull : r.ring.slots = []) : r.held = 0 := by
  obtain rfl | ⟨q, hq⟩ := h
  · rfl
  · exact absurd hnull hq.ring.slots_ne

theorem copiesHeld_disposed {copies : List OwnedCopy} (h : ∀ copy ∈ copies, copy.blocks = .zero) : copiesHeld copies = 0 := by
  refine List.sum_eq_zero fun b hb => ?_
  obtain ⟨copy, hcopy, rfl⟩ := List.mem_map.1 hb
  rw [h copy hcopy, EventBlocks.held_zero]

/-- Whatever the calls and the answers of the allocator and of the mutex are: no block is freed that is not
in use; the run does what it does in the model without memory; and what is in use at the end is in the
ring, in a copy of a caller, or lost. Nothing is lost while the mutex does what is asked of it, so once
the ring is destroyed and the copies are disposed of, the memory is as it was. -/
theorem ring_custody (slots occupied mutex : Bool) (capacity : Nat) (calls : List CustodyCall) (m : Memory) :
    ∃ s m', custodyRun slots occupied mutex capacity calls m = some (s, m') ∧
      m'.live = s.ring.held + copiesHeld s.hands + s.lost + m.live ∧
      s.plain = Machine.run Hands.step ⟨ringInitialise (slots && occupied && mutex) .zero capacity, []⟩ calls ∧
      (calls.all (·.released) = true → s.lost = 0 ∧
        (s.ring.ring.slots = [] → (∀ copy ∈ s.hands, copy.blocks = .zero) → m'.live = m.live)) := by
  have howns : Owns 0 (custodyRun slots occupied mutex capacity calls) fun s held' => held' = s.held ∧
      s.Follows (Machine.run Hands.stepReleased
        (⟨ringInitialise (slots && occupied && mutex) .zero capacity, []⟩, true) calls) := by
    refine (ringInitM_owns slots occupied mutex capacity).bind fun out held' hout => ?_
    obtain ⟨hheld, -, hring, hresult⟩ := hout
    have hstart : held' = Custody.held ⟨out.2, [], 0⟩ := by
      rw [hheld, Custody.held, copiesHeld_nil, add_zero, add_zero]
    have hfollows : Custody.Follows ⟨out.2, [], 0⟩
        (⟨ringInitialise (slots && occupied && mutex) .zero capacity, []⟩, true) := by
      refine ⟨?_, ?_, fun _ => rfl⟩
      · rcases hresult with ⟨-, hholds, -⟩ | ⟨-, hzero⟩
        · exact .inr ⟨[], hholds⟩
        · exact .inl hzero
      · rw [Custody.plain, hring]
        rfl
    rw [hstart]
    exact Owns.repeated (fun s t c h => h.step c) hfollows calls
  obtain ⟨s, held', next, hrun, hheld, hfollows⟩ := howns.run m
  rw [stepReleased_run] at hfollows
  have hlive : held' + m.live = s.ring.held + copiesHeld s.hands + s.lost + m.live := by rw [hheld, Custody.held]
  refine ⟨s, _, hrun, hlive, hfollows.plain, fun hreleased => ?_⟩
  have hlost := hfollows.lost (by rw [hreleased]; rfl)
  refine ⟨hlost, fun hnull hdisposed => ?_⟩
  change held' + m.live = m.live
  rw [hlive, hlost, custody_zero hfollows.sound hnull, copiesHeld_disposed hdisposed, add_zero, add_zero, zero_add]

end IoJournal
