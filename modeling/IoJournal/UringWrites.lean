import IoJournal.FileSink
import IoJournal.Posix.Crash
import IoJournal.Runs.Completions
import IoJournal.Runs.Machine

/-!
# IoJournal.UringWrites

`ij_file_sink_uring_write` and `ij_file_sink_uring_drain` down to the ring, between the opening of the ring
and its close.

A call prepares a request, submits all that is prepared, waits and takes the oldest completion. The request
carries no mark of its call. When the submission or the wait fails, the call returns, and its request stays
in the ring with a buffer that is not its own any more.

* `UringRing.act`: one liburing call of the sink, or the kernel completing a request, at any time and in any
  order.
* `uring_refines`: as long as no drain was broken off, the calls do what `fileSinkUringWrite` says.
* `uring_follows`: in any run the calls do what `fileSinkUringWrite` says with some answers, the requests left in
  its ring included.
* `uring_accounts`: in any run no completion is lost or taken twice, and the requests left in the ring are
  those of the calls that were broken off. If the kernel completes in order, a call takes the completion of
  the call as many places before it as were broken off by then.
-/

namespace IoJournal

open Wire Posix

/-- A request: which of the calls that made one it is of, and the buffer of the call. -/
structure UringEntry where
  call : Nat
  payload : Bytes
  deriving DecidableEq

/-- A completion: the answer of the kernel, and the octets that it had put in the file. -/
structure UringDone where
  res : Int
  octets : Bytes
  deriving DecidableEq

/-- How a call returned: it had a payload of no or too many octets, there was no free entry, the
submission or the wait failed, or it took a completion. -/
inductive UringEnding where
  | refused
  | noSqe
  | broken
  | reaped (entry : UringEntry) (res : Int)
  deriving DecidableEq

structure UringCall where
  entry : UringEntry
  ending : UringEnding
  deriving DecidableEq

/-- A call between `io_uring_prep_write` and its return; `submitted` after `io_uring_submit_and_wait`. -/
structure UringActive where
  payload : Bytes
  submitted : Bool
  deriving DecidableEq

/-- An open ring and its file. -/
structure UringRing where
  queue : QueuePair UringEntry UringDone
  /-- How many requests were made. -/
  made : Nat
  active : Option UringActive
  returned : List UringCall
  file : Bytes

/-- `io_uring_queue_init(8U, ring, 0U)` -/
def uringEntries : Nat := 8

def UringRing.opened : UringRing := ⟨.empty, 0, none, [], []⟩

inductive UringAction where
  | call (payload : Bytes)
  | submitAndWait (taken : Option Nat)
  | waitCqe (interrupted : Bool)
  | complete (place : Nat) (res : Int) (memory : Bytes)

namespace UringRing

def returns (s : UringRing) (call : Nat) (payload : Bytes) (ending : UringEnding) : UringRing :=
  { s with active := none, returned := s.returned ++ [⟨⟨call, payload⟩, ending⟩] }

/-- The buffer of the request is that of the call in progress. -/
def holds (s : UringRing) (e : UringEntry) : Bool := s.active.isSome && e.call + 1 == s.made

/-- The octets that the kernel finds in the buffer of a request; another call may have put its own there. -/
def octets (s : UringRing) (e : UringEntry) (res : Int) (memory : Bytes) : Bytes :=
  (if s.holds e then e.payload else memory).take res.toNat

def act (s : UringRing) : UringAction → UringRing
  | .call payload =>
    match s.active with
    | some _ => s
    | none =>
      if payload.length = 0 ∨ 4294967295 < payload.length then s.returns s.made payload .refused
      else
        match s.queue.prepare uringEntries ⟨s.made, payload⟩ with
        | none => s.returns s.made payload .noSqe
        | some queue => { s with queue, made := s.made + 1, active := some ⟨payload, false⟩ }
  | .submitAndWait taken =>
    match s.active, taken with
    | some ⟨payload, false⟩, none => s.returns (s.made - 1) payload .broken
    | some ⟨payload, false⟩, some n => { s with queue := s.queue.submit n, active := some ⟨payload, true⟩ }
    | _, _ => s
  | .waitCqe interrupted =>
    match s.active with
    | some ⟨payload, true⟩ =>
      match s.queue.reap with
      | some ((e, done), queue) => { s with queue }.returns (s.made - 1) payload (.reaped e done.res)
      | none => if interrupted then s.returns (s.made - 1) payload .broken else s
    | _ => s
  | .complete place res memory =>
    match s.queue.flying[place]? with
    | none => s
    | some e =>
      let octets := s.octets e res memory
      { s with queue := s.queue.complete place ⟨res, octets⟩, file := s.file ++ octets }

inductive Step (s : UringRing) : UringAction → UringRing → Prop where
  | idle (a : UringAction) : Step s a s
  | refused {payload : Bytes} (hnone : s.active = none) (hlen : payload.length = 0 ∨ 4294967295 < payload.length) :
      Step s (.call payload) (s.returns s.made payload .refused)
  | noSqe {payload : Bytes} (hnone : s.active = none) (hlen : ¬(payload.length = 0 ∨ 4294967295 < payload.length)) :
      Step s (.call payload) (s.returns s.made payload .noSqe)
  | prepared {payload : Bytes} {queue : QueuePair UringEntry UringDone} (hnone : s.active = none)
      (hlen : ¬(payload.length = 0 ∨ 4294967295 < payload.length))
      (hqueue : s.queue.prepare uringEntries ⟨s.made, payload⟩ = some queue) :
      Step s (.call payload) { s with queue, made := s.made + 1, active := some ⟨payload, false⟩ }
  | submitted {payload : Bytes} (hactive : s.active = some ⟨payload, false⟩) (n : Nat) :
      Step s (.submitAndWait (some n)) { s with queue := s.queue.submit n, active := some ⟨payload, true⟩ }
  | broken {a : UringAction} {payload : Bytes} {submitted : Bool} (hactive : s.active = some ⟨payload, submitted⟩) :
      Step s a (s.returns (s.made - 1) payload .broken)
  | reaped {interrupted : Bool} {payload : Bytes} {e : UringEntry} {done : UringDone}
      {queue : QueuePair UringEntry UringDone} (hactive : s.active = some ⟨payload, true⟩)
      (hreap : s.queue.reap = some ((e, done), queue)) :
      Step s (.waitCqe interrupted) ({ s with queue }.returns (s.made - 1) payload (.reaped e done.res))
  | completed {place : Nat} {e : UringEntry} (res : Int) (memory : Bytes) (he : s.queue.flying[place]? = some e) :
      Step s (.complete place res memory)
        { s with
          queue := s.queue.complete place ⟨res, s.octets e res memory⟩
          file := s.file ++ s.octets e res memory }

theorem act_step (s : UringRing) (a : UringAction) : s.Step a (s.act a) := by
  cases a with
  | call payload =>
    simp only [act]
    split
    · exact .idle _
    · rename_i hnone
      split
      · rename_i hlen
        exact .refused hnone hlen
      · rename_i hlen
        split
        · exact .noSqe hnone hlen
        · rename_i queue hqueue
          exact .prepared hnone hlen hqueue
  | submitAndWait taken =>
    simp only [act]
    split
    · rename_i hactive
      exact .broken hactive
    · rename_i hactive
      exact .submitted hactive _
    · exact .idle _
  | waitCqe interrupted =>
    simp only [act]
    split
    · rename_i hactive
      split
      · rename_i hreap
        exact .reaped hactive hreap
      · split
        · exact .broken hactive
        · exact .idle _
    · exact .idle _
  | complete place res memory =>
    simp only [act]
    split
    · exact .idle _
    · rename_i e he
      exact .completed res memory he

end UringRing

/-! ## Any run -/

def UringEnding.taken : UringEnding → Option UringEntry
  | .reaped e _ => some e
  | _ => none

/-- The requests, by number, whose completions the calls took. -/
def takenBy (calls : List UringCall) : List Nat := calls.filterMap fun c => c.ending.taken.map (·.call)

def brokenIn (calls : List UringCall) : Nat := calls.countP fun c => c.ending = .broken

section Counts

variable {calls : List UringCall} {call : Nat} {payload : Bytes} {ending : UringEnding}

theorem takenBy_none (h : ending.taken = none) : takenBy (calls ++ [⟨⟨call, payload⟩, ending⟩]) = takenBy calls := by
  simp [takenBy, h]

theorem takenBy_some {e : UringEntry} (h : ending.taken = some e) :
    takenBy (calls ++ [⟨⟨call, payload⟩, ending⟩]) = takenBy calls ++ [e.call] := by
  simp [takenBy, h]

theorem brokenIn_snoc : brokenIn (calls ++ [⟨⟨call, payload⟩, .broken⟩]) = brokenIn calls + 1 := by
  simp [brokenIn]

theorem brokenIn_other (h : ending ≠ .broken) :
    brokenIn (calls ++ [⟨⟨call, payload⟩, ending⟩]) = brokenIn calls := by
  simp [brokenIn, h]

end Counts

/-- If the kernel completes a request, it is the oldest one. -/
def UringAction.CompletesFirst : UringAction → Prop
  | .complete place _ _ => place = 0
  | _ => True

namespace UringRing

variable {s s' : UringRing} {a : UringAction}

/-- The numbers of the requests left in the ring. -/
def left (s : UringRing) : List Nat := s.queue.outstanding.map (·.call)

/-- Every request was taken once or is left, and those left are of the broken calls and the one in progress. -/
structure Accounts (s : UringRing) : Prop where
  perm : (takenBy s.returned ++ s.left).Perm (List.range s.made)
  made : s.made = (takenBy s.returned).length + brokenIn s.returned + s.active.toList.length

theorem opened_accounts : opened.Accounts := ⟨List.Perm.refl _, rfl⟩

theorem Accounts.returns (h : s.Accounts) {call : Nat} {payload : Bytes} {ending : UringEnding}
    (htaken : ending.taken = none)
    (hcount : brokenIn (s.returned ++ [⟨⟨call, payload⟩, ending⟩]) = brokenIn s.returned + s.active.toList.length) :
    (s.returns call payload ending).Accounts := by
  refine ⟨?_, ?_⟩
  · change (takenBy (s.returned ++ [_]) ++ s.left).Perm (List.range s.made)
    rw [takenBy_none htaken]
    exact h.perm
  · change s.made = (takenBy (s.returned ++ [_])).length + brokenIn (s.returned ++ [_]) + 0
    rw [takenBy_none htaken, hcount, h.made, Nat.add_zero, Nat.add_assoc]

theorem Accounts.step (h : s.Accounts) (hstep : s.Step a s') : s'.Accounts := by
  cases hstep with
  | idle => exact h
  | refused hnone hlen =>
    refine h.returns rfl ?_
    rw [brokenIn_other (by decide), hnone]
    rfl
  | noSqe hnone hlen =>
    refine h.returns rfl ?_
    rw [brokenIn_other (by decide), hnone]
    rfl
  | prepared hnone hlen hqueue =>
    rename_i payload queue
    have houtstanding := (QueuePair.prepare_outstanding hqueue).1
    have hmade := h.made
    rw [hnone] at hmade
    refine ⟨?_, ?_⟩
    · change (takenBy s.returned ++ queue.outstanding.map (·.call)).Perm (List.range (s.made + 1))
      rw [houtstanding, List.map_append, ← List.append_assoc, List.range_succ]
      exact h.perm.append_right _
    · exact congrArg (· + 1) hmade
  | submitted hactive n =>
    refine ⟨?_, ?_⟩
    · change (takenBy s.returned ++ (s.queue.submit n).outstanding.map (·.call)).Perm (List.range s.made)
      rw [QueuePair.submit_outstanding]
      exact h.perm
    · have hmade := h.made
      rw [hactive] at hmade
      exact hmade
  | broken hactive =>
    refine h.returns rfl ?_
    rw [brokenIn_snoc, hactive]
    rfl
  | reaped hactive hreap =>
    rename_i e done queue
    have houtstanding := (QueuePair.reap_outstanding hreap).1
    have hperm := h.perm
    have hmade := h.made
    rw [hactive] at hmade
    rw [left, houtstanding, List.map_cons] at hperm
    refine ⟨?_, ?_⟩
    · change (takenBy (s.returned ++ [_]) ++ queue.outstanding.map (·.call)).Perm (List.range s.made)
      rw [takenBy_some rfl, List.append_assoc]
      exact hperm
    · change s.made = (takenBy (s.returned ++ [_])).length + brokenIn (s.returned ++ [_]) + 0
      rw [takenBy_some rfl, brokenIn_other (by simp), List.length_append, hmade]
      simp only [Option.toList_some, List.length_singleton]
      omega
  | completed res memory he =>
    rename_i place e
    refine ⟨?_, h.made⟩
    have houtstanding := s.queue.complete_outstanding place ⟨res, s.octets e res memory⟩
    exact (List.Perm.append_left _ (houtstanding.map (·.call))).trans h.perm

/-- Each completion is of the call as many places before the one that took it as were broken off by then. -/
structure InOrder (s : UringRing) : Prop where
  accounts : s.Accounts
  left : s.left = List.range' (takenBy s.returned).length (brokenIn s.returned + s.active.toList.length)
  shifted : ∀ before c, before ++ [c] <+: s.returned → ∀ e res, c.ending = .reaped e res →
    e.call + brokenIn before = c.entry.call

theorem opened_inOrder : opened.InOrder := by
  refine ⟨opened_accounts, rfl, fun before c hbefore => ?_⟩
  have := hbefore.length_le
  simp [opened] at this

theorem InOrder.returns (h : s.InOrder) {call : Nat} {payload : Bytes} {ending : UringEnding}
    (htaken : ending.taken = none)
    (hcount : brokenIn (s.returned ++ [⟨⟨call, payload⟩, ending⟩]) = brokenIn s.returned + s.active.toList.length) :
    (s.returns call payload ending).InOrder := by
  refine ⟨h.accounts.returns htaken hcount, ?_, fun before c hbefore e res hending => ?_⟩
  · change s.left = List.range' (takenBy (s.returned ++ [_])).length (brokenIn (s.returned ++ [_]) + 0)
    rw [takenBy_none htaken, hcount, Nat.add_zero]
    exact h.left
  · rcases List.prefix_concat_iff.1 hbefore with heq | hbefore
    · obtain ⟨-, hc⟩ := List.append_inj' heq rfl
      cases hc
      have hending : ending = .reaped e res := hending
      rw [hending] at htaken
      cases htaken
    · exact h.shifted before c hbefore e res hending

theorem InOrder.step (h : s.InOrder) (hstep : s.Step a s') (hfirst : a.CompletesFirst) : s'.InOrder := by
  have haccounts := h.accounts.step hstep
  cases hstep with
  | idle => exact h
  | refused hnone hlen =>
    refine h.returns rfl ?_
    rw [brokenIn_other (by decide), hnone]
    rfl
  | noSqe hnone hlen =>
    refine h.returns rfl ?_
    rw [brokenIn_other (by decide), hnone]
    rfl
  | prepared hnone hlen hqueue =>
    rename_i payload queue
    have houtstanding := (QueuePair.prepare_outstanding hqueue).1
    have hleft := h.left
    have hmade := h.accounts.made
    rw [hnone] at hleft hmade
    refine ⟨haccounts, ?_, h.shifted⟩
    change queue.outstanding.map (·.call) = List.range' (takenBy s.returned).length (brokenIn s.returned + 1)
    rw [houtstanding, List.map_append, List.map_singleton, List.range'_1_concat, hmade]
    exact congrArg (· ++ _) hleft
  | submitted hactive n =>
    refine ⟨haccounts, ?_, h.shifted⟩
    have hleft := h.left
    rw [hactive] at hleft
    change (s.queue.submit n).outstanding.map (·.call) = _
    rw [QueuePair.submit_outstanding]
    exact hleft
  | broken hactive =>
    refine h.returns rfl ?_
    rw [brokenIn_snoc, hactive]
    rfl
  | reaped hactive hreap =>
    rename_i e done queue
    have houtstanding := (QueuePair.reap_outstanding hreap).1
    have hleft := h.left
    have hmade := h.accounts.made
    rw [hactive] at hmade hleft
    rw [UringRing.left, houtstanding, List.map_cons] at hleft
    simp only [Option.toList_some, List.length_singleton] at hleft hmade
    rw [List.range'_succ, List.cons.injEq] at hleft
    obtain ⟨hcall, hrest⟩ := hleft
    refine ⟨haccounts, ?_, fun before c hbefore e' res hending => ?_⟩
    · change queue.outstanding.map (·.call) =
        List.range' (takenBy (s.returned ++ [_])).length (brokenIn (s.returned ++ [_]) + 0)
      rw [takenBy_some rfl, brokenIn_other (by simp), List.length_append]
      exact hrest
    · rcases List.prefix_concat_iff.1 hbefore with heq | hbefore
      · obtain ⟨rfl, hc⟩ := List.append_inj' heq rfl
        cases hc
        cases hending
        change e.call + brokenIn s.returned = s.made - 1
        omega
      · exact h.shifted before c hbefore e' res hending
  | completed res memory he =>
    rename_i place e
    have hplace : place = 0 := hfirst
    subst hplace
    refine ⟨haccounts, ?_, h.shifted⟩
    change (s.queue.complete 0 ⟨res, s.octets e res memory⟩).outstanding.map (·.call) = _
    rw [QueuePair.complete_first]
    exact h.left

end UringRing

/-! ## Runs in which no call is broken off -/

def UringCall.status (c : UringCall) : Status :=
  match c.ending with
  | .refused => .invalidArgument
  | .noSqe => .sinkError
  | .broken => .sinkError
  | .reaped _ res => if res < 0 ∨ res ≠ c.entry.payload.length then .sinkError else .ok

/-- The octets of the call that are in the file when it took its own completion. -/
def UringCall.octets (c : UringCall) : Bytes :=
  match c.ending with
  | .reaped _ res => c.entry.payload.take res.toNat
  | _ => []

/-- What the ring answers in `fileSinkUringWrite`. -/
def UringEnding.answer : UringEnding → UringWrite
  | .refused => ⟨.noSqe, 0, []⟩
  | .noSqe => ⟨.noSqe, 0, []⟩
  | .broken => ⟨.failed 0, 0, []⟩
  | .reaped _ res => ⟨.completed res, 0, []⟩

namespace UringRing

variable {s s' : UringRing} {a : UringAction}

theorem Step.returned (hstep : s.Step a s') : s.returned <+: s'.returned := by
  cases hstep with
  | idle => exact List.prefix_rfl
  | prepared => exact List.prefix_rfl
  | submitted => exact List.prefix_rfl
  | completed => exact List.prefix_rfl
  | refused => exact List.prefix_append _ _
  | noSqe => exact List.prefix_append _ _
  | broken => exact List.prefix_append _ _
  | reaped => exact List.prefix_append _ _

/-- Only the call in progress has a request in the ring, and what the kernel wrote for it came from its buffer. -/
structure Alone (s : UringRing) : Prop where
  outstanding : s.queue.outstanding = (s.active.map fun a => (⟨s.made - 1, a.payload⟩ : UringEntry)).toList
  done : ∀ c ∈ s.queue.completed, c.2.octets = c.1.payload.take c.2.res.toNat

theorem Alone.idle (hactive : s.active = none) (hempty : s.queue.outstanding = []) : s.Alone := by
  refine ⟨by rw [hempty, hactive]; rfl, fun c hc => ?_⟩
  rw [List.map_eq_nil_iff.1 (List.append_eq_nil_iff.1 hempty).1] at hc
  cases hc

theorem Alone.prepared (h : s.Alone) (hnone : s.active = none) {payload : Bytes} {queue : QueuePair UringEntry UringDone}
    (hqueue : s.queue.prepare uringEntries ⟨s.made, payload⟩ = some queue) :
    ({ s with queue, made := s.made + 1, active := some ⟨payload, false⟩ } : UringRing).Alone := by
  obtain ⟨houtstanding, hcompleted⟩ := QueuePair.prepare_outstanding hqueue
  have hempty := h.outstanding
  rw [hnone] at hempty
  refine ⟨?_, ?_⟩
  · rw [houtstanding, hempty]
    rfl
  · rw [hcompleted]
    exact h.done

theorem Alone.submitted (h : s.Alone) {payload : Bytes} (hactive : s.active = some ⟨payload, false⟩) (n : Nat) :
    ({ s with queue := s.queue.submit n, active := some ⟨payload, true⟩ } : UringRing).Alone := by
  refine ⟨?_, h.done⟩
  have houtstanding := h.outstanding
  rw [hactive] at houtstanding
  rw [QueuePair.submit_outstanding]
  exact houtstanding

/-- The completion is that of the call in progress, and the only one. -/
theorem Alone.reaped (h : s.Alone) {active : UringActive} (hactive : s.active = some active) {e : UringEntry}
    {done : UringDone} {queue : QueuePair UringEntry UringDone} (hreap : s.queue.reap = some ((e, done), queue)) :
    e = ⟨s.made - 1, active.payload⟩ ∧ queue.outstanding = [] ∧
      s.queue.completed.flatMap (·.2.octets) = active.payload.take done.res.toNat := by
  obtain ⟨houtstanding, hcompleted⟩ := QueuePair.reap_outstanding hreap
  have hown := h.outstanding
  rw [hactive, houtstanding] at hown
  obtain ⟨rfl, hempty⟩ := List.cons.inj hown
  have hnone : queue.completed = [] := List.map_eq_nil_iff.1 (List.append_eq_nil_iff.1 hempty).1
  refine ⟨rfl, hempty, ?_⟩
  rw [hcompleted, hnone, List.flatMap_singleton]
  exact h.done _ (hcompleted ▸ List.mem_cons_self)

theorem Alone.completed (h : s.Alone) (haccounts : s.Accounts) {place : Nat} {e : UringEntry} (res : Int)
    (memory : Bytes) (he : s.queue.flying[place]? = some e) :
    (s.queue.complete place ⟨res, s.octets e res memory⟩).completed.flatMap (·.2.octets) =
        s.queue.completed.flatMap (·.2.octets) ++ s.octets e res memory ∧
      ({ s with
        queue := s.queue.complete place ⟨res, s.octets e res memory⟩
        file := s.file ++ s.octets e res memory } : UringRing).Alone := by
  have hmem := QueuePair.flying_outstanding he
  rw [h.outstanding] at hmem
  cases hactive : s.active with
  | none =>
    rw [hactive] at hmem
    cases hmem
  | some active =>
    rw [hactive] at hmem
    have hown : e = ⟨s.made - 1, active.payload⟩ := List.mem_singleton.1 hmem
    have hmade := haccounts.made
    rw [hactive] at hmade
    simp only [Option.toList_some, List.length_singleton] at hmade
    have hoctets : s.octets e res memory = e.payload.take res.toNat := by
      have hholds : s.holds e = true := by
        simp only [holds, hactive, hown, Option.isSome_some, Bool.true_and, beq_iff_eq]
        omega
      rw [octets, if_pos hholds]
    have hcompleted := QueuePair.complete_completed he ⟨res, s.octets e res memory⟩
    refine ⟨by rw [hcompleted, List.flatMap_append, List.flatMap_singleton], ?_, ?_⟩
    · have hperm := s.queue.complete_outstanding place ⟨res, s.octets e res memory⟩
      have houtstanding := h.outstanding
      rw [hactive] at houtstanding
      rw [houtstanding] at hperm
      exact List.perm_singleton.1 hperm
    · intro c hc
      rw [hcompleted] at hc
      rcases List.mem_append.1 hc with hc | hc
      · exact h.done c hc
      · rw [List.mem_singleton.1 hc]
        exact hoctets

theorem Alone.part (h : s.Alone) :
    s.queue.completed.flatMap (·.2.octets) <+: (s.active.map UringActive.payload).getD [] := by
  have houtstanding := h.outstanding
  have hdone := h.done
  cases hcompleted : s.queue.completed with
  | nil => exact List.nil_prefix
  | cons c rest =>
    obtain ⟨e, done⟩ := c
    rw [QueuePair.outstanding, hcompleted] at houtstanding
    cases hactive : s.active with
    | none =>
      rw [hactive] at houtstanding
      cases houtstanding
    | some active =>
      rw [hactive] at houtstanding
      obtain ⟨rfl, hempty⟩ := List.cons.inj houtstanding
      have hrest : rest = [] := List.map_eq_nil_iff.1 (List.append_eq_nil_iff.1 hempty).1
      rw [hrest, List.flatMap_singleton, hdone (_, done) (hcompleted ▸ List.mem_cons_self)]
      exact List.take_prefix _ _

/-- The ring has served only calls that waited for it, and every call took its own completion. -/
structure Own (s : UringRing) : Prop extends Alone s where
  taken : ∀ c ∈ s.returned, ∀ e res, c.ending = .reaped e res → e = c.entry
  file : s.file = s.returned.flatMap UringCall.octets ++ s.queue.completed.flatMap (·.2.octets)

theorem opened_own : opened.Own := ⟨.idle rfl rfl, List.forall_mem_nil _, rfl⟩

theorem Own.returns (h : s.Own) (hnone : s.active = none) {call : Nat} {payload : Bytes} {ending : UringEnding}
    (htaken : ending.taken = none) : (s.returns call payload ending).Own := by
  have hempty := h.outstanding
  rw [hnone] at hempty
  refine ⟨.idle rfl hempty, fun c hc e res hending => ?_, ?_⟩
  · rcases List.mem_append.1 hc with hc | hc
    · exact h.taken c hc e res hending
    · rw [List.mem_singleton] at hc
      subst hc
      have hending : ending = .reaped e res := hending
      rw [hending] at htaken
      cases htaken
  · have hoctets : UringCall.octets ⟨⟨call, payload⟩, ending⟩ = [] := by cases ending <;> first | rfl | cases htaken
    change s.file = (s.returned ++ [_]).flatMap UringCall.octets ++ _
    rw [List.flatMap_append, List.flatMap_singleton, hoctets, List.append_nil]
    exact h.file

theorem Own.step (h : s.Own) (haccounts : s.Accounts) (hstep : s.Step a s')
    (hwhole : ∀ c ∈ s'.returned, c.ending ≠ .broken) : s'.Own := by
  cases hstep with
  | idle => exact h
  | refused hnone hlen => exact h.returns hnone rfl
  | noSqe hnone hlen => exact h.returns hnone rfl
  | prepared hnone hlen hqueue =>
    refine ⟨h.toAlone.prepared hnone hqueue, h.taken, ?_⟩
    rw [(QueuePair.prepare_outstanding hqueue).2]
    exact h.file
  | submitted hactive n => exact ⟨h.toAlone.submitted hactive n, h.taken, h.file⟩
  | broken hactive => exact absurd rfl (hwhole _ (List.mem_append_right _ (List.mem_singleton_self _)))
  | reaped hactive hreap =>
    rename_i payload e done queue
    obtain ⟨rfl, hempty, hoctets⟩ := h.toAlone.reaped hactive hreap
    refine ⟨.idle rfl hempty, fun c hc e' res hending => ?_, ?_⟩
    · rcases List.mem_append.1 hc with hc | hc
      · exact h.taken c hc e' res hending
      · rw [List.mem_singleton] at hc
        subst hc
        cases hending
        rfl
    · have hnone : queue.completed = [] := List.map_eq_nil_iff.1 (List.append_eq_nil_iff.1 hempty).1
      change s.file = (s.returned ++ [_]).flatMap UringCall.octets ++ queue.completed.flatMap (·.2.octets)
      rw [List.flatMap_append, List.flatMap_singleton, hnone, List.flatMap_nil, List.append_nil, h.file, hoctets]
      rfl
  | completed res memory he =>
    obtain ⟨hpart, halone⟩ := h.toAlone.completed haccounts res memory he
    refine ⟨halone, h.taken, ?_⟩
    change s.file ++ _ = _ ++ (s.queue.complete _ _).completed.flatMap (·.2.octets)
    rw [hpart, ← List.append_assoc, h.file]

/-- The calls that were refused are those whose payload has no octets or too many. -/
structure Sized (s : UringRing) : Prop where
  returned : ∀ c ∈ s.returned,
    c.ending = .refused ↔ c.entry.payload.length = 0 ∨ 4294967295 < c.entry.payload.length
  active : ∀ active ∈ s.active, ¬(active.payload.length = 0 ∨ 4294967295 < active.payload.length)

theorem opened_sized : opened.Sized := ⟨List.forall_mem_nil _, fun _ h => by cases h⟩

theorem Sized.returns (h : s.Sized) {call : Nat} {payload : Bytes} {ending : UringEnding}
    (hending : ending = .refused ↔ payload.length = 0 ∨ 4294967295 < payload.length) :
    (s.returns call payload ending).Sized := by
  refine ⟨fun c hc => ?_, fun _ h => by cases h⟩
  rcases List.mem_append.1 hc with hc | hc
  · exact h.returned c hc
  · rw [List.mem_singleton.1 hc]
    exact hending

theorem Sized.step (h : s.Sized) (hstep : s.Step a s') : s'.Sized := by
  cases hstep with
  | idle => exact h
  | refused hnone hlen => exact h.returns (iff_of_true rfl hlen)
  | noSqe hnone hlen => exact h.returns (iff_of_false (by decide) hlen)
  | prepared hnone hlen hqueue =>
    refine ⟨h.returned, fun active hactive => ?_⟩
    cases hactive
    exact hlen
  | submitted hactive n =>
    refine ⟨h.returned, fun active heq => ?_⟩
    cases heq
    exact h.active ⟨_, false⟩ hactive
  | broken hactive => exact h.returns (iff_of_false (by decide) (h.active _ hactive))
  | reaped hactive hreap =>
    rename_i e done queue
    have hsized : ({ s with queue } : UringRing).Sized := ⟨h.returned, h.active⟩
    have hne : UringEnding.reaped e done.res ≠ .refused := by simp
    exact hsized.returns (iff_of_false hne (h.active _ hactive))
  | completed res memory he => exact ⟨h.returned, h.active⟩

def after (schedule : List UringAction) : UringRing := Machine.run act opened schedule

theorem after_inv (schedule : List UringAction) : (after schedule).Accounts ∧ (after schedule).Sized ∧
    ((∀ c ∈ (after schedule).returned, c.ending ≠ .broken) → (after schedule).Own) := by
  refine Machine.run_invariant
    (fun s : UringRing => s.Accounts ∧ s.Sized ∧ ((∀ c ∈ s.returned, c.ending ≠ .broken) → s.Own)) ?_
    ⟨opened_accounts, opened_sized, fun _ => opened_own⟩ schedule
  rintro s a ⟨haccounts, hsized, hown⟩
  have hstep := s.act_step a
  refine ⟨haccounts.step hstep, hsized.step hstep, fun hwhole => ?_⟩
  have hbefore : ∀ c ∈ s.returned, c.ending ≠ .broken := fun c hc => hwhole c (hstep.returned.subset hc)
  exact (hown hbefore).step haccounts hstep hwhole

end UringRing

section Call

variable {sink : FileSink} {ring : IoUring} {payload : Bytes} {answer : UringWrite}

theorem fileSinkUringWrite_refused (hring : sink.uring = some ring)
    (hlen : payload.length = 0 ∨ 4294967295 < payload.length) :
    fileSinkUringWrite answer sink payload = ⟨.invalidArgument, sink, []⟩ := by
  rw [fileSinkUringWrite, hring]
  dsimp only
  rcases hlen with hlen | hlen
  · exact if_pos (.inr hlen)
  · rw [if_pos hlen, ite_self]

theorem fileSinkUringWrite_eq (hring : sink.uring = some ring) (hfd : 0 ≤ sink.fd)
    (hlen : ¬(payload.length = 0 ∨ 4294967295 < payload.length)) :
    fileSinkUringWrite answer sink payload =
      if answer.ends = .noSqe then ⟨.sinkError, sink, []⟩
      else ⟨if (answer.drain ring payload).1 < 0 ∨ (answer.drain ring payload).1 ≠ payload.length then .sinkError else .ok,
        { sink with uring := some (answer.leaves ring payload) },
        [.append sink.file (answer.drain ring payload).2]⟩ := by
  rw [not_or] at hlen
  have hopen : ¬(sink.fd < 0 ∨ payload.length = 0) := by omega
  rw [fileSinkUringWrite, hring]
  dsimp only
  rw [if_neg hopen, if_neg hlen.2]
  split
  · rfl
  · split <;> rfl

end Call

/-- A call that was not broken off did what `fileSinkUringWrite` does with the ring's answer. -/
theorem UringCall.agrees {c : UringCall} (hwhole : c.ending ≠ .broken)
    (hsized : c.ending = .refused ↔ c.entry.payload.length = 0 ∨ 4294967295 < c.entry.payload.length)
    {sink : FileSink} {fd : Nat} (hring : sink.uring = some ⟨fd, []⟩) (hfd : 0 ≤ sink.fd) :
    (fileSinkUringWrite c.ending.answer sink c.entry.payload).status = c.status ∧
      (fileSinkUringWrite c.ending.answer sink c.entry.payload).state = sink ∧
      (fileSinkUringWrite c.ending.answer sink c.entry.payload).effects.flatMap (Effect.appended sink.file) =
        c.octets := by
  obtain ⟨⟨call, payload⟩, ending⟩ := c
  by_cases hlen : payload.length = 0 ∨ 4294967295 < payload.length
  · have hrefused : ending = .refused := hsized.2 hlen
    rw [fileSinkUringWrite_refused hring hlen, hrefused]
    exact ⟨rfl, rfl, rfl⟩
  · rw [fileSinkUringWrite_eq hring hfd hlen]
    cases ending with
    | refused => exact absurd (hsized.1 rfl) hlen
    | noSqe => exact ⟨rfl, rfl, rfl⟩
    | broken => exact absurd rfl hwhole
    | reaped e res =>
      refine ⟨rfl, ?_, ?_⟩
      · have hleaves : UringWrite.leaves ⟨.completed res, 0, []⟩ ⟨fd, []⟩ payload = ⟨fd, []⟩ := rfl
        change { sink with uring := some (UringWrite.leaves ⟨.completed res, 0, []⟩ ⟨fd, []⟩ payload) } = sink
        rw [hleaves, ← hring]
      · change [Effect.append sink.file (payload.take res.toNat)].flatMap (Effect.appended sink.file) = _
        rw [List.flatMap_singleton, Effect.appended, if_pos rfl]
        rfl

/-- In any interleaving with the kernel, as long as no submission or wait failed: each call returned what
`fileSinkUringWrite` returns when the ring answers with the call's own completion, and the file holds what
these calls append and a first part of the payload of the call in progress. -/
theorem uring_refines (schedule : List UringAction) (sink : FileSink)
    (hwhole : ∀ c ∈ (UringRing.after schedule).returned, c.ending ≠ .broken)
    {fd : Nat} (hring : sink.uring = some ⟨fd, []⟩) (hfd : 0 ≤ sink.fd) :
    (∀ c ∈ (UringRing.after schedule).returned, (∀ e res, c.ending = .reaped e res → e = c.entry) ∧
      (fileSinkUringWrite c.ending.answer sink c.entry.payload).status = c.status ∧
      (fileSinkUringWrite c.ending.answer sink c.entry.payload).state = sink) ∧
    ∃ part, part <+: ((UringRing.after schedule).active.map UringActive.payload).getD [] ∧
      (UringRing.after schedule).file = ((UringRing.after schedule).returned.flatMap fun c =>
        (fileSinkUringWrite c.ending.answer sink c.entry.payload).effects.flatMap (Effect.appended sink.file)) ++
          part := by
  obtain ⟨-, hsized, hown⟩ := UringRing.after_inv schedule
  have hown := hown hwhole
  refine ⟨fun c hc => ?_, _, hown.part, ?_⟩
  · obtain ⟨hstatus, hstate, -⟩ := UringCall.agrees (hwhole c hc) (hsized.returned c hc) hring hfd
    exact ⟨hown.taken c hc, hstatus, hstate⟩
  · rw [hown.file]
    refine congrArg (· ++ _) (List.flatMap_congr fun c hc => ?_)
    exact (UringCall.agrees (hwhole c hc) (hsized.returned c hc) hring hfd).2.2.symm

def wholeSchedule : List UringAction :=
  [.call (ascii "ab"), .submitAndWait (some 1), .complete 0 2 [], .waitCqe false, .call (ascii "cd"),
    .submitAndWait (some 1), .complete 0 1 [], .waitCqe false]

theorem uring_refines_two : (∀ c ∈ (UringRing.after wholeSchedule).returned, ∀ e res, c.ending = .reaped e res →
    e = c.entry) ∧ (UringRing.after wholeSchedule).file = ascii "abc" := by
  have hrefines := uring_refines wholeSchedule { FileSink.zero with fd := 3, uring := some ⟨4, []⟩ } (by decide) rfl
    (by decide)
  exact ⟨fun c hc => (hrefines.1 c hc).1, by decide⟩

/-! ## Runs in which calls are broken off -/

/-- The sink in a run of `fileSinkUringWrite`: what its calls returned and what they appended. -/
structure UringSink where
  sink : FileSink
  returned : List (Bytes × Status)
  file : Bytes

def UringSink.step (t : UringSink) (call : UringWrite × Bytes) : UringSink :=
  let out := fileSinkUringWrite call.1 t.sink call.2
  ⟨out.state, t.returned ++ [(call.2, out.status)],
    t.file ++ out.effects.flatMap (Effect.appended t.sink.file)⟩

theorem UringSink.step_append {t : UringSink} {call : UringWrite × Bytes} {status : Status} {sink : FileSink}
    {octets : Bytes} (h : fileSinkUringWrite call.1 t.sink call.2 = ⟨status, sink, [.append t.sink.file octets]⟩) :
    t.step call = ⟨sink, t.returned ++ [(call.2, status)], t.file ++ octets⟩ := by
  rw [UringSink.step, h]
  dsimp only
  rw [List.flatMap_singleton, Effect.appended, if_pos rfl]

theorem UringSink.step_nothing {t : UringSink} {call : UringWrite × Bytes} {status : Status}
    (h : fileSinkUringWrite call.1 t.sink call.2 = ⟨status, t.sink, []⟩) :
    t.step call = ⟨t.sink, t.returned ++ [(call.2, status)], t.file⟩ := by
  rw [UringSink.step, h]
  dsimp only
  rw [List.flatMap_nil, List.append_nil]

namespace UringRing

variable {s s' : UringRing} {a : UringAction} {t : UringSink} {ring : IoUring} {part : Bytes}

/-- The calls of the ring that returned are those of the sink, and the requests that the sink counts are all in the
ring but for that of the call in progress. The kernel wrote `part` since the sink's last call. -/
structure Follows (s : UringRing) (t : UringSink) (ring : IoUring) (part : Bytes) : Prop where
  uring : t.sink.uring = some ring
  fd : 0 ≤ t.sink.fd
  returned : t.returned = s.returned.map fun c => (c.entry.payload, c.status)
  requests : (ring.left ++ s.active.toList.map (·.payload.length)).Perm (s.queue.outstanding.map (·.payload.length))
  file : s.file = t.file ++ part
  alone : ring.left = [] → s.Alone ∧ part = s.queue.completed.flatMap (·.2.octets)

theorem opened_follows {sink : FileSink} {fd : Nat} (hring : sink.uring = some ⟨fd, []⟩) (hfd : 0 ≤ sink.fd) :
    opened.Follows ⟨sink, [], []⟩ ⟨fd, []⟩ [] :=
  ⟨hring, hfd, rfl, List.Perm.refl _, rfl, fun _ => ⟨.idle rfl rfl, rfl⟩⟩

theorem Follows.returned_snoc (h : s.Follows t ring part) (call : Nat) (payload : Bytes) (ending : UringEnding) :
    t.returned ++ [(payload, UringCall.status ⟨⟨call, payload⟩, ending⟩)] =
      (s.returns call payload ending).returned.map fun c => (c.entry.payload, c.status) := by
  rw [h.returned, UringRing.returns, List.map_append]
  rfl

theorem Follows.returns (h : s.Follows t ring part) (hnone : s.active = none) {payload : Bytes} {ending : UringEnding}
    {answer : UringWrite}
    (hwrite : fileSinkUringWrite answer t.sink payload = ⟨UringCall.status ⟨⟨s.made, payload⟩, ending⟩, t.sink, []⟩) :
    (s.returns s.made payload ending).Follows (t.step (answer, payload)) ring part := by
  rw [UringSink.step_nothing hwrite]
  have hrequests := h.requests
  rw [hnone] at hrequests
  refine ⟨h.uring, h.fd, ?_, hrequests, h.file, fun hleft => ?_⟩
  · exact h.returned_snoc s.made payload ending
  · obtain ⟨halone, hpart⟩ := h.alone hleft
    have hempty := halone.outstanding
    rw [hnone] at hempty
    exact ⟨.idle rfl hempty, hpart⟩

/-- A call that is broken off leaves its request in the ring, and the kernel may have written a part of it. -/
theorem Follows.broken (h : s.Follows t ring part) {active : UringActive} (hactive : s.active = some active)
    (hlen : ¬(active.payload.length = 0 ∨ 4294967295 < active.payload.length)) (call : Nat) :
    (s.returns call active.payload .broken).Follows (t.step (⟨.failed part.length, 0, part⟩, active.payload))
      { ring with left := ring.left ++ [active.payload.length] } [] := by
  have hdrain : UringWrite.drain ⟨.failed part.length, 0, part⟩ ring active.payload = (-1, part) := by
    simp only [UringWrite.drain, Prod.mk.injEq, true_and]
    split
    · rename_i hleft
      obtain ⟨halone, hpart⟩ := h.alone hleft
      have hprefix := halone.part
      rw [← hpart, hactive, Option.map_some, Option.getD_some] at hprefix
      exact (List.prefix_iff_eq_take.1 hprefix).symm
    · rfl
  have hwrite := @fileSinkUringWrite_eq t.sink ring active.payload ⟨.failed part.length, 0, part⟩ h.uring h.fd hlen
  rw [if_neg (by simp), hdrain] at hwrite
  rw [UringSink.step_append hwrite]
  have hrequests := h.requests
  rw [hactive] at hrequests
  refine ⟨rfl, h.fd, ?_, ?_, ?_, fun hleft => absurd hleft (by simp)⟩
  · exact h.returned_snoc call active.payload .broken
  · change (ring.left ++ [_] ++ []).Perm _
    rw [List.append_nil]
    exact hrequests
  · rw [List.append_nil]
    exact h.file

/-- A call takes the oldest completion, whoever made its request. -/
theorem Follows.reaped (h : s.Follows t ring part) {active : UringActive} (hactive : s.active = some active)
    (hlen : ¬(active.payload.length = 0 ∨ 4294967295 < active.payload.length)) {e : UringEntry} {done : UringDone}
    {queue : QueuePair UringEntry UringDone} (hreap : s.queue.reap = some ((e, done), queue)) (call : Nat) :
    ∃ first ring', ({ s with queue }.returns call active.payload (.reaped e done.res)).Follows
      (t.step (⟨.completed done.res, first, part⟩, active.payload)) ring' [] := by
  have hrequests := h.requests
  rw [hactive, (QueuePair.reap_outstanding hreap).1, List.map_cons] at hrequests
  -- the request that was completed is one of those the sink counts, its own being the last
  obtain ⟨first, hfirst⟩ : ∃ first, first = (ring.left ++ [active.payload.length]).idxOf e.payload.length := ⟨_, rfl⟩
  have hmem : e.payload.length ∈ ring.left ++ [active.payload.length] := hrequests.mem_iff.2 List.mem_cons_self
  have hlt := List.idxOf_lt_length_of_mem hmem
  rw [← hfirst, List.length_append, List.length_singleton] at hlt
  have hleaves : (UringWrite.leaves ⟨.completed done.res, first, part⟩ ring active.payload).left =
      (ring.left ++ [active.payload.length]).erase e.payload.length := by
    simp only [UringWrite.leaves]
    rw [Nat.min_eq_left (by omega), hfirst, List.eraseIdx_idxOf_eq_erase]
  have hrest : ((ring.left ++ [active.payload.length]).erase e.payload.length).Perm
      (queue.outstanding.map (·.payload.length)) := by
    have herase := hrequests.erase e.payload.length
    rw [List.erase_cons_head] at herase
    exact herase
  have hdrain : UringWrite.drain ⟨.completed done.res, first, part⟩ ring active.payload = (done.res, part) := by
    simp only [UringWrite.drain, Prod.mk.injEq, true_and]
    split
    · rename_i hleft
      obtain ⟨halone, hpart⟩ := h.alone hleft
      rw [hpart, (halone.reaped hactive hreap).2.2]
    · rfl
  have hwrite := @fileSinkUringWrite_eq t.sink ring active.payload ⟨.completed done.res, first, part⟩ h.uring h.fd hlen
  rw [if_neg (by simp), hdrain] at hwrite
  refine ⟨first, UringWrite.leaves ⟨.completed done.res, first, part⟩ ring active.payload, ?_⟩
  rw [UringSink.step_append hwrite]
  refine ⟨rfl, h.fd, ?_, ?_, ?_, fun hleft => ?_⟩
  · exact h.returned_snoc call active.payload (.reaped e done.res)
  · rw [hleaves]
    change (_ ++ []).Perm (queue.outstanding.map _)
    rw [List.append_nil]
    exact hrest
  · rw [List.append_nil]
    exact h.file
  · rw [← hleaves, hleft] at hrest
    have hempty : queue.outstanding = [] := List.map_eq_nil_iff.1 (List.perm_nil.1 hrest.symm)
    have hnone : queue.completed = [] := List.map_eq_nil_iff.1 (List.append_eq_nil_iff.1 hempty).1
    refine ⟨.idle rfl hempty, ?_⟩
    change [] = queue.completed.flatMap _
    rw [hnone, List.flatMap_nil]

theorem Follows.step (h : s.Follows t ring part) (haccounts : s.Accounts) (hsized : s.Sized) (hstep : s.Step a s') :
    ∃ calls ring' part', s'.Follows (Machine.run UringSink.step t calls) ring' part' := by
  cases hstep with
  | idle => exact ⟨[], ring, part, h⟩
  | refused hnone hlen =>
    exact ⟨[(⟨.noSqe, 0, []⟩, _)], ring, part, h.returns hnone (fileSinkUringWrite_refused h.uring hlen)⟩
  | noSqe hnone hlen =>
    refine ⟨[(⟨.noSqe, 0, []⟩, _)], ring, part, h.returns hnone ?_⟩
    rw [fileSinkUringWrite_eq h.uring h.fd hlen, if_pos rfl]
    rfl
  | prepared hnone hlen hqueue =>
    obtain ⟨houtstanding, hcompleted⟩ := QueuePair.prepare_outstanding hqueue
    have hrequests := h.requests
    rw [hnone] at hrequests
    refine ⟨[], ring, part, h.uring, h.fd, h.returned, ?_, h.file, fun hleft => ?_⟩
    · rw [houtstanding, List.map_append]
      exact List.Perm.append_right _ (List.append_nil ring.left ▸ hrequests)
    · obtain ⟨halone, hpart⟩ := h.alone hleft
      refine ⟨halone.prepared hnone hqueue, ?_⟩
      rw [hcompleted]
      exact hpart
  | submitted hactive n =>
    have hrequests := h.requests
    rw [hactive] at hrequests
    refine ⟨[], ring, part, h.uring, h.fd, h.returned, ?_, h.file, fun hleft => ?_⟩
    · rw [QueuePair.submit_outstanding]
      exact hrequests
    · obtain ⟨halone, hpart⟩ := h.alone hleft
      exact ⟨halone.submitted hactive n, hpart⟩
  | broken hactive => exact ⟨[_], _, [], h.broken hactive (hsized.active _ hactive) _⟩
  | reaped hactive hreap =>
    obtain ⟨first, ring', hfollows⟩ := h.reaped hactive (hsized.active _ hactive) hreap (s.made - 1)
    exact ⟨[_], ring', [], hfollows⟩
  | completed res memory he =>
    rename_i place e
    refine ⟨[], ring, part ++ s.octets e res memory, h.uring, h.fd, h.returned, ?_, ?_, fun hleft => ?_⟩
    · have hsame := (s.queue.complete_outstanding place ⟨res, s.octets e res memory⟩).map (·.payload.length)
      exact h.requests.trans hsame.symm
    · rw [← List.append_assoc]
      exact congrArg (· ++ _) h.file
    · obtain ⟨halone, hpart⟩ := h.alone hleft
      obtain ⟨hmore, halone⟩ := halone.completed haccounts res memory he
      exact ⟨halone, by rw [hpart]; exact hmore.symm⟩

end UringRing

/-- In any interleaving with the kernel, failed submissions and waits included: the calls that returned are a run of
`fileSinkUringWrite`, which keeps the requests of those that were broken off in its ring, and the file holds what
the run appends and what the kernel wrote since. -/
theorem uring_follows (schedule : List UringAction) {sink : FileSink} {fd : Nat} (hring : sink.uring = some ⟨fd, []⟩)
    (hfd : 0 ≤ sink.fd) : ∃ calls ring part, (UringRing.after schedule).Follows
      (Machine.run UringSink.step ⟨sink, [], []⟩ calls) ring part := by
  induction schedule using List.reverseRecOn with
  | nil => exact ⟨[], ⟨fd, []⟩, [], UringRing.opened_follows hring hfd⟩
  | append_singleton schedule a ih =>
    obtain ⟨calls, ring, part, hfollows⟩ := ih
    obtain ⟨haccounts, hsized, -⟩ := UringRing.after_inv schedule
    obtain ⟨more, ring', part', hfollows'⟩ := hfollows.step haccounts hsized (UringRing.act_step _ a)
    refine ⟨calls ++ more, ring', part', ?_⟩
    rw [Machine.run_append, UringRing.after, Machine.run_snoc]
    exact hfollows'

/-- In any interleaving with the kernel, the requests made are those whose completions were taken, once each,
and those left in the ring, of which there is one for each call that was broken off and one for the call in
progress. If the kernel completes the oldest request first, a call that takes a completion takes that of the
call as many before it as were broken off by then. -/
theorem uring_accounts (schedule : List UringAction) :
    (takenBy (UringRing.after schedule).returned ++ (UringRing.after schedule).left).Perm
        (List.range (UringRing.after schedule).made) ∧
      (UringRing.after schedule).left.length =
        brokenIn (UringRing.after schedule).returned + (UringRing.after schedule).active.toList.length ∧
      ((∀ a ∈ schedule, a.CompletesFirst) → ∀ before c, before ++ [c] <+: (UringRing.after schedule).returned →
        ∀ e res, c.ending = .reaped e res → e.call + brokenIn before = c.entry.call) := by
  obtain ⟨haccounts, -⟩ := UringRing.after_inv schedule
  refine ⟨haccounts.perm, ?_, fun hfirst => ?_⟩
  · have hlen := haccounts.perm.length_eq
    rw [List.length_append, List.length_range, haccounts.made] at hlen
    omega
  · have hinOrder : (UringRing.after schedule).InOrder :=
      Machine.Along.invariant UringRing.InOrder (fun s a h hfirst => h.step (s.act_step a) hfirst)
        (Machine.along_of_forall hfirst) UringRing.opened_inOrder
    exact hinOrder.shifted

/-- The wait of the first call is interrupted, and its buffer is used for something else. -/
def shiftedSchedule : List UringAction :=
  [.call (ascii "ab"), .submitAndWait (some 1), .waitCqe true, .complete 0 2 (ascii "xy"), .call (ascii "cd"),
    .submitAndWait (some 1), .waitCqe false]

/-- The second call takes the completion of the first and returns `ok`, with its own request in the ring. -/
theorem uring_accounts_shifted :
    (UringRing.after shiftedSchedule).returned.map UringCall.status = [.sinkError, .ok] ∧
      (UringRing.after shiftedSchedule).file = ascii "xy" ∧ (UringRing.after shiftedSchedule).left = [1] ∧
      ∀ before c, before ++ [c] <+: (UringRing.after shiftedSchedule).returned →
        ∀ e res, c.ending = .reaped e res → e.call + brokenIn before = c.entry.call := by
  have hfirst : ∀ a ∈ shiftedSchedule, a.CompletesFirst := by simp [shiftedSchedule, UringAction.CompletesFirst]
  exact ⟨by decide, by decide, by decide, (uring_accounts shiftedSchedule).2.2 hfirst⟩

end IoJournal
