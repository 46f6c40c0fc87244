import Mathlib.Data.List.Basic

/-!
# Fifo

A first-in first-out queue of bounded length, with its history: what was accepted and what was
delivered.

An element is accepted exactly when fewer than `capacity` are queued, and the oldest one is delivered.
At all times the accepted elements are the delivered ones followed by the queued ones
(`WellFormed`), so no element is lost, delivered twice or overtaken, and the elements of any one kind
are delivered in the order in which they were accepted (`WellFormed.filter_prefix`).
-/

structure Fifo (α : Type) where
  queue : List α
  accepted : List α
  delivered : List α

namespace Fifo

variable {α : Type} {capacity : Nat}

def empty : Fifo α := ⟨[], [], []⟩

def put (capacity : Nat) (f : Fifo α) (a : α) : Bool × Fifo α :=
  if f.queue.length < capacity then (true, { f with queue := f.queue ++ [a], accepted := f.accepted ++ [a] })
  else (false, f)

def take (f : Fifo α) : Option α × Fifo α :=
  match f.queue with
  | [] => (none, f)
  | a :: rest => (some a, { f with queue := rest, delivered := f.delivered ++ [a] })

structure WellFormed (capacity : Nat) (f : Fifo α) : Prop where
  bound : f.queue.length ≤ capacity
  history : f.accepted = f.delivered ++ f.queue

theorem wellFormed_empty : (empty : Fifo α).WellFormed capacity := ⟨Nat.zero_le _, rfl⟩

theorem WellFormed.put {f : Fifo α} (h : f.WellFormed capacity) (a : α) : (f.put capacity a).2.WellFormed capacity := by
  unfold Fifo.put
  split
  · rename_i hroom
    refine ⟨?_, ?_⟩
    · simp only [List.length_append, List.length_singleton]
      omega
    · simp only [h.history, List.append_assoc]
  · exact h

theorem WellFormed.take {f : Fifo α} (h : f.WellFormed capacity) : f.take.2.WellFormed capacity := by
  have hbound := h.bound
  have hhistory := h.history
  unfold Fifo.take
  cases hq : f.queue with
  | nil => exact h
  | cons a rest =>
    rw [hq] at hbound hhistory
    refine ⟨Nat.le_of_succ_le hbound, ?_⟩
    simp only [hhistory, List.append_assoc, List.singleton_append]

theorem WellFormed.filter_prefix {f : Fifo α} (h : f.WellFormed capacity) (p : α → Bool) :
    f.delivered.filter p <+: f.accepted.filter p := by
  rw [h.history, List.filter_append]
  exact List.prefix_append _ _

end Fifo
