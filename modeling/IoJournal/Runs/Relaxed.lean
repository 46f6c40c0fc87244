import Mathlib.Data.List.Basic
import Mathlib.Logic.Function.Basic

/-!
# Relaxed

One atomic variable that threads load and store with relaxed ordering.

All that the ordering promises is one order of the stores in which no thread goes back: what a thread
loads or stores comes at or after the place it has seen last. The order of the stores is not the order
in which the threads execute them, so a store takes any place the thread has not passed.

* `Settles first value`: every store but the initial one is of the same value.
* `Settles.load`: who loads the initial value has seen nothing else before.
-/

namespace Relaxed

variable {T ν : Type} [DecidableEq T]

structure Cell (T ν : Type) where
  order : List ν
  /-- The place in the order that each thread has seen last. -/
  seen : T → Nat

namespace Cell

def start (first : ν) : Cell T ν := ⟨[first], fun _ => 0⟩

/-- The thread loads the value at a place. -/
def load (c : Cell T ν) (t : T) (place : Nat) : Option (ν × Cell T ν) :=
  if c.seen t ≤ place then
    c.order[place]?.map fun v => (v, { c with seen := Function.update c.seen t place })
  else none

/-- The thread stores a value, which comes to a place. -/
def store (c : Cell T ν) (t : T) (place : Nat) (v : ν) : Option (Cell T ν) :=
  if c.seen t < place ∧ place ≤ c.order.length then
    some
      { order := c.order.insertIdx place v
        seen := fun u => if u = t then place else if place ≤ c.seen u then c.seen u + 1 else c.seen u }
  else none

end Cell

/-- Nothing was stored but `value`. -/
structure Settles (first value : ν) (c : Cell T ν) : Prop where
  order : ∃ rest, c.order = first :: rest ∧ ∀ v ∈ rest, v = value
  seen : ∀ t, c.seen t < c.order.length

namespace Settles

variable {first value v : ν} {c c' : Cell T ν} {t : T} {place : Nat}

omit [DecidableEq T] in
theorem start : Settles first value (.start first : Cell T ν) :=
  ⟨⟨[], rfl, List.forall_mem_nil _⟩, fun _ => Nat.one_pos⟩

theorem load (h : Settles first value c) (hload : c.load t place = some (v, c')) :
    Settles first value c' ∧ c.seen t ≤ c'.seen t ∧ (∀ u, u ≠ t → c'.seen u = c.seen u) ∧
      (v = first ∧ c'.seen t = 0 ∨ v = value ∧ 0 < c'.seen t) := by
  rw [Cell.load] at hload
  split at hload
  swap
  · cases hload
  rename_i hle
  obtain ⟨v', hv', heq⟩ := Option.map_eq_some_iff.1 hload
  cases heq
  obtain ⟨rest, horder, hrest⟩ := h.order
  obtain ⟨hplace, hget⟩ := List.getElem?_eq_some_iff.1 hv'
  have hself : Function.update c.seen t place t = place := Function.update_self ..
  have hothers : ∀ u, u ≠ t → Function.update c.seen t place u = c.seen u := fun u hu => Function.update_of_ne hu ..
  refine ⟨⟨⟨rest, horder, hrest⟩, fun u => ?_⟩, ?_, hothers, ?_⟩
  · change Function.update c.seen t place u < c.order.length
    by_cases hu : u = t
    · rw [hu, hself]
      exact hplace
    · rw [hothers u hu]
      exact h.seen u
  · change c.seen t ≤ Function.update c.seen t place t
    rw [hself]
    exact hle
  · change v = first ∧ Function.update c.seen t place t = 0 ∨ v = value ∧ 0 < Function.update c.seen t place t
    rw [hself]
    rw [horder] at hv'
    cases place with
    | zero => exact .inl ⟨(Option.some.inj hv').symm, rfl⟩
    | succ place => exact .inr ⟨hrest v (List.mem_of_getElem? hv'), Nat.succ_pos place⟩

theorem store (h : Settles first value c) (hstore : c.store t place value = some c') :
    Settles first value c' ∧ (∀ u, c.seen u ≤ c'.seen u) ∧ 0 < c'.seen t ∧
      (∀ u, u ≠ t → c.seen u = 0 → c'.seen u = 0) := by
  rw [Cell.store] at hstore
  split at hstore
  swap
  · cases hstore
  rename_i hplace
  cases hstore
  obtain ⟨rest, horder, hrest⟩ := h.order
  obtain ⟨place, rfl⟩ := Nat.exists_eq_succ_of_ne_zero (show place ≠ 0 by omega)
  have hlength : (c.order.insertIdx (place + 1) value).length = c.order.length + 1 :=
    List.length_insertIdx_of_le_length hplace.2 value
  refine ⟨⟨⟨rest.insertIdx place value, ?_, fun v hv => ?_⟩, fun u => ?_⟩, fun u => ?_, ?_, fun u hu hzero => ?_⟩
  · rw [horder]
    rfl
  · have hle : place ≤ rest.length := by
      have hlen := hplace.2
      rw [horder, List.length_cons] at hlen
      omega
    rcases (List.mem_insertIdx hle).1 hv with heq | hmem
    · exact heq
    · exact hrest v hmem
  · have := h.seen u
    simp only [hlength]
    split
    · omega
    · split <;> omega
  · simp only
    split
    · rename_i hu
      rw [hu]
      omega
    · split <;> omega
  · simp
  · simp only [if_neg hu, hzero]
    rw [if_neg (by omega)]

theorem can_load (h : Settles first value c) (t : T) : ∃ v c', c.load t (c.seen t) = some (v, c') := by
  rw [Cell.load, if_pos (Nat.le_refl _), List.getElem?_eq_getElem (h.seen t)]
  exact ⟨_, _, rfl⟩

theorem can_store (h : Settles first value c) (t : T) (v : ν) : ∃ c', c.store t c.order.length v = some c' := by
  rw [Cell.store, if_pos ⟨h.seen t, Nat.le_refl _⟩]
  exact ⟨_, rfl⟩

end Settles

end Relaxed
