import Mathlib.Data.List.Nodup
import Mathlib.Data.List.Perm.Subperm
import Mathlib.Data.Nat.ModEq

/-!
# Circular

A list laid out in `n` slots, one after the other from slot `head % n` on and around the end.

`offset n head i` is the place in the list that slot `i` stands for, `window n head q i` what is in
the slot. The window is what a ring buffer keeps: an element is pushed into the slot behind the last
one (`window_push`) and taken from the slot at the head (`window_pop`), and the head may be counted
modulo any multiple of `n` (`window_mod`).
-/

namespace Circular

variable {α : Type} {n : Nat}

/-- The place in the list that slot `i` stands for. -/
def offset (n head i : Nat) : Nat := if head % n ≤ i then i - head % n else i + n - head % n

/-- What is in slot `i`. -/
def window (n head : Nat) (q : List α) (i : Nat) : Option α := q[offset n head i]?

/-! ## Slots -/

theorem slot_eq (hn : 0 < n) (head : Nat) {j : Nat} (hj : j ≤ n) :
    (head + j) % n = if head % n + j < n then head % n + j else head % n + j - n := by
  have hlt := Nat.mod_lt head hn
  rw [← Nat.mod_add_mod]
  split
  · exact Nat.mod_eq_of_lt ‹_›
  · rw [Nat.mod_eq_sub_mod (by omega), Nat.mod_eq_of_lt (by omega)]

theorem offset_slot (head : Nat) {j : Nat} (hj : j < n) : offset n head ((head + j) % n) = j := by
  have hlt := Nat.mod_lt head (Nat.zero_lt_of_lt hj)
  rw [slot_eq (Nat.zero_lt_of_lt hj) head hj.le, offset]
  split <;> split <;> omega

theorem slot_offset (head : Nat) {i : Nat} (hi : i < n) : offset n head i < n ∧ (head + offset n head i) % n = i := by
  have hn := Nat.zero_lt_of_lt hi
  have hlt := Nat.mod_lt head hn
  have hoffset : offset n head i < n := by
    unfold offset
    split <;> omega
  refine ⟨hoffset, ?_⟩
  rw [slot_eq hn head hoffset.le]
  unfold offset
  split <;> split <;> omega

theorem offset_eq_iff (head : Nat) {i j : Nat} (hi : i < n) (hj : j < n) : offset n head i = j ↔ i = (head + j) % n := by
  constructor
  · rintro rfl
    exact (slot_offset head hi).2.symm
  · rintro rfl
    exact offset_slot head hj

/-- The head moves on by one: its slot becomes the last, and every other slot one place nearer. -/
theorem offset_succ (head : Nat) {i : Nat} (hi : i < n) :
    if i = head % n then offset n (head + 1) i = n - 1 else offset n head i = offset n (head + 1) i + 1 := by
  have hn := Nat.zero_lt_of_lt hi
  have hlt := Nat.mod_lt head hn
  have hsucc := slot_eq hn head (show 1 ≤ n from hn)
  unfold offset
  rw [hsucc]
  split <;> split <;> split <;> (try split) <;> omega

/-! ## Windows -/

theorem window_slot (head : Nat) (q : List α) {j : Nat} (hj : j < n) : window n head q ((head + j) % n) = q[j]? := by
  rw [window, offset_slot head hj]

theorem window_mod {w : Nat} (h : n ∣ w) (head : Nat) (q : List α) : window n (head % w) q = window n head q := by
  funext i
  rw [window, window, offset, offset, Nat.mod_mod_of_dvd head h]

theorem window_push {head : Nat} {q : List α} (a : α) (hq : q.length < n) {i : Nat} (hi : i < n) :
    window n head (q ++ [a]) i = if i = (head + q.length) % n then some a else window n head q i := by
  unfold window
  split
  · rename_i heq
    rw [(offset_eq_iff head hi hq).2 heq, List.getElem?_concat_length]
  · rename_i hne
    have hoffset : offset n head i ≠ q.length := fun heq => hne ((offset_eq_iff head hi hq).1 heq)
    rcases Nat.lt_or_gt_of_ne hoffset with hlt | hgt
    · exact List.getElem?_append_left hlt
    · rw [List.getElem?_eq_none (by simp; omega), List.getElem?_eq_none (by omega)]

theorem window_pop {head : Nat} {q : List α} (a : α) (hq : q.length < n) {i : Nat} (hi : i < n) :
    window n (head + 1) q i = if i = head % n then none else window n head (a :: q) i := by
  have hoffset := offset_succ head hi
  unfold window
  split
  · rename_i heq
    rw [if_pos heq] at hoffset
    exact List.getElem?_eq_none (by omega)
  · rename_i hne
    rw [if_neg hne] at hoffset
    rw [hoffset, List.getElem?_cons_succ]

theorem window_isSome_iff {head : Nat} {q : List α} (hq : q.length ≤ n) {i : Nat} (hi : i < n) :
    (window n head q i).isSome = true ↔ ∃ j, j < q.length ∧ (head + j) % n = i := by
  rw [window, Option.isSome_iff_ne_none, ne_eq, List.getElem?_eq_none_iff, Nat.not_le]
  constructor
  · intro hlt
    exact ⟨_, hlt, (slot_offset head hi).2⟩
  · rintro ⟨j, hj, rfl⟩
    rwa [offset_slot head (by omega)]

/-! ## All slots -/

theorem set_map_range {β : Type} (f : Nat → β) {k : Nat} (b : β) :
    ((List.range n).map f).set k b = (List.range n).map fun i => if i = k then b else f i := by
  refine List.ext_getElem (by simp) fun i h h' => ?_
  rw [List.getElem_set, List.getElem_map, List.getElem_range, List.getElem_map, List.getElem_range]
  exact if_congr eq_comm rfl rfl

theorem slots_perm (head : Nat) : ((List.range n).map fun j => (head + j) % n).Perm (List.range n) := by
  have hnodup : ((List.range n).map fun j => (head + j) % n).Nodup := by
    refine List.Nodup.map_on (fun i hi j hj heq => ?_) List.nodup_range
    rw [List.mem_range] at hi hj
    rw [← offset_slot head hi, ← offset_slot head hj, heq]
  refine (List.subperm_of_subset hnodup fun i hi => ?_).perm_of_length_le (by simp)
  obtain ⟨j, hj, rfl⟩ := List.mem_map.1 hi
  exact List.mem_range.2 (Nat.mod_lt _ (Nat.zero_lt_of_lt (List.mem_range.1 hj)))

theorem filterMap_getElem? (q : List α) : ∀ n, q.length ≤ n → (List.range n).filterMap (fun j => q[j]?) = q := by
  induction q with
  | nil =>
    intro n _
    simp
  | cons a q ih =>
    intro n hn
    obtain ⟨m, rfl⟩ : ∃ m, n = m + 1 := ⟨n - 1, by simp at hn; omega⟩
    have hrest := ih m (by simpa using hn)
    rw [List.range_succ_eq_map, List.filterMap_cons, List.filterMap_map]
    exact congrArg (a :: ·) hrest

theorem filterMap_window_perm {head : Nat} {q : List α} (hq : q.length ≤ n) :
    ((List.range n).filterMap (window n head q)).Perm q := by
  have hslots := (slots_perm head (n := n)).filterMap (window n head q)
  have hcongr : ((List.range n).map fun j => (head + j) % n).filterMap (window n head q) = q := by
    rw [List.filterMap_map]
    refine Eq.trans (List.filterMap_congr fun j hj => ?_) (filterMap_getElem? q n hq)
    exact window_slot head q (List.mem_range.1 hj)
  rw [hcongr] at hslots
  exact hslots.symm

end Circular
