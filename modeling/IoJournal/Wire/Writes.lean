import Mathlib.Data.List.Perm.Basic
import IoJournal.Wire.Buffer

/-!
# Wire.Writes

Sequences of block writes, and when their order does not matter.

* `Buffer.writes` runs a list of writes.
* `Alike P` compares two regions octet by octet, wherever `P` holds and wherever they were written
  to. Two regions that start out with different contents agree on what was written to both.
* Writes that do not meet can be exchanged (`writes_comm`), so that any order of them does the same
  (`writes_perm`), and writes made along the way can as well be made at the end
  (`writes_flatMap_append`).
-/

namespace Wire

structure Write where
  start : Nat
  bytes : Bytes

namespace Write

def Apart (w w' : Write) : Prop :=
  w.start + w.bytes.length ≤ w'.start ∨ w'.start + w'.bytes.length ≤ w.start

theorem Apart.symm {w w' : Write} (h : w.Apart w') : w'.Apart w := Or.symm h

end Write

namespace Buffer

def write (m : Buffer) (w : Write) : Buffer := m.copy w.start w.bytes

def writes (m : Buffer) (ws : List Write) : Buffer := ws.foldl write m

@[simp] theorem size_write (m : Buffer) (w : Write) : (m.write w).size = m.size := size_copy m w.start w.bytes

@[simp] theorem writes_nil (m : Buffer) : m.writes [] = m := rfl

@[simp] theorem writes_cons (m : Buffer) (w : Write) (ws : List Write) :
    m.writes (w :: ws) = (m.write w).writes ws := rfl

@[simp] theorem writes_append (m : Buffer) (ws ws' : List Write) :
    m.writes (ws ++ ws') = (m.writes ws).writes ws' := by
  simp [writes]

theorem getElem?_store (m : Buffer) (i k : Nat) (b : UInt8) :
    (m.store i b).bytes[k]? = if i = k then if k < m.size then some b else none else m.bytes[k]? := by
  rw [store, List.getElem?_set]
  split
  · rename_i h
    rw [h]
    rfl
  · rfl

theorem getElem?_write (m : Buffer) (w : Write) (k : Nat) :
    (m.write w).bytes[k]? =
      if w.start ≤ k ∧ k < w.start + w.bytes.length ∧ k < m.size then w.bytes[k - w.start]? else m.bytes[k]? := by
  obtain ⟨i, bs⟩ := w
  simp only [write]
  induction bs generalizing m i with
  | nil => rw [copy, if_neg (by simp only [List.length_nil]; omega)]
  | cons b bs ih =>
    rw [copy, ih, size_store, getElem?_store, List.length_cons]
    by_cases hk : i = k
    · subst hk
      rw [if_neg (by omega), if_pos rfl]
      by_cases hlt : i < m.size
      · rw [if_pos hlt, if_pos (by omega), Nat.sub_self]
        rfl
      · rw [if_neg hlt, if_neg (by omega)]
        exact (List.getElem?_eq_none (Nat.not_lt.1 hlt)).symm
    · rw [if_neg hk]
      by_cases hin : i + 1 ≤ k ∧ k < i + 1 + bs.length ∧ k < m.size
      · rw [if_pos hin, if_pos (by omega), show k - i = k - (i + 1) + 1 by omega, List.getElem?_cons_succ]
      · rw [if_neg hin, if_neg (by omega)]

theorem mem_stores_write (m : Buffer) (w : Write) (k : Nat) :
    k ∈ (m.write w).stores ↔ k ∈ m.stores ∨ w.start ≤ k ∧ k < w.start + w.bytes.length := by
  obtain ⟨i, bs⟩ := w
  simp only [write]
  induction bs generalizing m i with
  | nil =>
    rw [copy, List.length_nil]
    exact ⟨.inl, fun h => h.resolve_right (by omega)⟩
  | cons b bs ih =>
    rw [copy, ih, store, List.mem_cons, List.length_cons]
    constructor
    · rintro ((rfl | h) | h)
      · right; omega
      · exact .inl h
      · right; omega
    · rintro (h | h)
      · exact .inl (.inr h)
      · by_cases hk : k = i
        · exact .inl (.inl hk)
        · right; omega

/-- The regions agree wherever `P` holds or something was written. -/
structure Alike (P : Nat → Prop) (m m' : Buffer) : Prop where
  size : m.size = m'.size
  stores : ∀ k, k ∈ m.stores ↔ k ∈ m'.stores
  bytes : ∀ k, P k ∨ k ∈ m.stores → m.bytes[k]? = m'.bytes[k]?

section Alike

variable {P : Nat → Prop} {m m' m'' : Buffer}

theorem Alike.refl (m : Buffer) : Alike P m m := ⟨rfl, fun _ => .rfl, fun _ _ => rfl⟩

theorem Alike.trans (h : Alike P m m') (h' : Alike P m' m'') : Alike P m m'' where
  size := h.size.trans h'.size
  stores k := (h.stores k).trans (h'.stores k)
  bytes k hk := (h.bytes k hk).trans (h'.bytes k (hk.imp_right (h.stores k).1))

theorem Alike.symm (h : Alike P m m') : Alike P m' m where
  size := h.size.symm
  stores k := (h.stores k).symm
  bytes k hk := (h.bytes k (hk.imp_right (h.stores k).2)).symm

theorem Alike.write (h : Alike P m m') (w : Write) : Alike P (m.write w) (m'.write w) where
  size := by rw [size_write, size_write, h.size]
  stores k := by rw [mem_stores_write, mem_stores_write, h.stores]
  bytes k hk := by
    rw [getElem?_write, getElem?_write, h.size]
    split
    · rfl
    · rename_i hout
      rw [mem_stores_write] at hk
      by_cases hlt : k < m.size
      · refine h.bytes k (hk.imp_right fun hs => hs.resolve_right fun hin => hout ?_)
        rw [← h.size]
        exact ⟨hin.1, hin.2, hlt⟩
      · have hlt' : ¬ k < m'.size := h.size ▸ hlt
        rw [List.getElem?_eq_none (Nat.not_lt.1 hlt), List.getElem?_eq_none (Nat.not_lt.1 hlt')]

theorem Alike.writes (h : Alike P m m') (ws : List Write) : Alike P (m.writes ws) (m'.writes ws) := by
  induction ws generalizing m m' with
  | nil => exact h
  | cons w ws ih => exact ih (h.write w)

/-! ## Exchanging writes -/

theorem write_comm {w w' : Write} (h : w.Apart w') : Alike P ((m.write w).write w') ((m.write w').write w) where
  size := by simp only [size_write]
  stores k := by simp only [mem_stores_write]; exact or_right_comm
  bytes k _ := by
    simp only [getElem?_write, size_write]
    unfold Write.Apart at h
    by_cases hw : w.start ≤ k ∧ k < w.start + w.bytes.length ∧ k < m.size
    · rw [if_pos hw, if_pos hw, if_neg (by omega)]
    · rw [if_neg hw, if_neg hw]

theorem writes_write_comm {w : Write} {ws : List Write} (h : ∀ w' ∈ ws, w.Apart w') :
    Alike P ((m.write w).writes ws) ((m.writes ws).write w) := by
  induction ws generalizing m with
  | nil => exact .refl _
  | cons w' ws ih =>
    rw [List.forall_mem_cons] at h
    rw [writes_cons, writes_cons]
    exact ((write_comm h.1).writes ws).trans (ih h.2)

theorem writes_comm {ws ws' : List Write} (h : ∀ w ∈ ws, ∀ w' ∈ ws', w.Apart w') :
    Alike P ((m.writes ws).writes ws') ((m.writes ws').writes ws) := by
  induction ws generalizing m with
  | nil => exact .refl _
  | cons w ws ih =>
    rw [List.forall_mem_cons] at h
    rw [writes_cons, writes_cons]
    exact (ih h.2).trans ((writes_write_comm h.1).writes ws)

theorem writes_perm {ws ws' : List Write} (hperm : ws.Perm ws') (h : ws.Pairwise Write.Apart) :
    Alike P (m.writes ws) (m.writes ws') := by
  induction hperm generalizing m with
  | nil => exact .refl _
  | cons w _ ih => exact ih (List.pairwise_cons.1 h).2
  | swap w w' ws =>
    rw [List.pairwise_cons, List.forall_mem_cons] at h
    exact (write_comm h.1.1).writes ws
  | trans hperm _ ih ih' =>
    exact (ih h).trans (ih' (hperm.pairwise h Write.Apart.symm))

/-- Each item makes the writes `f` and then `g`; where the latter meet nothing that later items
write, they can be left for the end. -/
theorem writes_flatMap_append {α : Type} {f g : α → List Write} {items : List α}
    (h : items.Pairwise fun x y => ∀ w ∈ g x, ∀ w' ∈ f y, w.Apart w') :
    Alike P (m.writes (items.flatMap fun x => f x ++ g x)) ((m.writes (items.flatMap f)).writes (items.flatMap g)) := by
  induction items generalizing m with
  | nil => exact .refl _
  | cons x items ih =>
    rw [List.pairwise_cons] at h
    simp only [List.flatMap_cons, writes_append]
    refine (ih h.2).trans (Alike.writes (writes_comm fun w hw w' hw' => ?_) _)
    obtain ⟨y, hy, hw'⟩ := List.mem_flatMap.1 hw'
    exact h.1 y hy w hw w' hw'

theorem read_writes {ws : List Write} {i n : Nat}
    (h : ∀ w ∈ ws, i + n ≤ w.start ∨ w.start + w.bytes.length ≤ i) : (m.writes ws).read i n = m.read i n := by
  induction ws generalizing m with
  | nil => rfl
  | cons w ws ih =>
    rw [List.forall_mem_cons] at h
    rw [writes_cons, ih h.2]
    refine List.ext_getElem? fun k => ?_
    simp only [read, List.getElem?_take, List.getElem?_drop]
    split
    · rw [getElem?_write, if_neg (by omega)]
    · rfl

end Alike

end Buffer
end Wire
