import IoJournal.Wire.Bytes

/-!
# Wire.Buffer

A region of memory of fixed size, as C code writes to it. Every store is recorded by its index, so
that a store outside the region, which changes nothing here, is still visible.

* `store` writes one octet, `copy` a block (`memcpy`).
* `read i n` is the block of `n` octets at `i`; a copy is read back at its own place
  (`read_copy`) and leaves every block before it alone (`read_copy_before`).
* `cstr i` is the NUL-terminated string at `i`.
-/

namespace Wire

structure Buffer where
  bytes : Bytes
  stores : List Nat

namespace Buffer

/-- A region with the contents it has when the code first sees it. -/
def fresh (bs : Bytes) : Buffer := ⟨bs, []⟩

def size (m : Buffer) : Nat := m.bytes.length

def store (m : Buffer) (i : Nat) (b : UInt8) : Buffer := ⟨m.bytes.set i b, i :: m.stores⟩

def copy (m : Buffer) (i : Nat) : Bytes → Buffer
  | [] => m
  | b :: bs => (m.store i b).copy (i + 1) bs

def read (m : Buffer) (i n : Nat) : Bytes := (m.bytes.drop i).take n

def cstr (m : Buffer) (i : Nat) : Bytes := (m.bytes.drop i).takeWhile (· != 0)

@[simp] theorem size_store (m : Buffer) (i : Nat) (b : UInt8) : (m.store i b).size = m.size := by
  simp [size, store]

@[simp] theorem size_copy (m : Buffer) (i : Nat) (bs : Bytes) : (m.copy i bs).size = m.size := by
  induction bs generalizing m i with
  | nil => rfl
  | cons b bs ih => rw [copy, ih, size_store]

theorem store_bytes {m : Buffer} {i : Nat} (h : i < m.size) (b : UInt8) :
    (m.store i b).bytes = m.bytes.take i ++ b :: m.bytes.drop (i + 1) := by
  rw [store, List.set_eq_take_append_cons_drop]
  exact if_pos h

theorem copy_bytes {m : Buffer} {i : Nat} {bs : Bytes} (h : i + bs.length ≤ m.size) :
    (m.copy i bs).bytes = m.bytes.take i ++ (bs ++ m.bytes.drop (i + bs.length)) := by
  induction bs generalizing m i with
  | nil => simp [copy]
  | cons b bs ih =>
    rw [List.length_cons] at h
    have hi : i < m.size := by omega
    have hlen : (m.bytes.take i).length = i := by
      rw [List.length_take]; exact Nat.min_eq_left (Nat.le_of_lt hi)
    rw [copy, ih (by rw [size_store]; omega), store_bytes hi]
    have htake : (m.bytes.take i ++ b :: m.bytes.drop (i + 1)).take (i + 1) = m.bytes.take i ++ [b] := by
      rw [List.take_append, hlen, Nat.add_sub_cancel_left, List.take_of_length_le (by omega)]
      simp
    have hdrop : (m.bytes.take i ++ b :: m.bytes.drop (i + 1)).drop (i + 1 + bs.length) =
        m.bytes.drop (i + (bs.length + 1)) := by
      rw [List.drop_append, hlen, List.drop_of_length_le (by omega), List.nil_append,
        show i + 1 + bs.length - i = bs.length + 1 by omega, List.drop_succ_cons, List.drop_drop]
      congr 1; omega
    rw [htake, hdrop, List.length_cons, List.append_assoc]
    rfl

theorem copy_append (m : Buffer) (i : Nat) (bs bs' : Bytes) :
    m.copy i (bs ++ bs') = (m.copy i bs).copy (i + bs.length) bs' := by
  induction bs generalizing m i with
  | nil => rfl
  | cons b bs ih =>
    rw [List.cons_append, copy, copy, ih, List.length_cons]
    congr 1
    omega

theorem store_eq_copy (m : Buffer) (i : Nat) (b : UInt8) : m.store i b = m.copy i [b] := rfl

theorem read_copy {m : Buffer} {i : Nat} {bs : Bytes} (h : i + bs.length ≤ m.size) :
    (m.copy i bs).read i bs.length = bs := by
  have hlen : (m.bytes.take i).length = i := by
    rw [List.length_take]; exact Nat.min_eq_left (by unfold size at h; omega)
  rw [read, copy_bytes h, List.drop_append, hlen, List.drop_of_length_le (by omega), Nat.sub_self,
    List.drop_zero, List.nil_append, List.take_append, Nat.sub_self, List.take_zero, List.append_nil,
    List.take_length]

theorem read_store_before {m : Buffer} {i j n : Nat} (h : j + n ≤ i) (b : UInt8) :
    (m.store i b).read j n = m.read j n := by
  rw [read, read, store, List.drop_set]
  split
  · rfl
  · exact List.take_set_of_le (by omega)

theorem read_copy_before {m : Buffer} {i j n : Nat} {bs : Bytes} (h : j + n ≤ i) :
    (m.copy i bs).read j n = m.read j n := by
  induction bs generalizing m i with
  | nil => rfl
  | cons b bs ih => rw [copy, ih (by omega), read_store_before h]

theorem read_add (m : Buffer) (i n k : Nat) : m.read i (n + k) = m.read i n ++ m.read (i + n) k := by
  rw [read, read, read, List.take_add, List.drop_drop]

theorem read_of_snoc {m : Buffer} {i : Nat} {bs : Bytes} {b : UInt8} (h : m.read i (bs.length + 1) = bs ++ [b]) :
    m.read i bs.length = bs := by
  have := congrArg (List.take bs.length) h
  rwa [read, List.take_take, Nat.min_eq_left (by omega), List.take_left] at this

theorem takeWhile_terminated (bs tail : Bytes) :
    (bs ++ 0 :: tail).takeWhile (· != 0) = bs.takeWhile (· != 0) := by
  induction bs with
  | nil => simp
  | cons b bs ih => simp only [List.cons_append, List.takeWhile_cons, ih]

theorem cstr_of_read {m : Buffer} {i : Nat} {bs : Bytes} (h : m.read i (bs.length + 1) = bs ++ [0]) :
    m.cstr i = bs.takeWhile (· != 0) := by
  have hdrop : m.bytes.drop i = bs ++ 0 :: (m.bytes.drop i).drop (bs.length + 1) := by
    have := List.take_append_drop (bs.length + 1) (m.bytes.drop i)
    rw [read] at h
    rw [h] at this
    rw [← this]
    simp
  rw [cstr, hdrop, takeWhile_terminated]

theorem mem_stores_copy {m : Buffer} {i k : Nat} {bs : Bytes} (h : k ∈ (m.copy i bs).stores) :
    k ∈ m.stores ∨ i ≤ k ∧ k < i + bs.length := by
  induction bs generalizing m i with
  | nil => exact .inl h
  | cons b bs ih =>
    rw [List.length_cons]
    rcases ih h with h | h
    · simp only [store, List.mem_cons] at h
      rcases h with rfl | h
      · right; omega
      · exact .inl h
    · right; omega

end Buffer
end Wire
