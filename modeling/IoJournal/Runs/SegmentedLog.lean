import Mathlib.Algebra.BigOperators.Group.List.Basic
import Mathlib.Algebra.GroupWithZero.Nat

/-!
# SegmentedLog

A log kept as a list of closed files and one active file: `append` adds a record to the active
file, `rotate` closes it. Neither loses, splits or reorders a record (`records_append`,
`records_rotate`). `Bounded` says that a file holds more than a limit only when it holds a single
record; it is kept by rotating before a record that does not fit (`Bounded.append`,
`Bounded.rotate`).
-/

structure SegmentedLog (α : Type) where
  closed : List (List α)
  active : List α

namespace SegmentedLog

variable {α : Type}

def empty : SegmentedLog α := ⟨[], []⟩

def append (log : SegmentedLog α) (record : α) : SegmentedLog α := { log with active := log.active ++ [record] }

def rotate (log : SegmentedLog α) : SegmentedLog α := ⟨log.closed ++ [log.active], []⟩

def files (log : SegmentedLog α) : List (List α) := log.closed ++ [log.active]

def records (log : SegmentedLog α) : List α := log.closed.flatten ++ log.active

@[simp] theorem records_append (log : SegmentedLog α) (record : α) :
    (log.append record).records = log.records ++ [record] := (List.append_assoc _ _ _).symm

@[simp] theorem records_rotate (log : SegmentedLog α) : log.rotate.records = log.records := by
  simp [records, rotate]

def Bounded (size : α → Nat) (limit : Nat) (log : SegmentedLog α) : Prop :=
  ∀ file ∈ log.files, (file.map size).sum ≤ limit ∨ file.length = 1

variable {size : α → Nat} {limit : Nat} {log : SegmentedLog α}

theorem bounded_empty : (empty : SegmentedLog α).Bounded size limit := by
  intro file hfile
  rw [List.mem_singleton.1 hfile]
  exact .inl (Nat.zero_le _)

theorem Bounded.rotate (h : log.Bounded size limit) : log.rotate.Bounded size limit := by
  intro file hfile
  rcases List.mem_append.1 hfile with hfile | hfile
  · exact h file hfile
  · rw [List.mem_singleton.1 hfile]
    exact .inl (Nat.zero_le _)

theorem Bounded.append (h : log.Bounded size limit) {record : α}
    (hfits : log.active = [] ∨ (log.active.map size).sum + size record ≤ limit) :
    (log.append record).Bounded size limit := by
  intro file hfile
  rcases List.mem_append.1 hfile with hfile | hfile
  · exact h file (List.mem_append_left _ hfile)
  · rw [List.mem_singleton.1 hfile]
    rcases hfits with hempty | hfits
    · exact .inr (by simp [SegmentedLog.append, hempty])
    · exact .inl (by simpa [SegmentedLog.append] using hfits)

end SegmentedLog
