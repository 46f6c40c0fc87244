import Mathlib.Algebra.Order.Group.Multiset
import Mathlib.Tactic.Abel
import IoJournal.Runs.Machine

/-!
# Allocation

Programs that allocate and free blocks of memory, and who owns the blocks.

* `Prog` is a program over the memory. `free` of a block that is not in use is a fault, so a program that
  does not fault never frees a block twice, nor one that it was not given.
* `Owns held p Q` is a triple with its frame: a program that owns `held` does not fault, whatever else is
  in use; it leaves the rest as it is, and ends with a result and the blocks it then owns, as `Q` says.
  A block that it owns and does not return is leaked, so `Q` accounts for every block.
* `Owns.pure`, `Owns.bind`, `Owns.mono`, and a rule for each operation.
* `Owns.repeated`: a loop, with what one turn does to the state and its blocks.
-/

namespace Allocation

/-- A block, by the number of the allocation that returned it. -/
abbrev Block := Nat

/-- The blocks in use, and the number of the next allocation. No number is given twice. -/
structure Memory where
  live : Multiset Block
  next : Nat

abbrev Prog (α : Type) := StateT Memory Option α

/-- `malloc` and `calloc`, with the answer of the allocator. -/
def malloc (answer : Bool) : Prog (Option Block) := fun m =>
  if answer then some (some m.next, ⟨m.next ::ₘ m.live, m.next + 1⟩) else some (none, m)

def free (b : Option Block) : Prog Unit := fun m =>
  match b with
  | none => some ((), m)
  | some b => if b ∈ m.live then some ((), { m with live := m.live.erase b }) else none

/-- `realloc`: the old block is gone when there is a new one. -/
def realloc (answer : Bool) (b : Option Block) : Prog (Option Block) :=
  if answer then free b >>= fun _ => malloc true else pure none

def freeAll : List (Option Block) → Prog Unit
  | [] => pure ()
  | b :: bs => free b >>= fun _ => freeAll bs

/-- The block behind a pointer. -/
def owned : Option Block → Multiset Block
  | none => 0
  | some b => {b}

@[simp] theorem owned_none : owned none = 0 := rfl

/-- The blocks behind the pointers of a list. -/
def ownedAll (bs : List (Option Block)) : Multiset Block := (bs.map owned).sum

@[simp] theorem ownedAll_nil : ownedAll [] = 0 := rfl

@[simp] theorem ownedAll_cons (b : Option Block) (bs : List (Option Block)) :
    ownedAll (b :: bs) = owned b + ownedAll bs := List.sum_cons

@[simp] theorem ownedAll_append (bs cs : List (Option Block)) : ownedAll (bs ++ cs) = ownedAll bs + ownedAll cs := by
  rw [ownedAll, List.map_append, List.sum_append]
  rfl

def Owns {α : Type} (held : Multiset Block) (p : Prog α) (Q : α → Multiset Block → Prop) : Prop :=
  ∀ rest next, ∃ a held' next', p ⟨held + rest, next⟩ = some (a, ⟨held' + rest, next'⟩) ∧ Q a held'

section Rules

variable {α β : Type} {held : Multiset Block} {p : Prog α} {Q : α → Multiset Block → Prop}

theorem Owns.pure {a : α} (h : Q a held) : Owns held (pure a) Q := fun _ next => ⟨a, held, next, rfl, h⟩

theorem Owns.bind {f : α → Prog β} {R : β → Multiset Block → Prop} (hp : Owns held p Q)
    (hf : ∀ a held', Q a held' → Owns held' (f a) R) : Owns held (p >>= f) R := by
  intro rest next
  obtain ⟨a, held', next', hrun, ha⟩ := hp rest next
  obtain ⟨b, held'', next'', hrun', hb⟩ := hf a held' ha rest next'
  refine ⟨b, held'', next'', ?_, hb⟩
  change (p ⟨held + rest, next⟩).bind (fun am => f am.1 am.2) = _
  rw [hrun]
  exact hrun'

theorem Owns.mono {R : α → Multiset Block → Prop} (h : Owns held p Q) (hQ : ∀ a held', Q a held' → R a held') :
    Owns held p R := by
  intro rest next
  obtain ⟨a, held', next', hrun, ha⟩ := h rest next
  exact ⟨a, held', next', hrun, hQ a held' ha⟩

theorem Owns.malloc (answer : Bool) :
    Owns held (malloc answer) fun b held' => b.isSome = answer ∧ held' = owned b + held := by
  intro rest next
  cases answer with
  | false => exact ⟨none, held, next, rfl, rfl, (zero_add held).symm⟩
  | true =>
    refine ⟨some next, {next} + held, next + 1, ?_, rfl, rfl⟩
    rw [add_assoc]
    rfl

theorem Owns.free (b : Option Block) : Owns (owned b + held) (free b) fun _ held' => held' = held := by
  intro rest next
  refine ⟨(), held, next, ?_, rfl⟩
  cases b with
  | none =>
    rw [owned_none, zero_add]
    rfl
  | some b =>
    have hlive : owned (some b) + held + rest = b ::ₘ (held + rest) := by
      rw [add_assoc]
      rfl
    rw [hlive]
    change (if b ∈ b ::ₘ (held + rest) then _ else none) = _
    rw [if_pos (Multiset.mem_cons_self b _), Multiset.erase_cons_head]

theorem Owns.free_bind {b : Option Block} {f : Unit → Prog β} {R : β → Multiset Block → Prop}
    (hf : Owns held (f ()) R) : Owns (owned b + held) (Allocation.free b >>= f) R := by
  refine (Owns.free b).bind fun _ held' hheld => ?_
  rw [hheld]
  exact hf

theorem Owns.realloc (answer : Bool) (b : Option Block) :
    Owns (owned b + held) (realloc answer b) fun b' held' =>
      b'.isSome = answer ∧ held' = (if answer then owned b' else owned b) + held := by
  cases answer with
  | false => exact .pure ⟨rfl, rfl⟩
  | true =>
    exact .free_bind (.malloc true)

theorem Owns.freeAll (bs : List (Option Block)) : Owns (ownedAll bs + held) (freeAll bs) fun _ held' => held' = held := by
  induction bs with
  | nil =>
    rw [ownedAll_nil, zero_add]
    exact .pure rfl
  | cons b bs ih =>
    rw [ownedAll_cons, add_assoc]
    exact .free_bind ih

/-- A program that starts with nothing accounts for all that is in use after it, beyond what was in use before. -/
theorem Owns.run (h : Owns 0 p Q) (m : Memory) :
    ∃ a held next, p m = some (a, ⟨held + m.live, next⟩) ∧ Q a held := by
  obtain ⟨a, held, next, hrun, ha⟩ := h m.live m.next
  rw [zero_add] at hrun
  exact ⟨a, held, next, hrun, ha⟩

end Rules

/-! ## Loops -/

/-- One turn for each input. -/
def repeated {σ ι : Type} (turn : σ → ι → Prog σ) (s : σ) : List ι → Prog σ
  | [] => pure s
  | i :: is => turn s i >>= fun s' => repeated turn s' is

/-- The state owns its blocks before and after every turn, and follows a machine without memory. -/
theorem Owns.repeated {σ τ ι : Type} {turn : σ → ι → Prog σ} {step : τ → ι → τ} {blocks : σ → Multiset Block}
    {R : σ → τ → Prop}
    (hturn : ∀ s t i, R s t → Owns (blocks s) (turn s i) fun s' held' => held' = blocks s' ∧ R s' (step t i)) {s : σ}
    {t : τ} (hs : R s t) (is : List ι) :
    Owns (blocks s) (repeated turn s is) fun s' held' => held' = blocks s' ∧ R s' (Machine.run step t is) := by
  induction is generalizing s t with
  | nil => exact .pure ⟨rfl, hs⟩
  | cons i is ih =>
    refine (hturn s t i hs).bind fun s' held' hs' => ?_
    rw [hs'.1]
    exact ih hs'.2

end Allocation
