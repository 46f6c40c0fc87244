import Mathlib.Data.List.Perm.Basic

/-!
# Completions

Requests to a device that answers them in an order of its own.

A request is prepared, handed over together with the ones before it, and completed by the device; the
oldest completion is reaped first. Nothing ties a completion to the one who waits for it: who reaps one
gets the oldest, whoever made its request.

* `outstanding` is all that was prepared and not reaped. Only `prepare` and `reap` change it, the device
  at most its order (`complete_outstanding`).
* A device that completes the oldest request first leaves the order alone (`complete_first`).
-/

structure QueuePair (ε ρ : Type) where
  prepared : List ε
  flying : List ε
  completed : List (ε × ρ)

namespace QueuePair

variable {ε ρ : Type} {q q' : QueuePair ε ρ} {e : ε} {r : ρ} {place : Nat}

def empty : QueuePair ε ρ := ⟨[], [], []⟩

def prepare (capacity : Nat) (q : QueuePair ε ρ) (e : ε) : Option (QueuePair ε ρ) :=
  if q.prepared.length < capacity then some { q with prepared := q.prepared ++ [e] } else none

/-- The device takes the first `n` of the prepared requests. -/
def submit (q : QueuePair ε ρ) (n : Nat) : QueuePair ε ρ :=
  { q with flying := q.flying ++ q.prepared.take n, prepared := q.prepared.drop n }

/-- The device completes the request at `place` among those it has. -/
def complete (q : QueuePair ε ρ) (place : Nat) (r : ρ) : QueuePair ε ρ :=
  match q.flying[place]? with
  | none => q
  | some e => { q with flying := q.flying.eraseIdx place, completed := q.completed ++ [(e, r)] }

def reap (q : QueuePair ε ρ) : Option ((ε × ρ) × QueuePair ε ρ) :=
  match q.completed with
  | [] => none
  | c :: rest => some (c, { q with completed := rest })

def outstanding (q : QueuePair ε ρ) : List ε := q.completed.map Prod.fst ++ (q.flying ++ q.prepared)

theorem prepare_outstanding {capacity : Nat} (h : q.prepare capacity e = some q') :
    q'.outstanding = q.outstanding ++ [e] ∧ q'.completed = q.completed := by
  unfold prepare at h
  split at h
  · cases h
    exact ⟨by simp only [outstanding, List.append_assoc], rfl⟩
  · cases h

theorem submit_outstanding (q : QueuePair ε ρ) (n : Nat) : (q.submit n).outstanding = q.outstanding := by
  simp only [outstanding, submit, List.append_assoc, List.take_append_drop]

theorem complete_outstanding (q : QueuePair ε ρ) (place : Nat) (r : ρ) :
    (q.complete place r).outstanding.Perm q.outstanding := by
  unfold complete
  split
  · exact List.Perm.refl _
  · rename_i e he
    obtain ⟨hlt, rfl⟩ := List.getElem?_eq_some_iff.1 he
    simp only [outstanding, List.map_append, List.map_singleton, List.append_assoc, List.singleton_append]
    refine List.Perm.append_left _ ?_
    rw [← List.cons_append]
    exact List.Perm.append_right _ (List.getElem_cons_eraseIdx_perm hlt)

theorem complete_completed (he : q.flying[place]? = some e) (r : ρ) :
    (q.complete place r).completed = q.completed ++ [(e, r)] := by rw [complete, he]

theorem flying_outstanding (he : q.flying[place]? = some e) : e ∈ q.outstanding :=
  List.mem_append_right _ (List.mem_append_left _ (List.mem_of_getElem? he))

theorem complete_first (q : QueuePair ε ρ) (r : ρ) : (q.complete 0 r).outstanding = q.outstanding := by
  unfold complete
  split
  · rfl
  · rename_i e he
    obtain ⟨prepared, flying, completed⟩ := q
    cases flying with
    | nil => cases he
    | cons f rest =>
      cases he
      simp only [outstanding, List.map_append, List.map_singleton, List.append_assoc, List.eraseIdx_cons_zero,
        List.cons_append, List.nil_append]

theorem reap_outstanding (h : q.reap = some ((e, r), q')) :
    q.outstanding = e :: q'.outstanding ∧ q.completed = (e, r) :: q'.completed := by
  unfold reap at h
  split at h
  · cases h
  · rename_i c rest hcompleted
    cases h
    refine ⟨?_, hcompleted⟩
    simp only [outstanding, hcompleted, List.map_cons, List.cons_append]

end QueuePair
