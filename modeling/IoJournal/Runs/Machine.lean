import Mathlib.Data.List.Forall2
import Mathlib.Data.List.Induction

/-!
# Machine

Runs of a deterministic machine `step : σ → ι → σ` over a list of inputs.

* `run` is the state after the inputs, `Along P` says that every input meets `P` in the state it is
  given to.
* `run_invariant`, `Along.invariant`: what every step, or every step that meets `P`, preserves holds at
  the end.
* `Along.induction`: the same, with the inputs so far in the motive.
* `run_relates`: two machines that keep a relation step by step keep it along a run; `run_relates₂` is the
  same for inputs that are related one by one.
* `run_peak`: a gauge that follows the largest value of a measure has it at the end of a run.
* `along_congr`: two conditions on the steps of a run agree if they agree in the states of an
  invariant that the steps of the one preserve.
-/

namespace Machine

variable {σ ι : Type} (step : σ → ι → σ)

def run (s : σ) (is : List ι) : σ := is.foldl step s

/-- Every input meets `P` in the state it is given to. -/
def Along (P : σ → ι → Prop) : σ → List ι → Prop
  | _, [] => True
  | s, i :: is => P s i ∧ Along P (step s i) is

instance decidableAlong {P : σ → ι → Prop} [∀ s i, Decidable (P s i)] :
    (s : σ) → (is : List ι) → Decidable (Along step P s is)
  | _, [] => isTrue trivial
  | s, i :: is =>
    have : Decidable (Along step P (step s i) is) := decidableAlong (step s i) is
    inferInstanceAs (Decidable (P s i ∧ Along step P (step s i) is))

variable {step}

@[simp] theorem run_nil (s : σ) : run step s [] = s := rfl

@[simp] theorem run_cons (s : σ) (i : ι) (is : List ι) : run step s (i :: is) = run step (step s i) is := rfl

theorem run_append (s : σ) (is is' : List ι) : run step s (is ++ is') = run step (run step s is) is' :=
  List.foldl_append

@[simp] theorem run_snoc (s : σ) (is : List ι) (i : ι) : run step s (is ++ [i]) = step (run step s is) i :=
  run_append s is [i]

theorem along_append {P : σ → ι → Prop} {s : σ} {is is' : List ι} :
    Along step P s (is ++ is') ↔ Along step P s is ∧ Along step P (run step s is) is' := by
  induction is generalizing s with
  | nil => exact (true_and _).to_iff.symm
  | cons i is ih => simp only [List.cons_append, Along, run_cons, ih, and_assoc]

theorem along_snoc {P : σ → ι → Prop} {s : σ} {is : List ι} {i : ι} :
    Along step P s (is ++ [i]) ↔ Along step P s is ∧ P (run step s is) i := by
  rw [along_append]
  exact and_congr_right' (and_iff_left trivial)

theorem along_iff {P : σ → ι → Prop} {s : σ} {is : List ι} :
    Along step P s is ↔ ∀ before i after, is = before ++ i :: after → P (run step s before) i := by
  constructor
  · rintro h before i after rfl
    exact (along_append.1 h).2.1
  · intro h
    induction is generalizing s with
    | nil => trivial
    | cons i is ih =>
      refine ⟨h [] i is rfl, ih fun before j after heq => ?_⟩
      exact h (i :: before) j after (congrArg (i :: ·) heq)

theorem along_of_forall {P : ι → Prop} {s : σ} {is : List ι} (h : ∀ i ∈ is, P i) : Along step (fun _ i => P i) s is := by
  induction is generalizing s with
  | nil => trivial
  | cons i is ih => exact ⟨h i List.mem_cons_self, ih fun j hj => h j (List.mem_cons_of_mem _ hj)⟩

theorem Along.invariant {P : σ → ι → Prop} (Inv : σ → Prop) (hstep : ∀ s i, Inv s → P s i → Inv (step s i)) {s : σ}
    {is : List ι} (h : Along step P s is) (hs : Inv s) : Inv (run step s is) := by
  induction is generalizing s with
  | nil => exact hs
  | cons i is ih => exact ih h.2 (hstep s i hs h.1)

theorem run_invariant (Inv : σ → Prop) (hstep : ∀ s i, Inv s → Inv (step s i)) {s : σ} (hs : Inv s) (is : List ι) :
    Inv (run step s is) := by
  induction is generalizing s with
  | nil => exact hs
  | cons i is ih => exact ih (hstep s i hs)

theorem Along.induction {P : σ → ι → Prop} {s : σ} {motive : List ι → σ → Prop} (nil : motive [] s)
    (snoc : ∀ is i, P (run step s is) i → motive is (run step s is) → motive (is ++ [i]) (step (run step s is) i))
    {is : List ι} (h : Along step P s is) : motive is (run step s is) := by
  induction is using List.reverseRecOn with
  | nil => exact nil
  | append_singleton is i ih =>
    rw [along_snoc] at h
    rw [run_snoc]
    exact snoc is i h.2 (ih h.1)

theorem along_congr {H P Q : σ → ι → Prop} (Inv : σ → Prop)
    (hstep : ∀ s i, Inv s → H s i → P s i → Inv (step s i)) (hiff : ∀ s i, Inv s → H s i → (P s i ↔ Q s i)) {s : σ}
    {is : List ι} (hs : Inv s) (h : Along step H s is) : Along step P s is ↔ Along step Q s is := by
  induction is generalizing s with
  | nil => exact Iff.rfl
  | cons i is ih =>
    constructor
    · intro hP
      exact ⟨(hiff s i hs h.1).1 hP.1, (ih (hstep s i hs h.1 hP.1) h.2).1 hP.2⟩
    · intro hQ
      have hP := (hiff s i hs h.1).2 hQ.1
      exact ⟨hP, (ih (hstep s i hs h.1 hP) h.2).2 hQ.2⟩

theorem run_relates {τ : Type} {step' : τ → ι → τ} {R : σ → τ → Prop}
    (hstep : ∀ s t i, R s t → R (step s i) (step' t i)) {s : σ} {t : τ} (h : R s t) (is : List ι) :
    R (run step s is) (run step' t is) := by
  induction is generalizing s t with
  | nil => exact h
  | cons i is ih => exact ih (hstep s t i h)

theorem run_relates₂ {τ κ : Type} {step' : τ → κ → τ} {R : σ → τ → Prop} {I : ι → κ → Prop}
    (hstep : ∀ s t i j, R s t → I i j → R (step s i) (step' t j)) {s : σ} {t : τ} (h : R s t) {is : List ι} {js : List κ}
    (his : List.Forall₂ I is js) : R (run step s is) (run step' t js) := by
  induction his generalizing s t with
  | nil => exact h
  | cons hfirst _ ih => exact ih (hstep _ _ _ _ h hfirst)

theorem run_peak {Inv : σ → Prop} {measure gauge : σ → Nat}
    (hstep : ∀ s i, Inv s → Inv (step s i) ∧ gauge (step s i) = max (gauge s) (measure (step s i))) {s : σ}
    (hs : Inv s) (hstart : gauge s = measure s) (is : List ι) :
    (∀ before, before <+: is → measure (run step s before) ≤ gauge (run step s is)) ∧
      ∃ before, before <+: is ∧ measure (run step s before) = gauge (run step s is) := by
  induction is using List.reverseRecOn with
  | nil =>
    refine ⟨fun before hbefore => ?_, [], List.prefix_rfl, hstart.symm⟩
    rw [List.prefix_nil.1 hbefore]
    exact Nat.le_of_eq hstart.symm
  | append_singleton is i ih =>
    have hinv := run_invariant Inv (fun s i h => (hstep s i h).1) hs is
    have hgauge := (hstep _ i hinv).2
    obtain ⟨hle, before, hbefore, heq⟩ := ih
    rw [run_snoc, hgauge]
    constructor
    · intro before' hbefore'
      rcases List.prefix_concat_iff.1 hbefore' with rfl | hbefore'
      · rw [run_snoc]
        exact Nat.le_max_right _ _
      · exact Nat.le_trans (hle before' hbefore') (Nat.le_max_left _ _)
    · rcases Nat.le_total (gauge (run step s is)) (measure (step (run step s is) i)) with hlt | hlt
      · exact ⟨is ++ [i], List.prefix_rfl, by rw [run_snoc, Nat.max_eq_right hlt]⟩
      · exact ⟨before, hbefore.trans (List.prefix_append _ _), by rw [heq, Nat.max_eq_left hlt]⟩

end Machine
