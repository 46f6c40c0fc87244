import IoJournal.Runs.Machine
import Mathlib.Logic.Function.Basic

/-!
# Monitor

Threads that call code on a shared state, all of it under one lock.

A scheduler picks the thread that takes the next small step: it calls, takes the lock, does one step of
its code, gives the lock back, or returns. `Code.act` is such a step; an action that its thread cannot
take does nothing, so every list of actions is a schedule. What callers can see is the history of calls
and returns.

`Object.act` is the same with calls that happen at once, somewhere between call and return.

* `Code.linearizable`: if the code of each call, run alone, does what the object does at once
  (`Code.Implements`), then every history of the code is one of the object.
* `Code.lock_released`, `Code.call_completes`: the code never holds the lock for longer than the bound of
  its calls, and every call can be completed.
-/

namespace Monitor

variable {T σ τ ι ℓ ρ : Type}

/-- What the callers see. -/
inductive Event (T ι ρ : Type) where
  | invoke (thread : T) (call : ι)
  | respond (thread : T) (reply : ρ)
  deriving DecidableEq

/-! ## Calls that happen at once -/

inductive Stage (ι ρ : Type) where
  | idle
  | pending (call : ι)
  | done (reply : ρ)

structure Object (T τ ι ρ : Type) where
  state : τ
  stage : T → Stage ι ρ
  history : List (Event T ι ρ)

def Object.start (state : τ) : Object T τ ι ρ := ⟨state, fun _ => .idle, []⟩

inductive ObjectAction (T ι : Type) where
  | invoke (thread : T) (call : ι)
  | commit (thread : T)
  | respond (thread : T)

section Object

variable [DecidableEq T] (perform : T → τ → ι → τ × ρ)

def Object.act (a : Object T τ ι ρ) : ObjectAction T ι → Object T τ ι ρ
  | .invoke t call =>
    match a.stage t with
    | .idle => { a with stage := Function.update a.stage t (.pending call), history := a.history ++ [.invoke t call] }
    | _ => a
  | .commit t =>
    match a.stage t with
    | .pending call =>
      let (state, reply) := perform t a.state call
      { a with state := state, stage := Function.update a.stage t (.done reply) }
    | _ => a
  | .respond t =>
    match a.stage t with
    | .done reply => { a with stage := Function.update a.stage t .idle, history := a.history ++ [.respond t reply] }
    | _ => a

def Object.Reachable (state : τ) (a : Object T τ ι ρ) : Prop :=
  ∃ actions, a = Machine.run (Object.act perform) (.start state) actions

variable {perform}

theorem Object.reachable_start (state : τ) : Object.Reachable perform state (.start state : Object T τ ι ρ) :=
  ⟨[], rfl⟩

theorem Object.Reachable.act {state : τ} {a : Object T τ ι ρ} (h : Object.Reachable perform state a)
    (action : ObjectAction T ι) : Object.Reachable perform state (a.act perform action) := by
  obtain ⟨actions, rfl⟩ := h
  exact ⟨actions ++ [action], (Machine.run_snoc _ _ _).symm⟩

theorem Object.Reachable.invariant {state : τ} {a : Object T τ ι ρ} (h : Object.Reachable perform state a)
    {Inv : τ → Prop} (hperform : ∀ t state call, Inv state → Inv (perform t state call).1) (hstart : Inv state) :
    Inv a.state := by
  obtain ⟨actions, rfl⟩ := h
  refine @Machine.run_invariant _ _ (Object.act perform) (fun a => Inv a.state) ?_ _ hstart actions
  intro a action ha
  cases action with
  | invoke t call =>
    simp only [Object.act]
    split
    · exact ha
    · exact ha
  | commit t =>
    simp only [Object.act]
    split
    · exact hperform _ _ _ ha
    · exact ha
  | respond t =>
    simp only [Object.act]
    split
    · exact ha
    · exact ha

end Object

/-! ## Code under a lock -/

/-- The code of the calls: where a call starts, one step, and the places where the lock is given back,
with what is then returned. -/
structure Code (σ ι ℓ ρ : Type) where
  enter : ι → ℓ
  step : ℓ → σ → ℓ × σ
  result : ℓ → Option ρ

inductive Phase (ι ℓ ρ : Type) where
  | idle
  | waiting (call : ι)
  | inside (place : ℓ)
  | leaving (reply : ρ)

structure System (T σ ι ℓ ρ : Type) where
  shared : σ
  owner : Option T
  phase : T → Phase ι ℓ ρ
  history : List (Event T ι ρ)

def System.start (shared : σ) : System T σ ι ℓ ρ := ⟨shared, none, fun _ => .idle, []⟩

inductive Action (T ι : Type) where
  | invoke (thread : T) (call : ι)
  | lock (thread : T)
  | work (thread : T)
  | unlock (thread : T)
  | respond (thread : T)

section Code

variable [DecidableEq T] (code : Code σ ι ℓ ρ)

def Code.act (s : System T σ ι ℓ ρ) : Action T ι → System T σ ι ℓ ρ
  | .invoke t call =>
    match s.phase t with
    | .idle => { s with phase := Function.update s.phase t (.waiting call), history := s.history ++ [.invoke t call] }
    | _ => s
  | .lock t =>
    match s.phase t, s.owner with
    | .waiting call, none =>
      { s with owner := some t, phase := Function.update s.phase t (.inside (code.enter call)) }
    | _, _ => s
  | .work t =>
    match s.phase t with
    | .inside place =>
      match code.result place with
      | none =>
        let (place, shared) := code.step place s.shared
        { s with shared := shared, phase := Function.update s.phase t (.inside place) }
      | some _ => s
    | _ => s
  | .unlock t =>
    match s.phase t with
    | .inside place =>
      match code.result place with
      | none => s
      | some reply => { s with owner := none, phase := Function.update s.phase t (.leaving reply) }
    | _ => s
  | .respond t =>
    match s.phase t with
    | .leaving reply =>
      { s with phase := Function.update s.phase t .idle, history := s.history ++ [.respond t reply] }
    | _ => s

/-- `n` steps of the code, with nobody else around. -/
inductive Code.Runs : Nat → ℓ → σ → ℓ → σ → Prop where
  | refl {place : ℓ} {s : σ} : Code.Runs 0 place s place s
  | step {n : Nat} {place place' : ℓ} {s s' : σ} : code.result place = none →
      Code.Runs n (code.step place s).1 (code.step place s).2 place' s' → Code.Runs (n + 1) place s place' s'

/-- Run alone, the code of each call reaches in at most `bound` steps a place where it gives the lock
back, and has then done to the shared state what the object does at once. -/
def Code.Implements (bound : Nat) (perform : T → τ → ι → τ × ρ) (Rel : σ → τ → Prop) : Prop :=
  ∀ t call s a, Rel s a → ∃ n place s', n ≤ bound ∧ code.Runs n (code.enter call) s place s' ∧
    code.result place = some (perform t a call).2 ∧ Rel s' (perform t a call).1

end Code

/-! ## Code run alone -/

section Runs

variable {code : Code σ ι ℓ ρ} {place place' : ℓ} {s s' : σ} {n : Nat}

theorem Code.Runs.snoc (h : code.Runs n place s place' s') (hresult : code.result place' = none) :
    code.Runs (n + 1) place s (code.step place' s').1 (code.step place' s').2 := by
  induction h with
  | refl => exact .step hresult .refl
  | step hfirst _ ih => exact .step hfirst (ih hresult)

theorem Code.Runs.rest {m : Nat} {final : ℓ} {t : σ} {reply : ρ} (h : code.Runs n place s place' s')
    (hall : code.Runs m place s final t) (hfinal : code.result final = some reply) :
    ∃ k, m = n + k ∧ code.Runs k place' s' final t := by
  induction h generalizing m with
  | refl => exact ⟨m, (Nat.zero_add m).symm, hall⟩
  | step hfirst _ ih =>
    cases hall with
    | refl =>
      rw [hfirst] at hfinal
      cases hfinal
    | step _ hrest =>
      obtain ⟨k, rfl, hk⟩ := ih hrest
      exact ⟨k, by omega, hk⟩

theorem Code.Runs.eq_of_result {final : ℓ} {t : σ} {reply : ρ} (h : code.Runs n place s final t)
    (hresult : code.result place = some reply) : n = 0 ∧ final = place ∧ t = s := by
  cases h with
  | refl => exact ⟨rfl, rfl, rfl⟩
  | step hfirst _ =>
    rw [hfirst] at hresult
    cases hresult

end Runs

/-! ## Simulation -/

section Simulation

variable (code : Code σ ι ℓ ρ) (Rel : σ → τ → Prop)

/-- A thread is as far with its call as its counterpart: the one that holds the lock has still to commit,
and has done the first steps of its code on a state that stands for the object's. -/
def Code.Matches (s : System T σ ι ℓ ρ) (a : Object T τ ι ρ) (t : T) : Phase ι ℓ ρ → Prop
  | .idle => a.stage t = .idle
  | .waiting call => a.stage t = .pending call
  | .inside place => s.owner = some t ∧ ∃ call start n, a.stage t = .pending call ∧ Rel start a.state ∧
      code.Runs n (code.enter call) start place s.shared
  | .leaving reply => a.stage t = .done reply

structure Code.Simulates (s : System T σ ι ℓ ρ) (a : Object T τ ι ρ) : Prop where
  history : s.history = a.history
  free : s.owner = none → Rel s.shared a.state
  owner : ∀ t, s.owner = some t → ∃ place, s.phase t = .inside place
  threads : ∀ t, code.Matches Rel s a t (s.phase t)

variable {code Rel} {s : System T σ ι ℓ ρ} {a : Object T τ ι ρ} {t u : T}

/-- A step of another thread leaves a thread where it is, if the lock stays with whoever has it. -/
theorem Code.Matches.frame {s' : System T σ ι ℓ ρ} {a' : Object T τ ι ρ} {phase : Phase ι ℓ ρ}
    (h : code.Matches Rel s a t phase) (hstage : a'.stage t = a.stage t)
    (hinside : s.owner = some t → s'.owner = some t ∧ a'.state = a.state ∧ s'.shared = s.shared) :
    code.Matches Rel s' a' t phase := by
  cases phase with
  | idle => exact hstage.trans h
  | waiting call => exact hstage.trans h
  | leaving reply => exact hstage.trans h
  | inside place =>
    obtain ⟨howner, call, start, n, hpending, hrel, hruns⟩ := h
    obtain ⟨howner', hstate, hshared⟩ := hinside howner
    refine ⟨howner', call, start, n, hstage.trans hpending, ?_, ?_⟩
    · rw [hstate]
      exact hrel
    · rw [hshared]
      exact hruns

theorem Code.simulates_start {shared : σ} {state : τ} (h : Rel shared state) :
    code.Simulates Rel (.start shared : System T σ ι ℓ ρ) (.start state) where
  history := rfl
  free := fun _ => h
  owner := nofun
  threads := fun _ => rfl

namespace Code.Simulates

variable (h : code.Simulates Rel s a)
include h

theorem inside_owner {place : ℓ} (hphase : s.phase t = .inside place) : s.owner = some t := by
  have hmatch := h.threads t
  rw [hphase] at hmatch
  exact hmatch.1

theorem exclusive {place place' : ℓ} (ht : s.phase t = .inside place) (hu : s.phase u = .inside place') : t = u := by
  have heq := (h.inside_owner ht).symm.trans (h.inside_owner hu)
  exact Option.some.inj heq

theorem ne_owner {place : ℓ} (hphase : s.phase t = .inside place) (hu : u ≠ t) : s.owner ≠ some u := by
  intro howner
  exact hu (Option.some.inj (howner.symm.trans (h.inside_owner hphase)))

theorem owner_ne (hphase : ∀ place, s.phase t ≠ .inside place) (hu : s.owner = some u) : u ≠ t := by
  rintro rfl
  obtain ⟨place, hplace⟩ := h.owner u hu
  exact hphase place hplace

variable [DecidableEq T] {bound : Nat} {perform : T → τ → ι → τ × ρ}

/-- The other threads are where they were after a step of `t`, if a lock that one of them has stays there. -/
theorem of_update {s' : System T σ ι ℓ ρ} {a' : Object T τ ι ρ} {phase : Phase ι ℓ ρ}
    (hphase : s'.phase = Function.update s.phase t phase) (hstage : ∀ u, u ≠ t → a'.stage u = a.stage u)
    (hhistory : s'.history = a'.history) (hfree : s'.owner = none → Rel s'.shared a'.state)
    (howner : ∀ u, s'.owner = some u → u = t ∧ (∃ place, phase = .inside place) ∨ u ≠ t ∧ s.owner = some u)
    (hinside : ∀ u, u ≠ t → s.owner = some u → s'.owner = some u ∧ a'.state = a.state ∧ s'.shared = s.shared)
    (hself : code.Matches Rel s' a' t phase) : code.Simulates Rel s' a' := by
  refine ⟨hhistory, hfree, fun u hu => ?_, fun u => ?_⟩
  · rw [hphase]
    rcases howner u hu with ⟨rfl, place, rfl⟩ | ⟨hne, hold⟩
    · exact ⟨place, Function.update_self _ _ _⟩
    · rw [Function.update_of_ne hne]
      exact h.owner u hold
  · rw [hphase]
    by_cases hu : u = t
    · subst hu
      rw [Function.update_self]
      exact hself
    · rw [Function.update_of_ne hu]
      exact (h.threads u).frame (hstage u hu) (hinside u hu)

theorem invoke {call : ι} (hphase : s.phase t = .idle) :
    code.Simulates Rel (code.act s (.invoke t call)) (a.act perform (.invoke t call)) := by
  have hstage := h.threads t
  rw [hphase] at hstage
  have hstage : a.stage t = .idle := hstage
  simp only [Code.act, hphase, Object.act, hstage]
  refine h.of_update rfl (fun u hu => Function.update_of_ne hu _ _) ?_ h.free (fun u hu => ?_)
    (fun u _ hu => ⟨hu, rfl, rfl⟩) (Function.update_self _ _ _)
  · rw [h.history]
  · exact .inr ⟨h.owner_ne (fun place heq => by rw [hphase] at heq; cases heq) hu, hu⟩

theorem lock {call : ι} (hphase : s.phase t = .waiting call) (howner : s.owner = none) :
    code.Simulates Rel (code.act s (.lock t)) a := by
  have hstage := h.threads t
  rw [hphase] at hstage
  simp only [Code.act, hphase, howner]
  refine h.of_update rfl (fun _ _ => rfl) h.history nofun (fun u hu => ?_) (fun u _ hu => ?_)
    ⟨rfl, call, s.shared, 0, hstage, h.free howner, .refl⟩
  · exact .inl ⟨(Option.some.inj hu).symm, _, rfl⟩
  · rw [howner] at hu
    cases hu

theorem work {place : ℓ} (hphase : s.phase t = .inside place) (hresult : code.result place = none) :
    code.Simulates Rel (code.act s (.work t)) a := by
  have howner := h.inside_owner hphase
  have hmatch := h.threads t
  rw [hphase] at hmatch
  obtain ⟨-, call, start, n, hpending, hrel, hruns⟩ := hmatch
  simp only [Code.act, hphase, hresult]
  refine h.of_update rfl (fun _ _ => rfl) h.history (fun hfree => ?_) (fun u hu => ?_) (fun u hne hu => ?_)
    ⟨howner, call, start, n + 1, hpending, hrel, hruns.snoc hresult⟩
  · have hfree : s.owner = none := hfree
    rw [howner] at hfree
    cases hfree
  · exact .inl ⟨Option.some.inj (hu.symm.trans howner), _, rfl⟩
  · exact absurd hu (h.ne_owner hphase hne)

/-- The call takes effect when the lock is given back. -/
theorem unlock (himpl : code.Implements bound perform Rel) {place : ℓ} {reply : ρ} (hphase : s.phase t = .inside place)
    (hresult : code.result place = some reply) :
    code.Simulates Rel (code.act s (.unlock t)) (a.act perform (.commit t)) := by
  have hmatch := h.threads t
  rw [hphase] at hmatch
  obtain ⟨-, call, start, n, hpending, hrel, hruns⟩ := hmatch
  obtain ⟨m, final, shared, -, hall, hfinal, hrel'⟩ := himpl t call start a.state hrel
  obtain ⟨k, -, hrest⟩ := hruns.rest hall hfinal
  obtain ⟨-, rfl, rfl⟩ := hrest.eq_of_result hresult
  obtain rfl : reply = (perform t a.state call).2 := Option.some.inj (hresult.symm.trans hfinal)
  simp only [Code.act, hphase, hresult, Object.act, hpending]
  refine h.of_update rfl (fun u hu => Function.update_of_ne hu _ _) h.history (fun _ => hrel') nofun
    (fun u hne hu => ?_) (Function.update_self _ _ _)
  exact absurd hu (h.ne_owner hphase hne)

theorem respond {reply : ρ} (hphase : s.phase t = .leaving reply) :
    code.Simulates Rel (code.act s (.respond t)) (a.act perform (.respond t)) := by
  have hstage := h.threads t
  rw [hphase] at hstage
  have hstage : a.stage t = .done reply := hstage
  simp only [Code.act, hphase, Object.act, hstage]
  refine h.of_update rfl (fun u hu => Function.update_of_ne hu _ _) ?_ h.free (fun u hu => ?_)
    (fun u _ hu => ⟨hu, rfl, rfl⟩) (Function.update_self _ _ _)
  · rw [h.history]
  · exact .inr ⟨h.owner_ne (fun place heq => by rw [hphase] at heq; cases heq) hu, hu⟩

/-- Every step of the code is at most one step of the object. -/
theorem act (himpl : code.Implements bound perform Rel) (action : Action T ι) :
    code.Simulates Rel (code.act s action) a ∨
      ∃ action', code.Simulates Rel (code.act s action) (a.act perform action') := by
  cases action with
  | invoke t call =>
    cases hphase : s.phase t with
    | idle => exact .inr ⟨_, h.invoke hphase⟩
    | _ => simp only [Code.act, hphase]; exact .inl h
  | lock t =>
    cases hphase : s.phase t with
    | waiting call =>
      cases howner : s.owner with
      | none => exact .inl (h.lock hphase howner)
      | some u => simp only [Code.act, hphase, howner]; exact .inl h
    | _ => simp only [Code.act, hphase]; exact .inl h
  | work t =>
    cases hphase : s.phase t with
    | inside place =>
      cases hresult : code.result place with
      | none => exact .inl (h.work hphase hresult)
      | some reply => simp only [Code.act, hphase, hresult]; exact .inl h
    | _ => simp only [Code.act, hphase]; exact .inl h
  | unlock t =>
    cases hphase : s.phase t with
    | inside place =>
      cases hresult : code.result place with
      | none => simp only [Code.act, hphase, hresult]; exact .inl h
      | some reply => exact .inr ⟨_, h.unlock himpl hphase hresult⟩
    | _ => simp only [Code.act, hphase]; exact .inl h
  | respond t =>
    cases hphase : s.phase t with
    | leaving reply => exact .inr ⟨_, h.respond hphase⟩
    | _ => simp only [Code.act, hphase]; exact .inl h

end Code.Simulates

/-! ## Every schedule -/

theorem Code.run_work [DecidableEq T] {n : Nat} {place final : ℓ} {shared : σ} (t : T) (s : System T σ ι ℓ ρ)
    (hruns : code.Runs n place s.shared final shared) (hphase : s.phase t = .inside place) :
    Machine.run code.act s (List.replicate n (.work t)) =
      { s with shared := shared, phase := Function.update s.phase t (.inside final) } := by
  generalize hbefore : s.shared = before at hruns
  induction hruns generalizing s with
  | refl =>
    subst hbefore
    rw [← hphase, Function.update_eq_self]
    rfl
  | @step _ place _ _ _ hresult _ ih =>
    subst hbefore
    rw [List.replicate_succ, Machine.run_cons]
    have hact : code.act s (.work t) = { s with
        shared := (code.step place s.shared).2
        phase := Function.update s.phase t (.inside (code.step place s.shared).1) } := by
      simp only [Code.act, hphase, hresult]
    rw [hact, ih _ (Function.update_self _ _ _) rfl, Function.update_idem]

section Schedules

variable [DecidableEq T] {bound : Nat} {perform : T → τ → ι → τ × ρ} (himpl : code.Implements bound perform Rel)
include himpl

/-- A thread that holds the lock gives it back after at most `bound` steps of its own. -/
theorem Code.lock_released (h : code.Simulates Rel s a) (howner : s.owner = some t) :
    ∃ n reply, n ≤ bound ∧ ∃ s' : System T σ ι ℓ ρ,
      Machine.run code.act s (List.replicate n (.work t) ++ [.unlock t]) = s' ∧ s'.owner = none ∧
        s'.phase = Function.update s.phase t (.leaving reply) := by
  obtain ⟨place, hplace⟩ := h.owner t howner
  have hmatch := h.threads t
  rw [hplace] at hmatch
  obtain ⟨-, call, start, m, -, hrel, hruns⟩ := hmatch
  obtain ⟨n, final, shared, hbound, hall, hfinal, -⟩ := himpl t call start a.state hrel
  obtain ⟨k, rfl, hrest⟩ := hruns.rest hall hfinal
  refine ⟨k, (perform t a.state call).2, by omega, _, rfl, ?_⟩
  rw [Machine.run_snoc, Code.run_work t s hrest hplace]
  simp only [Code.act, Function.update_self, hfinal]
  exact ⟨trivial, Function.update_idem _ _ _⟩

theorem Code.simulates_run {state : τ} (hreach : Object.Reachable perform state a) (h : code.Simulates Rel s a)
    (schedule : List (Action T ι)) :
    ∃ a : Object T τ ι ρ, Object.Reachable perform state a ∧
      code.Simulates Rel (Machine.run code.act s schedule) a := by
  refine @Machine.run_invariant _ _ code.act
    (fun s => ∃ a : Object T τ ι ρ, Object.Reachable perform state a ∧ code.Simulates Rel s a) ?_ _ ⟨a, hreach, h⟩ schedule
  rintro s action ⟨a, hreach, hsim⟩
  rcases hsim.act himpl action with hsim | ⟨action', hsim⟩
  · exact ⟨a, hreach, hsim⟩
  · exact ⟨_, hreach.act action', hsim⟩

/-- Every schedule of the code has the history of a run of the object. -/
theorem Code.linearizable {shared : σ} {state : τ} (hstart : Rel shared state) (schedule : List (Action T ι)) :
    ∃ a : Object T τ ι ρ, Object.Reachable perform state a ∧
      code.Simulates Rel (Machine.run code.act (.start shared) schedule) a :=
  Code.simulates_run himpl (Object.reachable_start state) (Code.simulates_start hstart) schedule

theorem Code.completes_inside (h : code.Simulates Rel s a) (howner : s.owner = some t) :
    ∃ schedule : List (Action T ι), schedule.length ≤ bound + 2 ∧
      (Machine.run code.act s schedule).phase t = .idle := by
  obtain ⟨n, reply, hn, s', hrun, -, hphase⟩ := Code.lock_released himpl h howner
  refine ⟨(List.replicate n (.work t) ++ [.unlock t]) ++ [.respond t], ?_, ?_⟩
  · simp only [List.length_append, List.length_replicate, List.length_singleton]
    omega
  · have hleaving : s'.phase t = .leaving reply := by
      rw [hphase]
      exact Function.update_self _ _ _
    rw [Machine.run_snoc, hrun]
    simp only [Code.act, hleaving]
    exact Function.update_self _ _ _

theorem Code.completes_free (h : code.Simulates Rel s a) (howner : s.owner = none) {call : ι}
    (hphase : s.phase t = .waiting call) :
    ∃ schedule : List (Action T ι), schedule.length ≤ bound + 3 ∧
      (Machine.run code.act s schedule).phase t = .idle := by
  have hlock : (code.act s (.lock t)).owner = some t := by
    simp only [Code.act, hphase, howner]
  obtain ⟨schedule, hlen, hidle⟩ := Code.completes_inside himpl (h.lock hphase howner) hlock
  exact ⟨.lock t :: schedule, Nat.succ_le_succ hlen, hidle⟩

/-- Every call can be completed: the thread that has the lock, if there is one, gives it back, and
then the caller takes it. -/
theorem Code.call_completes {state : τ} (hreach : Object.Reachable perform state a) (h : code.Simulates Rel s a) (t : T) :
    ∃ schedule : List (Action T ι), schedule.length ≤ 2 * bound + 4 ∧
      (Machine.run code.act s schedule).phase t = .idle := by
  cases hphase : s.phase t with
  | idle => exact ⟨[], Nat.zero_le _, hphase⟩
  | leaving reply =>
    refine ⟨[.respond t], by simp, ?_⟩
    simp only [Machine.run_cons, Machine.run_nil, Code.act, hphase]
    exact Function.update_self _ _ _
  | inside place =>
    obtain ⟨schedule, hlen, hidle⟩ := Code.completes_inside himpl h (h.inside_owner hphase)
    exact ⟨schedule, by omega, hidle⟩
  | waiting call =>
    cases howner : s.owner with
    | none =>
      obtain ⟨schedule, hlen, hidle⟩ := Code.completes_free himpl h howner hphase
      exact ⟨schedule, by omega, hidle⟩
    | some u =>
      obtain ⟨n, reply, hn, s', hrun, hfree, hphase'⟩ := Code.lock_released himpl h howner
      obtain ⟨a', -, hsim⟩ := Code.simulates_run himpl hreach h (List.replicate n (.work u) ++ [.unlock u])
      rw [hrun] at hsim
      have hne : t ≠ u := by
        rintro rfl
        obtain ⟨place, hplace⟩ := h.owner t howner
        rw [hphase] at hplace
        cases hplace
      have hwaiting : s'.phase t = .waiting call := by
        rw [hphase', Function.update_of_ne hne]
        exact hphase
      obtain ⟨schedule, hlen, hidle⟩ := Code.completes_free himpl hsim hfree hwaiting
      refine ⟨(List.replicate n (.work u) ++ [.unlock u]) ++ schedule, ?_, ?_⟩
      · simp only [List.length_append, List.length_replicate, List.length_singleton]
        omega
      · rw [Machine.run_append, hrun]
        exact hidle

end Schedules

end Simulation

end Monitor
