import IoJournal.Runs.Machine
import IoJournal.Runs.Relaxed
import IoJournal.Simd

/-!
# IoJournal.SimdCache

`ij_simd_runtime_has_x86_avx2` of `ij_simd_dispatch.h`, called by any number of threads.

The answer of the CPU is kept in a static atomic. The function is `static inline` in a header, so every
file that includes it has an atomic of its own, and a thread that calls it from two files asks twice. The
atomic is loaded and stored with relaxed ordering and without a lock, so threads may find it empty at the
same time and each ask the CPU. `feature_test_agrees`: all calls answer what the CPU says, so a dispatcher
can be modelled by a fixed `Cpu`, no thread asks twice from one file, and no thread waits for another.
-/

namespace IoJournal

open Relaxed

variable {U T : Type} [DecidableEq U] [DecidableEq T]

/-- The atomics of the files, the file in which a thread has found its one empty, how often each thread has
asked the CPU from each file, and the answers of the calls that returned. -/
structure FeatureTest (U T : Type) where
  cached : U → Cell T Int
  asking : T → Option U
  asked : U → T → Nat
  answers : List (U × T × Bool)

/-- `static _Atomic int cached = -1;` -/
def FeatureTest.start : FeatureTest U T := ⟨fun _ => .start (-1), fun _ => none, fun _ _ => 0, []⟩

/-- A thread begins a call in a file with its load, or ends one with its store, and sees or takes a place in
the order of the stores. -/
inductive FeatureAction (U T : Type) where
  | load (thread : T) (file : U) (place : Nat)
  | store (thread : T) (place : Nat)

/-- What `__builtin_cpu_supports` gives is kept as 1 or 0. -/
def cachedAnswer (supports : Bool) : Int := if supports then 1 else 0

/-- An action that the thread cannot take does nothing. -/
def FeatureTest.act (supports : Bool) (s : FeatureTest U T) : FeatureAction U T → FeatureTest U T
  | .load t file place =>
    if (s.asking t).isSome then s
    else
      match (s.cached file).load t place with
      | none => s
      | some (value, cell) =>
        let cached := Function.update s.cached file cell
        if 0 ≤ value then { s with cached, answers := s.answers ++ [(file, t, decide (value ≠ 0))] }
        else { s with cached, asking := Function.update s.asking t (some file) }
  | .store t place =>
    match s.asking t with
    | none => s
    | some file =>
      match (s.cached file).store t place (cachedAnswer supports) with
      | none => s
      | some cell =>
        { cached := Function.update s.cached file cell
          asking := Function.update s.asking t none
          asked := Function.update s.asked file (Function.update (s.asked file) t (s.asked file t + 1))
          answers := s.answers ++ [(file, t, decide (cachedAnswer supports ≠ 0))] }

theorem cachedAnswer_nonneg (supports : Bool) : 0 ≤ cachedAnswer supports := by cases supports <;> decide

theorem cachedAnswer_ne_zero (supports : Bool) : decide (cachedAnswer supports ≠ 0) = supports := by
  cases supports <;> rfl

/-- The atomic of one file: a thread that has asked from it has seen its own store, and does not find it
empty again. -/
structure AskedOnce (supports : Bool) (cached : Cell T Int) (asked : T → Nat) : Prop where
  settles : Settles (-1) (cachedAnswer supports) cached
  unasked : ∀ t, cached.seen t = 0 → asked t = 0
  once : ∀ t, asked t ≤ 1

section AskedOnce

variable {supports : Bool} {cached cell : Cell T Int} {asked : T → Nat} {t : T} {place : Nat} {value : Int}
  (h : AskedOnce supports cached asked)
include h

/-- A load finds the atomic empty, or finds the answer; then the thread has seen a store. -/
theorem AskedOnce.load (hload : cached.load t place = some (value, cell)) :
    AskedOnce supports cell asked ∧ (∀ u, u ≠ t → cell.seen u = cached.seen u) ∧
      (0 ≤ value ∧ value = cachedAnswer supports ∨ ¬0 ≤ value ∧ cell.seen t = 0) := by
  obtain ⟨hsettles, hmono, hothers, hvalue⟩ := h.settles.load hload
  refine ⟨⟨hsettles, fun u hu => ?_, h.once⟩, hothers, ?_⟩
  · by_cases htu : u = t
    · rw [htu] at hu ⊢
      exact h.unasked t (by omega)
    · rw [hothers u htu] at hu
      exact h.unasked u hu
  · rcases hvalue with ⟨rfl, hzero⟩ | ⟨rfl, -⟩
    · exact .inr ⟨by decide, hzero⟩
    · exact .inl ⟨cachedAnswer_nonneg supports, rfl⟩

theorem AskedOnce.store (hempty : cached.seen t = 0)
    (hstore : cached.store t place (cachedAnswer supports) = some cell) :
    AskedOnce supports cell (Function.update asked t (asked t + 1)) ∧
      ∀ u, u ≠ t → cached.seen u = 0 → cell.seen u = 0 := by
  obtain ⟨hsettles, hmono, hpos, hothers⟩ := h.settles.store hstore
  have hnever : asked t = 0 := h.unasked t hempty
  refine ⟨⟨hsettles, fun u hu => ?_, fun u => ?_⟩, hothers⟩
  · have hne : u ≠ t := fun heq => by rw [heq] at hu; omega
    rw [Function.update_of_ne hne]
    have := hmono u
    exact h.unasked u (by omega)
  · by_cases htu : u = t
    · rw [htu, Function.update_self, hnever]
    · rw [Function.update_of_ne htu]
      exact h.once u

end AskedOnce

structure FeatureTest.Inv (supports : Bool) (s : FeatureTest U T) : Prop where
  files : ∀ file, AskedOnce supports (s.cached file) (s.asked file)
  asking : ∀ t file, s.asking t = some file → (s.cached file).seen t = 0
  answers : ∀ e ∈ s.answers, e.2.2 = supports

omit [DecidableEq U] [DecidableEq T] in
theorem FeatureTest.start_inv (supports : Bool) : (FeatureTest.start : FeatureTest U T).Inv supports :=
  ⟨fun _ => ⟨.start, fun _ _ => rfl, fun _ => Nat.zero_le 1⟩, fun _ _ h => (by cases h), List.forall_mem_nil _⟩

omit [DecidableEq U] [DecidableEq T] in
theorem answers_snoc {supports : Bool} {answers : List (U × T × Bool)} (h : ∀ e ∈ answers, e.2.2 = supports) (file : U)
    (t : T) {b : Bool} (hb : b = supports) : ∀ e ∈ answers ++ [(file, t, b)], e.2.2 = supports := by
  intro e he
  rcases List.mem_append.1 he with he | he
  · exact h e he
  · rw [List.mem_singleton.1 he]
    exact hb

theorem FeatureTest.Inv.act {supports : Bool} {s : FeatureTest U T} (h : s.Inv supports) (a : FeatureAction U T) :
    (s.act supports a).Inv supports := by
  cases a with
  | load t file place =>
    simp only [FeatureTest.act]
    split
    · exact h
    rename_i hidle
    split
    · exact h
    rename_i value cell hload
    obtain ⟨hcell, hothers, hvalue⟩ := (h.files file).load hload
    have hfiles : ∀ other, AskedOnce supports (Function.update s.cached file cell other) (s.asked other) :=
      (Function.forall_update_iff s.cached fun other cell => AskedOnce supports cell (s.asked other)).2
        ⟨hcell, fun other _ => h.files other⟩
    -- the threads in the middle of a call are others, and a load of another thread is not seen
    have hasking : ∀ u, u ≠ t → ∀ other, s.asking u = some other →
        (Function.update s.cached file cell other).seen u = 0 := by
      intro u hu
      refine (Function.forall_update_iff s.cached fun other cell => s.asking u = some other → cell.seen u = 0).2
        ⟨fun hother => ?_, fun other _ => h.asking u other⟩
      rw [hothers u hu]
      exact h.asking u file hother
    split
    · rename_i hcached
      refine ⟨hfiles, fun u other hu => ?_, answers_snoc h.answers file t ?_⟩
      · have hne : u ≠ t := by
          rintro rfl
          rw [show s.asking u = some other from hu] at hidle
          exact hidle rfl
        exact hasking u hne other hu
      · rcases hvalue with ⟨-, rfl⟩ | ⟨hempty, -⟩
        · exact cachedAnswer_ne_zero supports
        · exact absurd hcached hempty
    · rename_i hempty
      refine ⟨hfiles, fun u other hu => ?_, h.answers⟩
      by_cases htu : u = t
      · rw [htu] at hu ⊢
        simp only [Function.update_self, Option.some.injEq] at hu
        rw [← hu]
        simp only [Function.update_self]
        exact (hvalue.resolve_left fun hfound => hempty hfound.1).2
      · simp only [Function.update_of_ne htu] at hu
        exact hasking u htu other hu
  | store t place =>
    simp only [FeatureTest.act]
    split
    · exact h
    rename_i file hfile
    split
    · exact h
    rename_i cell hstore
    obtain ⟨hcell, hothers⟩ := (h.files file).store (h.asking t file hfile) hstore
    refine ⟨?_, fun u other hu => ?_, answers_snoc h.answers file t (cachedAnswer_ne_zero supports)⟩
    · refine (Function.forall_update_iff s.cached fun other cell => AskedOnce supports cell
        (Function.update s.asked file _ other)).2 ⟨?_, fun other hother => ?_⟩
      · rw [Function.update_self]
        exact hcell
      · rw [Function.update_of_ne hother]
        exact h.files other
    · have htu : u ≠ t := by
        rintro rfl
        simp at hu
      simp only [Function.update_of_ne htu] at hu
      exact (Function.forall_update_iff s.cached fun other cell => s.asking u = some other → cell.seen u = 0).2
        ⟨fun hfile => hothers u htu (h.asking u file hfile), fun other _ => h.asking u other⟩ other hu

section Progress

variable {supports : Bool} {s : FeatureTest U T} {t : T} {file : U}

theorem FeatureTest.Inv.store_returns (h : s.Inv supports) (hasking : s.asking t = some file) :
    (s.act supports (.store t (s.cached file).order.length)).answers = s.answers ++ [(file, t, supports)] := by
  obtain ⟨cell, hstore⟩ := (h.files file).settles.can_store t (cachedAnswer supports)
  simp only [FeatureTest.act, hasking, hstore, cachedAnswer_ne_zero]

/-- A call is over after its load, or after its load and its store, whatever the other threads do not do. -/
theorem FeatureTest.Inv.call_returns (h : s.Inv supports) (hfile : ∀ other ∈ s.asking t, other = file) :
    ∃ next : List (FeatureAction U T), next.length ≤ 2 ∧
      (Machine.run (FeatureTest.act supports) s next).answers = s.answers ++ [(file, t, supports)] := by
  cases hasking : s.asking t with
  | some other =>
    obtain rfl := hfile other hasking
    exact ⟨[.store t (s.cached other).order.length], Nat.le_succ 1, h.store_returns hasking⟩
  | none =>
    obtain ⟨value, cell, hload⟩ := (h.files file).settles.can_load t
    by_cases hvalue : 0 ≤ value
    · have hact : (s.act supports (.load t file ((s.cached file).seen t))).answers =
          s.answers ++ [(file, t, decide (value ≠ 0))] := by
        simp [FeatureTest.act, hasking, hload, hvalue]
      refine ⟨[.load t file ((s.cached file).seen t)], Nat.le_succ 1, hact.trans ?_⟩
      have hanswer := (h.act (.load t file ((s.cached file).seen t))).answers (file, t, decide (value ≠ 0))
        (by rw [hact]; simp)
      rw [show decide (value ≠ 0) = supports from hanswer]
    · have hact : s.act supports (.load t file ((s.cached file).seen t)) =
          { s with
            cached := Function.update s.cached file cell
            asking := Function.update s.asking t (some file) } := by
        simp [FeatureTest.act, hasking, hload, hvalue]
      have hinv := h.act (.load t file ((s.cached file).seen t))
      rw [hact] at hinv
      refine ⟨[.load t file ((s.cached file).seen t), .store t (Function.update s.cached file cell file).order.length],
        Nat.le_refl 2, ?_⟩
      rw [Machine.run_cons, hact]
      exact hinv.store_returns (Function.update_self t (some file) s.asking)

end Progress

/-- In every schedule of any threads and files, and whatever of the stores their loads see, every call answers
what the CPU says, so that with its answer the dispatchers are those of the model; no thread asks the CPU
twice from one file; and every thread can complete the call that it is in, or one from any file, in two steps
of its own. -/
theorem feature_test_agrees (cpu : Cpu) (schedule : List (FeatureAction U T)) {s : FeatureTest U T}
    (hs : s = Machine.run (FeatureTest.act cpu.hasX86Avx2) .start schedule) :
    (∀ e ∈ s.answers, (⟨e.2.2, cpu.hasArmNeon⟩ : Cpu) = cpu) ∧ (∀ file t, s.asked file t ≤ 1) ∧
      ∀ t file, (∀ other ∈ s.asking t, other = file) → ∃ next : List (FeatureAction U T), next.length ≤ 2 ∧
        (Machine.run (FeatureTest.act cpu.hasX86Avx2) s next).answers =
          s.answers ++ [(file, t, cpu.hasX86Avx2)] := by
  have hinv : s.Inv cpu.hasX86Avx2 := by
    rw [hs]
    exact Machine.run_invariant (FeatureTest.Inv cpu.hasX86Avx2) (fun _ a h => h.act a) (FeatureTest.start_inv _)
      schedule
  refine ⟨fun e he => ?_, fun file => (hinv.files file).once, fun t file hfile => hinv.call_returns hfile⟩
  rw [hinv.answers e he]

/-- Two threads find the atomic of a file empty and both ask, and one of them asks again from another file. -/
theorem feature_test_agrees_race :
    (Machine.run (FeatureTest.act true) (FeatureTest.start : FeatureTest Bool Bool)
      [.load false false 0, .load true false 0, .store false 1, .store true 1, .load true true 0,
        .store true 1]).asked false true ≤ 1 :=
  (feature_test_agrees ⟨true, false⟩ [.load false false 0, .load true false 0, .store false 1, .store true 1,
    .load true true 0, .store true 1] rfl).2.1 false true

end IoJournal
