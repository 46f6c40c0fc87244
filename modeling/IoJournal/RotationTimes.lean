import IoJournal.BackendAgreement
import IoJournal.Runs.Greedy

/-!
# IoJournal.RotationTimes

When the file sink rotates.

A file is full for a payload when it holds something and the payload would take it over `rotate_bytes`, or
when `rotate_interval_seconds` have passed since it was begun. The files of a run are the greedy split of
the payloads by that rule (`files_greedy`): the sink rotates when it must, and never else.

What the file held when it was opened does not count, and the interval is one of the clock of the host,
so a file is not full while the clock shows a time before its beginning.
-/

namespace IoJournal

open Wire Posix

/-- A file as the rotation sees it. `size` counts the octets put in since it was opened. -/
structure LogFile where
  start : Int
  contents : Bytes
  size : Nat

/-- A payload, the time at which the sink looks if a rotation is due, and the time at which the file that
it is the first of would begin. -/
structure Entry where
  payload : Bytes
  dueNow : Int
  rotatedNow : Int

namespace LogFile

def add (f : LogFile) (e : Entry) : LogFile :=
  { f with contents := f.contents ++ e.payload, size := f.size + e.payload.length }

def fresh (e : Entry) : LogFile := ⟨e.rotatedNow, [], 0⟩

/-- The file cannot take the payload. -/
def Full (settings : RotationSettings) (f : LogFile) (e : Entry) : Prop :=
  0 < f.size ∧
    (0 < settings.rotateBytes ∧ settings.rotateBytes < f.size + e.payload.length ∨
      0 < settings.rotateIntervalSeconds ∧ f.start < e.dueNow ∧ settings.rotateIntervalSeconds ≤ e.dueNow - f.start)

end LogFile

def SinkCall.entries : SinkCall → List Entry
  | .write os payload => [⟨payload, os.dueNow, os.rotatedNow⟩]
  | .flush _ => []

section Step

variable {path : Bytes} {s : Store}

theorem plain_write (h : s.world.Ready path) {os : WriteOs} {payload : Bytes} (hok : s.CallOk (.write os payload)) :
    ((s.world.plain path).due payload.length os.dueNow → ∃ target,
      (s.step (.write os payload)).world.plain path =
        ((s.world.plain path).turn target os.unlink os.rotatedNow).write payload) ∧
    (¬(s.world.plain path).due payload.length os.dueNow →
      (s.step (.write os payload)).world.plain path = (s.world.plain path).write payload) := by
  have hplain := (plain_step h hok).2.1
  refine ⟨fun hdue => ?_, fun hdue => ?_⟩
  · have hstatus : (fileSinkWrite os s.world.sink payload).status = .ok := hok
    have hne : payload ≠ [] := Store.WriteOk.nonempty (show s.WriteOk ⟨os, payload⟩ from hok)
    have hdue' := (plain_due h payload.length os.dueNow).2 hdue
    cases fileSinkWrite_result h.toOpen os hne with
    | kept due => rw [due] at hdue'; cases hdue'
    | failed due status => exact absurd hstatus status
    | rotated due ok rotate =>
      obtain ⟨target, hrotated⟩ := rotate.of_ok ok
      obtain ⟨tm, htm, htarget⟩ := fileSinkMakeRotationPath_text h.isOpen.path hrotated.name
      refine ⟨target, ?_⟩
      rw [hplain, PlainLog.step, if_pos hdue, PlainLog.rotate, htm, Option.elim_some, htarget]
      rfl
  · rw [hplain, PlainLog.step, if_neg hdue]

end Step

/-! ## Runs -/

/-- The files so far are `closed` and `active`, of which the latter is still written to. -/
structure Filled (settings : RotationSettings) (before : List Bytes) (l : PlainLog) (closed : List LogFile)
    (active : LogFile) : Prop where
  rotateBytes : l.rotateBytes = settings.rotateBytes
  rotateIntervalSeconds : l.rotateIntervalSeconds = settings.rotateIntervalSeconds
  moved : l.moved.map Prod.snd = before ++ closed.map LogFile.contents
  contents : l.active = active.contents
  size : l.bytesWritten = active.size
  start : l.lastRotationEpoch = active.start

section Filled

variable {settings : RotationSettings} {before : List Bytes} {l : PlainLog} {closed : List LogFile} {active : LogFile}
  (h : Filled settings before l closed active) (e : Entry) (hroom : active.size + e.payload.length < wordSize)
include h hroom

theorem Filled.due_iff : l.due e.payload.length e.dueNow ↔ active.Full settings e := by
  rw [PlainLog.due, LogFile.Full, h.rotateBytes, h.rotateIntervalSeconds, h.size, h.start, Nat.mod_eq_of_lt hroom]
  tauto

theorem Filled.write : Filled settings before (l.write e.payload) closed (active.add e) := by
  refine ⟨h.rotateBytes, h.rotateIntervalSeconds, h.moved, ?_, ?_, h.start⟩
  · rw [PlainLog.write, h.contents]
    rfl
  · rw [PlainLog.write, h.size]
    exact Nat.mod_eq_of_lt hroom

omit hroom in
theorem Filled.turn (target : Bytes) (unlink : Bytes → Bool) :
    Filled settings before (l.turn target unlink e.rotatedNow) (closed ++ [active]) (.fresh e) := by
  refine ⟨h.rotateBytes, h.rotateIntervalSeconds, ?_, rfl, rfl, rfl⟩
  rw [PlainLog.turn, List.map_append, List.map_append, h.moved, List.append_assoc, h.contents]
  rfl

end Filled

/-- The files that the calls of a run fill. -/
structure Splits (path : Bytes) (settings : RotationSettings) (before : List Bytes) (first : LogFile)
    (calls : List SinkCall) (s : Store) : Prop where
  ready : s.world.Ready path
  files : ∃ closed active, Filled settings before (s.world.plain path) closed active ∧
    Greedy (LogFile.Full settings) LogFile.add LogFile.fresh first (calls.flatMap SinkCall.entries) closed active ∧
    active.size ≤ (calls.flatMap SinkCall.payloads).flatten.length

theorem Splits.step {path : Bytes} {settings : RotationSettings} {before : List Bytes} {first : LogFile}
    {calls : List SinkCall} {s : Store} {c : SinkCall} (h : Splits path settings before first calls s)
    (hok : s.CallOk c) (hroom : ((calls ++ [c]).flatMap SinkCall.payloads).flatten.length < wordSize) :
    Splits path settings before first (calls ++ [c]) (s.step c) := by
  obtain ⟨closed, active, hfilled, hgreedy, hsize⟩ := h.files
  obtain ⟨hready, hplain, -⟩ := plain_step h.ready hok
  refine ⟨hready, ?_⟩
  rw [List.flatMap_append, List.flatMap_singleton, List.flatten_append, List.length_append] at hroom
  rw [List.flatMap_append, List.flatMap_singleton, List.flatMap_append, List.flatMap_singleton, List.flatten_append,
    List.length_append]
  cases c with
  | flush answer =>
    rw [hplain]
    refine ⟨closed, active, hfilled, ?_, Nat.le_trans hsize (Nat.le_add_right _ _)⟩
    rw [SinkCall.entries, List.append_nil]
    exact hgreedy
  | write os payload =>
    have hlength : (SinkCall.write os payload).payloads.flatten.length = payload.length := by simp [SinkCall.payloads]
    rw [hlength] at hroom ⊢
    have hadd : active.size + payload.length < wordSize := by omega
    have hdue := hfilled.due_iff ⟨payload, os.dueNow, os.rotatedNow⟩ hadd
    obtain ⟨hturned, hkept⟩ := plain_write h.ready hok
    by_cases hfull : active.Full settings ⟨payload, os.dueNow, os.rotatedNow⟩
    · obtain ⟨target, hplain⟩ := hturned (hdue.2 hfull)
      have hfresh : (LogFile.fresh ⟨payload, os.dueNow, os.rotatedNow⟩).size + payload.length < wordSize := by
        change 0 + payload.length < wordSize
        omega
      have hwrite := (hfilled.turn ⟨payload, os.dueNow, os.rotatedNow⟩ target os.unlink).write
        ⟨payload, os.dueNow, os.rotatedNow⟩ hfresh
      rw [hplain]
      refine ⟨_, _, hwrite, (hgreedy.snoc _).2 hfull, ?_⟩
      change 0 + payload.length ≤ _
      omega
    · rw [hkept (mt hdue.1 hfull)]
      refine ⟨_, _, hfilled.write ⟨payload, os.dueNow, os.rotatedNow⟩ hadd, (hgreedy.snoc _).1 hfull, ?_⟩
      exact Nat.add_le_add_right hsize _

/-- After a run in which every call returns `ok`, the rotated files and the active one are the greedy split of
the payloads: each was closed because it was full for the next payload, and took all of its own while it
was not. -/
theorem files_greedy {path : Bytes} (hne : path ≠ []) {os : OpenOs} {sink : FileSink}
    (hopen : (fileSinkOpen os sink (some path)).status = .ok) (settings : RotationSettings) (d : Disk)
    {calls : List SinkCall}
    (hok : Machine.Along Store.step Store.CallOk (.opened os sink path settings d) calls)
    (hroom : (calls.flatMap SinkCall.payloads).flatten.length < wordSize) {w : World}
    (hw : w = (Machine.run Store.step (.opened os sink path settings d) calls).world) :
    ∃ closed active,
      Greedy (LogFile.Full settings) LogFile.add LogFile.fresh ⟨os.now, d.contents path, 0⟩
        (calls.flatMap SinkCall.entries) closed active ∧
      w.disk.moved.map Prod.snd = d.moved.map Prod.snd ++ closed.map LogFile.contents ∧
      w.active path = active.contents := by
  subst hw
  have hrun := Machine.Along.induction
    (motive := fun calls s => (calls.flatMap SinkCall.payloads).flatten.length < wordSize →
      Splits path settings (d.moved.map Prod.snd) ⟨os.now, d.contents path, 0⟩ calls s) ?_ ?_ hok
  · obtain ⟨closed, active, hfilled, hgreedy, -⟩ := (hrun hroom).files
    exact ⟨closed, active, hgreedy, hfilled.moved, hfilled.contents⟩
  · intro _
    refine ⟨Store.opened_ready hne hopen settings d, [], _, ?_, .start _, Nat.le_refl 0⟩
    rw [Store.opened_plain hne hopen]
    exact ⟨rfl, rfl, (List.append_nil _).symm, rfl, rfl, rfl⟩
  · intro calls c hc ih hroom
    refine (ih ?_).step hc hroom
    rw [List.flatMap_append, List.flatten_append, List.length_append] at hroom
    omega

/-- A new file after ten seconds: the third payload comes too late for the first one. -/
def lateWrites : List SinkCall :=
  [.write (steadyOs 1 2) (ascii "ab"), .write (steadyOs 5 2) (ascii "cd"), .write (steadyOs 20 2) (ascii "ef")]

def lateWorld : World :=
  (Machine.run Store.step (.opened (steadyOpen 0) .zero (ascii "log") ⟨0, 10, 0⟩ emptyDisk) lateWrites).world

theorem files_greedy_late :
    ∃ closed active,
      Greedy (LogFile.Full ⟨0, 10, 0⟩) LogFile.add LogFile.fresh ⟨0, [], 0⟩
        [⟨ascii "ab", 1, 1⟩, ⟨ascii "cd", 5, 5⟩, ⟨ascii "ef", 20, 20⟩] closed active ∧
      lateWorld.disk.moved.map Prod.snd = closed.map LogFile.contents ∧
      lateWorld.active (ascii "log") = active.contents := by
  have hok : Machine.Along Store.step Store.CallOk (.opened (steadyOpen 0) .zero (ascii "log") ⟨0, 10, 0⟩ emptyDisk)
      lateWrites := ⟨by decide, by decide, by decide, trivial⟩
  exact files_greedy (by decide) (by decide) ⟨0, 10, 0⟩ emptyDisk hok (by decide) (show lateWorld = _ from rfl)

end IoJournal
