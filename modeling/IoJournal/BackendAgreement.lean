import IoJournal.SizeLimit

/-!
# IoJournal.BackendAgreement

The file sink without its backend, and the agreement of the two backends with it.

`PlainLog` is what a reader of the log sees: the octets of the active file, whether they have reached
the disk or wait in a stream, the other files, and the bookkeeping of the rotation. It has no handles,
and `PlainLog.step` makes no choice between backends.

* `World.plain` takes the handles out of a sink and its disk.
* `Rotated.plain`, `Wrote.plain`: a rotation and a write of the sink, seen through `World.plain`.
* `plain_step`: so is a call that returns `ok`, whichever backend is active.
* `Store.opened_plain`: opening gives the same log on both backends, and when io_uring falls back.
* `backends_agree`: a run on any backend is a run of `PlainLog`, and closing leaves the same files.
-/

namespace IoJournal

open Wire Posix

/-- The log as its reader sees it; the active file is not among `others`. -/
structure PlainLog where
  active : Bytes
  others : Bytes → Option Bytes
  moved : List (Bytes × Bytes)
  rotateBytes : Nat
  rotateIntervalSeconds : Nat
  retentionFiles : Nat
  bytesWritten : Nat
  rotationSequence : Nat
  lastRotationEpoch : Int
  rotatedPaths : List Bytes

namespace PlainLog

def due (l : PlainLog) (len : Nat) (now : Int) : Prop :=
  0 < l.rotateBytes ∧ 0 < l.bytesWritten ∧ l.rotateBytes < (l.bytesWritten + len) % wordSize ∨
    0 < l.rotateIntervalSeconds ∧ 0 < l.bytesWritten ∧ l.lastRotationEpoch < now ∧
      l.rotateIntervalSeconds ≤ now - l.lastRotationEpoch

instance (l : PlainLog) (len : Nat) (now : Int) : Decidable (l.due len now) :=
  inferInstanceAs (Decidable (_ ∨ _))

/-- The active file becomes `target`, the list loses its first names beyond the retention, and of the
files with these names those go that `unlink` removes. -/
def turn (l : PlainLog) (target : Bytes) (unlink : Bytes → Bool) (now : Int) : PlainLog :=
  let listed := l.rotatedPaths ++ [target]
  let gone := surplus l.retentionFiles (l.rotatedPaths.length + 1)
  { l with
    active := []
    others := fun p => if (listed.take gone).contains p ∧ unlink p = true then none
      else if p = target then some l.active else l.others p
    moved := l.moved ++ [(target, l.active)]
    bytesWritten := 0
    rotationSequence := (l.rotationSequence + 1) % wordSize
    lastRotationEpoch := now
    rotatedPaths := listed.drop gone }

def rotate (path : Bytes) (os : RotateOs) (l : PlainLog) : PlainLog :=
  (gmtimeR os.nameNow).elim l fun tm =>
    l.turn (rotationText path tm ((l.rotationSequence + 1) % wordSize)) os.unlink os.rotatedNow

def write (l : PlainLog) (payload : Bytes) : PlainLog :=
  { l with active := l.active ++ payload, bytesWritten := (l.bytesWritten + payload.length) % wordSize }

/-- A call that is accepted. -/
def step (path : Bytes) (l : PlainLog) : SinkCall → PlainLog
  | .write os payload =>
    if l.due payload.length os.dueNow then (l.rotate path os.toRotateOs).write payload else l.write payload
  | .flush _ => l

def files (path : Bytes) (l : PlainLog) (p : Bytes) : Option Bytes := if p = path then some l.active else l.others p

/-- The log that is opened on `path` at the time `now`. -/
def opened (path : Bytes) (settings : RotationSettings) (now : Int) (d : Disk) : PlainLog where
  active := d.contents path
  others := fun p => if p = path then none else d.files p
  moved := d.moved
  rotateBytes := settings.rotateBytes
  rotateIntervalSeconds := settings.rotateIntervalSeconds
  retentionFiles := settings.retentionFiles
  bytesWritten := 0
  rotationSequence := 0
  lastRotationEpoch := now
  rotatedPaths := []

end PlainLog

/-- A sink and its disk without the handles. -/
def World.plain (path : Bytes) (w : World) : PlainLog where
  active := w.active path
  others := fun p => if p = path then none else w.disk.files p
  moved := w.disk.moved
  rotateBytes := w.sink.rotateBytes
  rotateIntervalSeconds := w.sink.rotateIntervalSeconds
  retentionFiles := w.sink.retentionFiles
  bytesWritten := w.sink.bytesWritten
  rotationSequence := w.sink.rotationSequence
  lastRotationEpoch := w.sink.lastRotationEpoch
  rotatedPaths := w.sink.rotatedPaths

/-! ## The sink through `World.plain` -/

section Plain

variable {path payload target : Bytes} {w w' : World} {os : RotateOs} {out : Out FileSink}

theorem plain_others (w : World) {p : Bytes} (hp : p ≠ path) : (w.plain path).others p = w.disk.files p := if_neg hp

theorem others_congr {d d' : Disk} (h : ∀ p, p ≠ path → d'.files p = d.files p) :
    (fun p => if p = path then none else d'.files p) = fun p => if p = path then none else d.files p := by
  funext p
  split
  · rfl
  · rename_i hp
    exact h p hp

theorem plain_due (h : w.Ready path) (len : Nat) (now : Int) :
    fileSinkRotationDue w.sink len now = true ↔ (w.plain path).due len now := by
  have hopen : ¬(w.sink.activeBackend = .sync ∧ w.sink.stream = none ∨
      w.sink.activeBackend = .ioUring ∧ w.sink.fd < 0) := by
    rcases h.isOpen.backend with ⟨hsync, hstream⟩ | ⟨huring, -, hfd, -⟩
    · intro hclosed
      rcases hclosed with ⟨-, hnone⟩ | ⟨huring, -⟩
      · rw [hnone] at hstream
        cases hstream
      · rw [hsync] at huring
        cases huring
    · intro hclosed
      rcases hclosed with ⟨hsync, -⟩ | ⟨-, hneg⟩
      · rw [hsync] at huring
        cases huring
      · omega
  rw [fileSinkRotationDue, if_neg hopen]
  by_cases hsize : 0 < w.sink.rotateBytes ∧ 0 < w.sink.bytesWritten ∧
      w.sink.rotateBytes < (w.sink.bytesWritten + len) % wordSize
  · rw [if_pos hsize]
    exact iff_of_true rfl (.inl hsize)
  · rw [if_neg hsize, decide_eq_true_iff]
    exact (or_iff_right hsize).symm

theorem Wrote.plain (h : Wrote path payload .ok w w') (hready : w.Ready path) :
    w'.plain path = (w.plain path).write payload := by
  have hothers := others_congr h.others
  have hhandles := h.handles
  rw [if_pos rfl] at hhandles
  unfold OnlyHandles at hhandles
  rw [World.plain, hothers, h.ok_active hready, h.moved, hhandles]
  rfl

theorem Rotated.plain (h : Rotated path target os w out) (hready : w.Ready path) :
    (w.after out).plain path = (w.plain path).rotate path os := by
  obtain ⟨tm, htm, htarget⟩ := fileSinkMakeRotationPath_text hready.isOpen.path h.name
  have hne : target ≠ path := fileSinkMakeRotationPath_ne hready.isOpen.path h.name
  have hothers : (fun p => if p = path then none else (w.after out).disk.files p) =
      ((w.plain path).turn target os.unlink os.rotatedNow).others := by
    funext p
    by_cases hp : p = path
    · subst hp
      simp only [PlainLog.turn, if_neg hne.symm, World.plain, if_true]
      split <;> rfl
    · rw [if_neg hp, h.moves.files p hp]
      simp only [PlainLog.turn, plain_others w hp, List.contains_iff_mem]
      rfl
  have hturned : (w.after out).plain path = (w.plain path).turn target os.unlink os.rotatedNow := by
    have hhandles : OnlyHandles _ (w.after out).sink := h.turned
    unfold OnlyHandles at hhandles
    rw [World.plain, hothers, h.moves.active, h.moves.moved, hhandles]
    rfl
  have hsequence : (w.plain path).rotationSequence = w.sink.rotationSequence := rfl
  rw [PlainLog.rotate, htm, Option.elim_some, hsequence, ← htarget]
  exact hturned

theorem Appends.plain (h : Appends path [] w w') : w'.plain path = w.plain path := by
  have hothers := others_congr h.others
  have hhandles := h.handles
  unfold OnlyHandles at hhandles
  rw [World.plain, hothers, h.active, List.append_nil, h.moved, hhandles]
  rfl

theorem plain_close (h : w.Ready path) :
    (w.disk.run (fileSinkClose .ok w.sink).2).files = (w.plain path).files path := by
  obtain ⟨-, hothers, -⟩ := h.close .ok
  funext p
  by_cases hp : p = path
  · subst hp
    rw [h.close_file .ok, PlainLog.files, if_pos rfl]
    rfl
  · rw [hothers p hp, PlainLog.files, if_neg hp, plain_others w hp]

end Plain

/-! ## Runs -/

def Store.CallOk (s : Store) : SinkCall → Prop
  | .write os payload => (fileSinkWrite os s.world.sink payload).status = .ok
  | .flush answer => (fileSinkFlush answer s.world.sink).status = .ok

instance (s : Store) : (c : SinkCall) → Decidable (s.CallOk c)
  | .write os payload => inferInstanceAs (Decidable ((fileSinkWrite os s.world.sink payload).status = .ok))
  | .flush answer => inferInstanceAs (Decidable ((fileSinkFlush answer s.world.sink).status = .ok))

section Runs

variable {path : Bytes} {s : Store} {c : SinkCall}

theorem plain_step (h : s.world.Ready path) (hok : s.CallOk c) :
    (s.step c).world.Ready path ∧ (s.step c).world.plain path = (s.world.plain path).step path c ∧
      (s.step c).written = s.written ++ c.payloads := by
  cases c with
  | flush answer =>
    obtain ⟨happ, -⟩ := (opsFlush_appends h.toOpen answer).1 hok
    exact ⟨opsFlush_ready h answer, happ.plain, (List.append_nil _).symm⟩
  | write os payload =>
    have hstatus : (fileSinkWrite os s.world.sink payload).status = .ok := hok
    have hne : payload ≠ [] := Store.WriteOk.nonempty (show s.WriteOk ⟨os, payload⟩ from hok)
    have hwritten : (s.step (.write os payload)).written = s.written ++ [payload] := if_pos hstatus
    have hworld : (s.step (.write os payload)).world = s.world.after (fileSinkWrite os s.world.sink payload) := rfl
    rw [hworld]
    simp only [PlainLog.step]
    cases fileSinkWrite_result h.toOpen os hne with
    | kept due wrote =>
      rw [hstatus] at wrote
      have hdue : ¬(s.world.plain path).due payload.length os.dueNow := by
        rw [← plain_due h, due]
        exact Bool.false_ne_true
      rw [if_neg hdue]
      exact ⟨wrote.ready h rfl, wrote.plain h, hwritten⟩
    | failed due status => exact absurd hstatus status
    | rotated due ok rotate wrote =>
      rw [hstatus] at wrote
      obtain ⟨target, hrotated⟩ := rotate.of_ok ok
      rw [if_pos ((plain_due h _ _).1 due), ← hrotated.plain h]
      exact ⟨wrote.ready hrotated.ready rfl, wrote.plain hrotated.ready, hwritten⟩

theorem plain_run (h : s.world.Ready path) {calls : List SinkCall}
    (hok : Machine.Along Store.step Store.CallOk s calls) :
    (Machine.run Store.step s calls).world.Ready path ∧
      (Machine.run Store.step s calls).world.plain path =
        Machine.run (PlainLog.step path) (s.world.plain path) calls ∧
      (Machine.run Store.step s calls).written = s.written ++ calls.flatMap SinkCall.payloads := by
  induction calls generalizing s with
  | nil => exact ⟨h, rfl, (List.append_nil _).symm⟩
  | cons c calls ih =>
    obtain ⟨hready, hplain, hwritten⟩ := plain_step h hok.1
    obtain ⟨hready', hplain', hwritten'⟩ := ih hready hok.2
    refine ⟨hready', ?_, ?_⟩
    · rw [Machine.run_cons, Machine.run_cons, hplain', hplain]
    · rw [Machine.run_cons, hwritten', hwritten, List.flatMap_cons, List.append_assoc]

theorem Store.opened_plain {os : OpenOs} {sink : FileSink} (hne : path ≠ [])
    (hopen : (fileSinkOpen os sink (some path)).status = .ok) (settings : RotationSettings) (d : Disk) :
    (Store.opened os sink path settings d).world.plain path = .opened path settings os.now d := by
  have hactive := Store.opened_active hne hopen settings d
  rcases fileSinkOpen_result os sink hne d with ⟨-, hopened, hbytes, hsequence⟩ | ⟨hbad, -⟩
  swap
  · exact absurd hopen hbad
  have hepoch : (fileSinkOpen os sink (some path)).state.lastRotationEpoch = os.now := by
    have heq := fileSinkOpen_eq os sink hne
    rw [heq] at hopen ⊢
    split at hopen
    · rename_i hstore
      simp only at hopen
      rw [if_pos hstore]
      simp only
      split at hopen
      · rename_i hok
        rw [if_pos hok]
      · rename_i hbad
        exact absurd hopen hbad
    · cases hopen
  have hdisk : (Store.opened os sink path settings d).world.disk = d.apply (.create path) := hopened.disk
  have hothers : (fun p => if p = path then none else (Store.opened os sink path settings d).world.disk.files p) =
      fun p => if p = path then none else d.files p := by
    refine others_congr fun p hp => ?_
    rw [hdisk]
    exact Disk.set_files_other d hp _
  have hstate : (Store.opened os sink path settings d).world.sink =
      (fileSinkOpen os sink (some path)).state.configure settings := rfl
  rw [World.plain, hactive, hothers, hdisk, hstate]
  simp only [FileSink.configure, hbytes, hsequence, hepoch, hopened.rotatedPaths]
  rfl

end Runs

/-- Whichever backend was asked for and whichever was had, a run of calls that return `ok` does to the
log what `PlainLog` says. So two sinks opened at the same time agree on the log all along, and when they
are closed the directory holds the same files. -/
theorem backends_agree {path : Bytes} (hne : path ≠ []) {os os' : OpenOs} {sink sink' : FileSink}
    (hopen : (fileSinkOpen os sink (some path)).status = .ok)
    (hopen' : (fileSinkOpen os' sink' (some path)).status = .ok) (hnow : os'.now = os.now)
    (settings : RotationSettings) (d : Disk) (calls : List SinkCall)
    (hok : Machine.Along Store.step Store.CallOk (Store.opened os sink path settings d) calls)
    (hok' : Machine.Along Store.step Store.CallOk (Store.opened os' sink' path settings d) calls) :
    let s := Machine.run Store.step (Store.opened os sink path settings d) calls
    let s' := Machine.run Store.step (Store.opened os' sink' path settings d) calls
    let log := Machine.run (PlainLog.step path) (.opened path settings os.now d) calls
    s.world.plain path = log ∧ s'.world.plain path = log ∧
      s.written = calls.flatMap SinkCall.payloads ∧ s'.written = s.written ∧
      (s.world.disk.run (fileSinkClose .ok s.world.sink).2).files = log.files path ∧
      (s'.world.disk.run (fileSinkClose .ok s'.world.sink).2).files = log.files path := by
  intro s s' log
  obtain ⟨hready, hplain, hwritten⟩ := plain_run (Store.opened_ready hne hopen settings d) hok
  obtain ⟨hready', hplain', hwritten'⟩ := plain_run (Store.opened_ready hne hopen' settings d) hok'
  rw [Store.opened_plain hne hopen] at hplain
  rw [Store.opened_plain hne hopen', hnow] at hplain'
  refine ⟨hplain, hplain', hwritten, hwritten'.trans hwritten.symm, ?_, ?_⟩
  · rw [plain_close hready, hplain]
  · rw [plain_close hready', hplain']

/-- A write, a flush and a write that rotates, on io_uring and on a stream. -/
def twoWrites : List SinkCall :=
  [.write (steadyOs 1 2) (ascii "ab"), .flush .ok, .write (steadyOs 2 2) (ascii "cd")]

theorem backends_agree_rotation :
    let ring := Machine.run Store.step (Store.opened (steadyOpen 0) { FileSink.zero with requestedBackend := 2 }
      (ascii "log") ⟨3, 0, 1⟩ emptyDisk) twoWrites
    let stream := Machine.run Store.step (Store.opened (steadyOpen 0) .zero (ascii "log") ⟨3, 0, 1⟩ emptyDisk) twoWrites
    (ring.world.disk.run (fileSinkClose .ok ring.world.sink).2).files =
      (stream.world.disk.run (fileSinkClose .ok stream.world.sink).2).files := by
  obtain ⟨-, -, -, -, hring, hstream⟩ := backends_agree (show ascii "log" ≠ [] by decide)
    (show (fileSinkOpen (steadyOpen 0) { FileSink.zero with requestedBackend := 2 } (some (ascii "log"))).status = .ok
      by decide)
    (show (fileSinkOpen (steadyOpen 0) .zero (some (ascii "log"))).status = .ok by decide) rfl ⟨3, 0, 1⟩ emptyDisk
    twoWrites ⟨by decide, by decide, by decide, trivial⟩ ⟨by decide, by decide, by decide, trivial⟩
  exact hring.trans hstream.symm

end IoJournal
