import IoJournal.RotatingStore

/-!
# IoJournal.RotationFailure

What a failed write does to the sink.

`ij_file_sink_rotate` closes the active file before it renames it, records the name and opens a new
file. When one of these three steps fails, the sink stays without an open file, and every later
write returns `invalidArgument`: the sink is stranded (`write_strands`). Two other failures leave the
file open and spoil later writes: a name that does not fit its buffer will not fit the next time, and a
submission or wait that fails leaves its request in the ring, where the next write finds its completion.

* `write_keeps_ready`, `write_succeeds`: after every other failure all is as before.
* `recovers_run`: without these three the sink recovers from every error of a run, and it does not when
  a rotation strands it.
-/

namespace IoJournal

open Wire Posix

/-- A rotation is due, its name is built and the stream flushed, and then the rename, the record of
the name or the reopening fails. -/
def World.Strands (w : World) (os : WriteOs) (payload : Bytes) : Prop :=
  payload ≠ [] ∧ fileSinkRotationDue w.sink payload.length os.dueNow = true ∧
    (∃ target, fileSinkMakeRotationPath w.sink os.nameNow rotationBufferSize = .ok target) ∧
    (w.sink.usesUring = true ∨ os.flush = .ok) ∧
    ¬(os.rename = true ∧ os.record = true ∧ w.sink.Reopens os.syncOpen os.uringOpen)

/-- A rotation is due, and its name is too long for the buffer. -/
def World.Overflows (w : World) (os : WriteOs) (payload : Bytes) : Prop :=
  payload ≠ [] ∧ fileSinkRotationDue w.sink payload.length os.dueNow = true ∧
    ∃ tm, gmtimeR os.nameNow = some tm ∧
      rotationBufferSize ≤ (rotationText w.sink.file tm ((w.sink.rotationSequence + 1) % wordSize)).length

/-- A request is made, and its submission or the wait for its completion fails. -/
def World.BreaksOff (w : World) (os : WriteOs) (payload : Bytes) : Prop :=
  payload ≠ [] ∧ w.sink.BreaksOff os.uring payload ∧
    (fileSinkRotationDue w.sink payload.length os.dueNow = true → (gmtimeR os.nameNow).isSome = true)

def SinkCall.Strands (s : Store) : SinkCall → Prop
  | .write os payload => s.world.Strands os payload
  | .flush _ => False

def SinkCall.Spoils (s : Store) : SinkCall → Prop
  | .write os payload => s.world.Strands os payload ∨ s.world.Overflows os payload ∨ s.world.BreaksOff os payload
  | .flush _ => False

/-- The length of the request whose completion a write takes. A rotation begins a new ring. -/
def World.reaps (w : World) (os : WriteOs) (payload : Bytes) : Nat :=
  let left := if fileSinkRotationDue w.sink payload.length os.dueNow ∨ w.sink.usesUring = false then []
    else (w.sink.uring.map (·.left)).getD []
  ((left ++ [payload.length])[min os.uring.first left.length]?).getD payload.length

/-- Every system call and allocation of a write succeeds, and the kernel did the whole of the request
whose completion it takes. -/
structure World.Serves (w : World) (os : WriteOs) (payload : Bytes) : Prop extends os.Serves payload where
  uring : os.uring.ends = .completed (w.reaps os payload)

theorem World.Ready.reaps {path : Bytes} {w : World} (h : w.Ready path) (os : WriteOs) (payload : Bytes) :
    w.reaps os payload = payload.length := by
  have hleft : (if fileSinkRotationDue w.sink payload.length os.dueNow ∨ w.sink.usesUring = false then []
      else (w.sink.uring.map (·.left)).getD []) = [] := by
    split
    · rfl
    · rename_i hring
      rw [not_or, Bool.not_eq_false] at hring
      cases hr : w.sink.uring with
      | none => rfl
      | some ring => exact h.settled hring.2 ring hr
  rw [World.reaps, hleft, List.length_nil, Nat.min_zero]
  rfl

section Write

variable {path payload : Bytes} {w : World} {os : WriteOs}

theorem named_iff (h : w.Open path) (now : Int) :
    (∃ target, fileSinkMakeRotationPath w.sink now rotationBufferSize = .ok target) ↔
      ∃ tm, gmtimeR now = some tm ∧
        (rotationText w.sink.file tm ((w.sink.rotationSequence + 1) % wordSize)).length < rotationBufferSize := by
  simp only [fileSinkMakeRotationPath, h.isOpen.path, file_eq h]
  cases gmtimeR now with
  | none => simp
  | some tm =>
    have hlong := length_lt_rotationText path tm ((w.sink.rotationSequence + 1) % wordSize)
    dsimp only
    split
    · rename_i hfull
      refine iff_of_false ?_ ?_
      · rintro ⟨_, hok⟩
        cases hok
      · rintro ⟨tm', htm, hfits⟩
        cases htm
        omega
    · rename_i hfits
      exact iff_of_true ⟨_, rfl⟩ ⟨tm, rfl, Nat.not_le.1 fun hfull => hfits (.inl hfull)⟩

theorem write_keeps_ready (h : w.Ready path)
    (hspoils : ¬(w.Strands os payload ∨ w.Overflows os payload ∨ w.BreaksOff os payload)) :
    (w.after (fileSinkWrite os w.sink payload)).Ready path := by
  rw [not_or, not_or] at hspoils
  obtain ⟨hstrands, -, hbreaks⟩ := hspoils
  by_cases hne : payload = []
  · rw [hne, fileSinkWrite_empty]
    exact h
  have hsettled : (fileSinkWrite os w.sink payload).state.Settled := by
    refine fileSinkWrite_settled h hne fun hrotate hbroken => hbreaks ⟨hne, hbroken, fun hdue => ?_⟩
    obtain ⟨target, hrotated⟩ := (fileSinkRotate_result h.toOpen os.toRotateOs).of_ok (hrotate hdue)
    obtain ⟨tm, htm, -⟩ := (named_iff h.toOpen os.nameNow).1 ⟨target, hrotated.name⟩
    rw [htm]
    rfl
  refine ⟨?_, hsettled⟩
  cases fileSinkWrite_result h.toOpen os hne with
  | kept due wrote => exact wrote.opened
  | rotated due ok rotate wrote => exact wrote.opened
  | failed due status rotate =>
    cases rotate with
    | unnamed name same =>
      rw [same]
      exact h.toOpen
    | unflushed name flush same =>
      rw [same]
      exact (opsFlush_touches h.toOpen _).opened
    | stranded name flush fails =>
      exact absurd ⟨hne, due, ⟨_, name⟩, (opsFlush_ok_iff h.toOpen _).1 flush, fails⟩ hstrands
    | rotated name flush succeeds ok => exact absurd ok status

theorem write_strands (h : w.Open path) (hstrands : w.Strands os payload) :
    (fileSinkWrite os w.sink payload).status ≠ .ok ∧ (fileSinkWrite os w.sink payload).state.IsStranded path := by
  obtain ⟨hne, hdue, ⟨target, hname⟩, hflush, hfails⟩ := hstrands
  have hresult : ∀ out, RotateResult path os.toRotateOs w out → out.status ≠ .ok ∧ out.state.IsStranded path := by
    intro out hout
    cases hout with
    | unnamed name same => exact absurd hname (name target)
    | unflushed name flush same => exact absurd ((opsFlush_ok_iff h _).2 hflush) flush
    | stranded name flush fails status sink => exact ⟨status, sink⟩
    | rotated name flush succeeds => exact absurd succeeds hfails
  cases fileSinkWrite_result h os hne with
  | kept due =>
    rw [hdue] at due
    cases due
  | failed due status rotate => exact hresult _ rotate
  | rotated due ok rotate => exact absurd ok (hresult _ rotate).1

/-- `payload` is the end of the active file, which begins as before or was moved away whole. -/
def Appended (path payload : Bytes) (w w' : World) : Prop :=
  w'.active path = w.active path ++ payload ∧ w'.disk.moved = w.disk.moved ∨
  w'.active path = payload ∧ ∃ target, w'.disk.moved = w.disk.moved ++ [(target, w.active path)]

theorem write_succeeds (h : w.Ready path) (hne : payload ≠ []) (hserves : w.Serves os payload)
    (hfits : ¬w.Overflows os payload) (haccepts : w.sink.accepts payload = true) :
    (fileSinkWrite os w.sink payload).status = .ok ∧
      Appended path payload w (w.after (fileSinkWrite os w.sink payload)) := by
  have hos : os.Succeeds payload := ⟨hserves.toServes, by rw [hserves.uring, h.reaps]⟩
  have hnamed : fileSinkRotationDue w.sink payload.length os.dueNow = true →
      ∃ target, fileSinkMakeRotationPath w.sink os.nameNow rotationBufferSize = .ok target := by
    intro hdue
    obtain ⟨tm, htm⟩ := Option.isSome_iff_exists.1 hos.gmtime
    refine (named_iff h.toOpen os.nameNow).2 ⟨tm, htm, ?_⟩
    by_contra hlong
    exact hfits ⟨hne, hdue, tm, htm, Nat.not_lt.1 hlong⟩
  cases fileSinkWrite_result h.toOpen os hne with
  | kept due wrote status =>
    have hok : (fileSinkWrite os w.sink payload).status = .ok := by
      rw [status, opsWrite_ok_iff h.toOpen os.fwrite os.uring hne]
      exact (takes_succeeds hos _).2 haccepts
    obtain ⟨taken, hactive, -, htaken, -⟩ := wrote.taken h.settled
    refine ⟨hok, .inl ⟨?_, wrote.moved⟩⟩
    rw [hactive, htaken hok]
  | failed due status rotate =>
    obtain ⟨target, hname⟩ := hnamed due
    exact absurd (rotate_serves hos.toServes h.toOpen hname rotate).1 status
  | @rotated mid due ok rotate wrote status =>
    obtain ⟨target, hname⟩ := hnamed due
    obtain ⟨-, hready, hmoves, hturned⟩ := rotate_serves hos.toServes h.toOpen hname rotate
    have hbackend : mid.state.accepts payload = w.sink.accepts payload := by
      rw [hturned]
      rfl
    have hok : (fileSinkWrite os w.sink payload).status = .ok := by
      rw [status]
      exact (opsWrite_ok_iff hready.toOpen os.fwrite os.uring hne).2
        ((takes_succeeds hos _).2 (hbackend.trans haccepts))
    obtain ⟨taken, hactive, -, htaken, -⟩ := wrote.taken hready.settled
    refine ⟨hok, .inr ⟨?_, target, ?_⟩⟩
    · rw [hactive, hmoves.active, htaken hok, List.nil_append]
    · rw [wrote.moved, hmoves.moved]

end Write

/-! ## Runs -/

/-- After every write of the run that returned an error, the sink still has an open file, and every
later write of the run whose system calls all succeed returns `ok` and appends its payload. -/
def Recovers (path : Bytes) (s : Store) (calls : List SinkCall) : Prop :=
  ∀ before os payload after, calls = before ++ .write os payload :: after →
    (Machine.run Store.step s before).world.sink.IsOpen path →
    (fileSinkWrite os (Machine.run Store.step s before).world.sink payload).status ≠ .ok →
    (Machine.run Store.step s (before ++ [.write os payload])).world.sink.IsOpen path ∧
    ∀ between os' payload' rest, after = between ++ .write os' payload' :: rest → payload' ≠ [] →
      (Machine.run Store.step s (before ++ .write os payload :: between)).world.Serves os' payload' →
      (Machine.run Store.step s (before ++ .write os payload :: between)).world.sink.accepts payload' = true →
      (fileSinkWrite os' (Machine.run Store.step s (before ++ .write os payload :: between)).world.sink payload').status =
        .ok ∧
      Appended path payload' (Machine.run Store.step s (before ++ .write os payload :: between)).world
        (Machine.run Store.step s (before ++ .write os payload :: (between ++ [.write os' payload']))).world

section Run

variable {path : Bytes} {s : Store} {calls : List SinkCall}

theorem step_keeps_ready {c : SinkCall} (h : s.world.Ready path) (hc : ¬c.Spoils s) : (s.step c).world.Ready path := by
  cases c with
  | write os payload => exact write_keeps_ready h hc
  | flush answer => exact opsFlush_ready h answer

theorem run_keeps_ready (h : s.world.Ready path)
    (hcalls : Machine.Along Store.step (fun s c => ¬c.Spoils s) s calls) :
    (Machine.run Store.step s calls).world.Ready path :=
  hcalls.invariant (fun s => s.world.Ready path) (fun _ _ hs hc => step_keeps_ready hs hc) h

theorem recovers_of_not_spoils (h : s.world.Ready path)
    (hcalls : Machine.Along Store.step (fun s c => ¬c.Spoils s) s calls) : Recovers path s calls := by
  rintro before os payload after rfl - -
  have hsplit : ∀ between rest, after = between ++ rest →
      (Machine.run Store.step s (before ++ .write os payload :: between)).world.Ready path ∧
        Machine.Along Store.step (fun s c => ¬c.Spoils s)
          (Machine.run Store.step s (before ++ .write os payload :: between)) rest := by
    rintro between rest rfl
    rw [← List.cons_append, ← List.append_assoc] at hcalls
    obtain ⟨hfirst, hrest⟩ := Machine.along_append.1 hcalls
    exact ⟨run_keeps_ready h hfirst, hrest⟩
  refine ⟨(hsplit [] after rfl).1.isOpen, ?_⟩
  rintro between os' payload' rest rfl hne hserves haccepts
  obtain ⟨hready, hspoils, -⟩ := hsplit between _ rfl
  obtain ⟨hok, happended⟩ :=
    write_succeeds hready hne hserves (fun hlong => hspoils (.inr (.inl hlong))) haccepts
  refine ⟨hok, ?_⟩
  rw [← List.cons_append, ← List.append_assoc, Machine.run_snoc]
  exact happended

theorem step_open_or_closed {c : SinkCall} (h : s.world.Open path ∨ s.world.sink.IsClosed) :
    (s.step c).world.Open path ∨ (s.step c).world.sink.IsClosed := by
  rcases h with h | h
  · cases c with
    | write os payload => exact fileSinkWrite_state h os payload
    | flush answer => exact .inl (opsFlush_touches h answer).opened
  · refine .inr ?_
    cases c with
    | write os payload =>
      change (fileSinkWrite os s.world.sink payload).state.IsClosed
      rw [fileSinkWrite_closed h]
      exact h
    | flush answer =>
      change (fileSinkFlush answer s.world.sink).state.IsClosed
      rw [fileSinkFlush_closed h]
      exact h

theorem not_strands_of_recovers (h : s.world.Open path) (hrecovers : Recovers path s calls) :
    Machine.Along Store.step (fun s c => ¬c.Strands s) s calls := by
  rw [Machine.along_iff]
  intro before c after hcalls hstrands
  have hstate : (Machine.run Store.step s before).world.Open path ∨
      (Machine.run Store.step s before).world.sink.IsClosed :=
    Machine.run_invariant (fun s : Store => s.world.Open path ∨ s.world.sink.IsClosed)
      (fun _ _ hs => step_open_or_closed hs) (.inl h) before
  cases c with
  | flush answer => exact hstrands
  | write os payload =>
    rcases hstate with hopen | hclosed
    · -- the sink is stranded, so it has no open file
      obtain ⟨hbad, hsink⟩ := write_strands hopen hstrands
      have hopen := (hrecovers before os payload after hcalls hopen.isOpen hbad).1
      rw [Machine.run_snoc] at hopen
      exact hsink.isClosed.not_open path hopen
    · have hdue := hstrands.2.1
      rw [hclosed.not_due] at hdue
      cases hdue

end Run

/-- A sink that was opened recovers from every error of a run in which no rotation strands it, no name
is too long and no request is left in the ring. If a rotation strands it, it does not. -/
theorem recovers_run {path : Bytes} (hne : path ≠ []) (os : OpenOs) (sink : FileSink)
    (hopen : (fileSinkOpen os sink (some path)).status = .ok) (settings : RotationSettings) (d : Disk)
    (calls : List SinkCall) :
    (Machine.Along Store.step (fun s c => ¬c.Spoils s) (Store.opened os sink path settings d) calls →
      Recovers path (Store.opened os sink path settings d) calls) ∧
    (Recovers path (Store.opened os sink path settings d) calls →
      Machine.Along Store.step (fun s c => ¬c.Strands s) (Store.opened os sink path settings d) calls) := by
  have hready := Store.opened_ready hne hopen settings d
  exact ⟨recovers_of_not_spoils hready, not_strands_of_recovers hready.toOpen⟩

/-- Without limits nothing is ever rotated, and a short write is no more than an error. -/
theorem recovers_run_short_write :
    Recovers (ascii "log") (Store.opened (steadyOpen 0) .zero (ascii "log") ⟨0, 0, 0⟩ emptyDisk)
      [.write (steadyOs 0 1) (ascii "ab"), .write (steadyOs 0 2) (ascii "cd")] := by
  refine (recovers_run (by decide) (steadyOpen 0) .zero (by decide) ⟨0, 0, 0⟩ emptyDisk _).1 ⟨?_, ?_, trivial⟩
  · rintro (hstrands | hlong | hbroken)
    · exact absurd hstrands.2.1 (by decide)
    · exact absurd hlong.2.1 (by decide)
    · exact absurd hbroken.2.1.1 (by decide)
  · rintro (hstrands | hlong | hbroken)
    · exact absurd hstrands.2.1 (by decide)
    · exact absurd hlong.2.1 (by decide)
    · exact absurd hbroken.2.1.1 (by decide)

/-- One rename that fails ends the log: the rotation before the second record closes the file. -/
theorem not_recovers_failed_rename :
    ¬Recovers (ascii "log") (Store.opened (steadyOpen 0) .zero (ascii "log") ⟨1, 0, 0⟩ emptyDisk)
      [.write (steadyOs 0 1) (ascii "a"), .write { steadyOs 0 1 with rename := false } (ascii "b"),
        .write (steadyOs 0 1) (ascii "c")] := by
  intro h
  have hopen := (h [.write (steadyOs 0 1) (ascii "a")] { steadyOs 0 1 with rename := false } (ascii "b")
    [.write (steadyOs 0 1) (ascii "c")] rfl ⟨rfl, .inl ⟨rfl, rfl⟩⟩ (by decide)).1
  rcases hopen.backend with ⟨-, hstream⟩ | ⟨huring, -⟩
  · exact absurd hstream (by decide)
  · exact absurd huring (by decide)

/-- One wait that is interrupted on io_uring: the next write takes the completion of the first. -/
theorem not_recovers_broken_wait :
    ¬Recovers (ascii "log")
      (Store.opened (steadyOpen 0) { FileSink.zero with requestedBackend := 2 } (ascii "log") ⟨0, 0, 0⟩ emptyDisk)
      [.write { steadyOs 0 2 with uring := ⟨.failed 2, 0, []⟩ } (ascii "ab"),
        .write { steadyOs 0 1 with uring := ⟨.completed 2, 0, ascii "c"⟩ } (ascii "c")] := by
  intro h
  have hok := ((h [] { steadyOs 0 2 with uring := ⟨.failed 2, 0, []⟩ } (ascii "ab")
    [.write { steadyOs 0 1 with uring := ⟨.completed 2, 0, ascii "c"⟩ } (ascii "c")] rfl
    ⟨rfl, .inr ⟨rfl, rfl, by decide, rfl⟩⟩ (by decide)).2 []
    { steadyOs 0 1 with uring := ⟨.completed 2, 0, ascii "c"⟩ } (ascii "c") [] rfl (by decide)
    ⟨⟨rfl, rfl, rfl, rfl, rfl, fun _ => rfl, rfl, ⟨4, 5, rfl⟩, rfl⟩, rfl⟩ (by decide)).1
  exact absurd hok (by decide)

end IoJournal
