import IoJournal.RotatingStore
import IoJournal.Wire.Lines

/-!
# IoJournal.TornLines

The lines of the files after writes that failed.

A short `fwrite` or a short io_uring completion leaves the first octets of a record in the active
file, and the sink stays open. The next record goes on the same line. The state records every write
with the octets it left in the file (`Segment`), file by file. `ownLines_run_iff` says for whole
runs that every record whose write returned `ok` has its lines to itself exactly when no such
record goes to an active file that ends within a line.
-/

namespace IoJournal

open Wire Posix

/-- One write: what was submitted, what came into the file, and whether the write returned `ok`. -/
structure Segment where
  payload : Bytes
  octets : Bytes
  ok : Bool

/-- Lines with their line feeds. -/
def Ndjson (payload : Bytes) : Prop := payload.getLast? = some 0x0A

theorem Ndjson.ne_nil {payload : Bytes} (h : Ndjson payload) : payload ≠ [] := by
  rintro rfl
  cases h

/-- The sink and the disk, with the writes by the file they went to. -/
structure LineStore where
  world : World
  log : SegmentedLog Segment

/-- A call, and the segment that a write adds. -/
def LineStore.step (path : Bytes) (s : LineStore) : SinkCall → LineStore
  | .write os payload =>
    let out := fileSinkWrite os s.world.sink payload
    let world := s.world.after out
    if world.disk.moved = s.world.disk.moved then
      let octets := (world.active path).drop (s.world.active path).length
      ⟨world, s.log.append ⟨payload, octets, out.status == .ok⟩⟩
    else ⟨world, s.log.rotate.append ⟨payload, world.active path, out.status == .ok⟩⟩
  | .flush answer => ⟨s.world.after (fileSinkFlush answer s.world.sink), s.log⟩

/-- A sink opened on `path`. What the file already holds counts as a segment of its own. -/
def LineStore.opened (os : OpenOs) (sink : FileSink) (path : Bytes) (settings : RotationSettings) (d : Disk) : LineStore :=
  ⟨(Store.opened os sink path settings d).world, ⟨[], [⟨d.contents path, d.contents path, false⟩]⟩⟩

/-- Every record whose write returned `ok` is in its file as lines of its own. -/
def LineStore.OwnLines (s : LineStore) : Prop :=
  ∀ file ∈ s.log.files, ∀ before segment after, file = before ++ segment :: after → segment.ok = true →
    lines (file.flatMap Segment.octets) =
      lines (before.flatMap Segment.octets) ++ lines segment.payload ++ lines (after.flatMap Segment.octets)

/-- The payloads are lines, no flush drops what it could not write, and io_uring answers with completions. -/
def SinkCall.Writes : SinkCall → Prop
  | .write os payload => Ndjson payload ∧ (∀ n, os.flush ≠ .failed n false) ∧ ∀ n, os.uring.ends ≠ .failed n
  | .flush answer => ∀ n, answer ≠ .failed n false

/-- The whole payload goes to an open file that ends within a line. -/
def LineStore.Glues (path : Bytes) (s : LineStore) : SinkCall → Prop
  | .write os payload => s.world.sink.IsOpen path ∧
    fileSinkRotationDue s.world.sink payload.length os.dueNow = false ∧
    s.world.sink.Takes os.fwrite os.uring payload ∧ ¬AtLineStart (s.world.active path)
  | .flush _ => False

/-! ## One write -/

theorem write_segment {path payload : Bytes} {w : World} (h : w.Ready path) {os : WriteOs} (hne : payload ≠ [])
    (hflush : ∀ n, os.flush ≠ .failed n false) (hwhole : ∀ n, os.uring.ends ≠ .failed n) :
    ((w.after (fileSinkWrite os w.sink payload)).Ready path ∨ (w.after (fileSinkWrite os w.sink payload)).sink.IsClosed) ∧
    ∃ octets, ((fileSinkWrite os w.sink payload).status = .ok → octets = payload) ∧
      ((w.after (fileSinkWrite os w.sink payload)).disk.moved = w.disk.moved ∧
          (w.after (fileSinkWrite os w.sink payload)).active path = w.active path ++ octets ∧
          ((fileSinkWrite os w.sink payload).status = .ok ↔
            fileSinkRotationDue w.sink payload.length os.dueNow = false ∧ w.sink.Takes os.fwrite os.uring payload) ∨
        (∃ target, (w.after (fileSinkWrite os w.sink payload)).disk.moved =
          w.disk.moved ++ [(target, w.active path)]) ∧
          (w.after (fileSinkWrite os w.sink payload)).active path = octets ∧
          fileSinkRotationDue w.sink payload.length os.dueNow = true) := by
  have hsettled : (fileSinkWrite os w.sink payload).state.Settled :=
    fileSinkWrite_settled h hne fun _ hbreaks => absurd hbreaks.2.2.choose_spec (hwhole _)
  refine ⟨(fileSinkWrite_state h.toOpen os payload).imp_left fun hopen => ⟨hopen, hsettled⟩, ?_⟩
  have hfailed : fileSinkRotationDue w.sink payload.length os.dueNow = true →
      (fileSinkWrite os w.sink payload).status ≠ .ok →
      ((fileSinkWrite os w.sink payload).status = .ok ↔
        fileSinkRotationDue w.sink payload.length os.dueNow = false ∧ w.sink.Takes os.fwrite os.uring payload) := by
    intro hdue hbad
    refine iff_of_false hbad fun hnot => ?_
    rw [hdue] at hnot
    cases hnot.1
  cases fileSinkWrite_result h.toOpen os hne with
  | kept due wrote status =>
    obtain ⟨taken, hactive, -, hok, -⟩ := wrote.taken h.settled
    refine ⟨taken, hok, .inl ⟨wrote.moved, hactive, ?_⟩⟩
    rw [status, opsWrite_ok_iff h.toOpen os.fwrite os.uring hne]
    exact (and_iff_right due).symm
  | failed due status rotate =>
    have hbad := hfailed due status
    cases rotate with
    | unnamed name same =>
      rw [same] at status hbad ⊢
      exact ⟨[], fun hok => absurd hok status, .inl ⟨rfl, (List.append_nil _).symm, hbad⟩⟩
    | unflushed name flush same =>
      have happ := (opsFlush_appends h.toOpen os.flush).2 hflush
      rw [same] at status hbad ⊢
      exact ⟨[], fun hok => absurd hok status, .inl ⟨happ.moved, happ.active, hbad⟩⟩
    | stranded name flush fails bad sink fresh disk =>
      refine ⟨[], fun hok => absurd hok status, ?_⟩
      rcases disk with ⟨-, hactive, -, hmoved⟩ | ⟨-, gone, -, hmoves⟩
      · exact .inl ⟨hmoved, by rw [hactive, List.append_nil], hbad⟩
      · exact .inr ⟨⟨_, hmoves.moved⟩, hmoves.active, due⟩
    | rotated name flush succeeds ok => exact absurd ok status
  | rotated due ok rotate wrote status =>
    obtain ⟨target, hrotated⟩ := rotate.of_ok ok
    obtain ⟨taken, hactive, -, hok, -⟩ := wrote.taken hrotated.ready.settled
    refine ⟨taken, hok, .inr ⟨⟨_, wrote.moved.trans hrotated.moves.moved⟩, ?_, due⟩⟩
    rw [hactive, hrotated.moves.active, List.nil_append]

/-! ## The lines of a file -/

/-- A record that was written stands at the start of a line. -/
def Separate (file : List Segment) : Prop :=
  ∀ before segment after, file = before ++ segment :: after → segment.ok = true →
    AtLineStart (before.flatMap Segment.octets)

theorem separate_nil : Separate [] := by
  intro before segment after heq
  exact absurd heq.symm (List.append_ne_nil_of_right_ne_nil _ (List.cons_ne_nil _ _))

theorem separate_snoc (file : List Segment) (segment : Segment) :
    Separate (file ++ [segment]) ↔
      Separate file ∧ (segment.ok = true → AtLineStart (file.flatMap Segment.octets)) := by
  constructor
  · intro h
    refine ⟨fun before s after heq => h before s (after ++ [segment]) (by rw [heq, List.append_assoc]; rfl), ?_⟩
    exact h file segment [] rfl
  · rintro ⟨hfile, hlast⟩ before s after heq
    rcases List.eq_nil_or_concat after with rfl | ⟨after, x, rfl⟩
    · obtain ⟨rfl, hs⟩ := List.append_inj' heq rfl
      rw [List.cons.injEq] at hs
      rw [← hs.1]
      exact hlast
    · rw [List.concat_eq_append, ← List.cons_append, ← List.append_assoc] at heq
      obtain ⟨rfl, -⟩ := List.append_inj' heq rfl
      exact hfile before s after rfl

theorem separate_append (log : SegmentedLog Segment) (segment : Segment) :
    (∀ file ∈ (log.append segment).files, Separate file) ↔
      (∀ file ∈ log.files, Separate file) ∧
        (segment.ok = true → AtLineStart (log.active.flatMap Segment.octets)) := by
  simp only [SegmentedLog.files, SegmentedLog.append, List.forall_mem_append, List.forall_mem_singleton, separate_snoc,
    and_assoc]

theorem separate_rotate (log : SegmentedLog Segment) :
    (∀ file ∈ log.rotate.files, Separate file) ↔ ∀ file ∈ log.files, Separate file := by
  simp only [SegmentedLog.files, SegmentedLog.rotate, List.forall_mem_append, List.forall_mem_singleton]
  exact and_iff_left separate_nil

theorem ownLines_iff {s : LineStore}
    (h : ∀ segment ∈ s.log.records, segment.ok = true → segment.octets = segment.payload ∧ Ndjson segment.payload) :
    s.OwnLines ↔ ∀ file ∈ s.log.files, Separate file := by
  refine forall₂_congr fun file hfile => forall₄_congr fun before segment after heq => forall_congr' fun hok => ?_
  have hmem : segment ∈ s.log.records := by
    have hin : segment ∈ file := by rw [heq]; exact List.mem_append_right _ List.mem_cons_self
    rcases List.mem_append.1 hfile with hclosed | hactive
    · exact List.mem_append_left _ (List.mem_flatten_of_mem hclosed hin)
    · rw [List.mem_singleton.1 hactive] at hin
      exact List.mem_append_right _ hin
  obtain ⟨hoctets, hndjson⟩ := h segment hmem hok
  have hrest : lines (segment.payload ++ after.flatMap Segment.octets) =
      lines segment.payload ++ lines (after.flatMap Segment.octets) := by
    by_cases hafter : after.flatMap Segment.octets = []
    · rw [hafter, List.append_nil, lines, List.append_nil]
    · exact (lines_append_iff hafter).2 (.inr hndjson)
  rw [heq, List.flatMap_append, List.flatMap_cons, hoctets, List.append_assoc (lines _), ← hrest]
  exact lines_append_iff (List.append_ne_nil_of_left_ne_nil hndjson.ne_nil _)

/-! ## Runs -/

structure LineStore.Inv (path : Bytes) (s : LineStore) : Prop where
  state : s.world.Ready path ∨ s.world.sink.IsClosed
  holds : Holds Segment.octets path s.world s.log
  whole : ∀ segment ∈ s.log.records, segment.ok = true → segment.octets = segment.payload ∧ Ndjson segment.payload

section Step

variable {path : Bytes} {s : LineStore} (h : s.Inv path)
include h

theorem LineStore.Inv.append {log : SegmentedLog Segment} (hrecords : log.records = s.log.records) {world : World}
    (hstate : world.Ready path ∨ world.sink.IsClosed) {segment : Segment}
    (hholds : Holds Segment.octets path world (log.append segment)) (hndjson : Ndjson segment.payload)
    (hwhole : segment.ok = true → segment.octets = segment.payload) :
    LineStore.Inv path ⟨world, log.append segment⟩ := by
  refine ⟨hstate, hholds, fun sg hsg hok => ?_⟩
  rw [SegmentedLog.records_append, hrecords] at hsg
  rcases List.mem_append.1 hsg with hsg | hsg
  · exact h.whole sg hsg hok
  · rw [List.mem_singleton.1 hsg] at hok ⊢
    exact ⟨hwhole hok, hndjson⟩

theorem LineStore.Inv.step_write {os : WriteOs} {payload : Bytes} (hc : (SinkCall.write os payload).Writes) :
    (s.step path (.write os payload)).Inv path ∧
      ((∀ file ∈ (s.step path (.write os payload)).log.files, Separate file) ↔
        (∀ file ∈ s.log.files, Separate file) ∧ ¬s.Glues path (.write os payload)) := by
  obtain ⟨hndjson, hflush, hwhole⟩ := hc
  rcases h.state with hready | hclosed
  · obtain ⟨hstate, octets, hok, ⟨hmoved, hactive, hstatus⟩ | ⟨⟨target, hmoved⟩, hactive, hdue⟩⟩ :=
      write_segment hready hndjson.ne_nil hflush hwhole
    · have heq : s.step path (.write os payload) =
          ⟨s.world.after (fileSinkWrite os s.world.sink payload),
            s.log.append ⟨payload, octets, (fileSinkWrite os s.world.sink payload).status == .ok⟩⟩ := by
        simp only [LineStore.step, if_pos hmoved, hactive, List.drop_left]
      rw [heq]
      refine ⟨h.append rfl hstate (h.holds.append hactive hmoved) hndjson (fun hb => hok (eq_of_beq hb)), ?_⟩
      have hglues : s.Glues path (.write os payload) ↔ (fileSinkWrite os s.world.sink payload).status = .ok ∧
          ¬AtLineStart (s.world.active path) := by
        rw [hstatus]
        exact ⟨fun hg => ⟨⟨hg.2.1, hg.2.2.1⟩, hg.2.2.2⟩, fun hg => ⟨hready.isOpen, hg.1.1, hg.1.2, hg.2⟩⟩
      rw [hglues, separate_append, h.holds.active, not_and, not_not]
      simp
    · have hne : s.world.disk.moved ++ [(target, s.world.active path)] ≠ s.world.disk.moved := by simp
      have heq : s.step path (.write os payload) =
          ⟨s.world.after (fileSinkWrite os s.world.sink payload),
            s.log.rotate.append ⟨payload, octets, (fileSinkWrite os s.world.sink payload).status == .ok⟩⟩ := by
        simp only [LineStore.step, hmoved, if_neg hne, hactive]
      rw [heq]
      have hholds : Holds Segment.octets path (s.world.after (fileSinkWrite os s.world.sink payload))
          (s.log.rotate.append ⟨payload, octets, (fileSinkWrite os s.world.sink payload).status == .ok⟩) := by
        refine ⟨by rw [hactive]; simp [SegmentedLog.append, SegmentedLog.rotate], ?_⟩
        rw [hmoved, List.map_append, h.holds.moved, h.holds.active]
        simp [SegmentedLog.append, SegmentedLog.rotate]
      refine ⟨h.append (SegmentedLog.records_rotate _) hstate hholds hndjson (fun hb => hok (eq_of_beq hb)), ?_⟩
      have hglues : ¬s.Glues path (.write os payload) := by
        intro hg
        rw [hg.2.1] at hdue
        cases hdue
      rw [separate_append, separate_rotate]
      exact and_congr_right' (iff_of_true (fun _ => .inl rfl) hglues)
  · have heq : s.step path (.write os payload) = ⟨s.world, s.log.append ⟨payload, [], false⟩⟩ := by
      have hafter : s.world.after (fileSinkWrite os s.world.sink payload) = s.world := by
        rw [fileSinkWrite_closed hclosed]
        rfl
      have hstatus : (fileSinkWrite os s.world.sink payload).status = .invalidArgument := by
        rw [fileSinkWrite_closed hclosed]
      simp only [LineStore.step, hafter, if_true, List.drop_length, hstatus]
      rfl
    rw [heq]
    refine ⟨h.append rfl (.inr hclosed) (h.holds.append (List.append_nil _).symm rfl) hndjson (by simp), ?_⟩
    rw [separate_append]
    exact and_congr_right' (iff_of_true (by simp) fun hg => hclosed.not_open path hg.1)

theorem LineStore.Inv.step_flush {answer : FlushAnswer} (hc : (SinkCall.flush answer).Writes) :
    (s.step path (.flush answer)).Inv path := by
  rcases h.state with hready | hclosed
  · have happ := (opsFlush_appends hready.toOpen answer).2 hc
    exact ⟨.inl (opsFlush_ready hready answer), h.holds.congr (happ.active.trans (List.append_nil _)) happ.moved, h.whole⟩
  · have heq : s.step path (.flush answer) = s := by
      simp only [LineStore.step, fileSinkFlush_closed hclosed]
      rfl
    rw [heq]
    exact h

theorem LineStore.Inv.step {c : SinkCall} (hc : c.Writes) :
    (s.step path c).Inv path ∧
      ((∀ file ∈ (s.step path c).log.files, Separate file) ↔
        (∀ file ∈ s.log.files, Separate file) ∧ ¬s.Glues path c) := by
  cases c with
  | write os payload => exact h.step_write hc
  | flush answer => exact ⟨h.step_flush hc, (and_iff_left id).symm⟩

theorem LineStore.Inv.run {calls : List SinkCall} (hcalls : ∀ c ∈ calls, c.Writes) :
    (Machine.run (LineStore.step path) s calls).Inv path ∧
      ((∀ file ∈ (Machine.run (LineStore.step path) s calls).log.files, Separate file) ↔
        (∀ file ∈ s.log.files, Separate file) ∧
          Machine.Along (LineStore.step path) (fun s c => ¬s.Glues path c) s calls) := by
  induction calls generalizing s with
  | nil => exact ⟨h, (and_iff_left trivial).symm⟩
  | cons c calls ih =>
    obtain ⟨hinv, hiff⟩ := h.step (hcalls c List.mem_cons_self)
    obtain ⟨hrun, hrest⟩ := ih hinv fun c hc => hcalls c (List.mem_cons_of_mem _ hc)
    refine ⟨hrun, hrest.trans ?_⟩
    rw [hiff, and_assoc]
    rfl

end Step

theorem LineStore.opened_inv {path : Bytes} (hne : path ≠ []) {os : OpenOs} {sink : FileSink}
    (hopen : (fileSinkOpen os sink (some path)).status = .ok) (settings : RotationSettings) {d : Disk}
    (hmoved : d.moved = []) : (LineStore.opened os sink path settings d).Inv path := by
  have hready := Store.opened_ready hne hopen settings d
  rcases fileSinkOpen_result os sink hne d with ⟨-, hopened, -⟩ | ⟨hbad, -⟩
  swap
  · exact absurd hopen hbad
  have hdisk : (LineStore.opened os sink path settings d).world.disk = d.apply (.create path) := hopened.disk
  have hpending : (LineStore.opened os sink path settings d).world.sink.pending = [] := hopened.pending
  refine ⟨.inl hready, ⟨?_, ?_⟩, fun segment hsegment hok => ?_⟩
  · rw [World.active, hpending, hdisk, Disk.contents, Disk.apply, Disk.set_files_self]
    simp [LineStore.opened]
  · rw [hdisk]
    exact congrArg (List.map Prod.snd) hmoved
  · rw [List.mem_singleton.1 hsegment] at hok
    cases hok

/-- The files hold the segments of the run, and every record whose write returned `ok` has its lines
to itself exactly when none of them is written to an active file that ends within a line. -/
theorem ownLines_run_iff {path : Bytes} (hne : path ≠ []) (os : OpenOs) (sink : FileSink)
    (hopen : (fileSinkOpen os sink (some path)).status = .ok) (settings : RotationSettings) {d : Disk}
    (hmoved : d.moved = []) (calls : List SinkCall) (hcalls : ∀ c ∈ calls, c.Writes) :
    Holds Segment.octets path
        (Machine.run (LineStore.step path) (LineStore.opened os sink path settings d) calls).world
        (Machine.run (LineStore.step path) (LineStore.opened os sink path settings d) calls).log ∧
      ((Machine.run (LineStore.step path) (LineStore.opened os sink path settings d) calls).OwnLines ↔
        Machine.Along (LineStore.step path) (fun s c => ¬s.Glues path c) (LineStore.opened os sink path settings d)
          calls) := by
  obtain ⟨hinv, hiff⟩ := (LineStore.opened_inv hne hopen settings hmoved).run hcalls
  refine ⟨hinv.holds, (ownLines_iff hinv.whole).trans (hiff.trans (and_iff_right ?_))⟩
  intro file hfile
  rw [List.mem_singleton.1 hfile]
  exact (separate_snoc [] _).2 ⟨separate_nil, nofun⟩

/-- A write that fails before its first octet does no harm to the next record. -/
theorem ownLines_run_iff_no_octets :
    (Machine.run (LineStore.step (ascii "log")) (LineStore.opened (steadyOpen 0) .zero (ascii "log") ⟨0, 0, 0⟩ emptyDisk)
      [.write (steadyOs 0 2) (ascii "a\n"), .write (steadyOs 0 0) (ascii "b\n"),
        .write (steadyOs 0 2) (ascii "c\n")]).OwnLines := by
  have hcalls : ∀ c ∈ [SinkCall.write (steadyOs 0 2) (ascii "a\n"), .write (steadyOs 0 0) (ascii "b\n"),
      .write (steadyOs 0 2) (ascii "c\n")], c.Writes := by
    intro c hc
    simp only [List.mem_cons, List.not_mem_nil, or_false] at hc
    rcases hc with rfl | rfl | rfl
    all_goals exact ⟨rfl, fun n heq => FlushAnswer.noConfusion heq, fun n heq => UringEnd.noConfusion heq⟩
  refine (ownLines_run_iff (by decide) (steadyOpen 0) .zero (by decide) ⟨0, 0, 0⟩ rfl _ hcalls).2.2 ⟨?_, ?_, ?_, trivial⟩
  · exact fun hg => hg.2.2.2 (by decide)
  · exact fun hg => hg.2.2.2 (by decide)
  · exact fun hg => hg.2.2.2 (by decide)

/-- A short write of one octet, and the record after it on the same line. -/
theorem not_ownLines_short_write :
    ¬(Machine.run (LineStore.step (ascii "log"))
      (LineStore.opened (steadyOpen 0) .zero (ascii "log") ⟨0, 0, 0⟩ emptyDisk)
      [.write (steadyOs 0 1) (ascii "b\n"), .write (steadyOs 0 2) (ascii "c\n")]).OwnLines := by
  intro h
  have hlines := h [⟨[], [], false⟩, ⟨ascii "b\n", ascii "b", false⟩, ⟨ascii "c\n", ascii "c\n", true⟩]
    (List.mem_singleton.2 rfl) [⟨[], [], false⟩, ⟨ascii "b\n", ascii "b", false⟩] ⟨ascii "c\n", ascii "c\n", true⟩ [] rfl rfl
  exact absurd hlines (by decide)

end IoJournal
