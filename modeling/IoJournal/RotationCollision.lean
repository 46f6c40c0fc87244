import IoJournal.RotatingStore

/-!
# IoJournal.RotationCollision

Names of rotated files across the lifetimes of a sink.

A name is made of the second of the rotation and of a sequence number that `ij_file_sink_open` sets
back to zero. Within a lifetime the number grows, so its names differ. A later lifetime counts from
one again, and a rotation in the same second and with the same number as one of an earlier lifetime
gets its name. `rename` then replaces the older file.

The state records every rotation that moved a file (`Lifetimes.past` for the lifetimes that are
over). `fresh_iff` says for whole runs that no rename finds its target exactly when no rotation
repeats the second and the number of a past one whose file is still there.
-/

namespace IoJournal

open Wire Posix

/-- A rotation, by what its name tells. -/
structure Rotation where
  second : Int
  sequence : Nat
  deriving DecidableEq

def Rotation.name (path : Bytes) (r : Rotation) : Option Bytes :=
  (gmtimeR r.second).map (rotationText path · r.sequence)

theorem Rotation.name_inj {path p : Bytes} {r r' : Rotation} (h : r.name path = some p) (h' : r'.name path = some p) :
    r = r' := by
  obtain ⟨tm, htm, rfl⟩ := Option.map_eq_some_iff.1 h
  obtain ⟨tm', htm', heq⟩ := Option.map_eq_some_iff.1 h'
  obtain ⟨hsecond, hsequence⟩ := rotationText_inj htm htm' heq.symm
  cases r
  cases r'
  exact congrArg₂ Rotation.mk hsecond hsequence

/-- The rotation a sink would make next, at a given second. -/
def FileSink.nextRotation (sink : FileSink) (second : Int) : Rotation :=
  ⟨second, (sink.rotationSequence + 1) % wordSize⟩

theorem name_nextRotation {path target : Bytes} {sink : FileSink} (hpath : sink.path = some path) {now : Int} {size : Nat}
    (h : fileSinkMakeRotationPath sink now size = .ok target) : (sink.nextRotation now).name path = some target := by
  obtain ⟨tm, htm, rfl⟩ := fileSinkMakeRotationPath_text hpath h
  rw [Rotation.name, FileSink.nextRotation, htm]
  rfl

/-! ## Runs -/

/-- A call on the sink of one path. -/
inductive LifetimeCall where
  | openPath (os : OpenOs) (requestedBackend : Int) (settings : RotationSettings)
  | write (os : WriteOs) (payload : Bytes)
  | flush (answer : FlushAnswer)
  | close (answer : CloseAnswer)

/-- The sink and the disk, with the rotations of earlier lifetimes and of the current one. -/
structure Lifetimes where
  world : World
  past : List Rotation
  current : List Rotation

def LifetimeCall.out (path : Bytes) (sink : FileSink) : LifetimeCall → Out FileSink
  | .openPath os requestedBackend settings =>
    let out := fileSinkOpen os { sink with requestedBackend } (some path)
    if out.status = .ok then { out with state := out.state.configure settings } else out
  | .write os payload => fileSinkWrite os sink payload
  | .flush answer => fileSinkFlush answer sink
  | .close answer =>
    let (sink, effects) := fileSinkClose answer sink
    ⟨.ok, sink, effects⟩

/-- A write that moves a file adds its rotation, and opening begins a lifetime. -/
def Lifetimes.step (path : Bytes) (s : Lifetimes) (c : LifetimeCall) : Lifetimes :=
  let world := s.world.after (c.out path s.world.sink)
  match c with
  | .openPath _ _ _ => ⟨world, s.past ++ s.current, []⟩
  | .write os _ =>
    if world.disk.moved = s.world.disk.moved then ⟨world, s.past, s.current⟩
    else ⟨world, s.past, s.current ++ [s.world.sink.nextRotation os.nameNow]⟩
  | .flush _ => ⟨world, s.past, s.current⟩
  | .close _ => ⟨world, s.past, s.current⟩

/-- No rename of the call has a target that exists. -/
def Lifetimes.KeepsFiles (path : Bytes) (s : Lifetimes) (c : LifetimeCall) : Prop :=
  s.world.disk.Fresh (c.out path s.world.sink).effects

instance (path : Bytes) (s : Lifetimes) (c : LifetimeCall) : Decidable (s.KeepsFiles path c) :=
  inferInstanceAs (Decidable (Disk.Fresh _ _))

/-- A write calls `rename`: a rotation is due, its name is built, and the flush succeeds. -/
def World.Renames (w : World) (os : WriteOs) (payload target : Bytes) : Prop :=
  payload ≠ [] ∧ fileSinkRotationDue w.sink payload.length os.dueNow = true ∧
    fileSinkMakeRotationPath w.sink os.nameNow rotationBufferSize = .ok target ∧
    (w.sink.usesUring = true ∨ os.flush = .ok)

/-- When the call renames, no earlier lifetime has a rotation of the same second and sequence
number whose file is still there. -/
def Lifetimes.NoRepeat (path : Bytes) (s : Lifetimes) : LifetimeCall → Prop
  | .write os payload => (∃ target, s.world.Renames os payload target) →
    ∀ r ∈ s.past, r = s.world.sink.nextRotation os.nameNow →
      ∀ p, r.name path = some p → s.world.disk.files p = none
  | _ => True

/-- The files named after rotations are those of the rotations recorded, and the numbers of the
current lifetime do not exceed the counter, nor does the counter exceed the calls made. -/
structure Lifetimes.Inv (path : Bytes) (calls : Nat) (s : Lifetimes) : Prop where
  state : s.world.Open path ∨ s.world.sink.IsClosed
  files : ∀ p, path ++ ascii "." <+: p → (s.world.disk.files p).isSome = true →
    ∃ r ∈ s.past ++ s.current, r.name path = some p
  current : s.world.Open path → ∀ r ∈ s.current, r.sequence ≤ s.world.sink.rotationSequence
  counter : s.world.Open path → s.world.sink.rotationSequence ≤ calls

/-! ## One call -/

theorem dotted_rotationText (path : Bytes) (tm : Tm) (n : Nat) : path ++ ascii "." <+: rotationText path tm n := by
  refine ⟨printfD 4 (tm.tmYear + 1900) ++ (padded 2 (tm.tmMon + 1) ++ (padded 2 tm.tmMday ++ (ascii "T" ++
    (padded 2 tm.tmHour ++ (padded 2 tm.tmMin ++ (padded 2 tm.tmSec ++ (ascii "Z." ++ padded 6 n))))))), ?_⟩
  simp only [rotationText, List.append_assoc]

/-- What a write leaves behind when it moves no file. -/
structure Stays (path : Bytes) (w w' : World) : Prop where
  moved : w'.disk.moved = w.disk.moved
  files : ∀ p, p ≠ path → w'.disk.files p = w.disk.files p
  sequence : w'.Open path → w'.sink.rotationSequence = w.sink.rotationSequence

/-- What a write leaves behind when it moves the active file. -/
structure Moves (path : Bytes) (now : Int) (w w' : World) : Prop where
  moved : w'.disk.moved ≠ w.disk.moved
  files : ∃ target, (w.sink.nextRotation now).name path = some target ∧
    ∀ p, p ≠ path → p ≠ target → (w'.disk.files p).isSome = true → (w.disk.files p).isSome = true
  sequence : w'.Open path → w'.sink.rotationSequence = (w.sink.rotationSequence + 1) % wordSize

theorem MovesAway.moves {path target : Bytes} {w w' : World} {gone : List Bytes} {unlink : Bytes → Bool} {now : Int}
    (h : MovesAway path target gone unlink w w') (hname : (w.sink.nextRotation now).name path = some target)
    (hsequence : w'.Open path → w'.sink.rotationSequence = (w.sink.rotationSequence + 1) % wordSize) :
    Moves path now w w' := by
  refine ⟨?_, ⟨target, hname, fun p hp hpt hsome => ?_⟩, hsequence⟩
  · rw [h.moved]
    intro heq
    exact List.cons_ne_nil _ _ (List.append_right_eq_self.1 heq)
  · rw [h.files p hp] at hsome
    rw [if_neg hpt] at hsome
    split at hsome
    · cases hsome
    · exact hsome

section Write

variable {path : Bytes} {w : World} (h : w.Open path) (os : WriteOs) (payload : Bytes)
include h

theorem write_fresh_iff :
    w.disk.Fresh (fileSinkWrite os w.sink payload).effects ↔
      ∀ target, w.Renames os payload target → w.disk.files target = none := by
  by_cases hne : payload = []
  · rw [hne, fileSinkWrite_empty]
    exact ⟨fun _ target hr => absurd rfl hr.1, fun _ => trivial⟩
  have hnot : ¬(∃ target, w.Renames os payload target) → w.disk.Fresh (fileSinkWrite os w.sink payload).effects →
      (w.disk.Fresh (fileSinkWrite os w.sink payload).effects ↔
        ∀ target, w.Renames os payload target → w.disk.files target = none) :=
    fun hno hfresh => ⟨fun _ target hr => absurd ⟨target, hr⟩ hno, fun _ => hfresh⟩
  have hone : ∀ {target : Bytes}, fileSinkRotationDue w.sink payload.length os.dueNow = true →
      fileSinkMakeRotationPath w.sink os.nameNow rotationBufferSize = .ok target →
      (opsFlush os.flush w.sink).status = .ok →
      ((∀ target, w.Renames os payload target → w.disk.files target = none) ↔ w.disk.files target = none) := by
    intro target hdue hname hflush
    refine ⟨fun hall => hall target ⟨hne, hdue, hname, (opsFlush_ok_iff h _).1 hflush⟩, fun hnone target' hr => ?_⟩
    have heq := hname.symm.trans hr.2.2.1
    cases heq
    exact hnone
  cases fileSinkWrite_result h os hne with
  | kept due wrote status fresh =>
    refine hnot ?_ fresh
    rintro ⟨target, hr⟩
    rw [hr.2.1] at due
    cases due
  | failed due status rotate =>
    cases rotate with
    | unnamed name same =>
      refine hnot ?_ (by rw [same]; trivial)
      rintro ⟨target, hr⟩
      exact name target hr.2.2.1
    | unflushed name flush same =>
      refine hnot ?_ (by rw [same]; exact Disk.fresh_of_noRename _ (noRename_opsFlush _ _))
      rintro ⟨target, hr⟩
      exact flush ((opsFlush_ok_iff h _).2 hr.2.2.2)
    | stranded name flush fails bad sink fresh => exact fresh.trans (hone due name flush).symm
    | rotated name flush succeeds ok => exact absurd ok status
  | rotated due ok rotate wrote status fresh =>
    obtain ⟨target, hrotated⟩ := rotate.of_ok ok
    exact (fresh.trans hrotated.fresh).trans (hone due hrotated.name hrotated.flush).symm

theorem write_stays_or_moves :
    ((w.after (fileSinkWrite os w.sink payload)).Open path ∨
      (w.after (fileSinkWrite os w.sink payload)).sink.IsClosed) ∧
    (Stays path w (w.after (fileSinkWrite os w.sink payload)) ∨
      Moves path os.nameNow w (w.after (fileSinkWrite os w.sink payload))) := by
  by_cases hne : payload = []
  · rw [hne, fileSinkWrite_empty]
    exact ⟨.inl h, .inl ⟨rfl, fun _ _ => rfl, fun _ => rfl⟩⟩
  cases fileSinkWrite_result h os hne with
  | kept due wrote =>
    refine ⟨.inl wrote.opened, .inl ⟨wrote.moved, wrote.others, fun _ => ?_⟩⟩
    rw [wrote.handles]
    split <;> rfl
  | failed due status rotate =>
    cases rotate with
    | unnamed name same =>
      rw [same]
      exact ⟨.inl h, .inl ⟨rfl, fun _ _ => rfl, fun _ => rfl⟩⟩
    | unflushed name flush same =>
      rw [same]
      have htouches := opsFlush_touches h os.flush
      exact ⟨.inl htouches.opened, .inl ⟨htouches.moved, htouches.others, fun _ => by rw [htouches.handles]⟩⟩
    | stranded name flush fails bad sink fresh disk =>
      have hclosed := sink.isClosed
      have hnot : ∀ {P : Prop}, (w.after (fileSinkWrite os w.sink payload)).Open path → P :=
        fun hready => absurd hready.isOpen (hclosed.not_open path)
      refine ⟨.inr hclosed, ?_⟩
      rcases disk with ⟨-, -, hothers, hmoved⟩ | ⟨-, gone, -, hmoves⟩
      · exact .inl ⟨hmoved, hothers, hnot⟩
      · exact .inr (hmoves.moves (name_nextRotation h.isOpen.path name) hnot)
    | rotated name flush succeeds ok => exact absurd ok status
  | rotated due ok rotate wrote =>
    obtain ⟨_, hrotated⟩ := rotate.of_ok ok
    refine ⟨.inl wrote.opened, .inr ?_⟩
    obtain ⟨hmoved, ⟨target, htarget, hfiles⟩, hsequence⟩ :=
      hrotated.moves.moves (name_nextRotation h.isOpen.path hrotated.name) fun _ => hrotated.turned.rotationSequence
    refine ⟨by rw [wrote.moved]; exact hmoved, ⟨target, htarget, fun p hp hpt hsome => ?_⟩, fun _ => ?_⟩
    · rw [wrote.others p hp] at hsome
      exact hfiles p hp hpt hsome
    · rw [← hsequence hrotated.ready.toOpen, wrote.handles]
      split <;> rfl

end Write

section Step

variable {path : Bytes} {n : Nat} {s : Lifetimes} (h : s.Inv path n)
include h

theorem Lifetimes.Inv.stays {w' : World} (hstate : w'.Open path ∨ w'.sink.IsClosed)
    (hfiles : ∀ p, p ≠ path → w'.disk.files p = s.world.disk.files p)
    (hsequence : w'.Open path → s.world.Open path ∧ w'.sink.rotationSequence = s.world.sink.rotationSequence) :
    Lifetimes.Inv path (n + 1) ⟨w', s.past, s.current⟩ := by
  refine ⟨hstate, fun p hp hsome => ?_, fun hready r hr => ?_, fun hready => ?_⟩
  · rw [hfiles p (ne_of_dotted hp)] at hsome
    exact h.files p hp hsome
  · obtain ⟨hbefore, heq⟩ := hsequence hready
    rw [heq]
    exact h.current hbefore r hr
  · obtain ⟨hbefore, heq⟩ := hsequence hready
    rw [heq]
    exact Nat.le_succ_of_le (h.counter hbefore)

theorem Lifetimes.Inv.step_write (hn : n + 1 < wordSize) (os : WriteOs) (payload : Bytes) :
    (s.step path (.write os payload)).Inv path (n + 1) := by
  rcases h.state with hready | hclosed
  · obtain ⟨hstate, hstays | hmoves⟩ := write_stays_or_moves hready os payload
    · have heq : s.step path (.write os payload) =
          ⟨s.world.after (fileSinkWrite os s.world.sink payload), s.past, s.current⟩ := if_pos hstays.moved
      rw [heq]
      exact h.stays hstate hstays.files fun hafter => ⟨hready, hstays.sequence hafter⟩
    · have heq : s.step path (.write os payload) =
          ⟨s.world.after (fileSinkWrite os s.world.sink payload), s.past,
            s.current ++ [s.world.sink.nextRotation os.nameNow]⟩ := if_neg hmoves.moved
      have hcounter := h.counter hready
      have hmod : (s.world.sink.rotationSequence + 1) % wordSize = s.world.sink.rotationSequence + 1 :=
        Nat.mod_eq_of_lt (by omega)
      obtain ⟨target, htarget, hfiles⟩ := hmoves.files
      rw [heq]
      refine ⟨hstate, fun p hp hsome => ?_, fun hafter r hr => ?_, fun hafter => ?_⟩
      · by_cases hpt : p = target
        · exact ⟨_, List.mem_append_right _ (List.mem_append_right _ List.mem_cons_self), by rw [hpt]; exact htarget⟩
        · obtain ⟨r, hr, hname⟩ := h.files p hp (hfiles p (ne_of_dotted hp) hpt hsome)
          rw [← List.append_assoc]
          exact ⟨r, List.mem_append_left _ hr, hname⟩
      · rw [hmoves.sequence hafter, hmod]
        rcases List.mem_append.1 hr with hr | hr
        · exact Nat.le_succ_of_le (h.current hready r hr)
        · rw [List.mem_singleton.1 hr]
          exact Nat.le_of_eq hmod
      · rw [hmoves.sequence hafter, hmod]
        omega
  · have heq : s.step path (.write os payload) = ⟨⟨s.world.sink, s.world.disk⟩, s.past, s.current⟩ := by
      simp [Lifetimes.step, LifetimeCall.out, fileSinkWrite_closed hclosed, World.after]
    rw [heq]
    exact h.stays (.inr hclosed) (fun _ _ => rfl) fun hafter => absurd hafter.isOpen (hclosed.not_open path)

theorem Lifetimes.Inv.step_open (hne : path ≠ []) (os : OpenOs) (requestedBackend : Int) (settings : RotationSettings) :
    (s.step path (.openPath os requestedBackend settings)).Inv path (n + 1) := by
  have hinv : ∀ w' : World, (w'.Open path ∨ w'.sink.IsClosed) →
      (∀ p, p ≠ path → w'.disk.files p = s.world.disk.files p) →
      (w'.Open path → w'.sink.rotationSequence = 0) →
      Lifetimes.Inv path (n + 1) ⟨w', s.past ++ s.current, []⟩ := by
    intro w' hstate hfiles hzero
    refine ⟨hstate, fun p hp hsome => ?_, fun _ r hr => absurd hr List.not_mem_nil, fun hready => ?_⟩
    · rw [hfiles p (ne_of_dotted hp)] at hsome
      rw [List.append_nil]
      exact h.files p hp hsome
    · rw [hzero hready]
      exact Nat.zero_le _
  simp only [Lifetimes.step, LifetimeCall.out]
  rcases fileSinkOpen_result os { s.world.sink with requestedBackend := requestedBackend } hne s.world.disk with
    ⟨hok, hopened, -, hsequence⟩ | ⟨hbad, hclosed, hdisk⟩
  · rw [if_pos hok]
    refine hinv _ (.inl ⟨⟨hopened.isOpen.path, hopened.isOpen.backend⟩, ?_⟩) (fun p hp => ?_) fun _ => hsequence
    · change ((s.world.disk.run _).files path).isSome = true
      rw [hopened.disk, Disk.apply, Disk.set_files_self]
      rfl
    · change (s.world.disk.run _).files p = _
      rw [hopened.disk]
      exact Disk.set_files_other _ hp _
  · rw [if_neg hbad]
    refine hinv _ (.inr hclosed) (fun p hp => ?_) fun hready => absurd hready.isOpen (hclosed.not_open path)
    change (s.world.disk.run _).files p = _
    rw [hdisk]

theorem Lifetimes.Inv.step (hne : path ≠ []) (hn : n + 1 < wordSize) (c : LifetimeCall) :
    (s.step path c).Inv path (n + 1) := by
  cases c with
  | openPath os requestedBackend settings => exact h.step_open hne os requestedBackend settings
  | write os payload => exact h.step_write hn os payload
  | flush answer =>
    rcases h.state with hready | hclosed
    · have htouches := opsFlush_touches hready answer
      exact h.stays (.inl htouches.opened) htouches.others fun _ =>
        ⟨hready, htouches.handles.rotationSequence⟩
    · have heq : s.step path (.flush answer) = ⟨⟨s.world.sink, s.world.disk⟩, s.past, s.current⟩ := by
        simp [Lifetimes.step, LifetimeCall.out, fileSinkFlush_closed hclosed, World.after]
      rw [heq]
      exact h.stays (.inr hclosed) (fun _ _ => rfl) fun hafter => absurd hafter.isOpen (hclosed.not_open path)
  | close answer =>
    have hclose : (fileSinkClose answer s.world.sink).1.IsClosed ∧
        ∀ p, p ≠ path → (s.world.disk.run (fileSinkClose answer s.world.sink).2).files p = s.world.disk.files p := by
      rcases h.state with hready | hclosed
      · exact ⟨(hready.close answer).1, (hready.close answer).2.1⟩
      · rw [hclosed.close]
        exact ⟨⟨hclosed.stream, hclosed.backend⟩, fun _ _ => rfl⟩
    exact h.stays (.inr hclose.1) hclose.2 fun hafter => absurd hafter.isOpen (hclose.1.not_open path)

/-- A rename finds its target exactly when it repeats a past rotation whose file is still there. -/
theorem Lifetimes.Inv.keepsFiles_iff (hn : n + 1 < wordSize) (os : WriteOs) (payload : Bytes) :
    s.KeepsFiles path (.write os payload) ↔ s.NoRepeat path (.write os payload) := by
  rcases h.state with hready | hclosed
  · refine (write_fresh_iff hready os payload).trans ⟨?_, ?_⟩
    · rintro hfresh ⟨target, hrenames⟩ r - rfl p hp
      rw [name_nextRotation hready.isOpen.path hrenames.2.2.1, Option.some.injEq] at hp
      rw [← hp]
      exact hfresh target hrenames
    · intro hno target hrenames
      have hname := name_nextRotation hready.isOpen.path hrenames.2.2.1
      obtain ⟨tm, htm, htarget⟩ := fileSinkMakeRotationPath_text hready.isOpen.path hrenames.2.2.1
      cases hfile : s.world.disk.files target with
      | none => rfl
      | some c =>
        have hdot : path ++ ascii "." <+: target := htarget ▸ dotted_rotationText path tm _
        obtain ⟨r, hr, hrname⟩ := h.files target hdot (by rw [hfile]; rfl)
        have heq := Rotation.name_inj hrname hname
        rcases List.mem_append.1 hr with hpast | hcurrent
        · rw [← hfile]
          exact hno ⟨target, hrenames⟩ r hpast heq target hrname
        · -- the current lifetime has only counted up to the counter
          have hle := h.current hready r hcurrent
          have hcounter := h.counter hready
          rw [heq, FileSink.nextRotation, Nat.mod_eq_of_lt (by omega)] at hle
          exact absurd hle (Nat.not_succ_le_self _)
  · have hout : (LifetimeCall.write os payload).out path s.world.sink = ⟨.invalidArgument, s.world.sink, []⟩ :=
      fileSinkWrite_closed hclosed os payload
    refine ⟨?_, ?_⟩
    · rintro - ⟨target, hrenames⟩
      have hdue := hrenames.2.1
      rw [hclosed.not_due] at hdue
      cases hdue
    · intro _
      rw [Lifetimes.KeepsFiles, hout]
      trivial

end Step

theorem noRename_out {path : Bytes} (hne : path ≠ []) (sink : FileSink) {c : LifetimeCall} (hc : ∀ os payload, c ≠ .write os payload) :
    ∀ e ∈ (c.out path sink).effects, Disk.NoRename e := by
  cases c with
  | openPath os requestedBackend settings =>
    simp only [LifetimeCall.out]
    split
    · exact noRename_fileSinkOpen os _ hne
    · exact noRename_fileSinkOpen os _ hne
  | write os payload => exact absurd rfl (hc os payload)
  | flush answer => exact noRename_opsFlush answer sink
  | close answer => exact noRename_opsClose answer sink

theorem Lifetimes.keepsFiles_iff {path : Bytes} (hne : path ≠ []) {n : Nat} {s : Lifetimes} (h : s.Inv path n)
    (hn : n + 1 < wordSize) (c : LifetimeCall) : s.KeepsFiles path c ↔ s.NoRepeat path c := by
  have hother : (∀ os payload, c ≠ .write os payload) → s.KeepsFiles path c :=
    fun hc => Disk.fresh_of_noRename _ (noRename_out hne s.world.sink hc)
  cases c with
  | write os payload => exact h.keepsFiles_iff hn os payload
  | openPath os requestedBackend settings =>
    exact iff_of_true (hother fun _ _ heq => LifetimeCall.noConfusion heq) trivial
  | flush answer => exact iff_of_true (hother fun _ _ heq => LifetimeCall.noConfusion heq) trivial
  | close answer => exact iff_of_true (hother fun _ _ heq => LifetimeCall.noConfusion heq) trivial

/-- Any number of lifetimes of a sink on a path, from a directory without rotated files of it. -/
def Lifetimes.initial (d : Disk) : Lifetimes := ⟨⟨.zero, d⟩, [], []⟩

theorem Lifetimes.run_inv {path : Bytes} (hne : path ≠ []) {d : Disk}
    (hdir : ∀ p, path ++ ascii "." <+: p → d.files p = none) (calls : List LifetimeCall)
    (hcalls : calls.length < wordSize) :
    (Machine.run (Lifetimes.step path) (Lifetimes.initial d) calls).Inv path calls.length := by
  induction calls using List.reverseRecOn with
  | nil =>
    have hclosed : FileSink.zero.IsClosed := ⟨rfl, .inr (.inr ⟨rfl, rfl⟩)⟩
    refine ⟨.inr hclosed, fun p hp hsome => ?_, fun _ r hr => absurd hr List.not_mem_nil, fun _ => Nat.zero_le _⟩
    change (d.files p).isSome = true at hsome
    rw [hdir p hp] at hsome
    cases hsome
  | append_singleton calls c ih =>
    rw [List.length_append, List.length_singleton] at hcalls ⊢
    rw [Machine.run_snoc]
    exact (ih (by omega)).step hne hcalls c

/-- In a run no rename finds its target exactly when no rotation repeats the second and the
sequence number of one of an earlier lifetime whose file is still there. -/
theorem keepsFiles_run_iff {path : Bytes} (hne : path ≠ []) {d : Disk}
    (hdir : ∀ p, path ++ ascii "." <+: p → d.files p = none) (calls : List LifetimeCall)
    (hcalls : calls.length < wordSize) :
    Machine.Along (Lifetimes.step path) (Lifetimes.KeepsFiles path) (Lifetimes.initial d) calls ↔
      Machine.Along (Lifetimes.step path) (Lifetimes.NoRepeat path) (Lifetimes.initial d) calls := by
  rw [Machine.along_iff, Machine.along_iff]
  have hstep : ∀ before c after, calls = before ++ c :: after →
      ((Machine.run (Lifetimes.step path) (Lifetimes.initial d) before).KeepsFiles path c ↔
        (Machine.run (Lifetimes.step path) (Lifetimes.initial d) before).NoRepeat path c) := by
    rintro before c after rfl
    rw [List.length_append, List.length_cons] at hcalls
    exact Lifetimes.keepsFiles_iff hne (Lifetimes.run_inv hne hdir before (by omega)) (by omega) c
  exact ⟨fun h before c after heq => (hstep before c after heq).1 (h before c after heq),
    fun h before c after heq => (hstep before c after heq).2 (h before c after heq)⟩

/-- A lifetime at the second `now` that writes two records and rotates between them. -/
def shortLifetime (now : Int) : List LifetimeCall :=
  [.openPath (steadyOpen now) 0 ⟨1, 0, 0⟩, .write (steadyOs now 1) (ascii "a"), .write (steadyOs now 1) (ascii "b"),
    .close .ok]

/-- Two lifetimes a second apart get different names. -/
theorem keepsFiles_run_iff_two_seconds :
    Machine.Along (Lifetimes.step (ascii "log")) (Lifetimes.NoRepeat (ascii "log")) (Lifetimes.initial emptyDisk)
      (shortLifetime 0 ++ shortLifetime 1) :=
  (keepsFiles_run_iff (by decide) (fun _ _ => rfl) (shortLifetime 0 ++ shortLifetime 1) (by decide)).1
    (by decide +kernel)

/-- Two lifetimes within one second: the second rotation replaces the file of the first. -/
theorem not_keepsFiles_same_second :
    ¬Machine.Along (Lifetimes.step (ascii "log")) (Lifetimes.KeepsFiles (ascii "log")) (Lifetimes.initial emptyDisk)
      (shortLifetime 0 ++ shortLifetime 0) := by
  decide +kernel

end IoJournal
