import Mathlib.Data.List.DropRight
import IoJournal.FileSinkSpec
import IoJournal.RotationName
import IoJournal.Runs.Machine
import IoJournal.Runs.SegmentedLog

/-!
# IoJournal.RotatingStore

The file sink as a segmented log with retention.

* `Holds` relates the files to a segmented log: a write appends a record, a rotation rotates.
* `Kept` relates the rotated files to the list of their paths: the names are all different, the
  list has the newest of them, and each of these is on disk with the contents it was moved with.
* `rotatingStore_run` is the whole run of a sink whose system calls all succeed.
-/

namespace IoJournal

open Wire Posix

/-! ## The files as a segmented log -/

section Holds

variable {α : Type} {octets : α → Bytes} {path : Bytes} {w w' : World} {log : SegmentedLog α}

/-- The files that were moved away and the active file are those of the log. -/
structure Holds (octets : α → Bytes) (path : Bytes) (w : World) (log : SegmentedLog α) : Prop where
  active : w.active path = log.active.flatMap octets
  moved : w.disk.moved.map Prod.snd = log.closed.map (·.flatMap octets)

theorem Holds.congr (h : Holds octets path w log) (hactive : w'.active path = w.active path)
    (hmoved : w'.disk.moved = w.disk.moved) : Holds octets path w' log where
  active := hactive.trans h.active
  moved := by rw [hmoved]; exact h.moved

theorem Holds.append (h : Holds octets path w log) {record : α}
    (hactive : w'.active path = w.active path ++ octets record) (hmoved : w'.disk.moved = w.disk.moved) :
    Holds octets path w' (log.append record) where
  active := by rw [hactive, h.active, SegmentedLog.append, List.flatMap_append, List.flatMap_singleton]
  moved := by rw [hmoved]; exact h.moved

theorem Holds.rotate (h : Holds octets path w log) {target : Bytes} {gone : List Bytes} {unlink : Bytes → Bool}
    (hmoves : MovesAway path target gone unlink w w') : Holds octets path w' log.rotate where
  active := hmoves.active
  moved := by
    rw [hmoves.moved, SegmentedLog.rotate, List.map_append, List.map_append, h.moved, List.map_singleton,
      List.map_singleton, h.active]

end Holds

/-! ## The rotated files -/

/-- The names of the files moved away, oldest first. -/
def World.names (w : World) : List Bytes := w.disk.moved.map Prod.fst

theorem MovesAway.names {path target : Bytes} {gone : List Bytes} {unlink : Bytes → Bool} {w w' : World}
    (h : MovesAway path target gone unlink w w') : w'.names = w.names ++ [target] := by
  rw [World.names, h.moved, List.map_append]
  rfl

structure Kept (path : Bytes) (w : World) : Prop where
  sequence : w.sink.rotationSequence = w.names.length
  named : ∀ p ∈ w.names, ∃ tm n, p = rotationText path tm n ∧ n ≤ w.names.length
  nodup : w.names.Nodup
  rotatedPaths : w.sink.rotatedPaths = w.names.drop (surplus w.sink.retentionFiles w.names.length)
  present : ∀ e ∈ w.disk.moved, e.1 ∈ w.sink.rotatedPaths → w.disk.files e.1 = some e.2

theorem Kept.ne_path {path : Bytes} {w : World} (h : Kept path w) {p : Bytes} (hp : p ∈ w.names) : p ≠ path := by
  obtain ⟨tm, n, rfl, -⟩ := h.named p hp
  intro heq
  exact Nat.lt_irrefl _ (heq ▸ length_lt_rotationText path tm n)

theorem Kept.mem_names {path : Bytes} {w : World} (h : Kept path w) {p : Bytes} (hp : p ∈ w.sink.rotatedPaths) :
    p ∈ w.names := by
  rw [h.rotatedPaths] at hp
  exact List.mem_of_mem_drop hp

theorem Kept.congr {path : Bytes} {w w' : World} (h : Kept path w) (hmoved : w'.disk.moved = w.disk.moved)
    (hothers : ∀ p, p ≠ path → w'.disk.files p = w.disk.files p)
    (hsequence : w'.sink.rotationSequence = w.sink.rotationSequence)
    (hpaths : w'.sink.rotatedPaths = w.sink.rotatedPaths)
    (hretention : w'.sink.retentionFiles = w.sink.retentionFiles) : Kept path w' := by
  have hnames : w'.names = w.names := by rw [World.names, hmoved]; rfl
  refine ⟨?_, ?_, ?_, ?_, ?_⟩
  · rw [hsequence, hnames]
    exact h.sequence
  · rw [hnames]
    exact h.named
  · rw [hnames]
    exact h.nodup
  · rw [hpaths, hnames, hretention]
    exact h.rotatedPaths
  · intro e he hp
    rw [hmoved] at he
    rw [hpaths] at hp
    rw [hothers _ (h.ne_path (h.mem_names hp))]
    exact h.present e he hp

/-- Retention applied after each rotation keeps what retention applied once at the end would. -/
theorem drop_surplus_snoc (retention : Nat) (names : List Bytes) (target : Bytes) :
    (names.drop (surplus retention names.length) ++ [target]).drop
        (surplus retention ((names.drop (surplus retention names.length)).length + 1)) =
      (names ++ [target]).drop (surplus retention (names ++ [target]).length) := by
  have hle : surplus retention names.length ≤ names.length := by
    unfold surplus
    split <;> omega
  rw [← List.drop_append_of_le_length hle, List.drop_drop]
  congr 1
  rw [List.length_drop, List.length_append, List.length_singleton]
  unfold surplus at *
  split <;> omega

section Turn

variable {path target : Bytes} {w w' : World} {unlink : Bytes → Bool} {now : Int} {tm : Tm} (h : Kept path w)
include h

theorem Kept.target_fresh (htarget : target = rotationText path tm (w.names.length + 1)) : target ∉ w.names := by
  intro hmem
  obtain ⟨tm', n, heq, hn⟩ := h.named target hmem
  have := rotationText_sequence (htarget.symm.trans heq)
  omega

theorem Kept.rotatedPaths_turned (hturned : OnlyHandles (w.sink.turned target now) w'.sink)
    (hnames : w'.names = w.names ++ [target]) :
    w'.sink.rotatedPaths = w'.names.drop (surplus w'.sink.retentionFiles w'.names.length) := by
  rw [hturned, hnames]
  change (w.sink.rotatedPaths ++ [target]).drop _ = (w.names ++ [target]).drop (surplus w.sink.retentionFiles _)
  rw [h.rotatedPaths]
  exact drop_surplus_snoc _ _ _

/-- Of the paths before the rotation and the new one, those that stay are the ones not dropped. -/
theorem Kept.mem_turned (htarget : target = rotationText path tm (w.names.length + 1))
    (hturned : OnlyHandles (w.sink.turned target now) w'.sink) (p : Bytes) :
    p ∈ w'.sink.rotatedPaths ↔ p ∈ w.sink.rotatedPaths ++ [target] ∧ p ∉ w.sink.dropped target := by
  have hnodup : (w.sink.rotatedPaths ++ [target]).Nodup := by
    rw [List.nodup_append]
    refine ⟨?_, List.nodup_singleton _, ?_⟩
    · rw [h.rotatedPaths]
      exact h.nodup.sublist (List.drop_sublist _ _)
    · intro a ha b hb heq
      rw [heq, List.mem_singleton.1 hb] at ha
      exact h.target_fresh htarget (h.mem_names ha)
  have hpaths : w'.sink.rotatedPaths = (w.sink.rotatedPaths ++ [target]).drop
      (surplus w.sink.retentionFiles (w.sink.rotatedPaths.length + 1)) := by rw [hturned]; rfl
  rw [hpaths, FileSink.dropped]
  have hsplit := List.take_append_drop (surplus w.sink.retentionFiles (w.sink.rotatedPaths.length + 1))
    (w.sink.rotatedPaths ++ [target])
  constructor
  · intro hp
    refine ⟨List.mem_of_mem_drop hp, fun htake => ?_⟩
    rw [← hsplit, List.nodup_append] at hnodup
    exact hnodup.2.2 p htake p hp rfl
  · rintro ⟨hp, hdropped⟩
    rw [← hsplit] at hp
    exact (List.mem_append.1 hp).resolve_left hdropped

theorem Kept.turn (hroom : w.names.length + 1 < wordSize) (htarget : target = rotationText path tm (w.names.length + 1))
    (hmoves : MovesAway path target (w.sink.dropped target) unlink w w')
    (hturned : OnlyHandles (w.sink.turned target now) w'.sink) : Kept path w' := by
  have hnames := hmoves.names
  have hfresh := h.target_fresh htarget
  refine ⟨?_, ?_, ?_, h.rotatedPaths_turned hturned hnames, ?_⟩
  · rw [hturned, hnames, List.length_append]
    change (w.sink.rotationSequence + 1) % wordSize = _
    rw [h.sequence, Nat.mod_eq_of_lt hroom]
    rfl
  · intro p hp
    rw [hnames] at hp ⊢
    rw [List.length_append, List.length_singleton]
    rcases List.mem_append.1 hp with hp | hp
    · obtain ⟨tm', n, rfl, hn⟩ := h.named p hp
      exact ⟨tm', n, rfl, by omega⟩
    · exact ⟨tm, _, (List.mem_singleton.1 hp).trans htarget, le_refl _⟩
  · rw [hnames, List.nodup_append]
    refine ⟨h.nodup, List.nodup_singleton _, fun a ha b hb heq => ?_⟩
    rw [heq, List.mem_singleton.1 hb] at ha
    exact hfresh ha
  · intro e he hp
    obtain ⟨hp, hdropped⟩ := (h.mem_turned htarget hturned e.1).1 hp
    have hne : e.1 ≠ path := by
      rcases List.mem_append.1 hp with hp | hp
      · exact h.ne_path (h.mem_names hp)
      · rw [List.mem_singleton.1 hp, htarget]
        intro heq
        exact Nat.lt_irrefl _ (heq ▸ length_lt_rotationText path tm (w.names.length + 1))
    rw [hmoves.files e.1 hne, if_neg (fun hgone => hdropped hgone.1)]
    rw [hmoves.moved] at he
    rcases List.mem_append.1 he with he | he
    · -- an older file: the rename did not touch it
      have hold : e.1 ≠ target := by
        intro heq
        exact hfresh (heq ▸ List.mem_map_of_mem he)
      rw [if_neg hold]
      refine h.present e he ?_
      rcases List.mem_append.1 hp with hp | hp
      · exact hp
      · exact absurd (List.mem_singleton.1 hp) hold
    · rw [List.mem_singleton.1 he, if_pos rfl]

end Turn

/-! ## Runs -/

/-- A call on an open sink, with the answers of the system. -/
inductive SinkCall where
  | write (os : WriteOs) (payload : Bytes)
  | flush (answer : FlushAnswer)

/-- The sink, the disk, and the payloads whose write returned `ok`. -/
structure Store where
  world : World
  written : List Bytes

def Store.step (s : Store) : SinkCall → Store
  | .write os payload =>
    let out := fileSinkWrite os s.world.sink payload
    ⟨s.world.after out, if out.status = .ok then s.written ++ [payload] else s.written⟩
  | .flush answer => ⟨s.world.after (fileSinkFlush answer s.world.sink), s.written⟩

/-- The settings that `ij_logger_init` stores once the sink is open. -/
structure RotationSettings where
  rotateBytes : Nat
  rotateIntervalSeconds : Nat
  retentionFiles : Nat

def FileSink.configure (sink : FileSink) (settings : RotationSettings) : FileSink :=
  { sink with
    rotateBytes := settings.rotateBytes
    rotateIntervalSeconds := settings.rotateIntervalSeconds
    retentionFiles := settings.retentionFiles }

def Store.opened (os : OpenOs) (sink : FileSink) (path : Bytes) (settings : RotationSettings) (d : Disk) : Store :=
  let out := fileSinkOpen os sink (some path)
  ⟨⟨out.state.configure settings, d.run out.effects⟩, []⟩

/-- Every system call and allocation of a write succeeds but for those on a ring, whichever of them it makes. -/
structure WriteOs.Serves (os : WriteOs) (payload : Bytes) : Prop where
  gmtime : (gmtimeR os.nameNow).isSome = true
  flush : os.flush = .ok
  close : os.close = .ok
  rename : os.rename = true
  record : os.record = true
  unlink : ∀ p, os.unlink p = true
  syncOpen : os.syncOpen.isSome = true
  uringOpen : ∃ ring fd, os.uringOpen = .opened ring fd
  fwrite : os.fwrite.count = payload.length

/-- Every system call and allocation of a write succeeds, whichever of them it makes. -/
structure WriteOs.Succeeds (os : WriteOs) (payload : Bytes) : Prop extends os.Serves payload where
  uring : os.uring.ends = .completed payload.length

def SinkCall.Succeeds : SinkCall → Prop
  | .write os payload => payload ≠ [] ∧ os.Succeeds payload
  | .flush answer => answer = .ok

def SinkCall.payloads : SinkCall → List Bytes
  | .write _ payload => [payload]
  | .flush _ => []

section Steps

variable {path payload : Bytes} {w : World} {os : WriteOs}

theorem reopens_serves (hos : os.Serves payload) (sink : FileSink) : sink.Reopens os.syncOpen os.uringOpen := by
  unfold FileSink.Reopens
  split
  · exact hos.uringOpen
  · exact hos.syncOpen

theorem takes_succeeds (hos : os.Succeeds payload) (sink : FileSink) :
    sink.Takes os.fwrite os.uring payload ↔ sink.accepts payload = true := by
  unfold FileSink.Takes FileSink.accepts
  cases sink.usesUring with
  | false => simp [hos.fwrite]
  | true => simp [hos.uring]

theorem rotate_serves (hos : os.Serves payload) (h : w.Open path) {target : Bytes}
    (hname : fileSinkMakeRotationPath w.sink os.nameNow rotationBufferSize = .ok target) {mid : Out FileSink}
    (hmid : RotateResult path os.toRotateOs w mid) :
    mid.status = .ok ∧ (w.after mid).Ready path ∧
      MovesAway path target (w.sink.dropped target) os.unlink w (w.after mid) ∧
      OnlyHandles (w.sink.turned target os.rotatedNow) mid.state := by
  cases hmid with
  | unnamed name same => exact absurd hname (name _)
  | unflushed name flush same => exact absurd ((opsFlush_ok_iff h _).2 (.inr hos.flush)) flush
  | stranded name flush fails => exact absurd ⟨hos.rename, hos.record, reopens_serves hos _⟩ fails
  | rotated name flush succeeds status ready fresh moves turned =>
    rw [hname] at name
    cases name
    exact ⟨status, ready, moves, turned⟩

end Steps

/-- The settings that no call changes. -/
structure SameSettings (base sink : FileSink) : Prop where
  rotateBytes : sink.rotateBytes = base.rotateBytes
  retentionFiles : sink.retentionFiles = base.retentionFiles
  activeBackend : sink.activeBackend = base.activeBackend

theorem SameSettings.of_handles {base s s' : FileSink} (h : SameSettings base s) (hs : OnlyHandles s s') :
    SameSettings base s' := by
  rw [hs]
  exact ⟨h.rotateBytes, h.retentionFiles, h.activeBackend⟩

theorem SameSettings.accepts {base sink : FileSink} (h : SameSettings base sink) : sink.accepts = base.accepts := by
  funext payload
  simp only [FileSink.accepts, FileSink.usesUring, h.activeBackend]

/-- What holds in every state of the store, for a log of the payloads written. -/
structure Store.Sound (path : Bytes) (base : FileSink) (s : Store) (log : SegmentedLog Bytes) : Prop where
  ready : s.world.Ready path
  settings : SameSettings base s.world.sink
  holds : Holds id path s.world log
  written : log.records = s.written
  kept : Kept path s.world
  only : ∀ p, path ++ ascii "." <+: p → (s.world.disk.files p).isSome = true → p ∈ s.world.sink.rotatedPaths
  count : s.world.sink.bytesWritten = log.active.flatten.length
  nonempty : ∀ payload ∈ log.records, payload ≠ []
  rotations : ∀ file ∈ log.closed, file ≠ []
  bounded : 0 < base.rotateBytes → log.Bounded List.length base.rotateBytes

theorem ne_of_dotted {path p : Bytes} (h : path ++ ascii "." <+: p) : p ≠ path := by
  rintro rfl
  have hlen := h.length_le
  have hdot : (ascii ".").length = 1 := rfl
  rw [List.length_append, hdot] at hlen
  omega

theorem Store.Sound.rotations_le {path : Bytes} {base : FileSink} {s : Store} {log : SegmentedLog Bytes}
    (h : s.Sound path base log) : s.world.names.length + log.active.flatten.length ≤ s.written.flatten.length := by
  have hnames : s.world.names.length = log.closed.length := by
    have := congrArg List.length h.holds.moved
    rwa [List.length_map, List.length_map, ← List.length_map (f := Prod.fst)] at this
  have hle : ∀ closed : List (List Bytes), (∀ file ∈ closed, file ≠ []) → (∀ p ∈ closed.flatten, p ≠ []) →
      closed.length ≤ closed.flatten.flatten.length := by
    intro closed
    induction closed with
    | nil => exact fun _ _ => le_refl _
    | cons file closed ih =>
      intro hfiles hpayloads
      have hrest := ih (fun f hf => hfiles f (List.mem_cons_of_mem _ hf))
        (fun p hp => hpayloads p (List.mem_append_right _ hp))
      obtain ⟨p, ps, hfile⟩ := List.exists_cons_of_ne_nil (hfiles file List.mem_cons_self)
      have hp : p ≠ [] := hpayloads p (List.mem_append_left _ (by rw [hfile]; exact List.mem_cons_self))
      have hpos := List.length_pos_iff.2 hp
      rw [List.flatten_cons, List.flatten_append, List.length_append, List.length_cons, hfile, List.flatten_cons,
        List.length_append]
      omega
  have := hle log.closed h.rotations (fun p hp => h.nonempty p (List.mem_append_left _ hp))
  rw [hnames, ← h.written, SegmentedLog.records, List.flatten_append, List.length_append]
  omega

theorem Store.Sound.active_nil {path : Bytes} {base : FileSink} {s : Store} {log : SegmentedLog Bytes}
    (h : s.Sound path base log) (hzero : log.active.flatten.length = 0) : log.active = [] := by
  cases hactive : log.active with
  | nil => rfl
  | cons p ps =>
    have hp : p ≠ [] := h.nonempty p (List.mem_append_right _ (by rw [hactive]; exact List.mem_cons_self))
    have hpos := List.length_pos_iff.2 hp
    rw [hactive, List.flatten_cons, List.length_append] at hzero
    omega

section Sound

variable {path payload : Bytes} {base : FileSink} {s : Store} {log : SegmentedLog Bytes} (h : s.Sound path base log)
include h

theorem Store.Sound.appends_nil {w' : World} (happ : Appends path [] s.world w') (hsettled : w'.sink.Settled) :
    Store.Sound path base ⟨w', s.written⟩ log := by
  have hhandles := happ.handles
  refine ⟨⟨happ.opened, hsettled⟩, h.settings.of_handles hhandles, ?_, h.written, ?_, ?_, ?_, h.nonempty, h.rotations, h.bounded⟩
  · exact h.holds.congr (happ.active.trans (List.append_nil _)) happ.moved
  · exact h.kept.congr happ.moved happ.others (by rw [hhandles]) (by rw [hhandles]) (by rw [hhandles])
  · intro p hp hsome
    rw [happ.others p (ne_of_dotted hp)] at hsome
    rw [hhandles]
    exact h.only p hp hsome
  · rw [hhandles]
    exact h.count

theorem Store.Sound.wrote {w' : World} {status : Status} (hw : Wrote path payload status s.world w')
    (hsettled : w'.sink.Settled)
    (hstatus : status = .ok ↔ s.world.sink.accepts payload = true) (hne : payload ≠ [])
    (hroom : log.active.flatten.length + payload.length < wordSize)
    (hfits : 0 < base.rotateBytes → log.active = [] ∨ log.active.flatten.length + payload.length ≤ base.rotateBytes) :
    ∃ log', Store.Sound path base ⟨w', if status = .ok then s.written ++ [payload] else s.written⟩ log' := by
  obtain ⟨taken, hactive, -, hok, hrejected⟩ := hw.taken h.ready.settled
  have hhandles := hw.handles
  by_cases hs : status = .ok
  · refine ⟨log.append payload, ?_⟩
    rw [if_pos hs] at hhandles ⊢
    have hsettings : SameSettings base
        { s.world.sink with bytesWritten := (s.world.sink.bytesWritten + payload.length) % wordSize } :=
      ⟨h.settings.rotateBytes, h.settings.retentionFiles, h.settings.activeBackend⟩
    refine ⟨⟨hw.opened, hsettled⟩, hsettings.of_handles hhandles, ?_, ?_, ?_, ?_, ?_, ?_, h.rotations, ?_⟩
    · exact h.holds.append (by rw [hactive, hok hs]; rfl) hw.moved
    · rw [SegmentedLog.records_append, h.written]
    · exact h.kept.congr hw.moved hw.others (by rw [hhandles]) (by rw [hhandles]) (by rw [hhandles])
    · intro p hp hsome
      rw [hw.others p (ne_of_dotted hp)] at hsome
      rw [hhandles]
      exact h.only p hp hsome
    · have hcount : w'.sink.bytesWritten = (s.world.sink.bytesWritten + payload.length) % wordSize := by rw [hhandles]
      rw [hcount, h.count, Nat.mod_eq_of_lt hroom, SegmentedLog.append, List.flatten_append, List.length_append]
      simp
    · intro q hq
      rw [SegmentedLog.records_append] at hq
      rcases List.mem_append.1 hq with hq | hq
      · exact h.nonempty q hq
      · rw [List.mem_singleton.1 hq]
        exact hne
    · intro hpos
      refine (h.bounded hpos).append ((hfits hpos).imp_right fun hle => ?_)
      rw [← List.length_flatten]
      exact hle
  · have hnone : taken = [] := hrejected (by simpa using mt hstatus.2 hs)
    rw [if_neg hs] at hhandles ⊢
    refine ⟨log, h.appends_nil ⟨⟨hw.opened, hhandles, hw.others, hw.moved⟩, ?_⟩ hsettled⟩
    rw [hactive, hnone]

theorem Store.Sound.rotated {w' : World} {target : Bytes} {unlink : Bytes → Bool} {now : Int} {tm : Tm}
    (hready : w'.Ready path) (htarget : target = rotationText path tm (s.world.names.length + 1))
    (hmoves : MovesAway path target (s.world.sink.dropped target) unlink s.world w')
    (hunlink : ∀ p, unlink p = true) (hturned : OnlyHandles (s.world.sink.turned target now) w'.sink)
    (hroom : s.world.names.length + 1 < wordSize) (hactive : log.active ≠ []) :
    Store.Sound path base ⟨w', s.written⟩ log.rotate := by
  have hsettings : SameSettings base (s.world.sink.turned target now) :=
    ⟨h.settings.rotateBytes, h.settings.retentionFiles, h.settings.activeBackend⟩
  refine ⟨hready, hsettings.of_handles hturned, h.holds.rotate hmoves, ?_, h.kept.turn hroom htarget hmoves hturned, ?_,
    ?_, ?_, ?_, fun hpos => (h.bounded hpos).rotate⟩
  · rw [SegmentedLog.records_rotate]
    exact h.written
  · intro p hp hsome
    rw [hmoves.files p (ne_of_dotted hp)] at hsome
    rw [h.kept.mem_turned htarget hturned]
    split at hsome
    · cases hsome
    · rename_i hgone
      refine ⟨?_, fun hdropped => hgone ⟨hdropped, hunlink p⟩⟩
      split at hsome
      · rename_i heq
        exact List.mem_append_right _ (List.mem_singleton.2 heq)
      · exact List.mem_append_left _ (h.only p hp hsome)
  · rw [hturned]
    rfl
  · rw [SegmentedLog.records_rotate]
    exact h.nonempty
  · intro file hfile
    rcases List.mem_append.1 hfile with hfile | hfile
    · exact h.rotations file hfile
    · rw [List.mem_singleton.1 hfile]
      exact hactive

end Sound

theorem bytesWritten_pos_of_due {sink : FileSink} {len : Nat} {now : Int} (h : fileSinkRotationDue sink len now = true) :
    0 < sink.bytesWritten := by
  unfold fileSinkRotationDue at h
  split at h
  · cases h
  · split at h
    · rename_i hbytes
      exact hbytes.2.1
    · exact (of_decide_eq_true h).2.1

theorem fits_of_not_due {path : Bytes} {sink : FileSink} (hopen : sink.IsOpen path) {len : Nat} {now : Int}
    (h : fileSinkRotationDue sink len now = false) (hpos : 0 < sink.rotateBytes) :
    sink.bytesWritten = 0 ∨ (sink.bytesWritten + len) % wordSize ≤ sink.rotateBytes := by
  unfold fileSinkRotationDue at h
  split at h
  · rename_i hclosed
    rcases hopen.backend with ⟨hsync, hstream⟩ | ⟨huring, -, hfd, -⟩
    · rcases hclosed with ⟨-, hnone⟩ | ⟨hring, -⟩
      · rw [hnone] at hstream
        cases hstream
      · rw [hsync] at hring
        cases hring
    · rcases hclosed with ⟨hsync, -⟩ | ⟨-, hneg⟩
      · rw [huring] at hsync
        cases hsync
      · omega
  · split at h
    · cases h
    · omega

section Run

variable {path : Bytes} {base : FileSink} {s : Store} {log : SegmentedLog Bytes}

theorem Store.Sound.step_write (h : s.Sound path base log) (hfits : Fits path) {os : WriteOs} {payload : Bytes}
    (hne : payload ≠ []) (hos : os.Succeeds payload)
    (hroom : s.written.flatten.length + payload.length < wordSize) :
    (∃ log', (s.step (.write os payload)).Sound path base log') ∧
      (s.step (.write os payload)).written = s.written ++ [payload].filter base.accepts := by
  have hcount := h.rotations_le
  have hpayload := List.length_pos_iff.2 hne
  have hwritten : ∀ status : Status, (status = .ok ↔ base.accepts payload = true) →
      (if status = .ok then s.written ++ [payload] else s.written) = s.written ++ [payload].filter base.accepts := by
    intro status hstatus
    cases hb : base.accepts payload with
    | true => rw [if_pos (hstatus.2 hb), List.filter_cons_of_pos hb, List.filter_nil]
    | false =>
      have hbad : ¬status = .ok := fun hok => by rw [hstatus.1 hok] at hb; cases hb
      rw [if_neg hbad, List.filter_cons_of_neg (by rw [hb]; exact Bool.false_ne_true), List.filter_nil, List.append_nil]
  obtain ⟨tm, htm⟩ := Option.isSome_iff_exists.1 hos.gmtime
  have hname := fileSinkMakeRotationPath_fits h.ready.isOpen.path hfits htm
  have hsettled : (s.world.after (fileSinkWrite os s.world.sink payload)).sink.Settled :=
    fileSinkWrite_settled h.ready hne fun _ ⟨_, _, n, hfailed⟩ => by
      rw [hos.uring] at hfailed
      cases hfailed
  cases fileSinkWrite_result h.ready.toOpen os hne with
  | kept due wrote status fresh =>
    have hstatus : (fileSinkWrite os s.world.sink payload).status = .ok ↔ s.world.sink.accepts payload = true := by
      rw [status, opsWrite_ok_iff h.ready.toOpen os.fwrite os.uring hne]
      exact takes_succeeds hos _
    refine ⟨h.wrote wrote hsettled hstatus hne (by omega) fun hpos => ?_, hwritten _ (by rw [hstatus, h.settings.accepts])⟩
    have hdue := fits_of_not_due h.ready.isOpen due (by rw [h.settings.rotateBytes]; exact hpos)
    rw [h.count, h.settings.rotateBytes, Nat.mod_eq_of_lt (by omega)] at hdue
    exact hdue.imp_left h.active_nil
  | failed due status rotate =>
    exact absurd (rotate_serves hos.toServes h.ready.toOpen hname rotate).1 status
  | @rotated mid due ok rotate wrote status fresh =>
    obtain ⟨-, hready, hmoves, hturned⟩ := rotate_serves hos.toServes h.ready.toOpen hname rotate
    have hsequence : (s.world.sink.rotationSequence + 1) % wordSize = s.world.names.length + 1 := by
      rw [h.kept.sequence, Nat.mod_eq_of_lt (by omega)]
    rw [hsequence] at hmoves hturned
    have hactive : log.active ≠ [] := by
      intro hnil
      have hpos := bytesWritten_pos_of_due due
      rw [h.count, hnil] at hpos
      exact absurd hpos (Nat.lt_irrefl 0)
    have hsound := h.rotated hready rfl hmoves hos.unlink hturned (by omega) hactive
    have hstatus : (fileSinkWrite os s.world.sink payload).status = .ok ↔ mid.state.accepts payload = true := by
      rw [status]
      exact (opsWrite_ok_iff hready.toOpen os.fwrite os.uring hne).trans (takes_succeeds hos _)
    have hempty : log.rotate.active.flatten.length = 0 := rfl
    exact ⟨hsound.wrote wrote hsettled hstatus hne (by omega) (fun _ => .inl rfl),
      hwritten _ (hstatus.trans (by rw [← hsound.settings.accepts]; rfl))⟩

theorem Store.Sound.step_flush (h : s.Sound path base log) :
    (s.step (.flush .ok)).Sound path base log := by
  have hok := (opsFlush_ok_iff h.ready.toOpen .ok).2 (.inr rfl)
  exact h.appends_nil ((opsFlush_appends h.ready.toOpen .ok).1 hok).1 (opsFlush_settled h.ready.settled .ok)

theorem Store.opened_ready {os : OpenOs} {sink : FileSink} (hne : path ≠ [])
    (hopen : (fileSinkOpen os sink (some path)).status = .ok) (settings : RotationSettings) (d : Disk) :
    (Store.opened os sink path settings d).world.Ready path := by
  rcases fileSinkOpen_result os sink hne d with ⟨-, hopened, -⟩ | ⟨hbad, -⟩
  · refine ⟨⟨⟨hopened.isOpen.path, hopened.isOpen.backend⟩, ?_⟩, hopened.settled⟩
    rw [show (Store.opened os sink path settings d).world.disk = d.apply (.create path) from hopened.disk, Disk.apply,
      Disk.set_files_self]
    rfl
  · exact absurd hopen hbad

theorem Store.opened_kept {os : OpenOs} {sink : FileSink} (hne : path ≠ [])
    (hopen : (fileSinkOpen os sink (some path)).status = .ok) (settings : RotationSettings) {d : Disk}
    (hmoved : d.moved = []) : Kept path (Store.opened os sink path settings d).world ∧
      (Store.opened os sink path settings d).world.disk.moved = [] := by
  rcases fileSinkOpen_result os sink hne d with ⟨-, hopened, -, hsequence⟩ | ⟨hbad, -⟩
  swap
  · exact absurd hopen hbad
  have hmoved' : (Store.opened os sink path settings d).world.disk.moved = [] := by
    have hdisk : (Store.opened os sink path settings d).world.disk = d.apply (.create path) := hopened.disk
    rw [hdisk]
    exact hmoved
  have hnames : (Store.opened os sink path settings d).world.names = [] := by
    rw [World.names, hmoved']
    rfl
  refine ⟨⟨?_, ?_, ?_, ?_, ?_⟩, hmoved'⟩
  · rw [hnames]
    exact hsequence
  · rw [hnames]
    exact fun p hp => absurd hp List.not_mem_nil
  · rw [hnames]
    exact List.nodup_nil
  · rw [hnames, List.drop_nil]
    exact hopened.rotatedPaths
  · intro e he
    rw [hmoved'] at he
    exact absurd he List.not_mem_nil

theorem Store.opened_active {os : OpenOs} {sink : FileSink} (hne : path ≠ [])
    (hopen : (fileSinkOpen os sink (some path)).status = .ok) (settings : RotationSettings) (d : Disk) :
    (Store.opened os sink path settings d).world.active path = d.contents path := by
  rcases fileSinkOpen_result os sink hne d with ⟨-, hopened, -, -⟩ | ⟨hbad, -⟩
  · have hdisk : (Store.opened os sink path settings d).world.disk = d.apply (.create path) := hopened.disk
    have hpending : (Store.opened os sink path settings d).world.sink.pending = [] := hopened.pending
    rw [World.active, hpending, hdisk, List.append_nil, Disk.contents, Disk.apply, Disk.set_files_self, Option.getD_some]
  · exact absurd hopen hbad

theorem Store.opened_sound {os : OpenOs} {sink : FileSink} (hne : path ≠ [])
    (hopen : (fileSinkOpen os sink (some path)).status = .ok) (settings : RotationSettings) {d : Disk}
    (hactive : d.contents path = []) (hdir : ∀ p, path ++ ascii "." <+: p → d.files p = none) (hmoved : d.moved = []) :
    (Store.opened os sink path settings d).Sound path (Store.opened os sink path settings d).world.sink .empty := by
  obtain ⟨hkept, hmoved'⟩ := Store.opened_kept hne hopen settings hmoved
  refine ⟨Store.opened_ready hne hopen settings d, ⟨rfl, rfl, rfl⟩, ⟨?_, ?_⟩, rfl, hkept, ?_, ?_,
    fun p hp => absurd hp List.not_mem_nil, fun f hf => absurd hf List.not_mem_nil, fun _ => SegmentedLog.bounded_empty⟩
  · rw [Store.opened_active hne hopen settings d, hactive]
    rfl
  · rw [hmoved']
    rfl
  · intro p hp hsome
    rcases fileSinkOpen_result os sink hne d with ⟨-, hopened, -, -⟩ | ⟨hbad, -⟩
    · have hdisk : (Store.opened os sink path settings d).world.disk = d.apply (.create path) := hopened.disk
      rw [hdisk, Disk.apply, Disk.set_files_other _ (ne_of_dotted hp), hdir p hp] at hsome
      cases hsome
    · exact absurd hopen hbad
  · rcases fileSinkOpen_result os sink hne d with ⟨-, -, hbytes, -⟩ | ⟨hbad, -⟩
    · exact hbytes
    · exact absurd hopen hbad

/-- The state of a rotating store after the payloads in `submitted`. -/
structure IsRotatingStore (path : Bytes) (settings : RotationSettings) (submitted : List Bytes) (w : World) : Prop where
  /-- The files in the order of their rotation, then the active one, hold the payloads in order,
  each in one file; with a limit, a file larger than it holds one payload. -/
  log : ∃ log : SegmentedLog Bytes, log.records = submitted.filter w.sink.accepts ∧
    w.disk.moved.map Prod.snd = log.closed.map List.flatten ∧ w.active path = log.active.flatten ∧
    (0 < settings.rotateBytes →
      ∀ file ∈ log.files, file.flatten.length ≤ settings.rotateBytes ∨ file.length = 1)
  /-- The names of the rotated files are all different. -/
  nodup : w.names.Nodup
  /-- The list of paths has the newest names, oldest first. -/
  rotatedPaths : w.sink.rotatedPaths = w.names.rtake
    (if settings.retentionFiles = 0 then w.names.length else min w.names.length settings.retentionFiles)
  /-- Exactly these files are in the directory. -/
  present : ∀ p, path ++ ascii "." <+: p → ((w.disk.files p).isSome = true ↔ p ∈ w.sink.rotatedPaths)
  /-- Each has the contents it was rotated with. -/
  contents : ∀ e ∈ w.disk.moved, e.1 ∈ w.sink.rotatedPaths → w.disk.files e.1 = some e.2
  active : (w.disk.files path).isSome = true ∧ path ∉ w.sink.rotatedPaths

theorem drop_surplus_eq_rtake (retention : Nat) (names : List Bytes) :
    names.drop (surplus retention names.length) =
      names.rtake (if retention = 0 then names.length else min names.length retention) := by
  rw [List.rtake]
  congr 1
  unfold surplus
  split <;> split <;> omega

theorem Store.Sound.isRotatingStore (h : s.Sound path base log) {settings : RotationSettings}
    (hrotate : base.rotateBytes = settings.rotateBytes) (hretention : base.retentionFiles = settings.retentionFiles)
    {submitted : List Bytes} (hwritten : s.written = submitted.filter base.accepts) :
    IsRotatingStore path settings submitted s.world := by
  refine ⟨⟨log, ?_, ?_, ?_, fun hpos file hfile => ?_⟩, h.kept.nodup, ?_, fun p hp => ⟨h.only p hp, fun hmem => ?_⟩,
    h.kept.present, h.ready.file, fun hmem => h.kept.ne_path (h.kept.mem_names hmem) rfl⟩
  · rw [h.settings.accepts, h.written, hwritten]
  · simpa using h.holds.moved
  · simpa using h.holds.active
  · rw [List.length_flatten, ← hrotate]
    exact h.bounded (hrotate ▸ hpos) file hfile
  · rw [← drop_surplus_eq_rtake, ← hretention, ← h.settings.retentionFiles]
    exact h.kept.rotatedPaths
  · obtain ⟨e, he, rfl⟩ := List.mem_map.1 (h.kept.mem_names hmem)
    rw [h.kept.present e he hmem]
    rfl

end Run

/-- A sink opened on a missing or empty file, in a directory without rotated files of it, is a
rotating store after every sequence of writes and flushes whose system calls succeed. -/
theorem rotatingStore_run {path : Bytes} (hne : path ≠ []) (hfits : Fits path) {d : Disk} (hactive : d.contents path = [])
    (hdir : ∀ p, path ++ ascii "." <+: p → d.files p = none) (hmoved : d.moved = []) (os : OpenOs) (sink : FileSink)
    (hopen : (fileSinkOpen os sink (some path)).status = .ok) (settings : RotationSettings) (calls : List SinkCall)
    (hcalls : ∀ c ∈ calls, c.Succeeds) (htotal : (calls.flatMap SinkCall.payloads).flatten.length < wordSize) :
    IsRotatingStore path settings (calls.flatMap SinkCall.payloads)
        (Machine.run Store.step (Store.opened os sink path settings d) calls).world ∧
      (Machine.run Store.step (Store.opened os sink path settings d) calls).written =
        (calls.flatMap SinkCall.payloads).filter
          (Machine.run Store.step (Store.opened os sink path settings d) calls).world.sink.accepts := by
  have halong : Machine.Along Store.step (fun _ c => c.Succeeds) (Store.opened os sink path settings d) calls :=
    Machine.along_of_forall hcalls
  have hrun := Machine.Along.induction
    (motive := fun calls s => (calls.flatMap SinkCall.payloads).flatten.length < wordSize →
      (∃ log, s.Sound path (Store.opened os sink path settings d).world.sink log) ∧
        s.written = (calls.flatMap SinkCall.payloads).filter (Store.opened os sink path settings d).world.sink.accepts)
    ?_ ?_ halong htotal
  · obtain ⟨⟨log, hsound⟩, hwritten⟩ := hrun
    refine ⟨hsound.isRotatingStore rfl rfl hwritten, ?_⟩
    rw [hwritten, hsound.settings.accepts]
  · exact fun _ => ⟨⟨_, Store.opened_sound hne hopen settings hactive hdir hmoved⟩, rfl⟩
  · intro calls call hcall ih hroom
    rw [List.flatMap_append, List.flatten_append, List.length_append] at hroom
    obtain ⟨⟨log, hsound⟩, hwritten⟩ := ih (by omega)
    rw [List.flatMap_append, List.filter_append, ← hwritten]
    cases call with
    | write answers payload =>
      have hle : (Machine.run Store.step (Store.opened os sink path settings d) calls).written.flatten.length ≤
          (calls.flatMap SinkCall.payloads).flatten.length := by
        rw [hwritten]
        exact (List.filter_sublist.flatten).length_le
      have hsize : ([SinkCall.write answers payload].flatMap SinkCall.payloads).flatten.length = payload.length := by
        simp [SinkCall.payloads]
      exact hsound.step_write hfits hcall.1 hcall.2 (by omega)
    | flush answer =>
      rw [show answer = .ok from hcall]
      exact ⟨⟨log, hsound.step_flush⟩, (List.append_nil _).symm⟩

/-- Answers with which everything succeeds. -/
def steadyOs (now : Int) (len : Nat) : WriteOs where
  nameNow := now
  flush := .ok
  close := .ok
  rename := true
  record := true
  rotatedNow := now
  unlink _ := true
  syncOpen := some 3
  uringOpen := .opened 4 5
  dueNow := now
  fwrite := ⟨len, 0⟩
  uring := ⟨.completed len, 0, []⟩

def steadyOpen (now : Int) : OpenOs := ⟨true, some 3, .opened 4 5, now⟩

def emptyDisk : Disk := ⟨fun _ => none, []⟩

/-- Files of three octets, of which one rotated one is kept. -/
theorem rotatingStore_run_small :
    IsRotatingStore (ascii "log") ⟨3, 0, 1⟩ [ascii "ab", ascii "cd", ascii "ef"]
      (Machine.run Store.step (Store.opened (steadyOpen 0) .zero (ascii "log") ⟨3, 0, 1⟩ emptyDisk)
        [.write (steadyOs 0 2) (ascii "ab"), .flush .ok, .write (steadyOs 5 2) (ascii "cd"),
          .write (steadyOs 5 2) (ascii "ef")]).world := by
  have hcalls : ∀ c ∈ [SinkCall.write (steadyOs 0 2) (ascii "ab"), .flush .ok, .write (steadyOs 5 2) (ascii "cd"),
      .write (steadyOs 5 2) (ascii "ef")], c.Succeeds := by
    have hwrite : ∀ now payload, (gmtimeR now).isSome = true → payload ≠ [] →
        (SinkCall.write (steadyOs now payload.length) payload).Succeeds :=
      fun now payload hnow hne => ⟨hne, ⟨hnow, rfl, rfl, rfl, rfl, fun _ => rfl, rfl, ⟨4, 5, rfl⟩, rfl⟩, rfl⟩
    intro c hc
    simp only [List.mem_cons, List.not_mem_nil, or_false] at hc
    rcases hc with rfl | rfl | rfl | rfl
    · exact hwrite 0 (ascii "ab") rfl (by decide)
    · rfl
    · exact hwrite 5 (ascii "cd") rfl (by decide)
    · exact hwrite 5 (ascii "ef") rfl (by decide)
  exact (rotatingStore_run (by decide) (fits_of_length (by decide)) rfl (fun _ _ => rfl) rfl _ _ (by decide) _ _ hcalls
    (by decide)).1

end IoJournal
