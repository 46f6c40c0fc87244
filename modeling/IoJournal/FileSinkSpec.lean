import IoJournal.FileSink

/-!
# IoJournal.FileSinkSpec

What the operations of the file sink do to the sink and to the disk, in terms of the octets of the
active file.

The active file is what has reached the disk followed by what waits in the stream
(`World.active`). Writing appends to it (`opsWrite_appends`), flushing leaves it as it is
(`opsFlush_appends`), a rotation that succeeds moves it away whole (`fileSinkRotate_rotates`), and
a rotation that fails either does nothing or leaves the sink closed (`fileSinkRotate_cases`).
-/

namespace IoJournal

open Wire Posix

/-- A sink and the disk it writes to. -/
structure World where
  sink : FileSink
  disk : Disk

def World.after (w : World) (out : Out FileSink) : World := ⟨out.state, w.disk.run out.effects⟩

/-- The octets that wait in the stream. -/
def FileSink.pending (sink : FileSink) : Bytes := (sink.stream.map (·.buffered)).getD []

/-- The sink has an open active file: a stream, or a descriptor with a ring. -/
structure FileSink.IsOpen (path : Bytes) (sink : FileSink) : Prop where
  path : sink.path = some path
  backend : sink.activeBackend = .sync ∧ sink.stream.isSome = true ∨
    sink.activeBackend = .ioUring ∧ sink.stream = none ∧ 0 ≤ sink.fd ∧ sink.uring.isSome = true

/-- The sink has a path but no open file. -/
structure FileSink.IsStranded (path : Bytes) (sink : FileSink) : Prop where
  path : sink.path = some path
  stream : sink.stream = none
  backend : sink.activeBackend = .sync ∨ sink.activeBackend = .ioUring ∧ sink.fd < 0 ∧ sink.uring = none

/-- The backend takes a payload of this length: an io_uring write has an `unsigned` length. -/
def FileSink.accepts (sink : FileSink) (payload : Bytes) : Bool :=
  !sink.usesUring || payload.length ≤ 4294967295

/-- The active file: the octets on disk, then those in the stream. -/
def World.active (path : Bytes) (w : World) : Bytes := w.disk.contents path ++ w.sink.pending

structure World.Open (path : Bytes) (w : World) : Prop where
  isOpen : w.sink.IsOpen path
  file : (w.disk.files path).isSome = true

/-- No request of a call that was broken off is in the ring. -/
def FileSink.Settled (sink : FileSink) : Prop := sink.usesUring = true → ∀ ring ∈ sink.uring, ring.left = []

theorem FileSink.settled_of_sync {sink : FileSink} (h : ¬sink.usesUring = true) : sink.Settled :=
  fun huring => absurd huring h

theorem FileSink.settled_of_none {sink : FileSink} (h : sink.uring = none) : sink.Settled := by
  intro _ ring hring
  rw [h] at hring
  cases hring

/-- What is written next is the next completion of the ring. -/
structure World.Ready (path : Bytes) (w : World) : Prop extends World.Open path w where
  settled : w.sink.Settled

def OnlyHandles (s s' : FileSink) : Prop := s' = { s with stream := s'.stream, fd := s'.fd, uring := s'.uring }

theorem OnlyHandles.refl (s : FileSink) : OnlyHandles s s := rfl

theorem OnlyHandles.rotationSequence {s s' : FileSink} (h : OnlyHandles s s') :
    s'.rotationSequence = s.rotationSequence := by rw [h]

theorem OnlyHandles.trans {s s' s'' : FileSink} (h : OnlyHandles s s') (h' : OnlyHandles s' s'') :
    OnlyHandles s s'' := by
  unfold OnlyHandles at *
  rw [h', h]

/-- The sink is still open, and nothing but its handles and the active file changed. -/
structure Touches (path : Bytes) (w w' : World) : Prop where
  opened : w'.Open path
  handles : OnlyHandles w.sink w'.sink
  others : ∀ p, p ≠ path → w'.disk.files p = w.disk.files p
  moved : w'.disk.moved = w.disk.moved

/-- `taken` was appended to the active file, and nothing else happened. -/
structure Appends (path taken : Bytes) (w w' : World) : Prop extends Touches path w w' where
  active : w'.active path = w.active path ++ taken

theorem Appends.refl {path : Bytes} {w : World} (h : w.Open path) : Appends path [] w w where
  opened := h
  handles := .refl _
  active := (List.append_nil _).symm
  others _ _ := rfl
  moved := rfl

theorem UringWrite.leaves_settled {answer : UringWrite} {ring : IoUring} (h : ring.left = [])
    (hwhole : ∀ n, answer.ends ≠ .failed n) (payload : Bytes) : (answer.leaves ring payload).left = [] := by
  simp only [UringWrite.leaves, h]
  split
  · exact h
  · rename_i n hends
    exact absurd hends (hwhole n)
  · rw [List.length_nil, Nat.min_zero]
    rfl

theorem UringWrite.drain_prefix {answer : UringWrite} {ring : IoUring} (h : ring.left = []) (payload : Bytes) :
    (answer.drain ring payload).2 <+: payload := by
  simp only [UringWrite.drain, h, if_true]
  split
  · exact List.nil_prefix
  · exact List.take_prefix _ _
  · exact List.take_prefix _ _

section Backend

variable {path : Bytes} {w : World} (h : w.Open path)
include h

theorem file_eq : w.sink.file = path := by rw [FileSink.file, h.isOpen.path, Option.getD_some]

/-- Octets that move from the stream to the disk, with some taken in between. -/
theorem appends_of_spill (sink : FileSink) (spilled taken : Bytes) (hopen : sink.IsOpen path)
    (hhandles : OnlyHandles w.sink sink) (hsplit : spilled ++ sink.pending = w.sink.pending ++ taken) :
    Appends path taken w ⟨sink, w.disk.apply (.append path spilled)⟩ := by
  obtain ⟨c, hc⟩ := Option.isSome_iff_exists.1 h.file
  have hfile : (w.disk.apply (.append path spilled)).files path = some (c ++ spilled) := by
    rw [Disk.apply, Disk.set_files_self, hc, Option.map_some]
  refine ⟨⟨⟨hopen, by rw [hfile]; rfl⟩, hhandles, fun p hp => Disk.set_files_other _ hp _, rfl⟩, ?_⟩
  rw [World.active, World.active, Disk.contents, Disk.contents, hfile, hc, Option.getD_some, Option.getD_some,
    List.append_assoc, hsplit, List.append_assoc]

theorem syncWrite_appends (hsync : w.sink.activeBackend = .sync) {stream : Stream} (hs : w.sink.stream = some stream)
    (fwrite : FwriteAnswer) {payload : Bytes} (hne : payload ≠ []) :
    Appends path (payload.take fwrite.count) w (w.after (fileSinkSyncWrite fwrite w.sink payload)) ∧
      ((fileSinkSyncWrite fwrite w.sink payload).status = .ok ↔ payload.length ≤ fwrite.count) := by
  have hlen : payload.length ≠ 0 := by simpa using hne
  have happ := appends_of_spill h
    { w.sink with
      stream := some { stream with buffered := (stream.buffered ++ payload.take fwrite.count).drop fwrite.spill } }
    ((stream.buffered ++ payload.take fwrite.count).take fwrite.spill) (payload.take fwrite.count)
    ⟨h.isOpen.path, .inl ⟨hsync, rfl⟩⟩ rfl (by simp [FileSink.pending, hs])
  have hfile : ∀ s, FileSink.file { w.sink with stream := s } = path := fun _ => file_eq h
  simp only [fileSinkSyncWrite, hs, if_neg hlen, hfile]
  split
  · rename_i hshort
    exact ⟨happ, fun hok => (by cases hok), fun hle => (by omega)⟩
  · rename_i hfull
    exact ⟨happ, fun _ => Nat.not_lt.1 hfull, fun _ => rfl⟩

theorem uringWrite_appends (huring : w.sink.activeBackend = .ioUring) (hstream : w.sink.stream = none)
    (hfd : 0 ≤ w.sink.fd) {ring : IoUring} (hring : w.sink.uring = some ring) (answer : UringWrite) {payload : Bytes} :
    ∃ taken, Appends path taken w (w.after (fileSinkUringWrite answer w.sink payload)) ∧
      (ring.left = [] → taken <+: payload ∧
        ((fileSinkUringWrite answer w.sink payload).status = .ok → taken = payload)) ∧
      (4294967295 < payload.length → taken = []) := by
  have hpending : ∀ ring, FileSink.pending { w.sink with uring := ring } = [] := by
    intro ring
    rw [FileSink.pending, hstream]
    rfl
  have hnone : ∀ status : Status, status ≠ .ok → ∃ taken, Appends path taken w (w.after ⟨status, w.sink, []⟩) ∧
      (ring.left = [] → taken <+: payload ∧ (status = .ok → taken = payload)) ∧
      (4294967295 < payload.length → taken = []) :=
    fun status hstatus => ⟨[], .refl h, fun _ => ⟨List.nil_prefix, fun hok => absurd hok hstatus⟩, fun _ => rfl⟩
  rw [fileSinkUringWrite, hring]
  dsimp only
  split
  · exact hnone _ (by decide)
  split
  · exact hnone _ (by decide)
  rename_i hsmall
  split
  · exact hnone _ (by decide)
  · -- the octets of the drain reach the file whatever its result
    have happ := appends_of_spill h { w.sink with uring := some (answer.leaves ring payload) }
      (answer.drain ring payload).2 (answer.drain ring payload).2 ⟨h.isOpen.path, .inr ⟨huring, hstream, hfd, rfl⟩⟩ rfl
      (by rw [hpending, List.append_nil]; exact congrArg (· ++ _) (hpending w.sink.uring).symm)
    have hfile : ∀ s, FileSink.file { w.sink with uring := s } = path := fun _ => file_eq h
    rw [hfile]
    refine ⟨(answer.drain ring payload).2, ?_, fun hleft => ⟨UringWrite.drain_prefix hleft payload, ?_⟩,
      fun hbig => absurd hbig hsmall⟩
    · split <;> exact happ
    · split
      · exact fun hok => (by cases hok)
      · rename_i hrc
        rw [not_or, not_not] at hrc
        intro _
        simp only [UringWrite.drain, hleft, if_true] at hrc ⊢
        split at hrc
        · exact absurd (show (-1 : Int) < 0 by decide) hrc.1
        · exact absurd (show (-1 : Int) < 0 by decide) hrc.1
        · rename_i res hends
          simp only at hrc ⊢
          rw [hrc.2, Int.toNat_natCast, List.take_length]

/-- Writing with either backend appends the payload, or on failure a part of it. -/
theorem opsWrite_appends (fwrite : FwriteAnswer) (uring : UringWrite) {payload : Bytes} (hne : payload ≠ []) :
    ∃ taken, Appends path taken w (w.after (opsWrite fwrite uring w.sink payload)) ∧
      (w.sink.Settled → taken <+: payload ∧ ((opsWrite fwrite uring w.sink payload).status = .ok → taken = payload)) ∧
      (w.sink.accepts payload = false → taken = []) := by
  rcases h.isOpen.backend with ⟨hsync, hstream⟩ | ⟨huring, hstream, hfd, hring⟩
  · obtain ⟨stream, hs⟩ := Option.isSome_iff_exists.1 hstream
    have hops : opsWrite fwrite uring w.sink payload = fileSinkSyncWrite fwrite w.sink payload := by
      simp [opsWrite, FileSink.usesUring, hsync]
    obtain ⟨happ, hstatus⟩ := syncWrite_appends h hsync hs fwrite hne
    rw [hops]
    exact ⟨_, happ, fun _ => ⟨List.take_prefix _ _, fun hok => List.take_of_length_le (hstatus.1 hok)⟩,
      by simp [FileSink.accepts, FileSink.usesUring, hsync]⟩
  · obtain ⟨ring, hr⟩ := Option.isSome_iff_exists.1 hring
    have huses : w.sink.usesUring = true := by simp [FileSink.usesUring, huring]
    have hops : opsWrite fwrite uring w.sink payload = fileSinkUringWrite uring w.sink payload := by
      simp [opsWrite, huses]
    obtain ⟨taken, happ, hok, hbig⟩ := uringWrite_appends h huring hstream hfd hr uring
    rw [hops]
    exact ⟨taken, happ, fun hsettled => hok (hsettled huses ring hr),
      by simpa [FileSink.accepts, FileSink.usesUring, huring] using hbig⟩

/-- A flush that succeeds leaves nothing in the stream. One that fails keeps the active file, if it
drops nothing. -/
theorem opsFlush_appends (answer : FlushAnswer) :
    ((opsFlush answer w.sink).status = .ok →
      Appends path [] w (w.after (opsFlush answer w.sink)) ∧ (opsFlush answer w.sink).state.pending = []) ∧
    ((∀ n, answer ≠ .failed n false) → Appends path [] w (w.after (opsFlush answer w.sink))) := by
  rcases h.isOpen.backend with ⟨hsync, hstream⟩ | ⟨huring, hstream, hfd, hring⟩
  · obtain ⟨stream, hs⟩ := Option.isSome_iff_exists.1 hstream
    have hops : opsFlush answer w.sink = fileSinkSyncFlush answer w.sink := by
      simp [opsFlush, FileSink.usesUring, hsync]
    rw [hops]
    simp only [fileSinkSyncFlush, hs, file_eq h]
    cases answer with
    | ok =>
      have happ := appends_of_spill h { w.sink with stream := some { stream with buffered := [] } } stream.buffered []
        ⟨h.isOpen.path, .inl ⟨hsync, rfl⟩⟩ rfl (by simp [FileSink.pending, hs])
      exact ⟨fun _ => ⟨happ, rfl⟩, fun _ => happ⟩
    | failed written kept =>
      refine ⟨fun hok => (by cases hok), fun hkept => ?_⟩
      cases kept with
      | false => exact absurd rfl (hkept written)
      | true =>
        exact appends_of_spill h { w.sink with stream := some { stream with buffered := stream.buffered.drop written } }
          (stream.buffered.take written) [] ⟨h.isOpen.path, .inl ⟨hsync, rfl⟩⟩ rfl (by simp [FileSink.pending, hs])
  · have hops : opsFlush answer w.sink = ⟨.ok, w.sink, []⟩ := by
      have hring' : w.sink.uring.isNone = false := by simpa using hring
      simp [opsFlush, FileSink.usesUring, huring, fileSinkUringFlush, hring', Int.not_lt.2 hfd]
    rw [hops]
    have hpending : w.sink.pending = [] := by rw [FileSink.pending, hstream]; rfl
    exact ⟨fun _ => ⟨.refl h, hpending⟩, fun _ => .refl h⟩

theorem opsFlush_touches (answer : FlushAnswer) : Touches path w (w.after (opsFlush answer w.sink)) := by
  by_cases hdrops : ∃ n, answer = .failed n false
  · obtain ⟨n, rfl⟩ := hdrops
    rcases h.isOpen.backend with ⟨hsync, hstream⟩ | ⟨huring, hstream, hfd, hring⟩
    · obtain ⟨stream, hs⟩ := Option.isSome_iff_exists.1 hstream
      have hops : opsFlush (.failed n false) w.sink = ⟨.sinkError, { w.sink with stream := some { stream with
          buffered := [] } }, [.append w.sink.file (stream.buffered.take n)]⟩ := by
        simp [opsFlush, FileSink.usesUring, hsync, fileSinkSyncFlush, hs]
      rw [hops, file_eq h]
      refine ⟨⟨⟨h.isOpen.path, .inl ⟨hsync, rfl⟩⟩, ?_⟩, rfl, fun p hp => Disk.set_files_other _ hp _, rfl⟩
      change (((w.disk.files path).map (· ++ stream.buffered.take n) |> w.disk.set path).files path).isSome = true
      rw [Disk.set_files_self, Option.isSome_map]
      exact h.file
    · have hops : opsFlush (.failed n false) w.sink = ⟨.ok, w.sink, []⟩ := by
        have hring' : w.sink.uring.isNone = false := by simpa using hring
        simp [opsFlush, FileSink.usesUring, huring, fileSinkUringFlush, hring', Int.not_lt.2 hfd]
      rw [hops]
      exact (Appends.refl h).toTouches
  · exact ((opsFlush_appends h answer).2 fun n hn => hdrops ⟨n, hn⟩).toTouches

theorem opsFlush_ok_iff (answer : FlushAnswer) :
    (opsFlush answer w.sink).status = .ok ↔ w.sink.usesUring = true ∨ answer = .ok := by
  rcases h.isOpen.backend with ⟨hsync, hstream⟩ | ⟨huring, -, hfd, hring⟩
  · obtain ⟨stream, hs⟩ := Option.isSome_iff_exists.1 hstream
    cases answer <;> simp [opsFlush, FileSink.usesUring, hsync, fileSinkSyncFlush, hs]
  · have hring' : w.sink.uring.isNone = false := by simpa using hring
    simp [opsFlush, FileSink.usesUring, huring, fileSinkUringFlush, hring', Int.not_lt.2 hfd]

theorem opsClose_stranded (answer : CloseAnswer) (hpending : w.sink.pending = []) :
    (opsClose answer w.sink).1.IsStranded path ∧ OnlyHandles w.sink (opsClose answer w.sink).1 ∧
      w.disk.run (opsClose answer w.sink).2 = w.disk := by
  rcases h.isOpen.backend with ⟨hsync, hstream⟩ | ⟨huring, hstream, hfd, hring⟩
  · obtain ⟨stream, hs⟩ := Option.isSome_iff_exists.1 hstream
    have hbuffered : stream.buffered = [] := by simpa [FileSink.pending, hs] using hpending
    have hwrites : answer.writes stream.buffered = [] := by
      rw [hbuffered]
      cases answer with
      | ok => rfl
      | failed written => exact List.take_nil
    have hops : opsClose answer w.sink =
        ({ w.sink with stream := none }, [.append w.sink.file [], .closeFd stream.fd]) := by
      simp [opsClose, FileSink.usesUring, hsync, fileSinkSyncClose, hs, hwrites]
    rw [hops]
    exact ⟨⟨h.isOpen.path, rfl, .inl hsync⟩, rfl, Disk.apply_append_nil _ _⟩
  · obtain ⟨ring, hr⟩ := Option.isSome_iff_exists.1 hring
    have hops : opsClose answer w.sink =
        ({ w.sink with fd := -1, uring := none }, [.closeFd w.sink.fd.toNat, .closeFd ring.fd]) := by
      simp [opsClose, FileSink.usesUring, huring, fileSinkUringClose, hfd, hr]
    rw [hops]
    exact ⟨⟨h.isOpen.path, hstream, .inr ⟨huring, show (-1 : Int) < 0 by decide, rfl⟩⟩, rfl, rfl⟩

end Backend

/-- The submission or the wait of the drain fails. -/
def FileSink.BreaksOff (sink : FileSink) (uring : UringWrite) (payload : Bytes) : Prop :=
  sink.usesUring = true ∧ payload.length ≤ 4294967295 ∧ ∃ n, uring.ends = .failed n

section Settled

variable {sink : FileSink} (h : sink.Settled)
include h

theorem opsFlush_settled (answer : FlushAnswer) : (opsFlush answer sink).state.Settled := by
  rw [opsFlush]
  split
  · rw [fileSinkUringFlush]
    split <;> exact h
  · rename_i hsync
    rw [fileSinkSyncFlush]
    split
    · exact h
    · split <;> exact FileSink.settled_of_sync hsync

theorem opsWrite_settled (fwrite : FwriteAnswer) {uring : UringWrite} {payload : Bytes}
    (hwhole : ¬sink.BreaksOff uring payload) :
    (opsWrite fwrite uring sink payload).state.Settled := by
  rw [opsWrite]
  split
  · rename_i huring
    rw [fileSinkUringWrite]
    split
    · exact h
    · rename_i ring hring
      split
      · exact h
      split
      · exact h
      rename_i hsmall
      split
      · exact h
      · have hleft : FileSink.Settled { sink with uring := some (uring.leaves ring payload) } := by
          intro _ ring' hring'
          cases hring'
          exact UringWrite.leaves_settled (h huring ring hring)
            (fun n hfailed => hwhole ⟨huring, Nat.not_lt.1 hsmall, n, hfailed⟩) payload
        dsimp only
        split <;> exact hleft
  · rename_i hsync
    rw [fileSinkSyncWrite]
    split
    · exact h
    split
    · exact h
    · dsimp only
      split <;> exact FileSink.settled_of_sync hsync

theorem opsOpen_settled (syncOpen : Option Nat) (uringOpen : UringOpen) :
    (opsOpen syncOpen uringOpen sink).state.Settled := by
  rw [opsOpen]
  split
  · rw [fileSinkUringOpen]
    split
    · exact h
    split
    · exact h
    · exact h
    · exact h
    · intro _ ring hring
      cases hring
      rfl
  · rename_i hsync
    rw [fileSinkSyncOpen]
    split
    · exact h
    · split <;> exact FileSink.settled_of_sync hsync

end Settled

theorem opsFlush_ready {path : Bytes} {w : World} (h : w.Ready path) (answer : FlushAnswer) :
    (w.after (opsFlush answer w.sink)).Ready path :=
  ⟨(opsFlush_touches h.toOpen answer).opened, opsFlush_settled h.settled answer⟩

/-- The open call of the backend in use succeeds. -/
def FileSink.Reopens (sink : FileSink) (syncOpen : Option Nat) (uringOpen : UringOpen) : Prop :=
  if sink.usesUring then ∃ ring fd, uringOpen = .opened ring fd else syncOpen.isSome = true

theorem OnlyHandles.reopens {s s' : FileSink} (h : OnlyHandles s s') (syncOpen : Option Nat) (uringOpen : UringOpen) :
    s'.Reopens syncOpen uringOpen ↔ s.Reopens syncOpen uringOpen := by rw [h]; rfl

theorem opsOpen_ready {path : Bytes} {sink : FileSink} (h : sink.IsStranded path) {syncOpen : Option Nat}
    {uringOpen : UringOpen} (hopens : sink.Reopens syncOpen uringOpen) (d : Disk) :
    (opsOpen syncOpen uringOpen sink).status = .ok ∧ (opsOpen syncOpen uringOpen sink).state.IsOpen path ∧
      (opsOpen syncOpen uringOpen sink).state.Settled ∧ (opsOpen syncOpen uringOpen sink).state.pending = [] ∧
      OnlyHandles sink (opsOpen syncOpen uringOpen sink).state ∧
      d.run (opsOpen syncOpen uringOpen sink).effects = d.apply (.create path) := by
  rcases h.backend with hsync | ⟨huring, -, -⟩
  · simp only [FileSink.Reopens, FileSink.usesUring, hsync] at hopens
    obtain ⟨fd, rfl⟩ := Option.isSome_iff_exists.1 hopens
    have hops : opsOpen (some fd) uringOpen sink =
        ⟨.ok, { sink with stream := some ⟨fd, []⟩ }, [.openFd fd, .create path]⟩ := by
      simp [opsOpen, FileSink.usesUring, hsync, fileSinkSyncOpen, h.path]
    rw [hops]
    have hsettled : FileSink.Settled { sink with stream := some ⟨fd, []⟩ } :=
      FileSink.settled_of_sync (by simp [FileSink.usesUring, hsync])
    exact ⟨rfl, ⟨h.path, .inl ⟨hsync, rfl⟩⟩, hsettled, rfl, rfl, rfl⟩
  · simp only [FileSink.Reopens, FileSink.usesUring, huring] at hopens
    obtain ⟨ring, fd, rfl⟩ := hopens
    have hops : opsOpen syncOpen (.opened ring fd) sink =
        ⟨.ok, { sink with fd := fd, uring := some ⟨ring, []⟩ }, [.openFd ring, .openFd fd, .create path]⟩ := by
      simp [opsOpen, FileSink.usesUring, huring, fileSinkUringOpen, h.path]
    have hsettled : FileSink.Settled { sink with fd := fd, uring := some ⟨ring, []⟩ } := by
      intro _ r hr
      cases hr
      rfl
    rw [hops]
    exact ⟨rfl, ⟨h.path, .inr ⟨huring, h.stream, Int.natCast_nonneg _, rfl⟩⟩, hsettled, by simp [FileSink.pending, h.stream], rfl,
      rfl⟩

theorem opsOpen_stranded {path : Bytes} {sink : FileSink} (h : sink.IsStranded path) {syncOpen : Option Nat}
    {uringOpen : UringOpen} (hopens : ¬sink.Reopens syncOpen uringOpen) (d : Disk) :
    (opsOpen syncOpen uringOpen sink).status ≠ .ok ∧ (opsOpen syncOpen uringOpen sink).state = sink ∧
      d.run (opsOpen syncOpen uringOpen sink).effects = d := by
  rcases h.backend with hsync | ⟨huring, -, -⟩
  · simp only [FileSink.Reopens, FileSink.usesUring, hsync] at hopens
    have hnone : syncOpen = none := by simpa using hopens
    have hops : opsOpen syncOpen uringOpen sink = ⟨.sinkError, { sink with stream := none }, []⟩ := by
      simp [opsOpen, FileSink.usesUring, hsync, fileSinkSyncOpen, h.path, hnone]
    rw [hops]
    exact ⟨nofun, by rw [← h.stream], rfl⟩
  · simp only [FileSink.Reopens, FileSink.usesUring, huring] at hopens
    have hops : opsOpen syncOpen uringOpen sink = fileSinkUringOpen uringOpen sink := by
      simp [opsOpen, FileSink.usesUring, huring]
    rw [hops]
    simp only [fileSinkUringOpen, h.path]
    cases uringOpen with
    | noMemory => exact ⟨nofun, rfl, rfl⟩
    | noRing => exact ⟨nofun, rfl, rfl⟩
    | noFile ring => exact ⟨nofun, rfl, rfl⟩
    | opened ring fd => exact absurd ⟨ring, fd, rfl⟩ hopens

/-! ## Rotation -/

/-- How many of `count` rotated files retention removes. -/
def surplus (retention count : Nat) : Nat := if 0 < retention then count - retention else 0

theorem applyRetention_eq (unlink : Bytes → Bool) (retention : Nat) (ps : List Bytes) :
    applyRetention unlink retention ps =
      (ps.drop (surplus retention ps.length),
        (ps.take (surplus retention ps.length)).map fun p => .unlink p (unlink p)) := by
  induction ps with
  | nil => simp [applyRetention]
  | cons p ps ih =>
    rw [applyRetention]
    split
    · rename_i hmore
      have hsurplus : surplus retention (p :: ps).length = surplus retention ps.length + 1 := by
        rw [surplus, surplus, if_pos hmore.1, if_pos hmore.1, List.length_cons]
        rw [List.length_cons] at hmore
        omega
      rw [hsurplus, ih]
      rfl
    · rename_i hfew
      have hsurplus : surplus retention (p :: ps).length = 0 := by
        unfold surplus
        split
        · omega
        · rfl
      rw [hsurplus]
      rfl

/-- The paths that the retention of one rotation drops from the list. -/
def FileSink.dropped (sink : FileSink) (target : Bytes) : List Bytes :=
  (sink.rotatedPaths ++ [target]).take (surplus sink.retentionFiles (sink.rotatedPaths.length + 1))

def FileSink.turned (sink : FileSink) (target : Bytes) (now : Int) : FileSink :=
  { sink with
    rotationSequence := (sink.rotationSequence + 1) % wordSize
    bytesWritten := 0
    lastRotationEpoch := now
    rotatedPaths := (sink.rotatedPaths ++ [target]).drop (surplus sink.retentionFiles (sink.rotatedPaths.length + 1)) }

theorem OnlyHandles.dropped {s s' : FileSink} (h : OnlyHandles s s') (target : Bytes) :
    s'.dropped target = s.dropped target := by rw [h]; rfl

theorem OnlyHandles.turned {s s' : FileSink} (h : OnlyHandles s s') (target : Bytes) (now : Int) :
    OnlyHandles (s.turned target now) (s'.turned target now) := by
  unfold OnlyHandles
  rw [h]
  rfl

theorem fileSinkMakeRotationPath_ne {sink : FileSink} {path target : Bytes} {now : Int} {size : Nat}
    (hpath : sink.path = some path) (h : fileSinkMakeRotationPath sink now size = .ok target) : target ≠ path := by
  rw [fileSinkMakeRotationPath, hpath] at h
  simp only at h
  split at h
  · cases h
  · split at h
    · cases h
    · rename_i hlen
      cases h
      rw [not_or, Nat.not_le] at hlen
      intro heq
      exact hlen.2 (le_of_eq (congrArg List.length heq))

/-- The active file now has the name `target`, and of the files in `gone` those are removed for
which `unlink` succeeds. -/
structure MovesAway (path target : Bytes) (gone : List Bytes) (unlink : Bytes → Bool) (w w' : World) : Prop where
  active : w'.active path = []
  moved : w'.disk.moved = w.disk.moved ++ [(target, w.active path)]
  files : ∀ p, p ≠ path → w'.disk.files p =
    if p ∈ gone ∧ unlink p = true then none else if p = target then some (w.active path) else w.disk.files p

inductive RotateResult (path : Bytes) (os : RotateOs) (w : World) (out : Out FileSink) : Prop where
  | unnamed
    (name : ∀ target, fileSinkMakeRotationPath w.sink os.nameNow rotationBufferSize ≠ .ok target)
    (same : out = ⟨.sinkError, w.sink, []⟩)
  | unflushed {target : Bytes}
    (name : fileSinkMakeRotationPath w.sink os.nameNow rotationBufferSize = .ok target)
    (flush : (opsFlush os.flush w.sink).status ≠ .ok)
    (same : out = opsFlush os.flush w.sink)
  | stranded {target : Bytes}
    (name : fileSinkMakeRotationPath w.sink os.nameNow rotationBufferSize = .ok target)
    (flush : (opsFlush os.flush w.sink).status = .ok)
    (fails : ¬(os.rename = true ∧ os.record = true ∧ w.sink.Reopens os.syncOpen os.uringOpen))
    (status : out.status ≠ .ok)
    (sink : out.state.IsStranded path)
    (fresh : w.disk.Fresh out.effects ↔ w.disk.files target = none)
    (disk : os.rename = false ∧ (w.after out).active path = w.active path ∧
        (∀ p, p ≠ path → (w.after out).disk.files p = w.disk.files p) ∧ (w.after out).disk.moved = w.disk.moved ∨
      os.rename = true ∧ ∃ gone, (gone = [] ∨ gone = w.sink.dropped target) ∧
        MovesAway path target gone os.unlink w (w.after out))
  | rotated {target : Bytes}
    (name : fileSinkMakeRotationPath w.sink os.nameNow rotationBufferSize = .ok target)
    (flush : (opsFlush os.flush w.sink).status = .ok)
    (succeeds : os.rename = true ∧ os.record = true ∧ w.sink.Reopens os.syncOpen os.uringOpen)
    (status : out.status = .ok)
    (ready : (w.after out).Ready path)
    (fresh : w.disk.Fresh out.effects ↔ w.disk.files target = none)
    (moves : MovesAway path target (w.sink.dropped target) os.unlink w (w.after out))
    (turned : OnlyHandles (w.sink.turned target os.rotatedNow) out.state)

/-- What a rotation that returned `ok` did. -/
structure Rotated (path target : Bytes) (os : RotateOs) (w : World) (out : Out FileSink) : Prop where
  name : fileSinkMakeRotationPath w.sink os.nameNow rotationBufferSize = .ok target
  flush : (opsFlush os.flush w.sink).status = .ok
  succeeds : os.rename = true ∧ os.record = true ∧ w.sink.Reopens os.syncOpen os.uringOpen
  ready : (w.after out).Ready path
  fresh : w.disk.Fresh out.effects ↔ w.disk.files target = none
  moves : MovesAway path target (w.sink.dropped target) os.unlink w (w.after out)
  turned : OnlyHandles (w.sink.turned target os.rotatedNow) out.state

theorem RotateResult.of_ok {path : Bytes} {os : RotateOs} {w : World} {out : Out FileSink}
    (h : RotateResult path os w out) (hok : out.status = .ok) : ∃ target, Rotated path target os w out := by
  cases h with
  | unnamed name same => rw [same] at hok; cases hok
  | unflushed name flush same => rw [same] at hok; exact absurd hok flush
  | stranded name flush fails status => exact absurd hok status
  | rotated name flush succeeds status ready fresh moves turned =>
    exact ⟨_, name, flush, succeeds, ready, fresh, moves, turned⟩

theorem noRename_opsWrite (fwrite : FwriteAnswer) (uring : UringWrite) (sink : FileSink) (payload : Bytes) :
    ∀ e ∈ (opsWrite fwrite uring sink payload).effects, Disk.NoRename e := by
  unfold opsWrite fileSinkUringWrite fileSinkSyncWrite
  intro e he
  repeat' split at he
  all_goals simp at he
  all_goals subst he; trivial

theorem noRename_opsFlush (answer : FlushAnswer) (sink : FileSink) :
    ∀ e ∈ (opsFlush answer sink).effects, Disk.NoRename e := by
  unfold opsFlush fileSinkUringFlush fileSinkSyncFlush
  intro e he
  repeat' split at he
  all_goals simp at he
  all_goals subst he; trivial

theorem fileSinkUringClose_eq (sink : FileSink) :
    fileSinkUringClose sink =
      ({ sink with fd := if 0 ≤ sink.fd then -1 else sink.fd, uring := none },
        (if 0 ≤ sink.fd then [.closeFd sink.fd.toNat] else []) ++ sink.uring.toList.map (.closeFd ·.fd)) := by
  cases hring : sink.uring with
  | none =>
    by_cases hfd : 0 ≤ sink.fd
    · simp [fileSinkUringClose, hfd, hring]
    · simp only [fileSinkUringClose, hfd, if_false, hring, Option.toList_none, List.map_nil, List.append_nil]
      rw [← hring]
  | some ring =>
    by_cases hfd : 0 ≤ sink.fd
    · simp [fileSinkUringClose, hfd, hring]
    · simp [fileSinkUringClose, hfd, hring]

theorem opsClose_settled (answer : CloseAnswer) (sink : FileSink) : (opsClose answer sink).1.Settled := by
  rw [opsClose]
  split
  · rw [fileSinkUringClose_eq]
    exact FileSink.settled_of_none rfl
  · rename_i hsync
    rw [fileSinkSyncClose]
    split <;> exact FileSink.settled_of_sync hsync

theorem noRename_opsClose (answer : CloseAnswer) (sink : FileSink) :
    ∀ e ∈ (opsClose answer sink).2, Disk.NoRename e := by
  intro e he
  rw [opsClose] at he
  split at he
  · rw [fileSinkUringClose_eq] at he
    rcases List.mem_append.1 he with he | he
    · split at he
      · rw [List.mem_singleton.1 he]
        trivial
      · cases he
    · obtain ⟨_, _, rfl⟩ := List.mem_map.1 he
      trivial
  · rw [fileSinkSyncClose] at he
    split at he
    · cases he
    · simp at he
      rcases he with rfl | rfl <;> trivial

theorem noRename_fileSinkSyncOpen (answer : Option Nat) (sink : FileSink) :
    ∀ e ∈ (fileSinkSyncOpen answer sink).effects, Disk.NoRename e := by
  unfold fileSinkSyncOpen
  intro e he
  repeat' split at he
  all_goals simp at he
  all_goals rcases he with rfl | rfl <;> trivial

theorem noRename_fileSinkUringOpen (answer : UringOpen) (sink : FileSink) :
    ∀ e ∈ (fileSinkUringOpen answer sink).effects, Disk.NoRename e := by
  unfold fileSinkUringOpen
  intro e he
  repeat' split at he
  all_goals simp at he
  · rcases he with rfl | rfl <;> trivial
  · rcases he with rfl | rfl | rfl <;> trivial

theorem noRename_opsOpen (syncOpen : Option Nat) (uringOpen : UringOpen) (sink : FileSink) :
    ∀ e ∈ (opsOpen syncOpen uringOpen sink).effects, Disk.NoRename e := by
  unfold opsOpen
  split
  · exact noRename_fileSinkUringOpen _ _
  · exact noRename_fileSinkSyncOpen _ _

theorem movesAway_of_rename {path target : Bytes} {w : World} {d : Disk} (gone : List Bytes) (unlink : Bytes → Bool)
    (hactive : d.files path = some (w.active path)) (hothers : ∀ p, p ≠ path → d.files p = w.disk.files p)
    (hmoved : d.moved = w.disk.moved) {sink : FileSink} (hsink : sink.pending = [])
    {es : List Effect} (hes : (d.apply (.rename path target true)).run es =
      (d.apply (.rename path target true)).run (gone.map fun p => .unlink p (unlink p)) ∨
      (d.apply (.rename path target true)).run es =
      ((d.apply (.rename path target true)).run (gone.map fun p => .unlink p (unlink p))).apply (.create path)) :
    MovesAway path target gone unlink w ⟨sink, (d.apply (.rename path target true)).run es⟩ := by
  have hcontents : d.contents path = w.active path := by rw [Disk.contents, hactive, Option.getD_some]
  obtain ⟨hfiles, hkept⟩ := Disk.run_unlinks unlink gone (d.apply (.rename path target true))
  have hrenamed : (d.apply (.rename path target true)).files path = none := Disk.set_files_self _ _ _
  have hrest : ∀ p, p ≠ path → (d.apply (.rename path target true)).files p =
      if p = target then some (w.active path) else w.disk.files p := by
    intro p hp
    by_cases hpt : p = target
    · subst hpt
      rw [if_pos rfl, Disk.apply, ← hactive]
      exact (Disk.set_files_other _ hp _).trans (Disk.set_files_self _ _ _)
    · rw [if_neg hpt, Disk.apply, ← hothers p hp]
      exact (Disk.set_files_other _ hp _).trans (Disk.set_files_other _ hpt _)
  have hpath : ((d.apply (.rename path target true)).run (gone.map fun p => .unlink p (unlink p))).files path = none := by
    rw [hfiles, hrenamed, ite_self]
  have hmoved' : ((d.apply (.rename path target true)).run (gone.map fun p => .unlink p (unlink p))).moved =
      w.disk.moved ++ [(target, w.active path)] := by
    rw [hkept, Disk.apply, ← hmoved, ← hcontents]
  rcases hes with hes | hes
  · rw [hes]
    refine ⟨?_, hmoved', fun p hp => ?_⟩
    · rw [World.active, Disk.contents, hpath, hsink]
      rfl
    · rw [hfiles, hrest p hp]
  · rw [hes]
    refine ⟨?_, hmoved', fun p hp => ?_⟩
    · rw [World.active, Disk.contents, Disk.apply, Disk.set_files_self, Disk.contents, hpath, hsink]
      rfl
    · rw [Disk.apply, Disk.set_files_other _ hp, hfiles, hrest p hp]

theorem World.after_append (w : World) (status : Status) (sink : FileSink) (es es' : List Effect) :
    w.after ⟨status, sink, es ++ es'⟩ = ⟨sink, (w.disk.run es).run es'⟩ := by
  rw [World.after, Disk.run_append]

/-- A rotation right before the rename: it has a target, and the sink is flushed and closed. -/
structure Prepared (path target : Bytes) (os : RotateOs) (w : World) (closed : FileSink) (before : List Effect) :
    Prop where
  name : fileSinkMakeRotationPath w.sink os.nameNow rotationBufferSize = .ok target
  flush : (opsFlush os.flush w.sink).status = .ok
  target_ne : target ≠ path
  stranded : closed.IsStranded path
  handles : OnlyHandles w.sink closed
  active : (w.disk.run before).files path = some (w.active path)
  others : ∀ p, p ≠ path → (w.disk.run before).files p = w.disk.files p
  moved : (w.disk.run before).moved = w.disk.moved
  noRename : ∀ e ∈ before, Disk.NoRename e

namespace Prepared

variable {path target : Bytes} {os : RotateOs} {w : World} {closed : FileSink} {before : List Effect}
  (h : Prepared path target os w closed before)
include h

theorem pending : closed.pending = [] := by
  rw [FileSink.pending, h.stranded.stream]
  rfl

theorem fresh {after : List Effect} (hafter : ∀ e ∈ after, Disk.NoRename e) :
    w.disk.Fresh (before ++ (.rename path target os.rename :: after)) ↔ w.disk.files target = none := by
  rw [← h.others target h.target_ne, List.append_cons]
  exact Disk.fresh_one_rename w.disk h.noRename hafter path target os.rename

theorem rename_failed (hrename : os.rename = false) :
    RotateResult path os w ⟨.sinkError, closed, before ++ [.rename path target os.rename]⟩ := by
  have hafter : w.after ⟨.sinkError, closed, before ++ [.rename path target os.rename]⟩ =
      ⟨closed, w.disk.run before⟩ := by
    rw [World.after_append, hrename]
    rfl
  refine .stranded h.name h.flush (by simp [hrename]) nofun h.stranded (h.fresh (List.forall_mem_nil _))
    (.inl ⟨hrename, ?_, ?_, ?_⟩)
  · rw [hafter, World.active, h.pending, List.append_nil]
    exact congrArg (Option.getD · []) h.active
  · rw [hafter]
    exact h.others
  · rw [hafter]
    exact h.moved

theorem record_failed (hrename : os.rename = true) (hrecord : os.record = false) :
    RotateResult path os w ⟨.internalError, closed, before ++ [.rename path target os.rename]⟩ := by
  refine .stranded h.name h.flush (by simp [hrecord]) nofun h.stranded (h.fresh (List.forall_mem_nil _))
    (.inr ⟨hrename, [], .inl rfl, ?_⟩)
  rw [World.after_append, hrename]
  exact movesAway_of_rename [] os.unlink h.active h.others h.moved h.pending (.inl rfl)

/-- The rotation is on record. What is left is to drop old files and to open a new one, which may fail. -/
theorem recorded (hrename : os.rename = true) (hrecord : os.record = true) {opened : Out FileSink}
    (hopen : opsOpen os.syncOpen os.uringOpen (closed.turned target os.rotatedNow) = opened) :
    RotateResult path os w ⟨opened.status, opened.state, before ++ (.rename path target os.rename ::
      ((w.sink.dropped target).map (fun p => .unlink p (os.unlink p)) ++ opened.effects))⟩ := by
  have hnone : ∀ e ∈ (w.sink.dropped target).map (fun p => .unlink p (os.unlink p)) ++ opened.effects,
      Disk.NoRename e := by
    intro e he
    rcases List.mem_append.1 he with he | he
    · obtain ⟨_, _, rfl⟩ := List.mem_map.1 he
      trivial
    · rw [← hopen] at he
      exact noRename_opsOpen _ _ _ e he
  have hturned : (closed.turned target os.rotatedNow).IsStranded path :=
    ⟨h.stranded.path, h.stranded.stream, h.stranded.backend⟩
  have hreopens : (closed.turned target os.rotatedNow).Reopens os.syncOpen os.uringOpen ↔
      w.sink.Reopens os.syncOpen os.uringOpen := h.handles.reopens os.syncOpen os.uringOpen
  by_cases hopens : (closed.turned target os.rotatedNow).Reopens os.syncOpen os.uringOpen
  · have hopened := opsOpen_ready hturned hopens
    rw [hopen] at hopened
    obtain ⟨hok, hisOpen, hsettled, hpending, hhandles, -⟩ := hopened w.disk
    refine .rotated h.name h.flush ⟨hrename, hrecord, hreopens.1 hopens⟩ hok ⟨⟨hisOpen, ?_⟩, hsettled⟩ (h.fresh hnone) ?_
      ((h.handles.turned target os.rotatedNow).trans hhandles)
    · rw [World.after_append, Disk.run_cons, Disk.run_append, (hopened _).2.2.2.2.2, Disk.apply, Disk.set_files_self]
      rfl
    · rw [World.after_append, Disk.run_cons, hrename]
      exact movesAway_of_rename _ os.unlink h.active h.others h.moved hpending
        (.inr (by rw [Disk.run_append, (hopened _).2.2.2.2.2]))
  · have hfailed := opsOpen_stranded hturned hopens
    rw [hopen] at hfailed
    obtain ⟨hbad, hstate, -⟩ := hfailed w.disk
    refine .stranded h.name h.flush (fun hall => hopens (hreopens.2 hall.2.2)) hbad ?_ (h.fresh hnone)
      (.inr ⟨hrename, _, .inr rfl, ?_⟩)
    · rw [hstate]
      exact hturned
    · rw [World.after_append, Disk.run_cons, hrename, hstate]
      have hpending : (closed.turned target os.rotatedNow).pending = [] := h.pending
      exact movesAway_of_rename _ os.unlink h.active h.others h.moved hpending
        (.inl (by rw [Disk.run_append, (hfailed _).2.2]))

end Prepared

section Rotation

variable {path : Bytes} {w : World} (h : w.Open path)
include h

theorem rotate_prepares {target : Bytes} (os : RotateOs)
    (hname : fileSinkMakeRotationPath w.sink os.nameNow rotationBufferSize = .ok target)
    (hflush : (opsFlush os.flush w.sink).status = .ok) {closed : FileSink} {effects : List Effect}
    (hclose : opsClose os.close (opsFlush os.flush w.sink).state = (closed, effects)) :
    Prepared path target os w closed ((opsFlush os.flush w.sink).effects ++ effects) := by
  obtain ⟨happ, hpending⟩ := (opsFlush_appends h os.flush).1 hflush
  obtain ⟨hstranded, hhandles, hdisk⟩ := opsClose_stranded happ.opened os.close hpending
  change (w.disk.run (opsFlush os.flush w.sink).effects).run (opsClose os.close (opsFlush os.flush w.sink).state).2 =
    w.disk.run (opsFlush os.flush w.sink).effects at hdisk
  change (opsClose os.close (opsFlush os.flush w.sink).state).1.IsStranded path at hstranded
  change OnlyHandles (opsFlush os.flush w.sink).state (opsClose os.close (opsFlush os.flush w.sink).state).1 at hhandles
  rw [hclose] at hstranded hhandles hdisk
  rw [← Disk.run_append] at hdisk
  refine ⟨hname, hflush, fileSinkMakeRotationPath_ne h.isOpen.path hname, hstranded, happ.handles.trans hhandles, ?_,
    ?_, ?_, ?_⟩
  · rw [hdisk]
    obtain ⟨c, hc⟩ := Option.isSome_iff_exists.1 happ.opened.file
    have hactive := happ.active
    rw [List.append_nil, World.active, Disk.contents, hc, Option.getD_some] at hactive
    rw [← hactive]
    change _ = some (c ++ (opsFlush os.flush w.sink).state.pending)
    rw [hpending, List.append_nil]
    exact hc
  · rw [hdisk]
    exact happ.others
  · rw [hdisk]
    exact happ.moved
  · intro e he
    rcases List.mem_append.1 he with he | he
    · exact noRename_opsFlush _ _ e he
    · exact noRename_opsClose _ _ e (by rw [hclose]; exact he)

theorem fileSinkRotate_result (os : RotateOs) : RotateResult path os w (fileSinkRotate os w.sink) := by
  cases hname : fileSinkMakeRotationPath w.sink os.nameNow rotationBufferSize with
  | error e =>
    refine .unnamed (fun target ht => ?_) ?_
    · rw [hname] at ht
      cases ht
    · simp [fileSinkRotate, hname, h.isOpen.path]
  | ok target =>
    by_cases hflush : (opsFlush os.flush w.sink).status = .ok
    swap
    · exact .unflushed hname hflush (by simp [fileSinkRotate, hname, hflush])
    obtain ⟨⟨closed, es⟩, hclose⟩ : ∃ r, opsClose os.close (opsFlush os.flush w.sink).state = r := ⟨_, rfl⟩
    have hprepared := rotate_prepares h os hname hflush hclose
    have hfile : closed.file = path := by rw [FileSink.file, hprepared.stranded.path, Option.getD_some]
    cases hrename : os.rename with
    | false =>
      have hrotate : fileSinkRotate os w.sink =
          ⟨.sinkError, closed, (opsFlush os.flush w.sink).effects ++ es ++ [.rename path target os.rename]⟩ := by
        simp [fileSinkRotate, hname, hflush, hclose, hrename, hfile]
      rw [hrotate]
      exact hprepared.rename_failed hrename
    | true =>
      cases hrecord : os.record with
      | false =>
        have hrotate : fileSinkRotate os w.sink =
            ⟨.internalError, closed, (opsFlush os.flush w.sink).effects ++ es ++ [.rename path target os.rename]⟩ := by
          simp [fileSinkRotate, hname, hflush, hclose, hrename, hfile, hrecord]
        rw [hrotate]
        exact hprepared.record_failed hrename hrecord
      | true =>
        have hrotate : fileSinkRotate os w.sink =
            ⟨(opsOpen os.syncOpen os.uringOpen (closed.turned target os.rotatedNow)).status,
              (opsOpen os.syncOpen os.uringOpen (closed.turned target os.rotatedNow)).state,
              (opsFlush os.flush w.sink).effects ++ es ++ (.rename path target os.rename ::
                ((closed.dropped target).map (fun p => .unlink p (os.unlink p)) ++
                  (opsOpen os.syncOpen os.uringOpen (closed.turned target os.rotatedNow)).effects))⟩ := by
          simp [fileSinkRotate, hname, hflush, hclose, hrename, hfile, hrecord, applyRetention_eq, FileSink.turned,
            FileSink.dropped]
        rw [hrotate, hprepared.handles.dropped]
        exact hprepared.recorded hrename hrecord rfl

end Rotation

/-- A rotation gives up the ring, so what was left in it is not in the new one. -/
theorem fileSinkRotate_settled (os : RotateOs) {sink : FileSink} (h : sink.Settled) :
    (fileSinkRotate os sink).state.Settled := by
  simp only [fileSinkRotate]
  split
  · exact h
  split
  · exact opsFlush_settled h os.flush
  have hclosed := opsClose_settled os.close (opsFlush os.flush sink).state
  split
  · exact hclosed
  split
  · exact hclosed
  · refine opsOpen_settled ?_ os.syncOpen os.uringOpen
    exact hclosed

/-! ## Writing -/

/-- A part of `payload` was appended to the active file, all of it when `status` is `ok`. -/
structure Wrote (path payload : Bytes) (status : Status) (w w' : World) : Prop where
  opened : w'.Open path
  settled : w.sink.Settled → status = .ok → w'.sink.Settled
  active : ∃ taken, w'.active path = w.active path ++ taken ∧
    (w.sink.Settled → taken <+: payload ∧ (status = .ok → taken = payload)) ∧
    (w.sink.accepts payload = false → taken = [])
  others : ∀ p, p ≠ path → w'.disk.files p = w.disk.files p
  moved : w'.disk.moved = w.disk.moved
  handles : OnlyHandles (if status = .ok then
    { w.sink with bytesWritten := (w.sink.bytesWritten + payload.length) % wordSize } else w.sink) w'.sink

section Wrote

variable {path payload : Bytes} {status : Status} {w w' : World} (h : Wrote path payload status w w')
include h

theorem Wrote.ready (hready : w.Ready path) (hok : status = .ok) : w'.Ready path :=
  ⟨h.opened, h.settled hready.settled hok⟩

theorem Wrote.taken (hsettled : w.sink.Settled) :
    ∃ taken, w'.active path = w.active path ++ taken ∧ taken <+: payload ∧ (status = .ok → taken = payload) ∧
      (w.sink.accepts payload = false → taken = []) := by
  obtain ⟨taken, hactive, hpart, hnone⟩ := h.active
  exact ⟨taken, hactive, (hpart hsettled).1, (hpart hsettled).2, hnone⟩

end Wrote

inductive WriteResult (path payload : Bytes) (os : WriteOs) (w : World) (out : Out FileSink) : Prop where
  | kept
    (due : fileSinkRotationDue w.sink payload.length os.dueNow = false)
    (wrote : Wrote path payload out.status w (w.after out))
    (status : out.status = (opsWrite os.fwrite os.uring w.sink payload).status)
    (fresh : w.disk.Fresh out.effects)
  | failed
    (due : fileSinkRotationDue w.sink payload.length os.dueNow = true)
    (status : out.status ≠ .ok)
    (rotate : RotateResult path os.toRotateOs w out)
  | rotated {mid : Out FileSink}
    (due : fileSinkRotationDue w.sink payload.length os.dueNow = true)
    (ok : mid.status = .ok)
    (rotate : RotateResult path os.toRotateOs w mid)
    (wrote : Wrote path payload out.status (w.after mid) (w.after out))
    (status : out.status = (opsWrite os.fwrite os.uring mid.state payload).status)
    (fresh : w.disk.Fresh out.effects ↔ w.disk.Fresh mid.effects)

/-- The backend takes the whole payload, or what answers for it is a completion of the same length. -/
def FileSink.Takes (sink : FileSink) (fwrite : FwriteAnswer) (uring : UringWrite) (payload : Bytes) : Prop :=
  if sink.usesUring then payload.length ≤ 4294967295 ∧ uring.ends = .completed payload.length
  else payload.length ≤ fwrite.count

theorem opsWrite_ok_iff {path payload : Bytes} {w : World} (h : w.Open path) (fwrite : FwriteAnswer)
    (uring : UringWrite) (hne : payload ≠ []) :
    (opsWrite fwrite uring w.sink payload).status = .ok ↔ w.sink.Takes fwrite uring payload := by
  rcases h.isOpen.backend with ⟨hsync, hstream⟩ | ⟨huring, hstream, hfd, hring⟩
  · obtain ⟨stream, hs⟩ := Option.isSome_iff_exists.1 hstream
    simpa [opsWrite, FileSink.Takes, FileSink.usesUring, hsync] using (syncWrite_appends h hsync hs fwrite hne).2
  · obtain ⟨ring, hr⟩ := Option.isSome_iff_exists.1 hring
    have hopen : ¬(w.sink.fd < 0 ∨ payload.length = 0) := by simp [Int.not_lt.2 hfd, hne]
    simp only [opsWrite, FileSink.Takes, FileSink.usesUring, huring, beq_self_eq_true, if_true, fileSinkUringWrite, hr,
      if_neg hopen]
    by_cases hbig : 4294967295 < payload.length
    · rw [if_pos hbig]
      exact ⟨nofun, fun hfits => absurd hfits.1 (Nat.not_le.2 hbig)⟩
    · rw [if_neg hbig]
      cases hends : uring.ends with
      | noSqe => exact ⟨nofun, nofun⟩
      | failed written => simp [UringWrite.drain, hends]
      | completed res =>
        rw [if_neg nofun, UringEnd.completed.injEq]
        simp only [UringWrite.drain, hends]
        by_cases hrc : res < 0 ∨ res ≠ payload.length
        · rw [if_pos hrc]
          exact ⟨nofun, fun hfits => by omega⟩
        · rw [if_neg hrc]
          exact ⟨fun _ => by omega, fun _ => rfl⟩

theorem opsWrite_settled_of_ok {path payload : Bytes} {w : World} (h : w.Open path) (hsettled : w.sink.Settled)
    {fwrite : FwriteAnswer} {uring : UringWrite} (hne : payload ≠ [])
    (hok : (opsWrite fwrite uring w.sink payload).status = .ok) :
    (opsWrite fwrite uring w.sink payload).state.Settled := by
  refine opsWrite_settled hsettled fwrite fun ⟨huring, _, n, hfailed⟩ => ?_
  have htakes := (opsWrite_ok_iff h fwrite uring hne).1 hok
  rw [FileSink.Takes, if_pos huring, hfailed] at htakes
  cases htakes.2

/-- The last part of `ij_file_sink_write`. -/
def writeTail (os : WriteOs) (payload : Bytes) (rotated : Out FileSink) : Out FileSink :=
  let written := opsWrite os.fwrite os.uring rotated.state payload
  let effects := rotated.effects ++ written.effects
  if written.status = .ok then
    ⟨.ok, { written.state with bytesWritten := (written.state.bytesWritten + payload.length) % wordSize }, effects⟩
  else ⟨written.status, written.state, effects⟩

theorem writeTail_status (os : WriteOs) (payload : Bytes) (rotated : Out FileSink) :
    (writeTail os payload rotated).status = (opsWrite os.fwrite os.uring rotated.state payload).status := by
  simp only [writeTail]
  split
  · rename_i hok
    exact hok.symm
  · rfl

theorem writeTail_effects (os : WriteOs) (payload : Bytes) (rotated : Out FileSink) :
    (writeTail os payload rotated).effects =
      rotated.effects ++ (opsWrite os.fwrite os.uring rotated.state payload).effects := by
  simp only [writeTail]
  split <;> rfl

theorem writeTail_wrote {path payload : Bytes} {w : World} {rotated : Out FileSink} (h : (w.after rotated).Open path)
    (os : WriteOs) (hne : payload ≠ []) :
    Wrote path payload (writeTail os payload rotated).status (w.after rotated)
      (w.after (writeTail os payload rotated)) := by
  obtain ⟨taken, happ, hok, hrejected⟩ := opsWrite_appends h os.fwrite os.uring hne
  have hhandles : OnlyHandles rotated.state (opsWrite os.fwrite os.uring rotated.state payload).state := happ.handles
  have hafter : ∀ status sink, w.after ⟨status, sink, rotated.effects ++
      (opsWrite os.fwrite os.uring rotated.state payload).effects⟩ =
        ⟨sink, ((w.after rotated).after (opsWrite os.fwrite os.uring rotated.state payload)).disk⟩ :=
    fun status sink => by rw [World.after, Disk.run_append]; rfl
  by_cases hstatus : (opsWrite os.fwrite os.uring rotated.state payload).status = .ok
  · have heq : writeTail os payload rotated =
        ⟨.ok, { (opsWrite os.fwrite os.uring rotated.state payload).state with
          bytesWritten := (rotated.state.bytesWritten + payload.length) % wordSize },
          rotated.effects ++ (opsWrite os.fwrite os.uring rotated.state payload).effects⟩ := by
      have hcount : (opsWrite os.fwrite os.uring rotated.state payload).state.bytesWritten =
          rotated.state.bytesWritten := by rw [hhandles]
      simp [writeTail, hstatus, hcount]
    rw [heq, hafter]
    refine ⟨⟨⟨happ.opened.isOpen.path, happ.opened.isOpen.backend⟩, happ.opened.file⟩, fun hsettled _ => ?_,
      ⟨taken, happ.active, fun hsettled => ⟨(hok hsettled).1, fun _ => (hok hsettled).2 hstatus⟩, hrejected⟩,
      happ.others, happ.moved, ?_⟩
    · exact opsWrite_settled_of_ok h hsettled hne hstatus
    · rw [if_pos rfl]
      unfold OnlyHandles at hhandles ⊢
      rw [hhandles]
      rfl
  · have heq : writeTail os payload rotated =
        ⟨(opsWrite os.fwrite os.uring rotated.state payload).status,
          (opsWrite os.fwrite os.uring rotated.state payload).state,
          rotated.effects ++ (opsWrite os.fwrite os.uring rotated.state payload).effects⟩ := by
      simp [writeTail, hstatus]
    rw [heq, hafter]
    refine ⟨happ.opened, fun _ hbad => absurd hbad hstatus, ⟨taken, happ.active, hok, hrejected⟩, happ.others,
      happ.moved, ?_⟩
    rw [if_neg hstatus]
    exact hhandles

theorem fileSinkWrite_eq (os : WriteOs) (sink : FileSink) {payload : Bytes} (hne : payload ≠ []) :
    fileSinkWrite os sink payload =
      if fileSinkRotationDue sink payload.length os.dueNow then
        if (fileSinkRotate os.toRotateOs sink).status = .ok then
          writeTail os payload (fileSinkRotate os.toRotateOs sink)
        else fileSinkRotate os.toRotateOs sink
      else writeTail os payload ⟨.ok, sink, []⟩ := by
  have hlen : payload.length ≠ 0 := by simpa using hne
  simp only [fileSinkWrite, if_neg hlen]
  split
  · split
    · rfl
    · rename_i hok
      rw [if_pos (not_not.1 hok)]
      rfl
  · rw [if_neg (fun h => h rfl)]
    rfl

theorem fileSinkWrite_empty (os : WriteOs) (sink : FileSink) :
    fileSinkWrite os sink [] = ⟨.invalidArgument, sink, []⟩ := rfl

theorem fileSinkWrite_result {path payload : Bytes} {w : World} (h : w.Open path) (os : WriteOs)
    (hne : payload ≠ []) : WriteResult path payload os w (fileSinkWrite os w.sink payload) := by
  rw [fileSinkWrite_eq os w.sink hne]
  cases hdue : fileSinkRotationDue w.sink payload.length os.dueNow with
  | false =>
    rw [if_neg Bool.false_ne_true]
    refine .kept hdue ?_ (writeTail_status _ _ _) ?_
    · exact writeTail_wrote (show (w.after ⟨.ok, w.sink, []⟩).Open path from h) os hne
    · rw [writeTail_effects]
      exact Disk.fresh_of_noRename _ (noRename_opsWrite _ _ _ _)
  | true =>
    rw [if_pos rfl]
    have hrotate := fileSinkRotate_result h os.toRotateOs
    by_cases hok : (fileSinkRotate os.toRotateOs w.sink).status = .ok
    · rw [if_pos hok]
      obtain ⟨target, hrotated⟩ := hrotate.of_ok hok
      refine .rotated hdue hok hrotate (writeTail_wrote hrotated.ready.toOpen os hne) (writeTail_status _ _ _) ?_
      rw [writeTail_effects, Disk.fresh_append]
      exact and_iff_left (Disk.fresh_of_noRename _ (noRename_opsWrite _ _ _ _))
    · rw [if_neg hok]
      exact .failed hdue hok hrotate

theorem fileSinkWrite_settled {path payload : Bytes} {w : World} (h : w.Ready path) {os : WriteOs} (hne : payload ≠ [])
    (hwhole : (fileSinkRotationDue w.sink payload.length os.dueNow = true →
      (fileSinkRotate os.toRotateOs w.sink).status = .ok) → ¬w.sink.BreaksOff os.uring payload) :
    (fileSinkWrite os w.sink payload).state.Settled := by
  have htail : ∀ rotated : Out FileSink, rotated.state.Settled → ¬rotated.state.BreaksOff os.uring payload →
      (writeTail os payload rotated).state.Settled := by
    intro rotated hsettled hbreaks
    have hwritten := opsWrite_settled hsettled os.fwrite hbreaks
    rw [writeTail]
    dsimp only
    split
    · exact hwritten
    · exact hwritten
  rw [fileSinkWrite_eq os w.sink hne]
  cases hdue : fileSinkRotationDue w.sink payload.length os.dueNow with
  | false =>
    rw [if_neg Bool.false_ne_true]
    refine htail _ h.settled (hwhole fun hcontra => ?_)
    rw [hdue] at hcontra
    cases hcontra
  | true =>
    rw [if_pos rfl]
    by_cases hok : (fileSinkRotate os.toRotateOs w.sink).status = .ok
    · rw [if_pos hok]
      refine htail _ (fileSinkRotate_settled _ h.settled) ?_
      obtain ⟨target, hrotated⟩ := (fileSinkRotate_result h.toOpen os.toRotateOs).of_ok hok
      rw [hrotated.turned]
      exact hwhole fun _ => hok
    · rw [if_neg hok]
      exact fileSinkRotate_settled _ h.settled

/-- The sink has no open file: it was never opened, or was closed, or a rotation left it stranded. -/
structure FileSink.IsClosed (sink : FileSink) : Prop where
  stream : sink.stream = none
  backend : sink.activeBackend = .sync ∨ sink.activeBackend = .ioUring ∧ sink.fd < 0 ∧ sink.uring = none ∨
    sink.activeBackend = .auto ∧ sink.bytesWritten = 0

theorem FileSink.IsStranded.isClosed {path : Bytes} {sink : FileSink} (h : sink.IsStranded path) : sink.IsClosed :=
  ⟨h.stream, h.backend.imp_right .inl⟩

theorem FileSink.IsClosed.not_open {sink : FileSink} (h : sink.IsClosed) (path : Bytes) : ¬sink.IsOpen path := by
  intro hopen
  rcases hopen.backend with ⟨-, hstream⟩ | ⟨huring, -, hfd, -⟩
  · rw [h.stream] at hstream
    cases hstream
  · rcases h.backend with hsync | ⟨-, hneg, -⟩ | ⟨hauto, -⟩
    · rw [hsync] at huring
      cases huring
    · omega
    · rw [hauto] at huring
      cases huring

theorem fileSinkWrite_state {path : Bytes} {w : World} (h : w.Open path) (os : WriteOs) (payload : Bytes) :
    (w.after (fileSinkWrite os w.sink payload)).Open path ∨
      (w.after (fileSinkWrite os w.sink payload)).sink.IsClosed := by
  by_cases hne : payload = []
  · rw [hne, fileSinkWrite_empty]
    exact .inl h
  cases fileSinkWrite_result h os hne with
  | kept due wrote => exact .inl wrote.opened
  | rotated due ok rotate wrote => exact .inl wrote.opened
  | failed due status rotate =>
    cases rotate with
    | unnamed name same =>
      rw [same]
      exact .inl h
    | unflushed name flush same =>
      rw [same]
      exact .inl (opsFlush_touches h os.flush).opened
    | stranded name flush fails bad sink => exact .inr sink.isClosed
    | rotated name flush succeeds ok => exact absurd ok status

theorem FileSink.IsClosed.not_due {sink : FileSink} (h : sink.IsClosed) (len : Nat) (now : Int) :
    fileSinkRotationDue sink len now = false := by
  rw [fileSinkRotationDue]
  rcases h.backend with hsync | ⟨huring, hfd, -⟩ | ⟨hauto, hzero⟩
  · rw [if_pos (.inl ⟨hsync, h.stream⟩)]
  · rw [if_pos (.inr ⟨huring, hfd⟩)]
  · simp [hauto, hzero]

theorem fileSinkWrite_closed {sink : FileSink} (h : sink.IsClosed) (os : WriteOs) (payload : Bytes) :
    fileSinkWrite os sink payload = ⟨.invalidArgument, sink, []⟩ := by
  by_cases hne : payload = []
  · rw [hne, fileSinkWrite_empty]
  · have hops : opsWrite os.fwrite os.uring sink payload = ⟨.invalidArgument, sink, []⟩ := by
      rcases h.backend with hsync | ⟨huring, -, hring⟩ | ⟨hauto, -⟩
      · simp [opsWrite, FileSink.usesUring, hsync, fileSinkSyncWrite, h.stream]
      · rw [opsWrite, if_pos (by simp [FileSink.usesUring, huring]), fileSinkUringWrite, hring]
      · simp [opsWrite, FileSink.usesUring, hauto, fileSinkSyncWrite, h.stream]
    rw [fileSinkWrite_eq os sink hne, h.not_due, if_neg Bool.false_ne_true, writeTail, hops]
    rfl

theorem fileSinkFlush_closed {sink : FileSink} (h : sink.IsClosed) (answer : FlushAnswer) :
    fileSinkFlush answer sink = ⟨.invalidArgument, sink, []⟩ := by
  rcases h.backend with hsync | ⟨huring, hfd, -⟩ | ⟨hauto, -⟩
  · simp [fileSinkFlush, opsFlush, FileSink.usesUring, hsync, fileSinkSyncFlush, h.stream]
  · simp [fileSinkFlush, opsFlush, FileSink.usesUring, huring, fileSinkUringFlush, hfd]
  · simp [fileSinkFlush, opsFlush, FileSink.usesUring, hauto, fileSinkSyncFlush, h.stream]

/-! ## Opening and closing -/

structure Opened (path : Bytes) (d : Disk) (out : Out FileSink) : Prop where
  isOpen : out.state.IsOpen path
  settled : out.state.Settled
  pending : out.state.pending = []
  rotatedPaths : out.state.rotatedPaths = []
  disk : d.run out.effects = d.apply (.create path)

theorem opsOpen_opened {path : Bytes} {sink : FileSink} (h : sink.IsStranded path) (hpaths : sink.rotatedPaths = [])
    (syncOpen : Option Nat) (uringOpen : UringOpen) (d : Disk) :
    (opsOpen syncOpen uringOpen sink).status = .ok ∧ Opened path d (opsOpen syncOpen uringOpen sink) ∨
    (opsOpen syncOpen uringOpen sink).status ≠ .ok ∧ (opsOpen syncOpen uringOpen sink).state = sink ∧
      d.run (opsOpen syncOpen uringOpen sink).effects = d := by
  by_cases hopens : sink.Reopens syncOpen uringOpen
  · obtain ⟨hok, hopen, hsettled, hpending, hhandles, hdisk⟩ := opsOpen_ready h hopens d
    exact .inl ⟨hok, hopen, hsettled, hpending, by rw [hhandles]; exact hpaths, hdisk⟩
  · exact .inr (opsOpen_stranded h hopens d)

theorem fileSinkClose_isClosed {sink : FileSink} (answer : CloseAnswer)
    (h : sink.activeBackend = .ioUring → sink.stream = none)
    (hauto : sink.activeBackend = .auto → sink.bytesWritten = 0) : (fileSinkClose answer sink).1.IsClosed := by
  simp only [fileSinkClose]
  cases hbackend : sink.activeBackend with
  | auto =>
    rw [opsClose, if_neg (by simp [FileSink.usesUring, hbackend]), fileSinkSyncClose]
    split
    · rename_i hs
      exact ⟨hs, .inr (.inr ⟨hbackend, hauto hbackend⟩)⟩
    · exact ⟨rfl, .inr (.inr ⟨hbackend, hauto hbackend⟩)⟩
  | sync =>
    rw [opsClose, if_neg (by simp [FileSink.usesUring, hbackend]), fileSinkSyncClose]
    split
    · rename_i hs
      exact ⟨hs, .inl hbackend⟩
    · exact ⟨rfl, .inl hbackend⟩
  | ioUring =>
    rw [opsClose, if_pos (by simp [FileSink.usesUring, hbackend]), fileSinkUringClose_eq]
    refine ⟨h hbackend, .inr (.inl ⟨hbackend, ?_, rfl⟩)⟩
    simp only
    split
    · decide
    · omega

theorem FileSink.IsClosed.close {sink : FileSink} (h : sink.IsClosed) (answer : CloseAnswer) :
    fileSinkClose answer sink = ({ sink with rotatedPaths := [], path := none }, []) := by
  have hops : opsClose answer sink = (sink, []) := by
    rcases h.backend with hsync | ⟨huring, hfd, hring⟩ | ⟨hauto, -⟩
    · simp [opsClose, FileSink.usesUring, hsync, fileSinkSyncClose, h.stream]
    swap
    · simp [opsClose, FileSink.usesUring, hauto, fileSinkSyncClose, h.stream]
    · rw [opsClose, if_pos (by simp [FileSink.usesUring, huring]), fileSinkUringClose_eq, if_neg (by omega),
        if_neg (by omega), hring]
      change ({ sink with uring := none }, ([] : List Effect)) = (sink, [])
      rw [← hring]
  rw [fileSinkClose, hops]

theorem World.Open.close {path : Bytes} {w : World} (h : w.Open path) (answer : CloseAnswer) :
    (fileSinkClose answer w.sink).1.IsClosed ∧
      (∀ p, p ≠ path → (w.disk.run (fileSinkClose answer w.sink).2).files p = w.disk.files p) ∧
      (w.disk.run (fileSinkClose answer w.sink).2).moved = w.disk.moved := by
  refine ⟨fileSinkClose_isClosed answer ?_ ?_, ?_⟩
  · rcases h.isOpen.backend with ⟨hsync, -⟩ | ⟨-, hstream, -⟩
    · rw [hsync]
      exact nofun
    · exact fun _ => hstream
  · rcases h.isOpen.backend with ⟨hsync, -⟩ | ⟨huring, -⟩
    · rw [hsync]
      exact nofun
    · rw [huring]
      exact nofun
  · rcases h.isOpen.backend with ⟨hsync, hstream⟩ | ⟨huring, -, hfd, hring⟩
    · obtain ⟨stream, hs⟩ := Option.isSome_iff_exists.1 hstream
      have hops : (fileSinkClose answer w.sink).2 =
          [.append path (answer.writes stream.buffered), .closeFd stream.fd] := by
        simp [fileSinkClose, opsClose, FileSink.usesUring, hsync, fileSinkSyncClose, hs, file_eq h]
      rw [hops]
      exact ⟨fun p hp => Disk.set_files_other _ hp _, rfl⟩
    · obtain ⟨ring, hr⟩ := Option.isSome_iff_exists.1 hring
      have hops : (fileSinkClose answer w.sink).2 = [.closeFd w.sink.fd.toNat, .closeFd ring.fd] := by
        simp [fileSinkClose, opsClose, FileSink.usesUring, huring, fileSinkUringClose, hfd, hr]
      rw [hops]
      exact ⟨fun _ _ => rfl, rfl⟩

theorem World.Open.close_file {path : Bytes} {w : World} (h : w.Open path) (answer : CloseAnswer) :
    (w.disk.run (fileSinkClose answer w.sink).2).files path =
      some (w.disk.contents path ++ answer.writes w.sink.pending) := by
  obtain ⟨octets, hfile⟩ := Option.isSome_iff_exists.1 h.file
  have hcontents : w.disk.contents path = octets := by
    rw [Disk.contents, hfile]
    rfl
  rcases h.isOpen.backend with ⟨hsync, hstream⟩ | ⟨huring, hstream, hfd, hring⟩
  · obtain ⟨stream, hs⟩ := Option.isSome_iff_exists.1 hstream
    have hops : (fileSinkClose answer w.sink).2 =
        [.append path (answer.writes stream.buffered), .closeFd stream.fd] := by
      simp [fileSinkClose, opsClose, FileSink.usesUring, hsync, fileSinkSyncClose, hs, file_eq h]
    have hpending : w.sink.pending = stream.buffered := by
      rw [FileSink.pending, hs]
      rfl
    rw [hops, hpending, hcontents]
    change (w.disk.set path _).files path = _
    rw [Disk.set_files_self, hfile]
    rfl
  · obtain ⟨ring, hr⟩ := Option.isSome_iff_exists.1 hring
    have hops : (fileSinkClose answer w.sink).2 = [.closeFd w.sink.fd.toNat, .closeFd ring.fd] := by
      simp [fileSinkClose, opsClose, FileSink.usesUring, huring, fileSinkUringClose, hfd, hr]
    have hnone : answer.writes w.sink.pending = [] := by
      rw [FileSink.pending, hstream]
      cases answer with
      | ok => rfl
      | failed written => exact List.take_nil
    rw [hops, hnone, hcontents, List.append_nil, ← hfile]
    rfl

/-- The open call of `ij_file_sink_open`, with its fallback from io_uring. -/
def openBackend (os : OpenOs) (sink : FileSink) : Out FileSink :=
  if FileBackend.ofCode? sink.requestedBackend = some .ioUring then
    let tried := fileSinkUringOpen os.uringOpen { sink with activeBackend := .ioUring }
    if tried.status = .ok then tried
    else
      let synced := fileSinkSyncOpen os.syncOpen { tried.state with activeBackend := .sync, fd := -1, uring := none }
      ⟨synced.status, synced.state, tried.effects ++ synced.effects⟩
  else fileSinkSyncOpen os.syncOpen { sink with activeBackend := .sync }

theorem openBackend_opened {path : Bytes} {sink : FileSink} (hpath : sink.path = some path)
    (hstream : sink.stream = none) (hfd : sink.fd < 0) (huring : sink.uring = none) (hpaths : sink.rotatedPaths = [])
    (os : OpenOs) (d : Disk) :
    (openBackend os sink).status = .ok ∧ Opened path d (openBackend os sink) ∨
    (openBackend os sink).status ≠ .ok ∧ (openBackend os sink).state.IsStranded path ∧
      d.run (openBackend os sink).effects = d := by
  have hsync : ∀ s : FileSink, s.activeBackend = .sync → fileSinkSyncOpen os.syncOpen s =
      opsOpen os.syncOpen os.uringOpen s := by
    intro s hs
    simp [opsOpen, FileSink.usesUring, hs]
  have hring : ∀ s : FileSink, s.activeBackend = .ioUring → fileSinkUringOpen os.uringOpen s =
      opsOpen os.syncOpen os.uringOpen s := by
    intro s hs
    simp [opsOpen, FileSink.usesUring, hs]
  simp only [openBackend]
  split
  · have hstranded : FileSink.IsStranded path { sink with activeBackend := .ioUring } :=
      ⟨hpath, hstream, .inr ⟨rfl, hfd, huring⟩⟩
    rw [hring _ rfl]
    rcases opsOpen_opened hstranded hpaths os.syncOpen os.uringOpen d with ⟨hok, hopened⟩ | ⟨hbad, hsame, hdisk⟩
    · rw [if_pos hok]
      exact .inl ⟨hok, hopened⟩
    · rw [if_neg hbad, hsame, hsync _ rfl]
      have hstranded' : FileSink.IsStranded path
          { sink with activeBackend := .sync, fd := -1, uring := none } := ⟨hpath, hstream, .inl rfl⟩
      rcases opsOpen_opened hstranded' hpaths os.syncOpen os.uringOpen d with ⟨hok, hopened⟩ | ⟨hbad', hsame', hdisk'⟩
      · refine .inl ⟨hok, hopened.isOpen, hopened.settled, hopened.pending, hopened.rotatedPaths, ?_⟩
        rw [Disk.run_append, hdisk]
        exact hopened.disk
      · refine .inr ⟨hbad', by rw [hsame']; exact hstranded', ?_⟩
        rw [Disk.run_append, hdisk, hdisk']
  · have hstranded : FileSink.IsStranded path { sink with activeBackend := .sync } := ⟨hpath, hstream, .inl rfl⟩
    rw [hsync _ rfl]
    rcases opsOpen_opened hstranded hpaths os.syncOpen os.uringOpen d with ⟨hok, hopened⟩ | ⟨hbad, hsame, hdisk⟩
    · exact .inl ⟨hok, hopened⟩
    · exact .inr ⟨hbad, by rw [hsame]; exact hstranded, hdisk⟩

/-- The sink as `ij_file_sink_open` prepares it, with the path stored. -/
def FileSink.blank (requestedBackend : Int) (path : Bytes) : FileSink :=
  { FileSink.zero with fd := -1, requestedBackend, path := some path }

theorem fileSinkOpen_eq (os : OpenOs) (sink : FileSink) {path : Bytes} (hne : path ≠ []) :
    fileSinkOpen os sink (some path) =
      if os.storePath then
        let opened := openBackend os (.blank sink.requestedBackend path)
        if opened.status = .ok then
          ⟨.ok, { opened.state with bytesWritten := 0, rotationSequence := 0, lastRotationEpoch := os.now }, opened.effects⟩
        else
          ⟨opened.status, (fileSinkClose .ok opened.state).1, opened.effects ++ (fileSinkClose .ok opened.state).2⟩
      else ⟨.internalError, { FileSink.zero with fd := -1, requestedBackend := sink.requestedBackend }, []⟩ := by
  have hopened : openBackend os (.blank sink.requestedBackend path) = openBackend os
    { FileSink.zero with fd := -1, requestedBackend := sink.requestedBackend, path := some path } := rfl
  cases hstore : os.storePath with
  | false => simp [fileSinkOpen, hne, hstore]
  | true =>
    by_cases hok : (openBackend os (.blank sink.requestedBackend path)).status = .ok
    · simp only [if_true, if_pos hok]
      rw [hopened] at hok ⊢
      simp only [openBackend] at hok ⊢
      simp only [fileSinkOpen, if_neg hne, hstore, Bool.not_true, Bool.false_eq_true, if_false]
      rw [if_neg (not_not.2 hok)]
    · simp only [if_true, if_neg hok]
      rw [hopened] at hok ⊢
      simp only [openBackend] at hok ⊢
      simp only [fileSinkOpen, if_neg hne, hstore, Bool.not_true, Bool.false_eq_true, if_false]
      rw [if_pos hok]

theorem fileSinkOpen_result (os : OpenOs) (sink : FileSink) {path : Bytes} (hne : path ≠ []) (d : Disk) :
    (fileSinkOpen os sink (some path)).status = .ok ∧ Opened path d (fileSinkOpen os sink (some path)) ∧
      (fileSinkOpen os sink (some path)).state.bytesWritten = 0 ∧
      (fileSinkOpen os sink (some path)).state.rotationSequence = 0 ∨
    (fileSinkOpen os sink (some path)).status ≠ .ok ∧ (fileSinkOpen os sink (some path)).state.IsClosed ∧
      d.run (fileSinkOpen os sink (some path)).effects = d := by
  rw [fileSinkOpen_eq os sink hne]
  cases os.storePath with
  | false => exact .inr ⟨nofun, ⟨rfl, .inr (.inr ⟨rfl, rfl⟩)⟩, rfl⟩
  | true =>
    simp only [if_true]
    rcases openBackend_opened (show (FileSink.blank sink.requestedBackend path).path = some path from rfl) rfl
      (show (-1 : Int) < 0 by decide) rfl rfl os d with ⟨hok, hopened⟩ | ⟨hbad, hstranded, hdisk⟩
    · rw [if_pos hok]
      exact .inl ⟨rfl, ⟨⟨hopened.isOpen.path, hopened.isOpen.backend⟩, hopened.settled, hopened.pending, hopened.rotatedPaths,
        hopened.disk⟩, rfl, rfl⟩
    · rw [if_neg hbad, hstranded.isClosed.close, List.append_nil]
      exact .inr ⟨hbad, ⟨hstranded.isClosed.stream, hstranded.isClosed.backend⟩, hdisk⟩

theorem noRename_openBackend (os : OpenOs) (sink : FileSink) :
    ∀ e ∈ (openBackend os sink).effects, Disk.NoRename e := by
  simp only [openBackend]
  split
  · split
    · exact noRename_fileSinkUringOpen _ _
    · intro e he
      rcases List.mem_append.1 he with he | he
      · exact noRename_fileSinkUringOpen _ _ e he
      · exact noRename_fileSinkSyncOpen _ _ e he
  · exact noRename_fileSinkSyncOpen _ _

theorem noRename_fileSinkOpen (os : OpenOs) (sink : FileSink) {path : Bytes} (hne : path ≠ []) :
    ∀ e ∈ (fileSinkOpen os sink (some path)).effects, Disk.NoRename e := by
  rw [fileSinkOpen_eq os sink hne]
  have hopened := noRename_openBackend os (.blank sink.requestedBackend path)
  cases os.storePath with
  | false => exact List.forall_mem_nil _
  | true =>
    simp only [if_true]
    split
    · exact hopened
    · intro e he
      rcases List.mem_append.1 he with he | he
      · exact hopened e he
      · exact noRename_opsClose _ _ e he

end IoJournal
