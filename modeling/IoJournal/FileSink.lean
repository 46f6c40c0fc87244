import IoJournal.Posix.Disk
import IoJournal.Timestamp

/-!
# IoJournal.FileSink

The file sink: `sinks/ij_file_sink.c` with its two backends `sinks/ij_file_sink_sync.c` and
`sinks/ij_file_sink_uring.c`.

Every function takes the answers of the system calls it makes, and returns its status, the sink
and the effects in the order in which they happened. The sink never reads a file, so the answers
are all it learns. A stream keeps the octets that `fwrite` took and that have not reached the file
yet. A build without liburing is one in which `uringOpen` always answers `noRing`.
-/

namespace IoJournal

open Wire Posix

structure Out (σ : Type) where
  status : Status
  state : σ
  effects : List Effect

/-- A `FILE` opened with `"ab"`. -/
structure Stream where
  fd : Nat
  buffered : Bytes
  deriving DecidableEq

/-- An `io_uring`, with the requests of calls that were broken off: the lengths of their payloads, in the
order in which they were made. -/
structure IoUring where
  fd : Nat
  left : List Nat
  deriving DecidableEq

/-- `ij_file_sink_t` -/
structure FileSink where
  path : Option Bytes
  requestedBackend : Int
  activeBackend : FileBackend
  stream : Option Stream
  fd : Int
  uring : Option IoUring
  rotateBytes : Nat
  rotateIntervalSeconds : Nat
  retentionFiles : Nat
  bytesWritten : Nat
  rotationSequence : Nat
  lastRotationEpoch : Int
  rotatedPaths : List Bytes
  deriving DecidableEq

def FileSink.zero : FileSink where
  path := none
  requestedBackend := 0
  activeBackend := .auto
  stream := none
  fd := 0
  uring := none
  rotateBytes := 0
  rotateIntervalSeconds := 0
  retentionFiles := 0
  bytesWritten := 0
  rotationSequence := 0
  lastRotationEpoch := 0
  rotatedPaths := []

/-! ## Answers -/

/-- `fwrite`: how many octets it took, and how many of those waiting then went to the file. -/
structure FwriteAnswer where
  count : Nat
  spill : Nat

/-- `fflush`: a failed one has written some octets and kept or dropped the others. -/
inductive FlushAnswer where
  | ok
  | failed (written : Nat) (kept : Bool)
  deriving DecidableEq

/-- `fclose`: a failed one has written some octets and dropped the others. -/
inductive CloseAnswer where
  | ok
  | failed (written : Nat)
  deriving DecidableEq

/-- The calls of `ij_file_sink_uring_open`: `calloc`, `io_uring_queue_init`, `open`. -/
inductive UringOpen where
  | noMemory
  | noRing
  | noFile (ring : Nat)
  | opened (ring fd : Nat)
  deriving DecidableEq

/-- `io_uring_get_sqe` and the drain: no entry, a submit or wait that failed after some octets may
have been written, or a completion. -/
inductive UringEnd where
  | noSqe
  | failed (written : Nat)
  | completed (res : Int)
  deriving DecidableEq

/-- The answers of one `ij_file_sink_uring_write`. The last two are about requests that were left in the
ring: which request has the oldest completion, and what all of them put into the file, from buffers that
hold something else by now. -/
structure UringWrite where
  ends : UringEnd
  first : Nat
  octets : Bytes

structure RotateOs where
  nameNow : Int
  flush : FlushAnswer
  close : CloseAnswer
  rename : Bool
  record : Bool
  rotatedNow : Int
  unlink : Bytes → Bool
  syncOpen : Option Nat
  uringOpen : UringOpen

structure WriteOs extends RotateOs where
  dueNow : Int
  fwrite : FwriteAnswer
  uring : UringWrite

structure OpenOs where
  storePath : Bool
  syncOpen : Option Nat
  uringOpen : UringOpen
  now : Int

/-! ## The synchronous backend -/

def FileSink.file (sink : FileSink) : Bytes := sink.path.getD []

def fileSinkSyncOpen (answer : Option Nat) (sink : FileSink) : Out FileSink :=
  match sink.path with
  | none => ⟨.invalidArgument, sink, []⟩
  | some path =>
    match answer with
    | none => ⟨.sinkError, { sink with stream := none }, []⟩
    | some fd => ⟨.ok, { sink with stream := some ⟨fd, []⟩ }, [.openFd fd, .create path]⟩

def fileSinkSyncWrite (answer : FwriteAnswer) (sink : FileSink) (payload : Bytes) : Out FileSink :=
  match sink.stream with
  | none => ⟨.invalidArgument, sink, []⟩
  | some stream =>
    if payload.length = 0 then ⟨.invalidArgument, sink, []⟩
    else
      let pending := stream.buffered ++ payload.take answer.count
      let sink := { sink with stream := some { stream with buffered := pending.drop answer.spill } }
      let effects := [.append sink.file (pending.take answer.spill)]
      if answer.count < payload.length then ⟨.sinkError, sink, effects⟩ else ⟨.ok, sink, effects⟩

def fileSinkSyncFlush (answer : FlushAnswer) (sink : FileSink) : Out FileSink :=
  match sink.stream with
  | none => ⟨.invalidArgument, sink, []⟩
  | some stream =>
    match answer with
    | .ok => ⟨.ok, { sink with stream := some { stream with buffered := [] } }, [.append sink.file stream.buffered]⟩
    | .failed written kept =>
      ⟨.sinkError,
        { sink with stream := some { stream with buffered := if kept then stream.buffered.drop written else [] } },
        [.append sink.file (stream.buffered.take written)]⟩

/-- The octets that `fclose` still writes. -/
def CloseAnswer.writes (answer : CloseAnswer) (buffered : Bytes) : Bytes :=
  match answer with
  | .ok => buffered
  | .failed written => buffered.take written

def fileSinkSyncClose (answer : CloseAnswer) (sink : FileSink) : FileSink × List Effect :=
  match sink.stream with
  | none => (sink, [])
  | some stream =>
    ({ sink with stream := none },
      [.append sink.file (answer.writes stream.buffered), .closeFd stream.fd])

/-! ## The io_uring backend -/

def fileSinkUringOpen (answer : UringOpen) (sink : FileSink) : Out FileSink :=
  match sink.path with
  | none => ⟨.invalidArgument, sink, []⟩
  | some path =>
    match answer with
    | .noMemory => ⟨.internalError, sink, []⟩
    | .noRing => ⟨.sinkError, sink, []⟩
    | .noFile ring => ⟨.sinkError, sink, [.openFd ring, .closeFd ring]⟩
    | .opened ring fd =>
      ⟨.ok, { sink with fd := fd, uring := some ⟨ring, []⟩ }, [.openFd ring, .openFd fd, .create path]⟩

/-- The result of `ij_file_sink_uring_drain` and the octets that reached the file. -/
def UringWrite.drain (answer : UringWrite) (ring : IoUring) (payload : Bytes) : Int × Bytes :=
  let octets (written : Nat) := if ring.left = [] then payload.take written else answer.octets
  match answer.ends with
  | .noSqe => (-1, [])
  | .failed written => (-1, octets written)
  | .completed res => (res, octets res.toNat)

/-- The ring after the drain. Nothing but a completion takes a request out of it. -/
def UringWrite.leaves (answer : UringWrite) (ring : IoUring) (payload : Bytes) : IoUring :=
  let made := ring.left ++ [payload.length]
  match answer.ends with
  | .noSqe => ring
  | .failed _ => { ring with left := made }
  | .completed _ => { ring with left := made.eraseIdx (min answer.first ring.left.length) }

def fileSinkUringWrite (answer : UringWrite) (sink : FileSink) (payload : Bytes) : Out FileSink :=
  match sink.uring with
  | none => ⟨.invalidArgument, sink, []⟩
  | some ring =>
    if sink.fd < 0 ∨ payload.length = 0 then ⟨.invalidArgument, sink, []⟩
    else if 4294967295 < payload.length then ⟨.invalidArgument, sink, []⟩
    else if answer.ends = .noSqe then ⟨.sinkError, sink, []⟩
    else
      let (rc, octets) := answer.drain ring payload
      let sink := { sink with uring := some (answer.leaves ring payload) }
      let effects := [.append sink.file octets]
      if rc < 0 ∨ rc ≠ payload.length then ⟨.sinkError, sink, effects⟩ else ⟨.ok, sink, effects⟩

def fileSinkUringFlush (sink : FileSink) : Out FileSink :=
  if sink.uring.isNone ∨ sink.fd < 0 then ⟨.invalidArgument, sink, []⟩ else ⟨.ok, sink, []⟩

def fileSinkUringClose (sink : FileSink) : FileSink × List Effect :=
  let (sink, es) := if 0 ≤ sink.fd then ({ sink with fd := -1 }, [Effect.closeFd sink.fd.toNat]) else (sink, [])
  match sink.uring with
  | none => (sink, es)
  | some ring => ({ sink with uring := none }, es ++ [.closeFd ring.fd])

/-! ## Dispatch -/

/-- `ij_file_sink_ops`: is it the io_uring table? -/
def FileSink.usesUring (sink : FileSink) : Bool := sink.activeBackend == .ioUring

def opsOpen (syncOpen : Option Nat) (uringOpen : UringOpen) (sink : FileSink) : Out FileSink :=
  if sink.usesUring then fileSinkUringOpen uringOpen sink else fileSinkSyncOpen syncOpen sink

def opsWrite (fwrite : FwriteAnswer) (uring : UringWrite) (sink : FileSink) (payload : Bytes) : Out FileSink :=
  if sink.usesUring then fileSinkUringWrite uring sink payload else fileSinkSyncWrite fwrite sink payload

def opsFlush (answer : FlushAnswer) (sink : FileSink) : Out FileSink :=
  if sink.usesUring then fileSinkUringFlush sink else fileSinkSyncFlush answer sink

def opsClose (answer : CloseAnswer) (sink : FileSink) : FileSink × List Effect :=
  if sink.usesUring then fileSinkUringClose sink else fileSinkSyncClose answer sink

/-! ## Rotation -/

/-- `%0<w>d`. -/
def printfD (w : Nat) (n : Int) : Bytes := if n < 0 then 0x2D :: padded (w - 1) n.natAbs else padded w n.natAbs

/-- The format of `ij_file_sink_make_rotation_path` with its arguments put in. -/
def rotationText (path : Bytes) (tm : Tm) (sequence : Nat) : Bytes :=
  path ++ ascii "." ++ printfD 4 (tm.tmYear + 1900) ++ padded 2 (tm.tmMon + 1) ++ padded 2 tm.tmMday ++ ascii "T" ++
    padded 2 tm.tmHour ++ padded 2 tm.tmMin ++ padded 2 tm.tmSec ++ ascii "Z." ++ padded 6 sequence

/-- `size_t` and `uint64_t` wrap at this. -/
def wordSize : Nat := 18446744073709551616

/-- `ij_file_sink_make_rotation_path`, at the time `now`. -/
def fileSinkMakeRotationPath (sink : FileSink) (now : Int) (bufferSize : Nat) : Except Status Bytes :=
  match sink.path with
  | none => .error .invalidArgument
  | some path =>
    match gmtimeR now with
    | none => .error .sinkError
    | some tm =>
      let text := rotationText path tm ((sink.rotationSequence + 1) % wordSize)
      if bufferSize ≤ text.length ∨ text.length ≤ path.length then .error .sinkError else .ok text

/-- `ij_file_sink_rotation_due`, at the time `now`. -/
def fileSinkRotationDue (sink : FileSink) (nextPayloadLen : Nat) (now : Int) : Bool :=
  if sink.activeBackend = .sync ∧ sink.stream = none ∨ sink.activeBackend = .ioUring ∧ sink.fd < 0 then false
  else if 0 < sink.rotateBytes ∧ 0 < sink.bytesWritten ∧
      sink.rotateBytes < (sink.bytesWritten + nextPayloadLen) % wordSize then true
  else
    decide (0 < sink.rotateIntervalSeconds ∧ 0 < sink.bytesWritten ∧ sink.lastRotationEpoch < now ∧
      sink.rotateIntervalSeconds ≤ now - sink.lastRotationEpoch)

/-- The loop of `ij_file_sink_apply_retention` over `rotated_paths`. -/
def applyRetention (unlink : Bytes → Bool) (retention : Nat) : List Bytes → List Bytes × List Effect
  | [] => ([], [])
  | p :: ps =>
    if 0 < retention ∧ retention < (p :: ps).length then
      let (kept, es) := applyRetention unlink retention ps
      (kept, .unlink p (unlink p) :: es)
    else (p :: ps, [])

def rotationBufferSize : Nat := 4096

/-- `ij_file_sink_rotate`. -/
def fileSinkRotate (os : RotateOs) (sink : FileSink) : Out FileSink :=
  match fileSinkMakeRotationPath sink os.nameNow rotationBufferSize with
  | .error _ => ⟨if sink.path.isNone then .invalidArgument else .sinkError, sink, []⟩
  | .ok rotated =>
    let flushed := opsFlush os.flush sink
    if flushed.status ≠ .ok then flushed
    else
      let (sink, closed) := opsClose os.close flushed.state
      let effects := flushed.effects ++ closed ++ [.rename sink.file rotated os.rename]
      if !os.rename then ⟨.sinkError, sink, effects⟩
      else if !os.record then ⟨.internalError, sink, effects⟩
      else
        let (kept, removed) := applyRetention os.unlink sink.retentionFiles (sink.rotatedPaths ++ [rotated])
        let sink := { sink with
          rotationSequence := (sink.rotationSequence + 1) % wordSize
          bytesWritten := 0
          lastRotationEpoch := os.rotatedNow
          rotatedPaths := kept }
        let opened := opsOpen os.syncOpen os.uringOpen sink
        ⟨opened.status, opened.state, effects ++ removed ++ opened.effects⟩

/-! ## The sink -/

/-- `ij_file_sink_close`. -/
def fileSinkClose (answer : CloseAnswer) (sink : FileSink) : FileSink × List Effect :=
  let (sink, es) := opsClose answer sink
  ({ sink with rotatedPaths := [], path := none }, es)

/-- `ij_file_sink_open`. The close on failure finds no stream to write out. -/
def fileSinkOpen (os : OpenOs) (sink : FileSink) (path : Option Bytes) : Out FileSink :=
  match path with
  | none => ⟨.invalidArgument, sink, []⟩
  | some path =>
    if path = [] then ⟨.invalidArgument, sink, []⟩
    else
      let sink := { FileSink.zero with fd := -1, requestedBackend := sink.requestedBackend }
      if !os.storePath then ⟨.internalError, sink, []⟩
      else
        let sink := { sink with path := some path }
        let opened : Out FileSink :=
          if FileBackend.ofCode? sink.requestedBackend = some .ioUring then
            let tried := fileSinkUringOpen os.uringOpen { sink with activeBackend := .ioUring }
            if tried.status = .ok then tried
            else
              let synced := fileSinkSyncOpen os.syncOpen
                { tried.state with activeBackend := .sync, fd := -1, uring := none }
              ⟨synced.status, synced.state, tried.effects ++ synced.effects⟩
          else fileSinkSyncOpen os.syncOpen { sink with activeBackend := .sync }
        if opened.status ≠ .ok then
          let (sink, es) := fileSinkClose .ok opened.state
          ⟨opened.status, sink, opened.effects ++ es⟩
        else
          ⟨.ok, { opened.state with bytesWritten := 0, rotationSequence := 0, lastRotationEpoch := os.now },
            opened.effects⟩

/-- `ij_file_sink_write`. -/
def fileSinkWrite (os : WriteOs) (sink : FileSink) (payload : Bytes) : Out FileSink :=
  if payload.length = 0 then ⟨.invalidArgument, sink, []⟩
  else
    let rotated : Out FileSink := if fileSinkRotationDue sink payload.length os.dueNow then
        fileSinkRotate os.toRotateOs sink
      else ⟨.ok, sink, []⟩
    if rotated.status ≠ .ok then rotated
    else
      let written := opsWrite os.fwrite os.uring rotated.state payload
      let effects := rotated.effects ++ written.effects
      if written.status = .ok then
        ⟨.ok, { written.state with bytesWritten := (written.state.bytesWritten + payload.length) % wordSize }, effects⟩
      else ⟨written.status, written.state, effects⟩

/-- `ij_file_sink_flush`. -/
def fileSinkFlush (answer : FlushAnswer) (sink : FileSink) : Out FileSink := opsFlush answer sink

end IoJournal
