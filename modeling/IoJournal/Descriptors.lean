import IoJournal.Posix.Descriptors
import IoJournal.Runs.Machine
import IoJournal.Delivery

/-!
# IoJournal.Descriptors

Which descriptors the loggers of a process close.

Each operation of a sink closes what the sink holds and nothing else; that is a triple `Keeps` for
every function. The exception is `ij_logger_shutdown`, which closes both sinks of a logger whatever
its kind. The syslog sink of a console or file logger is still zeroed, and its descriptor 0 counts as
an open one (`loggerShutdown_owned_iff`).
-/

namespace IoJournal

open Wire Posix

/-! ## The file sink -/

/-- The descriptors that the sink has to close. -/
def FileSink.held (sink : FileSink) : List Nat :=
  if sink.usesUring then (if 0 ≤ sink.fd then [sink.fd.toNat] else []) ++ sink.uring.toList.map (·.fd)
  else (sink.stream.map (·.fd)).toList

theorem held_of_uring {sink : FileSink} (h : sink.usesUring = true) :
    sink.held = (if 0 ≤ sink.fd then [sink.fd.toNat] else []) ++ sink.uring.toList.map (·.fd) := if_pos h

theorem held_of_sync {sink : FileSink} (h : sink.usesUring = false) : sink.held = (sink.stream.map (·.fd)).toList := by
  rw [FileSink.held, h]
  rfl

section FileSink

variable {ω : Type} (who : ω)

theorem fileSinkSyncOpen_keeps (answer : Option Nat) {sink : FileSink} (h : sink.usesUring = false) :
    Keeps who sink.held (fileSinkSyncOpen answer sink).effects (fileSinkSyncOpen answer sink).state.held := by
  unfold fileSinkSyncOpen
  split
  · exact silent_nil.keeps
  · rename_i path _
    split
    · have hheld : FileSink.held { sink with stream := none } = [] := held_of_sync h
      rw [hheld]
      exact silent_nil.keeps.mono (fun _ hfd => hfd) nofun
    · rename_i fd
      have hheld : FileSink.held { sink with stream := some ⟨fd, []⟩ } = [fd] := held_of_sync h
      rw [hheld]
      have hcreate : Silent [.create path] := silent_cons rfl silent_nil
      refine ((Keeps.openFd fd).append hcreate.keeps).mono (fun _ hfd => hfd) fun n hn => ?_
      rw [List.mem_singleton.1 hn]
      exact List.mem_cons_self

theorem fileSinkUringOpen_keeps (answer : UringOpen) {sink : FileSink} (h : sink.usesUring = true) :
    Keeps who sink.held (fileSinkUringOpen answer sink).effects (fileSinkUringOpen answer sink).state.held := by
  unfold fileSinkUringOpen
  split
  · exact silent_nil.keeps
  · rename_i path _
    cases answer with
    | noMemory => exact silent_nil.keeps
    | noRing => exact silent_nil.keeps
    | noFile ring => exact Keeps.openClose ring
    | opened ring fd =>
      have hheld : FileSink.held { sink with fd := fd, uring := some ⟨ring, []⟩ } = [fd, ring] :=
        held_of_uring h
      rw [hheld]
      have hcreate : Silent [.create path] := silent_cons rfl silent_nil
      refine (((Keeps.openFd ring).append (.openFd fd)).append hcreate.keeps).mono (fun _ hfd => hfd) fun n hn => ?_
      simp only [List.mem_cons, List.not_mem_nil, or_false] at hn ⊢
      rcases hn with hn | hn
      · exact .inl hn
      · exact .inr (.inl hn)

theorem opsOpen_keeps (syncOpen : Option Nat) (uringOpen : UringOpen) (sink : FileSink) :
    Keeps who sink.held (opsOpen syncOpen uringOpen sink).effects (opsOpen syncOpen uringOpen sink).state.held := by
  unfold opsOpen
  split
  · rename_i huring
    exact fileSinkUringOpen_keeps who uringOpen huring
  · rename_i hsync
    exact fileSinkSyncOpen_keeps who syncOpen (Bool.eq_false_iff.2 hsync)

/-- Closing writes out what is buffered and then closes what the sink holds. -/
theorem opsClose_effects (answer : CloseAnswer) (sink : FileSink) :
    ∃ es, Silent es ∧ (opsClose answer sink).2 = es ++ sink.held.map .closeFd ∧ (opsClose answer sink).1.held = [] := by
  unfold opsClose
  split
  · rename_i huring
    rw [fileSinkUringClose_eq, held_of_uring huring]
    by_cases hfd : 0 ≤ sink.fd
    · rw [if_pos hfd, if_pos hfd, if_pos hfd]
      have hheld : FileSink.held { sink with fd := -1, uring := none } = [] := held_of_uring huring
      refine ⟨[], silent_nil, ?_, hheld⟩
      rw [List.map_append, List.map_map]
      rfl
    · rw [if_neg hfd, if_neg hfd, if_neg hfd]
      have hheld : FileSink.held { sink with uring := none } = (if 0 ≤ sink.fd then [sink.fd.toNat] else []) ++ [] :=
        held_of_uring huring
      rw [if_neg hfd] at hheld
      refine ⟨[], silent_nil, ?_, hheld⟩
      rw [List.map_append, List.map_map]
      rfl
  · rename_i hsync
    have hsync : sink.usesUring = false := Bool.eq_false_iff.2 hsync
    unfold fileSinkSyncClose
    split
    · rename_i hstream
      rw [held_of_sync hsync, hstream]
      exact ⟨[], silent_nil, rfl, rfl⟩
    · rename_i stream hstream
      have hheld : FileSink.held { sink with stream := none } = [] := held_of_sync hsync
      rw [held_of_sync hsync, hstream]
      exact ⟨[_], silent_cons rfl silent_nil, rfl, hheld⟩

theorem opsClose_keeps (answer : CloseAnswer) (sink : FileSink) :
    Keeps who sink.held (opsClose answer sink).2 (opsClose answer sink).1.held := by
  obtain ⟨es, hsilent, heffects, hheld⟩ := opsClose_effects answer sink
  rw [heffects, hheld]
  exact hsilent.keeps.append .closeAll

theorem held_buffered {sink : FileSink} {stream : Stream} (hsync : sink.usesUring = false)
    (hstream : sink.stream = some stream) (buffered : Bytes) :
    FileSink.held { sink with stream := some { stream with buffered := buffered } } = sink.held := by
  have hheld : sink.held = (sink.stream.map (·.fd)).toList := held_of_sync hsync
  rw [hheld, hstream]
  exact held_of_sync hsync

theorem opsFlush_keeps (answer : FlushAnswer) (sink : FileSink) :
    Keeps who sink.held (opsFlush answer sink).effects (opsFlush answer sink).state.held := by
  unfold opsFlush
  split
  · unfold fileSinkUringFlush
    split
    · exact silent_nil.keeps
    · exact silent_nil.keeps
  · rename_i hsync
    unfold fileSinkSyncFlush
    split
    · exact silent_nil.keeps
    · rename_i stream hstream
      have hsame := held_buffered (Bool.eq_false_iff.2 hsync) hstream
      cases answer with
      | ok =>
        simp only [hsame]
        exact (silent_cons rfl silent_nil).keeps
      | failed written kept =>
        simp only [hsame]
        exact (silent_cons rfl silent_nil).keeps

theorem held_leaves {sink : FileSink} {ring : IoUring} (huring : sink.usesUring = true) (hring : sink.uring = some ring)
    (answer : UringWrite) (payload : Bytes) :
    FileSink.held { sink with uring := some (answer.leaves ring payload) } = sink.held := by
  have hheld : FileSink.held { sink with uring := some (answer.leaves ring payload) } =
      (if 0 ≤ sink.fd then [sink.fd.toNat] else []) ++ [(answer.leaves ring payload).fd] := held_of_uring huring
  have hfd : (answer.leaves ring payload).fd = ring.fd := by
    rw [UringWrite.leaves]
    split <;> rfl
  rw [hheld, hfd, held_of_uring huring, hring]
  rfl

theorem opsWrite_keeps (fwrite : FwriteAnswer) (uring : UringWrite) (sink : FileSink) (payload : Bytes) :
    Keeps who sink.held (opsWrite fwrite uring sink payload).effects (opsWrite fwrite uring sink payload).state.held := by
  unfold opsWrite
  split
  · rename_i huring
    unfold fileSinkUringWrite
    split
    · exact silent_nil.keeps
    · rename_i ring hring
      have hsame := held_leaves huring hring uring payload
      split
      · exact silent_nil.keeps
      split
      · exact silent_nil.keeps
      split
      · exact silent_nil.keeps
      · simp only
        split
        · simp only [hsame]
          exact (silent_cons rfl silent_nil).keeps
        · simp only [hsame]
          exact (silent_cons rfl silent_nil).keeps
  · rename_i hsync
    unfold fileSinkSyncWrite
    split
    · exact silent_nil.keeps
    · rename_i stream hstream
      have hsame := held_buffered (Bool.eq_false_iff.2 hsync) hstream
      split
      · exact silent_nil.keeps
      · simp only
        split
        · simp only [hsame]
          exact (silent_cons rfl silent_nil).keeps
        · simp only [hsame]
          exact (silent_cons rfl silent_nil).keeps

theorem fileSinkRotate_keeps (os : RotateOs) (sink : FileSink) :
    Keeps who sink.held (fileSinkRotate os sink).effects (fileSinkRotate os sink).state.held := by
  unfold fileSinkRotate
  split
  · exact silent_nil.keeps
  · rename_i rotated _
    have hflush := opsFlush_keeps who os.flush sink
    generalize opsFlush os.flush sink = flushed at hflush ⊢
    simp only
    split
    · exact hflush
    · have hclose := opsClose_keeps who os.close flushed.state
      generalize opsClose os.close flushed.state = closed at hclose ⊢
      have hrename : Silent [.rename closed.1.file rotated os.rename] := silent_cons rfl silent_nil
      have hmoved := (hflush.append hclose).append hrename.keeps
      split
      · exact hmoved
      · split
        · exact hmoved
        · rw [applyRetention_eq]
          have hremoved : Silent (((closed.1.rotatedPaths ++ [rotated]).take
              (surplus closed.1.retentionFiles (closed.1.rotatedPaths ++ [rotated]).length)).map
                fun p => Effect.unlink p (os.unlink p)) := by
            intro e he
            obtain ⟨_, _, rfl⟩ := List.mem_map.1 he
            rfl
          have hopen : ∀ s : FileSink, s.held = closed.1.held → Keeps who closed.1.held
              (opsOpen os.syncOpen os.uringOpen s).effects (opsOpen os.syncOpen os.uringOpen s).state.held :=
            fun s hs => hs ▸ opsOpen_keeps who os.syncOpen os.uringOpen s
          exact (hmoved.append hremoved.keeps).append (hopen _ rfl)

theorem fileSinkWrite_keeps (os : WriteOs) (sink : FileSink) (payload : Bytes) :
    Keeps who sink.held (fileSinkWrite os sink payload).effects (fileSinkWrite os sink payload).state.held := by
  unfold fileSinkWrite
  split
  · exact silent_nil.keeps
  · have hrotated : ∀ rotated : Out FileSink, rotated = (if fileSinkRotationDue sink payload.length os.dueNow then
        fileSinkRotate os.toRotateOs sink else ⟨.ok, sink, []⟩) → Keeps who sink.held rotated.effects rotated.state.held := by
      rintro rotated rfl
      split
      · exact fileSinkRotate_keeps who os.toRotateOs sink
      · exact silent_nil.keeps
    simp only
    specialize hrotated _ rfl
    generalize (if fileSinkRotationDue sink payload.length os.dueNow = true then fileSinkRotate os.toRotateOs sink
      else ⟨.ok, sink, []⟩) = rotated at hrotated ⊢
    split
    · exact hrotated
    · have hwritten := opsWrite_keeps who os.fwrite os.uring rotated.state payload
      split
      · exact hrotated.append hwritten
      · exact hrotated.append hwritten

theorem fileSinkUringOpen_failed {answer : UringOpen} {sink : FileSink}
    (h : (fileSinkUringOpen answer sink).status ≠ .ok) : (fileSinkUringOpen answer sink).state = sink := by
  unfold fileSinkUringOpen at h ⊢
  split
  · rfl
  · cases answer with
    | noMemory | noRing | noFile _ => rfl
    | opened ring fd =>
      rename_i hpath
      rw [hpath] at h
      exact absurd rfl h

theorem openBackend_keeps (os : OpenOs) {sink : FileSink} (hstream : sink.stream = none) (hfd : sink.fd < 0)
    (huring : sink.uring = none) :
    Keeps who [] (openBackend os sink).effects (openBackend os sink).state.held := by
  have hsync : ∀ s : FileSink, s.usesUring = false → s.stream = none → Keeps who []
      (fileSinkSyncOpen os.syncOpen s).effects (fileSinkSyncOpen os.syncOpen s).state.held := by
    intro s hs hnone
    have hheld : s.held = [] := by
      rw [held_of_sync hs, hnone]
      rfl
    have := fileSinkSyncOpen_keeps who os.syncOpen hs
    rwa [hheld] at this
  unfold openBackend
  split
  · have hheld : FileSink.held { sink with activeBackend := .ioUring } = [] := by
      rw [held_of_uring rfl]
      simp only [huring, if_neg (show ¬ 0 ≤ sink.fd by omega)]
      rfl
    have htried : Keeps who (FileSink.held { sink with activeBackend := .ioUring })
        (fileSinkUringOpen os.uringOpen { sink with activeBackend := .ioUring }).effects
        (fileSinkUringOpen os.uringOpen { sink with activeBackend := .ioUring }).state.held :=
      fileSinkUringOpen_keeps who os.uringOpen rfl
    rw [hheld] at htried
    simp only
    split
    · exact htried
    · rename_i hfailed
      rw [fileSinkUringOpen_failed hfailed, hheld] at htried
      rw [fileSinkUringOpen_failed hfailed]
      exact htried.append (hsync _ rfl hstream)
  · exact hsync _ rfl hstream

theorem fileSinkOpen_keeps (os : OpenOs) (sink : FileSink) (path : Option Bytes) (h : sink.held = []) :
    Keeps who [] (fileSinkOpen os sink path).effects (fileSinkOpen os sink path).state.held := by
  cases path with
  | none =>
    rw [← h]
    exact silent_nil.keeps
  | some path =>
    by_cases hne : path = []
    · rw [fileSinkOpen, if_pos hne, ← h]
      exact silent_nil.keeps
    · rw [fileSinkOpen_eq os sink hne]
      split
      · have hopened : Keeps who [] (openBackend os (.blank sink.requestedBackend path)).effects
            (openBackend os (.blank sink.requestedBackend path)).state.held :=
          openBackend_keeps who os rfl (show (-1 : Int) < 0 by decide) rfl
        simp only
        split
        · exact hopened
        · exact hopened.append (opsClose_keeps who .ok _)
      · exact silent_nil.keeps

end FileSink

/-! ## The other sinks -/

theorem consoleSinkLoop_silent (payload : Bytes) (writev : List Int) (offset remaining : Nat) :
    Silent (consoleSinkLoop payload writev offset remaining).2 := by
  induction writev generalizing offset remaining with
  | nil =>
    unfold consoleSinkLoop
    split
    · exact silent_nil
    · exact silent_nil
  | cons written writev ih =>
    unfold consoleSinkLoop
    split
    · exact silent_nil
    · split
      · exact silent_nil
      · simp only
        split
        · exact silent_cons rfl silent_nil
        · exact silent_cons rfl (ih _ _)

theorem consoleSinkWrite_silent (writev : List Int) (payload : Bytes) : Silent (consoleSinkWrite writev payload).2 := by
  unfold consoleSinkWrite
  split
  · exact silent_nil
  · exact consoleSinkLoop_silent payload writev 0 _

theorem syslogUdpWrite_silent (sendto : Int) (sink : SyslogSink) (payload : Bytes) :
    Silent (syslogUdpWrite sendto sink payload).2 := by
  unfold syslogUdpWrite
  split
  · exact silent_nil
  · split
    · exact silent_nil
    · split
      · exact silent_nil
      · simp only
        split
        · exact silent_cons rfl silent_nil
        · exact silent_cons rfl silent_nil

theorem syslogSendAll_silent (fd : Int) (send : List Int) (payload : Bytes) :
    Silent (syslogSendAll fd send payload).2.1 := by
  fun_induction syslogSendAll fd send payload with
  | case1 | case2 | case3 => exact silent_nil
  | case4 sent answers b bs hsent status effects rest heq ih =>
    rw [heq] at ih
    exact silent_cons rfl ih

theorem syslogTcpWrite_silent (send : List Int) (sink : SyslogSink) (payload : Bytes) :
    Silent (syslogTcpWrite send sink payload).2 := by
  unfold syslogTcpWrite
  split
  · exact silent_nil
  · split
    · exact silent_nil
    · simp only
      split
      · exact silent_nil
      · split
        · exact syslogSendAll_silent _ _ _
        · exact silent_append (syslogSendAll_silent _ _ _) (syslogSendAll_silent _ _ _)

section SyslogSink

variable {ω : Type} (who : ω)

/-- An open of a syslog sink that succeeds leaves one descriptor to the sink, one that fails none. -/
structure SyslogOpens (out : Out SyslogSink) : Prop where
  keeps : Keeps who [] out.effects (if out.status = .ok then [out.state.fd.toNat] else [])
  fd : out.status = .ok → 0 ≤ out.state.fd

theorem SyslogOpens.failed (status : Status) (h : status ≠ .ok) (sink : SyslogSink) :
    SyslogOpens who ⟨status, sink, []⟩ := by
  refine ⟨?_, fun hok => absurd hok h⟩
  rw [if_neg h]
  exact silent_nil.keeps

theorem syslogUdpOpen_opens (getaddrinfo : Option (List AddressAnswer)) (host : Option CString) :
    SyslogOpens who (syslogUdpOpen getaddrinfo host) := by
  unfold syslogUdpOpen
  cases host with
  | none =>
    cases getaddrinfo with
    | none => exact .failed who .invalidArgument nofun _
    | some entries => exact .failed who .invalidArgument nofun _
  | some host =>
    cases getaddrinfo with
    | none => exact .failed who .sinkError nofun _
    | some entries =>
      simp only [syslogResolveUdp, Option.isNone_some, Bool.false_eq_true, if_false]
      cases entries.find? (·.socket.isSome) with
      | none => exact .failed who .sinkError nofun _
      | some entry => exact ⟨Keeps.openFd _, fun _ => Int.natCast_nonneg _⟩

theorem connectTcpLoop_keeps (entries : List AddressAnswer) :
    Keeps who [] (connectTcpLoop entries).2
      (match (connectTcpLoop entries).1 with
      | .ok fd => [fd]
      | .error _ => []) := by
  induction entries with
  | nil => exact silent_nil.keeps
  | cons entry entries ih =>
    unfold connectTcpLoop
    cases hsocket : entry.socket with
    | none => exact ih
    | some fd =>
      simp only
      split
      · exact Keeps.openFd fd
      · exact (Keeps.openClose fd).append ih

theorem connectTcpLoop_error {entries : List AddressAnswer} {status : Status}
    (h : (connectTcpLoop entries).1 = .error status) : status ≠ .ok := by
  induction entries with
  | nil =>
    cases h
    exact nofun
  | cons entry entries ih =>
    unfold connectTcpLoop at h
    cases hsocket : entry.socket with
    | none =>
      rw [hsocket] at h
      exact ih h
    | some fd =>
      simp only [hsocket] at h
      split at h
      · cases h
      · exact ih h

theorem syslogTcpOpen_opens (getaddrinfo : Option (List AddressAnswer)) (host : Option CString) :
    SyslogOpens who (syslogTcpOpen getaddrinfo host) := by
  unfold syslogTcpOpen
  cases host with
  | none =>
    cases getaddrinfo with
    | none => exact .failed who .invalidArgument nofun _
    | some entries => exact .failed who .invalidArgument nofun _
  | some host =>
    cases getaddrinfo with
    | none => exact .failed who .sinkError nofun _
    | some entries =>
      have hloop : syslogConnectTcp (some host) (some entries) = connectTcpLoop entries := rfl
      have hkeeps := connectTcpLoop_keeps who entries
      rw [hloop]
      cases hresult : connectTcpLoop entries with
      | mk result effects =>
        rw [hresult] at hkeeps
        cases result with
        | ok fd => exact ⟨hkeeps, fun _ => Int.natCast_nonneg _⟩
        | error status =>
          have hstatus : status ≠ .ok := connectTcpLoop_error (congrArg Prod.fst hresult)
          refine ⟨?_, fun hok => absurd hok hstatus⟩
          rw [if_neg hstatus]
          exact hkeeps

end SyslogSink

/-! ## Loggers -/

def Logger.held (logger : Logger) : List Nat :=
  logger.fileSink.held ++
    if SinkKind.ofCode? logger.config.sinkKind = some .syslog then [logger.syslogSink.fd.toNat] else []

/-- A logger has a syslog sink exactly if it is a syslog logger; the other ones keep a zeroed one. -/
structure Logger.Sinks (logger : Logger) : Prop where
  active : logger.active = true
  syslog : SinkKind.ofCode? logger.config.sinkKind = some .syslog → 0 ≤ logger.syslogSink.fd
  zeroed : SinkKind.ofCode? logger.config.sinkKind ≠ some .syslog → logger.syslogSink = .zero

def heldBy : Option Logger → List Nat
  | none => []
  | some logger => logger.held

/-- What a call on a logger does to the descriptors it holds. -/
structure Tends {ω : Type} (who : ω) (held : List Nat) (effects : List Effect) (after : Option Logger) : Prop where
  keeps : Keeps who held effects (heldBy after)
  sinks : ∀ logger, after = some logger → logger.Sinks

theorem Logger.held_of_syslog {logger : Logger} (h : SinkKind.ofCode? logger.config.sinkKind = some .syslog) :
    logger.held = logger.fileSink.held ++ [logger.syslogSink.fd.toNat] := by
  rw [Logger.held, if_pos h]

theorem Logger.held_of_not_syslog {logger : Logger} (h : SinkKind.ofCode? logger.config.sinkKind ≠ some .syslog) :
    logger.held = logger.fileSink.held := by
  rw [Logger.held, if_neg h, List.append_nil]

section Logger

variable {ω : Type} (who : ω)

variable {who} in
theorem Tends.failed {held held' : List Nat} {effects : List Effect} (h : Keeps who held effects held') :
    Tends who held effects none := by
  refine ⟨h.mono (fun _ hfd => hfd) fun fd hfd => absurd hfd List.not_mem_nil, fun _ heq => ?_⟩
  cases heq

variable {who} in
theorem Tends.some {held : List Nat} {effects : List Effect} {logger : Logger} (h : Keeps who held effects logger.held)
    (hsinks : logger.Sinks) : Tends who held effects (some logger) := by
  refine ⟨h, fun _ heq => ?_⟩
  cases heq
  exact hsinks

theorem openSyslogSink_opens (os : InitOs) (logger : Logger) : SyslogOpens who (openSyslogSink os logger) := by
  unfold openSyslogSink
  split
  · exact syslogUdpOpen_opens who _ _
  · exact syslogTcpOpen_opens who _ _
  · exact .failed who .sinkError nofun _

theorem openSink_tends (os : InitOs) {logger : Logger} (hactive : logger.active = true)
    (hfile : logger.fileSink = .zero) (hsyslog : logger.syslogSink = .zero) :
    Tends who [] (openSink os logger).effects (openSink os logger).logger := by
  have hsinks : ∀ sink, SinkKind.ofCode? logger.config.sinkKind ≠ some .syslog →
      Logger.Sinks { logger with fileSink := sink } :=
    fun sink hne => ⟨hactive, fun heq => absurd heq hne, fun _ => hsyslog⟩
  have hheld : ∀ sink, SinkKind.ofCode? logger.config.sinkKind ≠ some .syslog →
      Logger.held { logger with fileSink := sink } = sink.held := fun sink hne => Logger.held_of_not_syslog hne
  unfold openSink
  split
  · rename_i hkind
    have hne : SinkKind.ofCode? logger.config.sinkKind ≠ some .syslog := by
      rw [hkind]
      exact nofun
    have hopen := fileSinkOpen_keeps who os.file { logger.fileSink with requestedBackend := logger.config.fileBackend }
      (logger.config.filePath.map (·.bytes)) (by rw [hfile]; rfl)
    simp only
    split
    · exact .failed hopen
    · refine .some ?_ (hsinks _ hne)
      rw [hheld _ hne]
      exact hopen
  · rename_i hkind
    obtain ⟨hkeeps, hfd⟩ := openSyslogSink_opens who os logger
    simp only
    split
    · exact .failed hkeeps
    · rename_i hok
      rw [not_not] at hok
      rw [if_pos hok] at hkeeps
      have hheld : Logger.held { logger with syslogSink := (openSyslogSink os logger).state } =
          logger.fileSink.held ++ [(openSyslogSink os logger).state.fd.toNat] := Logger.held_of_syslog hkind
      refine .some ?_ ⟨hactive, fun _ => hfd hok, fun hne => absurd hkind hne⟩
      rw [hheld, hfile]
      exact hkeeps
  · rename_i hother
    have hne : SinkKind.ofCode? logger.config.sinkKind ≠ some .syslog := hother
    refine .some ?_ (hsinks logger.fileSink hne)
    rw [Logger.held_of_not_syslog hne, hfile]
    exact silent_nil.keeps

theorem loggerInit_tends (os : InitOs) (config : Option LoggerConfig) :
    Tends who [] (loggerInit os config).effects (loggerInit os config).logger := by
  obtain ⟨status, -, hinit⟩ | ⟨c, -, -, hinit⟩ := loggerInit_cases os config
  · rw [hinit]
    exact .failed (Silent.keeps silent_nil)
  · rw [hinit]
    exact openSink_tends who os rfl rfl rfl

theorem Logger.Sinks.tends_silent {logger : Logger} (h : logger.Sinks) {effects : List Effect} (hsilent : Silent effects) :
    Tends who logger.held effects (some logger) := .some hsilent.keeps h

theorem Logger.Sinks.tends_file {logger : Logger} (h : logger.Sinks)
    (hkind : SinkKind.ofCode? logger.config.sinkKind = some .file) {effects : List Effect} {sink : FileSink}
    (hkeeps : Keeps who logger.fileSink.held effects sink.held) :
    Tends who logger.held effects (some { logger with fileSink := sink }) := by
  have hne : SinkKind.ofCode? logger.config.sinkKind ≠ some .syslog := by
    rw [hkind]
    exact nofun
  have hheld : Logger.held { logger with fileSink := sink } = sink.held := Logger.held_of_not_syslog hne
  refine .some ?_ ⟨h.active, h.syslog, h.zeroed⟩
  rw [hheld, Logger.held_of_not_syslog hne]
  exact hkeeps

theorem deliver_tends (cpu : Cpu) (g17 : Double → Bytes) (os : LogOs) {logger : Logger} (h : logger.Sinks)
    (event : EventCopy) :
    Tends who logger.held (deliver cpu g17 os logger event).effects (some (deliver cpu g17 os logger event).logger) := by
  unfold deliver
  split
  · simp only
    split
    · exact h.tends_silent who silent_nil
    · exact h.tends_silent who (consoleSinkWrite_silent _ _)
  · rename_i hkind
    simp only
    split
    · exact h.tends_silent who silent_nil
    · exact h.tends_file who hkind (fileSinkWrite_keeps who _ _ _)
  · simp only
    split
    · exact h.tends_silent who silent_nil
    · split
      · exact h.tends_silent who (syslogUdpWrite_silent _ _ _)
      · exact h.tends_silent who (syslogTcpWrite_silent _ _ _)
      · exact h.tends_silent who silent_nil
  · exact h.tends_silent who silent_nil

theorem loggerLog_tends (cpu : Cpu) (g17 : Double → Bytes) (os : LogOs) {logger : Logger} (h : logger.Sinks)
    (event : Option Event) :
    Tends who logger.held (loggerLog cpu g17 os logger event).effects
      (some (loggerLog cpu g17 os logger event).logger) := by
  cases event with
  | none => exact h.tends_silent who silent_nil
  | some e =>
    simp only [loggerLog]
    split
    · exact h.tends_silent who silent_nil
    · split
      · exact h.tends_silent who silent_nil
      · split
        · exact h.tends_silent who silent_nil
        · exact deliver_tends who cpu g17 os h _

theorem loggerFlush_tends (answer : FlushAnswer) {logger : Logger} (h : logger.Sinks) :
    Tends who logger.held (loggerFlush answer (some logger)).effects (loggerFlush answer (some logger)).logger := by
  simp only [loggerFlush]
  split
  · exact h.tends_silent who silent_nil
  · split
    · rename_i hkind
      exact h.tends_file who hkind (opsFlush_keeps who answer logger.fileSink)
    · exact h.tends_silent who silent_nil

/-- Shutdown closes descriptor 0 for every logger that has no syslog sink. -/
theorem loggerShutdown_owned_iff (answer : CloseAnswer) {logger : Logger} (h : logger.Sinks) {t : Table ω}
    (ht : ∀ fd ∈ logger.held, t fd = some who) :
    t.Owned who (loggerShutdown answer (some logger)).effects ↔
      SinkKind.ofCode? logger.config.sinkKind = some .syslog ∨ t 0 = none ∨ t 0 = some who := by
  obtain ⟨es, hsilent, hclose, -⟩ := opsClose_effects answer logger.fileSink
  have heffects : (loggerShutdown answer (some logger)).effects =
      es ++ logger.fileSink.held.map .closeFd ++ (syslogSinkClose logger.syslogSink).2 := by
    simp only [loggerShutdown, h.active, Bool.not_true, Bool.false_eq_true, if_false, fileSinkClose, hclose]
  have hfile : ∀ fd ∈ logger.fileSink.held, t fd = some who :=
    fun fd hfd => ht fd (List.mem_append_left _ hfd)
  have howned : t.Owned who (es ++ logger.fileSink.held.map .closeFd) := by
    rw [Table.owned_append, hsilent.run]
    exact ⟨hsilent.owned t, owned_closeAll fun fd hfd => .inr (hfile fd hfd)⟩
  have hrun : ∀ fd, t.run who (es ++ logger.fileSink.held.map .closeFd) fd =
      if fd ∈ logger.fileSink.held then none else t fd := by
    intro fd
    rw [Table.run_append, hsilent.run, run_closeAll]
  rw [heffects, Table.owned_append, and_iff_right howned]
  by_cases hkind : SinkKind.ofCode? logger.config.sinkKind = some .syslog
  · refine iff_of_true ?_ (.inl hkind)
    rw [syslogSinkClose, if_pos (h.syslog hkind), Table.owned_closeFd, hrun]
    split
    · exact .inl rfl
    · refine .inr (ht _ ?_)
      rw [Logger.held_of_syslog hkind]
      exact List.mem_append_right _ List.mem_cons_self
  · have hzero : (syslogSinkClose logger.syslogSink).2 = [.closeFd 0] := by
      rw [h.zeroed hkind]
      rfl
    rw [hzero, Table.owned_closeFd, hrun, or_iff_right hkind]
    split
    · rename_i hmem
      exact iff_of_true (.inl rfl) (.inr (hfile 0 hmem))
    · exact Iff.rfl

end Logger

/-! ## A process with loggers -/

inductive Owner where
  | process
  | logger (id : Nat)
  deriving DecidableEq

/-- The descriptors of a process, and the loggers in the order in which they were made. -/
structure Process where
  table : Table Owner
  loggers : List (Option Logger)

inductive LoggerCall where
  | init (os : InitOs) (config : Option LoggerConfig)
  | log (id : Nat) (os : LogOs) (event : Option Event)
  | flush (id : Nat) (answer : FlushAnswer)
  | shutdown (id : Nat) (answer : CloseAnswer)

def Process.start (used : Nat → Bool) : Process := ⟨fun fd => if used fd then some .process else none, []⟩

/-- The logger with this number; a logger that was shut down or never made is NULL. -/
def Process.logger (s : Process) (id : Nat) : Option Logger := (s.loggers[id]?).getD none

/-- What a call does, and for which logger. -/
structure Turn where
  id : Nat
  effects : List Effect
  loggers : List (Option Logger)

def Process.turn (cpu : Cpu) (g17 : Double → Bytes) (s : Process) : LoggerCall → Turn
  | .init os config =>
    let out := loggerInit os config
    ⟨s.loggers.length, out.effects, s.loggers ++ [out.logger]⟩
  | .log id os event =>
    match s.logger id with
    | none => ⟨id, [], s.loggers⟩
    | some logger =>
      let out := loggerLog cpu g17 os logger event
      ⟨id, out.effects, s.loggers.set id (some out.logger)⟩
  | .flush id answer =>
    let out := loggerFlush answer (s.logger id)
    ⟨id, out.effects, s.loggers.set id out.logger⟩
  | .shutdown id answer =>
    let out := loggerShutdown answer (s.logger id)
    ⟨id, out.effects, s.loggers.set id out.logger⟩

section Process

variable (cpu : Cpu) (g17 : Double → Bytes)

def Process.step (s : Process) (c : LoggerCall) : Process :=
  ⟨s.table.run (.logger (s.turn cpu g17 c).id) (s.turn cpu g17 c).effects, (s.turn cpu g17 c).loggers⟩

/-- The system hands out descriptors that are not in use. -/
def Process.OpensUnused (s : Process) (c : LoggerCall) : Prop :=
  s.table.Unused (.logger (s.turn cpu g17 c).id) (s.turn cpu g17 c).effects

/-- The call closes only what its logger opened, and leaves the descriptors of all others as they are. -/
structure Process.OwnDescriptors (s : Process) (c : LoggerCall) : Prop where
  closes : s.table.Owned (.logger (s.turn cpu g17 c).id) (s.turn cpu g17 c).effects
  others : ∀ fd owner, s.table fd = some owner → owner ≠ .logger (s.turn cpu g17 c).id →
    (s.step cpu g17 c).table fd = some owner

/-- A logger without a syslog sink is shut down while descriptor 0 is someone else's. -/
def Process.ClosesStdin (s : Process) : LoggerCall → Prop
  | .shutdown id _ => ∃ logger, s.logger id = some logger ∧
    SinkKind.ofCode? logger.config.sinkKind ≠ some .syslog ∧ s.table 0 ≠ none ∧ s.table 0 ≠ some (.logger id)
  | _ => False

instance (s : Process) : (c : LoggerCall) → Decidable (s.ClosesStdin c)
  | .shutdown id answer =>
    match hlogger : s.logger id with
    | none => isFalse fun ⟨_, heq, _⟩ => by rw [hlogger] at heq; cases heq
    | some logger => decidable_of_iff (SinkKind.ofCode? logger.config.sinkKind ≠ some .syslog ∧
        s.table 0 ≠ none ∧ s.table 0 ≠ some (.logger id))
      ⟨fun h => ⟨logger, hlogger, h⟩, fun ⟨_, heq, h⟩ => Option.some.inj (hlogger.symm.trans heq) ▸ h⟩
  | .init _ _ | .log _ _ _ | .flush _ _ => isFalse id

instance (s : Process) (c : LoggerCall) : Decidable (s.OpensUnused cpu g17 c) :=
  inferInstanceAs (Decidable (s.table.Unused _ _))

/-- Every logger owns what its sinks have open. -/
structure Process.Inv (s : Process) : Prop where
  sinks : ∀ id logger, s.logger id = some logger → logger.Sinks
  owns : ∀ id, ∀ fd ∈ heldBy (s.logger id), s.table fd = some (.logger id)

theorem Process.start_inv (used : Nat → Bool) : (Process.start used).Inv := by
  have hnone : ∀ id, (Process.start used).logger id = none := fun _ => rfl
  refine ⟨fun id logger h => ?_, fun id fd hfd => ?_⟩
  · rw [hnone] at h
    cases h
  · rw [hnone] at hfd
    exact absurd hfd List.not_mem_nil

variable {cpu g17}

theorem Process.logger_lt {s : Process} {id : Nat} {logger : Logger} (h : s.logger id = some logger) :
    id < s.loggers.length := by
  by_contra hlt
  rw [Process.logger, List.getElem?_eq_none (by omega)] at h
  cases h

theorem Process.step_logger_other {s : Process} {c : LoggerCall} {id : Nat} (h : id ≠ (s.turn cpu g17 c).id) :
    (s.step cpu g17 c).logger id = s.logger id := by
  cases c with
  | init os config =>
    have hne : id ≠ s.loggers.length := h
    have hstep : (s.step cpu g17 (.init os config)).loggers = s.loggers ++ [(loggerInit os config).logger] := rfl
    rw [Process.logger, Process.logger, hstep]
    by_cases hlt : id < s.loggers.length
    · rw [List.getElem?_append_left hlt]
    · have hlen : (s.loggers ++ [(loggerInit os config).logger]).length = s.loggers.length + 1 := List.length_append
      have hout : (s.loggers ++ [(loggerInit os config).logger])[id]? = none := List.getElem?_eq_none (by omega)
      have hout' : s.loggers[id]? = none := List.getElem?_eq_none (by omega)
      rw [hout, hout']
  | log n os event =>
    simp only [Process.step, Process.turn] at h ⊢
    cases hlogger : s.logger n with
    | none => rfl
    | some logger =>
      simp only [hlogger] at h
      simp only [Process.logger, List.getElem?_set_ne (Ne.symm h)]
  | flush n answer =>
    have hne : id ≠ n := h
    simp only [Process.step, Process.turn, Process.logger, List.getElem?_set_ne (Ne.symm hne)]
  | shutdown n answer =>
    have hne : id ≠ n := h
    simp only [Process.step, Process.turn, Process.logger, List.getElem?_set_ne (Ne.symm hne)]

theorem logger_set {table : Table Owner} {loggers : List (Option Logger)} {id : Nat} (h : id < loggers.length)
    (logger : Option Logger) : (Process.mk table (loggers.set id logger)).logger id = logger := by
  rw [Process.logger, List.getElem?_set_self h, Option.getD_some]

theorem logger_set_none {table : Table Owner} {loggers : List (Option Logger)} (id : Nat) :
    (Process.mk table (loggers.set id none)).logger id = none := by
  by_cases h : id < loggers.length
  · exact logger_set h none
  · rw [Process.logger, List.getElem?_eq_none (by rw [List.length_set]; omega)]
    rfl

theorem Process.Inv.tends (cpu : Cpu) (g17 : Double → Bytes) {s : Process} (h : s.Inv) {c : LoggerCall} (hc : ∀ id answer, c ≠ .shutdown id answer) :
    Tends (Owner.logger (s.turn cpu g17 c).id) (heldBy (s.logger (s.turn cpu g17 c).id)) (s.turn cpu g17 c).effects
      ((s.step cpu g17 c).logger (s.turn cpu g17 c).id) := by
  cases c with
  | init os config =>
    have hbefore : s.logger s.loggers.length = none := by
      rw [Process.logger, List.getElem?_eq_none (Nat.le_refl _)]
      rfl
    have hafter : (s.step cpu g17 (.init os config)).logger s.loggers.length = (loggerInit os config).logger := by
      have hstep : (s.step cpu g17 (.init os config)).loggers = s.loggers ++ [(loggerInit os config).logger] := rfl
      rw [Process.logger, hstep, List.getElem?_concat_length]
      rfl
    have hinit := loggerInit_tends (Owner.logger s.loggers.length) os config
    rw [← hafter] at hinit
    rw [← show heldBy none = [] from rfl, ← hbefore] at hinit
    exact hinit
  | log id os event =>
    simp only [Process.step, Process.turn]
    cases hlogger : s.logger id with
    | none =>
      have hnone : (Process.mk (s.table.run (.logger id) []) s.loggers).logger id = none := hlogger
      rw [hlogger, hnone]
      exact .failed (Silent.keeps silent_nil)
    | some logger =>
      simp only [hlogger, logger_set (Process.logger_lt hlogger)]
      exact loggerLog_tends (Owner.logger id) cpu g17 os (h.sinks id logger hlogger) event
  | flush id answer =>
    simp only [Process.step, Process.turn]
    cases hlogger : s.logger id with
    | none =>
      simp only [loggerFlush, logger_set_none]
      exact .failed (Silent.keeps silent_nil)
    | some logger =>
      simp only [logger_set (Process.logger_lt hlogger)]
      exact loggerFlush_tends (Owner.logger id) answer (h.sinks id logger hlogger)
  | shutdown id answer => exact absurd rfl (hc id answer)

theorem Process.Inv.owned_iff {s : Process} (h : s.Inv) {c : LoggerCall} (hopen : s.OpensUnused cpu g17 c) :
    s.table.Owned (.logger (s.turn cpu g17 c).id) (s.turn cpu g17 c).effects ↔ ¬s.ClosesStdin c := by
  by_cases hc : ∃ id answer, c = .shutdown id answer
  · obtain ⟨id, answer, rfl⟩ := hc
    simp only [Process.turn, Process.ClosesStdin]
    cases hlogger : s.logger id with
    | none =>
      refine iff_of_true trivial ?_
      rintro ⟨logger, heq, -⟩
      cases heq
    | some logger =>
      have hheld : ∀ fd ∈ logger.held, s.table fd = some (.logger id) := by
        have howns := h.owns id
        rw [hlogger] at howns
        exact howns
      rw [loggerShutdown_owned_iff (Owner.logger id) answer (h.sinks id logger hlogger) hheld]
      constructor
      · rintro hcond ⟨_, heq, hne, hopen, hother⟩
        cases heq
        rcases hcond with hkind | hnone | hown
        · exact hne hkind
        · exact hopen hnone
        · exact hother hown
      · intro hnot
        by_contra hcond
        rw [not_or, not_or] at hcond
        exact hnot ⟨logger, rfl, hcond.1, hcond.2.1, hcond.2.2⟩
  · have hc' : ∀ id answer, c ≠ .shutdown id answer := fun id answer heq => hc ⟨id, answer, heq⟩
    refine iff_of_true ((h.tends cpu g17 hc').keeps s.table (h.owns _) hopen).1 ?_
    cases c with
    | init _ _ | log _ _ _ | flush _ _ => exact id
    | shutdown id answer => exact absurd rfl (hc' id answer)

theorem Process.Inv.step {s : Process} (h : s.Inv) {c : LoggerCall} (hopen : s.OpensUnused cpu g17 c)
    (howned : s.OwnDescriptors cpu g17 c) : (s.step cpu g17 c).Inv := by
  have hactor : (∀ logger, (s.step cpu g17 c).logger (s.turn cpu g17 c).id = some logger → logger.Sinks) ∧
      ∀ fd ∈ heldBy ((s.step cpu g17 c).logger (s.turn cpu g17 c).id),
        (s.step cpu g17 c).table fd = some (.logger (s.turn cpu g17 c).id) := by
    by_cases hc : ∃ id answer, c = .shutdown id answer
    · obtain ⟨id, answer, rfl⟩ := hc
      -- the logger is gone
      have hgone : (s.step cpu g17 (.shutdown id answer)).logger id = none := by
        simp only [Process.step, Process.turn]
        cases hlogger : s.logger id with
        | none => exact logger_set_none id
        | some logger =>
          simp only [loggerShutdown, (h.sinks id logger hlogger).active, Bool.not_true, Bool.false_eq_true, if_false]
          exact logger_set_none id
      have hid : (s.turn cpu g17 (.shutdown id answer)).id = id := rfl
      rw [hid, hgone]
      refine ⟨fun logger heq => ?_, fun fd hfd => absurd hfd List.not_mem_nil⟩
      cases heq
    · obtain ⟨hkeeps, hsinks⟩ := h.tends cpu g17 fun id answer heq => hc ⟨id, answer, heq⟩
      exact ⟨hsinks, (hkeeps s.table (h.owns _) hopen).2⟩
  refine ⟨fun id logger hlogger => ?_, fun id fd hfd => ?_⟩
  · by_cases hid : id = (s.turn cpu g17 c).id
    · exact hactor.1 logger (hid ▸ hlogger)
    · rw [Process.step_logger_other hid] at hlogger
      exact h.sinks id logger hlogger
  · by_cases hid : id = (s.turn cpu g17 c).id
    · rw [hid] at hfd ⊢
      exact hactor.2 fd hfd
    · rw [Process.step_logger_other hid] at hfd
      exact howned.others fd _ (h.owns id fd hfd) fun heq => hid (Owner.logger.inj heq)

/-- In a run of any calls on any loggers every call closes only what its logger opened, exactly when no
logger without a syslog sink is shut down while descriptor 0 belongs to someone else. -/
theorem ownDescriptors_run_iff (used : Nat → Bool) (calls : List LoggerCall)
    (hopen : Machine.Along (Process.step cpu g17) (Process.OpensUnused cpu g17) (.start used) calls) :
    Machine.Along (Process.step cpu g17) (Process.OwnDescriptors cpu g17) (.start used) calls ↔
      Machine.Along (Process.step cpu g17) (fun s c => ¬s.ClosesStdin c) (.start used) calls := by
  refine Machine.along_congr Process.Inv (fun s c hs hopen howned => hs.step hopen howned) (fun s c hs hopen => ?_)
    (Process.start_inv used) hopen
  rw [← hs.owned_iff hopen]
  refine ⟨fun howned => howned.closes, fun hcloses => ⟨hcloses, fun fd owner hfd hne => ?_⟩⟩
  exact hcloses.others hopen hfd hne

end Process

/-- Only standard output and standard error are open. -/
def noStdin (fd : Nat) : Bool := fd == 1 || fd == 2

theorem ownDescriptors_run_iff_no_stdin :
    Machine.Along (Process.step scalarCpu printHalf) (Process.OwnDescriptors scalarCpu printHalf) (.start noStdin)
      [.init steadyInit (some consoleConfig), .init steadyInit (some syslogConfig), .shutdown 0 .ok,
        .shutdown 1 .ok] := by
  exact (ownDescriptors_run_iff noStdin _ (by decide)).2 (by decide)

/-- The three standard descriptors are open. -/
def stdio (fd : Nat) : Bool := decide (fd < 3)

/-- The shutdown of a console logger closes standard input. -/
theorem not_ownDescriptors_console :
    Machine.Along (Process.step scalarCpu printHalf) (Process.OpensUnused scalarCpu printHalf) (.start stdio)
        [.init steadyInit (some consoleConfig), .shutdown 0 .ok] ∧
      ¬Machine.Along (Process.step scalarCpu printHalf) (Process.OwnDescriptors scalarCpu printHalf) (.start stdio)
        [.init steadyInit (some consoleConfig), .shutdown 0 .ok] := by
  refine ⟨by decide, fun h => ?_⟩
  have hkept : (none : Option Owner) = some .process := h.2.1.others 0 .process rfl nofun
  cases hkept

end IoJournal
