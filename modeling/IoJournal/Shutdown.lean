import IoJournal.Delivery

/-!
# IoJournal.Shutdown

Where the records of a file logger are after it was shut down.

`fwrite` only fills the buffer of the stream, so an OK from `ij_logger_log` promises nothing yet.
Until the shutdown nothing is lost in a run without an error (`Accounted`): a flush that returns OK has
written the buffer out, and a rotation flushes before it closes. `ij_logger_shutdown` does not flush
and drops the result of `fclose`, so its OK promises nothing either (`shutdown_complete_iff`).
-/

namespace IoJournal

open Wire Posix

/-! ## The store up to shutdown -/

/-- The files and the stream hold `octets` in order, those that retention removed apart; there were at
most `n` rotations. -/
structure Accounted (path : Bytes) (retention : Nat) (octets : List Bytes) (n : Nat) (w : World) : Prop where
  ready : w.Ready path
  holds : ∃ log, Holds id path w log ∧ log.records = octets
  kept : Kept path w
  retention : w.sink.retentionFiles = retention
  count : w.names.length ≤ n

section Accounted

variable {path : Bytes} {retention n : Nat} {octets : List Bytes} {w w' : World} (h : Accounted path retention octets n w)
include h

theorem Accounted.mono {m : Nat} (hm : n ≤ m) : Accounted path retention octets m w :=
  ⟨h.ready, h.holds, h.kept, h.retention, Nat.le_trans h.count hm⟩

theorem Accounted.appends_nil (happ : Appends path [] w w') (hsettled : w'.sink.Settled) :
    Accounted path retention octets n w' := by
  obtain ⟨log, hholds, hrecords⟩ := h.holds
  have hhandles := happ.handles
  refine ⟨⟨happ.opened, hsettled⟩, ⟨log, hholds.congr (happ.active.trans (List.append_nil _)) happ.moved, hrecords⟩, ?_, ?_, ?_⟩
  · exact h.kept.congr happ.moved happ.others (by rw [hhandles]) (by rw [hhandles]) (by rw [hhandles])
  · rw [hhandles]
    exact h.retention
  · rw [World.names, happ.moved]
    exact h.count

theorem Accounted.wrote {payload : Bytes} {status : Status} (hw : Wrote path payload status w w') (hok : status = .ok) :
    Accounted path retention (octets ++ [payload]) n w' := by
  obtain ⟨log, hholds, hrecords⟩ := h.holds
  obtain ⟨taken, hactive, -, hwhole, -⟩ := hw.taken h.ready.settled
  have hhandles := hw.handles
  rw [if_pos hok] at hhandles
  refine ⟨hw.ready h.ready hok, ⟨log.append payload, ?_, ?_⟩, ?_, ?_, ?_⟩
  · exact hholds.append (by rw [hactive, hwhole hok]; rfl) hw.moved
  · rw [SegmentedLog.records_append, hrecords]
  · exact h.kept.congr hw.moved hw.others (by rw [hhandles]) (by rw [hhandles]) (by rw [hhandles])
  · rw [hhandles]
    exact h.retention
  · rw [World.names, hw.moved]
    exact h.count

theorem Accounted.rotated {os : RotateOs} {mid : Out FileSink} (hroom : n + 1 < wordSize)
    (hmid : RotateResult path os w mid) (hok : mid.status = .ok) :
    Accounted path retention octets (n + 1) (w.after mid) := by
  obtain ⟨log, hholds, hrecords⟩ := h.holds
  have hcount := h.count
  obtain ⟨target, hrotated⟩ := hmid.of_ok hok
  obtain ⟨tm, -, htarget⟩ := fileSinkMakeRotationPath_text h.ready.isOpen.path hrotated.name
  rw [h.kept.sequence, Nat.mod_eq_of_lt (by omega)] at htarget
  refine ⟨hrotated.ready, ⟨log.rotate, hholds.rotate hrotated.moves, ?_⟩, ?_, ?_, ?_⟩
  · rw [SegmentedLog.records_rotate, hrecords]
  · exact h.kept.turn (by omega) htarget hrotated.moves hrotated.turned
  · have hsame : (w.after mid).sink.retentionFiles = w.sink.retentionFiles := by
      rw [show (w.after mid).sink = mid.state from rfl, hrotated.turned]
      rfl
    rw [hsame]
    exact h.retention
  · rw [hrotated.moves.names, List.length_append]
    exact Nat.succ_le_succ hcount

theorem Accounted.write (hroom : n + 1 < wordSize) {os : WriteOs} {payload : Bytes} (hne : payload ≠ [])
    (hok : (fileSinkWrite os w.sink payload).status = .ok) :
    Accounted path retention (octets ++ [payload]) (n + 1) (w.after (fileSinkWrite os w.sink payload)) := by
  cases fileSinkWrite_result h.ready.toOpen os hne with
  | kept due wrote => exact (h.wrote wrote hok).mono (Nat.le_succ n)
  | failed due status => exact absurd hok status
  | rotated due ok rotate wrote => exact (h.rotated hroom rotate ok).wrote wrote hok

theorem Accounted.flush {answer : FlushAnswer} (hok : (fileSinkFlush answer w.sink).status = .ok) :
    Accounted path retention octets n (w.after (fileSinkFlush answer w.sink)) :=
  h.appends_nil ((opsFlush_appends h.ready.toOpen answer).1 hok).1 (opsFlush_settled h.ready.settled answer)

end Accounted

/-! ## Closing -/

/-- Octets that waited in the stream are not written. -/
def CloseAnswer.Loses (answer : CloseAnswer) (buffered : Bytes) : Prop :=
  ∃ written, answer = .failed written ∧ written < buffered.length

theorem writes_eq_iff (answer : CloseAnswer) (buffered : Bytes) :
    answer.writes buffered = buffered ↔ ¬answer.Loses buffered := by
  cases answer with
  | ok => exact iff_of_true rfl fun ⟨_, heq, _⟩ => CloseAnswer.noConfusion heq
  | failed written =>
    have hloses : (CloseAnswer.failed written).Loses buffered ↔ written < buffered.length := by
      constructor
      · rintro ⟨_, heq, hlt⟩
        cases heq
        exact hlt
      · intro hlt
        exact ⟨written, rfl, hlt⟩
    rw [hloses, CloseAnswer.writes, List.take_eq_self_iff]
    exact Nat.not_lt.symm

/-- The records are in the files: the rotated ones in the order of their rotation, and then the
active one, hold them in order. Of the rotated files those that retention removes may be missing. -/
structure Complete (path : Bytes) (retention : Nat) (records : List Bytes) (d : Disk) : Prop where
  log : ∃ log : SegmentedLog Bytes, log.records = records ∧ d.moved.map Prod.snd = log.closed.map List.flatten ∧
    d.files path = some log.active.flatten
  nodup : (d.moved.map Prod.fst).Nodup
  present : ∀ e ∈ d.moved, e.1 ∈ (d.moved.map Prod.fst).drop (surplus retention d.moved.length) →
    d.files e.1 = some e.2

theorem flatten_records (log : SegmentedLog Bytes) :
    log.records.flatten = (log.closed.map List.flatten).flatten ++ log.active.flatten := by
  rw [SegmentedLog.records, List.flatten_append, List.flatten_flatten]

theorem Accounted.complete_iff {path : Bytes} {retention n : Nat} {octets : List Bytes} {w : World}
    (h : Accounted path retention octets n w) (answer : CloseAnswer) :
    Complete path retention octets (w.disk.run (fileSinkClose answer w.sink).2) ↔ ¬answer.Loses w.sink.pending := by
  obtain ⟨log, hholds, hrecords⟩ := h.holds
  obtain ⟨-, hothers, hmoved⟩ := h.ready.close answer
  have hfile := h.ready.close_file answer
  have hactive : w.active path = log.active.flatten := by
    simpa using hholds.active
  rw [World.active] at hactive
  have hclosed : w.disk.moved.map Prod.snd = log.closed.map List.flatten := by
    simpa using hholds.moved
  rw [← writes_eq_iff]
  constructor
  · rintro ⟨⟨log', hrecords', hclosed', hfile'⟩, -, -⟩
    -- both logs have the same octets, and the same ones in the rotated files
    have hflat := congrArg List.flatten (hrecords'.trans hrecords.symm)
    rw [flatten_records, flatten_records, ← hclosed', ← hclosed, hmoved, List.append_right_inj, ← hactive] at hflat
    rw [hfile, Option.some.injEq, hflat, List.append_right_inj] at hfile'
    exact hfile'
  · intro hwrites
    rw [hwrites, hactive] at hfile
    refine ⟨⟨log, hrecords, by rw [hmoved, hclosed], hfile⟩, ?_, ?_⟩
    · rw [hmoved]
      exact h.kept.nodup
    · intro e he hp
      rw [hmoved] at he hp
      have hmem : e.1 ∈ w.sink.rotatedPaths := by
        rw [h.kept.rotatedPaths, h.retention, World.names, List.length_map]
        exact hp
      rw [hothers _ (h.kept.ne_path (h.kept.mem_names hmem))]
      exact h.kept.present e he hmem

/-! ## A logger from init to shutdown -/

/-- A call on a logger in use. -/
inductive UseCall where
  | log (os : LogOs) (event : Option Event)
  | flush (answer : FlushAnswer)

/-- A logger, the disk, and the records handed to the sink by calls that returned OK. -/
structure Session where
  logger : Logger
  disk : Disk
  records : List Bytes

def Session.world (s : Session) : World := ⟨s.logger.fileSink, s.disk⟩

def Session.status (cpu : Cpu) (g17 : Double → Bytes) (s : Session) : UseCall → Status
  | .log os event => (loggerLog cpu g17 os s.logger event).status
  | .flush answer => (loggerFlush answer (some s.logger)).status

def Session.step (cpu : Cpu) (g17 : Double → Bytes) (s : Session) : UseCall → Session
  | .log os event =>
    let out := loggerLog cpu g17 os s.logger event
    ⟨out.logger, s.disk.run out.effects, if out.status = .ok then s.records ++ out.handed else s.records⟩
  | .flush answer =>
    let out := loggerFlush answer (some s.logger)
    ⟨out.logger.getD s.logger, s.disk.run out.effects, s.records⟩

theorem loggerLog_file {cpu : Cpu} {g17 : Double → Bytes} {os : LogOs} {logger : Logger} {event : Option Event}
    (hkind : SinkKind.ofCode? logger.config.sinkKind = some .file)
    (hok : (loggerLog cpu g17 os logger event).status = .ok) :
    loggerLog cpu g17 os logger event = ⟨.ok, logger, [], []⟩ ∨
      ∃ payload, payload ≠ [] ∧ (fileSinkWrite os.file logger.fileSink payload).status = .ok ∧
        loggerLog cpu g17 os logger event =
          ⟨.ok, { logger with fileSink := (fileSinkWrite os.file logger.fileSink payload).state },
            (fileSinkWrite os.file logger.fileSink payload).effects, [payload]⟩ := by
  cases event with
  | none => cases hok
  | some e =>
    simp only [loggerLog] at hok ⊢
    split at hok
    · cases hok
    · rename_i hactive
      rw [if_neg hactive]
      split at hok
      · rename_i hdisabled
        rw [if_pos hdisabled]
        exact .inl rfl
      · rename_i henabled
        rw [if_neg henabled]
        split at hok
        · rename_i status hcopy
          exact absurd hok (eventCopyFromInput_error hcopy)
        · rename_i copied hcopy
          simp only [deliver, hkind] at hok ⊢
          split at hok
          · rename_i hencode
            exact absurd hok hencode
          · rename_i hencode
            rw [if_neg hencode]
            have hwrite : (fileSinkWrite os.file logger.fileSink
                (ndjsonEncode cpu g17 (some copied) (some os.stack.bytes)).output).status = .ok := hok
            refine .inr ⟨(ndjsonEncode cpu g17 (some copied) (some os.stack.bytes)).output, ?_, hwrite, ?_⟩
            · intro hnil
              rw [hnil] at hwrite
              cases hwrite
            · rw [hwrite]

/-- The state of a session with a file logger after `n` calls that returned OK. -/
structure Session.Sound (path : Bytes) (retention : Nat) (before : Bytes) (n : Nat) (s : Session) : Prop where
  active : s.logger.active = true
  kind : SinkKind.ofCode? s.logger.config.sinkKind = some .file
  accounted : Accounted path retention (before :: s.records) n s.world

section Session

variable {cpu : Cpu} {g17 : Double → Bytes} {path before : Bytes} {retention n : Nat} {s : Session}

theorem Session.Sound.step (h : s.Sound path retention before n) (hroom : n + 1 < wordSize) {c : UseCall}
    (hok : s.status cpu g17 c = .ok) : (s.step cpu g17 c).Sound path retention before (n + 1) := by
  cases c with
  | log os event =>
    have hlog : (loggerLog cpu g17 os s.logger event).status = .ok := hok
    rcases loggerLog_file h.kind hlog with hout | ⟨payload, hne, hwrite, hout⟩
    · have hstep : s.step cpu g17 (.log os event) = ⟨s.logger, s.disk, s.records⟩ := by
        simp only [Session.step, hout, Disk.run_nil, if_true, List.append_nil]
      rw [hstep]
      exact ⟨h.active, h.kind, h.accounted.mono (Nat.le_succ n)⟩
    · have hstep : s.step cpu g17 (.log os event) =
          ⟨{ s.logger with fileSink := (fileSinkWrite os.file s.logger.fileSink payload).state },
            s.disk.run (fileSinkWrite os.file s.logger.fileSink payload).effects, s.records ++ [payload]⟩ := by
        simp only [Session.step, hout, if_true]
      rw [hstep]
      exact ⟨h.active, h.kind, h.accounted.write hroom hne hwrite⟩
  | flush answer =>
    have hflush : loggerFlush answer (some s.logger) = ⟨(fileSinkFlush answer s.logger.fileSink).status,
        some { s.logger with fileSink := (fileSinkFlush answer s.logger.fileSink).state },
        (fileSinkFlush answer s.logger.fileSink).effects⟩ := by
      simp only [loggerFlush, h.active, h.kind, Bool.not_true, Bool.false_eq_true, if_false, if_true]
    have hok : (loggerFlush answer (some s.logger)).status = .ok := hok
    rw [hflush] at hok
    have hstep : s.step cpu g17 (.flush answer) =
        ⟨{ s.logger with fileSink := (fileSinkFlush answer s.logger.fileSink).state },
          s.disk.run (fileSinkFlush answer s.logger.fileSink).effects, s.records⟩ := by
      simp only [Session.step, hflush, Option.getD_some]
    rw [hstep]
    exact ⟨h.active, h.kind, (h.accounted.flush hok).mono (Nat.le_succ n)⟩

/-- Shutdown returns OK whatever `fclose` does. -/
theorem Session.Sound.shutdown (h : s.Sound path retention before n) (answer : CloseAnswer) :
    (loggerShutdown answer (some s.logger)).status = .ok ∧
      (Complete path retention (before :: s.records) (s.disk.run (loggerShutdown answer (some s.logger)).effects) ↔
        ¬answer.Loses s.logger.fileSink.pending) := by
  have hshutdown : loggerShutdown answer (some s.logger) = ⟨.ok, none,
      (fileSinkClose answer s.logger.fileSink).2 ++ (syslogSinkClose s.logger.syslogSink).2⟩ := by
    simp only [loggerShutdown, h.active, Bool.not_true, Bool.false_eq_true, if_false]
  have hsyslog : ∀ d : Disk, d.run (syslogSinkClose s.logger.syslogSink).2 = d := by
    intro d
    rw [syslogSinkClose]
    split
    · rfl
    · rfl
  rw [hshutdown]
  refine ⟨rfl, ?_⟩
  rw [Disk.run_append, hsyslog]
  exact h.accounted.complete_iff answer

end Session

theorem validateLoggerConfig_path {config : LoggerConfig} (h : validateLoggerConfig (some config) = .ok)
    (hkind : SinkKind.ofCode? config.sinkKind = some .file) : (config.filePath.map (·.bytes)).getD [] ≠ [] := by
  intro hnil
  simp only [validateLoggerConfig] at h
  split at h
  · cases h
  · split at h
    · cases h
    · rw [if_pos ⟨hkind, hnil⟩] at h
      cases h

theorem loggerInit_file {os : InitOs} {config : LoggerConfig} {logger : Logger} {path : Bytes} {d : Disk}
    (hinit : (loggerInit os (some config)).logger = some logger)
    (hkind : SinkKind.ofCode? config.sinkKind = some .file) (hpath : config.filePath.map (·.bytes) = some path)
    (hmoved : d.moved = []) :
    Session.Sound path config.fileRetentionFiles (d.contents path) 0
      ⟨logger, d.run (loggerInit os (some config)).effects, []⟩ := by
  obtain ⟨status, -, heq⟩ | ⟨c, hc, hvalid, heq⟩ := loggerInit_cases os (some config)
  · rw [heq] at hinit
    cases hinit
  · cases hc
    rw [heq] at hinit ⊢
    have hne : path ≠ [] := by
      have hne := validateLoggerConfig_path hvalid hkind
      rwa [hpath, Option.getD_some] at hne
    have hconfig : (applyLoggerDefaults config).config.filePath.map (·.bytes) = some path := hpath
    have hkind' : SinkKind.ofCode? (applyLoggerDefaults config).config.sinkKind = some .file := hkind
    simp only [openSink, hkind', hconfig] at hinit ⊢
    split at hinit
    · cases hinit
    · rename_i hok
      rw [if_neg hok]
      rw [not_not] at hok
      cases hinit
      let settings : RotationSettings :=
        ⟨config.fileRotateBytes, config.fileRotateIntervalSeconds, config.fileRetentionFiles⟩
      obtain ⟨hkept, hmoved'⟩ := Store.opened_kept hne hok settings hmoved
      refine ⟨rfl, hkind, Store.opened_ready hne hok settings d, ⟨⟨[], [d.contents path]⟩, ⟨?_, ?_⟩, rfl⟩, hkept, rfl, ?_⟩
      · exact (Store.opened_active hne hok settings d).trans (List.append_nil _).symm
      · exact congrArg (List.map Prod.snd) hmoved'
      · exact Nat.le_of_eq (congrArg List.length (congrArg (List.map Prod.fst) hmoved'))

/-- In a session in which every call returns OK, shutdown returns OK as well, and the files then hold
what the active one held before and all records of the session, exactly when the `fclose` of the
shutdown leaves nothing of the stream's buffer unwritten. -/
theorem shutdown_complete_iff (cpu : Cpu) (g17 : Double → Bytes) {os : InitOs} {config : LoggerConfig} {logger : Logger}
    (hinit : (loggerInit os (some config)).logger = some logger)
    (hkind : SinkKind.ofCode? config.sinkKind = some .file) {path : Bytes}
    (hpath : config.filePath.map (·.bytes) = some path) {d : Disk} (hmoved : d.moved = []) (calls : List UseCall)
    (hok : Machine.Along (Session.step cpu g17) (fun s c => s.status cpu g17 c = .ok)
      ⟨logger, d.run (loggerInit os (some config)).effects, []⟩ calls)
    (hcount : calls.length < wordSize) (answer : CloseAnswer) {s : Session}
    (hs : s = Machine.run (Session.step cpu g17) ⟨logger, d.run (loggerInit os (some config)).effects, []⟩ calls) :
    (loggerShutdown answer (some s.logger)).status = .ok ∧
      (Complete path config.fileRetentionFiles (d.contents path :: s.records)
          (s.disk.run (loggerShutdown answer (some s.logger)).effects) ↔
        ¬answer.Loses s.logger.fileSink.pending) := by
  have hsound : s.Sound path config.fileRetentionFiles (d.contents path) calls.length := by
    rw [hs]
    have hrun := Machine.Along.induction
      (motive := fun calls s => calls.length < wordSize →
        s.Sound path config.fileRetentionFiles (d.contents path) calls.length)
      ?_ ?_ hok
    · exact hrun hcount
    · exact fun _ => loggerInit_file hinit hkind hpath hmoved
    · intro calls c hc ih hlen
      rw [List.length_append] at hlen ⊢
      exact (ih (by omega)).step hlen hc
  exact hsound.shutdown answer

def fileConfig : LoggerConfig := { syslogConfig with
  sinkKind := 1
  filePath := some ⟨ascii "log", forall_mem_of_all (by decide)⟩ }

def fileLogger : Logger := { applyLoggerDefaults fileConfig with
  fileSink := { FileSink.zero with
    path := some (ascii "log")
    activeBackend := .sync
    stream := some ⟨3, []⟩
    fd := -1 } }

def fileSession (calls : List UseCall) : Session :=
  Machine.run (Session.step scalarCpu printHalf)
    ⟨fileLogger, emptyDisk.run (loggerInit steadyInit (some fileConfig)).effects, []⟩ calls

theorem fileSession_login_ok :
    Machine.Along (Session.step scalarCpu printHalf) (fun s c => s.status scalarCpu printHalf c = .ok)
      ⟨fileLogger, emptyDisk.run (loggerInit steadyInit (some fileConfig)).effects, []⟩
      [.log (steadyLog 8192) (some loginEvent)] := by
  refine ⟨?_, trivial⟩
  decide +kernel

theorem shutdown_complete_iff_login :
    Complete (ascii "log") 0 ([] :: (fileSession [.log (steadyLog 8192) (some loginEvent)]).records)
      ((fileSession [.log (steadyLog 8192) (some loginEvent)]).disk.run
        (loggerShutdown .ok (some (fileSession [.log (steadyLog 8192) (some loginEvent)]).logger)).effects) :=
  (shutdown_complete_iff scalarCpu printHalf rfl rfl rfl rfl _ fileSession_login_ok (by decide) .ok rfl).2.2
    fun ⟨_, heq, _⟩ => CloseAnswer.noConfusion heq

/-- Every call returns OK, and the record is lost when the last `fclose` fails. -/
theorem not_complete_failed_close :
    Machine.Along (Session.step scalarCpu printHalf) (fun s c => s.status scalarCpu printHalf c = .ok)
        ⟨fileLogger, emptyDisk.run (loggerInit steadyInit (some fileConfig)).effects, []⟩
        [.log (steadyLog 8192) (some loginEvent)] ∧
      (loggerShutdown (.failed 0) (some (fileSession [.log (steadyLog 8192) (some loginEvent)]).logger)).status = .ok ∧
      ¬Complete (ascii "log") 0 ([] :: (fileSession [.log (steadyLog 8192) (some loginEvent)]).records)
        ((fileSession [.log (steadyLog 8192) (some loginEvent)]).disk.run
          (loggerShutdown (.failed 0) (some (fileSession [.log (steadyLog 8192) (some loginEvent)]).logger)).effects) := by
  have hinit : (loggerInit steadyInit (some fileConfig)).logger = some fileLogger := rfl
  have hsound : (fileSession [.log (steadyLog 8192) (some loginEvent)]).Sound (ascii "log") 0 [] 1 :=
    (loggerInit_file hinit rfl rfl rfl).step (by decide) fileSession_login_ok.1
  obtain ⟨hok, hiff⟩ := hsound.shutdown (.failed 0)
  refine ⟨fileSession_login_ok, hok, fun hcomplete => hiff.1 hcomplete ⟨0, rfl, ?_⟩⟩
  decide +kernel

end IoJournal
