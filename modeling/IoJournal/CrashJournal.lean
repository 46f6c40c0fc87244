import IoJournal.CrashConsistency
import IoJournal.FileJournal
import IoJournal.Wire.Pieces

/-!
# IoJournal.CrashJournal

The journal of programs that stop at some moment, inside a call of the library or between two, and are
started again on the same file.

`IoJournal.CrashConsistency` is about the sink and its octets, this module about the logger and its events.

* A `Program` is a logger up to the moment its program stops. Its calls make the same of the sink as the
  calls `sinkCalls` (`Mirrors`), so it is a life of the sink (`Program.Lived.livesAs`).
* `Program.Leaves` says what is left of a program, in lines and events.
* `crash_journal` is about any number of programs. The sink opens the file and appends, whatever the file
  ends with, so the first line of a program can be on the rest of a torn one.
-/

namespace IoJournal

open Wire Posix

/-! ## Programs -/

/-- When a program is stopped: in `ij_logger_init`, in a call after some others, or in `ij_logger_shutdown`. -/
inductive Stop where
  | inInit
  | inCall (calls : List UseCall) (c : UseCall)
  | inShutdown (calls : List UseCall) (answer : CloseAnswer)

def Stop.calls : Stop → List UseCall
  | .inInit => []
  | .inCall calls _ => calls
  | .inShutdown calls _ => calls

/-- A program with a file logger, up to the moment it is stopped. Of the effects of the last call `cut`
happened. -/
structure Program where
  os : InitOs
  config : LoggerConfig
  stop : Stop
  cut : List Effect

/-- The call returned OK, or it was refused before it came to the sink. -/
def Journaling.Goes (cpu : Cpu) (s : Journaling) : UseCall → Prop
  | .log os event =>
    (loggerLog cpu printDouble os s.logger event).status = .ok ∨
      (loggerLog cpu printDouble os s.logger event).effects = [] ∧
        (loggerLog cpu printDouble os s.logger event).logger = s.logger
  | .flush answer => (loggerFlush answer (some s.logger)).status = .ok

def Journaling.effectsOf (cpu : Cpu) (s : Journaling) : UseCall → List Effect
  | .log os event => (loggerLog cpu printDouble os s.logger event).effects
  | .flush answer => (loggerFlush answer (some s.logger)).effects

/-- The text that a call hands to the sink, if it hands over one. -/
def Journaling.handedOf (cpu : Cpu) (s : Journaling) : UseCall → List Bytes
  | .log os event => (loggerLog cpu printDouble os s.logger event).handed
  | .flush _ => []

/-- The event whose text a call hands to the sink. -/
def Journaling.givenOf (cpu : Cpu) (s : Journaling) : UseCall → List Event
  | .log os event => if s.handedOf cpu (.log os event) = [] then [] else event.toList
  | .flush _ => []

namespace Program

def init (p : Program) : LoggerOut := loggerInit p.os (some p.config)

/-- The logger that `ij_logger_init` made. -/
def begun (p : Program) : Journaling := .start (p.init.logger.getD (applyLoggerDefaults p.config))

def after (cpu : Cpu) (p : Program) (calls : List UseCall) : Journaling :=
  Machine.run (Journaling.step cpu printDouble) p.begun calls

def usesUring (p : Program) : Bool := p.begun.logger.fileSink.usesUring

def lastEffects (cpu : Cpu) (p : Program) : List Effect :=
  match p.stop with
  | .inInit => p.init.effects
  | .inCall calls c => (p.after cpu calls).effectsOf cpu c
  | .inShutdown calls answer => (loggerShutdown answer (some (p.after cpu calls).logger)).effects

def step (cpu : Cpu) (d : Disk) (p : Program) : Disk :=
  match p.stop with
  | .inInit => d.run p.cut
  | stop => ((d.run p.init.effects).run (p.after cpu stop.calls).effects).run p.cut

/-- The text that the last call hands to the sink. -/
def lastHanded (cpu : Cpu) (p : Program) : List Bytes :=
  match p.stop with
  | .inCall calls c => (p.after cpu calls).handedOf cpu c
  | _ => []

/-- The events that the sink was given, that of the last call among them. -/
def given (cpu : Cpu) (p : Program) : List Event :=
  (p.after cpu p.stop.calls).journal ++
    match p.stop with
    | .inCall calls c => (p.after cpu calls).givenOf cpu c
    | _ => []

/-- The logger was made, the calls before the last one went well, and the last one may do what was done. -/
structure Lived (cpu : Cpu) (path : Bytes) (p : Program) : Prop where
  kind : SinkKind.ofCode? p.config.sinkKind = some .file
  path : p.config.filePath.map (·.bytes) = some path
  begun : p.stop = .inInit ∨ p.init.logger.isSome = true
  accepted : Machine.Along (Journaling.step cpu printDouble) (Journaling.Goes cpu) p.begun p.stop.calls
  count : p.stop.calls.length + 1 < wordSize
  cut : Cut p.cut (p.lastEffects cpu)

end Program

/-! ## The calls of the sink -/

/-- What a call that went well makes of the sink. -/
def sinkCallsOf (cpu : Cpu) (s : Journaling) : UseCall → List SinkCall
  | .log os event =>
    if (loggerLog cpu printDouble os s.logger event).status = .ok then
      (loggerLog cpu printDouble os s.logger event).handed.map (.write os.file)
    else []
  | .flush answer => [.flush answer]

def sinkCalls (cpu : Cpu) : Journaling → List UseCall → List SinkCall
  | _, [] => []
  | s, c :: calls => sinkCallsOf cpu s c ++ sinkCalls cpu (s.step cpu printDouble c) calls

theorem sinkCalls_append (cpu : Cpu) (s : Journaling) (calls calls' : List UseCall) :
    sinkCalls cpu s (calls ++ calls') =
      sinkCalls cpu s calls ++ sinkCalls cpu (Machine.run (Journaling.step cpu printDouble) s calls) calls' := by
  induction calls generalizing s with
  | nil => rfl
  | cons c calls ih => rw [List.cons_append, sinkCalls, sinkCalls, ih, List.append_assoc, Machine.run_cons]

theorem loggerLog_handed {cpu : Cpu} {os : LogOs} {logger : Logger} (event : Option Event)
    (hkind : SinkKind.ofCode? logger.config.sinkKind = some .file) :
    ((loggerLog cpu printDouble os logger event).handed = [] ∧
        (loggerLog cpu printDouble os logger event).effects = []) ∨
      ∃ text e, event = some e ∧ (loggerLog cpu printDouble os logger event).handed = [text] ∧
        (loggerLog cpu printDouble os logger event).effects = (fileSinkWrite os.file logger.fileSink text).effects ∧
        TextOf printDouble logger.config .file text e := by
  have hsteps := loggerLog_steps cpu printDouble os logger event
  generalize loggerLog cpu printDouble os logger event = out at hsteps
  cases hsteps with
  | refused => exact .inl ⟨rfl, rfl⟩
  | filtered => exact .inl ⟨rfl, rfl⟩
  | @sent e copied kind henabled hcopy hkind' hencode =>
    obtain rfl : kind = .file := Option.some.inj (hkind'.symm.trans hkind)
    exact .inr ⟨_, e, rfl, rfl, rfl, encodeFor_textOf hcopy hencode⟩

/-- A logger and the store of its sink after the same calls. -/
structure Mirrors (config : LoggerConfig) (d : Disk) (s : Journaling) (t : Store) : Prop where
  active : s.logger.active = true
  sameConfig : s.logger.config = config
  sink : t.world.sink = s.logger.fileSink
  disk : t.world.disk = d.run s.effects

section Mirrors

variable {cpu : Cpu} {config : LoggerConfig} {d : Disk} {s : Journaling} {t : Store}

theorem Mirrors.kind (h : Mirrors config d s t) (hkind : SinkKind.ofCode? config.sinkKind = some .file) :
    SinkKind.ofCode? s.logger.config.sinkKind = some .file := by
  rw [h.sameConfig]
  exact hkind

theorem Mirrors.flush (h : Mirrors config d s t) (hkind : SinkKind.ofCode? config.sinkKind = some .file)
    (answer : FlushAnswer) :
    loggerFlush answer (some s.logger) = ⟨(fileSinkFlush answer s.logger.fileSink).status,
      some { s.logger with fileSink := (fileSinkFlush answer s.logger.fileSink).state },
      (fileSinkFlush answer s.logger.fileSink).effects⟩ := by
  simp only [loggerFlush, h.active, h.kind hkind, Bool.not_true, Bool.false_eq_true, if_false, if_true]

theorem Mirrors.step (h : Mirrors config d s t) (hkind : SinkKind.ofCode? config.sinkKind = some .file) {c : UseCall}
    (hc : s.Goes cpu c) :
    Machine.Along Store.step Store.CallOk t (sinkCallsOf cpu s c) ∧
      Mirrors config d (s.step cpu printDouble c) (Machine.run Store.step t (sinkCallsOf cpu s c)) ∧
      (s.step cpu printDouble c).handed = s.handed ++ (sinkCallsOf cpu s c).flatMap SinkCall.payloads := by
  cases c with
  | log os event =>
    by_cases hok : (loggerLog cpu printDouble os s.logger event).status = .ok
    · rcases loggerLog_file (h.kind hkind) hok with hout | ⟨payload, -, hwrite, hout⟩
      · have hcalls : sinkCallsOf cpu s (.log os event) = [] := by
          simp only [sinkCallsOf, hout, if_true, List.map_nil]
        have hstep : s.step cpu printDouble (.log os event) =
            { s with journal := s.journal ++ journaled s.logger.config event } := by
          simp only [Journaling.step, hout, if_true, List.append_nil]
        rw [hcalls, hstep]
        exact ⟨trivial, ⟨h.active, h.sameConfig, h.sink, h.disk⟩, (List.append_nil _).symm⟩
      · have hcalls : sinkCallsOf cpu s (.log os event) = [.write os.file payload] := by
          simp only [sinkCallsOf, hout, if_true, List.map_cons, List.map_nil]
        rw [← h.sink] at hwrite
        rw [hcalls]
        refine ⟨⟨hwrite, trivial⟩, ?_, ?_⟩
        · simp only [Journaling.step, hout, Machine.run_cons, Machine.run_nil, Store.step]
          refine ⟨h.active, h.sameConfig, ?_, ?_⟩
          · simp only [World.after, h.sink]
          · simp only [World.after, h.sink, h.disk, Disk.run_append]
        · simp only [Journaling.step, hout, if_true]
          rfl
    · obtain ⟨heffects, hlogger⟩ := hc.resolve_left hok
      have hcalls : sinkCallsOf cpu s (.log os event) = [] := by simp only [sinkCallsOf, if_neg hok]
      have hstep : s.step cpu printDouble (.log os event) = s := by
        simp only [Journaling.step, heffects, hlogger, if_neg hok, List.append_nil]
      rw [hcalls, hstep]
      exact ⟨trivial, h, (List.append_nil _).symm⟩
  | flush answer =>
    have hok : (loggerFlush answer (some s.logger)).status = .ok := hc
    rw [h.flush hkind, ← h.sink] at hok
    refine ⟨⟨hok, trivial⟩, ?_, (List.append_nil _).symm⟩
    simp only [Journaling.step, h.flush hkind, Option.getD_some, sinkCallsOf, Machine.run_cons, Machine.run_nil, Store.step]
    refine ⟨h.active, h.sameConfig, ?_, ?_⟩
    · simp only [World.after, h.sink]
    · simp only [World.after, h.sink, h.disk, Disk.run_append]

theorem Mirrors.run (h : Mirrors config d s t) (hkind : SinkKind.ofCode? config.sinkKind = some .file)
    {calls : List UseCall} (hcalls : Machine.Along (Journaling.step cpu printDouble) (Journaling.Goes cpu) s calls) :
    Machine.Along Store.step Store.CallOk t (sinkCalls cpu s calls) ∧
      Mirrors config d (Machine.run (Journaling.step cpu printDouble) s calls)
        (Machine.run Store.step t (sinkCalls cpu s calls)) ∧
      (Machine.run (Journaling.step cpu printDouble) s calls).handed =
        s.handed ++ (sinkCalls cpu s calls).flatMap SinkCall.payloads := by
  induction calls generalizing s t with
  | nil => exact ⟨trivial, h, (List.append_nil _).symm⟩
  | cons c calls ih =>
    obtain ⟨hok, hmirrors, hhanded⟩ := h.step hkind hcalls.1
    obtain ⟨hok', hmirrors', hhanded'⟩ := ih hmirrors hcalls.2
    rw [sinkCalls, Machine.run_cons, Machine.run_append]
    refine ⟨Machine.along_append.2 ⟨hok, hok'⟩, hmirrors', ?_⟩
    rw [hhanded', hhanded, List.flatMap_append, List.append_assoc]

/-- What a call does and hands over, the same call of the sink does and hands over, whatever comes of it. -/
theorem Mirrors.lastCall (h : Mirrors config d s t) (hkind : SinkKind.ofCode? config.sinkKind = some .file)
    (c : UseCall) : ∃ sinkCall : SinkCall, sinkCall.payloads = s.handedOf cpu c ∧
      ∀ cut, Cut cut (s.effectsOf cpu c) → Cut cut (sinkCall.effects t) := by
  cases c with
  | log os event =>
    rcases loggerLog_handed event (h.kind hkind) with ⟨hnone, heffects⟩ | ⟨text, e, -, htext, heffects, -⟩
    · refine ⟨.flush .ok, hnone.symm, fun cut hcut => ?_⟩
      rw [Journaling.effectsOf, heffects] at hcut
      rw [hcut.of_nil]
      exact .stop _
    · refine ⟨.write os.file text, htext.symm, fun cut hcut => ?_⟩
      rw [Journaling.effectsOf, heffects, ← h.sink] at hcut
      exact hcut
  | flush answer =>
    refine ⟨.flush answer, rfl, fun cut hcut => ?_⟩
    rw [Journaling.effectsOf, h.flush hkind, ← h.sink] at hcut
    exact hcut

theorem Mirrors.shutdown (h : Mirrors config d s t) (answer : CloseAnswer) {cut : List Effect}
    (hcut : Cut cut (loggerShutdown answer (some s.logger)).effects) :
    ∃ closing, Cut closing (fileSinkClose answer t.world.sink).2 ∧ ∀ disk : Disk, disk.run closing = disk.run cut := by
  have hshutdown : (loggerShutdown answer (some s.logger)).effects =
      (fileSinkClose answer t.world.sink).2 ++ (syslogSinkClose s.logger.syslogSink).2 := by
    simp only [loggerShutdown, h.active, h.sink, Bool.not_true, Bool.false_eq_true, if_false]
  rw [hshutdown] at hcut
  rcases hcut.of_append with hfirst | ⟨rest, rfl, hrest⟩
  · exact ⟨cut, hfirst, fun _ => rfl⟩
  · refine ⟨_, .refl _, fun disk => ?_⟩
    rw [Disk.run_append]
    rw [syslogSinkClose] at hrest
    dsimp only at hrest
    split at hrest
    · cases hrest with
      | stop => rfl
      | next _ hrest =>
        rw [hrest.of_nil]
        rfl
    · rw [hrest.of_nil]
      rfl

end Mirrors

/-! ## A program and the life of its sink -/

theorem Program.begun_mirrors {p : Program} {path : Bytes} (hkind : SinkKind.ofCode? p.config.sinkKind = some .file)
    (hpath : p.config.filePath.map (·.bytes) = some path) (hbegun : p.init.logger.isSome = true) (d : Disk) :
    (fileSinkOpen p.os.file { FileSink.zero with requestedBackend := p.config.fileBackend } (some path)).status = .ok ∧
      p.usesUring = (fileSinkOpen p.os.file { FileSink.zero with requestedBackend := p.config.fileBackend }
        (some path)).state.usesUring ∧
      Mirrors (applyLoggerDefaults p.config).config (d.run p.init.effects) p.begun
        (.opened p.os.file { FileSink.zero with requestedBackend := p.config.fileBackend } path
          ⟨p.config.fileRotateBytes, p.config.fileRotateIntervalSeconds, p.config.fileRetentionFiles⟩ d) := by
  obtain ⟨logger, hlogger⟩ := Option.isSome_iff_exists.1 hbegun
  have hinit : (loggerInit p.os (some p.config)).logger = some logger := hlogger
  obtain ⟨status, -, heq⟩ | ⟨c, hc, hvalid, heq⟩ := loggerInit_cases p.os (some p.config)
  · rw [heq] at hinit
    cases hinit
  · cases hc
    have hbegun : p.begun = .start logger := by rw [Program.begun, hlogger, Option.getD_some]
    rw [Program.usesUring, hbegun]
    have hconfig : (applyLoggerDefaults p.config).config.filePath.map (·.bytes) = some path := hpath
    have hkind' : SinkKind.ofCode? (applyLoggerDefaults p.config).config.sinkKind = some .file := hkind
    rw [Program.init, heq]
    rw [heq] at hinit
    simp only [openSink, hkind', hconfig] at hinit ⊢
    split at hinit
    · cases hinit
    · rename_i hok
      rw [if_neg hok]
      rw [not_not] at hok
      cases hinit
      exact ⟨hok, rfl, ⟨rfl, rfl, rfl, rfl⟩⟩

theorem Program.init_effects {p : Program} {path : Bytes} (hkind : SinkKind.ofCode? p.config.sinkKind = some .file)
    (hpath : p.config.filePath.map (·.bytes) = some path) :
    p.init.effects = [] ∨ p.init.effects =
      (fileSinkOpen p.os.file { FileSink.zero with requestedBackend := p.config.fileBackend } (some path)).effects := by
  obtain ⟨status, -, heq⟩ | ⟨c, hc, -, heq⟩ := loggerInit_cases p.os (some p.config)
  · rw [Program.init, heq]
    exact .inl rfl
  · cases hc
    have hconfig : (applyLoggerDefaults p.config).config.filePath.map (·.bytes) = some path := hpath
    have hkind' : SinkKind.ofCode? (applyLoggerDefaults p.config).config.sinkKind = some .file := hkind
    refine .inr ?_
    rw [Program.init, heq]
    simp only [openSink, hkind', hconfig]
    split <;> rfl

theorem before_part (before after : List SinkCall) (answer : FlushAnswer) :
    before <+: (before ++ .flush answer :: after).rdropWhile SinkCall.isWrite := by
  induction after using List.reverseRecOn with
  | nil =>
    rw [List.rdropWhile_concat_neg _ _ _ (by simp [SinkCall.isWrite])]
    exact List.prefix_append _ _
  | append_singleton after c ih =>
    rw [← List.cons_append, ← List.append_assoc]
    by_cases hc : SinkCall.isWrite c = true
    · rw [List.rdropWhile_concat_pos _ _ _ hc]
      exact ih
    · rw [List.rdropWhile_concat_neg _ _ _ hc, List.append_assoc]
      exact List.prefix_append _ _

/-- A life of the sink in which the same happens to the disk. -/
structure Program.LivesAs (cpu : Cpu) (path : Bytes) (d : Disk) (p : Program) (life : Life) : Prop where
  lived : life.Lived path d
  disk : life.step path d = p.step cpu d
  submitted : life.submitted = (p.after cpu p.stop.calls).handed ++ p.lastHanded cpu
  calls : life.stops.calls = sinkCalls cpu p.begun p.stop.calls
  handed : ∀ before after, p.stop.calls = before ++ after →
    (p.after cpu before).handed = (sinkCalls cpu p.begun before).flatMap SinkCall.payloads
  usesUring : p.usesUring = true → p.stop = .inInit ∨
    (fileSinkOpen life.os life.sink (some path)).state.usesUring = true
  retention : life.settings.retentionFiles = p.config.fileRetentionFiles

theorem sinkCalls_length (cpu : Cpu) (s : Journaling) (calls : List UseCall) :
    (sinkCalls cpu s calls).length ≤ calls.length := by
  induction calls generalizing s with
  | nil => exact Nat.le_refl 0
  | cons c calls ih =>
    have hone : (sinkCallsOf cpu s c).length ≤ 1 := by
      cases c with
      | flush answer => exact Nat.le_refl 1
      | log os event =>
        have hsteps := loggerLog_steps cpu printDouble os s.logger event
        simp only [sinkCallsOf]
        generalize loggerLog cpu printDouble os s.logger event = out at hsteps
        cases hsteps with
        | refused => simp
        | filtered => simp
        | @sent e copied kind henabled hcopy hkind hencode =>
          split
          · rename_i hok
            rw [handOver_handed hok, List.map_singleton, List.length_singleton]
          · exact Nat.zero_le 1
    rw [sinkCalls, List.length_append, List.length_cons]
    have hrest := ih (s.step cpu printDouble c)
    omega

section LivesAs

variable {cpu : Cpu} {path : Bytes} {p : Program}

theorem Program.Lived.livesAs (h : p.Lived cpu path) (d : Disk) : ∃ life, p.LivesAs cpu path d life := by
  obtain ⟨os, config, stop, cut⟩ := p
  let sink : FileSink := { FileSink.zero with requestedBackend := config.fileBackend }
  let settings : RotationSettings :=
    ⟨config.fileRotateBytes, config.fileRotateIntervalSeconds, config.fileRetentionFiles⟩
  have hcut := h.cut
  cases stop with
  | inInit =>
    have hopening : Cut cut (fileSinkOpen os.file sink (some path)).effects := by
      rcases Program.init_effects h.kind h.path with hnone | hopen
      · have hcut : Cut cut (Program.init ⟨os, config, .inInit, cut⟩).effects := h.cut
        rw [hnone] at hcut
        rw [hcut.of_nil]
        exact .stop _
      · have hcut : Cut cut (Program.init ⟨os, config, .inInit, cut⟩).effects := h.cut
        rw [hopen] at hcut
        exact hcut
    refine ⟨⟨os.file, sink, settings, .opening, cut⟩, ⟨.inl rfl, trivial, h.count, hopening⟩, rfl, rfl, rfl,
      ?_, fun _ => .inl rfl, rfl⟩
    intro before after heq
    obtain ⟨rfl, rfl⟩ := List.append_eq_nil_iff.1 heq.symm
    rfl
  | inCall calls c =>
    obtain ⟨hopen, huring, hbegun⟩ := Program.begun_mirrors h.kind h.path (h.begun.resolve_left (by simp)) d
    obtain ⟨haccepted, hmirrors, hhanded⟩ := hbegun.run h.kind h.accepted
    have hcount := sinkCalls_length cpu (Program.begun ⟨os, config, .inCall calls c, cut⟩) calls
    have hroom : calls.length + 1 < wordSize := h.count
    have hdisk := congrArg (Disk.run · cut) hmirrors.disk
    -- the call of the sink in which it happens, and what it hands over
    obtain ⟨sinkCall, hpayloads, hcut'⟩ := @Mirrors.lastCall cpu _ _ _ _ hmirrors h.kind c
    refine ⟨⟨os.file, sink, settings, .inCall (sinkCalls cpu (Program.begun ⟨os, config, .inCall calls c, cut⟩) calls)
      sinkCall, cut⟩, ⟨.inr hopen, haccepted, ?_, hcut' cut hcut⟩, hdisk, ?_, rfl, ?_, fun hu => .inr (huring ▸ hu), rfl⟩
    · change (sinkCalls _ _ _).length + 1 < wordSize
      omega
    · change (_ ++ [sinkCall]).flatMap SinkCall.payloads = _
      rw [List.flatMap_append, List.flatMap_singleton, hpayloads]
      exact congrArg (· ++ _) hhanded.symm
    · exact fun before after heq => (hbegun.run h.kind (Machine.along_append.1 (heq ▸ h.accepted)).1).2.2
  | inShutdown calls answer =>
    obtain ⟨hopen, huring, hbegun⟩ := Program.begun_mirrors h.kind h.path (h.begun.resolve_left (by simp)) d
    obtain ⟨haccepted, hmirrors, hhanded⟩ := hbegun.run h.kind h.accepted
    have hcount := sinkCalls_length cpu (Program.begun ⟨os, config, .inShutdown calls answer, cut⟩) calls
    have hroom : calls.length + 1 < wordSize := h.count
    obtain ⟨closing, hclosing, hsame⟩ := hmirrors.shutdown answer hcut
    refine ⟨⟨os.file, sink, settings, .closing (sinkCalls cpu
      (Program.begun ⟨os, config, .inShutdown calls answer, cut⟩) calls) answer, closing⟩,
      ⟨.inr hopen, haccepted, ?_, hclosing⟩, ?_, ?_, rfl, ?_, fun hu => .inr (huring ▸ hu), rfl⟩
    · change (sinkCalls _ _ _).length + 1 < wordSize
      omega
    · exact (congrArg (Disk.run · closing) hmirrors.disk).trans (hsame _)
    · exact hhanded.symm.trans (List.append_nil _).symm
    · exact fun before after heq => (hbegun.run h.kind (Machine.along_append.1 (heq ▸ h.accepted)).1).2.2

end LivesAs

/-! ## The lines of all programs -/

/-- What is left of a program: its first lines, and a part of the line after them. -/
structure Left where
  texts : List Bytes
  torn : Bytes

/-- The pieces in which it is put into the log. -/
def Left.pieces (left : Left) : List Bytes :=
  left.texts.map (fun text => text ++ [0x0A]) ++ if left.torn = [] then [] else [left.torn]

/-- A program leaves the lines of the first of its events in order, of all those that were logged before a flush
returned, and with io_uring of all whose call returned. -/
structure Program.Leaves (cpu : Cpu) (p : Program) (left : Left) : Prop where
  reads : ∃ rest, List.Forall₂ (ReadsAs p.config.redactionMode) (left.texts ++ rest) (p.given cpu) ∧
    (left.torn = [] ∨ ∃ next, rest.head? = some next ∧ left.torn <+: next)
  inner : ∀ text ∈ left.texts, 0x0A ∉ text
  torn : 0x0A ∉ left.torn
  flushed : ∀ before answer after, p.stop.calls = before ++ .flush answer :: after →
    (p.after cpu before).journal.length ≤ left.texts.length
  returned : p.usesUring = true → (p.after cpu p.stop.calls).journal.length ≤ left.texts.length

section Lines

variable {cpu : Cpu} {path : Bytes} {p : Program}

theorem Program.Leaves.piece {left : Left} (h : p.Leaves cpu left) : ∀ piece ∈ left.pieces, Piece piece := by
  intro piece hpiece
  rcases List.mem_append.1 hpiece with hline | htorn
  · obtain ⟨text, htext, rfl⟩ := List.mem_map.1 hline
    exact .line (h.inner text htext)
  · split at htorn
    · cases htorn
    · rename_i hne
      rw [List.mem_singleton.1 htorn]
      exact .torn h.torn hne

theorem Left.pieces_flatten (left : Left) :
    left.pieces.flatten = (left.texts.map fun text => text ++ [0x0A]).flatten ++ left.torn := by
  rw [Left.pieces, List.flatten_append]
  split
  · rename_i hnil
    rw [hnil, List.flatten_nil]
  · rw [List.flatten_singleton]

theorem Program.begun_faithful (h : p.Lived cpu path) (hbegun : p.init.logger.isSome = true) (calls : List UseCall) :
    (p.after cpu calls).Faithful printDouble (applyLoggerDefaults p.config).config .file := by
  obtain ⟨logger, hlogger⟩ := Option.isSome_iff_exists.1 hbegun
  obtain ⟨-, hactive, hconfig⟩ := loggerInit_config hlogger
  have hstart : p.begun = .start logger := by rw [Program.begun, hlogger, Option.getD_some]
  rw [Program.after, hstart]
  have hkind : SinkKind.ofCode? (applyLoggerDefaults p.config).config.sinkKind = some .file := h.kind
  exact faithful_run hkind hactive hconfig calls

theorem Journaling.Faithful.given {config : LoggerConfig} {s : Journaling} (h : s.Faithful printDouble config .file)
    (hkind : SinkKind.ofCode? config.sinkKind = some .file) (c : UseCall) :
    List.Forall₂ (TextOf printDouble config .file) (s.handedOf cpu c) (s.givenOf cpu c) := by
  cases c with
  | flush answer => exact .nil
  | log os event =>
    rw [← h.sameConfig] at hkind
    simp only [Journaling.givenOf, Journaling.handedOf]
    rcases @loggerLog_handed cpu os _ event hkind with ⟨hnone, -⟩ | ⟨text, e, rfl, htext, -, htextOf⟩
    · simp only [hnone, if_true]
      exact .nil
    · simp only [htext, List.cons_ne_nil, if_false]
      rw [h.sameConfig] at htextOf
      exact .cons htextOf .nil

theorem Program.Lived.texts (h : p.Lived cpu path) :
    List.Forall₂ (TextOf printDouble (applyLoggerDefaults p.config).config .file)
      ((p.after cpu p.stop.calls).handed ++ p.lastHanded cpu) (p.given cpu) := by
  rcases h.begun with hinit | hbegun
  · simp only [Program.given, Program.lastHanded, hinit, Stop.calls, Program.after, Machine.run_nil]
    exact .nil
  have hfaithful := p.begun_faithful h hbegun p.stop.calls
  refine List.rel_append hfaithful.texts ?_
  rw [Program.lastHanded]
  cases hstop : p.stop with
  | inInit => exact .nil
  | inShutdown calls answer => exact .nil
  | inCall calls c => exact (hstop ▸ hfaithful).given h.kind c

section Durable

variable {d : Disk} {life : Life} (hlife : p.LivesAs cpu path d life)
include hlife

theorem Program.LivesAs.durable_part :
    life.durable path <+: (p.after cpu p.stop.calls).handed ++ p.lastHanded cpu := by
  rw [hlife.handed _ [] (List.append_nil _).symm, ← hlife.calls]
  exact (durablePayloads_part _ _).trans (List.prefix_append _ _)

theorem Program.LivesAs.flushed {before after : List UseCall} {answer : FlushAnswer}
    (h : p.stop.calls = before ++ .flush answer :: after) : (p.after cpu before).handed <+: life.durable path := by
  rw [hlife.handed before _ h, Life.durable, hlife.calls, h, sinkCalls_append]
  have hbefore := before_part (sinkCalls cpu p.begun before)
    (sinkCalls cpu ((p.after cpu before).step cpu printDouble (.flush answer)) after) answer
  cases (fileSinkOpen life.os life.sink (some path)).state.usesUring with
  | true => exact (List.prefix_append _ _).flatMap _
  | false => exact hbefore.flatMap _

theorem Program.LivesAs.returned (h : p.usesUring = true) (hstop : p.stop ≠ .inInit) :
    (p.after cpu p.stop.calls).handed <+: life.durable path := by
  rw [hlife.handed _ [] (List.append_nil _).symm, Life.durable, hlife.calls, (hlife.usesUring h).resolve_left hstop]
  exact List.prefix_rfl

end Durable

theorem Program.Lived.leaves (h : p.Lived cpu path) (hne : path ≠ []) (d : Disk) :
    ∃ left, p.Leaves cpu left ∧ (p.step cpu d).stream path = d.stream path ++ left.pieces.flatten := by
  obtain ⟨life, hlife⟩ := h.livesAs d
  obtain ⟨octets, hstream, hdurable, hsubmitted⟩ := (hlife.lived.leaves hne).stream
  obtain ⟨texts, htexts, hreads, hinner⟩ := fileTexts_read h.texts
  rw [hlife.disk] at hstream
  rw [hlife.submitted, htexts] at hsubmitted
  have hpayloads := hlife.durable_part
  rw [htexts] at hpayloads
  -- the lines that are on disk in full, and the part of the next one
  obtain ⟨kept, torn, rest, hsplit, hoctets, htorn⟩ := flatten_cut hsubmitted
  obtain ⟨texts, later, rfl, rfl, rfl⟩ := List.map_eq_append_iff.1 hsplit
  have hwhole : ∀ calls, p.stop ≠ .inInit → (p.after cpu calls).handed <+: life.durable path →
      (p.after cpu calls).journal.length ≤ texts.length := by
    intro calls hstop hprefix
    have hlength := @whole_of_flatten _ _ _ torn ?_ htorn (hsplit ▸ hprefix.trans hpayloads)
      (hoctets ▸ hprefix.flatten.trans hdurable)
    · rw [List.length_map, (p.begun_faithful h (h.begun.resolve_left hstop) calls).texts.length_eq] at hlength
      exact hlength
    · rw [← List.map_append]
      intro line hline
      obtain ⟨text, -, rfl⟩ := List.mem_map.1 hline
      exact List.append_ne_nil_of_right_ne_nil _ (List.cons_ne_nil _ _)
  have hpart : torn = [] ∨ ∃ next, later.head? = some next ∧ torn <+: next := by
    rcases htorn with htorn | ⟨next, hnext, htorn, hproper⟩
    · exact .inl htorn
    · rw [List.head?_map] at hnext
      obtain ⟨text, htext, rfl⟩ := Option.map_eq_some_iff.1 hnext
      exact .inr ⟨text, htext, (List.prefix_concat_iff.1 htorn).resolve_left hproper⟩
  refine ⟨⟨texts, torn⟩, ⟨⟨later, hreads, hpart⟩, fun text htext => hinner text (List.mem_append_left _ htext), ?_,
    ?_, ?_⟩, ?_⟩
  · rcases hpart with htorn | ⟨next, hnext, htorn⟩
    · rw [htorn]
      exact List.not_mem_nil
    · exact fun hmem => hinner next (List.mem_append_right _ (List.mem_of_mem_head? hnext)) (htorn.subset hmem)
  · intro before answer after heq
    refine hwhole before (fun hinit => ?_) (hlife.flushed heq)
    rw [hinit] at heq
    cases before <;> cases heq
  · intro huring
    by_cases hinit : p.stop = .inInit
    · rw [hinit]
      exact Nat.zero_le _
    · exact hwhole _ hinit (hlife.returned huring hinit)
  · rw [hstream, hoctets, Left.pieces_flatten]

end Lines

section Programs

variable {cpu : Cpu} {path : Bytes} {d : Disk} {programs : List Program}

theorem programs_leave (hne : path ≠ []) (h : ∀ p ∈ programs, p.Lived cpu path) :
    ∃ lefts : List Left, List.Forall₂ (Program.Leaves cpu) programs lefts ∧
      lines ((Machine.run (Program.step cpu) d programs).stream path) =
        (lefts.flatMap Left.pieces).foldl putPiece (lines (d.stream path)) := by
  induction programs generalizing d with
  | nil => exact ⟨[], .nil, rfl⟩
  | cons p programs ih =>
    rw [List.forall_mem_cons] at h
    obtain ⟨left, hleft, hstream⟩ := h.1.leaves hne d
    obtain ⟨lefts, hlefts, hlines⟩ := @ih (p.step cpu d) h.2
    refine ⟨left :: lefts, .cons hleft hlefts, ?_⟩
    rw [Machine.run_cons, hlines, hstream, lines_pieces _ hleft.piece, List.flatMap_cons, List.foldl_append]

theorem programs_logsTo (hne : path ≠ []) (h : ∀ p ∈ programs, p.Lived cpu path)
    (hretention : ∀ p ∈ programs, p.config.fileRetentionFiles = 0) :
    d.LogsTo path (Machine.run (Program.step cpu) d programs) := by
  induction programs generalizing d with
  | nil => exact .refl
  | cons p programs ih =>
    rw [List.forall_mem_cons] at h hretention
    obtain ⟨life, hlife⟩ := h.1.livesAs d
    have hfirst := hlife.lived.logsTo hne (hlife.retention.trans hretention.1)
    rw [hlife.disk] at hfirst
    exact hfirst.trans (ih h.2 hretention.2)

end Programs

/-- Any number of programs log to the file one after the other, each stopped at any moment. The lines of all
that was ever moved away and then of the active file are those that were there and then the lines each of
them left; the only line that is not the text of an event is that of a program that was stopped within it,
and the first line of the next one is put on it. They are the lines in the files, if retention is off and no
two renames, of the same program or of different ones, have the same target. -/
theorem crash_journal (cpu : Cpu) {path : Bytes} (hne : path ≠ []) (d : Disk) (programs : List Program)
    (h : ∀ p ∈ programs, p.Lived cpu path) :
    ∃ lefts : List Left, List.Forall₂ (Program.Leaves cpu) programs lefts ∧
      lines ((Machine.run (Program.step cpu) d programs).stream path) =
        (lefts.flatMap Left.pieces).foldl putPiece (lines (d.stream path)) ∧
      (d.Keeps path → (∀ p ∈ programs, p.config.fileRetentionFiles = 0) →
        ((Machine.run (Program.step cpu) d programs).moved.map Prod.fst).Nodup →
        lines ((Machine.run (Program.step cpu) d programs).log path) =
          (lefts.flatMap Left.pieces).foldl putPiece (lines (d.log path))) := by
  obtain ⟨lefts, hlefts, hlines⟩ := @programs_leave cpu path d programs hne h
  refine ⟨lefts, hlefts, hlines, fun hkeeps hretention hnodup => ?_⟩
  have hlogs : d.LogsTo path (Machine.run (Program.step cpu) d programs) := programs_logsTo hne h hretention
  rw [hlogs.log_eq hkeeps hnodup, hkeeps.log_eq, hlines]

/-- Stopped in the middle of a flush, and then started again and stopped after one. -/
def stoppedPrograms : List Program :=
  [⟨steadyInit, fileConfig, .inCall [.log (steadyLog 8192) (some loginEvent)] (.flush .ok),
      [.append (ascii "log") (ascii "\x7b")]⟩,
    ⟨steadyInit, fileConfig, .inCall [.log (steadyLog 8192) (some loginEvent), .flush .ok] (.flush .ok), []⟩]

theorem loginEvent_flushed :
    let s := (Journaling.start fileLogger).step scalarCpu printDouble (.log (steadyLog 8192) (some loginEvent))
    (loggerLog scalarCpu printDouble (steadyLog 8192) fileLogger (some loginEvent)).status = .ok ∧
      (loggerFlush .ok (some s.logger)).status = .ok ∧
        s.effectsOf scalarCpu (.flush .ok) =
          [.append (ascii "log") ((s.effectsOf scalarCpu (.flush .ok)).flatMap (Effect.appended (ascii "log")))] ∧
        ascii "\x7b" <+: (s.effectsOf scalarCpu (.flush .ok)).flatMap (Effect.appended (ascii "log")) := by
  decide +kernel

theorem stoppedPrograms_lived : ∀ p ∈ stoppedPrograms, p.Lived scalarCpu (ascii "log") := by
  obtain ⟨hok, hflush, heffects, hpart⟩ := loginEvent_flushed
  refine List.forall_mem_cons.2 ⟨⟨rfl, rfl, .inr rfl, ⟨.inl hok, trivial⟩, by decide, ?_⟩,
    List.forall_mem_singleton.2 ⟨rfl, rfl, .inr rfl, ⟨.inl hok, hflush, trivial⟩, by decide, .stop _⟩⟩
  have hlast := @Cut.torn (ascii "log") _ _ [] hpart
  rw [← heffects] at hlast
  exact hlast

theorem crash_journal_login :
    ∃ lefts : List Left, List.Forall₂ (Program.Leaves scalarCpu) stoppedPrograms lefts ∧
      lines ((Machine.run (Program.step scalarCpu) emptyDisk stoppedPrograms).stream (ascii "log")) =
        (lefts.flatMap Left.pieces).foldl putPiece [] ∧
      lines ((Machine.run (Program.step scalarCpu) emptyDisk stoppedPrograms).log (ascii "log")) =
        (lefts.flatMap Left.pieces).foldl putPiece [] := by
  obtain ⟨lefts, hlefts, hlines, hlog⟩ :=
    crash_journal scalarCpu (show ascii "log" ≠ [] by decide) emptyDisk stoppedPrograms stoppedPrograms_lived
  exact ⟨lefts, hlefts, hlines, hlog (List.forall_mem_nil _) (by decide) (by decide +kernel)⟩

end IoJournal
