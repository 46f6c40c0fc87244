import IoJournal.ConsoleSink
import IoJournal.KeptFields
import IoJournal.NdjsonStream
import IoJournal.Shutdown

/-!
# IoJournal.Journal

What a logger is for: it keeps a journal of the events it was given.

The journal of a run is the list of the events that were enabled and whose `ij_logger_log` returned OK
(`Journaling`). Everything else a caller does leaves it alone: an event below the threshold, one that is
refused, a flush. Each sink keeps it in its own way, and for each there is a reader that gets it back from
what the sink put out; this module has the console.

* `loggerLog_steps`: all that a call can do.
* `Journaling.Faithful`: along every run, the texts handed to the sink are the encodings of the journal.
* `console_journal`: the lines on standard output, parsed, are the journal.
-/

namespace IoJournal

open Wire Posix

/-! ## What one call can do -/

/-- A call returns an error and does nothing, takes the event for disabled, or hands the encoded event
over to the sink. -/
inductive LogSteps (cpu : Cpu) (g17 : Double → Bytes) (os : LogOs) (logger : Logger) :
    Option Event → Logged → Prop where
  | refused {event : Option Event} {status : Status} : status ≠ .ok →
      LogSteps cpu g17 os logger event ⟨status, logger, [], []⟩
  | filtered {e : Event} : levelIsEnabled logger.config.minLevel e.level = false →
      LogSteps cpu g17 os logger (some e) ⟨.ok, logger, [], []⟩
  | sent {e : Event} {copied : EventCopy} {kind : SinkKind} :
      levelIsEnabled logger.config.minLevel e.level = true →
      eventCopyFromInput cpu os.heap (some e) logger.config.redactionMode = .ok copied →
      SinkKind.ofCode? logger.config.sinkKind = some kind →
      (encodeFor cpu g17 logger.config os.stack copied kind).status = .ok →
      LogSteps cpu g17 os logger (some e)
        (handOver os logger (encodeFor cpu g17 logger.config os.stack copied kind).output kind)

theorem loggerLog_steps (cpu : Cpu) (g17 : Double → Bytes) (os : LogOs) (logger : Logger) (event : Option Event) :
    LogSteps cpu g17 os logger event (loggerLog cpu g17 os logger event) := by
  cases event with
  | none => exact .refused (by decide)
  | some e =>
    simp only [loggerLog]
    split
    · exact .refused (by decide)
    · split
      · rename_i hdisabled
        exact .filtered (by simpa using hdisabled)
      · rename_i henabled
        cases hcopy : eventCopyFromInput cpu os.heap (some e) logger.config.redactionMode with
        | error status => exact .refused (eventCopyFromInput_error hcopy)
        | ok copied =>
          cases hkind : SinkKind.ofCode? logger.config.sinkKind with
          | none =>
            simp only [deliver, hkind]
            exact .refused (by decide)
          | some kind =>
            simp only [deliver_eq cpu g17 os logger copied hkind]
            split
            · rename_i hencode
              exact .refused hencode
            · rename_i hencode
              exact .sent (by simpa using henabled) hcopy hkind (not_not.1 hencode)

theorem loggerLog_logger (cpu : Cpu) (g17 : Double → Bytes) (os : LogOs) {logger : Logger} (event : Option Event)
    (hfile : SinkKind.ofCode? logger.config.sinkKind ≠ some .file) :
    (loggerLog cpu g17 os logger event).logger = logger := by
  have hsteps := loggerLog_steps cpu g17 os logger event
  generalize loggerLog cpu g17 os logger event = out at hsteps
  cases hsteps with
  | refused => rfl
  | filtered => rfl
  | @sent e copied kind henabled hcopy hkind hencode =>
    cases kind with
    | console => rfl
    | file => exact absurd hkind hfile
    | syslog =>
      simp only [handOver]
      split <;> rfl

/-! ## The journal of a run -/

/-- A logger in use, all effects so far, the texts that calls which returned OK handed to the sink, and
the journal: the events of the calls that returned OK, those below the threshold apart. -/
structure Journaling where
  logger : Logger
  effects : List Effect
  handed : List Bytes
  journal : List Event

def Journaling.start (logger : Logger) : Journaling := ⟨logger, [], [], []⟩

/-- The events of a call that belong in the journal. -/
def journaled (config : LoggerConfig) (event : Option Event) : List Event :=
  event.toList.filter fun e => levelIsEnabled config.minLevel e.level

def Journaling.step (cpu : Cpu) (g17 : Double → Bytes) (s : Journaling) : UseCall → Journaling
  | .log os event =>
    let out := loggerLog cpu g17 os s.logger event
    { logger := out.logger
      effects := s.effects ++ out.effects
      handed := if out.status = .ok then s.handed ++ out.handed else s.handed
      journal := if out.status = .ok then s.journal ++ journaled s.logger.config event else s.journal }
  | .flush answer =>
    let out := loggerFlush answer (some s.logger)
    { s with logger := out.logger.getD s.logger, effects := s.effects ++ out.effects }

/-- The call returned OK, or nothing of what `view` sees happened. -/
def Journaling.Settles {β : Type} (view : List Effect → List β) (cpu : Cpu) (g17 : Double → Bytes) (s : Journaling) :
    UseCall → Prop
  | .log os event =>
    (loggerLog cpu g17 os s.logger event).status = .ok ∨ view (loggerLog cpu g17 os s.logger event).effects = []
  | .flush _ => True

/-- The text is the encoding of a valid event for the sink of the configuration. -/
structure TextOf (g17 : Double → Bytes) (config : LoggerConfig) (kind : SinkKind) (text : Bytes) (e : Event) :
    Prop where
  wellFormed : e.WellFormed
  text : (e.record config.redactionMode).textFor g17 config kind = some text

/-- The texts handed to the sink are the encodings of the journal. -/
structure Journaling.Faithful (g17 : Double → Bytes) (config : LoggerConfig) (kind : SinkKind) (s : Journaling) :
    Prop where
  active : s.logger.active = true
  sameConfig : s.logger.config = config
  texts : List.Forall₂ (TextOf g17 config kind) s.handed s.journal

section Faithful

variable {cpu : Cpu} {g17 : Double → Bytes} {config : LoggerConfig} {kind : SinkKind}
  (hkind : SinkKind.ofCode? config.sinkKind = some kind)

theorem encodeFor_textOf {os : LogOs} {e : Event} {copied : EventCopy}
    (hcopy : eventCopyFromInput cpu os.heap (some e) config.redactionMode = .ok copied)
    (hencode : (encodeFor cpu g17 config os.stack copied kind).status = .ok) :
    TextOf g17 config kind (encodeFor cpu g17 config os.stack copied kind).output e := by
  obtain ⟨hwf, hrep⟩ := eventCopyFromInput_represents hcopy
  obtain ⟨text, htext, -, -, hout⟩ :=
    (encodeFor_encodes cpu g17 config os.stack hrep hwf.nanoseconds hwf.level kind).output hencode
  rw [hout]
  exact ⟨hwf, htext⟩

include hkind in
theorem Journaling.Faithful.step {s : Journaling} (h : s.Faithful g17 config kind) (c : UseCall) :
    (s.step cpu g17 c).Faithful g17 config kind := by
  cases c with
  | log os event =>
    obtain ⟨hconfig, hactive⟩ := loggerLog_config cpu g17 os s.logger event
    refine ⟨hactive.trans h.active, hconfig.trans h.sameConfig, ?_⟩
    have hsteps := loggerLog_steps cpu g17 os s.logger event
    simp only [Journaling.step]
    generalize loggerLog cpu g17 os s.logger event = out at hsteps
    cases hsteps with
    | refused hstatus =>
      simp only [if_neg hstatus]
      exact h.texts
    | filtered hdisabled =>
      have hnone : journaled s.logger.config (some _) = [] := List.filter_eq_nil_iff.2 fun e he => by
        rw [List.mem_singleton.1 he, hdisabled]
        exact Bool.false_ne_true
      simp only [if_true, List.append_nil, hnone]
      exact h.texts
    | @sent e copied kind' henabled hcopy hkind' hencode =>
      rw [h.sameConfig] at henabled hcopy hkind' hencode ⊢
      obtain rfl : kind = kind' := Option.some.inj (hkind.symm.trans hkind')
      have hone : journaled config (some e) = [e] := by
        simp only [journaled, Option.toList_some, List.filter_cons, henabled, if_true, List.filter_nil]
      by_cases hok : (handOver os s.logger (encodeFor cpu g17 config os.stack copied kind).output kind).status = .ok
      · rw [if_pos hok, if_pos hok, handOver_handed hok, hone]
        exact List.rel_append h.texts (.cons (encodeFor_textOf hcopy hencode) .nil)
      · rw [if_neg hok, if_neg hok]
        exact h.texts
  | flush answer =>
    refine ⟨?_, ?_, h.texts⟩
    · cases hout : (loggerFlush answer (some s.logger)).logger with
      | none => simp only [Journaling.step, hout]; exact h.active
      | some logger => simp only [Journaling.step, hout]; exact (loggerFlush_config hout).2.trans h.active
    · cases hout : (loggerFlush answer (some s.logger)).logger with
      | none => simp only [Journaling.step, hout]; exact h.sameConfig
      | some logger => simp only [Journaling.step, hout]; exact (loggerFlush_config hout).1.trans h.sameConfig

theorem Journaling.Faithful.flush {s : Journaling} (h : s.Faithful g17 config kind)
    (hkind : SinkKind.ofCode? config.sinkKind = some kind) (hfile : kind ≠ .file) (answer : FlushAnswer) :
    loggerFlush answer (some s.logger) = ⟨.ok, some s.logger, []⟩ := by
  have hne : SinkKind.ofCode? s.logger.config.sinkKind ≠ some .file := by
    rw [h.sameConfig, hkind]
    simpa using hfile
  simp only [loggerFlush, h.active, Bool.not_true, Bool.false_eq_true, if_false, if_neg hne]

/-- The journal of every run is what the texts encode, whatever fails along it. -/
theorem faithful_run (hkind : SinkKind.ofCode? config.sinkKind = some kind) {logger : Logger}
    (hactive : logger.active = true) (hconfig : logger.config = config) (calls : List UseCall) :
    (Machine.run (Journaling.step cpu g17) (.start logger) calls).Faithful g17 config kind :=
  Machine.run_invariant (Journaling.Faithful g17 config kind) (fun _ c h => h.step hkind c) ⟨hactive, hconfig, .nil⟩ calls

/-! ## What the effects carry -/

/-- The part of the effects that `view` picks out is `put text` for each text that was written. -/
structure Carries {β : Type} (config : LoggerConfig) (kind : SinkKind) (view : List Effect → List β)
    (put : Bytes → List β) : Prop where
  nil : view [] = []
  append : ∀ es es', view (es ++ es') = view es ++ view es'
  sent : ∀ os logger text, logger.config = config → (handOver os logger text kind).status = .ok →
    view (handOver os logger text kind).effects = put text

section Carries

variable {β : Type} {view : List Effect → List β} {put : Bytes → List β} (hview : Carries config kind view put)
  (hkind : SinkKind.ofCode? config.sinkKind = some kind)
include hview hkind

theorem Carries.log {s : Journaling} (h : s.Faithful g17 config kind) {os : LogOs} {event : Option Event}
    (hs : s.Settles view cpu g17 (.log os event)) (hseen : view s.effects = s.handed.flatMap put) :
    view (s.step cpu g17 (.log os event)).effects = (s.step cpu g17 (.log os event)).handed.flatMap put := by
  have hsteps := loggerLog_steps cpu g17 os s.logger event
  simp only [Journaling.Settles] at hs
  simp only [Journaling.step]
  generalize loggerLog cpu g17 os s.logger event = out at hsteps hs
  cases hsteps with
  | refused hstatus =>
    rw [if_neg hstatus, List.append_nil]
    exact hseen
  | filtered hdisabled =>
    rw [if_pos rfl, List.append_nil, List.append_nil]
    exact hseen
  | @sent e copied kind' henabled hcopy hkind' hencode =>
    rw [h.sameConfig] at hkind'
    obtain rfl : kind = kind' := Option.some.inj (hkind.symm.trans hkind')
    rw [hview.append, hseen]
    by_cases hok : (handOver os s.logger (encodeFor cpu g17 s.logger.config os.stack copied kind).output kind).status = .ok
    · rw [if_pos hok, handOver_handed hok, hview.sent os s.logger _ h.sameConfig hok, List.flatMap_append,
        List.flatMap_singleton]
    · rw [hs.resolve_left hok, if_neg hok, List.append_nil]

theorem Carries.run (hfile : kind ≠ .file) {logger : Logger} (hactive : logger.active = true)
    (hconfig : logger.config = config) {calls : List UseCall}
    (hcalls : Machine.Along (Journaling.step cpu g17) (Journaling.Settles view cpu g17) (.start logger) calls) :
    view (Machine.run (Journaling.step cpu g17) (.start logger) calls).effects =
      (Machine.run (Journaling.step cpu g17) (.start logger) calls).handed.flatMap put := by
  have hrun := hcalls.invariant (fun s => s.Faithful g17 config kind ∧ view s.effects = s.handed.flatMap put)
    (fun s c hs hc => ⟨hs.1.step hkind c, ?_⟩) ⟨⟨hactive, hconfig, .nil⟩, hview.nil⟩
  · exact hrun.2
  · obtain ⟨hs, hseen⟩ := hs
    cases c with
    | log os event => exact hview.log hkind hs hc hseen
    | flush answer =>
      simp only [Journaling.step, hs.flush hkind hfile answer, List.append_nil]
      exact hseen

end Carries

end Faithful

/-! ## The console -/

theorem stdoutOctets_append (es es' : List Effect) : stdoutOctets (es ++ es') = stdoutOctets es ++ stdoutOctets es' :=
  List.flatMap_append

theorem console_carries (config : LoggerConfig) :
    Carries config .console stdoutOctets (fun text => text ++ [0x0A]) where
  nil := rfl
  append := stdoutOctets_append
  sent os logger text _ hok := by
    have hok : (consoleSinkWrite os.writev text).1 = .ok := hok
    have hne : 1 ≤ text.length := by
      by_contra hzero
      rw [consoleSinkWrite, if_pos (by omega)] at hok
      cases hok
    rcases consoleSinkWrite_spec hne os.writev with ⟨-, hout⟩ | ⟨herr, -⟩
    · exact hout
    · rw [hok] at herr
      cases herr

/-- A receiver that parses the text as JSON reads what the event said. -/
def ReadsAs (mode : Int) (text : Bytes) (e : Event) : Prop :=
  ∃ line, (Json.parse text).bind readLine = some line ∧ line.Describes printDouble mode e

theorem number_printable {t : Bytes} (h : Json.Number t) : ∀ b ∈ t, isPrintable b = true := by
  have hdigits : ∀ ds, Json.Digits ds → ∀ b ∈ ds, isPrintable b = true := by
    intro ds hds b hb
    have hdigit := hds.2 b hb
    simp only [isDigit, isPrintable, Bool.and_eq_true, decide_eq_true_eq] at hdigit ⊢
    exact ⟨UInt8.le_trans (by decide) hdigit.1, UInt8.le_trans hdigit.2 (by decide)⟩
  obtain ⟨minus, int, frac, exp, rfl, hminus, hint, hfrac, hexp⟩ := h
  intro b hb
  simp only [List.mem_append] at hb
  rcases hb with hb | hb | hb | hb
  · rcases hminus with rfl | rfl
    · cases hb
    · rw [List.mem_singleton.1 hb]; decide
  · rcases hint with rfl | ⟨d, ds, rfl, -, hds⟩
    · rw [List.mem_singleton.1 hb]; decide
    · exact hdigits _ hds b hb
  · rcases hfrac with rfl | ⟨ds, rfl, hds⟩
    · cases hb
    · rcases List.mem_cons.1 hb with rfl | hb
      · decide
      · exact hdigits _ hds b hb
  · rcases hexp with rfl | ⟨e, sign, ds, rfl, he, hsign, hds⟩
    · cases hb
    · rcases List.mem_cons.1 hb with rfl | hb
      · rcases he with rfl | rfl <;> decide
      · rcases List.mem_append.1 hb with hb | hb
        · rcases hsign with rfl | rfl | rfl
          · cases hb
          · rw [List.mem_singleton.1 hb]; decide
          · rw [List.mem_singleton.1 hb]; decide
        · exact hdigits _ hds b hb

theorem Event.WellFormed.json_reads {e : Event} (hwf : e.WellFormed) {mode : Int} {text : Bytes}
    (htext : (e.record mode).json printDouble = some text) : ReadsAs mode text e ∧ 0x0A ∉ text := by
  have hvalid := hwf.record_valid mode
  obtain ⟨hy, level, attrs, hlevel, hreads, hderives⟩ := Record.json_derives printDouble_number hvalid htext
  have hparse : Json.parse text = some (.obj ((e.record mode).members level attrs)) :=
    Json.parse_complete ⟨[], text, [], by simp, Json.ws_nil, hderives, Json.ws_nil⟩
  refine ⟨⟨_, ?_, Event.record_describes hwf hlevel hreads⟩, fun hmem => ?_⟩
  · rw [hparse, Option.bind_some]
    exact Record.readLine_members hvalid hy level attrs
  · obtain ⟨hclean, -⟩ := Record.json_clean (fun d hd => number_printable (printDouble_number d hd)) hvalid htext
    exact absurd (hclean.controls 0x0A hmem) (by decide)

theorem loggerInit_config {os : InitOs} {config : LoggerConfig} {logger : Logger}
    (hinit : (loggerInit os (some config)).logger = some logger) :
    validateLoggerConfig (some config) = .ok ∧ logger.active = true ∧
      logger.config = (applyLoggerDefaults config).config := by
  obtain ⟨status, -, heq⟩ | ⟨c, hc, hvalid, heq⟩ := loggerInit_cases os (some config)
  · rw [heq] at hinit
    cases hinit
  · cases hc
    rw [heq] at hinit
    obtain ⟨-, hnone⟩ | ⟨-, fileSink, syslogSink, hsome⟩ := openSink_logger os (applyLoggerDefaults config)
    · rw [hnone] at hinit
      cases hinit
    · rw [hsome] at hinit
      cases hinit
      exact ⟨hvalid, rfl, rfl⟩

/-- From the start of a console logger, as long as every call returns OK or writes nothing, standard output
has one line for each event of the journal, in order, and a receiver that parses the lines reads the
journal: every enabled event whose call returned OK, each once, and nothing else. -/
theorem console_journal (cpu : Cpu) {os : InitOs} {config : LoggerConfig} {logger : Logger}
    (hinit : (loggerInit os (some config)).logger = some logger)
    (hkind : SinkKind.ofCode? config.sinkKind = some .console) (calls : List UseCall)
    (hcalls : Machine.Along (Journaling.step cpu printDouble) (Journaling.Settles stdoutOctets cpu printDouble)
      (.start logger) calls) :
    let s := Machine.run (Journaling.step cpu printDouble) (.start logger) calls
    ∃ texts : List Bytes, lines (stdoutOctets s.effects) = texts.map (fun text => text ++ [0x0A]) ∧
      List.Forall₂ (ReadsAs config.redactionMode) texts s.journal := by
  intro s
  obtain ⟨-, hactive, hconfig⟩ := loggerInit_config hinit
  have hkind' : SinkKind.ofCode? (applyLoggerDefaults config).config.sinkKind = some .console := hkind
  have hfaithful : s.Faithful printDouble _ .console := faithful_run hkind' hactive hconfig calls
  have hout : stdoutOctets s.effects = s.handed.flatMap fun text => text ++ [0x0A] :=
    (console_carries _).run hkind' nofun hactive hconfig hcalls
  have hreads : List.Forall₂ (fun text e => ReadsAs config.redactionMode text e ∧ 0x0A ∉ text) s.handed s.journal :=
    hfaithful.texts.imp fun _ _ h => h.wellFormed.json_reads h.text
  refine ⟨s.handed, ?_, hreads.imp fun _ _ h => h.1⟩
  rw [hout]
  refine lines_flatMap fun text htext => ?_
  obtain ⟨i, hi, rfl⟩ := List.getElem_of_mem htext
  exact ((List.forall₂_iff_get.1 hreads).2 i hi (by rw [← hreads.length_eq]; exact hi)).2

/-- A call without an event, a login below the threshold, and one above. -/
def consoleCalls : List UseCall :=
  [.log (steadyLog 0) none, .log (steadyLog 8192) (some { loginEvent with level := 1 }),
    .log (steadyLog 8192) (some loginEvent)]

theorem loginEvent_logged :
    (loggerLog scalarCpu printDouble (steadyLog 8192) consoleLogger (some loginEvent)).status = .ok := by
  decide +kernel

theorem console_journal_login :
    ∃ texts : List Bytes,
      lines (stdoutOctets
        (Machine.run (Journaling.step scalarCpu printDouble) (.start consoleLogger) consoleCalls).effects) =
          texts.map (fun text => text ++ [0x0A]) ∧
      List.Forall₂ (ReadsAs redactionModeEnabled) texts [loginEvent] := by
  have hcalls : Machine.Along (Journaling.step scalarCpu printDouble)
      (Journaling.Settles stdoutOctets scalarCpu printDouble) (.start consoleLogger) consoleCalls :=
    ⟨.inr rfl, .inl rfl, .inl loginEvent_logged, trivial⟩
  have hjournal : (Machine.run (Journaling.step scalarCpu printDouble) (.start consoleLogger) consoleCalls).journal =
      [loginEvent] := by
    have hnone : loggerLog scalarCpu printDouble (steadyLog 0) consoleLogger none =
        ⟨.invalidArgument, consoleLogger, [], []⟩ := rfl
    have hlow : loggerLog scalarCpu printDouble (steadyLog 8192) consoleLogger (some { loginEvent with level := 1 }) =
        ⟨.ok, consoleLogger, [], []⟩ := rfl
    simp only [consoleCalls, Machine.run_cons, Machine.run_nil, Journaling.step, Journaling.start, hnone, hlow,
      loginEvent_logged]
    decide
  obtain ⟨texts, hlines, hreads⟩ := @console_journal scalarCpu steadyInit consoleConfig consoleLogger rfl rfl
    consoleCalls hcalls
  rw [hjournal] at hreads
  exact ⟨texts, hlines, hreads⟩

end IoJournal
