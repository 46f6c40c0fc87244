import IoJournal.Journal

/-!
# IoJournal.LoggerSpec

`ij_logger_log` as a function of what it is given.

The call validates and copies the event in two passes over an arena, with kernels that depend on the CPU,
and encodes the copy into a buffer on the stack. `logSpec` says what comes out of all this without any of
it: the record of a valid event, its text, and the write of the sink. `loggerLog_eq_logSpec` is the
equation between the two.

`transcript_agrees` is what follows for runs: neither the CPU, nor what the allocated blocks and the stack
held before, nor, under redaction, the secrets of an event make a difference to anything that a run does.
-/

namespace IoJournal

open Wire Posix

instance (e : Event) : Decidable e.WellFormed :=
  decidable_of_iff (validateEvent scalarCpu (some e) = .ok) (validateEvent_iff scalarCpu e)

/-! ## One call -/

/-- The allocator has a block for the arena of the event, and one for its attributes if it has any. -/
def Heap.Grants (heap : Heap) (mode : Int) (e : Event) : Prop :=
  (heap.arena (e.scan mode).arenaSize).isSome = true ∧
    (e.attributes.count = 0 ∨ heap.attributes e.attributes.count = true)

instance (heap : Heap) (mode : Int) (e : Event) : Decidable (heap.Grants mode e) := inferInstanceAs (Decidable (_ ∧ _))

/-- What comes of a text at a sink: it fits the buffer with its terminator, or there is no record. -/
def submit (os : LogOs) (logger : Logger) (kind : SinkKind) : Option Bytes → Logged
  | none => ⟨.encodeError, logger, [], []⟩
  | some text => if text.length < 8192 then handOver os logger text kind else ⟨.encodeError, logger, [], []⟩

/-- What `ij_logger_log` does: the checks in their order, and then the text of the record goes to the sink. -/
def logSpec (g17 : Double → Bytes) (os : LogOs) (logger : Logger) : Option Event → Logged
  | none => ⟨.invalidArgument, logger, [], []⟩
  | some e =>
    if logger.active = false then ⟨.invalidState, logger, [], []⟩
    else if levelIsEnabled logger.config.minLevel e.level = false then ⟨.ok, logger, [], []⟩
    else if ¬e.WellFormed then ⟨.invalidArgument, logger, [], []⟩
    else if ¬os.heap.Grants logger.config.redactionMode e then ⟨.internalError, logger, [], []⟩
    else
      match SinkKind.ofCode? logger.config.sinkKind with
      | none => ⟨.invalidArgument, logger, [], []⟩
      | some kind =>
        submit os logger kind ((e.record logger.config.redactionMode).textFor g17 logger.config kind)

theorem eventCopyFromInput_grants (cpu : Cpu) {heap : Heap} {e : Event} (mode : Int) (h : e.WellFormed) :
    (heap.Grants mode e → ∃ c, eventCopyFromInput cpu heap (some e) mode = .ok c) ∧
      (¬heap.Grants mode e → eventCopyFromInput cpu heap (some e) mode = .error .internalError) := by
  simp only [eventCopyFromInput, scanEvent_complete cpu e mode h]
  constructor
  · rintro ⟨harena, hattrs⟩
    obtain ⟨arena, ha⟩ := Option.isSome_iff_exists.1 harena
    obtain ⟨c, -, hc, -⟩ := copyEvent_spec mode h hattrs (heap.arena_size _ _ ha)
    exact ⟨c, by simp only [ha, hc]⟩
  · intro hrefused
    cases ha : heap.arena (e.scan mode).arenaSize with
    | none => rfl
    | some arena =>
      have hattrs : ¬(e.attributes.count = 0 ∨ heap.attributes e.attributes.count = true) := fun hattrs =>
        hrefused ⟨by rw [ha]; rfl, hattrs⟩
      rw [not_or, Bool.not_eq_true] at hattrs
      simp only [copyEvent, if_neg hattrs.1, hattrs.2, Bool.not_false, if_true]

theorem submit_of_encodes {r : Encoded} {t : Option Bytes} (h : Encodes r 8192 t) (os : LogOs) (logger : Logger)
    (kind : SinkKind) :
    (if r.status ≠ .ok then ⟨r.status, logger, [], []⟩ else handOver os logger r.output kind) =
      submit os logger kind t := by
  by_cases hroom : ∃ text, t = some text ∧ text.length < 8192
  · obtain ⟨text, rfl, hlt⟩ := hroom
    have hok := (h.ok text rfl hlt).1
    obtain ⟨text', htext, -, -, hout⟩ := h.output hok
    cases htext
    rw [if_neg (not_not.2 hok), hout, submit, if_pos hlt]
  · have hfull : ∀ text, t = some text → 8192 ≤ text.length := by
      intro text htext
      by_contra hlt
      exact hroom ⟨text, htext, by omega⟩
    have herr := (h.full hfull).1
    rw [if_pos (by rw [herr]; nofun), herr]
    cases t with
    | none => rfl
    | some text => rw [submit, if_neg (by have := hfull text rfl; omega)]

/-- Whatever the CPU and whatever the memory held before, `ij_logger_log` does what the specification says:
it returns the same status, and does the same to the sink. -/
theorem loggerLog_eq_logSpec (cpu : Cpu) (g17 : Double → Bytes) (os : LogOs) (logger : Logger) (event : Option Event) :
    loggerLog cpu g17 os logger event = logSpec g17 os logger event := by
  cases event with
  | none => rfl
  | some e =>
    simp only [loggerLog, logSpec, Bool.not_eq_true']
    by_cases hactive : logger.active = false
    · rw [if_pos hactive, if_pos hactive]
    rw [if_neg hactive, if_neg hactive]
    by_cases hdisabled : levelIsEnabled logger.config.minLevel e.level = false
    · rw [if_pos hdisabled, if_pos hdisabled]
    rw [if_neg hdisabled, if_neg hdisabled]
    by_cases hwf : e.WellFormed
    · rw [if_neg (not_not.2 hwf)]
      obtain ⟨hcopies, hfails⟩ := @eventCopyFromInput_grants cpu os.heap e logger.config.redactionMode hwf
      by_cases hgrants : os.heap.Grants logger.config.redactionMode e
      · obtain ⟨copied, hcopy⟩ := hcopies hgrants
        obtain ⟨-, hrep⟩ := eventCopyFromInput_represents hcopy
        rw [if_neg (not_not.2 hgrants), hcopy]
        cases hkind : SinkKind.ofCode? logger.config.sinkKind with
        | none => simp only [deliver, hkind]
        | some kind =>
          have henc := encodeFor_encodes cpu g17 logger.config os.stack hrep hwf.nanoseconds hwf.level kind
          rw [os.stack.size] at henc
          simp only [deliver_eq cpu g17 os logger copied hkind, submit_of_encodes henc]
      · rw [if_pos hgrants, hfails hgrants]
    · rw [if_pos hwf, eventCopyFromInput_of_not_wellFormed cpu os.heap logger.config.redactionMode hwf]

/-! ## Runs -/

/-- All that can be seen of a run: the logger, the effects, the texts handed to the sink, and what the
calls returned. -/
structure Transcript where
  logger : Logger
  effects : List Effect
  handed : List Bytes
  statuses : List Status

def Transcript.start (logger : Logger) : Transcript := ⟨logger, [], [], []⟩

def Transcript.step (cpu : Cpu) (g17 : Double → Bytes) (s : Transcript) : UseCall → Transcript
  | .log os event =>
    let out := loggerLog cpu g17 os s.logger event
    ⟨out.logger, s.effects ++ out.effects, s.handed ++ out.handed, s.statuses ++ [out.status]⟩
  | .flush answer =>
    let out := loggerFlush answer (some s.logger)
    ⟨out.logger.getD s.logger, s.effects ++ out.effects, s.handed, s.statuses ++ [out.status]⟩

/-- The sink gets the same answers; the memory may differ. -/
structure LogOs.Alike (os os' : LogOs) : Prop where
  writev : os.writev = os'.writev
  file : os.file = os'.file
  sendto : os.sendto = os'.sendto
  send : os.send = os'.send

/-- The events are equal, or with redaction on differ in secrets only, and they are accepted alike: both are valid or
neither is, and memory is granted to both or to neither. -/
structure EventAlike (mode : Int) (os os' : LogOs) (e e' : Event) : Prop where
  same : e = e' ∨ mode = redactionModeEnabled ∧ e.SameButSecrets e'
  valid : e.WellFormed ↔ e'.WellFormed
  memory : os.heap.Grants mode e ↔ os'.heap.Grants mode e'

inductive UseCall.Alike (mode : Int) : UseCall → UseCall → Prop where
  | null {os os' : LogOs} : UseCall.Alike mode (.log os none) (.log os' none)
  | log {os os' : LogOs} {e e' : Event} : os.Alike os' → EventAlike mode os os' e e' →
      UseCall.Alike mode (.log os (some e)) (.log os' (some e'))
  | flush (answer : FlushAnswer) : UseCall.Alike mode (.flush answer) (.flush answer)

theorem LogOs.Alike.handOver {os os' : LogOs} (h : os.Alike os') (logger : Logger) (text : Bytes) (kind : SinkKind) :
    handOver os logger text kind = handOver os' logger text kind := by
  cases kind with
  | console => simp only [IoJournal.handOver, h.writev]
  | file => simp only [IoJournal.handOver, h.file]
  | syslog => simp only [IoJournal.handOver, h.sendto, h.send]

section Alike

variable {mode : Int} {os os' : LogOs} {e e' : Event} (h : EventAlike mode os os' e e')
include h

theorem EventAlike.level : e.level = e'.level := by
  rcases h.same with rfl | ⟨-, hsecrets⟩
  · rfl
  · rw [hsecrets.rest]

theorem EventAlike.record : e.record mode = e'.record mode := by
  rcases h.same with rfl | ⟨rfl, hsecrets⟩
  · rfl
  · exact hsecrets.record_eq

theorem EventAlike.logSpec (hos : os.Alike os') (g17 : Double → Bytes) {logger : Logger}
    (hmode : logger.config.redactionMode = mode) :
    logSpec g17 os logger (some e) = logSpec g17 os' logger (some e') := by
  subst hmode
  have hsubmit : ∀ kind t, submit os logger kind t = submit os' logger kind t := by
    intro kind t
    cases t with
    | none => rfl
    | some text => simp only [submit, hos.handOver]
  simp only [IoJournal.logSpec, h.level, h.record, h.valid, h.memory, hsubmit]

end Alike

theorem Transcript.step_mode (cpu : Cpu) (g17 : Double → Bytes) (s : Transcript) (c : UseCall) :
    (s.step cpu g17 c).logger.config.redactionMode = s.logger.config.redactionMode := by
  cases c with
  | log os event => exact congrArg LoggerConfig.redactionMode (loggerLog_config cpu g17 os s.logger event).1
  | flush answer =>
    cases hout : (loggerFlush answer (some s.logger)).logger with
    | none => simp only [Transcript.step, hout, Option.getD_none]
    | some logger => simp only [Transcript.step, hout, Option.getD_some, (loggerFlush_config hout).1]

theorem Transcript.step_alike (cpu cpu' : Cpu) (g17 : Double → Bytes) (s : Transcript) {c c' : UseCall}
    (h : UseCall.Alike s.logger.config.redactionMode c c') : s.step cpu g17 c = s.step cpu' g17 c' := by
  cases h with
  | null => rfl
  | log hos hevents => simp only [Transcript.step, loggerLog_eq_logSpec, hevents.logSpec hos g17 rfl]
  | flush answer => rfl

/-- Two runs of one logger on calls that are alike: whatever the two CPUs and whatever the memory held, and with
redaction on whatever the secrets were, they leave the same transcript, call by call the same status and
the same effects. -/
theorem transcript_agrees (cpu cpu' : Cpu) (g17 : Double → Bytes) (logger : Logger) {calls calls' : List UseCall}
    (hcalls : List.Forall₂ (UseCall.Alike logger.config.redactionMode) calls calls') :
    Machine.run (Transcript.step cpu g17) (.start logger) calls =
      Machine.run (Transcript.step cpu' g17) (.start logger) calls' := by
  let R (s s' : Transcript) : Prop := s = s' ∧ s.logger.config.redactionMode = logger.config.redactionMode
  have hstep : ∀ s s' c c', R s s' → UseCall.Alike logger.config.redactionMode c c' →
      R (s.step cpu g17 c) (s'.step cpu' g17 c') := by
    rintro s _ c c' ⟨rfl, hmode⟩ halike
    rw [← hmode] at halike
    exact ⟨s.step_alike cpu cpu' g17 halike, (s.step_mode cpu g17 c).trans hmode⟩
  have hstart : R (.start logger) (.start logger) := ⟨rfl, rfl⟩
  exact (Machine.run_relates₂ hstep hstart hcalls).1

def dirtyHeap : Heap where
  arena n := some (List.replicate n 1)
  arena_size n bs h := by cases h; exact List.length_replicate
  attributes _ := true

def dirtyLog (len : Nat) : LogOs :=
  { steadyLog len with heap := dirtyHeap, stack := ⟨List.replicate 8192 1, List.length_replicate⟩ }

theorem login_alike : EventAlike redactionModeEnabled (steadyLog 8192) (dirtyLog 8192) loginEvent otherLoginEvent where
  same := .inr ⟨rfl, loginEvent_sameButSecrets⟩
  valid := iff_of_true (by decide +kernel) (by decide +kernel)
  memory := iff_of_true ⟨rfl, .inr rfl⟩ ⟨rfl, .inr rfl⟩

/-- Two logins with two passwords, on two CPUs. -/
theorem transcript_agrees_login :
    Machine.run (Transcript.step scalarCpu printHalf) (.start consoleLogger)
        [.log (steadyLog 0) none, .log (steadyLog 8192) (some loginEvent)] =
      Machine.run (Transcript.step ⟨true, false⟩ printHalf) (.start consoleLogger)
        [.log (dirtyLog 0) none, .log (dirtyLog 8192) (some otherLoginEvent)] :=
  transcript_agrees scalarCpu ⟨true, false⟩ printHalf consoleLogger
    (.cons .null (.cons (.log ⟨rfl, rfl, rfl, rfl⟩ login_alike) .nil))

end IoJournal
