import IoJournal.EventMemory
import IoJournal.Journal
import IoJournal.SinkMemory

/-!
# IoJournal.LoggerMemory

The memory of a logger, from `ij_logger_init` to `ij_logger_shutdown`.

`OwnedLogger` is a logger with its blocks: its own, those of its two strings, and those of its ring and
of its file sink. The functions of `ij_logger.c` are programs over them, and each does what the function
without memory does. A call copies its event, hands it to the sink, and disposes of the copy.

* `loggerInitM_owns`: a logger that was made owns its blocks. One that was not leaves its strings behind,
  unless it is the strings that could not be had.
* `LoggerLife.step_owns`: a call on a logger leaves it as many blocks as it says it has.
* `logger_memory`: over a whole life nothing is freed twice, and exactly the blocks that `lifeLeak` counts
  are still in use after it.
-/

namespace IoJournal

open Wire Posix Allocation

/-- `struct ij_logger` with its blocks. -/
structure OwnedLogger where
  logger : Logger
  self : Option Block
  name : Option Block
  host : Option Block
  ring : OwnedRing
  file : SinkBlocks

def OwnedLogger.held (l : OwnedLogger) : Multiset Block :=
  owned l.self + (owned l.name + (owned l.host + (l.ring.held + l.file.held)))

/-! ## `ij_logger_init` -/

/-- The answers of the allocator and of the mutex in `ij_logger_init`: `lock` and `unlock` are those of the
`ij_ring_destroy` after a sink that could not be opened. -/
structure InitAllocs where
  logger : Bool
  name : Bool
  host : Bool
  slots : Bool
  occupied : Bool
  mutex : Bool
  lock : Bool
  unlock : Bool

/-- Both strings can be had, as far as the configuration has them. -/
def InitAllocs.strings (a : InitAllocs) (config : LoggerConfig) : Bool :=
  (config.loggerName.isNone || a.name) && (config.syslogHost.isNone || a.host)

def InitAllocs.plain (a : InitAllocs) (os : InitOs) (config : Option LoggerConfig) : InitOs :=
  { os with
    logger := a.logger
    strings := config.elim true a.strings
    ring := a.slots && a.occupied && a.mutex }

/-- `strdup` of a string that may be NULL. -/
def strdupM (answer : Bool) (value : Option CString) : Prog (Option Block) :=
  if value.isSome then malloc answer else return none

structure InitOut where
  status : Status
  logger : Option OwnedLogger
  effects : List Effect

/-- The part of `ij_logger_init` that opens the sink. The list of `getaddrinfo` is freed on every path. -/
def openSinkM (os : InitOs) (logger : Logger) : Prog (LoggerOut × SinkBlocks) :=
  match SinkKind.ofCode? logger.config.sinkKind with
  | some .file => do
    let out ← fileSinkOpenM os.file ⟨{ logger.fileSink with requestedBackend := logger.config.fileBackend }, .zero⟩
      (logger.config.filePath.map (·.bytes))
    if out.status ≠ .ok then return (⟨out.status, none, out.effects⟩, out.state.blocks)
    else
      return (⟨.ok, some { logger with fileSink := { out.state.sink with
        rotateBytes := logger.config.fileRotateBytes
        rotateIntervalSeconds := logger.config.fileRotateIntervalSeconds
        retentionFiles := logger.config.fileRetentionFiles } }, out.effects⟩, out.state.blocks)
  | some .syslog => do
    let addresses ← malloc ((SyslogTransport.ofCode? logger.config.syslogTransport).isSome &&
      logger.config.syslogHost.isSome && os.getaddrinfo.isSome)
    free addresses
    return (openSink os logger, .zero)
  | _ => return (openSink os logger, .zero)

/-- `ij_logger_init`. -/
def loggerInitM (os : InitOs) (a : InitAllocs) (config : Option LoggerConfig) : Prog InitOut :=
  if validateLoggerConfig config ≠ .ok then return ⟨validateLoggerConfig config, none, []⟩
  else
    match config with
    | none => return ⟨.invalidArgument, none, []⟩
    | some config => do
      let self ← malloc a.logger
      if self.isNone then return ⟨.internalError, none, []⟩
      else
        let logger := applyLoggerDefaults config
        let name ← strdupM a.name config.loggerName
        let host ← strdupM a.host config.syslogHost
        if config.loggerName.isSome && name.isNone || config.syslogHost.isSome && host.isNone then
          free name
          free host
          free self
          return ⟨.internalError, none, []⟩
        else
          let (ringStatus, ring) ← ringInitM a.slots a.occupied a.mutex .zero logger.config.queueCapacity
          if ringStatus ≠ .ok then
            free self
            return ⟨ringStatus, none, []⟩
          else
            let (opened, file) ← openSinkM os logger
            match opened.logger with
            | none =>
              let _ ← ringDestroyM a.lock a.unlock ring
              free self
              return ⟨opened.status, none, opened.effects⟩
            | some logger => return ⟨opened.status, some ⟨logger, self, name, host, ring, file⟩, opened.effects⟩

/-! ## A logger in use -/

/-- The switch of `ij_logger_log`. -/
def deliverM (cpu : Cpu) (g17 : Double → Bytes) (os : LogOs) (strdup realloc : Bool) (l : OwnedLogger)
    (event : EventCopy) : Prog (Logged × OwnedLogger) :=
  if SinkKind.ofCode? l.logger.config.sinkKind = some .file then
    let encoded := ndjsonEncode cpu g17 (some event) (some os.stack.bytes)
    if encoded.status ≠ .ok then return (⟨encoded.status, l.logger, [], []⟩, l)
    else do
      let out ← fileSinkWriteM os.file strdup realloc ⟨l.logger.fileSink, l.file⟩ encoded.output
      let logger := { l.logger with fileSink := out.state.sink }
      return (⟨out.status, logger, out.effects, [encoded.output]⟩, { l with logger := logger, file := out.state.blocks })
  else
    let out := deliver cpu g17 os l.logger event
    return (out, { l with logger := out.logger })

/-- `ij_logger_log`. -/
def loggerLogM (cpu : Cpu) (g17 : Double → Bytes) (os : LogOs) (strdup realloc : Bool) (l : OwnedLogger)
    (event : Option Event) : Prog (Logged × OwnedLogger) :=
  match event with
  | none => return (⟨.invalidArgument, l.logger, [], []⟩, l)
  | some e =>
    if !l.logger.active then return (⟨.invalidState, l.logger, [], []⟩, l)
    else if !levelIsEnabled l.logger.config.minLevel e.level then return (⟨.ok, l.logger, [], []⟩, l)
    else do
      let (status, copied) ← eventCopyFromInputM cpu os.heap (some e) l.logger.config.redactionMode
      if status ≠ .ok then return (⟨status, l.logger, [], []⟩, l)
      else
        let out ← deliverM cpu g17 os strdup realloc l copied.event
        let _ ← eventCopyDispose copied
        return out

/-- `ij_logger_shutdown`. -/
def loggerShutdownM (close : CloseAnswer) (lock unlock : Bool) (l : OwnedLogger) : Prog LoggerOut :=
  if !l.logger.active then return ⟨.invalidState, some l.logger, []⟩
  else do
    let (_, effects) ← fileSinkCloseM close ⟨l.logger.fileSink, l.file⟩
    let _ ← ringDestroyM lock unlock l.ring
    free l.name
    free l.host
    free l.self
    return ⟨.ok, none, effects ++ (syslogSinkClose l.logger.syslogSink).2⟩

/-! ## A life -/

/-- A call on a logger, with the answers of the two allocations of a rotation. -/
inductive LifeCall where
  | log (os : LogOs) (strdup realloc : Bool) (event : Option Event)
  | flush (answer : FlushAnswer)

/-- The answers of a write when both allocations of a rotation are one. -/
def LogOs.recording (os : LogOs) (record : Bool) : LogOs := { os with file := { os.file with record := record } }

def LifeCall.plain : LifeCall → UseCall
  | .log os strdup realloc event => .log (os.recording (strdup && realloc)) event
  | .flush answer => .flush answer

structure LoggerLife where
  logger : OwnedLogger
  effects : List Effect

def LoggerLife.step (cpu : Cpu) (g17 : Double → Bytes) (s : LoggerLife) : LifeCall → Prog LoggerLife
  | .log os strdup realloc event => do
    let (out, logger) ← loggerLogM cpu g17 os strdup realloc s.logger event
    return ⟨logger, s.effects ++ out.effects⟩
  | .flush answer =>
    let out := loggerFlush answer (some s.logger.logger)
    return ⟨{ s.logger with logger := out.logger.getD s.logger.logger }, s.effects ++ out.effects⟩

/-! ## Ownership -/

/-- What holds of a logger between calls; its ring is never used. -/
structure OwnedLogger.Sound (l : OwnedLogger) : Prop where
  active : l.logger.active = true
  file : OwnedFileSink.Sound ⟨l.logger.fileSink, l.file⟩
  ring : l.ring.Holds []

section Ownership

variable {held : Multiset Block}

theorem strdupM_owns (answer : Bool) (value : Option CString) :
    Owns held (strdupM answer value) fun b held' => held' = owned b + held ∧ b.isSome = (value.isSome && answer) := by
  unfold strdupM
  cases value with
  | none => exact .pure ⟨(zero_add held).symm, rfl⟩
  | some s => exact (Owns.malloc answer).mono fun b held' h => ⟨h.2, h.1⟩

theorem openSinkM_owns (os : InitOs) {logger : Logger} (hzero : logger.fileSink = .zero) :
    Owns held (openSinkM os logger) fun out held' => held' = out.2.held + held ∧ out.1 = openSink os logger ∧
      (∀ l, out.1.logger = some l → OwnedFileSink.Sound ⟨l.fileSink, out.2⟩) ∧
      (out.1.logger = none → out.2 = .zero) := by
  have hnothing : held = SinkBlocks.zero.held + held := (zero_add held).symm
  have hother : ∀ l, (openSink os logger).logger = some l → SinkKind.ofCode? logger.config.sinkKind ≠ some .file →
      OwnedFileSink.Sound ⟨l.fileSink, .zero⟩ := by
    intro l hl hkind
    have hsame : l.fileSink = logger.fileSink := by
      unfold openSink at hl
      split at hl
      · rename_i hfile
        exact absurd hfile hkind
      · simp only at hl
        split at hl
        · cases hl
        · cases hl
          rfl
      · cases hl
        rfl
    rw [hsame, hzero]
    exact OwnedFileSink.zero_sound
  unfold openSinkM
  cases hkind : SinkKind.ofCode? logger.config.sinkKind with
  | none => exact .pure ⟨hnothing, rfl, fun l hl => hother l hl (by rw [hkind]; decide), fun _ => rfl⟩
  | some kind =>
    cases kind with
    | console => exact .pure ⟨hnothing, rfl, fun l hl => hother l hl (by rw [hkind]; decide), fun _ => rfl⟩
    | syslog =>
      refine (Owns.malloc _).bind fun addresses held₁ h₁ => ?_
      rw [h₁.2]
      refine Owns.free_bind ?_
      exact .pure ⟨hnothing, rfl, fun l hl => hother l hl (by rw [hkind]; decide), fun _ => rfl⟩
    | file =>
      have hopen := @fileSinkOpenM_owns held os.file logger.config.fileBackend (logger.config.filePath.map (·.bytes))
      simp only [hzero, openSink, hkind]
      refine hopen.bind fun out held₁ hout => ?_
      obtain ⟨⟨hheld, hplain, hsound⟩, hfailed⟩ := hout
      rw [hheld, ← hplain]
      by_cases hok : out.status = .ok
      · rw [if_neg (not_not.2 hok), if_neg (not_not.2 (show out.plain.status = .ok from hok))]
        refine .pure ⟨rfl, rfl, fun l hl => ?_, fun hnone => by cases hnone⟩
        cases hl
        exact ⟨hsound.entries, hsound.uring⟩
      · rw [if_pos hok, if_pos (show out.plain.status ≠ .ok from hok)]
        exact .pure ⟨rfl, rfl, fun l hl => (by cases hl), fun _ => hfailed hok⟩

theorem card_owned (b : Option Block) : Multiset.card (owned b) = b.isSome.toNat := by
  cases b <;> rfl

/-- An empty ring loses its two arrays, when it can be locked and not unlocked. -/
theorem card_lost {r : OwnedRing} (h : r.Holds []) (hslots : r.slots.isSome = true) (hoccupied : r.occupied.isSome = true)
    (lock unlock : Bool) : Multiset.card (r.lost lock unlock) = if lock = true ∧ unlock = false then 2 else 0 := by
  cases lock with
  | false =>
    have hnone : r.lost false unlock = 0 := h.copies_held
    rw [hnone]
    rfl
  | true =>
    cases unlock with
    | true => rfl
    | false =>
      have harrays : r.lost true false = owned r.slots + owned r.occupied := rfl
      rw [harrays, Multiset.card_add, card_owned, card_owned, hslots, hoccupied]
      rfl

/-- How many blocks an `ij_logger_init` that made no logger leaves behind: the two strings, once both are there,
and the arrays of a ring that it could not unlock. -/
def initLeak (a : InitAllocs) (config : Option LoggerConfig) : Nat :=
  config.elim 0 fun c =>
    if validateLoggerConfig (some c) = .ok ∧ a.logger = true ∧ a.strings c = true then
      c.loggerName.isSome.toNat + c.syslogHost.isSome.toNat +
        (if ringInit (a.slots && a.occupied && a.mutex) (applyLoggerDefaults c).config.queueCapacity = .ok ∧
          a.lock = true ∧ a.unlock = false then 2 else 0)
    else 0

/-- What `ij_logger_init` returns, and what it owns then. -/
structure InitOwned (held : Multiset Block) (a : InitAllocs) (config : Option LoggerConfig) (plain : LoggerOut)
    (out : InitOut) (held' : Multiset Block) : Prop where
  status : out.status = plain.status
  effects : out.effects = plain.effects
  logger : out.logger.map (·.logger) = plain.logger
  made : ∀ l, out.logger = some l → held' = l.held + held ∧ l.Sound ∧ l.ring.slots.isSome = true ∧
    l.ring.occupied.isSome = true
  failed : out.logger = none → ∃ lost, held' = lost + held ∧ Multiset.card lost = initLeak a config

theorem InitOwned.clean {a : InitAllocs} {config : Option LoggerConfig} {status : Status} (h : initLeak a config = 0) :
    InitOwned held a config ⟨status, none, []⟩ ⟨status, none, []⟩ held :=
  ⟨rfl, rfl, rfl, fun l hl => (by cases hl), fun _ => ⟨0, (zero_add held).symm, h.symm⟩⟩

theorem openSink_active {os : InitOs} {logger l : Logger} (h : (openSink os logger).logger = some l) :
    l.active = logger.active := by
  rcases openSink_logger os logger with ⟨-, hnone⟩ | ⟨-, fileSink, syslogSink, hl⟩
  · rw [hnone] at h
    cases h
  · rw [hl] at h
    cases h
    rfl

theorem openSinkM_made (os : InitOs) (a : InitAllocs) {c : LoggerConfig} (hvalid : validateLoggerConfig (some c) = .ok)
    (hlogger : a.logger = true) (hstrings : a.strings c = true) {self name host : Option Block} {ring : OwnedRing}
    (hname : name.isSome = c.loggerName.isSome) (hhost : host.isSome = c.syslogHost.isSome)
    (hinit : ringInit (a.slots && a.occupied && a.mutex) (applyLoggerDefaults c).config.queueCapacity = .ok)
    (hring : ring.Holds []) (hslots : ring.slots.isSome = true) (hoccupied : ring.occupied.isSome = true) :
    Owns (owned self + (owned name + (owned host + (ring.held + held))))
      (openSinkM os (applyLoggerDefaults c) >>= fun opened =>
        match opened.1.logger with
        | none => do
          let _ ← ringDestroyM a.lock a.unlock ring
          free self
          return ⟨opened.1.status, none, opened.1.effects⟩
        | some logger => return ⟨opened.1.status, some ⟨logger, self, name, host, ring, opened.2⟩, opened.1.effects⟩)
      (InitOwned held a (some c) (openSink (a.plain os (some c)) (applyLoggerDefaults c))) := by
  refine (@openSinkM_owns _ os (applyLoggerDefaults c) rfl).bind fun opened held₁ hopened => ?_
  obtain ⟨hheld, hplain, hsound, hfailed⟩ := hopened
  have hsame : openSink (a.plain os (some c)) (applyLoggerDefaults c) = opened.1 := hplain.symm
  rw [hheld, hsame]
  cases hl : opened.1.logger with
  | none =>
    have hblocks : opened.2.held + (owned self + (owned name + (owned host + (ring.held + held)))) =
        ring.held + (owned self + (owned name + (owned host + held))) := by
      rw [hfailed hl, show SinkBlocks.zero.held = 0 from rfl]
      abel
    simp only
    rw [hblocks]
    refine (ringDestroyM_owns a.lock a.unlock hring).bind fun _ held₂ h₂ => ?_
    have hlost : held₂ = owned self + (ring.lost a.lock a.unlock + owned name + owned host + held) := by
      rw [h₂.2]
      abel
    rw [hlost]
    refine Owns.free_bind ?_
    refine .pure ⟨rfl, rfl, hl.symm, fun l hnone => (by cases hnone), fun _ => ⟨_, rfl, ?_⟩⟩
    rw [Multiset.card_add, Multiset.card_add, card_lost hring hslots hoccupied, card_owned, card_owned, hname, hhost]
    simp only [initLeak, Option.elim_some, hvalid, hlogger, hstrings, hinit, true_and, and_self, if_true]
    omega
  | some logger =>
    refine .pure ⟨rfl, rfl, hl.symm, fun l hmade => ?_, fun hnone => (by cases hnone)⟩
    cases hmade
    refine ⟨?_, ⟨?_, hsound logger hl, hring⟩, hslots, hoccupied⟩
    · simp only [OwnedLogger.held]
      abel
    · rw [hplain] at hl
      exact openSink_active hl

/-- `ij_logger_init` does what it does without memory, and accounts for every block it allocates. -/
theorem loggerInitM_owns (os : InitOs) (a : InitAllocs) (config : Option LoggerConfig) :
    Owns held (loggerInitM os a config) (InitOwned held a config (loggerInit (a.plain os config) config)) := by
  unfold loggerInitM loggerInit
  by_cases hvalid : validateLoggerConfig config = .ok
  swap
  · rw [if_pos hvalid, if_pos hvalid]
    refine .pure (.clean ?_)
    cases config with
    | none => rfl
    | some c => exact if_neg fun h => hvalid h.1
  cases config with
  | none => cases hvalid
  | some c =>
    rw [if_neg (not_not.2 hvalid), if_neg (not_not.2 hvalid)]
    simp only
    have hclean : a.logger = false ∨ a.strings c = false → initLeak a (some c) = 0 := by
      intro hfails
      refine if_neg fun h => ?_
      rcases hfails with hfalse | hfalse
      · rw [h.2.1] at hfalse
        cases hfalse
      · rw [h.2.2] at hfalse
        cases hfalse
    refine (Owns.malloc a.logger).bind fun self held₁ h₁ => ?_
    obtain ⟨hself, rfl⟩ := h₁
    have hlogger : (a.plain os (some c)).logger = self.isSome := hself.symm
    rw [hlogger]
    cases hblock : self with
    | none =>
      rw [hblock] at hself
      simp only [Option.isNone_none, Option.isSome_none, Bool.not_false, if_true, owned_none, zero_add]
      exact .pure (.clean (hclean (.inl hself.symm)))
    | some block =>
      rw [hblock] at hself
      simp only [Option.isNone_some, Option.isSome_some, Bool.false_eq_true, if_false, Bool.not_true]
      refine (strdupM_owns a.name c.loggerName).bind fun name held₂ h₂ => ?_
      obtain ⟨rfl, hname⟩ := h₂
      refine (strdupM_owns a.host c.syslogHost).bind fun host held₃ h₃ => ?_
      obtain ⟨rfl, hhost⟩ := h₃
      have hstrings : (c.loggerName.isSome && name.isNone || c.syslogHost.isSome && host.isNone) = !a.strings c := by
        simp only [InitAllocs.strings, ← Option.not_isSome, hname, hhost]
        cases c.loggerName.isSome <;> cases c.syslogHost.isSome <;> cases a.name <;> cases a.host <;> rfl
      have hneeded : ((c.loggerName.isSome || c.syslogHost.isSome) && !(a.plain os (some c)).strings) = !a.strings c := by
        rw [show (a.plain os (some c)).strings = a.strings c from rfl, InitAllocs.strings]
        cases c.loggerName <;> cases c.syslogHost <;> cases a.name <;> cases a.host <;> rfl
      rw [hstrings, hneeded]
      cases hall : a.strings c with
      | false =>
        have hheld : owned host + (owned name + (owned (some block) + held)) =
            owned name + (owned host + (owned (some block) + held)) := by abel
        simp only [Bool.not_false, if_true]
        rw [hheld]
        refine Owns.free_bind ?_
        refine Owns.free_bind ?_
        refine Owns.free_bind ?_
        exact .pure (.clean (hclean (.inr hall)))
      | true =>
        have hname' : name.isSome = c.loggerName.isSome := by
          rw [InitAllocs.strings, Bool.and_eq_true, ← Option.not_isSome] at hall
          rw [hname]
          cases hn : c.loggerName.isSome with
          | false => rfl
          | true => simpa [hn] using hall.1
        have hhost' : host.isSome = c.syslogHost.isSome := by
          rw [InitAllocs.strings, Bool.and_eq_true, ← Option.not_isSome c.syslogHost] at hall
          rw [hhost]
          cases hh : c.syslogHost.isSome with
          | false => rfl
          | true => simpa [hh] using hall.2
        simp only [Bool.not_true, Bool.false_eq_true, if_false]
        refine (ringInitM_owns a.slots a.occupied a.mutex _).bind fun made held₄ hmade => ?_
        obtain ⟨rfl, hstatus, -, hresult⟩ := hmade
        have hplain : (a.plain os (some c)).ring = (a.slots && a.occupied && a.mutex) := rfl
        rw [hplain, ← hstatus]
        rcases hresult with ⟨hok, hring, hslots, hoccupied⟩ | ⟨hbad, hzero⟩
        · rw [if_neg (not_not.2 hok), if_neg (not_not.2 hok)]
          have hheld : made.2.held + (owned host + (owned name + (owned (some block) + held))) =
              owned (some block) + (owned name + (owned host + (made.2.held + held))) := by abel
          rw [hheld]
          exact openSinkM_made os a hvalid hself.symm hall hname' hhost' (hstatus.symm.trans hok) hring hslots hoccupied
        · rw [if_pos hbad, if_pos hbad]
          have hheld : made.2.held + (owned host + (owned name + (owned (some block) + held))) =
              owned (some block) + (owned name + owned host + held) := by
            rw [hzero, show OwnedRing.zero.held = 0 from rfl]
            abel
          rw [hheld]
          refine Owns.free_bind ?_
          refine .pure ⟨rfl, rfl, rfl, fun l hl => (by cases hl), fun _ => ⟨owned name + owned host, rfl, ?_⟩⟩
          rw [Multiset.card_add, card_owned, card_owned, hname', hhost']
          have hnot : ¬ringInit (a.slots && a.occupied && a.mutex) (applyLoggerDefaults c).config.queueCapacity = .ok := by
            rw [← hstatus]
            exact hbad
          simp only [initLeak, Option.elim_some, hvalid, ← hself, hall, hnot, Option.isSome_some, and_self, if_true,
            false_and, if_false, Nat.add_zero]

/-- A call on a logger ends as it does without memory, and the logger that it leaves owns its blocks. -/
def LogReturns (held : Multiset Block) (l : OwnedLogger) (plain : Logged) (out : Logged × OwnedLogger)
    (held' : Multiset Block) : Prop :=
  out.1 = plain ∧ held' = out.2.held + held ∧ out.2.logger = plain.logger ∧ out.2.Sound ∧ out.2.ring = l.ring

theorem deliver_other (cpu : Cpu) (g17 : Double → Bytes) (os : LogOs) (record : Bool) (logger : Logger)
    (event : EventCopy) (hkind : SinkKind.ofCode? logger.config.sinkKind ≠ some .file) :
    deliver cpu g17 (os.recording record) logger event = deliver cpu g17 os logger event ∧
      (deliver cpu g17 os logger event).logger = logger := by
  unfold deliver
  cases hcode : SinkKind.ofCode? logger.config.sinkKind with
  | none => exact ⟨rfl, rfl⟩
  | some kind =>
    cases kind with
    | file => exact absurd hcode hkind
    | console =>
      refine ⟨rfl, ?_⟩
      simp only
      split <;> rfl
    | syslog =>
      refine ⟨rfl, ?_⟩
      simp only
      split
      · rfl
      · split <;> rfl

theorem deliverM_owns (cpu : Cpu) (g17 : Double → Bytes) (os : LogOs) (strdup realloc : Bool) {l : OwnedLogger}
    (h : l.Sound) (event : EventCopy) :
    Owns (l.held + held) (deliverM cpu g17 os strdup realloc l event)
      (LogReturns held l (deliver cpu g17 (os.recording (strdup && realloc)) l.logger event)) := by
  unfold deliverM
  by_cases hkind : SinkKind.ofCode? l.logger.config.sinkKind = some .file
  · rw [if_pos hkind]
    simp only [deliver, hkind]
    have hstack : (os.recording (strdup && realloc)).stack = os.stack := rfl
    rw [hstack]
    generalize ndjsonEncode cpu g17 (some event) (some os.stack.bytes) = encoded
    split
    · exact .pure ⟨rfl, rfl, rfl, h, rfl⟩
    · have hheld : l.held + held = l.file.held + (owned l.self + (owned l.name + (owned l.host + l.ring.held)) + held) := by
        simp only [OwnedLogger.held]
        abel
      rw [hheld]
      refine (fileSinkWriteM_owns os.file strdup realloc h.file encoded.output).bind fun out held₁ hout => ?_
      obtain ⟨rfl, hplain, hsound⟩ := hout
      have hfile : (os.recording (strdup && realloc)).file = { os.file with record := strdup && realloc } := rfl
      rw [hfile, ← hplain]
      refine .pure ⟨rfl, ?_, rfl, ⟨h.active, hsound, h.ring⟩, rfl⟩
      simp only [OwnedLogger.held]
      abel
  · rw [if_neg hkind]
    obtain ⟨hsame, hlogger⟩ := deliver_other cpu g17 os (strdup && realloc) l.logger event hkind
    rw [hsame]
    refine .pure ⟨rfl, rfl, rfl, ⟨?_, ?_, h.ring⟩, rfl⟩
    · rw [hlogger]
      exact h.active
    · rw [hlogger]
      exact h.file

theorem loggerLogM_owns (cpu : Cpu) (g17 : Double → Bytes) (os : LogOs) (strdup realloc : Bool) {l : OwnedLogger}
    (h : l.Sound) (event : Option Event) :
    Owns (l.held + held) (loggerLogM cpu g17 os strdup realloc l event)
      (LogReturns held l (loggerLog cpu g17 (os.recording (strdup && realloc)) l.logger event)) := by
  unfold loggerLogM loggerLog
  cases event with
  | none => exact .pure ⟨rfl, rfl, rfl, h, rfl⟩
  | some e =>
    simp only
    split
    · exact .pure ⟨rfl, rfl, rfl, h, rfl⟩
    · split
      · exact .pure ⟨rfl, rfl, rfl, h, rfl⟩
      · have hheap : (os.recording (strdup && realloc)).heap = os.heap := rfl
        rw [hheap]
        refine (eventCopyFromInputM_owns cpu os.heap (some e) _).bind fun copy held₁ hcopy => ?_
        obtain ⟨rfl, hresult⟩ := hcopy
        cases hplain : eventCopyFromInput cpu os.heap (some e) l.logger.config.redactionMode with
        | error status =>
          rw [hplain] at hresult
          have hcopy : copy = (status, .zero) := hresult
          have hbad : status ≠ .ok := eventCopyFromInput_error hplain
          rw [hcopy]
          simp only [if_pos hbad]
          exact .pure ⟨rfl, zero_add _, rfl, h, rfl⟩
        | ok copied =>
          rw [hplain] at hresult
          obtain ⟨hok, rfl⟩ := hresult
          have hheld : copy.2.blocks.held + (l.held + held) = l.held + (copy.2.blocks.held + held) := by abel
          simp only [hok]
          rw [if_neg (fun h => h rfl), hheld]
          refine (deliverM_owns cpu g17 os strdup realloc h copy.2.event).bind fun out held₂ hout => ?_
          obtain ⟨hlogged, rfl, hlogger, hsound, hring⟩ := hout
          have hheld' : out.2.held + (copy.2.blocks.held + held) = copy.2.blocks.held + (out.2.held + held) := by abel
          rw [hheld']
          refine (eventCopyDispose_owns copy.2).bind fun _ held₃ hdisposed => ?_
          rw [hdisposed.2]
          exact .pure ⟨hlogged, rfl, hlogger, hsound, hring⟩

/-- `ij_logger_shutdown` frees all that the logger has, but for the arrays of a ring that it cannot unlock. -/
theorem loggerShutdownM_owns (close : CloseAnswer) (lock unlock : Bool) {l : OwnedLogger} (h : l.Sound) :
    Owns (l.held + held) (loggerShutdownM close lock unlock l) fun out held' =>
      out = loggerShutdown close (some l.logger) ∧ held' = l.ring.lost lock unlock + held := by
  unfold loggerShutdownM loggerShutdown
  simp only [h.active, Bool.not_true, Bool.false_eq_true, if_false]
  have hfile : l.held + held = l.file.held + (owned l.self + (owned l.name + (owned l.host + l.ring.held)) + held) := by
    simp only [OwnedLogger.held]
    abel
  rw [hfile]
  refine (fileSinkCloseM_owns close h.file).bind fun closed held₁ hclosed => ?_
  obtain ⟨rfl, hclose, -⟩ := hclosed
  have hring : owned l.self + (owned l.name + (owned l.host + l.ring.held)) + held =
      l.ring.held + (owned l.name + (owned l.host + (owned l.self + held))) := by abel
  rw [hring]
  refine (ringDestroyM_owns lock unlock h.ring).bind fun _ held₂ h₂ => ?_
  have hstrings : held₂ = owned l.name + (owned l.host + (owned l.self + (l.ring.lost lock unlock + held))) := by
    rw [h₂.2]
    abel
  rw [hstrings]
  refine Owns.free_bind ?_
  refine Owns.free_bind ?_
  refine Owns.free_bind ?_
  refine .pure ⟨?_, rfl⟩
  rw [← hclose]

theorem flush_sound (answer : FlushAnswer) {l : OwnedLogger} (h : l.Sound) :
    OwnedLogger.Sound { l with logger := (loggerFlush answer (some l.logger)).logger.getD l.logger } := by
  unfold loggerFlush
  simp only [h.active, Bool.not_true, Bool.false_eq_true, if_false]
  split
  · exact ⟨rfl, h.file.of_handles (opsFlush_handles answer l.logger.fileSink) rfl h.file.uring, h.ring⟩
  · exact h

/-- The life of a logger against the run of the model without memory, from the effects of its start on. -/
structure LoggerLife.Follows (ring : OwnedRing) (before : List Effect) (s : LoggerLife) (t : Journaling) : Prop where
  sound : s.logger.Sound
  ring : s.logger.ring = ring
  logger : s.logger.logger = t.logger
  effects : s.effects = before ++ t.effects

theorem LoggerLife.step_owns (cpu : Cpu) (g17 : Double → Bytes) {ring : OwnedRing} {before : List Effect}
    {s : LoggerLife} {t : Journaling} (h : s.Follows ring before t) (c : LifeCall) :
    Owns (s.logger.held + held) (s.step cpu g17 c) fun s' held' => held' = s'.logger.held + held ∧
      s'.Follows ring before (t.step cpu g17 c.plain) := by
  cases c with
  | log os strdup realloc event =>
    refine (loggerLogM_owns cpu g17 os strdup realloc h.sound event).bind fun out held₁ hout => ?_
    obtain ⟨hlogged, rfl, hlogger, hsound, hring⟩ := hout
    refine .pure ⟨rfl, hsound, hring.trans h.ring, ?_, ?_⟩
    · rw [hlogger, h.logger]
      rfl
    · rw [h.effects, List.append_assoc, hlogged, h.logger]
      rfl
  | flush answer =>
    refine .pure ⟨rfl, flush_sound answer h.sound, h.ring, ?_, ?_⟩
    · simp only [LifeCall.plain, Journaling.step, h.logger]
    · simp only [LifeCall.plain, Journaling.step, h.logger, h.effects, List.append_assoc]

end Ownership

def plainLife (cpu : Cpu) (g17 : Double → Bytes) (os : InitOs) (config : Option LoggerConfig) (calls : List UseCall)
    (close : CloseAnswer) : LoggerOut :=
  let made := loggerInit os config
  match made.logger with
  | none => made
  | some logger =>
    let s := Machine.run (Journaling.step cpu g17) (.start logger) calls
    let out := loggerShutdown close (some s.logger)
    ⟨out.status, out.logger, made.effects ++ s.effects ++ out.effects⟩

/-- `ij_logger_init`, any calls, and `ij_logger_shutdown`. -/
def loggerLife (cpu : Cpu) (g17 : Double → Bytes) (os : InitOs) (a : InitAllocs) (config : Option LoggerConfig)
    (calls : List LifeCall) (close : CloseAnswer) (lock unlock : Bool) : Prog LoggerOut := do
  let made ← loggerInitM os a config
  match made.logger with
  | none => return ⟨made.status, none, made.effects⟩
  | some logger =>
    let s ← repeated (LoggerLife.step cpu g17) ⟨logger, made.effects⟩ calls
    let out ← loggerShutdownM close lock unlock s.logger
    return ⟨out.status, out.logger, s.effects ++ out.effects⟩

def lifeLeak (os : InitOs) (a : InitAllocs) (config : Option LoggerConfig) (lock unlock : Bool) : Nat :=
  if (loggerInit (a.plain os config) config).status = .ok then (if lock = true ∧ unlock = false then 2 else 0)
  else initLeak a config

theorem loggerInit_ok_iff (os : InitOs) (config : Option LoggerConfig) :
    (loggerInit os config).status = .ok ↔ (loggerInit os config).logger.isSome = true := by
  rcases loggerInit_cases os config with ⟨status, hbad, hfailed⟩ | ⟨c, -, -, hopened⟩
  · rw [hfailed]
    exact iff_of_false hbad Bool.false_ne_true
  · rw [hopened]
    rcases openSink_logger os (applyLoggerDefaults c) with ⟨hbad, hnone⟩ | ⟨hok, fileSink, syslogSink, hl⟩
    · rw [hnone]
      exact iff_of_false hbad Bool.false_ne_true
    · rw [hl]
      exact iff_of_true hok rfl

/-- Whatever the configuration, the calls and the answers of the system are: no block is freed that is not
in use; the life goes as it does without memory; and of the blocks that it allocated exactly
`lifeLeak` are still in use after it, those of a failed `ij_logger_init` among them. -/
theorem logger_memory (cpu : Cpu) (g17 : Double → Bytes) (os : InitOs) (a : InitAllocs) (config : Option LoggerConfig)
    (calls : List LifeCall) (close : CloseAnswer) (lock unlock : Bool) (m : Memory) :
    ∃ m' lost, loggerLife cpu g17 os a config calls close lock unlock m =
        some (plainLife cpu g17 (a.plain os config) config (calls.map LifeCall.plain) close, m') ∧
      m'.live = lost + m.live ∧ Multiset.card lost = lifeLeak os a config lock unlock := by
  have howns : Owns 0 (loggerLife cpu g17 os a config calls close lock unlock) fun out held' =>
      out = plainLife cpu g17 (a.plain os config) config (calls.map LifeCall.plain) close ∧
        Multiset.card held' = lifeLeak os a config lock unlock := by
    refine (loggerInitM_owns os a config).bind fun made held₁ hmade => ?_
    have hok := loggerInit_ok_iff (a.plain os config) config
    have hstatus := hmade.status
    have heffects := hmade.effects
    have hlogger := hmade.logger
    cases hl : made.logger with
    | none =>
      obtain ⟨lost, hheld, hcard⟩ := hmade.failed hl
      rw [hl, Option.map_none] at hlogger
      rw [← hlogger] at hok
      have hplain : plainLife cpu g17 (a.plain os config) config (calls.map LifeCall.plain) close =
          ⟨made.status, none, made.effects⟩ := by
        unfold plainLife
        simp only [← hlogger, hstatus, heffects]
        rw [hlogger]
      refine .pure ⟨hplain.symm, ?_⟩
      rw [hheld, add_zero, hcard, lifeLeak, if_neg fun h => Bool.false_ne_true (hok.1 h)]
    | some l =>
      obtain ⟨rfl, hsound, hslots, hoccupied⟩ := hmade.made l hl
      rw [hl, Option.map_some] at hlogger
      rw [← hlogger] at hok
      have hfollows : LoggerLife.Follows l.ring made.effects ⟨l, made.effects⟩ (.start l.logger) :=
        ⟨hsound, rfl, rfl, (List.append_nil _).symm⟩
      have hcalls := @Owns.repeated LoggerLife Journaling LifeCall (LoggerLife.step cpu g17)
        (fun t c => t.step cpu g17 c.plain) (fun s => s.logger.held + 0) (LoggerLife.Follows l.ring made.effects)
        (fun s t c h => LoggerLife.step_owns cpu g17 h c) ⟨l, made.effects⟩ _ hfollows calls
      refine hcalls.bind fun s held₂ hs => ?_
      obtain ⟨rfl, hs⟩ := hs
      refine (loggerShutdownM_owns close lock unlock hs.sound).bind fun out held₃ hout => ?_
      obtain ⟨rfl, rfl⟩ := hout
      have hrun : Machine.run (Journaling.step cpu g17) (.start l.logger) (calls.map LifeCall.plain) =
          Machine.run (fun t c => t.step cpu g17 c.plain) (.start l.logger) calls := List.foldl_map
      refine .pure ⟨?_, ?_⟩
      · unfold plainLife
        simp only [← hlogger, hrun, hs.logger, hs.effects, heffects]
      · rw [add_zero, hs.ring, card_lost hsound.ring hslots hoccupied, lifeLeak, if_pos (hok.2 rfl)]
  obtain ⟨out, held, next, hrun, rfl, hcard⟩ := howns.run m
  exact ⟨⟨held + m.live, next⟩, held, hrun, rfl, hcard⟩

/-- A syslog host that cannot be resolved: the copy of its name is left behind. -/
example : lifeLeak { steadyInit with getaddrinfo := none } ⟨true, true, true, true, true, true, true, true⟩
    (some syslogConfig) true true = 1 := by
  decide

end IoJournal
