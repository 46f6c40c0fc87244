import IoJournal.Journal
import IoJournal.SyslogMessage
import IoJournal.TcpStream

/-!
# IoJournal.SyslogJournal

The journal of a syslog logger, as the collector gets it.

Over TCP the collector counts octets and decodes the messages from the stream; over UDP every message
is a datagram of its own. Either way the messages are those of the events of the journal, each with one
reading in the grammar of RFC 5424 (`SyslogReads`). A datagram is sent whole or not at all, so over UDP
the calls that fail in between do no harm; on a stream a frame that was cut off would.
-/

namespace IoJournal

open Wire Posix Syslog

/-! ## Messages -/

/-- The message says what the event said, as far as a syslog message says it. -/
structure MessageOf (config : LoggerConfig) (m : Message) (e : Event) : Prop where
  prival : ∃ severity, syslogSeverityFromLevel e.level = some severity ∧
    (decimal m.prival : Int) = 8 * config.syslogFacility + severity
  timestamp : readRfc3339 m.timestamp = some (e.timestamp.unixSeconds.toInt, e.timestamp.nanoseconds.toNat / 1000000)
  appName : m.appName = sanitized (e.appName config)
  msg : m.msg = if cstrBytes e.message = [] then none else some (cstrBytes e.message)

/-- The text is a message of the grammar, in one way, and it is the message of the event. -/
def SyslogReads (config : LoggerConfig) (text : Bytes) (e : Event) : Prop :=
  ∃ m : Message, m.text = text ∧ (∀ m' : Message, m'.text = text → m' = m) ∧ MessageOf config m e

theorem SyslogReads.ne_nil {config : LoggerConfig} {text : Bytes} {e : Event} (h : SyslogReads config text e) :
    text ≠ [] := by
  obtain ⟨m, rfl, -⟩ := h
  exact List.cons_ne_nil _ _

theorem Event.WellFormed.syslog_reads {e : Event} (hwf : e.WellFormed) {mode : Int} {config : LoggerConfig}
    (h0 : 0 ≤ config.syslogFacility) (h23 : config.syslogFacility ≤ 23) {text : Bytes}
    (htext : (e.record mode).syslog config = some text) : SyslogReads config text e := by
  obtain ⟨severity, hseverity, hle, hpri⟩ := hwf.pri_eq mode h0 h23
  obtain ⟨hy, htimestamp, rfl⟩ := hwf.syslog_eq htext
  have happ : IsField 48 (sanitized (e.appName config)) :=
    .inr ⟨length_sanitized_pos (e.appName_ne_nil config), length_sanitized_le _, sanitized_printable _⟩
  have hmessage : Utf8.Valid (cstrBytes e.message) := by
    obtain ⟨s, hs, -, -, hutf8⟩ := hwf.message
    rw [hs]
    exact hutf8
  have hmtext := text_rfc5424Message hle htimestamp happ hmessage
  refine ⟨rfc5424Message hle htimestamp happ hmessage, hmtext, fun m' hm' => ?_, ⟨severity, hseverity, ?_⟩, ?_, rfl, rfl⟩
  · exact Message.text_inj rfl (hm'.trans hmtext.symm)
  · show (decimal (numeral _) : Int) = _
    rw [decimal_numeral, hpri]
  · exact Timestamp.readRfc3339_text hwf.nanoseconds hy

theorem syslog_texts {cpu : Cpu} {g17 : Double → Bytes} {os : InitOs} {config : LoggerConfig} {logger : Logger}
    (hinit : (loggerInit os (some config)).logger = some logger)
    (hkind : SinkKind.ofCode? config.sinkKind = some .syslog) (calls : List UseCall) :
    List.Forall₂ (SyslogReads config) (Machine.run (Journaling.step cpu g17) (.start logger) calls).handed
      (Machine.run (Journaling.step cpu g17) (.start logger) calls).journal := by
  obtain ⟨hvalid, hactive, hconfig⟩ := loggerInit_config hinit
  obtain ⟨h0, h23⟩ := facility_of_validate hvalid hkind
  have hkind' : SinkKind.ofCode? (applyLoggerDefaults config).config.sinkKind = some .syslog := hkind
  refine (faithful_run hkind' hactive hconfig calls).texts.imp fun text e h => ?_
  -- the default for the queue is not part of a message
  obtain ⟨m, htext, hunique, hm⟩ := h.wellFormed.syslog_reads h0 h23 h.text
  exact ⟨m, htext, hunique, hm.prival, hm.timestamp, hm.appName, hm.msg⟩

/-! ## TCP -/

theorem tcp_carries {config : LoggerConfig} (htransport : SyslogTransport.ofCode? config.syslogTransport = some .tcp) :
    Carries config .syslog sentOctets frame where
  nil := rfl
  append := sentOctets_append
  sent os logger text hconfig hok := by
    simp only [handOver, hconfig, htransport] at hok ⊢
    exact (syslogTcpWrite_spec os.send logger.syslogSink text).2.1.1 hok

/-- From the start of a TCP logger, as long as every call returns OK or sends nothing, a collector that counts
octets decodes one message for each event of the journal, in order, and nothing else. -/
theorem tcp_journal (cpu : Cpu) (g17 : Double → Bytes) {os : InitOs} {config : LoggerConfig} {logger : Logger}
    (hinit : (loggerInit os (some config)).logger = some logger)
    (hkind : SinkKind.ofCode? config.sinkKind = some .syslog)
    (htransport : SyslogTransport.ofCode? config.syslogTransport = some .tcp) (calls : List UseCall)
    (hcalls : Machine.Along (Journaling.step cpu g17) (Journaling.Settles sentOctets cpu g17) (.start logger) calls) :
    let s := Machine.run (Journaling.step cpu g17) (.start logger) calls
    List.Forall₂ (SyslogReads config) (decode (sentOctets s.effects)) s.journal := by
  intro s
  obtain ⟨-, hactive, hconfig⟩ := loggerInit_config hinit
  have htexts : List.Forall₂ (SyslogReads config) s.handed s.journal := syslog_texts hinit hkind calls
  have hkind' : SinkKind.ofCode? (applyLoggerDefaults config).config.sinkKind = some .syslog := hkind
  have hcarries : Carries (applyLoggerDefaults config).config .syslog sentOctets frame := tcp_carries htransport
  have hwire : sentOctets s.effects = s.handed.flatMap frame := hcarries.run hkind' nofun hactive hconfig hcalls
  have hne : ∀ text ∈ s.handed, text ≠ [] := by
    intro text htext
    obtain ⟨i, hi, rfl⟩ := List.getElem_of_mem htext
    exact ((List.forall₂_iff_get.1 htexts).2 i hi (by rw [← htexts.length_eq]; exact hi)).ne_nil
  have hdecode := @decode_frames _ hne [] rfl
  rw [List.append_nil] at hdecode
  rw [hwire, hdecode]
  exact htexts

def tcpLogger : Logger := { applyLoggerDefaults syslogConfig with syslogSink := ⟨3, 0⟩ }

def tcpCalls : List UseCall := [.log (steadyLog 0) none, .log (steadyLog 8192) (some loginEvent)]

theorem tcp_journal_login :
    List.Forall₂ (SyslogReads syslogConfig)
      (decode (sentOctets (Machine.run (Journaling.step scalarCpu printHalf) (.start tcpLogger) tcpCalls).effects))
      [loginEvent] := by
  have hok : (loggerLog scalarCpu printHalf (steadyLog 8192) tcpLogger (some loginEvent)).status = .ok := by
    decide +kernel
  have hjournal : (Machine.run (Journaling.step scalarCpu printHalf) (.start tcpLogger) tcpCalls).journal =
      [loginEvent] := by
    have hnone : loggerLog scalarCpu printHalf (steadyLog 0) tcpLogger none =
        ⟨.invalidArgument, tcpLogger, [], []⟩ := rfl
    simp only [tcpCalls, Machine.run_cons, Machine.run_nil, Journaling.step, Journaling.start, hnone, hok]
    decide
  rw [← hjournal]
  exact @tcp_journal scalarCpu printHalf steadyInit syslogConfig tcpLogger rfl rfl rfl tcpCalls
    ⟨.inr rfl, .inl hok, trivial⟩

/-! ## UDP -/

/-- The datagrams that left; one that was not sent is not there. -/
def datagrams (effects : List Effect) : List Bytes :=
  effects.filterMap fun
    | .send _ octets => if octets = [] then none else some octets
    | _ => none

theorem datagrams_append (es es' : List Effect) : datagrams (es ++ es') = datagrams es ++ datagrams es' :=
  List.filterMap_append

theorem udp_carries {config : LoggerConfig} (htransport : SyslogTransport.ofCode? config.syslogTransport = some .udp) :
    Carries config .syslog datagrams (fun text => [text]) where
  nil := rfl
  append := datagrams_append
  sent os logger text hconfig hok := by
    simp only [handOver, hconfig, htransport] at hok ⊢
    unfold syslogUdpWrite at hok ⊢
    split at hok
    · cases hok
    · rename_i hne
      rw [if_neg hne]
      split at hok
      · cases hok
      · rename_i hopen
        rw [if_neg hopen]
        split at hok
        · cases hok
        · rename_i hsize
          rw [if_neg hsize]
          simp only at hok ⊢
          split at hok
          · cases hok
          · rename_i hwhole
            rw [if_neg hwhole]
            have hlen : os.sendto.toNat = text.length := by omega
            have htext : text ≠ [] := fun hnil => hne (by rw [hnil]; rfl)
            simp only [datagrams, hlen, List.take_length, List.filterMap_cons, if_neg htext, List.filterMap_nil]

theorem udp_bounded (sendto : Int) (sink : SyslogSink) (text : Bytes) :
    ∀ d ∈ datagrams (syslogUdpWrite sendto sink text).2, d.length ≤ syslogUdpTargetMax := by
  intro d hd
  unfold syslogUdpWrite at hd
  split at hd
  · cases hd
  · split at hd
    · cases hd
    · split at hd
      · cases hd
      · rename_i hsize
        have hsent : d ∈ datagrams [Effect.send sink.fd (text.take sendto.toNat)] := by
          simp only at hd
          split at hd <;> exact hd
        obtain ⟨effect, heffect, hoctets⟩ := List.mem_filterMap.1 hsent
        rw [List.mem_singleton.1 heffect] at hoctets
        obtain ⟨-, rfl⟩ : ¬text.take sendto.toNat = [] ∧ text.take sendto.toNat = d := by simpa using hoctets
        rw [List.length_take]
        omega

theorem udp_bounded_run {cpu : Cpu} {g17 : Double → Bytes} {config : LoggerConfig} {logger : Logger}
    (hkind : SinkKind.ofCode? config.sinkKind = some .syslog)
    (htransport : SyslogTransport.ofCode? config.syslogTransport = some .udp) (hactive : logger.active = true)
    (hconfig : logger.config = config) (calls : List UseCall) :
    ∀ d ∈ datagrams (Machine.run (Journaling.step cpu g17) (.start logger) calls).effects,
      d.length ≤ syslogUdpTargetMax := by
  have hrun := @Machine.run_invariant _ _ (Journaling.step cpu g17)
    (fun s => s.Faithful g17 config .syslog ∧ ∀ d ∈ datagrams s.effects, d.length ≤ syslogUdpTargetMax) ?_
    (.start logger) ⟨⟨hactive, hconfig, .nil⟩, fun _ hd => absurd hd List.not_mem_nil⟩ calls
  · exact hrun.2
  · intro s c hs
    obtain ⟨hs, hbound⟩ := hs
    refine ⟨hs.step hkind c, ?_⟩
    cases c with
    | log os event =>
      have hsteps := loggerLog_steps cpu g17 os s.logger event
      simp only [Journaling.step]
      generalize loggerLog cpu g17 os s.logger event = out at hsteps
      cases hsteps with
      | refused hstatus =>
        rw [List.append_nil]
        exact hbound
      | filtered hdisabled =>
        rw [List.append_nil]
        exact hbound
      | @sent e copied kind henabled hcopy hkind' hencode =>
        rw [hs.sameConfig] at hkind'
        obtain rfl : .syslog = kind := Option.some.inj (hkind.symm.trans hkind')
        intro d hd
        rw [datagrams_append] at hd
        rcases List.mem_append.1 hd with hd | hd
        · exact hbound d hd
        · simp only [handOver, hs.sameConfig, htransport] at hd
          exact udp_bounded _ _ _ d hd
    | flush answer =>
      simp only [Journaling.step, hs.flush hkind (by decide) answer, List.append_nil]
      exact hbound

/-- From the start of a UDP logger, as long as every call returns OK or sends no datagram, there is one datagram
for each event of the journal, in order, and no other; each has the whole message of its event, in no
more octets than the target of the source. -/
theorem udp_journal (cpu : Cpu) (g17 : Double → Bytes) {os : InitOs} {config : LoggerConfig} {logger : Logger}
    (hinit : (loggerInit os (some config)).logger = some logger)
    (hkind : SinkKind.ofCode? config.sinkKind = some .syslog)
    (htransport : SyslogTransport.ofCode? config.syslogTransport = some .udp) (calls : List UseCall)
    (hcalls : Machine.Along (Journaling.step cpu g17) (Journaling.Settles datagrams cpu g17) (.start logger) calls) :
    let s := Machine.run (Journaling.step cpu g17) (.start logger) calls
    List.Forall₂ (SyslogReads config) (datagrams s.effects) s.journal ∧
      ∀ d ∈ datagrams s.effects, d.length ≤ syslogUdpTargetMax := by
  intro s
  obtain ⟨-, hactive, hconfig⟩ := loggerInit_config hinit
  have hkind' : SinkKind.ofCode? (applyLoggerDefaults config).config.sinkKind = some .syslog := hkind
  have hcarries : Carries (applyLoggerDefaults config).config .syslog datagrams (fun text => [text]) :=
    udp_carries htransport
  have hsent : datagrams s.effects = s.handed.flatMap fun text => [text] :=
    hcarries.run hkind' nofun hactive hconfig hcalls
  refine ⟨?_, udp_bounded_run hkind' htransport hactive hconfig calls⟩
  rw [hsent, List.flatMap_singleton']
  exact syslog_texts hinit hkind calls

def udpLogger : Logger :=
  { applyLoggerDefaults { syslogConfig with syslogTransport := 0 } with syslogSink := ⟨3, 16⟩ }

def udpCalls : List UseCall :=
  [.log { steadyLog 56 with sendto := -1 } (some loginEvent), .log (steadyLog 56) (some loginEvent)]

theorem udp_journal_login :
    List.Forall₂ (SyslogReads { syslogConfig with syslogTransport := 0 })
      (datagrams (Machine.run (Journaling.step scalarCpu printHalf) (.start udpLogger) udpCalls).effects)
      [loginEvent] := by
  have hfailed : (loggerLog scalarCpu printHalf { steadyLog 56 with sendto := -1 } udpLogger (some loginEvent)).status =
      .sinkError := by
    decide +kernel
  have hok : (loggerLog scalarCpu printHalf (steadyLog 56) udpLogger (some loginEvent)).status = .ok := by
    decide +kernel
  have hlogger : (loggerLog scalarCpu printHalf { steadyLog 56 with sendto := -1 } udpLogger (some loginEvent)).logger =
      udpLogger := loggerLog_logger _ _ _ _ (by decide)
  have hjournal : (Machine.run (Journaling.step scalarCpu printHalf) (.start udpLogger) udpCalls).journal =
      [loginEvent] := by
    simp only [udpCalls, Machine.run_cons, Machine.run_nil, Journaling.step, Journaling.start, hlogger, hfailed, hok]
    decide
  rw [← hjournal]
  refine (@udp_journal scalarCpu printHalf steadyInit { syslogConfig with syslogTransport := 0 } udpLogger rfl rfl
    rfl udpCalls ⟨.inr ?_, .inl ?_, trivial⟩).1
  · decide +kernel
  · simp only [Journaling.step, Journaling.start, hlogger]
    exact hok

end IoJournal
