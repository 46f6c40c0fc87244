import IoJournal.Capacity
import IoJournal.Delivery

/-!
# IoJournal.PayloadSize

Which events fit the payload buffer of `ij_logger_log`.

The limits on an event bound its text, not its line: an escape can stand for one octet with six.
`Record.escapes` counts the octets that escapes add. Everything else in a line is bounded by the
limits (`Event.WellFormed.width_le`), so an event with few escapes fits; one with many may not, and
is then refused with `encodeError`.
-/

namespace IoJournal

open Wire Posix

/-! ## What escapes add -/

def escapeExtra (bs : Bytes) : Nat := (bs.map fun c => escapeWidth c - 1).sum

def Value.escapes : Value → Nat
  | .string bs => escapeExtra bs
  | _ => 0

def Record.escapes (r : Record) : Nat :=
  escapeExtra r.eventName + escapeExtra r.message + escapeExtra (r.logger.getD []) +
    (r.attributes.map fun p => escapeExtra p.1 + p.2.escapes).sum

theorem escapeWidth_pos (c : UInt8) : 0 < escapeWidth c := by
  unfold escapeWidth
  repeat' split
  all_goals decide

theorem textWidth_eq (bs : Bytes) : textWidth bs = bs.length + escapeExtra bs + 2 := by
  have hsum : (bs.map escapeWidth).sum = bs.length + escapeExtra bs := by
    unfold escapeExtra
    induction bs with
    | nil => rfl
    | cons c bs ih =>
      have := escapeWidth_pos c
      simp only [List.map_cons, List.sum_cons, List.length_cons, ih]
      omega
  rw [textWidth, hsum]

/-! ## What the limits bound -/

theorem length_intNumeral_le (v : Int64) : (intNumeral v.toInt).length ≤ 20 := by
  have hlow := Int64.le_toInt v
  have hhigh := Int64.toInt_lt v
  have hdigits := length_numeral_le (show 0 < 19 by decide) (show v.toInt.natAbs < 10 ^ 19 by omega)
  unfold intNumeral
  split
  · rw [List.length_cons]
    omega
  · omega

theorem length_numeral_word (v : UInt64) : (numeral v.toNat).length ≤ 20 := by
  have hlt := v.toNat_lt
  exact length_numeral_le (by decide) (by omega)

section Widths

variable {g17 : Double → Bytes} (hg : ∀ d : Double, d.isFinite = true → (g17 d).length ≤ 24) (mode : Int)
include hg

/-- A stored value is at most 24 octets longer than the text it was given, escapes apart. -/
theorem Attr.stored_width_le {a : Attr} (h : AttrOk a) :
    (a.stored mode).width g17 ≤ a.value.stringLen + 24 + (a.stored mode).escapes := by
  have hok := h.2
  unfold Attr.stored
  cases hv : a.value with
  | string data =>
    simp only [Value.width, Value.escapes, textWidth_eq, AttrValue.stringLen]
    split
    · have : redactedLiteral.length = 10 := by decide
      omega
    · omega
  | signed v =>
    have := length_intNumeral_le v
    simp only [Value.width, Value.escapes]
    omega
  | unsigned v =>
    have := length_numeral_word v
    simp only [Value.width, Value.escapes]
    omega
  | bool v =>
    simp only [Value.width, Value.escapes]
    split <;> omega
  | double v =>
    rw [hv] at hok
    have hlen := hg v hok
    have htake := (List.takeWhile_sublist (fun b : UInt8 => b != 0) (l := g17 v)).length_le
    simp only [Value.width, Value.escapes]
    omega
  | other _ =>
    rw [hv] at hok
    exact hok.elim

theorem attrs_width_le {as : List Attr} (h : ∀ a ∈ as, AttrOk a) :
    ((as.map fun a => (cstrBytes a.key, a.stored mode)).map (attrWidth g17)).sum ≤
      (as.map attrTextSize).sum + 28 * as.length +
        ((as.map fun a => (cstrBytes a.key, a.stored mode)).map fun p => escapeExtra p.1 + p.2.escapes).sum := by
  induction as with
  | nil => simp
  | cons a as ih =>
    rw [List.forall_mem_cons] at h
    have hrest := ih h.2
    have hvalue := Attr.stored_width_le hg mode h.1
    simp only [List.map_cons, List.sum_cons, List.length_cons, attrWidth, textWidth_eq, attrTextSize_eq]
    omega

/-- The line of an accepted event: the text budget, what escapes add, and at most 1008 octets. -/
theorem Event.WellFormed.width_le {e : Event} (h : e.WellFormed) :
    (e.record mode).width g17 ≤ 5104 + (e.record mode).escapes := by
  have hattrs := attrs_width_le hg mode h.attrs
  have hcount : e.attributes.toList.length ≤ 32 := by
    have hcount : e.attributes.count ≤ 32 := h.count
    cases ha : e.attributes with
    | null n => simp [AttrArray.toList]
    | array as =>
      rw [ha] at hcount
      exact hcount
  have htext : eventTextSize e ≤ 4096 := h.text
  have hlevel : (levelToJsonLiteral e.level).length ≤ 7 := by
    obtain ⟨level, hl⟩ := (levelIsValid_iff e.level).1 h.level
    rw [levelToJsonLiteral, hl]
    cases level <;> decide
  have hlogger : (e.record mode).loggerWidth ≤ 12 + strlen e.logger + escapeExtra ((e.record mode).logger.getD []) := by
    unfold Record.loggerWidth Event.record strlen
    cases e.logger with
    | none => simp
    | some s =>
      simp only [Option.map_some, Option.getD_some, textWidth_eq]
      omega
  have hattrsWidth : (e.record mode).attrsWidth g17 ≤
      15 + ((e.record mode).attributes.map (attrWidth g17)).sum := by
    unfold Record.attrsWidth
    split <;> omega
  simp only [eventTextSize] at htext
  simp only [Event.record] at hattrsWidth hlogger
  simp only [Record.width, Record.escapes, Event.record, textWidth_eq, cstrBytes_length]
  omega

end Widths

/-! ## The statuses of the sinks -/

theorem consoleSinkLoop_status (payload : Bytes) (answers : List Int) :
    ∀ offset remaining, (consoleSinkLoop payload answers offset remaining).1 ≠ .encodeError := by
  induction answers with
  | nil =>
    intro offset remaining
    rw [consoleSinkLoop]
    split <;> simp
  | cons written answers ih =>
    intro offset remaining
    rw [consoleSinkLoop]
    split
    · simp
    split
    · simp
    dsimp only
    split
    · simp
    · exact ih _ _

theorem consoleSinkWrite_status (writev : List Int) (payload : Bytes) :
    (consoleSinkWrite writev payload).1 ≠ .encodeError := by
  unfold consoleSinkWrite
  split
  · simp
  · exact consoleSinkLoop_status payload writev _ _

theorem opsFlush_status (answer : FlushAnswer) (sink : FileSink) : (opsFlush answer sink).status ≠ .encodeError := by
  unfold opsFlush fileSinkUringFlush fileSinkSyncFlush
  repeat' split
  all_goals simp

theorem opsOpen_status (syncOpen : Option Nat) (uringOpen : UringOpen) (sink : FileSink) :
    (opsOpen syncOpen uringOpen sink).status ≠ .encodeError := by
  unfold opsOpen fileSinkUringOpen fileSinkSyncOpen
  repeat' split
  all_goals simp

theorem opsWrite_status (fwrite : FwriteAnswer) (uring : UringWrite) (sink : FileSink) (payload : Bytes) :
    (opsWrite fwrite uring sink payload).status ≠ .encodeError := by
  unfold opsWrite fileSinkUringWrite fileSinkSyncWrite
  dsimp only
  repeat' split
  all_goals simp

theorem fileSinkRotate_status (os : RotateOs) (sink : FileSink) :
    (fileSinkRotate os sink).status ≠ .encodeError := by
  unfold fileSinkRotate
  split
  · dsimp only
    split <;> simp
  · dsimp only
    split
    · exact opsFlush_status os.flush sink
    split
    · simp
    split
    · simp
    · exact opsOpen_status _ _ _

theorem fileSinkWrite_status (os : WriteOs) (sink : FileSink) (payload : Bytes) :
    (fileSinkWrite os sink payload).status ≠ .encodeError := by
  have hrotated : ∀ due : Bool, (if due then fileSinkRotate os.toRotateOs sink else ⟨.ok, sink, []⟩ : Out FileSink).status ≠
      .encodeError := by
    intro due
    cases due with
    | true => exact fileSinkRotate_status _ _
    | false => simp
  unfold fileSinkWrite
  split
  · simp
  dsimp only
  have := hrotated (fileSinkRotationDue sink payload.length os.dueNow)
  generalize (if fileSinkRotationDue sink payload.length os.dueNow then fileSinkRotate os.toRotateOs sink
    else ⟨.ok, sink, []⟩ : Out FileSink) = rotated at this ⊢
  split
  · exact this
  split
  · simp
  · exact opsWrite_status _ _ _ _

theorem syslogUdpWrite_status (sendto : Int) (sink : SyslogSink) (payload : Bytes) :
    (syslogUdpWrite sendto sink payload).1 ≠ .encodeError := by
  unfold syslogUdpWrite
  dsimp only
  repeat' split
  all_goals simp

theorem syslogSendAll_status (fd : Int) (answers : List Int) :
    ∀ bs : Bytes, (syslogSendAll fd answers bs).1 ≠ .encodeError := by
  induction answers with
  | nil =>
    intro bs
    cases bs <;> simp [syslogSendAll]
  | cons sent answers ih =>
    intro bs
    cases bs with
    | nil => simp [syslogSendAll]
    | cons b bs =>
      rw [syslogSendAll]
      split
      · simp
      · exact ih _

/-- A frame prefix overflows its 32 octets only on a payload of more than 10 ^ 30. -/
theorem syslogTcpWrite_status (send : List Int) (sink : SyslogSink) {payload : Bytes} (h : payload.length < 10 ^ 30) :
    (syslogTcpWrite send sink payload).1 ≠ .encodeError := by
  have hdigits := length_numeral_le (show 0 < 30 by decide) h
  unfold syslogTcpWrite
  split
  · simp
  split
  · simp
  dsimp only
  rw [if_neg (by rw [List.length_append, List.length_singleton]; omega)]
  split
  · exact syslogSendAll_status _ _ _
  · exact syslogSendAll_status _ _ _

theorem deliver_encodeError_iff (cpu : Cpu) (g17 : Double → Bytes) (os : LogOs) (logger : Logger) {c : EventCopy}
    {r : Record} (h : c.Represents r) (hn : r.timestamp.nanoseconds < 1000000000)
    (hlevel : levelIsValid r.level = true) :
    (deliver cpu g17 os logger c).status = .encodeError ↔
      ∃ kind, SinkKind.ofCode? logger.config.sinkKind = some kind ∧
        (encodeFor cpu g17 logger.config os.stack c kind).status = .encodeError := by
  have henc := encodeFor_encodes cpu g17 logger.config os.stack h hn hlevel
  rw [deliver]
  cases hkind : SinkKind.ofCode? logger.config.sinkKind with
  | none => simp
  | some kind =>
    simp only [Option.some.injEq, exists_eq_left']
    -- past a successful encoder every status is the sink's
    have hpast : ∀ {encoded : Encoded} {sent : Logged}, encoded.status = .ok → sent.status ≠ .encodeError →
        (sent.status = .encodeError ↔ encoded.status = .encodeError) := by
      intro encoded sent hok hsent
      rw [hok]
      exact ⟨fun hs => absurd hs hsent, fun hs => by cases hs⟩
    cases kind with
    | console =>
      simp only [encodeFor]
      split
      · rfl
      · rename_i hok
        exact hpast (not_not.1 hok) (consoleSinkWrite_status _ _)
    | file =>
      simp only [encodeFor]
      split
      · rfl
      · rename_i hok
        exact hpast (not_not.1 hok) (fileSinkWrite_status _ _ _)
    | syslog =>
      have hsyslog := henc .syslog
      simp only [encodeFor] at hsyslog ⊢
      split
      · rfl
      · rename_i hok
        rw [not_not] at hok
        obtain ⟨s, -, hroom, -, hout⟩ := hsyslog.output hok
        rw [os.stack.size] at hroom
        split
        · exact hpast hok (syslogUdpWrite_status _ _ _)
        · exact hpast hok (syslogTcpWrite_status _ _ (by rw [hout]; omega))
        · exact hpast hok (by simp)

/-! ## The payload buffer -/

theorem length_syslogSanitizeAppName (raw : Bytes) (outSize : Nat) :
    (syslogSanitizeAppName raw outSize).length ≤ rfc5424AppNameMax := by
  unfold syslogSanitizeAppName
  rw [List.length_map, List.length_take]
  split <;> split <;> omega

/-- A syslog message always fits: its text is not escaped. -/
theorem Event.WellFormed.syslog_fits {e : Event} (h : e.WellFormed) (mode : Int) (hy : e.timestamp.Formattable)
    (config : LoggerConfig) : ∃ s, (e.record mode).syslog config = some s ∧ s.length < 8192 := by
  have hpri : ((e.record mode).pri config) < 10 ^ 10 := by
    unfold Record.pri
    omega
  have hdigits := length_numeral_le (show 0 < 10 by decide) hpri
  have happ : (syslogSanitizeAppName ((e.record mode).appName config) (rfc5424AppNameMax + 1)).length ≤ 48 :=
    length_syslogSanitizeAppName _ _
  have hmessage : ((e.record mode).message.takeWhile (· != 0)).length ≤ 2048 := by
    obtain ⟨s, hs, -, hlen, -⟩ := h.message
    have htake := (List.takeWhile_sublist (fun b : UInt8 => b != 0) (l := (e.record mode).message)).length_le
    have hbytes : (e.record mode).message = s.bytes := by simp [Event.record, hs, cstrBytes]
    rw [hbytes] at htake ⊢
    exact Nat.le_trans htake hlen
  have htime : (e.record mode).timestamp.text.length = 24 := Timestamp.length_text h.nanoseconds hy
  have hlen : (rfc5424Text ((e.record mode).pri config) (e.record mode).timestamp.text
      (syslogSanitizeAppName ((e.record mode).appName config) (rfc5424AppNameMax + 1))
      ((e.record mode).message.takeWhile (· != 0))).length < 8192 := by
    unfold rfc5424Text
    simp only [List.length_append, htime, show (ascii "<").length = 1 by decide, show (ascii ">").length = 1 by decide,
      show (numeral syslogRfc5424Version).length = 1 by decide, show (ascii " ").length = 1 by decide,
      show (ascii " - ").length = 3 by decide, show (ascii " - - -").length = 6 by decide]
    split
    · rw [List.length_nil]
      omega
    · rw [List.length_append, show (ascii " ").length = 1 by decide]
      omega
  refine ⟨_, ?_, hlen⟩
  rw [Record.syslog, if_pos (show (e.record mode).timestamp.Formattable from hy)]
  exact if_pos (by omega)

theorem Encodes.status_eq {r : Encoded} {n : Nat} {s : Bytes} (h : Encodes r n (some s)) :
    r.status = if s.length + 1 ≤ n then .ok else .encodeError := by
  obtain ⟨hok, -, herr⟩ := h.capacity
  split
  · exact hok.2 ‹_›
  · exact (herr (Nat.lt_of_not_le ‹_›)).1

section Payload

variable {g17 : Double → Bytes} (hg : ∀ d : Double, d.isFinite = true → (g17 d).length ≤ 24) {cpu : Cpu} {os : LogOs}
  {logger : Logger} {e : Event} {c : EventCopy}
  (hcopy : eventCopyFromInput cpu os.heap (some e) logger.config.redactionMode = .ok c) (hy : e.timestamp.Formattable)
include hg hcopy hy

theorem jsonConsoleEncode_payload :
    (jsonConsoleEncode cpu g17 (some c) (some os.stack.bytes)).status =
      if (e.record logger.config.redactionMode).width g17 ≤ 8191 then .ok else .encodeError := by
  obtain ⟨hwf, hrep⟩ := eventCopyFromInput_represents hcopy
  have hvalid := hwf.record_valid logger.config.redactionMode
  obtain ⟨s, hs, hwidth⟩ := Record.json_width (fun d hd => Nat.lt_of_le_of_lt (hg d hd) (by decide)) hvalid hy
  have henc := jsonConsoleEncode_encodes cpu g17 hrep hvalid.nanoseconds os.stack.bytes
  rw [hs, os.stack.size] at henc
  rw [henc.status_eq, hwidth]
  exact if_congr (Nat.add_le_add_iff_right (n := 1)) rfl rfl

theorem ndjsonEncode_payload :
    (ndjsonEncode cpu g17 (some c) (some os.stack.bytes)).status =
      if (e.record logger.config.redactionMode).width g17 ≤ 8190 then .ok else .encodeError := by
  obtain ⟨hwf, hrep⟩ := eventCopyFromInput_represents hcopy
  have hvalid := hwf.record_valid logger.config.redactionMode
  obtain ⟨s, hs, hwidth⟩ := Record.json_width (fun d hd => Nat.lt_of_le_of_lt (hg d hd) (by decide)) hvalid hy
  have henc := ndjsonEncode_encodes cpu g17 hrep hvalid.nanoseconds os.stack.bytes
  rw [hs, Option.map_some, os.stack.size] at henc
  rw [henc.status_eq, List.length_append, List.length_singleton, hwidth]
  exact if_congr (Nat.add_le_add_iff_right (n := 2)) rfl rfl

omit hg in
theorem rfc5424Encode_payload : (rfc5424Encode (some c) (some logger.config) (some os.stack.bytes)).status = .ok := by
  obtain ⟨hwf, hrep⟩ := eventCopyFromInput_represents hcopy
  have hvalid := hwf.record_valid logger.config.redactionMode
  obtain ⟨s, hs, hroom⟩ := hwf.syslog_fits logger.config.redactionMode hy logger.config
  have hpos : 0 < os.stack.bytes.length := by
    rw [os.stack.size]
    decide
  have henc := rfc5424Encode_encodes hrep hvalid.nanoseconds hvalid.level logger.config hpos
  rw [os.stack.size] at henc
  exact (henc.ok s hs hroom).1

theorem loggerLog_encodeError :
    (loggerLog cpu g17 os logger (some e)).status = .encodeError ↔
      logger.active = true ∧ levelIsEnabled logger.config.minLevel e.level = true ∧
        (SinkKind.ofCode? logger.config.sinkKind = some .console ∧
            8191 < (e.record logger.config.redactionMode).width g17 ∨
          SinkKind.ofCode? logger.config.sinkKind = some .file ∧
            8190 < (e.record logger.config.redactionMode).width g17) := by
  obtain ⟨hwf, hrep⟩ := eventCopyFromInput_represents hcopy
  have hvalid := hwf.record_valid logger.config.redactionMode
  have hdeliver := deliver_encodeError_iff cpu g17 os logger hrep hvalid.nanoseconds hvalid.level
  cases hactive : logger.active with
  | false => simp [loggerLog, hactive]
  | true =>
    cases henabled : levelIsEnabled logger.config.minLevel e.level with
    | false => simp [loggerLog, hactive, henabled]
    | true =>
      simp only [loggerLog, hactive, henabled, hcopy, hdeliver, Bool.not_true, Bool.false_eq_true, if_false, true_and]
      constructor
      · rintro ⟨kind, hkind, hstatus⟩
        cases kind with
        | console =>
          refine .inl ⟨hkind, Nat.lt_of_not_le fun hfits => ?_⟩
          rw [encodeFor, jsonConsoleEncode_payload hg hcopy hy, if_pos hfits] at hstatus
          cases hstatus
        | file =>
          refine .inr ⟨hkind, Nat.lt_of_not_le fun hfits => ?_⟩
          rw [encodeFor, ndjsonEncode_payload hg hcopy hy, if_pos hfits] at hstatus
          cases hstatus
        | syslog =>
          rw [encodeFor, rfc5424Encode_payload hcopy hy] at hstatus
          cases hstatus
      · rintro (⟨hkind, hlong⟩ | ⟨hkind, hlong⟩)
        · exact ⟨.console, hkind, (jsonConsoleEncode_payload hg hcopy hy).trans (if_neg (Nat.not_le.2 hlong))⟩
        · exact ⟨.file, hkind, (ndjsonEncode_payload hg hcopy hy).trans (if_neg (Nat.not_le.2 hlong))⟩

end Payload

/-- The JSON encoders succeed on the payload buffer exactly when the line fits, which it does unless
escapes add more than 3086 octets; `ij_logger_log` refuses an accepted event for no other reason. -/
theorem payload_encodes_iff (g17 : Double → Bytes) (hg : ∀ d : Double, d.isFinite = true → (g17 d).length ≤ 24)
    (cpu : Cpu) (os : LogOs) (logger : Logger) (e : Event) (c : EventCopy)
    (hcopy : eventCopyFromInput cpu os.heap (some e) logger.config.redactionMode = .ok c)
    (hy : e.timestamp.Formattable) :
    let r := e.record logger.config.redactionMode
    let json := jsonConsoleEncode cpu g17 (some c) (some os.stack.bytes)
    let ndjson := ndjsonEncode cpu g17 (some c) (some os.stack.bytes)
    json.status = (if r.width g17 ≤ 8191 then .ok else .encodeError) ∧
      ndjson.status = (if r.width g17 ≤ 8190 then .ok else .encodeError) ∧
      (r.escapes ≤ 3086 → json.status = .ok ∧ ndjson.status = .ok) ∧
      ((loggerLog cpu g17 os logger (some e)).status = .encodeError ↔
        logger.active = true ∧ levelIsEnabled logger.config.minLevel e.level = true ∧
          (SinkKind.ofCode? logger.config.sinkKind = some .console ∧ 8191 < r.width g17 ∨
            SinkKind.ofCode? logger.config.sinkKind = some .file ∧ 8190 < r.width g17)) := by
  intro r json ndjson
  have hjson := jsonConsoleEncode_payload hg hcopy hy
  have hndjson := ndjsonEncode_payload hg hcopy hy
  have hle : r.width g17 ≤ 5104 + r.escapes :=
    (eventCopyFromInput_represents hcopy).1.width_le hg logger.config.redactionMode
  refine ⟨hjson, hndjson, fun hescapes => ⟨?_, ?_⟩, loggerLog_encodeError hg hcopy hy⟩
  · exact hjson.trans (if_pos (show r.width g17 ≤ 8191 by omega))
  · exact hndjson.trans (if_pos (show r.width g17 ≤ 8190 by omega))

theorem printHalf_length (d : Double) : (printHalf d).length ≤ 24 := by
  unfold printHalf
  decide

theorem payload_encodes_iff_login :
    ∃ c, eventCopyFromInput scalarCpu zeroHeap (some loginEvent) redactionModeEnabled = .ok c ∧
      (jsonConsoleEncode scalarCpu printHalf (some c) (some (steadyLog 0).stack.bytes)).status = .ok ∧
      (ndjsonEncode scalarCpu printHalf (some c) (some (steadyLog 0).stack.bytes)).status = .ok := by
  have h := payload_encodes_iff printHalf (fun d _ => printHalf_length d) scalarCpu (steadyLog 0) consoleLogger
    loginEvent _ rfl (by decide)
  exact ⟨_, rfl, h.2.2.1 (by decide +kernel)⟩

def controlEvent : Event :=
  { loginEvent with message := some ⟨List.replicate 2048 1, fun b hb => by rw [List.eq_of_mem_replicate hb]; decide⟩ }

theorem controlEvent_wellFormed : controlEvent.WellFormed :=
  (validateEvent_iff scalarCpu controlEvent).1 (by decide +kernel)

theorem controlEvent_width : 8191 < (controlEvent.record redactionModeEnabled).width printHalf := by
  have hmessage : textWidth (controlEvent.record redactionModeEnabled).message = 12290 := by decide +kernel
  unfold Record.width
  omega

/-- An accepted event that fits no JSON payload. -/
theorem controlEvent_refused :
    ∃ c, eventCopyFromInput scalarCpu zeroHeap (some controlEvent) redactionModeEnabled = .ok c ∧
      controlEvent.timestamp.Formattable ∧
      (jsonConsoleEncode scalarCpu printHalf (some c) (some (steadyLog 0).stack.bytes)).status = .encodeError ∧
      (ndjsonEncode scalarCpu printHalf (some c) (some (steadyLog 0).stack.bytes)).status = .encodeError ∧
      (loggerLog scalarCpu printHalf (steadyLog 0) consoleLogger (some controlEvent)).status = .encodeError := by
  obtain ⟨c, hcopy⟩ := @eventCopyFromInput_of_wellFormed scalarCpu zeroHeap controlEvent redactionModeEnabled
    controlEvent_wellFormed (fun _ => rfl) (fun _ => rfl)
  have hg : ∀ d : Double, d.isFinite = true → (printHalf d).length ≤ 24 := fun d _ => printHalf_length d
  have hy : controlEvent.timestamp.Formattable := by decide
  have hcopy' : eventCopyFromInput scalarCpu (steadyLog 0).heap (some controlEvent)
    consoleLogger.config.redactionMode = .ok c := hcopy
  have hwidth := controlEvent_width
  refine ⟨c, hcopy, hy, ?_, ?_, ?_⟩
  · exact (jsonConsoleEncode_payload hg hcopy' hy).trans (if_neg (Nat.not_le.2 hwidth))
  · exact (ndjsonEncode_payload hg hcopy' hy).trans (if_neg (Nat.not_le.2 (Nat.lt_trans (by decide) hwidth)))
  · exact (loggerLog_encodeError hg hcopy' hy).2 ⟨rfl, by decide, .inl ⟨by decide, hwidth⟩⟩

end IoJournal
