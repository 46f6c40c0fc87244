import IoJournal.RoundTrip

/-!
# IoJournal.NonInterference

With redaction on, no encoder tells two secrets apart.

The secret is copied into the arena before the literal overwrites it, and the escape flag of the
copy still comes from the secret. Neither reaches an output: the two copies represent the same
record (`Event.SameButSecrets.record_eq`), and an encoder's outcome is a function of the record
and the buffer's size (`Encodes.same`).
-/

namespace IoJournal

open Wire

/-- The two attributes are equal, or both are strings under the same denylisted key. -/
def Attr.SameButSecret (a a' : Attr) : Prop :=
  a = a' ∨ a.key = a'.key ∧ a.value.isString = true ∧ a'.value.isString = true ∧
    keyShouldRedactN (cstrBytes a.key) = true

inductive AttrArray.SameButSecrets : AttrArray → AttrArray → Prop where
  | null (count : Nat) : AttrArray.SameButSecrets (.null count) (.null count)
  | array {as as' : List Attr} : List.Forall₂ Attr.SameButSecret as as' →
      AttrArray.SameButSecrets (.array as) (.array as')

/-- The events are equal except for the data and length of strings under denylisted keys. -/
structure Event.SameButSecrets (e e' : Event) : Prop where
  rest : e' = { e with attributes := e'.attributes }
  attributes : AttrArray.SameButSecrets e.attributes e'.attributes

/-- The same status, and on success the same length and the same octets. -/
structure Encoded.Same (r r' : Encoded) : Prop where
  status : r.status = r'.status
  outLen : r.status = .ok → r.outLen = r'.outLen
  output : r.status = .ok → r.output = r'.output

theorem Encodes.same {r r' : Encoded} {n : Nat} {t : Option Bytes} (h : Encodes r n t) (h' : Encodes r' n t) :
    r.Same r' := by
  by_cases hroom : ∃ s, t = some s ∧ s.length < n
  · obtain ⟨s, hs, hlt⟩ := hroom
    obtain ⟨hok, hlen, hread⟩ := h.ok s hs hlt
    obtain ⟨hok', hlen', hread'⟩ := h'.ok s hs hlt
    refine ⟨hok.trans hok'.symm, fun _ => hlen.trans hlen'.symm, fun _ => ?_⟩
    rw [Encoded.output, Encoded.output, hlen, hlen', Option.getD_some, Buffer.read_of_snoc hread,
      Buffer.read_of_snoc hread']
  · have hfull : ∀ s, t = some s → n ≤ s.length := fun s hs => by
      by_contra hlt
      exact hroom ⟨s, hs, by omega⟩
    have herr := (h.full hfull).1
    have herr' := (h'.full hfull).1
    refine ⟨herr.trans herr'.symm, fun hok => ?_, fun hok => ?_⟩
    · rw [herr] at hok; cases hok
    · rw [herr] at hok; cases hok

theorem stored_secret {a : Attr} (hs : a.value.isString = true) (hk : keyShouldRedactN (cstrBytes a.key) = true) :
    a.stored redactionModeEnabled = .string redactedLiteral := by
  have hredact : (attrScan redactionModeEnabled a).shouldRedact = true := by
    simp [attrScan, hs, hk]
  unfold Attr.stored
  cases hv : a.value with
  | string data => simp only [hredact, if_true]
  | signed _ | unsigned _ | bool _ | double _ | other _ => rw [hv] at hs; cases hs

theorem Attr.SameButSecret.stored_eq {a a' : Attr} (h : a.SameButSecret a') :
    (cstrBytes a.key, a.stored redactionModeEnabled) = (cstrBytes a'.key, a'.stored redactionModeEnabled) := by
  rcases h with rfl | ⟨hkey, hs, hs', hk⟩
  · rfl
  · rw [stored_secret hs hk, stored_secret hs' (hkey ▸ hk), hkey]

theorem AttrArray.SameButSecrets.stored_eq {as as' : AttrArray} (h : AttrArray.SameButSecrets as as') :
    as.toList.map (fun a => (cstrBytes a.key, a.stored redactionModeEnabled)) =
      as'.toList.map fun a => (cstrBytes a.key, a.stored redactionModeEnabled) := by
  cases h with
  | null count => rfl
  | array hall =>
    simp only [AttrArray.toList]
    induction hall with
    | nil => rfl
    | cons ha _ ih => simp only [List.map_cons, ih, ha.stored_eq]

theorem Event.SameButSecrets.record_eq {e e' : Event} (h : e.SameButSecrets e') :
    e.record redactionModeEnabled = e'.record redactionModeEnabled := by
  have htimestamp : e'.timestamp = e.timestamp := by rw [h.rest]
  have hlevel : e'.level = e.level := by rw [h.rest]
  have hname : e'.eventName = e.eventName := by rw [h.rest]
  have hmessage : e'.message = e.message := by rw [h.rest]
  have hlogger : e'.logger = e.logger := by rw [h.rest]
  have hfile : e'.sourceFile = e.sourceFile := by rw [h.rest]
  have hfunction : e'.sourceFunction = e.sourceFunction := by rw [h.rest]
  rw [Event.record, Event.record, htimestamp, hlevel, hname, hmessage, hlogger, hfile, hfunction,
    h.attributes.stored_eq]

/-- Two events that differ only in secrets are encoded alike, by every encoder and for every
buffer size. -/
theorem redaction_noninterference (cpu : Cpu) (g17 : Double → Bytes) (heap heap' : Heap) (e e' : Event)
    (h : e.SameButSecrets e') (c c' : EventCopy)
    (hc : eventCopyFromInput cpu heap (some e) redactionModeEnabled = .ok c)
    (hc' : eventCopyFromInput cpu heap' (some e') redactionModeEnabled = .ok c') (buffer buffer' : Bytes)
    (hsize : buffer.length = buffer'.length) (config : LoggerConfig) :
    (jsonConsoleEncode cpu g17 (some c) (some buffer)).Same (jsonConsoleEncode cpu g17 (some c') (some buffer')) ∧
      (ndjsonEncode cpu g17 (some c) (some buffer)).Same (ndjsonEncode cpu g17 (some c') (some buffer')) ∧
      (rfc5424Encode (some c) (some config) (some buffer)).Same
        (rfc5424Encode (some c') (some config) (some buffer')) := by
  obtain ⟨hwf, hrep⟩ := eventCopyFromInput_represents hc
  obtain ⟨-, hrep'⟩ := eventCopyFromInput_represents hc'
  rw [← h.record_eq] at hrep'
  have hn : (e.record redactionModeEnabled).timestamp.nanoseconds < 1000000000 := hwf.nanoseconds
  have hlevel : levelIsValid (e.record redactionModeEnabled).level = true := hwf.level
  refine ⟨?_, ?_, ?_⟩
  · have henc := jsonConsoleEncode_encodes cpu g17 hrep hn buffer
    rw [hsize] at henc
    exact henc.same (jsonConsoleEncode_encodes cpu g17 hrep' hn buffer')
  · have henc := ndjsonEncode_encodes cpu g17 hrep hn buffer
    rw [hsize] at henc
    exact henc.same (ndjsonEncode_encodes cpu g17 hrep' hn buffer')
  · rcases Nat.eq_zero_or_pos buffer.length with hzero | hpos
    · have hzero' : buffer'.length = 0 := hsize ▸ hzero
      have hinvalid : ∀ (c : EventCopy) (bytes : Bytes), bytes.length = 0 →
          rfc5424Encode (some c) (some config) (some bytes) = ⟨.invalidArgument, .fresh bytes, none⟩ :=
        fun c bytes hb => by simp only [rfc5424Encode, if_pos hb]
      rw [hinvalid c buffer hzero, hinvalid c' buffer' hzero']
      exact ⟨rfl, fun hok => (by cases hok), fun hok => (by cases hok)⟩
    · have henc := rfc5424Encode_encodes hrep hn hlevel config hpos
      rw [hsize] at henc
      exact henc.same (rfc5424Encode_encodes hrep' hn hlevel config (by omega))

theorem loginEvent_sameButSecrets : loginEvent.SameButSecrets otherLoginEvent :=
  ⟨rfl, .array (.cons (.inr ⟨rfl, rfl, rfl, by decide⟩) (.cons (.inl rfl) (.cons (.inl rfl) .nil)))⟩

def syslogConfig : LoggerConfig where
  minLevel := 2
  sinkKind := 2
  redactionMode := 1
  queueCapacity := 0
  loggerName := none
  filePath := none
  fileRotateBytes := 0
  fileRotateIntervalSeconds := 0
  fileRetentionFiles := 0
  fileBackend := 0
  syslogHost := some ⟨ascii "localhost", forall_mem_of_all (by decide)⟩
  syslogPort := 514
  syslogTransport := 1
  syslogFacility := 1

theorem redaction_noninterference_login :
    ∃ c c', eventCopyFromInput scalarCpu zeroHeap (some loginEvent) redactionModeEnabled = .ok c ∧
      eventCopyFromInput scalarCpu zeroHeap (some otherLoginEvent) redactionModeEnabled = .ok c' ∧
      (jsonConsoleEncode scalarCpu printHalf (some c) (some (List.replicate 256 0))).Same
        (jsonConsoleEncode scalarCpu printHalf (some c') (some (List.replicate 256 1))) ∧
      (ndjsonEncode scalarCpu printHalf (some c) (some (List.replicate 256 0))).Same
        (ndjsonEncode scalarCpu printHalf (some c') (some (List.replicate 256 1))) ∧
      (rfc5424Encode (some c) (some syslogConfig) (some (List.replicate 256 0))).Same
        (rfc5424Encode (some c') (some syslogConfig) (some (List.replicate 256 1))) :=
  ⟨_, _, rfl, rfl, redaction_noninterference scalarCpu printHalf zeroHeap zeroHeap loginEvent otherLoginEvent
    loginEvent_sameButSecrets _ _ rfl rfl (List.replicate 256 0) (List.replicate 256 1)
    (by simp only [List.length_replicate]) syslogConfig⟩

end IoJournal
