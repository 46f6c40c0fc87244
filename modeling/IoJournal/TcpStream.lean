import IoJournal.NetSinks
import IoJournal.Wire.Framing
import IoJournal.Runs.Machine

/-!
# IoJournal.TcpStream

A connection of the TCP syslog sink, seen by a receiver that counts octets.

`ij_syslog_tcp_write` sends the length and the payload in two loops. When a `send` fails in between,
the connection keeps the part of the frame that is out, and the sink keeps the connection. The next
write puts its frame behind that part, where the receiver takes it for the rest of the message.
`intact_run` says that the receiver decodes exactly the payloads whose write returned `ok` as long
as nothing is sent after a frame that was cut off.
-/

namespace IoJournal

open Wire Posix

def sentOctets (effects : List Effect) : Bytes :=
  effects.flatMap fun
    | .send _ octets => octets
    | _ => []

theorem sentOctets_append (es es' : List Effect) : sentOctets (es ++ es') = sentOctets es ++ sentOctets es' :=
  List.flatMap_append

/-- The first `send` of a write takes something. -/
def SendsSome (send : List Int) : Prop := ∃ sent ∈ send.head?, 0 < sent

instance (send : List Int) : Decidable (SendsSome send) :=
  match send with
  | [] => isFalse fun h => by simp [SendsSome] at h
  | sent :: _ => decidable_of_iff (0 < sent) (by simp [SendsSome])

/-! ## One write -/

theorem syslogSendAll_spec (fd : Int) (answers : List Int) (buffer : Bytes) :
    sentOctets (syslogSendAll fd answers buffer).2.1 <+: buffer ∧
    ((syslogSendAll fd answers buffer).1 = .ok ↔ sentOctets (syslogSendAll fd answers buffer).2.1 = buffer) ∧
    (sentOctets (syslogSendAll fd answers buffer).2.1 ≠ [] → SendsSome answers) := by
  fun_induction syslogSendAll fd answers buffer with
  | case1 answers => exact ⟨List.nil_prefix, iff_of_true rfl rfl, fun h => absurd rfl h⟩
  | case2 b bs => exact ⟨List.nil_prefix, iff_of_false nofun nofun, fun h => absurd rfl h⟩
  | case3 sent answers b bs hsent => exact ⟨List.nil_prefix, iff_of_false nofun nofun, fun h => absurd rfl h⟩
  | case4 sent answers b bs hsent status effects rest heq ih =>
    rw [heq] at ih
    obtain ⟨hpart, hok, -⟩ := ih
    have hoctets : sentOctets (.send fd ((b :: bs).take sent.toNat) :: effects) =
        (b :: bs).take sent.toNat ++ sentOctets effects := rfl
    rw [hoctets]
    refine ⟨?_, ?_, fun _ => ⟨sent, rfl, Int.not_le.1 hsent⟩⟩
    · conv => rhs; rw [← List.take_append_drop sent.toNat (b :: bs)]
      exact (List.prefix_append_right_inj _).2 hpart
    · rw [hok]
      conv => rhs; rhs; rw [← List.take_append_drop sent.toNat (b :: bs)]
      exact (List.append_right_inj _).symm

theorem frame_eq (payload : Bytes) : frame payload = (numeral payload.length ++ [0x20]) ++ payload := by
  rw [frame, List.append_assoc]
  rfl

/-- A write puts out the beginning of its frame, the whole frame exactly when it returns `ok`. -/
theorem syslogTcpWrite_spec (send : List Int) (sink : SyslogSink) (payload : Bytes) :
    sentOctets (syslogTcpWrite send sink payload).2 <+: frame payload ∧
    ((syslogTcpWrite send sink payload).1 = .ok ↔
      sentOctets (syslogTcpWrite send sink payload).2 = frame payload) ∧
    (sentOctets (syslogTcpWrite send sink payload).2 ≠ [] → payload ≠ [] ∧ SendsSome send) := by
  have hnone : ∀ status : Status, status ≠ .ok → sentOctets (status, ([] : List Effect)).2 <+: frame payload ∧
      (status = .ok ↔ sentOctets (status, ([] : List Effect)).2 = frame payload) ∧
      (sentOctets (status, ([] : List Effect)).2 ≠ [] → payload ≠ [] ∧ SendsSome send) := by
    intro status hstatus
    refine ⟨List.nil_prefix, iff_of_false hstatus fun heq => ?_, fun h => absurd rfl h⟩
    have hlen := congrArg List.length heq
    simp [sentOctets, frame] at hlen
  obtain ⟨hpart, hok, hsome⟩ := syslogSendAll_spec sink.fd send (numeral payload.length ++ [0x20])
  simp only [syslogTcpWrite]
  split
  · exact hnone _ (by simp)
  split
  · exact hnone _ (by simp)
  split
  · exact hnone _ (by simp)
  rename_i hlen _ _
  have hne : payload ≠ [] := fun hnil => hlen (by rw [hnil]; rfl)
  rw [frame_eq]
  split
  · -- the length did not get through
    rename_i hbad
    refine ⟨hpart.trans (List.prefix_append _ _), iff_of_false hbad fun heq => ?_, fun h => ⟨hne, hsome h⟩⟩
    have hle := hpart.length_le
    rw [heq, List.length_append] at hle
    have := List.length_pos_iff.2 hne
    omega
  · rename_i hgood
    have hfirst := hok.1 (not_not.1 hgood)
    obtain ⟨hpart', hok', -⟩ := syslogSendAll_spec sink.fd
      (syslogSendAll sink.fd send (numeral payload.length ++ [0x20])).2.2 payload
    rw [sentOctets_append, hfirst]
    refine ⟨(List.prefix_append_right_inj _).2 hpart', hok'.trans (List.append_right_inj _).symm, fun _ => ⟨hne, ?_⟩⟩
    refine hsome ?_
    rw [hfirst]
    exact List.append_ne_nil_of_right_ne_nil _ (List.cons_ne_nil _ _)

/-! ## Runs -/

structure TcpCall where
  send : List Int
  payload : Bytes

/-- What is on the connection, the payloads submitted, those whose write returned `ok`, and whether
a frame was cut off. -/
structure TcpStream where
  wire : Bytes
  submitted : List Bytes
  delivered : List Bytes
  torn : Bool

def TcpStream.step (sink : SyslogSink) (s : TcpStream) (c : TcpCall) : TcpStream :=
  let (status, effects) := syslogTcpWrite c.send sink c.payload
  let octets := sentOctets effects
  { wire := s.wire ++ octets
    submitted := s.submitted ++ [c.payload]
    delivered := if status = .ok then s.delivered ++ [c.payload] else s.delivered
    torn := s.torn || (status != .ok && octets != []) }

def TcpStream.empty : TcpStream := ⟨[], [], [], false⟩

/-- The receiver gets every payload whose write returned `ok`, and nothing that was not submitted. -/
def TcpStream.Intact (s : TcpStream) : Prop :=
  s.delivered.Sublist (decode s.wire) ∧ ∀ message ∈ decode s.wire, message ∈ s.submitted

instance (s : TcpStream) : Decidable s.Intact := inferInstanceAs (Decidable (_ ∧ _))

/-- A write gets through to a connection on which a frame was cut off. -/
def TcpStream.Resumes (s : TcpStream) (c : TcpCall) : Prop := s.torn = true ∧ c.payload ≠ [] ∧ SendsSome c.send

instance (s : TcpStream) (c : TcpCall) : Decidable (s.Resumes c) := inferInstanceAs (Decidable (_ ∧ _))

/-- The connection has the frames of the payloads delivered, and then at most the beginning of one. -/
structure TcpStream.Inv (s : TcpStream) : Prop where
  wire : ∃ part, s.wire = s.delivered.flatMap frame ++ part ∧ decodeFrame part = none ∧ (s.torn = false → part = [])
  nonempty : ∀ message ∈ s.delivered, message ≠ []
  delivered : ∀ message ∈ s.delivered, message ∈ s.submitted

theorem TcpStream.Inv.step {sink : SyslogSink} {s : TcpStream} (h : s.Inv) {c : TcpCall} (hc : ¬s.Resumes c) :
    (s.step sink c).Inv := by
  obtain ⟨hsent, hok, hsome⟩ := syslogTcpWrite_spec c.send sink c.payload
  obtain ⟨part, hwire, hpart, hwhole⟩ := h.wire
  simp only [TcpStream.step]
  by_cases hoctets : sentOctets (syslogTcpWrite c.send sink c.payload).2 = []
  · -- nothing went out
    have hbad : (syslogTcpWrite c.send sink c.payload).1 ≠ .ok := by
      intro hgood
      rw [hok, hoctets] at hgood
      have hlen := congrArg List.length hgood
      simp [frame] at hlen
    simp only [hoctets, List.append_nil, if_neg hbad, bne_self_eq_false, Bool.and_false, Bool.or_false]
    exact ⟨⟨part, hwire, hpart, hwhole⟩, h.nonempty, fun m hm => List.mem_append_left _ (h.delivered m hm)⟩
  · obtain ⟨hne, hsends⟩ := hsome hoctets
    have htorn : s.torn = false := by
      cases ht : s.torn with
      | false => rfl
      | true => exact absurd ⟨ht, hne, hsends⟩ hc
    rw [hwhole htorn, List.append_nil] at hwire
    by_cases hgood : (syslogTcpWrite c.send sink c.payload).1 = .ok
    · simp only [if_pos hgood]
      refine ⟨⟨[], ?_, rfl, fun _ => rfl⟩, fun m hm => ?_, fun m hm => ?_⟩
      · rw [hwire, hok.1 hgood, List.flatMap_append, List.flatMap_singleton, List.append_nil]
      · rcases List.mem_append.1 hm with hm | hm
        · exact h.nonempty m hm
        · rw [List.mem_singleton.1 hm]
          exact hne
      · rcases List.mem_append.1 hm with hm | hm
        · exact List.mem_append_left _ (h.delivered m hm)
        · exact List.mem_append_right _ hm
    · simp only [if_neg hgood]
      refine ⟨⟨_, by rw [hwire], decodeFrame_part hsent fun heq => hgood (hok.2 heq), fun hfalse => ?_⟩, h.nonempty,
        fun m hm => List.mem_append_left _ (h.delivered m hm)⟩
      simp [htorn, hgood, hoctets] at hfalse

theorem TcpStream.Inv.intact {s : TcpStream} (h : s.Inv) : s.Intact := by
  obtain ⟨part, hwire, hpart, -⟩ := h.wire
  have hdecode : decode s.wire = s.delivered := by
    rw [hwire]
    exact decode_frames h.nonempty hpart
  rw [TcpStream.Intact, hdecode]
  exact ⟨List.Sublist.refl _, h.delivered⟩

/-- The stream stays intact as long as nothing is sent after a frame that was cut off. -/
theorem intact_run (sink : SyslogSink) (calls : List TcpCall)
    (hcalls : Machine.Along (TcpStream.step sink) (fun s c => ¬s.Resumes c) .empty calls) :
    (Machine.run (TcpStream.step sink) .empty calls).Intact := by
  have hempty : TcpStream.empty.Inv := by
    refine ⟨⟨[], rfl, rfl, fun _ => rfl⟩, fun m hm => ?_, fun m hm => ?_⟩
    · exact absurd hm List.not_mem_nil
    · exact absurd hm List.not_mem_nil
  exact (hcalls.invariant TcpStream.Inv (fun _ _ hs hc => hs.step hc) hempty).intact

/-- One whole frame, one that is cut off after three octets, and a write that fails at once. -/
theorem intact_run_cut_off :
    (Machine.run (TcpStream.step ⟨5, 0⟩) .empty
      [⟨[2, 1, 1], ascii "ok"⟩, ⟨[2, 1, -1], ascii "hello"⟩, ⟨[-1], ascii "hi"⟩]).Intact :=
  intact_run ⟨5, 0⟩ _ (by decide)

/-- The frame of `hi` behind the first three octets of the frame of `hello`. -/
theorem not_intact_resumed :
    ¬(Machine.run (TcpStream.step ⟨5, 0⟩) .empty [⟨[2, 1, -1], ascii "hello"⟩, ⟨[2, 2], ascii "hi"⟩]).Intact := by
  decide

/-! ## Streams of whole frames -/

/-- The octets that a write puts on the connection. -/
def TcpCall.octets (sink : SyslogSink) (c : TcpCall) : Bytes := sentOctets (syslogTcpWrite c.send sink c.payload).2

def TcpCall.status (sink : SyslogSink) (c : TcpCall) : Status := (syslogTcpWrite c.send sink c.payload).1

theorem wire_run (sink : SyslogSink) (calls : List TcpCall) :
    ∀ s : TcpStream, (Machine.run (TcpStream.step sink) s calls).wire = s.wire ++ calls.flatMap (·.octets sink) := by
  induction calls with
  | nil =>
    intro s
    simp [Machine.run]
  | cons c calls ih =>
    intro s
    have hstep : (s.step sink c).wire = s.wire ++ c.octets sink := rfl
    rw [Machine.run_cons, ih, hstep, List.flatMap_cons, List.append_assoc]

/-- If every write returns `ok`, the connection has the frames of the payloads and a receiver decodes
exactly these payloads. A write that fails leaves a proper part of its own frame. -/
theorem octet_counting_run (sink : SyslogSink) (calls : List TcpCall) :
    let wire := (Machine.run (TcpStream.step sink) .empty calls).wire
    ((∀ c ∈ calls, c.status sink = .ok) →
      wire = (calls.map (·.payload)).flatMap frame ∧ decode wire = calls.map (·.payload)) ∧
    ∀ c ∈ calls, c.status sink ≠ .ok → c.octets sink <+: frame c.payload ∧ c.octets sink ≠ frame c.payload := by
  intro wire
  refine ⟨fun hok => ?_, fun c _ hbad => ?_⟩
  · have hframe : ∀ c ∈ calls, c.octets sink = frame c.payload := fun c hc =>
      (syslogTcpWrite_spec c.send sink c.payload).2.1.1 (hok c hc)
    have hwire : wire = (calls.map (·.payload)).flatMap frame := by
      rw [show wire = [] ++ calls.flatMap (·.octets sink) from wire_run sink calls .empty, List.nil_append,
        List.flatMap_map]
      exact List.flatMap_congr hframe
    have hne : ∀ payload ∈ calls.map (·.payload), payload ≠ [] := by
      intro payload hmem
      obtain ⟨c, hc, rfl⟩ := List.mem_map.1 hmem
      refine ((syslogTcpWrite_spec c.send sink c.payload).2.2 fun hnone => ?_).1
      have hlen := congrArg List.length ((hframe c hc).symm.trans hnone)
      simp [frame] at hlen
    have hdecode := @decode_frames _ hne [] rfl
    rw [List.append_nil] at hdecode
    exact ⟨hwire, hwire ▸ hdecode⟩
  · obtain ⟨hpart, hok, -⟩ := syslogTcpWrite_spec c.send sink c.payload
    exact ⟨hpart, fun heq => hbad (hok.2 heq)⟩

/-- Two payloads that look like frames, sent in pieces. -/
theorem octet_counting_run_pieces :
    decode (Machine.run (TcpStream.step ⟨5, 0⟩) .empty
      [⟨[1, 1, 2, 9], ascii "5 a\nb"⟩, ⟨[2, 1, 1, 1], ascii "1 2"⟩]).wire = [ascii "5 a\nb", ascii "1 2"] :=
  ((octet_counting_run ⟨5, 0⟩ [⟨[1, 1, 2, 9], ascii "5 a\nb"⟩, ⟨[2, 1, 1, 1], ascii "1 2"⟩]).1 (by decide)).2

end IoJournal
