import IoJournal.Posix.Disk
import IoJournal.Types
import IoJournal.FileSink

/-!
# IoJournal.NetSinks

The sinks without a file: `sinks/ij_console_sink.c`, `sinks/ij_syslog_udp.c` and
`sinks/ij_syslog_tcp.c`.

As for the file sink, every function takes the answers of its system calls. A call that is made in
a loop has a list of answers, one for each round; a list that runs out stands for an error in the
next round, so every finite sequence of outcomes is a list.
-/

namespace IoJournal

open Wire Posix

/-! ## Console -/

/-- The loop of `ij_console_sink_write`: `offset` octets of the payload are out, and `remaining` octets
are left with the newline. -/
def consoleSinkLoop (payload : Bytes) : List Int → (offset remaining : Nat) → Status × List Effect
  | [], _, remaining => if remaining = 0 then (.ok, []) else (.sinkError, [])
  | written :: answers, offset, remaining =>
    if remaining = 0 then (.ok, [])
    else if written ≤ 0 then (.sinkError, [])
    else
      let effect := Effect.stdout ((payload.drop offset ++ [0x0A]).take written.toNat)
      if remaining ≤ written.toNat then (.ok, [effect])
      else
        let (status, effects) := consoleSinkLoop payload answers
          (if offset < payload.length then offset + min written.toNat (payload.length - offset) else offset)
          (remaining - written.toNat)
        (status, effect :: effects)

/-- `ij_console_sink_write`. -/
def consoleSinkWrite (writev : List Int) (payload : Bytes) : Status × List Effect :=
  if payload.length = 0 then (.invalidArgument, [])
  else consoleSinkLoop payload writev 0 (payload.length + 1)

/-! ## Syslog -/

/-- `ij_syslog_sink_t`, without the resolved address. -/
structure SyslogSink where
  fd : Int
  addressLen : Nat
  deriving DecidableEq

def SyslogSink.zero : SyslogSink := ⟨0, 0⟩

/-- What happens to one entry of `getaddrinfo`: `socket`, and for TCP `connect`. -/
structure AddressAnswer where
  socket : Option Nat
  connect : Bool
  addrlen : Nat

/-- `ij_syslog_resolve_udp`: the descriptor and the length of the address. -/
def syslogResolveUdp (host : Option CString) : Option (List AddressAnswer) → Except Status (Nat × Nat) × List Effect
  | none => (.error (if host.isNone then .invalidArgument else .sinkError), [])
  | some entries =>
    if host.isNone then (.error .invalidArgument, [])
    else
      match entries.find? (·.socket.isSome) with
      | none => (.error .sinkError, [])
      | some entry => (.ok (entry.socket.getD 0, entry.addrlen), [.openFd (entry.socket.getD 0)])

/-- `ij_syslog_udp_open`. -/
def syslogUdpOpen (getaddrinfo : Option (List AddressAnswer)) (host : Option CString) : Out SyslogSink :=
  match syslogResolveUdp host getaddrinfo with
  | (.error status, effects) => ⟨status, ⟨-1, 0⟩, effects⟩
  | (.ok (fd, addrlen), effects) => ⟨.ok, ⟨fd, addrlen⟩, effects⟩

/-- `ij_syslog_udp_write`, with the result of `sendto`. -/
def syslogUdpWrite (sendto : Int) (sink : SyslogSink) (payload : Bytes) : Status × List Effect :=
  if payload.length = 0 then (.invalidArgument, [])
  else if sink.fd < 0 ∨ sink.addressLen = 0 then (.invalidState, [])
  else if syslogUdpTargetMax < payload.length then (.sinkError, [])
  else
    let effects := [Effect.send sink.fd (payload.take sendto.toNat)]
    if sendto < 0 ∨ sendto ≠ payload.length then (.sinkError, effects) else (.ok, effects)

/-- `ij_syslog_sink_close`. -/
def syslogSinkClose (sink : SyslogSink) : SyslogSink × List Effect :=
  (⟨-1, 0⟩, if 0 ≤ sink.fd then [.closeFd sink.fd.toNat] else [])

/-- The loop of `ij_syslog_connect_tcp`. -/
def connectTcpLoop : List AddressAnswer → Except Status Nat × List Effect
  | [] => (.error .sinkError, [])
  | entry :: entries =>
    match entry.socket with
    | none => connectTcpLoop entries
    | some fd =>
      if entry.connect then (.ok fd, [.openFd fd])
      else
        let (result, effects) := connectTcpLoop entries
        (result, .openFd fd :: .closeFd fd :: effects)

/-- `ij_syslog_connect_tcp`. -/
def syslogConnectTcp (host : Option CString) : Option (List AddressAnswer) → Except Status Nat × List Effect
  | none => (.error (if host.isNone then .invalidArgument else .sinkError), [])
  | some entries => if host.isNone then (.error .invalidArgument, []) else connectTcpLoop entries

/-- `ij_syslog_tcp_open`. -/
def syslogTcpOpen (getaddrinfo : Option (List AddressAnswer)) (host : Option CString) : Out SyslogSink :=
  match syslogConnectTcp host getaddrinfo with
  | (.error status, effects) => ⟨status, ⟨-1, 0⟩, effects⟩
  | (.ok fd, effects) => ⟨.ok, ⟨fd, 0⟩, effects⟩

/-- `ij_syslog_send_all`: also the answers it left. A `send` never takes more than it is given. -/
def syslogSendAll (fd : Int) : List Int → Bytes → Status × List Effect × List Int
  | answers, [] => (.ok, [], answers)
  | [], _ :: _ => (.sinkError, [], [])
  | sent :: answers, b :: bs =>
    if sent ≤ 0 then (.sinkError, [], answers)
    else
      let (status, effects, rest) := syslogSendAll fd answers ((b :: bs).drop sent.toNat)
      (status, .send fd ((b :: bs).take sent.toNat) :: effects, rest)

/-- `ij_syslog_tcp_write`. -/
def syslogTcpWrite (send : List Int) (sink : SyslogSink) (payload : Bytes) : Status × List Effect :=
  if payload.length = 0 then (.invalidArgument, [])
  else if sink.fd < 0 then (.invalidState, [])
  else
    let framePrefix := numeral payload.length ++ [0x20]
    if 32 ≤ framePrefix.length then (.encodeError, [])
    else
      let (status, effects, answers) := syslogSendAll sink.fd send framePrefix
      if status ≠ .ok then (status, effects)
      else
        let (status, effects', _) := syslogSendAll sink.fd answers payload
        (status, effects ++ effects')

end IoJournal
