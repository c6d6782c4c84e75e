import KnockKnock.Datagrams.Fixtures
import KnockKnock.Dns.Receiving
import KnockKnock.Ntp.Packet
import KnockKnock.Stun.Message
import KnockKnock.Turn.Receiving

/-!
# The pingers over UDP

`UdpPinger`, `DnsPinger`, `NtpPinger`, `StunPinger` and `TurnPinger` send one
datagram and judge one.  What the last three and the first put into theirs,
and what they look for in the one that comes back, tells their protocols
apart.
-/

namespace KnockKnock

open Testserver Wire

/-! ## Requests -/

namespace Stun

/-- `BUF_SIZE` -/
def bufSize : ℕ := 0xFF

/-- What `StunPinger` sends. -/
def bindingRequest (txid : TransactionId) : Bytes :=
  buildHeader msgBindingRequest 0 txid

/-- What it makes of the datagram that comes back. -/
def receive (d : Bytes) (txid : TransactionId) : Outcome Unit :=
  validateBindingResponse (Datagram.recv bufSize d) txid

end Stun

namespace Turn

/-- `MSG_ALLOCATE_REQUEST` -/
def msgAllocateRequest : UInt16 := 0x0003

/-- `ATTR_REQUESTED_TRANSPORT` -/
def attrRequestedTransport : UInt16 := 0x0019

/-- `REQUESTED_TRANSPORT_UDP` -/
def requestedTransportUdp : UInt8 := 17

def buildRequestedTransportAttribute : Bytes :=
  toBeBytes attrRequestedTransport ++ toBeBytes 4 ++
    [requestedTransportUdp, 0, 0, 0]

/-- What `TurnPinger` sends. -/
def allocateRequest (txid : Stun.TransactionId) : Outcome Bytes :=
  Stun.buildMessage msgAllocateRequest buildRequestedTransportAttribute txid

end Turn

namespace Dns

def randomId : Option SinceEpoch → UInt16
  | some d => (d.subsecNanos ^^^ d.secs.toUInt32).toUInt16
  | none => 0

/-- What `DnsPinger` sends. -/
def request (id : UInt16) (query : Text) (recordType : RecordType) :
    Outcome Bytes :=
  if query = [] then
    Outcome.fail .invalidInput "DNS query name is empty".toList
  else buildQuery id query recordType.code

/-- What it makes of the datagram that comes back. -/
def receive (d request : Bytes) (id : UInt16) : Outcome Unit :=
  validateResponse (Datagram.recv bufSize d) request id

end Dns

namespace Level4

/-- What `UdpPinger` sends. -/
def datagram : Bytes := [1]

end Level4

/-- The pingers that exchange datagrams. -/
inductive DatagramPinger where
  | udp
  | dns (query : Text) (recordType : Dns.RecordType)
  | ntp
  | stun
  | turn
deriving DecidableEq, Repr

/-- The fixture for it. -/
def DatagramPinger.fixture : DatagramPinger → Fixture
  | udp => .udpEcho
  | dns _ _ => .dnsOk
  | ntp => .ntpOk
  | stun => .stunOk
  | turn => .turnOk

/-- One `ping`: the pinger, and what its clock shows. -/
structure Probe where
  pinger : DatagramPinger
  now : Option SinceEpoch

namespace Probe

/-- The datagram that `ping` sends. -/
def request (p : Probe) : Outcome Bytes :=
  match p.pinger with
  | .udp => pure Level4.datagram
  | .dns query recordType =>
      Dns.request (Dns.randomId p.now) query recordType
  | .ntp => pure Ntp.buildRequest
  | .stun => pure (Stun.bindingRequest (Stun.randomTransactionId p.now))
  | .turn => Turn.allocateRequest (Stun.randomTransactionId p.now)

/-- What `ping` makes of the datagram that comes back. -/
def receive (p : Probe) (d : Bytes) : Outcome Unit :=
  match p.pinger with
  | .udp => pure ()
  | .dns _ _ => do
      let request ← p.request
      Dns.receive d request (Dns.randomId p.now)
  | .ntp => Ntp.receive d
  | .stun => Stun.receive d (Stun.randomTransactionId p.now)
  | .turn => Turn.receive d (Stun.randomTransactionId p.now)

end Probe

/-! ## What the requests look like -/

theorem Dns.request_eq_ok_iff {id : UInt16} {query : Text}
    {recordType : RecordType} {bytes : Bytes} :
    request id query recordType = .ok bytes ↔
      query ≠ [] ∧ ∃ qname, encodeName query = .ok qname ∧
        bytes = toBeBytes id ++ [1, 0, 0, 1, 0, 0, 0, 0, 0, 0] ++
          (qname ++ (toBeBytes recordType.code ++ toBeBytes 1)) := by
  rw [request]
  by_cases hquery : query = []
  · rw [if_pos hquery]
    exact iff_of_false (by rintro ⟨⟩) fun h => h.1 hquery
  rw [if_neg hquery, and_iff_right hquery, buildQuery, Outcome.bind_eq_ok_iff]
  refine exists_congr fun qname => and_congr_right fun _ => ?_
  have hheader : toBeBytes id ++ toBeBytes 0x0100 ++ toBeBytes 1 ++
      toBeBytes 0 ++ toBeBytes 0 ++ toBeBytes 0 =
        toBeBytes id ++ [1, 0, 0, 1, 0, 0, 0, 0, 0, 0] := rfl
  rw [hheader]
  exact ⟨fun h => (Except.ok.inj h).symm, congrArg Except.ok ∘ Eq.symm⟩

/-- A query begins with its identifier, and asks one question. -/
theorem Dns.exists_request {id : UInt16} {query : Text}
    {recordType : RecordType} {bytes : Bytes}
    (h : request id query recordType = .ok bytes) :
    ∃ question, bytes = toBeBytes id ++ [1, 0, 0, 1, 0, 0, 0, 0, 0, 0] ++
      question ∧ question.length ≤ 259 := by
  obtain ⟨-, qname, hname, rfl⟩ := request_eq_ok_iff.mp h
  have hle := length_encodeName_le hname
  refine ⟨_, rfl, ?_⟩
  simp only [List.length_append, toBeBytes, List.length_cons, List.length_nil]
  omega

theorem Turn.allocateRequest_eq (txid : Stun.TransactionId) :
    allocateRequest txid = .ok (Stun.buildHeader msgAllocateRequest 8 txid ++
      buildRequestedTransportAttribute) := rfl

/-- Every request fits the buffers of the test servers. -/
theorem Probe.length_request_le {p : Probe} {q : Bytes}
    (h : p.request = .ok q) : q.length ≤ Testserver.bufSize := by
  obtain ⟨pinger, now⟩ := p
  cases pinger with
  | udp =>
      obtain rfl := Except.ok.inj h
      decide
  | dns query recordType =>
      obtain ⟨question, rfl, hle⟩ := Dns.exists_request h
      simp only [List.length_append, toBeBytes, List.length_cons,
        List.length_nil, Testserver.bufSize]
      omega
  | ntp =>
      obtain rfl := Except.ok.inj h
      decide
  | stun =>
      obtain rfl := Except.ok.inj h
      rw [Stun.bindingRequest, Stun.length_buildHeader]
      decide
  | turn =>
      obtain rfl := Except.ok.inj ((Turn.allocateRequest_eq _).symm.trans h)
      rw [List.length_append, Stun.length_buildHeader]
      decide

theorem Probe.answer_request {p : Probe} {q : Bytes} (h : p.request = .ok q)
    (f : Fixture) : f.answer q = f.answerTo q := by
  rw [Fixture.answer, List.take_of_length_le (length_request_le h)]

/-! ## What the answers look like -/

/-- The first word of a message. -/
def Stun.typeOf (d : Bytes) : UInt16 := fromBeBytes (d.getD 0 0) (d.getD 1 0)

/-- No fixture touches the cookie and the transaction. -/
theorem Stun.marked_answerTo_iff {f : Fixture} {q d : Bytes}
    (h : f.answerTo q = some d) (txid : TransactionId) :
    Marked d txid ↔ Marked q txid := by
  cases f with
  | udpEcho =>
      obtain rfl := Option.some.inj h
      exact Iff.rfl
  | dnsOk =>
      rw [Fixture.answerTo, Option.ite_none_right_eq_some] at h
      obtain ⟨-, h⟩ := h
      obtain rfl := Option.some.inj h
      rw [Marked, Marked, List.drop_set_of_lt (by decide),
        List.drop_set_of_lt (by decide)]
  | ntpOk =>
      rw [Fixture.answerTo, Option.ite_none_right_eq_some] at h
      obtain ⟨-, h⟩ := h
      obtain rfl := Option.some.inj h
      rw [Marked, Marked, List.drop_set_of_lt (by decide),
        List.drop_set_of_lt (by decide)]
  | stunOk =>
      rw [Fixture.answerTo, Option.ite_none_right_eq_some] at h
      obtain ⟨-, h⟩ := h
      obtain rfl := Option.some.inj h
      rw [Marked, Marked]
      change ((q.drop 4).take 16).take 16 = _ ↔ _
      rw [List.take_take, Nat.min_self]
  | turnOk =>
      rw [Fixture.answerTo, Option.ite_none_right_eq_some] at h
      obtain ⟨hlong, h⟩ := h
      obtain rfl := Option.some.inj h
      have hmark : ((q.drop 4).take 16).length = 16 := by
        rw [List.length_take, List.length_drop]
        omega
      rw [Marked, Marked]
      change ((q.drop 4).take 16 ++ _).take 16 = _ ↔ _
      rw [List.take_left' hmark]

theorem Stun.receive_eq_ok_iff {d : Bytes} {txid : TransactionId} :
    receive d txid = .ok () ↔
      typeOf d = msgBindingSuccess ∧ Marked d txid := by
  rw [receive, validateBindingResponse, validateResponseHeader_eq_ok_iff,
    answers_recv_iff (by decide), answers_iff]
  rfl

end KnockKnock
