import KnockKnock.Datagrams.Pings

/-!
# Which servers satisfy which pingers

Any number of pings share a network with one of the UDP test servers.  An
answer of its own server satisfies a ping; another server has either nothing
for it, or an answer that it refuses.  So in every run a verdict tells which
server it was.
-/

namespace KnockKnock

open Datagram Testserver Wire

/-! ## Answers to requests -/

variable {f : Fixture} {q d : Bytes}

theorem Dns.receive_eq_ok_iff {id : UInt16} (h : q.length ≤ bufSize) :
    receive d q id = .ok () ↔
      12 ≤ d.length ∧ wordAt d 0 = id ∧ wordAt d 2 >>> 15 = 1 ∧
        wordAt d 2 &&& 0x000F = 0 ∧ wordAt d 4 = 1 ∧
        12 ≤ q.length ∧ q.drop 12 <+: d.drop 12 := by
  rw [receive, validateResponse_recv_iff h, validateResponse_eq_ok_iff]

/-- The answer of a fixture to a query, as far as the response flag. -/
theorem Dns.receive_answerTo_iff {id : UInt16} {question : Bytes}
    (hquestion : question.length ≤ 259)
    (hq : q = toBeBytes id ++ [1, 0, 0, 1, 0, 0, 0, 0, 0, 0] ++ question)
    (hd : f.answerTo q = some d) :
    receive d q id = .ok () ↔ f = .dnsOk := by
  have hlength : q.length ≤ bufSize := by
    subst hq
    simp only [List.length_append, toBeBytes, List.length_cons,
      List.length_nil, bufSize]
    omega
  rw [receive_eq_ok_iff hlength]
  subst hq
  cases f with
  | udpEcho =>
      obtain rfl := Option.some.inj hd
      refine iff_of_false (fun h => ?_) (by decide)
      exact absurd h.2.2.1 (by decide : fromBeBytes 1 0 >>> 15 ≠ 1)
  | dnsOk =>
      rw [Fixture.answerTo, Option.ite_none_right_eq_some] at hd
      obtain ⟨hlong, hd⟩ := hd
      obtain rfl := Option.some.inj hd
      refine iff_of_true ⟨?_, ?_, ?_, ?_, ?_, ?_, ?_⟩ rfl
      · rw [List.length_set, List.length_set]
        exact hlong
      · exact fromBeBytes_toBeBytes id
      · exact (by decide :
          fromBeBytes (1 ||| 0x80) (0 &&& 0xF0) >>> 15 = 1)
      · exact (by decide :
          fromBeBytes (1 ||| 0x80) (0 &&& 0xF0) &&& 0x000F = 0)
      · exact (by decide : fromBeBytes 0 1 = 1)
      · exact hlong
      · exact List.prefix_rfl
  | ntpOk =>
      rw [Fixture.answerTo, Option.ite_none_right_eq_some] at hd
      obtain ⟨-, hd⟩ := hd
      obtain rfl := Option.some.inj hd
      refine iff_of_false (fun h => ?_) (by decide)
      exact absurd h.2.2.1 (by decide : fromBeBytes 1 0 >>> 15 ≠ 1)
  | stunOk =>
      rw [Fixture.answerTo, Option.ite_none_right_eq_some] at hd
      obtain ⟨-, hd⟩ := hd
      obtain rfl := Option.some.inj hd
      refine iff_of_false (fun h => ?_) (by decide)
      exact absurd h.2.2.1 (by decide : fromBeBytes 0 0 >>> 15 ≠ 1)
  | turnOk =>
      rw [Fixture.answerTo, Option.ite_none_right_eq_some] at hd
      obtain ⟨-, hd⟩ := hd
      obtain rfl := Option.some.inj hd
      refine iff_of_false (fun h => ?_) (by decide)
      exact absurd h.2.2.1 (by decide : fromBeBytes 0 8 >>> 15 ≠ 1)

/-- The first word of the answer to a STUN message. -/
def Testserver.Fixture.answerType (messageType : UInt16) : Fixture → UInt16
  | .udpEcho | .dnsOk | .ntpOk => messageType
  | .stunOk => 0x0101
  | .turnOk => 0x0113

theorem Stun.typeOf_answerTo {messageType length : UInt16}
    {txid : TransactionId} {attributes : Bytes}
    (hd : f.answerTo (buildHeader messageType length txid ++ attributes) =
      some d) (hlength : headerLen + attributes.length ≠ 48) :
    typeOf d = f.answerType messageType := by
  cases f with
  | udpEcho =>
      obtain rfl := Option.some.inj hd
      exact fromBeBytes_toBeBytes messageType
  | dnsOk =>
      rw [Fixture.answerTo, Option.ite_none_right_eq_some] at hd
      obtain rfl := Option.some.inj hd.2
      exact fromBeBytes_toBeBytes messageType
  | ntpOk =>
      rw [Fixture.answerTo, Option.ite_none_right_eq_some, List.length_append,
        length_buildHeader] at hd
      exact absurd hd.1 hlength
  | stunOk =>
      rw [Fixture.answerTo, Option.ite_none_right_eq_some] at hd
      obtain rfl := Option.some.inj hd.2
      exact (by decide : fromBeBytes 1 1 = 0x0101)
  | turnOk =>
      rw [Fixture.answerTo, Option.ite_none_right_eq_some] at hd
      obtain rfl := Option.some.inj hd.2
      exact (by decide : fromBeBytes 1 0x13 = 0x0113)

theorem Stun.receive_answerTo_iff {txid : TransactionId}
    (hd : f.answerTo (bindingRequest txid) = some d) :
    receive d txid = .ok () ↔ f = .stunOk := by
  have hrequest : bindingRequest txid =
      buildHeader msgBindingRequest 0 txid ++ [] := (List.append_nil _).symm
  rw [hrequest] at hd
  have hmarked := (marked_answerTo_iff hd txid).mpr
    (marked_buildHeader _ _ _ _)
  rw [receive_eq_ok_iff, and_iff_left hmarked,
    typeOf_answerTo hd (by decide)]
  cases f with
  | udpEcho | dnsOk | ntpOk | stunOk | turnOk => decide

/-- The answer of `start_turn_ok` carries 401. -/
theorem Turn.carries_answer {d : Bytes} {header : Bytes}
    (hheader : header.length = Stun.headerLen)
    (hd : d = header ++ [0x00, 0x09, 0x00, 0x04, 0x00, 0x00, 0x04, 0x01]) :
    Carries (d.drop Stun.headerLen) 4 1 := by
  have hbody : d.drop Stun.headerLen =
      (errorResponse 4 1).drop Stun.headerLen := by
    rw [hd, List.drop_left' hheader]
    rfl
  rw [hbody]
  exact (carries_errorResponse_iff 4 1 4 1).mpr (by decide)

theorem Turn.receive_answerTo_iff {txid : Stun.TransactionId}
    (hd : f.answerTo (Stun.buildHeader msgAllocateRequest 8 txid ++
      buildRequestedTransportAttribute) = some d) :
    receive d txid = .ok () ↔ f = .turnOk := by
  have hmarked := (Stun.marked_answerTo_iff hd txid).mpr
    (Stun.marked_buildHeader _ _ _ _)
  have htype := Stun.typeOf_answerTo hd (by decide)
  have hanswers : Stun.Answers d msgAllocateError txid ↔ f = .turnOk := by
    rw [Stun.answers_iff, and_iff_left hmarked]
    change Stun.typeOf d = _ ↔ _
    rw [htype]
    cases f with
    | udpEcho | dnsOk | ntpOk | stunOk | turnOk => decide
  constructor
  · intro h
    exact hanswers.mp (receive_eq_ok_iff.mp h).1
  · rintro rfl
    have hheader := hanswers.mpr rfl
    rw [Fixture.answerTo, Option.ite_none_right_eq_some] at hd
    obtain ⟨hlong, hd⟩ := hd
    have hd := (Option.some.inj hd).symm
    have hlength : ([0x01, 0x13, 0x00, 0x08] ++
        ((Stun.buildHeader msgAllocateRequest 8 txid ++
          buildRequestedTransportAttribute).drop 4).take 16).length =
            Stun.headerLen := by
      rw [List.length_append, List.length_take, List.length_drop,
        Stun.headerLen]
      simp only [List.length_cons, List.length_nil]
      omega
    have hfits : d.length ≤ bufSize := by
      rw [hd, List.length_append, hlength]
      decide
    rw [receive_eq hfits,
      validateAllocateErrorResponse_eq_ok_iff hheader]
    exact ⟨4, 1, carries_answer hlength hd, rfl⟩

theorem Ntp.receive_answerTo_iff (hd : f.answerTo buildRequest = some d) :
    receive d = .ok () ↔ f = .ntpOk := by
  rw [receive_eq_ok_iff]
  cases f with
  | udpEcho =>
      obtain rfl := Option.some.inj hd
      decide
  | dnsOk | ntpOk | stunOk | turnOk =>
      rw [Fixture.answerTo, if_pos (by decide)] at hd
      obtain rfl := Option.some.inj hd
      decide

/-- An answer to the request of a ping satisfies it exactly if it comes from
the server for it. -/
theorem Probe.receive_answer_iff {p : Probe} (hq : p.request = .ok q)
    (hd : f.answer q = some d) :
    p.receive d = .ok () ↔ f = p.pinger.fixture := by
  rw [answer_request hq] at hd
  obtain ⟨pinger, now⟩ := p
  cases pinger with
  | udp =>
      obtain rfl := Except.ok.inj hq
      refine iff_of_true rfl ?_
      cases f with
      | udpEcho => rfl
      | dnsOk | ntpOk | stunOk | turnOk => cases hd
  | dns query recordType =>
      obtain ⟨question, hbytes, hle⟩ := Dns.exists_request hq
      have hreceive : receive ⟨.dns query recordType, now⟩ d =
          Dns.receive d q (Dns.randomId now) := by
        rw [receive]
        dsimp only
        rw [hq, Outcome.bind_ok]
      rw [hreceive]
      exact Dns.receive_answerTo_iff hle hbytes hd
  | ntp =>
      obtain rfl := Except.ok.inj hq
      exact Ntp.receive_answerTo_iff hd
  | stun =>
      obtain rfl := Except.ok.inj hq
      exact Stun.receive_answerTo_iff hd
  | turn =>
      obtain rfl := Except.ok.inj ((Turn.allocateRequest_eq _).symm.trans hq)
      exact Turn.receive_answerTo_iff hd

/-- How long a datagram must be for a fixture to answer it. -/
def Testserver.Fixture.Serves (length : ℕ) : Fixture → Prop
  | .udpEcho => True
  | .dnsOk => 12 ≤ length
  | .ntpOk => length = 48
  | .stunOk | .turnOk => 20 ≤ length

theorem Testserver.Fixture.exists_answerTo_iff :
    (∃ d, f.answerTo q = some d) ↔ f.Serves q.length := by
  cases f with
  | udpEcho => exact iff_of_true ⟨q, rfl⟩ trivial
  | dnsOk | ntpOk | stunOk | turnOk =>
      simp only [answerTo, Option.ite_none_right_eq_some, Serves,
        Option.some.injEq, exists_and_left, exists_eq', and_true]

/-- The server for a ping answers it. -/
theorem Probe.exists_answer {p : Probe} (hq : p.request = .ok q) :
    ∃ d, p.pinger.fixture.answer q = some d := by
  rw [answer_request hq, Fixture.exists_answerTo_iff]
  obtain ⟨pinger, now⟩ := p
  cases pinger with
  | udp => exact trivial
  | dns query recordType =>
      obtain ⟨question, rfl, -⟩ := Dns.exists_request hq
      rw [List.length_append]
      exact Nat.le_add_right 12 _
  | ntp =>
      obtain rfl := Except.ok.inj hq
      exact Ntp.length_buildRequest
  | stun =>
      obtain rfl := Except.ok.inj hq
      exact (Stun.length_buildHeader _ _ _).ge
  | turn =>
      obtain rfl := Except.ok.inj ((Turn.allocateRequest_eq _).symm.trans hq)
      rw [List.length_append, Stun.length_buildHeader]
      exact Nat.le_add_right 20 _

/-! ## Runs -/

section Runs

variable {ι π : Type} {probes : ι → Probe} {port : ι → π}
  {foreign : Set (π × Bytes)} {i : ι}
  {w : World ι π Buffer Bytes (Outcome Unit)}

/-- The pings at their ports.  A request that cannot be built is reported
without one. -/
def clients (probes : ι → Probe) (port : ι → π) :
    Clients ι π Bytes (Outcome Unit) where
  port := port
  opening i := (probes i).request.mapError Except.error
  judge i := (probes i).receive

theorem opening_eq_ok_iff :
    (clients probes port).opening i = .ok q ↔ (probes i).request = .ok q := by
  change (probes i).request.mapError Except.error = _ ↔ _
  cases (probes i).request with
  | error e => exact iff_of_false (by rintro ⟨⟩) (by rintro ⟨⟩)
  | ok q' =>
      exact ⟨fun h => congrArg _ (Except.ok.inj h),
        fun h => congrArg _ (Except.ok.inj h)⟩

theorem opening_ne_error_ok (v : Unit) :
    (clients probes port).opening i ≠ .error (.ok v) := by
  change (probes i).request.mapError Except.error ≠ _
  cases (probes i).request with
  | error e => exact fun h => by cases h
  | ok q => exact fun h => by cases h

variable [DecidableEq ι]

/-- A ping that has ended had nothing to send, or was answered. -/
theorem verdict_cases
    (hw : Datagram.Reachable f.responder (clients probes port) foreign w)
    (halone : Alone (clients probes port) foreign i) {v : Outcome Unit}
    (hi : w.phase i = .ended v) :
    (v ≠ .ok () ∧ ∀ q, (probes i).request ≠ .ok q) ∨
      (v = .ok () ↔ f = (probes i).pinger.fixture) ∧
        ∃ q, (probes i).request = .ok q := by
  obtain herror | ⟨q, d, hq, hd, rfl⟩ :=
    hw.verdict_of_alone f.answers halone hi
  · refine .inl ⟨?_, fun q hq => ?_⟩
    · rintro rfl
      exact opening_ne_error_ok () herror
    · rw [opening_eq_ok_iff.mpr hq] at herror
      cases herror
  · have hrequest := opening_eq_ok_iff.mp hq
    exact .inr ⟨Probe.receive_answer_iff hrequest hd, q, hrequest⟩

/-- A ping has sent its request, and there has been other traffic. -/
theorem exists_busy (f : Fixture) (probes : ι → Probe) (port : ι → π) (j : ι)
    {x : π × Bytes} (hq : (probes j).request = .ok q) (hx : x ∈ foreign) :
    ∃ w, Datagram.Reachable f.responder (clients probes port) foreign w ∧
      w.responder = some f.responder.start ∧
      w.phase = Function.update (fun _ => .ready) j .waiting ∧
      x ∈ w.asked := by
  have hstart : Datagram.Reachable f.responder (clients probes port) foreign
      (World.start f.responder) := .refl
  have hsent := hstart.tail (.send j rfl (opening_eq_ok_iff.mpr hq))
  exact ⟨_, hsent.tail (.disturb hx), rfl, rfl, .inl rfl⟩

/-- Two pings. -/
def pair (p p' : Probe) : Bool → Probe
  | false => p
  | true => p'

/-- A port for each of them. -/
def ownPort : Bool → ℕ
  | false => 1
  | true => 2

/-- A datagram that none of them has sent. -/
def stray : ℕ × Bytes := (9, [7])

theorem alone_pair {p p' : Probe} :
    Alone (clients (pair p p') ownPort) {stray} false where
  clients j hj := by
    cases j with
    | false => rfl
    | true => cases hj
  foreign d hd := by cases hd

/-- The server for a ping can serve it, without any effect on the others. -/
theorem exists_success {s : Buffer}
    (hw : Datagram.Reachable f.responder (clients probes port) foreign w)
    (hs : w.responder = some s)
    (hi : w.phase i = .ready ∨ w.phase i = .waiting)
    (hq : (probes i).request = .ok q) (hf : f = (probes i).pinger.fixture) :
    ∃ w', Relation.ReflTransGen
        (Step f.responder (clients probes port) foreign) w w' ∧
      w'.phase = Function.update w.phase i (.ended (.ok ())) := by
  subst hf
  obtain ⟨d, hd⟩ := Probe.exists_answer hq
  obtain ⟨w', hrun, hphase⟩ := hw.exists_verdict
    (Fixture.answers (probes i).pinger.fixture) hs hi
    (opening_eq_ok_iff.mpr hq) hd
  have hok : (clients probes port).judge i d = .ok () :=
    (Probe.receive_answer_iff hq hd).mpr rfl
  rw [hok] at hphase
  exact ⟨w', hrun, hphase⟩

end Runs

end KnockKnock
