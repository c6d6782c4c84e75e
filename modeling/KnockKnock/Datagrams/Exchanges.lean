import KnockKnock.Datagrams.Verdicts

/-!
# Whose answer a datagram is

A port may see the answers to several pings, one after the other or from
several sockets.  STUN and TURN pings mark their requests with the clock, DNS
queries with sixteen bits of it and with the question.  What these marks are
worth is which pings one datagram can satisfy.
-/

namespace KnockKnock

open Datagram Testserver Wire

variable {f : Fixture} {q q' d x : Bytes}

/-! ## Marks -/

namespace Stun

/-- The cookie, byte by byte. -/
theorem Marked.getD {txid : TransactionId} (h : Marked d txid) {i : ℕ}
    (hi : i < 4) : d.getD (4 + i) 0 = [0x21, 0x12, 0xA4, 0x42].getD i 0 := by
  have hcookie : bigEndian 4 magicCookie.toNat = [0x21, 0x12, 0xA4, 0x42] := by
    decide +kernel
  have hget := congrArg (List.getD · i 0) h
  rw [hcookie, List.getD_append _ _ _ _ hi] at hget
  rw [← hget, List.getD_eq_getElem?_getD, List.getD_eq_getElem?_getD,
    List.getElem?_take_of_lt (by omega), List.getElem?_drop]

/-- The word in which DNS counts its questions is that of the cookie. -/
theorem Marked.wordAt_ne {txid : TransactionId} (h : Marked d txid) :
    Dns.wordAt d 4 ≠ 1 := by
  have hfirst := h.getD (i := 0) (by decide)
  have hsecond := h.getD (i := 1) (by decide)
  rw [Dns.wordAt, hfirst, hsecond]
  decide

/-- The marks of a request are those of a STUN or TURN ping of the same
time. -/
theorem marked_request_iff {p : Probe} (hq : p.request = .ok q)
    {txid : TransactionId} :
    Marked q txid ↔ (p.pinger = .stun ∨ p.pinger = .turn) ∧
      txid = randomTransactionId p.now := by
  have hfirst : Marked q txid → q.getD 4 0 = 0x21 :=
    fun h => h.getD (i := 0) (by decide)
  obtain ⟨pinger, now⟩ := p
  cases pinger with
  | udp =>
      obtain rfl := Except.ok.inj hq
      refine iff_of_false (fun h => ?_) (by simp)
      exact absurd (hfirst h) (by decide)
  | dns query recordType =>
      obtain ⟨question, rfl, -⟩ := Dns.exists_request hq
      refine iff_of_false (fun h => ?_) (by simp)
      exact absurd (hfirst h) (by decide : (0 : UInt8) ≠ 0x21)
  | ntp =>
      obtain rfl := Except.ok.inj hq
      refine iff_of_false (fun h => ?_) (by simp)
      exact absurd (hfirst h) (by decide)
  | stun =>
      obtain rfl := Except.ok.inj hq
      have hmarked : Marked (bindingRequest (randomTransactionId now))
          (randomTransactionId now) := by
        have h := marked_buildHeader msgBindingRequest 0
          (randomTransactionId now) []
        rw [List.append_nil] at h
        exact h
      rw [and_iff_right (.inl rfl)]
      exact ⟨fun h => h.unique hmarked, fun h => h ▸ hmarked⟩
  | turn =>
      obtain rfl := Except.ok.inj ((Turn.allocateRequest_eq _).symm.trans hq)
      have hmarked := marked_buildHeader Turn.msgAllocateRequest 8
        (randomTransactionId now) Turn.buildRequestedTransportAttribute
      rw [and_iff_right (.inr rfl)]
      exact ⟨fun h => h.unique hmarked, fun h => h ▸ hmarked⟩

end Stun

namespace Dns

/-- Questions at the front of the same bytes are the same. -/
theorem question_unique {id id' : UInt16} {query query' : Text}
    {recordType recordType' : RecordType}
    (hq : request id query recordType = .ok q)
    (hq' : request id' query' recordType' = .ok q')
    (h : q.drop 12 <+: x) (h' : q'.drop 12 <+: x) :
    recordType = recordType' ∧ trimDots query = trimDots query' := by
  have hbuild : ∀ {id : UInt16} {query : Text} {recordType : RecordType}
      {bytes : Bytes}, request id query recordType = .ok bytes →
        buildQuery id query recordType.code = .ok bytes := by
    intro id query recordType bytes hbytes
    rw [request] at hbytes
    split at hbytes
    · cases hbytes
    · exact hbytes
  obtain ⟨labels, hlabels, hquestion⟩ := buildQuery_spec (hbuild hq)
  obtain ⟨labels', hlabels', hquestion'⟩ := buildQuery_spec (hbuild hq')
  rw [hquestion] at h
  rw [hquestion'] at h'
  have hsame := encodeQuestion_selfDelimiting.eq_of_prefix h h'
  obtain ⟨rfl, hcode⟩ := Prod.mk.inj hsame
  refine ⟨RecordType.code_injective hcode, ?_⟩
  calc
    trimDots query = ['.'].intercalate ((trimDots query).splitOn '.') :=
      (List.intercalate_splitOn '.').symm
    _ = ['.'].intercalate ((trimDots query').splitOn '.') := by
      rw [hlabels, hlabels']
    _ = trimDots query' := List.intercalate_splitOn '.'

/-- What is asked depends on the name up to its final dots. -/
theorem request_congr {id : UInt16} {query query' : Text}
    {recordType : RecordType} (hq : request id query recordType = .ok q)
    (hq' : request id query' recordType = .ok q')
    (h : trimDots query = trimDots query') : q = q' := by
  obtain ⟨-, qname, hname, rfl⟩ := request_eq_ok_iff.mp hq
  obtain ⟨-, qname', hname', rfl⟩ := request_eq_ok_iff.mp hq'
  rw [encodeName, h] at hname
  rw [encodeName] at hname'
  rw [Except.ok.inj (hname.symm.trans hname')]

theorem length_request {id : UInt16} {query : Text} {recordType : RecordType}
    (hq : request id query recordType = .ok q) :
    12 ≤ q.length ∧ q.length ≤ bufSize := by
  obtain ⟨question, rfl, hle⟩ := exists_request hq
  simp only [List.length_append, toBeBytes, List.length_cons, List.length_nil,
    bufSize]
  omega

/-- The response flag is not set in what a pinger sends. -/
theorem flag_request {p : Probe} (hq : p.request = .ok q) :
    wordAt q 2 >>> 15 ≠ 1 := by
  obtain ⟨pinger, now⟩ := p
  cases pinger with
  | udp =>
      obtain rfl := Except.ok.inj hq
      decide
  | dns query recordType =>
      obtain ⟨question, rfl, -⟩ := exists_request hq
      exact (by decide : fromBeBytes 1 0 >>> 15 ≠ 1)
  | ntp =>
      obtain rfl := Except.ok.inj hq
      decide
  | stun =>
      obtain rfl := Except.ok.inj hq
      exact (by decide : fromBeBytes 0 0 >>> 15 ≠ 1)
  | turn =>
      obtain rfl := Except.ok.inj ((Turn.allocateRequest_eq _).symm.trans hq)
      exact (by decide : fromBeBytes 0 8 >>> 15 ≠ 1)

theorem wordAt_set_ne {i j : ℕ} (b : UInt8) (h : j ≠ i) (h' : j ≠ i + 1) :
    wordAt (d.set j b) i = wordAt d i := by
  simp only [wordAt, List.getD_eq_getElem?_getD, List.getElem?_set_ne h,
    List.getElem?_set_ne h']

/-- Only the DNS server sets the response flag. -/
theorem flag_answerTo (hf : f ≠ .dnsOk) (hd : f.answerTo q = some d)
    (h : wordAt d 2 >>> 15 = 1) : wordAt q 2 >>> 15 = 1 := by
  cases f with
  | udpEcho =>
      obtain rfl := Option.some.inj hd
      exact h
  | dnsOk => exact absurd rfl hf
  | ntpOk =>
      rw [Fixture.answerTo, Option.ite_none_right_eq_some] at hd
      obtain rfl := Option.some.inj hd.2
      rw [wordAt_set_ne _ (by decide) (by decide),
        wordAt_set_ne _ (by decide) (by decide)] at h
      exact h
  | stunOk =>
      rw [Fixture.answerTo, Option.ite_none_right_eq_some] at hd
      obtain rfl := Option.some.inj hd.2
      exact absurd h (by decide : fromBeBytes 0 0 >>> 15 ≠ 1)
  | turnOk =>
      rw [Fixture.answerTo, Option.ite_none_right_eq_some] at hd
      obtain rfl := Option.some.inj hd.2
      exact absurd h (by decide : fromBeBytes 0 8 >>> 15 ≠ 1)

/-- A query asks one question, the other requests ask another number of
them. -/
theorem wordAt_request_iff {p : Probe} (hq : p.request = .ok q) :
    wordAt q 4 = 1 ↔ ∃ query recordType, p.pinger = .dns query recordType := by
  have hmarked : ∀ {p : Probe}, p.request = .ok q →
      p.pinger = .stun ∨ p.pinger = .turn → wordAt q 4 ≠ 1 :=
    fun hq hp => ((Stun.marked_request_iff hq).mpr ⟨hp, rfl⟩).wordAt_ne
  obtain ⟨pinger, now⟩ := p
  cases pinger with
  | udp =>
      obtain rfl := Except.ok.inj hq
      exact iff_of_false (by decide) (by simp)
  | dns query recordType =>
      obtain ⟨question, rfl, -⟩ := exists_request hq
      exact iff_of_true (by decide : fromBeBytes 0 1 = 1)
        ⟨query, recordType, rfl⟩
  | ntp =>
      obtain rfl := Except.ok.inj hq
      exact iff_of_false (by decide) (by simp)
  | stun => exact iff_of_false (hmarked hq (.inl rfl)) (by simp)
  | turn => exact iff_of_false (hmarked hq (.inr rfl)) (by simp)

/-- The identifier stands at the front of a query. -/
theorem wordAt_zero_request {id : UInt16} {query : Text}
    {recordType : RecordType} (hq : request id query recordType = .ok q) :
    wordAt q 0 = id := by
  obtain ⟨question, rfl, -⟩ := exists_request hq
  exact fromBeBytes_toBeBytes id

end Dns

/-! ## One request behind each success -/

/-- Two pings that cannot be told apart by their answers: STUN or TURN pings
at one reading of the clock, or DNS queries of one identifier and one
question. -/
inductive SameExchange : Probe → Probe → Prop where
  | transaction {p p' : Probe} (hp : p.pinger = .stun ∨ p.pinger = .turn)
      (hp' : p'.pinger = .stun ∨ p'.pinger = .turn)
      (hnow : p.now.getD .zero = p'.now.getD .zero) : SameExchange p p'
  | question {query query' : Text} (recordType : Dns.RecordType)
      {now now' : Option SinceEpoch}
      (hid : Dns.randomId now = Dns.randomId now')
      (hquery : Dns.trimDots query = Dns.trimDots query') :
      SameExchange ⟨.dns query recordType, now⟩ ⟨.dns query' recordType, now'⟩

namespace Probe

variable {p p' : Probe}

/-- What satisfies a STUN or TURN ping carries its mark. -/
theorem marked_of_receive (hp : p.pinger = .stun ∨ p.pinger = .turn)
    (h : p.receive d = .ok ()) :
    Stun.Marked d (Stun.randomTransactionId p.now) := by
  obtain ⟨pinger, now⟩ := p
  obtain rfl | rfl := hp
  · exact (Stun.receive_eq_ok_iff.mp h).2
  · exact (Stun.answers_iff.mp (Turn.receive_eq_ok_iff.mp h).1).2

theorem receive_dns {query : Text} {recordType : Dns.RecordType}
    {now : Option SinceEpoch}
    (hq : Dns.request (Dns.randomId now) query recordType = .ok q) (d : Bytes) :
    receive ⟨.dns query recordType, now⟩ d =
      Dns.receive d q (Dns.randomId now) := by
  have hrequest : request ⟨.dns query recordType, now⟩ = .ok q := hq
  rw [receive]
  dsimp only
  rw [hrequest, Outcome.bind_ok]

/-- An answer to another request satisfies a STUN, TURN or DNS ping only if
both are the same exchange. -/
theorem sameExchange_of_answer (hq : p.request = .ok q)
    (hq' : p'.request = .ok q') (hd : f.answer q' = some d)
    (h : p.receive d = .ok ()) (hudp : p.pinger ≠ .udp)
    (hntp : p.pinger ≠ .ntp) : SameExchange p p' := by
  rw [answer_request hq'] at hd
  have htransaction : p.pinger = .stun ∨ p.pinger = .turn →
      SameExchange p p' := by
    intro hp
    have hmarked := (Stun.marked_answerTo_iff hd _).mp (marked_of_receive hp h)
    obtain ⟨hp', hid⟩ := (Stun.marked_request_iff hq').mp hmarked
    exact .transaction hp hp' (Stun.randomTransactionId_inj.mp hid)
  obtain ⟨pinger, now⟩ := p
  cases pinger with
  | udp => exact absurd rfl hudp
  | ntp => exact absurd rfl hntp
  | stun => exact htransaction (.inl rfl)
  | turn => exact htransaction (.inr rfl)
  | dns query recordType =>
      rw [receive_dns hq, Dns.receive_eq_ok_iff (Dns.length_request hq).2] at h
      obtain ⟨-, hid, hflag, -, hcount, -, hecho⟩ := h
      by_cases hf : f = .dnsOk
      swap
      · exact absurd (Dns.flag_answerTo hf hd hflag) (Dns.flag_request hq')
      subst hf
      rw [Fixture.answerTo, Option.ite_none_right_eq_some] at hd
      obtain rfl := Option.some.inj hd.2
      rw [Dns.wordAt_set_ne _ (by decide) (by decide),
        Dns.wordAt_set_ne _ (by decide) (by decide)] at hid hcount
      rw [List.drop_set_of_lt (by decide),
        List.drop_set_of_lt (by decide)] at hecho
      obtain ⟨query', recordType', hp'⟩ :=
        (Dns.wordAt_request_iff hq').mp hcount
      obtain ⟨pinger', now'⟩ := p'
      dsimp only at hp'
      subst hp'
      rw [Dns.wordAt_zero_request hq'] at hid
      obtain ⟨rfl, hquery⟩ := Dns.question_unique hq hq' hecho List.prefix_rfl
      exact .question recordType hid.symm hquery

end Probe

section Runs

variable {ι π : Type} [DecidableEq ι] {probes : ι → Probe} {port : ι → π}
  {foreign : Set (π × Bytes)} {i : ι}
  {w : World ι π Buffer Bytes (Outcome Unit)}

/-- The datagram answers a request that a ping of the same exchange has sent
from the port of `i`, and no ping of another exchange has such a request. -/
structure AnswersExchange (f : Fixture) (probes : ι → Probe) (port : ι → π)
    (w : World ι π Buffer Bytes (Outcome Unit)) (i : ι) (d : Bytes) : Prop where
  sent : ∃ j q, port j = port i ∧ w.phase j ≠ .ready ∧
    (probes j).request = .ok q ∧ (port i, q) ∈ w.asked ∧
    f.answer q = some d ∧ SameExchange (probes i) (probes j)
  only : ∀ j q, (probes j).request = .ok q → f.answer q = some d →
    SameExchange (probes i) (probes j)

/-- However many pings use a port, a STUN, TURN or DNS ping that succeeds there
has received a datagram that satisfies it, and every such datagram is the
answer to a ping of the same exchange. -/
theorem sameExchange_of_success
    (hw : Datagram.Reachable f.responder (clients probes port) foreign w)
    (hforeign : ∀ d, (port i, d) ∉ foreign)
    (hi : w.phase i = .ended (.ok ()))
    (hudp : (probes i).pinger ≠ .udp) (hntp : (probes i).pinger ≠ .ntp) :
    (∃ d, (port i, d) ∈ w.answered ∧ (probes i).receive d = .ok ()) ∧
    ∀ d, (port i, d) ∈ w.answered → (probes i).receive d = .ok () →
      AnswersExchange f probes port w i d := by
  obtain herror | ⟨q, d, hopening, hd, hok⟩ := hw.accounted.ended i _ hi
  · exact absurd herror (opening_ne_error_ok ())
  have hq := opening_eq_ok_iff.mp hopening
  refine ⟨⟨d, hd, hok.symm⟩, fun d hd hok => ?_⟩
  have honly : ∀ j q', (probes j).request = .ok q' → f.answer q' = some d →
      SameExchange (probes i) (probes j) := fun j q' hq' hanswer =>
    Probe.sameExchange_of_answer hq hq' hanswer hok hudp hntp
  obtain ⟨s, q', hs, hasked, hserve⟩ := hw.accounted.answered _ hd
  rw [f.answers s hs] at hserve
  obtain hother | ⟨j, hj, hport, hq'⟩ := hw.accounted.asked _ hasked
  · exact absurd hother (hforeign q')
  have hrequest := opening_eq_ok_iff.mp hq'
  exact ⟨⟨j, q', hport, hj, hrequest, hasked, hserve, honly j q' hrequest hserve⟩,
    honly⟩

/-- A STUN ping one second past the epoch. -/
def lateStun : Probe := ⟨.stun, some { SinceEpoch.zero with secs := 1 }⟩

/-- It waits at the port of a STUN ping at the epoch, which has succeeded; there
is other traffic. -/
theorem sameExchange_of_success_stun :
    ∃ w : World Bool ℕ Buffer Bytes (Outcome Unit),
      stray ∈ w.asked ∧ w.phase true = .waiting ∧
      w.phase false = .ended (.ok ()) ∧
      (∃ d, (1, d) ∈ w.answered ∧ Probe.receive ⟨.stun, none⟩ d = .ok ()) ∧
      ∀ d, (1, d) ∈ w.answered → Probe.receive ⟨.stun, none⟩ d = .ok () →
        AnswersExchange .stunOk (pair ⟨.stun, none⟩ lateStun) (fun _ => 1) w
          false d := by
  obtain ⟨w, hw, hs, hphase, hstray⟩ := exists_busy .stunOk
    (pair ⟨.stun, none⟩ lateStun) (fun _ => 1) true rfl
    (Set.mem_singleton stray)
  obtain ⟨w', hrun, hphase'⟩ := exists_success (i := false) hw hs
    (.inl (congrFun hphase false)) rfl rfl
  have hended := congrFun hphase' false
  rw [Function.update_self] at hended
  have hwaiting : w'.phase true = .waiting :=
    (congrFun hphase' true).trans (congrFun hphase true)
  exact ⟨w', asked_subset hrun hstray, hwaiting, hended,
    sameExchange_of_success (hw.trans hrun) (fun d hd => by cases hd) hended
      nofun nofun⟩

end Runs

/-! ## Which pings one datagram satisfies -/

theorem high_fromBeBytes (a b : UInt8) :
    (fromBeBytes a b >>> 8).toUInt8 = a := by
  have ha := a.toNat_lt
  have hb := b.toNat_lt
  have hword : (fromBeBytes a b).toNat = a.toNat * 256 + b.toNat := by
    rw [fromBeBytes, UInt16.toNat_ofNat']
    omega
  rw [← UInt8.toNat_inj, UInt16.toNat_toUInt8, UInt16.toNat_shiftRight, hword]
  change (a.toNat * 256 + b.toNat) >>> 8 % 256 = a.toNat
  rw [Nat.shiftRight_eq_div_pow]
  omega

/-- One datagram may satisfy both: it goes through any UDP ping, is any NTP
answer, answers a query under an identifier that begins like an NTP answer, or
belongs to one exchange. -/
inductive Mixes : Probe → Probe → Prop where
  | any {p p' : Probe} (h : p.pinger = .udp) : Mixes p p'
  | ntp {p p' : Probe} (h : p.pinger = .ntp) (h' : p'.pinger = .ntp) :
      Mixes p p'
  | padded {p : Probe} (h : p.pinger = .ntp) {query : Text}
      {recordType : Dns.RecordType} {now : Option SinceEpoch} {q : Bytes}
      (hq : Probe.request ⟨.dns query recordType, now⟩ = .ok q)
      (hid : Ntp.FromServer (Dns.randomId now >>> 8).toUInt8)
      (hlength : q.length ≤ Ntp.packetLen) :
      Mixes p ⟨.dns query recordType, now⟩
  | transaction {p p' : Probe} (hp : p.pinger = .stun ∨ p.pinger = .turn)
      (hp' : p.pinger = p'.pinger)
      (hnow : p.now.getD .zero = p'.now.getD .zero) : Mixes p p'
  | question {query query' : Text} (recordType : Dns.RecordType)
      {now now' : Option SinceEpoch}
      (hid : Dns.randomId now = Dns.randomId now')
      (hquery : Dns.trimDots query = Dns.trimDots query') :
      Mixes ⟨.dns query recordType, now⟩ ⟨.dns query' recordType, now'⟩

section Common

variable {p p' : Probe}

/-- A response to a query in a packet as long as an NTP answer. -/
theorem exists_padded {query : Text} {recordType : Dns.RecordType}
    {now : Option SinceEpoch}
    (hq : Probe.request ⟨.dns query recordType, now⟩ = .ok q)
    (hid : Ntp.FromServer (Dns.randomId now >>> 8).toUInt8)
    (hlength : q.length ≤ Ntp.packetLen) :
    ∃ d, Ntp.receive d = .ok () ∧
      Probe.receive ⟨.dns query recordType, now⟩ d = .ok () := by
  obtain ⟨question, hbytes, -⟩ := Dns.exists_request hq
  obtain ⟨a, b, hword⟩ : ∃ a b, toBeBytes (Dns.randomId now) = [a, b] :=
    ⟨_, _, rfl⟩
  have hvalue : fromBeBytes a b = Dns.randomId now := by
    obtain ⟨rfl, hlow⟩ := List.cons.inj hword
    obtain ⟨rfl, -⟩ := List.cons.inj hlow
    exact fromBeBytes_toBeBytes _
  rw [hword] at hbytes
  have hlong : q.length = 12 + question.length := by
    rw [hbytes]
    simp only [List.length_append, List.length_cons, List.length_nil]
  have hpacket : Ntp.packetLen = 48 := rfl
  refine ⟨[a, b] ++ [0x80, 0, 0, 1, 0, 0, 0, 0, 0, 0] ++ (question ++
    List.replicate (36 - question.length) 0), ?_, ?_⟩
  · rw [Ntp.receive_eq_ok_iff]
    constructor
    · simp only [List.length_append, List.length_cons, List.length_nil,
        List.length_replicate]
      omega
    · rw [← hvalue, high_fromBeBytes] at hid
      exact hid
  · rw [Probe.receive_dns hq,
      Dns.receive_eq_ok_iff (Dns.length_request hq).2]
    refine ⟨?_, hvalue, ?_, ?_, ?_, (Dns.length_request hq).1, ?_⟩
    · rw [List.length_append]
      exact Nat.le_add_right 12 _
    · exact (by decide : fromBeBytes 0x80 0 >>> 15 = 1)
    · exact (by decide : fromBeBytes 0x80 0 &&& 0x000F = 0)
    · exact (by decide : fromBeBytes 0 1 = 1)
    · rw [hbytes]
      exact List.prefix_append _ _

/-- What the server for a ping answers satisfies it. -/
theorem Probe.exists_receive (hq : p.request = .ok q) :
    ∃ d, p.receive d = .ok () := by
  obtain ⟨d, hd⟩ := exists_answer hq
  exact ⟨d, (receive_answer_iff hq hd).mpr rfl⟩

theorem Mixes.exists_common (h : Mixes p p') (hq : p.request = .ok q)
    (hq' : p'.request = .ok q') :
    ∃ d, p.receive d = .ok () ∧ p'.receive d = .ok () := by
  obtain ⟨d, hd⟩ := Probe.exists_receive hq'
  cases h with
  | any h =>
      obtain ⟨pinger, now⟩ := p
      obtain rfl : pinger = .udp := h
      exact ⟨d, rfl, hd⟩
  | ntp h h' =>
      obtain ⟨pinger, now⟩ := p
      obtain ⟨pinger', now'⟩ := p'
      obtain rfl : pinger = .ntp := h
      obtain rfl : pinger' = .ntp := h'
      exact ⟨d, hd, hd⟩
  | padded h hrequest hid hlength =>
      obtain ⟨pinger, now⟩ := p
      obtain rfl : pinger = .ntp := h
      exact exists_padded hrequest hid hlength
  | transaction hp hp' hnow =>
      have hid := Stun.randomTransactionId_inj.mpr hnow
      obtain ⟨pinger, now⟩ := p
      obtain ⟨pinger', now'⟩ := p'
      obtain rfl : pinger = pinger' := hp'
      refine ⟨d, ?_, hd⟩
      obtain rfl | rfl := hp
      · exact (congrArg (Stun.receive d) hid).trans hd
      · exact (congrArg (Turn.receive d) hid).trans hd
  | question recordType hid hquery =>
      rw [Probe.receive_dns hq'] at hd
      refine ⟨d, ?_, by rw [Probe.receive_dns hq', hd]⟩
      have hsame : Dns.request (Dns.randomId _) _ recordType = .ok q := hq
      rw [hid] at hsame
      rw [Probe.receive_dns hq, Dns.request_congr hsame hq' hquery, hid, hd]

/-- The first byte of a STUN or TURN answer is no NTP answer's. -/
theorem not_fromServer_of_receive (hp : p.pinger = .stun ∨ p.pinger = .turn)
    (h : p.receive d = .ok ()) : ¬Ntp.FromServer (d.getD 0 0) := by
  have htype : Stun.typeOf d = 0x0101 ∨ Stun.typeOf d = 0x0113 := by
    obtain ⟨pinger, now⟩ := p
    obtain rfl | rfl := hp
    · exact .inl (Stun.receive_eq_ok_iff.mp h).1
    · exact .inr (Stun.answers_iff.mp (Turn.receive_eq_ok_iff.mp h).1).1
  have hfirst := high_fromBeBytes (d.getD 0 0) (d.getD 1 0)
  change (Stun.typeOf d >>> 8).toUInt8 = _ at hfirst
  obtain htype | htype := htype
  · rw [← hfirst, htype]
    decide
  · rw [← hfirst, htype]
    decide

/-- Marked answers go to one transaction, of one of the two protocols. -/
theorem mixes_of_marked (hp : p.pinger = .stun ∨ p.pinger = .turn)
    (hp' : p'.pinger = .stun ∨ p'.pinger = .turn) (h : p.receive d = .ok ())
    (h' : p'.receive d = .ok ()) : Mixes p p' := by
  have hid := (Probe.marked_of_receive hp h).unique
    (Probe.marked_of_receive hp' h')
  refine .transaction hp ?_ (Stun.randomTransactionId_inj.mp hid)
  obtain ⟨pinger, now⟩ := p
  obtain ⟨pinger', now'⟩ := p'
  obtain rfl | rfl := hp <;> obtain rfl | rfl := hp'
  · rfl
  · have htype := (Stun.receive_eq_ok_iff.mp h).1
    have htype' := (Turn.receive_eq_ok_iff.mp h').1.type
    exact absurd (htype.symm.trans htype') (by decide)
  · have htype := (Turn.receive_eq_ok_iff.mp h).1.type
    have htype' := (Stun.receive_eq_ok_iff.mp h').1
    exact absurd (htype.symm.trans htype') (by decide)
  · rfl

/-- A query goes with another for the same question, or in an NTP packet. -/
theorem mixes_of_query {query : Text} {recordType : Dns.RecordType}
    {now : Option SinceEpoch}
    (hq : Probe.request ⟨.dns query recordType, now⟩ = .ok q)
    (hq' : p'.request = .ok q')
    (h : Probe.receive ⟨.dns query recordType, now⟩ d = .ok ())
    (h' : p'.receive d = .ok ()) :
    Mixes ⟨.dns query recordType, now⟩ p' ∨
      Mixes p' ⟨.dns query recordType, now⟩ := by
  rw [Probe.receive_dns hq,
    Dns.receive_eq_ok_iff (Dns.length_request hq).2] at h
  obtain ⟨-, hid, -, -, hcount, -, hecho⟩ := h
  have hunmarked : ¬(p'.pinger = .stun ∨ p'.pinger = .turn) :=
    fun hp' => (Probe.marked_of_receive hp' h').wordAt_ne hcount
  obtain ⟨pinger', now'⟩ := p'
  cases pinger' with
  | udp => exact .inr (.any rfl)
  | dns query' recordType' =>
      rw [Probe.receive_dns hq',
        Dns.receive_eq_ok_iff (Dns.length_request hq').2] at h'
      obtain ⟨-, hid', -, -, -, -, hecho'⟩ := h'
      obtain ⟨rfl, hquery⟩ := Dns.question_unique hq hq' hecho hecho'
      exact .inl (.question recordType (hid.symm.trans hid') hquery)
  | ntp =>
      obtain ⟨hlength, hfirst⟩ := Ntp.receive_eq_ok_iff.mp h'
      refine .inr (.padded rfl hq ?_ ?_)
      · have hhigh := high_fromBeBytes (d.getD 0 0) (d.getD 1 0)
        change (Dns.wordAt d 0 >>> 8).toUInt8 = _ at hhigh
        rw [← hid, hhigh]
        exact hfirst
      · have hle := hecho.length_le
        have hlong := (Dns.length_request hq).1
        rw [List.length_drop, List.length_drop, hlength] at hle
        rw [Ntp.packetLen] at hle ⊢
        omega
  | stun => exact absurd (.inl rfl) hunmarked
  | turn => exact absurd (.inr rfl) hunmarked

/-- What one datagram satisfies, in one of the two orders. -/
theorem mixes_of_common (hq : p.request = .ok q) (hq' : p'.request = .ok q')
    (h : p.receive d = .ok ()) (h' : p'.receive d = .ok ()) :
    Mixes p p' ∨ Mixes p' p := by
  -- The three kinds of answers to STUN and TURN, to NTP, and to queries.
  by_cases hp : p.pinger = .stun ∨ p.pinger = .turn
  · by_cases hp' : p'.pinger = .stun ∨ p'.pinger = .turn
    · exact .inl (mixes_of_marked hp hp' h h')
    obtain ⟨pinger', now'⟩ := p'
    cases pinger' with
    | udp => exact .inr (.any rfl)
    | dns query recordType => exact (mixes_of_query hq' hq h' h).symm
    | ntp =>
        exact absurd (Ntp.receive_eq_ok_iff.mp h').2
          (not_fromServer_of_receive hp h)
    | stun => exact absurd (.inl rfl) hp'
    | turn => exact absurd (.inr rfl) hp'
  obtain ⟨pinger, now⟩ := p
  cases pinger with
  | udp => exact .inl (.any rfl)
  | dns query recordType => exact mixes_of_query hq hq' h h'
  | ntp =>
      by_cases hp' : p'.pinger = .stun ∨ p'.pinger = .turn
      · exact absurd (Ntp.receive_eq_ok_iff.mp h).2
          (not_fromServer_of_receive hp' h')
      obtain ⟨pinger', now'⟩ := p'
      cases pinger' with
      | udp => exact .inr (.any rfl)
      | dns query recordType => exact (mixes_of_query hq' hq h' h).symm
      | ntp => exact .inl (.ntp rfl rfl)
      | stun => exact absurd (.inl rfl) hp'
      | turn => exact absurd (.inr rfl) hp'
  | stun => exact absurd (.inl rfl) hp
  | turn => exact absurd (.inr rfl) hp

/-- One datagram satisfies two pings exactly when they mix: STUN and TURN
pings only with the like of one clock reading, queries only with the like of
one identifier and one question, or in a packet as long as an NTP answer. -/
theorem exists_common_iff (hq : p.request = .ok q) (hq' : p'.request = .ok q') :
    (∃ d, p.receive d = .ok () ∧ p'.receive d = .ok ()) ↔
      Mixes p p' ∨ Mixes p' p := by
  constructor
  · rintro ⟨d, h, h'⟩
    exact mixes_of_common hq hq' h h'
  · rintro (h | h)
    · exact h.exists_common hq hq'
    · obtain ⟨d, hd', hd⟩ := h.exists_common hq' hq
      exact ⟨d, hd, hd'⟩

/-- A STUN and a TURN ping at the epoch. -/
theorem exists_common_iff_stun_turn :
    (∃ d, Probe.receive ⟨.stun, none⟩ d = .ok () ∧
        Probe.receive ⟨.turn, none⟩ d = .ok ()) ↔
      Mixes ⟨.stun, none⟩ ⟨.turn, none⟩ ∨ Mixes ⟨.turn, none⟩ ⟨.stun, none⟩ :=
  exists_common_iff rfl (Turn.allocateRequest_eq _)

end Common

end KnockKnock
