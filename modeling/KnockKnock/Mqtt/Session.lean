import Mathlib.Data.Nat.Bitwise
import Mathlib.Tactic.Ring
import KnockKnock.Mqtt.Connect
import KnockKnock.Session
import KnockKnock.Support.Numeral

/-!
# The MQTT session

`run_session` sends CONNECT, waits for an accepted CONNACK, sends PINGREQ,
waits for an accepted PINGRESP and sends DISCONNECT.  The broker may send
anything, in any segments; `run_runSession` says which streams end well and
what has been written in each case.
-/

namespace KnockKnock

open ByteStream Numeral Wire

namespace Mqtt

structure MqttPacket where
  packetType : UInt8
  body : Bytes
deriving DecidableEq, Repr

/-- `a.saturating_mul(b)` on `usize`. -/
def saturatingMul (a b : ℕ) : ℕ := min (a * b) (2 ^ 64 - 1)

/-- `let mut body = vec![0u8; remaining]`, filled when it is not empty. -/
def readBody (remaining : ℕ) : Session Bytes :=
  if 0 < remaining then Session.readExact remaining else pure []

/-- The loop over the digits of the remaining length. -/
def readRemaining (header : UInt8) :
    ℕ → ℕ → ℕ → Session MqttPacket
  | 0, _, _ =>
      Session.lift (Outcome.fail .other
        "MQTT remaining-length varint exceeds 4 bytes".toList)
  | rounds + 1, multiplier, remaining => do
      let byte ← Session.readExact 1
      let b := byte.headD 0
      let remaining := remaining + (b &&& 0x7F).toNat * multiplier
      if b &&& 0x80 = 0 then
        let body ← readBody remaining
        pure ⟨header, body⟩
      else
        readRemaining header rounds (saturatingMul multiplier 128) remaining

def readPacket : Session MqttPacket := do
  let header ← Session.readExact 1
  readRemaining (header.headD 0) 4 1 0

def validateConnack (packet : MqttPacket) : Outcome Unit :=
  if packet.packetType &&& 0xF0 ≠ 0x20 then
    Outcome.fail .other ("expected CONNACK (0x20), got packet type ".toList ++
      hex packet.packetType.toNat)
  else
    match packet.body with
    | _ :: returnCode :: _ =>
        if returnCode ≠ 0 then
          Outcome.fail .other
            ("broker rejected CONNECT with return code ".toList ++
              decimal returnCode.toNat)
        else pure ()
    | _ =>
        Outcome.fail .other
          "CONNACK body shorter than 2 bytes (flags + return code)".toList

def validatePingresp (packet : MqttPacket) : Outcome Unit :=
  if packet.packetType &&& 0xF0 ≠ 0xD0 then
    Outcome.fail .other
      ("expected PINGRESP (0xD0), got packet type ".toList ++
        hex packet.packetType.toNat)
  else if packet.body ≠ [] then
    Outcome.fail .other "PINGRESP must carry no payload".toList
  else pure ()

/-- `default_client_id`, at `nanos` nanoseconds past the second. -/
def defaultClientId (nanos : ℕ) : Text :=
  let digits := Nat.toDigits 16 nanos
  "knockknock-".toList ++ (List.replicate (8 - digits.length) '0' ++ digits)

/-- `[TYPE_PINGREQ, 0x00]` -/
def pingreq : Bytes := [0xC0, 0x00]

/-- `[TYPE_DISCONNECT, 0x00]` -/
def disconnect : Bytes := [0xE0, 0x00]

def runSession (nanos : ℕ) (clientId : Option Text) (keepalive : UInt16)
    (version : MqttVersion) : Session Unit := do
  let cid := clientId.getD (defaultClientId nanos)
  Session.writeAll (buildConnect cid keepalive version)
  let connack ← readPacket
  Session.lift (validateConnack connack)
  Session.writeAll pingreq
  let pingresp ← readPacket
  Session.lift (validatePingresp pingresp)
  Session.writeAll disconnect

/-! ## Packets -/

/-- A complete packet: a header byte, the length of the body in one to four
digits, and the body. -/
def MqttPacket.Spelled (packet : MqttPacket) (bytes : Bytes) : Prop :=
  ∃ digits, bytes = packet.packetType :: (digits ++ packet.body) ∧
    Varint.Digits digits ∧ digits.length ≤ 4 ∧
      Varint.value digits = packet.body.length

/-- The complete packet at the front of a byte string. -/
def takePacket (bytes : Bytes) : Option (MqttPacket × Bytes) := do
  let (header, bytes) ← takeByte bytes
  let (remaining, bytes) ← Varint.take 4 bytes
  let (body, rest) ← takeExact remaining bytes
  pure (⟨header, body⟩, rest)

theorem takePacket_eq_some_iff {bytes rest : Bytes} {packet : MqttPacket} :
    takePacket bytes = some (packet, rest) ↔
      ∃ spelled, bytes = spelled ++ rest ∧ packet.Spelled spelled := by
  constructor
  · intro h
    obtain ⟨⟨header, bs⟩, hbyte, h⟩ := Option.bind_eq_some_iff.mp h
    obtain ⟨⟨remaining, bs'⟩, htake, h⟩ := Option.bind_eq_some_iff.mp h
    obtain ⟨⟨body, bs''⟩, hexact, h⟩ := Option.bind_eq_some_iff.mp h
    obtain ⟨rfl, rfl⟩ := Prod.mk.inj (Option.some.inj h)
    obtain ⟨digits, rfl, hdigits, hle, rfl⟩ := Varint.take_eq_some_iff.mp htake
    obtain ⟨rfl, hlength⟩ := takeExact_eq_some_iff.mp hexact
    obtain ⟨c, cs, rfl⟩ : ∃ c cs, bytes = c :: cs := by
      cases bytes with
      | nil => cases hbyte
      | cons c cs => exact ⟨c, cs, rfl⟩
    obtain ⟨rfl, rfl⟩ := Prod.mk.inj (Option.some.inj hbyte)
    exact ⟨c :: (digits ++ body), by simp, digits, rfl, hdigits, hle,
      hlength.symm⟩
  · rintro ⟨spelled, rfl, digits, rfl, hdigits, hle, hvalue⟩
    have htake : Varint.take 4 (digits ++ (packet.body ++ rest)) =
        some (packet.body.length, packet.body ++ rest) :=
      Varint.take_eq_some_iff.mpr ⟨digits, rfl, hdigits, hle, hvalue⟩
    simp [takePacket, htake]

/-! ## Reading a packet -/

theorem and_low_bits (b : UInt8) : (b &&& 0x7F).toNat = b.toNat % 128 := by
  rw [UInt8.toNat_and]
  exact Nat.and_two_pow_sub_one_eq_mod b.toNat 7

theorem and_top_bit (b : UInt8) : b &&& 0x80 = 0 ↔ b.toNat < 128 := by
  have hb := b.toNat_lt
  rw [← UInt8.toNat_inj, UInt8.toNat_and]
  change b.toNat &&& 2 ^ 7 = 0 ↔ _
  rw [Nat.and_two_pow]
  have hbit : b.toNat.testBit 7 = true ↔ ¬b.toNat < 128 := by
    rw [Nat.testBit_eq_decide_div_mod_eq, decide_eq_true_eq]
    omega
  cases htest : b.toNat.testBit 7 <;> simp_all

theorem saturatingMul_eq {a b : ℕ} (h : a * b < 2 ^ 64) :
    saturatingMul a b = a * b := by
  unfold saturatingMul
  omega

theorem takeExact_one_cons (b : UInt8) (bs : Bytes) :
    takeExact 1 (b :: bs) = some ([b], bs) :=
  takeExact_eq_some_iff.mpr ⟨rfl, rfl⟩

/-- The body is read only when there is one. -/
theorem run_readBody_ok {n : ℕ} {c : Duplex} {body rest : Bytes}
    (h : takeExact n c.incoming.bytes = some (body, rest)) :
    ∃ c', Session.run (readBody n) c = (.ok body, c') ∧
      c'.incoming.bytes = rest ∧ c'.written = c.written := by
  unfold readBody
  split
  · exact Session.run_readExact_ok h
  next hn =>
    obtain ⟨hbytes, hlength⟩ := takeExact_eq_some_iff.mp h
    obtain rfl : body = [] := List.eq_nil_of_length_eq_zero (by omega)
    exact ⟨c, rfl, hbytes, rfl⟩

theorem run_readBody_error {n : ℕ} {c : Duplex}
    (h : takeExact n c.incoming.bytes = none) :
    ∃ e c', Session.run (readBody n) c = (.error e, c') ∧
      c'.written = c.written := by
  have hn : 0 < n := by
    by_contra hn
    rw [takeExact, if_pos (by omega)] at h
    cases h
  rw [readBody, if_pos hn]
  exact Session.run_readExact_error h

/-- One round of the loop: the last digit leads to the body, any other one to
the next round. -/
theorem run_readRemaining_succ (header : UInt8) (rounds remaining : ℕ)
    {multiplier : ℕ} (hsmall : multiplier * 128 < 2 ^ 64)
    {c : Duplex} {b : UInt8} {bs : Bytes} (hbytes : c.incoming.bytes = b :: bs) :
    ∃ c₁, c₁.incoming.bytes = bs ∧ c₁.written = c.written ∧
      Session.run (readRemaining header (rounds + 1) multiplier remaining) c =
        Session.run
          (if b.toNat < 128 then do
            let body ← readBody (remaining + b.toNat % 128 * multiplier)
            pure ⟨header, body⟩
          else
            readRemaining header rounds (multiplier * 128)
              (remaining + b.toNat % 128 * multiplier)) c₁ := by
  obtain ⟨c₁, hrun, hrest, hwritten⟩ := Session.run_readExact_ok
    (by rw [hbytes]; exact takeExact_one_cons b bs :
      takeExact 1 c.incoming.bytes = some ([b], bs))
  refine ⟨c₁, hrest, hwritten, ?_⟩
  rw [readRemaining, Session.run_bind_ok hrun]
  simp only [List.headD_cons, and_low_bits, and_top_bit,
    saturatingMul_eq hsmall]

/-- The loop succeeds on the digits that `Varint.take` accepts. -/
theorem run_readRemaining_ok {header : UInt8} {rounds multiplier remaining : ℕ}
    (hsmall : multiplier * 128 ^ rounds < 2 ^ 64) {c : Duplex} {v : ℕ}
    {bs body rest : Bytes}
    (htake : Varint.take rounds c.incoming.bytes = some (v, bs))
    (hbody : takeExact (remaining + v * multiplier) bs = some (body, rest)) :
    ∃ c', Session.run (readRemaining header rounds multiplier remaining) c =
        (.ok ⟨header, body⟩, c') ∧
      c'.incoming.bytes = rest ∧ c'.written = c.written := by
  induction rounds generalizing c multiplier remaining v with
  | zero => simp [Varint.take] at htake
  | succ rounds ih =>
      have hsmall' : multiplier * 128 * 128 ^ rounds < 2 ^ 64 := by
        rwa [Nat.mul_assoc, ← Nat.pow_succ']
      have hstep : multiplier * 128 < 2 ^ 64 :=
        lt_of_le_of_lt (Nat.le_mul_of_pos_right _
          (Nat.pow_pos (by decide))) hsmall'
      cases hbytes : c.incoming.bytes with
      | nil => simp [hbytes, Varint.take] at htake
      | cons b bs₁ =>
          rw [hbytes] at htake
          obtain ⟨c₁, hrest, hwritten, hrun⟩ :=
            run_readRemaining_succ header rounds remaining hstep hbytes
          rw [hrun, ← hwritten]
          by_cases hb : b.toNat < 128
          · simp only [Varint.take, hb, if_true, Option.some.injEq,
              Prod.mk.injEq] at htake
            obtain ⟨rfl, rfl⟩ := htake
            rw [if_pos hb, Nat.mod_eq_of_lt hb]
            rw [← hrest] at hbody
            obtain ⟨c', hread, hc', hw'⟩ := run_readBody_ok hbody
            exact ⟨c', by rw [Session.run_bind_ok hread]; rfl, hc', hw'⟩
          · simp only [Varint.take, hb, if_false, Option.map_eq_some_iff,
              Prod.mk.injEq, Prod.exists] at htake
            obtain ⟨v', bs', htake, rfl, rfl⟩ := htake
            rw [if_neg hb]
            refine ih hsmall' (by rw [hrest]; exact htake) ?_
            rw [← hbody]
            congr 1
            ring

theorem run_readRemaining_error {header : UInt8}
    {rounds multiplier remaining : ℕ}
    (hsmall : multiplier * 128 ^ rounds < 2 ^ 64) {c : Duplex}
    (h : ∀ v bs, Varint.take rounds c.incoming.bytes = some (v, bs) →
      takeExact (remaining + v * multiplier) bs = none) :
    ∃ e c', Session.run (readRemaining header rounds multiplier remaining) c =
        (.error e, c') ∧ c'.written = c.written := by
  induction rounds generalizing c multiplier remaining with
  | zero => exact ⟨_, c, rfl, rfl⟩
  | succ rounds ih =>
      have hsmall' : multiplier * 128 * 128 ^ rounds < 2 ^ 64 := by
        rwa [Nat.mul_assoc, ← Nat.pow_succ']
      have hstep : multiplier * 128 < 2 ^ 64 :=
        lt_of_le_of_lt (Nat.le_mul_of_pos_right _
          (Nat.pow_pos (by decide))) hsmall'
      cases hbytes : c.incoming.bytes with
      | nil =>
          obtain ⟨e, c', hrun, hwritten⟩ := Session.run_readExact_error
            (by rw [hbytes]; rfl : takeExact 1 c.incoming.bytes = none)
          exact ⟨e, c', by rw [readRemaining, Session.run_bind_error hrun],
            hwritten⟩
      | cons b bs =>
          rw [hbytes] at h
          obtain ⟨c₁, hrest, hwritten, hrun⟩ :=
            run_readRemaining_succ header rounds remaining hstep hbytes
          rw [hrun, ← hwritten]
          by_cases hb : b.toNat < 128
          · have hbody := h b.toNat bs (by simp [Varint.take, hb])
            rw [if_pos hb, Nat.mod_eq_of_lt hb]
            rw [← hrest] at hbody
            obtain ⟨e, c', hread, hw'⟩ := run_readBody_error hbody
            exact ⟨e, c', by rw [Session.run_bind_error hread], hw'⟩
          · rw [if_neg hb]
            apply ih hsmall'
            intro v bs' htake
            rw [hrest] at htake
            rw [← h (b.toNat % 128 + 128 * v) bs'
              (by simp [Varint.take, hb, htake])]
            congr 1
            ring

theorem takePacket_cons (header : UInt8) (bs : Bytes) :
    takePacket (header :: bs) =
      (Varint.take 4 bs).bind fun (remaining, bs) =>
        (takeExact remaining bs).bind fun (body, rest) =>
          some (⟨header, body⟩, rest) := rfl

/-- Reading a packet takes a complete one off the stream. -/
theorem run_readPacket_ok {c : Duplex} {packet : MqttPacket} {rest : Bytes}
    (h : takePacket c.incoming.bytes = some (packet, rest)) :
    ∃ c', Session.run readPacket c = (.ok packet, c') ∧
      c'.incoming.bytes = rest ∧ c'.written = c.written := by
  cases hbytes : c.incoming.bytes with
  | nil => simp [hbytes, takePacket, takeByte] at h
  | cons header bs =>
      rw [hbytes, takePacket_cons] at h
      obtain ⟨⟨v, bs'⟩, htake, h⟩ := Option.bind_eq_some_iff.mp h
      obtain ⟨⟨body, rest'⟩, hbody, h⟩ := Option.bind_eq_some_iff.mp h
      obtain ⟨rfl, rfl⟩ := Prod.mk.inj (Option.some.inj h)
      obtain ⟨c₁, hrun, hrest, hwritten⟩ := Session.run_readExact_ok
        (by rw [hbytes]; exact takeExact_one_cons header bs :
          takeExact 1 c.incoming.bytes = some ([header], bs))
      rw [readPacket, Session.run_bind_ok hrun, ← hwritten]
      exact run_readRemaining_ok (by decide) (by rw [hrest]; exact htake)
        (by simpa using hbody)

theorem run_readPacket_error {c : Duplex}
    (h : takePacket c.incoming.bytes = none) :
    ∃ e c', Session.run readPacket c = (.error e, c') ∧
      c'.written = c.written := by
  cases hbytes : c.incoming.bytes with
  | nil =>
      obtain ⟨e, c', hrun, hwritten⟩ := Session.run_readExact_error
        (by rw [hbytes]; rfl : takeExact 1 c.incoming.bytes = none)
      exact ⟨e, c', by rw [readPacket, Session.run_bind_error hrun],
        hwritten⟩
  | cons header bs =>
      rw [hbytes, takePacket_cons] at h
      obtain ⟨c₁, hrun, hrest, hwritten⟩ := Session.run_readExact_ok
        (by rw [hbytes]; exact takeExact_one_cons header bs :
          takeExact 1 c.incoming.bytes = some ([header], bs))
      rw [readPacket, Session.run_bind_ok hrun, ← hwritten]
      apply run_readRemaining_error (by decide)
      intro v bs' htake
      rw [hrest] at htake
      rw [htake, Option.bind_some] at h
      have hbody := Option.bind_eq_none_iff.mp h
      by_contra hsome
      obtain ⟨⟨body, rest⟩, hexact⟩ := Option.ne_none_iff_exists'.mp hsome
      have hnone := hbody (body, rest) (by simpa using hexact)
      cases hnone

/-! ## Accepted packets -/

/-- Type nibble 2, at least two body bytes, and the second one 0. -/
def IsConnack (packet : MqttPacket) : Prop :=
  packet.packetType &&& 0xF0 = 0x20 ∧
    ∃ flags rest, packet.body = flags :: 0 :: rest

/-- Type nibble 13 and no body. -/
def IsPingresp (packet : MqttPacket) : Prop :=
  packet.packetType &&& 0xF0 = 0xD0 ∧ packet.body = []

theorem validateConnack_eq_ok_iff {packet : MqttPacket} :
    validateConnack packet = .ok () ↔ IsConnack packet := by
  unfold validateConnack IsConnack
  by_cases htype : packet.packetType &&& 0xF0 = 0x20
  · rw [if_neg (not_not_intro htype)]
    split
    next flags code rest hbody =>
      by_cases hcode : code = 0
      · rw [if_neg (not_not_intro hcode)]
        exact iff_of_true rfl ⟨htype, flags, rest, by rw [hbody, hcode]⟩
      · rw [if_pos hcode]
        refine iff_of_false (by rintro ⟨⟩) ?_
        rintro ⟨-, flags', rest', hbody'⟩
        rw [hbody] at hbody'
        exact hcode (List.cons.inj (List.cons.inj hbody').2).1
    next hshort =>
      refine iff_of_false (by rintro ⟨⟩) ?_
      rintro ⟨-, flags, rest, hbody⟩
      exact hshort flags 0 rest hbody
  · rw [if_pos htype]
    exact iff_of_false (by rintro ⟨⟩) fun h => htype h.1

theorem validatePingresp_eq_ok_iff {packet : MqttPacket} :
    validatePingresp packet = .ok () ↔ IsPingresp packet := by
  unfold validatePingresp IsPingresp
  by_cases htype : packet.packetType &&& 0xF0 = 0xD0
  · rw [if_neg (not_not_intro htype)]
    by_cases hbody : packet.body = []
    · rw [if_neg (not_not_intro hbody)]
      exact iff_of_true rfl ⟨htype, hbody⟩
    · rw [if_pos hbody]
      exact iff_of_false (by rintro ⟨⟩) fun h => hbody h.2
  · rw [if_pos htype]
    exact iff_of_false (by rintro ⟨⟩) fun h => htype h.1

/-- `bytes` begins with a complete packet that is accepted, and `rest` is what
follows it. -/
def BeginsWith (accepted : MqttPacket → Prop) (bytes rest : Bytes) : Prop :=
  ∃ packet spelled, bytes = spelled ++ rest ∧ packet.Spelled spelled ∧
    accepted packet

theorem beginsWith_iff {accepted : MqttPacket → Prop} {bytes rest : Bytes} :
    BeginsWith accepted bytes rest ↔
      ∃ packet, takePacket bytes = some (packet, rest) ∧ accepted packet := by
  constructor
  · rintro ⟨packet, spelled, hbytes, hspelled, haccepted⟩
    exact ⟨packet, takePacket_eq_some_iff.mpr ⟨spelled, hbytes, hspelled⟩,
      haccepted⟩
  · rintro ⟨packet, htake, haccepted⟩
    obtain ⟨spelled, hbytes, hspelled⟩ := takePacket_eq_some_iff.mp htake
    exact ⟨packet, spelled, hbytes, hspelled, haccepted⟩

/-! ## The session -/

/-- An accepted packet at the front is taken off the stream, and the session
goes on. -/
theorem run_expect_ok {accepted : MqttPacket → Prop}
    {validate : MqttPacket → Outcome Unit}
    (hvalidate : ∀ p, validate p = .ok () ↔ accepted p) (next : Session Unit)
    {c : Duplex} {rest : Bytes}
    (h : BeginsWith accepted c.incoming.bytes rest) :
    ∃ c', c'.incoming.bytes = rest ∧ c'.written = c.written ∧
      Session.run (do
        let packet ← readPacket
        Session.lift (validate packet)
        next) c = Session.run next c' := by
  obtain ⟨packet, htake, haccepted⟩ := beginsWith_iff.mp h
  obtain ⟨c', hrun, hrest, hwritten⟩ := run_readPacket_ok htake
  refine ⟨c', hrest, hwritten, ?_⟩
  have hlift : Session.run (Session.lift (validate packet)) c' =
      (.ok (), c') := by
    rw [Session.run_lift, (hvalidate packet).mpr haccepted]
  rw [Session.run_bind_ok hrun, Session.run_bind_ok hlift]

/-- Anything else ends the session, and nothing more is written. -/
theorem run_expect_error {accepted : MqttPacket → Prop}
    {validate : MqttPacket → Outcome Unit}
    (hvalidate : ∀ p, validate p = .ok () ↔ accepted p) (next : Session Unit)
    {c : Duplex} (h : ¬∃ rest, BeginsWith accepted c.incoming.bytes rest) :
    ∃ e c', c'.written = c.written ∧
      Session.run (do
        let packet ← readPacket
        Session.lift (validate packet)
        next) c = (.error e, c') := by
  cases htake : takePacket c.incoming.bytes with
  | none =>
      obtain ⟨e, c', hrun, hwritten⟩ := run_readPacket_error htake
      exact ⟨e, c', hwritten, Session.run_bind_error hrun⟩
  | some taken =>
      obtain ⟨packet, rest⟩ := taken
      obtain ⟨c', hrun, -, hwritten⟩ := run_readPacket_ok htake
      have hrejected : ¬accepted packet := fun haccepted =>
        h ⟨rest, beginsWith_iff.mpr ⟨packet, htake, haccepted⟩⟩
      cases hverdict : validate packet with
      | ok u => exact absurd ((hvalidate packet).mp hverdict) hrejected
      | error e =>
          refine ⟨e, c', hwritten, ?_⟩
          have hlift : Session.run (Session.lift (validate packet)) c' =
              (.error e, c') := by
            rw [Session.run_lift, hverdict]
          rw [Session.run_bind_ok hrun, Session.run_bind_error hlift]

/-- The second half of `run_session`. -/
def exchangePing : Session Unit := do
  Session.writeAll pingreq
  let pingresp ← readPacket
  Session.lift (validatePingresp pingresp)
  Session.writeAll disconnect

theorem run_exchangePing_ok {c : Duplex} {rest : Bytes}
    (h : BeginsWith IsPingresp c.incoming.bytes rest) :
    ∃ c', Session.run exchangePing c = (.ok (), c') ∧
      c'.written = c.written ++ pingreq ++ disconnect := by
  let c₁ : Duplex := { c with written := c.written ++ pingreq }
  obtain ⟨c₂, -, hwritten, hrun⟩ := run_expect_ok
    (fun _ => validatePingresp_eq_ok_iff) (Session.writeAll disconnect)
    (c := c₁) h
  refine ⟨{ c₂ with written := c₂.written ++ disconnect }, ?_, ?_⟩
  · exact (Session.run_bind_ok (Session.run_writeAll pingreq c)).trans hrun
  · rw [hwritten]

theorem run_exchangePing_error {c : Duplex}
    (h : ¬∃ rest, BeginsWith IsPingresp c.incoming.bytes rest) :
    ∃ e c', Session.run exchangePing c = (.error e, c') ∧
      c'.written = c.written ++ pingreq := by
  let c₁ : Duplex := { c with written := c.written ++ pingreq }
  obtain ⟨e, c₂, hwritten, hrun⟩ := run_expect_error
    (fun _ => validatePingresp_eq_ok_iff) (Session.writeAll disconnect)
    (c := c₁) h
  exact ⟨e, c₂, (Session.run_bind_ok (Session.run_writeAll pingreq c)).trans
    hrun, hwritten⟩

/-- The session ends well exactly on the streams that begin with an accepted
CONNACK and an accepted PINGRESP, however they arrive; PINGREQ is written only
after the one and DISCONNECT only after the other. -/
theorem run_runSession (nanos : ℕ) (clientId : Option Text)
    (keepalive : UInt16) (version : MqttVersion) (d : Delivery UInt8) :
    let connect := buildConnect (clientId.getD (defaultClientId nanos))
      keepalive version
    let final := Session.run (runSession nanos clientId keepalive version)
      (Session.opened d)
    (final.1 = .ok () ↔ ∃ rest rest', BeginsWith IsConnack d.bytes rest ∧
        BeginsWith IsPingresp rest rest') ∧
      ((¬∃ rest, BeginsWith IsConnack d.bytes rest) →
        final.2.written = connect) ∧
      (∀ rest, BeginsWith IsConnack d.bytes rest →
        (¬∃ rest', BeginsWith IsPingresp rest rest') →
        final.2.written = connect ++ pingreq) ∧
      (final.1 = .ok () →
        final.2.written = connect ++ pingreq ++ disconnect) := by
  intro connect final
  let c : Duplex := ⟨d, connect⟩
  have hfinal : final = Session.run (do
      let connack ← readPacket
      Session.lift (validateConnack connack)
      exchangePing) c :=
    Session.run_bind_ok (Session.run_writeAll connect (Session.opened d))
  by_cases hconnack : ∃ rest, BeginsWith IsConnack d.bytes rest
  · obtain ⟨rest, hrest⟩ := hconnack
    obtain ⟨c₁, hc₁, hw₁, hrun₁⟩ := run_expect_ok
      (fun _ => validateConnack_eq_ok_iff) exchangePing (c := c) hrest
    rw [hrun₁] at hfinal
    -- The packet at the front is one packet, so `rest` is the only rest.
    have hunique : ∀ rest', BeginsWith IsConnack d.bytes rest' →
        rest' = rest := by
      intro rest' hrest'
      obtain ⟨_, htake, -⟩ := beginsWith_iff.mp hrest
      obtain ⟨_, htake', -⟩ := beginsWith_iff.mp hrest'
      rw [htake] at htake'
      exact (Prod.mk.inj (Option.some.inj htake')).2.symm
    by_cases hpingresp : ∃ rest', BeginsWith IsPingresp rest rest'
    · obtain ⟨rest', hrest'⟩ := hpingresp
      obtain ⟨c₂, hrun₂, hw₂⟩ := run_exchangePing_ok (c := c₁)
        (by rw [hc₁]; exact hrest')
      rw [hrun₂] at hfinal
      rw [hfinal]
      refine ⟨iff_of_true rfl ⟨rest, rest', hrest, hrest'⟩,
        fun hnone => absurd ⟨rest, hrest⟩ hnone, ?_, ?_⟩
      · intro other hother hnone
        rw [hunique other hother] at hnone
        exact absurd ⟨rest', hrest'⟩ hnone
      · rw [hw₂, hw₁]
        exact fun _ => rfl
    · obtain ⟨e, c₂, hrun₂, hw₂⟩ := run_exchangePing_error (c := c₁)
        (by rw [hc₁]; exact hpingresp)
      rw [hrun₂] at hfinal
      rw [hfinal]
      refine ⟨iff_of_false (by rintro ⟨⟩) ?_,
        fun hnone => absurd ⟨rest, hrest⟩ hnone, ?_, by rintro ⟨⟩⟩
      · rintro ⟨other, rest', hother, hrest'⟩
        rw [hunique other hother] at hrest'
        exact hpingresp ⟨rest', hrest'⟩
      · rw [hw₂, hw₁]
        exact fun _ _ _ => rfl
  · obtain ⟨e, c₁, hw₁, hrun₁⟩ := run_expect_error
      (fun _ => validateConnack_eq_ok_iff) exchangePing (c := c) hconnack
    rw [hrun₁] at hfinal
    rw [hfinal]
    refine ⟨iff_of_false (by rintro ⟨⟩) ?_, fun _ => hw₁, ?_, by rintro ⟨⟩⟩
    · rintro ⟨rest, -, hrest, -⟩
      exact hconnack ⟨rest, hrest⟩
    · intro rest hrest
      exact absurd ⟨rest, hrest⟩ hconnack

end Mqtt

end KnockKnock
