import KnockKnock.Mqtt.Session

/-!
# A stream of MQTT packets

`frame` puts the length of a body in front of it as `encode_varint` writes it,
and `read_packet` takes one packet after another off the stream: the packets
come back whole, whatever follows them.  A body too long for four digits is
refused, and no remaining length that is read comes near the end of a `usize`.
-/

namespace KnockKnock

open ByteStream Wire

namespace Mqtt

/-- `[packet_type] ++ encode_varint(body.len()) ++ body` -/
def MqttPacket.frame (packet : MqttPacket) : Bytes :=
  packet.packetType :: (encodeVarint packet.body.length ++ packet.body)

/-- `read_packet`, again and again. -/
def readPackets : ℕ → Session (List MqttPacket)
  | 0 => pure []
  | n + 1 => do
      let packet ← readPacket
      let packets ← readPackets n
      pure (packet :: packets)

/-! ## Arithmetic with overflow checks -/

/-- A value of a `usize` that holds the numbers below `limit`. -/
def checked (limit n : ℕ) : Session ℕ :=
  if n < limit then pure n else Session.lift (.error .panic)

/-- `readRemaining`, with the overflow checks of a debug build. -/
def readRemainingChecked (limit : ℕ) (header : UInt8) :
    ℕ → ℕ → ℕ → Session MqttPacket
  | 0, _, _ =>
      Session.lift (Outcome.fail .other
        "MQTT remaining-length varint exceeds 4 bytes".toList)
  | rounds + 1, multiplier, remaining => do
      let byte ← Session.readExact 1
      let b := byte.headD 0
      let digit ← checked limit ((b &&& 0x7F).toNat * multiplier)
      let remaining ← checked limit (remaining + digit)
      if b &&& 0x80 = 0 then
        let body ← readBody remaining
        pure ⟨header, body⟩
      else
        readRemainingChecked limit header rounds
          (saturatingMul multiplier 128) remaining

def readPacketChecked (limit : ℕ) : Session MqttPacket := do
  let header ← Session.readExact 1
  readRemainingChecked limit (header.headD 0) 4 1 0

/-- Four digits stay below `2 ^ 28`, so no check fails. -/
theorem readRemainingChecked_eq {limit : ℕ} (hlimit : 2 ^ 28 ≤ limit)
    (header : UInt8) {rounds multiplier remaining : ℕ}
    (hmultiplier : multiplier * 128 ^ rounds ≤ 2 ^ 28)
    (hremaining : remaining < multiplier) :
    readRemainingChecked limit header rounds multiplier remaining =
      readRemaining header rounds multiplier remaining := by
  induction rounds generalizing multiplier remaining with
  | zero => rfl
  | succ rounds ih =>
      rw [Nat.pow_succ', ← Nat.mul_assoc] at hmultiplier
      have hpos : 0 < 128 ^ rounds := Nat.pow_pos (by decide)
      have hstep : multiplier * 128 ≤ 2 ^ 28 :=
        le_trans (Nat.le_mul_of_pos_right _ hpos) hmultiplier
      unfold readRemainingChecked readRemaining
      congr 1
      funext byte
      have hdigit : (byte.headD 0 &&& 0x7F).toNat < 128 := by
        rw [and_low_bits]
        exact Nat.mod_lt _ (by decide)
      have hproduct : (byte.headD 0 &&& 0x7F).toNat * multiplier ≤
          127 * multiplier := Nat.mul_le_mul_right _ (by omega)
      dsimp only
      rw [checked, if_pos (by omega), pure_bind, checked, if_pos (by omega),
        pure_bind, saturatingMul_eq (by omega), ih hmultiplier (by omega)]

theorem readPacketChecked_eq {limit : ℕ} (hlimit : 2 ^ 28 ≤ limit) :
    readPacketChecked limit = readPacket := by
  unfold readPacketChecked readPacket
  congr 1
  funext header
  exact readRemainingChecked_eq hlimit _ (by decide) (by decide)

/-! ## Reading frames -/

theorem takePacket_frame {packet : MqttPacket}
    (h : packet.body.length ≤ 268435455) (rest : Bytes) :
    takePacket (packet.frame ++ rest) = some (packet, rest) := by
  refine takePacket_eq_some_iff.mpr ⟨packet.frame, rfl,
    encodeVarint packet.body.length, rfl, ?_⟩
  rw [encodeVarint_eq]
  exact ⟨Varint.digits_encode _,
    Varint.length_encode_le (by decide) (by omega), Varint.value_encode _⟩

theorem run_readPackets {packets : List MqttPacket}
    (h : ∀ packet ∈ packets, packet.body.length ≤ 268435455)
    {suffix : Bytes} {c : Duplex}
    (hbytes : c.incoming.bytes =
      packets.flatMap MqttPacket.frame ++ suffix) :
    ∃ c', Session.run (readPackets packets.length) c = (.ok packets, c') ∧
      c'.incoming.bytes = suffix := by
  induction packets generalizing c with
  | nil => exact ⟨c, rfl, hbytes⟩
  | cons packet packets ih =>
      rw [List.flatMap_cons, List.append_assoc] at hbytes
      obtain ⟨c₁, hread, hrest, -⟩ := run_readPacket_ok
        (by rw [hbytes]; exact takePacket_frame (h packet (by simp)) _ :
          takePacket c.incoming.bytes = some (packet, _))
      obtain ⟨c', hreads, hsuffix⟩ :=
        ih (fun p hp => h p (List.mem_cons_of_mem _ hp)) hrest
      refine ⟨c', ?_, hsuffix⟩
      rw [List.length_cons, readPackets, Session.run_bind_ok hread,
        Session.run_bind_ok hreads]
      rfl

/-! ## Lengths beyond four digits -/

/-- A continuation bit in every round uses up the rounds. -/
theorem run_readRemaining_overlong (header : UInt8) {front bs : Bytes}
    {multiplier remaining : ℕ}
    (hsmall : multiplier * 128 ^ front.length < 2 ^ 64)
    (hfront : ∀ b ∈ front, 128 ≤ b.toNat) {c : Duplex}
    (hbytes : c.incoming.bytes = front ++ bs) :
    ∃ c', Session.run (readRemaining header front.length multiplier remaining)
        c =
      (Outcome.fail .other
        "MQTT remaining-length varint exceeds 4 bytes".toList, c') := by
  induction front generalizing c multiplier remaining with
  | nil => exact ⟨c, rfl⟩
  | cons b front ih =>
      rw [List.length_cons, Nat.pow_succ', ← Nat.mul_assoc] at hsmall
      have hpos : 0 < 128 ^ front.length := Nat.pow_pos (by decide)
      have hstep : multiplier * 128 < 2 ^ 64 :=
        lt_of_le_of_lt (Nat.le_mul_of_pos_right _ hpos) hsmall
      obtain ⟨c₁, hrest, -, hrun⟩ := run_readRemaining_succ header
        front.length remaining hstep hbytes
      have hb := hfront b List.mem_cons_self
      rw [List.length_cons, hrun, if_neg (by omega)]
      exact ih hsmall (fun d hd => hfront d (List.mem_cons_of_mem _ hd)) hrest

theorem run_readPacket_overlong {n : ℕ} (h : 268435455 < n) {header : UInt8}
    {rest : Bytes} {c : Duplex}
    (hbytes : c.incoming.bytes = header :: (encodeVarint n ++ rest)) :
    ∃ c', Session.run readPacket c =
      (Outcome.fail .other
        "MQTT remaining-length varint exceeds 4 bytes".toList, c') := by
  obtain ⟨front, back, hencode, hlength, hfront⟩ :=
    Varint.exists_front_encode (by omega : 128 ^ 4 ≤ n)
  obtain ⟨c₁, hread, hrest, -⟩ := Session.run_readExact_ok
    (by rw [hbytes]; exact takeExact_one_cons header _ :
      takeExact 1 c.incoming.bytes = some ([header], _))
  rw [encodeVarint_eq, hencode, List.append_assoc] at hrest
  rw [readPacket, Session.run_bind_ok hread, ← hlength]
  exact run_readRemaining_overlong _ (by rw [hlength]; decide) hfront hrest

/-! ## The framing -/

/-- What packets, their lengths and the loop that reads them promise. -/
structure Framing : Prop where
  /-- Framed packets are read back, and what follows them is left alone. -/
  roundTrip : ∀ (packets : List MqttPacket) (suffix : Bytes),
    (∀ packet ∈ packets, packet.body.length ≤ 268435455) →
    ∀ d : Delivery UInt8,
      d.bytes = packets.flatMap MqttPacket.frame ++ suffix →
      ∃ c, Session.run (readPackets packets.length) (Session.opened d) =
          (.ok packets, c) ∧ c.incoming.bytes = suffix
  /-- No digits that denote the number are fewer. -/
  shortest : ∀ digits, Varint.Digits digits →
    (encodeVarint (Varint.value digits)).length ≤ digits.length
  /-- They denote the number, in at most four bytes up to the limit. -/
  denotes : ∀ n, Varint.Digits (encodeVarint n) ∧
    Varint.value (encodeVarint n) = n ∧
      (n ≤ 268435455 → (encodeVarint n).length ≤ 4)
  /-- Beyond the limit nothing is read as a packet. -/
  refused : ∀ n, 268435455 < n → ∀ (header : UInt8) (rest : Bytes)
    (d : Delivery UInt8), d.bytes = header :: (encodeVarint n ++ rest) →
      (Session.run readPacket (Session.opened d)).1 =
        Outcome.fail .other
          "MQTT remaining-length varint exceeds 4 bytes".toList
  /-- No sum or product leaves a `usize`, on any input. -/
  bounded : ∀ limit, 2 ^ 28 ≤ limit → ∀ d : Delivery UInt8,
    Session.run (readPacketChecked limit) (Session.opened d) =
      Session.run readPacket (Session.opened d)

theorem framing : Framing where
  roundTrip packets suffix h d hbytes := run_readPackets h hbytes
  shortest digits hdigits := by
    rw [encodeVarint_eq]
    exact Varint.length_encode_value_le hdigits
  denotes n := by
    rw [encodeVarint_eq]
    exact ⟨Varint.digits_encode n, Varint.value_encode n,
      fun h => Varint.length_encode_le (by decide) (by omega)⟩
  refused n h header rest d hbytes := by
    obtain ⟨c, hrun⟩ := run_readPacket_overlong (c := Session.opened d) h hbytes
    rw [hrun]
  bounded limit hlimit d := by rw [readPacketChecked_eq hlimit]

end Mqtt

end KnockKnock
