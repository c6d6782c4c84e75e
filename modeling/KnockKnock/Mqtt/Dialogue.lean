import KnockKnock.Exchange
import KnockKnock.Mqtt.Framing
import KnockKnock.Support.Ending

/-!
# The MQTT pinger and the test broker

`run_session` at one end of a connection and the test server's
`handle_mqtt_session` at the other.  The broker reads packets with a copy of
the client's loop and answers CONNECT and PINGREQ without looking at their
bodies.  Whatever the channels hold and however the bytes are cut, the two end
their session properly.
-/

namespace KnockKnock

open Program Wire

namespace Mqtt

/-! ## The client as a program -/

/-- `let mut body = vec![0u8; remaining]`, filled when it is not empty. -/
def readBodyWith (early : Text) (remaining : ℕ) : Exchange Bytes :=
  if 0 < remaining then Exchange.readExactOr early remaining else pure []

/-- The loop that `read_packet` shares with the test broker. -/
def readRemainingWith {τ : Type} (early : Text) (make : UInt8 → Bytes → τ)
    (header : UInt8) : ℕ → ℕ → ℕ → Exchange τ
  | 0, _, _ =>
      Exchange.lift (Outcome.fail .other
        "MQTT remaining-length varint exceeds 4 bytes".toList)
  | rounds + 1, multiplier, remaining => do
      let byte ← Exchange.readExactOr early 1
      let b := byte.headD 0
      let remaining := remaining + (b &&& 0x7F).toNat * multiplier
      if b &&& 0x80 = 0 then
        let body ← readBodyWith early remaining
        pure (make header body)
      else
        readRemainingWith early make header rounds
          (saturatingMul multiplier 128) remaining

/-- A packet, read as `make` of its type byte and its body. -/
def readPacketWith {τ : Type} (early : Text) (make : UInt8 → Bytes → τ) :
    Exchange τ := do
  let header ← Exchange.readExactOr early 1
  readRemainingWith early make (header.headD 0) 4 1 0

namespace Client

def readPacket : Exchange MqttPacket :=
  readPacketWith "early eof".toList MqttPacket.mk

def runSession (nanos : ℕ) (clientId : Option Text) (keepalive : UInt16)
    (version : MqttVersion) : Exchange Unit := do
  let cid := clientId.getD (defaultClientId nanos)
  Exchange.writeAll (buildConnect cid keepalive version)
  let connack ← readPacket
  Exchange.lift (validateConnack connack)
  Exchange.writeAll pingreq
  let pingresp ← readPacket
  Exchange.lift (validatePingresp pingresp)
  Exchange.ignore (Exchange.writeAll disconnect)

theorem toSession_readRemaining (header : UInt8)
    (rounds multiplier remaining : ℕ) :
    Exchange.toSession (readRemainingWith "early eof".toList MqttPacket.mk
      header rounds multiplier remaining) =
        readRemaining header rounds multiplier remaining := by
  induction rounds generalizing multiplier remaining with
  | zero => rfl
  | succ rounds ih =>
      have hbody : ∀ n, Exchange.toSession
          (readBodyWith "early eof".toList n) = readBody n := by
        intro n
        unfold readBodyWith readBody
        split
        · exact Exchange.toSession_readExact n
        · rfl
      unfold readRemainingWith readRemaining
      rw [Exchange.toSession_bind]
      congr 1
      · exact Exchange.toSession_readExact 1
      · funext byte
        dsimp only
        split
        · rw [Exchange.toSession_bind, hbody]
          rfl
        · exact ih _ _

theorem toSession_readPacket :
    Exchange.toSession readPacket = Mqtt.readPacket := by
  unfold readPacket readPacketWith Mqtt.readPacket
  rw [Exchange.toSession_bind]
  congr 1
  · exact Exchange.toSession_readExact 1
  · funext header
    exact toSession_readRemaining _ _ _ _

/-- On a connection that takes all writes the program is the session. -/
theorem toSession_runSession (nanos : ℕ) (clientId : Option Text)
    (keepalive : UInt16) (version : MqttVersion) :
    Exchange.toSession (runSession nanos clientId keepalive version) =
      Mqtt.runSession nanos clientId keepalive version := by
  simp only [runSession, Mqtt.runSession, Exchange.toSession_bind,
    Exchange.toSession_writeAll, Exchange.toSession_lift,
    Exchange.toSession_ignore_writeAll, toSession_readPacket]

end Client

end Mqtt

/-! ## The broker -/

namespace Testserver

open Mqtt

def readMqttPacket : Exchange (UInt8 × Bytes) :=
  readPacketWith "failed to fill whole buffer".toList Prod.mk

/-- The `return`s of `handle_mqtt_session`. -/
inductive MqttEnding where
  | unreadConnect
  | notConnect
  | unsentConnack
  | unreadPacket
  | unsentPingresp
  | disconnect
  | unknownPacket
deriving DecidableEq, Repr

/-- The session goes round its loop or has returned, and has read these
packets. -/
inductive MqttTurn where
  | again (packets : List (UInt8 × Bytes))
  | returned (ending : MqttEnding) (packets : List (UInt8 × Bytes))
deriving DecidableEq, Repr

/-- CONNACK with return code 0. -/
def connack : Bytes := [0x20, 0x02, 0x00, 0x00]

/-- PINGRESP -/
def pingresp : Bytes := [0xD0, 0x00]

/-- `handle_mqtt_session` up to its loop. -/
def handleMqttSession : Program UInt8 Fault MqttTurn := do
  match ← readMqttPacket.run with
  | .error _ => .done (.returned .unreadConnect [])
  | .ok first =>
      if first.1 &&& 0xF0 ≠ 0x10 then
        .done (.returned .notConnect [first])
      else
        match ← (Exchange.writeAll connack).run with
        | .error _ => .done (.returned .unsentConnack [first])
        | .ok () => .done (.again [first])

/-- The `match` on the type of a packet. -/
def answerMqttPacket (packetType : UInt8) (packets : List (UInt8 × Bytes)) :
    Program UInt8 Fault MqttTurn :=
  if packetType &&& 0xF0 = 0xC0 then do
    match ← (Exchange.writeAll pingresp).run with
    | .error _ => .done (.returned .unsentPingresp packets)
    | .ok () => .done (.again packets)
  else if packetType &&& 0xF0 = 0xE0 then
    .done (.returned .disconnect packets)
  else .done (.returned .unknownPacket packets)

/-- One round of the loop. -/
def serveMqttPacket (packets : List (UInt8 × Bytes)) :
    Program UInt8 Fault MqttTurn := do
  match ← readMqttPacket.run with
  | .error _ => .done (.returned .unreadPacket packets)
  | .ok packet => answerMqttPacket packet.1 (packets ++ [packet])

/-- The loop starts over until the session returns. -/
def loopMqttSession : MqttTurn → Option (Program UInt8 Fault MqttTurn)
  | .again packets => some (serveMqttPacket packets)
  | .returned _ _ => none

/-- A round begins with a read. -/
theorem leavesAtEnd_loopMqttSession {turn : MqttTurn}
    {p : Program UInt8 Fault MqttTurn} (h : loopMqttSession turn = some p) :
    LeavesAtEnd loopMqttSession p := by
  cases turn with
  | again packets =>
      obtain rfl := Option.some.inj h
      exact ⟨nofun, rfl⟩
  | returned ending packets => cases h

end Testserver

namespace Mqtt

/-! ## Packets as they are read -/

theorem consumes_readBodyWith (early : Text) (body : Bytes) :
    Consumes halt (readBodyWith early body.length).run body
      (.done (.ok body)) := by
  unfold readBodyWith
  split
  · exact Exchange.consumes_readExactOr early rfl
  next hempty =>
    obtain rfl := List.eq_nil_of_length_eq_zero (by omega : body.length = 0)
    exact .refl _

/-- The loop consumes the digits of a length and a body of that length. -/
theorem consumes_readRemainingWith {τ : Type} (early : Text)
    (make : UInt8 → Bytes → τ) (header : UInt8) {digits body : Bytes}
    {rounds multiplier remaining : ℕ} (hdigits : Varint.Digits digits)
    (hle : digits.length ≤ rounds) (hsmall : multiplier * 128 ^ rounds < 2 ^ 64)
    (hbody : body.length = remaining + Varint.value digits * multiplier) :
    Consumes halt
      (readRemainingWith early make header rounds multiplier remaining).run
      (digits ++ body) (.done (.ok (make header body))) := by
  induction rounds generalizing digits multiplier remaining with
  | zero =>
      exact absurd (List.eq_nil_of_length_eq_zero (Nat.le_zero.mp hle))
        hdigits.ne_nil
  | succ rounds ih =>
      obtain ⟨b, digits, rfl⟩ := List.exists_cons_of_ne_nil hdigits.ne_nil
      rw [Nat.pow_succ', ← Nat.mul_assoc] at hsmall
      have hstep : multiplier * 128 < 2 ^ 64 :=
        lt_of_le_of_lt (Nat.le_mul_of_pos_right _
          (Nat.pow_pos (by decide))) hsmall
      rw [Varint.value] at hbody
      have hround := Exchange.consumes_readExactOr early
        (rfl : [b].length = 1)
      unfold readRemainingWith
      refine (Exchange.consumes_bind hround _).trans ?_
      dsimp only
      rw [List.headD_cons, and_low_bits, saturatingMul_eq hstep]
      simp only [and_top_bit]
      by_cases hnil : digits = []
      · subst hnil
        obtain ⟨front, last, heq, -, hlast⟩ := hdigits
        obtain rfl : front = [] := by
          simpa using congrArg List.length heq
        obtain rfl : b = last := by simpa using heq
        have hlength : body.length = remaining + b.toNat % 128 * multiplier := by
          simpa [Varint.value] using hbody
        rw [if_pos hlast, ← hlength]
        exact Exchange.consumes_bind (consumes_readBodyWith early body) _
      · obtain ⟨hb, hdigits'⟩ := (Varint.digits_cons_iff hnil).mp hdigits
        rw [if_neg (by omega)]
        refine ih hdigits' (by simpa using hle) hsmall ?_
        rw [hbody]
        ring

/-- A framed packet is consumed whole. -/
theorem consumes_readPacketWith {τ : Type} (early : Text)
    (make : UInt8 → Bytes → τ) {packet : MqttPacket}
    (h : packet.body.length ≤ 268435455) :
    Consumes halt (readPacketWith early make).run packet.frame
      (.done (.ok (make packet.packetType packet.body))) := by
  have hheader := Exchange.consumes_readExactOr early
    (rfl : [packet.packetType].length = 1)
  unfold readPacketWith
  refine (Exchange.consumes_bind hheader _).trans ?_
  rw [encodeVarint_eq]
  exact consumes_readRemainingWith early make _ (Varint.digits_encode _)
    (Varint.length_encode_le (by decide) (by omega)) (by decide)
    (by rw [Varint.value_encode]; omega)

/-! ## The packets of the session -/

/-- The CONNECT packet `build_connect` spells. -/
def connectPacket (clientId : Text) (keepalive : UInt16)
    (version : MqttVersion) : MqttPacket where
  packetType := typeConnect
  body :=
    (toBeBytes (lengthWord mqttProtocolName) ++ mqttProtocolName ++
      [version.protocolLevel] ++ [connectFlagsCleanSession] ++
      toBeBytes keepalive ++ (if version = .v5 then [0x00] else [])) ++
      (toBeBytes (lengthWord (Utf8.encode clientId)) ++ Utf8.encode clientId)

theorem frame_connectPacket (clientId : Text) (keepalive : UInt16)
    (version : MqttVersion) :
    (connectPacket clientId keepalive version).frame =
      buildConnect clientId keepalive version := by
  unfold MqttPacket.frame connectPacket buildConnect
  dsimp only
  rw [List.length_append]

def pingreqPacket : MqttPacket := ⟨0xC0, []⟩

def disconnectPacket : MqttPacket := ⟨0xE0, []⟩

def connackPacket : MqttPacket := ⟨0x20, [0x00, 0x00]⟩

def pingrespPacket : MqttPacket := ⟨0xD0, []⟩

theorem frame_fixed :
    pingreqPacket.frame = pingreq ∧ disconnectPacket.frame = disconnect ∧
      connackPacket.frame = Testserver.connack ∧
        pingrespPacket.frame = Testserver.pingresp := by
  simp [MqttPacket.frame, encodeVarint_eq, Varint.encode, pingreqPacket,
    disconnectPacket, connackPacket, pingrespPacket, pingreq, disconnect,
    Testserver.connack, Testserver.pingresp]

/-- The client waits for a packet it accepts, and goes on. -/
theorem Client.consumes_expect {packet : MqttPacket}
    {validate : MqttPacket → Outcome Unit} (h : packet.body.length ≤ 268435455)
    (hvalidate : validate packet = .ok ()) (next : Exchange Unit) :
    Consumes halt (do
      let packet ← readPacket
      Exchange.lift (validate packet)
      next : Exchange Unit).run packet.frame next.run := by
  have hnext : (do
      Exchange.lift (validate packet)
      next : Exchange Unit).run = next.run := by
    rw [hvalidate]
    rfl
  rw [← hnext]
  exact Exchange.consumes_bind (consumes_readPacketWith _ MqttPacket.mk h) _

end Mqtt

namespace Testserver

open Mqtt

variable {packet : MqttPacket} {packets : List (UInt8 × Bytes)}

/-- A CONNECT packet is answered with CONNACK. -/
theorem answers_connect (h : packet.body.length ≤ 268435455)
    (htype : packet.packetType &&& 0xF0 = 0x10) :
    ∃ q, Consumes loopMqttSession handleMqttSession packet.frame q ∧
      Emits loopMqttSession q connack
        (.done (.again [(packet.packetType, packet.body)])) := by
  unfold handleMqttSession
  refine ⟨_, (consumes_readPacketWith _ Prod.mk h).bind loopMqttSession _, ?_⟩
  change Emits _ (if packet.packetType &&& 0xF0 ≠ 0x10 then _ else _) _ _
  rw [if_neg (not_not_intro htype)]
  exact emits_writeAll connack _

/-- The loop reads a packet and turns to its answer. -/
theorem consumes_again (h : packet.body.length ≤ 268435455) :
    Consumes loopMqttSession (.done (.again packets)) packet.frame
      (answerMqttPacket packet.packetType
        (packets ++ [(packet.packetType, packet.body)])) :=
  .advance rfl
    ((consumes_readPacketWith _ Prod.mk h).bind loopMqttSession _)

theorem emits_answer_pingreq {packetType : UInt8}
    (htype : packetType &&& 0xF0 = 0xC0) :
    Emits loopMqttSession (answerMqttPacket packetType packets) pingresp
      (.done (.again packets)) := by
  unfold answerMqttPacket
  rw [if_pos htype]
  exact emits_writeAll pingresp _

end Testserver

namespace Mqtt

/-! ## The dialogue -/

/-- The packets a complete session brings to the broker. -/
def clientPackets (connect : MqttPacket) : List MqttPacket :=
  [connect, pingreqPacket, disconnectPacket]

/-- The packets it brings to the client. -/
def brokerPackets : List MqttPacket := [connackPacket, pingrespPacket]

/-- A packet as the broker reads it. -/
def MqttPacket.read (packet : MqttPacket) : UInt8 × Bytes :=
  (packet.packetType, packet.body)

/-- The packet `run_session` opens with. -/
def openingPacket (nanos : ℕ) (clientId : Option Text) (keepalive : UInt16)
    (version : MqttVersion) : MqttPacket :=
  connectPacket (clientId.getD (defaultClientId nanos)) keepalive version

theorem frames_clientPackets (nanos : ℕ) (clientId : Option Text)
    (keepalive : UInt16) (version : MqttVersion) :
    (clientPackets (openingPacket nanos clientId keepalive version)).flatMap
        MqttPacket.frame =
      buildConnect (clientId.getD (defaultClientId nanos)) keepalive version ++
        (pingreq ++ disconnect) := by
  obtain ⟨hpingreq, hdisconnect, -, -⟩ := frame_fixed
  rw [clientPackets, List.flatMap_cons, List.flatMap_cons, List.flatMap_cons,
    List.flatMap_nil, List.append_nil, hpingreq, hdisconnect, openingPacket,
    frame_connectPacket]

theorem frames_brokerPackets : brokerPackets.flatMap MqttPacket.frame =
    Testserver.connack ++ Testserver.pingresp := by
  obtain ⟨-, -, hconnack, hpingresp⟩ := frame_fixed
  rw [brokerPackets, List.flatMap_cons, List.flatMap_cons, List.flatMap_nil,
    List.append_nil, hconnack, hpingresp]

/-- The client and the broker converse. -/
theorem converse_session {nanos : ℕ} {clientId : Option Text}
    {keepalive : UInt16} {version : MqttVersion} {connect : MqttPacket}
    (hconnect : connect = openingPacket nanos clientId keepalive version)
    (hlength : connect.body.length ≤ 268435455) :
    Converse halt Testserver.loopMqttSession
      (Client.runSession nanos clientId keepalive version).run
      Testserver.handleMqttSession (.ok ())
      (.returned .disconnect ((clientPackets connect).map MqttPacket.read))
      ((clientPackets connect).flatMap MqttPacket.frame)
      (brokerPackets.flatMap MqttPacket.frame) := by
  obtain ⟨hpingreq, hdisconnect, hconnack, hpingresp⟩ := frame_fixed
  simp only [clientPackets, brokerPackets, List.flatMap_cons,
    List.flatMap_nil, List.map_cons, List.map_nil]
  rw [hdisconnect, hpingreq, hconnack, hpingresp]
  -- From the last packet back to the first.
  let leave : Exchange Unit := Exchange.ignore (Exchange.writeAll disconnect)
  let ping : Exchange Unit := do
    Exchange.writeAll pingreq
    let pingresp ← Client.readPacket
    Exchange.lift (validatePingresp pingresp)
    leave
  have hleave : Converse halt Testserver.loopMqttSession leave.run
      (.done (.again [connect.read, pingreqPacket.read])) (.ok ())
      (.returned .disconnect
        [connect.read, pingreqPacket.read, disconnectPacket.read])
      (disconnect ++ []) [] := by
    refine .send (emits_writeAll disconnect _) ?_ (.finished rfl rfl)
    rw [← hdisconnect]
    exact Testserver.consumes_again (by decide)
  have hping : Converse halt Testserver.loopMqttSession ping.run
      (.done (.again [connect.read])) (.ok ())
      (.returned .disconnect
        [connect.read, pingreqPacket.read, disconnectPacket.read])
      (pingreq ++ (disconnect ++ [])) (Testserver.pingresp ++ []) := by
    refine .send (Exchange.emits_bind pingreq _)
      (by rw [← hpingreq]; exact Testserver.consumes_again (by decide))
      (.receive (Testserver.emits_answer_pingreq (by decide))
        (by rw [← hpingresp]; exact Client.consumes_expect (by decide) rfl _)
        hleave)
  have htype : connect.packetType &&& 0xF0 = 0x10 := by
    rw [hconnect]
    change typeConnect &&& 0xF0 = 0x10
    decide
  obtain ⟨q, hread, hanswer⟩ := Testserver.answers_connect hlength htype
  have hopen : Emits halt
      (Client.runSession nanos clientId keepalive version).run connect.frame
      (do
        let connack ← Client.readPacket
        Exchange.lift (validateConnack connack)
        ping : Exchange Unit).run := by
    rw [hconnect, openingPacket, frame_connectPacket]
    exact Exchange.emits_bind _ _
  exact .send hopen hread (.receive hanswer
    (by rw [← hconnack]; exact Client.consumes_expect (by decide) rfl _) hping)

/-! ## All schedules -/

/-- The client and the broker, with channels of these capacities. -/
def setting (up down : ℕ) :
    Setting UInt8 Fault (Outcome Unit) Testserver.MqttTurn where
  resumeLeft := halt
  resumeRight := Testserver.loopMqttSession
  roomRight := up
  roomLeft := down

/-- What the session promises of a state of its two parties. -/
structure ProperSession (up down : ℕ) (connect : MqttPacket)
    (n : Network UInt8 Fault (Outcome Unit) Testserver.MqttTurn) : Prop where
  /-- Somebody can move, or both have ended. -/
  noDeadlock : (∃ n', Network.Step (setting up down) n n') ∨
    (∃ r, n.left = .done r) ∧ ∃ ending packets,
      n.right = .done (.returned ending packets)
  /-- The client has not failed. -/
  client : ∀ r, n.left = .done r → r = .ok ()
  /-- The broker has not returned in another place. -/
  broker : ∀ ending packets, n.right = .done (.returned ending packets) →
    ending = .disconnect ∧
      packets = (clientPackets connect).map MqttPacket.read
  /-- No write fails and no read finds the end of the stream. -/
  served : (Finished Testserver.loopMqttSession n.right → ¬Stranded n.view) ∧
    (Finished halt n.left → ¬Stranded n.swap.view)
  /-- In the end all packets have arrived, and nothing else. -/
  terminal : (¬∃ n', Network.Step (setting up down) n n') →
    n.left = .done (.ok ()) ∧
      n.right = .done (.returned .disconnect
        ((clientPackets connect).map MqttPacket.read)) ∧
      n.rightReceived = (clientPackets connect).flatMap MqttPacket.frame ∧
      n.leftReceived = brokerPackets.flatMap MqttPacket.frame ∧
      n.toRight = [] ∧ n.toLeft = []

/-- Every schedule of the session is proper. -/
theorem properSession {up down : ℕ} (hup : 0 < up) (hdown : 0 < down)
    {nanos : ℕ} {clientId : Option Text} {keepalive : UInt16}
    {version : MqttVersion}
    (hlength : (openingPacket nanos clientId keepalive version).body.length ≤
      268435455)
    {n : Network UInt8 Fault (Outcome Unit) Testserver.MqttTurn}
    (hn : Network.Reachable (setting up down)
      (Network.start (Client.runSession nanos clientId keepalive version).run
        Testserver.handleMqttSession) n) :
    ProperSession up down (openingPacket nanos clientId keepalive version)
      n := by
  have hsound := (converse_session rfl hlength).sound (S := setting up down)
    hup hdown hn
  refine ⟨?_, fun r hr => hsound.left r hr rfl, ?_,
    ⟨hsound.servedLeft, hsound.servedRight⟩, ?_⟩
  · exact hsound.live.imp_right fun hend =>
      ⟨⟨_, hend.left.1⟩, _, _, hend.right.1⟩
  · intro ending packets hright
    obtain ⟨⟩ := hsound.right _ hright rfl
    exact ⟨rfl, rfl⟩
  · intro hstuck
    obtain ⟨hleft, hright, hup', hdown', hbroker, hclient⟩ :=
      hsound.complete hstuck
    exact ⟨hleft.1, hright.1, hbroker, hclient, hup', hdown'⟩

/-- The rounds of the broker read a packet, so the session ends. -/
theorem ends_setting (up down : ℕ) : (setting up down).Ends :=
  ⟨rfl, fun _ _ => Testserver.leavesAtEnd_loopMqttSession⟩

/-- The end of a session over channels that hold one byte. -/
theorem properSession_complete :
    ∃ n, n.left = .done (.ok ()) ∧
      n.rightReceived = buildConnect [] 30 .v5 ++ (pingreq ++ disconnect) ∧
      n.leftReceived = Testserver.connack ++ Testserver.pingresp ∧
      ProperSession 1 1 (openingPacket 0 (some []) 30 .v5) n := by
  have hlength : (openingPacket 0 (some []) 30 .v5).body.length ≤
      268435455 := by decide
  obtain ⟨n, hn, hcomplete⟩ := ((converse_session rfl hlength).succeeds
    (S := setting 1 1) (ends_setting 1 1) (by decide)
    (by decide)).exists_complete
  exact ⟨n, hcomplete.left.1,
    hcomplete.rightReceived.trans (frames_clientPackets 0 (some []) 30 .v5),
    hcomplete.leftReceived.trans frames_brokerPackets,
    properSession (by decide) (by decide) hlength hn⟩

end Mqtt

end KnockKnock
