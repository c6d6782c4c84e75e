import KnockKnock.Rtmp.Handshake
import KnockKnock.Rtsp.Serving
import KnockKnock.Streams.Rules
import KnockKnock.Support.Ending

/-!
# What stream fixtures send, and when

Next to any client, under every schedule: what a fixture of the test server has
sent is explained by what it has received before.  The broker never answers
before a complete CONNECT, and has never sent more PINGRESPs than it has got
PINGREQs.
-/

namespace KnockKnock

open Program

namespace Testserver

/-- The fixtures that serve a stream without TLS. -/
inductive StreamFixture where
  | tcpEcho
  | httpOk
  | rtspOk
  | rtmpOk
  | mqttOk
deriving DecidableEq, Repr

/-- `[0xCDu8; PAYLOAD_LEN]` -/
def rtmpS1 : Bytes := List.replicate Rtmp.handshakePayloadLen 0xCD

namespace StreamFixture

/-- How a connection of the fixture ends. -/
def Ending : StreamFixture → Type
  | tcpEcho => Unit
  | httpOk => Unit
  | rtspOk => RtspEnding
  | rtmpOk => RtmpEnding
  | mqttOk => MqttTurn

/-- What the thread of a connection does. -/
def session : (fixture : StreamFixture) → Program UInt8 Fault fixture.Ending
  | tcpEcho => startTcpEcho
  | httpOk => startHttpOk
  | rtspOk => startRtspOk
  | rtmpOk => startRtmpOk rtmpS1
  | mqttOk => handleMqttSession

/-- Only the broker goes round a loop. -/
def resume : (fixture : StreamFixture) →
    fixture.Ending → Option (Program UInt8 Fault fixture.Ending)
  | tcpEcho => halt
  | httpOk => halt
  | rtspOk => halt
  | rtmpOk => halt
  | mqttOk => loopMqttSession

end StreamFixture

/-! ## The broker -/

/-- The answers due when a CONNECT and PINGREQs have been received. -/
inductive MqttDue : Bytes → List (UInt8 × Bytes) → Bytes → Prop where
  | connect {first : Mqtt.MqttPacket} {spelled : Bytes}
      (hspelled : first.Spelled spelled)
      (htype : first.packetType &&& 0xF0 = 0x10) :
      MqttDue spelled [first.read] connack
  | pingreq {received due spelled : Bytes} {packets : List (UInt8 × Bytes)}
      {packet : Mqtt.MqttPacket} (h : MqttDue received packets due)
      (hspelled : packet.Spelled spelled)
      (htype : packet.packetType &&& 0xF0 = 0xC0) :
      MqttDue (received ++ spelled) (packets ++ [packet.read])
        (due ++ pingresp)

/-- What the broker may have sent, having received so much. -/
def MqttSent (received sent : Bytes) : Prop :=
  sent = [] ∨ ∃ front packets due, front <+: received ∧
    MqttDue front packets due ∧ sent <+: due

/-- How a session stands when it goes round its loop or has been left. -/
def MqttTurned : MqttTurn → Bytes → Bytes → Prop
  | .again packets, received, sent => MqttDue received packets sent
  | .returned .disconnect packets, received, sent =>
      ∃ front served packet spelled, received = front ++ spelled ∧
        packets = served ++ [Mqtt.MqttPacket.read packet] ∧
        packet.Spelled spelled ∧ packet.packetType &&& 0xF0 = 0xE0 ∧
        MqttDue front served sent
  | .returned _ _, _, _ => True

def mqttPromise : Promise UInt8 MqttTurn := ⟨MqttSent, MqttTurned⟩

variable {received sent : Bytes} {packets : List (UInt8 × Bytes)}

theorem MqttDue.mqttSent_append {due more front : Bytes}
    (h : MqttDue received packets due) (hfront : front <+: due) :
    MqttSent (received ++ more) front :=
  .inr ⟨received, packets, due, List.prefix_append _ _, h, hfront⟩

theorem MqttDue.mqttSent {due front : Bytes} (h : MqttDue received packets due)
    (hfront : front <+: due) : MqttSent received front :=
  .inr ⟨received, packets, due, List.prefix_rfl, h, hfront⟩

theorem keeps_handleMqttSession : Keeps mqttPromise handleMqttSession [] [] := by
  refine Keeps.bind (Mqtt.keeps_readPacketWith (fun _ => .inl rfl)
    (fun _ _ => ⟨.inl rfl, trivial⟩) fun first spelled hspelled => ?_)
  change Keeps _ (if first.packetType &&& 0xF0 ≠ 0x10 then _ else _) _ _
  by_cases htype : first.packetType &&& 0xF0 = 0x10
  · rw [if_neg (not_not_intro htype)]
    have hdue := MqttDue.connect hspelled htype
    refine Keeps.bind (Exchange.keeps_writeAll
      (fun front hfront => hdue.mqttSent hfront)
      (fun e front hfront => ⟨hdue.mqttSent hfront, trivial⟩)
      ⟨hdue.mqttSent List.prefix_rfl, hdue⟩)
  · rw [if_pos htype]
    exact ⟨.inl rfl, trivial⟩

/-- One round of the loop. -/
theorem keeps_serveMqttPacket (h : MqttDue received packets sent) :
    Keeps mqttPromise (serveMqttPacket packets) received sent := by
  refine Keeps.bind (Mqtt.keeps_readPacketWith
    (fun _ => h.mqttSent_append List.prefix_rfl)
    (fun _ _ => ⟨h.mqttSent_append List.prefix_rfl, trivial⟩)
    fun packet spelled hspelled => ?_)
  change Keeps _ (answerMqttPacket packet.packetType (packets ++ [packet.read]))
    _ _
  rw [answerMqttPacket]
  by_cases hping : packet.packetType &&& 0xF0 = 0xC0
  · rw [if_pos hping]
    have hdue := h.pingreq hspelled hping
    have hpart : ∀ front, front <+: pingresp →
        MqttSent (received ++ spelled) (sent ++ front) := fun front hfront =>
      hdue.mqttSent ((List.prefix_append_right_inj sent).mpr hfront)
    exact Keeps.bind (Exchange.keeps_writeAll hpart
      (fun e front hfront => ⟨hpart front hfront, trivial⟩)
      ⟨hpart _ List.prefix_rfl, hdue⟩)
  rw [if_neg hping]
  by_cases hleave : packet.packetType &&& 0xF0 = 0xE0
  · rw [if_pos hleave]
    exact ⟨h.mqttSent_append List.prefix_rfl, received, packets, packet, spelled,
      rfl, rfl, hspelled, hleave, h⟩
  · rw [if_neg hleave]
    exact ⟨h.mqttSent_append List.prefix_rfl, trivial⟩

theorem renews_loopMqttSession : mqttPromise.Renews loopMqttSession := by
  intro turn p received sent hresume hafter
  cases turn with
  | again packets =>
      obtain rfl := Option.some.inj hresume
      exact keeps_serveMqttPacket hafter
  | returned ending packets => cases hresume

/-! ## The other fixtures -/

/-- The request of a fixture that answers once its headers have ended. -/
def IsOptions (received : Bytes) : Prop :=
  optionsPrefix <+: received ∧
    Rtsp.headerTerminator <:+: received.take bufSize

theorem keeps_readRtspRequest {P : Promise UInt8 (Option Bytes)}
    {buf : Bytes} (hlength : buf.length < bufSize)
    (halways : ∀ more, P.always (buf ++ more) sent)
    (hnone : ∀ more, P.after none (buf ++ more) sent)
    (hsome : ∀ more, (buf ++ more).length ≤ bufSize →
      Rtsp.headerTerminator <:+: buf ++ more →
      P.after (some (buf ++ more)) (buf ++ more) sent) :
    Keeps P (readRtspRequest buf) buf sent := by
  induction hk : bufSize - buf.length using Nat.strongRecOn
    generalizing buf with
  | _ k ih =>
    have hnow := halways []
    have hleave := hnone []
    rw [List.append_nil] at hnow hleave
    rw [readRtspRequest]
    refine ⟨hnow, fun chunk hle => ?_, fun e => ⟨hnow, hleave⟩⟩
    dsimp only
    have hsize : (buf ++ chunk).length ≤ bufSize := by
      rw [List.length_append]
      omega
    by_cases hnil : chunk = []
    · rw [if_pos hnil]
      exact ⟨halways chunk, hnone chunk⟩
    rw [if_neg hnil]
    by_cases hend : Rtsp.headerTerminator <:+: buf ++ chunk
    · rw [if_pos hend]
      exact ⟨halways chunk, hsome chunk hsize hend⟩
    rw [if_neg hend]
    by_cases hfull : bufSize ≤ (buf ++ chunk).length
    · rw [if_pos hfull]
      exact ⟨halways chunk, hnone chunk⟩
    rw [if_neg hfull]
    have hpos := List.length_pos_of_ne_nil hnil
    have htotal : (buf ++ chunk).length = buf.length + chunk.length :=
      List.length_append
    refine ih _ (by omega) (by omega) (fun more => ?_) (fun more => ?_)
      (fun more => ?_) rfl
    · rw [List.append_assoc]
      exact halways _
    · rw [List.append_assoc]
      exact hnone _
    · rw [List.append_assoc]
      exact hsome _

namespace StreamFixture

/-- What the fixture may have sent, having received so much. -/
def Sent (received sent : Bytes) : StreamFixture → Prop
  | tcpEcho => sent <+: received ∧ received.length ≤ bufSize
  | httpOk => sent <+: httpOkResponse
  | rtspOk => sent = [] ∨ sent <+: optionsResponse ∧ IsOptions received
  | rtmpOk => sent = [] ∨ ∃ c1, c1.length = Rtmp.handshakePayloadLen ∧
      Rtmp.rtmpVersion :: c1 <+: received ∧
      sent <+: Rtmp.rtmpVersion :: (rtmpS1 ++ c1)
  | mqttOk => MqttSent received sent

/-- The promise to send nothing else. -/
def sentPromise {τ : Type} (fixture : StreamFixture) : Promise UInt8 τ :=
  ⟨fun received sent => fixture.Sent received sent, fun _ _ _ => True⟩

/-- What a fixture promises; the broker also promises to leave at DISCONNECT. -/
def promise : (fixture : StreamFixture) → Promise UInt8 fixture.Ending
  | tcpEcho => tcpEcho.sentPromise
  | httpOk => httpOk.sentPromise
  | rtspOk => rtspOk.sentPromise
  | rtmpOk => rtmpOk.sentPromise
  | mqttOk => mqttPromise

theorem keeps_tcpEcho : Keeps tcpEcho.sentPromise startTcpEcho [] [] := by
  have hquiet : tcpEcho.Sent [] [] := ⟨List.nil_prefix, Nat.zero_le _⟩
  refine Keeps.bind ⟨hquiet, fun chunk hle => ?_, fun e => ⟨hquiet, hquiet, trivial⟩⟩
  have hpart : ∀ front, front <+: chunk → tcpEcho.Sent chunk front :=
    fun front hfront => ⟨hfront, hle⟩
  refine ⟨hpart [] List.nil_prefix, Keeps.bind (Exchange.keeps_writeAll hpart
    (fun e front hfront => ⟨hpart front hfront, trivial⟩)
    ⟨hpart chunk List.prefix_rfl, trivial⟩)⟩

theorem keeps_httpOk : Keeps httpOk.sentPromise startHttpOk [] [] := by
  have hanswer : ∀ received, Keeps httpOk.sentPromise
      ((Exchange.writeAll httpOkResponse).run >>= fun _ => .done ()) received
        [] := fun received =>
    Keeps.bind (Exchange.keeps_writeAll (fun front hfront => hfront)
      (fun e front hfront => ⟨hfront, trivial⟩) ⟨List.prefix_rfl, trivial⟩)
  exact Keeps.bind ⟨List.nil_prefix, fun chunk _ => ⟨List.nil_prefix, hanswer _⟩,
    fun e => ⟨List.nil_prefix, hanswer _⟩⟩

theorem keeps_rtspOk : Keeps rtspOk.sentPromise startRtspOk [] [] := by
  refine Keeps.bind (keeps_readRtspRequest (by decide) (fun _ => .inl rfl)
    (fun _ => ⟨.inl rfl, trivial⟩) fun request hle hend => ?_)
  rw [List.nil_append] at hle hend ⊢
  dsimp only
  by_cases hoptions : optionsPrefix <+:
      request ++ List.replicate (bufSize - request.length) 0
  · rw [if_neg (not_not_intro hoptions)]
    have hrequest : IsOptions request := by
      refine ⟨(Rtsp.optionsPrefix_padded_iff _).mp hoptions, ?_⟩
      rwa [List.take_of_length_le hle]
    have hpart : ∀ front, front <+: optionsResponse →
        rtspOk.Sent request front := fun front hfront => .inr ⟨hfront, hrequest⟩
    exact Keeps.bind (Exchange.keeps_writeAll hpart
      (fun e front hfront => ⟨hpart front hfront, trivial⟩)
      ⟨hpart _ List.prefix_rfl, trivial⟩)
  · rw [if_pos hoptions]
    exact ⟨.inl rfl, trivial⟩

theorem keeps_rtmpOk : Keeps rtmpOk.sentPromise (startRtmpOk rtmpS1) [] [] := by
  refine Keeps.bind (Exchange.keeps_readExactOr (fun _ _ => .inl rfl)
    (fun _ _ _ => ⟨.inl rfl, trivial⟩) fun c0 hc0 => ?_)
  obtain ⟨version, rfl⟩ := List.length_eq_one_iff.mp hc0
  change Keeps _ (if version ≠ Rtmp.rtmpVersion then _ else _) _ _
  by_cases hversion : version = Rtmp.rtmpVersion
  · subst hversion
    rw [if_neg (not_not_intro rfl)]
    refine Keeps.bind (Exchange.keeps_readExactOr (fun _ _ => .inl rfl)
      (fun _ _ _ => ⟨.inl rfl, trivial⟩) fun c1 hc1 => ?_)
    have hpart : ∀ more front, front <+: Rtmp.rtmpVersion :: (rtmpS1 ++ c1) →
        rtmpOk.Sent ([] ++ [Rtmp.rtmpVersion] ++ c1 ++ more) front :=
      fun more front hfront => .inr ⟨c1, hc1, List.prefix_append _ _, hfront⟩
    have hnow := hpart []
    rw [List.append_nil] at hnow
    refine Keeps.bind (Exchange.keeps_writeAll hnow
      (fun e front hfront => ⟨hnow front hfront, trivial⟩) ?_)
    refine Keeps.bind (Exchange.keeps_readExactOr
      (fun chunk _ => hpart chunk _ List.prefix_rfl)
      (fun e chunk _ => ⟨hpart chunk _ List.prefix_rfl, trivial⟩)
      fun chunk _ => ⟨hpart chunk _ List.prefix_rfl, trivial⟩)
  · rw [if_pos hversion]
    exact ⟨.inl rfl, trivial⟩

theorem keeps_session (fixture : StreamFixture) :
    Keeps fixture.promise fixture.session [] [] := by
  cases fixture with
  | tcpEcho => exact keeps_tcpEcho
  | httpOk => exact keeps_httpOk
  | rtspOk => exact keeps_rtspOk
  | rtmpOk => exact keeps_rtmpOk
  | mqttOk => exact keeps_handleMqttSession

theorem renews_resume (fixture : StreamFixture) :
    fixture.promise.Renews fixture.resume := by
  cases fixture with
  | tcpEcho | httpOk | rtspOk | rtmpOk => exact Promise.renews_halt _
  | mqttOk => exact renews_loopMqttSession

theorem sent_of_keeps {fixture : StreamFixture} {received sent : Bytes}
    {p : Program UInt8 Fault fixture.Ending}
    (h : Keeps fixture.promise p received sent) :
    fixture.Sent received sent := by
  cases fixture with
  | tcpEcho | httpOk | rtspOk | rtmpOk | mqttOk => exact h.always

/-! ## All clients, all schedules -/

variable {α : Type}

/-- A client that starts over as it likes next to a fixture, with channels of
these capacities. -/
def setting (restart : α → Option (Program UInt8 Fault α))
    (fixture : StreamFixture) (up down : ℕ) :
    Setting UInt8 Fault α fixture.Ending where
  resumeLeft := restart
  resumeRight := fixture.resume
  roomRight := up
  roomLeft := down

/-- The rounds of the broker read a packet. -/
theorem ends_setting (fixture : StreamFixture) (up down : ℕ) :
    (fixture.setting (halt : α → Option (Program UInt8 Fault α)) up
      down).Ends := by
  refine ⟨rfl, ?_⟩
  cases fixture with
  | tcpEcho | httpOk | rtspOk | rtmpOk => exact nofun
  | mqttOk => exact fun _ _ => leavesAtEnd_loopMqttSession

/-- No client that does not start over keeps a fixture busy for ever. -/
theorem acc_session (fixture : StreamFixture) (up down : ℕ)
    (client : Program UInt8 Fault α) :
    Acc (fun n' n => Network.Step (fixture.setting halt up down) n n')
      (Network.start client fixture.session) :=
  Network.acc_step (ends_setting fixture up down) _

theorem keeps_of_reachable {restart : α → Option (Program UInt8 Fault α)}
    {fixture : StreamFixture} {up down : ℕ} {client : Program UInt8 Fault α}
    {n : Network UInt8 Fault α fixture.Ending}
    (hn : Network.Reachable (fixture.setting restart up down)
      (Network.start client fixture.session) n) :
    Keeps fixture.promise n.right n.rightReceived
      (n.leftReceived ++ n.toLeft) := by
  apply hn.keeps_right
  · exact keeps_session fixture
  · exact renews_resume fixture

/-- Next to any client, under every schedule, a fixture has sent what it may. -/
theorem sent_of_reachable {restart : α → Option (Program UInt8 Fault α)}
    {fixture : StreamFixture} {up down : ℕ} {client : Program UInt8 Fault α}
    {n : Network UInt8 Fault α fixture.Ending}
    (hn : Network.Reachable (fixture.setting restart up down)
      (Network.start client fixture.session) n) :
    fixture.Sent n.rightReceived (n.leftReceived ++ n.toLeft) :=
  sent_of_keeps (keeps_of_reachable hn)

/-- The broker next to the pinger, over channels that hold one byte: it has
received CONNECT, PINGREQ and DISCONNECT, and has answered the first two. -/
theorem sent_of_reachable_pinger :
    mqttOk.Sent
      (Mqtt.buildConnect [] 30 .v5 ++ (Mqtt.pingreq ++ Mqtt.disconnect))
      (connack ++ pingresp) := by
  have hlength : (Mqtt.openingPacket 0 (some []) 30 .v5).body.length ≤
      268435455 := by decide
  obtain ⟨n, hn, hcomplete⟩ := ((Mqtt.converse_session rfl hlength).succeeds
    (S := mqttOk.setting halt 1 1) (ends_setting mqttOk 1 1) (by decide)
    (by decide)).exists_complete
  have hsent : mqttOk.Sent n.rightReceived (n.leftReceived ++ n.toLeft) :=
    sent_of_reachable hn
  rw [hcomplete.rightReceived, hcomplete.leftReceived, hcomplete.toLeft,
    List.append_nil, Mqtt.frames_clientPackets,
    Mqtt.frames_brokerPackets] at hsent
  exact hsent

/-- A broker that has left at DISCONNECT has answered all that it was asked. -/
theorem answered_of_disconnect {restart : α → Option (Program UInt8 Fault α)}
    {up down : ℕ} {client : Program UInt8 Fault α}
    {n : Network UInt8 Fault α MqttTurn} {packets : List (UInt8 × Bytes)}
    (hn : Network.Reachable (mqttOk.setting restart up down)
      (Network.start client handleMqttSession) n)
    (hdone : n.right = .done (.returned .disconnect packets)) :
    MqttTurned (.returned .disconnect packets) n.rightReceived
      (n.leftReceived ++ n.toLeft) := by
  have hkeeps := hn.keeps_right keeps_handleMqttSession renews_loopMqttSession
  rw [hdone] at hkeeps
  exact hkeeps.2

/-- The broker next to the pinger. -/
theorem answered_of_disconnect_pinger :
    ∃ packets received sent,
      MqttTurned (.returned .disconnect packets) received sent := by
  have hlength : (Mqtt.openingPacket 0 (some []) 30 .v5).body.length ≤
      268435455 := by decide
  obtain ⟨n, hn, hcomplete⟩ := ((Mqtt.converse_session rfl hlength).succeeds
    (S := mqttOk.setting halt 1 1) (ends_setting mqttOk 1 1) (by decide)
    (by decide)).exists_complete
  exact ⟨_, _, _, answered_of_disconnect hn hcomplete.right.1⟩

end StreamFixture

end Testserver

end KnockKnock
