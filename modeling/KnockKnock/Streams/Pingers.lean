import KnockKnock.Rtsp.Response
import KnockKnock.Streams.Rules
import KnockKnock.Verdicts

/-!
# What stream pingers send, and when

Next to any peer, under every schedule: what a pinger has sent is explained by
what it has received before, and an `Ok` comes with the answer its protocol
asks for.  TCP asks for none, and its pinger may have received nothing.
-/

namespace KnockKnock

open Program

namespace StreamPinger

/-- What the pinger sends first. -/
def opening : StreamPinger → Bytes
  | tcp => [1]
  | http request => Utf8.encode request
  | rtsp domain port => Rtsp.buildOptionsRequest domain port
  | rtmp nanos => Rtmp.rtmpVersion :: Rtmp.buildC1 nanos
  | mqtt nanos clientId keepalive version =>
      Mqtt.buildConnect (clientId.getD (Mqtt.defaultClientId nanos)) keepalive
        version

/-- S0, S1 and S2. -/
structure IsRtmpAnswer (s1 received : Bytes) : Prop where
  length_s1 : s1.length = Rtmp.handshakePayloadLen
  answer : ∃ s2, s2.length = Rtmp.handshakePayloadLen ∧
    received = Rtmp.rtmpVersion :: (s1 ++ s2)

/-- What the pinger may have sent, having received so much. -/
inductive Sent (received : Bytes) : StreamPinger → Bytes → Prop where
  | opening {pinger : StreamPinger} {front : Bytes}
      (h : front <+: pinger.opening) : Sent received pinger front
  | c2 {nanos : UInt32} {s1 front : Bytes}
      (hanswer : IsRtmpAnswer s1 received) (h : front <+: s1) :
      Sent received (.rtmp nanos) ((rtmp nanos).opening ++ front)
  | pingreq {nanos : ℕ} {clientId : Option Text} {keepalive : UInt16}
      {version : Mqtt.MqttVersion} {front rest : Bytes}
      (hconnack : Mqtt.BeginsWith Mqtt.IsConnack received rest)
      (h : front <+: Mqtt.pingreq) :
      Sent received (.mqtt nanos clientId keepalive version)
        ((mqtt nanos clientId keepalive version).opening ++ front)
  | disconnect {nanos : ℕ} {clientId : Option Text} {keepalive : UInt16}
      {version : Mqtt.MqttVersion} {front rest rest' : Bytes}
      (hconnack : Mqtt.BeginsWith Mqtt.IsConnack received rest)
      (hpingresp : Mqtt.BeginsWith Mqtt.IsPingresp rest rest')
      (h : front <+: Mqtt.disconnect) :
      Sent received (.mqtt nanos clientId keepalive version)
        ((mqtt nanos clientId keepalive version).opening ++
          (Mqtt.pingreq ++ front))

/-- What the pinger has received and sent when it succeeds.  The TCP pinger
does not look at what its one read has returned. -/
def Succeeded (received sent : Bytes) : StreamPinger → Prop
  | tcp => received.length ≤ Http.bufSize ∧ sent = tcp.opening
  | http request =>
      received.length ≤ Http.bufSize ∧ sent = (http request).opening ∧
        Http.checkStatusLine (Utf8.lossy (Http.buffer received)) = .ok ()
  | rtsp domain port =>
      Rtsp.statusLinePrefix <+: received ∧ sent = (rtsp domain port).opening
  | rtmp nanos => ∃ s1, IsRtmpAnswer s1 received ∧
      sent = (rtmp nanos).opening ++ s1
  | mqtt nanos clientId keepalive version =>
      (∃ rest, Mqtt.BeginsWith Mqtt.IsConnack received rest ∧
        Mqtt.BeginsWith Mqtt.IsPingresp rest []) ∧
      (mqtt nanos clientId keepalive version).opening ++ Mqtt.pingreq <+: sent

/-- What a pinger promises. -/
def promise (pinger : StreamPinger) : Promise UInt8 (Outcome Unit) :=
  Exchange.promise (fun received sent => Sent received pinger sent)
    fun _ received sent => Succeeded received sent pinger

variable {received sent : Bytes}

theorem sent_opening (pinger : StreamPinger) : Sent received pinger pinger.opening :=
  .opening List.prefix_rfl

theorem keeps_tcp : Keeps tcp.promise Level4.ping.run [] [] := by
  refine Exchange.keeps_writeAll_bind (fun front hfront => .opening hfront) ?_
  refine Exchange.keeps_read_bind (sent_opening tcp) fun chunk hle => ?_
  exact Exchange.keeps_pure (sent_opening tcp) ⟨hle, rfl⟩

theorem keeps_http (request : Text) :
    Keeps (http request).promise (Http.Client.runExchange request).run [] [] := by
  refine Exchange.keeps_writeAll_bind (fun front hfront => .opening hfront) ?_
  refine Exchange.keeps_read_bind (sent_opening _) fun chunk hle => ?_
  refine ⟨sent_opening (http request), ?_⟩
  cases hstatus : Http.checkStatusLine (Utf8.lossy (Http.buffer chunk)) with
  | ok u => exact ⟨hle, rfl, hstatus⟩
  | error e => trivial

/-- The loop ends with what it has read. -/
theorem keeps_readResponse {P : Promise UInt8 (Outcome Bytes)}
    {buf r w : Bytes} (halways : ∀ more, P.always (r ++ more) w)
    (herror : ∀ e more, P.after (.error e) (r ++ more) w)
    (hok : ∀ more, P.after (.ok (buf ++ more)) (r ++ more) w) :
    Keeps P (Rtsp.readResponse buf).run r w := by
  induction hk : Rtsp.maxResponseBytes - buf.length using Nat.strongRecOn
    generalizing buf r with
  | _ k ih =>
    have hdone : ∀ more, Keeps P (pure (buf ++ more) : Exchange Bytes).run
        (r ++ more) w := fun more => ⟨halways more, hok more⟩
    have hstop := halways []
    have hfail : ∀ e, P.after (.error e) r w := by
      intro e
      have h := herror e []
      rwa [List.append_nil] at h
    rw [List.append_nil] at hstop
    rw [Rtsp.readResponse]
    apply Exchange.keeps_bind
    refine ⟨hstop, fun chunk _ => ⟨halways chunk, ?_⟩, fun e => ⟨hstop, hfail e⟩⟩
    change Keeps P (ExceptT.run (if _ then _ else if _ then _ else _)) _ _
    by_cases hnil : chunk = []
    · have hsame := hdone []
      rw [List.append_nil] at hsame
      rw [if_pos hnil, hnil]
      exact hsame
    rw [if_neg hnil]
    by_cases henough : (Rtsp.findHeaderTerminator (buf ++ chunk)).isSome ∨
        Rtsp.maxResponseBytes ≤ (buf ++ chunk).length
    · rw [if_pos henough]
      exact hdone chunk
    rw [if_neg henough, not_or] at *
    have hpos := List.length_pos_of_ne_nil hnil
    have hopen := henough.2
    rw [List.length_append] at hopen
    refine ih _ ?_ (fun more => ?_) (fun e more => ?_) (fun more => ?_) rfl
    · rw [← hk, List.length_append]
      omega
    · rw [List.append_assoc]
      exact halways _
    · rw [List.append_assoc]
      exact herror e _
    · rw [List.append_assoc, List.append_assoc]
      exact hok _

theorem keeps_rtsp (debug : Text → Text) (domain : Text) (port : UInt16) :
    Keeps (rtsp domain port).promise (Rtsp.exchange debug domain port).run
      [] [] := by
  refine Exchange.keeps_writeAll_bind (fun front hfront => .opening hfront) ?_
  apply Exchange.keeps_bind
  refine keeps_readResponse (fun _ => sent_opening _) (fun _ _ => trivial)
    fun more => ?_
  change Keeps _ (ExceptT.run (if _ then _ else _)) _ _
  by_cases hfront : Rtsp.statusLinePrefix <+: [] ++ more
  · rw [if_neg (not_not_intro hfront)]
    exact ⟨sent_opening (rtsp domain port), hfront, rfl⟩
  · rw [if_pos hfront]
    exact ⟨sent_opening (rtsp domain port), trivial⟩

theorem keeps_rtmp (nanos : UInt32) :
    Keeps (rtmp nanos).promise (Rtmp.runHandshake nanos).run [] [] := by
  have hopening : ∀ received, Sent received (rtmp nanos) (rtmp nanos).opening :=
    fun _ => sent_opening _
  refine Exchange.keeps_writeAll_bind (fun front hfront => .opening hfront) ?_
  refine Exchange.keeps_readExactOr_bind (fun _ _ => hopening _)
    fun s0 hs0 => ?_
  obtain ⟨version, rfl⟩ := List.length_eq_one_iff.mp hs0
  change Keeps _ (ExceptT.run (if version ≠ Rtmp.rtmpVersion then _ else _)) _ _
  by_cases hversion : version = Rtmp.rtmpVersion
  · subst hversion
    rw [if_neg (not_not_intro rfl)]
    refine Exchange.keeps_readExactOr_bind (fun _ _ => hopening _)
      fun s1 hs1 => ?_
    refine Exchange.keeps_readExactOr_bind (fun _ _ => hopening _)
      fun s2 hs2 => ?_
    have hanswer : IsRtmpAnswer s1 ([] ++ [Rtmp.rtmpVersion] ++ s1 ++ s2) :=
      ⟨hs1, s2, hs2, by simp⟩
    exact Exchange.keeps_writeAll (fun front hfront => .c2 hanswer hfront)
      (fun _ _ _ => trivial) ⟨s1, hanswer, rfl⟩
  · rw [if_pos hversion]
    exact ⟨hopening _, trivial⟩

theorem keeps_mqtt (nanos : ℕ) (clientId : Option Text) (keepalive : UInt16)
    (version : Mqtt.MqttVersion) :
    Keeps (mqtt nanos clientId keepalive version).promise
      (Mqtt.Client.runSession nanos clientId keepalive version).run [] [] := by
  have hopening : ∀ received, Sent received
      (mqtt nanos clientId keepalive version)
      (mqtt nanos clientId keepalive version).opening := fun _ => sent_opening _
  refine Exchange.keeps_writeAll_bind (fun front hfront => .opening hfront) ?_
  apply Exchange.keeps_bind
  refine Mqtt.keeps_readPacketWith (fun _ => hopening _) (fun _ _ => trivial)
    fun connack spelled hspelled => ?_
  refine Exchange.keeps_lift_bind (hopening _) fun _ hvalid => ?_
  have hconnack : ∀ rest, Mqtt.BeginsWith Mqtt.IsConnack (spelled ++ rest) rest :=
    fun rest => ⟨connack, spelled, rfl, hspelled,
      Mqtt.validateConnack_eq_ok_iff.mp hvalid⟩
  refine Exchange.keeps_writeAll_bind (fun front hfront => ?_) ?_
  · have hnow := hconnack []
    rw [List.append_nil] at hnow
    exact .pingreq hnow hfront
  apply Exchange.keeps_bind
  refine Mqtt.keeps_readPacketWith
    (fun more => .pingreq (hconnack more) List.prefix_rfl)
    (fun _ _ => trivial) fun pingresp spelled' hspelled' => ?_
  refine Exchange.keeps_lift_bind (.pingreq (hconnack spelled') List.prefix_rfl)
    fun _ hvalid' => ?_
  have hpingresp : Mqtt.BeginsWith Mqtt.IsPingresp spelled' [] :=
    ⟨pingresp, spelled', (List.append_nil _).symm, hspelled',
      Mqtt.validatePingresp_eq_ok_iff.mp hvalid'⟩
  have hlast : ∀ front, front <+: Mqtt.disconnect →
      Sent (spelled ++ spelled') (mqtt nanos clientId keepalive version)
        ((mqtt nanos clientId keepalive version).opening ++ Mqtt.pingreq ++
          front) := by
    intro front hfront
    rw [List.append_assoc]
    exact .disconnect (hconnack spelled') hpingresp hfront
  have hend : ∀ front, front <+: Mqtt.disconnect →
      Keeps (mqtt nanos clientId keepalive version).promise
        (pure () : Exchange Unit).run
        (spelled ++ spelled')
        ((mqtt nanos clientId keepalive version).opening ++ Mqtt.pingreq ++
          front) := fun front hfront =>
    ⟨hlast front hfront, ⟨spelled', hconnack spelled', hpingresp⟩,
      List.prefix_append _ _⟩
  refine ⟨hlast, hend _ List.prefix_rfl, fun e front hfront => ?_⟩
  cases e with
  | error kind message => exact hend front hfront
  | panic => exact ⟨hlast front hfront, trivial⟩

theorem keeps_exchange (debug : Text → Text) (pinger : StreamPinger) :
    Keeps pinger.promise (pinger.exchange debug).run [] [] := by
  cases pinger with
  | tcp => exact keeps_tcp
  | http request => exact keeps_http request
  | rtsp domain port => exact keeps_rtsp debug domain port
  | rtmp nanos => exact keeps_rtmp nanos
  | mqtt nanos clientId keepalive version =>
      exact keeps_mqtt nanos clientId keepalive version

/-! ## All peers, all schedules -/

variable {γ : Type}

/-- A pinger next to a peer that starts over as it likes, with channels of
these capacities. -/
def setting (resume : γ → Option (Program UInt8 Fault γ)) (up down : ℕ) :
    Setting UInt8 Fault (Outcome Unit) γ where
  resumeLeft := halt
  resumeRight := resume
  roomRight := up
  roomLeft := down

/-- The pinger has sent what it may, and knows what it claims to know. -/
structure Orderly (pinger : StreamPinger)
    (n : Network UInt8 Fault (Outcome Unit) γ) : Prop where
  sent : Sent n.leftReceived pinger (n.rightReceived ++ n.toRight)
  succeeded : n.left = .done (.ok ()) →
    Succeeded n.leftReceived (n.rightReceived ++ n.toRight) pinger

theorem Orderly.of_keeps {pinger : StreamPinger}
    {n : Network UInt8 Fault (Outcome Unit) γ}
    (h : Keeps pinger.promise n.left n.leftReceived
      (n.rightReceived ++ n.toRight)) : Orderly pinger n := by
  refine ⟨h.always, fun hdone => ?_⟩
  rw [hdone] at h
  exact h.2

theorem keeps_of_reachable (debug : Text → Text) {pinger : StreamPinger}
    {resume : γ → Option (Program UInt8 Fault γ)} {up down : ℕ}
    {peer : Program UInt8 Fault γ}
    {n : Network UInt8 Fault (Outcome Unit) γ}
    (hn : Network.Reachable (setting resume up down)
      (Network.start (pinger.exchange debug).run peer) n) :
    Keeps pinger.promise n.left n.leftReceived
      (n.rightReceived ++ n.toRight) := by
  apply hn.keeps_left
  · exact keeps_exchange debug pinger
  · exact Promise.renews_halt _

/-- Next to any peer, under every schedule, a pinger is orderly. -/
theorem orderly (debug : Text → Text) {pinger : StreamPinger}
    {resume : γ → Option (Program UInt8 Fault γ)} {up down : ℕ}
    {peer : Program UInt8 Fault γ}
    {n : Network UInt8 Fault (Outcome Unit) γ}
    (hn : Network.Reachable (setting resume up down)
      (Network.start (pinger.exchange debug).run peer) n) :
    Orderly pinger n :=
  .of_keeps (keeps_of_reachable debug hn)

/-- The MQTT pinger at the end of its session with the broker, over channels
that hold one byte. -/
theorem orderly_broker :
    ∃ n : Network UInt8 Fault (Outcome Unit) Testserver.MqttTurn,
      n.left = .done (.ok ()) ∧
      n.leftReceived = Testserver.connack ++ Testserver.pingresp ∧
      n.rightReceived =
        Mqtt.buildConnect [] 30 .v5 ++ (Mqtt.pingreq ++ Mqtt.disconnect) ∧
      Orderly (mqtt 0 (some []) 30 .v5) n := by
  have hlength : (Mqtt.openingPacket 0 (some []) 30 .v5).body.length ≤
      268435455 := by decide
  obtain ⟨n, hn, hcomplete⟩ := ((Mqtt.converse_session rfl hlength).succeeds
    (S := setting Testserver.loopMqttSession 1 1) (Mqtt.ends_setting 1 1)
    (by decide) (by decide)).exists_complete
  exact ⟨n, hcomplete.left.1,
    hcomplete.leftReceived.trans Mqtt.frames_brokerPackets,
    hcomplete.rightReceived.trans (Mqtt.frames_clientPackets 0 (some []) 30 .v5),
    orderly id hn⟩

end StreamPinger

end KnockKnock
