import KnockKnock.Http.Requests
import KnockKnock.Streams.Once

/-!
# Stream pingers and stream fixtures

A pinger that asks for an answer of its protocol does not take another fixture
for its own, under any schedule: what it reads before it succeeds and what the
fixture may send differ in their first byte, or the echo of its own opening is
cut too short.
-/

namespace KnockKnock

open Program Testserver Testserver.StreamFixture

namespace StreamPinger

/-- The fixture that is meant for the pinger. -/
def fixture : StreamPinger → StreamFixture
  | tcp => tcpEcho
  | http _ => httpOk
  | rtsp _ _ => rtspOk
  | rtmp _ => rtmpOk
  | mqtt _ _ _ _ => mqttOk

/-- The request of an HTTP pinger is one that `build_request` makes. -/
def Built : StreamPinger → Prop
  | http request => ∃ method uri hostHeader,
      request = Http.buildRequest method uri hostHeader
  | _ => True

/-- The first byte a pinger must receive. -/
def Expects : StreamPinger → UInt8 → Prop
  | tcp, _ => True
  | http _, b => b = 72
  | rtsp _ _, b => b = 82
  | rtmp _, b => b = Rtmp.rtmpVersion
  | mqtt _ _ _ _, b => b &&& 0xF0 = 0x20

end StreamPinger

/-- The first byte a fixture sends; the echo has none of its own. -/
def Testserver.StreamFixture.first : StreamFixture → UInt8
  | tcpEcho => 0
  | httpOk => 72
  | rtspOk => 82
  | rtmpOk => Rtmp.rtmpVersion
  | mqttOk => 0x20

namespace Testserver

theorem MqttDue.connack_isPrefix {received due : Bytes}
    {packets : List (UInt8 × Bytes)} (h : MqttDue received packets due) :
    connack <+: due := by
  induction h with
  | connect => exact List.prefix_rfl
  | pingreq _ _ _ ih => exact ih.trans (List.prefix_append _ _)

theorem eq_of_cons_isPrefix {b c : UInt8} {s t : Bytes} (h : b :: s <+: c :: t) :
    b = c :=
  (List.cons_prefix_cons.mp h).1

/-- What a fixture of its own protocol sends begins with its first byte. -/
theorem StreamFixture.Sent.eq_first {fixture : StreamFixture}
    (hfixture : fixture ≠ tcpEcho) {received rest : Bytes} {b : UInt8}
    (h : fixture.Sent received (b :: rest)) : b = fixture.first := by
  cases fixture with
  | tcpEcho => exact absurd rfl hfixture
  | httpOk => exact eq_of_cons_isPrefix h
  | rtspOk =>
      obtain hnil | ⟨hfront, -⟩ := h
      · cases hnil
      · exact eq_of_cons_isPrefix hfront
  | rtmpOk =>
      obtain hnil | ⟨c1, -, -, hfront⟩ := h
      · cases hnil
      · exact eq_of_cons_isPrefix hfront
  | mqttOk =>
      obtain hnil | ⟨front, packets, due, -, hdue, hfront⟩ := h
      · cases hnil
      · obtain ⟨more, rfl⟩ := hdue.connack_isPrefix
        exact eq_of_cons_isPrefix hfront

end Testserver

namespace StreamPinger

variable {received sent : Bytes} {pinger : StreamPinger}

/-- A first read that is judged well begins with the name of the protocol. -/
theorem prefix_of_checkStatusLine
    (h : Http.checkStatusLine (Utf8.lossy (Http.buffer received)) = .ok ()) :
    Utf8.encode "HTTP/".toList <+: received := by
  have hline : "HTTP/".toList <+: Str.beforeFirst "\r\n".toList
      (Utf8.lossy (Http.buffer received)) := by
    by_contra hnot
    rw [Http.checkStatusLine, if_pos hnot] at h
    cases h
  exact Http.prefix_of_prefix_buffer (by decide)
    (Utf8.encode_prefix_of_lossy (by decide)
      (hline.trans (Str.beforeFirst_isPrefix _ _)))

/-- A pinger that has succeeded has received the byte it expects. -/
theorem Succeeded.exists_cons (hpinger : pinger ≠ tcp)
    (h : Succeeded received sent pinger) :
    ∃ b rest, received = b :: rest ∧ pinger.Expects b := by
  cases pinger with
  | tcp => exact absurd rfl hpinger
  | http request =>
      obtain ⟨rest, rfl⟩ := prefix_of_checkStatusLine h.2.2
      exact ⟨72, _, rfl, rfl⟩
  | rtsp domain port =>
      obtain ⟨rest, rfl⟩ := h.1
      exact ⟨82, _, rfl, rfl⟩
  | rtmp nanos =>
      obtain ⟨s1, ⟨-, s2, -, hreceived⟩, -⟩ := h
      exact ⟨_, _, hreceived, rfl⟩
  | mqtt nanos clientId keepalive version =>
      obtain ⟨⟨rest, ⟨packet, spelled, rfl, ⟨digits, rfl, -⟩, htype, -⟩, -⟩, -⟩ := h
      exact ⟨packet.packetType, _, rfl, htype⟩

/-- Only its own fixture begins as a pinger expects. -/
theorem eq_fixture_of_expects (hpinger : pinger ≠ tcp) {fixture : StreamFixture}
    (hfixture : fixture ≠ tcpEcho) (h : pinger.Expects fixture.first) :
    fixture = pinger.fixture := by
  have hhttp : fixture.first = 72 → fixture = httpOk := by
    cases fixture <;> decide
  have hrtsp : fixture.first = 82 → fixture = rtspOk := by
    cases fixture <;> decide
  have hrtmp : fixture.first = Rtmp.rtmpVersion → fixture = rtmpOk := by
    cases fixture <;> decide
  have hmqtt : fixture.first &&& 0xF0 = 0x20 → fixture = mqttOk := by
    cases fixture <;> decide
  cases pinger with
  | tcp => exact absurd rfl hpinger
  | http request => exact hhttp h
  | rtsp domain port => exact hrtsp h
  | rtmp nanos => exact hrtmp h
  | mqtt nanos clientId keepalive version => exact hmqtt h

/-- No method begins as a response does. -/
theorem encode_buildRequest (method : Http.HttpMethod) (uri : URI)
    (hostHeader : Text) :
    ∃ b rest, Utf8.encode (Http.buildRequest method uri hostHeader) = b :: rest ∧
      b ≠ 72 := by
  cases method with
  | connect | get | post | put | delete | patch =>
      exact ⟨_, _, rfl, by decide⟩

/-- The echo of its own opening does not serve a pinger. -/
theorem Succeeded.not_echoed (hpinger : pinger ≠ tcp) (hbuilt : pinger.Built)
    (h : Succeeded received sent pinger) (hechoed : received <+: sent)
    (hle : received.length ≤ bufSize) : False := by
  obtain ⟨b, rest, rfl, hexpects⟩ := h.exists_cons hpinger
  cases pinger with
  | tcp => exact hpinger rfl
  | http request =>
      obtain ⟨-, rfl, -⟩ := h
      obtain ⟨method, uri, hostHeader, rfl⟩ := hbuilt
      obtain ⟨c, more, hopening, hc⟩ := encode_buildRequest method uri hostHeader
      rw [opening, hopening] at hechoed
      exact hc ((eq_of_cons_isPrefix hechoed).symm.trans hexpects)
  | rtsp domain port =>
      obtain ⟨-, rfl⟩ := h
      rw [opening, Rtsp.buildOptionsRequest_eq] at hechoed
      have hfirst : b = 79 := eq_of_cons_isPrefix hechoed
      exact absurd (hfirst.symm.trans hexpects) (by decide)
  | rtmp nanos =>
      obtain ⟨s1, ⟨hs1, s2, hs2, hreceived⟩, -⟩ := h
      have hlength := congrArg List.length hreceived
      rw [List.length_cons (a := Rtmp.rtmpVersion), List.length_append, hs1, hs2,
        Rtmp.handshakePayloadLen] at hlength
      rw [bufSize] at hle
      omega
  | mqtt nanos clientId keepalive version =>
      obtain ⟨more, rfl⟩ := h.2
      have hfirst : b = Mqtt.typeConnect := eq_of_cons_isPrefix hechoed
      rw [hfirst] at hexpects
      change Mqtt.typeConnect &&& 0xF0 = 0x20 at hexpects
      exact absurd hexpects (by decide)

/-- Under every schedule, a pinger with an answer to wait for succeeds at its
own fixture only. -/
theorem not_succeeded_of_ne (debug : Text → Text) (hpinger : pinger ≠ tcp)
    (hbuilt : pinger.Built) {fixture : StreamFixture}
    (hfixture : fixture ≠ pinger.fixture) {up down : ℕ}
    {n : Network UInt8 Fault (Outcome Unit) fixture.Ending}
    (hn : Network.Reachable (fixture.setting halt up down)
      (Network.start (pinger.exchange debug).run fixture.session) n) :
    n.left ≠ .done (.ok ()) := by
  intro hdone
  have horderly : Orderly pinger n := .of_keeps (keeps_of_reachable debug hn)
  have hsucceeded := horderly.succeeded hdone
  have hsent := sent_of_keeps (StreamFixture.keeps_of_reachable hn)
  by_cases hecho : fixture = tcpEcho
  · subst hecho
    obtain ⟨hechoed, hle⟩ := hsent
    have hreceived : n.leftReceived <+: n.rightReceived :=
      (List.prefix_append _ _).trans hechoed
    exact hsucceeded.not_echoed hpinger hbuilt
      (hreceived.trans (List.prefix_append _ _)) (hreceived.length_le.trans hle)
  · obtain ⟨b, rest, hreceived, hexpects⟩ := hsucceeded.exists_cons hpinger
    rw [hreceived, List.cons_append] at hsent
    rw [hsent.eq_first hecho] at hexpects
    exact hfixture (eq_fixture_of_expects hpinger hecho hexpects)

/-- What fits the channels and the buffers of the fixture. -/
def Fits (up down : ℕ) : StreamPinger → Prop
  | tcp => True
  | http request =>
      (Utf8.encode request).length ≤ up ∧ httpOkResponse.length ≤ down
  | rtsp domain port =>
      ¬Rtsp.headerTerminator <:+: Utf8.encode domain ∧
        (Rtsp.buildOptionsRequest domain port).length ≤ bufSize
  | rtmp _ => True
  | mqtt nanos clientId keepalive version =>
      (Mqtt.openingPacket nanos clientId keepalive version).body.length ≤
        268435455

/-- The pinger has succeeded next to this fixture. -/
def SucceedsAt (debug : Text → Text) (pinger : StreamPinger)
    (fixture : StreamFixture) (up down : ℕ) : Prop :=
  ∃ n, Network.Reachable (fixture.setting halt up down)
      (Network.start (pinger.exchange debug).run fixture.session) n ∧
    n.left = .done (.ok ())

theorem succeedsAt_httpOk (debug : Text → Text) {request : Text} {up down : ℕ}
    (hbuilt : (http request).Built) (hfits : (http request).Fits up down) :
    SucceedsAt debug (http request) httpOk up down := by
  obtain ⟨method, uri, hostHeader, rfl⟩ := hbuilt
  obtain ⟨b, rest, hopening, -⟩ := encode_buildRequest method uri hostHeader
  obtain ⟨n, hn, hdone, -⟩ := Http.exists_verdict_of_isPrefix
    (by rw [hopening]; exact List.cons_ne_nil _ _) hfits.1 List.prefix_rfl
    (by decide +kernel) hfits.2
  have hok := (Http.checkStatusLine_take _ (Nat.le_refl _)).mpr (by decide +kernel)
  rw [List.take_length] at hok
  exact ⟨n, hn, hdone.trans (congrArg _ hok)⟩

theorem exists_succeeds (debug : Text → Text)
    (hhttp : ∀ request, pinger ≠ http request) {up down : ℕ} (hup : 0 < up)
    (hdown : 0 < down) (hfits : pinger.Fits up down) :
    ∃ c U D, Network.Succeeds (pinger.fixture.setting halt up down)
      (pinger.exchange debug).run pinger.fixture.session (.ok ()) c U D := by
  have hends := ends_setting (α := Outcome Unit) pinger.fixture up down
  cases pinger with
  | tcp => exact ⟨_, _, _, Level4.confer_echo.succeeds hends hup hdown⟩
  | http request => exact absurd rfl (hhttp request)
  | rtsp domain port =>
      exact ⟨_, _, _, (Rtsp.confer_options debug hfits.1 hfits.2).succeeds hends
        hup hdown⟩
  | rtmp nanos =>
      have hs1 : rtmpS1.length = Rtmp.handshakePayloadLen :=
        List.length_replicate
      exact ⟨_, _, _, (Rtmp.converse_handshake (Rtmp.length_buildC1 nanos)
        hs1).succeeds hends hup hdown⟩
  | mqtt nanos clientId keepalive version =>
      exact ⟨_, _, _, (Mqtt.converse_session rfl hfits).succeeds hends hup hdown⟩

/-- No schedule keeps the pinger from its success at its own fixture. -/
structure AlwaysSucceeds (debug : Text → Text) (pinger : StreamPinger)
    (up down : ℕ) : Prop where
  /-- No run is infinite. -/
  ends : Acc
    (fun n' n => Network.Step (pinger.fixture.setting halt up down) n n')
    (Network.start (pinger.exchange debug).run pinger.fixture.session)
  verdict : ∀ n r,
    Network.Reachable (pinger.fixture.setting halt up down)
      (Network.start (pinger.exchange debug).run pinger.fixture.session) n →
    n.left = .done r → r = .ok ()
  /-- A run that cannot go on is over for both, with nothing under way. -/
  complete : ∀ n,
    Network.Reachable (pinger.fixture.setting halt up down)
      (Network.start (pinger.exchange debug).run pinger.fixture.session) n →
    (¬∃ n', Network.Step (pinger.fixture.setting halt up down) n n') →
    n.left = .done (.ok ()) ∧ Finished pinger.fixture.resume n.right ∧
      n.toRight = [] ∧ n.toLeft = []

/-- Under every schedule, a pinger succeeds at its own fixture; but the HTTP
pinger judges what its one read has happened to return. -/
theorem succeeds_fixture (debug : Text → Text)
    (hhttp : ∀ request, pinger ≠ http request) {up down : ℕ} (hup : 0 < up)
    (hdown : 0 < down) (hfits : pinger.Fits up down) :
    AlwaysSucceeds debug pinger up down := by
  obtain ⟨c, U, D, h⟩ := exists_succeeds debug hhttp hup hdown hfits
  refine ⟨h.ends, fun n r hn hdone => ?_, fun n hn hstuck => ?_⟩
  · exact (h.sound n hn).left r hdone rfl
  · have hcomplete := (h.sound n hn).complete hstuck
    exact ⟨hcomplete.left.1, ⟨c, hcomplete.right⟩, hcomplete.toRight,
      hcomplete.toLeft⟩

/-- The MQTT pinger and the broker, with channels that hold one byte. -/
theorem succeeds_fixture_mqtt :
    AlwaysSucceeds id (mqtt 0 (some []) 30 .v5) 1 1 := by
  have hfits : (mqtt 0 (some []) 30 .v5).Fits 1 1 := by
    change (Mqtt.openingPacket 0 (some []) 30 .v5).body.length ≤ 268435455
    decide
  have hhttp : ∀ request, mqtt 0 (some []) 30 .v5 ≠ http request := nofun
  exact succeeds_fixture id hhttp (by decide) (by decide) hfits

/-- Some schedule serves a pinger at its own fixture. -/
theorem succeedsAt_fixture (debug : Text → Text) {up down : ℕ} (hup : 0 < up)
    (hdown : 0 < down) (hbuilt : pinger.Built) (hfits : pinger.Fits up down) :
    SucceedsAt debug pinger pinger.fixture up down := by
  by_cases hhttp : ∃ request, pinger = http request
  · obtain ⟨request, rfl⟩ := hhttp
    exact succeedsAt_httpOk debug hbuilt hfits
  · obtain ⟨c, U, D, hsucceeds⟩ := exists_succeeds debug
      (fun request h => hhttp ⟨request, h⟩) hup hdown hfits
    obtain ⟨n, hn, hcomplete⟩ := hsucceeds.exists_complete
    exact ⟨n, hn, hcomplete.left.1⟩

/-- A pinger with an answer to wait for can succeed at its own fixture, and at
no other. -/
theorem succeedsAt_iff (debug : Text → Text) (hpinger : pinger ≠ tcp)
    {fixture : StreamFixture} {up down : ℕ} (hup : 0 < up) (hdown : 0 < down)
    (hbuilt : pinger.Built) (hfits : pinger.Fits up down) :
    SucceedsAt debug pinger fixture up down ↔ fixture = pinger.fixture := by
  constructor
  · rintro ⟨n, hn, hdone⟩
    by_contra hfixture
    exact not_succeeded_of_ne debug hpinger hbuilt hfixture hn hdone
  · rintro rfl
    exact succeedsAt_fixture debug hup hdown hbuilt hfits

/-- The RTMP pinger at the echo, which returns its C0 and a part of its C1. -/
theorem succeedsAt_iff_rtmp :
    SucceedsAt id (rtmp 0) tcpEcho 1 1 ↔ tcpEcho = rtmpOk := by
  have hpinger : rtmp 0 ≠ tcp := nofun
  exact succeedsAt_iff id hpinger (by decide) (by decide) trivial trivial

end StreamPinger

end KnockKnock
