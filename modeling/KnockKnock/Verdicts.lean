import KnockKnock.Http.Exchange
import KnockKnock.Mqtt.Dialogue
import KnockKnock.Rtmp.Handshake
import KnockKnock.Rtsp.Options
import KnockKnock.Support.Peer

/-!
# What an `Ok` verdict rests on

The five pingers that speak over a stream, each against a peer that takes all
writes, sends what it likes and ends its stream as it likes.  They listen
before they return; but the TCP pinger does not look at what its read has
returned, and calls a peer alive that has closed the connection.
-/

namespace KnockKnock

open ByteStream Program

namespace Level4

/-- What `TcpPinger::ping` does with its stream. -/
def ping : Exchange Unit := do
  Exchange.writeAll [1]
  let _ ← Exchange.read Http.bufSize
  pure ()

end Level4

namespace Http

namespace Client

/-- `run_exchange` as a program. -/
def runExchange (request : Text) : Exchange Unit := do
  Exchange.writeAll (Utf8.encode request)
  let received ← Exchange.read bufSize
  Exchange.lift (checkStatusLine (Utf8.lossy (buffer received)))

theorem toSession_runExchange (request : Text) :
    Exchange.toSession (runExchange request) = Http.runExchange request := by
  simp only [runExchange, Http.runExchange, Exchange.toSession_bind,
    Exchange.toSession_writeAll, Exchange.toSession_read,
    Exchange.toSession_lift]

end Client

end Http

/-- The stream pingers, with what they need besides their stream. -/
inductive StreamPinger where
  | tcp
  | http (request : Text)
  | rtsp (domain : Text) (port : UInt16)
  | rtmp (nanos : UInt32)
  | mqtt (nanos : ℕ) (clientId : Option Text) (keepalive : UInt16)
      (version : Mqtt.MqttVersion)

namespace StreamPinger

/-- What the pinger does once it is connected; `debug` is how `{:?}` writes a
string. -/
def exchange (debug : Text → Text) : StreamPinger → Exchange Unit
  | tcp => Level4.ping
  | http request => Http.Client.runExchange request
  | rtsp domain port => Rtsp.exchange debug domain port
  | rtmp nanos => Rtmp.runHandshake nanos
  | mqtt nanos clientId keepalive version =>
      Mqtt.Client.runSession nanos clientId keepalive version

/-- An `Ok` verdict rests on at least one byte, and a peer that closes the
connection without any is not alive. -/
structure RestsOnAnswer (debug : Text → Text) (pinger : StreamPinger)
    (peer : Peer UInt8 Fault) : Prop where
  received : peer.result (pinger.exchange debug).run = .ok () →
    peer.received (pinger.exchange debug).run ≠ []
  notAlive : peer.sends.bytes = [] → peer.ending = none →
    peer.result (pinger.exchange debug).run ≠ .ok ()

end StreamPinger

/-! ## Listening -/

theorem Exchange.listens_writeAll {γ : Type} {bytes : Bytes}
    {f : Unit → Exchange γ} (h : Listens (f ()).run) :
    Listens (Exchange.writeAll bytes >>= f).run :=
  .writeAll h

theorem Exchange.listens_read {γ : Type} (n : ℕ) (f : Bytes → Exchange γ) :
    Listens (Exchange.read (n + 1) >>= f).run :=
  .read n _

theorem Exchange.listens_readExactOr {γ : Type} (early : Text) (n : ℕ)
    (f : Bytes → Exchange γ) :
    Listens (Exchange.readExactOr early (n + 1) >>= f).run :=
  .readExact n _

theorem Exchange.listens_bind {α γ : Type} {x : Exchange α}
    (h : Listens x.run) (f : α → Exchange γ) : Listens (x >>= f).run :=
  h.bind _

namespace StreamPinger

/-- All of them read before they return. -/
theorem listens_exchange (debug : Text → Text) (pinger : StreamPinger) :
    Listens (pinger.exchange debug).run := by
  cases pinger with
  | tcp => exact Exchange.listens_writeAll (Exchange.listens_read 254 _)
  | http request =>
      exact Exchange.listens_writeAll (Exchange.listens_read 254 _)
  | rtsp domain port =>
      refine Exchange.listens_writeAll (Exchange.listens_bind ?_ _)
      rw [Rtsp.readResponse]
      exact Exchange.listens_read 255 _
  | rtmp nanos =>
      exact Exchange.listens_writeAll (Exchange.listens_readExactOr _ 0 _)
  | mqtt nanos clientId keepalive version =>
      refine Exchange.listens_writeAll (Exchange.listens_bind ?_ _)
      exact Exchange.listens_readExactOr _ 0 _

/-! ## A peer that sends nothing -/

/-- At the end of its stream a peer is alive only for the TCP pinger. -/
theorem result_ne_ok (debug : Text → Text) {pinger : StreamPinger}
    (hpinger : pinger ≠ tcp) {peer : Peer UInt8 Fault}
    (hsends : peer.sends.bytes = []) :
    peer.result (pinger.exchange debug).run ≠ .ok () := by
  obtain ⟨sends, ending⟩ := peer
  obtain rfl := Delivery.eq_ended hsends
  cases pinger with
  | tcp => exact absurd rfl hpinger
  | http request =>
      cases ending with
      | none =>
          have hsilent : (Session.run (Http.runExchange request)
              (Session.opened Delivery.ended)).1 ≠ .ok () :=
            Http.runExchange_ne_ok (by decide)
          exact hsilent
      | some e => exact nofun
  | rtsp domain port =>
      unfold exchange Rtsp.exchange Rtsp.validateResponse
      rw [Rtsp.readResponse]
      cases ending with
      | none => exact nofun
      | some e => exact nofun
  | rtmp nanos =>
      cases ending with
      | none => exact nofun
      | some e => exact nofun
  | mqtt nanos clientId keepalive version =>
      cases ending with
      | none => exact nofun
      | some e => exact nofun

/-- To the TCP pinger the end of the stream is an answer. -/
theorem result_tcp (debug : Text → Text) (peer : Peer UInt8 Fault)
    (hending : peer.ending = none) :
    peer.result (tcp.exchange debug).run = .ok () := by
  obtain ⟨sends, ending⟩ := peer
  subst hending
  rfl

/-- The TCP pinger fails if its read does. -/
theorem result_tcp_ne_ok (debug : Text → Text) {peer : Peer UInt8 Fault}
    (hsends : peer.sends.bytes = []) (hending : peer.ending ≠ none) :
    peer.result (tcp.exchange debug).run ≠ .ok () := by
  obtain ⟨sends, _ | e⟩ := peer
  · exact absurd rfl hending
  · obtain rfl := Delivery.eq_ended hsends
    exact nofun

/-- Only the TCP pinger, and only at a stream that ends properly before its
first byte, reports what it has not seen. -/
theorem restsOnAnswer_iff (debug : Text → Text) (pinger : StreamPinger)
    (peer : Peer UInt8 Fault) :
    RestsOnAnswer debug pinger peer ↔
      pinger ≠ tcp ∨ peer.sends.bytes ≠ [] ∨ peer.ending ≠ none := by
  constructor
  · intro h
    by_contra hnot
    simp only [not_or, not_not] at hnot
    obtain ⟨rfl, hsends, hending⟩ := hnot
    exact h.notAlive hsends hending (result_tcp debug peer hending)
  · intro hcond
    have hsilent : peer.sends.bytes = [] →
        peer.result (pinger.exchange debug).run ≠ .ok () := by
      intro hsends
      -- The condition leaves the TCP pinger a stream that ends with an error.
      by_cases hpinger : pinger = tcp
      · subst hpinger
        have hending : peer.ending ≠ none := by
          simpa [hsends] using hcond
        exact result_tcp_ne_ok debug hsends hending
      · exact result_ne_ok debug hpinger hsends
    exact ⟨fun hok => (listens_exchange debug pinger).received_ne_nil
      fun hsends => hsilent hsends hok, fun hsends _ => hsilent hsends⟩

/-- A peer that accepts the connection and closes it. -/
def closing : Peer UInt8 Fault := ⟨.whole [], none⟩

theorem not_restsOnAnswer_closing : ¬RestsOnAnswer id tcp closing :=
  fun h => h.notAlive rfl rfl rfl

end StreamPinger

end KnockKnock
