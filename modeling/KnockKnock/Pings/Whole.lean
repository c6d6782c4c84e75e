import KnockKnock.Cli.FrontEnds
import KnockKnock.Datagrams.Pings
import KnockKnock.Hls.Fetch
import KnockKnock.Hls.Ping
import KnockKnock.Streams.Pingers
import KnockKnock.Websocket.Ping

/-!
# Whole pings

What a pinger dials is decided by its target, and what it makes of the answer
by the code of its protocol.  A whole ping is both, with what comes back in
between: from the peers, the system and the libraries, all of which may fail
with an error at any time.
-/

namespace KnockKnock

open ByteStream

/-- An error of the system or of a library. -/
structure IoError where
  kind : ErrorKind
  message : Text

/-- `?` -/
def IoError.handOn {α : Type} : Except IoError α → Outcome α
  | .ok a => pure a
  | .error e => Outcome.fail e.kind e.message

/-- What a ping meets.  An error is one of connecting, of a handshake, of
reading or writing, or of the time limit. -/
structure Surroundings (Frame CloseFrame : Type) where
  serverName : ServerNames
  /-- How `{:?}` writes a string. -/
  debug : Text → Text
  /-- What `SystemTime::now()` shows. -/
  now : Option SinceEpoch
  /-- What arrives over a connection on which these bytes are sent first. -/
  stream : Connection → Bytes → Except IoError (Delivery UInt8)
  /-- The datagram that comes back from an endpoint. -/
  datagram : Text → Bytes → Except IoError Bytes
  /-- The handshake of rustls. -/
  tls : Connection → Except IoError Unit
  /-- `client_async` of tungstenite for a target, and the events behind it. -/
  websocket : Text → Connection → Except IoError
    (Except Websocket.Error (List (Websocket.Event Frame CloseFrame)))
  websocketSend : List (Websocket.Message Frame CloseFrame) →
    Websocket.Message Frame CloseFrame → Except Websocket.Error Unit
  websocketDebug : Option CloseFrame → Text
  /-- The connection quinn makes to an endpoint, with these protocols. -/
  quic : Text → List Bytes → Except IoError Unit
  /-- The health check of tonic for a service, watched or not. -/
  grpc : Grpc.Transport → Text → Bool → Except IoError Unit

namespace Surroundings

variable {Frame CloseFrame : Type} (U : CharClasses)
  (s : Surroundings Frame CloseFrame)

/-- `d.subsec_nanos()`, or 0 with a clock in front of the epoch. -/
def nanos : UInt32 := (s.now.getD .zero).subsecNanos

/-- A stream pinger, connected. -/
def converse (connection : Connection) (pinger : StreamPinger) :
    Outcome Unit := do
  let arriving ← IoError.handOn (s.stream connection pinger.opening)
  (Session.run (Exchange.toSession (pinger.exchange s.debug))
    (Session.opened arriving)).1

/-- A datagram pinger with a socket that is connected to the endpoint. -/
def probe (endpoint : Text) (pinger : DatagramPinger) : Outcome Unit := do
  let p : Probe := ⟨pinger, s.now⟩
  let request ← p.request
  let d ← IoError.handOn (s.datagram endpoint request)
  p.receive d

/-- What the fetches of the HLS pinger come back with:
`http_get_with_range`. -/
def fetched : Hls.Server := fun fetch => do
  let (connection, request) ← Hls.request U s.serverName fetch.url fetch.range
  let arriving ← IoError.handOn (s.stream connection (Utf8.encode request))
  (Session.run (Hls.fetchResponseBody request)
    (Session.opened arriving)).1

end Surroundings

variable (U : CharClasses) {Frame CloseFrame : Type}
  (s : Surroundings Frame CloseFrame)

namespace Dns

/-- `DnsPinger::ping` -/
def ping (server query : Text) (recordType : RecordType) : Outcome Unit :=
  if query = [] then
    Outcome.fail .invalidInput "DNS query name is empty".toList
  else do
    let endpoint ← serverEndpoint U server
    s.probe endpoint (.dns query recordType)

end Dns

namespace Rtsp

/-- `RtspPinger::ping` -/
def ping (target : Text) : Outcome Unit := do
  let uri ← getUri U target
  let connection ← connect U s.serverName target
  let port := portOr uri (if connection.tls.isSome then 322 else 554)
  s.converse connection (.rtsp uri.domain port)

end Rtsp

/-- `ping`, by the pinger. -/
def BuiltPinger.ping (p : BuiltPinger) : Outcome Unit :=
  match p.kind with
  | .tcp => s.converse ⟨none, p.target⟩ .tcp
  | .udp => s.probe p.target .udp
  | .http method => do
      let (connection, request) ←
        Http.request U s.serverName method p.target
      s.converse connection (.http request)
  | .ws => do
      let connection ← Websocket.connect U s.serverName p.target
      let clientAsync ← IoError.handOn (s.websocket p.target connection)
      (Websocket.runHandshakeAndPing s.websocketSend s.websocketDebug
        clientAsync).1
  | .dns query recordType => Dns.ping U s p.target query recordType
  | .grpc service => do
      let transport ← Grpc.connect U p.target
      IoError.handOn (s.grpc transport service false)
  | .grpcStream service => do
      let transport ← Grpc.connect U p.target
      IoError.handOn (s.grpc transport service true)
  | .hls => ((Hls.ping U p.target).run (s.fetched U)).1
  | .mqtt clientId keepalive version => do
      let connection ← Mqtt.connect U s.serverName p.target
      s.converse connection
        (.mqtt s.nanos.toNat clientId keepalive version)
  | .tls => do
      let connection ← Tls.connect U s.serverName p.target
      IoError.handOn (s.tls connection)
  | .ntp => do
      let endpoint ← Ntp.serverEndpoint U p.target
      s.probe endpoint .ntp
  | .stun => do
      let endpoint ← Stun.serverEndpoint U p.target 3478
      s.probe endpoint .stun
  | .turn => do
      let endpoint ← Stun.serverEndpoint U p.target 3478
      s.probe endpoint .turn
  | .rtsp => Rtsp.ping U s p.target
  | .rtmp => do
      let connection ← Rtmp.connect U s.serverName p.target
      s.converse connection (.rtmp s.nanos)
  | .quic alpn => do
      let endpoint ← Quic.dialled U p.target
      IoError.handOn (s.quic endpoint alpn)

/-- The text `ping` parses first, if it parses one: QUIC trims its endpoint. -/
def BuiltPinger.parsed (p : BuiltPinger) : Text :=
  match p.kind with
  | .quic _ => Str.trim p.target
  | _ => p.target

end KnockKnock
