import KnockKnock.Uri.Parse

/-!
# From a target text to the endpoint a pinger dials

Every pinger turns its target into a `host:port` text before it opens a
socket.  The protocols differ in their default ports, in the schemes they
accept and in where they refuse a target without a host.

`ServerName::try_from` belongs to rustls; it is a parameter that accepts a
domain or gives the text of its error.
-/

namespace KnockKnock

open Numeral

/-- `ServerName::try_from(domain)` -/
abbrev ServerNames := Text → Except Text Unit

/-- `if uri.port > 0 { uri.port as u16 } else { default_port }` -/
def portOr (uri : URI) (defaultPort : UInt16) : UInt16 :=
  if 0 < uri.port then UInt16.ofInt uri.port else defaultPort

/-- `format!("{}:{}", domain, port)` -/
def hostPort (domain : Text) (port : UInt16) : Text :=
  domain ++ ':' :: decimal port.toNat

/-- The body the `endpoint_for` and `server_endpoint` functions share. -/
def endpointOr (missing : Text) (uri : URI) (defaultPort : UInt16) :
    Outcome Text :=
  if uri.domain = [] then Outcome.fail .invalidInput missing
  else pure (hostPort uri.domain (portOr uri defaultPort))

/-- A stream connection: the endpoint, and the name TLS is to verify, if the
connection is wrapped in TLS. -/
structure Connection where
  tls : Option Text
  endpoint : Text
deriving DecidableEq, Repr

/-- `ping_plain` up to `TcpStream::connect`. -/
def connectPlain (endpoint : Outcome Text) : Outcome Connection := do
  let endpoint ← endpoint
  pure ⟨none, endpoint⟩

/-- `ping_tls` up to `TcpStream::connect`. -/
def connectTls (serverName : ServerNames) (uri : URI)
    (endpoint : Outcome Text) : Outcome Connection := do
  let endpoint ← endpoint
  match serverName uri.domain with
  | .ok _ => pure ⟨some uri.domain, endpoint⟩
  | .error e => Outcome.fail .invalidInput e

/-- The error for a scheme a pinger does not speak. -/
def unsupportedScheme (pinger usage other : Text) : Text :=
  "scheme '".toList ++ other ++ "' is not supported by ".toList ++ pinger ++
    " (use ".toList ++ usage ++ ")".toList

/-- `match scheme.as_str()` of the stream pingers. -/
def dispatchScheme (plainSchemes : List Text) (tlsScheme : Text)
    (unsupported : Text → Text) (plain tls : Outcome Connection)
    (uri : URI) : Outcome Connection :=
  let scheme := Str.toAsciiLowercase uri.scheme
  if scheme ∈ plainSchemes then plain
  else if scheme = tlsScheme then tls
  else Outcome.fail .other (unsupported scheme)

variable (U : CharClasses) (serverName : ServerNames)

namespace Http

def endpointFor : URI → UInt16 → Outcome Text :=
  endpointOr "missing host in target URL".toList

/-- `HttpPinger::ping` up to the connection. -/
def connect (target : Text) : Outcome Connection := do
  let uri ← getUri U target
  dispatchScheme [[], "http".toList] "https".toList
    (unsupportedScheme "HttpPinger".toList "http:// or https://".toList)
    (connectPlain (endpointFor uri 80))
    (connectTls serverName uri (endpointFor uri 443)) uri

end Http

namespace Websocket

def endpointFor : URI → UInt16 → Outcome Text :=
  endpointOr "missing host in target URL".toList

/-- `WebSocketPinger::ping` up to the connection. -/
def connect (target : Text) : Outcome Connection := do
  let uri ← getUri U target
  dispatchScheme ["ws".toList] "wss".toList
    (unsupportedScheme "WebSocketPinger".toList "ws:// or wss://".toList)
    (connectPlain (endpointFor uri 80))
    (connectTls serverName uri (endpointFor uri 443)) uri

end Websocket

namespace Mqtt

def endpointFor : URI → UInt16 → Outcome Text :=
  endpointOr "missing host in MQTT broker URL".toList

/-- `MqttPinger::ping` up to the connection. -/
def connect (server : Text) : Outcome Connection := do
  let uri ← getUri U server
  dispatchScheme [[], "mqtt".toList] "mqtts".toList
    (unsupportedScheme "MqttPinger".toList "mqtt:// or mqtts://".toList)
    (connectPlain (endpointFor uri 1883))
    (connectTls serverName uri (endpointFor uri 8883)) uri

end Mqtt

namespace Hls

def endpointFor : URI → UInt16 → Outcome Text :=
  endpointOr "missing host in URL".toList

/-- `http_get_with_range` up to the connection. -/
def connect (url : Text) : Outcome Connection := do
  let uri ← getUri U url
  dispatchScheme [[], "http".toList] "https".toList
    (unsupportedScheme "HlsPinger".toList "http:// or https://".toList)
    (connectPlain (endpointFor uri 80))
    (connectTls serverName uri (endpointFor uri 443)) uri

end Hls

namespace Rtsp

def portOr : URI → UInt16 → UInt16 := KnockKnock.portOr

/-- The host is checked by the caller. -/
def endpointFor (uri : URI) (defaultPort : UInt16) : Outcome Text :=
  pure (hostPort uri.domain (portOr uri defaultPort))

/-- `RtspPinger::ping` up to the connection. -/
def connect (target : Text) : Outcome Connection := do
  let uri ← getUri U target
  if uri.domain = [] then
    Outcome.fail .invalidInput "RTSP target is missing a host".toList
  else
    dispatchScheme [[], "rtsp".toList] "rtsps".toList
      (unsupportedScheme "RtspPinger".toList "rtsp:// or rtsps://".toList)
      (connectPlain (endpointFor uri 554))
      (connectTls serverName uri (endpointFor uri 322)) uri

end Rtsp

namespace Rtmp

/-- The host is checked by the caller. -/
def endpointFor (uri : URI) (defaultPort : UInt16) : Outcome Text :=
  pure (hostPort uri.domain (portOr uri defaultPort))

/-- `RtmpPinger::ping` up to the connection. -/
def connect (target : Text) : Outcome Connection := do
  let uri ← getUri U target
  if uri.domain = [] then
    Outcome.fail .invalidInput "RTMP target is missing a host".toList
  else
    dispatchScheme [[], "rtmp".toList] "rtmps".toList
      (unsupportedScheme "RtmpPinger".toList "rtmp:// or rtmps://".toList)
      (connectPlain (endpointFor uri 1935))
      (connectTls serverName uri (endpointFor uri 443)) uri

end Rtmp

namespace Tls

/-- `TlsPinger::ping` up to the connection. -/
def connect (target : Text) : Outcome Connection := do
  let uri ← getUri U target
  connectTls serverName uri
    (endpointOr "TLS target is missing a host".toList uri 443)

end Tls

namespace Dns

def serverEndpoint (server : Text) : Outcome Text := do
  let uri ← getUri U server
  endpointOr "DNS server target is missing a host".toList uri 53

end Dns

namespace Ntp

def serverEndpoint (server : Text) : Outcome Text := do
  let uri ← getUri U server
  endpointOr "NTP server target is missing a host".toList uri 123

end Ntp

namespace Stun

def serverEndpoint (server : Text) (defaultPort : UInt16) :
    Outcome Text := do
  let uri ← getUri U server
  endpointOr "STUN/TURN server target is missing a host".toList uri
    defaultPort

end Stun

namespace Quic

/-- The endpoint is trimmed before it is parsed. -/
def parseEndpoint (endpoint : Text) : Outcome (Text × UInt16) :=
  let trimmed := Str.trim endpoint
  if trimmed = [] then
    Outcome.fail .invalidInput "QUIC endpoint is empty".toList
  else do
    let uri ← getUri U trimmed
    let scheme := Str.toAsciiLowercase uri.scheme
    if scheme ∈ [[], "quic".toList, "https".toList, "h3".toList] then
      if uri.domain = [] then
        Outcome.fail .invalidInput "QUIC endpoint is missing a host".toList
      else pure (uri.domain, portOr uri 443)
    else
      Outcome.fail .invalidInput
        (unsupportedScheme "QuicPinger".toList
          "quic://, https://, or host:port".toList scheme)

/-- The text `resolve_first` looks up. -/
def dialled (endpoint : Text) : Outcome Text := do
  let (host, port) ← parseEndpoint U endpoint
  pure (hostPort host port)

end Quic

namespace Grpc

/-- `grpc://` and `grpcs://` become `http://` and `https://`; a text without a
known scheme is taken for plaintext. -/
def normalizeEndpoint (input : Text) : Outcome Text :=
  let trimmed := Str.trim input
  if trimmed = [] then
    Outcome.fail .invalidInput "empty gRPC endpoint".toList
  else
    match Str.stripPrefix "grpcs://".toList trimmed with
    | some rest => pure ("https://".toList ++ rest)
    | none =>
        match Str.stripPrefix "grpc://".toList trimmed with
        | some rest => pure ("http://".toList ++ rest)
        | none =>
            if "http://".toList <+: trimmed ∨ "https://".toList <+: trimmed
            then pure trimmed else pure ("http://".toList ++ trimmed)

/-- What `ping` decides before it hands `url` to tonic. -/
structure Transport where
  url : Text
  isTls : Bool
  domain : Text
deriving DecidableEq, Repr

/-- `GrpcPinger::ping` and `GrpcStreamPinger::ping` up to
`Endpoint::from_shared`. -/
def connect (endpoint : Text) : Outcome Transport := do
  let url ← normalizeEndpoint endpoint
  let uri ← getUri U endpoint
  let scheme := Str.toAsciiLowercase uri.scheme
  pure {
    url := url
    isTls := scheme == "grpcs".toList || scheme == "https".toList
    domain := uri.domain }

end Grpc

/-! ## All pingers -/

/-- The pingers that parse a URL. -/
inductive Pinger where
  | http
  | websocket
  | mqtt
  | hls
  | rtsp
  | rtmp
  | tls
  | dns
  | ntp
  | stun
  | turn
  | quic
deriving DecidableEq, Repr

/-- The `host:port` text a pinger dials for a target. -/
def Pinger.dialled : Pinger → Text → Outcome Text
  | .http, target => return (← Http.connect U serverName target).endpoint
  | .websocket, target =>
      return (← Websocket.connect U serverName target).endpoint
  | .mqtt, target => return (← Mqtt.connect U serverName target).endpoint
  | .hls, target => return (← Hls.connect U serverName target).endpoint
  | .rtsp, target => return (← Rtsp.connect U serverName target).endpoint
  | .rtmp, target => return (← Rtmp.connect U serverName target).endpoint
  | .tls, target => return (← Tls.connect U serverName target).endpoint
  | .dns, target => Dns.serverEndpoint U target
  | .ntp, target => Ntp.serverEndpoint U target
  | .stun, target => Stun.serverEndpoint U target 3478
  | .turn, target => Stun.serverEndpoint U target 3478
  | .quic, target => Quic.dialled U target

end KnockKnock
