import KnockKnock.Targets.Endpoints

/-!
# The `DNS lookup:` banner

Before it pings, the command-line tool shows the addresses of the host it is
about to dial.  `main` rewrites the target of each command so that `resolve`
finds the protocol's default port in it, and `resolve` parses the rewritten
text again.
-/

namespace KnockKnock

variable (U : CharClasses)

/-- The `host:port` text `resolve` looks up, if the URL has a host. -/
def lookupTarget (url : Text) : Outcome (Option Text) := do
  let uri ← getUri U url
  if uri.domain = [] then pure none
  else
    let scheme := Str.toAsciiLowercase uri.scheme
    let port :=
      if 0 < uri.port then UInt16.ofInt uri.port
      else if scheme = "https".toList ∨ scheme = "wss".toList then 443
      else 80
    pure (some (hostPort uri.domain port))

/-- `zpinger::resolve`, where `lookupHost` is the system's resolver. -/
def resolve {Addr : Type} (lookupHost : Text → Option (List Addr))
    (url : Text) : Outcome (List Addr) := do
  match ← lookupTarget U url with
  | none => pure []
  | some target => pure ((lookupHost target).getD [])

namespace Cli

inductive HttpMethod where
  | connect (target : Text)
  | get (target : Text)
  | post (target : Text)
  | put (target : Text)
  | delete (target : Text)
  | patch (target : Text)
deriving DecidableEq, Repr

inductive DnsType where
  | a
  | aaaa
  | cname
  | mx
  | ns
  | txt
deriving DecidableEq, Repr

inductive Command where
  | tcp (target : Text)
  | udp (target : Text)
  | http (method : HttpMethod)
  | ws (target : Text)
  | dns (server query : Text) (recordType : DnsType)
  | grpc (endpoint service : Text) (watch : Bool)
  | hls (url : Text)
  | mqtt (broker : Text) (clientId : Option Text) (v5 : Bool)
  | tls (target : Text)
  | ntp (server : Text)
  | stun (server : Text)
  | turn (server : Text)
  | rtsp (target : Text)
  | rtmp (target : Text)
  | quic (endpoint alpn : Text)
deriving DecidableEq, Repr

def HttpMethod.target : HttpMethod → Text
  | .connect target | .get target | .post target | .put target
  | .delete target | .patch target => target

def targetOf : Command → Text
  | .tcp target => target
  | .udp target => target
  | .ws target => target
  | .dns server _ _ => server
  | .mqtt broker _ _ => broker
  | .grpc endpoint _ _ => endpoint
  | .hls url => url
  | .tls target => target
  | .ntp server => server
  | .stun server => server
  | .turn server => server
  | .rtsp target => target
  | .rtmp target => target
  | .quic endpoint _ => endpoint
  | .http method => method.target

/-- A target without a port gets the protocol's default one. -/
def defaultPortTarget (target : Text) (defaultPort : UInt16) :
    Outcome Text := do
  let uri ← getUri U target
  if uri.port = 0 ∧ uri.domain ≠ [] then
    pure (hostPort uri.domain defaultPort)
  else pure target

/-- `resolve_target` in `main`. -/
def resolveTarget : Command → Outcome Text
  | .dns server _ _ => defaultPortTarget U server 53
  | .mqtt broker _ _ => do
      let uri ← getUri U broker
      let schemeDefault :=
        if Str.eqIgnoreAsciiCase uri.scheme "mqtts".toList then 8883
        else 1883
      defaultPortTarget U broker schemeDefault
  | .grpc endpoint _ _ =>
      match Str.stripPrefix "grpcs://".toList endpoint with
      | some rest => pure ("https://".toList ++ rest)
      | none =>
          match Str.stripPrefix "grpc://".toList endpoint with
          | some rest => pure ("http://".toList ++ rest)
          | none => pure endpoint
  | .tls target =>
      if Str.contains target "://".toList ∨ Str.contains target [':'] then
        pure target
      else pure ("https://".toList ++ target)
  | .ntp server => defaultPortTarget U server 123
  | .stun server => defaultPortTarget U server 3478
  | .turn server => defaultPortTarget U server 3478
  | .rtsp target => do
      let uri ← getUri U target
      let p :=
        if Str.toAsciiLowercase uri.scheme = "rtsps".toList then 322 else 554
      defaultPortTarget U target p
  | .rtmp target => do
      let uri ← getUri U target
      let p :=
        if Str.toAsciiLowercase uri.scheme = "rtmps".toList then 443
        else 1935
      defaultPortTarget U target p
  | .quic endpoint _ =>
      match Str.stripPrefix "quic://".toList endpoint with
      | some rest => pure ("https://".toList ++ rest)
      | none => defaultPortTarget U endpoint 443
  | command => pure (targetOf command)

/-- The addresses the banner shows. -/
def banner {Addr : Type} (lookupHost : Text → Option (List Addr))
    (command : Command) : Outcome (List Addr) := do
  resolve U lookupHost (← resolveTarget U command)

end Cli

end KnockKnock
