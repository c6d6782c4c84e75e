import KnockKnock.Cli.Counts
import KnockKnock.Dns.Query
import KnockKnock.Http.Requests
import KnockKnock.Mqtt.Connect
import KnockKnock.Quic.Alpn
import KnockKnock.Targets.Banner

/-!
# Two front ends

The command line and the MCP server make the same pingers from arguments of
their own, and repeat them in loops of their own.  A command and a tool call
report alike, whatever the pings come back with, if and only if they make one
pinger and repeat it equally often.  What only one of them can ask for is then
a time limit other than five seconds, or no ping at all.
-/

namespace KnockKnock

/-! ## The pingers -/

/-- What a pinger does, besides where and for how long. -/
inductive PingerKind where
  | tcp
  | udp
  | http (method : Http.HttpMethod)
  | ws
  | dns (query : Text) (recordType : Dns.RecordType)
  | grpc (service : Text)
  | grpcStream (service : Text)
  | hls
  | mqtt (clientId : Option Text) (keepalive : UInt16)
      (version : Mqtt.MqttVersion)
  | tls
  | ntp
  | stun
  | turn
  | rtsp
  | rtmp
  | quic (alpn : List Bytes)
deriving DecidableEq

/-- A pinger of the library, without a TLS configuration of its own. -/
structure BuiltPinger where
  kind : PingerKind
  target : Text
  timeout : Duration
deriving DecidableEq

namespace BuiltPinger

/-- The `DEFAULT_TIMEOUT` of all pingers. -/
def defaultTimeout : Duration := QuicPinger.defaultTimeout

/-- The body the `new` functions share. -/
def new (kind : PingerKind) (target : Text) : BuiltPinger :=
  ⟨kind, target, defaultTimeout⟩

def withTimeout (p : BuiltPinger) (t : Duration) : BuiltPinger :=
  { p with timeout := t }

def withRecordType (p : BuiltPinger) (recordType : Dns.RecordType) :
    BuiltPinger :=
  match p.kind with
  | .dns query _ => { p with kind := .dns query recordType }
  | _ => p

def withService (p : BuiltPinger) (service : Text) : BuiltPinger :=
  match p.kind with
  | .grpc _ => { p with kind := .grpc service }
  | .grpcStream _ => { p with kind := .grpcStream service }
  | _ => p

def withClientId (p : BuiltPinger) (clientId : Text) : BuiltPinger :=
  match p.kind with
  | .mqtt _ keepalive version =>
      { p with kind := .mqtt (some clientId) keepalive version }
  | _ => p

def withVersion (p : BuiltPinger) (version : Mqtt.MqttVersion) : BuiltPinger :=
  match p.kind with
  | .mqtt clientId keepalive _ =>
      { p with kind := .mqtt clientId keepalive version }
  | _ => p

def ofQuic (p : QuicPinger Empty) : BuiltPinger :=
  ⟨.quic p.alpn, p.endpoint, p.timeout⟩

end BuiltPinger

def TcpPinger.new : Text → BuiltPinger := .new .tcp

def UdpPinger.new : Text → BuiltPinger := .new .udp

def HttpPinger.new (method : Http.HttpMethod) : Text → BuiltPinger :=
  .new (.http method)

def WebSocketPinger.new : Text → BuiltPinger := .new .ws

def DnsPinger.new (server query : Text) : BuiltPinger :=
  .new (.dns query .a) server

def GrpcPinger.new : Text → BuiltPinger := .new (.grpc [])

def GrpcStreamPinger.new : Text → BuiltPinger := .new (.grpcStream [])

def HlsPinger.new : Text → BuiltPinger := .new .hls

/-- `DEFAULT_KEEPALIVE` -/
def MqttPinger.defaultKeepalive : UInt16 := 60

def MqttPinger.new : Text → BuiltPinger :=
  .new (.mqtt none defaultKeepalive .v3_1_1)

def TlsPinger.new : Text → BuiltPinger := .new .tls

def NtpPinger.new : Text → BuiltPinger := .new .ntp

def StunPinger.new : Text → BuiltPinger := .new .stun

def TurnPinger.new : Text → BuiltPinger := .new .turn

def RtspPinger.new : Text → BuiltPinger := .new .rtsp

def RtmpPinger.new : Text → BuiltPinger := .new .rtmp

/-! ## The commands -/

namespace Cli

def DnsType.recordType : DnsType → Dns.RecordType
  | .a => .a
  | .aaaa => .aaaa
  | .cname => .cname
  | .mx => .mx
  | .ns => .ns
  | .txt => .txt

def HttpMethod.method : HttpMethod → Http.HttpMethod
  | .connect _ => .connect
  | .get _ => .get
  | .post _ => .post
  | .put _ => .put
  | .delete _ => .delete
  | .patch _ => .patch

def buildPinger : Command → BuiltPinger
  | .tcp target => TcpPinger.new target
  | .udp target => UdpPinger.new target
  | .ws target => WebSocketPinger.new target
  | .dns server query recordType =>
      (DnsPinger.new server query).withRecordType recordType.recordType
  | .grpc endpoint service watch =>
      if watch then (GrpcStreamPinger.new endpoint).withService service
      else (GrpcPinger.new endpoint).withService service
  | .hls url => HlsPinger.new url
  | .tls target => TlsPinger.new target
  | .ntp server => NtpPinger.new server
  | .stun server => StunPinger.new server
  | .turn server => TurnPinger.new server
  | .rtsp target => RtspPinger.new target
  | .rtmp target => RtmpPinger.new target
  | .quic endpoint alpn => .ofQuic (quicPinger endpoint alpn)
  | .mqtt broker clientId v5 =>
      let p := MqttPinger.new broker
      let p := match clientId with
        | some cid => p.withClientId cid
        | none => p
      if v5 then p.withVersion .v5 else p
  | .http method => HttpPinger.new method.method method.target

end Cli

/-! ## The tools -/

namespace Mcp

structure TargetArgs where
  target : Text
  count : Option U64
  timeoutMs : Option U64

inductive HttpMethodArg where
  | connect
  | get
  | post
  | put
  | delete
  | patch

def HttpMethodArg.method : HttpMethodArg → Http.HttpMethod
  | .connect => .connect
  | .get => .get
  | .post => .post
  | .put => .put
  | .delete => .delete
  | .patch => .patch

structure HttpPingArgs where
  target : Text
  method : Option HttpMethodArg
  count : Option U64
  timeoutMs : Option U64

inductive RecordTypeArg where
  | a
  | aaaa
  | cname
  | mx
  | ns
  | txt

def RecordTypeArg.recordType : RecordTypeArg → Dns.RecordType
  | .a => .a
  | .aaaa => .aaaa
  | .cname => .cname
  | .mx => .mx
  | .ns => .ns
  | .txt => .txt

structure DnsPingArgs where
  server : Text
  query : Text
  recordType : Option RecordTypeArg
  count : Option U64
  timeoutMs : Option U64

structure MqttPingArgs where
  broker : Text
  clientId : Option Text
  v5 : Bool
  count : Option U64
  timeoutMs : Option U64

structure GrpcPingArgs where
  endpoint : Text
  service : Option Text
  count : Option U64
  timeoutMs : Option U64

structure HlsPingArgs where
  url : Text
  count : Option U64
  timeoutMs : Option U64

/-- The calls a client of the server can make. -/
inductive Call where
  | tcpPing (args : TargetArgs)
  | udpPing (args : TargetArgs)
  | httpPing (args : HttpPingArgs)
  | wsPing (args : TargetArgs)
  | dnsPing (args : DnsPingArgs)
  | mqttPing (args : MqttPingArgs)
  | grpcPing (args : GrpcPingArgs)
  | grpcWatchPing (args : GrpcPingArgs)
  | hlsPing (args : HlsPingArgs)
  | tlsPing (args : TargetArgs)
  | ntpPing (args : TargetArgs)
  | stunPing (args : TargetArgs)
  | turnPing (args : TargetArgs)
  | rtspPing (args : TargetArgs)
  | rtmpPing (args : TargetArgs)
  | quicPing (args : QuicPingArgs)

namespace Call

def count : Call → Option U64
  | tcpPing args | udpPing args | wsPing args | tlsPing args | ntpPing args
  | stunPing args | turnPing args | rtspPing args | rtmpPing args => args.count
  | httpPing args => args.count
  | dnsPing args => args.count
  | mqttPing args => args.count
  | grpcPing args | grpcWatchPing args => args.count
  | hlsPing args => args.count
  | quicPing args => args.count

def timeoutMs : Call → Option U64
  | tcpPing args | udpPing args | wsPing args | tlsPing args | ntpPing args
  | stunPing args | turnPing args | rtspPing args | rtmpPing args =>
      args.timeoutMs
  | httpPing args => args.timeoutMs
  | dnsPing args => args.timeoutMs
  | mqttPing args => args.timeoutMs
  | grpcPing args | grpcWatchPing args => args.timeoutMs
  | hlsPing args => args.timeoutMs
  | quicPing args => args.timeoutMs

/-- The tools for a target alone. -/
def targetPinger (new : Text → BuiltPinger) (args : TargetArgs) : BuiltPinger :=
  (new args.target).withTimeout (timeoutOrDefault args.timeoutMs)

/-- The tools of gRPC. -/
def servicePinger (new : Text → BuiltPinger) (args : GrpcPingArgs) :
    BuiltPinger :=
  let p := (new args.endpoint).withTimeout (timeoutOrDefault args.timeoutMs)
  match args.service with
  | some service => p.withService service
  | none => p

/-- The pinger a tool makes. -/
def pinger : Call → BuiltPinger
  | tcpPing args => targetPinger TcpPinger.new args
  | udpPing args => targetPinger UdpPinger.new args
  | httpPing args =>
      let method := (args.method.map HttpMethodArg.method).getD .get
      (HttpPinger.new method args.target).withTimeout
        (timeoutOrDefault args.timeoutMs)
  | wsPing args => targetPinger WebSocketPinger.new args
  | dnsPing args =>
      let recordType := (args.recordType.map RecordTypeArg.recordType).getD .a
      ((DnsPinger.new args.server args.query).withRecordType
        recordType).withTimeout (timeoutOrDefault args.timeoutMs)
  | mqttPing args =>
      let p := (MqttPinger.new args.broker).withTimeout
        (timeoutOrDefault args.timeoutMs)
      let p := match args.clientId with
        | some cid => p.withClientId cid
        | none => p
      if args.v5 then p.withVersion .v5 else p
  | grpcPing args => servicePinger GrpcPinger.new args
  | grpcWatchPing args => servicePinger GrpcStreamPinger.new args
  | hlsPing args =>
      (HlsPinger.new args.url).withTimeout (timeoutOrDefault args.timeoutMs)
  | tlsPing args => targetPinger TlsPinger.new args
  | ntpPing args => targetPinger NtpPinger.new args
  | stunPing args => targetPinger StunPinger.new args
  | turnPing args => targetPinger TurnPinger.new args
  | rtspPing args => targetPinger RtspPinger.new args
  | rtmpPing args => targetPinger RtmpPinger.new args
  | quicPing args => .ofQuic (quicPinger args)

end Call

end Mcp

/-! ## From one front end to the other -/

namespace Cli

def DnsType.arg : DnsType → Mcp.RecordTypeArg
  | .a => .a
  | .aaaa => .aaaa
  | .cname => .cname
  | .mx => .mx
  | .ns => .ns
  | .txt => .txt

def HttpMethod.arg : HttpMethod → Mcp.HttpMethodArg
  | .connect _ => .connect
  | .get _ => .get
  | .post _ => .post
  | .put _ => .put
  | .delete _ => .delete
  | .patch _ => .patch

/-- The call for a command. -/
def call (count : U64) : Command → Mcp.Call
  | .tcp target => .tcpPing ⟨target, count, none⟩
  | .udp target => .udpPing ⟨target, count, none⟩
  | .http method => .httpPing ⟨method.target, method.arg, count, none⟩
  | .ws target => .wsPing ⟨target, count, none⟩
  | .dns server query recordType =>
      .dnsPing ⟨server, query, recordType.arg, count, none⟩
  | .grpc endpoint service watch =>
      if watch then .grpcWatchPing ⟨endpoint, service, count, none⟩
      else .grpcPing ⟨endpoint, service, count, none⟩
  | .hls url => .hlsPing ⟨url, count, none⟩
  | .mqtt broker clientId v5 => .mqttPing ⟨broker, clientId, v5, count, none⟩
  | .tls target => .tlsPing ⟨target, count, none⟩
  | .ntp server => .ntpPing ⟨server, count, none⟩
  | .stun server => .stunPing ⟨server, count, none⟩
  | .turn server => .turnPing ⟨server, count, none⟩
  | .rtsp target => .rtspPing ⟨target, count, none⟩
  | .rtmp target => .rtmpPing ⟨target, count, none⟩
  | .quic endpoint alpn => .quicPing ⟨endpoint, alpn, count, none⟩

end Cli

namespace Mcp

def RecordTypeArg.dnsType : RecordTypeArg → Cli.DnsType
  | .a => .a
  | .aaaa => .aaaa
  | .cname => .cname
  | .mx => .mx
  | .ns => .ns
  | .txt => .txt

def HttpMethodArg.subcommand (target : Text) : HttpMethodArg → Cli.HttpMethod
  | .connect => .connect target
  | .get => .get target
  | .post => .post target
  | .put => .put target
  | .delete => .delete target
  | .patch => .patch target

/-- The command for a call. -/
def Call.command : Call → Cli.Command
  | tcpPing args => .tcp args.target
  | udpPing args => .udp args.target
  | httpPing args => .http ((args.method.getD .get).subcommand args.target)
  | wsPing args => .ws args.target
  | dnsPing args =>
      .dns args.server args.query (args.recordType.getD .a).dnsType
  | mqttPing args => .mqtt args.broker args.clientId args.v5
  | grpcPing args => .grpc args.endpoint (args.service.getD []) false
  | grpcWatchPing args => .grpc args.endpoint (args.service.getD []) true
  | hlsPing args => .hls args.url
  | tlsPing args => .tls args.target
  | ntpPing args => .ntp args.target
  | stunPing args => .stun args.target
  | turnPing args => .turn args.target
  | rtspPing args => .rtsp args.target
  | rtmpPing args => .rtmp args.target
  | quicPing args => .quic args.target (Cli.alpnOrDefault args.alpn)

theorem timeoutOrDefault_eq_iff {t : Option U64} :
    timeoutOrDefault t = BuiltPinger.defaultTimeout ↔
      t.getD defaultTimeoutMs = defaultTimeoutMs := by
  have hdefault : BuiltPinger.defaultTimeout.1 =
      defaultTimeoutMs.1 * 10 ^ 6 := by decide
  rw [Fin.ext_iff, Fin.ext_iff, hdefault]
  exact Nat.mul_left_inj (by decide)

end Mcp

namespace QuicPinger

variable {Rest : Type} (p : QuicPinger Rest) (alpns : List Bytes)

theorem endpoint_withAlpns : (p.withAlpns alpns).endpoint = p.endpoint := by
  unfold withAlpns
  split <;> rfl

theorem timeout_withAlpns : (p.withAlpns alpns).timeout = p.timeout := by
  unfold withAlpns
  split <;> rfl

end QuicPinger

open BuiltPinger

/-- The QUIC pingers differ in their time limits alone. -/
theorem ofQuic_quicPinger (args : Mcp.QuicPingArgs) :
    ofQuic (Cli.quicPinger args.target (Cli.alpnOrDefault args.alpn)) =
      (ofQuic (Mcp.quicPinger args)).withTimeout defaultTimeout := by
  have halpn : (Mcp.quicPinger args : QuicPinger Empty).alpn =
      (Cli.quicPinger args.target (Cli.alpnOrDefault args.alpn) :
        QuicPinger Empty).alpn :=
    QuicPinger.alpn_quicPinger args args.target
  have hendpoint : (Mcp.quicPinger args : QuicPinger Empty).endpoint =
      args.target := QuicPinger.endpoint_withAlpns _ _
  have hendpoint' :
      (Cli.quicPinger args.target (Cli.alpnOrDefault args.alpn) :
        QuicPinger Empty).endpoint = args.target :=
    QuicPinger.endpoint_withAlpns _ _
  have htimeout :
      (Cli.quicPinger args.target (Cli.alpnOrDefault args.alpn) :
        QuicPinger Empty).timeout = defaultTimeout :=
    QuicPinger.timeout_withAlpns _ _
  rw [ofQuic, ofQuic, withTimeout, halpn, hendpoint, hendpoint', htimeout]

/-- The command for a tool makes its pinger, but for the time limit. -/
theorem Mcp.Call.buildPinger_command (c : Mcp.Call) :
    Cli.buildPinger c.command = c.pinger.withTimeout defaultTimeout := by
  cases c with
  | tcpPing | udpPing | wsPing | hlsPing | tlsPing | ntpPing | stunPing
  | turnPing | rtspPing | rtmpPing => rfl
  | httpPing args =>
      obtain ⟨target, _ | method, count, timeoutMs⟩ := args
      · rfl
      · cases method <;> rfl
  | dnsPing args =>
      obtain ⟨server, query, _ | recordType, count, timeoutMs⟩ := args
      · rfl
      · cases recordType <;> rfl
  | mqttPing args =>
      obtain ⟨broker, clientId, v5, count, timeoutMs⟩ := args
      cases clientId <;> cases v5 <;> rfl
  | grpcPing args | grpcWatchPing args =>
      obtain ⟨endpoint, _ | service, count, timeoutMs⟩ := args <;> rfl
  | quicPing args =>
      exact ofQuic_quicPinger args

theorem Mcp.Call.timeout_pinger (c : Mcp.Call) :
    c.pinger.timeout = Mcp.timeoutOrDefault c.timeoutMs := by
  cases c with
  | tcpPing | udpPing | wsPing | hlsPing | tlsPing | ntpPing | stunPing
  | turnPing | rtspPing | rtmpPing | httpPing | dnsPing => rfl
  | mqttPing args =>
      obtain ⟨broker, clientId, v5, count, timeoutMs⟩ := args
      cases clientId <;> cases v5 <;> rfl
  | grpcPing args | grpcWatchPing args =>
      obtain ⟨endpoint, _ | service, count, timeoutMs⟩ := args <;> rfl
  | quicPing args => exact QuicPinger.timeout_withAlpns _ _

theorem Cli.command_call (count : U64) (command : Cli.Command) :
    (Cli.call count command).command = command := by
  cases command with
  | tcp | udp | ws | hls | tls | ntp | stun | turn | rtsp | rtmp | quic | mqtt =>
      rfl
  | http method => cases method <;> rfl
  | dns server query recordType => cases recordType <;> rfl
  | grpc endpoint service watch => cases watch <;> rfl

theorem Cli.count_call (count : U64) (command : Cli.Command) :
    (Cli.call count command).count = some count ∧
      (Cli.call count command).timeoutMs = none := by
  cases command with
  | tcp | udp | ws | hls | tls | ntp | stun | turn | rtsp | rtmp | quic | mqtt
  | http | dns => exact ⟨rfl, rfl⟩
  | grpc endpoint service watch => cases watch <;> exact ⟨rfl, rfl⟩

/-- The tool for a command makes its pinger. -/
theorem Cli.pinger_call (count : U64) (command : Cli.Command) :
    (Cli.call count command).pinger = Cli.buildPinger command := by
  have htimeout : (Cli.call count command).pinger.timeout = defaultTimeout := by
    rw [Mcp.Call.timeout_pinger, (Cli.count_call count command).2]
    exact Mcp.timeoutOrDefault_eq_iff.mpr rfl
  have hbuilt := (Cli.call count command).buildPinger_command
  rw [Cli.command_call, ← htimeout] at hbuilt
  exact hbuilt.symm

/-! ## What both report -/

/-- What comes back from the pings of a pinger, one after the other. -/
abbrev Environment (E : Type) := BuiltPinger → ℕ → Except E Duration

variable {E F : Type}

def pings (env : Environment E) (p : BuiltPinger) (count : U64) : Pings E :=
  (List.range count.1).map (env p)

/-- `main` behind its banner. -/
def Cli.runCommand (term : Cli.Terminal) (env : Environment E)
    (command : Cli.Command) (count : U64) :
    Outcome (Cli.Statistic × List Text) :=
  Cli.runPings term (Cli.targetOf command) count
    (pings env (Cli.buildPinger command) count)

/-- A tool of the server, up to the serialization of its report. -/
def Mcp.runCall (conv : Mcp.Conversions E F) (env : Environment E)
    (c : Mcp.Call) : Outcome (Mcp.PingReport F) :=
  let count := Mcp.countOrDefault c.count
  Mcp.runPings conv count (pings env c.pinger count)

/-- Whatever comes back, as long as the times have a sum, the command and the
tool report it alike. -/
def ReportAlike (command : Cli.Command) (count : U64) (c : Mcp.Call) : Prop :=
  ∀ (E F : Type) (term : Cli.Terminal) (conv : Mcp.Conversions E F)
    (env : Environment E),
    elapsed (pings env (Cli.buildPinger command) count) < 2 ^ 64 * 10 ^ 9 →
    elapsed (pings env c.pinger (Mcp.countOrDefault c.count)) <
      2 ^ 64 * 10 ^ 9 →
    ∃ statistic lines report,
      Cli.runCommand term env command count = .ok (statistic, lines) ∧
      Mcp.runCall conv env c = .ok report ∧
      Agree conv count (pings env (Cli.buildPinger command) count) statistic
        report

/-- A report has an entry for each ping. -/
theorem Mcp.entries_of_runPings {conv : Mcp.Conversions E F} {count : U64}
    {results : Pings E} {report : Mcp.PingReport F}
    (h : Mcp.runPings conv count results = .ok report) :
    report.summary.count = count ∧
      report.iterations = results.map (Mcp.iteration conv) := by
  obtain ⟨iterations, hcapacity, hloop⟩ := Outcome.bind_eq_ok_iff.mp h
  obtain ⟨⟨total, recv, entries⟩, hentries, hrest⟩ :=
    Outcome.bind_eq_ok_iff.mp hloop
  obtain ⟨lose, -, hsum⟩ := Outcome.bind_eq_ok_iff.mp hrest
  obtain ⟨losePct, hreport⟩ : ∃ losePct, report =
      ⟨entries, ⟨count, recv, lose, losePct, conv.asMs total⟩⟩ := by
    dsimp only at hsum
    split at hsum
    · obtain ⟨losePct, -, hreport⟩ := Outcome.bind_eq_ok_iff.mp hsum
      exact ⟨losePct, (Except.ok.inj hreport).symm⟩
    · obtain ⟨scaled, -, hdivided⟩ := Outcome.bind_eq_ok_iff.mp hsum
      obtain ⟨losePct, -, hreport⟩ := Outcome.bind_eq_ok_iff.mp hdivided
      exact ⟨losePct, (Except.ok.inj hreport).symm⟩
  have hnone : iterations = [] := by
    unfold Outcome.withCapacity at hcapacity
    split at hcapacity
    · exact (Except.ok.inj hcapacity).symm
    · cases hcapacity
  subst hnone hreport
  exact ⟨rfl, (Mcp.pingLoop_eq_ok_iff.mp hentries).2.2⟩

/-- Only this pinger is answered, at once. -/
def only (p : BuiltPinger) : Environment Unit := fun q _ =>
  if q = p then .ok ⟨0, by decide⟩ else .error ()

theorem elapsed_only (p q : BuiltPinger) (count : U64) :
    elapsed (pings (only p) q count) < 2 ^ 64 * 10 ^ 9 := by
  have hzero : elapsed (pings (only p) q count) = 0 := by
    refine List.sum_eq_zero fun time htime => ?_
    obtain ⟨result, hresult, rfl⟩ := List.mem_map.mp htime
    obtain ⟨n, -, rfl⟩ := List.mem_map.mp hresult
    by_cases hq : q = p
    · rw [only, if_pos hq]
    · rw [only, if_neg hq]
  rw [hzero]
  decide

/-- The first of several pings. -/
theorem pings_eq_cons (env : Environment E) (p : BuiltPinger) {count : U64}
    (hcount : 1 ≤ count.1) :
    ∃ rest, pings env p count = env p 0 :: rest := by
  obtain ⟨k, hk⟩ := Nat.exists_eq_add_of_le' hcount
  rw [pings, hk, List.range_succ_eq_map]
  exact ⟨_, rfl⟩

/-- To report alike, both have to make one pinger and to repeat it equally
often. -/
theorem ReportAlike.same {command : Cli.Command} {count : U64} {c : Mcp.Call}
    (h : ReportAlike command count c) :
    Cli.buildPinger command = c.pinger ∧
      count = Mcp.countOrDefault c.count := by
  let term : Cli.Terminal := ⟨id, id, id, fun _ => [], fun _ => []⟩
  let conv : Mcp.Conversions Unit Unit := ⟨fun _ => (), (), fun _ => []⟩
  obtain ⟨statistic, lines, report, -, hcall, hagree⟩ := h Unit Unit term conv
    (only c.pinger) (elapsed_only _ _ _) (elapsed_only _ _ _)
  obtain ⟨hsame, hentries⟩ := Mcp.entries_of_runPings hcall
  obtain rfl : count = Mcp.countOrDefault c.count :=
    hagree.mcpCount.symm.trans hsame
  refine ⟨?_, rfl⟩
  have hpos := Mcp.one_le_countOrDefault c.count
  obtain ⟨rest, hrest⟩ := pings_eq_cons (only c.pinger) c.pinger hpos
  obtain ⟨rest', hrest'⟩ :=
    pings_eq_cons (only c.pinger) (Cli.buildPinger command) hpos
  have heach := hagree.iterations.symm.trans hentries
  rw [hrest, hrest', List.map_cons, List.map_cons] at heach
  have hfirst := congrArg Mcp.Iteration.success (List.cons.inj heach).1
  rw [success_iteration, success_iteration, only, only, if_pos rfl] at hfirst
  by_contra hne
  rw [if_neg hne] at hfirst
  cases hfirst

theorem reportAlike_of_same {command : Cli.Command} {c : Mcp.Call}
    (hpinger : Cli.buildPinger command = c.pinger)
    (hcount : (Mcp.countOrDefault c.count).1 ≤ (2 ^ 64 - 1) / 100) :
    ReportAlike command (Mcp.countOrDefault c.count) c := by
  intro E F term conv env helapsed _
  have hlength : (pings env (Cli.buildPinger command)
      (Mcp.countOrDefault c.count)).length = (Mcp.countOrDefault c.count).1 := by
    rw [pings, List.length_map, List.length_range]
  obtain ⟨-, -, -, -, -, -, -, -, statistic, lines, report, hcli, hmcp, -,
    hagree⟩ := agree_of_count_le term (Cli.targetOf command) conv hlength
      (Mcp.one_le_countOrDefault c.count) hcount helapsed
  rw [hpinger] at hmcp
  exact ⟨statistic, lines, report, hcli, hmcp, hagree⟩

theorem Cli.timeout_buildPinger (command : Cli.Command) :
    (Cli.buildPinger command).timeout = defaultTimeout := by
  rw [← Cli.command_call 1 command, Mcp.Call.buildPinger_command]
  rfl

end KnockKnock
