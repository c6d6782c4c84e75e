import KnockKnock.Cli.FrontEnds
import KnockKnock.Clock
import KnockKnock.Datagrams.Exchanges
import KnockKnock.Datagrams.Fixtures
import KnockKnock.Datagrams.Pings
import KnockKnock.Dns.Receiving
import KnockKnock.Hls.Framing
import KnockKnock.Hls.Journey
import KnockKnock.Hls.Ping
import KnockKnock.Hls.Playing
import KnockKnock.Hls.Resolving
import KnockKnock.Hls.Selecting
import KnockKnock.Http.Exchange
import KnockKnock.Http.Framing
import KnockKnock.Http.Queries
import KnockKnock.Mqtt.Dialogue
import KnockKnock.Mqtt.Framing
import KnockKnock.Mqtt.Session
import KnockKnock.Ntp.Packet
import KnockKnock.Pings.Returning
import KnockKnock.Quic.Alpn
import KnockKnock.Rtmp.Handshake
import KnockKnock.Rtsp.Response
import KnockKnock.Streams.Verdicts
import KnockKnock.Stun.Message
import KnockKnock.Support.Peer
import KnockKnock.Support.Responder
import KnockKnock.Targets.DefaultPorts
import KnockKnock.Targets.Grpc
import KnockKnock.Targets.Hosts
import KnockKnock.Targets.Ports
import KnockKnock.Targets.Returning
import KnockKnock.Turn.Receiving
import KnockKnock.Turn.Walk
import KnockKnock.Uri.Printing
import KnockKnock.Verdicts
import KnockKnock.Websocket.Ping
