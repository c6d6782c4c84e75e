import KnockKnock.Pings.Whole
import KnockKnock.Targets.Returning
import KnockKnock.Turn.Walk

/-!
# Which pings unwind

A ping parses its target, and the HLS ping parses every URL its playlists lead
it to; nothing else in a ping can unwind, whatever comes back.  So a ping
returns exactly when the port texts of all these URLs can be read.
-/

namespace KnockKnock

open ByteStream Inquiry Reading

/-! ## Exchanges -/

/-- On no connection the exchange ends by unwinding. -/
def Exchange.Returns {α : Type} (x : Exchange α) : Prop :=
  ∀ c, Outcome.Returns (deliver x.run c).1

namespace Exchange

variable {α β : Type}

theorem returns_bind {x : Exchange α} {f : α → Exchange β}
    (hx : Returns x) (hf : ∀ a, Returns (f a)) : Returns (x >>= f) := by
  intro c
  change Outcome.Returns (deliver (x.run >>= _) c).1
  rw [deliver_bind]
  have hfirst := hx c
  generalize deliver x.run c = r at hfirst ⊢
  obtain ⟨e | a, c'⟩ := r
  · intro h
    obtain rfl := Except.error.inj h
    exact hfirst rfl
  · exact hf a c'

theorem returns_lift {o : Outcome α} (h : o.Returns) : Returns (lift o) :=
  fun _ => h

theorem returns_pure (a : α) : Returns (pure a : Exchange α) :=
  fun _ => Outcome.returns_pure a

theorem returns_writeAll (bytes : Bytes) : Returns (writeAll bytes) :=
  fun _ => Outcome.returns_ok ()

theorem returns_read (size : ℕ) : Returns (read size) :=
  fun _ => Outcome.returns_ok _

theorem returns_readExactOr (early : Text) (size : ℕ) :
    Returns (readExactOr early size) := by
  intro c
  unfold readExactOr
  rw [ExceptT.run_mk, deliver]
  cases (c.incoming.readExact size).1 with
  | none => exact Outcome.returns_fail _ _
  | some bytes => exact Outcome.returns_ok bytes

theorem returns_ignore_writeAll (bytes : Bytes) :
    Returns (ignore (writeAll bytes)) :=
  fun _ => Outcome.returns_ok ()

end Exchange

namespace Http

theorem checkStatusLine_returns (received : Text) :
    (checkStatusLine received).Returns := by
  unfold checkStatusLine
  dsimp only
  split
  · exact Outcome.returns_fail _ _
  · split
    · exact Outcome.returns_fail _ _
    · exact Outcome.returns_pure _

end Http

namespace Rtsp

/-- Each round of the loop leaves less room in the buffer. -/
theorem readResponse_returns (buf : Bytes) :
    Exchange.Returns (readResponse buf) := by
  fun_induction readResponse buf with
  | case1 buf ih =>
    apply Exchange.returns_bind (Exchange.returns_read 256)
    intro chunk
    split
    · exact Exchange.returns_pure buf
    next hnil =>
      split
      · exact Exchange.returns_pure _
      next henough => exact ih chunk hnil henough

theorem validateResponse_returns (debug : Text → Text) :
    Exchange.Returns (validateResponse debug) := by
  apply Exchange.returns_bind (readResponse_returns [])
  intro buf
  split
  · exact Exchange.returns_lift (Outcome.returns_fail _ _)
  · exact Exchange.returns_pure ()

end Rtsp

namespace Rtmp

theorem runHandshake_returns (nanos : UInt32) :
    Exchange.Returns (runHandshake nanos) := by
  unfold runHandshake runHandshakeWith
  apply Exchange.returns_bind (Exchange.returns_writeAll _)
  intro _
  apply Exchange.returns_bind (Exchange.returns_readExactOr _ _)
  intro s0
  have hrest : Exchange.Returns (do
      let s1 ← Exchange.readExact handshakePayloadLen
      let _s2 ← Exchange.readExact handshakePayloadLen
      Exchange.writeAll s1) := by
    apply Exchange.returns_bind (Exchange.returns_readExactOr _ _)
    intro s1
    apply Exchange.returns_bind (Exchange.returns_readExactOr _ _)
    exact fun _ => Exchange.returns_writeAll s1
  dsimp only
  split
  · apply Exchange.returns_bind
      (Exchange.returns_lift (Outcome.returns_fail _ _))
    exact fun _ => hrest
  · exact hrest

end Rtmp

namespace Mqtt

theorem validateConnack_returns (packet : MqttPacket) :
    (validateConnack packet).Returns := by
  unfold validateConnack
  split
  · exact Outcome.returns_fail _ _
  split
  · split
    · exact Outcome.returns_fail _ _
    · exact Outcome.returns_pure _
  · exact Outcome.returns_fail _ _

theorem validatePingresp_returns (packet : MqttPacket) :
    (validatePingresp packet).Returns := by
  unfold validatePingresp
  split
  · exact Outcome.returns_fail _ _
  split
  · exact Outcome.returns_fail _ _
  · exact Outcome.returns_pure _

variable {τ : Type}

theorem readBodyWith_returns (early : Text) (remaining : ℕ) :
    Exchange.Returns (readBodyWith early remaining) := by
  unfold readBodyWith
  split
  · exact Exchange.returns_readExactOr _ _
  · exact Exchange.returns_pure _

theorem readRemainingWith_returns (early : Text) (make : UInt8 → Bytes → τ)
    (header : UInt8) (rounds multiplier remaining : ℕ) :
    Exchange.Returns
      (readRemainingWith early make header rounds multiplier remaining) := by
  induction rounds generalizing multiplier remaining with
  | zero => exact Exchange.returns_lift (Outcome.returns_fail _ _)
  | succ rounds ih =>
      apply Exchange.returns_bind (Exchange.returns_readExactOr _ _)
      intro byte
      dsimp only
      split
      · apply Exchange.returns_bind (readBodyWith_returns _ _)
        exact fun body => Exchange.returns_pure _
      · exact ih _ _

theorem readPacketWith_returns (early : Text) (make : UInt8 → Bytes → τ) :
    Exchange.Returns (readPacketWith early make) :=
  Exchange.returns_bind (Exchange.returns_readExactOr _ _)
    fun _ => readRemainingWith_returns _ _ _ _ _ _

theorem runSession_returns (nanos : ℕ) (clientId : Option Text)
    (keepalive : UInt16) (version : MqttVersion) :
    Exchange.Returns
      (Client.runSession nanos clientId keepalive version) := by
  apply Exchange.returns_bind (Exchange.returns_writeAll _)
  intro _
  apply Exchange.returns_bind (readPacketWith_returns _ _)
  intro connack
  apply Exchange.returns_bind
    (Exchange.returns_lift (validateConnack_returns connack))
  intro _
  apply Exchange.returns_bind (Exchange.returns_writeAll _)
  intro _
  apply Exchange.returns_bind (readPacketWith_returns _ _)
  intro pingresp
  apply Exchange.returns_bind
    (Exchange.returns_lift (validatePingresp_returns pingresp))
  intro _
  exact Exchange.returns_ignore_writeAll _

end Mqtt

theorem StreamPinger.exchange_returns (debug : Text → Text)
    (pinger : StreamPinger) : Exchange.Returns (pinger.exchange debug) := by
  cases pinger with
  | tcp =>
      apply Exchange.returns_bind (Exchange.returns_writeAll _)
      intro _
      apply Exchange.returns_bind (Exchange.returns_read _)
      exact fun _ => Exchange.returns_pure ()
  | http request =>
      apply Exchange.returns_bind (Exchange.returns_writeAll _)
      intro _
      apply Exchange.returns_bind (Exchange.returns_read _)
      intro received
      exact Exchange.returns_lift (Http.checkStatusLine_returns _)
  | rtsp domain port =>
      apply Exchange.returns_bind (Exchange.returns_writeAll _)
      exact fun _ => Rtsp.validateResponse_returns debug
  | rtmp nanos => exact Rtmp.runHandshake_returns nanos
  | mqtt nanos clientId keepalive version =>
      exact Mqtt.runSession_returns nanos clientId keepalive version

/-! ## Datagrams -/

theorem Ntp.receive_returns (d : Bytes) : (receive d).Returns := by
  unfold receive validateResponse
  split
  · exact Outcome.returns_fail _ _
  dsimp only
  split
  · exact Outcome.returns_fail _ _
  split
  · exact Outcome.returns_fail _ _
  · exact Outcome.returns_pure _

theorem Stun.validateResponseHeader_returns (buf : Bytes)
    (messageType : UInt16) (txid : TransactionId) :
    (validateResponseHeader buf messageType txid).Returns := by
  unfold validateResponseHeader
  split
  · exact Outcome.returns_fail _ _
  dsimp only
  split
  · exact Outcome.returns_fail _ _
  split
  · exact Outcome.returns_fail _ _
  split
  · exact Outcome.returns_fail _ _
  · exact Outcome.returns_pure _

/-- The body is cut off behind a header that has been checked. -/
theorem Turn.receive_returns (d : Bytes) (txid : Stun.TransactionId) :
    (receive d txid).Returns := by
  unfold receive validateAllocateErrorResponse
  apply (Outcome.returns_bind_iff ?_).mpr
    (Stun.validateResponseHeader_returns _ _ _)
  intro _ hheader
  have hanswers := Stun.validateResponseHeader_eq_ok_iff.mp hheader
  rw [Outcome.sliceFrom_eq_ok hanswers.header, Outcome.bind_ok]
  apply (Outcome.returns_bind_iff ?_).mpr Turn.returns_findErrorCode
  intro code _
  cases code with
  | none => exact Outcome.returns_fail _ _
  | some code =>
      dsimp only
      split
      · exact Outcome.returns_pure _
      · exact Outcome.returns_fail _ _

namespace Dns

theorem encodeLabels_returns (out : Bytes) (labels : List Text) :
    (encodeLabels out labels).Returns := by
  induction labels generalizing out with
  | nil => exact Outcome.returns_pure out
  | cons label labels ih =>
      unfold encodeLabels
      split
      · exact Outcome.returns_fail _ _
      split
      · exact Outcome.returns_fail _ _
      · exact ih _

theorem encodeName_returns (name : Text) : (encodeName name).Returns := by
  apply (Outcome.returns_bind_iff ?_).mpr (encodeLabels_returns _ _)
  intro out _
  split
  · exact Outcome.returns_fail _ _
  · exact Outcome.returns_pure _

theorem request_returns (id : UInt16) (query : Text)
    (recordType : RecordType) : (request id query recordType).Returns := by
  unfold request
  split
  · exact Outcome.returns_fail _ _
  · exact (Outcome.returns_bind_iff fun _ _ => Outcome.returns_pure _).mpr
      (encodeName_returns query)

end Dns

namespace Probe

theorem request_returns (p : Probe) : p.request.Returns := by
  obtain ⟨pinger, now⟩ := p
  cases pinger with
  | udp | ntp | stun => exact Outcome.returns_pure _
  | dns query recordType => exact Dns.request_returns _ query recordType
  | turn => exact ne_of_eq_of_ne (Turn.allocateRequest_eq _) nofun

/-- A question stands behind the header of the request. -/
theorem receive_returns (p : Probe) (d : Bytes) : (p.receive d).Returns := by
  obtain ⟨pinger, now⟩ := p
  cases pinger with
  | udp => exact Outcome.returns_pure _
  | dns query recordType =>
      apply (Outcome.returns_bind_iff ?_).mpr
        (Dns.request_returns _ query recordType)
      intro request hrequest
      obtain ⟨question, rfl, -⟩ := Dns.exists_request hrequest
      apply Dns.returns_validateResponse
      rw [List.length_append]
      exact Nat.le_add_right 12 _
  | ntp => exact Ntp.receive_returns d
  | stun => exact Stun.validateResponseHeader_returns _ _ _
  | turn => exact Turn.receive_returns d _

end Probe

/-! ## WebSocket messages -/

namespace Websocket

variable {Frame CloseFrame : Type}
  (send : List (Message Frame CloseFrame) → Message Frame CloseFrame →
    Except Error Unit)
  (debug : Option CloseFrame → Text)

theorem tungsteniteErr_returns {α : Type} (e : Error) :
    (tungsteniteErr e : Outcome α).Returns := by
  cases e with
  | io kind message => exact Outcome.returns_fail kind message
  | other text => exact Outcome.returns_fail .other text

theorem pongLoop_returns (sent : List (Message Frame CloseFrame))
    (events : List (Event Frame CloseFrame)) :
    (pongLoop send debug sent events).1.Returns := by
  fun_induction pongLoop send debug sent events with
  | case1 => exact Outcome.returns_pure ()
  | case2 sent payload events hsend ih => exact ih
  | case3 sent payload events e hsend => exact tungsteniteErr_returns e
  | case4 sent text events ih => exact ih
  | case5 sent bytes events ih => exact ih
  | case6 sent frame events ih => exact ih
  | case7 => exact Outcome.returns_fail _ _
  | case8 sent e events => exact tungsteniteErr_returns e
  | case9 => exact Outcome.returns_fail _ _

theorem runHandshakeAndPing_returns
    (clientAsync : Except Error (List (Event Frame CloseFrame))) :
    (runHandshakeAndPing send debug clientAsync).1.Returns := by
  unfold runHandshakeAndPing
  split
  · exact tungsteniteErr_returns _
  next events =>
    split
    · exact tungsteniteErr_returns _
    · have hloop := pongLoop_returns send debug [.ping []] events
      split
      · split
        · exact Outcome.returns_pure ()
        · exact Outcome.returns_pure ()
      next e sent heq =>
        rw [heq] at hloop
        exact hloop

end Websocket

/-! ## What the surroundings answer -/

section Surroundings

variable {U : CharClasses} {Frame CloseFrame : Type}
  (s : Surroundings Frame CloseFrame)

theorem IoError.handOn_returns {α : Type} (result : Except IoError α) :
    (handOn result).Returns := by
  cases result with
  | ok a => exact Outcome.returns_pure a
  | error e => exact Outcome.returns_fail e.kind e.message

namespace Surroundings

theorem converse_returns (connection : Connection) (pinger : StreamPinger) :
    (s.converse connection pinger).Returns := by
  apply (Outcome.returns_bind_iff ?_).mpr (IoError.handOn_returns _)
  intro arriving _
  exact StreamPinger.exchange_returns s.debug pinger _

theorem probe_returns (endpoint : Text) (pinger : DatagramPinger) :
    (s.probe endpoint pinger).Returns := by
  apply (Outcome.returns_bind_iff ?_).mpr (Probe.request_returns _)
  intro request _
  apply (Outcome.returns_bind_iff ?_).mpr (IoError.handOn_returns _)
  intro d _
  exact Probe.receive_returns _ d

end Surroundings

end Surroundings

namespace Hls

theorem responseBody_returns (buf : Bytes) : (responseBody buf).Returns := by
  unfold responseBody
  split
  · exact Outcome.returns_fail _ _
  split
  · exact Outcome.returns_fail _ _
  dsimp only
  split
  · exact Outcome.returns_fail _ _
  split
  · exact Outcome.returns_fail _ _
  · exact Outcome.returns_pure _

variable {U : CharClasses} {serverName : ServerNames}

theorem connect_returns_iff {url : Text} :
    (connect U serverName url).Returns ↔ (read U url).PortReadable := by
  rw [← connect_bind_returns_iff]
  exact dialled_returns_iff (p := .hls) nofun

theorem request_returns_iff {url : Text} {range : Option Text} :
    (request U serverName url range).Returns ↔ (read U url).PortReadable := by
  unfold request
  by_cases h : (read U url).PortReadable
  · rw [getUri_eq_ok_iff.mpr ⟨h, rfl⟩, Outcome.bind_ok,
      Outcome.returns_bind_iff fun _ _ => Outcome.returns_pure _,
      connect_returns_iff]
  · rw [getUri_eq_panic h, Outcome.bind_error]
    exact iff_of_false Outcome.not_returns_panic h

variable {Frame CloseFrame : Type} {s : Surroundings Frame CloseFrame}
  {fetch : Fetch}

/-- The body is that of all bytes that arrive, however they are cut. -/
theorem fetched_eq : s.fetched U fetch = (do
    let (connection, request) ← request U s.serverName fetch.url fetch.range
    let arriving ←
      IoError.handOn (s.stream connection (Utf8.encode request))
    responseBody arriving.bytes) := by
  simp only [Surroundings.fetched, run_fetchResponseBody]

theorem fetched_returns_iff :
    (s.fetched U fetch).Returns ↔ (read U fetch.url).PortReadable := by
  have hrequest : (request U s.serverName fetch.url fetch.range).Returns ↔
      (read U fetch.url).PortReadable := request_returns_iff
  rw [fetched_eq, ← hrequest]
  apply Outcome.returns_bind_iff
  rintro ⟨connection, request⟩ _
  apply (Outcome.returns_bind_iff ?_).mpr (IoError.handOn_returns _)
  exact fun arriving _ => responseBody_returns _

/-! ## Where playlists lead -/

/-- The URLs that a ping of `url` is to fetch behind it: that of the first
variant, and that of the first segment. -/
inductive Fetches (U : CharClasses) (server : Server) (url : Text) :
    Text → Prop
  | variant {playlist variant next : Text}
      (htext : ServesText server url playlist) (hheader : HasHeader playlist)
      (hmaster : firstVariantUrl playlist = some variant)
      (hresolved : resolveRelative U url variant = .ok next) :
      Fetches U server url next
  | segment {front : List Fetch} {mediaUrl mediaText segment next : Text}
      (hleads : Leads U server url front mediaUrl mediaText)
      (hsegment : firstSegmentUrl mediaText = some segment)
      (hresolved : resolveRelative U mediaUrl segment = .ok next) :
      Fetches U server url next

theorem playlistText_returns (what : Text) (body : Bytes) :
    (playlistText what body).Returns := by
  unfold playlistText
  split
  · exact Outcome.returns_pure _
  · exact Outcome.returns_fail _ _

theorem resolveRelative_returns {base : Text}
    (h : (read U base).PortReadable) (reference : Text) :
    (resolveRelative U base reference).Returns := by
  unfold resolveRelative
  split
  · exact Outcome.returns_pure reference
  rw [getUri_bind_returns_iff]
  · exact h
  intro uri
  dsimp only
  split
  · exact Outcome.returns_fail _ _
  split
  · exact Outcome.returns_pure _
  · split
    · exact Outcome.returns_pure _
    · exact Outcome.returns_pure _

variable {server : Server} {url playlist mediaUrl mediaText : Text}

/-- Only the fetch itself can unwind. -/
theorem avoids_userPlaylist_iff :
    (userPlaylist url).Avoids server .panic ↔
      (server ⟨url, none⟩).Returns := by
  unfold userPlaylist httpGet httpGetWithRange
  rw [avoids_ask_bind_iff]
  apply and_iff_left
  intro body _
  refine avoids_lift_bind_iff.mpr ⟨playlistText_returns _ body, ?_⟩
  intro text _
  split
  · exact avoids_pure text
  · exact avoids_lift_iff.mpr (Outcome.returns_fail _ _)

theorem avoids_mediaPlaylist_iff (h : (read U url).PortReadable) :
    (mediaPlaylist U url playlist).Avoids server .panic ↔
      ∀ variant next, firstVariantUrl playlist = some variant →
        resolveRelative U url variant = .ok next →
        (server ⟨next, none⟩).Returns := by
  unfold mediaPlaylist httpGet httpGetWithRange
  split
  next variant hmaster =>
    have hfetch : ∀ next, (do
        let body ← ask ⟨next, none⟩
        let text ← lift (playlistText "variant playlist".toList body)
        pure (next, text) : Player (Text × Text)).Avoids server .panic ↔
          (server ⟨next, none⟩).Returns := by
      intro next
      rw [avoids_ask_bind_iff]
      apply and_iff_left
      intro body _
      exact avoids_lift_bind_iff.mpr
        ⟨playlistText_returns _ body, fun text _ => avoids_pure _⟩
    have hresolve : resolveRelative U url variant ≠ .error .panic :=
      resolveRelative_returns h variant
    rw [avoids_lift_bind_iff, and_iff_right hresolve]
    constructor
    · rintro hnext variant' next hmaster' hresolved
      obtain rfl := Option.some.inj (hmaster.symm.trans hmaster')
      exact (hfetch next).mp (hnext next hresolved)
    · intro hnext next hresolved
      exact (hfetch next).mpr (hnext variant next hmaster hresolved)
  next hmedia =>
    refine iff_of_true (avoids_pure _) ?_
    intro variant next hmaster
    rw [hmedia] at hmaster
    cases hmaster

theorem avoids_firstSegment_iff (h : (read U mediaUrl).PortReadable) :
    (firstSegment U mediaUrl mediaText).Avoids server .panic ↔
      ∀ segment next, firstSegmentUrl mediaText = some segment →
        resolveRelative U mediaUrl segment = .ok next →
        (server ⟨next, firstByte⟩).Returns := by
  unfold firstSegment httpGetWithRange
  split
  next segment hsegment =>
    have hfetch : ∀ next, (do
        let _ ← ask ⟨next, firstByte⟩
        pure () : Player Unit).Avoids server .panic ↔
          (server ⟨next, firstByte⟩).Returns := by
      intro next
      rw [avoids_ask_bind_iff]
      exact and_iff_left fun _ _ => avoids_pure ()
    have hresolve : resolveRelative U mediaUrl segment ≠ .error .panic :=
      resolveRelative_returns h segment
    rw [avoids_lift_bind_iff, and_iff_right hresolve]
    constructor
    · rintro hnext segment' next hsegment' hresolved
      obtain rfl := Option.some.inj (hsegment.symm.trans hsegment')
      exact (hfetch next).mp (hnext next hresolved)
    · intro hnext next hresolved
      exact (hfetch next).mpr (hnext segment next hsegment hresolved)
  next hnone =>
    refine iff_of_true (avoids_lift_iff.mpr (Outcome.returns_fail _ _)) ?_
    intro segment next hsegment
    rw [hnone] at hsegment
    cases hsegment

/-- A media playlist that has been fetched has a URL that can be parsed. -/
theorem Follows.portReadable {behind : List Fetch}
    (h : Follows U server url playlist mediaUrl mediaText behind)
    (hserver : ∀ fetch, (server fetch).Returns ↔
      (read U fetch.url).PortReadable)
    (hurl : (read U url).PortReadable) : (read U mediaUrl).PortReadable := by
  cases h with
  | media => exact hurl
  | variant _ _ htext =>
      obtain ⟨body, hbody, -⟩ := htext
      apply (hserver ⟨mediaUrl, none⟩).mp
      rw [hbody]
      exact Outcome.returns_ok body

/-- A ping returns on a server that unwinds where a URL cannot be parsed when
none of the URLs it is to fetch is such a one. -/
theorem ping_returns_iff
    (hserver : ∀ fetch, (server fetch).Returns ↔
      (read U fetch.url).PortReadable) :
    Outcome.Returns ((ping U url).run server).1 ↔
      (read U url).PortReadable ∧
        ∀ next, Fetches U server url next → (read U next).PortReadable := by
  change (ping U url).Avoids server .panic ↔ _
  unfold ping
  rw [avoids_bind_iff, avoids_userPlaylist_iff, hserver]
  apply and_congr_right
  intro hurl
  constructor
  · intro h next hfetches
    cases hfetches with
    | variant htext hheader hmaster hresolved =>
        have hrest := h _ _ (run_userPlaylist_iff.mpr ⟨htext, hheader, rfl⟩)
        have hmedia := (avoids_bind_iff.mp hrest).1
        exact (hserver _).mp ((avoids_mediaPlaylist_iff hurl).mp hmedia _ _
          hmaster hresolved)
    | segment hleads hsegment hresolved =>
        obtain ⟨playlist, behind, htext, hheader, hfollows, -⟩ := hleads
        have hrest := h _ _ (run_userPlaylist_iff.mpr ⟨htext, hheader, rfl⟩)
        have hlast := (avoids_bind_iff.mp hrest).2 _ _
          (run_mediaPlaylist_iff.mpr hfollows)
        have hmediaUrl := hfollows.portReadable hserver hurl
        exact (hserver _).mp ((avoids_firstSegment_iff hmediaUrl).mp hlast _ _
          hsegment hresolved)
  · intro h playlist asked huser
    obtain ⟨htext, hheader, -⟩ := run_userPlaylist_iff.mp huser
    refine avoids_bind_iff.mpr ⟨?_, ?_⟩
    · rw [avoids_mediaPlaylist_iff hurl]
      intro variant next hmaster hresolved
      exact (hserver _).mpr (h next (.variant htext hheader hmaster hresolved))
    · rintro ⟨mediaUrl, mediaText⟩ behind hmedia
      have hfollows := run_mediaPlaylist_iff.mp hmedia
      have hmediaUrl := hfollows.portReadable hserver hurl
      rw [avoids_firstSegment_iff hmediaUrl]
      intro segment next hsegment hresolved
      exact (hserver _).mpr (h next (.segment
        ⟨playlist, behind, htext, hheader, hfollows, rfl⟩ hsegment hresolved))

end Hls

/-! ## All pingers -/

section Pings

variable {U : CharClasses} {serverName : ServerNames}

theorem Http.request_returns {target : Text} (method : HttpMethod)
    (h : (read U target).PortReadable) :
    (request U serverName method target).Returns := by
  have hconnect : (connect U serverName target).Returns :=
    connect_bind_returns_iff.mp
      ((dialled_returns_iff (p := .http) nofun).mpr h)
  unfold request
  rw [getUri_eq_ok_iff.mpr ⟨h, rfl⟩, Outcome.bind_ok]
  exact (Outcome.returns_bind_iff fun _ _ => Outcome.returns_pure _).mpr
    hconnect

variable {Frame CloseFrame : Type} {s : Surroundings Frame CloseFrame}

/-- An endpoint that is dialled, and what is done there. -/
theorem bind_returns_of_endpoint {p : Pinger} (hp : p ≠ .quic) {target : Text}
    {o : Outcome Text} (ho : p.dialled U s.serverName target = o)
    {f : Text → Outcome Unit} (hf : ∀ endpoint, (f endpoint).Returns)
    (h : (read U target).PortReadable) : (o >>= f).Returns := by
  apply (Outcome.returns_bind_iff fun endpoint _ => hf endpoint).mpr
  rw [← ho]
  exact (dialled_returns_iff hp).mpr h

/-- A connection that is made, and what is done over it. -/
theorem bind_returns_of_connection {p : Pinger} (hp : p ≠ .quic)
    {target : Text} {o : Outcome Connection}
    (ho : p.dialled U s.serverName target = do return (← o).endpoint)
    {f : Connection → Outcome Unit} (hf : ∀ connection, (f connection).Returns)
    (h : (read U target).PortReadable) : (o >>= f).Returns := by
  apply (Outcome.returns_bind_iff fun connection _ => hf connection).mpr
  apply connect_bind_returns_iff.mp
  rw [← ho]
  exact (dialled_returns_iff hp).mpr h

theorem Rtsp.ping_returns {target : Text}
    (h : (read U target).PortReadable) : (ping U s target).Returns := by
  unfold ping
  rw [getUri_eq_ok_iff.mpr ⟨h, rfl⟩, Outcome.bind_ok]
  exact bind_returns_of_connection (s := s) (p := .rtsp) nofun rfl
    (fun connection => s.converse_returns connection _) h

theorem Dns.ping_returns {server : Text} (query : Text)
    (recordType : RecordType) (h : (read U server).PortReadable) :
    (ping U s server query recordType).Returns := by
  unfold ping
  split
  · exact Outcome.returns_fail _ _
  · exact bind_returns_of_endpoint (s := s) (p := .dns) nofun rfl
      (fun endpoint => s.probe_returns endpoint _) h

/-- Where the text of a pinger can be parsed, and all URLs its playlists lead
it to, its ping returns. -/
theorem BuiltPinger.ping_returns (p : BuiltPinger)
    (h : (read U p.parsed).PortReadable)
    (hls : ∀ next, Hls.Fetches U (s.fetched U) p.parsed next →
      (read U next).PortReadable) : (p.ping U s).Returns := by
  obtain ⟨kind, target, timeout⟩ := p
  cases kind with
  | tcp => exact s.converse_returns _ _
  | udp => exact s.probe_returns _ _
  | http method =>
      apply (Outcome.returns_bind_iff ?_).mpr (Http.request_returns method h)
      exact fun ⟨connection, request⟩ _ => s.converse_returns connection _
  | ws =>
      refine bind_returns_of_connection (s := s) (p := .websocket) nofun rfl ?_ h
      intro connection
      apply (Outcome.returns_bind_iff ?_).mpr (IoError.handOn_returns _)
      exact fun clientAsync _ => Websocket.runHandshakeAndPing_returns _ _ _
  | dns query recordType => exact Dns.ping_returns query recordType h
  | grpc service | grpcStream service =>
      apply (Outcome.returns_bind_iff ?_).mpr (grpc_connect_returns_iff.mpr h)
      exact fun transport _ => IoError.handOn_returns _
  | hls =>
      exact (Hls.ping_returns_iff fun _ => Hls.fetched_returns_iff).mpr ⟨h, hls⟩
  | mqtt clientId keepalive version =>
      exact bind_returns_of_connection (s := s) (p := .mqtt) nofun rfl
        (fun connection => s.converse_returns connection _) h
  | tls =>
      exact bind_returns_of_connection (s := s) (p := .tls) nofun rfl
        (fun connection => IoError.handOn_returns _) h
  | ntp =>
      exact bind_returns_of_endpoint (s := s) (p := .ntp) nofun rfl
        (fun endpoint => s.probe_returns endpoint _) h
  | stun =>
      exact bind_returns_of_endpoint (s := s) (p := .stun) nofun rfl
        (fun endpoint => s.probe_returns endpoint _) h
  | turn =>
      exact bind_returns_of_endpoint (s := s) (p := .turn) nofun rfl
        (fun endpoint => s.probe_returns endpoint _) h
  | rtsp => exact Rtsp.ping_returns h
  | rtmp =>
      exact bind_returns_of_connection (s := s) (p := .rtmp) nofun rfl
        (fun connection => s.converse_returns connection _) h
  | quic alpn =>
      apply (Outcome.returns_bind_iff ?_).mpr
      · exact (Outcome.returns_bind_iff fun _ _ => Outcome.returns_pure _).mpr
          (quic_parseEndpoint_returns_iff.mpr h)
      · exact fun endpoint _ => IoError.handOn_returns _

end Pings

/-! ## Everything that begins by parsing a URL -/

/-- Parsing `url` succeeds, and none of the tools and pings that begin by
parsing it unwinds. -/
structure ReturnsEverywhere (U : CharClasses) {Frame CloseFrame : Type}
    (s : Surroundings Frame CloseFrame) (url : Text) : Prop where
  captures : URI.captures U url ≠ none
  parse : ∃ uri, URI.parse U url = .ok uri
  getUri : (getUri U url).Returns
  resolve : ∀ (Addr : Type) (lookupHost : Text → Option (List Addr)),
    (resolve U lookupHost url).Returns
  banner : ∀ (Addr : Type) (lookupHost : Text → Option (List Addr))
    (command : Cli.Command), Cli.targetOf command = url →
    (Cli.banner U lookupHost command).Returns
  ping : ∀ p : BuiltPinger, p.parsed = url → (p.ping U s).Returns

/-- The tools and the pings return on a URL exactly when the text in the port's
place is absent or an `i32` numeral, there and in the URLs that playlists lead
to. -/
theorem returnsEverywhere_iff (U : CharClasses) {Frame CloseFrame : Type}
    (s : Surroundings Frame CloseFrame) (url : Text) :
    ReturnsEverywhere U s url ↔
      (read U url).PortReadable ∧
        ∀ next, Hls.Fetches U (s.fetched U) url next →
          (read U next).PortReadable := by
  constructor
  · intro h
    exact (Hls.ping_returns_iff fun _ => Hls.fetched_returns_iff).mp
      (h.ping (.new .hls url) rfl)
  · rintro ⟨h, hls⟩
    refine
      { captures := ?_
        parse := ⟨_, parse_eq_ok_iff.mpr ⟨h, rfl⟩⟩
        getUri := getUri_returns_iff.mpr h
        resolve := fun _ _ => resolve_returns_iff.mpr h
        banner := ?_
        ping := ?_ }
    · obtain ⟨text, rest, hcaptures⟩ := captures_eq_groupsOf_read U url
      simp [hcaptures]
    · rintro Addr lookupHost command rfl
      exact Cli.banner_returns_iff.mpr h
    · rintro p rfl
      exact p.ping_returns h hls

/-- What an operating system says of a connection that is refused. -/
def refused : IoError := ⟨.other, "Connection refused (os error 111)".toList⟩

/-- Nothing that is dialled answers. -/
def unanswered : Surroundings Unit Unit where
  serverName _ := .ok ()
  debug := id
  now := none
  stream _ _ := .error refused
  datagram _ _ := .error refused
  tls _ := .error refused
  websocket _ _ := .error refused
  websocketSend _ _ := .ok ()
  websocketDebug _ := []
  quic _ _ := .error refused
  grpc _ _ _ := .error refused

/-- A colon without a port behind it. -/
theorem not_returnsEverywhere_empty_port :
    ¬ReturnsEverywhere CharClasses.ascii unanswered
      "http://example.com:/".toList := by
  intro h
  have hreadable := getUri_returns_iff.mp h.getUri
  revert hreadable
  decide

/-- A playlist whose segment has such a colon. -/
def misleading : Text := "#EXTM3U\n#EXTINF:1\nhttp://h:/s.ts".toList

/-- Every connection brings it. -/
def misled : Surroundings Unit Unit :=
  { unanswered with
    stream _ _ := .ok (.whole (Utf8.encode
      ("HTTP/1.1 200 OK\r\n\r\n".toList ++ misleading))) }

-- The URL of the user can be parsed, and its ping unwinds all the same.
example : (read CharClasses.ascii "http://h/m.m3u8".toList).PortReadable ∧
    ¬ReturnsEverywhere CharClasses.ascii misled "http://h/m.m3u8".toList := by
  refine ⟨by decide, fun h => ?_⟩
  have hping := h.ping (.new .hls "http://h/m.m3u8".toList) rfl
  have hurls := (Hls.ping_returns_iff fun _ => Hls.fetched_returns_iff).mp hping
  have hserved : Hls.ServesText (misled.fetched CharClasses.ascii)
      "http://h/m.m3u8".toList misleading := by
    refine ⟨Utf8.encode misleading, ?_, by decide +kernel⟩
    rw [Hls.fetched_eq]
    decide +kernel
  have hsegment : Hls.firstSegmentUrl misleading =
      some "http://h:/s.ts".toList := by decide +kernel
  have hnext := hurls.2 "http://h:/s.ts".toList (.segment
    ⟨misleading, [], hserved, by decide +kernel, .media (by decide +kernel), rfl⟩
    hsegment rfl)
  revert hnext
  decide

end KnockKnock
