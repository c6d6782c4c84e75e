import KnockKnock.Support.HttpWriting
import KnockKnock.Support.Utf8
import KnockKnock.Targets.Dialling

/-!
# The requests of the HTTP and HLS pingers

`HttpPinger::build_request` and the HLS pinger's `build_get` splice the path of
the parsed target, the endpoint they dial and, for HLS, a range into a fixed
text.  Neither looks at what these contain.
-/

namespace KnockKnock

open HttpMessage Numeral Utf8

variable (U : CharClasses) (serverName : ServerNames)

namespace Http

inductive HttpMethod where
  | connect
  | get
  | post
  | put
  | delete
  | patch
deriving DecidableEq, Repr

def HttpMethod.asStr : HttpMethod → Text
  | .connect => "CONNECT".toList
  | .get => "GET".toList
  | .post => "POST".toList
  | .put => "PUT".toList
  | .delete => "DELETE".toList
  | .patch => "PATCH".toList

def HttpMethod.hasBody : HttpMethod → Bool
  | .post | .put | .patch => true
  | _ => false

def buildRequest (method : HttpMethod) (uri : URI) (hostHeader : Text) :
    Text :=
  let path := if uri.path = [] then "/".toList else uri.path
  if method.hasBody then
    method.asStr ++ ' ' :: path ++ " HTTP/1.1\r\n".toList ++
      "Host: ".toList ++ hostHeader ++ "\r\n".toList ++
      "User-Agent: Knock Knock\r\n".toList ++
      "Content-Type: application/json\r\n".toList ++
      "Content-Length: 2\r\n".toList ++
      "\r\n".toList ++
      "\x7b\x7d\r\n".toList ++
      "\r\n".toList
  else
    method.asStr ++ ' ' :: path ++ " HTTP/1.1\r\n".toList ++
      "Host: ".toList ++ hostHeader ++ "\r\n".toList ++
      "User-Agent: Knock Knock\r\n".toList ++
      "\r\n".toList

/-- `HttpPinger::ping` up to the exchange: the connection and the request. -/
def request (method : HttpMethod) (target : Text) :
    Outcome (Connection × Text) := do
  let uri ← getUri U target
  let connection ← connect U serverName target
  pure (connection, buildRequest method uri connection.endpoint)

end Http

namespace Hls

def buildGet (uri : URI) (hostHeader : Text) (range : Option Text) : Text :=
  let path := if uri.path = [] then "/".toList else uri.path
  let req := "GET ".toList ++ path ++ " HTTP/1.1\r\n".toList ++
    "Host: ".toList ++ hostHeader ++ "\r\n".toList ++
    "User-Agent: Knock Knock\r\n".toList ++
    "Accept: */*\r\n".toList ++
    "Connection: close\r\n".toList
  let req :=
    match range with
    | some r => req ++ ("Range: ".toList ++ r ++ "\r\n".toList)
    | none => req
  req ++ "\r\n".toList

/-- `http_get_with_range` up to the exchange: the connection and the
request. -/
def request (url : Text) (range : Option Text) :
    Outcome (Connection × Text) := do
  let uri ← getUri U url
  let connection ← connect U serverName url
  pure (connection, buildGet uri connection.endpoint range)

end Hls

/-! ## Both builders -/

/-- What a request is built for, besides its target. -/
inductive Builder where
  | buildRequest (method : Http.HttpMethod)
  | buildGet (range : Option Text)
deriving DecidableEq, Repr

namespace Builder

def build : Builder → URI → Text → Text
  | buildRequest method, uri, host => Http.buildRequest method uri host
  | buildGet range, uri, host => Hls.buildGet uri host range

/-- The connection made for a target, and the request sent over it. -/
def request : Builder → Text → Outcome (Connection × Text)
  | buildRequest method, target => Http.request U serverName method target
  | buildGet range, url => Hls.request U serverName url range

def method : Builder → Text
  | buildRequest method => method.asStr
  | buildGet _ => "GET".toList

/-- The header fields of a request, with the endpoint as its host. -/
def fields (host : Text) : Builder → List (Text × Text)
  | buildRequest method =>
      [("Host".toList, host), ("User-Agent".toList, "Knock Knock".toList)] ++
        if method.hasBody then
          [("Content-Type".toList, "application/json".toList),
            ("Content-Length".toList, "2".toList)]
        else []
  | buildGet range =>
      [("Host".toList, host), ("User-Agent".toList, "Knock Knock".toList),
        ("Accept".toList, "*/*".toList),
        ("Connection".toList, "close".toList)] ++
        range.toList.map fun r => ("Range".toList, r)

/-- What is written behind the empty line. -/
def trailer : Builder → Text
  | buildRequest method => if method.hasBody then "\x7b\x7d\r\n\r\n".toList else []
  | buildGet _ => []

end Builder

/-- The path as the builders write it. -/
def writtenPath (uri : URI) : Text :=
  if uri.path = [] then "/".toList else uri.path

/-- A header field as bytes. -/
def encodeField (field : Text × Text) : Bytes × Bytes :=
  (encode field.1, encode field.2)

/-- A header field as text. -/
def fieldText (field : Text × Text) : Text :=
  field.1 ++ ": ".toList ++ field.2 ++ "\r\n".toList

theorem versionText :
    " HTTP/1.1\r\n".toList = ' ' :: ("HTTP/1.1".toList ++ "\r\n".toList) := by
  decide

theorem getText : "GET ".toList = "GET".toList ++ [' '] := by decide

theorem bodyText : "\x7b\x7d\r\n\r\n".toList =
    "\x7b\x7d\r\n".toList ++ "\r\n".toList := by decide

theorem hostFieldText : "Host: ".toList = "Host".toList ++ ": ".toList := by decide

theorem rangeText : "Range: ".toList = "Range".toList ++ ": ".toList := by
  decide

theorem userAgentText : "User-Agent: Knock Knock\r\n".toList =
    fieldText ("User-Agent".toList, "Knock Knock".toList) := by decide

theorem contentTypeText : "Content-Type: application/json\r\n".toList =
    fieldText ("Content-Type".toList, "application/json".toList) := by decide

theorem contentLengthText : "Content-Length: 2\r\n".toList =
    fieldText ("Content-Length".toList, "2".toList) := by decide

theorem acceptText : "Accept: */*\r\n".toList =
    fieldText ("Accept".toList, "*/*".toList) := by decide

theorem connectionText : "Connection: close\r\n".toList =
    fieldText ("Connection".toList, "close".toList) := by decide

/-- The text the builders write. -/
theorem build_eq (b : Builder) (uri : URI) (host : Text) :
    b.build uri host =
      b.method ++ ' ' :: (writtenPath uri ++ ' ' :: ("HTTP/1.1".toList ++
        ("\r\n".toList ++ ((b.fields host).flatMap fieldText ++
          ("\r\n".toList ++ b.trailer))))) := by
  cases b with
  | buildRequest method =>
      by_cases hbody : method.hasBody
      · simp only [Builder.build, Http.buildRequest, Builder.method,
          Builder.fields, Builder.trailer, if_pos hbody, versionText,
          hostFieldText, userAgentText, contentTypeText, contentLengthText,
          bodyText, fieldText, writtenPath, List.append_assoc,
          List.cons_append, List.nil_append, List.flatMap_cons,
          List.flatMap_nil]
      · simp only [Builder.build, Http.buildRequest, Builder.method,
          Builder.fields, Builder.trailer, if_neg hbody, versionText,
          hostFieldText, userAgentText, fieldText, writtenPath, List.append_assoc,
          List.cons_append, List.append_nil, List.flatMap_cons,
          List.flatMap_nil]
  | buildGet range =>
      unfold Builder.build Hls.buildGet Builder.method Builder.fields
        Builder.trailer
      dsimp only
      rw [getText, versionText, hostFieldText, userAgentText, acceptText,
        connectionText]
      cases range with
      | none =>
          simp only [fieldText, writtenPath, Option.toList_none, List.map_nil,
            List.append_assoc, List.cons_append, List.nil_append,
            List.append_nil, List.flatMap_cons, List.flatMap_nil]
      | some r =>
          rw [rangeText]
          simp only [fieldText, writtenPath, Option.toList_some,
            List.map_cons, List.map_nil, List.append_assoc, List.cons_append,
            List.nil_append, List.append_nil, List.flatMap_cons,
            List.flatMap_nil]

theorem encode_fieldText (field : Text × Text) :
    encode (fieldText field) = fieldLine (encodeField field) ++ crlf := by
  have hcolon : encode ": ".toList = [0x3A, 0x20] := by decide
  have hcrlf : encode "\r\n".toList = crlf := by decide
  simp only [fieldText, encode_append, hcolon, hcrlf, fieldLine, encodeField,
    List.append_assoc, List.cons_append, List.nil_append]

theorem encode_flatMap (fields : List (Text × Text)) :
    encode (fields.flatMap fieldText) =
      ended ((fields.map encodeField).map fieldLine) := by
  induction fields with
  | nil => rfl
  | cons field fields ih =>
      simp only [List.flatMap_cons, encode_append, encode_fieldText, ih,
        List.map_cons, ended]

/-- The bytes the builders write. -/
theorem encode_build (b : Builder) (uri : URI) (host : Text) :
    encode (b.build uri host) =
      written (encode b.method) (encode (writtenPath uri))
        (encode "HTTP/1.1".toList) ((b.fields host).map encodeField) ++
        encode b.trailer := by
  have hspace : ∀ s, encode (' ' :: s) = 0x20 :: encode s := fun _ => rfl
  have hcrlf : encode "\r\n".toList = crlf := by decide
  simp only [build_eq, encode_append, hspace, hcrlf, encode_flatMap, written,
    requestLine, List.append_assoc, List.cons_append]

variable {U serverName}

/-- The steps up to the exchange: the request is written for the connection
that was made. -/
theorem request_steps (write : URI → Text → Text) {target text : Text}
    {uri : URI} {connected : Outcome Connection} {connection : Connection}
    (huri : getUri U target = .ok uri)
    (h : (do
      let uri ← getUri U target
      let connection ← connected
      pure (connection, write uri connection.endpoint)) =
        .ok (connection, text)) :
    connected = .ok connection ∧ text = write uri connection.endpoint := by
  rw [huri, Outcome.bind_ok] at h
  obtain ⟨c, hconnected, hpair⟩ := Outcome.bind_eq_ok_iff.mp h
  obtain ⟨rfl, rfl⟩ := Prod.mk.inj (Except.ok.inj hpair)
  exact ⟨hconnected, rfl⟩

/-- A request is built from the target and the endpoint dialled for it. -/
theorem Builder.request_eq_ok {b : Builder} {target text : Text} {uri : URI}
    {connection : Connection} (huri : getUri U target = .ok uri)
    (h : b.request U serverName target = .ok (connection, text)) :
    text = b.build uri connection.endpoint ∧
      ∃ port, connection.endpoint = hostPort uri.domain port := by
  have hdial : ∀ p : Pinger, p ≠ .quic →
      p.dialled U serverName target = .ok connection.endpoint →
      ∃ port, connection.endpoint = hostPort uri.domain port := by
    intro p hp hdialled
    have hrefused : Outcome.RefusedOr
        (fun endpoint => ∃ port, endpoint = hostPort uri.domain port)
        (p.dialled U serverName target) :=
      dialled_refusedOr huri (fun d => ⟨_, rfl⟩) hp
    rw [hdialled] at hrefused
    exact hrefused
  cases b with
  | buildRequest method =>
      obtain ⟨hconnect, htext⟩ :=
        request_steps (Http.buildRequest method) huri h
      have hdialled : Pinger.http.dialled U serverName target =
          .ok connection.endpoint :=
        Outcome.bind_eq_ok_iff.mpr ⟨connection, hconnect, rfl⟩
      exact ⟨htext, hdial .http (by decide) hdialled⟩
  | buildGet range =>
      obtain ⟨hconnect, htext⟩ := request_steps
        (fun uri host => Hls.buildGet uri host range) huri h
      have hdialled : Pinger.hls.dialled U serverName target =
          .ok connection.endpoint :=
        Outcome.bind_eq_ok_iff.mpr ⟨connection, hconnect, rfl⟩
      exact ⟨htext, hdial .hls (by decide) hdialled⟩

end KnockKnock
