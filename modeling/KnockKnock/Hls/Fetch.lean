import KnockKnock.Session
import KnockKnock.Support.Text

/-!
# The HTTP fetcher of the HLS pinger

`fetch_response_body` writes its request, reads to the end of the stream, and
takes what stands behind the first blank line for the body.
-/

namespace KnockKnock

open ByteStream Spans

namespace Hls

/-- `b"\r\n\r\n"` -/
def separator : Bytes := Utf8.encode "\r\n\r\n".toList

/-- What `fetch_response_body` makes of the bytes it has read. -/
def responseBody (buf : Bytes) : Outcome Bytes :=
  match position separator buf with
  | none =>
      Outcome.fail .other "response missing header/body separator".toList
  | some split =>
      match Utf8.fromUtf8 (buf.take split) with
      | none =>
          Outcome.fail .other "response headers are not valid UTF-8".toList
      | some header =>
          let statusLine := (Str.lines header).head?.getD []
          if ¬"HTTP/".toList <+: statusLine then
            Outcome.fail .other
              "response is not HTTP/1.x (wrong port or protocol?)".toList
          else if ¬Str.contains statusLine " 200 ".toList ∧
              ¬Str.contains statusLine " 206 ".toList then
            Outcome.fail .other
              ("unexpected HTTP status: ".toList ++ statusLine)
          else pure (buf.drop (split + 4))

def fetchResponseBody (request : Text) : Session Bytes := do
  Session.writeAll (Utf8.encode request)
  let buf ← Session.readToEnd 4096
  Session.lift (responseBody buf)

/-- The result depends on the bytes of the response alone. -/
theorem run_fetchResponseBody (request : Text) (d : Delivery UInt8) :
    (Session.run (fetchResponseBody request) (Session.opened d)).1 =
      responseBody d.bytes := by
  have hread : (d.readToEnd 4096 []).1 = d.bytes :=
    Delivery.readToEnd_eq (by decide) [] d
  rw [← hread]
  rfl

/-! ## The parts of a response -/

variable {buf : Bytes} {split : ℕ} {header : Text}

theorem responseBody_of_position (hsplit : position separator buf = some split)
    (hheader : Utf8.fromUtf8 (buf.take split) = some header) :
    responseBody buf =
      let statusLine := (Str.lines header).head?.getD []
      if ¬"HTTP/".toList <+: statusLine then
        Outcome.fail .other
          "response is not HTTP/1.x (wrong port or protocol?)".toList
      else if ¬Str.contains statusLine " 200 ".toList ∧
          ¬Str.contains statusLine " 206 ".toList then
        Outcome.fail .other ("unexpected HTTP status: ".toList ++ statusLine)
      else pure (buf.drop (split + 4)) := by
  unfold responseBody
  rw [hsplit]
  dsimp only
  rw [hheader]

/-- Without a blank line there is no body. -/
theorem isErr_responseBody (h : position separator buf = none) :
    (responseBody buf).IsErr := by
  unfold responseBody
  rw [h]
  trivial

end Hls

end KnockKnock
