import KnockKnock.Exchange
import KnockKnock.Support.Numeral

/-!
# The RTSP exchange

The pinger sends an `OPTIONS` request and reads until it has seen the end of
the headers or has enough.  A read that returns nothing ends the loop too; what
has been read is judged all the same.
-/

namespace KnockKnock

open Numeral

namespace Rtsp

/-- `MAX_RESPONSE_BYTES` -/
def maxResponseBytes : ℕ := 4096

/-- `HEADER_TERMINATOR` -/
def headerTerminator : Bytes := Utf8.encode "\r\n\r\n".toList

/-- `STATUS_LINE_PREFIX` -/
def statusLinePrefix : Bytes := Utf8.encode "RTSP/1.0 200".toList

def buildOptionsRequest (domain : Text) (port : UInt16) : Bytes :=
  let requestUri :=
    "rtsp://".toList ++ domain ++ ":".toList ++ decimal port.toNat ++
      "/".toList
  let userAgent := "zpinger/0.7.0".toList
  Utf8.encode
    ("OPTIONS ".toList ++ requestUri ++ " RTSP/1.0\r\n".toList ++
      "CSeq: 1\r\n".toList ++
      "User-Agent: ".toList ++ userAgent ++ "\r\n".toList ++ "\r\n".toList)

/-- The first window that equals the terminator. -/
def findHeaderTerminator : Bytes → Option ℕ
  | [] => none
  | b :: buf =>
      if headerTerminator <+: b :: buf then some 0
      else (findHeaderTerminator buf).map (· + 1)

/-- The loop of `validate_response`, with what is in `buf`. -/
def readResponse (buf : Bytes) : Exchange Bytes := do
  let chunk ← Exchange.read 256
  if chunk = [] then pure buf
  else if (findHeaderTerminator (buf ++ chunk)).isSome ∨
      maxResponseBytes ≤ (buf ++ chunk).length then pure (buf ++ chunk)
  else readResponse (buf ++ chunk)
termination_by maxResponseBytes - buf.length
decreasing_by
  have hpos : 0 < chunk.length := List.length_pos_of_ne_nil ‹_›
  rw [List.length_append] at *
  omega

/-- `debug` is how `{:?}` writes a string. -/
def validateResponse (debug : Text → Text) : Exchange Unit := do
  let buf ← readResponse []
  if ¬statusLinePrefix <+: buf then
    let preview := Utf8.lossy (buf.take (min buf.length 64))
    Exchange.lift (Outcome.fail .other
      ("RTSP response did not start with `RTSP/1.0 200`: ".toList ++
        debug preview))

/-- What `ping_plain` and `ping_tls` do with their stream. -/
def exchange (debug : Text → Text) (domain : Text) (port : UInt16) :
    Exchange Unit := do
  Exchange.writeAll (buildOptionsRequest domain port)
  validateResponse debug

end Rtsp

end KnockKnock
