import KnockKnock.Exchange

/-!
# The test server's simplest fixtures

`start_tcp_echo` and `start_http_ok` read once and write once.
-/

namespace KnockKnock

namespace Testserver

/-- `BUF_SIZE` -/
def bufSize : ℕ := 1024

/-- A connection of `start_tcp_echo`. -/
def startTcpEcho : Program UInt8 Fault Unit := do
  match ← (Exchange.read bufSize).run with
  | .error _ => .done ()
  | .ok received =>
      let _ ← (Exchange.writeAll received).run
      .done ()

def httpOkResponse : Bytes :=
  Utf8.encode ("HTTP/1.1 200 OK\r\n".toList ++ "Content-Length: 0\r\n".toList ++
    "Connection: close\r\n\r\n".toList)

/-- A connection of `start_http_ok`, which answers whatever it has read. -/
def startHttpOk : Program UInt8 Fault Unit := do
  let _ ← (Exchange.read bufSize).run
  let _ ← (Exchange.writeAll httpOkResponse).run
  .done ()

end Testserver

end KnockKnock
