import Mathlib.Data.List.DropRight
import KnockKnock.Outcome
import KnockKnock.Support.Numeral
import KnockKnock.Support.Utf8
import KnockKnock.Support.Wire

/-!
# DNS queries

`build_query` encodes one question, `validate_response` accepts a datagram
whose header answers the query and whose question section repeats it.
-/

namespace KnockKnock

open Numeral Wire

namespace Dns

inductive RecordType where
  | a
  | aaaa
  | cname
  | mx
  | ns
  | txt
deriving DecidableEq, Repr

def RecordType.code : RecordType → UInt16
  | .a => 1
  | .ns => 2
  | .cname => 5
  | .mx => 15
  | .txt => 16
  | .aaaa => 28

/-- `name.trim_end_matches('.')` -/
def trimDots (name : Text) : Text := name.rdropWhile (· == '.')

/-- The loop over the labels, on top of the bytes `out`. -/
def encodeLabels (out : Bytes) : List Text → Outcome Bytes
  | [] => pure out
  | label :: labels =>
      if label = [] then
        Outcome.fail .invalidInput "DNS query name has an empty label".toList
      else if 63 < (Utf8.encode label).length then
        Outcome.fail .invalidInput "DNS label exceeds 63 bytes".toList
      else
        encodeLabels (out ++
          UInt8.ofNat (Utf8.encode label).length :: Utf8.encode label) labels

def encodeName (name : Text) : Outcome Bytes := do
  let out ← encodeLabels [] ((trimDots name).splitOn '.')
  if 255 < (out ++ [0]).length then
    Outcome.fail .invalidInput "encoded DNS name exceeds 255 bytes".toList
  else pure (out ++ [0])

def buildQuery (id : UInt16) (name : Text) (qtype : UInt16) :
    Outcome Bytes := do
  let qname ← encodeName name
  pure (toBeBytes id ++ toBeBytes 0x0100 ++ toBeBytes 1 ++ toBeBytes 0 ++
    toBeBytes 0 ++ toBeBytes 0 ++ (qname ++ (toBeBytes qtype ++ toBeBytes 1)))

/-- `u16::from_be_bytes([buf[i], buf[i + 1]])`, inside the buffer. -/
def wordAt (buf : Bytes) (i : ℕ) : UInt16 :=
  fromBeBytes (buf.getD i 0) (buf.getD (i + 1) 0)

def validateResponse (buf request : Bytes) (expectedId : UInt16) :
    Outcome Unit :=
  if buf.length < 12 then
    Outcome.fail .other "DNS response shorter than header".toList
  else
    let respId := wordAt buf 0
    if respId ≠ expectedId then
      Outcome.fail .other ("DNS response ID ".toList ++ hex respId.toNat ++
        " does not match query ID ".toList ++ hex expectedId.toNat)
    else
      let flags := wordAt buf 2
      let qr := flags >>> 15
      if qr ≠ 1 then
        Outcome.fail .other
          "DNS response QR flag not set (server returned a query)".toList
      else
        let rcode := flags &&& 0x000F
        if rcode ≠ 0 then
          Outcome.fail .other ("DNS server returned RCODE ".toList ++
            decimal rcode.toNat ++ " (non-zero = error)".toList)
        else
          let qdcount := wordAt buf 4
          if qdcount ≠ 1 then
            Outcome.fail .other ("DNS response QDCOUNT = ".toList ++
              decimal qdcount.toNat ++ " (expected 1)".toList)
          else do
            let question ← Outcome.sliceFrom request 12
            if buf.length < 12 + question.length then
              Outcome.fail .other
                ("DNS response too short to carry an echoed question " ++
                  "section").toList
            else if (buf.drop 12).take question.length ≠ question then
              Outcome.fail .other
                ("DNS response question section does not match the " ++
                  "query").toList
            else pure ()

end Dns

end KnockKnock
