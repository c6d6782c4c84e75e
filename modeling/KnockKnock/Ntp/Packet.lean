import KnockKnock.Outcome
import KnockKnock.Support.Datagram
import KnockKnock.Support.Numeral

/-!
# NTP packets

`build_request` writes a client packet of 48 bytes whose first byte holds the
version and the mode, `validate_response` accepts a packet of 48 bytes by that
byte alone.
-/

namespace KnockKnock

open Numeral

namespace Ntp

/-- `PACKET_LEN` -/
def packetLen : ℕ := 48

/-- `BUF_SIZE` -/
def bufSize : ℕ := 0xFF

/-- `NTP_VERSION` -/
def ntpVersion : UInt8 := 4

/-- `MODE_CLIENT` -/
def modeClient : UInt8 := 3

/-- `MODE_SERVER` -/
def modeServer : UInt8 := 4

/-- `MODE_BROADCAST` -/
def modeBroadcast : UInt8 := 5

def buildRequest : Bytes :=
  ((ntpVersion <<< 3) ||| modeClient) :: List.replicate (packetLen - 1) 0

def validateResponse (buf : Bytes) : Outcome Unit :=
  if buf.length ≠ packetLen then
    Outcome.fail .other ("NTP response is ".toList ++ decimal buf.length ++
      " bytes (expected ".toList ++ decimal packetLen ++ ")".toList)
  else
    let first := buf.getD 0 0
    let mode := first &&& 0x07
    if mode ≠ modeServer ∧ mode ≠ modeBroadcast then
      Outcome.fail .other ("NTP response mode ".toList ++
        decimal mode.toNat ++ " is not server (4) or broadcast (5)".toList)
    else
      let version := (first >>> 3) &&& 0x07
      if version ≠ ntpVersion then
        Outcome.fail .other ("NTP response version ".toList ++
          decimal version.toNat ++ " does not match request version ".toList ++
          decimal ntpVersion.toNat)
      else pure ()

/-- What `NtpPinger` makes of the datagram that comes back. -/
def receive (d : Bytes) : Outcome Unit :=
  validateResponse (Datagram.recv bufSize d)

/-- The mode of a server and the version of the pinger. -/
def FromServer (first : UInt8) : Prop :=
  (first &&& 0x07 = modeServer ∨ first &&& 0x07 = modeBroadcast) ∧
    (first >>> 3) &&& 0x07 = ntpVersion

instance (first : UInt8) : Decidable (FromServer first) :=
  inferInstanceAs (Decidable (_ ∧ _))

theorem validateResponse_eq_ok_iff {buf : Bytes} :
    validateResponse buf = .ok () ↔
      buf.length = packetLen ∧ FromServer (buf.getD 0 0) := by
  rw [validateResponse]
  by_cases hlength : buf.length = packetLen
  swap
  · rw [if_pos hlength]
    exact iff_of_false (by rintro ⟨⟩) fun h => hlength h.1
  rw [if_neg (not_not_intro hlength), and_iff_right hlength]
  by_cases hmode : buf.getD 0 0 &&& 0x07 = modeServer ∨
    buf.getD 0 0 &&& 0x07 = modeBroadcast
  swap
  · rw [if_pos (not_or.mp hmode)]
    exact iff_of_false (by rintro ⟨⟩) fun h => hmode h.1
  rw [if_neg fun h => not_or.mpr h hmode, FromServer, and_iff_right hmode]
  by_cases hversion : (buf.getD 0 0 >>> 3) &&& 0x07 = ntpVersion
  · rw [if_neg (not_not_intro hversion)]
    exact iff_of_true rfl hversion
  · rw [if_pos hversion]
    exact iff_of_false (by rintro ⟨⟩) hversion

/-- The buffer is larger than the packet. -/
theorem receive_eq_ok_iff {d : Bytes} :
    receive d = .ok () ↔ d.length = packetLen ∧ FromServer (d.getD 0 0) := by
  have hlength : (Datagram.recv bufSize d).length = packetLen ↔
      d.length = packetLen := by
    rw [Datagram.recv, List.length_take, bufSize, packetLen]
    omega
  rw [receive, validateResponse_eq_ok_iff, hlength,
    Datagram.getD_recv (by decide)]

theorem length_buildRequest : buildRequest.length = packetLen := rfl

end Ntp

end KnockKnock
