import KnockKnock.Outcome
import KnockKnock.Support.Numeral
import KnockKnock.Support.Wire

/-!
# STUN headers

`validate_response_header` accepts a datagram by the first twenty bytes of it.
Both `StunPinger` and `TurnPinger` rest on it, the latter before it walks the
attributes behind them.
-/

namespace KnockKnock

open Numeral Wire

namespace Stun

/-- `STUN_HEADER_LEN` -/
def headerLen : ℕ := 20

/-- `MAGIC_COOKIE` -/
def magicCookie : UInt32 := 0x2112A442

/-- `MSG_BINDING_SUCCESS` -/
def msgBindingSuccess : UInt16 := 0x0101

/-- `[u8; STUN_TXID_LEN]` -/
abbrev TransactionId := { id : Bytes // id.length = 12 }

def validateResponseHeader (buf : Bytes) (expectedType : UInt16)
    (expectedTxid : TransactionId) : Outcome Unit :=
  if buf.length < headerLen then
    Outcome.fail .other ("STUN response shorter than 20-byte header (got ".toList ++
      decimal buf.length ++ " bytes)".toList)
  else
    let messageType := fromBeBytes (buf.getD 0 0) (buf.getD 1 0)
    if messageType ≠ expectedType then
      Outcome.fail .other ("STUN response message type ".toList ++
        hexPadded 6 messageType.toNat ++ " (expected ".toList ++
        hexPadded 6 expectedType.toNat ++ ")".toList)
    else
      let cookie := fromBeBytes32 (buf.getD 4 0) (buf.getD 5 0)
        (buf.getD 6 0) (buf.getD 7 0)
      if cookie ≠ magicCookie then
        Outcome.fail .other ("STUN response magic cookie ".toList ++
          hexPadded 10 cookie.toNat ++ " does not match ".toList ++
          hexPadded 10 magicCookie.toNat)
      else if (buf.drop 8).take 12 ≠ expectedTxid.1 then
        Outcome.fail .other
          "STUN response transaction ID does not match request".toList
      else pure ()

def validateBindingResponse (buf : Bytes) (expectedTxid : TransactionId) :
    Outcome Unit :=
  validateResponseHeader buf msgBindingSuccess expectedTxid

/-- The datagram has a whole header, and its type, cookie and transaction are
the expected ones. -/
structure Answers (buf : Bytes) (messageType : UInt16)
    (txid : TransactionId) : Prop where
  header : headerLen ≤ buf.length
  type : fromBeBytes (buf.getD 0 0) (buf.getD 1 0) = messageType
  cookie : fromBeBytes32 (buf.getD 4 0) (buf.getD 5 0) (buf.getD 6 0)
    (buf.getD 7 0) = magicCookie
  transaction : (buf.drop 8).take 12 = txid.1

/-- These four are all that is checked. -/
theorem validateResponseHeader_eq_ok_iff {buf : Bytes}
    {messageType : UInt16} {txid : TransactionId} :
    validateResponseHeader buf messageType txid = .ok () ↔
      Answers buf messageType txid := by
  unfold validateResponseHeader
  constructor
  · intro h
    split at h
    · cases h
    next hheader =>
      dsimp only at h
      split at h
      · cases h
      next htype =>
        split at h
        · cases h
        next hcookie =>
          split at h
          · cases h
          next htransaction =>
            exact ⟨Nat.le_of_not_lt hheader, not_not.mp htype,
              not_not.mp hcookie, not_not.mp htransaction⟩
  · intro h
    rw [if_neg (Nat.not_lt.mpr h.header)]
    dsimp only
    rw [if_neg (not_not_intro h.type), if_neg (not_not_intro h.cookie),
      if_neg (not_not_intro h.transaction)]
    rfl

/-! ## Headers as the protocol defines them -/

/-- The Message Length field. -/
def messageLength (buf : Bytes) : ℕ :=
  (fromBeBytes (buf.getD 2 0) (buf.getD 3 0)).toNat

/-- The length a message declares is that of the bytes behind its header, and
a multiple of four. -/
def Declared (buf : Bytes) : Prop :=
  messageLength buf = buf.length - headerLen ∧ 4 ∣ messageLength buf

instance (buf : Bytes) : Decidable (Declared buf) :=
  inferInstanceAs (Decidable (_ ∧ _))

/-- A header without any deviation: the two top bits are zero, and the declared
length is the real one. -/
structure Conforms (buf : Bytes) (messageType : UInt16)
    (txid : TransactionId) : Prop extends Answers buf messageType txid where
  topBits : buf.getD 0 0 &&& 0xC0 = 0
  declared : Declared buf

/-- The two top bits of a message are those of its type. -/
theorem topBits_eq_zero_iff (a b : UInt8) :
    a &&& 0xC0 = 0 ↔ (fromBeBytes a b).toNat < 0x4000 := by
  have hb := b.toNat_lt
  have ha := a.toNat_lt
  have hword : (fromBeBytes a b).toNat = a.toNat * 256 + b.toNat := by
    rw [fromBeBytes, UInt16.toNat_ofNat']
    omega
  have hbits : ∀ n < 256, n &&& 0xC0 = 0 ↔ n < 64 := by decide +kernel
  rw [hword, ← UInt8.toNat_inj, UInt8.toNat_and]
  change a.toNat &&& 0xC0 = 0 ↔ _
  rw [hbits _ ha]
  omega

end Stun

end KnockKnock
