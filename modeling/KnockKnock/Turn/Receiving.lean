import KnockKnock.Support.Datagram
import KnockKnock.Turn.Allocate

/-!
# The Allocate Error Response in its buffer

`TurnPinger` receives into 255 bytes.  An answer whose ERROR-CODE ends behind
them is cut off in front of it, and is refused for an attribute that it has.
-/

namespace KnockKnock

open Numeral Wire

namespace Stun

/-- A header needs no more than its twenty bytes of a buffer. -/
theorem answers_recv_iff {n : ℕ} (hn : headerLen ≤ n) {d : Bytes}
    {messageType : UInt16} {txid : TransactionId} :
    Answers (Datagram.recv n d) messageType txid ↔
      Answers d messageType txid := by
  have hbyte : ∀ i < 20, (Datagram.recv n d).getD i 0 = d.getD i 0 :=
    fun i hi => Datagram.getD_recv (Nat.lt_of_lt_of_le hi hn) 0
  have hid : ((Datagram.recv n d).drop 8).take 12 = (d.drop 8).take 12 := by
    rw [Datagram.drop_recv, Datagram.take_recv (Nat.le_sub_of_add_le hn)]
  constructor
  · rintro ⟨hheader, htype, hcookie, htransaction⟩
    rw [hbyte 0 (by decide), hbyte 1 (by decide)] at htype
    rw [hbyte 4 (by decide), hbyte 5 (by decide), hbyte 6 (by decide),
      hbyte 7 (by decide)] at hcookie
    rw [hid] at htransaction
    exact ⟨(Datagram.le_length_recv_iff hn).mp hheader, htype, hcookie,
      htransaction⟩
  · rintro ⟨hheader, htype, hcookie, htransaction⟩
    refine ⟨(Datagram.le_length_recv_iff hn).mpr hheader, ?_, ?_, ?_⟩
    · rw [hbyte 0 (by decide), hbyte 1 (by decide)]
      exact htype
    · rw [hbyte 4 (by decide), hbyte 5 (by decide), hbyte 6 (by decide),
        hbyte 7 (by decide)]
      exact hcookie
    · rw [hid]
      exact htransaction

end Stun

namespace Turn

/-- `BUF_SIZE` -/
def bufSize : ℕ := 0xFF

/-- What `ping` makes of the datagram that comes back. -/
def receive (d : Bytes) (txid : Stun.TransactionId) : Outcome Unit :=
  validateAllocateErrorResponse (Datagram.recv bufSize d) txid

/-- The first ERROR-CODE of the body stands behind `skipped`, and it is 401. -/
structure Unauthorized (body skipped : Bytes) (a : Tlv.Attribute) : Prop where
  reached : Tlv.Reaches attrErrorCode body skipped a
  type : a.type = attrErrorCode
  long : 4 ≤ a.value.length
  code : (a.value.getD 2 0 &&& 0x07).toNat * 100 +
    (a.value.getD 3 0).toNat = 401

variable {d body skipped skipped' : Bytes} {a a' : Tlv.Attribute}
  {txid : Stun.TransactionId} {n : ℕ}

theorem Unauthorized.unique (h : Unauthorized body skipped a)
    (h' : Unauthorized body skipped' a') :
    skipped = skipped' ∧ a.value = a'.value :=
  h.reached.unique h.type h'.reached h'.type

theorem unauthorized_recv_iff :
    Unauthorized (Datagram.recv n body) skipped a ↔
      Unauthorized body skipped a ∧ skipped.length + a.plain.length ≤ n := by
  constructor
  · rintro ⟨hreached, htype, hlong, hcode⟩
    obtain ⟨hreached, hle⟩ := Tlv.reaches_take_iff.mp hreached
    exact ⟨⟨hreached, htype, hlong, hcode⟩, hle⟩
  · rintro ⟨⟨hreached, htype, hlong, hcode⟩, hle⟩
    exact ⟨Tlv.reaches_take_iff.mpr ⟨hreached, hle⟩, htype, hlong, hcode⟩

/-- A code of 401 and an answer to the request are all that is wanted. -/
theorem accepts_iff :
    validateAllocateErrorResponse d txid = .ok () ↔
      Stun.Answers d msgAllocateError txid ∧
        ∃ skipped a, Unauthorized (d.drop Stun.headerLen) skipped a := by
  by_cases hanswers : Stun.Answers d msgAllocateError txid
  · rw [validateAllocateErrorResponse_eq_ok_iff hanswers,
      and_iff_right hanswers]
    constructor
    · rintro ⟨_, _, ⟨_, ⟨skipped, a, hreached, htype, rfl⟩, hlong, rfl, rfl⟩,
        hcode⟩
      exact ⟨skipped, a, hreached, htype, hlong, hcode⟩
    · rintro ⟨skipped, a, hreached, htype, hlong, hcode⟩
      exact ⟨_, _, ⟨_, ⟨skipped, a, hreached, htype, rfl⟩, hlong, rfl, rfl⟩,
        hcode⟩
  · refine iff_of_false ?_ fun h => hanswers h.1
    intro h
    obtain ⟨⟨⟩, hheader, -⟩ := Outcome.bind_eq_ok_iff.mp h
    exact hanswers (Stun.validateResponseHeader_eq_ok_iff.mp hheader)

/-- In the buffer, the code must end where the buffer ends. -/
theorem receive_eq_ok_iff :
    receive d txid = .ok () ↔
      Stun.Answers d msgAllocateError txid ∧
        ∃ skipped a, Unauthorized (d.drop Stun.headerLen) skipped a ∧
          Stun.headerLen + (skipped.length + a.plain.length) ≤ bufSize := by
  have hbody : (Datagram.recv bufSize d).drop Stun.headerLen =
      Datagram.recv (bufSize - Stun.headerLen) (d.drop Stun.headerLen) :=
    Datagram.drop_recv
  have hfits : ∀ k, Stun.headerLen + k ≤ bufSize ↔
      k ≤ bufSize - Stun.headerLen := by
    intro k
    simp only [Stun.headerLen, bufSize]
    omega
  unfold receive
  rw [accepts_iff, Stun.answers_recv_iff (by decide), hbody]
  simp only [unauthorized_recv_iff, hfits]

/-- A datagram that fits is judged whole. -/
theorem receive_eq (h : d.length ≤ bufSize) :
    receive d txid = validateAllocateErrorResponse d txid := by
  rw [receive, Datagram.recv_eq_self h]

/-- The verdict on the datagram is the same in the buffer. -/
def KeepsVerdict (d : Bytes) (txid : Stun.TransactionId) : Prop :=
  receive d txid = .ok () ↔ validateAllocateErrorResponse d txid = .ok ()

/-- The answer is 401, in an ERROR-CODE that ends outside the buffer. -/
def CutOff (d : Bytes) (txid : Stun.TransactionId) : Prop :=
  Stun.Answers d msgAllocateError txid ∧
    ∃ skipped a, Unauthorized (d.drop Stun.headerLen) skipped a ∧
      bufSize < Stun.headerLen + (skipped.length + a.plain.length)

/-- A cut-off answer is one that passes, but for the buffer. -/
theorem not_keepsVerdict_of_cutOff (h : CutOff d txid) :
    ¬KeepsVerdict d txid := by
  obtain ⟨hanswers, skipped, a, hcode, hoverflows⟩ := h
  intro hkeeps
  obtain ⟨-, skipped', a', hcode', hfits⟩ := receive_eq_ok_iff.mp
    (hkeeps.mpr (accepts_iff.mpr ⟨hanswers, skipped, a, hcode⟩))
  obtain ⟨rfl, hvalue⟩ := hcode.unique hcode'
  rw [a.length_plain] at hoverflows
  rw [a'.length_plain, ← hvalue] at hfits
  omega

/-- Only an answer with its 401 outside the buffer is lost. -/
theorem keepsVerdict_iff : KeepsVerdict d txid ↔ ¬CutOff d txid := by
  refine ⟨fun hkeeps hcut => not_keepsVerdict_of_cutOff hcut hkeeps,
    fun hcut => ?_⟩
  unfold KeepsVerdict
  rw [receive_eq_ok_iff, accepts_iff]
  constructor
  · rintro ⟨hanswers, skipped, a, hcode, -⟩
    exact ⟨hanswers, skipped, a, hcode⟩
  · rintro ⟨hanswers, skipped, a, hcode⟩
    exact ⟨hanswers, skipped, a, hcode, Nat.le_of_not_lt fun hoverflows =>
      hcut ⟨hanswers, skipped, a, hcode, hoverflows⟩⟩

/-- A SOFTWARE attribute of 232 bytes. -/
def longSoftware : Tlv.Attribute :=
  ⟨0x8022, List.replicate 232 0x78, by rw [List.length_replicate]; decide⟩

/-- The header of an Allocate Error Response of the transaction 0, in front of
244 bytes. -/
def errorHeader : Bytes :=
  [0x01, 0x13, 0x00, 0xF4, 0x21, 0x12, 0xA4, 0x42,
    0, 0, 0, 0, 0, 0, 0, 0, 0, 0, 0, 0]

/-- The ERROR-CODE 401. -/
def unauthorizedCode : Tlv.Attribute :=
  ⟨attrErrorCode, [0, 0, 4, 1], by decide⟩

/-- A 401 behind the name of the server's software. -/
def longResponse : Bytes :=
  errorHeader ++ (longSoftware.plain ++ unauthorizedCode.plain)

theorem answers_longResponse :
    Stun.Answers longResponse msgAllocateError noTransaction := by
  have hheader : Stun.Answers errorHeader msgAllocateError noTransaction :=
    ⟨by decide, by decide, by decide +kernel, by decide⟩
  have hrecv : Datagram.recv Stun.headerLen longResponse = errorHeader :=
    List.take_left' rfl
  rw [← hrecv] at hheader
  exact (Stun.answers_recv_iff le_rfl).mp hheader

/-- It is refused. -/
theorem not_keepsVerdict_longResponse :
    ¬KeepsVerdict longResponse noTransaction := by
  have hvalue : longSoftware.value.length = 232 := List.length_replicate
  have hbody : longResponse.drop Stun.headerLen =
      longSoftware.plain ++ unauthorizedCode.plain := List.drop_left' rfl
  have hspelled : Tlv.Spelled [longSoftware]
      (longSoftware.plain ++ ([] ++ [])) :=
    .cons (by rw [hvalue]; rfl) .nil
  rw [List.append_nil, List.append_nil] at hspelled
  have hreached : Tlv.Reaches attrErrorCode
      (longResponse.drop Stun.headerLen) longSoftware.plain
      unauthorizedCode := by
    refine ⟨[longSoftware], [], hspelled, ?_, by rw [hbody, List.append_nil]⟩
    intro b hb
    rw [List.mem_singleton.mp hb]
    decide
  apply not_keepsVerdict_of_cutOff
  refine ⟨answers_longResponse, longSoftware.plain, unauthorizedCode,
    ⟨hreached, rfl, by decide, by decide⟩, ?_⟩
  rw [Tlv.Attribute.length_plain, Tlv.Attribute.length_plain, hvalue]
  decide

end Turn

end KnockKnock
