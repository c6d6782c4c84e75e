import KnockKnock.Dns.Name
import KnockKnock.Support.Datagram

/-!
# The response in its buffer

`DnsPinger` receives into 512 bytes.  The bound on an encoded name keeps the
question of the request, and with it all that is compared, inside them.
-/

namespace KnockKnock

open Numeral Wire

namespace Dns

/-- `BUF_SIZE` -/
def bufSize : ℕ := 0x200

namespace Checked

/-- `u16::from_be_bytes([buf[i], buf[i + 1]])` -/
def wordAt (buf : Bytes) (i : ℕ) : Outcome UInt16 := do
  pure (fromBeBytes (← Outcome.index buf i) (← Outcome.index buf (i + 1)))

/-- `validate_response`, every index and slice of it checked against the range
of the bytes. -/
def validateResponse (buf request : Bytes) (expectedId : UInt16) :
    Outcome Unit :=
  if buf.length < 12 then
    Outcome.fail .other "DNS response shorter than header".toList
  else do
    let respId ← wordAt buf 0
    if respId ≠ expectedId then
      Outcome.fail .other ("DNS response ID ".toList ++ hex respId.toNat ++
        " does not match query ID ".toList ++ hex expectedId.toNat)
    else
      let flags ← wordAt buf 2
      let qr := flags >>> 15
      if qr ≠ 1 then
        Outcome.fail .other
          "DNS response QR flag not set (server returned a query)".toList
      else
        let rcode := flags &&& 0x000F
        if rcode ≠ 0 then
          Outcome.fail .other ("DNS server returned RCODE ".toList ++
            decimal rcode.toNat ++ " (non-zero = error)".toList)
        else
          let qdcount ← wordAt buf 4
          if qdcount ≠ 1 then
            Outcome.fail .other ("DNS response QDCOUNT = ".toList ++
              decimal qdcount.toNat ++ " (expected 1)".toList)
          else
            let question ← Outcome.sliceFrom request 12
            if buf.length < 12 + question.length then
              Outcome.fail .other
                ("DNS response too short to carry an echoed question " ++
                  "section").toList
            else
              let echoed ← Outcome.slice buf 12 (12 + question.length)
              if echoed ≠ question then
                Outcome.fail .other
                  ("DNS response question section does not match the " ++
                    "query").toList
              else pure ()

theorem wordAt_eq {buf : Bytes} {i : ℕ} (h : i + 1 < buf.length) :
    Checked.wordAt buf i = .ok (Dns.wordAt buf i) := by
  unfold Checked.wordAt
  rw [Outcome.index_eq_ok (by omega), Outcome.index_eq_ok h]
  rfl

/-- Only the slice of the request can be out of range. -/
theorem validateResponse_eq (buf request : Bytes) (expectedId : UInt16) :
    Checked.validateResponse buf request expectedId =
      Dns.validateResponse buf request expectedId := by
  unfold Checked.validateResponse Dns.validateResponse
  by_cases hbuf : buf.length < 12
  · rw [if_pos hbuf, if_pos hbuf]
  rw [if_neg hbuf, if_neg hbuf, wordAt_eq (by omega), wordAt_eq (by omega),
    wordAt_eq (by omega)]
  simp only [Outcome.bind_ok]
  split
  · rfl
  split
  · rfl
  split
  · rfl
  split
  · rfl
  by_cases hrequest : 12 ≤ request.length
  swap
  · rw [Outcome.sliceFrom, if_neg hrequest, Outcome.bind_error,
      Outcome.bind_error]
  rw [Outcome.sliceFrom_eq_ok hrequest, Outcome.bind_ok, Outcome.bind_ok]
  by_cases hshort : buf.length < 12 + (request.drop 12).length
  · rw [if_pos hshort, if_pos hshort]
  · rw [if_neg hshort, if_neg hshort,
      Outcome.slice_eq_ok (Nat.le_add_right 12 _) (Nat.le_of_not_lt hshort),
      Outcome.bind_ok, List.take_drop]

end Checked

/-! ## The request -/

variable {id qtype : UInt16} {name : Text} {qname request d : Bytes}

/-- A name is 255 bytes at most. -/
theorem length_encodeName_le (h : encodeName name = .ok qname) :
    qname.length ≤ 255 := by
  obtain ⟨hlimits, rfl⟩ := encodeName_eq_ok_iff.mp h
  rw [length_encode_labels]
  exact hlimits.total

/-- Twelve bytes of header stand in front of the name, and four behind it. -/
theorem buildQuery_of_encodeName (id qtype : UInt16)
    (h : encodeName name = .ok qname) :
    ∃ request, buildQuery id name qtype = .ok request ∧
      request.length = 12 + qname.length + 4 := by
  unfold buildQuery
  rw [h, Outcome.bind_ok]
  refine ⟨_, rfl, ?_⟩
  simp only [toBeBytes, List.length_append, List.length_cons, List.length_nil]
  omega

/-! ## The buffer -/

/-- The words of a header are inside the buffer. -/
theorem wordAt_recv {i : ℕ} (h : i + 1 < bufSize) :
    wordAt (Datagram.recv bufSize d) i = wordAt d i := by
  unfold wordAt
  rw [Datagram.getD_recv (by omega), Datagram.getD_recv h]

/-- What is compared lies inside the buffer. -/
theorem validateResponse_recv_iff (h : request.length ≤ bufSize) :
    validateResponse (Datagram.recv bufSize d) request id = .ok () ↔
      validateResponse d request id = .ok () := by
  have hquestion : (request.drop 12).length ≤ bufSize - 12 := by
    rw [List.length_drop]
    omega
  rw [validateResponse_eq_ok_iff, validateResponse_eq_ok_iff,
    Datagram.le_length_recv_iff (by decide), wordAt_recv (by decide),
    wordAt_recv (by decide), wordAt_recv (by decide), Datagram.drop_recv,
    Datagram.prefix_recv_iff hquestion]

theorem returns_validateResponse (h : 12 ≤ request.length) :
    (validateResponse d request id).Returns := by
  unfold validateResponse
  rw [Outcome.sliceFrom_eq_ok h, Outcome.bind_ok]
  split
  · exact Outcome.returns_fail _ _
  dsimp only
  split
  · exact Outcome.returns_fail _ _
  split
  · exact Outcome.returns_fail _ _
  split
  · exact Outcome.returns_fail _ _
  split
  · exact Outcome.returns_fail _ _
  split
  · exact Outcome.returns_fail _ _
  split
  · exact Outcome.returns_fail _ _
  · exact Outcome.returns_pure _

/-- Of every datagram, the buffer keeps what the verdict depends on, and
nothing is read outside of it. -/
theorem receive_iff (id : UInt16) (recordType : RecordType)
    (h : encodeName name = .ok qname) :
    ∃ request, buildQuery id name recordType.code = .ok request ∧
      12 ≤ request.length ∧ request.length ≤ bufSize ∧
      ∀ d, (Checked.validateResponse (Datagram.recv bufSize d) request id =
            .ok () ↔
          Checked.validateResponse d request id = .ok ()) ∧
        (Checked.validateResponse (Datagram.recv bufSize d) request
          id).Returns ∧
        (Checked.validateResponse d request id).Returns := by
  obtain ⟨request, hrequest, hlength⟩ :=
    buildQuery_of_encodeName id recordType.code h
  have hname := length_encodeName_le h
  have hheader : 12 ≤ request.length := by omega
  have hfits : request.length ≤ bufSize := by
    rw [hlength, bufSize]
    omega
  refine ⟨request, hrequest, hheader, hfits, fun d => ?_⟩
  rw [Checked.validateResponse_eq, Checked.validateResponse_eq]
  exact ⟨validateResponse_recv_iff hfits, returns_validateResponse hheader,
    returns_validateResponse hheader⟩

/-- The request for `a.b`. -/
theorem receive_iff_ab :
    ∃ request, buildQuery 7 "a.b".toList RecordType.a.code = .ok request ∧
      12 ≤ request.length ∧ request.length ≤ bufSize ∧
      ∀ d, (Checked.validateResponse (Datagram.recv bufSize d) request 7 =
            .ok () ↔
          Checked.validateResponse d request 7 = .ok ()) ∧
        (Checked.validateResponse (Datagram.recv bufSize d) request
          7).Returns ∧
        (Checked.validateResponse d request 7).Returns :=
  receive_iff 7 .a
    (by decide : encodeName "a.b".toList = .ok [1, 97, 1, 98, 0])

end Dns

end KnockKnock
