import KnockKnock.Stun.Header
import KnockKnock.Support.Tlv

/-!
# The answer to an unauthenticated Allocate

`TurnPinger` wants an Allocate Error Response with the code 401.
`find_error_code` walks over the attributes behind the header to the first
ERROR-CODE, and computes the code from its class and its number.
-/

namespace KnockKnock

open Numeral Wire

namespace Turn

/-- `MSG_ALLOCATE_ERROR` -/
def msgAllocateError : UInt16 := 0x0113

/-- `ATTR_ERROR_CODE` -/
def attrErrorCode : UInt16 := 0x0009

/-- `total.div_ceil(4) * 4` -/
def padded (total : ℕ) : ℕ := (total + 3) / 4 * 4

def findErrorCode (body : Bytes) : Outcome (Option UInt16) :=
  if 4 ≤ body.length then
    let attrType := fromBeBytes (body.getD 0 0) (body.getD 1 0)
    let attrLen := (fromBeBytes (body.getD 2 0) (body.getD 3 0)).toNat
    let total := 4 + attrLen
    if body.length < total then
      Outcome.fail .other
        "STUN attribute claims more bytes than the message contains".toList
    else if attrType = attrErrorCode then
      if attrLen < 4 then
        Outcome.fail .other
          ("STUN ERROR-CODE attribute too short (".toList ++
            decimal attrLen ++ " bytes, need >= 4)".toList)
      else
        let cls := (body.getD (4 + 2) 0 &&& 0x07).toUInt16
        let number := (body.getD (4 + 3) 0).toUInt16
        pure (some (cls * 100 + number))
    else if body.length < padded total then pure none
    else findErrorCode (body.drop (padded total))
  else pure none
termination_by body.length
decreasing_by
  simp only [List.length_drop, padded]
  omega

def validateAllocateErrorResponse (buf : Bytes)
    (expectedTxid : Stun.TransactionId) : Outcome Unit := do
  Stun.validateResponseHeader buf msgAllocateError expectedTxid
  let body ← Outcome.sliceFrom buf Stun.headerLen
  match ← findErrorCode body with
  | some other =>
      if other = 401 then pure ()
      else
        Outcome.fail .other ("TURN Allocate Error returned code ".toList ++
          decimal other.toNat ++ " (expected 401 Unauthorized)".toList)
  | none =>
      Outcome.fail .other
        ("TURN Allocate Error Response is missing the ERROR-CODE " ++
          "attribute").toList

/-! ## The walk -/

/-- The first ERROR-CODE of the attributes has this class and this number. -/
def Carries (body : Bytes) (cls number : ℕ) : Prop :=
  ∃ value, Tlv.First attrErrorCode body value ∧ 4 ≤ value.length ∧
    (value.getD 2 0 &&& 0x07).toNat = cls ∧ (value.getD 3 0).toNat = number

theorem Carries.unique {body : Bytes} {cls number cls' number' : ℕ}
    (h : Carries body cls number) (h' : Carries body cls' number') :
    cls = cls' ∧ number = number' := by
  obtain ⟨value, hfirst, -, rfl, rfl⟩ := h
  obtain ⟨value', hfirst', -, rfl, rfl⟩ := h'
  obtain rfl := hfirst.unique hfirst'
  exact ⟨rfl, rfl⟩

theorem padded_eq (n : ℕ) : padded (4 + n) = 4 + n + Tlv.padding n := by
  unfold padded Tlv.padding
  omega

/-- The code of a class and a number. -/
theorem toNat_code (a b : UInt8) :
    ((a &&& 0x07).toUInt16 * 100 + b.toUInt16).toNat =
      (a &&& 0x07).toNat * 100 + b.toNat := by
  have hb := b.toNat_lt
  have ha : (a &&& 0x07).toNat < 8 := by
    rw [UInt8.toNat_and]
    exact Nat.and_lt_two_pow (n := 3) _ (by decide)
  simp only [UInt16.toNat_add, UInt16.toNat_mul, UInt8.toNat_toUInt16]
  have hhundred : (100 : UInt16).toNat = 100 := rfl
  rw [hhundred]
  omega

/-- One round of the loop, on an attribute that is all there. -/
theorem findErrorCode_plain (a : Tlv.Attribute) (rest : Bytes) :
    findErrorCode (a.plain ++ rest) =
      if a.type = attrErrorCode then
        if a.value.length < 4 then
          Outcome.fail .other
            ("STUN ERROR-CODE attribute too short (".toList ++
              decimal a.value.length ++ " bytes, need >= 4)".toList)
        else
          pure (some ((a.value.getD 2 0 &&& 0x07).toUInt16 * 100 +
            (a.value.getD 3 0).toUInt16))
      else if rest.length < Tlv.padding a.value.length then pure none
      else findErrorCode (rest.drop (Tlv.padding a.value.length)) := by
  obtain ⟨b₀, b₁, b₂, b₃, hplain, htype, hlength⟩ := a.plain_eq
  have htype' : fromBeBytes ((a.plain ++ rest).getD 0 0)
      ((a.plain ++ rest).getD 1 0) = a.type := by
    rw [hplain]
    exact htype
  have hlength' : (fromBeBytes ((a.plain ++ rest).getD 2 0)
      ((a.plain ++ rest).getD 3 0)).toNat = a.value.length := by
    rw [hplain]
    exact hlength
  have hvalue : ∀ i, i < a.value.length →
      (a.plain ++ rest).getD (4 + i) 0 = a.value.getD i 0 := by
    intro i hi
    rw [hplain, Nat.add_comm]
    simp only [List.cons_append, List.getD_cons_succ]
    simp only [List.getD_eq_getElem?_getD, List.getElem?_append_left hi]
  have hdrop : (a.plain ++ rest).drop (padded (4 + a.value.length)) =
      rest.drop (Tlv.padding a.value.length) := by
    rw [padded_eq, ← a.length_plain, List.drop_append]
    simp
  have hbody : (a.plain ++ rest).length = 4 + a.value.length + rest.length := by
    rw [List.length_append, a.length_plain]
  rw [findErrorCode, if_pos (by omega)]
  dsimp only
  rw [htype', hlength', hdrop, hbody, padded_eq, if_neg (by omega)]
  by_cases hcode : a.type = attrErrorCode
  · rw [if_pos hcode, if_pos hcode]
    by_cases hshort : a.value.length < 4
    · rw [if_pos hshort, if_pos hshort]
    · rw [if_neg hshort, if_neg hshort, hvalue 2 (by omega),
        hvalue 3 (by omega)]
  · rw [if_neg hcode, if_neg hcode]
    by_cases hpad : rest.length < Tlv.padding a.value.length
    · rw [if_pos hpad, if_pos (by omega)]
    · rw [if_neg hpad, if_neg (by omega)]

/-- A code is not looked for in less than an attribute. -/
theorem findErrorCode_stop {body : Bytes}
    (h : ¬∃ a : Tlv.Attribute, ∃ rest, body = a.plain ++ rest) :
    findErrorCode body =
      if 4 ≤ body.length then
        Outcome.fail .other
          "STUN attribute claims more bytes than the message contains".toList
      else pure none := by
  rw [findErrorCode]
  by_cases hlen : 4 ≤ body.length
  swap
  · rw [if_neg hlen, if_neg hlen]
  rw [if_pos hlen, if_pos hlen]
  dsimp only
  rw [if_pos (Tlv.length_lt_of_not_plain h hlen)]

/-- An ERROR-CODE ends the walk. -/
theorem findErrorCode_found {a : Tlv.Attribute} (rest : Bytes)
    (ha : a.type = attrErrorCode) :
    findErrorCode (a.plain ++ rest) =
      if a.value.length < 4 then
        Outcome.fail .other
          ("STUN ERROR-CODE attribute too short (".toList ++
            decimal a.value.length ++ " bytes, need >= 4)".toList)
      else
        pure (some ((a.value.getD 2 0 &&& 0x07).toUInt16 * 100 +
          (a.value.getD 3 0).toUInt16)) := by
  rw [findErrorCode_plain, if_pos ha]

/-- So does another attribute without its padding. -/
theorem findErrorCode_short {a : Tlv.Attribute} {rest : Bytes}
    (ha : a.type ≠ attrErrorCode)
    (hpad : rest.length < Tlv.padding a.value.length) :
    findErrorCode (a.plain ++ rest) = pure none := by
  rw [findErrorCode_plain, if_neg ha, if_pos hpad]

/-- Any other attribute is passed. -/
theorem findErrorCode_pass {a : Tlv.Attribute} {pad : Bytes} (bs : Bytes)
    (ha : a.type ≠ attrErrorCode)
    (hpad : pad.length = Tlv.padding a.value.length) :
    findErrorCode (a.plain ++ (pad ++ bs)) = findErrorCode bs := by
  rw [findErrorCode_plain, if_neg ha,
    if_neg (by rw [List.length_append]; omega), ← hpad, List.drop_left]

/-- The walk finds the code of the first ERROR-CODE attribute. -/
theorem findErrorCode_eq_some_iff {body : Bytes} {code : UInt16} :
    findErrorCode body = .ok (some code) ↔
      ∃ cls number, Carries body cls number ∧
        code.toNat = cls * 100 + number := by
  induction body using Tlv.walk_induction attrErrorCode with
  | stop body hplain =>
      rw [findErrorCode_stop hplain]
      apply iff_of_false
      · split <;> simp [Outcome.fail, pure, Except.pure]
      · rintro ⟨_, _, ⟨value, hfirst, -⟩, -⟩
        exact hplain (Tlv.exists_plain_of_first hfirst)
  | found a rest ha =>
      simp only [Carries, Tlv.first_plain_iff ha]
      rw [findErrorCode_found rest ha]
      by_cases hshort : a.value.length < 4
      · rw [if_pos hshort]
        apply iff_of_false (by simp [Outcome.fail])
        rintro ⟨cls, number, ⟨_, rfl, hlong, -⟩, -⟩
        omega
      · rw [if_neg hshort]
        constructor
        · intro h
          obtain rfl := Option.some.inj (Except.ok.inj h)
          exact ⟨_, _, ⟨_, rfl, by omega, rfl, rfl⟩, toNat_code _ _⟩
        · rintro ⟨_, _, ⟨_, rfl, -, rfl, rfl⟩, hsum⟩
          rw [← toNat_code, UInt16.toNat_inj] at hsum
          rw [hsum]
          rfl
  | short a rest ha hpad =>
      rw [findErrorCode_short ha hpad]
      apply iff_of_false (by simp [pure, Except.pure])
      rintro ⟨_, _, ⟨value, hfirst, -⟩, -⟩
      exact Tlv.not_first_of_short ha hpad hfirst
  | pass a pad bs ha hpad ih =>
      rw [findErrorCode_pass bs ha hpad, ih]
      simp only [Carries, Tlv.first_pad_iff ha hpad]

/-! ## Which answers pass for 401 -/

variable {buf : Bytes} {txid : Stun.TransactionId}

theorem validateAllocateErrorResponse_eq_ok_iff
    (h : Stun.Answers buf msgAllocateError txid) :
    validateAllocateErrorResponse buf txid = .ok () ↔
      ∃ cls number, Carries (buf.drop Stun.headerLen) cls number ∧
        cls * 100 + number = 401 := by
  have hbody : Outcome.sliceFrom buf Stun.headerLen =
      .ok (buf.drop Stun.headerLen) := if_pos h.header
  unfold validateAllocateErrorResponse
  rw [Stun.validateResponseHeader_eq_ok_iff.mpr h, hbody, Outcome.bind_ok,
    Outcome.bind_ok, Outcome.bind_eq_ok_iff]
  constructor
  · rintro ⟨found, hfound, hcheck⟩
    split at hcheck
    next code =>
      obtain ⟨cls, number, hcarries, hcode⟩ :=
        findErrorCode_eq_some_iff.mp hfound
      split at hcheck
      next h401 =>
        refine ⟨cls, number, hcarries, ?_⟩
        rw [← hcode, h401]
        rfl
      · cases hcheck
    · cases hcheck
  · rintro ⟨cls, number, hcarries, hcode⟩
    refine ⟨some 401, findErrorCode_eq_some_iff.mpr
      ⟨cls, number, hcarries, ?_⟩, rfl⟩
    rw [hcode]
    rfl

theorem Carries.lt {body : Bytes} {cls number : ℕ}
    (h : Carries body cls number) : cls < 8 ∧ number < 256 := by
  obtain ⟨value, -, -, rfl, rfl⟩ := h
  constructor
  · rw [UInt8.toNat_and]
    exact Nat.and_lt_two_pow (n := 3) _ (by decide)
  · exact UInt8.toNat_lt _

/-- `Class * 100 + Number` is 401 for three classes and numbers. -/
theorem code_eq_401_iff {cls number : ℕ} (hcls : cls < 8)
    (hnumber : number < 256) :
    cls * 100 + number = 401 ↔ cls = 4 ∧ number = 1 ∨
      cls = 3 ∧ number = 101 ∨ cls = 2 ∧ number = 201 := by
  omega

/-- Answers pass exactly when they carry 401, unless they carry one of the two
other pairs with this sum. -/
theorem passes_iff_unauthorized_iff
    (h : Stun.Answers buf msgAllocateError txid) :
    (validateAllocateErrorResponse buf txid = .ok () ↔
        Carries (buf.drop Stun.headerLen) 4 1) ↔
      ¬(Carries (buf.drop Stun.headerLen) 3 101 ∨
        Carries (buf.drop Stun.headerLen) 2 201) := by
  rw [validateAllocateErrorResponse_eq_ok_iff h]
  constructor
  · rintro hiff (hother | hother)
    · have hreal := hiff.mp ⟨3, 101, hother, rfl⟩
      exact absurd (hother.unique hreal).1 (by decide)
    · have hreal := hiff.mp ⟨2, 201, hother, rfl⟩
      exact absurd (hother.unique hreal).1 (by decide)
  · intro hnone
    constructor
    · rintro ⟨cls, number, hcarries, hcode⟩
      obtain ⟨hcls, hnumber⟩ := hcarries.lt
      obtain ⟨rfl, rfl⟩ | ⟨rfl, rfl⟩ | ⟨rfl, rfl⟩ :=
        (code_eq_401_iff hcls hnumber).mp hcode
      · exact hcarries
      · exact absurd (Or.inl hcarries) hnone
      · exact absurd (Or.inr hcarries) hnone
    · intro hcarries
      exact ⟨4, 1, hcarries, rfl⟩

/-- An Allocate Error Response of the transaction 0 whose one attribute is an
ERROR-CODE. -/
def errorResponse (cls number : UInt8) : Bytes :=
  [0x01, 0x13, 0x00, 0x08, 0x21, 0x12, 0xA4, 0x42,
    0, 0, 0, 0, 0, 0, 0, 0, 0, 0, 0, 0,
    0x00, 0x09, 0x00, 0x04, 0x00, 0x00, cls, number]

/-- The transaction 0. -/
def noTransaction : Stun.TransactionId := ⟨List.replicate 12 0, rfl⟩

theorem answers_errorResponse (cls number : UInt8) :
    Stun.Answers (errorResponse cls number) msgAllocateError
      noTransaction where
  header := by simp [errorResponse, Stun.headerLen]
  type := by
    change fromBeBytes 0x01 0x13 = msgAllocateError
    decide
  cookie := by
    change fromBeBytes32 0x21 0x12 0xA4 0x42 = Stun.magicCookie
    decide +kernel
  transaction := by simp [errorResponse, noTransaction]

theorem carries_errorResponse_iff (a b : UInt8) (cls number : ℕ) :
    Carries ((errorResponse a b).drop Stun.headerLen) cls number ↔
      (a &&& 0x07).toNat = cls ∧ b.toNat = number := by
  let code : Tlv.Attribute := ⟨attrErrorCode, [0, 0, a, b], by simp⟩
  have hbody : (errorResponse a b).drop Stun.headerLen =
      code.plain ++ [] := by
    simp [errorResponse, Stun.headerLen, code, Tlv.Attribute.plain, toBeBytes,
      attrErrorCode]
  unfold Carries
  rw [hbody]
  simp only [Tlv.first_plain_iff (show code.type = attrErrorCode from rfl)]
  constructor
  · rintro ⟨_, rfl, -, hcls, hnumber⟩
    exact ⟨hcls, hnumber⟩
  · rintro ⟨hcls, hnumber⟩
    exact ⟨_, rfl, by simp [code], hcls, hnumber⟩

/-- 401 itself passes. -/
theorem passes_401 :
    validateAllocateErrorResponse (errorResponse 4 1) noTransaction = .ok () ∧
      Carries ((errorResponse 4 1).drop Stun.headerLen) 4 1 := by
  have hcarries : Carries ((errorResponse 4 1).drop Stun.headerLen) 4 1 :=
    (carries_errorResponse_iff 4 1 4 1).mpr (by decide)
  refine ⟨?_, hcarries⟩
  refine ((passes_iff_unauthorized_iff (answers_errorResponse 4 1)).mpr
    ?_).mpr hcarries
  rw [carries_errorResponse_iff, carries_errorResponse_iff]
  decide

/-- Class 3 and number 101 pass for 401, too. -/
theorem not_passes_iff_unauthorized_3_101 :
    Stun.Answers (errorResponse 3 101) msgAllocateError noTransaction ∧
      ¬(validateAllocateErrorResponse (errorResponse 3 101) noTransaction =
          .ok () ↔
        Carries ((errorResponse 3 101).drop Stun.headerLen) 4 1) := by
  have hanswers := answers_errorResponse 3 101
  refine ⟨hanswers, fun hiff => ?_⟩
  have hpasses := (validateAllocateErrorResponse_eq_ok_iff hanswers).mpr
    ⟨3, 101, (carries_errorResponse_iff 3 101 3 101).mpr (by decide), rfl⟩
  have hreal := (carries_errorResponse_iff 3 101 4 1).mp (hiff.mp hpasses)
  revert hreal
  decide

/-! ## Which headers keep what an acceptance promises -/

/-- The walk for an ERROR-CODE comes to no attribute outside the length that
the message declares. -/
def ReadsInside (buf : Bytes) : Prop :=
  ∀ skipped a,
    Tlv.Reaches attrErrorCode (buf.drop Stun.headerLen) skipped a →
      skipped.length + a.plain.length ≤ Stun.messageLength buf

/-- If the header is accepted, it deviates nowhere from the protocol, and
nothing is read outside the message. -/
def KeepsHeader (buf : Bytes) (messageType : UInt16)
    (txid : Stun.TransactionId) : Prop :=
  Stun.validateResponseHeader buf messageType txid = .ok () →
    Stun.Conforms buf messageType txid ∧ ReadsInside buf

theorem readsInside_of_declared (h : Stun.Declared buf) :
    ReadsInside buf := by
  intro skipped a hreaches
  have hle := hreaches.length_le
  rw [List.length_drop] at hle
  rw [h.1]
  exact hle

/-- What is accepted conforms exactly when the datagram is refused anyway, or
its type has no top bits and its length field is the one the bytes have. -/
theorem keepsHeader_iff {messageType : UInt16} :
    KeepsHeader buf messageType txid ↔
      (Stun.Answers buf messageType txid →
        messageType.toNat < 0x4000 ∧ Stun.Declared buf) := by
  unfold KeepsHeader
  rw [Stun.validateResponseHeader_eq_ok_iff]
  apply forall_congr'
  intro h
  have htop := Stun.topBits_eq_zero_iff (buf.getD 0 0) (buf.getD 1 0)
  rw [h.type] at htop
  constructor
  · rintro ⟨hconforms, -⟩
    exact ⟨htop.mp hconforms.topBits, hconforms.declared⟩
  · rintro ⟨htype, hdeclared⟩
    exact ⟨⟨h, htop.mpr htype, hdeclared⟩, readsInside_of_declared hdeclared⟩

/-- A message that declares no attributes, and carries one. -/
def undeclaredResponse : Bytes :=
  [0x01, 0x13, 0x00, 0x00, 0x21, 0x12, 0xA4, 0x42,
    0, 0, 0, 0, 0, 0, 0, 0, 0, 0, 0, 0,
    0x00, 0x09, 0x00, 0x04, 0x00, 0x00, 0x04, 0x01]

/-- It is accepted. -/
theorem not_keepsHeader_undeclared :
    ¬KeepsHeader undeclaredResponse msgAllocateError noTransaction := by
  intro h
  have hanswers : Stun.Answers undeclaredResponse msgAllocateError
      noTransaction :=
    ⟨by decide, by decide, by decide +kernel, by decide⟩
  have hdeclared :=
    (h (Stun.validateResponseHeader_eq_ok_iff.mpr hanswers)).1.declared
  revert hdeclared
  decide

end Turn

end KnockKnock
