import KnockKnock.Clock
import KnockKnock.Stun.Header

/-!
# STUN messages

`build_header` and `build_message` write what `validate_response_header`
reads.  The cookie and the transaction stand in the sixteen bytes behind the
first four, and those decide whose answer a message is.
-/

namespace KnockKnock

open Wire

namespace Stun

/-- `MSG_BINDING_REQUEST` -/
def msgBindingRequest : UInt16 := 0x0001

def randomTransactionId : Option SinceEpoch → TransactionId
  | some d =>
      ⟨bigEndian 8 d.secs.toNat ++ bigEndian 4 d.subsecNanos.toNat, by simp⟩
  | none => ⟨List.replicate 12 0, by simp⟩

def buildHeader (messageType messageLength : UInt16)
    (transactionId : TransactionId) : Bytes :=
  toBeBytes messageType ++ toBeBytes messageLength ++
    (bigEndian 4 magicCookie.toNat ++ transactionId.1)

/-- The length of the attributes must fit its field. -/
def buildMessage (messageType : UInt16) (attributes : Bytes)
    (transactionId : TransactionId) : Outcome Bytes :=
  if attributes.length < 65536 then
    pure (buildHeader messageType (UInt16.ofNat attributes.length)
      transactionId ++ attributes)
  else .error .panic

/-! ## Transactions -/

/-- The clock in front of the epoch and the clock at the epoch draw the same
identifier; any other two readings draw two. -/
theorem randomTransactionId_inj {now now' : Option SinceEpoch} :
    randomTransactionId now = randomTransactionId now' ↔
      now.getD .zero = now'.getD .zero := by
  have hid : ∀ now, (randomTransactionId now).1 =
      bigEndian 8 (now.getD .zero).secs.toNat ++
        bigEndian 4 (now.getD .zero).subsecNanos.toNat := by
    intro now
    cases now with
    | some d => rfl
    | none => rfl
  rw [Subtype.ext_iff, hid, hid]
  generalize now.getD .zero = d
  generalize now'.getD .zero = d'
  constructor
  · intro h
    obtain ⟨hsecs, hnanos⟩ := List.append_inj h (by simp)
    rw [bigEndian_inj d.secs.toNat_lt d'.secs.toNat_lt] at hsecs
    rw [bigEndian_inj d.subsecNanos.toNat_lt d'.subsecNanos.toNat_lt] at hnanos
    exact SinceEpoch.eq_iff.mpr
      ⟨UInt64.toNat_inj.mp hsecs, UInt32.toNat_inj.mp hnanos⟩
  · intro h
    rw [h]

/-- The cookie, and behind it the transaction. -/
def Marked (buf : Bytes) (txid : TransactionId) : Prop :=
  (buf.drop 4).take 16 = bigEndian 4 magicCookie.toNat ++ txid.1

theorem Marked.le_length {buf : Bytes} {txid : TransactionId}
    (h : Marked buf txid) : headerLen ≤ buf.length := by
  have hlength := congrArg List.length h
  rw [List.length_take, List.length_drop, List.length_append,
    length_bigEndian, txid.2] at hlength
  rw [headerLen]
  omega

/-- A message is marked for one transaction. -/
theorem Marked.unique {buf : Bytes} {txid txid' : TransactionId}
    (h : Marked buf txid) (h' : Marked buf txid') : txid = txid' :=
  Subtype.ext (List.append_cancel_left (h.symm.trans h'))

theorem fromBeBytes32_eq_magicCookie_iff {a b c d : UInt8} :
    fromBeBytes32 a b c d = magicCookie ↔
      [a, b, c, d] = bigEndian 4 magicCookie.toNat := by
  have ha := a.toNat_lt
  have hb := b.toNat_lt
  have hc := c.toNat_lt
  have hd := d.toNat_lt
  have hcookie : bigEndian 4 magicCookie.toNat = [0x21, 0x12, 0xA4, 0x42] := by
    decide +kernel
  have hword : (fromBeBytes32 a b c d).toNat =
      ((a.toNat * 256 + b.toNat) * 256 + c.toNat) * 256 + d.toNat := by
    rw [fromBeBytes32, UInt32.toNat_ofNat']
    omega
  have hvalue : magicCookie.toNat = 0x2112A442 := by decide +kernel
  rw [← UInt32.toNat_inj, hword, hcookie, hvalue]
  simp only [List.cons.injEq, and_true, ← UInt8.toNat_inj]
  change _ ↔ a.toNat = 0x21 ∧ b.toNat = 0x12 ∧ c.toNat = 0xA4 ∧ d.toNat = 0x42
  omega

/-- An answer is told by its type and its mark. -/
theorem answers_iff {buf : Bytes} {messageType : UInt16}
    {txid : TransactionId} :
    Answers buf messageType txid ↔
      fromBeBytes (buf.getD 0 0) (buf.getD 1 0) = messageType ∧
        Marked buf txid := by
  by_cases hshort : buf.length < headerLen
  · refine iff_of_false (fun h => ?_) fun h => ?_
    · exact absurd h.header (Nat.not_le_of_lt hshort)
    · exact absurd h.2.le_length (Nat.not_le_of_lt hshort)
  rw [headerLen] at hshort
  obtain ⟨a, b, c, d, e, f, g, h, rest, rfl⟩ :
      ∃ a b c d e f g h rest,
        buf = a :: b :: c :: d :: e :: f :: g :: h :: rest := by
    match buf with
    | a :: b :: c :: d :: e :: f :: g :: h :: rest =>
        exact ⟨a, b, c, d, e, f, g, h, rest, rfl⟩
    | [] | [_] | [_, _] | [_, _, _] | [_, _, _, _] | [_, _, _, _, _]
    | [_, _, _, _, _, _] | [_, _, _, _, _, _, _] => simp at hshort
  have hmark : Marked (a :: b :: c :: d :: e :: f :: g :: h :: rest) txid ↔
      [e, f, g, h] = bigEndian 4 magicCookie.toNat ∧
        rest.take 12 = txid.1 := by
    change [e, f, g, h] ++ rest.take 12 = _ ↔ _
    constructor
    · intro heq
      exact List.append_inj heq (by simp)
    · rintro ⟨hcookie, hid⟩
      rw [hcookie, hid]
  rw [hmark, ← fromBeBytes32_eq_magicCookie_iff]
  constructor
  · rintro ⟨-, htype, hcookie, hid⟩
    exact ⟨htype, hcookie, hid⟩
  · rintro ⟨htype, hcookie, hid⟩
    exact ⟨Nat.le_of_not_lt hshort, htype, hcookie, hid⟩

/-! ## What is built is what is read -/

variable {messageType messageType' length : UInt16}
  {txid txid' : TransactionId} {attributes message : Bytes}

theorem marked_buildHeader (messageType length : UInt16)
    (txid : TransactionId) (attributes : Bytes) :
    Marked (buildHeader messageType length txid ++ attributes) txid := by
  have hmark : (bigEndian 4 magicCookie.toNat ++ txid.1).length = 16 := by
    rw [List.length_append, length_bigEndian, txid.2]
  exact List.take_left' hmark

/-- A header is one answer: that of its type and its transaction. -/
theorem answers_buildHeader_iff :
    Answers (buildHeader messageType length txid ++ attributes)
        messageType' txid' ↔ messageType' = messageType ∧ txid' = txid := by
  have hmark := marked_buildHeader messageType length txid attributes
  have htype : fromBeBytes
      ((buildHeader messageType length txid ++ attributes).getD 0 0)
      ((buildHeader messageType length txid ++ attributes).getD 1 0) =
        messageType :=
    fromBeBytes_toBeBytes messageType
  rw [answers_iff, htype]
  constructor
  · rintro ⟨rfl, hmarked⟩
    exact ⟨rfl, hmarked.unique hmark⟩
  · rintro ⟨rfl, rfl⟩
    exact ⟨rfl, hmark⟩

theorem length_buildHeader (messageType length : UInt16)
    (txid : TransactionId) :
    (buildHeader messageType length txid).length = headerLen := by
  rw [buildHeader, List.length_append, List.length_append, List.length_append,
    length_bigEndian, txid.2]
  rfl

theorem messageLength_buildHeader (messageType length : UInt16)
    (txid : TransactionId) (attributes : Bytes) :
    messageLength (buildHeader messageType length txid ++ attributes) =
      length.toNat :=
  congrArg UInt16.toNat (fromBeBytes_toBeBytes length)

theorem buildMessage_eq_ok_iff :
    buildMessage messageType attributes txid = .ok message ↔
      attributes.length < 65536 ∧
        message = buildHeader messageType (UInt16.ofNat attributes.length)
          txid ++ attributes := by
  unfold buildMessage
  by_cases hfits : attributes.length < 65536
  · rw [if_pos hfits, and_iff_right hfits]
    exact ⟨fun h => (Except.ok.inj h).symm, congrArg Except.ok ∘ Eq.symm⟩
  · rw [if_neg hfits]
    exact iff_of_false (by rintro ⟨⟩) fun h => hfits h.1

theorem declared_buildMessage_iff
    (h : buildMessage messageType attributes txid = .ok message) :
    Declared message ↔ 4 ∣ attributes.length := by
  obtain ⟨hfits, rfl⟩ := buildMessage_eq_ok_iff.mp h
  have hfield := messageLength_buildHeader messageType
    (UInt16.ofNat attributes.length) txid attributes
  rw [UInt16.toNat_ofNat', Nat.mod_eq_of_lt hfits] at hfield
  rw [Declared, hfield, List.length_append, length_buildHeader,
    Nat.add_sub_cancel_left, and_iff_right rfl]

/-- `build_message` panics for attributes that do not fit a length field.  What
else it builds passes the header check for its own type and transaction and no
other, and deviates from the protocol only in the top bits of its type and in
attributes that are not padded. -/
theorem buildMessage_spec (messageType : UInt16) (attributes : Bytes)
    (txid : TransactionId) :
    (¬(buildMessage messageType attributes txid).Returns ↔
        65536 ≤ attributes.length) ∧
      ∀ message, buildMessage messageType attributes txid = .ok message →
        message.drop headerLen = attributes ∧
        (∀ messageType' txid',
          validateResponseHeader message messageType' txid' = .ok () ↔
            messageType' = messageType ∧ txid' = txid) ∧
        (Conforms message messageType txid ↔
          messageType.toNat < 0x4000 ∧ 4 ∣ attributes.length) := by
  constructor
  · unfold buildMessage
    by_cases hfits : attributes.length < 65536
    · rw [if_pos hfits]
      exact iff_of_false (not_not_intro (Outcome.returns_pure _))
        (Nat.not_le_of_lt hfits)
    · rw [if_neg hfits]
      exact iff_of_true Outcome.not_returns_panic (Nat.le_of_not_lt hfits)
  intro message hmessage
  have hdeclared := declared_buildMessage_iff hmessage
  obtain ⟨hfits, rfl⟩ := buildMessage_eq_ok_iff.mp hmessage
  refine ⟨List.drop_left' (length_buildHeader _ _ _), fun _ _ => ?_, ?_⟩
  · rw [validateResponseHeader_eq_ok_iff, answers_buildHeader_iff]
  have hanswers : Answers (buildHeader messageType
      (UInt16.ofNat attributes.length) txid ++ attributes) messageType txid :=
    answers_buildHeader_iff.mpr ⟨rfl, rfl⟩
  have htop := topBits_eq_zero_iff
    ((buildHeader messageType (UInt16.ofNat attributes.length) txid ++
      attributes).getD 0 0)
    ((buildHeader messageType (UInt16.ofNat attributes.length) txid ++
      attributes).getD 1 0)
  rw [hanswers.type] at htop
  constructor
  · intro h
    exact ⟨htop.mp h.topBits, hdeclared.mp h.declared⟩
  · rintro ⟨htype, hpadded⟩
    exact ⟨hanswers, htop.mpr htype, hdeclared.mpr hpadded⟩

end Stun

end KnockKnock
