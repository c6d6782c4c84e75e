import KnockKnock.Turn.Allocate

/-!
# The walk over any attributes

`find_error_code` indexes and slices bytes that a server chose.  It never does
so out of their range; on the bytes of a list of attributes it finds the first
ERROR-CODE of the list, and it fails on no other bytes than malformed ones.
-/

namespace KnockKnock

open Numeral Wire

namespace Turn

namespace Checked

/-- `find_error_code`, every index and slice of it checked against the range
of the bytes. -/
def findErrorCode (body : Bytes) : Outcome (Option UInt16) :=
  if 4 ≤ body.length then do
    let attrType := fromBeBytes (← Outcome.index body 0)
      (← Outcome.index body 1)
    let attrLen := (fromBeBytes (← Outcome.index body 2)
      (← Outcome.index body 3)).toNat
    let total := 4 + attrLen
    if body.length < total then
      Outcome.fail .other
        "STUN attribute claims more bytes than the message contains".toList
    else if attrType = attrErrorCode then
      if attrLen < 4 then
        Outcome.fail .other
          ("STUN ERROR-CODE attribute too short (".toList ++
            decimal attrLen ++ " bytes, need >= 4)".toList)
      else
        let cls := ((← Outcome.index body (4 + 2)) &&& 0x07).toUInt16
        let number := (← Outcome.index body (4 + 3)).toUInt16
        pure (some (cls * 100 + number))
    else if body.length < padded total then pure none
    else
      match _ : Outcome.sliceFrom body (padded total) with
      | .ok rest => findErrorCode rest
      | .error e => .error e
  else pure none
termination_by body.length
decreasing_by
  have hlength := Outcome.length_of_sliceFrom ‹_›
  simp only [padded] at hlength
  omega

/-- No check of a range fails. -/
theorem findErrorCode_eq (body : Bytes) :
    Checked.findErrorCode body = Turn.findErrorCode body := by
  induction hn : body.length using Nat.strong_induction_on
    generalizing body with
  | _ n ih =>
    rw [Checked.findErrorCode, Turn.findErrorCode]
    by_cases hlen : 4 ≤ body.length
    swap
    · rw [if_neg hlen, if_neg hlen]
    rw [if_pos hlen, if_pos hlen, Outcome.index_eq_ok (by omega),
      Outcome.index_eq_ok (by omega), Outcome.index_eq_ok (by omega),
      Outcome.index_eq_ok (by omega)]
    simp only [Outcome.bind_ok]
    by_cases htotal : body.length <
        4 + (fromBeBytes (body.getD 2 0) (body.getD 3 0)).toNat
    · rw [if_pos htotal, if_pos htotal]
    rw [if_neg htotal, if_neg htotal]
    split
    · split
      · rfl
      · rw [Outcome.index_eq_ok (by omega), Outcome.index_eq_ok (by omega)]
        rfl
    · split
      · rfl
      next hpadded =>
        have hrest := Outcome.sliceFrom_eq_ok (Nat.le_of_not_lt hpadded)
        split
        next rest hslice =>
          obtain rfl := Except.ok.inj (hslice.symm.trans hrest)
          exact ih _ (by simp only [← hn, List.length_drop, padded]; omega) _ rfl
        next e hslice => exact absurd (hslice.symm.trans hrest) (by rintro ⟨⟩)

end Checked

/-! ## Lists of attributes -/

/-- What is found in a list: its first ERROR-CODE decides. -/
def Decodes (attrs : List Tlv.Attribute)
    (result : Outcome (Option UInt16)) : Prop :=
  match attrs.find? (fun a => a.type = attrErrorCode) with
  | none => result = .ok none
  | some a =>
      if a.value.length < 4 then result.IsErr
      else
        ∃ code, result = .ok (some code) ∧
          code.toNat = (a.value.getD 2 0 &&& 0x07).toNat * 100 +
            (a.value.getD 3 0).toNat

variable {a : Tlv.Attribute} {attrs : List Tlv.Attribute}
  {result : Outcome (Option UInt16)} {bs rest body : Bytes}

theorem decodes_cons_iff (ha : a.type ≠ attrErrorCode) :
    Decodes (a :: attrs) result ↔ Decodes attrs result := by
  unfold Decodes
  rw [List.find?_cons_of_neg (by simpa using ha)]

/-- The ERROR-CODE at the front is decoded, whatever stands behind it. -/
theorem decodes_findErrorCode_found (ha : a.type = attrErrorCode) :
    Decodes (a :: attrs) (findErrorCode (a.plain ++ rest)) := by
  unfold Decodes
  rw [List.find?_cons_of_pos (by simpa using ha), findErrorCode_found rest ha]
  dsimp only
  by_cases hshort : a.value.length < 4
  · rw [if_pos hshort, if_pos hshort]
    trivial
  · rw [if_neg hshort, if_neg hshort]
    exact ⟨_, rfl, toNat_code _ _⟩

theorem findErrorCode_nil : findErrorCode [] = .ok none := by
  rw [findErrorCode, if_neg (by decide)]
  rfl

/-- The walk decodes what was encoded. -/
theorem decodes_findErrorCode (h : Tlv.Listed attrs bs) :
    Decodes attrs (findErrorCode bs) := by
  induction h with
  | nil => exact findErrorCode_nil
  | @last a pad hpad =>
      by_cases ha : a.type = attrErrorCode
      · exact decodes_findErrorCode_found ha
      rw [decodes_cons_iff ha]
      rcases Nat.lt_or_eq_of_le hpad with hless | hwhole
      · exact findErrorCode_short ha hless
      · change findErrorCode (a.plain ++ pad) = .ok none
        rw [← List.append_nil pad, findErrorCode_pass [] ha hwhole,
          findErrorCode_nil]
  | @cons a attrs pad bs hpad _ ih =>
      by_cases ha : a.type = attrErrorCode
      · exact decodes_findErrorCode_found ha
      rw [decodes_cons_iff ha, findErrorCode_pass bs ha hpad]
      exact ih

/-! ## Any bytes -/

/-- The attribute at the front declares more bytes than there are. -/
def Overruns (rest : Bytes) : Prop :=
  4 ≤ rest.length ∧
    rest.length < 4 + (fromBeBytes (rest.getD 2 0) (rest.getD 3 0)).toNat

/-- The attribute at the front is an ERROR-CODE that has no code. -/
def TooShort (rest : Bytes) : Prop :=
  ∃ a : Tlv.Attribute, ∃ tail, rest = a.plain ++ tail ∧
    a.type = attrErrorCode ∧ a.value.length < 4

/-- Before any ERROR-CODE that has a code, the walk comes to an attribute that
overruns the bytes, or to an ERROR-CODE that is too short. -/
def Malformed : Bytes → Prop :=
  Tlv.Comes attrErrorCode fun rest => Overruns rest ∨ TooShort rest

theorem not_overruns_plain : ¬Overruns (a.plain ++ rest) := by
  rintro ⟨-, hless⟩
  obtain ⟨b₀, b₁, b₂, b₃, hplain, -, hlength⟩ := a.plain_eq
  rw [hplain] at hless
  change _ < 4 + (fromBeBytes b₂ b₃).toNat at hless
  rw [hlength] at hless
  simp only [List.cons_append, List.length_cons, List.length_append] at hless
  omega

theorem tooShort_plain_iff :
    TooShort (a.plain ++ rest) ↔
      a.type = attrErrorCode ∧ a.value.length < 4 := by
  constructor
  · rintro ⟨b, tail, hplain, hb, hshort⟩
    obtain ⟨htype, hvalue, -⟩ := Tlv.Attribute.plain_unique hplain
    exact ⟨htype.trans hb, by rwa [hvalue]⟩
  · rintro ⟨ha, hshort⟩
    exact ⟨a, rest, rfl, ha, hshort⟩

/-- At a whole attribute, only an ERROR-CODE can be malformed. -/
theorem flawed_plain_iff :
    (Overruns (a.plain ++ rest) ∨ TooShort (a.plain ++ rest)) ↔
      a.type = attrErrorCode ∧ a.value.length < 4 := by
  rw [or_iff_right not_overruns_plain, tooShort_plain_iff]

/-- The errors are those of malformed bytes. -/
theorem isErr_findErrorCode_iff :
    (findErrorCode body).IsErr ↔ Malformed body := by
  unfold Malformed
  induction body using Tlv.walk_induction attrErrorCode with
  | stop body hplain =>
      rw [findErrorCode_stop hplain, Tlv.comes_iff_of_not_plain hplain]
      by_cases hlen : 4 ≤ body.length
      · rw [if_pos hlen]
        exact iff_of_true trivial
          (.inl ⟨hlen, Tlv.length_lt_of_not_plain hplain hlen⟩)
      · rw [if_neg hlen]
        apply iff_of_false (Outcome.not_isErr_pure _)
        rintro (hoverruns | ⟨a, tail, hbody, -⟩)
        · exact hlen hoverruns.1
        · exact hplain ⟨a, tail, hbody⟩
  | found a rest ha =>
      rw [findErrorCode_found rest ha, Tlv.comes_plain_iff ha,
        flawed_plain_iff, and_iff_right ha]
      split
      next hshort => exact iff_of_true trivial hshort
      next hlong => exact iff_of_false (Outcome.not_isErr_pure _) hlong
  | short a rest ha hpad =>
      rw [findErrorCode_short ha hpad, Tlv.comes_short_iff hpad,
        flawed_plain_iff]
      exact iff_of_false (Outcome.not_isErr_pure _) fun h => ha h.1
  | pass a pad bs ha hpad ih =>
      rw [findErrorCode_pass bs ha hpad, Tlv.comes_pad_iff ha hpad,
        flawed_plain_iff, or_iff_right fun h => ha h.1, ih]

theorem returns_findErrorCode : (findErrorCode body).Returns := by
  induction body using Tlv.walk_induction attrErrorCode with
  | stop body hplain =>
      rw [findErrorCode_stop hplain]
      split
      · exact Outcome.returns_fail _ _
      · exact Outcome.returns_pure _
  | found a rest ha =>
      rw [findErrorCode_found rest ha]
      split
      · exact Outcome.returns_fail _ _
      · exact Outcome.returns_pure _
  | short a rest ha hpad =>
      rw [findErrorCode_short ha hpad]
      exact Outcome.returns_pure _
  | pass a pad bs ha hpad ih =>
      rw [findErrorCode_pass bs ha hpad]
      exact ih

/-- Attributes are decoded, and other bytes are refused where they are
malformed; no range is left. -/
theorem findErrorCode_walks :
    (∀ attrs bs, Tlv.Listed attrs bs →
      Decodes attrs (Checked.findErrorCode bs)) ∧
    ∀ body, (Checked.findErrorCode body).Returns ∧
      ((Checked.findErrorCode body).IsErr ↔ Malformed body) := by
  refine ⟨fun attrs bs h => ?_, fun body => ?_⟩
  · rw [Checked.findErrorCode_eq]
    exact decodes_findErrorCode h
  · rw [Checked.findErrorCode_eq]
    exact ⟨returns_findErrorCode, isErr_findErrorCode_iff⟩

end Turn

end KnockKnock
