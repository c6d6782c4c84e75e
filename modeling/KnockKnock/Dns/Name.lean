import KnockKnock.Dns.Question
import KnockKnock.Support.Counted

/-!
# The encoding of a name

`encode_name` checks each label where it is written, and the whole name at the
end.  What passes is within the limits of the protocol, and is read back.
-/

namespace KnockKnock

namespace Dns

/-- The labels that are written: the name without its trailing dots, split at
the others. -/
def labelsOf (name : Text) : List Text := (trimDots name).splitOn '.'

/-- How many bytes the labels take, with their lengths and the end mark. -/
def encodedLength (labels : List Text) : ℕ :=
  (labels.map fun label => (Utf8.encode label).length + 1).sum + 1

/-- The limits of the protocol, in bytes. -/
structure WithinLimits (labels : List Text) : Prop where
  nonempty : ∀ label ∈ labels, label ≠ []
  short : ∀ label ∈ labels, (Utf8.encode label).length ≤ 63
  total : encodedLength labels ≤ 255

variable {name : Text} {b : Bytes}

theorem length_encode_labels (labels : List Text) :
    (Counted.encode (labels.map Utf8.encode)).length =
      encodedLength labels := by
  rw [Counted.length_encode, List.map_map]
  rfl

theorem flatMap_encode_append_zero (labels : List Label) :
    labels.flatMap Label.encode ++ [0] =
      Counted.encode ((labels.map Subtype.val).map Utf8.encode) := by
  rw [Counted.encode, List.flatMap_map, List.flatMap_map]
  rfl

theorem exists_label_iff {labels : List Text} :
    (∃ accepted : List Label, labels = accepted.map Subtype.val) ↔
      ∀ label ∈ labels, label ≠ [] ∧ (Utf8.encode label).length ≤ 63 := by
  constructor
  · rintro ⟨accepted, rfl⟩ label hlabel
    obtain ⟨l, -, rfl⟩ := List.mem_map.mp hlabel
    exact l.2
  · intro h
    exact ⟨labels.attachWith _ h, (List.attachWith_map_subtype_val h).symm⟩

/-- The limits are all that is checked, and the bytes are those of the
labels. -/
theorem encodeName_eq_ok_iff :
    encodeName name = .ok b ↔
      WithinLimits (labelsOf name) ∧
        b = Counted.encode ((labelsOf name).map Utf8.encode) := by
  unfold encodeName
  constructor
  · intro h
    obtain ⟨out, hout, h⟩ := Outcome.bind_eq_ok_iff.mp h
    obtain ⟨accepted, hlabels, rfl⟩ := encodeLabels_eq_ok_iff.mp hout
    rw [List.nil_append] at h
    split at h
    · cases h
    next hle =>
      cases h
      rw [flatMap_encode_append_zero, length_encode_labels] at hle
      have hlimits := exists_label_iff.mp ⟨accepted, hlabels⟩
      refine ⟨⟨fun l hl => (hlimits l hl).1, fun l hl => (hlimits l hl).2, ?_⟩, ?_⟩
      · rw [labelsOf, hlabels]
        omega
      · rw [labelsOf, hlabels, flatMap_encode_append_zero]
  · rintro ⟨hlimits, rfl⟩
    obtain ⟨accepted, hlabels⟩ := exists_label_iff.mpr
      fun l hl => ⟨hlimits.nonempty l hl, hlimits.short l hl⟩
    have hout : encodeLabels [] ((trimDots name).splitOn '.') =
        .ok (accepted.flatMap Label.encode) :=
      encodeLabels_eq_ok_iff.mpr ⟨accepted, hlabels, rfl⟩
    rw [hout, Outcome.bind_ok, flatMap_encode_append_zero, ← hlabels,
      length_encode_labels, if_neg (Nat.not_lt.mpr hlimits.total)]
    rfl

theorem WithinLimits.fits {labels : List Text} (h : WithinLimits labels) :
    ∀ word ∈ labels.map Utf8.encode, Counted.Fits word := by
  intro word hword
  obtain ⟨label, hlabel, rfl⟩ := List.mem_map.mp hword
  refine ⟨fun hnil => h.nonempty label hlabel ?_, ?_⟩
  · exact Utf8.encode_injective hnil
  · have hshort := h.short label hlabel
    omega

/-- The labels, put together again, are the name that was written. -/
theorem labelsOf_intercalate :
    labelsOf (['.'].intercalate (labelsOf name)) = labelsOf name := by
  unfold labelsOf
  rw [List.intercalate_splitOn]
  unfold trimDots
  rw [List.rdropWhile_idempotent]

/-- A name is encoded when it is within the limits.  Its encoding is decoded to
its labels, up to the last byte, and the labels are encoded to it again. -/
theorem encodeName_roundTrip (name : Text) :
    ((∃ b, encodeName name = .ok b) ↔ WithinLimits (labelsOf name)) ∧
    ∀ b, encodeName name = .ok b →
      Counted.decode b = some ((labelsOf name).map Utf8.encode, []) ∧
      (∀ words rest, Counted.decode b = some (words, rest) →
        Counted.encode words = b) ∧
      encodeName (['.'].intercalate (labelsOf name)) = .ok b := by
  refine ⟨⟨?_, ?_⟩, ?_⟩
  · rintro ⟨b, hb⟩
    exact (encodeName_eq_ok_iff.mp hb).1
  · intro hlimits
    exact ⟨_, encodeName_eq_ok_iff.mpr ⟨hlimits, rfl⟩⟩
  · intro b hb
    obtain ⟨hlimits, hbytes⟩ := encodeName_eq_ok_iff.mp hb
    have hdecode : Counted.decode b =
        some ((labelsOf name).map Utf8.encode, []) := by
      rw [hbytes, ← List.append_nil (Counted.encode _)]
      exact Counted.decode_encode_append hlimits.fits []
    refine ⟨hdecode, ?_, ?_⟩
    · intro words rest h
      have hsame := Option.some.inj (hdecode.symm.trans h)
      obtain ⟨-, rfl⟩ := Prod.mk.inj hsame
      rw [← Counted.encode_append_of_decode h, List.append_nil]
    · rw [encodeName_eq_ok_iff, labelsOf_intercalate]
      exact ⟨hlimits, hbytes⟩

/-- A label of two characters in three bytes. -/
example : encodeName "aé.b..".toList =
    .ok [3, 97, 0xC3, 0xA9, 1, 98, 0] := by
  decide

end Dns

end KnockKnock
