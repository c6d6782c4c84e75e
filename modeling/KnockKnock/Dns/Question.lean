import KnockKnock.Dns.Query

/-!
# One response answers one question

A response is accepted when its header answers the query's identifier and the
bytes behind it begin with the query's question.  The question encoding is
self-delimiting, so no datagram begins with two of them, whatever follows.
-/

namespace KnockKnock

open Wire

namespace Dns

/-! ## The question encoding -/

/-- A label that fits its length byte and is not taken for the end mark. -/
abbrev Label := { label : Text // label ≠ [] ∧ (Utf8.encode label).length ≤ 63 }

def Label.encode (label : Label) : Bytes :=
  UInt8.ofNat (Utf8.encode label.1).length :: Utf8.encode label.1

theorem Label.selfDelimiting : SelfDelimiting Label.encode := by
  let counted (label : Label) : { s : Bytes // s.length < 64 } :=
    ⟨Utf8.encode label.1, Nat.lt_succ_of_le label.2.2⟩
  have hinj : Function.Injective counted := by
    intro a b hab
    exact Subtype.ext (Utf8.encode_injective (Subtype.mk.inj hab))
  exact (SelfDelimiting.counted (fun n => [UInt8.ofNat n])
    (byte_selfDelimiting (by decide : 64 ≤ 256))).comp hinj

theorem Label.encode_ne_zero (label : Label) :
    ∃ c s, label.encode = c :: s ∧ c ≠ 0 := by
  refine ⟨_, _, rfl, ?_⟩
  obtain ⟨label, hne, hle⟩ := label
  have hpos : (Utf8.encode label).length ≠ 0 := by
    intro hzero
    have hnil : Utf8.encode label = Utf8.encode [] :=
      List.eq_nil_of_length_eq_zero hzero
    exact hne (Utf8.encode_injective hnil)
  intro hbyte
  have htoNat := congrArg UInt8.toNat hbyte
  rw [UInt8.toNat_ofNat'] at htoNat
  change (Utf8.encode label).length % 256 = 0 at htoNat
  omega

/-- The question section of a query. -/
def encodeQuestion (question : List Label × UInt16) : Bytes :=
  (question.1.flatMap Label.encode ++ [0]) ++
    (toBeBytes question.2 ++ toBeBytes 1)

theorem encodeQuestion_selfDelimiting : SelfDelimiting encodeQuestion := by
  let classed (question : List Label × UInt16) :
      List Label × UInt16 × UInt16 := (question.1, question.2, 1)
  have hinj : Function.Injective classed := by
    intro p q hpq
    obtain ⟨hlabels, htype⟩ := Prod.mk.inj hpq
    exact Prod.ext hlabels (Prod.mk.inj htype).1
  have hname := Label.selfDelimiting.terminated Label.encode_ne_zero
  exact (hname.pair
    (toBeBytes_selfDelimiting.pair toBeBytes_selfDelimiting)).comp hinj

/-! ## What the builder accepts -/

theorem encodeLabels_eq_ok_iff {out bytes : Bytes} {labels : List Text} :
    encodeLabels out labels = .ok bytes ↔
      ∃ accepted : List Label, labels = accepted.map Subtype.val ∧
        bytes = out ++ accepted.flatMap Label.encode := by
  induction labels generalizing out with
  | nil =>
      constructor
      · rintro ⟨⟩
        exact ⟨[], rfl, by simp⟩
      · rintro ⟨accepted, hlabels, rfl⟩
        obtain rfl : accepted = [] := List.map_eq_nil_iff.mp hlabels.symm
        simp [encodeLabels, pure, Except.pure]
  | cons label labels ih =>
      unfold encodeLabels
      by_cases hnil : label = []
      · rw [if_pos hnil]
        refine iff_of_false (by rintro ⟨⟩) ?_
        rintro ⟨accepted, hlabels, -⟩
        obtain ⟨first, rest, rfl, hfirst, -⟩ :=
          List.map_eq_cons_iff.mp hlabels.symm
        exact first.2.1 (hfirst.trans hnil)
      rw [if_neg hnil]
      by_cases hlong : 63 < (Utf8.encode label).length
      · rw [if_pos hlong]
        refine iff_of_false (by rintro ⟨⟩) ?_
        rintro ⟨accepted, hlabels, -⟩
        obtain ⟨first, rest, rfl, hfirst, -⟩ :=
          List.map_eq_cons_iff.mp hlabels.symm
        have hle := first.2.2
        rw [hfirst] at hle
        omega
      rw [if_neg hlong, ih]
      constructor
      · rintro ⟨accepted, rfl, rfl⟩
        exact ⟨⟨label, hnil, by omega⟩ :: accepted, rfl,
          by simp [Label.encode]⟩
      · rintro ⟨accepted, hlabels, rfl⟩
        obtain ⟨first, rest, rfl, rfl, rfl⟩ :=
          List.map_eq_cons_iff.mp hlabels.symm
        exact ⟨rest, rfl, by simp [Label.encode]⟩

/-- The bytes of a built query: a header of twelve bytes and the question. -/
theorem buildQuery_spec {id qtype : UInt16} {name : Text} {request : Bytes}
    (h : buildQuery id name qtype = .ok request) :
    ∃ labels : List Label,
      (trimDots name).splitOn '.' = labels.map Subtype.val ∧
        request.drop 12 = encodeQuestion (labels, qtype) := by
  unfold buildQuery at h
  obtain ⟨qname, hqname, hrequest⟩ := Outcome.bind_eq_ok_iff.mp h
  unfold encodeName at hqname
  obtain ⟨out, hout, hqname⟩ := Outcome.bind_eq_ok_iff.mp hqname
  obtain ⟨labels, hlabels, rfl⟩ := encodeLabels_eq_ok_iff.mp hout
  split at hqname
  · cases hqname
  · cases hqname
    cases hrequest
    exact ⟨labels, hlabels, rfl⟩

/-! ## What the validator accepts -/

/-- The datagram has a header that answers the query, and then the question of
the request. -/
theorem validateResponse_eq_ok_iff {buf request : Bytes} {id : UInt16} :
    validateResponse buf request id = .ok () ↔
      12 ≤ buf.length ∧ wordAt buf 0 = id ∧ wordAt buf 2 >>> 15 = 1 ∧
        wordAt buf 2 &&& 0x000F = 0 ∧ wordAt buf 4 = 1 ∧
        12 ≤ request.length ∧ request.drop 12 <+: buf.drop 12 := by
  unfold validateResponse
  dsimp only
  by_cases hbuf : buf.length < 12
  · rw [if_pos hbuf]
    exact iff_of_false (by rintro ⟨⟩) (by omega)
  rw [if_neg hbuf]
  by_cases hid : wordAt buf 0 = id
  swap
  · rw [if_pos hid]
    exact iff_of_false (by rintro ⟨⟩) fun h => hid h.2.1
  rw [if_neg (not_not_intro hid)]
  by_cases hqr : wordAt buf 2 >>> 15 = 1
  swap
  · rw [if_pos hqr]
    exact iff_of_false (by rintro ⟨⟩) fun h => hqr h.2.2.1
  rw [if_neg (not_not_intro hqr)]
  by_cases hrcode : wordAt buf 2 &&& 0x000F = 0
  swap
  · rw [if_pos hrcode]
    exact iff_of_false (by rintro ⟨⟩) fun h => hrcode h.2.2.2.1
  rw [if_neg (not_not_intro hrcode)]
  by_cases hqdcount : wordAt buf 4 = 1
  swap
  · rw [if_pos hqdcount]
    exact iff_of_false (by rintro ⟨⟩) fun h => hqdcount h.2.2.2.2.1
  rw [if_neg (not_not_intro hqdcount)]
  by_cases hrequest : 12 ≤ request.length
  swap
  · rw [Outcome.sliceFrom, if_neg hrequest, Outcome.bind_error]
    exact iff_of_false (by rintro ⟨⟩) fun h => hrequest h.2.2.2.2.2.1
  rw [Outcome.sliceFrom, if_pos hrequest, Outcome.bind_ok]
  have hheader : 12 ≤ buf.length := by omega
  by_cases hecho : request.drop 12 <+: buf.drop 12
  · have hlength := hecho.length_le
    rw [List.length_drop (l := buf)] at hlength
    rw [if_neg (by omega),
      if_neg (not_not_intro (List.prefix_iff_eq_take.mp hecho).symm)]
    exact iff_of_true rfl
      ⟨hheader, hid, hqr, hrcode, hqdcount, hrequest, hecho⟩
  · refine iff_of_false ?_ fun h => hecho h.2.2.2.2.2.2
    split
    · rintro ⟨⟩
    · rw [if_pos fun h => hecho (List.prefix_iff_eq_take.mpr h.symm)]
      rintro ⟨⟩

theorem RecordType.code_injective : Function.Injective RecordType.code := by
  intro s t h
  cases s <;> cases t <;> first | rfl | exact absurd h (by decide)

/-- A datagram that validates two queries answers one question. -/
theorem validateResponse_unique {id₁ id₂ : UInt16} {name₁ name₂ : Text}
    {type₁ type₂ : RecordType} {request₁ request₂ buf : Bytes}
    (h₁ : buildQuery id₁ name₁ type₁.code = .ok request₁)
    (h₂ : buildQuery id₂ name₂ type₂.code = .ok request₂)
    (hv₁ : validateResponse buf request₁ id₁ = .ok ())
    (hv₂ : validateResponse buf request₂ id₂ = .ok ()) :
    id₁ = id₂ ∧ type₁ = type₂ ∧ trimDots name₁ = trimDots name₂ := by
  obtain ⟨-, hid₁, -, -, -, -, hecho₁⟩ := validateResponse_eq_ok_iff.mp hv₁
  obtain ⟨-, hid₂, -, -, -, -, hecho₂⟩ := validateResponse_eq_ok_iff.mp hv₂
  obtain ⟨labels₁, hlabels₁, hquestion₁⟩ := buildQuery_spec h₁
  obtain ⟨labels₂, hlabels₂, hquestion₂⟩ := buildQuery_spec h₂
  rw [hquestion₁] at hecho₁
  rw [hquestion₂] at hecho₂
  have hquestion := encodeQuestion_selfDelimiting.eq_of_prefix hecho₁ hecho₂
  obtain ⟨rfl, htype⟩ := Prod.mk.inj hquestion
  refine ⟨hid₁.symm.trans hid₂, RecordType.code_injective htype, ?_⟩
  calc
    trimDots name₁ = ['.'].intercalate ((trimDots name₁).splitOn '.') :=
      (List.intercalate_splitOn '.').symm
    _ = ['.'].intercalate ((trimDots name₂).splitOn '.') := by
      rw [hlabels₁, hlabels₂]
    _ = trimDots name₂ := List.intercalate_splitOn '.'

/-- A response to `a.b.` and `a.b`. -/
theorem validateResponse_unique_ab :
    (7 : UInt16) = 7 ∧ RecordType.a = RecordType.a ∧
      trimDots "a.b.".toList = trimDots "a.b".toList :=
  validateResponse_unique
    (by decide : buildQuery 7 "a.b.".toList RecordType.a.code =
      .ok [0, 7, 1, 0, 0, 1, 0, 0, 0, 0, 0, 0, 1, 97, 1, 98, 0, 0, 1, 0, 1])
    (by decide : buildQuery 7 "a.b".toList RecordType.a.code =
      .ok [0, 7, 1, 0, 0, 1, 0, 0, 0, 0, 0, 0, 1, 97, 1, 98, 0, 0, 1, 0, 1])
    (by decide : validateResponse [0, 7, 128, 0, 0, 1, 0, 0, 0, 0, 0, 0,
      1, 97, 1, 98, 0, 0, 1, 0, 1, 192, 12] _ 7 = .ok ())
    (by decide)

end Dns

end KnockKnock
