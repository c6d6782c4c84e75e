import KnockKnock.Support.Wire

/-!
# Attributes behind a type and a length

An attribute is a value behind its type and its length.  Attributes follow one
another, each padded to a multiple of four bytes; a reader that looks for the
first attribute of one type walks over the others.
-/

namespace Tlv

open Wire

variable {t : UInt16} {bs rest value : List UInt8}

/-- A type, and a value that a length field can count. -/
structure Attribute where
  type : UInt16
  value : List UInt8
  length_lt : value.length < 65536

/-- An attribute without its padding. -/
def Attribute.plain (a : Attribute) : List UInt8 :=
  toBeBytes a.type ++
    (toBeBytes (UInt16.ofNat a.value.length) ++ a.value)

/-- How many bytes fill `n` up to a multiple of four. -/
def padding (n : ℕ) : ℕ := (4 - n % 4) % 4

/-- Attributes with their padding, whatever it holds. -/
inductive Spelled : List Attribute → List UInt8 → Prop
  | nil : Spelled [] []
  | cons {a : Attribute} {as : List Attribute} {pad bs : List UInt8}
      (hpad : pad.length = padding a.value.length) (hrest : Spelled as bs) :
      Spelled (a :: as) (a.plain ++ (pad ++ bs))

/-- Attributes as a message holds them: the padding of the last one may be
left out. -/
inductive Listed : List Attribute → List UInt8 → Prop
  | nil : Listed [] []
  | last {a : Attribute} {pad : List UInt8}
      (hpad : pad.length ≤ padding a.value.length) : Listed [a] (a.plain ++ pad)
  | cons {a : Attribute} {as : List Attribute} {pad bs : List UInt8}
      (hpad : pad.length = padding a.value.length) (hrest : Listed as bs) :
      Listed (a :: as) (a.plain ++ (pad ++ bs))

/-- A walk for the type `t` passes `skipped` and goes on with `rest`. -/
def Arrives (t : UInt16) (bs skipped rest : List UInt8) : Prop :=
  ∃ front, Spelled front skipped ∧ (∀ b ∈ front, b.type ≠ t) ∧
    bs = skipped ++ rest

/-- A walk for the type `t` comes to `a`, behind `skipped`. -/
def Reaches (t : UInt16) (bs skipped : List UInt8) (a : Attribute) : Prop :=
  ∃ front rest, Spelled front skipped ∧ (∀ b ∈ front, b.type ≠ t) ∧
    bs = skipped ++ (a.plain ++ rest)

/-- The first attribute of the type `t` has this value. -/
def First (t : UInt16) (bs value : List UInt8) : Prop :=
  ∃ skipped a, Reaches t bs skipped a ∧ a.type = t ∧ a.value = value

/-! ## Attributes at the front -/

theorem Attribute.length_plain (a : Attribute) :
    a.plain.length = 4 + a.value.length := by
  simp only [Attribute.plain, toBeBytes, List.length_append,
    List.length_cons, List.length_nil]
  omega

/-- The length field counts the value. -/
theorem Attribute.toNat_length (a : Attribute) :
    (UInt16.ofNat a.value.length).toNat = a.value.length := by
  rw [UInt16.toNat_ofNat']
  exact Nat.mod_eq_of_lt a.length_lt

/-- The four bytes in front of a value. -/
theorem Attribute.plain_eq (a : Attribute) :
    ∃ b₀ b₁ b₂ b₃, a.plain = b₀ :: b₁ :: b₂ :: b₃ :: a.value ∧
      fromBeBytes b₀ b₁ = a.type ∧
      (fromBeBytes b₂ b₃).toNat = a.value.length := by
  refine ⟨_, _, _, _, rfl, fromBeBytes_toBeBytes _, ?_⟩
  rw [fromBeBytes_toBeBytes, a.toNat_length]

/-- Enough bytes behind four others are an attribute. -/
theorem exists_plain (b₀ b₁ : UInt8) {b₂ b₃ : UInt8} {tail : List UInt8}
    (h : (fromBeBytes b₂ b₃).toNat ≤ tail.length) :
    ∃ a : Attribute, ∃ rest, b₀ :: b₁ :: b₂ :: b₃ :: tail = a.plain ++ rest ∧
      a.type = fromBeBytes b₀ b₁ ∧
      a.value = tail.take (fromBeBytes b₂ b₃).toNat := by
  have hlength : (tail.take (fromBeBytes b₂ b₃).toNat).length =
      (fromBeBytes b₂ b₃).toNat := List.length_take_of_le h
  let a : Attribute :=
    { type := fromBeBytes b₀ b₁
      value := tail.take (fromBeBytes b₂ b₃).toNat
      length_lt := by
        rw [hlength]
        exact (fromBeBytes b₂ b₃).toNat_lt }
  refine ⟨a, tail.drop (fromBeBytes b₂ b₃).toNat, ?_, rfl, rfl⟩
  have hword : UInt16.ofNat a.value.length = fromBeBytes b₂ b₃ := by
    change UInt16.ofNat (tail.take (fromBeBytes b₂ b₃).toNat).length = _
    rw [hlength, UInt16.ofNat_toNat]
  rw [Attribute.plain, hword, toBeBytes_fromBeBytes, toBeBytes_fromBeBytes]
  simp [a]

/-- Where no attribute is, a length is declared that the bytes do not have. -/
theorem length_lt_of_not_plain
    (h : ¬∃ a : Attribute, ∃ rest, bs = a.plain ++ rest)
    (hlen : 4 ≤ bs.length) :
    bs.length < 4 + (fromBeBytes (bs.getD 2 0) (bs.getD 3 0)).toNat := by
  obtain ⟨b₀, b₁, b₂, b₃, tail, rfl⟩ :
      ∃ b₀ b₁ b₂ b₃ tail, bs = b₀ :: b₁ :: b₂ :: b₃ :: tail := by
    rcases bs with _ | ⟨b₀, _ | ⟨b₁, _ | ⟨b₂, _ | ⟨b₃, tail⟩⟩⟩⟩
    · simp at hlen
    · simp at hlen
    · simp at hlen
    · simp at hlen
    · exact ⟨b₀, b₁, b₂, b₃, tail, rfl⟩
  by_contra hle
  simp only [List.length_cons] at hle
  change ¬_ < 4 + (fromBeBytes b₂ b₃).toNat at hle
  obtain ⟨a, rest, hplain, -⟩ := exists_plain b₀ b₁
    (show (fromBeBytes b₂ b₃).toNat ≤ tail.length by omega)
  exact h ⟨a, rest, hplain⟩

/-- Two attributes at the front of one word are one. -/
theorem Attribute.plain_unique {a a' : Attribute} {rest' : List UInt8}
    (h : a.plain ++ rest = a'.plain ++ rest') :
    a.type = a'.type ∧ a.value = a'.value ∧ rest = rest' := by
  simp only [Attribute.plain, List.append_assoc] at h
  obtain ⟨htype, hbehind⟩ := toBeBytes_selfDelimiting h
  obtain ⟨hlength, hvalue⟩ := toBeBytes_selfDelimiting hbehind
  have heq : a.value.length = a'.value.length := by
    rw [← a.toNat_length, hlength, a'.toNat_length]
  obtain ⟨hsame, hrest⟩ := List.append_inj hvalue heq
  exact ⟨htype, hsame, hrest⟩

/-- So are their paddings. -/
theorem Attribute.padded_unique {a a' : Attribute} {pad pad' bs' : List UInt8}
    (hpad : pad.length = padding a.value.length)
    (hpad' : pad'.length = padding a'.value.length)
    (h : a.plain ++ (pad ++ bs) = a'.plain ++ (pad' ++ bs')) :
    a.plain = a'.plain ∧ pad = pad' ∧ bs = bs' := by
  obtain ⟨htype, hvalue, hrest⟩ := Attribute.plain_unique h
  obtain ⟨hsame, hbehind⟩ := List.append_inj hrest (by rw [hpad, hpad', hvalue])
  exact ⟨by simp only [Attribute.plain, htype, hvalue], hsame, hbehind⟩

/-- A walk for the type `t` ends at less than an attribute, at an attribute of
its type, or at one without its padding; it passes any other. -/
theorem walk_induction {P : List UInt8 → Prop} (t : UInt16)
    (stop : ∀ bs, (¬∃ a : Attribute, ∃ rest, bs = a.plain ++ rest) → P bs)
    (found : ∀ (a : Attribute) rest, a.type = t → P (a.plain ++ rest))
    (short : ∀ (a : Attribute) rest, a.type ≠ t →
      rest.length < padding a.value.length → P (a.plain ++ rest))
    (pass : ∀ (a : Attribute) pad bs, a.type ≠ t →
      pad.length = padding a.value.length → P bs → P (a.plain ++ (pad ++ bs)))
    (bs : List UInt8) : P bs := by
  induction hn : bs.length using Nat.strongRecOn generalizing bs with
  | _ n ih =>
    by_cases hplain : ∃ a : Attribute, ∃ rest, bs = a.plain ++ rest
    swap
    · exact stop bs hplain
    obtain ⟨a, rest, rfl⟩ := hplain
    by_cases ha : a.type = t
    · exact found a rest ha
    by_cases hpad : rest.length < padding a.value.length
    · exact short a rest ha hpad
    have hsmaller : (rest.drop (padding a.value.length)).length < n := by
      rw [← hn, List.length_drop, List.length_append, a.length_plain]
      omega
    -- The rest behind the padding is shorter by a whole attribute.
    rw [← List.take_append_drop (padding a.value.length) rest]
    exact pass a _ _ ha (List.length_take_of_le (by omega))
      (ih _ hsmaller _ rfl)

/-! ## One step of the walk -/

/-- A walk has not begun, or it passes an attribute of another type with its
padding. -/
theorem arrives_iff {skipped : List UInt8} :
    Arrives t bs skipped rest ↔
      (skipped = [] ∧ bs = rest) ∨
        ∃ a : Attribute, ∃ pad bs' skipped', a.type ≠ t ∧
          pad.length = padding a.value.length ∧
          bs = a.plain ++ (pad ++ bs') ∧
          skipped = a.plain ++ (pad ++ skipped') ∧
          Arrives t bs' skipped' rest := by
  constructor
  · rintro ⟨front, hspelled, hfront, rfl⟩
    cases hspelled with
    | nil => exact .inl ⟨rfl, rfl⟩
    | @cons a as pad skipped' hpad hrest =>
        exact .inr ⟨a, pad, skipped' ++ rest, skipped', hfront a (by simp),
          hpad, by simp, rfl, as, hrest,
          fun b hb => hfront b (List.mem_cons_of_mem _ hb), rfl⟩
  · rintro (⟨rfl, rfl⟩ | ⟨a, pad, bs', skipped', ha, hpad, rfl, rfl,
      front, hspelled, hfront, rfl⟩)
    · exact ⟨[], .nil, by simp, rfl⟩
    · refine ⟨a :: front, .cons hpad hspelled, ?_, by simp⟩
      intro b hb
      rcases List.mem_cons.mp hb with rfl | hb
      · exact ha
      · exact hfront b hb

/-- A walk for the type `t` comes to bytes with the property `P`. -/
def Comes (t : UInt16) (P : List UInt8 → Prop) (bs : List UInt8) : Prop :=
  ∃ skipped rest, Arrives t bs skipped rest ∧ P rest

section Comes

variable {P : List UInt8 → Prop}

/-- A walk stays where no attribute of another type can be passed. -/
theorem comes_iff_of_stays
    (h : ∀ a : Attribute, ∀ pad bs' : List UInt8, a.type ≠ t →
      pad.length = padding a.value.length → bs ≠ a.plain ++ (pad ++ bs')) :
    Comes t P bs ↔ P bs := by
  constructor
  · rintro ⟨skipped, rest, harrives, hrest⟩
    obtain ⟨-, rfl⟩ | ⟨a, pad, bs', -, ha, hpad, hbs, -⟩ :=
      arrives_iff.mp harrives
    · exact hrest
    · exact absurd hbs (h a pad bs' ha hpad)
  · intro hP
    exact ⟨[], bs, arrives_iff.mpr (.inl ⟨rfl, rfl⟩), hP⟩

/-- A walk does not pass an attribute of its type. -/
theorem comes_plain_iff {a : Attribute} (ha : a.type = t) :
    Comes t P (a.plain ++ rest) ↔ P (a.plain ++ rest) := by
  apply comes_iff_of_stays
  intro b pad bs' hb _ hbs
  exact hb ((Attribute.plain_unique hbs).1.symm.trans ha)

/-- It does not pass an attribute without its padding. -/
theorem comes_short_iff {a : Attribute}
    (h : rest.length < padding a.value.length) :
    Comes t P (a.plain ++ rest) ↔ P (a.plain ++ rest) := by
  apply comes_iff_of_stays
  intro b pad bs' _ hpad hbs
  obtain ⟨-, hvalue, rfl⟩ := Attribute.plain_unique hbs
  rw [hvalue, List.length_append] at h
  omega

/-- It does not pass less than an attribute. -/
theorem comes_iff_of_not_plain
    (h : ¬∃ a : Attribute, ∃ rest, bs = a.plain ++ rest) :
    Comes t P bs ↔ P bs := by
  apply comes_iff_of_stays
  intro a pad bs' _ _ hbs
  exact h ⟨a, _, hbs⟩

/-- It passes everything else. -/
theorem comes_pad_iff {a : Attribute} (ha : a.type ≠ t) {pad : List UInt8}
    (hpad : pad.length = padding a.value.length) :
    Comes t P (a.plain ++ (pad ++ bs)) ↔
      P (a.plain ++ (pad ++ bs)) ∨ Comes t P bs := by
  constructor
  · rintro ⟨skipped, rest, harrives, hrest⟩
    obtain ⟨-, rfl⟩ | ⟨b, pad', bs', skipped', -, hpad', hbs, -, hbehind⟩ :=
      arrives_iff.mp harrives
    · exact .inl hrest
    · obtain ⟨-, -, rfl⟩ := Attribute.padded_unique hpad hpad' hbs
      exact .inr ⟨skipped', rest, hbehind, hrest⟩
  · rintro (hP | ⟨skipped, rest, harrives, hrest⟩)
    · exact ⟨[], _, arrives_iff.mpr (.inl ⟨rfl, rfl⟩), hP⟩
    · exact ⟨_, rest, arrives_iff.mpr (.inr ⟨a, pad, bs, skipped, ha, hpad,
        rfl, rfl, harrives⟩), hrest⟩

end Comes

/-! ## The first attribute of a type -/

theorem reaches_iff {skipped : List UInt8} {a : Attribute} :
    Reaches t bs skipped a ↔ ∃ rest, Arrives t bs skipped (a.plain ++ rest) := by
  constructor
  · rintro ⟨front, rest, h⟩
    exact ⟨rest, front, h⟩
  · rintro ⟨rest, front, h⟩
    exact ⟨front, rest, h⟩

/-- The bytes begin with an attribute of the type `t` and this value. -/
def Heads (t : UInt16) (value bs : List UInt8) : Prop :=
  ∃ a : Attribute, ∃ rest, bs = a.plain ++ rest ∧ a.type = t ∧ a.value = value

theorem heads_plain_iff {a : Attribute} :
    Heads t value (a.plain ++ rest) ↔ a.type = t ∧ a.value = value := by
  constructor
  · rintro ⟨a', rest', hplain, ha', hvalue⟩
    obtain ⟨htype, hsame, -⟩ := Attribute.plain_unique hplain
    exact ⟨htype.trans ha', hsame.trans hvalue⟩
  · rintro ⟨ha, hvalue⟩
    exact ⟨a, rest, rfl, ha, hvalue⟩

theorem first_iff_comes : First t bs value ↔ Comes t (Heads t value) bs := by
  constructor
  · rintro ⟨skipped, a, hreaches, ha, hvalue⟩
    obtain ⟨rest, harrives⟩ := reaches_iff.mp hreaches
    exact ⟨skipped, _, harrives, heads_plain_iff.mpr ⟨ha, hvalue⟩⟩
  · rintro ⟨skipped, _, harrives, a, rest, rfl, ha, hvalue⟩
    exact ⟨skipped, a, reaches_iff.mpr ⟨rest, harrives⟩, ha, hvalue⟩

/-- The walk ends at an attribute of its type. -/
theorem first_plain_iff {a : Attribute} (ha : a.type = t) :
    First t (a.plain ++ rest) value ↔ a.value = value := by
  rw [first_iff_comes, comes_plain_iff ha, heads_plain_iff, and_iff_right ha]

/-- The walk passes an attribute of another type with its padding. -/
theorem first_pad_iff {a : Attribute} (ha : a.type ≠ t) {pad : List UInt8}
    (hpad : pad.length = padding a.value.length) :
    First t (a.plain ++ (pad ++ bs)) value ↔ First t bs value := by
  rw [first_iff_comes, comes_pad_iff ha hpad, heads_plain_iff,
    or_iff_right fun h => ha h.1, first_iff_comes]

/-- Without room for the padding, an attribute of another type is the last
one. -/
theorem not_first_of_short {a : Attribute} (ha : a.type ≠ t)
    (h : rest.length < padding a.value.length) :
    ¬First t (a.plain ++ rest) value := by
  rw [first_iff_comes, comes_short_iff h, heads_plain_iff]
  exact fun hfirst => ha hfirst.1

/-- A walk reaches complete attributes only. -/
theorem exists_plain_of_first (h : First t bs value) :
    ∃ a : Attribute, ∃ rest, bs = a.plain ++ rest := by
  by_contra hnone
  rw [first_iff_comes, comes_iff_of_not_plain hnone] at h
  obtain ⟨a, rest, hbs, -⟩ := h
  exact hnone ⟨a, rest, hbs⟩

/-- What is reached lies inside the bytes. -/
theorem Reaches.length_le {skipped : List UInt8} {a : Attribute}
    (h : Reaches t bs skipped a) :
    skipped.length + a.plain.length ≤ bs.length := by
  obtain ⟨front, rest, -, -, rfl⟩ := h
  simp only [List.length_append]
  omega

/-- A walk comes to its type in one place. -/
theorem Reaches.unique {skipped skipped' : List UInt8} {a a' : Attribute}
    (h : Reaches t bs skipped a) (ha : a.type = t)
    (h' : Reaches t bs skipped' a') (ha' : a'.type = t) :
    skipped = skipped' ∧ a.value = a'.value := by
  obtain ⟨front, rest, hspelled, hfront, rfl⟩ := h
  induction hspelled generalizing skipped' with
  | nil =>
      obtain ⟨rest', h'⟩ := reaches_iff.mp h'
      obtain ⟨rfl, hbs⟩ | ⟨b, pad, bs', -, hb, -, hbs, -⟩ := arrives_iff.mp h'
      · exact ⟨rfl, (Attribute.plain_unique hbs).2.1⟩
      · exact absurd ((Attribute.plain_unique hbs).1.symm.trans ha) hb
  | @cons b as pad behind hpad hrest ih =>
      have hb : b.type ≠ t := hfront b (by simp)
      obtain ⟨rest', h'⟩ := reaches_iff.mp h'
      rw [List.append_assoc] at h'
      obtain ⟨rfl, hbs⟩ | ⟨b', pad', bs', behind', -, hpad', hbs, rfl, h'⟩ :=
        arrives_iff.mp h'
      · exact absurd ((Attribute.plain_unique hbs).1.trans ha') hb
      · rw [List.append_assoc] at hbs
        obtain ⟨hplain, rfl, rfl⟩ := Attribute.padded_unique hpad hpad' hbs
        obtain ⟨rfl, hsame⟩ := ih
          (fun c hc => hfront c (List.mem_cons_of_mem _ hc))
          (reaches_iff.mpr ⟨rest', h'⟩)
        rw [hplain]
        exact ⟨rfl, hsame⟩

/-- There is one first attribute of a type. -/
theorem First.unique {value' : List UInt8} (h : First t bs value)
    (h' : First t bs value') : value = value' := by
  obtain ⟨skipped, a, hreaches, ha, rfl⟩ := h
  obtain ⟨skipped', a', hreaches', ha', rfl⟩ := h'
  exact (hreaches.unique ha hreaches' ha').2

/-- What is cut off behind an attribute does not keep a walk from it. -/
theorem reaches_take_iff {n : ℕ} {skipped : List UInt8} {a : Attribute} :
    Reaches t (bs.take n) skipped a ↔
      Reaches t bs skipped a ∧ skipped.length + a.plain.length ≤ n := by
  constructor
  · intro h
    have hle := Nat.le_trans h.length_le (List.length_take_le n bs)
    obtain ⟨front, rest, hspelled, hfront, htake⟩ := h
    refine ⟨⟨front, rest ++ bs.drop n, hspelled, hfront, ?_⟩, hle⟩
    calc
      bs = bs.take n ++ bs.drop n := (List.take_append_drop n bs).symm
      _ = skipped ++ (a.plain ++ (rest ++ bs.drop n)) := by
        rw [htake]
        simp only [List.append_assoc]
  · rintro ⟨⟨front, rest, hspelled, hfront, rfl⟩, hle⟩
    refine ⟨front, rest.take (n - skipped.length - a.plain.length), hspelled,
      hfront, ?_⟩
    rw [List.take_append, List.take_of_length_le (by omega),
      List.take_append, List.take_of_length_le (by omega)]

end Tlv
