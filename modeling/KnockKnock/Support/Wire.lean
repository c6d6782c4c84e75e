import Mathlib.Algebra.Group.Nat.Defs
import Mathlib.Data.List.Basic
import Mathlib.Logic.Function.Basic

/-!
# Self-delimiting encodings

An encoding is self-delimiting when a reader of a longer word can tell what
was encoded and where it ends.  Such encodings compose under concatenation, and
are built from fixed widths, counts and end markers.
-/

namespace Wire

open Function

variable {α β γ : Type*}

/-- What stands at the front of a word determines both the encoded value and
the rest. -/
def SelfDelimiting (encode : α → List γ) : Prop :=
  ∀ ⦃a b : α⦄ ⦃x y : List γ⦄,
    encode a ++ x = encode b ++ y → a = b ∧ x = y

namespace SelfDelimiting

variable {encode : α → List γ} {encode' : β → List γ}

/-- Two values encoded at the front of one word are equal. -/
theorem eq_of_prefix (h : SelfDelimiting encode) {a b : α} {s : List γ}
    (ha : encode a <+: s) (hb : encode b <+: s) : a = b := by
  obtain ⟨x, hx⟩ := ha
  obtain ⟨y, hy⟩ := hb
  exact (h (hx.trans hy.symm)).1

/-- Injective encodings of one width. -/
theorem of_length (width : ℕ) (hwidth : ∀ a, (encode a).length = width)
    (hinj : Injective encode) : SelfDelimiting encode := by
  intro a b x y h
  have hlength : (encode a).length = (encode b).length := by
    rw [hwidth, hwidth]
  obtain ⟨hab, hxy⟩ := List.append_inj h hlength
  exact ⟨hinj hab, hxy⟩

theorem comp (h : SelfDelimiting encode) {φ : β → α} (hφ : Injective φ) :
    SelfDelimiting (encode ∘ φ) := by
  intro a b x y hab
  obtain ⟨heq, hxy⟩ := h hab
  exact ⟨hφ heq, hxy⟩

/-- One encoding after the other. -/
theorem pair (h : SelfDelimiting encode) (h' : SelfDelimiting encode') :
    SelfDelimiting fun p : α × β => encode p.1 ++ encode' p.2 := by
  intro p q x y hpq
  rw [List.append_assoc, List.append_assoc] at hpq
  obtain ⟨hfst, hrest⟩ := h hpq
  obtain ⟨hsnd, hxy⟩ := h' hrest
  exact ⟨Prod.ext hfst hsnd, hxy⟩

/-- A word behind its own length. -/
theorem counted {bound : ℕ} (count : ℕ → List γ)
    (h : SelfDelimiting fun n : Fin bound => count n) :
    SelfDelimiting fun s : { s : List γ // s.length < bound } =>
      count s.1.length ++ s.1 := by
  intro s t x y hst
  simp only [List.append_assoc] at hst
  obtain ⟨hlength, hrest⟩ := h (a := ⟨s.1.length, s.2⟩)
    (b := ⟨t.1.length, t.2⟩) hst
  obtain ⟨heq, hxy⟩ := List.append_inj hrest (Fin.mk.inj hlength)
  exact ⟨Subtype.ext heq, hxy⟩

/-- A sequence whose members do not begin like the mark that ends it. -/
theorem terminated (h : SelfDelimiting encode) {stop : γ}
    (hstop : ∀ a, ∃ c s, encode a = c :: s ∧ c ≠ stop) :
    SelfDelimiting fun as : List α => as.flatMap encode ++ [stop] := by
  have hhead : ∀ a x y, encode a ++ x ≠ stop :: y := by
    intro a x y heq
    obtain ⟨c, s, hcs, hne⟩ := hstop a
    rw [hcs] at heq
    exact hne (List.cons.inj heq).1
  intro as
  induction as with
  | nil =>
      intro bs x y hbs
      cases bs with
      | nil => exact ⟨rfl, by simpa using hbs⟩
      | cons b bs =>
          simp only [List.flatMap_cons, List.append_assoc,
            List.flatMap_nil, List.nil_append, List.singleton_append] at hbs
          exact absurd hbs.symm (hhead b _ _)
  | cons a as ih =>
      intro bs x y hbs
      cases bs with
      | nil =>
          simp only [List.flatMap_cons, List.append_assoc,
            List.flatMap_nil, List.nil_append, List.singleton_append] at hbs
          exact absurd hbs (hhead a _ _)
      | cons b bs =>
          simp only [List.flatMap_cons, List.append_assoc] at hbs
          obtain ⟨rfl, hrest⟩ := h hbs
          obtain ⟨rfl, hxy⟩ := ih (by simpa using hrest)
          exact ⟨rfl, hxy⟩

end SelfDelimiting

/-! ## Bytes and big-endian words -/

theorem ofNat_toNat_byte {n : ℕ} (h : n < 256) : (UInt8.ofNat n).toNat = n := by
  rw [UInt8.toNat_ofNat']
  exact Nat.mod_eq_of_lt h

/-- `n.to_be_bytes()` -/
def toBeBytes (n : UInt16) : List UInt8 :=
  [UInt8.ofNat (n.toNat / 256), UInt8.ofNat (n.toNat % 256)]

/-- `u16::from_be_bytes([a, b])` -/
def fromBeBytes (a b : UInt8) : UInt16 :=
  UInt16.ofNat (a.toNat * 256 + b.toNat)

/-- `u32::from_be_bytes([a, b, c, d])` -/
def fromBeBytes32 (a b c d : UInt8) : UInt32 :=
  UInt32.ofNat
    (((a.toNat * 256 + b.toNat) * 256 + c.toNat) * 256 + d.toNat)

theorem fromBeBytes_toBeBytes (n : UInt16) :
    fromBeBytes (UInt8.ofNat (n.toNat / 256))
      (UInt8.ofNat (n.toNat % 256)) = n := by
  have hn := n.toNat_lt
  apply UInt16.toNat_inj.mp
  rw [fromBeBytes, UInt16.toNat_ofNat', UInt8.toNat_ofNat',
    UInt8.toNat_ofNat']
  omega

theorem toBeBytes_fromBeBytes (a b : UInt8) :
    toBeBytes (fromBeBytes a b) = [a, b] := by
  have ha := a.toNat_lt
  have hb := b.toNat_lt
  have hn : (fromBeBytes a b).toNat = a.toNat * 256 + b.toNat := by
    rw [fromBeBytes, UInt16.toNat_ofNat']
    omega
  have hhigh : (a.toNat * 256 + b.toNat) / 256 = a.toNat := by omega
  have hlow : (a.toNat * 256 + b.toNat) % 256 = b.toNat := by omega
  rw [toBeBytes, hn, hhigh, hlow, UInt8.ofNat_toNat, UInt8.ofNat_toNat]

theorem toBeBytes_selfDelimiting : SelfDelimiting toBeBytes := by
  refine .of_length 2 (fun _ => rfl) ?_
  intro m n h
  obtain ⟨hhigh, hlow⟩ := List.cons.inj h
  rw [← fromBeBytes_toBeBytes m, hhigh, (List.cons.inj hlow).1,
    fromBeBytes_toBeBytes]

/-- A number below 256 as one byte. -/
theorem byte_selfDelimiting {bound : ℕ} (hbound : bound ≤ 256) :
    SelfDelimiting fun n : Fin bound => [UInt8.ofNat n] := by
  refine .of_length 1 (fun _ => rfl) ?_
  intro m n h
  have hm := m.isLt
  have hn := n.isLt
  have heq := congrArg UInt8.toNat (List.cons.inj h).1
  rw [ofNat_toNat_byte (by omega), ofNat_toNat_byte (by omega)] at heq
  exact Fin.ext heq

/-- The last `k` digits of `n` to the base 256, the highest one first. -/
def bigEndian : ℕ → ℕ → List UInt8
  | 0, _ => []
  | k + 1, n => bigEndian k (n / 256) ++ [UInt8.ofNat (n % 256)]

@[simp] theorem length_bigEndian (k n : ℕ) : (bigEndian k n).length = k := by
  induction k generalizing n with
  | zero => rfl
  | succ k ih => rw [bigEndian, List.length_append, ih, List.length_singleton]

/-- As many digits as a number has determine it. -/
theorem bigEndian_inj {k m n : ℕ} (hm : m < 256 ^ k) (hn : n < 256 ^ k) :
    bigEndian k m = bigEndian k n ↔ m = n := by
  refine ⟨fun h => ?_, congrArg (bigEndian k)⟩
  induction k generalizing m n with
  | zero =>
      rw [pow_zero] at hm hn
      omega
  | succ k ih =>
      rw [pow_succ] at hm hn
      obtain ⟨hhigh, hlow⟩ := List.append_inj' h rfl
      have hdiv := ih (by omega) (by omega) hhigh
      have hmod := congrArg UInt8.toNat (List.cons.inj hlow).1
      rw [ofNat_toNat_byte (by omega), ofNat_toNat_byte (by omega)] at hmod
      omega

/-! ## Reading -/

/-- The first byte. -/
def takeByte : List UInt8 → Option (UInt8 × List UInt8)
  | b :: bs => some (b, bs)
  | [] => none

/-- A big-endian word. -/
def takeWord : List UInt8 → Option (UInt16 × List UInt8)
  | a :: b :: bs => some (fromBeBytes a b, bs)
  | _ => none

/-- The next `n` bytes. -/
def takeExact (n : ℕ) (bs : List UInt8) : Option (List UInt8 × List UInt8) :=
  if n ≤ bs.length then some (bs.take n, bs.drop n) else none

/-- Bytes behind a word that counts them. -/
def takeCounted (bs : List UInt8) : Option (List UInt8 × List UInt8) := do
  let (n, bs) ← takeWord bs
  takeExact n.toNat bs

@[simp] theorem takeByte_cons (b : UInt8) (bs : List UInt8) :
    takeByte (b :: bs) = some (b, bs) := rfl

@[simp] theorem takeWord_toBeBytes (n : UInt16) (bs : List UInt8) :
    takeWord (toBeBytes n ++ bs) = some (n, bs) := by
  rw [toBeBytes, List.cons_append, List.singleton_append, takeWord,
    fromBeBytes_toBeBytes]

theorem takeExact_eq_some_iff {n : ℕ} {bs s rest : List UInt8} :
    takeExact n bs = some (s, rest) ↔ bs = s ++ rest ∧ s.length = n := by
  unfold takeExact
  constructor
  · intro h
    split at h
    next hle =>
      obtain ⟨rfl, rfl⟩ := Prod.mk.inj (Option.some.inj h)
      exact ⟨(List.take_append_drop n bs).symm,
        List.length_take_of_le hle⟩
    · cases h
  · rintro ⟨rfl, rfl⟩
    simp

@[simp] theorem takeExact_append (s bs : List UInt8) :
    takeExact s.length (s ++ bs) = some (s, bs) :=
  takeExact_eq_some_iff.mpr ⟨rfl, rfl⟩

theorem takeCounted_append {n : UInt16} {s : List UInt8}
    (hn : n.toNat = s.length) (bs : List UInt8) :
    takeCounted (toBeBytes n ++ (s ++ bs)) = some (s, bs) := by
  simp [takeCounted, hn]

/-- A word counts fewer than 65536 bytes. -/
theorem length_lt_of_takeCounted {bs s rest : List UInt8}
    (h : takeCounted bs = some (s, rest)) : s.length < 65536 := by
  obtain ⟨⟨n, bs'⟩, -, hexact⟩ := Option.bind_eq_some_iff.mp h
  obtain ⟨-, hlength⟩ := takeExact_eq_some_iff.mp hexact
  rw [hlength]
  exact n.toNat_lt

end Wire
