import KnockKnock.Support.Spans
import Mathlib.Data.Nat.Basic

/-!
# Decimal numerals as text

`parseI32` follows the standard library's `str::parse::<i32>`: an optional
sign, then at least one ASCII digit, with the first offending character
deciding which error is reported.  `decimal` is the text `{}` prints for an
unsigned number.
-/

namespace Numeral

/-- Why a text is not an `i32` (`std::num::IntErrorKind`). -/
inductive IntErrorKind where
  | empty
  | invalidDigit
  | posOverflow
  | negOverflow
deriving DecidableEq, Repr

/-- Read digits on top of the accumulator `acc`; `overflow` is reported as
soon as the number exceeds `bound`. -/
def readDigits (bound : ℕ) (overflow : IntErrorKind) :
    ℕ → List Char → Except IntErrorKind ℕ
  | acc, [] => .ok acc
  | acc, c :: cs =>
      if c.isDigit then
        let value := 10 * acc + (c.toNat - '0'.toNat)
        if value ≤ bound then readDigits bound overflow value cs
        else .error overflow
      else .error .invalidDigit

/-- `text.parse::<i32>()` -/
def parseI32 (text : List Char) : Except IntErrorKind ℤ :=
  match text with
  | [] => .error .empty
  | ['+'] | ['-'] => .error .invalidDigit
  | '+' :: digits =>
      (readDigits 2147483647 .posOverflow 0 digits).map Int.ofNat
  | '-' :: digits =>
      (readDigits 2147483648 .negOverflow 0 digits).map fun n => -(n : ℤ)
  | digits => (readDigits 2147483647 .posOverflow 0 digits).map Int.ofNat

/-- The number a digit text denotes. -/
def value (text : List Char) : ℕ := Nat.ofDigitChars 10 text 0

/-- `format!("{n}")` -/
def decimal (n : ℕ) : List Char := Nat.toDigits 10 n

/-- `format!("{n:#x}")` -/
def hex (n : ℕ) : List Char := "0x".toList ++ Nat.toDigits 16 n

/-- `format!("{n:#0width$x}")`: the width counts the `0x`. -/
def hexPadded (width n : ℕ) : List Char :=
  let digits := Nat.toDigits 16 n
  "0x".toList ++ (List.replicate (width - 2 - digits.length) '0' ++ digits)

/-- A nonempty run of ASCII digits. -/
def IsDigits (text : List Char) : Prop :=
  text ≠ [] ∧ ∀ c ∈ text, c.isDigit = true

instance (text : List Char) : Decidable (IsDigits text) :=
  inferInstanceAs (Decidable (_ ∧ _))

theorem ofDigitChars_ge (text : List Char) (acc : ℕ) :
    acc ≤ Nat.ofDigitChars 10 text acc := by
  induction text generalizing acc with
  | nil => simp
  | cons c text ih =>
      rw [Nat.ofDigitChars_cons]
      exact le_trans (by omega) (ih _)

/-- On digits alone, reading succeeds exactly up to the bound. -/
theorem readDigits_of_digits {bound : ℕ} {overflow : IntErrorKind}
    {text : List Char} (htext : ∀ c ∈ text, c.isDigit = true)
    {acc : ℕ} (hacc : acc ≤ bound) :
    readDigits bound overflow acc text =
      if Nat.ofDigitChars 10 text acc ≤ bound
      then .ok (Nat.ofDigitChars 10 text acc) else .error overflow := by
  induction text generalizing acc with
  | nil => simp [readDigits, hacc]
  | cons c text ih =>
      have hc : c.isDigit = true := htext c (by simp)
      have hcs : ∀ d ∈ text, d.isDigit = true :=
        fun d hd => htext d (List.mem_cons_of_mem _ hd)
      rw [Nat.ofDigitChars_cons]
      simp only [readDigits, hc, if_true]
      by_cases hv : 10 * acc + (c.toNat - '0'.toNat) ≤ bound
      · rw [if_pos hv]
        exact ih hcs hv
      · have hge := ofDigitChars_ge text (10 * acc + (c.toNat - '0'.toNat))
        rw [if_neg hv, if_neg (by omega)]

theorem isDigit_of_readDigits {bound : ℕ} {overflow : IntErrorKind}
    {text : List Char} {acc n : ℕ}
    (h : readDigits bound overflow acc text = .ok n) :
    ∀ c ∈ text, c.isDigit = true := by
  induction text generalizing acc with
  | nil => simp
  | cons c text ih =>
      simp only [readDigits] at h
      split at h
      next hc =>
        split at h
        · intro d hd
          rcases List.mem_cons.mp hd with rfl | hd
          · exact hc
          · exact ih h d hd
        · cases h
      · cases h

/-- The texts without a sign that parse as an `i32`. -/
theorem parseI32_eq_ok_iff {text : List Char}
    (hplus : text.head? ≠ some '+') (hminus : text.head? ≠ some '-')
    {n : ℤ} :
    parseI32 text = .ok n ↔
      IsDigits text ∧ value text ≤ 2147483647 ∧ n = value text := by
  have hunsigned : text ≠ [] → parseI32 text =
      (readDigits 2147483647 .posOverflow 0 text).map Int.ofNat := by
    intro hne
    unfold parseI32
    split
    · exact absurd rfl hne
    · simp at hplus
    · simp at hminus
    · simp at hplus
    · simp at hminus
    · rfl
  constructor
  · intro h
    have hne : text ≠ [] := by
      rintro rfl
      cases h
    rw [hunsigned hne] at h
    cases hread : readDigits 2147483647 .posOverflow 0 text with
    | error e =>
        rw [hread] at h
        cases h
    | ok m =>
        have hdigits := isDigit_of_readDigits hread
        rw [hread] at h
        rw [readDigits_of_digits hdigits (by omega)] at hread
        split at hread
        next hle =>
          cases hread
          cases h
          exact ⟨⟨hne, hdigits⟩, hle, rfl⟩
        · cases hread
  · rintro ⟨⟨hne, hdigits⟩, hle, rfl⟩
    rw [hunsigned hne, readDigits_of_digits hdigits (by omega)]
    unfold value at hle ⊢
    rw [if_pos hle]
    rfl

/-! ## Printed numbers -/

@[simp] theorem value_decimal (n : ℕ) : value (decimal n) = n :=
  Nat.ofDigitChars_ten_toDigits

theorem decimal_injective : Function.Injective decimal := by
  intro m n h
  rw [← value_decimal m, h, value_decimal]

theorem isDigit_of_mem_decimal {n : ℕ} {c : Char} (hc : c ∈ decimal n) :
    c.isDigit = true :=
  Nat.isDigit_of_mem_toDigits (by decide) (by decide) hc

theorem decimal_ne_nil (n : ℕ) : decimal n ≠ [] := by
  unfold decimal
  rw [Nat.toDigits_eq_if (by decide)]
  split <;> simp

theorem isDigits_decimal (n : ℕ) : IsDigits (decimal n) :=
  ⟨decimal_ne_nil n, fun _ => isDigit_of_mem_decimal⟩

end Numeral
