import Mathlib
import KnockKnock.Support.Wire

/-!
# Base-128 numbers

A number is written in digits of seven bits, the least significant first; the
top bit of a byte says that another digit follows.  A number has many such
spellings, of which `encode` gives the shortest.
-/

namespace Varint

open Wire

/-- Digits that continue, and a last one that does not. -/
def Digits (digits : List UInt8) : Prop :=
  ∃ front last, digits = front ++ [last] ∧
    (∀ b ∈ front, 128 ≤ b.toNat) ∧ last.toNat < 128

/-- The number that digits denote. -/
def value : List UInt8 → ℕ
  | [] => 0
  | b :: digits => b.toNat % 128 + 128 * value digits

/-- Read at most `limit` digits. -/
def take : ℕ → List UInt8 → Option (ℕ × List UInt8)
  | 0, _ => none
  | _, [] => none
  | limit + 1, b :: bs =>
      if b.toNat < 128 then some (b.toNat, bs)
      else (take limit bs).map fun (v, rest) => (b.toNat % 128 + 128 * v, rest)

/-- The shortest digits of `n`. -/
def encode (n : ℕ) : List UInt8 :=
  if n < 128 then [UInt8.ofNat n]
  else UInt8.ofNat (n % 128 + 128) :: encode (n / 128)
termination_by n

theorem digits_singleton {b : UInt8} (hb : b.toNat < 128) : Digits [b] :=
  ⟨[], b, rfl, by simp, hb⟩

theorem digits_cons_iff {b : UInt8} {digits : List UInt8}
    (hne : digits ≠ []) :
    Digits (b :: digits) ↔ 128 ≤ b.toNat ∧ Digits digits := by
  constructor
  · rintro ⟨_ | ⟨c, front⟩, last, heq, hfront, hlast⟩
    · exact absurd (List.cons.inj heq).2 hne
    · obtain ⟨rfl, rfl⟩ := List.cons.inj heq
      exact ⟨hfront b (by simp), front, last, rfl,
        fun c hc => hfront c (List.mem_cons_of_mem _ hc), hlast⟩
  · rintro ⟨hb, front, last, rfl, hfront, hlast⟩
    refine ⟨b :: front, last, rfl, ?_, hlast⟩
    intro c hc
    rcases List.mem_cons.mp hc with rfl | hc
    · exact hb
    · exact hfront c hc

theorem Digits.ne_nil {digits : List UInt8} (h : Digits digits) :
    digits ≠ [] := by
  obtain ⟨front, last, rfl, -⟩ := h
  simp

/-- Reading finds the digits at the front, if they are not too many. -/
theorem take_eq_some_iff {limit v : ℕ} {bs rest : List UInt8} :
    take limit bs = some (v, rest) ↔
      ∃ digits, bs = digits ++ rest ∧ Digits digits ∧
        digits.length ≤ limit ∧ value digits = v := by
  induction limit generalizing bs v with
  | zero =>
      constructor
      · simp [take]
      · rintro ⟨digits, -, hdigits, hle, -⟩
        exact absurd (List.eq_nil_of_length_eq_zero (Nat.le_zero.mp hle))
          hdigits.ne_nil
  | succ limit ih =>
      cases bs with
      | nil =>
          constructor
          · simp [take]
          · rintro ⟨digits, hnil, hdigits, -⟩
            exact absurd (List.append_eq_nil_iff.mp hnil.symm).1
              hdigits.ne_nil
      | cons b bs =>
          by_cases hb : b.toNat < 128
          · constructor
            · intro h
              simp only [take, hb, if_true, Option.some.injEq,
                Prod.mk.injEq] at h
              obtain ⟨rfl, rfl⟩ := h
              refine ⟨[b], rfl, digits_singleton hb, by simp, ?_⟩
              simp [value, Nat.mod_eq_of_lt hb]
            · rintro ⟨digits, heq, hdigits, -, rfl⟩
              obtain ⟨d, digits, rfl⟩ :=
                List.exists_cons_of_ne_nil hdigits.ne_nil
              obtain ⟨rfl, rfl⟩ := List.cons.inj heq
              have hnil : digits = [] := by
                by_contra hne
                have hle := ((digits_cons_iff hne).mp hdigits).1
                omega
              subst hnil
              simp [take, hb, value, Nat.mod_eq_of_lt hb]
          · constructor
            · intro h
              simp only [take, hb, if_false, Option.map_eq_some_iff,
                Prod.mk.injEq, Prod.exists] at h
              obtain ⟨v', rest', htake, rfl, rfl⟩ := h
              obtain ⟨digits, rfl, hdigits, hle, rfl⟩ := ih.mp htake
              exact ⟨b :: digits, rfl, (digits_cons_iff hdigits.ne_nil).mpr
                ⟨by omega, hdigits⟩, by simpa using hle, rfl⟩
            · rintro ⟨digits, heq, hdigits, hle, rfl⟩
              obtain ⟨d, digits, rfl⟩ :=
                List.exists_cons_of_ne_nil hdigits.ne_nil
              obtain ⟨rfl, rfl⟩ := List.cons.inj heq
              have hne : digits ≠ [] := by
                rintro rfl
                obtain ⟨front, last, hlast, -, hlt⟩ := hdigits
                obtain rfl : front = [] := by
                  simpa using congrArg List.length hlast
                obtain rfl : b = last := by simpa using hlast
                exact hb hlt
              have htake := ih.mpr ⟨digits, rfl,
                ((digits_cons_iff hne).mp hdigits).2, by simpa using hle,
                rfl⟩
              simp [take, hb, htake, value]

/-! ## The shortest spelling -/

theorem digits_encode (n : ℕ) : Digits (encode n) := by
  fun_induction encode n with
  | case1 n h =>
      exact digits_singleton (by rw [ofNat_toNat_byte (by omega)]; exact h)
  | case2 n h ih =>
      refine (digits_cons_iff ih.ne_nil).mpr ⟨?_, ih⟩
      rw [ofNat_toNat_byte (by omega)]
      omega

@[simp] theorem value_encode (n : ℕ) : value (encode n) = n := by
  fun_induction encode n with
  | case1 n h =>
      simp only [value, ofNat_toNat_byte (show n < 256 by omega)]
      omega
  | case2 n h ih =>
      simp only [value, ih,
        ofNat_toNat_byte (show n % 128 + 128 < 256 by omega)]
      omega

/-- A number below `128 ^ limit` needs at most `limit` digits. -/
theorem length_encode_le {n limit : ℕ} (hpos : 0 < limit)
    (h : n < 128 ^ limit) : (encode n).length ≤ limit := by
  fun_induction encode n generalizing limit with
  | case1 n hn => exact hpos
  | case2 n hn ih =>
      obtain ⟨k, rfl⟩ : ∃ k, limit = k + 1 := ⟨limit - 1, by omega⟩
      have hk : k ≠ 0 := by
        rintro rfl
        omega
      have hdiv : n / 128 < 128 ^ k :=
        Nat.div_lt_of_lt_mul (by rw [← Nat.pow_succ']; exact h)
      exact Nat.succ_le_succ (ih (Nat.pos_of_ne_zero hk) hdiv)

theorem value_lt (digits : List UInt8) :
    value digits < 128 ^ digits.length := by
  induction digits with
  | nil => simp [value]
  | cons b digits ih =>
      rw [value, List.length_cons, Nat.pow_succ]
      have hb : b.toNat % 128 < 128 := Nat.mod_lt _ (by decide)
      omega

/-- No spelling of a number is shorter than its encoding. -/
theorem length_encode_value_le {digits : List UInt8} (h : Digits digits) :
    (encode (value digits)).length ≤ digits.length :=
  length_encode_le (List.length_pos_of_ne_nil h.ne_nil) (value_lt digits)

/-- A number from `128 ^ limit` on has more than `limit` digits. -/
theorem exists_front_encode {n limit : ℕ} (h : 128 ^ limit ≤ n) :
    ∃ front back, encode n = front ++ back ∧ front.length = limit ∧
      ∀ b ∈ front, 128 ≤ b.toNat := by
  induction limit generalizing n with
  | zero => exact ⟨[], encode n, by simp⟩
  | succ limit ih =>
      have hpos : 0 < 128 ^ limit := Nat.pow_pos (by decide)
      rw [Nat.pow_succ] at h
      have hdiv : 128 ^ limit ≤ n / 128 :=
        (Nat.le_div_iff_mul_le (by decide)).mpr h
      obtain ⟨front, back, heq, hlength, hfront⟩ := ih hdiv
      refine ⟨UInt8.ofNat (n % 128 + 128) :: front, back, ?_, by simp [hlength],
        ?_⟩
      · rw [encode, if_neg (by omega), heq, List.cons_append]
      · intro b hb
        rcases List.mem_cons.mp hb with rfl | hb
        · rw [ofNat_toNat_byte (by omega)]
          omega
        · exact hfront b hb

theorem take_encode {n limit : ℕ} (hpos : 0 < limit) (h : n < 128 ^ limit)
    (rest : List UInt8) : take limit (encode n ++ rest) = some (n, rest) :=
  take_eq_some_iff.mpr ⟨encode n, rfl, digits_encode n,
    length_encode_le hpos h, value_encode n⟩

end Varint
