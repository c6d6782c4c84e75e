import KnockKnock.Support.Wire
import Mathlib.Algebra.Ring.Nat

/-!
# Words behind counting bytes

Every word stands behind a byte with its length, and a zero byte ends the
sequence.  An empty word would be taken for the end, and a long one would not
be counted; any other sequence is read back.
-/

namespace Counted

open Wire

variable {word bs rest : List UInt8} {words : List (List UInt8)}

def encode (words : List (List UInt8)) : List UInt8 :=
  words.flatMap (fun word => UInt8.ofNat word.length :: word) ++ [0]

/-- The words up to the first zero byte that counts, and what is behind it. -/
def decode : List UInt8 → Option (List (List UInt8) × List UInt8)
  | [] => none
  | n :: bs =>
      if n = 0 then some ([], bs)
      else
        match _ : takeExact n.toNat bs with
        | none => none
        | some (word, bs) =>
            (decode bs).map fun (words, rest) => (word :: words, rest)
termination_by bs => bs.length
decreasing_by
  obtain ⟨hbs, -⟩ := takeExact_eq_some_iff.mp ‹_›
  rw [hbs, List.length_cons, List.length_append]
  omega

theorem length_encode (words : List (List UInt8)) :
    (encode words).length =
      (words.map fun word => word.length + 1).sum + 1 := by
  rw [encode, List.length_append, List.length_flatMap]
  rfl

/-- A word that its byte counts, and that is not taken for the end. -/
def Fits (word : List UInt8) : Prop := word ≠ [] ∧ word.length < 256

theorem decode_zero (bs : List UInt8) : decode (0 :: bs) = some ([], bs) := by
  rw [decode, if_pos rfl]

theorem decode_word (h : Fits word) (bs : List UInt8) :
    decode (UInt8.ofNat word.length :: (word ++ bs)) =
      (decode bs).map fun (words, rest) => (word :: words, rest) := by
  have hcount : (UInt8.ofNat word.length).toNat = word.length :=
    ofNat_toNat_byte h.2
  have hne : UInt8.ofNat word.length ≠ 0 := by
    intro hzero
    rw [hzero] at hcount
    exact h.1 (List.eq_nil_of_length_eq_zero hcount.symm)
  have htake : takeExact (UInt8.ofNat word.length).toNat (word ++ bs) =
      some (word, bs) := takeExact_eq_some_iff.mpr ⟨rfl, hcount.symm⟩
  rw [decode, if_neg hne]
  split
  next hnone => exact absurd (hnone.symm.trans htake) (by rintro ⟨⟩)
  next hsome =>
    obtain ⟨rfl, rfl⟩ := Prod.mk.inj (Option.some.inj (hsome.symm.trans htake))
    rfl

/-- Any sequence of words that fit is read back. -/
theorem decode_encode_append (h : ∀ word ∈ words, Fits word)
    (rest : List UInt8) : decode (encode words ++ rest) = some (words, rest) := by
  induction words with
  | nil => exact decode_zero rest
  | cons word words ih =>
      obtain ⟨hword, hwords⟩ := List.forall_mem_cons.mp h
      have hencode : encode (word :: words) ++ rest =
          UInt8.ofNat word.length :: (word ++ (encode words ++ rest)) := by
        simp [encode]
      rw [hencode, decode_word hword, ih hwords]
      rfl

/-- What is read back encodes to the bytes it was read from. -/
theorem encode_append_of_decode (h : decode bs = some (words, rest)) :
    encode words ++ rest = bs := by
  fun_induction decode bs generalizing words rest with
  | case1 => cases h
  | case2 bs =>
      obtain ⟨rfl, rfl⟩ := Prod.mk.inj (Option.some.inj h)
      rfl
  | case3 n bs hn hnone => cases h
  | case4 n bs hn word behind hsome ih =>
      obtain ⟨⟨words', rest'⟩, hbehind, hpair⟩ := Option.map_eq_some_iff.mp h
      obtain ⟨rfl, rfl⟩ := Prod.mk.inj hpair
      obtain ⟨rfl, hlength⟩ := takeExact_eq_some_iff.mp hsome
      have hcount : UInt8.ofNat word.length = n := by
        rw [hlength, UInt8.ofNat_toNat]
      rw [← ih hbehind, ← hcount]
      simp [encode]

end Counted
