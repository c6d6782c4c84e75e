import Mathlib
import KnockKnock.Support.Wire

/-!
# UTF-8

`decode` reads bytes one at a time.  It reports every maximal ill-formed
sequence as one missing character, which the lossy conversion replaces by
U+FFFD and the strict conversion refuses.
-/

namespace Utf8

open Wire

/-- The bytes of a text. -/
def encode (s : List Char) : List UInt8 := s.flatMap String.utf8EncodeChar

/-! ## The decoder -/

/-- A character of which the bytes read so far give `value`.  The next byte
has to lie between `low` and `high`, and `owed` more follow it.  Whatever they
are, the character is a scalar value that needs more than one byte. -/
structure Pending where
  value : ℕ
  owed : ℕ
  low : ℕ
  high : ℕ
  least : 0x80 ≤ (value * 64 + (low - 0x80)) * 64 ^ owed
  scalar : (value * 64 + (high - 0x80) + 1) * 64 ^ owed ≤ 0xD800 ∨
    0xE000 ≤ (value * 64 + (low - 0x80)) * 64 ^ owed ∧
      (value * 64 + (high - 0x80) + 1) * 64 ^ owed ≤ 0x110000

/-- The characters that begin with the byte `b`. -/
def lead (b : ℕ) : Option Pending :=
  if h : 0xC2 ≤ b ∧ b ≤ 0xDF then
    some ⟨b - 0xC0, 0, 0x80, 0xBF, by omega, by omega⟩
  else if h : 0xE0 ≤ b ∧ b ≤ 0xEF then
    some ⟨b - 0xE0, 1, if b = 0xE0 then 0xA0 else 0x80,
      if b = 0xED then 0x9F else 0xBF,
      by split_ifs <;> omega, by split_ifs <;> omega⟩
  else if h : 0xF0 ≤ b ∧ b ≤ 0xF4 then
    some ⟨b - 0xF0, 2, if b = 0xF0 then 0x90 else 0x80,
      if b = 0xF4 then 0x8F else 0xBF,
      by split_ifs <;> omega, by split_ifs <;> omega⟩
  else none

/-- A byte between two characters: what it completes, and what it begins. -/
def first (b : UInt8) : List (Option Char) × Option Pending :=
  if b.toNat < 0x80 then ([some (Char.ofNat b.toNat)], none)
  else
    match lead b.toNat with
    | some p => ([], some p)
    | none => ([none], none)

/-- A byte in range that is not the last one of its character. -/
def Pending.next (p : Pending) (b : ℕ) (h : p.low ≤ b ∧ b ≤ p.high)
    (howed : p.owed ≠ 0) : Pending where
  value := p.value * 64 + (b - 0x80)
  owed := p.owed - 1
  low := 0x80
  high := 0xBF
  least := by
    obtain ⟨k, hk⟩ := Nat.exists_eq_succ_of_ne_zero howed
    have hk' : p.owed - 1 = k := by omega
    have hleast := p.least
    rw [hk, Nat.succ_eq_add_one, Nat.pow_succ'] at hleast
    calc
      0x80 ≤ (p.value * 64 + (p.low - 0x80)) * (64 * 64 ^ k) := hleast
      _ ≤ (p.value * 64 + (b - 0x80)) * (64 * 64 ^ k) :=
        Nat.mul_le_mul_right _ (by omega)
      _ = _ := by rw [hk', ← Nat.mul_assoc, Nat.sub_self, Nat.add_zero]
  scalar := by
    obtain ⟨k, hk⟩ := Nat.exists_eq_succ_of_ne_zero howed
    have hk' : p.owed - 1 = k := by omega
    have hscalar := p.scalar
    rw [hk, Nat.succ_eq_add_one, Nat.pow_succ'] at hscalar
    have hfloor : (p.value * 64 + (p.low - 0x80)) * (64 * 64 ^ k) ≤
        ((p.value * 64 + (b - 0x80)) * 64 + (0x80 - 0x80)) *
          64 ^ (p.owed - 1) := by
      calc
        _ ≤ (p.value * 64 + (b - 0x80)) * (64 * 64 ^ k) :=
          Nat.mul_le_mul_right _ (by omega)
        _ = _ := by rw [hk', ← Nat.mul_assoc, Nat.sub_self, Nat.add_zero]
    have hceiling : ((p.value * 64 + (b - 0x80)) * 64 + (0xBF - 0x80) + 1) *
          64 ^ (p.owed - 1) ≤
        (p.value * 64 + (p.high - 0x80) + 1) * (64 * 64 ^ k) := by
      have hcarry : (p.value * 64 + (b - 0x80)) * 64 + (0xBF - 0x80) + 1 =
          (p.value * 64 + (b - 0x80) + 1) * 64 := by omega
      calc
        _ = (p.value * 64 + (b - 0x80) + 1) * (64 * 64 ^ k) := by
          rw [hk', hcarry, Nat.mul_assoc]
        _ ≤ _ := Nat.mul_le_mul_right _ (by omega)
    rcases hscalar with hbelow | ⟨habove, hbelow⟩
    · exact Or.inl (Nat.le_trans hceiling hbelow)
    · exact Or.inr
        ⟨Nat.le_trans habove hfloor, Nat.le_trans hceiling hbelow⟩

theorem Pending.next_owed (p : Pending) {b : ℕ}
    (h : p.low ≤ b ∧ b ≤ p.high) (howed : p.owed ≠ 0) :
    (p.next b h howed).owed = p.owed - 1 := rfl

/-- One byte: the characters it completes, and the one it leaves pending. -/
def step : Option Pending → UInt8 → List (Option Char) × Option Pending
  | none, b => first b
  | some p, b =>
      if h : p.low ≤ b.toNat ∧ b.toNat ≤ p.high then
        if howed : p.owed = 0 then
          ([some (Char.ofNat (p.value * 64 + (b.toNat - 0x80)))], none)
        else ([], some (p.next b.toNat h howed))
      else (none :: (first b).1, (first b).2)

def decodeFrom : Option Pending → List UInt8 → List (Option Char)
  | none, [] => []
  | some _, [] => [none]
  | pending, b :: bs =>
      (step pending b).1 ++ decodeFrom (step pending b).2 bs

/-- The characters of a byte string, `none` for an ill-formed sequence. -/
def decode (bs : List UInt8) : List (Option Char) := decodeFrom none bs

/-- `String::from_utf8_lossy(bs)` -/
def lossy (bs : List UInt8) : List Char :=
  (decode bs).map (·.getD '\uFFFD')

/-- All entries, if none is missing. -/
def present {α : Type} : List (Option α) → Option (List α)
  | [] => some []
  | o :: os => do
      let a ← o
      let as ← present os
      pure (a :: as)

/-- `std::str::from_utf8(bs)` -/
def fromUtf8 (bs : List UInt8) : Option (List Char) := present (decode bs)

theorem decodeFrom_cons (pending : Option Pending) (b : UInt8)
    (bs : List UInt8) :
    decodeFrom pending (b :: bs) =
      (step pending b).1 ++ decodeFrom (step pending b).2 bs := by
  cases pending <;> rfl

theorem step_last {p : Pending} {b : UInt8}
    (h : p.low ≤ b.toNat ∧ b.toNat ≤ p.high) (howed : p.owed = 0) :
    step (some p) b =
      ([some (Char.ofNat (p.value * 64 + (b.toNat - 0x80)))], none) := by
  rw [step, dif_pos h, dif_pos howed]

theorem step_next {p : Pending} {b : UInt8}
    (h : p.low ≤ b.toNat ∧ b.toNat ≤ p.high) (howed : p.owed ≠ 0) :
    step (some p) b = ([], some (p.next b.toNat h howed)) := by
  rw [step, dif_pos h, dif_neg howed]

theorem step_out {p : Pending} {b : UInt8}
    (h : ¬(p.low ≤ b.toNat ∧ b.toNat ≤ p.high)) :
    step (some p) b = (none :: (first b).1, (first b).2) := by
  rw [step, dif_neg h]

/-! ## ASCII -/

theorem decode_cons_ascii {b : UInt8} (hb : b.toNat < 0x80)
    (bs : List UInt8) :
    decode (b :: bs) = some (Char.ofNat b.toNat) :: decode bs := by
  simp [decode, decodeFrom, step, first, hb]

theorem toNat_ofNat_of_scalar {n : ℕ}
    (h : n < 0xD800 ∨ 0xE000 ≤ n ∧ n < 0x110000) :
    (Char.ofNat n).toNat = n := by
  have hvalid : n.isValidChar := by
    unfold Nat.isValidChar
    omega
  rw [Char.ofNat, dif_pos hvalid]
  rfl

/-- A pending character completes to no ASCII character. -/
theorem not_ascii_of_pending (p : Pending) (bs : List UInt8) :
    ∀ c, (decodeFrom (some p) bs).head? = some (some c) → 0x80 ≤ c.toNat := by
  induction bs generalizing p with
  | nil => simp [decodeFrom]
  | cons b bs ih =>
      intro c hc
      rw [decodeFrom_cons] at hc
      by_cases h : p.low ≤ b.toNat ∧ b.toNat ≤ p.high
      · by_cases howed : p.owed = 0
        · rw [step_last h howed] at hc
          have hchar : Char.ofNat (p.value * 64 + (b.toNat - 0x80)) = c := by
            simpa using hc
          have hleast := p.least
          have hscalar := p.scalar
          rw [howed] at hleast hscalar
          rw [← hchar, toNat_ofNat_of_scalar (by omega)]
          omega
        · rw [step_next h howed] at hc
          exact ih _ c hc
      · rw [step_out h] at hc
        simp at hc

/-- An ASCII character at the front of the decoded text is the first byte. -/
theorem decode_head_ascii {bs : List UInt8} {c : Char}
    {os : List (Option Char)} (hc : c.toNat < 0x80)
    (h : decode bs = some c :: os) :
    ∃ bs', bs = UInt8.ofNat c.toNat :: bs' ∧ decode bs' = os := by
  cases bs with
  | nil => simp [decode, decodeFrom] at h
  | cons b bs =>
      by_cases hb : b.toNat < 0x80
      · rw [decode_cons_ascii hb] at h
        obtain ⟨hchar, hrest⟩ := List.cons.inj h
        have hbyte : b.toNat = c.toNat := by
          rw [← Option.some.inj hchar, toNat_ofNat_of_scalar (by omega)]
        exact ⟨bs, by rw [← hbyte, UInt8.ofNat_toNat], hrest⟩
      · rw [decode, decodeFrom_cons, step, first, if_neg hb] at h
        cases hlead : lead b.toNat with
        | none => simp [hlead] at h
        | some p =>
            rw [hlead] at h
            have hhead : (decodeFrom (some p) bs).head? = some (some c) := by
              simpa using congrArg List.head? h
            have hle := not_ascii_of_pending p bs c hhead
            omega

theorem encodeChar_ascii {c : Char} (hc : c.toNat < 0x80) :
    String.utf8EncodeChar c = [UInt8.ofNat c.toNat] := by
  unfold String.utf8EncodeChar
  change c.val.toNat < 0x80 at hc
  exact if_pos (by omega)

/-- ASCII text at the front of a decoded byte string is its first bytes. -/
theorem encode_prefix_of_lossy {word : List Char}
    (hword : ∀ c ∈ word, c.toNat < 0x80) {bs : List UInt8}
    (h : word <+: lossy bs) : encode word <+: bs := by
  induction word generalizing bs with
  | nil => exact List.nil_prefix
  | cons c word ih =>
      have hc : c.toNat < 0x80 := hword c (by simp)
      unfold lossy at h
      cases hdecode : decode bs with
      | nil => simp [hdecode] at h
      | cons o os =>
          rw [hdecode, List.map_cons, List.cons_prefix_cons] at h
          obtain ⟨hhead, htail⟩ := h
          have ho : o = some c := by
            cases o with
            | some d => rw [hhead]; rfl
            | none =>
                rw [hhead] at hc
                exact absurd hc (by decide)
          subst ho
          obtain ⟨bs', rfl, rfl⟩ := decode_head_ascii hc hdecode
          have hrest := ih (fun d hd => hword d (List.mem_cons_of_mem _ hd))
            htail
          rw [encode, List.flatMap_cons, encodeChar_ascii hc]
          exact List.cons_prefix_cons.mpr ⟨rfl, hrest⟩

/-! ## Decoding what was encoded -/

theorem lead_two {b : ℕ} (h : 0xC2 ≤ b ∧ b ≤ 0xDF) :
    ∃ p, lead b = some p ∧ p.value = b - 0xC0 ∧ p.owed = 0 ∧
      p.low = 0x80 ∧ p.high = 0xBF := by
  unfold lead
  rw [dif_pos h]
  exact ⟨_, rfl, rfl, rfl, rfl, rfl⟩

theorem lead_three {b : ℕ} (h : 0xE0 ≤ b ∧ b ≤ 0xEF) :
    ∃ p, lead b = some p ∧ p.value = b - 0xE0 ∧ p.owed = 1 ∧
      p.low = (if b = 0xE0 then 0xA0 else 0x80) ∧
      p.high = (if b = 0xED then 0x9F else 0xBF) := by
  unfold lead
  rw [dif_neg (by omega), dif_pos h]
  exact ⟨_, rfl, rfl, rfl, rfl, rfl⟩

theorem lead_four {b : ℕ} (h : 0xF0 ≤ b ∧ b ≤ 0xF4) :
    ∃ p, lead b = some p ∧ p.value = b - 0xF0 ∧ p.owed = 2 ∧
      p.low = (if b = 0xF0 then 0x90 else 0x80) ∧
      p.high = (if b = 0xF4 then 0x8F else 0xBF) := by
  unfold lead
  rw [dif_neg (by omega), dif_neg (by omega), dif_pos h]
  exact ⟨_, rfl, rfl, rfl, rfl, rfl⟩

theorem decode_cons_lead {b : UInt8} {p : Pending} (hb : 0x80 ≤ b.toNat)
    (hlead : lead b.toNat = some p) (bs : List UInt8) :
    decode (b :: bs) = decodeFrom (some p) bs := by
  rw [decode, decodeFrom_cons, step, first, if_neg (by omega), hlead]
  rfl

theorem decodeFrom_one {p : Pending} {b : UInt8}
    (h : p.low ≤ b.toNat ∧ b.toNat ≤ p.high) (howed : p.owed = 0)
    (bs : List UInt8) :
    decodeFrom (some p) (b :: bs) =
      some (Char.ofNat (p.value * 64 + (b.toNat - 0x80))) :: decode bs := by
  rw [decodeFrom_cons, step_last h howed]
  rfl

theorem decodeFrom_two {p : Pending} {b c : UInt8}
    (h : p.low ≤ b.toNat ∧ b.toNat ≤ p.high) (howed : p.owed = 1)
    (hc : 0x80 ≤ c.toNat ∧ c.toNat ≤ 0xBF) (bs : List UInt8) :
    decodeFrom (some p) (b :: c :: bs) =
      some (Char.ofNat ((p.value * 64 + (b.toNat - 0x80)) * 64 +
        (c.toNat - 0x80))) :: decode bs := by
  have howed' : p.owed ≠ 0 := by omega
  have hone := decodeFrom_one (p := p.next b.toNat h howed') hc
    (by rw [Pending.next_owed, howed]) bs
  rw [decodeFrom_cons, step_next h howed']
  exact hone

theorem decodeFrom_three {p : Pending} {b c d : UInt8}
    (h : p.low ≤ b.toNat ∧ b.toNat ≤ p.high) (howed : p.owed = 2)
    (hc : 0x80 ≤ c.toNat ∧ c.toNat ≤ 0xBF)
    (hd : 0x80 ≤ d.toNat ∧ d.toNat ≤ 0xBF) (bs : List UInt8) :
    decodeFrom (some p) (b :: c :: d :: bs) =
      some (Char.ofNat (((p.value * 64 + (b.toNat - 0x80)) * 64 +
        (c.toNat - 0x80)) * 64 + (d.toNat - 0x80))) :: decode bs := by
  have howed' : p.owed ≠ 0 := by omega
  have htwo := decodeFrom_two (p := p.next b.toNat h howed') hc
    (by rw [Pending.next_owed, howed]) hd bs
  rw [decodeFrom_cons, step_next h howed']
  exact htwo

/-- The decoder reads back each encoded character. -/
theorem decode_encodeChar (c : Char) (bs : List UInt8) :
    decode (String.utf8EncodeChar c ++ bs) = some c :: decode bs := by
  have hscalar : c.val.toNat < 0xD800 ∨
      0xE000 ≤ c.val.toNat ∧ c.val.toNat < 0x110000 := by
    rcases c.valid with h | h
    · exact Or.inl h
    · exact Or.inr ⟨Nat.lt_of_succ_le h.1, h.2⟩
  have hc : ∀ n, n = c.val.toNat → Char.ofNat n = c := by
    rintro n rfl
    exact Char.ofNat_toNat c
  unfold String.utf8EncodeChar
  dsimp only
  generalize c.val.toNat = v at hscalar hc
  split_ifs with h1 h2 h3
  · have hb := ofNat_toNat_byte (n := v) (by omega)
    rw [List.singleton_append, decode_cons_ascii (by omega), hb, hc v rfl]
  · have hb := ofNat_toNat_byte (n := v / 64 % 0x20 + 0xC0) (by omega)
    have hb₁ := ofNat_toNat_byte (n := v % 0x40 + 0x80) (by omega)
    obtain ⟨p, hlead, hvalue, howed, hlow, hhigh⟩ :=
      lead_two (b := v / 64 % 0x20 + 0xC0) (by omega)
    rw [List.cons_append, decode_cons_lead (by omega) (hb ▸ hlead),
      List.singleton_append, decodeFrom_one (by omega) howed]
    rw [hc _ (by omega)]
  · have hb := ofNat_toNat_byte (n := v / 4096 % 0x10 + 0xE0) (by omega)
    have hb₁ := ofNat_toNat_byte (n := v / 64 % 0x40 + 0x80) (by omega)
    have hb₂ := ofNat_toNat_byte (n := v % 0x40 + 0x80) (by omega)
    obtain ⟨p, hlead, hvalue, howed, hlow, hhigh⟩ :=
      lead_three (b := v / 4096 % 0x10 + 0xE0) (by omega)
    have hrange : p.low ≤ v / 64 % 0x40 + 0x80 ∧
        v / 64 % 0x40 + 0x80 ≤ p.high := by
      rw [hlow, hhigh]
      split_ifs <;> omega
    rw [List.cons_append, decode_cons_lead (by omega) (hb ▸ hlead),
      List.cons_append, List.singleton_append,
      decodeFrom_two (by omega) howed (by omega)]
    rw [hc _ (by omega)]
  · have hb := ofNat_toNat_byte (n := v / 262144 % 0x08 + 0xF0) (by omega)
    have hb₁ := ofNat_toNat_byte (n := v / 4096 % 0x40 + 0x80) (by omega)
    have hb₂ := ofNat_toNat_byte (n := v / 64 % 0x40 + 0x80) (by omega)
    have hb₃ := ofNat_toNat_byte (n := v % 0x40 + 0x80) (by omega)
    obtain ⟨p, hlead, hvalue, howed, hlow, hhigh⟩ :=
      lead_four (b := v / 262144 % 0x08 + 0xF0) (by omega)
    have hrange : p.low ≤ v / 4096 % 0x40 + 0x80 ∧
        v / 4096 % 0x40 + 0x80 ≤ p.high := by
      rw [hlow, hhigh]
      split_ifs <;> omega
    rw [List.cons_append, decode_cons_lead (by omega) (hb ▸ hlead),
      List.cons_append, List.cons_append, List.singleton_append,
      decodeFrom_three (by omega) howed (by omega) (by omega)]
    rw [hc _ (by omega)]

theorem decode_encode (s : List Char) : decode (encode s) = s.map some := by
  induction s with
  | nil => rfl
  | cons c s ih =>
      rw [encode, List.flatMap_cons, decode_encodeChar, ← encode, ih]
      rfl

theorem present_map_some {α : Type} (s : List α) :
    present (s.map some) = some s := by
  induction s with
  | nil => rfl
  | cons a s ih => simp [present, ih]

@[simp] theorem fromUtf8_encode (s : List Char) :
    fromUtf8 (encode s) = some s := by
  rw [fromUtf8, decode_encode, present_map_some]

theorem encode_injective : Function.Injective encode := by
  intro s t h
  have hdecoded : some s = some t := by
    rw [← fromUtf8_encode s, h, fromUtf8_encode]
  exact Option.some.inj hdecoded

@[simp] theorem encode_nil : encode [] = [] := rfl

@[simp] theorem encode_append (s t : List Char) :
    encode (s ++ t) = encode s ++ encode t :=
  List.flatMap_append

theorem encode_cons (c : Char) (s : List Char) :
    encode (c :: s) = String.utf8EncodeChar c ++ encode s := rfl

/-! ## The strict conversion and its errors -/

/-- `Utf8Error` -/
structure Error where
  /-- The length of the well-formed bytes in front. -/
  validUpTo : ℕ
  /-- The length of the ill-formed sequence, unless it is only cut off. -/
  errorLen : Option ℕ
deriving DecidableEq, Repr

/-- The first error behind `valid` bytes of whole characters and `pending`
bytes of the next one. -/
def errorFrom (valid pending : ℕ) :
    Option Pending → List UInt8 → Option Error
  | none, [] => none
  | some _, [] => some ⟨valid, none⟩
  | p, b :: bs =>
      match step p b with
      | ([], p) => errorFrom valid (pending + 1) p bs
      | (some _ :: _, p) => errorFrom (valid + pending + 1) 0 p bs
      | (none :: _, _) => some ⟨valid, some (max pending 1)⟩

/-- `std::str::from_utf8(bs)` -/
def validate (bs : List UInt8) : Except Error (List Char) :=
  match errorFrom 0 0 none bs with
  | some e => .error e
  | none => .ok (lossy bs)

/-- A byte completes a character, or leaves one pending, or is an error. -/
theorem step_cases (p : Option Pending) (b : UInt8) :
    (∃ c, step p b = ([some c], none)) ∨ (∃ q, step p b = ([], some q)) ∨
      ∃ os q, step p b = (none :: os, q) := by
  cases p with
  | none =>
      change (∃ c, first b = _) ∨ (∃ q, first b = _) ∨ ∃ os q, first b = _
      unfold first
      split
      · exact Or.inl ⟨_, rfl⟩
      · split
        · exact Or.inr (Or.inl ⟨_, rfl⟩)
        · exact Or.inr (Or.inr ⟨_, _, rfl⟩)
  | some p =>
      by_cases h : p.low ≤ b.toNat ∧ b.toNat ≤ p.high
      · by_cases howed : p.owed = 0
        · exact Or.inl ⟨_, step_last h howed⟩
        · exact Or.inr (Or.inl ⟨_, step_next h howed⟩)
      · exact Or.inr (Or.inr ⟨_, _, step_out h⟩)

theorem present_eq_some_iff {α : Type} {os : List (Option α)} {s : List α} :
    present os = some s ↔ os = s.map some := by
  constructor
  · intro h
    induction os generalizing s with
    | nil =>
        cases h
        rfl
    | cons o os ih =>
        obtain ⟨a, rfl, h⟩ := Option.bind_eq_some_iff.mp h
        obtain ⟨as, has, h⟩ := Option.bind_eq_some_iff.mp h
        cases h
        rw [ih has, List.map_cons]
  · rintro rfl
    exact present_map_some s

theorem errorFrom_eq_none_iff {bs : List UInt8} {p : Option Pending}
    {valid pending : ℕ} :
    errorFrom valid pending p bs = none ↔
      ∃ s : List Char, decodeFrom p bs = s.map some := by
  induction bs generalizing p valid pending with
  | nil =>
      cases p with
      | none => exact iff_of_true rfl ⟨[], rfl⟩
      | some p =>
          apply iff_of_false (by simp [errorFrom])
          rintro ⟨_ | ⟨c, s⟩, hs⟩ <;> cases hs
  | cons b bs ih =>
      have hcons : ∀ result, errorFrom valid pending p (b :: bs) = result ↔
          (match step p b with
            | ([], p) => errorFrom valid (pending + 1) p bs
            | (some _ :: _, p) => errorFrom (valid + pending + 1) 0 p bs
            | (none :: _, _) => some ⟨valid, some (max pending 1)⟩) =
              result := by
        intro result
        cases p <;> rfl
      rw [hcons, decodeFrom_cons]
      rcases step_cases p b with ⟨c, hstep⟩ | ⟨q, hstep⟩ | ⟨os, q, hstep⟩
      · rw [hstep]
        dsimp only
        rw [ih]
        constructor
        · rintro ⟨s, hs⟩
          exact ⟨c :: s, by rw [hs]; rfl⟩
        · rintro ⟨_ | ⟨d, s⟩, hs⟩
          · cases hs
          · exact ⟨s, (List.cons.inj hs).2⟩
      · rw [hstep]
        exact ih
      · rw [hstep]
        apply iff_of_false (by simp)
        rintro ⟨_ | ⟨c, s⟩, hs⟩
        · cases hs
        · cases (List.cons.inj hs).1

/-- The conversion succeeds on the bytes of a text. -/
theorem validate_eq_ok_iff {bs : List UInt8} {s : List Char} :
    validate bs = .ok s ↔ fromUtf8 bs = some s := by
  unfold validate
  rcases herror : errorFrom 0 0 none bs with _ | e
  · obtain ⟨t, ht⟩ := errorFrom_eq_none_iff.mp herror
    have hlossy : lossy bs = t := by
      rw [lossy, decode, ht, List.map_map]
      exact List.map_id t
    have hstrict : fromUtf8 bs = some t := present_eq_some_iff.mpr ht
    rw [hlossy, hstrict, Except.ok.injEq, Option.some.injEq]
  · apply iff_of_false (by simp)
    intro hs
    have hnone : errorFrom 0 0 none bs = none :=
      errorFrom_eq_none_iff.mpr ⟨s, present_eq_some_iff.mp hs⟩
    rw [herror] at hnone
    cases hnone

/-! ## Classes of characters and of bytes

A class of numbers that has all or none of those from `0x80` on does not
distinguish a character from the bytes that encode it. -/

section Classes

variable {q : ℕ → Bool} {v : Bool}

/-- A byte with the top bit set. -/
theorem high_ofNat {n : ℕ} (h : 0x80 ≤ n) (h' : n < 0x100) :
    0x80 ≤ (UInt8.ofNat n).toNat := by
  rw [ofNat_toNat_byte h']
  exact h

theorem high_of_mem_encodeChar {c : Char} (hc : 0x80 ≤ c.toNat) {b : UInt8}
    (hb : b ∈ String.utf8EncodeChar c) : 0x80 ≤ b.toNat := by
  have hscalar : c.val.toNat < 0x110000 := by
    rcases c.valid with h | h
    · exact Nat.lt_trans h (by decide)
    · exact h.2
  unfold String.utf8EncodeChar at hb
  change 0x80 ≤ c.val.toNat at hc
  dsimp only at hb
  generalize c.val.toNat = n at hb hc hscalar
  split_ifs at hb
  · omega
  all_goals
    simp only [List.mem_cons, List.not_mem_nil, or_false] at hb
  · rcases hb with rfl | rfl <;> exact high_ofNat (by omega) (by omega)
  · rcases hb with rfl | rfl | rfl <;> exact high_ofNat (by omega) (by omega)
  · rcases hb with rfl | rfl | rfl | rfl <;>
      exact high_ofNat (by omega) (by omega)

theorem class_of_mem_encodeChar (hq : ∀ n, 0x80 ≤ n → q n = q 0x80)
    {c : Char} {b : UInt8} (hb : b ∈ String.utf8EncodeChar c) :
    q b.toNat = q c.toNat := by
  by_cases hc : c.toNat < 0x80
  · rw [encodeChar_ascii hc, List.mem_singleton] at hb
    rw [hb, ofNat_toNat_byte (by omega)]
  · rw [hq _ (high_of_mem_encodeChar (by omega) hb), hq c.toNat (by omega)]

theorem encodeChar_ne_nil (c : Char) : String.utf8EncodeChar c ≠ [] := by
  unfold String.utf8EncodeChar
  dsimp only
  split_ifs <;> simp

theorem forall_encode_iff (hq : ∀ n, 0x80 ≤ n → q n = q 0x80)
    {s : List Char} :
    (∀ b ∈ encode s, q b.toNat = v) ↔ ∀ c ∈ s, q c.toNat = v := by
  constructor
  · intro h c hc
    obtain ⟨b, hb⟩ := List.exists_mem_of_ne_nil _ (encodeChar_ne_nil c)
    rw [← class_of_mem_encodeChar hq hb]
    exact h b (List.mem_flatMap.mpr ⟨c, hc, hb⟩)
  · intro h b hb
    obtain ⟨c, hc, hb⟩ := List.mem_flatMap.mp hb
    rw [class_of_mem_encodeChar hq hb]
    exact h c hc

theorem forall_head_encode_iff (hq : ∀ n, 0x80 ≤ n → q n = q 0x80)
    {s : List Char} :
    (∀ b ∈ (encode s).head?, q b.toNat = v) ↔
      ∀ c ∈ s.head?, q c.toNat = v := by
  cases s with
  | nil => simp
  | cons c s =>
      have hne := encodeChar_ne_nil c
      have hhead : (encode (c :: s)).head? =
          some ((String.utf8EncodeChar c).head hne) := by
        rw [encode_cons, List.head?_append_of_ne_nil _ hne,
          List.head?_eq_some_head hne]
      simp [hhead, class_of_mem_encodeChar hq (List.head_mem hne)]

theorem forall_getLast_encode_iff (hq : ∀ n, 0x80 ≤ n → q n = q 0x80)
    {s : List Char} :
    (∀ b ∈ (encode s).getLast?, q b.toNat = v) ↔
      ∀ c ∈ s.getLast?, q c.toNat = v := by
  rcases s.eq_nil_or_concat with rfl | ⟨init, c, rfl⟩
  · simp
  · rw [List.concat_eq_append]
    have hne := encodeChar_ne_nil c
    have hlast : (encode (init ++ [c])).getLast? =
        some ((String.utf8EncodeChar c).getLast hne) := by
      rw [encode_append, encode_cons, encode_nil, List.append_nil,
        List.getLast?_append_of_ne_nil _ hne,
        List.getLast?_eq_some_getLast hne]
    rw [hlast]
    simp [class_of_mem_encodeChar hq (List.getLast_mem hne)]

end Classes

/-! ## ASCII characters among others

No ill-formed sequence reaches over an ASCII character, so the decoder starts
afresh behind it. -/

section Ascii

variable {p : Option Pending} {b : UInt8} {bs rest : List UInt8}

/-- A pending character is continued by bytes with the top bit set. -/
def Continues (p : Option Pending) : Prop := ∀ q ∈ p, 0x80 ≤ q.low

theorem low_of_lead {n : ℕ} {q : Pending} (h : lead n = some q) :
    0x80 ≤ q.low := by
  unfold lead at h
  split_ifs at h <;> obtain rfl := Option.some.inj h <;> dsimp only <;> omega

theorem continues_first (b : UInt8) : Continues (first b).2 := by
  intro q hq
  unfold first at hq
  split at hq
  · simp at hq
  · split at hq
    next p hlead =>
      obtain rfl := Option.some.inj hq
      exact low_of_lead hlead
    · simp at hq

theorem continues_step (p : Option Pending) (b : UInt8) :
    Continues (step p b).2 := by
  cases p with
  | none => exact continues_first b
  | some p =>
      by_cases h : p.low ≤ b.toNat ∧ b.toNat ≤ p.high
      · by_cases howed : p.owed = 0
        · rw [step_last h howed]
          exact nofun
        · rw [step_next h howed]
          intro q hq
          obtain rfl := Option.some.inj hq
          exact Nat.le_refl 0x80
      · rw [step_out h]
        exact continues_first b

theorem decodeFrom_append_ascii (hp : Continues p) (hb : b.toNat < 0x80) :
    decodeFrom p (bs ++ b :: rest) =
      decodeFrom p bs ++ some (Char.ofNat b.toNat) :: decode rest := by
  induction bs generalizing p with
  | nil =>
      cases p with
      | none => exact decode_cons_ascii hb rest
      | some p =>
          have hout : ¬(p.low ≤ b.toNat ∧ b.toNat ≤ p.high) := by
            have hlow := hp p rfl
            omega
          rw [List.nil_append, decodeFrom_cons, step_out hout, first,
            if_pos hb]
          rfl
  | cons b' bs ih =>
      rw [List.cons_append, decodeFrom_cons, decodeFrom_cons,
        ih (continues_step p b'), List.append_assoc]

/-- An ASCII character parts what is decoded in front of it from what is
decoded behind it. -/
theorem lossy_append_ascii (hb : b.toNat < 0x80) (bs rest : List UInt8) :
    lossy (bs ++ b :: rest) =
      lossy bs ++ Char.ofNat b.toNat :: lossy rest := by
  have hnone : Continues none := by simp [Continues]
  rw [lossy, decode, decodeFrom_append_ascii hnone hb, List.map_append]
  rfl

/-- A pending character is not completed to an ASCII character. -/
theorem mem_step_ascii {c : Char} (hc : c.toNat < 0x80)
    (h : some c ∈ (step p b).1) : b = UInt8.ofNat c.toNat := by
  have hfirst : some c ∈ (first b).1 → b = UInt8.ofNat c.toNat := by
    intro hmem
    unfold first at hmem
    split at hmem
    next hb =>
      obtain rfl := Option.some.inj (List.mem_singleton.mp hmem)
      rw [toNat_ofNat_of_scalar (by omega), UInt8.ofNat_toNat]
    · split at hmem <;> simp at hmem
  cases p with
  | none => exact hfirst h
  | some p =>
      by_cases hrange : p.low ≤ b.toNat ∧ b.toNat ≤ p.high
      · by_cases howed : p.owed = 0
        · rw [step_last hrange howed] at h
          have hchar : c = Char.ofNat (p.value * 64 + (b.toNat - 0x80)) := by
            simpa using h
          have hleast := p.least
          have hscalar := p.scalar
          rw [howed] at hleast hscalar
          rw [hchar, toNat_ofNat_of_scalar (by omega)] at hc
          omega
        · rw [step_next hrange howed] at h
          simp at h
      · rw [step_out hrange, List.mem_cons] at h
        exact hfirst (h.resolve_left (by simp))

theorem mem_decodeFrom_ascii {c : Char} (hc : c.toNat < 0x80)
    (h : some c ∈ decodeFrom p bs) : UInt8.ofNat c.toNat ∈ bs := by
  induction bs generalizing p with
  | nil => cases p <;> simp [decodeFrom] at h
  | cons b bs ih =>
      rw [decodeFrom_cons, List.mem_append] at h
      rcases h with h | h
      · rw [mem_step_ascii hc h]
        exact List.mem_cons_self
      · exact List.mem_cons_of_mem _ (ih h)

/-- The ASCII characters of a decoded byte string are among its bytes. -/
theorem mem_lossy_ascii {c : Char} (hc : c.toNat < 0x80)
    (h : c ∈ lossy bs) : UInt8.ofNat c.toNat ∈ bs := by
  obtain ⟨o, ho, hget⟩ := List.mem_map.mp h
  cases o with
  | none =>
      have hreplaced : '\uFFFD' = c := hget
      rw [← hreplaced] at hc
      exact absurd hc (by decide)
  | some d =>
      obtain rfl : d = c := hget
      exact mem_decodeFrom_ascii hc ho

theorem lossy_encode (s : List Char) : lossy (encode s) = s := by
  rw [lossy, decode_encode, List.map_map]
  exact List.map_id s

theorem take_encode {s : List Char} (hs : ∀ c ∈ s, c.toNat < 0x80) (n : ℕ) :
    (encode s).take n = encode (s.take n) := by
  induction s generalizing n with
  | nil => simp [encode]
  | cons c s ih =>
      cases n with
      | zero => rfl
      | succ n =>
          have hrest := ih (fun d hd => hs d (List.mem_cons_of_mem _ hd)) n
          rw [List.take_succ_cons, encode_cons, encode_cons,
            encodeChar_ascii (hs c List.mem_cons_self), ← hrest]
          rfl

theorem length_encode_ascii {s : List Char} (hs : ∀ c ∈ s, c.toNat < 0x80) :
    (encode s).length = s.length := by
  induction s with
  | nil => rfl
  | cons c s ih =>
      rw [encode_cons, encodeChar_ascii (hs c List.mem_cons_self),
        List.length_append, ih (fun d hd => hs d (List.mem_cons_of_mem _ hd)),
        List.length_singleton, List.length_cons, Nat.add_comm]

/-- ASCII text can be cut anywhere. -/
theorem lossy_take_encode {s : List Char} (hs : ∀ c ∈ s, c.toNat < 0x80)
    (n : ℕ) : lossy ((encode s).take n) = s.take n := by
  rw [take_encode hs, lossy_encode]

/-- Where the strict conversion succeeds, the lossy one agrees. -/
theorem lossy_of_fromUtf8 {s : List Char} (h : fromUtf8 bs = some s) :
    lossy bs = s := by
  rw [lossy, present_eq_some_iff.mp h, List.map_map]
  exact List.map_id s

end Ascii

end Utf8
