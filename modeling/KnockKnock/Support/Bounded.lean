import Mathlib.Data.Fin.Basic

/-!
# Arithmetic below a limit

Numbers below a limit do not wrap around: an operation has a result when that
is below the limit, too, and then it is the result of the natural numbers.
-/

namespace Bounded

variable {limit : ℕ} {a b c : Fin limit}

def add (a b : Fin limit) : Option (Fin limit) :=
  if h : a.1 + b.1 < limit then some ⟨a.1 + b.1, h⟩ else none

def sub (a b : Fin limit) : Option (Fin limit) :=
  if b.1 ≤ a.1 then some ⟨a.1 - b.1, Nat.lt_of_le_of_lt (Nat.sub_le _ _) a.2⟩
  else none

def mul (a b : Fin limit) : Option (Fin limit) :=
  if h : a.1 * b.1 < limit then some ⟨a.1 * b.1, h⟩ else none

/-- There is no result of a division by zero. -/
def div (a b : Fin limit) : Option (Fin limit) :=
  if b.1 = 0 then none
  else some ⟨a.1 / b.1, Nat.lt_of_le_of_lt (Nat.div_le_self _ _) a.2⟩

theorem add_eq_some_iff : add a b = some c ↔ c.1 = a.1 + b.1 := by
  unfold add
  split
  next h => rw [Option.some.injEq, eq_comm, Fin.ext_iff]
  next h =>
    refine iff_of_false nofun fun hc => h ?_
    rw [← hc]
    exact c.2

theorem sub_eq_some_iff : sub a b = some c ↔ c.1 + b.1 = a.1 := by
  unfold sub
  split
  next h =>
    rw [Option.some.injEq, eq_comm, Fin.ext_iff]
    change c.1 = a.1 - b.1 ↔ _
    omega
  next h =>
    refine iff_of_false nofun fun hc => h ?_
    rw [← hc]
    exact Nat.le_add_left _ _

theorem mul_eq_some_iff : mul a b = some c ↔ c.1 = a.1 * b.1 := by
  unfold mul
  split
  next h => rw [Option.some.injEq, eq_comm, Fin.ext_iff]
  next h =>
    refine iff_of_false nofun fun hc => h ?_
    rw [← hc]
    exact c.2

theorem div_eq_some_iff :
    div a b = some c ↔ b.1 ≠ 0 ∧ c.1 = a.1 / b.1 := by
  unfold div
  split
  next h => exact iff_of_false nofun fun hc => hc.1 h
  next h => rw [Option.some.injEq, eq_comm, Fin.ext_iff, and_iff_right h]

/-! ## Where there is a result -/

theorem exists_add_iff : (∃ c, add a b = some c) ↔ a.1 + b.1 < limit := by
  simp only [add_eq_some_iff]
  constructor
  · intro ⟨c, hc⟩
    exact hc ▸ c.2
  · intro h
    exact ⟨⟨_, h⟩, rfl⟩

theorem exists_sub_iff : (∃ c, sub a b = some c) ↔ b.1 ≤ a.1 := by
  simp only [sub_eq_some_iff]
  constructor
  · intro ⟨c, hc⟩
    omega
  · intro h
    exact ⟨⟨a.1 - b.1, Nat.lt_of_le_of_lt (Nat.sub_le _ _) a.2⟩,
      Nat.sub_add_cancel h⟩

theorem exists_mul_iff : (∃ c, mul a b = some c) ↔ a.1 * b.1 < limit := by
  simp only [mul_eq_some_iff]
  constructor
  · intro ⟨c, hc⟩
    exact hc ▸ c.2
  · intro h
    exact ⟨⟨_, h⟩, rfl⟩

theorem exists_div_iff : (∃ c, div a b = some c) ↔ b.1 ≠ 0 := by
  simp only [div_eq_some_iff]
  constructor
  · intro ⟨c, hb, _⟩
    exact hb
  · intro hb
    exact ⟨⟨a.1 / b.1, Nat.lt_of_le_of_lt (Nat.div_le_self _ _) a.2⟩, hb,
      rfl⟩

/-! ## Shares in percent -/

/-- Two parts of a whole lose at most one percent to rounding. -/
theorem percent_add_percent {r l n : ℕ} (h : r + l = n) (hn : 0 < n) :
    r * 100 / n + l * 100 / n = 99 ∨ r * 100 / n + l * 100 / n = 100 := by
  have hr := Nat.div_mul_le_self (r * 100) n
  have hl := Nat.div_mul_le_self (l * 100) n
  have hr' := Nat.lt_div_mul_add hn (a := r * 100)
  have hl' := Nat.lt_div_mul_add hn (a := l * 100)
  generalize r * 100 / n = p at *
  generalize l * 100 / n = q at *
  have hupper : (p + q) * n ≤ 100 * n := by
    rw [Nat.add_mul]
    omega
  have hlower : 99 * n < (p + q + 1) * n := by
    rw [Nat.add_mul, Nat.add_mul]
    omega
  have hle := Nat.le_of_mul_le_mul_right hupper hn
  have hlt := Nat.lt_of_mul_lt_mul_right hlower
  omega

/-- A part is all of the whole when nothing is left to the other. -/
theorem percent_eq_100_iff {r l n : ℕ} (h : r + l = n) (hn : 0 < n) :
    r * 100 / n = 100 ↔ l = 0 := by
  have hle : r * 100 / n ≤ 100 := by
    apply Nat.div_le_of_le_mul
    rw [← h]
    omega
  rw [← hle.ge_iff_eq, Nat.le_div_iff_mul_le hn]
  omega

end Bounded
