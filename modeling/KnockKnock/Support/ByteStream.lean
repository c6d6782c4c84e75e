import Mathlib.Data.List.Basic

/-!
# Streams that arrive in segments

A reader sees a stream as a sequence of nonempty segments, cut at the
network's will.  One `read` shows the cuts; `readExact` repeats it until a
buffer is full, and its result depends on the bytes of the stream alone.
-/

namespace ByteStream

variable {α : Type}

/-- A finite stream as it arrives: nonempty segments, then the end. -/
structure Delivery (α : Type) where
  segments : List (List α)
  nonempty : ∀ s ∈ segments, s ≠ []

namespace Delivery

/-- Everything that arrives. -/
def bytes (d : Delivery α) : List α := d.segments.flatten

/-- `s` arrives before the rest, if there is anything of it. -/
def push (s : List α) (d : Delivery α) : Delivery α where
  segments := if s.isEmpty then d.segments else s :: d.segments
  nonempty := by
    intro t ht
    split at ht
    · exact d.nonempty t ht
    next hs =>
      rcases List.mem_cons.mp ht with rfl | ht
      · simpa using hs
      · exact d.nonempty t ht

/-- Nothing arrives any more. -/
def ended : Delivery α := ⟨[], by simp⟩

theorem eq_ended {d : Delivery α} (h : d.bytes = []) : d = ended := by
  obtain ⟨_ | ⟨s, rest⟩, hnonempty⟩ := d
  · rfl
  · have hs : s = [] := (List.append_eq_nil_iff.mp h).1
    exact absurd hs (hnonempty s List.mem_cons_self)

/-- All of `s` in one segment. -/
def whole (s : List α) : Delivery α := push s ⟨[], by simp⟩

@[simp] theorem bytes_push (s : List α) (d : Delivery α) :
    (push s d).bytes = s ++ d.bytes := by
  unfold bytes push
  cases s <;> simp

@[simp] theorem bytes_whole (s : List α) : (whole s).bytes = s := by
  rw [whole, bytes_push]
  simp [bytes]

/-- One read into a buffer of `n` bytes: the front of the first segment, or
nothing at the end of the stream. -/
def read (n : ℕ) : Delivery α → List α × Delivery α
  | ⟨[], h⟩ => ([], ⟨[], h⟩)
  | ⟨s :: rest, h⟩ =>
      (s.take n,
        push (s.drop n) ⟨rest, fun t ht => h t (List.mem_cons_of_mem s ht)⟩)

theorem read_append (n : ℕ) (d : Delivery α) :
    (d.read n).1 ++ (d.read n).2.bytes = d.bytes := by
  obtain ⟨_ | ⟨s, rest⟩, h⟩ := d
  · rfl
  · rw [read, bytes_push, ← List.append_assoc, List.take_append_drop]
    rfl

theorem read_whole (n : ℕ) (s : List α) : ((whole s).read n).1 = s.take n := by
  cases s with
  | nil => exact List.take_nil.symm
  | cons a s => rfl

theorem length_read_le (n : ℕ) (d : Delivery α) :
    (d.read n).1.length ≤ n := by
  obtain ⟨_ | ⟨s, rest⟩, h⟩ := d
  · exact Nat.zero_le n
  · exact List.length_take_le n s

/-- Only the end of the stream makes a read return nothing. -/
theorem read_ne_nil {n : ℕ} (hn : 0 < n) {d : Delivery α}
    (hd : d.bytes ≠ []) : (d.read n).1 ≠ [] := by
  obtain ⟨_ | ⟨s, rest⟩, h⟩ := d
  · exact absurd rfl hd
  · have hs : s ≠ [] := h s (by simp)
    simp only [read, ne_eq, List.take_eq_nil_iff, not_or]
    exact ⟨by omega, hs⟩

/-! ## Filling a buffer -/

/-- At most `fuel` reads towards the `n` bytes that are missing; `none` if the
stream ends before. -/
def fill : ℕ → ℕ → Delivery α → Option (List α) × Delivery α
  | _, 0, d => (some [], d)
  | 0, _ + 1, d => (none, d)
  | fuel + 1, n + 1, d =>
      let (chunk, d) := d.read (n + 1)
      if chunk.isEmpty then (none, d)
      else
        let (rest, d) := fill fuel (n + 1 - chunk.length) d
        (rest.map (chunk ++ ·), d)

/-- `n` bytes, in as many reads as it takes: each one but the last of the
stream returns something, so `n` reads are enough. -/
def readExact (n : ℕ) (d : Delivery α) : Option (List α) × Delivery α :=
  fill n n d

theorem fill_spec {fuel n : ℕ} (hfuel : n ≤ fuel) (d : Delivery α) :
    (n ≤ d.bytes.length → (fill fuel n d).1 = some (d.bytes.take n) ∧
      (fill fuel n d).2.bytes = d.bytes.drop n) ∧
    (d.bytes.length < n → (fill fuel n d).1 = none) := by
  induction fuel generalizing n d with
  | zero =>
      obtain rfl : n = 0 := Nat.le_zero.mp hfuel
      simp [fill]
  | succ fuel ih =>
      obtain _ | n := n
      · simp [fill]
      have happend := read_append (n + 1) d
      have hle := length_read_le (n + 1) d
      by_cases hnil : (d.read (n + 1)).1 = []
      · have hbytes : d.bytes = [] := by
          by_contra hd
          exact read_ne_nil (Nat.succ_pos n) hd hnil
        simp [fill, hnil, hbytes]
      · have hpos : 0 < (d.read (n + 1)).1.length :=
          List.length_pos_of_ne_nil hnil
        obtain ⟨henough, hshort⟩ :=
          ih (n := n + 1 - (d.read (n + 1)).1.length) (by omega)
            (d.read (n + 1)).2
        have hlength := congrArg List.length happend
        rw [List.length_append] at hlength
        simp only [fill, List.isEmpty_iff, hnil, if_false]
        rw [← happend]
        constructor
        · intro hn
          rw [List.length_append] at hn
          obtain ⟨htake, hdrop⟩ := henough (by omega)
          rw [htake, hdrop, List.take_append, List.drop_append,
            List.take_of_length_le hle, List.drop_of_length_le hle]
          exact ⟨rfl, rfl⟩
        · intro hn
          rw [List.length_append] at hn
          rw [hshort (by omega)]
          rfl

theorem readExact_of_le {n : ℕ} {d : Delivery α} (h : n ≤ d.bytes.length) :
    (d.readExact n).1 = some (d.bytes.take n) ∧
      (d.readExact n).2.bytes = d.bytes.drop n :=
  (fill_spec (Nat.le_refl n) d).1 h

theorem readExact_of_lt {n : ℕ} {d : Delivery α} (h : d.bytes.length < n) :
    (d.readExact n).1 = none :=
  (fill_spec (Nat.le_refl n) d).2 h

/-- Whether it succeeds or not, it takes all it can get. -/
theorem fill_bytes {fuel n : ℕ} (hfuel : n ≤ fuel) (d : Delivery α) :
    (fill fuel n d).2.bytes = d.bytes.drop n := by
  induction fuel generalizing n d with
  | zero =>
      obtain rfl : n = 0 := Nat.le_zero.mp hfuel
      rfl
  | succ fuel ih =>
      obtain _ | n := n
      · rfl
      have happend := read_append (n + 1) d
      by_cases hnil : (d.read (n + 1)).1 = []
      · have hbytes : d.bytes = [] := by
          by_contra hd
          exact read_ne_nil (Nat.succ_pos n) hd hnil
        rw [hnil, List.nil_append] at happend
        simp only [fill, hnil, List.isEmpty_nil, if_true]
        rw [happend, hbytes, List.drop_nil]
      · have hpos : 0 < (d.read (n + 1)).1.length :=
          List.length_pos_of_ne_nil hnil
        have hle := length_read_le (n + 1) d
        simp only [fill, List.isEmpty_iff, hnil, if_false]
        rw [ih (by omega), ← happend, List.drop_append,
          List.drop_of_length_le hle, List.nil_append]

theorem readExact_bytes (n : ℕ) (d : Delivery α) :
    (d.readExact n).2.bytes = d.bytes.drop n :=
  fill_bytes (Nat.le_refl n) d

/-! ## Reading to the end -/

/-- Reads into a buffer of `n` bytes until one returns nothing, behind what is
in `buf`. -/
def readToEnd (n : ℕ) (buf : List α) (d : Delivery α) :
    List α × Delivery α :=
  if (d.read n).1 = [] then (buf, (d.read n).2)
  else readToEnd n (buf ++ (d.read n).1) (d.read n).2
termination_by d.bytes.length
decreasing_by
  have hpos : 0 < (d.read n).1.length := List.length_pos_of_ne_nil ‹_›
  have hlength := congrArg List.length (read_append n d)
  rw [List.length_append] at hlength
  omega

/-- However the stream is cut, all of it ends up in the buffer. -/
theorem readToEnd_eq {n : ℕ} (hn : 0 < n) (buf : List α) (d : Delivery α) :
    (readToEnd n buf d).1 = buf ++ d.bytes := by
  induction hk : d.bytes.length using Nat.strongRecOn
    generalizing buf d with
  | _ k ih =>
    have happend := read_append n d
    rw [readToEnd]
    by_cases hnil : (d.read n).1 = []
    · have hbytes : d.bytes = [] := by
        by_contra hd
        exact read_ne_nil hn hd hnil
      rw [if_pos hnil, hbytes, List.append_nil]
    · have hpos : 0 < (d.read n).1.length := List.length_pos_of_ne_nil hnil
      have hlength := congrArg List.length happend
      rw [List.length_append] at hlength
      rw [if_neg hnil, ih _ (by omega) _ _ rfl, List.append_assoc, happend]

end Delivery

/-- How the bytes of a stream are cut on their way. -/
structure Cutting (α : Type) where
  cut : List α → Delivery α
  bytes_cut : ∀ s, (cut s).bytes = s

/-- Nothing is cut. -/
def Cutting.none : Cutting α := ⟨Delivery.whole, Delivery.bytes_whole⟩

end ByteStream
