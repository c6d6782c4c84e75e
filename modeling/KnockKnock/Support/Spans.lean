import Mathlib.Data.List.TakeWhile
import Mathlib.Data.List.Infix
import Mathlib.Data.List.DropRight

/-!
# Maximal runs

`IsSpan p s run rest` says that `run` is the longest front part of `s` whose
members satisfy `p`, and `rest` is what follows it.  A word has exactly one
such splitting, the one that `takeWhile` and `dropWhile` compute.
-/

namespace Spans

variable {α : Type*} {p : α → Bool} {s run rest : List α}

/-- A property of the letters of a word is decided letter by letter, also
where the alphabet is finite. -/
instance (priority := high) decidableForallMem
    (q : α → Prop) [DecidablePred q] (s : List α) :
    Decidable (∀ c ∈ s, q c) :=
  List.decidableBAll q s

instance (priority := high) decidableForallOption
    (q : α → Prop) [DecidablePred q] (o : Option α) :
    Decidable (∀ c ∈ o, q c) :=
  Option.decidableForallMem o

/-- `s` splits into its maximal run of `p` and the rest. -/
structure IsSpan (p : α → Bool) (s run rest : List α) : Prop where
  append : s = run ++ rest
  inside : ∀ c ∈ run, p c = true
  stop : ∀ c ∈ rest.head?, p c = false

theorem isSpan_takeWhile (p : α → Bool) (s : List α) :
    IsSpan p s (s.takeWhile p) (s.dropWhile p) where
  append := List.takeWhile_append_dropWhile.symm
  inside _ hc := List.mem_takeWhile_imp hc
  stop := by
    intro c hc
    have hne : s.dropWhile p ≠ [] := by
      intro hnil
      simp [hnil] at hc
    rw [List.head?_eq_some_head hne, Option.mem_some_iff] at hc
    rw [← hc]
    exact List.head_dropWhile_not p hne

theorem IsSpan.takeWhile_eq (h : IsSpan p s run rest) :
    s.takeWhile p = run := by
  rw [h.append, List.takeWhile_append_of_pos h.inside]
  have hstop : rest.takeWhile p = [] := by
    cases rest with
    | nil => rfl
    | cons c rest => simp [h.stop c (by simp)]
  simp [hstop]

theorem IsSpan.dropWhile_eq (h : IsSpan p s run rest) :
    s.dropWhile p = rest := by
  have happend := h.append
  rw [← List.takeWhile_append_dropWhile (p := p) (l := s), h.takeWhile_eq]
    at happend
  exact List.append_cancel_left happend

/-- Everything up to the end satisfies the predicate. -/
theorem isSpan_all (h : ∀ c ∈ s, p c = true) : IsSpan p s s [] where
  append := by simp
  inside := h
  stop := by simp

/-- A run that ends in front of a member outside the class. -/
theorem isSpan_cons {c : α} (hrun : ∀ d ∈ run, p d = true)
    (hc : p c = false) : IsSpan p (run ++ c :: rest) run (c :: rest) where
  append := rfl
  inside := hrun
  stop := by simpa using hc

/-- A run does not reach into what begins outside the class. -/
theorem IsSpan.append_stop {t : List α} (h : IsSpan p s run rest)
    (ht : ∀ c ∈ t.head?, p c = false) : IsSpan p (s ++ t) run (rest ++ t) where
  append := by rw [h.append, List.append_assoc]
  inside := h.inside
  stop := by
    cases rest with
    | nil => exact ht
    | cons c rest => exact h.stop

theorem takeWhile_append_stop {t : List α}
    (ht : ∀ c ∈ t.head?, p c = false) :
    (s ++ t).takeWhile p = s.takeWhile p :=
  ((isSpan_takeWhile p s).append_stop ht).takeWhile_eq

theorem dropWhile_append_stop {t : List α}
    (ht : ∀ c ∈ t.head?, p c = false) :
    (s ++ t).dropWhile p = s.dropWhile p ++ t :=
  ((isSpan_takeWhile p s).append_stop ht).dropWhile_eq

/-- A run that ends inside a word is not changed by what follows the word. -/
theorem takeWhile_append_of_mem {c : α} {t : List α} (hc : c ∈ s)
    (hstop : p c = false) : (s ++ t).takeWhile p = s.takeWhile p := by
  rw [List.takeWhile_append, if_neg]
  intro hlength
  have hall := (List.takeWhile_prefix p).eq_of_length hlength
  rw [← hall] at hc
  rw [List.mem_takeWhile_imp hc] at hstop
  cases hstop

/-- A word splits in one way at the first occurrence of a letter. -/
theorem split_unique {a : α} {x y z w : List α} (hx : a ∉ x) (hy : a ∉ y)
    (h : x ++ a :: z = y ++ a :: w) : x = y ∧ z = w := by
  induction x generalizing y with
  | nil =>
      cases y with
      | nil => exact ⟨rfl, (List.cons.inj h).2⟩
      | cons b y =>
          obtain ⟨rfl, -⟩ := List.cons.inj h
          simp at hy
  | cons c x ih =>
      cases y with
      | nil =>
          obtain ⟨rfl, -⟩ := List.cons.inj h
          simp at hx
      | cons b y =>
          obtain ⟨rfl, htail⟩ := List.cons.inj h
          obtain ⟨rfl, hrest⟩ := ih (fun ha => hx (List.mem_cons_of_mem _ ha))
            (fun ha => hy (List.mem_cons_of_mem _ ha)) htail
          exact ⟨rfl, hrest⟩

/-- A letter that is not in the front stands in what follows the front. -/
theorem exists_of_append_eq_append_cons {a : α} {x y z w : List α}
    (hx : a ∉ x) (h : x ++ y = z ++ a :: w) :
    ∃ t, z = x ++ t ∧ y = t ++ a :: w := by
  obtain ⟨t, rfl, ht⟩ | ⟨t, rfl, ht⟩ := List.append_eq_append_iff.mp h
  · exact ⟨t, rfl, ht⟩
  · obtain ⟨rfl, ht⟩ | ⟨t, rfl, -⟩ := List.cons_eq_append_iff.mp ht
    · exact ⟨[], by simp, ht.symm⟩
    · simp at hx

/-! ## Runs at both ends -/

/-- Dropping the runs at both ends cuts members of the class off. -/
theorem exists_drop_ends (p : α → Bool) (s : List α) :
    ∃ front back, (∀ c ∈ front, p c = true) ∧ (∀ c ∈ back, p c = true) ∧
      s = front ++ ((s.dropWhile p).rdropWhile p ++ back) := by
  refine ⟨s.takeWhile p, (s.dropWhile p).rtakeWhile p,
    fun c hc => List.mem_takeWhile_imp hc,
    fun c hc => List.mem_rtakeWhile_imp hc, ?_⟩
  rw [List.rdropWhile_append_rtakeWhile, List.takeWhile_append_dropWhile]

/-- Members outside the class at both ends keep what is between them. -/
theorem drop_ends_append {s front back : List α}
    (hfront : ∀ c ∈ front, p c = true) (hback : ∀ c ∈ back, p c = true)
    (hhead : ∀ c ∈ s.head?, p c = false)
    (hlast : ∀ c ∈ s.getLast?, p c = false) :
    ((front ++ (s ++ back)).dropWhile p).rdropWhile p = s := by
  rw [List.dropWhile_append_of_pos hfront]
  rcases s.eq_nil_or_concat with rfl | ⟨init, c, rfl⟩
  · rw [List.nil_append, List.dropWhile_eq_nil_iff.mpr hback]
    rfl
  · rw [List.concat_eq_append] at *
    have hspan : IsSpan p (init ++ [c] ++ back) [] (init ++ [c] ++ back) := by
      refine ⟨rfl, by simp, ?_⟩
      cases init with
      | nil => exact hhead
      | cons d init => exact hhead
    have hc : p c = false := hlast c (by simp)
    have hrev : ∀ d ∈ back.reverse, p d = true := by simpa using hback
    rw [hspan.dropWhile_eq, List.rdropWhile, List.reverse_append,
      List.dropWhile_append_of_pos hrev]
    simp [hc]

/-! ## Words on one side of a letter -/

/-- A word without the letter stands in front of it or behind it. -/
theorem infix_append_cons_iff {w x y : List α} {c : α} (hne : w ≠ [])
    (hw : c ∉ w) : w <:+: x ++ c :: y ↔ w <:+: x ∨ w <:+: y := by
  constructor
  · intro h
    obtain hx | hy | ⟨w₁, w₂, -, hw₂, rfl, -, hfront⟩ :=
      List.infix_append_iff_ne_nil.mp h
    · exact Or.inl hx
    · obtain hstart | hy := List.infix_cons_iff.mp hy
      · obtain ⟨d, w, rfl⟩ := List.exists_cons_of_ne_nil hne
        obtain ⟨rfl, -⟩ := List.cons_prefix_cons.mp hstart
        simp at hw
      · exact Or.inr hy
    · obtain ⟨d, w₂, rfl⟩ := List.exists_cons_of_ne_nil hw₂
      obtain ⟨rfl, -⟩ := List.cons_prefix_cons.mp hfront
      simp at hw
  · rintro (hx | hy)
    · exact List.infix_append_of_infix_left hx
    · exact List.infix_append_of_infix_right (List.infix_cons hy)

/-- A word that begins with the letter begins at its first occurrence or
behind it. -/
theorem cons_infix_append_cons_iff {w x y : List α} {c : α} (hx : c ∉ x) :
    c :: w <:+: x ++ c :: y ↔ w <+: y ∨ c :: w <:+: y := by
  induction x with
  | nil =>
      rw [List.nil_append, List.infix_cons_iff, List.cons_prefix_cons]
      simp
  | cons d x ih =>
      rw [List.mem_cons, not_or] at hx
      have hhead : ¬c :: w <+: d :: (x ++ c :: y) := by
        intro h
        exact hx.1 (List.cons_prefix_cons.mp h).1
      rw [List.cons_append, List.infix_cons_iff, ih hx.2]
      simp [hhead]

/-! ## Where a word first stands -/

section Position

variable [DecidableEq α]

/-- `s.windows(w.len()).position(|v| v == w)` -/
def position (w : List α) : List α → Option ℕ
  | [] => none
  | c :: s => if w <+: c :: s then some 0 else (position w s).map (· + 1)

theorem position_eq_zero {w : List α} {c : α} {s : List α}
    (h : w <+: c :: s) : position w (c :: s) = some 0 := if_pos h

theorem position_cons {w : List α} {c : α} {s : List α}
    (h : ¬w <+: c :: s) : position w (c :: s) = (position w s).map (· + 1) :=
  if_neg h

/-- A word does not begin among other letters than its first. -/
theorem position_append {c : α} {run : List α} (hrun : c ∉ run)
    (w rest : List α) :
    position (c :: w) (run ++ rest) =
      (position (c :: w) rest).map (run.length + ·) := by
  induction run with
  | nil => simp
  | cons d run ih =>
      rw [List.mem_cons, not_or] at hrun
      have hhead : ¬c :: w <+: d :: (run ++ rest) := by
        intro h
        exact hrun.1 (List.cons_prefix_cons.mp h).1
      rw [List.cons_append, position_cons hhead, ih hrun.2, Option.map_map]
      congr 1
      funext n
      simp only [Function.comp_apply, List.length_cons]
      omega

/-- A word is found where it stands, and only there. -/
theorem infix_of_position {w s : List α} {n : ℕ}
    (h : position w s = some n) : w <:+: s := by
  induction s generalizing n with
  | nil => cases h
  | cons c s ih =>
      by_cases hhead : w <+: c :: s
      · exact hhead.isInfix
      · rw [position_cons hhead] at h
        obtain ⟨m, hm, rfl⟩ := Option.map_eq_some_iff.mp h
        exact List.infix_cons (ih hm)

theorem isSome_position_iff {w s : List α} (hw : w ≠ []) :
    (position w s).isSome ↔ w <:+: s := by
  induction s with
  | nil =>
      refine iff_of_false (by simp [position]) fun h => hw ?_
      exact List.infix_nil.mp h
  | cons c s ih =>
      rw [List.infix_cons_iff]
      by_cases hhead : w <+: c :: s
      · rw [position_eq_zero hhead]
        exact iff_of_true rfl (.inl hhead)
      · rw [position_cons hhead, Option.isSome_map, ih, or_iff_right hhead]

theorem length_of_position {w s : List α} {n : ℕ}
    (h : position w s = some n) : n + w.length ≤ s.length := by
  induction s generalizing n with
  | nil => cases h
  | cons c s ih =>
      by_cases hhead : w <+: c :: s
      · rw [position_eq_zero hhead, Option.some.injEq] at h
        rw [← h, Nat.zero_add]
        exact hhead.length_le
      · rw [position_cons hhead] at h
        obtain ⟨m, hm, rfl⟩ := Option.map_eq_some_iff.mp h
        have hle := ih hm
        rw [List.length_cons]
        omega

/-- What follows a word does not move its first occurrence. -/
theorem position_append_right {w s : List α} {n : ℕ}
    (h : position w s = some n) (t : List α) :
    position w (s ++ t) = some n := by
  induction s generalizing n with
  | nil => cases h
  | cons c s ih =>
      by_cases hhead : w <+: c :: s
      · rw [position_eq_zero hhead] at h
        rw [← h, List.cons_append]
        exact position_eq_zero (hhead.trans (List.prefix_append _ t))
      · rw [position_cons hhead] at h
        obtain ⟨m, hm, rfl⟩ := Option.map_eq_some_iff.mp h
        by_cases hlonger : w <+: c :: (s ++ t)
        · -- Then `w` is longer than `c :: s`, and stands nowhere inside it.
          have hlt : (c :: s).length < w.length := by
            by_contra hle
            exact hhead (List.prefix_of_prefix_length_le hlonger
              (List.prefix_append (c :: s) t) (by omega))
          have hle := length_of_position hm
          rw [List.length_cons] at hlt
          omega
        · rw [List.cons_append, position_cons hlonger, ih hm]
          rfl

end Position

end Spans
