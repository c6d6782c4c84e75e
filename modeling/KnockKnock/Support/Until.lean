import Mathlib.Data.List.Basic

/-!
# Until

On a finite sequence, one property holds until another does when the first one
holds of each element in front of some rest, and the second one of that rest.
The first element with a property is one until which nothing has it.
-/

namespace Trace

variable {α : Type} {Q : α → Prop} {P : List α → Prop} {a : α} {l : List α}

/-- `Q` holds of the elements in front of a rest with the property `P`. -/
def Until (Q : α → Prop) (P : List α → Prop) (l : List α) : Prop :=
  ∃ front rest, l = front ++ rest ∧ (∀ b ∈ front, Q b) ∧ P rest

theorem until_nil_iff : Until Q P [] ↔ P [] := by
  constructor
  · rintro ⟨front, rest, h, -, hP⟩
    obtain ⟨rfl, rfl⟩ := List.append_eq_nil_iff.mp h.symm
    exact hP
  · intro hP
    exact ⟨[], [], rfl, by simp, hP⟩

/-- The rest begins here, or behind an element with the property `Q`. -/
theorem until_cons_iff :
    Until Q P (a :: l) ↔ P (a :: l) ∨ (Q a ∧ Until Q P l) := by
  constructor
  · rintro ⟨_ | ⟨b, front⟩, rest, h, hQ, hP⟩
    · rw [List.nil_append] at h
      exact .inl (h ▸ hP)
    · obtain ⟨rfl, rfl⟩ := List.cons.inj h
      obtain ⟨ha, hfront⟩ := List.forall_mem_cons.mp hQ
      exact .inr ⟨ha, front, rest, rfl, hfront, hP⟩
  · rintro (hP | ⟨ha, front, rest, rfl, hfront, hP⟩)
    · exact ⟨[], a :: l, rfl, by simp, hP⟩
    · exact ⟨a :: front, rest, rfl, List.forall_mem_cons.mpr ⟨ha, hfront⟩, hP⟩

/-- The rest begins with an element that has the property `p`. -/
def Next (p : α → Prop) (l : List α) : Prop := ∃ a ∈ l.head?, p a

@[simp] theorem next_cons_iff {p : α → Prop} : Next p (a :: l) ↔ p a := by
  simp [Next]

@[simp] theorem not_next_nil {p : α → Prop} : ¬Next p [] := by
  simp [Next]

/-! ## The first element -/

section First

variable {p : α → Prop} {R : α → List α → Prop}

/-- `R` holds of the first element with the property `p` and of the rest behind
it. -/
def First (p : α → Prop) (R : α → List α → Prop) : List α → Prop :=
  Until (fun b => ¬p b) fun l => ∃ a rest, l = a :: rest ∧ p a ∧ R a rest

@[simp] theorem not_first_nil : ¬First p R [] := by
  rw [First, until_nil_iff]
  rintro ⟨a, rest, h, -⟩
  exact List.cons_ne_nil a rest h.symm

theorem first_cons_of_pos (h : p a) : First p R (a :: l) ↔ R a l := by
  rw [First, until_cons_iff]
  constructor
  · rintro (⟨b, rest, hcons, -, hR⟩ | ⟨hnot, -⟩)
    · obtain ⟨rfl, rfl⟩ := List.cons.inj hcons
      exact hR
    · exact absurd h hnot
  · intro hR
    exact .inl ⟨a, l, rfl, h, hR⟩

theorem first_cons_of_neg (h : ¬p a) : First p R (a :: l) ↔ First p R l := by
  rw [First, until_cons_iff]
  constructor
  · rintro (⟨b, rest, hcons, hp, -⟩ | ⟨-, hrest⟩)
    · obtain ⟨rfl, -⟩ := List.cons.inj hcons
      exact absurd hp h
    · exact hrest
  · intro hrest
    exact .inr ⟨h, hrest⟩

/-- Where `R` does not get lost in a longer rest, any element with the property
will do. -/
theorem first_iff_exists
    (hR : ∀ {a b front rest}, p a → R b rest → R a (front ++ b :: rest)) :
    First p R l ↔ ∃ front a rest, l = front ++ a :: rest ∧ p a ∧ R a rest := by
  constructor
  · rintro ⟨front, -, rfl, -, a, rest, rfl, ha, hrest⟩
    exact ⟨front, a, rest, rfl, ha, hrest⟩
  · rintro ⟨front, a, rest, rfl, ha, hrest⟩
    induction front with
    | nil => exact (first_cons_of_pos ha).mpr hrest
    | cons b front ih =>
        rw [List.cons_append]
        by_cases hb : p b
        · exact (first_cons_of_pos hb).mpr (hR hb hrest)
        · exact (first_cons_of_neg hb).mpr ih

theorem exists_first {β : Type} {R : β → α → List α → Prop} :
    (∃ x, First p (R x) l) ↔ First p (fun a rest => ∃ x, R x a rest) l := by
  constructor
  · intro ⟨x, front, rest, hl, hfront, a, rest', hrest, ha, hR⟩
    exact ⟨front, rest, hl, hfront, a, rest', hrest, ha, x, hR⟩
  · intro ⟨front, rest, hl, hfront, a, rest', hrest, ha, x, hR⟩
    exact ⟨x, front, rest, hl, hfront, a, rest', hrest, ha, hR⟩

/-- There is a first element with the property if there is any. -/
theorem exists_first_iff :
    First p (fun _ _ => True) l ↔ ∃ a ∈ l, p a := by
  rw [first_iff_exists fun _ _ => trivial]
  constructor
  · rintro ⟨front, a, rest, rfl, ha, -⟩
    exact ⟨a, by simp, ha⟩
  · rintro ⟨a, hmem, ha⟩
    obtain ⟨front, rest, rfl⟩ := List.append_of_mem hmem
    exact ⟨front, a, rest, rfl, ha, trivial⟩

end First

end Trace
