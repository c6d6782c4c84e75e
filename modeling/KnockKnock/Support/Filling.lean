import KnockKnock.Support.ByteStream

/-!
# Reading until it is enough

A reader collects what its reads return until one returns nothing, or until
what it has is enough.  When it stops depends on how the stream is cut; what
stands at the front of the stream does not, if no proper part of it is enough.
-/

namespace ByteStream

namespace Delivery

variable {α : Type} {n : ℕ} {enough : List α → Prop} {buf buf' w : List α}
  {d d' : Delivery α}

/-- Reads into a buffer of `n` bytes until one returns nothing, or until there
is enough behind what is in `buf`. -/
def readUntil (n : ℕ) (enough : List α → Prop) [DecidablePred enough]
    (buf : List α) (d : Delivery α) : List α × Delivery α :=
  if (d.read n).1 = [] then (buf, (d.read n).2)
  else if enough (buf ++ (d.read n).1) then
    (buf ++ (d.read n).1, (d.read n).2)
  else readUntil n enough (buf ++ (d.read n).1) (d.read n).2
termination_by d.bytes.length
decreasing_by
  have hpos : 0 < (d.read n).1.length := List.length_pos_of_ne_nil ‹_›
  have hlength := congrArg List.length (read_append n d)
  rw [List.length_append] at hlength
  omega

/-- The rounds of the loop begin with these bytes collected, and with this left
of the stream. -/
inductive Rounds (n : ℕ) (enough : List α → Prop) (buf : List α)
    (d : Delivery α) : List α → Delivery α → Prop
  | start : Rounds n enough buf d buf d
  | next {buf' : List α} {d' : Delivery α} (h : Rounds n enough buf d buf' d')
      (hmore : (d'.read n).1 ≠ [])
      (hgo : ¬enough (buf' ++ (d'.read n).1)) :
      Rounds n enough buf d (buf' ++ (d'.read n).1) (d'.read n).2

namespace Rounds

theorem append (h : Rounds n enough buf d buf' d') :
    buf' ++ d'.bytes = buf ++ d.bytes := by
  induction h with
  | start => rfl
  | next _ _ _ ih => rw [List.append_assoc, read_append, ih]

variable [DecidablePred enough]

/-- The rounds are those of the loop. -/
theorem readUntil_eq (h : Rounds n enough buf d buf' d') :
    readUntil n enough buf d = readUntil n enough buf' d' := by
  induction h with
  | start => rfl
  | next _ hmore hgo ih => rw [ih, readUntil, if_neg hmore, if_neg hgo]

/-- There is a last round. -/
theorem exists_last (h : Rounds n enough buf d buf' d') :
    ∃ last rest, Rounds n enough buf d last rest ∧
      ((rest.read n).1 = [] ∧
          readUntil n enough buf d = (last, (rest.read n).2) ∨
        enough (last ++ (rest.read n).1) ∧
          readUntil n enough buf d =
            (last ++ (rest.read n).1, (rest.read n).2)) := by
  -- A read that returns something leaves less of the stream.
  induction hk : d'.bytes.length using Nat.strongRecOn
    generalizing buf' d' with
  | _ k ih =>
    by_cases hnil : (d'.read n).1 = []
    · refine ⟨buf', d', h, .inl ⟨hnil, ?_⟩⟩
      rw [h.readUntil_eq, readUntil, if_pos hnil]
    by_cases henough : enough (buf' ++ (d'.read n).1)
    · refine ⟨buf', d', h, .inr ⟨henough, ?_⟩⟩
      rw [h.readUntil_eq, readUntil, if_neg hnil, if_pos henough]
    have hpos := List.length_pos_of_ne_nil hnil
    have hlength := congrArg List.length (read_append n d')
    rw [List.length_append] at hlength
    exact ih _ (by omega) (.next h hnil henough) rfl

end Rounds

section Result

variable [DecidablePred enough]

/-- A test for a word at the front has the same result on what is collected as
on the whole stream, if no proper part of the word is enough. -/
theorem prefix_readUntil_iff (hn : 0 < n)
    (hw : ∀ s, enough s → s <+: w → s = w) :
    w <+: (readUntil n enough buf d).1 ↔ w <+: buf ++ d.bytes := by
  obtain ⟨last, rest, h, ⟨hnil, heq⟩ | ⟨henough, heq⟩⟩ := Rounds.exists_last
    (.start : Rounds n enough buf d buf d)
  · have hend : rest.bytes = [] := by
      by_contra hne
      exact read_ne_nil hn hne hnil
    rw [heq, ← h.append, hend, List.append_nil]
  · have hfront : last ++ (rest.read n).1 <+: buf ++ d.bytes := by
      rw [← h.append, ← read_append n rest, ← List.append_assoc]
      exact List.prefix_append _ _
    rw [heq]
    refine ⟨fun h => h.trans hfront, fun hword => ?_⟩
    rcases List.prefix_or_prefix_of_prefix hfront hword with hshort | hlong
    · exact ⟨[], by rw [hw _ henough hshort, List.append_nil]⟩
    · exact hlong

end Result

end Delivery

end ByteStream
