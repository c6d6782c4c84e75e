import Mathlib.Data.List.Basic
import Mathlib.Data.List.Infix
import Mathlib.Data.List.TakeWhile

/-!
# Backtracking patterns with named groups

A pattern is run against the front of a word.  `attempts` lists every way the
pattern can match, in the order in which a leftmost-first engine with greedy
quantifiers tries them, so the match such an engine reports is the first
element of the list.

The rules below compute that first element without enumerating the others:
a total tail never forces the engine back into what it has already matched,
and where backtracking could find only one match, that match is reported.
-/

namespace Backtrack

variable {α κ : Type*}

/-- Patterns over letters `α` whose groups are named by `κ`.  Repetition is of
one letter class, as in `[^/]*`. -/
inductive Pattern (α κ : Type*) where
  | empty
  | one (p : α → Bool)
  | many (p : α → Bool)
  | seq (first second : Pattern α κ)
  | opt (body : Pattern α κ)
  | group (name : κ) (body : Pattern α κ)

/-- One way of matching a front part of a word.  The most recent binding of a
group stands first. -/
structure Match (α κ : Type*) where
  text : List α
  groups : List (κ × List α)
  rest : List α

namespace Match

/-- The match that consumes nothing. -/
def skip (s : List α) : Match α κ := ⟨[], [], s⟩

/-- `m` followed by a match `n` of what `m` left over. -/
def append (m n : Match α κ) : Match α κ :=
  ⟨m.text ++ n.text, n.groups ++ m.groups, n.rest⟩

/-- Bind the matched text to `k`. -/
def bindGroup (k : κ) (m : Match α κ) : Match α κ :=
  ⟨m.text, (k, m.text) :: m.groups, m.rest⟩

/-- The text bound to `k`, if the group took part in the match. -/
def name [DecidableEq κ] (m : Match α κ) (k : κ) : Option (List α) :=
  m.groups.lookup k

@[simp] theorem rest_skip (s : List α) :
    (skip s : Match α κ).rest = s := rfl

@[simp] theorem text_skip (s : List α) :
    (skip s : Match α κ).text = [] := rfl

@[simp] theorem groups_skip (s : List α) :
    (skip s : Match α κ).groups = [] := rfl

@[simp] theorem rest_append (m n : Match α κ) :
    (m.append n).rest = n.rest := rfl

@[simp] theorem text_append (m n : Match α κ) :
    (m.append n).text = m.text ++ n.text := rfl

@[simp] theorem groups_append (m n : Match α κ) :
    (m.append n).groups = n.groups ++ m.groups := rfl

@[simp] theorem rest_bindGroup (k : κ) (m : Match α κ) :
    (m.bindGroup k).rest = m.rest := rfl

@[simp] theorem text_bindGroup (k : κ) (m : Match α κ) :
    (m.bindGroup k).text = m.text := rfl

@[simp] theorem groups_bindGroup (k : κ) (m : Match α κ) :
    (m.bindGroup k).groups = (k, m.text) :: m.groups := rfl

end Match

namespace Pattern

/-- `[p]+` -/
def plus (p : α → Bool) : Pattern α κ := seq (one p) (many p)

/-- One fixed letter. -/
def letter [DecidableEq α] (a : α) : Pattern α κ := one (· == a)

/-- One fixed word. -/
def literal [DecidableEq α] : List α → Pattern α κ
  | [] => empty
  | a :: w => seq (letter a) (literal w)

/-- All ways of matching a run of `p`, longest first. -/
def runAttempts (p : α → Bool) : List α → List (Match α κ)
  | [] => [.skip []]
  | c :: s =>
      if p c then
        (runAttempts p s).map (fun m => ⟨c :: m.text, m.groups, m.rest⟩) ++
          [.skip (c :: s)]
      else [.skip (c :: s)]

/-- Every match of a pattern with a front part of the word, in the order of
preference of a leftmost-first greedy engine. -/
def attempts : Pattern α κ → List α → List (Match α κ)
  | empty, s => [.skip s]
  | one _, [] => []
  | one p, c :: s => if p c then [⟨[c], [], s⟩] else []
  | many p, s => runAttempts p s
  | seq a b, s =>
      (a.attempts s).flatMap fun m => (b.attempts m.rest).map m.append
  | opt a, s => a.attempts s ++ [.skip s]
  | group k a, s => (a.attempts s).map (.bindGroup k)

/-- The match the engine reports. -/
def firstMatch (a : Pattern α κ) (s : List α) : Option (Match α κ) :=
  (a.attempts s).head?

/-- A pattern that matches at the front of every word. -/
def Total (a : Pattern α κ) : Prop := ∀ s, a.attempts s ≠ []

/-! ## The attempts of each pattern -/

@[simp] theorem runAttempts_nil (p : α → Bool) :
    (runAttempts p [] : List (Match α κ)) = [.skip []] := rfl

theorem runAttempts_cons (p : α → Bool) (c : α) (s : List α) :
    (runAttempts p (c :: s) : List (Match α κ)) =
      if p c then
        (runAttempts p s).map (fun m => ⟨c :: m.text, m.groups, m.rest⟩) ++
          [.skip (c :: s)]
      else [.skip (c :: s)] := rfl

@[simp] theorem attempts_empty (s : List α) :
    (empty : Pattern α κ).attempts s = [.skip s] := rfl

@[simp] theorem attempts_one_nil (p : α → Bool) :
    (one p : Pattern α κ).attempts [] = [] := rfl

@[simp] theorem attempts_one_cons (p : α → Bool) (c : α) (s : List α) :
    (one p : Pattern α κ).attempts (c :: s) =
      if p c then [⟨[c], [], s⟩] else [] := rfl

@[simp] theorem attempts_many (p : α → Bool) (s : List α) :
    (many p : Pattern α κ).attempts s = runAttempts p s := rfl

@[simp] theorem attempts_seq (a b : Pattern α κ) (s : List α) :
    (seq a b).attempts s =
      (a.attempts s).flatMap fun m => (b.attempts m.rest).map m.append := rfl

@[simp] theorem attempts_opt (a : Pattern α κ) (s : List α) :
    (opt a).attempts s = a.attempts s ++ [.skip s] := rfl

@[simp] theorem attempts_group (k : κ) (a : Pattern α κ) (s : List α) :
    (group k a).attempts s = (a.attempts s).map (.bindGroup k) := rfl

/-! ## Which attempts there are -/

theorem runAttempts_ne_nil (p : α → Bool) (s : List α) :
    (runAttempts p s : List (Match α κ)) ≠ [] := by
  cases s with
  | nil => simp
  | cons c s => simp only [runAttempts_cons]; split <;> simp

/-- The attempts at a run of `p` are exactly its front parts. -/
theorem mem_runAttempts_iff {p : α → Bool} {s : List α} {m : Match α κ} :
    m ∈ (runAttempts p s : List (Match α κ)) ↔
      m.groups = [] ∧ (∀ c ∈ m.text, p c = true) ∧ s = m.text ++ m.rest := by
  induction s generalizing m with
  | nil =>
      simp only [runAttempts_nil, List.mem_singleton]
      constructor
      · rintro rfl
        simp
      · rcases m with ⟨text, groups, rest⟩
        rintro ⟨hgroups, -, hsplit⟩
        obtain ⟨htext, hrest⟩ := List.append_eq_nil_iff.mp hsplit.symm
        simp_all [Match.skip]
  | cons c s ih =>
      rcases m with ⟨text, groups, rest⟩
      by_cases hc : p c = true
      · simp only [runAttempts_cons, hc, if_true, List.mem_append, List.mem_map,
          List.mem_singleton]
        constructor
        · rintro (⟨m, hm, heq⟩ | heq)
          · obtain ⟨hgroups, htext, hsplit⟩ := ih.mp hm
            cases heq
            refine ⟨hgroups, ?_, by simp [← hsplit]⟩
            intro d hd
            rcases List.mem_cons.mp hd with rfl | hd
            · exact hc
            · exact htext d hd
          · cases heq
            simp
        · rintro ⟨hgroups, htext, hsplit⟩
          cases text with
          | nil =>
              right
              simp_all [Match.skip]
          | cons d text =>
              left
              obtain ⟨rfl, htail⟩ := List.cons.inj hsplit
              refine ⟨⟨text, groups, rest⟩, ih.mpr ⟨hgroups, ?_, htail⟩, rfl⟩
              intro e he
              exact htext e (List.mem_cons_of_mem _ he)
      · simp only [runAttempts_cons, hc, Bool.false_eq_true, if_false,
          List.mem_singleton]
        constructor
        · intro heq
          cases heq
          simp
        · rintro ⟨hgroups, htext, hsplit⟩
          cases text with
          | nil => simp_all [Match.skip]
          | cons d text =>
              obtain ⟨rfl, -⟩ := List.cons.inj hsplit
              exact absurd (htext c (by simp)) hc

/-- The attempts at `[p]+` are the nonempty front parts of the run. -/
theorem mem_attempts_plus_iff {p : α → Bool} {s : List α} {m : Match α κ} :
    m ∈ (plus p : Pattern α κ).attempts s ↔
      m.groups = [] ∧ m.text ≠ [] ∧ (∀ c ∈ m.text, p c = true) ∧
        s = m.text ++ m.rest := by
  rcases m with ⟨text, groups, rest⟩
  cases s with
  | nil =>
      simp only [plus, attempts_seq, attempts_one_nil, List.flatMap_nil, List.not_mem_nil, false_iff]
      rintro ⟨-, htext, -, hsplit⟩
      exact htext (List.append_eq_nil_iff.mp hsplit.symm).1
  | cons c s =>
      simp only [plus, attempts_seq, attempts_one_cons, attempts_many]
      split
      next hc =>
        simp only [List.flatMap_cons, List.flatMap_nil, List.append_nil,
          List.mem_map]
        constructor
        · rintro ⟨m, hm, heq⟩
          obtain ⟨hgroups, htext, hsplit⟩ := mem_runAttempts_iff.mp hm
          cases heq
          simp only at *
          refine ⟨by simp [hgroups], by simp, ?_, by simp [← hsplit]⟩
          intro d hd
          rcases List.mem_cons.mp hd with rfl | hd
          · exact hc
          · exact htext d (by simpa using hd)
        · rintro ⟨hgroups, hne, htext, hsplit⟩
          cases text with
          | nil => exact absurd rfl hne
          | cons d text =>
              obtain ⟨rfl, htail⟩ := List.cons.inj hsplit
              refine ⟨⟨text, groups, rest⟩, mem_runAttempts_iff.mpr
                ⟨hgroups, ?_, htail⟩, by simp [Match.append]⟩
              intro e he
              exact htext e (List.mem_cons_of_mem _ he)
      next hc =>
        simp only [List.flatMap_nil, List.not_mem_nil, false_iff]
        rintro ⟨-, hne, htext, hsplit⟩
        cases text with
        | nil => exact hne rfl
        | cons d text =>
            obtain ⟨rfl, -⟩ := List.cons.inj hsplit
            exact hc (htext c (by simp))

theorem mem_attempts_seq_iff {a b : Pattern α κ} {s : List α}
    {m : Match α κ} :
    m ∈ (seq a b).attempts s ↔
      ∃ x ∈ a.attempts s, ∃ y ∈ b.attempts x.rest, x.append y = m := by
  simp

theorem mem_attempts_group_iff {k : κ} {a : Pattern α κ} {s : List α}
    {m : Match α κ} :
    m ∈ (group k a).attempts s ↔
      ∃ x ∈ a.attempts s, x.bindGroup k = m := by
  simp

theorem mem_attempts_letter_iff [DecidableEq α] {a : α} {s : List α}
    {m : Match α κ} :
    m ∈ (letter a : Pattern α κ).attempts s ↔
      m = ⟨[a], [], m.rest⟩ ∧ s = a :: m.rest := by
  rcases m with ⟨text, groups, rest⟩
  cases s with
  | nil => simp [letter]
  | cons c s =>
      by_cases hc : c = a
      · subst c
        simp only [letter, attempts_one_cons, beq_self_eq_true, if_true,
          List.mem_singleton, Match.mk.injEq, List.cons.injEq]
        constructor
        · rintro ⟨rfl, rfl, rfl⟩
          simp
        · rintro ⟨⟨rfl, rfl, -⟩, -, rfl⟩
          simp
      · simp [letter, hc]

theorem attempts_literal [DecidableEq α] (w s : List α) :
    (literal w : Pattern α κ).attempts s =
      if w <+: s then [⟨w, [], s.drop w.length⟩] else [] := by
  induction w generalizing s with
  | nil => simp [literal, Match.skip]
  | cons a w ih =>
      cases s with
      | nil => simp [literal, letter]
      | cons c s =>
          by_cases hc : c = a
          · subst c
            by_cases hw : w <+: s <;>
              simp [literal, letter, ih, hw, Match.append]
          · simp [literal, letter, hc, Ne.symm hc]

/-! ## The first attempt -/

theorem firstMatch_one (p : α → Bool) (s : List α) :
    (one p : Pattern α κ).firstMatch s =
      match s with
      | [] => none
      | c :: s => if p c then some ⟨[c], [], s⟩ else none := by
  cases s with
  | nil => rfl
  | cons c s => by_cases hc : p c = true <;> simp [firstMatch, hc]

theorem firstMatch_many (p : α → Bool) (s : List α) :
    (many p : Pattern α κ).firstMatch s =
      some ⟨s.takeWhile p, [], s.dropWhile p⟩ := by
  simp only [firstMatch, attempts_many]
  induction s with
  | nil => rfl
  | cons c s ih =>
      by_cases hc : p c = true
      · simp [runAttempts_cons, hc, ih]
      · simp [runAttempts_cons, hc, Match.skip]

theorem firstMatch_opt (a : Pattern α κ) (s : List α) :
    (opt a).firstMatch s = some ((a.firstMatch s).getD (.skip s)) := by
  cases h : a.attempts s <;> simp [firstMatch, h]

theorem firstMatch_group (k : κ) (a : Pattern α κ) (s : List α) :
    (group k a).firstMatch s = (a.firstMatch s).map (.bindGroup k) := by
  simp [firstMatch]

theorem total_many (p : α → Bool) : (many p : Pattern α κ).Total :=
  runAttempts_ne_nil p

theorem total_opt (a : Pattern α κ) : (opt a).Total := by
  intro s
  simp

theorem Total.group {a : Pattern α κ} (ha : a.Total) (k : κ) :
    (Pattern.group k a).Total := by
  intro s
  simpa using ha s

theorem Total.seq {a b : Pattern α κ} (ha : a.Total) (hb : b.Total) :
    (Pattern.seq a b).Total := by
  intro s
  obtain ⟨m, hm⟩ := List.exists_mem_of_ne_nil _ (ha s)
  obtain ⟨n, hn⟩ := List.exists_mem_of_ne_nil _ (hb m.rest)
  apply List.ne_nil_of_mem (a := m.append n)
  simp only [attempts_seq, List.mem_flatMap, List.mem_map]
  exact ⟨m, hm, n, hn, rfl⟩

/-- The engine never goes back into `a` when `b` matches everywhere. -/
theorem firstMatch_seq_of_total {a b : Pattern α κ} (hb : b.Total)
    (s : List α) :
    (seq a b).firstMatch s =
      (a.firstMatch s).bind fun m =>
        (b.firstMatch m.rest).map m.append := by
  simp only [firstMatch, attempts_seq]
  cases a.attempts s with
  | nil => rfl
  | cons m ms =>
      cases h : b.attempts m.rest with
      | nil => exact absurd h (hb m.rest)
      | cons n ns => simp [h]

theorem firstMatch_plus (p : α → Bool) (s : List α) :
    (plus p : Pattern α κ).firstMatch s =
      if s.takeWhile p = [] then none
      else some ⟨s.takeWhile p, [], s.dropWhile p⟩ := by
  rw [plus, firstMatch_seq_of_total (total_many p), firstMatch_one]
  cases s with
  | nil => rfl
  | cons c s =>
      by_cases hc : p c = true
      · simp [hc, firstMatch_many, Match.append]
      · simp [hc]

/-- Where every attempt is the same, the engine reports it. -/
theorem firstMatch_of_unique {a : Pattern α κ} {s : List α}
    {m : Match α κ} (hm : m ∈ a.attempts s)
    (hunique : ∀ n ∈ a.attempts s, n = m) :
    a.firstMatch s = some m := by
  unfold firstMatch
  cases h : a.attempts s with
  | nil => simp [h] at hm
  | cons n ns =>
      rw [h] at hunique
      simp [hunique n (by simp)]

theorem firstMatch_eq_none {a : Pattern α κ} {s : List α}
    (h : ∀ m, m ∉ a.attempts s) : a.firstMatch s = none := by
  simpa [firstMatch, List.eq_nil_iff_forall_not_mem] using h

/-- A fixed letter leaves no choice to go back into. -/
theorem firstMatch_letter_seq [DecidableEq α] (a : α) (b : Pattern α κ)
    (s : List α) :
    (seq (letter a) b).firstMatch s =
      match s with
      | [] => none
      | c :: s =>
          if c = a then (b.firstMatch s).map (Match.append ⟨[c], [], s⟩)
          else none := by
  cases s with
  | nil => rfl
  | cons c s => by_cases hc : c = a <;> simp [firstMatch, letter, hc]

end Pattern

end Backtrack
