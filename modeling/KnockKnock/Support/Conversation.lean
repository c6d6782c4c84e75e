import Mathlib.Logic.Relation
import KnockKnock.Support.Program

/-!
# Two programs at the ends of two channels

Each of two parties runs a program whose stream is a pair of bounded FIFO
channels.  A write puts any nonempty portion into its channel that there is
room for, a read takes any nonempty portion out of the other one, and the
parties move in any order.  A party whose peer has ended reads the end of the
stream, and its writes may fail.

`Converse` says that two programs, each waiting for the other, exchange given
bytes and end with given results.  It follows the programs byte by byte and
knows neither channels nor schedules; `Converse.sound` says that under every
schedule and all capacities the programs do just what it promises.
-/

namespace Program

variable {β ε α γ : Type}

/-- The program has ended and does not start over. -/
def Finished (resume : α → Option (Program β ε α)) (p : Program β ε α) :
    Prop :=
  ∃ a, p = done a ∧ resume a = none

/-! ## The moves -/

/-- What a party that moves can see: its program, the channel it reads, the
channel it writes, and what it has read so far. -/
structure View (β ε α : Type) where
  program : Program β ε α
  incoming : List β
  outgoing : List β
  received : List β

/-- A move of one party, next to a peer that is `gone` or not. -/
inductive Move (resume : α → Option (Program β ε α)) (capacity : ℕ)
    (gone : Prop) : View β ε α → View β ε α → Prop where
  | advance {p q : Program β ε α} {i o r : List β}
      (h : p.advance resume = some q) :
      Move resume capacity gone ⟨p, i, o, r⟩ ⟨q, i, o, r⟩
  | write (chunk : List β) {rest i o r : List β}
      {next : Except ε Unit → Program β ε α}
      (hne : chunk ≠ []) (hroom : (o ++ chunk).length ≤ capacity) :
      Move resume capacity gone ⟨writeAll (chunk ++ rest) next, i, o, r⟩
        ⟨writeAll rest next, i, o ++ chunk, r⟩
  | broken {b : β} {bs i o r : List β} {next : Except ε Unit → Program β ε α}
      (e : ε) (hgone : gone) :
      Move resume capacity gone ⟨writeAll (b :: bs) next, i, o, r⟩
        ⟨next (.error e), i, o, r⟩
  | read (chunk : List β) {i o r : List β} {n : ℕ}
      {next : Except ε (List β) → Program β ε α}
      (hne : chunk ≠ []) (hle : chunk.length ≤ n) :
      Move resume capacity gone ⟨read n next, chunk ++ i, o, r⟩
        ⟨next (.ok chunk), i, o, r ++ chunk⟩
  | readEnd {o r : List β} {n : ℕ} {next : Except ε (List β) → Program β ε α}
      (hgone : gone) :
      Move resume capacity gone ⟨read (n + 1) next, [], o, r⟩
        ⟨next (.ok []), [], o, r⟩
  | fill (chunk : List β) {i o r : List β} {n : ℕ}
      {next : Except (Option ε) (List β) → Program β ε α} (hne : chunk ≠ []) :
      Move resume capacity gone
        ⟨readExact (chunk.length + n) next, chunk ++ i, o, r⟩
        ⟨readExact n fun x => next (x.map (chunk ++ ·)), i, o, r ++ chunk⟩
  | fillEnd {o r : List β} {n : ℕ}
      {next : Except (Option ε) (List β) → Program β ε α} (hgone : gone) :
      Move resume capacity gone ⟨readExact (n + 1) next, [], o, r⟩
        ⟨next (.error none), [], o, r⟩

/-- The next operation of a party fails or finds the end of the stream, if its
peer has ended. -/
inductive Stranded : View β ε α → Prop where
  | writing {b : β} {bs i o r : List β} {next : Except ε Unit → Program β ε α} :
      Stranded ⟨writeAll (b :: bs) next, i, o, r⟩
  | reading {n : ℕ} {o r : List β} {next : Except ε (List β) → Program β ε α} :
      Stranded ⟨read (n + 1) next, [], o, r⟩
  | filling {n : ℕ} {o r : List β}
      {next : Except (Option ε) (List β) → Program β ε α} :
      Stranded ⟨readExact (n + 1) next, [], o, r⟩

/-- How programs start over, and how much the two channels hold. -/
structure Setting (β ε α γ : Type) where
  resumeLeft : α → Option (Program β ε α)
  resumeRight : γ → Option (Program β ε γ)
  roomRight : ℕ
  roomLeft : ℕ

/-- Two parties, what is under way between them, and what each has read. -/
structure Network (β ε α γ : Type) where
  left : Program β ε α
  right : Program β ε γ
  toRight : List β
  toLeft : List β
  leftReceived : List β
  rightReceived : List β

namespace Setting

/-- The same setting, seen from the other side. -/
def swap (S : Setting β ε α γ) : Setting β ε γ α :=
  ⟨S.resumeRight, S.resumeLeft, S.roomLeft, S.roomRight⟩

end Setting

namespace Network

/-- Both programs, and nothing sent. -/
def start (p : Program β ε α) (q : Program β ε γ) : Network β ε α γ :=
  ⟨p, q, [], [], [], []⟩

def swap (n : Network β ε α γ) : Network β ε γ α :=
  ⟨n.right, n.left, n.toLeft, n.toRight, n.rightReceived, n.leftReceived⟩

/-- What the left party sees. -/
def view (n : Network β ε α γ) : View β ε α :=
  ⟨n.left, n.toLeft, n.toRight, n.leftReceived⟩

/-- The left party has moved. -/
def moved (n : Network β ε α γ) (v : View β ε α) : Network β ε α γ :=
  { n with
    left := v.program
    toLeft := v.incoming
    toRight := v.outgoing
    leftReceived := v.received }

/-- One of the parties moves. -/
inductive Step (S : Setting β ε α γ) :
    Network β ε α γ → Network β ε α γ → Prop where
  | left {n : Network β ε α γ} {v : View β ε α}
      (h : Move S.resumeLeft S.roomRight (Finished S.resumeRight n.right)
        n.view v) : Step S n (n.moved v)
  | right {n : Network β ε α γ} {v : View β ε γ}
      (h : Move S.resumeRight S.roomLeft (Finished S.resumeLeft n.left)
        n.swap.view v) : Step S n (n.swap.moved v).swap

/-- A state that some schedule reaches. -/
def Reachable (S : Setting β ε α γ) : Network β ε α γ → Network β ε α γ → Prop :=
  Relation.ReflTransGen (Step S)

theorem Step.swap {S : Setting β ε α γ} {n n' : Network β ε α γ}
    (h : Step S n n') : Step S.swap n.swap n'.swap := by
  cases h with
  | left h => exact .right h
  | right h => exact .left h

end Network

/-! ## Conversations -/

variable {rl : α → Option (Program β ε α)} {rr : γ → Option (Program β ε γ)}
  {p p' : Program β ε α} {q q' : Program β ε γ} {a a' : α} {c c' : γ}
  {us ds : List β}

/-- The left program sends `us` and ends with `a`, the right one sends `ds` and
ends with `c`; whenever one writes, the other waits for it. -/
inductive Converse (rl : α → Option (Program β ε α))
    (rr : γ → Option (Program β ε γ)) :
    Program β ε α → Program β ε γ → α → γ → List β → List β → Prop where
  | finished {a : α} {c : γ} (hl : rl a = none) (hr : rr c = none) :
      Converse rl rr (done a) (done c) a c [] []
  | advanceLeft {p p' : Program β ε α} {q : Program β ε γ} {a : α} {c : γ}
      {us ds : List β} (h : p.advance rl = some p')
      (hrest : Converse rl rr p' q a c us ds) : Converse rl rr p q a c us ds
  | advanceRight {p : Program β ε α} {q q' : Program β ε γ} {a : α} {c : γ}
      {us ds : List β} (h : q.advance rr = some q')
      (hrest : Converse rl rr p q' a c us ds) : Converse rl rr p q a c us ds
  | toRight {b : β} {bs us ds : List β} {m : ℕ} {a : α} {c : γ}
      {next : Except ε Unit → Program β ε α}
      {next' : Except (Option ε) (List β) → Program β ε γ}
      (hrest : Converse rl rr (writeAll bs next)
        (readExact m fun x => next' (x.map (b :: ·))) a c us ds) :
      Converse rl rr (writeAll (b :: bs) next) (readExact (m + 1) next') a c
        (b :: us) ds
  | toLeft {b : β} {bs us ds : List β} {m : ℕ} {a : α} {c : γ}
      {next : Except (Option ε) (List β) → Program β ε α}
      {next' : Except ε Unit → Program β ε γ}
      (hrest : Converse rl rr (readExact m fun x => next (x.map (b :: ·)))
        (writeAll bs next') a c us ds) :
      Converse rl rr (readExact (m + 1) next) (writeAll (b :: bs) next') a c
        us (b :: ds)

namespace Converse

theorem swap (h : Converse rl rr p q a c us ds) :
    Converse rr rl q p c a ds us := by
  induction h with
  | finished hl hr => exact .finished hr hl
  | advanceLeft h _ ih => exact .advanceRight h ih
  | advanceRight h _ ih => exact .advanceLeft h ih
  | toRight _ ih => exact .toLeft ih
  | toLeft _ ih => exact .toRight ih

theorem of_consumes_nil (hread : Consumes rr q [] q')
    (h : Converse rl rr p q' a c us ds) : Converse rl rr p q a c us ds := by
  generalize hnil : ([] : List β) = bytes at hread
  induction hread with
  | refl => exact h
  | advance hstep _ ih => exact .advanceRight hstep (ih h hnil)
  | byte => cases hnil

/-- The right program reads what the left one writes. -/
theorem send {bytes : List β} (hwrite : Emits rl p bytes p')
    (hread : Consumes rr q bytes q') (h : Converse rl rr p' q' a c us ds) :
    Converse rl rr p q a c (bytes ++ us) ds := by
  induction hwrite generalizing q with
  | refl => exact h.of_consumes_nil hread
  | advance hstep _ ih => exact .advanceLeft hstep (ih hread h)
  | @byte b _ bytes _ _ _ ih =>
      generalize hbytes : b :: bytes = all at hread
      induction hread with
      | refl => cases hbytes
      | advance hstep _ ih' => exact .advanceRight hstep (ih' ih h hbytes)
      | byte hrest =>
          obtain ⟨rfl, rfl⟩ := List.cons.inj hbytes
          exact .toRight (ih hrest h)

theorem receive {bytes : List β} (hwrite : Emits rr q bytes q')
    (hread : Consumes rl p bytes p') (h : Converse rl rr p' q' a c us ds) :
    Converse rl rr p q a c us (bytes ++ ds) :=
  (h.swap.send hwrite hread).swap

/-- A step without the stream does not change what is to come. -/
theorem advance_left (h : Converse rl rr p q a c us ds)
    (hp : p.advance rl = some p') : Converse rl rr p' q a c us ds := by
  induction h with
  | finished hl hr =>
      rw [advance, hl] at hp
      cases hp
  | advanceLeft hstep hrest ih =>
      obtain rfl := Option.some.inj (hstep.symm.trans hp)
      exact hrest
  | advanceRight hstep _ ih => exact .advanceRight hstep (ih hp)
  | toRight => cases hp
  | toLeft => cases hp

theorem advance_right (h : Converse rl rr p q a c us ds)
    (hq : q.advance rr = some q') : Converse rl rr p q' a c us ds :=
  (h.swap.advance_left hq).swap

/-- Where both programs need their stream, one writes what the other reads. -/
theorem cases_of_advance_none (h : Converse rl rr p q a c us ds)
    (hp : p.advance rl = none) (hq : q.advance rr = none) :
    (p = done a ∧ q = done c ∧ us = [] ∧ ds = []) ∨
      (∃ b bs next m next', p = writeAll (b :: bs) next ∧
        q = readExact (m + 1) next') ∨
      ∃ b bs next m next', p = readExact (m + 1) next ∧
        q = writeAll (b :: bs) next' := by
  cases h with
  | finished => exact .inl ⟨rfl, rfl, rfl, rfl⟩
  | advanceLeft hstep =>
      rw [hp] at hstep
      cases hstep
  | advanceRight hstep =>
      rw [hq] at hstep
      cases hstep
  | toRight => exact .inr (.inl ⟨_, _, _, _, _, rfl, rfl⟩)
  | toLeft => exact .inr (.inr ⟨_, _, _, _, _, rfl, rfl⟩)

theorem byte_toRight {b : β} {bs : List β} {m : ℕ}
    {next : Except ε Unit → Program β ε α}
    {next' : Except (Option ε) (List β) → Program β ε γ}
    (h : Converse rl rr (writeAll (b :: bs) next) (readExact (m + 1) next')
      a c us ds) :
    ∃ us', us = b :: us' ∧
      Converse rl rr (writeAll bs next)
        (readExact m fun x => next' (x.map (b :: ·))) a c us' ds := by
  cases h with
  | advanceLeft hstep => cases hstep
  | advanceRight hstep => cases hstep
  | toRight hrest => exact ⟨_, rfl, hrest⟩

theorem emits_byte {b : β} {bs : List β} {next : Except ε Unit → Program β ε α}
    (h : Converse rl rr (writeAll (b :: bs) next) q a c us ds) :
    ∃ q' us', Converse rl rr (writeAll bs next) q' a c us' ds := by
  generalize hp : writeAll (b :: bs) next = p at h
  induction h with
  | finished => cases hp
  | advanceLeft hstep =>
      subst hp
      cases hstep
  | advanceRight _ _ ih => exact ih hp
  | toRight hrest =>
      cases hp
      exact ⟨_, _, hrest⟩
  | toLeft => cases hp

/-- What the left program writes on its way, the right one takes. -/
theorem emits (h : Converse rl rr p q a c us ds) {sent : List β}
    (hsent : Emits rl p sent p') :
    ∃ q' us', Converse rl rr p' q' a c us' ds := by
  induction hsent generalizing q us with
  | refl => exact ⟨q, us, h⟩
  | advance hstep _ ih => exact ih (h.advance_left hstep)
  | byte _ ih =>
      obtain ⟨q', us', hrest⟩ := h.emits_byte
      exact ih hrest

/-- Nothing has been written when the right program does not wait for it. -/
theorem eq_nil_of_emits (h : Converse rl rr p q a c us ds) {sent : List β}
    (hsent : Emits rl p sent p') (hq : q.advance rr = none)
    (hbusy : ∀ m next, q ≠ readExact (m + 1) next) :
    sent = [] ∧ Converse rl rr p' q a c us ds := by
  induction hsent with
  | refl => exact ⟨rfl, h⟩
  | advance hstep _ ih => exact ih (h.advance_left hstep)
  | byte =>
      rcases h.cases_of_advance_none rfl hq with ⟨hp, -⟩ |
        ⟨_, _, _, m, next, -, rfl⟩ | ⟨_, _, _, _, _, hp, -⟩
      · cases hp
      · exact absurd rfl (hbusy m next)
      · cases hp

theorem of_emits_nil (h : Converse rl rr p q a c us ds)
    (hsent : Emits rl p [] p') : Converse rl rr p' q a c us ds := by
  generalize hnil : ([] : List β) = sent at hsent
  induction hsent with
  | refl => exact h
  | advance hstep _ ih => exact ih (h.advance_left hstep) hnil
  | byte => cases hnil

theorem fill_byte {b : β} {sent : List β} {m : ℕ}
    {next : Except (Option ε) (List β) → Program β ε γ}
    (h : Converse rl rr p (readExact (m + 1) next) a c us ds)
    (hsent : Emits rl p (b :: sent) p') :
    ∃ p₁ us', us = b :: us' ∧ Emits rl p₁ sent p' ∧
      Converse rl rr p₁ (readExact m fun x => next (x.map (b :: ·)))
        a c us' ds := by
  generalize hbytes : b :: sent = bytes at hsent
  induction hsent with
  | refl => cases hbytes
  | advance hstep _ ih => exact ih (h.advance_left hstep) hbytes
  | byte hrest =>
      obtain ⟨rfl, rfl⟩ := List.cons.inj hbytes
      obtain ⟨us', rfl, hnext⟩ := h.byte_toRight
      exact ⟨_, us', rfl, hrest, hnext⟩

/-- The right program takes in what the left one has written before. -/
theorem fill {chunk sent : List β} {m : ℕ}
    {next : Except (Option ε) (List β) → Program β ε γ}
    (h : Converse rl rr p (readExact (chunk.length + m) next) a c us ds)
    (hsent : Emits rl p (chunk ++ sent) p') :
    ∃ p₁ us', us = chunk ++ us' ∧ Emits rl p₁ sent p' ∧
      Converse rl rr p₁ (readExact m fun x => next (x.map (chunk ++ ·)))
        a c us' ds := by
  induction chunk generalizing p us next with
  | nil =>
      have hmap : (fun x : Except (Option ε) (List β) =>
          next (x.map ([] ++ ·))) = next := by
        funext x
        cases x <;> rfl
      rw [List.length_nil, Nat.zero_add] at h
      rw [hmap]
      exact ⟨p, us, rfl, hsent, h⟩
  | cons b chunk ih =>
      rw [List.length_cons, Nat.add_right_comm] at h
      obtain ⟨p₁, us₁, rfl, hsent₁, h₁⟩ := h.fill_byte hsent
      obtain ⟨p₂, us₂, rfl, hsent₂, h₂⟩ := ih h₁ hsent₁
      have hmap : (fun x : Except (Option ε) (List β) =>
          next ((x.map (chunk ++ ·)).map (b :: ·))) =
          fun x => next (x.map (b :: chunk ++ ·)) := by
        funext x
        cases x <;> rfl
      rw [hmap] at h₂
      exact ⟨p₂, us₂, rfl, hsent₂, h₂⟩

/-- A program that has ended has the result of the conversation. -/
theorem result_left (h : Converse rl rr (done a') q a c us ds)
    (ha : rl a' = none) : a' = a := by
  generalize hp : done a' = p at h
  induction h with
  | finished =>
      cases hp
      rfl
  | advanceLeft hstep =>
      rw [← hp, advance, ha] at hstep
      cases hstep
  | advanceRight _ _ ih => exact ih hp
  | toRight => cases hp
  | toLeft => cases hp

/-- Nobody waits for a program that has ended. -/
theorem eq_done_of_finished (h : Converse rl rr p q a c us ds)
    {sent : List β} (hsent : Emits rl p sent p') (hq : Finished rr q)
    (hp : p'.advance rl = none) : p' = done a := by
  obtain ⟨c', rfl, hc⟩ := hq
  obtain ⟨-, h'⟩ := h.eq_nil_of_emits hsent hc fun _ _ heq => by cases heq
  rcases h'.cases_of_advance_none hp hc with ⟨hdone, -⟩ |
    ⟨_, _, _, _, _, -, hright⟩ | ⟨_, _, _, _, _, -, hright⟩
  · exact hdone
  · cases hright
  · cases hright

end Converse

/-! ## Runs -/

namespace Network

variable {S : Setting β ε α γ} {n n' : Network β ε α γ} {U D : List β}

/-- The left party is ahead by what is under way to the right. -/
def LeftAhead (S : Setting β ε α γ) (a : α) (c : γ) (U D : List β)
    (n : Network β ε α γ) : Prop :=
  ∃ p us ds, Emits S.resumeLeft p n.toRight n.left ∧
    Converse S.resumeLeft S.resumeRight p n.right a c us ds ∧
      n.toLeft = [] ∧ n.rightReceived ++ us = U ∧ n.leftReceived ++ ds = D

/-- One of the parties is ahead, and nothing is under way to it. -/
def OneAhead (S : Setting β ε α γ) (a : α) (c : γ) (U D : List β)
    (n : Network β ε α γ) : Prop :=
  LeftAhead S a c U D n ∨ LeftAhead S.swap c a D U n.swap

/-- A left party that is ahead is not left alone. -/
theorem LeftAhead.not_stranded_left (h : LeftAhead S a c U D n)
    (hgone : Finished S.resumeRight n.right) : ¬Stranded n.view := by
  obtain ⟨p, us, ds, hsent, hconv, -⟩ := h
  have hdone : n.left.advance S.resumeLeft = none → n.left = done a :=
    hconv.eq_done_of_finished hsent hgone
  obtain ⟨left, right, toRight, toLeft, leftReceived, rightReceived⟩ := n
  dsimp only at hdone
  intro hstranded
  generalize hview : view _ = v at hstranded
  cases hstranded with
  | writing | reading | filling =>
      cases hview
      cases hdone rfl

/-- When the right party does not wait for the left one, nothing is under
way. -/
theorem LeftAhead.idle (h : LeftAhead S a c U D n)
    (hright : n.right.advance S.resumeRight = none)
    (hbusy : ∀ m next, n.right ≠ readExact (m + 1) next) :
    n.toRight = [] ∧ ∃ us ds,
      Converse S.resumeRight S.resumeLeft n.right n.left c a ds us ∧
        n.toLeft = [] ∧ n.rightReceived ++ us = U ∧ n.leftReceived ++ ds = D := by
  obtain ⟨p, us, ds, hsent, hconv, hrest⟩ := h
  obtain ⟨hnil, hconv'⟩ := hconv.eq_nil_of_emits hsent hright hbusy
  exact ⟨hnil, us, ds, hconv'.swap, hrest⟩

/-- A right party that is behind is not left alone either. -/
theorem LeftAhead.not_stranded_right (h : LeftAhead S a c U D n)
    (hgone : Finished S.resumeLeft n.left) : ¬Stranded n.swap.view := by
  have hidle := h.idle
  obtain ⟨p, us, ds, hsent, hconv, -⟩ := h
  obtain ⟨left, right, toRight, toLeft, leftReceived, rightReceived⟩ := n
  dsimp only at hsent hconv hidle
  intro hstranded
  generalize hview : view _ = v at hstranded
  cases hstranded with
  | writing | reading =>
      cases hview
      obtain ⟨-, _, _, hconv', -⟩ := hidle rfl fun _ _ heq => by cases heq
      cases hconv'.eq_done_of_finished (.refl _) hgone rfl
  | filling =>
      cases hview
      have hconv' := (hconv.of_emits_nil hsent).swap
      cases hconv'.eq_done_of_finished (.refl _) hgone rfl

/-- A left party that is ahead moves further ahead. -/
theorem LeftAhead.move_left {v : View β ε α} (h : LeftAhead S a c U D n)
    (hmove : Move S.resumeLeft S.roomRight
      (Finished S.resumeRight n.right) n.view v) :
    LeftAhead S a c U D (n.moved v) := by
  have hserved := h.not_stranded_left
  obtain ⟨p, us, ds, hsent, hconv, hempty, hU, hD⟩ := h
  obtain ⟨left, right, sent, toLeft, leftReceived, rightReceived⟩ := n
  dsimp only at hsent hconv hempty hU hD hserved
  subst hempty
  generalize hview : view _ = w at hmove hserved
  cases hmove with
  | advance hstep =>
      cases hview
      have hsent' := hsent.trans (.advance hstep (.refl _))
      rw [List.append_nil] at hsent'
      exact ⟨p, us, ds, hsent', hconv, rfl, hU, hD⟩
  | write =>
      cases hview
      exact ⟨p, us, ds, hsent.trans (emits_writeAll_append _ _ _), hconv, rfl,
        hU, hD⟩
  | read _ hne | fill _ hne =>
      have hnil : [] = _ ++ _ := congrArg View.incoming hview
      exact absurd (List.append_eq_nil_iff.mp hnil.symm).1 hne
  | broken e hgone => exact absurd .writing (hserved hgone)
  | readEnd hgone => exact absurd .reading (hserved hgone)
  | fillEnd hgone => exact absurd .filling (hserved hgone)

/-- A right party that is behind catches up, or starts to write. -/
theorem LeftAhead.move_right {v : View β ε γ} (h : LeftAhead S a c U D n)
    (hmove : Move S.resumeRight S.roomLeft
      (Finished S.resumeLeft n.left) n.swap.view v) :
    OneAhead S a c U D (n.swap.moved v).swap := by
  have hserved := h.not_stranded_right
  have hidle := h.idle
  obtain ⟨p, us, ds, hsent, hconv, hempty, hU, hD⟩ := h
  obtain ⟨left, right, sent, toLeft, leftReceived, rightReceived⟩ := n
  dsimp only at hsent hconv hempty hU hD hserved hidle
  subst hempty
  generalize hview : view _ = w at hmove hserved
  cases hmove with
  | advance hstep =>
      cases hview
      exact .inl ⟨p, us, ds, hsent, hconv.advance_right hstep, rfl, hU, hD⟩
  | write chunk hne =>
      cases hview
      obtain ⟨b, chunk, rfl⟩ := List.exists_cons_of_ne_nil hne
      obtain ⟨rfl, us', ds', hconv', -, hU', hD'⟩ :=
        hidle rfl fun _ _ heq => by cases heq
      exact .inr ⟨_, ds', us', emits_writeAll_append _ _ _, hconv', rfl, hD',
        hU'⟩
  | @read chunk _ _ _ m _ hne hle =>
      cases hview
      have hpos := List.length_pos_of_ne_nil hne
      obtain ⟨k, rfl⟩ : ∃ k, m = k + 1 := ⟨m - 1, by omega⟩
      obtain ⟨hnil, -⟩ := hidle rfl fun _ _ heq => by cases heq
      exact absurd (List.append_eq_nil_iff.mp hnil).1 hne
  | fill =>
      cases hview
      obtain ⟨p₁, us', rfl, hsent', hconv'⟩ := hconv.fill hsent
      refine .inl ⟨p₁, us', ds, hsent', hconv', rfl, ?_, hD⟩
      rw [← hU]
      exact List.append_assoc _ _ _
  | broken e hgone => exact absurd .writing (hserved hgone)
  | readEnd hgone => exact absurd .reading (hserved hgone)
  | fillEnd hgone => exact absurd .filling (hserved hgone)

theorem OneAhead.step (h : OneAhead S a c U D n) (hstep : Step S n n') :
    OneAhead S a c U D n' := by
  rcases h with h | h
  · cases hstep with
    | left hmove => exact .inl (h.move_left hmove)
    | right hmove => exact h.move_right hmove
  · cases hstep with
    | left hmove => exact (h.move_right (n := n.swap) hmove).symm
    | right hmove => exact .inr (h.move_left hmove)

/-- Both programs have ended with the results and the bytes of their
conversation. -/
structure Complete (S : Setting β ε α γ) (a : α) (c : γ) (U D : List β)
    (n : Network β ε α γ) : Prop where
  left : n.left = done a ∧ S.resumeLeft a = none
  right : n.right = done c ∧ S.resumeRight c = none
  toRight : n.toRight = []
  toLeft : n.toLeft = []
  rightReceived : n.rightReceived = U
  leftReceived : n.leftReceived = D

theorem Complete.swap (h : Complete S a c U D n) :
    Complete S.swap c a D U n.swap :=
  ⟨h.right, h.left, h.toLeft, h.toRight, h.leftReceived, h.rightReceived⟩

/-- A byte can be written into an empty channel. -/
theorem exists_step_of_writeAll {b : β} {bs : List β}
    {next : Except ε Unit → Program β ε α}
    (hleft : n.left = writeAll (b :: bs) next) (hempty : n.toRight = [])
    (hroom : 0 < S.roomRight) : ∃ n', Step S n n' := by
  obtain ⟨left, right, toRight, toLeft, leftReceived, rightReceived⟩ := n
  dsimp only at hleft hempty
  subst hleft hempty
  exact ⟨_, .left (.write [b] (by simp) hroom)⟩

/-- A byte that is under way can be read. -/
theorem exists_step_of_readExact {b : β} {bs : List β} {m : ℕ}
    {next : Except (Option ε) (List β) → Program β ε α}
    (hleft : n.left = readExact (m + 1) next) (hbytes : n.toLeft = b :: bs) :
    ∃ n', Step S n n' := by
  obtain ⟨left, right, toRight, toLeft, leftReceived, rightReceived⟩ := n
  dsimp only at hleft hbytes
  rw [Nat.add_comm] at hleft
  subst hleft hbytes
  exact ⟨_, .left (.fill [b] (by simp))⟩

theorem exists_step_swap (h : ∃ n', Step S.swap n.swap n') :
    ∃ n', Step S n n' := by
  obtain ⟨n', hstep⟩ := h
  exact ⟨n'.swap, hstep.swap⟩

/-- A conversation is never stuck: a party moves, or everything has been
said. -/
theorem LeftAhead.progress (h : LeftAhead S a c U D n)
    (hright : 0 < S.roomRight) (hleft : 0 < S.roomLeft) :
    (∃ n', Step S n n') ∨ Complete S a c U D n := by
  obtain ⟨p, us, ds, hsent, hconv, hempty, hU, hD⟩ := h
  cases hl : n.left.advance S.resumeLeft with
  | some q => exact .inl ⟨_, .left (.advance hl)⟩
  | none =>
  cases hr : n.right.advance S.resumeRight with
  | some q => exact .inl ⟨_, .right (.advance hr)⟩
  | none =>
  -- Both need their stream.
  by_cases hreads : ∃ m next, n.right = readExact (m + 1) next
  · obtain ⟨m, next, hread⟩ := hreads
    cases hbytes : n.toRight with
    | cons b bs =>
        exact .inl (exists_step_swap (exists_step_of_readExact hread hbytes))
    | nil =>
        rw [hbytes] at hsent
        rcases (hconv.of_emits_nil hsent).cases_of_advance_none hl hr with
          ⟨-, hdone, -⟩ | ⟨_, _, _, _, _, hwrite, -⟩ |
          ⟨_, _, _, _, _, -, hwrite⟩
        · rw [hread] at hdone
          cases hdone
        · exact .inl (exists_step_of_writeAll hwrite hbytes hright)
        · rw [hread] at hwrite
          cases hwrite
  · obtain ⟨hnil, hconv'⟩ := hconv.eq_nil_of_emits hsent hr
      fun m next heq => hreads ⟨m, next, heq⟩
    rcases hconv'.cases_of_advance_none hl hr with
      ⟨hdone, hdone', rfl, rfl⟩ | ⟨_, _, _, m, next, -, hread⟩ |
      ⟨_, _, _, _, _, -, hwrite⟩
    · rw [hdone, advance] at hl
      rw [hdone', advance] at hr
      exact .inr ⟨⟨hdone, hl⟩, ⟨hdone', hr⟩, hnil, hempty,
        by simpa using hU, by simpa using hD⟩
    · exact absurd ⟨m, next, hread⟩ hreads
    · exact .inl (exists_step_swap
        (exists_step_of_writeAll hwrite hempty hleft))

theorem OneAhead.progress (h : OneAhead S a c U D n)
    (hright : 0 < S.roomRight) (hleft : 0 < S.roomLeft) :
    (∃ n', Step S n n') ∨ Complete S a c U D n := by
  rcases h with h | h
  · exact h.progress hright hleft
  · exact (h.progress hleft hright).imp exists_step_swap Complete.swap

theorem LeftAhead.result_left (h : LeftAhead S a c U D n)
    (hdone : n.left = done a') (hend : S.resumeLeft a' = none) : a' = a := by
  obtain ⟨p, us, ds, hsent, hconv, -⟩ := h
  obtain ⟨q', us', hconv'⟩ := hconv.emits hsent
  rw [hdone] at hconv'
  exact hconv'.result_left hend

theorem LeftAhead.result_right (h : LeftAhead S a c U D n)
    (hdone : n.right = done c') (hend : S.resumeRight c' = none) : c' = c := by
  obtain ⟨p, us, ds, -, hconv, -⟩ := h
  rw [hdone] at hconv
  exact hconv.swap.result_left hend

theorem OneAhead.result_left (h : OneAhead S a c U D n)
    (hdone : n.left = done a') (hend : S.resumeLeft a' = none) : a' = a := by
  rcases h with h | h
  · exact h.result_left hdone hend
  · exact h.result_right hdone hend

theorem OneAhead.result_right (h : OneAhead S a c U D n)
    (hdone : n.right = done c') (hend : S.resumeRight c' = none) : c' = c := by
  rcases h with h | h
  · exact h.result_right hdone hend
  · exact h.result_left hdone hend

theorem OneAhead.not_stranded_left (h : OneAhead S a c U D n)
    (hgone : Finished S.resumeRight n.right) : ¬Stranded n.view := by
  rcases h with h | h
  · exact h.not_stranded_left hgone
  · exact h.not_stranded_right (n := n.swap) hgone

theorem OneAhead.not_stranded_right (h : OneAhead S a c U D n)
    (hgone : Finished S.resumeLeft n.left) : ¬Stranded n.swap.view := by
  rcases h with h | h
  · exact h.not_stranded_right hgone
  · exact h.not_stranded_left hgone

/-- What a conversation promises for a state of the two parties. -/
structure Sound (S : Setting β ε α γ) (a : α) (c : γ) (U D : List β)
    (n : Network β ε α γ) : Prop where
  /-- No party that has ended has another result. -/
  left : ∀ a', n.left = done a' → S.resumeLeft a' = none → a' = a
  right : ∀ c', n.right = done c' → S.resumeRight c' = none → c' = c
  /-- No party has ended while the other needs it. -/
  servedLeft : Finished S.resumeRight n.right → ¬Stranded n.view
  servedRight : Finished S.resumeLeft n.left → ¬Stranded n.swap.view
  /-- A state without moves is the end of the conversation. -/
  complete : (¬∃ n', Step S n n') → Complete S a c U D n

/-- There is no deadlock. -/
theorem Sound.live (h : Sound S a c U D n) :
    (∃ n', Step S n n') ∨ Complete S a c U D n :=
  or_iff_not_imp_left.mpr h.complete

end Network

open Network in
/-- Under every schedule two programs do what they converse. -/
theorem Converse.sound {S : Setting β ε α γ} {U D : List β}
    (h : Converse S.resumeLeft S.resumeRight p q a c U D)
    (hright : 0 < S.roomRight) (hleft : 0 < S.roomLeft) {n : Network β ε α γ}
    (hn : Reachable S (start p q) n) : Sound S a c U D n := by
  have hahead : OneAhead S a c U D n := by
    induction hn with
    | refl => exact .inl ⟨p, U, D, .refl p, h, rfl, rfl, rfl⟩
    | tail _ hstep ih => exact ih.step hstep
  exact
    { left := fun _ hdone hend => hahead.result_left hdone hend
      right := fun _ hdone hend => hahead.result_right hdone hend
      servedLeft := hahead.not_stranded_left
      servedRight := hahead.not_stranded_right
      complete := fun hstuck =>
        (hahead.progress hright hleft).resolve_left hstuck }

end Program
