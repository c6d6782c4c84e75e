import KnockKnock.Support.Conversation

/-!
# Two programs that read whatever is there

A reader that does not ask for a given number of bytes gets them in portions
that depend on the schedule, and its code goes on from each of them.  `Confer`
says that two programs, each waiting for the other, exchange given bytes and
end with given results whatever the portions are; `Confer.sound` says that
under every schedule and all capacities they do just that.
-/

namespace Program

variable {β ε α γ : Type} {rl : α → Option (Program β ε α)}
  {rr : γ → Option (Program β ε γ)} {p p' q₀ : Program β ε α}
  {q q' : Program β ε γ} {a a' : α} {c c' : γ} {us ds : List β}

/-- The program waits for a portion. -/
inductive Waits : Program β ε α → Prop where
  | read (n : ℕ) (next : Except ε (List β) → Program β ε α) :
      Waits (read (n + 1) next)

/-- The program writes nothing more before it waits or ends. -/
inductive Quiet (resume : α → Option (Program β ε α)) :
    Program β ε α → Prop where
  | ended {a : α} (h : resume a = none) : Quiet resume (done a)
  | waits {p : Program β ε α} (h : Waits p) : Quiet resume p

theorem Quiet.emits {sent : List β} (h : Quiet rl p) (hsent : Emits rl p sent p') :
    sent = [] ∧ p' = p := by
  cases hsent with
  | refl => exact ⟨rfl, rfl⟩
  | advance hstep =>
      obtain ha | hw := h
      · rw [advance, ha] at hstep
        cases hstep
      · cases hw
        cases hstep
  | byte =>
      cases h with
      | waits hw => cases hw

/-- What a program that writes and falls quiet has written at some time. -/
theorem emits_writeAll_cases {bytes sent : List β}
    {next : Except ε Unit → Program β ε α} (h : Quiet rl (next (.ok ())))
    (hsent : Emits rl (writeAll bytes next) sent p') :
    ∃ rest, bytes = sent ++ rest ∧
      (p' = writeAll rest next ∨ rest = [] ∧ p' = next (.ok ())) := by
  generalize hp : writeAll bytes next = p at hsent
  induction hsent generalizing bytes with
  | refl => exact ⟨bytes, rfl, .inl hp.symm⟩
  | advance hstep hrest =>
      subst hp
      match bytes with
      | [] =>
          obtain rfl := Option.some.inj hstep
          obtain ⟨rfl, rfl⟩ := h.emits hrest
          exact ⟨[], rfl, .inr ⟨rfl, rfl⟩⟩
      | b :: bytes => cases hstep
  | byte _ ih =>
      cases hp
      obtain ⟨rest, rfl, hp'⟩ := ih rfl
      exact ⟨rest, rfl, hp'⟩

/-- A program that has written something has made the steps before. -/
theorem Emits.of_advance {b : β} {sent : List β} (h : Emits rl p (b :: sent) p')
    (hstep : p.advance rl = some q₀) : Emits rl q₀ (b :: sent) p' := by
  cases h with
  | advance hstep' hrest =>
      obtain rfl := Option.some.inj (hstep'.symm.trans hstep)
      exact hrest
  | byte => cases hstep

/-! ## Conferences -/

/-- The left program sends `us` and ends with `a`, the right one sends `ds` and
ends with `c`; whenever one writes, the other waits for it, and goes on from
whatever portion it gets. -/
inductive Confer (rl : α → Option (Program β ε α))
    (rr : γ → Option (Program β ε γ)) :
    Program β ε α → Program β ε γ → α → γ → List β → List β → Prop where
  | finished {a : α} {c : γ} (hl : rl a = none) (hr : rr c = none) :
      Confer rl rr (done a) (done c) a c [] []
  | advanceLeft {p p' : Program β ε α} {q : Program β ε γ} {a : α} {c : γ}
      {us ds : List β} (h : p.advance rl = some p')
      (hrest : Confer rl rr p' q a c us ds) : Confer rl rr p q a c us ds
  | advanceRight {p : Program β ε α} {q q' : Program β ε γ} {a : α} {c : γ}
      {us ds : List β} (h : q.advance rr = some q')
      (hrest : Confer rl rr p q' a c us ds) : Confer rl rr p q a c us ds
  | toRight {bytes us ds : List β} {n : ℕ} {a : α} {c : γ}
      {next : Except ε Unit → Program β ε α}
      {next' : Except ε (List β) → Program β ε γ} (hne : bytes ≠ [])
      (hquiet : Quiet rl (next (.ok ())))
      (hrest : ∀ chunk rest, bytes = chunk ++ rest → chunk ≠ [] →
        chunk.length ≤ n + 1 →
        Confer rl rr (writeAll rest next) (next' (.ok chunk)) a c
          (rest ++ us) ds) :
      Confer rl rr (writeAll bytes next) (read (n + 1) next') a c
        (bytes ++ us) ds
  | toLeft {bytes us ds : List β} {n : ℕ} {a : α} {c : γ}
      {next : Except ε (List β) → Program β ε α}
      {next' : Except ε Unit → Program β ε γ} (hne : bytes ≠ [])
      (hquiet : Quiet rr (next' (.ok ())))
      (hrest : ∀ chunk rest, bytes = chunk ++ rest → chunk ≠ [] →
        chunk.length ≤ n + 1 →
        Confer rl rr (next (.ok chunk)) (writeAll rest next') a c us
          (rest ++ ds)) :
      Confer rl rr (read (n + 1) next) (writeAll bytes next') a c us
        (bytes ++ ds)

namespace Confer

theorem swap (h : Confer rl rr p q a c us ds) :
    Confer rr rl q p c a ds us := by
  induction h with
  | finished hl hr => exact .finished hr hl
  | advanceLeft h _ ih => exact .advanceRight h ih
  | advanceRight h _ ih => exact .advanceLeft h ih
  | toRight hne hquiet _ ih => exact .toLeft hne hquiet ih
  | toLeft hne hquiet _ ih => exact .toRight hne hquiet ih

/-- A step without the stream does not change what is to come. -/
theorem advance_left (h : Confer rl rr p q a c us ds)
    (hp : p.advance rl = some p') : Confer rl rr p' q a c us ds := by
  induction h with
  | finished hl hr =>
      rw [advance, hl] at hp
      cases hp
  | advanceLeft hstep hrest =>
      obtain rfl := Option.some.inj (hstep.symm.trans hp)
      exact hrest
  | advanceRight hstep _ ih => exact .advanceRight hstep (ih hp)
  | toRight hne =>
      obtain ⟨b, bs, rfl⟩ := List.exists_cons_of_ne_nil hne
      cases hp
  | toLeft => cases hp

theorem advance_right (h : Confer rl rr p q a c us ds)
    (hq : q.advance rr = some q') : Confer rl rr p q' a c us ds :=
  (h.swap.advance_left hq).swap

/-- Where both programs need their stream, one writes what the other reads. -/
theorem cases_of_advance_none (h : Confer rl rr p q a c us ds)
    (hp : p.advance rl = none) (hq : q.advance rr = none) :
    (p = done a ∧ q = done c ∧ us = [] ∧ ds = []) ∨
      (∃ b bs next, p = writeAll (b :: bs) next ∧ Waits q) ∨
      ∃ b bs next', Waits p ∧ q = writeAll (b :: bs) next' := by
  cases h with
  | finished => exact .inl ⟨rfl, rfl, rfl, rfl⟩
  | advanceLeft hstep =>
      rw [hp] at hstep
      cases hstep
  | advanceRight hstep =>
      rw [hq] at hstep
      cases hstep
  | toRight hne =>
      obtain ⟨b, bs, rfl⟩ := List.exists_cons_of_ne_nil hne
      exact .inr (.inl ⟨b, bs, _, rfl, .read _ _⟩)
  | toLeft hne =>
      obtain ⟨b, bs, rfl⟩ := List.exists_cons_of_ne_nil hne
      exact .inr (.inr ⟨b, bs, _, .read _ _, rfl⟩)

/-- Nothing has been written when the right program does not wait for it. -/
theorem eq_nil_of_emits (h : Confer rl rr p q a c us ds) {sent : List β}
    (hsent : Emits rl p sent p') (hq : q.advance rr = none)
    (hbusy : ¬Waits q) : sent = [] ∧ Confer rl rr p' q a c us ds := by
  induction hsent with
  | refl => exact ⟨rfl, h⟩
  | advance hstep _ ih => exact ih (h.advance_left hstep)
  | byte =>
      rcases h.cases_of_advance_none rfl hq with ⟨hp, -⟩ |
        ⟨_, _, _, -, hwaits⟩ | ⟨_, _, _, hwaits, -⟩
      · cases hp
      · exact absurd hwaits hbusy
      · cases hwaits

theorem of_emits_nil (h : Confer rl rr p q a c us ds)
    (hsent : Emits rl p [] p') : Confer rl rr p' q a c us ds := by
  generalize hnil : ([] : List β) = sent at hsent
  induction hsent with
  | refl => exact h
  | advance hstep _ ih => exact ih (h.advance_left hstep) hnil
  | byte => cases hnil

/-- The right program takes in a portion of what the left one has written. -/
theorem take {chunk sent : List β} {n : ℕ}
    {next : Except ε (List β) → Program β ε γ}
    (h : Confer rl rr p (read (n + 1) next) a c us ds)
    (hsent : Emits rl p (chunk ++ sent) p') (hne : chunk ≠ [])
    (hle : chunk.length ≤ n + 1) :
    ∃ p₁ us', us = chunk ++ us' ∧ Emits rl p₁ sent p' ∧
      Confer rl rr p₁ (next (.ok chunk)) a c us' ds := by
  generalize hq : read (n + 1) next = q at h
  induction h with
  | finished => cases hq
  | advanceLeft hstep _ ih =>
      obtain ⟨b, chunk, rfl⟩ := List.exists_cons_of_ne_nil hne
      exact ih (hsent.of_advance hstep) hq
  | advanceRight hstep =>
      subst hq
      cases hstep
  | toRight _ hquiet hrest =>
      cases hq
      obtain ⟨rest, rfl, hp'⟩ := emits_writeAll_cases hquiet hsent
      refine ⟨_, _, ?_, ?_, hrest chunk (sent ++ rest) ?_ hne hle⟩
      · simp only [List.append_assoc]
      · obtain rfl | ⟨rfl, rfl⟩ := hp'
        · exact emits_writeAll_append _ _ _
        · rw [List.append_nil]
          exact emits_writeAll _ _
      · rw [List.append_assoc]
  | toLeft => cases hq

/-- Nobody fills a buffer in a conference. -/
theorem not_readExact {n : ℕ} {next : Except (Option ε) (List β) → Program β ε γ}
    (h : Confer rl rr p (readExact (n + 1) next) a c us ds) : False := by
  generalize hq : readExact (n + 1) next = q at h
  induction h with
  | finished => cases hq
  | advanceLeft _ _ ih => exact ih hq
  | advanceRight hstep =>
      subst hq
      cases hstep
  | toRight => cases hq
  | toLeft => cases hq

/-- A program that has ended has the result of the conference. -/
theorem result_left (h : Confer rl rr (done a') q a c us ds)
    (ha : rl a' = none) : a' = a := by
  generalize hp : done a' = p at h
  induction h with
  | finished =>
      cases hp
      rfl
  | advanceLeft hstep =>
      rw [← hp, advance, ha] at hstep
      cases hstep
  | advanceRight _ _ ih => exact ih hp
  | toRight => cases hp
  | toLeft => cases hp

/-- Nobody waits for a program that has ended. -/
theorem eq_done_of_finished (h : Confer rl rr p q a c us ds) {sent : List β}
    (hsent : Emits rl p sent p') (hq : Finished rr q)
    (hp : p'.advance rl = none) : p' = done a := by
  obtain ⟨c', rfl, hc⟩ := hq
  obtain ⟨-, h'⟩ := h.eq_nil_of_emits hsent hc fun hw => by cases hw
  rcases h'.cases_of_advance_none hp hc with ⟨hdone, -⟩ | ⟨_, _, _, -, hw⟩ |
    ⟨_, _, _, -, hright⟩
  · exact hdone
  · cases hw
  · cases hright

theorem emits_byte {b : β} {bs : List β} {next : Except ε Unit → Program β ε α}
    (h : Confer rl rr (writeAll (b :: bs) next) q a c us ds) :
    ∃ q' us', Confer rl rr (writeAll bs next) q' a c us' ds := by
  generalize hp : writeAll (b :: bs) next = p at h
  induction h with
  | finished => cases hp
  | advanceLeft hstep =>
      subst hp
      cases hstep
  | advanceRight _ _ ih => exact ih hp
  | toRight _ _ hrest =>
      cases hp
      exact ⟨_, _, hrest [b] bs rfl (by simp) (by simp)⟩
  | toLeft => cases hp

/-- What the left program writes on its way, the right one takes. -/
theorem emits (h : Confer rl rr p q a c us ds) {sent : List β}
    (hsent : Emits rl p sent p') :
    ∃ q' us', Confer rl rr p' q' a c us' ds := by
  induction hsent generalizing q us with
  | refl => exact ⟨q, us, h⟩
  | advance hstep _ ih => exact ih (h.advance_left hstep)
  | byte _ ih =>
      obtain ⟨q', us', hrest⟩ := h.emits_byte
      exact ih hrest

end Confer

/-! ## Loops that collect a word -/

/-- With a proper part of the word, `loop` waits for more; with all of it, it
goes on with `final`. -/
def Gathers (loop : List β → Program β ε γ) (word : List β)
    (final : Program β ε γ) : Prop :=
  ∀ buf rest, word = buf ++ rest → rest ≠ [] →
    ∃ n next, loop buf = read (n + 1) next ∧
      ∀ chunk rest', rest = chunk ++ rest' → chunk ≠ [] →
        next (.ok chunk) = if rest' = [] then final else loop (buf ++ chunk)

namespace Confer

/-- The right program collects what the left one writes, whatever the portions
are in which it arrives. -/
theorem gather {loop : List β → Program β ε γ} {word : List β}
    {final : Program β ε γ} {next : Except ε Unit → Program β ε α}
    (hloop : Gathers loop word final) (hword : word ≠ [])
    (hquiet : Quiet rl (next (.ok ())))
    (h : Confer rl rr (next (.ok ())) final a c us ds) :
    Confer rl rr (writeAll word next) (loop []) a c (word ++ us) ds := by
  suffices hrest : ∀ k buf rest, rest.length ≤ k → word = buf ++ rest →
      rest ≠ [] → Confer rl rr (writeAll rest next) (loop buf) a c
        (rest ++ us) ds from hrest _ [] word (Nat.le_refl _) rfl hword
  intro k
  induction k with
  | zero =>
      intro buf rest hle _ hne
      exact absurd (List.eq_nil_of_length_eq_zero (Nat.le_zero.mp hle)) hne
  | succ k ih =>
      intro buf rest hle hword hne
      obtain ⟨n, next', hread, hnext⟩ := hloop buf rest hword hne
      rw [hread]
      refine .toRight hne hquiet fun chunk rest' hchunk hne' _ => ?_
      rw [hnext chunk rest' hchunk hne']
      by_cases hend : rest' = []
      · rw [if_pos hend, hend]
        exact .advanceLeft rfl h
      · rw [if_neg hend]
        have hpos := List.length_pos_of_ne_nil hne'
        have hlength := congrArg List.length hchunk
        rw [List.length_append] at hlength
        refine ih (buf ++ chunk) rest' (by omega) ?_ hend
        rw [hword, hchunk, List.append_assoc]

end Confer

/-! ## Runs -/

namespace Network

variable {S : Setting β ε α γ} {n n' : Network β ε α γ} {U D : List β}

/-- The left party is ahead by what is under way to the right. -/
def Leads (S : Setting β ε α γ) (a : α) (c : γ) (U D : List β)
    (n : Network β ε α γ) : Prop :=
  ∃ p us ds, Emits S.resumeLeft p n.toRight n.left ∧
    Confer S.resumeLeft S.resumeRight p n.right a c us ds ∧
      n.toLeft = [] ∧ n.rightReceived ++ us = U ∧ n.leftReceived ++ ds = D

/-- One of the parties is ahead, and nothing is under way to it. -/
def OneLeads (S : Setting β ε α γ) (a : α) (c : γ) (U D : List β)
    (n : Network β ε α γ) : Prop :=
  Leads S a c U D n ∨ Leads S.swap c a D U n.swap

/-- A left party that is ahead is not left alone. -/
theorem Leads.not_stranded_left (h : Leads S a c U D n)
    (hgone : Finished S.resumeRight n.right) : ¬Stranded n.view := by
  obtain ⟨p, us, ds, hsent, hconf, -⟩ := h
  have hdone : n.left.advance S.resumeLeft = none → n.left = done a :=
    hconf.eq_done_of_finished hsent hgone
  obtain ⟨left, right, toRight, toLeft, leftReceived, rightReceived⟩ := n
  dsimp only at hdone
  intro hstranded
  generalize hview : view _ = v at hstranded
  cases hstranded with
  | writing | reading | filling =>
      cases hview
      cases hdone rfl

/-- When the right party does not wait for the left one, nothing is under
way. -/
theorem Leads.idle (h : Leads S a c U D n)
    (hright : n.right.advance S.resumeRight = none) (hbusy : ¬Waits n.right) :
    n.toRight = [] ∧ ∃ us ds,
      Confer S.resumeRight S.resumeLeft n.right n.left c a ds us ∧
        n.toLeft = [] ∧ n.rightReceived ++ us = U ∧ n.leftReceived ++ ds = D := by
  obtain ⟨p, us, ds, hsent, hconf, hrest⟩ := h
  obtain ⟨hnil, hconf'⟩ := hconf.eq_nil_of_emits hsent hright hbusy
  exact ⟨hnil, us, ds, hconf'.swap, hrest⟩

/-- A right party that is behind is not left alone either. -/
theorem Leads.not_stranded_right (h : Leads S a c U D n)
    (hgone : Finished S.resumeLeft n.left) : ¬Stranded n.swap.view := by
  have hidle := h.idle
  obtain ⟨p, us, ds, hsent, hconf, -⟩ := h
  obtain ⟨left, right, toRight, toLeft, leftReceived, rightReceived⟩ := n
  dsimp only at hsent hconf hidle
  intro hstranded
  generalize hview : view _ = v at hstranded
  cases hstranded with
  | writing =>
      cases hview
      obtain ⟨-, _, _, hconf', -⟩ := hidle rfl fun hw => by cases hw
      cases hconf'.eq_done_of_finished (.refl _) hgone rfl
  | reading =>
      cases hview
      have hconf' := (hconf.of_emits_nil hsent).swap
      cases hconf'.eq_done_of_finished (.refl _) hgone rfl
  | filling =>
      cases hview
      exact hconf.not_readExact

/-- A left party that is ahead moves further ahead. -/
theorem Leads.move_left {v : View β ε α} (h : Leads S a c U D n)
    (hmove : Move S.resumeLeft S.roomRight
      (Finished S.resumeRight n.right) n.view v) :
    Leads S a c U D (n.moved v) := by
  have hserved := h.not_stranded_left
  obtain ⟨p, us, ds, hsent, hconf, hempty, hU, hD⟩ := h
  obtain ⟨left, right, sent, toLeft, leftReceived, rightReceived⟩ := n
  dsimp only at hsent hconf hempty hU hD hserved
  subst hempty
  generalize hview : view _ = w at hmove hserved
  cases hmove with
  | advance hstep =>
      cases hview
      have hsent' := hsent.trans (.advance hstep (.refl _))
      rw [List.append_nil] at hsent'
      exact ⟨p, us, ds, hsent', hconf, rfl, hU, hD⟩
  | write =>
      cases hview
      exact ⟨p, us, ds, hsent.trans (emits_writeAll_append _ _ _), hconf, rfl,
        hU, hD⟩
  | read _ hne | fill _ hne =>
      have hnil : [] = _ ++ _ := congrArg View.incoming hview
      exact absurd (List.append_eq_nil_iff.mp hnil.symm).1 hne
  | broken e hgone => exact absurd .writing (hserved hgone)
  | readEnd hgone => exact absurd .reading (hserved hgone)
  | fillEnd hgone => exact absurd .filling (hserved hgone)

/-- A right party that is behind catches up, or starts to write. -/
theorem Leads.move_right {v : View β ε γ} (h : Leads S a c U D n)
    (hmove : Move S.resumeRight S.roomLeft
      (Finished S.resumeLeft n.left) n.swap.view v) :
    OneLeads S a c U D (n.swap.moved v).swap := by
  have hserved := h.not_stranded_right
  have hidle := h.idle
  obtain ⟨p, us, ds, hsent, hconf, hempty, hU, hD⟩ := h
  obtain ⟨left, right, sent, toLeft, leftReceived, rightReceived⟩ := n
  dsimp only at hsent hconf hempty hU hD hserved hidle
  subst hempty
  generalize hview : view _ = w at hmove hserved
  cases hmove with
  | advance hstep =>
      cases hview
      exact .inl ⟨p, us, ds, hsent, hconf.advance_right hstep, rfl, hU, hD⟩
  | write chunk hne =>
      cases hview
      obtain ⟨b, chunk, rfl⟩ := List.exists_cons_of_ne_nil hne
      obtain ⟨rfl, us', ds', hconf', -, hU', hD'⟩ :=
        hidle rfl fun hw => by cases hw
      exact .inr ⟨_, ds', us', emits_writeAll_append _ _ _, hconf', rfl, hD',
        hU'⟩
  | @read chunk _ _ _ m _ hne hle =>
      cases hview
      have hpos := List.length_pos_of_ne_nil hne
      obtain ⟨k, rfl⟩ : ∃ k, m = k + 1 := ⟨m - 1, by omega⟩
      obtain ⟨p₁, us', rfl, hsent', hconf'⟩ := hconf.take hsent hne hle
      refine .inl ⟨p₁, us', ds, hsent', hconf', rfl, ?_, hD⟩
      rw [← hU]
      exact List.append_assoc _ _ _
  | @fill chunk _ _ _ m _ hne =>
      cases hview
      have hpos := List.length_pos_of_ne_nil hne
      obtain ⟨k, hk⟩ : ∃ k, chunk.length + m = k + 1 :=
        ⟨chunk.length + m - 1, by omega⟩
      rw [hk] at hconf
      exact hconf.not_readExact.elim
  | broken e hgone => exact absurd .writing (hserved hgone)
  | readEnd hgone => exact absurd .reading (hserved hgone)
  | fillEnd hgone => exact absurd .filling (hserved hgone)

theorem OneLeads.step (h : OneLeads S a c U D n) (hstep : Step S n n') :
    OneLeads S a c U D n' := by
  rcases h with h | h
  · cases hstep with
    | left hmove => exact .inl (h.move_left hmove)
    | right hmove => exact h.move_right hmove
  · cases hstep with
    | left hmove => exact (h.move_right (n := n.swap) hmove).symm
    | right hmove => exact .inr (h.move_left hmove)

/-- A portion of what is under way can be read. -/
theorem exists_step_of_waits {b : β} {bs : List β} (hleft : Waits n.left)
    (hbytes : n.toLeft = b :: bs) : ∃ n', Step S n n' := by
  obtain ⟨left, right, toRight, toLeft, leftReceived, rightReceived⟩ := n
  dsimp only at hleft hbytes
  subst hbytes
  cases hleft with
  | read m next => exact ⟨_, .left (.read [b] (by simp) (by simp))⟩

/-- A conference is never stuck: a party moves, or everything has been said. -/
theorem Leads.progress (h : Leads S a c U D n) (hright : 0 < S.roomRight)
    (hleft : 0 < S.roomLeft) :
    (∃ n', Step S n n') ∨ Complete S a c U D n := by
  obtain ⟨p, us, ds, hsent, hconf, hempty, hU, hD⟩ := h
  cases hl : n.left.advance S.resumeLeft with
  | some q => exact .inl ⟨_, .left (.advance hl)⟩
  | none =>
  cases hr : n.right.advance S.resumeRight with
  | some q => exact .inl ⟨_, .right (.advance hr)⟩
  | none =>
  -- Both need their stream.
  by_cases hwaits : Waits n.right
  · cases hbytes : n.toRight with
    | cons b bs =>
        exact .inl (exists_step_swap (exists_step_of_waits hwaits hbytes))
    | nil =>
        rw [hbytes] at hsent
        rcases (hconf.of_emits_nil hsent).cases_of_advance_none hl hr with
          ⟨-, hdone, -⟩ | ⟨_, _, _, hwrite, -⟩ | ⟨_, _, _, -, hwrite⟩
        · rw [hdone] at hwaits
          cases hwaits
        · exact .inl (exists_step_of_writeAll hwrite hbytes hright)
        · rw [hwrite] at hwaits
          cases hwaits
  · obtain ⟨hnil, hconf'⟩ := hconf.eq_nil_of_emits hsent hr hwaits
    rcases hconf'.cases_of_advance_none hl hr with
      ⟨hdone, hdone', rfl, rfl⟩ | ⟨_, _, _, -, hw⟩ | ⟨_, _, _, -, hwrite⟩
    · rw [hdone, advance] at hl
      rw [hdone', advance] at hr
      exact .inr ⟨⟨hdone, hl⟩, ⟨hdone', hr⟩, hnil, hempty,
        by simpa using hU, by simpa using hD⟩
    · exact absurd hw hwaits
    · exact .inl (exists_step_swap
        (exists_step_of_writeAll hwrite hempty hleft))

theorem OneLeads.progress (h : OneLeads S a c U D n) (hright : 0 < S.roomRight)
    (hleft : 0 < S.roomLeft) :
    (∃ n', Step S n n') ∨ Complete S a c U D n := by
  rcases h with h | h
  · exact h.progress hright hleft
  · exact (h.progress hleft hright).imp exists_step_swap Complete.swap

theorem Leads.result_left (h : Leads S a c U D n) (hdone : n.left = done a')
    (hend : S.resumeLeft a' = none) : a' = a := by
  obtain ⟨p, us, ds, hsent, hconf, -⟩ := h
  obtain ⟨q', us', hconf'⟩ := hconf.emits hsent
  rw [hdone] at hconf'
  exact hconf'.result_left hend

theorem Leads.result_right (h : Leads S a c U D n) (hdone : n.right = done c')
    (hend : S.resumeRight c' = none) : c' = c := by
  obtain ⟨p, us, ds, -, hconf, -⟩ := h
  rw [hdone] at hconf
  exact hconf.swap.result_left hend

/-- What a conference promises holds while one of the parties leads. -/
theorem OneLeads.sound (h : OneLeads S a c U D n) (hright : 0 < S.roomRight)
    (hleft : 0 < S.roomLeft) : Sound S a c U D n where
  left a' hdone hend := by
    rcases h with h | h
    · exact h.result_left hdone hend
    · exact h.result_right hdone hend
  right c' hdone hend := by
    rcases h with h | h
    · exact h.result_right hdone hend
    · exact h.result_left hdone hend
  servedLeft hgone := by
    rcases h with h | h
    · exact h.not_stranded_left hgone
    · exact h.not_stranded_right (n := n.swap) hgone
  servedRight hgone := by
    rcases h with h | h
    · exact h.not_stranded_right hgone
    · exact h.not_stranded_left hgone
  complete hstuck := (h.progress hright hleft).resolve_left hstuck

end Network

open Network in
/-- Under every schedule two programs do what they confer. -/
theorem Confer.sound {S : Setting β ε α γ} {U D : List β}
    (h : Confer S.resumeLeft S.resumeRight p q a c U D)
    (hright : 0 < S.roomRight) (hleft : 0 < S.roomLeft) {n : Network β ε α γ}
    (hn : Reachable S (start p q) n) : Sound S a c U D n := by
  have hleads : OneLeads S a c U D n := by
    induction hn with
    | refl => exact .inl ⟨p, U, D, .refl p, h, rfl, rfl, rfl⟩
    | tail _ hstep ih => exact ih.step hstep
  exact hleads.sound hright hleft

end Program
