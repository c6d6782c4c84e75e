import KnockKnock.Support.Portions

/-!
# Runs end

A program that does not start over makes finitely many moves: each takes it to
a program behind an operation, or makes the operation shorter.  A loop next to
it may go round as often as there is something to read.  A conversation or a
conference of two such parties therefore comes to its end under every schedule.
-/

namespace Program

variable {β ε α γ : Type}

/-- The second program comes to the first one by a move; a quiet move reads
nothing. -/
def Follows (resume : α → Option (Program β ε α)) (quiet : Prop)
    (q p : Program β ε α) : Prop :=
  ∃ capacity gone v v', Move resume capacity gone v v' ∧ v.program = p ∧
    v'.program = q ∧ (quiet → v'.incoming = v.incoming)

/-- The program does not start over unless it reads something. -/
def LeavesAtEnd (resume : α → Option (Program β ε α)) : Program β ε α → Prop
  | done a => resume a = none
  | writeAll _ next => ∀ r, LeavesAtEnd resume (next r)
  | read _ next => LeavesAtEnd resume (next (.ok []))
  | readExact n next =>
      (n = 0 → LeavesAtEnd resume (next (.ok []))) ∧
        LeavesAtEnd resume (next (.error none))

section Follows

variable {resume : α → Option (Program β ε α)} {quiet : Prop}

theorem acc_done {a : α}
    (h : ∀ q, resume a = some q → Acc (Follows resume quiet) q) :
    Acc (Follows resume quiet) (done a) := by
  refine .intro _ fun q hq => ?_
  obtain ⟨capacity, gone, v, v', hmove, hp, rfl, -⟩ := hq
  cases hmove with
  | advance hstep =>
      subst hp
      exact h _ hstep
  | write | broken | read | readEnd | fill | fillEnd => cases hp

theorem acc_writeAll {next : Except ε Unit → Program β ε α}
    (h : ∀ r, Acc (Follows resume quiet) (next r)) (bytes : List β) :
    Acc (Follows resume quiet) (writeAll bytes next) := by
  induction hk : bytes.length using Nat.strongRecOn generalizing bytes with
  | _ k ih =>
    refine .intro _ fun q hq => ?_
    obtain ⟨capacity, gone, v, v', hmove, hp, rfl, -⟩ := hq
    cases hmove with
    | advance hstep =>
        subst hp
        match bytes with
        | [] =>
            obtain rfl := Option.some.inj hstep
            exact h _
        | b :: bytes => cases hstep
    | write chunk hne =>
        cases hp
        have hpos := List.length_pos_of_ne_nil hne
        rw [List.length_append] at hk
        exact ih _ (by omega) _ rfl
    | broken =>
        cases hp
        exact h _
    | read | readEnd | fill | fillEnd => cases hp

theorem not_append_eq_self {chunk i : List β} (hne : chunk ≠ []) :
    i ≠ chunk ++ i := by
  intro h
  exact hne (List.append_left_eq_self.mp h.symm)

theorem acc_read {next : Except ε (List β) → Program β ε α}
    (hend : Acc (Follows resume quiet) (next (.ok [])))
    (h : ¬quiet → ∀ r, Acc (Follows resume quiet) (next r)) (n : ℕ) :
    Acc (Follows resume quiet) (read n next) := by
  refine .intro _ fun q hq => ?_
  obtain ⟨capacity, gone, v, v', hmove, hp, rfl, hquiet⟩ := hq
  cases hmove with
  | advance hstep =>
      subst hp
      match n with
      | 0 =>
          obtain rfl := Option.some.inj hstep
          exact hend
      | n + 1 => cases hstep
  | read chunk hne =>
      cases hp
      exact h (fun hq => not_append_eq_self hne (hquiet hq)) _
  | readEnd =>
      cases hp
      exact hend
  | write | broken | fill | fillEnd => cases hp

theorem acc_readExact {next : Except (Option ε) (List β) → Program β ε α}
    {n : ℕ} (hfull : n = 0 → Acc (Follows resume quiet) (next (.ok [])))
    (hend : Acc (Follows resume quiet) (next (.error none)))
    (h : ¬quiet → ∀ r, Acc (Follows resume quiet) (next r)) :
    Acc (Follows resume quiet) (readExact n next) := by
  induction n using Nat.strongRecOn generalizing next with
  | _ n ih =>
    refine .intro _ fun q hq => ?_
    obtain ⟨capacity, gone, v, v', hmove, hp, rfl, hquiet⟩ := hq
    cases hmove with
    | advance hstep =>
        subst hp
        match n with
        | 0 =>
            obtain rfl := Option.some.inj hstep
            exact hfull rfl
        | n + 1 => cases hstep
    | fill chunk hne =>
        cases hp
        have hall := h fun hq => not_append_eq_self hne (hquiet hq)
        have hpos := List.length_pos_of_ne_nil hne
        exact ih _ (by omega) (fun _ => hall _) (hall _) fun _ _ => hall _
    | fillEnd =>
        cases hp
        exact hend
    | write | broken | read | readEnd => cases hp

theorem LeavesAtEnd.acc {p : Program β ε α} (h : LeavesAtEnd resume p) :
    Acc (Follows resume True) p := by
  have hread : ∀ {τ : Type} (next : τ → Program β ε α), ¬True →
      ∀ r, Acc (Follows resume True) (next r) := fun _ hno =>
    absurd trivial hno
  induction p with
  | done a => exact acc_done fun q hq => by cases h.symm.trans hq
  | writeAll bytes next ih => exact acc_writeAll (fun r => ih _ (h r)) bytes
  | read n next ih => exact acc_read (ih _ h) (hread next) n
  | readExact n next ih =>
      exact acc_readExact (fun hn => ih _ (h.1 hn)) (ih _ h.2) (hread next)

/-- Where a program that is done leads to no infinite run, none does. -/
theorem acc_follows
    (h : ∀ a q, resume a = some q → Acc (Follows resume quiet) q)
    (p : Program β ε α) : Acc (Follows resume quiet) p := by
  induction p with
  | done a => exact acc_done (h a)
  | writeAll bytes next ih => exact acc_writeAll ih bytes
  | read n next ih => exact acc_read (ih _) (fun _ => ih) n
  | readExact n next ih =>
      exact acc_readExact (fun _ => ih _) (ih _) fun _ => ih

/-- A move reads something, or nothing. -/
theorem Move.incoming_cases {capacity : ℕ} {gone : Prop} {v v' : View β ε α}
    (h : Move resume capacity gone v v') :
    v'.incoming = v.incoming ∨ v'.incoming.length < v.incoming.length := by
  cases h with
  | advance | write | broken | readEnd | fillEnd => exact .inl rfl
  | read chunk hne | fill chunk hne =>
      have hpos := List.length_pos_of_ne_nil hne
      refine .inr ?_
      dsimp only
      rw [List.length_append]
      omega

end Follows

/-! ## Runs of two programs -/

/-- The left party does not start over, and the right one does so only when it
has read something. -/
structure Setting.Ends (S : Setting β ε α γ) : Prop where
  left : S.resumeLeft = halt
  right : ∀ c q, S.resumeRight c = some q → LeavesAtEnd S.resumeRight q

namespace Network

variable {S : Setting β ε α γ}

/-- There is no infinite run of two such parties. -/
theorem acc_step (hS : S.Ends) (n : Network β ε α γ) :
    Acc (fun n' n => Step S n n') n := by
  obtain ⟨left, right, toRight, toLeft, leftReceived, rightReceived⟩ := n
  have hall : Acc (Follows (halt : α → Option (Program β ε α)) False) left :=
    acc_follows nofun left
  -- The left program first, then what is under way to the right, then the right
  -- program.
  induction hall generalizing right toRight toLeft leftReceived
    rightReceived with
  | intro left _ ihleft =>
    induction hk : toRight.length using Nat.strongRecOn generalizing right toRight
      toLeft leftReceived rightReceived with
    | _ k ihread =>
      induction acc_follows (fun c q h => (hS.right c q h).acc) right generalizing
        toRight toLeft leftReceived
        rightReceived with
      | intro right _ ihright =>
        refine .intro _ fun n' hstep => ?_
        cases hstep with
        | left hmove =>
            rw [hS.left] at hmove
            exact ihleft _ ⟨_, _, _, _, hmove, rfl, rfl, nofun⟩ _ _ _ _ _
        | right hmove =>
            obtain hsame | hless := hmove.incoming_cases
            · exact ihright _ ⟨_, _, _, _, hmove, rfl, rfl, fun _ => hsame⟩ _ _ _ _
                ((congrArg List.length hsame).trans hk)
            · exact ihread _ (Nat.lt_of_lt_of_eq hless hk) _ _ _ _ _ rfl

/-- Under every schedule the programs end after finitely many moves, with these
results, and have exchanged these bytes. -/
structure Succeeds (S : Setting β ε α γ) (p : Program β ε α)
    (q : Program β ε γ) (a : α) (c : γ) (U D : List β) : Prop where
  sound : ∀ n, Reachable S (start p q) n → Sound S a c U D n
  ends : Acc (fun n' n => Step S n n') (start p q)

variable {p : Program β ε α} {q : Program β ε γ} {a : α} {c : γ} {U D : List β}

/-- Some state is reached in which both have ended. -/
theorem Succeeds.exists_complete (h : Succeeds S p q a c U D) :
    ∃ n, Reachable S (start p q) n ∧ Complete S a c U D n := by
  have hrun : ∀ n, Acc (fun n' n => Step S n n') n →
      Reachable S (start p q) n →
      ∃ n, Reachable S (start p q) n ∧ Complete S a c U D n := by
    intro n hacc
    induction hacc with
    | intro n _ ih =>
      intro hn
      obtain ⟨n', hstep⟩ | hcomplete := (h.sound n hn).live
      · exact ih n' hstep (hn.tail hstep)
      · exact ⟨n, hn, hcomplete⟩
  exact hrun _ h.ends .refl

end Network

open Network

section

variable {S : Setting β ε α γ} {p : Program β ε α} {q : Program β ε γ} {a : α}
  {c : γ} {U D : List β}

theorem Confer.succeeds (h : Confer S.resumeLeft S.resumeRight p q a c U D)
    (hS : S.Ends) (hright : 0 < S.roomRight) (hleft : 0 < S.roomLeft) :
    Succeeds S p q a c U D where
  sound _ hn := h.sound hright hleft hn
  ends := acc_step hS _

theorem Converse.succeeds (h : Converse S.resumeLeft S.resumeRight p q a c U D)
    (hS : S.Ends) (hright : 0 < S.roomRight) (hleft : 0 < S.roomLeft) :
    Succeeds S p q a c U D where
  sound _ hn := h.sound hright hleft hn
  ends := acc_step hS _

end

/-! ## Runs by hand -/

variable {S : Setting β ε α γ} {p p' : Program β ε α} {q : Program β ε γ}
  {o i l r : List β}

/-- The left program writes some of its bytes. -/
theorem reachable_write {front rest : List β}
    {next : Except ε Unit → Program β ε α} (hne : front ≠ [])
    (hroom : (o ++ front).length ≤ S.roomRight) :
    Reachable S ⟨writeAll (front ++ rest) next, q, o, i, l, r⟩
      ⟨writeAll rest next, q, o ++ front, i, l, r⟩ :=
  .single (.left (v := ⟨writeAll rest next, i, o ++ front, l⟩)
    (.write front hne hroom))

/-- The left program reads some of what there is. -/
theorem reachable_read {chunk : List β} {n : ℕ}
    {next : Except ε (List β) → Program β ε α} (hne : chunk ≠ [])
    (hle : chunk.length ≤ n) :
    Reachable S ⟨read n next, q, o, chunk ++ i, l, r⟩
      ⟨next (.ok chunk), q, o, i, l ++ chunk, r⟩ :=
  .single (.left (v := ⟨next (.ok chunk), i, o, l ++ chunk⟩)
    (.read chunk hne hle))

theorem reachable_advance (h : p.advance S.resumeLeft = some p') :
    Reachable S ⟨p, q, o, i, l, r⟩ ⟨p', q, o, i, l, r⟩ :=
  .single (.left (v := ⟨p', i, o, l⟩) (.advance h))

theorem Network.Reachable.swap {S : Setting β ε α γ} {n n' : Network β ε α γ}
    (h : Reachable S n n') : Reachable S.swap n.swap n'.swap := by
  induction h with
  | refl => exact .refl
  | tail _ hstep ih => exact ih.tail hstep.swap

end Program
