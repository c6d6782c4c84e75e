import KnockKnock.Support.Conversation

/-!
# Assertions about programs

An assertion speaks of the bytes that a program has read and of those that it
has written.  `Keeps` says that a program keeps one assertion at all times and
ends in another, whoever is at the far end and however the bytes are cut; it is
defined along the program, with one rule for each operation and one for
sequences.  Under every schedule two programs keep what each of them promises.
-/

namespace Program

variable {β ε α γ : Type}

/-- What a program promises of the bytes it has read and written. -/
structure Promise (β α : Type) where
  /-- At any time. -/
  always : List β → List β → Prop
  /-- With a result. -/
  after : α → List β → List β → Prop

/-- The program keeps the promise from now on, having read and written so
much. -/
def Keeps (P : Promise β α) : Program β ε α → List β → List β → Prop
  | done a, r, w => P.always r w ∧ P.after a r w
  | writeAll bytes next, r, w =>
      (∀ front, front <+: bytes → P.always r (w ++ front)) ∧
        Keeps P (next (.ok ())) r (w ++ bytes) ∧
        ∀ e front, front <+: bytes → Keeps P (next (.error e)) r (w ++ front)
  | read n next, r, w =>
      P.always r w ∧
        (∀ chunk, chunk.length ≤ n →
          Keeps P (next (.ok chunk)) (r ++ chunk) w) ∧
        ∀ e, Keeps P (next (.error e)) r w
  | readExact n next, r, w =>
      (∀ chunk, chunk.length ≤ n → P.always (r ++ chunk) w) ∧
        (∀ chunk, chunk.length = n →
          Keeps P (next (.ok chunk)) (r ++ chunk) w) ∧
        ∀ e chunk, chunk.length < n →
          Keeps P (next (.error e)) (r ++ chunk) w

/-- What a program that starts over promises, it promises again. -/
def Promise.Renews (P : Promise β α) (resume : α → Option (Program β ε α)) :
    Prop :=
  ∀ a p r w, resume a = some p → P.after a r w → Keeps P p r w

theorem Promise.renews_halt (P : Promise β α) :
    P.Renews (halt : α → Option (Program β ε α)) := nofun

variable {P Q : Promise β α} {p : Program β ε α} {r w : List β}

namespace Keeps

theorem always (h : Keeps P p r w) : P.always r w := by
  cases p with
  | done a => exact h.1
  | writeAll bytes next =>
      have hnow := h.1 [] List.nil_prefix
      rwa [List.append_nil] at hnow
  | read n next => exact h.1
  | readExact n next =>
      have hnow := h.1 [] (Nat.zero_le n)
      rwa [List.append_nil] at hnow

theorem mono (h : Keeps P p r w) (halways : ∀ r w, P.always r w → Q.always r w)
    (hafter : ∀ a r w, P.always r w → P.after a r w → Q.after a r w) :
    Keeps Q p r w := by
  induction p generalizing r w with
  | done a => exact ⟨halways _ _ h.1, hafter _ _ _ h.1 h.2⟩
  | writeAll bytes next ih =>
      exact ⟨fun front hfront => halways _ _ (h.1 front hfront),
        ih _ h.2.1, fun e front hfront => ih _ (h.2.2 e front hfront)⟩
  | read n next ih =>
      exact ⟨halways _ _ h.1, fun chunk hle => ih _ (h.2.1 chunk hle),
        fun e => ih _ (h.2.2 e)⟩
  | readExact n next ih =>
      exact ⟨fun chunk hle => halways _ _ (h.1 chunk hle),
        fun chunk hlength => ih _ (h.2.1 chunk hlength),
        fun e chunk hlt => ih _ (h.2.2 e chunk hlt)⟩

/-- A sequence keeps what its first part keeps until the second can begin. -/
theorem bind {Q : Promise β γ} {f : α → Program β ε γ}
    (h : Keeps ⟨Q.always, fun a => Keeps Q (f a)⟩ p r w) :
    Keeps Q (p >>= f) r w := by
  induction p generalizing r w with
  | done a => exact h.2
  | writeAll bytes next ih =>
      exact ⟨h.1, ih _ h.2.1, fun e front hfront => ih _ (h.2.2 e front hfront)⟩
  | read n next ih =>
      exact ⟨h.1, fun chunk hle => ih _ (h.2.1 chunk hle),
        fun e => ih _ (h.2.2 e)⟩
  | readExact n next ih =>
      exact ⟨h.1, fun chunk hlength => ih _ (h.2.1 chunk hlength),
        fun e chunk hlt => ih _ (h.2.2 e chunk hlt)⟩

/-- A program that is to write has written some of it. -/
theorem writeAll_append {chunk rest : List β}
    {next : Except ε Unit → Program β ε α}
    (h : Keeps P (.writeAll (chunk ++ rest) next) r w) :
    Keeps P (.writeAll rest next) r (w ++ chunk) := by
  obtain ⟨hfront, hok, herror⟩ := h
  refine ⟨fun front hprefix => ?_, ?_, fun e front hprefix => ?_⟩
  · rw [List.append_assoc]
    exact hfront _ ((List.prefix_append_right_inj chunk).mpr hprefix)
  · rw [List.append_assoc]
    exact hok
  · rw [List.append_assoc]
    exact herror e _ ((List.prefix_append_right_inj chunk).mpr hprefix)

/-- A program that fills a buffer has filled some of it. -/
theorem readExact_append {chunk : List β} {n : ℕ}
    {next : Except (Option ε) (List β) → Program β ε α}
    (h : Keeps P (.readExact (chunk.length + n) next) r w) :
    Keeps P (.readExact n fun x => next (x.map (chunk ++ ·))) (r ++ chunk) w := by
  obtain ⟨hpart, hok, herror⟩ := h
  refine ⟨fun more hle => ?_, fun more hlength => ?_, fun e more hlt => ?_⟩
  · rw [List.append_assoc]
    exact hpart _ (by rw [List.length_append]; omega)
  · rw [List.append_assoc]
    exact hok _ (by rw [List.length_append]; omega)
  · rw [List.append_assoc]
    exact herror e _ (by rw [List.length_append]; omega)

theorem advance {resume : α → Option (Program β ε α)} {p' : Program β ε α}
    (h : Keeps P p r w) (hrenews : P.Renews resume)
    (hstep : p.advance resume = some p') : Keeps P p' r w := by
  match p with
  | done a => exact hrenews a p' r w hstep h.2
  | .writeAll [] next =>
      obtain rfl := Option.some.inj hstep
      have hnext := h.2.1
      rwa [List.append_nil] at hnext
  | .writeAll (b :: bytes) next => cases hstep
  | .read 0 next =>
      obtain rfl := Option.some.inj hstep
      have hnext := h.2.1 [] (Nat.le_refl 0)
      rwa [List.append_nil] at hnext
  | .read (n + 1) next => cases hstep
  | .readExact 0 next =>
      obtain rfl := Option.some.inj hstep
      have hnext := h.2.1 [] rfl
      rwa [List.append_nil] at hnext
  | .readExact (n + 1) next => cases hstep

/-- A move of a party keeps its promise. -/
theorem move {resume : α → Option (Program β ε α)} {capacity : ℕ} {gone : Prop}
    {v v' : View β ε α} (h : Keeps P v.program v.received w)
    (hrenews : P.Renews resume) (hmove : Move resume capacity gone v v') :
    ∃ sent, v'.outgoing = v.outgoing ++ sent ∧
      Keeps P v'.program v'.received (w ++ sent) := by
  have hquiet : ∀ v' : View β ε α, v'.outgoing = v.outgoing →
      Keeps P v'.program v'.received w → ∃ sent,
        v'.outgoing = v.outgoing ++ sent ∧
          Keeps P v'.program v'.received (w ++ sent) := by
    intro v' hout hkeeps
    exact ⟨[], by rw [hout, List.append_nil], by rwa [List.append_nil]⟩
  cases hmove with
  | advance hstep => exact hquiet _ rfl (h.advance hrenews hstep)
  | write chunk => exact ⟨chunk, rfl, h.writeAll_append⟩
  | broken e =>
      have hnext := h.2.2 e [] List.nil_prefix
      rw [List.append_nil] at hnext
      exact hquiet _ rfl hnext
  | read chunk _ hle => exact hquiet _ rfl (h.2.1 chunk hle)
  | readEnd =>
      have hnext := h.2.1 [] (Nat.zero_le _)
      rw [List.append_nil] at hnext
      exact hquiet _ rfl hnext
  | fill chunk => exact hquiet _ rfl h.readExact_append
  | fillEnd =>
      have hnext := h.2.2 none [] (Nat.succ_pos _)
      rw [List.append_nil] at hnext
      exact hquiet _ rfl hnext

end Keeps

/-- The promise of nothing. -/
def Promise.nothing : Promise β α := ⟨fun _ _ => True, fun _ _ _ => True⟩

theorem keeps_nothing (p : Program β ε α) (r w : List β) :
    Keeps .nothing p r w := by
  induction p generalizing r w with
  | done a => exact ⟨trivial, trivial⟩
  | writeAll bytes next ih =>
      exact ⟨fun _ _ => trivial, ih _ _ _, fun _ _ _ => ih _ _ _⟩
  | read n next ih => exact ⟨trivial, fun _ _ => ih _ _ _, fun _ => ih _ _ _⟩
  | readExact n next ih =>
      exact ⟨fun _ _ => trivial, fun _ _ => ih _ _ _, fun _ _ _ => ih _ _ _⟩

theorem Promise.renews_nothing (resume : α → Option (Program β ε α)) :
    (nothing : Promise β α).Renews resume :=
  fun _ p r w _ _ => keeps_nothing p r w

/-- A move does not lose what is under way to its party. -/
theorem Move.received_append {resume : α → Option (Program β ε α)}
    {capacity : ℕ} {gone : Prop} {v v' : View β ε α}
    (h : Move resume capacity gone v v') :
    v'.received ++ v'.incoming = v.received ++ v.incoming := by
  cases h with
  | advance | write | broken | readEnd | fillEnd => rfl
  | read chunk | fill chunk => exact List.append_assoc _ _ _

namespace Network

variable {S : Setting β ε α γ} {R : Promise β γ} {n n' : Network β ε α γ}

/-- Both parties keep their promises; what one of them has written has been
read by the other or is under way. -/
structure Kept (P : Promise β α) (R : Promise β γ) (n : Network β ε α γ) :
    Prop where
  left : Keeps P n.left n.leftReceived (n.rightReceived ++ n.toRight)
  right : Keeps R n.right n.rightReceived (n.leftReceived ++ n.toLeft)

theorem Kept.swap (h : Kept P R n) : Kept R P n.swap := ⟨h.right, h.left⟩

theorem Kept.move_left {v : View β ε α} (h : Kept P R n)
    (hrenews : P.Renews S.resumeLeft)
    (hmove : Move S.resumeLeft S.roomRight (Finished S.resumeRight n.right)
      n.view v) : Kept P R (n.moved v) := by
  obtain ⟨sent, hsent, hkeeps⟩ := h.left.move (v := n.view) hrenews hmove
  constructor
  · change Keeps P v.program v.received (n.rightReceived ++ v.outgoing)
    rw [hsent]
    rw [List.append_assoc] at hkeeps
    exact hkeeps
  · change Keeps R n.right n.rightReceived (v.received ++ v.incoming)
    rw [hmove.received_append]
    exact h.right

theorem Kept.step (h : Kept P R n) (hleft : P.Renews S.resumeLeft)
    (hright : R.Renews S.resumeRight) (hstep : Step S n n') : Kept P R n' := by
  cases hstep with
  | left hmove => exact h.move_left hleft hmove
  | right hmove =>
      exact (h.swap.move_left (S := S.swap) (n := n.swap) hright hmove).swap

/-- Under every schedule, and with channels of any capacity, both parties keep
their promises. -/
theorem Reachable.kept {p : Program β ε α} {q : Program β ε γ}
    (hn : Reachable S (start p q) n) (hp : Keeps P p [] []) (hq : Keeps R q [] [])
    (hleft : P.Renews S.resumeLeft) (hright : R.Renews S.resumeRight) :
    Kept P R n := by
  induction hn with
  | refl => exact ⟨hp, hq⟩
  | tail _ hstep ih => exact ih.step hleft hright hstep

/-- A party keeps its promise whatever the other one does. -/
theorem Reachable.keeps_left {p : Program β ε α} {q : Program β ε γ}
    (hn : Reachable S (start p q) n) (hp : Keeps P p [] [])
    (hleft : P.Renews S.resumeLeft) :
    Keeps P n.left n.leftReceived (n.rightReceived ++ n.toRight) :=
  (hn.kept hp (keeps_nothing q [] []) hleft (Promise.renews_nothing _)).left

theorem Reachable.keeps_right {p : Program β ε α} {q : Program β ε γ}
    (hn : Reachable S (start p q) n) (hq : Keeps R q [] [])
    (hright : R.Renews S.resumeRight) :
    Keeps R n.right n.rightReceived (n.leftReceived ++ n.toLeft) :=
  (hn.kept (keeps_nothing p [] []) hq (Promise.renews_nothing _) hright).right

end Network

end Program
