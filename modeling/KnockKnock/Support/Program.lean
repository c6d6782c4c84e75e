import Mathlib.Data.List.Basic

/-!
# Programs over a stream

A `Program` says what its code does next with its stream, and how it goes on
from the outcome.  Programs are data, so they can be run against a peer that is
given in advance, or next to another program at the far end of two channels.

A stream moves bytes in portions of its own choice.  `Emits` and `Consumes` say
which bytes a program writes or reads on its way, however they are cut.
-/

/-- Code that uses one stream, ready for its next operation. -/
inductive Program (β ε α : Type) where
  | done (result : α)
  | writeAll (bytes : List β) (next : Except ε Unit → Program β ε α)
  | read (size : ℕ) (next : Except ε (List β) → Program β ε α)
  /-- The error is `none` where the stream ends early. -/
  | readExact (size : ℕ)
      (next : Except (Option ε) (List β) → Program β ε α)

namespace Program

variable {β ε α γ : Type}

/-- One program after the other. -/
def andThen (f : α → Program β ε γ) : Program β ε α → Program β ε γ
  | done a => f a
  | writeAll bytes next => writeAll bytes fun r => andThen f (next r)
  | read size next => read size fun r => andThen f (next r)
  | readExact size next => readExact size fun r => andThen f (next r)

instance : Monad (Program β ε) where
  pure := done
  bind p f := andThen f p

/-! ## Steps without the stream -/

/-- The next step of a program that needs no stream for it.  `resume` tells
whether a program that is done starts over. -/
def advance (resume : α → Option (Program β ε α)) :
    Program β ε α → Option (Program β ε α)
  | done a => resume a
  | writeAll [] next => some (next (.ok ()))
  | writeAll (_ :: _) _ => none
  | read 0 next => some (next (.ok []))
  | read (_ + 1) _ => none
  | readExact 0 next => some (next (.ok []))
  | readExact (_ + 1) _ => none

/-- A program that does not start over. -/
def halt : α → Option (Program β ε α) := fun _ => none

theorem advance_bind {p q : Program β ε α} (h : p.advance halt = some q)
    (resume : γ → Option (Program β ε γ)) (f : α → Program β ε γ) :
    (p >>= f).advance resume = some (q >>= f) := by
  match p with
  | done a => cases h
  | writeAll [] next =>
      obtain rfl := Option.some.inj h
      rfl
  | writeAll (_ :: _) next => cases h
  | read 0 next =>
      obtain rfl := Option.some.inj h
      rfl
  | read (_ + 1) next => cases h
  | readExact 0 next =>
      obtain rfl := Option.some.inj h
      rfl
  | readExact (_ + 1) next => cases h

variable {resume : α → Option (Program β ε α)} {p p' p'' : Program β ε α}
  {bytes bytes' : List β}

/-! ## What a program writes -/

/-- `p` writes the bytes one after the other and becomes `p'`. -/
inductive Emits (resume : α → Option (Program β ε α)) :
    Program β ε α → List β → Program β ε α → Prop where
  | refl (p : Program β ε α) : Emits resume p [] p
  | advance {p q p' : Program β ε α} {bytes : List β}
      (h : p.advance resume = some q) (hrest : Emits resume q bytes p') :
      Emits resume p bytes p'
  | byte {b : β} {bs bytes : List β}
      {next : Except ε Unit → Program β ε α} {p' : Program β ε α}
      (hrest : Emits resume (writeAll bs next) bytes p') :
      Emits resume (writeAll (b :: bs) next) (b :: bytes) p'

theorem Emits.trans (h : Emits resume p bytes p')
    (h' : Emits resume p' bytes' p'') :
    Emits resume p (bytes ++ bytes') p'' := by
  induction h with
  | refl p => exact h'
  | advance hstep _ ih => exact .advance hstep (ih h')
  | byte _ ih => exact .byte (ih h')

theorem emits_writeAll_append (chunk rest : List β)
    (next : Except ε Unit → Program β ε α) :
    Emits resume (writeAll (chunk ++ rest) next) chunk
      (writeAll rest next) := by
  induction chunk with
  | nil => exact .refl _
  | cons b chunk ih => exact .byte ih

theorem emits_writeAll (bytes : List β)
    (next : Except ε Unit → Program β ε α) :
    Emits resume (writeAll bytes next) bytes (next (.ok ())) := by
  have h := (emits_writeAll_append bytes [] next).trans
    (.advance rfl (.refl (next (.ok ()))) : Emits resume _ [] _)
  simpa using h

theorem Emits.bind (h : Emits halt p bytes p')
    (resume : γ → Option (Program β ε γ)) (f : α → Program β ε γ) :
    Emits resume (p >>= f) bytes (p' >>= f) := by
  induction h with
  | refl p => exact .refl _
  | advance hstep _ ih => exact .advance (advance_bind hstep resume f) ih
  | byte _ ih => exact .byte ih

/-! ## What a program reads -/

/-- `p` fills buffers with the bytes one after the other and becomes `p'`. -/
inductive Consumes (resume : α → Option (Program β ε α)) :
    Program β ε α → List β → Program β ε α → Prop where
  | refl (p : Program β ε α) : Consumes resume p [] p
  | advance {p q p' : Program β ε α} {bytes : List β}
      (h : p.advance resume = some q) (hrest : Consumes resume q bytes p') :
      Consumes resume p bytes p'
  | byte {b : β} {n : ℕ} {bytes : List β}
      {next : Except (Option ε) (List β) → Program β ε α}
      {p' : Program β ε α}
      (hrest : Consumes resume
        (readExact n fun r => next (r.map (b :: ·))) bytes p') :
      Consumes resume (readExact (n + 1) next) (b :: bytes) p'

theorem Consumes.trans (h : Consumes resume p bytes p')
    (h' : Consumes resume p' bytes' p'') :
    Consumes resume p (bytes ++ bytes') p'' := by
  induction h with
  | refl p => exact h'
  | advance hstep _ ih => exact .advance hstep (ih h')
  | byte _ ih => exact .byte (ih h')

theorem consumes_readExact {n : ℕ} (h : bytes.length = n)
    (next : Except (Option ε) (List β) → Program β ε α) :
    Consumes resume (readExact n next) bytes (next (.ok bytes)) := by
  induction bytes generalizing n next with
  | nil =>
      subst h
      exact .advance rfl (.refl _)
  | cons b bytes ih =>
      subst h
      exact .byte (ih rfl fun r => next (r.map (b :: ·)))

theorem Consumes.bind (h : Consumes halt p bytes p')
    (resume : γ → Option (Program β ε γ)) (f : α → Program β ε γ) :
    Consumes resume (p >>= f) bytes (p' >>= f) := by
  induction h with
  | refl p => exact .refl _
  | advance hstep _ ih => exact .advance (advance_bind hstep resume f) ih
  | byte _ ih => exact .byte ih

end Program
