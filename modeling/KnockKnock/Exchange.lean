import KnockKnock.Session
import KnockKnock.Support.Conversation

/-!
# Exchanges as programs

An `Exchange` is code over a stream that ends with a result or a fault, written
down operation by operation, so that it can be run next to another party.  Run
as a `Session`, on a connection that takes all writes and delivers given bytes,
it is the same code as before.
-/

namespace KnockKnock

/-- Code over a stream, as a program. -/
abbrev Exchange := ExceptT Fault (Program UInt8 Fault)

namespace Exchange

variable {α γ : Type}

/-- A computation that leaves the stream alone. -/
def lift (o : Outcome α) : Exchange α := ExceptT.mk (.done o)

/-- `stream.write_all(bytes)` -/
def writeAll (bytes : Bytes) : Exchange Unit :=
  ExceptT.mk (.writeAll bytes .done)

/-- `stream.read(&mut buffer)`: the bytes it puts into the buffer. -/
def read (size : ℕ) : Exchange Bytes := ExceptT.mk (.read size .done)

/-- What `read_exact` makes of the end of the stream. -/
def orEarly (early : Text) : Except (Option Fault) Bytes → Outcome Bytes
  | .ok bytes => .ok bytes
  | .error (some e) => .error e
  | .error none => Outcome.fail .unexpectedEof early

/-- `stream.read_exact(&mut buffer)`, with its text for an early end. -/
def readExactOr (early : Text) (size : ℕ) : Exchange Bytes :=
  ExceptT.mk (.readExact size fun r => .done (orEarly early r))

/-- `read_exact` of tokio. -/
def readExact : ℕ → Exchange Bytes := readExactOr "early eof".toList

/-- `let _ = x;`: an error is dropped, a panic is not. -/
def ignore (x : Exchange α) : Exchange Unit :=
  ExceptT.mk do
    match ← x.run with
    | .error .panic => .done (.error .panic)
    | _ => .done (.ok ())

/-! ## What exchanges write and read -/

variable {resume : Outcome γ → Option (Program UInt8 Fault (Outcome γ))}

theorem emits_bind (bytes : Bytes) (f : Unit → Exchange γ) :
    Program.Emits resume (writeAll bytes >>= f).run bytes (f ()).run :=
  Program.emits_writeAll bytes _

theorem consumes_bind {x : Exchange α} {bytes : Bytes} {a : α}
    (h : Program.Consumes Program.halt x.run bytes (.done (.ok a)))
    (f : α → Exchange γ) :
    Program.Consumes resume (x >>= f).run bytes (f a).run :=
  h.bind resume _

theorem consumes_readExactOr (early : Text) {bytes : Bytes} {n : ℕ}
    (h : bytes.length = n) :
    Program.Consumes Program.halt (readExactOr early n).run bytes
      (.done (.ok bytes)) :=
  Program.consumes_readExact h _

/-! ## Exchanges as sessions -/

/-- A program on a connection that takes all writes. -/
def deliver : Program UInt8 Fault α → StateM Duplex α
  | .done a, c => (a, c)
  | .writeAll bytes next, c =>
      deliver (next (.ok ())) { c with written := c.written ++ bytes }
  | .read size next, c =>
      deliver (next (.ok (c.incoming.read size).1))
        { c with incoming := (c.incoming.read size).2 }
  | .readExact size next, c =>
      deliver (next
          (match (c.incoming.readExact size).1 with
          | some bytes => .ok bytes
          | none => .error none))
        { c with incoming := (c.incoming.readExact size).2 }

/-- One operation of a program on such a connection. -/
inductive Step : Program UInt8 Fault α × Duplex →
    Program UInt8 Fault α × Duplex → Prop
  | writeAll (bytes : Bytes)
      (next : Except Fault Unit → Program UInt8 Fault α) (c : Duplex) :
      Step (.writeAll bytes next, c)
        (next (.ok ()), { c with written := c.written ++ bytes })
  | read (size : ℕ) (next : Except Fault Bytes → Program UInt8 Fault α)
      (c : Duplex) :
      Step (.read size next, c)
        (next (.ok (c.incoming.read size).1),
          { c with incoming := (c.incoming.read size).2 })
  | readExact (size : ℕ)
      (next : Except (Option Fault) Bytes → Program UInt8 Fault α)
      (c : Duplex) :
      Step (.readExact size next, c)
        (next
          (match (c.incoming.readExact size).1 with
          | some bytes => .ok bytes
          | none => .error none),
        { c with incoming := (c.incoming.readExact size).2 })

/-- The operations lead to the result. -/
theorem steps_deliver (p : Program UInt8 Fault α) (c : Duplex) :
    Relation.ReflTransGen Step (p, c)
      (.done (deliver p c).1, (deliver p c).2) := by
  induction p generalizing c with
  | done a => exact .refl
  | writeAll bytes next ih => exact .head (.writeAll bytes next c) (ih _ _)
  | read size next ih => exact .head (.read size next c) (ih _ _)
  | readExact size next ih => exact .head (.readExact size next c) (ih _ _)

def toSession (x : Exchange α) : Session α := ExceptT.mk (deliver x.run)

theorem deliver_bind (p : Program UInt8 Fault α)
    (f : α → Program UInt8 Fault γ) (c : Duplex) :
    deliver (p >>= f) c = deliver (f (deliver p c).1) (deliver p c).2 := by
  induction p generalizing c with
  | done a => rfl
  | writeAll bytes next ih => exact ih _ _
  | read size next ih => exact ih _ _
  | readExact size next ih => exact ih _ _

theorem toSession_lift (o : Outcome α) :
    toSession (lift o) = Session.lift o := rfl

theorem toSession_writeAll (bytes : Bytes) :
    toSession (writeAll bytes) = Session.writeAll bytes := rfl

theorem toSession_ignore_writeAll (bytes : Bytes) :
    toSession (ignore (writeAll bytes)) = Session.writeAll bytes := rfl

theorem toSession_read (size : ℕ) :
    toSession (read size) = Session.read size := rfl

theorem toSession_readExact (size : ℕ) :
    toSession (readExact size) = Session.readExact size := by
  funext c
  change (orEarly "early eof".toList
    (match (c.incoming.readExact size).1 with
    | some bytes => .ok bytes
    | none => .error none), _) = (match (c.incoming.readExact size).1 with
    | some bytes => .ok bytes
    | none => Outcome.fail .unexpectedEof "early eof".toList, _)
  cases (c.incoming.readExact size).1 <;> rfl

/-- The session of a sequence is the sequence of the sessions. -/
theorem toSession_bind (x : Exchange α) (f : α → Exchange γ) :
    toSession (x >>= f) = toSession x >>= fun a => toSession (f a) := by
  funext c
  change deliver (x.run >>= _) c = Session.run (toSession x >>= _) c
  rw [deliver_bind]
  rcases h : Session.run (toSession x) c with ⟨e | a, c'⟩
  · rw [Session.run_bind_error h]
    change deliver x.run c = _ at h
    rw [h]
    rfl
  · rw [Session.run_bind_ok h]
    change deliver x.run c = _ at h
    rw [h]
    rfl

end Exchange

end KnockKnock
