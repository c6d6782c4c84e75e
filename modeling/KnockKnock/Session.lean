import KnockKnock.Outcome
import KnockKnock.Support.ByteStream
import KnockKnock.Support.Utf8

/-!
# Exchanges over one connection

The pingers that speak over a stream are generic in it; all they use is
`write_all`, `read` and `read_exact`.  A `Session` runs against what the peer
sends, in the segments in which it arrives, and records what it writes, also
when it ends with an error.
-/

namespace KnockKnock

open ByteStream Wire

/-- A connection: what is still to arrive, and what has been written. -/
structure Duplex where
  incoming : Delivery UInt8
  written : Bytes

/-- Code that reads from and writes to a connection. -/
abbrev Session := ExceptT Fault (StateM Duplex)

namespace Session

variable {α β : Type}

/-- The result, and the connection as it is left. -/
def run (p : Session α) (c : Duplex) : Outcome α × Duplex :=
  (ExceptT.run p).run c

/-- A connection on which nothing has been written. -/
def opened (d : Delivery UInt8) : Duplex := ⟨d, []⟩

/-- A computation that leaves the connection alone. -/
def lift (o : Outcome α) : Session α := ExceptT.mk (pure o)

/-- `stream.write_all(bytes)`, on a connection that takes them. -/
def writeAll (bytes : Bytes) : Session Unit :=
  ExceptT.mk fun c => (.ok (), { c with written := c.written ++ bytes })

/-- `stream.read(&mut buffer)`: the bytes it puts into the buffer. -/
def read (size : ℕ) : Session Bytes :=
  ExceptT.mk fun c =>
    (.ok (c.incoming.read size).1,
      { c with incoming := (c.incoming.read size).2 })

/-- `stream.read_exact(&mut buffer)` -/
def readExact (size : ℕ) : Session Bytes :=
  ExceptT.mk fun c =>
    (match (c.incoming.readExact size).1 with
      | some bytes => .ok bytes
      | none => Outcome.fail .unexpectedEof "early eof".toList,
      { c with incoming := (c.incoming.readExact size).2 })

/-- A loop of `stream.read(&mut buffer)` that collects what the reads return,
up to the one that returns nothing. -/
def readToEnd (size : ℕ) : Session Bytes :=
  ExceptT.mk fun c =>
    (.ok (c.incoming.readToEnd size []).1,
      { c with incoming := (c.incoming.readToEnd size []).2 })

@[simp] theorem run_pure (a : α) (c : Duplex) :
    run (pure a) c = (.ok a, c) := rfl

@[simp] theorem run_lift (o : Outcome α) (c : Duplex) :
    run (lift o) c = (o, c) := rfl

@[simp] theorem run_writeAll (bytes : Bytes) (c : Duplex) :
    run (writeAll bytes) c =
      (.ok (), { c with written := c.written ++ bytes }) := rfl

@[simp] theorem run_read (size : ℕ) (c : Duplex) :
    run (read size) c =
      (.ok (c.incoming.read size).1,
        { c with incoming := (c.incoming.read size).2 }) := rfl

/-- A step that succeeds hands its connection to the next one. -/
theorem run_bind_ok {p : Session α} {f : α → Session β} {c c' : Duplex}
    {a : α} (h : run p c = (.ok a, c')) :
    run (p >>= f) c = run (f a) c' := by
  unfold run at *
  change (ExceptT.run p >>= ExceptT.bindCont f).run c = _
  rw [StateT.run_bind, h]
  rfl

/-- A step that fails ends the session. -/
theorem run_bind_error {p : Session α} {f : α → Session β} {c c' : Duplex}
    {e : Fault} (h : run p c = (.error e, c')) :
    run (p >>= f) c = (.error e, c') := by
  unfold run at *
  change (ExceptT.run p >>= ExceptT.bindCont f).run c = _
  rw [StateT.run_bind, h]
  rfl

/-- Reading `size` bytes takes them off the stream, if it has as many. -/
theorem run_readExact_ok {size : ℕ} {c : Duplex} {bytes rest : Bytes}
    (h : takeExact size c.incoming.bytes = some (bytes, rest)) :
    ∃ c', run (readExact size) c = (.ok bytes, c') ∧
      c'.incoming.bytes = rest ∧ c'.written = c.written := by
  obtain ⟨hbytes, hlength⟩ := takeExact_eq_some_iff.mp h
  obtain ⟨htake, hdrop⟩ := Delivery.readExact_of_le
    (by rw [hbytes, List.length_append]; omega :
      size ≤ c.incoming.bytes.length)
  rw [hbytes, List.take_left' hlength] at htake
  rw [hbytes, List.drop_left' hlength] at hdrop
  refine ⟨{ c with incoming := (c.incoming.readExact size).2 }, ?_, hdrop,
    rfl⟩
  change ((match (c.incoming.readExact size).1 with
    | some bytes => .ok bytes
    | none => Outcome.fail .unexpectedEof "early eof".toList : Outcome Bytes),
    _) = _
  rw [htake]

theorem run_readExact_error {size : ℕ} {c : Duplex}
    (h : takeExact size c.incoming.bytes = none) :
    ∃ e c', run (readExact size) c = (.error e, c') ∧
      c'.written = c.written := by
  have hlt : c.incoming.bytes.length < size := by
    by_contra hle
    rw [takeExact, if_pos (by omega)] at h
    cases h
  have hnone := Delivery.readExact_of_lt hlt
  refine ⟨.error .unexpectedEof "early eof".toList,
    { c with incoming := (c.incoming.readExact size).2 }, ?_, rfl⟩
  change ((match (c.incoming.readExact size).1 with
    | some bytes => .ok bytes
    | none => Outcome.fail .unexpectedEof "early eof".toList : Outcome Bytes),
    _) = _
  rw [hnone]
  rfl

end Session

end KnockKnock
