import KnockKnock.Support.ByteStream
import KnockKnock.Support.Program

/-!
# Programs against a peer

A peer takes all writes and sends its bytes in segments of its own choice;
behind the last one its stream ends, properly or with an error.  A program
`Listens` if it reads before anything else that could end it.  Such a program
has heard of the peer unless the peer sends nothing at all.
-/

namespace Program

open ByteStream

variable {β ε α γ : Type}

/-- What a peer sends, and the error its stream ends with, if any. -/
structure Peer (β ε : Type) where
  sends : Delivery β
  ending : Option ε

/-- What a read of `size` elements returns when it has put `bytes` into its
buffer.  A read that finds room and puts nothing there is at the end. -/
def readResult (ending : Option ε) (size : ℕ) (bytes : List β) :
    Except ε (List β) :=
  match ending with
  | none => .ok bytes
  | some e => if size ≠ 0 ∧ bytes.isEmpty then .error e else .ok bytes

/-- The result of a program, and what it has left unread. -/
def run (ending : Option ε) :
    Program β ε α → Delivery β → α × Delivery β
  | done a, d => (a, d)
  | writeAll _ next, d => run ending (next (.ok ())) d
  | read size next, d =>
      run ending (next (readResult ending size (d.read size).1))
        (d.read size).2
  | readExact size next, d =>
      run ending
        (next
          (match (d.readExact size).1 with
          | some bytes => .ok bytes
          | none => .error ending))
        (d.readExact size).2

variable {p : Program β ε α}

/-- A run takes bytes off the front of the stream. -/
theorem run_isSuffix (ending : Option ε) (p : Program β ε α)
    (d : Delivery β) : (run ending p d).2.bytes <:+ d.bytes := by
  induction p generalizing d with
  | done a => exact List.suffix_rfl
  | writeAll bytes next ih => exact ih _ d
  | read size next ih =>
      refine (ih _ _).trans ?_
      exact ⟨(d.read size).1, d.read_append size⟩
  | readExact size next ih =>
      refine (ih _ _).trans ?_
      rw [Delivery.readExact_bytes]
      exact List.drop_suffix size d.bytes

namespace Peer

/-- The result of a program against this peer. -/
def result (peer : Peer β ε) (p : Program β ε α) : α :=
  (run peer.ending p peer.sends).1

/-- All that a program receives from this peer. -/
def received (peer : Peer β ε) (p : Program β ε α) : List β :=
  peer.sends.bytes.take (peer.sends.bytes.length -
    (run peer.ending p peer.sends).2.bytes.length)

variable {peer : Peer β ε}

theorem received_append (peer : Peer β ε) (p : Program β ε α) :
    peer.received p ++ (run peer.ending p peer.sends).2.bytes =
      peer.sends.bytes := by
  obtain ⟨front, hfront⟩ := run_isSuffix peer.ending p peer.sends
  rw [received, ← hfront, List.length_append, Nat.add_sub_cancel,
    List.take_left]

end Peer

/-! ## Listening -/

/-- The program reads before it can end. -/
inductive Listens : Program β ε α → Prop where
  | read (n : ℕ) (next : Except ε (List β) → Program β ε α) :
      Listens (.read (n + 1) next)
  | readExact (n : ℕ)
      (next : Except (Option ε) (List β) → Program β ε α) :
      Listens (.readExact (n + 1) next)
  | writeAll {bytes : List β} {next : Except ε Unit → Program β ε α}
      (h : Listens (next (.ok ()))) : Listens (.writeAll bytes next)

theorem Listens.bind (h : Listens p) (f : α → Program β ε γ) :
    Listens (p >>= f) := by
  induction h with
  | read n next => exact .read n _
  | readExact n next => exact .readExact n _
  | writeAll _ ih => exact .writeAll ih

/-- It takes some of what there is. -/
theorem Listens.length_lt (h : Listens p) (ending : Option ε)
    {d : Delivery β} (hd : d.bytes ≠ []) :
    (run ending p d).2.bytes.length < d.bytes.length := by
  induction h with
  | read n next =>
      have hread : (d.read (n + 1)).1 ≠ [] :=
        Delivery.read_ne_nil (Nat.succ_pos n) hd
      have hlength := congrArg List.length (d.read_append (n + 1))
      rw [List.length_append] at hlength
      have hpos := List.length_pos_of_ne_nil hread
      have hrest :=
        (run_isSuffix ending (next (readResult ending (n + 1)
          (d.read (n + 1)).1)) (d.read (n + 1)).2).length_le
      rw [run]
      omega
  | readExact n next =>
      have hpos := List.length_pos_of_ne_nil hd
      refine Nat.lt_of_le_of_lt (run_isSuffix ending _
        (d.readExact (n + 1)).2).length_le ?_
      rw [Delivery.readExact_bytes, List.length_drop]
      omega
  | writeAll _ ih => exact ih

/-- A program that listens hears of every peer that sends. -/
theorem Listens.received_ne_nil (h : Listens p) {peer : Peer β ε}
    (hsends : peer.sends.bytes ≠ []) : peer.received p ≠ [] := by
  have hlt := h.length_lt peer.ending hsends
  rw [Peer.received, Ne, List.take_eq_nil_iff, not_or]
  exact ⟨by omega, hsends⟩

end Program
