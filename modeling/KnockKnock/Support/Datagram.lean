import Mathlib.Data.List.Infix

/-!
# Datagrams in a buffer

A buffer keeps the beginning of a datagram; what does not fit is lost.  A test
that looks at no more than the buffer holds is the same test on both.
-/

namespace Datagram

variable {α : Type} {n i k : ℕ} {d w : List α}

/-- What `recv` leaves in a buffer of the size `n`. -/
def recv (n : ℕ) (d : List α) : List α := d.take n

/-- Nothing is lost of a datagram that fits. -/
theorem recv_eq_self (h : d.length ≤ n) : recv n d = d :=
  List.take_of_length_le h

theorem le_length_recv_iff (h : k ≤ n) :
    k ≤ (recv n d).length ↔ k ≤ d.length := by
  rw [recv, List.length_take]
  omega

theorem getD_recv (h : i < n) (a : α) : (recv n d).getD i a = d.getD i a := by
  simp only [recv, List.getD_eq_getElem?_getD, List.getElem?_take_of_lt h]

theorem drop_recv : (recv n d).drop k = recv (n - k) (d.drop k) :=
  List.drop_take

theorem take_recv (h : k ≤ n) : (recv n d).take k = d.take k := by
  rw [recv, List.take_take, Nat.min_eq_left h]

theorem prefix_recv_iff (h : w.length ≤ n) : w <+: recv n d ↔ w <+: d := by
  rw [recv, List.prefix_take_iff, and_iff_left h]

end Datagram
