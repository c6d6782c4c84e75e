import Mathlib.Data.List.Basic

/-!
# Results of the modelled functions

A function of the source that returns `std::io::Result` either returns a
value, returns an error, or unwinds.  `Outcome` keeps the three apart: `?`
hands an error to the caller, and only a panic escapes code that ignores
errors.
-/

namespace KnockKnock

/-- The source's `str` and `String`, as the scalar values they hold. -/
abbrev Text := List Char

/-- The source's `[u8]` and `Vec<u8>`. -/
abbrev Bytes := List UInt8

/-- The `std::io::ErrorKind`s the source names. -/
inductive ErrorKind where
  | notFound
  | invalidInput
  | invalidData
  | unexpectedEof
  | timedOut
  | other
deriving DecidableEq, Repr

/-- How a call can fail to return a value. -/
inductive Fault where
  | panic
  | error (kind : ErrorKind) (message : Text)
deriving DecidableEq, Repr

abbrev Outcome := Except Fault

namespace Outcome

variable {α β : Type}

/-- `io::Error::new(kind, message)` -/
def fail (kind : ErrorKind) (message : Text) : Outcome α :=
  .error (.error kind message)

/-- `result.unwrap()` -/
def unwrap {ε : Type} : Except ε α → Outcome α
  | .ok a => .ok a
  | .error _ => .error .panic

/-- `&bytes[n..]` -/
def sliceFrom (bytes : Bytes) (n : ℕ) : Outcome Bytes :=
  if n ≤ bytes.length then .ok (bytes.drop n) else .error .panic

/-- `bytes[i]` -/
def index (bytes : Bytes) (i : ℕ) : Outcome UInt8 :=
  match bytes[i]? with
  | some b => .ok b
  | none => .error .panic

/-- `&bytes[a..b]` -/
def slice (bytes : Bytes) (a b : ℕ) : Outcome Bytes :=
  if a ≤ b ∧ b ≤ bytes.length then .ok ((bytes.take b).drop a)
  else .error .panic

theorem index_eq_ok {bytes : Bytes} {i : ℕ} (h : i < bytes.length) :
    index bytes i = .ok (bytes.getD i 0) := by
  unfold index
  rw [List.getD_eq_getElem?_getD, List.getElem?_eq_getElem h]
  rfl

theorem sliceFrom_eq_ok {bytes : Bytes} {n : ℕ} (h : n ≤ bytes.length) :
    sliceFrom bytes n = .ok (bytes.drop n) := if_pos h

theorem length_of_sliceFrom {bytes rest : Bytes} {n : ℕ}
    (h : sliceFrom bytes n = .ok rest) : n + rest.length = bytes.length := by
  unfold sliceFrom at h
  split at h
  · cases h
    rw [List.length_drop]
    omega
  · cases h

theorem slice_eq_ok {bytes : Bytes} {a b : ℕ} (hab : a ≤ b)
    (hb : b ≤ bytes.length) :
    slice bytes a b = .ok ((bytes.take b).drop a) := if_pos ⟨hab, hb⟩

/-- The call comes back to its caller with an error. -/
def IsErr : Outcome α → Prop
  | .error (.error _ _) => True
  | _ => False

@[simp] theorem isErr_fail (kind : ErrorKind) (message : Text) :
    IsErr (fail kind message : Outcome α) := trivial

@[simp] theorem not_isErr_ok (a : α) : ¬IsErr (.ok a : Outcome α) := id

@[simp] theorem not_isErr_pure (a : α) : ¬IsErr (pure a : Outcome α) := id

/-- The call comes back to its caller, with a value or with an error. -/
def Returns (o : Outcome α) : Prop := o ≠ .error .panic

instance [DecidableEq α] (o : Outcome α) : Decidable o.Returns :=
  inferInstanceAs (Decidable (_ ≠ _))

@[simp] theorem returns_ok (a : α) : Returns (.ok a : Outcome α) := by
  simp [Returns]

@[simp] theorem returns_pure (a : α) : Returns (pure a : Outcome α) := by
  simp [Returns, pure, Except.pure]

@[simp] theorem returns_fail (kind : ErrorKind) (message : Text) :
    Returns (fail kind message : Outcome α) := by
  simp [Returns, fail]

@[simp] theorem not_returns_panic :
    ¬Returns (.error .panic : Outcome α) := by
  simp [Returns]

theorem bind_ok (a : α) (f : α → Outcome β) :
    ((.ok a : Outcome α) >>= f) = f a := rfl

theorem bind_error (e : Fault) (f : α → Outcome β) :
    ((.error e : Outcome α) >>= f) = .error e := rfl

/-- What a sequence of two calls needs in order to yield a value. -/
theorem bind_eq_ok_iff {o : Outcome α} {f : α → Outcome β} {b : β} :
    (o >>= f) = .ok b ↔ ∃ a, o = .ok a ∧ f a = .ok b := by
  cases o with
  | error e => simp [bind_error]
  | ok a => simp [bind_ok]

/-- When the second call never unwinds, only the first can. -/
theorem returns_bind_iff {o : Outcome α} {f : α → Outcome β}
    (hf : ∀ a, o = .ok a → (f a).Returns) :
    (o >>= f).Returns ↔ o.Returns := by
  cases o with
  | error e => simp [bind_error, Returns]
  | ok a => simpa [bind_ok] using hf a rfl

/-! ## Refusals -/

/-- The call returns an error, or a value with the property `P`. -/
def RefusedOr (P : α → Prop) : Outcome α → Prop
  | .ok a => P a
  | .error (.error _ _) => True
  | .error .panic => False

variable {P : α → Prop} {Q : β → Prop}

@[simp] theorem refusedOr_ok (a : α) :
    RefusedOr P (.ok a : Outcome α) ↔ P a := Iff.rfl

@[simp] theorem refusedOr_pure (a : α) :
    RefusedOr P (pure a : Outcome α) ↔ P a := Iff.rfl

@[simp] theorem refusedOr_fail (kind : ErrorKind) (message : Text) :
    RefusedOr P (fail kind message : Outcome α) := trivial

@[simp] theorem not_refusedOr_panic :
    ¬RefusedOr P (.error .panic : Outcome α) := id

theorem RefusedOr.bind {o : Outcome α} {f : α → Outcome β}
    (ho : RefusedOr P o) (hf : ∀ a, P a → RefusedOr Q (f a)) :
    RefusedOr Q (o >>= f) := by
  cases o with
  | ok a => exact hf a ho
  | error e =>
      cases e with
      | panic => exact ho
      | error kind message => trivial

end Outcome

end KnockKnock
