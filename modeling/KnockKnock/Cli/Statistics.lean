import KnockKnock.Outcome
import KnockKnock.Support.Bounded
import KnockKnock.Support.Numeral
import Mathlib.Algebra.Ring.Nat
import Mathlib.Order.Fin.Basic

/-!
# Repeated pings

The command line and the MCP server repeat a ping and add up what comes back,
in loops of their own: one counts the losses, the other the answers.
-/

namespace KnockKnock

open Numeral

/-- The source's `u64`. -/
abbrev U64 := Fin (2 ^ 64)

/-- `std::time::Duration`, in nanoseconds: 64 bits of seconds. -/
abbrev Duration := Fin (2 ^ 64 * 10 ^ 9)

/-- `isize::MAX` on a 64-bit target. -/
def isizeMax : ℕ := 2 ^ 63 - 1

namespace Outcome

variable {limit : ℕ} {a b c : Fin limit}

/-- Arithmetic unwinds where it has no result. -/
def orPanic {α : Type} : Option α → Outcome α
  | some a => .ok a
  | none => .error .panic

theorem orPanic_eq_ok_iff {α : Type} {o : Option α} {a : α} :
    orPanic o = .ok a ↔ o = some a := by
  cases o with
  | none => exact iff_of_false nofun nofun
  | some b => rw [orPanic, Except.ok.injEq, Option.some.injEq]

/-- `a + b` -/
def add (a b : Fin limit) : Outcome (Fin limit) := orPanic (Bounded.add a b)

/-- `a - b` -/
def sub (a b : Fin limit) : Outcome (Fin limit) := orPanic (Bounded.sub a b)

/-- `a * b` -/
def mul (a b : Fin limit) : Outcome (Fin limit) := orPanic (Bounded.mul a b)

/-- `a / b` -/
def div (a b : Fin limit) : Outcome (Fin limit) := orPanic (Bounded.div a b)

/-- `Vec::with_capacity(n)`, for elements of `size` bytes each. -/
def withCapacity {α : Type} (size : ℕ) (n : U64) : Outcome (List α) :=
  if n.1 * size ≤ isizeMax then pure [] else .error .panic

theorem withCapacity_eq_ok {α : Type} {size : ℕ} {n : U64}
    (h : n.1 * size ≤ isizeMax) :
    (withCapacity size n : Outcome (List α)) = .ok [] := if_pos h

theorem withCapacity_eq_panic {α : Type} {size : ℕ} {n : U64}
    (h : ¬n.1 * size ≤ isizeMax) :
    (withCapacity size n : Outcome (List α)) = .error .panic := if_neg h

theorem withCapacity_returns_iff {α : Type} {size : ℕ} {n : U64} :
    (withCapacity size n : Outcome (List α)).Returns ↔
      n.1 * size ≤ isizeMax := by
  by_cases h : n.1 * size ≤ isizeMax
  · rw [withCapacity_eq_ok h]
    exact iff_of_true (returns_ok _) h
  · rw [withCapacity_eq_panic h]
    exact iff_of_false not_returns_panic h

theorem add_eq_ok_iff : add a b = .ok c ↔ c.1 = a.1 + b.1 :=
  orPanic_eq_ok_iff.trans Bounded.add_eq_some_iff

theorem sub_eq_ok_iff : sub a b = .ok c ↔ c.1 + b.1 = a.1 :=
  orPanic_eq_ok_iff.trans Bounded.sub_eq_some_iff

theorem mul_eq_ok_iff : mul a b = .ok c ↔ c.1 = a.1 * b.1 :=
  orPanic_eq_ok_iff.trans Bounded.mul_eq_some_iff

theorem div_eq_ok_iff : div a b = .ok c ↔ b.1 ≠ 0 ∧ c.1 = a.1 / b.1 :=
  orPanic_eq_ok_iff.trans Bounded.div_eq_some_iff

end Outcome

variable {E F : Type}

/-- What the pings come back with: the time they took, or an error. -/
abbrev Pings (E : Type) := List (Except E Duration)

namespace Cli

/-- How the terminal shows colours and times: `millis` is how `{:.5}` writes a
duration in milliseconds, and `debug` how `{:?}` writes it. -/
structure Terminal where
  green : Text → Text
  red : Text → Text
  bold : Text → Text
  millis : Duration → Text
  debug : Duration → Text

/-- What `display_statistic` prints. -/
structure Statistic where
  totalTime : Duration
  count : U64
  recvCount : U64
  recvPercent : U64
  loseCount : U64
  losePercent : U64

variable (term : Terminal) (target : Text)

/-- `{:>10}` -/
def padLeft (width : ℕ) (text : Text) : Text :=
  List.replicate (width - text.length) ' ' ++ text

def displayPingInfo (elapsedTime : Duration) : Text :=
  term.green (target ++ ": time=".toList ++
    padLeft 10 (term.millis elapsedTime) ++ " ms".toList)

def displayPingFail : Text := term.red (target ++ ": fail".toList)

/-- The percentages of `display_statistic`. -/
def percent (part count : U64) : Outcome U64 :=
  if part = 0 then pure 0
  else do Outcome.div (← Outcome.mul part 100) count

def displayStatistic (totalTime : Duration)
    (count recvCount loseCount : U64) : Outcome (Statistic × List Text) := do
  let recvPercent ← percent recvCount count
  let losePercent ← percent loseCount count
  pure (⟨totalTime, count, recvCount, recvPercent, loseCount, losePercent⟩,
    [term.bold "----- statistic -----".toList,
      "total time: ".toList ++ term.debug totalTime,
      "Connect time: ".toList ++ decimal count.1 ++ ", recv time: ".toList ++
        decimal recvCount.1 ++ " (".toList ++ decimal recvPercent.1 ++
        "%), lose time: ".toList ++ decimal loseCount.1 ++ " (".toList ++
        decimal losePercent.1 ++ "%)".toList])

/-- The loop of `main`, with `total_time`, `lose_count` and what is printed. -/
def pingLoop (totalTime : Duration) (loseCount : U64) (printed : List Text) :
    Pings E → Outcome (Duration × U64 × List Text)
  | [] => pure (totalTime, loseCount, printed)
  | .ok elapsedTime :: pings => do
      let totalTime ← Outcome.add totalTime elapsedTime
      pingLoop totalTime loseCount
        (printed ++ [displayPingInfo term target elapsedTime]) pings
  | .error _ :: pings => do
      let loseCount ← Outcome.add loseCount 1
      pingLoop totalTime loseCount
        (printed ++ [displayPingFail term target]) pings

/-- `main` behind its banner, when its pings come back with `pings`: what the
statistic shows, and all that is printed. -/
def runPings (count : U64) (pings : Pings E) :
    Outcome (Statistic × List Text) := do
  let (totalTime, loseCount, printed) ← pingLoop term target 0 0 [] pings
  let (statistic, lines) ← displayStatistic term totalTime count
    (← Outcome.sub count loseCount) loseCount
  pure (statistic, printed ++ lines)

end Cli

namespace Mcp

/-- One entry of a report; `F` are the floating-point numbers. -/
structure Iteration (F : Type) where
  elapsedMs : F
  success : Bool
  error : Option Text

structure Summary (F : Type) where
  count : U64
  recv : U64
  lose : U64
  losePct : U64
  totalMs : F

structure PingReport (F : Type) where
  iterations : List (Iteration F)
  summary : Summary F

/-- `asMs` is `as_secs_f64() * 1000.0`, and `toText` is how `{}` writes an
error. -/
structure Conversions (E F : Type) where
  asMs : Duration → F
  zero : F
  toText : E → Text

/-- `DEFAULT_COUNT` -/
def defaultCount : U64 := 1

/-- `DEFAULT_TIMEOUT_MS` -/
def defaultTimeoutMs : U64 := 5000

/-- At least one ping. -/
def countOrDefault (c : Option U64) : U64 := max (c.getD defaultCount) 1

theorem millis_lt (ms : U64) : ms.1 * 10 ^ 6 < 2 ^ 64 * 10 ^ 9 := by
  have hms := ms.2
  omega

/-- `Duration::from_millis` of the timeout. -/
def timeoutOrDefault (t : Option U64) : Duration :=
  ⟨(t.getD defaultTimeoutMs).1 * 10 ^ 6, millis_lt _⟩

/-- `size_of::<Iteration>()` on a 64-bit target. -/
def iterationSize : ℕ := 40

variable (conv : Conversions E F)

/-- The loop of `run_pings`, with `total`, `recv` and `iterations`. -/
def pingLoop (total : Duration) (recv : U64)
    (iterations : List (Iteration F)) :
    Pings E → Outcome (Duration × U64 × List (Iteration F))
  | [] => pure (total, recv, iterations)
  | .ok elapsed :: pings => do
      let total ← Outcome.add total elapsed
      let recv ← Outcome.add recv 1
      pingLoop total recv
        (iterations ++ [⟨conv.asMs elapsed, true, none⟩]) pings
  | .error e :: pings =>
      pingLoop total recv
        (iterations ++ [⟨conv.zero, false, some (conv.toText e)⟩]) pings

def runPings (count : U64) (pings : Pings E) : Outcome (PingReport F) := do
  let iterations ← Outcome.withCapacity iterationSize count
  let (total, recv, iterations) ← pingLoop conv 0 0 iterations pings
  let lose ← Outcome.sub count recv
  let losePct ←
    if count = 0 then pure 0
    else do Outcome.div (← Outcome.mul lose 100) count
  pure ⟨iterations, ⟨count, recv, lose, losePct, conv.asMs total⟩⟩

end Mcp

end KnockKnock
