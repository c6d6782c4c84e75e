import KnockKnock.Outcome

/-!
# The clock the identifiers are made of

The pingers draw their identifiers from `SystemTime::now()`, as the seconds
and the nanoseconds since the epoch.  A clock in front of the epoch gives none.
-/

namespace KnockKnock

/-- A `Duration` since `UNIX_EPOCH`. -/
@[ext]
structure SinceEpoch where
  secs : UInt64
  subsecNanos : UInt32
  subsecNanos_lt : subsecNanos.toNat < 1000000000

namespace SinceEpoch

/-- `UNIX_EPOCH` itself. -/
def zero : SinceEpoch := ⟨0, 0, by decide⟩

/-- Readings of the same seconds and nanoseconds. -/
theorem eq_iff {d d' : SinceEpoch} :
    d = d' ↔ d.secs = d'.secs ∧ d.subsecNanos = d'.subsecNanos :=
  SinceEpoch.ext_iff

end SinceEpoch

end KnockKnock
