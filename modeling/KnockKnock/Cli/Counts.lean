import KnockKnock.Cli.Agreement

/-!
# Counts out of range

The count of a tool call is any `u64`, and only its lower end is clamped.  The
report asks for room for all its entries before the first ping, and scales the
losses by a hundred behind the last; neither is in range for every count.
Between them nothing can go wrong with the counting: an answer is one of the
pings, and there are no more pings than the count.
-/

namespace KnockKnock

variable {E F : Type} {pings : Pings E} {count : U64}

namespace Outcome

variable {α β : Type} {limit : ℕ} {a b : Fin limit}

/-- A call without errors of its own has a result or unwinds. -/
theorem returns_iff_exists_ok {o : Outcome α} (h : ¬IsErr o) :
    o.Returns ↔ ∃ a, o = .ok a := by
  cases o with
  | ok a => exact iff_of_true (returns_ok a) ⟨a, rfl⟩
  | error e =>
      cases e with
      | panic => exact iff_of_false not_returns_panic nofun
      | error kind message => exact absurd trivial h

theorem not_isErr_bind {o : Outcome α} {f : α → Outcome β} (ho : ¬IsErr o)
    (hf : ∀ a, ¬IsErr (f a)) : ¬IsErr (o >>= f) := by
  cases o with
  | ok a => exact hf a
  | error e =>
      cases e with
      | panic => exact id
      | error kind message => exact absurd trivial ho

theorem not_isErr_orPanic (o : Option α) : ¬IsErr (orPanic o) := by
  cases o <;> exact id

theorem not_isErr_withCapacity (size : ℕ) (n : U64) :
    ¬IsErr (withCapacity size n : Outcome (List α)) := by
  unfold withCapacity
  split <;> exact id

theorem orPanic_returns_iff {o : Option α} :
    (orPanic o).Returns ↔ ∃ a, o = some a := by
  rw [returns_iff_exists_ok (not_isErr_orPanic o)]
  simp only [orPanic_eq_ok_iff]

theorem add_returns_iff : (add a b).Returns ↔ a.1 + b.1 < limit :=
  orPanic_returns_iff.trans Bounded.exists_add_iff

theorem sub_returns_iff : (sub a b).Returns ↔ b.1 ≤ a.1 :=
  orPanic_returns_iff.trans Bounded.exists_sub_iff

theorem mul_returns_iff : (mul a b).Returns ↔ a.1 * b.1 < limit :=
  orPanic_returns_iff.trans Bounded.exists_mul_iff

theorem div_returns_iff : (div a b).Returns ↔ b.1 ≠ 0 :=
  orPanic_returns_iff.trans Bounded.exists_div_iff

/-- Of a scaled division only the product can go out of range. -/
theorem mul_div_returns_iff {c : Fin limit} (hc : c.1 ≠ 0) :
    (mul a b >>= fun product => div product c).Returns ↔
      a.1 * b.1 < limit := by
  rw [returns_bind_iff fun _ _ => div_returns_iff.mpr hc]
  exact mul_returns_iff

end Outcome

open Outcome

/-! ## Prefixes of the pings -/

theorem received_append (front rest : Pings E) :
    received (front ++ rest) = received front + received rest :=
  List.countP_append

namespace Mcp

variable {conv : Conversions E F}

/-- The steps of `run_pings` that could go out of range: the request for room,
the counter at each answer, the difference and the scaled division. -/
structure InRange (F : Type) (count : U64) (pings : Pings E) : Prop where
  capacity :
    (withCapacity iterationSize count : Outcome (List (Iteration F))).Returns
  recv : ∀ front time rest, pings = front ++ .ok time :: rest →
    ∀ recv : U64, recv.1 = received front → (add recv 1).Returns
  lose : ∀ recv : U64, recv.1 = received pings → (sub count recv).Returns
  losePct : ∀ lose : U64, lose.1 = lost pings →
    (mul lose 100 >>= fun scaled => div scaled count).Returns

/-- There is room for the entries, and a hundred times the losses are a
`u64`. -/
structure Fits (count : U64) (pings : Pings E) : Prop where
  capacity : count.1 * 40 ≤ 2 ^ 63 - 1
  losses : lost pings * 100 ≤ 2 ^ 64 - 1

theorem one_le_countOrDefault (c : Option U64) :
    1 ≤ (countOrDefault c).1 := by
  have hle : (1 : U64) ≤ countOrDefault c := le_max_right _ _
  exact hle

theorem inRange_iff (hlength : pings.length = count.1)
    (hcount : count.1 ≠ 0) :
    InRange F count pings ↔ Fits count pings := by
  have hall := (received_add_lost pings).trans hlength
  have hlt := count.2
  constructor
  · intro h
    have hlosses := (mul_div_returns_iff hcount).mp
      (h.losePct ⟨lost pings, by omega⟩ rfl)
    exact ⟨withCapacity_returns_iff.mp h.capacity, Nat.le_pred_of_lt hlosses⟩
  · intro h
    refine ⟨withCapacity_returns_iff.mpr h.capacity, ?_, ?_, ?_⟩
    · intro front time rest hpings recv hrecv
      -- One more answer is still one of the pings.
      have hmore : received front + 1 ≤ received pings := by
        rw [hpings, received_append, received_cons_ok]
        omega
      refine add_returns_iff.mpr ?_
      change recv.1 + 1 < 2 ^ 64
      omega
    · intro recv hrecv
      exact sub_returns_iff.mpr (by omega)
    · intro lose hlose
      refine (mul_div_returns_iff hcount).mpr ?_
      change lose.1 * 100 < 2 ^ 64
      have hlosses := h.losses
      omega

/-! ## The run -/

theorem not_isErr_pingLoop (total : Duration) (recv : U64)
    (iterations : List (Iteration F)) :
    ¬IsErr (pingLoop conv total recv iterations pings) := by
  induction pings generalizing total recv iterations with
  | nil => exact id
  | cons ping pings ih =>
      cases ping with
      | error e => exact ih total recv _
      | ok elapsed =>
          exact not_isErr_bind (not_isErr_orPanic _) fun total =>
            not_isErr_bind (not_isErr_orPanic _) fun recv => ih total recv _

theorem not_isErr_runPings : ¬IsErr (runPings conv count pings) := by
  refine not_isErr_bind (not_isErr_withCapacity _ _) fun iterations => ?_
  refine not_isErr_bind (not_isErr_pingLoop _ _ _) fun (_, recv, _) => ?_
  refine not_isErr_bind (not_isErr_orPanic _) fun lose => ?_
  dsimp only
  split
  · exact id
  · exact not_isErr_bind (not_isErr_orPanic _) fun _ =>
      not_isErr_bind (not_isErr_orPanic _) fun _ => id

/-- What a report says about the steps that led to it. -/
theorem sums_of_runPings_eq_ok {report : PingReport F} (hcount : count.1 ≠ 0)
    (h : runPings conv count pings = .ok report) :
    count.1 * iterationSize ≤ isizeMax ∧
      (∃ total : Duration, total.1 = elapsed pings) ∧
      ∃ lose scaled : U64, lose.1 + received pings = count.1 ∧
        scaled.1 = lose.1 * 100 := by
  unfold runPings at h
  obtain ⟨room, hcapacity, h⟩ := bind_eq_ok_iff.mp h
  obtain ⟨⟨total, recv, iterations⟩, hloop, h⟩ := bind_eq_ok_iff.mp h
  obtain ⟨lose, hlose, h⟩ := bind_eq_ok_iff.mp h
  have hnonzero : count ≠ 0 := fun h => hcount (congrArg Fin.val h)
  dsimp only at h
  rw [if_neg hnonzero] at h
  obtain ⟨scaled, hscaled, -⟩ := bind_eq_ok_iff.mp h
  obtain ⟨htotal, hrecv, -⟩ := pingLoop_eq_ok_iff.mp hloop
  have hroom : (withCapacity iterationSize count :
      Outcome (List (Iteration F))).Returns := by
    rw [hcapacity]
    exact returns_ok room
  refine ⟨withCapacity_returns_iff.mp hroom,
    ⟨total, htotal.trans (Nat.zero_add _)⟩, lose, scaled, ?_,
    mul_eq_ok_iff.mp hscaled⟩
  rw [← sub_eq_ok_iff.mp hlose, hrecv]
  exact congrArg _ (Nat.zero_add _).symm

theorem exists_runPings_iff (hlength : pings.length = count.1)
    (hcount : count.1 ≠ 0) :
    (∃ report, runPings conv count pings = .ok report) ↔
      Fits count pings ∧ elapsed pings < 2 ^ 64 * 10 ^ 9 := by
  have hall := (received_add_lost pings).trans hlength
  have hlt := count.2
  constructor
  · intro ⟨report, hreport⟩
    obtain ⟨hroom, ⟨total, htotal⟩, lose, scaled, hlose, hscaled⟩ :=
      sums_of_runPings_eq_ok hcount hreport
    have hscaledLt := scaled.2
    exact ⟨⟨hroom, by omega⟩, htotal ▸ total.2⟩
  · intro ⟨hfits, helapsed⟩
    have hlosses := hfits.losses
    have hloop : pingLoop conv 0 0 [] pings = .ok (⟨_, helapsed⟩,
        ⟨received pings, by omega⟩, pings.map (iteration conv)) :=
      pingLoop_eq_ok_iff.mpr ⟨(Nat.zero_add _).symm, (Nat.zero_add _).symm,
        rfl⟩
    have hpercent : lost pings * 100 / count.1 < 2 ^ 64 :=
      Nat.lt_of_le_of_lt (Nat.div_le_self _ _) (by omega)
    have hrest : (⟨received pings, by omega⟩ : U64).1 +
        (⟨lost pings, by omega⟩ : U64).1 = count.1 := hall
    exact ⟨_, runPings_eq hfits.capacity hloop hrest hcount
      (Nat.lt_of_le_pred (by decide) hlosses)
      (rfl : (⟨_, hpercent⟩ : U64).1 = _)⟩

/-- No step goes out of range exactly where the count fits, and then the run
comes to a report unless the times add up to more than a `Duration`. -/
theorem runPings_inRange_iff (conv : Conversions E F) (c : Option U64)
    (hlength : pings.length = (countOrDefault c).1) :
    (InRange F (countOrDefault c) pings ↔ Fits (countOrDefault c) pings) ∧
      ((runPings conv (countOrDefault c) pings).Returns ↔
        Fits (countOrDefault c) pings ∧
          elapsed pings < 2 ^ 64 * 10 ^ 9) := by
  have hcount : (countOrDefault c).1 ≠ 0 := by
    have hone := one_le_countOrDefault c
    omega
  rw [returns_iff_exists_ok not_isErr_runPings]
  exact ⟨inRange_iff hlength hcount, exists_runPings_iff hlength hcount⟩

/-- A call for four pings. -/
theorem runPings_inRange_lost :
    InRange Unit (countOrDefault (some four)) onePingLost ∧
      (runPings coarse (countOrDefault (some four))
        onePingLost).Returns := by
  have hfits : Fits (countOrDefault (some four)) onePingLost :=
    ⟨by decide, by decide⟩
  have hlength : onePingLost.length = (countOrDefault (some four)).1 := by
    decide
  obtain ⟨hrange, hrun⟩ := runPings_inRange_iff coarse (some four) hlength
  exact ⟨hrange.mpr hfits, hrun.mpr ⟨hfits, by decide⟩⟩

/-- A call for `2 ^ 63` pings asks for more room than there can be. -/
theorem not_inRange_large :
    (List.replicate 9223372036854775808 (.error ()) : Pings Unit).length =
        (countOrDefault (some 9223372036854775808)).1 ∧
      ¬InRange Unit (countOrDefault (some 9223372036854775808))
        (List.replicate 9223372036854775808 (.error ()) : Pings Unit) ∧
      ¬(runPings (F := Unit) ⟨fun _ => (), (), fun _ => []⟩
        (countOrDefault (some 9223372036854775808))
        (List.replicate 9223372036854775808 (.error ()) :
          Pings Unit)).Returns := by
  have hlarge : (countOrDefault (some 9223372036854775808)).1 =
      9223372036854775808 := by
    decide
  have hroom : ¬(countOrDefault (some 9223372036854775808)).1 *
      iterationSize ≤ isizeMax := by
    rw [hlarge]
    decide
  refine ⟨?_, ?_, ?_⟩
  · rw [List.length_replicate, hlarge]
  · intro h
    exact hroom (withCapacity_returns_iff.mp h.capacity)
  · unfold runPings
    rw [withCapacity_eq_panic hroom, bind_error]
    exact not_returns_panic

end Mcp

end KnockKnock
