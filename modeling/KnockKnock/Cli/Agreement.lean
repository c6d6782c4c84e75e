import KnockKnock.Cli.Statistics

/-!
# Two statistics of the same pings

Both loops add up the same pings, and what one subtracts at the end is what
the other has counted.
-/

namespace KnockKnock

variable {E F : Type} {pings : Pings E}

/-- The ping came back with a time. -/
def Succeeded : Except E Duration → Bool
  | .ok _ => true
  | .error _ => false

/-- The time all pings took that came back with one, in nanoseconds. -/
def elapsed (pings : Pings E) : ℕ :=
  (pings.map fun
    | .ok time => time.1
    | .error _ => 0).sum

def received (pings : Pings E) : ℕ := pings.countP Succeeded

def lost (pings : Pings E) : ℕ := pings.countP fun ping => !Succeeded ping

theorem received_add_lost (pings : Pings E) :
    received pings + lost pings = pings.length := by
  unfold received lost
  rw [List.length_eq_countP_add_countP Succeeded]
  simp

section Cons

variable (time : Duration) (e : E) (pings : Pings E)

@[simp] theorem elapsed_cons_ok :
    elapsed (.ok time :: pings) = time.1 + elapsed pings := rfl

@[simp] theorem elapsed_cons_error :
    elapsed (.error e :: pings) = elapsed pings := Nat.zero_add _

@[simp] theorem received_cons_ok :
    received (.ok time :: pings) = received pings + 1 :=
  List.countP_cons_of_pos rfl

@[simp] theorem received_cons_error :
    received (.error e :: pings) = received pings := rfl

@[simp] theorem lost_cons_ok : lost (.ok time :: pings) = lost pings := rfl

@[simp] theorem lost_cons_error :
    lost (.error e :: pings) = lost pings + 1 := List.countP_cons_of_pos rfl

end Cons

namespace Cli

variable {term : Terminal} {target : Text}

/-- What is printed for a ping. -/
def display (term : Terminal) (target : Text) : Except E Duration → Text
  | .ok elapsedTime => displayPingInfo term target elapsedTime
  | .error _ => displayPingFail term target

/-- The loop has a result when the sums have one. -/
theorem pingLoop_eq_ok_iff {totalTime totalTime' : Duration}
    {loseCount loseCount' : U64} {printed printed' : List Text} :
    pingLoop term target totalTime loseCount printed pings =
        .ok (totalTime', loseCount', printed') ↔
      totalTime'.1 = totalTime.1 + elapsed pings ∧
        loseCount'.1 = loseCount.1 + lost pings ∧
        printed' = printed ++ pings.map (display term target) := by
  induction pings generalizing totalTime loseCount printed with
  | nil =>
      have hresult : pingLoop term target totalTime loseCount printed
          ([] : Pings E) = .ok (totalTime, loseCount, printed) := rfl
      rw [hresult, Except.ok.injEq, Prod.mk.injEq, Prod.mk.injEq, Fin.ext_iff,
        Fin.ext_iff]
      simp only [elapsed, lost, List.map_nil, List.sum_nil, List.countP_nil,
        Nat.add_zero, List.append_nil, eq_comm]
  | cons ping pings ih =>
      rcases ping with e | time
      · rw [pingLoop, Outcome.bind_eq_ok_iff]
        simp only [Outcome.add_eq_ok_iff, ih, elapsed_cons_error,
          lost_cons_error, List.map_cons, display, List.append_assoc,
          List.singleton_append]
        have hone : (1 : U64).1 = 1 := rfl
        constructor
        · rintro ⟨l, hl, htotal, hlose, hprinted⟩
          exact ⟨htotal, by omega, hprinted⟩
        · rintro ⟨htotal, hlose, hprinted⟩
          -- The sum is below the limit, so what is added first is, too.
          have hlt := loseCount'.2
          exact ⟨⟨loseCount.1 + 1, by omega⟩, rfl, htotal,
            by change loseCount'.1 = loseCount.1 + 1 + lost pings; omega,
            hprinted⟩
      · rw [pingLoop, Outcome.bind_eq_ok_iff]
        simp only [Outcome.add_eq_ok_iff, ih, elapsed_cons_ok, lost_cons_ok,
          List.map_cons, display, List.append_assoc, List.singleton_append]
        constructor
        · rintro ⟨t, ht, htotal, hlose, hprinted⟩
          exact ⟨by omega, hlose, hprinted⟩
        · rintro ⟨htotal, hlose, hprinted⟩
          have hlt := totalTime'.2
          exact ⟨⟨totalTime.1 + time.1, by omega⟩, rfl,
            by change totalTime'.1 = totalTime.1 + time.1 + elapsed pings; omega,
            hlose, hprinted⟩

end Cli

namespace Mcp

variable {conv : Conversions E F}

/-- The entry of a ping. -/
def iteration (conv : Conversions E F) : Except E Duration → Iteration F
  | .ok elapsed => ⟨conv.asMs elapsed, true, none⟩
  | .error e => ⟨conv.zero, false, some (conv.toText e)⟩

theorem pingLoop_eq_ok_iff {total total' : Duration} {recv recv' : U64}
    {iterations iterations' : List (Iteration F)} :
    pingLoop conv total recv iterations pings =
        .ok (total', recv', iterations') ↔
      total'.1 = total.1 + elapsed pings ∧
        recv'.1 = recv.1 + received pings ∧
        iterations' = iterations ++ pings.map (iteration conv) := by
  induction pings generalizing total recv iterations with
  | nil =>
      have hresult : pingLoop conv total recv iterations ([] : Pings E) =
          .ok (total, recv, iterations) := rfl
      rw [hresult, Except.ok.injEq, Prod.mk.injEq, Prod.mk.injEq, Fin.ext_iff,
        Fin.ext_iff]
      simp only [elapsed, received, List.map_nil, List.sum_nil,
        List.countP_nil, Nat.add_zero, List.append_nil, eq_comm]
  | cons ping pings ih =>
      rcases ping with e | time
      · rw [pingLoop, ih]
        simp only [elapsed_cons_error, received_cons_error, List.map_cons,
          iteration, List.append_assoc, List.singleton_append]
      · rw [pingLoop, Outcome.bind_eq_ok_iff]
        simp only [Outcome.bind_eq_ok_iff, Outcome.add_eq_ok_iff, ih,
          elapsed_cons_ok, received_cons_ok, List.map_cons, iteration,
          List.append_assoc, List.singleton_append]
        have hone : (1 : U64).1 = 1 := rfl
        constructor
        · rintro ⟨t, ht, r, hr, htotal, hrecv, hiterations⟩
          exact ⟨by omega, by omega, hiterations⟩
        · rintro ⟨htotal, hrecv, hiterations⟩
          have ht := total'.2
          have hr := recv'.2
          exact ⟨⟨total.1 + time.1, by omega⟩, rfl, ⟨recv.1 + 1, by omega⟩,
            rfl,
            by change total'.1 = total.1 + time.1 + elapsed pings; omega,
            by change recv'.1 = recv.1 + 1 + received pings; omega,
            hiterations⟩

end Mcp

/-! ## The statistic and the report -/

section Results

variable {count recv lose recvPercent losePercent : U64} {total : Duration}
  {term : Cli.Terminal} {target : Text} {conv : Mcp.Conversions E F}

/-- A percentage is rounded down; the guard against nothing changes nothing. -/
theorem Cli.percent_eq_ok {part percentage : U64} (hcount : count.1 ≠ 0)
    (hpart : part.1 * 100 < 2 ^ 64)
    (h : percentage.1 = part.1 * 100 / count.1) :
    Cli.percent part count = .ok percentage := by
  unfold Cli.percent
  split
  next hzero =>
    have hnothing : percentage.1 = 0 := by
      rw [h, hzero]
      exact Nat.zero_div _
    rw [Fin.ext (b := 0) hnothing]
    rfl
  next =>
    rw [Outcome.bind_eq_ok_iff]
    exact ⟨⟨part.1 * 100, hpart⟩, Outcome.mul_eq_ok_iff.mpr rfl,
      Outcome.div_eq_ok_iff.mpr ⟨hcount, h⟩⟩

example : Cli.percent 1 3 = .ok 33 ∧ Cli.percent 2 3 = .ok 66 := by decide

/-- What `main` makes of its loop. -/
theorem Cli.runPings_eq {printed : List Text}
    (hloop : Cli.pingLoop term target 0 0 [] pings =
      .ok (total, lose, printed))
    (hrest : recv.1 + lose.1 = count.1)
    (hrecv : Cli.percent recv count = .ok recvPercent)
    (hlose : Cli.percent lose count = .ok losePercent) :
    ∃ lines, Cli.runPings term target count pings =
      .ok (⟨total, count, recv, recvPercent, lose, losePercent⟩, lines) := by
  unfold Cli.runPings Cli.displayStatistic
  rw [hloop, Outcome.bind_ok]
  dsimp only
  rw [Outcome.sub_eq_ok_iff.mpr hrest, Outcome.bind_ok, hrecv, hlose]
  exact ⟨_, rfl⟩

/-- What `run_pings` makes of its loop. -/
theorem Mcp.runPings_eq {iterations : List (Mcp.Iteration F)}
    (hcapacity : count.1 * Mcp.iterationSize ≤ isizeMax)
    (hloop : Mcp.pingLoop conv 0 0 [] pings = .ok (total, recv, iterations))
    (hrest : recv.1 + lose.1 = count.1) (hcount : count.1 ≠ 0)
    (hlose : lose.1 * 100 < 2 ^ 64)
    (hpercent : losePercent.1 = lose.1 * 100 / count.1) :
    Mcp.runPings conv count pings =
      .ok ⟨iterations, ⟨count, recv, lose, losePercent, conv.asMs total⟩⟩ := by
  have hminus : Outcome.sub count recv = .ok lose :=
    Outcome.sub_eq_ok_iff.mpr ((Nat.add_comm _ _).trans hrest)
  have hmul : Outcome.mul lose 100 = .ok ⟨lose.1 * 100, hlose⟩ :=
    Outcome.mul_eq_ok_iff.mpr rfl
  have hdiv : Outcome.div ⟨lose.1 * 100, hlose⟩ count = .ok losePercent :=
    Outcome.div_eq_ok_iff.mpr ⟨hcount, hpercent⟩
  have hnonzero : count ≠ 0 := fun h => hcount (congrArg Fin.val h)
  unfold Mcp.runPings
  rw [Outcome.withCapacity_eq_ok hcapacity, Outcome.bind_ok, hloop,
    Outcome.bind_ok]
  dsimp only
  rw [hminus, Outcome.bind_ok, if_neg hnonzero, hmul, Outcome.bind_ok, hdiv]
  rfl

end Results

/-- The two statistics show the same, and all of the pings. -/
structure Agree (conv : Mcp.Conversions E F) (count : U64) (pings : Pings E)
    (statistic : Cli.Statistic) (report : Mcp.PingReport F) : Prop where
  totalMs : report.summary.totalMs = conv.asMs statistic.totalTime
  cliCount : statistic.count = count
  mcpCount : report.summary.count = count
  recv : report.summary.recv = statistic.recvCount
  lose : report.summary.lose = statistic.loseCount
  losePct : report.summary.losePct = statistic.losePercent
  all : statistic.recvCount.1 + statistic.loseCount.1 = count.1
  iterations : report.iterations = pings.map (Mcp.iteration conv)
  successes : report.iterations.map Mcp.Iteration.success =
    pings.map Succeeded
  percent : statistic.recvPercent.1 + statistic.losePercent.1 = 99 ∨
    statistic.recvPercent.1 + statistic.losePercent.1 = 100
  nothingLost : statistic.recvPercent.1 = 100 ↔ statistic.loseCount.1 = 0
  nothingReceived : statistic.losePercent.1 = 100 ↔
    statistic.recvCount.1 = 0

theorem success_iteration (conv : Mcp.Conversions E F)
    (ping : Except E Duration) :
    (Mcp.iteration conv ping).success = Succeeded ping := by
  cases ping <;> rfl

/-- Equal sums make equal statistics, up to the rounding. -/
theorem agree_of_sums {conv : Mcp.Conversions E F} {total : Duration}
    {count recv lose recvPercent losePercent : U64}
    (hrest : recv.1 + lose.1 = count.1) (hpos : 1 ≤ count.1)
    (hrecv : recvPercent.1 = recv.1 * 100 / count.1)
    (hlose : losePercent.1 = lose.1 * 100 / count.1) :
    Agree conv count pings
      ⟨total, count, recv, recvPercent, lose, losePercent⟩
      ⟨pings.map (Mcp.iteration conv),
        ⟨count, recv, lose, losePercent, conv.asMs total⟩⟩ where
  totalMs := rfl
  cliCount := rfl
  mcpCount := rfl
  recv := rfl
  lose := rfl
  losePct := rfl
  all := hrest
  iterations := rfl
  successes := by
    rw [List.map_map]
    exact List.map_congr_left fun ping _ => success_iteration conv ping
  percent := by
    rw [hrecv, hlose]
    exact Bounded.percent_add_percent hrest hpos
  nothingLost := by
    rw [hrecv]
    exact Bounded.percent_eq_100_iff hrest hpos
  nothingReceived := by
    rw [hlose]
    exact Bounded.percent_eq_100_iff ((Nat.add_comm _ _).trans hrest) hpos

section Count

variable (term : Cli.Terminal) (target : Text) (conv : Mcp.Conversions E F)
  {count : U64}

/-- Up to a hundredth of the largest `u64`, the loops have results that
agree. -/
theorem agree_of_count_le (hlength : pings.length = count.1)
    (hpos : 1 ≤ count.1) (hcount : count.1 ≤ (2 ^ 64 - 1) / 100)
    (helapsed : elapsed pings < 2 ^ 64 * 10 ^ 9) :
    ∃ total lose recv printed iterations,
      Cli.pingLoop term target 0 0 [] pings = .ok (total, lose, printed) ∧
      Mcp.pingLoop conv 0 0 [] pings = .ok (total, recv, iterations) ∧
      total.1 = elapsed pings ∧
      ∃ statistic lines report,
        Cli.runPings term target count pings = .ok (statistic, lines) ∧
        Mcp.runPings conv count pings = .ok report ∧
        statistic.totalTime = total ∧ Agree conv count pings statistic report := by
  have hall := (received_add_lost pings).trans hlength
  have hnonzero : count.1 ≠ 0 := by omega
  obtain ⟨total, htotal⟩ : ∃ t : Duration, t.1 = elapsed pings :=
    ⟨⟨_, helapsed⟩, rfl⟩
  obtain ⟨lose, hlose⟩ : ∃ l : U64, l.1 = lost pings :=
    ⟨⟨lost pings, by omega⟩, rfl⟩
  obtain ⟨recv, hrecv⟩ : ∃ r : U64, r.1 = received pings :=
    ⟨⟨received pings, by omega⟩, rfl⟩
  obtain ⟨losePercent, hlosePercent⟩ :
      ∃ p : U64, p.1 = lose.1 * 100 / count.1 :=
    ⟨⟨_, Nat.lt_of_le_of_lt (Nat.div_le_self _ _) (by omega)⟩, rfl⟩
  obtain ⟨recvPercent, hrecvPercent⟩ :
      ∃ p : U64, p.1 = recv.1 * 100 / count.1 :=
    ⟨⟨_, Nat.lt_of_le_of_lt (Nat.div_le_self _ _) (by omega)⟩, rfl⟩
  have hrest : recv.1 + lose.1 = count.1 := by omega
  have hcli : Cli.pingLoop term target 0 0 [] pings = .ok (total, lose, _) :=
    Cli.pingLoop_eq_ok_iff.mpr ⟨htotal.trans (Nat.zero_add _).symm,
      hlose.trans (Nat.zero_add _).symm, rfl⟩
  have hmcp : Mcp.pingLoop conv 0 0 [] pings = .ok (total, recv, _) :=
    Mcp.pingLoop_eq_ok_iff.mpr ⟨htotal.trans (Nat.zero_add _).symm,
      hrecv.trans (Nat.zero_add _).symm, rfl⟩
  have hcapacity : count.1 * Mcp.iterationSize ≤ isizeMax := by
    change count.1 * 40 ≤ 2 ^ 63 - 1
    omega
  obtain ⟨lines, hstatistic⟩ := Cli.runPings_eq hcli hrest
    (Cli.percent_eq_ok hnonzero (by omega) hrecvPercent)
    (Cli.percent_eq_ok hnonzero (by omega) hlosePercent)
  refine ⟨total, lose, recv, _, _, hcli, hmcp, htotal, _, lines, _,
    hstatistic,
    Mcp.runPings_eq hcapacity hmcp hrest hnonzero (by omega) hlosePercent, rfl,
    agree_of_sums hrest hpos hrecvPercent hlosePercent⟩

/-- Without a ping nothing is divided. -/
theorem runPings_zero (hlength : pings.length = (0 : U64).1) :
    ∃ statistic lines,
      Cli.runPings term target 0 pings = .ok (statistic, lines) := by
  obtain rfl := List.eq_nil_of_length_eq_zero hlength
  exact ⟨_, _, rfl⟩

/-- The command line and the server come to one result for the same pings, and
the command line to one for none. -/
theorem runPings_agree :
    (∀ (count : U64) (pings : Pings E), pings.length = count.1 →
      1 ≤ count.1 → count.1 ≤ (2 ^ 64 - 1) / 100 →
      elapsed pings < 2 ^ 64 * 10 ^ 9 →
      ∃ total lose recv printed iterations,
        Cli.pingLoop term target 0 0 [] pings = .ok (total, lose, printed) ∧
        Mcp.pingLoop conv 0 0 [] pings = .ok (total, recv, iterations) ∧
        total.1 = elapsed pings ∧
        ∃ statistic lines report,
          Cli.runPings term target count pings = .ok (statistic, lines) ∧
          Mcp.runPings conv count pings = .ok report ∧
          statistic.totalTime = total ∧
          Agree conv count pings statistic report) ∧
    ∀ pings : Pings E, pings.length = (0 : U64).1 →
      ∃ statistic lines,
        Cli.runPings term target 0 pings = .ok (statistic, lines) :=
  ⟨fun _ _ hlength hpos hcount helapsed =>
    agree_of_count_le term target conv hlength hpos hcount helapsed,
    fun _ hlength => runPings_zero term target hlength⟩

/-- A terminal without colours or times. -/
def plainTerminal : Cli.Terminal := ⟨id, id, id, fun _ => [], fun _ => []⟩

/-- Numbers that are all the same. -/
def coarse : Mcp.Conversions Unit Unit := ⟨fun _ => (), (), fun _ => []⟩

def four : U64 := ⟨4, by decide⟩

/-- Four pings, of which the second is lost. -/
def onePingLost : Pings Unit :=
  [.ok ⟨5, by decide⟩, .error (), .ok ⟨7, by decide⟩, .ok ⟨2, by decide⟩]

theorem runPings_agree_lost :
    ∃ total statistic lines report,
      total.1 = 14 ∧
      Cli.runPings plainTerminal [] four onePingLost = .ok (statistic, lines) ∧
      Mcp.runPings coarse four onePingLost = .ok report ∧
      statistic.totalTime = total ∧
      Agree coarse four onePingLost statistic report := by
  have hall := (runPings_agree plainTerminal [] coarse).1 four onePingLost rfl
    (by decide) (by decide) (by decide)
  obtain ⟨total, -, -, -, -, -, -, htotal, statistic, lines, report, hcli, hmcp,
    hsame, hagree⟩ := hall
  exact ⟨total, statistic, lines, report, htotal, hcli, hmcp, hsame, hagree⟩

end Count

end KnockKnock
