import KnockKnock.Rtsp.Options
import KnockKnock.Support.Filling
import KnockKnock.Support.Spans

/-!
# The RTSP verdict and the network

The loop of `validate_response` ends at the end of the stream, behind the first
blank line, or at 4096 bytes, whichever a read shows it first.  None of them
comes before the twelve bytes that decide.
-/

namespace KnockKnock

open ByteStream Spans

namespace Rtsp

/-- What ends the loop behind a read. -/
def Enough (buf : Bytes) : Prop :=
  (findHeaderTerminator buf).isSome ∨ maxResponseBytes ≤ buf.length

instance : DecidablePred Enough := fun _ => inferInstanceAs (Decidable (_ ∨ _))

theorem findHeaderTerminator_eq (buf : Bytes) :
    findHeaderTerminator buf = position headerTerminator buf := by
  induction buf with
  | nil => rfl
  | cons b buf ih => rw [findHeaderTerminator, position, ih]

/-- One round of the loop, over a connection. -/
theorem run_readResponse_round (buf : Bytes) (c : Duplex) :
    Session.run (Exchange.toSession (readResponse buf)) c =
      if (c.incoming.read 256).1 = [] then
        (.ok buf, { c with incoming := (c.incoming.read 256).2 })
      else if Enough (buf ++ (c.incoming.read 256).1) then
        (.ok (buf ++ (c.incoming.read 256).1),
          { c with incoming := (c.incoming.read 256).2 })
      else
        Session.run
          (Exchange.toSession (readResponse (buf ++ (c.incoming.read 256).1)))
          { c with incoming := (c.incoming.read 256).2 } := by
  rw [readResponse, Exchange.toSession_bind, Exchange.toSession_read,
    Session.run_bind_ok (Session.run_read 256 c)]
  by_cases hnil : (c.incoming.read 256).1 = []
  · rw [if_pos hnil, if_pos hnil]
    rfl
  rw [if_neg hnil, if_neg hnil]
  by_cases henough : Enough (buf ++ (c.incoming.read 256).1)
  · have hstop := henough
    unfold Enough at hstop
    rw [if_pos henough, if_pos hstop]
    rfl
  · have hgo := henough
    unfold Enough at hgo
    rw [if_neg henough, if_neg hgo]

/-- The loop reads until it is enough. -/
theorem run_readResponse (buf : Bytes) (c : Duplex) :
    Session.run (Exchange.toSession (readResponse buf)) c =
      (.ok (c.incoming.readUntil 256 Enough buf).1,
        { c with incoming := (c.incoming.readUntil 256 Enough buf).2 }) := by
  obtain ⟨d, written⟩ := c
  fun_induction Delivery.readUntil 256 Enough buf d with
  | case1 buf d hnil => rw [run_readResponse_round, if_pos hnil]
  | case2 buf d hnil henough =>
      rw [run_readResponse_round, if_neg hnil, if_pos henough]
  | case3 buf d hnil henough ih =>
      rw [run_readResponse_round, if_neg hnil, if_neg henough, ih]

/-- The result of `validate_response`, when `d` arrives. -/
def validated (debug : Text → Text) (d : Delivery UInt8) : Outcome Unit :=
  (Session.run (Exchange.toSession (validateResponse debug))
    (Session.opened d)).1

/-- The verdict on what has been read. -/
theorem validated_eq (debug : Text → Text) (d : Delivery UInt8) :
    validated debug d =
      if statusLinePrefix <+: (d.readUntil 256 Enough []).1 then .ok ()
      else
        Outcome.fail .other
          ("RTSP response did not start with `RTSP/1.0 200`: ".toList ++
            debug (Utf8.lossy ((d.readUntil 256 Enough []).1.take
              (min (d.readUntil 256 Enough []).1.length 64)))) := by
  unfold validated validateResponse
  rw [Exchange.toSession_bind,
    Session.run_bind_ok (run_readResponse [] (Session.opened d))]
  change (Session.run (Exchange.toSession
    (if ¬statusLinePrefix <+: (d.readUntil 256 Enough []).1 then _ else _))
      _).1 = _
  by_cases hfront : statusLinePrefix <+: (d.readUntil 256 Enough []).1
  · rw [if_pos hfront, if_neg (not_not_intro hfront)]
    rfl
  · rw [if_neg hfront, if_pos hfront]
    rfl

/-- Less than the deciding bytes is not enough: there is no blank line in
them. -/
theorem eq_of_enough {s : Bytes} (henough : Enough s)
    (hs : s <+: statusLinePrefix) : s = statusLinePrefix := by
  rcases henough with hblank | hfull
  · obtain ⟨n, hn⟩ := Option.isSome_iff_exists.mp hblank
    rw [findHeaderTerminator_eq] at hn
    have hinside := (infix_of_position hn).trans hs.isInfix
    exact absurd hinside (by decide)
  · have hle := hfull.trans hs.length_le
    exact absurd hle (by decide)

/-! ## The buffer -/

/-- The loop has `buf` in its buffer when it comes to its read, or when it
ends. -/
def Holds (buf : Bytes) (p : Program UInt8 Fault (Outcome Bytes)) : Prop :=
  p = (readResponse buf).run ∨ p = .done (.ok buf)

/-- What the loop does with what its read returns. -/
theorem readResponse_eq (buf : Bytes) : ∃ next,
    (readResponse buf).run = .read 256 next ∧ ∀ chunk, next (.ok chunk) =
      if chunk = [] then .done (.ok buf)
      else if Enough (buf ++ chunk) then .done (.ok (buf ++ chunk))
      else (readResponse (buf ++ chunk)).run := by
  rw [readResponse]
  refine ⟨_, rfl, fun chunk => ?_⟩
  change ExceptT.run (if chunk = [] then _ else if Enough _ then _ else _) = _
  by_cases hnil : chunk = []
  · rw [if_pos hnil, if_pos hnil]
    rfl
  rw [if_neg hnil, if_neg hnil]
  by_cases henough : Enough (buf ++ chunk)
  · rw [if_pos henough, if_pos henough]
    rfl
  · rw [if_neg henough, if_neg henough]

/-- There is one buffer at a time: at the end of the stream it is returned. -/
theorem Holds.unique {buf buf' : Bytes}
    {p : Program UInt8 Fault (Outcome Bytes)} (h : Holds buf p)
    (h' : Holds buf' p) : buf = buf' := by
  obtain ⟨next, hread, hnext⟩ := readResponse_eq buf
  obtain ⟨next', hread', hnext'⟩ := readResponse_eq buf'
  rcases h with rfl | rfl
  · rcases h' with heq | hdone
    · rw [hread, hread', Program.read.injEq] at heq
      obtain ⟨-, rfl⟩ := heq
      have hend := (hnext []).symm.trans (hnext' [])
      rw [if_pos rfl, if_pos rfl, Program.done.injEq, Except.ok.injEq] at hend
      exact hend
    · rw [hread] at hdone
      cases hdone
  · rcases h' with heq | hdone
    · rw [hread'] at heq
      cases heq
    · rw [Program.done.injEq, Except.ok.injEq] at hdone
      exact hdone

/-- The loop goes on with less than 4096 bytes, and ends with at most one read
behind them. -/
inductive Within : Program UInt8 Fault (Outcome Bytes) → Prop
  | reading {buf : Bytes} (h : buf.length < maxResponseBytes) :
      Within (readResponse buf).run
  | ended {buf : Bytes} (h : buf.length ≤ 4351) : Within (.done (.ok buf))

theorem Within.step {s s' : Program UInt8 Fault (Outcome Bytes) × Duplex}
    (h : Within s.1) (hstep : Exchange.Step s s') : Within s'.1 := by
  obtain ⟨p, c⟩ := s
  cases h with
  | @reading buf hshort =>
      obtain ⟨next, hread, hnext⟩ := readResponse_eq buf
      change Exchange.Step ((readResponse buf).run, c) s' at hstep
      rw [hread] at hstep
      cases hstep
      have hchunk := Delivery.length_read_le 256 c.incoming
      have hmax : maxResponseBytes = 4096 := rfl
      dsimp only
      rw [hnext]
      split
      · exact .ended (by omega)
      split
      · refine .ended ?_
        rw [List.length_append]
        omega
      next henough =>
        exact .reading (Nat.lt_of_not_le fun hle => henough (.inr hle))
  | ended => cases hstep

theorem within_of_steps {d : Delivery UInt8}
    {s : Program UInt8 Fault (Outcome Bytes) × Duplex}
    (hs : Relation.ReflTransGen Exchange.Step
      ((readResponse []).run, Session.opened d) s) : Within s.1 := by
  induction hs with
  | refl => exact .reading (by decide)
  | tail _ hstep ih => exact ih.step hstep

theorem Within.bounds {p : Program UInt8 Fault (Outcome Bytes)}
    (h : Within p) :
    (∃ buf, Holds buf p) ∧ ∀ buf, Holds buf p → buf.length ≤ 4351 := by
  obtain ⟨buf, hbuf, hle⟩ : ∃ buf, Holds buf p ∧ buf.length ≤ 4351 := by
    cases h with
    | reading h => exact ⟨_, .inl rfl, h.le.trans (by decide)⟩
    | ended h => exact ⟨_, .inr rfl, h⟩
  exact ⟨⟨buf, hbuf⟩, fun buf' hbuf' => hbuf'.unique hbuf ▸ hle⟩

/-! ## The verdict -/

/-- The verdict is that on the first twelve bytes of the stream, however it is
cut; the loop comes to its end, and has never more than 4095 bytes and one read
in its buffer. -/
theorem validated_iff (debug : Text → Text) (d : Delivery UInt8) :
    (validated debug d).Returns ∧
    (validated debug d = .ok () ↔ statusLinePrefix <+: d.bytes) ∧
    (∀ d' : Delivery UInt8, d'.bytes = d.bytes →
      (validated debug d' = .ok () ↔ validated debug d = .ok ())) ∧
    (∃ buf c, Relation.ReflTransGen Exchange.Step
      ((readResponse []).run, Session.opened d) (.done (.ok buf), c)) ∧
    ∀ s, Relation.ReflTransGen Exchange.Step
        ((readResponse []).run, Session.opened d) s →
      (∃ buf, Holds buf s.1) ∧ ∀ buf, Holds buf s.1 → buf.length ≤ 4351 := by
  have hverdict : ∀ d : Delivery UInt8,
      validated debug d = .ok () ↔ statusLinePrefix <+: d.bytes := by
    intro d
    have hfront : statusLinePrefix <+: (d.readUntil 256 Enough []).1 ↔
        statusLinePrefix <+: [] ++ d.bytes :=
      Delivery.prefix_readUntil_iff (by decide) fun _ => eq_of_enough
    rw [List.nil_append] at hfront
    rw [← hfront, validated_eq]
    split
    next h => exact iff_of_true rfl h
    next h => exact iff_of_false (by rintro ⟨⟩) h
  refine ⟨?_, hverdict d, ?_, ?_, fun s hs => (within_of_steps hs).bounds⟩
  · rw [validated_eq]
    split
    · exact Outcome.returns_ok _
    · exact Outcome.returns_fail _ _
  · intro d' hbytes
    rw [hverdict, hverdict, hbytes]
  · have hrun := run_readResponse [] (Session.opened d)
    change Exchange.deliver (readResponse []).run (Session.opened d) = _ at hrun
    have hend := Exchange.steps_deliver (readResponse []).run (Session.opened d)
    rw [hrun] at hend
    exact ⟨_, _, hend⟩

end Rtsp

end KnockKnock
