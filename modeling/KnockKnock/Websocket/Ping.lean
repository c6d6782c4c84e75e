import KnockKnock.Outcome
import KnockKnock.Support.Until

/-!
# The WebSocket ping

Behind the handshake, `run_handshake_and_ping` sends a Ping without a payload
and takes the messages of the server until one ends its loop.  Any Pong does,
and the payload that makes a Pong the matching one is not looked at.
-/

namespace KnockKnock

open Trace

namespace Websocket

/-- What a WebSocket carries; frames and close frames are tungstenite's. -/
inductive Message (Frame CloseFrame : Type) where
  | text (text : Text)
  | binary (bytes : Bytes)
  | ping (payload : Bytes)
  | pong (payload : Bytes)
  | close (frame : Option CloseFrame)
  | frame (frame : Frame)

/-- `tungstenite::Error`: an I/O error, or any other with its text. -/
inductive Error where
  | io (kind : ErrorKind) (message : Text)
  | other (text : Text)

variable {Frame CloseFrame α : Type}

/-- What `ws.next()` yields before the end of the stream. -/
abbrev Event (Frame CloseFrame : Type) :=
  Except Error (Message Frame CloseFrame)

def tungsteniteErr : Error → Outcome α
  | .io kind message => Outcome.fail kind message
  | .other text => Outcome.fail .other text

section Source

variable
  (send : List (Message Frame CloseFrame) → Message Frame CloseFrame →
    Except Error Unit)
  (debug : Option CloseFrame → Text)

/-- The loop, with what has been sent.  `send` is the result of sending a
message behind others, and `debug` is how `{:?}` writes a close frame. -/
def pongLoop (sent : List (Message Frame CloseFrame)) :
    List (Event Frame CloseFrame) →
      Outcome Unit × List (Message Frame CloseFrame)
  | .ok (.pong _) :: _ => (pure (), sent)
  | .ok (.ping payload) :: events =>
      match send sent (.pong payload) with
      | .ok () => pongLoop (sent ++ [.pong payload]) events
      | .error e => (tungsteniteErr e, sent)
  | .ok (.text _) :: events => pongLoop sent events
  | .ok (.binary _) :: events => pongLoop sent events
  | .ok (.frame _) :: events => pongLoop sent events
  | .ok (.close frame) :: _ =>
      (Outcome.fail .other
        ("server closed before pong: ".toList ++ debug frame), sent)
  | .error e :: _ => (tungsteniteErr e, sent)
  | [] => (Outcome.fail .other "stream ended before pong".toList, sent)

/-- The result, and all that has been sent.  `clientAsync` is the result of the
handshake, and the events behind it. -/
def runHandshakeAndPing
    (clientAsync : Except Error (List (Event Frame CloseFrame))) :
    Outcome Unit × List (Message Frame CloseFrame) :=
  match clientAsync with
  | .error e => (tungsteniteErr e, [])
  | .ok events =>
      match send [] (.ping []) with
      | .error e => (tungsteniteErr e, [])
      | .ok () =>
          match pongLoop send debug [.ping []] events with
          | (.ok (), sent) =>
              match send sent (.close none) with
              | .ok () => (pure (), sent ++ [.close none])
              | .error _ => (pure (), sent)
          | (.error e, sent) => (.error e, sent)

end Source

/-! ## The exchange as it is documented -/

/-- A Pong with the payload of the Ping. -/
def Matches : Event Frame CloseFrame → Prop
  | .ok (.pong payload) => payload = []
  | _ => False

/-- A Close or an error. -/
def Ends : Event Frame CloseFrame → Prop
  | .ok (.close _) => True
  | .error _ => True
  | _ => False

/-- The answer to a Ping. -/
def answer : Event Frame CloseFrame → Option (Message Frame CloseFrame)
  | .ok (.ping payload) => some (.pong payload)
  | _ => none

/-- The matching Pong comes before any Close, error or end. -/
def Answered : List (Event Frame CloseFrame) → Prop :=
  Until (fun e => ¬Ends e) (Next Matches)

/-- The event decides: it is the matching Pong, a Close or an error. -/
def decides : Event Frame CloseFrame → Bool
  | .ok (.pong payload) => payload.isEmpty
  | .ok (.close _) => true
  | .error _ => true
  | _ => false

/-- The answers to the Pings before the deciding event. -/
def answers (events : List (Event Frame CloseFrame)) :
    List (Message Frame CloseFrame) :=
  (events.takeWhile fun e => !decides e).filterMap answer

/-- The result is Ok when the matching Pong comes in time.  What is sent is a
Ping, one Pong for each Ping before the deciding event, and a Close on Ok. -/
def Follows
    (send : List (Message Frame CloseFrame) → Message Frame CloseFrame →
      Except Error Unit)
    (debug : Option CloseFrame → Text)
    (events : List (Event Frame CloseFrame)) : Prop :=
  let result := runHandshakeAndPing send debug (.ok events)
  (result.1 = .ok () ↔ Answered events) ∧
    result.2 = .ping [] ::
      (answers events ++ if result.1 = .ok () then [.close none] else [])

/-- The event does not end the loop. -/
def Passes : Event Frame CloseFrame → Prop
  | .ok (.pong _) => False
  | e => ¬Ends e

/-- The first event that ends the loop is a Pong with a payload, and no
matching one comes behind it before a Ping, a Close, an error or the end. -/
def Mistakes : List (Event Frame CloseFrame) → Prop :=
  Until Passes fun rest => ∃ payload behind,
    rest = .ok (.pong payload) :: behind ∧ payload ≠ [] ∧
      ¬Until (fun e => ¬Ends e ∧ answer e = none) (Next Matches) behind

/-! ## The events one by one -/

variable {e : Event Frame CloseFrame} {events : List (Event Frame CloseFrame)}
  {sent : List (Message Frame CloseFrame)} {payload : Bytes}

theorem answered_cons_iff :
    Answered (e :: events) ↔ Matches e ∨ (¬Ends e ∧ Answered events) := by
  unfold Answered
  rw [until_cons_iff, next_cons_iff]

theorem not_answered_nil : ¬Answered ([] : List (Event Frame CloseFrame)) := by
  unfold Answered
  rw [until_nil_iff]
  exact not_next_nil

theorem answers_cons_of_decides (h : decides e = true) :
    answers (e :: events) = [] := by
  rw [answers, List.takeWhile_cons_of_neg (by simp [h])]
  rfl

theorem answers_cons (h : decides e = false) :
    answers (e :: events) = (answer e).toList ++ answers events := by
  rw [answers, List.takeWhile_cons_of_pos (by simp [h]), answers]
  cases hanswer : answer e with
  | none => rw [List.filterMap_cons_none hanswer]; rfl
  | some m => rw [List.filterMap_cons_some hanswer]; rfl

theorem decides_iff : decides e = true ↔ Matches e ∨ Ends e := by
  rcases e with e | m
  · simp [decides, Ends]
  · cases m <;> simp [decides, Matches, Ends]

theorem decides_eq_false (hmatches : ¬Matches e) (hends : ¬Ends e) :
    decides e = false :=
  Bool.eq_false_iff.mpr fun h => (decides_iff.mp h).elim hmatches hends

theorem Ends.not_matches (h : Ends e) : ¬Matches e := by
  rcases e with e | m
  · exact id
  · cases m with
    | pong payload => exact absurd h id
    | _ => exact id

/-- No Ping, Close, error or end comes before the matching Pong when that comes
in time, and no answer is due before it. -/
theorem until_matches_iff :
    Until (fun e => ¬Ends e ∧ answer e = none) (Next Matches) events ↔
      Answered events ∧ answers events = [] := by
  induction events with
  | nil =>
      rw [until_nil_iff]
      exact iff_of_false not_next_nil fun h => not_answered_nil h.1
  | cons e events ih =>
      rw [until_cons_iff, next_cons_iff, ih, answered_cons_iff]
      by_cases hmatches : Matches e
      · exact iff_of_true (.inl hmatches) ⟨.inl hmatches,
          answers_cons_of_decides (decides_iff.mpr (.inl hmatches))⟩
      by_cases hends : Ends e
      · exact iff_of_false (fun h => h.elim hmatches fun h => h.1.1 hends)
          fun h => h.1.elim hmatches fun h => h.1 hends
      rw [answers_cons (decides_eq_false hmatches hends),
        List.append_eq_nil_iff, Option.toList_eq_nil_iff]
      tauto

/-- An event that does not end the loop does not decide. -/
theorem Passes.undecided (h : Passes e) : ¬Matches e ∧ ¬Ends e := by
  rcases e with e | m
  · exact ⟨id, h⟩
  · cases m with
    | pong payload => exact absurd h id
    | _ => exact ⟨id, h⟩

/-- What ends the loop is a Close, an error, or a Pong. -/
theorem exists_pong (hpasses : ¬Passes e) (hends : ¬Ends e) :
    ∃ payload, e = .ok (.pong payload) := by
  rcases e with e | m
  · exact absurd trivial hends
  · cases m with
    | pong payload => exact ⟨payload, rfl⟩
    | _ => exact absurd hends hpasses

theorem not_mistakes_nil : ¬Mistakes ([] : List (Event Frame CloseFrame)) := by
  unfold Mistakes
  rw [until_nil_iff]
  rintro ⟨_, _, ⟨⟩, -⟩

theorem mistakes_cons_of_passes (h : Passes e) :
    Mistakes (e :: events) ↔ Mistakes events := by
  unfold Mistakes
  rw [until_cons_iff, and_iff_right h]
  apply or_iff_right
  rintro ⟨payload, behind, heq, -⟩
  rw [(List.cons.inj heq).1] at h
  exact h

/-- A Pong is taken for the matching one, whatever its payload. -/
theorem mistakes_pong_iff {payload : Bytes} :
    Mistakes (.ok (.pong payload) :: events) ↔
      payload ≠ [] ∧ ¬(Answered events ∧ answers events = []) := by
  unfold Mistakes
  rw [until_cons_iff]
  constructor
  · rintro (⟨_, _, heq, hne, hslow⟩ | ⟨hpasses, -⟩)
    · obtain ⟨hhead, rfl⟩ := List.cons.inj heq
      obtain rfl := Message.pong.inj (Except.ok.inj hhead)
      exact ⟨hne, fun h => hslow (until_matches_iff.mpr h)⟩
    · exact absurd hpasses id
  · rintro ⟨hne, hslow⟩
    exact .inl ⟨payload, events, rfl, hne,
      fun h => hslow (until_matches_iff.mp h)⟩

theorem not_mistakes_of_ends (h : Ends e) : ¬Mistakes (e :: events) := by
  unfold Mistakes
  rw [until_cons_iff]
  rintro (⟨payload, behind, heq, -⟩ | ⟨hpasses, -⟩)
  · rw [(List.cons.inj heq).1] at h
    exact h
  · exact hpasses.undecided.2 h

/-! ## The loop -/

section Loop

variable
  {send : List (Message Frame CloseFrame) → Message Frame CloseFrame →
    Except Error Unit}
  {debug : Option CloseFrame → Text}

/-- The loop does the rest of what is documented, behind what is sent. -/
def FollowsFrom
    (send : List (Message Frame CloseFrame) → Message Frame CloseFrame →
      Except Error Unit)
    (debug : Option CloseFrame → Text) (sent : List (Message Frame CloseFrame))
    (events : List (Event Frame CloseFrame)) : Prop :=
  ((pongLoop send debug sent events).1 = .ok () ↔ Answered events) ∧
    (pongLoop send debug sent events).2 = sent ++ answers events

/-- A round that goes on sends the answer to its event. -/
theorem pongLoop_of_passes (hsend : ∀ sent m, send sent m = .ok ())
    (h : Passes e) :
    pongLoop send debug sent (e :: events) =
      pongLoop send debug (sent ++ (answer e).toList) events := by
  rcases e with e | m
  · exact absurd trivial h
  cases m with
  | pong payload => exact absurd h id
  | close frame => exact absurd trivial h
  | ping payload =>
      rw [pongLoop, hsend]
      rfl
  | text _ => simp [pongLoop, answer]
  | binary _ => simp [pongLoop, answer]
  | frame _ => simp [pongLoop, answer]

theorem followsFrom_cons_of_passes (hsend : ∀ sent m, send sent m = .ok ())
    (h : Passes e) :
    FollowsFrom send debug sent (e :: events) ↔
      FollowsFrom send debug (sent ++ (answer e).toList) events := by
  obtain ⟨hmatches, hends⟩ := h.undecided
  unfold FollowsFrom
  rw [pongLoop_of_passes hsend h, answered_cons_iff, or_iff_right hmatches,
    and_iff_right hends, answers_cons (decides_eq_false hmatches hends),
    List.append_assoc]

/-- A Pong ends the loop with Ok. -/
theorem followsFrom_pong_iff :
    FollowsFrom send debug sent (.ok (.pong payload) :: events) ↔
      payload = [] ∨ (Answered events ∧ answers events = []) := by
  have hends : ¬Ends (.ok (.pong payload) : Event Frame CloseFrame) := id
  unfold FollowsFrom
  rw [answered_cons_iff, and_iff_right hends]
  by_cases hp : payload = []
  · subst hp
    refine iff_of_true ⟨iff_of_true rfl (.inl rfl), ?_⟩ (.inl rfl)
    rw [answers_cons_of_decides rfl, List.append_nil]
    rfl
  · have hmatches : ¬Matches (.ok (.pong payload) : Event Frame CloseFrame) :=
      hp
    have hok : (pongLoop send debug sent
        (.ok (.pong payload) :: events)).1 = .ok () := rfl
    have hsent : (pongLoop send debug sent
        (.ok (.pong payload) :: events)).2 = sent := rfl
    have hnone : (answer (.ok (.pong payload) :
        Event Frame CloseFrame)).toList = [] := rfl
    rw [or_iff_right hmatches, or_iff_right hp, hsent,
      answers_cons (decides_eq_false hmatches hends), hnone, List.nil_append,
      List.self_eq_append_right, iff_true_left hok]

theorem tungsteniteErr_ne_ok (e : Error) (a : α) :
    (tungsteniteErr e : Outcome α) ≠ .ok a := by
  cases e <;> exact nofun

/-- A Close or an error ends it with an error. -/
theorem pongLoop_of_ends (h : Ends e) :
    (pongLoop send debug sent (e :: events)).1 ≠ .ok () ∧
      (pongLoop send debug sent (e :: events)).2 = sent := by
  rcases e with e | m
  · exact ⟨tungsteniteErr_ne_ok e (), rfl⟩
  · cases m with
    | close frame => exact ⟨nofun, rfl⟩
    | _ => exact absurd h id

theorem followsFrom_of_ends (h : Ends e) :
    FollowsFrom send debug sent (e :: events) := by
  have hloop : (pongLoop send debug sent (e :: events)).1 ≠ .ok () ∧
      (pongLoop send debug sent (e :: events)).2 = sent := pongLoop_of_ends h
  have hunanswered : ¬Answered (e :: events) := by
    rw [answered_cons_iff]
    exact fun hanswered =>
      hanswered.elim h.not_matches fun hlater => hlater.1 h
  refine ⟨iff_of_false hloop.1 hunanswered, ?_⟩
  rw [hloop.2, answers_cons_of_decides (decides_iff.mpr (.inr h)),
    List.append_nil]

/-- So does the end of the stream. -/
theorem followsFrom_nil : FollowsFrom send debug sent [] := by
  refine ⟨iff_of_false nofun not_answered_nil, ?_⟩
  rw [answers, List.takeWhile_nil, List.filterMap_nil, List.append_nil]
  rfl

/-- The loop does what is documented unless it takes a Pong for the matching
one. -/
theorem followsFrom_iff (hsend : ∀ sent m, send sent m = .ok ()) :
    FollowsFrom send debug sent events ↔ ¬Mistakes events := by
  -- A round that goes on changes what has been sent, so that is general.
  induction events generalizing sent with
  | nil => exact iff_of_true followsFrom_nil not_mistakes_nil
  | cons e events ih =>
      by_cases hpasses : Passes e
      · rw [followsFrom_cons_of_passes hsend hpasses, ih,
          mistakes_cons_of_passes hpasses]
      by_cases hends : Ends e
      · exact iff_of_true (followsFrom_of_ends hends)
          (not_mistakes_of_ends hends)
      obtain ⟨payload, rfl⟩ := exists_pong hpasses hends
      rw [followsFrom_pong_iff, mistakes_pong_iff, not_and_not_right,
        or_iff_not_imp_left]

/-- A Ping goes before the loop, and a Close behind it if it ends with Ok. -/
theorem runHandshakeAndPing_eq (hsend : ∀ sent m, send sent m = .ok ())
    {result : Outcome Unit}
    (h : pongLoop send debug [.ping []] events = (result, sent)) :
    runHandshakeAndPing send debug (.ok events) =
      (result, sent ++ if result = .ok () then [.close none] else []) := by
  unfold runHandshakeAndPing
  simp only [hsend, h]
  rcases result with e | _
  · rw [if_neg nofun, List.append_nil]
  · rw [if_pos rfl]
    rfl

theorem follows_iff_followsFrom (hsend : ∀ sent m, send sent m = .ok ()) :
    Follows send debug events ↔ FollowsFrom send debug [.ping []] events := by
  have hrun : runHandshakeAndPing send debug (.ok events) = _ :=
    runHandshakeAndPing_eq hsend rfl
  unfold Follows FollowsFrom
  rw [hrun]
  dsimp only
  rw [← List.cons_append, List.append_left_inj]
  rfl

/-- The ping does what is documented unless it takes a Pong for the matching
one. -/
theorem follows_iff (hsend : ∀ sent m, send sent m = .ok ())
    (events : List (Event Frame CloseFrame)) :
    Follows send debug events ↔ ¬Mistakes events := by
  rw [follows_iff_followsFrom hsend, followsFrom_iff hsend]

/-- The server sends a Ping and a text before its Pong. -/
theorem follows_pong :
    Follows (fun _ _ => .ok ()) (fun _ : Option Unit => [])
        [.ok (.ping [7]), .ok (.text ['x']), .ok (.pong []),
          (.ok (.frame ()) : Event Unit Unit)] ↔
      ¬Mistakes [.ok (.ping [7]), .ok (.text ['x']), .ok (.pong []),
        (.ok (.frame ()) : Event Unit Unit)] :=
  follows_iff (fun _ _ => rfl) _

end Loop

/-- A Pong that answers nothing, and a Close. -/
theorem not_follows_unsolicited :
    ¬Follows (fun _ _ => .ok ()) (fun _ : Option Unit => [])
      [.ok (.pong [1]), (.ok (.close none) : Event Unit Unit)] := by
  intro h
  have hanswered := h.1.mp rfl
  rw [answered_cons_iff, answered_cons_iff] at hanswered
  rcases hanswered with hmatches | ⟨-, hmatches | ⟨hends, -⟩⟩
  · cases hmatches
  · exact hmatches
  · exact hends trivial

end Websocket

end KnockKnock
