import KnockKnock.Exchange
import KnockKnock.Support.Ending
import KnockKnock.Support.Numeral

/-!
# The RTMP handshake and the test server

`run_handshake` sends C0 and C1 in one write, reads S0, S1 and S2 and echoes
S1 as C2; the server role of `start_rtmp_ok` reads C0 and C1, answers in one
write, with C1 as S2, and reads C2.  Both write blocks that are far larger
than a channel may be.
-/

namespace KnockKnock

open Numeral Program

namespace Rtmp

/-- `RTMP_VERSION` -/
def rtmpVersion : UInt8 := 3

/-- `HANDSHAKE_PAYLOAD_LEN` -/
def handshakePayloadLen : ℕ := 1536

/-- `n.to_be_bytes()` -/
def toBeBytes (n : UInt32) : Bytes :=
  [(n >>> 24).toUInt8, (n >>> 16).toUInt8, (n >>> 8).toUInt8, n.toUInt8]

/-- The rounds of `build_c1` over its chunks of four bytes. -/
def fillChunks : ℕ → UInt32 → Bytes
  | 0, _ => []
  | chunks + 1, acc =>
      let acc := acc ^^^ (acc <<< 13)
      let acc := acc ^^^ (acc >>> 17)
      let acc := acc ^^^ (acc <<< 5)
      toBeBytes acc ++ fillChunks chunks acc

/-- `build_c1`, at `nanos` nanoseconds past the second. -/
def buildC1 (nanos : UInt32) : Bytes :=
  toBeBytes nanos ++ [0, 0, 0, 0] ++
    fillChunks ((handshakePayloadLen - 8) / 4) nanos

theorem length_fillChunks (chunks : ℕ) (acc : UInt32) :
    (fillChunks chunks acc).length = 4 * chunks := by
  induction chunks generalizing acc with
  | zero => rfl
  | succ chunks ih =>
      rw [fillChunks, List.length_append, ih]
      simp only [toBeBytes, List.length_cons, List.length_nil]
      omega

theorem length_buildC1 (nanos : UInt32) :
    (buildC1 nanos).length = handshakePayloadLen := by
  rw [buildC1, List.length_append, length_fillChunks]
  rfl

/-- `run_handshake`, with the C1 it has built. -/
def runHandshakeWith (c1 : Bytes) : Exchange Unit := do
  Exchange.writeAll (rtmpVersion :: c1)
  let s0 ← Exchange.readExact 1
  if s0.headD 0 ≠ rtmpVersion then
    Exchange.lift (Outcome.fail .other
      ("RTMP S0 returned version ".toList ++ decimal (s0.headD 0).toNat ++
        " (expected ".toList ++ decimal rtmpVersion.toNat ++ ")".toList))
  let s1 ← Exchange.readExact handshakePayloadLen
  let _s2 ← Exchange.readExact handshakePayloadLen
  Exchange.writeAll s1

def runHandshake (nanos : UInt32) : Exchange Unit :=
  runHandshakeWith (buildC1 nanos)

end Rtmp

/-! ## The server -/

namespace Testserver

/-- How a connection of `start_rtmp_ok` ends, and what it has read. -/
inductive RtmpEnding where
  | refusedC0
  | unreadC1
  | unsent
  | served (c0 : UInt8) (c1 : Bytes) (c2 : Outcome Bytes)

/-- `s.read_exact(&mut buffer)` of the standard library. -/
def readExact (size : ℕ) : Program UInt8 Fault (Outcome Bytes) :=
  (Exchange.readExactOr "failed to fill whole buffer".toList size).run

/-- The second half of a connection: S0, S1 and S2 are sent, C2 is read. -/
def answerC1 (s1 : Bytes) (c0 : UInt8) (c1 : Bytes) :
    Program UInt8 Fault RtmpEnding := do
  let out := [Rtmp.rtmpVersion] ++ s1 ++ c1
  match ← (Exchange.writeAll out).run with
  | .error _ => .done .unsent
  | .ok () =>
      let c2 ← readExact Rtmp.handshakePayloadLen
      .done (.served c0 c1 c2)

/-- A connection of `start_rtmp_ok`, with its S1. -/
def startRtmpOk (s1 : Bytes) : Program UInt8 Fault RtmpEnding := do
  match ← readExact 1 with
  | .error _ => .done .refusedC0
  | .ok c0 =>
      if c0.headD 0 ≠ Rtmp.rtmpVersion then .done .refusedC0
      else
        match ← readExact Rtmp.handshakePayloadLen with
        | .error _ => .done .unreadC1
        | .ok c1 => answerC1 s1 (c0.headD 0) c1

end Testserver

namespace Rtmp

open Testserver

/-! ## The dialogue -/

variable {c1 s1 : Bytes}

/-- The client sends C0 and C1, takes S0, S1 and S2, and has S1 to send. -/
theorem client_turns (hc1 : c1.length = handshakePayloadLen)
    (hs1 : s1.length = handshakePayloadLen) :
    ∃ p, Emits halt (runHandshakeWith c1).run (rtmpVersion :: c1) p ∧
      Consumes halt p ([rtmpVersion] ++ s1 ++ c1)
        (Exchange.writeAll s1).run := by
  refine ⟨_, Exchange.emits_bind (rtmpVersion :: c1) _, ?_⟩
  have hs0 : [rtmpVersion].length = 1 := rfl
  rw [List.append_assoc]
  refine (Exchange.consumes_bind (Exchange.consumes_readExactOr _ hs0) _).trans
    ?_
  change Consumes halt (ExceptT.run (if rtmpVersion ≠ rtmpVersion then _
    else _)) _ _
  rw [if_neg (not_not_intro rfl)]
  refine (Exchange.consumes_bind (Exchange.consumes_readExactOr _ hs1) _).trans
    ?_
  exact Exchange.consumes_bind (Exchange.consumes_readExactOr _ hc1) _

/-- The server takes C0 and C1. -/
theorem consumes_startRtmpOk (hc1 : c1.length = handshakePayloadLen) :
    Consumes halt (startRtmpOk s1) (rtmpVersion :: c1)
      (answerC1 s1 rtmpVersion c1) := by
  have hc0 : [rtmpVersion].length = 1 := rfl
  unfold startRtmpOk Testserver.readExact
  refine ((Exchange.consumes_readExactOr _ hc0).bind halt _).trans ?_
  change Consumes halt (if rtmpVersion ≠ rtmpVersion then .done .refusedC0
    else _) _ _
  rw [if_neg (not_not_intro rfl)]
  exact (Exchange.consumes_readExactOr _ hc1).bind halt _

/-- It sends S0, S1 and S2 and takes C2. -/
theorem answerC1_turns {c2 : Bytes} (hc2 : c2.length = handshakePayloadLen) :
    ∃ q, Emits halt (answerC1 s1 rtmpVersion c1) ([rtmpVersion] ++ s1 ++ c1) q ∧
      Consumes halt q c2 (.done (.served rtmpVersion c1 (.ok c2))) :=
  ⟨_, emits_writeAll _ _,
    (Exchange.consumes_readExactOr _ hc2).bind halt _⟩

theorem converse_handshake (hc1 : c1.length = handshakePayloadLen)
    (hs1 : s1.length = handshakePayloadLen) :
    Converse halt halt (runHandshakeWith c1).run (startRtmpOk s1) (.ok ())
      (.served rtmpVersion c1 (.ok s1))
      ((rtmpVersion :: c1) ++ (s1 ++ []))
      (([rtmpVersion] ++ s1 ++ c1) ++ []) := by
  obtain ⟨p, hopen, hclient⟩ := client_turns hc1 hs1
  obtain ⟨q, hanswer, hserver⟩ := answerC1_turns hs1
  have hecho : Emits halt (Exchange.writeAll s1).run s1 (.done (.ok ())) :=
    emits_writeAll s1 _
  exact .send hopen (consumes_startRtmpOk hc1)
    (.receive hanswer hclient (.send hecho hserver (.finished rfl rfl)))

/-! ## All schedules -/

/-- The client and the server, with channels of these capacities. -/
def setting (up down : ℕ) : Setting UInt8 Fault (Outcome Unit) RtmpEnding where
  resumeLeft := halt
  resumeRight := halt
  roomRight := up
  roomLeft := down

/-- What the handshake promises of a state of its two parties. -/
structure ProperHandshake (up down : ℕ) (c1 s1 : Bytes)
    (n : Network UInt8 Fault (Outcome Unit) RtmpEnding) : Prop where
  /-- Somebody can move, or both have ended. -/
  noDeadlock : (∃ n', Network.Step (setting up down) n n') ∨
    (∃ r, n.left = .done r) ∧ ∃ ending, n.right = .done ending
  /-- In the end C2 is S1 and S2 is C1, and the channels are empty. -/
  terminal : (¬∃ n', Network.Step (setting up down) n n') →
    n.left = .done (.ok ()) ∧
      n.right = .done (.served rtmpVersion c1 (.ok s1)) ∧
      n.leftReceived = [rtmpVersion] ++ s1 ++ c1 ∧
      n.toRight = [] ∧ n.toLeft = []

/-- Every schedule of the handshake is proper. -/
theorem properHandshake {up down : ℕ} (hup : 0 < up) (hdown : 0 < down)
    (hc1 : c1.length = handshakePayloadLen)
    (hs1 : s1.length = handshakePayloadLen)
    {n : Network UInt8 Fault (Outcome Unit) RtmpEnding}
    (hn : Network.Reachable (setting up down)
      (Network.start (runHandshakeWith c1).run (startRtmpOk s1)) n) :
    ProperHandshake up down c1 s1 n := by
  have hsound := (converse_handshake hc1 hs1).sound (S := setting up down)
    hup hdown hn
  constructor
  · exact hsound.live.imp_right fun hend =>
      ⟨⟨_, hend.left.1⟩, _, hend.right.1⟩
  · intro hstuck
    obtain ⟨hleft, hright, hup', hdown', -, hclient⟩ := hsound.complete hstuck
    exact ⟨hleft.1, hright.1, by simpa using hclient, hup', hdown'⟩

/-- The end of a handshake over channels that hold one byte. -/
theorem properHandshake_complete :
    ∃ n, n.left = .done (.ok ()) ∧
      n.leftReceived =
        [rtmpVersion] ++ List.replicate 1536 0xCD ++ buildC1 1 ∧
      ProperHandshake 1 1 (buildC1 1) (List.replicate 1536 0xCD) n := by
  have hs1 : (List.replicate 1536 (0xCD : UInt8)).length =
      handshakePayloadLen := List.length_replicate
  have hends : (setting 1 1).Ends := ⟨rfl, nofun⟩
  obtain ⟨n, hn, hcomplete⟩ :=
    ((converse_handshake (length_buildC1 1) hs1).succeeds hends (by decide)
      (by decide)).exists_complete
  have hreceived := hcomplete.leftReceived
  rw [List.append_nil] at hreceived
  exact ⟨n, hcomplete.left.1, hreceived,
    properHandshake (by decide) (by decide) (length_buildC1 1) hs1 hn⟩

end Rtmp

end KnockKnock
