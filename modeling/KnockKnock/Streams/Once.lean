import KnockKnock.Streams.Fixtures
import KnockKnock.Streams.Pingers
import KnockKnock.Support.Ending

/-!
# Fixtures that read once

The TCP pinger and the echo exchange one byte, which cannot be cut, so they
succeed under every schedule.  The HTTP pinger and its fixture both read once,
and the verdict is that of the schedule: it is `Ok` exactly if the one read of
the pinger has returned the five bytes of `HTTP/`.
-/

namespace KnockKnock

open Program Testserver

namespace Level4

theorem eq_singleton_of_append {b : UInt8} {chunk rest : Bytes}
    (h : [b] = chunk ++ rest) (hne : chunk ≠ []) : chunk = [b] ∧ rest = [] := by
  obtain ⟨c, chunk, rfl⟩ := List.exists_cons_of_ne_nil hne
  obtain ⟨rfl, hnil⟩ := List.cons.inj h
  obtain ⟨rfl, rfl⟩ := List.append_eq_nil_iff.mp hnil.symm
  exact ⟨rfl, rfl⟩

/-- The pinger sends its byte, and the echo returns it. -/
theorem confer_echo :
    Confer halt halt ping.run startTcpEcho (.ok ()) () ([1] ++ []) ([1] ++ []) := by
  refine .toRight (n := 1023) (by simp) (.waits (.read 254 _))
    fun chunk rest hchunk hne _ => ?_
  obtain ⟨rfl, rfl⟩ := eq_singleton_of_append hchunk hne
  refine .advanceLeft rfl (.toLeft (n := 254) (by simp) (.ended rfl)
    fun chunk rest hchunk hne _ => ?_)
  obtain ⟨rfl, rfl⟩ := eq_singleton_of_append hchunk hne
  exact .advanceRight rfl (.finished rfl rfl)

end Level4

namespace Http

/-- What the pinger makes of a part of the response. -/
theorem checkStatusLine_take :
    ∀ k ≤ httpOkResponse.length,
      checkStatusLine (Utf8.lossy (buffer (httpOkResponse.take k))) = .ok () ↔
        5 ≤ k := by
  decide +kernel

/-- The verdict is that on what has been received, if anything. -/
def verdictPromise : Promise UInt8 (Outcome Unit) where
  always _ _ := True
  after o received _ :=
    o = .ok () ↔ checkStatusLine (Utf8.lossy (buffer received)) = .ok ()

theorem keeps_verdict (request : Text) :
    Keeps verdictPromise (Client.runExchange request).run [] [] := by
  have hsilent : checkStatusLine (Utf8.lossy (buffer [])) ≠ .ok () := by
    decide +kernel
  have hfailed : ∀ (e : Fault) sent, verdictPromise.after (.error e) [] sent :=
    fun e sent => iff_of_false nofun hsilent
  apply Exchange.keeps_bind
  refine Exchange.keeps_writeAll (fun _ _ => trivial)
    (fun e front _ => hfailed e ([] ++ front)) ?_
  exact ⟨trivial, fun chunk _ => ⟨trivial, Iff.rfl⟩,
    fun e => ⟨trivial, hfailed e _⟩⟩

variable {request : Text} {up down : ℕ}

/-- Next to its fixture the pinger succeeds exactly if its read has returned
the name of the protocol. -/
theorem succeeded_iff_of_reachable {r : Outcome Unit}
    {n : Network UInt8 Fault (Outcome Unit) Unit}
    (hn : Network.Reachable (StreamFixture.httpOk.setting halt up down)
      (Network.start (Client.runExchange request).run startHttpOk) n)
    (hdone : n.left = .done r) :
    r = .ok () ↔ 5 ≤ n.leftReceived.length := by
  have hsent : n.leftReceived ++ n.toLeft <+: httpOkResponse :=
    StreamFixture.sent_of_keeps (StreamFixture.keeps_of_reachable hn)
  have hfront : n.leftReceived <+: httpOkResponse :=
    (List.prefix_append _ _).trans hsent
  have hkeeps := hn.keeps_left (keeps_verdict request) (Promise.renews_halt _)
  rw [hdone] at hkeeps
  have htake := checkStatusLine_take _ hfront.length_le
  rw [← List.prefix_iff_eq_take.mp hfront] at htake
  exact Iff.trans hkeeps.2 htake

/-- The pinger, when it has sent its request. -/
def awaiting : Program UInt8 Fault (Outcome Unit) :=
  (Exchange.read bufSize >>= fun received =>
    Exchange.lift (checkStatusLine (Utf8.lossy (buffer received)))).run

theorem runExchange_eq (request : Text) :
    (Client.runExchange request).run = .writeAll (Utf8.encode request) fun
      | .ok () => awaiting
      | .error e => .done (.error e) := by
  refine congrArg (Program.writeAll _) (funext fun r => ?_)
  cases r with
  | ok _ => rfl
  | error e => rfl

/-- The fixture, when it has read. -/
def answering : Program UInt8 Fault Unit :=
  (Exchange.writeAll httpOkResponse).run >>= fun _ => .done ()

/-- Every part of the response that fits the channel and the buffer is read by
some schedule. -/
theorem exists_verdict_of_isPrefix {front : Bytes}
    (hrequest : Utf8.encode request ≠ [])
    (hup : (Utf8.encode request).length ≤ up) (hfront : front <+: httpOkResponse)
    (hne : front ≠ []) (hdown : front.length ≤ down) :
    ∃ n, Network.Reachable (StreamFixture.httpOk.setting halt up down)
      (Network.start (Client.runExchange request).run startHttpOk) n ∧
      n.left = .done (checkStatusLine (Utf8.lossy (buffer front))) ∧
      n.leftReceived = front := by
  let S : Setting UInt8 Fault (Outcome Unit) Unit :=
    StreamFixture.httpOk.setting halt up down
  let req := Utf8.encode request
  let chunk := req.take Testserver.bufSize
  let left := req.drop Testserver.bufSize
  have hchunk : chunk ≠ [] := by
    rw [Ne, List.take_eq_nil_iff, not_or]
    exact ⟨by decide, hrequest⟩
  have hfits : front.length ≤ bufSize :=
    hfront.length_le.trans (by decide +kernel)
  obtain ⟨rest, hrest⟩ := hfront
  let waiting : Program UInt8 Fault Unit := .writeAll rest fun _ => .done ()
  have hsent : Network.Reachable S
      (Network.start (Client.runExchange request).run startHttpOk)
      ⟨awaiting, startHttpOk, req, [], [], []⟩ := by
    rw [runExchange_eq, ← List.append_nil (Utf8.encode request)]
    exact (reachable_write hrequest hup).trans (reachable_advance rfl)
  have hread : Network.Reachable S
      ⟨awaiting, startHttpOk, chunk ++ left, [], [], []⟩
      ⟨awaiting, answering, left, [], [], chunk⟩ :=
    (reachable_read (S := S.swap) hchunk (List.length_take_le _ _)).swap
  have hanswered : Network.Reachable S
      ⟨awaiting, .writeAll (front ++ rest) fun _ => .done (), left, [], [], chunk⟩
      ⟨awaiting, waiting, left, front, [], chunk⟩ :=
    (reachable_write (S := S.swap) (o := []) hne hdown).swap
  have hjudged : Network.Reachable S
      ⟨awaiting, waiting, left, front ++ [], [], chunk⟩
      ⟨.done (checkStatusLine (Utf8.lossy (buffer front))), waiting, left, [],
        front, chunk⟩ := reachable_read hne hfits
  rw [hrest] at hanswered
  rw [List.append_nil] at hjudged
  rw [List.take_append_drop] at hread
  exact ⟨_, ((hsent.trans hread).trans hanswered).trans hjudged, rfl, rfl⟩

/-- A network of the pinger and its fixture, under some schedule. -/
def Reaches (request : Text) (up down : ℕ)
    (n : Network UInt8 Fault (Outcome Unit) Unit) : Prop :=
  Network.Reachable (StreamFixture.httpOk.setting halt up down)
    (Network.start (Client.runExchange request).run startHttpOk) n

/-- The schedule decides: the pinger succeeds exactly if its one read has
returned the name of the protocol, and every number of bytes that fits the
channel is returned under some schedule. -/
theorem schedule_decides (hrequest : Utf8.encode request ≠ [])
    (hup : (Utf8.encode request).length ≤ up) :
    (∀ n r, Reaches request up down n → n.left = .done r →
      (r = .ok () ↔ 5 ≤ n.leftReceived.length)) ∧
    ∀ k, 0 < k → k ≤ httpOkResponse.length → k ≤ down →
      ∃ n r, Reaches request up down n ∧ n.left = .done r ∧
        n.leftReceived.length = k := by
  refine ⟨fun n r hn hdone => succeeded_iff_of_reachable hn hdone,
    fun k hpos hle hdown => ?_⟩
  have hlength : (httpOkResponse.take k).length = k :=
    List.length_take_of_le hle
  obtain ⟨n, hn, hdone, hreceived⟩ := exists_verdict_of_isPrefix hrequest hup
    (List.take_prefix k httpOkResponse)
    (List.ne_nil_of_length_pos (by rwa [hlength])) (hlength.trans_le hdown)
  exact ⟨n, _, hn, hdone, (congrArg List.length hreceived).trans hlength⟩

/-- A channel of one byte is too small for the name of the protocol. -/
theorem schedule_decides_narrow :
    (∀ n r, Reaches "GET / HTTP/1.1\r\n\r\n".toList 18 1 n → n.left = .done r →
      (r = .ok () ↔ 5 ≤ n.leftReceived.length)) ∧
    ∀ k, 0 < k → k ≤ httpOkResponse.length → k ≤ 1 →
      ∃ n r, Reaches "GET / HTTP/1.1\r\n\r\n".toList 18 1 n ∧
        n.left = .done r ∧ n.leftReceived.length = k :=
  schedule_decides (by decide) (by decide)

end Http

end KnockKnock
