import KnockKnock.Support.Responder
import KnockKnock.Testserver

/-!
# The test servers over UDP

Five threads of the test server wait on a socket, each with one buffer that
all datagrams go through.  What a datagram does not overwrite is left from
those before it; no answer ever shows it.
-/

namespace KnockKnock

open Datagram

namespace Testserver

/-- `[u8; BUF_SIZE]` -/
abbrev Buffer := { buf : Bytes // buf.length = bufSize }

namespace Buffer

def zero : Buffer := ⟨List.replicate bufSize 0, List.length_replicate⟩

/-- `socket.recv_from(&mut buf)`, and how much of the buffer it has filled. -/
def recvFrom (buf : Buffer) (d : Bytes) : Buffer × ℕ :=
  (⟨d.take bufSize ++ buf.1.drop (d.take bufSize).length, by
      have hle := List.length_take_le bufSize d
      rw [List.length_append, List.length_drop, buf.2]
      omega⟩,
    (d.take bufSize).length)

/-- `buf[i]`, inside the buffer. -/
def get (buf : Buffer) (i : ℕ) : UInt8 := buf.1.getD i 0

/-- `buf[i] = b` -/
def set (buf : Buffer) (i : ℕ) (b : UInt8) : Buffer :=
  ⟨buf.1.set i b, by rw [List.length_set, buf.2]⟩

end Buffer

def startUdpEcho : Responder Buffer Bytes where
  start := .zero
  serve buf d :=
    let (buf, n) := buf.recvFrom d
    (buf, some (buf.1.take n))
  failed buf := some buf

def startDnsOk : Responder Buffer Bytes where
  start := .zero
  serve buf d :=
    let (buf, n) := buf.recvFrom d
    if 12 ≤ n then
      let buf := buf.set 2 (buf.get 2 ||| 0x80)
      let buf := buf.set 3 (buf.get 3 &&& 0xF0)
      (buf, some (buf.1.take n))
    else (buf, none)
  failed _ := none

def startNtpOk : Responder Buffer Bytes where
  start := .zero
  serve buf d :=
    let (buf, n) := buf.recvFrom d
    if n = 48 then
      let version := (buf.get 0 >>> 3) &&& 0x07
      let buf := buf.set 0 ((version <<< 3) ||| 4)
      let buf := buf.set 1 2
      (buf, some (buf.1.take 48))
    else (buf, none)
  failed _ := none

def startStunOk : Responder Buffer Bytes where
  start := .zero
  serve buf d :=
    let (buf, n) := buf.recvFrom d
    if 20 ≤ n then
      let buf := (((buf.set 0 0x01).set 1 0x01).set 2 0x00).set 3 0x00
      (buf, some (buf.1.take 20))
    else (buf, none)
  failed _ := none

def startTurnOk : Responder Buffer Bytes where
  start := .zero
  serve buf d :=
    let (buf, n) := buf.recvFrom d
    if 20 ≤ n then
      let resp := [0x01, 0x13, 0x00, 0x08] ++ (buf.1.drop 4).take 16 ++
        [0x00, 0x09, 0x00, 0x04, 0x00, 0x00, 0x04, 0x01]
      (buf, some resp)
    else (buf, none)
  failed _ := none

/-- The servers that answer datagrams. -/
inductive Fixture where
  | udpEcho
  | dnsOk
  | ntpOk
  | stunOk
  | turnOk
deriving DecidableEq, Repr

namespace Fixture

def responder : Fixture → Responder Buffer Bytes
  | udpEcho => startUdpEcho
  | dnsOk => startDnsOk
  | ntpOk => startNtpOk
  | stunOk => startStunOk
  | turnOk => startTurnOk

/-- The answer to a datagram, as it is in the buffer. -/
def answerTo (d : Bytes) : Fixture → Option Bytes
  | udpEcho => some d
  | dnsOk =>
      if 12 ≤ d.length then
        some ((d.set 2 (d.getD 2 0 ||| 0x80)).set 3 (d.getD 3 0 &&& 0xF0))
      else none
  | ntpOk =>
      if d.length = 48 then
        some ((d.set 0 ((((d.getD 0 0 >>> 3) &&& 0x07) <<< 3) ||| 4)).set 1 2)
      else none
  | stunOk =>
      if 20 ≤ d.length then
        some ([0x01, 0x01, 0x00, 0x00] ++ (d.drop 4).take 16)
      else none
  | turnOk =>
      if 20 ≤ d.length then
        some ([0x01, 0x13, 0x00, 0x08] ++ (d.drop 4).take 16 ++
          [0x00, 0x09, 0x00, 0x04, 0x00, 0x00, 0x04, 0x01])
      else none

/-- What a fixture answers to a datagram. -/
def answer (f : Fixture) (d : Bytes) : Option Bytes :=
  f.answerTo (d.take bufSize)

end Fixture

/-! ## Nothing of the buffer shows -/

namespace Buffer

variable {buf : Buffer} {d : Bytes} {i n : ℕ}

theorem take_recvFrom (hn : n ≤ (buf.recvFrom d).2) :
    (buf.recvFrom d).1.1.take n = (d.take bufSize).take n :=
  List.take_append_of_le_length hn

theorem get_recvFrom (hi : i < (buf.recvFrom d).2) :
    (buf.recvFrom d).1.get i = (d.take bufSize).getD i 0 := by
  rw [get, List.getD_eq_getElem?_getD, List.getD_eq_getElem?_getD]
  exact congrArg (Option.getD · 0) (List.getElem?_append_left hi)

theorem get_set_ne {j : ℕ} (b : UInt8) (hij : i ≠ j) :
    (buf.set i b).get j = buf.get j := by
  rw [get, get, List.getD_eq_getElem?_getD, List.getD_eq_getElem?_getD]
  exact congrArg (Option.getD · 0) (List.getElem?_set_ne hij)

theorem take_set (b : UInt8) :
    (buf.set i b).1.take n = (buf.1.take n).set i b :=
  List.take_set

end Buffer

open Buffer

/-- Overwriting the first four bytes leaves those behind them. -/
theorem set_header {d : Bytes} (h : 4 ≤ d.length) (a b c e : UInt8) :
    (((d.set 0 a).set 1 b).set 2 c).set 3 e = [a, b, c, e] ++ d.drop 4 := by
  match d, h with
  | _ :: _ :: _ :: _ :: _, _ => rfl

/-- A server that answers under a condition. -/
theorem answered_if {p : Prop} [Decidable p] {x y : Buffer} {r r' : Bytes}
    (h : p → r = r') :
    (if p then (x, some r) else (y, none)).2 = if p then some r' else none := by
  by_cases hp : p
  · rw [if_pos hp, if_pos hp, h hp]
  · rw [if_neg hp, if_neg hp]

/-- Whatever a fixture has received before, its answer depends on the datagram
alone. -/
theorem Fixture.answers (f : Fixture) : f.responder.Answers f.answer := by
  rintro buf - d
  have hlength : (buf.recvFrom d).2 = (d.take bufSize).length := rfl
  have htake : ∀ n ≤ (buf.recvFrom d).2,
      (buf.recvFrom d).1.1.take n = (d.take bufSize).take n :=
    fun n => take_recvFrom
  have hget : ∀ i < (buf.recvFrom d).2,
      (buf.recvFrom d).1.get i = (d.take bufSize).getD i 0 :=
    fun i => get_recvFrom
  have hall : (buf.recvFrom d).1.1.take (buf.recvFrom d).2 =
      d.take bufSize := by
    rw [htake _ le_rfl, hlength, List.take_length]
  cases f with
  | udpEcho => exact congrArg some hall
  | dnsOk =>
      simp only [responder, startDnsOk, answer, answerTo]
      generalize buf.recvFrom d = r at *
      rw [← hlength]
      refine answered_if fun hlong => ?_
      rw [take_set, take_set, hall, get_set_ne _ (by decide),
        hget 2 (by omega), hget 3 (by omega)]
  | ntpOk =>
      simp only [responder, startNtpOk, answer, answerTo]
      generalize buf.recvFrom d = r at *
      rw [← hlength]
      refine answered_if fun hlong => ?_
      rw [take_set, take_set, ← hlong, hall, hget 0 (by omega)]
  | stunOk =>
      simp only [responder, startStunOk, answer, answerTo]
      generalize buf.recvFrom d = r at *
      rw [← hlength]
      refine answered_if fun hlong => ?_
      have hfour : 4 ≤ ((d.take bufSize).take 20).length := by
        rw [List.length_take]
        omega
      rw [take_set, take_set, take_set, take_set, htake 20 (by omega),
        set_header hfour, List.drop_take]
  | turnOk =>
      simp only [responder, startTurnOk, answer, answerTo]
      generalize buf.recvFrom d = r at *
      rw [← hlength]
      refine answered_if fun hlong => ?_
      have hmiddle := congrArg (List.drop 4) (htake 20 (by omega))
      rw [List.drop_take, List.drop_take] at hmiddle
      rw [hmiddle]

end Testserver

end KnockKnock
