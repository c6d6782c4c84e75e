import KnockKnock.Session
import KnockKnock.Support.Text

/-!
# The HTTP exchange

`run_exchange` writes its request, reads once, and judges the response by the
status line in the buffer.  What the one read returns is the network's choice:
`sameVerdict_iff` says for which responses that choice does not matter.
-/

namespace KnockKnock

open ByteStream

namespace Http

/-- `BUF_SIZE` -/
def bufSize : ℕ := 255

/-- `HTTP_UNCONNECT_STATUS_CODE` -/
def unconnectStatusCode : List Text := ["404".toList, "501".toList]

/-- The verdict on the status line of `buffer_str`. -/
def checkStatusLine (bufferStr : Text) : Outcome Unit :=
  let statusLine := Str.beforeFirst "\r\n".toList bufferStr
  if ¬"HTTP/".toList <+: statusLine then
    Outcome.fail .other
      "response is not HTTP/1.x (wrong port? wrong protocol?)".toList
  else
    match unconnectStatusCode.find? (Str.contains statusLine) with
    | some code => Outcome.fail .notFound code
    | none => pure ()

/-- What one read leaves in the zeroed buffer. -/
def buffer (received : Bytes) : Bytes :=
  received ++ List.replicate (bufSize - received.length) 0

def runExchange (request : Text) : Session Unit := do
  Session.writeAll (Utf8.encode request)
  let received ← Session.read bufSize
  Session.lift (checkStatusLine (Utf8.lossy (buffer received)))

/-- The verdict depends on the first read alone. -/
theorem run_runExchange (request : Text) (d : Delivery UInt8) :
    (Session.run (runExchange request) (Session.opened d)).1 =
      checkStatusLine (Utf8.lossy (buffer (d.read bufSize).1)) := rfl

/-- All deliveries of the response end in `Ok`, or all end in `Err`. -/
def SameVerdict (request : Text) (response : Bytes) : Prop :=
  ∀ d d' : Delivery UInt8, d.bytes = response → d'.bytes = response →
    ((Session.run (runExchange request) (Session.opened d)).1 = .ok () ↔
      (Session.run (runExchange request) (Session.opened d')).1 = .ok ())

/-! ## Responses that do not speak HTTP -/

/-- Zeros behind what was received do not complete a word without zeros. -/
theorem prefix_of_prefix_buffer {word received : Bytes} (hword : 0 ∉ word)
    (h : word <+: buffer received) : word <+: received := by
  have hreceived : received <+: buffer received := List.prefix_append _ _
  rcases List.prefix_or_prefix_of_prefix h hreceived with hle | hle
  · exact hle
  · obtain ⟨rest, rfl⟩ := hle
    have hzeros : rest <+:
        List.replicate (bufSize - received.length) (0 : UInt8) :=
      (List.prefix_append_right_inj received).mp h
    have hnil : rest = [] := by
      by_contra hne
      obtain ⟨b, rest, rfl⟩ := List.exists_cons_of_ne_nil hne
      have hb : b = 0 :=
        List.eq_of_mem_replicate (hzeros.subset (List.mem_cons_self))
      simp [hb] at hword
    rw [hnil, List.append_nil]

/-- A response that does not begin with `HTTP/` is refused in every delivery. -/
theorem runExchange_ne_ok {request : Text} {d : Delivery UInt8}
    (h : ¬Utf8.encode "HTTP/".toList <+: d.bytes) :
    (Session.run (runExchange request) (Session.opened d)).1 ≠ .ok () := by
  rw [run_runExchange]
  intro hok
  have hline : "HTTP/".toList <+: Str.beforeFirst "\r\n".toList
      (Utf8.lossy (buffer (d.read bufSize).1)) := by
    by_contra hnot
    rw [checkStatusLine, if_pos hnot] at hok
    cases hok
  have hbuffer := Utf8.encode_prefix_of_lossy (by decide)
    (hline.trans (Str.beforeFirst_isPrefix _ _))
  have hreceived := prefix_of_prefix_buffer (by decide) hbuffer
  apply h
  rw [← d.read_append bufSize]
  exact hreceived.trans (List.prefix_append _ _)

/-! ## Responses that do -/

/-- A first segment that fits the buffer is what the first read returns. -/
theorem read_push {s : Bytes} (hne : s ≠ []) (hs : s.length ≤ bufSize)
    (d : Delivery UInt8) : ((Delivery.push s d).read bufSize).1 = s := by
  obtain ⟨b, s, rfl⟩ := List.exists_cons_of_ne_nil hne
  exact List.take_of_length_le hs

/-- One byte of the response is not a status line. -/
theorem checkStatusLine_H :
    checkStatusLine (Utf8.lossy (buffer (Utf8.encode "H".toList))) ≠
      .ok () := by
  decide +kernel

/-- The protocol name alone is one without a status code. -/
theorem checkStatusLine_HTTP :
    checkStatusLine (Utf8.lossy (buffer (Utf8.encode "HTTP/".toList))) =
      .ok () := by
  decide +kernel

/-- A cut behind `H` and one behind `HTTP/` are judged differently. -/
theorem not_sameVerdict_of_http (request : Text) (rest : Bytes) :
    ¬SameVerdict request (Utf8.encode "HTTP/".toList ++ rest) := by
  intro h
  let early : Delivery UInt8 := .push (Utf8.encode "H".toList)
    (.whole (Utf8.encode "TTP/".toList ++ rest))
  let late : Delivery UInt8 := .push (Utf8.encode "HTTP/".toList)
    (.whole rest)
  have hsame := h early late (by simp [early]; rfl) (by simp [late])
  rw [run_runExchange, run_runExchange,
    read_push (by decide) (by decide), read_push (by decide) (by decide)]
    at hsame
  exact checkStatusLine_H (hsame.mpr checkStatusLine_HTTP)

/-- The verdict is a function of the response exactly when the response does
not speak HTTP. -/
theorem sameVerdict_iff (request : Text) (response : Bytes) :
    SameVerdict request response ↔
      ¬Utf8.encode "HTTP/".toList <+: response := by
  constructor
  · rintro h ⟨rest, rfl⟩
    exact not_sameVerdict_of_http request rest h
  · rintro h d d' rfl hd'
    exact iff_of_false (runExchange_ne_ok h)
      (runExchange_ne_ok (by rw [hd']; exact h))

/-- An honest response, cut behind its first byte. -/
theorem not_sameVerdict_200 :
    ¬SameVerdict "GET / HTTP/1.1\r\nHost: localhost:80\r\n\r\n".toList
      (Utf8.encode "HTTP/1.1 200 OK\r\n\r\n".toList) :=
  not_sameVerdict_of_http _ (Utf8.encode "1.1 200 OK\r\n\r\n".toList)

end Http

end KnockKnock
