import KnockKnock.Http.StatusLine

/-!
# Bodies and their framing

`fetch_response_body` reads to the end of the connection and looks at no header
field.  `fetchesPayload_iff` says which responses, whole or cut short, it reads
wrongly for that.
-/

namespace KnockKnock

open ByteStream HttpMessage Spans Utf8

namespace Hls

/-- A response of HTTP/1.1 with the status 200 or 206 and a header in UTF-8. -/
structure Served extends Response where
  isVersion : status.minor = 0x31
  isStatus : status.code = encode "200".toList ∨
    status.code = encode "206".toList
  isText : (fromUtf8 toResponse.header).isSome

/-- The stream ends before the end of the body could be recognised. -/
structure CutShort (r : Response) (stream : Bytes) : Prop where
  isPrefix : stream <+: r.bytes
  length_lt : stream.length < r.head.length + r.body.due.length

/-- The payload is fetched from the whole response, and an error is returned
where it is cut short. -/
structure FetchesPayload (r : Response) (request : Text)
    (d : Delivery UInt8) : Prop where
  whole : d.bytes = r.bytes →
    (Session.run (fetchResponseBody request) (Session.opened d)).1 =
      .ok r.body.payload
  cut : CutShort r d.bytes →
    (Session.run (fetchResponseBody request) (Session.opened d)).1.IsErr

/-- The head of the response has arrived, and either all of a chunked body has,
or a body is cut short. -/
structure Misread (r : Response) (stream : Bytes) : Prop where
  head : r.head <+: stream
  body : stream = r.bytes ∧ r.body.IsChunked ∨ CutShort r stream

variable {r : Response} {stream : Bytes}

/-! ## What is taken for the body -/

theorem responseBody_eq_drop {buf body : Bytes} {split : ℕ}
    (hsplit : position separator buf = some split)
    (hbody : responseBody buf = .ok body) : body = buf.drop (split + 4) := by
  unfold responseBody at hbody
  rw [hsplit] at hbody
  dsimp only at hbody
  split at hbody
  · cases hbody
  · split at hbody
    · cases hbody
    · split at hbody
      · cases hbody
      · exact (Except.ok.inj hbody).symm

/-- Whatever follows the head is the body. -/
theorem responseBody_head_append (r : Served) (rest : Bytes) :
    responseBody (r.head ++ rest) = .ok rest := by
  have hsplit : position separator (r.head ++ rest) = some r.header.length :=
    r.position_blankLine rest
  obtain ⟨header, hheader⟩ := Option.isSome_iff_exists.mp r.isText
  have htake : (r.head ++ rest).take r.header.length = r.header := by
    rw [Response.head, List.append_assoc, List.take_left]
  have hstart : r.status.bytes ++ crlf <+: r.head ++ rest := by
    rw [Response.head_eq, ← List.append_assoc, List.append_assoc]
    exact List.prefix_append _ _
  have hcode : ∃ code ∈ ["200".toList, "206".toList],
      lossy r.status.code = code ∨
        Str.contains (' ' :: lossy r.status.reason)
          (' ' :: (code ++ [' '])) = true := by
    rcases r.isStatus with h | h
    · exact ⟨"200".toList, by simp, Or.inl (by rw [h, lossy_encode])⟩
    · exact ⟨"206".toList, by simp, Or.inl (by rw [h, lossy_encode])⟩
  obtain ⟨body, hbody⟩ :=
    (Http.responseBody_accepts_iff hstart hsplit (htake ▸ hheader)).mpr hcode
  have hdrop := responseBody_eq_drop hsplit hbody
  rw [Response.head, List.append_assoc, ← List.drop_drop, List.drop_left]
    at hdrop
  rw [hbody, hdrop]
  rfl

/-- A response cut inside its head is refused. -/
theorem isErr_responseBody_of_lt (hcut : stream <+: r.bytes)
    (hlt : stream.length < r.head.length) : (responseBody stream).IsErr := by
  apply isErr_responseBody
  cases h : position separator stream with
  | none => rfl
  | some n =>
      obtain ⟨rest, hrest⟩ := hcut
      have hfirst := position_append_right h rest
      have hhead : position separator r.bytes = some r.header.length :=
        r.position_blankLine r.body.bytes
      rw [hrest, hhead, Option.some.injEq] at hfirst
      have hle := length_of_position h
      have hlength : r.head.length = r.header.length + separator.length := by
        rw [Response.head, List.length_append]
        rfl
      omega

/-! ## Which responses are read as they were meant -/

theorem head_prefix_of_le (hcut : stream <+: r.bytes)
    (hle : r.head.length ≤ stream.length) : r.head <+: stream :=
  List.prefix_of_prefix_length_le (List.prefix_append _ _) hcut hle

/-- What stands behind the head is returned as it came. -/
theorem Misread.not_fetchesPayload {r : Served} {d : Delivery UInt8}
    (h : Misread r.toResponse d.bytes) (request : Text) :
    ¬FetchesPayload r.toResponse request d := by
  rintro ⟨hwhole, hcut⟩
  obtain ⟨⟨rest, hrest⟩, hbody⟩ := h
  rw [run_fetchResponseBody, ← hrest, responseBody_head_append] at hwhole hcut
  rcases hbody with ⟨hall, hchunked⟩ | hshort
  · have hpayload := Except.ok.inj (hwhole (hrest.trans hall))
    have hbytes : rest = r.body.bytes := by
      have heq : r.head ++ rest = r.head ++ r.body.bytes := hrest.trans hall
      exact List.append_cancel_left heq
    rw [hbytes] at hpayload
    exact r.body.bytes_eq_payload_iff.mp hpayload hchunked
  · exact hcut (hrest ▸ hshort)

/-- Payloads are fetched, and cut responses are refused, unless the head has
arrived in front of a chunked body or of one that is cut short. -/
theorem fetchesPayload_iff (r : Served) (request : Text)
    (d : Delivery UInt8) :
    FetchesPayload r.toResponse request d ↔
      ¬Misread r.toResponse d.bytes := by
  constructor
  · intro hfetches hmisread
    exact hmisread.not_fetchesPayload request hfetches
  · intro hnot
    constructor
    · intro hall
      have hbody : ¬r.body.IsChunked := by
        intro hchunked
        refine hnot ⟨?_, Or.inl ⟨hall, hchunked⟩⟩
        rw [hall]
        exact List.prefix_append _ _
      rw [run_fetchResponseBody, hall]
      change responseBody (r.head ++ r.body.bytes) = _
      rw [responseBody_head_append, r.body.bytes_eq_payload_iff.mpr hbody]
    · intro hshort
      have hlt : d.bytes.length < r.head.length := by
        by_contra hle
        exact hnot ⟨head_prefix_of_le hshort.isPrefix (by omega),
          Or.inr hshort⟩
      rw [run_fetchResponseBody]
      exact isErr_responseBody_of_lt hshort.isPrefix hlt

/-- `HTTP/1.1 200 OK` -/
def okLine : StatusLine where
  minor := 0x31
  code := encode "200".toList
  reason := encode "OK".toList
  isMinor := Http.isDigit_one
  isCode := by decide
  isReason := by decide

/-- `Transfer-Encoding: chunked` -/
def chunkedField : Field where
  name := encode "Transfer-Encoding".toList
  value := encode "chunked".toList
  isName := by decide
  isValue := by decide

/-- A playlist of one line, in one chunk of seven bytes. -/
def chunkedPlaylist : Served where
  status := okLine
  fields := [chunkedField]
  lines := [encode "Transfer-Encoding: chunked".toList]
  body := .chunked
    { chunks :=
        [{ size := encode "7".toList
           ext := []
           data := encode "#EXTM3U".toList
           isSize := by decide
           isExt := by simp [IsExtension]
           nonempty := by decide }]
      zeros := encode "0".toList
      ext := []
      trailers := []
      lines := []
      isZero := by decide
      isExt := by simp [IsExtension]
      written := .nil }
  written := .cons ⟨[0x20], [], by decide, by decide, by decide⟩ .nil
  isFramed := by decide +kernel
  isVersion := rfl
  isStatus := Or.inl rfl
  isText := by decide +kernel

/-- The size of the chunk is fetched as the first line. -/
theorem not_fetchesPayload_chunked :
    ¬FetchesPayload chunkedPlaylist.toResponse
      "GET /live.m3u8 HTTP/1.1\r\n\r\n".toList
      (.whole chunkedPlaylist.bytes) := by
  have hbytes := Delivery.bytes_whole chunkedPlaylist.bytes
  have hchunked : chunkedPlaylist.body.IsChunked := trivial
  have hmisread : Misread chunkedPlaylist.toResponse
      (Delivery.whole chunkedPlaylist.bytes).bytes := by
    rw [hbytes]
    exact ⟨List.prefix_append _ _, Or.inl ⟨rfl, hchunked⟩⟩
  exact hmisread.not_fetchesPayload _

end Hls

end KnockKnock
