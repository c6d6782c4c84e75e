import KnockKnock.Rtsp.Response
import KnockKnock.Support.Portions
import KnockKnock.Testserver

/-!
# The RTSP test server

A connection of `start_rtsp_ok` collects up to 1024 bytes until it has seen the
end of the headers, and answers a request that begins with `OPTIONS `.  Whether
it answers does not depend on how the request is cut; with the pinger at the
other end, the two confer.
-/

namespace KnockKnock

open ByteStream Numeral Program Spans

namespace Testserver

/-- How a connection of `start_rtsp_ok` ends, and what it has read. -/
inductive RtspEnding where
  | unread
  | notOptions (request : Bytes)
  | served (request : Bytes) (sent : Outcome Unit)

/-- `b"OPTIONS "` -/
def optionsPrefix : Bytes := Utf8.encode "OPTIONS ".toList

def optionsResponse : Bytes :=
  Utf8.encode ("RTSP/1.0 200 OK\r\n".toList ++ "CSeq: 1\r\n".toList ++
    "Public: OPTIONS, DESCRIBE, SETUP, PLAY, TEARDOWN\r\n".toList ++
    "\r\n".toList)

/-- The loop of a connection, with what is in front of `total`. -/
def readRtspRequest (buf : Bytes) : Program UInt8 Fault (Option Bytes) :=
  .read (bufSize - buf.length) fun
    | .error _ => .done none
    | .ok chunk =>
        if chunk = [] then .done none
        else if Rtsp.headerTerminator <:+: buf ++ chunk then
          .done (some (buf ++ chunk))
        else if bufSize ≤ (buf ++ chunk).length then .done none
        else readRtspRequest (buf ++ chunk)
termination_by bufSize - buf.length
decreasing_by
  have hpos : 0 < chunk.length := List.length_pos_of_ne_nil ‹_›
  rw [List.length_append] at *
  omega

/-- A connection of `start_rtsp_ok`.  What follows the request in the buffer is
zero. -/
def startRtspOk : Program UInt8 Fault RtspEnding := do
  match ← readRtspRequest [] with
  | none => .done .unread
  | some buf =>
      if ¬optionsPrefix <+:
          buf ++ List.replicate (bufSize - buf.length) 0 then
        .done (.notOptions buf)
      else
        let sent ← (Exchange.writeAll optionsResponse).run
        .done (.served buf sent)

end Testserver

namespace Rtsp

open Testserver

variable {buf rest word : Bytes}

/-! ## The server and the network -/

/-- The loop stops at the first portion that completes the headers, or without
them when the buffer is full or the stream ends. -/
theorem deliver_readRtspRequest (d : Delivery UInt8) (written : Bytes)
    (hlength : buf.length < bufSize)
    (hopen : ¬headerTerminator <:+: buf) :
    ∃ r d', Exchange.deliver (readRtspRequest buf) ⟨d, written⟩ =
        (r, ⟨d', written⟩) ∧
      (∀ s, r = some s → s <+: buf ++ d.bytes ∧ s.length ≤ bufSize ∧
        headerTerminator <:+: s) ∧
      (r = none →
        ¬headerTerminator <:+: (buf ++ d.bytes).take bufSize) := by
  induction hk : d.bytes.length using Nat.strongRecOn generalizing buf d with
  | _ k ih =>
    have happend := d.read_append (bufSize - buf.length)
    have hle := d.length_read_le (bufSize - buf.length)
    rw [readRtspRequest, Exchange.deliver]
    dsimp only
    by_cases hnil : (d.read (bufSize - buf.length)).1 = []
    · have hbytes : d.bytes = [] := by
        by_contra hd
        exact Delivery.read_ne_nil (by omega) hd hnil
      rw [if_pos hnil]
      refine ⟨none, _, rfl, (fun s hs => by cases hs), fun _ hinside => hopen ?_⟩
      rw [hbytes, List.append_nil] at hinside
      exact hinside.trans (List.take_prefix _ _).isInfix
    rw [if_neg hnil]
    by_cases hclosed :
        headerTerminator <:+: buf ++ (d.read (bufSize - buf.length)).1
    · rw [if_pos hclosed]
      refine ⟨_, _, rfl, fun s hs => ?_, fun hs => by cases hs⟩
      obtain rfl := Option.some.inj hs
      refine ⟨?_, ?_, hclosed⟩
      · rw [← happend, ← List.append_assoc]
        exact List.prefix_append _ _
      · rw [List.length_append]
        omega
    rw [if_neg hclosed]
    by_cases hfull : bufSize ≤
        (buf ++ (d.read (bufSize - buf.length)).1).length
    · rw [if_pos hfull]
      refine ⟨none, _, rfl, (fun s hs => by cases hs), fun _ hinside =>
        hclosed ?_⟩
      have hexact : (buf ++ (d.read (bufSize - buf.length)).1).length =
          bufSize := by
        rw [List.length_append] at hfull ⊢
        omega
      rw [← happend, ← List.append_assoc, List.take_left' hexact] at hinside
      exact hinside
    rw [if_neg hfull]
    have hpos := List.length_pos_of_ne_nil hnil
    have hshorter := congrArg List.length happend
    rw [List.length_append] at hshorter
    obtain ⟨r, d', hrun, hsome, hnone⟩ := ih
      (d.read (bufSize - buf.length)).2.bytes.length (by omega)
      (d.read (bufSize - buf.length)).2 (Nat.lt_of_not_le hfull) hclosed rfl
    rw [List.append_assoc, happend] at hsome hnone
    exact ⟨r, d', hrun, hsome, hnone⟩

/-- The zeros behind a request do not make it one for `OPTIONS`. -/
theorem optionsPrefix_padded_iff (n : ℕ) :
    optionsPrefix <+: buf ++ List.replicate n 0 ↔ optionsPrefix <+: buf := by
  refine ⟨fun h => ?_, fun h => h.trans (List.prefix_append _ _)⟩
  obtain hlong | ⟨zeros, hzeros⟩ :=
    List.prefix_or_prefix_of_prefix h (List.prefix_append buf _)
  · exact hlong
  rw [← hzeros, List.prefix_append_right_inj] at h
  have hnone : zeros = [] := by
    refine List.eq_nil_iff_forall_not_mem.mpr fun b hb => ?_
    obtain rfl := List.eq_of_mem_replicate (h.subset hb)
    have hmem : (0 : UInt8) ∈ optionsPrefix := by
      rw [← hzeros]
      exact List.mem_append_right _ hb
    exact absurd hmem (by decide)
  rw [← hzeros, hnone, List.append_nil]

/-- What a connection writes when `d` arrives. -/
def served (d : Delivery UInt8) : Bytes :=
  (Exchange.deliver startRtspOk (Session.opened d)).2.written

/-- The server answers a request exactly if it begins with `OPTIONS ` and its
headers end within 1024 bytes, however it is cut. -/
theorem served_eq (d : Delivery UInt8) :
    served d =
      if optionsPrefix <+: d.bytes ∧
          headerTerminator <:+: d.bytes.take bufSize then
        optionsResponse
      else [] := by
  have hroom : ([] : Bytes).length < bufSize := by decide
  have hempty : ¬headerTerminator <:+: [] := by decide
  obtain ⟨r, d', hrun, hsome, hnone⟩ := deliver_readRtspRequest d [] hroom
    hempty
  rw [List.nil_append] at hsome hnone
  rw [served, startRtspOk, Exchange.deliver_bind, Session.opened, hrun]
  cases r with
  | none =>
      rw [if_neg fun h => hnone rfl h.2]
      rfl
  | some s =>
      obtain ⟨hfront, hle, hclosed⟩ := hsome s rfl
      have hinside : headerTerminator <:+: d.bytes.take bufSize :=
        hclosed.trans (List.prefix_take_iff.mpr ⟨hfront, hle⟩).isInfix
      have hoptions : optionsPrefix <+:
          s ++ List.replicate (bufSize - s.length) 0 ↔
            optionsPrefix <+: d.bytes := by
        rw [optionsPrefix_padded_iff]
        refine ⟨fun h => h.trans hfront, fun h => ?_⟩
        obtain hshort | hlong := List.prefix_or_prefix_of_prefix hfront h
        · exact absurd (hclosed.trans hshort.isInfix) (by decide)
        · exact hlong
      dsimp only
      by_cases h : optionsPrefix <+: d.bytes
      · rw [if_neg (not_not_intro (hoptions.mpr h)), if_pos ⟨h, hinside⟩]
        rfl
      · rw [if_pos fun hpadded => h (hoptions.mp hpadded),
          if_neg fun hboth => h hboth.1]
        rfl

/-! ## The pinger and the server -/

variable {domain : Text} {port : UInt16}

/-- The end of the headers is the end of the word, and nowhere before. -/
def EndsOnce (word : Bytes) : Prop :=
  headerTerminator <:+ word ∧ ¬headerTerminator <:+: word.dropLast

theorem EndsOnce.infix_iff (h : EndsOnce word) (hword : word = buf ++ rest) :
    headerTerminator <:+: buf ↔ rest = [] := by
  constructor
  · intro hbuf
    by_contra hne
    have hfront : buf <+: word.dropLast := by
      rw [hword, List.dropLast_append_of_ne_nil hne]
      exact List.prefix_append _ _
    exact h.2 (hbuf.trans hfront.isInfix)
  · rintro rfl
    rw [List.append_nil] at hword
    rw [← hword]
    exact h.1.isInfix

/-- The server collects a request that ends once and fits. -/
theorem gathers_request {final : Program UInt8 Fault RtspEnding}
    (hword : EndsOnce word) (hlength : word.length ≤ bufSize)
    {f : Option Bytes → Program UInt8 Fault RtspEnding}
    (hfinal : f (some word) = final) :
    Gathers (fun buf => readRtspRequest buf >>= f) word final := by
  intro buf rest hrest hne
  have hpos := List.length_pos_of_ne_nil hne
  have hsize := congrArg List.length hrest
  rw [List.length_append] at hsize
  obtain ⟨n, hn⟩ : ∃ n, bufSize - buf.length = n + 1 :=
    ⟨bufSize - buf.length - 1, by omega⟩
  dsimp only
  rw [readRtspRequest, hn]
  refine ⟨n, _, rfl, fun chunk rest' hchunk hnonempty => ?_⟩
  have hword' : word = (buf ++ chunk) ++ rest' := by
    rw [hrest, hchunk, List.append_assoc]
  have hclosed := hword.infix_iff hword'
  dsimp only
  rw [if_neg hnonempty]
  by_cases hend : rest' = []
  · have hall : buf ++ chunk = word := by rw [hword', hend, List.append_nil]
    rw [if_pos (hclosed.mpr hend), if_pos hend, hall]
    exact hfinal
  · have hopen : ¬bufSize ≤ (buf ++ chunk).length := by
      have hmore := List.length_pos_of_ne_nil hend
      have htotal := congrArg List.length hword'
      rw [List.length_append] at htotal
      omega
    rw [if_neg fun h => hend (hclosed.mp h), if_neg hopen, if_neg hend]
    rfl

/-- So does the pinger with a response. -/
theorem gathers_response {final : Program UInt8 Fault (Outcome Unit)}
    (hword : EndsOnce word) (hlength : word.length ≤ maxResponseBytes)
    {f : Bytes → Exchange Unit} (hfinal : (f word).run = final) :
    Gathers (fun buf => (readResponse buf >>= f).run) word final := by
  intro buf rest hrest hne
  dsimp only
  rw [readResponse]
  refine ⟨255, _, rfl, fun chunk rest' hchunk hnonempty => ?_⟩
  have hword' : word = (buf ++ chunk) ++ rest' := by
    rw [hrest, hchunk, List.append_assoc]
  have hclosed : (findHeaderTerminator (buf ++ chunk)).isSome ↔ rest' = [] := by
    rw [findHeaderTerminator_eq, isSome_position_iff (by decide),
      hword.infix_iff hword']
  have hsize := congrArg List.length hword'
  rw [List.length_append] at hsize
  by_cases hend : rest' = []
  · have hall : buf ++ chunk = word := by rw [hword', hend, List.append_nil]
    rw [if_pos hend, ← hfinal, ← hall]
    change ExceptT.run ((if chunk = [] then _ else _) >>= f) = _
    rw [if_neg hnonempty, if_pos (.inl (hclosed.mpr hend))]
    rfl
  · have hmore := List.length_pos_of_ne_nil hend
    rw [if_neg hend]
    change ExceptT.run ((if chunk = [] then _ else _) >>= f) = _
    rw [if_neg hnonempty, if_neg]
    rintro (h | h)
    · exact hend (hclosed.mp h)
    · omega

/-- There is no end of headers in a port. -/
theorem not_infix_port (port : UInt16) :
    ¬headerTerminator <:+: Utf8.encode (decimal port.toNat) := by
  have hcr : ∀ b ∈ Utf8.encode (decimal port.toNat),
      decide (b.toNat = 13) = false := by
    rw [Utf8.forall_encode_iff (q := fun n => decide (n = 13)) (v := false)]
    · intro c hc
      have hdigit := isDigit_of_mem_decimal hc
      rw [Char.isDigit_iff_toNat] at hdigit
      change 48 ≤ c.toNat ∧ c.toNat ≤ 57 at hdigit
      exact decide_eq_false (by omega)
    · intro n hn
      exact (decide_eq_false (by omega)).trans (by decide)
  intro h
  have hmem : (13 : UInt8) ∈ headerTerminator := by decide
  exact absurd (hcr 13 (h.subset hmem)) (by decide)

/-- What comes behind the port. -/
def requestTail : Bytes :=
  Utf8.encode (" RTSP/1.0\r\n".toList ++ "CSeq: 1\r\n".toList ++
    "User-Agent: ".toList ++ "zpinger/0.7.0".toList ++ "\r\n".toList ++
    "\r\n".toList)

theorem buildOptionsRequest_eq :
    buildOptionsRequest domain port =
      Utf8.encode "OPTIONS rtsp:/".toList ++ 47 :: (Utf8.encode domain ++
        58 :: (Utf8.encode (decimal port.toNat) ++ 47 :: requestTail)) := by
  rw [buildOptionsRequest, requestTail]
  simp only [Utf8.encode_append, List.append_assoc]
  rfl

/-- The request of a domain without the end of headers. -/
theorem endsOnce_request (h : ¬headerTerminator <:+: Utf8.encode domain) :
    EndsOnce (buildOptionsRequest domain port) := by
  have hne : headerTerminator ≠ [] := by decide
  have hslash : (47 : UInt8) ∉ headerTerminator := by decide
  have hcolon : (58 : UInt8) ∉ headerTerminator := by decide
  have htail : headerTerminator <:+ requestTail := by decide +kernel
  rw [buildOptionsRequest_eq]
  constructor
  · exact htail.trans ⟨Utf8.encode "OPTIONS rtsp:/".toList ++ 47 ::
      (Utf8.encode domain ++ 58 :: (Utf8.encode (decimal port.toNat) ++ [47])),
      by simp⟩
  · rw [List.dropLast_append_of_ne_nil (List.cons_ne_nil _ _),
      List.dropLast_cons_of_ne_nil (by simp),
      List.dropLast_append_of_ne_nil (List.cons_ne_nil _ _),
      List.dropLast_cons_of_ne_nil (by simp),
      List.dropLast_append_of_ne_nil (List.cons_ne_nil _ _),
      List.dropLast_cons_of_ne_nil (by decide),
      infix_append_cons_iff hne hslash, infix_append_cons_iff hne hcolon,
      infix_append_cons_iff hne hslash]
    rintro (hfront | hdomain | hport | hback)
    · exact absurd hfront (by decide +kernel)
    · exact h hdomain
    · exact not_infix_port port hport
    · exact absurd hback (by decide +kernel)

theorem endsOnce_response : EndsOnce optionsResponse := by
  constructor
  · decide +kernel
  · decide +kernel

theorem waits_validateResponse (debug : Text → Text) :
    Waits (validateResponse debug).run := by
  rw [validateResponse, readResponse]
  exact .read 255 _

theorem statusLinePrefix_isPrefix : statusLinePrefix <+: optionsResponse := by
  decide +kernel

/-- The pinger and the server of one connection. -/
theorem confer_options (debug : Text → Text)
    (hdomain : ¬headerTerminator <:+: Utf8.encode domain)
    (hlength : (buildOptionsRequest domain port).length ≤ bufSize) :
    Confer halt halt (exchange debug domain port).run startRtspOk (.ok ())
      (.served (buildOptionsRequest domain port) (.ok ()))
      (buildOptionsRequest domain port ++ []) (optionsResponse ++ []) := by
  have hrequest : EndsOnce (buildOptionsRequest domain port) :=
    endsOnce_request hdomain
  have hne : buildOptionsRequest domain port ≠ [] := by
    intro h
    exact absurd (h ▸ hrequest.1) (by decide)
  have hoptions : optionsPrefix <+: buildOptionsRequest domain port := by
    rw [buildOptionsRequest_eq]
    exact List.IsPrefix.trans (by decide +kernel) (List.prefix_append _ _)
  have hanswer : Confer halt halt
      (Program.writeAll optionsResponse fun sent =>
        .done (RtspEnding.served (buildOptionsRequest domain port) sent))
      (validateResponse debug).run
      (.served (buildOptionsRequest domain port) (.ok ())) (.ok ())
      (optionsResponse ++ []) [] := by
    have hjudged : (if ¬statusLinePrefix <+: optionsResponse then
        Exchange.lift (Outcome.fail .other
          ("RTSP response did not start with `RTSP/1.0 200`: ".toList ++
            debug (Utf8.lossy
              (optionsResponse.take (min optionsResponse.length 64)))))
        else pure ()).run = .done (.ok ()) := by
      rw [if_neg (not_not_intro statusLinePrefix_isPrefix)]
      rfl
    exact Confer.gather
      (gathers_response endsOnce_response (by decide +kernel) hjudged)
      (by decide +kernel) (.ended rfl) (.finished rfl rfl)
  refine Confer.gather (gathers_request hrequest hlength ?_) hne
    (.waits (waits_validateResponse debug)) hanswer.swap
  dsimp only
  rw [if_neg (not_not_intro ((optionsPrefix_padded_iff _).mpr hoptions))]
  rfl

end Rtsp

end KnockKnock
