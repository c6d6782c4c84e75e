import KnockKnock.Hls.Fetch
import KnockKnock.Http.Requests
import KnockKnock.Testserver

/-!
# The HLS test server

A connection of `start_hls_ok` reads once, takes the second word of the first
line for the path, and answers with one of three resources or `404`.  The first
18 bytes of a request of the pinger are enough for that, wherever it is cut.
-/

namespace KnockKnock

open ByteStream Numeral Program Spans

namespace Testserver

/-- The media playlist of one segment. -/
def hlsPlaylist : Text :=
  "#EXTM3U\n".toList ++ "#EXT-X-VERSION:3\n".toList ++
    "#EXT-X-TARGETDURATION:10\n".toList ++ "#EXT-X-MEDIA-SEQUENCE:0\n".toList ++
    "#EXTINF:10.0,\n".toList ++ "segment0.ts\n".toList ++
    "#EXT-X-ENDLIST\n".toList

/-- The master playlist of one variant. -/
def hlsMaster : Text :=
  "#EXTM3U\n".toList ++ "#EXT-X-VERSION:3\n".toList ++
    "#EXT-X-STREAM-INF:BANDWIDTH=800000,RESOLUTION=640x360\n".toList ++
    "playlist.m3u8\n".toList

def hlsSegment : Text := "FAKE_TS_SEGMENT_PAYLOAD".toList

/-- The body for a path, as text; no path has more than one. -/
def hlsBody (path : Text) : Option Text :=
  if "/playlist.m3u8".toList <+: path then some hlsPlaylist
  else if "/master.m3u8".toList <+: path then some hlsMaster
  else if "/segment0.ts".toList <+: path then some hlsSegment
  else none

def hlsNotFound : Bytes :=
  Utf8.encode "HTTP/1.1 404 Not Found\r\nContent-Length: 0\r\nConnection: close\r\n\r\n".toList

def hlsContentType (path : Text) : Text :=
  if Str.contains path ".m3u8".toList then "application/vnd.apple.mpegurl".toList
  else "video/mp2t".toList

/-- The path of a request: the second word of its first line. -/
def hlsPath (req : Text) : Text :=
  let requestLine := (Str.lines req).head?.getD []
  (Str.splitWhitespace requestLine)[1]?.getD []

/-- The first line with a range. -/
def hlsRange (req : Text) : Option Text :=
  (Str.lines req).find? fun l =>
    decide ("range:".toList <+: Str.toAsciiLowercase l)

/-- What stands in front of the one byte sent for a range. -/
def hlsPartialHeader (contentType : Text) (total : ℕ) : Text :=
  "HTTP/1.1 206 Partial Content\r\n".toList ++
    "Content-Type: ".toList ++ contentType ++ "\r\n".toList ++
    "Content-Range: bytes 0-0/".toList ++ decimal total ++ "\r\n".toList ++
    "Content-Length: 1\r\n".toList ++ "Connection: close\r\n\r\n".toList

def hlsHeader (contentType : Text) (total : ℕ) : Text :=
  "HTTP/1.1 200 OK\r\n".toList ++
    "Content-Type: ".toList ++ contentType ++ "\r\n".toList ++
    "Content-Length: ".toList ++ decimal total ++ "\r\n".toList ++
    "Connection: close\r\n\r\n".toList

/-- `handle_hls` from the request on. -/
def answerHls (req : Text) : Program UInt8 Fault Unit :=
  let path := hlsPath req
  match hlsBody path with
  | none => do
      let _ ← (Exchange.writeAll hlsNotFound).run
      .done ()
  | some text =>
      let body := Utf8.encode text
      let contentType := hlsContentType path
      match hlsRange req with
      | some _ => do
          let _ ← (Exchange.writeAll
            (Utf8.encode (hlsPartialHeader contentType body.length))).run
          let _ ← (Exchange.writeAll (body.take 1)).run
          .done ()
      | none => do
          let _ ← (Exchange.writeAll
            (Utf8.encode (hlsHeader contentType body.length))).run
          let _ ← (Exchange.writeAll body).run
          .done ()

/-- `handle_hls` -/
def handleHls : Program UInt8 Fault Unit := do
  match ← (Exchange.read bufSize).run with
  | .error _ => .done ()
  | .ok received => answerHls (Utf8.lossy received)

/-- What a connection writes when `d` arrives. -/
def servedHls (d : Delivery UInt8) : Bytes :=
  (Exchange.deliver handleHls (Session.opened d)).2.written

/-- An answer with a body, or with the first byte of one. -/
def hlsAnswer (contentType text : Text) (ranged : Bool) : Bytes :=
  let body := Utf8.encode text
  if ranged then
    Utf8.encode (hlsPartialHeader contentType body.length) ++ body.take 1
  else Utf8.encode (hlsHeader contentType body.length) ++ body

/-- It depends on the first read alone. -/
theorem servedHls_eq (d : Delivery UInt8) :
    servedHls d =
      let req := Utf8.lossy (d.read bufSize).1
      match hlsBody (hlsPath req) with
      | none => hlsNotFound
      | some text =>
          hlsAnswer (hlsContentType (hlsPath req)) text (hlsRange req).isSome := by
  have hread : servedHls d = (Exchange.deliver
      (answerHls (Utf8.lossy (d.read bufSize).1))
      { Session.opened d with incoming := (d.read bufSize).2 }).2.written := rfl
  rw [hread, answerHls]
  dsimp only
  cases hlsBody (hlsPath (Utf8.lossy (d.read bufSize).1)) with
  | none => rfl
  | some text =>
      cases hlsRange (Utf8.lossy (d.read bufSize).1) with
      | none => rfl
      | some line => rfl

/-! ## The answers as the pinger reads them -/

theorem hlsBody_cases {path text : Text} (h : hlsBody path = some text) :
    text = hlsPlaylist ∨ text = hlsMaster ∨ text = hlsSegment := by
  unfold hlsBody at h
  split at h
  · exact .inl (Option.some.inj h).symm
  split at h
  · exact .inr (.inl (Option.some.inj h).symm)
  split at h
  · exact .inr (.inr (Option.some.inj h).symm)
  · cases h

theorem hlsContentType_cases (path : Text) :
    hlsContentType path = "application/vnd.apple.mpegurl".toList ∨
      hlsContentType path = "video/mp2t".toList := by
  unfold hlsContentType
  split
  · exact .inl rfl
  · exact .inr rfl

theorem responseBody_hlsNotFound :
    Hls.responseBody hlsNotFound = Outcome.fail .other
      "unexpected HTTP status: HTTP/1.1 404 Not Found".toList := by
  decide +kernel

/-- The body of an answer is what the server means to send. -/
theorem responseBody_hlsAnswer {path text : Text} (h : hlsBody path = some text)
    (path' : Text) (ranged : Bool) :
    Hls.responseBody (hlsAnswer (hlsContentType path') text ranged) =
      .ok (if ranged then (Utf8.encode text).take 1 else Utf8.encode text) := by
  rcases hlsContentType_cases path' with htype | htype
  all_goals
    rw [htype]
    cases ranged
    all_goals
      rcases hlsBody_cases h with rfl | rfl | rfl
      all_goals decide +kernel

/-! ## What is seen of a request -/

/-- The path is the second word, if the rest stands behind a blank. -/
theorem hlsPath_append {path rest : Text} (hne : path ≠ [])
    (hpath : ∀ c ∈ path, Str.isWhitespace c = false)
    (hrest : rest = [] ∨ ∃ t, rest = ' ' :: t) :
    hlsPath ("GET ".toList ++ path ++ rest) = path := by
  have hlf : '\n' ∉ "GET ".toList ++ path := by
    rw [List.mem_append, not_or]
    refine ⟨by decide, fun hmem => ?_⟩
    exact absurd (hpath '\n' hmem) (by decide)
  obtain ⟨tail, hhead, htail⟩ :=
    Str.exists_head_lines (List.append_ne_nil_of_right_ne_nil _ hne) hlf hrest
  have hmethod : Str.splitWhitespace ("GET".toList ++ (' ' :: (path ++ tail))) =
      "GET".toList :: Str.splitWhitespace (' ' :: (path ++ tail)) :=
    Str.splitWhitespace_word (by decide) (by decide) (.inr ⟨_, rfl⟩)
  have hskip : Str.splitWhitespace (' ' :: (path ++ tail)) =
      Str.splitWhitespace (path ++ tail) := Str.splitWhitespace_blank _
  unfold hlsPath
  rw [hhead]
  change (Str.splitWhitespace ("GET".toList ++ (' ' :: (path ++ tail))))[1]?.getD [] = _
  rw [hmethod, hskip, Str.splitWhitespace_word hne hpath htail]
  rfl

/-- There is no range if no line begins with its letter. -/
theorem hlsRange_eq_none {req : Text}
    (h : ∀ c, req.head? = some c ∨ ['\n', c] <:+: req → c.toLower ≠ 'r') :
    hlsRange req = none := by
  refine List.find?_eq_none.mpr fun line hline hrange => ?_
  have hprefix := of_decide_eq_true hrange
  cases line with
  | nil => exact absurd hprefix (by decide)
  | cons c line =>
      refine h c (Str.begins_of_mem_lines hline) ?_
      exact (List.cons_prefix_cons.mp hprefix).1.symm

/-! ## The requests of the pinger -/

/-- `c.is_ascii_graphic()` -/
def isGraphic (c : Char) : Bool := 0x21 ≤ c.toNat && c.toNat ≤ 0x7E

/-- A URI that is written in graphic letters. -/
structure Graphic (uri : URI) : Prop where
  path : ∀ c ∈ uri.path, isGraphic c = true
  domain : ∀ c ∈ uri.domain, isGraphic c = true

theorem ascii_of_isGraphic {c : Char} (h : isGraphic c = true) : c.toNat < 0x80 := by
  simp only [isGraphic, Bool.and_eq_true, decide_eq_true_eq] at h
  omega

theorem not_isWhitespace_of_isGraphic {c : Char} (h : isGraphic c = true) :
    Str.isWhitespace c = false := by
  simp only [isGraphic, Bool.and_eq_true, decide_eq_true_eq] at h
  simp only [Str.isWhitespace, Bool.or_eq_false_iff, Bool.and_eq_false_iff,
    decide_eq_false_iff_not, beq_eq_false_iff_ne]
  omega

theorem isGraphic_of_isDigit {c : Char} (h : c.isDigit = true) :
    isGraphic c = true := by
  have hdigit : 48 ≤ c.toNat ∧ c.toNat ≤ 57 := Char.isDigit_iff_toNat.mp h
  simp only [isGraphic, Bool.and_eq_true, decide_eq_true_eq]
  omega

variable {uri : URI} {port : UInt16}

theorem writtenPath_ne_nil (uri : URI) : writtenPath uri ≠ [] := by
  unfold writtenPath
  split
  · decide
  next hne => exact hne

theorem Graphic.writtenPath (h : Graphic uri) :
    ∀ c ∈ KnockKnock.writtenPath uri, isGraphic c = true := by
  unfold KnockKnock.writtenPath
  split
  · decide
  · exact h.path

theorem Graphic.hostPort (h : Graphic uri) (port : UInt16) :
    ∀ c ∈ hostPort uri.domain port, isGraphic c = true := by
  intro c hc
  rcases List.mem_append.mp hc with hc | hc
  · exact h.domain c hc
  rcases List.mem_cons.mp hc with rfl | hc
  · decide
  · exact isGraphic_of_isDigit (isDigit_of_mem_decimal hc)

theorem buildGet_eq (host : Text) (range : Option Text) :
    Hls.buildGet uri host range =
      "GET ".toList ++ writtenPath uri ++ ' ' :: ("HTTP/1.1".toList ++
        ("\r\n".toList ++
          (((Builder.buildGet range).fields host).flatMap fieldText ++
            "\r\n".toList))) := by
  have hbuild := build_eq (.buildGet range) uri host
  rw [Builder.trailer, List.append_nil] at hbuild
  rw [getText, List.append_assoc, List.append_assoc]
  exact hbuild

theorem ascii_buildGet (h : Graphic uri) (port : UInt16) {range : Option Text}
    (hrange : ∀ r ∈ range, ∀ c ∈ r, c.toNat < 0x80) :
    ∀ c ∈ Hls.buildGet uri (hostPort uri.domain port) range, c.toNat < 0x80 := by
  have hpath : ∀ c ∈ writtenPath uri, c.toNat < 0x80 := fun c hc =>
    ascii_of_isGraphic (h.writtenPath c hc)
  have hhost : ∀ c ∈ hostPort uri.domain port, c.toNat < 0x80 := fun c hc =>
    ascii_of_isGraphic (h.hostPort port c hc)
  have hfields : ∀ field ∈ (Builder.buildGet range).fields
      (hostPort uri.domain port), ∀ c ∈ fieldText field, c.toNat < 0x80 := by
    intro field hfield
    unfold fieldText
    simp only [List.forall_mem_append]
    rcases List.mem_append.mp hfield with hfield | hfield
    · simp only [List.mem_cons, List.not_mem_nil, or_false] at hfield
      rcases hfield with rfl | rfl | rfl | rfl
      · have hname : ∀ c ∈ "Host".toList, c.toNat < 0x80 := by decide
        exact ⟨⟨⟨hname, by decide⟩, hhost⟩, by decide⟩
      all_goals decide
    · obtain ⟨r, hr, rfl⟩ := List.mem_map.mp hfield
      have hname : ∀ c ∈ "Range".toList, c.toNat < 0x80 := by decide
      exact ⟨⟨⟨hname, by decide⟩, hrange r (Option.mem_toList.mp hr)⟩,
        by decide⟩
  rw [buildGet_eq]
  simp only [List.forall_mem_append, List.forall_mem_cons]
  refine ⟨⟨by decide, hpath⟩, by decide, by decide, by decide, ?_, by decide⟩
  intro c hc
  obtain ⟨field, hfield, hmem⟩ := List.mem_flatMap.mp hc
  exact hfields field hfield c hmem

/-- 18 bytes of a request show which resource is meant. -/
theorem hlsBody_take (h : Graphic uri) (host : Text) (range : Option Text)
    {n : ℕ} (hn : 18 ≤ n) :
    hlsBody (hlsPath ((Hls.buildGet uri host range).take n)) =
      hlsBody (writtenPath uri) := by
  obtain ⟨k, rfl⟩ : ∃ k, n = 4 + k := ⟨n - 4, by omega⟩
  have hne := writtenPath_ne_nil uri
  have hseen : ∀ c ∈ (writtenPath uri).take k, Str.isWhitespace c = false :=
    fun c hc => not_isWhitespace_of_isGraphic
      (h.writtenPath c (List.mem_of_mem_take hc))
  have hshown : ∀ w : Text, w.length ≤ 14 →
      (w <+: (writtenPath uri).take k ↔ w <+: writtenPath uri) := fun w hw =>
    List.prefix_take_iff.trans (and_iff_left (by omega))
  have htaken : (Hls.buildGet uri host range).take (4 + k) =
      "GET ".toList ++ (writtenPath uri).take k ++
        (' ' :: ("HTTP/1.1".toList ++ ("\r\n".toList ++
          (((Builder.buildGet range).fields host).flatMap fieldText ++
            "\r\n".toList)))).take (k - (writtenPath uri).length) := by
    rw [buildGet_eq, List.append_assoc, List.append_assoc]
    change List.take ("GET ".toList.length + k) _ = _
    rw [List.take_length_add_append, List.take_append]
  have hrest : ∀ (m : ℕ) (t : Text), (' ' :: t).take m = [] ∨
      ∃ t', (' ' :: t).take m = ' ' :: t' := by
    intro m t
    cases m with
    | zero => exact .inl rfl
    | succ m => exact .inr ⟨_, rfl⟩
  have htakenne : (writtenPath uri).take k ≠ [] := by
    rw [Ne, List.take_eq_nil_iff, not_or]
    exact ⟨by omega, hne⟩
  rw [htaken, hlsPath_append htakenne hseen (hrest _ _)]
  unfold hlsBody
  rw [if_congr (hshown _ (by decide)) rfl rfl,
    if_congr (hshown _ (by decide)) rfl rfl,
    if_congr (hshown _ (by decide)) rfl rfl]

/-- A line of the fields begins like one of their names. -/
theorem begins_of_fields {fields : List (Text × Text)}
    (hlf : ∀ field ∈ fields, field.1 ≠ [] ∧ '\n' ∉ field.1 ∧ '\n' ∉ field.2)
    {c : Char}
    (h : ['\n', c] <:+: '\n' :: (fields.flatMap fieldText ++ "\r\n".toList)) :
    c = '\r' ∨ ∃ field ∈ fields, field.1.head? = some c := by
  induction fields with
  | nil =>
      refine .inl ?_
      rcases List.infix_cons_iff.mp h with hhead | hclosed
      · exact (List.cons_prefix_cons.mp (List.cons_prefix_cons.mp hhead).2).1
      rcases List.infix_cons_iff.mp hclosed with hhead | hlast
      · exact absurd (List.cons_prefix_cons.mp hhead).1 (by decide)
      · exact absurd hlast.length_le (Nat.not_succ_le_self 1)
  | cons field fields ih =>
      obtain ⟨hne, hname, hvalue⟩ := hlf field List.mem_cons_self
      have hrest := ih fun f hf => hlf f (List.mem_cons_of_mem _ hf)
      obtain ⟨b, name, hfield⟩ := List.exists_cons_of_ne_nil hne
      have hfront : '\n' ∉ field.1 ++ ": ".toList ++ field.2 ++ ['\r'] := by
        simp only [List.mem_append, not_or]
        exact ⟨⟨⟨hname, by decide⟩, hvalue⟩, by decide⟩
      have hline : fieldText field ++ (fields.flatMap fieldText ++ "\r\n".toList) =
          (field.1 ++ ": ".toList ++ field.2 ++ ['\r']) ++
            '\n' :: (fields.flatMap fieldText ++ "\r\n".toList) := by
        have hcrlf : "\r\n".toList = ['\r', '\n'] := rfl
        simp only [fieldText, hcrlf, List.append_assoc, List.cons_append,
          List.nil_append]
      rw [List.flatMap_cons, List.append_assoc] at h
      rcases List.infix_cons_iff.mp h with hhead | hinside
      · refine .inr ⟨field, List.mem_cons_self, ?_⟩
        rw [fieldText, hfield] at hhead
        rw [hfield]
        exact congrArg some
          (List.cons_prefix_cons.mp (List.cons_prefix_cons.mp hhead).2).1.symm
      · have hbehind : ['\n', c] <:+:
            '\n' :: (fields.flatMap fieldText ++ "\r\n".toList) := by
          rw [hline] at hinside
          rw [List.infix_cons_iff, List.cons_prefix_cons]
          exact ((cons_infix_append_cons_iff hfront).mp hinside).imp
            (fun hprefix => ⟨rfl, hprefix⟩) id
        obtain hcr | ⟨f, hf, hc⟩ := hrest hbehind
        · exact .inl hcr
        · exact .inr ⟨f, List.mem_cons_of_mem _ hf, hc⟩

/-- Without a range no part of a request shows one. -/
theorem hlsRange_take (h : Graphic uri) (port : UInt16) (n : ℕ) :
    hlsRange ((Hls.buildGet uri (hostPort uri.domain port) none).take n) =
      none := by
  let fields := (Builder.buildGet none).fields (hostPort uri.domain port)
  let first := "GET ".toList ++ writtenPath uri ++ " HTTP/1.1\r".toList
  have hnot : isGraphic '\n' = false := by decide
  have hpath : '\n' ∉ writtenPath uri := fun hmem =>
    Bool.false_ne_true (hnot.symm.trans (h.writtenPath _ hmem))
  have hhost : '\n' ∉ hostPort uri.domain port := fun hmem =>
    Bool.false_ne_true (hnot.symm.trans (h.hostPort port _ hmem))
  have hfirst : '\n' ∉ first := by
    simp only [first, List.mem_append, not_or]
    exact ⟨⟨by decide, hpath⟩, by decide⟩
  have hrequest : Hls.buildGet uri (hostPort uri.domain port) none =
      first ++ '\n' :: (fields.flatMap fieldText ++ "\r\n".toList) := by
    rw [buildGet_eq]
    simp only [first, List.append_assoc]
    rfl
  have hfields : ∀ field ∈ fields, field.1 ≠ [] ∧ '\n' ∉ field.1 ∧
      '\n' ∉ field.2 := by
    intro field hfield
    simp only [fields, Builder.fields, Option.toList_none, List.map_nil,
      List.append_nil, List.mem_cons, List.not_mem_nil, or_false] at hfield
    rcases hfield with rfl | rfl | rfl | rfl
    · have hname : "Host".toList ≠ [] ∧ '\n' ∉ "Host".toList := by decide
      exact ⟨hname.1, hname.2, hhost⟩
    all_goals decide
  refine hlsRange_eq_none fun c hc => ?_
  rw [hrequest] at hc
  rcases hc with hhead | hinside
  · have hletter : c = 'G' := by
      cases n with
      | zero => cases hhead
      | succ n => exact (Option.some.inj hhead).symm
    rw [hletter]
    decide
  · have hwhole := hinside.trans (List.take_prefix _ _).isInfix
    have hbehind : ['\n', c] <:+:
        '\n' :: (fields.flatMap fieldText ++ "\r\n".toList) := by
      rw [List.infix_cons_iff, List.cons_prefix_cons]
      exact ((cons_infix_append_cons_iff hfirst).mp hwhole).imp
        (fun hprefix => ⟨rfl, hprefix⟩) id
    rcases begins_of_fields hfields hbehind with rfl | ⟨field, hfield, hname⟩
    · decide
    · simp only [fields, Builder.fields, Option.toList_none, List.map_nil,
        List.append_nil, List.mem_cons, List.not_mem_nil, or_false] at hfield
      rcases hfield with rfl | rfl | rfl | rfl
      all_goals
        rw [← Option.some.inj hname]
        decide

/-- What a fetch of a path gives, or what its first byte does. -/
def hlsFetched (path : Text) (ranged : Bool) : Outcome Bytes :=
  match hlsBody path with
  | none => Outcome.fail .other
      "unexpected HTTP status: HTTP/1.1 404 Not Found".toList
  | some text =>
      .ok (if ranged then (Utf8.encode text).take 1 else Utf8.encode text)

theorem length_buildGet (uri : URI) (host : Text) (range : Option Text) :
    18 ≤ (Hls.buildGet uri host range).length := by
  have hpath := List.length_pos_of_ne_nil (writtenPath_ne_nil uri)
  rw [buildGet_eq]
  simp only [List.length_append, List.length_cons]
  change 18 ≤ 4 + _ + (8 + (2 + (_ + 2)) + 1)
  omega

/-- However a request of the pinger is cut, the server answers for the path it
is for; whether it has seen the range depends on the cut. -/
theorem responseBody_servedHls (h : Graphic uri) (port : UInt16)
    {range : Option Text} (hrange : ∀ r ∈ range, ∀ c ∈ r, c.toNat < 0x80)
    {d : Delivery UInt8}
    (hbytes : d.bytes =
      Utf8.encode (Hls.buildGet uri (hostPort uri.domain port) range))
    (hlong : 18 ≤ (d.read bufSize).1.length) :
    ∃ ranged : Bool, (range = none → ranged = false) ∧
      Hls.responseBody (servedHls d) =
        hlsFetched (writtenPath uri) ranged := by
  have hprefix : (d.read bufSize).1 <+: d.bytes :=
    ⟨_, d.read_append bufSize⟩
  have hreq : Utf8.lossy (d.read bufSize).1 =
      (Hls.buildGet uri (hostPort uri.domain port) range).take
        (d.read bufSize).1.length := by
    rw [← Utf8.lossy_take_encode (ascii_buildGet h port hrange), ← hbytes,
      ← List.prefix_iff_eq_take.mp hprefix]
  have hbody := hlsBody_take h (hostPort uri.domain port) range hlong
  refine ⟨(hlsRange (Utf8.lossy (d.read bufSize).1)).isSome, ?_, ?_⟩
  · rintro rfl
    rw [hreq, hlsRange_take h]
    rfl
  · rw [servedHls_eq, hlsFetched]
    dsimp only
    rw [hreq, hbody]
    cases htext : hlsBody (writtenPath uri) with
    | none => exact responseBody_hlsNotFound
    | some text => exact responseBody_hlsAnswer htext _ _

end Testserver

end KnockKnock
