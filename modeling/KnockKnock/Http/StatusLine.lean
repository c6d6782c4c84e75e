import KnockKnock.Hls.Fetch
import KnockKnock.Http.Exchange
import KnockKnock.Support.HttpResponse

/-!
# What the status line decides

Both HTTP clients look for the digits of a code anywhere in the status line.
`decideByCode_iff` says which reason phrases they mistake for a code.
-/

namespace KnockKnock

open ByteStream HttpMessage Spans Utf8

namespace Http

/-! ## The text of a status line -/

variable {l : StatusLine} {w : Text}

/-- The version, as text. -/
def versionText (l : StatusLine) : Text :=
  "HTTP/1.".toList ++ [Char.ofNat l.minor.toNat]

theorem lossy_version (l : StatusLine) :
    lossy (version l.minor) = versionText l := by
  have hdigit := l.isMinor
  simp only [isDigit, Bool.and_eq_true, decide_eq_true_eq] at hdigit
  have hsplit := lossy_append_ascii (b := l.minor) (by omega)
    [0x48, 0x54, 0x54, 0x50, 0x2F, 0x31, 0x2E] []
  have hname : lossy [0x48, 0x54, 0x54, 0x50, 0x2F, 0x31, 0x2E] =
      "HTTP/1.".toList := by
    decide
  rw [hname] at hsplit
  exact hsplit

theorem lossy_statusLine (l : StatusLine) :
    lossy l.bytes =
      versionText l ++ ' ' :: (lossy l.code ++ ' ' :: lossy l.reason) := by
  have hspace : (0x20 : UInt8).toNat < 0x80 := by decide
  rw [StatusLine.bytes, lossy_append_ascii hspace, lossy_append_ascii hspace,
    lossy_version]
  rfl

theorem length_lossy_code (l : StatusLine) : (lossy l.code).length = 3 := by
  obtain ⟨hlength, hdigits⟩ := l.isCode
  have hascii : ∀ b ∈ l.code, b.toNat < 0x80 := by
    intro b hb
    have hdigit := hdigits b hb
    simp only [isDigit, Bool.and_eq_true, decide_eq_true_eq] at hdigit
    omega
  have hdecode : ∀ s : Bytes, (∀ b ∈ s, b.toNat < 0x80) →
      (lossy s).length = s.length := by
    intro s hs
    induction s with
    | nil => rfl
    | cons b s ih =>
        rw [List.forall_mem_cons] at hs
        rw [lossy, decode_cons_ascii hs.1, List.map_cons, ← lossy,
          List.length_cons, List.length_cons, ih hs.2]
  rw [hdecode _ hascii, hlength]

/-- A code of three digits is recognised by its text. -/
theorem lossy_code_eq_iff (hascii : ∀ c ∈ w, c.toNat < 0x80)
    (hw : (encode w).length = 3) : lossy l.code = w ↔ l.code = encode w := by
  constructor
  · intro h
    have hfront : encode w <+: l.code :=
      encode_prefix_of_lossy hascii (h ▸ List.prefix_rfl)
    exact (hfront.eq_of_length (by rw [hw, l.isCode.1])).symm
  · intro h
    rw [h, lossy_encode]

theorem space_not_mem_version (l : StatusLine) : ' ' ∉ versionText l := by
  intro h
  rw [← lossy_version] at h
  have hmem := mem_lossy_ascii (by decide) h
  have hminor : ¬(0x20 : UInt8) = l.minor := by
    intro heq
    have hdigit := l.isMinor
    rw [← heq] at hdigit
    exact absurd hdigit (by decide)
  change (0x20 : UInt8) ∈ version l.minor at hmem
  simp [version, hminor] at hmem

theorem space_not_mem_code (l : StatusLine) : ' ' ∉ lossy l.code := by
  intro h
  have hmem := mem_lossy_ascii (by decide) h
  exact absurd (l.isCode.2 _ hmem) (by decide)

/-! ## Digits found in it -/

/-- Three digits stand in a status line as its code or in its reason
phrase. -/
theorem contains_statusLine_iff (hw : w.length = 3) (hspace : ' ' ∉ w)
    (hdot : '.' ∉ w) (hname : ¬w <:+: "HTTP/1".toList) :
    Str.contains (lossy l.bytes) w = true ↔
      lossy l.code = w ∨ Str.contains (lossy l.reason) w = true := by
  have hne : w ≠ [] := by
    rintro rfl
    cases hw
  have hversion : ¬w <:+: versionText l := by
    change ¬w <:+: "HTTP/1".toList ++ '.' :: [Char.ofNat l.minor.toNat]
    rw [infix_append_cons_iff hne hdot, not_or]
    refine ⟨hname, fun h => ?_⟩
    have hlength := h.length_le
    rw [hw] at hlength
    exact absurd hlength (by simp)
  have hcode : w <:+: lossy l.code ↔ lossy l.code = w := by
    constructor
    · intro h
      exact (h.eq_of_length (by rw [hw, length_lossy_code])).symm
    · rintro rfl
      exact List.infix_rfl
  simp only [Str.contains, decide_eq_true_eq]
  rw [lossy_statusLine, infix_append_cons_iff hne hspace,
    infix_append_cons_iff hne hspace, hcode]
  simp [hversion]

/-- Between two spaces, three digits stand in a status line as its code, or at
the front or between two spaces in its reason phrase. -/
theorem contains_spaced_iff (hspace : ' ' ∉ w) :
    Str.contains (lossy l.bytes) (' ' :: (w ++ [' '])) = true ↔
      lossy l.code = w ∨
        Str.contains (' ' :: lossy l.reason) (' ' :: (w ++ [' '])) = true := by
  have hcode : w ++ [' '] <+: lossy l.code ++ ' ' :: lossy l.reason ↔
      lossy l.code = w := by
    constructor
    · rintro ⟨t, ht⟩
      rw [List.append_assoc] at ht
      exact (split_unique hspace (space_not_mem_code l) ht).1.symm
    · rintro rfl
      exact ⟨lossy l.reason, by simp⟩
  simp only [Str.contains, decide_eq_true_eq]
  rw [lossy_statusLine, cons_infix_append_cons_iff (space_not_mem_version l),
    cons_infix_append_cons_iff (space_not_mem_code l), hcode,
    List.infix_cons_iff, List.cons_prefix_cons]
  simp

/-! ## The two verdicts -/

theorem name_prefix_statusLine (l : StatusLine) :
    "HTTP/".toList <+: lossy l.bytes := by
  have hversion : "HTTP/".toList <+: versionText l :=
    ⟨['1', '.', Char.ofNat l.minor.toNat], rfl⟩
  rw [lossy_statusLine]
  exact hversion.trans (List.prefix_append _ _)

theorem cr_not_mem_statusLine (l : StatusLine) : '\r' ∉ lossy l.bytes := by
  intro h
  have hmem := mem_lossy_ascii (by decide) h
  exact l.not_mem (by decide) hmem

theorem lf_not_mem_statusLine (l : StatusLine) : '\n' ∉ lossy l.bytes := by
  intro h
  have hmem := mem_lossy_ascii (by decide) h
  exact l.not_mem (by decide) hmem

theorem statusLine_ne_nil (l : StatusLine) : lossy l.bytes ≠ [] := by
  intro h
  have hname := (name_prefix_statusLine l).length_le
  rw [h] at hname
  exact absurd hname (by decide)

/-- The line in front of a line end is all that is decoded of it. -/
theorem lossy_statusLine_crlf (l : StatusLine) (rest : Bytes) :
    lossy (l.bytes ++ (crlf ++ rest)) =
      lossy l.bytes ++ ("\r\n".toList ++ lossy rest) := by
  have hlf : lossy (0x0A :: rest) = '\n' :: lossy rest :=
    lossy_append_ascii (by decide) [] rest
  have hcr : lossy (l.bytes ++ 0x0D :: 0x0A :: rest) =
      lossy l.bytes ++ '\r' :: lossy (0x0A :: rest) :=
    lossy_append_ascii (by decide) l.bytes (0x0A :: rest)
  rw [hlf] at hcr
  exact hcr

/-- The digits of `404` and `501` are looked for in the whole line. -/
theorem isErr_checkStatusLine_iff (l : StatusLine) (rest : Bytes) :
    (checkStatusLine (lossy (l.bytes ++ (crlf ++ rest)))).IsErr ↔
      ∃ code ∈ unconnectStatusCode,
        lossy l.code = code ∨ Str.contains (lossy l.reason) code = true := by
  have hline : Str.beforeFirst "\r\n".toList
      (lossy (l.bytes ++ (crlf ++ rest))) = lossy l.bytes := by
    rw [lossy_statusLine_crlf]
    exact Str.beforeFirst_append (cr_not_mem_statusLine l) ['\n'] _
  have hfound : ∀ code ∈ unconnectStatusCode,
      (Str.contains (lossy l.bytes) code = true ↔
        lossy l.code = code ∨ Str.contains (lossy l.reason) code = true) := by
    intro code hcode
    simp only [unconnectStatusCode, List.mem_cons, List.not_mem_nil,
      or_false] at hcode
    rcases hcode with rfl | rfl
    · exact contains_statusLine_iff rfl (by decide) (by decide) (by decide)
    · exact contains_statusLine_iff rfl (by decide) (by decide) (by decide)
  unfold checkStatusLine
  rw [hline, if_neg (not_not_intro (name_prefix_statusLine l))]
  split
  next code hfind =>
    have hcode := List.mem_of_find?_eq_some hfind
    refine iff_of_true trivial ⟨code, hcode, ?_⟩
    exact (hfound code hcode).mp (List.find?_some hfind)
  next hfind =>
    refine iff_of_false id ?_
    rintro ⟨code, hcode, hmatch⟩
    exact List.find?_eq_none.mp hfind code hcode
      ((hfound code hcode).mpr hmatch)

/-- The header section begins with the status line, which ends there or with
a line end. -/
theorem take_header {buf : Bytes} {split : ℕ}
    (hstart : l.bytes ++ crlf <+: buf)
    (hsplit : position blankLine buf = some split) :
    ∃ rest, buf.take split = l.bytes ++ rest ∧
      (rest = [] ∨ ∃ more, rest = crlf ++ more) := by
  obtain ⟨more, rfl⟩ := hstart
  have hline : position blankLine (l.bytes ++ (crlf ++ more)) =
      (position blankLine (crlf ++ more)).map (l.bytes.length + ·) :=
    position_append (l.not_mem (by decide : isContent 0x0D = false))
      [0x0A, 0x0D, 0x0A] _
  rw [List.append_assoc, hline] at hsplit
  obtain ⟨n, hn, rfl⟩ := Option.map_eq_some_iff.mp hsplit
  rw [List.append_assoc, List.take_append]
  refine ⟨(crlf ++ more).take n, ?_, ?_⟩
  · rw [List.take_of_length_le (Nat.le_add_right _ _), Nat.add_sub_cancel_left]
  · by_cases hblank : blankLine <+: 0x0D :: 0x0A :: more
    · have hzero := position_eq_zero hblank
      change position blankLine (0x0D :: 0x0A :: more) = some n at hn
      rw [hn, Option.some.injEq] at hzero
      rw [hzero]
      exact Or.inl rfl
    · have hlf : ¬blankLine <+: 0x0A :: more := by
        intro h
        exact absurd (List.cons_prefix_cons.mp h).1 (by decide)
      change position blankLine (0x0D :: 0x0A :: more) = some n at hn
      rw [position_cons hblank, position_cons hlf] at hn
      obtain ⟨_, hm, rfl⟩ := Option.map_eq_some_iff.mp hn
      obtain ⟨k, -, rfl⟩ := Option.map_eq_some_iff.mp hm
      exact Or.inr ⟨more.take k, rfl⟩

/-- The spaced digits of `200` and `206` are looked for in the whole line. -/
theorem responseBody_accepts_iff {buf : Bytes} {split : ℕ} {header : Text}
    (hstart : l.bytes ++ crlf <+: buf)
    (hsplit : position Hls.separator buf = some split)
    (hheader : fromUtf8 (buf.take split) = some header) :
    (∃ body, Hls.responseBody buf = .ok body) ↔
      ∃ code ∈ ["200".toList, "206".toList], lossy l.code = code ∨
        Str.contains (' ' :: lossy l.reason) (' ' :: (code ++ [' '])) =
          true := by
  obtain ⟨rest, htake, hrest⟩ := take_header hstart hsplit
  have hline : (Str.lines header).head? = some (lossy l.bytes) := by
    rw [← lossy_of_fromUtf8 hheader, htake]
    rcases hrest with rfl | ⟨more, rfl⟩
    · rw [List.append_nil]
      have hhead := Str.head_lines (statusLine_ne_nil l)
        (lf_not_mem_statusLine l) (Or.inl (rfl : ([] : Text) = []))
      rw [List.append_nil] at hhead
      exact hhead
    · rw [lossy_statusLine_crlf]
      exact Str.head_lines (statusLine_ne_nil l) (lf_not_mem_statusLine l)
        (Or.inr ⟨lossy more, rfl⟩)
  have h200 := contains_spaced_iff (l := l) (w := "200".toList) (by decide)
  have h206 := contains_spaced_iff (l := l) (w := "206".toList) (by decide)
  rw [Hls.responseBody_of_position hsplit hheader, hline]
  dsimp only [Option.getD_some]
  rw [if_neg (not_not_intro (name_prefix_statusLine l))]
  simp only [List.mem_cons, List.not_mem_nil, or_false, exists_eq_or_imp,
    exists_eq_left]
  rw [← h200, ← h206]
  split
  next hnone =>
    refine iff_of_false (by rintro ⟨body, ⟨⟩⟩) ?_
    rintro (h | h)
    · exact hnone.1 h
    · exact hnone.2 h
  next hsome =>
    refine iff_of_true ⟨_, rfl⟩ ?_
    by_contra hnone
    exact hsome (not_or.mp hnone)

/-! ## Verdicts by the code alone -/

/-- A response with the status line `line` as the two clients receive it: the
HTTP client sees the whole line in its first read, the HLS client a header
section in UTF-8. -/
structure Reception where
  line : StatusLine
  httpRequest : Text
  hlsRequest : Text
  http : Delivery UInt8
  hls : Delivery UInt8
  firstRead : line.bytes ++ crlf <+: (http.read bufSize).1
  start : line.bytes ++ crlf <+: hls.bytes
  isText : ∃ split header, position blankLine hls.bytes = some split ∧
    fromUtf8 (hls.bytes.take split) = some header

namespace Reception

/-- `run_exchange` returns an error. -/
def Refused (r : Reception) : Prop :=
  (Session.run (runExchange r.httpRequest) (Session.opened r.http)).1.IsErr

/-- `fetch_response_body` returns a body. -/
def Accepted (r : Reception) : Prop :=
  ∃ body, (Session.run (Hls.fetchResponseBody r.hlsRequest)
    (Session.opened r.hls)).1 = .ok body

/-- Both verdicts are those of the code. -/
structure ByCode (r : Reception) : Prop where
  refused : r.Refused ↔
    r.line.code = encode "404".toList ∨ r.line.code = encode "501".toList
  accepted : r.Accepted ↔
    r.line.code = encode "200".toList ∨ r.line.code = encode "206".toList

end Reception

/-- Both responses are judged by their codes alone, so that another reason
phrase changes nothing. -/
structure DecideByCode (r r' : Reception) : Prop where
  byCode : r.ByCode
  byCode' : r'.ByCode
  reason : r.line.minor = r'.line.minor → r.line.code = r'.line.code →
    (r.Refused ↔ r'.Refused) ∧ (r.Accepted ↔ r'.Accepted)

/-- The reason phrase holds nothing that could be mistaken for another code:
unless the code is 404 or 501 itself, neither of them, and unless it is 200 or
206 itself, neither of these between spaces or at the front in front of a
space. -/
structure Unmistakable (l : StatusLine) : Prop where
  refused : l.code = encode "404".toList ∨ l.code = encode "501".toList ∨
    ¬(Str.contains (lossy l.reason) "404".toList = true ∨
      Str.contains (lossy l.reason) "501".toList = true)
  accepted : l.code = encode "200".toList ∨ l.code = encode "206".toList ∨
    ¬(Str.contains (' ' :: lossy l.reason) " 200 ".toList = true ∨
      Str.contains (' ' :: lossy l.reason) " 206 ".toList = true)

namespace Reception

theorem refused_iff (r : Reception) :
    r.Refused ↔
      (r.line.code = encode "404".toList ∨
        r.line.code = encode "501".toList) ∨
      (Str.contains (lossy r.line.reason) "404".toList = true ∨
        Str.contains (lossy r.line.reason) "501".toList = true) := by
  obtain ⟨rest, hrest⟩ := r.firstRead
  have hverdict := isErr_checkStatusLine_iff r.line
    (rest ++ List.replicate (bufSize - (r.http.read bufSize).1.length) 0)
  have hbuffer : buffer (r.http.read bufSize).1 =
      r.line.bytes ++ (crlf ++ (rest ++
        List.replicate (bufSize - (r.http.read bufSize).1.length) 0)) := by
    rw [buffer]
    nth_rewrite 1 [← hrest]
    simp only [List.append_assoc]
  rw [Refused, run_runExchange, hbuffer, hverdict]
  simp only [unconnectStatusCode, List.mem_cons, List.not_mem_nil, or_false,
    exists_eq_or_imp, exists_eq_left]
  rw [lossy_code_eq_iff (by decide) (by decide),
    lossy_code_eq_iff (by decide) (by decide), or_or_or_comm]

theorem accepted_iff (r : Reception) :
    r.Accepted ↔
      (r.line.code = encode "200".toList ∨
        r.line.code = encode "206".toList) ∨
      (Str.contains (' ' :: lossy r.line.reason) " 200 ".toList = true ∨
        Str.contains (' ' :: lossy r.line.reason) " 206 ".toList = true) := by
  obtain ⟨split, header, hsplit, hheader⟩ := r.isText
  rw [Accepted, Hls.run_fetchResponseBody,
    responseBody_accepts_iff r.start hsplit hheader]
  simp only [List.mem_cons, List.not_mem_nil, or_false, exists_eq_or_imp,
    exists_eq_left]
  rw [lossy_code_eq_iff (by decide) (by decide),
    lossy_code_eq_iff (by decide) (by decide), or_or_or_comm]
  rfl

theorem byCode_iff (r : Reception) : r.ByCode ↔ Unmistakable r.line := by
  have hor : ∀ a b c : Prop, ((a ∨ b) ∨ c ↔ a ∨ b) ↔ a ∨ b ∨ ¬c := by
    intro a b c
    tauto
  constructor
  · rintro ⟨hrefused, haccepted⟩
    rw [refused_iff, hor] at hrefused
    rw [accepted_iff, hor] at haccepted
    exact ⟨hrefused, haccepted⟩
  · rintro ⟨hrefused, haccepted⟩
    rw [← hor, ← refused_iff] at hrefused
    rw [← hor, ← accepted_iff] at haccepted
    exact ⟨hrefused, haccepted⟩

end Reception

theorem line_prefix (l : StatusLine) :
    l.bytes ++ crlf <+: l.bytes ++ blankLine := by
  rw [blankLine, ← List.append_assoc]
  exact List.prefix_append _ _

/-- A short response comes with its first read. -/
theorem read_line {l : StatusLine} (hlength : l.bytes.length ≤ 251) :
    ((Delivery.whole (l.bytes ++ blankLine)).read bufSize).1 =
      l.bytes ++ blankLine := by
  refine read_push (by simp [blankLine, crlf]) ?_ _
  simp only [List.length_append, blankLine, crlf, List.length_cons,
    List.length_nil, bufSize]
  omega

theorem isText_line {l : StatusLine} (htext : (fromUtf8 l.bytes).isSome) :
    ∃ split header,
      position blankLine (Delivery.whole (l.bytes ++ blankLine)).bytes =
          some split ∧
        fromUtf8 ((Delivery.whole (l.bytes ++ blankLine)).bytes.take split) =
          some header := by
  obtain ⟨header, hheader⟩ := Option.isSome_iff_exists.mp htext
  have hsplit : position blankLine (l.bytes ++ blankLine) =
      (position blankLine blankLine).map (l.bytes.length + ·) :=
    position_append (l.not_mem (by decide : isContent 0x0D = false))
      [0x0A, 0x0D, 0x0A] blankLine
  refine ⟨l.bytes.length, header, ?_, ?_⟩
  · rw [Delivery.bytes_whole, hsplit]
    rfl
  · rw [Delivery.bytes_whole, List.take_left, hheader]

/-- A response without header fields and without a body. -/
def lineOnly (l : StatusLine) (hlength : l.bytes.length ≤ 251)
    (htext : (fromUtf8 l.bytes).isSome) : Reception where
  line := l
  httpRequest := []
  hlsRequest := []
  http := .whole (l.bytes ++ blankLine)
  hls := .whole (l.bytes ++ blankLine)
  firstRead := (read_line hlength).symm ▸ line_prefix l
  start := (Delivery.bytes_whole _).symm ▸ line_prefix l
  isText := isText_line htext

theorem isDigit_one : isDigit 0x31 = true := by decide

/-- `HTTP/1.1 500 404 from 200 hosts` -/
def confusing : StatusLine where
  minor := 0x31
  code := encode "500".toList
  reason := encode "404 from 200 hosts".toList
  isMinor := isDigit_one
  isCode := by decide
  isReason := by decide

end Http

end KnockKnock
