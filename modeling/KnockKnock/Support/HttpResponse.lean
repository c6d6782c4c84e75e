import KnockKnock.Support.HttpMessage

/-!
# HTTP/1.1 responses

A response is a status line, header fields, and a body that the fields delimit:
by its length, by the chunked transfer coding, or by the end of the connection.
`Response` keeps the bytes as they were sent next to what they mean, so that a
payload and a point at which a stream ends early can be spoken of.
-/

namespace HttpMessage

open Spans

/-! ## Status lines -/

/-- A status line of HTTP/1.x. -/
structure StatusLine where
  minor : UInt8
  code : List UInt8
  reason : List UInt8
  isMinor : isDigit minor = true
  isCode : code.length = 3 ∧ ∀ b ∈ code, isDigit b = true
  isReason : ∀ b ∈ reason, isContent b = true

/-- `HTTP-version` with the major number 1. -/
def version (minor : UInt8) : List UInt8 :=
  [0x48, 0x54, 0x54, 0x50, 0x2F, 0x31, 0x2E, minor]

def StatusLine.bytes (l : StatusLine) : List UInt8 :=
  version l.minor ++ 0x20 :: (l.code ++ 0x20 :: l.reason)

theorem isContent_of_digit {b : UInt8} (hb : isDigit b = true) :
    isContent b = true := by
  have hvisible := isVisible_of_digit hb
  unfold isVisible at hvisible
  simp [isContent, content, hvisible]

/-- A status line contains neither CR nor LF. -/
theorem StatusLine.not_mem (l : StatusLine) {b : UInt8}
    (hb : isContent b = false) : b ∉ l.bytes := by
  refine not_mem_of_all (fun c hc => ?_) hb
  simp only [StatusLine.bytes, version, List.mem_append, List.mem_cons,
    List.not_mem_nil, or_false] at hc
  rcases hc with hversion | rfl | hcode | rfl | hreason
  · rcases hversion with rfl | rfl | rfl | rfl | rfl | rfl | rfl | rfl
    case inr.inr.inr.inr.inr.inr.inr => exact isContent_of_digit l.isMinor
    all_goals decide
  · decide
  · exact isContent_of_digit (l.isCode.2 c hcode)
  · decide
  · exact l.isReason c hreason

/-! ## Chunks -/

/-- The value of a `HEXDIG`. -/
def hexDigit (b : UInt8) : Option ℕ :=
  let n := b.toNat
  if 0x30 ≤ n ∧ n ≤ 0x39 then some (n - 0x30)
  else if 0x41 ≤ n ∧ n ≤ 0x46 then some (n - 0x41 + 10)
  else if 0x61 ≤ n ∧ n ≤ 0x66 then some (n - 0x61 + 10)
  else none

/-- The number that hexadecimal digits write, behind `n`. -/
def hexNumber (n : ℕ) : List UInt8 → Option ℕ
  | [] => some n
  | b :: s => (hexDigit b).bind fun d => hexNumber (n * 16 + d) s

/-- `chunk-ext`: blanks may stand in front of its semicolon. -/
def IsExtension (s : List UInt8) : Prop :=
  (∀ b ∈ s, isContent b = true) ∧
    ∀ b ∈ (s.dropWhile isBlank).head?, b = 0x3B

structure Chunk where
  size : List UInt8
  ext : List UInt8
  data : List UInt8
  isSize : size ≠ [] ∧ hexNumber 0 size = some data.length
  isExt : IsExtension ext
  nonempty : data ≠ []

def Chunk.bytes (c : Chunk) : List UInt8 :=
  c.size ++ (c.ext ++ (crlf ++ (c.data ++ crlf)))

/-- `chunked-body` -/
structure ChunkedBody where
  chunks : List Chunk
  zeros : List UInt8
  ext : List UInt8
  trailers : List Field
  lines : List (List UInt8)
  isZero : zeros ≠ [] ∧ ∀ b ∈ zeros, b = 0x30
  isExt : IsExtension ext
  written : List.Forall₂ Field.WrittenAs trailers lines

namespace ChunkedBody

/-- Everything up to the end of the final chunk. -/
def front (b : ChunkedBody) : List UInt8 :=
  b.chunks.flatMap Chunk.bytes ++ (b.zeros ++ (b.ext ++ crlf))

def bytes (b : ChunkedBody) : List UInt8 :=
  b.front ++ (ended b.lines ++ crlf)

def payload (b : ChunkedBody) : List UInt8 := b.chunks.flatMap Chunk.data

theorem length_payload_le (chunks : List Chunk) :
    (chunks.flatMap Chunk.data).length ≤
      (chunks.flatMap Chunk.bytes).length := by
  induction chunks with
  | nil => exact Nat.le_refl 0
  | cons c chunks ih =>
      simp only [List.flatMap_cons, List.length_append, Chunk.bytes]
      omega

/-- The coding adds at least the final chunk and the empty line. -/
theorem length_payload_lt (b : ChunkedBody) :
    b.payload.length < b.bytes.length := by
  have hle := length_payload_le b.chunks
  simp only [payload, bytes, front, List.length_append, crlf,
    List.length_cons, List.length_nil]
  omega

end ChunkedBody

/-! ## Responses -/

/-- How the end of a body is recognised. -/
inductive Framing where
  | length (n : ℕ)
  | chunked
  | close
deriving DecidableEq

/-- The framing that the fields announce.  Of the transfer codings only
`chunked` alone is read. -/
def framing (fields : List (List UInt8 × List UInt8)) : Option Framing :=
  match fields.filter (named "transfer-encoding".toList),
      fields.filter (named "content-length".toList) with
  | [coding], [] =>
      if named "chunked".toList (coding.2, []) then some .chunked else none
  | [], [length] => (number length.2).map .length
  | [], [] => some .close
  | _, _ => none

inductive Body where
  | counted (payload : List UInt8)
  | chunked (coded : ChunkedBody)
  | closed (payload : List UInt8)

namespace Body

def framing : Body → Framing
  | counted payload => .length payload.length
  | chunked _ => .chunked
  | closed _ => .close

def bytes : Body → List UInt8
  | counted payload => payload
  | chunked coded => coded.bytes
  | closed payload => payload

def payload : Body → List UInt8
  | counted payload => payload
  | chunked coded => coded.payload
  | closed payload => payload

/-- What has to arrive before the body is known to have ended, if its fields
tell. -/
def due : Body → List UInt8
  | counted payload => payload
  | chunked coded => coded.front
  | closed _ => []

def IsChunked : Body → Prop
  | chunked _ => True
  | _ => False

/-- Only a chunked body is sent as something else than its payload. -/
theorem bytes_eq_payload_iff (b : Body) :
    b.bytes = b.payload ↔ ¬b.IsChunked := by
  cases b with
  | counted payload => exact iff_of_true rfl id
  | closed payload => exact iff_of_true rfl id
  | chunked coded =>
      apply iff_of_false _ (not_not_intro trivial)
      intro h
      have hlength := congrArg List.length h
      have hlt := coded.length_payload_lt
      change coded.bytes.length = coded.payload.length at hlength
      omega

end Body

structure Response where
  status : StatusLine
  fields : List Field
  lines : List (List UInt8)
  body : Body
  written : List.Forall₂ Field.WrittenAs fields lines
  isFramed : framing (fields.map Field.pair) = some body.framing

/-- Two line ends behind each other. -/
def blankLine : List UInt8 := crlf ++ crlf

namespace Response

/-- The header section in front of its blank line. -/
def header (r : Response) : List UInt8 :=
  r.status.bytes ++ r.lines.flatMap (crlf ++ ·)

/-- The header section and the blank line. -/
def head (r : Response) : List UInt8 := r.header ++ blankLine

def bytes (r : Response) : List UInt8 := r.head ++ r.body.bytes

/-- Every line is ended, and the last one is empty. -/
theorem head_eq (r : Response) :
    r.head = r.status.bytes ++ (crlf ++ (ended r.lines ++ crlf)) := by
  have hlines : ∀ lines : List (List UInt8),
      lines.flatMap (crlf ++ ·) ++ crlf = crlf ++ ended lines := by
    intro lines
    induction lines with
    | nil => rfl
    | cons line lines ih => simp [ended] at ih ⊢; simp [ih]
  rw [head, header, blankLine, List.append_assoc, ← List.append_assoc _ crlf,
    hlines, List.append_assoc]

end Response

/-! ## Where the header section ends -/

/-- A line that is not empty and contains no CR is not blank. -/
theorem position_line {line : List UInt8} (hne : line ≠ [])
    (hcr : 0x0D ∉ line) (rest : List UInt8) :
    position blankLine (crlf ++ (line ++ rest)) =
      (position blankLine rest).map (2 + line.length + ·) := by
  have hfirst : ¬blankLine <+: 0x0D :: 0x0A :: (line ++ rest) := by
    intro h
    obtain ⟨b, line, rfl⟩ := List.exists_cons_of_ne_nil hne
    simp only [blankLine, crlf, List.cons_append, List.nil_append,
      List.cons_prefix_cons, true_and] at h
    simp [h.1] at hcr
  have hsecond : ¬blankLine <+: 0x0A :: (line ++ rest) := by
    intro h
    exact absurd (List.cons_prefix_cons.mp h).1 (by decide)
  have hline : position blankLine (line ++ rest) =
      (position blankLine rest).map (line.length + ·) :=
    position_append hcr [0x0A, 0x0D, 0x0A] rest
  change position blankLine (0x0D :: 0x0A :: (line ++ rest)) = _
  rw [position_cons hfirst, position_cons hsecond, hline, Option.map_map,
    Option.map_map]
  congr 1
  funext n
  simp only [Function.comp_apply]
  omega

theorem position_blankLine {lines : List (List UInt8)}
    (hlines : ∀ line ∈ lines, line ≠ [] ∧ 0x0D ∉ line)
    (rest : List UInt8) :
    position blankLine (lines.flatMap (crlf ++ ·) ++ (blankLine ++ rest)) =
      some (lines.flatMap (crlf ++ ·)).length := by
  induction lines with
  | nil => exact position_eq_zero (List.prefix_append blankLine rest)
  | cons line lines ih =>
      obtain ⟨⟨hne, hcr⟩, hlines⟩ := List.forall_mem_cons.mp hlines
      rw [List.flatMap_cons, List.append_assoc, List.append_assoc,
        position_line hne hcr, ih hlines]
      simp only [Option.map_some, List.length_append, crlf, List.length_cons,
        List.length_nil]

/-- Lines in which fields are written are neither empty nor do they contain a
CR. -/
theorem forall_line_of_written {fields : List Field}
    {lines : List (List UInt8)}
    (h : List.Forall₂ Field.WrittenAs fields lines) :
    ∀ line ∈ lines, line ≠ [] ∧ 0x0D ∉ line := by
  induction h with
  | nil => simp
  | cons hf _ ih =>
      rw [List.forall_mem_cons]
      exact ⟨⟨hf.ne_nil, hf.not_mem (by decide) (by decide) (by decide)⟩, ih⟩

/-- The first blank line of a response is the one behind its header. -/
theorem Response.position_blankLine (r : Response) (rest : List UInt8) :
    position blankLine (r.head ++ rest) = some r.header.length := by
  have hstatus : ∀ s, position blankLine (r.status.bytes ++ s) =
      (position blankLine s).map (r.status.bytes.length + ·) :=
    position_append (r.status.not_mem (by decide : isContent 0x0D = false))
      [0x0A, 0x0D, 0x0A]
  rw [head, header, List.append_assoc, List.append_assoc, hstatus,
    HttpMessage.position_blankLine (forall_line_of_written r.written)]
  simp

end HttpMessage
