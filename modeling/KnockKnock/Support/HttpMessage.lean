import KnockKnock.Support.Numeral
import KnockKnock.Support.Spans
import KnockKnock.Support.Wire
import Mathlib.Data.List.DropRight
import Mathlib.Data.List.Forall2

/-!
# HTTP/1.1 requests

The message syntax of HTTP/1.1, read from the front of a byte string: a
request line, header fields, and a body of the length the fields announce.
A `Request` can only be built from parts that may stand in a message.

The syntax is one of octets: those from `0x80` on are neither white space nor
control characters.  Lines end in CR LF, and no line is folded.  Transfer
codings are not read.
-/

namespace HttpMessage

open Spans Wire

/-! ## Octets -/

/-- `SP / HTAB` -/
def blank (n : ℕ) : Bool := n == 0x20 || n == 0x09

/-- `VCHAR / obs-text` -/
def visible (n : ℕ) : Bool := 0x20 < n && n != 0x7F

/-- What may stand inside a field value. -/
def content (n : ℕ) : Bool := visible n || blank n

def isDigit (b : UInt8) : Bool := 0x30 ≤ b.toNat && b.toNat ≤ 0x39

/-- `tchar` -/
def isToken (b : UInt8) : Bool :=
  b.toNat < 0x80 && ((Char.ofNat b.toNat).isAlphanum ||
    "!#$%&'*+-.^_`|~".toList.contains (Char.ofNat b.toNat))

def isBlank (b : UInt8) : Bool := blank b.toNat

def isVisible (b : UInt8) : Bool := visible b.toNat

def isContent (b : UInt8) : Bool := content b.toNat

/-- `CRLF` -/
def crlf : List UInt8 := [0x0D, 0x0A]

/-- `token` -/
def IsToken (s : List UInt8) : Prop := s ≠ [] ∧ ∀ b ∈ s, isToken b = true

/-- A request target: neither empty, nor with white space or control
characters in it. -/
def IsTarget (s : List UInt8) : Prop := s ≠ [] ∧ ∀ b ∈ s, isVisible b = true

/-- `HTTP-version` -/
def IsVersion : List UInt8 → Prop
  | [0x48, 0x54, 0x54, 0x50, 0x2F, major, 0x2E, minor] =>
      isDigit major = true ∧ isDigit minor = true
  | _ => False

/-- `field-value`: blanks only stand inside. -/
def IsValue (s : List UInt8) : Prop :=
  (∀ b ∈ s, isContent b = true) ∧ (∀ b ∈ s.head?, isBlank b = false) ∧
    ∀ b ∈ s.getLast?, isBlank b = false

instance (s : List UInt8) : Decidable (IsToken s) :=
  inferInstanceAs (Decidable (_ ∧ _))

instance (s : List UInt8) : Decidable (IsTarget s) :=
  inferInstanceAs (Decidable (_ ∧ _))

instance (s : List UInt8) : Decidable (IsVersion s) := by
  unfold IsVersion
  split <;> infer_instance

instance (s : List UInt8) : Decidable (IsValue s) :=
  inferInstanceAs (Decidable (_ ∧ _))

/-! ## Messages -/

@[ext] structure Field where
  name : List UInt8
  value : List UInt8
  isName : IsToken name
  isValue : IsValue value
deriving DecidableEq

/-- A field of these parts, if they may stand in a message. -/
def Field.ofParts (name value : List UInt8) : Option Field :=
  if h : IsToken name ∧ IsValue value then some ⟨name, value, h.1, h.2⟩
  else none

theorem Field.ofParts_eq_some_iff {name value : List UInt8} {f : Field} :
    Field.ofParts name value = some f ↔ f.name = name ∧ f.value = value := by
  unfold Field.ofParts
  constructor
  · intro h
    split at h
    · cases h
      exact ⟨rfl, rfl⟩
    · cases h
  · rintro ⟨rfl, rfl⟩
    rw [dif_pos ⟨f.isName, f.isValue⟩]

/-- The name, and what the value says. -/
def Field.pair (f : Field) : List UInt8 × List UInt8 := (f.name, f.value)

/-- Field names are compared without regard to case. -/
def named (name : List Char) (field : List UInt8 × List UInt8) : Bool :=
  field.1.map (fun b => (Char.ofNat b.toNat).toLower) == name

def number (s : List UInt8) : Option ℕ :=
  if s ≠ [] ∧ s.all isDigit then
    some (Numeral.value (s.map fun b => Char.ofNat b.toNat))
  else none

/-- The length of the body, if the fields announce one that can be read. -/
def contentLength (fields : List (List UInt8 × List UInt8)) : Option ℕ :=
  if fields.any (named "transfer-encoding".toList) then none
  else
    match fields.filter (named "content-length".toList) with
    | [] => some 0
    | [field] => number field.2
    | _ => none

@[ext] structure Request where
  method : List UInt8
  target : List UInt8
  version : List UInt8
  fields : List Field
  body : List UInt8
  isMethod : IsToken method
  isTarget : IsTarget target
  isVersion : IsVersion version
  framed : contentLength (fields.map Field.pair) = some body.length

/-- A request of these parts, if they may stand in a message. -/
def Request.ofParts (method target version : List UInt8)
    (fields : List Field) (body : List UInt8) : Option Request :=
  if h : IsToken method ∧ IsTarget target ∧ IsVersion version ∧
      contentLength (fields.map Field.pair) = some body.length then
    some ⟨method, target, version, fields, body, h.1, h.2.1, h.2.2.1,
      h.2.2.2⟩
  else none

theorem Request.ofParts_eq_some_iff {m t v body : List UInt8}
    {fields : List Field} {r : Request} :
    Request.ofParts m t v fields body = some r ↔
      r.method = m ∧ r.target = t ∧ r.version = v ∧ r.fields = fields ∧
        r.body = body := by
  unfold Request.ofParts
  constructor
  · intro h
    split at h
    · cases h
      exact ⟨rfl, rfl, rfl, rfl, rfl⟩
    · cases h
  · rintro ⟨rfl, rfl, rfl, rfl, rfl⟩
    rw [dif_pos ⟨r.isMethod, r.isTarget, r.isVersion, r.framed⟩]

/-! ## Reading -/

/-- The line in front of the first CR LF. -/
def takeLine : List UInt8 → Option (List UInt8 × List UInt8)
  | [] => none
  | b :: bs =>
      if crlf <+: b :: bs then some ([], bs.tail)
      else (takeLine bs).map fun (line, rest) => (b :: line, rest)

/-- The parts of a request line, which single spaces keep apart. -/
def readRequestLine (line : List UInt8) :
    Option (List UInt8 × List UInt8 × List UInt8) :=
  match line.splitOn 0x20 with
  | [method, target, version] => some (method, target, version)
  | _ => none

/-- A value without the blanks around it. -/
def trimBlanks (s : List UInt8) : List UInt8 :=
  (s.dropWhile isBlank).rdropWhile isBlank

/-- A field line: the name goes up to the first colon. -/
def readField (line : List UInt8) : Option Field :=
  if 0x3A ∈ line then
    Field.ofParts (line.takeWhile (· != 0x3A))
      (trimBlanks (line.dropWhile (· != 0x3A)).tail)
  else none

/-- At most `fuel` lines, up to an empty one. -/
def takeFields : ℕ → List UInt8 → Option (List Field × List UInt8)
  | 0, _ => none
  | fuel + 1, bs => do
      let (line, bs) ← takeLine bs
      if line = [] then pure ([], bs)
      else
        let field ← readField line
        let (fields, bs) ← takeFields fuel bs
        pure (field :: fields, bs)

/-- A request, and what follows it. -/
def parse (bs : List UInt8) : Option (Request × List UInt8) := do
  let (line, bs) ← takeLine bs
  let (method, target, version) ← readRequestLine line
  let (fields, bs) ← takeFields bs.length bs
  let length ← contentLength (fields.map Field.pair)
  let (body, bs) ← takeExact length bs
  let request ← Request.ofParts method target version fields body
  pure (request, bs)

/-! ## What is read -/

theorem takeLine_eq_some {bs line rest : List UInt8}
    (h : takeLine bs = some (line, rest)) : bs = line ++ (crlf ++ rest) := by
  induction bs generalizing line with
  | nil => cases h
  | cons b bs ih =>
      unfold takeLine at h
      split at h
      next hcrlf =>
        obtain ⟨tail, htail⟩ := hcrlf
        obtain ⟨rfl, rfl⟩ := Prod.mk.inj (Option.some.inj h)
        rw [← htail, (List.cons.inj htail).2.symm]
        rfl
      next =>
        obtain ⟨⟨line', rest'⟩, hline, heq⟩ := Option.map_eq_some_iff.mp h
        obtain ⟨rfl, rfl⟩ := Prod.mk.inj heq
        rw [ih hline, List.cons_append]

theorem takeLine_append {line : List UInt8} (hline : 0x0D ∉ line)
    (rest : List UInt8) : takeLine (line ++ (crlf ++ rest)) = some (line, rest) := by
  induction line with
  | nil => rfl
  | cons b line ih =>
      rw [List.mem_cons, not_or] at hline
      have hnot : ¬crlf <+: b :: (line ++ (crlf ++ rest)) := by
        intro hprefix
        exact hline.1 (List.cons_prefix_cons.mp hprefix).1
      rw [List.cons_append, takeLine, if_neg hnot, ih hline.2]
      rfl

theorem readRequestLine_eq_some {line m t v : List UInt8}
    (h : readRequestLine line = some (m, t, v)) :
    line = m ++ 0x20 :: (t ++ 0x20 :: v) := by
  unfold readRequestLine at h
  split at h
  next hsplit =>
    cases h
    have hline : [0x20].intercalate (line.splitOn 0x20) = line :=
      List.intercalate_splitOn 0x20
    rw [hsplit] at hline
    simpa using hline.symm
  · cases h

theorem readRequestLine_append {m t v : List UInt8} (hm : 0x20 ∉ m)
    (ht : 0x20 ∉ t) (hv : 0x20 ∉ v) :
    readRequestLine (m ++ 0x20 :: (t ++ 0x20 :: v)) = some (m, t, v) := by
  rw [readRequestLine, List.splitOn_append_cons_self_of_not_mem hm,
    List.splitOn_append_cons_self_of_not_mem ht, List.splitOn_eq_singleton hv]

/-- A field line: blanks may stand on both sides of the value. -/
def Field.WrittenAs (f : Field) (line : List UInt8) : Prop :=
  ∃ front back, (∀ b ∈ front, isBlank b = true) ∧
    (∀ b ∈ back, isBlank b = true) ∧
    line = f.name ++ 0x3A :: (front ++ (f.value ++ back))

/-- The members of a class that does not contain `b` are not `b`. -/
theorem not_mem_of_all {p : UInt8 → Bool} {s : List UInt8} {b : UInt8}
    (hs : ∀ c ∈ s, p c = true) (hb : p b = false) : b ∉ s := by
  intro hmem
  rw [hs b hmem] at hb
  cases hb

theorem isSpan_colon {name : List UInt8} (hname : 0x3A ∉ name)
    (rest : List UInt8) :
    IsSpan (· != 0x3A) (name ++ 0x3A :: rest) name (0x3A :: rest) := by
  refine isSpan_cons ?_ (by decide)
  intro b hb
  rw [bne_iff_ne]
  rintro rfl
  exact hname hb

theorem readField_eq_some_iff {line : List UInt8} {f : Field} :
    readField line = some f ↔ f.WrittenAs line := by
  unfold readField
  constructor
  · intro h
    split at h
    next hcolon =>
      obtain ⟨name, rest, rfl, hname⟩ := List.eq_append_cons_of_mem hcolon
      have hspan := isSpan_colon hname rest
      rw [hspan.takeWhile_eq, hspan.dropWhile_eq, List.tail_cons,
        Field.ofParts_eq_some_iff] at h
      obtain ⟨front, back, hfront, hback, hrest⟩ :=
        exists_drop_ends isBlank rest
      refine ⟨front, back, hfront, hback, ?_⟩
      rw [h.1, h.2, trimBlanks, ← hrest]
    · cases h
  · rintro ⟨front, back, hfront, hback, rfl⟩
    have hspan := isSpan_colon (not_mem_of_all f.isName.2 (by decide))
      (front ++ (f.value ++ back))
    obtain ⟨-, hhead, hlast⟩ := f.isValue
    rw [if_pos (by simp), hspan.takeWhile_eq, hspan.dropWhile_eq,
      List.tail_cons, trimBlanks, drop_ends_append hfront hback hhead hlast]
    exact Field.ofParts_eq_some_iff.mpr ⟨rfl, rfl⟩

/-- A field line contains neither CR nor LF. -/
theorem Field.WrittenAs.not_mem {f : Field} {line : List UInt8}
    (h : f.WrittenAs line) {b : UInt8} (hb : isToken b = false)
    (hb' : isContent b = false) (hcolon : b ≠ 0x3A) : b ∉ line := by
  obtain ⟨front, back, hfront, hback, rfl⟩ := h
  have hblank : isBlank b = false := (Bool.or_eq_false_iff.mp hb').2
  simp only [List.mem_append, List.mem_cons, not_or]
  exact ⟨not_mem_of_all f.isName.2 hb, hcolon, not_mem_of_all hfront hblank,
    not_mem_of_all f.isValue.1 hb', not_mem_of_all hback hblank⟩

theorem Field.WrittenAs.ne_nil {f : Field} {line : List UInt8}
    (h : f.WrittenAs line) : line ≠ [] := by
  obtain ⟨front, back, -, -, rfl⟩ := h
  simp

/-- Lines, each with its end. -/
def ended (lines : List (List UInt8)) : List UInt8 := lines.flatMap (· ++ crlf)

theorem ended_cons (line : List UInt8) (lines : List (List UInt8))
    (rest : List UInt8) :
    ended (line :: lines) ++ rest = line ++ (crlf ++ (ended lines ++ rest)) := by
  simp [ended]

theorem takeFields_end {fuel : ℕ} {bs rest : List UInt8}
    (h : takeLine bs = some ([], rest)) :
    takeFields (fuel + 1) bs = some ([], rest) := by
  simp [takeFields, h]

theorem takeFields_line {fuel : ℕ} {bs line rest : List UInt8}
    (h : takeLine bs = some (line, rest)) (hne : line ≠ []) :
    takeFields (fuel + 1) bs =
      (readField line).bind fun field =>
        (takeFields fuel rest).map fun (fields, rest) =>
          (field :: fields, rest) := by
  simp only [takeFields, h, Option.bind_eq_bind, Option.bind_some,
    if_neg hne, Option.map_eq_bind]
  rfl

/-- The header fields are the lines up to the first empty one. -/
theorem takeFields_eq_some_iff {fuel : ℕ} {bs rest : List UInt8}
    {fields : List Field} :
    takeFields fuel bs = some (fields, rest) ↔
      fields.length < fuel ∧ ∃ lines,
        List.Forall₂ Field.WrittenAs fields lines ∧
        bs = ended lines ++ (crlf ++ rest) := by
  induction fuel generalizing bs fields with
  | zero => simp [takeFields]
  | succ fuel ih =>
      constructor
      · intro h
        obtain ⟨⟨line, bs'⟩, hline, -⟩ := Option.bind_eq_some_iff.mp h
        have hbs := takeLine_eq_some hline
        by_cases hne : line = []
        · subst hne
          rw [takeFields_end hline] at h
          cases h
          exact ⟨by simp, [], .nil, hbs⟩
        · rw [takeFields_line hline hne] at h
          obtain ⟨f, hf, h⟩ := Option.bind_eq_some_iff.mp h
          obtain ⟨⟨fields', rest'⟩, hfields, heq⟩ := Option.map_eq_some_iff.mp h
          cases heq
          obtain ⟨hlt, lines, hwritten, rfl⟩ := ih.mp hfields
          refine ⟨by simpa using hlt, line :: lines,
            .cons (readField_eq_some_iff.mp hf) hwritten, ?_⟩
          rw [ended_cons]
          exact hbs
      · rintro ⟨hlt, lines, hwritten, rfl⟩
        cases hwritten with
        | nil => exact takeFields_end (takeLine_append List.not_mem_nil rest)
        | @cons f line fields lines hf hwritten =>
            have hfields := ih.mpr
              ⟨by simpa using hlt, lines, hwritten, rfl⟩
            have hline := takeLine_append
              (hf.not_mem (by decide) (by decide) (by decide))
              (ended lines ++ (crlf ++ rest))
            rw [ended_cons, takeFields_line hline hf.ne_nil,
              readField_eq_some_iff.mpr hf, Option.bind_some, hfields]
            rfl

/-- A request line. -/
def requestLine (method target version : List UInt8) : List UInt8 :=
  method ++ 0x20 :: (target ++ 0x20 :: version)

def Request.line (r : Request) : List UInt8 :=
  requestLine r.method r.target r.version

theorem isVisible_of_digit {b : UInt8} (hb : isDigit b = true) :
    isVisible b = true := by
  simp only [isDigit, isVisible, visible, Bool.and_eq_true, decide_eq_true_eq,
    bne_iff_ne] at *
  omega

theorem IsVersion.isVisible {s : List UInt8} (h : IsVersion s) :
    ∀ b ∈ s, HttpMessage.isVisible b = true := by
  unfold IsVersion at h
  split at h
  next major minor =>
    have hmajor := isVisible_of_digit h.1
    have hminor := isVisible_of_digit h.2
    simp only [List.forall_mem_cons, hmajor, hminor]
    decide
  · exact h.elim

theorem isVisible_of_token {b : UInt8} (hb : isToken b = true) :
    isVisible b = true := by
  have hall : ∀ n < 0x80, ((Char.ofNat n).isAlphanum ||
      "!#$%&'*+-.^_`|~".toList.contains (Char.ofNat n)) = true →
      (0x20 < n && n != 0x7F) = true := by
    decide
  obtain ⟨hascii, hchar⟩ := Bool.and_eq_true_iff.mp hb
  exact hall b.toNat (by simpa using hascii) hchar

theorem length_le_ended (lines : List (List UInt8)) :
    lines.length ≤ (ended lines).length := by
  induction lines with
  | nil => exact Nat.zero_le _
  | cons line lines ih =>
      have hcons := ended_cons line lines []
      rw [List.append_nil, List.append_nil] at hcons
      simp only [hcons, List.length_append, List.length_cons, crlf]
      omega

/-- The bytes are fuel enough for their lines. -/
theorem length_lt_ended {fields : List Field} {lines : List (List UInt8)}
    (h : fields.length = lines.length) (rest : List UInt8) :
    fields.length < (ended lines ++ (crlf ++ rest)).length := by
  have hle := length_le_ended lines
  simp only [List.length_append, crlf, List.length_cons]
  omega

theorem isVisible_of_mem_method (r : Request) :
    ∀ b ∈ r.method, isVisible b = true :=
  fun b hb => isVisible_of_token (r.isMethod.2 b hb)

/-- A request line contains neither CR nor LF. -/
theorem Request.not_mem_line (r : Request) {b : UInt8}
    (hb : HttpMessage.isVisible b = false) (hspace : b ≠ 0x20) :
    b ∉ r.line := by
  simp only [Request.line, requestLine, List.mem_append, List.mem_cons,
    not_or]
  exact ⟨not_mem_of_all (isVisible_of_mem_method r) hb, hspace,
    not_mem_of_all r.isTarget.2 hb, hspace,
    not_mem_of_all r.isVersion.isVisible hb⟩

/-- A byte string begins with a request exactly when the request has been
written there. -/
theorem parse_eq_some_iff {bs rest : List UInt8} {r : Request} :
    parse bs = some (r, rest) ↔ ∃ lines,
      List.Forall₂ Field.WrittenAs r.fields lines ∧
      bs = r.line ++ (crlf ++ (ended lines ++ (crlf ++ (r.body ++ rest)))) := by
  constructor
  · intro h
    obtain ⟨⟨line, bs₁⟩, hline, h⟩ := Option.bind_eq_some_iff.mp h
    obtain ⟨⟨m, t, v⟩, hparts, h⟩ := Option.bind_eq_some_iff.mp h
    obtain ⟨⟨fields, bs₂⟩, hfields, h⟩ := Option.bind_eq_some_iff.mp h
    obtain ⟨length, -, h⟩ := Option.bind_eq_some_iff.mp h
    obtain ⟨⟨body, bs₃⟩, hbody, h⟩ := Option.bind_eq_some_iff.mp h
    obtain ⟨r', hr, h⟩ := Option.bind_eq_some_iff.mp h
    cases h
    obtain ⟨rfl, rfl, rfl, rfl, rfl⟩ := Request.ofParts_eq_some_iff.mp hr
    obtain ⟨-, lines, hwritten, rfl⟩ := takeFields_eq_some_iff.mp hfields
    obtain ⟨rfl, -⟩ := takeExact_eq_some_iff.mp hbody
    refine ⟨lines, hwritten, ?_⟩
    rw [takeLine_eq_some hline, readRequestLine_eq_some hparts, Request.line,
      requestLine]
  · rintro ⟨lines, hwritten, rfl⟩
    have hspace : isVisible 0x20 = false := by decide
    have hline : 0x0D ∉ r.line := r.not_mem_line (by decide) (by decide)
    have hparts : readRequestLine r.line =
        some (r.method, r.target, r.version) :=
      readRequestLine_append
        (not_mem_of_all (isVisible_of_mem_method r) hspace)
        (not_mem_of_all r.isTarget.2 hspace)
        (not_mem_of_all r.isVersion.isVisible hspace)
    have hfields : takeFields
        (ended lines ++ (crlf ++ (r.body ++ rest))).length
        (ended lines ++ (crlf ++ (r.body ++ rest))) =
          some (r.fields, r.body ++ rest) :=
      takeFields_eq_some_iff.mpr
        ⟨length_lt_ended hwritten.length_eq _, lines, hwritten, rfl⟩
    have hrequest : Request.ofParts r.method r.target r.version r.fields
        r.body = some r :=
      Request.ofParts_eq_some_iff.mpr ⟨rfl, rfl, rfl, rfl, rfl⟩
    simp only [parse, takeLine_append hline, hparts, hfields, r.framed,
      takeExact_append, hrequest, Option.bind_eq_bind, Option.bind_some,
      Option.pure_def]

end HttpMessage
