import KnockKnock.Support.HttpMessage

/-!
# Writing HTTP/1.1 requests

Code that splices texts into a request writes bytes, whatever is in the texts.
`parse_written_iff` says when the bytes are the request that was meant: a
target or a field value that may not stand in a message never goes unnoticed.
-/

namespace HttpMessage

open Spans

/-- A field line as it is usually written. -/
def fieldLine (pair : List UInt8 × List UInt8) : List UInt8 :=
  pair.1 ++ 0x3A :: 0x20 :: pair.2

/-- A request line and field lines, whatever is in their parts. -/
def written (method target version : List UInt8)
    (pairs : List (List UInt8 × List UInt8)) : List UInt8 :=
  requestLine method target version ++
    (crlf ++ (ended (pairs.map fieldLine) ++ crlf))

/-- A request has the method, the version and the fields of what was
written. -/
structure Request.Matches (r : Request) (method version : List UInt8)
    (pairs : List (List UInt8 × List UInt8)) : Prop where
  method : r.method = method
  version : r.version = version
  fields : r.fields.map Field.pair = pairs

variable {method target version rest trailer : List UInt8}
  {pairs : List (List UInt8 × List UInt8)}

theorem Field.writtenAs_fieldLine (f : Field) :
    f.WrittenAs (fieldLine f.pair) :=
  ⟨[0x20], [], by decide, by simp, by simp [fieldLine, Field.pair]⟩

theorem forall_writtenAs (fields : List Field) :
    List.Forall₂ Field.WrittenAs fields
      ((fields.map Field.pair).map fieldLine) := by
  rw [List.forall₂_map_right_iff, List.forall₂_map_right_iff,
    List.forall₂_same]
  exact fun f _ => f.writtenAs_fieldLine

/-- Pairs whose parts may stand in a message are fields. -/
theorem exists_fields
    (hpairs : ∀ pair ∈ pairs, IsToken pair.1 ∧ IsValue pair.2) :
    ∃ fields : List Field, fields.map Field.pair = pairs := by
  induction pairs with
  | nil => exact ⟨[], rfl⟩
  | cons pair pairs ih =>
      obtain ⟨⟨hname, hvalue⟩, hpairs⟩ := List.forall_mem_cons.mp hpairs
      obtain ⟨fields, rfl⟩ := ih hpairs
      exact ⟨⟨pair.1, pair.2, hname, hvalue⟩ :: fields, rfl⟩

/-- Parts that may stand in a message read back. -/
theorem parse_written (hmethod : IsToken method) (htarget : IsTarget target)
    (hversion : IsVersion version)
    (hpairs : ∀ pair ∈ pairs, IsToken pair.1 ∧ IsValue pair.2)
    (hlength : contentLength pairs = some trailer.length) :
    ∃ r : Request, parse (written method target version pairs ++ trailer) =
      some (r, []) ∧ r.Matches method version pairs := by
  obtain ⟨fields, rfl⟩ := exists_fields hpairs
  refine ⟨⟨method, target, version, fields, trailer, hmethod, htarget,
    hversion, hlength⟩, ?_, rfl, rfl, rfl⟩
  refine parse_eq_some_iff.mpr ⟨_, forall_writtenAs fields, ?_⟩
  simp [written, Request.line]

/-! ## Counting lines -/

theorem count_ended {fields : List Field} {lines : List (List UInt8)}
    (h : List.Forall₂ Field.WrittenAs fields lines) :
    (ended lines).count 0x0A = fields.length := by
  induction h with
  | nil => rfl
  | @cons f line fields lines hf hfields ih =>
      have hline : 0x0A ∉ line :=
        hf.not_mem (by decide) (by decide) (by decide)
      have hcons := ended_cons line lines []
      rw [List.append_nil, List.append_nil] at hcons
      have hcrlf : crlf.count 0x0A = 1 := by decide
      rw [hcons, List.count_append, List.count_append, ih,
        List.count_eq_zero.mpr hline, hcrlf, List.length_cons]
      omega

/-- A head has a line feed for its request line, for each field and for the
empty line, and those in its target. -/
theorem count_written {r : Request} (hmatch : r.Matches method version pairs) :
    (written method target version pairs).count 0x0A =
      target.count 0x0A + 2 + pairs.length := by
  have hmethod : method.count 0x0A = 0 := by
    rw [← hmatch.method]
    exact List.count_eq_zero.mpr
      (not_mem_of_all (isVisible_of_mem_method r) (by decide))
  have hversion : version.count 0x0A = 0 := by
    rw [← hmatch.version]
    exact List.count_eq_zero.mpr
      (not_mem_of_all r.isVersion.isVisible (by decide))
  have hfields := count_ended (forall_writtenAs r.fields)
  rw [hmatch.fields] at hfields
  have hlength : r.fields.length = pairs.length := by
    rw [← hmatch.fields, List.length_map]
  have hcrlf : crlf.count 0x0A = 1 := by decide
  simp [written, requestLine, List.count_append, hmethod, hversion, hfields,
    hcrlf, hlength]
  omega

/-- What a request is read from up to its body. -/
def Request.head (r : Request) (lines : List (List UInt8)) : List UInt8 :=
  r.line ++ (crlf ++ (ended lines ++ crlf))

theorem Request.count_head {r : Request} {lines : List (List UInt8)}
    (h : List.Forall₂ Field.WrittenAs r.fields lines) :
    (r.head lines).count 0x0A = 2 + r.fields.length := by
  have hline : r.line.count 0x0A = 0 :=
    List.count_eq_zero.mpr (r.not_mem_line (by decide) (by decide))
  have hcrlf : crlf.count 0x0A = 1 := by decide
  simp only [Request.head, List.count_append, hline, count_ended h, hcrlf]
  omega

/-- A head ends with a line feed. -/
theorem Request.eq_nil_of_head {r : Request} {lines : List (List UInt8)}
    {front tail : List UInt8} (h : r.head lines = front ++ tail)
    (htail : 0x0A ∉ tail) : tail = [] := by
  rcases tail.eq_nil_or_concat with rfl | ⟨init, b, rfl⟩
  · rfl
  · have hend : (r.line ++ (crlf ++ (ended lines ++ [0x0D]))) ++ [0x0A] =
        (front ++ init) ++ [b] := by
      simpa [Request.head, crlf] using h
    obtain ⟨-, hb⟩ := List.append_inj' hend rfl
    cases hb
    simp at htail

theorem line_unique {x y z w : List UInt8} (hx : 0x0A ∉ x) (hy : 0x0A ∉ y)
    (h : x ++ (crlf ++ z) = y ++ (crlf ++ w)) : x = y := by
  have hsplit : (x ++ [0x0D]) ++ 0x0A :: z = (y ++ [0x0D]) ++ 0x0A :: w := by
    simpa [crlf] using h
  have heq := (split_unique (by simpa using hx) (by simpa using hy) hsplit).1
  exact List.append_cancel_right heq

/-- Two splittings of one word, of which the second part of the one is at most
as long as that of the other. -/
theorem exists_middle {x y z w : List UInt8} (h : x ++ y = z ++ w)
    (hle : w.length ≤ y.length) : ∃ tail, z = x ++ tail ∧ y = tail ++ w := by
  obtain ⟨tail, hz, hy⟩ | ⟨tail, hx, hw⟩ := List.append_eq_append_iff.mp h
  · exact ⟨tail, hz, hy⟩
  · have hnil : tail = [] := by
      rw [hw, List.length_append] at hle
      exact List.eq_nil_of_length_eq_zero (by omega)
    subst hnil
    exact ⟨[], by simpa using hx.symm, by simpa using hw.symm⟩

/-- Where what was written reads as one request of that method, version and
fields, the target and the body are what was written as well. -/
theorem eq_of_parse_written {r : Request} {n : ℕ}
    (hparse : parse (written method target version pairs ++ trailer) =
      some (r, []))
    (hmatch : r.Matches method version pairs)
    (hlength : contentLength pairs = some n) (hn : n ≤ trailer.length) :
    r.target = target ∧ r.body = trailer := by
  obtain ⟨lines, hwritten, hbytes⟩ := parse_eq_some_iff.mp hparse
  have hbody : r.body.length = n := by
    have hframed := r.framed
    rw [hmatch.fields, hlength] at hframed
    exact (Option.some.inj hframed).symm
  have hfields : r.fields.length = pairs.length := by
    rw [← hmatch.fields, List.length_map]
  have hsplit : written method target version pairs ++ trailer =
      r.head lines ++ r.body := by
    rw [hbytes]
    simp [Request.head]
  -- The body is no longer than the trailer, so the head that was written lies
  -- in front of the head that was read; they have as many line feeds.
  obtain ⟨tail, hhead, htrailer⟩ := exists_middle hsplit (by omega)
  have hcount := congrArg (List.count 0x0A) hhead
  rw [Request.count_head hwritten, List.count_append, count_written hmatch,
    hfields] at hcount
  have hnil : tail = [] :=
    Request.eq_nil_of_head hhead (List.count_eq_zero.mp (by omega))
  subst hnil
  refine ⟨?_, htrailer.symm⟩
  have htarget : 0x0A ∉ target := List.count_eq_zero.mp (by omega)
  have hline : r.line = requestLine method target version := by
    have heq : r.line ++ (crlf ++ (ended lines ++ crlf)) =
        requestLine method target version ++
          (crlf ++ (ended (pairs.map fieldLine) ++ crlf)) := by
      simpa [Request.head, written] using hhead
    refine line_unique (r.not_mem_line (by decide) (by decide)) ?_ heq
    simp only [requestLine, ← hmatch.method, ← hmatch.version, List.mem_append,
      List.mem_cons, not_or]
    exact ⟨not_mem_of_all (isVisible_of_mem_method r) (by decide), by decide,
      htarget, by decide, not_mem_of_all r.isVersion.isVisible (by decide)⟩
  rw [Request.line, requestLine, requestLine, hmatch.method, hmatch.version]
    at hline
  simpa using hline

/-- What was written reads back as one request, with nothing left over,
exactly when its target, its field values and the length of its body may stand
in a message. -/
theorem parse_written_iff {n : ℕ} (hmethod : IsToken method)
    (hversion : IsVersion version) (hnames : ∀ pair ∈ pairs, IsToken pair.1)
    (hlength : contentLength pairs = some n) (hn : n ≤ trailer.length) :
    (∃ r : Request, parse (written method target version pairs ++ trailer) =
      some (r, []) ∧ r.Matches method version pairs) ↔
      IsTarget target ∧ (∀ pair ∈ pairs, IsValue pair.2) ∧
        trailer.length = n := by
  constructor
  · rintro ⟨r, hparse, hmatch⟩
    obtain ⟨htarget, hbody⟩ := eq_of_parse_written hparse hmatch hlength hn
    refine ⟨htarget ▸ r.isTarget, ?_, ?_⟩
    · rw [← hmatch.fields]
      intro pair hpair
      obtain ⟨f, -, rfl⟩ := List.mem_map.mp hpair
      exact f.isValue
    · have hframed := r.framed
      rw [hmatch.fields, hlength, hbody] at hframed
      exact (Option.some.inj hframed).symm
  · rintro ⟨htarget, hvalues, rfl⟩
    exact parse_written hmethod htarget hversion
      (fun pair hpair => ⟨hnames pair hpair, hvalues pair hpair⟩) hlength

end HttpMessage
