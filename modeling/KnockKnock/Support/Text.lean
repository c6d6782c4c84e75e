import KnockKnock.Support.Spans

/-!
# Text operations of the standard library

The `str` methods the programs under study call, on lists of scalar values.
-/

namespace Str

/-- The characters with the Unicode property `White_Space`. -/
def isWhitespace (c : Char) : Bool :=
  let n := c.toNat
  (0x9 ≤ n && n ≤ 0xD) || n == 0x20 || n == 0x85 || n == 0xA0 ||
    n == 0x1680 || (0x2000 ≤ n && n ≤ 0x200A) || n == 0x2028 ||
    n == 0x2029 || n == 0x202F || n == 0x205F || n == 0x3000

/-- `s.to_ascii_lowercase()` -/
def toAsciiLowercase (s : List Char) : List Char := s.map Char.toLower

/-- `a.eq_ignore_ascii_case(b)` -/
def eqIgnoreAsciiCase (a b : List Char) : Bool :=
  toAsciiLowercase a == toAsciiLowercase b

/-- `s.trim_start()` -/
def trimStart (s : List Char) : List Char := s.dropWhile isWhitespace

/-- `s.trim_end()` -/
def trimEnd (s : List Char) : List Char := s.rdropWhile isWhitespace

/-- `s.trim()` -/
def trim (s : List Char) : List Char := trimEnd (trimStart s)

/-- `s.strip_prefix(p)` -/
def stripPrefix (p s : List Char) : Option (List Char) :=
  if p <+: s then some (s.drop p.length) else none

/-- `s.strip_suffix(p)` -/
def stripSuffix (p s : List Char) : Option (List Char) :=
  if p <:+ s then some (s.take (s.length - p.length)) else none

/-- `s.rsplit_once(c)` -/
def rsplitOnce (c : Char) : List Char → Option (List Char × List Char)
  | [] => none
  | d :: s =>
      match rsplitOnce c s with
      | some (front, back) => some (d :: front, back)
      | none => if d = c then some ([], s) else none

/-- `s.split_inclusive('\n')` -/
def splitLines : List Char → List (List Char)
  | [] => []
  | c :: s =>
      if c = '\n' then [c] :: splitLines s
      else
        match splitLines s with
        | line :: lines => (c :: line) :: lines
        | [] => [[c]]

/-- A line without the `\n` or `\r\n` that ends it. -/
def chomp (line : List Char) : List Char :=
  match stripSuffix ['\n'] line with
  | some line => (stripSuffix ['\r'] line).getD line
  | none => line

/-- `s.lines()` -/
def lines (s : List Char) : List (List Char) := (splitLines s).map chomp

/-- `s.split_whitespace()` -/
def splitWhitespace (s : List Char) : List (List Char) :=
  (s.splitOnP isWhitespace).filter (· ≠ [])

/-- `s.contains(w)` -/
def contains (s w : List Char) : Bool := decide (w <:+: s)

/-- `s.split(w).next()`: the text in front of the first `w`. -/
def beforeFirst (w : List Char) : List Char → List Char
  | [] => []
  | c :: s => if w <+: c :: s then [] else c :: beforeFirst w s

theorem beforeFirst_isPrefix (w s : List Char) : beforeFirst w s <+: s := by
  induction s with
  | nil => exact List.prefix_rfl
  | cons c s ih =>
      unfold beforeFirst
      split
      · exact List.nil_prefix
      · exact List.cons_prefix_cons.mpr ⟨rfl, ih⟩

theorem stripPrefix_eq_some_iff {p s rest : List Char} :
    stripPrefix p s = some rest ↔ s = p ++ rest := by
  unfold stripPrefix
  constructor
  · intro h
    split at h
    next hp =>
      obtain ⟨tail, rfl⟩ := hp
      simp at h
      rw [h]
    · cases h
  · rintro rfl
    simp

theorem rsplitOnce_eq_none_iff {c : Char} {s : List Char} :
    rsplitOnce c s = none ↔ c ∉ s := by
  induction s with
  | nil => simp [rsplitOnce]
  | cons d s ih =>
      unfold rsplitOnce
      cases h : rsplitOnce c s with
      | none =>
          rw [h] at ih
          have hs := ih.mp rfl
          by_cases hd : d = c
          · simp [hd]
          · simp [hd, hs, Ne.symm hd]
      | some split =>
          rw [h] at ih
          have hs : c ∈ s := by simpa using ih
          simp [hs]

/-- The last occurrence of a letter splits the text. -/
theorem rsplitOnce_append {c : Char} {back : List Char} (hback : c ∉ back)
    (front : List Char) :
    rsplitOnce c (front ++ c :: back) = some (front, back) := by
  induction front with
  | nil => simp [rsplitOnce, rsplitOnce_eq_none_iff.mpr hback]
  | cons d front ih => simp [rsplitOnce, ih]

theorem exists_last_occurrence {c : Char} {s : List Char} (h : c ∈ s) :
    ∃ front back, s = front ++ c :: back ∧ c ∉ back := by
  induction s with
  | nil => simp at h
  | cons d s ih =>
      by_cases hs : c ∈ s
      · obtain ⟨front, back, rfl, hback⟩ := ih hs
        exact ⟨d :: front, back, rfl, hback⟩
      · obtain rfl := (List.mem_cons.mp h).resolve_right hs
        exact ⟨[], s, rfl, hs⟩

theorem contains_singleton_iff {s : List Char} {c : Char} :
    contains s [c] = true ↔ c ∈ s := by
  simp [contains, List.singleton_infix_iff]

theorem stripSuffix_append (p s : List Char) :
    stripSuffix p (s ++ p) = some s := by
  rw [stripSuffix, if_pos (List.suffix_append s p), List.length_append,
    Nat.add_sub_cancel, List.take_left]

theorem stripSuffix_of_not_mem {c : Char} {s : List Char} (hc : c ∉ s) :
    stripSuffix [c] s = none := by
  rw [stripSuffix, if_neg]
  intro h
  exact hc (h.subset List.mem_cons_self)

theorem splitLines_append {line : List Char} (hline : '\n' ∉ line)
    (rest : List Char) :
    splitLines (line ++ '\n' :: rest) =
      (line ++ ['\n']) :: splitLines rest := by
  induction line with
  | nil => rfl
  | cons c line ih =>
      rw [List.mem_cons, not_or] at hline
      rw [List.cons_append, splitLines, if_neg (Ne.symm hline.1),
        ih hline.2]
      rfl

theorem splitLines_of_not_mem {line : List Char} (hne : line ≠ [])
    (hline : '\n' ∉ line) : splitLines line = [line] := by
  induction line with
  | nil => exact absurd rfl hne
  | cons c line ih =>
      rw [List.mem_cons, not_or] at hline
      rw [splitLines, if_neg (Ne.symm hline.1)]
      cases line with
      | nil => rfl
      | cons d line => rw [ih (by simp) hline.2]

/-- What a line feed ends is a line. -/
theorem lines_lf {line : List Char} (hlf : '\n' ∉ line)
    (hcr : line.getLast? ≠ some '\r') (rest : List Char) :
    lines (line ++ '\n' :: rest) = line :: lines rest := by
  have hkept : stripSuffix ['\r'] line = none :=
    if_neg (mt List.singleton_suffix_iff_getLast?_eq_some.mp hcr)
  have hchomp : chomp (line ++ ['\n']) = line := by
    rw [chomp, stripSuffix_append]
    dsimp only
    rw [hkept]
    rfl
  rw [lines, splitLines_append hlf, List.map_cons, hchomp]
  rfl

/-- A carriage return in front of the line feed belongs to the line end. -/
theorem lines_crlf {line : List Char} (hlf : '\n' ∉ line)
    (rest : List Char) :
    lines (line ++ '\r' :: '\n' :: rest) = line :: lines rest := by
  have hlf' : '\n' ∉ line ++ ['\r'] := by
    rw [List.mem_append, not_or]
    exact ⟨hlf, by decide⟩
  have hsplit := splitLines_append hlf' rest
  rw [List.append_assoc] at hsplit
  have hchomp : chomp (line ++ ['\r'] ++ ['\n']) = line := by
    rw [chomp, stripSuffix_append]
    dsimp only
    rw [stripSuffix_append]
    rfl
  change (splitLines (line ++ (['\r'] ++ '\n' :: rest))).map chomp = _
  rw [hsplit, List.map_cons, hchomp]
  rfl

/-- The last line need not be ended. -/
theorem lines_of_not_mem {line : List Char} (hne : line ≠ [])
    (hlf : '\n' ∉ line) : lines line = [line] := by
  rw [lines, splitLines_of_not_mem hne hlf, List.map_singleton, chomp,
    stripSuffix_of_not_mem hlf]

/-- A line with a line end of either kind. -/
def endLine (crlf : Bool) (line : List Char) : List Char :=
  line ++ if crlf then ['\r', '\n'] else ['\n']

/-- A text written line by line is read line by line, for every mix of line
ends. -/
theorem lines_endLines {written : List (Bool × List Char)}
    (hlf : ∀ w ∈ written, '\n' ∉ w.2)
    (hcr : ∀ w ∈ written, w.2.getLast? ≠ some '\r') (rest : List Char) :
    lines (written.flatMap (fun w => endLine w.1 w.2) ++ rest) =
      written.map Prod.snd ++ lines rest := by
  induction written with
  | nil => rfl
  | cons w written ih =>
      obtain ⟨hlf, hlfs⟩ := List.forall_mem_cons.mp hlf
      obtain ⟨hcr, hcrs⟩ := List.forall_mem_cons.mp hcr
      have hline : ∀ t, lines (endLine w.1 w.2 ++ t) = w.2 :: lines t := by
        intro t
        unfold endLine
        rw [List.append_assoc]
        cases w.1 with
        | true => exact lines_crlf hlf t
        | false => exact lines_lf hlf hcr t
      rw [List.flatMap_cons, List.append_assoc, hline, ih hlfs hcrs]
      rfl

/-- The first line goes up to the first line end, or to the end of the
text. -/
theorem head_lines {line rest : List Char} (hne : line ≠ [])
    (hlf : '\n' ∉ line)
    (hrest : rest = [] ∨ ∃ t, rest = '\r' :: '\n' :: t) :
    (lines (line ++ rest)).head? = some line := by
  rcases hrest with rfl | ⟨t, rfl⟩
  · rw [List.append_nil, lines_of_not_mem hne hlf]
    rfl
  · rw [lines_crlf hlf]
    rfl

/-- The text in front of the first `w` is found if no earlier letter could
begin `w`. -/
theorem beforeFirst_append {c : Char} {s : List Char} (hs : c ∉ s)
    (w rest : List Char) :
    beforeFirst (c :: w) (s ++ (c :: w ++ rest)) = s := by
  induction s with
  | nil => exact if_pos (List.prefix_append _ _)
  | cons d s ih =>
      rw [List.mem_cons, not_or] at hs
      have hhead : ¬c :: w <+: d :: (s ++ (c :: w ++ rest)) := by
        intro h
        exact hs.1 (List.cons_prefix_cons.mp h).1
      rw [List.cons_append, beforeFirst, if_neg hhead, ih hs.2]

/-- A text of white space only. -/
def Blank (s : List Char) : Prop := ∀ c ∈ s, isWhitespace c = true

/-- What trimming cuts off in front. -/
def leading (s : List Char) : List Char := s.takeWhile isWhitespace

/-- What trimming cuts off behind. -/
def trailing (s : List Char) : List Char :=
  (trimStart s).rtakeWhile isWhitespace

theorem blank_leading (s : List Char) : Blank (leading s) :=
  fun _ hc => List.mem_takeWhile_imp hc

theorem blank_trailing (s : List Char) : Blank (trailing s) :=
  fun _ hc => List.mem_rtakeWhile_imp hc

theorem leading_append_trim (s : List Char) :
    leading s ++ (trim s ++ trailing s) = s := by
  unfold leading trim trailing trimEnd
  rw [List.rdropWhile_append_rtakeWhile]
  exact List.takeWhile_append_dropWhile

/-- Trimming cuts white space off both ends. -/
theorem exists_trim (s : List Char) :
    ∃ before behind, Blank before ∧ Blank behind ∧
      s = before ++ (trim s ++ behind) :=
  ⟨_, _, blank_leading s, blank_trailing s, (leading_append_trim s).symm⟩

theorem trim_eq_self {s : List Char}
    (hs : ∀ c ∈ s, isWhitespace c = false) : trim s = s := by
  have hhead : trimStart s = s := by
    unfold trimStart
    cases s with
    | nil => rfl
    | cons c s => simp [hs c (by simp)]
  unfold trim trimEnd
  rw [hhead, List.rdropWhile_eq_self_iff]
  intro hne
  simp [hs _ (List.getLast_mem hne)]

/-- A character that is not white space stands in front of a blank end. -/
theorem split_before_blank {front back s w : List Char} {c : Char}
    (hw : Blank w) (hc : isWhitespace c = false)
    (h : front ++ c :: back = s ++ w) :
    ∃ back', s = front ++ c :: back' ∧ back = back' ++ w := by
  have hmem : c ∉ w := by
    intro hmem
    rw [hw c hmem] at hc
    cases hc
  obtain ⟨t, rfl, ht⟩ | ⟨t, -, rfl⟩ := List.append_eq_append_iff.mp h
  · obtain ⟨rfl, rfl⟩ | ⟨t, rfl, rfl⟩ := List.cons_eq_append_iff.mp ht
    · simp at hmem
    · exact ⟨t, rfl, rfl⟩
  · simp at hmem

/-- A character that is not white space stands behind a blank start. -/
theorem split_behind_blank {front back s w : List Char} {c : Char}
    (hw : Blank w) (hc : isWhitespace c = false)
    (h : front ++ c :: back = w ++ s) :
    ∃ front', front = w ++ front' ∧ s = front' ++ c :: back := by
  have hmem : c ∉ w := by
    intro hmem
    rw [hw c hmem] at hc
    cases hc
  obtain ⟨t, rfl, ht⟩ | ⟨t, rfl, ht⟩ := List.append_eq_append_iff.mp h
  · obtain ⟨rfl, rfl⟩ | ⟨t, rfl, rfl⟩ := List.cons_eq_append_iff.mp ht
    · exact ⟨[], by simp, rfl⟩
    · simp at hmem
  · exact ⟨t, rfl, ht⟩

/-- What trimming cuts off is white space. -/
theorem trim_eq_nil_iff {s : List Char} :
    trim s = [] ↔ ∀ c ∈ s, isWhitespace c = true := by
  unfold trim trimEnd trimStart
  rw [List.rdropWhile_eq_nil_iff]
  constructor
  · intro h
    have hnil : s.dropWhile isWhitespace = [] := by
      by_contra hne
      have hhead := List.head_dropWhile_not isWhitespace hne
      rw [h _ (List.head_mem hne)] at hhead
      cases hhead
    exact List.dropWhile_eq_nil_iff.mp hnil
  · intro h c hc
    exact h c ((List.dropWhile_sublist _).mem hc)

/-! ## Lines and words -/

theorem splitWhitespace_blank (s : List Char) :
    splitWhitespace (' ' :: s) = splitWhitespace s := by
  have hblank : isWhitespace ' ' = true := by decide
  have hsplit := List.splitOnP_append_cons [] s hblank
  rw [List.nil_append] at hsplit
  rw [splitWhitespace, hsplit]
  rfl

/-- A word in front of a blank, or of nothing, is split off. -/
theorem splitWhitespace_word {word rest : List Char} (hne : word ≠ [])
    (hword : ∀ c ∈ word, isWhitespace c = false)
    (hrest : rest = [] ∨ ∃ t, rest = ' ' :: t) :
    splitWhitespace (word ++ rest) = word :: splitWhitespace rest := by
  have hkeep : ∀ words : List (List Char),
      (word :: words).filter (· ≠ []) = word :: words.filter (· ≠ []) :=
    fun words => List.filter_cons_of_pos (by simpa using hne)
  rcases hrest with rfl | ⟨t, rfl⟩
  · rw [List.append_nil, splitWhitespace, List.splitOnP_eq_singleton hword,
      hkeep]
    rfl
  · have hblank : isWhitespace ' ' = true := by decide
    have hsplit : (word ++ ' ' :: t).splitOnP isWhitespace =
        word :: t.splitOnP isWhitespace := by
      rw [List.splitOnP_append_cons _ _ hblank,
        List.splitOnP_eq_singleton hword]
      rfl
    rw [splitWhitespace, hsplit, hkeep, splitWhitespace_blank]
    rfl

theorem chomp_isPrefix (line : List Char) : chomp line <+: line := by
  have hstrip : ∀ (p s t : List Char), stripSuffix p s = some t → t <+: s := by
    intro p s t h
    unfold stripSuffix at h
    split at h
    · rw [← Option.some.inj h]
      exact List.take_prefix _ _
    · cases h
  unfold chomp
  cases hlf : stripSuffix ['\n'] line with
  | none => exact List.prefix_rfl
  | some front =>
      dsimp only
      cases hcr : stripSuffix ['\r'] front with
      | none => exact hstrip _ _ _ hlf
      | some front' => exact (hstrip _ _ _ hcr).trans (hstrip _ _ _ hlf)

/-- The first line begins the text, the others begin behind a line feed. -/
theorem begins_of_splitLines {s line : List Char} {rest : List (List Char)}
    (h : splitLines s = line :: rest) :
    line <+: s ∧ ∀ l ∈ rest, '\n' :: l <:+: s := by
  induction s generalizing line rest with
  | nil => cases h
  | cons c s ih =>
      unfold splitLines at h
      by_cases hc : c = '\n'
      · subst hc
        rw [if_pos rfl] at h
        obtain ⟨rfl, rfl⟩ := List.cons.inj h
        refine ⟨⟨s, rfl⟩, fun l hl => ?_⟩
        cases hs : splitLines s with
        | nil =>
            rw [hs] at hl
            cases hl
        | cons first others =>
            obtain ⟨hfirst, hothers⟩ := ih hs
            rw [hs] at hl
            rcases List.mem_cons.mp hl with rfl | hl
            · exact (List.cons_prefix_cons.mpr ⟨rfl, hfirst⟩).isInfix
            · exact List.infix_cons (hothers l hl)
      · rw [if_neg hc] at h
        cases hs : splitLines s with
        | nil =>
            rw [hs] at h
            obtain ⟨rfl, rfl⟩ := List.cons.inj h
            exact ⟨⟨s, rfl⟩, nofun⟩
        | cons first others =>
            obtain ⟨hfirst, hothers⟩ := ih hs
            rw [hs] at h
            obtain ⟨rfl, rfl⟩ := List.cons.inj h
            exact ⟨List.cons_prefix_cons.mpr ⟨rfl, hfirst⟩,
              fun l hl => List.infix_cons (hothers l hl)⟩

/-- A line begins like the text, or like something behind a line feed. -/
theorem begins_of_mem_lines {s line : List Char} {c : Char}
    (h : c :: line ∈ lines s) : s.head? = some c ∨ ['\n', c] <:+: s := by
  obtain ⟨line', hline', hchomp⟩ := List.mem_map.mp h
  obtain ⟨more, hmore⟩ : c :: line <+: line' := hchomp ▸ chomp_isPrefix line'
  cases hs : splitLines s with
  | nil =>
      rw [hs] at hline'
      cases hline'
  | cons first others =>
      obtain ⟨hfirst, hothers⟩ := begins_of_splitLines hs
      rw [hs, ← hmore] at hline'
      rcases List.mem_cons.mp hline' with rfl | hmem
      · obtain ⟨t, rfl⟩ := hfirst
        exact .inl rfl
      · refine .inr (List.IsInfix.trans ?_ (hothers _ hmem))
        exact (List.prefix_append ['\n', c] (line ++ more)).isInfix

/-- The first line keeps what stands in front of a blank. -/
theorem exists_head_lines {front rest : List Char} (hne : front ≠ [])
    (hlf : '\n' ∉ front) (hrest : rest = [] ∨ ∃ t, rest = ' ' :: t) :
    ∃ tail, (lines (front ++ rest)).head? = some (front ++ tail) ∧
      (tail = [] ∨ ∃ t, tail = ' ' :: t) := by
  rcases hrest with rfl | ⟨t, rfl⟩
  · refine ⟨[], ?_, .inl rfl⟩
    rw [List.append_nil, lines_of_not_mem hne hlf]
    rfl
  by_cases hmem : '\n' ∈ t
  · obtain ⟨a, b, rfl, ha⟩ := List.eq_append_cons_of_mem hmem
    have hfront : '\n' ∉ front ++ ' ' :: a := by
      rw [List.mem_append, List.mem_cons, not_or, not_or]
      exact ⟨hlf, by decide, ha⟩
    have hhead : (lines (front ++ ' ' :: (a ++ '\n' :: b))).head? =
        some (chomp (front ++ ' ' :: a ++ ['\n'])) := by
      have hsplit := splitLines_append hfront b
      rw [List.append_assoc, List.cons_append] at hsplit
      rw [lines, hsplit]
      rfl
    rw [hhead, chomp, stripSuffix_append]
    dsimp only
    by_cases hcr : ['\r'] <:+ ' ' :: a
    · obtain ⟨_ | ⟨c, a⟩, ha⟩ := hcr
      · exact absurd (List.cons.inj ha).1 (by decide)
      obtain ⟨rfl, rfl⟩ := List.cons.inj ha
      refine ⟨' ' :: a, ?_, .inr ⟨a, rfl⟩⟩
      have hstrip := stripSuffix_append ['\r'] (front ++ ' ' :: a)
      rw [List.append_assoc] at hstrip
      exact congrArg some (congrArg (Option.getD · _) hstrip)
    · refine ⟨' ' :: a, ?_, .inr ⟨a, rfl⟩⟩
      rw [stripSuffix, if_neg]
      · rfl
      · rwa [List.singleton_suffix_iff_getLast?_eq_some,
          List.getLast?_append_of_ne_nil _ (List.cons_ne_nil _ _),
          ← List.singleton_suffix_iff_getLast?_eq_some]
  · have hfront : '\n' ∉ front ++ ' ' :: t := by
      rw [List.mem_append, List.mem_cons, not_or, not_or]
      exact ⟨hlf, by decide, hmem⟩
    refine ⟨' ' :: t, ?_, .inr ⟨t, rfl⟩⟩
    rw [lines_of_not_mem (by simp) hfront]
    rfl

end Str
