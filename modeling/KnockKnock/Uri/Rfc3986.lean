import KnockKnock.Uri.Scanning

/-!
# Reading the URLs of RFC 3986

`Url` is the generic syntax with an authority: a scheme, user information that
may hold any unreserved character, sub-delimiter, `%`-escape or colon, a
registered name or IPv4 address, a decimal port, and a path, query and
fragment.  Its text is read back group by group; only the user information and
an empty host can be read as something else.
-/

namespace KnockKnock

open Numeral Reading Spans

namespace Rfc3986

/-! ## The grammar -/

def isHex (c : Char) : Bool := c.isDigit || "abcdefABCDEF".toList.contains c

/-- Letters, digits and the characters of `marks`. -/
def letterOr (marks : Text) (c : Char) : Bool :=
  c.isAlphanum || marks.contains c

/-- Characters of the class `p` and `%`-escapes. -/
def escaped (p : Char → Bool) : Text → Bool
  | [] => true
  | '%' :: a :: b :: s => isHex a && isHex b && escaped p s
  | c :: s => p c && escaped p s

/-- The punctuation of `unreserved` and `sub-delims`. -/
def nameMarks : Text := "-._~!$&'()*+,;=".toList

/-- `ALPHA *( ALPHA / DIGIT / "+" / "-" / "." )` -/
def isScheme : Text → Bool
  | [] => false
  | c :: s => c.isAlpha && s.all (letterOr "+-.".toList)

def isUserinfo : Text → Bool := escaped (letterOr (':' :: nameMarks))

/-- Registered names, which include the IPv4 addresses. -/
def isHost : Text → Bool := escaped (letterOr nameMarks)

/-- `*( "/" segment )` -/
def isPath (path : Text) : Bool :=
  (path.head?.all (· == '/')) &&
    escaped (letterOr ('/' :: ':' :: '@' :: nameMarks)) path

def isQuery : Text → Bool :=
  escaped (letterOr ('?' :: '/' :: ':' :: '@' :: nameMarks))

/-- A URL with an authority. -/
structure Url where
  scheme : Text
  userinfo : Option Text
  host : Text
  port : Option Text
  path : Text
  query : Option Text
  fragment : Option Text
  scheme_ok : isScheme scheme = true
  userinfo_ok : ∀ info ∈ userinfo, isUserinfo info = true
  host_ok : isHost host = true
  port_ok : ∀ digits ∈ port, IsDigits digits ∧ value digits ≤ 65535
  path_ok : isPath path = true
  query_ok : ∀ q ∈ query, isQuery q = true
  fragment_ok : ∀ f ∈ fragment, isQuery f = true

namespace Url

variable (url : Url)

/-- A component behind the character that announces it. -/
def announced (mark : Char) : Option Text → Text
  | some s => mark :: s
  | none => []

/-- The host and the port. -/
def hostText : Text := url.host ++ announced ':' url.port

def authority : Text :=
  match url.userinfo with
  | some info => info ++ '@' :: url.hostText
  | none => url.hostText

def pathText : Text :=
  url.path ++ (announced '?' url.query ++ announced '#' url.fragment)

def text : Text :=
  url.scheme ++ ':' :: '/' :: '/' :: (url.authority ++ url.pathText)

/-- The number of the port, 0 without one. -/
def number : ℕ := (url.port.map value).getD 0

end Url

/-! ## The characters of the grammar -/

theorem isAlphanum_of_isHex {c : Char} (h : isHex c = true) :
    c.isAlphanum = true := by
  rcases Bool.or_eq_true_iff.mp h with h | h
  · simp [Char.isAlphanum, h]
  · have hall : ∀ d ∈ "abcdefABCDEF".toList, d.isAlphanum = true := by decide
    exact hall c (by simpa using h)

theorem letterOr_imp {marks : Text} {q : Char → Prop}
    (hletter : ∀ c : Char, c.isAlphanum = true → q c)
    (hmarks : ∀ c ∈ marks, q c) {c : Char} (hc : letterOr marks c = true) :
    q c := by
  rcases Bool.or_eq_true_iff.mp hc with hc | hc
  · exact hletter c hc
  · exact hmarks c (by simpa using hc)

/-- What letters, marks and `%` have in common, a component has. -/
theorem escaped_imp {marks s : Text} {q : Char → Prop}
    (hletter : ∀ c : Char, c.isAlphanum = true → q c)
    (hmarks : ∀ c ∈ '%' :: marks, q c)
    (h : escaped (letterOr marks) s = true) : ∀ c ∈ s, q c := by
  fun_induction escaped (letterOr marks) s with
  | case1 => simp
  | case2 a b s ih =>
      simp only [Bool.and_eq_true] at h
      intro c hc
      simp only [List.mem_cons] at hc
      rcases hc with rfl | rfl | rfl | hc
      · exact hmarks '%' (by simp)
      · exact hletter _ (isAlphanum_of_isHex h.1.1)
      · exact hletter _ (isAlphanum_of_isHex h.1.2)
      · exact ih h.2 c hc
  | case3 d s _ ih =>
      simp only [Bool.and_eq_true] at h
      intro c hc
      rcases List.mem_cons.mp hc with rfl | hc
      · exact letterOr_imp hletter
          (fun e he => hmarks e (List.mem_cons_of_mem _ he)) h.1
      · exact ih h.2 c hc

theorem isAlphanum_ne {c d : Char} (hc : c.isAlphanum = true)
    (hd : d.isAlphanum = false) : c ≠ d := by
  rintro rfl
  rw [hc] at hd
  cases hd

theorem domainChar_of_isAlphanum {c : Char} (hc : c.isAlphanum = true) :
    domainChar c = true := by
  have hne := fun d => isAlphanum_ne (d := d) hc
  simp [domainChar, hne '/' (by decide), hne '?' (by decide),
    hne '#' (by decide), hne ':' (by decide)]

theorem not_whitespace_of_isAlphanum {c : Char} (hc : c.isAlphanum = true) :
    Str.isWhitespace c = false :=
  isWhitespace_of_ascii_word (by simp [hc])

theorem toNat_lt_of_isAlphanum {c : Char} (hc : c.isAlphanum = true) :
    c.toNat < 128 := by
  simp only [Char.isAlphanum, Char.isAlpha, Char.isUpper, Char.isLower,
    Char.isDigit, ge_iff_le, Bool.or_eq_true, Bool.and_eq_true,
    decide_eq_true_eq, UInt32.le_iff_toNat_le] at hc
  change c.val.toNat < 128
  rcases hc with (hc | hc) | hc
  · exact lt_of_le_of_lt hc.2 (by decide)
  · exact lt_of_le_of_lt hc.2 (by decide)
  · exact lt_of_le_of_lt hc.2 (by decide)

namespace Url

variable {U : CharClasses} (url : Url)

theorem domainChar_of_mem_host : ∀ c ∈ url.host, domainChar c = true :=
  escaped_imp (fun _ => domainChar_of_isAlphanum) (by decide) url.host_ok

theorem at_not_mem_host : '@' ∉ url.host := by
  intro h
  have hne : ∀ c ∈ url.host, c ≠ '@' :=
    escaped_imp (fun _ hc => isAlphanum_ne hc (by decide)) (by decide)
      url.host_ok
  exact hne '@' h rfl

theorem isDigit_of_mem_port {digits : Text} (h : url.port = some digits) :
    ∀ c ∈ digits, c.isDigit = true :=
  (url.port_ok digits h).1.2

theorem at_not_mem_hostText : '@' ∉ url.hostText := by
  unfold hostText
  intro h
  rcases List.mem_append.mp h with h | h
  · exact url.at_not_mem_host h
  · cases hport : url.port with
    | none => simp [hport, announced] at h
    | some digits =>
        have hdigits : '@' ∈ digits := by
          simpa [hport, announced] using h
        exact absurd (url.isDigit_of_mem_port hport '@' hdigits) (by decide)

/-- What follows the authority begins with a delimiter of the pattern. -/
theorem head_pathText :
    ∀ c ∈ url.pathText.head?, c = '/' ∨ c = '?' ∨ c = '#' := by
  unfold pathText
  have hpath := (Bool.and_eq_true_iff.mp url.path_ok).1
  cases hp : url.path with
  | cons d path =>
      have hd : d = '/' := by simpa [hp] using hpath
      simp [hd]
  | nil => cases url.query <;> cases url.fragment <;> simp [announced]

theorem pathText_stops_credentials :
    ∀ c ∈ url.pathText.head?, U.word c = false ∧ c ≠ ':' ∧ c ≠ '@' := by
  intro c hc
  rcases url.head_pathText c hc with rfl | rfl | rfl
  · exact ⟨U.word_ascii '/' (by decide), by decide, by decide⟩
  · exact ⟨U.word_ascii '?' (by decide), by decide, by decide⟩
  · exact ⟨U.word_ascii '#' (by decide), by decide, by decide⟩

theorem pathText_stops_host :
    ∀ c ∈ url.pathText.head?,
      domainChar c = false ∧ c ≠ ':' ∧ U.digit c = false := by
  intro c hc
  rcases url.head_pathText c hc with rfl | rfl | rfl
  · exact ⟨by decide, by decide, U.digit_ascii '/' (by decide)⟩
  · exact ⟨by decide, by decide, U.digit_ascii '?' (by decide)⟩
  · exact ⟨by decide, by decide, U.digit_ascii '#' (by decide)⟩

theorem isScheme_chars {scheme : Text} (h : isScheme scheme = true) :
    scheme ≠ [] ∧ ∀ {q : Char → Prop},
      (∀ c : Char, c.isAlphanum = true → q c) → q '+' → q '-' → q '.' →
      ∀ c ∈ scheme, q c := by
  cases scheme with
  | nil => simp [isScheme] at h
  | cons d scheme =>
      obtain ⟨hd, hscheme⟩ := Bool.and_eq_true_iff.mp h
      refine ⟨by simp, fun hletter hplus hminus hdot c hc => ?_⟩
      rcases List.mem_cons.mp hc with rfl | hc
      · exact hletter c (by simp [Char.isAlphanum, hd])
      · refine letterOr_imp hletter ?_ (List.all_eq_true.mp hscheme c hc)
        intro e he
        simp only [show "+-.".toList = ['+', '-', '.'] from rfl,
          List.mem_cons, List.not_mem_nil, or_false] at he
        rcases he with rfl | rfl | rfl
        · exact hplus
        · exact hminus
        · exact hdot

theorem forall_mem_announced {q : Char → Prop} {mark : Char}
    {o : Option Text} (hmark : q mark) (ho : ∀ s ∈ o, ∀ c ∈ s, q c) :
    ∀ c ∈ announced mark o, q c := by
  intro c hc
  cases o with
  | none => simp [announced] at hc
  | some s =>
      rcases List.mem_cons.mp hc with rfl | hc
      · exact hmark
      · exact ho s rfl c hc

theorem not_whitespace_of_mem_authority :
    ∀ c ∈ url.authority, Str.isWhitespace c = false := by
  have hletter : ∀ c : Char, c.isAlphanum = true →
      Str.isWhitespace c = false := fun _ => not_whitespace_of_isAlphanum
  have hhost := escaped_imp hletter (by decide) url.host_ok
  have hinfo : ∀ info ∈ url.userinfo, ∀ c ∈ info,
      Str.isWhitespace c = false := fun info h =>
    escaped_imp hletter (by decide) (url.userinfo_ok info h)
  have hport : ∀ digits ∈ url.port, ∀ c ∈ digits,
      Str.isWhitespace c = false := fun digits h c hc =>
    hletter c (by simp [Char.isAlphanum, url.isDigit_of_mem_port h c hc])
  have hhostText : ∀ c ∈ url.hostText, Str.isWhitespace c = false := by
    intro c hc
    rcases List.mem_append.mp hc with hc | hc
    · exact hhost c hc
    · exact forall_mem_announced (by decide) hport c hc
  intro c hc
  unfold authority at hc
  split at hc
  next info hsome =>
    rcases List.mem_append.mp hc with hc | hc
    · exact hinfo info hsome c hc
    · rcases List.mem_cons.mp hc with rfl | hc
      · decide
      · exact hhostText c hc
  · exact hhostText c hc

theorem not_whitespace_of_mem_pathText :
    ∀ c ∈ url.pathText, Str.isWhitespace c = false := by
  have hletter : ∀ c : Char, c.isAlphanum = true →
      Str.isWhitespace c = false := fun _ => not_whitespace_of_isAlphanum
  have hpath := escaped_imp hletter (by decide)
    (Bool.and_eq_true_iff.mp url.path_ok).2
  have hquery : ∀ q ∈ url.query, ∀ c ∈ q, Str.isWhitespace c = false :=
    fun q h => escaped_imp hletter (by decide) (url.query_ok q h)
  have hfragment : ∀ f ∈ url.fragment, ∀ c ∈ f,
      Str.isWhitespace c = false :=
    fun f h => escaped_imp hletter (by decide) (url.fragment_ok f h)
  intro c hc
  unfold pathText at hc
  simp only [List.mem_append] at hc
  rcases hc with hc | hc | hc
  · exact hpath c hc
  · exact forall_mem_announced (by decide) hquery c hc
  · exact forall_mem_announced (by decide) hfragment c hc

theorem not_whitespace_of_mem_text :
    ∀ c ∈ url.text, Str.isWhitespace c = false := by
  have hscheme := (isScheme_chars url.scheme_ok).2
    (fun _ => not_whitespace_of_isAlphanum) (by decide) (by decide)
    (by decide)
  intro c hc
  unfold text at hc
  simp only [List.mem_append, List.mem_cons] at hc
  rcases hc with hc | rfl | rfl | rfl | hc | hc
  · exact hscheme c hc
  · decide
  · decide
  · decide
  · exact url.not_whitespace_of_mem_authority c hc
  · exact url.not_whitespace_of_mem_pathText c hc

theorem trim_text : Str.trim url.text = url.text :=
  Str.trim_eq_self url.not_whitespace_of_mem_text

/-! ## Reading -/

theorem scanScheme_text :
    scanScheme url.text = (some url.scheme, url.authority ++ url.pathText) := by
  obtain ⟨hne, hchars⟩ := isScheme_chars url.scheme_ok
  have hscheme : ∀ c ∈ url.scheme, schemeChar c = true := by
    refine hchars ?_ (by decide) (by decide) (by decide)
    exact fun _ hc => schemeChar_of_domainChar (domainChar_of_isAlphanum hc)
  exact scanScheme_eq_some_iff.mpr ⟨rfl, hne, hscheme⟩

/-- A domain with a decimal port behind it is read as just that. -/
theorem scanHost_hostText {domain : Text} {port : Option Text}
    (hne : domain ≠ []) (hdomain : ∀ c ∈ domain, domainChar c = true)
    (hport : ∀ digits ∈ port, ∀ c ∈ digits, U.digit c = true) :
    (scanHost U (domain ++ announced ':' port)).1 = some (domain, port) := by
  cases port with
  | none =>
      have hspan := isSpan_all hdomain
      rw [announced, List.append_nil,
        scanHost_of_domain hspan.takeWhile_eq hne, hspan.dropWhile_eq]
  | some digits =>
      have hspan : IsSpan U.digit digits digits [] :=
        isSpan_all (hport digits rfl)
      exact scanHost_eq_port_iff.mpr
        ⟨hne, hdomain, digits, rfl, hspan.takeWhile_eq⟩

/-- The host of a URL, read where it stands. -/
theorem scanHost_host :
    (scanHost U url.hostText).1 =
      if url.host = [] then none else some (url.host, url.port) := by
  by_cases hne : url.host = []
  · rw [if_pos hne]
    apply scanHost_eq_none_of_head
    unfold hostText
    rw [hne]
    cases url.port <;> simp [announced, domainChar]
  · rw [if_neg hne]
    exact scanHost_hostText hne url.domainChar_of_mem_host
      fun digits hdigits c hc =>
        digit_of_isDigit (url.isDigit_of_mem_port hdigits c hc)

theorem read_host :
    (read U url.text).host =
      (scanHost U (scanCredentials U url.authority).2).1 := by
  simp only [Reading.read, scanScheme_text,
    scanCredentials_append_stop url.pathText_stops_credentials,
    scanHost_append_stop url.pathText_stops_host]

end Url

end Rfc3986

end KnockKnock
