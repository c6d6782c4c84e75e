import KnockKnock.Uri.Reading

/-!
# Scans next to other text

A scan does not reach into text that begins with none of its characters.  In
particular, white space behind a URL never moves the scheme, the credentials or
an explicit port.  White space in front becomes part of the scheme or of the
domain, where it keeps `word:word@` from being read as credentials.
-/

namespace KnockKnock

open Numeral Spans Str

namespace Reading

variable {U : CharClasses} {w : Text}

/-! ## Where a scan stops -/

theorem domainChar_of_word {c : Char} (hc : U.word c = true) :
    domainChar c = true := by
  have hne : ∀ d : Char, U.word d = false → c ≠ d := by
    rintro d hd rfl
    rw [hd] at hc
    cases hc
  have hmark : ∀ d ∈ ['/', '?', '#', ':'], U.word d = false := by
    intro d hd
    rw [U.word_ascii]
    · revert d
      decide
    · revert d
      decide
  simp [domainChar, hne _ (hmark '/' (by simp)), hne _ (hmark '?' (by simp)),
    hne _ (hmark '#' (by simp)), hne _ (hmark ':' (by simp))]

theorem schemeChar_of_word {c : Char} (hc : U.word c = true) :
    schemeChar c = true :=
  schemeChar_of_domainChar (domainChar_of_word hc)

/-- Credentials do not reach into what begins with none of their
characters. -/
theorem scanCredentials_append_stop {t : Text}
    (ht : ∀ c ∈ t.head?, U.word c = false ∧ c ≠ ':' ∧ c ≠ '@') (s : Text) :
    scanCredentials U (s ++ t) =
      ((scanCredentials U s).1, (scanCredentials U s).2 ++ t) := by
  rcases hscan : scanCredentials U s with ⟨_ | ⟨u, p⟩, rest⟩
  · have hrest : rest = s := by
      have hfst : (scanCredentials U s).1 = none := by rw [hscan]
      simpa [hscan] using scanCredentials_eq_none hfst
    have hnone : (scanCredentials U (s ++ t)).1 = none := by
      by_contra hne
      obtain ⟨⟨u, p⟩, hup⟩ := Option.ne_none_iff_exists'.mp hne
      obtain ⟨hs, hu, hp, huw, hpw⟩ := scanCredentials_eq_some_iff.mp
        (Prod.ext hup rfl : scanCredentials U (s ++ t) = (some (u, p), _))
      have hsplit : s ++ t = (u ++ ':' :: (p ++ ['@'])) ++
          (scanCredentials U (s ++ t)).2 := by simp [← hs]
      have hchars : ∀ c ∈ u ++ ':' :: (p ++ ['@']),
          U.word c = true ∨ c = ':' ∨ c = '@' := by
        intro c hc
        simp only [List.mem_append, List.mem_cons, List.not_mem_nil,
          or_false] at hc
        rcases hc with hc | rfl | hc | rfl
        · exact Or.inl (huw c hc)
        · exact Or.inr (Or.inl rfl)
        · exact Or.inl (hpw c hc)
        · exact Or.inr (Or.inr rfl)
      obtain ⟨inner, hinner, ht'⟩ | ⟨inner, rfl, -⟩ :=
        List.append_eq_append_iff.mp hsplit
      · cases inner with
        | nil =>
            have hsome : scanCredentials U s = (some (u, p), []) :=
              scanCredentials_eq_some_iff.mpr
                ⟨by simpa using hinner.symm, hu, hp, huw, hpw⟩
            rw [hscan] at hsome
            cases hsome
        | cons c inner =>
            obtain ⟨hword, hcolon, hat⟩ := ht c (by rw [ht']; rfl)
            rcases hchars c (by rw [hinner]; simp) with hc | hc | hc
            · rw [hword] at hc
              cases hc
            · exact hcolon hc
            · exact hat hc
      · have hsome : scanCredentials U
            (u ++ ':' :: (p ++ ['@']) ++ inner) = (some (u, p), inner) :=
          scanCredentials_eq_some_iff.mpr ⟨by simp, hu, hp, huw, hpw⟩
        rw [hscan] at hsome
        cases hsome
    rw [hrest]
    exact Prod.ext hnone (scanCredentials_eq_none hnone)
  · obtain ⟨rfl, hu, hp, huw, hpw⟩ := scanCredentials_eq_some_iff.mp hscan
    exact scanCredentials_eq_some_iff.mpr ⟨by simp, hu, hp, huw, hpw⟩

/-- A host scan does not reach into what begins with none of its
characters. -/
theorem scanHost_append {t : Text}
    (ht : ∀ c ∈ t.head?, domainChar c = false ∧ c ≠ ':' ∧ U.digit c = false)
    (s : Text) :
    scanHost U (s ++ t) = ((scanHost U s).1, (scanHost U s).2 ++ t) := by
  have hdomain : ∀ c ∈ t.head?, domainChar c = false := fun c hc =>
    (ht c hc).1
  have hdigit : ∀ c ∈ t.head?, U.digit c = false := fun c hc =>
    (ht c hc).2.2
  have htake := takeWhile_append_stop (s := s) hdomain
  by_cases hne : s.takeWhile domainChar = []
  · simp only [scanHost, htake, hne]
  · rw [scanHost_of_domain htake hne, scanHost_of_domain rfl hne,
      dropWhile_append_stop hdomain]
    rcases hdrop : s.dropWhile domainChar with _ | ⟨c, rest⟩
    · rcases t with _ | ⟨c, t⟩
      · rfl
      · have hc : c ≠ ':' := (ht c rfl).2.1
        simp [hc]
    · by_cases hc : c = ':'
      · subst hc
        simp [takeWhile_append_stop hdigit, dropWhile_append_stop hdigit]
      · simp [hc]

theorem scanHost_append_stop {s t : Text}
    (ht : ∀ c ∈ t.head?, domainChar c = false ∧ c ≠ ':' ∧ U.digit c = false) :
    (scanHost U (s ++ t)).1 = (scanHost U s).1 := by
  rw [scanHost_append ht]

theorem scanHost_eq_none_of_head {s : Text}
    (hs : ∀ c ∈ s.head?, domainChar c = false) : (scanHost U s).1 = none := by
  rw [scanHost_fst_eq_none_iff]
  cases s with
  | nil => rfl
  | cons c s => simp [hs c rfl]

theorem scanCredentials_of_not_at {s : Text} (hs : '@' ∉ s) :
    scanCredentials U s = (none, s) := by
  have hnone : (scanCredentials U s).1 = none := by
    by_contra hne
    obtain ⟨⟨u, p⟩, hup⟩ := Option.ne_none_iff_exists'.mp hne
    obtain ⟨heq, -⟩ := scanCredentials_eq_some_iff.mp
      (Prod.ext hup rfl : scanCredentials U s = (some (u, p), _))
    rw [heq] at hs
    simp at hs
  exact Prod.ext hnone (scanCredentials_eq_none hnone)

/-- A host with a port is a run of domain characters, a colon and the digits
behind it. -/
theorem scanHost_eq_port_iff {s domain port : Text} :
    (scanHost U s).1 = some (domain, some port) ↔
      domain ≠ [] ∧ (∀ c ∈ domain, domainChar c = true) ∧
        ∃ rest, s = domain ++ ':' :: rest ∧ rest.takeWhile U.digit = port := by
  constructor
  · intro h
    obtain ⟨hne, hchars⟩ := scanHost_domain h
    have hrun : s.takeWhile domainChar ≠ [] := by
      intro hnil
      rw [scanHost_fst_eq_none_iff.mpr hnil] at h
      cases h
    rw [scanHost_of_domain rfl hrun] at h
    split at h
    next rest hdrop =>
      simp only [Option.some.injEq, Prod.mk.injEq] at h
      obtain ⟨hdomain, hport⟩ := h
      refine ⟨hne, hchars, rest, ?_, hport⟩
      rw [← hdomain, ← hdrop, List.takeWhile_append_dropWhile]
    · simp at h
  · rintro ⟨hne, hchars, rest, rfl, rfl⟩
    have hspan : IsSpan domainChar (domain ++ ':' :: rest) domain
        (':' :: rest) := isSpan_cons hchars (by decide)
    rw [scanHost_of_domain hspan.takeWhile_eq hne, hspan.dropWhile_eq]
    rfl

/-! ## White space behind the text -/

theorem scanScheme_behind (hw : Blank w) (s : Text) :
    scanScheme (s ++ w) = ((scanScheme s).1, (scanScheme s).2 ++ w) := by
  rcases hscan : scanScheme s with ⟨_ | t, rest⟩
  · have hrest : rest = s := by
      have hfst : (scanScheme s).1 = none := by rw [hscan]
      simpa [hscan] using scanScheme_eq_none hfst
    have hnone : (scanScheme (s ++ w)).1 = none := by
      by_contra hne
      obtain ⟨t, ht⟩ := Option.ne_none_iff_exists'.mp hne
      obtain ⟨hs, ht, hchars⟩ := scanScheme_eq_some_iff.mp
        (Prod.ext ht rfl : scanScheme (s ++ w) = (some t, _))
      have hsplit : (t ++ [':', '/']) ++ '/' :: (scanScheme (s ++ w)).2 =
          s ++ w := by simp [← hs]
      obtain ⟨back, hback, -⟩ := split_before_blank hw (by decide) hsplit
      have hsome : scanScheme s = (some t, back) :=
        scanScheme_eq_some_iff.mpr ⟨by simp [hback], ht, hchars⟩
      rw [hscan] at hsome
      cases hsome
    rw [hrest]
    exact Prod.ext hnone (scanScheme_eq_none hnone)
  · obtain ⟨rfl, hne, ht⟩ := scanScheme_eq_some_iff.mp hscan
    exact scanScheme_eq_some_iff.mpr ⟨by simp, hne, ht⟩

theorem not_word_of_blank (hw : Blank w) : ∀ c ∈ w, U.word c = false := by
  intro c hc
  by_contra hword
  have hspace := U.not_whitespace_of_word c (by simpa using hword)
  rw [hw c hc] at hspace
  cases hspace

theorem ne_of_blank (hw : Blank w) {c d : Char} (hc : c ∈ w)
    (hd : Str.isWhitespace d = false) : c ≠ d := by
  rintro rfl
  rw [hw c hc] at hd
  cases hd

theorem domainChar_of_blank (hw : Blank w) : ∀ c ∈ w, domainChar c = true := by
  intro c hc
  have hne := fun d => ne_of_blank (d := d) hw hc
  simp [domainChar, hne '/' (by decide), hne '?' (by decide),
    hne '#' (by decide), hne ':' (by decide)]

theorem schemeChar_of_blank (hw : Blank w) : ∀ c ∈ w, schemeChar c = true :=
  fun c hc => schemeChar_of_domainChar (domainChar_of_blank hw c hc)

theorem scanCredentials_behind (hw : Blank w) (s : Text) :
    scanCredentials U (s ++ w) =
      ((scanCredentials U s).1, (scanCredentials U s).2 ++ w) := by
  apply scanCredentials_append_stop
  intro c hc
  have hc := List.mem_of_head? hc
  exact ⟨not_word_of_blank hw c hc, ne_of_blank hw hc (by decide),
    ne_of_blank hw hc (by decide)⟩

theorem takeWhile_digit_behind (hw : Blank w) (s : Text) :
    (s ++ w).takeWhile U.digit = s.takeWhile U.digit := by
  apply takeWhile_append_stop
  intro c hc
  by_contra hdigit
  have hword := U.word_of_digit c (by simpa using hdigit)
  rw [not_word_of_blank hw c (List.mem_of_head? hc)] at hword
  cases hword

theorem scanHost_port_behind (hw : Blank w) {s domain port : Text} :
    (scanHost U (s ++ w)).1 = some (domain, some port) ↔
      (scanHost U s).1 = some (domain, some port) := by
  simp only [scanHost_eq_port_iff]
  constructor
  · rintro ⟨hne, hchars, rest, hs, hport⟩
    obtain ⟨rest', rfl, rfl⟩ := split_before_blank hw (by decide) hs.symm
    rw [takeWhile_digit_behind hw] at hport
    exact ⟨hne, hchars, rest', rfl, hport⟩
  · rintro ⟨hne, hchars, rest, rfl, hport⟩
    refine ⟨hne, hchars, rest ++ w, by simp, ?_⟩
    rw [takeWhile_digit_behind hw, hport]

theorem scanHost_none_of_behind {s : Text}
    (h : (scanHost U (s ++ w)).1 = none) : (scanHost U s).1 = none := by
  rw [scanHost_fst_eq_none_iff] at h ⊢
  cases s with
  | nil => rfl
  | cons c s =>
      by_contra hne
      have hc : domainChar c = true := by
        by_contra hc
        simp [hc] at hne
      simp [hc] at h

/-- The port stays. -/
theorem port_behind (hw : Blank w) (s : Text) :
    (read U (s ++ w)).port = (read U s).port := by
  have hhost : (read U (s ++ w)).host =
      (scanHost U ((scanCredentials U (scanScheme s).2).2 ++ w)).1 := by
    simp only [read, scanScheme_behind hw, scanCredentials_behind hw]
  apply Option.ext
  intro port
  rw [port_eq_some_iff, port_eq_some_iff, hhost]
  exact exists_congr fun domain => scanHost_port_behind hw

/-- A run of domain characters takes in the white space behind it. -/
theorem takeWhile_behind (hw : Blank w) {rest : Text}
    (h : ∀ c ∈ rest, domainChar c = true) :
    (rest ++ w).takeWhile domainChar = rest ++ w := by
  rw [List.takeWhile_append_of_pos h,
    (isSpan_all (domainChar_of_blank hw)).takeWhile_eq]

/-- A domain at the end of the text grows. -/
theorem domain_behind (hw : Blank w) (s : Text) :
    (read U (s ++ w)).domain =
      ((scanCredentials U (scanScheme s).2).2 ++ w).takeWhile domainChar := by
  rw [domain_eq_takeWhile, scanScheme_behind hw, scanCredentials_behind hw]

theorem domain_behind_eq_iff (hw : Blank w) (s : Text) :
    (read U (s ++ w)).domain = (read U s).domain ↔
      w = [] ∨ ∃ c ∈ (scanCredentials U (scanScheme s).2).2,
        domainChar c = false := by
  rw [domain_behind hw, domain_eq_takeWhile]
  generalize (scanCredentials U (scanScheme s).2).2 = rest
  constructor
  · intro h
    by_contra hnot
    obtain ⟨hne, hstop⟩ := not_or.mp hnot
    have hall : ∀ c ∈ rest, domainChar c = true := by
      intro c hc
      by_contra hc'
      exact hstop ⟨c, hc, by simpa using hc'⟩
    rw [takeWhile_behind hw hall, (isSpan_all hall).takeWhile_eq] at h
    exact hne (by simpa using h)
  · rintro (rfl | ⟨c, hc, hstop⟩)
    · rw [List.append_nil]
    · exact takeWhile_append_of_mem hc hstop

/-! ## White space in front of the text -/

/-- A text that begins with a colon names no host. -/
theorem read_colon (s : Text) :
    (read U (':' :: s)).scheme = none →
      (read U (':' :: s)).credentials = none ∧
        (read U (':' :: s)).host = none := by
  intro hscheme
  have hrest : (scanScheme (':' :: s)).2 = ':' :: s :=
    scanScheme_eq_none hscheme
  have hcredentials : scanCredentials U (':' :: s) = (none, ':' :: s) := by
    simp [scanCredentials, word_colon]
  simp [read, hrest, hcredentials, scanHost, domainChar]

/-- A scheme takes the white space in. -/
theorem scanScheme_in_front_some (hw : Blank w) {s t : Text}
    (h : (scanScheme s).1 = some t) :
    scanScheme (w ++ s) = (some (w ++ t), (scanScheme s).2) := by
  obtain ⟨hs, ht, hchars⟩ := scanScheme_eq_some_iff.mp
    (Prod.ext h rfl : scanScheme s = (some t, _))
  refine scanScheme_eq_some_iff.mpr ⟨?_, by simp [ht], ?_⟩
  · rw [List.append_assoc, ← hs]
  · intro c hc
    rcases List.mem_append.mp hc with hc | hc
    · exact schemeChar_of_blank hw c hc
    · exact hchars c hc

/-- In front of a host it makes no scheme. -/
theorem scanScheme_in_front_none (hw : Blank w) {s : Text}
    (h : (scanScheme s).1 = none) (hhost : (read U s).host ≠ none) :
    scanScheme (w ++ s) = (none, w ++ s) := by
  rcases hscan : scanScheme (w ++ s) with ⟨_ | t, rest⟩
  · have hrest := scanScheme_eq_none (s := w ++ s) (by rw [hscan])
    rw [hscan] at hrest
    rw [← hrest]
  · obtain ⟨hs, -, hchars⟩ := scanScheme_eq_some_iff.mp hscan
    obtain ⟨t', rfl, rfl⟩ := split_behind_blank hw (by decide) hs.symm
    by_cases hnil : t' = []
    · subst hnil
      exact absurd (read_colon ('/' :: '/' :: rest) h).2 hhost
    · have hscan' : scanScheme (t' ++ ':' :: '/' :: '/' :: rest) =
          (some t', rest) := scanScheme_eq_some_iff.mpr
        ⟨rfl, hnil, fun c hc => hchars c (List.mem_append_right _ hc)⟩
      rw [hscan'] at h
      cases h

theorem scanCredentials_in_front (hw : Blank w) (hne : w ≠ []) (s : Text) :
    scanCredentials U (w ++ s) = (none, w ++ s) := by
  obtain ⟨c, w, rfl⟩ := List.exists_cons_of_ne_nil hne
  have hc : U.word c = false := not_word_of_blank hw c (by simp)
  simp [scanCredentials, hc]

/-- How a text reads once the white space in front of it has been cut off:
unless credentials appear, the port stays or the host goes. -/
theorem read_in_front (hw : Blank w) {s port : Text}
    (h : (read U (w ++ s)).port = some port) :
    ((read U s).credentials = (read U (w ++ s)).credentials →
      (read U s).host = none ∨ (read U s).port = some port) ∧
    ((read U s).credentials ≠ (read U (w ++ s)).credentials →
      (read U s).scheme = none) := by
  cases hscheme : (scanScheme s).1 with
  | some t =>
      have hscan := scanScheme_in_front_some hw hscheme
      have hport : (read U s).port = some port := by
        simpa only [Reading.port, read, hscan] using h
      refine ⟨fun _ => Or.inr hport, fun hcredentials => ?_⟩
      simp only [read, hscan, ne_eq, not_true] at hcredentials
  | none =>
      refine ⟨fun hcredentials => ?_, fun _ => hscheme⟩
      by_cases hhost : (read U s).host = none
      · exact Or.inl hhost
      by_cases hne : w = []
      · subst hne
        exact Or.inr h
      have hfront := scanCredentials_in_front (U := U) hw hne s
      obtain ⟨domain, hdomain⟩ := port_eq_some_iff.mp h
      simp only [read, scanScheme_in_front_none hw hscheme hhost,
        scanScheme_eq_none hscheme, hfront] at hdomain hcredentials
      obtain ⟨-, hchars, behind, hs, hport⟩ :=
        scanHost_eq_port_iff.mp hdomain
      obtain ⟨domain', rfl, rfl⟩ := split_behind_blank hw (by decide) hs.symm
      by_cases hnil : domain' = []
      · subst hnil
        exact absurd (read_colon behind hscheme).2 hhost
      · refine Or.inr (port_eq_some_iff.mpr ⟨domain', ?_⟩)
        simp only [read, scanScheme_eq_none hscheme,
          scanCredentials_eq_none hcredentials]
        exact scanHost_eq_port_iff.mpr ⟨hnil,
          fun c hc => hchars c (List.mem_append_right _ hc), _, rfl, hport⟩

/-- How a trimmed text reads. -/
theorem read_trim {target port : Text}
    (h : (read U target).port = some port) :
    ((read U (trim target)).credentials = (read U target).credentials →
      (read U (trim target)).host = none ∨
        (read U (trim target)).port = some port) ∧
    ((read U (trim target)).credentials ≠ (read U target).credentials →
      (read U (trim target)).scheme = none) := by
  obtain ⟨before, behind, hbefore, hbehind, htarget⟩ := exists_trim target
  generalize trim target = core at htarget
  subst htarget
  obtain ⟨hsame, hhidden⟩ := read_in_front hbefore h
  have hscheme : (read U (core ++ behind)).scheme = (read U core).scheme := by
    simp only [read, scanScheme_behind hbehind]
  have hcredentials : (read U (core ++ behind)).credentials =
      (read U core).credentials := by
    simp only [read, scanScheme_behind hbehind,
      scanCredentials_behind hbehind]
  rw [hcredentials] at hsame hhidden
  rw [hscheme] at hhidden
  refine ⟨fun heq => ?_, hhidden⟩
  have hread : (read U (core ++ behind)).host =
      (scanHost U ((scanCredentials U (scanScheme core).2).2 ++ behind)).1 := by
    simp only [read, scanScheme_behind hbehind,
      scanCredentials_behind hbehind]
  rcases hsame heq with hnone | hport
  · rw [hread] at hnone
    exact Or.inl (scanHost_none_of_behind hnone)
  · obtain ⟨domain, hdomain⟩ := port_eq_some_iff.mp hport
    rw [hread, scanHost_port_behind hbehind] at hdomain
    exact Or.inr (port_eq_some_iff.mpr ⟨domain, hdomain⟩)

end Reading

end KnockKnock
