import KnockKnock.Targets.Hosts
import KnockKnock.Targets.Secured

/-!
# What the gRPC pingers secure

Both pingers read their endpoint twice.  `normalize_endpoint` trims it, compares
schemes letter by letter and makes the URL for tonic; `get_uri` parses the text
as it stands, and its scheme and domain decide on TLS and on the name the
certificate is checked against.  `Settled` lists the endpoints on which the two
readings agree.
-/

namespace KnockKnock

open Numeral Outcome Reading Spans

variable {U : CharClasses}

/-! ## The host of a URL -/

namespace Authority

/-- The text behind the user information. -/
def hostText (authority : Text) : Text :=
  match Str.rsplitOnce '@' authority with
  | some (_, back) => back
  | none => authority

/-- The host: an IP literal with its brackets, or a name up to the port. -/
def host (authority : Text) : Option Text :=
  match hostText authority with
  | '[' :: literal =>
      if ']' ∈ literal
      then some ('[' :: (literal.takeWhile (· != ']') ++ [']'])) else none
  | name => some (name.takeWhile (· != ':'))

end Authority

/-- The host of a URL with an authority. -/
def hostOf (url : Text) : Option Text :=
  let rest := url.drop ((Str.beforeFirst "://".toList url).length + 3)
  Authority.host (rest.takeWhile schemeChar)

namespace Authority

theorem hostText_of_not_mem {authority : Text} (h : '@' ∉ authority) :
    hostText authority = authority := by
  rw [hostText, Str.rsplitOnce_eq_none_iff.mpr h]

theorem hostText_append {back : Text} (h : '@' ∉ back) (front : Text) :
    hostText (front ++ '@' :: back) = back := by
  rw [hostText, Str.rsplitOnce_append h]

/-- The host does not depend on user information. -/
theorem host_append (front back : Text) :
    host (front ++ '@' :: back) = host back := by
  unfold host
  by_cases h : '@' ∈ back
  · obtain ⟨front', back', rfl, hback⟩ := Str.exists_last_occurrence h
    have hassoc : front ++ '@' :: (front' ++ '@' :: back') =
        (front ++ '@' :: front') ++ '@' :: back' := by simp
    rw [hassoc, hostText_append hback, hostText_append hback]
  · rw [hostText_append h, hostText_of_not_mem h]

/-- An IP literal ends at the first closing bracket. -/
theorem host_literal {authority address port : Text} (hclose : ']' ∉ address)
    (htext : hostText authority = '[' :: (address ++ ']' :: port)) :
    host authority = some ('[' :: (address ++ [']'])) := by
  have hspan : IsSpan (· != ']') (address ++ ']' :: port) address
      (']' :: port) := by
    refine isSpan_cons ?_ (by decide)
    intro c hc
    rw [bne_iff_ne]
    rintro rfl
    exact hclose hc
  unfold host
  rw [htext]
  simp [hspan.takeWhile_eq]

theorem host_isPrefix {authority name : Text} (h : host authority = some name) :
    name <+: hostText authority := by
  by_cases hliteral : ∃ literal, hostText authority = '[' :: literal ∧
      ']' ∈ literal
  · obtain ⟨literal, htext, hmem⟩ := hliteral
    obtain ⟨address, port, rfl, hclose⟩ := List.eq_append_cons_of_mem hmem
    rw [host_literal hclose htext] at h
    rw [htext, ← Option.some.inj h]
    exact ⟨port, by simp⟩
  · unfold host at h
    split at h
    next literal htext =>
      split at h
      next hmem => exact absurd ⟨literal, htext, hmem⟩ hliteral
      · cases h
    next =>
      rw [← Option.some.inj h]
      exact List.takeWhile_prefix _

/-- The host is a part of the authority behind the user information. -/
theorem host_spec {authority name : Text} (h : host authority = some name) :
    '@' ∉ name ∧ name.length ≤ authority.length := by
  have hfront := host_isPrefix h
  by_cases hat : '@' ∈ authority
  · obtain ⟨front, back, rfl, hback⟩ := Str.exists_last_occurrence hat
    rw [hostText_append hback] at hfront
    refine ⟨fun hmem => hback (hfront.subset hmem), ?_⟩
    have hlength := hfront.length_le
    simp only [List.length_append, List.length_cons]
    omega
  · rw [hostText_of_not_mem hat] at hfront
    exact ⟨fun hmem => hat (hfront.subset hmem), hfront.length_le⟩

end Authority

/-- The text in front of the first `://`. -/
theorem beforeFirst_scheme {scheme : Text} (h : ∀ c ∈ scheme, c ≠ ':')
    (rest : Text) :
    Str.beforeFirst "://".toList (scheme ++ ':' :: '/' :: '/' :: rest) =
      scheme := by
  induction scheme with
  | nil => simp [Str.beforeFirst]
  | cons c scheme ih =>
      have hc : ':' ≠ c := (h c List.mem_cons_self).symm
      rw [List.cons_append, Str.beforeFirst, if_neg,
        ih fun d hd => h d (List.mem_cons_of_mem _ hd)]
      intro hfront
      exact hc (List.cons_prefix_cons.mp hfront).1

theorem hostOf_scheme {scheme : Text} (h : ∀ c ∈ scheme, c ≠ ':')
    (rest : Text) :
    hostOf (scheme ++ ':' :: '/' :: '/' :: rest) =
      Authority.host (rest.takeWhile schemeChar) := by
  unfold hostOf
  rw [beforeFirst_scheme h]
  simp [List.drop_append, List.drop_eq_nil_of_le]

namespace Grpc

/-- The argument of `tls.domain_name`, where it is called. -/
def Transport.domainName (t : Transport) : Option Text :=
  if t.isTls = true ∧ t.domain ≠ [] then some t.domain else none

/-- The decisions agree with the URL. -/
structure Consistent (t : Transport) : Prop where
  scheme : "https://".toList <+: t.url ↔ t.isTls = true
  domain : ∀ name ∈ t.domainName, hostOf t.url = some name

/-! ## The endpoints both readings agree on -/

/-- The schemes that ask for TLS. -/
def tlsSchemes : List Text := ["grpcs".toList, "https".toList]

/-- A text behind its scheme. -/
def withScheme (scheme rest : Text) : Text :=
  scheme ++ ':' :: '/' :: '/' :: rest

/-- The trimmed endpoint asks for TLS in lower case, and `rest` follows. -/
def AsksTls (endpoint rest : Text) : Prop :=
  ∃ scheme ∈ tlsSchemes, Str.trim endpoint = withScheme scheme rest

/-- What follows `word:word@`, or everything. -/
inductive BehindCredentials (U : CharClasses) : Text → Text → Prop where
  | plain (info behind : Text) (hplain : Plain U info) :
      BehindCredentials U (info ++ '@' :: behind) behind
  | bare (rest : Text)
      (hbare : ∀ info behind, rest = info ++ '@' :: behind → ¬Plain U info) :
      BehindCredentials U rest rest

/-- The authorities whose text up to the first colon is their host. -/
inductive SameHost (authority : Text) : Prop where
  | name (hat : '@' ∉ authority) (hopen : authority.head? ≠ some '[')
  | literal (address port : Text)
      (hauthority : authority = '[' :: (address ++ ']' :: port))
      (hat : '@' ∉ authority) (hcolon : ':' ∉ address)
      (hclose : ']' ∉ address) (hport : ∀ c ∈ port.head?, c = ':')
  | user (user password back : Text)
      (hauthority : authority = user ++ ':' :: (password ++ '@' :: back))
      (hcolon : ':' ∉ user) (hat : '@' ∉ back)
      (hhost : Authority.host back = some user)

/-- The endpoints on which the two readings agree: a TLS scheme is in lower
case, no white space stands in front of it or directly behind the domain, and
the domain is the host. -/
structure Settled (U : CharClasses) (endpoint : Text) : Prop where
  lowerCase : ∀ scheme ∈ tlsSchemes,
    WrittenWith endpoint scheme → HasScheme endpoint scheme
  flush : ∀ rest, AsksTls endpoint rest → Str.trimStart endpoint = endpoint
  closed : ∀ rest behind, AsksTls endpoint rest →
    BehindCredentials U rest behind →
      Str.trimEnd endpoint = endpoint ∨ ∃ c ∈ behind, domainChar c = false
  host : ∀ rest behind, AsksTls endpoint rest →
    BehindCredentials U rest behind →
      (∀ c ∈ behind.head?, domainChar c = false) ∨
        SameHost (behind.takeWhile schemeChar)

theorem tlsSchemes_letters : ∀ scheme ∈ tlsSchemes,
    scheme ≠ [] ∧ Str.toAsciiLowercase scheme = scheme ∧
      ∀ c ∈ scheme, c.isAlpha = true ∧ schemeChar c = true := by
  decide

/-! ## Normalising -/

theorem asksTls_iff {endpoint rest : Text} :
    AsksTls endpoint rest ↔
      Str.trim endpoint = "grpcs://".toList ++ rest ∨
        Str.trim endpoint = "https://".toList ++ rest := by
  simp [AsksTls, tlsSchemes, withScheme]

theorem normalizeEndpoint_eq_ok {endpoint url : Text}
    (h : normalizeEndpoint endpoint = .ok url) :
    (∃ rest, AsksTls endpoint rest ∧ url = withScheme "https".toList rest) ∨
      ((∀ rest, ¬AsksTls endpoint rest) ∧ "http://".toList <+: url) := by
  unfold normalizeEndpoint at h
  dsimp only at h
  simp only [asksTls_iff]
  generalize Str.trim endpoint = trimmed at h ⊢
  split at h
  · cases h
  split at h
  next rest hstrip =>
    exact Or.inl ⟨rest, Or.inl (Str.stripPrefix_eq_some_iff.mp hstrip),
      (Except.ok.inj h).symm⟩
  next hgrpcs =>
    have hgrpcs' : ∀ rest, trimmed ≠ "grpcs://".toList ++ rest := by
      intro rest heq
      rw [Str.stripPrefix_eq_some_iff.mpr heq] at hgrpcs
      cases hgrpcs
    split at h
    next rest hstrip =>
      rw [Str.stripPrefix_eq_some_iff] at hstrip
      subst hstrip
      refine Or.inr ⟨?_, ?_⟩
      · rintro rest' (heq | heq) <;> simp at heq
      · rw [← Except.ok.inj h]
        exact List.prefix_append _ _
    · by_cases hhttps : ∃ rest, trimmed = "https://".toList ++ rest
      · obtain ⟨rest, rfl⟩ := hhttps
        rw [if_pos (Or.inr (List.prefix_append _ _))] at h
        exact Or.inl ⟨rest, Or.inr rfl, (Except.ok.inj h).symm⟩
      · refine Or.inr ⟨fun rest => not_or_intro (hgrpcs' rest)
          fun heq => hhttps ⟨rest, heq⟩, ?_⟩
        split at h
        next hscheme =>
          rw [← Except.ok.inj h]
          exact hscheme.resolve_right fun ⟨rest, heq⟩ =>
            hhttps ⟨rest, heq.symm⟩
        · rw [← Except.ok.inj h]
          exact List.prefix_append _ _

theorem https_isPrefix_iff {endpoint url : Text}
    (h : normalizeEndpoint endpoint = .ok url) :
    "https://".toList <+: url ↔ ∃ rest, AsksTls endpoint rest := by
  rcases normalizeEndpoint_eq_ok h with ⟨rest, hrest, rfl⟩ | ⟨hnot, hhttp⟩
  · exact iff_of_true ⟨rest, rfl⟩ ⟨rest, hrest⟩
  · refine iff_of_false ?_ fun ⟨rest, hrest⟩ => hnot rest hrest
    intro hhttps
    obtain ⟨back, rfl⟩ := hhttp
    simp [List.cons_prefix_cons] at hhttps

theorem connect_eq_ok {endpoint : Text} {t : Transport}
    (h : connect U endpoint = .ok t) :
    normalizeEndpoint endpoint = .ok t.url ∧
      (t.isTls = true ↔ ∃ scheme ∈ tlsSchemes, WrittenWith endpoint scheme) ∧
        t.domain = (Reading.read U endpoint).domain := by
  obtain ⟨url, hurl, hrest⟩ := bind_eq_ok_iff.mp h
  obtain ⟨uri, huri, ht⟩ := bind_eq_ok_iff.mp hrest
  obtain ⟨-, rfl⟩ := getUri_eq_ok_iff.mp huri
  rw [← Except.ok.inj ht]
  refine ⟨hurl, ?_, rfl⟩
  have hwritten : ∀ scheme ∈ tlsSchemes, WrittenWith endpoint scheme ↔
      Str.toAsciiLowercase ((scanScheme endpoint).1.getD []) = scheme := by
    intro scheme hscheme
    obtain ⟨hne, hlower, -⟩ := tlsSchemes_letters scheme hscheme
    exact writtenWith_iff hne hlower
  rw [exists_congr fun scheme => and_congr_right (hwritten scheme)]
  simp [tlsSchemes, toURI, Reading.read]

/-! ## The scheme -/

/-- No white space stands in front of a TLS scheme. -/
theorem trimStart_eq_self {endpoint scheme : Text}
    (hscheme : scheme ∈ tlsSchemes) (h : WrittenWith endpoint scheme) :
    Str.trimStart endpoint = endpoint := by
  obtain ⟨s, hs, heq⟩ := h
  obtain ⟨hendpoint, hne, -⟩ := scanScheme_eq_some_iff.mp
    (Prod.ext (hasScheme_iff.mp hs) rfl :
      scanScheme endpoint = (some s, (scanScheme endpoint).2))
  obtain ⟨c, s, rfl⟩ := List.exists_cons_of_ne_nil hne
  obtain ⟨-, hlower, hletters⟩ := tlsSchemes_letters scheme hscheme
  have halpha : c.isAlpha = true := by
    rw [Str.eqIgnoreAsciiCase, beq_iff_eq, hlower] at heq
    rw [← Char.isAlpha_toLower_eq_isAlpha]
    refine (hletters c.toLower ?_).1
    rw [← heq]
    exact List.mem_cons_self
  have hblank : Str.isWhitespace c = false :=
    isWhitespace_of_ascii_word (by simp [Char.isAlphanum, halpha])
  rw [hendpoint, Str.trimStart]
  simp [hblank]

/-- Behind the trimmed text stands white space, if nothing stands in front. -/
theorem eq_trim_append {endpoint : Text}
    (h : Str.trimStart endpoint = endpoint) :
    ∃ space, Str.Blank space ∧ endpoint = Str.trim endpoint ++ space := by
  refine ⟨Str.trailing endpoint, Str.blank_trailing endpoint, ?_⟩
  rw [Str.trim, Str.trailing, h, Str.trimEnd,
    List.rdropWhile_append_rtakeWhile]

/-- A lower-case TLS scheme at the start of the endpoint survives trimming. -/
theorem asksTls_of_hasScheme {endpoint scheme : Text}
    (hscheme : scheme ∈ tlsSchemes) (h : HasScheme endpoint scheme) :
    ∃ rest, AsksTls endpoint rest := by
  obtain ⟨hendpoint, -, -⟩ := scanScheme_eq_some_iff.mp
    (Prod.ext (hasScheme_iff.mp h) rfl :
      scanScheme endpoint = (some scheme, (scanScheme endpoint).2))
  have hstart := trimStart_eq_self hscheme ⟨scheme, h, by
    simp [Str.eqIgnoreAsciiCase]⟩
  obtain ⟨space, hspace, heq⟩ := eq_trim_append hstart
  have hsplit : (scheme ++ [':', '/']) ++ '/' :: (scanScheme endpoint).2 =
      Str.trim endpoint ++ space := by
    rw [← heq]
    simpa using hendpoint.symm
  obtain ⟨rest, hrest, -⟩ :=
    Str.split_before_blank hspace (by decide) hsplit
  exact ⟨rest, scheme, hscheme, by simp [hrest, withScheme]⟩

/-- What stands behind the scheme of an endpoint that asks for TLS. -/
theorem scanScheme_of_asksTls {endpoint rest : Text}
    (h : AsksTls endpoint rest) (hflush : Str.trimStart endpoint = endpoint) :
    ∃ scheme ∈ tlsSchemes, ∃ space, Str.Blank space ∧
      endpoint = Str.trim endpoint ++ space ∧
        scanScheme endpoint = (some scheme, rest ++ space) := by
  obtain ⟨scheme, hscheme, htrim⟩ := h
  obtain ⟨space, hspace, hendpoint⟩ := eq_trim_append hflush
  obtain ⟨hne, -, hletters⟩ := tlsSchemes_letters scheme hscheme
  refine ⟨scheme, hscheme, space, hspace, hendpoint, ?_⟩
  refine scanScheme_eq_some_iff.mpr
    ⟨?_, hne, fun c hc => (hletters c hc).2⟩
  rw [hendpoint, htrim]
  simp [withScheme]

/-- A flush endpoint that asks for TLS is written with its scheme. -/
theorem hasScheme_of_asksTls {endpoint rest : Text}
    (h : AsksTls endpoint rest) (hflush : Str.trimStart endpoint = endpoint) :
    ∃ scheme ∈ tlsSchemes, HasScheme endpoint scheme := by
  obtain ⟨scheme, hscheme, space, -, -, hscan⟩ :=
    scanScheme_of_asksTls h hflush
  exact ⟨scheme, hscheme, hasScheme_iff.mpr (by rw [hscan])⟩

/-- TLS is used for the URLs that ask for it, if the TLS scheme is in lower
case and stands at the very start. -/
theorem scheme_agrees_iff {endpoint : Text} {t : Transport}
    (h : connect U endpoint = .ok t) :
    ("https://".toList <+: t.url ↔ t.isTls = true) ↔
      (∀ scheme ∈ tlsSchemes,
        WrittenWith endpoint scheme → HasScheme endpoint scheme) ∧
      ∀ rest, AsksTls endpoint rest → Str.trimStart endpoint = endpoint := by
  obtain ⟨hurl, htls, -⟩ := connect_eq_ok h
  rw [https_isPrefix_iff hurl, htls]
  constructor
  · intro hagree
    refine ⟨?_, ?_⟩
    · intro scheme hscheme hwritten
      obtain ⟨rest, hrest⟩ := hagree.mpr ⟨scheme, hscheme, hwritten⟩
      obtain ⟨scheme', hscheme', hhas⟩ :=
        hasScheme_of_asksTls hrest (trimStart_eq_self hscheme hwritten)
      obtain ⟨s, hs, heq⟩ := hwritten
      have hsame : s = scheme' := by
        rw [hasScheme_iff] at hs hhas
        exact Option.some.inj (hs.symm.trans hhas)
      rw [hsame, Str.eqIgnoreAsciiCase, beq_iff_eq,
        (tlsSchemes_letters scheme hscheme).2.1,
        (tlsSchemes_letters scheme' hscheme').2.1] at heq
      rw [← heq]
      exact hhas
    · intro rest hrest
      obtain ⟨scheme, hscheme, hwritten⟩ := hagree.mp ⟨rest, hrest⟩
      exact trimStart_eq_self hscheme hwritten
  · rintro ⟨hlower, hflush⟩
    constructor
    · rintro ⟨rest, hrest⟩
      obtain ⟨scheme, hscheme, hhas⟩ :=
        hasScheme_of_asksTls hrest (hflush rest hrest)
      exact ⟨scheme, hscheme, scheme, hhas, by simp [Str.eqIgnoreAsciiCase]⟩
    · rintro ⟨scheme, hscheme, hwritten⟩
      exact asksTls_of_hasScheme hscheme (hlower scheme hscheme hwritten)

/-! ## The domain -/

theorem takeWhile_colon {user : Text} (hcolon : ':' ∉ user) {back : Text}
    (hback : ∀ c ∈ back.head?, c = ':') :
    (user ++ back).takeWhile (· != ':') = user := by
  have hspan : IsSpan (· != ':') (user ++ back) user back := by
    refine ⟨rfl, ?_, ?_⟩
    · intro c hc
      rw [bne_iff_ne]
      rintro rfl
      exact hcolon hc
    · intro c hc
      simp [hback c hc]
  exact hspan.takeWhile_eq

/-- Behind the last `@` the host begins again, so the text in front of the
first colon is a user. -/
theorem sameHost_of_at {authority : Text} (hat : '@' ∈ authority)
    (h : Authority.host authority =
      some (authority.takeWhile (· != ':'))) : SameHost authority := by
  obtain ⟨hnot, -⟩ := Authority.host_spec h
  obtain ⟨front, back, rfl, hback⟩ := Str.exists_last_occurrence hat
  have hcolon : ':' ∈ front := by
    by_contra hcolon
    apply hnot
    rw [List.takeWhile_append_of_pos]
    · simp
    · intro c hc
      rw [bne_iff_ne]
      rintro rfl
      exact hcolon hc
  obtain ⟨user, password, rfl, huser⟩ := List.eq_append_cons_of_mem hcolon
  rw [Authority.host_append, List.append_assoc,
    takeWhile_colon huser (by simp)] at h
  exact .user user password back (by simp) huser hback h

/-- An address in brackets contains no colon, and ends in front of the first
one. -/
theorem sameHost_of_open {authority : Text} (hat : '@' ∉ authority)
    (hopen : authority.head? = some '[')
    (h : Authority.host authority =
      some (authority.takeWhile (· != ':'))) : SameHost authority := by
  obtain ⟨literal, rfl⟩ := List.head?_eq_some_iff.mp hopen
  have htext := Authority.hostText_of_not_mem hat
  by_cases hclose : ']' ∈ literal
  · obtain ⟨address, port, rfl, hfirst⟩ := List.eq_append_cons_of_mem hclose
    rw [Authority.host_literal hfirst htext, Option.some.injEq] at h
    have hspan := isSpan_takeWhile (· != ':')
      ('[' :: (address ++ ']' :: port))
    rw [← h] at hspan
    refine .literal address port rfl hat ?_ hfirst ?_
    · intro hcolon
      have hc := hspan.inside ':' (by simp [hcolon])
      cases hc
    · have happend := hspan.append
      have hport : List.dropWhile (· != ':')
          ('[' :: (address ++ ']' :: port)) = port := by
        simpa using happend.symm
      intro c hc
      have hstop := hspan.stop c (by rw [hport]; exact hc)
      simpa using hstop
  · rw [Authority.host, htext] at h
    simp [hclose] at h

/-- When the text up to the first colon is the host. -/
theorem sameHost_iff {authority : Text} :
    Authority.host authority = some (authority.takeWhile (· != ':')) ↔
      SameHost authority := by
  constructor
  · intro h
    by_cases hat : '@' ∈ authority
    · exact sameHost_of_at hat h
    · by_cases hopen : authority.head? = some '['
      · exact sameHost_of_open hat hopen h
      · exact .name hat hopen
  · rintro (⟨hat, hopen⟩ | ⟨address, port, rfl, hat, hcolon, hclose, hport⟩ |
      ⟨user, password, back, rfl, hcolon, -, hhost⟩)
    · unfold Authority.host
      rw [Authority.hostText_of_not_mem hat]
      split
      next literal => exact absurd rfl hopen
      next => rfl
    · rw [Authority.host_literal hclose (Authority.hostText_of_not_mem hat)]
      have hsplit : '[' :: (address ++ ']' :: port) =
          ('[' :: (address ++ [']'])) ++ port := by simp
      rw [hsplit, takeWhile_colon (by simp [hcolon]) hport]
    · have hassoc : user ++ ':' :: (password ++ '@' :: back) =
          (user ++ ':' :: password) ++ '@' :: back := by simp
      rw [takeWhile_colon hcolon (by simp), hassoc, Authority.host_append,
        hhost]

open Rfc3986 Rfc3986.Url in
/-- A URL of the grammar has its host component for its host. -/
theorem hostOf_text (url : Url) : hostOf url.text = some url.host := by
  have hscheme : ∀ c ∈ url.scheme, c ≠ ':' :=
    (isScheme_chars url.scheme_ok).2
      (fun _ hc => isAlphanum_ne hc (by decide)) (by decide) (by decide)
      (by decide)
  have hmem : ∀ c ∈ url.hostText, c ≠ '[' ∧ schemeChar c = true := by
    intro c hc
    rcases List.mem_append.mp hc with hc | hc
    · have hopen : ∀ c ∈ url.host, c ≠ '[' :=
        escaped_imp (fun _ hc => isAlphanum_ne hc (by decide)) (by decide)
          url.host_ok
      exact ⟨hopen c hc, schemeChar_of_domainChar
        (url.domainChar_of_mem_host c hc)⟩
    · cases hport : url.port with
      | none => simp [hport, announced] at hc
      | some digits =>
          rw [hport, announced, List.mem_cons] at hc
          rcases hc with rfl | hc
          · decide
          · have hdigit := url.isDigit_of_mem_port hport c hc
            have halpha : c.isAlphanum = true := by
              simp [Char.isAlphanum, hdigit]
            exact ⟨isAlphanum_ne halpha (by decide),
              schemeChar_of_domainChar (domainChar_of_isAlphanum halpha)⟩
  have hauthority : ∀ c ∈ url.authority, schemeChar c = true := by
    unfold Url.authority
    split
    next info hinfo =>
      intro c hc
      rcases List.mem_append.mp hc with hc | hc
      · rcases domainChar_of_mem_info (url.userinfo_ok info hinfo) c hc with
          rfl | hc
        · decide
        · exact schemeChar_of_domainChar hc
      · rcases List.mem_cons.mp hc with rfl | hc
        · decide
        · exact (hmem c hc).2
    next => exact fun c hc => (hmem c hc).2
  have hspan : IsSpan schemeChar (url.authority ++ url.pathText) url.authority
      url.pathText := by
    refine ⟨rfl, hauthority, ?_⟩
    intro c hc
    rcases url.head_pathText c hc with rfl | rfl | rfl <;> decide
  have hhost : Authority.host url.authority = Authority.host url.hostText := by
    unfold Url.authority
    split
    · exact Authority.host_append _ _
    · rfl
  have hcolon : url.hostText.takeWhile (· != ':') = url.host := by
    refine takeWhile_colon ?_ ?_
    · intro hc
      exact absurd (url.domainChar_of_mem_host ':' hc) (by decide)
    · cases url.port <;> simp [announced]
  have hname : SameHost url.hostText := by
    refine .name url.at_not_mem_hostText fun hopen => ?_
    exact (hmem '[' (List.mem_of_head? hopen)).1 rfl
  rw [Url.text, hostOf_scheme hscheme, hspan.takeWhile_eq, hhost,
    sameHost_iff.mpr hname, hcolon]

theorem scanCredentials_plain {info : Text} (h : Plain U info)
    (behind : Text) :
    (scanCredentials U (info ++ '@' :: behind)).1 ≠ none ∧
      (scanCredentials U (info ++ '@' :: behind)).2 = behind := by
  obtain ⟨user, password, rfl, hfacts⟩ := h
  have hscan : scanCredentials U ((user ++ ':' :: password) ++ '@' :: behind) =
      (some (user, password), behind) :=
    scanCredentials_eq_some_iff.mpr ⟨by simp, hfacts⟩
  rw [hscan]
  simp

theorem exists_plain {rest : Text} (h : (scanCredentials U rest).1 ≠ none) :
    ∃ info, Plain U info ∧
      rest = info ++ '@' :: (scanCredentials U rest).2 := by
  obtain ⟨⟨user, password⟩, hup⟩ := Option.ne_none_iff_exists'.mp h
  obtain ⟨hrest, hfacts⟩ := scanCredentials_eq_some_iff.mp
    (Prod.ext hup rfl : scanCredentials U rest = (some (user, password), _))
  exact ⟨user ++ ':' :: password, ⟨user, password, rfl, hfacts⟩,
    by simpa using hrest⟩

/-- The credentials the pattern reads are in front of it. -/
theorem behindCredentials_iff {rest behind : Text} :
    BehindCredentials U rest behind ↔ (scanCredentials U rest).2 = behind := by
  constructor
  · intro h
    cases h with
    | plain info behind hplain => exact (scanCredentials_plain hplain _).2
    | bare rest hbare =>
        apply scanCredentials_eq_none
        by_contra hsome
        obtain ⟨info, hplain, hrest⟩ := exists_plain hsome
        exact hbare info _ hrest hplain
  · rintro rfl
    by_cases hsome : (scanCredentials U rest).1 = none
    · rw [scanCredentials_eq_none hsome]
      refine .bare rest ?_
      rintro info behind rfl hplain
      exact (scanCredentials_plain hplain behind).1 hsome
    · obtain ⟨info, hplain, hrest⟩ := exists_plain hsome
      generalize (scanCredentials U rest).2 = behind at hrest
      subst hrest
      exact .plain info behind hplain

/-- The host of the URL that is handed to tonic. -/
theorem hostOf_withScheme {rest behind : Text}
    (h : BehindCredentials U rest behind) :
    hostOf (withScheme "https".toList rest) =
      Authority.host (behind.takeWhile schemeChar) := by
  have hrest : hostOf (withScheme "https".toList rest) =
      Authority.host (rest.takeWhile schemeChar) := by
    exact hostOf_scheme (by decide) rest
  rw [hrest]
  cases h with
  | bare => rfl
  | plain info behind hplain =>
      obtain ⟨user, password, rfl, -, -, huser, hpassword⟩ := hplain
      have hsplit : user ++ ':' :: password ++ '@' :: behind =
          (user ++ ':' :: password ++ ['@']) ++ behind := by simp
      rw [hsplit, List.takeWhile_append_of_pos]
      · rw [List.append_assoc]
        exact Authority.host_append _ _
      · intro c hc
        simp only [List.mem_append, List.mem_cons, List.not_mem_nil,
          or_false] at hc
        rcases hc with (hc | rfl | hc) | rfl
        · exact schemeChar_of_word (huser c hc)
        · decide
        · exact schemeChar_of_word (hpassword c hc)
        · decide

theorem asksTls_unique {endpoint rest rest' : Text}
    (h : AsksTls endpoint rest) (h' : AsksTls endpoint rest') :
    rest = rest' := by
  rw [asksTls_iff] at h h'
  rcases h with h | h <;> rcases h' with h' | h' <;> rw [h] at h'
  · exact List.append_cancel_left h'
  · simp at h'
  · simp at h'
  · exact List.append_cancel_left h'

/-- What the parser makes of an endpoint that asks for TLS. -/
theorem domain_eq_of_asksTls {endpoint rest behind : Text}
    (hasks : AsksTls endpoint rest)
    (hflush : Str.trimStart endpoint = endpoint)
    (hbehind : BehindCredentials U rest behind) :
    ∃ space, Str.Blank space ∧ (space = [] ↔ Str.trimEnd endpoint = endpoint) ∧
      (Reading.read U endpoint).domain =
        (behind ++ space).takeWhile domainChar := by
  obtain ⟨scheme, -, space, hspace, hendpoint, hscan⟩ :=
    scanScheme_of_asksTls hasks hflush
  refine ⟨space, hspace, ?_, ?_⟩
  · have htrim : Str.trim endpoint = Str.trimEnd endpoint := by
      rw [Str.trim, hflush]
    rw [← htrim]
    constructor
    · rintro rfl
      exact (hendpoint.trans (List.append_nil _)).symm
    · intro heq
      rw [heq] at hendpoint
      simpa using hendpoint
  · rw [domain_eq_takeWhile, hscan, scanCredentials_behind hspace,
      behindCredentials_iff.mp hbehind]

theorem takeWhile_domainChar (s : Text) :
    s.takeWhile domainChar =
      (s.takeWhile schemeChar).takeWhile (· != ':') := by
  rw [List.takeWhile_takeWhile]
  congr 1
  funext c
  rw [Bool.eq_iff_iff]
  simp only [domainChar, schemeChar, Bool.and_eq_true, decide_eq_true_eq]
  tauto

/-- The name the certificate is checked against is the host of the URL, unless
white space has become part of it or the host stands elsewhere. -/
theorem domain_agrees_iff {endpoint rest behind : Text} {t : Transport}
    (h : connect U endpoint = .ok t) (hasks : AsksTls endpoint rest)
    (hflush : Str.trimStart endpoint = endpoint)
    (hbehind : BehindCredentials U rest behind) :
    (∀ name ∈ t.domainName, hostOf t.url = some name) ↔
      (Str.trimEnd endpoint = endpoint ∨ ∃ c ∈ behind, domainChar c = false) ∧
        ((∀ c ∈ behind.head?, domainChar c = false) ∨
          SameHost (behind.takeWhile schemeChar)) := by
  obtain ⟨hurl, htls, hdomain⟩ := connect_eq_ok h
  obtain ⟨scheme, hscheme, hhas⟩ := hasScheme_of_asksTls hasks hflush
  have hsecured : t.isTls = true :=
    htls.mpr ⟨scheme, hscheme, scheme, hhas, by simp [Str.eqIgnoreAsciiCase]⟩
  have hhost : hostOf t.url = Authority.host (behind.takeWhile schemeChar) := by
    rcases normalizeEndpoint_eq_ok hurl with ⟨rest', hasks', heq⟩ | ⟨hnot, -⟩
    · rw [heq, asksTls_unique hasks' hasks, hostOf_withScheme hbehind]
    · exact absurd hasks (hnot rest)
  obtain ⟨space, hspace, hnil, hread⟩ :=
    domain_eq_of_asksTls hasks hflush hbehind
  rw [← hdomain] at hread
  have hname : (∀ name ∈ t.domainName, hostOf t.url = some name) ↔
      (t.domain ≠ [] → hostOf t.url = some t.domain) := by
    simp [Transport.domainName, hsecured]
  rw [hname, hhost, hread, ← hnil]
  by_cases hclosed : space = [] ∨ ∃ c ∈ behind, domainChar c = false
  · have htake : (behind ++ space).takeWhile domainChar =
        behind.takeWhile domainChar := by
      rcases hclosed with rfl | ⟨c, hc, hstop⟩
      · rw [List.append_nil]
      · exact takeWhile_append_of_mem hc hstop
    have hnone : behind.takeWhile domainChar = [] ↔
        ∀ c ∈ behind.head?, domainChar c = false := by
      cases behind <;> simp
    rw [htake, ← hnone, takeWhile_domainChar, sameHost_iff]
    exact ⟨fun hsame => ⟨hclosed, or_iff_not_imp_left.mpr hsame⟩,
      fun hsame => or_iff_not_imp_left.mp hsame.2⟩
  · -- The domain runs into the white space, which the URL has lost.
    refine iff_of_false ?_ fun hsame => hclosed hsame.1
    obtain ⟨hspace_ne, hchars⟩ := not_or.mp hclosed
    have hall : ∀ c ∈ behind, domainChar c = true := by
      intro c hc
      by_contra hstop
      exact hchars ⟨c, hc, by simpa using hstop⟩
    rw [takeWhile_behind hspace hall]
    intro hsame
    obtain ⟨-, hlength⟩ := Authority.host_spec (hsame (by simp [hspace_ne]))
    have hbound := (List.takeWhile_prefix schemeChar (l := behind)).length_le
    have hpos := List.length_pos_of_ne_nil hspace_ne
    rw [List.length_append] at hlength
    omega

/-- The decisions agree with the URL exactly on the settled endpoints. -/
theorem consistent_iff_settled {endpoint : Text} {t : Transport}
    (h : connect U endpoint = .ok t) :
    Consistent t ↔ Settled U endpoint := by
  constructor
  · rintro ⟨hscheme, hdomain⟩
    obtain ⟨hlower, hflush⟩ := (scheme_agrees_iff h).mp hscheme
    have hboth := fun rest behind (hasks : AsksTls endpoint rest)
        (hbehind : BehindCredentials U rest behind) =>
      (domain_agrees_iff h hasks (hflush rest hasks) hbehind).mp hdomain
    exact ⟨hlower, hflush, fun rest behind hasks hbehind =>
      (hboth rest behind hasks hbehind).1, fun rest behind hasks hbehind =>
      (hboth rest behind hasks hbehind).2⟩
  · rintro ⟨hlower, hflush, hclosed, hhost⟩
    have hscheme := (scheme_agrees_iff h).mpr ⟨hlower, hflush⟩
    refine ⟨hscheme, ?_⟩
    by_cases hasks : ∃ rest, AsksTls endpoint rest
    · obtain ⟨rest, hasks⟩ := hasks
      have hbehind : BehindCredentials U rest (scanCredentials U rest).2 :=
        behindCredentials_iff.mpr rfl
      exact (domain_agrees_iff h hasks (hflush rest hasks) hbehind).mpr
        ⟨hclosed rest _ hasks hbehind, hhost rest _ hasks hbehind⟩
    · rw [← https_isPrefix_iff (connect_eq_ok h).1] at hasks
      have hplain : t.isTls ≠ true := fun htls => hasks (hscheme.mpr htls)
      simp [Transport.domainName, hplain]

/-- `grpcs://h` is settled. -/
theorem settled_grpcs :
    ∃ t, connect CharClasses.ascii "grpcs://h".toList = .ok t ∧
      t.domainName = some "h".toList ∧
        Settled CharClasses.ascii "grpcs://h".toList := by
  have h : connect CharClasses.ascii "grpcs://h".toList =
      .ok ⟨"https://h".toList, true, "h".toList⟩ := by
    rw [connect, getUri_eq_ok_iff.mpr ⟨by decide, rfl⟩]
    decide
  exact ⟨_, h, by decide, (consistent_iff_settled h).mp
    ⟨by decide, by decide⟩⟩

/-- `GRPCS://h` is secured and handed over as a plaintext URL. -/
theorem not_consistent_upper_case :
    ∃ t, connect CharClasses.ascii "GRPCS://h".toList = .ok t ∧
      t.url = "http://GRPCS://h".toList ∧ t.isTls = true ∧ ¬Consistent t := by
  refine ⟨⟨"http://GRPCS://h".toList, true, "h".toList⟩, ?_, rfl, rfl, ?_⟩
  · rw [connect, getUri_eq_ok_iff.mpr ⟨by decide, rfl⟩]
    decide
  · rintro ⟨hscheme, -⟩
    revert hscheme
    decide

end Grpc

end KnockKnock
