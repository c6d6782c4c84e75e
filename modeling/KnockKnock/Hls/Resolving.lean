import KnockKnock.Hls.Playlist
import KnockKnock.Targets.Endpoints
import KnockKnock.Uri.Printing

/-!
# Where a resolved reference leads

`resolve_relative` drops the credentials of its base and splices the host, a
directory and the reference into a text, which is parsed again.  A directory
that begins with a word and `@` then turns a host with its port into
credentials; `resolvesInside_iff` says that nothing else leads elsewhere.
-/

namespace KnockKnock

open Numeral Reading Spans

variable (U : CharClasses) (serverName : ServerNames)

namespace Hls

/-- A reference that is used as it is. -/
def Absolute (reference : Text) : Prop :=
  "http://".toList <+: reference ∨ "https://".toList <+: reference

/-- A path up to its last `/`, or `/` if it has none. -/
def directory (path : Text) : Text :=
  if '/' ∈ path then path.rdropWhile (· != '/') else ['/']

/-- The path of a reference that is not absolute. -/
def resolvedPath (path reference : Text) : Text :=
  if ['/'] <+: reference then reference else directory path ++ reference

/-- The scheme of a base; it is `http` where there is none. -/
def baseScheme (uri : URI) : Text :=
  if uri.scheme = [] then "http".toList else uri.scheme

/-- The resolved reference parses to the scheme, the domain and the port of the
base and to the path meant, and the same connection is made for it. -/
structure LeadsInside (base : Text) (uri : URI) (reference resolved : Text)
    (uri' : URI) : Prop where
  resolves : resolveRelative U base reference = .ok resolved
  parses : getUri U resolved = .ok uri'
  scheme : uri'.scheme = baseScheme uri
  domain : uri'.domain = uri.domain
  port : uri'.port = uri.port
  path : uri'.path = resolvedPath uri.path reference
  connects : connect U serverName resolved = connect U serverName base

/-- Absolute references are kept, all others stay at the server of the base. -/
structure ResolvesInside (base : Text) (uri : URI) (reference : Text) :
    Prop where
  absolute : Absolute reference →
    resolveRelative U base reference = .ok reference
  relative : ¬Absolute reference →
    ∃ resolved uri', LeadsInside U serverName base uri reference resolved uri'

/-- The domain is a word, has a port, and is followed by a directory that
begins with a word and `@`, in front of a reference that stays in it. -/
structure Disguised (uri : URI) (reference : Text) : Prop where
  relative : ¬Absolute reference ∧ ¬['/'] <+: reference
  domain : ∀ c ∈ uri.domain, U.word c = true
  port : uri.host ≠ uri.domain
  directory : ∃ word rest, directory uri.path = word ++ '@' :: rest ∧
    ∀ c ∈ word, U.word c = true

variable {U serverName}

/-! ## What is spliced -/

theorem directory_of_mem {front back : Text} (hback : '/' ∉ back) :
    directory (front ++ '/' :: back) = front ++ ['/'] := by
  have hrev : ∀ c ∈ back.reverse, (c != '/') = true := by
    intro c hc
    rw [bne_iff_ne]
    rintro rfl
    exact hback (List.mem_reverse.mp hc)
  rw [directory, if_pos (by simp), List.rdropWhile, List.reverse_append,
    List.reverse_cons, List.append_assoc, List.dropWhile_append_of_pos hrev]
  simp

/-- A directory ends with its only mark that it is one. -/
theorem exists_directory (path : Text) :
    ∃ front, directory path = front ++ ['/'] ∧
      ((Str.rsplitOnce '/' path).map Prod.fst).getD [] = front ∧
      (front = [] ∨ ∃ back, path = front ++ '/' :: back) := by
  by_cases hmem : '/' ∈ path
  · obtain ⟨front, back, rfl, hback⟩ := Str.exists_last_occurrence hmem
    refine ⟨front, directory_of_mem hback, ?_, Or.inr ⟨back, rfl⟩⟩
    rw [Str.rsplitOnce_append hback]
    rfl
  · refine ⟨[], by rw [directory, if_neg hmem]; rfl, ?_, Or.inl rfl⟩
    rw [Str.rsplitOnce_eq_none_iff.mpr hmem]
    rfl

/-- The scheme and the host of the base, and the path meant. -/
theorem resolveRelative_eq {base reference : Text} {uri : URI}
    (hbase : getUri U base = .ok uri) (hhost : uri.host ≠ [])
    (hrelative : ¬Absolute reference) :
    resolveRelative U base reference =
      .ok (baseScheme uri ++ ':' :: '/' :: '/' ::
        (uri.host ++ resolvedPath uri.path reference)) := by
  obtain ⟨front, hdirectory, hdir, -⟩ := exists_directory uri.path
  have hkeep : ¬("http://".toList <+: reference ∨
      "https://".toList <+: reference) := hrelative
  unfold resolveRelative
  rw [if_neg hkeep, hbase, Outcome.bind_ok]
  dsimp only
  rw [if_neg hhost, ← baseScheme, hdir]
  by_cases hroot : ['/'] <+: reference
  · obtain ⟨rest, rfl⟩ := hroot
    rw [Str.stripPrefix_eq_some_iff.mpr rfl, resolvedPath,
      if_pos (List.prefix_append _ _)]
    simp [pure, Except.pure]
  · have hnone : Str.stripPrefix ['/'] reference = none := if_neg hroot
    rw [hnone, resolvedPath, if_neg hroot, hdirectory]
    dsimp only
    split
    next hnil => simp [hnil, pure, Except.pure]
    next => simp [pure, Except.pure]

end Hls

namespace Reading

variable {U}

/-! ## Hosts in front of other paths -/

theorem scanHost_eq_bare_iff {s domain rest : Text} :
    scanHost U s = (some (domain, none), rest) ↔
      domain ≠ [] ∧ IsSpan domainChar s domain rest ∧
        rest.head? ≠ some ':' := by
  constructor
  · intro h
    have hfst : (scanHost U s).1 = some (domain, none) := by rw [h]
    have hne := (scanHost_domain hfst).1
    have hrun : s.takeWhile domainChar = domain := by
      have hdomain := domain_scanHost U s
      rw [hfst] at hdomain
      exact hdomain.symm
    rw [scanHost_of_domain hrun hne] at h
    have hspan := isSpan_takeWhile domainChar s
    rw [hrun] at hspan
    split at h
    · cases h
    next hcolon =>
      obtain rfl : s.dropWhile domainChar = rest := (Prod.mk.inj h).2
      refine ⟨hne, hspan, fun hhead => ?_⟩
      obtain ⟨tail, htail⟩ := List.head?_eq_some_iff.mp hhead
      exact hcolon tail htail
  · rintro ⟨hne, hspan, hcolon⟩
    rw [scanHost_of_domain hspan.takeWhile_eq hne, hspan.dropWhile_eq]
    split
    · exact absurd rfl hcolon
    · rfl

theorem scanHost_eq_numbered_iff {s domain port rest : Text} :
    scanHost U s = (some (domain, some port), rest) ↔
      domain ≠ [] ∧ (∀ c ∈ domain, domainChar c = true) ∧
        ∃ tail, s = domain ++ ':' :: tail ∧
          IsSpan U.digit tail port rest := by
  constructor
  · intro h
    have hfst : (scanHost U s).1 = some (domain, some port) := by rw [h]
    obtain ⟨hne, hchars, tail, rfl, rfl⟩ := scanHost_eq_port_iff.mp hfst
    refine ⟨hne, hchars, tail, rfl, ?_⟩
    have hspan : IsSpan domainChar (domain ++ ':' :: tail) domain
        (':' :: tail) := isSpan_cons hchars (by decide)
    rw [scanHost_of_domain hspan.takeWhile_eq hne, hspan.dropWhile_eq] at h
    obtain rfl : tail.dropWhile U.digit = rest := (Prod.mk.inj h).2
    exact isSpan_takeWhile U.digit tail
  · rintro ⟨hne, hchars, tail, rfl, hspan⟩
    have hdomain : IsSpan domainChar (domain ++ ':' :: tail) domain
        (':' :: tail) := isSpan_cons hchars (by decide)
    rw [scanHost_of_domain hdomain.takeWhile_eq hne, hdomain.dropWhile_eq]
    change (some (domain, some (tail.takeWhile U.digit)),
      tail.dropWhile U.digit) = _
    rw [hspan.takeWhile_eq, hspan.dropWhile_eq]

theorem digit_slash (U : CharClasses) : U.digit '/' = false :=
  U.digit_ascii '/' (by decide)

/-- A host is read again in front of a `/`, and in front of anything that
begins like what stood behind it. -/
theorem scanHost_splice {s rest p : Text} {host : Text × Option Text}
    (h : scanHost U s = (some host, rest))
    (hp : p.head? = some '/' ∨ p.head? = (rest.takeWhile pathChar).head?) :
    scanHost U (hostText (some host) ++ p) = (some host, p) := by
  have hhead : ∀ c ∈ p.head?, c = '/' ∨ c ∈ rest.head? := by
    intro c hc
    rcases hp with hp | hp
    · rw [hp] at hc
      exact Or.inl (Option.mem_some_iff.mp hc).symm
    · rw [hp, List.head?_takeWhile] at hc
      exact Or.inr (Option.mem_filter_iff.mp hc).1
  obtain ⟨domain, _ | port⟩ := host
  · obtain ⟨hne, hspan, hcolon⟩ := scanHost_eq_bare_iff.mp h
    have hstop : ∀ c ∈ p.head?, domainChar c = false ∧ c ≠ ':' := by
      intro c hc
      rcases hhead c hc with rfl | hrest
      · decide
      · refine ⟨hspan.stop c hrest, ?_⟩
        rintro rfl
        exact hcolon hrest
    exact scanHost_eq_bare_iff.mpr ⟨hne,
      ⟨rfl, hspan.inside, fun c hc => (hstop c hc).1⟩,
      fun hp => (hstop ':' hp).2 rfl⟩
  · obtain ⟨hne, hchars, tail, rfl, hspan⟩ := scanHost_eq_numbered_iff.mp h
    have hstop : ∀ c ∈ p.head?, U.digit c = false := by
      intro c hc
      rcases hhead c hc with rfl | hrest
      · exact digit_slash U
      · exact hspan.stop c hrest
    exact scanHost_eq_numbered_iff.mpr ⟨hne, hchars, port ++ p,
      by simp [hostText], rfl, hspan.inside, hstop⟩

end Reading

namespace Hls

variable {U serverName} {base reference rest : Text} {uri : URI}
  {host : Text × Option Text}

/-! ## The parts of the base -/

/-- The base was read with this host, in front of `rest`. -/
structure BaseParts (U : CharClasses) (uri : URI)
    (host : Text × Option Text) (rest : Text) : Prop where
  text : ∃ s, scanHost U s = (some host, rest)
  host_eq : uri.host = hostText (some host)
  domain_eq : uri.domain = host.1
  port_eq : uri.port = ((host.2.map value).getD 0 : ℕ)
  path_eq : uri.path = rest.takeWhile pathChar
  readable : ∀ port ∈ host.2, IsDigits port ∧ value port ≤ 2147483647
  scheme : ∀ c ∈ uri.scheme, schemeChar c = true

theorem exists_baseParts (hbase : getUri U base = .ok uri)
    (hhost : uri.host ≠ []) : ∃ host rest, BaseParts U uri host rest := by
  obtain ⟨hport, rfl⟩ := getUri_eq_ok_iff.mp hbase
  rw [toURI_host] at hhost
  obtain ⟨host, hread⟩ : ∃ host, (read U base).host = some host := by
    cases hread : (read U base).host with
    | none => simp [hread, hostText] at hhost
    | some host => exact ⟨host, rfl⟩
  refine ⟨host, (scanHost U (scanCredentials U (scanScheme base).2).2).2,
    ⟨_, Prod.ext hread rfl⟩, ?_, ?_, ?_, rfl, ?_, ?_⟩
  · rw [toURI_host, hread]
  · simp [toURI, Reading.domain, hread]
  · simp [toURI, portNumber, Reading.port, hread]
  · unfold PortReadable Reading.port at hport
    rw [hread] at hport
    exact hport
  · cases hscheme : (read U base).scheme with
    | none => simp [toURI, hscheme]
    | some t =>
        have hscan : scanScheme base = (some t, (scanScheme base).2) :=
          Prod.ext hscheme rfl
        simpa [toURI, hscheme] using (scanScheme_eq_some_iff.mp hscan).2.2

theorem BaseParts.ne_nil (h : BaseParts U uri host rest) : host.1 ≠ [] := by
  obtain ⟨s, hs⟩ := h.text
  have hfst : (scanHost U s).1 = some (host.1, host.2) := by rw [hs]
  exact (scanHost_domain hfst).1

theorem BaseParts.domainChars (h : BaseParts U uri host rest) :
    ∀ c ∈ host.1, domainChar c = true := by
  obtain ⟨s, hs⟩ := h.text
  have hfst : (scanHost U s).1 = some (host.1, host.2) := by rw [hs]
  exact (scanHost_domain hfst).2

theorem BaseParts.digits (h : BaseParts U uri host rest) :
    ∀ port ∈ host.2, ∀ c ∈ port, U.digit c = true := by
  intro port hport
  obtain ⟨s, hs⟩ := h.text
  have hfst : (scanHost U s).1 = some (host.1, some port) := by
    rw [hs, ← Option.mem_def.mp hport]
  exact scanHost_port hfst

/-- The host of the base is read again in front of a resolved path. -/
theorem BaseParts.scanHost_resolvedPath (h : BaseParts U uri host rest)
    (reference : Text) :
    scanHost U (uri.host ++ resolvedPath uri.path reference) =
      (some host, resolvedPath uri.path reference) := by
  obtain ⟨s, hs⟩ := h.text
  rw [h.host_eq]
  refine scanHost_splice hs ?_
  unfold resolvedPath
  by_cases hroot : ['/'] <+: reference
  · obtain ⟨t, rfl⟩ := hroot
    rw [if_pos (List.prefix_append _ _)]
    exact Or.inl rfl
  · rw [if_neg hroot]
    obtain ⟨front, hdirectory, -, rfl | ⟨back, hpath⟩⟩ :=
      exists_directory uri.path
    · rw [hdirectory]
      exact Or.inl rfl
    · rw [hdirectory, ← h.path_eq, hpath]
      cases front with
      | nil => exact Or.inl rfl
      | cons c front => exact Or.inr rfl

/-! ## Credentials that are none -/

theorem slash_not_mem {word : Text} (hword : ∀ c ∈ word, U.word c = true) :
    '/' ∉ word := by
  intro hmem
  have hslash := hword '/' hmem
  rw [U.word_ascii '/' (by decide)] at hslash
  exact absurd hslash (by decide)

/-- A word in front of a `@` that begins a directory lies inside it. -/
theorem word_in_directory {path word behind : Text}
    (hword : ∀ c ∈ word, U.word c = true)
    (h : directory path ++ reference = word ++ '@' :: behind) :
    ∃ more, directory path = word ++ '@' :: more := by
  obtain ⟨front, hdirectory, -, -⟩ := exists_directory path
  rw [hdirectory, List.append_assoc] at h
  rw [hdirectory]
  obtain ⟨t, rfl, ht⟩ :=
    exists_of_append_eq_append_cons (slash_not_mem hword) h.symm
  cases t with
  | nil => exact absurd (List.cons.inj ht).1 (by decide)
  | cons c t =>
      obtain ⟨rfl, -⟩ := List.cons.inj ht
      exact ⟨t ++ ['/'], by simp⟩

/-- A host and a directory in disguise are read as credentials. -/
theorem BaseParts.scanCredentials_disguised (h : BaseParts U uri host rest)
    (hdisguised : Disguised U uri reference) :
    ∃ u p word behind,
      scanCredentials U (uri.host ++ resolvedPath uri.path reference) =
        (some (u, p), behind) ∧
      resolvedPath uri.path reference = word ++ '@' :: behind := by
  obtain ⟨domain, port⟩ := host
  obtain ⟨⟨-, hroot⟩, hword, hport, word, more, hdirectory, hwords⟩ :=
    hdisguised
  rw [h.domain_eq] at hword hport
  obtain ⟨port, rfl⟩ : ∃ n, port = some n := by
    cases port with
    | none => exact absurd h.host_eq hport
    | some n => exact ⟨n, rfl⟩
  have hpath : resolvedPath uri.path reference =
      word ++ '@' :: (more ++ reference) := by
    rw [resolvedPath, if_neg hroot, hdirectory]
    simp
  obtain ⟨⟨hne, -⟩, -⟩ := h.readable port rfl
  refine ⟨domain, port ++ word, word, more ++ reference, ?_, hpath⟩
  refine scanCredentials_eq_some_iff.mpr ⟨?_, h.ne_nil, ?_, hword, ?_⟩
  · rw [h.host_eq, hpath]
    simp [hostText]
  · simp [hne]
  · intro c hc
    rcases List.mem_append.mp hc with hc | hc
    · exact U.word_of_digit c (h.digits port rfl c hc)
    · exact hwords c hc

/-- A host without a port has no colon behind it. -/
theorem BaseParts.scanCredentials_bare {domain u p behind : Text}
    (h : BaseParts U uri (domain, none) rest) :
    scanCredentials U (uri.host ++ resolvedPath uri.path reference) ≠
      (some (u, p), behind) := by
  intro hscan
  obtain ⟨heq, -, -, huw, -⟩ := scanCredentials_eq_some_iff.mp hscan
  obtain ⟨-, hspan, hhead⟩ :=
    scanHost_eq_bare_iff.mp (h.scanHost_resolvedPath reference)
  have hspan' : IsSpan domainChar
      (uri.host ++ resolvedPath uri.path reference) u
      (':' :: (p ++ '@' :: behind)) := by
    rw [heq]
    exact isSpan_cons (fun c hc => domainChar_of_word (huw c hc))
      (by decide)
  rw [← hspan.dropWhile_eq, hspan'.dropWhile_eq] at hhead
  exact hhead rfl

/-- Credentials in front of a resolved path are the domain, and the port with a
word of the path. -/
theorem BaseParts.exists_word {domain port u p behind : Text}
    (h : BaseParts U uri (domain, some port) rest)
    (hscan : scanCredentials U (uri.host ++ resolvedPath uri.path reference) =
      (some (u, p), behind)) :
    (∀ c ∈ domain, U.word c = true) ∧
      ∃ word, (∀ c ∈ word, U.word c = true) ∧
        resolvedPath uri.path reference = word ++ '@' :: behind := by
  have hcolon : ':' ∉ domain := by
    intro hmem
    exact absurd (h.domainChars ':' hmem) (by decide)
  obtain ⟨heq, -, -, huw, hpw⟩ := scanCredentials_eq_some_iff.mp hscan
  have hcolon' : ':' ∉ u := by
    intro hmem
    exact absurd (huw ':' hmem) (by simp [word_colon])
  have hat : '@' ∉ port := by
    intro hmem
    have hdigit := U.word_of_digit '@' (h.digits port rfl '@' hmem)
    rw [word_at] at hdigit
    cases hdigit
  rw [h.host_eq] at heq
  simp only [hostText, List.append_assoc, List.cons_append] at heq
  obtain ⟨rfl, hbehind⟩ := split_unique hcolon hcolon' heq
  obtain ⟨word, rfl, hpath⟩ := exists_of_append_eq_append_cons hat hbehind
  exact ⟨huw, word, fun c hc => hpw c (List.mem_append_right _ hc), hpath⟩

/-- Nothing else is read as credentials in front of a resolved path. -/
theorem BaseParts.disguised_of_scanCredentials
    (h : BaseParts U uri host rest) (hrelative : ¬Absolute reference)
    {u p behind : Text}
    (hscan : scanCredentials U (uri.host ++ resolvedPath uri.path reference) =
      (some (u, p), behind)) : Disguised U uri reference := by
  obtain ⟨domain, _ | port⟩ := host
  · exact absurd hscan h.scanCredentials_bare
  obtain ⟨hdomain, word, hword, hpath⟩ := h.exists_word hscan
  have hroot : ¬['/'] <+: reference := by
    rintro ⟨t, rfl⟩
    rw [resolvedPath, if_pos (List.prefix_append _ _)] at hpath
    obtain ⟨-, ht⟩ | ⟨w, rfl, -⟩ := List.cons_eq_append_iff.mp hpath
    · simp at ht
    · exact slash_not_mem hword List.mem_cons_self
  rw [resolvedPath, if_neg hroot] at hpath
  obtain ⟨more, hdirectory⟩ := word_in_directory hword hpath
  refine ⟨⟨hrelative, hroot⟩, ?_, ?_, word, more, hdirectory, hword⟩
  · rw [h.domain_eq]
    exact hdomain
  · rw [h.host_eq, h.domain_eq]
    simp [hostText]

/-! ## Parsing the resolved text -/

theorem baseScheme_ne_nil (uri : URI) : baseScheme uri ≠ [] := by
  unfold baseScheme
  split
  · decide
  next hne => exact hne

theorem BaseParts.schemeChars (h : BaseParts U uri host rest) :
    ∀ c ∈ baseScheme uri, schemeChar c = true := by
  unfold baseScheme
  split
  · decide
  · exact h.scheme

theorem pathChar_of_domainChar {c : Char} (h : domainChar c = true) :
    pathChar c = true := by
  simp only [domainChar, pathChar, Bool.and_eq_true] at *
  exact ⟨h.1.1.2, h.1.2⟩

theorem pathChar_of_word {c : Char} (h : U.word c = true) :
    pathChar c = true :=
  pathChar_of_domainChar (domainChar_of_word h)

theorem BaseParts.pathChar_host (h : BaseParts U uri host rest) :
    ∀ c ∈ uri.host, pathChar c = true := by
  obtain ⟨domain, port⟩ := host
  have hdomain : ∀ c ∈ domain, pathChar c = true := fun c hc =>
    pathChar_of_domainChar (h.domainChars c hc)
  rw [h.host_eq]
  cases port with
  | none => exact hdomain
  | some port =>
      intro c hc
      simp only [hostText, List.mem_append, List.mem_cons] at hc
      rcases hc with hc | rfl | hc
      · exact hdomain c hc
      · decide
      · exact pathChar_of_word (U.word_of_digit c (h.digits port rfl c hc))

theorem BaseParts.pathChar_resolvedPath (h : BaseParts U uri host rest)
    (hreference : ∀ c ∈ reference, pathChar c = true) :
    ∀ c ∈ resolvedPath uri.path reference, pathChar c = true := by
  unfold resolvedPath
  split
  · exact hreference
  · intro c hc
    rcases List.mem_append.mp hc with hc | hc
    · obtain ⟨front, hdirectory, -, hfront⟩ := exists_directory uri.path
      rw [hdirectory, List.mem_append, List.mem_singleton] at hc
      rcases hc with hc | rfl
      · rcases hfront with rfl | ⟨back, hpath⟩
        · simp at hc
        · rw [h.path_eq] at hpath
          refine List.mem_takeWhile_imp (l := rest) ?_
          rw [hpath]
          exact List.mem_append_left _ hc
      · decide
    · exact hreference c hc

/-- The resolved text, read again. -/
theorem BaseParts.read_resolved (h : BaseParts U uri host rest)
    (hreference : ∀ c ∈ reference, pathChar c = true) :
    let front := uri.host ++ resolvedPath uri.path reference
    read U (baseScheme uri ++ ':' :: '/' :: '/' :: front) =
      { scheme := some (baseScheme uri)
        credentials := (scanCredentials U front).1
        host := (scanHost U (scanCredentials U front).2).1
        path := (scanHost U (scanCredentials U front).2).2
        query := none
        fragment := none } := by
  intro front
  have hfront : ∀ c ∈ front, pathChar c = true := by
    intro c hc
    rcases List.mem_append.mp hc with hc | hc
    · exact h.pathChar_host c hc
    · exact h.pathChar_resolvedPath hreference c hc
  have hstop : ∀ c ∈ ([] : Text).head?, pathChar c = false := by simp
  have hread := read_append_stop (U := U) (baseScheme_ne_nil uri)
    h.schemeChars hfront hstop
  rw [List.append_nil] at hread
  exact hread

/-- Two URIs of one server are connected to alike. -/
theorem connect_congr {url url' : Text} {uri uri' : URI}
    (hurl : getUri U url = .ok uri) (hurl' : getUri U url' = .ok uri')
    (hscheme : uri'.scheme = baseScheme uri)
    (hdomain : uri'.domain = uri.domain) (hport : uri'.port = uri.port) :
    connect U serverName url' = connect U serverName url := by
  have hendpoint : ∀ n, endpointFor uri' n = endpointFor uri n := by
    intro n
    simp only [endpointFor, endpointOr, portOr, hdomain, hport]
  have htls : ∀ e, connectTls serverName uri' e = connectTls serverName uri e := by
    intro e
    simp only [connectTls, hdomain]
  unfold connect
  rw [hurl, hurl', Outcome.bind_ok, Outcome.bind_ok, hendpoint, hendpoint,
    htls]
  unfold dispatchScheme
  rw [hscheme, baseScheme]
  by_cases hnone : uri.scheme = []
  · rw [if_pos hnone, hnone]
    rfl
  · rw [if_neg hnone]

/-! ## Which references stay -/

theorem BaseParts.leadsInside (h : BaseParts U uri host rest)
    (hbase : getUri U base = .ok uri) (hhost : uri.host ≠ [])
    (hreference : ∀ c ∈ reference, pathChar c = true)
    (hrelative : ¬Absolute reference) (hnot : ¬Disguised U uri reference) :
    ∃ resolved uri',
      LeadsInside U serverName base uri reference resolved uri' := by
  have hread := h.read_resolved hreference
  have hnone : (scanCredentials U
      (uri.host ++ resolvedPath uri.path reference)).1 = none := by
    by_contra hsome
    obtain ⟨⟨u, p⟩, hup⟩ := Option.ne_none_iff_exists'.mp hsome
    exact hnot (h.disguised_of_scanCredentials hrelative (Prod.ext hup rfl))
  have hbehind := scanCredentials_eq_none hnone
  dsimp only at hread
  rw [hbehind, h.scanHost_resolvedPath] at hread
  have hresolves := resolveRelative_eq hbase hhost hrelative
  generalize baseScheme uri ++ ':' :: '/' :: '/' ::
    (uri.host ++ resolvedPath uri.path reference) = resolved
    at hread hresolves
  have hparses : getUri U resolved = .ok (read U resolved).toURI := by
    refine getUri_eq_ok_iff.mpr ⟨?_, rfl⟩
    rw [hread]
    exact h.readable
  have hscheme : (read U resolved).toURI.scheme = baseScheme uri := by
    rw [hread]
    rfl
  have hdomain : (read U resolved).toURI.domain = uri.domain := by
    rw [hread, h.domain_eq]
    rfl
  have hport : (read U resolved).toURI.port = uri.port := by
    rw [hread, h.port_eq]
    rfl
  refine ⟨resolved, _, hresolves, hparses, hscheme, hdomain, hport, ?_,
    connect_congr hbase hparses hscheme hdomain hport⟩
  rw [hread]
  rfl

/-- Behind credentials there is less left than the path meant. -/
theorem BaseParts.not_leadsInside (h : BaseParts U uri host rest)
    (hbase : getUri U base = .ok uri) (hhost : uri.host ≠ [])
    (hreference : ∀ c ∈ reference, pathChar c = true)
    (hdisguised : Disguised U uri reference) {resolved : Text} {uri' : URI} :
    ¬LeadsInside U serverName base uri reference resolved uri' := by
  intro hleads
  obtain ⟨u, p, word, behind, hscan, hpath⟩ :=
    h.scanCredentials_disguised hdisguised
  have hread := h.read_resolved hreference
  have hresolves := resolveRelative_eq hbase hhost hdisguised.relative.1
  rw [hleads.resolves, Except.ok.injEq] at hresolves
  dsimp only at hread
  rw [← hresolves, hscan] at hread
  obtain ⟨-, rfl⟩ := getUri_eq_ok_iff.mp hleads.parses
  have hlength := congrArg List.length hleads.path
  rw [hread, hpath] at hlength
  change (scanHost U behind).2.length = _ at hlength
  have hbehind := congrArg List.length (hostText_append U behind)
  rw [List.length_append] at hbehind
  simp only [List.length_append, List.length_cons] at hlength
  omega

/-- References resolve to the server of the base exactly when the host and the
directory are not disguised as credentials. -/
theorem resolvesInside_iff (hbase : getUri U base = .ok uri)
    (hhost : uri.host ≠ []) (hreference : ∀ c ∈ reference, pathChar c = true) :
    ResolvesInside U serverName base uri reference ↔
      ¬Disguised U uri reference := by
  obtain ⟨host, rest, h⟩ := exists_baseParts hbase hhost
  constructor
  · rintro ⟨-, hrelative⟩ hdisguised
    obtain ⟨resolved, uri', hleads⟩ := hrelative hdisguised.relative.1
    exact h.not_leadsInside hbase hhost hreference hdisguised hleads
  · intro hnot
    refine ⟨fun habsolute => if_pos habsolute, fun hrelative => ?_⟩
    exact h.leadsInside hbase hhost hreference hrelative hnot

/-- The same-directory reference of the tests. -/
theorem resolvesInside_seg :
    let base := "https://cdn.example.com:8443/path/playlist.m3u8".toList
    let uri := (read .ascii base).toURI
    ResolvesInside .ascii (fun _ => .ok ()) base uri "seg.ts".toList ↔
      ¬Disguised .ascii uri "seg.ts".toList :=
  resolvesInside_iff (getUri_eq_ok_iff.mpr ⟨by decide, rfl⟩) (by decide)
    (by decide)

/-- The segment of a playlist at `host` is fetched from `evil`. -/
theorem not_resolvesInside_evil :
    let base := "http://u:p@host:80@evil/live.m3u8".toList
    let uri := (read .ascii base).toURI
    getUri .ascii base = .ok uri ∧ uri.host = "host:80".toList ∧
      resolveRelative .ascii base "seg.ts".toList =
        .ok "http://host:80@evil/seg.ts".toList ∧
      ¬ResolvesInside .ascii (fun _ => .ok ()) base uri "seg.ts".toList := by
  intro base uri
  have hbase : getUri .ascii base = .ok uri :=
    getUri_eq_ok_iff.mpr ⟨by decide, rfl⟩
  have hhost : uri.host = "host:80".toList := by decide
  have hrelative : ¬Absolute "seg.ts".toList := by
    unfold Absolute
    decide
  have hdisguised : Disguised .ascii uri "seg.ts".toList :=
    ⟨⟨hrelative, by decide⟩, by decide, by decide, [], "evil/".toList,
      by decide, by simp⟩
  have hne : uri.host ≠ [] := by
    rw [hhost]
    decide
  obtain ⟨host, rest, h⟩ := exists_baseParts hbase hne
  refine ⟨hbase, hhost, ?_, ?_⟩
  · rw [resolveRelative_eq hbase hne hrelative]
    decide
  · rintro ⟨-, hstays⟩
    obtain ⟨resolved, uri', hleads⟩ := hstays hrelative
    exact h.not_leadsInside hbase hne (by decide) hdisguised hleads

end Hls

end KnockKnock
