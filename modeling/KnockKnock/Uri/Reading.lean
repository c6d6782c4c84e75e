import KnockKnock.Support.Spans
import KnockKnock.Uri.Parse

/-!
# What the URI pattern reads

The pattern is a backtracking one, but it has only one way to read any text:
everything behind the scheme, the credentials and the host matches the empty
word, so the engine never returns to a group it has left.  `Reading` is that
reading, computed by scanning from left to right, and
`captures_eq_groupsOf_read` says that the engine reports exactly it.
-/

namespace KnockKnock

open Backtrack Backtrack.Pattern Numeral Spans

/-- The parts of a URL text, each absent when its group takes no part. -/
structure Reading where
  scheme : Option Text
  credentials : Option (Text × Text)
  host : Option (Text × Option Text)
  path : Text
  query : Option Text
  fragment : Option Text
deriving DecidableEq, Repr

namespace Reading

/-! ## Scanning -/

/-- The scheme ends at the `:` in front of the first `/`, `?` or `#`, and `//`
has to follow. -/
def scanScheme (s : Text) : Option Text × Text :=
  let run := s.takeWhile schemeChar
  match s.dropWhile schemeChar with
  | '/' :: '/' :: rest =>
      if run.dropLast ≠ [] ∧ run.getLast? = some ':'
      then (some run.dropLast, rest) else (none, s)
  | _ => (none, s)

/-- `word:word@` -/
def scanCredentials (U : CharClasses) (s : Text) :
    Option (Text × Text) × Text :=
  match s.takeWhile U.word, s.dropWhile U.word with
  | u :: us, ':' :: s' =>
      match s'.takeWhile U.word, s'.dropWhile U.word with
      | p :: ps, '@' :: rest => (some (u :: us, p :: ps), rest)
      | _, _ => (none, s)
  | _, _ => (none, s)

/-- The domain runs up to the first `/`, `?`, `#` or `:`; the digits behind a
`:` are the port. -/
def scanHost (U : CharClasses) (s : Text) :
    Option (Text × Option Text) × Text :=
  match s.takeWhile domainChar with
  | [] => (none, s)
  | domain =>
      match s.dropWhile domainChar with
      | ':' :: rest =>
          (some (domain, some (rest.takeWhile U.digit)),
            rest.dropWhile U.digit)
      | rest => (some (domain, none), rest)

def scanQuery : Text → Option Text × Text
  | '?' :: s => (some (s.takeWhile queryChar), s.dropWhile queryChar)
  | s => (none, s)

def scanFragment : Text → Option Text × Text
  | '#' :: s => (some (s.takeWhile anyChar), s.dropWhile anyChar)
  | s => (none, s)

/-- Read a URL text from left to right. -/
def read (U : CharClasses) (url : Text) : Reading :=
  let scheme := scanScheme url
  let credentials := scanCredentials U scheme.2
  let host := scanHost U credentials.2
  let query := scanQuery (host.2.dropWhile pathChar)
  { scheme := scheme.1
    credentials := credentials.1
    host := host.1
    path := host.2.takeWhile pathChar
    query := query.1
    fragment := (scanFragment query.2).1 }

/-- The text before the port, empty when there is no host. -/
def domain (r : Reading) : Text := (r.host.map Prod.fst).getD []

/-- The port text, when a `:` follows the domain. -/
def port (r : Reading) : Option Text := r.host.bind Prod.snd

/-- The number of the port text, 0 without one. -/
def portNumber (r : Reading) : ℕ := (r.port.map value).getD 0

/-! ## Which texts each scan accepts -/

theorem scanScheme_eq_some_iff {s t rest : Text} :
    scanScheme s = (some t, rest) ↔
      s = t ++ ':' :: '/' :: '/' :: rest ∧ t ≠ [] ∧
        ∀ c ∈ t, schemeChar c = true := by
  constructor
  · intro h
    unfold scanScheme at h
    dsimp only at h
    split at h
    next rest' hdrop =>
      split at h
      next hrun =>
        obtain ⟨hne, hlast⟩ := hrun
        cases h
        have hsplit := List.dropLast_append_getLast? _ hlast
        refine ⟨?_, hne, ?_⟩
        · calc
            s = s.takeWhile schemeChar ++ s.dropWhile schemeChar :=
              List.takeWhile_append_dropWhile.symm
            _ = ((s.takeWhile schemeChar).dropLast ++ [':']) ++
                  '/' :: '/' :: rest := by rw [hsplit, hdrop]
            _ = _ := by simp
        · intro c hc
          exact List.mem_takeWhile_imp (List.mem_of_mem_dropLast hc)
      · cases h
    · cases h
  · rintro ⟨rfl, hne, ht⟩
    have hspan : IsSpan schemeChar (t ++ ':' :: '/' :: '/' :: rest)
        (t ++ [':']) ('/' :: '/' :: rest) := by
      refine ⟨by simp, ?_, by simp [schemeChar]⟩
      intro c hc
      rcases List.mem_append.mp hc with hc | hc
      · exact ht c hc
      · rw [List.mem_singleton.mp hc]
        decide
    unfold scanScheme
    rw [hspan.takeWhile_eq, hspan.dropWhile_eq]
    simp [hne]

theorem scanScheme_eq_none {s : Text} (h : (scanScheme s).1 = none) :
    (scanScheme s).2 = s := by
  unfold scanScheme at h ⊢
  dsimp only at h ⊢
  split
  next rest hdrop =>
    rw [hdrop] at h
    split
    next hrun => simp [hrun] at h
    · rfl
  · rfl

theorem word_colon (U : CharClasses) : U.word ':' = false :=
  U.word_ascii ':' (by decide)

theorem word_at (U : CharClasses) : U.word '@' = false :=
  U.word_ascii '@' (by decide)

theorem scanCredentials_eq_some_iff {U : CharClasses} {s u p rest : Text} :
    scanCredentials U s = (some (u, p), rest) ↔
      s = u ++ ':' :: (p ++ '@' :: rest) ∧ u ≠ [] ∧ p ≠ [] ∧
        (∀ c ∈ u, U.word c = true) ∧ ∀ c ∈ p, U.word c = true := by
  constructor
  · intro h
    unfold scanCredentials at h
    split at h
    next c u' s' htake hdrop =>
      split at h
      next d p' rest' htake' hdrop' =>
        cases h
        have hs : s = (c :: u') ++ ':' :: s' := by
          rw [← htake, ← hdrop, List.takeWhile_append_dropWhile]
        have hs' : s' = (d :: p') ++ '@' :: rest := by
          rw [← htake', ← hdrop', List.takeWhile_append_dropWhile]
        refine ⟨by rw [hs, hs'], by simp, by simp, ?_, ?_⟩
        · intro e he
          exact List.mem_takeWhile_imp (htake ▸ he)
        · intro e he
          exact List.mem_takeWhile_imp (htake' ▸ he)
      · cases h
    · cases h
  · rintro ⟨rfl, hu, hp, huw, hpw⟩
    have houter : IsSpan U.word (u ++ ':' :: (p ++ '@' :: rest)) u
        (':' :: (p ++ '@' :: rest)) := isSpan_cons huw (word_colon U)
    have hinner : IsSpan U.word (p ++ '@' :: rest) p ('@' :: rest) :=
      isSpan_cons hpw (word_at U)
    unfold scanCredentials
    rw [houter.takeWhile_eq, houter.dropWhile_eq]
    obtain ⟨c, u', rfl⟩ := List.exists_cons_of_ne_nil hu
    obtain ⟨d, p', rfl⟩ := List.exists_cons_of_ne_nil hp
    simp only [hinner.takeWhile_eq, hinner.dropWhile_eq]

theorem scanCredentials_eq_none {U : CharClasses} {s : Text}
    (h : (scanCredentials U s).1 = none) : (scanCredentials U s).2 = s := by
  unfold scanCredentials at h ⊢
  split
  next c u s' htake hdrop =>
    rw [htake, hdrop] at h
    split
    next d p rest htake' hdrop' => simp [htake', hdrop'] at h
    · rfl
  · rfl

/-! ## The engine reports the reading -/

/-- The groups a scheme, credentials and a host bind, latest first. -/
def schemeGroups : Option Text → List (Group × Text)
  | some scheme => [(.scheme, scheme)]
  | none => []

def credentialGroups : Option (Text × Text) → List (Group × Text)
  | some (username, password) =>
      [(.password, password), (.username, username)]
  | none => []

def hostGroups : Option (Text × Option Text) → List (Group × Text)
  | some (domain, some port) =>
      [(.host, domain ++ ':' :: port), (.port, port), (.domain, domain)]
  | some (domain, none) => [(.host, domain), (.domain, domain)]
  | none => []

def queryGroups : Option Text → List (Group × Text)
  | some query => [(.query, query)]
  | none => []

def fragmentGroups : Option Text → List (Group × Text)
  | some fragment => [(.fragment, fragment)]
  | none => []

/-- All bindings of a reading. -/
def groupsOf (r : Reading) : List (Group × Text) :=
  fragmentGroups r.fragment ++ queryGroups r.query ++ [(.path, r.path)] ++
    hostGroups r.host ++ credentialGroups r.credentials ++
    schemeGroups r.scheme

/-- The engine's match with `a` at `s` binds `groups` and leaves `rest`. -/
def Reports (a : Backtrack.Pattern Char Group) (s : Text)
    (groups : List (Group × Text)) (rest : Text) : Prop :=
  ∃ text, a.firstMatch s = some ⟨text, groups, rest⟩

theorem Reports.seq {a b : Backtrack.Pattern Char Group}
    {s rest rest' : Text} {groups groups' : List (Group × Text)}
    (hb : b.Total) (ha : Reports a s groups rest)
    (hrest : Reports b rest groups' rest') :
    Reports (.seq a b) s (groups' ++ groups) rest' := by
  obtain ⟨text, htext⟩ := ha
  obtain ⟨text', htext'⟩ := hrest
  refine ⟨text ++ text', ?_⟩
  rw [firstMatch_seq_of_total hb, htext]
  simp [htext', Match.append]

theorem mem_attempts_scheme_iff {s : Text} {m : Match Char Group} :
    m ∈ (seq (group Group.scheme (plus schemeChar))
        (literal [':', '/', '/'])).attempts s ↔
      ∃ t, scanScheme s = (some t, m.rest) ∧
        m = ⟨t ++ [':', '/', '/'], [(.scheme, t)], m.rest⟩ := by
  simp only [mem_attempts_seq_iff, mem_attempts_group_iff,
    mem_attempts_plus_iff, attempts_literal, scanScheme_eq_some_iff]
  constructor
  · rintro ⟨_, ⟨⟨t, groups, rest⟩, ⟨hgroups, hne, ht, hs⟩, rfl⟩, n, hn, rfl⟩
    simp only at hgroups hne ht hs
    by_cases hstarts : [':', '/', '/'] <+: rest
    · obtain ⟨rest', rfl⟩ := hstarts
      simp only [Match.rest_bindGroup, List.prefix_append, if_true,
        List.mem_singleton] at hn
      subst n
      exact ⟨t, ⟨by simp [hs], hne, ht⟩, by simp [Match.append, hgroups]⟩
    · simp [hstarts] at hn
  · rintro ⟨t, ⟨hs, hne, ht⟩, hm⟩
    refine ⟨_, ⟨⟨t, [], [':', '/', '/'] ++ m.rest⟩,
      ⟨rfl, hne, ht, hs⟩, rfl⟩, ⟨[':', '/', '/'], [], m.rest⟩, ?_, ?_⟩
    · simp
    · rw [hm]
      simp [Match.append]

theorem reports_scheme (s : Text) :
    Reports Pattern.scheme s (schemeGroups (scanScheme s).1)
      (scanScheme s).2 := by
  unfold Reports Pattern.scheme
  rw [firstMatch_opt]
  cases h : (scanScheme s).1 with
  | none =>
      rw [firstMatch_eq_none]
      · exact ⟨[], by simp [scanScheme_eq_none h, schemeGroups, Match.skip]⟩
      · intro m hm
        obtain ⟨t, ht, -⟩ := mem_attempts_scheme_iff.mp hm
        simp [ht] at h
  | some t =>
      have hscan : scanScheme s = (some t, (scanScheme s).2) := by
        rw [← h]
      refine ⟨t ++ [':', '/', '/'], ?_⟩
      rw [firstMatch_of_unique (m := ⟨t ++ [':', '/', '/'], [(.scheme, t)],
        (scanScheme s).2⟩) (mem_attempts_scheme_iff.mpr ⟨t, hscan, rfl⟩)]
      · rfl
      · intro n hn
        obtain ⟨t', ht', hn⟩ := mem_attempts_scheme_iff.mp hn
        rw [hscan] at ht'
        simp only [Prod.mk.injEq, Option.some.injEq] at ht'
        rw [hn, ht'.1, ht'.2]

theorem mem_attempts_userinfo_iff {U : CharClasses} {s : Text}
    {m : Match Char Group} :
    m ∈ (seq (group Group.username (plus U.word)) (seq (letter ':')
        (seq (group Group.password (plus U.word)) (letter '@')))).attempts s ↔
      ∃ u p, scanCredentials U s = (some (u, p), m.rest) ∧
        m = ⟨u ++ ':' :: (p ++ ['@']),
          [(.password, p), (.username, u)], m.rest⟩ := by
  simp only [mem_attempts_seq_iff, mem_attempts_group_iff,
    mem_attempts_plus_iff, mem_attempts_letter_iff,
    scanCredentials_eq_some_iff]
  constructor
  · rintro ⟨_, ⟨⟨u, _, r₁⟩, ⟨hg, hu, huw, hs⟩, rfl⟩, _,
      ⟨⟨_, _, r₂⟩, ⟨hcolon, hs₂⟩, _,
        ⟨_, ⟨⟨p, _, r₃⟩, ⟨hg', hp, hpw, hs₃⟩, rfl⟩,
          ⟨_, _, r₄⟩, ⟨hat, hs₄⟩, rfl⟩, rfl⟩, rfl⟩
    simp only [Match.mk.injEq, Match.rest_bindGroup] at *
    obtain ⟨rfl, rfl, -⟩ := hcolon
    obtain ⟨rfl, rfl, -⟩ := hat
    subst hg hg' hs hs₂ hs₃ hs₄
    exact ⟨u, p, ⟨by simp, hu, hp, huw, hpw⟩, by simp [Match.append]⟩
  · rintro ⟨u, p, ⟨hs, hu, hp, huw, hpw⟩, hm⟩
    refine ⟨_, ⟨⟨u, [], ':' :: (p ++ '@' :: m.rest)⟩,
      ⟨rfl, hu, huw, hs⟩, rfl⟩, _,
      ⟨⟨[':'], [], p ++ '@' :: m.rest⟩, ⟨rfl, rfl⟩, _,
        ⟨_, ⟨⟨p, [], '@' :: m.rest⟩, ⟨rfl, hp, hpw, rfl⟩, rfl⟩,
          ⟨['@'], [], m.rest⟩, ⟨rfl, rfl⟩, rfl⟩, rfl⟩, ?_⟩
    rw [hm]
    simp [Match.append]

theorem reports_userinfo (U : CharClasses) (s : Text) :
    Reports (Pattern.userinfo U) s
      (credentialGroups (scanCredentials U s).1)
      (scanCredentials U s).2 := by
  unfold Reports Pattern.userinfo
  rw [firstMatch_opt]
  cases h : (scanCredentials U s).1 with
  | none =>
      rw [firstMatch_eq_none]
      · exact ⟨[], by
          simp [scanCredentials_eq_none h, credentialGroups, Match.skip]⟩
      · intro m hm
        obtain ⟨u, p, hup, -⟩ := mem_attempts_userinfo_iff.mp hm
        simp [hup] at h
  | some up =>
      obtain ⟨u, p⟩ := up
      have hscan : scanCredentials U s =
          (some (u, p), (scanCredentials U s).2) := by
        rw [← h]
      refine ⟨u ++ ':' :: (p ++ ['@']), ?_⟩
      rw [firstMatch_of_unique (m := ⟨u ++ ':' :: (p ++ ['@']),
        [(.password, p), (.username, u)], (scanCredentials U s).2⟩)
        (mem_attempts_userinfo_iff.mpr ⟨u, p, hscan, rfl⟩)]
      · rfl
      · intro n hn
        obtain ⟨u', p', hup, hn⟩ := mem_attempts_userinfo_iff.mp hn
        rw [hscan] at hup
        simp only [Prod.mk.injEq, Option.some.injEq] at hup
        obtain ⟨⟨rfl, rfl⟩, hrest⟩ := hup
        rw [hn, hrest]

theorem reports_host (U : CharClasses) (s : Text) :
    Reports (Pattern.host U) s (hostGroups (scanHost U s).1)
      (scanHost U s).2 := by
  unfold Reports Pattern.host scanHost
  rw [firstMatch_opt, firstMatch_group, firstMatch_seq_of_total (total_opt _),
    firstMatch_group, firstMatch_plus]
  cases htake : s.takeWhile domainChar with
  | nil => exact ⟨[], by simp [Match.skip, hostGroups]⟩
  | cons c domain =>
      simp only [List.cons_ne_nil, if_false, Option.map_some,
        Option.bind_some, Match.rest_bindGroup, firstMatch_opt,
        firstMatch_letter_seq]
      cases hdrop : s.dropWhile domainChar with
      | nil =>
          exact ⟨c :: domain, by
            simp [Match.skip, Match.append, Match.bindGroup, hostGroups]⟩
      | cons d rest =>
          by_cases hd : d = ':'
          · subst d
            exact ⟨c :: domain ++ ':' :: rest.takeWhile U.digit, by
              simp [firstMatch_group, firstMatch_many, Match.append,
                Match.bindGroup, hostGroups]⟩
          · exact ⟨c :: domain, by
              simp [hd, Match.skip, Match.append, Match.bindGroup,
                hostGroups]⟩

theorem reports_path (s : Text) :
    Reports Pattern.path s [(.path, s.takeWhile pathChar)]
      (s.dropWhile pathChar) :=
  ⟨s.takeWhile pathChar, by
    simp [Pattern.path, firstMatch_group, firstMatch_many, Match.bindGroup]⟩

theorem reports_query (s : Text) :
    Reports Pattern.query s (queryGroups (scanQuery s).1)
      (scanQuery s).2 := by
  unfold Reports Pattern.query
  rw [firstMatch_opt, firstMatch_letter_seq]
  cases s with
  | nil => exact ⟨[], by simp [scanQuery, queryGroups, Match.skip]⟩
  | cons c s =>
      by_cases hc : c = '?'
      · subst c
        exact ⟨'?' :: s.takeWhile queryChar, by
          simp [scanQuery, queryGroups, firstMatch_group, firstMatch_many,
            Match.append, Match.bindGroup]⟩
      · exact ⟨[], by simp [scanQuery, hc, queryGroups, Match.skip]⟩

theorem reports_fragment (s : Text) :
    Reports Pattern.fragment s (fragmentGroups (scanFragment s).1)
      (scanFragment s).2 := by
  unfold Reports Pattern.fragment
  rw [firstMatch_opt, firstMatch_letter_seq]
  cases s with
  | nil => exact ⟨[], by simp [scanFragment, fragmentGroups, Match.skip]⟩
  | cons c s =>
      by_cases hc : c = '#'
      · subst c
        exact ⟨'#' :: s.takeWhile anyChar, by
          simp [scanFragment, fragmentGroups, firstMatch_group,
            firstMatch_many, Match.append, Match.bindGroup]⟩
      · exact ⟨[], by simp [scanFragment, hc, fragmentGroups, Match.skip]⟩

/-- The pattern matches every text, and binds the groups of its reading. -/
theorem captures_eq_groupsOf_read (U : CharClasses) (url : Text) :
    ∃ text rest,
      URI.captures U url = some ⟨text, groupsOf (read U url), rest⟩ := by
  have htail : (Backtrack.Pattern.seq Pattern.query Pattern.fragment).Total :=
    (total_opt _).seq (total_opt _)
  have hpath := ((total_many pathChar).group Group.path).seq htail
  have hhost := (total_opt _ : (Pattern.host U).Total).seq hpath
  have huser := (total_opt _ : (Pattern.userinfo U).Total).seq hhost
  obtain ⟨text, htext⟩ :=
    (reports_scheme url).seq huser <|
      (reports_userinfo U _).seq hhost <|
        (reports_host U _).seq hpath <|
          (reports_path _).seq htail <|
            (reports_query _).seq (total_opt _) (reports_fragment _)
  exact ⟨text, _, htext⟩

/-! ## What the scans leave out -/

theorem schemeChar_of_domainChar {c : Char} (h : domainChar c = true) :
    schemeChar c = true := by
  simp only [domainChar, schemeChar, Bool.and_eq_true] at h ⊢
  exact h.1

theorem digit_of_isDigit {U : CharClasses} {c : Char}
    (h : c.isDigit = true) :
    U.digit c = true := by
  rw [U.digit_ascii c, h]
  simp only [Char.isDigit, ge_iff_le, Bool.and_eq_true,
    decide_eq_true_eq] at h
  have hle : c.val.toNat ≤ 57 := UInt32.le_iff_toNat_le.mp h.2
  exact lt_of_le_of_lt hle (by decide)

theorem digit_head (U : CharClasses) {c : Char} (hc : U.digit c = true) :
    c ≠ '+' ∧ c ≠ '-' := by
  constructor <;> rintro rfl
  · simp [U.digit_ascii '+' (by decide)] at hc
  · simp [U.digit_ascii '-' (by decide)] at hc

/-- The host scan finds a domain exactly when one character of it stands
there. -/
theorem scanHost_fst_eq_none_iff {U : CharClasses} {s : Text} :
    (scanHost U s).1 = none ↔ s.takeWhile domainChar = [] := by
  unfold scanHost
  cases h : s.takeWhile domainChar with
  | nil => simp
  | cons c domain =>
      simp only [reduceCtorEq, iff_false]
      split <;> simp

theorem scanHost_of_domain {U : CharClasses} {s domain : Text}
    (hdomain : s.takeWhile domainChar = domain) (hne : domain ≠ []) :
    scanHost U s =
      match s.dropWhile domainChar with
      | ':' :: rest =>
          (some (domain, some (rest.takeWhile U.digit)),
            rest.dropWhile U.digit)
      | rest => (some (domain, none), rest) := by
  obtain ⟨c, domain, rfl⟩ := List.exists_cons_of_ne_nil hne
  unfold scanHost
  rw [hdomain]

/-- A domain is a nonempty run of domain characters. -/
theorem scanHost_domain {U : CharClasses} {s domain : Text}
    {port : Option Text} (h : (scanHost U s).1 = some (domain, port)) :
    domain ≠ [] ∧ ∀ c ∈ domain, domainChar c = true := by
  by_cases hne : s.takeWhile domainChar = []
  · rw [scanHost_fst_eq_none_iff.mpr hne] at h
    cases h
  · rw [scanHost_of_domain rfl hne] at h
    have hdomain : domain = s.takeWhile domainChar := by
      revert h
      split <;> simp +contextual
    rw [hdomain]
    exact ⟨hne, fun c hc => List.mem_takeWhile_imp hc⟩

/-- A port is a run of digits. -/
theorem scanHost_port {U : CharClasses} {s domain port : Text}
    (h : (scanHost U s).1 = some (domain, some port)) :
    ∀ c ∈ port, U.digit c = true := by
  by_cases hne : s.takeWhile domainChar = []
  · rw [scanHost_fst_eq_none_iff.mpr hne] at h
    cases h
  · rw [scanHost_of_domain rfl hne] at h
    split at h
    · simp only [Option.some.injEq, Prod.mk.injEq] at h
      rw [← h.2]
      exact fun c hc => List.mem_takeWhile_imp hc
    · simp at h

theorem port_eq_some_iff {r : Reading} {port : Text} :
    r.port = some port ↔ ∃ domain, r.host = some (domain, some port) := by
  simp [Reading.port, Option.bind_eq_some_iff]

theorem digit_of_mem_port {U : CharClasses} {url port : Text}
    (h : (read U url).port = some port) : ∀ c ∈ port, U.digit c = true := by
  obtain ⟨domain, hhost⟩ := port_eq_some_iff.mp h
  exact scanHost_port hhost

theorem domainChar_of_mem_domain {U : CharClasses} {url : Text} :
    ∀ c ∈ (read U url).domain, domainChar c = true := by
  unfold Reading.domain
  cases h : (read U url).host with
  | none => simp
  | some host =>
      obtain ⟨domain, port⟩ := host
      exact (scanHost_domain h).2

theorem domain_scanHost (U : CharClasses) (s : Text) :
    ((scanHost U s).1.map Prod.fst).getD [] = s.takeWhile domainChar := by
  by_cases hne : s.takeWhile domainChar = []
  · rw [scanHost_fst_eq_none_iff.mpr hne, hne]
    rfl
  · rw [scanHost_of_domain rfl hne]
    split <;> rfl

/-- The domain is the run of domain characters behind the credentials. -/
theorem domain_eq_takeWhile (U : CharClasses) (url : Text) :
    (read U url).domain =
      (scanCredentials U (scanScheme url).2).2.takeWhile domainChar :=
  domain_scanHost U _

/-! ## Parsing in terms of the reading -/

/-- The port text is absent or an `i32` numeral. -/
def PortReadable (r : Reading) : Prop :=
  ∀ port ∈ r.port, IsDigits port ∧ value port ≤ 2147483647

instance (r : Reading) : Decidable r.PortReadable :=
  inferInstanceAs (Decidable (∀ port ∈ r.port, _))

/-- The fields `parse` sets. -/
def toURI (r : Reading) : URI where
  scheme := r.scheme.getD []
  username := (r.credentials.map Prod.fst).getD []
  password := (r.credentials.map Prod.snd).getD []
  host := (r.host.map fun
    | (domain, some port) => domain ++ ':' :: port
    | (domain, none) => domain).getD []
  domain := r.domain
  port := r.portNumber
  path := r.path
  query := r.query.getD []
  fragment := r.fragment.getD []

/-- The text a reading gives to each group. -/
def group (r : Reading) : Group → Option Text
  | .scheme => r.scheme
  | .username => r.credentials.map Prod.fst
  | .password => r.credentials.map Prod.snd
  | .host => r.host.map fun
      | (domain, some port) => domain ++ ':' :: port
      | (domain, none) => domain
  | .domain => r.host.map Prod.fst
  | .port => r.port
  | .path => some r.path
  | .query => r.query
  | .fragment => r.fragment

theorem lookup_groupsOf (r : Reading) (k : Group) :
    (groupsOf r).lookup k = r.group k := by
  rcases r with ⟨scheme, credentials, host, path, query, fragment⟩
  rcases scheme with _ | _ <;> rcases credentials with _ | _ <;>
    rcases host with _ | ⟨_, _ | _⟩ <;> rcases query with _ | _ <;>
    rcases fragment with _ | _ <;> cases k <;> rfl

/-- The port field is set exactly when the port text can be read. -/
theorem capturedPort_eq_ok_iff {U : CharClasses} {url text rest : Text}
    {n : ℤ} :
    URI.capturedPort ⟨text, groupsOf (read U url), rest⟩ = .ok n ↔
      (read U url).PortReadable ∧ n = (read U url).portNumber := by
  unfold URI.capturedPort Match.name
  rw [lookup_groupsOf]
  simp only [group]
  cases hport : (read U url).port with
  | none =>
      simp [PortReadable, portNumber, hport, pure, Except.pure, eq_comm]
  | some port =>
      have hdigits := digit_of_mem_port hport
      have hplus : port.head? ≠ some '+' := fun h =>
        (digit_head U (hdigits '+' (List.mem_of_head? h))).1 rfl
      have hminus : port.head? ≠ some '-' := fun h =>
        (digit_head U (hdigits '-' (List.mem_of_head? h))).2 rfl
      have hparse := parseI32_eq_ok_iff (n := n) hplus hminus
      simp only [PortReadable, portNumber, hport, Option.mem_def,
        Option.some.injEq, forall_eq', Option.map_some, Option.getD_some]
      rw [and_assoc, ← hparse]
      cases parseI32 port <;> simp [Outcome.unwrap]

/-- `parse` succeeds exactly when the port text can be read, and then sets the
fields of the reading. -/
theorem parse_eq_ok_iff {U : CharClasses} {url : Text} {uri : URI} :
    URI.parse U url = .ok uri ↔
      (read U url).PortReadable ∧ uri = (read U url).toURI := by
  obtain ⟨text, rest, hcaptures⟩ := captures_eq_groupsOf_read U url
  unfold URI.parse
  rw [hcaptures]
  simp only [Outcome.bind_eq_ok_iff, capturedPort_eq_ok_iff, Match.name,
    lookup_groupsOf, group, pure, Except.pure, Except.ok.injEq]
  constructor
  · rintro ⟨n, ⟨hport, rfl⟩, rfl⟩
    exact ⟨hport, rfl⟩
  · rintro ⟨hport, rfl⟩
    exact ⟨_, ⟨hport, rfl⟩, rfl⟩

/-- A text that `parse` cannot read makes it unwind. -/
theorem parse_eq_panic {U : CharClasses} {url : Text}
    (h : ¬(read U url).PortReadable) :
    URI.parse U url = .error .panic := by
  obtain ⟨text, rest, hcaptures⟩ := captures_eq_groupsOf_read U url
  unfold URI.parse
  rw [hcaptures]
  have hport : URI.capturedPort ⟨text, groupsOf (read U url), rest⟩ =
      .error .panic := by
    cases hn : URI.capturedPort ⟨text, groupsOf (read U url), rest⟩ with
    | ok n => exact absurd (capturedPort_eq_ok_iff.mp hn).1 h
    | error e =>
        unfold URI.capturedPort at hn
        split at hn
        next v _ =>
          cases hv : parseI32 v <;> simp_all [Outcome.unwrap]
        · cases hn
  simp only [hport, Outcome.bind_error]

end Reading

/-! ## `get_uri` -/

open Reading

theorem getUri_eq_ok_iff {U : CharClasses} {url : Text} {uri : URI} :
    getUri U url = .ok uri ↔
      (read U url).PortReadable ∧ uri = (read U url).toURI := by
  unfold getUri
  by_cases h : (read U url).PortReadable
  · rw [parse_eq_ok_iff.mpr ⟨h, rfl⟩]
    simp [h, eq_comm]
  · rw [parse_eq_panic h]
    simp [h]

theorem getUri_eq_panic {U : CharClasses} {url : Text}
    (h : ¬(read U url).PortReadable) : getUri U url = .error .panic := by
  unfold getUri
  rw [parse_eq_panic h]

theorem getUri_returns_iff {U : CharClasses} {url : Text} :
    (getUri U url).Returns ↔ (read U url).PortReadable := by
  by_cases h : (read U url).PortReadable
  · simp [getUri_eq_ok_iff.mpr ⟨h, rfl⟩, h]
  · simp [getUri_eq_panic h, h]

end KnockKnock
