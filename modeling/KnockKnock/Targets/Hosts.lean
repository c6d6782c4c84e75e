import KnockKnock.Targets.Dialling
import KnockKnock.Uri.Rfc3986

/-!
# Which URLs lead to their own host

The pattern knows user information only as `word:word@`.  Richer user
information is not credentials to it, and the same text is read again as the
domain and the port.  `Understood` lists the URLs whose host and port survive.
-/

namespace KnockKnock

open Numeral Outcome Reading Rfc3986 Rfc3986.Url Spans

variable {U : CharClasses}

/-- If the URL parses, it parses to its host and port, and every pinger that
dials it dials its host. -/
def NamesHost (U : CharClasses) (url : Url) : Prop :=
  ∀ uri, URI.parse U url.text = .ok uri →
    uri.domain = url.host ∧ uri.port = url.number ∧
      ∀ (serverName : ServerNames) (p : Pinger) (endpoint : Text),
        p.dialled U serverName url.text = .ok endpoint →
          ∃ port, endpoint = hostPort url.host port

/-- The only user information the pattern reads. -/
def Plain (U : CharClasses) (info : Text) : Prop :=
  ∃ user password, info = user ++ ':' :: password ∧
    user ≠ [] ∧ password ≠ [] ∧
      (∀ c ∈ user, U.word c = true) ∧ ∀ c ∈ password, U.word c = true

/-- The URLs whose host and port are read as such.  Other user information is
read as a domain, up to its first colon, and the digits behind that colon as a
port. -/
inductive Understood (U : CharClasses) (url : Url) : Prop where
  | noUserinfo (hinfo : url.userinfo = none)
      (hhost : url.host ≠ [] ∨ url.number = 0)
  | plain (info : Text) (hinfo : url.userinfo = some info)
      (hplain : Plain U info) (hhost : url.host ≠ [] ∨ url.number = 0)
  | noUser (password : Text) (hinfo : url.userinfo = some (':' :: password))
      (hhost : url.host = []) (hnumber : url.number = 0)
  | sameHost (user password : Text)
      (hinfo : url.userinfo = some (user ++ ':' :: password))
      (hplain : ¬Plain U (user ++ ':' :: password))
      (hne : user ≠ []) (hcolon : ':' ∉ user)
      (hsame : IsDigits (password.takeWhile Char.isDigit) →
        value (password.takeWhile Char.isDigit) ≤ 2147483647 →
        user = url.host ∧
          value (password.takeWhile Char.isDigit) = url.number)

/-! ## Dialling follows the parsed domain -/

theorem namesHost_iff_read (url : Url) :
    NamesHost U url ↔
      ((read U url.text).PortReadable →
        (read U url.text).domain = url.host ∧
          (read U url.text).portNumber = url.number) := by
  constructor
  · intro h hreadable
    obtain ⟨hdomain, hport, -⟩ := h _ (parse_eq_ok_iff.mpr ⟨hreadable, rfl⟩)
    exact ⟨hdomain, Int.ofNat_inj.mp hport⟩
  · rintro h uri huri
    obtain ⟨hreadable, rfl⟩ := parse_eq_ok_iff.mp huri
    obtain ⟨hdomain, hport⟩ := h hreadable
    refine ⟨hdomain, congrArg Int.ofNat hport, ?_⟩
    intro serverName p endpoint hdialled
    have hget : getUri U url.text = .ok (read U url.text).toURI :=
      getUri_eq_ok_iff.mpr ⟨hreadable, rfl⟩
    have hnames : ∀ d, ∃ port,
        hostPort (read U url.text).toURI.domain
          (portOr (read U url.text).toURI d) = hostPort url.host port :=
      fun d => ⟨_, congrArg (hostPort · _) hdomain⟩
    have hrefused : RefusedOr (fun e => ∃ port, e = hostPort url.host port)
        (p.dialled U serverName url.text) := by
      by_cases hp : p = .quic
      · rw [hp]
        refine quic_dialled_refusedOr ?_ hnames
        rw [url.trim_text, hget]
      · exact dialled_refusedOr hget hnames hp
    rw [hdialled] at hrefused
    exact hrefused

theorem namesHost_iff_of_none {url : Url}
    (hhost : (read U url.text).host = none) :
    NamesHost U url ↔ url.host = [] ∧ url.number = 0 := by
  have hport : (read U url.text).port = none := by
    rw [Reading.port, hhost]
    rfl
  rw [namesHost_iff_read]
  simp only [PortReadable, Reading.domain, portNumber, hport, hhost]
  simp [eq_comm]

theorem namesHost_iff_of_some {url : Url} {domain : Text}
    {port : Option Text} (hhost : (read U url.text).host = some (domain, port)) :
    NamesHost U url ↔
      ((∀ digits ∈ port, IsDigits digits ∧ value digits ≤ 2147483647) →
        domain = url.host ∧ (port.map value).getD 0 = url.number) := by
  have hport : (read U url.text).port = port := by
    rw [Reading.port, hhost]
    rfl
  rw [namesHost_iff_read]
  simp only [PortReadable, Reading.domain, portNumber, hport, hhost,
    Option.map_some, Option.getD_some]

/-- Once no user information is left, only an empty host loses the port. -/
theorem namesHost_iff_of_hostText {url : Url}
    (hrest : (scanCredentials U url.authority).2 = url.hostText) :
    NamesHost U url ↔ url.host ≠ [] ∨ url.number = 0 := by
  have hhost := url.read_host (U := U)
  rw [hrest, url.scanHost_host] at hhost
  by_cases hne : url.host = []
  · rw [if_pos hne] at hhost
    rw [namesHost_iff_of_none hhost]
    simp [hne]
  · rw [if_neg hne] at hhost
    rw [namesHost_iff_of_some hhost]
    exact iff_of_true (fun _ => ⟨rfl, rfl⟩) (Or.inl hne)

/-! ## User information -/

theorem domainChar_of_mem_info {info : Text} (h : isUserinfo info = true) :
    ∀ c ∈ info, c = ':' ∨ domainChar c = true :=
  escaped_imp (fun _ hc => Or.inr (domainChar_of_isAlphanum hc))
    (by decide) h

theorem toNat_lt_of_mem_info {info : Text} (h : isUserinfo info = true) :
    ∀ c ∈ info, c.toNat < 128 :=
  escaped_imp (fun _ hc => toNat_lt_of_isAlphanum hc) (by decide) h

theorem at_not_mem_info {info : Text} (h : isUserinfo info = true) :
    '@' ∉ info := by
  intro hat
  have hne : ∀ c ∈ info, c ≠ '@' :=
    escaped_imp (fun _ hc => isAlphanum_ne hc (by decide)) (by decide) h
  exact hne '@' hat rfl

/-- Credentials are read from exactly the plain user information. -/
theorem scanCredentials_info {info rest : Text} (h : isUserinfo info = true) :
    (Plain U info → (scanCredentials U (info ++ '@' :: rest)).2 = rest) ∧
    (¬Plain U info →
      scanCredentials U (info ++ '@' :: rest) =
        (none, info ++ '@' :: rest)) := by
  constructor
  · rintro ⟨user, password, rfl, hu, hp, huw, hpw⟩
    have hscan : scanCredentials U ((user ++ ':' :: password) ++ '@' :: rest) =
        (some (user, password), rest) :=
      scanCredentials_eq_some_iff.mpr ⟨by simp, hu, hp, huw, hpw⟩
    rw [hscan]
  · intro hplain
    have hnone : (scanCredentials U (info ++ '@' :: rest)).1 = none := by
      by_contra hne
      obtain ⟨⟨u, p⟩, hup⟩ := Option.ne_none_iff_exists'.mp hne
      obtain ⟨hs, hu, hp, huw, hpw⟩ := scanCredentials_eq_some_iff.mp
        (Prod.ext hup rfl :
          scanCredentials U (info ++ '@' :: rest) = (some (u, p), _))
      have hat : '@' ∉ u ++ ':' :: p := by
        intro hat
        simp only [List.mem_append, List.mem_cons] at hat
        rcases hat with hat | hat | hat
        · simpa [word_at] using huw '@' hat
        · cases hat
        · simpa [word_at] using hpw '@' hat
      have hsplit : info ++ '@' :: rest = (u ++ ':' :: p) ++
          '@' :: (scanCredentials U (info ++ '@' :: rest)).2 := by
        simpa using hs
      obtain ⟨rfl, -⟩ := split_unique (at_not_mem_info h) hat hsplit
      exact hplain ⟨u, p, rfl, hu, hp, huw, hpw⟩
    exact Prod.ext hnone (scanCredentials_eq_none hnone)

/-- The digits behind the first colon of user information. -/
theorem takeWhile_digit_info {password rest : Text}
    (h : ∀ c ∈ password, c.toNat < 128) :
    (password ++ '@' :: rest).takeWhile U.digit =
      password.takeWhile Char.isDigit := by
  have hat : ∀ c ∈ ('@' :: rest).head?, U.digit c = false := by
    rintro c ⟨⟩
    exact U.digit_ascii '@' (by decide)
  rw [takeWhile_append_stop hat]
  induction password with
  | nil => rfl
  | cons c password ih =>
      have hc := U.digit_ascii c (h c (by simp))
      have ih := ih fun d hd => h d (List.mem_cons_of_mem _ hd)
      rw [List.takeWhile_cons, List.takeWhile_cons, hc, ih]

/-- Other user information has to begin with the host itself. -/
theorem understood_iff_of_info {url : Url} {info : Text}
    (hinfo : url.userinfo = some info) (hplain : ¬Plain U info) :
    Understood U url ↔ ∃ user password, info = user ++ ':' :: password ∧
      ':' ∉ user ∧ (user = [] → url.host = [] ∧ url.number = 0) ∧
        (user ≠ [] → IsDigits (password.takeWhile Char.isDigit) →
          value (password.takeWhile Char.isDigit) ≤ 2147483647 →
          user = url.host ∧
            value (password.takeWhile Char.isDigit) = url.number) := by
  constructor
  · intro h
    cases h with
    | noUserinfo hnone => simp [hnone] at hinfo
    | plain info' hinfo' hplain' =>
        rw [hinfo] at hinfo'
        cases hinfo'
        exact absurd hplain' hplain
    | noUser password hinfo' hhost hnumber =>
        rw [hinfo] at hinfo'
        cases hinfo'
        exact ⟨[], password, rfl, by simp, fun _ => ⟨hhost, hnumber⟩,
          fun hne => absurd rfl hne⟩
    | sameHost user password hinfo' _ hne hcolon hsame =>
        rw [hinfo] at hinfo'
        cases hinfo'
        exact ⟨user, password, rfl, hcolon, fun hnil => absurd hnil hne,
          fun _ => hsame⟩
  · rintro ⟨user, password, rfl, hcolon, hnil, hcons⟩
    by_cases hne : user = []
    · subst hne
      exact .noUser password hinfo (hnil rfl).1 (hnil rfl).2
    · exact .sameHost user password hinfo hplain hne hcolon (hcons hne)

/-- Where user information is not plain, the host scan begins with it. -/
theorem read_host_of_info {url : Url} {info : Text}
    (hinfo : url.userinfo = some info) (hplain : ¬Plain U info) :
    (read U url.text).host =
      (scanHost U (info ++ '@' :: url.hostText)).1 := by
  have hauthority : url.authority = info ++ '@' :: url.hostText := by
    unfold Url.authority
    rw [hinfo]
  have hhost := url.read_host (U := U)
  rw [hauthority, (scanCredentials_info (url.userinfo_ok info hinfo)).2
    hplain] at hhost
  exact hhost

/-- The first colon of the user information ends what is read as the host. -/
theorem namesHost_iff_of_colon {url : Url} {user password : Text}
    (hinfo : url.userinfo = some (user ++ ':' :: password))
    (hplain : ¬Plain U (user ++ ':' :: password)) (hfirst : ':' ∉ user) :
    NamesHost U url ↔ Understood U url := by
  have hok := url.userinfo_ok _ hinfo
  have hhost := read_host_of_info hinfo hplain
  rw [understood_iff_of_info hinfo hplain]
  have huser : ∀ c ∈ user, domainChar c = true := by
    intro c hc
    have hc' := domainChar_of_mem_info hok c (List.mem_append_left _ hc)
    rcases hc' with rfl | hc'
    · exact absurd hc hfirst
    · exact hc'
  have hascii : ∀ c ∈ password, c.toNat < 128 := fun c hc =>
    toNat_lt_of_mem_info hok c (by simp [hc])
  -- The first colon decides which user and password are meant.
  have hunique : ∀ user' password' : Text,
      user ++ ':' :: password = user' ++ ':' :: password' →
      ':' ∉ user' → user = user' ∧ password = password' :=
    fun _ _ h hcolon' => split_unique hfirst hcolon' h
  by_cases hne : user = []
  · have hnone : (read U url.text).host = none := by
      rw [hhost, hne]
      apply scanHost_eq_none_of_head
      rintro c ⟨⟩
      rfl
    rw [namesHost_iff_of_none hnone]
    constructor
    · intro h
      exact ⟨user, password, rfl, hfirst, fun _ => h,
        fun hcons => absurd hne hcons⟩
    · rintro ⟨user', password', heq, hfirst', hnil, -⟩
      obtain ⟨rfl, rfl⟩ := hunique user' password' heq hfirst'
      exact hnil hne
  · have hsome : (read U url.text).host =
        some (user, some (password.takeWhile Char.isDigit)) := by
      rw [hhost]
      exact scanHost_eq_port_iff.mpr ⟨hne, huser,
        password ++ '@' :: url.hostText, by simp,
        takeWhile_digit_info hascii⟩
    rw [namesHost_iff_of_some hsome]
    simp only [Option.mem_def, Option.some.injEq, forall_eq',
      Option.map_some, Option.getD_some, and_imp]
    constructor
    · intro h
      exact ⟨user, password, rfl, hfirst, fun hnil => absurd hnil hne,
        fun _ => h⟩
    · rintro ⟨user', password', heq, hfirst', -, hcons⟩
      obtain ⟨rfl, rfl⟩ := hunique user' password' heq hfirst'
      exact hcons hne

/-- Without a colon the user information becomes part of the host. -/
theorem not_namesHost_of_no_colon {url : Url} {info : Text}
    (hinfo : url.userinfo = some info) (hplain : ¬Plain U info)
    (hcolon : ':' ∉ info) : ¬NamesHost U url := by
  have hok := url.userinfo_ok info hinfo
  have hdomain : ∀ c ∈ info ++ '@' :: url.host, domainChar c = true := by
    intro c hc
    simp only [List.mem_append, List.mem_cons] at hc
    rcases hc with hc | rfl | hc
    · rcases domainChar_of_mem_info hok c hc with rfl | hc'
      · exact absurd hc hcolon
      · exact hc'
    · decide
    · exact url.domainChar_of_mem_host c hc
  have hsome : (read U url.text).host =
      some (info ++ '@' :: url.host, url.port) := by
    rw [read_host_of_info hinfo hplain]
    have hscan : (scanHost U ((info ++ '@' :: url.host) ++
        announced ':' url.port)).1 =
          some (info ++ '@' :: url.host, url.port) :=
      scanHost_hostText (by simp) hdomain fun digits hdigits c hc =>
        digit_of_isDigit (url.isDigit_of_mem_port hdigits c hc)
    simpa [Url.hostText] using hscan
  rw [namesHost_iff_of_some hsome]
  intro h
  have hlength := congrArg List.length (h fun digits hdigits =>
    ⟨(url.port_ok digits hdigits).1,
      le_trans (url.port_ok digits hdigits).2 (by decide)⟩).1
  simp only [List.length_append, List.length_cons] at hlength
  omega

theorem namesHost_iff_of_info {url : Url} {info : Text}
    (hinfo : url.userinfo = some info) (hplain : ¬Plain U info) :
    NamesHost U url ↔ Understood U url := by
  by_cases hcolon : ':' ∈ info
  · obtain ⟨user, password, rfl, hfirst⟩ := List.eq_append_cons_of_mem hcolon
    exact namesHost_iff_of_colon hinfo hplain hfirst
  · apply iff_of_false
    · exact not_namesHost_of_no_colon hinfo hplain hcolon
    · rw [understood_iff_of_info hinfo hplain]
      rintro ⟨user, password, rfl, -⟩
      simp at hcolon

/-- A URL leads to its own host exactly when it is understood. -/
theorem namesHost_iff (U : CharClasses) (url : Url) :
    NamesHost U url ↔ Understood U url := by
  by_cases hinfo : url.userinfo = none
  · have hauthority : url.authority = url.hostText := by
      unfold Url.authority
      rw [hinfo]
    have hrest : (scanCredentials U url.authority).2 = url.hostText := by
      rw [hauthority, scanCredentials_of_not_at url.at_not_mem_hostText]
    rw [namesHost_iff_of_hostText hrest]
    constructor
    · exact .noUserinfo hinfo
    · intro h
      cases h with
      | noUserinfo _ hhost => exact hhost
      | plain _ hsome | noUser _ hsome | sameHost _ _ hsome =>
          simp [hinfo] at hsome
  · obtain ⟨info, hsome⟩ := Option.ne_none_iff_exists'.mp hinfo
    by_cases hplain : Plain U info
    · have hrest : (scanCredentials U url.authority).2 = url.hostText := by
        unfold Url.authority
        rw [hsome]
        exact (scanCredentials_info (url.userinfo_ok info hsome)).1 hplain
      rw [namesHost_iff_of_hostText hrest]
      constructor
      · exact .plain info hsome hplain
      · intro h
        cases h with
        | noUserinfo hnone => exact absurd hnone hinfo
        | plain _ _ _ hhost => exact hhost
        | noUser _ _ _ hnumber => exact Or.inr hnumber
        | sameHost user password hinfo' hnot =>
            rw [hsome] at hinfo'
            cases hinfo'
            exact absurd hplain hnot
    · exact namesHost_iff_of_info hsome hplain

/-- A user name without a password is dialled as part of the host. -/
theorem not_namesHost_user :
    ∃ url : Url, url.text = "rtsp://user@host/".toList ∧
      url.host = "host".toList ∧ ¬NamesHost CharClasses.ascii url := by
  refine ⟨{
    scheme := "rtsp".toList
    userinfo := some "user".toList
    host := "host".toList
    port := none
    path := "/".toList
    query := none
    fragment := none
    scheme_ok := by decide
    userinfo_ok := by decide
    host_ok := by decide
    port_ok := by simp
    path_ok := by decide
    query_ok := by simp
    fragment_ok := by simp }, by decide, rfl, fun h => ?_⟩
  obtain ⟨hdomain, -⟩ := h _ (parse_eq_ok_iff.mpr ⟨by decide, rfl⟩)
  revert hdomain
  decide

end KnockKnock
