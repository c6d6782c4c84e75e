import KnockKnock.Targets.Banner
import KnockKnock.Uri.Reading

/-!
# Which targets make the tools unwind

`URI::parse` unwraps the conversion of the port text.  Everything that begins
by parsing a URL therefore unwinds on exactly the texts whose port text is not
an `i32` numeral; no later step of the target computations can unwind.
-/

namespace KnockKnock

open Numeral Reading Spans

variable {U : CharClasses} {serverName : ServerNames}

namespace Reading

/-! ## Rewritten targets -/

theorem scanScheme_suffix (s : Text) : (scanScheme s).2 <:+ s := by
  cases h : (scanScheme s).1 with
  | none => rw [scanScheme_eq_none h]
  | some t =>
      have hscan : scanScheme s = (some t, (scanScheme s).2) := by rw [← h]
      obtain ⟨hs, -⟩ := scanScheme_eq_some_iff.mp hscan
      exact ⟨t ++ [':', '/', '/'], by simp [← hs]⟩

theorem scanCredentials_suffix (s : Text) : (scanCredentials U s).2 <:+ s := by
  cases h : (scanCredentials U s).1 with
  | none => rw [scanCredentials_eq_none h]
  | some up =>
      have hscan : scanCredentials U s =
          (some (up.1, up.2), (scanCredentials U s).2) := by rw [← h]
      obtain ⟨hs, -⟩ := scanCredentials_eq_some_iff.mp hscan
      exact ⟨up.1 ++ ':' :: (up.2 ++ ['@']), by simp [← hs]⟩

/-- A port stands behind a colon. -/
theorem colon_mem_of_port {s domain port : Text}
    (h : (scanHost U s).1 = some (domain, some port)) : ':' ∈ s := by
  by_cases hne : s.takeWhile domainChar = []
  · rw [scanHost_fst_eq_none_iff.mpr hne] at h
    cases h
  · rw [scanHost_of_domain rfl hne] at h
    split at h
    next rest hdrop =>
      exact (List.dropWhile_sublist _).mem (by rw [hdrop]; simp)
    · simp at h

theorem port_eq_none {url : Text} (h : ':' ∉ (scanScheme url).2) :
    (read U url).port = none := by
  by_contra hne
  obtain ⟨port, hport⟩ := Option.ne_none_iff_exists'.mp hne
  obtain ⟨domain, hhost⟩ := port_eq_some_iff.mp hport
  exact h ((scanCredentials_suffix _).mem (colon_mem_of_port hhost))

theorem portReadable_of_port_eq_none {r : Reading} (h : r.port = none) :
    r.PortReadable := by
  simp [PortReadable, h]

theorem read_scheme {t : Text} (ht : t ≠ [])
    (hchars : ∀ c ∈ t, schemeChar c = true) (rest : Text) :
    scanScheme (t ++ ':' :: '/' :: '/' :: rest) = (some t, rest) :=
  scanScheme_eq_some_iff.mpr ⟨rfl, ht, hchars⟩

/-- Another scheme in front of the same text leaves the port readable or
unreadable. -/
theorem portReadable_scheme_iff {t t' : Text} (ht : t ≠ [])
    (hchars : ∀ c ∈ t, schemeChar c = true) (ht' : t' ≠ [])
    (hchars' : ∀ c ∈ t', schemeChar c = true) (rest : Text) :
    (read U (t ++ ':' :: '/' :: '/' :: rest)).PortReadable ↔
      (read U (t' ++ ':' :: '/' :: '/' :: rest)).PortReadable := by
  unfold PortReadable Reading.port read
  rw [read_scheme ht hchars, read_scheme ht' hchars']

theorem not_mem_colon_of_domain {domain : Text}
    (h : ∀ c ∈ domain, domainChar c = true) : ':' ∉ domain := by
  intro hc
  exact absurd (h ':' hc) (by decide)

theorem schemeChar_of_isDigit {c : Char} (h : c.isDigit = true) :
    schemeChar c = true := by
  have hne : ∀ d : Char, d.isDigit = false → c ≠ d := by
    rintro d hd rfl
    rw [hd] at h
    cases h
  simp [schemeChar, hne '/' (by decide), hne '?' (by decide),
    hne '#' (by decide)]

/-- Credentials need a `@` behind the first colon. -/
theorem scanCredentials_of_no_at {front behind : Text}
    (hfront : ':' ∉ front) (hbehind : '@' ∉ behind) :
    scanCredentials U (front ++ ':' :: behind) =
      (none, front ++ ':' :: behind) := by
  cases h : (scanCredentials U (front ++ ':' :: behind)).1 with
  | none => exact Prod.ext h (scanCredentials_eq_none h)
  | some up =>
      obtain ⟨hs, -, -, hu, -⟩ := scanCredentials_eq_some_iff.mp
        (Prod.ext h rfl :
          scanCredentials U (front ++ ':' :: behind) = (some up, _))
      have hcolon : ':' ∉ up.1 := by
        intro hc
        simpa [word_colon] using hu ':' hc
      obtain ⟨-, hpassword⟩ := split_unique hfront hcolon hs
      rw [hpassword] at hbehind
      simp at hbehind

/-- A domain with a number behind a colon is read as just that. -/
theorem read_hostPort {domain : Text} (hne : domain ≠ [])
    (hdomain : ∀ c ∈ domain, domainChar c = true) (port : UInt16) :
    read U (hostPort domain port) =
      { scheme := none
        credentials := none
        host := some (domain, some (decimal port.toNat))
        path := []
        query := none
        fragment := none } := by
  have hdigits : ∀ c ∈ decimal port.toNat, c.isDigit = true :=
    fun c hc => isDigit_of_mem_decimal hc
  have hscheme : scanScheme (hostPort domain port) =
      (none, hostPort domain port) := by
    have hall : IsSpan schemeChar (hostPort domain port)
        (hostPort domain port) [] := by
      apply isSpan_all
      intro c hc
      rcases List.mem_append.mp hc with hc | hc
      · exact schemeChar_of_domainChar (hdomain c hc)
      · rcases List.mem_cons.mp hc with rfl | hc
        · decide
        · exact schemeChar_of_isDigit (hdigits c hc)
    unfold scanScheme
    rw [hall.takeWhile_eq, hall.dropWhile_eq]
  have hhost : IsSpan domainChar (hostPort domain port) domain
      (':' :: decimal port.toNat) := isSpan_cons hdomain (by decide)
  have hcredentials : scanCredentials U (hostPort domain port) =
      (none, hostPort domain port) := by
    apply scanCredentials_of_no_at (not_mem_colon_of_domain hdomain)
    intro hat
    exact absurd (hdigits '@' hat) (by decide)
  have hport : IsSpan U.digit (decimal port.toNat) (decimal port.toNat) [] :=
    isSpan_all fun c hc => digit_of_isDigit (hdigits c hc)
  unfold read
  simp only [hscheme, hcredentials,
    scanHost_of_domain hhost.takeWhile_eq hne, hhost.dropWhile_eq,
    hport.takeWhile_eq, hport.dropWhile_eq]
  rfl

end Reading

/-! ## Only parsing can unwind -/

theorem endpointOr_returns (missing : Text) (uri : URI) (port : UInt16) :
    (endpointOr missing uri port).Returns := by
  unfold endpointOr
  split <;> simp

theorem connectPlain_returns {endpoint : Outcome Text}
    (h : endpoint.Returns) : (connectPlain endpoint).Returns := by
  unfold connectPlain
  rw [Outcome.returns_bind_iff]
  · exact h
  · simp

theorem connectTls_returns {uri : URI} {endpoint : Outcome Text}
    (h : endpoint.Returns) : (connectTls serverName uri endpoint).Returns := by
  unfold connectTls
  rw [Outcome.returns_bind_iff]
  · exact h
  · intro endpoint _
    split <;> simp

theorem dispatchScheme_returns {plainSchemes : List Text} {tlsScheme : Text}
    {unsupported : Text → Text} {plain tls : Outcome Connection} {uri : URI}
    (hplain : plain.Returns) (htls : tls.Returns) :
    (dispatchScheme plainSchemes tlsScheme unsupported plain tls
      uri).Returns := by
  unfold dispatchScheme
  dsimp only
  split
  · exact hplain
  · split
    · exact htls
    · simp

/-- What follows `get_uri` never decides whether the call returns. -/
theorem getUri_bind_returns_iff {β : Type} {f : URI → Outcome β}
    {target : Text} (hf : ∀ uri, (f uri).Returns) :
    (getUri U target >>= f).Returns ↔ (read U target).PortReadable := by
  rw [Outcome.returns_bind_iff fun uri _ => hf uri, getUri_returns_iff]

theorem connect_bind_returns_iff {o : Outcome Connection} :
    (do return (← o).endpoint : Outcome Text).Returns ↔ o.Returns :=
  Outcome.returns_bind_iff fun _ _ => by simp

theorem dialled_returns_iff {p : Pinger} (hp : p ≠ .quic) {target : Text} :
    (p.dialled U serverName target).Returns ↔
      (read U target).PortReadable := by
  have hor := fun m uri d => connectPlain_returns (endpointOr_returns m uri d)
  have hor' : ∀ m uri d,
      (connectTls serverName uri (endpointOr m uri d)).Returns :=
    fun m uri d => connectTls_returns (endpointOr_returns m uri d)
  cases p with
  | http | websocket | mqtt | hls =>
      simp only [Pinger.dialled, connect_bind_returns_iff]
      exact getUri_bind_returns_iff fun uri =>
        dispatchScheme_returns (hor _ uri _) (hor' _ uri _)
  | rtsp | rtmp =>
      simp only [Pinger.dialled, connect_bind_returns_iff]
      apply getUri_bind_returns_iff
      intro uri
      split
      · simp
      · exact dispatchScheme_returns
          (connectPlain_returns (Outcome.returns_pure _))
          (connectTls_returns (Outcome.returns_pure _))
  | tls =>
      simp only [Pinger.dialled, connect_bind_returns_iff]
      exact getUri_bind_returns_iff fun uri => hor' _ uri _
  | dns | ntp | stun | turn =>
      exact getUri_bind_returns_iff fun uri => endpointOr_returns _ uri _
  | quic => exact absurd rfl hp

/-- QUIC parses the trimmed endpoint. -/
theorem quic_parseEndpoint_returns_iff {endpoint : Text} :
    (Quic.parseEndpoint U endpoint).Returns ↔
      (read U (Str.trim endpoint)).PortReadable := by
  unfold Quic.parseEndpoint
  dsimp only
  split
  next hnil =>
    have hport : (Reading.read U []).port = none := rfl
    simp [hnil, portReadable_of_port_eq_none hport]
  next hne =>
    apply getUri_bind_returns_iff
    intro uri
    split
    · split <;> simp
    · simp

theorem colon_not_whitespace : Str.isWhitespace ':' = false := by decide

theorem grpc_connect_returns_iff {endpoint : Text} :
    (Grpc.connect U endpoint).Returns ↔
      (read U endpoint).PortReadable := by
  unfold Grpc.connect
  by_cases hnil : Str.trim endpoint = []
  · have hcolon : ':' ∉ endpoint := by
      intro hmem
      simpa [colon_not_whitespace] using
        Str.trim_eq_nil_iff.mp hnil ':' hmem
    have hport : (read U endpoint).port = none :=
      port_eq_none fun h => hcolon ((scanScheme_suffix _).mem h)
    have hurl : Grpc.normalizeEndpoint endpoint =
        Outcome.fail .invalidInput "empty gRPC endpoint".toList := by
      simp [Grpc.normalizeEndpoint, hnil]
    rw [hurl]
    simp [Outcome.fail, Outcome.bind_error, Outcome.Returns,
      portReadable_of_port_eq_none hport]
  · obtain ⟨url, hurl⟩ : ∃ url, Grpc.normalizeEndpoint endpoint = .ok url := by
      unfold Grpc.normalizeEndpoint
      simp only [hnil, if_false]
      split
      · exact ⟨_, rfl⟩
      · split
        · exact ⟨_, rfl⟩
        · split <;> exact ⟨_, rfl⟩
    rw [hurl, Outcome.bind_ok]
    exact getUri_bind_returns_iff fun uri => Outcome.returns_pure _

theorem lookupTarget_returns_iff {url : Text} :
    (lookupTarget U url).Returns ↔ (read U url).PortReadable := by
  apply getUri_bind_returns_iff
  intro uri
  split <;> simp

theorem resolve_returns_iff {Addr : Type}
    {lookupHost : Text → Option (List Addr)} {url : Text} :
    (resolve U lookupHost url).Returns ↔ (read U url).PortReadable := by
  unfold resolve
  rw [Outcome.returns_bind_iff, lookupTarget_returns_iff]
  intro target _
  cases target <;> simp

/-! ## The banner -/

namespace Cli

/-- A rewriting of `target` that returns a text on which parsing returns
exactly when it does on `target`, or that has itself parsed `target` and
unwound. -/
def KeepsReadable (U : CharClasses) (target : Text) (o : Outcome Text) :
    Prop :=
  (∃ rewritten, o = .ok rewritten ∧
    ((read U rewritten).PortReadable ↔ (read U target).PortReadable)) ∨
  (o = .error .panic ∧ ¬(read U target).PortReadable)

theorem keepsReadable_pure (target : Text) :
    KeepsReadable U target (pure target) :=
  Or.inl ⟨target, rfl, Iff.rfl⟩

theorem portReadable_hostPort {domain : Text} (hne : domain ≠ [])
    (hdomain : ∀ c ∈ domain, domainChar c = true) (port : UInt16) :
    (read U (hostPort domain port)).PortReadable := by
  rw [read_hostPort hne hdomain]
  intro text htext
  cases htext
  refine ⟨isDigits_decimal _, ?_⟩
  rw [value_decimal]
  exact le_trans (Nat.le_of_lt port.toNat_lt) (by decide)

theorem keepsReadable_defaultPortTarget (target : Text) (port : UInt16) :
    KeepsReadable U target (defaultPortTarget U target port) := by
  unfold defaultPortTarget
  by_cases h : (read U target).PortReadable
  · rw [getUri_eq_ok_iff.mpr ⟨h, rfl⟩, Outcome.bind_ok]
    split
    next hdefault =>
      have hrewritten := portReadable_hostPort (U := U) hdefault.2
        domainChar_of_mem_domain port
      exact Or.inl ⟨_, rfl, iff_of_true hrewritten h⟩
    · exact keepsReadable_pure target
  · rw [getUri_eq_panic h, Outcome.bind_error]
    exact Or.inr ⟨rfl, h⟩

/-- A command that looks at the scheme first and then rewrites. -/
theorem keepsReadable_bind {target : Text} {f : URI → Outcome Text}
    (hf : ∀ uri, KeepsReadable U target (f uri)) :
    KeepsReadable U target (getUri U target >>= f) := by
  by_cases h : (read U target).PortReadable
  · rw [getUri_eq_ok_iff.mpr ⟨h, rfl⟩, Outcome.bind_ok]
    exact hf _
  · rw [getUri_eq_panic h, Outcome.bind_error]
    exact Or.inr ⟨rfl, h⟩

/-- Replacing one scheme by another. -/
theorem keepsReadable_scheme (t t' : Text) (ht : t ≠ [])
    (hchars : ∀ c ∈ t, schemeChar c = true) (ht' : t' ≠ [])
    (hchars' : ∀ c ∈ t', schemeChar c = true) (rest : Text) :
    KeepsReadable U (t ++ ':' :: '/' :: '/' :: rest)
      (pure (t' ++ ':' :: '/' :: '/' :: rest)) :=
  Or.inl ⟨_, rfl, portReadable_scheme_iff ht' hchars' ht hchars rest⟩

theorem keepsReadable_resolveTarget (command : Command) :
    KeepsReadable U (targetOf command) (resolveTarget U command) := by
  cases command with
  | dns server _ _ => exact keepsReadable_defaultPortTarget server 53
  | ntp server => exact keepsReadable_defaultPortTarget server 123
  | stun server => exact keepsReadable_defaultPortTarget server 3478
  | turn server => exact keepsReadable_defaultPortTarget server 3478
  | mqtt server _ _ | rtsp server | rtmp server =>
      exact keepsReadable_bind fun _ => keepsReadable_defaultPortTarget _ _
  | grpc endpoint _ _ =>
      simp only [resolveTarget, targetOf]
      split
      next rest hrest =>
        rw [Str.stripPrefix_eq_some_iff.mp hrest]
        exact keepsReadable_scheme "grpcs".toList "https".toList
          (by decide) (by decide) (by decide) (by decide) rest
      · split
        next rest hrest =>
          rw [Str.stripPrefix_eq_some_iff.mp hrest]
          exact keepsReadable_scheme "grpc".toList "http".toList
            (by decide) (by decide) (by decide) (by decide) rest
        · exact keepsReadable_pure endpoint
  | tls target =>
      simp only [resolveTarget, targetOf]
      split
      · exact keepsReadable_pure target
      next hcontains =>
        have hcolon : ':' ∉ target := by
          intro hmem
          exact hcontains (Or.inr (Str.contains_singleton_iff.mpr hmem))
        have hport : (read U target).port = none :=
          port_eq_none fun h => hcolon ((scanScheme_suffix _).mem h)
        have hscan : scanScheme ("https".toList ++ ':' :: '/' :: '/' :: target) =
            (some "https".toList, target) :=
          read_scheme (by decide) (by decide) target
        have hport' : (read U ("https://".toList ++ target)).port = none :=
          port_eq_none (by
            intro h
            change ':' ∈ (scanScheme
              ("https".toList ++ ':' :: '/' :: '/' :: target)).2 at h
            rw [hscan] at h
            exact hcolon h)
        exact Or.inl ⟨_, rfl,
          iff_of_true (portReadable_of_port_eq_none hport')
            (portReadable_of_port_eq_none hport)⟩
  | quic endpoint _ =>
      simp only [resolveTarget, targetOf]
      split
      next rest hrest =>
        rw [Str.stripPrefix_eq_some_iff.mp hrest]
        exact keepsReadable_scheme "quic".toList "https".toList
          (by decide) (by decide) (by decide) (by decide) rest
      · exact keepsReadable_defaultPortTarget endpoint 443
  | tcp target | udp target | ws target | hls target =>
      exact keepsReadable_pure target
  | http method => exact keepsReadable_pure method.target

theorem banner_returns_iff {Addr : Type}
    {lookupHost : Text → Option (List Addr)} {command : Command} :
    (banner U lookupHost command).Returns ↔
      (read U (targetOf command)).PortReadable := by
  unfold banner
  obtain ⟨rewritten, hok, hiff⟩ | ⟨hpanic, hnot⟩ :=
    keepsReadable_resolveTarget (U := U) command
  · rw [hok, Outcome.bind_ok, resolve_returns_iff, hiff]
  · rw [hpanic, Outcome.bind_error]
    simp [hnot]

end Cli

end KnockKnock
