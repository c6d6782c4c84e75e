import KnockKnock.Targets.Lookup

/-!
# A default port written into a target

`main` composes `domain:port` from a target without a port, and `resolve`
parses what `main` has composed.  A domain never contains a colon, so the
first one ends it again, and behind it stand digits only: whatever else the
domain contains, nothing in front of the port is taken for a scheme or for
credentials.
-/

namespace KnockKnock

open Numeral Outcome Reading

variable {U : CharClasses} {target : Text} {uri : URI} {p : UInt16}

/-- The endpoint builder yields what is looked up, and nothing if nothing
is. -/
def Dials (lookedUp : Option Text) (o : Outcome Text) : Prop :=
  ∀ endpoint, o = .ok endpoint ↔ lookedUp = some endpoint

theorem dials_ok_iff {lookedUp : Option Text} {endpoint : Text} :
    Dials lookedUp (.ok endpoint) ↔ lookedUp = some endpoint := by
  constructor
  · intro h
    exact (h endpoint).mp rfl
  · rintro rfl other
    rw [Except.ok.injEq, Option.some.injEq]

/-- The host and the port to look up, if there is a host. -/
def endpointOf (uri : URI) (port : UInt16) : Option Text :=
  if uri.domain = [] then none else some (hostPort uri.domain port)

theorem dials_endpointOr (missing : Text) (uri : URI) (p : UInt16) :
    Dials (endpointOf uri (portOr uri p)) (endpointOr missing uri p) := by
  intro endpoint
  unfold endpointOf endpointOr
  split
  · exact iff_of_false nofun nofun
  · exact (dials_ok_iff.mpr rfl) endpoint

/-- A server endpoint parses the target itself. -/
theorem dials_getUri {lookedUp : Option Text} {f : URI → Outcome Text}
    (huri : getUri U target = .ok uri) (h : Dials lookedUp (f uri)) :
    Dials lookedUp (getUri U target >>= f) := by
  rw [huri, bind_ok]
  exact h

/-- A port other than 0 is converted whatever the default port is. -/
theorem portOr_of_ne (huri : getUri U target = .ok uri) (hport : uri.port ≠ 0)
    (p : UInt16) :
    portOr uri p = UInt16.ofInt uri.port ∧
      ∀ d, portOr uri d = portOr uri p := by
  obtain ⟨-, rfl⟩ := getUri_eq_ok_iff.mp huri
  have hnat : (Reading.read U target).toURI.port =
      ((Reading.read U target).portNumber : ℤ) := rfl
  have hpos : 0 < (Reading.read U target).toURI.port := by omega
  exact ⟨if_pos hpos, fun d => portOr_of_pos hpos d p⟩

/-! ## Parsing what was composed -/

/-- A composed text is nothing but its domain and its port. -/
structure RereadAs (uri : URI) (domain : Text) (p : UInt16) : Prop where
  domain : uri.domain = domain
  port : uri.port = p.toNat
  scheme : uri.scheme = []
  username : uri.username = []
  password : uri.password = []

theorem getUri_hostPort {domain : Text} (hne : domain ≠ [])
    (hdomain : ∀ c ∈ domain, domainChar c = true) (p : UInt16) :
    ∃ again, getUri U (hostPort domain p) = .ok again ∧
      RereadAs again domain p := by
  have hreadable := Cli.portReadable_hostPort (U := U) hne hdomain p
  have hread := read_hostPort (U := U) hne hdomain p
  refine ⟨_, getUri_eq_ok_iff.mpr ⟨hreadable, rfl⟩, ?_⟩
  rw [hread]
  refine ⟨rfl, ?_, rfl, rfl, rfl⟩
  change ((value (decimal p.toNat) : ℕ) : ℤ) = p.toNat
  rw [value_decimal]

/-! ## Both sides without a host -/

/-- Without a host nothing is written into the target, and nothing is looked
up. -/
theorem lookupTarget_defaultPortTarget_nil
    (huri : getUri U target = .ok uri) (hdomain : uri.domain = [])
    (p : UInt16) :
    (Cli.defaultPortTarget U target p >>= lookupTarget U) = .ok none := by
  have hkept : Cli.defaultPortTarget U target p = .ok target := by
    unfold Cli.defaultPortTarget
    rw [huri, bind_ok]
    exact if_neg fun h => h.2 hdomain
  rw [hkept, bind_ok]
  unfold lookupTarget
  rw [huri, bind_ok]
  exact if_pos hdomain

/-- White space around a host never hides it. -/
theorem host_trim_eq_none (h : (read U target).host = none) :
    (read U (Str.trim target)).host = none := by
  by_contra hhost
  by_cases hfront : Str.leading target = [] ∨
      (read U (Str.trim target)).scheme ≠ none
  · rw [Cli.host_of_front hfront] at h
    simp only [Reading.read, scanScheme_behind (Str.blank_trailing target),
      scanCredentials_behind (Str.blank_trailing target)] at h
    exact hhost (scanHost_none_of_behind h)
  · obtain ⟨hne, hscheme⟩ := not_or.mp hfront
    -- What stands in front becomes the beginning of a domain.
    rw [Cli.host_of_blank hne (not_not.mp hscheme) hhost,
      scanHost_fst_eq_none_iff] at h
    have hblank := domainChar_of_blank (Str.blank_leading target)
    rw [← Str.leading_append_trim target,
      List.takeWhile_append_of_pos hblank] at h
    exact hne (List.append_eq_nil_iff.mp h).1

/-- Whatever a pinger dials, its target has a host. -/
theorem domain_ne_nil_of_dialled {serverName : ServerNames} {pinger : Pinger}
    {endpoint : Text} (huri : getUri U target = .ok uri)
    (h : pinger.dialled U serverName target = .ok endpoint) :
    uri.domain ≠ [] := by
  have hdispatch : ∀ {plainSchemes tlsScheme unsupported plain tls c},
      dispatchScheme plainSchemes tlsScheme unsupported (connectPlain plain)
        (connectTls serverName uri tls) uri = .ok c →
      plain = .ok c.endpoint ∨ tls = .ok c.endpoint := by
    intro plainSchemes tlsScheme unsupported plain tls c hc
    rcases dispatchScheme_eq_ok hc with ⟨-, hplain⟩ | ⟨-, htls⟩
    · exact Or.inl (connectPlain_eq_ok hplain)
    · exact Or.inr (connectTls_eq_ok htls)
  cases pinger with
  | http | websocket | mqtt | hls =>
      obtain ⟨uri', c, huri', hc, -⟩ := connect_bind_eq_ok h
      obtain rfl := Except.ok.inj (huri.symm.trans huri')
      rcases hdispatch hc with hplain | htls
      · exact (endpointOr_eq_ok hplain).1
      · exact (endpointOr_eq_ok htls).1
  | rtsp | rtmp =>
      obtain ⟨uri', c, huri', hc, -⟩ := connect_bind_eq_ok h
      obtain rfl := Except.ok.inj (huri.symm.trans huri')
      split at hc
      · cases hc
      next hdomain => exact hdomain
  | tls =>
      obtain ⟨uri', c, huri', hc, -⟩ := connect_bind_eq_ok h
      obtain rfl := Except.ok.inj (huri.symm.trans huri')
      exact (endpointOr_eq_ok (connectTls_eq_ok hc)).1
  | dns | ntp | stun | turn =>
      obtain ⟨uri', huri', hendpoint⟩ := bind_eq_ok_iff.mp h
      obtain rfl := Except.ok.inj (huri.symm.trans huri')
      exact (endpointOr_eq_ok hendpoint).1
  | quic =>
      obtain ⟨-, hne, -⟩ := Cli.quic_dialled_eq_ok h
      obtain ⟨-, rfl⟩ := getUri_eq_ok_iff.mp huri
      intro hnil
      apply hne
      rw [Reading.domain, host_trim_eq_none (domain_eq_nil_iff.mp hnil)]
      rfl

/-! ## Both sides -/

/-- What `resolve` looks up for a target `main` has written the default port
`p` into is what a pinger with the default port `p` dials. -/
structure FillsPort (U : CharClasses) (target : Text) (uri : URI)
    (p port : UInt16) : Prop where
  default : uri.port = 0 → port = p
  converted : uri.port ≠ 0 → port = UInt16.ofInt uri.port ∧
    ∀ d, portOr uri d = port
  lookup : (Cli.defaultPortTarget U target p >>= lookupTarget U) =
    .ok (endpointOf uri port)
  addresses : ∀ (Addr : Type) (lookupHost : Text → Option (List Addr)),
    (Cli.defaultPortTarget U target p >>= resolve U lookupHost) =
      .ok (((endpointOf uri port).bind lookupHost).getD [])
  endpointFor : uri.domain ≠ [] → ∀ build ∈ endpointBuilders,
    Dials (endpointOf uri port) (build uri p)
  dns : p = 53 → Dials (endpointOf uri port) (Dns.serverEndpoint U target)
  ntp : p = 123 → Dials (endpointOf uri port) (Ntp.serverEndpoint U target)
  stun : Dials (endpointOf uri port) (Stun.serverEndpoint U target p)
  refused : uri.domain = [] → endpointOf uri port = none ∧
    ∀ (serverName : ServerNames) (pinger : Pinger) (endpoint : Text),
      pinger.dialled U serverName target ≠ .ok endpoint
  reread : uri.domain ≠ [] →
    ∃ again, getUri U (hostPort uri.domain p) = .ok again ∧
      RereadAs again uri.domain p

theorem endpointFor_dials (hdomain : uri.domain ≠ []) (p : UInt16) :
    ∀ build ∈ endpointBuilders,
      Dials (endpointOf uri (portOr uri p)) (build uri p) := by
  have hset : endpointOf uri (portOr uri p) =
      some (hostPort uri.domain (portOr uri p)) := if_neg hdomain
  apply forall_endpointBuilders
  · intro missing
    exact dials_endpointOr missing uri p
  · exact dials_ok_iff.mpr hset

/-- Both sides agree on the host and on the port, whatever the target is. -/
theorem defaultPortTarget_fillsPort (huri : getUri U target = .ok uri)
    (hp : 1 ≤ p.toNat) : ∃ port, FillsPort U target uri p port := by
  have hne : p ≠ 0 := by
    rintro rfl
    exact absurd hp (by decide)
  have hlookup : (Cli.defaultPortTarget U target p >>= lookupTarget U) =
      .ok (endpointOf uri (portOr uri p)) := by
    unfold endpointOf
    split
    next hnil => exact lookupTarget_defaultPortTarget_nil huri hnil p
    next hdomain => exact lookupTarget_defaultPortTarget huri hdomain hne
  refine ⟨portOr uri p, ?_⟩
  exact
    { default := fun hzero => portOr_of_zero hzero p
      converted := fun hport => portOr_of_ne huri hport p
      lookup := hlookup
      addresses := fun Addr lookupHost => by
        rw [bind_resolve_eq, hlookup]
        rfl
      endpointFor := fun hdomain => endpointFor_dials hdomain p
      dns := by
        rintro rfl
        exact dials_getUri huri (dials_endpointOr _ uri 53)
      ntp := by
        rintro rfl
        exact dials_getUri huri (dials_endpointOr _ uri 123)
      stun := dials_getUri huri (dials_endpointOr _ uri p)
      refused := fun hnil => ⟨if_pos hnil, fun serverName pinger endpoint h =>
        domain_ne_nil_of_dialled huri h hnil⟩
      reread := by
        intro hdomain
        obtain ⟨-, rfl⟩ := getUri_eq_ok_iff.mp huri
        exact getUri_hostPort hdomain domainChar_of_mem_domain p }

/-- A domain that looks like credentials, with a space in it. -/
theorem defaultPortTarget_fillsPort_space :
    1 ≤ (53 : UInt16).toNat ∧
      ∃ port, FillsPort CharClasses.ascii "ns one@home".toList
        (read CharClasses.ascii "ns one@home".toList).toURI 53 port :=
  ⟨by decide, defaultPortTarget_fillsPort
    (getUri_eq_ok_iff.mpr ⟨by decide, rfl⟩) (by decide)⟩

end KnockKnock
