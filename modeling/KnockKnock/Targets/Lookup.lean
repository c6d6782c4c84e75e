import KnockKnock.Targets.Ports
import KnockKnock.Targets.Returning
import KnockKnock.Targets.Secured

/-!
# The banner and the dialled endpoint

`main` rewrites the target of a command so that the `DNS lookup:` banner shows
the address the pinger is going to dial.  The two agree for ten commands.  For
`tls` the banner shows port 80 under a scheme other than `https` and `wss`,
and for `quic` the pinger trims its endpoint and the banner does not.
-/

namespace KnockKnock

open Numeral Outcome Reading Spans Str

variable {U : CharClasses} {serverName : ServerNames}

/-- `resolve` gives the addresses of what it looks up. -/
theorem bind_resolve_eq {Addr : Type} (lookupHost : Text → Option (List Addr))
    (o : Outcome Text) :
    (o >>= resolve U lookupHost) =
      (o >>= lookupTarget U) >>= fun target =>
        pure ((target.bind lookupHost).getD []) := by
  cases o with
  | error e => rfl
  | ok url =>
      rw [bind_ok, bind_ok]
      unfold resolve
      cases lookupTarget U url with
      | error e => rfl
      | ok target => cases target <;> rfl

namespace Cli

variable (U) in
/-- The `host:port` text the banner of a command looks up. -/
def lookedUp (command : Command) : Outcome (Option Text) := do
  lookupTarget U (← resolveTarget U command)

theorem lookedUp_of_rewritten {command : Command} {target : Text}
    (h : resolveTarget U command = .ok target) :
    lookedUp U command = lookupTarget U target := by
  rw [lookedUp, h, bind_ok]

/-- The banner shows the addresses of that text. -/
theorem banner_eq {Addr : Type} (lookupHost : Text → Option (List Addr))
    (command : Command) :
    banner U lookupHost command =
      lookedUp U command >>= fun target =>
        pure ((target.bind lookupHost).getD []) :=
  bind_resolve_eq lookupHost (resolveTarget U command)

/-- The pinger behind a command, of those that parse a URL. -/
def pingerOf : Command → Option Pinger
  | .tcp _ | .udp _ | .grpc _ _ _ => none
  | .http _ => some .http
  | .ws _ => some .websocket
  | .dns _ _ _ => some .dns
  | .hls _ => some .hls
  | .mqtt _ _ _ => some .mqtt
  | .tls _ => some .tls
  | .ntp _ => some .ntp
  | .stun _ => some .stun
  | .turn _ => some .turn
  | .rtsp _ => some .rtsp
  | .rtmp _ => some .rtmp
  | .quic _ _ => some .quic

end Cli

/-! ## What the pingers dial -/

theorem endpointOr_eq_ok {missing : Text} {uri : URI} {d : UInt16}
    {endpoint : Text} (h : endpointOr missing uri d = .ok endpoint) :
    uri.domain ≠ [] ∧ endpoint = hostPort uri.domain (portOr uri d) := by
  unfold endpointOr at h
  split at h
  · cases h
  next hne => exact ⟨hne, (Except.ok.inj h).symm⟩

theorem connectPlain_eq_ok {endpoint : Outcome Text} {c : Connection}
    (h : connectPlain endpoint = .ok c) : endpoint = .ok c.endpoint := by
  obtain ⟨e, he, hc⟩ := bind_eq_ok_iff.mp h
  rw [he, ← Except.ok.inj hc]

theorem connectTls_eq_ok {uri : URI} {endpoint : Outcome Text}
    {c : Connection} (h : connectTls serverName uri endpoint = .ok c) :
    endpoint = .ok c.endpoint := by
  obtain ⟨e, he, hc⟩ := bind_eq_ok_iff.mp h
  split at hc
  · rw [he, ← Except.ok.inj hc]
  · cases hc

/-- What a pinger dials is the endpoint of its connection. -/
theorem connect_bind_eq_ok {target endpoint : Text}
    {f : URI → Outcome Connection}
    (h : (do return (← getUri U target >>= f).endpoint) = .ok endpoint) :
    ∃ uri c, getUri U target = .ok uri ∧ f uri = .ok c ∧
      c.endpoint = endpoint := by
  obtain ⟨c, hc, hendpoint⟩ := bind_eq_ok_iff.mp h
  obtain ⟨uri, huri, hf⟩ := bind_eq_ok_iff.mp hc
  exact ⟨uri, c, huri, hf, Except.ok.inj hendpoint⟩

/-- A pinger that dispatches on the scheme dials the default port of the
branch it takes. -/
theorem dispatchScheme_endpoint {plainSchemes : List Text}
    {tlsScheme : Text} {unsupported : Text → Text}
    {endpointFor : UInt16 → Outcome Text} {a b : UInt16} {uri : URI}
    {c : Connection} (htls : tlsScheme ∉ plainSchemes)
    (h : dispatchScheme plainSchemes tlsScheme unsupported
      (connectPlain (endpointFor a))
      (connectTls serverName uri (endpointFor b)) uri = .ok c) :
    toAsciiLowercase uri.scheme ∈ tlsScheme :: plainSchemes ∧
      endpointFor (if toAsciiLowercase uri.scheme = tlsScheme then b
        else a) = .ok c.endpoint := by
  rcases dispatchScheme_eq_ok h with ⟨hmem, hc⟩ | ⟨heq, hc⟩
  · have hne : toAsciiLowercase uri.scheme ≠ tlsScheme := by
      intro heq
      rw [heq] at hmem
      exact htls hmem
    rw [if_neg hne]
    exact ⟨List.mem_cons_of_mem _ hmem, connectPlain_eq_ok hc⟩
  · rw [if_pos heq, heq]
    exact ⟨List.mem_cons_self, connectTls_eq_ok hc⟩

/-! ## What the banner looks up -/

/-- The default port of `resolve`. -/
def resolvePort (scheme : Text) : UInt16 :=
  if scheme = "https".toList ∨ scheme = "wss".toList then 443 else 80

theorem resolvePort_eq_iff {scheme : Text} :
    resolvePort scheme = 443 ↔
      scheme = "https".toList ∨ scheme = "wss".toList := by
  unfold resolvePort
  split
  next h => exact iff_of_true rfl h
  next h => exact iff_of_false (by decide) h

theorem lookupTarget_eq_ok {target : Text} {uri : URI}
    (huri : getUri U target = .ok uri) (hdomain : uri.domain ≠ []) :
    lookupTarget U target = .ok (some (hostPort uri.domain
      (portOr uri (resolvePort (toAsciiLowercase uri.scheme))))) := by
  unfold lookupTarget
  rw [huri, bind_ok, if_neg hdomain]
  rfl

theorem portOr_congr {uri uri' : URI} (h : uri.port = uri'.port)
    (d : UInt16) : portOr uri d = portOr uri' d := by
  rw [portOr, portOr, h]

/-- Another text with the same host, under a scheme of its own. -/
theorem lookupTarget_of_host {target target' : Text} {uri : URI}
    (huri : getUri U target = .ok uri) (hdomain : uri.domain ≠ [])
    (hhost : (read U target').host = (read U target).host) {d : UInt16}
    (hd : resolvePort (toAsciiLowercase (read U target').toURI.scheme) = d) :
    lookupTarget U target' =
      .ok (some (hostPort uri.domain (portOr uri d))) := by
  obtain ⟨hreadable, rfl⟩ := getUri_eq_ok_iff.mp huri
  have hport : (read U target').port = (read U target).port := by
    rw [Reading.port, hhost]
    rfl
  have hreadable' : (read U target').PortReadable := by
    rw [PortReadable, hport]
    exact hreadable
  have hdomain' : (read U target').toURI.domain =
      (read U target).toURI.domain := by
    simp only [toURI, Reading.domain, hhost]
  have hnumber : (read U target').toURI.port =
      (read U target).toURI.port := by
    simp only [toURI, portNumber, hport]
  rw [lookupTarget_eq_ok (getUri_eq_ok_iff.mpr ⟨hreadable', rfl⟩)
    (by rw [hdomain']; exact hdomain), hdomain', hd, portOr_congr hnumber]

/-- The text a default port has been written into is looked up as it is. -/
theorem lookupTarget_hostPort {domain : Text} (hne : domain ≠ [])
    (hdomain : ∀ c ∈ domain, domainChar c = true) {port : UInt16}
    (hport : port ≠ 0) :
    lookupTarget U (hostPort domain port) =
      .ok (some (hostPort domain port)) := by
  have hread := read_hostPort (U := U) hne hdomain port
  have huri := getUri_eq_ok_iff.mpr
    ⟨Cli.portReadable_hostPort (U := U) hne hdomain port, rfl⟩
  have hset : (read U (hostPort domain port)).toURI.domain = domain := by
    rw [hread]
    rfl
  have hnumber : (read U (hostPort domain port)).toURI.port =
      (port.toNat : ℕ) := by
    rw [hread]
    change ((value (decimal port.toNat) : ℕ) : ℤ) = _
    rw [value_decimal]
  have hpos : port.toNat ≠ 0 := by
    intro hzero
    exact hport (UInt16.toNat_inj.mp hzero)
  rw [lookupTarget_eq_ok huri (by rw [hset]; exact hne), hset]
  congr 3
  apply UInt16.toNat_inj.mp
  rw [portOr_toNat hnumber, if_neg hpos]
  exact Nat.mod_eq_of_lt port.toNat_lt

/-- An explicit port leaves the default one out. -/
theorem portOr_of_pos {uri : URI} (h : 0 < uri.port) (d d' : UInt16) :
    portOr uri d = portOr uri d' := by
  unfold portOr
  rw [if_pos h, if_pos h]

theorem portOr_of_zero {uri : URI} (h : uri.port = 0) (d : UInt16) :
    portOr uri d = d := by
  rw [portOr, if_neg (by omega)]

/-- A default port written by `main` is the one the pinger falls back to. -/
theorem lookupTarget_defaultPortTarget {target : Text} {uri : URI}
    (huri : getUri U target = .ok uri) (hdomain : uri.domain ≠ [])
    {d : UInt16} (hd : d ≠ 0) :
    (Cli.defaultPortTarget U target d >>= lookupTarget U) =
      .ok (some (hostPort uri.domain (portOr uri d))) := by
  unfold Cli.defaultPortTarget
  rw [huri, bind_ok]
  obtain ⟨-, hset⟩ := getUri_eq_ok_iff.mp huri
  by_cases hport : uri.port = 0
  · have hchars : ∀ c ∈ uri.domain, domainChar c = true := by
      rw [hset]
      exact domainChar_of_mem_domain
    rw [if_pos ⟨hport, hdomain⟩, portOr_of_zero hport, pure_bind]
    exact lookupTarget_hostPort hdomain hchars hd
  · have hpos : 0 < uri.port := by
      have hnat : uri.port = ((read U target).portNumber : ℤ) := by
        rw [hset]
        rfl
      omega
    rw [if_neg fun h => hport h.1, pure_bind,
      lookupTarget_eq_ok huri hdomain, portOr_of_pos hpos]

/-! ## Commands without a rewritten scheme -/

namespace Cli

/-- All endpoints the pinger of a command can dial are what the banner looks
up. -/
def Agrees (U : CharClasses) (serverName : ServerNames) (command : Command)
    (p : Pinger) : Prop :=
  ∀ endpoint, p.dialled U serverName (targetOf command) = .ok endpoint →
    lookedUp U command = .ok (some endpoint)

/-- A rewriting that asks for the scheme first, once the target is parsed. -/
theorem lookedUp_bind {target : Text} {uri : URI}
    (huri : getUri U target = .ok uri) (d : URI → UInt16) :
    ((do let uri ← getUri U target
         defaultPortTarget U target (d uri)) >>= lookupTarget U) =
      (defaultPortTarget U target (d uri) >>= lookupTarget U) := by
  rw [huri, bind_ok]

/-- A pinger that dispatches on the scheme agrees if its two default ports are
what the banner makes of the scheme. -/
theorem agrees_dispatch {command : Command} {tlsScheme : Text}
    {plainSchemes : List Text} {unsupported : Text → Text} {a b : UInt16}
    {endpointFor : UInt16 → Outcome Text} {c : Connection} {uri : URI}
    (htls : tlsScheme ∉ plainSchemes)
    (hendpoint : ∀ {d endpoint}, endpointFor d = .ok endpoint →
      uri.domain ≠ [] ∧ endpoint = hostPort uri.domain (portOr uri d))
    (h : dispatchScheme plainSchemes tlsScheme unsupported
      (connectPlain (endpointFor a))
      (connectTls serverName uri (endpointFor b)) uri = .ok c)
    (hlookup : uri.domain ≠ [] → ∃ d, lookedUp U command =
        .ok (some (hostPort uri.domain (portOr uri d))) ∧
      (toAsciiLowercase uri.scheme ∈ tlsScheme :: plainSchemes →
        d = if toAsciiLowercase uri.scheme = tlsScheme then b else a)) :
    lookedUp U command = .ok (some c.endpoint) := by
  obtain ⟨hmem, hc⟩ := dispatchScheme_endpoint htls h
  obtain ⟨hdomain, hc⟩ := hendpoint hc
  obtain ⟨d, hlooked, hd⟩ := hlookup hdomain
  rw [hc, hlooked, hd hmem]

/-- `resolve` knows the default ports of HTTP and of WebSocket. -/
theorem resolvePort_https : ∀ scheme ∈ ["https".toList, [], "http".toList],
    resolvePort scheme = if scheme = "https".toList then 443 else 80 := by
  decide

theorem resolvePort_wss : ∀ scheme ∈ ["wss".toList, "ws".toList],
    resolvePort scheme = if scheme = "wss".toList then 443 else 80 := by
  decide

/-- Ten of the commands show what they dial. -/
theorem agrees_of_ne {command : Command} {p : Pinger}
    (hp : pingerOf command = some p) (htls : p ≠ .tls) (hquic : p ≠ .quic) :
    Agrees U serverName command p := by
  intro endpoint h
  cases command with
  | http | hls =>
      obtain rfl := Option.some.inj hp
      obtain ⟨uri, c, huri, hdispatch, rfl⟩ := connect_bind_eq_ok h
      exact agrees_dispatch (by decide) endpointOr_eq_ok hdispatch
        fun hdomain => ⟨_, (lookedUp_of_rewritten rfl).trans
          (lookupTarget_eq_ok huri hdomain), resolvePort_https _⟩
  | ws =>
      obtain rfl := Option.some.inj hp
      obtain ⟨uri, c, huri, hdispatch, rfl⟩ := connect_bind_eq_ok h
      exact agrees_dispatch (by decide) endpointOr_eq_ok hdispatch
        fun hdomain => ⟨_, (lookedUp_of_rewritten rfl).trans
          (lookupTarget_eq_ok huri hdomain), resolvePort_wss _⟩
  | mqtt broker clientId v5 =>
      obtain rfl := Option.some.inj hp
      obtain ⟨uri, c, huri, hdispatch, rfl⟩ := connect_bind_eq_ok h
      refine agrees_dispatch (by decide) endpointOr_eq_ok hdispatch
        fun hdomain => ⟨_, (lookedUp_bind huri _).trans
          (lookupTarget_defaultPortTarget huri hdomain ?_),
          fun _ => if_congr beq_iff_eq rfl rfl⟩
      split <;> decide
  | rtsp | rtmp =>
      obtain rfl := Option.some.inj hp
      obtain ⟨uri, c, huri, hchecked, rfl⟩ := connect_bind_eq_ok h
      split at hchecked
      · cases hchecked
      next hdomain =>
        refine agrees_dispatch (by decide)
          (fun hpure => ⟨hdomain, (Except.ok.inj hpure).symm⟩) hchecked
          fun _ => ⟨_, (lookedUp_bind huri _).trans
            (lookupTarget_defaultPortTarget huri hdomain ?_), fun _ => rfl⟩
        split <;> decide
  | dns | ntp | stun | turn =>
      obtain rfl := Option.some.inj hp
      obtain ⟨uri, huri, hendpoint⟩ := bind_eq_ok_iff.mp h
      obtain ⟨hdomain, rfl⟩ := endpointOr_eq_ok hendpoint
      exact lookupTarget_defaultPortTarget huri hdomain (by decide)
  | tls => exact absurd (Option.some.inj hp).symm htls
  | quic => exact absurd (Option.some.inj hp).symm hquic
  | tcp | udp | grpc => cases hp

/-! ## TLS -/

theorem hostPort_eq_iff {domain domain' : Text} (h : ':' ∉ domain)
    (h' : ':' ∉ domain') {port port' : UInt16} :
    hostPort domain port = hostPort domain' port' ↔
      domain = domain' ∧ port = port' := by
  constructor
  · intro heq
    obtain ⟨hdomain, hport⟩ := split_unique h h' heq
    exact ⟨hdomain, UInt16.toNat_inj.mp (decimal_injective hport)⟩
  · rintro ⟨rfl, rfl⟩
    rfl

/-- A bare host is looked up with the port of `https`. -/
theorem lookedUp_tls_bare {target : Text} {uri : URI}
    (huri : getUri U target = .ok uri) (hdomain : uri.domain ≠ [])
    (hcolon : ':' ∉ target) :
    lookedUp U (.tls target) =
      .ok (some (hostPort uri.domain (portOr uri 443))) := by
  have hcontains : ¬(contains target "://".toList = true ∨
      contains target [':'] = true) := by
    rintro (hsub | hmem)
    · have hseparator : "://".toList <:+: target := by
        simpa [contains] using hsub
      exact hcolon (hseparator.subset (by decide))
    · exact hcolon (contains_singleton_iff.mp hmem)
  have hrewritten : resolveTarget U (.tls target) =
      .ok ("https://".toList ++ target) := if_neg hcontains
  have hscan : scanScheme ("https://".toList ++ target) =
      (some "https".toList, target) :=
    read_scheme (t := "https".toList) (by decide) (by decide) target
  have hnone : (scanScheme target).1 = none := by
    by_contra hsome
    obtain ⟨t, ht⟩ := Option.ne_none_iff_exists'.mp hsome
    obtain ⟨htarget, -⟩ := scanScheme_eq_some_iff.mp
      (Prod.ext ht rfl : scanScheme target = (some t, _))
    rw [htarget] at hcolon
    simp at hcolon
  have hhost : (read U ("https://".toList ++ target)).host =
      (read U target).host := by
    simp only [Reading.read, hscan, scanScheme_eq_none hnone]
  rw [lookedUp_of_rewritten hrewritten]
  refine lookupTarget_of_host huri hdomain hhost ?_
  simp only [toURI, Reading.read, hscan]
  decide

/-- The banner of `tls` shows what is dialled unless a target with a colon
leaves the port to `resolve`, which does not know its scheme. -/
theorem tls_agrees_iff {target endpoint : Text}
    (h : Pinger.dialled U serverName .tls target = .ok endpoint) :
    lookedUp U (.tls target) = .ok (some endpoint) ↔
      ':' ∉ target ∨ 0 < (read U target).portNumber ∨
        WrittenWith target "https".toList ∨
        WrittenWith target "wss".toList := by
  obtain ⟨uri, c, huri, hconnect, rfl⟩ := connect_bind_eq_ok h
  obtain ⟨hdomain, hdialled⟩ := endpointOr_eq_ok (connectTls_eq_ok hconnect)
  obtain ⟨hreadable, rfl⟩ := getUri_eq_ok_iff.mp huri
  rw [hdialled]
  have hnumber : (read U target).toURI.port =
      ((read U target).portNumber : ℤ) := rfl
  by_cases hcolon : ':' ∈ target
  · have hrewritten : resolveTarget U (.tls target) = .ok target :=
      if_pos (Or.inr (contains_singleton_iff.mpr hcolon))
    have hcolonless : ':' ∉ (read U target).toURI.domain :=
      not_mem_colon_domain
    rw [lookedUp_of_rewritten hrewritten, lookupTarget_eq_ok huri hdomain,
      writtenWith_iff (by decide) (by decide),
      writtenWith_iff (by decide) (by decide)]
    simp only [Except.ok.injEq, Option.some.injEq, hcolon, not_true,
      false_or, hostPort_eq_iff hcolonless hcolonless, true_and]
    by_cases hport : 0 < (read U target).portNumber
    · have hpos : 0 < (read U target).toURI.port := by omega
      exact iff_of_true (portOr_of_pos hpos _ _) (Or.inl hport)
    · have hzero : (read U target).toURI.port = 0 := by omega
      rw [portOr_of_zero hzero, portOr_of_zero hzero]
      simp only [hport, false_or]
      exact resolvePort_eq_iff
  · exact iff_of_true (lookedUp_tls_bare huri hdomain hcolon)
      (Or.inl hcolon)

/-! ## QUIC -/

/-- The banner parses the endpoint as it was given; a scheme `quic` in lower
case becomes `https`, which has the same default port. -/
theorem lookedUp_quic {endpoint : Text} (alpn : Text) {uri : URI}
    (huri : getUri U endpoint = .ok uri) (hdomain : uri.domain ≠ []) :
    lookedUp U (.quic endpoint alpn) =
      .ok (some (hostPort uri.domain (portOr uri 443))) := by
  cases hstrip : stripPrefix "quic://".toList endpoint with
  | none =>
      have hrewritten : resolveTarget U (.quic endpoint alpn) =
          defaultPortTarget U endpoint 443 := by
        simp only [resolveTarget, hstrip]
      rw [lookedUp, hrewritten]
      exact lookupTarget_defaultPortTarget huri hdomain (by decide)
  | some rest =>
      have hrewritten : resolveTarget U (.quic endpoint alpn) =
          .ok ("https://".toList ++ rest) := by
        simp only [resolveTarget, hstrip]
        rfl
      obtain rfl := stripPrefix_eq_some_iff.mp hstrip
      have hscan : scanScheme ("quic://".toList ++ rest) =
          (some "quic".toList, rest) :=
        read_scheme (t := "quic".toList) (by decide) (by decide) rest
      have hscan' : scanScheme ("https://".toList ++ rest) =
          (some "https".toList, rest) :=
        read_scheme (t := "https".toList) (by decide) (by decide) rest
      have hhost : (read U ("https://".toList ++ rest)).host =
          (read U ("quic://".toList ++ rest)).host := by
        simp only [Reading.read, hscan, hscan']
      rw [lookedUp_of_rewritten hrewritten]
      refine lookupTarget_of_host huri hdomain hhost ?_
      simp only [toURI, Reading.read, hscan']
      decide

theorem readable_of_lookedUp {command : Command} {target : Option Text}
    (h : lookedUp U command = .ok target) :
    (read U (targetOf command)).PortReadable := by
  obtain ⟨rewritten, hrewritten, hlookup⟩ := bind_eq_ok_iff.mp h
  obtain ⟨rewritten', hok, hiff⟩ | ⟨hpanic, -⟩ :=
    keepsReadable_resolveTarget (U := U) command
  · obtain rfl := Except.ok.inj (hrewritten.symm.trans hok)
    rw [← hiff, ← lookupTarget_returns_iff, hlookup]
    exact returns_ok _
  · rw [hrewritten] at hpanic
    cases hpanic

theorem quic_dialled_eq_ok {endpoint dialled : Text}
    (h : Quic.dialled U endpoint = .ok dialled) :
    (read U (trim endpoint)).PortReadable ∧
      (read U (trim endpoint)).domain ≠ [] ∧
      dialled = hostPort (read U (trim endpoint)).domain
        (portOr (read U (trim endpoint)).toURI 443) := by
  unfold Quic.dialled Quic.parseEndpoint at h
  generalize trim endpoint = trimmed at *
  obtain ⟨⟨host, port⟩, hparse, hdialled⟩ := bind_eq_ok_iff.mp h
  dsimp only at hparse
  split at hparse
  · cases hparse
  obtain ⟨uri, huri, hchecked⟩ := bind_eq_ok_iff.mp hparse
  obtain ⟨hreadable, rfl⟩ := getUri_eq_ok_iff.mp huri
  split at hchecked
  · split at hchecked
    · cases hchecked
    next hdomain =>
      cases hchecked
      exact ⟨hreadable, hdomain, (Except.ok.inj hdialled).symm⟩
  · cases hchecked

/-- The two agree where the text reads like the trimmed text. -/
theorem quic_agrees_iff_read {endpoint dialled : Text} (alpn : Text)
    (h : Quic.dialled U endpoint = .ok dialled)
    (hdomain : (read U endpoint).domain ≠ []) :
    lookedUp U (.quic endpoint alpn) = .ok (some dialled) ↔
      (read U endpoint).PortReadable ∧
        (read U endpoint).domain = (read U (trim endpoint)).domain ∧
        portOr (read U endpoint).toURI 443 =
          portOr (read U (trim endpoint)).toURI 443 := by
  obtain ⟨-, -, rfl⟩ := quic_dialled_eq_ok h
  by_cases hreadable : (read U endpoint).PortReadable
  · rw [lookedUp_quic alpn (getUri_eq_ok_iff.mpr ⟨hreadable, rfl⟩) hdomain]
    have hset : (read U endpoint).toURI.domain = (read U endpoint).domain :=
      rfl
    rw [hset, Except.ok.injEq, Option.some.injEq,
      hostPort_eq_iff not_mem_colon_domain not_mem_colon_domain]
    exact (and_iff_right hreadable).symm
  · refine iff_of_false (fun hok => ?_) fun hall => hreadable hall.1
    have hread := readable_of_lookedUp hok
    exact hreadable hread

/-! ## White space around a QUIC endpoint -/

/-- What stands behind the scheme and the credentials of a text. -/
def behindCredentials (U : CharClasses) (url : Text) : Text :=
  (scanCredentials U (scanScheme url).2).2

/-- The port number 443 stands in for 0, and the low 16 bits are dialled. -/
def quicPort (n : ℕ) : ℕ := if n = 0 then 443 else n % 65536

/-- No white space becomes part of the host: in front a scheme takes it in,
and behind the domain something else follows first. -/
structure Flush (U : CharClasses) (endpoint : Text) : Prop where
  front : leading endpoint = [] ∨ (read U (trim endpoint)).scheme ≠ none
  back : trailing endpoint = [] ∨
    ∃ c ∈ behindCredentials U (trim endpoint), domainChar c = false

/-- White space in front hides `user:password@`, and the host behind it is
the white space with `user` again, on the port `password` begins with. -/
structure Repeats (U : CharClasses) (endpoint user password : Text) :
    Prop where
  front : leading endpoint ≠ []
  scheme : (read U (trim endpoint)).scheme = none
  credentials : (read U (trim endpoint)).credentials = some (user, password)
  domain : (read U (trim endpoint)).domain = leading endpoint ++ user
  readable : IsDigits (password.takeWhile U.digit) ∧
    value (password.takeWhile U.digit) ≤ 2147483647
  port : quicPort (value (password.takeWhile U.digit)) =
    quicPort (read U (trim endpoint)).portNumber

section WhiteSpace

variable {endpoint dialled : Text}

/-- White space that a scheme takes in leaves the host as it is. -/
theorem host_of_front (hfront : leading endpoint = [] ∨
      (read U (trim endpoint)).scheme ≠ none) :
    (read U endpoint).host =
      (read U (trim endpoint ++ trailing endpoint)).host := by
  have hsplit := leading_append_trim endpoint
  rcases hfront with hnil | hsome
  · rw [hnil, List.nil_append] at hsplit
    rw [hsplit]
  · obtain ⟨t, ht⟩ := Option.ne_none_iff_exists'.mp hsome
    have hscheme : (scanScheme (trim endpoint ++ trailing endpoint)).1 =
        some t := by
      rw [scanScheme_behind (blank_trailing endpoint)]
      exact ht
    have hscan := scanScheme_in_front_some (blank_leading endpoint) hscheme
    rw [hsplit] at hscan
    simp only [Reading.read, hscan]

/-- Where no white space hides in front, all depends on what is behind. -/
theorem quic_agrees_of_front (alpn : Text)
    (h : Quic.dialled U endpoint = .ok dialled)
    (hfront : leading endpoint = [] ∨
      (read U (trim endpoint)).scheme ≠ none) :
    lookedUp U (.quic endpoint alpn) = .ok (some dialled) ↔
      trailing endpoint = [] ∨
        ∃ c ∈ behindCredentials U (trim endpoint), domainChar c = false := by
  obtain ⟨hreadable, hne, -⟩ := quic_dialled_eq_ok h
  have hhost := host_of_front hfront
  have hdomain : (read U endpoint).domain =
      (read U (trim endpoint ++ trailing endpoint)).domain := by
    rw [Reading.domain, hhost]
    rfl
  have hport : (read U endpoint).port = (read U (trim endpoint)).port := by
    rw [Reading.port, hhost]
    exact port_behind (blank_trailing endpoint) (trim endpoint)
  have hreadable' : (read U endpoint).PortReadable := by
    rw [PortReadable, hport]
    exact hreadable
  have hportOr : portOr (read U endpoint).toURI 443 =
      portOr (read U (trim endpoint)).toURI 443 :=
    portOr_congr (by simp only [toURI, portNumber, hport]) 443
  have hne' : (read U endpoint).domain ≠ [] := by
    rw [domain_eq_takeWhile] at hne
    rw [hdomain, domain_behind (blank_trailing endpoint)]
    revert hne
    cases (scanCredentials U (scanScheme (trim endpoint)).2).2 with
    | nil => simp
    | cons c rest => by_cases hc : domainChar c = true <;> simp [hc]
  rw [quic_agrees_iff_read alpn h hne', and_iff_right hreadable',
    and_iff_left hportOr, hdomain,
    domain_behind_eq_iff (blank_trailing endpoint)]
  rfl

/-- White space in front of a host without a scheme becomes part of it. -/
theorem host_of_blank (hne : leading endpoint ≠ [])
    (hscheme : (read U (trim endpoint)).scheme = none)
    (hhost : (read U (trim endpoint)).host ≠ none) :
    (read U endpoint).host = (scanHost U endpoint).1 := by
  have hback := blank_trailing endpoint
  have hscheme' : (scanScheme (trim endpoint ++ trailing endpoint)).1 =
      none := by
    rw [scanScheme_behind hback]
    exact hscheme
  have hhost' : (read U (trim endpoint ++ trailing endpoint)).host ≠
      none := by
    intro hnone
    apply hhost
    simp only [Reading.read, scanScheme_behind hback,
      scanCredentials_behind hback] at hnone
    exact scanHost_none_of_behind hnone
  have hscan := scanScheme_in_front_none (blank_leading endpoint) hscheme'
    hhost'
  have hcredentials := scanCredentials_in_front (U := U)
    (blank_leading endpoint) hne (trim endpoint ++ trailing endpoint)
  rw [leading_append_trim] at hscan hcredentials
  simp only [Reading.read, hscan, hcredentials]

/-- Without credentials behind it, the white space makes another host. -/
theorem quic_disagrees_of_bare (alpn : Text)
    (h : Quic.dialled U endpoint = .ok dialled)
    (hne : leading endpoint ≠ [])
    (hscheme : (read U (trim endpoint)).scheme = none)
    (hcredentials : (read U (trim endpoint)).credentials = none) :
    lookedUp U (.quic endpoint alpn) ≠ .ok (some dialled) := by
  obtain ⟨-, hdomain, -⟩ := quic_dialled_eq_ok h
  have hhost := host_of_blank (U := U) hne hscheme
    (mt domain_eq_nil_iff.mpr hdomain)
  have hrest : behindCredentials U (trim endpoint) = trim endpoint := by
    rw [behindCredentials, scanScheme_eq_none hscheme]
    apply scanCredentials_eq_none
    simpa only [Reading.read, scanScheme_eq_none hscheme] using hcredentials
  have htrimmed : (read U (trim endpoint)).domain =
      (trim endpoint).takeWhile domainChar := by
    rw [domain_eq_takeWhile]
    exact congrArg _ hrest
  have hfront : (read U endpoint).domain = leading endpoint ++
      (trim endpoint ++ trailing endpoint).takeWhile domainChar := by
    rw [Reading.domain, hhost, domain_scanHost]
    conv_lhs => rw [← leading_append_trim endpoint]
    exact List.takeWhile_append_of_pos
      (domainChar_of_blank (blank_leading endpoint))
  rw [Ne, quic_agrees_iff_read alpn h (by simp [hfront, hne]), hfront,
    htrimmed]
  rintro ⟨-, heq, -⟩
  -- What is read behind the white space is no shorter than the trimmed domain.
  have hlonger : ((trim endpoint).takeWhile domainChar).length ≤
      ((trim endpoint ++ trailing endpoint).takeWhile domainChar).length := by
    rw [List.takeWhile_append]
    split
    next hlength => simp [hlength]
    · exact le_rfl
  have hlength := congrArg List.length heq
  have hpos := List.length_pos_of_ne_nil hne
  rw [List.length_append] at hlength
  omega

/-- Behind white space `user:password@` reads as a host and its port. -/
theorem scanHost_of_credentials {user front : Text} (password rest : Text)
    (hfront : Blank front) (hne : user ≠ [])
    (huser : ∀ c ∈ user, U.word c = true) :
    (scanHost U (front ++ (user ++ ':' :: (password ++ '@' :: rest)))).1 =
      some (front ++ user, some (password.takeWhile U.digit)) := by
  have hdigit : U.digit '@' = false := by
    by_contra hdigit
    have hword := U.word_of_digit '@' (by simpa using hdigit)
    rw [word_at] at hword
    cases hword
  refine scanHost_eq_port_iff.mpr
    ⟨by simp [hne], ?_, password ++ '@' :: rest, by simp, ?_⟩
  · intro c hc
    rcases List.mem_append.mp hc with hc | hc
    · exact domainChar_of_blank hfront c hc
    · exact domainChar_of_word (huser c hc)
  · exact takeWhile_append_stop (by simpa using hdigit)

/-- With credentials behind it, what was the user is now the host. -/
theorem quic_agrees_of_credentials (alpn : Text)
    (h : Quic.dialled U endpoint = .ok dialled)
    (hne : leading endpoint ≠ [])
    (hscheme : (read U (trim endpoint)).scheme = none)
    {user password : Text}
    (hcredentials : (read U (trim endpoint)).credentials =
      some (user, password)) :
    lookedUp U (.quic endpoint alpn) = .ok (some dialled) ↔
      Repeats U endpoint user password := by
  obtain ⟨-, hdomain, -⟩ := quic_dialled_eq_ok h
  have hhost := host_of_blank (U := U) hne hscheme
    (mt domain_eq_nil_iff.mpr hdomain)
  have hscan : scanCredentials U (trim endpoint) =
      (some (user, password), (scanCredentials U (trim endpoint)).2) := by
    refine Prod.ext ?_ rfl
    simpa only [Reading.read, scanScheme_eq_none hscheme] using hcredentials
  obtain ⟨htrimmed, huser, -, hword, -⟩ :=
    scanCredentials_eq_some_iff.mp hscan
  have hread : (read U endpoint).host = some (leading endpoint ++ user,
      some (password.takeWhile U.digit)) := by
    have hfront := scanHost_of_credentials password
      ((scanCredentials U (trim endpoint)).2 ++ trailing endpoint)
      (blank_leading endpoint) huser hword
    have hsplit := leading_append_trim endpoint
    rw [htrimmed] at hsplit
    rw [hhost]
    conv_lhs => rw [← hsplit]
    simpa using hfront
  have hport : (read U endpoint).port =
      some (password.takeWhile U.digit) := by
    rw [Reading.port, hread]
    rfl
  have hset : (read U endpoint).domain = leading endpoint ++ user := by
    rw [Reading.domain, hread]
    rfl
  have hportOr : portOr (read U endpoint).toURI 443 =
      portOr (read U (trim endpoint)).toURI 443 ↔
        quicPort (value (password.takeWhile U.digit)) =
          quicPort (read U (trim endpoint)).portNumber := by
    have hnumber : (read U endpoint).toURI.port =
        (value (password.takeWhile U.digit) : ℕ) := by
      simp [toURI, portNumber, hport]
    rw [← UInt16.toNat_inj, portOr_toNat hnumber, portOr_toNat rfl]
    rfl
  have hreadable : (read U endpoint).PortReadable ↔
      IsDigits (password.takeWhile U.digit) ∧
        value (password.takeWhile U.digit) ≤ 2147483647 := by
    simp [PortReadable, hport]
  rw [quic_agrees_iff_read alpn h (by simp [hset, hne]), hportOr, hreadable,
    hset]
  constructor
  · rintro ⟨hdigits, heq, hsame⟩
    exact ⟨hne, hscheme, hcredentials, heq.symm, hdigits, hsame⟩
  · intro hrepeats
    exact ⟨hrepeats.readable, hrepeats.domain.symm, hrepeats.port⟩

/-- The white space around a QUIC endpoint decides what the banner shows. -/
theorem quic_agrees_iff (alpn : Text)
    (h : Quic.dialled U endpoint = .ok dialled) :
    lookedUp U (.quic endpoint alpn) = .ok (some dialled) ↔
      Flush U endpoint ∨
        ∃ user password, Repeats U endpoint user password := by
  by_cases hfront : leading endpoint = [] ∨
      (read U (trim endpoint)).scheme ≠ none
  · rw [quic_agrees_of_front alpn h hfront]
    constructor
    · exact fun hback => Or.inl ⟨hfront, hback⟩
    · rintro (hflush | ⟨user, password, hrepeats⟩)
      · exact hflush.back
      · rcases hfront with hnil | hsome
        · exact absurd hnil hrepeats.front
        · exact absurd hrepeats.scheme hsome
  · -- The untrimmed text has no scheme, and no credentials either.
    have hflush : ¬Flush U endpoint := fun hflush => hfront hflush.front
    obtain ⟨hne, hscheme⟩ := not_or.mp hfront
    rw [not_not] at hscheme
    rw [or_iff_right hflush]
    cases hcredentials : (read U (trim endpoint)).credentials with
    | none =>
        refine iff_of_false
          (quic_disagrees_of_bare alpn h hne hscheme hcredentials) ?_
        rintro ⟨user, password, hrepeats⟩
        rw [hrepeats.credentials] at hcredentials
        cases hcredentials
    | some up =>
        obtain ⟨user, password⟩ := up
        rw [quic_agrees_of_credentials alpn h hne hscheme hcredentials]
        constructor
        · exact fun hrepeats => ⟨user, password, hrepeats⟩
        · rintro ⟨user', password', hrepeats⟩
          have hsame := hrepeats.credentials
          rw [hcredentials] at hsame
          cases hsame
          exact hrepeats

end WhiteSpace

/-! ## All commands -/

/-- What the banner of a command needs to show what is dialled. -/
def Faithful (U : CharClasses) : Command → Prop
  | .tls target =>
      ':' ∉ target ∨ 0 < (read U target).portNumber ∨
        WrittenWith target "https".toList ∨ WrittenWith target "wss".toList
  | .quic endpoint _ =>
      Flush U endpoint ∨ ∃ user password, Repeats U endpoint user password
  | _ => True

/-- The banner looks up what is dialled exactly for the faithful commands. -/
theorem lookedUp_iff_faithful {command : Command} {p : Pinger}
    (hp : pingerOf command = some p) {endpoint : Text}
    (h : p.dialled U serverName (targetOf command) = .ok endpoint) :
    lookedUp U command = .ok (some endpoint) ↔ Faithful U command := by
  cases command with
  | tls target =>
      obtain rfl := Option.some.inj hp
      exact tls_agrees_iff h
  | quic target alpn =>
      obtain rfl := Option.some.inj hp
      exact quic_agrees_iff alpn h
  | tcp | udp | grpc => cases hp
  | http | ws | dns | hls | mqtt | ntp | stun | turn | rtsp | rtmp =>
      obtain rfl := Option.some.inj hp
      exact iff_of_true (agrees_of_ne rfl (by decide) (by decide) endpoint h)
        trivial

/-- `https://h` is looked up on port 443, as it is dialled. -/
theorem lookedUp_tls_https :
    lookedUp .ascii (.tls "https://h".toList) =
      .ok (some "h:443".toList) := by
  have hdialled : Pinger.dialled .ascii (fun _ => .ok ()) .tls
      (targetOf (.tls "https://h".toList)) = .ok "h:443".toList := by
    rw [Pinger.dialled, Tls.connect, targetOf,
      getUri_eq_ok_iff.mpr ⟨by decide, rfl⟩]
    decide
  have hscheme : WrittenWith "https://h".toList "https".toList :=
    (writtenWith_iff (by decide) (by decide)).mpr (by decide)
  exact (lookedUp_iff_faithful rfl hdialled).mpr
    (Or.inr (Or.inr (Or.inl hscheme)))

/-- `http://h` is looked up on port 80 and dialled on port 443. -/
theorem not_agrees_tls_http :
    ¬Agrees .ascii (fun _ => .ok ()) (.tls "http://h".toList) .tls := by
  intro h
  have hdialled : Pinger.dialled .ascii (fun _ => .ok ()) .tls
      (targetOf (.tls "http://h".toList)) = .ok "h:443".toList := by
    rw [Pinger.dialled, Tls.connect, targetOf,
      getUri_eq_ok_iff.mpr ⟨by decide, rfl⟩]
    decide
  have hlookup := lookupTarget_eq_ok
    (getUri_eq_ok_iff.mpr ⟨by decide, rfl⟩ :
      getUri .ascii "http://h".toList = .ok _)
    (by decide)
  have hsame := hlookup.symm.trans (h _ hdialled)
  revert hsame
  decide

end Cli

end KnockKnock
