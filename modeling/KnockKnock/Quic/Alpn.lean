import KnockKnock.Cli.Statistics
import KnockKnock.Support.Utf8

/-!
# The protocols a QUIC pinger offers

Both front ends split their `alpn` argument at the commas, leave empty names
out and hand what remains to `with_alpn`, unless nothing remains.  Splitting
undoes joining for every list of names, also for the empty one; but then the
pinger keeps the list it was made with, and that is not empty.
-/

namespace KnockKnock

/-- rustls's `ClientConfig`, with `Rest` for what it holds besides the list of
protocols.  An ALPN extension is sent unless the list is empty. -/
structure ClientConfig (Rest : Type) where
  alpnProtocols : List Bytes
  rest : Rest

structure QuicPinger (Rest : Type) where
  endpoint : Text
  timeout : Duration
  alpn : List Bytes
  tlsConfig : Option (ClientConfig Rest)

variable {E F Rest : Type}

namespace QuicPinger

theorem fiveSeconds_lt : 5 * 10 ^ 9 < 2 ^ 64 * 10 ^ 9 := by decide

/-- `DEFAULT_TIMEOUT` -/
def defaultTimeout : Duration := ⟨5 * 10 ^ 9, fiveSeconds_lt⟩

/-- `DEFAULT_ALPN` -/
def defaultAlpn : Bytes := Utf8.encode "h3".toList

def new (endpoint : Text) : QuicPinger Rest where
  endpoint := endpoint
  timeout := defaultTimeout
  alpn := [defaultAlpn]
  tlsConfig := none

def withTimeout (p : QuicPinger Rest) (t : Duration) : QuicPinger Rest :=
  { p with timeout := t }

def withAlpn (p : QuicPinger Rest) (alpn : List Bytes) : QuicPinger Rest :=
  { p with alpn := alpn }

/-- `build_rustls_config`, where `defaultQuicConfig` is what
`default_quic_config()` returns. -/
def buildRustlsConfig (defaultQuicConfig : Outcome (ClientConfig Rest))
    (inject : Option (ClientConfig Rest)) (alpn : List Bytes) :
    Outcome (ClientConfig Rest) := do
  let base :=
    match inject with
    | some c => pure c
    | none => defaultQuicConfig
  let config ← base
  pure { config with alpnProtocols := alpn }

/-- `s.split(',').filter(|p| !p.is_empty()).map(|p| p.as_bytes().to_vec())` -/
def splitAlpns (s : Text) : List Bytes :=
  ((s.splitOn ',').filter fun p => !p.isEmpty).map Utf8.encode

/-- `if !alpns.is_empty() { p = p.with_alpn(alpns) }` -/
def withAlpns (p : QuicPinger Rest) (alpns : List Bytes) : QuicPinger Rest :=
  if alpns.isEmpty then p else p.withAlpn alpns

end QuicPinger

open QuicPinger

namespace Mcp

structure QuicPingArgs where
  target : Text
  alpn : Option Text
  count : Option U64
  timeoutMs : Option U64

/-- The pinger of `quic_ping`. -/
def quicPinger (args : QuicPingArgs) : QuicPinger Rest :=
  let alpns :=
    match args.alpn with
    | some s => splitAlpns s
    | none => [defaultAlpn]
  ((new args.target).withTimeout (timeoutOrDefault args.timeoutMs)).withAlpns
    alpns

/-- The report of `quic_ping`, when the pings of a pinger come back with
`timed`. -/
def quicPing (conv : Conversions E F)
    (timed : QuicPinger Rest → U64 → Pings E) (args : QuicPingArgs) :
    Outcome (PingReport F) :=
  let count := countOrDefault args.count
  runPings conv count (timed (quicPinger args) count)

end Mcp

namespace Cli

/-- `default_value` of the `--alpn` argument. -/
def alpnOrDefault (alpn : Option Text) : Text := alpn.getD "h3".toList

/-- `build_pinger` for `Command::Quic`. -/
def quicPinger (endpoint alpn : Text) : QuicPinger Rest :=
  (new endpoint).withAlpns (splitAlpns alpn)

end Cli

namespace QuicPinger

/-! ## Splitting what was joined -/

variable {names : List Text}

/-- The names of a list a caller can join by commas. -/
def Joinable (names : List Text) : Prop :=
  ∀ name ∈ names, name ≠ [] ∧ ',' ∉ name

/-- The names joined by commas. -/
def joined (names : List Text) : Text := [','].intercalate names

theorem splitAlpns_joined (h : Joinable names) :
    splitAlpns (joined names) = names.map Utf8.encode := by
  unfold splitAlpns joined
  congr 1
  by_cases hnil : names = []
  · subst hnil
    rfl
  · rw [List.splitOn_intercalate ',' (fun name hname => (h name hname).2) hnil,
      List.filter_eq_self]
    intro name hname
    simpa using (h name hname).1

/-! ## What the pingers offer -/

/-- The pinger's list holds just these names, in order, and so does the list
in every configuration the pinger connects with. -/
structure Offers (names : List Text) (p : QuicPinger Rest) : Prop where
  alpn : p.alpn = names.map Utf8.encode
  config : ∀ defaultQuicConfig config,
    buildRustlsConfig defaultQuicConfig p.tlsConfig p.alpn = .ok config →
      config.alpnProtocols = names.map Utf8.encode

/-- A configuration takes its list from the pinger. -/
theorem alpnProtocols_buildRustlsConfig
    {defaultQuicConfig : Outcome (ClientConfig Rest)}
    {inject : Option (ClientConfig Rest)} {alpn : List Bytes}
    {config : ClientConfig Rest}
    (h : buildRustlsConfig defaultQuicConfig inject alpn = .ok config) :
    config.alpnProtocols = alpn := by
  obtain ⟨base, -, hset⟩ := Outcome.bind_eq_ok_iff.mp h
  rw [← Except.ok.inj hset]

theorem offers_iff {p : QuicPinger Rest} :
    Offers names p ↔ p.alpn = names.map Utf8.encode := by
  constructor
  · intro h
    exact h.alpn
  · intro h
    refine ⟨h, fun defaultQuicConfig config hconfig => ?_⟩
    rw [alpnProtocols_buildRustlsConfig hconfig, h]

/-- A pinger takes the names over unless there are none, and then it offers
what it did before. -/
theorem offers_withAlpns_iff {p : QuicPinger Rest} (hp : p.alpn ≠ []) :
    Offers names (p.withAlpns (names.map Utf8.encode)) ↔ names ≠ [] := by
  rw [offers_iff]
  unfold withAlpns
  by_cases hnil : names = []
  · subst hnil
    exact iff_of_false hp fun h => h rfl
  · rw [if_neg (by simpa using hnil)]
    exact iff_of_true rfl hnil

theorem alpn_withAlpns {p q : QuicPinger Rest} (h : p.alpn = q.alpn)
    (alpns : List Bytes) :
    (p.withAlpns alpns).alpn = (q.withAlpns alpns).alpn := by
  unfold withAlpns
  split
  · exact h
  · rfl

/-- Without an argument both front ends offer the default protocol. -/
theorem alpn_quicPinger (args : Mcp.QuicPingArgs) (endpoint : Text) :
    (Mcp.quicPinger args : QuicPinger Rest).alpn =
      (Cli.quicPinger endpoint (Cli.alpnOrDefault args.alpn) :
        QuicPinger Rest).alpn := by
  have hnew : ((new args.target).withTimeout
      (Mcp.timeoutOrDefault args.timeoutMs) : QuicPinger Rest).alpn =
        (new endpoint : QuicPinger Rest).alpn := rfl
  unfold Mcp.quicPinger Cli.quicPinger Cli.alpnOrDefault
  cases args.alpn with
  | some alpn => exact alpn_withAlpns hnew (splitAlpns alpn)
  | none =>
      have hdefault : splitAlpns "h3".toList = [defaultAlpn] := by decide
      rw [Option.getD_none, hdefault]
      exact alpn_withAlpns hnew [defaultAlpn]

/-- Both front ends make one list of an argument, and that is the list of the
names that were joined unless there were none. -/
theorem quicPinger_offers_iff (Rest : Type) (h : Joinable names) :
    (∀ args : Mcp.QuicPingArgs, args.alpn = some (joined names) →
        (Offers names (Mcp.quicPinger args : QuicPinger Rest) ↔
          names ≠ [])) ∧
      (∀ endpoint : Text,
        Offers names (Cli.quicPinger endpoint (joined names) :
          QuicPinger Rest) ↔ names ≠ []) ∧
      ∀ (args : Mcp.QuicPingArgs) (endpoint : Text),
        (Mcp.quicPinger args : QuicPinger Rest).alpn =
          (Cli.quicPinger endpoint (Cli.alpnOrDefault args.alpn) :
            QuicPinger Rest).alpn := by
  have hsplit := splitAlpns_joined h
  have hnew : ∀ endpoint : Text,
      (new endpoint : QuicPinger Rest).alpn ≠ [] := fun _ =>
    List.cons_ne_nil _ _
  refine ⟨?_, ?_, alpn_quicPinger⟩
  · intro args hargs
    unfold Mcp.quicPinger
    rw [hargs]
    dsimp only
    rw [hsplit]
    exact offers_withAlpns_iff (hnew args.target)
  · intro endpoint
    unfold Cli.quicPinger
    rw [hsplit]
    exact offers_withAlpns_iff (hnew endpoint)

/-- Two names, of which the second is not the default. -/
theorem quicPinger_offers_two :
    Joinable ["h3".toList, "hq-29".toList] ∧
      Offers ["h3".toList, "hq-29".toList]
        (Cli.quicPinger "example.com".toList "h3,hq-29".toList :
          QuicPinger Unit) := by
  have hnames : Joinable ["h3".toList, "hq-29".toList] := by
    unfold Joinable
    decide
  exact ⟨hnames, ((quicPinger_offers_iff Unit hnames).2.1 _).mpr
    (List.cons_ne_nil _ _)⟩

/-- An empty argument leaves the default protocol in place. -/
theorem not_offers_empty :
    Joinable [] ∧ joined [] = [] ∧
      (Mcp.quicPinger ⟨"example.com".toList, some [], none, none⟩ :
        QuicPinger Unit).alpn = [Utf8.encode "h3".toList] ∧
      ¬Offers [] (Mcp.quicPinger
        ⟨"example.com".toList, some [], none, none⟩ : QuicPinger Unit) ∧
      ¬Offers [] (Cli.quicPinger "example.com".toList [] :
        QuicPinger Unit) := by
  refine ⟨nofun, rfl, by decide, ?_, ?_⟩
  · intro h
    exact absurd h.alpn (by decide)
  · intro h
    exact absurd h.alpn (by decide)

end QuicPinger

end KnockKnock
