import KnockKnock.Targets.Banner
import KnockKnock.Targets.Dialling
import KnockKnock.Uri.Scanning

/-!
# Which explicit ports survive

The port field holds an `i32` and an endpoint names a `u16`; every builder
converts between them with `as`, which keeps the low 16 bits.  An explicit
port therefore reaches an endpoint unchanged exactly when it is at most 65535.
QUIC trims its endpoint first, and has to find the same port in the trimmed
text.
-/

namespace KnockKnock

open Numeral Outcome Reading

variable {U : CharClasses} {serverName : ServerNames} {n : ℕ}

/-! ## Endpoints that name a port -/

/-- The endpoint is a host and the port `n`. -/
def NamesPort (n : ℕ) (endpoint : Text) : Prop :=
  ∃ host, ':' ∉ host ∧ endpoint = host ++ ':' :: decimal n

theorem not_mem_colon_domain {url : Text} : ':' ∉ (read U url).domain := by
  intro hc
  exact absurd (domainChar_of_mem_domain ':' hc) (by decide)

theorem namesPort_hostPort_iff {domain : Text} (hdomain : ':' ∉ domain)
    {port : UInt16} :
    NamesPort n (hostPort domain port) ↔ port.toNat = n := by
  constructor
  · rintro ⟨host, hhost, heq⟩
    obtain ⟨-, hport⟩ := Spans.split_unique hdomain hhost heq
    exact decimal_injective hport
  · rintro rfl
    exact ⟨domain, hdomain, rfl⟩

/-- The conversion keeps the low 16 bits. -/
theorem portOr_toNat {uri : URI} (hport : uri.port = n) (d : UInt16) :
    (portOr uri d).toNat = if n = 0 then d.toNat else n % 65536 := by
  unfold portOr
  rw [hport]
  by_cases hn : n = 0
  · simp [hn]
  · have hpos : (0 : ℤ) < n := by omega
    rw [if_pos hpos, if_neg hn]
    simp only [UInt16.ofInt, UInt16.toNat_ofNat']
    omega

theorem domain_eq_nil_iff {url : Text} :
    (read U url).toURI.domain = [] ↔ (read U url).host = none := by
  unfold toURI Reading.domain
  cases h : (read U url).host with
  | none => simp
  | some host =>
      obtain ⟨domain, port⟩ := host
      simpa using (scanHost_domain h).1

/-! ## All builders -/

/-- The builders that are handed the parsed target. -/
def endpointBuilders : List (URI → UInt16 → Outcome Text) :=
  [Http.endpointFor, Websocket.endpointFor, Mqtt.endpointFor,
    Hls.endpointFor, Rtsp.endpointFor, Rtmp.endpointFor]

/-- The builders differ in what they say about a missing host, if they look for
it at all. -/
theorem forall_endpointBuilders {P : Outcome Text → Prop} {uri : URI}
    {d : UInt16} (hor : ∀ missing, P (endpointOr missing uri d))
    (hpure : P (pure (hostPort uri.domain (portOr uri d)))) :
    ∀ build ∈ endpointBuilders, P (build uri d) := by
  intro build hbuild
  simp only [endpointBuilders, List.mem_cons, List.not_mem_nil, or_false]
    at hbuild
  rcases hbuild with rfl | rfl | rfl | rfl | rfl | rfl
  · exact hor _
  · exact hor _
  · exact hor _
  · exact hor _
  · exact hpure
  · exact hpure

/-- Every endpoint made for `target` is refused or names port `n`. -/
structure KeepsPort (U : CharClasses) (target : Text) (uri : URI) (n : ℕ) :
    Prop where
  endpointFor : ∀ build ∈ endpointBuilders, ∀ d,
    RefusedOr (NamesPort n) (build uri d)
  portOr : ∀ d, (Rtsp.portOr uri d).toNat = n
  stun : ∀ d, RefusedOr (NamesPort n) (Stun.serverEndpoint U target d)
  dialled : ∀ (serverName : ServerNames) (p : Pinger),
    RefusedOr (NamesPort n) (p.dialled U serverName target)
  resolve : ∃ lookedUp, lookupTarget U target = .ok lookedUp ∧
    ∀ endpoint ∈ lookedUp, NamesPort n endpoint

/-! ## QUIC -/

/-- The schemes QUIC accepts. -/
def Quic.Speaks (scheme : Text) : Prop :=
  Str.toAsciiLowercase scheme ∈
    [[], "quic".toList, "https".toList, "h3".toList]

/-- QUIC refuses or names port `n`, by what it reads in the trimmed text. -/
theorem quic_refusedOr_iff {target : Text} :
    RefusedOr (NamesPort n) (Quic.dialled U target) ↔
      (read U (Str.trim target)).PortReadable ∧
        ((read U (Str.trim target)).host = none ∨
          ¬Quic.Speaks (read U (Str.trim target)).toURI.scheme ∨
          (portOr (read U (Str.trim target)).toURI 443).toNat = n) := by
  unfold Quic.dialled Quic.parseEndpoint
  generalize Str.trim target = trimmed
  dsimp only
  by_cases hnil : trimmed = []
  · subst hnil
    rw [if_pos rfl]
    have hhost : (Reading.read U []).host = none := rfl
    have hport : (Reading.read U []).PortReadable := by
      simp [PortReadable, Reading.port, hhost]
    exact iff_of_true trivial ⟨hport, Or.inl hhost⟩
  rw [if_neg hnil]
  by_cases hread : (read U trimmed).PortReadable
  · rw [getUri_eq_ok_iff.mpr ⟨hread, rfl⟩, bind_ok]
    by_cases hspeaks : Quic.Speaks (read U trimmed).toURI.scheme
    · rw [Quic.Speaks] at hspeaks
      rw [if_pos hspeaks]
      by_cases hhost : (read U trimmed).host = none
      · rw [if_pos (domain_eq_nil_iff.mpr hhost)]
        exact iff_of_true trivial ⟨hread, Or.inl hhost⟩
      · rw [if_neg (mt domain_eq_nil_iff.mp hhost)]
        have hnames : NamesPort n (hostPort (read U trimmed).domain
            (portOr (read U trimmed).toURI 443)) ↔
              (portOr (read U trimmed).toURI 443).toNat = n :=
          namesPort_hostPort_iff not_mem_colon_domain
        constructor
        · intro h
          exact ⟨hread, Or.inr (Or.inr (hnames.mp h))⟩
        · rintro ⟨-, hnone | hnot | hport⟩
          · exact absurd hnone hhost
          · exact absurd hspeaks hnot
          · exact hnames.mpr hport
    · rw [Quic.Speaks] at hspeaks
      rw [if_neg hspeaks]
      exact iff_of_true trivial ⟨hread, Or.inr (Or.inl hspeaks)⟩
  · rw [getUri_eq_panic hread]
    exact iff_of_false id fun h => hread h.1

/-- Trimming leaves the credentials as they were read, takes the host away, or
uncovers credentials with the same port behind them. -/
def QuicAgrees (U : CharClasses) (target : Text) (n : ℕ) : Prop :=
  (read U (Str.trim target)).credentials = (read U target).credentials ∨
    (read U (Str.trim target)).host = none ∨
    (read U (Str.trim target)).PortReadable ∧
      (if (read U (Str.trim target)).portNumber = 0 then 443
        else (read U (Str.trim target)).portNumber % 65536) = n

theorem quicAgrees_iff {target port : Text}
    (hport : (read U target).port = some port)
    (hreadable : (read U target).PortReadable) (hvalue : value port = n)
    (hn : 1 ≤ n) (hle : n ≤ 65535) :
    RefusedOr (NamesPort n) (Quic.dialled U target) ↔
      QuicAgrees U target n := by
  obtain ⟨hsame, hhidden⟩ := read_trim hport
  rw [quic_refusedOr_iff]
  unfold QuicAgrees
  have hnumber : (portOr (read U (Str.trim target)).toURI 443).toNat =
      if (read U (Str.trim target)).portNumber = 0 then 443
      else (read U (Str.trim target)).portNumber % 65536 :=
    portOr_toNat rfl 443
  rw [hnumber]
  generalize read U (Str.trim target) = r at *
  constructor
  · rintro ⟨hread, hnone | hnot | hnumber⟩
    · exact Or.inr (Or.inl hnone)
    · left
      by_contra hne
      apply hnot
      simp [Quic.Speaks, toURI, hhidden hne, Str.toAsciiLowercase]
    · exact Or.inr (Or.inr ⟨hread, hnumber⟩)
  · have hread_none : r.host = none → r.PortReadable := by
      intro hnone
      simp [PortReadable, Reading.port, hnone]
    rintro (heq | hnone | ⟨hread, hnumber⟩)
    · rcases hsame heq with hnone | hsome
      · exact ⟨hread_none hnone, Or.inl hnone⟩
      · have hread : r.PortReadable := by
          intro text htext
          rw [hsome, ← hport] at htext
          exact hreadable text htext
        refine ⟨hread, Or.inr (Or.inr ?_)⟩
        simp only [portNumber, hsome, Option.map_some, Option.getD_some,
          hvalue]
        rw [if_neg (by omega)]
        omega
    · exact ⟨hread_none hnone, Or.inl hnone⟩
    · exact ⟨hread, Or.inr (Or.inr hnumber)⟩

/-! ## Every endpoint -/

/-- The banner converts an explicit port like the builders do. -/
theorem lookupTarget_names {target : Text} {uri : URI} {P : Text → Prop}
    (huri : getUri U target = .ok uri) (hpos : 0 < uri.port) {d : UInt16}
    (h : P (hostPort uri.domain (portOr uri d))) :
    ∃ lookedUp, lookupTarget U target = .ok lookedUp ∧
      ∀ endpoint ∈ lookedUp, P endpoint := by
  rw [portOr, if_pos hpos] at h
  unfold lookupTarget
  rw [huri, bind_ok]
  by_cases hdomain : uri.domain = []
  · rw [if_pos hdomain]
    exact ⟨none, rfl, by simp⟩
  · rw [if_neg hdomain]
    dsimp only
    rw [if_pos hpos]
    refine ⟨_, rfl, ?_⟩
    rintro endpoint ⟨⟩
    exact h

/-- An explicit port reaches every endpoint unchanged exactly when it fits a
`u16` and QUIC finds it too. -/
theorem keepsPort_iff {target : Text} {uri : URI}
    (huri : getUri U target = .ok uri) (hport : uri.port = n) (hn : 1 ≤ n) :
    KeepsPort U target uri n ↔ n ≤ 65535 ∧ QuicAgrees U target n := by
  obtain ⟨hreadable, huri'⟩ := getUri_eq_ok_iff.mp huri
  have hnumber : (read U target).portNumber = n := by
    have hset : uri.port = (read U target).portNumber := by rw [huri']; rfl
    omega
  obtain ⟨port, hsome⟩ : ∃ port, (read U target).port = some port := by
    by_contra hnone
    have hnone : (read U target).port = none := by
      simpa [← Option.ne_none_iff_exists'] using hnone
    simp [portNumber, hnone] at hnumber
    omega
  have hvalue : value port = n := by
    simpa [portNumber, hsome] using hnumber
  have hquic := quicAgrees_iff hsome hreadable hvalue hn
  have htoNat : ∀ d, (portOr uri d).toNat = n % 65536 := by
    intro d
    rw [portOr_toNat hport, if_neg (by omega)]
  constructor
  · intro h
    have hle : n ≤ 65535 := by
      have hkept := (htoNat 0).symm.trans (h.portOr 0)
      omega
    exact ⟨hle, (hquic hle).mp (h.dialled (fun _ => .ok ()) .quic)⟩
  · rintro ⟨hle, hagrees⟩
    have hkept : ∀ d, (portOr uri d).toNat = n := by
      intro d
      rw [htoNat d]
      omega
    have hdomain : ':' ∉ uri.domain := by
      rw [huri']
      exact not_mem_colon_domain
    have hnames : ∀ d, NamesPort n (hostPort uri.domain (portOr uri d)) :=
      fun d => (namesPort_hostPort_iff hdomain).mpr (hkept d)
    refine
      { endpointFor := ?_
        portOr := hkept
        stun := fun d =>
          getUri_bind_refusedOr huri (endpointOr_refusedOr (hnames d) _)
        dialled := ?_
        resolve := ?_ }
    · intro build hbuild d
      have hor := fun m => endpointOr_refusedOr (hnames d) m
      have hpure : RefusedOr (NamesPort n)
          (pure (hostPort uri.domain (portOr uri d))) := hnames d
      exact forall_endpointBuilders hor hpure build hbuild
    · intro serverName p
      by_cases hp : p = .quic
      · rw [hp]
        exact (hquic hle).mpr hagrees
      · exact dialled_refusedOr huri hnames hp
    · exact lookupTarget_names huri (by omega) (hnames 0)

/-- A target on port 8080 keeps it everywhere. -/
theorem keepsPort_8080 :
    KeepsPort CharClasses.ascii "http://example.com:8080/".toList
      (read CharClasses.ascii "http://example.com:8080/".toList).toURI
      8080 :=
  (keepsPort_iff (getUri_eq_ok_iff.mpr ⟨by decide, rfl⟩) (by decide)
    (by decide)).mpr ⟨by decide, Or.inl (by decide)⟩

/-- Port 65616 is dialled as port 80. -/
theorem not_keepsPort_65616 :
    ∃ uri, getUri CharClasses.ascii "http://example.com:65616/".toList =
        .ok uri ∧ uri.port = 65616 ∧
      ¬KeepsPort CharClasses.ascii "http://example.com:65616/".toList uri
        65616 := by
  refine ⟨_, getUri_eq_ok_iff.mpr ⟨by decide, rfl⟩, by decide, fun h => ?_⟩
  have hkept := h.portOr 0
  revert hkept
  decide

end KnockKnock
