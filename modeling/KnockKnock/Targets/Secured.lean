import KnockKnock.Targets.Endpoints
import KnockKnock.Uri.Reading

/-!
# Which targets are dialled over TLS

Six pingers choose between a plain connection and one wrapped in TLS by the
scheme of the target.  The pattern's greedy scheme group ends at the `:` in
front of the first `/`, `?` or `#`, so the choice follows the text that stands
there, and a target that names TLS is never sent in plaintext.
-/

namespace KnockKnock

open Outcome Reading Spans

variable {U : CharClasses} {serverName : ServerNames}

/-! ## Schemes as text -/

/-- The text before the first `/`, `?` or `#` is `scheme` and a `:`, and `//`
stands right behind it. -/
def HasScheme (target scheme : Text) : Prop :=
  scheme ≠ [] ∧ target.takeWhile schemeChar = scheme ++ [':'] ∧
    ['/', '/'] <+: target.dropWhile schemeChar

/-- The pattern's scheme group captures that text. -/
theorem hasScheme_iff {target scheme : Text} :
    HasScheme target scheme ↔ (scanScheme target).1 = some scheme := by
  constructor
  · rintro ⟨hne, htake, rest, hdrop⟩
    have hchars : ∀ c ∈ scheme, schemeChar c = true := by
      intro c hc
      have hmem : c ∈ target.takeWhile schemeChar := by
        rw [htake]
        exact List.mem_append_left _ hc
      exact List.mem_takeWhile_imp hmem
    have hscan : scanScheme target = (some scheme, rest) := by
      refine scanScheme_eq_some_iff.mpr ⟨?_, hne, hchars⟩
      rw [← List.takeWhile_append_dropWhile (p := schemeChar) (l := target),
        htake, ← hdrop]
      simp
    rw [hscan]
  · intro h
    obtain ⟨htarget, hne, hchars⟩ := scanScheme_eq_some_iff.mp
      (Prod.ext h rfl : scanScheme target = (some scheme, _))
    have hspan : IsSpan schemeChar target (scheme ++ [':'])
        ('/' :: '/' :: (scanScheme target).2) := by
      refine ⟨by rw [List.append_assoc]; exact htarget, ?_, by simp [schemeChar]⟩
      intro c hc
      rcases List.mem_append.mp hc with hc | hc
      · exact hchars c hc
      · rw [List.mem_singleton.mp hc]
        decide
    refine ⟨hne, hspan.takeWhile_eq, ?_⟩
    rw [hspan.dropWhile_eq]
    exact ⟨_, rfl⟩

/-- The target is written with this scheme, in any letter case. -/
def WrittenWith (target scheme : Text) : Prop :=
  ∃ s, HasScheme target s ∧ Str.eqIgnoreAsciiCase s scheme = true

theorem writtenWith_iff {target scheme : Text} (hne : scheme ≠ [])
    (hlower : Str.toAsciiLowercase scheme = scheme) :
    WrittenWith target scheme ↔
      Str.toAsciiLowercase ((scanScheme target).1.getD []) = scheme := by
  simp only [WrittenWith, hasScheme_iff, Str.eqIgnoreAsciiCase, beq_iff_eq,
    hlower]
  constructor
  · rintro ⟨s, hs, heq⟩
    rw [hs]
    exact heq
  · intro h
    cases hs : (scanScheme target).1 with
    | none =>
        rw [hs] at h
        exact absurd h.symm hne
    | some s =>
        rw [hs] at h
        exact ⟨s, rfl, h⟩

/-! ## The pingers -/

/-- The pingers that dispatch on the scheme. -/
inductive SchemePinger where
  | http
  | hls
  | mqtt
  | rtsp
  | rtmp
  | websocket
deriving DecidableEq, Repr

namespace SchemePinger

def connect (U : CharClasses) (serverName : ServerNames) :
    SchemePinger → Text → Outcome Connection
  | http, target => Http.connect U serverName target
  | hls, url => Hls.connect U serverName url
  | mqtt, server => Mqtt.connect U serverName server
  | rtsp, target => Rtsp.connect U serverName target
  | rtmp, target => Rtmp.connect U serverName target
  | websocket, target => Websocket.connect U serverName target

def plainScheme : SchemePinger → Text
  | http | hls => "http".toList
  | mqtt => "mqtt".toList
  | rtsp => "rtsp".toList
  | rtmp => "rtmp".toList
  | websocket => "ws".toList

def tlsScheme : SchemePinger → Text
  | http | hls => "https".toList
  | mqtt => "mqtts".toList
  | rtsp => "rtsps".toList
  | rtmp => "rtmps".toList
  | websocket => "wss".toList

end SchemePinger

/-! ## The dispatch -/

theorem tls_of_connectPlain {endpoint : Outcome Text} {c : Connection}
    (h : connectPlain endpoint = .ok c) : c.tls = none := by
  obtain ⟨e, -, hc⟩ := bind_eq_ok_iff.mp h
  rw [← Except.ok.inj hc]

theorem tls_of_connectTls {uri : URI} {endpoint : Outcome Text}
    {c : Connection} (h : connectTls serverName uri endpoint = .ok c) :
    c.tls ≠ none := by
  obtain ⟨e, -, hc⟩ := bind_eq_ok_iff.mp h
  split at hc
  · rw [← Except.ok.inj hc]
    simp
  · cases hc

/-- A connection comes from the branch of its scheme. -/
theorem dispatchScheme_eq_ok {plainSchemes : List Text} {tlsScheme : Text}
    {unsupported : Text → Text} {plain tls : Outcome Connection} {uri : URI}
    {c : Connection}
    (h : dispatchScheme plainSchemes tlsScheme unsupported plain tls uri =
      .ok c) :
    (Str.toAsciiLowercase uri.scheme ∈ plainSchemes ∧ plain = .ok c) ∨
      (Str.toAsciiLowercase uri.scheme = tlsScheme ∧ tls = .ok c) := by
  unfold dispatchScheme at h
  dsimp only at h
  split at h
  next hplain => exact Or.inl ⟨hplain, h⟩
  next =>
    split at h
    next htls => exact Or.inr ⟨htls, h⟩
    · cases h

/-- Every connection is one of the two branches, chosen by the scheme the
pattern captured. -/
theorem SchemePinger.connect_eq_ok (p : SchemePinger) {target : Text}
    {c : Connection} (h : p.connect U serverName target = .ok c) :
    (Str.toAsciiLowercase ((scanScheme target).1.getD []) ∈
        [[], p.plainScheme] ∧ c.tls = none) ∨
      (Str.toAsciiLowercase ((scanScheme target).1.getD []) = p.tlsScheme ∧
        c.tls ≠ none) := by
  have hbranch : ∀ {plainSchemes unsupported endpoint endpoint'} {uri : URI},
      plainSchemes ⊆ [[], p.plainScheme] →
      dispatchScheme plainSchemes p.tlsScheme unsupported
        (connectPlain endpoint) (connectTls serverName uri endpoint') uri =
          .ok c →
      (Str.toAsciiLowercase uri.scheme ∈ [[], p.plainScheme] ∧ c.tls = none) ∨
        (Str.toAsciiLowercase uri.scheme = p.tlsScheme ∧ c.tls ≠ none) := by
    intro plainSchemes unsupported endpoint endpoint' uri hsub hdispatch
    rcases dispatchScheme_eq_ok hdispatch with ⟨hmem, hc⟩ | ⟨htls, hc⟩
    · exact Or.inl ⟨hsub hmem, tls_of_connectPlain hc⟩
    · exact Or.inr ⟨htls, tls_of_connectTls hc⟩
  cases p with
  | http | hls | mqtt =>
      obtain ⟨uri, huri, hdispatch⟩ := bind_eq_ok_iff.mp h
      obtain ⟨-, rfl⟩ := getUri_eq_ok_iff.mp huri
      exact hbranch (fun _ hmem => hmem) hdispatch
  | websocket =>
      obtain ⟨uri, huri, hdispatch⟩ := bind_eq_ok_iff.mp h
      obtain ⟨-, rfl⟩ := getUri_eq_ok_iff.mp huri
      exact hbranch (fun _ hmem => List.mem_cons_of_mem _ hmem) hdispatch
  | rtsp | rtmp =>
      obtain ⟨uri, huri, hchecked⟩ := bind_eq_ok_iff.mp h
      obtain ⟨-, rfl⟩ := getUri_eq_ok_iff.mp huri
      split at hchecked
      · cases hchecked
      · exact hbranch (fun _ hmem => hmem) hchecked

theorem toAsciiLowercase_tlsScheme (p : SchemePinger) :
    Str.toAsciiLowercase p.tlsScheme = p.tlsScheme := by
  cases p <;> decide

theorem toAsciiLowercase_plainScheme (p : SchemePinger) :
    Str.toAsciiLowercase p.plainScheme = p.plainScheme := by
  cases p <;> decide

theorem tlsScheme_ne (p : SchemePinger) :
    p.tlsScheme ∉ [[], p.plainScheme] := by
  cases p <;> decide

theorem writtenWith_tlsScheme_iff (p : SchemePinger) {target : Text} :
    WrittenWith target p.tlsScheme ↔
      Str.toAsciiLowercase ((scanScheme target).1.getD []) = p.tlsScheme := by
  have hne : p.tlsScheme ≠ [] := by
    cases p <;> decide
  exact writtenWith_iff hne (toAsciiLowercase_tlsScheme p)

/-- Over TLS exactly the targets that are written with the TLS scheme, and
nowhere those with a scheme the pinger does not speak. -/
structure SecuredByScheme (U : CharClasses) (serverName : ServerNames)
    (p : SchemePinger) (target : Text) : Prop where
  secured : ∀ c, p.connect U serverName target = .ok c →
    (c.tls ≠ none ↔ WrittenWith target p.tlsScheme)
  unsupported : ∀ scheme, HasScheme target scheme →
    Str.eqIgnoreAsciiCase scheme p.plainScheme = false →
    Str.eqIgnoreAsciiCase scheme p.tlsScheme = false →
    ∀ c, p.connect U serverName target ≠ .ok c

/-- The choice between plaintext and TLS follows the written scheme. -/
theorem securedByScheme (U : CharClasses) (serverName : ServerNames)
    (p : SchemePinger) (target : Text) :
    SecuredByScheme U serverName p target where
  secured := by
    intro c hc
    rw [writtenWith_tlsScheme_iff]
    rcases p.connect_eq_ok hc with ⟨hplain, htls⟩ | ⟨hscheme, htls⟩
    · refine iff_of_false (not_not_intro htls) ?_
      intro heq
      rw [heq] at hplain
      exact tlsScheme_ne p hplain
    · exact iff_of_true htls hscheme
  unsupported := by
    intro scheme hscheme hplain htls c hc
    have hne : Str.toAsciiLowercase scheme ≠ [] := by
      simp [Str.toAsciiLowercase, hscheme.1]
    simp only [Str.eqIgnoreAsciiCase, beq_eq_false_iff_ne,
      toAsciiLowercase_plainScheme, toAsciiLowercase_tlsScheme] at hplain htls
    have hconnect := p.connect_eq_ok hc
    rw [hasScheme_iff.mp hscheme, Option.getD_some] at hconnect
    rcases hconnect with ⟨hmem, -⟩ | ⟨heq, -⟩
    · simp [hne, hplain] at hmem
    · exact htls heq

end KnockKnock
