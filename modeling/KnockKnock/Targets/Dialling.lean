import KnockKnock.Targets.Endpoints
import KnockKnock.Uri.Reading

/-!
# What the pingers dial

Every pinger refuses its target or dials the domain `get_uri` found in it, on
some port.  A property of all such endpoints is a property of everything the
pingers dial.
-/

namespace KnockKnock

open Outcome Reading

variable {U : CharClasses} {serverName : ServerNames} {P : Text → Prop}

/-! ## Refusals along the way -/

theorem endpointOr_refusedOr {uri : URI} {d : UInt16}
    (h : P (hostPort uri.domain (portOr uri d))) (missing : Text) :
    RefusedOr P (endpointOr missing uri d) := by
  unfold endpointOr
  split
  · simp
  · exact h

theorem connectPlain_refusedOr {endpoint : Outcome Text}
    (h : RefusedOr P endpoint) :
    RefusedOr (fun c => P c.endpoint) (connectPlain endpoint) :=
  h.bind fun _ ha => ha

theorem connectTls_refusedOr {uri : URI} {endpoint : Outcome Text}
    (h : RefusedOr P endpoint) :
    RefusedOr (fun c => P c.endpoint)
      (connectTls serverName uri endpoint) := by
  refine h.bind fun a ha => ?_
  split
  · exact ha
  · simp

theorem dispatchScheme_refusedOr {plainSchemes : List Text}
    {tlsScheme : Text} {unsupported : Text → Text}
    {plain tls : Outcome Connection} {uri : URI} {Q : Connection → Prop}
    (hplain : RefusedOr Q plain) (htls : RefusedOr Q tls) :
    RefusedOr Q
      (dispatchScheme plainSchemes tlsScheme unsupported plain tls uri) := by
  unfold dispatchScheme
  dsimp only
  split
  · exact hplain
  · split
    · exact htls
    · simp

theorem connect_bind_refusedOr {o : Outcome Connection}
    (h : RefusedOr (fun c => P c.endpoint) o) :
    RefusedOr P (do return (← o).endpoint) :=
  h.bind fun _ hc => hc

theorem getUri_bind_refusedOr {α : Type} {Q : α → Prop} {target : Text}
    {uri : URI} (huri : getUri U target = .ok uri) {f : URI → Outcome α}
    (hf : RefusedOr Q (f uri)) : RefusedOr Q (getUri U target >>= f) := by
  rw [huri, bind_ok]
  exact hf

/-! ## The pingers -/

/-- All pingers but QUIC build their endpoint from the parsed target. -/
theorem dialled_refusedOr {target : Text} {uri : URI}
    (huri : getUri U target = .ok uri)
    (hport : ∀ d, P (hostPort uri.domain (portOr uri d)))
    {p : Pinger} (hp : p ≠ .quic) :
    RefusedOr P (p.dialled U serverName target) := by
  have hor := fun m d => endpointOr_refusedOr (hport d) m
  have hpure : ∀ d, RefusedOr P
      (pure (hostPort uri.domain (portOr uri d))) := hport
  cases p with
  | http | websocket | mqtt | hls =>
      exact connect_bind_refusedOr <| getUri_bind_refusedOr huri <|
        dispatchScheme_refusedOr (connectPlain_refusedOr (hor _ _))
          (connectTls_refusedOr (hor _ _))
  | rtsp | rtmp =>
      refine connect_bind_refusedOr (getUri_bind_refusedOr huri ?_)
      split
      · simp
      · exact dispatchScheme_refusedOr (connectPlain_refusedOr (hpure _))
          (connectTls_refusedOr (hpure _))
  | tls =>
      exact connect_bind_refusedOr <| getUri_bind_refusedOr huri <|
        connectTls_refusedOr (hor _ _)
  | dns | ntp | stun | turn => exact getUri_bind_refusedOr huri (hor _ _)
  | quic => exact absurd rfl hp

/-- QUIC builds its endpoint from the trimmed target. -/
theorem quic_dialled_refusedOr {target : Text} {uri : URI}
    (huri : getUri U (Str.trim target) = .ok uri)
    (hport : ∀ d, P (hostPort uri.domain (portOr uri d))) :
    RefusedOr P (Quic.dialled U target) := by
  unfold Quic.dialled Quic.parseEndpoint
  generalize Str.trim target = trimmed at huri
  dsimp only
  split
  · trivial
  rw [huri, bind_ok]
  split
  · split
    · trivial
    · exact hport 443
  · trivial

end KnockKnock
