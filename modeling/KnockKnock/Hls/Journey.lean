import KnockKnock.Hls.Ping
import Mathlib.Data.List.Chain

/-!
# The fetches of an HLS ping

Whatever a server answers, and also where the ping fails, each fetch is one
that the text answering the fetch in front of it has named, there are at most
two playlists and a byte, and the verdict is the answer to the fetch of the
byte.
-/

namespace KnockKnock

open Inquiry

namespace Hls

/-- What a ping goes on with after a playlist: the first variant, to be read
whole, or the first segment, of which it wants a byte. -/
def Names (text reference : Text) (range : Option Text) : Prop :=
  (firstVariantUrl text = some reference ∧ range = none) ∨
    (firstSegmentUrl text = some reference ∧ range = firstByte)

/-- The answer to `fetch` is a playlist that names what `next` is for. -/
def LeadsTo (U : CharClasses) (server : Server) (fetch next : Fetch) : Prop :=
  ∃ text reference,
    fetch.range = none ∧ ServesText server fetch.url text ∧
    Names text reference next.range ∧
    resolveRelative U fetch.url reference = .ok next.url

/-- The fetch of a first byte, answered. -/
def Answered (server : Server) (fetch : Fetch) : Prop :=
  fetch.range = firstByte ∧ ∃ body, server fetch = .ok body

/-- A fetch without a range. -/
def Fetch.whole (fetch : Fetch) : Bool := fetch.range.isNone

/-- A run from `fetch` on that reads at most `n` playlists, and how it ends. -/
structure Journey (U : CharClasses) (server : Server) (fetch : Fetch) (n : ℕ)
    (result : Outcome Unit) (asked : List Fetch) : Prop where
  starts : asked.head? = some fetch
  leads : asked.IsChain (LeadsTo U server)
  playlists : asked.countP Fetch.whole ≤ n
  short : asked.length ≤ n + 1
  succeeds : result = .ok () ↔ ∃ last, asked.getLast? = some last ∧
    Answered server last

variable {U : CharClasses} {server : Server} {fetch next : Fetch} {n : ℕ}
  {result : Outcome Unit} {asked : List Fetch} {url text : Text}

/-- A playlist that leads nowhere ends the ping with an error. -/
theorem Journey.stop (url : Text) (e : Fault) :
    Journey U server ⟨url, none⟩ (n + 1) (.error e) [⟨url, none⟩] where
  starts := rfl
  leads := List.isChain_singleton _
  playlists := Nat.le_add_left 1 n
  short := Nat.le_add_left 1 (n + 1)
  succeeds := by
    constructor
    · intro h
      cases h
    · rintro ⟨last, hlast, hrange, -⟩
      obtain rfl := Option.some.inj hlast
      cases hrange

/-- The fetch of a first byte is the last one. -/
theorem Journey.byte (hrange : fetch.range = firstByte)
    (hresult : result = .ok () ↔ ∃ body, server fetch = .ok body) :
    Journey U server fetch n result [fetch] where
  starts := rfl
  leads := List.isChain_singleton _
  playlists := by
    have hwhole : ¬fetch.whole = true := by
      rw [Fetch.whole, hrange]
      exact Bool.false_ne_true
    rw [List.countP_cons_of_neg hwhole, List.countP_nil]
    exact Nat.zero_le n
  short := Nat.le_add_left 1 n
  succeeds := by
    rw [hresult]
    constructor
    · intro hbody
      exact ⟨fetch, rfl, hrange, hbody⟩
    · rintro ⟨last, hlast, -, hbody⟩
      obtain rfl := Option.some.inj hlast
      exact hbody

theorem Journey.step (hleads : LeadsTo U server fetch next)
    (h : Journey U server next n result asked) :
    Journey U server fetch (n + 1) result (fetch :: asked) := by
  obtain ⟨rest, rfl⟩ := List.head?_eq_some_iff.mp h.starts
  constructor
  · rfl
  · exact List.isChain_cons_cons.mpr ⟨hleads, h.leads⟩
  · have hwhole : fetch.whole = true := by
      obtain ⟨_, _, hrange, -⟩ := hleads
      rw [Fetch.whole, hrange, Option.isNone_none]
    rw [List.countP_cons_of_pos hwhole]
    exact Nat.succ_le_succ h.playlists
  · exact Nat.succ_le_succ h.short
  · rw [List.getLast?_cons_cons]
    exact h.succeeds

theorem Journey.weaken (h : Journey U server fetch n result asked) :
    Journey U server fetch (n + 1) result asked :=
  { h with
    playlists := Nat.le_succ_of_le h.playlists
    short := Nat.le_succ_of_le h.short }

/-! ## The steps of a ping -/

/-- From a media playlist on, at most the first byte of its segment is
fetched. -/
theorem journey_firstSegment (htext : ServesText server url text) :
    (firstSegment U url text).Ensures server fun result asked =>
      Journey U server ⟨url, none⟩ 1 result (⟨url, none⟩ :: asked) := by
  unfold firstSegment httpGetWithRange
  split
  next reference hsegment =>
    apply Ensures.lift_bind
    · intro e _
      exact Journey.stop url e
    · intro segmentUrl hresolved
      have hleads : LeadsTo U server ⟨url, none⟩ ⟨segmentUrl, firstByte⟩ :=
        ⟨text, reference, rfl, htext, .inr ⟨hsegment, rfl⟩, hresolved⟩
      apply Ensures.ask_bind
      · intro e hfault
        apply Journey.step hleads
        apply Journey.byte rfl
        rw [hfault]
        simp
      · intro body hbody
        apply ensures_lift.mpr
        apply Journey.step hleads
        exact Journey.byte rfl (iff_of_true rfl ⟨body, hbody⟩)
  next =>
    exact ensures_lift.mpr (Journey.stop url _)

/-- Up to the media playlist: a journey from there on is one from the playlist
in front of it. -/
theorem journey_mediaPlaylist (htext : ServesText server url text) :
    (mediaPlaylist U url text).Ensures server fun result asked =>
      (∀ e, result = .error e →
        Journey U server ⟨url, none⟩ 2 (.error e) (⟨url, none⟩ :: asked)) ∧
      ∀ media, result = .ok media →
        ServesText server media.1 media.2 ∧
        ∀ result' asked', Journey U server ⟨media.1, none⟩ 1 result'
            (⟨media.1, none⟩ :: asked') →
          Journey U server ⟨url, none⟩ 2 result'
            (⟨url, none⟩ :: (asked ++ asked')) := by
  unfold mediaPlaylist httpGet httpGetWithRange
  split
  next reference hvariant =>
    apply Ensures.lift_bind
    · intro e _
      exact ⟨fun e' _ => Journey.stop url e', nofun⟩
    · intro resolved hresolved
      have hleads : LeadsTo U server ⟨url, none⟩ ⟨resolved, none⟩ :=
        ⟨text, reference, rfl, htext, .inl ⟨hvariant, rfl⟩, hresolved⟩
      apply Ensures.ask_bind
      · intro e _
        exact ⟨fun e' _ => (Journey.stop resolved e').step hleads, nofun⟩
      · intro body hbody
        apply Ensures.lift_bind
        · intro e _
          exact ⟨fun e' _ => (Journey.stop resolved e').step hleads, nofun⟩
        · intro variantText hvariantText
          refine ensures_lift.mpr ⟨nofun, fun media hmedia => ?_⟩
          obtain rfl := Except.ok.inj hmedia
          exact ⟨⟨body, hbody, playlistText_eq_ok_iff.mp hvariantText⟩,
            fun _ _ h => h.step hleads⟩
  next =>
    refine ensures_lift.mpr ⟨nofun, fun media hmedia => ?_⟩
    obtain rfl := Except.ok.inj hmedia
    exact ⟨htext, fun _ _ h => h.weaken⟩

/-- The playlist of the user, and what is asked for before it is given up. -/
theorem ensures_userPlaylist (url : Text) :
    (userPlaylist url).Ensures server fun result asked =>
      asked = [⟨url, none⟩] ∧
      ∀ playlist, result = .ok playlist → ServesText server url playlist := by
  unfold userPlaylist httpGet httpGetWithRange
  apply Ensures.ask_bind
  · intro e _
    exact ⟨rfl, nofun⟩
  · intro body hbody
    apply Ensures.lift_bind
    · intro e _
      exact ⟨rfl, nofun⟩
    · intro text htext
      split
      · refine ensures_lift.mpr ⟨rfl, fun playlist hplaylist => ?_⟩
        obtain rfl := Except.ok.inj hplaylist
        exact ⟨body, hbody, playlistText_eq_ok_iff.mp htext⟩
      · exact ensures_lift.mpr ⟨rfl, nofun⟩

/-- A ping is such a journey on every server, from its URL on. -/
theorem journey_ping (U : CharClasses) (server : Server) (url : Text) :
    (ping U url).Ensures server (Journey U server ⟨url, none⟩ 2) := by
  unfold ping
  apply Ensures.bind
  apply (ensures_userPlaylist url).mono
  rintro result _ ⟨rfl, hserves⟩
  refine ⟨fun e _ => Journey.stop url e, fun playlist hplaylist => ?_⟩
  apply Ensures.bind
  apply (journey_mediaPlaylist (hserves playlist hplaylist)).mono
  rintro media asked ⟨herror, hok⟩
  refine ⟨herror, fun ⟨mediaUrl, mediaText⟩ hmedia => ?_⟩
  obtain ⟨htext, hjourney⟩ := hok _ hmedia
  exact (journey_firstSegment htext).mono hjourney

end Hls

end KnockKnock
