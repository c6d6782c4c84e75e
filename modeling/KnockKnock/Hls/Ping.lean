import KnockKnock.Hls.Playlist
import KnockKnock.Support.Inquiry

/-!
# The HLS ping

`HlsPinger::ping` fetches the playlist it was given, the first variant of a
master playlist, and the first byte of the first segment.  A server is any
function from what is fetched to a body or an error; a run records the fetches
in their order.  A timeout is one of the errors.

`okOnlyAfterStartup_iff` says against which servers an `Ok` stands for all that
a player does before it shows a picture.
-/

namespace KnockKnock

open Inquiry

variable (U : CharClasses)

namespace Hls

/-- What `http_get_with_range` is asked for. -/
structure Fetch where
  url : Text
  range : Option Text
deriving DecidableEq, Repr

abbrev Server := Fetch → Outcome Bytes

/-- Code that fetches. -/
abbrev Player := Inquiry Fetch Bytes Fault

def httpGetWithRange (url : Text) (range : Option Text) : Player Bytes :=
  ask ⟨url, range⟩

def httpGet (url : Text) : Player Bytes := httpGetWithRange url none

/-- The range that limits a segment to its first byte. -/
def firstByte : Option Text := some "bytes=0-0".toList

/-- The playlist the user gave. -/
def userPlaylist (url : Text) : Player Text := do
  let body ← httpGet url
  let playlist ← lift (playlistText "playlist".toList body)
  if HasHeader playlist then pure playlist
  else
    lift (Outcome.fail .invalidData
      "response is not an M3U8 playlist (missing #EXTM3U header)".toList)

/-- The URL and the text of the media playlist. -/
def mediaPlaylist (url playlist : Text) : Player (Text × Text) :=
  match firstVariantUrl playlist with
  | some variant => do
      let resolved ← lift (resolveRelative U url variant)
      let variantBody ← httpGet resolved
      let variantText ←
        lift (playlistText "variant playlist".toList variantBody)
      pure (resolved, variantText)
  | none => pure (url, playlist)

/-- The first byte of the first segment. -/
def firstSegment (mediaUrl mediaText : Text) : Player Unit :=
  match firstSegmentUrl mediaText with
  | some segment => do
      let segmentUrl ← lift (resolveRelative U mediaUrl segment)
      let _ ← httpGetWithRange segmentUrl firstByte
      pure ()
  | none =>
      lift (Outcome.fail .invalidData "no segments in media playlist".toList)

/-- `HlsPinger::ping` -/
def ping (url : Text) : Player Unit := do
  let playlist ← userPlaylist url
  let (mediaUrl, mediaText) ← mediaPlaylist U url playlist
  firstSegment U mediaUrl mediaText

variable {U} {server : Server} {url playlist mediaUrl mediaText : Text}
  {asked : List Fetch}

/-! ## What the steps ask for -/

/-- The server answers a fetch with a text. -/
def ServesText (server : Server) (url text : Text) : Prop :=
  ∃ body, server ⟨url, none⟩ = .ok body ∧ Utf8.fromUtf8 body = some text

theorem ServesText.unique {text text' : Text}
    (h : ServesText server url text) (h' : ServesText server url text') :
    text = text' := by
  obtain ⟨body, hbody, htext⟩ := h
  obtain ⟨body', hbody', htext'⟩ := h'
  rw [hbody, Except.ok.injEq] at hbody'
  rw [hbody', htext', Option.some.injEq] at htext
  exact htext.symm

theorem run_userPlaylist_iff :
    (userPlaylist url).run server = (.ok playlist, asked) ↔
      ServesText server url playlist ∧ HasHeader playlist ∧
        asked = [⟨url, none⟩] := by
  unfold userPlaylist httpGet httpGetWithRange
  constructor
  · intro h
    obtain ⟨body, behind, hbody, hconvert, rfl⟩ :=
      run_ask_bind_eq_ok_iff.mp h
    obtain ⟨text, htext, hcheck⟩ := run_lift_bind_eq_ok_iff.mp hconvert
    split at hcheck
    next hheader =>
      obtain ⟨rfl, rfl⟩ := run_pure_eq_ok_iff.mp hcheck
      exact ⟨⟨body, hbody, playlistText_eq_ok_iff.mp htext⟩, hheader, rfl⟩
    next =>
      obtain ⟨hfail, -⟩ := run_lift_eq_ok_iff.mp hcheck
      cases hfail
  · rintro ⟨⟨body, hbody, htext⟩, hheader, rfl⟩
    apply run_ask_bind_eq_ok_iff.mpr
    refine ⟨body, [], hbody, ?_, rfl⟩
    apply run_lift_bind_eq_ok_iff.mpr
    refine ⟨playlist, playlistText_eq_ok_iff.mpr htext, ?_⟩
    rw [if_pos hheader]
    exact run_pure_eq_ok_iff.mpr ⟨rfl, rfl⟩

/-- The media playlist a playlist leads to, and what has to be fetched for
it. -/
inductive Follows (U : CharClasses) (server : Server) (url playlist : Text) :
    Text → Text → List Fetch → Prop
  | media (hmedia : firstVariantUrl playlist = none) :
      Follows U server url playlist url playlist []
  | variant {variant resolved text : Text}
      (hmaster : firstVariantUrl playlist = some variant)
      (hresolved : resolveRelative U url variant = .ok resolved)
      (htext : ServesText server resolved text) :
      Follows U server url playlist resolved text [⟨resolved, none⟩]

theorem run_mediaPlaylist_iff :
    (mediaPlaylist U url playlist).run server =
      (.ok (mediaUrl, mediaText), asked) ↔
      Follows U server url playlist mediaUrl mediaText asked := by
  unfold mediaPlaylist httpGet httpGetWithRange
  constructor
  · intro h
    split at h
    next variant hmaster =>
      obtain ⟨resolved, hresolved, hfetch⟩ := run_lift_bind_eq_ok_iff.mp h
      obtain ⟨body, behind, hbody, hconvert, rfl⟩ :=
        run_ask_bind_eq_ok_iff.mp hfetch
      obtain ⟨text, htext, hreturn⟩ := run_lift_bind_eq_ok_iff.mp hconvert
      obtain ⟨heq, rfl⟩ := run_pure_eq_ok_iff.mp hreturn
      cases heq
      exact .variant hmaster hresolved
        ⟨body, hbody, playlistText_eq_ok_iff.mp htext⟩
    next hmedia =>
      obtain ⟨heq, rfl⟩ := run_pure_eq_ok_iff.mp h
      cases heq
      exact .media hmedia
  · intro h
    cases h with
    | media hmedia =>
        rw [hmedia]
        exact run_pure_eq_ok_iff.mpr ⟨rfl, rfl⟩
    | variant hmaster hresolved htext =>
        obtain ⟨body, hbody, htext⟩ := htext
        rw [hmaster]
        apply run_lift_bind_eq_ok_iff.mpr
        refine ⟨_, hresolved, ?_⟩
        apply run_ask_bind_eq_ok_iff.mpr
        refine ⟨body, [], hbody, ?_, rfl⟩
        apply run_lift_bind_eq_ok_iff.mpr
        refine ⟨_, playlistText_eq_ok_iff.mpr htext, ?_⟩
        exact run_pure_eq_ok_iff.mpr ⟨rfl, rfl⟩

/-- The server answers for the first segment of a media playlist. -/
def ServesSegment (U : CharClasses) (server : Server)
    (mediaUrl mediaText segmentUrl : Text) (body : Bytes) : Prop :=
  ∃ segment, firstSegmentUrl mediaText = some segment ∧
    resolveRelative U mediaUrl segment = .ok segmentUrl ∧
    server ⟨segmentUrl, firstByte⟩ = .ok body

theorem run_firstSegment_iff :
    (firstSegment U mediaUrl mediaText).run server = (.ok (), asked) ↔
      ∃ segmentUrl body,
        ServesSegment U server mediaUrl mediaText segmentUrl body ∧
          asked = [⟨segmentUrl, firstByte⟩] := by
  unfold firstSegment httpGetWithRange
  constructor
  · intro h
    split at h
    next segment hsegment =>
      obtain ⟨segmentUrl, hresolved, hfetch⟩ := run_lift_bind_eq_ok_iff.mp h
      obtain ⟨body, behind, hbody, hreturn, rfl⟩ :=
        run_ask_bind_eq_ok_iff.mp hfetch
      obtain ⟨-, rfl⟩ := run_pure_eq_ok_iff.mp hreturn
      exact ⟨segmentUrl, body, ⟨segment, hsegment, hresolved, hbody⟩, rfl⟩
    next =>
      obtain ⟨hfail, -⟩ := run_lift_eq_ok_iff.mp h
      cases hfail
  · rintro ⟨segmentUrl, body, ⟨segment, hsegment, hresolved, hbody⟩, rfl⟩
    rw [hsegment]
    apply run_lift_bind_eq_ok_iff.mpr
    refine ⟨segmentUrl, hresolved, ?_⟩
    apply run_ask_bind_eq_ok_iff.mpr
    exact ⟨body, [], hbody, run_pure_eq_ok_iff.mpr ⟨rfl, rfl⟩, rfl⟩

/-! ## The whole ping -/

/-- The server leads a ping to a media playlist: the playlist of the user has
its header, and is the media playlist or names it as its first variant. -/
def Leads (U : CharClasses) (server : Server) (url : Text)
    (asked : List Fetch) (mediaUrl mediaText : Text) : Prop :=
  ∃ playlist behind, ServesText server url playlist ∧ HasHeader playlist ∧
    Follows U server url playlist mediaUrl mediaText behind ∧
    asked = ⟨url, none⟩ :: behind

/-- A ping ends with `Ok` when it has been led to a media playlist and its
first segment has been answered for. -/
theorem run_ping_iff :
    (ping U url).run server = (.ok (), asked) ↔
      ∃ front mediaUrl mediaText segmentUrl body,
        Leads U server url front mediaUrl mediaText ∧
        ServesSegment U server mediaUrl mediaText segmentUrl body ∧
        asked = front ++ [⟨segmentUrl, firstByte⟩] := by
  unfold ping
  rw [run_bind_eq_ok_iff]
  constructor
  · rintro ⟨playlist, _, _, huser, hrest, rfl⟩
    obtain ⟨htext, hheader, rfl⟩ := run_userPlaylist_iff.mp huser
    obtain ⟨⟨mediaUrl, mediaText⟩, behind, _, hmedia, hlast, rfl⟩ :=
      run_bind_eq_ok_iff.mp hrest
    have hfollows := run_mediaPlaylist_iff.mp hmedia
    obtain ⟨segmentUrl, body, hserved, rfl⟩ := run_firstSegment_iff.mp hlast
    exact ⟨_, mediaUrl, mediaText, segmentUrl, body,
      ⟨playlist, behind, htext, hheader, hfollows, rfl⟩, hserved, rfl⟩
  · rintro ⟨_, mediaUrl, mediaText, segmentUrl, body,
      ⟨playlist, behind, htext, hheader, hfollows, rfl⟩, hserved, rfl⟩
    refine ⟨playlist, _, _,
      run_userPlaylist_iff.mpr ⟨htext, hheader, rfl⟩, ?_, rfl⟩
    exact run_bind_eq_ok_iff.mpr ⟨(mediaUrl, mediaText), behind, _,
      run_mediaPlaylist_iff.mpr hfollows,
      run_firstSegment_iff.mpr ⟨segmentUrl, body, hserved, rfl⟩, rfl⟩

theorem Follows.unique {url' text' : Text} {behind behind' : List Fetch}
    (h : Follows U server url playlist mediaUrl mediaText behind)
    (h' : Follows U server url playlist url' text' behind') :
    mediaUrl = url' ∧ mediaText = text' := by
  cases h with
  | media hmedia =>
      cases h' with
      | media => exact ⟨rfl, rfl⟩
      | variant hmaster =>
          rw [hmedia] at hmaster
          cases hmaster
  | variant hmaster hresolved htext =>
      cases h' with
      | media hmedia =>
          rw [hmedia] at hmaster
          cases hmaster
      | variant hmaster' hresolved' htext' =>
          rw [hmaster, Option.some.injEq] at hmaster'
          subst hmaster'
          rw [hresolved, Except.ok.injEq] at hresolved'
          subst hresolved'
          exact ⟨rfl, htext.unique htext'⟩

theorem Leads.unique {url' text' : Text} {front front' : List Fetch}
    (h : Leads U server url front mediaUrl mediaText)
    (h' : Leads U server url front' url' text') :
    mediaUrl = url' ∧ mediaText = text' := by
  obtain ⟨playlist, _, htext, -, hfollows, -⟩ := h
  obtain ⟨playlist', _, htext', -, hfollows', -⟩ := h'
  obtain rfl := htext.unique htext'
  exact hfollows.unique hfollows'

theorem ServesSegment.unique {segmentUrl segmentUrl' : Text}
    {body body' : Bytes}
    (h : ServesSegment U server mediaUrl mediaText segmentUrl body)
    (h' : ServesSegment U server mediaUrl mediaText segmentUrl' body') :
    body = body' := by
  obtain ⟨segment, hsegment, hresolved, hbody⟩ := h
  obtain ⟨segment', hsegment', hresolved', hbody'⟩ := h'
  rw [hsegment, Option.some.injEq] at hsegment'
  subst hsegment'
  rw [hresolved, Except.ok.injEq] at hresolved'
  subst hresolved'
  rw [hbody, Except.ok.injEq] at hbody'
  exact hbody'

/-! ## What an `Ok` stands for -/

/-- The fetches of a player up to the first byte of the first segment: every
playlist on the way begins with its header, and that byte has come. -/
def Startup (U : CharClasses) (server : Server) (url : Text)
    (asked : List Fetch) : Prop :=
  ∃ front mediaUrl mediaText segmentUrl body,
    Leads U server url front mediaUrl mediaText ∧ HasHeader mediaText ∧
    ServesSegment U server mediaUrl mediaText segmentUrl body ∧ body ≠ [] ∧
    asked = front ++ [⟨segmentUrl, firstByte⟩]

/-- `Ok` is only returned after such fetches. -/
def OkOnlyAfterStartup (U : CharClasses) (server : Server) (url : Text) :
    Prop :=
  ((ping U url).run server).1 = .ok () →
    Startup U server url ((ping U url).run server).2

/-- Where the server leads to a media playlist and answers for its first
segment, the playlist has its header, also when it is a variant, and the
segment is not empty. -/
def ServesPlayers (U : CharClasses) (server : Server) (url : Text) : Prop :=
  ∀ front mediaUrl mediaText segmentUrl body,
    Leads U server url front mediaUrl mediaText →
    ServesSegment U server mediaUrl mediaText segmentUrl body →
      HasHeader mediaText ∧ body ≠ []

/-- An `Ok` stands for a startup exactly against servers that keep these two
rules, which the ping does not check. -/
theorem okOnlyAfterStartup_iff (U : CharClasses) (server : Server)
    (url : Text) :
    OkOnlyAfterStartup U server url ↔ ServesPlayers U server url := by
  constructor
  · intro h front mediaUrl mediaText segmentUrl body hleads hserved
    have hrun : (ping U url).run server =
        (.ok (), front ++ [⟨segmentUrl, firstByte⟩]) :=
      run_ping_iff.mpr ⟨front, mediaUrl, mediaText, segmentUrl, body, hleads,
        hserved, rfl⟩
    obtain ⟨_, _, _, _, _, hleads', hheader, hserved', hbody, -⟩ :=
      h (by rw [hrun])
    obtain ⟨rfl, rfl⟩ := hleads.unique hleads'
    obtain rfl := hserved.unique hserved'
    exact ⟨hheader, hbody⟩
  · intro h hok
    obtain ⟨front, mediaUrl, mediaText, segmentUrl, body, hleads, hserved,
      hasked⟩ := run_ping_iff.mp (Prod.ext hok rfl)
    obtain ⟨hheader, hbody⟩ := h _ _ _ _ _ hleads hserved
    exact ⟨front, mediaUrl, mediaText, segmentUrl, body, hleads, hheader,
      hserved, hbody, hasked⟩

/-- A server with a good playlist, and nothing in its segment. -/
def emptySegment : Server := fun fetch =>
  if fetch.url = "http://h/m.m3u8".toList then
    .ok (Utf8.encode "#EXTM3U\n#EXTINF:9,\ns.ts\n".toList)
  else .ok []

/-- The ping takes an empty segment for a first byte. -/
theorem not_okOnlyAfterStartup_empty :
    ¬OkOnlyAfterStartup CharClasses.ascii emptySegment
      "http://h/m.m3u8".toList := by
  intro h
  have hrun : (ping CharClasses.ascii "http://h/m.m3u8".toList).run
      emptySegment = (.ok (), [⟨"http://h/m.m3u8".toList, none⟩,
        ⟨"http://h/s.ts".toList, firstByte⟩]) := by
    decide +kernel
  obtain ⟨front, mediaUrl, mediaText, segmentUrl, body, -, -,
    ⟨segment, -, -, hserved⟩, hbody, hasked⟩ := h (by rw [hrun])
  rw [hrun] at hasked
  have hsegment : segmentUrl = "http://h/s.ts".toList := by
    have hlast := congrArg List.getLast? hasked
    rw [List.getLast?_append_of_ne_nil _ (by simp)] at hlast
    simpa using hlast.symm
  rw [hsegment] at hserved
  have hempty : emptySegment ⟨"http://h/s.ts".toList, firstByte⟩ = .ok [] := by
    decide +kernel
  rw [hempty, Except.ok.injEq] at hserved
  exact hbody hserved.symm

end Hls

end KnockKnock
