import KnockKnock.Support.Utf8
import KnockKnock.Uri.Parse

/-!
# M3U8 playlists

The HLS pinger reads a playlist line by line.  Of a master playlist it takes
the first variant, of a media playlist the first segment; both are the next
line that is neither empty nor a comment behind the line of a tag.
-/

namespace KnockKnock

open Numeral

variable (U : CharClasses)

namespace Hls

/-- The next non-comment, non-empty line. -/
def nextUrl : List Text → Option Text
  | [] => none
  | next :: rest =>
      let next := Str.trim next
      if next ≠ [] ∧ ¬['#'] <+: next then some next else nextUrl rest

/-- The loops of `first_variant_url` and `first_segment_url`: when the lines
behind the first `tag` run out, there is no line left to look at. -/
def urlBehind (tag : Text) : List Text → Option Text
  | [] => none
  | line :: rest =>
      if tag <+: Str.trimStart line then nextUrl rest else urlBehind tag rest

/-- The first variant of a master playlist. -/
def firstVariantUrl (playlist : Text) : Option Text :=
  urlBehind "#EXT-X-STREAM-INF".toList (Str.lines playlist)

/-- The first segment of a media playlist. -/
def firstSegmentUrl (playlist : Text) : Option Text :=
  urlBehind "#EXTINF".toList (Str.lines playlist)

/-- `playlist.lines().next().unwrap_or("").starts_with("#EXTM3U")` -/
def HasHeader (playlist : Text) : Prop :=
  "#EXTM3U".toList <+: (Str.lines playlist).head?.getD []

instance (playlist : Text) : Decidable (HasHeader playlist) :=
  inferInstanceAs (Decidable (_ <+: _))

/-- An absolute reference is used as it is; others are put behind the host of
the base, or behind the directory of its path. -/
def resolveRelative (base reference : Text) : Outcome Text :=
  if "http://".toList <+: reference ∨ "https://".toList <+: reference then
    pure reference
  else do
    let uri ← getUri U base
    let scheme := if uri.scheme = [] then "http".toList else uri.scheme
    if uri.host = [] then
      Outcome.fail .invalidInput
        "cannot resolve relative URL: base has no host".toList
    else
      match Str.stripPrefix ['/'] reference with
      | some rest =>
          pure (scheme ++ "://".toList ++ uri.host ++ '/' :: rest)
      | none =>
          let dir := ((Str.rsplitOnce '/' uri.path).map Prod.fst).getD []
          if dir = [] then
            pure (scheme ++ "://".toList ++ uri.host ++ '/' :: reference)
          else
            pure (scheme ++ "://".toList ++ uri.host ++ dir ++
              '/' :: reference)

/-- The text of a `Utf8Error`. -/
def utf8ErrorText (e : Utf8.Error) : Text :=
  match e.errorLen with
  | some n =>
      "invalid utf-8 sequence of ".toList ++ decimal n ++
        " bytes from index ".toList ++ decimal e.validUpTo
  | none =>
      "incomplete utf-8 byte sequence from index ".toList ++
        decimal e.validUpTo

/-- A body as text; `what` names it in the error. -/
def playlistText (what : Text) (body : Bytes) : Outcome Text :=
  match Utf8.validate body with
  | .ok text => pure text
  | .error e =>
      Outcome.fail .invalidData
        (what ++ " is not valid UTF-8: ".toList ++ utf8ErrorText e)

theorem playlistText_eq_ok_iff {what text : Text} {body : Bytes} :
    playlistText what body = .ok text ↔ Utf8.fromUtf8 body = some text := by
  rw [← Utf8.validate_eq_ok_iff]
  unfold playlistText
  split
  next text' hvalid =>
    rw [hvalid, Except.ok.injEq]
    exact ⟨Except.ok.inj, congrArg Except.ok⟩
  next e hvalid =>
    rw [hvalid]
    exact iff_of_false (by simp [Outcome.fail]) (by simp)

example : firstVariantUrl ("#EXTM3U\n#EXT-X-STREAM-INF:B=8\n".toList ++
    "\r\n# low\n  low.m3u8\r\nhigh.m3u8\n".toList) =
      some "low.m3u8".toList := by
  decide

end Hls

end KnockKnock
