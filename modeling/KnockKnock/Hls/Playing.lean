import KnockKnock.Hls.Ping
import KnockKnock.Hls.Resolving
import KnockKnock.Hls.Serving

/-!
# The HLS pinger and its test server

A ping makes up to three connections, and where the second and the third lead
depends on what has come over the one before.  `run_ping_fixture_iff` says from
which paths the test server leads a ping to a segment: a path that goes on with
a directory behind the master playlist leads back to it.
-/

namespace KnockKnock

open ByteStream Inquiry Testserver

variable (U : CharClasses) (serverName : ServerNames)

namespace Hls

/-- A test server that listens at `address`, and any server elsewhere; the
streams to and from it are cut like this. -/
def fixture (address : Text) (up down : Fetch → Cutting UInt8)
    (elsewhere : Server) : Server := fun fetch => do
  let (connection, req) ← request U serverName fetch.url fetch.range
  if connection = ⟨none, address⟩ then
    (Session.run (fetchResponseBody req) (Session.opened ((down fetch).cut
      (servedHls ((up fetch).cut (Utf8.encode req)))))).1
  else elsewhere fetch

/-- The first read of the server returns at least 18 bytes. -/
def Prompt (up : Fetch → Cutting UInt8) : Prop :=
  ∀ fetch s, 18 ≤ s.length → 18 ≤ (((up fetch).cut s).read bufSize).1.length

/-- The paths from which the server leads to a segment. -/
def Playable (path : Text) : Prop :=
  "/playlist.m3u8".toList <+: path ∨
    "/master.m3u8".toList <+: path ∧ '/' ∉ path.tail

instance (path : Text) : Decidable (Playable path) :=
  inferInstanceAs (Decidable (_ ∨ _))

variable {U serverName} {address url : Text} {uri : URI}
  {up down : Fetch → Cutting UInt8} {elsewhere : Server}

/-- A URL of the server. -/
structure AtFixture (U : CharClasses) (serverName : ServerNames)
    (address url : Text) (uri : URI) : Prop where
  parses : getUri U url = .ok uri
  connects : connect U serverName url = .ok ⟨none, address⟩
  graphic : Graphic uri

theorem AtFixture.request_eq (h : AtFixture U serverName address url uri)
    (range : Option Text) :
    ∃ port, address = hostPort uri.domain port ∧
      request U serverName url range =
        .ok (⟨none, address⟩, buildGet uri (hostPort uri.domain port) range) := by
  have hrequest : request U serverName url range =
      .ok (⟨none, address⟩, buildGet uri address range) := by
    rw [request, h.parses, h.connects]
    rfl
  have hrequest' : (Builder.buildGet range).request U serverName url =
      .ok (⟨none, address⟩, buildGet uri address range) := hrequest
  obtain ⟨-, port, hport⟩ := Builder.request_eq_ok h.parses hrequest'
  obtain rfl : address = hostPort uri.domain port := hport
  exact ⟨port, rfl, hrequest⟩

/-- What the server has for a URL is what is fetched. -/
theorem AtFixture.fixture_eq (h : AtFixture U serverName address url uri)
    (hup : Prompt up) (down : Fetch → Cutting UInt8) (elsewhere : Server)
    (range : Option Text) (hrange : ∀ r ∈ range, ∀ c ∈ r, c.toNat < 0x80) :
    ∃ ranged : Bool, (range = none → ranged = false) ∧
      fixture U serverName address up down elsewhere ⟨url, range⟩ =
        hlsFetched (writtenPath uri) ranged := by
  obtain ⟨port, rfl, hrequest⟩ := h.request_eq range
  let req := buildGet uri (hostPort uri.domain port) range
  have hlong : 18 ≤ (Utf8.encode req).length := by
    rw [Utf8.length_encode_ascii (ascii_buildGet h.graphic port hrange)]
    exact length_buildGet uri _ range
  obtain ⟨ranged, hranged, hanswer⟩ := responseBody_servedHls h.graphic port hrange
    ((up ⟨url, range⟩).bytes_cut _) (hup ⟨url, range⟩ _ hlong)
  refine ⟨ranged, hranged, ?_⟩
  rw [← hanswer, fixture, hrequest, Outcome.bind_ok]
  dsimp only
  rw [if_pos rfl, run_fetchResponseBody, Cutting.bytes_cut]

/-! ## The steps of a ping -/

/-- The playlists are the texts of the server. -/
theorem AtFixture.servesText_iff (h : AtFixture U serverName address url uri)
    (hup : Prompt up) (down : Fetch → Cutting UInt8) (elsewhere : Server)
    {text : Text} :
    ServesText (fixture U serverName address up down elsewhere) url text ↔
      hlsBody (writtenPath uri) = some text := by
  obtain ⟨ranged, hranged, hfetch⟩ := h.fixture_eq hup down elsewhere none nofun
  obtain rfl := hranged rfl
  unfold ServesText
  rw [hfetch, hlsFetched]
  cases hbody : hlsBody (writtenPath uri) with
  | none => simp [Outcome.fail]
  | some text' =>
      constructor
      · rintro ⟨body, hok, htext⟩
        obtain rfl := Except.ok.inj hok
        rw [← htext]
        exact (Utf8.fromUtf8_encode text').symm
      · rintro heq
        obtain rfl := Option.some.inj heq
        exact ⟨_, rfl, Utf8.fromUtf8_encode text'⟩

/-- A segment is served where the server has anything. -/
theorem AtFixture.exists_segment (h : AtFixture U serverName address url uri)
    (hup : Prompt up) (down : Fetch → Cutting UInt8) (elsewhere : Server)
    {text : Text} (hbody : hlsBody (writtenPath uri) = some text) :
    ∃ body, fixture U serverName address up down elsewhere ⟨url, firstByte⟩ =
      .ok body := by
  obtain ⟨ranged, -, hfetch⟩ := h.fixture_eq hup down elsewhere firstByte
    (by decide)
  rw [hfetch, hlsFetched, hbody]
  exact ⟨_, rfl⟩

/-- A connection is made to a domain. -/
theorem AtFixture.domain_ne_nil (h : AtFixture U serverName address url uri) :
    uri.domain ≠ [] := by
  intro hnil
  have hconnects := h.connects
  rw [connect, h.parses, Outcome.bind_ok, dispatchScheme] at hconnects
  have hmissing : ∀ port, endpointFor uri port = Outcome.fail .invalidInput
      "missing host in URL".toList := fun port => if_pos hnil
  rw [hmissing, hmissing] at hconnects
  split at hconnects
  · cases hconnects
  split at hconnects
  · cases hconnects
  · cases hconnects

theorem AtFixture.host_ne_nil (h : AtFixture U serverName address url uri) :
    uri.host ≠ [] := by
  have hdomain := h.domain_ne_nil
  obtain ⟨-, rfl⟩ := getUri_eq_ok_iff.mp h.parses
  rw [Reading.toURI_host]
  change (Reading.read U url).domain ≠ [] at hdomain
  unfold Reading.domain at hdomain
  intro hnil
  apply hdomain
  cases hhost : (Reading.read U url).host with
  | none => rfl
  | some host =>
      obtain ⟨domain, _ | port⟩ := host
      · rw [hhost] at hnil
        exact hnil
      · rw [hhost] at hnil
        exact absurd hnil (List.append_ne_nil_of_right_ne_nil _ (List.cons_ne_nil _ _))

theorem head_directory {path : Text} (hroot : ['/'] <+: path) :
    ∃ rest, directory path = '/' :: rest := by
  obtain ⟨more, rfl⟩ := hroot
  obtain ⟨front, hdirectory, -, rfl | ⟨back, hpath⟩⟩ := exists_directory (['/'] ++ more)
  · exact ⟨[], hdirectory⟩
  · rw [hdirectory]
    cases front with
    | nil => exact ⟨[], rfl⟩
    | cons c front =>
        rw [List.cons_append] at hpath
        obtain ⟨rfl, -⟩ := List.cons.inj hpath
        exact ⟨_, rfl⟩

/-- A name without a `/` resolves to a URL of the server, in the directory of
the base. -/
theorem AtFixture.exists_resolved (h : AtFixture U serverName address url uri)
    (hroot : ['/'] <+: uri.path) (name : Text)
    (hname : ∀ c ∈ name, isGraphic c = true ∧ pathChar c = true)
    (hrelative : ¬Absolute name) (hlocal : ¬['/'] <+: name) :
    ∃ resolved uri', resolveRelative U url name = .ok resolved ∧
      AtFixture U serverName address resolved uri' ∧
      uri'.path = directory uri.path ++ name := by
  have hhost := h.host_ne_nil
  obtain ⟨host, rest, hparts⟩ := exists_baseParts h.parses hhost
  have hnot : ¬Disguised U uri name := by
    rintro ⟨-, -, -, word, behind, hword, hchars⟩
    obtain ⟨more, hmore⟩ := head_directory hroot
    rw [hmore] at hword
    cases word with
    | nil => exact absurd (List.cons.inj hword).1 (by decide)
    | cons c word =>
        obtain ⟨rfl, -⟩ := List.cons.inj hword
        exact slash_not_mem hchars List.mem_cons_self
  obtain ⟨resolved, uri', hleads⟩ : ∃ resolved uri',
      LeadsInside U serverName url uri name resolved uri' :=
    hparts.leadsInside h.parses hhost (fun c hc => (hname c hc).2) hrelative hnot
  have hresolved : uri'.path = directory uri.path ++ name := by
    rw [hleads.path, resolvedPath, if_neg hlocal]
  refine ⟨resolved, uri', hleads.resolves, ⟨hleads.parses, ?_, ?_, ?_⟩,
    hresolved⟩
  · rw [hleads.connects, h.connects]
  · obtain ⟨front, hdirectory, -, hfront⟩ := exists_directory uri.path
    rw [hresolved, hdirectory]
    simp only [List.forall_mem_append, List.forall_mem_singleton]
    refine ⟨⟨fun c hc => ?_, by decide⟩, fun c hc => (hname c hc).1⟩
    rcases hfront with rfl | ⟨back, hpath⟩
    · cases hc
    · refine h.graphic.path c ?_
      rw [hpath]
      exact List.mem_append_left _ hc
  · rw [hleads.domain]
    exact h.graphic.domain

/-! ## Where the paths lead -/

theorem directory_of_first {path : Text} (hroot : ['/'] <+: path)
    (hlast : '/' ∉ path.tail) : directory path = ['/'] := by
  obtain ⟨more, rfl⟩ := hroot
  have hdirectory : directory ([] ++ '/' :: more) = [] ++ ['/'] :=
    directory_of_mem hlast
  exact hdirectory

/-- A `/` behind a word keeps the word in the directory. -/
theorem isPrefix_directory {word rest : Text} (hmem : '/' ∈ rest) :
    word <+: directory (word ++ rest) := by
  obtain ⟨front, back, rfl, hback⟩ := Str.exists_last_occurrence hmem
  rw [← List.append_assoc, directory_of_mem hback, List.append_assoc]
  exact List.prefix_append _ _

theorem prefix_writtenPath_iff {word : Text} (hword : 1 < word.length) :
    word <+: writtenPath uri ↔ word <+: uri.path := by
  unfold writtenPath
  split
  next hnil =>
    rw [hnil]
    refine iff_of_false (fun h => ?_) fun h => ?_
    · exact Nat.not_le_of_lt hword h.length_le
    · exact Nat.not_lt_zero _ (hword.trans_le h.length_le)
  · exact Iff.rfl

theorem hlsBody_of_playlist (h : "/playlist.m3u8".toList <+: uri.path) :
    hlsBody (writtenPath uri) = some hlsPlaylist :=
  if_pos ((prefix_writtenPath_iff (by decide)).mpr h)

theorem hlsBody_of_master (h : "/master.m3u8".toList <+: uri.path) :
    hlsBody (writtenPath uri) = some hlsMaster := by
  have hnot : ¬"/playlist.m3u8".toList <+: writtenPath uri := by
    intro hlist
    have hmaster := (prefix_writtenPath_iff (by decide)).mpr h
    have hboth := List.prefix_of_prefix_length_le hmaster hlist (by decide)
    exact absurd hboth (by decide)
  rw [hlsBody, if_neg hnot]
  exact if_pos ((prefix_writtenPath_iff (by decide)).mpr h)

theorem hlsBody_of_segment (h : uri.path = "/segment0.ts".toList) :
    hlsBody (writtenPath uri) = some hlsSegment := by
  rw [writtenPath, h]
  decide

theorem relative_names :
    ¬Absolute "segment0.ts".toList ∧ ¬Absolute "playlist.m3u8".toList := by
  unfold Absolute
  decide

theorem firstVariantUrl_hlsMaster :
    firstVariantUrl hlsMaster = some "playlist.m3u8".toList := by
  decide +kernel

/-- The media playlist leads to a segment: in its own directory, the name of
the playlist stands in front again, and else the segment is at the top. -/
theorem AtFixture.exists_servesSegment
    (h : AtFixture U serverName address url uri) (hup : Prompt up)
    (down : Fetch → Cutting UInt8) (elsewhere : Server)
    (hlist : "/playlist.m3u8".toList <+: uri.path) :
    ∃ segmentUrl body,
      ServesSegment U (fixture U serverName address up down elsewhere) url
        hlsPlaylist segmentUrl body := by
  have hroot : ['/'] <+: uri.path := .trans (by decide) hlist
  have hfirst : firstSegmentUrl hlsPlaylist = some "segment0.ts".toList := by
    decide +kernel
  obtain ⟨resolved, uri', hresolves, h', hpath⟩ := h.exists_resolved hroot
    "segment0.ts".toList (by decide) relative_names.1 (by decide)
  have hserved : ∃ text, hlsBody (writtenPath uri') = some text := by
    obtain ⟨rest, hrest⟩ := hlist
    by_cases hmem : '/' ∈ rest
    · refine ⟨_, hlsBody_of_playlist ?_⟩
      rw [hpath, ← hrest]
      exact (isPrefix_directory hmem).trans (List.prefix_append _ _)
    · refine ⟨_, hlsBody_of_segment ?_⟩
      have hlast : '/' ∉ uri.path.tail := by
        rw [← hrest]
        change '/' ∉ "playlist.m3u8".toList ++ rest
        rw [List.mem_append, not_or]
        exact ⟨by decide, hmem⟩
      rw [hpath, directory_of_first hroot hlast]
      rfl
  obtain ⟨text, htext⟩ := hserved
  obtain ⟨body, hbody⟩ := h'.exists_segment hup down elsewhere htext
  exact ⟨resolved, body, _, hfirst, hresolves, hbody⟩

/-- From a playable path a ping comes to the media playlist. -/
theorem AtFixture.exists_leads (h : AtFixture U serverName address url uri)
    (hup : Prompt up) (down : Fetch → Cutting UInt8) (elsewhere : Server)
    (hplayable : Playable uri.path) :
    ∃ front mediaUrl uri',
      Leads U (fixture U serverName address up down elsewhere) url front mediaUrl
        hlsPlaylist ∧
      AtFixture U serverName address mediaUrl uri' ∧
      "/playlist.m3u8".toList <+: uri'.path := by
  rcases hplayable with hlist | ⟨hmaster, hlast⟩
  · have htext := (h.servesText_iff hup down elsewhere).mpr
      (hlsBody_of_playlist hlist)
    exact ⟨_, url, uri, ⟨hlsPlaylist, [], htext, by decide +kernel,
      .media (by decide +kernel), rfl⟩, h, hlist⟩
  · have hroot : ['/'] <+: uri.path := .trans (by decide) hmaster
    obtain ⟨resolved, uri', hresolves, h', hpath⟩ := h.exists_resolved hroot
      "playlist.m3u8".toList (by decide) relative_names.2 (by decide)
    have hlist : uri'.path = "/playlist.m3u8".toList := by
      rw [hpath, directory_of_first hroot hlast]
      rfl
    have hprefix : "/playlist.m3u8".toList <+: uri'.path := by rw [hlist]
    have htext := (h.servesText_iff hup down elsewhere).mpr
      (hlsBody_of_master hmaster)
    have htext' := (h'.servesText_iff hup down elsewhere).mpr
      (hlsBody_of_playlist hprefix)
    exact ⟨_, resolved, uri', ⟨hlsMaster, _, htext, by decide +kernel,
      .variant firstVariantUrl_hlsMaster hresolves htext', rfl⟩, h', hprefix⟩

/-- A master playlist in a directory of its own name leads to itself. -/
theorem AtFixture.eq_hlsMaster (h : AtFixture U serverName address url uri)
    (hup : Prompt up) (hmaster : "/master.m3u8".toList <+: uri.path)
    (hmem : '/' ∈ uri.path.tail) {mediaUrl mediaText : Text}
    {behind : List Fetch}
    (hfollows : Follows U (fixture U serverName address up down elsewhere) url
      hlsMaster mediaUrl mediaText behind) : mediaText = hlsMaster := by
  have hroot : ['/'] <+: uri.path := .trans (by decide) hmaster
  obtain ⟨resolved, uri', hresolves, h', hpath⟩ := h.exists_resolved hroot
    "playlist.m3u8".toList (by decide) relative_names.2 (by decide)
  obtain ⟨rest, hrest⟩ := hmaster
  have hback : "/master.m3u8".toList <+: uri'.path := by
    rw [← hrest] at hmem
    rw [hpath, ← hrest]
    refine .trans (isPrefix_directory ?_) (List.prefix_append _ _)
    change '/' ∈ "master.m3u8".toList ++ rest at hmem
    exact (List.mem_append.mp hmem).resolve_left (by decide)
  cases hfollows with
  | media hmedia => cases hmedia.symm.trans firstVariantUrl_hlsMaster
  | variant hfirst hto hmedia =>
      obtain rfl := Option.some.inj (firstVariantUrl_hlsMaster.symm.trans hfirst)
      obtain rfl := Except.ok.inj (hresolves.symm.trans hto)
      have hagain := (h'.servesText_iff hup down elsewhere).mp hmedia
      exact Option.some.inj (hagain.symm.trans (hlsBody_of_master hback))

/-- Only from a playable path a ping comes to a text with a segment. -/
theorem AtFixture.playable_of_leads (h : AtFixture U serverName address url uri)
    (hup : Prompt up) {mediaUrl mediaText segment : Text} {front : List Fetch}
    (hleads : Leads U (fixture U serverName address up down elsewhere) url front
      mediaUrl mediaText)
    (hsegment : firstSegmentUrl mediaText = some segment) :
    Playable uri.path := by
  obtain ⟨playlist, behind, htext, hheader, hfollows, -⟩ := hleads
  have hbody := (h.servesText_iff hup down elsewhere).mp htext
  by_cases hlist : "/playlist.m3u8".toList <+: uri.path
  · exact .inl hlist
  by_cases hmaster : "/master.m3u8".toList <+: uri.path
  · refine .inr ⟨hmaster, fun hmem => ?_⟩
    obtain rfl := Option.some.inj ((hlsBody_of_master hmaster).symm.trans hbody)
    obtain rfl := h.eq_hlsMaster hup hmaster hmem hfollows
    have hnone : firstSegmentUrl hlsMaster = none := by decide +kernel
    rw [hnone] at hsegment
    cases hsegment
  · rw [hlsBody, if_neg (mt (prefix_writtenPath_iff (by decide)).mp hlist),
      if_neg (mt (prefix_writtenPath_iff (by decide)).mp hmaster)] at hbody
    split at hbody
    · obtain rfl := Option.some.inj hbody
      exact absurd hheader (by decide)
    · cases hbody

end Hls

end KnockKnock
