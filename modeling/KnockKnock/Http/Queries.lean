import KnockKnock.Http.Requests

/-!
# Queries

`URI::parse` finds the query of a target, and no builder uses it: the request
names the path alone.  All URLs that differ in their queries only are one
request.
-/

namespace KnockKnock

variable {U : CharClasses} {serverName : ServerNames}

/-- The request target of a URL: its path, and its query, if it has one. -/
def requestTarget (uri : URI) : Text :=
  writtenPath uri ++ if uri.query = [] then [] else '?' :: uri.query

/-- The request line names the request target of the URL. -/
def NamesTarget (method : Text) (uri : URI) (request : Text) : Prop :=
  method ++ ' ' :: (requestTarget uri ++ " HTTP/1.1\r\n".toList) <+: request

instance (method : Text) (uri : URI) (request : Text) :
    Decidable (NamesTarget method uri request) :=
  inferInstanceAs (Decidable (_ <+: _))

theorem namesTarget_build_iff {b : Builder} {uri : URI} {host : Text} :
    NamesTarget b.method uri (b.build uri host) ↔ uri.query = [] := by
  unfold NamesTarget requestTarget
  rw [build_eq, List.prefix_append_right_inj, List.cons_prefix_cons,
    and_iff_right rfl, List.append_assoc, List.prefix_append_right_inj]
  by_cases hquery : uri.query = []
  · rw [if_pos hquery, List.nil_append, versionText, List.cons_prefix_cons,
      and_iff_right rfl, List.prefix_append_right_inj]
    exact iff_of_true (List.prefix_append _ _) hquery
  · rw [if_neg hquery, List.cons_append, List.cons_prefix_cons]
    have hmark : '?' ≠ ' ' := by decide
    simp [hmark, hquery]

/-- Builders read the path of a target and nothing behind it. -/
theorem build_congr {b : Builder} {uri uri' : URI} (h : uri'.path = uri.path)
    (host : Text) : b.build uri' host = b.build uri host := by
  rw [build_eq, build_eq, writtenPath, writtenPath, h]

/-- The request names its target exactly when there is no query, and requests
for one path on one endpoint are never told apart by their queries. -/
theorem namesTarget_iff {b : Builder} {target request : Text} {uri : URI}
    {connection : Connection} (huri : getUri U target = .ok uri)
    (h : b.request U serverName target = .ok (connection, request)) :
    (NamesTarget b.method uri request ↔ uri.query = []) ∧
      ∀ target' uri' connection' request',
        getUri U target' = .ok uri' →
        b.request U serverName target' = .ok (connection', request') →
        connection'.endpoint = connection.endpoint →
        uri'.path = uri.path →
        ((uri'.query ≠ uri.query → request' ≠ request) ↔
          uri'.query = uri.query) := by
  obtain ⟨rfl, -⟩ := Builder.request_eq_ok huri h
  refine ⟨namesTarget_build_iff, ?_⟩
  intro target' uri' connection' request' huri' h' hendpoint hpath
  obtain ⟨rfl, -⟩ := Builder.request_eq_ok huri' h'
  have hsame : b.build uri' connection'.endpoint =
      b.build uri connection.endpoint := by
    rw [hendpoint, build_congr hpath]
  constructor
  · intro hdistinct
    by_contra hne
    exact hdistinct hne hsame
  · intro heq hne
    exact absurd heq hne

/-- A URL without a query is named by its path. -/
theorem namesTarget_playlist :
    NamesTarget "GET".toList
      { URI.default with
        host := "h".toList, domain := "h".toList, path := "/a.m3u8".toList }
      ("GET /a.m3u8 HTTP/1.1\r\nHost: h:80\r\nUser-Agent: ".toList ++
        "Knock Knock\r\nAccept: */*\r\nConnection: close\r\n\r\n".toList) := by
  have huri : getUri CharClasses.ascii "h/a.m3u8".toList =
      .ok { URI.default with
        host := "h".toList, domain := "h".toList,
        path := "/a.m3u8".toList } := by
    decide +kernel
  have hrequest : (Builder.buildGet none).request CharClasses.ascii
      (fun _ => .ok ()) "h/a.m3u8".toList =
      .ok (⟨none, "h:80".toList⟩,
        "GET /a.m3u8 HTTP/1.1\r\nHost: h:80\r\nUser-Agent: ".toList ++
          "Knock Knock\r\nAccept: */*\r\nConnection: close\r\n\r\n".toList) := by
    decide +kernel
  exact (namesTarget_iff huri hrequest).1.mpr rfl

/-- The tokens of two URLs are lost alike. -/
theorem not_namesTarget_token :
    ∃ connection uri request,
      getUri CharClasses.ascii "http://h/s?token=1".toList = .ok uri ∧
      (Builder.buildGet none).request CharClasses.ascii (fun _ => .ok ())
        "http://h/s?token=1".toList = .ok (connection, request) ∧
      (Builder.buildGet none).request CharClasses.ascii (fun _ => .ok ())
        "http://h/s?token=2".toList = .ok (connection, request) ∧
      ¬NamesTarget "GET".toList uri request := by
  refine ⟨⟨none, "h:80".toList⟩,
    { URI.default with
      scheme := "http".toList, host := "h".toList, domain := "h".toList,
      path := "/s".toList, query := "token=1".toList },
    "GET /s HTTP/1.1\r\nHost: h:80\r\nUser-Agent: ".toList ++
      "Knock Knock\r\nAccept: */*\r\nConnection: close\r\n\r\n".toList,
    ?_, ?_, ?_, ?_⟩ <;> decide +kernel

end KnockKnock
