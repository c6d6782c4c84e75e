import KnockKnock.Http.Requests
import KnockKnock.Support.HttpWriting

/-!
# Requests as a server reads them

A server parses what the builders write.  The path, the domain and the range
are the places where a target can make it read something else than the one
request that was meant.
-/

namespace KnockKnock

open HttpMessage Numeral Utf8

/-! ## One request and no more -/

/-- The bytes parse as exactly one request, with this method, in this version,
with exactly these fields, and with nothing behind its body. -/
def OneRequest (method : Text) (fields : List (Text × Text)) (bytes : Bytes) :
    Prop :=
  ∃ r : HttpMessage.Request, parse bytes = some (r, []) ∧
    r.Matches (encode method) (encode "HTTP/1.1".toList) (fields.map encodeField)

/-- A text that may stand as a field value. -/
def IsValueText (s : Text) : Prop :=
  (∀ c ∈ s, content c.toNat = true) ∧
    (∀ c ∈ s.head?, blank c.toNat = false) ∧
    ∀ c ∈ s.getLast?, blank c.toNat = false

instance (s : Text) : Decidable (IsValueText s) :=
  inferInstanceAs (Decidable (_ ∧ _))

theorem visible_high (n : ℕ) (h : 0x80 ≤ n) : visible n = visible 0x80 := by
  have hvisible : (0x20 < n && n != 0x7F) = true := by
    simp only [Bool.and_eq_true, decide_eq_true_eq, bne_iff_ne]
    omega
  exact hvisible

theorem blank_high (n : ℕ) (h : 0x80 ≤ n) : blank n = blank 0x80 := by
  have hblank : (n == 0x20 || n == 0x09) = false := by
    simp only [Bool.or_eq_false_iff, beq_eq_false_iff_ne]
    omega
  exact hblank

theorem content_high (n : ℕ) (h : 0x80 ≤ n) : content n = content 0x80 := by
  rw [content, content, visible_high n h, blank_high n h]

theorem isValue_encode_iff {s : Text} : IsValue (encode s) ↔ IsValueText s :=
  and_congr (forall_encode_iff content_high)
    (and_congr (forall_head_encode_iff blank_high)
      (forall_getLast_encode_iff blank_high))

theorem encode_eq_nil_iff {s : Text} : encode s = [] ↔ s = [] := by
  constructor
  · intro h
    exact encode_injective (h.trans encode_nil.symm)
  · rintro rfl
    rfl

theorem isTarget_encode_iff {uri : URI} :
    IsTarget (encode (writtenPath uri)) ↔
      ∀ c ∈ uri.path, visible c.toNat = true := by
  have hiff : IsTarget (encode (writtenPath uri)) ↔ writtenPath uri ≠ [] ∧
      ∀ c ∈ writtenPath uri, visible c.toNat = true :=
    and_congr (not_congr encode_eq_nil_iff) (forall_encode_iff visible_high)
  rw [hiff]
  unfold writtenPath
  split
  next hpath =>
    rw [hpath]
    decide
  next hpath => simp [hpath]

theorem visible_of_isDigit {c : Char} (h : c.isDigit = true) :
    visible c.toNat = true := by
  simp only [Char.isDigit, ge_iff_le, Bool.and_eq_true, decide_eq_true_eq,
    UInt32.le_iff_toNat_le] at h
  obtain ⟨hlow, hhigh⟩ := h
  change 48 ≤ c.toNat at hlow
  change c.toNat ≤ 57 at hhigh
  simp only [visible, Bool.and_eq_true, decide_eq_true_eq, bne_iff_ne]
  omega

theorem content_of_visible {n : ℕ} (h : visible n = true) :
    content n = true := by
  rw [content, h, Bool.true_or]

theorem not_blank_of_visible {n : ℕ} (h : visible n = true) :
    blank n = false := by
  simp only [visible, blank, Bool.and_eq_true, decide_eq_true_eq, bne_iff_ne,
    Bool.or_eq_false_iff, beq_eq_false_iff_ne] at *
  omega

/-- Behind the domain, an endpoint has only characters of field values. -/
theorem isValueText_hostPort_iff {domain : Text} {port : UInt16} :
    IsValueText (hostPort domain port) ↔
      (∀ c ∈ domain, content c.toNat = true) ∧
        ∀ c ∈ domain.head?, blank c.toNat = false := by
  have hport : ∀ c ∈ ':' :: decimal port.toNat, visible c.toNat = true := by
    intro c hc
    rcases List.mem_cons.mp hc with rfl | hc
    · decide
    · exact visible_of_isDigit (isDigit_of_mem_decimal hc)
  have hhead : (∀ c ∈ (hostPort domain port).head?, blank c.toNat = false) ↔
      ∀ c ∈ domain.head?, blank c.toNat = false := by
    cases domain with
    | nil =>
        refine iff_of_true ?_ (by simp)
        intro c hc
        obtain rfl : ':' = c := Option.some.inj hc
        decide
    | cons c domain => rfl
  have hlast : ∀ c ∈ (hostPort domain port).getLast?,
      blank c.toNat = false := by
    intro c hc
    rw [hostPort, List.getLast?_append_of_ne_nil _ (by simp)] at hc
    exact not_blank_of_visible (hport c (List.mem_of_getLast? hc))
  have hcontent : (∀ c ∈ hostPort domain port, content c.toNat = true) ↔
      ∀ c ∈ domain, content c.toNat = true := by
    rw [hostPort, List.forall_mem_append]
    exact and_iff_left fun c hc => content_of_visible (hport c hc)
  unfold IsValueText
  rw [hcontent, hhead]
  exact and_congr_right fun _ => and_iff_left hlast

namespace Builder

/-- A body is written. -/
def hasBody : Builder → Bool
  | buildRequest method => method.hasBody
  | buildGet _ => false

/-- The range asked for. -/
def range : Builder → Option Text
  | buildRequest _ => none
  | buildGet range => range

theorem isToken_method (b : Builder) : IsToken (encode b.method) := by
  cases b with
  | buildRequest method => cases method <;> decide
  | buildGet range =>
      change IsToken (encode "GET".toList)
      decide

/-- The names of the fields are fixed texts. -/
theorem isToken_names (b : Builder) (host : Text) :
    ∀ pair ∈ (b.fields host).map encodeField, IsToken pair.1 := by
  have hnames : ∀ field ∈ b.fields host, IsToken (encode field.1) := by
    cases b with
    | buildRequest method =>
        cases method <;>
          simp only [fields, Http.HttpMethod.hasBody, List.forall_mem_append,
            List.forall_mem_cons, if_true, if_false, Bool.false_eq_true] <;>
          decide
    | buildGet range =>
        cases range <;>
          simp only [fields, List.forall_mem_append, List.forall_mem_cons,
            Option.toList_none, Option.toList_some, List.map_cons,
            List.map_nil] <;>
          decide
  intro pair hpair
  obtain ⟨field, hfield, rfl⟩ := List.mem_map.mp hpair
  exact hnames field hfield

theorem contentLength_fields (b : Builder) (host : Text) :
    contentLength ((b.fields host).map encodeField) =
      some (if b.hasBody then 2 else 0) := by
  cases b with
  | buildRequest method => cases method <;> rfl
  | buildGet range => cases range <;> rfl

theorem length_trailer (b : Builder) :
    (encode b.trailer).length = if b.hasBody then 6 else 0 := by
  cases b with
  | buildRequest method => cases method <;> rfl
  | buildGet range => rfl

/-- The endpoint and the range are what is spliced into the fields. -/
theorem forall_isValue_iff (b : Builder) (host : Text) :
    (∀ pair ∈ (b.fields host).map encodeField, IsValue pair.2) ↔
      IsValueText host ∧ ∀ r ∈ b.range, IsValueText r := by
  have hagent : IsValueText "Knock Knock".toList := by decide
  have htype : IsValueText "application/json".toList := by decide
  have hlength : IsValueText "2".toList := by decide
  have haccept : IsValueText "*/*".toList := by decide
  have hconnection : IsValueText "close".toList := by decide
  rw [List.forall_mem_map]
  simp only [encodeField, isValue_encode_iff]
  cases b with
  | buildRequest method =>
      cases method <;>
        simp only [fields, Http.HttpMethod.hasBody, List.forall_mem_append,
          List.forall_mem_cons, if_true, if_false, Bool.false_eq_true,
          List.not_mem_nil, false_imp_iff, implies_true, and_true, hagent,
          htype, hlength, range, Option.mem_def, reduceCtorEq]
  | buildGet range =>
      cases range <;>
        simp only [fields, List.forall_mem_append, List.forall_mem_cons,
          Option.toList_none, Option.toList_some, List.map_cons, List.map_nil,
          List.not_mem_nil, false_imp_iff, implies_true, and_true, hagent,
          haccept, hconnection, Builder.range, Option.mem_def,
          reduceCtorEq, Option.some.injEq, forall_eq']

end Builder

variable {U serverName}

/-- What a pinger sends is one request exactly when it sends no body, the path
has neither white space nor control characters, and the domain and the range
may stand in a field value. -/
theorem oneRequest_iff {b : Builder} {target text : Text} {uri : URI}
    {connection : Connection} (huri : getUri U target = .ok uri)
    (h : b.request U serverName target = .ok (connection, text)) :
    OneRequest b.method (b.fields connection.endpoint) (encode text) ↔
      b.hasBody = false ∧ (∀ c ∈ uri.path, visible c.toNat = true) ∧
        (∀ c ∈ uri.domain, content c.toNat = true) ∧
        (∀ c ∈ uri.domain.head?, blank c.toNat = false) ∧
        ∀ r ∈ b.range, IsValueText r := by
  obtain ⟨rfl, port, hendpoint⟩ := Builder.request_eq_ok huri h
  rw [OneRequest, encode_build, parse_written_iff b.isToken_method (by decide)
    (b.isToken_names _) (b.contentLength_fields _)
    (by rw [b.length_trailer]; split <;> omega),
    isTarget_encode_iff, b.forall_isValue_iff, hendpoint,
    isValueText_hostPort_iff, b.length_trailer]
  have hlength : (if b.hasBody then 6 else 0) =
      (if b.hasBody then 2 else 0) ↔ b.hasBody = false := by
    cases b.hasBody <;> decide
  rw [hlength]
  constructor
  · rintro ⟨hpath, ⟨⟨hdomain, hfront⟩, hrange⟩, hbody⟩
    exact ⟨hbody, hpath, hdomain, hfront, hrange⟩
  · rintro ⟨hbody, hpath, hdomain, hfront, hrange⟩
    exact ⟨hpath, ⟨⟨hdomain, hfront⟩, hrange⟩, hbody⟩

/-- A plain `GET` is one request. -/
theorem oneRequest_get :
    OneRequest "GET".toList
      [("Host".toList, "h:80".toList),
        ("User-Agent".toList, "Knock Knock".toList)]
      (encode ("GET /a HTTP/1.1\r\nHost: h:80\r\n".toList ++
        "User-Agent: Knock Knock\r\n\r\n".toList)) := by
  have hrequest : (Builder.buildRequest .get).request CharClasses.ascii
      (fun _ => .ok ()) "http://h/a".toList =
      .ok (⟨none, "h:80".toList⟩,
        "GET /a HTTP/1.1\r\nHost: h:80\r\n".toList ++
          "User-Agent: Knock Knock\r\n\r\n".toList) := by
    decide +kernel
  have huri : getUri CharClasses.ascii "http://h/a".toList =
      .ok { URI.default with
        scheme := "http".toList, host := "h".toList, domain := "h".toList,
        path := "/a".toList } := by
    decide +kernel
  exact (oneRequest_iff huri hrequest).mpr (by decide)

/-- A target that ends the header section early, behind a field of its own. -/
theorem not_oneRequest_injected :
    ∃ connection text, (Builder.buildRequest .get).request CharClasses.ascii
      (fun _ => .ok ()) "http://h/ HTTP/1.1\r\nX: y\r\n\r\n".toList =
        .ok (connection, text) ∧
      ¬OneRequest "GET".toList
        ((Builder.buildRequest .get).fields connection.endpoint)
        (encode text) := by
  refine ⟨⟨none, "h:80".toList⟩,
    "GET / HTTP/1.1\r\nX: y\r\n\r\n HTTP/1.1\r\n".toList ++
      "Host: h:80\r\nUser-Agent: Knock Knock\r\n\r\n".toList,
    by decide +kernel, ?_⟩
  rintro ⟨r, hparse, -⟩
  have hrest : Option.map Prod.snd _ = some [] :=
    congrArg (Option.map Prod.snd) hparse
  revert hrest
  decide +kernel

end KnockKnock
