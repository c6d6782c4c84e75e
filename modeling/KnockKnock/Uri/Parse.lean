import Mathlib
import KnockKnock.Outcome
import KnockKnock.Support.Backtrack
import KnockKnock.Support.Numeral
import KnockKnock.Support.Text

/-!
# The URI parser

`URI::parse` runs one anchored regular expression with nine named groups and
copies the captures into the fields of `URI`; `get_uri` calls it on a default
value and ignores its error.

The Unicode classes `\w` and `\d` belong to the regex crate.  They are a
parameter, with the facts the pattern depends on: both restrict to the usual
ASCII classes, and every decimal digit but no white space is a word character.
-/

namespace KnockKnock

open Backtrack Numeral

/-- The Perl classes of the regex crate. -/
structure CharClasses where
  /-- `\w` -/
  word : Char → Bool
  /-- `\d` -/
  digit : Char → Bool
  word_ascii : ∀ c, c.toNat < 128 → word c = (c.isAlphanum || c == '_')
  digit_ascii : ∀ c, c.toNat < 128 → digit c = c.isDigit
  word_of_digit : ∀ c, digit c = true → word c = true
  not_whitespace_of_word : ∀ c, word c = true → Str.isWhitespace c = false

theorem isWhitespace_of_ascii_word {c : Char}
    (hc : (c.isAlphanum || c == '_') = true) : Str.isWhitespace c = false := by
  simp only [Char.isAlphanum, Char.isAlpha, Char.isUpper, Char.isLower,
    Char.isDigit, ge_iff_le, Bool.or_eq_true, Bool.and_eq_true,
    decide_eq_true_eq, beq_iff_eq, UInt32.le_iff_toNat_le] at hc
  have hrange : 48 ≤ c.toNat ∧ c.toNat ≤ 122 := by
    rcases hc with ((⟨h, h'⟩ | ⟨h, h'⟩) | ⟨h, h'⟩) | rfl
    · change 65 ≤ c.toNat at h
      change c.toNat ≤ 90 at h'
      omega
    · change 97 ≤ c.toNat at h
      change c.toNat ≤ 122 at h'
      omega
    · change 48 ≤ c.toNat at h
      change c.toNat ≤ 57 at h'
      omega
    · decide
  simp only [Str.isWhitespace, Bool.or_eq_false_iff, Bool.and_eq_false_iff,
    decide_eq_false_iff_not, beq_eq_false_iff_ne]
  omega

/-- The classes on texts without characters beyond ASCII. -/
def CharClasses.ascii : CharClasses where
  word c := c.isAlphanum || c == '_'
  digit := Char.isDigit
  word_ascii _ _ := rfl
  digit_ascii _ _ := rfl
  word_of_digit c hc := by simp [Char.isAlphanum, hc]
  not_whitespace_of_word _ hc := isWhitespace_of_ascii_word hc

/-- The named groups of the pattern. -/
inductive Group where
  | scheme
  | username
  | password
  | host
  | domain
  | port
  | path
  | query
  | fragment
deriving DecidableEq, Repr

/-- `[^/?#]` -/
def schemeChar (c : Char) : Bool := c != '/' && c != '?' && c != '#'

/-- `[^/?#:]` -/
def domainChar (c : Char) : Bool :=
  c != '/' && c != '?' && c != '#' && c != ':'

/-- `[^?#]` -/
def pathChar (c : Char) : Bool := c != '?' && c != '#'

/-- `[^#]` -/
def queryChar (c : Char) : Bool := c != '#'

/-- `.` -/
def anyChar (c : Char) : Bool := c != '\n'

namespace Pattern

open Backtrack.Pattern

/-- `((?P<scheme>[^/?#]+)://)?` -/
def scheme : Backtrack.Pattern Char Group :=
  opt (seq (group .scheme (plus schemeChar)) (literal [':', '/', '/']))

/-- `((?P<username>\w+):(?P<password>\w+)@)?` -/
def userinfo (U : CharClasses) : Backtrack.Pattern Char Group :=
  opt (seq (group .username (plus U.word))
    (seq (letter ':') (seq (group .password (plus U.word)) (letter '@'))))

/-- `(?P<host>(?P<domain>[^/?#:]+)(:(?P<port>\d*))?)?` -/
def host (U : CharClasses) : Backtrack.Pattern Char Group :=
  opt (group .host (seq (group .domain (plus domainChar))
    (opt (seq (letter ':') (group .port (many U.digit))))))

/-- `(?P<path>[^?#]*)` -/
def path : Backtrack.Pattern Char Group := group .path (many pathChar)

/-- `(\?(?P<query>[^#]*))?` -/
def query : Backtrack.Pattern Char Group :=
  opt (seq (letter '?') (group .query (many queryChar)))

/-- `(#(?P<fragment>.*))?` -/
def fragment : Backtrack.Pattern Char Group :=
  opt (seq (letter '#') (group .fragment (many anyChar)))

/-- `rg_w_named` -/
def uri (U : CharClasses) : Backtrack.Pattern Char Group :=
  seq scheme (seq (userinfo U) (seq (host U) (seq path (seq query fragment))))

end Pattern

structure URI where
  scheme : Text
  username : Text
  password : Text
  host : Text
  domain : Text
  port : ℤ
  path : Text
  query : Text
  fragment : Text
deriving DecidableEq, Repr

namespace URI

/-- `URI::default()` -/
def default : URI where
  scheme := []
  username := []
  password := []
  host := []
  domain := []
  port := 0
  path := ['/']
  query := []
  fragment := []

/-- `rg_w_named.captures(url)` -/
def captures (U : CharClasses) (url : Text) : Option (Match Char Group) :=
  (Pattern.uri U).firstMatch url

/-- The port the captures set. -/
def capturedPort (uriParser : Match Char Group) : Outcome ℤ :=
  match uriParser.name .port with
  | some v => Outcome.unwrap (parseI32 v)
  | none => pure 0

def parse (U : CharClasses) (url : Text) : Outcome URI :=
  match captures U url with
  | some uriParser => do
      let port ← capturedPort uriParser
      pure {
        scheme := (uriParser.name .scheme).getD []
        username := (uriParser.name .username).getD []
        password := (uriParser.name .password).getD []
        host := (uriParser.name .host).getD []
        domain := (uriParser.name .domain).getD []
        port := port
        path := (uriParser.name .path).getD ['/']
        query := (uriParser.name .query).getD []
        fragment := (uriParser.name .fragment).getD [] }
  | none => Outcome.fail .invalidData "Invalid url".toList

end URI

/-- An error of `parse` is ignored, a panic is not. -/
def getUri (U : CharClasses) (url : Text) : Outcome URI :=
  match URI.parse U url with
  | .ok uri => .ok uri
  | .error (.error _ _) => .ok URI.default
  | .error .panic => .error .panic

end KnockKnock
