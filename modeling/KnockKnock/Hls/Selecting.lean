import KnockKnock.Hls.Playlist
import KnockKnock.Support.Until

/-!
# The line behind a tag

The loop for the tag and the loop for the URL take their lines from one
iterator.  What they select is the first line behind the first tag that is
neither blank nor a comment: a later tag is a comment to the inner loop, and
once that has run off the end nothing is left for the outer one.
-/

namespace KnockKnock

open Trace

namespace Hls

variable {tag l : Text} {lines : List Text}

/-! ## The two loops -/

/-- The inner loop, with the lines it leaves in the iterator. -/
def innerLoop : List Text → Option Text × List Text
  | [] => (none, [])
  | next :: rest =>
      let next := Str.trim next
      if next ≠ [] ∧ ¬['#'] <+: next then (some next, rest)
      else innerLoop rest

theorem length_innerLoop_le (lines : List Text) :
    (innerLoop lines).2.length ≤ lines.length := by
  induction lines with
  | nil => exact le_rfl
  | cons next rest ih =>
      unfold innerLoop
      dsimp only
      split
      · exact Nat.le_succ _
      · exact Nat.le_succ_of_le ih

/-- The outer loop goes on where the inner one has left off. -/
def outerLoop (tag : Text) : List Text → Option Text
  | [] => none
  | line :: rest =>
      if tag <+: Str.trimStart line then
        match (innerLoop rest).1 with
        | some url => some url
        | none => outerLoop tag (innerLoop rest).2
      else outerLoop tag rest
termination_by lines => lines.length
decreasing_by
  · exact Nat.lt_succ_of_le (length_innerLoop_le rest)
  · exact Nat.lt_succ_self _

theorem innerLoop_fst (lines : List Text) :
    (innerLoop lines).1 = nextUrl lines := by
  induction lines with
  | nil => rfl
  | cons next rest ih =>
      unfold innerLoop nextUrl
      dsimp only
      split
      · rfl
      · exact ih

/-- An inner loop that finds nothing has used the iterator up. -/
theorem innerLoop_snd (h : nextUrl lines = none) : (innerLoop lines).2 = [] := by
  induction lines with
  | nil => rfl
  | cons next rest ih =>
      unfold nextUrl at h
      dsimp only at h
      split at h
      · cases h
      next hskip =>
        unfold innerLoop
        dsimp only
        rw [if_neg hskip]
        exact ih h

theorem outerLoop_eq (tag : Text) (lines : List Text) :
    outerLoop tag lines = urlBehind tag lines := by
  induction lines with
  | nil =>
      rw [outerLoop]
      rfl
  | cons line rest ih =>
      rw [outerLoop, urlBehind, innerLoop_fst, ih]
      split
      · cases h : nextUrl rest with
        | some url => rfl
        | none =>
            dsimp only
            rw [innerLoop_snd h, outerLoop]
      · rfl

/-! ## What they select -/

/-- The line of a tag. -/
def IsTag (tag line : Text) : Prop := tag <+: Str.trimStart line

/-- A line that is neither blank nor a comment. -/
def IsUrl (line : Text) : Prop :=
  Str.trim line ≠ [] ∧ ¬['#'] <+: Str.trim line

theorem nextUrl_eq_some_iff :
    nextUrl lines = some l ↔
      First IsUrl (fun line _ => l = Str.trim line) lines := by
  induction lines with
  | nil => exact iff_of_false nofun not_first_nil
  | cons next rest ih =>
      by_cases hurl : IsUrl next
      · have hfound : nextUrl (next :: rest) = some (Str.trim next) :=
          if_pos hurl
        rw [hfound, first_cons_of_pos hurl, Option.some.injEq]
        exact eq_comm
      · have hskipped : nextUrl (next :: rest) = nextUrl rest := if_neg hurl
        rw [hskipped, first_cons_of_neg hurl]
        exact ih

theorem urlBehind_eq_some_iff :
    urlBehind tag lines = some l ↔
      First (IsTag tag)
        (fun _ rest => First IsUrl (fun line _ => l = Str.trim line) rest)
        lines := by
  induction lines with
  | nil => exact iff_of_false nofun not_first_nil
  | cons line rest ih =>
      by_cases htag : IsTag tag line
      · have hfound : urlBehind tag (line :: rest) = nextUrl rest :=
          if_pos htag
        rw [hfound, first_cons_of_pos htag]
        exact nextUrl_eq_some_iff
      · have hskipped : urlBehind tag (line :: rest) = urlBehind tag rest :=
          if_neg htag
        rw [hskipped, first_cons_of_neg htag]
        exact ih

/-- Any tag and any URL behind it are enough. -/
theorem exists_urlBehind_iff :
    (∃ l, urlBehind tag lines = some l) ↔
      ∃ front line rest, lines = front ++ line :: rest ∧ IsTag tag line ∧
        ∃ later ∈ rest, IsUrl later := by
  simp only [urlBehind_eq_some_iff, exists_first, exists_eq,
    exists_first_iff]
  apply first_iff_exists
  intro _ b front rest _ ⟨later, hmem, hurl⟩
  exact ⟨later, by simp [hmem], hurl⟩

/-- What is selected is neither blank nor a comment. -/
theorem url_of_urlBehind (h : urlBehind tag lines = some l) :
    l ≠ [] ∧ ¬['#'] <+: l := by
  obtain ⟨_, _, _, _, _, rest, _, _, hfirst⟩ := urlBehind_eq_some_iff.mp h
  obtain ⟨_, _, _, _, later, _, _, hurl, rfl⟩ := hfirst
  exact hurl

/-- The selection from a playlist: the first URL behind the first tag, if some
URL is behind some tag. -/
structure Selects (tag playlist : Text) (selected : Option Text) : Prop where
  exists_iff : (∃ l, selected = some l) ↔
    ∃ front line rest, Str.lines playlist = front ++ line :: rest ∧
      IsTag tag line ∧ ∃ later ∈ rest, IsUrl later
  first_iff : ∀ l, selected = some l ↔
    ∃ front line between later behind,
      Str.lines playlist = front ++ line :: (between ++ later :: behind) ∧
      (∀ other ∈ front, ¬IsTag tag other) ∧ IsTag tag line ∧
      (∀ other ∈ between, ¬IsUrl other) ∧ IsUrl later ∧ l = Str.trim later
  url : ∀ l, selected = some l → l ≠ [] ∧ ¬['#'] <+: l
  loops : selected = outerLoop tag (Str.lines playlist)

theorem selects_urlBehind (tag playlist : Text) :
    Selects tag playlist (urlBehind tag (Str.lines playlist)) where
  exists_iff := exists_urlBehind_iff
  first_iff := by
    intro l
    rw [urlBehind_eq_some_iff]
    constructor
    · intro ⟨front, _, hlines, hfront, line, _, hrest, htag, between, _,
        hbehind, hbetween, later, behind, hlater, hurl, hl⟩
      subst hrest hbehind hlater
      exact ⟨front, line, between, later, behind, hlines, hfront, htag,
        hbetween, hurl, hl⟩
    · intro ⟨front, line, between, later, behind, hlines, hfront, htag,
        hbetween, hurl, hl⟩
      exact ⟨front, _, hlines, hfront, line, _, rfl, htag, between, _, rfl,
        hbetween, later, behind, rfl, hurl, hl⟩
  url := fun _ h => url_of_urlBehind h
  loops := (outerLoop_eq tag _).symm

/-- Variants and segments are selected by their tags, from the lines that were
written with any mix of line ends. -/
theorem firstUrls_select :
    (∀ playlist,
      Selects "#EXT-X-STREAM-INF".toList playlist
          (firstVariantUrl playlist) ∧
        Selects "#EXTINF".toList playlist (firstSegmentUrl playlist)) ∧
      ∀ (written : List (Bool × Text)) (last : Text),
        (∀ w ∈ written, '\n' ∉ w.2) →
        (∀ w ∈ written, w.2.getLast? ≠ some '\r') → '\n' ∉ last →
        Str.lines (written.flatMap (fun w => Str.endLine w.1 w.2) ++ last) =
          written.map Prod.snd ++ if last = [] then [] else [last] := by
  refine ⟨fun playlist => ⟨selects_urlBehind _ _, selects_urlBehind _ _⟩, ?_⟩
  intro written last hlf hcr hlast
  rw [Str.lines_endLines hlf hcr]
  by_cases hnil : last = []
  · rw [hnil]
    rfl
  · rw [if_neg hnil, Str.lines_of_not_mem hnil hlast]

end Hls

end KnockKnock
