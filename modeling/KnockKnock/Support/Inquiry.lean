import Mathlib.Data.List.Basic

/-!
# Programs that ask an environment

An `Inquiry` asks questions, one after the other, each of which may depend on
the answers so far; it ends with a value or with a fault.  A run against an
environment gives the result together with all questions that were asked.
-/

/-- A program with its answers still open. -/
def Inquiry (Question Answer Fault α : Type) :=
  (Question → Except Fault Answer) → Except Fault α × List Question

namespace Inquiry

variable {Question Answer Fault α β : Type}

/-- The result of a program, and the questions it asked. -/
def run (p : Inquiry Question Answer Fault α)
    (environment : Question → Except Fault Answer) :
    Except Fault α × List Question :=
  p environment

/-- A step that asks nothing. -/
def lift (result : Except Fault α) : Inquiry Question Answer Fault α :=
  fun _ => (result, [])

/-- A question; a fault of the environment ends the program. -/
def ask (question : Question) : Inquiry Question Answer Fault Answer :=
  fun environment => (environment question, [question])

/-- One program after the other. -/
def andThen (p : Inquiry Question Answer Fault α)
    (f : α → Inquiry Question Answer Fault β) :
    Inquiry Question Answer Fault β :=
  fun environment =>
    match p environment with
    | (.ok a, asked) =>
        ((f a environment).1, asked ++ (f a environment).2)
    | (.error e, asked) => (.error e, asked)

instance : Monad (Inquiry Question Answer Fault) where
  pure a := lift (.ok a)
  bind := andThen

variable {environment : Question → Except Fault Answer}
  {p : Inquiry Question Answer Fault α}
  {f : α → Inquiry Question Answer Fault β}
  {asked : List Question}

/-! ## How a run ends with a value -/

theorem run_lift_eq_ok_iff {result : Except Fault α} {a : α} :
    (lift result : Inquiry Question Answer Fault α).run environment =
      (.ok a, asked) ↔ result = .ok a ∧ asked = [] := by
  rw [run, lift, Prod.mk.injEq, eq_comm (a := [])]

theorem run_pure_eq_ok_iff {a b : α} :
    (pure a : Inquiry Question Answer Fault α).run environment =
      (.ok b, asked) ↔ a = b ∧ asked = [] := by
  change (lift (.ok a) : Inquiry Question Answer Fault α).run environment =
    (.ok b, asked) ↔ _
  rw [run_lift_eq_ok_iff, Except.ok.injEq]

theorem run_ask_eq_ok_iff {question : Question} {answer : Answer} :
    (ask question).run environment = (.ok answer, asked) ↔
      environment question = .ok answer ∧ asked = [question] := by
  rw [run, ask, Prod.mk.injEq, eq_comm (a := [question])]

/-- Both steps have ended with a value, and asked one behind the other. -/
theorem run_bind_eq_ok_iff {b : β} :
    (p >>= f).run environment = (.ok b, asked) ↔
      ∃ a first second, p.run environment = (.ok a, first) ∧
        (f a).run environment = (.ok b, second) ∧ asked = first ++ second := by
  change andThen p f environment = _ ↔ _
  unfold andThen run
  rcases p environment with ⟨e | a, first⟩
  · simp
  · constructor
    · intro h
      obtain ⟨hvalue, hasked⟩ := Prod.mk.inj h
      exact ⟨a, first, _, rfl, Prod.ext hvalue rfl, hasked.symm⟩
    · rintro ⟨a', first', second, hfirst, hsecond, rfl⟩
      cases hfirst
      dsimp only
      rw [hsecond]

/-- A step that asks nothing leaves the questions to the next one. -/
theorem run_lift_bind_eq_ok_iff {result : Except Fault α} {b : β} :
    (lift result >>= f).run environment = (.ok b, asked) ↔
      ∃ a, result = .ok a ∧ (f a).run environment = (.ok b, asked) := by
  rw [run_bind_eq_ok_iff]
  constructor
  · rintro ⟨a, _, second, hlift, hnext, rfl⟩
    obtain ⟨hresult, rfl⟩ := run_lift_eq_ok_iff.mp hlift
    exact ⟨a, hresult, hnext⟩
  · rintro ⟨a, hresult, hnext⟩
    exact ⟨a, [], asked, run_lift_eq_ok_iff.mpr ⟨hresult, rfl⟩, hnext, rfl⟩

/-- A question stands in front of those of the next step. -/
theorem run_ask_bind_eq_ok_iff {question : Question} {b : β}
    {f : Answer → Inquiry Question Answer Fault β} :
    (ask question >>= f).run environment = (.ok b, asked) ↔
      ∃ answer behind, environment question = .ok answer ∧
        (f answer).run environment = (.ok b, behind) ∧
        asked = question :: behind := by
  rw [run_bind_eq_ok_iff]
  constructor
  · rintro ⟨answer, _, behind, hask, hnext, rfl⟩
    obtain ⟨hanswer, rfl⟩ := run_ask_eq_ok_iff.mp hask
    exact ⟨answer, behind, hanswer, hnext, rfl⟩
  · rintro ⟨answer, behind, hanswer, hnext, rfl⟩
    exact ⟨answer, [question], behind,
      run_ask_eq_ok_iff.mpr ⟨hanswer, rfl⟩, hnext, rfl⟩

/-! ## How a run ends at all -/

/-- The result and the questions of a run are as `post` says. -/
def Ensures (p : Inquiry Question Answer Fault α)
    (environment : Question → Except Fault Answer)
    (post : Except Fault α → List Question → Prop) : Prop :=
  post (p.run environment).1 (p.run environment).2

variable {post post' : Except Fault α → List Question → Prop}

theorem Ensures.mono (h : p.Ensures environment post)
    (himp : ∀ result asked, post result asked → post' result asked) :
    p.Ensures environment post' :=
  himp _ _ h

theorem ensures_lift {result : Except Fault α} :
    (lift result : Inquiry Question Answer Fault α).Ensures environment post ↔
      post result [] :=
  Iff.rfl

/-- A fault ends the program, a value is what the next step goes on with. -/
theorem Ensures.bind {post : Except Fault β → List Question → Prop}
    (h : p.Ensures environment fun result asked =>
      (∀ e, result = .error e → post (.error e) asked) ∧
      ∀ a, result = .ok a → (f a).Ensures environment fun result' asked' =>
        post result' (asked ++ asked')) :
    (p >>= f).Ensures environment post := by
  change post (andThen p f environment).1 (andThen p f environment).2
  unfold Ensures run at h
  unfold andThen
  rcases hp : p environment with ⟨e | a, asked⟩ <;> rw [hp] at h
  · exact h.1 e rfl
  · exact h.2 a rfl

theorem Ensures.lift_bind {result : Except Fault α}
    {post : Except Fault β → List Question → Prop}
    (herror : ∀ e, result = .error e → post (.error e) [])
    (hok : ∀ a, result = .ok a → (f a).Ensures environment post) :
    (lift result >>= f).Ensures environment post :=
  Ensures.bind ⟨herror, hok⟩

theorem Ensures.ask_bind {question : Question}
    {f : Answer → Inquiry Question Answer Fault β}
    {post : Except Fault β → List Question → Prop}
    (herror : ∀ e, environment question = .error e →
      post (.error e) [question])
    (hok : ∀ answer, environment question = .ok answer →
      (f answer).Ensures environment fun result asked =>
        post result (question :: asked)) :
    (ask question >>= f).Ensures environment post :=
  Ensures.bind ⟨herror, hok⟩

/-! ## Faults a run does not end with -/

/-- The run does not end with this fault. -/
def Avoids (p : Inquiry Question Answer Fault α)
    (environment : Question → Except Fault Answer) (e : Fault) : Prop :=
  (p.run environment).1 ≠ .error e

variable {e : Fault}

theorem avoids_lift_iff {result : Except Fault α} :
    (lift result : Inquiry Question Answer Fault α).Avoids environment e ↔
      result ≠ .error e :=
  Iff.rfl

theorem avoids_pure (a : α) :
    (pure a : Inquiry Question Answer Fault α).Avoids environment e :=
  nofun

theorem avoids_ask_iff {question : Question} :
    (ask question).Avoids environment e ↔ environment question ≠ .error e :=
  Iff.rfl

/-- The first program avoids it, and so does the second on whatever the first
leaves it. -/
theorem avoids_bind_iff :
    (p >>= f).Avoids environment e ↔ p.Avoids environment e ∧
      ∀ a asked, p.run environment = (.ok a, asked) →
        (f a).Avoids environment e := by
  change (andThen p f environment).1 ≠ .error e ↔
    (p environment).1 ≠ .error e ∧
      ∀ a asked, p environment = (.ok a, asked) → (f a environment).1 ≠ .error e
  unfold andThen
  rcases p environment with ⟨e' | a, asked⟩
  · exact ⟨fun h => ⟨fun he => h (congrArg _ (Except.error.inj he)), nofun⟩,
      fun h he => h.1 (congrArg _ (Except.error.inj he))⟩
  · refine ⟨fun h => ⟨nofun, ?_⟩, fun h => h.2 a asked rfl⟩
    rintro a' asked' heq
    cases heq
    exact h

/-- A step that asks nothing may still be the fault. -/
theorem avoids_lift_bind_iff {result : Except Fault α} :
    (lift result >>= f).Avoids environment e ↔ result ≠ .error e ∧
      ∀ a, result = .ok a → (f a).Avoids environment e := by
  rw [avoids_bind_iff, avoids_lift_iff]
  refine and_congr_right fun _ => ⟨fun h a ha => ?_, fun h a asked hrun => ?_⟩
  · exact h a [] (run_lift_eq_ok_iff.mpr ⟨ha, rfl⟩)
  · exact h a (run_lift_eq_ok_iff.mp hrun).1

theorem avoids_ask_bind_iff {question : Question}
    {f : Answer → Inquiry Question Answer Fault β} :
    (ask question >>= f).Avoids environment e ↔
      environment question ≠ .error e ∧
        ∀ answer, environment question = .ok answer →
          (f answer).Avoids environment e := by
  rw [avoids_bind_iff, avoids_ask_iff]
  refine and_congr_right fun _ => ⟨fun h a ha => ?_, fun h a asked hrun => ?_⟩
  · exact h a _ (run_ask_eq_ok_iff.mpr ⟨ha, rfl⟩)
  · exact h a (run_ask_eq_ok_iff.mp hrun).1

end Inquiry
