import Mathlib.Data.Set.Insert
import Mathlib.Logic.Function.Basic
import Mathlib.Logic.Relation

/-!
# One responder and its clients over datagrams

A responder answers each datagram that it receives with at most one, out of a
state that it keeps.  Its clients open with one datagram, and judge the first
that comes back.  The network is everything that has ever been sent: what was
sent may be delivered late, out of order, any number of times or never.
Datagrams from elsewhere may reach the responder, and a socket may fail.
-/

namespace Datagram

universe u v w x y

variable {ι : Type u} {π : Type v} {σ : Type w} {δ : Type x} {ρ : Type y}

/-- A socket that answers; a receive that fails leaves it in another state or
ends it. -/
structure Responder (σ : Type w) (δ : Type x) where
  start : σ
  serve : σ → δ → σ × Option δ
  failed : σ → Option σ

/-- The states in which a responder waits. -/
inductive Responder.Visits (R : Responder σ δ) : σ → Prop where
  | start : R.Visits R.start
  | serve {s : σ} (d : δ) (h : R.Visits s) : R.Visits (R.serve s d).1
  | failed {s s' : σ} (h : R.Visits s) (hs : R.failed s = some s') :
      R.Visits s'

/-- In whatever state a responder waits, its answer depends on the datagram
alone. -/
def Responder.Answers (R : Responder σ δ) (answer : δ → Option δ) : Prop :=
  ∀ s, R.Visits s → ∀ d, (R.serve s d).2 = answer d

/-- A client has a port; it opens with a verdict of its own or with a datagram,
and makes a verdict of what comes back. -/
structure Clients (ι : Type u) (π : Type v) (δ : Type x) (ρ : Type y) where
  port : ι → π
  opening : ι → Except ρ δ
  judge : ι → δ → ρ

/-- What has become of a client. -/
inductive Phase (ρ : Type y) where
  | ready
  | waiting
  | ended (verdict : ρ)
  | lost

/-- The clients, the responder while it runs, and all datagrams ever sent to it
and by it, with the ports at which they came and go. -/
structure World (ι : Type u) (π : Type v) (σ : Type w) (δ : Type x)
    (ρ : Type y) where
  phase : ι → Phase ρ
  responder : Option σ
  asked : Set (π × δ)
  answered : Set (π × δ)

variable (R : Responder σ δ) (C : Clients ι π δ ρ) (foreign : Set (π × δ))

/-- Nobody has sent anything. -/
def World.start : World ι π σ δ ρ :=
  ⟨fun _ => .ready, some R.start, ∅, ∅⟩

section

variable [DecidableEq ι]

/-- The world with a client in another phase. -/
def World.turn (w : World ι π σ δ ρ) (i : ι) (p : Phase ρ) :
    World ι π σ δ ρ :=
  { w with phase := Function.update w.phase i p }

/-- What happens next: a client opens, a datagram of `foreign` is sent, the
responder answers something that was sent or fails, a client receives
something that was sent to it, or hears nothing. -/
inductive Step : World ι π σ δ ρ → World ι π σ δ ρ → Prop where
  | refuse {w : World ι π σ δ ρ} (i : ι) {v : ρ} (hi : w.phase i = .ready)
      (hv : C.opening i = .error v) : Step w (w.turn i (.ended v))
  | send {w : World ι π σ δ ρ} (i : ι) {d : δ} (hi : w.phase i = .ready)
      (hd : C.opening i = .ok d) :
      Step w { w.turn i .waiting with
        asked := insert (C.port i, d) w.asked }
  | disturb {w : World ι π σ δ ρ} {x : π × δ} (hx : x ∈ foreign) :
      Step w { w with asked := insert x w.asked }
  | serve {w : World ι π σ δ ρ} {s : σ} {a : π} {d : δ}
      (hs : w.responder = some s) (hd : (a, d) ∈ w.asked) :
      Step w { w with
        responder := some (R.serve s d).1
        answered := w.answered ∪ { x | x.1 = a ∧ (R.serve s d).2 = some x.2 } }
  | fail {w : World ι π σ δ ρ} {s : σ} (hs : w.responder = some s) :
      Step w { w with responder := R.failed s }
  | receive {w : World ι π σ δ ρ} (i : ι) {d : δ} (hi : w.phase i = .waiting)
      (hd : (C.port i, d) ∈ w.answered) :
      Step w (w.turn i (.ended (C.judge i d)))
  | lose {w : World ι π σ δ ρ} (i : ι)
      (hi : w.phase i = .ready ∨ w.phase i = .waiting) :
      Step w (w.turn i .lost)

/-- A world that some order of events reaches. -/
def Reachable : World ι π σ δ ρ → Prop :=
  Relation.ReflTransGen (Step R C foreign) (World.start R)

end

/-! ## Where everything comes from -/

/-- Everything that was asked is a client's opening or foreign, everything that
was answered answers something asked, and every verdict was made of one or the
other. -/
structure Accounted (w : World ι π σ δ ρ) : Prop where
  visited : ∀ s, w.responder = some s → R.Visits s
  asked : ∀ x ∈ w.asked, x ∈ foreign ∨
    ∃ i, w.phase i ≠ .ready ∧ C.port i = x.1 ∧ C.opening i = .ok x.2
  answered : ∀ x ∈ w.answered, ∃ s d, R.Visits s ∧ (x.1, d) ∈ w.asked ∧
    (R.serve s d).2 = some x.2
  waiting : ∀ i, w.phase i = .waiting → ∃ d, C.opening i = .ok d ∧
    (C.port i, d) ∈ w.asked
  ended : ∀ i v, w.phase i = .ended v → C.opening i = .error v ∨
    ∃ q d, C.opening i = .ok q ∧ (C.port i, d) ∈ w.answered ∧ v = C.judge i d

variable {R C foreign} {w w' : World ι π σ δ ρ} {answer : δ → Option δ}

theorem accounted_start :
    Accounted R C foreign (World.start R : World ι π σ δ ρ) where
  visited s hs := by
    obtain rfl := Option.some.inj hs
    exact .start
  asked x hx := hx.elim
  answered x hx := hx.elim
  waiting i hi := by cases hi
  ended i v hi := by cases hi

/-- One more datagram from elsewhere. -/
theorem Accounted.disturb (h : Accounted R C foreign w) {x : π × δ}
    (hx : x ∈ foreign) :
    Accounted R C foreign { w with asked := insert x w.asked } where
  visited := h.visited
  asked y hy := by
    obtain rfl | hy := hy
    · exact .inl hx
    · exact h.asked y hy
  answered y hy := by
    obtain ⟨s, d, hs, hd, hanswer⟩ := h.answered y hy
    exact ⟨s, d, hs, .inr hd, hanswer⟩
  waiting i hi := by
    obtain ⟨d, hd, hasked⟩ := h.waiting i hi
    exact ⟨d, hd, .inr hasked⟩
  ended := h.ended

theorem Accounted.serve (h : Accounted R C foreign w) {s : σ} {a : π} {d : δ}
    (hs : w.responder = some s) (hd : (a, d) ∈ w.asked) :
    Accounted R C foreign { w with
      responder := some (R.serve s d).1
      answered := w.answered ∪
        { x | x.1 = a ∧ (R.serve s d).2 = some x.2 } } where
  visited s' hs' := by
    obtain rfl := Option.some.inj hs'
    exact .serve d (h.visited s hs)
  asked := h.asked
  answered x hx := by
    obtain hx | ⟨rfl, hx⟩ := hx
    · exact h.answered x hx
    · exact ⟨s, d, h.visited s hs, hd, hx⟩
  waiting := h.waiting
  ended i v hi := by
    obtain hv | ⟨q, r, hq, hr, hv⟩ := h.ended i v hi
    · exact .inl hv
    · exact .inr ⟨q, r, hq, .inl hr, hv⟩

variable [DecidableEq ι]

/-- A client that turns into a phase that it can account for, with what it
sends as it does. -/
theorem Accounted.turn (h : Accounted R C foreign w) {i : ι} {p : Phase ρ}
    {sent : Set δ} (hp : p ≠ .ready)
    (hsent : ∀ d ∈ sent, C.opening i = .ok d)
    (hwaiting : p = .waiting → ∃ d, C.opening i = .ok d ∧
      ((C.port i, d) ∈ w.asked ∨ d ∈ sent))
    (hended : ∀ v, p = .ended v → C.opening i = .error v ∨
      ∃ q d, C.opening i = .ok q ∧ (C.port i, d) ∈ w.answered ∧
        v = C.judge i d) :
    Accounted R C foreign { w.turn i p with
      asked := w.asked ∪ { x | x.1 = C.port i ∧ x.2 ∈ sent } } where
  visited := h.visited
  asked x hx := by
    obtain hx | ⟨hport, hx⟩ := hx
    · refine (h.asked x hx).imp_right ?_
      rintro ⟨j, hj, hopening⟩
      refine ⟨j, ?_, hopening⟩
      by_cases hji : j = i
      · subst hji
        simpa [World.turn] using hp
      · simpa [World.turn, hji] using hj
    · exact .inr ⟨i, by simpa [World.turn] using hp, hport.symm, hsent _ hx⟩
  answered x hx := by
    obtain ⟨s, d, hs, hd, hanswer⟩ := h.answered x hx
    exact ⟨s, d, hs, .inl hd, hanswer⟩
  waiting j hj := by
    by_cases hji : j = i
    · subst hji
      obtain ⟨d, hd, hasked⟩ := hwaiting (by simpa [World.turn] using hj)
      exact ⟨d, hd, hasked.imp_right fun hmem => ⟨rfl, hmem⟩⟩
    · obtain ⟨d, hd, hasked⟩ := h.waiting j (by simpa [World.turn, hji] using hj)
      exact ⟨d, hd, .inl hasked⟩
  ended j v hj := by
    by_cases hji : j = i
    · subst hji
      exact hended v (by simpa [World.turn] using hj)
    · exact h.ended j v (by simpa [World.turn, hji] using hj)

/-- A client that ends sends nothing. -/
theorem Accounted.close (h : Accounted R C foreign w) {i : ι} {p : Phase ρ}
    (hready : p ≠ .ready) (hwaiting : p ≠ .waiting)
    (hended : ∀ v, p = .ended v → C.opening i = .error v ∨
      ∃ q d, C.opening i = .ok q ∧ (C.port i, d) ∈ w.answered ∧
        v = C.judge i d) :
    Accounted R C foreign (w.turn i p) := by
  have hnone : w.asked ∪ { x : π × δ | x.1 = C.port i ∧ x.2 ∈ (∅ : Set δ) } =
      w.asked := by
    simp
  have hsent : ∀ d ∈ (∅ : Set δ), C.opening i = .ok d := fun _ hd => hd.elim
  have hturn := h.turn hready hsent (fun heq => absurd heq hwaiting) hended
  rw [hnone] at hturn
  exact hturn

theorem Accounted.step (h : Accounted R C foreign w)
    (hstep : Step R C foreign w w') : Accounted R C foreign w' := by
  cases hstep with
  | refuse i hi hv =>
      refine h.close (by simp) (by simp) fun v hp => ?_
      cases hp
      exact .inl hv
  | @send i d hi hd =>
      have hsent : ∀ x ∈ ({d} : Set δ), C.opening i = .ok x := by
        intro x hx
        rw [Set.mem_singleton_iff.mp hx, hd]
      have hturn := h.turn (p := .waiting) (by simp) hsent
        (fun _ => ⟨d, hd, .inr rfl⟩) fun v hp => by cases hp
      have hinsert : w.asked ∪ { x | x.1 = C.port i ∧ x.2 ∈ ({d} : Set δ) } =
          insert (C.port i, d) w.asked := by
        ext x
        rw [Set.mem_insert_iff, or_comm, Prod.ext_iff]
        rfl
      rw [hinsert] at hturn
      exact hturn
  | disturb hx => exact h.disturb hx
  | serve hs hd => exact h.serve hs hd
  | fail hs => exact { h with visited := fun _ => .failed (h.visited _ hs) }
  | receive i hi hd =>
      refine h.close (by simp) (by simp) fun v hp => ?_
      cases hp
      obtain ⟨q, hq, -⟩ := h.waiting i hi
      exact .inr ⟨q, _, hq, hd, rfl⟩
  | lose i hi => exact h.close (by simp) (by simp) fun v hp => by cases hp

theorem Reachable.accounted (h : Reachable R C foreign w) :
    Accounted R C foreign w := by
  induction h with
  | refl => exact accounted_start
  | tail _ hstep ih => exact ih.step hstep

/-! ## What a verdict rests on -/

/-- A client that has ended did so on its own, or on the answer to something
that was sent from its port. -/
theorem Reachable.verdict (h : Reachable R C foreign w)
    (hR : R.Answers answer) {i : ι} {v : ρ} (hi : w.phase i = .ended v) :
    C.opening i = .error v ∨
      ∃ q d, (C.port i, q) ∈ w.asked ∧ answer q = some d ∧
        v = C.judge i d := by
  obtain hv | ⟨-, d, -, hd, hv⟩ := h.accounted.ended i v hi
  · exact .inl hv
  · obtain ⟨s, q, hs, hq, hanswer⟩ := h.accounted.answered _ hd
    exact .inr ⟨q, d, hq, (hR s hs q).symm.trans hanswer, hv⟩

/-- Nobody else sends from the port of the client. -/
structure Alone (C : Clients ι π δ ρ) (foreign : Set (π × δ)) (i : ι) :
    Prop where
  clients : ∀ j, C.port j = C.port i → j = i
  foreign : ∀ d, (C.port i, d) ∉ foreign

/-- A client that is alone on its port ended on the answer to its own opening,
whatever the others do. -/
theorem Reachable.verdict_of_alone (h : Reachable R C foreign w)
    (hR : R.Answers answer) {i : ι} (halone : Alone C foreign i) {v : ρ}
    (hi : w.phase i = .ended v) :
    C.opening i = .error v ∨
      ∃ q d, C.opening i = .ok q ∧ answer q = some d ∧ v = C.judge i d := by
  obtain hv | ⟨q, d, hq, hanswer, hv⟩ := h.verdict hR hi
  · exact .inl hv
  · obtain hforeign | ⟨j, -, hport, hopening⟩ := h.accounted.asked _ hq
    · exact absurd hforeign (halone.foreign q)
    · obtain rfl := halone.clients j hport
      exact .inr ⟨q, d, hopening, hanswer, hv⟩

/-- The network forgets nothing that was sent to the responder. -/
theorem Step.asked_subset (h : Step R C foreign w w') :
    w.asked ⊆ w'.asked := by
  cases h with
  | refuse | serve | fail | receive | lose => exact subset_rfl
  | send | disturb => exact Set.subset_insert _ _

theorem asked_subset (h : Relation.ReflTransGen (Step R C foreign) w w') :
    w.asked ⊆ w'.asked := by
  induction h with
  | refl => exact subset_rfl
  | tail _ hstep ih => exact ih.trans hstep.asked_subset

/-! ## What may still happen -/

/-- The world after an answer. -/
def World.served (w : World ι π σ δ ρ) (R : Responder σ δ) (s : σ) (a : π)
    (d : δ) : World ι π σ δ ρ :=
  { w with
    responder := some (R.serve s d).1
    answered := w.answered ∪ { x | x.1 = a ∧ (R.serve s d).2 = some x.2 } }

/-- What has been asked may be answered, and received by whoever waits at the
port. -/
theorem exists_receive {s : σ} {i : ι} {q d : δ} (hs : w.responder = some s)
    (hi : w.phase i = .waiting) (hq : (C.port i, q) ∈ w.asked)
    (hd : (R.serve s q).2 = some d) :
    ∃ w', Relation.ReflTransGen (Step R C foreign) w w' ∧
      w'.phase = Function.update w.phase i (.ended (C.judge i d)) := by
  have hserve : Step R C foreign w (w.served R s (C.port i) q) :=
    .serve hs hq
  have hreceive : Step R C foreign (w.served R s (C.port i) q)
      ((w.served R s (C.port i) q).turn i (.ended (C.judge i d))) :=
    .receive i hi (.inr ⟨rfl, hd⟩)
  exact ⟨_, .tail (.single hserve) hreceive, rfl⟩

/-- As long as the responder runs, whatever has happened, a client that has not
ended may end on the answer to its opening, and nobody else notices. -/
theorem Reachable.exists_verdict (h : Reachable R C foreign w)
    (hR : R.Answers answer) {s : σ} (hs : w.responder = some s) {i : ι}
    (hi : w.phase i = .ready ∨ w.phase i = .waiting) {q d : δ}
    (hq : C.opening i = .ok q) (hd : answer q = some d) :
    ∃ w', Relation.ReflTransGen (Step R C foreign) w w' ∧
      w'.phase = Function.update w.phase i (.ended (C.judge i d)) := by
  have hserve : (R.serve s q).2 = some d :=
    (hR s (h.accounted.visited s hs) q).trans hd
  obtain hready | hwaiting := hi
  · let sent : World ι π σ δ ρ :=
      { w.turn i .waiting with asked := insert (C.port i, q) w.asked }
    have hsend : Step R C foreign w sent := .send i hready hq
    have hphase : sent.phase i = .waiting := Function.update_self _ _ _
    obtain ⟨w', hrun, hw'⟩ := exists_receive (w := sent) hs hphase (.inl rfl)
      hserve
    refine ⟨w', .head hsend hrun, ?_⟩
    rw [hw']
    exact Function.update_idem _ _ _
  · obtain ⟨q', hq', hasked⟩ := h.accounted.waiting i hwaiting
    obtain rfl := Except.ok.inj (hq.symm.trans hq')
    exact exists_receive hs hwaiting hasked hserve

end Datagram
