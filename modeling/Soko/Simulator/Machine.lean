import Soko.Library.Runs
import Soko.Simulator.Simulation

/-!
The points of a run of `run_simulation_case`. `SimCase.step` executes the loops in
steps between which an invariant can be looked at: a credit in the loop of
`settle_refills`, the `maybe_start_refill` after it, an attempt, the
`maybe_start_refill` after that. `Visits.induct` is the rule for what holds at every
point, and the functions of `Soko.Simulator.Simulation` go through these points
(`simulate_visits`).
-/

namespace Soko.Simulator

open Soko.Library

/-- Where `run_simulation_case` is. `last` marks the call of `settle_refills` after the
main loop. -/
inductive SimPoint
  /-- At the test of the main loop. -/
  | loopHead
  /-- At the test of the loop of `settle_refills`. -/
  | settleHead (last : Bool)
  /-- A refill was credited. -/
  | credited (last : Bool)
  /-- `settle_refills` has returned. -/
  | settled
  /-- The arrival was served or starved. -/
  | attempted
  /-- `maybe_start_refill` has returned. -/
  | started
  /-- The last `settle_refills` has returned. -/
  | finished
  deriving DecidableEq

/-- The argument `now` of a call of `settle_refills`. -/
def SimState.now (last : Bool) (s : SimState) : ℚ :=
  if last then s.simulatedEndTime else s.nextArrivalTime

namespace SimCase

variable (c : SimCase)

def step : SimPoint × SimState → Option (SimPoint × SimState)
  | (.loopHead, s) =>
      if c.unserved s then some (.settleHead false, s) else some (.settleHead true, s)
  | (.settleHead last, s) =>
      if s.refillComplete (s.now last) then some (.credited last, s.creditRefill (s.now last))
      else some (if last then .finished else .settled, s)
  | (.credited last, s) =>
      some (.settleHead last, c.maybeStartRefill s.refillCompleteTime s)
  | (.settled, s) => some (.attempted, s.attempt)
  | (.attempted, s) => some (.started, c.afterAttempt s)
  | (.started, s) => some (.loopHead, c.advance s)
  | (.finished, _) => none

/-- `q` is reached from `p`. -/
abbrev Steps (p q : SimPoint × SimState) : Prop :=
  Reaches (fun _ : Unit => c.step) anyAction p q

def Visits (point : SimPoint) (s : SimState) : Prop :=
  c.Steps (.loopHead, c.initial) (point, s)

end SimCase

variable {c : SimCase} {s t : SimState} {fuel : ℕ}

theorem SimCase.Steps.single {p q : SimPoint × SimState} (h : c.step p = some q) : c.Steps p q :=
  Reaches.refl.tail (a := ()) trivial h

theorem SimCase.Visits.induct {point : SimPoint} (h : c.Visits point s)
    (I : SimPoint → SimState → Prop) (initial : I .loopHead c.initial)
    (enter : ∀ s, c.Visits .loopHead s → I .loopHead s → c.unserved s = true →
      I (.settleHead false) s)
    (leave : ∀ s, c.Visits .loopHead s → I .loopHead s → c.unserved s = false →
      I (.settleHead true) s)
    (credit : ∀ last s, c.Visits (.settleHead last) s → I (.settleHead last) s →
      s.refillComplete (s.now last) = true → I (.credited last) (s.creditRefill (s.now last)))
    (chain : ∀ last s, c.Visits (.credited last) s → I (.credited last) s →
      I (.settleHead last) (c.maybeStartRefill s.refillCompleteTime s))
    (settle : ∀ s, c.Visits (.settleHead false) s → I (.settleHead false) s →
      s.refillComplete (s.now false) = false → I .settled s)
    (finish : ∀ s, c.Visits (.settleHead true) s → I (.settleHead true) s →
      s.refillComplete (s.now true) = false → I .finished s)
    (attempt : ∀ s, c.Visits .settled s → I .settled s → I .attempted s.attempt)
    (start : ∀ s, c.Visits .attempted s → I .attempted s → I .started (c.afterAttempt s))
    (advance : ∀ s, c.Visits .started s → I .started s → I .loopHead (c.advance s)) :
    I point s := by
  refine (Reaches.invariant h (fun p => c.Visits p.1 p.2 ∧ I p.1 p.2) ⟨.refl, initial⟩ ?_).2
  rintro ⟨⟩ ⟨point, s⟩ ⟨point', t⟩ ⟨hvisits, hI⟩ - hs
  refine ⟨hvisits.tail (a := ()) trivial hs, ?_⟩
  cases point with
  | loopHead =>
      simp only [SimCase.step] at hs
      split at hs <;> cases hs
      · exact enter s hvisits hI ‹_›
      · exact leave s hvisits hI (Bool.eq_false_iff.mpr ‹_›)
  | settleHead last =>
      simp only [SimCase.step] at hs
      split at hs <;> cases hs
      · exact credit last s hvisits hI ‹_›
      · cases last with
        | false => exact settle s hvisits hI (Bool.eq_false_iff.mpr ‹_›)
        | true => exact finish s hvisits hI (Bool.eq_false_iff.mpr ‹_›)
  | credited last =>
      cases hs
      exact chain last s hvisits hI
  | settled =>
      cases hs
      exact attempt s hvisits hI
  | attempted =>
      cases hs
      exact start s hvisits hI
  | started =>
      cases hs
      exact advance s hvisits hI
  | finished => contradiction

@[simp] theorem now_maybeStartRefill (last : Bool) (now : ℚ) (s : SimState) :
    (c.maybeStartRefill now s).now last = s.now last :=
  maybeStartRefill_frame (SimState.now last) (fun _ _ _ => rfl) c now

@[simp] theorem now_settleRefill (last : Bool) (now : ℚ) (s : SimState) :
    (c.settleRefill now s).now last = s.now last :=
  (now_maybeStartRefill last _ _).trans rfl

/-- `settle_refills` goes through the points of its loop. -/
theorem settleRefills_steps (last : Bool) (h : c.settleRefills (s.now last) fuel s = some t) :
    c.Steps (.settleHead last, s) (if last then .finished else .settled, t) := by
  have hbody : ∀ u v, (c.Steps (.settleHead last, s) (.settleHead last, u) ∧
      u.now last = s.now last) → u.refillComplete (s.now last) = true →
      some (c.settleRefill (s.now last) u) = some v →
      c.Steps (.settleHead last, s) (.settleHead last, v) ∧ v.now last = s.now last := by
    rintro u v ⟨hsteps, hnow⟩ hcond hv
    obtain rfl := Option.some.inj hv
    rw [now_settleRefill]
    refine ⟨?_, hnow⟩
    rw [← hnow] at hcond ⊢
    have hcredit : c.Steps (.settleHead last, u) (.credited last, u.creditRefill (u.now last)) :=
      .single (by simp [SimCase.step, hcond])
    exact (hsteps.trans hcredit).tail (a := ()) trivial rfl
  obtain ⟨⟨hsteps, hnow⟩, hexit⟩ := whileLoop_invariant
    (fun u => c.Steps (.settleHead last, s) (.settleHead last, u) ∧ u.now last = s.now last)
    ⟨.refl, rfl⟩ hbody h
  rw [← hnow] at hexit
  exact hsteps.tail (a := ()) trivial (by simp [SimCase.step, hexit])

/-- An arrival goes from one test of the main loop to the next. -/
theorem arrival_steps (hunserved : c.unserved s = true) (h : c.arrival fuel s = some t) :
    c.Steps (.loopHead, s) (.loopHead, t) := by
  obtain ⟨u, hu, rfl⟩ := Option.map_eq_some_iff.mp h
  have henter : c.Steps (.loopHead, s) (.settleHead false, s) :=
    .single (by simp [SimCase.step, hunserved])
  have hsettle := settleRefills_steps false hu
  exact (((henter.trans hsettle).tail (a := ()) trivial rfl).tail (a := ()) trivial rfl).tail
    (a := ()) trivial rfl

theorem mainLoop_steps (h : c.mainLoop fuel s = some t) :
    c.Steps (.loopHead, s) (.loopHead, t) ∧ c.unserved t = false :=
  whileLoop_invariant (fun u => c.Steps (.loopHead, s) (.loopHead, u)) .refl
    (fun _ _ hu hcond hbody => hu.trans (arrival_steps hcond hbody)) h

/-- What `run_simulation_case` reports is the state at the last point of a run. -/
theorem simulate_visits (h : c.simulate fuel = some s) : c.Visits .finished s := by
  obtain ⟨t, ht, h⟩ := Option.bind_eq_some_iff.mp h
  obtain ⟨hsteps, hserved⟩ := mainLoop_steps ht
  have hleave : c.Steps (.loopHead, t) (.settleHead true, t) :=
    .single (by simp [SimCase.step, hserved])
  exact (hsteps.trans hleave).trans (settleRefills_steps true h)

end Soko.Simulator
