import Mathlib.Tactic.FieldSimp
import Soko.Simulator.Timing

/-!
The loops of the simulator end. `settle_refills` fills the queue, whatever the time is;
the main loop serves a token, or a refill that is in flight gets nearer.
-/

namespace Soko.Simulator

open Soko.Library

variable {c : SimCase} {s t u : SimState} {fuel : ℕ}

/-- `settle_refills` ends after at most as many iterations as the queue has slots. -/
theorem settleRefills_returns (h : c.Stock s) (now : ℚ) (hfuel : c.queueCapacity.toNat ≤ fuel) :
    ∃ t, c.settleRefills now fuel s = some t := by
  have hstep : ∀ u, c.Stock u → u.refillComplete now = true →
      ∃ v, some (c.settleRefill now u) = some v ∧ c.Stock v ∧
        (c.queueCapacity - v.queuedTokens).toNat < (c.queueCapacity - u.queuedTokens).toNat := by
    intro u hu hcomplete
    have hflight := (refillComplete_eq_true.mp hcomplete).1
    have hcredit := stock_creditRefill hu hflight now
    refine ⟨_, rfl, stock_maybeStartRefill hcredit _, ?_⟩
    have hbatch := hu.batch_pos hflight
    have hfits := hu.fits
    rw [SimCase.settleRefill, queuedTokens_maybeStartRefill, SimState.creditRefill]
    dsimp only
    omega
  have hqueued := h.queued_nonneg
  obtain ⟨t, ht, -, -⟩ := whileLoop_of_variant c.Stock
    (fun u => (c.queueCapacity - u.queuedTokens).toNat) hstep h
    (le_trans (by omega) hfuel)
  exact ⟨t, ht⟩

/-- Where `maybe_start_refill` has returned, a low queue is being refilled. -/
def SimCase.Refilling (c : SimCase) (point : SimPoint) (s : SimState) : Prop :=
  match point with
  | .credited _ | .attempted => True
  | _ => s.queuedTokens ≤ c.refillThresholdTokens → s.refillInFlight = true

theorem refilling_maybeStartRefill {now : ℚ}
    (hlow : (c.maybeStartRefill now s).queuedTokens ≤ c.refillThresholdTokens) :
    (c.maybeStartRefill now s).refillInFlight = true := by
  obtain ⟨hskip, heq⟩ | ⟨want, -, -, -, -, heq⟩ := maybeStartRefill_cases c now s
  · rw [heq] at hlow ⊢
    exact hskip.resolve_right (not_lt.mpr hlow)
  · rw [heq]

theorem SimCase.Visits.refilling {point : SimPoint} (h : c.Visits point s) :
    c.Refilling point s := by
  refine h.induct c.Refilling ?initial ?enter ?leave ?credit ?chain ?settle ?finish ?attempt
    ?start ?advance
  case initial => exact fun hlow => absurd c.threshold_lt_capacity (not_lt.mpr hlow)
  case enter => exact fun s _ hs _ => hs
  case leave => exact fun s _ hs _ => hs
  case credit => exact fun last s _ _ _ => trivial
  case chain => exact fun last s _ _ => refilling_maybeStartRefill
  case settle => exact fun s _ hs _ => hs
  case finish => exact fun s _ hs _ => hs
  case attempt => exact fun s _ _ => trivial
  case start => exact fun s _ _ => refilling_maybeStartRefill
  case advance => exact fun s _ hs => hs

/-- `settle_refills` leaves the state alone or puts a token into the queue. -/
theorem settleRefills_cases {now : ℚ} (h : c.Stock s)
    (hsettle : c.settleRefills now fuel s = some t) :
    t.servedTokens = s.servedTokens ∧ (t = s ∨ 0 < t.queuedTokens) ∧
      t.refillComplete now = false := by
  have hbody : ∀ u v, (c.Stock u ∧ u.servedTokens = s.servedTokens ∧
      (u = s ∨ 0 < u.queuedTokens)) → u.refillComplete now = true →
      some (c.settleRefill now u) = some v →
      c.Stock v ∧ v.servedTokens = s.servedTokens ∧ (v = s ∨ 0 < v.queuedTokens) := by
    rintro u v ⟨hu, hserved, -⟩ hcomplete hv
    obtain rfl := Option.some.inj hv
    have hflight := (refillComplete_eq_true.mp hcomplete).1
    have hbatch := hu.batch_pos hflight
    have hqueued := hu.queued_nonneg
    refine ⟨stock_maybeStartRefill (stock_creditRefill hu hflight now) _, ?_, .inr ?_⟩
    · rw [SimCase.settleRefill, served_maybeStartRefill]
      exact hserved
    · rw [SimCase.settleRefill, queuedTokens_maybeStartRefill, SimState.creditRefill]
      dsimp only
      omega
  obtain ⟨⟨-, hserved, hcases⟩, hexit⟩ := whileLoop_invariant
    (fun u => c.Stock u ∧ u.servedTokens = s.servedTokens ∧ (u = s ∨ 0 < u.queuedTokens))
    ⟨h, rfl, .inl rfl⟩ hbody hsettle
  exact ⟨hserved, hcases, hexit⟩

/-- The refill in flight at the test of the main loop was started up to the arrival before. -/
theorem SimCase.Visits.complete_le (h : c.Visits .loopHead s) (hflight : s.refillInFlight = true) :
    s.refillCompleteTime ≤ s.nextArrivalTime - c.interval + c.refillBatchSeconds := by
  obtain ⟨done, htimed, -⟩ := h.timed
  have hrefills := htimed.refills
  rw [pending_of_inFlight hflight, List.singleton_append] at hrefills
  have hfirst := htimed.feasible (c.flight s none) (hrefills ▸ List.mem_cons_self)
  have hstart : s.refillCompleteTime - c.refillBatchSeconds ≤ s.simulatedEndTime :=
    hfirst.start_le
  -- The queue is full before the first arrival, so that there was one.
  have hconserves := h.conserves
  have hpos : 0 < s.history.arrivals := by
    have hbatch := hconserves.batch_pos hflight
    have hfits := hconserves.fits
    have hconserved := hconserves.conserved
    have hcounted := hconserves.counted
    omega
  have hnext : s.nextArrivalTime + 0 = s.history.arrivals * c.interval := hconserves.clock
  have hend : s.simulatedEndTime = (s.history.arrivals - 1 : ℕ) * c.interval := hconserves.elapsed
  rw [Nat.cast_pred hpos] at hend
  linarith

/-- How many arrivals find no token, at most, until one is served. -/
def SimCase.patience (c : SimCase) (s : SimState) : ℕ :=
  if 0 < s.queuedTokens then 0
  else ⌈(s.refillCompleteTime - s.nextArrivalTime) / c.interval⌉.toNat + 1

/-- How many arrivals there are, at most, until the target is served. -/
def SimCase.remaining (c : SimCase) (s : SimState) : ℕ :=
  (c.consumeTargetTokens - s.servedTokens) * (⌈c.refillBatchSeconds / c.interval⌉.toNat + 2) +
    c.patience s

/-- The bound on the patience of an arrival at an empty queue. -/
theorem SimCase.Visits.patience_le (h : c.Visits .loopHead s) :
    c.patience s ≤ ⌈c.refillBatchSeconds / c.interval⌉.toNat + 1 := by
  unfold SimCase.patience
  split
  · exact Nat.zero_le _
  · rename_i hempty
    have hthreshold := c.one_le_threshold
    have hflight : s.refillInFlight = true := h.refilling (by omega)
    have hcomplete := h.complete_le hflight
    have hinterval := c.interval_pos
    have hle : (s.refillCompleteTime - s.nextArrivalTime) / c.interval ≤
        c.refillBatchSeconds / c.interval :=
      div_le_div_of_nonneg_right (by linarith) hinterval.le
    have hceil := Int.toNat_le_toNat (Int.ceil_le_ceil hle)
    omega

/-- An arrival returns and lowers the number of those remaining. -/
theorem arrival_progress (h : c.Visits .loopHead s) (hunserved : c.unserved s = true)
    (hfuel : c.queueCapacity.toNat ≤ fuel) :
    ∃ t, c.arrival fuel s = some t ∧ c.Visits .loopHead t ∧ c.remaining t < c.remaining s := by
  have hstock := h.conserves.toStock
  obtain ⟨u, hu⟩ := settleRefills_returns hstock s.nextArrivalTime hfuel
  have harrival : c.arrival fuel s = some (c.advance (c.afterAttempt u.attempt)) := by
    rw [SimCase.arrival, hu, Option.map_some]
  have hnext : c.Visits .loopHead (c.advance (c.afterAttempt u.attempt)) :=
    h.trans (arrival_steps hunserved harrival)
  obtain ⟨hserved, hcases, hexit⟩ := settleRefills_cases hstock hu
  have hlt : s.servedTokens < c.consumeTargetTokens := of_decide_eq_true hunserved
  refine ⟨_, harrival, hnext, ?_⟩
  by_cases hpos : 0 < u.queuedTokens
  · -- a request that is served lowers the number of those to come
    have hcount : (c.advance (c.afterAttempt u.attempt)).servedTokens = s.servedTokens + 1 := by
      simp [SimCase.advance, SimCase.afterAttempt, attempt_of_pos hpos, hserved]
    have hpatience := hnext.patience_le
    obtain ⟨left, hleft⟩ : ∃ left, c.consumeTargetTokens - s.servedTokens = left + 1 :=
      ⟨c.consumeTargetTokens - s.servedTokens - 1, by omega⟩
    have hless : c.consumeTargetTokens - (s.servedTokens + 1) = left := by omega
    rw [SimCase.remaining, SimCase.remaining, hcount, hless, hleft, add_mul]
    omega
  · -- a starved one brings the end of the running refill an interval nearer
    obtain rfl : u = s := hcases.resolve_right hpos
    have hthreshold := c.one_le_threshold
    have hflight : u.refillInFlight = true := h.refilling (by omega)
    have hlate : ¬ u.refillCompleteTime ≤ u.nextArrivalTime := fun hle =>
      absurd hexit (ne_of_eq_of_ne (refillComplete_eq_true.mpr ⟨hflight, hle⟩) (by simp))
    have hafter : c.advance (c.afterAttempt u.attempt) =
        { u with
          starvedRequests := u.starvedRequests + 1
          history.arrivals := u.history.arrivals + 1
          simulatedEndTime := u.nextArrivalTime
          nextArrivalTime := u.nextArrivalTime + c.interval } := by
      rw [attempt_of_not_pos hpos, SimCase.afterAttempt, maybeStartRefill_of_inFlight]
      · rfl
      · exact hflight
    have hinterval := c.interval_pos
    have hnearer : (u.refillCompleteTime - (u.nextArrivalTime + c.interval)) / c.interval =
        (u.refillCompleteTime - u.nextArrivalTime) / c.interval - 1 := by
      field_simp
      ring
    have hceil : 0 < ⌈(u.refillCompleteTime - u.nextArrivalTime) / c.interval⌉ :=
      Int.ceil_pos.mpr (div_pos (by linarith) hinterval)
    rw [hafter, SimCase.remaining, SimCase.remaining, SimCase.patience, SimCase.patience,
      if_neg hpos, if_neg hpos]
    dsimp only
    rw [hnearer, Int.ceil_sub_one]
    omega

/-- The main loop serves the target, and the call after it returns. -/
theorem simulate_returns (c : SimCase) : ∃ s, Returns c.simulate s ∧ c.Visits .finished s := by
  obtain ⟨fuel, hcapacity, hremaining⟩ :
      ∃ fuel, c.queueCapacity.toNat ≤ fuel ∧ c.remaining c.initial ≤ fuel :=
    ⟨max _ _, le_max_left _ _, le_max_right _ _⟩
  obtain ⟨t, ht, hvisits, -⟩ := whileLoop_of_variant (c.Visits .loopHead) c.remaining
    (fun s hs hunserved => arrival_progress hs hunserved hcapacity) .refl hremaining
  obtain ⟨s, hs⟩ :=
    settleRefills_returns hvisits.conserves.toStock t.simulatedEndTime hcapacity
  have hsimulate : c.simulate fuel = some s := Option.bind_eq_some_iff.mpr ⟨t, ht, hs⟩
  exact ⟨s, .of_mono simulate_mono hsimulate, simulate_visits hsimulate⟩

/-- From every state of a run `settle_refills` ends after at most as many iterations as
the queue has slots, and the main loop ends when the target has been served. -/
theorem simulation_terminates (c : SimCase) :
    (∀ point s now, c.Visits point s →
      ∃ t, c.settleRefills now c.queueCapacity.toNat s = some t) ∧
    ∃ fuel s, c.mainLoop fuel c.initial = some s ∧ s.servedTokens = c.consumeTargetTokens := by
  refine ⟨fun point s now h => settleRefills_returns h.conserves.toStock now le_rfl, ?_⟩
  obtain ⟨s, ⟨⟨fuel, hs⟩, -⟩, -⟩ := simulate_returns c
  obtain ⟨t, ht, -⟩ := Option.bind_eq_some_iff.mp hs
  obtain ⟨hsteps, hserved⟩ := mainLoop_steps ht
  have hvisits : c.Visits .loopHead t := hsteps
  have hle : t.servedTokens ≤ c.consumeTargetTokens := hvisits.conserves.serving
  exact ⟨fuel, t, ht, le_antisymm hle (not_lt.mp (of_decide_eq_false hserved))⟩

end Soko.Simulator
