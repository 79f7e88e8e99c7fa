import Mathlib.Tactic.Ring
import Soko.Simulator.Machine

/-!
Conservation of tokens along a run of the simulator: at every point the tokens of the
full queue and those credited are the ones queued and the ones served, a batch in
flight fits into the free slots, and every arrival was either served or starved.
-/

namespace Soko.Simulator

open Soko.Library

def SimCase.Serving (c : SimCase) (point : SimPoint) (served : ℕ) : Prop :=
  match point with
  | .loopHead | .attempted | .started => served ≤ c.consumeTargetTokens
  | .settleHead false | .credited false | .settled => served < c.consumeTargetTokens
  | .settleHead true | .credited true | .finished => served = c.consumeTargetTokens

/-- The arrival counted last is still the one at `nextArrivalTime`. -/
def SimPoint.betweenArrivals : SimPoint → Bool
  | .attempted | .started => false
  | _ => true

structure SimCase.Stock (c : SimCase) (s : SimState) : Prop where
  queued_nonneg : 0 ≤ s.queuedTokens
  fits : s.queuedTokens + s.refillBatchSize ≤ c.queueCapacity
  inFlight_iff : s.refillInFlight = true ↔ 1 ≤ s.refillBatchSize
  idle : s.refillInFlight = false → s.refillBatchSize = 0
  conserved : c.queueCapacity + s.producedTokens = s.queuedTokens + s.servedTokens
  counted : s.servedTokens + s.starvedRequests = s.history.arrivals

def SimCase.Elapsed (c : SimCase) (point : SimPoint) (s : SimState) : Prop :=
  match point with
  | .attempted => 1 ≤ s.history.arrivals
  | _ => s.simulatedEndTime = (s.history.arrivals - 1 : ℕ) * c.interval

/-- The counts of a run at one of its points. -/
structure SimCase.Conserves (c : SimCase) (point : SimPoint) (s : SimState) : Prop
    extends c.Stock s where
  serving : c.Serving point s.servedTokens
  clock : s.nextArrivalTime + (if point.betweenArrivals then 0 else c.interval) =
    s.history.arrivals * c.interval
  elapsed : c.Elapsed point s

variable {c : SimCase} {s : SimState}

theorem SimCase.Stock.batch_pos (h : c.Stock s) (hflight : s.refillInFlight = true) :
    1 ≤ s.refillBatchSize := h.inFlight_iff.mp hflight

/-- The free slots are counted when a refill is started. -/
theorem stock_maybeStartRefill (h : c.Stock s) (now : ℚ) : c.Stock (c.maybeStartRefill now s) := by
  obtain ⟨-, heq⟩ | ⟨want, -, -, hwant, hmin, heq⟩ := maybeStartRefill_cases c now s
  · rw [heq]
    exact h
  · rw [heq]
    have hfree : want ≤ c.queueCapacity - s.queuedTokens := hmin ▸ min_le_right _ _
    exact
      { queued_nonneg := h.queued_nonneg
        fits := by dsimp only; omega
        inFlight_iff := by simpa using hwant
        idle := by simp
        conserved := h.conserved
        counted := h.counted }

theorem counts_credit (now : ℚ) (history : SimHistory) :
    (history.credit now).arrivals = history.arrivals := by
  unfold SimHistory.credit
  split <;> rfl

/-- The tokens credited are those that left the flight. -/
theorem stock_creditRefill (h : c.Stock s) (hflight : s.refillInFlight = true) (now : ℚ) :
    c.Stock (s.creditRefill now) := by
  have hbatch := h.batch_pos hflight
  have hqueued := h.queued_nonneg
  have hfits := h.fits
  have hconserved := h.conserved
  exact
    { queued_nonneg := by simp only [SimState.creditRefill]; omega
      fits := by simp only [SimState.creditRefill]; omega
      inFlight_iff := by simp [SimState.creditRefill]
      idle := fun _ => rfl
      conserved := by simp only [SimState.creditRefill]; push_cast; omega
      counted := (counts_credit now s.history).symm ▸ h.counted }

theorem stock_attempt (h : c.Stock s) : c.Stock s.attempt := by
  have hfits := h.fits
  have hconserved := h.conserved
  have hcounted := h.counted
  by_cases hpos : 0 < s.queuedTokens
  · rw [attempt_of_pos hpos]
    exact
      { queued_nonneg := by dsimp only; omega
        fits := by dsimp only; omega
        inFlight_iff := h.inFlight_iff
        idle := h.idle
        conserved := by dsimp only; push_cast; omega
        counted := by dsimp only; omega }
  · rw [attempt_of_not_pos hpos]
    exact
      { h with counted := by dsimp only; omega }

@[simp] theorem served_maybeStartRefill (now : ℚ) :
    (c.maybeStartRefill now s).servedTokens = s.servedTokens :=
  maybeStartRefill_frame SimState.servedTokens (fun _ _ _ => rfl) c now

@[simp] theorem queuedTokens_maybeStartRefill (now : ℚ) :
    (c.maybeStartRefill now s).queuedTokens = s.queuedTokens :=
  maybeStartRefill_frame SimState.queuedTokens (fun _ _ _ => rfl) c now

@[simp] theorem starvedRequests_maybeStartRefill (now : ℚ) :
    (c.maybeStartRefill now s).starvedRequests = s.starvedRequests :=
  maybeStartRefill_frame SimState.starvedRequests (fun _ _ _ => rfl) c now

@[simp] theorem arrivals_maybeStartRefill (now : ℚ) :
    (c.maybeStartRefill now s).history.arrivals = s.history.arrivals :=
  maybeStartRefill_frame (fun s => s.history.arrivals) (fun _ _ _ => rfl) c now

@[simp] theorem nextArrivalTime_maybeStartRefill (now : ℚ) :
    (c.maybeStartRefill now s).nextArrivalTime = s.nextArrivalTime :=
  now_maybeStartRefill false now s

@[simp] theorem simulatedEndTime_maybeStartRefill (now : ℚ) :
    (c.maybeStartRefill now s).simulatedEndTime = s.simulatedEndTime :=
  now_maybeStartRefill true now s

theorem served_attempt_le : s.attempt.servedTokens ≤ s.servedTokens + 1 := by
  unfold SimState.attempt
  split <;> simp

@[simp] theorem arrivals_attempt : s.attempt.history.arrivals = s.history.arrivals + 1 := by
  unfold SimState.attempt
  split <;> rfl

@[simp] theorem nextArrivalTime_attempt : s.attempt.nextArrivalTime = s.nextArrivalTime := by
  unfold SimState.attempt
  split <;> rfl

theorem conserves_initial (c : SimCase) : c.Conserves .loopHead c.initial where
  queued_nonneg := by
    have := c.one_le_threshold
    have := c.threshold_lt_capacity
    simp only [SimCase.initial]
    omega
  fits := by simp [SimCase.initial]
  inFlight_iff := by simp [SimCase.initial]
  idle _ := rfl
  conserved := by simp [SimCase.initial]
  counted := rfl
  serving := Nat.zero_le _
  clock := by simp [SimCase.initial, SimPoint.betweenArrivals]
  elapsed := by simp [SimCase.initial, SimCase.Elapsed]

theorem SimCase.Visits.conserves {point : SimPoint} (h : c.Visits point s) :
    c.Conserves point s := by
  refine h.induct c.Conserves (conserves_initial c) ?enter ?leave ?credit ?chain ?settle ?finish
    ?attempt ?start ?advance
  case enter =>
    intro s _ h hunserved
    have hlt : s.servedTokens < c.consumeTargetTokens := of_decide_eq_true hunserved
    exact ⟨h.toStock, hlt, h.clock, h.elapsed⟩
  case leave =>
    intro s _ h hserved
    have hle : s.servedTokens ≤ c.consumeTargetTokens := h.serving
    have hnot := of_decide_eq_false hserved
    exact ⟨h.toStock, le_antisymm hle (not_lt.mp hnot), h.clock, h.elapsed⟩
  case credit =>
    intro last s _ h hcomplete
    have hflight := (refillComplete_eq_true.mp hcomplete).1
    have hcount := counts_credit (s.now last) s.history
    refine ⟨stock_creditRefill h.toStock hflight _, ?_, ?_, ?_⟩
    · cases last <;> exact h.serving
    · exact h.clock.trans (congrArg (fun n : ℕ => (n : ℚ) * c.interval) hcount.symm)
    · exact h.elapsed.trans (congrArg (fun n : ℕ => ((n - 1 : ℕ) : ℚ) * c.interval) hcount.symm)
  case chain =>
    intro last s _ h
    refine ⟨stock_maybeStartRefill h.toStock _, ?_, ?_, ?_⟩
    · rw [served_maybeStartRefill]
      cases last <;> exact h.serving
    · rw [nextArrivalTime_maybeStartRefill, arrivals_maybeStartRefill]
      exact h.clock
    · simp only [SimCase.Elapsed, simulatedEndTime_maybeStartRefill, arrivals_maybeStartRefill]
      exact h.elapsed
  case settle => exact fun s _ h _ => ⟨h.toStock, h.serving, h.clock, h.elapsed⟩
  case finish => exact fun s _ h _ => ⟨h.toStock, h.serving, h.clock, h.elapsed⟩
  case attempt =>
    intro s _ h
    have hlt : s.servedTokens < c.consumeTargetTokens := h.serving
    refine ⟨stock_attempt h.toStock, served_attempt_le.trans hlt, ?_, ?_⟩
    · have hclock : s.nextArrivalTime + 0 = s.history.arrivals * c.interval := h.clock
      rw [nextArrivalTime_attempt, arrivals_attempt]
      simp only [SimPoint.betweenArrivals, Bool.false_eq_true, if_false]
      push_cast
      linarith
    · simp [SimCase.Elapsed]
  case start =>
    intro s _ h
    have hpos : 1 ≤ s.history.arrivals := h.elapsed
    have hclock : s.nextArrivalTime + c.interval = s.history.arrivals * c.interval := h.clock
    have hstock := stock_maybeStartRefill h.toStock s.nextArrivalTime
    refine ⟨{ hstock with }, ?_, ?_, ?_⟩
    · exact (served_maybeStartRefill (c := c) s.nextArrivalTime).trans_le h.serving
    · simp only [SimCase.afterAttempt, nextArrivalTime_maybeStartRefill, arrivals_maybeStartRefill]
      exact hclock
    · simp only [SimCase.Elapsed, SimCase.afterAttempt, arrivals_maybeStartRefill]
      rw [Nat.cast_pred hpos]
      linarith
  case advance =>
    intro s _ h
    refine ⟨{ h.toStock with }, h.serving, ?_, h.elapsed⟩
    exact (add_zero _).trans h.clock

/-- The counts of the simulator, at every point of a run; at the end the target has
been served. -/
theorem conserves_of_visits {point : SimPoint} (h : c.Visits point s) :
    c.Conserves point s ∧ (point = .finished → s.servedTokens = c.consumeTargetTokens) := by
  have hall : c.Conserves point s := h.conserves
  refine ⟨hall, ?_⟩
  rintro rfl
  exact hall.serving

def smallCase : SimCase where
  queueCapacity := 5
  batchTokens := 2
  refillThresholdTokens := 4
  refillBatchSeconds := 1 / 2
  tokenRate := 2
  consumeTargetTokens := 3
  one_le_batch := by decide
  one_le_threshold := by decide
  threshold_lt_capacity := by decide
  seconds_nonneg := by norm_num
  one_le_rate := by decide

theorem conserves_of_visits_smallCase :
    ∃ s, smallCase.simulate 9 = some s ∧ smallCase.Conserves .finished s ∧
      (SimPoint.finished = .finished → s.servedTokens = smallCase.consumeTargetTokens) := by
  obtain ⟨s, hs⟩ := Option.isSome_iff_exists.mp
    (show (smallCase.simulate 9).isSome = true by decide +kernel)
  exact ⟨s, hs, conserves_of_visits (simulate_visits hs)⟩

end Soko.Simulator
