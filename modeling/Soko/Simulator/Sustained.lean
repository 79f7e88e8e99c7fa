import Soko.Simulator.Report

/-!
A sustainable load starves no request. The refill is started when `threshold` tokens are
left. While it is in flight they are taken one by one, fewer than arrive during a batch;
when it is complete the queue is above the threshold again, so there is always a token
left and one refill at a time suffices.
-/

namespace Soko.Simulator

open Soko.Library

def SimCase.demand (c : SimCase) : ℤ := max 1 ⌈c.refillBatchSeconds * c.tokenRate⌉

/-- The queue is above the threshold, and nothing is in flight. -/
structure SimCase.Supplied (c : SimCase) (s : SimState) : Prop where
  idle : s.refillInFlight = false
  above : c.refillThresholdTokens < s.queuedTokens

/-- A refill that covers the demand is in flight, and `taken` arrivals after its start, the
last of them at `arrival`, have taken a token. -/
structure SimCase.Refills (c : SimCase) (arrival : ℚ) (taken : ℕ) (s : SimState) : Prop where
  inFlight : s.refillInFlight = true
  covers : c.demand ≤ s.refillBatchSize
  started : s.refillCompleteTime + taken * c.interval = arrival + c.refillBatchSeconds
  left : s.queuedTokens = c.refillThresholdTokens - taken
  taken_lt : taken < c.demand

/-- What a sustainable load keeps, at the points between which arrivals are processed. -/
def SimCase.Supply (c : SimCase) (point : SimPoint) (s : SimState) : Prop :=
  match point with
  | .loopHead | .settleHead false =>
      c.Supplied s ∨ ∃ taken, c.Refills (s.nextArrivalTime - c.interval) taken s
  | .credited false => c.Supplied s
  | .settled =>
      c.Supplied s ∨ ∃ taken, c.Refills (s.nextArrivalTime - c.interval) taken s ∧
        s.nextArrivalTime < s.refillCompleteTime
  | .attempted =>
      (s.refillInFlight = false ∧ c.refillThresholdTokens ≤ s.queuedTokens) ∨
        ∃ taken, c.Refills s.nextArrivalTime taken s
  | .started => c.Supplied s ∨ ∃ taken, c.Refills s.nextArrivalTime taken s
  | .settleHead true | .credited true | .finished => True

/-- The load is sustainable: a batch and the slots free at the threshold cover the demand,
and so do the tokens left at the threshold. -/
structure SimCase.Sustainable (c : SimCase) : Prop where
  demand_le_batch : c.demand ≤ c.batchTokens
  demand_le_free : c.demand ≤ c.queueCapacity - c.refillThresholdTokens
  demand_le_threshold : c.demand ≤ c.refillThresholdTokens

variable {c : SimCase} {s : SimState}

theorem SimCase.one_le_demand (c : SimCase) : 1 ≤ c.demand := le_max_left _ _

/-- An arrival before the refill is complete is one of the demand. -/
theorem taken_succ_lt {arrival : ℚ} {taken : ℕ} (h : c.Refills arrival taken s)
    (hlate : arrival + c.interval < s.refillCompleteTime) : ((taken + 1 : ℕ) : ℤ) < c.demand := by
  have hstarted := h.started
  have hrate : (1 : ℚ) ≤ c.tokenRate := by exact_mod_cast c.one_le_rate
  have hunit : c.interval * c.tokenRate = 1 := one_div_mul_cancel (by linarith)
  have hless : (taken + 1) * c.interval < c.refillBatchSeconds := by linarith
  have hscaled : (taken + 1) * c.interval * c.tokenRate < c.refillBatchSeconds * c.tokenRate :=
    mul_lt_mul_of_pos_right hless (by linarith)
  rw [mul_assoc, hunit, mul_one] at hscaled
  refine lt_max_of_lt_right (Int.lt_ceil.mpr ?_)
  push_cast
  exact hscaled

theorem SimCase.Refills.queued_pos {arrival : ℚ} {taken : ℕ} (h : c.Refills arrival taken s)
    (hload : c.Sustainable) : 0 < s.queuedTokens := by
  have hleft := h.left
  have htaken := h.taken_lt
  have hthreshold := hload.demand_le_threshold
  omega

theorem supplied_creditRefill {arrival now : ℚ} {taken : ℕ} (h : c.Refills arrival taken s) :
    c.Supplied (s.creditRefill now) where
  idle := rfl
  above := by
    have hleft := h.left
    have htaken := h.taken_lt
    have hcovers := h.covers
    simp only [SimState.creditRefill]
    omega

/-- A refill started at the threshold covers the demand. -/
theorem supply_maybeStartRefill (now : ℚ) (hload : c.Sustainable)
    (hidle : s.refillInFlight = false) (hle : c.refillThresholdTokens ≤ s.queuedTokens) :
    c.Supplied (c.maybeStartRefill now s) ∨
      ∃ taken, c.Refills now taken (c.maybeStartRefill now s) := by
  obtain ⟨hskip, heq⟩ | ⟨want, -, hlow, -, hmin, heq⟩ := maybeStartRefill_cases c now s
  · rw [heq]
    exact .inl ⟨hidle, hskip.resolve_left (by simp [hidle])⟩
  · rw [heq]
    have hbatch := hload.demand_le_batch
    have hfree := hload.demand_le_free
    have hdemand := c.one_le_demand
    exact .inr ⟨0,
      { inFlight := rfl
        covers := by dsimp only; omega
        started := by simp
        left := by simpa using le_antisymm hlow hle
        taken_lt := hdemand }⟩

theorem SimCase.Visits.supply {point : SimPoint} (hload : c.Sustainable)
    (h : c.Visits point s) : c.Supply point s ∧ s.starvedRequests = 0 := by
  have hthreshold := c.one_le_threshold
  refine h.induct (fun point s => c.Supply point s ∧ s.starvedRequests = 0) ?initial ?enter
    ?leave ?credit ?chain ?settle ?finish ?attempt ?start ?advance
  case initial => exact ⟨.inl ⟨rfl, c.threshold_lt_capacity⟩, rfl⟩
  case enter => exact fun s _ hs _ => hs
  case leave => exact fun s _ hs _ => ⟨trivial, hs.2⟩
  case credit =>
    rintro last s - ⟨hsupply, hstarved⟩ hcomplete
    have hflight := (refillComplete_eq_true.mp hcomplete).1
    refine ⟨?_, hstarved⟩
    cases last with
    | false =>
        obtain hsupplied | ⟨taken, hrefills⟩ := hsupply
        · exact absurd hflight (by simp [hsupplied.idle])
        · exact supplied_creditRefill hrefills
    | true => trivial
  case chain =>
    rintro last s - ⟨hsupply, hstarved⟩
    cases last with
    | false =>
        have hsupplied : c.Supplied s := hsupply
        rw [maybeStartRefill_of_full hsupplied.above]
        exact ⟨.inl hsupplied, hstarved⟩
    | true => exact ⟨trivial, by rw [starvedRequests_maybeStartRefill, hstarved]⟩
  case settle =>
    rintro s - ⟨hsupply, hstarved⟩ hcomplete
    refine ⟨?_, hstarved⟩
    obtain hsupplied | ⟨taken, hrefills⟩ := hsupply
    · exact .inl hsupplied
    · refine .inr ⟨taken, hrefills, ?_⟩
      simpa [SimState.refillComplete, SimState.now, hrefills.inFlight] using hcomplete
  case finish => exact fun s _ hs _ => ⟨trivial, hs.2⟩
  case attempt =>
    rintro s - ⟨hsupply, hstarved⟩
    obtain hsupplied | ⟨taken, hrefills, hlate⟩ := hsupply
    · have habove := hsupplied.above
      rw [attempt_of_pos (by omega)]
      exact ⟨.inl ⟨hsupplied.idle, by dsimp only; omega⟩, hstarved⟩
    · -- during a refill the queue lasts until its end
      have hnext := taken_succ_lt hrefills (by linarith)
      have hstarted := hrefills.started
      have hleft := hrefills.left
      rw [attempt_of_pos (hrefills.queued_pos hload)]
      refine ⟨.inr ⟨taken + 1, hrefills.inFlight, hrefills.covers, ?_, ?_, hnext⟩, hstarved⟩
      · dsimp only
        push_cast
        linarith
      · dsimp only
        push_cast
        omega
  case start =>
    rintro s - ⟨hsupply, hstarved⟩
    refine ⟨?_, (starvedRequests_maybeStartRefill _).trans hstarved⟩
    have hnext : (c.afterAttempt s).nextArrivalTime = s.nextArrivalTime :=
      nextArrivalTime_maybeStartRefill _
    rw [SimCase.Supply, hnext]
    obtain ⟨hidle, hle⟩ | ⟨taken, hrefills⟩ := hsupply
    · obtain hsupplied | ⟨taken, hrefills⟩ :=
        supply_maybeStartRefill s.nextArrivalTime hload hidle hle
      · exact .inl { hsupplied with }
      · exact .inr ⟨taken, { hrefills with }⟩
    · rw [SimCase.afterAttempt, maybeStartRefill_of_inFlight hrefills.inFlight]
      exact .inr ⟨taken, { hrefills with }⟩
  case advance =>
    rintro s - ⟨hsupply, hstarved⟩
    refine ⟨?_, hstarved⟩
    have hback : (c.advance s).nextArrivalTime - c.interval = s.nextArrivalTime :=
      add_sub_cancel_right _ _
    obtain hsupplied | ⟨taken, hrefills⟩ := hsupply
    · exact .inl { hsupplied with }
    · exact .inr ⟨taken, { hrefills with started := hback ▸ hrefills.started }⟩

theorem run_threshold {cfg : SimConfig} {tokenRate : TokenRate} {seconds : ℚ}
    (hfree : max 1 ⌈6 / 5 * seconds * (tokenRate : ℤ)⌉ < cfg.queueCapacity) :
    (cfg.run tokenRate seconds).refillThresholdTokens =
      max 1 ⌈6 / 5 * seconds * (tokenRate : ℤ)⌉ := by
  simp only [SimConfig.run, simCase, measuredState, rateBasedRefillThreshold]
  split_ifs <;> omega

/-- A load that a batch and the slots free at the threshold can cover starves no
request, and the run serves all of them. -/
theorem no_request_starved (alg : SimAlgorithm) (cfg : SimConfig) (tokenRate : TokenRate)
    {seconds : ℚ} (hseconds : 0 ≤ seconds)
    (hbatch : max 1 ⌈seconds * (tokenRate : ℤ)⌉ ≤ cfg.gpuBatchTokens)
    (hfree : max 1 ⌈seconds * (tokenRate : ℤ)⌉ ≤
      cfg.queueCapacity - max 1 ⌈6 / 5 * seconds * (tokenRate : ℤ)⌉) :
    ∃ result, Returns (runSimulationCase alg (some seconds) cfg tokenRate) (some result) ∧
      result.servedTokens = cfg.consumeTargetTokens ∧ result.starvedRequests = 0 := by
  obtain ⟨s, -, hresult, hvisits⟩ := runSimulationCase_returns alg cfg tokenRate seconds
  have hthreshold : (cfg.run tokenRate seconds).refillThresholdTokens =
      max 1 ⌈6 / 5 * seconds * (tokenRate : ℤ)⌉ := run_threshold (by omega)
  have hdemand : (cfg.run tokenRate seconds).demand = max 1 ⌈seconds * (tokenRate : ℤ)⌉ := by
    rw [SimCase.demand, run_seconds cfg tokenRate hseconds]
    rfl
  have hrate : (1 : ℚ) ≤ (tokenRate : ℤ) := by exact_mod_cast tokenRate.2
  have hceil : ⌈seconds * (tokenRate : ℤ)⌉ ≤ ⌈6 / 5 * seconds * (tokenRate : ℤ)⌉ := by
    refine Int.ceil_le_ceil (mul_le_mul_of_nonneg_right ?_ (by linarith))
    linarith
  have hload : (cfg.run tokenRate seconds).Sustainable :=
    { demand_le_batch := hdemand ▸ hbatch
      demand_le_free := by
        rw [hdemand, hthreshold]
        exact hfree
      demand_le_threshold := by
        rw [hdemand, hthreshold]
        exact max_le_max_left 1 hceil }
  have hserved : s.servedTokens = cfg.consumeTargetTokens.toNat := hvisits.conserves.serving
  have htarget := cfg.one_le_target
  refine ⟨_, hresult, ?_, (hvisits.supply hload).2⟩
  change (s.servedTokens : ℤ) = cfg.consumeTargetTokens
  omega

theorem no_request_starved_smallConfig :
    ∃ result, Returns (runSimulationCase .soko (some (1 / 2)) smallConfig ⟨1, Int.le_refl 1⟩)
        (some result) ∧ result.servedTokens = smallConfig.consumeTargetTokens ∧
      result.starvedRequests = 0 :=
  no_request_starved .soko smallConfig ⟨1, Int.le_refl 1⟩ (by norm_num) (by decide +kernel)
    (by decide +kernel)

end Soko.Simulator
