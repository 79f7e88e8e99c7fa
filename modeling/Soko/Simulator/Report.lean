import Soko.Simulator.Termination

/-!
What `run_simulation_case` reports: its refill throughput stays below what the backend
was measured to make, and its service ratio counts the requests as one fewer than there
were.
-/

namespace Soko.Simulator

open Soko.Library

/-- The state of an algorithm whose second batch took `seconds`. -/
def measuredState (cfg : SimConfig) (seconds : ℚ) : AlgorithmState where
  refillBatchSeconds := seconds
  batchTokens := cfg.gpuBatchTokens
  one_le_batch := cfg.one_le_batch

theorem init_measured (alg : SimAlgorithm) (cfg : SimConfig) (seconds : ℚ) :
    alg.init cfg (some seconds) = some (measuredState cfg seconds) := by
  have hbatch := cfg.one_le_batch
  cases alg with
  | cpu | cpumt => simp [SimAlgorithm.init, measuredState, show 0 < cfg.gpuBatchTokens by omega]
  | soko => rfl

def SimConfig.run (cfg : SimConfig) (tokenRate : TokenRate) (seconds : ℚ) : SimCase :=
  simCase cfg tokenRate (measuredState cfg seconds)

theorem run_seconds (cfg : SimConfig) (tokenRate : TokenRate) {seconds : ℚ}
    (hseconds : 0 ≤ seconds) : (cfg.run tokenRate seconds).refillBatchSeconds = seconds :=
  if_neg (not_lt.mpr hseconds)

/-- `run_simulation_case` returns, with a report of the last point of its run. -/
theorem runSimulationCase_returns (alg : SimAlgorithm) (cfg : SimConfig) (tokenRate : TokenRate)
    (seconds : ℚ) :
    ∃ s, Returns (cfg.run tokenRate seconds).simulate s ∧
      Returns (runSimulationCase alg (some seconds) cfg tokenRate)
        (some ((cfg.run tokenRate seconds).report alg s)) ∧
      (cfg.run tokenRate seconds).Visits .finished s := by
  obtain ⟨s, hs, hvisits⟩ := simulate_returns (cfg.run tokenRate seconds)
  refine ⟨s, hs, ?_, hvisits⟩
  obtain ⟨⟨fuel, hfuel⟩, -⟩ := hs
  have hreport : runSimulationCase alg (some seconds) cfg tokenRate fuel =
      some (some ((cfg.run tokenRate seconds).report alg s)) := by
    simp only [runSimulationCase, init_measured]
    exact Option.map_eq_some_iff.mpr ⟨s, hfuel, rfl⟩
  exact .of_mono runSimulationCase_mono hreport

theorem perSecond_le {count seconds bound : ℚ} (hbound : 0 ≤ bound)
    (hcount : count ≤ bound * seconds) : perSecond count seconds ≤ bound := by
  unfold perSecond
  split
  · exact (div_le_iff₀ ‹_›).mpr hcount
  · exact hbound

/-- The refills of a simulation follow one another and take the time measured, and none
is credited before it is complete; so no more tokens are produced, and at no higher rate,
than the backend makes. -/
theorem production_le_measured (alg : SimAlgorithm) (cfg : SimConfig) (tokenRate : TokenRate)
    {seconds : ℚ} (hpos : 0 < seconds) :
    ∃ s result, Returns (cfg.run tokenRate seconds).simulate s ∧
      Returns (runSimulationCase alg (some seconds) cfg tokenRate) (some result) ∧
      result = (cfg.run tokenRate seconds).report alg s ∧
      Serial s.history.refills ∧
      (∀ refill ∈ s.history.refills, refill.completeTime = refill.startTime + seconds ∧
        ∀ time, refill.creditTime = some time → refill.completeTime ≤ time) ∧
      result.producedTokens * seconds ≤ cfg.gpuBatchTokens * result.measuredSeconds ∧
      result.refillThroughput ≤ cfg.gpuBatchTokens / seconds := by
  obtain ⟨s, hsimulate, hresult, hvisits⟩ := runSimulationCase_returns alg cfg tokenRate seconds
  have hseconds := run_seconds cfg tokenRate hpos.le
  obtain ⟨done, htimed, -⟩ := hvisits.timed
  have hproduced : (s.producedTokens : ℚ) * seconds ≤ cfg.gpuBatchTokens * s.simulatedEndTime := by
    have h := htimed.produced_mul_le
    rwa [hseconds] at h
  refine ⟨s, _, hsimulate, hresult, rfl, htimed.serial, ?_, hproduced, ?_⟩
  · intro refill hmem
    refine ⟨hseconds ▸ (htimed.feasible refill hmem).complete, fun time hcredit => ?_⟩
    rw [htimed.refills] at hmem
    obtain hpending | hdone := List.mem_append.mp hmem
    · unfold SimCase.pending at hpending
      split at hpending
      · obtain rfl := List.mem_singleton.mp hpending
        exact absurd hcredit (by simp [SimCase.flight])
      · contradiction
    · obtain ⟨time', hcredit', hcomplete, -⟩ := htimed.credited refill hdone
      exact Option.some.inj (hcredit'.symm.trans hcredit) ▸ hcomplete
  · have hbatch : (0 : ℚ) ≤ cfg.gpuBatchTokens := by
      exact_mod_cast zero_le_one.trans cfg.one_le_batch
    refine perSecond_le (div_nonneg hbatch hpos.le) ?_
    rw [div_mul_eq_mul_div]
    exact (le_div_iff₀ hpos).mpr hproduced

def smallConfig : SimConfig where
  queueCapacity := 2
  consumeTargetTokens := 2
  gpuBatchTokens := 1
  two_le_capacity := le_rfl
  one_le_target := (Int.lt_succ 1).le
  one_le_batch := le_rfl

theorem production_le_measured_smallConfig :
    ∃ s result, Returns (smallConfig.run ⟨1, Int.le_refl 1⟩ (1 / 2)).simulate s ∧
      Returns (runSimulationCase .soko (some (1 / 2)) smallConfig ⟨1, Int.le_refl 1⟩)
        (some result) ∧
      result = (smallConfig.run ⟨1, Int.le_refl 1⟩ (1 / 2)).report .soko s ∧
      Serial s.history.refills ∧
      (∀ refill ∈ s.history.refills, refill.completeTime = refill.startTime + 1 / 2 ∧
        ∀ time, refill.creditTime = some time → refill.completeTime ≤ time) ∧
      result.producedTokens * (1 / 2) ≤ smallConfig.gpuBatchTokens * result.measuredSeconds ∧
      result.refillThroughput ≤ smallConfig.gpuBatchTokens / (1 / 2) :=
  production_le_measured .soko smallConfig ⟨1, Int.le_refl 1⟩ (by norm_num)

/-- The time simulated counts the intervals between the requests, one fewer than there are. -/
theorem measuredSeconds_mul_rate {c : SimCase} {s : SimState} (h : c.Visits .finished s) :
    s.simulatedEndTime * c.tokenRate = (s.history.arrivals - 1 : ℕ) := by
  have hend : s.simulatedEndTime = (s.history.arrivals - 1 : ℕ) * c.interval := h.conserves.elapsed
  have hrate : (1 : ℚ) ≤ c.tokenRate := by exact_mod_cast c.one_le_rate
  rw [hend, SimCase.interval, mul_assoc, one_div_mul_cancel (by linarith), mul_one]

/-- The service ratio is what was served for each interval between two requests. -/
theorem serviceRatio_report {c : SimCase} {s : SimState} (alg : SimAlgorithm)
    (h : c.Visits .finished s) :
    (c.report alg s).serviceRatio = s.servedTokens / (s.history.arrivals - 1 : ℕ) := by
  have hrate : (1 : ℚ) ≤ c.tokenRate := by exact_mod_cast c.one_le_rate
  have hscaled := measuredSeconds_mul_rate h
  have hratio : (c.report alg s).serviceRatio =
      perSecond s.servedTokens s.simulatedEndTime / c.tokenRate :=
    if_pos (show (0 : ℚ) < c.tokenRate by linarith)
  rw [hratio, perSecond, ← hscaled]
  split
  · rw [div_div]
  · rename_i hzero
    have hnonneg : 0 ≤ s.simulatedEndTime * c.tokenRate := hscaled ▸ Nat.cast_nonneg _
    have hle : s.simulatedEndTime * c.tokenRate ≤ 0 :=
      mul_nonpos_of_nonpos_of_nonneg (not_lt.mp hzero) (by linarith)
    rw [le_antisymm hle hnonneg, zero_div, div_zero]

/-- The service ratio that is reported is never the fraction of the requests that were
served: the served tokens are divided by one request too few. -/
theorem serviceRatio_ne_fraction (alg : SimAlgorithm) (cfg : SimConfig) (tokenRate : TokenRate)
    (seconds : ℚ) :
    ∃ result, Returns (runSimulationCase alg (some seconds) cfg tokenRate) (some result) ∧
      result.serviceRatio =
        result.servedTokens / (result.servedTokens + result.starvedRequests - 1 : ℕ) ∧
      result.serviceRatio ≠
        result.servedTokens / (result.servedTokens + result.starvedRequests : ℕ) := by
  obtain ⟨s, -, hresult, hvisits⟩ := runSimulationCase_returns alg cfg tokenRate seconds
  have hratio := serviceRatio_report alg hvisits
  have hcounted := hvisits.conserves.counted
  have hserved : s.servedTokens = cfg.consumeTargetTokens.toNat := hvisits.conserves.serving
  have htarget := cfg.one_le_target
  rw [← hcounted] at hratio
  refine ⟨_, hresult, hratio, fun hfraction => ?_⟩
  have heq : (s.servedTokens : ℚ) / (s.servedTokens + s.starvedRequests - 1 : ℕ) =
      s.servedTokens / (s.servedTokens + s.starvedRequests : ℕ) := hratio.symm.trans hfraction
  have hpos : (s.servedTokens : ℚ) ≠ 0 := by
    simp only [ne_eq, Nat.cast_eq_zero]
    omega
  rw [div_eq_mul_inv, div_eq_mul_inv] at heq
  have hinv := inv_injective (mul_left_cancel₀ hpos heq)
  have hcast : s.servedTokens + s.starvedRequests - 1 = s.servedTokens + s.starvedRequests :=
    Nat.cast_injective hinv
  omega

/-- Two requests of two are served, and the ratio reported is 200 %. -/
theorem serviceRatio_smallConfig :
    ∃ result, Returns (runSimulationCase .soko (some 0) smallConfig ⟨1, Int.le_refl 1⟩)
        (some result) ∧
      result.servedTokens = 2 ∧ result.starvedRequests = 0 ∧ result.serviceRatio = 2 ∧
      result.serviceRatio ≠
        result.servedTokens / (result.servedTokens + result.starvedRequests : ℕ) := by
  have hrun : (runSimulationCase .soko (some 0) smallConfig ⟨1, Int.le_refl 1⟩ 9).map
      (Option.map fun result =>
        (result.servedTokens, result.starvedRequests, result.serviceRatio)) =
      some (some (2, 0, 2)) := by
    decide +kernel
  obtain ⟨result?, hreturns, hresult⟩ := Option.map_eq_some_iff.mp hrun
  obtain ⟨result, rfl, hvalues⟩ := Option.map_eq_some_iff.mp hresult
  simp only [Prod.mk.injEq] at hvalues
  obtain ⟨hserved, hstarved, hratio⟩ := hvalues
  refine ⟨result, .of_mono runSimulationCase_mono hreturns, hserved, hstarved, hratio, ?_⟩
  rw [hratio, hserved, hstarved]
  norm_num

end Soko.Simulator
