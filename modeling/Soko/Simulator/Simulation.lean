import Mathlib.Data.Rat.Floor
import Mathlib.Tactic.Linarith
import Soko.Library.Loops

/-!
The refill simulator, `soko_refill_simulator.c`. Times are rationals, so that 1.2 is
6/5 and arrival `k` is at `k / token_rate`, and the 64-bit counters are natural
numbers. The two loops are executed with fuel, the same for both.

`SimHistory` holds what no C code reads: how many arrivals were processed, and when
each refill was started, was to be complete, and was credited.
-/

namespace Soko.Simulator

open Soko.Library

/-- `sim_config_t`, as `parse_args` admits it. -/
structure SimConfig where
  queueCapacity : ℤ
  consumeTargetTokens : ℤ
  gpuBatchTokens : ℤ
  two_le_capacity : 2 ≤ queueCapacity
  one_le_target : 1 ≤ consumeTargetTokens
  one_le_batch : 1 ≤ gpuBatchTokens

/-- A rate that `parse_rate_list` admits. -/
abbrev TokenRate : Type := {rate : ℤ // 1 ≤ rate}

/-- The rows of `g_algorithms`. -/
inductive SimAlgorithm
  | cpu
  | cpumt
  | soko
  deriving DecidableEq

/-- What of the state of an algorithm `configure_refill` reads. -/
structure AlgorithmState where
  refillBatchSeconds : ℚ
  batchTokens : ℤ
  one_le_batch : 1 ≤ batchTokens

/-- `init` of an algorithm. `measured` is the time of the second batch; without one the
initialization has failed. -/
def SimAlgorithm.init (alg : SimAlgorithm) (cfg : SimConfig) (measured : Option ℚ) :
    Option AlgorithmState :=
  measured.map fun refillBatchSeconds =>
    { refillBatchSeconds
      batchTokens :=
        match alg with
        | .cpu | .cpumt => if cfg.gpuBatchTokens > 0 then cfg.gpuBatchTokens else 256
        | .soko => cfg.gpuBatchTokens
      one_le_batch := by
        have hbatch := cfg.one_le_batch
        cases alg with
        | cpu | cpumt =>
            dsimp only
            split_ifs <;> omega
        | soko => exact hbatch }

def rateBasedRefillThreshold (refillBatchSeconds : ℚ) (tokenRate queueCapacity : ℤ) : ℤ :=
  let threshold := ⌈6 / 5 * refillBatchSeconds * tokenRate⌉
  let threshold := if threshold < 1 then 1 else threshold
  if threshold ≥ queueCapacity then queueCapacity - 1 else threshold

theorem rateBasedRefillThreshold_mem (refillBatchSeconds : ℚ) (tokenRate : ℤ) {queueCapacity : ℤ}
    (hcapacity : 2 ≤ queueCapacity) :
    1 ≤ rateBasedRefillThreshold refillBatchSeconds tokenRate queueCapacity ∧
      rateBasedRefillThreshold refillBatchSeconds tokenRate queueCapacity < queueCapacity := by
  unfold rateBasedRefillThreshold
  dsimp only
  split_ifs <;> constructor <;> omega

/-- The parameters of a run of the event loop. -/
structure SimCase where
  queueCapacity : ℤ
  batchTokens : ℤ
  refillThresholdTokens : ℤ
  refillBatchSeconds : ℚ
  tokenRate : ℤ
  consumeTargetTokens : ℕ
  one_le_batch : 1 ≤ batchTokens
  one_le_threshold : 1 ≤ refillThresholdTokens
  threshold_lt_capacity : refillThresholdTokens < queueCapacity
  seconds_nonneg : 0 ≤ refillBatchSeconds
  one_le_rate : 1 ≤ tokenRate

/-- The parameters that `run_simulation_case` computes before its loop, with what
`configure_refill` returns. -/
def simCase (cfg : SimConfig) (tokenRate : TokenRate) (state : AlgorithmState) : SimCase where
  queueCapacity := cfg.queueCapacity
  batchTokens := state.batchTokens
  refillThresholdTokens :=
    rateBasedRefillThreshold state.refillBatchSeconds tokenRate cfg.queueCapacity
  refillBatchSeconds := if state.refillBatchSeconds < 0 then 0 else state.refillBatchSeconds
  tokenRate := tokenRate
  consumeTargetTokens := cfg.consumeTargetTokens.toNat
  one_le_batch := state.one_le_batch
  one_le_threshold := (rateBasedRefillThreshold_mem _ _ cfg.two_le_capacity).1
  threshold_lt_capacity := (rateBasedRefillThreshold_mem _ _ cfg.two_le_capacity).2
  seconds_nonneg := by split_ifs <;> linarith
  one_le_rate := tokenRate.2

/-- A refill: when it was started, when it is complete, and when it was credited. -/
structure RefillRecord where
  startTime : ℚ
  completeTime : ℚ
  size : ℤ
  creditTime : Option ℚ
  deriving DecidableEq

structure SimHistory where
  /-- The arrivals that were served or starved. -/
  arrivals : ℕ
  /-- The refills, the latest first. -/
  refills : List RefillRecord

/-- The variables of `run_simulation_case` that its loop changes. -/
structure SimState where
  queuedTokens : ℤ
  refillInFlight : Bool
  refillBatchSize : ℤ
  refillCompleteTime : ℚ
  nextArrivalTime : ℚ
  simulatedEndTime : ℚ
  producedTokens : ℕ
  servedTokens : ℕ
  starvedRequests : ℕ
  history : SimHistory

def SimHistory.credit (now : ℚ) (history : SimHistory) : SimHistory :=
  match history.refills with
  | [] => history
  | refill :: rest =>
      { history with refills := { refill with creditTime := some now } :: rest }

namespace SimCase

variable (c : SimCase)

def initial : SimState where
  queuedTokens := c.queueCapacity
  refillInFlight := false
  refillBatchSize := 0
  refillCompleteTime := 0
  nextArrivalTime := 0
  simulatedEndTime := 0
  producedTokens := 0
  servedTokens := 0
  starvedRequests := 0
  history := { arrivals := 0, refills := [] }

def interval : ℚ := 1 / c.tokenRate

def maybeStartRefill (now : ℚ) (s : SimState) : SimState :=
  if s.refillInFlight ∨ s.queuedTokens > c.refillThresholdTokens then s
  else
    let freeSlots := c.queueCapacity - s.queuedTokens
    if freeSlots ≤ 0 then s
    else
      let want := if c.batchTokens > freeSlots then freeSlots else c.batchTokens
      if want ≤ 0 then s
      else
        { s with
          refillInFlight := true
          refillBatchSize := want
          refillCompleteTime := now + c.refillBatchSeconds
          history.refills :=
            { startTime := now
              completeTime := now + c.refillBatchSeconds
              size := want
              creditTime := none } :: s.history.refills }

end SimCase

namespace SimState

/-- The condition of the loop of `settle_refills`. -/
def refillComplete (now : ℚ) (s : SimState) : Bool :=
  s.refillInFlight && decide (s.refillCompleteTime ≤ now)

/-- The assignments of the loop of `settle_refills`. -/
def creditRefill (now : ℚ) (s : SimState) : SimState :=
  { s with
    queuedTokens := s.queuedTokens + s.refillBatchSize
    producedTokens := s.producedTokens + s.refillBatchSize.toNat
    refillInFlight := false
    refillBatchSize := 0
    history := s.history.credit now }

def attempt (s : SimState) : SimState :=
  if s.queuedTokens > 0 then
    { s with
      queuedTokens := s.queuedTokens - 1
      servedTokens := s.servedTokens + 1
      history.arrivals := s.history.arrivals + 1 }
  else
    { s with
      starvedRequests := s.starvedRequests + 1
      history.arrivals := s.history.arrivals + 1 }

end SimState

namespace SimCase

variable (c : SimCase)

/-- The body of the loop of `settle_refills`. -/
def settleRefill (now : ℚ) (s : SimState) : SimState :=
  c.maybeStartRefill s.refillCompleteTime (s.creditRefill now)

def settleRefills (now : ℚ) (fuel : ℕ) (s : SimState) : Option SimState :=
  whileLoop (SimState.refillComplete now) (fun s => some (c.settleRefill now s)) fuel s

/-- `maybe_start_refill` after an attempt, and the end of the simulated time. -/
def afterAttempt (s : SimState) : SimState :=
  { c.maybeStartRefill s.nextArrivalTime s with simulatedEndTime := s.nextArrivalTime }

/-- `next_arrival_time += interval`. -/
def advance (s : SimState) : SimState :=
  { s with nextArrivalTime := s.nextArrivalTime + c.interval }

def unserved (s : SimState) : Bool := decide (s.servedTokens < c.consumeTargetTokens)

def arrival (fuel : ℕ) (s : SimState) : Option SimState :=
  (c.settleRefills s.nextArrivalTime fuel s).map fun s => c.advance (c.afterAttempt s.attempt)

def mainLoop (fuel : ℕ) (s : SimState) : Option SimState :=
  whileLoop c.unserved (c.arrival fuel) fuel s

/-- The loop of `run_simulation_case` and the call of `settle_refills` after it. -/
def simulate (fuel : ℕ) : Option SimState :=
  (c.mainLoop fuel c.initial).bind fun s => c.settleRefills s.simulatedEndTime fuel s

end SimCase

/-- `sim_result_t`. -/
structure SimResult where
  algorithm : SimAlgorithm
  tokenRate : ℤ
  queueCapacity : ℤ
  consumeTargetTokens : ℤ
  refillThresholdTokens : ℤ
  offeredLoad : ℚ
  measuredSeconds : ℚ
  producedTokens : ℕ
  servedTokens : ℕ
  starvedRequests : ℕ
  refillThroughput : ℚ
  servedTokenRate : ℚ
  serviceRatio : ℚ
  deriving DecidableEq

def perSecond (count seconds : ℚ) : ℚ := if seconds > 0 then count / seconds else 0

/-- What `run_simulation_case` reports at its end. -/
def SimCase.report (c : SimCase) (algorithm : SimAlgorithm) (s : SimState) : SimResult :=
  let measuredSeconds := s.simulatedEndTime
  let offeredLoad : ℚ := c.tokenRate
  let servedTokenRate := perSecond s.servedTokens measuredSeconds
  { algorithm
    tokenRate := c.tokenRate
    queueCapacity := c.queueCapacity
    consumeTargetTokens := c.consumeTargetTokens
    refillThresholdTokens := c.refillThresholdTokens
    offeredLoad
    measuredSeconds
    producedTokens := s.producedTokens
    servedTokens := s.servedTokens
    starvedRequests := s.starvedRequests
    refillThroughput := perSecond s.producedTokens measuredSeconds
    servedTokenRate
    serviceRatio := if offeredLoad > 0 then servedTokenRate / offeredLoad else 0 }

/-- `run_simulation_case`. The inner `none` stands for the return value 0. -/
def runSimulationCase (alg : SimAlgorithm) (measured : Option ℚ) (cfg : SimConfig)
    (tokenRate : TokenRate) (fuel : ℕ) : Option (Option SimResult) :=
  match alg.init cfg measured with
  | none => some none
  | some state =>
      let c := simCase cfg tokenRate state
      (c.simulate fuel).map fun s => some (c.report alg s)

section Specs

variable {c : SimCase} {now : ℚ} {s : SimState}

/-- Nothing is started, or a refill that fits into the queue. -/
theorem maybeStartRefill_cases (c : SimCase) (now : ℚ) (s : SimState) :
    ((s.refillInFlight = true ∨ c.refillThresholdTokens < s.queuedTokens) ∧
        c.maybeStartRefill now s = s) ∨
      ∃ want, s.refillInFlight = false ∧ s.queuedTokens ≤ c.refillThresholdTokens ∧ 1 ≤ want ∧
        want = min c.batchTokens (c.queueCapacity - s.queuedTokens) ∧
        c.maybeStartRefill now s =
          { s with
            refillInFlight := true
            refillBatchSize := want
            refillCompleteTime := now + c.refillBatchSeconds
            history.refills :=
              { startTime := now
                completeTime := now + c.refillBatchSeconds
                size := want
                creditTime := none } :: s.history.refills } := by
  have hbatch := c.one_le_batch
  have hthreshold := c.threshold_lt_capacity
  by_cases hskip : s.refillInFlight = true ∨ s.queuedTokens > c.refillThresholdTokens
  · exact .inl ⟨hskip, if_pos hskip⟩
  · obtain ⟨hidle, hlow⟩ := not_or.mp hskip
    have hwant : (if c.batchTokens > c.queueCapacity - s.queuedTokens then
        c.queueCapacity - s.queuedTokens else c.batchTokens) =
          min c.batchTokens (c.queueCapacity - s.queuedTokens) := by
      split_ifs <;> omega
    refine .inr ⟨_, Bool.eq_false_iff.mpr hidle, not_lt.mp hlow, ?_, rfl, ?_⟩
    · omega
    · rw [SimCase.maybeStartRefill, if_neg hskip]
      dsimp only
      rw [if_neg (by omega), hwant, if_neg (by omega)]

theorem maybeStartRefill_frame {α : Type} (component : SimState → α)
    (hframe : ∀ size time refills, component
      { s with
        refillInFlight := true
        refillBatchSize := size
        refillCompleteTime := time
        history.refills := refills } = component s) (c : SimCase) (now : ℚ) :
    component (c.maybeStartRefill now s) = component s := by
  obtain ⟨-, heq⟩ | ⟨want, -, -, -, -, heq⟩ := maybeStartRefill_cases c now s
  · rw [heq]
  · rw [heq]
    exact hframe _ _ _

theorem maybeStartRefill_of_inFlight (hflight : s.refillInFlight = true) :
    c.maybeStartRefill now s = s := if_pos (.inl hflight)

theorem maybeStartRefill_of_full (hfull : c.refillThresholdTokens < s.queuedTokens) :
    c.maybeStartRefill now s = s := if_pos (.inr hfull)

theorem attempt_of_pos (hpos : 0 < s.queuedTokens) :
    s.attempt =
      { s with
        queuedTokens := s.queuedTokens - 1
        servedTokens := s.servedTokens + 1
        history.arrivals := s.history.arrivals + 1 } := if_pos hpos

theorem attempt_of_not_pos (hpos : ¬ 0 < s.queuedTokens) :
    s.attempt =
      { s with
        starvedRequests := s.starvedRequests + 1
        history.arrivals := s.history.arrivals + 1 } := if_neg hpos

@[simp] theorem refillComplete_eq_true :
    s.refillComplete now = true ↔ s.refillInFlight = true ∧ s.refillCompleteTime ≤ now := by
  simp [SimState.refillComplete]

end Specs

section Fuel

variable {c : SimCase} {fuel fuel' : ℕ} {s t : SimState}

theorem settleRefills_mono {now : ℚ} (hle : fuel ≤ fuel')
    (h : c.settleRefills now fuel s = some t) : c.settleRefills now fuel' s = some t :=
  whileLoop_mono (fun _ _ => id) hle h

theorem arrival_mono (hle : fuel ≤ fuel') (h : c.arrival fuel s = some t) :
    c.arrival fuel' s = some t := by
  obtain ⟨u, hu, rfl⟩ := Option.map_eq_some_iff.mp h
  exact Option.map_eq_some_iff.mpr ⟨u, settleRefills_mono hle hu, rfl⟩

theorem mainLoop_mono (hle : fuel ≤ fuel') (h : c.mainLoop fuel s = some t) :
    c.mainLoop fuel' s = some t :=
  whileLoop_mono (fun _ _ => arrival_mono hle) hle h

theorem simulate_mono (hle : fuel ≤ fuel') (h : c.simulate fuel = some s) :
    c.simulate fuel' = some s := by
  obtain ⟨u, hu, h⟩ := Option.bind_eq_some_iff.mp h
  exact Option.bind_eq_some_iff.mpr ⟨u, mainLoop_mono hle hu, settleRefills_mono hle h⟩

theorem runSimulationCase_mono {alg : SimAlgorithm} {measured : Option ℚ} {cfg : SimConfig}
    {tokenRate : TokenRate} {result : Option SimResult} (hle : fuel ≤ fuel')
    (h : runSimulationCase alg measured cfg tokenRate fuel = some result) :
    runSimulationCase alg measured cfg tokenRate fuel' = some result := by
  unfold runSimulationCase at h ⊢
  cases hinit : alg.init cfg measured with
  | none => simpa only [hinit] using h
  | some state =>
      simp only [hinit] at h ⊢
      obtain ⟨s, hs, hresult⟩ := Option.map_eq_some_iff.mp h
      exact Option.map_eq_some_iff.mpr ⟨s, simulate_mono hle hs, hresult⟩

end Fuel

end Soko.Simulator
