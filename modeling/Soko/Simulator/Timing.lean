import Mathlib.Algebra.Order.BigOperators.Group.List
import Mathlib.Data.List.Chain
import Soko.Simulator.Conservation

/-!
The times of the refills. Along a run of the simulator the refills follow one another:
each takes the measured time of a batch, the next one is not started before it is
complete, and it is credited when it is complete, not earlier. So the tokens credited
up to a time are at most as many as the backend makes until then.
-/

namespace Soko.Simulator

open Soko.Library

def SimCase.flight (c : SimCase) (s : SimState) (creditTime : Option ℚ) : RefillRecord where
  startTime := s.refillCompleteTime - c.refillBatchSeconds
  completeTime := s.refillCompleteTime
  size := s.refillBatchSize
  creditTime := creditTime

def SimCase.pending (c : SimCase) (s : SimState) : List RefillRecord :=
  if s.refillInFlight then [c.flight s none] else []

/-- A refill as the backend makes it, started up to `clock`. -/
structure SimCase.Feasible (c : SimCase) (clock : ℚ) (refill : RefillRecord) : Prop where
  start_nonneg : 0 ≤ refill.startTime
  start_le : refill.startTime ≤ clock
  complete : refill.completeTime = refill.startTime + c.refillBatchSeconds
  size_le : refill.size ≤ c.batchTokens

/-- A refill credited up to `clock`, when it was complete. -/
def RefillRecord.CreditedBy (clock : ℚ) (refill : RefillRecord) : Prop :=
  ∃ time, refill.creditTime = some time ∧ refill.completeTime ≤ time ∧ time ≤ clock

/-- The refills do not overlap. -/
def Serial (refills : List RefillRecord) : Prop :=
  refills.IsChain fun newer older => older.completeTime ≤ newer.startTime

/-- The refills of a run up to `clock`. `done` are those credited. -/
structure SimCase.Timed (c : SimCase) (clock : ℚ) (s : SimState) (done : List RefillRecord) :
    Prop where
  clock_nonneg : 0 ≤ clock
  refills : s.history.refills = c.pending s ++ done
  feasible : ∀ refill ∈ s.history.refills, c.Feasible clock refill
  serial : Serial s.history.refills
  credited : ∀ refill ∈ done, refill.CreditedBy clock
  produced : (s.producedTokens : ℤ) = (done.map RefillRecord.size).sum

def SimState.clock (point : SimPoint) (s : SimState) : ℚ :=
  match point with
  | .settleHead last | .credited last => s.now last
  | .settled | .attempted => s.nextArrivalTime
  | .loopHead | .started | .finished => s.simulatedEndTime

variable {c : SimCase} {s : SimState} {clock clock' : ℚ} {done : List RefillRecord}

theorem SimCase.interval_pos (c : SimCase) : 0 < c.interval := by
  have hrate : (1 : ℚ) ≤ c.tokenRate := by exact_mod_cast c.one_le_rate
  exact one_div_pos.mpr (by linarith)

theorem pending_of_inFlight (hflight : s.refillInFlight = true) :
    c.pending s = [c.flight s none] := if_pos hflight

theorem pending_of_idle (hidle : s.refillInFlight = false) : c.pending s = [] := by
  simp [SimCase.pending, hidle]

theorem SimCase.Timed.later (h : c.Timed clock s done) (hle : clock ≤ clock') :
    c.Timed clock' s done where
  clock_nonneg := h.clock_nonneg.trans hle
  refills := h.refills
  feasible refill hmem :=
    { h.feasible refill hmem with start_le := (h.feasible refill hmem).start_le.trans hle }
  serial := h.serial
  credited := by
    intro refill hmem
    obtain ⟨time, hcredit, hcomplete, htime⟩ := h.credited refill hmem
    exact ⟨time, hcredit, hcomplete, htime.trans hle⟩
  produced := h.produced

/-- A refill is started at a time `now` at which none is in flight. -/
theorem timed_maybeStartRefill {now : ℚ} (h : c.Timed clock s done)
    (hnonneg : 0 ≤ now) (hle : now ≤ clock)
    (hlast : ∀ refill ∈ done.head?, refill.completeTime ≤ now) :
    c.Timed clock (c.maybeStartRefill now s) done := by
  obtain ⟨-, heq⟩ | ⟨want, hidle, -, hwant, hmin, heq⟩ := maybeStartRefill_cases c now s
  · rw [heq]
    exact h
  · have hdone : s.history.refills = done := by simpa [pending_of_idle hidle] using h.refills
    have hserial := h.serial
    rw [heq]
    refine ⟨h.clock_nonneg, ?_, ?_, ?_, h.credited, h.produced⟩
    · simp [SimCase.pending, SimCase.flight, hdone]
    · intro refill hmem
      obtain rfl | hmem := List.mem_cons.mp hmem
      · exact ⟨hnonneg, hle, rfl, hmin ▸ min_le_left _ _⟩
      · exact h.feasible refill hmem
    · rw [hdone] at hserial ⊢
      exact List.isChain_cons.mpr ⟨hlast, hserial⟩

/-- The refill credited is the one in flight; its record becomes the first of `done`. -/
theorem timed_creditRefill {now : ℚ} (h : c.Timed now s done) (hstock : c.Stock s)
    (hflight : s.refillInFlight = true) (hcomplete : s.refillCompleteTime ≤ now) :
    c.Timed now (s.creditRefill now) (c.flight s (some now) :: done) := by
  have hrefills := h.refills
  rw [pending_of_inFlight hflight, List.singleton_append] at hrefills
  have hfeasible := h.feasible
  have hserial := h.serial
  rw [hrefills] at hfeasible hserial
  have hfirst := hfeasible _ List.mem_cons_self
  have hcredit : (s.history.credit now).refills =
      c.flight s (some now) :: done := by
    simp [SimHistory.credit, hrefills, SimCase.flight]
  refine ⟨h.clock_nonneg, ?_, ?_, ?_, ?_, ?_⟩
  · simpa [SimState.creditRefill, SimCase.pending] using hcredit
  · simp only [SimState.creditRefill, hcredit]
    intro refill hmem
    obtain rfl | hmem := List.mem_cons.mp hmem
    · exact ⟨hfirst.start_nonneg, hfirst.start_le, hfirst.complete, hfirst.size_le⟩
    · exact hfeasible refill (List.mem_cons_of_mem _ hmem)
  · simp only [SimState.creditRefill, hcredit]
    exact List.isChain_cons.mpr (List.isChain_cons.mp hserial)
  · intro refill hmem
    obtain rfl | hmem := List.mem_cons.mp hmem
    · exact ⟨now, rfl, hcomplete, le_rfl⟩
    · exact h.credited refill hmem
  · have hbatch := hstock.batch_pos hflight
    have hproduced := h.produced
    simp only [SimState.creditRefill, SimCase.flight, List.map_cons, List.sum_cons]
    push_cast
    omega

theorem timed_attempt (h : c.Timed clock s done) : c.Timed clock s.attempt done := by
  unfold SimState.attempt
  split
  · exact { h with }
  · exact { h with }

/-- The clock of the next arrival is not before the time simulated. -/
theorem SimCase.Conserves.simulatedEndTime_le (h : c.Conserves .loopHead s) :
    s.simulatedEndTime ≤ s.nextArrivalTime := by
  have hnext : s.nextArrivalTime + 0 = s.history.arrivals * c.interval := h.clock
  have hend : s.simulatedEndTime = (s.history.arrivals - 1 : ℕ) * c.interval := h.elapsed
  have hmono : ((s.history.arrivals - 1 : ℕ) : ℚ) ≤ s.history.arrivals :=
    Nat.cast_le.mpr (Nat.sub_le _ 1)
  have hscaled := mul_le_mul_of_nonneg_right hmono c.interval_pos.le
  linarith

/-- When a refill was credited it was the latest. -/
def SimCase.Latest (point : SimPoint) (s : SimState) (done : List RefillRecord) : Prop :=
  match point with
  | .credited _ => s.refillInFlight = false ∧
      ∃ refill rest, done = refill :: rest ∧ refill.completeTime = s.refillCompleteTime
  | _ => True

theorem SimCase.Visits.timed {point : SimPoint} (h : c.Visits point s) :
    ∃ done, c.Timed (s.clock point) s done ∧ SimCase.Latest point s done := by
  refine h.induct (fun point s => ∃ done, c.Timed (s.clock point) s done ∧
    SimCase.Latest point s done) ?initial ?enter ?leave ?credit ?chain ?settle ?finish ?attempt
    ?start ?advance
  case initial =>
    exact ⟨[], ⟨le_rfl, rfl, by simp [SimCase.initial], .nil, by simp, rfl⟩, trivial⟩
  case enter =>
    rintro s hvisits ⟨done, htimed, -⟩ -
    exact ⟨done, htimed.later hvisits.conserves.simulatedEndTime_le, trivial⟩
  case leave =>
    rintro s - ⟨done, htimed, -⟩ -
    exact ⟨done, htimed, trivial⟩
  case credit =>
    rintro last s hvisits ⟨done, htimed, -⟩ hcomplete
    obtain ⟨hflight, hcomplete⟩ := refillComplete_eq_true.mp hcomplete
    exact ⟨c.flight s (some _) :: done,
      timed_creditRefill htimed hvisits.conserves.toStock hflight hcomplete, rfl, _, done, rfl, rfl⟩
  case chain =>
    rintro last s - ⟨done, htimed, hidle, refill, rest, rfl, hlast⟩
    have hrefills := htimed.refills
    rw [pending_of_idle hidle, List.nil_append] at hrefills
    have hfeasible := htimed.feasible refill (hrefills ▸ List.mem_cons_self)
    obtain ⟨time, -, hcomplete, htime⟩ := htimed.credited refill List.mem_cons_self
    have hseconds := c.seconds_nonneg
    refine ⟨refill :: rest, ?_, trivial⟩
    rw [SimState.clock, now_maybeStartRefill]
    refine timed_maybeStartRefill htimed ?_ ?_ ?_
    · rw [← hlast, hfeasible.complete]
      exact add_nonneg hfeasible.start_nonneg hseconds
    · exact hlast ▸ hcomplete.trans htime
    · simpa using hlast.le
  case settle =>
    rintro s - ⟨done, htimed, -⟩ -
    exact ⟨done, htimed, trivial⟩
  case finish =>
    rintro s - ⟨done, htimed, -⟩ -
    exact ⟨done, htimed, trivial⟩
  case attempt =>
    rintro s - ⟨done, htimed, -⟩
    refine ⟨done, ?_, trivial⟩
    rw [SimState.clock, nextArrivalTime_attempt]
    exact timed_attempt htimed
  case start =>
    rintro s - ⟨done, htimed, -⟩
    have hlast : ∀ refill ∈ done.head?, refill.completeTime ≤ s.nextArrivalTime := by
      intro refill hmem
      obtain ⟨time, -, hcomplete, htime⟩ := htimed.credited refill (List.mem_of_mem_head? hmem)
      exact hcomplete.trans htime
    have hstarted := timed_maybeStartRefill htimed htimed.clock_nonneg le_rfl hlast
    exact ⟨done, { hstarted with }, trivial⟩
  case advance =>
    rintro s - ⟨done, htimed, -⟩
    exact ⟨done, { htimed with }, trivial⟩

/-- Refills that do not overlap take their time one after the other. -/
theorem sum_size_mul_le {refills : List RefillRecord}
    (hfeasible : ∀ refill ∈ refills, c.Feasible clock refill) (hserial : Serial refills) :
    ∀ refill ∈ refills.head?,
      ((refills.map RefillRecord.size).sum : ℚ) * c.refillBatchSeconds ≤
        c.batchTokens * refill.completeTime := by
  have hseconds := c.seconds_nonneg
  have hbatch : (0 : ℚ) ≤ c.batchTokens := by exact_mod_cast zero_le_one.trans c.one_le_batch
  induction refills with
  | nil => simp
  | cons refill rest ih =>
      rintro refill' hhead
      obtain rfl : refill = refill' := by simpa using hhead
      obtain ⟨hnext, hserial⟩ := List.isChain_cons.mp hserial
      have hfirst := hfeasible refill List.mem_cons_self
      have hsize : (refill.size : ℚ) * c.refillBatchSeconds ≤
          c.batchTokens * c.refillBatchSeconds :=
        mul_le_mul_of_nonneg_right (by exact_mod_cast hfirst.size_le) hseconds
      have hbefore : ((rest.map RefillRecord.size).sum : ℚ) * c.refillBatchSeconds ≤
          c.batchTokens * refill.startTime := by
        cases rest with
        | nil =>
            simpa using mul_nonneg hbatch hfirst.start_nonneg
        | cons older rest =>
            have holder := ih (fun refill hmem => hfeasible refill (List.mem_cons_of_mem _ hmem))
              hserial older rfl
            exact holder.trans (mul_le_mul_of_nonneg_left (hnext older rfl) hbatch)
      rw [hfirst.complete]
      simp only [List.map_cons, List.sum_cons, Int.cast_add, add_mul, mul_add]
      linarith

/-- The tokens credited up to a time are at most those the backend makes until then. -/
theorem SimCase.Timed.produced_mul_le (h : c.Timed clock s done) :
    (s.producedTokens : ℚ) * c.refillBatchSeconds ≤ c.batchTokens * clock := by
  have hbatch : (0 : ℚ) ≤ c.batchTokens := by exact_mod_cast zero_le_one.trans c.one_le_batch
  have hproduced : (s.producedTokens : ℚ) = ((done.map RefillRecord.size).sum : ℤ) := by
    exact_mod_cast h.produced
  rw [hproduced]
  cases done with
  | nil => simpa using mul_nonneg hbatch h.clock_nonneg
  | cons refill rest =>
      have hfeasible : ∀ other ∈ refill :: rest, c.Feasible clock other := fun other hmem =>
        h.feasible other (h.refills ▸ List.mem_append_right _ hmem)
      have hserial : Serial (refill :: rest) := by
        have := h.serial
        rw [Serial, h.refills] at this
        exact this.right_of_append
      obtain ⟨time, -, hcomplete, htime⟩ := h.credited refill List.mem_cons_self
      exact (sum_size_mul_le hfeasible hserial refill rfl).trans
        (mul_le_mul_of_nonneg_left (hcomplete.trans htime) hbatch)

end Soko.Simulator
