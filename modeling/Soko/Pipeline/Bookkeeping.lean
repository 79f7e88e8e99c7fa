import Soko.Pipeline.Views

/-!
The books of the pipeline in every reachable state, and what follows for the
error codes: an enqueue never runs out of room and a pop never finds the queue
empty, so that `acquire` only returns 0, -213 or the result of a generation.
-/

namespace Soko.Pipeline

open Soko.Library Handshake State

/-- The results of `soko_gpu_generate_presign_bank_dynamic`, with those of
`soko_gpu_backend_load` and `oofalcon_gpu_generate_presign_bank`. -/
def presignResults : List ℤ :=
  [0, -100, -101, -102, -104, -105, -106, 1, 2, 9, 11, 12, 13, 15, 16, 17, 99]

/-- What `acquire` may return when no argument is `NULL`. -/
def State.AcquireCode (s : State) (code : ℤ) : Prop :=
  code = 0 ∨ code = -213 ∨ (code ≠ 0 ∧ s.history.outcome s.created = some code)

structure State.Consistent (s : State) : Prop where
  /-- A counter is the number of queue entries of its bank. -/
  remaining_eq : ∀ b < s.pipeline.bankCount, s.pipeline.bankRemaining b =
    (s.pipeline.queue.toList.filter fun ref => ref.bankId = b).length
  remaining_le : ∀ b < s.pipeline.bankCount,
    s.pipeline.bankRemaining b ≤ s.pipeline.tokensPerBank
  /-- The entries of a bank are its last tokens, in increasing order. -/
  entries : ∀ b < s.pipeline.bankCount,
    s.pipeline.queue.toList.filter (fun ref => ref.bankId = b) =
      bankRefs b (s.pipeline.tokensPerBank - (s.pipeline.bankRemaining b).toNat)
        (s.pipeline.bankRemaining b).toNat
  count_eq : (s.pipeline.queue.count : ℤ) =
    ∑ b ∈ Finset.range s.pipeline.bankCount, s.pipeline.bankRemaining b
  count_le : s.pipeline.queue.count ≤ s.pipeline.queue.capacity
  queued_lt : ∀ ref ∈ s.pipeline.queue.toList,
    ref.bankId < s.pipeline.bankCount ∧ ref.tokenIndex < s.pipeline.tokensPerBank
  view_lt : ∀ v, s.view = some v →
    v.bankId < s.pipeline.bankCount ∧ v.tokenIndex < s.pipeline.tokensPerBank
  /-- A bank is empty from the launch of its refill until that is collected. -/
  refilling : s.Outstanding → s.pipeline.bankRemaining s.pipeline.worker.call.bankId = 0
  generating : ∀ id call, s.threads id = .generating call →
    s.pipeline.bankRemaining call.bankId = 0
  /-- Enqueueing a refill does not fail. -/
  enqueued : ∀ call, s.consumer = .finishStoreDone call → s.pipeline.worker.result = 0 →
    (sokoEnqueueBankTokens s.pipeline.queue s.pipeline.worker.call.bankId
      s.pipeline.tokensPerBank).1 = true
  /-- Every step with which `acquire` returns does so with an admissible code. -/
  returns : ∀ starts s', consumerStep starts s = some s' → s.consumer.InAcquire →
    s'.consumer = .outside → ∃ code, s'.lastReturn = some code ∧ s.AcquireCode code

/-- The code of the step with which `acquire` returns. -/
theorem acquireCode_of_effect {s s' : State} (hlatest : s.Latest) (he : ConsumerEffect s s')
    (hin : s.consumer.InAcquire) (hout : s'.consumer = .outside) :
    ∃ code, s'.lastReturn = some code ∧ s.AcquireCode code := by
  cases he with
  | quiet hq =>
      obtain ⟨-, hiff⟩ | ⟨-, -, hfail⟩ := hq.lastReturn
      · rw [hout] at hiff
        exact absurd (hiff.mpr hin) id
      · exact ⟨_, hfail, .inr (.inl rfl)⟩
  | launch => contradiction
  | report hdone _ hresult =>
      exact ⟨_, rfl, .inr (.inr ⟨hresult, hlatest.outcome (.inr hdone)⟩)⟩
  | collect call => cases call <;> contradiction
  | pop => exact ⟨0, rfl, .inl rfl⟩

/-- The codes of an impossible overflow are not results of a generation. -/
theorem not_overflow_of_acquireCode {s : State} {code : ℤ} (h : s.AcquireCode code)
    (hresults : ∀ id result, s.history.outcome id = some result → result ∈ presignResults) :
    code ≠ -212 ∧ code ≠ -214 ∧ code ≠ -215 := by
  obtain rfl | rfl | ⟨-, hout⟩ := h
  · decide
  · decide
  · have hmem := hresults _ _ hout
    refine ⟨?_, ?_, ?_⟩ <;>
    · rintro rfl
      exact absurd hmem (by decide)

/-- In every reachable state queue, counters and worker agree, `acquire` returns
an admissible code, which is none of -212, -214 and -215 when the generations
return what the code of the generation returns, and `init` never returns -211. -/
theorem pipeline_consistent {pipeline : SokoFalconRefillPipeline} {s : State}
    (h : Run anyAction pipeline s) :
    s.Consistent ∧
    ((∀ id result, s.history.outcome id = some result → result ∈ presignResults) →
      ∀ code, s.AcquireCode code → code ≠ -212 ∧ code ≠ -214 ∧ code ≠ -215) ∧
    ∀ args allocs, (sokoFalconRefillPipelineInit args allocs).1 ≠ -211 := by
  have hsound := h.sound
  have hledger := hsound.accounting.ledger
  obtain ⟨-, hviewed⟩ := h.filled_viewed
  refine ⟨?_, fun hresults code hcode => not_overflow_of_acquireCode hcode hresults, ?_⟩
  · constructor
    case remaining_eq =>
      intro b _
      rw [hledger.entries b, bankRefs_length]
      exact (Int.toNat_of_nonneg (hledger.nonneg b)).symm
    case remaining_le => exact fun b _ => hledger.le_tokens b
    case entries => exact fun b _ => hledger.entries b
    case count_eq => exact hledger.count_eq
    case count_le => exact hledger.wf.count_le
    case queued_lt =>
      exact fun ref href => ⟨hledger.bankId_lt href, hledger.tokenIndex_lt href⟩
    case view_lt =>
      exact fun v hv => ⟨(hviewed.view v hv).bankId_lt, (hviewed.view v hv).tokenIndex_lt⟩
    case refilling => exact fun hout => (hsound.accounting.target.outstanding hout).2
    case generating =>
      intro id call hgen
      have hactive : (s.threads id).Active := by rw [hgen]; trivial
      obtain rfl := hsound.protocol.eq_created hactive
      rw [hsound.accounting.target.generating call hgen]
      exact (hsound.accounting.target.outstanding (.inl hactive)).2
    case enqueued =>
      intro call hpc _
      have hphase := hsound.protocol.phase
      rw [hpc] at hphase
      have hempty := hsound.accounting.target.outstanding (.inr hphase.done)
      obtain ⟨queue, hcall, -⟩ := hledger.enqueue hempty.1 hempty.2
      rw [hcall]
    case returns =>
      intro starts s' hs hin hout
      have he := consumerStep_effect hsound.protocol hsound.accounting hsound.flow hs
      exact acquireCode_of_effect h.provenance.latest he hin hout
  · intro args allocs
    obtain hfail | ⟨created, hok, -⟩ := sokoFalconRefillPipelineInit_cases args allocs
    · rw [hfail]
      exact (by decide : (-210 : ℤ) ≠ -211)
    · rw [hok]
      exact (by decide : (0 : ℤ) ≠ -211)

theorem pipeline_consistent_twoTokens :
    ∃ s, execute step anyAction twoTokens (.initial (twoBankPipeline 0)) = some s ∧ s.Consistent ∧
      ((∀ id result, s.history.outcome id = some result → result ∈ presignResults) →
        ∀ code, s.AcquireCode code → code ≠ -212 ∧ code ≠ -214 ∧ code ≠ -215) ∧
      ∀ args allocs, (sokoFalconRefillPipelineInit args allocs).1 ≠ -211 :=
  ⟨_, rfl, pipeline_consistent (.of_execute twoTokens (initialised_twoBankPipeline 0) rfl)⟩

end Soko.Pipeline
