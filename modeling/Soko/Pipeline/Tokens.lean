import Mathlib
import Soko.Gpu.PresignRequest
import Soko.Pipeline.Seeds
import Soko.Pipeline.Views

/-!
The pipeline with the GPU as its generator. Whatever the interleaving of the consumer, the
refill threads and the blocks of the kernel is, the view of every token that `acquire` hands
out fulfils the presign equation for the key of the pipeline (`view_tokenEquation`).
-/

namespace Soko.Pipeline

open Soko.Library Soko.Gpu State

/-- The presign equation of the token at `offset`. -/
structure TokenEquation (n : ℕ) (h : ℕ → UInt16) (offset : ℕ) (contents : BankContents) :
    Prop where
  target_lt : ∀ j < n, (contents.target (offset + j)).toNat < 12289
  target_eq : ringElement n (fun j => residue16 (contents.target (offset + j))) =
    ringElement n (fun j => ((contents.s1 (offset + j)).toInt : ZMod 12289)) -
      ringElement n (fun j => residue16 (h j)) *
        ringElement n (fun j => ((contents.s2 (offset + j)).toInt : ZMod 12289))

/-- `contents` is what a successful call of the GPU leaves in the arrays of a bank. -/
def GenerateCall.Generates (call : GenerateCall) (contents : BankContents) : Prop :=
  ∃ banks, Presigned call.hCoeffs call.logn call.tokens call.seed banks ∧
    ∀ i < call.tokens * 2 ^ call.logn, contents.s1 i = banks.sample1 i ∧
      contents.s2 i = banks.sample2 i ∧ contents.target i = banks.target i

/-- The generation of a thread leaves in its bank what the GPU has generated, if it returns 0. -/
def generatesOnGpu : Action → State → Prop
  | .generated id result contents, s =>
      ∀ call, s.threads id = .generating call → result = 0 → call.Generates contents
  | _, _ => True

def BankContents.Presigned (pipeline : SokoFalconRefillPipeline) (contents : BankContents) :
    Prop :=
  ∀ token < pipeline.tokensPerBank, TokenEquation (2 ^ pipeline.logn) pipeline.hCoeffs
    (token * 2 ^ pipeline.logn) contents

/-- A call with the key and the sizes of a pipeline. -/
structure GenerateCall.IsOf (call : GenerateCall) (pipeline : SokoFalconRefillPipeline) :
    Prop where
  hCoeffs : call.hCoeffs = pipeline.hCoeffs
  logn : call.logn = pipeline.logn
  tokens : call.tokens = pipeline.tokensPerBank

theorem GenerateCall.Generates.presigned {call : GenerateCall} {contents : BankContents}
    {pipeline : SokoFalconRefillPipeline} (hgenerates : call.Generates contents)
    (hcall : call.IsOf pipeline) (hh : ∀ j < 2 ^ pipeline.logn, (pipeline.hCoeffs j).toNat < 12289)
    (hsize : pipeline.tokensPerBank * 2 ^ pipeline.logn ≤ 2 ^ 31) :
    contents.Presigned pipeline := by
  obtain ⟨banks, hpresigned, hcopied⟩ := hgenerates
  obtain ⟨hCoeffs, hlogn, htokens⟩ := hcall
  rw [hCoeffs, hlogn, htokens] at hpresigned
  rw [hlogn, htokens] at hcopied
  intro token htoken
  have hequation := hpresigned.equation hh hsize htoken
  have hcell : ∀ j < 2 ^ pipeline.logn,
      bankIndex token (2 ^ pipeline.logn) j = ((token * 2 ^ pipeline.logn + j : ℕ) : ℤ) ∧
        token * 2 ^ pipeline.logn + j < pipeline.tokensPerBank * 2 ^ pipeline.logn := by
    intro j hj
    have hplace := place_lt htoken hj
    refine ⟨?_, hplace⟩
    rw [(bankIndex_eq_iff token (2 ^ pipeline.logn) j).mpr (by omega)]
    push_cast
    rfl
  constructor
  · intro j hj
    obtain ⟨hindex, hplace⟩ := hcell j hj
    rw [(hcopied _ hplace).2.2, ← hindex]
    exact hequation.target_lt j hj
  · have htarget := hequation.target_eq
    rw [ringElement_congr fun j hj => congrArg residue16 ((hcopied _ (hcell j hj).2).2.2),
      ringElement_congr fun j hj => congrArg (fun x : Int8 => (x.toInt : ZMod 12289))
        (hcopied _ (hcell j hj).2).1,
      ringElement_congr fun j hj => congrArg (fun x : Int8 => (x.toInt : ZMod 12289))
        (hcopied _ (hcell j hj).2).2.1]
    rw [ringElement_congr fun j hj => congrArg (fun i => residue16 (banks.target i))
        (hcell j hj).1,
      ringElement_congr fun j hj => congrArg (fun i => ((banks.sample1 i).toInt : ZMod 12289))
        (hcell j hj).1,
      ringElement_congr fun j hj => congrArg (fun i => ((banks.sample2 i).toInt : ZMod 12289))
        (hcell j hj).1] at htarget
    exact htarget

/-- Every refill is called with the key and the sizes of the pipeline. -/
structure Keyed (pipeline : SokoFalconRefillPipeline) (s : State) : Prop where
  starting : s.consumer.Starting → s.pipeline.worker.call.IsOf pipeline
  entry : ∀ id, s.threads id = .entry → s.pipeline.worker.call.IsOf pipeline
  generating : ∀ id call, s.threads id = .generating call → call.IsOf pipeline

section Keys

variable {pipeline : SokoFalconRefillPipeline} {s s' : State}

theorem Keyed.keep (h : Keyed pipeline s)
    (hcall : s'.pipeline.worker.call = s.pipeline.worker.call) (hthreads : s'.threads = s.threads)
    (hstarting : s'.consumer.Starting → s.consumer.Starting) : Keyed pipeline s' where
  starting hst := hcall ▸ h.starting (hstarting hst)
  entry id hentry := by
    rw [hcall]
    exact h.entry id (hthreads ▸ hentry)
  generating id call hpc := h.generating id call (hthreads ▸ hpc)

theorem Keyed.moveThread (h : Keyed pipeline s) (id : ℕ) {pc : ThreadPc}
    (hcall : s'.pipeline.worker.call = s.pipeline.worker.call)
    (hconsumer : s'.consumer = s.consumer)
    (hthreads : s'.threads = Function.update s.threads id pc) (hentry : pc ≠ .entry)
    (hpc : ∀ call, pc = .generating call → call.IsOf pipeline) : Keyed pipeline s' where
  starting hst := by
    rw [hcall]
    exact h.starting (hconsumer ▸ hst)
  entry i hi := by
    rw [hthreads] at hi
    by_cases heq : i = id
    · subst heq
      rw [Function.update_self] at hi
      exact absurd hi hentry
    · rw [Function.update_of_ne heq] at hi
      rw [hcall]
      exact h.entry i hi
  generating i call hi := by
    rw [hthreads] at hi
    by_cases heq : i = id
    · subst heq
      rw [Function.update_self] at hi
      exact hpc call hi
    · rw [Function.update_of_ne heq] at hi
      exact h.generating i call hi

theorem keyed_consumerStep {starts : Bool} (hsame : SameParameters (.initial pipeline) s)
    (h : Keyed pipeline s) (hs : consumerStep starts s = some s') : Keyed pipeline s' := by
  cases hpc : s.consumer <;> simp only [consumerStep, hpc] at hs
  case outside | destroyed => contradiction
  case finishLoadDone call =>
    split at hs <;> cases hs
    · exact h.keep rfl rfl False.elim
    · cases call <;> exact h.keep rfl rfl False.elim
  case joinLoadStarted caller =>
    split at hs <;> cases hs
    · exact h.keep rfl rfl False.elim
    · cases caller <;> exact h.keep rfl rfl False.elim
  case joinWait caller =>
    split at hs <;> cases hs <;> exact h.keep rfl rfl False.elim
  case joinStoreStarted caller =>
    cases hs
    cases caller <;> exact h.keep rfl rfl False.elim
  case finishStoreDone call =>
    cases hs
    obtain ⟨-, hcall, -, -, hst⟩ := finishCollect_frame (s.storeDone false) call
    obtain ⟨-, hthreads, -⟩ := finishCollect_handshake (s.storeDone false) call
    exact h.keep hcall hthreads fun hstarting => absurd hstarting hst
  case acquireLoadInFlight =>
    split at hs
    · split at hs <;> cases hs <;> exact h.keep rfl rfl False.elim
    · cases hs
      exact h.keep rfl rfl False.elim
  case startLoadInFlight args =>
    split at hs <;> cases hs <;> exact h.keep rfl rfl False.elim
  case startStoreDone args =>
    cases hs
    have hcall : GenerateCall.IsOf ((s.setCall args).storeDone false).pipeline.worker.call
        pipeline := ⟨hsame.hCoeffs, hsame.logn, hsame.tokens⟩
    exact ⟨fun _ => hcall, fun _ _ => hcall, h.generating⟩
  case startStoreInFlight | startStoreStarted =>
    cases hs
    exact h.keep rfl rfl fun _ => by rw [hpc]; trivial
  case startThread =>
    have hcall := h.starting (by rw [hpc]; trivial)
    split at hs <;> cases hs
    · refine ⟨False.elim, fun _ _ => hcall, fun id call hid => ?_⟩
      have hid : Function.update s.threads (s.created + 1) .entry id = .generating call := hid
      by_cases heq : id = s.created + 1
      · rw [heq, Function.update_self] at hid
        cases hid
      · rw [Function.update_of_ne heq] at hid
        exact h.generating id call hid
    · exact h.keep rfl rfl False.elim
  case startFailStoreInFlight | startFailStoreStarted =>
    cases hs
    exact h.keep rfl rfl False.elim
  case waitHead | waitLoadDone | destroyLoadStarted =>
    split at hs <;> cases hs <;> exact h.keep rfl rfl False.elim
  case acquirePop =>
    cases hs
    obtain ⟨-, hcall, -⟩ := popToken_frame s
    obtain ⟨-, hthreads, hout⟩ := popToken_handshake s
    refine h.keep hcall hthreads fun hst => ?_
    rw [hout] at hst
    exact hst.elim

theorem keyed_step {a : Action} (hsame : SameParameters (.initial pipeline) s)
    (h : Keyed pipeline s) (hs : step a s = some s') : Keyed pipeline s' := by
  cases a with
  | acquire nullArgument =>
      simp only [step, beginAcquire] at hs
      split at hs
      · split at hs <;> cases hs <;> exact h.keep rfl rfl False.elim
      · contradiction
  | destroy =>
      simp only [step, beginDestroy] at hs
      split at hs <;> cases hs
      exact h.keep rfl rfl False.elim
  | consumer starts => exact keyed_consumerStep hsame h hs
  | thread id =>
      cases hpc : s.threads id <;> simp only [step, threadStep, hpc] at hs
      case absent | generating | exited => contradiction
      case entry =>
        cases hs
        refine h.moveThread id rfl rfl rfl (by simp) fun call hcall => ?_
        cases hcall
        exact h.entry id hpc
      case storeDone | storeInFlight =>
        cases hs
        exact h.moveThread id rfl rfl rfl (by simp) fun call hcall => by cases hcall
  | write id contents =>
      cases hpc : s.threads id <;> simp only [step, threadWrite, hpc] at hs
      case generating call =>
        cases hs
        exact h.keep rfl rfl fun hst => hst
      all_goals contradiction
  | generated id result contents =>
      cases hpc : s.threads id <;> simp only [step, threadGenerated, hpc] at hs
      case generating call =>
        cases hs
        exact h.moveThread id rfl rfl rfl (by simp) fun call hcall => by cases hcall
      all_goals contradiction

end Keys

/-- What the enqueued refills have generated, and the latest one if it has not failed. -/
structure Produces (good : BankContents → Prop) (s : State) : Prop where
  enqueued : ∀ fill ∈ 0 :: s.history.enqueued, good (s.history.produced fill)
  latest : s.Generated → s.pipeline.worker.result = 0 → good (s.history.produced s.created)

section Produced

variable {good : BankContents → Prop} {s s' : State}

theorem produces_of_idle (henqueued : ∀ fill ∈ 0 :: s.history.enqueued,
    good (s.history.produced fill)) (hthread : s.threads s.created ≠ .storeDone)
    (hdone : s.pipeline.worker.done = false) : Produces good s := by
  refine ⟨henqueued, ?_⟩
  rintro (hstore | hset)
  · exact absurd hstore hthread
  · rw [hdone] at hset
    contradiction

theorem produces_consumerEffect (h : Produces good s) (he : ConsumerEffect s s') :
    Produces good s' := by
  cases he with
  | quiet hq =>
      refine ⟨by rw [hq.history]; exact h.enqueued, fun hgen hresult => ?_⟩
      obtain ⟨hgen, -, hsame⟩ := hq.generated hgen
      rw [hq.history, hq.created]
      exact h.latest hgen (hsame ▸ hresult)
  | launch hidle hdone =>
      exact produces_of_idle h.enqueued (by rw [createThread_latest]; simp) hdone
  | report hdone hexited =>
      exact produces_of_idle h.enqueued
        (fun hstore => by cases hexited.symm.trans hstore) rfl
  | collect call hdone hexited hresult =>
      have hlatest := h.latest (.inr hdone) hresult
      have hall : ∀ fill ∈ 0 :: (s.history.enqueued ++ [s.created]),
          good (s.history.produced fill) := by
        intro fill hfill
        rw [← List.cons_append, List.mem_append, List.mem_singleton] at hfill
        rcases hfill with hfill | rfl
        · exact h.enqueued fill hfill
        · exact hlatest
      cases call <;>
        exact produces_of_idle hall (fun hstore => by cases hexited.symm.trans hstore) rfl
  | pop => exact ⟨h.enqueued, h.latest⟩

/-- A generation that returns 0 produces what it should. -/
theorem produces_effect {pipeline : SokoFalconRefillPipeline} {a : Action}
    (hgood : ∀ (call : GenerateCall) contents, call.IsOf pipeline → call.Generates contents →
      good contents)
    (hsound : s.Sound) (hnumbered : s.Numbered) (hkeyed : Keyed pipeline s) (h : Produces good s)
    (hok : generatesOnGpu a s) (hs : step a s = some s') : Produces good s' := by
  have hdone := hsound.protocol.done_iff
  cases a with
  | acquire nullArgument =>
      simp only [step, beginAcquire] at hs
      split at hs
      · split at hs <;> cases hs <;> exact ⟨h.enqueued, h.latest⟩
      · contradiction
  | destroy =>
      simp only [step, beginDestroy] at hs
      split at hs <;> cases hs
      exact ⟨h.enqueued, h.latest⟩
  | consumer starts =>
      exact produces_consumerEffect h
        (consumerStep_effect hsound.protocol hsound.accounting hsound.flow hs)
  | thread id =>
      cases hpc : s.threads id <;> simp only [step, threadStep, hpc] at hs
      case absent | generating | exited => contradiction
      all_goals
        obtain rfl := hsound.protocol.eq_created (show (s.threads id).Active by rw [hpc]; trivial)
        rw [hpc] at hdone
      case entry =>
        cases hs
        refine produces_of_idle h.enqueued ?_
          (Bool.eq_false_iff.mpr fun hset => by cases (hdone trivial).mp hset)
        intro hstore
        cases (moveThread_self (s.readCall s.created) _ _).symm.trans hstore
      case storeDone =>
        cases hs
        exact ⟨h.enqueued, fun _ => h.latest (.inl hpc)⟩
      case storeInFlight =>
        cases hs
        exact ⟨h.enqueued, fun _ => h.latest (.inr ((hdone trivial).mpr rfl))⟩
  | write id contents =>
      cases hpc : s.threads id <;> simp only [step, threadWrite, hpc] at hs
      case generating call =>
        cases hs
        exact ⟨h.enqueued, h.latest⟩
      all_goals contradiction
  | generated id result contents =>
      cases hpc : s.threads id <;> simp only [step, threadGenerated, hpc] at hs
      case generating call =>
        obtain rfl := hsound.protocol.eq_created (show (s.threads id).Active by rw [hpc]; trivial)
        cases hs
        have hlt := hnumbered.lt_created (.inl (by rw [hpc]; trivial))
        refine ⟨fun fill hfill => ?_, fun _ hresult => ?_⟩
        · have hkept : Function.update s.history.produced s.created contents fill =
              s.history.produced fill := Function.update_of_ne (hlt fill hfill).ne _ _
          have hold := h.enqueued fill hfill
          rw [← hkept] at hold
          exact hold
        · have hself : Function.update s.history.produced s.created contents s.created =
              contents := Function.update_self ..
          have hnew := hgood call contents (hkeyed.generating _ call hpc) (hok call hpc hresult)
          rw [← hself] at hnew
          exact hnew
      all_goals contradiction

end Produced

/-- Along every run whose generations run on the GPU, with bank 0 generated in the same way, the
view of the latest `acquire` shows samples and targets that fulfil the presign equation. -/
theorem view_tokenEquation {pipeline : SokoFalconRefillPipeline} {s : State}
    (hrun : Run generatesOnGpu pipeline s)
    (hh : ∀ j < 2 ^ pipeline.logn, (pipeline.hCoeffs j).toNat < 12289)
    (hsize : pipeline.tokensPerBank * 2 ^ pipeline.logn ≤ 2 ^ 31) {first : GenerateCall}
    (hfirst : first.IsOf pipeline) (hgenerates : first.Generates (pipeline.banks 0).toBankContents)
    {v : SokoFalconTokenView} (hview : s.view = some v) :
    v.tokenIndex < pipeline.tokensPerBank ∧
      TokenEquation (2 ^ pipeline.logn) pipeline.hCoeffs v.offset (s.contentsOf v.bankId) := by
  have hgood : ∀ (call : GenerateCall) (contents : BankContents), call.IsOf pipeline →
      call.Generates contents → contents.Presigned pipeline := fun call contents hcall hgenerates =>
    hgenerates.presigned hcall hh hsize
  have hinv : s.Provenance ∧ Keyed pipeline s ∧ Produces (·.Presigned pipeline) s := by
    refine hrun.induct (fun s => SameParameters (.initial pipeline) s ∧ s.Provenance ∧
      Keyed pipeline s ∧ Produces (·.Presigned pipeline) s) ?_ ?_ |>.2
    · refine ⟨⟨rfl, rfl, rfl, rfl, rfl⟩, provenance_initial hrun.1,
        ⟨False.elim, fun id hid => (by cases hid), fun id call hid => (by cases hid)⟩, ?_⟩
      obtain ⟨-, -, hworker, -⟩ := hrun.1.spec
      refine produces_of_idle (fun fill hfill => ?_) (by simp [State.initial])
        (congrArg SokoRefillWorker.done hworker)
      exact hgood first _ hfirst hgenerates
    · rintro a s s' hsound - ⟨hsame, hprov, hkeyed, hproduces⟩ hok hs he
      exact ⟨hsame.trans (sameParameters_step hs), provenance_effect hsound hprov he,
        keyed_step hsame hkeyed hs,
        produces_effect hgood hsound hprov.numbered hkeyed hproduces hok hs⟩
  obtain ⟨hprov, -, hproduces⟩ := hinv
  have hof := hrun.filled_viewed.2.view v hview
  have hsame := hrun.sameParameters
  have hindex : v.tokenIndex < pipeline.tokensPerBank := hsame.tokens ▸ hof.tokenIndex_lt
  refine ⟨hindex, ?_⟩
  -- the token has come out of the stream of bank 0 and the enqueued refills
  have hmem : (s.history.fillOf v.bankId, v.tokenIndex) ∈
      tokenStream s.pipeline.tokensPerBank (0 :: s.history.enqueued) := by
    rw [← hprov.streamed]
    exact List.mem_append_left _ (List.mem_of_getLast? hof.token)
  obtain ⟨fill, hfill, htoken⟩ := List.mem_flatMap.mp hmem
  obtain ⟨i, -, heq⟩ := List.mem_map.mp htoken
  obtain rfl : fill = s.history.fillOf v.bankId := congrArg Prod.fst heq
  have hpresigned := hproduces.enqueued _ hfill v.tokenIndex hindex
  rw [hof.contents, hof.offset_eq, hsame.logn]
  exact hpresigned

/-- Arguments of `init` for the key `5 - X` and two banks of one token each. -/
def sampleKeyArgs (contents : BankContents) : InitArgs :=
  { twoBanks 0 with
    hCoeffs := some sampleKey
    banks := some fun _ => { contents with available := false } }

def sampleKeyPipeline (contents : BankContents) : SokoFalconRefillPipeline :=
  (sokoFalconRefillPipelineInit (sampleKeyArgs contents)
    ⟨true, true, some fun _ => ⟨0, 0⟩⟩).2.get rfl

theorem exists_generates (fuel : ℕ) {bankId : ℕ} {seed : UInt32}
    (hdraws : ∀ j < 2 ^ 1, (drawSamples fuel seed 0 j).isSome) :
    ∃ contents, GenerateCall.Generates ⟨sampleKey, 1, seed, 1, bankId⟩ contents := by
  obtain ⟨banks, hpresigned⟩ := exists_presigned_sampleKey hdraws
  exact ⟨⟨fun i => banks.sample1 i, fun i => banks.sample2 i, fun i => banks.target i⟩, banks,
    hpresigned, fun _ _ => ⟨rfl, rfl, rfl⟩⟩

def withoutGeneration : Action → State → Prop
  | .generated _ _ _, _ => False
  | _, _ => True

instance (a : Action) (s : State) : Decidable (withoutGeneration a s) := by
  cases a <;> unfold withoutGeneration <;> infer_instance

/-- The second `acquire` collects refill 1 and hands out its token. -/
theorem view_tokenEquation_sampleKey : ∃ pipeline s v, Run generatesOnGpu pipeline s ∧
    s.history.returned = [(0, 0), (1, 0)] ∧ s.view = some v ∧
      TokenEquation (2 ^ 1) sampleKey v.offset (s.contentsOf v.bankId) := by
  obtain ⟨first, hfirst⟩ : ∃ first, GenerateCall.Generates ⟨sampleKey, 1, 7, 1, 0⟩ first :=
    exists_generates 4 (by decide +kernel)
  obtain ⟨refill, hrefill⟩ : ∃ refill, GenerateCall.Generates ⟨sampleKey, 1, 1, 1, 0⟩ refill :=
    exists_generates 4 (by decide +kernel)
  have hinit : Initialised (sampleKeyPipeline first) :=
    ⟨sampleKeyArgs first, ⟨true, true, some fun _ => ⟨0, 0⟩⟩, rfl⟩
  obtain ⟨s, hs, hcall, t, ht, u, hu, hreturned, hview⟩ : ∃ s,
      execute step withoutGeneration (toWaitLoop ++ [.thread 1])
        (.initial (sampleKeyPipeline first)) = some s ∧
      s.threads 1 = .generating ⟨sampleKey, 1, 1, 1, 0⟩ ∧
      ∃ t, step (.generated 1 0 refill) s = some t ∧
      ∃ u, execute step withoutGeneration ([.thread 1, .thread 1] ++
        List.replicate 8 (.consumer true)) t = some u ∧
      u.history.returned = [(0, 0), (1, 0)] ∧ u.view = some ⟨0, 0, 0⟩ :=
    ⟨_, rfl, rfl, _, rfl, _, rfl, rfl, rfl⟩
  have hquiet : ∀ a s, withoutGeneration a s → generatesOnGpu a s := fun a s h => by
    cases a <;> trivial
  have hgenerated : generatesOnGpu (.generated 1 0 refill) s := by
    intro call hpc _
    obtain rfl := ThreadPc.generating.inj (hcall.symm.trans hpc)
    exact hrefill
  have hrun : Run generatesOnGpu (sampleKeyPipeline first) u :=
    ⟨hinit, (((reaches_of_execute hs).mono hquiet).tail hgenerated ht).trans
      ((reaches_of_execute hu).mono hquiet)⟩
  have hkey : GenerateCall.IsOf ⟨sampleKey, 1, 7, 1, 0⟩ (sampleKeyPipeline first) :=
    ⟨rfl, rfl, rfl⟩
  exact ⟨_, u, _, hrun, hreturned, hview,
    (view_tokenEquation hrun (show ∀ j < 2 ^ 1, (sampleKey j).toNat < 12289 by decide)
      (show 1 * 2 ^ 1 ≤ 2 ^ 31 by decide) hkey hfirst hview).2⟩

end Soko.Pipeline
