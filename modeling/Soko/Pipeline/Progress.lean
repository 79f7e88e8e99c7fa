import Mathlib.Data.Prod.Lex
import Soko.Library.Progress
import Soko.Pipeline.Bookkeeping

/-!
Every call of the consumer returns.

While a thread is at work, that thread is the party that helps: the consumer may
go round the wait loop as often as it likes and the thread may write into its
bank as often as it likes, but each of the four points of a thread is passed
once. With no thread at work the consumer helps. It goes round the loop only
with an empty queue and `done` clear, and then a thread is at work, so that each
of its steps brings it nearer to the end of the call.
-/

namespace Soko.Pipeline

open Soko.Library Handshake State

/-- Who makes progress: the consumer or a worker thread. -/
inductive Party
  | consumer
  | worker (id : ℕ)
  deriving DecidableEq, Repr

/-- Whose progress an action is. A call that begins and a write into a bank are
nobody's: no call has to be made, and a generation that only writes is not over. -/
def Action.owner : Action → Option Party
  | .consumer _ => some .consumer
  | .thread id | .generated id _ _ => some (.worker id)
  | .acquire _ | .destroy | .write _ _ => none

def ConsumerPc.InCall : ConsumerPc → Prop
  | .outside | .destroyed => False
  | _ => True

/-- The points of `soko_finish_completed_refill` on entry come before those of the call in
the wait loop. -/
@[simp] def FinishCall.base : FinishCall → ℕ
  | .onEntry => 13
  | .inWaitLoop => 0

/-- How many more points the consumer passes before its call returns, at most. The points of
the wait loop have one number as long as nothing changes. -/
@[simp] def ConsumerPc.rank (done : Bool) (count : ℕ) : ConsumerPc → ℕ
  | .outside | .destroyed => 0
  | .finishLoadDone call => call.base + 6
  | .joinLoadStarted (.finish call) => call.base + 5
  | .joinWait (.finish call) => call.base + 4
  | .joinStoreStarted (.finish call) => call.base + 3
  | .finishStoreDone call => call.base + 2
  | .acquireLoadInFlight => 14
  | .startLoadInFlight _ => 13
  | .startStoreDone _ => 12
  | .startStoreInFlight => 11
  | .startStoreStarted => 10
  | .startThread => 9
  | .waitHead => if count = 0 then 8 else 2
  | .waitLoadDone => if done then 7 else 8
  | .startFailStoreInFlight => 2
  | .startFailStoreStarted => 1
  | .acquirePop => 1
  | .destroyLoadStarted => 4
  | .joinLoadStarted .destroy => 3
  | .joinWait .destroy => 2
  | .joinStoreStarted .destroy => 1

@[simp] def ThreadPc.rank : ThreadPc → ℕ
  | .absent | .exited => 0
  | .storeInFlight => 1
  | .storeDone => 2
  | .generating _ => 3
  | .entry => 4

namespace State

def consumerRank (s : State) : ℕ :=
  s.consumer.rank s.pipeline.worker.done s.pipeline.queue.count

theorem consumerRank_of_consumer {s : State} {pc : ConsumerPc} (hpc : s.consumer = pc) :
    s.consumerRank = pc.rank s.pipeline.worker.done s.pipeline.queue.count := by
  rw [consumerRank, hpc]

@[simp] theorem consumerRank_goto (s : State) (pc : ConsumerPc) :
    (s.goto pc).consumerRank = pc.rank s.pipeline.worker.done s.pipeline.queue.count := rfl

@[simp] theorem consumerRank_acquireReturn (s : State) (code : ℤ) :
    (s.acquireReturn code).consumerRank = 0 := rfl

/-- The consumer's points first, then those of the latest thread. -/
def rank (s : State) : ℕ ×ₗ ℕ := toLex (s.consumerRank, (s.threads s.created).rank)

/-- The party without which nothing gets on: the thread at work if there is one. -/
def helpful (s : State) : Party :=
  match s.threads s.created with
  | .entry | .generating _ | .storeDone | .storeInFlight => .worker s.created
  | .absent | .exited => .consumer

theorem helpful_of_active {s : State} (h : (s.threads s.created).Active) :
    s.helpful = .worker s.created := by
  unfold helpful
  cases hpc : s.threads s.created <;> simp_all [ThreadPc.Active]

theorem helpful_of_idle {s : State} (h : ¬ (s.threads s.created).Active) :
    s.helpful = .consumer := by
  unfold helpful
  cases hpc : s.threads s.created <;> simp_all [ThreadPc.Active]

theorem rank_lt_of_consumer {s t : State} (h : t.consumerRank < s.consumerRank) :
    t.rank < s.rank :=
  Prod.Lex.toLex_lt_toLex.mpr (.inl h)

theorem rank_goto {s : State} {pc : ConsumerPc}
    (h : (s.goto pc).consumerRank = s.consumerRank) : (s.goto pc).rank = s.rank :=
  congrArg (fun n => toLex (n, (s.threads s.created).rank)) h

theorem rank_lt_of_thread {s t : State} (h : t.consumerRank ≤ s.consumerRank)
    (hthread : (t.threads t.created).rank < (s.threads s.created).rank) : t.rank < s.rank :=
  Prod.Lex.toLex_lt_toLex'.mpr ⟨h, fun _ => hthread⟩

/-- The consumer only goes round the loop while a thread is at work. -/
theorem Sound.active_of_waiting {s : State} (h : s.Sound)
    (hthreshold : 0 ≤ s.pipeline.refillThreshold) (hwait : s.Waiting)
    (hcount : s.pipeline.queue.count = 0) (hdone : s.pipeline.worker.done = false) :
    (s.threads s.created).Active := by
  have hstarted := h.flow.wait hwait hcount hthreshold
  have hsettled : s.handshake.Settled := by
    have hphase := h.protocol.phase
    obtain hpc | hpc := hwait <;> rw [hpc] at hphase <;> exact hphase
  obtain hu | hr | hf := hsettled
  · exact absurd (hu.started.symm.trans hstarted) Bool.false_ne_true
  · exact hr.active
  · exact absurd (hdone.symm.trans hf.done) Bool.false_ne_true

end State

theorem consumerRank_goto_waitHead (s : State) : (s.goto .waitHead).consumerRank ≤ 8 := by
  by_cases hcount : s.pipeline.queue.count = 0 <;> simp [hcount]

/-- Setting `done` can only bring the consumer nearer. -/
theorem ConsumerPc.rank_done_le (done : Bool) (count : ℕ) (pc : ConsumerPc) :
    pc.rank true count ≤ pc.rank done count := by
  cases done with
  | true => exact le_rfl
  | false =>
      cases pc with
      | waitLoadDone => exact Nat.le_succ 7
      | joinLoadStarted caller | joinWait caller | joinStoreStarted caller =>
          cases caller <;> exact le_rfl
      | _ => exact le_rfl

theorem finishCollect_consumerRank (s : State) (call : FinishCall) :
    (s.finishCollect call).consumerRank < call.base + 2 := by
  unfold finishCollect
  split
  · simp
  · split
    · simp
    · cases call <;> simp [finishReturn]

/-- A step of the consumer inside a call brings its end nearer, unless it is one round the wait
loop, with a thread at work. -/
theorem rank_consumerStep {starts : Bool} {s s' : State} (hsound : s.Sound)
    (hthreshold : 0 ≤ s.pipeline.refillThreshold) (hs : consumerStep starts s = some s') :
    s'.rank < s.rank ∨
      (s.threads s.created).Active ∧ s'.rank = s.rank ∧ s'.helpful = s.helpful := by
  cases hpc : s.consumer <;> simp only [consumerStep, hpc] at hs
  case outside | destroyed => contradiction
  all_goals have hrank := consumerRank_of_consumer hpc
  case waitHead =>
    split at hs <;> rename_i hcount <;> cases hs
    · cases hdone : s.pipeline.worker.done with
      | false =>
          have hactive := hsound.active_of_waiting hthreshold (.inl hpc) hcount hdone
          refine .inr ⟨hactive, rank_goto ?_, rfl⟩
          simp [hrank, hcount, hdone]
      | true =>
          refine .inl (rank_lt_of_consumer ?_)
          simp [hrank, hcount, hdone]
    · refine .inl (rank_lt_of_consumer ?_)
      simp [hrank, hcount]
  case waitLoadDone =>
    split at hs <;> rename_i hdone <;> cases hs
    · refine .inl (rank_lt_of_consumer ?_)
      simp [hrank, hdone]
    · have hdone := Bool.eq_false_iff.mpr hdone
      by_cases hcount : s.pipeline.queue.count = 0
      · have hactive := hsound.active_of_waiting hthreshold (.inr hpc) hcount hdone
        refine .inr ⟨hactive, rank_goto ?_, rfl⟩
        simp [hrank, hcount, hdone]
      · refine .inl (rank_lt_of_consumer ?_)
        simp [hrank, hcount, hdone]
  all_goals refine .inl (rank_lt_of_consumer ?_)
  case finishLoadDone call =>
    cases call <;> split at hs <;> cases hs <;> simp [hrank, finishReturn]
  case joinLoadStarted caller =>
    cases caller <;> split at hs <;> cases hs <;> simp [hrank, joinReturn]
  case joinWait caller =>
    cases caller <;> split at hs <;> cases hs <;> simp [hrank]
  case joinStoreStarted caller =>
    cases hs
    cases caller <;> simp [hrank, joinReturn]
  case finishStoreDone call =>
    cases hs
    rw [hrank]
    exact finishCollect_consumerRank _ call
  case acquirePop =>
    cases hs
    have hout := (popToken_handshake s).2.2
    simp [hrank, consumerRank_of_consumer hout]
  case acquireLoadInFlight =>
    have hskip : (s.goto .waitHead).consumerRank < s.consumerRank := by
      rw [hrank]
      exact (consumerRank_goto_waitHead s).trans_lt (by simp)
    split at hs
    · split at hs <;> cases hs
      · simp [hrank]
      · exact hskip
    · cases hs
      exact hskip
  case startThread =>
    split at hs <;> cases hs
    · rw [hrank]
      exact (consumerRank_goto_waitHead s.createThread).trans_lt (by simp)
    · simp [hrank]
  case startLoadInFlight args =>
    split at hs <;> cases hs <;> simp [hrank]
  case startStoreDone | startStoreInFlight | startStoreStarted | startFailStoreInFlight
      | startFailStoreStarted =>
    cases hs
    simp [hrank]
  case destroyLoadStarted =>
    split at hs <;> cases hs <;> simp [hrank]

/-- Each step of a thread outside its generation brings its end nearer. -/
theorem threadRank_threadStep {id : ℕ} {s s' : State} (hs : threadStep id s = some s') :
    (s'.threads id).rank < (s.threads id).rank := by
  cases hpc : s.threads id <;> simp only [threadStep, hpc] at hs
  case absent | generating | exited => contradiction
  all_goals
    cases hs
    simp [State.moveThread]

theorem threadRank_threadGenerated {id : ℕ} {result : ℤ} {contents : BankContents}
    {s s' : State} (hs : threadGenerated id result contents s = some s') :
    (s'.threads id).rank < (s.threads id).rank := by
  cases hpc : s.threads id <;> simp only [threadGenerated, hpc] at hs
  case generating call =>
    cases hs
    simp [State.moveThread]
  all_goals contradiction

theorem rank_threadStep {id : ℕ} {s s' : State} (hsound : s.Sound)
    (hs : threadStep id s = some s') : s'.rank < s.rank := by
  have hrank := threadRank_threadStep hs
  cases hpc : s.threads id <;> simp only [threadStep, hpc] at hs
  case absent | generating | exited => contradiction
  all_goals
    obtain rfl := hsound.protocol.eq_created (show (s.threads id).Active by rw [hpc]; trivial)
    cases hs
  case entry | storeInFlight => exact rank_lt_of_thread le_rfl hrank
  case storeDone => exact rank_lt_of_thread (ConsumerPc.rank_done_le _ _ _) hrank

theorem rank_threadGenerated {id : ℕ} {result : ℤ} {contents : BankContents} {s s' : State}
    (hsound : s.Sound) (hs : threadGenerated id result contents s = some s') :
    s'.rank < s.rank := by
  have hrank := threadRank_threadGenerated hs
  cases hpc : s.threads id <;> simp only [threadGenerated, hpc] at hs
  case generating call =>
    obtain rfl := hsound.protocol.eq_created (show (s.threads id).Active by rw [hpc]; trivial)
    cases hs
    exact rank_lt_of_thread le_rfl hrank
  all_goals contradiction

/-- No step inside a call increases the rank, and one of the helpful party decreases it. -/
theorem rank_step {a : Action} {s s' : State} (hsound : s.Sound)
    (hthreshold : 0 ≤ s.pipeline.refillThreshold) (hin : s.consumer.InCall)
    (hs : step a s = some s') :
    s'.rank < s.rank ∨
      s'.rank = s.rank ∧ s'.helpful = s.helpful ∧ a.owner ≠ some s.helpful := by
  cases a with
  | acquire nullArgument =>
      simp only [step, beginAcquire] at hs
      split at hs
      · rename_i hout
        rw [hout] at hin
        exact absurd hin id
      · contradiction
  | destroy =>
      simp only [step, beginDestroy] at hs
      split at hs
      · rename_i hout
        rw [hout] at hin
        exact absurd hin id
      · contradiction
  | consumer starts =>
      refine (rank_consumerStep hsound hthreshold hs).imp_right ?_
      rintro ⟨hactive, hrank, hsame⟩
      refine ⟨hrank, hsame, ?_⟩
      rw [helpful_of_active hactive]
      simp [Action.owner]
  | thread id => exact .inl (rank_threadStep hsound hs)
  | write id contents =>
      simp only [step, threadWrite] at hs
      split at hs <;> cases hs
      exact .inr ⟨rfl, rfl, by simp [Action.owner]⟩
  | generated id result contents => exact .inl (rank_threadGenerated hsound hs)

theorem thread_enabled {s : State} {id : ℕ} (h : (s.threads id).Active) :
    ∃ a, a.owner = some (.worker id) ∧ (step a s).isSome := by
  cases hpc : s.threads id with
  | entry | storeDone | storeInFlight =>
      exact ⟨.thread id, rfl, by simp [step, threadStep, hpc]⟩
  | generating call =>
      exact ⟨.generated id 0 ⟨fun _ => 0, fun _ => 0, fun _ => 0⟩, rfl,
        by simp [step, threadGenerated, hpc]⟩
  | absent | exited =>
      rw [hpc] at h
      contradiction

/-- The helpful party is not blocked: the consumer waits for no other thread. -/
theorem helpful_enabled {s : State} (hsound : s.Sound) (hin : s.consumer.InCall) :
    ∃ a, a.owner = some s.helpful ∧ (step a s).isSome := by
  by_cases hactive : (s.threads s.created).Active
  · rw [helpful_of_active hactive]
    exact thread_enabled hactive
  · rw [helpful_of_idle hactive]
    refine ⟨.consumer true, rfl, ?_⟩
    have hphase := hsound.protocol.phase
    cases hpc : s.consumer <;> simp only [step, consumerStep, hpc] at hin hphase ⊢
    case outside | destroyed => exact hin.elim
    case joinWait caller =>
      have hfinished : s.handshake.Finished := by
        cases caller with
        | finish call => exact hphase.resolve_left fun hr => hactive hr.1.active
        | destroy => exact hphase.resolve_left fun hr => hactive hr.active
      have hexited : s.threads s.created = .exited := hfinished.exited
      rw [show s.pipeline.worker.thread = some s.created from hfinished.thread, Option.map_some,
        hexited]
      rfl
    case acquireLoadInFlight =>
      split
      · split <;> rfl
      · rfl
    all_goals first | rfl | (split <;> rfl)

/-- Outside of all calls and with no thread at work no party can make progress. -/
theorem step_none_of_quiet {s : State} (hsound : s.Sound) (hout : s.consumer = .outside)
    (hidle : ¬ (s.threads s.created).Active) (a : Action) (p : Party) (howner : a.owner = some p) :
    step a s = none := by
  have hthreads : ∀ id, ¬ (s.threads id).Active := by
    intro id hactive
    obtain rfl := hsound.protocol.eq_created hactive
    exact hidle hactive
  have contents : BankContents := ⟨fun _ => 0, fun _ => 0, fun _ => 0⟩
  cases a with
  | acquire | destroy | write => contradiction
  | consumer starts => simp only [step, consumerStep, hout]
  | thread id => exact (thread_none_of_idle (hthreads id) contents 0).1
  | generated id result contents => exact (thread_none_of_idle (hthreads id) contents result).2.2

/-- A step that is not the progress of a thread at work leaves it where it is. -/
theorem threadRank_step {a : Action} {id : ℕ} {s s' : State} (hsound : s.Sound)
    (hactive : (s.threads id).Active) (hs : step a s = some s') :
    (s'.threads id).rank < (s.threads id).rank ∨
      s'.threads id = s.threads id ∧ a.owner ≠ some (.worker id) := by
  obtain rfl := hsound.protocol.eq_created hactive
  cases a with
  | acquire nullArgument =>
      simp only [step, beginAcquire] at hs
      split at hs
      · split at hs <;> cases hs <;> exact .inr ⟨rfl, by simp [Action.owner]⟩
      · contradiction
  | destroy =>
      simp only [step, beginDestroy] at hs
      split at hs <;> cases hs
      exact .inr ⟨rfl, by simp [Action.owner]⟩
  | consumer starts =>
      refine .inr ⟨?_, by simp [Action.owner]⟩
      cases consumerStep_effect hsound.protocol hsound.accounting hsound.flow hs with
      | quiet hq => rw [hq.threads]
      | launch => exact Function.update_of_ne (Nat.succ_ne_self s.created).symm _ _
      | report | pop => rfl
      | collect call => cases call <;> rfl
  | thread id =>
      obtain rfl : id = s.created := by
        by_contra hne
        have hnone := (thread_none_of_idle (hsound.protocol.others id hne)
          (s.pipeline.banks 0).toBankContents 0).1
        rw [step, hnone] at hs
        contradiction
      exact .inl (threadRank_threadStep hs)
  | write id contents =>
      simp only [step, threadWrite] at hs
      split at hs <;> cases hs
      exact .inr ⟨rfl, by simp [Action.owner]⟩
  | generated id result contents =>
      obtain rfl : id = s.created := by
        by_contra hne
        have hnone := (thread_none_of_idle (hsound.protocol.others id hne) contents result).2.2
        rw [step, hnone] at hs
        contradiction
      exact .inl (threadRank_threadGenerated hs)

theorem exited_of_effect {s s' : State} {id : ℕ} (hsound : s.Sound) (he : StepEffect s s')
    (hactive : (s.threads id).Active) (hidle : ¬ (s'.threads id).Active) :
    s'.threads id = .exited := by
  obtain rfl := hsound.protocol.eq_created hactive
  cases he with
  | enter | rejectNull | destroy | write => exact absurd hactive hidle
  | consumer he =>
      cases he with
      | quiet hq =>
          rw [hq.threads] at hidle
          exact absurd hactive hidle
      | launch hnone => exact absurd hactive hnone
      | report | pop => exact absurd hactive hidle
      | collect call => cases call <;> exact absurd hactive hidle
  | read | generated | storeDone =>
      rw [moveThread_self _ s.created] at hidle
      exact absurd trivial hidle
  | storeInFlight => exact moveThread_self _ s.created _

/-- Inside a call only the consumer's own steps move it. -/
theorem consumer_of_step {a : Action} {s s' : State} (hs : step a s = some s')
    (hin : s.consumer.InCall) : (∃ starts, a = .consumer starts) ∨ s'.consumer = s.consumer := by
  have hnot : s.consumer ≠ .outside := by
    intro hout
    rw [hout] at hin
    exact hin
  cases a with
  | acquire nullArgument =>
      rw [step, beginAcquire, if_neg hnot] at hs
      contradiction
  | destroy =>
      rw [step, beginDestroy, if_neg hnot] at hs
      contradiction
  | consumer starts => exact .inl ⟨starts, rfl⟩
  | thread id =>
      simp only [step, threadStep] at hs
      split at hs <;> cases hs <;> exact .inr rfl
  | write id contents =>
      simp only [step, threadWrite] at hs
      split at hs <;> cases hs
      exact .inr rfl
  | generated id result contents =>
      simp only [step, threadGenerated] at hs
      split at hs <;> cases hs
      exact .inr rfl

theorem ConsumerPc.InAcquire.inCall {pc : ConsumerPc} (h : pc.InAcquire) : pc.InCall := by
  cases pc <;> trivial

/-- With the step that leads out of a call of `acquire` the call returns. -/
theorem return_of_leaves {a : Action} {s s' : State} (hsound : s.Sound) (hcalling : s.Calling)
    (hs : step a s = some s') (hin : s.consumer.InAcquire) (hleft : ¬ s'.consumer.InAcquire) :
    ConsumerEffect s s' ∧ s'.consumer = .outside ∧
      (s'.lastReturn = some 0 ↔ s'.view.isSome) := by
  obtain ⟨starts, rfl⟩ | hsame := consumer_of_step hs hin.inCall
  · have hview := hcalling.view hin
    have he := consumerStep_effect hsound.protocol hsound.accounting hsound.flow hs
    refine ⟨he, ?_⟩
    cases he with
    | quiet hq =>
        obtain ⟨-, hiff⟩ | ⟨-, hout, hfail⟩ := hq.lastReturn
        · exact absurd (hiff.mpr hin) hleft
        · refine ⟨hout, ?_⟩
          rw [hfail, hq.view, hview]
          simp
    | launch => exact absurd trivial hleft
    | report _ _ hresult =>
        refine ⟨rfl, ?_⟩
        simp [acquireReturn, reportFailure, State.storeDone, hview, hresult]
    | collect call => cases call <;> exact absurd trivial hleft
    | pop => exact ⟨rfl, by simp [acquireReturn, handOut]⟩
  · rw [hsame] at hleft
    exact absurd hin hleft

def ConsumerPc.InDestroy : ConsumerPc → Prop
  | .destroyLoadStarted | .joinLoadStarted .destroy | .joinWait .destroy
  | .joinStoreStarted .destroy => True
  | _ => False

theorem ConsumerPc.InDestroy.inCall {pc : ConsumerPc} (h : pc.InDestroy) : pc.InCall := by
  cases pc <;> trivial

/-- A call of `destroy` ends with the pipeline destroyed. -/
theorem destroyed_of_leaves {a : Action} {s s' : State} (hs : step a s = some s')
    (hin : s.consumer.InDestroy) (hleft : ¬ s'.consumer.InDestroy) :
    s'.consumer = .destroyed := by
  obtain ⟨starts, rfl⟩ | hsame := consumer_of_step hs hin.inCall
  · cases hpc : s.consumer <;> rw [hpc] at hin <;> simp only [step, consumerStep, hpc] at hs
    case destroyLoadStarted =>
      split at hs <;> cases hs
      · exact absurd trivial hleft
      · rfl
    case joinLoadStarted caller =>
      cases caller with
      | finish call => contradiction
      | destroy =>
          split at hs <;> cases hs
          · exact absurd trivial hleft
          · rfl
    case joinWait caller =>
      cases caller with
      | finish call => contradiction
      | destroy => split at hs <;> cases hs <;> exact absurd trivial hleft
    case joinStoreStarted caller =>
      cases caller with
      | finish call => contradiction
      | destroy =>
          cases hs
          rfl
    all_goals contradiction
  · rw [hsame] at hleft
    exact absurd hin hleft

/-- A weakly fair behaviour of a freshly initialised pipeline. -/
structure FairRun (pipeline : SokoFalconRefillPipeline) extends Behaviour step where
  initialised : Initialised pipeline
  start : state 0 = .initial pipeline
  fair : toBehaviour.WeakFair Action.owner

namespace FairRun

variable {pipeline : SokoFalconRefillPipeline} (b : FairRun pipeline)

theorem run (n : ℕ) : Run anyAction pipeline (b.state n) :=
  ⟨b.initialised, b.start ▸ b.reaches n⟩

/-- The consumer is outside of all calls again and again. -/
theorem leaves_call (hthreshold : 0 ≤ pipeline.refillThreshold) (i : ℕ) :
    ∃ j, i ≤ j ∧ ¬ (b.state j).consumer.InCall := by
  refine Behaviour.leaves_of_rank (fun s => s.Sound ∧ 0 ≤ s.pipeline.refillThreshold)
    (fun s => s.consumer.InCall) State.rank State.helpful b.fair (fun n => ?_) ?_ ?_ i
  · refine ⟨(b.run n).sound, ?_⟩
    rw [(b.run n).sameParameters.threshold]
    exact hthreshold
  · rintro a s t ⟨hsound, hthreshold⟩ hin - hs
    exact rank_step hsound hthreshold hin hs
  · rintro s ⟨hsound, -⟩ hin
    exact helpful_enabled hsound hin

theorem leaves_thread (id i : ℕ) : ∃ j, i ≤ j ∧ ¬ ((b.state j).threads id).Active := by
  refine Behaviour.leaves_of_rank State.Sound (fun s => (s.threads id).Active)
    (fun s => (s.threads id).rank) (fun _ => Party.worker id) b.fair
    (fun n => (b.run n).sound) ?_ ?_ i
  · intro a s t hsound hactive _ hs
    exact (threadRank_step hsound hactive hs).imp_right fun h => ⟨by rw [h.1], rfl, h.2⟩
  · exact fun s _ hactive => thread_enabled hactive

/-- Every `acquire` returns, with a token or with the code of an error, every `destroy` ends
with no thread left, and every thread exits. -/
theorem calls_return (hthreshold : 0 ≤ pipeline.refillThreshold) :
    (∀ i, (b.state i).consumer.InAcquire →
      ∃ k, i ≤ k ∧ (∀ l, i ≤ l → l ≤ k → (b.state l).consumer.InAcquire) ∧
        (b.state (k + 1)).consumer = .outside ∧
        ∃ code, (b.state (k + 1)).lastReturn = some code ∧ (b.state k).AcquireCode code ∧
          (code = 0 ↔ (b.state (k + 1)).view.isSome)) ∧
    (∀ i, (b.state i).consumer.InDestroy →
      ∃ k, i ≤ k ∧ (b.state k).consumer = .destroyed ∧ ∀ id, ¬ ((b.state k).threads id).Active) ∧
    ∀ i id, ((b.state i).threads id).Active → ∃ k, i ≤ k ∧ (b.state k).threads id = .exited := by
  refine ⟨fun i hin => ?_, fun i hin => ?_, fun i id hactive => ?_⟩
  · obtain ⟨j, hij, hout⟩ := b.leaves_call hthreshold i
    obtain ⟨k, a, hik, hinside, hleft, hs⟩ :=
      b.exists_step_outside (fun s => s.consumer.InAcquire) hij hin fun h => hout h.inCall
    have hink := hinside k hik le_rfl
    have hrun := b.run k
    obtain ⟨he, hconsumer, hview⟩ := return_of_leaves hrun.sound hrun.calling hs hink hleft
    obtain ⟨code, hcode, hacquire⟩ :=
      acquireCode_of_effect hrun.provenance.latest he hink hconsumer
    refine ⟨k, hik, hinside, hconsumer, code, hcode, hacquire, ?_⟩
    rw [← hview, hcode, Option.some.injEq]
  · obtain ⟨j, hij, hout⟩ := b.leaves_call hthreshold i
    obtain ⟨k, a, hik, hinside, hleft, hs⟩ :=
      b.exists_step_outside (fun s => s.consumer.InDestroy) hij hin fun h => hout h.inCall
    have hdestroyed := destroyed_of_leaves hs (hinside k hik le_rfl) hleft
    have hproto := (b.run (k + 1)).sound.protocol
    refine ⟨k + 1, by omega, hdestroyed, fun id hactive => ?_⟩
    obtain rfl := hproto.eq_created hactive
    have hphase := hproto.phase
    rw [hdestroyed] at hphase
    exact hphase hactive
  · obtain ⟨j, hij, hidle⟩ := b.leaves_thread id i
    obtain ⟨k, a, hik, hinside, hleft, hs⟩ :=
      b.exists_step_outside (fun s => (s.threads id).Active) hij hactive hidle
    have hsound := (b.run k).sound
    exact ⟨k + 1, by omega,
      exited_of_effect hsound (step_effect hsound hs) (hinside k hik le_rfl) hleft⟩

end FairRun

/-- The run of `twoTokens`, after which nothing happens, is weakly fair. -/
theorem calls_return_twoTokens :
    ∃ b : FairRun (twoBankPipeline 0), (b.state 6).consumer.InAcquire ∧
      ((b.state 14).threads 1).Active ∧
      (∀ i, (b.state i).consumer.InAcquire →
        ∃ k, i ≤ k ∧ (∀ l, i ≤ l → l ≤ k → (b.state l).consumer.InAcquire) ∧
          (b.state (k + 1)).consumer = .outside ∧
          ∃ code, (b.state (k + 1)).lastReturn = some code ∧ (b.state k).AcquireCode code ∧
            (code = 0 ↔ (b.state (k + 1)).view.isSome)) ∧
      (∀ i, (b.state i).consumer.InDestroy →
        ∃ k, i ≤ k ∧ (b.state k).consumer = .destroyed ∧
          ∀ id, ¬ ((b.state k).threads id).Active) ∧
      ∀ i id, ((b.state i).threads id).Active →
        ∃ k, i ≤ k ∧ (b.state k).threads id = .exited := by
  obtain ⟨t, ht, hout, hexited⟩ : ∃ t,
      execute step anyAction twoTokens (.initial (twoBankPipeline 0)) = some t ∧
        t.consumer = .outside ∧ t.threads t.created = .exited := ⟨_, rfl, rfl, rfl⟩
  have hinit := initialised_twoBankPipeline 0
  have hquiet : ∀ a p, Action.owner a = some p → step a t = none :=
    step_none_of_quiet (Run.of_execute twoTokens hinit ht).sound hout (by rw [hexited]; exact id)
  exact ⟨⟨.ofExecute ht, hinit, rfl, Behaviour.weakFair_ofExecute ht hquiet⟩, trivial, trivial,
    FairRun.calls_return _ (by decide)⟩

end Soko.Pipeline
