import Soko.Pipeline.Accounting

/-!
The loop `while (pipeline->queue.count == 0)` of `acquire`. It has no exit of
its own, so what matters is that it is only entered with a refill on the way:
an empty queue means that every bank is empty, an empty bank is found, and a
start that is skipped because of `in_flight` is skipped for a live worker.
-/

namespace Soko.Pipeline

open Soko.Library Handshake State

/-- The fields of the pipeline that are written by `init` only. -/
structure State.SameParameters (s s' : State) : Prop where
  hCoeffs : s'.pipeline.hCoeffs = s.pipeline.hCoeffs
  logn : s'.pipeline.logn = s.pipeline.logn
  tokens : s'.pipeline.tokensPerBank = s.pipeline.tokensPerBank
  banks : s'.pipeline.bankCount = s.pipeline.bankCount
  threshold : s'.pipeline.refillThreshold = s.pipeline.refillThreshold

theorem State.SameParameters.trans {s t u : State} (h : SameParameters s t)
    (h' : SameParameters t u) : SameParameters s u where
  hCoeffs := h'.hCoeffs.trans h.hCoeffs
  logn := h'.logn.trans h.logn
  tokens := h'.tokens.trans h.tokens
  banks := h'.banks.trans h.banks
  threshold := h'.threshold.trans h.threshold

theorem finishCollect_sameParameters (s : State) (call : FinishCall) :
    SameParameters s (s.finishCollect call) := by
  unfold finishCollect
  split
  · exact ⟨rfl, rfl, rfl, rfl, rfl⟩
  · split
    · exact ⟨rfl, rfl, rfl, rfl, rfl⟩
    · cases call <;> exact ⟨rfl, rfl, rfl, rfl, rfl⟩

theorem popToken_sameParameters (s : State) : SameParameters s s.popToken := by
  unfold popToken
  split <;> exact ⟨rfl, rfl, rfl, rfl, rfl⟩

theorem sameParameters_consumerStep {starts : Bool} {s s' : State}
    (hs : consumerStep starts s = some s') : SameParameters s s' := by
  cases hpc : s.consumer <;> simp only [consumerStep, hpc] at hs
  case finishLoadDone call =>
    split at hs <;> cases hs
    · exact ⟨rfl, rfl, rfl, rfl, rfl⟩
    · cases call <;> exact ⟨rfl, rfl, rfl, rfl, rfl⟩
  case joinLoadStarted caller =>
    split at hs <;> cases hs
    · exact ⟨rfl, rfl, rfl, rfl, rfl⟩
    · cases caller <;> exact ⟨rfl, rfl, rfl, rfl, rfl⟩
  case joinStoreStarted caller =>
    cases hs
    cases caller <;> exact ⟨rfl, rfl, rfl, rfl, rfl⟩
  case finishStoreDone call =>
    cases hs
    have hsame := finishCollect_sameParameters (s.storeDone false) call
    exact ⟨hsame.hCoeffs, hsame.logn, hsame.tokens, hsame.banks, hsame.threshold⟩
  case acquireLoadInFlight =>
    split at hs
    · split at hs <;> cases hs <;> exact ⟨rfl, rfl, rfl, rfl, rfl⟩
    · cases hs
      exact ⟨rfl, rfl, rfl, rfl, rfl⟩
  case acquirePop =>
    cases hs
    exact popToken_sameParameters s
  case startStoreDone | startStoreInFlight | startStoreStarted | startFailStoreInFlight
      | startFailStoreStarted =>
    cases hs
    exact ⟨rfl, rfl, rfl, rfl, rfl⟩
  case joinWait | startLoadInFlight | startThread | waitHead | waitLoadDone
      | destroyLoadStarted =>
    split at hs <;> cases hs <;> exact ⟨rfl, rfl, rfl, rfl, rfl⟩
  all_goals contradiction

theorem sameParameters_step {a : Action} {s s' : State} (hs : step a s = some s') :
    SameParameters s s' := by
  cases a with
  | acquire nullArgument =>
      simp only [step, beginAcquire] at hs
      split at hs
      · split at hs <;> cases hs <;> exact ⟨rfl, rfl, rfl, rfl, rfl⟩
      · contradiction
  | destroy =>
      simp only [step, beginDestroy] at hs
      split at hs <;> cases hs
      exact ⟨rfl, rfl, rfl, rfl, rfl⟩
  | consumer starts => exact sameParameters_consumerStep hs
  | thread id =>
      simp only [step, threadStep] at hs
      split at hs <;> cases hs <;> exact ⟨rfl, rfl, rfl, rfl, rfl⟩
  | write id contents =>
      simp only [step, threadWrite] at hs
      split at hs <;> cases hs
      exact ⟨rfl, rfl, rfl, rfl, rfl⟩
  | generated id result contents =>
      simp only [step, threadGenerated] at hs
      split at hs <;> cases hs
      exact ⟨rfl, rfl, rfl, rfl, rfl⟩

theorem Run.sameParameters {ok : Action → State → Prop} {pipeline : SokoFalconRefillPipeline}
    {s : State} (h : Run ok pipeline s) : SameParameters (.initial pipeline) s :=
  h.2.invariant (SameParameters (.initial pipeline)) ⟨rfl, rfl, rfl, rfl, rfl⟩
    fun _ _ _ hu _ hs => hu.trans (sameParameters_step hs)

def ConsumerPc.PastStart : ConsumerPc → Prop
  | .waitHead | .waitLoadDone | .acquirePop => True
  | _ => False

namespace State

/-- Inside the wait loop. -/
def Waiting (s : State) : Prop := s.consumer = .waitHead ∨ s.consumer = .waitLoadDone

/-- What the end of `acquire` relies on: with an empty queue the loop is entered
only after a launch that was not joined, and it is left only with a token in the
queue. -/
structure Flow (s : State) : Prop where
  pop : s.consumer = .acquirePop → s.pipeline.queue.count ≠ 0
  wait : s.Waiting → s.pipeline.queue.count = 0 → 0 ≤ s.pipeline.refillThreshold →
    s.pipeline.worker.started = true

theorem Flow.of_elsewhere {s : State} (hpast : ¬ s.consumer.PastStart) : s.Flow where
  pop hpc := by
    rw [hpc] at hpast
    exact absurd trivial hpast
  wait hwait := by
    obtain hpc | hpc := hwait <;> rw [hpc] at hpast <;> exact absurd trivial hpast

theorem Flow.of_pop {s : State} (hpc : s.consumer = .acquirePop)
    (hcount : s.pipeline.queue.count ≠ 0) : s.Flow where
  pop _ := hcount
  wait hwait := by
    obtain hhead | hload := hwait <;> rw [hpc] at * <;> contradiction

theorem Flow.of_waiting {s : State} (hwait : s.Waiting)
    (h : s.pipeline.queue.count = 0 → 0 ≤ s.pipeline.refillThreshold →
      s.pipeline.worker.started = true) : s.Flow where
  pop hpc := by
    obtain hhead | hload := hwait <;> rw [hpc] at * <;> contradiction
  wait _ := h

/-- The steps of other parties leave everything `Flow` speaks of alone. -/
theorem Flow.of_same {s s' : State} (h : s.Flow) (hconsumer : s'.consumer = s.consumer)
    (hqueue : s'.pipeline.queue = s.pipeline.queue)
    (hthreshold : s'.pipeline.refillThreshold = s.pipeline.refillThreshold)
    (hstarted : s'.pipeline.worker.started = s.pipeline.worker.started) : s'.Flow where
  pop := by
    rw [hconsumer, hqueue]
    exact h.pop
  wait := by
    rw [Waiting, hconsumer, hqueue, hthreshold, hstarted]
    exact h.wait

end State

/-- With an empty queue an empty bank is found, so that the start of a refill is
skipped only because a worker is at work. -/
theorem inFlight_of_skipped {s : State} (h : s.Accounting) (hcount : s.pipeline.queue.count = 0)
    (hskipped : s.pipeline.worker.inFlight = false →
      sokoFindEmptyBank s.pipeline = none) : s.pipeline.worker.inFlight = true := by
  by_contra hflight
  have hnone := hskipped (Bool.eq_false_iff.mpr hflight)
  have hempty := h.ledger.exists_empty_of_count_zero hcount h.banks_pos
  exact sokoFindEmptyBank_none hnone h.banks_pos hempty

theorem finishCollect_flow {s : State} (hacc : s.Accounting)
    (hdone : s.pipeline.worker.done = true) (call : FinishCall) :
    ((s.storeDone false).finishCollect call).Flow := by
  obtain ⟨-, heq⟩ | ⟨-, -, queue, -, hlist, -, heq⟩ := finishCollect_cases hacc hdone call <;>
    rw [heq]
  · exact .of_elsewhere id
  · cases call with
    | onEntry => exact .of_elsewhere id
    | inWaitLoop =>
        refine .of_pop rfl fun hcount => ?_
        have hlen := congrArg List.length hlist
        rw [SokoTokenQueue.toList_length, List.length_append, bankRefs_length,
          show queue.count = 0 from hcount] at hlen
        have := hacc.tokens_pos
        omega

theorem flow_consumerStep {starts : Bool} {s s' : State} (hproto : s.Protocol)
    (hacc : s.Accounting) (h : s.Flow) (hs : consumerStep starts s = some s') : s'.Flow := by
  have hphase := hproto.phase
  cases hpc : s.consumer <;> simp only [consumerStep, hpc] at hs hphase
  case outside | destroyed => contradiction
  case finishLoadDone call =>
    cases call <;> split at hs <;> cases hs
    · exact .of_elsewhere id
    · exact .of_elsewhere id
    · exact .of_elsewhere id
    · exact absurd (hphase.elim And.right Finished.done) ‹_›
  case joinLoadStarted caller =>
    cases caller <;> split at hs <;> cases hs <;> exact .of_elsewhere id
  case joinStoreStarted caller =>
    cases hs
    cases caller <;> exact .of_elsewhere id
  case finishStoreDone call =>
    cases hs
    exact finishCollect_flow hacc hphase.done call
  case acquireLoadInFlight =>
    have hskip : ∀ hcond : ¬ ((s.pipeline.queue.count : ℤ) ≤ s.pipeline.refillThreshold ∧
        s.pipeline.worker.inFlight = false) ∨ sokoFindEmptyBank s.pipeline = none,
        (s.goto .waitHead).Flow := by
      refine fun hcond => .of_waiting (.inl rfl) fun hcount hthreshold => ?_
      have hcount : s.pipeline.queue.count = 0 := hcount
      have hthreshold : 0 ≤ s.pipeline.refillThreshold := hthreshold
      have hflight := inFlight_of_skipped hacc hcount fun hfree =>
        hcond.resolve_left fun hnot => hnot ⟨by omega, hfree⟩
      obtain hu | hr | hf := hphase
      · exact absurd (hu.inFlight.symm.trans hflight) Bool.false_ne_true
      · exact hr.started
      · exact absurd (hf.inFlight.symm.trans hflight) Bool.false_ne_true
    split at hs
    · split at hs <;> cases hs
      · exact .of_elsewhere id
      · exact hskip (.inr ‹_›)
    · cases hs
      exact hskip (.inl ‹_›)
  case startThread =>
    split at hs <;> cases hs
    · exact .of_waiting (.inl rfl) fun _ _ => hphase.2
    · exact .of_elsewhere id
  case waitHead =>
    split at hs <;> cases hs
    · exact .of_waiting (.inr rfl) (h.wait (.inl hpc))
    · exact .of_pop rfl ‹_›
  case waitLoadDone =>
    split at hs <;> cases hs
    · exact .of_elsewhere id
    · exact .of_waiting (.inl rfl) (h.wait (.inr hpc))
  case acquirePop =>
    cases hs
    obtain ⟨-, -, hpoint⟩ := popToken_handshake s
    exact .of_elsewhere (by rw [hpoint]; exact id)
  case startStoreDone | startStoreInFlight | startStoreStarted | startFailStoreInFlight
      | startFailStoreStarted =>
    cases hs
    exact .of_elsewhere id
  case joinWait | startLoadInFlight | destroyLoadStarted =>
    split at hs <;> cases hs <;> exact .of_elsewhere id

theorem flow_step {a : Action} {s s' : State} (hproto : s.Protocol) (hacc : s.Accounting)
    (h : s.Flow) (hs : step a s = some s') : s'.Flow := by
  cases a with
  | acquire nullArgument =>
      simp only [step, beginAcquire] at hs
      split at hs
      · split at hs <;> cases hs <;> exact .of_elsewhere id
      · contradiction
  | destroy =>
      simp only [step, beginDestroy] at hs
      split at hs <;> cases hs
      exact .of_elsewhere id
  | consumer starts => exact flow_consumerStep hproto hacc h hs
  | thread id =>
      simp only [step, threadStep] at hs
      split at hs <;> cases hs <;> exact h.of_same rfl rfl rfl rfl
  | write id contents =>
      simp only [step, threadWrite] at hs
      split at hs <;> cases hs
      exact h.of_same rfl rfl rfl rfl
  | generated id result contents =>
      simp only [step, threadGenerated] at hs
      split at hs <;> cases hs
      exact h.of_same rfl rfl rfl rfl

theorem Run.flow {ok : Action → State → Prop} {pipeline : SokoFalconRefillPipeline} {s : State}
    (h : Run ok pipeline s) : s.Flow := by
  refine (h.2.invariant (fun s => (s.Protocol ∧ s.Accounting) ∧ s.Flow)
    ⟨⟨protocol_initial h.1, accounting_initial h.1⟩, .of_elsewhere id⟩ ?_).2
  rintro a u v ⟨⟨hproto, hacc⟩, hflow⟩ - hs
  exact ⟨⟨protocol_step hproto hs, accounting_step hproto hacc hs⟩,
    flow_step hproto hacc hflow hs⟩

/-- What a thread does until its end leaves the consumer's side alone. -/
structure ConsumerSide (s s' : State) : Prop where
  consumer : s'.consumer = s.consumer
  queue : s'.pipeline.queue = s.pipeline.queue
  created : s'.created = s.created
  enqueued : s'.history.enqueued = s.history.enqueued
  reported : s'.history.reported = s.history.reported

def Finishes (s : State) : Prop :=
  ∃ s', Reaches step anyAction s s' ∧ s'.threads s'.created = .exited ∧ ConsumerSide s s'

theorem Finishes.of_step {s t : State} {a : Action} (hs : step a s = some t)
    (hside : ConsumerSide s t) (h : Finishes t) : Finishes s := by
  obtain ⟨s', hreach, hexit, hside'⟩ := h
  exact ⟨s', (Reaches.refl.tail trivial hs).trans hreach, hexit,
    hside'.consumer.trans hside.consumer, hside'.queue.trans hside.queue,
    hside'.created.trans hside.created, hside'.enqueued.trans hside.enqueued,
    hside'.reported.trans hside.reported⟩

theorem finishes_storeInFlight {s : State} (h : s.threads s.created = .storeInFlight) :
    Finishes s := by
  have hs : step (.thread s.created) s =
      some ((s.storeInFlight false).moveThread s.created .exited) := by
    simp only [step, threadStep, h]
  exact ⟨_, Reaches.refl.tail trivial hs, moveThread_self .., rfl, rfl, rfl, rfl, rfl⟩

theorem finishes_storeDone {s : State} (h : s.threads s.created = .storeDone) :
    Finishes s := by
  have hs : step (.thread s.created) s =
      some ((s.storeDone true).moveThread s.created .storeInFlight) := by
    simp only [step, threadStep, h]
  exact .of_step hs ⟨rfl, rfl, rfl, rfl, rfl⟩ (finishes_storeInFlight (moveThread_self ..))

theorem finishes_generating {s : State} {call : GenerateCall}
    (h : s.threads s.created = .generating call) : Finishes s := by
  have contents : BankContents := ⟨fun _ => 0, fun _ => 0, fun _ => 0⟩
  have hs : step (.generated s.created 0 contents) s =
      some (((s.storeResult s.created call.bankId 0 contents).writeBank call.bankId
        contents).moveThread s.created .storeDone) := by
    simp only [step, threadGenerated, h]
  exact .of_step hs ⟨rfl, rfl, rfl, rfl, rfl⟩ (finishes_storeDone (moveThread_self ..))

theorem finishes_entry {s : State} (h : s.threads s.created = .entry) : Finishes s := by
  have hs : step (.thread s.created) s =
      some ((s.readCall s.created).moveThread s.created (.generating s.pipeline.worker.call)) := by
    simp only [step, threadStep, h]
  exact .of_step hs ⟨rfl, rfl, rfl, rfl, rfl⟩ (finishes_generating (moveThread_self ..))

theorem finishes_of_active {s : State} (h : (s.threads s.created).Active) : Finishes s := by
  cases hpc : s.threads s.created with
  | entry => exact finishes_entry hpc
  | generating call => exact finishes_generating hpc
  | storeDone => exact finishes_storeDone hpc
  | storeInFlight => exact finishes_storeInFlight hpc
  | absent | exited =>
      rw [hpc] at h
      contradiction

/-- The consumer's way from the head of the loop to collecting the refill. -/
theorem reaches_collect {s : State} (hpc : s.consumer = .waitHead)
    (hcount : s.pipeline.queue.count = 0) (hfinished : s.handshake.Finished) :
    Reaches step anyAction s
      (((s.setThread none).storeStarted false).goto (.finishStoreDone .inWaitLoop)) := by
  have hexited : s.threads s.created = .exited := hfinished.exited
  have hthread : s.pipeline.worker.thread.map s.threads = some .exited := by
    rw [show s.pipeline.worker.thread = some s.created from hfinished.thread, ← hexited]
    rfl
  have hhead : step (.consumer true) s = some (s.goto .waitLoadDone) := by
    simp only [step, consumerStep, hpc]
    exact if_pos hcount
  have hload : step (.consumer true) (s.goto .waitLoadDone) =
      some (s.goto (.finishLoadDone .inWaitLoop)) := if_pos hfinished.done
  have hfinish : step (.consumer true) (s.goto (.finishLoadDone .inWaitLoop)) =
      some (s.goto (.joinLoadStarted (.finish .inWaitLoop))) := if_pos hfinished.done
  have hjoin : step (.consumer true) (s.goto (.joinLoadStarted (.finish .inWaitLoop))) =
      some (s.goto (.joinWait (.finish .inWaitLoop))) := if_pos hfinished.started
  have hwait : step (.consumer true) (s.goto (.joinWait (.finish .inWaitLoop))) =
      some ((s.setThread none).goto (.joinStoreStarted (.finish .inWaitLoop))) := by
    simp only [step, consumerStep, goto, hthread]
    rfl
  have hstore : step (.consumer true)
      ((s.setThread none).goto (.joinStoreStarted (.finish .inWaitLoop))) =
      some (((s.setThread none).storeStarted false).goto (.finishStoreDone .inWaitLoop)) := rfl
  exact (((((Reaches.refl.tail trivial hhead).tail trivial hload).tail trivial hfinish).tail
    trivial hjoin).tail trivial hwait).tail trivial hstore

/-- How the wait loop is left: the refill `id` was enqueued and a token is about
to be popped, or its failure was returned. -/
def State.LeftLoop (s s' : State) (id : ℕ) : Prop :=
  (s'.consumer = .acquirePop ∧ s'.pipeline.queue.count ≠ 0 ∧
    s'.history.enqueued = s.history.enqueued ++ [id]) ∨
  (s'.consumer = .outside ∧ ∃ code, code ≠ 0 ∧ s'.lastReturn = some code ∧
    s'.history.reported = s.history.reported ++ [(id, code)])

/-- With the refill finished, the consumer leaves the loop by its own steps. -/
theorem exists_leftLoop_of_finished {pipeline : SokoFalconRefillPipeline} {s : State}
    (hrun : Run anyAction pipeline s) (hpc : s.consumer = .waitHead)
    (hcount : s.pipeline.queue.count = 0) (hfinished : s.handshake.Finished) :
    ∃ s', Reaches step anyAction s s' ∧ s.LeftLoop s' s.created := by
  have hreach := reaches_collect hpc hcount hfinished
  obtain ⟨-, hacc⟩ := Run.invariant ⟨hrun.1, hrun.2.trans hreach⟩
  refine ⟨_, hreach.tail (a := .consumer true) trivial rfl, ?_⟩
  obtain ⟨hresult, heq⟩ | ⟨-, -, queue, -, hlist, hledger, heq⟩ :=
    finishCollect_cases hacc hfinished.done .inWaitLoop <;> rw [heq]
  · exact .inr ⟨rfl, _, hresult, rfl, rfl⟩
  · refine .inl ⟨rfl, fun hzero => ?_, rfl⟩
    have hlen := congrArg List.length hlist
    rw [SokoTokenQueue.toList_length, List.length_append, bankRefs_length,
      show queue.count = 0 from hzero] at hlen
    have := hacc.tokens_pos
    omega

/-- At the head of the wait loop with an empty queue there is a refill on the
way: the latest thread has not executed its store to `done`, or `done` is set.
In either case the loop can be left, with the refill collected or its error
returned. -/
theorem waitLoop_refillPending {pipeline : SokoFalconRefillPipeline} {s : State}
    (hrun : Run anyAction pipeline s) (hthreshold : 0 ≤ pipeline.refillThreshold)
    (hpc : s.consumer = .waitHead) (hcount : s.pipeline.queue.count = 0) :
    (s.threads s.created = .entry ∨ (∃ call, s.threads s.created = .generating call) ∨
      s.threads s.created = .storeDone ∨ s.pipeline.worker.done = true) ∧
    ∃ s', Reaches step anyAction s s' ∧ s.LeftLoop s' s.created := by
  obtain ⟨hproto, -⟩ := hrun.invariant
  have hphase := hproto.phase
  rw [hpc] at hphase
  have hstarted := hrun.flow.wait (.inl hpc) hcount (by rwa [hrun.sameParameters.threshold])
  obtain hu | hr | hf := hphase
  · exact absurd (hu.started.symm.trans hstarted) nofun
  · constructor
    · have hactive : (s.threads s.created).Active := hr.active
      cases hlatest : s.threads s.created with
      | entry => exact .inl rfl
      | generating call => exact .inr (.inl ⟨call, rfl⟩)
      | storeDone => exact .inr (.inr (.inl rfl))
      | storeInFlight => exact .inr (.inr (.inr (hr.done.mpr hlatest)))
      | absent | exited =>
          rw [hlatest] at hactive
          contradiction
    · obtain ⟨t, hreach, hexited, hside⟩ := finishes_of_active hr.active
      have hrun' : Run anyAction pipeline t := ⟨hrun.1, hrun.2.trans hreach⟩
      have hpc' := hside.consumer.trans hpc
      have hphase' := hrun'.invariant.1.phase
      rw [hpc'] at hphase'
      have hstarted' := hrun'.flow.wait (.inl hpc') (by rwa [hside.queue])
        (by rwa [hrun'.sameParameters.threshold])
      obtain hu' | hr' | hf' := hphase'
      · exact absurd (hu'.started.symm.trans hstarted') nofun
      · exact absurd hexited hr'.not_exited
      · obtain ⟨s', hreach', hleft⟩ :=
          exists_leftLoop_of_finished hrun' hpc' (by rwa [hside.queue]) hf'
        refine ⟨s', hreach.trans hreach', ?_⟩
        rw [LeftLoop, hside.created, hside.enqueued, hside.reported] at hleft
        exact hleft
  · exact ⟨.inr (.inr (.inr hf.done)), exists_leftLoop_of_finished hrun hpc hcount hf⟩

/-- One `acquire` that pops the only token, and a second one that launches a
refill and waits for it. -/
def toWaitLoop : List Action :=
  .acquire false :: List.replicate 4 (.consumer true) ++
    .acquire false :: List.replicate 7 (.consumer true)

theorem waitLoop_refillPending_toWaitLoop :
    ∃ s, execute step anyAction toWaitLoop (.initial (twoBankPipeline 0)) = some s ∧
      (s.threads s.created = .entry ∨ (∃ call, s.threads s.created = .generating call) ∨
        s.threads s.created = .storeDone ∨ s.pipeline.worker.done = true) ∧
      ∃ s', Reaches step anyAction s s' ∧ s.LeftLoop s' s.created :=
  ⟨_, rfl, waitLoop_refillPending
    (.of_execute toWaitLoop (initialised_twoBankPipeline 0) rfl) (by decide) rfl rfl⟩

end Soko.Pipeline
