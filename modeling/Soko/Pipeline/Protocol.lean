import Soko.Pipeline.Step

/-!
The hand-shake between consumer and worker through `in_flight`, `done`,
`started` and the thread handle.

At every point of the consumer the worker is in one of three phases: no refill
is pending (`Unlaunched`), a thread is at work (`Running`), or the thread has
ended and `done` waits to be seen (`Finished`); inside the join and inside
`soko_start_refill_worker` the flags are as far as these functions have set
them. `PhaseAt` lists this point by point and `Protocol` is an invariant of all
runs. Two facts carry everything above it: the consumer only clears `done` or
writes the worker fields when no thread is at work, and only the thread created
last can be at work at all.
-/

namespace Soko.Pipeline

open Soko.Library

/-- The part of a state the hand-shake is about: the worker fields and the
thread of the latest refill with its number. -/
structure Handshake where
  worker : SokoRefillWorker
  latest : ThreadPc
  created : ℕ

namespace Handshake

/-- No refill is launched that was not collected or lost. -/
structure Unlaunched (h : Handshake) : Prop where
  idle : ¬ h.latest.Active
  inFlight : h.worker.inFlight = false
  done : h.worker.done = false
  started : h.worker.started = false
  thread : h.worker.thread = none

/-- The latest thread has not executed its last store. -/
structure Running (h : Handshake) : Prop where
  active : h.latest.Active
  inFlight : h.worker.inFlight = true
  done : h.worker.done = true ↔ h.latest = .storeInFlight
  started : h.worker.started = true
  thread : h.worker.thread = some h.created

/-- The latest thread has ended and its completion was not collected. -/
structure Finished (h : Handshake) : Prop where
  exited : h.latest = .exited
  inFlight : h.worker.inFlight = false
  done : h.worker.done = true
  started : h.worker.started = true
  thread : h.worker.thread = some h.created

/-- The phases the worker can be in when the consumer is not inside the join or
inside `soko_start_refill_worker`. -/
def Settled (h : Handshake) : Prop := h.Unlaunched ∨ h.Running ∨ h.Finished

/-- Between the wait and the last store of the join. -/
structure Joined (h : Handshake) (started : Bool) : Prop where
  exited : h.latest = .exited
  inFlight : h.worker.inFlight = false
  done : h.worker.done = true
  started : h.worker.started = started
  thread : h.worker.thread = none

/-- Inside `soko_start_refill_worker`, from the store to `done` on. -/
structure Starting (h : Handshake) (inFlight : Bool) : Prop where
  idle : ¬ h.latest.Active
  inFlight : h.worker.inFlight = inFlight
  done : h.worker.done = false

/-- The worker phase at each point of the consumer. -/
def PhaseAt (h : Handshake) : ConsumerPc → Prop
  | .outside | .finishLoadDone .onEntry | .acquireLoadInFlight | .waitHead | .waitLoadDone
  | .acquirePop | .destroyLoadStarted => h.Settled
  | .finishLoadDone .inWaitLoop | .joinLoadStarted (.finish _) | .joinWait (.finish _) =>
      (h.Running ∧ h.worker.done = true) ∨ h.Finished
  | .joinLoadStarted .destroy | .joinWait .destroy => h.Running ∨ h.Finished
  | .joinStoreStarted _ => h.Joined true
  | .finishStoreDone _ => h.Joined false
  | .startLoadInFlight _ | .startStoreDone _ => h.Unlaunched ∨ h.Finished
  | .startStoreInFlight => h.Starting false
  | .startStoreStarted => h.Starting true
  | .startThread => h.Starting true ∧ h.worker.started = true
  | .startFailStoreInFlight => h.Starting true ∧ h.worker.thread = none
  | .startFailStoreStarted => h.Starting false ∧ h.worker.thread = none
  | .destroyed => ¬ h.latest.Active

theorem Running.not_exited {h : Handshake} (hr : h.Running) : h.latest ≠ .exited := by
  intro hx
  have := hr.active
  rw [hx] at this
  exact this

theorem Finished.idle {h : Handshake} (hf : h.Finished) : ¬ h.latest.Active := by
  rw [hf.exited]
  exact id

theorem Joined.idle {h : Handshake} {started : Bool} (hj : h.Joined started) :
    ¬ h.latest.Active := by
  rw [hj.exited]
  exact id

/-- With `done` set, the pending refill is at its last store or has ended. -/
theorem Settled.of_done {h : Handshake} (hs : h.Settled) (hdone : h.worker.done = true) :
    (h.Running ∧ h.worker.done = true) ∨ h.Finished := by
  obtain hu | hr | hf := hs
  · rw [hu.done] at hdone
    contradiction
  · exact .inl ⟨hr, hdone⟩
  · exact .inr hf

theorem Settled.of_inFlight {h : Handshake} (hs : h.Settled)
    (hflight : h.worker.inFlight = false) : h.Unlaunched ∨ h.Finished := by
  obtain hu | hr | hf := hs
  · exact .inl hu
  · rw [hr.inFlight] at hflight
    contradiction
  · exact .inr hf

/-- A thread at work means the phase is `Running`, wherever the consumer is. A
step of that thread keeps the phase of the consumer's point, as long as the
thread is still running or has just ended and `done` is not cleared. -/
theorem PhaseAt.active {h : Handshake} {pc : ConsumerPc} (hp : h.PhaseAt pc)
    (ha : h.latest.Active) :
    h.Running ∧ ∀ h' : Handshake, h'.Running ∨ h'.Finished →
      (h.worker.done = true → h'.worker.done = true) → h'.PhaseAt pc := by
  have hrunning : h.Unlaunched ∨ h.Running ∨ h.Finished → h.Running := by
    rintro (hu | hr | hf)
    · exact absurd ha hu.idle
    · exact hr
    · exact absurd ha hf.idle
  cases pc with
  | outside | acquireLoadInFlight | waitHead | waitLoadDone | acquirePop | destroyLoadStarted =>
      exact ⟨hrunning hp, fun h' hnext _ => .inr hnext⟩
  | finishLoadDone call =>
      cases call with
      | onEntry => exact ⟨hrunning hp, fun h' hnext _ => .inr hnext⟩
      | inWaitLoop =>
          have hr := hrunning (.inr (hp.imp_left And.left))
          have hd : h.worker.done = true := hp.elim And.right Finished.done
          exact ⟨hr, fun h' hnext hkeep => hnext.imp_left fun hr' => ⟨hr', hkeep hd⟩⟩
  | joinLoadStarted caller | joinWait caller =>
      cases caller with
      | finish call =>
          have hr := hrunning (.inr (hp.imp_left And.left))
          have hd : h.worker.done = true := hp.elim And.right Finished.done
          exact ⟨hr, fun h' hnext hkeep => hnext.imp_left fun hr' => ⟨hr', hkeep hd⟩⟩
      | destroy => exact ⟨hrunning (.inr hp), fun h' hnext _ => hnext⟩
  | startLoadInFlight args | startStoreDone args =>
      exact absurd ha (hp.elim Unlaunched.idle Finished.idle)
  | joinStoreStarted caller | finishStoreDone call => exact absurd ha hp.idle
  | startStoreInFlight | startStoreStarted => exact absurd ha hp.idle
  | startThread | startFailStoreInFlight | startFailStoreStarted => exact absurd ha hp.1.idle
  | destroyed => exact absurd ha hp

end Handshake

namespace State

def handshake (s : State) : Handshake := ⟨s.pipeline.worker, s.threads s.created, s.created⟩

structure Protocol (s : State) : Prop where
  others : ∀ id, id ≠ s.created → ¬ (s.threads id).Active
  phase : s.handshake.PhaseAt s.consumer

end State

open State Handshake

/-- Collecting a refill leaves the hand-shake alone and ends at a point where
any settled phase is allowed. -/
theorem finishCollect_handshake (s : State) (call : FinishCall) :
    (s.finishCollect call).handshake = s.handshake ∧
      (s.finishCollect call).threads = s.threads ∧
      ∀ h : Handshake, h.Settled → h.PhaseAt (s.finishCollect call).consumer := by
  unfold finishCollect
  split
  · exact ⟨rfl, rfl, fun h hs => hs⟩
  · split
    · exact ⟨rfl, rfl, fun h hs => hs⟩
    · cases call <;> exact ⟨rfl, rfl, fun h hs => hs⟩

theorem popToken_handshake (s : State) :
    s.popToken.handshake = s.handshake ∧ s.popToken.threads = s.threads ∧
      s.popToken.consumer = .outside := by
  unfold popToken
  split
  · exact ⟨rfl, rfl, rfl⟩
  · exact ⟨rfl, rfl, rfl⟩

theorem protocol_of_handshake {s s' : State}
    (hothers : ∀ id, id ≠ s.created → ¬ (s.threads id).Active)
    (hthreads : s'.threads = s.threads) (hcreated : s'.created = s.created)
    (hphase : s'.handshake.PhaseAt s'.consumer) : s'.Protocol :=
  ⟨by rwa [hthreads, hcreated], hphase⟩

theorem protocol_consumerStep {starts : Bool} {s s' : State} (h : s.Protocol)
    (hs : consumerStep starts s = some s') : s'.Protocol := by
  obtain ⟨hothers, hphase⟩ := h
  cases hpc : s.consumer <;> simp only [consumerStep, hpc] at hs hphase
  case outside => contradiction
  case destroyed => contradiction
  case finishLoadDone call =>
    cases call <;> split at hs <;> cases hs
    · exact ⟨hothers, Settled.of_done hphase ‹_›⟩
    · exact ⟨hothers, hphase⟩
    · exact ⟨hothers, hphase⟩
    · exact absurd (hphase.elim And.right Finished.done) ‹_›
  case joinLoadStarted caller =>
    cases caller <;> split at hs <;> cases hs
    · exact ⟨hothers, hphase⟩
    · exact absurd (hphase.elim (fun hr => hr.1.started) Finished.started) ‹_›
    · exact ⟨hothers, hphase⟩
    · exact absurd (hphase.elim Running.started Finished.started) ‹_›
  case joinWait caller =>
    have hrun : s.handshake.Running ∨ s.handshake.Finished := by
      cases caller with
      | finish call => exact hphase.imp_left And.left
      | destroy => exact hphase
    have hthread : s.pipeline.worker.thread = some s.created :=
      hrun.elim Running.thread Finished.thread
    rw [hthread, Option.map_some] at hs
    obtain hr | hf := hrun
    · have hactive : (s.threads s.created).Active := hr.active
      cases hlatest : s.threads s.created <;> rw [hlatest] at hs hactive <;> contradiction
    · rw [show s.threads s.created = .exited from hf.exited] at hs
      cases hs
      exact ⟨hothers, hf.exited, hf.inFlight, hf.done, hf.started, rfl⟩
  case joinStoreStarted caller =>
    cases hs
    cases caller with
    | finish call =>
        exact ⟨hothers, hphase.exited, hphase.inFlight, hphase.done, rfl, hphase.thread⟩
    | destroy => exact ⟨hothers, hphase.idle⟩
  case finishStoreDone call =>
    cases hs
    obtain ⟨hhand, hthreads, hpoint⟩ :=
      finishCollect_handshake (s.storeDone false) call
    refine protocol_of_handshake hothers hthreads ?_ ?_
    · exact congrArg Handshake.created hhand
    · rw [hhand]
      exact hpoint _ (.inl ⟨hphase.idle, hphase.inFlight, rfl, hphase.started, hphase.thread⟩)
  case acquireLoadInFlight =>
    split at hs
    · rename_i hcond
      split at hs <;> cases hs
      · exact ⟨hothers, Settled.of_inFlight hphase hcond.2⟩
      · exact ⟨hothers, hphase⟩
    · cases hs
      exact ⟨hothers, hphase⟩
  case startLoadInFlight args =>
    -- the error return is never taken: no refill is in flight here
    have hflight : s.pipeline.worker.inFlight = false :=
      hphase.elim Unlaunched.inFlight Finished.inFlight
    rw [hflight] at hs
    cases hs
    exact ⟨hothers, hphase⟩
  case startStoreDone args =>
    cases hs
    exact ⟨hothers, hphase.elim Unlaunched.idle Finished.idle,
      hphase.elim Unlaunched.inFlight Finished.inFlight, rfl⟩
  case startStoreInFlight =>
    cases hs
    exact ⟨hothers, hphase.idle, rfl, hphase.done⟩
  case startStoreStarted =>
    cases hs
    exact ⟨hothers, ⟨hphase.idle, hphase.inFlight, hphase.done⟩, rfl⟩
  case startThread =>
    -- the new thread is the latest one, and the one before it has exited
    split at hs <;> cases hs
    · refine ⟨fun id hid => ?_, .inr (.inl ?_)⟩
      · rw [show (s.createThread.goto .waitHead).threads id = s.threads id from
          Function.update_of_ne hid _ _]
        by_cases hlast : id = s.created
        · subst id
          exact hphase.1.idle
        · exact hothers id hlast
      · have hentry : (s.createThread.goto .waitHead).handshake.latest = .entry :=
          Function.update_self ..
        have hdone : (s.createThread.goto .waitHead).handshake.worker.done = false :=
          hphase.1.done
        exact ⟨by rw [hentry]; trivial, hphase.1.inFlight, by simp [hdone, hentry], hphase.2, rfl⟩
    · exact ⟨hothers, ⟨hphase.1.idle, hphase.1.inFlight, hphase.1.done⟩, rfl⟩
  case startFailStoreInFlight =>
    cases hs
    exact ⟨hothers, ⟨hphase.1.idle, rfl, hphase.1.done⟩, hphase.2⟩
  case startFailStoreStarted =>
    cases hs
    exact ⟨hothers, .inl ⟨hphase.1.idle, hphase.1.inFlight, hphase.1.done, rfl, hphase.2⟩⟩
  case waitHead => split at hs <;> cases hs <;> exact ⟨hothers, hphase⟩
  case waitLoadDone =>
    split at hs <;> cases hs
    · exact ⟨hothers, Settled.of_done hphase ‹_›⟩
    · exact ⟨hothers, hphase⟩
  case acquirePop =>
    cases hs
    obtain ⟨hhand, hthreads, hpoint⟩ := popToken_handshake s
    refine protocol_of_handshake hothers hthreads (congrArg Handshake.created hhand) ?_
    rw [hhand, hpoint]
    exact hphase
  case destroyLoadStarted =>
    split at hs <;> cases hs
    · rename_i hstarted
      obtain hu | hpending := hphase
      · rw [show s.pipeline.worker.started = false from hu.started] at hstarted
        contradiction
      · exact ⟨hothers, hpending⟩
    · rename_i hstarted
      obtain hu | hr | hf := hphase
      · exact ⟨hothers, hu.idle⟩
      · exact absurd hr.started hstarted
      · exact absurd hf.started hstarted

/-- Only the latest thread can take a step, and it is then at work. -/
theorem State.Protocol.eq_created {s : State} (h : s.Protocol) {id : ℕ}
    (ha : (s.threads id).Active) : id = s.created := by
  by_contra hne
  exact h.others id hne ha

theorem moveThread_ne (s : State) (pc : ThreadPc) {id j : ℕ} (hj : j ≠ id) :
    (s.moveThread id pc).threads j = s.threads j := Function.update_of_ne hj _ _

/-- The invariant survives a step of the latest thread after which that thread
is running or has just ended, with `done` not cleared. -/
theorem State.Protocol.moveThread {s : State} (h : s.Protocol) (t : State)
    (ha : (s.threads s.created).Active) (hcreated : t.created = s.created)
    (hconsumer : t.consumer = s.consumer) (hthreads : t.threads = s.threads) (pc : ThreadPc)
    (hnext : Running ⟨t.pipeline.worker, pc, s.created⟩ ∨
      Finished ⟨t.pipeline.worker, pc, s.created⟩)
    (hdone : s.pipeline.worker.done = true → t.pipeline.worker.done = true) :
    (t.moveThread s.created pc).Protocol := by
  have hhand : (t.moveThread s.created pc).handshake = ⟨t.pipeline.worker, pc, s.created⟩ := by
    simp [handshake, State.moveThread, hcreated]
  constructor
  · intro id hid
    replace hid : id ≠ s.created := hcreated ▸ hid
    rw [moveThread_ne t pc hid, hthreads]
    exact h.others id hid
  · rw [hhand, show (t.moveThread s.created pc).consumer = s.consumer from hconsumer]
    exact (h.phase.active ha).2 _ hnext hdone

theorem protocol_threadStep {id : ℕ} {s s' : State} (h : s.Protocol)
    (hs : threadStep id s = some s') : s'.Protocol := by
  cases hpc : s.threads id <;> simp only [threadStep, hpc] at hs
  case absent => contradiction
  case generating call => contradiction
  case exited => contradiction
  all_goals
    have hactive : (s.threads id).Active := by rw [hpc]; trivial
    obtain rfl := h.eq_created hactive
    have hr := (h.phase.active hactive).1
    have hdone : s.pipeline.worker.done = true ↔ s.threads s.created = .storeInFlight := hr.done
    rw [hpc] at hdone
    cases hs
  case entry =>
    refine h.moveThread (s.readCall s.created) hactive rfl rfl rfl _ (.inl ?_) id
    exact ⟨trivial, hr.inFlight, hdone.trans (by simp), hr.started, hr.thread⟩
  case storeDone =>
    refine h.moveThread (s.storeDone true) hactive rfl rfl rfl _ (.inl ?_) fun _ => rfl
    exact ⟨trivial, hr.inFlight, iff_of_true rfl rfl, hr.started, hr.thread⟩
  case storeInFlight =>
    refine h.moveThread (s.storeInFlight false) hactive rfl rfl rfl _ (.inr ?_) id
    exact ⟨rfl, rfl, hdone.mpr rfl, hr.started, hr.thread⟩

theorem protocol_threadGenerated {id : ℕ} {result : ℤ} {contents : BankContents} {s s' : State}
    (h : s.Protocol) (hs : threadGenerated id result contents s = some s') : s'.Protocol := by
  cases hpc : s.threads id <;> simp only [threadGenerated, hpc] at hs
  case generating call =>
    have hactive : (s.threads id).Active := by rw [hpc]; trivial
    obtain rfl := h.eq_created hactive
    have hr := (h.phase.active hactive).1
    have hdone : s.pipeline.worker.done = true ↔ s.threads s.created = .storeInFlight := hr.done
    rw [hpc] at hdone
    cases hs
    refine h.moveThread ((s.storeResult s.created call.bankId result contents).writeBank
      call.bankId contents) hactive rfl rfl rfl _ (.inl ?_) id
    exact ⟨trivial, hr.inFlight, hdone.trans (by simp), hr.started, hr.thread⟩
  all_goals contradiction

theorem protocol_threadWrite {id : ℕ} {contents : BankContents} {s s' : State}
    (h : s.Protocol) (hs : threadWrite id contents s = some s') : s'.Protocol := by
  cases hpc : s.threads id <;> simp only [threadWrite, hpc] at hs
  case generating call =>
    cases hs
    exact ⟨h.others, h.phase⟩
  all_goals contradiction

theorem protocol_beginAcquire {nullArgument : Bool} {s s' : State} (h : s.Protocol)
    (hs : beginAcquire nullArgument s = some s') : s'.Protocol := by
  obtain ⟨hothers, hphase⟩ := h
  unfold beginAcquire at hs
  split at hs
  · rename_i hpc
    rw [hpc] at hphase
    split at hs <;> cases hs <;> exact ⟨hothers, hphase⟩
  · contradiction

theorem protocol_beginDestroy {s s' : State} (h : s.Protocol)
    (hs : beginDestroy s = some s') : s'.Protocol := by
  obtain ⟨hothers, hphase⟩ := h
  unfold beginDestroy at hs
  split at hs
  · rename_i hpc
    rw [hpc] at hphase
    cases hs
    exact ⟨hothers, hphase⟩
  · contradiction

/-- One micro-step of either party keeps the hand-shake. -/
theorem protocol_step {a : Action} {s s' : State} (h : s.Protocol) (hs : step a s = some s') :
    s'.Protocol := by
  cases a with
  | acquire nullArgument => exact protocol_beginAcquire h hs
  | destroy => exact protocol_beginDestroy h hs
  | consumer starts => exact protocol_consumerStep h hs
  | thread id => exact protocol_threadStep h hs
  | write id contents => exact protocol_threadWrite h hs
  | generated id result contents => exact protocol_threadGenerated h hs

end Soko.Pipeline
