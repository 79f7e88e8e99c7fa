import Soko.Pipeline.WaitLoop

/-!
What a step of the consumer can do to tokens. Of the nineteen points of the
consumer only three do more than move the hand-shake on: a thread is created, a
refill is collected or its failure returned, and a token is popped. Every
invariant about where tokens come from is proved from `ConsumerEffect`.
-/

namespace Soko.Pipeline

open Soko.Library Handshake State

def ConsumerPc.InAcquire : ConsumerPc → Prop
  | .outside | .destroyLoadStarted | .joinLoadStarted .destroy | .joinWait .destroy
  | .joinStoreStarted .destroy | .destroyed => False
  | _ => True

namespace State

/-- The generation of the latest refill has ended and the refill was not
collected. -/
def Generated (s : State) : Prop :=
  s.threads s.created = .storeDone ∨ s.pipeline.worker.done = true

/-- While `acquire` is executed it has not returned anything. -/
structure Calling (s : State) : Prop where
  lastReturn : s.consumer.InAcquire → s.lastReturn = none
  view : s.consumer.InAcquire → s.view = none

/-- `s'` differs from `s` in the hand-shake and in flags of banks at most. -/
structure SameTokens (s s' : State) : Prop where
  books : SameBooks s s'
  contents : ∀ b, (s'.pipeline.banks b).toBankContents = (s.pipeline.banks b).toBankContents
  threads : s'.threads = s.threads
  created : s'.created = s.created
  history : s'.history = s.history
  view : s'.view = s.view
  done : s'.pipeline.worker.done = true → s.pipeline.worker.done = true
  generated : s'.Generated → s.Generated ∧ s'.pipeline.worker.call = s.pipeline.worker.call ∧
    s'.pipeline.worker.result = s.pipeline.worker.result
  call : s'.pipeline.worker.call = s.pipeline.worker.call ∨ s.consumer.InAcquire
  doneKept : s.pipeline.worker.done = true →
    s'.pipeline.worker.done = true ∨ ∃ args, s.consumer = .startStoreDone args

/-- A step that neither launches nor collects a refill nor pops a token. If it
is one with which `acquire` returns, it returns -213. -/
structure Quiet (s s' : State) : Prop extends SameTokens s s' where
  lastReturn :
    (s'.lastReturn = s.lastReturn ∧ (s'.consumer.InAcquire ↔ s.consumer.InAcquire)) ∨
    (s.consumer.InAcquire ∧ s'.consumer = .outside ∧ s'.lastReturn = some (-213))

theorem SameTokens.refl (s : State) : SameTokens s s :=
  ⟨⟨rfl, rfl, rfl, rfl⟩, fun _ => rfl, rfl, rfl, rfl, rfl, id, fun hgen => ⟨hgen, rfl, rfl⟩,
    .inl rfl, .inl⟩

theorem Quiet.inAcquire {s s' : State} (h : Quiet s s') (hin : s'.consumer.InAcquire) :
    s.consumer.InAcquire := by
  obtain ⟨-, hiff⟩ | ⟨hs, -⟩ := h.lastReturn
  · exact hiff.mp hin
  · exact hs

/-- What a step of the consumer can do to tokens. -/
inductive ConsumerEffect (s : State) : State → Prop
  | quiet {s' : State} (h : Quiet s s') : ConsumerEffect s s'
  | launch (hidle : ¬ (s.threads s.created).Active) (hdone : s.pipeline.worker.done = false)
      (hin : s.consumer.InAcquire) : ConsumerEffect s (s.createThread.goto .waitHead)
  | report (hdone : s.pipeline.worker.done = true) (hexited : s.threads s.created = .exited)
      (hresult : s.pipeline.worker.result ≠ 0) (hin : s.consumer.InAcquire) :
      ConsumerEffect s
        ((s.storeDone false).reportFailure.acquireReturn s.pipeline.worker.result)
  | collect (call : FinishCall) {queue : SokoTokenQueue} (hdone : s.pipeline.worker.done = true)
      (hexited : s.threads s.created = .exited) (hresult : s.pipeline.worker.result = 0)
      (hin : s.consumer.InAcquire) (hempty : s.EmptyBank s.pipeline.worker.call.bankId)
      (hlist : queue.toList = s.pipeline.queue.toList ++
        bankRefs s.pipeline.worker.call.bankId 0 s.pipeline.tokensPerBank) :
      ConsumerEffect s (((s.storeDone false).collectRefill queue).finishReturn call)
  | pop {ref : SokoTokenRef} {rest : List SokoTokenRef} {queue : SokoTokenQueue}
      (hin : s.consumer.InAcquire) (hlist : s.pipeline.queue.toList = ref :: rest)
      (hrest : queue.toList = rest) :
      ConsumerEffect s ((s.handOut ref queue).acquireReturn 0)

end State

/-- Setting the flag of a bank leaves its arrays alone. -/
theorem update_available_contents (banks : ℕ → SokoFalconTokenBank) (bankId b : ℕ) (v : Bool) :
    (Function.update banks bankId { banks bankId with available := v } b).toBankContents =
      (banks b).toBankContents := by
  by_cases hb : b = bankId
  · subst b
    rw [Function.update_self]
  · rw [Function.update_of_ne hb]

theorem sameTokens_reserveBank (s : State) (bankId : ℕ) : SameTokens s (s.reserveBank bankId) :=
  { SameTokens.refl s with
    books := ⟨rfl, rfl, rfl, rfl⟩
    contents := fun b => update_available_contents _ _ b _ }

theorem sameTokens_setThread (s : State) (handle : Option ℕ) :
    SameTokens s (s.setThread handle) :=
  { SameTokens.refl s with books := ⟨rfl, rfl, rfl, rfl⟩ }

theorem sameTokens_storeStarted (s : State) (v : Bool) : SameTokens s (s.storeStarted v) :=
  { SameTokens.refl s with books := ⟨rfl, rfl, rfl, rfl⟩ }

theorem sameTokens_storeInFlight (s : State) (v : Bool) : SameTokens s (s.storeInFlight v) :=
  { SameTokens.refl s with books := ⟨rfl, rfl, rfl, rfl⟩ }

/-- The worker fields are only overwritten when no thread is at work, and `done`
is cleared with them. -/
theorem sameTokens_setCall {s : State} (args : StartArgs)
    (hidle : ¬ (s.threads s.created).Active) (hpc : s.consumer = .startStoreDone args) :
    SameTokens s ((s.setCall args).storeDone false) := by
  refine ⟨⟨rfl, rfl, rfl, rfl⟩, fun _ => rfl, rfl, rfl, rfl, rfl, nofun, fun hgen => ?_,
    .inr (by rw [hpc]; trivial), fun _ => .inr ⟨args, hpc⟩⟩
  obtain hthread | hdone := hgen
  · rw [show s.threads s.created = .storeDone from hthread] at hidle
    exact absurd trivial hidle
  · contradiction

theorem State.SameTokens.goto {s t : State} (h : SameTokens s t) (pc : ConsumerPc) :
    SameTokens s (t.goto pc) :=
  { h with books := ⟨h.books.queue, h.books.remaining, h.books.tokens, h.books.banks⟩ }

theorem State.SameTokens.acquireReturn {s t : State} (h : SameTokens s t) (code : ℤ) :
    SameTokens s (t.acquireReturn code) :=
  { h with books := ⟨h.books.queue, h.books.remaining, h.books.tokens, h.books.banks⟩ }

theorem quiet_goto {s t : State} (h : SameTokens s t) (hreturn : t.lastReturn = s.lastReturn)
    {pc pc' : ConsumerPc} (hpc : s.consumer = pc) (hiff : pc'.InAcquire ↔ pc.InAcquire) :
    ConsumerEffect s (t.goto pc') :=
  .quiet ⟨h.goto pc', .inl ⟨hreturn, by rw [hpc]; exact hiff⟩⟩

theorem quiet_fail {s t : State} (h : SameTokens s t) {pc : ConsumerPc} (hpc : s.consumer = pc)
    (hin : pc.InAcquire) : ConsumerEffect s (t.acquireReturn (-213)) :=
  .quiet ⟨h.acquireReturn (-213), .inr ⟨by rw [hpc]; exact hin, rfl, rfl⟩⟩

theorem consumerStep_effect {starts : Bool} {s s' : State} (hproto : s.Protocol)
    (hacc : s.Accounting) (hflow : s.Flow) (hs : consumerStep starts s = some s') :
    ConsumerEffect s s' := by
  have hphase := hproto.phase
  have hrefl := SameTokens.refl s
  have hin : ∀ pc, s.consumer = pc → pc.InAcquire → s.consumer.InAcquire := by
    rintro pc rfl
    exact id
  cases hpc : s.consumer <;> simp only [consumerStep, hpc] at hs hphase
  case outside | destroyed => contradiction
  case finishLoadDone call =>
    cases call <;> split at hs <;> cases hs <;> exact quiet_goto hrefl rfl hpc .rfl
  case joinLoadStarted caller =>
    cases caller <;> split at hs <;> cases hs <;> exact quiet_goto hrefl rfl hpc .rfl
  case joinWait caller =>
    cases caller <;> split at hs <;> cases hs <;>
      exact quiet_goto (sameTokens_setThread s none) rfl hpc .rfl
  case joinStoreStarted caller =>
    cases hs
    cases caller <;> exact quiet_goto (sameTokens_storeStarted s false) rfl hpc .rfl
  case finishStoreDone call =>
    cases hs
    obtain ⟨hresult, heq⟩ | ⟨hresult, hempty, queue, -, hlist, -, heq⟩ :=
      finishCollect_cases hacc hphase.done call <;> rw [heq]
    · exact .report hphase.done hphase.exited hresult (hin _ hpc trivial)
    · exact .collect call hphase.done hphase.exited hresult (hin _ hpc trivial) hempty hlist
  case acquireLoadInFlight =>
    split at hs
    · split at hs <;> cases hs
      · exact quiet_goto (sameTokens_reserveBank s _) rfl hpc .rfl
      · exact quiet_goto hrefl rfl hpc .rfl
    · cases hs
      exact quiet_goto hrefl rfl hpc .rfl
  case startLoadInFlight args =>
    split at hs <;> cases hs
    · exact quiet_fail hrefl hpc trivial
    · exact quiet_goto hrefl rfl hpc .rfl
  case startStoreDone args =>
    cases hs
    have hidle : ¬ (s.threads s.created).Active := hphase.elim Unlaunched.idle Finished.idle
    exact quiet_goto (sameTokens_setCall args hidle hpc) rfl hpc .rfl
  case startStoreInFlight =>
    cases hs
    exact quiet_goto (sameTokens_storeInFlight s true) rfl hpc .rfl
  case startStoreStarted =>
    cases hs
    exact quiet_goto (sameTokens_storeStarted s true) rfl hpc .rfl
  case startThread =>
    split at hs <;> cases hs
    · exact .launch hphase.1.idle hphase.1.done (hin _ hpc trivial)
    · exact quiet_goto (sameTokens_setThread s none) rfl hpc .rfl
  case startFailStoreInFlight =>
    cases hs
    exact quiet_goto (sameTokens_storeInFlight s false) rfl hpc .rfl
  case startFailStoreStarted =>
    cases hs
    exact quiet_fail (sameTokens_storeStarted s false) hpc trivial
  case waitHead | waitLoadDone =>
    split at hs <;> cases hs <;> exact quiet_goto hrefl rfl hpc .rfl
  case acquirePop =>
    cases hs
    obtain ⟨hnil, -⟩ | ⟨ref, rest, queue, hlist, hrest, -, -, heq⟩ := popToken_cases hacc
    · exact absurd (SokoTokenQueue.toList_eq_nil.mp hnil) (hflow.pop hpc)
    · rw [heq]
      exact .pop (hin _ hpc trivial) hlist hrest
  case destroyLoadStarted =>
    split at hs <;> cases hs <;> exact quiet_goto hrefl rfl hpc .rfl

namespace State

/-- Everything a step can do. -/
inductive StepEffect (s : State) : State → Prop
  | enter : StepEffect s (s.enterAcquire.goto (.finishLoadDone .onEntry))
  | rejectNull : StepEffect s (s.enterAcquire.acquireReturn (-215))
  | destroy (hout : s.consumer = .outside) : StepEffect s (s.goto .destroyLoadStarted)
  | consumer {s' : State} (h : ConsumerEffect s s') : StepEffect s s'
  | read (hpc : s.threads s.created = .entry) :
      StepEffect s
        ((s.readCall s.created).moveThread s.created (.generating s.pipeline.worker.call))
  | write {call : GenerateCall} (contents : BankContents)
      (hpc : s.threads s.created = .generating call) :
      StepEffect s (s.writeBank call.bankId contents)
  | generated {call : GenerateCall} (result : ℤ) (contents : BankContents)
      (hpc : s.threads s.created = .generating call) :
      StepEffect s (((s.storeResult s.created call.bankId result contents).writeBank call.bankId
        contents).moveThread s.created .storeDone)
  | storeDone (hpc : s.threads s.created = .storeDone) :
      StepEffect s ((s.storeDone true).moveThread s.created .storeInFlight)
  | storeInFlight (hpc : s.threads s.created = .storeInFlight) :
      StepEffect s ((s.storeInFlight false).moveThread s.created .exited)

structure Sound (s : State) : Prop where
  protocol : s.Protocol
  accounting : s.Accounting
  flow : s.Flow

end State

theorem threadStep_effect {id : ℕ} {s s' : State} (h : s.Protocol)
    (hs : threadStep id s = some s') : StepEffect s s' := by
  cases hpc : s.threads id <;> simp only [threadStep, hpc] at hs
  case absent | generating | exited => contradiction
  all_goals
    obtain rfl := h.eq_created (show (s.threads id).Active by rw [hpc]; trivial)
    cases hs
  case entry => exact .read hpc
  case storeDone => exact .storeDone hpc
  case storeInFlight => exact .storeInFlight hpc

theorem threadWrite_effect {id : ℕ} {contents : BankContents} {s s' : State} (h : s.Protocol)
    (hs : threadWrite id contents s = some s') : StepEffect s s' := by
  cases hpc : s.threads id <;> simp only [threadWrite, hpc] at hs
  case generating call =>
    obtain rfl := h.eq_created (show (s.threads id).Active by rw [hpc]; trivial)
    cases hs
    exact .write contents hpc
  all_goals contradiction

theorem threadGenerated_effect {id : ℕ} {result : ℤ} {contents : BankContents} {s s' : State}
    (h : s.Protocol) (hs : threadGenerated id result contents s = some s') : StepEffect s s' := by
  cases hpc : s.threads id <;> simp only [threadGenerated, hpc] at hs
  case generating call =>
    obtain rfl := h.eq_created (show (s.threads id).Active by rw [hpc]; trivial)
    cases hs
    exact .generated result contents hpc
  all_goals contradiction

theorem step_effect {a : Action} {s s' : State} (h : s.Sound) (hs : step a s = some s') :
    StepEffect s s' := by
  cases a with
  | acquire nullArgument =>
      simp only [step, beginAcquire] at hs
      split at hs
      · split at hs <;> cases hs
        · exact .rejectNull
        · exact .enter
      · contradiction
  | destroy =>
      simp only [step, beginDestroy] at hs
      split at hs <;> cases hs
      exact .destroy ‹_›
  | consumer starts => exact .consumer (consumerStep_effect h.protocol h.accounting h.flow hs)
  | thread id => exact threadStep_effect h.protocol hs
  | write id contents => exact threadWrite_effect h.protocol hs
  | generated id result contents => exact threadGenerated_effect h.protocol hs

theorem Run.sound {ok : Action → State → Prop} {pipeline : SokoFalconRefillPipeline} {s : State}
    (h : Run ok pipeline s) : s.Sound :=
  ⟨h.invariant.1, h.invariant.2, h.flow⟩

/-- The induction rule for what follows: a property that holds initially and
that every effect keeps holds in every reachable state. -/
theorem Run.induct {ok : Action → State → Prop} {pipeline : SokoFalconRefillPipeline} {s : State}
    (h : Run ok pipeline s) (I : State → Prop) (hinit : I (.initial pipeline))
    (hstep : ∀ a s s', s.Sound → s'.Sound → I s → ok a s → step a s = some s' →
      StepEffect s s' → I s') : I s := by
  obtain ⟨hinitialised, hreach⟩ := h
  have hsound : Run ok pipeline (.initial pipeline) := ⟨hinitialised, .refl⟩
  refine (hreach.invariant (fun s => s.Sound ∧ I s) ⟨hsound.sound, hinit⟩ ?_).2
  rintro a u v ⟨hsound, hI⟩ hok hs
  have hsound' : v.Sound :=
    ⟨protocol_step hsound.protocol hs, accounting_step hsound.protocol hsound.accounting hs,
      flow_step hsound.protocol hsound.accounting hsound.flow hs⟩
  exact ⟨hsound', hstep a u v hsound hsound' hI hok hs (step_effect hsound hs)⟩

theorem calling_consumerEffect {s s' : State} (h : s.Calling) (he : ConsumerEffect s s') :
    s'.Calling := by
  cases he with
  | quiet hq =>
      constructor
      · intro hin
        obtain ⟨hsame, -⟩ | ⟨-, hout, -⟩ := hq.lastReturn
        · rw [hsame]
          exact h.lastReturn (hq.inAcquire hin)
        · rw [hout] at hin
          contradiction
      · intro hin
        rw [hq.view]
        exact h.view (hq.inAcquire hin)
  | launch _ _ hin => exact ⟨fun _ => h.lastReturn hin, fun _ => h.view hin⟩
  | report => exact ⟨nofun, nofun⟩
  | collect call _ _ _ hin =>
      cases call <;> exact ⟨fun _ => h.lastReturn hin, fun _ => h.view hin⟩
  | pop => exact ⟨nofun, nofun⟩

theorem calling_effect {s s' : State} (h : s.Calling) (he : StepEffect s s') : s'.Calling := by
  cases he with
  | enter => exact ⟨fun _ => rfl, fun _ => rfl⟩
  | rejectNull => exact ⟨nofun, nofun⟩
  | destroy => exact ⟨nofun, nofun⟩
  | consumer he => exact calling_consumerEffect h he
  | read | write | generated | storeDone | storeInFlight => exact ⟨h.lastReturn, h.view⟩

theorem Run.calling {ok : Action → State → Prop} {pipeline : SokoFalconRefillPipeline}
    {s : State} (h : Run ok pipeline s) : s.Calling :=
  h.induct Calling ⟨nofun, nofun⟩ fun _ _ _ _ _ hI _ _ he => calling_effect hI he

end Soko.Pipeline
