import Soko.Pipeline.Ledger
import Soko.Pipeline.Protocol

/-!
The books of the pipeline along a run: in every reachable state the counters and
the queue satisfy `Ledger`, and the bank that a pending refill writes has no
token in the queue. Only two steps touch the books, collecting a refill and
popping a token; for all others it is enough to follow which bank the worker
fields name.
-/

namespace Soko.Pipeline

open Soko.Library Handshake

/-- The arguments of a `soko_start_refill_worker` that has not written them to
the worker fields yet. -/
def ConsumerPc.startArgs : ConsumerPc → Option StartArgs
  | .startLoadInFlight args | .startStoreDone args => some args
  | _ => none

/-- Inside `soko_start_refill_worker`, between writing the worker fields and the
outcome of the thread creation. -/
def ConsumerPc.Starting : ConsumerPc → Prop
  | .startStoreInFlight | .startStoreStarted | .startThread => True
  | _ => False

theorem ConsumerPc.forall_startArgs {pc : ConsumerPc} {p : StartArgs → Prop}
    (hnone : pc.startArgs = none) (args : StartArgs) (hsome : pc.startArgs = some args) :
    p args := by
  rw [hnone] at hsome
  contradiction

namespace State

/-- A bank of the pipeline without a token in the queue. -/
def EmptyBank (s : State) (bankId : ℕ) : Prop :=
  bankId < s.pipeline.bankCount ∧ s.pipeline.bankRemaining bankId = 0

/-- The worker fields name the bank of a refill that is about to be launched, at
work, or not collected. -/
def Pending (s : State) : Prop :=
  s.consumer.Starting ∨ (s.threads s.created).Active ∨ s.pipeline.worker.done = true

/-- Refills are only ever directed at empty banks. -/
structure Target (s : State) : Prop where
  args : ∀ args, s.consumer.startArgs = some args → s.EmptyBank args.bankId
  call : s.Pending → s.EmptyBank s.pipeline.worker.call.bankId
  generating : ∀ call, s.threads s.created = .generating call →
    call.bankId = s.pipeline.worker.call.bankId

/-- Everything of the pipeline the books depend on. -/
structure SameBooks (s s' : State) : Prop where
  queue : s'.pipeline.queue = s.pipeline.queue
  remaining : s'.pipeline.bankRemaining = s.pipeline.bankRemaining
  tokens : s'.pipeline.tokensPerBank = s.pipeline.tokensPerBank
  banks : s'.pipeline.bankCount = s.pipeline.bankCount

structure Accounting (s : State) : Prop where
  tokens_pos : 0 < s.pipeline.tokensPerBank
  banks_pos : 0 < s.pipeline.bankCount
  ledger : Ledger s.pipeline.tokensPerBank s.pipeline.bankCount s.pipeline.bankRemaining
    s.pipeline.queue
  target : s.Target

theorem SameBooks.emptyBank {s s' : State} (h : SameBooks s s') {bankId : ℕ}
    (hb : s.EmptyBank bankId) : s'.EmptyBank bankId := by
  rw [EmptyBank, h.banks, h.remaining]
  exact hb

theorem Accounting.of_sameBooks {s s' : State} (h : s.Accounting) (hsame : SameBooks s s')
    (htarget : s'.Target) : s'.Accounting where
  tokens_pos := by rw [hsame.tokens]; exact h.tokens_pos
  banks_pos := by rw [hsame.banks]; exact h.banks_pos
  ledger := by rw [hsame.tokens, hsame.banks, hsame.remaining, hsame.queue]; exact h.ledger
  target := htarget

/-- Outside `soko_start_refill_worker` a refill does not become pending by
itself. -/
theorem Pending.of_sameThread {s s' : State} (hp : s'.Pending)
    (hstarting : ¬ s'.consumer.Starting) (hthread : s'.threads s'.created = s.threads s.created)
    (hdone : s'.pipeline.worker.done = true → s.pipeline.worker.done = true) : s.Pending := by
  obtain hst | hactive | hd := hp
  · exact absurd hst hstarting
  · exact .inr (.inl (hthread ▸ hactive))
  · exact .inr (.inr (hdone hd))

/-- The target is inherited as long as no empty bank is filled and no refill
becomes pending. -/
theorem Target.keep {s s' : State} (h : s.Target)
    (hempty : ∀ bankId, s.EmptyBank bankId → s'.EmptyBank bankId)
    (hargs : ∀ args, s'.consumer.startArgs = some args → s.EmptyBank args.bankId)
    (hcall : s'.pipeline.worker.call = s.pipeline.worker.call)
    (hpending : s'.Pending → s.Pending)
    (hgen : ∀ call, s'.threads s'.created = .generating call →
      s.threads s.created = .generating call) : s'.Target where
  args args hsome := hempty _ (hargs args hsome)
  call hp := by
    rw [hcall]
    exact hempty _ (h.call (hpending hp))
  generating call hthread := by
    rw [hcall]
    exact h.generating call (hgen call hthread)

/-- `Target.keep` for the steps outside `soko_start_refill_worker` that leave
the latest thread alone. -/
theorem Target.outside_start {s s' : State} (h : s.Target)
    (hempty : ∀ bankId, s.EmptyBank bankId → s'.EmptyBank bankId)
    (hargs : s'.consumer.startArgs = none) (hstarting : ¬ s'.consumer.Starting)
    (hcall : s'.pipeline.worker.call = s.pipeline.worker.call)
    (hthread : s'.threads s'.created = s.threads s.created)
    (hdone : s'.pipeline.worker.done = true → s.pipeline.worker.done = true) : s'.Target :=
  h.keep hempty (ConsumerPc.forall_startArgs hargs) hcall
    (fun hp => hp.of_sameThread hstarting hthread hdone) fun _ hgen => hthread ▸ hgen

/-- `Target.keep` for the steps that leave a point of `soko_start_refill_worker`
at which the refill is pending already. -/
theorem Target.inside_start {s s' : State} (h : s.Target) (hstarting : s.consumer.Starting)
    (hempty : ∀ bankId, s.EmptyBank bankId → s'.EmptyBank bankId)
    (hargs : s'.consumer.startArgs = none)
    (hcall : s'.pipeline.worker.call = s.pipeline.worker.call)
    (hgen : ∀ call, s'.threads s'.created = .generating call →
      s.threads s.created = .generating call) : s'.Target :=
  h.keep hempty (ConsumerPc.forall_startArgs hargs) hcall (fun _ => .inl hstarting) hgen

/-- With no thread at work and `done` clear there is nothing to say. -/
theorem Target.of_idle {s : State} (hargs : s.consumer.startArgs = none)
    (hstarting : ¬ s.consumer.Starting) (hidle : ¬ (s.threads s.created).Active)
    (hdone : s.pipeline.worker.done = false) : s.Target where
  args := ConsumerPc.forall_startArgs hargs
  call hp := by
    obtain hst | hactive | hd := hp
    · exact absurd hst hstarting
    · exact absurd hactive hidle
    · rw [hdone] at hd
      contradiction
  generating call hgen := by
    rw [hgen] at hidle
    exact absurd trivial hidle

/-- Outside `soko_start_refill_worker` a step that leaves the books and the latest
thread alone keeps the accounting. -/
theorem Accounting.outside_start {s s' : State} (h : s.Accounting) (hsame : SameBooks s s')
    (hargs : s'.consumer.startArgs = none) (hstarting : ¬ s'.consumer.Starting)
    (hcall : s'.pipeline.worker.call = s.pipeline.worker.call)
    (hthread : s'.threads s'.created = s.threads s.created)
    (hdone : s'.pipeline.worker.done = true → s.pipeline.worker.done = true) : s'.Accounting :=
  h.of_sameBooks hsame (h.target.outside_start (fun _ hb => hsame.emptyBank hb) hargs hstarting
    hcall hthread hdone)

end State

open State

theorem sokoFindEmptyBank_some {pipeline : SokoFalconRefillPipeline} {bankId : ℕ}
    (h : sokoFindEmptyBank pipeline = some bankId) :
    bankId < pipeline.bankCount ∧ pipeline.bankRemaining bankId = 0 :=
  ⟨List.mem_range.mp (List.mem_of_find?_eq_some h), by simpa using List.find?_some h⟩

theorem sokoFindEmptyBank_none {pipeline : SokoFalconRefillPipeline}
    (h : sokoFindEmptyBank pipeline = none) {bankId : ℕ} (hb : bankId < pipeline.bankCount) :
    pipeline.bankRemaining bankId ≠ 0 := by
  have := List.find?_eq_none.mp h bankId (List.mem_range.mpr hb)
  simpa using this

theorem finishCollect_enqueued (s : State) (call : FinishCall) {queue : SokoTokenQueue}
    (hresult : s.pipeline.worker.result = 0)
    (hcall : sokoEnqueueBankTokens s.pipeline.queue s.pipeline.worker.call.bankId
      s.pipeline.tokensPerBank = (true, queue)) :
    s.finishCollect call = (s.collectRefill queue).finishReturn call := by
  rw [finishCollect, if_neg (not_not.mpr hresult), hcall]

/-- What collecting a refill does, with `done` cleared before: a failed
generation is returned, and otherwise the tokens of the refill's bank, which was
empty, are appended to the queue. -/
theorem finishCollect_cases {s : State} (h : s.Accounting) (hdone : s.pipeline.worker.done = true)
    (call : FinishCall) :
    (s.pipeline.worker.result ≠ 0 ∧
      (s.storeDone false).finishCollect call =
        (s.storeDone false).reportFailure.acquireReturn s.pipeline.worker.result) ∨
    (s.pipeline.worker.result = 0 ∧ s.EmptyBank s.pipeline.worker.call.bankId ∧
      ∃ queue, sokoEnqueueBankTokens s.pipeline.queue s.pipeline.worker.call.bankId
          s.pipeline.tokensPerBank = (true, queue) ∧
        queue.toList = s.pipeline.queue.toList ++
          bankRefs s.pipeline.worker.call.bankId 0 s.pipeline.tokensPerBank ∧
        Ledger s.pipeline.tokensPerBank s.pipeline.bankCount
          (Function.update s.pipeline.bankRemaining s.pipeline.worker.call.bankId
            (s.pipeline.tokensPerBank : ℤ)) queue ∧
        (s.storeDone false).finishCollect call =
          ((s.storeDone false).collectRefill queue).finishReturn call) := by
  by_cases hresult : s.pipeline.worker.result = 0
  · obtain hempty := h.target.call (.inr (.inr hdone))
    obtain ⟨queue, hcall, hlist, hledger⟩ := h.ledger.enqueue hempty.1 hempty.2
    exact .inr ⟨hresult, hempty, queue, hcall, hlist, hledger,
      finishCollect_enqueued (s.storeDone false) call hresult hcall⟩
  · exact .inl ⟨hresult, if_pos hresult⟩

/-- What popping does: the head of the queue is handed out. -/
theorem popToken_cases {s : State} (h : s.Accounting) :
    (s.pipeline.queue.toList = [] ∧ s.popToken = s.acquireReturn (-215)) ∨
    ∃ ref rest queue, s.pipeline.queue.toList = ref :: rest ∧ queue.toList = rest ∧
      sokoQueuePop s.pipeline.queue = (some ref, queue) ∧
      Ledger s.pipeline.tokensPerBank s.pipeline.bankCount
        (Function.update s.pipeline.bankRemaining ref.bankId
          (s.pipeline.bankRemaining ref.bankId - 1)) queue ∧
      s.popToken = (s.handOut ref queue).acquireReturn 0 := by
  cases hlist : s.pipeline.queue.toList with
  | nil =>
      refine .inl ⟨rfl, ?_⟩
      rw [popToken, sokoQueuePop_empty (SokoTokenQueue.toList_eq_nil.mp hlist)]
  | cons ref rest =>
      obtain ⟨queue, hpop, hrest, hledger⟩ := h.ledger.pop hlist
      exact .inr ⟨ref, rest, queue, rfl, hrest, hpop, hledger, by rw [popToken, hpop]⟩

theorem accounting_consumerStep {starts : Bool} {s s' : State} (hproto : s.Protocol)
    (h : s.Accounting) (hs : consumerStep starts s = some s') : s'.Accounting := by
  have hphase := hproto.phase
  cases hpc : s.consumer <;> simp only [consumerStep, hpc] at hs hphase
  case outside | destroyed => contradiction
  case finishLoadDone call =>
    cases call <;> split at hs <;> cases hs <;>
      exact h.outside_start ⟨rfl, rfl, rfl, rfl⟩ rfl id rfl rfl id
  case joinLoadStarted caller =>
    cases caller <;> split at hs <;> cases hs <;>
      exact h.outside_start ⟨rfl, rfl, rfl, rfl⟩ rfl id rfl rfl id
  case joinStoreStarted caller =>
    cases hs
    cases caller <;>
      exact h.outside_start ⟨rfl, rfl, rfl, rfl⟩ rfl id rfl rfl id
  case finishStoreDone call =>
    cases hs
    obtain ⟨-, heq⟩ | ⟨-, hempty, queue, -, -, hledger, heq⟩ :=
      finishCollect_cases h hphase.done call <;> rw [heq]
    · exact h.outside_start ⟨rfl, rfl, rfl, rfl⟩ rfl id rfl rfl (absurd · Bool.false_ne_true)
    · cases call <;>
        exact ⟨h.tokens_pos, h.banks_pos, hledger, .of_idle rfl id hphase.idle rfl⟩
  case acquireLoadInFlight =>
    split at hs
    · split at hs <;> cases hs
      · rename_i bankId hfind
        refine h.of_sameBooks ⟨rfl, rfl, rfl, rfl⟩ (h.target.keep (fun _ => id) ?_ rfl
          (fun hp => hp.of_sameThread id rfl id) fun _ => id)
        rintro args ⟨⟩
        exact sokoFindEmptyBank_some hfind
      · exact h.outside_start ⟨rfl, rfl, rfl, rfl⟩ rfl id rfl rfl id
    · cases hs
      exact h.outside_start ⟨rfl, rfl, rfl, rfl⟩ rfl id rfl rfl id
  case startLoadInFlight args =>
    split at hs <;> cases hs
    · exact h.outside_start ⟨rfl, rfl, rfl, rfl⟩ rfl id rfl rfl id
    · refine h.of_sameBooks ⟨rfl, rfl, rfl, rfl⟩ (h.target.keep (fun _ => id) ?_ rfl
        (fun hp => hp.of_sameThread id rfl id) fun _ => id)
      rintro args ⟨⟩
      exact h.target.args args (by rw [hpc]; rfl)
  case startStoreDone args =>
    cases hs
    have hidle : ¬ (s.threads s.created).Active := hphase.elim Unlaunched.idle Finished.idle
    refine h.of_sameBooks ⟨rfl, rfl, rfl, rfl⟩ ⟨ConsumerPc.forall_startArgs rfl, fun _ => ?_,
      fun call hgen => ?_⟩
    · exact h.target.args args (by rw [hpc]; rfl)
    · rw [show s.threads s.created = _ from hgen] at hidle
      exact absurd trivial hidle
  case startStoreInFlight | startStoreStarted =>
    cases hs
    exact h.of_sameBooks ⟨rfl, rfl, rfl, rfl⟩ (h.target.inside_start (by rw [hpc]; trivial)
      (fun _ => id) rfl rfl fun _ => id)
  case startThread =>
    split at hs <;> cases hs
    · refine h.of_sameBooks ⟨rfl, rfl, rfl, rfl⟩ (h.target.inside_start (by rw [hpc]; trivial)
        (fun _ => id) rfl rfl fun call hgen => ?_)
      have hentry : (s.createThread.goto .waitHead).threads
          (s.createThread.goto .waitHead).created = .entry := Function.update_self ..
      rw [hentry] at hgen
      contradiction
    · exact h.outside_start ⟨rfl, rfl, rfl, rfl⟩ rfl id rfl rfl id
  case startFailStoreInFlight | startFailStoreStarted =>
    cases hs
    exact h.outside_start ⟨rfl, rfl, rfl, rfl⟩ rfl id rfl rfl id
  case acquirePop =>
    cases hs
    obtain ⟨-, heq⟩ | ⟨ref, rest, queue, hlist, -, -, hledger, heq⟩ := popToken_cases h <;>
      rw [heq]
    · exact h.outside_start ⟨rfl, rfl, rfl, rfl⟩ rfl id rfl rfl id
    · refine ⟨h.tokens_pos, h.banks_pos, hledger,
        h.target.outside_start (fun b hb => ⟨hb.1, ?_⟩) rfl id rfl rfl id⟩
      -- the bank of an outstanding refill is empty, so that the token is of another one
      have hpos : 0 < s.pipeline.bankRemaining ref.bankId :=
        h.ledger.remaining_pos (by simp [hlist])
      have hne : b ≠ ref.bankId := by
        rintro rfl
        exact absurd hb.2 hpos.ne'
      exact (Function.update_of_ne hne _ _).trans hb.2
  case joinWait | waitHead | waitLoadDone | destroyLoadStarted =>
    split at hs <;> cases hs <;>
      exact h.outside_start ⟨rfl, rfl, rfl, rfl⟩ rfl id rfl rfl id

/-- The steps of a thread touch neither books nor banks' counters. -/
theorem State.Target.thread {s s' : State} (h : s.Target)
    (hsame : SameBooks s s') (hconsumer : s'.consumer = s.consumer)
    (hactive : (s.threads s.created).Active)
    (hcall : s'.pipeline.worker.call = s.pipeline.worker.call)
    (hgen : ∀ call, s'.threads s'.created = .generating call →
      call.bankId = s.pipeline.worker.call.bankId) : s'.Target where
  args args hsome := by
    rw [hconsumer] at hsome
    exact hsame.emptyBank (h.args args hsome)
  call _ := by
    rw [hcall]
    exact hsame.emptyBank (h.call (.inr (.inl hactive)))
  generating call hthread := by
    rw [hcall]
    exact hgen call hthread

@[simp] theorem moveThread_self (s : State) (id : ℕ) (pc : ThreadPc) :
    (s.moveThread id pc).threads id = pc := Function.update_self ..

theorem accounting_threadStep {id : ℕ} {s s' : State} (hproto : s.Protocol) (h : s.Accounting)
    (hs : threadStep id s = some s') : s'.Accounting := by
  cases hpc : s.threads id <;> simp only [threadStep, hpc] at hs
  case absent => contradiction
  case generating call => contradiction
  case exited => contradiction
  all_goals
    have hactive : (s.threads id).Active := by rw [hpc]; trivial
    obtain rfl := hproto.eq_created hactive
    cases hs
    refine h.of_sameBooks ⟨rfl, rfl, rfl, rfl⟩
      (h.target.thread ⟨rfl, rfl, rfl, rfl⟩ rfl hactive rfl fun call hgen => ?_)
    have hmoved := (moveThread_self _ s.created _).symm.trans hgen
  case entry => rw [← ThreadPc.generating.inj hmoved]
  all_goals contradiction

theorem accounting_threadWrite {id : ℕ} {contents : BankContents} {s s' : State}
    (h : s.Accounting) (hs : threadWrite id contents s = some s') : s'.Accounting := by
  cases hpc : s.threads id <;> simp only [threadWrite, hpc] at hs
  case generating call =>
    cases hs
    exact h.of_sameBooks ⟨rfl, rfl, rfl, rfl⟩ ⟨h.target.args, h.target.call, h.target.generating⟩
  all_goals contradiction

theorem accounting_threadGenerated {id : ℕ} {result : ℤ} {contents : BankContents} {s s' : State}
    (hproto : s.Protocol) (h : s.Accounting)
    (hs : threadGenerated id result contents s = some s') : s'.Accounting := by
  cases hpc : s.threads id <;> simp only [threadGenerated, hpc] at hs
  case generating call =>
    have hactive : (s.threads id).Active := by rw [hpc]; trivial
    obtain rfl := hproto.eq_created hactive
    cases hs
    refine h.of_sameBooks ⟨rfl, rfl, rfl, rfl⟩
      (h.target.thread ⟨rfl, rfl, rfl, rfl⟩ rfl hactive rfl fun call hgen => ?_)
    have hmoved := (moveThread_self _ s.created _).symm.trans hgen
    contradiction
  all_goals contradiction

theorem accounting_beginAcquire {nullArgument : Bool} {s s' : State} (h : s.Accounting)
    (hs : beginAcquire nullArgument s = some s') : s'.Accounting := by
  unfold beginAcquire at hs
  split at hs
  · split at hs <;> cases hs <;>
      exact h.outside_start ⟨rfl, rfl, rfl, rfl⟩ rfl id rfl rfl id
  · contradiction

theorem accounting_beginDestroy {s s' : State} (h : s.Accounting)
    (hs : beginDestroy s = some s') : s'.Accounting := by
  unfold beginDestroy at hs
  split at hs
  · cases hs
    exact h.outside_start ⟨rfl, rfl, rfl, rfl⟩ rfl id rfl rfl id
  · contradiction

theorem accounting_step {a : Action} {s s' : State} (hproto : s.Protocol) (h : s.Accounting)
    (hs : step a s = some s') : s'.Accounting := by
  cases a with
  | acquire nullArgument => exact accounting_beginAcquire h hs
  | destroy => exact accounting_beginDestroy h hs
  | consumer starts => exact accounting_consumerStep hproto h hs
  | thread id => exact accounting_threadStep hproto h hs
  | write id contents => exact accounting_threadWrite h hs
  | generated id result contents => exact accounting_threadGenerated hproto h hs

/-- With valid arguments and memory, `init` enqueues bank 0 and succeeds; in
particular it never returns -211. -/
theorem sokoFalconRefillPipelineInit_cases (args : InitArgs) (allocs : InitAllocs) :
    sokoFalconRefillPipelineInit args allocs = (-210, none) ∨
    ∃ pipeline, sokoFalconRefillPipelineInit args allocs = (0, some pipeline) ∧
      0 < pipeline.tokensPerBank ∧ 2 ≤ pipeline.bankCount ∧
      (pipeline.tokensPerBank : ℤ) = args.tokensPerBank ∧
      (pipeline.bankCount : ℤ) = args.bankCount ∧ pipeline.nextSeed = args.seedBase ∧
      pipeline.refillThreshold = args.refillThreshold ∧ pipeline.worker = .zero ∧
      pipeline.queue.toList = bankRefs 0 0 pipeline.tokensPerBank ∧
      Ledger pipeline.tokensPerBank pipeline.bankCount pipeline.bankRemaining
        pipeline.queue := by
  unfold sokoFalconRefillPipelineInit
  split
  · rename_i hCoeffs banks _ _
    split
    · exact .inl rfl
    rename_i hargs
    simp only [Bool.or_eq_true, decide_eq_true_eq, not_or, not_lt, not_le] at hargs
    obtain ⟨⟨-, hbanks⟩, htokens⟩ := hargs
    split
    · exact .inl rfl
    split
    · exact .inl rfl
    cases hitems : allocs.items with
    | none => exact .inl rfl
    | some items =>
        obtain ⟨empty, queue, hinit, hcall, hlist, hledger⟩ :=
          ledger_init (show 0 < args.tokensPerBank.toNat by omega)
            (show 0 < args.bankCount.toNat by omega) items
        simp only [hinit, hcall]
        exact .inr ⟨_, rfl, by simpa using htokens, by simp only; omega,
          Int.toNat_of_nonneg htokens.le, Int.toNat_of_nonneg (by omega), rfl, rfl, rfl, hlist,
          hledger⟩
  · exact .inl rfl

theorem Initialised.spec {pipeline : SokoFalconRefillPipeline} (h : Initialised pipeline) :
    0 < pipeline.tokensPerBank ∧ 2 ≤ pipeline.bankCount ∧ pipeline.worker = .zero ∧
      pipeline.queue.toList = bankRefs 0 0 pipeline.tokensPerBank ∧
      Ledger pipeline.tokensPerBank pipeline.bankCount pipeline.bankRemaining
        pipeline.queue := by
  obtain ⟨args, allocs, hinit⟩ := h
  obtain hfail | ⟨created, hok, htokens, hbanks, -, -, -, -, hrest⟩ :=
    sokoFalconRefillPipelineInit_cases args allocs
  · rw [hfail] at hinit
    cases congrArg Prod.snd hinit
  · obtain rfl : created = pipeline := by
      rw [hok] at hinit
      exact Option.some.inj (congrArg Prod.snd hinit)
    exact ⟨htokens, hbanks, hrest⟩

theorem protocol_initial {pipeline : SokoFalconRefillPipeline} (h : Initialised pipeline) :
    (State.initial pipeline).Protocol := by
  have hworker : (State.initial pipeline).handshake.worker = .zero := h.spec.2.2.1
  refine ⟨fun _ _ => id, .inl ⟨id, ?_, ?_, ?_, ?_⟩⟩ <;> rw [hworker] <;> rfl

theorem accounting_initial {pipeline : SokoFalconRefillPipeline} (h : Initialised pipeline) :
    (State.initial pipeline).Accounting := by
  obtain ⟨htokens, hbanks, hworker, -, hledger⟩ := h.spec
  refine ⟨htokens, by simp only [State.initial]; omega, hledger, .of_idle rfl id id ?_⟩
  exact congrArg SokoRefillWorker.done hworker

/-- The hand-shake and the books hold in every reachable state. -/
theorem Run.invariant {ok : Action → State → Prop} {pipeline : SokoFalconRefillPipeline}
    {s : State} (h : Run ok pipeline s) : s.Protocol ∧ s.Accounting := by
  refine h.2.invariant (fun s => s.Protocol ∧ s.Accounting)
    ⟨protocol_initial h.1, accounting_initial h.1⟩ ?_
  rintro a u v ⟨hproto, hacc⟩ - hs
  exact ⟨protocol_step hproto hs, accounting_step hproto hacc hs⟩

end Soko.Pipeline
