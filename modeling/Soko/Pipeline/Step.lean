import Soko.Library.Runs
import Soko.Pipeline.State

/-!
The step function of the refill pipeline. An action says who moves and, where
the environment decides, how: whether a thread can be created, what a worker
writes into its bank while it generates, and the result and contents its
generation ends with. `Run pipeline s` says that `s` is reached from the
freshly initialised `pipeline` under some interleaving.
-/

namespace Soko.Pipeline

open Soko.Library

/-- `soko_find_empty_bank`; `none` stands for -1. -/
def sokoFindEmptyBank (pipeline : SokoFalconRefillPipeline) : Option ℕ :=
  (List.range pipeline.bankCount).find? fun bankId => pipeline.bankRemaining bankId == 0

namespace State

def goto (s : State) (pc : ConsumerPc) : State := { s with consumer := pc }

/-- `atomic_store(&worker->in_flight, v)`. -/
def storeInFlight (s : State) (v : Bool) : State := { s with pipeline.worker.inFlight := v }

/-- `atomic_store(&worker->done, v)`. -/
def storeDone (s : State) (v : Bool) : State := { s with pipeline.worker.done := v }

/-- `atomic_store(&worker->started, v)`. -/
def storeStarted (s : State) (v : Bool) : State := { s with pipeline.worker.started := v }

/-- `worker->thread = handle`. -/
def setThread (s : State) (handle : Option ℕ) : State :=
  { s with pipeline.worker.thread := handle }

def writeBank (s : State) (bankId : ℕ) (contents : BankContents) : State :=
  { s with
    pipeline.banks := Function.update s.pipeline.banks bankId
      { s.pipeline.banks bankId with toBankContents := contents } }

def moveThread (s : State) (id : ℕ) (pc : ThreadPc) : State :=
  { s with threads := Function.update s.threads id pc }

/-- `acquire` returns `code`. -/
def acquireReturn (s : State) (code : ℤ) : State :=
  { s with consumer := .outside, lastReturn := some code }

/-- Where `soko_finish_completed_refill` goes on when it returns 0. -/
def finishReturn (s : State) : FinishCall → State
  | .onEntry => s.goto .acquireLoadInFlight
  | .inWaitLoop => s.goto .acquirePop

/-- Where `soko_join_refill_worker` returns to. -/
def joinReturn (s : State) : JoinCaller → State
  | .finish call => s.goto (.finishStoreDone call)
  | .destroy => s.goto .destroyed

/-- The refill is collected: its tokens are in `queue`, its bank is full. -/
def collectRefill (s : State) (queue : SokoTokenQueue) : State :=
  { s with
    pipeline.queue := queue
    pipeline.bankRemaining := Function.update s.pipeline.bankRemaining
      s.pipeline.worker.call.bankId (s.pipeline.tokensPerBank : ℤ)
    pipeline.banks := Function.update s.pipeline.banks s.pipeline.worker.call.bankId
      { s.pipeline.banks s.pipeline.worker.call.bankId with available := false }
    history.enqueued := s.history.enqueued ++ [s.created] }

def reportFailure (s : State) : State :=
  { s with history.reported := s.history.reported ++ [(s.created, s.pipeline.worker.result)] }

/-- `soko_finish_completed_refill` after `done` was cleared: return the result
of a failed generation, or enqueue the tokens of the refill. -/
def finishCollect (s : State) (call : FinishCall) : State :=
  if s.pipeline.worker.result ≠ 0 then
    s.reportFailure.acquireReturn s.pipeline.worker.result
  else
    match sokoEnqueueBankTokens s.pipeline.queue s.pipeline.worker.call.bankId
        s.pipeline.tokensPerBank with
    | (false, queue) => { s with pipeline.queue := queue }.acquireReturn call.enqueueError
    | (true, queue) => (s.collectRefill queue).finishReturn call

/-- The token `ref` leaves the queue, which is `queue` afterwards, and its view
is handed out. -/
def handOut (s : State) (ref : SokoTokenRef) (queue : SokoTokenQueue) : State :=
  { s with
    pipeline.queue := queue
    pipeline.bankRemaining := Function.update s.pipeline.bankRemaining ref.bankId
      (s.pipeline.bankRemaining ref.bankId - 1)
    pipeline.banks :=
      if s.pipeline.bankRemaining ref.bankId - 1 = 0 then
        Function.update s.pipeline.banks ref.bankId
          { s.pipeline.banks ref.bankId with available := true }
      else s.pipeline.banks
    view := some {
      bankId := ref.bankId
      tokenIndex := ref.tokenIndex
      offset := ref.tokenIndex * 2 ^ s.pipeline.logn }
    history.returned :=
      s.history.returned ++ [(s.history.fillOf ref.bankId, ref.tokenIndex)] }

/-- The end of `acquire`: pop a reference and make the view. -/
def popToken (s : State) : State :=
  match sokoQueuePop s.pipeline.queue with
  | (none, _) => s.acquireReturn (-215)
  | (some ref, queue) => (s.handOut ref queue).acquireReturn 0

def setCall (s : State) (args : StartArgs) : State :=
  { s with
    pipeline.worker.call := {
      hCoeffs := s.pipeline.hCoeffs
      logn := s.pipeline.logn
      seed := args.seed
      tokens := s.pipeline.tokensPerBank
      bankId := args.bankId }
    pipeline.worker.result := 0 }

/-- `pipeline->banks[bank_id].available = 0` and `pipeline->next_seed++`. -/
def reserveBank (s : State) (bankId : ℕ) : State :=
  { s with
    pipeline.banks := Function.update s.pipeline.banks bankId
      { s.pipeline.banks bankId with available := false }
    pipeline.nextSeed := s.pipeline.nextSeed + 1 }

def createThread (s : State) : State :=
  { s with
    pipeline.worker.thread := some (s.created + 1)
    threads := Function.update s.threads (s.created + 1) .entry
    created := s.created + 1 }

def readCall (s : State) (id : ℕ) : State :=
  { s with history.calls := Function.update s.history.calls id (some s.pipeline.worker.call) }

def storeResult (s : State) (id bankId : ℕ) (result : ℤ) (contents : BankContents) : State :=
  { s with
    pipeline.worker.result := result
    history.fillOf := Function.update s.history.fillOf bankId id
    history.produced := Function.update s.history.produced id contents
    history.outcome := Function.update s.history.outcome id (some result) }

end State

/-- One micro-step of the consumer; `none` when it waits for a thread or has no
call to execute. `starts` is the outcome of `_beginthreadex`. -/
def consumerStep (starts : Bool) (s : State) : Option State :=
  match s.consumer with
  | .outside | .destroyed => none
  | .finishLoadDone call =>
      if s.pipeline.worker.done then some (s.goto (.joinLoadStarted (.finish call)))
      else some (s.finishReturn call)
  | .joinLoadStarted caller =>
      if s.pipeline.worker.started then some (s.goto (.joinWait caller))
      else some (s.joinReturn caller)
  | .joinWait caller =>
      -- `WaitForSingleObject` blocks on a live thread and fails at once on `NULL`.
      match s.pipeline.worker.thread.map s.threads with
      | some .exited | none => some ((s.setThread none).goto (.joinStoreStarted caller))
      | some _ => none
  | .joinStoreStarted caller => some ((s.storeStarted false).joinReturn caller)
  | .finishStoreDone call => some ((s.storeDone false).finishCollect call)
  | .acquireLoadInFlight =>
      if (s.pipeline.queue.count : ℤ) ≤ s.pipeline.refillThreshold ∧
          s.pipeline.worker.inFlight = false then
        match sokoFindEmptyBank s.pipeline with
        | some bankId =>
            some ((s.reserveBank bankId).goto
              (.startLoadInFlight { bankId, seed := s.pipeline.nextSeed }))
        | none => some (s.goto .waitHead)
      else some (s.goto .waitHead)
  | .startLoadInFlight args =>
      if s.pipeline.worker.inFlight then some (s.acquireReturn (-213))
      else some (s.goto (.startStoreDone args))
  | .startStoreDone args => some (((s.setCall args).storeDone false).goto .startStoreInFlight)
  | .startStoreInFlight => some ((s.storeInFlight true).goto .startStoreStarted)
  | .startStoreStarted => some ((s.storeStarted true).goto .startThread)
  | .startThread =>
      if starts then some (s.createThread.goto .waitHead)
      else some ((s.setThread none).goto .startFailStoreInFlight)
  | .startFailStoreInFlight => some ((s.storeInFlight false).goto .startFailStoreStarted)
  | .startFailStoreStarted => some ((s.storeStarted false).acquireReturn (-213))
  | .waitHead =>
      if s.pipeline.queue.count = 0 then some (s.goto .waitLoadDone)
      else some (s.goto .acquirePop)
  | .waitLoadDone =>
      if s.pipeline.worker.done then some (s.goto (.finishLoadDone .inWaitLoop))
      else some (s.goto .waitHead)
  | .acquirePop => some s.popToken
  | .destroyLoadStarted =>
      if s.pipeline.worker.started then some (s.goto (.joinLoadStarted .destroy))
      else some (s.goto .destroyed)

/-- One micro-step of thread `id` outside its generation: read the worker fields
for the call, `done := 1`, `in_flight := 0`. -/
def threadStep (id : ℕ) (s : State) : Option State :=
  match s.threads id with
  | .entry => some ((s.readCall id).moveThread id (.generating s.pipeline.worker.call))
  | .storeDone => some ((s.storeDone true).moveThread id .storeInFlight)
  | .storeInFlight => some ((s.storeInFlight false).moveThread id .exited)
  | .absent | .generating _ | .exited => none

def threadWrite (id : ℕ) (contents : BankContents) (s : State) : Option State :=
  match s.threads id with
  | .generating call => some (s.writeBank call.bankId contents)
  | _ => none

/-- The generation of thread `id` ends: `contents` is what it leaves in its bank
and `result` what it stores in `worker->result`. -/
def threadGenerated (id : ℕ) (result : ℤ) (contents : BankContents) (s : State) :
    Option State :=
  match s.threads id with
  | .generating call =>
      some (((s.storeResult id call.bankId result contents).writeBank call.bankId
        contents).moveThread id .storeDone)
  | _ => none

/-- Entry of `acquire`; only the history is written before the first access. -/
def State.enterAcquire (s : State) : State :=
  { s with
    view := none
    lastReturn := none
    history.queueAtEntry := s.pipeline.queue.toList
    history.returnedAtEntry := s.history.returned }

/-- The consumer calls `acquire`; `nullArgument` when one of the pointers it
passes is `NULL`. -/
def beginAcquire (nullArgument : Bool) (s : State) : Option State :=
  if s.consumer = .outside then
    if nullArgument then some (s.enterAcquire.acquireReturn (-215))
    else some (s.enterAcquire.goto (.finishLoadDone .onEntry))
  else none

def beginDestroy (s : State) : Option State :=
  if s.consumer = .outside then some (s.goto .destroyLoadStarted) else none

inductive Action
  | acquire (nullArgument : Bool)
  | destroy
  | consumer (starts : Bool)
  | thread (id : ℕ)
  | write (id : ℕ) (contents : BankContents)
  | generated (id : ℕ) (result : ℤ) (contents : BankContents)

def step : Action → State → Option State
  | .acquire nullArgument => beginAcquire nullArgument
  | .destroy => beginDestroy
  | .consumer starts => consumerStep starts
  | .thread id => threadStep id
  | .write id contents => threadWrite id contents
  | .generated id result contents => threadGenerated id result contents

def Initialised (pipeline : SokoFalconRefillPipeline) : Prop :=
  ∃ args allocs, sokoFalconRefillPipelineInit args allocs = (0, some pipeline)

/-- `s` is reached from the freshly initialised `pipeline` by steps that all
meet `ok`. -/
def Run (ok : Action → State → Prop) (pipeline : SokoFalconRefillPipeline) (s : State) : Prop :=
  Initialised pipeline ∧ Reaches step ok (.initial pipeline) s

theorem Run.mono {ok ok' : Action → State → Prop} {pipeline : SokoFalconRefillPipeline}
    {s : State} (h : Run ok pipeline s) (hok : ∀ a u, ok a u → ok' a u) : Run ok' pipeline s :=
  ⟨h.1, h.2.mono hok⟩

theorem Run.of_execute {ok : Action → State → Prop} [∀ a s, Decidable (ok a s)]
    {pipeline : SokoFalconRefillPipeline} {s : State} (as : List Action)
    (hinit : Initialised pipeline) (h : execute step ok as (.initial pipeline) = some s) :
    Run ok pipeline s := ⟨hinit, reaches_of_execute h⟩

def twoBanks (refillThreshold : ℤ) : InitArgs where
  pipelineOutNull := false
  hCoeffs := some fun _ => 0
  logn := 1
  seedBase := 1
  tokensPerBank := 1
  refillThreshold
  banks := some fun _ =>
    { s1 := fun _ => 0, s2 := fun _ => 0, target := fun _ => 0, available := false }
  bankCount := 2

def twoBankPipeline (refillThreshold : ℤ) : SokoFalconRefillPipeline :=
  (sokoFalconRefillPipelineInit (twoBanks refillThreshold)
    ⟨true, true, some fun _ => ⟨0, 0⟩⟩).2.get rfl

theorem initialised_twoBankPipeline (refillThreshold : ℤ) :
    Initialised (twoBankPipeline refillThreshold) :=
  ⟨twoBanks refillThreshold, ⟨true, true, some fun _ => ⟨0, 0⟩⟩, rfl⟩

end Soko.Pipeline
