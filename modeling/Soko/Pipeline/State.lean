import Soko.Pipeline.Queue

/-!
The state of the refill pipeline and the micro-steps of its two parties.

The consumer executes `soko_falcon_refill_pipeline_acquire` (and in the end
`soko_falcon_refill_pipeline_destroy`), each thread created by
`soko_start_refill_worker` executes `soko_refill_thread_proc`. One micro-step is
one access to an atomic field, one wait or one thread creation, together with
the local code that follows it up to the next such point: the queue, the
counters and the non-atomic worker fields are only ever touched by the party
whose step it is. `ConsumerPc` and `ThreadPc` name the point each party has
reached.

`History` holds what no C code reads: which refill filled a bank last, what it
wrote, and in which order refills were collected and tokens handed out.
-/

namespace Soko.Pipeline

/-- What the arrays `s1`, `s2` and `target` of a bank hold. -/
structure BankContents where
  s1 : ℕ → Int8
  s2 : ℕ → Int8
  target : ℕ → UInt16

/-- `soko_falcon_token_bank_t`. -/
structure SokoFalconTokenBank extends BankContents where
  available : Bool

/-- `soko_falcon_token_view_t`; the three pointers of the view are the arrays of
the bank from `offset` on. -/
structure SokoFalconTokenView where
  bankId : ℕ
  tokenIndex : ℕ
  offset : ℕ
  deriving DecidableEq, Repr

/-- The arguments `soko_refill_thread_proc` passes on to
`soko_gpu_generate_presign_bank_dynamic`; the three output pointers are the
arrays of bank `bankId`. -/
structure GenerateCall where
  hCoeffs : ℕ → UInt16
  logn : ℕ
  seed : UInt32
  tokens : ℕ
  bankId : ℕ

/-- `soko_refill_worker_t`. The handle `thread` is the number of the thread it
refers to, `none` for `NULL`; `call` stands for the fields `bank_id`, `tokens`,
`logn`, `seed`, `h_coeffs` and `bank`. -/
structure SokoRefillWorker where
  inFlight : Bool
  done : Bool
  started : Bool
  call : GenerateCall
  result : ℤ
  thread : Option ℕ

/-- `struct soko_falcon_refill_pipeline`. -/
structure SokoFalconRefillPipeline where
  hCoeffs : ℕ → UInt16
  logn : ℕ
  nextSeed : UInt32
  tokensPerBank : ℕ
  refillThreshold : ℤ
  banks : ℕ → SokoFalconTokenBank
  bankCount : ℕ
  bankRemaining : ℕ → ℤ
  queue : SokoTokenQueue
  worker : SokoRefillWorker

/-- The two calls of `soko_finish_completed_refill` in `acquire`. -/
inductive FinishCall
  | onEntry
  | inWaitLoop
  deriving DecidableEq, Repr

/-- The argument `enqueue_error` of the call. -/
def FinishCall.enqueueError : FinishCall → ℤ
  | .onEntry => -212
  | .inWaitLoop => -214

/-- The callers of `soko_join_refill_worker`. -/
inductive JoinCaller
  | finish (call : FinishCall)
  | destroy
  deriving DecidableEq, Repr

/-- The arguments of `soko_start_refill_worker` that `acquire` has computed. -/
structure StartArgs where
  bankId : ℕ
  seed : UInt32
  deriving DecidableEq, Repr

/-- The next access of the consumer. The constructors follow the source: a name
starts with the function the access is in. -/
inductive ConsumerPc
  | outside
  | finishLoadDone (call : FinishCall)
  | joinLoadStarted (caller : JoinCaller)
  | joinWait (caller : JoinCaller)
  | joinStoreStarted (caller : JoinCaller)
  | finishStoreDone (call : FinishCall)
  | acquireLoadInFlight
  | startLoadInFlight (args : StartArgs)
  | startStoreDone (args : StartArgs)
  | startStoreInFlight
  | startStoreStarted
  | startThread
  | startFailStoreInFlight
  | startFailStoreStarted
  | waitHead
  | waitLoadDone
  | acquirePop
  | destroyLoadStarted
  | destroyed
  deriving DecidableEq, Repr

inductive ThreadPc
  | absent
  | entry
  | generating (call : GenerateCall)
  | storeDone
  | storeInFlight
  | exited

def ThreadPc.Active : ThreadPc → Prop
  | .entry | .generating _ | .storeDone | .storeInFlight => True
  | .absent | .exited => False

/-- What is observed of a run. Refills are numbered by the thread that runs
them, from 1 on; 0 is the fill of bank 0 that the caller made. -/
structure History where
  /-- The refill that generated into a bank last. -/
  fillOf : ℕ → ℕ
  /-- The contents a refill generated. -/
  produced : ℕ → BankContents
  /-- What the generation of a refill was called with. -/
  calls : ℕ → Option GenerateCall
  /-- The result of a refill's generation, once it has one. -/
  outcome : ℕ → Option ℤ
  /-- The refills whose tokens were enqueued, in order. -/
  enqueued : List ℕ
  /-- The refills whose failure an `acquire` returned, with the code. -/
  reported : List (ℕ × ℤ)
  /-- The tokens handed out, in order: the fill they belong to and their index. -/
  returned : List (ℕ × ℕ)
  /-- The queue and the tokens handed out when the latest `acquire` began. -/
  queueAtEntry : List SokoTokenRef
  returnedAtEntry : List (ℕ × ℕ)

structure State where
  pipeline : SokoFalconRefillPipeline
  consumer : ConsumerPc
  threads : ℕ → ThreadPc
  /-- The number of threads created so far. -/
  created : ℕ
  /-- The view of the latest `acquire`, if it succeeded and no other began. -/
  view : Option SokoFalconTokenView
  /-- The code the latest `acquire` returned. -/
  lastReturn : Option ℤ
  history : History

/-- The arguments of `soko_falcon_refill_pipeline_init`; `none` is `NULL`. -/
structure InitArgs where
  pipelineOutNull : Bool
  hCoeffs : Option (ℕ → UInt16)
  logn : ℕ
  seedBase : UInt32
  tokensPerBank : ℤ
  refillThreshold : ℤ
  banks : Option (ℕ → SokoFalconTokenBank)
  bankCount : ℤ

/-- What the three allocations of `soko_falcon_refill_pipeline_init` return. -/
structure InitAllocs where
  pipeline : Bool
  bankRemaining : Bool
  items : Option (ℕ → SokoTokenRef)

def SokoRefillWorker.zero : SokoRefillWorker where
  inFlight := false
  done := false
  started := false
  call := { hCoeffs := fun _ => 0, logn := 0, seed := 0, tokens := 0, bankId := 0 }
  result := 0
  thread := none

/-- `soko_falcon_refill_pipeline_init`: the return value and `*pipeline_out`. -/
def sokoFalconRefillPipelineInit (args : InitArgs) (allocs : InitAllocs) :
    ℤ × Option SokoFalconRefillPipeline :=
  match args.hCoeffs, args.banks with
  | some hCoeffs, some banks =>
      if args.pipelineOutNull || args.bankCount < 2 || args.tokensPerBank ≤ 0 then
        (-210, none)
      else if !allocs.pipeline then (-210, none)
      else if !allocs.bankRemaining then (-210, none)
      else
        let tokensPerBank := args.tokensPerBank.toNat
        let bankCount := args.bankCount.toNat
        match sokoQueueInit allocs.items (tokensPerBank * bankCount) with
        | none => (-210, none)
        | some queue =>
            match sokoEnqueueBankTokens queue 0 tokensPerBank with
            | (false, _) => (-211, none)
            | (true, queue) =>
                (0, some {
                  hCoeffs
                  logn := args.logn
                  nextSeed := args.seedBase
                  tokensPerBank
                  refillThreshold := args.refillThreshold
                  banks := Function.update
                    (Function.update banks 0 { banks 0 with available := false })
                    1 { banks 1 with available := true }
                  bankCount
                  bankRemaining := Function.update (fun _ => 0) 0 (tokensPerBank : ℤ)
                  queue
                  worker := .zero })
  | _, _ => (-210, none)

/-- The state in which `init` leaves a pipeline to its consumer. -/
def State.initial (pipeline : SokoFalconRefillPipeline) : State where
  pipeline
  consumer := .outside
  threads := fun _ => .absent
  created := 0
  view := none
  lastReturn := none
  history := {
    fillOf := fun _ => 0
    produced := fun _ => (pipeline.banks 0).toBankContents
    calls := fun _ => none
    outcome := fun _ => none
    enqueued := []
    reported := []
    returned := []
    queueAtEntry := []
    returnedAtEntry := [] }

end Soko.Pipeline
