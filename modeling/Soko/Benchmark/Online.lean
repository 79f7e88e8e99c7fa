import Mathlib.Algebra.Field.Rat
import Soko.Gpu.VerifyCompressed
import Soko.Library.Counting

/-!
The online part of `soko_token_benchmark.c`: three drivers that sign the tokens, and the
verification of the signatures by one of four back ends. The times they measure are left
out. A driver returns nothing where the program ends with `exit(1)` or the driver with -1.
-/

namespace Soko.Benchmark

open Soko.Library Soko.Shake Soko.Signature Soko.Gpu

/-- `verify_backend_mode`. -/
inductive VerifyBackend
  | cpu
  | gpuRaw
  | gpuFull
  deriving DecidableEq

def falconSigCompressedMaxsize (logn : ℕ) : ℕ :=
  ((((11 <<< logn) + (101 >>> (10 - logn))) + 7) >>> 3) + 41

/-- What a driver is given, and what it calls. -/
structure OnlineRun where
  logn : ℕ
  tokens : ℕ
  verifySignatures : Bool
  verifyBackendMode : VerifyBackend
  /-- the nonce of a token: `derive_nonce_from_token`, in the pipeline the next 40 bytes of
  `rng_nonce` -/
  nonce : ℕ → Vector UInt8 40
  /-- what `sign_dyn_lazy_online` computes for a token -/
  sv : ℕ → List Int16
  /-- the memory of the signatures, before the run -/
  sigBank : ℕ → List UInt8
  /-- `falcon_verify` on a message and a signature returns 0 -/
  falconVerify : List UInt8 → List UInt8 → Bool
  /-- the fuel of the hash loop in `prepare_verify_raw_inputs_from_signature` -/
  hashFuel : ℕ
  /-- `_OPENMP` -/
  openMp : Bool
  /-- `OOFALCON_USE_CUDA` and `_WIN32` -/
  cuda : Bool
  /-- `gpu_verify_raw_batch_dynamic` on the banks of points and coefficients: the result
  bank, unless the call fails -/
  gpuVerifyRawBatch : List (List UInt16 × List Int16) → Option (ℕ → UInt8)
  /-- `gpu_verify_compressed_benchmark_batch_dynamic` on the signature bank -/
  gpuVerifyCompressedBatch : List (List UInt8) → Option (ℕ → UInt8)

/-- `*ok_count` and `*fail_count` of a verification. -/
structure VerifyCounts where
  ok : ℕ
  fail : ℕ

def VerifyCounts.zero : VerifyCounts := ⟨0, 0⟩

def VerifyCounts.note (counts : VerifyCounts) (accepted : Bool) : VerifyCounts :=
  if accepted then { counts with ok := counts.ok + 1 }
  else { counts with fail := counts.fail + 1 }

/-- `#pragma omp atomic`, for both counters. -/
def VerifyCounts.add (counts local' : VerifyCounts) : VerifyCounts :=
  ⟨counts.ok + local'.ok, counts.fail + local'.fail⟩

def countResults (resultBank : ℕ → UInt8) (n : ℕ) (counts : VerifyCounts) : VerifyCounts :=
  (List.range n).foldl (fun counts i => counts.note (decide (resultBank i ≠ 0))) counts

/-- The counters of an online loop, and the signatures: `sigs t` are the first
`sig_lens[t]` bytes in the slot of token `t`. -/
structure OnlineState where
  ok : ℕ
  fail : ℕ
  totalAttemptsOk : ℕ
  signSuccess : ℕ
  sigs : ℕ → List UInt8

structure OnlineReport where
  okCount : ℕ
  failCount : ℕ
  avgAttempts : ℚ

namespace OnlineRun

variable (run : OnlineRun)

/-- The call of `sign_token_to_signature`: the signature, or nothing if it returns 0.
Without a buffer it returns 1 before it encodes. -/
def signToken (t : ℕ) : Option (List UInt8) :=
  if run.verifySignatures then
    signTokenToSignature run.logn (run.nonce t) (run.sv t)
      (UInt64.ofNat (falconSigCompressedMaxsize run.logn))
  else some []

/-- `sig_lens[t]` and the slot of token `t` after the attempt to sign it. -/
def storeSignature (t : ℕ) (sigs : ℕ → List UInt8) : ℕ → List UInt8 :=
  if run.verifySignatures then Function.update sigs t ((run.signToken t).getD []) else sigs

def initialState : OnlineState where
  ok := 0
  fail := 0
  totalAttemptsOk := 0
  signSuccess := 0
  sigs := run.sigBank

/-- An iteration of the loop in `run_online_cpu` and `run_online_cpu_pipeline`. Every token
gets one attempt. -/
def signStep (s : OnlineState) (t : ℕ) : OnlineState :=
  if (run.signToken t).isSome then
    { ok := if run.verifySignatures then s.ok else s.ok + 1
      fail := s.fail
      totalAttemptsOk := s.totalAttemptsOk + 1
      signSuccess := s.signSuccess + 1
      sigs := run.storeSignature t s.sigs }
  else { s with fail := s.fail + 1, sigs := run.storeSignature t s.sigs }

/-- An iteration of the parallel loop in `run_online_cpu_mt`, on the counters of its
thread. -/
def signStepMt (s : OnlineState) (t : ℕ) : OnlineState :=
  if (run.signToken t).isSome then
    { s with
      totalAttemptsOk := s.totalAttemptsOk + 1
      signSuccess := s.signSuccess + 1
      sigs := run.storeSignature t s.sigs }
  else { s with fail := s.fail + 1, sigs := run.storeSignature t s.sigs }

/-- The counters of a thread at the start of the parallel region. The memory is shared. -/
def startThread (s : OnlineState) : OnlineState :=
  { ok := 0, fail := 0, totalAttemptsOk := 0, signSuccess := 0, sigs := s.sigs }

/-- `#pragma omp atomic`, for the three counters. -/
def mergeThread (s thread : OnlineState) : OnlineState where
  ok := s.ok
  fail := s.fail + thread.fail
  totalAttemptsOk := s.totalAttemptsOk + thread.totalAttemptsOk
  signSuccess := s.signSuccess + thread.signSuccess
  sigs := thread.sigs

/-- An iteration of `run_verify_batch_serial` and of the parallel loop in
`run_verify_batch_mt`. -/
def verifyStep (sigs : ℕ → List UInt8) (counts : VerifyCounts) (t : ℕ) : VerifyCounts :=
  if (sigs t).length = 0 then counts
  else counts.note (run.falconVerify (fillMessage msgSize t) (sigs t))

def runVerifyBatchSerial (sigs : ℕ → List UInt8) : VerifyCounts :=
  (List.range run.tokens).foldl (run.verifyStep sigs) .zero

def runVerifyBatchMt (sigs : ℕ → List UInt8) (verifyThreads : ℤ)
    (verifying : ThreadPartition run.tokens) : VerifyCounts :=
  if ¬ run.openMp then run.runVerifyBatchSerial sigs
  else if verifyThreads ≤ 1 then run.runVerifyBatchSerial sigs
  else
    parallelLoop (fun _ => VerifyCounts.zero) (run.verifyStep sigs) VerifyCounts.add
      verifying.shares .zero

/-- An iteration of the first loop in `run_verify_batch_gpu_raw`: the banks with the
prepared inputs so far, and `fail`. -/
def prepareStep (sigs : ℕ → List UInt8) (s : List (List UInt16 × List Int16) × ℕ) (t : ℕ) :
    Option (List (List UInt16 × List Int16) × ℕ) :=
  if (sigs t).length = 0 then some s
  else
    (prepareVerifyRawInputsFromSignature run.hashFuel run.logn (fillMessage msgSize t)
        (sigs t)).map fun
      | some inputs => (s.1 ++ [inputs], s.2)
      | none => (s.1, s.2 + 1)

def runVerifyBatchGpuRaw (sigs : ℕ → List UInt8) : Option VerifyCounts :=
  if ¬ run.cuda then none
  else
    ((List.range run.tokens).foldlM (run.prepareStep sigs) ([], 0)).bind fun (entries, fail) =>
      if 0 < entries.length then
        (run.gpuVerifyRawBatch entries).map fun resultBank =>
          countResults resultBank entries.length ⟨0, fail⟩
      else some ⟨0, fail⟩

def runVerifyBatchGpuFull (sigs : ℕ → List UInt8) : Option VerifyCounts :=
  if ¬ run.cuda then none
  else
    (run.gpuVerifyCompressedBatch ((List.range run.tokens).map sigs)).map fun resultBank =>
      countResults resultBank run.tokens .zero

/-- The choice of the back end, which the three drivers share; `onCpu` is what they do on
the CPU. -/
def runVerifyBatch (onCpu : VerifyCounts) (sigs : ℕ → List UInt8) : Option VerifyCounts :=
  match run.verifyBackendMode with
  | .gpuRaw => run.runVerifyBatchGpuRaw sigs
  | .gpuFull => run.runVerifyBatchGpuFull sigs
  | .cpu => some onCpu

end OnlineRun

/-- `*avg_attempts`, `*ok_count` and `*fail_count`. -/
def OnlineState.report (s : OnlineState) : OnlineReport where
  okCount := s.ok
  failCount := s.fail
  avgAttempts := if 0 < s.signSuccess then (s.totalAttemptsOk : ℚ) / s.signSuccess else 0

def runOnlineCpu (run : OnlineRun) : Option OnlineReport :=
  let s := (List.range run.tokens).foldl run.signStep run.initialState
  if run.verifySignatures then
    (run.runVerifyBatch (run.runVerifyBatchSerial s.sigs) s.sigs).map fun verified =>
      { s with ok := s.ok + verified.ok, fail := s.fail + verified.fail }.report
  else some s.report

def runOnlineCpuMt (run : OnlineRun) (onlineThreads : ℤ)
    (signing verifying : ThreadPartition run.tokens) : Option OnlineReport :=
  if ¬ run.openMp then runOnlineCpu run
  else if onlineThreads ≤ 1 then runOnlineCpu run
  else
    let s := parallelLoop OnlineRun.startThread run.signStepMt OnlineRun.mergeThread
      signing.shares run.initialState
    if run.verifySignatures then
      (run.runVerifyBatch (run.runVerifyBatchMt s.sigs onlineThreads verifying) s.sigs).map
        fun verified => { s with ok := verified.ok, fail := s.fail + verified.fail }.report
    else some { s with ok := s.signSuccess }.report

/-- What `soko_falcon_refill_pipeline_init` returns, and
`soko_falcon_refill_pipeline_acquire` for each token. -/
structure PipelineStatus where
  init : ℤ
  acquire : ℕ → ℤ

/-- An iteration of the loop in `run_online_cpu_pipeline`. -/
def OnlineRun.acquireStep (run : OnlineRun) (status : PipelineStatus) (s : OnlineState) (t : ℕ) :
    Option OnlineState :=
  if status.acquire t ≠ 0 then none else some (run.signStep s t)

def runOnlineCpuPipeline (run : OnlineRun) (tokensPerBank : ℕ) (status : PipelineStatus)
    (verifyThreads : ℤ) (signing verifying : ThreadPartition run.tokens) : Option OnlineReport :=
  if run.tokens ≤ tokensPerBank then runOnlineCpuMt run verifyThreads signing verifying
  else if status.init ≠ 0 then none
  else
    ((List.range run.tokens).foldlM (run.acquireStep status) run.initialState).bind fun s =>
      if run.verifySignatures then
        (run.runVerifyBatch (run.runVerifyBatchMt s.sigs verifyThreads verifying) s.sigs).map
          fun verified => { s with ok := verified.ok, fail := s.fail + verified.fail }.report
      else some s.report

end Soko.Benchmark
