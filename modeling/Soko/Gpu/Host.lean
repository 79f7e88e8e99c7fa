import Soko.Gpu.KeyHash
import Soko.Gpu.Transform

/-!
The host side: the global variables of `soko_gpu_offline.cu` and its four functions,
up to the launch of their kernels and the code that they return. Every call that may
fail is a `Site`, and a request comes with the outcome of each; a site is passed at
most once in a request.
-/

namespace Soko.Gpu

/-- The calls of a request that may fail. The arrays of a batch are numbered in the
order of their allocations and copies. -/
inductive Site
  | hostTables
  | hostHHat
  | streamCreate
  | eventCreate
  | mallocGmb
  | mallocIgmb
  | copyGmb
  | copyIgmb
  | mallocHHat
  | copyHHat
  | mallocHVerify
  | copyHVerify
  | mallocBatch (i : ℕ)
  | copyIn (i : ℕ)
  | launch
  | eventRecord
  | eventSynchronize
  | copyOut (i : ℕ)
  | streamSynchronize
  | deviceReset

/-- The two sites that are a `malloc` on the host. -/
def Site.isHost : Site → Bool
  | hostTables | hostHHat => true
  | _ => false

abbrev Outcomes := Site → Bool

/-- No CUDA call of the request fails. -/
def Outcomes.CudaSucceeds (ok : Outcomes) : Prop := ∀ site, site.isHost = false → ok site = true

/-- An array of `uint16_t` on the device: the bytes it was allocated with, and the words
that are known to be in it. -/
structure DeviceBuffer where
  bytes : ℕ
  words : ℕ → Option UInt16

/-- `ntt_tables_host`. -/
structure NttTablesHost where
  logn : ℕ
  n : ℕ
  nInv : UInt32
  gmb : Option Key
  igmb : Option Key

structure GpuState where
  nttHost : NttTablesHost
  dGmb : Option DeviceBuffer
  dIgmb : Option DeviceBuffer
  dHHat : Option DeviceBuffer
  dHVerify : Option DeviceBuffer
  hHash : UInt64
  hVerifyHash : UInt64
  cachedLogn : ℕ
  cachedVerifyLogn : ℕ
  stream : Bool
  kernelDone : Bool

def GpuState.initial : GpuState where
  nttHost := { logn := 0, n := 0, nInv := 0, gmb := none, igmb := none }
  dGmb := none
  dIgmb := none
  dHHat := none
  dHVerify := none
  hHash := 0
  hVerifyHash := 0
  cachedLogn := 0
  cachedVerifyLogn := 0
  stream := false
  kernelDone := false

def mallocBuffer (ok : Bool) (bytes : ℕ) : Option DeviceBuffer :=
  if ok then some { bytes, words := fun _ => none } else none

/-- `cudaMemcpy` of `count` words to the device. After a failed copy nothing is known
about these words. -/
def copyToDevice (ok : Bool) (src : Key) (count : ℕ) (buffer : Option DeviceBuffer) :
    Option DeviceBuffer :=
  buffer.map fun b =>
    { b with words := fun i => if i < count then (if ok then some (src i) else none) else b.words i }

def andThen (before : GpuState × Bool) (next : GpuState → GpuState × Bool) : GpuState × Bool :=
  if before.2 then next before.1 else before

/-- The creation of `g_stream` and `g_kernel_done`, at the start of every batch. -/
def createHandles (ok : Outcomes) (st : GpuState) : GpuState × Bool :=
  if ¬ st.stream ∧ ¬ ok .streamCreate then (st, false)
  else
    let st := { st with stream := true }
    if ¬ st.kernelDone ∧ ¬ ok .eventCreate then (st, false)
    else ({ st with kernelDone := true }, true)

def ensureNttTables (ok : Outcomes) (logn : ℕ) (st : GpuState) : GpuState × Bool :=
  let missing := st.nttHost.gmb.isNone || st.nttHost.igmb.isNone
  if missing ∧ ¬ ok .hostTables then (st, false)
  else
    ({ st with
        nttHost :=
          { logn
            n := 2 ^ logn
            nInv := nInv logn
            gmb := if missing then some gmb else st.nttHost.gmb
            igmb := if missing then some igmb else st.nttHost.igmb }
        cachedLogn := 0 }, true)

/-- A table of `g_ntt_host`, copied into a buffer that is allocated if it is missing. -/
def uploadTable (mallocOk copyOk : Bool) (table : Option Key) (buffer : Option DeviceBuffer) :
    Option DeviceBuffer :=
  let buffer := if buffer.isNone then mallocBuffer mallocOk (2 * 1024) else buffer
  copyToDevice copyOk (table.getD fun _ => 0) 1024 buffer

def ensureDeviceTables (ok : Outcomes) (logn : ℕ) (st : GpuState) : GpuState × Bool :=
  andThen (ensureNttTables ok logn st) fun st =>
    if st.dGmb.isSome ∧ st.dIgmb.isSome then (st, true)
    else
      ({ st with
          dGmb := uploadTable (ok .mallocGmb) (ok .copyGmb) st.nttHost.gmb st.dGmb
          dIgmb := uploadTable (ok .mallocIgmb) (ok .copyIgmb) st.nttHost.igmb st.dIgmb }, true)

/-- The allocation in `ensure_h_hat`. -/
def allocHHat (ok : Outcomes) (n : ℕ) (st : GpuState) : GpuState :=
  if st.dHHat.isNone then { st with dHHat := mallocBuffer (ok .mallocHHat) (2 * n), hHash := 0 }
  else st

def ensureHHat (ok : Outcomes) (hCoeffs : Key) (logn : ℕ) (st : GpuState) : GpuState × Bool :=
  let n := 2 ^ logn
  let hHash := hashHCoeffs hCoeffs n
  let st := allocHHat ok n st
  if st.hHash = hHash ∧ st.cachedLogn = logn then (st, true)
  else if ¬ ok .hostHHat then (st, false)
  else
    let hHat := mqPolyTomontyHost logn (mqNttHost (st.nttHost.gmb.getD fun _ => 0) logn hCoeffs)
    ({ st with dHHat := copyToDevice (ok .copyHHat) hHat n st.dHHat, hHash, cachedLogn := logn },
      true)

/-- The allocation in `ensure_h_verify`. -/
def allocHVerify (ok : Outcomes) (n : ℕ) (st : GpuState) : GpuState :=
  if st.dHVerify.isNone then
    { st with dHVerify := mallocBuffer (ok .mallocHVerify) (2 * n), hVerifyHash := 0 }
  else st

def ensureHVerify (ok : Outcomes) (hNttMonty : Key) (logn : ℕ) (st : GpuState) :
    GpuState × Bool :=
  let n := 2 ^ logn
  let hHash := hashHCoeffs hNttMonty n
  let st := allocHVerify ok n st
  if st.hVerifyHash = hHash ∧ st.cachedVerifyLogn = logn then (st, true)
  else
    ({ st with
        dHVerify := copyToDevice (ok .copyHVerify) hNttMonty n st.dHVerify
        hVerifyHash := hHash
        cachedVerifyLogn := logn }, true)

/-- What a kernel gets from the globals: the buffer of the key, the tables and the
factor. -/
structure Launch where
  logn : ℕ
  deviceKey : Option DeviceBuffer
  gmb : Option DeviceBuffer
  igmb : Option DeviceBuffer
  nInv : UInt32

structure Response where
  state : GpuState
  code : ℕ
  launch : Option Launch

/-- The code of the first site that fails, or 0. -/
def firstFailure (ok : Outcomes) : List (Site × ℕ) → ℕ
  | [] => 0
  | (site, code) :: rest => if ok site then firstFailure ok rest else code

/-- The errors of a batch function: a null pointer, a bad size, a failed setup, and the
sites before and after the launch. -/
structure BatchErrors where
  null : ℕ
  size : ℕ
  setup : ℕ
  before : List (Site × ℕ)
  after : List (Site × ℕ)

/-- What the batch functions do first: the handles, the tables and the key. -/
def setupBatch (ok : Outcomes) (logn : ℕ) (ensureKey : GpuState → GpuState × Bool)
    (st : GpuState) : GpuState × Bool :=
  andThen (andThen (createHandles ok st) (ensureDeviceTables ok logn)) ensureKey

/-- The course of the three batch functions. `deviceKey` is the buffer that `ensureKey`
fills. -/
def runBatch (errors : BatchErrors) (ok : Outcomes) (pointers sizes : Bool) (logn : ℕ)
    (ensureKey : GpuState → GpuState × Bool) (deviceKey : GpuState → Option DeviceBuffer)
    (st : GpuState) : Response :=
  if ¬ pointers then { state := st, code := errors.null, launch := none }
  else if ¬ sizes then { state := st, code := errors.size, launch := none }
  else
    let ready := setupBatch ok logn ensureKey st
    let st := ready.1
    if ¬ ready.2 then { state := st, code := errors.setup, launch := none }
    else if firstFailure ok errors.before ≠ 0 then
      { state := st, code := firstFailure ok errors.before, launch := none }
    else
      { state := st
        code := firstFailure ok errors.after
        launch := some
          { logn
            deviceKey := deviceKey st
            gmb := st.dGmb
            igmb := st.dIgmb
            nInv := st.nttHost.nInv } }

def validSizes (logn : ℕ) (tokens : ℤ) : Bool := decide (1 ≤ logn ∧ logn ≤ 10 ∧ 0 < tokens)

/-- `oofalcon_gpu_generate_presign_bank`. `banks` says that the pointers to the banks are
not null. -/
def oofalconGpuGeneratePresignBank (hCoeffs : Option Key) (logn : ℕ) (tokens : ℤ) (banks : Bool)
    (ok : Outcomes) : GpuState → Response :=
  runBatch
    { null := 1
      size := 2
      setup := 9
      before := [(.mallocBatch 0, 11), (.mallocBatch 1, 12), (.mallocBatch 2, 13)]
      after := [(.launch, 15), (.eventRecord, 15), (.eventSynchronize, 16), (.copyOut 0, 16),
        (.copyOut 1, 16), (.copyOut 2, 16), (.streamSynchronize, 17)] }
    ok (hCoeffs.isSome && banks) (validSizes logn tokens) logn
    (ensureHHat ok (hCoeffs.getD fun _ => 0) logn) GpuState.dHHat

def oofalconGpuVerifyRawBatch (hNttMonty : Option Key) (logn : ℕ) (tokens : ℤ) (banks : Bool)
    (ok : Outcomes) : GpuState → Response :=
  runBatch
    { null := 41
      size := 42
      setup := 49
      before := [(.mallocBatch 0, 51), (.mallocBatch 1, 52), (.mallocBatch 2, 53), (.copyIn 0, 54),
        (.copyIn 1, 54)]
      after := [(.launch, 55), (.eventRecord, 56), (.eventSynchronize, 57), (.copyOut 0, 57),
        (.streamSynchronize, 57)] }
    ok (hNttMonty.isSome && banks) (validSizes logn tokens) logn
    (ensureHVerify ok (hNttMonty.getD fun _ => 0) logn) GpuState.dHVerify

def oofalconGpuVerifyCompressedBenchmarkBatch (hNttMonty : Option Key) (logn : ℕ) (tokens : ℤ)
    (sigStride : ℕ) (banks : Bool) (ok : Outcomes) : GpuState → Response :=
  runBatch
    { null := 61
      size := 62
      setup := 69
      before := [(.mallocBatch 0, 71), (.mallocBatch 1, 72), (.mallocBatch 2, 73), (.copyIn 0, 74),
        (.copyIn 1, 74)]
      after := [(.launch, 75), (.eventRecord, 75), (.eventSynchronize, 75), (.copyOut 0, 75),
        (.streamSynchronize, 75)] }
    ok (hNttMonty.isSome && banks) (validSizes logn tokens && decide (sigStride ≠ 0)) logn
    (ensureHVerify ok (hNttMonty.getD fun _ => 0) logn) GpuState.dHVerify

def oofalconGpuResetDevice (ok : Outcomes) (st : GpuState) : Response :=
  { state :=
      { st with
        kernelDone := false
        stream := false
        dGmb := none
        dIgmb := none
        dHHat := none
        dHVerify := none
        hHash := 0
        hVerifyHash := 0
        cachedLogn := 0
        cachedVerifyLogn := 0 }
    code := if ok .deviceReset then 0 else 30
    launch := none }

/-! What the handles and the allocations change. -/

theorem createHandles_state (ok : Outcomes) (st : GpuState) :
    ∃ stream kernelDone, (createHandles ok st).1 = { st with stream, kernelDone } := by
  unfold createHandles
  dsimp only
  split
  · exact ⟨_, _, rfl⟩
  · split <;> exact ⟨_, _, rfl⟩

theorem allocHHat_state (ok : Outcomes) (n : ℕ) (st : GpuState) :
    ∃ hash, allocHHat ok n st = { st with
      dHHat := if st.dHHat.isNone then mallocBuffer (ok .mallocHHat) (2 * n) else st.dHHat
      hHash := hash } := by
  unfold allocHHat
  split
  · exact ⟨_, rfl⟩
  · exact ⟨_, rfl⟩

/-- After the reset of its cache, a presign call finds no key: 0 is the `logn` of none. -/
theorem allocHHat_reset {st : GpuState} {logn : ℕ} (ok : Outcomes) (hCoeffs : Key)
    (hcached : st.cachedLogn = 0) (hlogn : 1 ≤ logn) :
    ∃ hash, ¬ (hash = hashHCoeffs hCoeffs (2 ^ logn) ∧ st.cachedLogn = logn) ∧
      allocHHat ok (2 ^ logn) st = { st with
        dHHat := if st.dHHat.isNone then mallocBuffer (ok .mallocHHat) (2 * 2 ^ logn) else st.dHHat
        hHash := hash } := by
  obtain ⟨hash, halloc⟩ := allocHHat_state ok (2 ^ logn) st
  refine ⟨hash, ?_, halloc⟩
  rintro ⟨-, hsame⟩
  omega

theorem allocHVerify_state (ok : Outcomes) (n : ℕ) (st : GpuState) :
    allocHVerify ok n st = { st with
      dHVerify := if st.dHVerify.isNone then mallocBuffer (ok .mallocHVerify) (2 * n)
        else st.dHVerify
      hVerifyHash := if st.dHVerify.isNone then 0 else st.hVerifyHash } := by
  unfold allocHVerify
  split <;> rfl

section Batch

variable {errors : BatchErrors} {ok : Outcomes} {pointers sizes : Bool} {logn : ℕ}
  {ensureKey : GpuState → GpuState × Bool} {deviceKey : GpuState → Option DeviceBuffer}
  {st : GpuState}

theorem runBatch_state :
    (runBatch errors ok pointers sizes logn ensureKey deviceKey st).state =
      if pointers ∧ sizes then (setupBatch ok logn ensureKey st).1 else st := by
  unfold runBatch
  cases pointers with
  | false => rfl
  | true =>
      cases sizes with
      | false => rfl
      | true =>
          dsimp only
          split_ifs <;> first | rfl | contradiction

/-- A launch comes after a setup without failure, and gets what the setup has left. -/
theorem of_runBatch_launch {launch : Launch}
    (hlaunch : (runBatch errors ok pointers sizes logn ensureKey deviceKey st).launch =
      some launch) :
    pointers = true ∧ sizes = true ∧ (setupBatch ok logn ensureKey st).2 = true ∧
      launch.logn = logn ∧ launch.deviceKey = deviceKey (setupBatch ok logn ensureKey st).1 := by
  unfold runBatch at hlaunch
  dsimp only at hlaunch
  split_ifs at hlaunch with hpointers hsizes hready hbefore
  obtain rfl := Option.some.inj hlaunch
  exact ⟨hpointers, hsizes, hready, rfl, rfl⟩

/-- The kernel gets the globals as the request leaves them. -/
theorem runBatch_launch_eq {launch : Launch}
    (hlaunch : (runBatch errors ok pointers sizes logn ensureKey deviceKey st).launch =
      some launch) :
    let after := (runBatch errors ok pointers sizes logn ensureKey deviceKey st).state
    launch =
      { logn
        deviceKey := deviceKey after
        gmb := after.dGmb
        igmb := after.dIgmb
        nInv := after.nttHost.nInv } := by
  obtain ⟨hpointers, hsizes, -⟩ := of_runBatch_launch hlaunch
  dsimp only
  rw [runBatch_state, if_pos ⟨hpointers, hsizes⟩]
  unfold runBatch at hlaunch
  dsimp only at hlaunch
  split_ifs at hlaunch
  exact (Option.some.inj hlaunch).symm

/-- A batch function that returns 0 has launched its kernel, and nothing has failed after
that. -/
theorem of_runBatch_code_eq_zero (hnull : errors.null ≠ 0) (hsize : errors.size ≠ 0)
    (hsetup : errors.setup ≠ 0)
    (hcode : (runBatch errors ok pointers sizes logn ensureKey deviceKey st).code = 0) :
    (runBatch errors ok pointers sizes logn ensureKey deviceKey st).launch.isSome = true ∧
      firstFailure ok errors.after = 0 := by
  unfold runBatch at hcode ⊢
  dsimp only at hcode ⊢
  split_ifs at hcode ⊢ <;> first | contradiction | exact ⟨rfl, hcode⟩

end Batch

inductive Call
  | generatePresignBank (hCoeffs : Option Key) (logn : ℕ) (tokens : ℤ) (banks : Bool)
  | verifyRawBatch (hNttMonty : Option Key) (logn : ℕ) (tokens : ℤ) (banks : Bool)
  | verifyCompressedBenchmarkBatch (hNttMonty : Option Key) (logn : ℕ) (tokens : ℤ)
      (sigStride : ℕ) (banks : Bool)
  | resetDevice

structure Request where
  call : Call
  ok : Outcomes

def Request.perform (request : Request) (st : GpuState) : Response :=
  match request.call with
  | .generatePresignBank hCoeffs logn tokens banks =>
      oofalconGpuGeneratePresignBank hCoeffs logn tokens banks request.ok st
  | .verifyRawBatch hNttMonty logn tokens banks =>
      oofalconGpuVerifyRawBatch hNttMonty logn tokens banks request.ok st
  | .verifyCompressedBenchmarkBatch hNttMonty logn tokens sigStride banks =>
      oofalconGpuVerifyCompressedBenchmarkBatch hNttMonty logn tokens sigStride banks request.ok st
  | .resetDevice => oofalconGpuResetDevice request.ok st

def runRequests (requests : List Request) (st : GpuState) : GpuState :=
  requests.foldl (fun st request => (request.perform st).state) st

@[simp] theorem runRequests_append (requests : List Request) (request : Request) (st : GpuState) :
    runRequests (requests ++ [request]) st = (request.perform (runRequests requests st)).state := by
  rw [runRequests, List.foldl_append]
  rfl

end Soko.Gpu
