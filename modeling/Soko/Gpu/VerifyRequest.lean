import Mathlib
import Soko.Gpu.PresignRequest
import Soko.Gpu.VerifyCompressed
import Soko.Library.Loops

/-!
Successful calls of the two verification functions, from the globals of the host to the bank of
verdicts that they copy back. While all verifications have the same key, the kernels run with
this key (`OneKey.verifies`).
-/

namespace Soko.Gpu

open Soko.Library Soko.Shake Soko.Signature

/-- What the kernels of the verification need for a key. -/
structure Launch.Verifies (launch : Launch) (hNttMonty : Key) (logn : ℕ) : Prop where
  degree : launch.logn = logn
  key : Filled launch.deviceKey hNttMonty (2 ^ logn)
  gmb : Filled launch.gmb Gpu.gmb 1024
  igmb : Filled launch.igmb Gpu.igmb 1024
  nInv : launch.nInv = Gpu.nInv logn

theorem Launch.Verifies.words {launch : Launch} {hNttMonty : Key} {logn : ℕ}
    (h : launch.Verifies hNttMonty logn) (hlogn : logn ≤ 10) :
    (∀ j < 2 ^ logn, deviceWords launch.deviceKey j = hNttMonty j) ∧
      (∀ i < 2 ^ logn, deviceWords launch.gmb i = Gpu.gmb i) ∧
      ∀ i < 2 ^ logn, deviceWords launch.igmb i = Gpu.igmb i := by
  have hle := two_pow_le_1024 hlogn
  exact ⟨fun j hj => h.key.deviceWords hj, fun i hi => h.gmb.deviceWords (by omega),
    fun i hi => h.igmb.deviceWords (by omega)⟩

/-- Calls for one degree, in which all verifications have the same key and nothing fails. -/
structure OneKey (hNttMonty : Key) (logn : ℕ) (requests : List Request) : Prop where
  cuda : ∀ r ∈ requests, r.ok.CudaSucceeds
  degree : ∀ r ∈ requests, r.call.HasDegree logn
  key : ∀ r ∈ requests, ∀ key, r.call.verificationKey = some key → key = hNttMonty

section Requests

variable {hNttMonty : Key} {logn : ℕ} {requests : List Request} {request : Request}

theorem OneKey.of_append (h : OneKey hNttMonty logn (requests ++ [request])) :
    OneKey hNttMonty logn requests where
  cuda r hr := h.cuda r (by simp [hr])
  degree r hr := h.degree r (by simp [hr])
  key r hr := h.key r (by simp [hr])

theorem degree_of_verification {key : Key} (hkey : request.call.verificationKey = some key)
    (hdegree : request.call.HasDegree logn) :
    request.call ≠ .resetDevice ∧ request.call.logn = logn ∧
      request.call.keyBuffer = some .hVerify := by
  obtain ⟨call, ok⟩ := request
  cases call with
  | generatePresignBank | resetDevice => contradiction
  | verifyRawBatch => exact ⟨by simp, hdegree, rfl⟩
  | verifyCompressedBenchmarkBatch => exact ⟨by simp, hdegree, rfl⟩

/-- A verification after other calls runs with the key. -/
theorem OneKey.verifies (h : OneKey hNttMonty logn (requests ++ [request]))
    (hkey : request.call.verificationKey = some hNttMonty) {launch : Launch}
    (hlaunch : (request.perform (runRequests requests .initial)).launch = some launch) :
    1 ≤ logn ∧ launch.Verifies hNttMonty logn := by
  have hcuda := h.cuda request (by simp)
  have hdegree := h.degree request (by simp)
  obtain ⟨hcall, hlognCall, hbufferCall⟩ := degree_of_verification hkey hdegree
  have hvalid := runRequests_tableCache_valid requests h.of_append.cuda
  have hgets : request.GetsToKey (runRequests requests .initial) := by
    by_contra hstop
    rw [(perform_stopped hcall hvalid hstop).1] at hlaunch
    contradiction
  have hlogn : 1 ≤ logn := hlognCall ▸ one_le_logn hgets.1
  obtain ⟨st', hprepared, -, hstate, hread⟩ := perform_getsToKey hvalid hgets
  obtain ⟨-, buffer, hbuffer, hglobals⟩ := hread launch hlaunch
  rw [hlognCall] at hprepared hglobals
  obtain rfl : buffer = .hVerify := Option.some.inj (hbuffer.symm.trans hbufferCall)
  have htables : (request.perform (runRequests requests .initial)).state.tableCache =
      st'.tableCache := by
    rw [hstate, ensureKey_tableCache]
  obtain ⟨hgmb, higmb⟩ := hprepared.filled hvalid fun _ =>
    ⟨hcuda .copyGmb rfl, hcuda .copyIgmb rfl, .inr (hcuda .mallocGmb rfl),
      .inr (hcuda .mallocIgmb rfl)⟩
  refine ⟨hlogn, by rw [hglobals]; rfl, ?_, ?_, ?_, ?_⟩
  · -- the buffer holds a key of some verification, and there is only one
    obtain ⟨-, device, cached, -, hdevice, hmem, -, hholds⟩ := perform_launch hcuda hlogn hdegree
      (runRequests_valid hlogn requests h.of_append.cuda h.of_append.degree) hkey hlaunch
    rw [← keysSinceReset_append] at hmem
    obtain ⟨r, hr, hcached⟩ := exists_request_of_mem _ hmem
    obtain rfl := h.key r hr cached hcached
    exact ⟨device, hdevice, hholds⟩
  · rw [hglobals]
    show Filled (request.perform _).state.tableCache.gmb _ _
    rw [htables]
    exact hgmb
  · rw [hglobals]
    show Filled (request.perform _).state.tableCache.igmb _ _
    rw [htables]
    exact higmb
  · rw [hglobals]
    exact (congrArg (fun cache => cache.host.nInv) htables).trans hprepared.nInv

end Requests

/-- The blocks of a launch in the order of their stores, with the orders of their threads and
their shared memory. -/
structure VerifyBlocks (n tokens : ℕ) (σ : Type) where
  order : List ℕ
  perm : order.Perm (List.range tokens)
  schedules : ℕ → VerifySchedules (2 ^ 8) n
  states : ℕ → σ

section Launches

variable (launch : Launch) {tokens : ℕ}

/-- The bank of verdicts after a launch of `kernel_verify_raw_batch`. -/
def Launch.verifyRawGrid (hmBank : ℤ → UInt16) (s2Bank : ℤ → Int16)
    (blocks : VerifyBlocks (2 ^ launch.logn) tokens VerifyState) (resultBank : ℕ → UInt8) :
    ℕ → UInt8 :=
  runTasks (fun token => kernelVerifyRawBatch (deviceWords launch.deviceKey)
    (deviceWords launch.gmb) (deviceWords launch.igmb) launch.nInv launch.logn tokens hmBank s2Bank
    token (blocks.schedules token) (blocks.states token)) blocks.order resultBank

/-- The bank of verdicts after a launch of `kernel_verify_compressed_bench_batch`, unless the
fuel of a hash runs out. -/
def Launch.verifyCompressedGrid (fuel : ℕ) (sigBank : ℕ → UInt8) (sigStride : ℕ) (sigLens : ℕ → ℕ)
    (blocks : VerifyBlocks (2 ^ launch.logn) tokens CompressedState) (resultBank : ℕ → UInt8) :
    Option (ℕ → UInt8) :=
  blocks.order.foldlM (fun resultBank token =>
    kernelVerifyCompressedBenchBatch fuel (deviceWords launch.deviceKey) (deviceWords launch.gmb)
      (deviceWords launch.igmb) launch.nInv launch.logn tokens sigBank sigStride sigLens token
      (blocks.schedules token) (blocks.states token) resultBank) resultBank

end Launches

section Congr

/-! The kernels only read the first entries of the key and of the tables. -/

variable {blockDim logn : ℕ} {hNttMonty hNttMonty' gmb gmb' igmb igmb' : ℕ → UInt16}
  (hdim : 0 < blockDim) (hkey : ∀ j < 2 ^ logn, hNttMonty j = hNttMonty' j)
  (hgmb : ∀ i < 2 ^ logn, gmb i = gmb' i) (higmb : ∀ i < 2 ^ logn, igmb i = igmb' i)
include hdim hkey hgmb higmb

theorem verifyVerdict_table (nInv : UInt32) (schedules : VerifySchedules blockDim (2 ^ logn))
    (s2 : ℕ → Int16) (s : VerifyState) :
    verifyVerdict hNttMonty gmb igmb nInv logn schedules s2 s =
      verifyVerdict hNttMonty' gmb' igmb' nInv logn schedules s2 s := by
  simp only [verifyVerdict,
    kernelProduct_table hdim hgmb higmb fun j hj => congrArg UInt16.toUInt32 (hkey j hj)]

theorem kernelVerifyRawBatch_table (nInv : UInt32) (tokens : ℕ) (hmBank : ℤ → UInt16)
    (s2Bank : ℤ → Int16) (token : ℕ) (schedules : VerifySchedules blockDim (2 ^ logn))
    (s : VerifyState) (resultBank : ℕ → UInt8) :
    kernelVerifyRawBatch hNttMonty gmb igmb nInv logn tokens hmBank s2Bank token schedules s
        resultBank =
      kernelVerifyRawBatch hNttMonty' gmb' igmb' nInv logn tokens hmBank s2Bank token schedules s
        resultBank := by
  simp only [kernelVerifyRawBatch, verifyVerdict_table hdim hkey hgmb higmb]

theorem kernelVerifyCompressedBenchBatch_table (fuel : ℕ) (nInv : UInt32) (tokens : ℕ)
    (sigBank : ℕ → UInt8) (sigStride : ℕ) (sigLens : ℕ → ℕ) (token : ℕ)
    (schedules : VerifySchedules blockDim (2 ^ logn)) (s : CompressedState)
    (resultBank : ℕ → UInt8) :
    kernelVerifyCompressedBenchBatch fuel hNttMonty gmb igmb nInv logn tokens sigBank sigStride
        sigLens token schedules s resultBank =
      kernelVerifyCompressedBenchBatch fuel hNttMonty' gmb' igmb' nInv logn tokens sigBank
        sigStride sigLens token schedules s resultBank := by
  simp only [kernelVerifyCompressedBenchBatch, verifyVerdict_table hdim hkey hgmb higmb]

end Congr

section Grids

variable {blockDim n tokens token : ℕ} (htoken : token < tokens)
include htoken

/-- A block stores the verdict of its token and nothing else. -/
theorem kernelVerifyRawBatch_eq_update (hNttMonty gmb igmb : ℕ → UInt16) (nInv : UInt32) (logn : ℕ)
    (hmBank : ℤ → UInt16) (s2Bank : ℤ → Int16) (schedules : VerifySchedules blockDim n)
    (s : VerifyState) (bank resultBank : ℕ → UInt8) :
    kernelVerifyRawBatch hNttMonty gmb igmb nInv logn tokens hmBank s2Bank token schedules s
        resultBank =
      Function.update resultBank token (kernelVerifyRawBatch hNttMonty gmb igmb nInv logn tokens
        hmBank s2Bank token schedules s bank token) := by
  rw [kernelVerifyRawBatch, kernelVerifyRawBatch, if_neg (by omega), if_neg (by omega),
    Function.update_self]

theorem kernelVerifyCompressedBenchBatch_eq_update (fuel : ℕ) (hNttMonty gmb igmb : ℕ → UInt16)
    (nInv : UInt32) (logn : ℕ) (sigBank : ℕ → UInt8) (sigStride : ℕ) (sigLens : ℕ → ℕ)
    (schedules : VerifySchedules blockDim n) (s : CompressedState) (bank resultBank : ℕ → UInt8) :
    kernelVerifyCompressedBenchBatch fuel hNttMonty gmb igmb nInv logn tokens sigBank sigStride
        sigLens token schedules s resultBank =
      ((kernelVerifyCompressedBenchBatch fuel hNttMonty gmb igmb nInv logn tokens sigBank sigStride
        sigLens token schedules s bank).map fun bank => bank token).map
          (Function.update resultBank token) := by
  rw [kernelVerifyCompressedBenchBatch, kernelVerifyCompressedBenchBatch, if_neg (by omega),
    if_neg (by omega)]
  dsimp only
  cases parseSignature logn (tokenSignature sigBank sigStride sigLens token) with
  | error stop => simp
  | ok s2 => simp [Function.comp_def]

variable {logn : ℕ} {launch : Launch} {hNttMonty : Key} (hfor : launch.Verifies hNttMonty logn)
  (hlogn : logn ≤ 10) {σ : Type}
include hfor hlogn

/-- After a launch the verdict of a token is that of a block with the key. -/
theorem verifyRawGrid_apply (hmBank : ℤ → UInt16) (s2Bank : ℤ → Int16)
    (blocks : VerifyBlocks (2 ^ launch.logn) tokens VerifyState) (resultBank : ℕ → UInt8) :
    ∃ (schedules : VerifySchedules (2 ^ 8) (2 ^ logn)) (s : VerifyState),
      launch.verifyRawGrid hmBank s2Bank blocks resultBank token =
        kernelVerifyRawBatch hNttMonty gmb igmb (nInv logn) logn tokens hmBank s2Bank token
          schedules s resultBank token := by
  obtain ⟨hkey, hgmb, higmb⟩ := hfor.words hlogn
  obtain ⟨rfl, -, -, -, hnInv⟩ := hfor
  have hmem : ∀ t, t ∈ blocks.order ↔ t < tokens := fun t => by
    rw [blocks.perm.mem_iff, List.mem_range]
  refine ⟨blocks.schedules token, blocks.states token, ?_⟩
  have hblocks : launch.verifyRawGrid hmBank s2Bank blocks resultBank =
      runTasks (scatterTask id fun t => kernelVerifyRawBatch hNttMonty gmb igmb (nInv launch.logn)
        launch.logn tokens hmBank s2Bank t (blocks.schedules t) (blocks.states t) resultBank t)
        blocks.order resultBank := by
    refine List.foldl_ext _ _ _ fun bank t ht => ?_
    rw [hnInv]
    exact (kernelVerifyRawBatch_table (by norm_num) hkey hgmb higmb _ _ _ _ _ _ _ _).trans
      (kernelVerifyRawBatch_eq_update ((hmem t).mp ht) _ _ _ _ _ _ _ _ _ _ _)
  rw [hblocks]
  exact runTasks_scatterTask id _ (blocks.perm.nodup_iff.mpr List.nodup_range)
    Function.injective_id.injOn _ ((hmem token).mpr htoken)

theorem verifyCompressedGrid_apply {fuel : ℕ} {sigBank : ℕ → UInt8} {sigStride : ℕ}
    {sigLens : ℕ → ℕ} {blocks : VerifyBlocks (2 ^ launch.logn) tokens CompressedState}
    {resultBank result : ℕ → UInt8}
    (hresult : launch.verifyCompressedGrid fuel sigBank sigStride sigLens blocks resultBank =
      some result) :
    ∃ (schedules : VerifySchedules (2 ^ 8) (2 ^ logn)) (s : CompressedState),
      (kernelVerifyCompressedBenchBatch fuel hNttMonty gmb igmb (nInv logn) logn tokens sigBank
        sigStride sigLens token schedules s resultBank).map (fun bank => bank token) =
          some (result token) := by
  obtain ⟨hkey, hgmb, higmb⟩ := hfor.words hlogn
  obtain ⟨rfl, -, -, -, hnInv⟩ := hfor
  have hmem : ∀ t, t ∈ blocks.order ↔ t < tokens := fun t => by
    rw [blocks.perm.mem_iff, List.mem_range]
  refine ⟨blocks.schedules token, blocks.states token, ?_⟩
  have hblocks : ∀ order ⊆ blocks.order, ∀ bank,
      order.foldlM (fun bank t => kernelVerifyCompressedBenchBatch fuel
        (deviceWords launch.deviceKey) (deviceWords launch.gmb) (deviceWords launch.igmb)
        launch.nInv launch.logn tokens sigBank sigStride sigLens t (blocks.schedules t)
        (blocks.states t) bank) bank =
      rewriteLoop (fun t _ => (kernelVerifyCompressedBenchBatch fuel hNttMonty gmb igmb
        (nInv launch.logn) launch.logn tokens sigBank sigStride sigLens t (blocks.schedules t)
        (blocks.states t) resultBank).map fun bank => bank t) order bank := by
    intro order horder
    induction order with
    | nil => exact fun _ => rfl
    | cons t order ih =>
        intro bank
        have hblock := (kernelVerifyCompressedBenchBatch_table (by norm_num) hkey hgmb higmb fuel
          (nInv launch.logn) tokens sigBank sigStride sigLens t (blocks.schedules t)
          (blocks.states t) bank).trans (kernelVerifyCompressedBenchBatch_eq_update
            ((hmem t).mp (horder List.mem_cons_self)) _ _ _ _ _ _ _ _ _ _ _ resultBank bank)
        rw [List.foldlM_cons, rewriteLoop_cons, hnInv, hblock]
        refine congrArg (Option.bind _) (funext fun bank => ?_)
        rw [← ih (List.subset_of_cons_subset horder), hnInv]
  rw [Launch.verifyCompressedGrid, hblocks blocks.order (List.Subset.refl _)] at hresult
  exact (rewriteLoop_apply (blocks.perm.nodup_iff.mpr List.nodup_range) hresult).1 token
    ((hmem token).mpr htoken)

end Grids

def Stored {α : Type} [Zero α] (bank : ℤ → α) (n : ℕ) (entries : List (List α)) : Prop :=
  ∀ i < entries.length, ∀ j < n, bank (i * n + j) = (entries.getD i []).getD j 0

theorem Stored.holds {α : Type} [Zero α] {bank : ℤ → α} {n : ℕ} {entries : List (List α)}
    (h : Stored bank n entries) (hsize : entries.length * n ≤ 2 ^ 31) {i : ℕ}
    (hi : i < entries.length) : Holds bank i n (entries.getD i []) := by
  intro j hj
  have hplace := place_lt hi hj
  rw [(bankIndex_eq_iff i n j).mpr (by omega), h i hi j hj]

/-- Verdicts that a successful call of `oofalcon_gpu_verify_raw_batch` copies back, after any
calls with the same key. -/
inductive RawVerified (hNttMonty : Key) (logn : ℕ) (entries : List (List UInt16 × List Int16)) :
    (ℕ → UInt8) → Prop
  | intro {requests : List Request} {request : Request} {launch : Launch} {hmBank : ℤ → UInt16}
      {s2Bank : ℤ → Int16} (hsame : OneKey hNttMonty logn (requests ++ [request]))
      (hcall : request.call = .verifyRawBatch (some hNttMonty) logn entries.length true)
      (hcode : (request.perform (runRequests requests .initial)).code = 0)
      (hlaunch : (request.perform (runRequests requests .initial)).launch = some launch)
      (hhm : Stored hmBank (2 ^ logn) (entries.map Prod.fst))
      (hs2 : Stored s2Bank (2 ^ logn) (entries.map Prod.snd))
      (blocks : VerifyBlocks (2 ^ launch.logn) entries.length VerifyState)
      (resultBank : ℕ → UInt8) :
      RawVerified hNttMonty logn entries (launch.verifyRawGrid hmBank s2Bank blocks resultBank)

/-- Verdicts that a successful call of `oofalcon_gpu_verify_compressed_benchmark_batch` copies
back. -/
inductive CompressedVerified (hNttMonty : Key) (logn : ℕ) (sigs : List (List UInt8)) :
    (ℕ → UInt8) → Prop
  | intro {requests : List Request} {request : Request} {launch : Launch} {fuel : ℕ}
      {sigBank : ℕ → UInt8} {sigStride : ℕ} {sigLens : ℕ → ℕ} {resultBank result : ℕ → UInt8}
      (hsame : OneKey hNttMonty logn (requests ++ [request]))
      (hcall : request.call =
        .verifyCompressedBenchmarkBatch (some hNttMonty) logn sigs.length sigStride true)
      (hcode : (request.perform (runRequests requests .initial)).code = 0)
      (hlaunch : (request.perform (runRequests requests .initial)).launch = some launch)
      (hsigs : ∀ token < sigs.length,
        tokenSignature sigBank sigStride sigLens token = sigs.getD token [])
      (blocks : VerifyBlocks (2 ^ launch.logn) sigs.length CompressedState)
      (hresult : launch.verifyCompressedGrid fuel sigBank sigStride sigLens blocks resultBank =
        some result) :
      CompressedVerified hNttMonty logn sigs result

/-- The verdict on prepared inputs: that of a block with these inputs in its slot. -/
theorem RawVerified.verdict {hNttMonty : Key} {logn : ℕ}
    {entries : List (List UInt16 × List Int16)} {result : ℕ → UInt8}
    (h : RawVerified hNttMonty logn entries result) (hlogn : logn ≤ 10)
    (hsize : entries.length * 2 ^ logn ≤ 2 ^ 31) {i : ℕ} (hi : i < entries.length) :
    ∃ (hmBank : ℤ → UInt16) (s2Bank : ℤ → Int16) (schedules : VerifySchedules (2 ^ 8) (2 ^ logn))
        (s : VerifyState) (resultBank : ℕ → UInt8),
      Holds hmBank i (2 ^ logn) entries[i].1 ∧ Holds s2Bank i (2 ^ logn) entries[i].2 ∧
        result i = kernelVerifyRawBatch hNttMonty gmb igmb (nInv logn) logn entries.length hmBank
          s2Bank i schedules s resultBank i := by
  obtain ⟨hsame, hcall, -, hlaunch, hhm, hs2, blocks, resultBank⟩ := h
  obtain ⟨-, hfor⟩ := hsame.verifies (by rw [hcall]; rfl) hlaunch
  obtain ⟨schedules, s, hverdict⟩ := verifyRawGrid_apply hi hfor hlogn _ _ blocks resultBank
  refine ⟨_, _, schedules, s, resultBank, ?_, ?_, hverdict⟩
  · have hholds := hhm.holds (by rwa [List.length_map]) (i := i) (by rwa [List.length_map])
    rwa [List.getD_eq_getElem _ _ (by rwa [List.length_map]), List.getElem_map] at hholds
  · have hholds := hs2.holds (by rwa [List.length_map]) (i := i) (by rwa [List.length_map])
    rwa [List.getD_eq_getElem _ _ (by rwa [List.length_map]), List.getElem_map] at hholds

/-- The verdict on a signature: that of a block with this signature for its token. -/
theorem CompressedVerified.verdict {hNttMonty : Key} {logn : ℕ} {sigs : List (List UInt8)}
    {result : ℕ → UInt8} (h : CompressedVerified hNttMonty logn sigs result) (hlogn : logn ≤ 10)
    {token : ℕ} (htoken : token < sigs.length) :
    ∃ (fuel : ℕ) (sigBank : ℕ → UInt8) (sigStride : ℕ) (sigLens : ℕ → ℕ)
        (schedules : VerifySchedules (2 ^ 8) (2 ^ logn)) (s : CompressedState)
        (resultBank : ℕ → UInt8),
      tokenSignature sigBank sigStride sigLens token = sigs[token] ∧
        (kernelVerifyCompressedBenchBatch fuel hNttMonty gmb igmb (nInv logn) logn sigs.length
          sigBank sigStride sigLens token schedules s resultBank).map (fun bank => bank token) =
            some (result token) := by
  obtain ⟨hsame, hcall, -, hlaunch, hsigs, blocks, hresult⟩ := h
  obtain ⟨-, hfor⟩ := hsame.verifies (by rw [hcall]; rfl) hlaunch
  obtain ⟨schedules, s, hverdict⟩ := verifyCompressedGrid_apply htoken hfor hlogn hresult
  exact ⟨_, _, _, _, schedules, s, _,
    (hsigs token htoken).trans (List.getD_eq_getElem _ _ htoken), hverdict⟩

/-! A first call, in which nothing fails and the blocks run one after another. -/

def bankOf {α : Type} [Zero α] (n : ℕ) (entries : List (List α)) (i : ℤ) : α :=
  (entries.getD (i.toNat / n) []).getD (i.toNat % n) 0

theorem stored_bankOf {α : Type} [Zero α] (n : ℕ) (entries : List (List α)) :
    Stored (bankOf n entries) n entries := by
  intro i _ j hj
  have hplace : ((i : ℤ) * n + j).toNat = j + n * i := by
    rw [mul_comm, add_comm]
    exact Int.toNat_natCast (j + n * i)
  rw [bankOf, hplace, Nat.add_mul_div_left j i (by omega), Nat.div_eq_of_lt hj, Nat.zero_add,
    Nat.add_mul_mod_self_left, Nat.mod_eq_of_lt hj]

def VerifyBlocks.inTurn (n tokens : ℕ) {σ : Type} (state : σ) : VerifyBlocks n tokens σ where
  order := List.range tokens
  perm := .refl _
  schedules _ := .sequential (2 ^ 8) n
  states _ := state

def Call.succeeding (call : Call) : Request := ⟨call, fun _ => true⟩

theorem oneKey_succeeding {call : Call} {hNttMonty : Key} {logn : ℕ} (hdegree : call.HasDegree logn)
    (hkey : call.verificationKey = some hNttMonty) :
    OneKey hNttMonty logn ([] ++ [call.succeeding]) := by
  have hone : ∀ r ∈ [] ++ [call.succeeding], r = call.succeeding := by simp
  refine ⟨fun r hr => ?_, fun r hr => ?_, fun r hr key hsome => ?_⟩ <;> obtain rfl := hone r hr
  · exact fun _ _ => rfl
  · exact hdegree
  · exact Option.some.inj (hsome.symm.trans hkey)

@[simp] theorem firstFailure_succeeding (sites : List (Site × ℕ)) :
    firstFailure (fun _ => true) sites = 0 := by
  induction sites with
  | nil => rfl
  | cons site sites ih => exact ih

theorem runBatch_succeeding (errors : BatchErrors) {pointers sizes : Bool} (hpointers : pointers)
    (hsizes : sizes) (logn : ℕ) {ensureKey : GpuState → GpuState × Bool}
    (hkey : ∀ st, (ensureKey st).2 = true) (deviceKey : GpuState → Option DeviceBuffer) :
    let response :=
      runBatch errors (fun _ => true) pointers sizes logn ensureKey deviceKey .initial
    response.code = 0 ∧ response.launch.isSome := by
  subst hpointers hsizes
  have hready : (setupBatch (fun _ => true) logn ensureKey .initial).2 = true := hkey _
  simp [runBatch, hready]

theorem ensureHVerify_succeeds (ok : Outcomes) (hNttMonty : Key) (logn : ℕ) (st : GpuState) :
    (ensureHVerify ok hNttMonty logn st).2 = true := by
  unfold ensureHVerify
  dsimp only
  split_ifs <;> rfl

section First

variable (hNttMonty : Key) (logn : ℕ)

/-- A first call of `oofalcon_gpu_verify_raw_batch`. -/
def firstRawBatch (entries : List (List UInt16 × List Int16)) : Option (ℕ → UInt8) :=
  ((Call.verifyRawBatch (some hNttMonty) logn entries.length true).succeeding.perform
    .initial).launch.map fun launch =>
      launch.verifyRawGrid (bankOf (2 ^ logn) (entries.map Prod.fst))
        (bankOf (2 ^ logn) (entries.map Prod.snd)) (.inTurn _ entries.length blankVerifyState)
        fun _ => 0

/-- A first call of `oofalcon_gpu_verify_compressed_benchmark_batch`. -/
def firstCompressedBatch (fuel : ℕ) (sigs : List (List UInt8)) : Option (ℕ → UInt8) :=
  let stride := (sigs.map List.length).sum + 1
  ((Call.verifyCompressedBenchmarkBatch (some hNttMonty) logn sigs.length stride
    true).succeeding.perform .initial).launch.bind fun launch =>
      launch.verifyCompressedGrid fuel (fun i => bankOf stride sigs i) stride
        (fun token => (sigs.getD token []).length) (.inTurn _ sigs.length blankCompressedState)
        fun _ => 0

variable {hNttMonty logn} {entries : List (List UInt16 × List Int16)} {sigs : List (List UInt8)}
  {fuel : ℕ} {result : ℕ → UInt8}

@[simp] theorem validSizes_iff {tokens : ℤ} :
    validSizes logn tokens = true ↔ 1 ≤ logn ∧ logn ≤ 10 ∧ 0 < tokens := decide_eq_true_iff

theorem firstRawBatch_isSome (hlogn : 1 ≤ logn ∧ logn ≤ 10) (hentries : 0 < entries.length) :
    (firstRawBatch hNttMonty logn entries).isSome := by
  rw [firstRawBatch, Option.isSome_map]
  have htokens : (0 : ℤ) < entries.length := by exact_mod_cast hentries
  have hsizes := validSizes_iff.mpr ⟨hlogn.1, hlogn.2, htokens⟩
  exact (runBatch_succeeding _ rfl hsizes logn (ensureHVerify_succeeds _ _ _) _).2

theorem rawVerified_first (hresult : firstRawBatch hNttMonty logn entries = some result) :
    RawVerified hNttMonty logn entries result := by
  obtain ⟨launch, hlaunch, rfl⟩ := Option.map_eq_some_iff.mp hresult
  obtain ⟨hpointers, hsizes, -⟩ := of_runBatch_launch hlaunch
  have hsame : OneKey hNttMonty logn
      ([] ++ [(Call.verifyRawBatch (some hNttMonty) logn entries.length true).succeeding]) :=
    oneKey_succeeding rfl rfl
  exact .intro hsame rfl
    (runBatch_succeeding _ hpointers hsizes logn (ensureHVerify_succeeds _ _ _) _).1 hlaunch
    (stored_bankOf _ _) (stored_bankOf _ _) _ _

theorem tokenSignature_bankOf {token : ℕ} (htoken : token < sigs.length) :
    let stride := (sigs.map List.length).sum + 1
    tokenSignature (fun i => bankOf stride sigs i) stride (fun token => (sigs.getD token []).length)
      token = sigs.getD token [] := by
  intro stride
  have hlength : (sigs.getD token []).length < stride := by
    rw [List.getD_eq_getElem _ _ htoken]
    exact Nat.lt_succ_of_le (List.single_le_sum (fun _ _ => Nat.zero_le _) _
      (List.mem_map_of_mem (List.getElem_mem htoken)))
  refine List.ext_getElem (by rw [tokenSignature, List.length_map, List.length_range]) ?_
  intro i _ hi
  have hentry := stored_bankOf stride sigs token htoken i (by omega)
  rw [List.getD_eq_getElem _ _ hi] at hentry
  simp only [tokenSignature, List.getElem_map, List.getElem_range]
  exact_mod_cast hentry

theorem firstCompressedBatch_isSome (hlogn : 1 ≤ logn ∧ logn ≤ 10) (hsigs : 0 < sigs.length)
    (hreturns : ∀ token < sigs.length, ∀ s2, parseSignature logn (sigs.getD token []) = .ok s2 →
      (hashToPointVartimeBenchDevice fuel token (fun i => (sigs.getD token []).getD (1 + i) 0)
        logn).isSome) :
    (firstCompressedBatch hNttMonty logn fuel sigs).isSome := by
  have hsizes : (validSizes logn sigs.length &&
      decide ((sigs.map List.length).sum + 1 ≠ 0)) = true :=
    Bool.and_eq_true_iff.mpr ⟨validSizes_iff.mpr ⟨hlogn.1, hlogn.2, by exact_mod_cast hsigs⟩,
      decide_eq_true (Nat.succ_ne_zero _)⟩
  obtain ⟨launch, hlaunch⟩ : ∃ launch, ((Call.verifyCompressedBenchmarkBatch (some hNttMonty) logn
      sigs.length ((sigs.map List.length).sum + 1) true).succeeding.perform .initial).launch =
        some launch :=
    Option.isSome_iff_exists.mp
      (runBatch_succeeding _ rfl hsizes logn (ensureHVerify_succeeds _ hNttMonty _) _).2
  obtain ⟨-, -, -, hdegree, -⟩ := of_runBatch_launch hlaunch
  rw [firstCompressedBatch, hlaunch]
  refine isSome_foldlM (fun token htoken resultBank => ?_) _
  have htoken : token < sigs.length := List.mem_range.mp htoken
  rw [kernelVerifyCompressedBenchBatch, if_neg (by omega)]
  dsimp only
  rw [tokenSignature_bankOf htoken, hdegree]
  cases hparse : parseSignature logn (sigs.getD token []) with
  | error stop => rfl
  | ok s2 =>
      rw [Option.isSome_map]
      exact hreturns token htoken s2 hparse

theorem compressedVerified_first
    (hresult : firstCompressedBatch hNttMonty logn fuel sigs = some result) :
    CompressedVerified hNttMonty logn sigs result := by
  obtain ⟨launch, hlaunch, hgrid⟩ := Option.bind_eq_some_iff.mp hresult
  obtain ⟨hpointers, hsizes, -⟩ := of_runBatch_launch hlaunch
  have hsame : OneKey hNttMonty logn ([] ++ [(Call.verifyCompressedBenchmarkBatch (some hNttMonty)
      logn sigs.length ((sigs.map List.length).sum + 1) true).succeeding]) :=
    oneKey_succeeding rfl rfl
  exact .intro hsame rfl
    (runBatch_succeeding _ hpointers hsizes logn (ensureHVerify_succeeds _ _ _) _).1 hlaunch
    (fun _ htoken => tokenSignature_bankOf htoken) _ hgrid

end First

end Soko.Gpu
