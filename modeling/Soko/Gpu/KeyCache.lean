import Soko.Gpu.Host

/-!
The cache of the verification key. `g_d_h_verify` holds a key that a verification call
has passed since the last reset, and the stored hash is the hash of that key. The
upload is skipped for every key with the stored hash, so that another key is used for
it if two keys collide.
-/

namespace Soko.Gpu

def DeviceBuffer.HoldsKey (buffer : DeviceBuffer) (key : Key) (n : ℕ) : Prop :=
  ∀ j < n, buffer.words j = some (key j)

def Call.verificationKey : Call → Option Key
  | .verifyRawBatch hNttMonty _ _ _ => hNttMonty
  | .verifyCompressedBenchmarkBatch hNttMonty _ _ _ _ => hNttMonty
  | _ => none

def Call.HasDegree (logn : ℕ) : Call → Prop
  | .generatePresignBank _ logn' _ _ => logn' = logn
  | .verifyRawBatch _ logn' _ _ => logn' = logn
  | .verifyCompressedBenchmarkBatch _ logn' _ _ _ => logn' = logn
  | .resetDevice => True

/-- The verification keys since the last reset, after one more call. -/
def Call.notedKeys (keys : List Key) : Call → List Key
  | .resetDevice => []
  | call => call.verificationKey.toList ++ keys

/-- The keys that verification calls have passed since the last reset. -/
def keysSinceReset (requests : List Request) : List Key :=
  requests.foldl (fun keys request => request.call.notedKeys keys) []

@[simp] theorem keysSinceReset_append (requests : List Request) (request : Request) :
    keysSinceReset (requests ++ [request]) =
      request.call.notedKeys (keysSinceReset requests) := by
  rw [keysSinceReset, List.foldl_append]
  rfl

/-- The globals of `ensure_h_verify`. -/
structure VerifyCache where
  buffer : Option DeviceBuffer
  hash : UInt64
  logn : ℕ

def GpuState.verifyCache (st : GpuState) : VerifyCache where
  buffer := st.dHVerify
  hash := st.hVerifyHash
  logn := st.cachedVerifyLogn

/-- Either nothing has been uploaded since the last reset, or the buffer holds one of
the keys, and the hash stored is that of this key. -/
def VerifyCache.Valid (cache : VerifyCache) (logn : ℕ) (keys : List Key) : Prop :=
  match cache.buffer with
  | none => cache.logn = 0
  | some buffer => cache.logn = logn ∧
      ∃ key ∈ keys, buffer.HoldsKey key (2 ^ logn) ∧ cache.hash = hashHCoeffs key (2 ^ logn)

theorem VerifyCache.Valid.mono {cache : VerifyCache} {logn : ℕ} {keys keys' : List Key}
    (hvalid : cache.Valid logn keys) (hsub : keys ⊆ keys') : cache.Valid logn keys' := by
  unfold Valid at hvalid ⊢
  cases hbuffer : cache.buffer with
  | none =>
      rw [hbuffer] at hvalid
      exact hvalid
  | some buffer =>
      rw [hbuffer] at hvalid
      obtain ⟨hlogn, key, hkey, hholds, hhash⟩ := hvalid
      exact ⟨hlogn, key, hsub hkey, hholds, hhash⟩

/-! The other functions leave the cache alone. -/

section Frame

variable (ok : Outcomes) (logn : ℕ) (st : GpuState)

@[simp] theorem createHandles_verifyCache :
    (createHandles ok st).1.verifyCache = st.verifyCache := by
  obtain ⟨stream, kernelDone, hhandles⟩ := createHandles_state ok st
  rw [hhandles]
  rfl

theorem andThen_verifyCache {before : GpuState × Bool} {next : GpuState → GpuState × Bool}
    (hnext : ∀ st, (next st).1.verifyCache = st.verifyCache) :
    (andThen before next).1.verifyCache = before.1.verifyCache := by
  unfold andThen
  split
  · exact hnext before.1
  · rfl

@[simp] theorem ensureNttTables_verifyCache :
    (ensureNttTables ok logn st).1.verifyCache = st.verifyCache := by
  unfold ensureNttTables
  dsimp only
  split <;> rfl

@[simp] theorem ensureDeviceTables_verifyCache :
    (ensureDeviceTables ok logn st).1.verifyCache = st.verifyCache := by
  refine (andThen_verifyCache fun st => ?_).trans (ensureNttTables_verifyCache ok logn st)
  split <;> rfl

theorem ensureHHat_verifyCache (hCoeffs : Key) :
    (ensureHHat ok hCoeffs logn st).1.verifyCache = st.verifyCache := by
  obtain ⟨hash, halloc⟩ := allocHHat_state ok (2 ^ logn) st
  simp only [ensureHHat, halloc]
  split
  · rfl
  · split <;> rfl

end Frame

/-- The key is ensured in a state with the same cache, or not at all. -/
theorem setupBatch_cases (ok : Outcomes) (logn : ℕ) (ensureKey : GpuState → GpuState × Bool)
    (st : GpuState) :
    ((setupBatch ok logn ensureKey st).2 = false ∧
        (setupBatch ok logn ensureKey st).1.verifyCache = st.verifyCache) ∨
      ∃ st', st'.verifyCache = st.verifyCache ∧
        setupBatch ok logn ensureKey st = ensureKey st' := by
  obtain ⟨tables, htables⟩ :
      ∃ tables, tables = andThen (createHandles ok st) (ensureDeviceTables ok logn) := ⟨_, rfl⟩
  have hcache : tables.1.verifyCache = st.verifyCache := by
    rw [htables, andThen_verifyCache (ensureDeviceTables_verifyCache ok logn),
      createHandles_verifyCache]
  rw [setupBatch, ← htables, andThen]
  cases hready : tables.2 with
  | false => exact .inl ⟨by rw [if_neg Bool.false_ne_true, hready],
      by rw [if_neg Bool.false_ne_true, hcache]⟩
  | true => exact .inr ⟨tables.1, hcache, if_pos rfl⟩

/-- After `ensure_h_verify` the buffer holds a key with the hash of the key passed, if no
CUDA call fails. -/
theorem ensureHVerify_spec {ok : Outcomes} (hcuda : ok.CudaSucceeds) {logn : ℕ} (hlogn : 1 ≤ logn)
    {keys : List Key} (key : Key) {st : GpuState} (hvalid : st.verifyCache.Valid logn keys) :
    ∃ buffer, (ensureHVerify ok key logn st).1.dHVerify = some buffer ∧
      (ensureHVerify ok key logn st).1.cachedVerifyLogn = logn ∧
      (ensureHVerify ok key logn st).1.hVerifyHash = hashHCoeffs key (2 ^ logn) ∧
      ∃ cached ∈ key :: keys, buffer.HoldsKey cached (2 ^ logn) ∧
        hashHCoeffs cached (2 ^ logn) = hashHCoeffs key (2 ^ logn) := by
  have hcopied : ∀ buffer : DeviceBuffer, DeviceBuffer.HoldsKey
      { buffer with words := fun i => if i < 2 ^ logn then
        (if ok .copyHVerify then some (key i) else none) else buffer.words i } key (2 ^ logn) := by
    intro buffer j hj
    show (if j < 2 ^ logn then (if ok .copyHVerify then some (key j) else none)
      else buffer.words j) = some (key j)
    rw [if_pos hj, if_pos (hcuda .copyHVerify rfl)]
  have hmalloc : ok .mallocHVerify = true := hcuda .mallocHVerify rfl
  unfold VerifyCache.Valid at hvalid
  cases hbuffer : st.dHVerify with
  | none =>
      -- the stored degree is 0 before the first upload
      have hzero : st.cachedVerifyLogn = 0 := by
        rw [show st.verifyCache.buffer = none from hbuffer] at hvalid
        exact hvalid
      have halloc : allocHVerify ok (2 ^ logn) st =
          { st with
            dHVerify := some { bytes := 2 * 2 ^ logn, words := fun _ => none }
            hVerifyHash := 0 } := by
        rw [allocHVerify, hbuffer, mallocBuffer, if_pos hmalloc]
        rfl
      simp only [ensureHVerify, halloc]
      rw [if_neg (by rintro ⟨-, hsame⟩; omega)]
      exact ⟨_, rfl, rfl, rfl, key, List.mem_cons_self, hcopied _, rfl⟩
  | some buffer =>
      rw [show st.verifyCache.buffer = some buffer from hbuffer] at hvalid
      obtain ⟨hsame, cached, hcached, hholds, hhash⟩ := hvalid
      have halloc : allocHVerify ok (2 ^ logn) st = st := by
        rw [allocHVerify, hbuffer]
        rfl
      simp only [ensureHVerify, halloc]
      by_cases hhit : st.hVerifyHash = hashHCoeffs key (2 ^ logn) ∧ st.cachedVerifyLogn = logn
      · rw [if_pos hhit]
        exact ⟨buffer, hbuffer, hhit.2, hhit.1, cached, List.mem_cons_of_mem key hcached, hholds,
          hhash.symm.trans hhit.1⟩
      · rw [if_neg hhit, hbuffer]
        exact ⟨_, rfl, rfl, rfl, key, List.mem_cons_self, hcopied _, rfl⟩

/-- What a verification call does: if it launches its kernel, the buffer holds a key with
the hash of the key passed, and in any case the cache stays valid. -/
theorem runBatch_verify (errors : BatchErrors) {ok : Outcomes} (hcuda : ok.CudaSucceeds)
    {logn : ℕ} (hlogn : 1 ≤ logn) {keys : List Key} (hNttMonty : Option Key) (banks sizes : Bool)
    {st : GpuState} (hvalid : st.verifyCache.Valid logn keys) :
    let response := runBatch errors ok (hNttMonty.isSome && banks) sizes logn
      (ensureHVerify ok (hNttMonty.getD fun _ => 0) logn) GpuState.dHVerify st
    response.state.verifyCache.Valid logn (hNttMonty.toList ++ keys) ∧
      ∀ launch, response.launch = some launch → ∃ key buffer cached, hNttMonty = some key ∧
        launch.deviceKey = some buffer ∧ cached ∈ hNttMonty.toList ++ keys ∧
        hashHCoeffs cached (2 ^ logn) = hashHCoeffs key (2 ^ logn) ∧
        buffer.HoldsKey cached (2 ^ logn) := by
  intro response
  cases hNttMonty with
  | none =>
      refine ⟨hvalid, fun launch hlaunch => ?_⟩
      exact absurd (of_runBatch_launch hlaunch).1 Bool.false_ne_true
  | some key =>
      have hsub : keys ⊆ (some key).toList ++ keys := List.subset_append_right _ _
      have hstate : response.state = _ := runBatch_state
      rcases setupBatch_cases ok logn (ensureHVerify ok key logn) st with
        ⟨hfail, hcache⟩ | ⟨st', hcache, hsetup⟩
      · refine ⟨?_, fun launch hlaunch => ?_⟩
        · rw [hstate]
          split
          · exact (show (setupBatch ok logn (ensureHVerify ok key logn) st).1.verifyCache.Valid _ _
              by rw [hcache]; exact hvalid.mono hsub)
          · exact hvalid.mono hsub
        · have hready := (of_runBatch_launch hlaunch).2.2.1
          exact absurd (hfail.symm.trans hready) Bool.false_ne_true
      · rw [← hcache] at hvalid
        obtain ⟨buffer, hbuffer, hdegree, hstored, cached, hcached, hholds, hhash⟩ :=
          ensureHVerify_spec hcuda hlogn key hvalid
        refine ⟨?_, fun launch hlaunch => ?_⟩
        · rw [hstate]
          split
          -- the key is set up only if the argument checks pass
          · have hafter : (ensureHVerify ok key logn st').1.verifyCache.Valid logn
                ((some key).toList ++ keys) := by
              unfold VerifyCache.Valid
              rw [show (ensureHVerify ok key logn st').1.verifyCache.buffer = some buffer
                from hbuffer]
              exact ⟨hdegree, cached, hcached, hholds, hstored.trans hhash.symm⟩
            exact (show (setupBatch ok logn (ensureHVerify ok key logn) st).1.verifyCache.Valid _ _
              by rw [hsetup]; exact hafter)
          · rw [hcache] at hvalid
            exact hvalid.mono hsub
        · obtain ⟨-, -, -, -, hdeviceKey⟩ := of_runBatch_launch hlaunch
          refine ⟨key, buffer, cached, rfl, ?_, hcached, hhash, hholds⟩
          rw [hdeviceKey]
          exact (congrArg (fun setup : GpuState × Bool => setup.1.dHVerify) hsetup).trans hbuffer

theorem runBatch_presign_verifyCache (errors : BatchErrors) (ok : Outcomes) (pointers sizes : Bool)
    (logn : ℕ) (hCoeffs : Key) (st : GpuState) :
    (runBatch errors ok pointers sizes logn (ensureHHat ok hCoeffs logn) GpuState.dHHat
      st).state.verifyCache = st.verifyCache := by
  rw [runBatch_state]
  split
  · rcases setupBatch_cases ok logn (ensureHHat ok hCoeffs logn) st with
      ⟨-, hcache⟩ | ⟨st', hcache, hsetup⟩
    · exact hcache
    · rw [hsetup, ensureHHat_verifyCache, hcache]
  · rfl

/-- One request. The keys of its verification call, if it is one, join those known. -/
theorem perform_valid {request : Request} (hcuda : request.ok.CudaSucceeds) {logn : ℕ}
    (hlogn : 1 ≤ logn) (hdegree : request.call.HasDegree logn) {keys : List Key} {st : GpuState}
    (hvalid : st.verifyCache.Valid logn keys) :
    (request.perform st).state.verifyCache.Valid logn (request.call.notedKeys keys) := by
  obtain ⟨call, ok⟩ := request
  cases call with
  | generatePresignBank hCoeffs logn' tokens banks =>
      have hcache : ((Request.mk (.generatePresignBank hCoeffs logn' tokens banks) ok).perform
          st).state.verifyCache = st.verifyCache :=
        runBatch_presign_verifyCache _ ok _ _ logn' (hCoeffs.getD fun _ => 0) st
      rw [hcache]
      exact hvalid
  | verifyRawBatch hNttMonty logn' tokens banks =>
      obtain rfl : logn' = logn := hdegree
      exact (runBatch_verify _ hcuda hlogn hNttMonty banks _ hvalid).1
  | verifyCompressedBenchmarkBatch hNttMonty logn' tokens sigStride banks =>
      obtain rfl : logn' = logn := hdegree
      exact (runBatch_verify _ hcuda hlogn hNttMonty banks _ hvalid).1
  | resetDevice => exact rfl

theorem perform_launch {request : Request} (hcuda : request.ok.CudaSucceeds) {logn : ℕ}
    (hlogn : 1 ≤ logn) (hdegree : request.call.HasDegree logn) {keys : List Key} {st : GpuState}
    (hvalid : st.verifyCache.Valid logn keys) {key : Key}
    (hkey : request.call.verificationKey = some key) {launch : Launch}
    (hlaunch : (request.perform st).launch = some launch) :
    ∃ key buffer cached, request.call.verificationKey = some key ∧
      launch.deviceKey = some buffer ∧ cached ∈ request.call.notedKeys keys ∧
      hashHCoeffs cached (2 ^ logn) = hashHCoeffs key (2 ^ logn) ∧
      buffer.HoldsKey cached (2 ^ logn) := by
  obtain ⟨call, ok⟩ := request
  cases call with
  | generatePresignBank | resetDevice => contradiction
  | verifyRawBatch hNttMonty logn' tokens banks =>
      obtain rfl : logn' = logn := hdegree
      exact (runBatch_verify _ hcuda hlogn hNttMonty banks _ hvalid).2 launch hlaunch
  | verifyCompressedBenchmarkBatch hNttMonty logn' tokens sigStride banks =>
      obtain rfl : logn' = logn := hdegree
      exact (runBatch_verify _ hcuda hlogn hNttMonty banks _ hvalid).2 launch hlaunch

theorem runRequests_valid {logn : ℕ} (hlogn : 1 ≤ logn) (requests : List Request)
    (hcuda : ∀ request ∈ requests, request.ok.CudaSucceeds)
    (hdegree : ∀ request ∈ requests, request.call.HasDegree logn) :
    (runRequests requests .initial).verifyCache.Valid logn (keysSinceReset requests) := by
  induction requests using List.reverseRecOn with
  | nil => exact rfl
  | append_singleton requests request ih =>
      rw [runRequests_append, keysSinceReset_append]
      exact perform_valid (hcuda request (by simp)) hlogn (hdegree request (by simp))
        (ih (fun r hr => hcuda r (by simp [hr])) fun r hr => hdegree r (by simp [hr]))

theorem exists_request_of_mem {key : Key} (requests : List Request)
    (hkey : key ∈ keysSinceReset requests) :
    ∃ request ∈ requests, request.call.verificationKey = some key := by
  induction requests using List.reverseRecOn with
  | nil => exact absurd hkey List.not_mem_nil
  | append_singleton requests request ih =>
      have hcases : key ∈ request.call.verificationKey.toList ++ keysSinceReset requests := by
        rw [keysSinceReset_append] at hkey
        cases hcall : request.call with
        | resetDevice =>
            rw [hcall] at hkey
            exact absurd hkey List.not_mem_nil
        | generatePresignBank | verifyRawBatch | verifyCompressedBenchmarkBatch =>
            rw [hcall] at hkey
            exact hkey
      rcases List.mem_append.mp hcases with hnew | hold
      · exact ⟨request, by simp, Option.mem_toList.mp hnew⟩
      · obtain ⟨other, hother, hotherKey⟩ := ih hold
        exact ⟨other, by simp [hother], hotherKey⟩

/-- A verification after the given requests runs with the key that it was given. -/
def UsesItsKey (logn : ℕ) (requests : List Request) (request : Request) : Prop :=
  ∀ key launch, request.call.verificationKey = some key →
    (request.perform (runRequests requests .initial)).launch = some launch →
    ∃ buffer, launch.deviceKey = some buffer ∧ buffer.HoldsKey key (2 ^ logn)

/-- The key that a verification runs with: one with the same hash, passed since the last
reset. It is the key that the verification was given if no other key with that hash has
been passed, and always if the keys have at most four words. -/
theorem verification_key {logn : ℕ} (hlogn : 1 ≤ logn) {requests : List Request}
    {request : Request} (hcuda : ∀ r ∈ requests ++ [request], r.ok.CudaSucceeds)
    (hdegree : ∀ r ∈ requests ++ [request], r.call.HasDegree logn)
    (hreduced : ∀ r ∈ requests ++ [request], ∀ key, r.call.verificationKey = some key →
      ∀ j < 2 ^ logn, (key j).toNat < 12289) :
    (∀ key launch, request.call.verificationKey = some key →
      (request.perform (runRequests requests .initial)).launch = some launch →
      ∃ buffer, launch.deviceKey = some buffer ∧
        ∃ cached ∈ keysSinceReset (requests ++ [request]), buffer.HoldsKey cached (2 ^ logn) ∧
          hashHCoeffs cached (2 ^ logn) = hashHCoeffs key (2 ^ logn)) ∧
    ((logn ≤ 2 ∨ ∀ key, request.call.verificationKey = some key →
        ∀ other ∈ keysSinceReset (requests ++ [request]),
          hashHCoeffs other (2 ^ logn) = hashHCoeffs key (2 ^ logn) →
            ∀ j < 2 ^ logn, other j = key j) →
      UsesItsKey logn requests request) := by
  have hlast : request ∈ requests ++ [request] := by simp
  have hvalid := runRequests_valid hlogn requests (fun r hr => hcuda r (by simp [hr]))
    fun r hr => hdegree r (by simp [hr])
  have hcached : ∀ key launch, request.call.verificationKey = some key →
      (request.perform (runRequests requests .initial)).launch = some launch →
      ∃ buffer, launch.deviceKey = some buffer ∧
        ∃ cached ∈ keysSinceReset (requests ++ [request]), buffer.HoldsKey cached (2 ^ logn) ∧
          hashHCoeffs cached (2 ^ logn) = hashHCoeffs key (2 ^ logn) := by
    intro key launch hkey hlaunch
    obtain ⟨key', buffer, cached, hkey', hbuffer, hmem, hhash, hholds⟩ :=
      perform_launch (hcuda request hlast) hlogn (hdegree request hlast) hvalid hkey hlaunch
    rw [hkey, Option.some.injEq] at hkey'
    subst hkey'
    rw [keysSinceReset_append]
    exact ⟨buffer, hbuffer, cached, hmem, hholds, hhash⟩
  refine ⟨hcached, fun hdistinct key launch hkey hlaunch => ?_⟩
  obtain ⟨buffer, hbuffer, cached, hmem, hholds, hhash⟩ := hcached key launch hkey hlaunch
  have hsame : ∀ j < 2 ^ logn, cached j = key j := by
    rcases hdistinct with hsmall | hdistinct
    · obtain ⟨r, hr, hrkey⟩ := exists_request_of_mem _ hmem
      have hsize : 2 ^ logn ≤ 4 := Nat.pow_le_pow_right (by decide) hsmall
      exact eq_of_hashHCoeffs_eq hsize (hreduced r hr cached hrkey)
        (hreduced request hlast key hkey) hhash
    · exact hdistinct key hkey cached hmem hhash
  exact ⟨buffer, hbuffer, fun j hj => by rw [hholds j hj, hsame j hj]⟩

/-- A successful verification of one token with a key of eight words. -/
def verifyEightWords (key : Key) : Request where
  call := .verifyRawBatch (some key) 3 1 true
  ok _ := true

/-- Two reduced keys, and the second verification runs with the first key. -/
theorem not_usesItsKey_collidingKeys :
    (∀ j < 2 ^ 3, (collidingKeys.1 j).toNat < 12289 ∧ (collidingKeys.2 j).toNat < 12289) ∧
      ¬ UsesItsKey 3 [verifyEightWords collidingKeys.1] (verifyEightWords collidingKeys.2) := by
  refine ⟨by decide, fun huses => ?_⟩
  have hfirst : (((verifyEightWords collidingKeys.2).perform
      (runRequests [verifyEightWords collidingKeys.1] .initial)).launch.bind fun launch =>
        launch.deviceKey.bind fun buffer => buffer.words 0) = some 9 := rfl
  obtain ⟨launch, hlaunch, hword⟩ := Option.bind_eq_some_iff.mp hfirst
  obtain ⟨buffer, hbuffer, hholds⟩ := huses collidingKeys.2 launch rfl hlaunch
  rw [hbuffer, Option.bind_some, hholds 0 (by decide)] at hword
  exact absurd hword (by decide)

/-- The same key twice: the second verification runs with it. -/
theorem verification_key_repeated :
    UsesItsKey 3 [verifyEightWords collidingKeys.1] (verifyEightWords collidingKeys.1) := by
  have hrequest : ∀ r ∈ [verifyEightWords collidingKeys.1] ++ [verifyEightWords collidingKeys.1],
      r = verifyEightWords collidingKeys.1 := by simp
  have hkeyEq : ∀ r ∈ [verifyEightWords collidingKeys.1] ++ [verifyEightWords collidingKeys.1],
      ∀ key, r.call.verificationKey = some key → key = collidingKeys.1 := by
    intro r hr key hkey
    rw [hrequest r hr] at hkey
    exact (Option.some.inj hkey).symm
  refine (verification_key (show 1 ≤ 3 by decide) (fun r hr site _ => ?_) (fun r hr => ?_)
    fun r hr key hkey => ?_).2 (.inr fun key hkey other hother _ => ?_)
  · rw [hrequest r hr]
    rfl
  · rw [hrequest r hr]
    rfl
  · rw [hkeyEq r hr key hkey]
    decide
  · obtain ⟨r, hr, hrkey⟩ := exists_request_of_mem _ hother
    rw [hkeyEq r hr other hrkey, hkeyEq _ (by simp) key hkey]
    exact fun _ _ => rfl

end Soko.Gpu
