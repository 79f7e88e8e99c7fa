import Soko.Gpu.TableCache
import Soko.Library.Runs

/-!
Uploads that fail. The functions that fill the caches do not look at what `cudaMalloc`
and `cudaMemcpy` return: a failure is reported by `cudaGetLastError` after the launch of
the same call, but the pointers, the hash and the `logn` are stored all the same, and
the next call takes the buffer for filled. The caches are sound along a run if and only
if no upload to a buffer that is there fails.
-/

namespace Soko.Gpu

def EachRequest (p : Request → GpuState → Prop) (requests : List Request) : Prop :=
  Library.EachStep (fun st request => (request.perform st).state) p requests .initial

/-! What the runtime reports. -/

/-- The CUDA calls of `ensure_device_tables`. -/
def TableCache.sites (cache : TableCache) : List Site :=
  if cache.Cached then []
  else
    (if cache.gmb.isNone then [.mallocGmb] else []) ++
      (if cache.igmb.isNone then [.mallocIgmb] else []) ++ [.copyGmb, .copyIgmb]

/-- The CUDA calls of `ensure_h_hat` or `ensure_h_verify`. -/
def Request.keySites (request : Request) (st : GpuState) : List Site :=
  match request.call with
  | .generatePresignBank hCoeffs logn _ _ =>
      (if st.dHHat.isNone then [.mallocHHat] else []) ++
        if (hHatCopy request.ok (hCoeffs.getD fun _ => 0) logn st).isSome then [.copyHHat] else []
  | .verifyRawBatch hNttMonty logn _ _ | .verifyCompressedBenchmarkBatch hNttMonty logn _ _ _ =>
      (if st.dHVerify.isNone then [.mallocHVerify] else []) ++
        if (hVerifyCopy request.ok (hNttMonty.getD fun _ => 0) logn st).isSome then [.copyHVerify]
        else []
  | .resetDevice => []

/-- `cudaGetLastError` returns the error of any of these calls: the launch counts as
successful only if all of them are. -/
def Request.ReportsFailures (request : Request) (st : GpuState) : Prop :=
  request.GetsToKey st → request.ok .launch = true →
    ∀ site ∈ st.tableCache.sites ++
      request.keySites (prepareBatch request.ok request.call.logn st).1, request.ok site = true

/-! What the caches promise. -/

def VerifyKeyFilled (hNttMonty : Option Key) (logn : ℕ) (pointer : Option DeviceBuffer) : Prop :=
  ∃ key cached, hNttMonty = some key ∧
    hashHCoeffs cached (2 ^ logn) = hashHCoeffs key (2 ^ logn) ∧ Filled pointer cached (2 ^ logn)

def Call.KeyFilled (call : Call) (pointer : Option DeviceBuffer) : Prop :=
  match call with
  | .generatePresignBank hCoeffs logn _ _ =>
      ∃ key, hCoeffs = some key ∧ Filled pointer (preparedKey logn key) (2 ^ logn)
  | .verifyRawBatch hNttMonty logn _ _ => VerifyKeyFilled hNttMonty logn pointer
  | .verifyCompressedBenchmarkBatch hNttMonty logn _ _ _ => VerifyKeyFilled hNttMonty logn pointer
  | .resetDevice => False

/-- A key with the stored hash is in `g_d_h_verify`, unless the pointer is null. -/
def VerifyCache.EntryFilled (cache : VerifyCache) : Prop :=
  ∀ buffer, cache.buffer = some buffer →
    ∃ key, buffer.HoldsKey key (2 ^ cache.logn) ∧ cache.hash = hashHCoeffs key (2 ^ cache.logn)

/-- The test of `ensure_h_hat` or `ensure_h_verify`, after its allocation, by which the
upload is skipped. -/
def Request.SkipsKey (request : Request) (st : GpuState) : Prop :=
  match request.call with
  | .generatePresignBank hCoeffs logn _ _ =>
      (allocHHat request.ok (2 ^ logn) st).hHash =
          hashHCoeffs (hCoeffs.getD fun _ => 0) (2 ^ logn) ∧
        (allocHHat request.ok (2 ^ logn) st).cachedLogn = logn
  | .verifyRawBatch hNttMonty logn _ _ | .verifyCompressedBenchmarkBatch hNttMonty logn _ _ _ =>
      (allocHVerify request.ok (2 ^ logn) st).hVerifyHash =
          hashHCoeffs (hNttMonty.getD fun _ => 0) (2 ^ logn) ∧
        (allocHVerify request.ok (2 ^ logn) st).cachedVerifyLogn = logn
  | .resetDevice => False

/-- No failed upload is taken for a filled buffer: not by the calls that come later, nor by
this call, and if it returns 0 its kernel has had the tables and the key. -/
structure Request.UploadsSound (request : Request) (st : GpuState) : Prop where
  tables : (request.perform st).state.tableCache.Valid
  verifyEntry : (request.perform st).state.verifyCache.EntryFilled
  skippedKey : request.GetsToKey st →
    request.SkipsKey (prepareBatch request.ok request.call.logn st).1 →
    ∃ buffer, request.call.keyBuffer = some buffer ∧
      request.call.KeyFilled ((request.perform st).state.keyBuffer buffer)
  success : request.call ≠ .resetDevice → (request.perform st).code = 0 →
    ∃ launch, (request.perform st).launch = some launch ∧ Filled launch.gmb gmb 1024 ∧
      Filled launch.igmb igmb 1024 ∧ request.call.KeyFilled launch.deviceKey

/-! When the promises are kept. -/

/-- The test of `ensure_h_verify` in terms of the state before: a null pointer counts with
the hash 0. -/
def VerifyCache.Hits (cache : VerifyCache) (key : Key) (logn : ℕ) : Prop :=
  (if cache.buffer.isNone then 0 else cache.hash) = hashHCoeffs key (2 ^ logn) ∧ cache.logn = logn

/-- A table upload that leaves no null pointer is without failure, a verification key is
found only in a buffer that is there, and its upload to a buffer that is there does not
fail. -/
structure Request.UploadsClean (request : Request) (st : GpuState) : Prop where
  tables : request.GetsToKey st → ¬ st.tableCache.Cached →
    st.dGmb.isSome = true ∨ request.ok .mallocGmb = true →
    st.dIgmb.isSome = true ∨ request.ok .mallocIgmb = true →
    request.ok .copyGmb = true ∧ request.ok .copyIgmb = true
  found : ∀ key, request.GetsToKey st → request.call.verificationKey = some key →
    st.verifyCache.Hits key request.call.logn → st.verifyCache.buffer.isSome = true
  uploaded : ∀ key, request.GetsToKey st → request.call.verificationKey = some key →
    ¬ st.verifyCache.Hits key request.call.logn →
    st.verifyCache.buffer.isSome = true ∨ request.ok .mallocHVerify = true →
    request.ok .copyHVerify = true

section Verify

variable (ok : Outcomes) {key : Key} (logn : ℕ) {st : GpuState}

@[simp] theorem allocHVerify_hits :
    ((allocHVerify ok (2 ^ logn) st).hVerifyHash = hashHCoeffs key (2 ^ logn) ∧
      (allocHVerify ok (2 ^ logn) st).cachedVerifyLogn = logn) ↔ st.verifyCache.Hits key logn := by
  rw [allocHVerify_state]
  rfl

@[simp] theorem isSome_allocHVerify :
    (allocHVerify ok (2 ^ logn) st).dHVerify.isSome = true ↔
      st.verifyCache.buffer.isSome = true ∨ ok .mallocHVerify = true := by
  rw [allocHVerify_state]
  exact isSome_alloc

theorem allocHVerify_kept {buffer : DeviceBuffer} (hbuffer : st.verifyCache.buffer = some buffer) :
    (allocHVerify ok (2 ^ logn) st).dHVerify = some buffer := by
  have hsome : st.dHVerify = some buffer := hbuffer
  rw [allocHVerify_state]
  simp [hsome]

/-- A buffer that has just been allocated holds no key. -/
theorem allocHVerify_blank (hnull : st.verifyCache.buffer = none) (cached : Key) :
    ¬ Filled (allocHVerify ok (2 ^ logn) st).dHVerify cached (2 ^ logn) := by
  have hnone : st.dHVerify = none := hnull
  rintro ⟨buffer, hbuffer, hholds⟩
  have hfirst := hholds 0 (Nat.two_pow_pos logn)
  rw [allocHVerify_state] at hbuffer
  simp only [hnone, mallocBuffer, Option.isNone_none, if_true] at hbuffer
  split at hbuffer
  · obtain rfl := Option.some.inj hbuffer
    contradiction
  · contradiction

theorem ensureHVerify_hit (hhit : st.verifyCache.Hits key logn) :
    (ensureHVerify ok key logn st).1.verifyCache =
      { buffer := (allocHVerify ok (2 ^ logn) st).dHVerify
        hash := hashHCoeffs key (2 ^ logn)
        logn } := by
  have htest := (allocHVerify_hits ok logn).mpr hhit
  simp only [ensureHVerify, if_pos htest]
  rw [GpuState.verifyCache, htest.1, htest.2]

theorem ensureHVerify_miss (hmiss : ¬ st.verifyCache.Hits key logn) :
    (ensureHVerify ok key logn st).1.verifyCache =
      { buffer := copyToDevice (ok .copyHVerify) key (2 ^ logn)
          (allocHVerify ok (2 ^ logn) st).dHVerify
        hash := hashHCoeffs key (2 ^ logn)
        logn } := by
  simp only [ensureHVerify, if_neg fun htest => hmiss ((allocHVerify_hits ok logn).mp htest)]
  rfl

theorem copyToDevice_entryFilled_iff {copyOk : Bool} {pointer : Option DeviceBuffer} :
    VerifyCache.EntryFilled
        { buffer := copyToDevice copyOk key (2 ^ logn) pointer
          hash := hashHCoeffs key (2 ^ logn)
          logn } ↔
      (pointer.isSome = true → copyOk = true) := by
  constructor
  · intro hfilled hsome
    obtain ⟨buffer, rfl⟩ := Option.isSome_iff_exists.mp hsome
    obtain ⟨cached, hholds, -⟩ := hfilled _ rfl
    have hfirst := hholds 0 (Nat.two_pow_pos logn)
    -- the words of a failed copy are unknown
    cases copyOk with
    | true => rfl
    | false => simp at hfirst
  · intro hcopy buffer hbuffer
    have hsome : pointer.isSome = true := by
      have hmap := Option.isSome_of_mem hbuffer
      rwa [copyToDevice, Option.isSome_map] at hmap
    obtain ⟨copied, hsame, hholds⟩ := filled_copyToDevice (Nat.two_pow_pos logn) |>.mpr
      ⟨hsome, hcopy hsome⟩
    obtain rfl := Option.some.inj (hsame.symm.trans hbuffer)
    exact ⟨key, hholds, rfl⟩

theorem ensureHVerify_entryFilled_iff (h : st.verifyCache.EntryFilled) :
    ((ensureHVerify ok key logn st).1.verifyCache.EntryFilled ∧
        (st.verifyCache.Hits key logn →
          VerifyKeyFilled (some key) logn (ensureHVerify ok key logn st).1.verifyCache.buffer)) ↔
      (st.verifyCache.Hits key logn → st.verifyCache.buffer.isSome = true) ∧
        (¬ st.verifyCache.Hits key logn →
          st.verifyCache.buffer.isSome = true ∨ ok .mallocHVerify = true →
            ok .copyHVerify = true) := by
  by_cases hhit : st.verifyCache.Hits key logn
  · rw [ensureHVerify_hit ok logn hhit]
    cases hbuffer : st.verifyCache.buffer with
    | none =>
        refine iff_of_false (fun hsound => ?_) fun hclean => Bool.false_ne_true (hclean.1 hhit)
        obtain ⟨-, cached, -, -, hfilled⟩ := hsound.2 hhit
        exact allocHVerify_blank ok logn hbuffer cached hfilled
    | some buffer =>
        obtain ⟨cached, hholds, hhash⟩ := h buffer hbuffer
        obtain ⟨hstored, hlogn⟩ := id hhit
        rw [hbuffer, Option.isNone_some, if_neg Bool.false_ne_true] at hstored
        rw [hlogn] at hholds hhash
        rw [allocHVerify_kept ok logn hbuffer]
        refine iff_of_true ⟨fun buffer' hbuffer' => ?_, fun _ => ?_⟩
          ⟨fun _ => rfl, fun hmiss => absurd hhit hmiss⟩
        · obtain rfl := Option.some.inj hbuffer'
          exact ⟨cached, hholds, hstored.symm.trans hhash⟩
        · exact ⟨key, cached, rfl, hhash.symm.trans hstored, buffer, rfl, hholds⟩
  · rw [ensureHVerify_miss ok logn hhit, copyToDevice_entryFilled_iff, isSome_allocHVerify]
    exact ⟨fun hsound => ⟨fun hhit' => absurd hhit' hhit, fun _ => hsound.1⟩,
      fun hclean => ⟨hclean.2 hhit, fun hhit' => absurd hhit' hhit⟩⟩

/-- A buffer with the key, if the upload is skipped for a buffer with the key and is not
skipped otherwise without success. -/
theorem ensureHVerify_filled
    (hskipped : st.verifyCache.Hits key logn →
      VerifyKeyFilled (some key) logn (ensureHVerify ok key logn st).1.verifyCache.buffer)
    (hmalloc : st.verifyCache.buffer.isSome = true ∨ ok .mallocHVerify = true)
    (hcopy : ¬ st.verifyCache.Hits key logn → ok .copyHVerify = true) :
    VerifyKeyFilled (some key) logn (ensureHVerify ok key logn st).1.verifyCache.buffer := by
  by_cases hhit : st.verifyCache.Hits key logn
  · exact hskipped hhit
  · rw [ensureHVerify_miss ok logn hhit]
    exact ⟨key, key, rfl, rfl, (filled_copyToDevice (Nat.two_pow_pos logn)).mpr
      ⟨(isSome_allocHVerify ok logn).mpr hmalloc, hcopy hhit⟩⟩

end Verify

/-- A call of one of the two verification functions. -/
structure Request.VerifiesWith (request : Request) (key : Key) : Prop where
  keyBuffer : request.call.keyBuffer = some .hVerify
  ensureKey : request.ensureKey = ensureHVerify request.ok key request.call.logn
  keyFilled : request.call.KeyFilled = VerifyKeyFilled (some key) request.call.logn
  skipsKey : ∀ st : GpuState, request.SkipsKey st ↔ st.verifyCache.Hits key request.call.logn
  mallocSite : ∀ st : GpuState, st.verifyCache.buffer = none →
    .mallocHVerify ∈ request.keySites st
  copySite : ∀ st : GpuState, ¬ st.verifyCache.Hits key request.call.logn →
    .copyHVerify ∈ request.keySites st

theorem verifySites {ok : Outcomes} {key : Key} {logn : ℕ} (st : GpuState) :
    let sites : List Site := (if st.dHVerify.isNone then [.mallocHVerify] else []) ++
      if (hVerifyCopy ok key logn st).isSome then [.copyHVerify] else []
    (st.verifyCache.buffer = none → .mallocHVerify ∈ sites) ∧
      (¬ st.verifyCache.Hits key logn → .copyHVerify ∈ sites) := by
  refine ⟨fun hnull => ?_, fun hmiss => ?_⟩
  · have hnone : st.dHVerify = none := hnull
    simp [hnone]
  · simp only [hVerifyCopy, if_neg fun htest => hmiss ((allocHVerify_hits ok logn).mp htest)]
    simp

theorem verifiesWith {request : Request} {key : Key}
    (hkey : request.call.verificationKey = some key) : request.VerifiesWith key := by
  obtain ⟨call, ok⟩ := request
  cases call with
  | generatePresignBank | resetDevice => contradiction
  | verifyRawBatch hNttMonty logn tokens banks =>
      obtain rfl : hNttMonty = some key := hkey
      exact ⟨rfl, rfl, rfl, fun _ => allocHVerify_hits ok logn, fun st => (verifySites st).1,
        fun st => (verifySites st).2⟩
  | verifyCompressedBenchmarkBatch hNttMonty logn tokens sigStride banks =>
      obtain rfl : hNttMonty = some key := hkey
      exact ⟨rfl, rfl, rfl, fun _ => allocHVerify_hits ok logn, fun st => (verifySites st).1,
        fun st => (verifySites st).2⟩

/-- A call with valid arguments is a presign call or a verification. -/
theorem accepted_cases {call : Call} (haccepted : call.accepted = true) :
    (∃ key logn tokens banks, call = .generatePresignBank (some key) logn tokens banks) ∨
      ∃ key, call.verificationKey = some key := by
  cases call with
  | generatePresignBank hCoeffs logn tokens banks =>
      simp only [Call.accepted, Bool.and_eq_true] at haccepted
      obtain ⟨key, rfl⟩ := Option.isSome_iff_exists.mp haccepted.1.1
      exact .inl ⟨key, logn, tokens, banks, rfl⟩
  | verifyRawBatch hNttMonty logn tokens banks =>
      simp only [Call.accepted, Bool.and_eq_true] at haccepted
      exact .inr (Option.isSome_iff_exists.mp haccepted.1.1)
  | verifyCompressedBenchmarkBatch hNttMonty logn tokens sigStride banks =>
      simp only [Call.accepted, Bool.and_eq_true] at haccepted
      exact .inr (Option.isSome_iff_exists.mp haccepted.1.1)
  | resetDevice => contradiction

section Step

variable {request : Request} {st st' : GpuState}

/-- If all their calls succeed, both tables are there. -/
theorem filled_of_sites {ok : Outcomes} {logn : ℕ} (hprepared : Prepared ok logn st st')
    (h : st.tableCache.Valid) (hsites : ∀ site ∈ st.tableCache.sites, ok site = true) :
    Filled st'.dGmb gmb 1024 ∧ Filled st'.dIgmb igmb 1024 := by
  refine hprepared.filled h fun hmiss => ?_
  rw [TableCache.sites, if_neg hmiss] at hsites
  refine ⟨hsites .copyGmb (by simp), hsites .copyIgmb (by simp), ?_, ?_⟩
  · cases hgmb : st.dGmb with
    | none => exact .inr (hsites .mallocGmb (by simp [GpuState.tableCache, hgmb]))
    | some buffer => exact .inl rfl
  · cases higmb : st.dIgmb with
    | none => exact .inr (hsites .mallocIgmb (by simp [GpuState.tableCache, higmb]))
    | some buffer => exact .inl rfl

/-- If all its calls succeed, a presign call has its key in the buffer. -/
theorem presign_filled_of_sites {ok : Outcomes} {key : Key} {logn : ℕ} {tokens : ℤ} {banks : Bool}
    (hlogn : 1 ≤ logn) (hprepared : Prepared ok logn st st')
    (hready : (ensureHHat ok key logn st').2 = true)
    (hsites : ∀ site ∈ (Request.mk (.generatePresignBank (some key) logn tokens banks)
      ok).keySites st', ok site = true) :
    Filled (ensureHHat ok key logn st').1.dHHat (preparedKey logn key) (2 ^ logn) := by
  have hcopied : (hHatCopy ok key logn st').isSome = true := by
    obtain ⟨hash, hmiss, halloc⟩ := allocHHat_reset ok key hprepared.cachedLogn hlogn
    simp only [hHatCopy, ensureHHat, halloc, if_neg hmiss] at hready ⊢
    cases hhost : ok .hostHHat with
    | false => simp [hhost] at hready
    | true => rfl
  simp only [Request.keySites, Option.getD_some, hcopied, if_true] at hsites
  refine ensureHHat_filled hprepared.cachedLogn hlogn hprepared.gmbHost hready ?_
    (hsites .copyHHat (by simp))
  cases hbuffer : st'.dHHat with
  | none => exact .inr (hsites .mallocHHat (by simp [hbuffer]))
  | some buffer => exact .inl rfl

theorem perform_key_iff (hentry : st.verifyCache.EntryFilled) (hgets : request.GetsToKey st)
    (hprepared : Prepared request.ok request.call.logn st st')
    (hstate : (request.perform st).state = (request.ensureKey st').1) :
    ((request.perform st).state.verifyCache.EntryFilled ∧
        (request.SkipsKey st' → ∃ buffer, request.call.keyBuffer = some buffer ∧
          request.call.KeyFilled ((request.perform st).state.keyBuffer buffer))) ↔
      ∀ key, request.call.verificationKey = some key →
        (st.verifyCache.Hits key request.call.logn → st.verifyCache.buffer.isSome = true) ∧
        (¬ st.verifyCache.Hits key request.call.logn →
          st.verifyCache.buffer.isSome = true ∨ request.ok .mallocHVerify = true →
            request.ok .copyHVerify = true) := by
  have hlogn := one_le_logn hgets.1
  rcases accepted_cases hgets.1 with ⟨key, logn, tokens, banks, hcall⟩ | ⟨key, hkey⟩
  · refine iff_of_true ⟨?_, fun hskips => ?_⟩ fun key hkey => ?_
    · rw [hstate, Request.ensureKey, hcall]
      show (ensureHHat _ _ _ _).1.verifyCache.EntryFilled
      rw [ensureHHat_verifyCache, hprepared.verifyCache]
      exact hentry
    · -- the degree that is cached is 0
      obtain ⟨hash, halloc⟩ := allocHHat_state request.ok (2 ^ logn) st'
      simp only [Request.SkipsKey, hcall, halloc, hprepared.cachedLogn, Call.logn] at hskips hlogn
      omega
    · rw [hcall] at hkey
      contradiction
  · have hverifies := verifiesWith hkey
    have hkept : st'.verifyCache.EntryFilled := by
      rw [hprepared.verifyCache]
      exact hentry
    have hiff := @ensureHVerify_entryFilled_iff request.ok key request.call.logn st' hkept
    rw [← hverifies.ensureKey, ← hstate, hprepared.verifyCache] at hiff
    rw [hverifies.skipsKey, hprepared.verifyCache, hverifies.keyFilled]
    constructor
    · rintro ⟨hfilled, hskipped⟩ other hother
      obtain rfl : other = key := Option.some.inj (hother.symm.trans hkey)
      refine hiff.mp ⟨hfilled, fun hhit => ?_⟩
      obtain ⟨buffer, hbuffer, hkeyFilled⟩ := hskipped hhit
      obtain rfl : buffer = .hVerify := Option.some.inj (hbuffer.symm.trans hverifies.keyBuffer)
      exact hkeyFilled
    · intro hclean
      obtain ⟨hfilled, hskipped⟩ := hiff.mpr (hclean key hkey)
      exact ⟨hfilled, fun hhit => ⟨.hVerify, hverifies.keyBuffer, hskipped hhit⟩⟩

theorem perform_success (htables : st.tableCache.Valid) (hgets : request.GetsToKey st)
    (hreports : request.ReportsFailures st)
    (hskipped : request.SkipsKey (prepareBatch request.ok request.call.logn st).1 →
      ∃ buffer, request.call.keyBuffer = some buffer ∧
        request.call.KeyFilled ((request.perform st).state.keyBuffer buffer))
    (hcall : request.call ≠ .resetDevice) (hcode : (request.perform st).code = 0) :
    ∃ launch, (request.perform st).launch = some launch ∧ Filled launch.gmb gmb 1024 ∧
      Filled launch.igmb igmb 1024 ∧ request.call.KeyFilled launch.deviceKey := by
  obtain ⟨hsome, hlaunched⟩ := perform_code_eq_zero hcall hcode
  obtain ⟨launch, hlaunch⟩ := Option.isSome_iff_exists.mp hsome
  obtain ⟨st', hprepared, hst', hstate, hread⟩ := perform_getsToKey htables hgets
  obtain ⟨hready, buffer, hbuffer, hfrom⟩ := hread launch hlaunch
  have hsites := hreports hgets hlaunched
  rw [hst'] at hsites hskipped
  have hcache : (request.perform st).state.tableCache = st'.tableCache := by
    rw [hstate, ensureKey_tableCache]
  obtain ⟨hgmb, higmb⟩ := filled_of_sites hprepared htables
    fun site hsite => hsites site (List.mem_append_left _ hsite)
  have hkeySites : ∀ site ∈ request.keySites st', request.ok site = true :=
    fun site hsite => hsites site (List.mem_append_right _ hsite)
  refine ⟨launch, hlaunch, ?_, ?_, ?_⟩
  · rw [hfrom]
    show Filled (request.perform st).state.tableCache.gmb _ _
    rw [hcache]
    exact hgmb
  · rw [hfrom]
    show Filled (request.perform st).state.tableCache.igmb _ _
    rw [hcache]
    exact higmb
  · rw [hfrom]
    show request.call.KeyFilled ((request.perform st).state.keyBuffer buffer)
    have hlogn := one_le_logn hgets.1
    rcases accepted_cases hgets.1 with ⟨key, logn, tokens, banks, hpresign⟩ | ⟨key, hkey⟩
    · obtain ⟨call, ok⟩ := request
      obtain rfl : call = _ := hpresign
      obtain rfl : KeyBuffer.hHat = buffer := Option.some.inj hbuffer
      rw [hstate]
      exact ⟨key, rfl, presign_filled_of_sites hlogn hprepared hready hkeySites⟩
    · have hverifies := verifiesWith hkey
      obtain rfl : KeyBuffer.hVerify = buffer :=
        Option.some.inj (hverifies.keyBuffer.symm.trans hbuffer)
      rw [hverifies.skipsKey, hverifies.keyFilled] at hskipped
      rw [hverifies.keyFilled]
      rw [hstate, hverifies.ensureKey] at hskipped ⊢
      -- a found key is filled by the soundness of the skip, any other by its own upload
      refine ensureHVerify_filled request.ok request.call.logn (fun hhit => ?_) ?_ fun hmiss => ?_
      · obtain ⟨other, hother, hfilled⟩ := hskipped hhit
        obtain rfl : KeyBuffer.hVerify = other :=
          Option.some.inj (hverifies.keyBuffer.symm.trans hother)
        exact hfilled
      · cases hpointer : st'.verifyCache.buffer with
        | none => exact .inr (hkeySites _ (hverifies.mallocSite st' hpointer))
        | some pointer => exact .inl rfl
      · exact hkeySites _ (hverifies.copySite st' hmiss)

theorem uploadsSound_iff_clean (htables : st.tableCache.Valid)
    (hentry : st.verifyCache.EntryFilled) (hreports : request.ReportsFailures st) :
    request.UploadsSound st ↔ request.UploadsClean st := by
  by_cases hgets : request.GetsToKey st
  · have hcall : request.call ≠ .resetDevice := by
      intro hreset
      have haccepted := hgets.1
      rw [hreset] at haccepted
      contradiction
    obtain ⟨st', hprepared, hst', hstate, -⟩ := perform_getsToKey htables hgets
    have hcache : (request.perform st).state.tableCache = st'.tableCache := by
      rw [hstate, ensureKey_tableCache]
    have hvalid := hprepared.tableCache_valid_iff htables
    have hkey := perform_key_iff hentry hgets hprepared hstate
    rw [← hcache] at hvalid
    constructor
    · intro hsound
      have hclean := hkey.mp ⟨hsound.verifyEntry, hst' ▸ hsound.skippedKey hgets⟩
      exact ⟨fun _ => hvalid.mp hsound.tables, fun key _ hverify => (hclean key hverify).1,
        fun key _ hverify => (hclean key hverify).2⟩
    · intro hclean
      obtain ⟨hfilled, hskipped⟩ := hkey.mpr fun key hverify =>
        ⟨hclean.found key hgets hverify, hclean.uploaded key hgets hverify⟩
      rw [← hst'] at hskipped
      exact ⟨hvalid.mpr (hclean.tables hgets), hfilled, fun _ => hskipped,
        perform_success htables hgets hreports hskipped⟩
  · -- a request that stops before its key asks nothing of the uploads and launches nothing
    have hclean : request.UploadsClean st := ⟨fun h => absurd h hgets,
      fun _ h => absurd h hgets, fun _ h => absurd h hgets⟩
    refine iff_of_true ?_ hclean
    by_cases hcall : request.call = .resetDevice
    · have hstate : (request.perform st).state = (oofalconGpuResetDevice request.ok st).state := by
        rw [Request.perform, hcall]
      refine ⟨?_, ?_, fun h => absurd h hgets, fun hne => absurd hcall hne⟩
      · rw [hstate]
        exact ⟨htables.gmbHost, htables.igmbHost,
          fun hcached => absurd hcached.1 Bool.false_ne_true⟩
      · rw [hstate]
        exact fun buffer hbuffer => by contradiction
    · obtain ⟨hnone, hsame, hverify⟩ := perform_stopped hcall htables hgets
      refine ⟨hsame ▸ htables, hverify ▸ hentry, fun h => absurd h hgets, fun _ hcode => ?_⟩
      have hsome := (perform_code_eq_zero hcall hcode).1
      rw [hnone] at hsome
      contradiction

end Step

/-- Along a run whose failures are reported, the caches are sound if and only if every
request uploads cleanly. -/
theorem uploadsSound_iff {requests : List Request}
    (hreports : EachRequest Request.ReportsFailures requests) :
    EachRequest Request.UploadsSound requests ↔ EachRequest Request.UploadsClean requests := by
  refine Library.eachStep_iff_of_invariant
    (fun st : GpuState => st.tableCache.Valid ∧ st.verifyCache.EntryFilled)
    (fun request st hcaches hreports => uploadsSound_iff_clean hcaches.1 hcaches.2 hreports)
    (fun request st _ hsound => ⟨hsound.tables, hsound.verifyEntry⟩) ⟨?_, ?_⟩ hreports
  · exact ⟨fun _ hgmb => by contradiction, fun _ higmb => by contradiction,
      fun hcached => absurd hcached.1 Bool.false_ne_true⟩
  · exact fun buffer hbuffer => by contradiction

@[simp] theorem eachRequest_pair {p : Request → GpuState → Prop} {first second : Request} :
    EachRequest p [first, second] ↔
      p first .initial ∧ p second (first.perform .initial).state := by
  rw [EachRequest, show [first, second] = [] ++ [first] ++ [second] from rfl,
    Library.eachStep_append_singleton, Library.eachStep_append_singleton]
  exact and_congr_left fun _ => and_iff_right Library.eachStep_nil

/-- A verification with a zero key of two words, in which one CUDA call fails and is
reported after the launch. -/
def verifyZeroKeyFailing (fails : Site → Bool) : Request where
  call := .verifyRawBatch (some fun _ => 0) 1 1 true
  ok
    | .launch => false
    | site => !fails site

def failsCopyGmb : Site → Bool
  | .copyGmb => true
  | _ => false

def failsMallocIgmb : Site → Bool
  | .mallocIgmb => true
  | _ => false

/-- The first call reports that its copy has failed, the second returns 0 although the
table has never been uploaded. -/
theorem not_uploadsSound_failedCopy :
    EachRequest Request.ReportsFailures [verifyZeroKeyFailing failsCopyGmb, verifyZeroKey 1] ∧
      ((verifyZeroKeyFailing failsCopyGmb).perform .initial).code = 55 ∧
      ((verifyZeroKey 1).perform
        ((verifyZeroKeyFailing failsCopyGmb).perform .initial).state).code = 0 ∧
      ¬ EachRequest Request.UploadsSound
        [verifyZeroKeyFailing failsCopyGmb, verifyZeroKey 1] := by
  obtain ⟨after, hafter⟩ : ∃ after, after =
    ((verifyZeroKeyFailing failsCopyGmb).perform .initial).state := ⟨_, rfl⟩
  have hcode : ((verifyZeroKey 1).perform after).code = 0 := by
    rw [hafter]
    rfl
  refine ⟨eachRequest_pair.mpr ⟨fun _ hlaunch => by contradiction, fun _ _ _ _ => rfl⟩,
    rfl, hafter ▸ hcode, fun hsound => ?_⟩
  have hsecond := (eachRequest_pair.mp hsound).2
  rw [← hafter] at hsecond
  obtain ⟨launch, hlaunch, ⟨buffer, hbuffer, hholds⟩, -, -⟩ :=
    hsecond.success (fun hreset => by contradiction) hcode
  have hword : (((verifyZeroKey 1).perform after).launch.bind fun launch =>
      launch.gmb.bind fun buffer => buffer.words 0) = none := by
    rw [hafter]
    rfl
  rw [hlaunch, Option.bind_some, hbuffer, Option.bind_some, hholds 0 (by decide)] at hword
  contradiction

/-- A failure that leaves a null pointer is mended by the next call. -/
theorem uploadsSound_iff_failedMalloc :
    EachRequest Request.UploadsSound
      [verifyZeroKeyFailing failsMallocIgmb, verifyZeroKey 1] := by
  have hreports : EachRequest Request.ReportsFailures
      [verifyZeroKeyFailing failsMallocIgmb, verifyZeroKey 1] :=
    eachRequest_pair.mpr ⟨fun _ hlaunch => by contradiction, fun _ _ _ _ => rfl⟩
  refine (uploadsSound_iff hreports).mpr (eachRequest_pair.mpr ⟨⟨?_, ?_, ?_⟩, ⟨?_, ?_, ?_⟩⟩)
  · intro _ _ _ hmalloc
    rcases hmalloc with hsome | hmalloc <;> contradiction
  · rintro key - - ⟨-, hlogn⟩
    exact absurd hlogn (by decide)
  · exact fun _ _ _ _ _ => rfl
  · exact fun _ _ _ _ => ⟨rfl, rfl⟩
  · exact fun _ _ _ _ => rfl
  · exact fun _ _ _ _ _ => rfl

end Soko.Gpu
