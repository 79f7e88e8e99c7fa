import Soko.Gpu.KeyCache

/-!
The sizes of the key buffers. Each of the two is allocated by the first call that gets
to it after a reset, for the `logn` of that call, and is kept until the next reset,
whatever the `logn` of the later calls. A later call stays inside its buffer if its
`logn` is at most the first one, and only then.
-/

namespace Soko.Gpu

/-- `g_d_h_hat` and `g_d_h_verify`. -/
inductive KeyBuffer
  | hHat
  | hVerify
  deriving DecidableEq

def GpuState.keyBuffer (st : GpuState) : KeyBuffer → Option DeviceBuffer
  | .hHat => st.dHHat
  | .hVerify => st.dHVerify

/-- An access to the first `bytes` bytes behind a pointer. -/
structure KeyAccess where
  buffer : Option DeviceBuffer
  bytes : ℕ

def KeyAccess.InBounds (access : KeyAccess) : Prop :=
  ∃ buffer, access.buffer = some buffer ∧ access.bytes ≤ buffer.bytes

/-- The `cudaMemcpy` of `ensure_h_hat`, if it comes to it. -/
def hHatCopy (ok : Outcomes) (hCoeffs : Key) (logn : ℕ) (st : GpuState) : Option KeyAccess :=
  let n := 2 ^ logn
  let st := allocHHat ok n st
  if st.hHash = hashHCoeffs hCoeffs n ∧ st.cachedLogn = logn then none
  else if ¬ ok .hostHHat then none
  else some { buffer := st.dHHat, bytes := 2 * n }

/-- The `cudaMemcpy` of `ensure_h_verify`, if it comes to it. -/
def hVerifyCopy (ok : Outcomes) (hNttMonty : Key) (logn : ℕ) (st : GpuState) : Option KeyAccess :=
  let n := 2 ^ logn
  let st := allocHVerify ok n st
  if st.hVerifyHash = hashHCoeffs hNttMonty n ∧ st.cachedVerifyLogn = logn then none
  else some { buffer := st.dHVerify, bytes := 2 * n }

/-- A buffer that was allocated or kept, after the upload of a key. -/
def uploaded (copyOk : Bool) (key : Key) (allocated : Option DeviceBuffer) :
    Option KeyAccess → Option DeviceBuffer
  | none => allocated
  | some access => copyToDevice copyOk key (access.bytes / 2) access.buffer

/-- The buffer changes by its allocation and by this upload. -/
theorem ensureHHat_dHHat (ok : Outcomes) (hCoeffs : Key) (logn : ℕ) (st : GpuState) :
    (ensureHHat ok hCoeffs logn st).1.dHHat =
      uploaded (ok .copyHHat)
        (mqPolyTomontyHost logn (mqNttHost (st.nttHost.gmb.getD fun _ => 0) logn hCoeffs))
        (allocHHat ok (2 ^ logn) st).dHHat (hHatCopy ok hCoeffs logn st) := by
  obtain ⟨hash, halloc⟩ := allocHHat_state ok (2 ^ logn) st
  simp only [ensureHHat, hHatCopy, halloc]
  split_ifs <;> simp [uploaded]

theorem ensureHVerify_dHVerify (ok : Outcomes) (hNttMonty : Key) (logn : ℕ) (st : GpuState) :
    (ensureHVerify ok hNttMonty logn st).1.dHVerify =
      uploaded (ok .copyHVerify) hNttMonty (allocHVerify ok (2 ^ logn) st).dHVerify
        (hVerifyCopy ok hNttMonty logn st) := by
  simp only [ensureHVerify, hVerifyCopy]
  split_ifs <;> simp [uploaded]

/-- What a kernel reads of its key: the words `0` to `2 ^ logn - 1`. -/
def Launch.keyRead (launch : Launch) : KeyAccess where
  buffer := launch.deviceKey
  bytes := 2 * 2 ^ launch.logn

def prepareBatch (ok : Outcomes) (logn : ℕ) (st : GpuState) : GpuState × Bool :=
  andThen (createHandles ok st) (ensureDeviceTables ok logn)

def Call.keyBuffer : Call → Option KeyBuffer
  | .generatePresignBank .. => some .hHat
  | .verifyRawBatch .. => some .hVerify
  | .verifyCompressedBenchmarkBatch .. => some .hVerify
  | .resetDevice => none

def Call.logn : Call → ℕ
  | .generatePresignBank _ logn _ _ => logn
  | .verifyRawBatch _ logn _ _ => logn
  | .verifyCompressedBenchmarkBatch _ logn _ _ _ => logn
  | .resetDevice => 0

def Call.accepted : Call → Bool
  | .generatePresignBank hCoeffs logn tokens banks =>
      hCoeffs.isSome && banks && validSizes logn tokens
  | .verifyRawBatch hNttMonty logn tokens banks =>
      hNttMonty.isSome && banks && validSizes logn tokens
  | .verifyCompressedBenchmarkBatch hNttMonty logn tokens sigStride banks =>
      hNttMonty.isSome && banks && (validSizes logn tokens && decide (sigStride ≠ 0))
  | .resetDevice => false

def Request.GetsToKey (request : Request) (st : GpuState) : Prop :=
  request.call.accepted = true ∧ (prepareBatch request.ok request.call.logn st).2 = true

instance decidableGetsToKey (request : Request) (st : GpuState) :
    Decidable (request.GetsToKey st) :=
  inferInstanceAs (Decidable (_ ∧ _))

def Request.keyCopy (request : Request) (st : GpuState) : Option KeyAccess :=
  if request.GetsToKey st then
    let st := (prepareBatch request.ok request.call.logn st).1
    match request.call with
    | .generatePresignBank hCoeffs logn _ _ =>
        hHatCopy request.ok (hCoeffs.getD fun _ => 0) logn st
    | .verifyRawBatch hNttMonty logn _ _ =>
        hVerifyCopy request.ok (hNttMonty.getD fun _ => 0) logn st
    | .verifyCompressedBenchmarkBatch hNttMonty logn _ _ _ =>
        hVerifyCopy request.ok (hNttMonty.getD fun _ => 0) logn st
    | .resetDevice => none
  else none

def Request.keyAccesses (request : Request) (st : GpuState) : List KeyAccess :=
  (request.keyCopy st).toList ++ (request.perform st).launch.toList.map Launch.keyRead

def keyAccesses : List Request → GpuState → List KeyAccess
  | [], _ => []
  | request :: requests, st =>
      request.keyAccesses st ++ keyAccesses requests (request.perform st).state

def Site.isCudaMalloc : Site → Bool
  | mallocGmb | mallocIgmb | mallocHHat | mallocHVerify | mallocBatch _ => true
  | _ => false

def Outcomes.MallocSucceeds (ok : Outcomes) : Prop :=
  ∀ site, site.isCudaMalloc = true → ok site = true

/-- The request comes to the upload of its key: it gets as far as its key, and a
presign call has memory for the transformed key. -/
def Request.NeedsKey (request : Request) (st : GpuState) : Prop :=
  request.GetsToKey st ∧ (request.call.keyBuffer = some .hHat → request.ok .hostHHat = true)

/-- `firstLogn` gives for each buffer the `logn` of the first request since the last
reset that got to it. This is the same after one more request. -/
def Request.noteLogn (request : Request) (st : GpuState) (firstLogn : KeyBuffer → Option ℕ) :
    KeyBuffer → Option ℕ :=
  match request.call.keyBuffer with
  | none => fun _ => none
  | some buffer =>
      if request.GetsToKey st then
        Function.update firstLogn buffer (some ((firstLogn buffer).getD request.call.logn))
      else firstLogn

/-- The `logn` of a request that comes to the upload of its key is at most the first. -/
def Request.Fits (request : Request) (st : GpuState) (firstLogn : KeyBuffer → Option ℕ) : Prop :=
  ∀ buffer, request.call.keyBuffer = some buffer → request.NeedsKey st →
    request.call.logn ≤ (firstLogn buffer).getD request.call.logn

def LognsFit : List Request → GpuState → (KeyBuffer → Option ℕ) → Prop
  | [], _, _ => True
  | request :: requests, st, firstLogn =>
      request.Fits st firstLogn ∧
        LognsFit requests (request.perform st).state (request.noteLogn st firstLogn)

/-- The buffers have the size of the first `logn`, and the cached verification key is for
no larger one. -/
structure GpuState.Sized (st : GpuState) (firstLogn : KeyBuffer → Option ℕ) : Prop where
  bytes : ∀ buffer, (st.keyBuffer buffer).map DeviceBuffer.bytes =
    (firstLogn buffer).map fun logn => 2 * 2 ^ logn
  cached : st.cachedVerifyLogn ≤ (firstLogn .hVerify).getD 0

section Sizes

variable {ok : Outcomes} {logn first : ℕ} {key : Key} {st st' : GpuState}
  {firstLogn : KeyBuffer → Option ℕ}

theorem GpuState.Sized.of_eq (h : st.Sized firstLogn) (hhat : st'.dHHat = st.dHHat)
    (hverify : st'.dHVerify = st.dHVerify)
    (hcached : st'.cachedVerifyLogn = st.cachedVerifyLogn) : st'.Sized firstLogn where
  bytes buffer := by
    rw [← h.bytes buffer]
    cases buffer
    · exact congrArg (Option.map DeviceBuffer.bytes) hhat
    · exact congrArg (Option.map DeviceBuffer.bytes) hverify
  cached := hcached ▸ h.cached

theorem andThen_sized {before : GpuState × Bool} {next : GpuState → GpuState × Bool}
    (h : before.1.Sized firstLogn)
    (hnext : ∀ st : GpuState, st.Sized firstLogn → (next st).1.Sized firstLogn) :
    (andThen before next).1.Sized firstLogn := by
  unfold andThen
  split
  · exact hnext _ h
  · exact h

theorem createHandles_sized (h : st.Sized firstLogn) :
    (createHandles ok st).1.Sized firstLogn := by
  obtain ⟨stream, kernelDone, hhandles⟩ := createHandles_state ok st
  rw [hhandles]
  exact h.of_eq rfl rfl rfl

theorem ensureNttTables_sized (h : st.Sized firstLogn) :
    (ensureNttTables ok logn st).1.Sized firstLogn := by
  unfold ensureNttTables
  dsimp only
  split
  · exact h
  · exact h.of_eq rfl rfl rfl

theorem prepareBatch_sized (ok : Outcomes) (logn : ℕ) (h : st.Sized firstLogn) :
    (prepareBatch ok logn st).1.Sized firstLogn := by
  apply andThen_sized (createHandles_sized h)
  intro st h
  apply andThen_sized (ensureNttTables_sized h)
  intro st h
  split
  · exact h
  · exact h.of_eq rfl rfl rfl

/-- `ensure_ntt_tables` makes `ensure_h_hat` upload its key again. -/
theorem prepareBatch_cachedLogn (hready : (prepareBatch ok logn st).2 = true) :
    (prepareBatch ok logn st).1.cachedLogn = 0 := by
  have htables : ∀ st : GpuState, (ensureDeviceTables ok logn st).2 = true →
      (ensureDeviceTables ok logn st).1.cachedLogn = 0 := by
    intro st hready
    unfold ensureDeviceTables ensureNttTables andThen at hready ⊢
    dsimp only at hready ⊢
    split_ifs at hready ⊢ <;> first | rfl | contradiction
  unfold prepareBatch andThen at hready ⊢
  split_ifs at hready ⊢ with hhandles
  · exact htables _ hready
  · exact absurd hready hhandles

@[simp] theorem copyToDevice_bytes (copyOk : Bool) (src : Key) (count : ℕ)
    (buffer : Option DeviceBuffer) :
    (copyToDevice copyOk src count buffer).map DeviceBuffer.bytes =
      buffer.map DeviceBuffer.bytes := by
  cases buffer <;> rfl

theorem bytes_of_alloc {mallocOk : Bool} (hmalloc : mallocOk = true)
    {buffer : Option DeviceBuffer} {before : Option ℕ}
    (h : buffer.map DeviceBuffer.bytes = before.map fun logn => 2 * 2 ^ logn) :
    (if buffer.isNone then mallocBuffer mallocOk (2 * 2 ^ logn) else buffer).map
      DeviceBuffer.bytes = some (2 * 2 ^ before.getD logn) := by
  subst mallocOk
  cases before with
  | none =>
      rw [Option.map_eq_none_iff.mp h]
      rfl
  | some first =>
      obtain ⟨allocated, rfl, hbytes⟩ := Option.map_eq_some_iff.mp h
      exact congrArg some hbytes

theorem allocHHat_bytes (logn : ℕ) (h : st.Sized firstLogn) (hmalloc : ok .mallocHHat = true) :
    (allocHHat ok (2 ^ logn) st).dHHat.map DeviceBuffer.bytes =
      some (2 * 2 ^ (firstLogn .hHat).getD logn) := by
  have hbytes : st.dHHat.map DeviceBuffer.bytes = _ := h.bytes .hHat
  obtain ⟨hash, halloc⟩ := allocHHat_state ok (2 ^ logn) st
  rw [halloc]
  exact bytes_of_alloc hmalloc hbytes

theorem allocHVerify_bytes (logn : ℕ) (h : st.Sized firstLogn)
    (hmalloc : ok .mallocHVerify = true) :
    (allocHVerify ok (2 ^ logn) st).dHVerify.map DeviceBuffer.bytes =
      some (2 * 2 ^ (firstLogn .hVerify).getD logn) := by
  have hbytes : st.dHVerify.map DeviceBuffer.bytes = _ := h.bytes .hVerify
  rw [allocHVerify_state]
  exact bytes_of_alloc hmalloc hbytes

def KeyAccess.IsFor (access : KeyAccess) (logn first : ℕ) : Prop :=
  access.bytes = 2 * 2 ^ logn ∧ access.buffer.map DeviceBuffer.bytes = some (2 * 2 ^ first)

theorem KeyAccess.IsFor.inBounds_iff {access : KeyAccess} (h : access.IsFor logn first) :
    access.InBounds ↔ logn ≤ first := by
  obtain ⟨hbytes, hbuffer⟩ := h
  obtain ⟨buffer, hsome, hsize⟩ := Option.map_eq_some_iff.mp hbuffer
  have hpow : 2 * 2 ^ logn ≤ 2 * 2 ^ first ↔ logn ≤ first := by
    rw [Nat.mul_le_mul_left_iff (by decide), Nat.pow_le_pow_iff_right (by decide)]
  rw [← hpow, ← hbytes, ← hsize]
  constructor
  · rintro ⟨allocated, hallocated, hle⟩
    rw [hsome, Option.some.injEq] at hallocated
    exact hallocated ▸ hle
  · exact fun hle => ⟨buffer, hsome, hle⟩

theorem uploaded_bytes {copyOk : Bool} {allocated : Option DeviceBuffer} {copy : Option KeyAccess}
    (halloc : allocated.map DeviceBuffer.bytes = some (2 * 2 ^ first))
    (hcopy : ∀ access ∈ copy, access.IsFor logn first) :
    (uploaded copyOk key allocated copy).map DeviceBuffer.bytes = some (2 * 2 ^ first) := by
  cases copy with
  | none => exact halloc
  | some access => exact (copyToDevice_bytes _ _ _ _).trans (hcopy access rfl).2

/-- What `ensure_h_hat` and `ensure_h_verify` do for a call that needs its key if `needs`
holds: `copy` is their upload and `after` their result. -/
structure KeyEnsured (buffer : KeyBuffer) (logn : ℕ) (needs : Prop)
    (firstLogn : KeyBuffer → Option ℕ) (copy : Option KeyAccess) (after : GpuState × Bool) :
    Prop where
  copy_isFor : ∀ access ∈ copy, access.IsFor logn ((firstLogn buffer).getD logn)
  bytes : (after.1.keyBuffer buffer).map DeviceBuffer.bytes =
    some (2 * 2 ^ (firstLogn buffer).getD logn)
  hit : needs → copy = none → logn ≤ (firstLogn buffer).getD logn
  idle : ¬ needs → copy = none ∧ after.2 = false
  sized : (needs → logn ≤ (firstLogn buffer).getD logn) →
    after.1.Sized (Function.update firstLogn buffer (some ((firstLogn buffer).getD logn)))

/-- One buffer has been ensured, the other is as before. -/
theorem GpuState.Sized.update (h : st.Sized firstLogn) {buffer : KeyBuffer}
    (hbytes : (st'.keyBuffer buffer).map DeviceBuffer.bytes = some (2 * 2 ^ first))
    (hother : ∀ other ≠ buffer, st'.keyBuffer other = st.keyBuffer other)
    (hcached : st'.cachedVerifyLogn ≤
      ((Function.update firstLogn buffer (some first)) .hVerify).getD 0) :
    st'.Sized (Function.update firstLogn buffer (some first)) where
  bytes other := by
    by_cases hsame : other = buffer
    · subst other
      rw [hbytes, Function.update_self, Option.map_some]
    · rw [hother other hsame, h.bytes other, Function.update_of_ne hsame]
  cached := hcached

theorem GpuState.Sized.updateHHat (h : st.Sized firstLogn)
    (hbytes : st'.dHHat.map DeviceBuffer.bytes = some (2 * 2 ^ first))
    (hother : st'.dHVerify = st.dHVerify)
    (hcached : st'.cachedVerifyLogn = st.cachedVerifyLogn) :
    st'.Sized (Function.update firstLogn .hHat (some first)) := by
  refine h.update hbytes (fun other hne => ?_) ?_
  · cases other
    · exact absurd rfl hne
    · exact hother
  · rw [Function.update_of_ne (by decide), hcached]
    exact h.cached

theorem GpuState.Sized.updateHVerify (h : st.Sized firstLogn)
    (hbytes : st'.dHVerify.map DeviceBuffer.bytes = some (2 * 2 ^ first))
    (hother : st'.dHHat = st.dHHat) (hcached : st'.cachedVerifyLogn ≤ first) :
    st'.Sized (Function.update firstLogn .hVerify (some first)) := by
  refine h.update hbytes (fun other hne => ?_) ?_
  · cases other
    · exact hother
    · exact absurd rfl hne
  · rw [Function.update_self]
    exact hcached

theorem GpuState.Sized.le_first (h : st.Sized firstLogn) (hsame : st.cachedVerifyLogn = logn) :
    logn ≤ (firstLogn .hVerify).getD logn := by
  have hle := h.cached
  cases hfirst : firstLogn .hVerify with
  | none => rfl
  | some first =>
      rw [hfirst, Option.getD_some] at hle
      rw [Option.getD_some]
      omega

theorem hHatCopy_isFor (key : Key) (logn : ℕ) (h : st.Sized firstLogn)
    (hmalloc : ok .mallocHHat = true) :
    ∀ access ∈ hHatCopy ok key logn st, access.IsFor logn ((firstLogn .hHat).getD logn) := by
  intro access hmem
  simp only [Option.mem_def, hHatCopy] at hmem
  split_ifs at hmem
  obtain rfl := Option.some.inj hmem
  exact ⟨rfl, allocHHat_bytes logn h hmalloc⟩

theorem hVerifyCopy_isFor (key : Key) (logn : ℕ) (h : st.Sized firstLogn)
    (hmalloc : ok .mallocHVerify = true) :
    ∀ access ∈ hVerifyCopy ok key logn st,
      access.IsFor logn ((firstLogn .hVerify).getD logn) := by
  intro access hmem
  simp only [Option.mem_def, hVerifyCopy] at hmem
  split_ifs at hmem
  obtain rfl := Option.some.inj hmem
  exact ⟨rfl, allocHVerify_bytes logn h hmalloc⟩

/-- The key of a presign call is always uploaded, since its cache has been reset. -/
theorem ensureHHat_ensured (h : st.Sized firstLogn) (hmalloc : ok .mallocHHat = true)
    (hcached : st.cachedLogn = 0) (hlogn : 1 ≤ logn) :
    KeyEnsured .hHat logn (ok .hostHHat = true) firstLogn (hHatCopy ok key logn st)
      (ensureHHat ok key logn st) := by
  have hcopy := hHatCopy_isFor key logn h hmalloc
  have hbytes : (ensureHHat ok key logn st).1.dHHat.map DeviceBuffer.bytes =
      some (2 * 2 ^ (firstLogn .hHat).getD logn) := by
    rw [ensureHHat_dHHat]
    exact uploaded_bytes (allocHHat_bytes logn h hmalloc) hcopy
  obtain ⟨hash, hmiss, halloc⟩ := allocHHat_reset ok key hcached hlogn
  simp only [hHatCopy, ensureHHat, halloc, if_neg hmiss] at hcopy hbytes ⊢
  cases hhost : ok .hostHHat with
  | false =>
      rw [hhost] at hcopy hbytes
      exact ⟨hcopy, hbytes, fun hneeds => absurd hneeds (by simp), fun _ => ⟨rfl, rfl⟩,
        fun _ => h.updateHHat hbytes rfl rfl⟩
  | true =>
      rw [hhost] at hcopy hbytes
      exact ⟨hcopy, hbytes, fun _ hnone => absurd hnone (by simp), fun hneeds => absurd rfl hneeds,
        fun _ => h.updateHHat hbytes rfl rfl⟩

/-- The key of a verification call is found in the cache only if its `logn` fits. -/
theorem ensureHVerify_ensured (h : st.Sized firstLogn) (hmalloc : ok .mallocHVerify = true) :
    KeyEnsured .hVerify logn True firstLogn (hVerifyCopy ok key logn st)
      (ensureHVerify ok key logn st) := by
  have hcopy := hVerifyCopy_isFor key logn h hmalloc
  have hbytes : (ensureHVerify ok key logn st).1.dHVerify.map DeviceBuffer.bytes =
      some (2 * 2 ^ (firstLogn .hVerify).getD logn) := by
    rw [ensureHVerify_dHVerify]
    exact uploaded_bytes (allocHVerify_bytes logn h hmalloc) hcopy
  have halloc : (allocHVerify ok (2 ^ logn) st).dHHat = st.dHHat ∧
      (allocHVerify ok (2 ^ logn) st).cachedVerifyLogn = st.cachedVerifyLogn := by
    rw [allocHVerify_state]
    exact ⟨rfl, rfl⟩
  by_cases hhit : (allocHVerify ok (2 ^ logn) st).hVerifyHash = hashHCoeffs key (2 ^ logn) ∧
      (allocHVerify ok (2 ^ logn) st).cachedVerifyLogn = logn
  · have hfits := h.le_first (halloc.2.symm.trans hhit.2)
    simp only [hVerifyCopy, ensureHVerify, if_pos hhit] at hcopy hbytes ⊢
    exact ⟨hcopy, hbytes, fun _ _ => hfits, fun hneeds => absurd trivial hneeds,
      fun _ => h.updateHVerify hbytes halloc.1 (hhit.2.trans_le hfits)⟩
  · simp only [hVerifyCopy, ensureHVerify, if_neg hhit] at hcopy hbytes ⊢
    exact ⟨hcopy, hbytes, fun _ hnone => absurd hnone (by simp),
      fun hneeds => absurd trivial hneeds,
      fun hfits => h.updateHVerify hbytes halloc.1 (hfits trivial)⟩

theorem runBatch_ensured (errors : BatchErrors) {pointers sizes : Bool}
    {ensureKey : GpuState → GpuState × Bool} {buffer : KeyBuffer} {needs : Prop}
    {copy : Option KeyAccess} (haccepted : (pointers && sizes) = true)
    (hready : (prepareBatch ok logn st).2 = true)
    (hensured : KeyEnsured buffer logn needs firstLogn copy
      (ensureKey (prepareBatch ok logn st).1)) :
    let response := runBatch errors ok pointers sizes logn ensureKey (·.keyBuffer buffer) st
    response.state = (ensureKey (prepareBatch ok logn st).1).1 ∧
      ((∀ access ∈ copy.toList ++ response.launch.toList.map Launch.keyRead, access.InBounds) ↔
        (needs → logn ≤ (firstLogn buffer).getD logn)) := by
  intro response
  obtain ⟨hpointers, hsizes⟩ := Bool.and_eq_true_iff.mp haccepted
  have hsetup : setupBatch ok logn ensureKey st = ensureKey (prepareBatch ok logn st).1 :=
    if_pos hready
  -- The kernel gets the buffer as `ensureKey` has left it.
  have hread : ∀ launch, response.launch = some launch →
      launch.keyRead.IsFor logn ((firstLogn buffer).getD logn) ∧ needs := by
    intro launch hlaunch
    obtain ⟨-, -, hdone, hlogn, hkey⟩ := of_runBatch_launch hlaunch
    rw [hsetup] at hdone hkey
    refine ⟨⟨by rw [Launch.keyRead, hlogn], ?_⟩, ?_⟩
    · rw [Launch.keyRead, hkey]
      exact hensured.bytes
    · by_contra hneeds
      exact absurd (hdone.symm.trans (hensured.idle hneeds).2) (by simp)
  have haccess : ∀ access ∈ copy.toList ++ response.launch.toList.map Launch.keyRead,
      access.IsFor logn ((firstLogn buffer).getD logn) ∧ needs := by
    intro access hmem
    rcases List.mem_append.mp hmem with hcopy | hlaunch
    · have hcopy := Option.mem_toList.mp hcopy
      refine ⟨hensured.copy_isFor access hcopy, ?_⟩
      by_contra hneeds
      rw [(hensured.idle hneeds).1] at hcopy
      contradiction
    · obtain ⟨launch, hread', rfl⟩ := List.mem_map.mp hlaunch
      exact hread launch (Option.mem_toList.mp hread')
  refine ⟨?_, fun hbounds hneeds => ?_, fun hfits access hmem => ?_⟩
  · have hstate : response.state = _ := runBatch_state
    rw [hstate, if_pos ⟨hpointers, hsizes⟩, hsetup]
  · cases hcopy : copy with
    | none =>
        -- a hit in the cache, where the `logn` of the key is known to fit
        exact hensured.hit hneeds hcopy
    | some access =>
        have hmem : access ∈ copy.toList ++ response.launch.toList.map Launch.keyRead := by
          simp [hcopy]
        exact (haccess access hmem).1.inBounds_iff.mp (hbounds access hmem)
  · obtain ⟨hfor, hneeds⟩ := haccess access hmem
    exact hfor.inBounds_iff.mpr (hfits hneeds)

theorem runBatch_stopped (errors : BatchErrors) {pointers sizes : Bool}
    (ensureKey : GpuState → GpuState × Bool) (deviceKey : GpuState → Option DeviceBuffer)
    (h : st.Sized firstLogn)
    (hstop : ¬ ((pointers && sizes) = true ∧ (prepareBatch ok logn st).2 = true)) :
    let response := runBatch errors ok pointers sizes logn ensureKey deviceKey st
    response.launch = none ∧ response.state.Sized firstLogn := by
  intro response
  have hsetup : pointers = true → sizes = true →
      setupBatch ok logn ensureKey st = prepareBatch ok logn st := by
    intro hpointers hsizes
    exact if_neg fun hready => hstop ⟨by rw [hpointers, hsizes]; rfl, hready⟩
  constructor
  · by_contra hsome
    obtain ⟨launch, hlaunch⟩ := Option.ne_none_iff_exists'.mp hsome
    obtain ⟨hpointers, hsizes, hready, -⟩ := of_runBatch_launch hlaunch
    rw [hsetup hpointers hsizes] at hready
    exact hstop ⟨by rw [hpointers, hsizes]; rfl, hready⟩
  · have hstate : response.state = _ := runBatch_state
    rw [hstate]
    split
    · rename_i haccepted
      rw [hsetup haccepted.1 haccepted.2]
      exact prepareBatch_sized ok logn h
    · exact h

end Sizes

theorem one_le_logn {call : Call} (haccepted : call.accepted = true) : 1 ≤ call.logn := by
  have hsizes : ∀ logn tokens, validSizes logn tokens = true → 1 ≤ logn :=
    fun _ _ hvalid => (of_decide_eq_true hvalid).1
  cases call with
  | resetDevice => contradiction
  | generatePresignBank hCoeffs logn tokens banks =>
      exact hsizes logn tokens (Bool.and_eq_true_iff.mp haccepted).2
  | verifyRawBatch hNttMonty logn tokens banks =>
      exact hsizes logn tokens (Bool.and_eq_true_iff.mp haccepted).2
  | verifyCompressedBenchmarkBatch hNttMonty logn tokens sigStride banks =>
      exact hsizes logn tokens (Bool.and_eq_true_iff.mp (Bool.and_eq_true_iff.mp haccepted).2).1

section Requests

variable {request : Request} {st : GpuState} {firstLogn : KeyBuffer → Option ℕ}

/-- A call of a batch function, in terms of `runBatch`. -/
theorem batch_step {errors : BatchErrors} {pointers sizes : Bool}
    {ensureKey : GpuState → GpuState × Bool} {buffer : KeyBuffer} (needs : Prop)
    (hbuffer : request.call.keyBuffer = some buffer)
    (hperform : request.perform st = runBatch errors request.ok pointers sizes request.call.logn
      ensureKey (·.keyBuffer buffer) st)
    (haccepted : request.call.accepted = (pointers && sizes))
    (hneeds : request.GetsToKey st → (request.NeedsKey st ↔ needs))
    (h : st.Sized firstLogn)
    (hensured : request.GetsToKey st → KeyEnsured buffer request.call.logn needs firstLogn
      (request.keyCopy st) (ensureKey (prepareBatch request.ok request.call.logn st).1)) :
    ((∀ access ∈ request.keyAccesses st, access.InBounds) ↔ request.Fits st firstLogn) ∧
      (request.Fits st firstLogn →
        (request.perform st).state.Sized (request.noteLogn st firstLogn)) := by
  have hfits : request.Fits st firstLogn ↔
      (request.NeedsKey st → request.call.logn ≤ (firstLogn buffer).getD request.call.logn) := by
    rw [Request.Fits, hbuffer]
    exact ⟨fun hall => hall buffer rfl, fun hle other hsame => Option.some.inj hsame ▸ hle⟩
  have hnote : request.noteLogn st firstLogn = if request.GetsToKey st then
      Function.update firstLogn buffer (some ((firstLogn buffer).getD request.call.logn))
      else firstLogn := by
    rw [Request.noteLogn, hbuffer]
  rw [Request.keyAccesses, hperform, hnote]
  by_cases hgets : request.GetsToKey st
  · obtain ⟨hstate, hbounds⟩ := runBatch_ensured errors (haccepted ▸ hgets.1) hgets.2
      (hensured hgets)
    rw [hfits, hneeds hgets, if_pos hgets, hstate]
    exact ⟨hbounds, fun hle => (hensured hgets).sized hle⟩
  · have hcopy : request.keyCopy st = none := if_neg hgets
    obtain ⟨hlaunch, hsized⟩ := runBatch_stopped errors ensureKey (·.keyBuffer buffer) h
      fun hready => hgets ⟨haccepted ▸ hready.1, hready.2⟩
    rw [hfits, hcopy, hlaunch, if_neg hgets]
    exact ⟨⟨fun _ hneeds => absurd hneeds.1 hgets, by simp⟩, fun _ => hsized⟩

/-- One request: its accesses are inside the buffers if and only if it fits, and then the
buffers have the noted sizes again. -/
theorem request_step (hmalloc : request.ok.MallocSucceeds) (h : st.Sized firstLogn) :
    ((∀ access ∈ request.keyAccesses st, access.InBounds) ↔ request.Fits st firstLogn) ∧
      (request.Fits st firstLogn →
        (request.perform st).state.Sized (request.noteLogn st firstLogn)) := by
  obtain ⟨call, ok⟩ := request
  have hsized := prepareBatch_sized ok call.logn h
  cases call with
  | generatePresignBank hCoeffs logn tokens banks =>
      refine batch_step (ok .hostHHat = true) rfl rfl rfl (fun hgets => ?_) h fun hgets => ?_
      · exact ⟨fun hneeds => hneeds.2 rfl, fun hhost => ⟨hgets, fun _ => hhost⟩⟩
      · rw [Request.keyCopy, if_pos hgets]
        exact ensureHHat_ensured hsized (hmalloc .mallocHHat rfl) (prepareBatch_cachedLogn hgets.2)
          (one_le_logn hgets.1)
  | verifyRawBatch hNttMonty logn tokens banks =>
      refine batch_step True rfl rfl rfl (fun hgets => ?_) h fun hgets => ?_
      · exact ⟨fun _ => trivial, fun _ => ⟨hgets, fun hhat => by simp [Call.keyBuffer] at hhat⟩⟩
      · rw [Request.keyCopy, if_pos hgets]
        exact ensureHVerify_ensured hsized (hmalloc .mallocHVerify rfl)
  | verifyCompressedBenchmarkBatch hNttMonty logn tokens sigStride banks =>
      refine batch_step True rfl rfl rfl (fun hgets => ?_) h fun hgets => ?_
      · exact ⟨fun _ => trivial, fun _ => ⟨hgets, fun hhat => by simp [Call.keyBuffer] at hhat⟩⟩
      · rw [Request.keyCopy, if_pos hgets]
        exact ensureHVerify_ensured hsized (hmalloc .mallocHVerify rfl)
  | resetDevice =>
      refine ⟨⟨fun _ buffer hbuffer => by contradiction, fun _ access hmem => ?_⟩,
        fun _ => ⟨fun buffer => ?_, le_refl 0⟩⟩
      · exact absurd hmem List.not_mem_nil
      · cases buffer <;> rfl

theorem keyAccesses_inBounds_iff_of_sized (requests : List Request)
    (hmalloc : ∀ request ∈ requests, request.ok.MallocSucceeds) (h : st.Sized firstLogn) :
    (∀ access ∈ keyAccesses requests st, access.InBounds) ↔
      LognsFit requests st firstLogn := by
  induction requests generalizing st firstLogn with
  | nil => simp [keyAccesses, LognsFit]
  | cons request requests ih =>
      obtain ⟨hbounds, hsized⟩ := request_step (hmalloc request (by simp)) h
      -- Only after a request that fits are the sizes known.
      have hrest := fun hfits : request.Fits st firstLogn =>
        ih (fun other hother => hmalloc other (by simp [hother])) (hsized hfits)
      rw [keyAccesses, LognsFit, List.forall_mem_append, hbounds]
      exact and_congr_right hrest

end Requests

/-- If no `cudaMalloc` fails, the accesses to the key buffers stay inside them if and only
if no request that comes to the upload of its key has a larger `logn` than the first
request since the last reset that got to the same buffer. -/
theorem keyAccesses_inBounds_iff (requests : List Request)
    (hmalloc : ∀ request ∈ requests, request.ok.MallocSucceeds) :
    (∀ access ∈ keyAccesses requests .initial, access.InBounds) ↔
      LognsFit requests .initial fun _ => none :=
  keyAccesses_inBounds_iff_of_sized requests hmalloc
    ⟨fun buffer => by cases buffer <;> rfl, le_refl 0⟩

def verifyZeroKey (logn : ℕ) : Request where
  call := .verifyRawBatch (some fun _ => 0) logn 1 true
  ok _ := true

/-- The upload of a key of four words to a buffer of two. -/
theorem keyAccesses_larger :
    (∀ request ∈ [verifyZeroKey 1, verifyZeroKey 2], request.ok.MallocSucceeds) ∧
      ¬ ∀ access ∈ keyAccesses [verifyZeroKey 1, verifyZeroKey 2] .initial, access.InBounds := by
  refine ⟨fun request hrequest site _ => ?_, fun hbounds => ?_⟩
  · have hcases : request = verifyZeroKey 1 ∨ request = verifyZeroKey 2 := by
      simpa using hrequest
    rcases hcases with rfl | rfl <;> rfl
  · have hcopy : ((keyAccesses [verifyZeroKey 1, verifyZeroKey 2] .initial)[2]?.map fun access =>
        (access.bytes, access.buffer.map DeviceBuffer.bytes)) = some (8, some 4) := rfl
    obtain ⟨access, haccess, hsizes⟩ := Option.map_eq_some_iff.mp hcopy
    obtain ⟨buffer, hbuffer, hle⟩ := hbounds access (List.mem_of_getElem? haccess)
    rw [hbuffer, Option.map_some, Prod.mk.injEq, Option.some.injEq] at hsizes
    omega

def smallerKeys : List Request :=
  [verifyZeroKey 2, verifyZeroKey 1, ⟨.resetDevice, fun _ => true⟩, verifyZeroKey 3]

theorem keyAccesses_inBounds_iff_smaller :
    LognsFit smallerKeys .initial (fun _ => none) ∧
      ∀ access ∈ keyAccesses smallerKeys .initial, access.InBounds := by
  have hmalloc : ∀ request ∈ smallerKeys, request.ok.MallocSucceeds := by
    intro request hrequest site _
    have hcases : request = verifyZeroKey 2 ∨ request = verifyZeroKey 1 ∨
        request = ⟨.resetDevice, fun _ => true⟩ ∨ request = verifyZeroKey 3 := by
      simpa [smallerKeys] using hrequest
    rcases hcases with rfl | rfl | rfl | rfl <;> rfl
  have hfit : LognsFit smallerKeys .initial fun _ => none := by
    refine ⟨?_, ?_, ?_, ?_, trivial⟩
    · rintro buffer ⟨⟩ -
      decide
    · rintro buffer ⟨⟩ -
      decide +kernel
    · rintro buffer ⟨⟩
    · rintro buffer ⟨⟩ -
      decide
  exact ⟨hfit, (keyAccesses_inBounds_iff smallerKeys hmalloc).mpr hfit⟩

end Soko.Gpu
