import Soko.Gpu.KeyBuffers

/-!
The cache of the tables. `ensure_device_tables` copies both tables if one of the two
pointers is null, so that two pointers that are not null lead to two full tables unless
a copy has failed.
-/

namespace Soko.Gpu

/-- The pointer leads to the words of a key, or of a table. -/
def Filled (pointer : Option DeviceBuffer) (key : Key) (n : ℕ) : Prop :=
  ∃ buffer, pointer = some buffer ∧ buffer.HoldsKey key n

/-- The globals of `ensure_ntt_tables` and `ensure_device_tables`. -/
structure TableCache where
  host : NttTablesHost
  gmb : Option DeviceBuffer
  igmb : Option DeviceBuffer

def GpuState.tableCache (st : GpuState) : TableCache where
  host := st.nttHost
  gmb := st.dGmb
  igmb := st.dIgmb

/-- Neither pointer is null: the upload is skipped. -/
abbrev TableCache.Cached (cache : TableCache) : Prop :=
  cache.gmb.isSome = true ∧ cache.igmb.isSome = true

/-- The tables on the host are either missing or complete, and those on the device are
complete if they are cached. -/
structure TableCache.Valid (cache : TableCache) : Prop where
  gmbHost : ∀ table, cache.host.gmb = some table → table = Gpu.gmb
  igmbHost : ∀ table, cache.host.igmb = some table → table = Gpu.igmb
  filled : cache.Cached → Filled cache.gmb Gpu.gmb 1024 ∧ Filled cache.igmb Gpu.igmb 1024

theorem filled_copyToDevice {copyOk : Bool} {key : Key} {n : ℕ} (hn : 0 < n)
    {pointer : Option DeviceBuffer} :
    Filled (copyToDevice copyOk key n pointer) key n ↔ pointer.isSome = true ∧ copyOk = true := by
  cases pointer with
  | none => simp [Filled, copyToDevice]
  | some buffer =>
      constructor
      · rintro ⟨copied, hcopied, hholds⟩
        obtain rfl := Option.some.inj hcopied
        have hfirst := hholds 0 hn
        cases copyOk with
        | true => exact ⟨rfl, rfl⟩
        | false => simp [hn] at hfirst
      · rintro ⟨-, rfl⟩
        exact ⟨_, rfl, fun j hj => by simp [hj]⟩

@[simp] theorem isSome_uploadTable {mallocOk copyOk : Bool} {table : Option Key}
    {pointer : Option DeviceBuffer} :
    (uploadTable mallocOk copyOk table pointer).isSome = true ↔
      pointer.isSome = true ∨ mallocOk = true := by
  cases pointer <;> cases mallocOk <;> simp [uploadTable, copyToDevice, mallocBuffer]

@[simp] theorem filled_uploadTable {mallocOk copyOk : Bool} {table : Key}
    {pointer : Option DeviceBuffer} :
    Filled (uploadTable mallocOk copyOk (some table) pointer) table 1024 ↔
      (pointer.isSome = true ∨ mallocOk = true) ∧ copyOk = true := by
  rw [uploadTable, Option.getD_some, filled_copyToDevice (by decide)]
  cases pointer <;> cases mallocOk <;> simp [mallocBuffer]

/-- What a successful preparation has done for a call with `logn`. -/
structure Prepared (ok : Outcomes) (logn : ℕ) (st st' : GpuState) : Prop where
  gmbHost : st'.nttHost.gmb = some gmb
  igmbHost : st'.nttHost.igmb = some igmb
  nInv : st'.nttHost.nInv = nInv logn
  cachedLogn : st'.cachedLogn = 0
  dGmb : st'.dGmb = if st.tableCache.Cached then st.dGmb
    else uploadTable (ok .mallocGmb) (ok .copyGmb) (some gmb) st.dGmb
  dIgmb : st'.dIgmb = if st.tableCache.Cached then st.dIgmb
    else uploadTable (ok .mallocIgmb) (ok .copyIgmb) (some igmb) st.dIgmb
  dHHat : st'.dHHat = st.dHHat
  verifyCache : st'.verifyCache = st.verifyCache

section Prepare

variable (ok : Outcomes) (logn : ℕ) {st st' : GpuState}

/-- `ensure_ntt_tables` fails and does nothing, or makes the tables that are missing. -/
theorem ensureNttTables_cases (h : st.tableCache.Valid) :
    ensureNttTables ok logn st = (st, false) ∨
      ensureNttTables ok logn st =
        ({ st with
            nttHost :=
              { logn, n := 2 ^ logn, nInv := nInv logn, gmb := some gmb, igmb := some igmb }
            cachedLogn := 0 }, true) := by
  unfold ensureNttTables
  dsimp only
  split
  · exact .inl rfl
  · right
    -- a table that is not missing is complete already
    cases hgmb : st.nttHost.gmb with
    | none => simp
    | some table =>
        obtain rfl : table = gmb := h.gmbHost table hgmb
        cases higmb : st.nttHost.igmb with
        | none => simp
        | some table =>
            obtain rfl : table = igmb := h.igmbHost table higmb
            simp

theorem prepareBatch_cases (h : st.tableCache.Valid) :
    ((prepareBatch ok logn st).2 = false ∧
        (prepareBatch ok logn st).1.tableCache = st.tableCache ∧
        (prepareBatch ok logn st).1.verifyCache = st.verifyCache) ∨
      ((prepareBatch ok logn st).2 = true ∧ Prepared ok logn st (prepareBatch ok logn st).1) := by
  obtain ⟨stream, kernelDone, hhandles⟩ := createHandles_state ok st
  rw [prepareBatch, andThen]
  split
  · rw [hhandles, ensureDeviceTables, andThen]
    have hvalid : ({ st with stream, kernelDone } : GpuState).tableCache.Valid :=
      ⟨h.gmbHost, h.igmbHost, h.filled⟩
    rcases ensureNttTables_cases ok logn hvalid with hfail | hmade
    · rw [hfail]
      exact .inl ⟨rfl, rfl, rfl⟩
    · rw [hmade]
      right
      dsimp only
      by_cases hcached : st.dGmb.isSome = true ∧ st.dIgmb.isSome = true
      · rw [if_pos rfl, if_pos hcached]
        exact ⟨rfl, rfl, rfl, rfl, rfl, (if_pos hcached).symm, (if_pos hcached).symm, rfl, rfl⟩
      · rw [if_pos rfl, if_neg hcached]
        exact ⟨rfl, rfl, rfl, rfl, rfl, (if_neg hcached).symm, (if_neg hcached).symm, rfl, rfl⟩
  · rename_i hfail
    rw [hhandles]
    exact .inl ⟨Bool.eq_false_of_not_eq_true hfail, rfl, rfl⟩

variable {ok logn}

/-- The tables are valid again, if and only if the upload has not failed or has left a
pointer null. -/
theorem Prepared.tableCache_valid_iff (hprepared : Prepared ok logn st st')
    (h : st.tableCache.Valid) :
    st'.tableCache.Valid ↔
      (¬ st.tableCache.Cached → st.dGmb.isSome = true ∨ ok .mallocGmb = true →
        st.dIgmb.isSome = true ∨ ok .mallocIgmb = true →
        ok .copyGmb = true ∧ ok .copyIgmb = true) := by
  have hhost : st'.tableCache.Valid ↔
      (st'.tableCache.Cached → Filled st'.dGmb gmb 1024 ∧ Filled st'.dIgmb igmb 1024) := by
    refine ⟨TableCache.Valid.filled, fun hfilled => ⟨fun table htable => ?_, fun table htable => ?_,
      hfilled⟩⟩
    · exact (Option.some.inj (hprepared.gmbHost.symm.trans htable)).symm
    · exact (Option.some.inj (hprepared.igmbHost.symm.trans htable)).symm
  have hgmb := hprepared.dGmb
  have higmb := hprepared.dIgmb
  rw [hhost]
  by_cases hcached : st.tableCache.Cached
  · rw [if_pos hcached] at hgmb higmb
    rw [hgmb, higmb]
    exact ⟨fun _ hmiss => absurd hcached hmiss, fun _ _ => h.filled hcached⟩
  · rw [if_neg hcached] at hgmb higmb
    show (st'.dGmb.isSome = true ∧ st'.dIgmb.isSome = true → _) ↔ _
    rw [hgmb, higmb, isSome_uploadTable, isSome_uploadTable, filled_uploadTable,
      filled_uploadTable]
    constructor
    · intro hvalid _ hgmb higmb
      obtain ⟨⟨-, hcopyGmb⟩, -, hcopyIgmb⟩ := hvalid ⟨hgmb, higmb⟩
      exact ⟨hcopyGmb, hcopyIgmb⟩
    · rintro hclean ⟨hgmb, higmb⟩
      obtain ⟨hcopyGmb, hcopyIgmb⟩ := hclean hcached hgmb higmb
      exact ⟨⟨hgmb, hcopyGmb⟩, higmb, hcopyIgmb⟩

/-- After an upload without failure both pointers lead to the tables. -/
theorem Prepared.filled (hprepared : Prepared ok logn st st') (h : st.tableCache.Valid)
    (hupload : ¬ st.tableCache.Cached → ok .copyGmb = true ∧ ok .copyIgmb = true ∧
      (st.dGmb.isSome = true ∨ ok .mallocGmb = true) ∧
      (st.dIgmb.isSome = true ∨ ok .mallocIgmb = true)) :
    Filled st'.dGmb gmb 1024 ∧ Filled st'.dIgmb igmb 1024 := by
  rw [hprepared.dGmb, hprepared.dIgmb]
  by_cases hcached : st.tableCache.Cached
  · rw [if_pos hcached, if_pos hcached]
    exact h.filled hcached
  · obtain ⟨hcopyGmb, hcopyIgmb, hgmb, higmb⟩ := hupload hcached
    rw [if_neg hcached, if_neg hcached, filled_uploadTable, filled_uploadTable]
    exact ⟨⟨hgmb, hcopyGmb⟩, higmb, hcopyIgmb⟩

end Prepare

/-! The functions for the keys leave the tables alone. -/

/-- A pointer is not null after its allocation if it was not null before, or else the
allocation succeeds. -/
theorem isSome_alloc {mallocOk : Bool} {bytes : ℕ} {pointer : Option DeviceBuffer} :
    (if pointer.isNone then mallocBuffer mallocOk bytes else pointer).isSome = true ↔
      pointer.isSome = true ∨ mallocOk = true := by
  cases pointer <;> cases mallocOk <;> simp [mallocBuffer]

theorem ensureHHat_tableCache (ok : Outcomes) (hCoeffs : Key) (logn : ℕ) (st : GpuState) :
    (ensureHHat ok hCoeffs logn st).1.tableCache = st.tableCache := by
  obtain ⟨hash, halloc⟩ := allocHHat_state ok (2 ^ logn) st
  simp only [ensureHHat, halloc]
  split
  · rfl
  · split <;> rfl

theorem ensureHVerify_tableCache (ok : Outcomes) (hNttMonty : Key) (logn : ℕ) (st : GpuState) :
    (ensureHVerify ok hNttMonty logn st).1.tableCache = st.tableCache := by
  simp only [ensureHVerify, allocHVerify_state]
  generalize (if st.dHVerify.isNone = true then 0 else st.hVerifyHash) = hash
  split <;> rfl

/-- A presign call finds no key in the cache, so that it uploads its own. -/
theorem ensureHHat_filled {ok : Outcomes} {hCoeffs : Key} {logn : ℕ} {st : GpuState}
    (hcached : st.cachedLogn = 0) (hlogn : 1 ≤ logn) (htable : st.nttHost.gmb = some gmb)
    (hready : (ensureHHat ok hCoeffs logn st).2 = true)
    (hmalloc : st.dHHat.isSome = true ∨ ok .mallocHHat = true) (hcopy : ok .copyHHat = true) :
    Filled (ensureHHat ok hCoeffs logn st).1.dHHat (preparedKey logn hCoeffs) (2 ^ logn) := by
  obtain ⟨hash, hmiss, halloc⟩ := allocHHat_reset ok hCoeffs hcached hlogn
  simp only [ensureHHat, halloc, if_neg hmiss] at hready ⊢
  cases hhost : ok .hostHHat with
  | false => simp [hhost] at hready
  | true =>
      simp only [htable, Option.getD_some, not_true_eq_false, if_false]
      exact (filled_copyToDevice (Nat.two_pow_pos logn)).mpr ⟨isSome_alloc.mpr hmalloc, hcopy⟩

/-! Requests in terms of their preparation and their key. -/

def Request.ensureKey (request : Request) : GpuState → GpuState × Bool :=
  match request.call with
  | .generatePresignBank hCoeffs logn _ _ =>
      ensureHHat request.ok (hCoeffs.getD fun _ => 0) logn
  | .verifyRawBatch hNttMonty logn _ _ =>
      ensureHVerify request.ok (hNttMonty.getD fun _ => 0) logn
  | .verifyCompressedBenchmarkBatch hNttMonty logn _ _ _ =>
      ensureHVerify request.ok (hNttMonty.getD fun _ => 0) logn
  | .resetDevice => fun st => (st, true)

@[simp] theorem ensureKey_tableCache (request : Request) (st : GpuState) :
    (request.ensureKey st).1.tableCache = st.tableCache := by
  obtain ⟨call, ok⟩ := request
  cases call with
  | generatePresignBank hCoeffs logn => exact ensureHHat_tableCache ok _ logn st
  | verifyRawBatch hNttMonty logn => exact ensureHVerify_tableCache ok _ logn st
  | verifyCompressedBenchmarkBatch hNttMonty logn => exact ensureHVerify_tableCache ok _ logn st
  | resetDevice => rfl

def GpuState.launch (st : GpuState) (logn : ℕ) (buffer : KeyBuffer) : Launch where
  logn := logn
  deviceKey := st.keyBuffer buffer
  gmb := st.dGmb
  igmb := st.dIgmb
  nInv := st.nttHost.nInv

/-- A call of a batch function, in terms of `runBatch`. -/
structure Request.Batch (request : Request) (errors : BatchErrors) (pointers sizes : Bool)
    (buffer : KeyBuffer) : Prop where
  keyBuffer : request.call.keyBuffer = some buffer
  accepted : request.call.accepted = (pointers && sizes)
  null : errors.null ≠ 0
  size : errors.size ≠ 0
  setup : errors.setup ≠ 0
  launch : firstFailure request.ok errors.after = 0 → request.ok .launch = true
  perform : ∀ st, request.perform st = runBatch errors request.ok pointers sizes
    request.call.logn request.ensureKey (·.keyBuffer buffer) st

theorem ok_of_firstFailure_cons {ok : Outcomes} {site : Site} {code : ℕ} (hcode : code ≠ 0)
    {rest : List (Site × ℕ)} (h : firstFailure ok ((site, code) :: rest) = 0) :
    ok site = true := by
  by_contra hfail
  rw [firstFailure, if_neg hfail] at h
  exact hcode h

theorem exists_batch {request : Request} (hcall : request.call ≠ .resetDevice) :
    ∃ errors pointers sizes buffer, request.Batch errors pointers sizes buffer := by
  obtain ⟨call, ok⟩ := request
  cases call with
  | generatePresignBank hCoeffs logn tokens banks =>
      exact ⟨_, _, _, .hHat, rfl, rfl, by decide, by decide, by decide,
        ok_of_firstFailure_cons (by decide), fun _ => rfl⟩
  | verifyRawBatch hNttMonty logn tokens banks =>
      exact ⟨_, _, _, .hVerify, rfl, rfl, by decide, by decide, by decide,
        ok_of_firstFailure_cons (by decide), fun _ => rfl⟩
  | verifyCompressedBenchmarkBatch hNttMonty logn tokens sigStride banks =>
      exact ⟨_, _, _, .hVerify, rfl, rfl, by decide, by decide, by decide,
        ok_of_firstFailure_cons (by decide), fun _ => rfl⟩
  | resetDevice => exact absurd rfl hcall

section Requests

variable {request : Request} {st : GpuState}

theorem perform_code_eq_zero (hcall : request.call ≠ .resetDevice)
    (hcode : (request.perform st).code = 0) :
    (request.perform st).launch.isSome = true ∧ request.ok .launch = true := by
  obtain ⟨errors, pointers, sizes, buffer, hbatch⟩ := exists_batch hcall
  rw [hbatch.perform] at hcode ⊢
  obtain ⟨hlaunch, hafter⟩ :=
    of_runBatch_code_eq_zero hbatch.null hbatch.size hbatch.setup hcode
  exact ⟨hlaunch, hbatch.launch hafter⟩

/-- A call that stops before its key launches nothing and leaves the caches alone. -/
theorem perform_stopped (hcall : request.call ≠ .resetDevice) (h : st.tableCache.Valid)
    (hstop : ¬ request.GetsToKey st) :
    (request.perform st).launch = none ∧ (request.perform st).state.tableCache = st.tableCache ∧
      (request.perform st).state.verifyCache = st.verifyCache := by
  obtain ⟨errors, pointers, sizes, buffer, hbatch⟩ := exists_batch hcall
  have hready : pointers = true → sizes = true →
      (prepareBatch request.ok request.call.logn st).2 = false := by
    intro hpointers hsizes
    refine Bool.eq_false_of_not_eq_true fun hready => hstop ⟨?_, hready⟩
    rw [hbatch.accepted, hpointers, hsizes]
    rfl
  have hsetup : pointers = true → sizes = true →
      setupBatch request.ok request.call.logn request.ensureKey st =
        prepareBatch request.ok request.call.logn st :=
    fun hpointers hsizes => if_neg (by
      rw [← prepareBatch, hready hpointers hsizes]
      exact Bool.false_ne_true)
  rw [hbatch.perform]
  refine ⟨?_, ?_⟩
  · by_contra hsome
    obtain ⟨launch, hlaunch⟩ := Option.ne_none_iff_exists'.mp hsome
    obtain ⟨hpointers, hsizes, hdone, -⟩ := of_runBatch_launch hlaunch
    rw [hsetup hpointers hsizes, hready hpointers hsizes] at hdone
    contradiction
  · rw [runBatch_state]
    split
    · rename_i haccepted
      rw [hsetup haccepted.1 haccepted.2]
      rcases prepareBatch_cases request.ok request.call.logn h with ⟨-, hcaches⟩ | ⟨htrue, -⟩
      · exact hcaches
      · rw [hready haccepted.1 haccepted.2] at htrue
        contradiction
    · exact ⟨rfl, rfl⟩

theorem perform_getsToKey (h : st.tableCache.Valid) (hgets : request.GetsToKey st) :
    ∃ st', Prepared request.ok request.call.logn st st' ∧
      (prepareBatch request.ok request.call.logn st).1 = st' ∧
      (request.perform st).state = (request.ensureKey st').1 ∧
      ∀ launch, (request.perform st).launch = some launch →
        (request.ensureKey st').2 = true ∧ ∃ buffer, request.call.keyBuffer = some buffer ∧
          launch = (request.perform st).state.launch request.call.logn buffer := by
  obtain ⟨haccepted, hready⟩ := hgets
  have hcall : request.call ≠ .resetDevice := by
    intro hreset
    rw [hreset] at haccepted
    contradiction
  obtain ⟨errors, pointers, sizes, buffer, hbatch⟩ := exists_batch hcall
  have hsetup : setupBatch request.ok request.call.logn request.ensureKey st =
      request.ensureKey (prepareBatch request.ok request.call.logn st).1 := if_pos hready
  rcases prepareBatch_cases request.ok request.call.logn h with ⟨hfail, -⟩ | ⟨-, hprepared⟩
  · rw [hfail] at hready
    contradiction
  · refine ⟨_, hprepared, rfl, ?_, fun launch hlaunch => ?_⟩
    · rw [hbatch.accepted, Bool.and_eq_true_iff] at haccepted
      rw [hbatch.perform, runBatch_state, if_pos haccepted, hsetup]
    · rw [hbatch.perform] at hlaunch ⊢
      obtain ⟨-, -, hdone, -⟩ := of_runBatch_launch hlaunch
      rw [hsetup] at hdone
      exact ⟨hdone, buffer, hbatch.keyBuffer, runBatch_launch_eq hlaunch⟩

end Requests

end Soko.Gpu
