import Soko.Gpu.TableCache

/-!
The launch of `kernel_generate_samples_and_targets`, after any calls before it. As long
as no CUDA call fails, the kernel runs with the key of its own call, with both tables
and with the factor for its own `logn`: `ensure_ntt_tables` stores the factor again in
every call, and clears the `logn` that `ensure_h_hat` would skip its upload for.
-/

namespace Soko.Gpu

/-- What `kernel_generate_samples_and_targets` needs for a key. -/
structure Launch.IsFor (launch : Launch) (h : Key) (logn : ℕ) : Prop where
  degree : launch.logn = logn
  key : Filled launch.deviceKey (mqPolyTomontyHost logn (mqNttHost Gpu.gmb logn h)) (2 ^ logn)
  gmb : Filled launch.gmb Gpu.gmb 1024
  igmb : Filled launch.igmb Gpu.igmb 1024
  nInv : Reduced launch.nInv ∧ 2 ^ logn * (residue launch.nInv * montyInverse) = 1

/-- The buffer behind a pointer has been allocated by one of the requests, and from then
on the pointer has not been null and the device has not been reset. -/
def AllocatedSinceReset (pointer : GpuState → Option DeviceBuffer) (requests : List Request) :
    Prop :=
  ∃ before request after, requests = before ++ request :: after ∧
    (∀ r ∈ request :: after, r.call ≠ .resetDevice) ∧
    pointer (runRequests before .initial) = none ∧
    ∀ later, later <+: after →
      (pointer (runRequests (before ++ request :: later) .initial)).isSome = true

/-- For a pointer that is null at first and after every reset. -/
theorem allocatedSinceReset {pointer : GpuState → Option DeviceBuffer}
    (hinitial : pointer .initial = none)
    (hreset : ∀ ok st, pointer (oofalconGpuResetDevice ok st).state = none)
    (requests : List Request)
    (hsome : (pointer (runRequests requests .initial)).isSome = true) :
    AllocatedSinceReset pointer requests := by
  induction requests using List.reverseRecOn with
  | nil =>
      have hnone : pointer (runRequests [] .initial) = none := hinitial
      rw [hnone] at hsome
      contradiction
  | append_singleton requests request ih =>
      have hcall : request.call ≠ .resetDevice := by
        intro hcall
        rw [runRequests_append, Request.perform, hcall, hreset] at hsome
        contradiction
      cases hbefore : pointer (runRequests requests .initial) with
      | none =>
          refine ⟨requests, request, [], rfl, by simpa using hcall, hbefore, fun later hlater => ?_⟩
          rw [List.prefix_nil.mp hlater]
          exact hsome
      | some buffer =>
          -- allocated earlier, with no reset up to this request
          obtain ⟨before, first, after, rfl, hcalls, hnone, hkept⟩ := ih (by rw [hbefore]; rfl)
          refine ⟨before, first, after ++ [request], by simp, fun r hr => ?_, hnone,
            fun later hlater => ?_⟩
          · rw [← List.cons_append, List.mem_append, List.mem_singleton] at hr
            rcases hr with hr | rfl
            · exact hcalls r hr
            · exact hcall
          · rcases List.prefix_concat_iff.mp hlater with rfl | hlater
            · simpa using hsome
            · exact hkept later hlater

theorem perform_tableCache_valid {request : Request} (hcuda : request.ok.CudaSucceeds)
    {st : GpuState} (h : st.tableCache.Valid) :
    (request.perform st).state.tableCache.Valid := by
  by_cases hcall : request.call = .resetDevice
  · rw [Request.perform, hcall]
    exact ⟨h.gmbHost, h.igmbHost, fun hcached => absurd hcached.1 Bool.false_ne_true⟩
  · by_cases hgets : request.GetsToKey st
    · obtain ⟨st', hprepared, -, hstate, -⟩ := perform_getsToKey h hgets
      rw [hstate, ensureKey_tableCache, hprepared.tableCache_valid_iff h]
      exact fun _ _ _ => ⟨hcuda .copyGmb rfl, hcuda .copyIgmb rfl⟩
    · rw [(perform_stopped hcall h hgets).2.1]
      exact h

theorem runRequests_tableCache_valid (requests : List Request)
    (hcuda : ∀ request ∈ requests, request.ok.CudaSucceeds) :
    (runRequests requests .initial).tableCache.Valid := by
  induction requests using List.reverseRecOn with
  | nil =>
      exact ⟨fun _ hgmb => by contradiction, fun _ higmb => by contradiction,
        fun hcached => absurd hcached.1 Bool.false_ne_true⟩
  | append_singleton requests request ih =>
      rw [runRequests_append]
      exact perform_tableCache_valid (hcuda request (by simp))
        (ih fun r hr => hcuda r (by simp [hr]))

theorem perform_presign_launch {request : Request} (hcuda : request.ok.CudaSucceeds)
    {hCoeffs : Option Key} {logn : ℕ} {tokens : ℤ} {banks : Bool}
    (hcall : request.call = .generatePresignBank hCoeffs logn tokens banks) {st : GpuState}
    (h : st.tableCache.Valid) {launch : Launch}
    (hlaunch : (request.perform st).launch = some launch) :
    launch = (request.perform st).state.launch logn .hHat ∧
      ∃ key, hCoeffs = some key ∧ launch.IsFor key logn := by
  have hgets : request.GetsToKey st := by
    by_contra hstop
    rw [(perform_stopped (by rw [hcall]; simp) h hstop).1] at hlaunch
    contradiction
  obtain ⟨st', hprepared, -, hstate, hread⟩ := perform_getsToKey h hgets
  obtain ⟨hready, buffer, hbuffer, rfl⟩ := hread launch hlaunch
  have haccepted := hgets.1
  have hlogn := one_le_logn haccepted
  simp only [hcall, Call.keyBuffer, Call.accepted, Call.logn, Option.some.injEq,
    Bool.and_eq_true] at hbuffer haccepted hlogn hprepared ⊢
  subst buffer
  obtain ⟨key, rfl⟩ := Option.isSome_iff_exists.mp haccepted.1.1
  have hkey : request.ensureKey = ensureHHat request.ok key logn := by
    rw [Request.ensureKey, hcall]
    rfl
  rw [hkey] at hstate hready
  have htables : (request.perform st).state.tableCache = st'.tableCache := by
    rw [hstate, ensureHHat_tableCache]
  obtain ⟨hgmb, higmb⟩ := hprepared.filled h fun _ =>
    ⟨hcuda .copyGmb rfl, hcuda .copyIgmb rfl, .inr (hcuda .mallocGmb rfl),
      .inr (hcuda .mallocIgmb rfl)⟩
  refine ⟨rfl, key, rfl, rfl, ?_, ?_, ?_, ?_⟩
  · show Filled (request.perform st).state.dHHat _ _
    rw [hstate]
    exact ensureHHat_filled hprepared.cachedLogn hlogn hprepared.gmbHost hready
      (.inr (hcuda .mallocHHat rfl)) (hcuda .copyHHat rfl)
  · show Filled (request.perform st).state.tableCache.gmb _ _
    rw [htables]
    exact hgmb
  · show Filled (request.perform st).state.tableCache.igmb _ _
    rw [htables]
    exact higmb
  · -- the factor belongs to the host tables, which the key leaves as they are
    have hnInv : (request.perform st).state.nttHost.nInv = nInv logn :=
      (congrArg (fun cache => cache.host.nInv) htables).trans hprepared.nInv
    rw [GpuState.launch, hnInv]
    exact nInv_spec logn

/-- After any calls, without failures of CUDA, a presign call launches its kernel with the
transform of its own key, with both tables and with the factor for its own `logn`, and the
three buffers have been allocated after the last reset. -/
theorem presign_launch {requests : List Request} {request : Request}
    (hcuda : ∀ r ∈ requests ++ [request], r.ok.CudaSucceeds) {hCoeffs : Option Key} {logn : ℕ}
    {tokens : ℤ} {banks : Bool}
    (hcall : request.call = .generatePresignBank hCoeffs logn tokens banks) {launch : Launch}
    (hlaunch : (request.perform (runRequests requests .initial)).launch = some launch) :
    (∃ key, hCoeffs = some key ∧ launch.IsFor key logn) ∧
      launch = (runRequests (requests ++ [request]) .initial).launch logn .hHat ∧
      AllocatedSinceReset GpuState.dHHat (requests ++ [request]) ∧
      AllocatedSinceReset GpuState.dGmb (requests ++ [request]) ∧
      AllocatedSinceReset GpuState.dIgmb (requests ++ [request]) := by
  obtain ⟨hafter, key, hkey, hfor⟩ := perform_presign_launch (hcuda request (by simp)) hcall
    (runRequests_tableCache_valid requests fun r hr => hcuda r (by simp [hr])) hlaunch
  rw [← runRequests_append] at hafter
  refine ⟨⟨key, hkey, hfor⟩, hafter, allocatedSinceReset rfl (fun _ _ => rfl) _ ?_,
    allocatedSinceReset rfl (fun _ _ => rfl) _ ?_, allocatedSinceReset rfl (fun _ _ => rfl) _ ?_⟩
  · obtain ⟨buffer, hbuffer, -⟩ := hfor.key
    rw [hafter] at hbuffer
    exact Option.isSome_of_mem hbuffer
  · obtain ⟨buffer, hbuffer, -⟩ := hfor.gmb
    rw [hafter] at hbuffer
    exact Option.isSome_of_mem hbuffer
  · obtain ⟨buffer, hbuffer, -⟩ := hfor.igmb
    rw [hafter] at hbuffer
    exact Option.isSome_of_mem hbuffer

def presignWith (key : Key) (logn : ℕ) : Request where
  call := .generatePresignBank (some key) logn 1 true
  ok _ := true

def earlierCalls : List Request :=
  [presignWith (fun _ => 5) 3, ⟨.resetDevice, fun _ => true⟩, verifyZeroKey 2,
    presignWith (fun _ => 7) 1]

theorem presign_launch_earlierCalls :
    ∃ launch, ((presignWith (fun _ => 5) 2).perform (runRequests earlierCalls .initial)).launch =
        some launch ∧
      launch.IsFor (fun _ => 5) 2 ∧
      AllocatedSinceReset GpuState.dHHat (earlierCalls ++ [presignWith (fun _ => 5) 2]) := by
  have hcuda : ∀ r ∈ earlierCalls ++ [presignWith (fun _ => 5) 2], r.ok.CudaSucceeds := by
    intro r hr site _
    have hcases : r = presignWith (fun _ => 5) 3 ∨ r = ⟨.resetDevice, fun _ => true⟩ ∨
        r = verifyZeroKey 2 ∨ r = presignWith (fun _ => 7) 1 ∨ r = presignWith (fun _ => 5) 2 := by
      simpa [earlierCalls] using hr
    rcases hcases with rfl | rfl | rfl | rfl | rfl <;> rfl
  have hsome : ((presignWith (fun _ => 5) 2).perform
      (runRequests earlierCalls .initial)).launch.isSome = true := rfl
  obtain ⟨launch, hlaunch⟩ := Option.isSome_iff_exists.mp hsome
  obtain ⟨⟨key, hkey, hfor⟩, -, hallocated, -⟩ := presign_launch hcuda rfl hlaunch
  obtain rfl := Option.some.inj hkey
  exact ⟨launch, hlaunch, hfor, hallocated⟩

end Soko.Gpu
