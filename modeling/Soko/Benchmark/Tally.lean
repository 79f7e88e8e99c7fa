import Soko.Benchmark.Backends

/-!
What the drivers count. The online loop counts a token that it cannot sign as a failure,
and leaves it with a signature of length 0. The full GPU back end counts this signature
too, so that the token fails twice; with the others every token is counted once.
-/

namespace Soko.Benchmark

open Soko.Library Soko.Shake Soko.Signature Soko.Gpu

section Signing

variable {run : OnlineRun}

theorem stored_getD {t : ℕ} (hverify : run.verifySignatures = true) :
    decide (((run.signToken t).getD []).length ≠ 0) = run.signed t := by
  unfold OnlineRun.signed
  cases hsign : run.signToken t with
  | none => rfl
  | some sig =>
      rw [OnlineRun.signToken, if_pos hverify, signTokenToSignature,
        Option.bind_eq_some_iff] at hsign
      obtain ⟨es, -, hsig⟩ := hsign
      split at hsig
      · contradiction
      · obtain rfl := Option.some.inj hsig
        simp

/-- What an online loop has done to the tokens of the run. -/
structure OnlineState.Signs (s : OnlineState) (run : OnlineRun) : Prop where
  signSuccess : s.signSuccess = run.count run.signed
  fail : s.fail = run.count fun t => !run.signed t
  sigs : run.verifySignatures = true → ∀ t < run.tokens, s.sigs t = (run.signToken t).getD []

@[simp] theorem signStep_signSuccess (s : OnlineState) (t : ℕ) :
    (run.signStep s t).signSuccess = s.signSuccess + if run.signed t then 1 else 0 := by
  unfold OnlineRun.signStep OnlineRun.signed
  split <;> simp_all

@[simp] theorem signStep_fail (s : OnlineState) (t : ℕ) :
    (run.signStep s t).fail = s.fail + if !run.signed t then 1 else 0 := by
  unfold OnlineRun.signStep OnlineRun.signed
  split <;> simp_all

@[simp] theorem signStep_ok (s : OnlineState) (t : ℕ) :
    (run.signStep s t).ok =
      s.ok + if !run.verifySignatures && run.signed t then 1 else 0 := by
  unfold OnlineRun.signStep OnlineRun.signed
  split <;> cases run.verifySignatures <;> simp_all

theorem signStep_sigs (hverify : run.verifySignatures = true) (s : OnlineState) (t : ℕ) :
    (run.signStep s t).sigs = Function.update s.sigs t ((run.signToken t).getD []) := by
  unfold OnlineRun.signStep OnlineRun.storeSignature
  rw [if_pos hverify]
  split <;> rfl

/-- The loops of `run_online_cpu` and `run_online_cpu_pipeline`. -/
theorem signLoop_signs :
    ((List.range run.tokens).foldl run.signStep run.initialState).Signs run where
  signSuccess :=
    (foldl_counter OnlineState.signSuccess signStep_signSuccess _ _).trans (Nat.zero_add _)
  fail := (foldl_counter OnlineState.fail signStep_fail _ _).trans (Nat.zero_add _)
  sigs hverify t ht := by
    rw [foldl_cells OnlineState.sigs (signStep_sigs hverify), if_pos (List.mem_range.mpr ht)]

theorem signLoop_ok (run : OnlineRun) :
    ((List.range run.tokens).foldl run.signStep run.initialState).ok =
      run.count fun t => !run.verifySignatures && run.signed t :=
  (foldl_counter OnlineState.ok signStep_ok _ _).trans (Nat.zero_add _)

/-- The parallel loop counts like the others, except that it leaves `ok` alone. -/
theorem signStepMt_eq (s : OnlineState) (t : ℕ) :
    run.signStepMt s t = { run.signStep s t with ok := s.ok } := by
  unfold OnlineRun.signStepMt OnlineRun.signStep
  split <;> rfl

theorem signLoopMt_signs (signing : ThreadPartition run.tokens) :
    (parallelLoop OnlineRun.startThread run.signStepMt OnlineRun.mergeThread signing.shares
      run.initialState).Signs run where
  signSuccess := by
    rw [OnlineRun.count, ← signing.perm.countP_eq]
    refine (parallelLoop_counter OnlineState.signSuccess OnlineState.signSuccess (fun _ => rfl)
      (fun s t => ?_) (fun _ _ => rfl) _ _).trans (Nat.zero_add _)
    rw [signStepMt_eq]
    exact signStep_signSuccess s t
  fail := by
    rw [OnlineRun.count, ← signing.perm.countP_eq]
    refine (parallelLoop_counter OnlineState.fail OnlineState.fail (fun _ => rfl)
      (fun s t => ?_) (fun _ _ => rfl) _ _).trans (Nat.zero_add _)
    rw [signStepMt_eq]
    exact signStep_fail s t
  sigs hverify t ht := by
    have hmem : t ∈ signing.shares.flatten := signing.perm.mem_iff.mpr (List.mem_range.mpr ht)
    have hstart : ∀ s, (OnlineRun.startThread s).sigs = s.sigs := fun _ => rfl
    have hmerge : ∀ s thread, (OnlineRun.mergeThread s thread).sigs = thread.sigs :=
      fun _ _ => rfl
    have hstep : ∀ s t, (run.signStepMt s t).sigs =
        Function.update s.sigs t ((run.signToken t).getD []) := by
      intro s t
      rw [signStepMt_eq]
      exact signStep_sigs hverify s t
    rw [parallelLoop_cells OnlineState.sigs OnlineState.sigs hstart hstep hmerge, if_pos hmem]

theorem foldlM_acquireStep {status : PipelineStatus} {s s' : OnlineState} {items : List ℕ}
    (h : items.foldlM (run.acquireStep status) s = some s') :
    s' = items.foldl run.signStep s := by
  refine foldlM_eq_foldl (fun s t s' hstep => ?_) h
  unfold OnlineRun.acquireStep at hstep
  split at hstep
  · contradiction
  · exact (Option.some.inj hstep).symm

end Signing

section Reports

variable {run : OnlineRun} {raw : List UInt16 × List Int16 → Bool}
  {full : ℕ → List UInt8 → Bool}

theorem count_congr {p q : ℕ → Bool} (h : ∀ t < run.tokens, p t = q t) :
    run.count p = run.count q :=
  List.countP_congr fun t ht => by rw [h t (List.mem_range.mp ht)]

theorem count_add_count_not (run : OnlineRun) (p : ℕ → Bool) :
    run.count p + run.count (fun t => !p t) = run.tokens := by
  rw [OnlineRun.count, OnlineRun.count, countP_add_countP_not, List.length_range]

/-- The tokens that fail in the online loop and again in the verification. -/
def OnlineRun.failedTwice (run : OnlineRun) : ℕ :=
  run.count fun t =>
    run.verifySignatures && decide (run.verifyBackendMode = .gpuFull) && !run.signed t

/-- The report counts the tokens that succeed as ok, and every token once but for those
that fail twice. -/
structure OnlineReport.Covers (report : OnlineReport) (run : OnlineRun)
    (raw : List UInt16 × List Int16 → Bool) (full : ℕ → List UInt8 → Bool) : Prop where
  ok : report.okCount = run.count (run.succeeds raw full)
  total : report.okCount + report.failCount = run.tokens + run.failedTwice

theorem report_verified {s : OnlineState} {counts : VerifyCounts} (hsigns : s.Signs run)
    (hverify : run.verifySignatures = true)
    (hcounts : counts.Covers run (fun t => stored s.sigs t && run.accepts raw full t (s.sigs t))
      fun t => stored s.sigs t || decide (run.verifyBackendMode = .gpuFull)) :
    ({ s with ok := counts.ok, fail := s.fail + counts.fail }.report).Covers run raw full := by
  have hstored : ∀ t < run.tokens, stored s.sigs t = run.signed t := by
    intro t ht
    rw [stored, hsigns.sigs hverify t ht, stored_getD hverify]
  constructor
  · refine hcounts.ok.trans (count_congr fun t ht => ?_)
    rw [hstored t ht, hsigns.sigs hverify t ht]
    unfold OnlineRun.signed OnlineRun.succeeds
    cases run.signToken t <;> simp [hverify]
  · have htotal : counts.total = run.count run.signed + run.failedTwice := by
      rw [hcounts.total, OnlineRun.failedTwice, hverify]
      -- The full back end verifies every token, the others those that are signed.
      by_cases hfull : run.verifyBackendMode = .gpuFull
      · simp only [hfull, decide_true, Bool.or_true, Bool.true_and]
        rw [count_add_count_not, OnlineRun.count, List.countP_true, List.length_range]
      · simp only [hfull, decide_false, Bool.or_false, Bool.and_false, Bool.false_and]
        have hnone : run.count (fun _ => false) = 0 := by
          rw [OnlineRun.count, List.countP_false]
          rfl
        rw [hnone, Nat.add_zero]
        exact count_congr hstored
    have hsplit := count_add_count_not run run.signed
    have hfail := hsigns.fail
    rw [VerifyCounts.total] at htotal
    show counts.ok + (s.fail + counts.fail) = _
    omega

theorem report_signed {s : OnlineState} (hverify : run.verifySignatures = false)
    (hok : s.ok = run.count run.signed) (hfail : s.fail = run.count fun t => !run.signed t) :
    s.report.Covers run raw full := by
  constructor
  · refine hok.trans (count_congr fun t _ => ?_)
    unfold OnlineRun.signed OnlineRun.succeeds
    cases run.signToken t <;> simp [hverify]
  · have hzero : run.failedTwice = 0 := by
      simp [OnlineRun.failedTwice, OnlineRun.count, hverify]
    rw [hzero, Nat.add_zero, ← count_add_count_not run run.signed, ← hok, ← hfail]
    rfl

variable {report : OnlineReport}

theorem runOnlineCpu_covers (hgpu : run.GpuVerdicts raw full)
    (h : runOnlineCpu run = some report) : report.Covers run raw full := by
  have hok := signLoop_ok run
  unfold runOnlineCpu at h
  cases hverify : run.verifySignatures with
  | true =>
      rw [if_pos hverify] at h
      obtain ⟨counts, hcounts, rfl⟩ := Option.map_eq_some_iff.mp h
      have hzero : ((List.range run.tokens).foldl run.signStep run.initialState).ok = 0 := by
        rw [hok]
        simp [OnlineRun.count, hverify]
      rw [hzero, Nat.zero_add]
      exact report_verified signLoop_signs hverify
        (runVerifyBatch_covers hgpu runVerifyBatchSerial_covers hcounts)
  | false =>
      rw [if_neg (by simp [hverify])] at h
      obtain rfl := Option.some.inj h
      simp only [hverify, Bool.not_false, Bool.true_and] at hok
      exact report_signed hverify hok signLoop_signs.fail

theorem runOnlineCpuMt_covers (hgpu : run.GpuVerdicts raw full) {onlineThreads : ℤ}
    {signing verifying : ThreadPartition run.tokens}
    (h : runOnlineCpuMt run onlineThreads signing verifying = some report) :
    report.Covers run raw full := by
  unfold runOnlineCpuMt at h
  split at h
  · exact runOnlineCpu_covers hgpu h
  split at h
  · exact runOnlineCpu_covers hgpu h
  have hsigns := signLoopMt_signs signing
  cases hverify : run.verifySignatures with
  | true =>
      rw [if_pos hverify] at h
      obtain ⟨counts, hcounts, rfl⟩ := Option.map_eq_some_iff.mp h
      exact report_verified hsigns hverify
        (runVerifyBatch_covers hgpu (runVerifyBatchMt_covers _ _) hcounts)
  | false =>
      rw [if_neg (by simp [hverify])] at h
      obtain rfl := Option.some.inj h
      exact report_signed hverify hsigns.signSuccess hsigns.fail

theorem runOnlineCpuPipeline_covers (hgpu : run.GpuVerdicts raw full) {tokensPerBank : ℕ}
    {status : PipelineStatus} {verifyThreads : ℤ} {signing verifying : ThreadPartition run.tokens}
    (h : runOnlineCpuPipeline run tokensPerBank status verifyThreads signing verifying =
      some report) : report.Covers run raw full := by
  unfold runOnlineCpuPipeline at h
  split at h
  · exact runOnlineCpuMt_covers hgpu h
  split at h
  · contradiction
  obtain ⟨s, hloop, h⟩ := Option.bind_eq_some_iff.mp h
  obtain rfl := foldlM_acquireStep hloop
  cases hverify : run.verifySignatures with
  | true =>
      rw [if_pos hverify] at h
      obtain ⟨counts, hcounts, rfl⟩ := Option.map_eq_some_iff.mp h
      exact report_verified signLoop_signs hverify
        (runVerifyBatch_covers hgpu (runVerifyBatchMt_covers _ _) hcounts)
  | false =>
      rw [if_neg (by simp [hverify])] at h
      obtain rfl := Option.some.inj h
      have hok := signLoop_ok run
      simp only [hverify, Bool.not_false, Bool.true_and] at hok
      exact report_signed hverify hok signLoop_signs.fail

end Reports

inductive OnlineDriver (tokens : ℕ)
  | cpu
  | cpuMt (onlineThreads : ℤ) (signing verifying : ThreadPartition tokens)
  | pipeline (tokensPerBank : ℕ) (status : PipelineStatus) (verifyThreads : ℤ)
      (signing verifying : ThreadPartition tokens)

def OnlineDriver.execute (run : OnlineRun) : OnlineDriver run.tokens → Option OnlineReport
  | .cpu => runOnlineCpu run
  | .cpuMt onlineThreads signing verifying => runOnlineCpuMt run onlineThreads signing verifying
  | .pipeline tokensPerBank status verifyThreads signing verifying =>
      runOnlineCpuPipeline run tokensPerBank status verifyThreads signing verifying

theorem execute_covers {run : OnlineRun} {raw : List UInt16 × List Int16 → Bool}
    {full : ℕ → List UInt8 → Bool} (hgpu : run.GpuVerdicts raw full)
    {driver : OnlineDriver run.tokens} {report : OnlineReport}
    (h : driver.execute run = some report) : report.Covers run raw full := by
  cases driver with
  | cpu => exact runOnlineCpu_covers hgpu h
  | cpuMt => exact runOnlineCpuMt_covers hgpu h
  | pipeline => exact runOnlineCpuPipeline_covers hgpu h

/-- Every token is counted once, and as ok if it succeeds, unless the full GPU back end
verifies and a token is not signed. -/
theorem counted_once_iff {run : OnlineRun} {raw : List UInt16 × List Int16 → Bool}
    {full : ℕ → List UInt8 → Bool} (hgpu : run.GpuVerdicts raw full)
    {driver : OnlineDriver run.tokens} {report : OnlineReport}
    (h : driver.execute run = some report) :
    (report.okCount + report.failCount = run.tokens ∧
        report.okCount = run.count (run.succeeds raw full)) ↔
      ¬ (run.verifySignatures = true ∧ run.verifyBackendMode = .gpuFull ∧
        ∃ t < run.tokens, run.signed t = false) := by
  obtain ⟨hok, htotal⟩ := execute_covers hgpu h
  have hzero : run.failedTwice = 0 ↔ ¬ (run.verifySignatures = true ∧
      run.verifyBackendMode = .gpuFull ∧ ∃ t < run.tokens, run.signed t = false) := by
    rw [OnlineRun.failedTwice, OnlineRun.count, List.countP_eq_zero]
    constructor
    · rintro hnone ⟨hverify, hfull, t, ht, hunsigned⟩
      apply hnone t (List.mem_range.mpr ht)
      simp [hverify, hfull, hunsigned]
    · intro hnone t ht htwice
      simp only [Bool.and_eq_true, decide_eq_true_eq, Bool.not_eq_true'] at htwice
      exact hnone ⟨htwice.1.1, htwice.1.2, t, List.mem_range.mp ht, htwice.2⟩
  rw [← hzero]
  constructor
  · rintro ⟨hsum, -⟩
    omega
  · intro hnone
    exact ⟨by omega, hok⟩

/-- Two tokens; the second has a coefficient that cannot be encoded. -/
def oneUnsigned (verifyBackendMode : VerifyBackend) : OnlineRun where
  logn := 1
  tokens := 2
  verifySignatures := true
  verifyBackendMode
  nonce _ := Vector.replicate 40 7
  sv t := if t = 0 then [0, -1] else [3000, 0]
  sigBank _ := []
  falconVerify _ _ := true
  hashFuel := 0
  openMp := true
  cuda := true
  gpuVerifyRawBatch _ := some fun _ => 1
  gpuVerifyCompressedBatch sigs := some fun t => if (sigs.getD t []).length = 0 then 0 else 1

def sampleDrivers : List (OnlineDriver 2) :=
  [.cpu, .cpuMt 2 (.single 2) (.single 2),
    .pipeline 1 { init := 0, acquire := fun _ => 0 } 2 (.single 2) (.single 2)]

theorem gpuVerdicts_oneUnsigned (verifyBackendMode : VerifyBackend) :
    (oneUnsigned verifyBackendMode).GpuVerdicts (fun _ => true) fun _ _ => true where
  rawBatch entries resultBank hbank i _ := by
    obtain rfl := Option.some.inj hbank
    simp
  compressedBatch sigs resultBank hbank t ht := by
    obtain rfl := Option.some.inj hbank
    simp [List.getElem?_eq_getElem ht]

/-- The full GPU back end: two failures are reported for the second token. -/
theorem counted_twice_oneUnsigned :
    (oneUnsigned .gpuFull).GpuVerdicts (fun _ => true) (fun _ _ => true) ∧
      ∀ driver ∈ sampleDrivers, ∃ report,
        OnlineDriver.execute (oneUnsigned .gpuFull) driver = some report ∧
          report.okCount = 1 ∧ report.failCount = 2 ∧
          report.okCount + report.failCount ≠ (oneUnsigned .gpuFull).tokens := by
  refine ⟨gpuVerdicts_oneUnsigned _, fun driver hdriver => ?_⟩
  have hreports : ∀ driver ∈ sampleDrivers,
      (OnlineDriver.execute (oneUnsigned .gpuFull) driver).map
        (fun report => (report.okCount, report.failCount)) = some (1, 2) := by
    decide +kernel
  obtain ⟨report, hreport, hcounts⟩ := Option.map_eq_some_iff.mp (hreports driver hdriver)
  obtain ⟨hok, hfail⟩ := Prod.mk.inj hcounts
  refine ⟨report, hreport, hok, hfail, ?_⟩
  rw [hok, hfail]
  decide

/-- On the CPU the same tokens are counted once. -/
theorem counted_once_iff_oneUnsigned :
    ∃ report, OnlineDriver.execute (oneUnsigned .cpu) .cpu = some report ∧
      report.okCount + report.failCount = 2 ∧
      report.okCount = (oneUnsigned .cpu).count
        ((oneUnsigned .cpu).succeeds (fun _ => true) fun _ _ => true) := by
  have hsome : (OnlineDriver.execute (oneUnsigned .cpu) .cpu).isSome = true := rfl
  obtain ⟨report, hreport⟩ := Option.isSome_iff_exists.mp hsome
  have honce := (counted_once_iff (gpuVerdicts_oneUnsigned .cpu) hreport).mpr
    fun hfull => by simp [oneUnsigned] at hfull
  exact ⟨report, hreport, honce⟩

end Soko.Benchmark
