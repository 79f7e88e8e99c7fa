import Mathlib
import Soko.Benchmark.Tally
import Soko.FnDsa.SignedToken
import Soko.Gpu.VerifyRequest

/-!
The counts of the benchmark with the verifiers of the repository, for an encoded public key. In
every driver and with every back end the tokens that count as ok are those whose coefficients
solve the norm equation (`okCount_eq`). The GPU back ends allow three times the norm.
-/

namespace Soko.Benchmark

open Soko.Library Soko.Shake Soko.Signature Soko.Gpu Soko.FnDsa

/-- The back ends are the verifiers of the repository. The buffers of `falcon_verify` may hold
anything. -/
structure OnlineRun.Verifies (run : OnlineRun) (pubkey : List UInt8) (h : List UInt16) : Prop where
  key : PublicKeyOf pubkey run.logn h
  length_sv : ∀ t < run.tokens, (run.sv t).length = 2 ^ run.logn
  size : run.tokens * 2 ^ run.logn ≤ 2 ^ 31
  cpu : ∀ message sig, ∃ slots tmp, run.falconVerify message sig = true ↔
    ∃ fuel, FnDsa.falconVerify l2bound fuel sig 1 pubkey message (tmpsizeVerify run.logn) slots
      tmp = some (.ok ())
  raw : ∀ entries resultBank, run.gpuVerifyRawBatch entries = some resultBank →
    RawVerified (toNttMonty run.logn (ofCoeffs h)) run.logn entries resultBank
  full : ∀ sigs resultBank, run.gpuVerifyCompressedBatch sigs = some resultBank →
    CompressedVerified (toNttMonty run.logn (ofCoeffs h)) run.logn sigs resultBank

def OnlineRun.bound (run : OnlineRun) : ℕ :=
  if run.verifyBackendMode = .cpu then (l2bound run.logn).toNat else 3 * (l2bound run.logn).toNat

/-- The token has a signature, and its coefficients fit the point of its message. -/
def OnlineRun.Genuine (run : OnlineRun) (h : List UInt16) (t : ℕ) : Prop :=
  run.signed t = true ∧
    Fits run.logn h (run.nonce t).toList (fillMessage msgSize t) (run.sv t) run.bound

/-- The end of a driver that verifies: the signatures of its loop and the counts of the back
end. -/
structure OnlineRun.Ends (run : OnlineRun) (report : OnlineReport) (s : OnlineState)
    (onCpu counts : VerifyCounts) : Prop where
  signs : s.Signs run
  cpu : onCpu.Covers run
    (fun t => stored s.sigs t && run.falconVerify (fillMessage msgSize t) (s.sigs t))
    (stored s.sigs)
  batch : run.runVerifyBatch onCpu s.sigs = some counts
  ok : report.okCount = counts.ok

section Drivers

variable {run : OnlineRun} {report : OnlineReport}

theorem runOnlineCpu_ends (hverify : run.verifySignatures = true)
    (hreport : runOnlineCpu run = some report) :
    ∃ s onCpu counts, run.Ends report s onCpu counts := by
  rw [runOnlineCpu, if_pos hverify] at hreport
  obtain ⟨counts, hcounts, rfl⟩ := Option.map_eq_some_iff.mp hreport
  have hzero : ((List.range run.tokens).foldl run.signStep run.initialState).ok = 0 := by
    rw [signLoop_ok]
    simp [OnlineRun.count, hverify]
  refine ⟨_, _, counts, signLoop_signs, runVerifyBatchSerial_covers, hcounts, ?_⟩
  rw [hzero, Nat.zero_add]
  rfl

theorem runOnlineCpuMt_ends (hverify : run.verifySignatures = true) {onlineThreads : ℤ}
    {signing verifying : ThreadPartition run.tokens}
    (hreport : runOnlineCpuMt run onlineThreads signing verifying = some report) :
    ∃ s onCpu counts, run.Ends report s onCpu counts := by
  unfold runOnlineCpuMt at hreport
  split at hreport
  · exact runOnlineCpu_ends hverify hreport
  split at hreport
  · exact runOnlineCpu_ends hverify hreport
  obtain ⟨counts, hcounts, rfl⟩ := Option.map_eq_some_iff.mp hreport
  exact ⟨_, _, counts, signLoopMt_signs signing, runVerifyBatchMt_covers _ _, hcounts, rfl⟩

theorem execute_ends (hverify : run.verifySignatures = true) {driver : OnlineDriver run.tokens}
    (hreport : driver.execute run = some report) :
    ∃ s onCpu counts, run.Ends report s onCpu counts := by
  cases driver with
  | cpu => exact runOnlineCpu_ends hverify hreport
  | cpuMt => exact runOnlineCpuMt_ends hverify hreport
  | pipeline tokensPerBank status verifyThreads signing verifying =>
      rw [OnlineDriver.execute, runOnlineCpuPipeline] at hreport
      split at hreport
      · exact runOnlineCpuMt_ends hverify hreport
      split at hreport
      · contradiction
      obtain ⟨s, hloop, hreport⟩ := Option.bind_eq_some_iff.mp hreport
      obtain rfl := foldlM_acquireStep hloop
      obtain ⟨counts, hcounts, rfl⟩ := Option.map_eq_some_iff.mp hreport
      exact ⟨_, _, counts, signLoop_signs, runVerifyBatchMt_covers _ _, hcounts, rfl⟩

end Drivers

/-- What is stored for a token: its signature, or a string of length 0. -/
theorem sigs_cases {run : OnlineRun} {s : OnlineState} (hsigns : s.Signs run)
    (hverify : run.verifySignatures = true) {t : ℕ} (ht : t < run.tokens) :
    (run.signed t = false ∧ s.sigs t = []) ∨
      run.signed t = true ∧ signTokenToSignature run.logn (run.nonce t) (run.sv t)
        (UInt64.ofNat (falconSigCompressedMaxsize run.logn)) = some (s.sigs t) := by
  have hsigs := hsigns.sigs hverify t ht
  rw [OnlineRun.signed]
  cases hsign : run.signToken t with
  | none =>
      rw [hsign] at hsigs
      exact .inl ⟨rfl, hsigs⟩
  | some sig =>
      rw [hsign] at hsigs
      obtain rfl : s.sigs t = sig := hsigs
      rw [OnlineRun.signToken, if_pos hverify] at hsign
      exact .inr ⟨rfl, hsign⟩

section Counting

variable {run : OnlineRun} {pubkey : List UInt8} {h : List UInt16} {s : OnlineState}
  (hrun : run.Verifies pubkey h) (hsigns : s.Signs run) (hverify : run.verifySignatures = true)
include hrun hsigns hverify

theorem parse_stored {t : ℕ} (ht : t < run.tokens) (hsigned : run.signed t = true) :
    parseSignature run.logn (s.sigs t) = .ok (run.sv t) ∧
      signatureNonce (s.sigs t) = (run.nonce t).toList ∧ 41 ≤ (s.sigs t).length := by
  rcases sigs_cases hsigns hverify ht with ⟨hfalse, -⟩ | ⟨-, hsign⟩
  · rw [hfalse] at hsigned
    contradiction
  · exact parseSignature_of_signed hrun.key.le_10 (hrun.length_sv t ht) hsign

omit hrun in
theorem stored_eq_signed {t : ℕ} (ht : t < run.tokens) : stored s.sigs t = run.signed t := by
  rw [stored, hsigns.sigs hverify t ht, stored_getD hverify]

theorem accepts_cpu (hmode : run.verifyBackendMode = .cpu) {t : ℕ} (ht : t < run.tokens) :
    (stored s.sigs t && run.falconVerify (fillMessage msgSize t) (s.sigs t)) = true ↔
      run.Genuine h t := by
  have hbound := l2bound_lt hrun.key.le_10
  rw [Bool.and_eq_true, stored_eq_signed hsigns hverify ht, OnlineRun.Genuine,
    OnlineRun.bound, if_pos hmode]
  refine and_congr_right fun hsigned => ?_
  obtain ⟨hparse, hnonce, -⟩ := parse_stored hrun hsigns hverify ht hsigned
  obtain ⟨slots, tmp, haccepts⟩ := hrun.cpu (fillMessage msgSize t) (s.sigs t)
  rw [haccepts, falconVerify_parsed_iff hrun.key hparse (by omega) le_rfl, hnonce]

theorem accepts_gpuFull (hmode : run.verifyBackendMode = .gpuFull) {resultBank : ℕ → UInt8}
    (hbank : run.gpuVerifyCompressedBatch ((List.range run.tokens).map s.sigs) = some resultBank)
    {t : ℕ} (ht : t < run.tokens) : ¬resultBank t = 0 ↔ run.Genuine h t := by
  have hlength : t < ((List.range run.tokens).map s.sigs).length := by simpa using ht
  obtain ⟨fuel, sigBank, sigStride, sigLens, schedules, state, bank, hsig, hverdict⟩ :=
    (hrun.full _ _ hbank).verdict hrun.key.le_10 hlength
  rw [List.getElem_map, List.getElem_range] at hsig
  rw [List.length_map, List.length_range] at hverdict
  rw [OnlineRun.Genuine, OnlineRun.bound, if_neg (by rw [hmode]; decide)]
  rcases sigs_cases hsigns hverify ht with ⟨hfalse, hempty⟩ | ⟨hsigned, -⟩
  · rw [hempty] at hsig
    have hparse : parseSignature run.logn (tokenSignature sigBank sigStride sigLens t) =
        .error .rejected := by
      rw [hsig]
      rfl
    rw [kernelVerifyCompressed_of_not_parsed ht hparse, Option.map_some, Function.update_self,
      Option.some.injEq] at hverdict
    rw [hfalse, ← hverdict]
    simp
  · obtain ⟨hparse, hnonce, -⟩ := parse_stored hrun hsigns hverify ht hsigned
    rw [← hsig] at hparse hnonce
    rw [kernelVerifyCompressed_parsed_iff hrun.key ht hparse hverdict, hnonce]
    exact (and_iff_right hsigned).symm

theorem prepare_stored {t : ℕ} (ht : t < run.tokens) (hsigned : run.signed t = true) :
    prepareVerifyRawInputsFromSignature run.hashFuel run.logn (fillMessage msgSize t) (s.sigs t) =
      (hashToPointVartime run.hashFuel (hashedInput (run.nonce t).toList (fillMessage msgSize t))
        run.logn).map fun hm => some (hm, run.sv t) := by
  obtain ⟨hparse, hnonce, hlong⟩ := parse_stored hrun hsigns hverify ht hsigned
  have habsorbed : hashedInput (run.nonce t).toList (fillMessage msgSize t) =
      absorbed (fun i => (s.sigs t).getD (1 + i) 0) t := by
    rw [← hnonce, signatureNonce_eq hlong]
    rfl
  rw [prepare_eq, hparse, habsorbed]
  rfl

omit hrun hsigns hverify in
/-- The preparation of the raw back end returns for all stored signatures, and every entry comes
from one of them. -/
theorem of_foldlM_prepareStep {sigs : ℕ → List UInt8} {items : List ℕ}
    {p p' : List (List UInt16 × List Int16) × ℕ}
    (hloop : items.foldlM (run.prepareStep sigs) p = some p') :
    (∀ t ∈ items, stored sigs t = true → prepareVerifyRawInputsFromSignature run.hashFuel run.logn
        (fillMessage msgSize t) (sigs t) ≠ none) ∧
      ∀ e ∈ p'.1, e ∈ p.1 ∨ ∃ t ∈ items, stored sigs t = true ∧
        prepareVerifyRawInputsFromSignature run.hashFuel run.logn (fillMessage msgSize t) (sigs t) =
          some (some e) := by
  induction items generalizing p with
  | nil =>
      obtain rfl := Option.some.inj hloop
      exact ⟨by simp, fun e he => .inl he⟩
  | cons t items ih =>
      obtain ⟨p₁, hstep, hloop⟩ := Option.bind_eq_some_iff.mp hloop
      obtain ⟨hreturns, hentries⟩ := ih hloop
      have hhead : (stored sigs t = true → prepareVerifyRawInputsFromSignature run.hashFuel run.logn
          (fillMessage msgSize t) (sigs t) ≠ none) ∧
          ∀ e ∈ p₁.1, e ∈ p.1 ∨ stored sigs t = true ∧ prepareVerifyRawInputsFromSignature
            run.hashFuel run.logn (fillMessage msgSize t) (sigs t) = some (some e) := by
        unfold OnlineRun.prepareStep at hstep
        split at hstep
        · rename_i hempty
          obtain rfl := Option.some.inj hstep
          exact ⟨fun hstored => absurd hempty (of_decide_eq_true hstored), fun e he => .inl he⟩
        · rename_i hstored
          obtain ⟨prepared, hprepared, rfl⟩ := Option.map_eq_some_iff.mp hstep
          refine ⟨fun _ => by simp [hprepared], fun e he => ?_⟩
          cases prepared with
          | none => exact .inl he
          | some inputs =>
              rcases List.mem_append.mp he with he | he
              · exact .inl he
              · rw [List.mem_singleton.mp he]
                exact .inr ⟨decide_eq_true hstored, hprepared⟩
      refine ⟨List.forall_mem_cons.mpr ⟨hhead.1, hreturns⟩, fun e he => ?_⟩
      rcases hentries e he with he | ⟨t', ht', hprepared⟩
      · rcases hhead.2 e he with he | hprepared
        · exact .inl he
        · exact .inr ⟨t, List.mem_cons_self, hprepared⟩
      · exact .inr ⟨t', List.mem_cons_of_mem t ht', hprepared⟩

open Classical in
/-- What the raw GPU back end accepts, if its hash returns. -/
theorem accepts_gpuRaw (hmode : run.verifyBackendMode = .gpuRaw) (full : ℕ → List UInt8 → Bool)
    {t : ℕ} (ht : t < run.tokens)
    (hreturns : stored s.sigs t = true → prepareVerifyRawInputsFromSignature run.hashFuel run.logn
      (fillMessage msgSize t) (s.sigs t) ≠ none) :
    (stored s.sigs t && run.accepts (fun e => decide (SolvesNorm run.logn h e.1 e.2 run.bound)) full
      t (s.sigs t)) = true ↔ run.Genuine h t := by
  rw [Bool.and_eq_true, OnlineRun.Genuine, stored_eq_signed hsigns hverify ht] at *
  refine and_congr_right fun hsigned => ?_
  have hprepare := prepare_stored hrun hsigns hverify ht hsigned
  cases hhash : hashToPointVartime run.hashFuel
      (hashedInput (run.nonce t).toList (fillMessage msgSize t)) run.logn with
  | none =>
      rw [hhash] at hprepare
      exact absurd hprepare (hreturns hsigned)
  | some hm =>
      rw [hhash] at hprepare
      simp only [OnlineRun.accepts, hmode, hprepare, Option.map_some, decide_eq_true_eq]
      constructor
      · exact fun hsolves => ⟨hm, ⟨_, hhash⟩, hsolves⟩
      · rintro ⟨hm', ⟨fuel', hhash'⟩, hsolves⟩
        obtain rfl := hashToPointVartime_unique hhash hhash'
        exact hsolves

theorem verdict_prepared (hmode : run.verifyBackendMode = .gpuRaw)
    {entries : List (List UInt16 × List Int16)} (hlength : entries.length ≤ run.tokens)
    {resultBank : ℕ → UInt8} (hbank : run.gpuVerifyRawBatch entries = some resultBank) {i t : ℕ}
    (hi : i < entries.length) (ht : t < run.tokens) (hstored : stored s.sigs t = true)
    (hprepared : prepareVerifyRawInputsFromSignature run.hashFuel run.logn (fillMessage msgSize t)
      (s.sigs t) = some (some entries[i])) :
    ¬resultBank i = 0 ↔ SolvesNorm run.logn h entries[i].1 entries[i].2 run.bound := by
  rw [stored_eq_signed hsigns hverify ht] at hstored
  obtain ⟨hparse, -⟩ := parse_stored hrun hsigns hverify ht hstored
  rw [prepare_stored hrun hsigns hverify ht hstored] at hprepared
  obtain ⟨hm, hhash, hentry⟩ := Option.map_eq_some_iff.mp hprepared
  have hsize := (Nat.mul_le_mul_right (2 ^ run.logn) hlength).trans hrun.size
  obtain ⟨hmBank, s2Bank, schedules, state, bank, hhm, hs2, hverdict⟩ :=
    (hrun.raw _ _ hbank).verdict hrun.key.le_10 hsize hi
  rw [← Option.some.inj hentry] at hhm hs2 ⊢
  obtain ⟨hpoint, hreduced⟩ := of_hashToPointVartime hhash
  rw [hverdict, OnlineRun.bound, if_neg (by rw [hmode]; decide)]
  exact kernelVerifyRawBatch_parsed_iff hrun.key hparse hi hpoint hreduced hhm hs2 schedules state
    bank

open Classical in
theorem count_gpuRaw (hmode : run.verifyBackendMode = .gpuRaw) {counts : VerifyCounts}
    (hcounts : run.runVerifyBatchGpuRaw s.sigs = some counts) :
    counts.ok = run.count fun t => decide (run.Genuine h t) := by
  unfold OnlineRun.runVerifyBatchGpuRaw at hcounts
  split at hcounts
  · contradiction
  obtain ⟨⟨entries, fail⟩, hloop, hcall⟩ := Option.bind_eq_some_iff.mp hcounts
  dsimp only at hcall
  obtain ⟨hreturns, hentries⟩ := of_foldlM_prepareStep hloop
  have hlength := foldlM_counter (fun s => s.2 + s.1.length) (fun _ _ _ hstep =>
    (prepareStep_counts (fun _ => false) (fun _ _ => false) hmode hstep).2) hloop
  have hle := List.countP_le_length (p := stored s.sigs) (l := List.range run.tokens)
  rw [List.length_range] at hle
  simp only [List.length_nil, Nat.zero_add] at hlength
  -- the entries that solve the equation are those of the genuine tokens
  have hsolving : entries.countP (fun e => decide (SolvesNorm run.logn h e.1 e.2 run.bound)) =
      run.count fun t => decide (run.Genuine h t) := by
    obtain ⟨raw, hraw⟩ : ∃ raw : List UInt16 × List Int16 → Bool,
      raw = fun e => decide (SolvesNorm run.logn h e.1 e.2 run.bound) := ⟨_, rfl⟩
    rw [← hraw]
    refine (foldlM_counter (fun s => s.1.countP raw) (fun _ _ _ hstep =>
      (prepareStep_counts raw (fun _ _ => false) hmode hstep).1) hloop).trans ?_
    rw [List.countP_nil, Nat.zero_add, OnlineRun.count]
    refine List.countP_congr fun t ht => ?_
    rw [hraw, accepts_gpuRaw hrun hsigns hverify hmode _ (List.mem_range.mp ht) (hreturns t ht),
      decide_eq_true_eq]
  split at hcall
  · obtain ⟨resultBank, hbank, rfl⟩ := Option.map_eq_some_iff.mp hcall
    rw [countResults_ok, Nat.zero_add, ← hsolving]
    refine countP_range_length _ fun i hi => ?_
    obtain ⟨t, ht, hstored, hprepared⟩ := (hentries _ (List.getElem_mem hi)).resolve_left
      List.not_mem_nil
    exact decide_eq_decide.mpr (verdict_prepared hrun hsigns hverify hmode (by omega) hbank hi
      (List.mem_range.mp ht) hstored hprepared)
  · rename_i hnone
    obtain rfl := Option.some.inj hcall
    obtain rfl : entries = [] := List.eq_nil_of_length_eq_zero (by omega)
    exact hsolving

open Classical in
theorem count_genuine {onCpu counts : VerifyCounts}
    (hcpu : onCpu.Covers run
      (fun t => stored s.sigs t && run.falconVerify (fillMessage msgSize t) (s.sigs t))
      (stored s.sigs))
    (hbatch : run.runVerifyBatch onCpu s.sigs = some counts) :
    counts.ok = run.count fun t => decide (run.Genuine h t) := by
  unfold OnlineRun.runVerifyBatch at hbatch
  cases hmode : run.verifyBackendMode with
  | cpu =>
      rw [hmode] at hbatch
      obtain rfl := Option.some.inj hbatch
      rw [hcpu.ok]
      refine List.countP_congr fun t ht => ?_
      rw [accepts_cpu hrun hsigns hverify hmode (List.mem_range.mp ht), decide_eq_true_eq]
  | gpuRaw =>
      rw [hmode] at hbatch
      exact count_gpuRaw hrun hsigns hverify hmode hbatch
  | gpuFull =>
      rw [hmode] at hbatch
      replace hbatch : run.runVerifyBatchGpuFull s.sigs = some counts := hbatch
      unfold OnlineRun.runVerifyBatchGpuFull at hbatch
      split at hbatch
      · contradiction
      obtain ⟨resultBank, hbank, rfl⟩ := Option.map_eq_some_iff.mp hbatch
      rw [countResults_ok]
      refine (Nat.zero_add _).trans (List.countP_congr fun t ht => ?_)
      rw [decide_eq_true_eq, decide_eq_true_eq]
      exact accepts_gpuFull hrun hsigns hverify hmode hbank (List.mem_range.mp ht)

end Counting

open Classical in
theorem count_eq_ncard (run : OnlineRun) (p : ℕ → Prop) :
    run.count (fun t => decide (p t)) = {t | t < run.tokens ∧ p t}.ncard := by
  have hset : {t | t < run.tokens ∧ p t} = ((Finset.range run.tokens).filter p : Finset ℕ) := by
    ext t
    simp
  rw [hset, Set.ncard_coe_finset, Finset.card_filter, OnlineRun.count]
  induction run.tokens with
  | zero => rfl
  | succ n ih =>
      rw [List.range_succ, List.countP_append, ih, Finset.sum_range_succ, List.countP_singleton]
      simp

/-- Whatever the driver, the order of its threads and the back end, the tokens that count as ok
are those whose coefficients solve the norm equation for the point of their message. -/
theorem okCount_eq {run : OnlineRun} {pubkey : List UInt8} {h : List UInt16}
    (hrun : run.Verifies pubkey h) (hverify : run.verifySignatures = true)
    {driver : OnlineDriver run.tokens} {report : OnlineReport}
    (hreport : driver.execute run = some report) :
    report.okCount = {t | t < run.tokens ∧ run.Genuine h t}.ncard := by
  obtain ⟨s, onCpu, counts, hsigns, hcpu, hbatch, hok⟩ := execute_ends hverify hreport
  rw [hok, count_genuine hrun hsigns hverify hcpu hbatch, count_eq_ncard]

open Classical in
/-- Two tokens. The second gets no signature, since its first coefficient is too large. -/
noncomputable def signedSample (mode : VerifyBackend) : OnlineRun where
  logn := 1
  tokens := 2
  verifySignatures := true
  verifyBackendMode := mode
  nonce _ := Vector.replicate 40 7
  sv t := if t = 0 then [1, 0] else [3000, 0]
  sigBank _ := []
  falconVerify message sig := decide (∃ fuel, FnDsa.falconVerify l2bound fuel sig 1
    pointPublicKey message (tmpsizeVerify 1) (fun _ => 0) (fun _ => 0) = some (.ok ()))
  hashFuel := 2
  openMp := false
  cuda := true
  gpuVerifyRawBatch := firstRawBatch (toNttMonty 1 (ofCoeffs [1311, 8124])) 1
  gpuVerifyCompressedBatch := firstCompressedBatch (toNttMonty 1 (ofCoeffs [1311, 8124])) 1 2

theorem verifies_signedSample (mode : VerifyBackend) :
    (signedSample mode).Verifies pointPublicKey [1311, 8124] where
  key := publicKeyOf_point
  length_sv t _ := by
    show (if t = 0 then [1, 0] else [3000, 0] : List Int16).length = 2
    split <;> rfl
  size := show 2 * 2 ^ 1 ≤ 2 ^ 31 by decide
  cpu _ _ := by
    classical
    exact ⟨fun _ => 0, fun _ => 0, of_decide_eq_true, decide_eq_true⟩
  raw _ _ := rawVerified_first
  full _ _ := compressedVerified_first

/-- The signatures that the loop of the sample stores. -/
theorem sigs_signedSample (mode : VerifyBackend) :
    let s := (List.range 2).foldl (signedSample mode).signStep (signedSample mode).initialState
    s.sigs 0 = oneSignature ∧ s.sigs 1 = [] := by
  cases mode <;> decide +kernel

theorem gpuVerifyRawBatch_signedSample (mode : VerifyBackend) :
    (signedSample mode).gpuVerifyRawBatch =
      firstRawBatch (toNttMonty 1 (ofCoeffs [1311, 8124])) 1 :=
  rfl

theorem gpuVerifyCompressedBatch_signedSample (mode : VerifyBackend) :
    (signedSample mode).gpuVerifyCompressedBatch =
      firstCompressedBatch (toNttMonty 1 (ofCoeffs [1311, 8124])) 1 2 :=
  rfl

section Returning

variable {sigs : ℕ → List UInt8} (hfirst : sigs 0 = oneSignature) (hsecond : sigs 1 = [])
include hfirst hsecond

/-- The raw back end prepares the first token, and its call returns. -/
theorem gpuRaw_signedSample :
    ((signedSample .gpuRaw).runVerifyBatchGpuRaw sigs).isSome := by
  have hprepared : prepareVerifyRawInputsFromSignature 2 1 (fillMessage msgSize 0) oneSignature =
      some (some ([1311, 8124], [1, 0])) := by decide +kernel
  have hzero : (signedSample .gpuRaw).prepareStep sigs ([], 0) 0 =
      some ([([1311, 8124], [1, 0])], 0) := by
    rw [OnlineRun.prepareStep, hfirst, if_neg (by decide)]
    show (prepareVerifyRawInputsFromSignature 2 1 _ _).map _ = _
    rw [hprepared]
    rfl
  have hone : ∀ p, (signedSample .gpuRaw).prepareStep sigs p 1 = some p := by
    intro p
    rw [OnlineRun.prepareStep, hsecond]
    rfl
  have hentries : (List.range 2).foldlM ((signedSample .gpuRaw).prepareStep sigs) ([], 0) =
      some ([([1311, 8124], [1, 0])], 0) := by
    show [0, 1].foldlM _ _ = _
    rw [List.foldlM_cons, hzero, Option.bind_eq_bind, Option.bind_some, List.foldlM_cons, hone]
    rfl
  have hcall : (firstRawBatch (toNttMonty 1 (ofCoeffs [1311, 8124])) 1
      [([1311, 8124], [1, 0])]).isSome :=
    firstRawBatch_isSome ⟨le_rfl, by decide⟩ Nat.one_pos
  rw [OnlineRun.runVerifyBatchGpuRaw, if_neg (by simp [signedSample])]
  rw [show (signedSample .gpuRaw).tokens = 2 from rfl, hentries, Option.bind_some]
  dsimp only
  rw [if_pos (by simp), Option.isSome_map, gpuVerifyRawBatch_signedSample]
  exact hcall

/-- The kernel of the full back end hashes the message of the first token, and does not parse a
signature of the second. -/
theorem gpuFull_signedSample :
    ((signedSample .gpuFull).runVerifyBatchGpuFull sigs).isSome := by
  have hreturns : ∀ token < [oneSignature, []].length, ∀ s2,
      parseSignature 1 ([oneSignature, []].getD token []) = .ok s2 →
        (hashToPointVartimeBenchDevice 2 token
          (fun i => ([oneSignature, []].getD token []).getD (1 + i) 0) 1).isSome := by
    intro token htoken s2 hparse
    obtain rfl | rfl : token = 0 ∨ token = 1 := Nat.le_one_iff_eq_zero_or_eq_one.mp
      (Nat.le_of_lt_succ htoken)
    · rw [← hashToPoint_absorbed, Option.isSome_map]
      decide +kernel
    · cases hparse
  have hsigs : (List.range 2).map sigs = [oneSignature, []] := by
    rw [← hfirst, ← hsecond]
    rfl
  have hcall : (firstCompressedBatch (toNttMonty 1 (ofCoeffs [1311, 8124])) 1 2
      [oneSignature, []]).isSome :=
    firstCompressedBatch_isSome ⟨le_rfl, by decide⟩ Nat.two_pos hreturns
  rw [OnlineRun.runVerifyBatchGpuFull, if_neg (by simp [signedSample]), Option.isSome_map,
    gpuVerifyCompressedBatch_signedSample, show (signedSample .gpuFull).tokens = 2 from rfl, hsigs]
  exact hcall

end Returning

theorem returns_signedSample (mode : VerifyBackend) :
    (runOnlineCpu (signedSample mode)).isSome := by
  obtain ⟨hfirst, hsecond⟩ := sigs_signedSample mode
  rw [runOnlineCpu, if_pos (show (signedSample mode).verifySignatures = true from rfl),
    Option.isSome_map]
  cases mode with
  | cpu => rfl
  | gpuRaw => exact gpuRaw_signedSample hfirst hsecond
  | gpuFull => exact gpuFull_signedSample hfirst hsecond

theorem genuine_signedSample (mode : VerifyBackend) :
    {t | t < 2 ∧ (signedSample mode).Genuine [1311, 8124] t} = {0} := by
  have hfirst : (signedSample mode).Genuine [1311, 8124] 0 := by
    have hbound : (l2bound 1).toNat ≤ (signedSample mode).bound := by
      cases mode <;> decide
    exact ⟨by cases mode <;> decide +kernel, [1311, 8124], ⟨2, hash_one⟩, fun _ => 0,
      solves_one.1, solves_one.2.trans (by exact_mod_cast hbound)⟩
  have hsecond : ¬(signedSample mode).Genuine [1311, 8124] 1 := fun h =>
    absurd h.1 (by cases mode <;> decide +kernel)
  ext t
  rw [Set.mem_ofPred_eq, Set.mem_singleton_iff]
  constructor
  · rintro ⟨ht, hgenuine⟩
    interval_cases t
    · rfl
    · exact absurd hgenuine hsecond
  · rintro rfl
    exact ⟨by norm_num, hfirst⟩

theorem okCount_eq_signedSample :
    (∃ report, runOnlineCpu (signedSample .cpu) = some report ∧ report.okCount = 1) ∧
      (∃ report, runOnlineCpu (signedSample .gpuRaw) = some report ∧ report.okCount = 1) ∧
      ∃ report, runOnlineCpu (signedSample .gpuFull) = some report ∧ report.okCount = 1 := by
  have hcount : ∀ mode, ∃ report, runOnlineCpu (signedSample mode) = some report ∧
      report.okCount = 1 := by
    intro mode
    obtain ⟨report, hreport⟩ := Option.isSome_iff_exists.mp (returns_signedSample mode)
    have hcpu : OnlineDriver.execute (signedSample mode) .cpu = some report := hreport
    refine ⟨report, hreport, ?_⟩
    rw [okCount_eq (verifies_signedSample mode) rfl hcpu]
    exact (congrArg Set.ncard (genuine_signedSample mode)).trans (Set.ncard_singleton 0)
  exact ⟨hcount .cpu, hcount .gpuRaw, hcount .gpuFull⟩

end Soko.Benchmark
