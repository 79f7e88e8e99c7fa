import Soko.Benchmark.Online

/-!
What the back ends of the verification count. Three of them pass over the signatures of
length 0, in their own loop or in the preparation of their inputs. The full GPU back end
counts every entry of its result bank.
-/

namespace Soko.Benchmark

open Soko.Library Soko.Shake Soko.Signature Soko.Gpu

namespace OnlineRun

/-- The verdicts of the GPU: `raw` on a point and coefficients, `full` on the signature of a
token. A batch call that does not fail returns them entry by entry, and 0 for a signature
of length 0. -/
structure GpuVerdicts (run : OnlineRun) (raw : List UInt16 × List Int16 → Bool)
    (full : ℕ → List UInt8 → Bool) : Prop where
  rawBatch : ∀ entries resultBank, run.gpuVerifyRawBatch entries = some resultBank →
    ∀ i (h : i < entries.length), resultBank i ≠ 0 ↔ raw entries[i] = true
  compressedBatch : ∀ sigs resultBank, run.gpuVerifyCompressedBatch sigs = some resultBank →
    ∀ t (h : t < sigs.length), resultBank t ≠ 0 ↔ sigs[t].length ≠ 0 ∧ full t sigs[t] = true

variable (run : OnlineRun) (raw : List UInt16 × List Int16 → Bool) (full : ℕ → List UInt8 → Bool)

def signed (t : ℕ) : Bool := (run.signToken t).isSome

def accepts (t : ℕ) (sig : List UInt8) : Bool :=
  match run.verifyBackendMode with
  | .cpu => run.falconVerify (fillMessage msgSize t) sig
  | .gpuRaw =>
      match prepareVerifyRawInputsFromSignature run.hashFuel run.logn (fillMessage msgSize t)
        sig with
      | some (some inputs) => raw inputs
      | _ => false
  | .gpuFull => full t sig

def succeeds (t : ℕ) : Bool :=
  match run.signToken t with
  | some sig => !run.verifySignatures || run.accepts raw full t sig
  | none => false

def count (p : ℕ → Bool) : ℕ := (List.range run.tokens).countP p

end OnlineRun

section Verification

variable {run : OnlineRun} {raw : List UInt16 × List Int16 → Bool}
  {full : ℕ → List UInt8 → Bool} {sigs : ℕ → List UInt8}

/-- There is a signature to verify. -/
def stored (sigs : ℕ → List UInt8) (t : ℕ) : Bool := decide ((sigs t).length ≠ 0)

@[simp] theorem note_ok (counts : VerifyCounts) (accepted : Bool) :
    (counts.note accepted).ok = counts.ok + if accepted then 1 else 0 := by
  cases accepted <;> rfl

def VerifyCounts.total (counts : VerifyCounts) : ℕ := counts.ok + counts.fail

@[simp] theorem note_total (counts : VerifyCounts) (accepted : Bool) :
    (counts.note accepted).total = counts.total + 1 := by
  cases accepted <;> simp [VerifyCounts.note, VerifyCounts.total] <;> omega

/-- The verification has counted `accepted` as ok and everything in `verified` once. -/
structure VerifyCounts.Covers (counts : VerifyCounts) (run : OnlineRun)
    (accepted verified : ℕ → Bool) : Prop where
  ok : counts.ok = run.count accepted
  total : counts.total = run.count verified

@[simp] theorem verifyStep_ok (counts : VerifyCounts) (t : ℕ) :
    (run.verifyStep sigs counts t).ok = counts.ok +
      if stored sigs t && run.falconVerify (fillMessage msgSize t) (sigs t) then 1 else 0 := by
  unfold OnlineRun.verifyStep stored
  split <;> simp_all

@[simp] theorem verifyStep_total (counts : VerifyCounts) (t : ℕ) :
    (run.verifyStep sigs counts t).total =
      counts.total + if stored sigs t then 1 else 0 := by
  unfold OnlineRun.verifyStep stored
  split <;> simp_all

theorem runVerifyBatchSerial_covers :
    (run.runVerifyBatchSerial sigs).Covers run
      (fun t => stored sigs t && run.falconVerify (fillMessage msgSize t) (sigs t))
      (stored sigs) where
  ok := (foldl_counter VerifyCounts.ok verifyStep_ok _ _).trans (Nat.zero_add _)
  total := (foldl_counter VerifyCounts.total verifyStep_total _ _).trans (Nat.zero_add _)

theorem runVerifyBatchMt_covers (verifyThreads : ℤ) (verifying : ThreadPartition run.tokens) :
    (run.runVerifyBatchMt sigs verifyThreads verifying).Covers run
      (fun t => stored sigs t && run.falconVerify (fillMessage msgSize t) (sigs t))
      (stored sigs) := by
  unfold OnlineRun.runVerifyBatchMt
  split
  · exact runVerifyBatchSerial_covers
  · split
    · exact runVerifyBatchSerial_covers
    · constructor
      · rw [OnlineRun.count, ← verifying.perm.countP_eq]
        exact (parallelLoop_counter VerifyCounts.ok VerifyCounts.ok (fun _ => rfl) verifyStep_ok
          (fun _ _ => rfl) _ _).trans (Nat.zero_add _)
      · rw [OnlineRun.count, ← verifying.perm.countP_eq]
        refine (parallelLoop_counter VerifyCounts.total VerifyCounts.total (fun _ => rfl)
          verifyStep_total (fun counts thread => ?_) _ _).trans (Nat.zero_add _)
        simp only [VerifyCounts.total, VerifyCounts.add]
        omega

theorem countResults_ok (resultBank : ℕ → UInt8) (n : ℕ) (counts : VerifyCounts) :
    (countResults resultBank n counts).ok =
      counts.ok + (List.range n).countP fun i => decide (resultBank i ≠ 0) := by
  unfold countResults
  apply foldl_counter VerifyCounts.ok
  intro counts i
  exact note_ok counts _

theorem countResults_total (resultBank : ℕ → UInt8) (n : ℕ) (counts : VerifyCounts) :
    (countResults resultBank n counts).total = counts.total + n := by
  have hlength : (List.range n).countP (fun _ => true) = n := by
    rw [List.countP_true, List.length_range]
  unfold countResults
  refine (foldl_counter VerifyCounts.total (fun counts i => ?_) (List.range n) counts).trans
    (congrArg _ hlength)
  exact note_total counts _

/-- The first loop of the raw back end: every stored signature is either prepared or
counted as a failure, and the accepted ones are among those prepared. -/
theorem prepareStep_counts (raw : List UInt16 × List Int16 → Bool)
    (full : ℕ → List UInt8 → Bool) {s s' : List (List UInt16 × List Int16) × ℕ} {t : ℕ}
    (hraw : run.verifyBackendMode = .gpuRaw) (h : run.prepareStep sigs s t = some s') :
    s'.1.countP raw = s.1.countP raw +
        (if stored sigs t && run.accepts raw full t (sigs t) then 1 else 0) ∧
      s'.2 + s'.1.length = s.2 + s.1.length + if stored sigs t then 1 else 0 := by
  unfold OnlineRun.prepareStep at h
  split at h
  · -- skipped
    rename_i hempty
    obtain rfl := Option.some.inj h
    simp [stored, hempty]
  · rename_i hstored
    obtain ⟨prepared, hprepared, rfl⟩ := Option.map_eq_some_iff.mp h
    have htrue : stored sigs t = true := decide_eq_true hstored
    rw [htrue, Bool.true_and, if_pos rfl]
    simp only [OnlineRun.accepts, hraw, hprepared]
    cases prepared with
    | none => exact ⟨rfl, by dsimp only; omega⟩
    | some inputs =>
        simp only [List.countP_append, List.countP_singleton, List.length_append,
          List.length_singleton]
        exact ⟨trivial, by omega⟩

theorem runVerifyBatchGpuRaw_covers (hgpu : run.GpuVerdicts raw full)
    (hraw : run.verifyBackendMode = .gpuRaw) {counts : VerifyCounts}
    (h : run.runVerifyBatchGpuRaw sigs = some counts) :
    counts.Covers run (fun t => stored sigs t && run.accepts raw full t (sigs t))
      (stored sigs) := by
  unfold OnlineRun.runVerifyBatchGpuRaw at h
  split at h
  · contradiction
  obtain ⟨⟨entries, fail⟩, hloop, hcall⟩ := Option.bind_eq_some_iff.mp h
  have haccepted := foldlM_counter (fun s => s.1.countP raw)
    (fun _ _ _ hstep => (prepareStep_counts raw full hraw hstep).1) hloop
  have hstored := foldlM_counter (fun s => s.2 + s.1.length)
    (fun _ _ _ hstep => (prepareStep_counts raw full hraw hstep).2) hloop
  simp only [List.countP_nil, List.length_nil, Nat.zero_add] at haccepted hstored
  dsimp only at hcall
  split at hcall
  · obtain ⟨resultBank, hbank, rfl⟩ := Option.map_eq_some_iff.mp hcall
    have hresults : (List.range entries.length).countP (fun i => decide (resultBank i ≠ 0)) =
        entries.countP raw := by
      apply countP_range_length
      intro i hi
      simp [hgpu.rawBatch entries resultBank hbank i hi]
    constructor
    · rw [countResults_ok, hresults, haccepted, OnlineRun.count, Nat.zero_add]
    · rw [countResults_total, OnlineRun.count, ← hstored, VerifyCounts.total, Nat.zero_add]
  · -- without entries the batch call is left out
    rename_i hnone
    obtain rfl := Option.some.inj hcall
    obtain rfl : entries = [] := by
      apply List.eq_nil_of_length_eq_zero
      omega
    exact ⟨haccepted, by rw [OnlineRun.count, ← hstored]; simp [VerifyCounts.total]⟩

/-- The full back end counts the signatures of length 0 too. -/
theorem runVerifyBatchGpuFull_covers (hgpu : run.GpuVerdicts raw full)
    (hfull : run.verifyBackendMode = .gpuFull) {counts : VerifyCounts}
    (h : run.runVerifyBatchGpuFull sigs = some counts) :
    counts.Covers run (fun t => stored sigs t && run.accepts raw full t (sigs t))
      fun _ => true := by
  unfold OnlineRun.runVerifyBatchGpuFull at h
  split at h
  · contradiction
  obtain ⟨resultBank, hbank, rfl⟩ := Option.map_eq_some_iff.mp h
  constructor
  · rw [countResults_ok]
    refine (Nat.zero_add _).trans (List.countP_congr fun t ht => ?_)
    have hverdict := hgpu.compressedBatch _ resultBank hbank t (by simpa using ht)
    simp only [List.getElem_map, List.getElem_range] at hverdict
    simp [stored, OnlineRun.accepts, hfull, hverdict]
  · rw [countResults_total, OnlineRun.count, List.countP_true, List.length_range]
    exact Nat.zero_add _

theorem runVerifyBatch_covers (hgpu : run.GpuVerdicts raw full) {onCpu counts : VerifyCounts}
    (hcpu : onCpu.Covers run
      (fun t => stored sigs t && run.falconVerify (fillMessage msgSize t) (sigs t))
      (stored sigs))
    (h : run.runVerifyBatch onCpu sigs = some counts) :
    counts.Covers run (fun t => stored sigs t && run.accepts raw full t (sigs t))
      fun t => stored sigs t || decide (run.verifyBackendMode = .gpuFull) := by
  unfold OnlineRun.runVerifyBatch at h
  cases hmode : run.verifyBackendMode with
  | cpu =>
      rw [hmode] at h
      obtain rfl := Option.some.inj h
      simpa [OnlineRun.accepts, hmode] using hcpu
  | gpuRaw =>
      rw [hmode] at h
      simpa using runVerifyBatchGpuRaw_covers hgpu hmode h
  | gpuFull =>
      rw [hmode] at h
      simpa using runVerifyBatchGpuFull_covers hgpu hmode h

end Verification

end Soko.Benchmark
