import Mathlib
import Soko.FnDsa.Tables
import Soko.Gpu.PresignGrid

/-!
A successful call of `oofalcon_gpu_generate_presign_bank`, from the globals of the host to
the banks that it copies back. The kernel reads what the buffers hold, and these are those of
the key of the call (`Presigned.equation`).
-/

namespace Soko.Gpu

open Soko.Library Soko.FnDsa

section Congr

/-! The kernel only reads the first entries of the key and of the tables. -/

variable {blockDim n : ℕ} {gmb' igmb' : ℕ → UInt16} (hdim : 0 < blockDim)
include hdim

theorem nttStage_table {gmb : ℕ → UInt16} {m t : ℕ} (hn : n = m * t)
    (htable : ∀ i < 2 * m, gmb i = gmb' i) (schedule : Schedule blockDim n) (a : ℕ → UInt32) :
    runTasks (nttIteration gmb m t) schedule.order a =
      runTasks (nttIteration gmb' m t) schedule.order a := by
  refine List.foldl_ext _ _ a fun a j hj => ?_
  have hlt : j < m * t := hn ▸ (schedule.mem_order hdim).mp hj
  have hblock : j / t < m := Nat.div_lt_of_lt_mul (by rwa [Nat.mul_comm])
  simp only [nttIteration, htable (m + j / t) (by omega)]

theorem kernelNtt_table {gmb : ℕ → UInt16} {levels m : ℕ} (hm : 0 < m) (hn : n = m * 2 ^ levels)
    (htable : ∀ i < n, gmb i = gmb' i) (orders : ℕ → Schedule blockDim n) (a : ℕ → UInt32) :
    kernelNtt gmb orders m (2 ^ levels) a = kernelNtt gmb' orders m (2 ^ levels) a := by
  induction levels generalizing m a with
  | zero => rw [kernelNtt.eq_def gmb, kernelNtt.eq_def gmb', if_neg (by omega), if_neg (by omega)]
  | succ levels ih =>
      have hpow : 2 ^ (levels + 1) = 2 * 2 ^ levels := pow_succ' 2 levels
      have hpos : 0 < 2 ^ levels := Nat.two_pow_pos levels
      have hdouble : n = 2 * m * 2 ^ levels := by rw [hn, hpow]; ring
      have hle : 2 * m ≤ n := hdouble ▸ Nat.le_mul_of_pos_right _ hpos
      rw [kernelNtt.eq_def gmb, kernelNtt.eq_def gmb', if_pos ⟨hm, by omega⟩,
        if_pos ⟨hm, by omega⟩, nttStage_table hdim hn (fun i hi => htable i (by omega)), hpow,
        Nat.mul_div_cancel_left _ two_pos]
      exact ih (by omega) hdouble _

theorem inttStage_table {igmb : ℕ → UInt16} {m t : ℕ} (hn : n = 2 * m * t)
    (htable : ∀ i < 2 * m, igmb i = igmb' i) (schedule : Schedule blockDim n) (a : ℕ → UInt32) :
    runTasks (inttIteration igmb (2 * m) t) schedule.order a =
      runTasks (inttIteration igmb' (2 * m) t) schedule.order a := by
  refine List.foldl_ext _ _ a fun a j hj => ?_
  have hlt : j < 2 * t * m := by
    have hmem := (schedule.mem_order hdim).mp hj
    rw [hn] at hmem
    linarith
  have hblock : j / (2 * t) < m := Nat.div_lt_of_lt_mul hlt
  simp only [inttIteration, Nat.mul_div_cancel_left m two_pos,
    htable (m + j / (2 * t)) (by omega)]

theorem kernelIntt_table {igmb : ℕ → UInt16} {levels d : ℕ} (hn : n = 2 ^ levels * 2 ^ d)
    (htable : ∀ i < n, igmb i = igmb' i) (orders : ℕ → Schedule blockDim n) (a : ℕ → UInt32) :
    kernelIntt igmb orders (2 ^ levels) (2 ^ d) a =
      kernelIntt igmb' orders (2 ^ levels) (2 ^ d) a := by
  induction levels generalizing d a with
  | zero =>
      rw [kernelIntt.eq_def igmb, kernelIntt.eq_def igmb', if_neg (by norm_num),
        if_neg (by norm_num)]
  | succ levels ih =>
      have hpow : 2 ^ (levels + 1) = 2 * 2 ^ levels := pow_succ' 2 levels
      have hpos : 0 < 2 ^ levels := Nat.two_pow_pos levels
      have hle : 2 * 2 ^ levels ≤ n := by
        rw [hn, hpow]
        exact Nat.le_mul_of_pos_right _ (Nat.two_pow_pos d)
      rw [hpow] at hn ⊢
      rw [kernelIntt.eq_def igmb, kernelIntt.eq_def igmb', if_pos (by omega), if_pos (by omega),
        inttStage_table hdim hn (fun i hi => htable i (by omega)),
        Nat.mul_div_cancel_left _ two_pos, ← pow_succ']
      exact ih (by rw [hn, pow_succ']; ring) _

variable {logn : ℕ}

theorem kernelProduct_table {gmb igmb : ℕ → UInt16} (hgmb : ∀ i < 2 ^ logn, gmb i = gmb' i)
    (higmb : ∀ i < 2 ^ logn, igmb i = igmb' i) {hHat hHat' : ℕ → UInt32}
    (hkey : ∀ j < 2 ^ logn, hHat j = hHat' j) (schedules : ProductSchedules blockDim (2 ^ logn))
    (a : ℕ → UInt32) :
    kernelProduct gmb igmb schedules hHat a = kernelProduct gmb' igmb' schedules hHat' a := by
  have hntt := kernelNtt_table hdim one_pos (one_mul _).symm hgmb schedules.ntt a
  have hintt := kernelIntt_table (d := 0) hdim (mul_one _).symm higmb schedules.intt
  have hmultiply : ∀ a : ℕ → UInt32,
      runTasks (pointTask fun j x => mqMontymulDevice x (hHat j)) schedules.multiply.order a =
        runTasks (pointTask fun j x => mqMontymulDevice x (hHat' j)) schedules.multiply.order
          a := by
    intro a
    refine List.foldl_ext _ _ a fun a j hj => ?_
    simp only [pointTask, hkey j ((schedules.multiply.mem_order hdim).mp hj)]
  rw [pow_zero] at hintt
  simp only [kernelProduct, hntt, hmultiply, hintt]

theorem presignConv_table {gmb igmb : ℕ → UInt16} (hgmb : ∀ i < 2 ^ logn, gmb i = gmb' i)
    (higmb : ∀ i < 2 ^ logn, igmb i = igmb' i) (nInv : UInt32)
    (schedules : PresignSchedules blockDim (2 ^ logn)) (s : PresignState) :
    presignConv gmb igmb nInv schedules s = presignConv gmb' igmb' nInv schedules s := by
  simp only [presignConv, kernelProduct_table hdim hgmb higmb (fun _ _ => rfl)]

theorem loadKey_congr {hHat hHat' : ℕ → UInt16} (hkey : ∀ j < n, hHat j = hHat' j)
    (schedule : Schedule blockDim n) (s : PresignState) :
    loadKey hHat schedule s = loadKey hHat' schedule s := by
  have hload : runTasks (scatterTask id fun j => (hHat j).toUInt32) schedule.order s.h =
      runTasks (scatterTask id fun j => (hHat' j).toUInt32) schedule.order s.h := by
    refine List.foldl_ext _ _ _ fun a j hj => ?_
    simp only [scatterTask, hkey j ((schedule.mem_order hdim).mp hj)]
  rw [loadKey, loadKey, hload]

theorem presignWrites_congr {hHat hHat' gmb igmb : ℕ → UInt16}
    (hkey : ∀ j < 2 ^ logn, hHat j = hHat' j) (hgmb : ∀ i < 2 ^ logn, gmb i = gmb' i)
    (higmb : ∀ i < 2 ^ logn, igmb i = igmb' i) (fuel : ℕ) (nInv : UInt32) (tokens : ℕ)
    (seed : UInt32) (token : ℕ) (schedules : PresignSchedules blockDim (2 ^ logn))
    (s : PresignState) :
    presignWrites fuel hHat gmb igmb nInv tokens seed token schedules s =
      presignWrites fuel hHat' gmb' igmb' nInv tokens seed token schedules s := by
  simp only [presignWrites, loadKey_congr hdim hkey, presignConv_table hdim hgmb higmb]

end Congr

def deviceWords (pointer : Option DeviceBuffer) (i : ℕ) : UInt16 :=
  (pointer.bind fun buffer => buffer.words i).getD 0

theorem Filled.deviceWords {pointer : Option DeviceBuffer} {key : Key} {n : ℕ}
    (h : Filled pointer key n) {i : ℕ} (hi : i < n) : deviceWords pointer i = key i := by
  obtain ⟨buffer, rfl, hholds⟩ := h
  rw [Gpu.deviceWords, Option.bind_some, hholds i hi, Option.getD_some]

abbrev Launch.Grid (launch : Launch) (fuel tokens : ℕ) (seed : UInt32) (banks : PresignBanks) :=
  GridWrites fuel (deviceWords launch.deviceKey) (deviceWords launch.gmb)
    (deviceWords launch.igmb) launch.nInv tokens 256 (2 ^ launch.logn) seed banks

theorem eq_nInv {logn : ℕ} {x : UInt32}
    (hx : Reduced x ∧ 2 ^ logn * (residue x * montyInverse) = 1) : x = nInv logn := by
  obtain ⟨hred, hone⟩ := nInv_spec logn
  refine eq_of_residue hx.1 hred ?_
  calc residue x = residue x * (2 ^ logn * (residue (nInv logn) * montyInverse)) := by
        rw [hone, mul_one]
    _ = 2 ^ logn * (residue x * montyInverse) * residue (nInv logn) := by ring
    _ = residue (nInv logn) := by rw [hx.2, one_mul]

theorem Launch.IsFor.presignEquation {launch : Launch} {h : Key} {logn : ℕ}
    (hfor : launch.IsFor h logn) (hlogn : logn ≤ 10) (hh : ∀ j < 2 ^ logn, (h j).toNat < 12289)
    {fuel tokens : ℕ} {seed : UInt32} {banks : PresignBanks}
    (hsize : tokens * 2 ^ logn ≤ 2 ^ 31) (grid : launch.Grid fuel tokens seed banks) {token : ℕ}
    (htoken : token < tokens) :
    PresignEquation (2 ^ logn) h (bankIndex token (2 ^ logn)) grid.result := by
  obtain ⟨rfl, hkey, hgmb, higmb, hnInv⟩ := hfor
  have hle := two_pow_le_1024 hlogn
  have hwrites : ∀ token, presignWrites fuel (preparedKey launch.logn h) Gpu.gmb Gpu.igmb
      (Gpu.nInv launch.logn) tokens seed token (grid.schedules token) (grid.states token) =
        some (grid.writes token) := by
    intro token
    rw [← grid.writes_eq token, ← eq_nInv hnInv]
    exact (presignWrites_congr (show 0 < 256 by decide) (fun j hj => hkey.deviceWords hj)
      (fun i hi => hgmb.deviceWords (by omega)) (fun i hi => higmb.deviceWords (by omega)) fuel
      launch.nInv tokens seed token _ _).symm
  exact GridWrites.presignEquation (show 0 < 256 by decide) hlogn hh hsize
    { grid with writes_eq := hwrites } htoken

/-- Banks that a successful call copies back, after any calls before it. -/
inductive Presigned (h : Key) (logn tokens : ℕ) (seed : UInt32) : PresignBanks → Prop
  | intro {requests : List Request} {request : Request} {launch : Launch} {fuel : ℕ}
      {banks : PresignBanks} (hcuda : ∀ r ∈ requests ++ [request], r.ok.CudaSucceeds)
      (hcall : request.call = .generatePresignBank (some h) logn tokens true)
      (hcode : (request.perform (runRequests requests .initial)).code = 0)
      (hlaunch : (request.perform (runRequests requests .initial)).launch = some launch)
      (grid : launch.Grid fuel tokens seed banks) : Presigned h logn tokens seed grid.result

theorem Presigned.equation {h : Key} {logn tokens : ℕ} {seed : UInt32} {banks : PresignBanks}
    (hpresigned : Presigned h logn tokens seed banks)
    (hh : ∀ j < 2 ^ logn, (h j).toNat < 12289) (hsize : tokens * 2 ^ logn ≤ 2 ^ 31) {token : ℕ}
    (htoken : token < tokens) :
    PresignEquation (2 ^ logn) h (bankIndex token (2 ^ logn)) banks := by
  obtain ⟨hcuda, hcall, -, hlaunch, grid⟩ := hpresigned
  obtain ⟨-, key, hkey, hfor⟩ := perform_presign_launch (hcuda _ (by simp)) hcall
    (runRequests_tableCache_valid _ fun r hr => hcuda r (by simp [hr])) hlaunch
  obtain rfl := Option.some.inj hkey
  have hlogn : logn ≤ 10 := by
    rw [Request.perform, hcall] at hlaunch
    obtain ⟨-, hsizes, -⟩ := of_runBatch_launch hlaunch
    exact (of_decide_eq_true hsizes).2.1
  exact hfor.presignEquation hlogn hh hsize grid htoken

/-- A launch whose samples are all drawn has an interleaving. -/
theorem exists_grid (launch : Launch) {fuel tokens : ℕ} {seed : UInt32} (banks : PresignBanks)
    (hdraws : ∀ token < tokens, ∀ j < 2 ^ launch.logn, (drawSamples fuel seed token j).isSome) :
    Nonempty (launch.Grid fuel tokens seed banks) := by
  have hall : ∀ token, ∃ writes, presignWrites fuel (deviceWords launch.deviceKey)
      (deviceWords launch.gmb) (deviceWords launch.igmb) launch.nInv tokens seed token
      (PresignSchedules.sequential 256 (2 ^ launch.logn)) { blankPresignState with banks } =
        some writes := by
    intro token
    by_cases htoken : token < tokens
    · exact Option.isSome_iff_exists.mp
        ((isSome_presignWrites (show 0 < 256 by decide) htoken).mpr (hdraws token htoken))
    · exact ⟨[], if_pos (by omega)⟩
  choose writes hwrites using hall
  refine ⟨⟨fun _ => .sequential 256 (2 ^ launch.logn), fun _ => { blankPresignState with banks },
    writes, inTurn writes (List.range tokens), fun _ => rfl, hwrites,
    interleaves_inTurn List.nodup_range fun token htoken => ?_⟩⟩
  rw [List.mem_range] at htoken
  have hnone := hwrites token
  rw [presignWrites, if_pos (by omega)] at hnone
  exact (Option.some.inj hnone).symm

/-- A successful first call for one token of degree 2, if the samples are drawn. -/
theorem exists_presigned_sampleKey {fuel : ℕ} {seed : UInt32}
    (hdraws : ∀ j < 2 ^ 1, (drawSamples fuel seed 0 j).isSome) :
    ∃ banks, Presigned sampleKey 1 1 seed banks := by
  have hsome : ((presignWith sampleKey 1).perform (runRequests [] .initial)).launch.isSome = true :=
    rfl
  obtain ⟨launch, hlaunch⟩ := Option.isSome_iff_exists.mp hsome
  have hlogn : launch.logn = 1 := (of_runBatch_launch hlaunch).2.2.2.1
  have hall : ∀ token < 1, ∀ j < 2 ^ launch.logn, (drawSamples fuel seed token j).isSome := by
    intro token htoken
    rwa [Nat.lt_one_iff.mp htoken, hlogn]
  obtain ⟨grid⟩ := exists_grid launch blankPresignState.banks hall
  have hcuda : ∀ r ∈ [] ++ [presignWith sampleKey 1], r.ok.CudaSucceeds := by
    intro r hr site _
    obtain rfl : r = presignWith sampleKey 1 := by simpa using hr
    rfl
  exact ⟨_, Presigned.intro hcuda rfl rfl hlaunch grid⟩

end Soko.Gpu
