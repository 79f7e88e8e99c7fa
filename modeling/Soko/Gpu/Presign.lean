import Soko.Gpu.Sampler
import Soko.Gpu.Transform

/-!
`kernel_generate_samples_and_targets`, for one block of threads, that is for one
token. Every phase between barriers runs along a schedule of its own. Whatever
the schedules are, the targets it writes and the samples it writes fulfil the
presign equation `target = s1 - h * s2` modulo `X ^ n + 1`.
-/

namespace Soko.Gpu

open Soko.Library

/-- `base + j` for `base = token * n`, in the `int` arithmetic of the kernels. -/
def bankIndex (token n j : ℕ) : ℤ := (Int32.ofNat token * Int32.ofNat n + Int32.ofNat j).toInt

structure PresignBanks where
  sample1 : ℤ → Int8
  sample2 : ℤ → Int8
  target : ℤ → UInt16

/-- The shared memory of a block, and the banks. -/
structure PresignState where
  h : ℕ → UInt32
  u0 : ℕ → UInt32
  u1 : ℕ → UInt32
  banks : PresignBanks

/-- The orders in which a block executes the iterations of its phases. -/
structure PresignSchedules (blockDim n : ℕ) where
  load : Schedule blockDim n
  sample : Schedule blockDim n
  product : ProductSchedules blockDim n
  scale : Schedule blockDim n
  target : Schedule blockDim n

def PresignSchedules.sequential (blockDim n : ℕ) : PresignSchedules blockDim n where
  load := .sequential blockDim n
  sample := .sequential blockDim n
  product := .sequential blockDim n
  scale := .sequential blockDim n
  target := .sequential blockDim n

def loadKey {blockDim n : ℕ} (hHat : ℕ → UInt16) (schedule : Schedule blockDim n)
    (s : PresignState) : PresignState :=
  { s with h := runTasks (scatterTask id fun j => (hHat j).toUInt32) schedule.order s.h }

def storeSamples (token n j : ℕ) (drawn : Int8 × Int8) (s : PresignState) : PresignState :=
  { s with
    u0 := scatterTask id (fun _ => addQIfNegative drawn.1.toInt32.toUInt32) j s.u0
    u1 := scatterTask id (fun _ => addQIfNegative drawn.2.toInt32.toUInt32) j s.u1
    banks := { s.banks with
      sample1 := scatterTask (bankIndex token n) (fun _ => drawn.1) j s.banks.sample1
      sample2 := scatterTask (bankIndex token n) (fun _ => drawn.2) j s.banks.sample2 } }

def presignTarget (u0 conv : UInt32) : UInt32 :=
  let t := u0 + oofalconQ - conv
  if t ≥ oofalconQ then t - oofalconQ else t

/-- The phases from the NTT to the multiplication by `n_inv`. -/
def presignConv (gmb igmb : ℕ → UInt16) (nInv : UInt32) {blockDim n : ℕ}
    (schedules : PresignSchedules blockDim n) (s : PresignState) : ℕ → UInt32 :=
  runTasks (pointTask fun _ x => mqMontymulDevice x nInv) schedules.scale.order
    (kernelProduct gmb igmb schedules.product s.h s.u1)

/-- The last phase, which writes the targets. -/
def presignStore {blockDim n : ℕ} (token : ℕ) (schedules : PresignSchedules blockDim n)
    (u0 conv : ℕ → UInt32) (banks : PresignBanks) : PresignBanks :=
  { banks with
    target := runTasks
      (scatterTask (bankIndex token n) fun j => (presignTarget (u0 j) (conv j)).toUInt16)
      schedules.target.order banks.target }

@[simp] theorem presignStore_sample1 {blockDim n : ℕ} (token : ℕ)
    (schedules : PresignSchedules blockDim n) (u0 conv : ℕ → UInt32) (banks : PresignBanks) :
    (presignStore token schedules u0 conv banks).sample1 = banks.sample1 := rfl

@[simp] theorem presignStore_sample2 {blockDim n : ℕ} (token : ℕ)
    (schedules : PresignSchedules blockDim n) (u0 conv : ℕ → UInt32) (banks : PresignBanks) :
    (presignStore token schedules u0 conv banks).sample2 = banks.sample2 := rfl

/-- `kernel_generate_samples_and_targets`, for the block of `token`. The loading
and the sampling loop have no barrier between them, but no data in common either. -/
def kernelGenerateSamplesAndTargets (fuel : ℕ) (hHat gmb igmb : ℕ → UInt16) (nInv : UInt32)
    (tokens : ℕ) {blockDim n : ℕ} (seed : UInt32) (token : ℕ)
    (schedules : PresignSchedules blockDim n) (s : PresignState) : Option PresignBanks :=
  if token ≥ tokens then some s.banks
  else
    (runDraws (drawSamples fuel seed token) (storeSamples token n) schedules.sample.order
      (loadKey hHat schedules.load s)).map
      fun s => presignStore token schedules s.u0 (presignConv gmb igmb nInv schedules s) s.banks

theorem bankIndex_injOn (token n : ℕ) : Set.InjOn (bankIndex token n) {j | j < 2 ^ 31} := by
  intro j hj k hk heq
  have hsum := Int32.toInt_inj.mp heq
  have hoffset : Int32.ofNat j = Int32.ofNat k := (Int32.add_right_inj _).mp hsum
  have hint := congrArg Int32.toInt hoffset
  rw [Int32.toInt_ofNat_of_lt hj, Int32.toInt_ofNat_of_lt hk] at hint
  exact_mod_cast hint

theorem presignTarget_eq {u0 conv : UInt32} (hu0 : Reduced u0) (hconv : Reduced conv) :
    presignTarget u0 conv = mqSubU32 u0 conv := by
  apply UInt32.toNat_inj.mp
  rw [toNat_mqSubU32 hu0 hconv]
  unfold Reduced at hu0 hconv
  have hle : conv ≤ u0 + oofalconQ := by
    rw [UInt32.le_iff_toNat_le, UInt32.toNat_add]
    simp only [oofalconQ, UInt32.reduceToNat]
    omega
  have hdiff : (u0 + oofalconQ - conv).toNat = u0.toNat + 12289 - conv.toNat := by
    rw [UInt32.toNat_sub_of_le _ _ hle, UInt32.toNat_add]
    simp only [oofalconQ, UInt32.reduceToNat]
    omega
  simp only [presignTarget, ge_iff_le, UInt32.le_iff_toNat_le, hdiff]
  split
  · have hge : oofalconQ ≤ u0 + oofalconQ - conv := by rwa [UInt32.le_iff_toNat_le, hdiff]
    rw [UInt32.toNat_sub_of_le _ _ hge, hdiff]
    simp only [oofalconQ, UInt32.reduceToNat] at *
    omega
  · simp only [oofalconQ, UInt32.reduceToNat] at *
    omega

/-! The phases of a block whose samples have been drawn. -/

section Block

variable {blockDim n : ℕ} {drawn : ℕ → Int8 × Int8} (token : ℕ)

def sampleLoop (drawn : ℕ → Int8 × Int8) (token n : ℕ) (order : List ℕ) (s : PresignState) :
    PresignState :=
  runTasks (fun j => storeSamples token n j (drawn j)) order s

@[simp] theorem sampleLoop_h (order : List ℕ) (s : PresignState) :
    (sampleLoop drawn token n order s).h = s.h := by
  induction order generalizing s with
  | nil => rfl
  | cons j order ih => exact ih (storeSamples token n j (drawn j) s)

variable (hdim : 0 < blockDim) (schedule : Schedule blockDim n) (s : PresignState)
include hdim

/-- What the sampling loop leaves in the cells it writes. -/
theorem sampleLoop_component {κ α : Type*} [DecidableEq κ] (component : PresignState → κ → α)
    (idx : ℕ → κ) (val : ℕ → α) (hinj : Set.InjOn idx {j | j ∈ schedule.order})
    (hcomponent : ∀ j s, component (storeSamples token n j (drawn j) s) =
      scatterTask idx val j (component s)) {j : ℕ} (hj : j < n) :
    component (sampleLoop drawn token n schedule.order s) (idx j) = val j := by
  rw [sampleLoop, runTasks_component component (scatterTask idx val) hcomponent]
  exact runTasks_scatterTask idx val (schedule.nodup hdim) hinj _ ((schedule.mem_order hdim).mpr hj)

theorem sampleLoop_u0 {j : ℕ} (hj : j < n) :
    (sampleLoop drawn token n schedule.order s).u0 j =
      addQIfNegative (drawn j).1.toInt32.toUInt32 :=
  sampleLoop_component token hdim schedule s PresignState.u0 id
    (fun j => addQIfNegative (drawn j).1.toInt32.toUInt32) Function.injective_id.injOn
    (fun _ _ => rfl) hj

theorem sampleLoop_u1 {j : ℕ} (hj : j < n) :
    (sampleLoop drawn token n schedule.order s).u1 j =
      addQIfNegative (drawn j).2.toInt32.toUInt32 :=
  sampleLoop_component token hdim schedule s PresignState.u1 id
    (fun j => addQIfNegative (drawn j).2.toInt32.toUInt32) Function.injective_id.injOn
    (fun _ _ => rfl) hj

variable (hn : n ≤ 2 ^ 31)
include hn

/-- The threads write each their own cells of the banks. -/
theorem bankIndex_injOn_order : Set.InjOn (bankIndex token n) {j | j ∈ schedule.order} := by
  refine (bankIndex_injOn token n).mono fun j hj => ?_
  have hlt := (schedule.mem_order hdim).mp hj
  exact lt_of_lt_of_le hlt hn

theorem sampleLoop_sample1 {j : ℕ} (hj : j < n) :
    (sampleLoop drawn token n schedule.order s).banks.sample1 (bankIndex token n j) =
      (drawn j).1 :=
  sampleLoop_component token hdim schedule s (fun s => s.banks.sample1) (bankIndex token n)
    (fun j => (drawn j).1) (bankIndex_injOn_order token hdim schedule hn) (fun _ _ => rfl) hj

theorem sampleLoop_sample2 {j : ℕ} (hj : j < n) :
    (sampleLoop drawn token n schedule.order s).banks.sample2 (bankIndex token n j) =
      (drawn j).2 :=
  sampleLoop_component token hdim schedule s (fun s => s.banks.sample2) (bankIndex token n)
    (fun j => (drawn j).2) (bankIndex_injOn_order token hdim schedule hn) (fun _ _ => rfl) hj

end Block

/-- What the banks hold for the key `h`, in the `n` cells of a token. -/
structure PresignEquation (n : ℕ) (h : ℕ → UInt16) (cell : ℕ → ℤ) (banks : PresignBanks) :
    Prop where
  target_lt : ∀ j < n, (banks.target (cell j)).toNat < 12289
  target_eq : ringElement n (fun j => residue16 (banks.target (cell j))) =
    ringElement n (fun j => ((banks.sample1 (cell j)).toInt : ZMod 12289)) -
      ringElement n (fun j => residue16 (h j)) *
        ringElement n (fun j => ((banks.sample2 (cell j)).toInt : ZMod 12289))

section Equation

variable {blockDim logn : ℕ}

theorem lifted_sample (x : Int8) :
    Reduced (addQIfNegative x.toInt32.toUInt32) ∧
      residue (addQIfNegative x.toInt32.toUInt32) = (x.toInt : ZMod 12289) := by
  have hlow := x.le_toInt
  have hhigh := x.toInt_lt
  have hspec := addQIfNegative_spec (x := x.toInt32)
  rw [Int8.toInt_toInt32] at hspec
  exact hspec (by omega) (by omega)

variable (hdim : 0 < blockDim) (hlogn : logn ≤ 10) {h : ℕ → UInt16}
  (schedules : PresignSchedules blockDim (2 ^ logn))
include hdim hlogn

theorem presignConv_spec (hh : ReducedBelow16 (2 ^ logn) h) {s : PresignState}
    (hs : ∀ j < 2 ^ logn, s.h j = (preparedKey logn h j).toUInt32)
    (hu1 : ReducedBelow (2 ^ logn) s.u1) {j : ℕ} (hj : j < 2 ^ logn) :
    Reduced (presignConv gmb igmb (nInv logn) schedules s j) ∧
      residue (presignConv gmb igmb (nInv logn) schedules s j) =
        negacyclicMul (2 ^ logn) (fun j => residue16 (h j)) (fun j => residue (s.u1 j)) j := by
  obtain ⟨hkey, hkeyres⟩ := preparedKey_spec hlogn hh
  rw [presignConv, runTasks_pointTask (schedules.scale.nodup hdim) _
    ((schedules.scale.mem_order hdim).mpr hj)]
  refine kernelProduct_spec hdim hlogn schedules.product (fun j hj => ?_) (fun j hj => ?_) hu1 hj
  · rw [hs j hj]
    exact hkey j hj
  · rw [hs j hj]
    exact hkeyres j hj

theorem presignStore_target (token : ℕ) {u0 conv : ℕ → UInt32} (banks : PresignBanks)
    (hu0 : ReducedBelow (2 ^ logn) u0) (hconv : ReducedBelow (2 ^ logn) conv) {j : ℕ}
    (hj : j < 2 ^ logn) :
    (presignStore token schedules u0 conv banks).target (bankIndex token (2 ^ logn) j) =
      (mqSubU32 (u0 j) (conv j)).toUInt16 := by
  have hn : 2 ^ logn ≤ 2 ^ 31 := Nat.pow_le_pow_right two_pos (by omega)
  rw [presignStore, ← presignTarget_eq (hu0 j hj) (hconv j hj)]
  exact runTasks_scatterTask _ (fun j => (presignTarget (u0 j) (conv j)).toUInt16)
    (schedules.target.nodup hdim)
    (bankIndex_injOn_order token hdim schedules.target hn) _
    ((schedules.target.mem_order hdim).mpr hj)

/-- The banks after the phases that follow the sampling loop. -/
theorem presignEquation_of_drawn (hh : ReducedBelow16 (2 ^ logn) h) (token : ℕ)
    (drawn : ℕ → Int8 × Int8) {s : PresignState}
    (hs : ∀ j < 2 ^ logn, s.h j = (preparedKey logn h j).toUInt32) :
    let s' := sampleLoop drawn token (2 ^ logn) schedules.sample.order s
    PresignEquation (2 ^ logn) h (bankIndex token (2 ^ logn))
      (presignStore token schedules s'.u0 (presignConv gmb igmb (nInv logn) schedules s')
        s'.banks) := by
  intro s'
  have hn : 2 ^ logn ≤ 2 ^ 31 := Nat.pow_le_pow_right two_pos (by omega)
  have hu0 : ∀ j < 2 ^ logn, s'.u0 j = addQIfNegative (drawn j).1.toInt32.toUInt32 := fun j hj =>
    sampleLoop_u0 token hdim schedules.sample s hj
  have hu1 : ∀ j < 2 ^ logn, s'.u1 j = addQIfNegative (drawn j).2.toInt32.toUInt32 := fun j hj =>
    sampleLoop_u1 token hdim schedules.sample s hj
  have hred0 : ReducedBelow (2 ^ logn) s'.u0 := fun j hj =>
    (hu0 j hj).symm ▸ (lifted_sample (drawn j).1).1
  have hred1 : ReducedBelow (2 ^ logn) s'.u1 := fun j hj =>
    (hu1 j hj).symm ▸ (lifted_sample (drawn j).2).1
  have hs' : ∀ j < 2 ^ logn, s'.h j = (preparedKey logn h j).toUInt32 := by
    intro j hj
    rw [sampleLoop_h, hs j hj]
  have hconv := fun j hj => presignConv_spec hdim hlogn schedules hh hs' hred1 (j := j) hj
  have htarget := fun j hj => presignStore_target hdim hlogn schedules token s'.banks hred0
    (fun j hj => (hconv j hj).1) (j := j) hj
  have hdiff := fun j hj => reduced_mqSubU32 (hred0 j hj) (hconv j hj).1
  constructor
  · intro j hj
    have hlt := hdiff j hj
    rw [← toUInt32_toUInt16 hlt] at hlt
    rw [htarget j hj]
    exact hlt
  · simp only [presignStore_sample1, presignStore_sample2]
    have hsamples2 : ringElement (2 ^ logn)
        (fun j => ((s'.banks.sample2 (bankIndex token (2 ^ logn) j)).toInt : ZMod 12289)) =
          ringElement (2 ^ logn) (fun j => residue (s'.u1 j)) := by
      refine ringElement_congr fun j hj => ?_
      rw [hu1 j hj, (lifted_sample _).2, sampleLoop_sample2 token hdim schedules.sample s hn hj]
    rw [hsamples2, ← ringElement_negacyclicMul (Nat.two_pow_pos logn), ← ringElement_sub]
    refine ringElement_congr fun j hj => ?_
    rw [htarget j hj, residue16, toUInt32_toUInt16 (hdiff j hj),
      residue_mqSubU32 (hred0 j hj) (hconv j hj).1, (hconv j hj).2, hu0 j hj, (lifted_sample _).2,
      sampleLoop_sample1 token hdim schedules.sample s hn hj]

/-- The kernel returns for a token just when all its samples are drawn, and then
the banks hold the presign equation for the token. -/
theorem kernelGenerateSamplesAndTargets_spec (hh : ∀ j < 2 ^ logn, (h j).toNat < 12289)
    (fuel : ℕ) {token tokens : ℕ} (htoken : token < tokens) (seed : UInt32) (s : PresignState) :
    let result := kernelGenerateSamplesAndTargets fuel (preparedKey logn h) gmb igmb (nInv logn)
      tokens seed token schedules s
    (result.isSome ↔ ∀ j < 2 ^ logn, (drawSamples fuel seed token j).isSome) ∧
      ∀ banks ∈ result, PresignEquation (2 ^ logn) h (bankIndex token (2 ^ logn)) banks := by
  intro result
  have hresult : result = _ := kernelGenerateSamplesAndTargets.eq_def ..
  rw [if_neg (by omega)] at hresult
  have hmem : ∀ j, j ∈ schedules.sample.order ↔ j < 2 ^ logn := fun j =>
    schedules.sample.mem_order hdim
  constructor
  · rw [hresult, Option.isSome_map, isSome_runDraws]
    simp only [hmem]
  · intro banks hbanks
    have hsome : result.isSome := Option.isSome_of_mem hbanks
    rw [hresult, Option.isSome_map, isSome_runDraws] at hsome
    have hdrawn : ∀ j ∈ schedules.sample.order,
        drawSamples fuel seed token j = some ((drawSamples fuel seed token j).getD default) := by
      intro j hj
      obtain ⟨drawn, hj⟩ := Option.isSome_iff_exists.mp (hsome j hj)
      rw [hj, Option.getD_some]
    rw [hresult, runDraws_eq_some hdrawn, Option.map_some, Option.mem_some_iff] at hbanks
    rw [← hbanks]
    refine presignEquation_of_drawn hdim hlogn schedules hh token _ fun j hj => ?_
    exact runTasks_scatterTask id _ (schedules.load.nodup hdim) Function.injective_id.injOn _
      ((schedules.load.mem_order hdim).mpr hj)

end Equation

def blankPresignState : PresignState where
  h _ := 0
  u0 _ := 0
  u1 _ := 0
  banks := { sample1 := fun _ => 0, sample2 := fun _ => 0, target := fun _ => 0 }

def sampleKey (j : ℕ) : UInt16 := if j = 0 then 5 else 12288

theorem kernelGenerateSamplesAndTargets_spec_sampleKey :
    ∃ banks, kernelGenerateSamplesAndTargets 4 (preparedKey 1 sampleKey) gmb igmb (nInv 1) 1 7 0
        (PresignSchedules.sequential 256 (2 ^ 1)) blankPresignState = some banks ∧
      PresignEquation (2 ^ 1) sampleKey (bankIndex 0 (2 ^ 1)) banks := by
  obtain ⟨hsome, hbanks⟩ := kernelGenerateSamplesAndTargets_spec (show 0 < 256 by decide)
    (show 1 ≤ 10 by decide) (.sequential 256 (2 ^ 1)) (h := sampleKey) (by decide) 4
    (show 0 < 1 by decide) 7 blankPresignState
  obtain ⟨banks, hresult⟩ := Option.isSome_iff_exists.mp (hsome.mpr (by decide +kernel))
  exact ⟨banks, hresult, hbanks banks hresult⟩

end Soko.Gpu
