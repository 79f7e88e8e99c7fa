import Mathlib
import Soko.Gpu.BankIndex
import Soko.Gpu.PresignLaunch
import Soko.Library.Interleaving

/-!
A launch of `kernel_generate_samples_and_targets`, with all of its blocks. The blocks run
in any interleaving and store to the same banks. As long as the addressing is exact, every
token ends up with the samples and targets of its own block.
-/

namespace Soko.Gpu

open Soko.Library

/-- A store to one of the banks. -/
inductive BankWrite
  | sample1 (cell : ℤ) (value : Int8)
  | sample2 (cell : ℤ) (value : Int8)
  | target (cell : ℤ) (value : UInt16)

namespace BankWrite

def cell : BankWrite → ℤ
  | sample1 cell _ | sample2 cell _ | target cell _ => cell

def store : BankWrite → PresignBanks → PresignBanks
  | sample1 cell value, banks => { banks with sample1 := Function.update banks.sample1 cell value }
  | sample2 cell value, banks => { banks with sample2 := Function.update banks.sample2 cell value }
  | target cell value, banks => { banks with target := Function.update banks.target cell value }

end BankWrite

def sampleWrites (token n j : ℕ) (drawn : Int8 × Int8) : List BankWrite :=
  [.sample1 (bankIndex token n j) drawn.1, .sample2 (bankIndex token n j) drawn.2]

def targetWrite (token n : ℕ) (u0 conv : ℕ → UInt32) (j : ℕ) : BankWrite :=
  .target (bankIndex token n j) (presignTarget (u0 j) (conv j)).toUInt16

/-- The stores of the block of `token`, in the order in which it executes them. -/
def presignWrites (fuel : ℕ) (hHat gmb igmb : ℕ → UInt16) (nInv : UInt32) (tokens : ℕ)
    {blockDim n : ℕ} (seed : UInt32) (token : ℕ) (schedules : PresignSchedules blockDim n)
    (s : PresignState) : Option (List BankWrite) :=
  if token ≥ tokens then some []
  else
    (runDraws (drawSamples fuel seed token)
      (fun j drawn p => (storeSamples token n j drawn p.1, p.2 ++ sampleWrites token n j drawn))
      schedules.sample.order (loadKey hHat schedules.load s, [])).map fun p =>
        p.2 ++ schedules.target.order.map
          (targetWrite token n p.1.u0 (presignConv gmb igmb nInv schedules p.1))

section Block

variable {blockDim n token : ℕ}

@[simp] theorem runTasks_append_writes (writes writes' : List BankWrite) (banks : PresignBanks) :
    runTasks BankWrite.store (writes ++ writes') banks =
      runTasks BankWrite.store writes' (runTasks BankWrite.store writes banks) :=
  List.foldl_append

/-- The sampling loop does to the banks what its stores do. -/
theorem runDraws_sampleWrites (token n : ℕ) (draw : ℕ → Option (Int8 × Int8)) (order : List ℕ)
    {s : PresignState} {writes : List BankWrite} {banks : PresignBanks}
    (hs : s.banks = runTasks BankWrite.store writes banks) :
    (runDraws draw (fun j drawn p => (storeSamples token n j drawn p.1,
        p.2 ++ sampleWrites token n j drawn)) order (s, writes)).map
          (fun p => (p.1, runTasks BankWrite.store p.2 banks)) =
      (runDraws draw (storeSamples token n) order s).map fun s => (s, s.banks) := by
  induction order generalizing s writes with
  | nil => simp [runDraws, hs]
  | cons j order ih =>
      simp only [runDraws, List.foldlM_cons] at ih ⊢
      cases draw j with
      | none => rfl
      | some drawn =>
          apply ih
          rw [runTasks_append_writes, ← hs]
          rfl

theorem runTasks_targetWrite (u0 conv : ℕ → UInt32) (order : List ℕ) (banks : PresignBanks) :
    runTasks BankWrite.store (order.map (targetWrite token n u0 conv)) banks =
      { banks with
        target := runTasks
          (scatterTask (bankIndex token n) fun j => (presignTarget (u0 j) (conv j)).toUInt16)
          order banks.target } := by
  induction order generalizing banks with
  | nil => rfl
  | cons j order ih =>
      rw [List.map_cons, runTasks_cons, ih]
      rfl

/-- The kernel leaves in the banks what the stores of its block leave there. -/
theorem kernelGenerateSamplesAndTargets_eq_writes (fuel : ℕ) (hHat gmb igmb : ℕ → UInt16)
    (nInv : UInt32) (tokens : ℕ) (seed : UInt32) (token : ℕ)
    (schedules : PresignSchedules blockDim n) (s : PresignState) :
    kernelGenerateSamplesAndTargets fuel hHat gmb igmb nInv tokens seed token schedules s =
      (presignWrites fuel hHat gmb igmb nInv tokens seed token schedules s).map fun writes =>
        runTasks BankWrite.store writes s.banks := by
  rw [kernelGenerateSamplesAndTargets, presignWrites]
  split
  · rfl
  · have hstart : (loadKey hHat schedules.load s).banks = runTasks BankWrite.store [] s.banks := rfl
    have hloop := congrArg (Option.map fun q : PresignState × PresignBanks =>
        presignStore token schedules q.1.u0 (presignConv gmb igmb nInv schedules q.1) q.2)
      (runDraws_sampleWrites token n (drawSamples fuel seed token) schedules.sample.order hstart)
    rw [Option.map_map, Option.map_map] at hloop
    rw [Option.map_map]
    refine hloop.symm.trans (congrArg (Option.map · _) (funext fun p => ?_))
    simp only [Function.comp_apply, runTasks_append_writes, runTasks_targetWrite]
    rfl

theorem mem_runDraws_sampleWrites {draw : ℕ → Option (Int8 × Int8)} {order : List ℕ}
    {p p' : PresignState × List BankWrite}
    (hrun : runDraws draw (fun j drawn p => (storeSamples token n j drawn p.1,
      p.2 ++ sampleWrites token n j drawn)) order p = some p') {w : BankWrite} (hw : w ∈ p'.2) :
    w ∈ p.2 ∨ ∃ j ∈ order, w.cell = bankIndex token n j := by
  induction order generalizing p with
  | nil =>
      obtain rfl : p = p' := by simpa [runDraws] using hrun
      exact .inl hw
  | cons j order ih =>
      rw [runDraws, List.foldlM_cons] at hrun
      cases hdraw : draw j with
      | none =>
          rw [hdraw] at hrun
          cases hrun
      | some drawn =>
          rw [hdraw] at hrun
          rcases ih hrun with hmem | ⟨i, hi, hcell⟩
          · rcases List.mem_append.mp hmem with hmem | hmem
            · exact .inl hmem
            · refine .inr ⟨j, List.mem_cons_self, ?_⟩
              rcases List.mem_pair.mp hmem with rfl | rfl <;> rfl
          · exact .inr ⟨i, List.mem_cons_of_mem _ hi, hcell⟩

/-- The stores are known just when all samples of the token are drawn. -/
theorem isSome_presignWrites {fuel : ℕ} {hHat gmb igmb : ℕ → UInt16} {nInv : UInt32} {tokens : ℕ}
    (hdim : 0 < blockDim) {seed : UInt32} {schedules : PresignSchedules blockDim n}
    {s : PresignState} (htoken : token < tokens) :
    (presignWrites fuel hHat gmb igmb nInv tokens seed token schedules s).isSome ↔
      ∀ j < n, (drawSamples fuel seed token j).isSome := by
  rw [presignWrites, if_neg (by omega), Option.isSome_map, isSome_runDraws]
  simp only [schedules.sample.mem_order hdim]

theorem mem_presignWrites {fuel : ℕ} {hHat gmb igmb : ℕ → UInt16} {nInv : UInt32} {tokens : ℕ}
    (hdim : 0 < blockDim) {seed : UInt32} {schedules : PresignSchedules blockDim n}
    {s : PresignState} {writes : List BankWrite}
    (hwrites : presignWrites fuel hHat gmb igmb nInv tokens seed token schedules s = some writes)
    {w : BankWrite} (hw : w ∈ writes) :
    token < tokens ∧ ∃ j < n, w.cell = bankIndex token n j := by
  rw [presignWrites] at hwrites
  split at hwrites
  · cases hwrites
    cases hw
  · next htoken =>
      obtain ⟨p, hrun, rfl⟩ := Option.map_eq_some_iff.mp hwrites
      refine ⟨by omega, ?_⟩
      rcases List.mem_append.mp hw with hw | hw
      · rcases mem_runDraws_sampleWrites hrun hw with hw | ⟨j, hj, hcell⟩
        · cases hw
        · exact ⟨j, (schedules.sample.mem_order hdim).mp hj, hcell⟩
      · obtain ⟨j, hj, rfl⟩ := List.mem_map.mp hw
        exact ⟨j, (schedules.target.mem_order hdim).mp hj, rfl⟩

end Block

section Grid

variable {blockDim logn : ℕ}

def tokenCells (n token : ℕ) (banks : PresignBanks) (j : Fin n) : Int8 × Int8 × UInt16 :=
  (banks.sample1 (bankIndex token n j), banks.sample2 (bankIndex token n j),
    banks.target (bankIndex token n j))

theorem tokenCells_store_congr {n token : ℕ} (w : BankWrite) (banks banks' : PresignBanks)
    (hcells : tokenCells n token banks = tokenCells n token banks') :
    tokenCells n token (w.store banks) = tokenCells n token (w.store banks') := by
  funext j
  have hcell := congrFun hcells j
  simp only [tokenCells, Prod.mk.injEq] at hcell
  cases w <;> simp [tokenCells, BankWrite.store, Function.update_apply, hcell]

theorem tokenCells_store_of_ne {n token : ℕ} {w : BankWrite}
    (hw : ∀ j < n, bankIndex token n j ≠ w.cell) (banks : PresignBanks) :
    tokenCells n token (w.store banks) = tokenCells n token banks := by
  funext j
  have hcell := hw j j.isLt
  cases w <;>
    simp only [tokenCells, BankWrite.store, BankWrite.cell] at hcell ⊢ <;>
    rw [Function.update_of_ne hcell]

/-- The equation only depends on the cells of the token. -/
theorem PresignEquation.of_tokenCells {n token : ℕ} {h : ℕ → UInt16} {banks banks' : PresignBanks}
    (heq : PresignEquation n h (bankIndex token n) banks)
    (hcells : tokenCells n token banks' = tokenCells n token banks) :
    PresignEquation n h (bankIndex token n) banks' := by
  have hcell : ∀ j < n, banks'.sample1 (bankIndex token n j) = banks.sample1 (bankIndex token n j) ∧
      banks'.sample2 (bankIndex token n j) = banks.sample2 (bankIndex token n j) ∧
      banks'.target (bankIndex token n j) = banks.target (bankIndex token n j) := by
    intro j hj
    simpa [tokenCells] using congrFun hcells ⟨j, hj⟩
  constructor
  · intro j hj
    rw [(hcell j hj).2.2]
    exact heq.target_lt j hj
  · rw [ringElement_congr fun j hj => congrArg residue16 (hcell j hj).2.2,
      ringElement_congr fun j hj => congrArg (fun x : Int8 => (x.toInt : ZMod 12289))
        (hcell j hj).1,
      ringElement_congr fun j hj => congrArg (fun x : Int8 => (x.toInt : ZMod 12289))
        (hcell j hj).2.1]
    exact heq.target_eq

/-- The stores of the blocks of a launch. -/
structure GridWrites (fuel : ℕ) (hHat gmb igmb : ℕ → UInt16) (nInv : UInt32) (tokens : ℕ)
    (blockDim n : ℕ) (seed : UInt32) (banks : PresignBanks) where
  schedules : ℕ → PresignSchedules blockDim n
  states : ℕ → PresignState
  writes : ℕ → List BankWrite
  trace : List (ℕ × BankWrite)
  banks_eq : ∀ token, (states token).banks = banks
  writes_eq : ∀ token, presignWrites fuel hHat gmb igmb nInv tokens seed token (schedules token)
    (states token) = some (writes token)
  interleaves : Interleaves writes trace

def GridWrites.result {fuel : ℕ} {hHat gmb igmb : ℕ → UInt16} {nInv : UInt32} {tokens n : ℕ}
    {seed : UInt32} {banks : PresignBanks}
    (grid : GridWrites fuel hHat gmb igmb nInv tokens blockDim n seed banks) : PresignBanks :=
  runTasks BankWrite.store (grid.trace.map Prod.snd) banks

theorem bankIndex_ne {n tokens token token' j j' : ℕ} (hsize : tokens * n ≤ 2 ^ 31)
    (htoken : token < tokens) (htoken' : token' < tokens) (hj : j < n) (hj' : j' < n)
    (hne : token' ≠ token) : bankIndex token n j ≠ bankIndex token' n j' := by
  intro heq
  have hplace := place_lt htoken hj
  have hplace' := place_lt htoken' hj'
  rw [(bankIndex_eq_iff token n j).mpr (by omega), (bankIndex_eq_iff token' n j').mpr (by omega)]
    at heq
  exact hne (eq_of_place_eq hj' hj (by exact_mod_cast heq.symm)).1

/-- What a block that has drawn all its samples leaves in the banks. -/
theorem presignEquation_of_kernel (hdim : 0 < blockDim) (hlogn : logn ≤ 10) {h : ℕ → UInt16}
    (hh : ReducedBelow16 (2 ^ logn) h) {fuel token tokens : ℕ} (htoken : token < tokens)
    {seed : UInt32} {schedules : PresignSchedules blockDim (2 ^ logn)} {s : PresignState}
    {banks : PresignBanks}
    (hkernel : kernelGenerateSamplesAndTargets fuel (preparedKey logn h) gmb igmb (nInv logn)
      tokens seed token schedules s = some banks) :
    PresignEquation (2 ^ logn) h (bankIndex token (2 ^ logn)) banks := by
  rw [kernelGenerateSamplesAndTargets, if_neg (by omega)] at hkernel
  obtain ⟨s', hdraws, rfl⟩ := Option.map_eq_some_iff.mp hkernel
  have hsome := Option.isSome_of_mem hdraws
  rw [isSome_runDraws] at hsome
  have hdrawn : ∀ j ∈ schedules.sample.order,
      drawSamples fuel seed token j = some ((drawSamples fuel seed token j).getD default) := by
    intro j hj
    obtain ⟨drawn, hj⟩ := Option.isSome_iff_exists.mp (hsome j hj)
    rw [hj, Option.getD_some]
  obtain rfl := Option.some.inj ((runDraws_eq_some hdrawn _).symm.trans hdraws)
  refine presignEquation_of_drawn hdim hlogn schedules hh token _ fun j hj => ?_
  exact runTasks_scatterTask id _ (schedules.load.nodup hdim) Function.injective_id.injOn _
    ((schedules.load.mem_order hdim).mpr hj)

/-- After a launch with exact addressing every token fulfils the presign equation. -/
theorem GridWrites.presignEquation (hdim : 0 < blockDim) (hlogn : logn ≤ 10) {h : ℕ → UInt16}
    (hh : ∀ j < 2 ^ logn, (h j).toNat < 12289) {fuel tokens : ℕ} {seed : UInt32}
    {banks : PresignBanks} (hsize : tokens * 2 ^ logn ≤ 2 ^ 31)
    (grid : GridWrites fuel (preparedKey logn h) gmb igmb (nInv logn) tokens blockDim (2 ^ logn)
      seed banks) {token : ℕ} (htoken : token < tokens) :
    PresignEquation (2 ^ logn) h (bankIndex token (2 ^ logn)) grid.result := by
  have hkernel := kernelGenerateSamplesAndTargets_eq_writes fuel (preparedKey logn h) gmb igmb
    (nInv logn) tokens seed token (grid.schedules token) (grid.states token)
  rw [grid.writes_eq, Option.map_some, grid.banks_eq] at hkernel
  have hblock := presignEquation_of_kernel hdim hlogn hh htoken hkernel
  refine hblock.of_tokenCells (grid.interleaves.view_eq token tokenCells_store_congr ?_ banks)
  intro token' hne w hw banks
  obtain ⟨htoken', j', hj', hcell⟩ := mem_presignWrites hdim (grid.writes_eq token') hw
  apply tokenCells_store_of_ne
  intro j hj
  rw [hcell]
  exact bankIndex_ne hsize htoken htoken' hj hj' hne

end Grid

end Soko.Gpu
