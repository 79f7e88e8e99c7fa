import Soko.Gpu.Tables
import Soko.Library.Phases

/-!
The transforms of the kernels and of the host. The kernels share two loops: the
stages of the NTT and those of its inverse, each stage a phase between barriers
in which the iterations come in any order. Whatever the orders are, the residues
are those of the transform of `Soko.Library` for the table `twiddle`.
-/

namespace Soko.Gpu

open Soko.Library Polynomial

/-- One iteration of a stage of the NTT loop, on `m` blocks of length `t`. -/
def nttIteration (gmb : ℕ → UInt16) (m t j : ℕ) (a : ℕ → UInt32) : ℕ → UInt32 :=
  let ht := t / 2
  let i := j / t
  let j1 := i * t
  let j2 := j1 + ht
  if j ≥ j2 then a
  else
    let s := (gmb (m + i)).toUInt32
    let u := a j
    let v := mqMontymulDevice (a (j + ht)) s
    Function.update (Function.update a j (mqAddDevice u v)) (j + ht) (mqSubDevice u v)

/-- The NTT loop of a kernel, from `m` blocks of length `t` on. `orders m` is the
order in which the iterations of the stage with `m` blocks are executed. -/
def kernelNtt (gmb : ℕ → UInt16) {blockDim n : ℕ} (orders : ℕ → Schedule blockDim n)
    (m t : ℕ) (a : ℕ → UInt32) : ℕ → UInt32 :=
  if 0 < m ∧ m < n then
    kernelNtt gmb orders (2 * m) (t / 2) (runTasks (nttIteration gmb m t) (orders m).order a)
  else a
  termination_by n - m

/-- One iteration of a stage of the inverse loop, from blocks of length `t`. -/
def inttIteration (igmb : ℕ → UInt16) (m t j : ℕ) (a : ℕ → UInt32) : ℕ → UInt32 :=
  let hm := m / 2
  let dt := 2 * t
  let i := j / dt
  let j1 := i * dt
  let j2 := j1 + t
  if j ≥ j2 then a
  else
    let u := a j
    let v := a (j + t)
    let w := mqSubDevice u v
    let s := (igmb (hm + i)).toUInt32
    Function.update (Function.update a j (mqAddDevice u v)) (j + t) (mqMontymulDevice w s)

/-- The inverse NTT loop of a kernel, from `m` blocks of length `t` on. -/
def kernelIntt (igmb : ℕ → UInt16) {blockDim n : ℕ} (orders : ℕ → Schedule blockDim n)
    (m t : ℕ) (a : ℕ → UInt32) : ℕ → UInt32 :=
  if 1 < m then
    kernelIntt igmb orders (m / 2) (2 * t) (runTasks (inttIteration igmb m t) (orders m).order a)
  else a
  termination_by m

/-- The iteration `j` of block `i` in `mq_ntt_host`. -/
def nttHostIteration (gmb : ℕ → UInt16) (m ht i j : ℕ) (a : ℕ → UInt16) : ℕ → UInt16 :=
  let s := (gmb (m + i)).toUInt32
  let u := (a j).toUInt32
  let v := mqMontymulU32 (a (j + ht)).toUInt32 s
  Function.update (Function.update a j (mqAddU32 u v).toUInt16) (j + ht)
    (mqSubU32 u v).toUInt16

/-- The stage loop of `mq_ntt_host`. -/
def mqNttHostFrom (gmb : ℕ → UInt16) (n m t : ℕ) (a : ℕ → UInt16) : ℕ → UInt16 :=
  if 0 < m ∧ m < n then
    let ht := t / 2
    let stage := (List.range m).foldl (fun a i =>
      (List.range' (i * t) ht).foldl (fun a j => nttHostIteration gmb m ht i j a) a) a
    mqNttHostFrom gmb n (2 * m) ht stage
  else a
  termination_by n - m

def mqNttHost (gmb : ℕ → UInt16) (logn : ℕ) (a : ℕ → UInt16) : ℕ → UInt16 :=
  mqNttHostFrom gmb (2 ^ logn) 1 (2 ^ logn) a

def mqPolyTomontyHost (logn : ℕ) (f : ℕ → UInt16) : ℕ → UInt16 :=
  (List.range (2 ^ logn)).foldl
    (fun f u => Function.update f u (mqMontymulU32 (f u).toUInt32 oofalconR2).toUInt16) f

def ReducedBelow (n : ℕ) (a : ℕ → UInt32) : Prop := ∀ j < n, Reduced (a j)

section Stages

variable {blockDim n m h : ℕ}

theorem nttIteration_eq (gmb : ℕ → UInt16) (m h : ℕ) :
    nttIteration gmb m (2 * h) = pairTask h
      (fun j u v => mqAddU32 u (mqMontymulU32 v (gmb (m + j / (2 * h))).toUInt32))
      (fun j u v => mqSubU32 u (mqMontymulU32 v (gmb (m + j / (2 * h))).toUInt32)) := by
  funext j a
  have hsplit := Nat.div_add_mod' j (2 * h)
  have hhalf : 2 * h / 2 = h := by omega
  simp only [nttIteration, hhalf, pairTask]
  by_cases hmod : j % (2 * h) < h
  · rw [if_pos hmod, if_neg (by omega)]
    rfl
  · rw [if_neg hmod, if_pos (by omega)]

theorem inttIteration_eq (igmb : ℕ → UInt16) (m h : ℕ) :
    inttIteration igmb m h = pairTask h
      (fun _ u v => mqAddU32 u v)
      (fun j u v => mqMontymulU32 (mqSubU32 u v) (igmb (m / 2 + j / (2 * h))).toUInt32) := by
  funext j a
  have hsplit := Nat.div_add_mod' j (2 * h)
  simp only [inttIteration, pairTask]
  by_cases hmod : j % (2 * h) < h
  · rw [if_pos hmod, if_neg (by omega)]
    rfl
  · rw [if_neg hmod, if_pos (by omega)]

theorem mul_gmb {v : UInt32} (hv : Reduced v) {i : ℕ} (hi : i < 1024) :
    Reduced (mqMontymulU32 v (gmb i).toUInt32) ∧
      residue (mqMontymulU32 v (gmb i).toUInt32) = twiddle i * residue v := by
  obtain ⟨hred, hres⟩ := gmb_spec hi
  have hsmall : (gmb i).toUInt32.toNat < 65536 := by
    unfold Reduced at hred
    omega
  refine ⟨reduced_mqMontymulU32 hv hsmall, ?_⟩
  rw [residue_mqMontymulU32 hv hsmall, mul_assoc, hres, mul_comm]

theorem mul_igmb {v : UInt32} (hv : Reduced v) {i : ℕ} (hi : i < 1024) :
    Reduced (mqMontymulU32 v (igmb i).toUInt32) ∧
      residue (mqMontymulU32 v (igmb i).toUInt32) = twiddleInverse i * residue v := by
  obtain ⟨hred, hres⟩ := igmb_spec hi
  have hsmall : (igmb i).toUInt32.toNat < 65536 := by
    unfold Reduced at hred
    omega
  refine ⟨reduced_mqMontymulU32 hv hsmall, ?_⟩
  rw [residue_mqMontymulU32 hv hsmall, mul_assoc, hres, mul_comm]

/-- Where the partner of a position lies, and which block it is in. -/
theorem block_facts {j : ℕ} (hj : j < m * (2 * h)) :
    j / (2 * h) < m ∧ (j % (2 * h) < h → j + h < m * (2 * h)) ∧
      (¬ j % (2 * h) < h → h ≤ j ∧ (j - h) / (2 * h) = j / (2 * h)) := by
  have hdiv := Nat.div_add_mod' j (2 * h)
  have hpos : 0 < 2 * h := Nat.pos_of_mul_pos_left (by omega : 0 < m * (2 * h))
  have hblock : j / (2 * h) < m := Nat.div_lt_of_lt_mul (by rwa [mul_comm])
  have hnext : (j / (2 * h) + 1) * (2 * h) ≤ m * (2 * h) := Nat.mul_le_mul_right _ hblock
  rw [Nat.add_mul, one_mul] at hnext
  refine ⟨hblock, fun hleft => by omega, fun hright => ⟨?_, ?_⟩⟩
  · have := Nat.mod_le j (2 * h)
    omega
  · have hlt := Nat.mod_lt j hpos
    have hsplit : j - h = 2 * h * (j / (2 * h)) + (j % (2 * h) - h) := by
      have := Nat.div_add_mod j (2 * h)
      omega
    rw [hsplit, Nat.mul_add_div hpos,
      Nat.div_eq_of_lt (show j % (2 * h) - h < 2 * h by omega), Nat.add_zero]

/-- A stage of the NTT loop is a forward stage, in any order. -/
theorem nttStage_spec (hdim : 0 < blockDim) (hn : n = m * (2 * h)) (hm : 2 * m ≤ 1024)
    (schedule : Schedule blockDim n) {a : ℕ → UInt32} (ha : ReducedBelow n a) :
    ReducedBelow n (runTasks (nttIteration gmb m (2 * h)) schedule.order a) ∧
      ∀ j < n, residue (runTasks (nttIteration gmb m (2 * h)) schedule.order a j) =
        forwardStage twiddle m h (fun j => residue (a j)) j := by
  suffices hall : ∀ j < n,
      Reduced (runTasks (nttIteration gmb m (2 * h)) schedule.order a j) ∧
      residue (runTasks (nttIteration gmb m (2 * h)) schedule.order a j) =
        forwardStage twiddle m h (fun j => residue (a j)) j from
    ⟨fun j hj => (hall j hj).1, fun j hj => (hall j hj).2⟩
  intro j hj
  subst n
  have horder : ∀ j < m * (2 * h), j % (2 * h) < h → j ∈ schedule.order :=
    fun j hj _ => (schedule.mem_order hdim).mpr hj
  obtain ⟨hblock, hpartner, hright⟩ := block_facts hj
  rw [nttIteration_eq, runTasks_pairTask (schedule.nodup hdim) horder a hj, pairResult,
    forwardStage]
  by_cases hmod : j % (2 * h) < h
  · obtain ⟨hred, hres⟩ := mul_gmb (ha _ (hpartner hmod)) (i := m + j / (2 * h)) (by omega)
    rw [if_pos hmod, if_pos hmod, residue_mqAddU32 (ha j hj) hred, hres]
    exact ⟨reduced_mqAddU32 (ha j hj) hred, rfl⟩
  · obtain ⟨hle, hsame⟩ := hright hmod
    obtain ⟨hred, hres⟩ := mul_gmb (ha j hj) (i := m + j / (2 * h)) (by omega)
    have hleft : Reduced (a (j - h)) := ha _ (by omega)
    rw [if_neg hmod, if_neg hmod, hsame, residue_mqSubU32 hleft hred, hres]
    exact ⟨reduced_mqSubU32 hleft hred, rfl⟩

/-- A stage of the inverse loop is an inverse stage, in any order. -/
theorem inttStage_spec (hdim : 0 < blockDim) (hn : n = m * (2 * h)) (hm : 2 * m ≤ 1024)
    (schedule : Schedule blockDim n) {a : ℕ → UInt32} (ha : ReducedBelow n a) :
    ReducedBelow n (runTasks (inttIteration igmb (2 * m) h) schedule.order a) ∧
      ∀ j < n, residue (runTasks (inttIteration igmb (2 * m) h) schedule.order a j) =
        inverseStage twiddleInverse m h (fun j => residue (a j)) j := by
  suffices hall : ∀ j < n,
      Reduced (runTasks (inttIteration igmb (2 * m) h) schedule.order a j) ∧
      residue (runTasks (inttIteration igmb (2 * m) h) schedule.order a j) =
        inverseStage twiddleInverse m h (fun j => residue (a j)) j from
    ⟨fun j hj => (hall j hj).1, fun j hj => (hall j hj).2⟩
  intro j hj
  subst n
  have horder : ∀ j < m * (2 * h), j % (2 * h) < h → j ∈ schedule.order :=
    fun j hj _ => (schedule.mem_order hdim).mpr hj
  have hhalf : 2 * m / 2 = m := by omega
  obtain ⟨hblock, hpartner, hright⟩ := block_facts hj
  rw [inttIteration_eq, runTasks_pairTask (schedule.nodup hdim) horder a hj, pairResult,
    inverseStage, hhalf]
  by_cases hmod : j % (2 * h) < h
  · have hred := ha _ (hpartner hmod)
    rw [if_pos hmod, if_pos hmod, residue_mqAddU32 (ha j hj) hred]
    exact ⟨reduced_mqAddU32 (ha j hj) hred, rfl⟩
  · obtain ⟨hle, hsame⟩ := hright hmod
    have hleft : Reduced (a (j - h)) := ha _ (by omega)
    have hsub := reduced_mqSubU32 hleft (ha j hj)
    obtain ⟨hred, hres⟩ := mul_igmb hsub (i := m + j / (2 * h)) (by omega)
    rw [if_neg hmod, if_neg hmod, hsame, hres, residue_mqSubU32 hleft (ha j hj)]
    exact ⟨hred, rfl⟩

end Stages

section Loops

theorem two_pow_le_1024 {logn : ℕ} (h : logn ≤ 10) : 2 ^ logn ≤ 1024 :=
  Nat.pow_le_pow_right two_pos h

variable {blockDim : ℕ}

/-- The NTT loop from `m` blocks of length `2 ^ levels` on. -/
theorem kernelNtt_spec_from (hdim : 0 < blockDim) {levels m n : ℕ} (hm : 0 < m)
    (hn : n = m * 2 ^ levels) (hsize : n ≤ 1024) (orders : ℕ → Schedule blockDim n)
    {a : ℕ → UInt32} (ha : ReducedBelow n a) :
    ReducedBelow n (kernelNtt gmb orders m (2 ^ levels) a) ∧
      ∀ j < n, residue (kernelNtt gmb orders m (2 ^ levels) a j) =
        forward twiddle levels m (fun j => residue (a j)) j := by
  induction levels generalizing m a with
  | zero =>
      rw [kernelNtt, if_neg (by omega)]
      exact ⟨ha, fun _ _ => rfl⟩
  | succ levels ih =>
      have hpow : 2 ^ (levels + 1) = 2 * 2 ^ levels := pow_succ' 2 levels
      have hpos : 0 < 2 ^ levels := Nat.two_pow_pos levels
      rw [hpow] at hn ⊢
      have hlt : m < n := by nlinarith
      have hdouble : n = 2 * m * 2 ^ levels := by rw [hn]; ring
      obtain ⟨hred, hres⟩ := nttStage_spec hdim hn (by nlinarith) (orders m) ha
      obtain ⟨hred', hres'⟩ := ih (by omega) hdouble hred
      rw [kernelNtt, if_pos ⟨hm, hlt⟩, Nat.mul_div_cancel_left _ two_pos]
      refine ⟨hred', fun j hj => (hres' j hj).trans ?_⟩
      rw [forward]
      exact forward_congr twiddle (fun i hi => hres i (hdouble ▸ hi)) (hdouble ▸ hj)

/-- The inverse loop from `2 ^ levels` blocks on, after `d` stages. -/
theorem kernelIntt_spec_from (hdim : 0 < blockDim) {levels d n : ℕ}
    (hn : n = 2 ^ levels * 2 ^ d) (hsize : n ≤ 1024) (orders : ℕ → Schedule blockDim n)
    {a : ℕ → UInt32} {start : ℕ → ZMod 12289} (ha : ReducedBelow n a)
    (hres : ∀ j < n, residue (a j) = inverse twiddleInverse d (2 ^ levels) start j) :
    ReducedBelow n (kernelIntt igmb orders (2 ^ levels) (2 ^ d) a) ∧
      ∀ j < n, residue (kernelIntt igmb orders (2 ^ levels) (2 ^ d) a j) =
        inverse twiddleInverse (levels + d) 1 start j := by
  induction levels generalizing d a with
  | zero =>
      rw [kernelIntt, if_neg (by norm_num), Nat.zero_add]
      exact ⟨ha, hres⟩
  | succ levels ih =>
      have hpow : 2 ^ (levels + 1) = 2 * 2 ^ levels := pow_succ' 2 levels
      have hpos : 0 < 2 ^ levels := Nat.two_pow_pos levels
      have hblocks : n = 2 ^ levels * (2 * 2 ^ d) := by rw [hn, hpow]; ring
      have hsmall : 2 * 2 ^ levels ≤ n := by
        rw [hn, hpow]
        exact Nat.le_mul_of_pos_right _ (Nat.two_pow_pos d)
      rw [hpow] at hres ⊢
      obtain ⟨hred', hres'⟩ := inttStage_spec hdim hblocks (by omega) (orders (2 * 2 ^ levels)) ha
      have hnext : ∀ j < n, residue (runTasks (inttIteration igmb (2 * 2 ^ levels) (2 ^ d))
          (orders (2 * 2 ^ levels)).order a j) =
            inverse twiddleInverse (d + 1) (2 ^ levels) start j := by
        intro j hj
        rw [hres' j hj, inverse]
        exact inverseStage_congr twiddleInverse (fun i hi => hres i (hblocks ▸ hi)) (hblocks ▸ hj)
      obtain ⟨hred'', hres''⟩ := ih (d := d + 1) (by rw [hblocks, pow_succ']) hred' hnext
      rw [kernelIntt, if_pos (by omega), Nat.mul_div_cancel_left _ two_pos, ← pow_succ',
        show levels + 1 + d = levels + (d + 1) by omega]
      exact ⟨hred'', hres''⟩

theorem kernelNtt_spec (hdim : 0 < blockDim) {logn : ℕ} (hlogn : logn ≤ 10)
    (orders : ℕ → Schedule blockDim (2 ^ logn)) {a : ℕ → UInt32}
    (ha : ReducedBelow (2 ^ logn) a) :
    ReducedBelow (2 ^ logn) (kernelNtt gmb orders 1 (2 ^ logn) a) ∧
      ∀ j < 2 ^ logn, residue (kernelNtt gmb orders 1 (2 ^ logn) a j) =
        forward twiddle logn 1 (fun j => residue (a j)) j :=
  kernelNtt_spec_from hdim one_pos (one_mul _).symm (two_pow_le_1024 hlogn) orders ha

/-- The inverse loop of a kernel is the inverse transform. -/
theorem kernelIntt_spec (hdim : 0 < blockDim) {logn : ℕ} (hlogn : logn ≤ 10)
    (orders : ℕ → Schedule blockDim (2 ^ logn)) {a : ℕ → UInt32}
    (ha : ReducedBelow (2 ^ logn) a) :
    ReducedBelow (2 ^ logn) (kernelIntt igmb orders (2 ^ logn) 1 a) ∧
      ∀ j < 2 ^ logn, residue (kernelIntt igmb orders (2 ^ logn) 1 a j) =
        inverse twiddleInverse logn 1 (fun j => residue (a j)) j :=
  kernelIntt_spec_from (d := 0) hdim (mul_one _).symm (two_pow_le_1024 hlogn) orders ha
    fun _ _ => rfl

end Loops

section Product

variable {blockDim n : ℕ}

/-- The orders of the phases from the first stage of the NTT to the last one of
its inverse. -/
structure ProductSchedules (blockDim n : ℕ) where
  ntt : ℕ → Schedule blockDim n
  multiply : Schedule blockDim n
  intt : ℕ → Schedule blockDim n

def ProductSchedules.sequential (blockDim n : ℕ) : ProductSchedules blockDim n where
  ntt _ := .sequential blockDim n
  multiply := .sequential blockDim n
  intt _ := .sequential blockDim n

/-- The part that the kernels have in common: the NTT of `a`, the pointwise
product with `hHat`, and the inverse NTT without the final factor. -/
def kernelProduct (gmb igmb : ℕ → UInt16) (schedules : ProductSchedules blockDim n)
    (hHat a : ℕ → UInt32) : ℕ → UInt32 :=
  let a := kernelNtt gmb schedules.ntt 1 n a
  let a := runTasks (pointTask fun j x => mqMontymulDevice x (hHat j)) schedules.multiply.order a
  kernelIntt igmb schedules.intt n 1 a

section Orders

/-! The orders of the iterations do not matter, for any words and any tables. -/

variable {blockDim' : ℕ} (hdim : 0 < blockDim) (hdim' : 0 < blockDim')
include hdim hdim'

theorem pairPhase_congr {m h : ℕ} {f g : ℕ → UInt32 → UInt32 → UInt32}
    (hn : n = m * (2 * h)) (schedule : Schedule blockDim n) (schedule' : Schedule blockDim' n)
    {a a' : ℕ → UInt32} (ha : ∀ j < n, a j = a' j) {j : ℕ} (hj : j < n) :
    runTasks (pairTask h f g) schedule.order a j =
      runTasks (pairTask h f g) schedule'.order a' j := by
  subst n
  obtain ⟨-, hpartner, hright⟩ := block_facts hj
  rw [runTasks_pairTask (schedule.nodup hdim) (fun j hj _ => (schedule.mem_order hdim).mpr hj) a hj,
    runTasks_pairTask (schedule'.nodup hdim') (fun j hj _ => (schedule'.mem_order hdim').mpr hj) a'
      hj, pairResult, pairResult]
  by_cases hmod : j % (2 * h) < h
  · rw [if_pos hmod, if_pos hmod, ha j hj, ha _ (hpartner hmod)]
  · obtain ⟨hle, -⟩ := hright hmod
    rw [if_neg hmod, if_neg hmod, ha j hj, ha (j - h) (by omega)]

theorem kernelNtt_congr (gmb : ℕ → UInt16) (orders : ℕ → Schedule blockDim n)
    (orders' : ℕ → Schedule blockDim' n) {levels m : ℕ} (hm : 0 < m) (hn : n = m * 2 ^ levels)
    {a a' : ℕ → UInt32} (ha : ∀ j < n, a j = a' j) {j : ℕ} (hj : j < n) :
    kernelNtt gmb orders m (2 ^ levels) a j = kernelNtt gmb orders' m (2 ^ levels) a' j := by
  induction levels generalizing m a a' with
  | zero =>
      rw [kernelNtt, if_neg (by omega), kernelNtt, if_neg (by omega)]
      exact ha j hj
  | succ levels ih =>
      have hpos : 0 < 2 ^ levels := Nat.two_pow_pos levels
      rw [pow_succ'] at hn ⊢
      have hlt : m < n := by nlinarith
      have hdouble : n = 2 * m * 2 ^ levels := by rw [hn]; ring
      conv_lhs => rw [kernelNtt, if_pos ⟨hm, hlt⟩, Nat.mul_div_cancel_left _ two_pos]
      conv_rhs => rw [kernelNtt, if_pos ⟨hm, hlt⟩, Nat.mul_div_cancel_left _ two_pos]
      refine ih (by omega) hdouble fun i hi => ?_
      rw [nttIteration_eq]
      exact pairPhase_congr hdim hdim' hn (orders m) (orders' m) ha hi

theorem kernelIntt_congr (igmb : ℕ → UInt16) (orders : ℕ → Schedule blockDim n)
    (orders' : ℕ → Schedule blockDim' n) {levels d : ℕ} (hn : n = 2 ^ levels * 2 ^ d)
    {a a' : ℕ → UInt32} (ha : ∀ j < n, a j = a' j) {j : ℕ} (hj : j < n) :
    kernelIntt igmb orders (2 ^ levels) (2 ^ d) a j =
      kernelIntt igmb orders' (2 ^ levels) (2 ^ d) a' j := by
  induction levels generalizing d a a' with
  | zero =>
      rw [kernelIntt, if_neg (by norm_num), kernelIntt, if_neg (by norm_num)]
      exact ha j hj
  | succ levels ih =>
      have hpos : 0 < 2 ^ levels := Nat.two_pow_pos levels
      have hblocks : n = 2 ^ levels * (2 * 2 ^ d) := by rw [hn, pow_succ]; ring
      have hlarge : 1 < 2 * 2 ^ levels := by omega
      rw [pow_succ' 2 levels]
      conv_lhs => rw [kernelIntt, if_pos hlarge, Nat.mul_div_cancel_left _ two_pos, ← pow_succ']
      conv_rhs => rw [kernelIntt, if_pos hlarge, Nat.mul_div_cancel_left _ two_pos, ← pow_succ']
      refine ih (by rw [hblocks, pow_succ']) fun i hi => ?_
      rw [inttIteration_eq]
      exact pairPhase_congr hdim hdim' hblocks _ _ ha hi

theorem kernelProduct_congr (gmb igmb : ℕ → UInt16) {logn : ℕ}
    (schedules : ProductSchedules blockDim (2 ^ logn))
    (schedules' : ProductSchedules blockDim' (2 ^ logn)) (hHat : ℕ → UInt32) {a a' : ℕ → UInt32}
    (ha : ∀ j < 2 ^ logn, a j = a' j) {j : ℕ} (hj : j < 2 ^ logn) :
    kernelProduct gmb igmb schedules hHat a j = kernelProduct gmb igmb schedules' hHat a' j := by
  refine kernelIntt_congr hdim hdim' igmb schedules.intt schedules'.intt (d := 0)
    (mul_one _).symm (fun i hi => ?_) hj
  rw [runTasks_pointTask (schedules.multiply.nodup hdim) _
      ((schedules.multiply.mem_order hdim).mpr hi),
    runTasks_pointTask (schedules'.multiply.nodup hdim') _
      ((schedules'.multiply.mem_order hdim').mpr hi),
    kernelNtt_congr hdim hdim' gmb schedules.ntt schedules'.ntt one_pos (one_mul _).symm ha hi]

end Orders

/-- With the factor `n_inv` the kernels have computed the product with the
polynomial whose transform is in `hHat`. -/
theorem kernelProduct_spec (hdim : 0 < blockDim) {logn : ℕ} (hlogn : logn ≤ 10)
    (schedules : ProductSchedules blockDim (2 ^ logn)) {hHat a : ℕ → UInt32}
    {h : ℕ → ZMod 12289} (hred : ReducedBelow (2 ^ logn) hHat)
    (hres : ∀ j < 2 ^ logn, residue (hHat j) * montyInverse = forward twiddle logn 1 h j)
    (ha : ReducedBelow (2 ^ logn) a) {j : ℕ} (hj : j < 2 ^ logn) :
    let w := mqMontymulDevice (kernelProduct gmb igmb schedules hHat a j) (nInv logn)
    Reduced w ∧ residue w = negacyclicMul (2 ^ logn) h (fun j => residue (a j)) j := by
  intro w
  obtain ⟨hred1, hres1⟩ := kernelNtt_spec hdim hlogn schedules.ntt ha
  have hpoint : ∀ j < 2 ^ logn, runTasks (pointTask fun j x => mqMontymulDevice x (hHat j))
      schedules.multiply.order (kernelNtt gmb schedules.ntt 1 (2 ^ logn) a) j =
        mqMontymulU32 (kernelNtt gmb schedules.ntt 1 (2 ^ logn) a j) (hHat j) := fun j hj =>
    runTasks_pointTask (schedules.multiply.nodup hdim) _
      ((schedules.multiply.mem_order hdim).mpr hj)
  have hsmall : ∀ j < 2 ^ logn, (hHat j).toNat < 65536 := by
    intro j hj
    have := hred j hj
    unfold Reduced at this
    omega
  have hred2 : ReducedBelow (2 ^ logn) (runTasks (pointTask fun j x => mqMontymulDevice x (hHat j))
      schedules.multiply.order (kernelNtt gmb schedules.ntt 1 (2 ^ logn) a)) := by
    intro j hj
    rw [hpoint j hj]
    exact reduced_mqMontymulU32 (hred1 j hj) (hsmall j hj)
  obtain ⟨hred3, hres3⟩ := kernelIntt_spec hdim hlogn schedules.intt hred2
  have hproduct : residue (kernelProduct gmb igmb schedules hHat a j) =
      2 ^ logn * negacyclicMul (2 ^ logn) h (fun j => residue (a j)) j := by
    rw [kernelProduct, hres3 j hj, ← inverse_mul splittingTable_twiddle (two_pow_le_1024 hlogn)
      (fun v _ _ => twiddle_mul_inverse v) _ _ hj]
    refine inverse_congr twiddleInverse (fun l hl => ?_) (by omega)
    rw [one_mul] at hl
    rw [hpoint l hl, residue_mqMontymulU32 (hred1 l hl) (hsmall l hl), hres1 l hl, ← hres l hl]
    ring
  obtain ⟨hinvred, hinv⟩ := nInv_spec logn
  have hinvsmall : (nInv logn).toNat < 65536 := by
    unfold Reduced at hinvred
    omega
  have hreduced : Reduced (kernelProduct gmb igmb schedules hHat a j) := hred3 j hj
  refine ⟨reduced_mqMontymulU32 hreduced hinvsmall, ?_⟩
  rw [show w = mqMontymulU32 _ _ from rfl, residue_mqMontymulU32 hreduced hinvsmall, hproduct]
  linear_combination negacyclicMul (2 ^ logn) h (fun j => residue (a j)) j * hinv

end Product

section Ring

noncomputable abbrev NegacyclicRing (n : ℕ) : Type := AdjoinRoot (X ^ n + 1 : (ZMod 12289)[X])

/-- The class of the polynomial with the first `n` entries of `a`. -/
noncomputable def ringElement (n : ℕ) (a : ℕ → ZMod 12289) : NegacyclicRing n :=
  AdjoinRoot.mk (X ^ n + 1) (polyOf n a)

variable {n : ℕ}

theorem ringElement_congr {a b : ℕ → ZMod 12289} (hab : ∀ j < n, a j = b j) :
    ringElement n a = ringElement n b := by
  rw [ringElement, ringElement, polyOf_congr hab]

theorem ringElement_sub (a b : ℕ → ZMod 12289) :
    ringElement n (fun j => a j - b j) = ringElement n a - ringElement n b := by
  rw [ringElement, polyOf_sub, map_sub]
  rfl

theorem ringElement_negacyclicMul (hn : 0 < n) (a b : ℕ → ZMod 12289) :
    ringElement n (negacyclicMul n a b) = ringElement n a * ringElement n b :=
  mk_negacyclicMul hn a b

end Ring

section Host

def residue16 (x : UInt16) : ZMod 12289 := residue x.toUInt32

def ReducedBelow16 (n : ℕ) (a : ℕ → UInt16) : Prop := ∀ j < n, Reduced (a j).toUInt32

theorem toUInt32_toUInt16 {x : UInt32} (hx : Reduced x) : x.toUInt16.toUInt32 = x := by
  apply UInt32.toNat_inj.mp
  unfold Reduced at hx
  rw [UInt16.toNat_toUInt32, UInt32.toNat_toUInt16]
  omega

variable {m h n : ℕ}

/-- The iterations of a stage of `mq_ntt_host`, in their order. -/
def hostOrder (m h : ℕ) : List ℕ :=
  (List.range m).flatMap fun i => List.range' (i * (2 * h)) h

@[simp] theorem mem_hostOrder {j : ℕ} : j ∈ hostOrder m h ↔ j < m * (2 * h) ∧ j % (2 * h) < h := by
  simp only [hostOrder, List.mem_flatMap, List.mem_range, List.mem_range'_1]
  constructor
  · rintro ⟨i, hi, hle, hlt⟩
    obtain ⟨r, rfl⟩ := Nat.exists_eq_add_of_le hle
    obtain ⟨-, hmod⟩ := block_div_mod (h := h) (k := i) (j := r) (by omega)
    exact ⟨block_lt hi (by omega), by omega⟩
  · rintro ⟨hj, hmod⟩
    have hsplit := Nat.div_add_mod' j (2 * h)
    exact ⟨j / (2 * h), Nat.div_lt_of_lt_mul (by rwa [mul_comm]), by omega, by omega⟩

theorem nodup_hostOrder : (hostOrder m h).Nodup := by
  rw [hostOrder, List.nodup_flatMap]
  refine ⟨fun i _ => List.nodup_range', List.nodup_range.imp_of_mem fun {i k} _ _ hne => ?_⟩
  intro j hi hk
  rw [List.mem_range'_1] at hi hk
  obtain ⟨r, rfl⟩ := Nat.exists_eq_add_of_le hi.1
  obtain ⟨s, hs⟩ := Nat.exists_eq_add_of_le hk.1
  obtain ⟨hdiv, -⟩ := block_div_mod (h := h) (k := i) (j := r) (by omega)
  obtain ⟨hdiv', -⟩ := block_div_mod (h := h) (k := k) (j := s) (by omega)
  exact hne (by rw [← hdiv, hs, hdiv'])

/-- What the butterfly of `mq_ntt_host` puts into its left cell. -/
def hostLeft (gmb : ℕ → UInt16) (m h j : ℕ) (u v : UInt16) : UInt16 :=
  (mqAddU32 u.toUInt32
    (mqMontymulU32 v.toUInt32 (gmb (m + j / (2 * h))).toUInt32)).toUInt16

/-- What the butterfly of `mq_ntt_host` puts into its right cell. -/
def hostRight (gmb : ℕ → UInt16) (m h j : ℕ) (u v : UInt16) : UInt16 :=
  (mqSubU32 u.toUInt32
    (mqMontymulU32 v.toUInt32 (gmb (m + j / (2 * h))).toUInt32)).toUInt16

/-- The loops over the blocks and within a block, as one list of butterflies. -/
theorem hostStage_eq {iteration : ℕ → ℕ → (ℕ → UInt16) → ℕ → UInt16}
    {f g : ℕ → UInt16 → UInt16 → UInt16}
    (hiteration : ∀ i j a, j / (2 * h) = i → iteration i j a =
      Function.update (Function.update a j (f j (a j) (a (j + h)))) (j + h) (g j (a j) (a (j + h))))
    (a : ℕ → UInt16) :
    (List.range m).foldl (fun a i =>
      (List.range' (i * (2 * h)) h).foldl (fun a j => iteration i j a) a) a =
    runTasks (pairTask h f g) (hostOrder m h) a := by
  rw [runTasks, hostOrder, List.foldl_flatMap]
  refine List.foldl_ext _ _ _ fun a i _ => List.foldl_ext _ _ _ fun a j hj => ?_
  obtain ⟨hle, hlt⟩ := List.mem_range'_1.mp hj
  obtain ⟨r, rfl⟩ := Nat.exists_eq_add_of_le hle
  obtain ⟨hdiv, hmod⟩ := block_div_mod (h := h) (k := i) (j := r) (by omega)
  rw [hiteration i _ a hdiv, pairTask, hmod, if_pos (by omega)]

/-- The loops of a stage of `mq_ntt_host`, as one list of butterflies. -/
theorem nttHostStage_eq (gmb : ℕ → UInt16) (m h : ℕ) (a : ℕ → UInt16) :
    (List.range m).foldl (fun a i =>
      (List.range' (i * (2 * h)) h).foldl (fun a j => nttHostIteration gmb m h i j a) a) a =
    runTasks (pairTask h (hostLeft gmb m h) (hostRight gmb m h)) (hostOrder m h) a := by
  refine hostStage_eq (fun i j a hdiv => ?_) a
  rw [hostLeft, hostRight, hdiv]
  rfl

theorem nttHostStage_spec (hn : n = m * (2 * h)) (hm : 2 * m ≤ 1024) {a : ℕ → UInt16}
    (ha : ReducedBelow16 n a) :
    let stage := runTasks (pairTask h (hostLeft gmb m h) (hostRight gmb m h)) (hostOrder m h) a
    ReducedBelow16 n stage ∧
      ∀ j < n, residue16 (stage j) = forwardStage twiddle m h (fun j => residue16 (a j)) j := by
  intro stage
  suffices hall : ∀ j < n, Reduced (stage j).toUInt32 ∧
      residue16 (stage j) = forwardStage twiddle m h (fun j => residue16 (a j)) j from
    ⟨fun j hj => (hall j hj).1, fun j hj => (hall j hj).2⟩
  intro j hj
  subst n
  have hstage : stage j = pairResult h (hostLeft gmb m h) (hostRight gmb m h) a j :=
    runTasks_pairTask nodup_hostOrder (fun j hj hmod => mem_hostOrder.mpr ⟨hj, hmod⟩) a hj
  obtain ⟨hblock, hpartner, hright⟩ := block_facts hj
  rw [hstage, pairResult, forwardStage, residue16]
  by_cases hmod : j % (2 * h) < h
  · obtain ⟨hred, hres⟩ := mul_gmb (ha _ (hpartner hmod)) (i := m + j / (2 * h)) (by omega)
    have hsum := reduced_mqAddU32 (ha j hj) hred
    rw [if_pos hmod, if_pos hmod, hostLeft, toUInt32_toUInt16 hsum,
      residue_mqAddU32 (ha j hj) hred, hres]
    exact ⟨hsum, rfl⟩
  · obtain ⟨hle, hsame⟩ := hright hmod
    obtain ⟨hred, hres⟩ := mul_gmb (ha j hj) (i := m + j / (2 * h)) (by omega)
    have hleft : Reduced (a (j - h)).toUInt32 := ha _ (by omega)
    have hdiff := reduced_mqSubU32 hleft hred
    rw [if_neg hmod, if_neg hmod, hostRight, hsame, toUInt32_toUInt16 hdiff,
      residue_mqSubU32 hleft hred, hres]
    exact ⟨hdiff, rfl⟩

theorem mqNttHostFrom_spec {levels : ℕ} (hm : 0 < m) (hn : n = m * 2 ^ levels) (hsize : n ≤ 1024)
    {a : ℕ → UInt16} (ha : ReducedBelow16 n a) :
    ReducedBelow16 n (mqNttHostFrom gmb n m (2 ^ levels) a) ∧
      ∀ j < n, residue16 (mqNttHostFrom gmb n m (2 ^ levels) a j) =
        forward twiddle levels m (fun j => residue16 (a j)) j := by
  induction levels generalizing m a with
  | zero =>
      rw [mqNttHostFrom, if_neg (by omega)]
      exact ⟨ha, fun _ _ => rfl⟩
  | succ levels ih =>
      have hpow : 2 ^ (levels + 1) = 2 * 2 ^ levels := pow_succ' 2 levels
      have hpos : 0 < 2 ^ levels := Nat.two_pow_pos levels
      rw [hpow] at hn ⊢
      have hlt : m < n := by nlinarith
      have hdouble : n = 2 * m * 2 ^ levels := by rw [hn]; ring
      obtain ⟨hred, hres⟩ := nttHostStage_spec hn (by nlinarith) ha
      obtain ⟨hred', hres'⟩ := ih (by omega) hdouble hred
      rw [mqNttHostFrom, if_pos ⟨hm, hlt⟩]
      simp only [Nat.mul_div_cancel_left _ two_pos]
      rw [nttHostStage_eq]
      refine ⟨hred', fun j hj => (hres' j hj).trans ?_⟩
      rw [forward]
      exact forward_congr twiddle (fun i hi => hres i (hdouble ▸ hi)) (hdouble ▸ hj)

theorem mqNttHost_spec {logn : ℕ} (hlogn : logn ≤ 10) {a : ℕ → UInt16}
    (ha : ReducedBelow16 (2 ^ logn) a) :
    ReducedBelow16 (2 ^ logn) (mqNttHost gmb logn a) ∧
      ∀ j < 2 ^ logn, residue16 (mqNttHost gmb logn a j) =
        forward twiddle logn 1 (fun j => residue16 (a j)) j :=
  mqNttHostFrom_spec one_pos (one_mul _).symm (two_pow_le_1024 hlogn) ha

/-- `mq_poly_tomonty_host` puts every entry into Montgomery form. -/
theorem mqPolyTomontyHost_spec {logn : ℕ} {f : ℕ → UInt16} (hf : ReducedBelow16 (2 ^ logn) f) :
    ReducedBelow16 (2 ^ logn) (mqPolyTomontyHost logn f) ∧
      ∀ j < 2 ^ logn, residue16 (mqPolyTomontyHost logn f j) * montyInverse = residue16 (f j) := by
  suffices hall : ∀ j < 2 ^ logn, Reduced (mqPolyTomontyHost logn f j).toUInt32 ∧
      residue16 (mqPolyTomontyHost logn f j) * montyInverse = residue16 (f j) from
    ⟨fun j hj => (hall j hj).1, fun j hj => (hall j hj).2⟩
  intro j hj
  have hloop : mqPolyTomontyHost logn f = runTasks
      (pointTask fun _ x => (mqMontymulU32 x.toUInt32 oofalconR2).toUInt16)
      (List.range (2 ^ logn)) f := rfl
  have hentry : mqPolyTomontyHost logn f j =
      (mqMontymulU32 (f j).toUInt32 oofalconR2).toUInt16 := by
    rw [hloop, runTasks_pointTask List.nodup_range f (List.mem_range.mpr hj)]
  have hsmall : oofalconR2.toNat < 65536 := by decide
  have hred := reduced_mqMontymulU32 (hf j hj) hsmall
  have hunit : residue oofalconR2 * montyInverse * montyInverse = 1 := by decide
  rw [hentry, residue16, toUInt32_toUInt16 hred, residue_mqMontymulU32 (hf j hj) hsmall]
  refine ⟨hred, ?_⟩
  rw [mul_assoc, mul_assoc, ← mul_assoc (residue oofalconR2), hunit, mul_one]
  rfl

/-- The key as `ensure_h_hat` uploads it. -/
def preparedKey (logn : ℕ) (h : ℕ → UInt16) : ℕ → UInt16 :=
  mqPolyTomontyHost logn (mqNttHost gmb logn h)

theorem preparedKey_spec {logn : ℕ} (hlogn : logn ≤ 10) {h : ℕ → UInt16}
    (hh : ReducedBelow16 (2 ^ logn) h) :
    ReducedBelow16 (2 ^ logn) (preparedKey logn h) ∧
      ∀ j < 2 ^ logn, residue16 (preparedKey logn h j) * montyInverse =
        forward twiddle logn 1 (fun j => residue16 (h j)) j := by
  obtain ⟨hred, hres⟩ := mqNttHost_spec hlogn hh
  obtain ⟨hred', hres'⟩ := mqPolyTomontyHost_spec hred
  exact ⟨hred', fun j hj => (hres' j hj).trans (hres j hj)⟩

end Host

end Soko.Gpu
