import Soko.FnDsa.Tables
import Soko.Gpu.Transform

/-!
The transforms of `submodules/FN-DSA/vrfy.c`, which keep their entries in 16-bit memory.
The functions modulo `q` have the bodies of those of `soko_gpu_offline.cu`. As long as
the entries are reduced nothing is lost in 16 bits: `Widened` relates such a memory with
the 32-bit array of a kernel, and a stage of butterflies keeps it, in whatever order the
kernel executes the stage.
-/

namespace Soko.FnDsa

open Soko.Library Soko.Gpu

def mqAdd : UInt32 → UInt32 → UInt32 := mqAddU32

def mqSub : UInt32 → UInt32 → UInt32 := mqSubU32

def mqRshift1 : UInt32 → UInt32 := mqRshift1U32

def mqMontymul : UInt32 → UInt32 → UInt32 := mqMontymulU32

/-- `mq_NTT`, whose loops are those of `mq_ntt_host`. -/
def mqNTT (logn : ℕ) (a : ℕ → UInt16) : ℕ → UInt16 :=
  mqNttHost (fun i => GMb.getD i 0) logn a

/-- The iteration `j` of block `i` in `mq_iNTT`. -/
def mqINTTIteration (iGMb : ℕ → UInt16) (hm t i j : ℕ) (a : ℕ → UInt16) : ℕ → UInt16 :=
  let s := (iGMb (hm + i)).toUInt32
  let u := (a j).toUInt32
  let v := (a (j + t)).toUInt32
  let w := mqSub u v
  Function.update (Function.update a j (mqAdd u v).toUInt16) (j + t) (mqMontymul w s).toUInt16

/-- The stage loop of `mq_iNTT`, from `m` blocks of length `t` on. -/
def mqINTTFrom (iGMb : ℕ → UInt16) (m t : ℕ) (a : ℕ → UInt16) : ℕ → UInt16 :=
  if 1 < m then
    let hm := m / 2
    let dt := 2 * t
    let stage := (List.range hm).foldl (fun a i =>
      (List.range' (i * dt) t).foldl (fun a j => mqINTTIteration iGMb hm t i j a) a) a
    mqINTTFrom iGMb hm dt stage
  else a
  termination_by m

/-- `mq_iNTT` without the final scaling. -/
def mqINTTStages (logn : ℕ) (a : ℕ → UInt16) : ℕ → UInt16 :=
  mqINTTFrom (fun i => iGMb.getD i 0) (2 ^ logn) 1 a

/-- The loop of `mq_iNTT` that computes `ni`, from `m` on. -/
def niLoop (m : ℕ) (ni : UInt32) : UInt32 :=
  if 1 < m then niLoop (m / 2) (mqRshift1 ni) else ni
  termination_by m

def ni (logn : ℕ) : UInt32 := niLoop (2 ^ logn) oofalconR

theorem niLoop_eq (m : ℕ) (x : UInt32) : niLoop m x = nInvLoop m x := by
  induction m, x using niLoop.induct with
  | case1 m x hm ih =>
      rw [niLoop, nInvLoop, if_pos hm, if_pos hm, ih]
      rfl
  | case2 m x hm => rw [niLoop, nInvLoop, if_neg hm, if_neg hm]

theorem ni_eq (logn : ℕ) : ni logn = nInv logn := niLoop_eq _ _

/-- The final scaling of `mq_iNTT`. -/
def mqINTTScale (logn : ℕ) (a : ℕ → UInt16) : ℕ → UInt16 :=
  (List.range (2 ^ logn)).foldl
    (fun a m => Function.update a m (mqMontymul (a m).toUInt32 (ni logn)).toUInt16) a

def mqINTT (logn : ℕ) (a : ℕ → UInt16) : ℕ → UInt16 := mqINTTScale logn (mqINTTStages logn a)

def mqPolyMontymulNtt (logn : ℕ) (f g : ℕ → UInt16) : ℕ → UInt16 :=
  (List.range (2 ^ logn)).foldl
    (fun f u => Function.update f u (mqMontymul (f u).toUInt32 (g u).toUInt32).toUInt16) f

def mqPolySub (logn : ℕ) (f g : ℕ → UInt16) : ℕ → UInt16 :=
  (List.range (2 ^ logn)).foldl
    (fun f u => Function.update f u (mqSub (f u).toUInt32 (g u).toUInt32).toUInt16) f

/-- What a loop that rewrites entry by entry leaves in an entry. -/
theorem foldl_update_apply {n : ℕ} (f : ℕ → UInt16 → UInt16) (a : ℕ → UInt16) {j : ℕ}
    (hj : j < n) :
    (List.range n).foldl (fun a j => Function.update a j (f j (a j))) a j = f j (a j) := by
  have hloop : (List.range n).foldl (fun a j => Function.update a j (f j (a j))) a =
      runTasks (pointTask f) (List.range n) a := rfl
  rw [hloop, runTasks_pointTask List.nodup_range a (List.mem_range.mpr hj)]

theorem mqINTTScale_apply {logn j : ℕ} (hj : j < 2 ^ logn) (a : ℕ → UInt16) :
    mqINTTScale logn a j = (mqMontymul (a j).toUInt32 (nInv logn)).toUInt16 := by
  rw [← ni_eq]
  exact foldl_update_apply (fun _ x => (mqMontymul x.toUInt32 (ni logn)).toUInt16) a hj

theorem mqPolySub_apply {logn j : ℕ} (hj : j < 2 ^ logn) (f g : ℕ → UInt16) :
    mqPolySub logn f g j = (mqSub (f j).toUInt32 (g j).toUInt32).toUInt16 :=
  foldl_update_apply (fun u x => (mqSub x.toUInt32 (g u).toUInt32).toUInt16) f hj

/-- The first `n` entries of a 32-bit array are reduced and those of a 16-bit one. -/
def Widened (n : ℕ) (a : ℕ → UInt16) (s : ℕ → UInt32) : Prop :=
  ∀ j < n, Reduced (s j) ∧ s j = (a j).toUInt32

variable {blockDim n m h : ℕ} {a : ℕ → UInt16} {s : ℕ → UInt32}

theorem Widened.reduced (hs : Widened n a s) : ReducedBelow n s := fun j hj => (hs j hj).1

theorem Widened.eq (hs : Widened n a s) {j : ℕ} (hj : j < n) : s j = (a j).toUInt32 :=
  (hs j hj).2

theorem widened_toUInt16 {x : UInt32} (hx : Reduced x) :
    Reduced x ∧ x = x.toUInt16.toUInt32 :=
  ⟨hx, (toUInt32_toUInt16 hx).symm⟩

/-- A stage of butterflies, in 16 bits in the order of the sequential loops and in 32 bits
in any order. -/
theorem widened_stage (hdim : 0 < blockDim) (hn : n = m * (2 * h)) (schedule : Schedule blockDim n)
    {f g : ℕ → UInt32 → UInt32 → UInt32} {f' g' : ℕ → UInt16 → UInt16 → UInt16}
    (hf : ∀ j < n, ∀ u v, Reduced u → Reduced v → Reduced (f j u v))
    (hg : ∀ j < n, ∀ u v, Reduced u → Reduced v → Reduced (g j u v))
    (hf' : ∀ j < n, ∀ u v, f' j u v = (f j u.toUInt32 v.toUInt32).toUInt16)
    (hg' : ∀ j < n, ∀ u v, g' j u v = (g j u.toUInt32 v.toUInt32).toUInt16)
    (hs : Widened n a s) :
    Widened n (runTasks (pairTask h f' g') (hostOrder m h) a)
      (runTasks (pairTask h f g) schedule.order s) := by
  subst n
  intro j hj
  obtain ⟨-, hpartner, hright⟩ := block_facts hj
  rw [runTasks_pairTask (schedule.nodup hdim) (fun j hj _ => (schedule.mem_order hdim).mpr hj) s hj,
    runTasks_pairTask nodup_hostOrder (fun j hj hmod => mem_hostOrder.mpr ⟨hj, hmod⟩) a hj,
    pairResult, pairResult]
  obtain ⟨hred, heq⟩ := hs j hj
  by_cases hmod : j % (2 * h) < h
  · obtain ⟨hred', heq'⟩ := hs (j + h) (hpartner hmod)
    rw [if_pos hmod, if_pos hmod, hf' j hj, ← heq, ← heq']
    exact widened_toUInt16 (hf j hj _ _ hred hred')
  · obtain ⟨hle, -⟩ := hright hmod
    have hlt : j - h < m * (2 * h) := by omega
    obtain ⟨hred', heq'⟩ := hs (j - h) hlt
    rw [if_neg hmod, if_neg hmod, hg' (j - h) hlt, ← heq, ← heq']
    exact widened_toUInt16 (hg (j - h) hlt _ _ hred' hred)

/-- A loop that rewrites entry by entry, and the phase of a kernel that does so. -/
theorem widened_point (hdim : 0 < blockDim) (schedule : Schedule blockDim n)
    {f : ℕ → UInt32 → UInt32} (hf : ∀ j < n, ∀ x, Reduced x → Reduced (f j x))
    (hs : Widened n a s) :
    Widened n (runTasks (pointTask fun j x => (f j x.toUInt32).toUInt16) (List.range n) a)
      (runTasks (pointTask f) schedule.order s) := by
  intro j hj
  obtain ⟨hred, heq⟩ := hs j hj
  rw [runTasks_pointTask (schedule.nodup hdim) s ((schedule.mem_order hdim).mpr hj),
    runTasks_pointTask List.nodup_range a (List.mem_range.mpr hj), ← heq]
  exact widened_toUInt16 (hf j hj _ hred)

theorem toNat_toUInt32_lt (x : UInt16) : x.toUInt32.toNat < 65536 := by
  rw [UInt16.toNat_toUInt32]
  exact x.toNat_lt

/-- The NTT loop of a kernel and the stages of `mq_ntt_host`, with tables that agree. -/
theorem widened_nttFrom (hdim : 0 < blockDim) {gmb gmb' : ℕ → UInt16}
    (hgmb : ∀ i < n, gmb' i = gmb i) (orders : ℕ → Schedule blockDim n) {levels : ℕ} (hm : 0 < m)
    (hn : n = m * 2 ^ levels) (hs : Widened n a s) :
    Widened n (mqNttHostFrom gmb' n m (2 ^ levels) a) (kernelNtt gmb orders m (2 ^ levels) s) := by
  induction levels generalizing m a s with
  | zero =>
      rw [mqNttHostFrom, if_neg (by omega), kernelNtt, if_neg (by omega)]
      exact hs
  | succ levels ih =>
      have hpos : 0 < 2 ^ levels := Nat.two_pow_pos levels
      rw [pow_succ'] at hn ⊢
      have hlt : 2 * m ≤ n := by nlinarith
      have hdouble : n = 2 * m * 2 ^ levels := by rw [hn]; ring
      have hstage : m < n := by omega
      rw [mqNttHostFrom, if_pos ⟨hm, hstage⟩, kernelNtt, if_pos ⟨hm, hstage⟩]
      simp only [Nat.mul_div_cancel_left _ two_pos]
      refine ih (by omega) hdouble ?_
      rw [nttHostStage_eq, nttIteration_eq]
      have hproduct : ∀ j v, Reduced v →
          Reduced (mqMontymulU32 v (gmb (m + j / (2 * 2 ^ levels))).toUInt32) := fun j v hv =>
        reduced_mqMontymulU32 hv (toNat_toUInt32_lt _)
      have htable : ∀ j < n,
          gmb' (m + j / (2 * 2 ^ levels)) = gmb (m + j / (2 * 2 ^ levels)) := by
        intro j hj
        obtain ⟨hblock, -⟩ := block_facts (hn ▸ hj)
        exact hgmb _ (by omega)
      refine widened_stage hdim hn (orders m)
        (fun j _ u v hu hv => reduced_mqAddU32 hu (hproduct j v hv))
        (fun j _ u v hu hv => reduced_mqSubU32 hu (hproduct j v hv))
        (fun j hj u v => ?_) (fun j hj u v => ?_) hs
      · rw [hostLeft, htable j hj]
      · rw [hostRight, htable j hj]

/-- What the butterfly of `mq_iNTT` puts into its left cell. -/
def inverseLeft (u v : UInt16) : UInt16 := (mqAdd u.toUInt32 v.toUInt32).toUInt16

/-- What the butterfly of `mq_iNTT` puts into its right cell. -/
def inverseRight (iGMb : ℕ → UInt16) (hm t j : ℕ) (u v : UInt16) : UInt16 :=
  (mqMontymul (mqSub u.toUInt32 v.toUInt32) (iGMb (hm + j / (2 * t))).toUInt32).toUInt16

/-- The loops of a stage of `mq_iNTT`, as one list of butterflies. -/
theorem inttHostStage_eq (iGMb : ℕ → UInt16) (hm t : ℕ) (a : ℕ → UInt16) :
    (List.range hm).foldl (fun a i =>
      (List.range' (i * (2 * t)) t).foldl (fun a j => mqINTTIteration iGMb hm t i j a) a) a =
    runTasks (pairTask t (fun _ => inverseLeft) (inverseRight iGMb hm t)) (hostOrder hm t) a := by
  refine hostStage_eq (fun i j a hdiv => ?_) a
  rw [inverseRight, hdiv]
  rfl

/-- The inverse loop of a kernel and the stages of `mq_iNTT`, with tables that agree. -/
theorem widened_inttFrom (hdim : 0 < blockDim) {igmb igmb' : ℕ → UInt16}
    (higmb : ∀ i < n, igmb' i = igmb i) (orders : ℕ → Schedule blockDim n) {levels d : ℕ}
    (hn : n = 2 ^ levels * 2 ^ d) (hs : Widened n a s) :
    Widened n (mqINTTFrom igmb' (2 ^ levels) (2 ^ d) a)
      (kernelIntt igmb orders (2 ^ levels) (2 ^ d) s) := by
  induction levels generalizing d a s with
  | zero =>
      rw [mqINTTFrom, if_neg (by norm_num), kernelIntt, if_neg (by norm_num)]
      exact hs
  | succ levels ih =>
      have hpos : 0 < 2 ^ levels := Nat.two_pow_pos levels
      have hblocks : n = 2 ^ levels * (2 * 2 ^ d) := by rw [hn, pow_succ]; ring
      have hlarge : 1 < 2 * 2 ^ levels := by omega
      have hsmall : 2 * 2 ^ levels ≤ n := by
        rw [hn, pow_succ']
        exact Nat.le_mul_of_pos_right _ (Nat.two_pow_pos d)
      rw [pow_succ' 2 levels, mqINTTFrom, if_pos hlarge, kernelIntt, if_pos hlarge]
      simp only [Nat.mul_div_cancel_left _ two_pos]
      rw [← pow_succ' 2 d]
      refine ih (by rw [hblocks, pow_succ']) ?_
      rw [pow_succ' 2 d, inttHostStage_eq, inttIteration_eq, Nat.mul_div_cancel_left _ two_pos]
      refine widened_stage hdim hblocks (orders _)
        (fun j _ u v hu hv => reduced_mqAddU32 hu hv)
        (fun j _ u v hu hv =>
          reduced_mqMontymulU32 (reduced_mqSubU32 hu hv) (toNat_toUInt32_lt _))
        (fun _ _ _ _ => rfl) (fun j hj u v => ?_) hs
      obtain ⟨hblock, -⟩ := block_facts (hblocks ▸ hj)
      rw [inverseRight, higmb _ (by omega)]
      rfl

end Soko.FnDsa
