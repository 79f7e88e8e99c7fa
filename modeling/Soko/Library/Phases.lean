import Mathlib.Algebra.BigOperators.Intervals
import Mathlib.Data.Int.ModEq
import Mathlib.Data.List.Nodup
import Mathlib.Data.List.Range
import Mathlib.Data.Set.Insert
import Mathlib.Data.Set.Lattice
import Mathlib.Order.CompletePartialOrder
import Mathlib.Logic.Function.Basic

/-!
Barrier-delimited phases of a thread block.

Between two barriers every thread executes the iterations of its strided loop,
and the iterations of different threads come in any order. A `Schedule` is such
an order, and a phase is `runTasks` along it. When every task only reads and
writes its own cells, the outcome does not depend on the schedule
(`runTasks_of_mem`, `runTasks_of_not_mem`).
-/

namespace Soko.Library

variable {ι κ α σ τ : Type*}

/-- `for (j = first; j < n; j += stride)`. -/
def stridedLoop (stride n first : ℕ) : List ℕ :=
  if 0 < stride ∧ first < n then first :: stridedLoop stride n (first + stride) else []
  termination_by n - first

/-- The iterations of all threads of a block, thread after thread. -/
def blockIterations (blockDim n : ℕ) : List ℕ :=
  (List.range blockDim).flatMap (stridedLoop blockDim n)

/-- An order in which the threads of a block execute their iterations. -/
structure Schedule (blockDim n : ℕ) where
  order : List ℕ
  perm : order.Perm (blockIterations blockDim n)

def Schedule.sequential (blockDim n : ℕ) : Schedule blockDim n := ⟨_, .refl _⟩

def runTasks (task : ι → σ → σ) (order : List ι) (s : σ) : σ :=
  order.foldl (fun s i => task i s) s

@[simp] theorem runTasks_nil (task : ι → σ → σ) (s : σ) : runTasks task [] s = s := rfl

@[simp] theorem runTasks_cons (task : ι → σ → σ) (i : ι) (order : List ι) (s : σ) :
    runTasks task (i :: order) s = runTasks task order (task i s) := rfl

section Iterations

variable {stride blockDim n first j : ℕ}

theorem mem_stridedLoop (hstride : 0 < stride) (n first j : ℕ) :
    j ∈ stridedLoop stride n first ↔ first ≤ j ∧ j < n ∧ j % stride = first % stride := by
  induction first using stridedLoop.induct stride n with
  | case1 first hfirst ih =>
      rw [stridedLoop, if_pos hfirst, List.mem_cons, ih, Nat.add_mod_right]
      constructor
      · rintro (rfl | ⟨hle, hlt, hmod⟩)
        · exact ⟨le_rfl, hfirst.2, rfl⟩
        · exact ⟨by omega, hlt, hmod⟩
      · rintro ⟨hle, hlt, hmod⟩
        by_cases heq : j = first
        · exact .inl heq
        · have hdvd : stride ∣ j - first := (Nat.modEq_iff_dvd' hle).mp hmod.symm
          have := Nat.le_of_dvd (by omega) hdvd
          exact .inr ⟨by omega, hlt, hmod⟩
  | case2 first hfirst =>
      rw [stridedLoop, if_neg hfirst]
      simp only [List.not_mem_nil, false_iff]
      omega

theorem nodup_stridedLoop (hstride : 0 < stride) (n first : ℕ) :
    (stridedLoop stride n first).Nodup := by
  induction first using stridedLoop.induct stride n with
  | case1 first hfirst ih =>
      rw [stridedLoop, if_pos hfirst, List.nodup_cons, mem_stridedLoop hstride]
      exact ⟨fun h => by omega, ih⟩
  | case2 first hfirst =>
      rw [stridedLoop, if_neg hfirst]
      exact List.nodup_nil

/-- The threads of a block together execute every iteration once. -/
theorem blockIterations_perm (hdim : 0 < blockDim) (n : ℕ) :
    (blockIterations blockDim n).Perm (List.range n) := by
  have hnodup : (blockIterations blockDim n).Nodup := by
    rw [blockIterations, List.nodup_flatMap]
    refine ⟨fun tid _ => nodup_stridedLoop hdim n tid, ?_⟩
    refine List.nodup_range.imp_of_mem fun {tid tid'} htid htid' hne => ?_
    intro j hj hj'
    rw [mem_stridedLoop hdim] at hj hj'
    rw [Nat.mod_eq_of_lt (List.mem_range.mp htid)] at hj
    rw [Nat.mod_eq_of_lt (List.mem_range.mp htid')] at hj'
    exact hne (hj.2.2.symm.trans hj'.2.2)
  rw [List.perm_ext_iff_of_nodup hnodup List.nodup_range]
  intro j
  rw [blockIterations, List.mem_flatMap, List.mem_range]
  constructor
  · rintro ⟨tid, -, hj⟩
    exact ((mem_stridedLoop hdim n tid j).mp hj).2.1
  · intro hj
    refine ⟨j % blockDim, List.mem_range.mpr (Nat.mod_lt j hdim), ?_⟩
    rw [mem_stridedLoop hdim]
    exact ⟨Nat.mod_le j blockDim, hj, (Nat.mod_mod j blockDim).symm⟩

namespace Schedule

variable (schedule : Schedule blockDim n)

theorem perm_range (hdim : 0 < blockDim) : schedule.order.Perm (List.range n) :=
  schedule.perm.trans (blockIterations_perm hdim n)

theorem nodup (hdim : 0 < blockDim) : schedule.order.Nodup :=
  (schedule.perm_range hdim).nodup_iff.mpr List.nodup_range

theorem mem_order (hdim : 0 < blockDim) {j : ℕ} : j ∈ schedule.order ↔ j < n := by
  rw [(schedule.perm_range hdim).mem_iff, List.mem_range]

end Schedule

end Iterations

theorem runTasks_of_not_mem {task : ι → (κ → α) → κ → α} {k : κ} {order : List ι}
    (hframe : ∀ i ∈ order, ∀ b, task i b k = b k) (a : κ → α) :
    runTasks task order a k = a k := by
  induction order generalizing a with
  | nil => rfl
  | cons i order ih =>
      rw [runTasks_cons, ih fun i hi => hframe i (List.mem_cons_of_mem _ hi)]
      exact hframe i List.mem_cons_self a

/-- When the tasks of a phase have their own cells, each finds its cells as they
were before the phase, and what it leaves there stays. -/
theorem runTasks_of_mem {task : ι → (κ → α) → κ → α} (cells : ι → Set κ) {order : List ι}
    (hnodup : order.Nodup)
    (hdisjoint : ∀ i ∈ order, ∀ j ∈ order, i ≠ j → Disjoint (cells i) (cells j))
    (hframe : ∀ i b k, k ∉ cells i → task i b k = b k) {a : κ → α} (result : κ → α) {i : ι}
    (hi : i ∈ order)
    (hlocal : ∀ b, (∀ k ∈ cells i, b k = a k) → ∀ k ∈ cells i, task i b k = result k)
    {k : κ} (hk : k ∈ cells i) : runTasks task order a k = result k := by
  have hgeneral : ∀ b, (∀ k ∈ cells i, b k = a k) → runTasks task order b k = result k := by
    induction order with
    | nil => exact absurd hi List.not_mem_nil
    | cons first order ih =>
        intro b hb
        obtain ⟨hfirst, hnodup⟩ := List.nodup_cons.mp hnodup
        rw [runTasks_cons]
        by_cases heq : first = i
        · subst first
          -- The task runs now, and no later one touches its cells.
          rw [runTasks_of_not_mem fun j hj c => ?_]
          · exact hlocal b hb k hk
          · have hne : i ≠ j := fun h => hfirst (h ▸ hj)
            have hapart := hdisjoint i hi j (List.mem_cons_of_mem _ hj) hne
            exact hframe j c k (Set.disjoint_left.mp hapart hk)
        · have hmem : i ∈ order := (List.mem_cons.mp hi).resolve_left (Ne.symm heq)
          refine ih hnodup (fun i' hi' j hj => hdisjoint i' (List.mem_cons_of_mem _ hi') j
            (List.mem_cons_of_mem _ hj)) hmem _ fun l hl => ?_
          have hapart := hdisjoint i hi first List.mem_cons_self (Ne.symm heq)
          rw [hframe first b l (Set.disjoint_left.mp hapart hl)]
          exact hb l hl
  exact hgeneral a fun _ _ => rfl

/-- What a phase does to a component of the state on which its tasks act by
themselves. -/
theorem runTasks_component {task : ι → σ → σ} (component : σ → τ) (task' : ι → τ → τ)
    (hcomponent : ∀ i s, component (task i s) = task' i (component s)) (order : List ι) (s : σ) :
    component (runTasks task order s) = runTasks task' order (component s) := by
  induction order generalizing s with
  | nil => rfl
  | cons i order ih => rw [runTasks_cons, runTasks_cons, ih, hcomponent]

theorem runTasks_frame {task : ι → σ → σ} (component : σ → τ)
    (hframe : ∀ i s, component (task i s) = component s) (order : List ι) (s : σ) :
    component (runTasks task order s) = component s := by
  induction order generalizing s with
  | nil => rfl
  | cons i order ih => rw [runTasks_cons, ih, hframe]

section Points

variable {f : ℕ → α → α}

def pointTask (f : ℕ → α → α) (j : ℕ) (a : ℕ → α) : ℕ → α := Function.update a j (f j (a j))

theorem runTasks_pointTask {order : List ℕ} (hnodup : order.Nodup) (a : ℕ → α) {j : ℕ}
    (hj : j ∈ order) : runTasks (pointTask f) order a j = f j (a j) := by
  refine runTasks_of_mem (fun i => {i}) hnodup
    (fun i _ j _ hne => Set.disjoint_singleton.mpr hne) (fun i b k hk => ?_)
    (fun k => f k (a k)) hj (fun b hb k hk => ?_) rfl
  · exact Function.update_of_ne hk _ _
  · obtain rfl := Set.mem_singleton_iff.mp hk
    rw [pointTask, Function.update_self, hb k rfl]

end Points

section Scatter

variable [DecidableEq κ] (idx : ι → κ) (val : ι → α)

def scatterTask (i : ι) (a : κ → α) : κ → α :=
  Function.update a (idx i) (val i)

theorem runTasks_scatterTask {order : List ι} (hnodup : order.Nodup)
    (hinj : Set.InjOn idx {i | i ∈ order}) (a : κ → α) {i : ι} (hi : i ∈ order) :
    runTasks (scatterTask idx val) order a (idx i) = val i := by
  refine runTasks_of_mem (fun i => {idx i}) hnodup (fun i hi j hj hne => ?_)
    (fun i b k hk => ?_) (fun _ => val i) hi (fun b _ k hk => ?_) rfl
  · exact Set.disjoint_singleton.mpr fun heq => hne (hinj hi hj heq)
  · exact Function.update_of_ne hk _ _
  · obtain rfl := Set.mem_singleton_iff.mp hk
    exact Function.update_self _ _ _

theorem runTasks_scatterTask_of_ne {order : List ι} {k : κ} (hk : ∀ i ∈ order, idx i ≠ k)
    (a : κ → α) : runTasks (scatterTask idx val) order a k = a k :=
  runTasks_of_not_mem (fun i hi _ => Function.update_of_ne (hk i hi).symm _ _) a

end Scatter

section Reduction

def reduceTask [Add α] (stride tid : ℕ) (sum : ℕ → α) : ℕ → α :=
  if tid < stride then Function.update sum tid (sum tid + sum (tid + stride)) else sum

/-- `for (; stride > 0; stride >>= 1)`, each step by all threads. -/
def treeReduction [Add α] {blockDim : ℕ} (orders : ℕ → Schedule blockDim blockDim)
    (stride : ℕ) (sum : ℕ → α) : ℕ → α :=
  if 0 < stride then
    treeReduction orders (stride / 2) (runTasks (reduceTask stride) (orders stride).order sum)
  else sum
  termination_by stride

theorem runTasks_reduceTask [Add α] {order : List ℕ} (hnodup : order.Nodup) (stride : ℕ)
    (sum : ℕ → α) {i : ℕ} (hi : i < stride) (hmem : i ∈ order) :
    runTasks (reduceTask stride) order sum i = sum i + sum (i + stride) := by
  -- The cells of a thread are the two that it reads.
  refine runTasks_of_mem (fun tid => {k | tid < stride ∧ (k = tid ∨ k = tid + stride)}) hnodup
    (fun tid _ tid' _ hne => ?_) (fun tid b k hk => ?_)
    (fun k => if k < stride then sum k + sum (k + stride) else sum k) hmem
    (fun b hb k hk => ?_) (k := i) ⟨hi, .inl rfl⟩ |>.trans (if_pos hi)
  · rw [Set.disjoint_left]
    rintro k ⟨htid, hk⟩ ⟨htid', hk'⟩
    omega
  · rw [reduceTask]
    split
    · exact Function.update_of_ne (fun heq => hk ⟨‹_›, .inl heq⟩) _ _
    · rfl
  · have hleft : b i = sum i := hb i ⟨hi, .inl rfl⟩
    have hright : b (i + stride) = sum (i + stride) := hb (i + stride) ⟨hi, .inr rfl⟩
    rw [reduceTask, if_pos hi, hleft, hright]
    obtain ⟨-, rfl | rfl⟩ := hk
    · rw [Function.update_self, if_pos hi]
    · rw [Function.update_of_ne (by omega), if_neg (by omega), hright]

theorem treeReduction_zero [AddCommMonoid α] {blockDim : ℕ} (hdim : 0 < blockDim)
    (orders : ℕ → Schedule blockDim blockDim) {levels : ℕ} (hlevels : 2 ^ levels ≤ blockDim)
    (sum : ℕ → α) :
    treeReduction orders (2 ^ levels / 2) sum 0 = ∑ i ∈ Finset.range (2 ^ levels), sum i := by
  induction levels generalizing sum with
  | zero =>
      rw [treeReduction, if_neg (by decide), pow_zero, Finset.sum_range_one]
  | succ levels ih =>
      have hpow : 2 ^ (levels + 1) = 2 ^ levels + 2 ^ levels := by rw [pow_succ, Nat.mul_two]
      have hhalf : 2 ^ (levels + 1) / 2 = 2 ^ levels := by omega
      rw [treeReduction, hhalf, if_pos (Nat.two_pow_pos levels), ih (by omega), hpow,
        Finset.sum_range_add, ← Finset.sum_add_distrib]
      refine Finset.sum_congr rfl fun i hi => ?_
      have hlt := Finset.mem_range.mp hi
      have hmem : i ∈ (orders (2 ^ levels)).order :=
        ((orders (2 ^ levels)).mem_order hdim).mpr (by omega)
      rw [runTasks_reduceTask ((orders _).nodup hdim) _ sum hlt hmem, Nat.add_comm i]

/-- The partial sums of the threads add up to the sum over all iterations. -/
theorem sum_stridedLoop [AddCommMonoid α] {blockDim : ℕ} (hdim : 0 < blockDim) (n : ℕ)
    (f : ℕ → α) :
    ∑ tid ∈ Finset.range blockDim, ((stridedLoop blockDim n tid).map f).sum =
      ∑ j ∈ Finset.range n, f j := by
  have hperm := ((blockIterations_perm hdim n).map f).sum_eq
  rw [blockIterations, List.map_flatMap, List.flatMap_def, List.sum_flatten, List.map_map] at hperm
  exact hperm

end Reduction

section Draws

variable {δ : Type*} {draw : ι → Option δ} {apply : ι → δ → σ → σ}

/-- Execute the tasks of a phase that begin with a draw, and may not return from it. -/
def runDraws (draw : ι → Option δ) (apply : ι → δ → σ → σ) (order : List ι) (s : σ) : Option σ :=
  order.foldlM (fun s i => (draw i).map fun d => apply i d s) s

theorem runDraws_eq_some {drawn : ι → δ} {order : List ι}
    (hdraw : ∀ i ∈ order, draw i = some (drawn i)) (s : σ) :
    runDraws draw apply order s = some (runTasks (fun i => apply i (drawn i)) order s) := by
  induction order generalizing s with
  | nil => rfl
  | cons i order ih =>
      rw [runDraws, List.foldlM_cons, hdraw i List.mem_cons_self]
      exact ih (fun i hi => hdraw i (List.mem_cons_of_mem _ hi)) _

@[simp] theorem isSome_runDraws (order : List ι) (s : σ) :
    (runDraws draw apply order s).isSome ↔ ∀ i ∈ order, (draw i).isSome := by
  induction order generalizing s with
  | nil => simp [runDraws]
  | cons i order ih =>
      rw [runDraws, List.foldlM_cons, List.forall_mem_cons]
      cases hdraw : draw i with
      | none => simp
      | some d =>
          simp only [Option.map_some, Option.isSome_some, true_and]
          exact ih (apply i d s)

end Draws

section Pairs

variable {h m : ℕ} {f g : ℕ → α → α → α}

/-- The task of a butterfly: in the left half of its block of `2 * h` cells,
iteration `j` rewrites the cells `j` and `j + h`. -/
def pairTask (h : ℕ) (f g : ℕ → α → α → α) (j : ℕ) (a : ℕ → α) : ℕ → α :=
  if j % (2 * h) < h then
    Function.update (Function.update a j (f j (a j) (a (j + h)))) (j + h)
      (g j (a j) (a (j + h)))
  else a

def pairResult (h : ℕ) (f g : ℕ → α → α → α) (a : ℕ → α) (j : ℕ) : α :=
  if j % (2 * h) < h then f j (a j) (a (j + h)) else g (j - h) (a (j - h)) (a j)

def pairCells (h j : ℕ) : Set ℕ := {k | j % (2 * h) < h ∧ (k = j ∨ k = j + h)}

theorem disjoint_pairCells {i j : ℕ} (hne : i ≠ j) : Disjoint (pairCells h i) (pairCells h j) := by
  rw [Set.disjoint_left]
  rintro k ⟨hi, hki⟩ ⟨hj, hkj⟩
  have hright : ∀ l, l % (2 * h) < h → (l + h) % (2 * h) = l % (2 * h) + h := by
    intro l hl
    rw [Nat.add_mod, Nat.mod_eq_of_lt (show h < 2 * h by omega), Nat.mod_eq_of_lt (by omega)]
  obtain rfl | rfl := hki <;> obtain hkj | hkj := hkj
  · exact hne hkj
  · have := hright j hj
    rw [← hkj] at this
    omega
  · have := hright i hi
    rw [hkj] at this
    omega
  · omega

/-- A phase of butterflies, whatever the order of its iterations. -/
theorem runTasks_pairTask {order : List ℕ} (hnodup : order.Nodup)
    (hleft : ∀ j < m * (2 * h), j % (2 * h) < h → j ∈ order) (a : ℕ → α) {j : ℕ}
    (hj : j < m * (2 * h)) :
    runTasks (pairTask h f g) order a j = pairResult h f g a j := by
  have hh : 0 < h := by
    by_contra hzero
    have : h = 0 := by omega
    subst h
    omega
  have hframe : ∀ i b k, k ∉ pairCells h i → pairTask h f g i b k = b k := by
    intro i b k hk
    rw [pairTask]
    split
    · have hne : k ≠ i ∧ k ≠ i + h := by
        constructor <;> rintro rfl <;> exact hk ⟨‹_›, by simp⟩
      rw [Function.update_of_ne hne.2, Function.update_of_ne hne.1]
    · rfl
  have hlocal : ∀ i, i % (2 * h) < h → ∀ b, (∀ k ∈ pairCells h i, b k = a k) →
      ∀ k ∈ pairCells h i, pairTask h f g i b k = pairResult h f g a k := by
    intro i hmod b hb k hk
    have hbi : b i = a i := hb i ⟨hmod, .inl rfl⟩
    have hbh : b (i + h) = a (i + h) := hb (i + h) ⟨hmod, .inr rfl⟩
    rw [pairTask, if_pos hmod, hbi, hbh]
    obtain ⟨-, rfl | rfl⟩ := hk
    · rw [Function.update_of_ne (by omega), Function.update_self, pairResult, if_pos hmod]
    · have hright : ¬ (i + h) % (2 * h) < h := by
        rw [Nat.add_mod, Nat.mod_eq_of_lt (show h < 2 * h by omega), Nat.mod_eq_of_lt (by omega)]
        omega
      rw [Function.update_self, pairResult, if_neg hright, Nat.add_sub_cancel]
  have hmain : ∀ i < m * (2 * h), i % (2 * h) < h → ∀ k ∈ pairCells h i,
      runTasks (pairTask h f g) order a k = pairResult h f g a k := by
    intro i hi hmod k hk
    exact runTasks_of_mem (pairCells h) hnodup (fun _ _ _ _ hne => disjoint_pairCells hne)
      hframe (pairResult h f g a) (hleft i hi hmod) (hlocal i hmod) hk
  by_cases hmod : j % (2 * h) < h
  · exact hmain j hj hmod j ⟨hmod, .inl rfl⟩
  · -- `j` is in the right half; its iteration is `j - h`.
    have hle := Nat.mod_le j (2 * h)
    have hpartner : (j - h) % (2 * h) < h := by
      have hlt := Nat.mod_lt j (show 0 < 2 * h by omega)
      have hsplit : j - h = 2 * h * (j / (2 * h)) + (j % (2 * h) - h) := by
        have := Nat.div_add_mod j (2 * h)
        omega
      rw [hsplit, Nat.mul_add_mod, Nat.mod_eq_of_lt (by omega)]
      omega
    exact hmain (j - h) (by omega) hpartner j ⟨hpartner, .inr (by omega)⟩

end Pairs

end Soko.Library
