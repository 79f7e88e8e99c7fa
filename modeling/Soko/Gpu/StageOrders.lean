import Soko.FnDsa.Transform

/-!
The stages of the kernels under every thread schedule. Within a stage each pair of
entries is processed by one iteration and no entry by two, so that the order of the
iterations does not matter; the whole loops compute what the sequential code computes,
`mq_ntt_host` forward and the butterflies of FN-DSA's `mq_iNTT` backward, word by word.
-/

namespace Soko.Gpu

open Soko.Library Soko.FnDsa

/-- The entries that iteration `j` of a stage of the NTT loop reads and writes. -/
def nttTouched (t j : ℕ) : List ℕ :=
  let ht := t / 2
  let i := j / t
  let j1 := i * t
  let j2 := j1 + ht
  if j ≥ j2 then [] else [j, j + ht]

/-- The entries that iteration `j` of a stage of the inverse loop reads and writes. -/
def inttTouched (t j : ℕ) : List ℕ :=
  let dt := 2 * t
  let i := j / dt
  let j1 := i * dt
  let j2 := j1 + t
  if j ≥ j2 then [] else [j, j + t]

/-- The iterations in `order` are a stage on pairs `(j, j + h)` of the entries below `n`:
each pair is processed by exactly one of them, and every entry is touched by exactly one.
An iteration changes no other entries and reads no others. -/
structure StageExact (n h : ℕ) (order : List ℕ) (touched : ℕ → List ℕ)
    (iteration : ℕ → (ℕ → UInt32) → ℕ → UInt32) : Prop where
  pair_once : ∀ j < n, j % (2 * h) < h → order.countP (fun i => touched i = [j, j + h]) = 1
  entries : (order.flatMap touched).Perm (List.range n)
  writes : ∀ j a k, k ∉ touched j → iteration j a k = a k
  reads : ∀ j a b, (∀ k ∈ touched j, a k = b k) →
    ∀ k ∈ touched j, iteration j a k = iteration j b k

def pairTouched (h j : ℕ) : List ℕ := if j % (2 * h) < h then [j, j + h] else []

theorem nttTouched_eq (h : ℕ) : nttTouched (2 * h) = pairTouched h := by
  ext1 j
  have hsplit := Nat.div_add_mod' j (2 * h)
  have hhalf : 2 * h / 2 = h := by omega
  simp only [nttTouched, pairTouched, hhalf]
  split_ifs <;> first | rfl | omega

theorem inttTouched_eq (h : ℕ) : inttTouched h = pairTouched h := by
  ext1 j
  have hsplit := Nat.div_add_mod' j (2 * h)
  simp only [inttTouched, pairTouched]
  split_ifs <;> first | rfl | omega

variable {blockDim n m h : ℕ}

@[simp] theorem mem_pairTouched {j k : ℕ} : k ∈ pairTouched h j ↔ k ∈ pairCells h j := by
  unfold pairTouched pairCells
  split <;> simp_all

theorem exists_mem_pairTouched (hh : 0 < h) (hn : n = m * (2 * h)) {k : ℕ} :
    k < n ↔ ∃ j < n, k ∈ pairTouched h j := by
  subst n
  simp only [mem_pairTouched, pairCells, Set.mem_ofPred_eq]
  constructor
  · intro hk
    by_cases hmod : k % (2 * h) < h
    · exact ⟨k, hk, hmod, .inl rfl⟩
    · obtain ⟨hle, hsame⟩ := (block_facts hk).2.2 hmod
      have hsplit := Nat.div_add_mod' k (2 * h)
      have hsplit' := Nat.div_add_mod' (k - h) (2 * h)
      have hlt := Nat.mod_lt k (show 0 < 2 * h by omega)
      rw [hsame] at hsplit'
      exact ⟨k - h, by omega, by omega, .inr (by omega)⟩
  · rintro ⟨j, hj, hmod, rfl | rfl⟩
    · exact hj
    · exact (block_facts hj).2.1 hmod

/-- The stages of both loops, in any order of their iterations. -/
theorem stageExact_pairTask (hdim : 0 < blockDim) (hh : 0 < h) (hn : n = m * (2 * h))
    (schedule : Schedule blockDim n) (f g : ℕ → UInt32 → UInt32 → UInt32) :
    StageExact n h schedule.order (pairTouched h) (pairTask h f g) where
  pair_once := by
    intro j hj hmod
    have hpair : ∀ i ∈ schedule.order,
        (decide (pairTouched h i = [j, j + h]) = true ↔ (i == j) = true) := by
      intro i _
      rw [decide_eq_true_iff, beq_iff_eq, pairTouched]
      split
      · simp
      · constructor
        · simp
        · rintro rfl
          contradiction
    rw [List.countP_congr hpair]
    exact List.count_eq_one_of_mem (schedule.nodup hdim) ((schedule.mem_order hdim).mpr hj)
  entries := by
    have hnodup : (schedule.order.flatMap (pairTouched h)).Nodup := by
      rw [List.nodup_flatMap]
      constructor
      · intro j _
        unfold pairTouched
        split
        · simpa using hh.ne'
        · exact List.nodup_nil
      · refine (schedule.nodup hdim).imp fun {i j} hne k hi hj => ?_
        exact Set.disjoint_left.mp (disjoint_pairCells hne) (mem_pairTouched.mp hi)
          (mem_pairTouched.mp hj)
    rw [List.perm_ext_iff_of_nodup hnodup List.nodup_range]
    intro k
    rw [List.mem_range, exists_mem_pairTouched hh hn, List.mem_flatMap]
    simp only [schedule.mem_order hdim]
  writes := by
    intro j a k hk
    unfold pairTask
    unfold pairTouched at hk
    split at hk
    · simp only [List.mem_cons, List.not_mem_nil, or_false, not_or] at hk
      rw [if_pos ‹_›, Function.update_of_ne hk.2, Function.update_of_ne hk.1]
    · rw [if_neg ‹_›]
  reads := by
    intro j a b hab k hk
    unfold pairTask
    unfold pairTouched at hab hk
    split at hab
    · rename_i hmod
      rw [if_pos hmod] at hk
      have hleft : a j = b j := hab j (by simp)
      have hright : a (j + h) = b (j + h) := hab (j + h) (by simp)
      rw [if_pos hmod, if_pos hmod, hleft, hright]
      by_cases hlast : k = j + h
      · rw [hlast, Function.update_self, Function.update_self]
      · have hfirst : k = j := by simpa [hlast] using hk
        rw [Function.update_of_ne hlast, Function.update_of_ne hlast, hfirst, Function.update_self,
          Function.update_self]
    · rename_i hmod
      rw [if_neg hmod] at hk
      exact absurd hk List.not_mem_nil

/-- The parallel loops of the kernels compute what the sequential loops compute, for
every block size and every order of the iterations within the stages. -/
theorem kernel_stages_sequential (hdim : 0 < blockDim) {logn : ℕ} (hlogn : 1 ≤ logn ∧ logn ≤ 10)
    (orders : ℕ → Schedule blockDim (2 ^ logn)) {a : ℕ → UInt16} {s : ℕ → UInt32}
    (ha : ∀ j < 2 ^ logn, (a j).toNat < 12289) (hs : ∀ j < 2 ^ logn, s j = (a j).toUInt32) :
    (∀ j < 2 ^ logn, kernelNtt gmb orders 1 (2 ^ logn) s j = (mqNttHost gmb logn a j).toUInt32) ∧
    (∀ j < 2 ^ logn,
      kernelIntt igmb orders (2 ^ logn) 1 s j = (mqINTTStages logn a j).toUInt32) ∧
    (∀ level < logn, StageExact (2 ^ logn) (2 ^ (logn - level - 1)) (orders (2 ^ level)).order
      (nttTouched (2 ^ (logn - level))) (nttIteration gmb (2 ^ level) (2 ^ (logn - level)))) ∧
    ∀ level < logn, StageExact (2 ^ logn) (2 ^ level) (orders (2 ^ (logn - level))).order
      (inttTouched (2 ^ level)) (inttIteration igmb (2 ^ (logn - level)) (2 ^ level)) := by
  have hwidened : Widened (2 ^ logn) a s := fun j hj =>
    ⟨by rw [Reduced, hs j hj, UInt16.toNat_toUInt32]; exact ha j hj, hs j hj⟩
  have hsize := two_pow_le_1024 hlogn.2
  refine ⟨fun j hj => ?_, fun j hj => ?_, fun level hlevel => ?_, fun level hlevel => ?_⟩
  · exact (widened_nttFrom hdim (fun _ _ => rfl) orders one_pos (one_mul _).symm hwidened).eq hj
  · exact (widened_inttFrom (d := 0) hdim (fun i hi => iGMb_eq (by omega)) orders
      (mul_one _).symm hwidened).eq hj
  · have hlength : 2 ^ (logn - level) = 2 * 2 ^ (logn - level - 1) := by
      rw [← pow_succ']
      congr 1
      omega
    have hblocks : 2 ^ logn = 2 ^ level * (2 * 2 ^ (logn - level - 1)) := by
      rw [← hlength, ← pow_add]
      congr 1
      omega
    rw [hlength, nttTouched_eq, nttIteration_eq]
    exact stageExact_pairTask hdim (Nat.two_pow_pos _) hblocks _ _ _
  · have hblocks : 2 ^ logn = 2 ^ (logn - level - 1) * (2 * 2 ^ level) := by
      rw [← pow_succ', ← pow_add]
      congr 1
      omega
    rw [inttTouched_eq, inttIteration_eq]
    exact stageExact_pairTask hdim (Nat.two_pow_pos _) hblocks _ _ _

/-- Three threads on two entries. -/
theorem kernel_stages_sequential_pair :
    (∀ j < 2 ^ 1, kernelNtt gmb (fun _ => .sequential 3 (2 ^ 1)) 1 (2 ^ 1) (fun _ => 5) j =
      (mqNttHost gmb 1 (fun _ => 5) j).toUInt32) ∧
    (∀ j < 2 ^ 1, kernelIntt igmb (fun _ => .sequential 3 (2 ^ 1)) (2 ^ 1) 1 (fun _ => 5) j =
      (mqINTTStages 1 (fun _ => 5) j).toUInt32) ∧
    (∀ level < 1, StageExact (2 ^ 1) (2 ^ (1 - level - 1)) (Schedule.sequential 3 (2 ^ 1)).order
      (nttTouched (2 ^ (1 - level))) (nttIteration gmb (2 ^ level) (2 ^ (1 - level)))) ∧
    ∀ level < 1, StageExact (2 ^ 1) (2 ^ level) (Schedule.sequential 3 (2 ^ 1)).order
      (inttTouched (2 ^ level)) (inttIteration igmb (2 ^ (1 - level)) (2 ^ level)) :=
  kernel_stages_sequential (by decide) (by decide) (fun _ => .sequential 3 (2 ^ 1))
    (fun _ _ => by decide) (fun _ _ => by decide)

end Soko.Gpu
