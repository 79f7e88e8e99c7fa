import Mathlib
import Soko.Library.Negacyclic

/-!
Quotients modulo `X ^ n + 1`, over a field in which 2 is not 0.

The forward and the inverse stages undo each other both ways up to a power of two, so
that every list of values at the leaves is the transform of a polynomial. Products and
quotients are then taken leaf by leaf (`mk_mul_eq_iff`), and the units are the
polynomials without a zero among their values (`isUnit_mk_iff`).
-/

namespace Soko.Library

open Polynomial Finset

section Stages

variable {R : Type*} [CommRing R] {w w' : ℕ → R}

theorem forwardStage_mul (w : ℕ → R) (m h : ℕ) (c : R) (a : ℕ → R) (j : ℕ) :
    forwardStage w m h (fun i => c * a i) j = c * forwardStage w m h a j := by
  rw [forwardStage, forwardStage]
  split <;> ring

theorem forward_mul (w : ℕ → R) (levels m : ℕ) (c : R) (a : ℕ → R) (j : ℕ) :
    forward w levels m (fun i => c * a i) j = c * forward w levels m a j := by
  induction levels generalizing m a with
  | zero => rfl
  | succ levels ih =>
      have hstage : forwardStage w m (2 ^ levels) (fun i => c * a i) =
          fun i => c * forwardStage w m (2 ^ levels) a i :=
        funext fun i => forwardStage_mul w m (2 ^ levels) c a i
      rw [forward, forward, hstage, ih]

/-- A forward stage undoes the inverse stage up to the factor 2. -/
theorem forwardStage_inverseStage {m h : ℕ} (hinv : ∀ i < m, w (m + i) * w' (m + i) = 1)
    (a : ℕ → R) {j : ℕ} (hj : j < m * (2 * h)) :
    forwardStage w m h (inverseStage w' m h a) j = 2 * a j := by
  obtain ⟨k, hk, r, hr, rfl | rfl⟩ := exists_block hj
  · rw [forwardStage_left w m hr, inverseStage_left w' m hr, inverseStage_right w' m hr]
    linear_combination (a (k * (2 * h) + r) - a (k * (2 * h) + (h + r))) * hinv k hk
  · rw [forwardStage_right w m hr, inverseStage_left w' m hr, inverseStage_right w' m hr]
    linear_combination (a (k * (2 * h) + (h + r)) - a (k * (2 * h) + r)) * hinv k hk

/-- The transform undoes the inverse stages up to the number of entries of a block. -/
theorem forward_inverse {levels m : ℕ}
    (hinv : ∀ v, m ≤ v → v < m * 2 ^ levels → w v * w' v = 1) (a : ℕ → R) {j : ℕ}
    (hj : j < m * 2 ^ levels) :
    forward w levels m (inverse w' levels m a) j = 2 ^ levels * a j := by
  induction levels generalizing m a j with
  | zero => simp [inverse, forward]
  | succ levels ih =>
      have hpow : m * 2 ^ (levels + 1) = 2 * m * 2 ^ levels := by ring
      have hblocks : 2 * m * 2 ^ levels = m * (2 * 2 ^ levels) := by ring
      have hle : m ≤ m * 2 ^ levels := Nat.le_mul_of_pos_right m (Nat.two_pow_pos levels)
      rw [hpow] at hj hinv
      have hstage : ∀ i < 2 * m * 2 ^ levels,
          forwardStage w m (2 ^ levels) (inverseStage w' m (2 ^ levels)
            (inverse w' levels (2 * m) a)) i = 2 * inverse w' levels (2 * m) a i := by
        intro i hi
        refine forwardStage_inverseStage (fun v hv => hinv (m + v) (by omega) ?_) _ (hblocks ▸ hi)
        rw [Nat.mul_assoc]
        omega
      rw [inverse, forward, forward_congr w hstage hj, forward_mul,
        ih (fun v hv hlt => hinv v (by omega) hlt) a hj, pow_succ]
      ring

end Stages

section Field

variable {K : Type*} [Field K] {w w' : ℕ → K} {levels : ℕ}

theorem exists_mk_polyOf_eq {n : ℕ} (hn : 0 < n) (y : AdjoinRoot (X ^ n + 1 : K[X])) :
    ∃ b, AdjoinRoot.mk (X ^ n + 1 : K[X]) (polyOf n b) = y := by
  obtain ⟨p, rfl⟩ := AdjoinRoot.mk_surjective y
  have hdegree : (p %ₘ (X ^ n + 1 : K[X])).degree < n := by
    refine (degree_modByMonic_lt _ (monic_X_pow_add_one hn)).trans_eq ?_
    simpa using degree_X_pow_add_C hn (1 : K)
  refine ⟨(p %ₘ (X ^ n + 1)).coeff, ?_⟩
  rw [polyOf_coeff hdegree, AdjoinRoot.mk_eq_mk]
  exact dvd_modByMonic_sub _ _

theorem mk_polyOf_one {n : ℕ} (hn : 0 < n) :
    AdjoinRoot.mk (X ^ n + 1 : K[X]) (polyOf n fun j => if j = 0 then 1 else 0) = 1 := by
  rw [← map_one (AdjoinRoot.mk _)]
  congr 1
  ext i
  rw [coeff_polyOf, coeff_one]
  by_cases hi : i = 0
  · simp [hi, hn]
  · simp [hi]

/-- Two tables for `2 ^ levels` entries that undo each other. -/
structure TransformTables (w w' : ℕ → K) (levels : ℕ) : Prop where
  splits : SplittingTable w (2 ^ levels)
  inverse_mul : ∀ v, 0 < v → v < 2 ^ levels → w v * w' v = 1
  two_ne_zero : (2 : K) ≠ 0

variable (ht : TransformTables w w' levels)
include ht

theorem TransformTables.forward_injective {a b : ℕ → K}
    (hab : ∀ l < 2 ^ levels, forward w levels 1 a l = forward w levels 1 b l) {j : ℕ}
    (hj : j < 2 ^ levels) : a j = b j := by
  have hinv : ∀ v, 1 ≤ v → v < 1 * 2 ^ levels → w v * w' v = 1 := fun v hv hlt =>
    ht.inverse_mul v hv (by omega)
  rw [← one_mul (2 ^ levels)] at hab hj
  have hboth := inverse_congr w' hab hj
  rw [inverse_forward hinv a hj, inverse_forward hinv b hj] at hboth
  exact mul_left_cancel₀ (pow_ne_zero levels ht.two_ne_zero) hboth

theorem TransformTables.exists_forward_eq (values : ℕ → K) :
    ∃ a, ∀ l < 2 ^ levels, forward w levels 1 a l = values l := by
  refine ⟨fun j => (2 ^ levels)⁻¹ * inverse w' levels 1 values j, fun l hl => ?_⟩
  rw [forward_mul, forward_inverse (fun v hv hlt => ht.inverse_mul v hv (by omega)) values
    (by omega), ← mul_assoc, inv_mul_cancel₀ (pow_ne_zero levels ht.two_ne_zero), one_mul]

theorem TransformTables.forward_negacyclicMul (a b : ℕ → K) {l : ℕ} (hl : l < 2 ^ levels) :
    forward w levels 1 (negacyclicMul (2 ^ levels) a b) l =
      forward w levels 1 a l * forward w levels 1 b l := by
  rw [forward_apply ht.splits le_rfl a hl, forward_apply ht.splits le_rfl b hl,
    forward_apply ht.splits le_rfl _ hl,
    evalAt_negacyclicMul (Nat.two_pow_pos levels) a b (radix_leaf_pow ht.splits le_rfl hl)]

/-- A product modulo `X ^ n + 1` is one at every leaf. -/
theorem TransformTables.mk_mul_eq_iff (a b c : ℕ → K) :
    AdjoinRoot.mk (X ^ 2 ^ levels + 1 : K[X]) (polyOf (2 ^ levels) a) *
        AdjoinRoot.mk (X ^ 2 ^ levels + 1) (polyOf (2 ^ levels) b) =
      AdjoinRoot.mk (X ^ 2 ^ levels + 1) (polyOf (2 ^ levels) c) ↔
    ∀ l < 2 ^ levels,
      forward w levels 1 a l * forward w levels 1 b l = forward w levels 1 c l := by
  have hpos := Nat.two_pow_pos levels
  rw [← mk_negacyclicMul hpos]
  constructor
  · intro hmk l hl
    rw [← ht.forward_negacyclicMul a b hl]
    refine forward_congr w (fun i hi => eq_of_mk_polyOf_eq hpos hmk ?_) (by omega)
    rwa [one_mul] at hi
  · intro hleaf
    refine congrArg _ (polyOf_congr fun j hj => ?_)
    exact ht.forward_injective (fun l hl => (ht.forward_negacyclicMul a b hl).trans (hleaf l hl)) hj

theorem TransformTables.forward_one {l : ℕ} (hl : l < 2 ^ levels) :
    forward w levels 1 (fun j => if j = 0 then 1 else 0) l = 1 := by
  rw [forward_apply ht.splits le_rfl _ hl, evalAt, sum_eq_single 0]
  · simp
  · intro j _ hj
    simp [hj]
  · intro hnot
    exact absurd (mem_range.mpr (Nat.two_pow_pos levels)) hnot

/-- The units are the polynomials that vanish at no leaf. -/
theorem TransformTables.isUnit_mk_iff (a : ℕ → K) :
    IsUnit (AdjoinRoot.mk (X ^ 2 ^ levels + 1 : K[X]) (polyOf (2 ^ levels) a)) ↔
      ∀ l < 2 ^ levels, forward w levels 1 a l ≠ 0 := by
  have hpos := Nat.two_pow_pos levels
  constructor
  · intro hunit l hl hzero
    obtain ⟨y, hy⟩ := hunit.exists_right_inv
    obtain ⟨b, rfl⟩ := exists_mk_polyOf_eq hpos y
    rw [← mk_polyOf_one hpos] at hy
    have hleaf := (ht.mk_mul_eq_iff _ _ _).mp hy l hl
    rw [hzero, zero_mul, ht.forward_one hl] at hleaf
    exact zero_ne_one hleaf
  · intro hvalues
    obtain ⟨b, hb⟩ := ht.exists_forward_eq fun l => (forward w levels 1 a l)⁻¹
    refine IsUnit.of_mul_eq_one (AdjoinRoot.mk _ (polyOf (2 ^ levels) b)) ?_
    rw [← mk_polyOf_one hpos, ht.mk_mul_eq_iff]
    intro l hl
    rw [hb l hl, mul_inv_cancel₀ (hvalues l hl), ht.forward_one hl]

theorem TransformTables.leaf_injOn :
    Set.InjOn (fun l => radix w (2 ^ levels + l)) (range (2 ^ levels) : Finset ℕ) := by
  intro l hl k hk heq
  rw [coe_range, Set.mem_Iio] at hl hk
  obtain ⟨a, ha⟩ := ht.exists_forward_eq fun i => if i = l then 1 else 0
  have hsame : radix w (2 ^ levels + l) = radix w (2 ^ levels + k) := heq
  have hvalue := ha k hk
  rw [forward_apply ht.splits le_rfl a hk, ← hsame, ← forward_apply ht.splits le_rfl a hl,
    ha l hl, if_pos rfl] at hvalue
  by_contra hne
  rw [if_neg (Ne.symm hne)] at hvalue
  exact one_ne_zero hvalue

/-- The numbers of the leaves are the roots of `X ^ n + 1`. -/
theorem TransformTables.image_leaf [DecidableEq K] :
    (range (2 ^ levels)).image (fun l => radix w (2 ^ levels + l)) =
      (X ^ 2 ^ levels + 1 : K[X]).roots.toFinset := by
  have hmonic : (X ^ 2 ^ levels + 1 : K[X]).Monic := monic_X_pow_add_one (Nat.two_pow_pos levels)
  refine eq_of_subset_of_card_le (fun x hx => ?_) ?_
  · obtain ⟨l, hl, rfl⟩ := mem_image.mp hx
    rw [Multiset.mem_toFinset, mem_roots hmonic.ne_zero, IsRoot, eval_add, eval_pow, eval_X,
      eval_one, radix_leaf_pow ht.splits le_rfl (mem_range.mp hl), neg_add_cancel]
  · have hdegree : (X ^ 2 ^ levels + 1 : K[X]).natDegree = 2 ^ levels := by
      simpa using natDegree_X_pow_add_C (n := 2 ^ levels) (r := (1 : K))
    rw [card_image_of_injOn ht.leaf_injOn, card_range]
    exact (Multiset.toFinset_card_le _).trans ((card_roots' _).trans_eq hdegree)

/-- The zeros among the values are the common roots with `X ^ n + 1`. -/
theorem TransformTables.card_zeros [DecidableEq K] (a : ℕ → K) :
    #{l ∈ range (2 ^ levels) | forward w levels 1 a l = 0} =
      #{x ∈ (X ^ 2 ^ levels + 1 : K[X]).roots.toFinset | (polyOf (2 ^ levels) a).IsRoot x} := by
  rw [← ht.image_leaf, filter_image, card_image_of_injOn]
  · refine congrArg card (filter_congr fun l hl => ?_)
    rw [IsRoot, eval_polyOf, forward_apply ht.splits le_rfl a (mem_range.mp hl)]
  · exact ht.leaf_injOn.mono (coe_subset.mpr (filter_subset _ _))

end Field

end Soko.Library
