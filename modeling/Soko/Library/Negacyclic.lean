import Mathlib.Algebra.Polynomial.Div
import Mathlib.RingTheory.AdjoinRoot
import Mathlib.Tactic.LinearCombination
import Mathlib.Tactic.Ring

/-!
Products modulo `X ^ n + 1` by an in-place transform, over a commutative ring.

The transform runs over the levels of a binary tree. Node `v` has the children
`2 * v` and `2 * v + 1`, and the table `w` gives a number for every inner node;
`radix w v` is the number `r` for which node `v` stands for the polynomials
modulo `X ^ t - r`. A stage splits the block of each node into the blocks of its
children, as `X ^ (2 * h) - w v ^ 2 = (X ^ h - w v) * (X ^ h + w v)`. At the
leaves the transform has evaluated the polynomial (`forward_apply`), and the
inverse stages undo it up to a factor (`inverse_forward`); together these give
the product (`inverse_mul`).
-/

namespace Soko.Library

open Polynomial Finset

variable {R : Type*} [CommRing R]

/-- The polynomial with the first `n` entries of `a` as coefficients. -/
noncomputable def polyOf (n : ℕ) (a : ℕ → R) : R[X] := ∑ i ∈ range n, C (a i) * X ^ i

def evalAt (n : ℕ) (a : ℕ → R) (x : R) : R := ∑ i ∈ range n, a i * x ^ i

theorem coeff_polyOf (n : ℕ) (a : ℕ → R) (i : ℕ) :
    (polyOf n a).coeff i = if i < n then a i else 0 := by
  simp [polyOf, coeff_C_mul, coeff_X_pow]

theorem polyOf_congr {n : ℕ} {a b : ℕ → R} (hab : ∀ j < n, a j = b j) :
    polyOf n a = polyOf n b := by
  ext i
  rw [coeff_polyOf, coeff_polyOf]
  split
  · exact hab i ‹_›
  · rfl

theorem polyOf_sub (n : ℕ) (a b : ℕ → R) :
    polyOf n (fun j => a j - b j) = polyOf n a - polyOf n b := by
  ext i
  rw [coeff_sub, coeff_polyOf, coeff_polyOf, coeff_polyOf]
  split
  · rfl
  · exact (sub_zero 0).symm

theorem eval_polyOf (n : ℕ) (a : ℕ → R) (x : R) : (polyOf n a).eval x = evalAt n a x := by
  simp [polyOf, evalAt, eval_finsetSum]

/-- What node `v` is a root of unity of: the square of its own number. -/
def radix (w : ℕ → R) (v : ℕ) : R :=
  if v = 1 then -1 else if v % 2 = 0 then w (v / 2) else -w (v / 2)

/-- The numbers of the inner nodes below `size` split what they are given. -/
def SplittingTable (w : ℕ → R) (size : ℕ) : Prop :=
  ∀ v, 0 < v → v < size → w v ^ 2 = radix w v

/-- One forward stage over `m` blocks of `2 * h` entries. -/
def forwardStage (w : ℕ → R) (m h : ℕ) (a : ℕ → R) (j : ℕ) : R :=
  if j % (2 * h) < h then a j + w (m + j / (2 * h)) * a (j + h)
  else a (j - h) - w (m + j / (2 * h)) * a j

/-- The inverse stage, without the division by 2. -/
def inverseStage (w' : ℕ → R) (m h : ℕ) (a : ℕ → R) (j : ℕ) : R :=
  if j % (2 * h) < h then a j + a (j + h)
  else w' (m + j / (2 * h)) * (a (j - h) - a j)

def forward (w : ℕ → R) : ℕ → ℕ → (ℕ → R) → ℕ → R
  | 0, _, a => a
  | levels + 1, m, a => forward w levels (2 * m) (forwardStage w m (2 ^ levels) a)

def inverse (w' : ℕ → R) : ℕ → ℕ → (ℕ → R) → ℕ → R
  | 0, _, a => a
  | levels + 1, m, a => inverseStage w' m (2 ^ levels) (inverse w' levels (2 * m) a)

section Evaluation

variable {w : ℕ → R} {size : ℕ}

theorem radix_sq (hw : SplittingTable w size) {v : ℕ} (hv : 1 < v) (hsize : v / 2 < size) :
    radix w v ^ 2 = radix w (v / 2) := by
  rw [← hw (v / 2) (by omega) hsize, radix, if_neg (by omega)]
  split
  · rfl
  · exact neg_sq _

/-- The number of a node `levels` below `v`, raised to the block length of `v`. -/
theorem radix_pow (hw : SplittingTable w size) {levels v j : ℕ} (hv : 0 < v)
    (hj : j < 2 ^ levels) (hsize : v * 2 ^ levels + j < 2 * size) :
    radix w (v * 2 ^ levels + j) ^ 2 ^ levels = radix w v := by
  induction levels generalizing j with
  | zero =>
      have : j = 0 := by simpa using hj
      simp [this]
  | succ levels ih =>
      have hpos : 0 < 2 ^ levels := Nat.two_pow_pos levels
      have hle : 2 ^ levels ≤ v * 2 ^ levels := Nat.le_mul_of_pos_left _ hv
      rw [pow_succ', ← mul_assoc, mul_comm v 2, mul_assoc] at hsize
      rw [pow_succ'] at hj
      have hhalf : (2 * (v * 2 ^ levels) + j) / 2 = v * 2 ^ levels + j / 2 := by omega
      rw [pow_succ', pow_mul, ← mul_assoc v, mul_comm v 2, mul_assoc 2 v,
        radix_sq hw (by omega) (by omega), hhalf]
      exact ih (by omega) (by omega)

theorem evalAt_double (h : ℕ) (a : ℕ → R) (x : R) :
    evalAt (2 * h) a x = evalAt h (fun j => a j + x ^ h * a (j + h)) x := by
  rw [evalAt, two_mul, sum_range_add]
  simp only [evalAt, add_mul, sum_add_distrib]
  congr 1
  apply sum_congr rfl
  intro j _
  rw [Nat.add_comm h j]
  ring

/-- Where the entry `j` of block `k` lies, for a block of `2 * h` entries. -/
theorem block_div_mod {h k j : ℕ} (hj : j < 2 * h) :
    (k * (2 * h) + j) / (2 * h) = k ∧ (k * (2 * h) + j) % (2 * h) = j := by
  constructor
  · rw [mul_comm, Nat.mul_add_div (by omega), Nat.div_eq_of_lt hj, Nat.add_zero]
  · rw [mul_comm, Nat.mul_add_mod, Nat.mod_eq_of_lt hj]

theorem forwardStage_left (w : ℕ → R) (m : ℕ) {h k j : ℕ} (hj : j < h) (a : ℕ → R) :
    forwardStage w m h a (k * (2 * h) + j) =
      a (k * (2 * h) + j) + w (m + k) * a (k * (2 * h) + (h + j)) := by
  obtain ⟨hdiv, hmod⟩ := block_div_mod (h := h) (k := k) (j := j) (by omega)
  rw [forwardStage, hmod, hdiv, if_pos hj]
  congr 3
  omega

theorem forwardStage_right (w : ℕ → R) (m : ℕ) {h k j : ℕ} (hj : j < h) (a : ℕ → R) :
    forwardStage w m h a (k * (2 * h) + (h + j)) =
      a (k * (2 * h) + j) - w (m + k) * a (k * (2 * h) + (h + j)) := by
  obtain ⟨hdiv, hmod⟩ := block_div_mod (h := h) (k := k) (j := h + j) (by omega)
  rw [forwardStage, hmod, hdiv, if_neg (by omega)]
  congr 2
  omega

/-- A forward stage keeps the value at every point below a child of the block. -/
theorem evalAt_forwardStage {m : ℕ} (hm : 0 < m) (i h : ℕ) (a : ℕ → R) {x : R}
    (hx : x ^ h = radix w (2 * m + i)) :
    evalAt h (fun j => forwardStage w m h a (i * h + j)) x =
      evalAt (2 * h) (fun j => a (i / 2 * (2 * h) + j)) x := by
  rw [evalAt_double, evalAt, evalAt]
  apply sum_congr rfl
  intro j hj
  have hj : j < h := mem_range.mp hj
  have hnode : (2 * m + i) / 2 = m + i / 2 := by omega
  rw [radix, if_neg (by omega), hnode] at hx
  obtain hi | hi := Nat.mod_two_eq_zero_or_one i
  · -- The left child.
    obtain ⟨k, rfl⟩ : ∃ k, i = 2 * k := ⟨i / 2, by omega⟩
    rw [if_pos (by omega), Nat.mul_div_cancel_left k (by omega)] at hx
    rw [Nat.mul_div_cancel_left k (by omega), show 2 * k * h + j = k * (2 * h) + j by ring,
      forwardStage_left w m hj, hx, Nat.add_comm j h]
  · -- The right child.
    obtain ⟨k, rfl⟩ : ∃ k, i = 2 * k + 1 := ⟨i / 2, by omega⟩
    have hk : (2 * k + 1) / 2 = k := by omega
    rw [if_neg (by omega), hk] at hx
    rw [hk, show (2 * k + 1) * h + j = k * (2 * h) + (h + j) by ring,
      forwardStage_right w m hj, hx, Nat.add_comm j h]
    ring

/-- The transform of `m` blocks leaves in every place the value of its block at
the number of its leaf. -/
theorem forward_apply_block (hw : SplittingTable w size) {levels m : ℕ} (hm : 0 < m)
    (hsize : m * 2 ^ levels ≤ size) (a : ℕ → R) {l : ℕ} (hl : l < m * 2 ^ levels) :
    forward w levels m a l = evalAt (2 ^ levels)
      (fun j => a (l / 2 ^ levels * 2 ^ levels + j)) (radix w (m * 2 ^ levels + l)) := by
  induction levels generalizing m a with
  | zero => simp [forward, evalAt]
  | succ levels ih =>
      have hpow : m * 2 ^ (levels + 1) = 2 * m * 2 ^ levels := by ring
      rw [hpow] at hsize hl ⊢
      rw [forward, ih (by omega) hsize _ hl]
      have hx : radix w (2 * m * 2 ^ levels + l) ^ 2 ^ levels =
          radix w (2 * m + l / 2 ^ levels) := by
        have hsplit : 2 * m * 2 ^ levels + l =
            (2 * m + l / 2 ^ levels) * 2 ^ levels + l % 2 ^ levels := by
          rw [Nat.add_mul, Nat.add_assoc, Nat.div_add_mod']
        rw [hsplit]
        exact radix_pow hw (Nat.add_pos_left (by omega) _) (Nat.mod_lt _ (Nat.two_pow_pos levels))
          (by rw [← hsplit]; omega)
      rw [evalAt_forwardStage hm _ _ a hx, Nat.div_div_eq_div_mul, pow_succ,
        mul_comm 2 (2 ^ levels)]

/-- The transform evaluates the polynomial at the numbers of the leaves. -/
theorem forward_apply (hw : SplittingTable w size) {levels : ℕ} (hsize : 2 ^ levels ≤ size)
    (a : ℕ → R) {l : ℕ} (hl : l < 2 ^ levels) :
    forward w levels 1 a l = evalAt (2 ^ levels) a (radix w (2 ^ levels + l)) := by
  rw [forward_apply_block hw one_pos (by omega) a (by omega), Nat.div_eq_of_lt hl]
  simp

/-- The numbers of the leaves are roots of `X ^ n + 1`. -/
theorem radix_leaf_pow (hw : SplittingTable w size) {levels : ℕ} (hsize : 2 ^ levels ≤ size)
    {l : ℕ} (hl : l < 2 ^ levels) : radix w (2 ^ levels + l) ^ 2 ^ levels = -1 := by
  have hroot := radix_pow hw one_pos hl (by omega)
  rw [one_mul] at hroot
  rw [hroot, radix, if_pos rfl]

end Evaluation

section Inversion

variable {w w' : ℕ → R}

/-- Every position is in the left or in the right half of its block. -/
theorem exists_block {m h j : ℕ} (hj : j < m * (2 * h)) :
    ∃ k < m, ∃ r < h, j = k * (2 * h) + r ∨ j = k * (2 * h) + (h + r) := by
  have hh : 0 < 2 * h := Nat.pos_of_mul_pos_left (by omega : 0 < m * (2 * h))
  have hdiv := Nat.div_add_mod' j (2 * h)
  have hmod := Nat.mod_lt j hh
  refine ⟨j / (2 * h), Nat.div_lt_of_lt_mul (by rwa [mul_comm]), ?_⟩
  by_cases hleft : j % (2 * h) < h
  · exact ⟨j % (2 * h), hleft, .inl hdiv.symm⟩
  · exact ⟨j % (2 * h) - h, by omega, .inr (by omega)⟩

theorem inverseStage_left (w' : ℕ → R) (m : ℕ) {h k j : ℕ} (hj : j < h) (a : ℕ → R) :
    inverseStage w' m h a (k * (2 * h) + j) =
      a (k * (2 * h) + j) + a (k * (2 * h) + (h + j)) := by
  obtain ⟨-, hmod⟩ := block_div_mod (h := h) (k := k) (j := j) (by omega)
  rw [inverseStage, hmod, if_pos hj]
  congr 2
  omega

theorem inverseStage_right (w' : ℕ → R) (m : ℕ) {h k j : ℕ} (hj : j < h) (a : ℕ → R) :
    inverseStage w' m h a (k * (2 * h) + (h + j)) =
      w' (m + k) * (a (k * (2 * h) + j) - a (k * (2 * h) + (h + j))) := by
  obtain ⟨hdiv, hmod⟩ := block_div_mod (h := h) (k := k) (j := h + j) (by omega)
  rw [inverseStage, hmod, hdiv, if_neg (by omega)]
  congr 3
  omega

theorem block_lt {m h k r : ℕ} (hk : k < m) (hr : r < 2 * h) : k * (2 * h) + r < m * (2 * h) := by
  have hle : (k + 1) * (2 * h) ≤ m * (2 * h) := Nat.mul_le_mul_right _ hk
  rw [Nat.add_mul, one_mul] at hle
  omega

theorem inverseStage_congr (w' : ℕ → R) {m h : ℕ} {a b : ℕ → R}
    (hab : ∀ i < m * (2 * h), a i = b i) {j : ℕ} (hj : j < m * (2 * h)) :
    inverseStage w' m h a j = inverseStage w' m h b j := by
  obtain ⟨k, hk, r, hr, rfl | rfl⟩ := exists_block hj
  · rw [inverseStage_left w' m hr, inverseStage_left w' m hr, hab _ hj,
      hab _ (block_lt hk (by omega))]
  · rw [inverseStage_right w' m hr, inverseStage_right w' m hr, hab _ hj,
      hab _ (block_lt hk (by omega))]

theorem forwardStage_congr (w : ℕ → R) {m h : ℕ} {a b : ℕ → R}
    (hab : ∀ i < m * (2 * h), a i = b i) {j : ℕ} (hj : j < m * (2 * h)) :
    forwardStage w m h a j = forwardStage w m h b j := by
  obtain ⟨k, hk, r, hr, rfl | rfl⟩ := exists_block hj
  · rw [forwardStage_left w m hr, forwardStage_left w m hr, hab _ hj,
      hab _ (block_lt hk (by omega))]
  · rw [forwardStage_right w m hr, forwardStage_right w m hr, hab _ hj,
      hab _ (block_lt hk (by omega))]

theorem forward_congr (w : ℕ → R) {levels m : ℕ} {a b : ℕ → R}
    (hab : ∀ i < m * 2 ^ levels, a i = b i) {j : ℕ} (hj : j < m * 2 ^ levels) :
    forward w levels m a j = forward w levels m b j := by
  induction levels generalizing m a b with
  | zero => exact hab j hj
  | succ levels ih =>
      have hmul : m * 2 ^ (levels + 1) = 2 * m * 2 ^ levels := by ring
      have hpow : m * 2 ^ (levels + 1) = m * (2 * 2 ^ levels) := by rw [pow_succ']
      rw [hpow] at hab
      rw [forward, forward]
      refine ih (fun i hi => forwardStage_congr w hab ?_) (hmul ▸ hj)
      rwa [← hpow, hmul]

theorem inverseStage_mul (w' : ℕ → R) (m h : ℕ) (c : R) (a : ℕ → R) (j : ℕ) :
    inverseStage w' m h (fun i => c * a i) j = c * inverseStage w' m h a j := by
  rw [inverseStage, inverseStage]
  split <;> ring

/-- An inverse stage undoes the forward stage up to the factor 2. -/
theorem inverseStage_forwardStage {m h : ℕ} (hinv : ∀ i < m, w (m + i) * w' (m + i) = 1)
    (a : ℕ → R) {j : ℕ} (hj : j < m * (2 * h)) :
    inverseStage w' m h (forwardStage w m h a) j = 2 * a j := by
  obtain ⟨k, hk, r, hr, rfl | rfl⟩ := exists_block hj
  · rw [inverseStage_left w' m hr, forwardStage_left w m hr, forwardStage_right w m hr]
    ring
  · rw [inverseStage_right w' m hr, forwardStage_left w m hr, forwardStage_right w m hr]
    linear_combination 2 * a (k * (2 * h) + (h + r)) * hinv k hk

/-- The inverse stages undo the transform up to the number of entries of a block. -/
theorem inverse_forward {levels m : ℕ}
    (hinv : ∀ v, m ≤ v → v < m * 2 ^ levels → w v * w' v = 1) (a : ℕ → R) {j : ℕ}
    (hj : j < m * 2 ^ levels) :
    inverse w' levels m (forward w levels m a) j = 2 ^ levels * a j := by
  induction levels generalizing m a j with
  | zero => simp [inverse, forward]
  | succ levels ih =>
      have hpow : m * 2 ^ (levels + 1) = m * (2 * 2 ^ levels) := by rw [pow_succ']
      have hle : m ≤ m * 2 ^ levels := Nat.le_mul_of_pos_right m (Nat.two_pow_pos levels)
      rw [hpow] at hj hinv
      have hmul : m * (2 * 2 ^ levels) = 2 * m * 2 ^ levels := by ring
      have hlower : ∀ i < m * (2 * 2 ^ levels),
          inverse w' levels (2 * m) (forward w levels (2 * m) (forwardStage w m (2 ^ levels) a)) i =
            2 ^ levels * forwardStage w m (2 ^ levels) a i := by
        intro i hi
        rw [hmul] at hi
        exact ih (fun v hv hlt => hinv v (by omega) (by omega)) _ hi
      rw [inverse, forward, inverseStage_congr w' hlower hj, inverseStage_mul,
        inverseStage_forwardStage (fun i hi => hinv (m + i) (by omega) (by nlinarith)) a hj,
        pow_succ]
      ring

theorem inverse_congr (w' : ℕ → R) {levels m : ℕ} {a b : ℕ → R}
    (hab : ∀ i < m * 2 ^ levels, a i = b i) {j : ℕ} (hj : j < m * 2 ^ levels) :
    inverse w' levels m a j = inverse w' levels m b j := by
  induction levels generalizing m j with
  | zero => exact hab j hj
  | succ levels ih =>
      have hmul : m * 2 ^ (levels + 1) = 2 * m * 2 ^ levels := by ring
      have hpow : m * 2 ^ (levels + 1) = m * (2 * 2 ^ levels) := by rw [pow_succ']
      rw [inverse, inverse]
      refine inverseStage_congr w' (fun i hi => ?_) (hpow ▸ hj)
      rw [← hpow, hmul] at hi
      rw [hmul] at hab
      exact ih hab hi

end Inversion

section Product

noncomputable def negacyclicMul (n : ℕ) (a b : ℕ → R) (j : ℕ) : R :=
  ((polyOf n a * polyOf n b) %ₘ (X ^ n + 1)).coeff j

theorem monic_X_pow_add_one {n : ℕ} (hn : 0 < n) : (X ^ n + 1 : R[X]).Monic := by
  simpa using monic_X_pow_add_C (1 : R) hn.ne'

/-- A polynomial of degree below `n` is that of its coefficients. -/
theorem polyOf_coeff {n : ℕ} {p : R[X]} (hp : p.degree < n) : polyOf n p.coeff = p := by
  ext i
  rw [coeff_polyOf]
  split
  · rfl
  · have hle : (n : WithBot ℕ) ≤ i := by exact_mod_cast Nat.le_of_not_lt ‹_›
    exact (coeff_eq_zero_of_degree_lt (hp.trans_le hle)).symm

theorem degree_polyOf_lt (n : ℕ) (a : ℕ → R) : (polyOf n a).degree < n := by
  refine degree_lt_iff_coeff_zero _ _ |>.mpr fun i hi => ?_
  rw [coeff_polyOf, if_neg (by omega)]

variable [Nontrivial R] {w w' : ℕ → R} {size : ℕ}

/-- Modulo `X ^ n + 1`, the first `n` entries are determined. -/
theorem eq_of_mk_polyOf_eq {n : ℕ} (hn : 0 < n) {a b : ℕ → R}
    (hab : AdjoinRoot.mk (X ^ n + 1 : R[X]) (polyOf n a) = AdjoinRoot.mk (X ^ n + 1) (polyOf n b))
    {j : ℕ} (hj : j < n) : a j = b j := by
  rw [AdjoinRoot.mk_eq_mk, ← polyOf_sub] at hab
  have hdegree : (polyOf n fun j => a j - b j).degree < (X ^ n + 1 : R[X]).degree := by
    rw [show (X ^ n + 1 : R[X]) = X ^ n + C 1 by rw [C_1], degree_X_pow_add_C hn]
    exact degree_polyOf_lt n _
  by_cases hpoly : (polyOf n fun j => a j - b j) = 0
  · have hcoeff := congrArg (fun p => coeff p j) hpoly
    rw [coeff_zero, coeff_polyOf, if_pos hj] at hcoeff
    exact sub_eq_zero.mp hcoeff
  · exact absurd hab ((monic_X_pow_add_one hn).not_dvd_of_degree_lt hpoly hdegree)

/-- `negacyclicMul` is the product in the quotient by `X ^ n + 1`. -/
theorem mk_negacyclicMul {n : ℕ} (hn : 0 < n) (a b : ℕ → R) :
    AdjoinRoot.mk (X ^ n + 1 : R[X]) (polyOf n (negacyclicMul n a b)) =
      AdjoinRoot.mk (X ^ n + 1) (polyOf n a) * AdjoinRoot.mk (X ^ n + 1) (polyOf n b) := by
  have hmonic := monic_X_pow_add_one (R := R) hn
  have hdegree : ((polyOf n a * polyOf n b) %ₘ (X ^ n + 1 : R[X])).degree < n := by
    refine (degree_modByMonic_lt _ hmonic).trans_eq ?_
    simpa using degree_X_pow_add_C hn (1 : R)
  rw [show negacyclicMul n a b = ((polyOf n a * polyOf n b) %ₘ (X ^ n + 1)).coeff from rfl,
    polyOf_coeff hdegree, ← map_mul, AdjoinRoot.mk_eq_mk]
  exact dvd_modByMonic_sub _ _

/-- At a root of `X ^ n + 1` the product has the product of the values. -/
theorem evalAt_negacyclicMul {n : ℕ} (hn : 0 < n) (a b : ℕ → R) {x : R} (hx : x ^ n = -1) :
    evalAt n (negacyclicMul n a b) x = evalAt n a x * evalAt n b x := by
  have hmk := mk_negacyclicMul hn a b
  rw [← map_mul, AdjoinRoot.mk_eq_mk] at hmk
  obtain ⟨c, hc⟩ := hmk
  have heval := congrArg (eval x) hc
  simp only [eval_sub, eval_mul, eval_add, eval_pow, eval_X, eval_one, eval_polyOf, hx] at heval
  linear_combination heval

/-- Multiplying the transforms and going back gives the product, up to the
number of entries. -/
theorem inverse_mul (hw : SplittingTable w size) {levels : ℕ} (hsize : 2 ^ levels ≤ size)
    (hinv : ∀ v, 0 < v → v < 2 ^ levels → w v * w' v = 1) (a b : ℕ → R) {j : ℕ}
    (hj : j < 2 ^ levels) :
    inverse w' levels 1 (fun l => forward w levels 1 a l * forward w levels 1 b l) j =
      2 ^ levels * negacyclicMul (2 ^ levels) a b j := by
  have hleaf : ∀ l < 1 * 2 ^ levels,
      forward w levels 1 a l * forward w levels 1 b l =
        forward w levels 1 (negacyclicMul (2 ^ levels) a b) l := by
    intro l hl
    rw [one_mul] at hl
    rw [forward_apply hw hsize a hl, forward_apply hw hsize b hl, forward_apply hw hsize _ hl,
      evalAt_negacyclicMul (Nat.two_pow_pos levels) a b (radix_leaf_pow hw hsize hl)]
  rw [inverse_congr w' hleaf (by omega)]
  exact inverse_forward (fun v hv hlt => hinv v hv (by omega)) _ (by omega)

end Product

end Soko.Library
