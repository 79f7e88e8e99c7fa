import Mathlib.Data.Finset.Card
import Mathlib.Data.Int.ModEq
import Mathlib.Data.Nat.Factorization.Basic
import Mathlib.Tactic.LinearCombination
import Mathlib.Tactic.Ring

/-!
Orbits of multiplication by a number that is 1 modulo 8.

If `x - 1` is `2 ^ j` times a number that is `e` modulo 4, then so is `x ^ 2 ^ l - 1`,
with `2 ^ (j + l)`. A linear form on the orbit of a point under `x` therefore moves by
`2 ^ j * (2 ^ l * c + ..)` whenever the exponent grows by `2 ^ l`. The sequence of these
moves has `DyadicSteps`, and whether it repeats a residue modulo a power of two depends
on `c` only.
-/

namespace Soko.Library

section Powers

variable {R : Type*} [CommRing R] {j : ℕ} {e x : R}

/-- `x` is 1 up to `2 ^ j` times a number that is `e` modulo 4. -/
def OneModTwoPow (j : ℕ) (e x : R) : Prop := ∃ q, x = 1 + 2 ^ j * (e + 4 * q)

theorem OneModTwoPow.sq (hj : 3 ≤ j) (h : OneModTwoPow j e x) :
    OneModTwoPow (j + 1) e (x ^ 2) := by
  obtain ⟨q, rfl⟩ := h
  obtain ⟨i, rfl⟩ : ∃ i, j = i + 3 := ⟨j - 3, by omega⟩
  exact ⟨q + 2 ^ i * (e + 4 * q) ^ 2, by ring⟩

theorem OneModTwoPow.pow_two_pow (hj : 3 ≤ j) (h : OneModTwoPow j e x) (l : ℕ) :
    OneModTwoPow (j + l) e (x ^ 2 ^ l) := by
  induction l with
  | zero => simpa using h
  | succ l ih =>
      rw [pow_succ, pow_mul, ← Nat.add_assoc]
      exact ih.sq (by omega)

theorem OneModTwoPow.pow_mod_four (hj : 3 ≤ j) (h : OneModTwoPow j e x) (k : ℕ) :
    ∃ q, x ^ k = 1 + 4 * q := by
  obtain ⟨q, rfl⟩ := h
  obtain ⟨i, rfl⟩ : ∃ i, j = i + 3 := ⟨j - 3, by omega⟩
  induction k with
  | zero => exact ⟨0, by ring⟩
  | succ k ih =>
      obtain ⟨q', hq'⟩ := ih
      refine ⟨q' + 2 ^ (i + 1) * (e + 4 * q) * (1 + 4 * q'), ?_⟩
      rw [pow_succ, hq']
      ring

end Powers

/-- When the index grows by `2 ^ l`, the value grows by `2 ^ l * c`, up to a multiple of
`2 ^ (l + 2)`. -/
def DyadicSteps (c : ℤ) (f : ℕ → ℤ) : Prop :=
  ∀ k l : ℕ, ∃ d, f (k + 2 ^ l) = f k + 2 ^ l * (c + 4 * d)

theorem OneModTwoPow.exists_dyadicSteps {R : Type*} [CommRing R] {j : ℕ} {e x : R}
    (hj : 3 ≤ j) (h : OneModTwoPow j e x) (form : R →+ ℤ) (s : R) :
    ∃ f, DyadicSteps (form (e * s)) f ∧ ∀ k, form (x ^ k * s) = form s + 2 ^ j * f k := by
  have hscale : ∀ (n : ℕ) (y : R), form (2 ^ n * y) = 2 ^ n * form y := by
    intro n y
    have hsmul := form.map_nsmul (2 ^ n) y
    rwa [nsmul_eq_mul, nsmul_eq_mul, Nat.cast_pow, Nat.cast_pow, Nat.cast_two, Nat.cast_two]
      at hsmul
  have hfour : ∀ y : R, form (4 * y) = 4 * form y := by
    intro y
    have hsquare := hscale 2 y
    norm_num at hsquare
    exact hsquare
  have hstep : ∀ k l : ℕ, ∃ d, form (x ^ (k + 2 ^ l) * s) =
      form (x ^ k * s) + 2 ^ (j + l) * (form (e * s) + 4 * d) := by
    intro k l
    obtain ⟨q, hq⟩ := h.pow_two_pow hj l
    obtain ⟨q', hq'⟩ := h.pow_mod_four hj k
    refine ⟨form ((q + q' * (e + 4 * q)) * s), ?_⟩
    -- `x ^ k` is 1 modulo 4, so that it only changes the multiple of 4
    have hmove : x ^ (k + 2 ^ l) * s =
        x ^ k * s + 2 ^ (j + l) * (e * s + 4 * ((q + q' * (e + 4 * q)) * s)) := by
      rw [pow_add, hq]
      linear_combination 2 ^ (j + l) * (e + 4 * q) * s * hq'
    rw [hmove, map_add, hscale, map_add, hfour]
  have hdvd : ∀ k, (2 : ℤ) ^ j ∣ form (x ^ k * s) - form s := by
    intro k
    induction k with
    | zero => simp
    | succ k ih =>
        obtain ⟨d, hd⟩ := hstep k 0
        rw [pow_zero, Nat.add_zero] at hd
        rw [hd, add_sub_right_comm]
        exact dvd_add ih (dvd_mul_right _ _)
  choose f hf using hdvd
  refine ⟨f, fun k l => ?_, fun k => by rw [← hf k]; ring⟩
  obtain ⟨d, hd⟩ := hstep k l
  refine ⟨d, mul_left_cancel₀ (pow_ne_zero j two_ne_zero) ?_⟩
  rw [← hf, hd, pow_add]
  linear_combination hf k

namespace DyadicSteps

variable {c : ℤ} {f : ℕ → ℤ}

theorem add_mul (h : DyadicSteps c f) (k l m : ℕ) :
    ∃ d, f (k + 2 ^ l * m) = f k + 2 ^ l * (m * c + 4 * d) := by
  induction m with
  | zero => exact ⟨0, by simp⟩
  | succ m ih =>
      obtain ⟨d, hd⟩ := ih
      obtain ⟨d', hd'⟩ := h (k + 2 ^ l * m) l
      refine ⟨d + d', ?_⟩
      rw [Nat.mul_succ, ← Nat.add_assoc, hd', hd]
      push_cast
      ring

/-- The values at two indices, by the power of two in the distance of the indices. -/
theorem exists_sub (h : DyadicSteps c f) {k k' : ℕ} (hlt : k < k') :
    ∃ (l m : ℕ) (d : ℤ), k' = k + 2 ^ l * m ∧ Odd m ∧ f k' = f k + 2 ^ l * (m * c + 4 * d) := by
  obtain ⟨l, m, hodd, hm⟩ := Nat.exists_eq_two_pow_mul_odd (show k' - k ≠ 0 by omega)
  obtain rfl : k' = k + 2 ^ l * m := by omega
  obtain ⟨d, hd⟩ := h.add_mul k l m
  exact ⟨l, m, d, rfl, hodd, hd⟩

theorem lt_of_sub {k l m p : ℕ} (hodd : Odd m) (hnear : k + 2 ^ l * m < k + 2 ^ p) : l < p := by
  have hle : 2 ^ l ≤ 2 ^ l * m := Nat.le_mul_of_pos_right _ hodd.pos
  exact (Nat.pow_lt_pow_iff_right (by decide)).mp (show 2 ^ l < 2 ^ p by omega)

/-- With an odd `c` the residues modulo `2 ^ p` of `2 ^ p` values in a row differ. -/
theorem not_modEq_of_odd (h : DyadicSteps c f) (hc : Odd c) {p k k' : ℕ} (hlt : k < k')
    (hnear : k' < k + 2 ^ p) : ¬ f k' ≡ f k [ZMOD 2 ^ p] := by
  obtain ⟨l, m, d, rfl, hodd, hd⟩ := h.exists_sub hlt
  have hl := lt_of_sub hodd hnear
  intro heq
  have hdvd : (2 : ℤ) ^ (l + 1) ∣ f (k + 2 ^ l * m) - f k :=
    (pow_dvd_pow 2 hl).trans heq.symm.dvd
  rw [hd, add_sub_cancel_left, pow_succ,
    mul_dvd_mul_iff_left (pow_ne_zero l (two_ne_zero : (2 : ℤ) ≠ 0))] at hdvd
  have hmc : Odd ((m : ℤ) * c) := ((Int.odd_coe_nat m).mpr hodd).mul hc
  obtain ⟨a, ha⟩ := hmc
  obtain ⟨b, hb⟩ := hdvd
  omega

/-- With a `c` that is even but not a multiple of 4, modulo twice that power. -/
theorem not_modEq_of_two (h : DyadicSteps c f) (hc : c % 4 = 2) {p k k' : ℕ} (hlt : k < k')
    (hnear : k' < k + 2 ^ p) : ¬ f k' ≡ f k [ZMOD 2 ^ (p + 1)] := by
  obtain ⟨l, m, d, rfl, hodd, hd⟩ := h.exists_sub hlt
  have hl := lt_of_sub hodd hnear
  intro heq
  have hdvd : (2 : ℤ) ^ (l + 2) ∣ f (k + 2 ^ l * m) - f k :=
    (pow_dvd_pow 2 (Nat.succ_le_succ hl)).trans heq.symm.dvd
  rw [hd, add_sub_cancel_left, pow_add,
    mul_dvd_mul_iff_left (pow_ne_zero l (two_ne_zero : (2 : ℤ) ≠ 0))] at hdvd
  obtain ⟨a, ha⟩ := (Int.odd_coe_nat m).mpr hodd
  obtain ⟨b, hb⟩ := hdvd
  obtain ⟨c', rfl⟩ : ∃ c', c = 4 * c' + 2 := ⟨c / 4, by omega⟩
  rw [ha] at hb
  ring_nf at hb
  omega

/-- With a multiple of 4, the residue modulo `2 ^ (l + 2)` comes back after `2 ^ l`. -/
theorem modEq_of_four_dvd (h : DyadicSteps c f) (hc : 4 ∣ c) (k l m : ℕ) :
    f (k + 2 ^ l * m) ≡ f k [ZMOD 2 ^ (l + 2)] := by
  obtain ⟨d, hd⟩ := h.add_mul k l m
  obtain ⟨c', rfl⟩ := hc
  refine (Int.modEq_iff_dvd.mpr ⟨m * c' + d, ?_⟩).symm
  rw [hd, pow_add]
  ring

end DyadicSteps

/-! The choice of an index. -/

/-- If different indices have different values, few of the values are large. -/
theorem card_filter_le {n : ℕ} (bound : ℕ) {u : ℕ → ℕ} (hinj : Set.InjOn u (Finset.range n))
    (hlt : ∀ k < n, u k < n) : ((Finset.range n).filter fun k => bound ≤ u k).card ≤ n - bound := by
  rw [← Nat.card_Ico]
  refine Finset.card_le_card_of_injOn u (fun k hk => ?_) (hinj.mono fun k hk => ?_)
  · obtain ⟨hk, hle⟩ := Finset.mem_filter.mp hk
    exact Finset.mem_coe.mpr (Finset.mem_Ico.mpr ⟨hle, hlt k (Finset.mem_range.mp hk)⟩)
  · exact (Finset.mem_filter.mp hk).1

/-- Two sequences of different values are small at once, outside a small set. -/
theorem exists_lt_and_lt {n a b : ℕ} {u w : ℕ → ℕ} (hu : Set.InjOn u (Finset.range n))
    (hult : ∀ k < n, u k < n) (hw : Set.InjOn w (Finset.range n)) (hwlt : ∀ k < n, w k < n)
    (avoid : Finset ℕ) (hcard : (n - a) + (n - b) + avoid.card < n) :
    ∃ k < n, u k < a ∧ w k < b ∧ k ∉ avoid := by
  by_contra! hnone
  have hcover : Finset.range n ⊆ (Finset.range n).filter (fun k => a ≤ u k) ∪
      (Finset.range n).filter (fun k => b ≤ w k) ∪ avoid := by
    intro k hk
    simp only [Finset.mem_union, Finset.mem_filter, hk, true_and]
    by_cases hsmall : u k < a
    · by_cases hsmall' : w k < b
      · exact .inr (hnone k (Finset.mem_range.mp hk) hsmall hsmall')
      · exact .inl (.inr (not_lt.mp hsmall'))
    · exact .inl (.inl (not_lt.mp hsmall))
  have hle := (Finset.card_le_card hcover).trans
    ((Finset.card_union_le _ _).trans (Nat.add_le_add_right (Finset.card_union_le _ _) _))
  have hlarge := card_filter_le a hu hult
  have hlarge' := card_filter_le b hw hwlt
  rw [Finset.card_range] at hle
  omega

end Soko.Library
