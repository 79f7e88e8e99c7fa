import Mathlib.Data.Nat.Bitwise
import Mathlib.Tactic.NormNum.NatFib
import Soko.Library.DyadicOrbit
import Soko.Gpu.Acceptance

/-!
The rejection loop ends from all starting states but three.

The words of a state are `2 ^ v` times the coordinates of a number with an odd one. For
`v` up to 24 the top five bits of the bytes that matter run, in iterations that are a fixed
number apart, through all residues modulo 32, and one of these iterations accepts. For
larger `v` only the upper seven bits of the words are in use, and there are few states.
-/

namespace Soko.Gpu

open Soko.Library

/-! Some powers of the golden ratio. -/

/-- The powers are given by consecutive Fibonacci numbers. -/
theorem goldenStep_pow_succ (n : ℕ) :
    goldenStep ^ (n + 1) = ⟨Nat.fib (2 * n + 1), Nat.fib (2 * n + 2)⟩ := by
  induction n with
  | zero =>
      rw [zero_add, pow_one]
      rfl
  | succ n ih =>
      have hfirst : Nat.fib (2 * n + 3) = Nat.fib (2 * n + 1) + Nat.fib (2 * n + 2) :=
        Nat.fib_add_two
      have hsecond : Nat.fib (2 * n + 4) = Nat.fib (2 * n + 2) + Nat.fib (2 * n + 3) :=
        Nat.fib_add_two
      rw [pow_succ', ih]
      refine QuadraticAlgebra.ext ?_ ?_
      · rw [goldenStep_mul_re, show 2 * (n + 1) + 1 = 2 * n + 3 by ring, hfirst]
        push_cast
        rfl
      · rw [goldenStep_mul_im, show 2 * (n + 1) + 2 = 2 * n + 4 by ring, hsecond, hfirst]
        push_cast
        ring

theorem goldenStep_pow_8 : goldenStep ^ 8 = ⟨610, 987⟩ :=
  (goldenStep_pow_succ 7).trans (by norm_num)

theorem goldenStep_pow_24 : goldenStep ^ 24 = ⟨2971215073, 4807526976⟩ :=
  (goldenStep_pow_succ 23).trans (by norm_num)

theorem goldenStep_pow_25 : goldenStep ^ 25 = ⟨7778742049, 12586269025⟩ :=
  (goldenStep_pow_succ 24).trans (by norm_num)

theorem goldenStep_pow_26 : goldenStep ^ 26 = ⟨20365011074, 32951280099⟩ :=
  (goldenStep_pow_succ 25).trans (by norm_num)

theorem goldenStep_pow_mul_re {p : ℕ} {x y : ℤ} (hpow : goldenStep ^ p = ⟨x, y⟩) (z : Golden) :
    (goldenStep ^ p * z).re = x * z.re + y * z.im := by
  rw [hpow]
  simp

theorem goldenStep_pow_mul_im {p : ℕ} {x y : ℤ} (hpow : goldenStep ^ p = ⟨x, y⟩) (z : Golden) :
    (goldenStep ^ p * z).im = y * z.re + (x + y) * z.im := by
  rw [hpow]
  simp
  ring

theorem two_pow_mul_re (v : ℕ) (z : Golden) : (2 ^ v * z).re = 2 ^ v * z.re := by
  rw [show (2 ^ v : Golden) = ((2 ^ v : ℕ) : Golden) by push_cast; rfl, QuadraticAlgebra.re_mul,
    QuadraticAlgebra.re_natCast, QuadraticAlgebra.im_natCast]
  push_cast
  ring

theorem two_pow_mul_im (v : ℕ) (z : Golden) : (2 ^ v * z).im = 2 ^ v * z.im := by
  rw [show (2 ^ v : Golden) = ((2 ^ v : ℕ) : Golden) by push_cast; rfl, QuadraticAlgebra.im_mul,
    QuadraticAlgebra.re_natCast, QuadraticAlgebra.im_natCast]
  push_cast
  ring

/-- Three iterations, up to a multiple of 32. -/
def goldenShift : Golden := ⟨3, 2⟩

theorem oneModTwoPow_goldenStep : OneModTwoPow 3 goldenShift (goldenStep ^ 78) := by
  refine ⟨⟨3455009598627838038676023569135, 5590322962036974008045477746618⟩, ?_⟩
  rw [goldenStep_pow_succ 77, show (4 : Golden) = 2 ^ 2 by norm_num]
  refine QuadraticAlgebra.ext ?_ ?_
  · rw [QuadraticAlgebra.re_add, QuadraticAlgebra.re_one, two_pow_mul_re, QuadraticAlgebra.re_add,
      two_pow_mul_re]
    norm_num [goldenShift]
  · rw [QuadraticAlgebra.im_add, QuadraticAlgebra.im_one, two_pow_mul_im, QuadraticAlgebra.im_add,
      two_pow_mul_im]
    norm_num [goldenShift]

/-! The bytes. -/

theorem outByte_mod_eight (st : BernPrngState) :
    (outByte st).toNat % 8 = st.a.toNat / 2 ^ 24 % 8 ^^^ st.b.toNat / 2 ^ 16 % 8 := by
  have ha : st.a.toNat / 2 ^ 24 % 8 = st.a.toNat / 2 ^ 24 % 2 ^ 8 % 2 ^ 3 := by omega
  have hb : st.b.toNat / 2 ^ 16 % 8 = st.b.toNat / 2 ^ 16 % 2 ^ 8 % 2 ^ 3 := by omega
  rw [outByte_toNat, ha, hb]
  exact Nat.xor_mod_two_pow (n := 3)

/-- The byte of a state, from the number it represents. -/
theorem Represents.outByte {st : BernPrngState} {z : Golden} (h : Represents st z) :
    (outByte st).toNat =
      8 * ((z.re / 2 ^ 27 % 32).toNat ^^^ (z.im / 2 ^ 19 % 32).toNat) +
        ((z.re / 2 ^ 24 % 8).toNat ^^^ (z.im / 2 ^ 16 % 8).toNat) := by
  obtain ⟨ha, hb⟩ := h
  have hhigh := outByte_div_eight st
  have hlow := outByte_mod_eight st
  rw [show st.a.toNat / 2 ^ 27 = (z.re / 2 ^ 27 % 32).toNat by omega,
    show st.b.toNat / 2 ^ 19 % 32 = (z.im / 2 ^ 19 % 32).toNat by omega] at hhigh
  rw [show st.a.toNat / 2 ^ 24 % 8 = (z.re / 2 ^ 24 % 8).toNat by omega,
    show st.b.toNat / 2 ^ 16 % 8 = (z.im / 2 ^ 16 % 8).toNat by omega] at hlow
  omega

/-- The top five bits of the bytes are those of a sequence with dyadic steps, up to a
mask, and the others do not change. -/
def IsOrbitByte (c : ℤ) (byte : ℕ → ℕ) : Prop :=
  ∃ (f : ℕ → ℤ) (offset : ℤ) (mask low : ℕ), DyadicSteps c f ∧ mask < 32 ∧ low < 8 ∧
    ∀ k, byte k = 8 * (((offset + f k) % 32).toNat ^^^ mask) + low

/-- The real part of a number that is multiplied by the power `p`. -/
def reForm (p : ℕ) : Golden →+ ℤ :=
  .mk' (fun z => (goldenStep ^ p * z).re) fun y z => by simp only [mul_add, QuadraticAlgebra.re_add]

def imForm (p : ℕ) : Golden →+ ℤ :=
  .mk' (fun z => (goldenStep ^ p * z).im) fun y z => by simp only [mul_add, QuadraticAlgebra.im_add]

/-- The bytes at place `p` of the iterations `0`, `3 * 2 ^ (24 - v)`, and so on. -/
theorem isOrbitByte_drawnByte {v : ℕ} (hv : v ≤ 24) {st : BernPrngState} {z : Golden}
    (h : Represents st (2 ^ v * z)) (p : ℕ) :
    IsOrbitByte (reForm p (goldenShift * z)) fun k =>
      (drawnByte (stateAt st (3 * 2 ^ (24 - v) * k)) p).toNat := by
  have hpow := oneModTwoPow_goldenStep.pow_two_pow le_rfl (24 - v)
  obtain ⟨f, hsteps, hf⟩ := hpow.exists_dyadicSteps (Nat.le_add_right 3 _) (reForm p) z
  obtain ⟨g, -, hg⟩ := hpow.exists_dyadicSteps (Nat.le_add_right 3 _) (imForm p) z
  have hscale : (2 : ℤ) ^ v * 2 ^ (3 + (24 - v)) = 2 ^ 27 := by
    rw [← pow_add]
    congr 1
    omega
  have hstate : ∀ k, Represents (advance^[p] (stateAt st (3 * 2 ^ (24 - v) * k)))
      (2 ^ v * (goldenStep ^ p * (((goldenStep ^ 78) ^ 2 ^ (24 - v)) ^ k * z))) := by
    intro k
    have hrepresents := (h.iterate (26 * (3 * 2 ^ (24 - v) * k))).iterate p
    rw [← stateAt_eq] at hrepresents
    convert hrepresents using 1
    rw [← pow_mul, ← pow_mul, show 78 * (2 ^ (24 - v) * k) = 26 * (3 * 2 ^ (24 - v) * k) by ring]
    ring
  -- the multiples of `2 ^ 27` show in the top five bits of the first word only
  have hre : ∀ k, (2 ^ v * (goldenStep ^ p * (((goldenStep ^ 78) ^ 2 ^ (24 - v)) ^ k * z))).re =
      2 ^ v * reForm p z + 2 ^ 27 * f k := by
    intro k
    rw [two_pow_mul_re, ← hscale, mul_assoc, ← mul_add, ← hf k]
    rfl
  have him : ∀ k, (2 ^ v * (goldenStep ^ p * (((goldenStep ^ 78) ^ 2 ^ (24 - v)) ^ k * z))).im =
      2 ^ v * imForm p z + 2 ^ 27 * g k := by
    intro k
    rw [two_pow_mul_im, ← hscale, mul_assoc, ← mul_add, ← hg k]
    rfl
  generalize 2 ^ v * reForm p z = re at hre
  generalize 2 ^ v * imForm p z = im at him
  refine ⟨f, re / 2 ^ 27, (im / 2 ^ 19 % 32).toNat,
    (re / 2 ^ 24 % 8).toNat ^^^ (im / 2 ^ 16 % 8).toNat, hsteps, by omega,
    Nat.xor_lt_two_pow (n := 3) (by omega) (by omega), fun k => ?_⟩
  refine (hstate k).outByte.trans ?_
  rw [hre, him,
    show (re + 2 ^ 27 * f k) / 2 ^ 27 = re / 2 ^ 27 + f k by omega,
    show (re + 2 ^ 27 * f k) / 2 ^ 24 % 8 = re / 2 ^ 24 % 8 by omega,
    show (im + 2 ^ 27 * g k) / 2 ^ 19 % 32 = im / 2 ^ 19 % 32 by omega,
    show (im + 2 ^ 27 * g k) / 2 ^ 16 % 8 = im / 2 ^ 16 % 8 by omega]

namespace IsOrbitByte

variable {c : ℤ} {byte : ℕ → ℕ}

theorem lt (h : IsOrbitByte c byte) (k : ℕ) : byte k / 8 < 32 := by
  obtain ⟨f, offset, mask, low, -, hmask, hlow, hbyte⟩ := h
  have hxor : ((offset + f k) % 32).toNat ^^^ mask < 2 ^ 5 :=
    Nat.xor_lt_two_pow (by omega) (by omega)
  rw [hbyte]
  omega

theorem residue_eq {f : ℕ → ℤ} {offset : ℤ} {mask k k' : ℕ}
    (heq : ((offset + f k) % 32).toNat ^^^ mask = ((offset + f k') % 32).toNat ^^^ mask) :
    f k ≡ f k' [ZMOD 2 ^ 5] := by
  have hres := Nat.xor_left_inj.mp heq
  show f k % 2 ^ 5 = f k' % 2 ^ 5
  omega

/-- With an odd `c`, 32 bytes in a row differ in their top five bits. -/
theorem injOn (h : IsOrbitByte c byte) (hc : Odd c) :
    Set.InjOn (fun k => byte k / 8) (Finset.range 32) := by
  obtain ⟨f, offset, mask, low, hsteps, hmask, hlow, hbyte⟩ := h
  intro k hk k' hk' heq
  have hk := Finset.mem_range.mp (Finset.mem_coe.mp hk)
  have hk' := Finset.mem_range.mp (Finset.mem_coe.mp hk')
  have hmod : f k ≡ f k' [ZMOD 2 ^ 5] := by
    have htop : ((offset + f k) % 32).toNat ^^^ mask = ((offset + f k') % 32).toNat ^^^ mask := by
      simp only [hbyte] at heq
      omega
    exact residue_eq htop
  rcases lt_trichotomy k k' with hlt | rfl | hlt
  · exact absurd hmod.symm (hsteps.not_modEq_of_odd hc hlt (by omega))
  · rfl
  · exact absurd hmod (hsteps.not_modEq_of_odd hc hlt (by omega))

/-- With a `c` that is 2 modulo 4, at most two of 32 bytes in a row are zero. -/
theorem card_zero_le (h : IsOrbitByte c byte) (hc : c % 4 = 2) :
    ((Finset.range 32).filter fun k => byte k = 0).card ≤ 2 := by
  obtain ⟨f, offset, mask, low, hsteps, hmask, hlow, hbyte⟩ := h
  have hresidue : ∀ k, byte k = 0 → ((offset + f k) % 32).toNat = mask := by
    intro k hzero
    have hxor : ((offset + f k) % 32).toNat ^^^ mask = 0 := by
      have hk := hbyte k
      omega
    exact Nat.eq_of_xor_eq_zero hxor
  have hpair : ({mask, mask + 32} : Finset ℕ).card ≤ 2 := Finset.card_le_two
  refine le_trans (Finset.card_le_card_of_injOn (fun k => ((offset + f k) % 64).toNat) ?_ ?_) hpair
  · intro k hk
    have hk := hresidue k (Finset.mem_filter.mp hk).2
    simp only [Finset.coe_insert, Finset.coe_singleton, Set.mem_insert_iff, Set.mem_singleton_iff]
    omega
  · intro k hk k' hk' heq
    have hk := Finset.mem_range.mp (Finset.mem_filter.mp hk).1
    have hk' := Finset.mem_range.mp (Finset.mem_filter.mp hk').1
    have hmod : f k ≡ f k' [ZMOD 2 ^ (5 + 1)] := by
      show f k % 2 ^ 6 = f k' % 2 ^ 6
      simp only at heq
      omega
    rcases lt_trichotomy k k' with hlt | rfl | hlt
    · exact absurd hmod.symm (hsteps.not_modEq_of_two hc hlt (by omega))
    · rfl
    · exact absurd hmod (hsteps.not_modEq_of_two hc hlt (by omega))

/-- With a multiple of 4, the bytes come back after eight. -/
theorem periodic (h : IsOrbitByte c byte) (hc : 4 ∣ c) (k i : ℕ) :
    byte (k + 8 * i) = byte k := by
  obtain ⟨f, offset, mask, low, hsteps, -, -, hbyte⟩ := h
  have hmod : f (k + 8 * i) % 2 ^ 5 = f k % 2 ^ 5 := hsteps.modEq_of_four_dvd hc k 3 i
  rw [hbyte, hbyte, show (offset + f (k + 8 * i)) % 32 = (offset + f k) % 32 by omega]

/-- With an odd `c`, one of four bytes that are eight apart has its top two bits set. -/
theorem exists_large (h : IsOrbitByte c byte) (hc : Odd c) (k : ℕ) :
    ∃ i, 192 ≤ byte (k + 8 * i) := by
  obtain ⟨f, offset, mask, low, hsteps, hmask, hlow, hbyte⟩ := h
  by_contra! hsmall
  obtain ⟨top, htop⟩ : ∃ top : ℕ → ℕ,
      ∀ i, top i = ((offset + f (k + 8 * i)) % 32).toNat ^^^ mask := ⟨_, fun _ => rfl⟩
  -- the three lower ones of the five bits are the same
  have hlower : ∀ i, top i % 8 = ((offset + f k) % 8).toNat ^^^ mask % 8 := by
    intro i
    obtain ⟨d, hd⟩ := hsteps.add_mul k 3 i
    have hres : ((offset + f (k + 8 * i)) % 32).toNat % 2 ^ 3 = ((offset + f k) % 8).toNat := by
      rw [show f (k + 8 * i) = f k + 2 ^ 3 * (i * c + 4 * d) from hd]
      omega
    rw [htop, ← hres]
    exact Nat.xor_mod_two_pow (n := 3)
  have hmaps : ∀ i ∈ Finset.range 4, top i / 8 ∈ Finset.range 3 := by
    intro i _
    have hbound := hsmall i
    rw [hbyte, ← htop] at hbound
    rw [Finset.mem_range]
    omega
  obtain ⟨i, hi, i', hi', hne, heq⟩ :=
    Finset.exists_ne_map_eq_of_card_lt_of_maps_to (by decide) hmaps
  rw [Finset.mem_range] at hi hi'
  have hsame : top i = top i' := by
    have hlow := hlower i
    have hlow' := hlower i'
    omega
  rw [htop, htop] at hsame
  have hmod := residue_eq hsame
  rcases lt_or_gt_of_ne hne with hlt | hlt
  · exact hsteps.not_modEq_of_odd hc (show k + 8 * i < k + 8 * i' by omega) (by omega) hmod.symm
  · exact hsteps.not_modEq_of_odd hc (show k + 8 * i' < k + 8 * i by omega) (by omega) hmod

end IsOrbitByte

/-! Words with few factors of two. -/

theorem reForm_goldenShift {p : ℕ} {x y : ℤ} (hpow : goldenStep ^ p = ⟨x, y⟩) (z : Golden) :
    reForm p (goldenShift * z) = (3 * x + 2 * y) * z.re + (2 * x + 5 * y) * z.im := by
  show (goldenStep ^ p * (goldenShift * z)).re = _
  rw [goldenStep_pow_mul_re hpow]
  simp [goldenShift]
  ring

/-- Among the bytes of an orbit there are those that `accepts_of_small` or
`accepts_of_large` ask for. -/
theorem exists_orbitBytes {U W Y : ℕ → ℕ} {cU cW cY : ℤ} (hU : IsOrbitByte cU U) (hcU : Odd cU)
    (hW : IsOrbitByte cW W) (hcW : Odd cW) (hY : IsOrbitByte cY Y) (hcY : Even cY) :
    ∃ k, U k < 160 ∧ W k < 120 ∧ Y k ≠ 0 ∨ 192 ≤ U k ∧ Y k = 0 := by
  obtain ⟨zeros, hzeros⟩ : ∃ zeros, zeros = (Finset.range 32).filter fun k => Y k = 0 := ⟨_, rfl⟩
  have hfew : zeros.card ≤ 2 → ∃ k, U k < 160 ∧ W k < 120 ∧ Y k ≠ 0 ∨ 192 ≤ U k ∧ Y k = 0 := by
    intro hcard
    obtain ⟨k, hk, hku, hkw, hky⟩ := exists_lt_and_lt (a := 20) (b := 15) (hU.injOn hcU)
      (fun k _ => hU.lt k) (hW.injOn hcW) (fun k _ => hW.lt k) zeros (by omega)
    rw [hzeros, Finset.mem_filter, Finset.mem_range, not_and] at hky
    exact ⟨k, .inl ⟨by omega, by omega, hky hk⟩⟩
  obtain ⟨half, hhalf⟩ := hcY
  rcases show cY % 4 = 2 ∨ 4 ∣ cY by omega with htwo | hfour
  · rw [hzeros] at hfew
    exact hfew (hY.card_zero_le htwo)
  · -- the byte of the sample is periodic: if it is zero once, it is so again with a large `U`
    rcases zeros.eq_empty_or_nonempty with hnone | ⟨k, hk⟩
    · rw [hnone] at hfew
      exact hfew (Nat.zero_le 2)
    · rw [hzeros, Finset.mem_filter] at hk
      obtain ⟨i, hi⟩ := hU.exists_large hcU k
      exact ⟨k + 8 * i, .inr ⟨hi, (hY.periodic hfour k i).trans hk.2⟩⟩

theorem exists_accepts_of_odd {v : ℕ} (hv : v ≤ 24) {st : BernPrngState} {z : Golden}
    (h : Represents st (2 ^ v * z)) (hre : Odd z.re) (him : Odd z.im) :
    ∃ i, (bernCandidate (stateAt st i)).1.rejected = false := by
  have hU := isOrbitByte_drawnByte hv h 8
  have hW := isOrbitByte_drawnByte hv h 24
  have hY := isOrbitByte_drawnByte hv h 25
  rw [reForm_goldenShift goldenStep_pow_8] at hU
  rw [reForm_goldenShift goldenStep_pow_24] at hW
  rw [reForm_goldenShift goldenStep_pow_25] at hY
  obtain ⟨k, hk⟩ := exists_orbitBytes hU (by grind) hW (by grind) hY (by grind)
  refine ⟨3 * 2 ^ (24 - v) * k, ?_⟩
  rcases hk with ⟨hu, hw, hy⟩ | ⟨hu, hy⟩
  · refine accepts_of_small hu hw fun hzero => hy ?_
    rw [hzero, UInt8.toNat_zero]
  · exact accepts_of_large hu (UInt8.toNat_inj.mp hy)

theorem Represents.next {v : ℕ} {st : BernPrngState} {z : Golden} (h : Represents st (2 ^ v * z)) :
    Represents (bernCandidate st).2 (2 ^ v * (goldenStep ^ 26 * z)) := by
  rw [bernCandidate_state, mul_left_comm]
  exact h.iterate 26

theorem exists_accepts_of_next {st : BernPrngState}
    (h : ∃ i, (bernCandidate (stateAt (bernCandidate st).2 i)).1.rejected = false) :
    ∃ i, (bernCandidate (stateAt st i)).1.rejected = false := by
  obtain ⟨i, hi⟩ := h
  exact ⟨i + 1, by rw [stateAt_succ, hi]⟩

/-- One of the coordinates is odd, and after at most two iterations both are. -/
theorem exists_accepts_of_odd_or {v : ℕ} (hv : v ≤ 24) {st : BernPrngState} {z : Golden}
    (h : Represents st (2 ^ v * z)) (hodd : Odd z.re ∨ Odd z.im) :
    ∃ i, (bernCandidate (stateAt st i)).1.rejected = false := by
  have hre := goldenStep_pow_mul_re goldenStep_pow_26
  have him := goldenStep_pow_mul_im goldenStep_pow_26
  rcases Int.even_or_odd z.im with hevenIm | hoddIm
  · have hoddRe : Odd z.re := hodd.resolve_right (Int.not_odd_iff_even.mpr hevenIm)
    have hre₁ : Even (goldenStep ^ 26 * z).re := by grind
    have him₁ : Odd (goldenStep ^ 26 * z).im := by grind
    refine exists_accepts_of_next (exists_accepts_of_next ?_)
    exact exists_accepts_of_odd hv h.next.next (by grind) (by grind)
  · rcases Int.even_or_odd z.re with hevenRe | hoddRe
    · exact exists_accepts_of_next (exists_accepts_of_odd hv h.next (by grind) (by grind))
    · exact exists_accepts_of_odd hv h hoddRe hoddIm

/-- The common power of two of two numbers, up to a bound. -/
theorem exists_two_pow_mul (a b : ℤ) (n : ℕ) :
    (∃ a' b', a = 2 ^ n * a' ∧ b = 2 ^ n * b') ∨
      ∃ v < n, ∃ a' b', a = 2 ^ v * a' ∧ b = 2 ^ v * b' ∧ (Odd a' ∨ Odd b') := by
  induction n with
  | zero => exact .inl ⟨a, b, by simp, by simp⟩
  | succ n ih =>
      rcases ih with ⟨a', b', rfl, rfl⟩ | ⟨v, hv, hodd⟩
      · by_cases hodd : Odd a' ∨ Odd b'
        · exact .inr ⟨n, Nat.lt_succ_self n, a', b', rfl, rfl, hodd⟩
        · rw [not_or, Int.not_odd_iff_even, Int.not_odd_iff_even] at hodd
          obtain ⟨⟨x, rfl⟩, y, rfl⟩ := hodd
          exact .inl ⟨x, y, by ring, by ring⟩
      · exact .inr ⟨v, by omega, hodd⟩

/-! Words with 25 factors of two or more. -/

/-- The bytes have the lower seven bits of the first coordinate, and are even. -/
theorem Represents.outByte_of_dvd {st : BernPrngState} {z : Golden}
    (h : Represents st (2 ^ 25 * z)) : (Gpu.outByte st).toNat = 2 * (z.re % 128).toNat := by
  have hbyte := h.outByte
  rw [two_pow_mul_re, two_pow_mul_im, show 2 ^ 25 * z.im / 2 ^ 19 % 32 = 0 by omega,
    show 2 ^ 25 * z.im / 2 ^ 16 % 8 = 0 by omega, Int.toNat_zero, Nat.xor_zero, Nat.xor_zero,
    show 2 ^ 25 * z.re / 2 ^ 27 = z.re / 4 by omega,
    show 2 ^ 25 * z.re / 2 ^ 24 = 2 * z.re by omega] at hbyte
  omega

theorem Represents.drawnByte_of_dvd {st : BernPrngState} {z : Golden}
    (h : Represents st (2 ^ 25 * z)) {p : ℕ} {x y : ℤ} (hpow : goldenStep ^ p = ⟨x, y⟩) :
    (drawnByte st p).toNat = 2 * ((x * z.re + y * z.im) % 128).toNat := by
  have hdrawn := h.iterate p
  rw [mul_left_comm] at hdrawn
  rw [drawnByte, hdrawn.outByte_of_dvd, goldenStep_pow_mul_re hpow]

/-- A linear form modulo 128. The operations are those that the kernel evaluates on
literals. -/
def formMod128 (p q a b : ℕ) : ℕ := Nat.mod (Nat.add (Nat.mul p a) (Nat.mul q b)) 128

/-- The condition of `accepts_of_even`, for bytes that are twice `u`, `w` and `y`. -/
def acceptsSmall (u w y : ℕ) : Bool :=
  Nat.blt u 82 && Nat.blt (Nat.add (Nat.mul 722 w) (Nat.mul (Nat.mul 4 y) y)) 92055 ||
    Nat.blt u 123 && Nat.blt (Nat.add (Nat.mul 722 w) (Nat.mul (Nat.mul 4 y) (Nat.add y 256))) 92055

/-- One of the iterations accepts, for words that are `2 ^ 25` times `a` and `b`. -/
def haltsSmall : ℕ → ℕ → ℕ → Bool
  | 0, _, _ => false
  | fuel + 1, a, b =>
      acceptsSmall (formMod128 98 91 a b) (formMod128 97 64 a b) (formMod128 33 97 a b) ||
        haltsSmall fuel (formMod128 2 99 a b) (formMod128 99 101 a b)

theorem modEq_formMod128 {re im x y : ℤ} {a b r s : ℕ} (ha : re ≡ a [ZMOD 128])
    (hb : im ≡ b [ZMOD 128]) (hx : x ≡ r [ZMOD 128]) (hy : y ≡ s [ZMOD 128]) :
    x * re + y * im ≡ (formMod128 r s a b : ℕ) [ZMOD 128] := by
  have hform : ((formMod128 r s a b : ℕ) : ℤ) = (r * a + s * b) % 128 := rfl
  rw [hform]
  exact ((hx.mul ha).add (hy.mul hb)).trans (Int.mod_modEq _ _).symm

theorem formMod128_lt (p q a b : ℕ) : formMod128 p q a b < 128 := Nat.mod_lt _ (by decide)

/-- A drawn byte, with coefficients and coordinates modulo 128. -/
theorem Represents.drawnByte_mod {st : BernPrngState} {z : Golden}
    (h : Represents st (2 ^ 25 * z)) {a b : ℕ} (ha : z.re ≡ a [ZMOD 128]) (hb : z.im ≡ b [ZMOD 128])
    {p r s : ℕ} {x y : ℤ} (hpow : goldenStep ^ p = ⟨x, y⟩) (hx : x ≡ r [ZMOD 128])
    (hy : y ≡ s [ZMOD 128]) : (drawnByte st p).toNat = 2 * formMod128 r s a b := by
  have hlt := formMod128_lt r s a b
  rw [h.drawnByte_of_dvd hpow, (modEq_formMod128 ha hb hx hy).eq]
  omega

theorem accepts_of_acceptsSmall {st : BernPrngState} {u w y : ℕ}
    (hU : (drawnByte st 8).toNat = 2 * u) (hW : (drawnByte st 24).toNat = 2 * w)
    (hY : (drawnByte st 25).toNat = 2 * y) (hc : (drawnByte st 26).toNat % 2 = 0)
    (haccepts : acceptsSmall u w y = true) : (bernCandidate st).1.rejected = false := by
  rw [acceptsSmall, Bool.or_eq_true, Bool.and_eq_true, Bool.and_eq_true] at haccepts
  rcases haccepts with ⟨hu, hw⟩ | ⟨hu, hw⟩
  · have hu : u < 82 := Nat.blt_eq.mp hu
    have hw : 722 * w + 4 * y * y < 92055 := Nat.blt_eq.mp hw
    refine accepts_of_even hc (.inl ⟨rfl, by omega⟩) ?_
    rw [hW, hY, show 2 * y * (2 * y + 512 * 0) = 4 * y * y by ring]
    omega
  · have hu : u < 123 := Nat.blt_eq.mp hu
    have hw : 722 * w + 4 * y * (y + 256) < 92055 := Nat.blt_eq.mp hw
    refine accepts_of_even hc (.inr ⟨rfl, by omega⟩) ?_
    rw [hW, hY, show 2 * y * (2 * y + 512 * 1) = 4 * y * (y + 256) by ring]
    omega

theorem exists_accepts_of_haltsSmall {fuel a b : ℕ} (hhalts : haltsSmall fuel a b = true)
    {st : BernPrngState} {z : Golden} (h : Represents st (2 ^ 25 * z))
    (ha : z.re ≡ a [ZMOD 128]) (hb : z.im ≡ b [ZMOD 128]) :
    ∃ i, (bernCandidate (stateAt st i)).1.rejected = false := by
  induction fuel generalizing a b st z with
  | zero => exact absurd hhalts Bool.false_ne_true
  | succ fuel ih =>
      rw [haltsSmall, Bool.or_eq_true] at hhalts
      rcases hhalts with haccepts | hrest
      · have hc : (drawnByte st 26).toNat % 2 = 0 := by
          rw [h.drawnByte_of_dvd goldenStep_pow_26]
          omega
        have hU : (drawnByte st 8).toNat = 2 * formMod128 98 91 a b :=
          h.drawnByte_mod ha hb goldenStep_pow_8 rfl rfl
        have hW : (drawnByte st 24).toNat = 2 * formMod128 97 64 a b :=
          h.drawnByte_mod ha hb goldenStep_pow_24 rfl rfl
        have hY : (drawnByte st 25).toNat = 2 * formMod128 33 97 a b :=
          h.drawnByte_mod ha hb goldenStep_pow_25 rfl rfl
        exact ⟨0, accepts_of_acceptsSmall hU hW hY hc haccepts⟩
      · refine exists_accepts_of_next (ih hrest h.next ?_ ?_)
        · rw [goldenStep_pow_mul_re goldenStep_pow_26]
          exact modEq_formMod128 ha hb rfl rfl
        · rw [goldenStep_pow_mul_im goldenStep_pow_26]
          exact modEq_formMod128 ha hb rfl rfl

/-- The words, as multiples of `2 ^ 25`, for which no iteration is known to accept. -/
def smallExceptions : List (ℕ × ℕ) := [(48, 0), (96, 16), (112, 112), (64, 32), (96, 0), (96, 96)]

theorem haltsSmall_or_exception :
    ((List.range 128).all fun a => (List.range 128).all fun b =>
      haltsSmall 12 a b || smallExceptions.contains (a, b)) = true := by decide +kernel

/-! The states without end. -/

/-- The states from which every iteration rejects. Each is followed by the next one. -/
def stuckStates : List BernPrngState :=
  [⟨0x80000000, 0x40000000⟩, ⟨0xC0000000, 0⟩, ⟨0xC0000000, 0xC0000000⟩]

theorem stuckStates_step : ∀ st ∈ stuckStates,
    (bernCandidate st).1.rejected = true ∧ (bernCandidate st).2 ∈ stuckStates := by
  decide +kernel

theorem sampleGaussianBernDevice_stuck {st : BernPrngState} (hst : st ∈ stuckStates) (fuel : ℕ) :
    sampleGaussianBernDevice fuel st = none := by
  induction fuel generalizing st with
  | zero => rfl
  | succ fuel ih =>
      obtain ⟨hrejected, hnext⟩ := stuckStates_step st hst
      rw [sampleGaussianBernDevice, if_pos hrejected]
      exact ih hnext

theorem smallExceptions_halt : ∀ ab ∈ smallExceptions,
    (sampleGaussianBernDevice 5
      ⟨UInt32.ofNat (2 ^ 25 * ab.1), UInt32.ofNat (2 ^ 25 * ab.2)⟩).isSome = true ∨
      ⟨UInt32.ofNat (2 ^ 25 * ab.1), UInt32.ofNat (2 ^ 25 * ab.2)⟩ ∈ stuckStates := by
  decide +kernel

theorem halts_of_dvd {a b : ℕ} {st : BernPrngState} (ha : st.a.toNat = 2 ^ 25 * a)
    (hb : st.b.toNat = 2 ^ 25 * b) (hst : st ∉ stuckStates) :
    ∃ fuel, (sampleGaussianBernDevice fuel st).isSome := by
  have halt := st.a.toNat_lt
  have hblt := st.b.toNat_lt
  have hall := List.all_eq_true.mp haltsSmall_or_exception a (List.mem_range.mpr (by omega))
  have hcases := List.all_eq_true.mp hall b (List.mem_range.mpr (by omega))
  rcases Bool.or_eq_true_iff.mp hcases with hhalts | hexception
  · have hrepresents : Represents st (2 ^ 25 * ⟨a, b⟩) := by
      constructor
      · rw [two_pow_mul_re, ha]
        push_cast
        omega
      · rw [two_pow_mul_im, hb]
        push_cast
        omega
    obtain ⟨i, hi⟩ := exists_accepts_of_haltsSmall hhalts hrepresents rfl rfl
    exact exists_isSome_iff.mpr (exists_endsAt hi)
  · have hword : st = ⟨UInt32.ofNat (2 ^ 25 * a), UInt32.ofNat (2 ^ 25 * b)⟩ := by
      rw [← ha, ← hb, UInt32.ofNat_toNat, UInt32.ofNat_toNat]
    rcases smallExceptions_halt (a, b) (List.contains_iff_mem.mp hexception) with hsome | hstuck
    · exact ⟨5, hword ▸ hsome⟩
    · exact absurd (hword ▸ hstuck) hst

/-- The loop ends from every state but three. -/
theorem sampleGaussianBernDevice_halts_iff (st : BernPrngState) :
    (∃ fuel, (sampleGaussianBernDevice fuel st).isSome) ↔ st ∉ stuckStates := by
  constructor
  · rintro ⟨fuel, hsome⟩ hst
    rw [sampleGaussianBernDevice_stuck hst] at hsome
    exact absurd hsome (by simp)
  · intro hst
    rcases exists_two_pow_mul st.a.toNat st.b.toNat 25 with
      ⟨a, b, ha, hb⟩ | ⟨v, hv, a, b, ha, hb, hodd⟩
    · exact halts_of_dvd (a := a.toNat) (b := b.toNat) (by omega) (by omega) hst
    · have hrepresents : Represents st (2 ^ v * ⟨a, b⟩) := by
        have hself := represents_self st
        have hscaled : (⟨2 ^ v * a, 2 ^ v * b⟩ : Golden) = 2 ^ v * ⟨a, b⟩ :=
          QuadraticAlgebra.ext (two_pow_mul_re v ⟨a, b⟩).symm (two_pow_mul_im v ⟨a, b⟩).symm
        rwa [ha, hb, hscaled] at hself
      obtain ⟨i, hi⟩ := exists_accepts_of_odd_or (by omega) hrepresents hodd
      exact exists_isSome_iff.mpr (exists_endsAt hi)

/-- The generator of `s1` for a seed, a token and a coefficient starts in one of these
states, which is not the state of two zeros. -/
theorem sampleGaussianBernDevice_hangs :
    sampleState1 (sampleMix 768526857 385001 240) = ⟨0x80000000, 0x40000000⟩ ∧
      ∀ fuel, sampleGaussianBernDevice fuel (sampleState1 (sampleMix 768526857 385001 240)) =
        none := by
  have hstate : sampleState1 (sampleMix 768526857 385001 240) = ⟨0x80000000, 0x40000000⟩ := by
    rfl
  refine ⟨hstate, fun fuel => ?_⟩
  rw [hstate]
  exact sampleGaussianBernDevice_stuck (by decide) fuel

end Soko.Gpu
