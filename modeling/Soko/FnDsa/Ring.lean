import Mathlib.FieldTheory.Finite.Basic
import Mathlib.Tactic.NormNum.Prime
import Soko.FnDsa.Transform
import Soko.Library.NegacyclicUnits

/-!
The transforms and the division of `submodules/FN-DSA/vrfy.c` in terms of the ring of
polynomials modulo `q` and `X ^ n + 1`. `mq_iNTT` recovers the polynomial whose values at
the leaves it is given (`mqINTT_spec`), and `mq_div_12289` divides in the field of the
residues, where the quotient by 0 is 0. A loop that divides leaf by leaf therefore divides
in the ring, if it finds no zero (`ringElement_quotient`).
-/

namespace Soko.FnDsa

open Soko.Library Soko.Gpu

local instance fact_prime_q : Fact (Nat.Prime 12289) := ⟨by norm_num⟩

def mqMontysqr (x : UInt32) : UInt32 := mqMontymul x x

def mqDiv12289 (x y : UInt32) : UInt32 :=
  let y0 := mqMontymul y oofalconR2
  let y1 := mqMontysqr y0
  let y2 := mqMontymul y1 y0
  let y3 := mqMontymul y2 y1
  let y4 := mqMontysqr y3
  let y5 := mqMontysqr y4
  let y6 := mqMontysqr y5
  let y7 := mqMontysqr y6
  let y8 := mqMontysqr y7
  let y9 := mqMontymul y8 y2
  let y10 := mqMontymul y9 y8
  let y11 := mqMontysqr y10
  let y12 := mqMontysqr y11
  let y13 := mqMontymul y12 y9
  let y14 := mqMontysqr y13
  let y15 := mqMontysqr y14
  let y16 := mqMontymul y15 y10
  let y17 := mqMontysqr y16
  let y18 := mqMontymul y17 y0
  mqMontymul y18 x

/-- `mq_poly_tomonty`, whose loop is that of `mq_poly_tomonty_host`. -/
def mqPolyTomonty (logn : ℕ) (f : ℕ → UInt16) : ℕ → UInt16 := mqPolyTomontyHost logn f

def toNttMonty (logn : ℕ) (h : ℕ → UInt16) : ℕ → UInt16 := mqPolyTomonty logn (mqNTT logn h)

section Division

/-- `x` is a power of `y`, in Montgomery form. -/
def PowerOf (y : ZMod 12289) (e : ℕ) (x : UInt32) : Prop :=
  Reduced x ∧ residue x * montyInverse = y ^ e

variable {y : ZMod 12289} {e e' : ℕ} {x x' : UInt32}

theorem Reduced.lt_65536 (hx : Reduced x) : x.toNat < 65536 := lt_trans hx (by norm_num)

theorem PowerOf.mul (hx : PowerOf y e x) (hx' : PowerOf y e' x') :
    PowerOf y (e + e') (mqMontymul x x') := by
  refine ⟨reduced_mqMontymulU32 hx.1 (Reduced.lt_65536 hx'.1), ?_⟩
  rw [mqMontymul, residue_mqMontymulU32 hx.1 (Reduced.lt_65536 hx'.1), pow_add, ← hx.2, ← hx'.2]
  ring

theorem PowerOf.sqr (hx : PowerOf y e x) : PowerOf y (2 * e) (mqMontysqr x) := by
  rw [two_mul]
  exact hx.mul hx

theorem mqDiv12289_spec {x y : UInt32} (hx : Reduced x) (hy : Reduced y) :
    Reduced (mqDiv12289 x y) ∧ residue (mqDiv12289 x y) = residue x / residue y := by
  have hunit : residue oofalconR2 * montyInverse * montyInverse = 1 := by decide
  have hR2 : oofalconR2.toNat < 65536 := by decide
  have h0 : PowerOf (residue y) 1 (mqMontymul y oofalconR2) := by
    refine ⟨reduced_mqMontymulU32 hy hR2, ?_⟩
    rw [mqMontymul, residue_mqMontymulU32 hy hR2, pow_one, mul_assoc, mul_assoc,
      ← mul_assoc (residue oofalconR2), hunit, mul_one]
  have h1 := h0.sqr
  have h2 := h1.mul h0
  have h3 := h2.mul h1
  have h8 := h3.sqr.sqr.sqr.sqr.sqr
  have h9 := h8.mul h2
  have h10 := h9.mul h8
  have h13 := h10.sqr.sqr.mul h9
  have h16 := h13.sqr.sqr.mul h10
  have h18 := h16.sqr.mul h0
  -- the exponent is 12287, which stands for -1
  have hinverse : residue y ^ 12287 = (residue y)⁻¹ := by
    rcases eq_or_ne (residue y) 0 with hzero | hne
    · rw [hzero, inv_zero, zero_pow (by norm_num)]
    · apply eq_inv_of_mul_eq_one_left
      rw [← pow_succ]
      exact ZMod.pow_card_sub_one_eq_one hne
  refine ⟨reduced_mqMontymulU32 h18.1 (Reduced.lt_65536 hx), ?_⟩
  have hquotient : residue (mqDiv12289 x y) = residue y ^ 12287 * residue x := by
    refine (residue_mqMontymulU32 h18.1 (Reduced.lt_65536 hx)).trans ?_
    rw [mul_right_comm, h18.2]
  rw [hquotient, hinverse, mul_comm, div_eq_mul_inv]

end Division

section Transforms

variable {logn : ℕ} {a b : ℕ → UInt16}

theorem widened_self {n : ℕ} (ha : ReducedBelow16 n a) : Widened n a fun j => (a j).toUInt32 :=
  fun j hj => ⟨ha j hj, rfl⟩

/-- The tables split and undo each other in every degree in use. -/
theorem transformTables (hlogn : logn ≤ 10) : TransformTables twiddle twiddleInverse logn where
  splits v hv hlt := splittingTable_twiddle v hv (hlt.trans_le (two_pow_le_1024 hlogn))
  inverse_mul v _ _ := twiddle_mul_inverse v
  two_ne_zero := by decide

theorem mqNTT_spec (hlogn : logn ≤ 10) (ha : ReducedBelow16 (2 ^ logn) a) :
    ReducedBelow16 (2 ^ logn) (mqNTT logn a) ∧
      ∀ l < 2 ^ logn, residue16 (mqNTT logn a l) =
        forward twiddle logn 1 (fun j => residue16 (a j)) l := by
  have hsize := two_pow_le_1024 hlogn
  have hwide := widened_nttFrom one_pos (fun i hi => GMb_eq (hi.trans_le hsize))
    (fun _ => Schedule.sequential 1 (2 ^ logn)) one_pos (one_mul _).symm (widened_self ha)
  obtain ⟨-, hres⟩ := kernelNtt_spec one_pos hlogn (fun _ => Schedule.sequential 1 (2 ^ logn))
    (widened_self ha).reduced
  have heq : ∀ l < 2 ^ logn, _ = (mqNTT logn a l).toUInt32 := fun l hl => hwide.eq hl
  refine ⟨fun l hl => ?_, fun l hl => ?_⟩
  · rw [← heq l hl]
    exact hwide.reduced l hl
  · rw [residue16, ← heq l hl]
    exact hres l hl

/-- `mq_iNTT` finds the polynomial with the given values. -/
theorem mqINTT_spec (hlogn : logn ≤ 10) (hb : ReducedBelow16 (2 ^ logn) b) {c : ℕ → ZMod 12289}
    (hleaf : ∀ l < 2 ^ logn, residue16 (b l) = forward twiddle logn 1 c l) :
    ReducedBelow16 (2 ^ logn) (mqINTT logn b) ∧
      ∀ j < 2 ^ logn, residue16 (mqINTT logn b j) = c j := by
  have hsize := two_pow_le_1024 hlogn
  have hwide := widened_inttFrom (d := 0) one_pos (fun i hi => iGMb_eq (hi.trans_le hsize))
    (fun _ => Schedule.sequential 1 (2 ^ logn)) (mul_one _).symm (widened_self hb)
  obtain ⟨-, hres⟩ := kernelIntt_spec one_pos hlogn (fun _ => Schedule.sequential 1 (2 ^ logn))
    (widened_self hb).reduced
  obtain ⟨hninv, hone⟩ := nInv_spec logn
  suffices hall : ∀ j < 2 ^ logn, Reduced (mqINTT logn b j).toUInt32 ∧
      residue16 (mqINTT logn b j) = c j from
    ⟨fun j hj => (hall j hj).1, fun j hj => (hall j hj).2⟩
  intro j hj
  have hstages : (mqINTTStages logn b j).toUInt32 = _ := (hwide.eq hj).symm
  have hproduct : Reduced (mqMontymulU32 (mqINTTStages logn b j).toUInt32 (nInv logn)) := by
    refine reduced_mqMontymulU32 ?_ (Reduced.lt_65536 hninv)
    rw [hstages]
    exact hwide.reduced j hj
  have hentry : (mqINTT logn b j).toUInt32 =
      mqMontymulU32 (mqINTTStages logn b j).toUInt32 (nInv logn) := by
    rw [mqINTT, mqINTTScale_apply hj]
    exact toUInt32_toUInt16 hproduct
  -- the inverse stages give `2 ^ logn` times the entry
  have hvalue : inverse twiddleInverse logn 1 (fun l => residue (b l).toUInt32) j =
      2 ^ logn * c j := by
    have hforward : ∀ l < 1 * 2 ^ logn, residue (b l).toUInt32 = forward twiddle logn 1 c l :=
      fun l hl => hleaf l (by omega)
    rw [inverse_congr twiddleInverse hforward (by omega),
      inverse_forward (fun v _ _ => twiddle_mul_inverse v) c (by omega)]
  have hstage : residue (mqINTTStages logn b j).toUInt32 = 2 ^ logn * c j := by
    rw [hstages]
    exact (hres j hj).trans hvalue
  refine ⟨hentry ▸ hproduct, ?_⟩
  rw [residue16, hentry, residue_mqMontymulU32 (by rw [hstages]; exact hwide.reduced j hj)
    (Reduced.lt_65536 hninv), hstage]
  linear_combination c j * hone

theorem mqPolyMontymulNtt_spec (ha : ReducedBelow16 (2 ^ logn) a) (b : ℕ → UInt16) :
    ReducedBelow16 (2 ^ logn) (mqPolyMontymulNtt logn a b) ∧
      ∀ l < 2 ^ logn, residue16 (mqPolyMontymulNtt logn a b l) =
        residue16 (a l) * residue16 (b l) * montyInverse := by
  have hsmall : ∀ l, (b l).toUInt32.toNat < 65536 := fun l => toNat_toUInt32_lt _
  have hentry : ∀ l < 2 ^ logn, (mqPolyMontymulNtt logn a b l).toUInt32 =
      mqMontymulU32 (a l).toUInt32 (b l).toUInt32 := by
    intro l hl
    rw [mqPolyMontymulNtt,
      foldl_update_apply (fun u x => (mqMontymul x.toUInt32 (b u).toUInt32).toUInt16) a hl]
    exact toUInt32_toUInt16 (reduced_mqMontymulU32 (ha l hl) (hsmall l))
  refine ⟨fun l hl => ?_, fun l hl => ?_⟩
  · rw [hentry l hl]
    exact reduced_mqMontymulU32 (ha l hl) (hsmall l)
  · rw [residue16, hentry l hl]
    exact residue_mqMontymulU32 (ha l hl) (hsmall l)

theorem toNttMonty_spec (hlogn : logn ≤ 10) (ha : ReducedBelow16 (2 ^ logn) a) :
    ReducedBelow16 (2 ^ logn) (toNttMonty logn a) ∧
      ∀ l < 2 ^ logn, residue16 (toNttMonty logn a l) * montyInverse =
        forward twiddle logn 1 (fun j => residue16 (a j)) l := by
  obtain ⟨hred, hres⟩ := mqNTT_spec hlogn ha
  obtain ⟨hred', hres'⟩ := mqPolyTomontyHost_spec hred
  exact ⟨hred', fun l hl => (hres' l hl).trans (hres l hl)⟩

theorem ringElement_mul_eq_iff (hlogn : logn ≤ 10) (f g p : ℕ → ZMod 12289) :
    ringElement (2 ^ logn) f * ringElement (2 ^ logn) g = ringElement (2 ^ logn) p ↔
      ∀ l < 2 ^ logn,
        forward twiddle logn 1 f l * forward twiddle logn 1 g l = forward twiddle logn 1 p l :=
  (transformTables hlogn).mk_mul_eq_iff f g p

/-- The units are the polynomials without a zero in NTT representation. -/
theorem isUnit_ringElement_iff (hlogn : logn ≤ 10) (f : ℕ → ZMod 12289) :
    IsUnit (ringElement (2 ^ logn) f) ↔ ∀ l < 2 ^ logn, forward twiddle logn 1 f l ≠ 0 :=
  (transformTables hlogn).isUnit_mk_iff f

/-- Dividing in NTT representation divides in the ring, where that is possible. -/
theorem ringElement_quotient (hlogn : logn ≤ 10) {f g : ℕ → ZMod 12289}
    (hunit : IsUnit (ringElement (2 ^ logn) f)) (hb : ReducedBelow16 (2 ^ logn) b)
    (hquotient : ∀ l < 2 ^ logn,
      residue16 (b l) = forward twiddle logn 1 g l / forward twiddle logn 1 f l) :
    ReducedBelow16 (2 ^ logn) (mqINTT logn b) ∧
      ringElement (2 ^ logn) f * ringElement (2 ^ logn) (fun j => residue16 (mqINTT logn b j)) =
        ringElement (2 ^ logn) g := by
  obtain ⟨p, hp⟩ := (transformTables hlogn).exists_forward_eq fun l => residue16 (b l)
  obtain ⟨hred, hres⟩ := mqINTT_spec hlogn hb fun l hl => (hp l hl).symm
  refine ⟨hred, ?_⟩
  rw [ringElement_congr hres, ringElement_mul_eq_iff hlogn]
  intro l hl
  rw [hp l hl, hquotient l hl]
  exact mul_div_cancel₀ _ ((isUnit_ringElement_iff hlogn f).mp hunit l hl)

end Transforms

end Soko.FnDsa
