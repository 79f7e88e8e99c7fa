import Mathlib.Data.ZMod.Basic
import Mathlib.Tactic.NormNum
import Mathlib.Tactic.Ring

/-!
Arithmetic modulo `q = 12289` on 32-bit words. The functions are those of
`soko_gpu_offline.cu`, where the host and the device versions have the same
bodies; `residue` is what a word stands for, and each function is specified by
the range of its result and its residue.
-/

namespace Soko.Gpu

def oofalconQ : UInt32 := 12289
def oofalconQ0i : UInt32 := 12287
def oofalconR : UInt32 := 4091
def oofalconR2 : UInt32 := 10952

def mqAddU32 (x y : UInt32) : UInt32 :=
  let d := x + y - oofalconQ
  d + (oofalconQ &&& -(d >>> 31))

def mqSubU32 (x y : UInt32) : UInt32 :=
  let d := x - y
  d + (oofalconQ &&& -(d >>> 31))

def mqRshift1U32 (x : UInt32) : UInt32 :=
  (x + (oofalconQ &&& -(x &&& 1))) >>> 1

def mqMontymulU32 (x y : UInt32) : UInt32 :=
  let z := x * y
  let w := ((z * oofalconQ0i) &&& 0xFFFF) * oofalconQ
  let z := (z + w) >>> 16
  let z := z - oofalconQ
  z + (oofalconQ &&& -(z >>> 31))

def mqAddDevice : UInt32 → UInt32 → UInt32 := mqAddU32

def mqSubDevice : UInt32 → UInt32 → UInt32 := mqSubU32

def mqMontymulDevice : UInt32 → UInt32 → UInt32 := mqMontymulU32

def Reduced (x : UInt32) : Prop := x.toNat < 12289

instance (x : UInt32) : Decidable (Reduced x) := inferInstanceAs (Decidable (_ < _))

instance nontrivial_zmod_q : Nontrivial (ZMod 12289) := ZMod.nontrivial_iff.mpr (by norm_num)

/-- What a word stands for. -/
def residue (x : UInt32) : ZMod 12289 := x.toNat

theorem mask_eq (d : UInt32) :
    oofalconQ &&& -(d >>> 31) = if d.toNat < 2 ^ 31 then 0 else oofalconQ := by
  have hshift : (d >>> 31).toNat = d.toNat / 2 ^ 31 := by
    simp [UInt32.toNat_shiftRight, Nat.shiftRight_eq_div_pow]
  have hlt := d.toNat_lt
  split
  · have hzero : d >>> 31 = 0 := by
      apply UInt32.toNat_inj.mp
      rw [hshift, UInt32.toNat_zero]
      omega
    rw [hzero]
    simp
  · have hone : d >>> 31 = 1 := by
      apply UInt32.toNat_inj.mp
      rw [hshift, UInt32.toNat_one]
      omega
    rw [hone]
    decide

theorem toNat_add_mask (d : UInt32) :
    (d + (oofalconQ &&& -(d >>> 31))).toNat =
      if d.toNat < 2 ^ 31 then d.toNat else (d.toNat + 12289) % 2 ^ 32 := by
  rw [mask_eq]
  split
  · rw [UInt32.add_zero]
  · rw [UInt32.toNat_add]
    rfl

theorem toNat_mqAddU32 {x y : UInt32} (hx : Reduced x) (hy : Reduced y) :
    (mqAddU32 x y).toNat = (x.toNat + y.toNat) % 12289 := by
  unfold Reduced at hx hy
  have hd : (x + y - oofalconQ).toNat = (x.toNat + y.toNat + (2 ^ 32 - 12289)) % 2 ^ 32 := by
    rw [UInt32.toNat_sub, UInt32.toNat_add]
    simp only [oofalconQ, UInt32.reduceToNat]
    omega
  rw [mqAddU32, toNat_add_mask, hd]
  split <;> omega

theorem toNat_mqSubU32 {x y : UInt32} (hx : Reduced x) (hy : Reduced y) :
    (mqSubU32 x y).toNat = (x.toNat + (12289 - y.toNat)) % 12289 := by
  unfold Reduced at hx hy
  have hd : (x - y).toNat = (2 ^ 32 - y.toNat + x.toNat) % 2 ^ 32 := UInt32.toNat_sub x y
  rw [mqSubU32, toNat_add_mask, hd]
  split <;> omega

theorem toNat_and_0xFFFF (x : UInt32) : (x &&& 0xFFFF).toNat = x.toNat % 2 ^ 16 := by
  rw [UInt32.toNat_and, show (0xFFFF : UInt32).toNat = 2 ^ 16 - 1 by decide,
    Nat.and_two_pow_sub_one_eq_mod]

/-- The Montgomery product times `2 ^ 16` is the product. -/
theorem mqMontymulU32_spec {x y : UInt32} (hxy : x.toNat * y.toNat < 12289 * 65536) :
    (mqMontymulU32 x y).toNat < 12289 ∧
      (mqMontymulU32 x y).toNat * 65536 % 12289 = x.toNat * y.toNat % 12289 := by
  have hz : (x * y).toNat = x.toNat * y.toNat := by
    rw [UInt32.toNat_mul, Nat.mod_eq_of_lt (by omega)]
  obtain ⟨p, hp⟩ : ∃ p, p = x.toNat * y.toNat := ⟨_, rfl⟩
  obtain ⟨u, hu⟩ : ∃ u, u = p * 12287 % 65536 := ⟨_, rfl⟩
  rw [← hp] at hz hxy ⊢
  have hlow : (x * y * oofalconQ0i &&& 0xFFFF).toNat = u := by
    rw [toNat_and_0xFFFF, UInt32.toNat_mul, hz, show oofalconQ0i.toNat = 12287 by decide]
    omega
  have hsum : (x * y + (x * y * oofalconQ0i &&& 0xFFFF) * oofalconQ).toNat = p + u * 12289 := by
    rw [UInt32.toNat_add, hz, UInt32.toNat_mul, hlow, show oofalconQ.toNat = 12289 by decide]
    omega
  -- `12287 * 12289` is -1 modulo `2 ^ 16`, so the sum is a multiple of `2 ^ 16`.
  obtain ⟨t, ht⟩ : ∃ t, p + u * 12289 = 65536 * t :=
    Nat.dvd_of_mod_eq_zero (by omega)
  have hshift : ((x * y + (x * y * oofalconQ0i &&& 0xFFFF) * oofalconQ) >>> 16).toNat = t := by
    rw [UInt32.toNat_shiftRight, hsum, ht, Nat.shiftRight_eq_div_pow]
    exact Nat.mul_div_cancel_left t (by norm_num)
  have hd : ((x * y + (x * y * oofalconQ0i &&& 0xFFFF) * oofalconQ) >>> 16 - oofalconQ).toNat =
      (t + (2 ^ 32 - 12289)) % 2 ^ 32 := by
    rw [UInt32.toNat_sub, hshift, show oofalconQ.toNat = 12289 by decide]
    omega
  have hmod : t * 65536 % 12289 = p % 12289 := by omega
  have hlt : t < 2 * 12289 := by omega
  clear hu ht
  rw [mqMontymulU32, toNat_add_mask, hd]
  split
  · have hresult : (t + (2 ^ 32 - 12289)) % 2 ^ 32 = t - 12289 := by omega
    rw [hresult]
    omega
  · have hresult : ((t + (2 ^ 32 - 12289)) % 2 ^ 32 + 12289) % 2 ^ 32 = t := by omega
    rw [hresult]
    omega

theorem toNat_mqRshift1U32 {x : UInt32} (hx : Reduced x) :
    (mqRshift1U32 x).toNat = (x.toNat + 12289 * (x.toNat % 2)) / 2 := by
  unfold Reduced at hx
  have hand : (x &&& 1).toNat = x.toNat % 2 := by
    rw [UInt32.toNat_and, UInt32.toNat_one, Nat.and_one_is_mod]
  have hmask : (oofalconQ &&& -(x &&& 1)).toNat = 12289 * (x.toNat % 2) := by
    obtain h | h := Nat.mod_two_eq_zero_or_one x.toNat
    · rw [h, show x &&& 1 = 0 from UInt32.toNat_inj.mp (hand.trans h)]
      rfl
    · rw [h, show x &&& 1 = 1 from UInt32.toNat_inj.mp (hand.trans h)]
      rfl
  rw [mqRshift1U32, UInt32.toNat_shiftRight, UInt32.toNat_add, hmask, Nat.shiftRight_eq_div_pow]
  have hone : (1 : UInt32).toNat % 32 = 1 := rfl
  rw [hone]
  omega

/-! The same in terms of residues. -/

def montyInverse : ZMod 12289 := 2304

@[simp] theorem montyInverse_mul : montyInverse * 65536 = 1 := by decide

theorem residue_eq_of_mod {x : UInt32} {n : ℕ} (h : x.toNat = n % 12289) : residue x = n := by
  rw [residue, h, ZMod.natCast_mod]

theorem reduced_mqAddU32 {x y : UInt32} (hx : Reduced x) (hy : Reduced y) :
    Reduced (mqAddU32 x y) := by
  rw [Reduced, toNat_mqAddU32 hx hy]
  exact Nat.mod_lt _ (by norm_num)

theorem reduced_mqSubU32 {x y : UInt32} (hx : Reduced x) (hy : Reduced y) :
    Reduced (mqSubU32 x y) := by
  rw [Reduced, toNat_mqSubU32 hx hy]
  exact Nat.mod_lt _ (by norm_num)

theorem residue_mqAddU32 {x y : UInt32} (hx : Reduced x) (hy : Reduced y) :
    residue (mqAddU32 x y) = residue x + residue y := by
  rw [residue_eq_of_mod (toNat_mqAddU32 hx hy), Nat.cast_add, residue, residue]

theorem residue_mqSubU32 {x y : UInt32} (hx : Reduced x) (hy : Reduced y) :
    residue (mqSubU32 x y) = residue x - residue y := by
  have hle : y.toNat ≤ 12289 := Nat.le_of_lt hy
  have hq : ((12289 : ℕ) : ZMod 12289) = 0 := ZMod.natCast_self 12289
  rw [residue_eq_of_mod (toNat_mqSubU32 hx hy), Nat.cast_add, Nat.cast_sub hle, hq, residue,
    residue]
  ring

theorem mul_lt_of_reduced {x y : UInt32} (hx : Reduced x) (hy : y.toNat < 65536) :
    x.toNat * y.toNat < 12289 * 65536 := by
  unfold Reduced at hx
  have hle : x.toNat * y.toNat ≤ x.toNat * 65536 := Nat.mul_le_mul_left _ hy.le
  omega

theorem reduced_mqMontymulU32 {x y : UInt32} (hx : Reduced x) (hy : y.toNat < 65536) :
    Reduced (mqMontymulU32 x y) := (mqMontymulU32_spec (mul_lt_of_reduced hx hy)).1

theorem residue_mqMontymulU32 {x y : UInt32} (hx : Reduced x) (hy : y.toNat < 65536) :
    residue (mqMontymulU32 x y) = residue x * residue y * montyInverse := by
  have hmod := (mqMontymulU32_spec (mul_lt_of_reduced hx hy)).2
  have hcast := (ZMod.natCast_eq_natCast_iff' _ _ 12289).mpr hmod
  push_cast at hcast
  have hinv := montyInverse_mul
  calc residue (mqMontymulU32 x y)
      = residue (mqMontymulU32 x y) * (montyInverse * 65536) := by rw [hinv, mul_one]
    _ = residue (mqMontymulU32 x y) * 65536 * montyInverse := by ring
    _ = residue x * residue y * montyInverse := by rw [residue, hcast]; rfl

theorem reduced_mqRshift1U32 {x : UInt32} (hx : Reduced x) : Reduced (mqRshift1U32 x) := by
  rw [Reduced, toNat_mqRshift1U32 hx]
  unfold Reduced at hx
  omega

theorem residue_mqRshift1U32 {x : UInt32} (hx : Reduced x) :
    2 * residue (mqRshift1U32 x) = residue x := by
  have hdouble : 2 * (mqRshift1U32 x).toNat = x.toNat + 12289 * (x.toNat % 2) := by
    rw [toNat_mqRshift1U32 hx]
    omega
  have hcast := congrArg (Nat.cast (R := ZMod 12289)) hdouble
  push_cast at hcast
  have hq : (12289 : ZMod 12289) = 0 := by decide
  rw [hq, zero_mul, add_zero] at hcast
  exact hcast

/-! Words that stand for signed numbers. -/

/-- `u += OOFALCON_Q & -(u >> 31)`. -/
def addQIfNegative (u : UInt32) : UInt32 := u + (oofalconQ &&& -(u >>> 31))

/-- The words of the signed numbers from `-q` to `q - 1` are brought into range. -/
theorem addQIfNegative_spec {x : Int32} (hlow : -12289 ≤ x.toInt) (hhigh : x.toInt < 12289) :
    Reduced (addQIfNegative x.toUInt32) ∧
      residue (addQIfNegative x.toUInt32) = (x.toInt : ZMod 12289) := by
  have hint : x.toInt = if 2 * x.toUInt32.toNat < 2 ^ 32 then (x.toUInt32.toNat : ℤ)
      else (x.toUInt32.toNat : ℤ) - (2 ^ 32 : ℕ) := BitVec.toInt_eq_toNat_cond x.toBitVec
  have hlt := x.toUInt32.toNat_lt
  have hnat : ((addQIfNegative x.toUInt32).toNat : ℤ) =
      if 0 ≤ x.toInt then x.toInt else x.toInt + 12289 := by
    rw [addQIfNegative, toNat_add_mask]
    split at hint <;> split <;> split <;> omega
  have hcast := congrArg (Int.cast (R := ZMod 12289)) hnat
  have hq : (12289 : ZMod 12289) = 0 := by decide
  constructor
  · unfold Reduced
    split at hnat <;> omega
  · rw [Int.cast_natCast] at hcast
    rw [residue, hcast]
    split
    · rfl
    · rw [Int.cast_add, Int.cast_ofNat, hq, add_zero]

end Soko.Gpu
