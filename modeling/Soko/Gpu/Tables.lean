import Soko.Gpu.Modular
import Soko.Library.Negacyclic

/-!
The tables of `ensure_ntt_tables`. Entry `i` of `gmb` is the power of 7 at the
bit reversal of `i`, in Montgomery form; since 7 is a root of `X ^ 1024 + 1`, the
table splits the nodes of the transform (`splittingTable_twiddle`), and `igmb`
has the inverses.
-/

namespace Soko.Gpu

open Soko.Library

def oofalconG : UInt32 := 7
def oofalconGinv : UInt32 := 8778

/-- The loop of `mod_pow_u32`. -/
def modPowLoop (r b : UInt64) (e : UInt32) : UInt64 :=
  if 0 < e.toNat then
    modPowLoop (if e &&& 1 ≠ 0 then r * b % 12289 else r) (b * b % 12289) (e >>> 1)
  else r
  termination_by e.toNat
  decreasing_by
    rw [UInt32.toNat_shiftRight, Nat.shiftRight_eq_div_pow]
    exact Nat.div_lt_self ‹_› (by decide)

def modPowU32 (a e : UInt32) : UInt32 := (modPowLoop 1 (a % oofalconQ).toUInt64 e).toUInt32

/-- The loop of `bitrev_u32`, with `bits` iterations to go. -/
def bitrevLoop : ℕ → UInt32 → UInt32 → UInt32
  | 0, r, _ => r
  | bits + 1, r, x => bitrevLoop bits ((r <<< 1) ||| (x &&& 1)) (x >>> 1)

def bitrevU32 (x : UInt32) (bits : ℕ) : UInt32 := bitrevLoop bits 0 x

/-- The table that `ensure_ntt_tables` fills with powers of `g`. -/
def nttTable (g : UInt32) (i : ℕ) : UInt16 :=
  let e := bitrevU32 (UInt32.ofNat i) 10
  let v := modPowU32 g e
  (v.toUInt64 * oofalconR.toUInt64 % 12289).toUInt16

/-- `g_ntt_host.gmb`. -/
def gmb : ℕ → UInt16 := nttTable oofalconG

/-- `g_ntt_host.igmb`. -/
def igmb : ℕ → UInt16 := nttTable oofalconGinv

/-- The loop that computes `n_inv`, from `m` on. -/
def nInvLoop (m : ℕ) (nInv : UInt32) : UInt32 :=
  if 1 < m then nInvLoop (m / 2) (mqRshift1U32 nInv) else nInv
  termination_by m

/-- `g_ntt_host.n_inv` after `ensure_ntt_tables(logn)`. -/
def nInv (logn : ℕ) : UInt32 := nInvLoop (2 ^ logn) oofalconR

/-- The reversal of the lowest `bits` bits. -/
def bitReversal : ℕ → ℕ → ℕ
  | 0, _ => 0
  | bits + 1, x => x % 2 * 2 ^ bits + bitReversal bits (x / 2)

theorem bitReversal_succ_of_lt {bits x : ℕ} (hx : x < 2 ^ bits) :
    bitReversal (bits + 1) x = 2 * bitReversal bits x := by
  induction bits generalizing x with
  | zero => simp [bitReversal, show x = 0 by simpa using hx]
  | succ bits ih =>
      rw [bitReversal, ih (by rw [pow_succ] at hx; omega), bitReversal, pow_succ]
      ring

theorem toNat_bitrevLoop {bits : ℕ} {r x : UInt32} (hr : r.toNat * 2 ^ bits + 2 ^ bits ≤ 2 ^ 32) :
    (bitrevLoop bits r x).toNat = r.toNat * 2 ^ bits + bitReversal bits x.toNat := by
  induction bits generalizing r x with
  | zero => simp [bitrevLoop, bitReversal]
  | succ bits ih =>
      have hbit : (x &&& 1).toNat = x.toNat % 2 := by
        rw [UInt32.toNat_and, UInt32.toNat_one, Nat.and_one_is_mod]
      have hshift : (x >>> 1).toNat = x.toNat / 2 := by
        rw [UInt32.toNat_shiftRight, Nat.shiftRight_eq_div_pow]
        rfl
      have hpow : 0 < 2 ^ bits := Nat.two_pow_pos bits
      rw [pow_succ] at hr
      have hsmall : r.toNat * 2 < 2 ^ 32 := by nlinarith
      have hstep : ((r <<< 1) ||| (x &&& 1)).toNat = r.toNat * 2 + x.toNat % 2 := by
        have hleft : (r <<< 1).toNat = r.toNat <<< 1 := by
          rw [UInt32.toNat_shiftLeft, UInt32.toNat_one, Nat.shiftLeft_eq]
          exact Nat.mod_eq_of_lt (by simpa using hsmall)
        have hmod : x.toNat % 2 < 2 ^ 1 := Nat.mod_lt _ two_pos
        rw [UInt32.toNat_or, hleft, hbit, ← Nat.shiftLeft_add_eq_or_of_lt hmod, Nat.shiftLeft_eq,
          pow_one]
      rw [bitrevLoop, ih, hstep, hshift, bitReversal, pow_succ]
      · ring
      · rw [hstep]
        have := Nat.mod_lt x.toNat two_pos
        nlinarith

theorem toNat_bitrevU32 {i bits : ℕ} (hi : i < 2 ^ 32) (hbits : bits ≤ 32) :
    (bitrevU32 (UInt32.ofNat i) bits).toNat = bitReversal bits i := by
  have hpow : 2 ^ bits ≤ 2 ^ 32 := Nat.pow_le_pow_right two_pos hbits
  rw [bitrevU32, toNat_bitrevLoop (by simpa using hpow), UInt32.toNat_zero, zero_mul, zero_add,
    UInt32.toNat_ofNat_of_lt' hi]

def residue64 (x : UInt64) : ZMod 12289 := x.toNat

theorem modPow_mul {r b : UInt64} (hr : r.toNat < 12289) (hb : b.toNat < 12289) :
    (r * b % 12289).toNat < 12289 ∧ residue64 (r * b % 12289) = residue64 r * residue64 b := by
  have hsmall : r.toNat * b.toNat < 2 ^ 64 := by nlinarith
  have htoNat : (r * b % 12289).toNat = r.toNat * b.toNat % 12289 := by
    rw [UInt64.toNat_mod, UInt64.toNat_mul, Nat.mod_eq_of_lt hsmall]
    rfl
  constructor
  · rw [htoNat]
    exact Nat.mod_lt _ (by norm_num)
  · rw [residue64, htoNat, ZMod.natCast_mod, Nat.cast_mul, residue64, residue64]

theorem modPowLoop_spec (e : UInt32) {r b : UInt64} (hr : r.toNat < 12289)
    (hb : b.toNat < 12289) :
    (modPowLoop r b e).toNat < 12289 ∧
      residue64 (modPowLoop r b e) = residue64 r * residue64 b ^ e.toNat := by
  induction r, b, e using modPowLoop.induct with
  | case1 r b e hpos ih =>
      have hhalf : (e >>> 1).toNat = e.toNat / 2 := by
        rw [UInt32.toNat_shiftRight, Nat.shiftRight_eq_div_pow]
        rfl
      have hbit : (e &&& 1).toNat = e.toNat % 2 := by
        rw [UInt32.toNat_and, UInt32.toNat_one, Nat.and_one_is_mod]
      obtain ⟨hmul, hmulres⟩ := modPow_mul hr hb
      obtain ⟨hsq, hsqres⟩ := modPow_mul hb hb
      rw [modPowLoop, if_pos hpos]
      by_cases hodd : e &&& 1 ≠ 0
      · rw [dif_pos hodd] at ih
        rw [if_pos hodd]
        obtain ⟨hlt, hres⟩ := ih hmul hsq
        have hsplit : e.toNat = 2 * (e.toNat / 2) + 1 := by
          have hne : e.toNat % 2 ≠ 0 := by
            rw [← hbit]
            exact fun h => hodd (UInt32.toNat_inj.mp h)
          omega
        refine ⟨hlt, ?_⟩
        rw [hres, hmulres, hsqres, hhalf, hsplit, pow_succ, pow_mul, ← hsplit]
        ring
      · rw [dif_neg hodd] at ih
        rw [if_neg hodd]
        obtain ⟨hlt, hres⟩ := ih hr hsq
        have hsplit : e.toNat = 2 * (e.toNat / 2) := by
          rw [not_not] at hodd
          rw [hodd, UInt32.toNat_zero] at hbit
          omega
        refine ⟨hlt, ?_⟩
        rw [hres, hsqres, hhalf, ← pow_two, ← pow_mul, ← hsplit]
  | case2 r b e hpos =>
      have hzero : e.toNat = 0 := by omega
      rw [modPowLoop, if_neg hpos, hzero, pow_zero, mul_one]
      exact ⟨hr, rfl⟩

theorem modPowU32_spec {a : UInt32} (ha : Reduced a) (e : UInt32) :
    Reduced (modPowU32 a e) ∧ residue (modPowU32 a e) = residue a ^ e.toNat := by
  have hmod : (a % oofalconQ).toUInt64.toNat = a.toNat := by
    rw [UInt32.toNat_toUInt64, UInt32.toNat_mod]
    exact Nat.mod_eq_of_lt ha
  have hb : (a % oofalconQ).toUInt64.toNat < 12289 := hmod ▸ ha
  obtain ⟨hlt, hres⟩ := modPowLoop_spec e (r := 1) (by decide) hb
  have htoNat : (modPowU32 a e).toNat = (modPowLoop 1 (a % oofalconQ).toUInt64 e).toNat := by
    rw [modPowU32, UInt64.toNat_toUInt32]
    exact Nat.mod_eq_of_lt (by omega)
  constructor
  · rw [Reduced, htoNat]
    exact hlt
  · rw [residue, htoNat]
    refine hres.trans ?_
    rw [residue64, residue64, hmod, UInt64.toNat_one, Nat.cast_one, one_mul, residue]

/-- The entries of a table are reduced words in Montgomery form. -/
theorem nttTable_spec {g : UInt32} (hg : Reduced g) {i : ℕ} (hi : i < 1024) :
    Reduced (nttTable g i).toUInt32 ∧
      residue (nttTable g i).toUInt32 * montyInverse = residue g ^ bitReversal 10 i := by
  obtain ⟨hlt, hres⟩ := modPowU32_spec hg (bitrevU32 (UInt32.ofNat i) 10)
  rw [toNat_bitrevU32 (by omega) (by norm_num)] at hres
  generalize hv : modPowU32 g (bitrevU32 (UInt32.ofNat i) 10) = v at hlt hres
  have htoNat : (nttTable g i).toUInt32.toNat = v.toNat * 4091 % 12289 := by
    unfold Reduced at hlt
    have hmul : (v.toUInt64 * oofalconR.toUInt64).toNat = v.toNat * 4091 := by
      rw [UInt64.toNat_mul, UInt32.toNat_toUInt64, UInt32.toNat_toUInt64]
      exact Nat.mod_eq_of_lt (by rw [show oofalconR.toNat = 4091 by decide]; omega)
    have hmod : (v.toUInt64 * oofalconR.toUInt64 % 12289).toNat = v.toNat * 4091 % 12289 := by
      rw [UInt64.toNat_mod, hmul]
      rfl
    rw [nttTable, hv, UInt16.toNat_toUInt32, UInt64.toNat_toUInt16, hmod]
    omega
  constructor
  · rw [Reduced, htoNat]
    exact Nat.mod_lt _ (by norm_num)
  · have hone : (4091 : ZMod 12289) * montyInverse = 1 := by decide
    rw [residue_eq_of_mod htoNat, Nat.cast_mul, ← hres, residue, Nat.cast_ofNat, mul_assoc, hone,
      mul_one]

/-- The powers of 7 in the order of the table. -/
def twiddle (v : ℕ) : ZMod 12289 := 7 ^ bitReversal 10 v

/-- The powers of the inverse of 7 in the order of the table. -/
def twiddleInverse (v : ℕ) : ZMod 12289 := 8778 ^ bitReversal 10 v

theorem gmb_spec {i : ℕ} (hi : i < 1024) :
    Reduced (gmb i).toUInt32 ∧ residue (gmb i).toUInt32 * montyInverse = twiddle i :=
  nttTable_spec (by decide) hi

theorem igmb_spec {i : ℕ} (hi : i < 1024) :
    Reduced (igmb i).toUInt32 ∧ residue (igmb i).toUInt32 * montyInverse = twiddleInverse i :=
  nttTable_spec (by decide) hi

theorem seven_pow_1024 : (7 : ZMod 12289) ^ 1024 = -1 := by
  have hlow : (7 : ZMod 12289) ^ 32 = 7468 := by decide
  have hhigh : (7468 : ZMod 12289) ^ 32 = -1 := by decide
  rw [show 1024 = 32 * 32 by norm_num, pow_mul, hlow, hhigh]

/-- The reversal of a child is half of its parent's, with 512 more on the right. -/
theorem bitReversal_child {u : ℕ} (hu : u < 512) :
    2 * bitReversal 10 (2 * u) = bitReversal 10 u ∧
      2 * bitReversal 10 (2 * u + 1) = 1024 + bitReversal 10 u := by
  have hparent : bitReversal 10 u = 2 * bitReversal 9 u := bitReversal_succ_of_lt hu
  have hleft : bitReversal 10 (2 * u) = bitReversal 9 u := by
    rw [bitReversal, Nat.mul_mod_right, Nat.mul_div_cancel_left u two_pos]
    omega
  have hright : bitReversal 10 (2 * u + 1) = 512 + bitReversal 9 u := by
    rw [bitReversal, show (2 * u + 1) % 2 = 1 by omega, show (2 * u + 1) / 2 = u by omega]
    rfl
  omega

/-- The table splits all nodes that it has entries for. -/
theorem splittingTable_twiddle : SplittingTable twiddle 1024 := by
  intro v hv hlt
  rw [twiddle, ← pow_mul, mul_comm]
  obtain ⟨hleft, hright⟩ := bitReversal_child (u := v / 2) (by omega)
  by_cases hroot : v = 1
  · have hreversal : bitReversal 10 1 * 2 = 1024 := rfl
    rw [radix, if_pos hroot, hroot, mul_comm, hreversal, seven_pow_1024]
  · rw [radix, if_neg hroot]
    obtain hmod | hmod := Nat.mod_two_eq_zero_or_one v
    · have hchild : 2 * (v / 2) = v := by omega
      rw [hchild] at hleft
      rw [if_pos hmod, hleft, twiddle]
    · have hchild : 2 * (v / 2) + 1 = v := by omega
      rw [hchild] at hright
      rw [if_neg (by omega), hright, pow_add, seven_pow_1024, neg_one_mul, twiddle]

@[simp] theorem twiddle_mul_inverse (v : ℕ) : twiddle v * twiddleInverse v = 1 := by
  rw [twiddle, twiddleInverse, ← mul_pow, show (7 : ZMod 12289) * 8778 = 1 by decide, one_pow]

theorem nInvLoop_spec (logn : ℕ) {x : UInt32} (hx : Reduced x) :
    Reduced (nInvLoop (2 ^ logn) x) ∧
      2 ^ logn * residue (nInvLoop (2 ^ logn) x) = residue x := by
  induction logn generalizing x with
  | zero =>
      rw [pow_zero, nInvLoop, if_neg (by norm_num)]
      exact ⟨hx, by ring⟩
  | succ logn ih =>
      have hlarge : 1 < 2 ^ (logn + 1) := Nat.one_lt_two_pow (by omega)
      have hhalf : 2 ^ (logn + 1) / 2 = 2 ^ logn := by rw [pow_succ]; omega
      obtain ⟨hred, hres⟩ := ih (reduced_mqRshift1U32 hx)
      rw [nInvLoop, if_pos hlarge, hhalf]
      refine ⟨hred, ?_⟩
      rw [pow_succ', mul_assoc, hres, residue_mqRshift1U32 hx]

theorem nInv_spec (logn : ℕ) :
    Reduced (nInv logn) ∧ 2 ^ logn * (residue (nInv logn) * montyInverse) = 1 := by
  obtain ⟨hred, hres⟩ := nInvLoop_spec logn (x := oofalconR) (by decide)
  refine ⟨hred, ?_⟩
  rw [← mul_assoc, nInv, hres]
  decide

end Soko.Gpu
