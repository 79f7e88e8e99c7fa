import Mathlib.Data.UInt
import Soko.Gpu.Sampler

/-!
The inputs of the generators of `kernel_generate_samples_and_targets` are a
one-to-one function of seed and token. `splitmix64` is one-to-one because each of its
steps is: an addition, a multiplication by an odd constant, and a shifted xor.
-/

namespace Soko.Gpu

theorem xorShift_injective {shift : UInt64} (hpos : 0 < shift.toNat % 64) :
    Function.Injective fun z : UInt64 => z ^^^ (z >>> shift) := by
  intro x y hxy
  have hxor : x ^^^ (x >>> shift) = y ^^^ (y >>> shift) := hxy
  -- The difference of the two is its own shift, so that it has no bit.
  have hdiff : x ^^^ y = (x ^^^ y) >>> shift := by
    rw [UInt64.shiftRight_xor, ← UInt64.xor_left_inj (x >>> shift ^^^ y)]
    calc x ^^^ y ^^^ (x >>> shift ^^^ y)
        = x ^^^ x >>> shift ^^^ (y ^^^ y) := by ac_rfl
      _ = y ^^^ y >>> shift := by rw [UInt64.xor_self, UInt64.xor_zero, hxor]
      _ = (x >>> shift ^^^ x >>> shift) ^^^ (y ^^^ y >>> shift) := by
          rw [UInt64.xor_self, UInt64.zero_xor]
      _ = x >>> shift ^^^ y >>> shift ^^^ (x >>> shift ^^^ y) := by ac_rfl
  have hnat : (x ^^^ y).toNat = (x ^^^ y).toNat / 2 ^ (shift.toNat % 64) := by
    have h := congrArg UInt64.toNat hdiff
    rwa [UInt64.toNat_shiftRight, Nat.shiftRight_eq_div_pow] at h
  have hzero : (x ^^^ y).toNat = 0 := by
    by_contra hne
    have hlt := Nat.div_lt_self (Nat.pos_of_ne_zero hne) (Nat.one_lt_two_pow hpos.ne')
    omega
  exact UInt64.xor_eq_zero_iff.mp (UInt64.toNat_inj.mp hzero)

theorem splitmix64_injective : Function.Injective splitmix64 := by
  have hadd : Function.Injective fun x : UInt64 => x + 0x9E3779B97F4A7C15 :=
    add_left_injective _
  have hmul : Function.Injective fun x : UInt64 => x * 0xBF58476D1CE4E5B9 :=
    (IsUnit.of_mul_eq_one 0x96DE1B173F119089 (by decide)).mul_left_injective
  have hmul' : Function.Injective fun x : UInt64 => x * 0x94D049BB133111EB :=
    (IsUnit.of_mul_eq_one 0x319642B2D24D8EC3 (by decide)).mul_left_injective
  exact (xorShift_injective (by decide)).comp (hmul'.comp ((xorShift_injective (by decide)).comp
    (hmul.comp ((xorShift_injective (by decide)).comp hadd))))

/-- The lower half of a mix without its last term depends on the token only. -/
theorem toUInt32_tokenMix (seed : UInt32) (token : ℕ) :
    ((seed.toUInt64 <<< 32) ^^^
        (UInt64.ofNat (token + 1) * (0xD6E8FEB86659FD93 : UInt64))).toUInt32 =
      UInt32.ofNat (token + 1) * 0x6659FD93 := by
  have hshift : (seed.toUInt64 <<< 32).toUInt32 = 0 := by
    apply UInt32.toNat_inj.mp
    rw [UInt64.toNat_toUInt32, UInt64.toNat_shiftLeft]
    have hpow : (32 : UInt64).toNat % 64 = 32 := rfl
    rw [hpow, Nat.shiftLeft_eq, UInt32.toNat_zero]
    omega
  have hconst : (0xD6E8FEB86659FD93 : UInt64).toUInt32 = 0x6659FD93 := by decide
  rw [UInt64.toUInt32_xor, hshift, UInt64.toUInt32_mul, hconst, UInt64.toUInt32_ofNat',
    UInt32.zero_xor]

/-- The mix of a coefficient determines the token, by its lower half, and the seed. -/
theorem sampleMix_injective {seed seed' : UInt32} {token token' j : ℕ}
    (htoken : token < 2 ^ 31) (htoken' : token' < 2 ^ 31)
    (h : sampleMix seed token j = sampleMix seed' token' j) : seed = seed' ∧ token = token' := by
  have hxor : (seed.toUInt64 <<< 32) ^^^
        (UInt64.ofNat (token + 1) * (0xD6E8FEB86659FD93 : UInt64)) =
      (seed'.toUInt64 <<< 32) ^^^
        (UInt64.ofNat (token' + 1) * (0xD6E8FEB86659FD93 : UInt64)) :=
    (UInt64.xor_left_inj _).mp h
  have hlow := congrArg UInt64.toUInt32 hxor
  rw [toUInt32_tokenMix, toUInt32_tokenMix] at hlow
  have hword : UInt32.ofNat (token + 1) = UInt32.ofNat (token' + 1) :=
    (IsUnit.of_mul_eq_one 0x8B59A89B (by decide)).mul_left_injective hlow
  have hsame : token = token' := by
    have hsize : UInt32.size = 2 ^ 32 := rfl
    have hnat := congrArg UInt32.toNat hword
    rw [UInt32.toNat_ofNat_of_lt' (by omega), UInt32.toNat_ofNat_of_lt' (by omega)] at hnat
    omega
  subst token'
  have hhigh := congrArg UInt64.toNat ((UInt64.xor_left_inj _).mp hxor)
  have hpow : (32 : UInt64).toNat % 64 = 32 := rfl
  have hlt := seed.toNat_lt
  have hlt' := seed'.toNat_lt
  rw [UInt64.toNat_shiftLeft, UInt64.toNat_shiftLeft, hpow, Nat.shiftLeft_eq, Nat.shiftLeft_eq,
    UInt32.toNat_toUInt64, UInt32.toNat_toUInt64] at hhigh
  exact ⟨UInt32.toNat_inj.mp (by omega), rfl⟩

end Soko.Gpu
