import Mathlib
import Soko.Library.Keccak
import Soko.Shake.Stream

/-!
Both permutations of the program, the loops over tables of the device and the unrolled one of
the CPU, are Keccak-f for lanes of 64 bits, which `Library/Keccak.lean` defines bit by bit
(`bits_keccakf1600`). With bytes as groups of eight bits, lowest bit first, what is extracted on
either side is SHAKE over that permutation with blocks of 1088 bits (`shake256_bits`).
-/

namespace Soko.Shake

open Soko.Library

def bits (st : ℕ → UInt64) : Keccak.State 64 := fun x y z =>
  (st (x.val + 5 * y.val)).toBitVec.getLsbD z.val

theorem toNat_shift {n : ℕ} (hn : n < 64) : ((UInt64.ofNat n).toBitVec % 64).toNat = n := by
  have hnat : (UInt64.ofNat n).toNat = n := UInt64.toNat_ofNat_of_lt' (hn.trans (by decide))
  exact (congrArg (· % 64) hnat).trans (Nat.mod_eq_of_lt hn)

theorem bit_rotl64 (a : UInt64) {n : ℕ} (hn : n < 64) (z : Fin 64) :
    (rotl64 a (UInt64.ofNat n)).toBitVec.getLsbD z.val =
      a.toBitVec.getLsbD (z - Fin.ofNat 64 n).val := by
  have hplace : (z - Fin.ofNat 64 n).val = (64 - n + z.val) % 64 := by
    rw [Fin.val_sub, Fin.val_ofNat, Nat.mod_eq_of_lt hn]
  have hnat : (UInt64.ofNat n).toNat = n := UInt64.toNat_ofNat_of_lt' (hn.trans (by decide))
  have hright : ((UInt64.toBitVec 64 - (UInt64.ofNat n).toBitVec) % 64).toNat =
      (64 - n) % 64 := by
    have hsub : ((UInt64.toBitVec 64 - (UInt64.ofNat n).toBitVec) % 64).toNat =
        (2 ^ 64 - (UInt64.ofNat n).toNat + 64) % 2 ^ 64 % 64 := rfl
    omega
  simp only [rotl64, UInt64.toBitVec_or, UInt64.toBitVec_shiftLeft, UInt64.toBitVec_shiftRight,
    UInt64.toBitVec_sub, BitVec.getLsbD_or, BitVec.shiftLeft_eq', BitVec.ushiftRight_eq',
    BitVec.getLsbD_shiftLeft, BitVec.getLsbD_ushiftRight, toNat_shift hn, hright, hplace]
  obtain rfl | hpos := Nat.eq_zero_or_pos n
  · simp [Nat.mod_eq_of_lt z.isLt]
  · have hmod : (64 - n) % 64 = 64 - n := Nat.mod_eq_of_lt (by omega)
    by_cases hlow : z.val < n
    · have hwrap : (64 - n + z.val) % 64 = 64 - n + z.val := Nat.mod_eq_of_lt (by omega)
      simp [hlow, hmod, hwrap]
    · have hwrap : (64 - n + z.val) % 64 = z.val - n := by omega
      have hout : a.toBitVec.getLsbD (64 - n + z.val) = false :=
        BitVec.getLsbD_of_ge a.toBitVec _ (by omega)
      simp [hlow, hmod, hwrap, hout]

theorem bit_columnParity (st : ℕ → UInt64) (x : Fin 5) (z : Fin 64) :
    (columnParity st x.val).toBitVec.getLsbD z.val = Keccak.column (bits st) x z := by
  simp only [columnParity, UInt64.toBitVec_xor, BitVec.getLsbD_xor]
  rfl

theorem bits_thetaDevice (st : ℕ → UInt64) :
    bits (thetaDevice st) = Keccak.theta (bits st) := by
  funext x y z
  have hk : x.val + 5 * y.val < 25 := by omega
  have hcolumn : (x.val + 5 * y.val) % 5 = x.val := by omega
  have hbefore : (x.val + 4) % 5 = (x - 1).val := by
    rw [Fin.val_sub, Nat.add_comm]
    rfl
  have hafter : (x.val + 1) % 5 = (x + 1).val := (Fin.val_add x 1).symm
  have hrotated := bit_rotl64 (columnParity st (x + 1).val) (show 1 < 64 by decide) z
  rw [bit_columnParity] at hrotated
  simp only [bits, thetaDevice, if_pos hk, hcolumn, thetaTerm, hbefore, hafter,
    UInt64.toBitVec_xor, BitVec.getLsbD_xor, bit_columnParity]
  rw [← Bool.xor_assoc]
  exact congrArg _ hrotated

@[simp] theorem rotl64_zero (a : UInt64) : rotl64 a 0 = a := by
  apply UInt64.toBitVec_inj.mp
  ext i hi
  simp [rotl64]

/-- Which lane comes to a place, and how far it is rotated. -/
theorem rhoPiDevice_lane (st : ℕ → UInt64) (x y : Fin 5) :
    rhoPiDevice st (x.val + 5 * y.val) =
      rotl64 (st ((x + 3 * y).val + 5 * x.val))
        (UInt64.ofNat (Keccak.offset (x + 3 * y) x % 64)) := by
  rw [rhoPiDevice_eq]
  fin_cases x <;> fin_cases y
  · exact (rotl64_zero (st 0)).symm
  all_goals rfl

theorem bits_rhoPiDevice (st : ℕ → UInt64) :
    bits (rhoPiDevice st) = Keccak.pi (Keccak.rho (bits st)) := by
  funext x y z
  have hmod : Fin.ofNat 64 (Keccak.offset (x + 3 * y) x % 64) =
      Fin.ofNat 64 (Keccak.offset (x + 3 * y) x) := Fin.ext (Nat.mod_mod _ 64)
  simp only [bits, rhoPiDevice_lane, Keccak.pi, Keccak.rho]
  rw [bit_rotl64 _ (Nat.mod_lt _ (by decide)), hmod]

theorem bits_chiDevice (st : ℕ → UInt64) :
    bits (chiDevice st) = Keccak.chi (bits st) := by
  funext x y z
  have hk : x.val + 5 * y.val < 25 := by omega
  have hrow : (x.val + 5 * y.val) / 5 * 5 = 5 * y.val := by omega
  have hafter : (x.val + 5 * y.val + 1) % 5 = (x + 1).val := by
    have hval : (x + 1).val = (x.val + 1) % 5 := Fin.val_add x 1
    omega
  have hsecond : (x.val + 5 * y.val + 2) % 5 = (x + 2).val := by
    have hval : (x + 2).val = (x.val + 2) % 5 := Fin.val_add x 2
    omega
  simp only [bits, chiDevice, if_pos hk, hrow, hafter, hsecond, Keccak.chi, UInt64.toBitVec_xor,
    UInt64.toBitVec_and, UInt64.toBitVec_not, BitVec.getLsbD_xor, BitVec.getLsbD_and,
    BitVec.getLsbD_not, z.isLt, decide_true, Bool.true_and, Nat.add_comm (5 * y.val)]

theorem bits_keccakRoundDevice (rc : UInt64) (st : ℕ → UInt64) :
    bits (keccakRoundDevice rc st) =
      Keccak.iota (fun z => rc.toBitVec.getLsbD z.val)
        (Keccak.chi (Keccak.pi (Keccak.rho (Keccak.theta (bits st))))) := by
  rw [← bits_thetaDevice, ← bits_rhoPiDevice, ← bits_chiDevice]
  funext x y z
  simp only [bits, keccakRoundDevice, Keccak.iota]
  by_cases hlane : x = 0 ∧ y = 0
  · obtain ⟨rfl, rfl⟩ := hlane
    rw [if_pos ⟨rfl, rfl⟩]
    simp
  · rw [if_neg hlane]
    have hne : x.val + 5 * y.val ≠ 0 := by
      intro hzero
      exact hlane ⟨Fin.ext (by simp; omega), Fin.ext (by simp; omega)⟩
    rw [Function.update_of_ne hne]

theorem roundConstant_eq (i : ℕ) (hi : i < 24) (z : Fin 64) :
    (keccakfRndcDevice.getD i 0).toBitVec.getLsbD z.val = Keccak.roundConstant i z := by
  have hall : ∀ i : Fin 24, ∀ z : Fin 64, (keccakfRndcDevice.getD i.val 0).toBitVec.getLsbD z.val =
      Keccak.roundConstant i.val z := by decide +kernel
  exact hall ⟨i, hi⟩ z

theorem bits_rounds (n : ℕ) (hn : n ≤ 24) (st : ℕ → UInt64) :
    bits ((List.range n).foldl
      (fun st round => keccakRoundDevice (keccakfRndcDevice.getD round 0) st) st) =
      (List.range n).foldl (fun A i => Keccak.round i A) (bits st) := by
  induction n with
  | zero => rfl
  | succ n ih =>
      have hconstant : (fun z : Fin 64 => (keccakfRndcDevice.getD n 0).toBitVec.getLsbD z.val) =
          Keccak.roundConstant n := funext (roundConstant_eq n (by omega))
      rw [List.range_succ, List.foldl_append, List.foldl_append, ← ih (by omega)]
      simp only [List.foldl_cons, List.foldl_nil]
      rw [bits_keccakRoundDevice, hconstant]
      rfl

/-- The permutation of the device and that of the CPU are Keccak-f for lanes of 64 bits. -/
theorem bits_keccakf1600 (st : ℕ → UInt64) :
    bits (keccakf1600Device st) = Keccak.keccakF (bits st) ∧
      bits (processBlock st) = Keccak.keccakF (bits st) := by
  have hdevice : bits (keccakf1600Device st) = Keccak.keccakF (bits st) := bits_rounds 24 le_rfl st
  rw [processBlock_eq]
  exact ⟨hdevice, hdevice⟩

/-! The sponge over bytes is one over bits. -/

def bitsOfByte (byte : UInt8) : List Bool := (List.range 8).map byte.toBitVec.getLsbD

theorem getD_bitsOfByte (byte : UInt8) (i : ℕ) :
    (bitsOfByte byte).getD i false = byte.toBitVec.getLsbD i := by
  by_cases hi : i < 8
  · simp [bitsOfByte, hi]
  · rw [BitVec.getLsbD_of_ge byte.toBitVec i (by omega)]
    simp [bitsOfByte, hi]

theorem bit_byteWord (v : ℕ) (byte : UInt8) (z : Fin 64) :
    (byteWord v byte).toBitVec.getLsbD z.val =
      (decide (v % 8 * 8 ≤ z.val) && byte.toBitVec.getLsbD (z.val - v % 8 * 8)) := by
  have hplace := toNat_shift (show v % 8 * 8 < 64 by omega)
  simp only [byteWord, UInt64.toBitVec_shiftLeft, BitVec.shiftLeft_eq', hplace,
    BitVec.getLsbD_shiftLeft, UInt8.toBitVec_toUInt64, BitVec.getLsbD_setWidth]
  by_cases hle : v % 8 * 8 ≤ z.val
  · simp [hle, show z.val - v % 8 * 8 < 64 by omega]
  · simp [hle]

def bitSponge : Sponge (Keccak.State 64) Bool := Keccak.bitSponge 1088 (by decide)

theorem bits_xorByte (A : ℕ → UInt64) (v : ℕ) (byte : UInt8) :
    bits (xorByte A v byte) = bitSponge.addList (bits A) (8 * v) (bitsOfByte byte) := by
  funext x y z
  rw [bitSponge, Keccak.addList_bitSponge, getD_bitsOfByte]
  have hz := z.isLt
  by_cases hlane : x.val + 5 * y.val = v / 8
  · -- the byte goes into this lane, from bit `v % 8 * 8` on
    have hle : v % 8 * 8 ≤ z.val ↔ 8 * v ≤ Keccak.place x y z := by
      rw [Keccak.place]
      omega
    have hsub : z.val - v % 8 * 8 = Keccak.place x y z - 8 * v := by
      rw [Keccak.place]
      omega
    simp only [bits, xorByte, hlane, Function.update_self, UInt64.toBitVec_xor,
      BitVec.getLsbD_xor, bit_byteWord, hle, hsub]
  · have hout : (decide (8 * v ≤ Keccak.place x y z) &&
        byte.toBitVec.getLsbD (Keccak.place x y z - 8 * v)) = false := by
      by_cases hle : 8 * v ≤ Keccak.place x y z
      · have hge : 8 ≤ Keccak.place x y z - 8 * v := by
          rw [Keccak.place] at hle ⊢
          omega
        rw [BitVec.getLsbD_of_ge byte.toBitVec _ hge, Bool.and_false]
      · simp [hle]
    rw [hout, Bool.xor_false]
    simp only [bits, xorByte, Function.update_of_ne hlane]

theorem bitsOfByte_stateByte (A : ℕ → UInt64) {v : ℕ} (hv : v < 136) :
    bitsOfByte (stateByte A v) =
      (List.range 8).map fun i => bitSponge.read (bits A) (8 * v + i) := by
  refine List.map_congr_left fun i hmem => ?_
  have hi := List.mem_range.mp hmem
  have hlane : ((8 * v + i) / 64) % 5 + 5 * ((8 * v + i) / 64 / 5 % 5) = v / 8 := by omega
  have hbit : (8 * v + i) % 64 = v % 8 * 8 + i := by omega
  simp only [bitSponge, Keccak.bitSponge, bits, Fin.val_ofNat, hlane, hbit, stateByte]
  rw [UInt64.toBitVec_toUInt8]
  simp only [UInt64.toBitVec_shiftRight, BitVec.ushiftRight_eq', BitVec.getLsbD_setWidth,
    BitVec.getLsbD_ushiftRight, toNat_shift (show v % 8 * 8 < 64 by omega), hi, decide_true,
    Bool.true_and]

theorem refines_bitSponge : Sponge.Refines shakeSponge bitSponge bits bitsOfByte 8 where
  pos := by decide
  rate := rfl
  length byte := by simp [bitsOfByte]
  perm A := (bits_keccakf1600 A).2
  add A v byte _ := bits_xorByte A v byte
  read A _ hv := bitsOfByte_stateByte A hv

theorem padding_flatMap (len : ℕ) :
    (padding len).flatMap bitsOfByte = List.replicate 4 true ++ Keccak.pad 1088 (8 * len + 4) := by
  have hsuffix : bitsOfByte 0x1F = List.replicate 4 true ++ true :: List.replicate 3 false := by
    decide
  have hlast : bitsOfByte 0x80 = List.replicate 7 false ++ [true] := by decide
  have hzero : ∀ n, (List.replicate n 0).flatMap bitsOfByte = List.replicate (8 * n) false := by
    intro n
    have hbyte : bitsOfByte 0 = List.replicate 8 false := by decide
    induction n with
    | zero => rfl
    | succ n ih =>
        rw [List.replicate_succ, List.flatMap_cons, ih, hbyte, List.replicate_append_replicate,
          Nat.mul_succ, Nat.add_comm]
  rw [padding]
  split
  · rename_i hfull
    have hzeros : (1088 - (8 * len + 4 + 2) % 1088) % 1088 = 2 := by omega
    rw [Keccak.pad, hzeros]
    decide
  · rename_i hroom
    have hzeros : (1088 - (8 * len + 4 + 2) % 1088) % 1088 = 3 + 8 * (134 - len % 136) + 7 := by
      omega
    rw [Keccak.pad, hzeros, List.flatMap_append, List.flatMap_cons, hzero, hsuffix,
      List.flatMap_cons, List.flatMap_nil, hlast, List.append_nil, List.replicate_add,
      List.replicate_add]
    simp only [List.append_assoc, List.cons_append]

theorem shake256_flatMap (message : List UInt8) (len : ℕ) :
    (shake256 message len).flatMap bitsOfByte =
      Keccak.shake 64 1088 (by decide) (message.flatMap bitsOfByte) (8 * len) := by
  have hzero : bits (fun _ => 0) = fun _ _ _ => false := by
    funext x y z
    simp [bits]
  have hlen : (message.flatMap bitsOfByte ++ List.replicate 4 true).length =
      8 * message.length + 4 := by
    rw [List.length_append, refines_bitSponge.length_flatMap, List.length_replicate]
  rw [shake256, refines_bitSponge.outputs, refines_bitSponge.absorb, List.flatMap_append,
    padding_flatMap, hzero, ← List.append_assoc, ← hlen]
  rfl

/-- Both permutations are Keccak-f, and the pieces that `shake.c` extracts, and what the device
extracts, are SHAKE of what has been injected, bit by bit. -/
theorem shake256_bits :
    (∀ st : ℕ → UInt64, bits (processBlock st) = Keccak.keccakF (bits st) ∧
      bits (keccakf1600Device st) = Keccak.keccakF (bits st)) ∧
    (∀ (chunks : List (List UInt8)) (lens : List ℕ),
      let sc := iShake256Flip (chunks.foldl iShake256Inject iShake256Init)
      (extractPieces lens sc).flatten.flatMap bitsOfByte =
        Keccak.shake 64 1088 (by decide) (chunks.flatten.flatMap bitsOfByte) (8 * lens.sum)) ∧
    ∀ (nonce : ℕ → UInt8) (token len : ℕ),
      (extractBytes len
          (shake256DeviceAbsorbBenchInput shake256DeviceInit nonce token)).1.flatMap bitsOfByte =
        Keccak.shake 64 1088 (by decide)
          (((List.range 40).map nonce ++ fillMessage msgSize token).flatMap bitsOfByte)
          (8 * len) := by
  refine ⟨fun st => ⟨(bits_keccakf1600 st).2, (bits_keccakf1600 st).1⟩, ?_, ?_⟩
  · intro chunks lens
    rw [← shake256_flatMap]
    exact congrArg _ (flatten_extractPieces_flip chunks lens).1
  · intro nonce token len
    rw [← shake256_flatMap, extractBytes_benchInput]

end Soko.Shake
