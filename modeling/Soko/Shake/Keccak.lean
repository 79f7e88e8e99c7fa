import Mathlib.Data.List.Range
import Mathlib.Logic.Function.Basic
import Mathlib.Tactic.IntervalCases

/-!
The Keccak permutation, twice. `keccakf1600Device` works on the 25 lanes with
tables and loops; `processBlock` is unrolled to two rounds an iteration, keeps
some lanes complemented, and leaves the lanes of the first round where the steps
ρ and π find them. The two compute the same permutation (`processBlock_eq`).
-/

namespace Soko.Shake

/-- `rotl64_device`, which `process_block` has inline. -/
def rotl64 (x n : UInt64) : UInt64 := (x <<< n) ||| (x >>> (64 - n))

/-! The permutation of the device. -/

def keccakfRndcDevice : List UInt64 :=
  [0x0000000000000001, 0x0000000000008082, 0x800000000000808a, 0x8000000080008000,
   0x000000000000808b, 0x0000000080000001, 0x8000000080008081, 0x8000000000008009,
   0x000000000000008a, 0x0000000000000088, 0x0000000080008009, 0x000000008000000a,
   0x000000008000808b, 0x800000000000008b, 0x8000000000008089, 0x8000000000008003,
   0x8000000000008002, 0x8000000000000080, 0x000000000000800a, 0x800000008000000a,
   0x8000000080008081, 0x8000000000008080, 0x0000000080000001, 0x8000000080008008]

def keccakfRotcDevice : List UInt64 :=
  [1, 3, 6, 10, 15, 21, 28, 36, 45, 55, 2, 14, 27, 41, 56, 8, 25, 43, 62, 18, 39, 61, 20, 44]

def keccakfPilnDevice : List ℕ :=
  [10, 7, 11, 17, 18, 3, 5, 16, 8, 21, 24, 4, 15, 23, 19, 13, 12, 2, 20, 14, 22, 9, 6, 1]

/-- `bc`. -/
def columnParity (st : ℕ → UInt64) (i : ℕ) : UInt64 :=
  st i ^^^ st (i + 5) ^^^ st (i + 10) ^^^ st (i + 15) ^^^ st (i + 20)

/-- The word that is added to column `i`. -/
def thetaTerm (st : ℕ → UInt64) (i : ℕ) : UInt64 :=
  columnParity st ((i + 4) % 5) ^^^ rotl64 (columnParity st ((i + 1) % 5)) 1

def thetaDevice (st : ℕ → UInt64) (k : ℕ) : UInt64 :=
  if k < 25 then st k ^^^ thetaTerm st (k % 5) else st k

/-- The loop along `keccakf_piln_device`, which carries the lane `t` it has taken
out of the state. -/
def rhoPiDevice (st : ℕ → UInt64) : ℕ → UInt64 :=
  ((List.range 24).foldl (fun (t, st) i =>
    let j := keccakfPilnDevice.getD i 0
    (st j, Function.update st j (rotl64 t (keccakfRotcDevice.getD i 0)))) (st 1, st)).2

def chiDevice (st : ℕ → UInt64) (k : ℕ) : UInt64 :=
  if k < 25 then
    let j := k / 5 * 5
    st k ^^^ (~~~st (j + (k + 1) % 5) &&& st (j + (k + 2) % 5))
  else st k

/-- A round of `keccakf1600_device`. -/
def keccakRoundDevice (rc : UInt64) (st : ℕ → UInt64) : ℕ → UInt64 :=
  let st := chiDevice (rhoPiDevice (thetaDevice st))
  Function.update st 0 (st 0 ^^^ rc)

def keccakf1600Device (st : ℕ → UInt64) : ℕ → UInt64 :=
  (List.range 24).foldl
    (fun st round => keccakRoundDevice (keccakfRndcDevice.getD round 0) st) st

/-! The permutation of the CPU. -/

def RC : List UInt64 :=
  [0x0000000000000001, 0x0000000000008082, 0x800000000000808A, 0x8000000080008000,
   0x000000000000808B, 0x0000000080000001, 0x8000000080008081, 0x8000000000008009,
   0x000000000000008A, 0x0000000000000088, 0x0000000080008009, 0x000000008000000A,
   0x000000008000808B, 0x800000000000008B, 0x8000000000008089, 0x8000000000008003,
   0x8000000000008002, 0x8000000000000080, 0x000000000000800A, 0x800000008000000A,
   0x8000000080008081, 0x8000000000008080, 0x0000000080000001, 0x8000000080008008]

/-- The block of assignments from `tt0 = ..` to `t0 = ..`, which `process_block`
has for each of the five columns. -/
def thetaWord (x0 x1 x2 x3 x4 y0 y1 y2 y3 y4 : UInt64) : UInt64 :=
  let tt0 := x0 ^^^ x1
  let tt1 := x2 ^^^ x3
  let tt0 := tt0 ^^^ (x4 ^^^ tt1)
  let tt0 := (tt0 <<< 1) ||| (tt0 >>> 63)
  let tt2 := y0 ^^^ y1
  let tt3 := y2 ^^^ y3
  let tt0 := tt0 ^^^ y4
  let tt2 := tt2 ^^^ tt3
  tt0 ^^^ tt2

def lanes (a0 a1 a2 a3 a4 a5 a6 a7 a8 a9 a10 a11 a12 a13 a14 a15 a16 a17 a18 a19 a20 a21 a22 a23
    a24 : UInt64) (A : ℕ → UInt64) : ℕ → UInt64
  | 0 => a0 | 1 => a1 | 2 => a2 | 3 => a3 | 4 => a4
  | 5 => a5 | 6 => a6 | 7 => a7 | 8 => a8 | 9 => a9
  | 10 => a10 | 11 => a11 | 12 => a12 | 13 => a13 | 14 => a14
  | 15 => a15 | 16 => a16 | 17 => a17 | 18 => a18 | 19 => a19
  | 20 => a20 | 21 => a21 | 22 => a22 | 23 => a23 | 24 => a24
  | i => A i

/-- The first round of an iteration of the loop of `process_block`. It leaves the
lanes in the places that `firstRoundPlace` says. -/
def processFirstRound (rc : UInt64) (A : ℕ → UInt64) : ℕ → UInt64 :=
  let a0 := A 0; let a1 := A 1; let a2 := A 2; let a3 := A 3; let a4 := A 4
  let a5 := A 5; let a6 := A 6; let a7 := A 7; let a8 := A 8; let a9 := A 9
  let a10 := A 10; let a11 := A 11; let a12 := A 12; let a13 := A 13; let a14 := A 14
  let a15 := A 15; let a16 := A 16; let a17 := A 17; let a18 := A 18; let a19 := A 19
  let a20 := A 20; let a21 := A 21; let a22 := A 22; let a23 := A 23; let a24 := A 24
  let t0 := thetaWord a1 a6 a11 a16 a21 a4 a9 a14 a19 a24
  let t1 := thetaWord a2 a7 a12 a17 a22 a0 a5 a10 a15 a20
  let t2 := thetaWord a3 a8 a13 a18 a23 a1 a6 a11 a16 a21
  let t3 := thetaWord a4 a9 a14 a19 a24 a2 a7 a12 a17 a22
  let t4 := thetaWord a0 a5 a10 a15 a20 a3 a8 a13 a18 a23
  let a0 := a0 ^^^ t0; let a5 := a5 ^^^ t0; let a10 := a10 ^^^ t0; let a15 := a15 ^^^ t0
  let a20 := a20 ^^^ t0
  let a1 := a1 ^^^ t1; let a6 := a6 ^^^ t1; let a11 := a11 ^^^ t1; let a16 := a16 ^^^ t1
  let a21 := a21 ^^^ t1
  let a2 := a2 ^^^ t2; let a7 := a7 ^^^ t2; let a12 := a12 ^^^ t2; let a17 := a17 ^^^ t2
  let a22 := a22 ^^^ t2
  let a3 := a3 ^^^ t3; let a8 := a8 ^^^ t3; let a13 := a13 ^^^ t3; let a18 := a18 ^^^ t3
  let a23 := a23 ^^^ t3
  let a4 := a4 ^^^ t4; let a9 := a9 ^^^ t4; let a14 := a14 ^^^ t4; let a19 := a19 ^^^ t4
  let a24 := a24 ^^^ t4
  let a5 := rotl64 a5 36; let a10 := rotl64 a10 3; let a15 := rotl64 a15 41
  let a20 := rotl64 a20 18; let a1 := rotl64 a1 1; let a6 := rotl64 a6 44
  let a11 := rotl64 a11 10; let a16 := rotl64 a16 45; let a21 := rotl64 a21 2
  let a2 := rotl64 a2 62; let a7 := rotl64 a7 6; let a12 := rotl64 a12 43
  let a17 := rotl64 a17 15; let a22 := rotl64 a22 61; let a3 := rotl64 a3 28
  let a8 := rotl64 a8 55; let a13 := rotl64 a13 25; let a18 := rotl64 a18 21
  let a23 := rotl64 a23 56; let a4 := rotl64 a4 27; let a9 := rotl64 a9 20
  let a14 := rotl64 a14 39; let a19 := rotl64 a19 8; let a24 := rotl64 a24 14
  let bnn := ~~~a12
  let c0 := a0 ^^^ (a6 ||| a12)
  let c1 := a6 ^^^ (bnn ||| a18)
  let c2 := a12 ^^^ (a18 &&& a24)
  let c3 := a18 ^^^ (a24 ||| a0)
  let c4 := a24 ^^^ (a0 &&& a6)
  let a0 := c0; let a6 := c1; let a12 := c2; let a18 := c3; let a24 := c4
  let bnn := ~~~a22
  let c0 := a3 ^^^ (a9 ||| a10)
  let c1 := a9 ^^^ (a10 &&& a16)
  let c2 := a10 ^^^ (a16 ||| bnn)
  let c3 := a16 ^^^ (a22 ||| a3)
  let c4 := a22 ^^^ (a3 &&& a9)
  let a3 := c0; let a9 := c1; let a10 := c2; let a16 := c3; let a22 := c4
  let bnn := ~~~a19
  let c0 := a1 ^^^ (a7 ||| a13)
  let c1 := a7 ^^^ (a13 &&& a19)
  let c2 := a13 ^^^ (bnn &&& a20)
  let c3 := bnn ^^^ (a20 ||| a1)
  let c4 := a20 ^^^ (a1 &&& a7)
  let a1 := c0; let a7 := c1; let a13 := c2; let a19 := c3; let a20 := c4
  let bnn := ~~~a17
  let c0 := a4 ^^^ (a5 &&& a11)
  let c1 := a5 ^^^ (a11 ||| a17)
  let c2 := a11 ^^^ (bnn ||| a23)
  let c3 := bnn ^^^ (a23 &&& a4)
  let c4 := a23 ^^^ (a4 ||| a5)
  let a4 := c0; let a5 := c1; let a11 := c2; let a17 := c3; let a23 := c4
  let bnn := ~~~a8
  let c0 := a2 ^^^ (bnn &&& a14)
  let c1 := bnn ^^^ (a14 ||| a15)
  let c2 := a14 ^^^ (a15 &&& a21)
  let c3 := a15 ^^^ (a21 ||| a2)
  let c4 := a21 ^^^ (a2 &&& a8)
  let a2 := c0; let a8 := c1; let a14 := c2; let a15 := c3; let a21 := c4
  let a0 := a0 ^^^ rc
  lanes a0 a1 a2 a3 a4 a5 a6 a7 a8 a9 a10 a11 a12 a13 a14 a15 a16 a17 a18 a19 a20 a21 a22 a23 a24 A

/-- The second round of an iteration of the loop of `process_block`, which also
puts the lanes back in order. -/
def processSecondRound (rc : UInt64) (A : ℕ → UInt64) : ℕ → UInt64 :=
  let a0 := A 0; let a1 := A 1; let a2 := A 2; let a3 := A 3; let a4 := A 4
  let a5 := A 5; let a6 := A 6; let a7 := A 7; let a8 := A 8; let a9 := A 9
  let a10 := A 10; let a11 := A 11; let a12 := A 12; let a13 := A 13; let a14 := A 14
  let a15 := A 15; let a16 := A 16; let a17 := A 17; let a18 := A 18; let a19 := A 19
  let a20 := A 20; let a21 := A 21; let a22 := A 22; let a23 := A 23; let a24 := A 24
  let t0 := thetaWord a6 a9 a7 a5 a8 a24 a22 a20 a23 a21
  let t1 := thetaWord a12 a10 a13 a11 a14 a0 a3 a1 a4 a2
  let t2 := thetaWord a18 a16 a19 a17 a15 a6 a9 a7 a5 a8
  let t3 := thetaWord a24 a22 a20 a23 a21 a12 a10 a13 a11 a14
  let t4 := thetaWord a0 a3 a1 a4 a2 a18 a16 a19 a17 a15
  let a0 := a0 ^^^ t0; let a3 := a3 ^^^ t0; let a1 := a1 ^^^ t0; let a4 := a4 ^^^ t0
  let a2 := a2 ^^^ t0
  let a6 := a6 ^^^ t1; let a9 := a9 ^^^ t1; let a7 := a7 ^^^ t1; let a5 := a5 ^^^ t1
  let a8 := a8 ^^^ t1
  let a12 := a12 ^^^ t2; let a10 := a10 ^^^ t2; let a13 := a13 ^^^ t2; let a11 := a11 ^^^ t2
  let a14 := a14 ^^^ t2
  let a18 := a18 ^^^ t3; let a16 := a16 ^^^ t3; let a19 := a19 ^^^ t3; let a17 := a17 ^^^ t3
  let a15 := a15 ^^^ t3
  let a24 := a24 ^^^ t4; let a22 := a22 ^^^ t4; let a20 := a20 ^^^ t4; let a23 := a23 ^^^ t4
  let a21 := a21 ^^^ t4
  let a3 := rotl64 a3 36; let a1 := rotl64 a1 3; let a4 := rotl64 a4 41; let a2 := rotl64 a2 18
  let a6 := rotl64 a6 1; let a9 := rotl64 a9 44; let a7 := rotl64 a7 10; let a5 := rotl64 a5 45
  let a8 := rotl64 a8 2; let a12 := rotl64 a12 62; let a10 := rotl64 a10 6
  let a13 := rotl64 a13 43; let a11 := rotl64 a11 15; let a14 := rotl64 a14 61
  let a18 := rotl64 a18 28; let a16 := rotl64 a16 55; let a19 := rotl64 a19 25
  let a17 := rotl64 a17 21; let a15 := rotl64 a15 56; let a24 := rotl64 a24 27
  let a22 := rotl64 a22 20; let a20 := rotl64 a20 39; let a23 := rotl64 a23 8
  let a21 := rotl64 a21 14
  let bnn := ~~~a13
  let c0 := a0 ^^^ (a9 ||| a13)
  let c1 := a9 ^^^ (bnn ||| a17)
  let c2 := a13 ^^^ (a17 &&& a21)
  let c3 := a17 ^^^ (a21 ||| a0)
  let c4 := a21 ^^^ (a0 &&& a9)
  let a0 := c0; let a9 := c1; let a13 := c2; let a17 := c3; let a21 := c4
  let bnn := ~~~a14
  let c0 := a18 ^^^ (a22 ||| a1)
  let c1 := a22 ^^^ (a1 &&& a5)
  let c2 := a1 ^^^ (a5 ||| bnn)
  let c3 := a5 ^^^ (a14 ||| a18)
  let c4 := a14 ^^^ (a18 &&& a22)
  let a18 := c0; let a22 := c1; let a1 := c2; let a5 := c3; let a14 := c4
  let bnn := ~~~a23
  let c0 := a6 ^^^ (a10 ||| a19)
  let c1 := a10 ^^^ (a19 &&& a23)
  let c2 := a19 ^^^ (bnn &&& a2)
  let c3 := bnn ^^^ (a2 ||| a6)
  let c4 := a2 ^^^ (a6 &&& a10)
  let a6 := c0; let a10 := c1; let a19 := c2; let a23 := c3; let a2 := c4
  let bnn := ~~~a11
  let c0 := a24 ^^^ (a3 &&& a7)
  let c1 := a3 ^^^ (a7 ||| a11)
  let c2 := a7 ^^^ (bnn ||| a15)
  let c3 := bnn ^^^ (a15 &&& a24)
  let c4 := a15 ^^^ (a24 ||| a3)
  let a24 := c0; let a3 := c1; let a7 := c2; let a11 := c3; let a15 := c4
  let bnn := ~~~a16
  let c0 := a12 ^^^ (bnn &&& a20)
  let c1 := bnn ^^^ (a20 ||| a4)
  let c2 := a20 ^^^ (a4 &&& a8)
  let c3 := a4 ^^^ (a8 ||| a12)
  let c4 := a8 ^^^ (a12 &&& a16)
  let a12 := c0; let a16 := c1; let a20 := c2; let a4 := c3; let a8 := c4
  let a0 := a0 ^^^ rc
  let t := a5; let a5 := a18; let a18 := a11; let a11 := a10; let a10 := a6; let a6 := a22
  let a22 := a20; let a20 := a12; let a12 := a19; let a19 := a15; let a15 := a24; let a24 := a8
  let a8 := t; let t := a1; let a1 := a9; let a9 := a14; let a14 := a2; let a2 := a13
  let a13 := a23; let a23 := a4; let a4 := a21; let a21 := a16; let a16 := a3; let a3 := a17
  let a17 := a7; let a7 := t
  lanes a0 a1 a2 a3 a4 a5 a6 a7 a8 a9 a10 a11 a12 a13 a14 a15 a16 a17 a18 a19 a20 a21 a22 a23 a24 A

/-- The inversion of some words at the beginning and at the end of `process_block`. -/
def invertWords (A : ℕ → UInt64) (i : ℕ) : UInt64 :=
  if i ∈ [1, 2, 8, 12, 17, 20] then ~~~A i else A i

def processBlock (A : ℕ → UInt64) : ℕ → UInt64 :=
  let A := invertWords A
  let A := (List.range 12).foldl (fun A j =>
    processSecondRound (RC.getD (2 * j + 1) 0) (processFirstRound (RC.getD (2 * j) 0) A)) A
  invertWords A

/-! The two permutations agree, round by round. -/

/-- Which lane the first round of an iteration leaves in place `i`. -/
def firstRoundPlace : ℕ → ℕ
  | 0 => 0 | 6 => 1 | 12 => 2 | 18 => 3 | 24 => 4
  | 3 => 5 | 9 => 6 | 10 => 7 | 16 => 8 | 22 => 9
  | 1 => 10 | 7 => 11 | 13 => 12 | 19 => 13 | 20 => 14
  | 4 => 15 | 5 => 16 | 11 => 17 | 17 => 18 | 23 => 19
  | 2 => 20 | 8 => 21 | 14 => 22 | 15 => 23 | 21 => 24
  | i => i

theorem rotl64_not (x n : UInt64) : rotl64 (~~~x) n = ~~~rotl64 x n := by
  apply UInt64.toBitVec_inj.mp
  obtain ⟨m, hm⟩ : ∃ m, m = (n.toBitVec % 64).toNat := ⟨_, rfl⟩
  have hleft : m = n.toNat % 64 := hm
  have hright : ((UInt64.toBitVec 64 - n.toBitVec) % 64).toNat = (64 - m) % 64 := by
    have hlt := n.toNat_lt
    have hsub : ((UInt64.toBitVec 64 - n.toBitVec) % 64).toNat =
        (2 ^ 64 - n.toNat + 64) % 2 ^ 64 % 64 := rfl
    omega
  ext i hi
  simp only [rotl64, UInt64.toBitVec_or, UInt64.toBitVec_shiftLeft, UInt64.toBitVec_not,
    UInt64.toBitVec_shiftRight, UInt64.toBitVec_sub, BitVec.getElem_or, BitVec.getElem_not,
    BitVec.shiftLeft_eq', BitVec.ushiftRight_eq', BitVec.getElem_shiftLeft,
    BitVec.getElem_ushiftRight, BitVec.getLsbD_not, ← hm, hright]
  have hlt : m < 64 := hleft ▸ Nat.mod_lt _ (by decide)
  obtain rfl | hpos := Nat.eq_zero_or_pos m
  · simp [hi]
  · have hmod : (64 - m) % 64 = 64 - m := Nat.mod_eq_of_lt (by omega)
    by_cases hlow : i < m
    · simp [hlow, hmod, show 64 - m + i < 64 by omega]
    · have hout : x.toBitVec.getLsbD (64 - m + i) = false :=
        BitVec.getLsbD_of_ge x.toBitVec (64 - m + i) (by omega)
      simp [hlow, hmod, hout, show ¬ 64 - m + i < 64 by omega]

theorem thetaWord_eq (x0 x1 x2 x3 x4 y0 y1 y2 y3 y4 : UInt64) :
    thetaWord x0 x1 x2 x3 x4 y0 y1 y2 y3 y4 =
      y0 ^^^ y1 ^^^ y2 ^^^ y3 ^^^ y4 ^^^ rotl64 (x0 ^^^ x1 ^^^ x2 ^^^ x3 ^^^ x4) 1 := by
  have hparity : x0 ^^^ x1 ^^^ (x4 ^^^ (x2 ^^^ x3)) = x0 ^^^ x1 ^^^ x2 ^^^ x3 ^^^ x4 := by
    ac_rfl
  have hword : thetaWord x0 x1 x2 x3 x4 y0 y1 y2 y3 y4 =
      rotl64 (x0 ^^^ x1 ^^^ (x4 ^^^ (x2 ^^^ x3))) 1 ^^^ y4 ^^^ (y0 ^^^ y1 ^^^ (y2 ^^^ y3)) := rfl
  rw [hword, hparity]
  ac_rfl

theorem or_eq_not_and (x y : UInt64) : x ||| y = ~~~(~~~x &&& ~~~y) := by
  apply UInt64.toBitVec_inj.mp
  ext i
  simp

theorem exists_add_of_not_lt {k : ℕ} (hk : ¬ k < 25) : ∃ j, k = j + 25 := ⟨k - 25, by omega⟩

theorem rhoPiDevice_eq (st : ℕ → UInt64) :
    rhoPiDevice st = lanes
      (st 0) (rotl64 (st 6) 44) (rotl64 (st 12) 43) (rotl64 (st 18) 21) (rotl64 (st 24) 14)
      (rotl64 (st 3) 28) (rotl64 (st 9) 20) (rotl64 (st 10) 3) (rotl64 (st 16) 45)
      (rotl64 (st 22) 61)
      (rotl64 (st 1) 1) (rotl64 (st 7) 6) (rotl64 (st 13) 25) (rotl64 (st 19) 8)
      (rotl64 (st 20) 18)
      (rotl64 (st 4) 27) (rotl64 (st 5) 36) (rotl64 (st 11) 10) (rotl64 (st 17) 15)
      (rotl64 (st 23) 56)
      (rotl64 (st 2) 62) (rotl64 (st 8) 55) (rotl64 (st 14) 39) (rotl64 (st 15) 41)
      (rotl64 (st 21) 2) st := by
  funext k
  by_cases hk : k < 25
  · interval_cases k <;> rfl
  · obtain ⟨j, rfl⟩ := exists_add_of_not_lt hk
    rfl

theorem invertWords_eq (A : ℕ → UInt64) :
    invertWords A = lanes (A 0) (~~~A 1) (~~~A 2) (A 3) (A 4) (A 5) (A 6) (A 7) (~~~A 8) (A 9)
      (A 10) (A 11) (~~~A 12) (A 13) (A 14) (A 15) (A 16) (~~~A 17) (A 18) (A 19) (~~~A 20)
      (A 21) (A 22) (A 23) (A 24) A := by
  funext k
  by_cases hk : k < 25
  · interval_cases k <;> rfl
  · obtain ⟨j, rfl⟩ := exists_add_of_not_lt hk
    rfl

theorem invertWords_invertWords (A : ℕ → UInt64) : invertWords (invertWords A) = A := by
  funext i
  simp only [invertWords]
  split
  · exact UInt64.not_not
  · rfl

theorem processFirstRound_eq (rc : UInt64) (st : ℕ → UInt64) :
    processFirstRound rc (invertWords st) =
      fun i => invertWords (keccakRoundDevice rc st) (firstRoundPlace i) := by
  rw [invertWords_eq st]
  -- Complements are moved outwards, and what remains are the words of the device.
  simp only [processFirstRound, lanes, thetaWord_eq, UInt64.not_xor, UInt64.xor_not,
    UInt64.not_not, rotl64_not, or_eq_not_and, keccakRoundDevice, rhoPiDevice_eq]
  funext k
  by_cases hk : k < 25
  · interval_cases k <;> rfl
  · obtain ⟨j, rfl⟩ := exists_add_of_not_lt hk
    rfl

theorem processSecondRound_eq (rc : UInt64) (st : ℕ → UInt64) :
    processSecondRound rc (fun i => invertWords st (firstRoundPlace i)) =
      invertWords (keccakRoundDevice rc st) := by
  rw [invertWords_eq st]
  simp only [processSecondRound, firstRoundPlace, lanes, thetaWord_eq, UInt64.not_xor,
    UInt64.xor_not, UInt64.not_not, rotl64_not, or_eq_not_and, keccakRoundDevice, rhoPiDevice_eq]
  funext k
  by_cases hk : k < 25
  · interval_cases k <;> rfl
  · obtain ⟨j, rfl⟩ := exists_add_of_not_lt hk
    rfl

theorem RC_eq : RC = keccakfRndcDevice := rfl

/-- After `k` iterations `process_block` has done `2 * k` rounds. -/
theorem processRounds_eq (k : ℕ) (st : ℕ → UInt64) :
    (List.range k).foldl (fun A j =>
      processSecondRound (RC.getD (2 * j + 1) 0) (processFirstRound (RC.getD (2 * j) 0) A))
      (invertWords st) =
    invertWords ((List.range (2 * k)).foldl
      (fun st round => keccakRoundDevice (keccakfRndcDevice.getD round 0) st) st) := by
  induction k with
  | zero => rfl
  | succ k ih =>
      rw [List.range_succ, List.foldl_append, ih, Nat.mul_succ, List.range_succ, List.range_succ,
        List.foldl_append, List.foldl_append]
      simp only [List.foldl_cons, List.foldl_nil, processFirstRound_eq, processSecondRound_eq,
        RC_eq]

theorem processBlock_eq (A : ℕ → UInt64) : processBlock A = keccakf1600Device A := by
  simp only [processBlock]
  rw [processRounds_eq, invertWords_invertWords]
  rfl

end Soko.Shake
