import Mathlib
import Soko.Library.Sponge

/-!
The Keccak-f permutations and the SHAKE functions over them, bit by bit. A state has five
times five lanes of `w` bits, with bit `z` of the lane in column `x` and row `y`. A round is the
composition of five steps, each of which says for one bit of its result which bits it depends on.
-/

namespace Soko.Library.Keccak

abbrev State (w : ℕ) := Fin 5 → Fin 5 → Fin w → Bool

variable {w : ℕ} [NeZero w]

def column (A : State w) (x : Fin 5) (z : Fin w) : Bool :=
  A x 0 z ^^ A x 1 z ^^ A x 2 z ^^ A x 3 z ^^ A x 4 z

/-- Each bit is added to the parities of two columns near it. -/
def theta (A : State w) : State w := fun x y z =>
  A x y z ^^ column A (x - 1) z ^^ column A (x + 1) (z - 1)

/-- The walk through all lanes but the one in the middle. -/
def walk : ℕ → Fin 5 × Fin 5
  | 0 => (1, 0)
  | t + 1 => ((walk t).2, 2 * (walk t).1 + 3 * (walk t).2)

/-- How far a lane is rotated: the triangular number of its place in the walk. -/
def offset (x y : Fin 5) : ℕ :=
  (((List.range 24).find? fun t => walk t == (x, y)).map fun t => (t + 1) * (t + 2) / 2).getD 0

def rho (A : State w) : State w := fun x y z => A x y (z - Fin.ofNat w (offset x y))

def pi (A : State w) : State w := fun x y => A (x + 3 * y) x

/-- The only step that is not linear. -/
def chi (A : State w) : State w := fun x y z =>
  A x y z ^^ (!A (x + 1) y z && A (x + 2) y z)

def iota (constant : Fin w → Bool) (A : State w) : State w := fun x y z =>
  if x = 0 ∧ y = 0 then A x y z ^^ constant z else A x y z

/-- The powers of `X` modulo `X ^ 8 + X ^ 6 + X ^ 5 + X ^ 4 + 1`, with coefficients modulo 2. -/
def powerOfX : ℕ → ℕ
  | 0 => 1
  | t + 1 => if (2 * powerOfX t).testBit 8 then 2 * powerOfX t ^^^ 0x171 else 2 * powerOfX t

/-- The constant of round `i` has bits at the places `2 ^ j - 1` only. -/
def roundConstant (i : ℕ) (z : Fin w) : Bool :=
  (List.range (Nat.log2 w + 1)).any fun j =>
    z.val + 1 == 2 ^ j && (powerOfX (j + 7 * i)).testBit 0

def round (i : ℕ) (A : State w) : State w := iota (roundConstant i) (chi (pi (rho (theta A))))

def keccakF (A : State w) : State w :=
  (List.range (12 + 2 * Nat.log2 w)).foldl (fun A i => round i A) A

def place (x y : Fin 5) (z : Fin w) : ℕ := w * (5 * y.val + x.val) + z.val

/-- The sponge that absorbs and returns bits, `rate` of them in a block. -/
def bitSponge (rate : ℕ) (hpos : 0 < rate) : Sponge (State w) Bool where
  rate
  rate_pos := hpos
  perm := keccakF
  add A p b := fun x y z => if place x y z = p then A x y z ^^ b else A x y z
  read A p := A (Fin.ofNat 5 (p / w)) (Fin.ofNat 5 (p / w / 5)) (Fin.ofNat w p)

theorem addList_bitSponge {rate : ℕ} (hpos : 0 < rate) (A : State w) (p : ℕ) (l : List Bool)
    (x y : Fin 5) (z : Fin w) :
    (bitSponge rate hpos).addList A p l x y z =
      (A x y z ^^ (decide (p ≤ place x y z) && l.getD (place x y z - p) false)) := by
  induction l generalizing A p with
  | nil => simp
  | cons b l ih =>
      rw [Sponge.addList, ih]
      simp only [bitSponge]
      obtain hlt | rfl | hgt := Nat.lt_trichotomy (place x y z) p
      · simp [hlt.ne, show ¬ p ≤ place x y z by omega, show ¬ p + 1 ≤ place x y z by omega]
      · simp
      · have hsub : place x y z - p = place x y z - (p + 1) + 1 := by omega
        simp [hgt.ne', hgt.le, show p + 1 ≤ place x y z by omega, hsub]

/-- The padding after `len` bits: ones at both ends, and as many zeros as fill the block. -/
def pad (rate len : ℕ) : List Bool :=
  true :: List.replicate ((rate - (len + 2) % rate) % rate) false ++ [true]

def shake (w : ℕ) [NeZero w] (rate : ℕ) (hpos : 0 < rate) (message : List Bool) (d : ℕ) :
    List Bool :=
  let input := message ++ List.replicate 4 true
  let A : State w := (bitSponge rate hpos).absorb (fun _ _ _ => false)
    (input ++ pad rate input.length)
  (List.range d).map ((bitSponge rate hpos).output A)

end Soko.Library.Keccak
