import Soko.Gpu.Host
import Soko.Gpu.Presign

/-!
The addresses in the banks. The host computes the sizes of the banks as `size_t`, the
kernels compute the places in them as `int`, and the checks of the arguments admit every
positive number of tokens. The addressing is exact if and only if a bank has at most
`2 ^ 31` elements.
-/

namespace Soko.Gpu

/-- `(size_t)tokens * (size_t)n * sizeof(..)`, the size of a bank in bytes. -/
def bankBytes (tokens : Int32) (n size : ℕ) : UInt64 :=
  tokens.toInt64.toUInt64 * UInt64.ofNat n * UInt64.ofNat size

/-- The places that the kernels compute are those of the tokens and coefficients, the
accesses are inside banks with elements of one or two bytes, and they differ. -/
structure ExactAddressing (logn : ℕ) (tokens : Int32) : Prop where
  exact : ∀ token : ℕ, (token : ℤ) < tokens.toInt → ∀ j < 2 ^ logn,
    bankIndex token (2 ^ logn) j = token * 2 ^ logn + j
  inside : ∀ token : ℕ, (token : ℤ) < tokens.toInt → ∀ j < 2 ^ logn, ∀ size ∈ [1, 2],
    0 ≤ bankIndex token (2 ^ logn) j ∧
      bankIndex token (2 ^ logn) j * size + size ≤ (bankBytes tokens (2 ^ logn) size).toNat
  distinct : ∀ token token' : ℕ, (token : ℤ) < tokens.toInt → (token' : ℤ) < tokens.toInt →
    ∀ j < 2 ^ logn, ∀ j' < 2 ^ logn,
      bankIndex token (2 ^ logn) j = bankIndex token' (2 ^ logn) j' → token = token' ∧ j = j'

/-- The place of a coefficient, as a number of 32 bits with a sign. -/
theorem bankIndex_eq (token n j : ℕ) :
    bankIndex token n j = ((token * n + j : ℕ) : ℤ).bmod (2 ^ 32) := by
  rw [bankIndex, ← Int32.ofNat_mul, ← Int32.ofNat_add]
  exact Int32.toInt_ofNat

theorem bankIndex_eq_iff (token n j : ℕ) :
    bankIndex token n j = token * n + j ↔ token * n + j < 2 ^ 31 := by
  have hcast : (token * n + j : ℤ) = ((token * n + j : ℕ) : ℤ) := by push_cast; rfl
  rw [bankIndex_eq, hcast]
  constructor
  · intro heq
    have hhigh := Int.bmod_lt (x := ((token * n + j : ℕ) : ℤ)) (show 0 < 2 ^ 32 by decide)
    omega
  · intro hsmall
    exact Int.bmod_eq_of_le (by omega) (by omega)

/-- A place in a table with rows of `n` cells tells its row and its column. -/
theorem eq_of_place_eq {token token' n j j' : ℕ} (hj : j < n) (hj' : j' < n)
    (heq : token * n + j = token' * n + j') : token = token' ∧ j = j' := by
  have hrow : ∀ token j : ℕ, j < n → (token * n + j) / n = token := by
    intro token j hj
    rw [Nat.mul_comm, Nat.mul_add_div (Nat.zero_lt_of_lt hj), Nat.div_eq_of_lt hj, Nat.add_zero]
  have htoken : token = token' := by rw [← hrow token j hj, heq, hrow token' j' hj']
  subst htoken
  exact ⟨rfl, Nat.add_left_cancel heq⟩

theorem place_lt {token tokens n j : ℕ} (htoken : token < tokens) (hj : j < n) :
    token * n + j < tokens * n :=
  calc token * n + j < token * n + n := Nat.add_lt_add_left hj _
    _ = (token + 1) * n := (Nat.succ_mul token n).symm
    _ ≤ tokens * n := Nat.mul_le_mul_right n htoken

section Accepted

variable {logn : ℕ} {tokens : Int32} (hsizes : validSizes logn tokens.toInt = true)
include hsizes

theorem bankBytes_toNat {size : ℕ} (hsize : size ∈ [1, 2]) :
    (bankBytes tokens (2 ^ logn) size).toNat = tokens.toInt.toNat * 2 ^ logn * size := by
  obtain ⟨-, hlogn, hpos⟩ := of_decide_eq_true hsizes
  have hlt : tokens.toInt.toNat < 2 ^ 31 := tokens.toNatClampNeg_lt
  have hn : 2 ^ logn ≤ 2 ^ 10 := Nat.pow_le_pow_right two_pos hlogn
  have hsize' : size ≤ 2 := by
    rcases List.mem_cons.mp hsize with rfl | htwo
    · decide
    · exact (List.mem_singleton.mp htwo).le
  have htokens : tokens.toInt64.toUInt64.toNat = tokens.toInt.toNat := by
    have hnonneg : (0 : Int64) ≤ tokens.toInt64 := by
      rw [Int64.le_iff_toInt_le, Int32.toInt_toInt64]
      exact hpos.le
    rw [Int64.toNat_toUInt64_of_le hnonneg, Int32.toNatClampNeg_toInt64, Int32.toNat_toInt]
  have hwords : tokens.toInt.toNat * 2 ^ logn < 2 ^ 41 :=
    calc tokens.toInt.toNat * 2 ^ logn ≤ tokens.toInt.toNat * 2 ^ 10 := Nat.mul_le_mul_left _ hn
      _ < 2 ^ 41 := by omega
  have hbytes : tokens.toInt.toNat * 2 ^ logn * size < 2 ^ 42 :=
    calc tokens.toInt.toNat * 2 ^ logn * size ≤ tokens.toInt.toNat * 2 ^ logn * 2 :=
          Nat.mul_le_mul_left _ hsize'
      _ < 2 ^ 42 := by omega
  rw [bankBytes, UInt64.toNat_mul, UInt64.toNat_mul, htokens, UInt64.toNat_ofNat_of_lt' (by
    unfold UInt64.size; omega), UInt64.toNat_ofNat_of_lt' (by unfold UInt64.size; omega),
    Nat.mod_eq_of_lt (a := tokens.toInt.toNat * 2 ^ logn) (by omega), Nat.mod_eq_of_lt (by omega)]

/-- For sizes that the functions accept, the addressing of the banks is exact if and only
if a bank has at most `2 ^ 31` elements. -/
theorem exactAddressing_iff :
    ExactAddressing logn tokens ↔ tokens.toInt * 2 ^ logn ≤ 2 ^ 31 := by
  obtain ⟨-, -, hpos⟩ := of_decide_eq_true hsizes
  obtain ⟨count, hcount⟩ : ∃ count : ℕ, tokens.toInt = count :=
    ⟨_, (Int.toNat_of_nonneg hpos.le).symm⟩
  have hn := Nat.two_pow_pos logn
  have hfits : tokens.toInt * 2 ^ logn ≤ 2 ^ 31 ↔ count * 2 ^ logn ≤ 2 ^ 31 := by
    rw [hcount]
    exact_mod_cast Iff.rfl
  have hlast : (count - 1) * 2 ^ logn + (2 ^ logn - 1) + 1 = count * 2 ^ logn := by
    obtain ⟨m, rfl⟩ : ∃ m, count = m + 1 := ⟨count - 1, by omega⟩
    rw [Nat.add_sub_cancel, Nat.succ_mul]
    omega
  have hexact := fun token j => bankIndex_eq_iff token (2 ^ logn) j
  push_cast at hexact
  rw [hfits]
  constructor
  · intro h
    -- the last cell of the last token is the first to go wrong
    have hplace := (hexact _ _).mp (h.exact (count - 1) (by omega) (2 ^ logn - 1) (by omega))
    omega
  · intro hle
    have hplace : ∀ token : ℕ, (token : ℤ) < tokens.toInt → ∀ j < 2 ^ logn,
        bankIndex token (2 ^ logn) j = token * 2 ^ logn + j := by
      intro token htoken j hj
      have hlt := place_lt (show token < count by omega) hj
      exact (hexact token j).mpr (by omega)
    refine ⟨hplace, fun token htoken j hj size hsize => ?_,
      fun token token' htoken htoken' j hj j' hj' heq => ?_⟩
    · have hlt := place_lt (show token < count by omega) hj
      rw [hplace token htoken j hj, bankBytes_toNat hsizes hsize, hcount, Int.toNat_natCast]
      refine ⟨by positivity, ?_⟩
      have hmul : (token * 2 ^ logn + j + 1) * size ≤ count * 2 ^ logn * size :=
        Nat.mul_le_mul_right size hlt
      rw [Nat.succ_mul] at hmul
      exact_mod_cast hmul
    · rw [hplace token htoken j hj, hplace token' htoken' j' hj'] at heq
      exact eq_of_place_eq hj hj' (by exact_mod_cast heq)

end Accepted

/-- With two coefficients for each of `2 ^ 30 + 1` tokens, the last token has a negative
place. -/
theorem bankIndex_overflow :
    validSizes 1 (1073741825 : Int32).toInt = true ∧
      bankIndex 1073741824 (2 ^ 1) 0 = -2147483648 ∧ ¬ ExactAddressing 1 1073741825 := by
  have hplace : bankIndex 1073741824 (2 ^ 1) 0 = -2147483648 := by decide
  refine ⟨by decide, hplace, fun h => ?_⟩
  have hinside := h.inside 1073741824 (by decide) 0 (by decide) 1 (by decide)
  rw [hplace] at hinside
  exact absurd hinside.1 (by decide)

theorem exactAddressing_iff_thousandTokens :
    ExactAddressing 10 1000 ↔ (1000 : Int32).toInt * 2 ^ 10 ≤ 2 ^ 31 :=
  exactAddressing_iff (by decide)

end Soko.Gpu
