import Soko.FnDsa.PublicKey
import Soko.FnDsa.Verify

/-!
The functions of `submodules/FN-DSA/vrfy.c` that look for zeros of a signature in NTT
representation, and key recovery. `verify_raw` decides the norm equation for every
signature, and a key that `verify_recover` computes is the one with which it accepts.
-/

namespace Soko.FnDsa

open Soko.Library Soko.Gpu Finset Polynomial

attribute [local instance] fact_prime_q

/-- The loop that collects in the top bit of `r` whether an entry is 0. -/
def zeroFlag (n : ℕ) (tt : ℕ → UInt16) : UInt32 :=
  (List.range n).foldl (fun r u => r ||| ((tt u).toUInt32 - 1)) 0

def zeroCount (n : ℕ) (tt : ℕ → UInt16) : UInt32 :=
  (List.range n).foldl (fun r u => r + (((tt u).toUInt32 - 1) >>> 31)) 0

def isInvertible (s2 : ℕ → Int16) (logn : ℕ) (tmp : ℕ → UInt16) : Int32 :=
  let n := 2 ^ logn
  let tt := storeSmall n (fun u => (s2 u).toInt32) tmp
  let tt := mqNTT logn tt
  let r := zeroFlag n tt
  ((1 : UInt32) - (r >>> 31)).toInt32

def countNttzero (sig : ℕ → Int16) (logn : ℕ) (tmp : ℕ → UInt16) : Int32 :=
  let n := 2 ^ logn
  let s2 := storeSmall n (fun u => (sig u).toInt32) tmp
  let s2 := mqNTT logn s2
  (zeroCount n s2).toInt32

/-- The loop of `verify_recover` that writes `c0 - s1`. -/
def storeDifference (n : ℕ) (c0 : ℕ → UInt16) (s1 : ℕ → Int16) (h : ℕ → UInt16) : ℕ → UInt16 :=
  (List.range n).foldl (fun h u =>
    Function.update h u (mqSub (c0 u).toUInt32 (mqConvSmall (s1 u).toInt32)).toUInt16) h

/-- The loop of `verify_recover` that divides, also by 0. -/
def divideAll (n : ℕ) (tt h : ℕ → UInt16) : ℕ → UInt16 :=
  (List.range n).foldl (fun h u =>
    Function.update h u (mqDiv12289 (h u).toUInt32 (tt u).toUInt32).toUInt16) h

/-- `verify_recover`, which returns the acceptance and the key. The loop that fills `tt`
and `h` is two loops here, and so is the one that computes `r` and `h`. -/
def verifyRecover (l2bound : ℕ → UInt32) (h c0 : ℕ → UInt16) (s1 s2 : ℕ → Int16) (logn : ℕ)
    (tmp : ℕ → UInt16) : Int32 × (ℕ → UInt16) :=
  let n := 2 ^ logn
  let tt := storeSmall n (fun u => (s2 u).toInt32) tmp
  let h := storeDifference n c0 s1 h
  let tt := mqNTT logn tt
  let h := mqNTT logn h
  let r := zeroFlag n tt
  let h := divideAll n tt h
  let h := mqINTT logn h
  let r := ~~~r &&& UInt32.ofInt (-isShort l2bound s1 s2 logn)
  ((r >>> 31).toInt32, h)

section Zeros

variable {logn n : ℕ} {tt : ℕ → UInt16} {s2 : ℕ → Int16}

theorem toNat_shiftRight_31 (r : UInt32) :
    (r >>> 31).toNat = if 2 ^ 31 ≤ r.toNat then 1 else 0 := by
  have hshift : (r >>> 31).toNat = r.toNat / 2 ^ 31 := by
    simp [UInt32.toNat_shiftRight, Nat.shiftRight_eq_div_pow]
  have hlt := r.toNat_lt
  rw [hshift]
  split <;> omega

theorem two_pow_31_le_sub_one {x : UInt16} (hx : Reduced x.toUInt32) :
    2 ^ 31 ≤ (x.toUInt32 - 1).toNat ↔ x = 0 := by
  unfold Reduced at hx
  rw [← UInt16.toNat_inj, ← UInt16.toNat_toUInt32, UInt32.toNat_sub]
  simp only [UInt32.reduceToNat, UInt16.reduceToNat]
  omega

theorem two_pow_31_le_foldl_or (f : ℕ → UInt32) (l : List ℕ) (r : UInt32) :
    2 ^ 31 ≤ (l.foldl (fun r u => r ||| f u) r).toNat ↔
      2 ^ 31 ≤ r.toNat ∨ ∃ u ∈ l, 2 ^ 31 ≤ (f u).toNat := by
  induction l generalizing r with
  | nil => simp
  | cons u l ih =>
      rw [List.foldl_cons, ih, two_pow_31_le_or, or_assoc]
      simp

theorem zeroFlag_spec (htt : ReducedBelow16 n tt) :
    2 ^ 31 ≤ (zeroFlag n tt).toNat ↔ ∃ l < n, tt l = 0 := by
  rw [zeroFlag, two_pow_31_le_foldl_or]
  constructor
  · rintro (hzero | ⟨l, hl, htop⟩)
    · exact absurd hzero (by decide)
    · have hl := List.mem_range.mp hl
      exact ⟨l, hl, (two_pow_31_le_sub_one (htt l hl)).mp htop⟩
  · rintro ⟨l, hl, hzero⟩
    exact .inr ⟨l, List.mem_range.mpr hl, (two_pow_31_le_sub_one (htt l hl)).mpr hzero⟩

/-- The flag of a small polynomial is set if and only if it is not a unit. -/
theorem zeroFlag_small (hlogn : logn ≤ 10) {x : ℕ → Int32} (hx : Small (2 ^ logn) x)
    (a : ℕ → UInt16) :
    2 ^ 31 ≤ (zeroFlag (2 ^ logn) (mqNTT logn (storeSmall (2 ^ logn) x a))).toNat ↔
      ¬IsUnit (signedElement (2 ^ logn) fun j => (x j).toInt) := by
  obtain ⟨hred, hleaf⟩ := mqNTT_storeSmall hlogn hx a
  rw [zeroFlag_spec hred, signedElement, isUnit_ringElement_iff hlogn]
  push Not
  refine exists_congr fun l => and_congr_right fun hl => ?_
  rw [← residue16_eq_zero_iff (hred l hl), hleaf l hl]

theorem zeroCount_spec (htt : ReducedBelow16 n tt) (hn : n < 2 ^ 32) :
    (zeroCount n tt).toNat = #{l ∈ range n | tt l = 0} := by
  induction n with
  | zero => rfl
  | succ n ih =>
      have hn' := ih (fun j hj => htt j (by omega)) (by omega)
      have hcard : #{l ∈ range n | tt l = 0} ≤ n :=
        (Finset.card_filter_le _ _).trans_eq (card_range n)
      have hstep : (((tt n).toUInt32 - 1) >>> 31).toNat = if tt n = 0 then 1 else 0 := by
        rw [toNat_shiftRight_31]
        exact if_congr (two_pow_31_le_sub_one (htt n (by omega))) rfl rfl
      rw [zeroCount, List.range_succ, List.foldl_concat, ← zeroCount, UInt32.toNat_add, hn', hstep,
        range_add_one, filter_insert]
      split
      · rw [card_insert_of_notMem (by simp), Nat.mod_eq_of_lt (by omega)]
      · rw [add_zero, Nat.mod_eq_of_lt (by omega)]

theorem small_int16 (hs2 : ∀ j < n, |(s2 j).toInt| < 12289) : Small n fun u => (s2 u).toInt32 := by
  intro j hj
  rw [Int16.toInt_toInt32]
  exact hs2 j hj

/-- The zeros in NTT representation are the common roots with `X ^ n + 1`. -/
theorem card_zeros_small (hlogn : logn ≤ 10) {x : ℕ → Int32} (hx : Small (2 ^ logn) x)
    (a : ℕ → UInt16) :
    #{l ∈ range (2 ^ logn) | mqNTT logn (storeSmall (2 ^ logn) x a) l = 0} =
      #{ζ ∈ (X ^ 2 ^ logn + 1 : (ZMod 12289)[X]).roots.toFinset |
        (polyOf (2 ^ logn) fun j => ((x j).toInt : ZMod 12289)).IsRoot ζ} := by
  obtain ⟨hred, hleaf⟩ := mqNTT_storeSmall hlogn hx a
  rw [← (transformTables hlogn).card_zeros]
  refine congrArg card (filter_congr fun l hl => ?_)
  have hl := mem_range.mp hl
  rw [← residue16_eq_zero_iff (hred l hl), hleaf l hl]

theorem toInt_toInt32 {x : UInt32} (hx : x.toNat < 2 ^ 31) : x.toInt32.toInt = x.toNat := by
  have hcond := BitVec.toInt_eq_toNat_cond x.toBitVec
  rw [if_pos (by show 2 * x.toNat < _; omega)] at hcond
  exact hcond

theorem zeroFlag_int16 (hlogn : logn ≤ 10) (hs2 : ∀ j < 2 ^ logn, |(s2 j).toInt| < 12289)
    (a : ℕ → UInt16) :
    2 ^ 31 ≤ (zeroFlag (2 ^ logn)
      (mqNTT logn (storeSmall (2 ^ logn) (fun u => (s2 u).toInt32) a))).toNat ↔
        ¬IsUnit (signedElement (2 ^ logn) fun j => (s2 j).toInt) := by
  rw [zeroFlag_small hlogn (small_int16 hs2) a]
  simp only [Int16.toInt_toInt32]

theorem isInvertible_of_isUnit (hlogn : logn ≤ 10) (hs2 : ∀ j < 2 ^ logn, |(s2 j).toInt| < 12289)
    (hunit : IsUnit (signedElement (2 ^ logn) fun j => (s2 j).toInt)) (tmp : ℕ → UInt16) :
    isInvertible s2 logn tmp = 1 := by
  have hshift := toNat_shiftRight_31 (zeroFlag (2 ^ logn)
    (mqNTT logn (storeSmall (2 ^ logn) (fun u => (s2 u).toInt32) tmp)))
  rw [if_neg (mt (zeroFlag_int16 hlogn hs2 tmp).mp (not_not.mpr hunit))] at hshift
  rw [isInvertible, UInt32.toNat_inj.mp (hshift.trans UInt32.toNat_zero.symm)]
  rfl

theorem isInvertible_of_not_isUnit (hlogn : logn ≤ 10)
    (hs2 : ∀ j < 2 ^ logn, |(s2 j).toInt| < 12289)
    (hnot : ¬IsUnit (signedElement (2 ^ logn) fun j => (s2 j).toInt)) (tmp : ℕ → UInt16) :
    isInvertible s2 logn tmp = 0 := by
  have hshift := toNat_shiftRight_31 (zeroFlag (2 ^ logn)
    (mqNTT logn (storeSmall (2 ^ logn) (fun u => (s2 u).toInt32) tmp)))
  rw [if_pos ((zeroFlag_int16 hlogn hs2 tmp).mpr hnot)] at hshift
  rw [isInvertible, UInt32.toNat_inj.mp (hshift.trans UInt32.toNat_one.symm)]
  rfl

/-- `count_nttzero` counts the roots that the signature has in common with `X ^ n + 1`, and
`is_invertible` says whether there are none, that is, whether the signature is a unit. -/
theorem countNttzero_spec (hlogn : logn ≤ 10) (hs2 : ∀ j < 2 ^ logn, |(s2 j).toInt| < 12289)
    (tmp tmp' : ℕ → UInt16) :
    ((countNttzero s2 logn tmp).toInt =
      #{ζ ∈ (X ^ 2 ^ logn + 1 : (ZMod 12289)[X]).roots.toFinset |
        (polyOf (2 ^ logn) fun j => ((s2 j).toInt : ZMod 12289)).IsRoot ζ}) ∧
    (IsUnit (signedElement (2 ^ logn) fun j => (s2 j).toInt) ↔ countNttzero s2 logn tmp = 0) ∧
    (isInvertible s2 logn tmp' = if countNttzero s2 logn tmp = 0 then 1 else 0) := by
  have hsize := two_pow_le_1024 hlogn
  have hsmall := small_int16 hs2
  obtain ⟨hred, -⟩ := mqNTT_storeSmall hlogn hsmall tmp
  have hcard := zeroCount_spec hred (by omega)
  have hle := (Finset.card_filter_le (range (2 ^ logn)) fun l =>
    mqNTT logn (storeSmall (2 ^ logn) (fun u => (s2 u).toInt32) tmp) l = 0).trans_eq
      (card_range (2 ^ logn))
  have hint : (countNttzero s2 logn tmp).toInt = #{l ∈ range (2 ^ logn) |
      mqNTT logn (storeSmall (2 ^ logn) (fun u => (s2 u).toInt32) tmp) l = 0} := by
    rw [← hcard] at hle ⊢
    exact toInt_toInt32 (by omega)
  have hunit : IsUnit (signedElement (2 ^ logn) fun j => (s2 j).toInt) ↔
      countNttzero s2 logn tmp = 0 := by
    rw [← Int32.toInt_inj, hint, Int32.toInt_zero, Nat.cast_eq_zero, card_eq_zero,
      filter_eq_empty_iff, ← not_not (a := IsUnit _), ← zeroFlag_int16 hlogn hs2 tmp,
      zeroFlag_spec hred]
    simp
  refine ⟨?_, hunit, ?_⟩
  · rw [hint, card_zeros_small hlogn hsmall]
    simp only [Int16.toInt_toInt32]
  · by_cases hzero : countNttzero s2 logn tmp = 0
    · rw [if_pos hzero, isInvertible_of_isUnit hlogn hs2 (hunit.mpr hzero)]
    · rw [if_neg hzero, isInvertible_of_not_isUnit hlogn hs2 (mt hunit.mp hzero)]

/-- `compute_public` succeeds if and only if `f` is a unit, and then it computes the
`h` with `f * h = g`. `is_invertible` takes the same decision about `f`. -/
theorem computePublic_spec (hlogn : logn ≤ 10) (h : ℕ → UInt16) (f g : ℕ → Int8)
    (tmp tmp' : ℕ → UInt16) :
    (computePublic h f g logn tmp = none ↔
      ¬IsUnit (signedElement (2 ^ logn) fun j => (f j).toInt)) ∧
    (∀ h', computePublic h f g logn tmp = some h' → ReducedBelow16 (2 ^ logn) h' ∧
      signedElement (2 ^ logn) (fun j => (f j).toInt) *
        ringElement (2 ^ logn) (fun j => residue16 (h' j)) =
      signedElement (2 ^ logn) fun j => (g j).toInt) ∧
    (isInvertible (fun j => (f j).toInt16) logn tmp' =
      if (computePublic h f g logn tmp).isSome then 1 else 0) := by
  have hnone := computePublic_eq_none_iff hlogn h f g tmp
  have hwiden : (fun j => (f j).toInt16.toInt) = fun j => (f j).toInt := by
    funext j
    exact Int8.toInt_toInt16 (f j)
  have hsmall : ∀ j < 2 ^ logn, |(f j).toInt16.toInt| < 12289 := by
    intro j hj
    have hf := small_int8 (2 ^ logn) f j hj
    rwa [Int8.toInt_toInt32, ← Int8.toInt_toInt16] at hf
  refine ⟨hnone, fun _ hh' => computePublic_quotient hlogn hh', ?_⟩
  by_cases hunit : IsUnit (signedElement (2 ^ logn) fun j => (f j).toInt)
  · rw [if_pos (Option.isSome_iff_ne_none.mpr fun h => hnone.mp h hunit)]
    exact isInvertible_of_isUnit hlogn hsmall (hwiden ▸ hunit) tmp'
  · rw [hnone.mpr hunit, if_neg (by simp)]
    exact isInvertible_of_not_isUnit hlogn hsmall (hwiden ▸ hunit) tmp'

theorem computePublic_spec_sampleF :
    computePublic (fun _ => 0) sampleF sampleG 1 (fun _ => 0) ≠ none ∧
      isInvertible (fun j => (sampleF j).toInt16) 1 (fun _ => 0) = 1 := by
  have hspec := computePublic_spec (show 1 ≤ 10 by decide) (fun _ => 0) sampleF sampleG
    (fun _ => 0) fun _ => 0
  have hsome : computePublic (fun _ => 0) sampleF sampleG 1 (fun _ => 0) ≠ none := fun hnone =>
    hspec.1.mp hnone isUnit_sampleF
  exact ⟨hsome, hspec.2.2.trans (if_pos (Option.isSome_iff_ne_none.mpr hsome))⟩

end Zeros

section VerifyRaw

variable {logn : ℕ} {h c0 : ℕ → UInt16} {s1 s2 : ℕ → Int16}

theorem l2bound_lt (hlogn : logn ≤ 10) : (l2bound logn).toNat < 12289 ^ 2 := by
  have hall : ∀ logn < 11, (l2bound logn).toNat < 12289 ^ 2 := by decide
  exact hall logn (by omega)

theorem lt_of_squaredNorm_le (hlogn : logn ≤ 10) {x y : ℕ → ℤ}
    (hnorm : squaredNorm (2 ^ logn) x y ≤ (l2bound logn).toNat) {j : ℕ} (hj : j < 2 ^ logn) :
    |x j| < 12289 ∧ |y j| < 12289 := by
  have hbound := l2bound_lt hlogn
  have hterm : x j ^ 2 + y j ^ 2 ≤ squaredNorm (2 ^ logn) x y :=
    single_le_sum (f := fun j => x j ^ 2 + y j ^ 2) (fun i _ => by positivity) (mem_range.mpr hj)
  have hx := sq_nonneg (x j)
  have hy := sq_nonneg (y j)
  constructor
  · apply lt_of_pow_lt_pow_left₀ 2 (by norm_num)
    rw [sq_abs]
    omega
  · apply lt_of_pow_lt_pow_left₀ 2 (by norm_num)
    rw [sq_abs]
    omega

/-- `tt` of `verify_raw` before the normalization. -/
def difference (c0 : ℕ → UInt16) (s2 : ℕ → Int16) (h : ℕ → UInt16) (logn : ℕ)
    (tmp : ℕ → UInt16) : ℕ → UInt16 :=
  mqPolySub logn (mqINTT logn (mqPolyMontymulNtt logn
    (mqNTT logn (storeSmall (2 ^ logn) (fun u => (s2 u).toInt32) tmp)) h)) c0

theorem difference_spec (hlogn : logn ≤ 10) (hh : ReducedBelow16 (2 ^ logn) h)
    (hc0 : ReducedBelow16 (2 ^ logn) c0) (hs2 : ∀ j < 2 ^ logn, |(s2 j).toInt| < 12289)
    (tmp : ℕ → UInt16) {j : ℕ} (hj : j < 2 ^ logn) :
    Reduced (difference c0 s2 (toNttMonty logn h) logn tmp j).toUInt32 ∧
      residue16 (difference c0 s2 (toNttMonty logn h) logn tmp j) =
        negacyclicMul (2 ^ logn) (fun j => ((s2 j).toInt : ZMod 12289))
          (fun j => residue16 (h j)) j - residue16 (c0 j) := by
  obtain ⟨hred, hleaf⟩ := mqNTT_storeSmall hlogn (small_int16 hs2) tmp
  obtain ⟨hkey, hkeyleaf⟩ := toNttMonty_spec hlogn hh
  obtain ⟨hprod, hprodleaf⟩ := mqPolyMontymulNtt_spec hred (toNttMonty logn h)
  simp only [Int16.toInt_toInt32] at hleaf
  obtain ⟨hinv, hcoeff⟩ := mqINTT_spec hlogn hprod fun l hl => by
    rw [hprodleaf l hl, hleaf l hl, mul_assoc, hkeyleaf l hl,
      ← (transformTables hlogn).forward_negacyclicMul _ _ hl]
  have hsub := reduced_mqSubU32 (hinv j hj) (hc0 j hj)
  rw [difference, mqPolySub_apply hj, residue16, mqSub, toUInt32_toUInt16 hsub]
  refine ⟨hsub, ?_⟩
  rw [residue_mqSubU32 (hinv j hj) (hc0 j hj)]
  exact congrArg (· - _) (hcoeff j hj)

theorem normVector_difference (hlogn : logn ≤ 10) (hh : ReducedBelow16 (2 ^ logn) h)
    (hc0 : ReducedBelow16 (2 ^ logn) c0) (hs2 : ∀ j < 2 ^ logn, |(s2 j).toInt| < 12289)
    (tmp : ℕ → UInt16) :
    NormVector (2 ^ logn) (fun j => residue16 (h j)) (fun j => residue16 (c0 j))
      (fun j => (s2 j).toInt)
      fun j => (normalizeWord (difference c0 s2 (toNttMonty logn h) logn tmp j)).toInt := by
  have hspec := fun j hj => difference_spec hlogn hh hc0 hs2 tmp (j := j) hj
  have hcentred := fun j hj => centredWord_spec (hspec j hj).1
  have hword := fun j hj => toInt_normalizeWord (hspec j hj).1 rfl
  refine ⟨fun j hj => ?_, ?_⟩
  · rw [hword j hj]
    exact (hcentred j hj).1
  · rw [← ringElement_negacyclicMul (Nat.two_pow_pos logn), ← ringElement_sub]
    refine ringElement_congr fun j hj => ?_
    rw [hword j hj, (hcentred j hj).2]
    exact (hspec j hj).2

/-- The polynomial 1 solves the equation with `s1 = 0`, if the key is the hashed point. -/
theorem normVector_one {n : ℕ} (hn : 0 < n) (h : ℕ → ZMod 12289) {s2 : ℕ → ℤ}
    (hs2 : ∀ j < n, s2 j = if j = 0 then 1 else 0) : NormVector n h h s2 fun _ => 0 := by
  have hone : ringElement n (fun j => (s2 j : ZMod 12289)) = 1 := by
    rw [ringElement_congr fun j hj => (congrArg Int.cast (hs2 j hj)).trans (by
      split <;> simp : _ = if j = 0 then (1 : ZMod 12289) else 0)]
    exact mk_polyOf_one hn
  refine ⟨fun _ _ => by simp, ?_⟩
  rw [hone, one_mul, sub_self]
  simp [ringElement, polyOf]

theorem verifyRaw_eq_one_iff {bound : ℕ → UInt32} (hbound : (bound logn).toNat < 2 ^ 31)
    (h c0 : ℕ → UInt16) (s2 : ℕ → Int16) (tmp : ℕ → UInt16) :
    verifyRaw bound c0 s2 (toNttMonty logn h) logn tmp = 1 ↔
      squaredNorm (2 ^ logn)
        (fun j => (normalizeWord (difference c0 s2 (toNttMonty logn h) logn tmp j)).toInt)
        (fun j => (s2 j).toInt) ≤ (bound logn).toNat := by
  have hshort := isShort_eq hbound
    (fun u => ((List.range (2 ^ logn)).foldl (fun tt u =>
      Function.update tt u (normalizeWord (tt u)).toUInt16)
        (difference c0 s2 (toNttMonty logn h) logn tmp) u).toInt16) s2
  have hentry : ∀ j < 2 ^ logn, ((List.range (2 ^ logn)).foldl (fun tt u =>
      Function.update tt u (normalizeWord (tt u)).toUInt16)
        (difference c0 s2 (toNttMonty logn h) logn tmp) j).toInt16 =
      normalizeWord (difference c0 s2 (toNttMonty logn h) logn tmp j) := by
    intro j hj
    rw [foldl_update_apply (fun _ x => (normalizeWord x).toUInt16) _ hj, Int16.toInt16_toUInt16]
  rw [squaredNorm_congr fun j hj => congrArg Int16.toInt (hentry j hj)] at hshort
  refine (Eq.congr_left hshort).trans ?_
  split <;> simp_all

/-- `verify_raw` decides the norm equation for coefficients below `q`, with any bound. -/
theorem verifyRaw_iff_of_small {bound : ℕ → UInt32} (hbound : (bound logn).toNat < 2 ^ 31)
    (hlogn : logn ≤ 10) (hh : ReducedBelow16 (2 ^ logn) h) (hc0 : ReducedBelow16 (2 ^ logn) c0)
    (hs2 : ∀ j < 2 ^ logn, |(s2 j).toInt| < 12289) (tmp : ℕ → UInt16) :
    verifyRaw bound c0 s2 (toNttMonty logn h) logn tmp = 1 ↔
      ∃ s1, NormVector (2 ^ logn) (fun j => residue16 (h j)) (fun j => residue16 (c0 j))
          (fun j => (s2 j).toInt) s1 ∧
        squaredNorm (2 ^ logn) s1 (fun j => (s2 j).toInt) ≤ (bound logn).toNat := by
  have hvector := normVector_difference hlogn hh hc0 hs2 tmp
  rw [verifyRaw_eq_one_iff hbound]
  constructor
  · exact fun hnorm => ⟨_, hvector, hnorm⟩
  · rintro ⟨s1, hs1, hnorm⟩
    rwa [squaredNorm_congr fun j hj => hvector.unique (Nat.two_pow_pos logn) hs1 hj]

/-- `verify_raw` decides the norm equation for every signature polynomial: it does not
accept coefficients that it does not reduce. -/
theorem verifyRaw_iff (hlogn : logn ≤ 10) (hh : ∀ j < 2 ^ logn, (h j).toNat < 12289)
    (hc0 : ∀ j < 2 ^ logn, (c0 j).toNat < 12289) (s2 : ℕ → Int16) (tmp : ℕ → UInt16) :
    verifyRaw l2bound c0 s2 (toNttMonty logn h) logn tmp = 1 ↔
      ∃ s1, NormVector (2 ^ logn) (fun j => residue16 (h j)) (fun j => residue16 (c0 j))
          (fun j => (s2 j).toInt) s1 ∧
        squaredNorm (2 ^ logn) s1 (fun j => (s2 j).toInt) ≤ (l2bound logn).toNat := by
  have hbound := l2bound_lt hlogn
  by_cases hs2 : ∀ j < 2 ^ logn, |(s2 j).toInt| < 12289
  · exact verifyRaw_iff_of_small (by omega) hlogn hh hc0 hs2 tmp
  · rw [verifyRaw_eq_one_iff (by omega)]
    refine iff_of_false (fun hnorm => ?_) fun ⟨s1, _, hnorm⟩ => ?_
    · exact hs2 fun j hj => (lt_of_squaredNorm_le hlogn hnorm hj).2
    · exact hs2 fun j hj => (lt_of_squaredNorm_le hlogn hnorm hj).2

end VerifyRaw

section VerifyRecover

variable {logn : ℕ} {h c0 : ℕ → UInt16} {s1 s2 : ℕ → Int16}

theorem not_shiftRight_31 (r : UInt32) :
    ((~~~r) >>> 31).toInt32 = 1 ↔ ¬2 ^ 31 ≤ r.toNat := by
  have hshift := toNat_shiftRight_31 (~~~r)
  have hnot : (~~~r).toNat = 2 ^ 32 - 1 - r.toNat := UInt32.toNat_not r
  have hlt := r.toNat_lt
  by_cases htop : 2 ^ 31 ≤ r.toNat
  · rw [if_neg (by omega)] at hshift
    rw [UInt32.toNat_inj.mp (hshift.trans UInt32.toNat_zero.symm)]
    exact iff_of_false (by decide) (not_not.mpr htop)
  · rw [if_pos (by omega)] at hshift
    rw [UInt32.toNat_inj.mp (hshift.trans UInt32.toNat_one.symm)]
    exact iff_of_true (by decide) htop

theorem verifyRecover_accepts_iff (hlogn : logn ≤ 10) (h c0 : ℕ → UInt16) (s1 s2 : ℕ → Int16)
    (tmp : ℕ → UInt16) :
    (verifyRecover l2bound h c0 s1 s2 logn tmp).1 = 1 ↔
      squaredNorm (2 ^ logn) (fun j => (s1 j).toInt) (fun j => (s2 j).toInt) ≤
          (l2bound logn).toNat ∧
        IsUnit (signedElement (2 ^ logn) fun j => (s2 j).toInt) := by
  have hbound := l2bound_lt hlogn
  have hshort := isShort_eq (show (l2bound logn).toNat < 2 ^ 31 by omega) s1 s2
  by_cases hnorm : squaredNorm (2 ^ logn) (fun j => (s1 j).toInt) (fun j => (s2 j).toInt) ≤
      (l2bound logn).toNat
  · have hflag := zeroFlag_small hlogn
      (small_int16 fun j hj => (lt_of_squaredNorm_le hlogn hnorm hj).2) tmp
    simp only [Int16.toInt_toInt32] at hflag
    rw [if_pos hnorm] at hshort
    simp only [verifyRecover, hshort, show UInt32.ofInt (-1) = -1 by decide, UInt32.and_neg_one]
    rw [not_shiftRight_31, hflag, not_not, and_iff_right hnorm]
  · rw [if_neg hnorm] at hshort
    simp only [verifyRecover, hshort, show UInt32.ofInt (-0) = 0 by decide, UInt32.and_zero]
    exact iff_of_false (by decide) fun haccepts => hnorm haccepts.1

theorem storeDifference_spec {n : ℕ} (hc0 : ReducedBelow16 n c0)
    (hs1 : ∀ j < n, |(s1 j).toInt| < 12289) (h : ℕ → UInt16) :
    ReducedBelow16 n (storeDifference n c0 s1 h) ∧
      ∀ j < n, residue16 (storeDifference n c0 s1 h j) =
        residue16 (c0 j) - ((s1 j).toInt : ZMod 12289) := by
  have hconv := fun j hj => mqConvSmall_spec (small_int16 hs1 j hj)
  have hentry : ∀ j < n, (storeDifference n c0 s1 h j).toUInt32 =
      mqSubU32 (c0 j).toUInt32 (mqConvSmall (s1 j).toInt32) := by
    intro j hj
    rw [storeDifference, foldl_update_apply
      (fun u _ => (mqSub (c0 u).toUInt32 (mqConvSmall (s1 u).toInt32)).toUInt16) h hj]
    exact toUInt32_toUInt16 (reduced_mqSubU32 (hc0 j hj) (hconv j hj).1)
  refine ⟨fun j hj => ?_, fun j hj => ?_⟩
  · rw [hentry j hj]
    exact reduced_mqSubU32 (hc0 j hj) (hconv j hj).1
  · rw [residue16, hentry j hj, residue_mqSubU32 (hc0 j hj) (hconv j hj).1, (hconv j hj).2,
      Int16.toInt_toInt32]
    rfl

theorem divideAll_spec {n : ℕ} {tt : ℕ → UInt16} (htt : ReducedBelow16 n tt)
    (hh : ReducedBelow16 n h) :
    ReducedBelow16 n (divideAll n tt h) ∧
      ∀ l < n, residue16 (divideAll n tt h l) = residue16 (h l) / residue16 (tt l) := by
  have hentry : ∀ l < n,
      divideAll n tt h l = (mqDiv12289 (h l).toUInt32 (tt l).toUInt32).toUInt16 := fun l hl =>
    foldl_update_apply (fun u x => (mqDiv12289 x.toUInt32 (tt u).toUInt32).toUInt16) h hl
  refine ⟨fun l hl => ?_, fun l hl => ?_⟩
  · rw [hentry l hl]
    exact (residue16_div (hh l hl) (htt l hl)).1
  · rw [hentry l hl]
    exact (residue16_div (hh l hl) (htt l hl)).2

/-- The key of `verify_recover`, when the vector is short. -/
theorem verifyRecover_key (hlogn : logn ≤ 10) (h : ℕ → UInt16)
    (hc0 : ReducedBelow16 (2 ^ logn) c0) (hs1 : ∀ j < 2 ^ logn, |(s1 j).toInt| < 12289)
    (hs2 : ∀ j < 2 ^ logn, |(s2 j).toInt| < 12289)
    (hunit : IsUnit (signedElement (2 ^ logn) fun j => (s2 j).toInt)) (tmp : ℕ → UInt16) :
    let h' := (verifyRecover l2bound h c0 s1 s2 logn tmp).2
    ReducedBelow16 (2 ^ logn) h' ∧
      signedElement (2 ^ logn) (fun j => (s2 j).toInt) *
          ringElement (2 ^ logn) (fun j => residue16 (h' j)) =
        ringElement (2 ^ logn) (fun j => residue16 (c0 j)) -
          signedElement (2 ^ logn) fun j => (s1 j).toInt := by
  intro h'
  obtain ⟨htt, httleaf⟩ := mqNTT_storeSmall hlogn (small_int16 hs2) tmp
  obtain ⟨hdiff, hdiffres⟩ := storeDifference_spec hc0 hs1 h
  obtain ⟨hnum, hnumleaf⟩ := mqNTT_spec hlogn hdiff
  obtain ⟨hdivide, hquotient⟩ := divideAll_spec htt hnum
  simp only [Int16.toInt_toInt32] at httleaf
  have hnumber : ∀ l < 2 ^ logn, residue16 (mqNTT logn (storeDifference (2 ^ logn) c0 s1 h) l) =
      forward twiddle logn 1 (fun j => residue16 (c0 j) - ((s1 j).toInt : ZMod 12289)) l :=
    fun l hl => (hnumleaf l hl).trans
      (forward_congr twiddle (fun j hj => hdiffres j (by omega)) (by omega))
  obtain ⟨hred, hkey⟩ := ringElement_quotient hlogn hunit hdivide fun l hl => by
    rw [hquotient l hl, hnumber l hl, httleaf l hl]
  exact ⟨hred, hkey.trans (ringElement_sub _ _)⟩

theorem ringElement_neg {n : ℕ} (a : ℕ → ZMod 12289) :
    ringElement n (fun j => -a j) = -ringElement n a := by
  have hzero : ringElement n (fun _ => 0) = 0 := by simp [ringElement, polyOf]
  have hsub := ringElement_sub (n := n) (fun _ => 0) a
  simp only [zero_sub] at hsub
  rw [hsub, hzero, zero_sub]

theorem squaredNorm_centred_le {n : ℕ} {x y z : ℕ → ℤ} (hx : ∀ j < n, |x j| ≤ 6144)
    (hxy : ∀ j < n, (x j : ZMod 12289) = -(y j : ZMod 12289)) :
    squaredNorm n x z ≤ squaredNorm n y z := by
  refine sum_le_sum fun j hj => ?_
  have hj := mem_range.mp hj
  have hle : |x j| ≤ |y j| := by
    have hdvd : (12289 : ℤ) ∣ x j + y j := by
      apply (ZMod.intCast_zmod_eq_zero_iff_dvd _ 12289).mp
      rw [Int.cast_add, hxy j hj, neg_add_cancel]
    obtain ⟨k, hk⟩ := hdvd
    have hbound := abs_le.mp (hx j hj)
    rcases abs_cases (x j) with ⟨habs, hsign⟩ | ⟨habs, hsign⟩ <;>
      rcases abs_cases (y j) with ⟨habs', hsign'⟩ | ⟨habs', hsign'⟩ <;> omega
  have hsq := sq_le_sq.mpr hle
  omega

/-- `verify_recover` accepts the short vectors of which `s2` is a unit. It has then found the
only key with `s2 * h = c0 - s1`, and `verify_raw` accepts `s2` with this key. -/
theorem verifyRecover_spec (hlogn : logn ≤ 10) (h : ℕ → UInt16)
    (hc0 : ∀ j < 2 ^ logn, (c0 j).toNat < 12289) (s1 s2 : ℕ → Int16) (tmp : ℕ → UInt16) :
    let result := verifyRecover l2bound h c0 s1 s2 logn tmp
    (result.1 = 1 ↔ squaredNorm (2 ^ logn) (fun j => (s1 j).toInt) (fun j => (s2 j).toInt) ≤
        (l2bound logn).toNat ∧ IsUnit (signedElement (2 ^ logn) fun j => (s2 j).toInt)) ∧
    (result.1 = 1 →
      (∀ x : ℕ → ZMod 12289, signedElement (2 ^ logn) (fun j => (s2 j).toInt) *
          ringElement (2 ^ logn) x = ringElement (2 ^ logn) (fun j => residue16 (c0 j)) -
            signedElement (2 ^ logn) (fun j => (s1 j).toInt) ↔
        ∀ j < 2 ^ logn, x j = residue16 (result.2 j)) ∧
      ∀ tmp', verifyRaw l2bound c0 s2 (toNttMonty logn result.2) logn tmp' = 1) := by
  intro result
  have haccepts := verifyRecover_accepts_iff hlogn h c0 s1 s2 tmp
  refine ⟨haccepts, fun hone => ?_⟩
  obtain ⟨hnorm, hunit⟩ := haccepts.mp hone
  have hsmall := fun j hj => lt_of_squaredNorm_le hlogn hnorm (j := j) hj
  obtain ⟨hred, hkey⟩ := verifyRecover_key hlogn h hc0 (fun j hj => (hsmall j hj).1)
    (fun j hj => (hsmall j hj).2) hunit tmp
  refine ⟨fun x => ⟨fun hx j hj => ?_, fun hx => ?_⟩, fun tmp' => ?_⟩
  · exact eq_of_mk_polyOf_eq (Nat.two_pow_pos logn) (hunit.mul_left_cancel (hx.trans hkey.symm)) hj
  · rw [ringElement_congr hx]
    exact hkey
  · rw [verifyRaw_iff_of_small (by have := l2bound_lt hlogn; omega) hlogn hred hc0
      fun j hj => (hsmall j hj).2]
    have hvector := normVector_difference hlogn hred hc0 (fun j hj => (hsmall j hj).2) tmp'
    refine ⟨_, hvector, (squaredNorm_centred_le hvector.centred fun j hj => ?_).trans hnorm⟩
    -- the vector is `-s1` modulo `q`
    refine eq_of_mk_polyOf_eq (Nat.two_pow_pos logn) ((hvector.equation.trans ?_).trans
      (ringElement_neg fun j => ((s1 j).toInt : ZMod 12289)).symm) hj
    exact (congrArg (· - _) hkey).trans (sub_sub_cancel_left _ _)

end VerifyRecover

def sampleS2 (j : ℕ) : Int16 := if j = 0 then 1 else 0

@[simp] theorem signedElement_sampleS2 :
    signedElement (2 ^ 1) (fun j => (sampleS2 j).toInt) = 1 := by
  have hentry : ∀ j < 2 ^ 1, ((sampleS2 j).toInt : ZMod 12289) = if j = 0 then 1 else 0 := by
    decide
  rw [signedElement, ringElement_congr hentry]
  exact mk_polyOf_one (by norm_num)

theorem isUnit_sampleS2 : IsUnit (signedElement (2 ^ 1) fun j => (sampleS2 j).toInt) := by
  rw [signedElement_sampleS2]
  exact isUnit_one

/-- The signature polynomial `X - 1479`, a factor of `X ^ 2 + 1`. -/
def sampleFactor (j : ℕ) : Int16 := if j = 0 then -1479 else 1

theorem countNttzero_spec_sampleFactor :
    #{ζ ∈ (X ^ 2 ^ 1 + 1 : (ZMod 12289)[X]).roots.toFinset |
        (polyOf (2 ^ 1) fun j => ((sampleFactor j).toInt : ZMod 12289)).IsRoot ζ} = 1 ∧
      ¬IsUnit (signedElement (2 ^ 1) fun j => (sampleFactor j).toInt) ∧
      isInvertible sampleFactor 1 (fun _ => 0) = 0 := by
  obtain ⟨hroots, hunit, hdecision⟩ := countNttzero_spec (show 1 ≤ 10 by decide)
    (show ∀ j < 2 ^ 1, |(sampleFactor j).toInt| < 12289 by decide) (fun _ => 0) fun _ => 0
  have hcount : countNttzero sampleFactor 1 (fun _ => 0) = 1 := by decide +kernel
  rw [hcount] at hroots hunit hdecision
  exact ⟨Nat.cast_injective (hroots.symm : _ = ((1 : ℕ) : ℤ)), mt hunit.mp (by decide), hdecision⟩

/-- With the key `3 + 3 * X` and the same hashed point, `s1` is 0. -/
theorem verifyRaw_iff_sampleS2 :
    verifyRaw l2bound (fun _ => 3) sampleS2 (toNttMonty 1 fun _ => 3) 1 (fun _ => 0) = 1 :=
  (verifyRaw_iff (show 1 ≤ 10 by decide) (by decide) (by decide) sampleS2 _).mpr
    ⟨fun _ => 0, normVector_one (by norm_num) _ (by decide), by decide⟩

theorem verifyRecover_spec_sampleS2 :
    (verifyRecover l2bound (fun _ => 0) (fun _ => 3) sampleS2 sampleS2 1 fun _ => 0).1 = 1 :=
  (verifyRecover_spec (show 1 ≤ 10 by decide) (fun _ => 0) (by decide) sampleS2 sampleS2
    fun _ => 0).1.mpr ⟨by decide, isUnit_sampleS2⟩

end Soko.FnDsa
