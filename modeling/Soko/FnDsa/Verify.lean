import Soko.FnDsa.Transform
import Soko.Gpu.VerifyRaw

/-!
`verify_raw` of `submodules/FN-DSA`, and its agreement with the raw verification kernel.
Both compute the same words up to the centred `s1`. The norm is summed in 64 bits there
and in 32 bits here, where `ng` remembers that a partial sum has reached `2 ^ 31`; since
no square is that large, a sum cannot pass `2 ^ 32` unnoticed.
-/

namespace Soko.FnDsa

open Soko.Library Soko.Gpu Finset

def l2bound (logn : ℕ) : UInt32 :=
  [0, 101498, 208714, 428865, 892039, 1852696, 3842630, 7959734, 16468416, 34034726,
    70265242].getD logn 0

/-- `s` and `ng` of `is_short`. -/
structure NormSum where
  s : UInt32
  ng : UInt32

/-- `s += (uint32_t)(z * z); ng |= s;` -/
def NormSum.add (acc : NormSum) (z : Int32) : NormSum :=
  let s := acc.s + (z * z).toUInt32
  { s, ng := acc.ng ||| s }

/-- `is_short`, with the table of the bounds as a parameter. -/
def isShort (l2bound : ℕ → UInt32) (s1 s2 : ℕ → Int16) (logn : ℕ) : ℤ :=
  let acc : NormSum := (List.range (2 ^ logn)).foldl
    (fun acc u => (acc.add (s1 u).toInt32).add (s2 u).toInt32) { s := 0, ng := 0 }
  let s := acc.s ||| -(acc.ng >>> 31)
  if s ≤ l2bound logn then 1 else 0

/-- The normalization of an element of `tt`, whose memory becomes signed. -/
def normalizeWord (x : UInt16) : Int16 :=
  let w := x.toUInt32.toInt32
  let w := w - (oofalconQ &&& -(((oofalconQ >>> 1) - w.toUInt32) >>> 31)).toInt32
  w.toInt16

/-- `verify_raw`, with the table of the bounds as a parameter. -/
def verifyRaw (l2bound : ℕ → UInt32) (c0 : ℕ → UInt16) (s2 : ℕ → Int16) (h : ℕ → UInt16)
    (logn : ℕ) (tmp : ℕ → UInt16) : ℤ :=
  let n := 2 ^ logn
  let tt := (List.range n).foldl
    (fun tt u => Function.update tt u (addQIfNegative (s2 u).toInt32.toUInt32).toUInt16) tmp
  let tt := mqNTT logn tt
  let tt := mqPolyMontymulNtt logn tt h
  let tt := mqINTT logn tt
  let tt := mqPolySub logn tt c0
  let tt := (List.range n).foldl
    (fun tt u => Function.update tt u (normalizeWord (tt u)).toUInt16) tt
  isShort l2bound (fun u => (tt u).toInt16) s2 logn

section Norm

/-- `s` and `ng` after squares that sum to `total`. -/
def NormSum.Counts (acc : NormSum) (total : ℕ) : Prop :=
  (total < 2 ^ 31 ∧ acc.s.toNat = total ∧ acc.ng.toNat < 2 ^ 31) ∨
    (2 ^ 31 ≤ total ∧ 2 ^ 31 ≤ acc.ng.toNat)

theorem toNat_square {z : Int32} (hz : |z.toInt| ≤ 2 ^ 15) :
    (((z * z).toUInt32.toNat : ℕ) : ℤ) = z.toInt ^ 2 := by
  obtain ⟨hlow, hhigh⟩ := abs_le.mp hz
  have hsquare : z.toInt ^ 2 ≤ 2 ^ 30 := by nlinarith
  have hnonneg := sq_nonneg z.toInt
  have hmul : (z * z).toInt = z.toInt ^ 2 := by
    rw [Int32.toInt_mul, ← sq]
    exact Int.bmod_eq_of_le (le_trans (by norm_num) hnonneg)
      (lt_of_le_of_lt hsquare (by norm_num))
  have hle : (0 : Int32) ≤ z * z := by
    rw [Int32.le_iff_toInt_le, hmul]
    exact hnonneg
  rw [Int32.toNat_toUInt32_of_le hle, ← hmul]
  exact Int.toNat_of_nonneg (hmul ▸ hnonneg)

theorem two_pow_31_le_or (x y : UInt32) :
    2 ^ 31 ≤ (x ||| y).toNat ↔ 2 ^ 31 ≤ x.toNat ∨ 2 ^ 31 ≤ y.toNat := by
  have htop : ∀ z : UInt32, 2 ^ 31 ≤ z.toNat ↔ z.toNat.testBit 31 = true := by
    intro z
    have hlt := z.toNat_lt
    rw [Nat.testBit_eq_decide_div_mod_eq, decide_eq_true_iff]
    omega
  rw [htop, htop, htop, UInt32.toNat_or, Nat.testBit_or, Bool.or_eq_true]

/-- A square is added. Less than `2 ^ 31` is added to less than `2 ^ 31`, so that a sum
that is too large is seen in `ng`. -/
theorem counts_add {acc : NormSum} {total : ℕ} (h : acc.Counts total) {z : Int32}
    (hz : |z.toInt| ≤ 2 ^ 15) : (acc.add z).Counts (total + (z * z).toUInt32.toNat) := by
  have hsquare : (z * z).toUInt32.toNat ≤ 2 ^ 30 := by
    obtain ⟨hlow, hhigh⟩ := abs_le.mp hz
    have h := toNat_square hz
    nlinarith
  have hor := two_pow_31_le_or acc.ng (acc.s + (z * z).toUInt32)
  have hsum : (acc.s + (z * z).toUInt32).toNat = (acc.s.toNat + (z * z).toUInt32.toNat) % 2 ^ 32 :=
    UInt32.toNat_add _ _
  unfold NormSum.Counts NormSum.add
  dsimp only
  obtain ⟨hsmall, hs, hng⟩ | ⟨hlarge, hng⟩ := h
  · have hexact : (acc.s + (z * z).toUInt32).toNat = total + (z * z).toUInt32.toNat := by omega
    by_cases hnext : total + (z * z).toUInt32.toNat < 2 ^ 31
    · exact .inl ⟨hnext, hexact, by omega⟩
    · exact .inr ⟨by omega, by omega⟩
  · exact .inr ⟨by omega, by omega⟩

theorem counts_foldl (s1 s2 : ℕ → Int16) (l : List ℕ) {acc : NormSum} {total : ℕ}
    (h : acc.Counts total) :
    (l.foldl (fun acc u => (acc.add (s1 u).toInt32).add (s2 u).toInt32) acc).Counts
      (total + (l.map fun u => ((s1 u).toInt32 * (s1 u).toInt32).toUInt32.toNat +
        ((s2 u).toInt32 * (s2 u).toInt32).toUInt32.toNat).sum) := by
  have hword : ∀ x : Int16, |x.toInt32.toInt| ≤ 2 ^ 15 := by
    intro x
    rw [Int16.toInt_toInt32, abs_le]
    have hlow := x.le_toInt
    have hhigh := x.toInt_lt
    omega
  induction l generalizing acc total with
  | nil => simpa using h
  | cons u l ih =>
      have hnext := ih (counts_add (counts_add h (hword (s1 u))) (hword (s2 u)))
      simpa only [List.foldl_cons, List.map_cons, List.sum_cons, add_assoc] using hnext

/-- The saturated sum is compared with a bound below `2 ^ 31` as the exact one is. -/
theorem saturated_le {acc : NormSum} {total : ℕ} (h : acc.Counts total) {bound : UInt32}
    (hbound : bound.toNat < 2 ^ 31) :
    acc.s ||| -(acc.ng >>> 31) ≤ bound ↔ total ≤ bound.toNat := by
  have hshift : (acc.ng >>> 31).toNat = acc.ng.toNat / 2 ^ 31 := by
    simp [UInt32.toNat_shiftRight, Nat.shiftRight_eq_div_pow]
  have hlt := acc.ng.toNat_lt
  rw [UInt32.le_iff_toNat_le]
  obtain ⟨-, hs, hng⟩ | ⟨hlarge, hng⟩ := h
  · have hzero : acc.ng >>> 31 = 0 := by
      apply UInt32.toNat_inj.mp
      rw [hshift, UInt32.toNat_zero]
      omega
    rw [hzero, ← hs]
    simp
  · have hone : acc.ng >>> 31 = 1 := by
      apply UInt32.toNat_inj.mp
      rw [hshift, UInt32.toNat_one]
      omega
    have hall : 2 ^ 31 ≤ (acc.s ||| -1).toNat := (two_pow_31_le_or _ _).mpr (.inr (by decide))
    rw [hone]
    omega

/-- `is_short` compares the squared norm with the bound. -/
theorem isShort_eq {l2bound : ℕ → UInt32} {logn : ℕ} (hbound : (l2bound logn).toNat < 2 ^ 31)
    (s1 s2 : ℕ → Int16) :
    isShort l2bound s1 s2 logn =
      if squaredNorm (2 ^ logn) (fun u => (s1 u).toInt) (fun u => (s2 u).toInt) ≤
        (l2bound logn).toNat then 1 else 0 := by
  have hzero : NormSum.Counts { s := 0, ng := 0 } 0 := .inl (by decide)
  have hcounts := counts_foldl s1 s2 (List.range (2 ^ logn)) hzero
  have hword : ∀ x : Int16, ((x.toInt32 * x.toInt32).toUInt32.toNat : ℤ) = x.toInt ^ 2 := by
    intro x
    have hlow := x.le_toInt
    have hhigh := x.toInt_lt
    rw [toNat_square, Int16.toInt_toInt32]
    rw [Int16.toInt_toInt32, abs_le]
    omega
  have htotal : ((0 + ((List.range (2 ^ logn)).map fun u =>
      ((s1 u).toInt32 * (s1 u).toInt32).toUInt32.toNat +
        ((s2 u).toInt32 * (s2 u).toInt32).toUInt32.toNat).sum : ℕ) : ℤ) =
      squaredNorm (2 ^ logn) (fun u => (s1 u).toInt) (fun u => (s2 u).toInt) := by
    rw [zero_add, squaredNorm]
    refine (Nat.cast_sum (range (2 ^ logn)) _).trans (sum_congr rfl fun u _ => ?_)
    rw [Nat.cast_add, hword, hword]
  unfold isShort
  refine if_congr ((saturated_le hcounts hbound).trans ?_) rfl rfl
  rw [← htotal, Nat.cast_le]

end Norm

section Words

variable {logn : ℕ} {a : ℕ → UInt16} {tt : ℕ → UInt32}

/-- The product with the key, before the factor `ni`, in both widths. -/
theorem widened_product {blockDim : ℕ} (hdim : 0 < blockDim) (hlogn : logn ≤ 10)
    (schedules : ProductSchedules blockDim (2 ^ logn)) (h : ℕ → UInt16)
    (htt : Widened (2 ^ logn) a tt) :
    Widened (2 ^ logn) (mqINTTStages logn (mqPolyMontymulNtt logn (mqNTT logn a) h))
      (kernelProduct gmb igmb schedules (fun j => (h j).toUInt32) tt) := by
  have hsize := two_pow_le_1024 hlogn
  have hntt : Widened (2 ^ logn) (mqNTT logn a) (kernelNtt gmb schedules.ntt 1 (2 ^ logn) tt) :=
    widened_nttFrom hdim (fun i hi => GMb_eq (by omega)) schedules.ntt one_pos (one_mul _).symm htt
  have hpoint := widened_point hdim schedules.multiply
    (f := fun j x => mqMontymulDevice x (h j).toUInt32)
    (fun j _ x hx => reduced_mqMontymulU32 hx (toNat_toUInt32_lt _)) hntt
  exact widened_inttFrom (d := 0) hdim (fun i hi => iGMb_eq (by omega)) schedules.intt
    (mul_one _).symm hpoint

/-- `tt` of `verify_raw` before the normalization, and `w` of the kernel. -/
theorem widened_difference (hw : Widened (2 ^ logn) a tt) {c0 : ℕ → UInt16}
    (hc0 : ∀ j < 2 ^ logn, (c0 j).toNat < 12289) {j : ℕ} (hj : j < 2 ^ logn) :
    Reduced (mqSubDevice (mqMontymulDevice (tt j) (nInv logn)) (c0 j).toUInt32) ∧
      mqSubDevice (mqMontymulDevice (tt j) (nInv logn)) (c0 j).toUInt32 =
        (mqPolySub logn (mqINTTScale logn a) c0 j).toUInt32 := by
  obtain ⟨hred, heq⟩ := hw j hj
  obtain ⟨hninv, -⟩ := nInv_spec logn
  have hsmall : (nInv logn).toNat < 65536 := by
    unfold Reduced at hninv
    omega
  have hproduct : Reduced (mqMontymulDevice (tt j) (nInv logn)) :=
    reduced_mqMontymulU32 hred hsmall
  have hscaled : (mqINTTScale logn a j).toUInt32 = mqMontymulDevice (tt j) (nInv logn) := by
    rw [mqINTTScale_apply hj, ← heq]
    exact toUInt32_toUInt16 hproduct
  have hpoint : Reduced (c0 j).toUInt32 := by
    rw [Reduced, UInt16.toNat_toUInt32]
    exact hc0 j hj
  rw [mqPolySub_apply hj, hscaled]
  exact widened_toUInt16 (reduced_mqSubU32 hproduct hpoint)

theorem toInt_normalizeWord {x : UInt16} {w : UInt32} (hw : Reduced w) (hx : w = x.toUInt32) :
    (normalizeWord x).toInt = (centredWord w).toInt := by
  obtain ⟨hlow, hhigh⟩ := abs_le.mp (centredWord_spec hw).1
  have hdiff : ((oofalconQ >>> 1) - w).toNat = (2 ^ 32 - w.toNat + 6144) % 2 ^ 32 :=
    UInt32.toNat_sub _ _
  have hlt : w > oofalconQ >>> 1 ↔ 6144 < w.toNat := UInt32.lt_iff_toNat_lt
  have hcentred : w.toInt32 - (oofalconQ &&& -(((oofalconQ >>> 1) - w) >>> 31)).toInt32 =
      centredWord w := by
    unfold Reduced at hw
    rw [mask_eq, hdiff, centredWord]
    by_cases hbig : 6144 < w.toNat
    · rw [if_neg (by omega), if_pos (hlt.mpr hbig)]
    · rw [if_pos (by omega), if_neg (mt hlt.mp hbig)]
      exact Int32.sub_zero _
  simp only [normalizeWord, ← hx, UInt32.toUInt32_toInt32]
  rw [hcentred, Int32.toInt_toInt16]
  exact Int.bmod_eq_of_le (by omega) (by omega)

end Words

section Agreement

variable {logn k : ℕ}

theorem verifyL2boundDevice_eq (hlogn : logn ≤ 10) :
    verifyL2boundDevice logn = l2bound logn ∧
      (3 * l2bound logn).toNat = 3 * (l2bound logn).toNat ∧
      (3 * l2bound logn).toNat < 2 ^ 31 := by
  have hall : ∀ logn < 11, verifyL2boundDevice logn = l2bound logn ∧
      (3 * l2bound logn).toNat = 3 * (l2bound logn).toNat ∧
      (3 * l2bound logn).toNat < 2 ^ 31 := by
    decide
  exact hall logn (by omega)

/-- `verify_raw` compares the norm of `s2` and of the `s1` that the kernel computes. -/
theorem verifyRaw_eq (hlogn : logn ≤ 10) (schedules : ProductSchedules (2 ^ k) (2 ^ logn))
    (l2bound : ℕ → UInt32) (hbound : (l2bound logn).toNat < 2 ^ 31) (h : ℕ → UInt16)
    {c0 : ℕ → UInt16} {s2 : ℕ → Int16} (hc0 : ∀ j < 2 ^ logn, (c0 j).toNat < 12289)
    (hs2 : ∀ j < 2 ^ logn, |(s2 j).toInt| ≤ 2047) (tmp : ℕ → UInt16) {tt hm : ℕ → UInt32}
    (htt : ∀ j < 2 ^ logn, tt j = addQIfNegative (s2 j).toInt32.toUInt32)
    (hhm : ∀ j < 2 ^ logn, hm j = (c0 j).toUInt32) :
    let s1 := computedS1 (nInv logn) (kernelProduct gmb igmb schedules (fun j => (h j).toUInt32) tt)
      hm
    (∀ j < 2 ^ logn, |(s1 j).toInt| ≤ 6144) ∧
      verifyRaw l2bound c0 s2 h logn tmp =
        if squaredNorm (2 ^ logn) (fun j => (s1 j).toInt) (fun j => (s2 j).toInt) ≤
          (l2bound logn).toNat then 1 else 0 := by
  intro s1
  have hdim : 0 < 2 ^ k := Nat.two_pow_pos k
  have hlift : Widened (2 ^ logn) ((List.range (2 ^ logn)).foldl (fun tt u =>
      Function.update tt u (addQIfNegative (s2 u).toInt32.toUInt32).toUInt16) tmp) tt := by
    intro j hj
    rw [foldl_update_apply (fun u _ => (addQIfNegative (s2 u).toInt32.toUInt32).toUInt16) tmp hj,
      htt j hj]
    exact widened_toUInt16 (lifted_s2 (hs2 j hj)).1
  have hdiff := fun j hj => widened_difference
    (widened_product hdim hlogn schedules h hlift) hc0 (j := j) hj
  refine ⟨fun j hj => ?_, ?_⟩
  · have hspec := centredWord_spec (hdiff j hj).1
    rw [← hhm j hj] at hspec
    exact hspec.1
  · refine (isShort_eq hbound _ s2).trans (if_congr ?_ rfl rfl)
    rw [squaredNorm_congr fun j hj => ?_]
    obtain ⟨hred, heq⟩ := hdiff j hj
    have hword := toInt_normalizeWord hred heq
    rw [← hhm j hj] at hword
    rw [foldl_update_apply (fun _ x => (normalizeWord x).toUInt16) _ hj, Int16.toInt16_toUInt16]
    exact hword

/-- The raw verification kernel accepts just what `verify_raw` accepts with three times
its bound, and so everything that it accepts with its own. -/
theorem kernelVerifyRawBatch_iff_verifyRaw (hlogn : 1 ≤ logn ∧ logn ≤ 10)
    (schedules : VerifySchedules (2 ^ k) (2 ^ logn)) {hNttMonty : ℕ → UInt16}
    {hmBank : ℤ → UInt16} {s2Bank : ℤ → Int16} {token tokens : ℕ} (htoken : token < tokens)
    (hhm : ∀ j < 2 ^ logn, (hmBank (bankIndex token (2 ^ logn) j)).toNat < 12289)
    (hs2 : ∀ j < 2 ^ logn, |(s2Bank (bankIndex token (2 ^ logn) j)).toInt| ≤ 2047)
    (s : VerifyState) (resultBank : ℕ → UInt8) (tmp : ℕ → UInt16) :
    let c0 j := hmBank (bankIndex token (2 ^ logn) j)
    let s2 j := s2Bank (bankIndex token (2 ^ logn) j)
    let verdict := kernelVerifyRawBatch hNttMonty gmb igmb (nInv logn) logn tokens hmBank s2Bank
      token schedules s resultBank token
    (verdict = 1 ↔ verifyRaw (fun logn => 3 * l2bound logn) c0 s2 hNttMonty logn tmp = 1) ∧
      (verifyRaw l2bound c0 s2 hNttMonty logn tmp = 1 → verdict = 1) := by
  intro c0 s2 verdict
  have hdim : 0 < 2 ^ k := Nat.two_pow_pos k
  obtain ⟨htable, htriple, hsmall⟩ := verifyL2boundDevice_eq hlogn.2
  have hloadhm := fun j hj => loadRaw_hm hdim schedules.load hmBank s2Bank token s (j := j) hj
  have hloadtt := fun j hj => loadRaw_tt hdim schedules.load hmBank s2Bank token s (j := j) hj
  have hbound : (l2bound logn).toNat < 2 ^ 31 := by omega
  obtain ⟨hs1, htripled⟩ := verifyRaw_eq hlogn.2 schedules.product (fun logn => 3 * l2bound logn)
    hsmall hNttMonty hhm hs2 tmp hloadtt hloadhm
  obtain ⟨-, hexact⟩ := verifyRaw_eq hlogn.2 schedules.product l2bound hbound hNttMonty hhm hs2 tmp
    hloadtt hloadhm
  have hverdict : verdict = verifyVerdict hNttMonty gmb igmb (nInv logn) logn schedules s2
      (runTasks (loadRaw hmBank s2Bank token (2 ^ logn)) schedules.load.order s) := by
    simp only [verdict, kernelVerifyRawBatch]
    rw [if_neg (by omega), Function.update_self]
  have hcast : ((3 * l2bound logn).toNat : ℤ) = 3 * (l2bound logn).toNat := by
    rw [htriple, Nat.cast_mul, Nat.cast_ofNat]
  rw [hverdict, verifyVerdict_eq hlogn.2 schedules hs2 hs1 rfl, htripled, hexact, htable, hcast]
  constructor
  · split_ifs <;> simp
  · split_ifs with hshort hlong
    · simp
    · omega
    · simp
    · simp

/-- Both verifiers on the sample key. -/
theorem kernelVerifyRawBatch_iff_verifyRaw_sampleKey :
    let c0 j := sampleHmBank (bankIndex 0 (2 ^ 1) j)
    let s2 j := sampleS2Bank (bankIndex 0 (2 ^ 1) j)
    let verdict := kernelVerifyRawBatch (nttMontgomeryForm 1 sampleKey) gmb igmb (nInv 1) 1 1
      sampleHmBank sampleS2Bank 0 (VerifySchedules.sequential (2 ^ 2) (2 ^ 1)) blankVerifyState
      (fun _ => 0) 0
    (verdict = 1 ↔ verifyRaw (fun logn => 3 * l2bound logn) c0 s2 (nttMontgomeryForm 1 sampleKey)
        1 (fun _ => 0) = 1) ∧
      (verifyRaw l2bound c0 s2 (nttMontgomeryForm 1 sampleKey) 1 (fun _ => 0) = 1 →
        verdict = 1) :=
  kernelVerifyRawBatch_iff_verifyRaw (by decide) (.sequential (2 ^ 2) (2 ^ 1))
    (show 0 < 1 by decide)
    (show ∀ j < 2 ^ 1, (sampleHmBank (bankIndex 0 (2 ^ 1) j)).toNat < 12289 by decide)
    (show ∀ j < 2 ^ 1, |(sampleS2Bank (bankIndex 0 (2 ^ 1) j)).toInt| ≤ 2047 by decide)
    blankVerifyState (fun _ => 0) (fun _ => 0)

end Agreement

end Soko.FnDsa
