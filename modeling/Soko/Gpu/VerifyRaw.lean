import Mathlib.Data.UInt
import Soko.Gpu.Presign

/-!
`kernel_verify_raw_batch`, for one block of threads. After the product with the
key each thread sums the squares of its share of the coefficients, and a tree
reduction adds the partial sums. The verdict is that of the norm equation: it
compares the squared norm of `(s1, s2)` with the bound, where `s1` is the centred
representative of `s2 * h - c` modulo `X ^ n + 1`.
-/

namespace Soko.Gpu

open Soko.Library Finset

def verifyL2boundDevice (logn : ℕ) : UInt32 :=
  match logn with
  | 1 => 101498
  | 2 => 208714
  | 3 => 428865
  | 4 => 892039
  | 5 => 1852696
  | 6 => 3842630
  | 7 => 7959734
  | 8 => 16468416
  | 9 => 34034726
  | 10 => 70265242
  | _ => 0

structure VerifyState where
  hm : ℕ → UInt32
  tt : ℕ → UInt32
  sum : ℕ → UInt64

/-- The orders in which a block executes the iterations of its phases. In the
phase that stores the partial sums and in the steps of the reduction every thread
has one iteration. -/
structure VerifySchedules (blockDim n : ℕ) where
  load : Schedule blockDim n
  product : ProductSchedules blockDim n
  store : Schedule blockDim blockDim
  reduce : ℕ → Schedule blockDim blockDim

/-- An iteration of the loop that fills `hm_shared` and `tt_shared`. -/
def loadRaw (hmBank : ℤ → UInt16) (s2Bank : ℤ → Int16) (token n j : ℕ) (s : VerifyState) :
    VerifyState :=
  let w := (s2Bank (bankIndex token n j)).toInt32.toUInt32
  { s with
    hm := Function.update s.hm j (hmBank (bankIndex token n j)).toUInt32
    tt := Function.update s.tt j (addQIfNegative w) }

/-- `s1n`, from the difference `w`. -/
def centredWord (w : UInt32) : Int32 :=
  if w > oofalconQ >>> 1 then w.toInt32 - oofalconQ.toInt32 else w.toInt32

/-- `(unsigned long long)((int64_t)x * (int64_t)x)`. -/
def squareWord (x : Int32) : UInt64 := (x.toInt64 * x.toInt64).toUInt64

def localSum (blockDim n : ℕ) (nInv : UInt32) (tt hm : ℕ → UInt32) (s2 : ℕ → Int16) (tid : ℕ) :
    UInt64 :=
  (stridedLoop blockDim n tid).foldl (fun localSum j =>
    let w := mqMontymulDevice (tt j) nInv
    let s1n := centredWord (mqSubDevice w (hm j))
    let s2v := (s2 j).toInt32
    localSum + squareWord s1n + squareWord s2v) 0

/-- The end of both verification kernels, from the NTT of `tt_shared` on. -/
def verifyVerdict (hNttMonty gmb igmb : ℕ → UInt16) (nInv : UInt32) (logn : ℕ) {blockDim n : ℕ}
    (schedules : VerifySchedules blockDim n) (s2 : ℕ → Int16) (s : VerifyState) : UInt8 :=
  let tt := kernelProduct gmb igmb schedules.product (fun j => (hNttMonty j).toUInt32) s.tt
  let sum := runTasks (scatterTask id (localSum blockDim n nInv tt s.hm s2)) schedules.store.order
    s.sum
  let sum := treeReduction schedules.reduce (blockDim / 2) sum
  let bound := 3 * (verifyL2boundDevice logn).toUInt64
  if sum 0 ≤ bound then 1 else 0

/-- `kernel_verify_raw_batch`, for the block of `token`. -/
def kernelVerifyRawBatch (hNttMonty gmb igmb : ℕ → UInt16) (nInv : UInt32) (logn tokens : ℕ)
    {blockDim n : ℕ} (hmBank : ℤ → UInt16) (s2Bank : ℤ → Int16) (token : ℕ)
    (schedules : VerifySchedules blockDim n) (s : VerifyState) (resultBank : ℕ → UInt8) :
    ℕ → UInt8 :=
  if token ≥ tokens then resultBank
  else
    let s := runTasks (loadRaw hmBank s2Bank token n) schedules.load.order s
    Function.update resultBank token (verifyVerdict hNttMonty gmb igmb nInv logn schedules
      (fun j => s2Bank (bankIndex token n j)) s)

/-- The key as the verification calls take it: the NTT of `h`, with the values in
Montgomery form. -/
def nttMontgomeryForm (logn : ℕ) (h : ℕ → UInt16) (j : ℕ) : UInt16 :=
  ((mqNttHost gmb logn h j).toNat * 65536 % 12289).toUInt16

/-! The norm equation. -/

/-- `s1` is the centred representative of `s2 * h - c`. -/
structure NormVector (n : ℕ) (h c : ℕ → ZMod 12289) (s2 s1 : ℕ → ℤ) : Prop where
  centred : ∀ j < n, |s1 j| ≤ 6144
  equation : ringElement n (fun j => (s1 j : ZMod 12289)) =
    ringElement n (fun j => (s2 j : ZMod 12289)) * ringElement n h - ringElement n c

def squaredNorm (n : ℕ) (s1 s2 : ℕ → ℤ) : ℤ := ∑ j ∈ range n, (s1 j ^ 2 + s2 j ^ 2)

section Words

theorem centredWord_spec {w : UInt32} (hw : Reduced w) :
    |(centredWord w).toInt| ≤ 6144 ∧ ((centredWord w).toInt : ZMod 12289) = residue w := by
  unfold Reduced at hw
  have hint : w.toInt32.toInt = w.toNat := by
    have hcond := BitVec.toInt_eq_toNat_cond w.toBitVec
    rw [if_pos (by show 2 * w.toNat < _; omega)] at hcond
    exact hcond
  have hq : oofalconQ.toInt32.toInt = 12289 := by decide
  have hhalf : (oofalconQ >>> 1).toNat = 6144 := by decide
  have hzero : (12289 : ZMod 12289) = 0 := by decide
  rw [centredWord]
  split
  · have hgt : 6144 < w.toNat := by
      rw [← hhalf]
      exact UInt32.lt_iff_toNat_lt.mp ‹_›
    have hsub : (w.toInt32 - oofalconQ.toInt32).toInt = w.toNat - 12289 := by
      rw [Int32.toInt_sub, hint, hq]
      exact Int.bmod_eq_of_le (by omega) (by omega)
    rw [hsub]
    refine ⟨abs_le.mpr ⟨by omega, by omega⟩, ?_⟩
    push_cast
    rw [hzero, sub_zero, residue]
  · have hle : w.toNat ≤ 6144 := by
      rw [← hhalf]
      exact UInt32.le_iff_toNat_le.mp (UInt32.not_lt.mp ‹_›)
    rw [hint, residue]
    exact ⟨abs_le.mpr ⟨by omega, by omega⟩, Int.cast_natCast _⟩

theorem toNat_squareWord {x : Int32} (hx : |x.toInt| ≤ 2 ^ 16) :
    ((squareWord x).toNat : ℤ) = x.toInt ^ 2 := by
  obtain ⟨hlow, hhigh⟩ := abs_le.mp hx
  have hsquare : x.toInt ^ 2 ≤ 2 ^ 32 := by nlinarith
  have hmul : (x.toInt64 * x.toInt64).toInt = x.toInt ^ 2 := by
    rw [Int64.toInt_mul, Int32.toInt_toInt64, ← sq]
    apply Int.bmod_eq_of_le
    · exact le_trans (by norm_num) (sq_nonneg x.toInt)
    · exact lt_of_le_of_lt hsquare (by norm_num)
  have hnonneg : 0 ≤ x.toInt64 * x.toInt64 := by
    rw [Int64.le_iff_toInt_le, hmul, Int64.toInt_zero]
    exact sq_nonneg x.toInt
  rw [squareWord, Int64.toNat_toUInt64_of_le hnonneg, ← hmul]
  exact Int.toNat_of_nonneg (hmul ▸ sq_nonneg x.toInt)

theorem toNat_sum_of_lt {ι : Type*} (s : Finset ι) (f : ι → UInt64)
    (hlt : ∑ i ∈ s, (f i).toNat < 2 ^ 64) : (∑ i ∈ s, f i).toNat = ∑ i ∈ s, (f i).toNat := by
  classical
  induction s using Finset.induction_on with
  | empty => rfl
  | insert i s hi ih =>
      rw [sum_insert hi] at hlt ⊢
      rw [sum_insert hi, UInt64.toNat_add, ih (by omega)]
      exact Nat.mod_eq_of_lt hlt

end Words

section Norm

variable {n : ℕ} {h c : ℕ → ZMod 12289} {s2 s1 s1' : ℕ → ℤ}

theorem NormVector.unique (hn : 0 < n) (hs1 : NormVector n h c s2 s1)
    (hs1' : NormVector n h c s2 s1') {j : ℕ} (hj : j < n) : s1 j = s1' j := by
  have hcast := eq_of_mk_polyOf_eq hn (hs1.equation.trans hs1'.equation.symm) hj
  have hdvd : (12289 : ℤ) ∣ s1 j - s1' j := by
    apply (ZMod.intCast_zmod_eq_zero_iff_dvd (s1 j - s1' j) 12289).mp
    rw [Int.cast_sub]
    exact sub_eq_zero.mpr hcast
  have hbound := abs_le.mp (hs1.centred j hj)
  have hbound' := abs_le.mp (hs1'.centred j hj)
  obtain ⟨k, hk⟩ := hdvd
  omega

theorem squaredNorm_congr (hs1 : ∀ j < n, s1 j = s1' j) :
    squaredNorm n s1 s2 = squaredNorm n s1' s2 := by
  refine sum_congr rfl fun j hj => ?_
  rw [hs1 j (mem_range.mp hj)]

end Norm

section Sums

variable {blockDim n : ℕ} {nInv : UInt32} {tt hm : ℕ → UInt32} {s2 : ℕ → Int16}

def computedS1 (nInv : UInt32) (tt hm : ℕ → UInt32) (j : ℕ) : Int32 :=
  centredWord (mqSubDevice (mqMontymulDevice (tt j) nInv) (hm j))

/-- The partial sum of a thread, as a sum over its iterations. -/
theorem localSum_eq (blockDim n : ℕ) (nInv : UInt32) (tt hm : ℕ → UInt32) (s2 : ℕ → Int16)
    (tid : ℕ) :
    localSum blockDim n nInv tt hm s2 tid = ((stridedLoop blockDim n tid).map fun j =>
      squareWord (computedS1 nInv tt hm j) + squareWord (s2 j).toInt32).sum := by
  have hgeneral : ∀ (l : List ℕ) (acc : UInt64),
      l.foldl (fun acc j => acc + squareWord (computedS1 nInv tt hm j) +
        squareWord (s2 j).toInt32) acc =
      acc + (l.map fun j =>
        squareWord (computedS1 nInv tt hm j) + squareWord (s2 j).toInt32).sum := by
    intro l
    induction l with
    | nil => exact fun acc => (add_zero acc).symm
    | cons j l ih =>
        intro acc
        rw [List.foldl_cons, ih, List.map_cons, List.sum_cons, add_assoc acc, add_assoc acc]
  exact (hgeneral _ 0).trans (zero_add _)

/-- The threads of a block together sum over all coefficients. -/
theorem treeReduction_localSum {k : ℕ} (schedules : VerifySchedules (2 ^ k) n)
    (sum : ℕ → UInt64) :
    treeReduction schedules.reduce (2 ^ k / 2)
      (runTasks (scatterTask id (localSum (2 ^ k) n nInv tt hm s2)) schedules.store.order sum) 0 =
      ∑ j ∈ range n, (squareWord (computedS1 nInv tt hm j) + squareWord (s2 j).toInt32) := by
  have hdim : 0 < 2 ^ k := Nat.two_pow_pos k
  rw [treeReduction_zero hdim schedules.reduce le_rfl]
  refine Eq.trans (sum_congr rfl fun tid htid => ?_) (sum_stridedLoop hdim n _)
  rw [← localSum_eq]
  exact runTasks_scatterTask id _ (schedules.store.nodup hdim) Function.injective_id.injOn sum
    ((schedules.store.mem_order hdim).mpr (mem_range.mp htid))

theorem toNat_sum_squareWord (hn : n ≤ 1024) {s1 : ℕ → Int32}
    (hs1 : ∀ j < n, |(s1 j).toInt| ≤ 6144) (hs2 : ∀ j < n, |(s2 j).toInt| ≤ 2047) :
    ((∑ j ∈ range n, (squareWord (s1 j) + squareWord (s2 j).toInt32)).toNat : ℤ) =
      squaredNorm n (fun j => (s1 j).toInt) (fun j => (s2 j).toInt) := by
  have hterm : ∀ j ∈ range n,
      ((squareWord (s1 j) + squareWord (s2 j).toInt32).toNat : ℤ) =
        (s1 j).toInt ^ 2 + (s2 j).toInt ^ 2 ∧
      (squareWord (s1 j) + squareWord (s2 j).toInt32).toNat ≤ 2 ^ 26 := by
    intro j hj
    have hj := mem_range.mp hj
    have hleft := toNat_squareWord ((hs1 j hj).trans (by norm_num))
    have hright : ((squareWord (s2 j).toInt32).toNat : ℤ) = (s2 j).toInt ^ 2 := by
      rw [toNat_squareWord (by rw [Int16.toInt_toInt32]; exact (hs2 j hj).trans (by norm_num)),
        Int16.toInt_toInt32]
    have hsq1 : (s1 j).toInt ^ 2 ≤ 6144 ^ 2 := sq_le_sq' (abs_le.mp (hs1 j hj)).1
      (abs_le.mp (hs1 j hj)).2
    have hsq2 : (s2 j).toInt ^ 2 ≤ 2047 ^ 2 := sq_le_sq' (abs_le.mp (hs2 j hj)).1
      (abs_le.mp (hs2 j hj)).2
    rw [UInt64.toNat_add, Nat.mod_eq_of_lt (by omega), Nat.cast_add, hleft, hright]
    exact ⟨rfl, by omega⟩
  have hsmall : ∑ j ∈ range n, (squareWord (s1 j) + squareWord (s2 j).toInt32).toNat <
      2 ^ 64 := by
    have hle := sum_le_card_nsmul (range n) _ _ fun j hj => (hterm j hj).2
    rw [card_range, smul_eq_mul] at hle
    have : n * 2 ^ 26 ≤ 1024 * 2 ^ 26 := Nat.mul_le_mul_right _ hn
    omega
  rw [toNat_sum_of_lt _ _ hsmall, Nat.cast_sum]
  exact sum_congr rfl fun j hj => (hterm j hj).1

end Sums

section Verdict

variable {logn : ℕ} {s2 : ℕ → Int16} {s : VerifyState}

theorem toNat_bound (logn : ℕ) :
    (3 * (verifyL2boundDevice logn).toUInt64).toNat = 3 * (verifyL2boundDevice logn).toNat := by
  have hlt := (verifyL2boundDevice logn).toNat_lt
  rw [UInt64.toNat_mul, UInt32.toNat_toUInt64]
  exact Nat.mod_eq_of_lt (by rw [show (3 : UInt64).toNat = 3 from rfl]; omega)

/-- The verdict compares the squared norm of `s2` and of the `s1` that the threads
compute, provided that these are in range. -/
theorem verifyVerdict_eq {hNttMonty : ℕ → UInt16} {nInv : UInt32} (hlogn : logn ≤ 10) {k : ℕ}
    (schedules : VerifySchedules (2 ^ k) (2 ^ logn))
    (hs2 : ∀ j < 2 ^ logn, |(s2 j).toInt| ≤ 2047) {s1 : ℕ → Int32}
    (hs1 : ∀ j < 2 ^ logn, |(s1 j).toInt| ≤ 6144)
    (hcomputed : s1 = computedS1 nInv (kernelProduct gmb igmb schedules.product
      (fun j => (hNttMonty j).toUInt32) s.tt) s.hm) :
    verifyVerdict hNttMonty gmb igmb nInv logn schedules s2 s =
      if squaredNorm (2 ^ logn) (fun j => (s1 j).toInt) (fun j => (s2 j).toInt) ≤
        3 * (verifyL2boundDevice logn).toNat then 1 else 0 := by
  subst hcomputed
  simp only [verifyVerdict, treeReduction_localSum]
  refine if_congr ?_ rfl rfl
  rw [UInt64.le_iff_toNat_le, toNat_bound, ← toNat_sum_squareWord (two_pow_le_1024 hlogn) hs1 hs2]
  norm_cast

theorem lifted_s2 {x : Int16} (hx : |x.toInt| ≤ 2047) :
    Reduced (addQIfNegative x.toInt32.toUInt32) ∧
      residue (addQIfNegative x.toInt32.toUInt32) = (x.toInt : ZMod 12289) := by
  obtain ⟨hlow, hhigh⟩ := abs_le.mp hx
  have hspec := addQIfNegative_spec (x := x.toInt32)
  rw [Int16.toInt_toInt32] at hspec
  exact hspec (by omega) (by omega)

theorem nttMontgomeryForm_spec (hlogn : logn ≤ 10) {h : ℕ → UInt16}
    (hh : ReducedBelow16 (2 ^ logn) h) :
    ReducedBelow16 (2 ^ logn) (nttMontgomeryForm logn h) ∧
      ∀ j < 2 ^ logn, residue16 (nttMontgomeryForm logn h j) * montyInverse =
        forward twiddle logn 1 (fun j => residue16 (h j)) j := by
  obtain ⟨-, hres⟩ := mqNttHost_spec hlogn hh
  suffices hall : ∀ j, ((nttMontgomeryForm logn h j).toUInt32).toNat =
      (mqNttHost gmb logn h j).toNat * 65536 % 12289 by
    refine ⟨fun j _ => ?_, fun j hj => ?_⟩
    · rw [Reduced, hall]
      exact Nat.mod_lt _ (by norm_num)
    · have hinv := montyInverse_mul
      rw [← hres j hj, residue16, residue_eq_of_mod (hall j), residue16, residue,
        UInt16.toNat_toUInt32]
      push_cast
      linear_combination ((mqNttHost gmb logn h j).toNat : ZMod 12289) * hinv
  intro j
  have hlt := Nat.mod_lt ((mqNttHost gmb logn h j).toNat * 65536) (show 0 < 12289 by norm_num)
  rw [nttMontgomeryForm, UInt16.toNat_toUInt32, Nat.toUInt16, UInt16.toNat_ofNat']
  omega

/-- The `s1` that the threads compute solves the norm equation. -/
theorem normVector_computedS1 (hlogn : logn ≤ 10) {k : ℕ}
    (schedules : ProductSchedules (2 ^ k) (2 ^ logn)) {h : ℕ → UInt16}
    (hh : ReducedBelow16 (2 ^ logn) h) {tt hm : ℕ → UInt32} {s2 : ℕ → ℤ}
    (htt : ∀ j < 2 ^ logn, Reduced (tt j) ∧ residue (tt j) = (s2 j : ZMod 12289))
    (hhm : ReducedBelow (2 ^ logn) hm) :
    NormVector (2 ^ logn) (fun j => residue16 (h j)) (fun j => residue (hm j)) s2 fun j =>
      (computedS1 (nInv logn) (kernelProduct gmb igmb schedules
        (fun j => (nttMontgomeryForm logn h j).toUInt32) tt) hm j).toInt := by
  have hdim : 0 < 2 ^ k := Nat.two_pow_pos k
  obtain ⟨hkey, hkeyres⟩ := nttMontgomeryForm_spec hlogn hh
  have hproduct := fun j hj => kernelProduct_spec hdim hlogn schedules hkey hkeyres
    (fun j hj => (htt j hj).1) (j := j) hj
  have hdiff := fun j hj => reduced_mqSubU32 (hproduct j hj).1 (hhm j hj)
  refine ⟨fun j hj => (centredWord_spec (hdiff j hj)).1, ?_⟩
  have htt2 : ringElement (2 ^ logn) (fun j => (s2 j : ZMod 12289)) =
      ringElement (2 ^ logn) (fun j => residue (tt j)) :=
    ringElement_congr fun j hj => (htt j hj).2.symm
  rw [htt2, mul_comm, ← ringElement_negacyclicMul (Nat.two_pow_pos logn), ← ringElement_sub]
  refine ringElement_congr fun j hj => ?_
  rw [computedS1, mqSubDevice, (centredWord_spec (hdiff j hj)).2,
    residue_mqSubU32 (hproduct j hj).1 (hhm j hj), (hproduct j hj).2]

/-- What the verdict is for `s2`, once `tt_shared` and `hm_shared` are filled. -/
theorem verifyVerdict_spec (hlogn : logn ≤ 10) {k : ℕ}
    (schedules : VerifySchedules (2 ^ k) (2 ^ logn)) {h : ℕ → UInt16}
    (hh : ReducedBelow16 (2 ^ logn) h) (hs2 : ∀ j < 2 ^ logn, |(s2 j).toInt| ≤ 2047)
    (htt : ∀ j < 2 ^ logn, s.tt j = addQIfNegative (s2 j).toInt32.toUInt32)
    (hhm : ReducedBelow (2 ^ logn) s.hm) {s1 : ℕ → ℤ}
    (hs1 : NormVector (2 ^ logn) (fun j => residue16 (h j)) (fun j => residue (s.hm j))
      (fun j => (s2 j).toInt) s1) :
    verifyVerdict (nttMontgomeryForm logn h) gmb igmb (nInv logn) logn schedules s2 s =
      if squaredNorm (2 ^ logn) s1 (fun j => (s2 j).toInt) ≤ 3 * (verifyL2boundDevice logn).toNat
        then 1 else 0 := by
  have hlifted : ∀ j < 2 ^ logn, Reduced (s.tt j) ∧
      residue (s.tt j) = ((s2 j).toInt : ZMod 12289) := by
    intro j hj
    rw [htt j hj]
    exact lifted_s2 (hs2 j hj)
  have hnorm := normVector_computedS1 hlogn schedules.product hh hlifted hhm
  rw [verifyVerdict_eq hlogn schedules hs2 hnorm.centred rfl,
    squaredNorm_congr fun j hj => hnorm.unique (Nat.two_pow_pos logn) hs1 hj]

theorem loadRaw_hm {blockDim n : ℕ} (hdim : 0 < blockDim) (schedule : Schedule blockDim n)
    (hmBank : ℤ → UInt16) (s2Bank : ℤ → Int16) (token : ℕ) (s : VerifyState) {j : ℕ}
    (hj : j < n) :
    (runTasks (loadRaw hmBank s2Bank token n) schedule.order s).hm j =
      (hmBank (bankIndex token n j)).toUInt32 := by
  rw [runTasks_component VerifyState.hm (scatterTask id fun j =>
    (hmBank (bankIndex token n j)).toUInt32) (fun _ _ => rfl)]
  exact runTasks_scatterTask id _ (schedule.nodup hdim) Function.injective_id.injOn _
    ((schedule.mem_order hdim).mpr hj)

theorem loadRaw_tt {blockDim n : ℕ} (hdim : 0 < blockDim) (schedule : Schedule blockDim n)
    (hmBank : ℤ → UInt16) (s2Bank : ℤ → Int16) (token : ℕ) (s : VerifyState) {j : ℕ}
    (hj : j < n) :
    (runTasks (loadRaw hmBank s2Bank token n) schedule.order s).tt j =
      addQIfNegative (s2Bank (bankIndex token n j)).toInt32.toUInt32 := by
  rw [runTasks_component VerifyState.tt (scatterTask id fun j =>
    addQIfNegative (s2Bank (bankIndex token n j)).toInt32.toUInt32) (fun _ _ => rfl)]
  exact runTasks_scatterTask id _ (schedule.nodup hdim) Function.injective_id.injOn _
    ((schedule.mem_order hdim).mpr hj)

/-- The verifier decides the norm equation. -/
theorem kernelVerifyRawBatch_spec (hlogn : logn ≤ 10) {k : ℕ}
    (schedules : VerifySchedules (2 ^ k) (2 ^ logn)) {h : ℕ → UInt16}
    (hh : ∀ j < 2 ^ logn, (h j).toNat < 12289) {hmBank : ℤ → UInt16} {s2Bank : ℤ → Int16}
    {token tokens : ℕ} (htoken : token < tokens)
    (hhm : ∀ j < 2 ^ logn, (hmBank (bankIndex token (2 ^ logn) j)).toNat < 12289)
    (hs2 : ∀ j < 2 ^ logn, |(s2Bank (bankIndex token (2 ^ logn) j)).toInt| ≤ 2047)
    (s : VerifyState) (resultBank : ℕ → UInt8) :
    let c j := residue16 (hmBank (bankIndex token (2 ^ logn) j))
    let s2 j := (s2Bank (bankIndex token (2 ^ logn) j)).toInt
    (∃ s1, NormVector (2 ^ logn) (fun j => residue16 (h j)) c s2 s1) ∧
      ∀ s1, NormVector (2 ^ logn) (fun j => residue16 (h j)) c s2 s1 →
        kernelVerifyRawBatch (nttMontgomeryForm logn h) gmb igmb (nInv logn) logn tokens hmBank
          s2Bank token schedules s resultBank token =
        if squaredNorm (2 ^ logn) s1 s2 ≤ 3 * (verifyL2boundDevice logn).toNat then 1 else 0 := by
  intro c s2
  have hdim : 0 < 2 ^ k := Nat.two_pow_pos k
  have hloadhm := fun j hj => loadRaw_hm hdim schedules.load hmBank s2Bank token s (j := j) hj
  have hloadtt := fun j hj => loadRaw_tt hdim schedules.load hmBank s2Bank token s (j := j) hj
  have hred : ReducedBelow (2 ^ logn)
      (runTasks (loadRaw hmBank s2Bank token (2 ^ logn)) schedules.load.order s).hm := by
    intro j hj
    rw [hloadhm j hj]
    exact hhm j hj
  have hc : ringElement (2 ^ logn) c = ringElement (2 ^ logn) (fun j => residue
      ((runTasks (loadRaw hmBank s2Bank token (2 ^ logn)) schedules.load.order s).hm j)) := by
    refine ringElement_congr fun j hj => ?_
    rw [hloadhm j hj]
    rfl
  constructor
  · have hlifted : ∀ j < 2 ^ logn,
        Reduced (addQIfNegative (s2Bank (bankIndex token (2 ^ logn) j)).toInt32.toUInt32) ∧
          residue (addQIfNegative (s2Bank (bankIndex token (2 ^ logn) j)).toInt32.toUInt32) =
            (s2 j : ZMod 12289) := fun j hj => lifted_s2 (hs2 j hj)
    obtain ⟨hcentred, hequation⟩ :=
      normVector_computedS1 hlogn schedules.product hh hlifted hred
    rw [← hc] at hequation
    exact ⟨_, hcentred, hequation⟩
  · intro s1 hs1
    have hequation := hs1.equation
    rw [hc] at hequation
    rw [kernelVerifyRawBatch, if_neg (by omega), Function.update_self]
    exact verifyVerdict_spec hlogn schedules hh hs2 hloadtt hred ⟨hs1.centred, hequation⟩

end Verdict

def VerifySchedules.sequential (blockDim n : ℕ) : VerifySchedules blockDim n where
  load := .sequential blockDim n
  product := .sequential blockDim n
  store := .sequential blockDim blockDim
  reduce _ := .sequential blockDim blockDim

def blankVerifyState : VerifyState where
  hm _ := 0
  tt _ := 0
  sum _ := 0

def sampleHmBank (_ : ℤ) : UInt16 := 3

def sampleS2Bank (i : ℤ) : Int16 := if i = 0 then 1 else 0

theorem kernelVerifyRawBatch_spec_sampleKey :
    kernelVerifyRawBatch (nttMontgomeryForm 1 sampleKey) gmb igmb (nInv 1) 1 1 sampleHmBank
      sampleS2Bank 0 (VerifySchedules.sequential (2 ^ 2) (2 ^ 1)) blankVerifyState
      (fun _ => 0) 0 = 1 := by
  have hspec := kernelVerifyRawBatch_spec (show 1 ≤ 10 by decide)
    (.sequential (2 ^ 2) (2 ^ 1)) (h := sampleKey) (by decide) (show 0 < 1 by decide)
    (show ∀ j < 2 ^ 1, (sampleHmBank (bankIndex 0 (2 ^ 1) j)).toNat < 12289 by decide)
    (show ∀ j < 2 ^ 1, |(sampleS2Bank (bankIndex 0 (2 ^ 1) j)).toInt| ≤ 2047 by decide)
    blankVerifyState (fun _ => 0)
  -- `s2` is 1, so that `s1` is the key less the hashed point.
  have hone : ringElement (2 ^ 1)
      (fun j => ((sampleS2Bank (bankIndex 0 (2 ^ 1) j)).toInt : ZMod 12289)) = 1 := by
    have hcoeff : ∀ j < 2 ^ 1, ((sampleS2Bank (bankIndex 0 (2 ^ 1) j)).toInt : ZMod 12289) =
        if j = 0 then 1 else 0 := by decide
    rw [ringElement_congr hcoeff, ringElement, polyOf]
    simp
  refine (hspec.2 (fun j => if j = 0 then 2 else -4) ⟨by decide, ?_⟩).trans (by decide)
  rw [hone, one_mul, ← ringElement_sub]
  exact ringElement_congr (by decide)

end Soko.Gpu
