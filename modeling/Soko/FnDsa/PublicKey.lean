import Soko.FnDsa.Ring
import Soko.Library.Loops

/-!
The functions of `submodules/FN-DSA/vrfy.c` that work with a private key. They divide in
NTT representation, so that they fail just when `f` is not a unit of the ring:
`compute_public` computes `g / f`, and `complete_private` the `G` with `f * G = g * F`, if
its coefficients are small.
-/

namespace Soko.FnDsa

open Soko.Library Soko.Gpu Finset

attribute [local instance] fact_prime_q

def mqConvSmall (x : Int32) : UInt32 := addQIfNegative x.toUInt32

/-- The loop that reduces small signed integers modulo `q`. Several functions have the
body of `mq_conv_small` in its place. -/
def storeSmall (n : ℕ) (x : ℕ → Int32) (a : ℕ → UInt16) : ℕ → UInt16 :=
  (List.range n).foldl (fun a u => Function.update a u (mqConvSmall (x u)).toUInt16) a

/-- The loop that divides in NTT representation and fails at a zero. -/
def divideNtt (n : ℕ) (tt h : ℕ → UInt16) : Option (ℕ → UInt16) :=
  rewriteLoop (fun u hu =>
    if tt u = 0 then none else some (mqDiv12289 hu.toUInt32 (tt u).toUInt32).toUInt16)
    (List.range n) h

/-- `compute_public`. The loop that fills `tt` and `h` is two loops here; the result 0 is
`none`. -/
def computePublic (h : ℕ → UInt16) (f g : ℕ → Int8) (logn : ℕ) (tmp : ℕ → UInt16) :
    Option (ℕ → UInt16) := do
  let n := 2 ^ logn
  let tt := storeSmall n (fun u => (f u).toInt32) tmp
  let h := storeSmall n (fun u => (g u).toInt32) h
  let h := mqNTT logn h
  let tt := mqNTT logn tt
  let h ← divideNtt n tt h
  return mqINTT logn h

/-- `gi`, from `t1[u]`. -/
def centredSmall (x : UInt16) : Int32 :=
  let w := x.toUInt32
  let w := w - (oofalconQ &&& ~~~(-((w - (oofalconQ >>> 1)) >>> 31)))
  w.toInt32

def storeCentred (n : ℕ) (t1 : ℕ → UInt16) (G : ℕ → Int8) : Option (ℕ → Int8) :=
  rewriteLoop (fun u _ =>
    let gi := centredSmall (t1 u)
    if gi < -127 ∨ gi > 127 then none else some gi.toInt8) (List.range n) G

/-- `complete_private`, where `t1` and `t2` are the halves of `tmp`. -/
def completePrivate (G f g F : ℕ → Int8) (logn : ℕ) (t1 t2 : ℕ → UInt16) :
    Option (ℕ → Int8) := do
  let n := 2 ^ logn
  let t1 := storeSmall n (fun u => (g u).toInt32) t1
  let t2 := storeSmall n (fun u => (F u).toInt32) t2
  let t1 := mqNTT logn t1
  let t2 := mqNTT logn t2
  let t1 := mqPolyTomonty logn t1
  let t1 := mqPolyMontymulNtt logn t1 t2
  let t2 := storeSmall n (fun u => (f u).toInt32) t2
  let t2 := mqNTT logn t2
  let t1 ← divideNtt n t2 t1
  let t1 := mqINTT logn t1
  storeCentred n t1 G

noncomputable def signedElement (n : ℕ) (x : ℕ → ℤ) : NegacyclicRing n :=
  ringElement n fun j => (x j : ZMod 12289)

section Filling

variable {logn : ℕ} {x : ℕ → Int32}

/-- The entries are small enough for `mq_conv_small`. -/
def Small (n : ℕ) (x : ℕ → Int32) : Prop := ∀ j < n, |(x j).toInt| < 12289

theorem small_int8 (n : ℕ) (f : ℕ → Int8) : Small n fun u => (f u).toInt32 := by
  intro j _
  have hlow := (f j).le_toInt
  have hhigh := (f j).toInt_lt
  rw [Int8.toInt_toInt32, abs_lt]
  omega

theorem mqConvSmall_spec {x : Int32} (hx : |x.toInt| < 12289) :
    Reduced (mqConvSmall x) ∧ residue (mqConvSmall x) = (x.toInt : ZMod 12289) := by
  obtain ⟨hlow, hhigh⟩ := abs_lt.mp hx
  exact addQIfNegative_spec hlow.le hhigh

theorem storeSmall_spec {n : ℕ} (hx : Small n x) (a : ℕ → UInt16) :
    ReducedBelow16 n (storeSmall n x a) ∧
      ∀ j < n, residue16 (storeSmall n x a j) = ((x j).toInt : ZMod 12289) := by
  have hentry : ∀ j < n, (storeSmall n x a j).toUInt32 = mqConvSmall (x j) := by
    intro j hj
    rw [storeSmall, foldl_update_apply (fun u _ => (mqConvSmall (x u)).toUInt16) a hj]
    exact toUInt32_toUInt16 (mqConvSmall_spec (hx j hj)).1
  refine ⟨fun j hj => ?_, fun j hj => ?_⟩
  · rw [hentry j hj]
    exact (mqConvSmall_spec (hx j hj)).1
  · rw [residue16, hentry j hj]
    exact (mqConvSmall_spec (hx j hj)).2

theorem mqNTT_storeSmall (hlogn : logn ≤ 10) (hx : Small (2 ^ logn) x) (a : ℕ → UInt16) :
    ReducedBelow16 (2 ^ logn) (mqNTT logn (storeSmall (2 ^ logn) x a)) ∧
      ∀ l < 2 ^ logn, residue16 (mqNTT logn (storeSmall (2 ^ logn) x a) l) =
        forward twiddle logn 1 (fun j => ((x j).toInt : ZMod 12289)) l := by
  obtain ⟨hred, hres⟩ := storeSmall_spec hx a
  obtain ⟨hred', hres'⟩ := mqNTT_spec hlogn hred
  refine ⟨hred', fun l hl => (hres' l hl).trans ?_⟩
  exact forward_congr twiddle (fun i hi => hres i (by omega)) (by omega)

theorem residue16_eq_zero_iff {x : UInt16} (hx : Reduced x.toUInt32) :
    residue16 x = 0 ↔ x = 0 := by
  constructor
  · intro hzero
    have hword := eq_of_residue hx (show Reduced 0 by decide) (hzero.trans (by decide))
    rw [← UInt16.toNat_inj, ← UInt16.toNat_toUInt32, hword]
    rfl
  · rintro rfl
    decide

end Filling

section Division

variable {logn : ℕ} {tt h : ℕ → UInt16} {f g : ℕ → ZMod 12289}

theorem residue16_div {x y : UInt16} (hx : Reduced x.toUInt32) (hy : Reduced y.toUInt32) :
    Reduced (mqDiv12289 x.toUInt32 y.toUInt32).toUInt16.toUInt32 ∧
      residue16 (mqDiv12289 x.toUInt32 y.toUInt32).toUInt16 = residue16 x / residue16 y := by
  obtain ⟨hred, hres⟩ := mqDiv12289_spec hx hy
  rw [residue16, toUInt32_toUInt16 hred]
  exact ⟨hred, hres⟩

/-- The division fails if and only if the divisor is not a unit. -/
theorem divideNtt_eq_none_iff (hlogn : logn ≤ 10) (htt : ReducedBelow16 (2 ^ logn) tt)
    (hf : ∀ l < 2 ^ logn, residue16 (tt l) = forward twiddle logn 1 f l) :
    divideNtt (2 ^ logn) tt h = none ↔ ¬IsUnit (ringElement (2 ^ logn) f) := by
  have hleaf : ∀ l < 2 ^ logn, tt l = 0 ↔ forward twiddle logn 1 f l = 0 := fun l hl => by
    rw [← hf l hl, residue16_eq_zero_iff (htt l hl)]
  rw [divideNtt, rewriteLoop_eq_none_iff List.nodup_range, isUnit_ringElement_iff hlogn]
  constructor
  · rintro ⟨l, hl, hnone⟩ hunit
    have hl := List.mem_range.mp hl
    by_cases hzero : tt l = 0
    · exact hunit l hl ((hleaf l hl).mp hzero)
    · simp [hzero] at hnone
  · intro hnot
    push Not at hnot
    obtain ⟨l, hl, hzero⟩ := hnot
    exact ⟨l, List.mem_range.mpr hl, if_pos ((hleaf l hl).mpr hzero)⟩

theorem mqINTT_divideNtt (hlogn : logn ≤ 10) (htt : ReducedBelow16 (2 ^ logn) tt)
    (hf : ∀ l < 2 ^ logn, residue16 (tt l) = forward twiddle logn 1 f l)
    (hh : ReducedBelow16 (2 ^ logn) h)
    (hg : ∀ l < 2 ^ logn, residue16 (h l) = forward twiddle logn 1 g l) {h' : ℕ → UInt16}
    (hdivide : divideNtt (2 ^ logn) tt h = some h') :
    ReducedBelow16 (2 ^ logn) (mqINTT logn h') ∧
      ringElement (2 ^ logn) f * ringElement (2 ^ logn) (fun j => residue16 (mqINTT logn h' j)) =
        ringElement (2 ^ logn) g := by
  have hunit : IsUnit (ringElement (2 ^ logn) f) := by
    by_contra hnot
    rw [(divideNtt_eq_none_iff hlogn htt hf).mpr hnot] at hdivide
    cases hdivide
  have hentry : ∀ l < 2 ^ logn, h' l = (mqDiv12289 (h l).toUInt32 (tt l).toUInt32).toUInt16 := by
    intro l hl
    have hword := (rewriteLoop_apply List.nodup_range hdivide).1 l (List.mem_range.mpr hl)
    split at hword
    · cases hword
    · exact (Option.some.inj hword).symm
  refine ringElement_quotient hlogn hunit (fun l hl => ?_) fun l hl => ?_
  · rw [hentry l hl]
    exact (residue16_div (hh l hl) (htt l hl)).1
  · rw [hentry l hl, (residue16_div (hh l hl) (htt l hl)).2, hg l hl, hf l hl]

/-- Some divisor always divides: `compute_public` and `complete_private` fail only here. -/
theorem exists_divideNtt (hlogn : logn ≤ 10) (htt : ReducedBelow16 (2 ^ logn) tt)
    (hf : ∀ l < 2 ^ logn, residue16 (tt l) = forward twiddle logn 1 f l)
    (hunit : IsUnit (ringElement (2 ^ logn) f)) : ∃ h', divideNtt (2 ^ logn) tt h = some h' :=
  Option.ne_none_iff_exists'.mp fun hnone =>
    (divideNtt_eq_none_iff hlogn htt hf).mp hnone hunit

end Division

section ComputePublic

variable {logn : ℕ} {f g F G : ℕ → Int8}

theorem small_leaves (hlogn : logn ≤ 10) (f : ℕ → Int8) (a : ℕ → UInt16) :
    let t := mqNTT logn (storeSmall (2 ^ logn) (fun u => (f u).toInt32) a)
    ReducedBelow16 (2 ^ logn) t ∧ ∀ l < 2 ^ logn, residue16 (t l) =
      forward twiddle logn 1 (fun j => ((f j).toInt : ZMod 12289)) l := by
  have hspec := mqNTT_storeSmall hlogn (small_int8 (2 ^ logn) f) a
  simp only [Int8.toInt_toInt32] at hspec
  exact hspec

theorem computePublic_eq_none_iff (hlogn : logn ≤ 10) (h : ℕ → UInt16) (f g : ℕ → Int8)
    (tmp : ℕ → UInt16) :
    computePublic h f g logn tmp = none ↔
      ¬IsUnit (signedElement (2 ^ logn) fun j => (f j).toInt) := by
  obtain ⟨hf, hfleaf⟩ := small_leaves hlogn f tmp
  simp only [computePublic, bind_pure_comp, Option.map_eq_map]
  rw [Option.map_eq_none_iff]
  exact divideNtt_eq_none_iff hlogn hf hfleaf

theorem computePublic_quotient (hlogn : logn ≤ 10) {h tmp h' : ℕ → UInt16}
    (hh' : computePublic h f g logn tmp = some h') :
    ReducedBelow16 (2 ^ logn) h' ∧
      signedElement (2 ^ logn) (fun j => (f j).toInt) *
        ringElement (2 ^ logn) (fun j => residue16 (h' j)) =
      signedElement (2 ^ logn) fun j => (g j).toInt := by
  obtain ⟨hg, hgleaf⟩ := small_leaves hlogn g h
  obtain ⟨hf, hfleaf⟩ := small_leaves hlogn f tmp
  simp only [computePublic, bind_pure_comp, Option.map_eq_map] at hh'
  obtain ⟨quotient, hdivide, rfl⟩ := Option.map_eq_some_iff.mp hh'
  exact mqINTT_divideNtt hlogn hf hfleaf hg hgleaf hdivide

/-- The product of two polynomials in NTT representation, where one is brought into
Montgomery form first. -/
theorem mqPolyMontymulNtt_tomonty {t1 : ℕ → UInt16} (h1 : ReducedBelow16 (2 ^ logn) t1)
    (t2 : ℕ → UInt16) :
    let t := mqPolyMontymulNtt logn (mqPolyTomonty logn t1) t2
    ReducedBelow16 (2 ^ logn) t ∧
      ∀ l < 2 ^ logn, residue16 (t l) = residue16 (t1 l) * residue16 (t2 l) := by
  obtain ⟨hred, hres⟩ : ReducedBelow16 (2 ^ logn) (mqPolyTomonty logn t1) ∧
      ∀ l < 2 ^ logn, residue16 (mqPolyTomonty logn t1 l) * montyInverse = residue16 (t1 l) :=
    mqPolyTomontyHost_spec h1
  obtain ⟨hred', hres'⟩ := mqPolyMontymulNtt_spec hred t2
  refine ⟨hred', fun l hl => (hres' l hl).trans ?_⟩
  rw [← hres l hl, mul_right_comm]

theorem product_leaves (hlogn : logn ≤ 10) (g F : ℕ → Int8) (t1 t2 : ℕ → UInt16) :
    let t := mqPolyMontymulNtt logn
      (mqPolyTomonty logn (mqNTT logn (storeSmall (2 ^ logn) (fun u => (g u).toInt32) t1)))
      (mqNTT logn (storeSmall (2 ^ logn) (fun u => (F u).toInt32) t2))
    ReducedBelow16 (2 ^ logn) t ∧ ∀ l < 2 ^ logn, residue16 (t l) =
      forward twiddle logn 1 (negacyclicMul (2 ^ logn) (fun j => ((g j).toInt : ZMod 12289))
        fun j => ((F j).toInt : ZMod 12289)) l := by
  intro t
  obtain ⟨hg, hgleaf⟩ := small_leaves hlogn g t1
  obtain ⟨-, hFleaf⟩ := small_leaves hlogn F t2
  obtain ⟨hred, hres⟩ := mqPolyMontymulNtt_tomonty hg
    (mqNTT logn (storeSmall (2 ^ logn) (fun u => (F u).toInt32) t2))
  refine ⟨hred, fun l hl => (hres l hl).trans ?_⟩
  rw [hgleaf l hl, hFleaf l hl, (transformTables hlogn).forward_negacyclicMul _ _ hl]

/-- The mask that is made of the complement of the sign bit. -/
theorem mask_not_eq (d : UInt32) :
    oofalconQ &&& ~~~(-(d >>> 31)) = if d.toNat < 2 ^ 31 then oofalconQ else 0 := by
  have hshift : (d >>> 31).toNat = d.toNat / 2 ^ 31 := by
    simp [UInt32.toNat_shiftRight, Nat.shiftRight_eq_div_pow]
  have hlt := d.toNat_lt
  split
  · have hzero : d >>> 31 = 0 := by
      apply UInt32.toNat_inj.mp
      rw [hshift, UInt32.toNat_zero]
      omega
    rw [hzero]
    decide
  · have hone : d >>> 31 = 1 := by
      apply UInt32.toNat_inj.mp
      rw [hshift, UInt32.toNat_one]
      omega
    rw [hone]
    decide

/-- The representative that `complete_private` takes, from `-6145` to `6143`. -/
theorem centredSmall_spec {x : UInt16} (hx : Reduced x.toUInt32) :
    |(centredSmall x).toInt| ≤ 6145 ∧
      ((centredSmall x).toInt : ZMod 12289) = residue16 x := by
  unfold Reduced at hx
  have hhalf : (oofalconQ >>> 1).toNat = 6144 := by decide
  have hq : oofalconQ.toNat = 12289 := by decide
  have hdiff : (x.toUInt32 - oofalconQ >>> 1).toNat =
      (2 ^ 32 - 6144 + x.toUInt32.toNat) % 2 ^ 32 := by
    rw [UInt32.toNat_sub, hhalf]
  have hint : ∀ w : UInt32, w.toInt32.toInt =
      if 2 * w.toNat < 2 ^ 32 then (w.toNat : ℤ) else (w.toNat : ℤ) - (2 ^ 32 : ℕ) := fun w =>
    BitVec.toInt_eq_toNat_cond w.toBitVec
  have hzero : (12289 : ZMod 12289) = 0 := by decide
  simp only [centredSmall]
  rw [mask_not_eq, hdiff]
  by_cases hlarge : 6144 ≤ x.toUInt32.toNat
  · have hword : (x.toUInt32 - oofalconQ).toNat = 2 ^ 32 - 12289 + x.toUInt32.toNat := by
      rw [UInt32.toNat_sub, hq]
      omega
    rw [if_pos (by omega), hint, hword, if_neg (by omega)]
    constructor
    · rw [abs_le]
      omega
    · rw [residue16, residue]
      push_cast [Nat.cast_sub]
      linear_combination -hzero
  · rw [if_neg (by omega), UInt32.sub_zero, hint, if_pos (by omega)]
    constructor
    · rw [abs_le]
      omega
    · exact Int.cast_natCast _

/-- The representative is determined by what it stands for, among the small ones. -/
theorem centredSmall_unique {x : UInt16} (hx : Reduced x.toUInt32) {y : ℤ} (hy : |y| ≤ 127)
    (hcast : (y : ZMod 12289) = residue16 x) : (centredSmall x).toInt = y := by
  obtain ⟨hbound, hres⟩ := centredSmall_spec hx
  have hdvd : (12289 : ℤ) ∣ (centredSmall x).toInt - y := by
    apply (ZMod.intCast_zmod_eq_zero_iff_dvd _ 12289).mp
    rw [Int.cast_sub, hres, hcast, sub_self]
  obtain ⟨hlow, hhigh⟩ := abs_le.mp hbound
  obtain ⟨hlow', hhigh'⟩ := abs_le.mp hy
  obtain ⟨k, hk⟩ := hdvd
  omega

theorem centred_range (gi : Int32) : ¬(gi < -127 ∨ gi > 127) ↔ |gi.toInt| ≤ 127 := by
  have hlow : gi < -127 ↔ gi.toInt < -127 := Int32.lt_iff_toInt_lt
  have hhigh : gi > 127 ↔ 127 < gi.toInt := Int32.lt_iff_toInt_lt
  rw [hlow, hhigh, abs_le]
  omega

theorem toInt_toInt8 {gi : Int32} (hgi : |gi.toInt| ≤ 127) : gi.toInt8.toInt = gi.toInt := by
  obtain ⟨hlow, hhigh⟩ := abs_le.mp hgi
  rw [Int32.toInt_toInt8]
  exact Int.bmod_eq_of_le (by omega) (by omega)

/-- The loop finds the small coefficients that stand for the entries, and fails if there are
none. -/
theorem storeCentred_spec {n : ℕ} {t1 : ℕ → UInt16} (ht1 : ReducedBelow16 n t1) (G : ℕ → Int8) :
    (∀ G', storeCentred n t1 G = some G' → ∀ j < n,
      |(G' j).toInt| ≤ 127 ∧ ((G' j).toInt : ZMod 12289) = residue16 (t1 j)) ∧
    ∀ x : ℕ → ℤ, (∀ j < n, |x j| ≤ 127 ∧ (x j : ZMod 12289) = residue16 (t1 j)) →
      ∃ G', storeCentred n t1 G = some G' ∧ ∀ j < n, (G' j).toInt = x j := by
  have hentry : ∀ G', storeCentred n t1 G = some G' → ∀ j < n,
      |(centredSmall (t1 j)).toInt| ≤ 127 ∧ (G' j).toInt = (centredSmall (t1 j)).toInt := by
    intro G' hG' j hj
    have hword := (rewriteLoop_apply List.nodup_range hG').1 j (List.mem_range.mpr hj)
    dsimp only at hword
    split at hword
    · cases hword
    · next hrange =>
        have hsmall := (centred_range _).mp hrange
        rw [← Option.some.inj hword]
        exact ⟨hsmall, toInt_toInt8 hsmall⟩
  constructor
  · intro G' hG' j hj
    obtain ⟨hsmall, hval⟩ := hentry G' hG' j hj
    rw [hval]
    exact ⟨hsmall, (centredSmall_spec (ht1 j hj)).2⟩
  · intro x hx
    have hunique : ∀ j < n, (centredSmall (t1 j)).toInt = x j := fun j hj =>
      centredSmall_unique (ht1 j hj) (hx j hj).1 (hx j hj).2
    have hne : storeCentred n t1 G ≠ none := by
      rw [storeCentred, Ne, rewriteLoop_eq_none_iff List.nodup_range]
      rintro ⟨j, hj, hnone⟩
      have hj := List.mem_range.mp hj
      have hrange := (centred_range (centredSmall (t1 j))).mpr (hunique j hj ▸ (hx j hj).1)
      dsimp only at hnone
      rw [if_neg hrange] at hnone
      cases hnone
    obtain ⟨G', hG'⟩ := Option.ne_none_iff_exists'.mp hne
    exact ⟨G', hG', fun j hj => (hentry G' hG' j hj).2.trans (hunique j hj)⟩

theorem completePrivate_solves (hlogn : logn ≤ 10) {t1 t2 : ℕ → UInt16} {G' : ℕ → Int8}
    (hG' : completePrivate G f g F logn t1 t2 = some G') :
    IsUnit (signedElement (2 ^ logn) fun j => (f j).toInt) ∧
      (∀ j < 2 ^ logn, |(G' j).toInt| ≤ 127) ∧
      signedElement (2 ^ logn) (fun j => (f j).toInt) *
          signedElement (2 ^ logn) (fun j => (G' j).toInt) =
        signedElement (2 ^ logn) (fun j => (g j).toInt) *
          signedElement (2 ^ logn) fun j => (F j).toInt := by
  obtain ⟨hp, hpleaf⟩ := product_leaves hlogn g F t1 t2
  obtain ⟨hf, hfleaf⟩ := small_leaves hlogn f
    (mqNTT logn (storeSmall (2 ^ logn) (fun u => (F u).toInt32) t2))
  obtain ⟨t, hdivide, hcentre⟩ := Option.bind_eq_some_iff.mp hG'
  obtain ⟨hred, hquotient⟩ := mqINTT_divideNtt hlogn hf hfleaf hp hpleaf hdivide
  have hentries := (storeCentred_spec hred G).1 G' hcentre
  refine ⟨?_, fun j hj => (hentries j hj).1, ?_⟩
  · by_contra hnot
    rw [(divideNtt_eq_none_iff hlogn hf hfleaf).mpr hnot] at hdivide
    cases hdivide
  · rw [signedElement, signedElement, ringElement_congr fun j hj => (hentries j hj).2, hquotient]
    exact ringElement_negacyclicMul (Nat.two_pow_pos logn)
      (fun j => ((g j).toInt : ZMod 12289)) fun j => ((F j).toInt : ZMod 12289)

/-- `complete_private` finds every solution with coefficients from -127 to 127. -/
theorem exists_completePrivate (hlogn : logn ≤ 10) (G f g F : ℕ → Int8) (t1 t2 : ℕ → UInt16)
    {x : ℕ → ℤ} (hunit : IsUnit (signedElement (2 ^ logn) fun j => (f j).toInt))
    (hsmall : ∀ j < 2 ^ logn, |x j| ≤ 127)
    (hequation : signedElement (2 ^ logn) (fun j => (f j).toInt) * signedElement (2 ^ logn) x =
      signedElement (2 ^ logn) (fun j => (g j).toInt) *
        signedElement (2 ^ logn) fun j => (F j).toInt) :
    ∃ G', completePrivate G f g F logn t1 t2 = some G' ∧ ∀ j < 2 ^ logn, (G' j).toInt = x j := by
  obtain ⟨hp, hpleaf⟩ := product_leaves hlogn g F t1 t2
  obtain ⟨hf, hfleaf⟩ := small_leaves hlogn f
    (mqNTT logn (storeSmall (2 ^ logn) (fun u => (F u).toInt32) t2))
  have hproduct := ringElement_negacyclicMul (Nat.two_pow_pos logn)
    (fun j => ((g j).toInt : ZMod 12289)) fun j => ((F j).toInt : ZMod 12289)
  obtain ⟨t, hdivide⟩ := exists_divideNtt (h := _) hlogn hf hfleaf hunit
  obtain ⟨hred, hquotient⟩ := mqINTT_divideNtt hlogn hf hfleaf hp hpleaf hdivide
  -- `f` is a unit, so that the quotient is the class of `x`
  have hsame := hunit.mul_left_cancel (hequation.trans (hproduct.symm.trans hquotient.symm))
  have hentries : ∀ j < 2 ^ logn,
      |x j| ≤ 127 ∧ (x j : ZMod 12289) = residue16 (mqINTT logn t j) := fun j hj =>
    ⟨hsmall j hj, eq_of_mk_polyOf_eq (Nat.two_pow_pos logn) hsame hj⟩
  obtain ⟨G', hcentre, hG'⟩ := (storeCentred_spec hred G).2 x hentries
  exact ⟨G', Option.bind_eq_some_iff.mpr ⟨t, hdivide, hcentre⟩, hG'⟩

/-- `complete_private` returns the `G` with `f * G = g * F` and with coefficients from -127
to 127, and fails only if `f` is not a unit or there is no such `G`. -/
theorem completePrivate_spec (hlogn : logn ≤ 10) (G f g F : ℕ → Int8) (t1 t2 : ℕ → UInt16) :
    (∀ G', completePrivate G f g F logn t1 t2 = some G' →
      IsUnit (signedElement (2 ^ logn) fun j => (f j).toInt) ∧
      (∀ j < 2 ^ logn, |(G' j).toInt| ≤ 127) ∧
      signedElement (2 ^ logn) (fun j => (f j).toInt) *
          signedElement (2 ^ logn) (fun j => (G' j).toInt) =
        signedElement (2 ^ logn) (fun j => (g j).toInt) *
          signedElement (2 ^ logn) fun j => (F j).toInt) ∧
    ∀ x : ℕ → ℤ, IsUnit (signedElement (2 ^ logn) fun j => (f j).toInt) →
      (∀ j < 2 ^ logn, |x j| ≤ 127) →
      signedElement (2 ^ logn) (fun j => (f j).toInt) * signedElement (2 ^ logn) x =
        signedElement (2 ^ logn) (fun j => (g j).toInt) *
          signedElement (2 ^ logn) (fun j => (F j).toInt) →
      ∃ G', completePrivate G f g F logn t1 t2 = some G' ∧ ∀ j < 2 ^ logn, (G' j).toInt = x j :=
  ⟨fun _ hG' => completePrivate_solves hlogn hG',
    fun _ hunit hsmall hequation =>
      exists_completePrivate hlogn G f g F t1 t2 hunit hsmall hequation⟩

end ComputePublic

def sampleF (j : ℕ) : Int8 := if j = 0 then 1 else 0

def sampleG (j : ℕ) : Int8 := if j = 0 then 3 else -1

@[simp] theorem signedElement_sampleF : signedElement (2 ^ 1) (fun j => (sampleF j).toInt) = 1 := by
  have hentry : ∀ j < 2 ^ 1, ((sampleF j).toInt : ZMod 12289) = if j = 0 then 1 else 0 := by decide
  rw [signedElement, ringElement_congr hentry]
  exact mk_polyOf_one (by norm_num)

theorem isUnit_sampleF : IsUnit (signedElement (2 ^ 1) fun j => (sampleF j).toInt) := by
  rw [signedElement_sampleF]
  exact isUnit_one

/-- With `F = f` the solution is `G = g`. -/
theorem completePrivate_spec_sampleF :
    ∃ G', completePrivate (fun _ => 0) sampleF sampleG sampleF 1 (fun _ => 0) (fun _ => 0) =
      some G' ∧ ∀ j < 2 ^ 1, (G' j).toInt = (sampleG j).toInt :=
  (completePrivate_spec (show 1 ≤ 10 by decide) _ _ _ _ _ _).2 _ isUnit_sampleF
    (by decide) (mul_comm _ _)

end Soko.FnDsa
