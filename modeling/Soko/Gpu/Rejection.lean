import Soko.Gpu.Sampler

/-!
The rejection loop of `sample_gaussian_bern_device`: with which iteration it ends, and
what becomes of the sample of this iteration. The loop accepts a magnitude of up to
twelve bits and returns it as an `int8_t`, so that the value returned is the value
accepted only if the iteration has taken no step of the table and drawn a small byte.
-/

namespace Soko.Gpu

def stateAt (st : BernPrngState) (i : ℕ) : BernPrngState :=
  (fun st => (bernCandidate st).2)^[i] st

theorem stateAt_succ (st : BernPrngState) (i : ℕ) :
    stateAt st (i + 1) = stateAt (bernCandidate st).2 i :=
  Function.iterate_succ_apply _ i st

/-- The loop ends with iteration `i`. -/
structure EndsAt (st : BernPrngState) (i : ℕ) : Prop where
  rejects : ∀ j < i, (bernCandidate (stateAt st j)).1.rejected = true
  accepts : (bernCandidate (stateAt st i)).1.rejected = false

theorem EndsAt.of_next {st : BernPrngState} {i : ℕ} (h : EndsAt (bernCandidate st).2 i)
    (hrejected : (bernCandidate st).1.rejected = true) : EndsAt st (i + 1) where
  rejects j hj := by
    cases j with
    | zero => exact hrejected
    | succ j =>
        rw [stateAt_succ]
        exact h.rejects j (Nat.lt_of_succ_lt_succ hj)
  accepts := by
    rw [stateAt_succ]
    exact h.accepts

theorem EndsAt.next {st : BernPrngState} {i : ℕ} (h : EndsAt st (i + 1)) :
    EndsAt (bernCandidate st).2 i where
  rejects j hj := by
    rw [← stateAt_succ]
    exact h.rejects (j + 1) (Nat.succ_lt_succ hj)
  accepts := by
    rw [← stateAt_succ]
    exact h.accepts

/-- The fuel has to last for the iteration that accepts. -/
theorem sampleGaussianBernDevice_eq_some {fuel : ℕ} {st : BernPrngState} {s : Int8} :
    sampleGaussianBernDevice fuel st = some s ↔
      ∃ i < fuel, EndsAt st i ∧ s = (bernCandidate (stateAt st i)).1.coeff := by
  induction fuel generalizing st with
  | zero => simp [sampleGaussianBernDevice]
  | succ fuel ih =>
      rw [sampleGaussianBernDevice]
      cases hrejected : (bernCandidate st).1.rejected with
      | true =>
          rw [if_pos rfl, ih]
          constructor
          · rintro ⟨i, hi, hends, rfl⟩
            exact ⟨i + 1, Nat.succ_lt_succ hi, hends.of_next hrejected, by rw [stateAt_succ]⟩
          · rintro ⟨i, hi, hends, rfl⟩
            cases i with
            | zero => exact absurd (hrejected.symm.trans hends.accepts) (by simp)
            | succ i => exact ⟨i, Nat.lt_of_succ_lt_succ hi, hends.next, by rw [stateAt_succ]⟩
      | false =>
          rw [if_neg Bool.false_ne_true, Option.some.injEq]
          constructor
          · rintro rfl
            exact ⟨0, Nat.succ_pos fuel, ⟨fun j hj => absurd hj (Nat.not_lt_zero j), hrejected⟩,
              rfl⟩
          · rintro ⟨i, -, hends, rfl⟩
            cases i with
            | zero => rfl
            | succ i =>
                exact absurd ((hends.rejects 0 (Nat.succ_pos i)).symm.trans hrejected) (by simp)

theorem exists_endsAt {st : BernPrngState} {i : ℕ}
    (haccepts : (bernCandidate (stateAt st i)).1.rejected = false) : ∃ i, EndsAt st i := by
  have hex : ∃ i, (bernCandidate (stateAt st i)).1.rejected = false := ⟨i, haccepts⟩
  refine ⟨Nat.find hex, fun j hj => ?_, Nat.find_spec hex⟩
  exact Bool.eq_true_of_not_eq_false (Nat.find_min hex hj)

theorem exists_isSome_iff {st : BernPrngState} :
    (∃ fuel, (sampleGaussianBernDevice fuel st).isSome) ↔ ∃ i, EndsAt st i := by
  constructor
  · rintro ⟨fuel, hsome⟩
    obtain ⟨s, hs⟩ := Option.isSome_iff_exists.mp hsome
    obtain ⟨i, -, hends, -⟩ := sampleGaussianBernDevice_eq_some.mp hs
    exact ⟨i, hends⟩
  · rintro ⟨i, hends⟩
    refine ⟨i + 1, Option.isSome_iff_exists.mpr ⟨(bernCandidate (stateAt st i)).1.coeff, ?_⟩⟩
    exact sampleGaussianBernDevice_eq_some.mpr ⟨i, Nat.lt_succ_self i, hends, rfl⟩

/-- What an iteration takes from the generator. -/
structure BernDraws where
  utop : UInt64
  ubot : UInt64
  w : UInt64
  yb : UInt8
  c : UInt8
  deriving DecidableEq

/-- The draws of the iteration that begins with `st`. -/
def bernDraws (st : BernPrngState) : BernDraws :=
  let (utop, st) := bernRandU64 st
  let (ubot, st) := bernRandU64 st
  let (w, st) := bernRandU64 st
  let (yb, st) := bernRandByte st
  let (c, _) := bernRandByte st
  { utop, ubot, w, yb, c }

namespace BernDraws

variable (d : BernDraws)

/-- What the iteration computes from its draws. -/
def candidate : BernCandidate where
  yb := d.yb.toUInt32
  x := sampleBerncdtDevice d.utop d.ubot <<< 8
  w := d.w >>> 1
  c := d.c

/-- `256 * x + yb`. -/
def magnitude : ℕ := 256 * (sampleBerncdtDevice d.utop d.ubot).toNat + d.yb.toNat

/-- Bit 1 of `c`, the sign. -/
def negative : Bool := d.c.toNat.testBit 1

def signed : ℤ := if d.negative then -d.magnitude else d.magnitude

/-- The two words are not above the first bound of the table, and the byte and the sign
are those of an `int8_t`. -/
def FitsInt8 : Prop :=
  d.utop.toNat * 2 ^ 64 + d.ubot.toNat ≤ 11881272476311950404 * 2 ^ 64 + 2232598800125794762 ∧
    (d.yb.toNat ≤ 127 ∨ d.yb.toNat = 128 ∧ d.negative = true)

end BernDraws

theorem bernCandidate_eq (st : BernPrngState) : (bernCandidate st).1 = (bernDraws st).candidate :=
  rfl

/-! The table. -/

theorem toNat_add_ite {x : UInt32} (p : Prop) [Decidable p] (hx : x.toNat + 1 < 2 ^ 32) :
    (x + if p then 1 else 0).toNat = x.toNat + if p then 1 else 0 := by
  split
  · rw [UInt32.toNat_add, UInt32.toNat_one, Nat.mod_eq_of_lt hx]
  · rw [UInt32.add_zero, Nat.add_zero]

/-- A counter that is raised for some entries of a list. -/
theorem toNat_foldl_count {α : Type*} (p : α → Prop) [DecidablePred p] (l : List α) {x : UInt32}
    (hx : x.toNat + l.length < 2 ^ 32) :
    (l.foldl (fun x a => x + if p a then 1 else 0) x).toNat =
      x.toNat + l.countP (fun a => p a) := by
  induction l generalizing x with
  | nil => rfl
  | cons a l ih =>
      rw [List.length_cons] at hx
      have hnext := toNat_add_ite (p a) (show x.toNat + 1 < 2 ^ 32 by omega)
      rw [List.foldl_cons, ih (by rw [hnext]; split <;> omega), hnext, List.countP_cons]
      simp only [decide_eq_true_eq]
      omega

/-- The draw is above a bound, as a number of 128 bits. -/
def AboveBound (utop ubot : UInt64) (bound : UInt64 × UInt64) : Prop :=
  bound.1.toNat * 2 ^ 64 + bound.2.toNat < utop.toNat * 2 ^ 64 + ubot.toNat

instance (utop ubot : UInt64) : DecidablePred (AboveBound utop ubot) :=
  fun _ => inferInstanceAs (Decidable (_ < _))

theorem aboveBound_iff {utop ubot : UInt64} {bound : UInt64 × UInt64} :
    (utop = bound.1 ∧ ubot > bound.2) ∨ utop > bound.1 ↔ AboveBound utop ubot bound := by
  have hbot := ubot.toNat_lt
  have hbound := bound.2.toNat_lt
  rw [AboveBound, gt_iff_lt, gt_iff_lt, UInt64.lt_iff_toNat_lt, UInt64.lt_iff_toNat_lt,
    ← UInt64.toNat_inj]
  omega

theorem toNat_add_three {x : UInt32} (p q r : Bool) (hx : x.toNat ≤ 7) :
    ∃ tail ≤ 3, ((x + if p then 1 else 0) + (if q then 1 else 0) + if r then 1 else 0).toNat =
      x.toNat + tail := by
  have hp := toNat_add_ite (p = true) (show x.toNat + 1 < 2 ^ 32 by omega)
  have hq := toNat_add_ite (x := x + if p then 1 else 0) (q = true) (by rw [hp]; split <;> omega)
  have hr := toNat_add_ite (x := (x + if p then 1 else 0) + if q then 1 else 0) (r = true)
    (by rw [hq, hp]; split <;> split <;> omega)
  refine ⟨(if p then 1 else 0) + (if q then 1 else 0) + if r then 1 else 0, ?_, ?_⟩
  · split <;> split <;> split <;> decide
  · rw [hr, hq, hp]
    omega

/-- The number of bounds that a draw is above. The last three of them count for a full
upper word only. -/
theorem sampleBerncdtDevice_spec (utop ubot : UInt64) :
    ∃ tail ≤ 3, (tail ≠ 0 → utop.toNat = 18446744073709551615) ∧
      (sampleBerncdtDevice utop ubot).toNat =
        berncdtBounds.countP (fun bound => AboveBound utop ubot bound) + tail := by
  have hstep : (fun (x : UInt32) (bound : UInt64 × UInt64) =>
      x + if (utop = bound.1 ∧ ubot > bound.2) ∨ utop > bound.1 then 1 else 0) =
      fun x bound => x + if AboveBound utop ubot bound then 1 else 0 := by
    funext x bound
    exact congrArg (x + ·) (if_congr aboveBound_iff rfl rfl)
  have hfirst := toNat_foldl_count (AboveBound utop ubot) berncdtBounds (x := 0) (by decide)
  have hle := List.countP_le_length (p := fun bound => AboveBound utop ubot bound)
    (l := berncdtBounds)
  rw [UInt32.toNat_zero, Nat.zero_add] at hfirst
  rw [sampleBerncdtDevice]
  simp only [hstep, berncdtTailBounds, List.foldl_cons, List.foldl_nil]
  generalize berncdtBounds.foldl
    (fun (x : UInt32) bound => x + if AboveBound utop ubot bound then 1 else 0) 0 = x at hfirst ⊢
  rw [← hfirst]
  -- the last three tests ask for a full `utop`
  have htop : decide (utop = 18446744073709551615) = true → utop.toNat = 18446744073709551615 :=
    fun hfull => congrArg UInt64.toNat (of_decide_eq_true hfull)
  generalize decide (utop = 18446744073709551615) = full at htop ⊢
  cases full with
  | true =>
      simp only [Bool.true_and]
      obtain ⟨tail, htail, heq⟩ := toNat_add_three (decide (ubot > 14106032229701791861))
        (decide (ubot > 14106032229701791861) && decide (ubot > 18446718728838181855))
        (decide (ubot > 14106032229701791861) && decide (ubot > 18446718728838181855) &&
          decide (ubot > 18446744073673701140)) (hfirst.trans_le hle)
      exact ⟨tail, htail, fun _ => htop rfl, heq⟩
  | false =>
      simp only [Bool.false_and, if_neg Bool.false_ne_true, UInt32.add_zero]
      exact ⟨0, Nat.zero_le 3, fun hne => (hne rfl).elim, (Nat.add_zero x.toNat).symm⟩

theorem sampleBerncdtDevice_le (utop ubot : UInt64) :
    (sampleBerncdtDevice utop ubot).toNat ≤ 10 := by
  obtain ⟨tail, htail, -, heq⟩ := sampleBerncdtDevice_spec utop ubot
  have hle : berncdtBounds.countP (fun bound => AboveBound utop ubot bound) ≤ 7 :=
    List.countP_le_length
  omega

/-- The table takes no step for a draw that is not above its first bound. -/
theorem sampleBerncdtDevice_eq_zero_iff {utop ubot : UInt64} :
    (sampleBerncdtDevice utop ubot).toNat = 0 ↔
      utop.toNat * 2 ^ 64 + ubot.toNat ≤ 11881272476311950404 * 2 ^ 64 + 2232598800125794762 := by
  obtain ⟨tail, -, htail, heq⟩ := sampleBerncdtDevice_spec utop ubot
  have hfirst : ∀ bound ∈ berncdtBounds, 11881272476311950404 * 2 ^ 64 + 2232598800125794762 ≤
      bound.1.toNat * 2 ^ 64 + bound.2.toNat := by simp [berncdtBounds]
  have hbot := ubot.toNat_lt
  rw [heq]
  constructor
  · intro hzero
    have hnone := List.countP_eq_zero.mp (Nat.eq_zero_of_add_eq_zero_right hzero)
    have hnot := hnone (11881272476311950404, 2232598800125794762) (by simp [berncdtBounds])
    rw [decide_eq_true_eq, AboveBound, not_lt] at hnot
    exact hnot
  · intro hle
    have hcount : berncdtBounds.countP (fun bound => AboveBound utop ubot bound) = 0 := by
      rw [List.countP_eq_zero]
      intro bound hbound
      rw [decide_eq_true_eq, AboveBound, not_lt]
      exact hle.trans (hfirst bound hbound)
    by_contra hne
    have hmax := htail (by omega)
    omega

/-! The sample. -/

namespace BernDraws

variable {d : BernDraws}

theorem magnitude_lt (d : BernDraws) : d.magnitude < 2816 := by
  have hx := sampleBerncdtDevice_le d.utop d.ubot
  have hyb := d.yb.toNat_lt
  rw [magnitude]
  omega

@[simp] theorem toNat_z (d : BernDraws) : d.candidate.z.toNat = d.magnitude := by
  have hx := sampleBerncdtDevice_le d.utop d.ubot
  have hyb := d.yb.toNat_lt
  rw [BernCandidate.z, UInt32.toNat_add, magnitude]
  simp only [candidate, UInt32.toNat_shiftLeft, UInt8.toNat_toUInt32, UInt32.reduceToNat,
    Nat.shiftLeft_eq, Nat.reduceMod, Nat.reducePow]
  omega

@[simp] theorem toInt_z (d : BernDraws) : d.candidate.z.toInt32.toInt = d.magnitude := by
  have hlt := d.magnitude_lt
  have hword : d.candidate.z.toInt32.toInt = (d.candidate.z.toNat : ℤ).bmod (2 ^ 32) :=
    BitVec.toInt_eq_toNat_bmod d.candidate.z.toBitVec
  rw [hword, toNat_z, Int.bmod_eq_of_le (by omega) (by omega)]

theorem negative_iff (d : BernDraws) :
    d.candidate.c >>> 1 &&& 1 ≠ 0 ↔ d.negative = true := by
  rw [ne_eq, ← UInt8.toNat_inj]
  simp [candidate, negative, Nat.testBit, Nat.shiftRight_eq_div_pow]

/-- The value returned is the accepted value modulo 256. -/
theorem coeff_toInt (d : BernDraws) : d.candidate.coeff.toInt = d.signed.bmod 256 := by
  have hlt := d.magnitude_lt
  rw [BernCandidate.coeff]
  simp only [negative_iff, Int32.toInt_toInt8]
  rw [signed]
  split
  · rw [Int32.toInt_neg, toInt_z, Int.bmod_bmod_of_dvd (by decide)]
  · rw [toInt_z]

/-- The narrowing keeps just the values of an `int8_t`. -/
theorem bmod_signed_eq_iff : d.signed.bmod 256 = d.signed ↔ d.FitsInt8 := by
  have hrange : d.signed.bmod 256 = d.signed ↔ -128 ≤ d.signed ∧ d.signed < 128 := by
    constructor
    · intro heq
      have hlow := Int.le_bmod (x := d.signed) (show 0 < 256 by decide)
      have hhigh := Int.bmod_lt (x := d.signed) (show 0 < 256 by decide)
      omega
    · exact fun hin => Int.bmod_eq_of_le (by omega) (by omega)
  have hyb := d.yb.toNat_lt
  rw [hrange, FitsInt8, ← sampleBerncdtDevice_eq_zero_iff, signed, magnitude]
  cases d.negative <;> simp <;> omega

end BernDraws

/-- If the loop returns, it has ended with an accepting iteration, and the value returned
is the value that this iteration has accepted if and only if the draws of the iteration
fit. -/
theorem sample_eq_signed_iff {fuel : ℕ} {st : BernPrngState} {s : Int8}
    (h : sampleGaussianBernDevice fuel st = some s) :
    ∃ i, EndsAt st i ∧
      (s.toInt = (bernDraws (stateAt st i)).signed ↔ (bernDraws (stateAt st i)).FitsInt8) := by
  obtain ⟨i, -, hends, rfl⟩ := sampleGaussianBernDevice_eq_some.mp h
  refine ⟨i, hends, ?_⟩
  rw [bernCandidate_eq, BernDraws.coeff_toInt, BernDraws.bmod_signed_eq_iff]

theorem endsAt_zero {st : BernPrngState} (haccepts : (bernCandidate st).1.rejected = false) :
    EndsAt st 0 := ⟨fun j hj => absurd hj (Nat.not_lt_zero j), haccepts⟩

/-- For seed 7, the sample `s1` of the first token at its third coefficient: the loop has
accepted -151 and returns 105. -/
theorem sample_ne_signed_thirdCoefficient :
    sampleGaussianBernDevice 1 (sampleState1 (sampleMix 7 0 2)) = some 105 ∧
      EndsAt (sampleState1 (sampleMix 7 0 2)) 0 ∧
      (bernDraws (stateAt (sampleState1 (sampleMix 7 0 2)) 0)).signed = -151 :=
  ⟨by decide +kernel, endsAt_zero (by decide +kernel), by decide +kernel⟩

theorem sample_eq_signed_iff_firstCoefficient :
    ∃ i, EndsAt (sampleState1 (sampleMix 7 0 0)) i ∧
      ((-111 : Int8).toInt = (bernDraws (stateAt (sampleState1 (sampleMix 7 0 0)) i)).signed ↔
        (bernDraws (stateAt (sampleState1 (sampleMix 7 0 0)) i)).FitsInt8) :=
  sample_eq_signed_iff (show sampleGaussianBernDevice 1 _ = some (-111) by decide +kernel)

end Soko.Gpu
