import Soko.Gpu.Generator

/-!
When an iteration of the rejection loop accepts, in terms of four of its bytes: the top
bytes of the first and the third word, and the two single bytes.
-/

namespace Soko.Gpu

/-- The byte drawn at place `p` of the iteration that begins with `st`. -/
def drawnByte (st : BernPrngState) (p : ℕ) : UInt8 := outByte (advance^[p] st)

/-- The bound on `w`, for the table value `x` and the byte `yb`. -/
def bernBound (x : UInt32) (yb : UInt8) : UInt64 :=
  BernCandidate.v { yb := yb.toUInt32, x := x <<< 8, w := 0, c := 0 }

namespace BernDraws

variable (d : BernDraws)

@[simp] theorem z_eq_zero_iff : d.candidate.z = 0 ↔ d.magnitude = 0 := by
  rw [← toNat_z, ← UInt32.toNat_inj]
  exact Iff.rfl

/-- The iteration accepts a `w` up to its bound, and zero only with an even last byte. -/
theorem rejected_eq_false_iff :
    d.candidate.rejected = false ↔
      (d.w >>> 1).toNat ≤ (bernBound (sampleBerncdtDevice d.utop d.ubot) d.yb).toNat ∧
        (d.magnitude = 0 → d.c.toNat % 2 = 0) := by
  have hodd : d.c &&& 1 = 0 ↔ d.c.toNat % 2 = 0 := by
    rw [← UInt8.toNat_inj, UInt8.toNat_and]
    exact (congrArg (· = 0) (Nat.and_one_is_mod d.c.toNat)).to_iff
  have hzero : d.candidate.c &&& (if d.candidate.z = 0 then 1 else 0) = 0 ↔
      (d.magnitude = 0 → d.c.toNat % 2 = 0) := by
    rw [← hodd, ← z_eq_zero_iff]
    split <;> simp_all [candidate]
  rw [← hzero, BernCandidate.rejected, Bool.or_eq_false_iff, decide_eq_false_iff_not,
    decide_eq_false_iff_not, not_not, gt_iff_lt, UInt64.lt_iff_toNat_lt, not_lt]
  exact Iff.rfl

theorem w_lt {bound : ℕ} (hw : d.w.toNat / 2 ^ 56 < bound) :
    (d.w >>> 1).toNat < bound * 2 ^ 55 := by
  rw [UInt64.toNat_shiftRight, Nat.shiftRight_eq_div_pow]
  simp only [UInt64.toNat_one, Nat.reduceMod, pow_one]
  omega

end BernDraws

/-! The bounds. -/

@[simp] theorem bernBound_zero (x : UInt32) : (bernBound x 0).toNat = 2 ^ 63 := by
  have hy : BernCandidate.y { yb := (0 : UInt8).toUInt32, x := x <<< 8, w := 0, c := 0 } = 0 := by
    simp [BernCandidate.y]
  have hk : BernCandidate.k { yb := (0 : UInt8).toUInt32, x := x <<< 8, w := 0, c := 0 } = 0 := by
    rw [BernCandidate.k, hy]
    decide
  rw [bernBound, BernCandidate.v, BernCandidate.t, hk, hy]
  decide

theorem bernBound_table : ∀ x ≤ 1, ∀ yb < 256,
    (255 - yb * (yb + 512 * x) / 361) * 2 ^ 55 ≤
        (bernBound (UInt32.ofNat x) (UInt8.ofNat yb)).toNat ∧
      (x = 0 → 120 * 2 ^ 55 ≤ (bernBound (UInt32.ofNat x) (UInt8.ofNat yb)).toNat) := by
  decide +kernel

theorem le_bernBound_half (yb : UInt8) : 120 * 2 ^ 55 ≤ (bernBound 0 yb).toNat := by
  simpa using (bernBound_table 0 (by decide) yb.toNat yb.toNat_lt).2 rfl

theorem le_bernBound {x : UInt32} (hx : x.toNat ≤ 1) (yb : UInt8) :
    (255 - yb.toNat * (yb.toNat + 512 * x.toNat) / 361) * 2 ^ 55 ≤ (bernBound x yb).toNat := by
  simpa using (bernBound_table x.toNat hx yb.toNat yb.toNat_lt).1

/-- A draw that is not above the second bound of the table takes one step at most. -/
theorem sampleBerncdtDevice_le_one {utop : UInt64} (ubot : UInt64)
    (hutop : utop.toNat < 17729174351313943813) : (sampleBerncdtDevice utop ubot).toNat ≤ 1 := by
  obtain ⟨tail, -, htail, heq⟩ := sampleBerncdtDevice_spec utop ubot
  have hrest : ∀ bound ∈ berncdtBounds.tail, 17729174351313943813 * 2 ^ 64 ≤
      bound.1.toNat * 2 ^ 64 + bound.2.toNat := by simp [berncdtBounds]
  have hbot := ubot.toNat_lt
  have hcount : berncdtBounds.tail.countP (fun bound => AboveBound utop ubot bound) = 0 := by
    rw [List.countP_eq_zero]
    intro bound hbound
    have hle := hrest bound hbound
    rw [decide_eq_true_eq, AboveBound]
    omega
  have hcons : berncdtBounds.countP (fun bound => AboveBound utop ubot bound) ≤
      berncdtBounds.tail.countP (fun bound => AboveBound utop ubot bound) + 1 := by
    rw [show berncdtBounds = _ :: berncdtBounds.tail from rfl, List.countP_cons, List.tail_cons]
    split <;> omega
  by_contra hmany
  have hfull := htail (by omega)
  omega

/-! Iterations that accept. -/

section Accepts

variable {st : BernPrngState}

theorem accepts_iff :
    (bernCandidate st).1.rejected = false ↔
      ((bernDraws st).w >>> 1).toNat ≤
        (bernBound (sampleBerncdtDevice (bernDraws st).utop (bernDraws st).ubot)
          (drawnByte st 25)).toNat ∧
        ((bernDraws st).magnitude = 0 → (drawnByte st 26).toNat % 2 = 0) := by
  obtain ⟨-, -, hyb, hc⟩ := bernDraws_spec st
  rw [bernCandidate_eq, BernDraws.rejected_eq_false_iff, hyb, hc]
  exact Iff.rfl

/-- The first word is below the first bound of the table. -/
theorem berncdt_eq_zero (hU : (drawnByte st 8).toNat < 164) :
    sampleBerncdtDevice (bernDraws st).utop (bernDraws st).ubot = 0 := by
  have hutop := (bernDraws_spec st).1
  have hbot := (bernDraws st).ubot.toNat_lt
  rw [drawnByte] at hU
  rw [← UInt32.toNat_inj]
  exact sampleBerncdtDevice_eq_zero_iff.mpr (by omega)

/-- A small first word, a small `w` and a sample other than zero. -/
theorem accepts_of_small (hU : (drawnByte st 8).toNat < 160) (hW : (drawnByte st 24).toNat < 120)
    (hY : drawnByte st 25 ≠ 0) : (bernCandidate st).1.rejected = false := by
  have hw := (bernDraws st).w_lt ((bernDraws_spec st).2.1.trans_lt hW)
  have hyb : (bernDraws st).yb.toNat ≠ 0 := by
    rw [(bernDraws_spec st).2.2.1]
    exact fun hzero => hY (UInt8.toNat_inj.mp hzero)
  rw [accepts_iff, berncdt_eq_zero (by omega)]
  refine ⟨hw.le.trans (le_bernBound_half _), fun hzero => absurd hzero ?_⟩
  rw [BernDraws.magnitude]
  omega

theorem accepts_of_large (hU : 192 ≤ (drawnByte st 8).toNat) (hY : drawnByte st 25 = 0) :
    (bernCandidate st).1.rejected = false := by
  obtain ⟨hutop, -, -, -⟩ := bernDraws_spec st
  have hw := (bernDraws st).w.toNat_lt
  have hx : (sampleBerncdtDevice (bernDraws st).utop (bernDraws st).ubot).toNat ≠ 0 := by
    rw [ne_eq, sampleBerncdtDevice_eq_zero_iff]
    rw [drawnByte] at hU
    omega
  rw [accepts_iff, hY, bernBound_zero]
  have htop : (bernDraws st).w.toNat / 2 ^ 56 < 256 := by omega
  refine ⟨(BernDraws.w_lt _ htop).le, fun hzero => absurd hzero ?_⟩
  rw [BernDraws.magnitude]
  omega

/-- An even last byte, and a `w` that is small against the exponent. -/
theorem accepts_of_even {x : ℕ} (hc : (drawnByte st 26).toNat % 2 = 0)
    (hx : x = 0 ∧ (drawnByte st 8).toNat < 164 ∨ x = 1 ∧ (drawnByte st 8).toNat < 246)
    (hW : (drawnByte st 24).toNat +
      (drawnByte st 25).toNat * ((drawnByte st 25).toNat + 512 * x) / 361 < 255) :
    (bernCandidate st).1.rejected = false := by
  obtain ⟨hutop, hw, -, -⟩ := bernDraws_spec st
  obtain ⟨steps, hsteps⟩ : ∃ steps,
      steps = sampleBerncdtDevice (bernDraws st).utop (bernDraws st).ubot := ⟨_, rfl⟩
  have hle : steps.toNat ≤ x ∧ x ≤ 1 := by
    rcases hx with ⟨rfl, hU⟩ | ⟨rfl, hU⟩
    · rw [hsteps, berncdt_eq_zero hU]
      decide
    · rw [drawnByte] at hU
      exact ⟨hsteps ▸ sampleBerncdtDevice_le_one _ (by omega), le_rfl⟩
  have hbound := le_bernBound (hle.1.trans hle.2) (drawnByte st 25)
  have hexponent : (drawnByte st 25).toNat * ((drawnByte st 25).toNat + 512 * steps.toNat) / 361 ≤
      (drawnByte st 25).toNat * ((drawnByte st 25).toNat + 512 * x) / 361 := by
    apply Nat.div_le_div_right
    apply Nat.mul_le_mul_left
    omega
  rw [accepts_iff, ← hsteps]
  refine ⟨le_trans ?_ hbound, fun _ => hc⟩
  rw [drawnByte] at hW
  exact (BernDraws.w_lt _ (by omega)).le

end Accepts

end Soko.Gpu
