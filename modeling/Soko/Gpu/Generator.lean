import Mathlib.Algebra.QuadraticAlgebra.Defs
import Soko.Gpu.Rejection

/-!
The generator behind the sampler, `bern_rand_byte`. A step of it is the multiplication by
the square of the golden ratio in the integers extended by that ratio, modulo `2 ^ 32`.
An iteration of the rejection loop takes 26 steps, and whether it accepts shows in four
of its bytes.
-/

namespace Soko.Gpu

def advance (st : BernPrngState) : BernPrngState :=
  let a := st.a + st.b
  { a, b := st.b + a }

def outByte (st : BernPrngState) : UInt8 := ((st.a >>> 24) ^^^ (st.b >>> 16)).toUInt8

theorem advance_iterate (n : ℕ) (st : BernPrngState) :
    advance (advance^[n] st) = advance^[n + 1] st :=
  (Function.iterate_succ_apply' advance n st).symm

theorem bernRandByte_eq (st : BernPrngState) :
    bernRandByte st = (outByte (advance st), advance st) := rfl

/-! The bytes of an iteration. -/

@[simp] theorem bernRandBytes_append (l l' : List ℕ) (v : UInt64) (st : BernPrngState) :
    bernRandBytes (l ++ l') v st =
      bernRandBytes l' (bernRandBytes l v st).1 (bernRandBytes l v st).2 := by
  induction l generalizing v st with
  | nil => rfl
  | cons i l ih => exact ih _ _

theorem bernRandBytes_succ (n : ℕ) (st : BernPrngState) :
    bernRandBytes (List.range (n + 1)) 0 st =
      ((bernRandBytes (List.range n) 0 st).1 |||
        ((outByte (advance (bernRandBytes (List.range n) 0 st).2)).toUInt64 <<<
          UInt64.ofNat (8 * n)),
        advance (bernRandBytes (List.range n) 0 st).2) := by
  rw [List.range_succ, bernRandBytes_append, bernRandBytes, bernRandByte_eq]
  rfl

@[simp] theorem bernRandBytes_state (n : ℕ) (st : BernPrngState) :
    (bernRandBytes (List.range n) 0 st).2 = advance^[n] st := by
  induction n with
  | zero => rfl
  | succ n ih => rw [bernRandBytes_succ, ih, advance_iterate]

theorem toNat_or_byte {v : UInt64} {n : ℕ} (hn : n < 8) (hv : v.toNat < 2 ^ (8 * n))
    (byte : UInt8) :
    (v ||| (byte.toUInt64 <<< UInt64.ofNat (8 * n))).toNat =
      byte.toNat * 2 ^ (8 * n) + v.toNat := by
  have hshift : (UInt64.ofNat (8 * n)).toNat % 64 = 8 * n := by
    rw [UInt64.toNat_ofNat_of_lt' (by unfold UInt64.size; omega), Nat.mod_eq_of_lt (by omega)]
  have hbyte := byte.toNat_lt
  have hfits : byte.toNat * 2 ^ (8 * n) < 2 ^ 64 :=
    calc byte.toNat * 2 ^ (8 * n) < 2 ^ 8 * 2 ^ (8 * n) :=
          Nat.mul_lt_mul_of_pos_right hbyte (Nat.two_pow_pos _)
      _ = 2 ^ (8 + 8 * n) := (Nat.pow_add 2 8 (8 * n)).symm
      _ ≤ 2 ^ 64 := Nat.pow_le_pow_right two_pos (by omega)
  rw [UInt64.toNat_or, UInt64.toNat_shiftLeft, hshift, UInt8.toNat_toUInt64, Nat.shiftLeft_eq,
    Nat.mod_eq_of_lt hfits, Nat.or_comm, ← Nat.shiftLeft_eq, Nat.shiftLeft_add_eq_or_of_lt hv]

theorem bernRandBytes_lt {n : ℕ} (hn : n ≤ 8) (st : BernPrngState) :
    (bernRandBytes (List.range n) 0 st).1.toNat < 2 ^ (8 * n) := by
  induction n with
  | zero => exact Nat.one_pos
  | succ n ih =>
      have hbyte := (outByte (advance (bernRandBytes (List.range n) 0 st).2)).toNat_lt
      have hlow := ih (by omega)
      rw [bernRandBytes_succ, toNat_or_byte (by omega) hlow, Nat.mul_succ, Nat.pow_add]
      nlinarith

theorem bernRandU64_spec (st : BernPrngState) :
    (bernRandU64 st).2 = advance^[8] st ∧
      (bernRandU64 st).1.toNat / 2 ^ 56 = (outByte (advance^[8] st)).toNat := by
  refine ⟨bernRandBytes_state 8 st, ?_⟩
  have hlow : (bernRandBytes (List.range 7) 0 st).1.toNat < 2 ^ 56 :=
    bernRandBytes_lt (by decide) st
  rw [bernRandU64, bernRandBytes_succ, toNat_or_byte (by decide) hlow, bernRandBytes_state,
    advance_iterate]
  show _ = (outByte (advance^[7 + 1] st)).toNat
  omega

/-- The draws, and the state they leave, one after the other. -/
theorem draws_eq (st : BernPrngState) :
    let st₁ := (bernRandU64 st).2
    let st₂ := (bernRandU64 st₁).2
    let st₃ := (bernRandU64 st₂).2
    (bernCandidate st).2 = advance (advance st₃) ∧
      bernDraws st =
        { utop := (bernRandU64 st).1
          ubot := (bernRandU64 st₁).1
          w := (bernRandU64 st₂).1
          yb := outByte (advance st₃)
          c := outByte (advance (advance st₃)) } := by
  unfold bernCandidate bernDraws
  generalize bernRandU64 st = first
  obtain ⟨utop, st₁⟩ := first
  dsimp only
  generalize bernRandU64 st₁ = second
  obtain ⟨ubot, st₂⟩ := second
  dsimp only
  generalize bernRandU64 st₂ = third
  obtain ⟨w, st₃⟩ := third
  exact ⟨rfl, rfl⟩

@[simp] theorem bernCandidate_state (st : BernPrngState) :
    (bernCandidate st).2 = advance^[26] st := by
  rw [(draws_eq st).1, (bernRandU64_spec _).1, (bernRandU64_spec _).1, (bernRandU64_spec _).1,
    ← Function.iterate_add_apply, ← Function.iterate_add_apply, advance_iterate, advance_iterate]

theorem stateAt_eq (st : BernPrngState) (i : ℕ) : stateAt st i = advance^[26 * i] st := by
  rw [stateAt, Function.iterate_mul]
  exact congrFun (congrArg (Nat.iterate · i) (funext bernCandidate_state)) st

/-- The bytes that the acceptance depends on: the top bytes of the first and the third
word, and the two single bytes. -/
theorem bernDraws_spec (st : BernPrngState) :
    (bernDraws st).utop.toNat / 2 ^ 56 = (outByte (advance^[8] st)).toNat ∧
      (bernDraws st).w.toNat / 2 ^ 56 = (outByte (advance^[24] st)).toNat ∧
      (bernDraws st).yb = outByte (advance^[25] st) ∧
      (bernDraws st).c = outByte (advance^[26] st) := by
  have hstate : (bernRandU64 (bernRandU64 st).2).2 = advance^[16] st := by
    rw [(bernRandU64_spec _).1, (bernRandU64_spec _).1, ← Function.iterate_add_apply]
  have hthird := bernRandU64_spec (advance^[16] st)
  rw [← Function.iterate_add_apply] at hthird
  rw [(draws_eq st).2, hstate]
  refine ⟨(bernRandU64_spec st).2, hthird.2, ?_, ?_⟩
  · rw [hthird.1, advance_iterate]
  · rw [hthird.1, advance_iterate, advance_iterate]

/-! The generator over the integers. -/

/-- The integers extended by the golden ratio. -/
abbrev Golden := QuadraticAlgebra ℤ 1 1

/-- The square of the golden ratio. -/
def goldenStep : Golden := ⟨1, 1⟩

theorem goldenStep_mul_re (z : Golden) : (goldenStep * z).re = z.re + z.im := by
  simp [goldenStep]

theorem goldenStep_mul_im (z : Golden) : (goldenStep * z).im = z.re + 2 * z.im := by
  simp [goldenStep]
  ring

/-- The two words of a state are the coordinates of a number modulo `2 ^ 32`. -/
structure Represents (st : BernPrngState) (z : Golden) : Prop where
  a : (st.a.toNat : ℤ) = z.re % 2 ^ 32
  b : (st.b.toNat : ℤ) = z.im % 2 ^ 32

@[simp] theorem represents_self (st : BernPrngState) : Represents st ⟨st.a.toNat, st.b.toNat⟩ := by
  have ha := st.a.toNat_lt
  have hb := st.b.toNat_lt
  exact ⟨by simp only; omega, by simp only; omega⟩

theorem Represents.advance {st : BernPrngState} {z : Golden} (h : Represents st z) :
    Represents (advance st) (goldenStep * z) := by
  obtain ⟨ha, hb⟩ := h
  constructor
  · simp only [Gpu.advance, UInt32.toNat_add, goldenStep_mul_re]
    omega
  · simp only [Gpu.advance, UInt32.toNat_add, goldenStep_mul_im]
    omega

theorem Represents.iterate {st : BernPrngState} {z : Golden} (h : Represents st z) (n : ℕ) :
    Represents (Gpu.advance^[n] st) (goldenStep ^ n * z) := by
  induction n with
  | zero => simpa using h
  | succ n ih =>
      rw [← advance_iterate, pow_succ', mul_assoc]
      exact ih.advance

theorem outByte_toNat (st : BernPrngState) :
    (outByte st).toNat = st.a.toNat / 2 ^ 24 % 2 ^ 8 ^^^ st.b.toNat / 2 ^ 16 % 2 ^ 8 := by
  simp [outByte, Nat.shiftRight_eq_div_pow]

theorem outByte_div_eight (st : BernPrngState) :
    (outByte st).toNat / 8 = st.a.toNat / 2 ^ 27 ^^^ st.b.toNat / 2 ^ 19 % 32 := by
  have hlt := st.a.toNat_lt
  have ha : st.a.toNat / 2 ^ 24 % 2 ^ 8 / 2 ^ 3 = st.a.toNat / 2 ^ 27 := by omega
  have hb : st.b.toNat / 2 ^ 16 % 2 ^ 8 / 2 ^ 3 = st.b.toNat / 2 ^ 19 % 32 := by omega
  rw [outByte_toNat, ← ha, ← hb]
  exact Nat.xor_div_two_pow (n := 3)

end Soko.Gpu
