import Mathlib.Data.Nat.Bitwise
import Mathlib.Tactic.IntervalCases
import Mathlib.Tactic.Linarith

/-!
The hash by which the host recognises a key. It is not injective: eight reduced words
can collide (`collidingKeys`). Up to four words cannot, because a collision is a short
integer relation between the powers of the multiplier.
-/

namespace Soko.Gpu

abbrev Key := ℕ → UInt16

/-- An iteration of `hash_h_coeffs`. -/
def hashStep (hsh : UInt64) (w : UInt16) : UInt64 := (hsh ^^^ w.toUInt64) * 1099511628211

def hashHCoeffs (h : Key) (n : ℕ) : UInt64 :=
  (List.range n).foldl (fun hsh i => hashStep hsh (h i)) 1469598103934665603

@[simp] theorem hashHCoeffs_zero (h : Key) : hashHCoeffs h 0 = 1469598103934665603 := by
  rw [hashHCoeffs, List.range_zero, List.foldl_nil]

theorem hashHCoeffs_succ (h : Key) (n : ℕ) :
    hashHCoeffs h (n + 1) = hashStep (hashHCoeffs h n) (h n) := by
  simp only [hashHCoeffs, List.range_succ, List.foldl_append, List.foldl_cons, List.foldl_nil]

theorem hashHCoeffs_congr {h h' : Key} {n : ℕ} (hh : ∀ j < n, h j = h' j) :
    hashHCoeffs h n = hashHCoeffs h' n := by
  induction n with
  | zero => rw [hashHCoeffs_zero, hashHCoeffs_zero]
  | succ n ih =>
      rw [hashHCoeffs_succ, hashHCoeffs_succ, ih fun j hj => hh j (by omega), hh n (by omega)]

def collidingKeys : Key × Key :=
  (fun j => [9, 10331, 520, 3360, 810, 4600, 6040, 0].getD j 0,
    fun j => [4297, 879, 1174, 5331, 625, 8953, 1583, 11872].getD j 0)

example : hashHCoeffs collidingKeys.1 8 = hashHCoeffs collidingKeys.2 8 := by decide

section Short

/-- The multiplier is odd, so that the last multiplication can be undone. -/
theorem eq_of_hashStep_eq {x y : UInt64} {w v : UInt16} (heq : hashStep x w = hashStep y v) :
    x ^^^ w.toUInt64 = y ^^^ v.toUInt64 := by
  have hinv : ∀ z : UInt64, z * 1099511628211 * 14886173955864302971 = z := by
    intro z
    rw [UInt64.mul_assoc, show (1099511628211 : UInt64) * 14886173955864302971 = 1 by decide,
      UInt64.mul_one]
  rw [← hinv (x ^^^ w.toUInt64), ← hinv (y ^^^ v.toUInt64)]
  exact congrArg (· * _) heq

def lowBits (x : UInt64) (w : UInt16) : ℕ := (x.toNat % 2 ^ 14) ^^^ w.toNat

theorem lowBits_lt (x : UInt64) {w : UInt16} (hw : w.toNat < 12289) : lowBits x w < 2 ^ 14 :=
  Nat.xor_lt_two_pow (Nat.mod_lt _ (by decide)) (by omega)

theorem toNat_xor_word (x : UInt64) {w : UInt16} (hw : w.toNat < 12289) :
    (x ^^^ w.toUInt64).toNat + x.toNat % 2 ^ 14 = x.toNat + lowBits x w := by
  have hword : (x ^^^ w.toUInt64).toNat = x.toNat ^^^ w.toNat := by
    rw [UInt64.toNat_xor, UInt16.toNat_toUInt64]
  have hdiv : (x.toNat ^^^ w.toNat) / 2 ^ 14 = x.toNat / 2 ^ 14 := by
    rw [Nat.xor_div_two_pow, Nat.div_eq_of_lt (show w.toNat < 2 ^ 14 by omega), Nat.xor_zero]
  have hmod : (x.toNat ^^^ w.toNat) % 2 ^ 14 = lowBits x w := by
    rw [Nat.xor_mod_two_pow, Nat.mod_eq_of_lt (show w.toNat < 2 ^ 14 by omega), lowBits]
  rw [hword]
  omega

/-- Two words that leave the same hash behind are the same. -/
theorem eq_of_xor_eq {x : UInt64} {w v : UInt16} (heq : x ^^^ w.toUInt64 = x ^^^ v.toUInt64) :
    w = v := by
  have hword := (UInt64.xor_right_inj _).mp heq
  have hnat := congrArg UInt64.toNat hword
  rw [UInt16.toNat_toUInt64, UInt16.toNat_toUInt64] at hnat
  exact UInt16.toNat_inj.mp hnat

/-- The difference that a step leaves between two hashes. -/
theorem hashStep_sub {x y : UInt64} {w v : UInt16} (hw : w.toNat < 12289) (hv : v.toNat < 12289) :
    ∃ d t : ℤ, |d| ≤ 32766 ∧
      ((x ^^^ w.toUInt64).toNat : ℤ) - (y ^^^ v.toUInt64).toNat = x.toNat - y.toNat + d ∧
      ((hashStep x w).toNat : ℤ) - (hashStep y v).toNat =
        (x.toNat - y.toNat + d) * 1099511628211 + 2 ^ 64 * t := by
  have hx := toNat_xor_word x hw
  have hy := toNat_xor_word y hv
  have hxlt := lowBits_lt x hw
  have hylt := lowBits_lt y hv
  refine ⟨(lowBits x w : ℤ) - (x.toNat % 2 ^ 14 : ℕ) - (lowBits y v - (y.toNat % 2 ^ 14 : ℕ)),
    ((y ^^^ v.toUInt64).toNat * 1099511628211 / 2 ^ 64 : ℕ) -
      ((x ^^^ w.toUInt64).toNat * 1099511628211 / 2 ^ 64 : ℕ), ?_, ?_, ?_⟩
  · exact abs_le.mpr ⟨by omega, by omega⟩
  · omega
  · have hmulx : (hashStep x w).toNat = (x ^^^ w.toUInt64).toNat * 1099511628211 % 2 ^ 64 :=
      UInt64.toNat_mul _ _
    have hmuly : (hashStep y v).toNat = (y ^^^ v.toUInt64).toNat * 1099511628211 % 2 ^ 64 :=
      UInt64.toNat_mul _ _
    omega

/-- A short relation between the powers of the multiplier is trivial: modulo `2 ^ 40`
the powers are those of 435, which are too small. -/
theorem eq_zero_of_relation {d0 d1 d2 d3 t : ℤ} (h0 : |d0| ≤ 13187) (h1 : |d1| ≤ 32766)
    (h2 : |d2| ≤ 32766) (h3 : |d3| ≤ 32766)
    (hrelation : ((d0 * 1099511628211 + d1) * 1099511628211 + d2) * 1099511628211 + d3 =
      2 ^ 64 * t) : d0 = 0 ∧ d1 = 0 ∧ d2 = 0 ∧ d3 = 0 := by
  rw [abs_le] at h0 h1 h2 h3
  have hlow : ∃ q, 82312875 * d0 + 189225 * d1 + 435 * d2 + d3 = 2 ^ 40 * q :=
    ⟨2 ^ 24 * t - (2 ^ 80 + 1305 * 2 ^ 40 + 567675) * d0 - (2 ^ 40 + 870) * d1 - d2, by linarith⟩
  have hzero : 82312875 * d0 + 189225 * d1 + 435 * d2 + d3 = 0 := by
    obtain ⟨q, hq⟩ := hlow
    omega
  have hhigh : ∃ q, 567675 * d0 + 870 * d1 + d2 = 2 ^ 24 * q :=
    ⟨t - (2 ^ 56 + 1305 * 2 ^ 16) * d0 - 2 ^ 16 * d1, by linarith⟩
  -- in steps of 435
  obtain ⟨m1, hm1⟩ : ∃ m1, m1 = d1 + 435 * d0 := ⟨_, rfl⟩
  obtain ⟨m2, hm2⟩ : ∃ m2, m2 = d2 + 435 * m1 := ⟨_, rfl⟩
  have hd0 : -75 ≤ d0 ∧ d0 ≤ 75 := by omega
  have hm1bound : -75 ≤ m1 ∧ m1 ≤ 75 := by omega
  have hm2bound : -75 ≤ m2 ∧ m2 ≤ 75 := by omega
  have hsum : 189225 * d0 + 435 * m1 + m2 = 0 := by
    obtain ⟨q, hq⟩ := hhigh
    omega
  omega

/-- The first word changes the start of the hash by less than a word of 14 bits. -/
theorem lowBits_start_le {w : UInt16} (hw : w.toNat < 12289) :
    lowBits 1469598103934665603 w ≤ 13187 := by
  have hstart : lowBits 1469598103934665603 w = 899 ^^^ w.toNat := rfl
  rw [hstart]
  rcases Nat.lt_or_ge w.toNat 12288 with hlt | hge
  · have hdiv : (899 ^^^ w.toNat) / 2 ^ 12 = 0 ^^^ w.toNat / 2 ^ 12 := Nat.xor_div_two_pow
    rw [Nat.zero_xor] at hdiv
    omega
  · rw [show w.toNat = 12288 by omega]
    decide

/-- A step that keeps two equal hashes equal has hashed equal words. -/
theorem next_of_sub_eq {h h' : Key} {j : ℕ} (hsame : hashHCoeffs h j = hashHCoeffs h' j)
    (hsub : ((hashHCoeffs h j ^^^ (h j).toUInt64).toNat : ℤ) -
        (hashHCoeffs h' j ^^^ (h' j).toUInt64).toNat =
      (hashHCoeffs h j).toNat - (hashHCoeffs h' j).toNat + 0) :
    h j = h' j ∧ hashHCoeffs h (j + 1) = hashHCoeffs h' (j + 1) := by
  rw [hsame] at hsub
  have hxor : hashHCoeffs h' j ^^^ (h j).toUInt64 = hashHCoeffs h' j ^^^ (h' j).toUInt64 :=
    UInt64.toNat_inj.mp (by omega)
  have hword := eq_of_xor_eq hxor
  exact ⟨hword, by rw [hashHCoeffs_succ, hashHCoeffs_succ, hsame, hword]⟩

theorem eq_of_hashHCoeffs_four {h h' : Key} (hh : ∀ j < 4, (h j).toNat < 12289)
    (hh' : ∀ j < 4, (h' j).toNat < 12289) (heq : hashHCoeffs h 4 = hashHCoeffs h' 4) :
    ∀ j < 4, h j = h' j := by
  have hstep := hashHCoeffs_succ h
  have hstep' := hashHCoeffs_succ h'
  obtain ⟨d0, t0, -, hxor0, hsub0⟩ := hashStep_sub (x := hashHCoeffs h 0) (y := hashHCoeffs h' 0)
    (hh 0 (by decide)) (hh' 0 (by decide))
  obtain ⟨d1, t1, hd1, hxor1, hsub1⟩ := hashStep_sub (x := hashHCoeffs h 1)
    (y := hashHCoeffs h' 1) (hh 1 (by decide)) (hh' 1 (by decide))
  obtain ⟨d2, t2, hd2, hxor2, hsub2⟩ := hashStep_sub (x := hashHCoeffs h 2)
    (y := hashHCoeffs h' 2) (hh 2 (by decide)) (hh' 2 (by decide))
  obtain ⟨d3, t3, hd3, hxor3, hsub3⟩ := hashStep_sub (x := hashHCoeffs h 3)
    (y := hashHCoeffs h' 3) (hh 3 (by decide)) (hh' 3 (by decide))
  rw [← hstep, ← hstep'] at hsub0 hsub1 hsub2
  rw [hashHCoeffs_zero, hashHCoeffs_zero] at hxor0 hsub0
  -- the last step can be undone
  rw [hstep, hstep'] at heq
  have hlast := eq_of_hashStep_eq heq
  rw [hlast, sub_self] at hxor3
  have hd0 : |d0| ≤ 13187 := by
    have hx := toNat_xor_word 1469598103934665603 (hh 0 (by decide))
    have hy := toNat_xor_word 1469598103934665603 (hh' 0 (by decide))
    have hxle := lowBits_start_le (hh 0 (by decide))
    have hyle := lowBits_start_le (hh' 0 (by decide))
    exact abs_le.mpr ⟨by omega, by omega⟩
  have hrelation : ((d0 * 1099511628211 + d1) * 1099511628211 + d2) * 1099511628211 + d3 =
      2 ^ 64 * -(t2 + 1099511628211 * t1 + 1099511628211 ^ 2 * t0) := by
    linarith
  obtain ⟨rfl, rfl, rfl, rfl⟩ := eq_zero_of_relation hd0 hd1 hd2 hd3 hrelation
  obtain ⟨hword0, hsame1⟩ := next_of_sub_eq ((hashHCoeffs_zero h).trans (hashHCoeffs_zero h').symm)
    (by rw [hashHCoeffs_zero, hashHCoeffs_zero]; exact hxor0)
  obtain ⟨hword1, hsame2⟩ := next_of_sub_eq hsame1 hxor1
  obtain ⟨hword2, hsame3⟩ := next_of_sub_eq hsame2 hxor2
  obtain ⟨hword3, -⟩ := next_of_sub_eq hsame3 (by rw [hlast, sub_self]; exact hxor3)
  intro j hj
  interval_cases j
  · exact hword0
  · exact hword1
  · exact hword2
  · exact hword3

/-- Reduced keys of at most four words are recognised. -/
theorem eq_of_hashHCoeffs_eq {h h' : Key} {n : ℕ} (hn : n ≤ 4) (hh : ∀ j < n, (h j).toNat < 12289)
    (hh' : ∀ j < n, (h' j).toNat < 12289) (heq : hashHCoeffs h n = hashHCoeffs h' n) :
    ∀ j < n, h j = h' j := by
  -- both keys, filled up with zeros
  have hfill : ∀ k : Key, hashHCoeffs (fun j => if j < n then k j else 0) n = hashHCoeffs k n :=
    fun k => hashHCoeffs_congr fun j hj => if_pos hj
  have hmore : ∀ m, hashHCoeffs (fun j => if j < n then h j else 0) (n + m) =
      hashHCoeffs (fun j => if j < n then h' j else 0) (n + m) := by
    intro m
    induction m with
    | zero => rw [Nat.add_zero, hfill, hfill, heq]
    | succ m ih =>
        rw [← Nat.add_assoc, hashHCoeffs_succ, hashHCoeffs_succ, ih, if_neg (by omega),
          if_neg (by omega)]
  have hreduced : ∀ k : Key, (∀ j < n, (k j).toNat < 12289) →
      ∀ j < 4, (if j < n then k j else 0).toNat < 12289 := by
    intro k hk j _
    by_cases hj : j < n
    · rw [if_pos hj]
      exact hk j hj
    · rw [if_neg hj]
      decide
  have hfour := eq_of_hashHCoeffs_four (hreduced h hh) (hreduced h' hh')
    (by have hall := hmore (4 - n); rwa [Nat.add_sub_cancel' hn] at hall)
  intro j hj
  have hword := hfour j (by omega)
  rw [if_pos hj, if_pos hj] at hword
  exact hword

end Short

end Soko.Gpu
