import Mathlib
import Soko.Gpu.HashToPoint
import Soko.Library.Compaction

/-!
`hash_to_point_ct` of `submodules/FN-DSA/common.c`. It draws a fixed number of samples and
squeezes the rejected ones out without a branch on their values. The point is the one of
`hash_to_point_vartime`, if that one draws no more samples (`hashToPointCt_spec`).
-/

namespace Soko.FnDsa

open Soko.Library Soko.Shake Soko.Gpu

def overtab : List ℕ := [0, 65, 67, 71, 77, 86, 100, 122, 154, 205, 287]

def sampleWord (buf : UInt8 × UInt8) : UInt32 := (buf.1.toUInt32 <<< 8) ||| buf.2.toUInt32

/-- `wr`, which is `w` modulo `q`, or `0xFFFF`. -/
def reduceSample (w : UInt32) : UInt16 :=
  let wr := w - ((24578 : UInt32) &&& (((w - 24578) >>> 31) - 1))
  let wr := wr - ((24578 : UInt32) &&& (((wr - 24578) >>> 31) - 1))
  let wr := wr - ((12289 : UInt32) &&& (((wr - 12289) >>> 31) - 1))
  (wr ||| (((w - 61445) >>> 31) - 1)).toUInt16

/-- The loop that stores the samples. The arrays `x`, `tt1` and `tt2` are one array here, of
which `x` is the beginning. -/
def storeSamples (m : ℕ) (sc : InnerShake256Context) (slots : ℕ → UInt16) :
    (ℕ → UInt16) × InnerShake256Context :=
  (List.range m).foldl (fun (slots, sc) u =>
    let drawn := drawExtract sc
    (Function.update slots u (reduceSample (sampleWord drawn.1)), drawn.2)) (slots, sc)

/-- An iteration of a pass: `v` is the number of valid samples so far. -/
def squeezeStep (p : ℕ) : (ℕ → UInt16) × UInt32 → ℕ → (ℕ → UInt16) × UInt32
  | (slots, v), u =>
      let sv := (slots u).toUInt32
      let j := UInt32.ofNat u - v
      let mk := (sv >>> 15) - 1
      let v := v - mk
      if u < p then (slots, v)
      else
        let dv := (slots (u - p)).toUInt32
        let mk := mk &&& -(((j &&& UInt32.ofNat p) + 0x1FF) >>> 9)
        let slots := Function.update slots u (sv ^^^ (mk &&& (sv ^^^ dv))).toUInt16
        (Function.update slots (u - p) (dv ^^^ (mk &&& (sv ^^^ dv))).toUInt16, v)

/-- The passes from `p = 1 << k` on. -/
def squeeze (extra m k : ℕ) (slots : ℕ → UInt16) : ℕ → UInt16 :=
  if 2 ^ k ≤ extra then
    squeeze extra m (k + 1) ((List.range m).foldl (squeezeStep (2 ^ k)) (slots, 0)).1
  else slots
  termination_by extra - k
  decreasing_by
    have hlt : k < 2 ^ k := Nat.lt_two_pow_self
    omega

def hashToPointCt (sc : InnerShake256Context) (logn : ℕ) (slots : ℕ → UInt16) :
    List UInt16 × InnerShake256Context :=
  let n := 2 ^ logn
  let extra := overtab.getD logn 0
  let m := n + extra
  let stored := storeSamples m sc slots
  ((List.range n).map (squeeze extra m 0 stored.1), stored.2)

/-- A stored sample that has not been rejected. -/
def isValid (x : UInt16) : Bool := decide (x.toNat < 2 ^ 15)

section Samples

theorem borrow_mask {w c : UInt32} (hw : w.toNat < 2 ^ 31) (hc : c.toNat < 2 ^ 31) :
    ((w - c) >>> 31) - 1 = if c.toNat ≤ w.toNat then 0xFFFFFFFF else 0 := by
  have hone : (0xFFFFFFFF : UInt32).toNat = 2 ^ 32 - 1 := rfl
  have hshift : ((w - c) >>> 31).toNat = (w - c).toNat / 2 ^ 31 := by
    simp [UInt32.toNat_shiftRight, Nat.shiftRight_eq_div_pow]
  apply UInt32.toNat_inj.mp
  rw [UInt32.toNat_sub, hshift, UInt32.toNat_sub, UInt32.toNat_one]
  split
  · rw [hone]
    omega
  · rw [UInt32.toNat_zero]
    omega

theorem toNat_sub_mask {w c : UInt32} (hw : w.toNat < 2 ^ 31) (hc : c.toNat < 2 ^ 31) :
    (w - (c &&& (((w - c) >>> 31) - 1))).toNat =
      if c.toNat ≤ w.toNat then w.toNat - c.toNat else w.toNat := by
  have hones : c &&& 0xFFFFFFFF = c := UInt32.and_neg_one
  rw [borrow_mask hw hc]
  split
  · next hle => rw [hones, UInt32.toNat_sub_of_le _ _ (UInt32.le_iff_toNat_le.mpr hle)]
  · rw [UInt32.and_zero, UInt32.sub_zero]

@[simp] theorem toNat_subtractQ (w : UInt32) : (subtractQ w).toNat = w.toNat % 12289 := by
  induction w using subtractQ.induct with
  | case1 w hle ih =>
      have hnat : 12289 ≤ w.toNat := UInt32.le_iff_toNat_le.mp hle
      rw [subtractQ, if_pos hle, ih, UInt32.toNat_sub_of_le _ _ hle]
      exact (Nat.mod_eq_sub_mod hnat).symm
  | case2 w hlt =>
      have hnat : ¬oofalconQ.toNat ≤ w.toNat := mt UInt32.le_iff_toNat_le.mpr hlt
      have hq : oofalconQ.toNat = 12289 := rfl
      rw [subtractQ, if_neg hlt, Nat.mod_eq_of_lt (by omega)]

theorem sampleWord_lt (buf : UInt8 × UInt8) : (sampleWord buf).toNat < 2 ^ 16 := by
  have hhigh := buf.1.toNat_lt
  have hlow := buf.2.toNat_lt
  have hshift : (buf.1.toUInt32 <<< 8).toNat = buf.1.toNat * 2 ^ 8 := by
    rw [UInt32.toNat_shiftLeft, UInt8.toNat_toUInt32, Nat.shiftLeft_eq]
    exact Nat.mod_eq_of_lt (show buf.1.toNat * 2 ^ 8 < 2 ^ 32 by omega)
  rw [sampleWord, UInt32.toNat_or, hshift, UInt8.toNat_toUInt32]
  exact Nat.or_lt_two_pow (by omega) (by omega)

/-- The samples below `5 * q` are reduced, and the others are marked. -/
theorem reduceSample_eq {w : UInt32} (hw : w.toNat < 2 ^ 16) :
    reduceSample w = if w < 61445 then (subtractQ w).toUInt16 else 0xFFFF := by
  have h24578 : (24578 : UInt32).toNat = 24578 := rfl
  have h12289 : (12289 : UInt32).toNat = 12289 := rfl
  have h61445 : (61445 : UInt32).toNat = 61445 := rfl
  obtain ⟨w1, hw1⟩ : ∃ w1, w1 = w - ((24578 : UInt32) &&& (((w - 24578) >>> 31) - 1)) := ⟨_, rfl⟩
  obtain ⟨w2, hw2⟩ : ∃ w2, w2 = w1 - ((24578 : UInt32) &&& (((w1 - 24578) >>> 31) - 1)) :=
    ⟨_, rfl⟩
  obtain ⟨w3, hw3⟩ : ∃ w3, w3 = w2 - ((12289 : UInt32) &&& (((w2 - 12289) >>> 31) - 1)) :=
    ⟨_, rfl⟩
  have hn1 := toNat_sub_mask (show w.toNat < 2 ^ 31 by omega) (show (24578 : UInt32).toNat < _ by
    decide)
  rw [← hw1, h24578] at hn1
  have hlt1 : w1.toNat < 40958 := by split at hn1 <;> omega
  have hn2 := toNat_sub_mask (show w1.toNat < 2 ^ 31 by omega) (show (24578 : UInt32).toNat < _ by
    decide)
  rw [← hw2, h24578] at hn2
  have hlt2 : w2.toNat < 24578 := by split at hn2 <;> omega
  have hn3 := toNat_sub_mask (show w2.toNat < 2 ^ 31 by omega) (show (12289 : UInt32).toNat < _ by
    decide)
  rw [← hw3, h12289] at hn3
  have hmod : w3.toNat = w.toNat % 12289 := by
    split at hn1 <;> split at hn2 <;> split at hn3 <;> omega
  have hmask := borrow_mask (show w.toNat < 2 ^ 31 by omega) (show (61445 : UInt32).toNat < _ by
    decide)
  have hlt : w < 61445 ↔ w.toNat < 61445 := UInt32.lt_iff_toNat_lt
  rw [reduceSample, ← hw1, ← hw2, ← hw3, hmask, h61445]
  by_cases hsmall : w.toNat < 61445
  · rw [if_neg (by omega), UInt32.or_zero, if_pos (hlt.mpr hsmall)]
    congr 1
    exact UInt32.toNat_inj.mp (hmod.trans (toNat_subtractQ w).symm)
  · have hones : w3 ||| 0xFFFFFFFF = 0xFFFFFFFF := UInt32.or_neg_one
    rw [if_pos (by omega), if_neg (mt hlt.mp hsmall), hones]
    rfl

theorem isValid_reduceSample {w : UInt32} (hw : w.toNat < 2 ^ 16) :
    isValid (reduceSample w) = decide (w < 61445) := by
  rw [reduceSample_eq hw, isValid]
  by_cases hlt : w < 61445
  · have hred := reduced_subtractQ w
    have hword := congrArg UInt32.toNat (toUInt32_toUInt16 hred)
    rw [UInt16.toNat_toUInt32] at hword
    unfold Reduced at hred
    rw [if_pos hlt, hword]
    simp [hlt]
    omega
  · rw [if_neg hlt]
    simp [hlt]

/-- The samples of `m` iterations. -/
def drawWords {σ : Type} (draw : σ → (UInt8 × UInt8) × σ) : ℕ → σ → List UInt32
  | 0, _ => []
  | m + 1, sc => sampleWord (draw sc).1 :: drawWords draw m (draw sc).2

/-- The point of `hash_to_point_vartime`, if it draws at most `m` samples. -/
theorem hashLoop_eq {σ : Type} (draw : σ → (UInt8 × UInt8) × σ) (m n : ℕ) (sc : σ) :
    hashLoop draw m n sc =
      if n ≤ ((drawWords draw m sc).filter (· < 61445)).length then
        some ((((drawWords draw m sc).filter (· < 61445)).take n).map subtractQ)
      else none := by
  induction m generalizing n sc with
  | zero => cases n <;> rfl
  | succ m ih =>
      cases n with
      | zero => simp [hashLoop]
      | succ n =>
          have hloop : hashLoop draw (m + 1) (n + 1) sc =
              if sampleWord (draw sc).1 < 61445 then
                (hashLoop draw m n (draw sc).2).map (subtractQ (sampleWord (draw sc).1) :: ·)
              else hashLoop draw m (n + 1) (draw sc).2 := rfl
          rw [hloop, drawWords]
          by_cases hlt : sampleWord (draw sc).1 < 61445
          · rw [if_pos hlt, List.filter_cons_of_pos (by simpa using hlt), ih, List.length_cons]
            by_cases hmany : n ≤ ((drawWords draw m (draw sc).2).filter (· < 61445)).length
            · rw [if_pos hmany, if_pos (by omega)]
              rfl
            · rw [if_neg hmany, if_neg (by omega)]
              rfl
          · rw [if_neg hlt, List.filter_cons_of_neg (by simpa using hlt), ih]

end Samples

section Squeezing

variable {slots : ℕ → UInt16} {k m u extra : ℕ}

theorem jump_mask {g : ℕ} (hg : g < 2 ^ 16) (hk : k ≤ 8) :
    -(((UInt32.ofNat g &&& UInt32.ofNat (2 ^ k)) + 0x1FF) >>> 9) =
      if g.testBit k then 0xFFFFFFFF else 0 := by
  have hpow : 2 ^ k ≤ 2 ^ 8 := Nat.pow_le_pow_right (by decide) hk
  have hpos := Nat.two_pow_pos k
  have hand : (UInt32.ofNat g &&& UInt32.ofNat (2 ^ k)).toNat =
      if g.testBit k then 2 ^ k else 0 := by
    rw [UInt32.toNat_and, UInt32.toNat_ofNat_of_lt' (by unfold UInt32.size; omega),
      UInt32.toNat_ofNat_of_lt' (by unfold UInt32.size; omega), Nat.and_two_pow]
    cases g.testBit k <;> simp
  have hadd : ((UInt32.ofNat g &&& UInt32.ofNat (2 ^ k)) + 0x1FF).toNat =
      (if g.testBit k then 2 ^ k else 0) + 511 := by
    rw [UInt32.toNat_add, hand]
    exact Nat.mod_eq_of_lt (show _ + 511 < 2 ^ 32 by split <;> omega)
  have hshift : ((((UInt32.ofNat g &&& UInt32.ofNat (2 ^ k)) + 0x1FF) >>> 9)).toNat =
      if g.testBit k then 1 else 0 := by
    have hdiv : ∀ x : UInt32, (x >>> 9).toNat = x.toNat / 2 ^ 9 := by
      intro x
      simp [UInt32.toNat_shiftRight, Nat.shiftRight_eq_div_pow]
    rw [hdiv, hadd]
    split <;> omega
  split
  · next hbit =>
      rw [if_pos hbit] at hshift
      rw [UInt32.toNat_inj.mp (hshift.trans UInt32.toNat_one.symm)]
      rfl
  · next hbit =>
      rw [if_neg hbit] at hshift
      rw [UInt32.toNat_inj.mp (hshift.trans UInt32.toNat_zero.symm)]
      rfl

theorem valid_mask (x : UInt16) :
    (x.toUInt32 >>> 15) - 1 = if isValid x then 0xFFFFFFFF else 0 := by
  have hlt := x.toNat_lt
  have hshift : (x.toUInt32 >>> 15).toNat = if isValid x then 0 else 1 := by
    have hdiv : (x.toUInt32 >>> 15).toNat = x.toNat / 2 ^ 15 := by
      simp [UInt32.toNat_shiftRight, Nat.shiftRight_eq_div_pow]
    rw [hdiv, isValid]
    simp only [decide_eq_true_eq]
    split <;> omega
  split
  · next hvalid =>
      rw [if_pos hvalid] at hshift
      rw [UInt32.toNat_inj.mp (hshift.trans UInt32.toNat_zero.symm)]
      rfl
  · next hvalid =>
      rw [if_neg hvalid] at hshift
      rw [UInt32.toNat_inj.mp (hshift.trans UInt32.toNat_one.symm)]
      rfl

theorem masked_swap (x y : UInt16) :
    (x.toUInt32 ^^^ ((0xFFFFFFFF : UInt32) &&& (x.toUInt32 ^^^ y.toUInt32))).toUInt16 = y ∧
      (x.toUInt32 ^^^ ((0 : UInt32) &&& (x.toUInt32 ^^^ y.toUInt32))).toUInt16 = x := by
  have hones : ∀ w : UInt32, 0xFFFFFFFF &&& w = w := fun w => UInt32.neg_one_and
  rw [hones, UInt32.zero_and, UInt32.xor_zero, ← UInt32.xor_assoc, UInt32.xor_self,
    UInt32.zero_xor]
  exact ⟨UInt16.toUInt16_toUInt32 y, UInt16.toUInt16_toUInt32 x⟩

theorem squeezeStep_eq (hk : k ≤ 8) (hu : u < 2 ^ 16) :
    squeezeStep (2 ^ k) (slots, UInt32.ofNat (kept isValid slots u).length) u =
      (moveDown isValid k slots u, UInt32.ofNat (kept isValid slots (u + 1)).length) := by
  have hcount := gaps_add isValid slots u
  have hjump : UInt32.ofNat u - UInt32.ofNat (kept isValid slots u).length =
      UInt32.ofNat (gaps isValid slots u) := by
    apply UInt32.toNat_inj.mp
    rw [UInt32.toNat_sub, UInt32.toNat_ofNat_of_lt' (by unfold UInt32.size; omega),
      UInt32.toNat_ofNat_of_lt' (by unfold UInt32.size; omega),
      UInt32.toNat_ofNat_of_lt' (by unfold UInt32.size; omega)]
    omega
  have hnext : UInt32.ofNat (kept isValid slots u).length -
      (if isValid (slots u) then 0xFFFFFFFF else 0) =
        UInt32.ofNat (kept isValid slots (u + 1)).length := by
    rw [length_kept_succ]
    split
    · rw [UInt32.ofNat_add, show (0xFFFFFFFF : UInt32) = -1 from rfl, UInt32.sub_neg]
      rfl
    · rw [UInt32.sub_zero, Nat.add_zero]
  rw [squeezeStep]
  dsimp only
  rw [hjump, valid_mask, hnext, jump_mask (by omega) hk]
  refine Prod.ext ?_ (by split <;> rfl)
  rw [moveDown]
  by_cases hmove : isValid (slots u) ∧ (gaps isValid slots u).testBit k
  · have hle : 2 ^ k ≤ gaps isValid slots u := Nat.ge_two_pow_of_testBit hmove.2
    have hpos := Nat.two_pow_pos k
    obtain ⟨hfrom, -⟩ := masked_swap (slots u) (slots (u - 2 ^ k))
    obtain ⟨hto, -⟩ := masked_swap (slots (u - 2 ^ k)) (slots u)
    rw [UInt32.xor_comm (slots (u - 2 ^ k)).toUInt32 (slots u).toUInt32] at hto
    rw [if_neg (by omega), if_pos hmove, if_pos hmove.1, if_pos hmove.2, UInt32.and_self, hfrom,
      hto, Equiv.swap_comm, Equiv.comp_swap_eq_update, Function.update_comm (by omega)]
  · have hzero : (if isValid (slots u) then (0xFFFFFFFF : UInt32) else 0) &&&
        (if (gaps isValid slots u).testBit k then 0xFFFFFFFF else 0) = 0 := by
      rw [not_and_or] at hmove
      rcases hmove with hmove | hmove
      · rw [if_neg hmove, UInt32.zero_and]
      · rw [if_neg hmove, UInt32.and_zero]
    obtain ⟨-, hfrom⟩ := masked_swap (slots u) (slots (u - 2 ^ k))
    obtain ⟨-, hto⟩ := masked_swap (slots (u - 2 ^ k)) (slots u)
    rw [UInt32.xor_comm (slots (u - 2 ^ k)).toUInt32 (slots u).toUInt32] at hto
    rw [if_neg hmove, hzero, hfrom, hto, Function.update_eq_self, Function.update_eq_self, ite_self]

theorem foldl_squeezeStep (hk : k ≤ 8) (hm : m ≤ 2 ^ 16) (haligned : Aligned isValid k m slots)
    (hu : u ≤ m) :
    (List.range u).foldl (squeezeStep (2 ^ k)) (slots, 0) =
      (movePass isValid k u slots,
        UInt32.ofNat (kept isValid (movePass isValid k u slots) u).length) := by
  induction u with
  | zero => rfl
  | succ u ih =>
      obtain ⟨hpassing, -⟩ := haligned.passing (show u ≤ m by omega)
      obtain ⟨-, hkept⟩ := hpassing.succ (by omega)
      have hsucc : movePass isValid k (u + 1) slots =
          moveDown isValid k (movePass isValid k u slots) u := by
        rw [movePass, List.range_succ, List.foldl_append]
        rfl
      rw [List.range_succ, List.foldl_append, ih (by omega), List.foldl_cons, List.foldl_nil,
        squeezeStep_eq hk (by omega), hsucc, hkept (u + 1) (Nat.lt_succ_self u)]

theorem squeeze_spec (hover : extra < 2 ^ 9) (hm : m ≤ 2 ^ 16)
    (haligned : Aligned isValid k m slots) :
    kept isValid (squeeze extra m k slots) m = kept isValid slots m ∧
      ∃ k', extra < 2 ^ k' ∧ Aligned isValid k' m (squeeze extra m k slots) := by
  induction k, slots using squeeze.induct extra m with
  | case1 k slots hle ih =>
      have hk : k ≤ 8 := by
        by_contra hgt
        have hpow := Nat.pow_le_pow_right (show 0 < 2 by decide) (show 9 ≤ k by omega)
        omega
      rw [foldl_squeezeStep hk hm haligned le_rfl] at ih
      obtain ⟨hnext, hkept⟩ := haligned.movePass
      obtain ⟨hkept', hrest⟩ := ih hnext
      rw [squeeze, if_pos hle, foldl_squeezeStep hk hm haligned le_rfl]
      exact ⟨hkept'.trans hkept, hrest⟩
  | case2 k slots hgt =>
      rw [squeeze, if_neg hgt]
      exact ⟨rfl, k, by omega, haligned⟩

end Squeezing

section Point

variable {logn m : ℕ} {sc : InnerShake256Context} {slots : ℕ → UInt16}

theorem drawWords_succ {σ : Type} (draw : σ → (UInt8 × UInt8) × σ) (m : ℕ) (sc : σ) :
    drawWords draw (m + 1) sc =
      drawWords draw m sc ++ [sampleWord (draw ((fun sc => (draw sc).2)^[m] sc)).1] := by
  induction m generalizing sc with
  | zero => rfl
  | succ m ih => rw [drawWords, ih, drawWords, Function.iterate_succ_apply, List.cons_append]

theorem drawWords_lt {σ : Type} (draw : σ → (UInt8 × UInt8) × σ) (m : ℕ) (sc : σ) :
    ∀ w ∈ drawWords draw m sc, w.toNat < 2 ^ 16 := by
  induction m generalizing sc with
  | zero => exact fun w hw => absurd hw List.not_mem_nil
  | succ m ih => exact List.forall_mem_cons.mpr ⟨sampleWord_lt _, ih _⟩

theorem storeSamples_spec (m : ℕ) (sc : InnerShake256Context) (slots : ℕ → UInt16) :
    (List.range m).map (storeSamples m sc slots).1 =
        (drawWords drawExtract m sc).map reduceSample ∧
      (storeSamples m sc slots).2 = (fun sc => (drawExtract sc).2)^[m] sc := by
  induction m with
  | zero => exact ⟨rfl, rfl⟩
  | succ m ih =>
      obtain ⟨hslots, hsc⟩ := ih
      obtain ⟨a, sc', hstored⟩ : ∃ a sc', storeSamples m sc slots = (a, sc') := ⟨_, _, rfl⟩
      rw [hstored] at hslots hsc
      have hnext : storeSamples (m + 1) sc slots =
          (Function.update a m (reduceSample (sampleWord (drawExtract sc').1)),
            (drawExtract sc').2) := by
        rw [storeSamples, List.range_succ, List.foldl_append, ← storeSamples, hstored]
        rfl
      have hbelow : (List.range m).map (Function.update a m
          (reduceSample (sampleWord (drawExtract sc').1))) = (List.range m).map a :=
        List.map_congr_left fun u hu =>
          Function.update_of_ne (List.mem_range.mp hu).ne _ _
      dsimp only at hslots hsc
      rw [hnext, List.range_succ, List.map_append, hbelow, hslots, drawWords_succ, List.map_append,
        Function.iterate_succ_apply', ← hsc, List.map_singleton, List.map_singleton]
      exact ⟨by simp only [Function.update_self], rfl⟩

/-- The valid samples, in the order in which they are drawn. -/
theorem kept_storeSamples (m : ℕ) (sc : InnerShake256Context) (slots : ℕ → UInt16) :
    kept isValid (storeSamples m sc slots).1 m =
      (((drawWords drawExtract m sc).filter (· < 61445)).map subtractQ).map UInt32.toUInt16 := by
  have hwords := drawWords_lt drawExtract m sc
  rw [kept, (storeSamples_spec m sc slots).1, List.filter_map, List.map_map]
  have hfilter : (drawWords drawExtract m sc).filter (isValid ∘ reduceSample) =
      (drawWords drawExtract m sc).filter (· < 61445) :=
    List.filter_congr fun w hw => isValid_reduceSample (hwords w hw)
  rw [hfilter]
  refine List.map_congr_left fun w hw => ?_
  obtain ⟨hmem, hlt⟩ := List.mem_filter.mp hw
  rw [reduceSample_eq (hwords w hmem), if_pos (of_decide_eq_true hlt)]
  rfl

theorem toUInt16_subtractQ_lt (w : UInt32) : (subtractQ w).toUInt16 < 12289 := by
  have hred := reduced_subtractQ w
  have hword := congrArg UInt32.toNat (toUInt32_toUInt16 hred)
  rw [UInt16.toNat_toUInt32] at hword
  apply UInt16.lt_iff_toNat_lt.mpr
  rw [hword]
  exact hred

theorem overtab_bounds (hlogn : logn ≤ 10) :
    overtab.getD logn 0 < 2 ^ 9 ∧ 2 ^ logn + overtab.getD logn 0 ≤ 2 ^ 16 ∧
      2 ^ logn + overtab.getD logn 0 ≤ 2 * 2 ^ logn + 63 := by
  have hall : ∀ logn < 11, overtab.getD logn 0 < 2 ^ 9 ∧ 2 ^ logn + overtab.getD logn 0 ≤ 2 ^ 16 ∧
      2 ^ logn + overtab.getD logn 0 ≤ 2 * 2 ^ logn + 63 := by
    decide
  exact hall logn (by omega)

/-- The point of `hash_to_point_vartime` with as many samples. -/
theorem hashToPointVartime_eq_ct (hlogn : logn ≤ 10) (sc : InnerShake256Context)
    (slots : ℕ → UInt16) :
    hashToPointVartime (2 ^ logn + overtab.getD logn 0) sc logn =
      if ∀ xu ∈ (hashToPointCt sc logn slots).1, xu < 12289 then
        some (hashToPointCt sc logn slots).1
      else none := by
  obtain ⟨hover, hm, -⟩ := overtab_bounds hlogn
  obtain ⟨m, hmeq⟩ : ∃ m, m = 2 ^ logn + overtab.getD logn 0 := ⟨_, rfl⟩
  have hct : (hashToPointCt sc logn slots).1 = (List.range (2 ^ logn)).map
      (squeeze (overtab.getD logn 0) m 0 (storeSamples m sc slots).1) := by
    rw [hmeq]
    rfl
  obtain ⟨a, ha⟩ : ∃ a, a = squeeze (overtab.getD logn 0) m 0 (storeSamples m sc slots).1 :=
    ⟨_, rfl⟩
  obtain ⟨hkept, k', hlarge, haligned⟩ := squeeze_spec hover (hmeq ▸ hm)
    (show Aligned isValid 0 m (storeSamples m sc slots).1 from fun x _ _ => one_dvd _)
  rw [← ha, kept_storeSamples] at hkept
  rw [← ha] at haligned
  obtain ⟨words, hwords⟩ : ∃ words, words = (drawWords drawExtract m sc).filter (· < 61445) :=
    ⟨_, rfl⟩
  have hlength : (kept isValid a m).length = words.length := by
    rw [hkept, List.length_map, List.length_map, hwords]
  rw [hashToPointVartime, ← hmeq, hashLoop_eq, ← hwords, hct, ← ha]
  by_cases hmany : 2 ^ logn ≤ words.length
  · have hfront := haligned.kept_eq (by omega)
    rw [hkept, ← hwords] at hfront
    have hx : (List.range (2 ^ logn)).map a =
        ((words.take (2 ^ logn)).map subtractQ).map UInt32.toUInt16 := by
      rw [List.map_take, List.map_take, hfront, ← List.map_take, List.take_range,
        List.length_map, List.length_map, Nat.min_eq_left hmany]
    rw [if_pos hmany, hx, Option.map_some, if_pos]
    intro xu hxu
    obtain ⟨w', hw', rfl⟩ := List.mem_map.mp hxu
    obtain ⟨w, -, rfl⟩ := List.mem_map.mp hw'
    exact toUInt16_subtractQ_lt w
  · rw [if_neg hmany, Option.map_none, if_neg]
    intro hall
    -- too few samples are valid for all places
    have hvalid : ∀ i < 2 ^ logn, isValid (a i) = true := by
      intro i hi
      have hlt := UInt16.lt_iff_toNat_lt.mp
        (hall (a i) (List.mem_map.mpr ⟨i, List.mem_range.mpr hi, rfl⟩))
      exact decide_eq_true (hlt.trans (by decide))
    have hfull : (kept isValid a (2 ^ logn)).length = 2 ^ logn := by
      rw [kept, List.filter_eq_self.mpr, List.length_map, List.length_range]
      intro xu hxu
      obtain ⟨i, hi, rfl⟩ := List.mem_map.mp hxu
      exact hvalid i (List.mem_range.mp hi)
    have hmono := length_kept_mono isValid a (show 2 ^ logn ≤ m by omega)
    omega

theorem hashLoop_mono {σ : Type} {draw : σ → (UInt8 × UInt8) × σ} {fuel fuel' n : ℕ} {sc : σ}
    {words : List UInt32} (hle : fuel ≤ fuel') (hloop : hashLoop draw fuel n sc = some words) :
    hashLoop draw fuel' n sc = some words := by
  induction fuel generalizing fuel' n sc words with
  | zero =>
      cases n with
      | zero => cases fuel' <;> exact hloop
      | succ n => cases hloop
  | succ fuel ih =>
      obtain ⟨more, rfl⟩ : ∃ more, fuel' = more + 1 := ⟨fuel' - 1, by omega⟩
      cases n with
      | zero => exact hloop
      | succ n =>
          simp only [hashLoop] at hloop ⊢
          split at hloop
          · next hlt =>
              obtain ⟨rest, hrest, rfl⟩ := Option.map_eq_some_iff.mp hloop
              rw [if_pos hlt, ih (by omega) hrest]
              rfl
          · next hge =>
              rw [if_neg hge]
              exact ih (by omega) hloop

/-- `hash_to_point_ct` computes the point of `hash_to_point_vartime`, unless this one draws
more samples; then it leaves an entry that is not reduced. The last array has room for the
samples that are stored in it. -/
theorem hashToPointCt_spec (hlogn : logn ≤ 10) (sc : InnerShake256Context)
    (slots : ℕ → UInt16) :
    let m := 2 ^ logn + overtab.getD logn 0
    let x := (hashToPointCt sc logn slots).1
    ((∀ xu ∈ x, xu < 12289) → ∀ fuel, m ≤ fuel → hashToPointVartime fuel sc logn = some x) ∧
      ((∃ xu ∈ x, ¬xu < 12289) ↔ hashToPointVartime m sc logn = none) ∧
      m ≤ 2 * 2 ^ logn + 63 := by
  intro m x
  have heq := hashToPointVartime_eq_ct hlogn sc slots
  refine ⟨fun hall fuel hfuel => ?_, ?_, (overtab_bounds hlogn).2.2⟩
  · rw [if_pos hall] at heq
    obtain ⟨words, hloop, hx⟩ := Option.map_eq_some_iff.mp heq
    exact Option.map_eq_some_iff.mpr ⟨words, hashLoop_mono hfuel hloop, hx⟩
  · rw [show hashToPointVartime m sc logn = _ from heq]
    split
    · next hall =>
        exact iff_of_false (fun ⟨xu, hxu, hnot⟩ => hnot (hall xu hxu)) fun h => by cases h
    · next hnot =>
        push Not at hnot
        exact iff_of_true hnot rfl

theorem hashToPointCt_spec_init :
    (∃ xu ∈ (hashToPointCt iShake256Init 1 fun _ => 0).1, ¬xu < 12289) ↔
      hashToPointVartime 67 iShake256Init 1 = none :=
  (hashToPointCt_spec (show 1 ≤ 10 by decide) iShake256Init fun _ => 0).2.1

end Point

end Soko.FnDsa
