import Mathlib.Algebra.Order.Group.Nat
import Mathlib.Data.Nat.Bitwise
import Mathlib.Logic.Equiv.Basic
import Mathlib.Tactic.Ring

/-!
Squeezing the invalid entries out of an array, in passes over powers of two. In pass `k` an
entry moves down by `2 ^ k` places if the number of invalid entries below it has bit `k`.
The place it moves to is free then, so that the order of the valid entries is kept, and
after the pass the numbers have no bit up to `k` any more (`Passing.succ`). When no
number has a bit left, the valid entries stand in front (`kept_eq_map`).
-/

namespace Soko.Library

variable {α : Type*} (valid : α → Bool)

def kept (a : ℕ → α) (m : ℕ) : List α := ((List.range m).map a).filter valid

/-- The number of invalid entries below `u`. -/
def gaps (a : ℕ → α) (u : ℕ) : ℕ := u - (kept valid a u).length

/-- What pass `k` does at `u`. -/
def moveDown (k : ℕ) (a : ℕ → α) (u : ℕ) : ℕ → α :=
  if valid (a u) ∧ (gaps valid a u).testBit k then a ∘ Equiv.swap (u - 2 ^ k) u else a

/-- Pass `k` over the first `m` entries. -/
def movePass (k m : ℕ) (a : ℕ → α) : ℕ → α := (List.range m).foldl (moveDown valid k) a

section Kept

variable {valid} {a b : ℕ → α} {m u : ℕ}

theorem kept_succ (a : ℕ → α) (m : ℕ) :
    kept valid a (m + 1) = kept valid a m ++ if valid (a m) then [a m] else [] := by
  rw [kept, List.range_succ, List.map_append, List.filter_append, kept]
  cases h : valid (a m) <;> simp [h]

theorem kept_congr (hab : ∀ i < m, a i = b i) : kept valid a m = kept valid b m :=
  congrArg _ (List.map_congr_left fun i hi => hab i (List.mem_range.mp hi))

theorem kept_congr_from (hu : kept valid a u = kept valid b u) (hum : u ≤ m)
    (hab : ∀ i, u ≤ i → i < m → a i = b i) : kept valid a m = kept valid b m := by
  induction m, hum using Nat.le_induction with
  | base => exact hu
  | succ m hum ih =>
      rw [kept_succ, kept_succ, ih fun i hi hlt => hab i hi (by omega),
        hab m hum (Nat.lt_succ_self m)]

theorem kept_of_invalid (hum : u ≤ m) (hinvalid : ∀ i, u ≤ i → i < m → valid (a i) = false) :
    kept valid a m = kept valid a u := by
  induction m, hum using Nat.le_induction with
  | base => rfl
  | succ m hum ih =>
      rw [kept_succ, ih fun i hi hlt => hinvalid i hi (by omega),
        hinvalid m hum (Nat.lt_succ_self m), if_neg Bool.false_ne_true, List.append_nil]

theorem length_kept_le (a : ℕ → α) (m : ℕ) : (kept valid a m).length ≤ m :=
  (List.length_filter_le _ _).trans_eq (by simp)

theorem length_kept_succ (a : ℕ → α) (m : ℕ) :
    (kept valid a (m + 1)).length = (kept valid a m).length + if valid (a m) then 1 else 0 := by
  rw [kept_succ, List.length_append]
  cases valid (a m) <;> rfl

variable (valid) in
theorem length_kept_mono (a : ℕ → α) (hum : u ≤ m) :
    (kept valid a u).length ≤ (kept valid a m).length := by
  induction m, hum using Nat.le_induction with
  | base => exact le_rfl
  | succ m hum ih =>
      rw [length_kept_succ]
      omega

variable (valid) in
theorem gaps_add (a : ℕ → α) (u : ℕ) : gaps valid a u + (kept valid a u).length = u :=
  Nat.sub_add_cancel (length_kept_le a u)

variable (valid) in
theorem gaps_mono (a : ℕ → α) (hum : u ≤ m) : gaps valid a u ≤ gaps valid a m := by
  induction m, hum using Nat.le_induction with
  | base => exact le_rfl
  | succ m hum ih =>
      have hm := gaps_add valid a m
      have hsucc := gaps_add valid a (m + 1)
      rw [length_kept_succ] at hsucc
      split at hsucc <;> omega

theorem kept_eq_map (hgaps : ∀ x < m, valid (a x) → gaps valid a x = 0) :
    kept valid a m = (List.range (kept valid a m).length).map a := by
  induction m with
  | zero => rfl
  | succ m ih =>
      have hm := ih fun x hx => hgaps x (by omega)
      rw [kept_succ]
      split
      · next hvalid =>
          have hlength := gaps_add valid a m
          rw [hgaps m (Nat.lt_succ_self m) hvalid, Nat.zero_add] at hlength
          rw [hlength] at hm
          rw [List.length_append, List.length_singleton, hlength, List.range_succ,
            List.map_append, hm]
          rfl
      · rw [List.append_nil]
        exact hm

end Kept

section Passes

variable {valid} {a : ℕ → α} {k m u : ℕ}

/-- The numbers of invalid entries below the valid ones have no bit below `k`. -/
def Aligned (valid : α → Bool) (k m : ℕ) (a : ℕ → α) : Prop :=
  ∀ x < m, valid (a x) → 2 ^ k ∣ gaps valid a x

/-- Pass `k` has come to `u`. -/
structure Passing (valid : α → Bool) (k m u : ℕ) (a : ℕ → α) : Prop where
  done : ∀ x < u, valid (a x) → 2 ^ (k + 1) ∣ gaps valid a x
  pending : ∀ x, u ≤ x → x < m → valid (a x) → 2 ^ k ∣ gaps valid a x

theorem testBit_cases {g : ℕ} (hdvd : 2 ^ k ∣ g) :
    if g.testBit k then ∃ e, g = 2 ^ (k + 1) * e + 2 ^ k else 2 ^ (k + 1) ∣ g := by
  obtain ⟨c, rfl⟩ := hdvd
  have hbit : (2 ^ k * c).testBit k = decide (c % 2 = 1) := by
    rw [Nat.testBit_eq_decide_div_mod_eq, Nat.mul_div_cancel_left c (Nat.two_pow_pos k)]
  rw [hbit]
  rcases Nat.mod_two_eq_zero_or_one c with heven | hodd
  · rw [if_neg (by simp [heven])]
    obtain ⟨e, rfl⟩ := Nat.dvd_of_mod_eq_zero heven
    exact ⟨e, by ring⟩
  · rw [if_pos (by simp [hodd])]
    exact ⟨c / 2, by rw [pow_succ, mul_assoc, ← Nat.mul_succ]; congr 1; omega⟩

/-- The places down to the one that the entry at `u` moves to are free. -/
theorem Passing.free (h : Passing valid k m u a) {e : ℕ}
    (he : gaps valid a u = 2 ^ (k + 1) * e + 2 ^ k) {i : ℕ} (hi : u - 2 ^ k ≤ i) (hlt : i < u) :
    valid (a i) = false := by
  by_contra hvalid
  rw [Bool.not_eq_false] at hvalid
  obtain ⟨c, hc⟩ := h.done i hlt hvalid
  have hmono := gaps_mono valid a hlt.le
  have hcount := gaps_add valid a u
  have hcount' := gaps_add valid a i
  have hlength := length_kept_mono valid a (show i + 1 ≤ u from hlt)
  rw [length_kept_succ, if_pos hvalid] at hlength
  -- the numbers at `i` and at `u` differ by an odd multiple of `2 ^ k`, but by less than `u - i`
  have hle : c ≤ e := by
    rw [he, hc] at hmono
    by_contra hgt
    have hmul := Nat.mul_le_mul_left (2 ^ (k + 1)) (show e + 1 ≤ c by omega)
    have hpow : 2 ^ (k + 1) = 2 * 2 ^ k := pow_succ' 2 k
    have hpos := Nat.two_pow_pos k
    rw [Nat.mul_succ] at hmul
    omega
  have hmul := Nat.mul_le_mul_left (2 ^ (k + 1)) hle
  omega

theorem Passing.moved (h : Passing valid k m u a) (hvalid : valid (a u)) {e : ℕ}
    (he : gaps valid a u = 2 ^ (k + 1) * e + 2 ^ k) :
    Passing valid k m (u + 1) (a ∘ Equiv.swap (u - 2 ^ k) u) ∧
      ∀ n, u < n → kept valid (a ∘ Equiv.swap (u - 2 ^ k) u) n = kept valid a n := by
  have hcount := gaps_add valid a u
  have hpos := Nat.two_pow_pos k
  have hfree := fun i => h.free he (i := i)
  obtain ⟨d, hd⟩ : ∃ d, d = u - 2 ^ k := ⟨_, rfl⟩
  rw [← hd] at hfree ⊢
  obtain ⟨a', ha'⟩ : ∃ a', a' = a ∘ Equiv.swap d u := ⟨_, rfl⟩
  have hto : a' d = a u := by rw [ha', Function.comp_apply, Equiv.swap_apply_left]
  have hfrom : a' u = a d := by rw [ha', Function.comp_apply, Equiv.swap_apply_right]
  have hother : ∀ i, i ≠ d → i ≠ u → a' i = a i := fun i hid hiu => by
    rw [ha', Function.comp_apply, Equiv.swap_apply_of_ne_of_ne hid hiu]
  rw [← ha']
  have hempty : ∀ i, d + 1 ≤ i → i < u + 1 → valid (a' i) = false := by
    intro i hi hlt
    rcases eq_or_ne i u with rfl | hne
    · rw [hfrom]
      exact hfree d le_rfl (by omega)
    · rw [hother i (by omega) hne]
      exact hfree i (by omega) (by omega)
  have hbelow : kept valid a u = kept valid a d :=
    kept_of_invalid (by omega) fun i hi hlt => hfree i hi hlt
  have hbelow' : ∀ x ≤ d, kept valid a' x = kept valid a x := fun x hx =>
    kept_congr fun i hi => hother i (by omega) (by omega)
  have hkept : kept valid a' (u + 1) = kept valid a (u + 1) := by
    rw [kept_of_invalid (by omega) hempty, kept_succ, kept_succ, hbelow' d le_rfl, hto, hbelow]
  have hkept' : ∀ n, u < n → kept valid a' n = kept valid a n := fun n hn =>
    kept_congr_from hkept hn fun i hi _ => hother i (by omega) (by omega)
  have hgaps : ∀ x, kept valid a' x = kept valid a x → gaps valid a' x = gaps valid a x :=
    fun x hx => by rw [gaps, gaps, hx]
  refine ⟨⟨fun x hx hvalid' => ?_, fun x hx hlt hvalid' => ?_⟩, hkept'⟩
  · rcases lt_trichotomy x d with hlow | rfl | hhigh
    · rw [hother x (by omega) (by omega)] at hvalid'
      rw [hgaps x (hbelow' x hlow.le)]
      exact h.done x (by omega) hvalid'
    · refine ⟨e, ?_⟩
      rw [hgaps x (hbelow' x le_rfl), gaps, ← hbelow]
      omega
    · rw [hempty x hhigh hx] at hvalid'
      exact absurd hvalid' Bool.false_ne_true
  · rw [hother x (by omega) (by omega)] at hvalid'
    rw [hgaps x (hkept' x hx)]
    exact h.pending x (by omega) hlt hvalid'

theorem Passing.succ (h : Passing valid k m u a) (hu : u < m) :
    Passing valid k m (u + 1) (moveDown valid k a u) ∧
      ∀ n, u < n → kept valid (moveDown valid k a u) n = kept valid a n := by
  rw [moveDown]
  by_cases hvalid : valid (a u)
  · have hcases := testBit_cases (h.pending u le_rfl hu hvalid)
    by_cases hbit : (gaps valid a u).testBit k
    · rw [if_pos hbit] at hcases
      obtain ⟨e, he⟩ := hcases
      rw [if_pos ⟨hvalid, hbit⟩]
      exact h.moved hvalid he
    · rw [if_neg hbit] at hcases
      rw [if_neg fun hboth => hbit hboth.2]
      refine ⟨⟨fun x hx hx' => ?_, fun x hx => h.pending x (by omega)⟩, fun _ _ => rfl⟩
      rcases Nat.lt_succ_iff_lt_or_eq.mp hx with hlt | rfl
      · exact h.done x hlt hx'
      · exact hcases
  · rw [if_neg fun hboth => hvalid hboth.1]
    refine ⟨⟨fun x hx hx' => ?_, fun x hx => h.pending x (by omega)⟩, fun _ _ => rfl⟩
    rcases Nat.lt_succ_iff_lt_or_eq.mp hx with hlt | rfl
    · exact h.done x hlt hx'
    · exact absurd hx' hvalid

theorem Aligned.passing (h : Aligned valid k m a) (hu : u ≤ m) :
    Passing valid k m u (movePass valid k u a) ∧
      kept valid (movePass valid k u a) m = kept valid a m := by
  induction u with
  | zero => exact ⟨⟨fun x hx => absurd hx (Nat.not_lt_zero x), fun x _ => h x⟩, rfl⟩
  | succ u ih =>
      obtain ⟨hpassing, hkept⟩ := ih (by omega)
      rw [movePass, List.range_succ, List.foldl_append, List.foldl_cons,
        List.foldl_nil, ← movePass]
      obtain ⟨hnext, hkept'⟩ := hpassing.succ (by omega)
      exact ⟨hnext, (hkept' m (by omega)).trans hkept⟩

theorem Aligned.movePass (h : Aligned valid k m a) :
    Aligned valid (k + 1) m (movePass valid k m a) ∧
      kept valid (Library.movePass valid k m a) m = kept valid a m := by
  obtain ⟨hpassing, hkept⟩ := h.passing le_rfl
  exact ⟨hpassing.done, hkept⟩

/-- The valid entries stand in front when there are not more than `2 ^ k - 1` others. -/
theorem Aligned.kept_eq (h : Aligned valid k m a) (hfew : m < (kept valid a m).length + 2 ^ k) :
    kept valid a m = (List.range (kept valid a m).length).map a := by
  refine kept_eq_map fun x hx hvalid => ?_
  have hmono := gaps_mono valid a hx.le
  have hcount := gaps_add valid a m
  exact Nat.eq_zero_of_dvd_of_lt (h x hx hvalid) (by omega)

end Passes

end Soko.Library
