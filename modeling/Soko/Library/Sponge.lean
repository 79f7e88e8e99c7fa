import Mathlib.Data.Nat.Init
import Mathlib.Logic.Function.Iterate

/-!
Sponges over any permutation. A sponge absorbs a list in blocks of `rate` elements, with the
permutation after each block, and its output is read block by block too. An implementation
keeps a place in the current block and handles one element at a time (`push`, `pull`). It
absorbs what the blocks say (`foldl_push_eq_absorb`) and reads the output (`pullMany_eq`),
however its input and its output are cut into pieces. Elements may be groups of smaller ones,
as bytes are of bits (`Refines`).
-/

namespace Soko.Library

/-- A sponge: what its permutation is, and how an element is added to and read from a place
of the state. -/
structure Sponge (σ β : Type*) where
  rate : ℕ
  rate_pos : 0 < rate
  perm : σ → σ
  add : σ → ℕ → β → σ
  read : σ → ℕ → β

namespace Sponge

variable {σ β : Type*} (S : Sponge σ β)

def addList (s : σ) : ℕ → List β → σ
  | _, [] => s
  | p, b :: l => addList (S.add s p b) (p + 1) l

def absorb (s : σ) (l : List β) : σ :=
  if l = [] then s else absorb (S.perm (S.addList s 0 (l.take S.rate))) (l.drop S.rate)
  termination_by l.length
  decreasing_by
    have hpos := List.length_pos_iff.mpr ‹l ≠ []›
    have hrate := S.rate_pos
    rw [List.length_drop]
    omega

def output (s : σ) (i : ℕ) : β := S.read (S.perm^[i / S.rate] s) (i % S.rate)

/-- One element more is absorbed. The place is that of the next element. -/
def push (c : σ × ℕ) (b : β) : σ × ℕ :=
  if c.2 + 1 = S.rate then (S.perm (S.add c.1 c.2 b), 0) else (S.add c.1 c.2 b, c.2 + 1)

def ready (c : σ × ℕ) : σ × ℕ := if c.2 = S.rate then (S.perm c.1, 0) else c

def pull (c : σ × ℕ) : β × σ × ℕ :=
  let c := S.ready c
  (S.read c.1 c.2, c.1, c.2 + 1)

def pullMany : ℕ → σ × ℕ → List β × σ × ℕ
  | 0, c => ([], c)
  | n + 1, c =>
      let first := S.pull c
      let rest := pullMany n first.2
      (first.1 :: rest.1, rest.2)

section Absorbing

variable {s : σ} {p : ℕ} {l l' : List β}

@[simp] theorem addList_nil (s : σ) (p : ℕ) : S.addList s p [] = s := rfl

@[simp] theorem addList_append (s : σ) (p : ℕ) (l l' : List β) :
    S.addList s p (l ++ l') = S.addList (S.addList s p l) (p + l.length) l' := by
  induction l generalizing s p with
  | nil => rfl
  | cons b l ih => rw [List.cons_append, addList, ih, addList, List.length_cons]; congr 1; omega

theorem foldl_push_of_lt (hlt : p + l.length < S.rate) :
    l.foldl S.push (s, p) = (S.addList s p l, p + l.length) := by
  induction l generalizing s p with
  | nil => rfl
  | cons b l ih =>
      rw [List.length_cons] at hlt
      rw [List.foldl_cons, push, if_neg (show ¬p + 1 = S.rate by omega), ih (by omega), addList,
        List.length_cons]
      congr 1
      omega

theorem foldl_push_of_eq (hpos : l ≠ []) (heq : p + l.length = S.rate) :
    l.foldl S.push (s, p) = (S.perm (S.addList s p l), 0) := by
  induction l generalizing s p with
  | nil => exact absurd rfl hpos
  | cons b l ih =>
      rw [List.length_cons] at heq
      rw [List.foldl_cons, push, addList]
      cases l with
      | nil => exact if_pos heq
      | cons b' l =>
          rw [List.length_cons] at heq
          rw [if_neg (show ¬p + 1 = S.rate by omega)]
          exact ih (List.cons_ne_nil b' l) (by rw [List.length_cons]; omega)

theorem absorb_of_ne_nil (hne : l ≠ []) :
    S.absorb s l = S.absorb (S.perm (S.addList s 0 (l.take S.rate))) (l.drop S.rate) := by
  rw [absorb, if_neg hne]

theorem foldl_push_eq_absorb (hdvd : S.rate ∣ l.length) :
    l.foldl S.push (s, 0) = (S.absorb s l, 0) := by
  induction hlen : l.length using Nat.strong_induction_on generalizing s l with
  | _ n ih =>
      rcases eq_or_ne l [] with rfl | hne
      · rw [absorb, if_pos rfl]
        rfl
      · have hpos := List.length_pos_iff.mpr hne
        have hle := Nat.le_of_dvd hpos hdvd
        have hrate := S.rate_pos
        have htake : (l.take S.rate).length = S.rate := by
          rw [List.length_take]
          omega
        have hblock : (l.take S.rate).foldl S.push (s, 0) =
            (S.perm (S.addList s 0 (l.take S.rate)), 0) :=
          S.foldl_push_of_eq (List.length_pos_iff.mp (by omega)) (by omega)
        rw [S.absorb_of_ne_nil hne, ← List.take_append_drop S.rate l, List.foldl_append, hblock,
          List.take_append_drop]
        refine ih (l.drop S.rate).length ?_ ?_ rfl
        · rw [List.length_drop]
          omega
        · rw [List.length_drop]
          exact Nat.dvd_sub hdvd (Nat.dvd_refl S.rate)

/-- The place is the number of elements beyond the last whole block. -/
theorem foldl_push_snd (hp : p < S.rate) (l : List β) :
    (l.foldl S.push (s, p)).2 = (p + l.length) % S.rate := by
  induction l generalizing s p with
  | nil => exact (Nat.mod_eq_of_lt hp).symm
  | cons b l ih =>
      rw [List.foldl_cons, push, List.length_cons]
      split
      · next hfull =>
          rw [ih S.rate_pos, show p + (l.length + 1) = l.length + S.rate by omega,
            Nat.add_mod_right, Nat.zero_add]
      · next hfull =>
          have hfull : ¬p + 1 = S.rate := hfull
          rw [ih (show p + 1 < S.rate by omega)]
          congr 1
          omega

theorem absorb_append (hpad : l' ≠ []) (hfull : l.length % S.rate + l'.length = S.rate) :
    S.absorb s (l ++ l') =
      S.perm (S.addList (l.foldl S.push (s, 0)).1 (l.foldl S.push (s, 0)).2 l') := by
  have hplace := S.foldl_push_snd (s := s) S.rate_pos l
  rw [Nat.zero_add] at hplace
  have hlast := S.foldl_push_of_eq (s := (l.foldl S.push (s, 0)).1) hpad
    (show (l.foldl S.push (s, 0)).2 + l'.length = S.rate by rw [hplace, hfull])
  have hdvd : S.rate ∣ (l ++ l').length := by
    refine ⟨l.length / S.rate + 1, ?_⟩
    rw [List.length_append, Nat.mul_succ, ← hfull, ← Nat.add_assoc, hfull, Nat.div_add_mod]
  have habsorb := S.foldl_push_eq_absorb (s := s) hdvd
  rw [List.foldl_append] at habsorb
  exact congrArg Prod.fst (habsorb.symm.trans hlast)

end Absorbing

section Reading

variable {s : σ}

theorem pullMany_add (k n : ℕ) (c : σ × ℕ) :
    S.pullMany (k + n) c = ((S.pullMany k c).1 ++ (S.pullMany n (S.pullMany k c).2).1,
      (S.pullMany n (S.pullMany k c).2).2) := by
  induction k generalizing c with
  | zero => rw [Nat.zero_add]; rfl
  | succ k ih =>
      rw [Nat.add_right_comm, pullMany, ih]
      rfl

theorem ready_pullMany (s : σ) (n : ℕ) :
    S.ready (S.pullMany n (s, 0)).2 = (S.perm^[n / S.rate] s, n % S.rate) := by
  have hrate := S.rate_pos
  induction n with
  | zero =>
      rw [Nat.zero_div, Nat.zero_mod, pullMany, ready, if_neg (show ¬0 = S.rate by omega)]
      rfl
  | succ n ih =>
      have hlt := Nat.mod_lt n S.rate_pos
      have hdiv := Nat.div_add_mod n S.rate
      have hstate : (S.pullMany (n + 1) (s, 0)).2 = (S.perm^[n / S.rate] s, n % S.rate + 1) := by
        rw [pullMany_add]
        show (S.pull (S.pullMany n (s, 0)).2).2 = _
        rw [pull, ih]
      rw [hstate, ready]
      split
      · next hfull =>
          have hfull : n % S.rate + 1 = S.rate := hfull
          obtain ⟨hquot, hrem⟩ := (Nat.div_mod_unique hrate).mpr
            ⟨show 0 + S.rate * (n / S.rate + 1) = n + 1 by rw [Nat.mul_succ]; omega, hrate⟩
          rw [hquot, hrem, Function.iterate_succ_apply']
      · next hfull =>
          have hfull : ¬n % S.rate + 1 = S.rate := hfull
          obtain ⟨hquot, hrem⟩ := (Nat.div_mod_unique hrate).mpr
            ⟨show n % S.rate + 1 + S.rate * (n / S.rate) = n + 1 by omega, by omega⟩
          rw [hquot, hrem]

theorem pullMany_eq (s : σ) (n : ℕ) :
    (S.pullMany n (s, 0)).1 = (List.range n).map (S.output s) := by
  induction n with
  | zero => rfl
  | succ n ih =>
      have hnext : (S.pullMany 1 (S.pullMany n (s, 0)).2).1 = [S.output s n] := by
        show [(S.pull (S.pullMany n (s, 0)).2).1] = _
        rw [pull, ready_pullMany]
        rfl
      rw [pullMany_add, ih, List.range_succ, List.map_append, hnext]
      rfl

/-- Reading starts with the permutation when the block is full. -/
theorem pullMany_of_full {n : ℕ} (hn : 0 < n) (s : σ) :
    S.pullMany n (s, S.rate) = S.pullMany n (S.perm s, 0) := by
  obtain ⟨n, rfl⟩ : ∃ k, n = k + 1 := ⟨n - 1, by omega⟩
  have hrate := S.rate_pos
  have hready : S.ready (s, S.rate) = S.ready (S.perm s, 0) := by
    rw [ready, ready, if_pos rfl, if_neg (show ¬0 = S.rate by omega)]
  simp only [pullMany, pull, hready]

end Reading

section Refining

variable {τ γ : Type*} {S} {T : Sponge τ γ} {f : σ → τ} {g : β → List γ} {c : ℕ}

/-- `S` handles `c` elements of `T` at a time. -/
structure Refines (S : Sponge σ β) (T : Sponge τ γ) (f : σ → τ) (g : β → List γ) (c : ℕ) :
    Prop where
  pos : 0 < c
  rate : T.rate = c * S.rate
  length : ∀ b, (g b).length = c
  perm : ∀ s, f (S.perm s) = T.perm (f s)
  add : ∀ s p b, p < S.rate → f (S.add s p b) = T.addList (f s) (c * p) (g b)
  read : ∀ s p, p < S.rate →
    g (S.read s p) = (List.range c).map fun i => T.read (f s) (c * p + i)

namespace Refines

theorem length_flatMap (h : Refines S T f g c) (l : List β) :
    (l.flatMap g).length = c * l.length := by
  induction l with
  | nil => rfl
  | cons b l ih =>
      rw [List.flatMap_cons, List.length_append, ih, h.length, List.length_cons, Nat.mul_succ,
        Nat.add_comm]

theorem addList (h : Refines S T f g c) {l : List β} {s : σ} {p : ℕ}
    (hle : p + l.length ≤ S.rate) :
    f (S.addList s p l) = T.addList (f s) (c * p) (l.flatMap g) := by
  induction l generalizing s p with
  | nil => rfl
  | cons b l ih =>
      rw [List.length_cons] at hle
      rw [Sponge.addList, ih (by omega), h.add s p b (by omega), List.flatMap_cons,
        T.addList_append, h.length, Nat.mul_succ]

theorem take_drop (h : Refines S T f g c) (l : List β) :
    (l.flatMap g).take T.rate = (l.take S.rate).flatMap g ∧
      (l.flatMap g).drop T.rate = (l.drop S.rate).flatMap g := by
  have hsplit : l.flatMap g = (l.take S.rate).flatMap g ++ (l.drop S.rate).flatMap g := by
    rw [← List.flatMap_append, List.take_append_drop]
  by_cases hle : S.rate ≤ l.length
  · have hlen : ((l.take S.rate).flatMap g).length = T.rate := by
      rw [h.length_flatMap, List.length_take, Nat.min_eq_left hle, h.rate]
    rw [hsplit]
    exact ⟨List.take_left' hlen, List.drop_left' hlen⟩
  · have hshort : (l.flatMap g).length ≤ T.rate := by
      rw [h.length_flatMap, h.rate]
      exact Nat.mul_le_mul_left c (by omega)
    rw [List.take_of_length_le hshort, List.drop_eq_nil_of_le hshort,
      List.take_of_length_le (by omega), List.drop_eq_nil_of_le (by omega)]
    exact ⟨rfl, rfl⟩

theorem absorb (h : Refines S T f g c) (l : List β) (s : σ) :
    f (S.absorb s l) = T.absorb (f s) (l.flatMap g) := by
  induction hlen : l.length using Nat.strong_induction_on generalizing s l with
  | _ n ih =>
      rcases eq_or_ne l [] with rfl | hne
      · rw [Sponge.absorb, if_pos rfl, Sponge.absorb, if_pos List.flatMap_nil]
      · have hpos := List.length_pos_iff.mpr hne
        have hrate := S.rate_pos
        have hflat : l.flatMap g ≠ [] := by
          rw [← List.length_pos_iff, h.length_flatMap]
          exact Nat.mul_pos h.pos hpos
        obtain ⟨htake, hdrop⟩ := h.take_drop l
        have hblock : f (S.addList s 0 (l.take S.rate)) =
            T.addList (f s) 0 ((l.take S.rate).flatMap g) :=
          h.addList (by rw [Nat.zero_add]; exact List.length_take_le _ _)
        have hshorter : (l.drop S.rate).length < n := by
          rw [List.length_drop]
          omega
        rw [S.absorb_of_ne_nil hne, T.absorb_of_ne_nil hflat, htake, hdrop, ← hblock, ← h.perm]
        exact ih _ hshorter _ _ rfl

theorem iterate_perm (h : Refines S T f g c) (n : ℕ) (s : σ) :
    f (S.perm^[n] s) = T.perm^[n] (f s) :=
  (Function.Semiconj.iterate_right h.perm n) s

theorem outputs (h : Refines S T f g c) (n : ℕ) (s : σ) :
    ((List.range n).map (S.output s)).flatMap g = (List.range (c * n)).map (T.output (f s)) := by
  induction n with
  | zero => rfl
  | succ n ih =>
      have hlast : g (S.output s n) = (List.range c).map fun i => T.output (f s) (c * n + i) := by
        rw [output, h.read _ _ (Nat.mod_lt n S.rate_pos), h.iterate_perm]
        refine List.map_congr_left fun i hi => ?_
        have hlt := List.mem_range.mp hi
        have hdiv : (c * n + i) / T.rate = n / S.rate := by
          rw [h.rate, ← Nat.div_div_eq_div_mul, Nat.mul_add_div h.pos, Nat.div_eq_of_lt hlt,
            Nat.add_zero]
        have hmod : (c * n + i) % T.rate = c * (n % S.rate) + i := by
          rw [h.rate, Nat.mod_mul, Nat.mul_add_mod, Nat.mod_eq_of_lt hlt, Nat.mul_add_div h.pos,
            Nat.div_eq_of_lt hlt, Nat.add_zero, Nat.add_comm]
        rw [output, hdiv, hmod]
      rw [List.range_succ, List.map_append, List.flatMap_append, ih, Nat.mul_succ,
        List.range_add, List.map_append, List.map_map]
      simp only [List.map_cons, List.map_nil, List.flatMap_cons, List.flatMap_nil,
        List.append_nil, hlast]
      rfl

end Refines

end Refining

end Sponge

end Soko.Library
