import Mathlib.Order.WellFounded
import Mathlib.Order.Nat
import Mathlib.Data.Nat.Find
import Soko.Library.Runs

/-!
Progress of the infinite runs of a labelled transition function.

A `Behaviour` is an infinite sequence of states in which every step is a step of
the system or leaves the state as it is, so that a run that has come to its end
is one of them. Some actions are progress of a party, the others of nobody
(an environment that may act or not). A behaviour is weakly fair when a party
whose progress stays possible makes progress at some time.

The rule for termination needs a rank and, in every state, one party that
helps: no step increases the rank, and the progress of the helpful party, or a
change of who it is, decreases it. All other parties may move as often as they
like.
-/

namespace Soko.Library

variable {α σ π ρ : Type*}

/-- An infinite run; `none` is a step in which nothing happens. -/
structure Behaviour (step : α → σ → Option σ) where
  state : ℕ → σ
  action : ℕ → Option α
  next : ∀ n, (action n = none ∧ state (n + 1) = state n) ∨
    ∃ a, action n = some a ∧ step a (state n) = some (state (n + 1))

namespace Behaviour

variable {step : α → σ → Option σ} (b : Behaviour step)

/-- Every party whose progress is possible from some time on makes progress after it. -/
def WeakFair (owner : α → Option π) : Prop :=
  ∀ p i, (∀ j, i ≤ j → ∃ a, owner a = some p ∧ (step a (b.state j)).isSome) →
    ∃ j, i ≤ j ∧ ∃ a, b.action j = some a ∧ owner a = some p

/-- The states of a behaviour are reached from its first one. -/
theorem reaches (n : ℕ) : Reaches step anyAction (b.state 0) (b.state n) := by
  induction n with
  | zero => exact .refl
  | succ n ih =>
      obtain ⟨-, hsame⟩ | ⟨a, -, hs⟩ := b.next n
      · rw [hsame]
        exact ih
      · exact ih.tail trivial hs

section Rank

variable [Preorder ρ] {b} {owner : α → Option π} (I inside : σ → Prop) (rank : σ → ρ)
  (helpful : σ → π)

/-- As long as the rank does not fall, the same party stays helpful and does not move. -/
theorem sameRank_of_not_lt (hI : ∀ n, I (b.state n))
    (hrank : ∀ a s t, I s → inside s → inside t → step a s = some t →
      rank t < rank s ∨ rank t = rank s ∧ helpful t = helpful s ∧ owner a ≠ some (helpful s))
    {i : ℕ} (hinside : ∀ j, i ≤ j → inside (b.state j))
    (hlt : ∀ j, i ≤ j → ¬ rank (b.state j) < rank (b.state i)) (k : ℕ) :
    rank (b.state (i + k)) = rank (b.state i) ∧
      helpful (b.state (i + k)) = helpful (b.state i) := by
  induction k with
  | zero => exact ⟨rfl, rfl⟩
  | succ k ih =>
      obtain ⟨-, hsame⟩ | ⟨a, -, hs⟩ := b.next (i + k)
      · rw [← Nat.add_assoc, hsame]
        exact ih
      · obtain hless | ⟨heq, hparty, -⟩ :=
          hrank a _ _ (hI _) (hinside _ (Nat.le_add_right i k)) (hinside _ (by omega)) hs
        · rw [ih.1] at hless
          exact absurd hless (hlt _ (by omega))
        · exact ⟨heq.trans ih.1, hparty.trans ih.2⟩

/-- The termination rule: with a rank as described above and a helpful party that is never
blocked, a weakly fair behaviour is outside again and again. -/
theorem leaves_of_rank [WellFoundedLT ρ] (hfair : b.WeakFair owner) (hI : ∀ n, I (b.state n))
    (hrank : ∀ a s t, I s → inside s → inside t → step a s = some t →
      rank t < rank s ∨ rank t = rank s ∧ helpful t = helpful s ∧ owner a ≠ some (helpful s))
    (henabled : ∀ s, I s → inside s → ∃ a, owner a = some (helpful s) ∧ (step a s).isSome)
    (i : ℕ) : ∃ j, i ≤ j ∧ ¬ inside (b.state j) := by
  induction hr : rank (b.state i) using WellFoundedLT.induction generalizing i with
  | ind r ih =>
      by_contra! hinside
      have hlt : ∀ j, i ≤ j → ¬ rank (b.state j) < rank (b.state i) := by
        intro j hj hless
        obtain ⟨k, hk, hout⟩ := ih _ (hr ▸ hless) j rfl
        exact hout (hinside k (hj.trans hk))
      have hsame := sameRank_of_not_lt I inside rank helpful hI hrank hinside hlt
      -- the party that helps now is enabled for ever and hence moves, with which the rank falls
      obtain ⟨j, hj, a, haction, howner⟩ := hfair (helpful (b.state i)) i fun j hj => by
        obtain ⟨k, rfl⟩ := Nat.exists_eq_add_of_le hj
        rw [← (hsame k).2]
        exact henabled _ (hI _) (hinside _ hj)
      obtain ⟨k, rfl⟩ := Nat.exists_eq_add_of_le hj
      obtain ⟨hnone, -⟩ | ⟨a', haction', hs⟩ := b.next (i + k)
      · rw [hnone] at haction
        contradiction
      obtain rfl : a' = a := Option.some.inj (haction'.symm.trans haction)
      obtain hless | ⟨-, -, hne⟩ :=
        hrank a' _ _ (hI _) (hinside _ hj) (hinside _ (by omega)) hs
      · rw [(hsame k).1] at hless
        exact hlt (i + k + 1) (by omega) hless
      · rw [(hsame k).2] at hne
        exact hne howner

end Rank

/-- Between a time inside and a later one outside is a step that leads out. -/
theorem exists_step_outside (inside : σ → Prop) {i j : ℕ} (hij : i ≤ j)
    (hin : inside (b.state i)) (hout : ¬ inside (b.state j)) :
    ∃ k a, i ≤ k ∧ (∀ l, i ≤ l → l ≤ k → inside (b.state l)) ∧
      ¬ inside (b.state (k + 1)) ∧ step a (b.state k) = some (b.state (k + 1)) := by
  classical
  have hex : ∃ d, ¬ inside (b.state (i + d)) := ⟨j - i, by rwa [Nat.add_sub_cancel' hij]⟩
  have hfind := Nat.find_spec hex
  obtain ⟨k, hk⟩ : ∃ k, Nat.find hex = k + 1 := by
    refine Nat.exists_eq_succ_of_ne_zero fun hzero => ?_
    rw [hzero] at hfind
    exact hfind hin
  rw [hk] at hfind
  have hinside : ∀ l, i ≤ l → l ≤ i + k → inside (b.state l) := by
    intro l hil hlk
    obtain ⟨d, rfl⟩ := Nat.exists_eq_add_of_le hil
    exact not_not.mp (Nat.find_min hex (show d < Nat.find hex by omega))
  obtain ⟨-, hsame⟩ | ⟨a, -, hs⟩ := b.next (i + k)
  · refine absurd (hinside (i + k) (Nat.le_add_right i k) le_rfl) ?_
    rw [← hsame]
    exact hfind
  · exact ⟨i + k, a, Nat.le_add_right i k, hinside, hfind, hs⟩

section Finite

variable {ok : α → σ → Prop} [∀ a s, Decidable (ok a s)] {owner : α → Option π}

@[simp] theorem execute_append (as cs : List α) (s : σ) :
    execute step ok (as ++ cs) s = (execute step ok as s).bind (execute step ok cs) := by
  induction as generalizing s with
  | nil => rfl
  | cons a as ih =>
      simp only [List.cons_append, execute]
      split
      · simp only [Option.bind_assoc, ih]
      · rfl

/-- The states that the actions of a list lead through; after the last one nothing changes. -/
theorem execute_take_next {as : List α} {s t : σ} (h : execute step ok as s = some t) (n : ℕ) :
    (as[n]? = none ∧ execute step ok (as.take n) s = some t) ∨
      ∃ a u v, as[n]? = some a ∧ execute step ok (as.take n) s = some u ∧
        step a u = some v ∧ execute step ok (as.take (n + 1)) s = some v := by
  cases ha : as[n]? with
  | none =>
      rw [List.take_of_length_le (List.getElem?_eq_none_iff.mp ha)]
      exact .inl ⟨rfl, h⟩
  | some a =>
      have htake : as.take (n + 1) = as.take n ++ [a] := by
        rw [List.take_add_one, ha]
        rfl
      have hall := h
      rw [← List.take_append_drop (n + 1) as, execute_append, htake, execute_append,
        Option.bind_assoc, Option.bind_eq_some_iff] at hall
      obtain ⟨u, hu, hrest⟩ := hall
      simp only [execute, Option.bind_eq_some_iff, Option.ite_none_right_eq_some] at hrest
      obtain ⟨v, ⟨hok, w, hstep, hv⟩, -⟩ := hrest
      obtain rfl := Option.some.inj hv
      refine .inr ⟨a, u, w, rfl, hu, hstep, ?_⟩
      rw [htake, execute_append, hu]
      simp [execute, hok, hstep]

def ofExecute {as : List α} {s t : σ} (h : execute step ok as s = some t) : Behaviour step where
  state n := (execute step ok (as.take n) s).getD t
  action n := as[n]?
  next n := by
    obtain ⟨hnone, hlast⟩ | ⟨a, u, v, ha, hu, hs, hv⟩ := execute_take_next h n
    · have hsame : as.take (n + 1) = as.take n := by
        have hlen := List.getElem?_eq_none_iff.mp hnone
        rw [List.take_of_length_le hlen, List.take_of_length_le (Nat.le_succ_of_le hlen)]
      rw [hsame]
      exact .inl ⟨hnone, rfl⟩
    · rw [hu, hv]
      exact .inr ⟨a, ha, hs⟩

/-- A finite run after which no party can make progress is weakly fair. -/
theorem weakFair_ofExecute {as : List α} {s t : σ} (h : execute step ok as s = some t)
    (hend : ∀ a p, owner a = some p → step a t = none) : (ofExecute h).WeakFair owner := by
  intro p i henabled
  obtain ⟨a, howner, hstep⟩ := henabled (i + as.length) (Nat.le_add_right i _)
  have hlast : (ofExecute h).state (i + as.length) = t := by
    simp only [ofExecute]
    rw [List.take_of_length_le (Nat.le_add_left _ _), h]
    rfl
  rw [hlast, hend a p howner] at hstep
  contradiction

end Finite

end Behaviour

end Soko.Library
