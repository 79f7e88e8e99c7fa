import Mathlib.Data.List.Induction
import Mathlib.Logic.Function.Basic

/-!
Loops that count, sequential and parallel.

A parallel loop spreads its iterations over threads. Each thread starts from the shared
state, runs through its share, and merges its local counters into the shared ones. What
is counted does not depend on the shares (`parallelLoop_counter`), and neither does what
the iterations write, each to its own cell (`parallelLoop_cells`).
-/

namespace Soko.Library

variable {α β σ τ : Type*}

/-- The shares of the threads in the iterations `0` to `n - 1`, in the order in which the
threads merge their counters. -/
structure ThreadPartition (n : ℕ) where
  shares : List (List ℕ)
  perm : shares.flatten.Perm (List.range n)

def ThreadPartition.single (n : ℕ) : ThreadPartition n := ⟨[List.range n], by simp⟩

/-- `#pragma omp parallel` around `#pragma omp for`: `start` gives a thread its local
state, `step` is an iteration, `merge` is what the thread does at its end. -/
def parallelLoop (start : σ → τ) (step : τ → α → τ) (merge : σ → τ → σ)
    (shares : List (List α)) (s : σ) : σ :=
  shares.foldl (fun s share => merge s (share.foldl step (start s))) s

section Counters

variable {p : α → Bool}

/-- A counter that every iteration with `p` raises by one. -/
theorem foldl_counter {step : τ → α → τ} (count : τ → ℕ)
    (hstep : ∀ t a, count (step t a) = count t + if p a then 1 else 0) (items : List α) (t : τ) :
    count (items.foldl step t) = count t + items.countP p := by
  induction items generalizing t with
  | nil => rfl
  | cons a items ih =>
      rw [List.foldl_cons, ih, hstep, List.countP_cons]
      omega

theorem foldlM_counter {step : τ → α → Option τ} (count : τ → ℕ)
    (hstep : ∀ t a t', step t a = some t' → count t' = count t + if p a then 1 else 0)
    {items : List α} {t t' : τ} (h : items.foldlM step t = some t') :
    count t' = count t + items.countP p := by
  induction items generalizing t with
  | nil =>
      obtain rfl := Option.some.inj h
      rfl
  | cons a items ih =>
      rw [List.foldlM_cons, Option.bind_eq_bind, Option.bind_eq_some_iff] at h
      obtain ⟨next, hnext, hrest⟩ := h
      rw [ih hrest, hstep t a next hnext, List.countP_cons]
      omega

theorem foldlM_eq_foldl {stepM : τ → α → Option τ} {step : τ → α → τ}
    (hstep : ∀ t a t', stepM t a = some t' → t' = step t a) {items : List α} {t t' : τ}
    (h : items.foldlM stepM t = some t') : t' = items.foldl step t := by
  induction items generalizing t with
  | nil => exact (Option.some.inj h).symm
  | cons a items ih =>
      rw [List.foldlM_cons, Option.bind_eq_bind, Option.bind_eq_some_iff] at h
      obtain ⟨next, hnext, hrest⟩ := h
      rw [List.foldl_cons, ← hstep t a next hnext]
      exact ih hrest

theorem parallelLoop_counter {start : σ → τ} {step : τ → α → τ} {merge : σ → τ → σ}
    (count : σ → ℕ) (countLocal : τ → ℕ) (hstart : ∀ s, countLocal (start s) = 0)
    (hstep : ∀ t a, countLocal (step t a) = countLocal t + if p a then 1 else 0)
    (hmerge : ∀ s t, count (merge s t) = count s + countLocal t) (shares : List (List α)) (s : σ) :
    count (parallelLoop start step merge shares s) = count s + shares.flatten.countP p := by
  induction shares generalizing s with
  | nil => rfl
  | cons share shares ih =>
      have hthread := foldl_counter countLocal hstep share (start s)
      rw [hstart, Nat.zero_add] at hthread
      rw [List.flatten_cons, List.countP_append, ← Nat.add_assoc, ← hthread, ← hmerge]
      exact ih _

theorem countP_add_countP_not (p : α → Bool) (items : List α) :
    items.countP p + items.countP (fun a => !p a) = items.length := by
  rw [List.length_eq_countP_add_countP p]
  congr 2
  ext a
  cases p a <;> rfl

theorem countP_range_length {q : ℕ → Bool} (items : List α)
    (hq : ∀ i (h : i < items.length), q i = p items[i]) :
    (List.range items.length).countP q = items.countP p := by
  induction items using List.reverseRecOn with
  | nil => rfl
  | append_singleton items a ih =>
      have hlast : q items.length = p a := by
        rw [hq items.length (by simp)]
        simp
      have hinit := ih fun i h => by
        rw [hq i (by simp; omega), List.getElem_append_left h]
      rw [List.length_append, List.length_singleton, List.range_succ, List.countP_append,
        List.countP_append, hinit, List.countP_singleton, List.countP_singleton, hlast]

end Counters

section Cells

variable [DecidableEq α] {value : α → β}

theorem foldl_cells {step : τ → α → τ} (cells : τ → α → β)
    (hstep : ∀ t a, cells (step t a) = Function.update (cells t) a (value a)) (items : List α)
    (t : τ) (a : α) :
    cells (items.foldl step t) a = if a ∈ items then value a else cells t a := by
  induction items generalizing t with
  | nil => simp
  | cons b items ih =>
      rw [List.foldl_cons, ih, hstep]
      by_cases hmem : a ∈ items
      · -- a later iteration writes the same value again
        simp [hmem]
      · by_cases hsame : a = b
        · subst b
          simp [hmem]
        · simp [hmem, hsame]

theorem parallelLoop_cells {start : σ → τ} {step : τ → α → τ} {merge : σ → τ → σ}
    (cells : σ → α → β) (cellsLocal : τ → α → β) (hstart : ∀ s, cellsLocal (start s) = cells s)
    (hstep : ∀ t a, cellsLocal (step t a) = Function.update (cellsLocal t) a (value a))
    (hmerge : ∀ s t, cells (merge s t) = cellsLocal t) (shares : List (List α)) (s : σ) (a : α) :
    cells (parallelLoop start step merge shares s) a =
      if a ∈ shares.flatten then value a else cells s a := by
  induction shares generalizing s with
  | nil => simp [parallelLoop]
  | cons share shares ih =>
      have hthread : cells (merge s (share.foldl step (start s))) a =
          if a ∈ share then value a else cells s a := by
        rw [hmerge, foldl_cells cellsLocal hstep, hstart]
      refine (ih _).trans ?_
      simp only [List.flatten_cons, List.mem_append]
      by_cases hrest : a ∈ shares.flatten
      · rw [if_pos hrest, if_pos (.inr hrest)]
      · rw [if_neg hrest, hthread]
        simp only [hrest, or_false]

end Cells

end Soko.Library
