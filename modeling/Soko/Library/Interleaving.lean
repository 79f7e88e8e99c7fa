import Soko.Library.Phases

/-!
Parties that write to a common memory. A trace interleaves their writes in any way; the
parties do not read what they write to. If a part of the memory is only written by one
party, it ends up as if that party had been alone (`Interleaves.view_eq`).
-/

namespace Soko.Library

variable {ι ω μ ν : Type*} [DecidableEq ι]

def writesOf (i : ι) : List (ι × ω) → List ω
  | [] => []
  | (j, w) :: trace => if j = i then w :: writesOf i trace else writesOf i trace

/-- `trace` interleaves the writes of the parties. -/
def Interleaves (writes : ι → List ω) (trace : List (ι × ω)) : Prop :=
  ∀ i, writesOf i trace = writes i

@[simp] theorem mem_writesOf {i : ι} {w : ω} {trace : List (ι × ω)} :
    w ∈ writesOf i trace ↔ (i, w) ∈ trace := by
  induction trace with
  | nil => simp [writesOf]
  | cons entry trace ih =>
      obtain ⟨j, v⟩ := entry
      by_cases hj : j = i
      · simp [writesOf, hj, ih]
      · simp [writesOf, hj, ih, Ne.symm hj]

@[simp] theorem writesOf_append (i : ι) (trace trace' : List (ι × ω)) :
    writesOf i (trace ++ trace') = writesOf i trace ++ writesOf i trace' := by
  induction trace with
  | nil => rfl
  | cons entry trace ih =>
      rw [List.cons_append, writesOf, writesOf, ih]
      split <;> rfl

section View

variable {write : ω → μ → μ} {view : μ → ν}

theorem view_runTasks {i : ι} {trace : List (ι × ω)}
    (hown : ∀ w m m', view m = view m' → view (write w m) = view (write w m'))
    (hother : ∀ j ≠ i, ∀ w ∈ writesOf j trace, ∀ m, view (write w m) = view m) {m m' : μ}
    (hview : view m = view m') :
    view (runTasks write (trace.map Prod.snd) m) = view (runTasks write (writesOf i trace) m') := by
  induction trace generalizing m m' with
  | nil => exact hview
  | cons entry trace ih =>
      obtain ⟨j, w⟩ := entry
      have hrest : ∀ j ≠ i, ∀ w ∈ writesOf j trace, ∀ m, view (write w m) = view m := by
        intro k hk v hv
        exact hother k hk v (mem_writesOf.mpr (List.mem_cons_of_mem _ (mem_writesOf.mp hv)))
      rw [List.map_cons, runTasks_cons, writesOf]
      by_cases hj : j = i
      · rw [if_pos hj, runTasks_cons]
        exact ih hrest (hown w m m' hview)
      · rw [if_neg hj]
        apply ih hrest
        rw [hother j hj w (mem_writesOf.mpr List.mem_cons_self), hview]

theorem Interleaves.view_eq {writes : ι → List ω} {trace : List (ι × ω)}
    (h : Interleaves writes trace) (i : ι)
    (hown : ∀ w m m', view m = view m' → view (write w m) = view (write w m'))
    (hother : ∀ j ≠ i, ∀ w ∈ writes j, ∀ m, view (write w m) = view m) (m : μ) :
    view (runTasks write (trace.map Prod.snd) m) = view (runTasks write (writes i) m) := by
  rw [← h i]
  exact view_runTasks hown (fun j hj w hw => hother j hj w (h j ▸ hw)) rfl

end View

def inTurn (writes : ι → List ω) (order : List ι) : List (ι × ω) :=
  order.flatMap fun i => (writes i).map fun w => (i, w)

@[simp] theorem writesOf_map (i j : ι) (writes : List ω) :
    writesOf i (writes.map fun w => (j, w)) = if j = i then writes else [] := by
  induction writes with
  | nil => simp [writesOf]
  | cons w writes ih =>
      rw [List.map_cons, writesOf, ih]
      split <;> rfl

theorem writesOf_inTurn_of_not_mem {writes : ι → List ω} {i : ι} {order : List ι}
    (hi : i ∉ order) : writesOf i (inTurn writes order) = [] := by
  induction order with
  | nil => rfl
  | cons j order ih =>
      rw [List.mem_cons, not_or] at hi
      rw [inTurn, List.flatMap_cons, writesOf_append, writesOf_map, if_neg (Ne.symm hi.1)]
      exact ih hi.2

theorem writesOf_inTurn {writes : ι → List ω} {i : ι} {order : List ι} (hnodup : order.Nodup)
    (hi : i ∈ order) : writesOf i (inTurn writes order) = writes i := by
  induction order with
  | nil => contradiction
  | cons j order ih =>
      rw [List.nodup_cons] at hnodup
      rw [inTurn, List.flatMap_cons, writesOf_append, writesOf_map]
      by_cases hj : j = i
      · subst hj
        have hrest : writesOf j (inTurn writes order) = [] := writesOf_inTurn_of_not_mem hnodup.1
        rw [inTurn] at hrest
        rw [if_pos rfl, hrest, List.append_nil]
      · rw [if_neg hj, List.nil_append]
        exact ih hnodup.2 ((List.mem_cons.mp hi).resolve_left (Ne.symm hj))

theorem interleaves_inTurn {writes : ι → List ω} {order : List ι} (hnodup : order.Nodup)
    (hrest : ∀ i ∉ order, writes i = []) : Interleaves writes (inTurn writes order) := by
  intro i
  by_cases hi : i ∈ order
  · exact writesOf_inTurn hnodup hi
  · rw [writesOf_inTurn_of_not_mem hi, hrest i hi]

end Soko.Library
