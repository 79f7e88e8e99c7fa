import Mathlib.Order.Basic

/-!
Loops with a bound on their iterations.

`whileLoop cond body fuel` executes `while (cond) body` for at most `fuel`
iterations; `none` says that the loop is still running then, or that an
execution of its body has not returned. The rules are those of a while loop: an
invariant holds at the exit (`whileLoop_invariant`), an invariant with a variant
gives an exit and bounds the iterations (`whileLoop_of_variant`), and a loop that
returns does so with more fuel too (`whileLoop_mono`). `rewriteLoop` is a `for` loop
over the entries of an array that may return early.
-/

namespace Soko.Library

variable {σ τ : Type*}

/-- `while (cond) body`, for at most `fuel` iterations. -/
def whileLoop (cond : σ → Bool) (body : σ → Option σ) : ℕ → σ → Option σ
  | 0, s => if cond s then none else some s
  | fuel + 1, s => if cond s then (body s).bind (whileLoop cond body fuel) else some s

section Rules

variable {cond : σ → Bool} {body body' : σ → Option σ} {fuel fuel' : ℕ} {s t : σ}

theorem whileLoop_of_false (hcond : cond s = false) : whileLoop cond body fuel s = some s := by
  cases fuel <;> simp [whileLoop, hcond]

theorem whileLoop_of_true (hcond : cond s = true) :
    whileLoop cond body (fuel + 1) s = (body s).bind (whileLoop cond body fuel) := by
  simp [whileLoop, hcond]

/-- What holds before the loop and is kept by its body holds after the loop, and
the condition fails there. -/
theorem whileLoop_invariant (I : σ → Prop) (hI : I s)
    (hstep : ∀ s t, I s → cond s = true → body s = some t → I t)
    (hloop : whileLoop cond body fuel s = some t) : I t ∧ cond t = false := by
  induction fuel generalizing s with
  | zero =>
      cases hcond : cond s with
      | true => simp [whileLoop, hcond] at hloop
      | false =>
          rw [whileLoop_of_false hcond, Option.some.injEq] at hloop
          exact hloop ▸ ⟨hI, hcond⟩
  | succ fuel ih =>
      cases hcond : cond s with
      | true =>
          rw [whileLoop_of_true hcond, Option.bind_eq_some_iff] at hloop
          obtain ⟨u, hbody, hloop⟩ := hloop
          exact ih (hstep s u hI hcond hbody) hloop
      | false =>
          rw [whileLoop_of_false hcond, Option.some.injEq] at hloop
          exact hloop ▸ ⟨hI, hcond⟩

/-- A loop whose body returns and lowers a variant ends, after at most as many
iterations as the variant says. -/
theorem whileLoop_of_variant (I : σ → Prop) (V : σ → ℕ)
    (hstep : ∀ s, I s → cond s = true → ∃ t, body s = some t ∧ I t ∧ V t < V s)
    (hI : I s) (hfuel : V s ≤ fuel) :
    ∃ t, whileLoop cond body fuel s = some t ∧ I t ∧ cond t = false := by
  induction fuel generalizing s with
  | zero =>
      cases hcond : cond s with
      | true =>
          obtain ⟨t, -, -, hlt⟩ := hstep s hI hcond
          omega
      | false => exact ⟨s, whileLoop_of_false hcond, hI, hcond⟩
  | succ fuel ih =>
      cases hcond : cond s with
      | true =>
          obtain ⟨u, hbody, hIu, hlt⟩ := hstep s hI hcond
          obtain ⟨t, hloop, hIt, hexit⟩ := ih hIu (by omega)
          refine ⟨t, ?_, hIt, hexit⟩
          rw [whileLoop_of_true hcond, hbody, Option.bind_some, hloop]
      | false => exact ⟨s, whileLoop_of_false hcond, hI, hcond⟩

/-- More fuel does not change the outcome, in the loop or in its body. -/
theorem whileLoop_mono (hbody : ∀ s t, body s = some t → body' s = some t)
    (hle : fuel ≤ fuel') (hloop : whileLoop cond body fuel s = some t) :
    whileLoop cond body' fuel' s = some t := by
  induction fuel generalizing fuel' s with
  | zero =>
      cases hcond : cond s with
      | true => simp [whileLoop, hcond] at hloop
      | false =>
          rw [whileLoop_of_false hcond] at hloop ⊢
          exact hloop
  | succ fuel ih =>
      obtain ⟨more, rfl⟩ : ∃ more, fuel' = more + 1 := ⟨fuel' - 1, by omega⟩
      cases hcond : cond s with
      | true =>
          rw [whileLoop_of_true hcond, Option.bind_eq_some_iff] at hloop
          obtain ⟨u, hu, hloop⟩ := hloop
          rw [whileLoop_of_true hcond, hbody s u hu, Option.bind_some]
          exact ih (by omega) hloop
      | false =>
          rw [whileLoop_of_false hcond] at hloop ⊢
          exact hloop

end Rules

/-- A loop that rewrites the entries in `order` one by one and is left early, with `none`,
at an entry for which there is no new value. -/
def rewriteLoop (f : ℕ → τ → Option τ) (order : List ℕ) (a : ℕ → τ) : Option (ℕ → τ) :=
  order.foldlM (fun a u => (f u (a u)).map (Function.update a u)) a

section Rewriting

variable {f : ℕ → τ → Option τ} {order : List ℕ} {a b : ℕ → τ}

@[simp] theorem rewriteLoop_cons (u : ℕ) :
    rewriteLoop f (u :: order) a =
      ((f u (a u)).map (Function.update a u)).bind (rewriteLoop f order) := rfl

/-- The loop is left early if there is an entry without a new value. -/
theorem rewriteLoop_eq_none_iff (hnodup : order.Nodup) :
    rewriteLoop f order a = none ↔ ∃ u ∈ order, f u (a u) = none := by
  induction order generalizing a with
  | nil => simp [rewriteLoop]
  | cons u order ih =>
      obtain ⟨hu, hnodup⟩ := List.nodup_cons.mp hnodup
      rw [rewriteLoop_cons]
      cases hf : f u (a u) with
      | none => simp [hf]
      | some x =>
          have hkeep : ∀ v ∈ order, Function.update a u x v = a v := fun v hv =>
            Function.update_of_ne (ne_of_mem_of_not_mem hv hu) x a
          rw [Option.map_some, Option.bind_some, ih hnodup]
          constructor
          · rintro ⟨v, hv, hnone⟩
            rw [hkeep v hv] at hnone
            exact ⟨v, List.mem_cons_of_mem u hv, hnone⟩
          · rintro ⟨v, hv, hnone⟩
            rcases List.mem_cons.mp hv with rfl | hv
            · rw [hf] at hnone
              cases hnone
            · exact ⟨v, hv, by rwa [hkeep v hv]⟩

theorem rewriteLoop_apply (hnodup : order.Nodup) (hloop : rewriteLoop f order a = some b) :
    (∀ u ∈ order, f u (a u) = some (b u)) ∧ ∀ u, u ∉ order → b u = a u := by
  induction order generalizing a with
  | nil =>
      obtain rfl : a = b := Option.some.inj hloop
      simp
  | cons u order ih =>
      obtain ⟨hu, hnodup⟩ := List.nodup_cons.mp hnodup
      rw [rewriteLoop_cons, Option.bind_eq_some_iff] at hloop
      obtain ⟨a', hstep, hloop⟩ := hloop
      obtain ⟨x, hx, rfl⟩ := Option.map_eq_some_iff.mp hstep
      obtain ⟨hin, hout⟩ := ih hnodup hloop
      constructor
      · intro v hv
        rcases List.mem_cons.mp hv with rfl | hv
        · rw [hx, hout v hu, Function.update_self]
        · rw [← hin v hv, Function.update_of_ne (ne_of_mem_of_not_mem hv hu)]
      · intro v hv
        rw [List.mem_cons, not_or] at hv
        rw [hout v hv.2, Function.update_of_ne hv.1]

end Rewriting

theorem isSome_foldlM {α β : Type*} {f : β → α → Option β} {l : List α}
    (hf : ∀ a ∈ l, ∀ b, (f b a).isSome) (b : β) : (l.foldlM f b).isSome := by
  induction l generalizing b with
  | nil => rfl
  | cons a l ih =>
      obtain ⟨b', hstep⟩ := Option.isSome_iff_exists.mp (hf a List.mem_cons_self b)
      rw [List.foldlM_cons, hstep]
      exact ih (fun a ha => hf a (List.mem_cons_of_mem _ ha)) b'

/-- A computation with fuel returns `a`: with some fuel it does, and with no fuel
anything else. -/
def Returns (f : ℕ → Option τ) (a : τ) : Prop :=
  (∃ fuel, f fuel = some a) ∧ ∀ fuel b, f fuel = some b → b = a

theorem Returns.of_mono {f : ℕ → Option τ} {a : τ} {fuel : ℕ}
    (hmono : ∀ {fuel fuel' b}, fuel ≤ fuel' → f fuel = some b → f fuel' = some b)
    (h : f fuel = some a) : Returns f a := by
  refine ⟨⟨fuel, h⟩, fun fuel' b hb => ?_⟩
  have hleft := hmono (Nat.le_max_left fuel fuel') h
  have hright := hmono (Nat.le_max_right fuel fuel') hb
  exact Option.some.inj (hright.symm.trans hleft)

end Soko.Library
