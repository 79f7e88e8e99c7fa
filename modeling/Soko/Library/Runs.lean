import Mathlib.Data.List.Induction
import Mathlib.Order.Basic

/-!
Runs of a labelled transition function.

A system is a partial step function `step : α → σ → Option σ`: an action is
either disabled in a state or leads to exactly one successor, so every choice
the environment has (who moves next, which outcome a call has) is part of the
action. `Reaches step ok s t` is the run relation. The guard `ok` restricts the
actions a run may take in a state, which is how a result about the runs whose
steps all meet a condition is stated; `anyAction` is the guard of all runs.
-/

namespace Soko.Library

variable {α σ : Type*}

/-- The guard that admits every action in every state. -/
def anyAction (_ : α) (_ : σ) : Prop := True

/-- `t` is reached from `s` by steps whose actions all meet `ok` in the state
they are taken in. -/
inductive Reaches (step : α → σ → Option σ) (ok : α → σ → Prop) (s : σ) : σ → Prop
  | refl : Reaches step ok s s
  | tail {t u : σ} {a : α} : Reaches step ok s t → ok a t → step a t = some u →
      Reaches step ok s u

/-- The induction rule of run proofs: a property of the first state that every
admitted step preserves holds in every state of the run. -/
theorem Reaches.invariant {step : α → σ → Option σ} {ok : α → σ → Prop} {s t : σ}
    (h : Reaches step ok s t) (I : σ → Prop) (h0 : I s)
    (hstep : ∀ a u v, I u → ok a u → step a u = some v → I v) : I t := by
  induction h with
  | refl => exact h0
  | tail _ hok hs ih => exact hstep _ _ _ ih hok hs

theorem Reaches.trans {step : α → σ → Option σ} {ok : α → σ → Prop} {s t u : σ}
    (h : Reaches step ok s t) (h' : Reaches step ok t u) : Reaches step ok s u := by
  induction h' with
  | refl => exact h
  | tail _ hok hs ih => exact ih.tail hok hs

theorem Reaches.mono {step : α → σ → Option σ} {ok ok' : α → σ → Prop} {s t : σ}
    (h : Reaches step ok s t) (hok : ∀ a u, ok a u → ok' a u) : Reaches step ok' s t := by
  induction h with
  | refl => exact .refl
  | tail _ hadmitted hs ih => exact ih.tail (hok _ _ hadmitted) hs

instance (a : α) (s : σ) : Decidable (anyAction a s) := isTrue trivial

/-- Execute a list of actions from left to right, as far as the guard admits
them. -/
def execute (step : α → σ → Option σ) (ok : α → σ → Prop) [∀ a s, Decidable (ok a s)] :
    List α → σ → Option σ
  | [], s => some s
  | a :: as, s => if ok a s then (step a s).bind (execute step ok as) else none

theorem reaches_of_execute {step : α → σ → Option σ} {ok : α → σ → Prop}
    [∀ a s, Decidable (ok a s)] {as : List α} {s t : σ} (h : execute step ok as s = some t) :
    Reaches step ok s t := by
  induction as generalizing s with
  | nil =>
      simp only [execute, Option.some.injEq] at h
      subst t
      exact .refl
  | cons a as ih =>
      simp only [execute, Option.ite_none_right_eq_some, Option.bind_eq_some_iff] at h
      obtain ⟨hok, u, hu, h⟩ := h
      exact (Reaches.refl.tail hok hu).trans (ih h)

/-! A step function that is total. -/

section Steps

variable {next : σ → α → σ} {p q : α → σ → Prop}

/-- Every action of a list meets `p` in the state it is taken in. -/
def EachStep (next : σ → α → σ) (p : α → σ → Prop) (as : List α) (s : σ) : Prop :=
  ∀ before a, before ++ [a] <+: as → p a (before.foldl next s)

@[simp] theorem eachStep_nil {s : σ} : EachStep next p [] s := by
  intro before a hinit
  exact absurd (List.prefix_nil.mp hinit) (by simp)

@[simp] theorem eachStep_append_singleton {as : List α} {a : α} {s : σ} :
    EachStep next p (as ++ [a]) s ↔ EachStep next p as s ∧ p a (as.foldl next s) := by
  constructor
  · exact fun h => ⟨fun before b hinit => h before b (hinit.trans (List.prefix_append as [a])),
      h as a (List.prefix_refl _)⟩
  · rintro ⟨hbefore, hlast⟩ before b hinit
    rcases List.prefix_concat_iff.mp hinit with hsame | hinit
    · obtain ⟨rfl, hlast'⟩ := List.append_inj' hsame rfl
      obtain rfl := List.singleton_inj.mp hlast'
      exact hlast
    · exact hbefore before b hinit

/-- Two properties of the actions that agree in the states that meet an invariant agree along
every run in which `ok` holds, if the first of them preserves the invariant. -/
theorem eachStep_iff_of_invariant {ok : α → σ → Prop} (I : σ → Prop)
    (hiff : ∀ a s, I s → ok a s → (p a s ↔ q a s)) (hnext : ∀ a s, I s → p a s → I (next s a))
    {s : σ} (h0 : I s) {as : List α} (hok : EachStep next ok as s) :
    EachStep next p as s ↔ EachStep next q as s := by
  have hboth : (EachStep next p as s ↔ EachStep next q as s) ∧
      (EachStep next p as s → I (as.foldl next s)) := by
    induction as using List.reverseRecOn with
    | nil => exact ⟨iff_of_true eachStep_nil eachStep_nil, fun _ => h0⟩
    | append_singleton as a ih =>
        rw [eachStep_append_singleton] at hok
        obtain ⟨hsame, hinvariant⟩ := ih hok.1
        rw [eachStep_append_singleton, eachStep_append_singleton, ← hsame, List.foldl_append]
        exact ⟨and_congr_right fun hp => hiff a _ (hinvariant hp) hok.2,
          fun hp => hnext a _ (hinvariant hp.1) hp.2⟩
  exact hboth.1

end Steps

/-! A component that answers calls. -/

section Calls

variable {κ ρ τ : Type*}

def runCalls (serve : κ → σ → ρ × σ) : List κ → σ → List ρ × σ
  | [], s => ([], s)
  | c :: cs, s =>
      let (reply, s) := serve c s
      let (replies, s) := runCalls serve cs s
      (reply :: replies, s)

/-- The refinement rule: if related states reply alike to every call and stay related, they
reply alike to every list of calls. -/
theorem runCalls_refines {serve : κ → σ → ρ × σ} {spec : κ → τ → ρ × τ} {R : σ → τ → Prop}
    (hserve : ∀ c s t, R s t → (serve c s).1 = (spec c t).1 ∧ R (serve c s).2 (spec c t).2)
    (cs : List κ) {s : σ} {t : τ} (h : R s t) :
    (runCalls serve cs s).1 = (runCalls spec cs t).1 ∧
      R (runCalls serve cs s).2 (runCalls spec cs t).2 := by
  induction cs generalizing s t with
  | nil => exact ⟨rfl, h⟩
  | cons c cs ih =>
      obtain ⟨hreply, hnext⟩ := hserve c s t h
      obtain ⟨hreplies, hlast⟩ := ih hnext
      exact ⟨congrArg₂ List.cons hreply hreplies, hlast⟩

end Calls

end Soko.Library
