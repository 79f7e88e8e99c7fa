import Mathlib
import Soko.Pipeline.Views

/-!
Consumer and threads do not race.

The atomic fields `in_flight`, `done` and `started` may be accessed by both sides
at any time. Everything else that both sides access is plain memory: the worker
fields that describe a refill, its result and the arrays of the banks. In no
reachable state does one side write a piece of it while the other side is at a
point from which it reads or writes the same piece. This is also what allows a
micro-step to take the plain accesses after an atomic one together with it.
-/

namespace Soko.Pipeline

open Soko.Library Handshake State

/-- The plain memory that both sides access. -/
inductive Location
  /-- `bank_id`, `tokens`, `logn`, `seed`, `h_coeffs` and `bank` of the worker. -/
  | call
  | result
  /-- `s1`, `s2` and `target` of a bank. -/
  | arrays (bankId : ℕ)
  deriving DecidableEq, Repr

/-- The plain accesses a party may make before it reaches its next point. -/
structure Accesses where
  reads : Set Location
  writes : Set Location

namespace Accesses

def none : Accesses := ⟨∅, ∅⟩

/-- Neither side writes what the other one reads or writes. -/
structure Apart (a b : Accesses) : Prop where
  left : Disjoint a.writes (b.reads ∪ b.writes)
  right : Disjoint b.writes (a.reads ∪ a.writes)

theorem Apart.symm {a b : Accesses} (h : Apart a b) : Apart b a := ⟨h.right, h.left⟩

@[simp] theorem apart_none (a : Accesses) : Apart a none := by
  constructor <;> simp [none]

end Accesses

namespace State

/-- The accesses of the consumer. Outside of all calls it reads the arrays of the view that was
handed out, and after `destroy` it has freed the worker and does with the banks what it likes. -/
def consumerAccesses (s : State) : Accesses :=
  match s.consumer with
  | .startStoreDone _ => ⟨∅, {.call, .result}⟩
  | .finishStoreDone _ => ⟨{.call, .result}, ∅⟩
  | .outside => ⟨{l | ∃ v, s.view = some v ∧ l = .arrays v.bankId}, ∅⟩
  | .destroyed => ⟨∅, Set.univ⟩
  | _ => .none

/-- The accesses of thread `id`. While it generates it works in the arrays of its bank; at the
end it writes the result. -/
def threadAccesses (s : State) (id : ℕ) : Accesses :=
  match s.threads id with
  | .entry => ⟨{.call}, ∅⟩
  | .generating call => ⟨{.arrays call.bankId}, {.arrays call.bankId, .result}⟩
  | _ => .none

/-- No two parties are about to make conflicting accesses. -/
structure RaceFree (s : State) : Prop where
  consumer : ∀ id, s.consumerAccesses.Apart (s.threadAccesses id)
  threads : ∀ id id', id ≠ id' → (s.threadAccesses id).Apart (s.threadAccesses id')

theorem threadAccesses_of_idle {s : State} {id : ℕ} (h : ¬ (s.threads id).Active) :
    s.threadAccesses id = .none := by
  unfold threadAccesses
  cases hpc : s.threads id <;> rw [hpc] at h <;> simp_all [ThreadPc.Active]

/-- While a thread is at work, the consumer accesses no plain memory but the arrays of its
view. -/
theorem consumerAccesses_of_active {s : State} (hproto : s.Protocol)
    (hactive : (s.threads s.created).Active) :
    s.consumerAccesses = .none ∨
      s.consumerAccesses = ⟨{l | ∃ v, s.view = some v ∧ l = .arrays v.bankId}, ∅⟩ := by
  have hphase := hproto.phase
  unfold consumerAccesses
  cases hpc : s.consumer <;> rw [hpc] at hphase
  case outside => exact .inr rfl
  case startStoreDone args => exact absurd hactive (hphase.elim Unlaunched.idle Finished.idle)
  case finishStoreDone call => exact absurd hactive hphase.idle
  case destroyed => exact absurd hactive hphase
  all_goals exact .inl rfl

end State

/-- The arrays of a view are not those of the bank that a refill is directed at. -/
theorem apart_view {s : State} (htarget : s.Target) (hviewed : s.Viewed)
    (hactive : (s.threads s.created).Active) :
    Accesses.Apart ⟨{l | ∃ v, s.view = some v ∧ l = .arrays v.bankId}, ∅⟩
      (s.threadAccesses s.created) := by
  refine ⟨Set.empty_disjoint _, ?_⟩
  rw [Set.union_empty, Set.disjoint_left]
  rintro l hwritten ⟨v, hv, rfl⟩
  cases hpc : s.threads s.created with
  | generating call =>
      rw [threadAccesses, hpc] at hwritten
      obtain heq | heq := hwritten
      · have hne := (hviewed.view v hv).target (.inl hactive)
        rw [← htarget.generating call hpc] at hne
        exact hne (Location.arrays.inj heq)
      · contradiction
  | absent | entry | storeDone | storeInFlight | exited =>
      rw [threadAccesses, hpc] at hwritten
      exact hwritten

/-- In every reachable state no two parties are about to make conflicting accesses to memory
that is not atomic. -/
theorem raceFree {pipeline : SokoFalconRefillPipeline} {s : State}
    (h : Run anyAction pipeline s) : s.RaceFree := by
  have hsound := h.sound
  constructor
  · intro id
    by_cases hactive : (s.threads id).Active
    · obtain rfl := hsound.protocol.eq_created hactive
      obtain hnone | hview := consumerAccesses_of_active hsound.protocol hactive
      · rw [hnone]
        exact (Accesses.apart_none _).symm
      · rw [hview]
        exact apart_view hsound.accounting.target h.filled_viewed.2 hactive
    · rw [threadAccesses_of_idle hactive]
      exact Accesses.apart_none _
  · intro id id' hne
    by_cases hactive : (s.threads id).Active
    · obtain rfl := hsound.protocol.eq_created hactive
      rw [threadAccesses_of_idle (hsound.protocol.others id' hne.symm)]
      exact Accesses.apart_none _
    · rw [threadAccesses_of_idle hactive]
      exact (Accesses.apart_none _).symm

/-- A view is in use while the refill of the other bank is generated. -/
def viewDuringRefill : List Action :=
  .acquire false :: List.replicate 9 (.consumer true) ++ [.thread 1]

theorem raceFree_viewDuringRefill :
    ∃ s, execute step anyAction viewDuringRefill (.initial (twoBankPipeline 1)) = some s ∧
      .arrays 0 ∈ s.consumerAccesses.reads ∧ .arrays 1 ∈ (s.threadAccesses 1).writes ∧
      s.RaceFree :=
  ⟨_, rfl, ⟨_, rfl, rfl⟩, .inl rfl,
    raceFree (.of_execute viewDuringRefill (initialised_twoBankPipeline 1) rfl)⟩

end Soko.Pipeline
