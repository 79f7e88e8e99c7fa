import Mathlib.Algebra.BigOperators.Intervals
import Mathlib.Algebra.Order.BigOperators.Group.Finset
import Mathlib.Tactic.Linarith
import Mathlib.Tactic.Positivity
import Mathlib.Tactic.Ring
import Soko.Pipeline.Queue

/-!
The books of the pipeline: `bank_remaining` against the queue.

`Ledger` says of a queue and the counters of its banks that the entries of every
bank are the last tokens of that bank in increasing order, as many as its
counter says, and that the queue holds nothing else. It is established by `init`,
kept by popping a token and by enqueueing a bank whose counter is zero, and it
is the reason why such an enqueue always finds room.
-/

namespace Soko.Pipeline

open SokoTokenQueue

/-- The queue holds exactly the tokens that the counters `remaining` of
`bankCount` banks with `tokens` tokens each announce. -/
structure Ledger (tokens bankCount : ℕ) (remaining : ℕ → ℤ) (queue : SokoTokenQueue) :
    Prop where
  wf : queue.WellFormed
  capacity_eq : queue.capacity = tokens * bankCount
  nonneg : ∀ b, 0 ≤ remaining b
  le_tokens : ∀ b, remaining b ≤ tokens
  eq_zero_of_le : ∀ b, bankCount ≤ b → remaining b = 0
  entries : ∀ b, queue.toList.filter (fun ref => ref.bankId = b) =
    bankRefs b (tokens - (remaining b).toNat) (remaining b).toNat
  count_eq : (queue.count : ℤ) = ∑ b ∈ Finset.range bankCount, remaining b

@[simp] theorem filter_bankRefs (b bankId tokenIndex left : ℕ) :
    (bankRefs bankId tokenIndex left).filter (fun ref => ref.bankId = b) =
      if bankId = b then bankRefs bankId tokenIndex left else [] := by
  split
  · rename_i heq
    rw [List.filter_eq_self]
    intro ref href
    obtain ⟨i, -, rfl⟩ := List.mem_map.mp href
    simpa using heq
  · rename_i hne
    rw [List.filter_eq_nil_iff]
    intro ref href
    obtain ⟨i, -, rfl⟩ := List.mem_map.mp href
    simpa using hne

theorem sum_update_eq (bankCount : ℕ) (remaining : ℕ → ℤ) {b : ℕ} (hb : b < bankCount) (v : ℤ) :
    ∑ i ∈ Finset.range bankCount, Function.update remaining b v i =
      (∑ i ∈ Finset.range bankCount, remaining i) - remaining b + v := by
  rw [Finset.sum_update_of_mem (Finset.mem_range.mpr hb),
    ← Finset.sum_sdiff (Finset.singleton_subset_iff.mpr (Finset.mem_range.mpr hb)),
    Finset.sum_singleton]
  ring

namespace Ledger

variable {tokens bankCount : ℕ} {remaining : ℕ → ℤ} {queue : SokoTokenQueue}

/-- An entry of the queue belongs to a bank whose counter is positive. -/
theorem remaining_pos (h : Ledger tokens bankCount remaining queue) {ref : SokoTokenRef}
    (href : ref ∈ queue.toList) : 0 < remaining ref.bankId := by
  have hmem : ref ∈ queue.toList.filter (fun r => r.bankId = ref.bankId) := by
    simp [href]
  rw [h.entries] at hmem
  have hlen := List.length_pos_of_mem hmem
  rw [bankRefs_length] at hlen
  have := h.nonneg ref.bankId
  omega

theorem bankId_lt (h : Ledger tokens bankCount remaining queue) {ref : SokoTokenRef}
    (href : ref ∈ queue.toList) : ref.bankId < bankCount := by
  by_contra hge
  have hpos := h.remaining_pos href
  rw [h.eq_zero_of_le _ (by omega)] at hpos
  exact absurd hpos (lt_irrefl 0)

theorem tokenIndex_lt (h : Ledger tokens bankCount remaining queue) {ref : SokoTokenRef}
    (href : ref ∈ queue.toList) : ref.tokenIndex < tokens := by
  have hmem : ref ∈ queue.toList.filter (fun r => r.bankId = ref.bankId) := by
    simp [href]
  rw [h.entries] at hmem
  obtain ⟨i, hi, heq⟩ := List.mem_map.mp hmem
  have hindex : i = ref.tokenIndex := congrArg SokoTokenRef.tokenIndex heq
  have hle := h.le_tokens ref.bankId
  have hrange := List.mem_range'_1.mp hi
  omega

theorem exists_empty_of_count_zero (h : Ledger tokens bankCount remaining queue)
    (hcount : queue.count = 0) {b : ℕ} (hb : b < bankCount) : remaining b = 0 := by
  have hsum := h.count_eq
  rw [hcount, Nat.cast_zero] at hsum
  exact (Finset.sum_eq_zero_iff_of_nonneg fun i _ => h.nonneg i).mp hsum.symm b
    (Finset.mem_range.mpr hb)

/-- A bank whose counter is zero has room for all its tokens. -/
theorem room (h : Ledger tokens bankCount remaining queue) {b : ℕ} (hb : b < bankCount)
    (hempty : remaining b = 0) : queue.count + tokens ≤ queue.capacity := by
  have hle : ∑ i ∈ Finset.range bankCount, Function.update remaining b (tokens : ℤ) i ≤
      ∑ _i ∈ Finset.range bankCount, (tokens : ℤ) := by
    apply Finset.sum_le_sum
    intro i _
    by_cases hi : i = b
    · simp [hi]
    · rw [Function.update_of_ne hi]
      exact h.le_tokens i
  rw [sum_update_eq bankCount remaining hb, ← h.count_eq, hempty, Finset.sum_const,
    Finset.card_range, nsmul_eq_mul] at hle
  rw [h.capacity_eq]
  have hcast : ((queue.count + tokens : ℕ) : ℤ) ≤ ((tokens * bankCount : ℕ) : ℤ) := by
    push_cast
    linarith
  exact_mod_cast hcast

/-- Enqueueing an empty bank succeeds and keeps the books. -/
theorem enqueue (h : Ledger tokens bankCount remaining queue) {b : ℕ} (hb : b < bankCount)
    (hempty : remaining b = 0) :
    ∃ queue', sokoEnqueueBankTokens queue b tokens = (true, queue') ∧
      queue'.toList = queue.toList ++ bankRefs b 0 tokens ∧
      Ledger tokens bankCount (Function.update remaining b (tokens : ℤ)) queue' := by
  obtain ⟨queue', hcall, hwf, hlist, hcap⟩ :=
    sokoEnqueueBankTokens_room h.wf b (h.room hb hempty)
  refine ⟨queue', hcall, hlist, ?_⟩
  have hcount : queue'.count = queue.count + tokens := by
    rw [← toList_length, hlist]
    simp
  constructor
  · exact hwf
  · exact hcap.trans h.capacity_eq
  · intro i
    by_cases hi : i = b
    · simp [hi]
    · rw [Function.update_of_ne hi]
      exact h.nonneg i
  · intro i
    by_cases hi : i = b
    · simp [hi]
    · rw [Function.update_of_ne hi]
      exact h.le_tokens i
  · intro i hi
    rw [Function.update_of_ne (by omega)]
    exact h.eq_zero_of_le i hi
  · intro i
    rw [hlist, List.filter_append, h.entries, filter_bankRefs]
    by_cases hi : i = b
    · subst i
      simp [hempty]
    · rw [Function.update_of_ne hi, if_neg (Ne.symm hi), List.append_nil]
  · rw [sum_update_eq bankCount remaining hb, ← h.count_eq, hcount, hempty]
    push_cast
    ring

theorem pop (h : Ledger tokens bankCount remaining queue) {ref : SokoTokenRef}
    {rest : List SokoTokenRef} (hlist : queue.toList = ref :: rest) :
    ∃ queue', sokoQueuePop queue = (some ref, queue') ∧ queue'.toList = rest ∧
      Ledger tokens bankCount
        (Function.update remaining ref.bankId (remaining ref.bankId - 1)) queue' := by
  obtain ⟨queue', hcall, hwf, hrest, hcap⟩ := sokoQueuePop_cons h.wf hlist
  have href : ref ∈ queue.toList := by simp [hlist]
  have hpos := h.remaining_pos href
  have hb := h.bankId_lt href
  refine ⟨queue', hcall, hrest, ?_⟩
  have hcount : queue.count = queue'.count + 1 := by
    rw [← toList_length, ← toList_length, hlist, hrest, List.length_cons]
  constructor
  · exact hwf
  · exact hcap.trans h.capacity_eq
  · intro i
    by_cases hi : i = ref.bankId
    · subst i
      simp only [Function.update_self]
      omega
    · rw [Function.update_of_ne hi]
      exact h.nonneg i
  · intro i
    by_cases hi : i = ref.bankId
    · subst i
      have := h.le_tokens ref.bankId
      simp only [Function.update_self]
      omega
    · rw [Function.update_of_ne hi]
      exact h.le_tokens i
  · intro i hi
    rw [Function.update_of_ne (by omega)]
    exact h.eq_zero_of_le i hi
  · intro i
    have hentries := h.entries i
    rw [hlist] at hentries
    rw [hrest]
    -- the popped token leads the entries of its own bank and is none of any other's
    by_cases hi : i = ref.bankId
    · subst i
      obtain ⟨left, hleft⟩ : ∃ left, (remaining ref.bankId).toNat = left + 1 :=
        ⟨(remaining ref.bankId).toNat - 1, by omega⟩
      have hle := h.le_tokens ref.bankId
      rw [List.filter_cons_of_pos (by simp), hleft, bankRefs_succ] at hentries
      rw [Function.update_self, (List.cons.inj hentries).2]
      congr 1 <;> omega
    · rw [List.filter_cons_of_neg (by simpa using Ne.symm hi)] at hentries
      rw [hentries, Function.update_of_ne hi]
  · rw [sum_update_eq bankCount remaining hb, ← h.count_eq, hcount]
    push_cast
    ring

end Ledger

/-- The books of a freshly initialised queue: bank 0 is full, the others empty. -/
theorem ledger_init {tokens bankCount : ℕ} (htokens : 0 < tokens) (hbanks : 0 < bankCount)
    (items : ℕ → SokoTokenRef) :
    ∃ empty queue, sokoQueueInit (some items) (tokens * bankCount) = some empty ∧
      sokoEnqueueBankTokens empty 0 tokens = (true, queue) ∧
      queue.toList = bankRefs 0 0 tokens ∧
      Ledger tokens bankCount (Function.update (fun _ => 0) 0 (tokens : ℤ)) queue := by
  obtain ⟨empty, hinit, hwf, hnil, hcap⟩ :=
    sokoQueueInit_spec items (Nat.mul_pos htokens hbanks)
  have hzero : Ledger tokens bankCount (fun _ => 0) empty := by
    refine ⟨hwf, hcap, fun _ => le_rfl, fun _ => by positivity, fun _ _ => rfl, ?_, ?_⟩
    · intro b
      simp [hnil]
    · rw [toList_eq_nil.mp hnil]
      simp
  obtain ⟨queue, hcall, hlist, hledger⟩ := hzero.enqueue hbanks rfl
  exact ⟨empty, queue, hinit, hcall, by rw [hlist, hnil, List.nil_append], hledger⟩

end Soko.Pipeline
