import Soko.Library.CircularWindow
import Soko.Library.Runs

/-!
The token queue of the refill pipeline: a ring buffer of references to the
presign tokens that lie in the banks. The operations are those of
`soko_falcon_pipeline.c`; a queue that satisfies `WellFormed` is the list
`toList`, and every operation is specified on that list.
-/

namespace Soko.Pipeline

open Soko.Library

/-- `soko_token_ref_t`: a token is named by its bank and its place there. -/
structure SokoTokenRef where
  bankId : ℕ
  tokenIndex : ℕ
  deriving DecidableEq, Repr

/-- `soko_token_queue_t`. -/
structure SokoTokenQueue where
  items : ℕ → SokoTokenRef
  capacity : ℕ
  head : ℕ
  tail : ℕ
  count : ℕ

/-- `soko_queue_init`; the argument is what `malloc` returned, `none` for
`NULL` and otherwise a block with arbitrary contents. -/
def sokoQueueInit (items : Option (ℕ → SokoTokenRef)) (capacity : ℕ) :
    Option SokoTokenQueue :=
  items.map fun items => { items, capacity, head := 0, tail := 0, count := 0 }

/-- `soko_queue_push`: the return value and the queue after the call. -/
def sokoQueuePush (queue : SokoTokenQueue) (ref : SokoTokenRef) : Bool × SokoTokenQueue :=
  if queue.count ≥ queue.capacity then (false, queue)
  else
    (true, { queue with
      items := Function.update queue.items queue.tail ref
      tail := (queue.tail + 1) % queue.capacity
      count := queue.count + 1 })

/-- `soko_queue_pop`: the reference, `none` when the call returns 0, and the
queue after the call. -/
def sokoQueuePop (queue : SokoTokenQueue) : Option SokoTokenRef × SokoTokenQueue :=
  if queue.count ≤ 0 then (none, queue)
  else
    (some (queue.items queue.head), { queue with
      head := (queue.head + 1) % queue.capacity
      count := queue.count - 1 })

/-- The loop of `soko_enqueue_bank_tokens` from `tokenIndex` on, with `left`
tokens to go. A push that fails ends it and leaves the earlier ones in place. -/
def sokoEnqueueBankTokensFrom (bankId : ℕ) : ℕ → ℕ → SokoTokenQueue → Bool × SokoTokenQueue
  | _, 0, queue => (true, queue)
  | tokenIndex, left + 1, queue =>
      match sokoQueuePush queue ⟨bankId, tokenIndex⟩ with
      | (false, queue) => (false, queue)
      | (true, queue) => sokoEnqueueBankTokensFrom bankId (tokenIndex + 1) left queue

def sokoEnqueueBankTokens (queue : SokoTokenQueue) (bankId tokens : ℕ) :
    Bool × SokoTokenQueue :=
  sokoEnqueueBankTokensFrom bankId 0 tokens queue

namespace SokoTokenQueue

/-- What every queue operation keeps: the positions are inside the block and
`tail` is the cell just past the last entry. -/
structure WellFormed (queue : SokoTokenQueue) : Prop where
  capacity_pos : 0 < queue.capacity
  head_lt : queue.head < queue.capacity
  count_le : queue.count ≤ queue.capacity
  tail_eq : queue.tail = (queue.head + queue.count) % queue.capacity

/-- The references in the queue, the next one to be popped first. -/
def toList (queue : SokoTokenQueue) : List SokoTokenRef :=
  window queue.items queue.capacity queue.head queue.count

@[simp] theorem toList_length (queue : SokoTokenQueue) :
    queue.toList.length = queue.count := window_length ..

@[simp] theorem toList_eq_nil {queue : SokoTokenQueue} : queue.toList = [] ↔ queue.count = 0 := by
  rw [← List.length_eq_zero_iff, toList_length]

end SokoTokenQueue

open SokoTokenQueue

theorem sokoQueueInit_spec (items : ℕ → SokoTokenRef) {capacity : ℕ} (hcap : 0 < capacity) :
    ∃ queue, sokoQueueInit (some items) capacity = some queue ∧ queue.WellFormed ∧
      queue.toList = [] ∧ queue.capacity = capacity :=
  ⟨_, rfl, ⟨hcap, hcap, Nat.zero_le _, (Nat.zero_mod _).symm⟩, rfl, rfl⟩

theorem sokoQueuePush_room {queue : SokoTokenQueue} (hwf : queue.WellFormed)
    (ref : SokoTokenRef) (hroom : queue.count < queue.capacity) :
    ∃ queue', sokoQueuePush queue ref = (true, queue') ∧ queue'.WellFormed ∧
      queue'.toList = queue.toList ++ [ref] ∧ queue'.capacity = queue.capacity := by
  refine ⟨_, if_neg (by omega), ?_, ?_, rfl⟩
  · constructor
    · exact hwf.capacity_pos
    · exact hwf.head_lt
    · exact hroom
    · simp only [hwf.tail_eq, Nat.mod_add_mod, Nat.add_assoc]
  · simp only [toList, hwf.tail_eq]
    exact window_push _ _ hroom

theorem sokoQueuePop_empty {queue : SokoTokenQueue} (hempty : queue.count = 0) :
    sokoQueuePop queue = (none, queue) := if_pos hempty.le

theorem sokoQueuePop_cons {queue : SokoTokenQueue} (hwf : queue.WellFormed)
    {ref : SokoTokenRef} {rest : List SokoTokenRef} (hlist : queue.toList = ref :: rest) :
    ∃ queue', sokoQueuePop queue = (some ref, queue') ∧ queue'.WellFormed ∧
      queue'.toList = rest ∧ queue'.capacity = queue.capacity := by
  obtain ⟨count, hcount⟩ : ∃ count, queue.count = count + 1 := by
    have hlen := congrArg List.length hlist
    rw [toList_length, List.length_cons] at hlen
    exact ⟨_, hlen⟩
  have hsplit := hlist
  rw [toList, hcount, window_pop, Nat.mod_eq_of_lt hwf.head_lt] at hsplit
  obtain ⟨href, hrest⟩ := List.cons.inj hsplit
  refine ⟨{ queue with head := (queue.head + 1) % queue.capacity, count := queue.count - 1 },
    ?_, ?_, ?_, rfl⟩
  · rw [sokoQueuePop, if_neg (by omega), href]
  · constructor
    · exact hwf.capacity_pos
    · exact Nat.mod_lt _ hwf.capacity_pos
    · exact (Nat.sub_le _ _).trans hwf.count_le
    · simp only [hwf.tail_eq, Nat.mod_add_mod]
      congr 1
      omega
  · simpa only [toList, hcount, Nat.add_sub_cancel] using hrest

/-! Sequences of calls. -/

/-- A call of `soko_queue_push` or `soko_queue_pop`. -/
inductive SokoQueueCall
  | push (ref : SokoTokenRef)
  | pop
  deriving DecidableEq

/-- What a call returns: 1 or 0, and the reference a successful pop stores. -/
inductive SokoQueueReply
  | pushed (ok : Bool)
  | popped (ref : Option SokoTokenRef)
  deriving DecidableEq

def SokoQueueReply.failed : SokoQueueReply → Bool
  | pushed ok => !ok
  | popped ref => ref.isNone

def sokoQueueServe : SokoQueueCall → SokoTokenQueue → SokoQueueReply × SokoTokenQueue
  | .push ref, queue => ((sokoQueuePush queue ref).map .pushed id)
  | .pop, queue => ((sokoQueuePop queue).map .popped id)

/-- The specification of a call, on a list of at most `capacity` references. -/
def boundedFifo (capacity : ℕ) :
    SokoQueueCall → List SokoTokenRef → SokoQueueReply × List SokoTokenRef
  | .push ref, refs =>
      if refs.length < capacity then (.pushed true, refs ++ [ref]) else (.pushed false, refs)
  | .pop, [] => (.popped none, [])
  | .pop, ref :: refs => (.popped (some ref), refs)

/-- The ring buffer is in bounds and stands for the list. -/
structure SokoTokenQueue.Refines (capacity : ℕ) (queue : SokoTokenQueue)
    (refs : List SokoTokenRef) : Prop where
  wellFormed : queue.WellFormed
  capacity_eq : queue.capacity = capacity
  toList_eq : queue.toList = refs

theorem sokoQueuePush_full {queue : SokoTokenQueue} (ref : SokoTokenRef)
    (hfull : queue.capacity ≤ queue.count) : sokoQueuePush queue ref = (false, queue) :=
  if_pos hfull

theorem sokoQueueServe_failed {call : SokoQueueCall} {queue : SokoTokenQueue}
    (hfailed : (sokoQueueServe call queue).1.failed = true) :
    (sokoQueueServe call queue).2 = queue := by
  cases call with
  | push ref =>
      by_cases hfull : queue.capacity ≤ queue.count
      · rw [sokoQueueServe, sokoQueuePush_full ref hfull]
        rfl
      · rw [sokoQueueServe, sokoQueuePush, if_neg hfull] at hfailed
        exact absurd hfailed Bool.false_ne_true
  | pop =>
      by_cases hempty : queue.count ≤ 0
      · rw [sokoQueueServe, sokoQueuePop_empty (Nat.le_zero.mp hempty)]
        rfl
      · rw [sokoQueueServe, sokoQueuePop, if_neg hempty] at hfailed
        exact absurd hfailed Bool.false_ne_true

theorem sokoQueueServe_refines {capacity : ℕ} (call : SokoQueueCall) (queue : SokoTokenQueue)
    (refs : List SokoTokenRef) (h : queue.Refines capacity refs) :
    (sokoQueueServe call queue).1 = (boundedFifo capacity call refs).1 ∧
      (sokoQueueServe call queue).2.Refines capacity (boundedFifo capacity call refs).2 := by
  obtain ⟨hwf, hcap, rfl⟩ := h
  cases call with
  | push ref =>
      rw [boundedFifo, toList_length]
      by_cases hroom : queue.count < capacity
      · obtain ⟨queue', hpush, hwf', hlist', hcap'⟩ :=
          sokoQueuePush_room hwf ref (hcap.symm ▸ hroom)
        rw [sokoQueueServe, hpush, if_pos hroom]
        exact ⟨rfl, hwf', hcap'.trans hcap, hlist'⟩
      · rw [sokoQueueServe, sokoQueuePush_full ref (by omega), if_neg hroom]
        exact ⟨rfl, hwf, hcap, rfl⟩
  | pop =>
      cases hlist : queue.toList with
      | nil =>
          rw [sokoQueueServe, sokoQueuePop_empty (toList_eq_nil.mp hlist)]
          exact ⟨rfl, hwf, hcap, hlist⟩
      | cons ref refs =>
          obtain ⟨queue', hpop, hwf', hlist', hcap'⟩ := sokoQueuePop_cons hwf hlist
          rw [sokoQueueServe, hpop]
          exact ⟨rfl, hwf', hcap'.trans hcap, hlist'⟩

/-- After any calls on a new queue the replies are those of the bounded list, the queue
stands for this list, and its positions are in bounds. -/
theorem sokoQueue_boundedFifo (items : ℕ → SokoTokenRef) {capacity : ℕ} (hcap : 0 < capacity)
    (calls : List SokoQueueCall) :
    ∃ queue, sokoQueueInit (some items) capacity = some queue ∧
      let (replies, queue') := runCalls sokoQueueServe calls queue
      let (replies', refs) := runCalls (boundedFifo capacity) calls []
      replies = replies' ∧ queue'.toList = refs ∧ refs.length ≤ capacity ∧
        queue'.head < capacity ∧ queue'.tail < capacity ∧
        queue'.tail = (queue'.head + queue'.count) % capacity ∧
        ∀ call, (sokoQueueServe call queue').1.failed = true →
          (sokoQueueServe call queue').2 = queue' := by
  obtain ⟨queue, hinit, hwf, hlist, hcapacity⟩ := sokoQueueInit_spec items hcap
  obtain ⟨hreplies, hwf', hcapacity', hlist'⟩ :=
    runCalls_refines sokoQueueServe_refines calls (Refines.mk hwf hcapacity hlist)
  refine ⟨queue, hinit, hreplies, hlist', ?_, ?_, ?_, ?_, fun call => sokoQueueServe_failed⟩
  · rw [← hlist', toList_length, ← hcapacity']
    exact hwf'.count_le
  · rw [← hcapacity']
    exact hwf'.head_lt
  · rw [hwf'.tail_eq, hcapacity']
    exact Nat.mod_lt _ hcap
  · rw [hwf'.tail_eq, hcapacity']

theorem sokoQueue_boundedFifo_pushPop :
    ∃ queue, sokoQueueInit (some fun _ => ⟨0, 0⟩) 1 = some queue ∧
      let (replies, queue') := runCalls sokoQueueServe [.push ⟨0, 4⟩, .push ⟨0, 5⟩, .pop] queue
      let (replies', refs) := runCalls (boundedFifo 1) [.push ⟨0, 4⟩, .push ⟨0, 5⟩, .pop] []
      replies = replies' ∧ queue'.toList = refs ∧ refs.length ≤ 1 ∧
        queue'.head < 1 ∧ queue'.tail < 1 ∧ queue'.tail = (queue'.head + queue'.count) % 1 ∧
        ∀ call, (sokoQueueServe call queue').1.failed = true →
          (sokoQueueServe call queue').2 = queue' :=
  sokoQueue_boundedFifo (fun _ => ⟨0, 0⟩) one_pos [.push ⟨0, 4⟩, .push ⟨0, 5⟩, .pop]

/-- The block of references that the tokens `tokenIndex ..< tokenIndex + left`
of a bank have in the queue. -/
def bankRefs (bankId tokenIndex left : ℕ) : List SokoTokenRef :=
  (List.range' tokenIndex left).map fun i => ⟨bankId, i⟩

@[simp] theorem bankRefs_length (bankId tokenIndex left : ℕ) :
    (bankRefs bankId tokenIndex left).length = left := by
  simp [bankRefs]

@[simp] theorem bankRefs_zero (bankId tokenIndex : ℕ) : bankRefs bankId tokenIndex 0 = [] := rfl

@[simp] theorem bankRefs_succ (bankId tokenIndex left : ℕ) :
    bankRefs bankId tokenIndex (left + 1) =
      ⟨bankId, tokenIndex⟩ :: bankRefs bankId (tokenIndex + 1) left := by
  simp [bankRefs, List.range'_succ]

theorem sokoEnqueueBankTokensFrom_room (bankId : ℕ) {left : ℕ} :
    ∀ (tokenIndex : ℕ) {queue : SokoTokenQueue}, queue.WellFormed →
      queue.count + left ≤ queue.capacity →
      ∃ queue', sokoEnqueueBankTokensFrom bankId tokenIndex left queue = (true, queue') ∧
        queue'.WellFormed ∧ queue'.toList = queue.toList ++ bankRefs bankId tokenIndex left ∧
        queue'.capacity = queue.capacity := by
  induction left with
  | zero =>
      intro tokenIndex queue hwf _
      exact ⟨queue, rfl, hwf, by simp, rfl⟩
  | succ left ih =>
      intro tokenIndex queue hwf hroom
      obtain ⟨queue₁, hpush, hwf₁, hlist₁, hcap₁⟩ :=
        sokoQueuePush_room hwf ⟨bankId, tokenIndex⟩ (by omega)
      have hcount₁ : queue₁.count = queue.count + 1 := by
        rw [← toList_length, hlist₁]
        simp
      obtain ⟨queue₂, hrest, hwf₂, hlist₂, hcap₂⟩ := ih (tokenIndex + 1) hwf₁ (by omega)
      refine ⟨queue₂, ?_, hwf₂, ?_, hcap₂.trans hcap₁⟩
      · rw [sokoEnqueueBankTokensFrom, hpush]
        exact hrest
      · rw [hlist₂, hlist₁, bankRefs_succ, List.append_assoc, List.singleton_append]

/-- With room for all of them, the tokens of a bank are appended in order. -/
theorem sokoEnqueueBankTokens_room {queue : SokoTokenQueue} (hwf : queue.WellFormed)
    (bankId : ℕ) {tokens : ℕ} (hroom : queue.count + tokens ≤ queue.capacity) :
    ∃ queue', sokoEnqueueBankTokens queue bankId tokens = (true, queue') ∧
      queue'.WellFormed ∧ queue'.toList = queue.toList ++ bankRefs bankId 0 tokens ∧
      queue'.capacity = queue.capacity :=
  sokoEnqueueBankTokensFrom_room bankId 0 hwf hroom

end Soko.Pipeline
