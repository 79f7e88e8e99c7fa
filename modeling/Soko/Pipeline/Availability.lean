import Soko.Pipeline.Collection

/-!
The flag `available` of the banks. It is cleared when a refill of the bank is about to
start or has been collected, and set when the last token of the bank is popped. A start
that fails and a generation that fails do not set it again. In runs without these, and
without lost completions, it tells at each return of `acquire` which banks are empty and
have no refill on the way.
-/

namespace Soko.Pipeline

open Soko.Library Handshake

namespace State

/-- A refill that was launched and neither enqueued nor reported. -/
def Uncollected (s : State) (id : ℕ) : Prop :=
  0 < id ∧ id ≤ s.created ∧ id ∉ s.history.enqueued ∧ ∀ report ∈ s.history.reported, report.1 ≠ id

/-- The bank of a refill. Until its thread has read the worker fields, they name it. -/
def refillBank (s : State) (id : ℕ) : ℕ :=
  ((s.history.calls id).getD s.pipeline.worker.call).bankId

/-- The flags of the banks are set for those that are empty and not being refilled. -/
def AvailabilityTracked (s : State) : Prop :=
  ∀ b < s.pipeline.bankCount, (s.pipeline.banks b).available = true ↔
    s.pipeline.bankRemaining b = 0 ∧ ¬ ∃ id, s.Uncollected id ∧ s.refillBank id = b

/-- A refill of the bank is about to be launched, at work, or not collected. -/
def Reserved (s : State) (b : ℕ) : Prop :=
  (∃ args, s.consumer.startArgs = some args ∧ args.bankId = b) ∨
    (s.Pending ∧ s.pipeline.worker.call.bankId = b)

structure Flags (s : State) : Prop where
  flag : ∀ b < s.pipeline.bankCount, (s.pipeline.banks b).available = true ↔
    s.pipeline.bankRemaining b = 0 ∧ ¬ s.Reserved b
  calls : ∀ id call, s.history.calls id = some call → id ≤ s.created ∧
    (id = s.created → s.Outstanding → call.bankId = s.pipeline.worker.call.bankId)
  steady : s.consumer ≠ .startFailStoreInFlight ∧ s.consumer ≠ .startFailStoreStarted

/-- What the flags depend on. -/
structure SameBanks (s s' : State) : Prop where
  bankCount : s'.pipeline.bankCount = s.pipeline.bankCount
  flags : ∀ b, (s'.pipeline.banks b).available = (s.pipeline.banks b).available
  remaining : s'.pipeline.bankRemaining = s.pipeline.bankRemaining
  call : s'.pipeline.worker.call = s.pipeline.worker.call
  done : s'.pipeline.worker.done = s.pipeline.worker.done
  latest : s'.threads s'.created = s.threads s.created
  created : s'.created = s.created
  calls : s'.history.calls = s.history.calls

end State

open State

/-- No completion is lost, no thread creation fails, and no failed generation is
collected. -/
def FlagsKept (a : Action) (s : State) : Prop :=
  CompletionSeen a s ∧
    match a with
    | .consumer starts =>
        (s.consumer = .startThread → starts = true) ∧
          (s.consumer = .finishStoreDone .onEntry ∨ s.consumer = .finishStoreDone .inWaitLoop →
            s.pipeline.worker.result = 0)
    | _ => True

instance (a : Action) (s : State) : Decidable (FlagsKept a s) :=
  match a with
  | .consumer _ => inferInstanceAs (Decidable (_ ∧ (_ → _) ∧ (_ ∨ _ → _)))
  | .acquire _ | .destroy | .thread _ | .write _ _ | .generated _ _ _ =>
      inferInstanceAs (Decidable (_ ∧ True))

namespace State

theorem Flags.of_sameBanks {s s' : State} (h : s.Flags) (hsame : SameBanks s s')
    (hargs : s'.consumer.startArgs = s.consumer.startArgs)
    (hstarting : s'.consumer.Starting ↔ s.consumer.Starting)
    (hsteady : s'.consumer ≠ .startFailStoreInFlight ∧ s'.consumer ≠ .startFailStoreStarted) :
    s'.Flags := by
  have houtstanding : s'.Outstanding ↔ s.Outstanding := by
    rw [Outstanding, Outstanding, hsame.latest, hsame.done]
  have hreserved : ∀ b, s'.Reserved b ↔ s.Reserved b := by
    intro b
    rw [Reserved, Reserved, Pending, Pending, hargs, hstarting, hsame.latest, hsame.done,
      hsame.call]
  refine ⟨fun b hb => ?_, fun id call hcall => ?_, hsteady⟩
  · rw [hsame.flags, hsame.remaining, hreserved]
    exact h.flag b (hsame.bankCount ▸ hb)
  · rw [hsame.created, houtstanding, hsame.call]
    exact h.calls id call (hsame.calls ▸ hcall)

end State

/-- A bank that holds tokens has no refill on the way. -/
theorem State.Sound.not_reserved {s : State} (h : s.Sound) {b : ℕ}
    (hpos : 0 < s.pipeline.bankRemaining b) : ¬ s.Reserved b := by
  have htarget := h.accounting.target
  rintro (⟨args, hargs, rfl⟩ | ⟨hpending, rfl⟩)
  · exact absurd (htarget.args args hargs).2 hpos.ne'
  · exact absurd (htarget.call hpending).2 hpos.ne'

theorem available_update (banks : ℕ → SokoFalconTokenBank) (bankId b : ℕ) (v : Bool) :
    (Function.update banks bankId { banks bankId with available := v } b).available =
      if b = bankId then v else (banks b).available := by
  by_cases hb : b = bankId
  · subst b
    rw [Function.update_self, if_pos rfl]
  · rw [Function.update_of_ne hb, if_neg hb]

theorem flags_reserve {s : State} (h : s.Flags) {bankId : ℕ} (hargs : s.consumer.startArgs = none)
    (hpending : ¬ s.Pending) (hempty : s.EmptyBank bankId) (seed : UInt32) :
    ((s.reserveBank bankId).goto (.startLoadInFlight { bankId, seed })).Flags := by
  have hnone : ∀ b, ¬ s.Reserved b := by
    rintro b (⟨args, hsome, -⟩ | ⟨hpend, -⟩)
    · exact ConsumerPc.forall_startArgs (p := fun _ => False) hargs args hsome
    · exact hpending hpend
  have hreserved : ∀ b, ((s.reserveBank bankId).goto
      (.startLoadInFlight { bankId, seed })).Reserved b ↔ b = bankId := by
    intro b
    constructor
    · rintro (⟨args, ⟨⟩, rfl⟩ | ⟨hstart | hrest, -⟩)
      · rfl
      · exact absurd hstart id
      · exact absurd (.inr hrest) hpending
    · rintro rfl
      exact .inl ⟨_, rfl, rfl⟩
  refine ⟨fun b hb => ?_, h.calls, ⟨ConsumerPc.noConfusion, ConsumerPc.noConfusion⟩⟩
  have hflag := h.flag b hb
  rw [hreserved]
  show (Function.update s.pipeline.banks bankId
    { s.pipeline.banks bankId with available := false } b).available = true ↔
      s.pipeline.bankRemaining b = 0 ∧ ¬ b = bankId
  rw [available_update]
  split
  · simp [*]
  · rw [hflag, and_congr_right_iff]
    exact fun _ => iff_of_true (hnone b) ‹_›

theorem flags_setCall {s : State} (h : s.Flags) {args : StartArgs}
    (hpc : s.consumer = .startStoreDone args) (hunlaunched : s.handshake.Unlaunched) :
    (((s.setCall args).storeDone false).goto .startStoreInFlight).Flags := by
  have hidle : ¬ s.Outstanding := not_outstanding hunlaunched.idle hunlaunched.done
  have hreserved : ∀ b, (((s.setCall args).storeDone false).goto .startStoreInFlight).Reserved b ↔
      s.Reserved b := by
    intro b
    constructor
    · rintro (⟨args', hsome, -⟩ | ⟨-, rfl⟩)
      · exact absurd hsome nofun
      · exact .inl ⟨args, by rw [hpc]; rfl, rfl⟩
    · rintro (⟨args', hsome, rfl⟩ | ⟨hstart | hrest, -⟩)
      · rw [hpc] at hsome
        obtain rfl := Option.some.inj hsome
        exact .inr ⟨.inl trivial, rfl⟩
      · rw [hpc] at hstart
        exact absurd hstart id
      · exact absurd hrest hidle
  refine ⟨fun b hb => ?_, fun id call hcall => ⟨(h.calls id call hcall).1, fun _ hout => ?_⟩,
    ⟨ConsumerPc.noConfusion, ConsumerPc.noConfusion⟩⟩
  · rw [hreserved]
    exact h.flag b hb
  · exact absurd hout (not_outstanding hunlaunched.idle rfl)

theorem flags_launch {s : State} (h : s.Flags) (hpc : s.consumer = .startThread) :
    (s.createThread.goto .waitHead).Flags := by
  have hactive : ((s.createThread.goto .waitHead).threads
      (s.createThread.goto .waitHead).created).Active := by
    rw [createThread_latest]
    trivial
  have hreserved : ∀ b, (s.createThread.goto .waitHead).Reserved b ↔ s.Reserved b := by
    intro b
    constructor
    · rintro (⟨args, hsome, -⟩ | ⟨-, rfl⟩)
      · exact absurd hsome nofun
      · exact .inr ⟨.inl (by rw [hpc]; trivial), rfl⟩
    · rintro (⟨args, hsome, -⟩ | ⟨-, rfl⟩)
      · rw [hpc] at hsome
        exact absurd hsome nofun
      · exact .inr ⟨.inr (.inl hactive), rfl⟩
  refine ⟨fun b hb => ?_, fun id call hcall => ?_, ⟨ConsumerPc.noConfusion, ConsumerPc.noConfusion⟩⟩
  · rw [hreserved]
    exact h.flag b hb
  · -- the number of the new refill is fresh
    have hle : id ≤ s.created := (h.calls id call hcall).1
    refine ⟨hle.trans (Nat.le_succ _), fun heq => absurd hle ?_⟩
    rw [heq]
    exact Nat.not_succ_le_self _

/-- A refill is collected: its bank is full, and nothing is reserved. -/
theorem flags_collect {s : State} (h : s.Flags) (hargs : s.consumer.startArgs = none)
    (hidle : ¬ (s.threads s.created).Active) (htokens : 0 < s.pipeline.tokensPerBank)
    (queue : SokoTokenQueue) {pc : ConsumerPc} (hargs' : pc.startArgs = none)
    (hstarting' : ¬ pc.Starting)
    (hsteady : pc ≠ .startFailStoreInFlight ∧ pc ≠ .startFailStoreStarted) :
    (((s.storeDone false).collectRefill queue).goto pc).Flags := by
  -- the collected refill was the only one that could reserve a bank
  have hnone : ∀ b, ¬ (((s.storeDone false).collectRefill queue).goto pc).Reserved b := by
    rintro b (⟨args, hsome, -⟩ | ⟨hstart | hactive | hdone, -⟩)
    · exact ConsumerPc.forall_startArgs (p := fun _ => False) hargs' args hsome
    · exact hstarting' hstart
    · exact hidle hactive
    · exact absurd hdone nofun
  refine ⟨fun b hb => ?_, fun id call hcall => ⟨(h.calls id call hcall).1, fun _ hout => ?_⟩,
    hsteady⟩
  · have hflag := h.flag b hb
    rw [and_iff_left (hnone b)]
    show (Function.update s.pipeline.banks s.pipeline.worker.call.bankId
      { s.pipeline.banks s.pipeline.worker.call.bankId with available := false } b).available =
        true ↔ Function.update s.pipeline.bankRemaining s.pipeline.worker.call.bankId
          (s.pipeline.tokensPerBank : ℤ) b = 0
    rw [available_update]
    by_cases hsame : b = s.pipeline.worker.call.bankId
    · subst hsame
      rw [if_pos rfl, Function.update_self]
      exact iff_of_false Bool.false_ne_true (by omega)
    · have hfree : ¬ s.Reserved b := by
        rintro (⟨args, hsome, -⟩ | ⟨-, hbank⟩)
        · exact ConsumerPc.forall_startArgs (p := fun _ => False) hargs args hsome
        · exact hsame hbank.symm
      rw [if_neg hsame, Function.update_of_ne hsame, hflag, and_iff_left hfree]
  · exact absurd hout (not_outstanding hidle rfl)

/-- A token leaves its bank. The bank is not reserved, and the last token sets the flag. -/
theorem flags_handOut {s : State} (hsound : s.Sound) (h : s.Flags) {ref : SokoTokenRef}
    (hargs : s.consumer.startArgs = none) (hstarting : ¬ s.consumer.Starting)
    (hpos : 0 < s.pipeline.bankRemaining ref.bankId) (queue : SokoTokenQueue) :
    ((s.handOut ref queue).acquireReturn 0).Flags := by
  have hreserved : ∀ b, ((s.handOut ref queue).acquireReturn 0).Reserved b ↔ s.Reserved b := by
    intro b
    constructor
    · rintro (⟨args, hsome, -⟩ | ⟨hstart | hrest, hbank⟩)
      · exact absurd hsome nofun
      · exact absurd hstart id
      · exact .inr ⟨.inr hrest, hbank⟩
    · rintro (⟨args, hsome, -⟩ | ⟨hstart | hrest, hbank⟩)
      · exact ConsumerPc.forall_startArgs (p := fun _ => _) hargs args hsome
      · exact absurd hstart hstarting
      · exact .inr ⟨.inr hrest, hbank⟩
  refine ⟨fun b hb => ?_, h.calls, ⟨ConsumerPc.noConfusion, ConsumerPc.noConfusion⟩⟩
  have hflag := h.flag b hb
  rw [hreserved]
  show ((if s.pipeline.bankRemaining ref.bankId - 1 = 0 then
      Function.update s.pipeline.banks ref.bankId
        { s.pipeline.banks ref.bankId with available := true }
      else s.pipeline.banks) b).available = true ↔
    Function.update s.pipeline.bankRemaining ref.bankId
      (s.pipeline.bankRemaining ref.bankId - 1) b = 0 ∧ ¬ s.Reserved b
  -- a bank that still has tokens is not reserved: only its last token sets the flag
  by_cases hsame : b = ref.bankId
  · subst hsame
    rw [Function.update_self, and_iff_left (hsound.not_reserved hpos)]
    split
    · rw [available_update, if_pos rfl]
      exact iff_of_true rfl ‹_›
    · rw [hflag]
      exact iff_of_false (fun hzero => hpos.ne' hzero.1) ‹_›
  · rw [Function.update_of_ne hsame, ← hflag]
    split
    · rw [available_update, if_neg hsame]
    · rfl

theorem flags_consumerStep {starts : Bool} {s s' : State} (hsound : s.Sound)
    (hunpending : s.Unpending) (h : s.Flags) (hok : FlagsKept (.consumer starts) s)
    (hs : consumerStep starts s = some s') : s'.Flags := by
  have hphase := hsound.protocol.phase
  obtain ⟨hseen, hstarts, hresult⟩ := hok
  cases hpc : s.consumer <;> simp only [consumerStep, hpc] at hs hphase
  case outside | destroyed => contradiction
  case startFailStoreInFlight => exact absurd hpc h.steady.1
  case startFailStoreStarted => exact absurd hpc h.steady.2
  case finishLoadDone caller | joinLoadStarted caller | joinWait caller =>
    cases caller <;> split at hs <;> cases hs <;>
      exact h.of_sameBanks ⟨rfl, fun _ => rfl, rfl, rfl, rfl, rfl, rfl, rfl⟩ (by rw [hpc]; rfl)
        (by rw [hpc]; rfl) ⟨ConsumerPc.noConfusion, ConsumerPc.noConfusion⟩
  case joinStoreStarted caller =>
    cases hs
    cases caller <;>
      exact h.of_sameBanks ⟨rfl, fun _ => rfl, rfl, rfl, rfl, rfl, rfl, rfl⟩ (by rw [hpc]; rfl)
        (by rw [hpc]; rfl) ⟨ConsumerPc.noConfusion, ConsumerPc.noConfusion⟩
  case finishStoreDone call =>
    cases hs
    have hzero : s.pipeline.worker.result = 0 := hresult (by rw [hpc]; cases call <;> simp)
    obtain ⟨hfailed, -⟩ | ⟨-, -, queue, -, -, -, heq⟩ :=
      finishCollect_cases hsound.accounting hphase.done call
    · exact absurd hzero hfailed
    · rw [heq]
      cases call <;>
        exact flags_collect h (by rw [hpc]; rfl) hphase.idle hsound.accounting.tokens_pos queue rfl
          id ⟨ConsumerPc.noConfusion, ConsumerPc.noConfusion⟩
  case acquireLoadInFlight =>
    split at hs
    · rename_i hcond
      split at hs <;> cases hs
      · rename_i bankId hfind
        -- with the completion seen, a clear `in_flight` means that no refill is out
        have hunlaunched : s.handshake.Unlaunched :=
          (hphase.of_inFlight hcond.2).resolve_right fun hfinished =>
            Bool.false_ne_true ((hseen hpc hcond.1 hcond.2).symm.trans hfinished.done)
        refine flags_reserve h (by rw [hpc]; rfl) ?_ (sokoFindEmptyBank_some hfind) _
        rintro (hstart | hactive | hdone)
        · rw [hpc] at hstart
          exact hstart
        · exact hunlaunched.idle hactive
        · exact absurd (hunlaunched.done.symm.trans hdone) Bool.false_ne_true
      · exact h.of_sameBanks ⟨rfl, fun _ => rfl, rfl, rfl, rfl, rfl, rfl, rfl⟩ (by rw [hpc]; rfl)
          (by rw [hpc]; rfl) ⟨ConsumerPc.noConfusion, ConsumerPc.noConfusion⟩
    · cases hs
      exact h.of_sameBanks ⟨rfl, fun _ => rfl, rfl, rfl, rfl, rfl, rfl, rfl⟩ (by rw [hpc]; rfl)
        (by rw [hpc]; rfl) ⟨ConsumerPc.noConfusion, ConsumerPc.noConfusion⟩
  case startLoadInFlight args =>
    -- in this phase no thread runs, so that the test does not fail
    have hflight : s.pipeline.worker.inFlight = false :=
      hphase.elim Unlaunched.inFlight Finished.inFlight
    rw [hflight] at hs
    cases hs
    exact h.of_sameBanks ⟨rfl, fun _ => rfl, rfl, rfl, rfl, rfl, rfl, rfl⟩ (by rw [hpc]; rfl)
      (by rw [hpc]; rfl) ⟨ConsumerPc.noConfusion, ConsumerPc.noConfusion⟩
  case startStoreDone args =>
    cases hs
    exact flags_setCall h hpc (hunpending.args args (by rw [hpc]; rfl))
  case startStoreInFlight | startStoreStarted =>
    cases hs
    exact h.of_sameBanks ⟨rfl, fun _ => rfl, rfl, rfl, rfl, rfl, rfl, rfl⟩ (by rw [hpc]; rfl)
      (by rw [hpc]; rfl) ⟨ConsumerPc.noConfusion, ConsumerPc.noConfusion⟩
  case startThread =>
    rw [if_pos (hstarts hpc)] at hs
    cases hs
    exact flags_launch h hpc
  case acquirePop =>
    cases hs
    obtain ⟨-, heq⟩ | ⟨ref, rest, queue, hlist, -, -, -, heq⟩ :=
      popToken_cases hsound.accounting <;> rw [heq]
    · exact h.of_sameBanks ⟨rfl, fun _ => rfl, rfl, rfl, rfl, rfl, rfl, rfl⟩ (by rw [hpc]; rfl)
        (by rw [hpc]; rfl) ⟨ConsumerPc.noConfusion, ConsumerPc.noConfusion⟩
    · exact flags_handOut hsound h (by rw [hpc]; rfl) (by rw [hpc]; exact id)
        (hsound.accounting.ledger.remaining_pos (by simp [hlist])) queue
  case waitHead | waitLoadDone | destroyLoadStarted =>
    split at hs <;> cases hs <;>
      exact h.of_sameBanks ⟨rfl, fun _ => rfl, rfl, rfl, rfl, rfl, rfl, rfl⟩ (by rw [hpc]; rfl)
        (by rw [hpc]; rfl) ⟨ConsumerPc.noConfusion, ConsumerPc.noConfusion⟩

/-- A step of the thread at work leaves the flags, the counters and the reserved bank
alone. -/
theorem State.Flags.of_active {s s' : State} (h : s.Flags)
    (hactive : (s.threads s.created).Active) (hpending : s'.Outstanding)
    (hconsumer : s'.consumer = s.consumer) (hcount : s'.pipeline.bankCount = s.pipeline.bankCount)
    (hflags : ∀ b, (s'.pipeline.banks b).available = (s.pipeline.banks b).available)
    (hremaining : s'.pipeline.bankRemaining = s.pipeline.bankRemaining)
    (hcall : s'.pipeline.worker.call = s.pipeline.worker.call) (hcreated : s'.created = s.created)
    (hcalls : ∀ id call, s'.history.calls id = some call → id ≤ s.created ∧
      (id = s.created → call.bankId = s.pipeline.worker.call.bankId)) : s'.Flags := by
  have hreserved : ∀ b, s'.Reserved b ↔ s.Reserved b := by
    intro b
    rw [Reserved, Reserved, hconsumer, hcall]
    exact or_congr_right (and_congr_left fun _ => iff_of_true (.inr hpending) (.inr (.inl hactive)))
  refine ⟨fun b hb => ?_, fun id call hsome => ?_, by rw [hconsumer]; exact h.steady⟩
  · rw [hflags, hremaining, hreserved]
    exact h.flag b (hcount ▸ hb)
  · obtain ⟨hle, hbank⟩ := hcalls id call hsome
    rw [hcreated, hcall]
    exact ⟨hle, fun heq _ => hbank heq⟩

@[simp] theorem available_writeBank (s : State) (bankId : ℕ) (contents : BankContents) (b : ℕ) :
    ((s.writeBank bankId contents).pipeline.banks b).available =
      (s.pipeline.banks b).available := by
  show (Function.update s.pipeline.banks bankId
    { s.pipeline.banks bankId with toBankContents := contents } b).available = _
  by_cases hb : b = bankId
  · subst b
    rw [Function.update_self]
  · rw [Function.update_of_ne hb]

theorem State.Flags.calls_of_active {s : State} (h : s.Flags)
    (hactive : (s.threads s.created).Active) (id : ℕ) (call : GenerateCall)
    (hsome : s.history.calls id = some call) : id ≤ s.created ∧
      (id = s.created → call.bankId = s.pipeline.worker.call.bankId) :=
  ⟨(h.calls id call hsome).1, fun heq => (h.calls id call hsome).2 heq (.inl hactive)⟩

theorem flags_threadStep {id : ℕ} {s s' : State} (hsound : s.Sound) (h : s.Flags)
    (hs : threadStep id s = some s') : s'.Flags := by
  cases hpc : s.threads id <;> simp only [threadStep, hpc] at hs
  case absent | generating | exited => contradiction
  all_goals
    have hactive : (s.threads id).Active := by rw [hpc]; trivial
    obtain rfl := hsound.protocol.eq_created hactive
    have hcalls := h.calls_of_active hactive
    cases hs
  case entry =>
    refine h.of_active hactive (moveThread_outstanding (s.readCall s.created) trivial) rfl rfl
      (fun _ => rfl) rfl rfl rfl fun other call hsome => ?_
    by_cases hother : other = s.created
    · subst other
      have hread : Function.update s.history.calls s.created (some s.pipeline.worker.call)
          s.created = some call := hsome
      rw [Function.update_self, Option.some.injEq] at hread
      exact ⟨le_rfl, fun _ => by rw [← hread]⟩
    · have hkept : Function.update s.history.calls s.created (some s.pipeline.worker.call)
          other = some call := hsome
      rw [Function.update_of_ne hother] at hkept
      exact hcalls other call hkept
  case storeDone =>
    exact h.of_active hactive (.inr rfl) rfl rfl (fun _ => rfl) rfl rfl rfl hcalls
  case storeInFlight =>
    have hdone : s.pipeline.worker.done = true := (hsound.protocol.done_iff hactive).mpr hpc
    exact h.of_active hactive (.inr hdone) rfl rfl (fun _ => rfl) rfl rfl rfl hcalls

theorem flags_threadWrite {id : ℕ} {contents : BankContents} {s s' : State} (hsound : s.Sound)
    (h : s.Flags) (hs : threadWrite id contents s = some s') : s'.Flags := by
  cases hpc : s.threads id <;> simp only [threadWrite, hpc] at hs
  case generating call =>
    have hactive : (s.threads id).Active := by rw [hpc]; trivial
    obtain rfl := hsound.protocol.eq_created hactive
    cases hs
    exact h.of_active hactive (.inl hactive) rfl rfl (available_writeBank s _ contents) rfl rfl rfl
      (h.calls_of_active hactive)
  all_goals contradiction

theorem flags_threadGenerated {id : ℕ} {result : ℤ} {contents : BankContents} {s s' : State}
    (hsound : s.Sound) (h : s.Flags) (hs : threadGenerated id result contents s = some s') :
    s'.Flags := by
  cases hpc : s.threads id <;> simp only [threadGenerated, hpc] at hs
  case generating call =>
    have hactive : (s.threads id).Active := by rw [hpc]; trivial
    obtain rfl := hsound.protocol.eq_created hactive
    cases hs
    exact h.of_active hactive (moveThread_outstanding ((s.storeResult s.created call.bankId result
      contents).writeBank call.bankId contents) trivial) rfl rfl
      (available_writeBank (s.storeResult s.created call.bankId result contents) _ contents) rfl
      rfl rfl (h.calls_of_active hactive)
  all_goals contradiction

theorem flags_step {a : Action} {s s' : State} (hsound : s.Sound) (hunpending : s.Unpending)
    (h : s.Flags) (hok : FlagsKept a s) (hs : step a s = some s') : s'.Flags := by
  cases a with
  | acquire nullArgument =>
      simp only [step, beginAcquire] at hs
      split at hs
      · rename_i hpc
        split at hs <;> cases hs <;>
          exact h.of_sameBanks ⟨rfl, fun _ => rfl, rfl, rfl, rfl, rfl, rfl, rfl⟩ (by rw [hpc]; rfl)
            (by rw [hpc]; rfl) ⟨ConsumerPc.noConfusion, ConsumerPc.noConfusion⟩
      · contradiction
  | destroy =>
      simp only [step, beginDestroy] at hs
      split at hs
      · rename_i hpc
        cases hs
        exact h.of_sameBanks ⟨rfl, fun _ => rfl, rfl, rfl, rfl, rfl, rfl, rfl⟩ (by rw [hpc]; rfl)
          (by rw [hpc]; rfl) ⟨ConsumerPc.noConfusion, ConsumerPc.noConfusion⟩
      · contradiction
  | consumer starts => exact flags_consumerStep hsound hunpending h hok hs
  | thread id => exact flags_threadStep hsound h hs
  | write id contents => exact flags_threadWrite hsound h hs
  | generated id result contents => exact flags_threadGenerated hsound h hs

theorem Initialised.flags {pipeline : SokoFalconRefillPipeline} (h : Initialised pipeline) :
    (pipeline.banks 0).available = false ∧ (pipeline.banks 1).available = true ∧
      pipeline.bankRemaining = Function.update (fun _ => 0) 0 (pipeline.tokensPerBank : ℤ) := by
  obtain ⟨args, allocs, hinit⟩ := h
  have hsome : (sokoFalconRefillPipelineInit args allocs).2 = some pipeline := by rw [hinit]
  unfold sokoFalconRefillPipelineInit at hsome
  split at hsome
  · dsimp only at hsome
    split_ifs at hsome
    · split at hsome
      · contradiction
      · split at hsome
        · contradiction
        · obtain rfl := Option.some.inj hsome
          exact ⟨rfl, rfl, rfl⟩
  · contradiction

theorem flags_initial {pipeline : SokoFalconRefillPipeline} (h : Initialised pipeline)
    (hbanks : ∀ b, 2 ≤ b → b < pipeline.bankCount → (pipeline.banks b).available = true) :
    (State.initial pipeline).Flags := by
  obtain ⟨htokens, -, hworker, -⟩ := h.spec
  obtain ⟨hfirst, hsecond, hremaining⟩ := h.flags
  have hnone : ∀ b, ¬ (State.initial pipeline).Reserved b := by
    rintro b (⟨args, hsome, -⟩ | ⟨hstart | hactive | hdone, -⟩)
    · exact absurd hsome nofun
    · exact absurd hstart id
    · exact absurd hactive id
    · have hclear : pipeline.worker.done = false := congrArg SokoRefillWorker.done hworker
      exact absurd (hclear.symm.trans hdone) nofun
  refine ⟨fun b hb => ?_, nofun, ⟨ConsumerPc.noConfusion, ConsumerPc.noConfusion⟩⟩
  rw [and_iff_left (hnone b)]
  show (pipeline.banks b).available = true ↔ pipeline.bankRemaining b = 0
  rw [hremaining]
  match b, hb with
  | 0, _ =>
      rw [hfirst, Function.update_self]
      exact iff_of_false Bool.false_ne_true (by omega)
  | 1, _ => exact iff_of_true hsecond rfl
  | b + 2, hb => exact iff_of_true (hbanks (b + 2) (by omega) hb) rfl

theorem uncollected_iff {s : State} (hprov : s.Provenance) (hcollects : s.Collects) (id : ℕ) :
    s.Uncollected id ↔ id = s.created ∧ s.Outstanding := by
  constructor
  · rintro ⟨hpos, hle, hnot, hnot'⟩
    by_contra hlast
    have hcollected := hcollects.collected id hpos hle fun heq hout => hlast ⟨heq, hout⟩
    rcases hcollected with ⟨-, hcount, -⟩ | ⟨code, -, -, -, hreported⟩
    · rw [List.count_eq_zero.mpr hnot] at hcount
      exact absurd hcount (by decide)
    · have hmem : (id, code) ∈ s.history.reported.filter fun report => report.1 = id := by
        rw [hreported]
        exact List.mem_singleton_self _
      exact hnot' _ (List.mem_filter.mp hmem).1 rfl
  · rintro ⟨rfl, hout⟩
    have hlt := hprov.numbered.lt_created hout
    refine ⟨hlt 0 List.mem_cons_self, le_rfl, fun hmem => ?_, fun report hmem => ?_⟩
    · exact absurd (hlt _ (List.mem_cons_of_mem 0 hmem)) (lt_irrefl _)
    · exact (hcollects.reported_lt hout report hmem).ne

/-- In a run without lost completions, failed thread creations and collected failures, of
a pipeline whose further banks came with their flags set, the flags tell at each return
which banks are empty and not being refilled. -/
theorem availabilityTracked_of_flagsKept {pipeline : SokoFalconRefillPipeline} {s : State}
    (hbanks : ∀ b, 2 ≤ b → b < pipeline.bankCount → (pipeline.banks b).available = true)
    (h : Run FlagsKept pipeline s) (hreturned : s.consumer = .outside) :
    s.AvailabilityTracked := by
  obtain ⟨-, hcollects⟩ := (h.mono fun _ _ hok => hok.1).collects
  obtain ⟨-, hflags⟩ := h.induct (fun s => s.Unpending ∧ s.Flags)
    ⟨.of_elsewhere rfl id, flags_initial h.1 hbanks⟩
    fun a s s' hsound _ hI hok hs _ => ⟨unpending_step hsound.protocol hI.1 hok.1 hs,
      flags_step hsound hI.1 hI.2 hok hs⟩
  intro b hb
  rw [hflags.flag b hb]
  refine and_congr_right fun _ => not_congr ?_
  -- between the calls a refill is pending exactly if its thread is outstanding
  have hpending : s.Pending ↔ s.Outstanding := by
    rw [Pending, hreturned]
    exact ⟨fun hpend => hpend.resolve_left id, .inr⟩
  rw [Reserved, hreturned, hpending]
  constructor
  · rintro (⟨args, hsome, -⟩ | ⟨hout, rfl⟩)
    · exact absurd hsome nofun
    · refine ⟨s.created, (uncollected_iff h.provenance hcollects _).mpr ⟨rfl, hout⟩, ?_⟩
      rw [refillBank]
      cases hcall : s.history.calls s.created with
      | none => rfl
      | some call => exact (hflags.calls _ call hcall).2 rfl hout
  · rintro ⟨id, huncollected, rfl⟩
    obtain ⟨rfl, hout⟩ := (uncollected_iff h.provenance hcollects _).mp huncollected
    refine .inr ⟨hout, ?_⟩
    rw [refillBank]
    cases hcall : s.history.calls s.created with
    | none => rfl
    | some call => exact ((hflags.calls _ call hcall).2 rfl hout).symm

theorem availabilityTracked_of_flagsKept_twoTokens :
    ∃ s, execute step FlagsKept twoTokens (.initial (twoBankPipeline 0)) = some s ∧
      s.consumer = .outside ∧ s.AvailabilityTracked := by
  refine ⟨_, rfl, rfl, availabilityTracked_of_flagsKept (fun b hlow hb => ?_)
    (.of_execute twoTokens (initialised_twoBankPipeline 0) rfl) rfl⟩
  have hb : b < 2 := hb
  omega

/-- An `acquire` whose thread creation fails. -/
def failedStart : List Action := .acquire false :: List.replicate 9 (.consumer false)

/-- Bank 1 is empty and no refill was ever launched, but its flag is clear. -/
theorem not_availabilityTracked_failedStart :
    ∃ s, execute step anyAction failedStart (.initial (twoBankPipeline 1)) = some s ∧
      s.consumer = .outside ∧ s.lastReturn = some (-213) ∧ s.created = 0 ∧
      (s.pipeline.banks 1).available = false ∧ s.pipeline.bankRemaining 1 = 0 ∧
      ¬ s.AvailabilityTracked := by
  refine ⟨_, rfl, rfl, rfl, rfl, rfl, rfl, fun htracked => ?_⟩
  have hset := (htracked 1 (by decide)).mpr ⟨rfl, by
    rintro ⟨id, ⟨hpos, hle, -⟩, -⟩
    exact absurd hpos (Nat.not_lt.mpr hle)⟩
  exact absurd hset Bool.false_ne_true

end Soko.Pipeline
