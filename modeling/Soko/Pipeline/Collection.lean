import Soko.Pipeline.Provenance

/-!
Whether every refill is collected. `acquire` loads `done` in
`soko_finish_completed_refill` and `in_flight` later; a worker that executes both
its stores in between makes the start of the next refill possible although the
last one was not collected. `soko_start_refill_worker` then clears `done` and
overwrites the handle, and the tokens of that refill are lost. `CompletionSeen`
is the condition that this does not happen at a step, and in runs whose steps all
meet it every refill is collected once.
-/

namespace Soko.Pipeline

open Soko.Library Handshake

/-- The refill was collected once: enqueued when its generation succeeded, and
otherwise its result returned. -/
def History.Collected (h : History) (id : ℕ) : Prop :=
  (h.outcome id = some 0 ∧ h.enqueued.count id = 1 ∧
    h.reported.filter (fun report => report.1 = id) = []) ∨
  ∃ code, code ≠ 0 ∧ h.outcome id = some code ∧ h.enqueued.count id = 0 ∧
    h.reported.filter (fun report => report.1 = id) = [(id, code)]

/-- When `acquire` is about to start a refill because of its load of
`in_flight`, no completion waits to be seen. -/
def CompletionSeen (a : Action) (s : State) : Prop :=
  match a with
  | .consumer _ =>
      s.consumer = .acquireLoadInFlight →
        (s.pipeline.queue.count : ℤ) ≤ s.pipeline.refillThreshold →
        s.pipeline.worker.inFlight = false → s.pipeline.worker.done = false
  | _ => True

instance (a : Action) (s : State) : Decidable (CompletionSeen a s) :=
  match a with
  | .consumer _ => inferInstanceAs (Decidable (_ → _ → _ → _))
  | .acquire _ | .destroy | .thread _ | .write _ _ | .generated _ _ _ => isTrue trivial

namespace State

/-- Every launched refill is collected exactly once. -/
structure CollectsOnce (s : State) : Prop where
  /-- A thread is only created when all earlier refills were collected. -/
  launch : s.consumer = .startThread → ∀ id, 0 < id → id ≤ s.created → s.history.Collected id
  /-- A refill is collected, unless it is the latest and still outstanding. -/
  collected : ∀ id, 0 < id → id ≤ s.created →
    s.history.Collected id ∨ (id = s.created ∧ s.Outstanding)
  /-- The handle was joined and closed before it is overwritten. -/
  handle : s.consumer = .startThread → s.pipeline.worker.thread = none

/-- `soko_start_refill_worker` is only executed with nothing to collect. -/
structure Unpending (s : State) : Prop where
  args : ∀ args, s.consumer.startArgs = some args → s.handshake.Unlaunched
  thread : s.consumer = .startStoreInFlight ∨ s.consumer = .startStoreStarted ∨
    s.consumer = .startThread → s.pipeline.worker.thread = none

structure Collects (s : State) : Prop where
  reported_le : ∀ report ∈ s.history.reported, report.1 ≤ s.created
  reported_lt : s.Outstanding → ∀ report ∈ s.history.reported, report.1 < s.created
  collected : ∀ id, 0 < id → id ≤ s.created → (id = s.created → ¬ s.Outstanding) →
    s.history.Collected id

end State

open State

theorem State.Unpending.of_elsewhere {s : State} (hargs : s.consumer.startArgs = none)
    (hstarting : ¬ s.consumer.Starting) : s.Unpending where
  args := ConsumerPc.forall_startArgs hargs
  thread h := by
    obtain hpc | hpc | hpc := h <;> rw [hpc] at hstarting <;> exact absurd trivial hstarting

theorem finishCollect_unpending (s : State) (call : FinishCall) :
    (s.finishCollect call).Unpending := by
  unfold finishCollect
  split
  · exact .of_elsewhere rfl id
  · split
    · exact .of_elsewhere rfl id
    · cases call <;> exact .of_elsewhere rfl id

theorem unpending_consumerStep {starts : Bool} {s s' : State} (hproto : s.Protocol)
    (h : s.Unpending) (hok : CompletionSeen (.consumer starts) s)
    (hs : consumerStep starts s = some s') : s'.Unpending := by
  have hphase := hproto.phase
  cases hpc : s.consumer <;> simp only [consumerStep, hpc] at hs hphase
  case outside | destroyed => contradiction
  case finishLoadDone call =>
    cases call <;> split at hs <;> cases hs <;> exact .of_elsewhere rfl id
  case joinLoadStarted caller =>
    cases caller <;> split at hs <;> cases hs <;> exact .of_elsewhere rfl id
  case joinStoreStarted caller =>
    cases hs
    cases caller <;> exact .of_elsewhere rfl id
  case finishStoreDone call =>
    cases hs
    exact finishCollect_unpending (s.storeDone false) call
  case acquireLoadInFlight =>
    split at hs
    · rename_i hcond
      split at hs <;> cases hs
      · refine ⟨fun _ _ => ?_, fun hat => ?_⟩
        · have hdone := hok hpc hcond.1 hcond.2
          exact (hphase.of_inFlight hcond.2).resolve_right fun hf =>
            Bool.false_ne_true (hdone.symm.trans hf.done)
        · obtain hat | hat | hat := hat <;> contradiction
      · exact .of_elsewhere rfl id
    · cases hs
      exact .of_elsewhere rfl id
  case startLoadInFlight args =>
    split at hs <;> cases hs
    · exact .of_elsewhere rfl id
    · refine ⟨fun _ _ => h.args args (by rw [hpc]; rfl), fun hat => ?_⟩
      obtain hat | hat | hat := hat <;> contradiction
  case startStoreDone args =>
    cases hs
    exact ⟨ConsumerPc.forall_startArgs rfl, fun _ => (h.args args (by rw [hpc]; rfl)).thread⟩
  case startStoreInFlight =>
    cases hs
    exact ⟨ConsumerPc.forall_startArgs rfl, fun _ => h.thread (.inl hpc)⟩
  case startStoreStarted =>
    cases hs
    exact ⟨ConsumerPc.forall_startArgs rfl, fun _ => h.thread (.inr (.inl hpc))⟩
  case acquirePop =>
    cases hs
    obtain ⟨-, -, hpoint⟩ := popToken_handshake s
    exact .of_elsewhere (by rw [hpoint]; rfl) (by rw [hpoint]; exact id)
  case startFailStoreInFlight | startFailStoreStarted =>
    cases hs
    exact .of_elsewhere rfl id
  case joinWait | startThread | waitHead | waitLoadDone | destroyLoadStarted =>
    split at hs <;> cases hs <;> exact .of_elsewhere rfl id

/-- The steps of a thread at work: the consumer is not about to start a refill. -/
theorem State.Unpending.of_active {s s' : State} (h : s.Unpending)
    (hactive : (s.threads s.created).Active) (hconsumer : s'.consumer = s.consumer)
    (hthread : s'.pipeline.worker.thread = s.pipeline.worker.thread) : s'.Unpending where
  args args hsome := by
    rw [hconsumer] at hsome
    exact absurd hactive (h.args args hsome).idle
  thread := by
    rw [hconsumer, hthread]
    exact h.thread

theorem unpending_step {a : Action} {s s' : State} (hproto : s.Protocol) (h : s.Unpending)
    (hok : CompletionSeen a s) (hs : step a s = some s') : s'.Unpending := by
  have hlatest : ∀ {id}, (s.threads id).Active → (s.threads s.created).Active := by
    intro id hactive
    rwa [← hproto.eq_created hactive]
  cases a with
  | acquire nullArgument =>
      simp only [step, beginAcquire] at hs
      split at hs
      · split at hs <;> cases hs <;> exact .of_elsewhere rfl id
      · contradiction
  | destroy =>
      simp only [step, beginDestroy] at hs
      split at hs <;> cases hs
      exact .of_elsewhere rfl id
  | consumer starts => exact unpending_consumerStep hproto h hok hs
  | thread id =>
      cases hpc : s.threads id <;> simp only [step, threadStep, hpc] at hs
      case absent | generating | exited => contradiction
      all_goals
        cases hs
        exact h.of_active (hlatest (by rw [hpc]; trivial)) rfl rfl
  | write id contents | generated id result contents =>
      cases hpc : s.threads id <;> simp only [step, threadWrite, threadGenerated, hpc] at hs
      case generating call =>
        cases hs
        exact h.of_active (hlatest (by rw [hpc]; trivial)) rfl rfl
      all_goals contradiction

/-- What was collected stays so when another refill is. -/
theorem History.Collected.of_same {h h' : History} {id : ℕ} (hc : h.Collected id)
    (houtcome : h'.outcome id = h.outcome id)
    (henqueued : h'.enqueued.count id = h.enqueued.count id)
    (hreported : h'.reported.filter (fun report => report.1 = id) =
      h.reported.filter fun report => report.1 = id) : h'.Collected id := by
  rw [History.Collected, houtcome, henqueued, hreported]
  exact hc

/-- The latest refill is not reported before it is collected. -/
theorem State.Collects.reported_filter {s : State} (h : s.Collects) (hout : s.Outstanding) :
    s.history.reported.filter (fun report => report.1 = s.created) = [] := by
  rw [List.filter_eq_nil_iff]
  intro report hr
  simpa using (h.reported_lt hout report hr).ne

theorem collects_report {s : State} (hprov : s.Provenance) (h : s.Collects)
    (hdone : s.pipeline.worker.done = true) (hexited : s.threads s.created = .exited)
    (hresult : s.pipeline.worker.result ≠ 0) :
    ((s.storeDone false).reportFailure.acquireReturn s.pipeline.worker.result).Collects := by
  refine ⟨?_, fun hout => absurd hout (not_outstanding (idle_of_exited hexited) rfl),
    fun id hpos hle _ => ?_⟩
  · intro report hr
    obtain hr | hr := List.mem_append.mp hr
    · exact h.reported_le report hr
    · rw [List.mem_singleton.mp hr]
      exact le_rfl
  · by_cases hid : id = s.created
    · subst id
      refine .inr ⟨_, hresult, hprov.latest.outcome (.inr hdone),
        hprov.numbered.enqueued_count (.inr hdone), ?_⟩
      have happend : (s.history.reported ++ [(s.created, s.pipeline.worker.result)]).filter
          (fun report => report.1 = s.created) = [(s.created, s.pipeline.worker.result)] := by
        rw [List.filter_append, h.reported_filter (.inr hdone)]
        simp
      exact happend
    · refine (h.collected id hpos hle fun heq => absurd heq hid).of_same rfl rfl ?_
      have happend : (s.history.reported ++ [(s.created, s.pipeline.worker.result)]).filter
          (fun report => report.1 = id) =
            s.history.reported.filter fun report => report.1 = id := by
        rw [List.filter_append]
        simp [Ne.symm hid]
      exact happend

theorem collects_collect {s : State} (hprov : s.Provenance) (h : s.Collects)
    (queue : SokoTokenQueue) (hdone : s.pipeline.worker.done = true)
    (hexited : s.threads s.created = .exited) (hresult : s.pipeline.worker.result = 0) :
    ((s.storeDone false).collectRefill queue).Collects := by
  refine ⟨h.reported_le, fun hout => absurd hout (not_outstanding (idle_of_exited hexited) rfl),
    fun id hpos hle _ => ?_⟩
  by_cases hid : id = s.created
  · subst id
    have hcount : (s.history.enqueued ++ [s.created]).count s.created = 1 := by
      rw [List.count_append, hprov.numbered.enqueued_count (.inr hdone)]
      simp
    have houtcome := hprov.latest.outcome (.inr hdone)
    rw [hresult] at houtcome
    exact .inl ⟨houtcome, hcount, h.reported_filter (.inr hdone)⟩
  · refine (h.collected id hpos hle fun heq => absurd heq hid).of_same rfl ?_ rfl
    have happend : (s.history.enqueued ++ [s.created]).count id =
        s.history.enqueued.count id := by
      rw [List.count_append]
      simp [Ne.symm hid]
    exact happend

theorem collects_consumerEffect {s s' : State} (hprov : s.Provenance) (hunpending : s.Unpending)
    (h : s.Collects) (he : ConsumerEffect s s') : s'.Collects := by
  cases he with
  | quiet hq =>
      have hout : s.Outstanding → s'.Outstanding := by
        rintro (hactive | hdone)
        · left
          rwa [hq.threads, hq.created]
        · obtain hdone' | ⟨args, hpc⟩ := hq.doneKept hdone
          · exact .inr hdone'
          · have hunlaunched := hunpending.args args (by rw [hpc]; rfl)
            exact absurd (hunlaunched.done.symm.trans hdone) nofun
      have hout' : s'.Outstanding → s.Outstanding := by
        rintro (hactive | hdone)
        · left
          rwa [hq.threads, hq.created] at hactive
        · exact .inr (hq.done hdone)
      refine ⟨by rw [hq.history, hq.created]; exact h.reported_le, ?_, ?_⟩
      · rw [hq.history, hq.created]
        exact fun hs' => h.reported_lt (hout' hs')
      · rw [hq.history, hq.created]
        exact fun id hpos hle hnot => h.collected id hpos hle fun heq hs => hnot heq (hout hs)
  | launch hidle hdone =>
      have hnot : ¬ s.Outstanding := not_outstanding hidle hdone
      refine ⟨fun report hr => (h.reported_le report hr).trans (Nat.le_succ _),
        fun _ report hr => Nat.lt_succ_of_le (h.reported_le report hr), fun id hpos hle hlast => ?_⟩
      by_cases hid : id = s.created + 1
      · refine absurd (.inl ?_) (hlast hid)
        rw [createThread_latest]
        trivial
      · have hle : id ≤ s.created + 1 := hle
        exact h.collected id hpos (by omega) fun _ => hnot
  | report hdone hexited hresult => exact collects_report hprov h hdone hexited hresult
  | @collect call queue hdone hexited hresult =>
      obtain ⟨hle, hlt, hcollected⟩ := collects_collect hprov h queue hdone hexited hresult
      cases call <;> exact ⟨hle, hlt, hcollected⟩
  | pop => exact ⟨h.reported_le, h.reported_lt, h.collected⟩

theorem moveThread_outstanding (s : State) {pc : ThreadPc} (hpc : pc.Active) :
    (s.moveThread s.created pc).Outstanding := by
  left
  show (Function.update s.threads s.created pc s.created).Active
  rw [Function.update_self]
  exact hpc

/-- A step of the thread at work changes nothing for the earlier refills. -/
theorem State.Collects.of_active {s s' : State} (h : s.Collects)
    (hactive : (s.threads s.created).Active) (hout : s'.Outstanding)
    (hcreated : s'.created = s.created) (hreported : s'.history.reported = s.history.reported)
    (hkeep : ∀ id, id ≠ s.created → s.history.Collected id → s'.history.Collected id) :
    s'.Collects where
  reported_le := by
    rw [hreported, hcreated]
    exact h.reported_le
  reported_lt _ := by
    rw [hreported, hcreated]
    exact h.reported_lt (.inl hactive)
  collected id hpos hle hlast := by
    have hid : id ≠ s.created := fun heq => hlast (heq.trans hcreated.symm) hout
    rw [hcreated] at hle
    exact hkeep id hid (h.collected id hpos hle fun heq => absurd heq hid)

theorem collects_effect {s s' : State} (hsound : s.Sound) (hprov : s.Provenance)
    (hunpending : s.Unpending) (h : s.Collects) (he : StepEffect s s') : s'.Collects := by
  cases he with
  | enter | rejectNull | destroy | write => exact ⟨h.reported_le, h.reported_lt, h.collected⟩
  | consumer he => exact collects_consumerEffect hprov hunpending h he
  | read hpc =>
      exact h.of_active (by rw [hpc]; trivial)
        (moveThread_outstanding (s.readCall s.created) trivial) rfl rfl fun _ _ hc => hc
  | @generated call result contents hpc =>
      refine h.of_active (by rw [hpc]; trivial) (moveThread_outstanding ((s.storeResult s.created
        call.bankId result contents).writeBank call.bankId contents) trivial) rfl rfl ?_
      exact fun id hid hc => hc.of_same (Function.update_of_ne hid _ _) rfl rfl
  | storeDone hpc =>
      exact h.of_active (by rw [hpc]; trivial) (.inr rfl) rfl rfl fun _ _ hc => hc
  | storeInFlight hpc =>
      have hdone : s.pipeline.worker.done = true :=
        (hsound.protocol.done_iff (by rw [hpc]; trivial)).mpr hpc
      exact h.of_active (by rw [hpc]; trivial) (.inr hdone) rfl rfl fun _ _ hc => hc

theorem Run.collects {pipeline : SokoFalconRefillPipeline} {s : State}
    (h : Run CompletionSeen pipeline s) : s.Unpending ∧ s.Collects := by
  suffices hall : s.Provenance ∧ s.Unpending ∧ s.Collects from hall.2
  refine h.induct (fun s => s.Provenance ∧ s.Unpending ∧ s.Collects) ⟨provenance_initial h.1,
    .of_elsewhere rfl id, nofun, nofun, fun id hpos hle => ?_⟩ ?_
  · have hle : id ≤ 0 := hle
    omega
  · rintro a s s' hsound - ⟨hprov, hunpending, hcollects⟩ hok hs he
    exact ⟨provenance_effect hsound hprov he, unpending_step hsound.protocol hunpending hok hs,
      collects_effect hsound hprov hunpending hcollects he⟩

/-- In a run whose steps all meet `CompletionSeen` every refill is collected
exactly once. -/
theorem collectsOnce_of_completionSeen {pipeline : SokoFalconRefillPipeline} {s : State}
    (h : Run CompletionSeen pipeline s) : s.CollectsOnce := by
  obtain ⟨hunpending, hcollects⟩ := h.collects
  constructor
  case launch =>
    intro hpc id hpos hle
    have hphase := h.sound.protocol.phase
    rw [hpc] at hphase
    exact hcollects.collected id hpos hle fun _ => not_outstanding hphase.1.idle hphase.1.done
  case collected =>
    intro id hpos hle
    by_cases hlast : id = s.created ∧ s.Outstanding
    · exact .inr hlast
    · exact .inl (hcollects.collected id hpos hle fun heq hout => hlast ⟨heq, hout⟩)
  case handle => exact fun hpc => hunpending.thread (.inr (.inr hpc))

theorem collectsOnce_of_completionSeen_twoTokens :
    ∃ s, execute step CompletionSeen twoTokens (.initial (twoBankPipeline 0)) = some s ∧
      s.history.enqueued = [1] ∧ s.CollectsOnce :=
  ⟨_, rfl, rfl, collectsOnce_of_completionSeen
    (.of_execute twoTokens (initialised_twoBankPipeline 0) rfl)⟩

/-- The second `acquire` finds refill 1 not done; both its stores are executed
before `in_flight` is loaded, and refill 2 is started. -/
def lostCompletion : List Action :=
  .acquire false :: List.replicate 9 (.consumer true) ++
    [.acquire false, .consumer true, .thread 1,
      .generated 1 0 ⟨fun _ => 0, fun _ => 0, fun _ => 0⟩, .thread 1, .thread 1] ++
    List.replicate 5 (.consumer true)

/-- Refill 1 has succeeded, it is not collected, and its handle is about to be
overwritten. -/
theorem not_collectsOnce_lostCompletion :
    ∃ s, execute step anyAction lostCompletion (.initial (twoBankPipeline 1)) = some s ∧
      s.consumer = .startThread ∧ s.created = 1 ∧ s.history.outcome 1 = some 0 ∧
      s.history.enqueued = [] ∧ s.history.reported = [] ∧
      s.pipeline.worker.thread = some 1 ∧ s.pipeline.worker.done = false ∧ ¬ s.CollectsOnce := by
  refine ⟨_, rfl, rfl, rfl, rfl, rfl, rfl, rfl, rfl, fun h => ?_⟩
  exact absurd (h.handle rfl) nofun

end Soko.Pipeline
