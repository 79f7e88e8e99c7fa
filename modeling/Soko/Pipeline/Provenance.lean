import Soko.Pipeline.Effects

/-!
Where the tokens that `acquire` hands out come from. Each is the next one of the
stream that starts with the tokens of bank 0 and goes on with those of every
refill, in the order in which the refills were enqueued; the queue is the part
of the stream that was not handed out.
-/

namespace Soko.Pipeline

open Soko.Library Handshake

def fillTokens (tokens fill : ℕ) : List (ℕ × ℕ) := (List.range tokens).map fun i => (fill, i)

def tokenStream (tokens : ℕ) (fills : List ℕ) : List (ℕ × ℕ) :=
  fills.flatMap (fillTokens tokens)

@[simp] theorem tokenStream_append_singleton (tokens : ℕ) (fills : List ℕ) (fill : ℕ) :
    tokenStream tokens (fills ++ [fill]) = tokenStream tokens fills ++ fillTokens tokens fill := by
  simp [tokenStream]

theorem tokenStream_nodup (tokens : ℕ) {fills : List ℕ} (h : fills.Nodup) :
    (tokenStream tokens fills).Nodup := by
  rw [tokenStream, List.nodup_flatMap]
  constructor
  · intro fill _
    exact List.Nodup.map (fun i j hij => congrArg Prod.snd hij) List.nodup_range
  · refine h.imp fun {fill fill'} hne => ?_
    intro token hleft hright
    obtain ⟨i, -, rfl⟩ := List.mem_map.mp hleft
    obtain ⟨j, -, hj⟩ := List.mem_map.mp hright
    exact hne (congrArg Prod.fst hj).symm

namespace State

/-- The token a reference in the queue stands for. -/
def tokenOf (s : State) (ref : SokoTokenRef) : ℕ × ℕ :=
  (s.history.fillOf ref.bankId, ref.tokenIndex)

/-- What was handed out and what is in the queue make up the stream. -/
def Streamed (s : State) : Prop :=
  s.history.returned ++ s.pipeline.queue.toList.map s.tokenOf =
    tokenStream s.pipeline.tokensPerBank (0 :: s.history.enqueued)

/-- The worker fields belong to the latest refill, once it has generated. -/
structure Latest (s : State) : Prop where
  fill : s.Generated → s.history.fillOf s.pipeline.worker.call.bankId = s.created
  outcome : s.Generated → s.history.outcome s.created = some s.pipeline.worker.result

/-- A refill was launched and its end was neither collected nor lost. -/
def Outstanding (s : State) : Prop :=
  (s.threads s.created).Active ∨ s.pipeline.worker.done = true

/-- Refills are enqueued in the order of their numbers, each at most once. -/
structure Numbered (s : State) : Prop where
  ordered : (0 :: s.history.enqueued).Pairwise (· < ·)
  le_created : ∀ f ∈ s.history.enqueued, f ≤ s.created
  lt_created : s.Outstanding → ∀ f ∈ 0 :: s.history.enqueued, f < s.created

/-- Until `acquire` returns 0 no token has left the queue. -/
def Untouched (s : State) : Prop :=
  s.lastReturn ≠ some 0 →
    s.history.queueAtEntry <+: s.pipeline.queue.toList ∧
      s.history.returned = s.history.returnedAtEntry

end State

open State

@[simp] theorem map_tokenOf_bankRefs (s : State) (bankId tokens : ℕ) :
    (bankRefs bankId 0 tokens).map s.tokenOf =
      fillTokens tokens (s.history.fillOf bankId) := by
  simp [bankRefs, fillTokens, tokenOf, List.range_eq_range', Function.comp_def]

theorem State.Latest.of_thread {s : State} (hthread : s.threads s.created ≠ .storeDone)
    (hdone : s.pipeline.worker.done = false) : s.Latest := by
  have hnot : ¬ s.Generated := by
    rintro (hstore | hset)
    · exact hthread hstore
    · rw [hdone] at hset
      contradiction
  exact ⟨fun hgen => absurd hgen hnot, fun hgen => absurd hgen hnot⟩

theorem not_outstanding {s : State} (hidle : ¬ (s.threads s.created).Active)
    (hdone : s.pipeline.worker.done = false) : ¬ s.Outstanding := by
  rintro (hactive | hset)
  · exact hidle hactive
  · exact absurd (hdone.symm.trans hset) Bool.false_ne_true

theorem idle_of_exited {pc : ThreadPc} (hexited : pc = .exited) : ¬ pc.Active := by
  rw [hexited]
  exact id

theorem State.Numbered.enqueued_count {s : State} (h : s.Numbered) (hout : s.Outstanding) :
    s.history.enqueued.count s.created = 0 := by
  rw [List.count_eq_zero]
  intro hmem
  exact absurd (h.lt_created hout _ (List.mem_cons_of_mem _ hmem)) (lt_irrefl _)

theorem createThread_latest (s : State) (pc : ConsumerPc) :
    (s.createThread.goto pc).threads (s.createThread.goto pc).created = .entry :=
  Function.update_self ..

theorem latest_consumerEffect {s s' : State} (h : s.Latest) (he : ConsumerEffect s s') :
    s'.Latest := by
  cases he with
  | quiet hq =>
      constructor
      · intro hgen
        obtain ⟨hgen, hcall, -⟩ := hq.generated hgen
        rw [hq.history, hcall, hq.created]
        exact h.fill hgen
      · intro hgen
        obtain ⟨hgen, -, hresult⟩ := hq.generated hgen
        rw [hq.history, hresult, hq.created]
        exact h.outcome hgen
  | launch hidle hdone => exact .of_thread (by rw [createThread_latest]; nofun) hdone
  | report hdone hexited =>
      exact .of_thread (fun hstore => absurd (hexited.symm.trans hstore) nofun) rfl
  | collect call hdone hexited =>
      cases call <;>
        exact .of_thread (fun hstore => absurd (hexited.symm.trans hstore) nofun) rfl
  | pop => exact ⟨h.fill, h.outcome⟩

/-- A thread at work has `done` set only before its last store. -/
theorem State.Protocol.done_iff {s : State} (h : s.Protocol)
    (hactive : (s.threads s.created).Active) :
    s.pipeline.worker.done = true ↔ s.threads s.created = .storeInFlight :=
  (h.phase.active hactive).1.done

theorem latest_effect {s s' : State} (hsound : s.Sound) (h : s.Latest) (he : StepEffect s s') :
    s'.Latest := by
  have hdone := hsound.protocol.done_iff
  cases he with
  | enter | rejectNull | destroy | write => exact ⟨h.fill, h.outcome⟩
  | consumer he => exact latest_consumerEffect h he
  | read hpc =>
      rw [hpc] at hdone
      refine .of_thread ?_
        (Bool.eq_false_iff.mpr fun hset => absurd ((hdone trivial).mp hset) nofun)
      intro hstore
      exact absurd ((moveThread_self (s.readCall s.created) _ _).symm.trans hstore) nofun
  | @generated call result contents hpc =>
      have hbank := hsound.accounting.target.generating call hpc
      have hfill : Function.update s.history.fillOf call.bankId s.created
          s.pipeline.worker.call.bankId = s.created := by
        rw [← hbank, Function.update_self]
      exact ⟨fun _ => hfill, fun _ => Function.update_self ..⟩
  | storeDone hpc => exact ⟨fun _ => h.fill (.inl hpc), fun _ => h.outcome (.inl hpc)⟩
  | storeInFlight hpc =>
      rw [hpc] at hdone
      have hset : s.pipeline.worker.done = true := (hdone trivial).mpr rfl
      exact ⟨fun _ => h.fill (.inr hset), fun _ => h.outcome (.inr hset)⟩

theorem streamed_consumerEffect {s s' : State} (hlatest : s.Latest) (h : s.Streamed)
    (he : ConsumerEffect s s') : s'.Streamed := by
  cases he with
  | quiet hq =>
      rw [Streamed, hq.history, hq.books.queue, hq.books.tokens,
        show s'.tokenOf = s.tokenOf by funext ref; rw [tokenOf, hq.history]; rfl]
      exact h
  | launch | report => exact h
  | @collect call queue hdone _ _ _ _ hlist =>
      have hcollected : s.history.returned ++ queue.toList.map s.tokenOf =
          tokenStream s.pipeline.tokensPerBank (0 :: (s.history.enqueued ++ [s.created])) := by
        rw [hlist, List.map_append, map_tokenOf_bankRefs, hlatest.fill (.inr hdone),
          ← List.append_assoc, h, ← List.cons_append, tokenStream_append_singleton]
      cases call <;> exact hcollected
  | @pop ref rest queue _ hlist hrest =>
      have hpopped : (s.history.returned ++ [s.tokenOf ref]) ++ queue.toList.map s.tokenOf =
          tokenStream s.pipeline.tokensPerBank (0 :: s.history.enqueued) := by
        rw [← h, hlist, hrest, List.map_cons, List.append_assoc, List.singleton_append]
      exact hpopped

theorem streamed_effect {s s' : State} (hsound : s.Sound) (hlatest : s.Latest) (h : s.Streamed)
    (he : StepEffect s s') : s'.Streamed := by
  cases he with
  | enter | rejectNull | destroy | read | write | storeDone | storeInFlight => exact h
  | consumer he => exact streamed_consumerEffect hlatest h he
  | @generated call result contents hpc =>
      -- The bank that is generated has no token in the queue.
      have hempty := hsound.accounting.target.call (.inr (.inl (by rw [hpc]; trivial)))
      have hbank := hsound.accounting.target.generating call hpc
      have hmap : s.pipeline.queue.toList.map
          (fun ref => (Function.update s.history.fillOf call.bankId s.created ref.bankId,
            ref.tokenIndex)) = s.pipeline.queue.toList.map s.tokenOf := by
        apply List.map_congr_left
        intro ref href
        have hpos := hsound.accounting.ledger.remaining_pos href
        have hne : ref.bankId ≠ call.bankId := by
          intro heq
          rw [heq, hbank, hempty.2] at hpos
          exact absurd hpos (lt_irrefl 0)
        rw [Function.update_of_ne hne]
        rfl
      exact (congrArg (s.history.returned ++ ·) hmap).trans h

theorem numbered_consumerEffect {s s' : State} (h : s.Numbered) (he : ConsumerEffect s s') :
    s'.Numbered := by
  cases he with
  | quiet hq =>
      refine ⟨by rw [hq.history]; exact h.ordered, ?_, ?_⟩
      · rw [hq.history, hq.created]
        exact h.le_created
      · intro hout
        rw [hq.history, hq.created]
        apply h.lt_created
        obtain hactive | hdone := hout
        · left
          rwa [hq.threads, hq.created] at hactive
        · exact .inr (hq.done hdone)
  | launch =>
      refine ⟨h.ordered, fun f hf => (h.le_created f hf).trans (Nat.le_succ _), fun _ f hf => ?_⟩
      obtain rfl | hf := List.mem_cons.mp hf
      · exact Nat.succ_pos _
      · exact Nat.lt_succ_of_le (h.le_created f hf)
  | report hdone hexited =>
      exact ⟨h.ordered, h.le_created, fun hout =>
        absurd hout (not_outstanding (idle_of_exited hexited) rfl)⟩
  | @collect call queue hdone hexited =>
      have hlt := h.lt_created (.inr hdone)
      have hordered : (0 :: (s.history.enqueued ++ [s.created])).Pairwise (· < ·) := by
        rw [← List.cons_append, List.pairwise_append]
        refine ⟨h.ordered, List.pairwise_singleton _ _, fun f hf g hg => ?_⟩
        rw [List.mem_singleton.mp hg]
        exact hlt f hf
      have hle : ∀ f ∈ s.history.enqueued ++ [s.created], f ≤ s.created := by
        intro f hf
        obtain hf | hf := List.mem_append.mp hf
        · exact h.le_created f hf
        · exact (List.mem_singleton.mp hf).le
      cases call <;>
        exact ⟨hordered, hle, fun hout =>
          absurd hout (not_outstanding (idle_of_exited hexited) rfl)⟩
  | pop => exact ⟨h.ordered, h.le_created, h.lt_created⟩

theorem numbered_effect {s s' : State} (h : s.Numbered) (he : StepEffect s s') :
    s'.Numbered := by
  have hkeep : ∀ hactive : (s.threads s.created).Active,
      ∀ f ∈ 0 :: s.history.enqueued, f < s.created := fun hactive => h.lt_created (.inl hactive)
  cases he with
  | enter | rejectNull | destroy | write => exact ⟨h.ordered, h.le_created, h.lt_created⟩
  | consumer he => exact numbered_consumerEffect h he
  | read hpc | generated _ _ hpc | storeDone hpc | storeInFlight hpc =>
      rw [hpc] at hkeep
      exact ⟨h.ordered, h.le_created, fun _ => hkeep trivial⟩

theorem untouched_consumerEffect {s s' : State} (hcalling : s.Calling) (h : s.Untouched)
    (he : ConsumerEffect s s') : s'.Untouched := by
  have hbefore : s.consumer.InAcquire → s.history.queueAtEntry <+: s.pipeline.queue.toList ∧
      s.history.returned = s.history.returnedAtEntry := by
    intro hin
    apply h
    rw [hcalling.lastReturn hin]
    nofun
  cases he with
  | quiet hq =>
      intro hcode
      rw [hq.history, hq.books.queue]
      obtain ⟨hsame, -⟩ | ⟨hin, -⟩ := hq.lastReturn
      · rw [hsame] at hcode
        exact h hcode
      · exact hbefore hin
  | launch _ _ hin => exact fun _ => hbefore hin
  | report _ _ _ hin => exact fun _ => hbefore hin
  | @collect call queue _ _ _ hin _ hlist =>
      have hleading : s.history.queueAtEntry <+: queue.toList := by
        rw [hlist]
        exact (hbefore hin).1.trans (List.prefix_append _ _)
      cases call <;> exact fun _ => ⟨hleading, (hbefore hin).2⟩
  | pop => exact fun hcode => absurd rfl hcode

theorem untouched_effect {s s' : State} (hcalling : s.Calling) (h : s.Untouched)
    (he : StepEffect s s') : s'.Untouched := by
  cases he with
  | enter | rejectNull => exact fun _ => ⟨List.prefix_rfl, rfl⟩
  | consumer he => exact untouched_consumerEffect hcalling h he
  | destroy | read | write | generated | storeDone | storeInFlight => exact h

/-- What is known of the tokens in every reachable state. -/
structure State.Provenance (s : State) : Prop where
  calling : s.Calling
  latest : s.Latest
  streamed : s.Streamed
  numbered : s.Numbered
  untouched : s.Untouched

theorem provenance_effect {s s' : State} (hsound : s.Sound) (h : s.Provenance)
    (he : StepEffect s s') : s'.Provenance where
  calling := calling_effect h.calling he
  latest := latest_effect hsound h.latest he
  streamed := streamed_effect hsound h.latest h.streamed he
  numbered := numbered_effect h.numbered he
  untouched := untouched_effect h.calling h.untouched he

theorem provenance_initial {pipeline : SokoFalconRefillPipeline} (h : Initialised pipeline) :
    (State.initial pipeline).Provenance := by
  obtain ⟨-, -, hworker, hlist, -⟩ := h.spec
  have hdone : (State.initial pipeline).pipeline.worker.done = false :=
    congrArg SokoRefillWorker.done hworker
  refine ⟨⟨nofun, nofun⟩, .of_thread nofun hdone, ?_, ⟨List.pairwise_singleton _ _, nofun,
    fun hout => absurd hout (not_outstanding id hdone)⟩, fun _ => ⟨List.nil_prefix, rfl⟩⟩
  have hqueue : (State.initial pipeline).pipeline.queue.toList =
      bankRefs 0 0 pipeline.tokensPerBank := hlist
  rw [Streamed, hqueue, map_tokenOf_bankRefs]
  simp [tokenStream, State.initial]

theorem Run.provenance {ok : Action → State → Prop} {pipeline : SokoFalconRefillPipeline}
    {s : State} (h : Run ok pipeline s) : s.Provenance :=
  h.induct Provenance (provenance_initial h.1)
    fun _ _ _ hsound _ hprov _ _ he => provenance_effect hsound hprov he

/-- No presign token is handed out twice, skipped or reordered: what `acquire`
returned so far is a prefix of the stream of bank 0 and the enqueued refills,
its tokens are all different, and an `acquire` that returns an error removes
none from the queue. -/
theorem returned_prefix_tokenStream {pipeline : SokoFalconRefillPipeline} {s : State}
    (h : Run anyAction pipeline s) :
    s.history.returned <+: tokenStream pipeline.tokensPerBank (0 :: s.history.enqueued) ∧
    s.history.returned.Nodup ∧
    ∀ code, s.lastReturn = some code → code ≠ 0 →
      s.history.queueAtEntry <+: s.pipeline.queue.toList ∧
        s.history.returned = s.history.returnedAtEntry := by
  have hprov := h.provenance
  have hleading : s.history.returned <+:
      tokenStream pipeline.tokensPerBank (0 :: s.history.enqueued) := by
    rw [show pipeline.tokensPerBank = s.pipeline.tokensPerBank from
      h.sameParameters.tokens.symm, ← hprov.streamed]
    exact List.prefix_append _ _
  refine ⟨hleading, ?_, fun code hcode hne => hprov.untouched ?_⟩
  · have hnodup : (0 :: s.history.enqueued).Nodup :=
      hprov.numbered.ordered.imp fun hlt => hlt.ne
    exact (tokenStream_nodup _ hnodup).sublist hleading.sublist
  · rw [hcode]
    exact fun heq => hne (Option.some.inj heq)

def twoTokens : List Action :=
  toWaitLoop ++ [.thread 1, .generated 1 0 ⟨fun _ => 0, fun _ => 0, fun _ => 0⟩, .thread 1,
    .thread 1] ++ List.replicate 8 (.consumer true)

theorem returned_prefix_tokenStream_twoTokens :
    ∃ s, execute step anyAction twoTokens (.initial (twoBankPipeline 0)) = some s ∧
      s.history.returned = [(0, 0), (1, 0)] ∧
      s.history.returned <+: tokenStream 1 (0 :: s.history.enqueued) ∧
      s.history.returned.Nodup ∧
      ∀ code, s.lastReturn = some code → code ≠ 0 →
        s.history.queueAtEntry <+: s.pipeline.queue.toList ∧
          s.history.returned = s.history.returnedAtEntry :=
  ⟨_, rfl, rfl, returned_prefix_tokenStream
    (.of_execute twoTokens (initialised_twoBankPipeline 0) rfl)⟩

end Soko.Pipeline
