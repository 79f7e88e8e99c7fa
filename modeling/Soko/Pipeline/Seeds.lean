import Soko.Gpu.Mixing
import Soko.Pipeline.Effects

/-!
The seeds of the refills. Every attempt to start a refill takes the next seed, whether
a thread can be created or not, so that the refill of the `k`-th attempt has the seed
`k` after that of bank 0. As long as the 32-bit counter has not come round, different
fills have different seeds, and no two tokens share an input of the generators.
-/

namespace Soko.Pipeline

open Soko.Library Soko.Gpu Handshake State

/-- `acquire` calls `soko_start_refill_worker`. -/
def Attempt (s s' : State) : Prop :=
  s.consumer = .acquireLoadInFlight ∧ s'.consumer.startArgs.isSome = true

instance decidableAttempt (s s' : State) : Decidable (Attempt s s') :=
  inferInstanceAs (Decidable (_ ∧ _))

def countedStep (a : Action) (p : State × ℕ) : Option (State × ℕ) :=
  (step a p.1).map fun s' => (s', if Attempt p.1 s' then p.2 + 1 else p.2)

/-- `s` is reached from the freshly initialised `pipeline`, with `attempts` attempts to
start a refill. -/
def CountedRun (pipeline : SokoFalconRefillPipeline) (s : State) (attempts : ℕ) : Prop :=
  Initialised pipeline ∧ Reaches countedStep anyAction (.initial pipeline, 0) (s, attempts)

/-- The seed that a fill was generated with, that of bank 0 being `seed`. -/
def State.fillSeed (seed : UInt32) (s : State) (fill : ℕ) : Option UInt32 :=
  if fill = 0 then some seed else (s.history.calls fill).map GenerateCall.seed

def seedAt (seed : UInt32) (attempt : ℕ) : UInt32 := seed + UInt32.ofNat attempt

/-- The seeds in use after `attempts` attempts; `number f` is the attempt of fill `f`. -/
structure Seeded (seed : UInt32) (number : ℕ → ℕ) (s : State) (attempts : ℕ) : Prop where
  next : s.pipeline.nextSeed = seedAt seed (attempts + 1)
  args : ∀ args, s.consumer.startArgs = some args →
    args.seed = seedAt seed attempts ∧ number s.created < attempts
  starting : s.consumer.Starting →
    s.pipeline.worker.call.seed = seedAt seed attempts ∧ number s.created < attempts
  entry : s.threads s.created = .entry →
    s.pipeline.worker.call.seed = seedAt seed (number s.created)
  calls : ∀ fill call, s.history.calls fill = some call →
    call.seed = seedAt seed (number fill) ∧ fill ≤ s.created
  increasing : ∀ fill < s.created, number fill < number (fill + 1)
  le_attempts : number s.created ≤ attempts
  zero : number 0 = 0

theorem seedAt_succ (seed : UInt32) (attempt : ℕ) :
    seedAt seed (attempt + 1) = seedAt seed attempt + 1 := by
  rw [seedAt, seedAt, UInt32.ofNat_add, UInt32.add_assoc]
  rfl

variable {seed : UInt32} {number : ℕ → ℕ} {s s' : State} {attempts : ℕ}

/-- The steps that leave the seeds and the refills alone. -/
theorem Seeded.keep (h : Seeded seed number s attempts)
    (hnext : s'.pipeline.nextSeed = s.pipeline.nextSeed)
    (hcall : s'.pipeline.worker.call = s.pipeline.worker.call)
    (hcalls : s'.history.calls = s.history.calls) (hcreated : s'.created = s.created)
    (hentry : s'.threads s.created = .entry → s.threads s.created = .entry)
    (hargs : ∀ args, s'.consumer.startArgs = some args → s.consumer.startArgs = some args)
    (hstarting : s'.consumer.Starting → s.consumer.Starting) :
    Seeded seed number s' attempts where
  next := hnext ▸ h.next
  args args hsome := hcreated ▸ h.args args (hargs args hsome)
  starting hst := by
    rw [hcall, hcreated]
    exact h.starting (hstarting hst)
  entry hthread := by
    rw [hcreated] at hthread ⊢
    rw [hcall]
    exact h.entry (hentry hthread)
  calls := by
    rw [hcalls, hcreated]
    exact h.calls
  increasing := hcreated ▸ h.increasing
  le_attempts := hcreated ▸ h.le_attempts
  zero := h.zero

/-- The steps of the consumer outside `soko_start_refill_worker` that leave the seeds
alone. -/
theorem Seeded.outside (h : Seeded seed number s attempts)
    (hnext : s'.pipeline.nextSeed = s.pipeline.nextSeed)
    (hcall : s'.pipeline.worker.call = s.pipeline.worker.call)
    (hcalls : s'.history.calls = s.history.calls) (hcreated : s'.created = s.created)
    (hthreads : s'.threads = s.threads) (hargs : s'.consumer.startArgs = none)
    (hstarting : ¬ s'.consumer.Starting) : Seeded seed number s' attempts :=
  h.keep hnext hcall hcalls hcreated (fun hentry => hthreads ▸ hentry)
    (fun _ hsome => absurd (hargs.symm.trans hsome) (by simp)) fun hst => absurd hst hstarting

theorem finishCollect_frame (s : State) (call : FinishCall) :
    (s.finishCollect call).pipeline.nextSeed = s.pipeline.nextSeed ∧
      (s.finishCollect call).pipeline.worker.call = s.pipeline.worker.call ∧
      (s.finishCollect call).history.calls = s.history.calls ∧
      (s.finishCollect call).consumer.startArgs = none ∧
      ¬ (s.finishCollect call).consumer.Starting := by
  unfold finishCollect
  split
  · exact ⟨rfl, rfl, rfl, rfl, id⟩
  · split
    · exact ⟨rfl, rfl, rfl, rfl, id⟩
    · cases call <;> exact ⟨rfl, rfl, rfl, rfl, id⟩

theorem popToken_frame (s : State) :
    s.popToken.pipeline.nextSeed = s.pipeline.nextSeed ∧
      s.popToken.pipeline.worker.call = s.pipeline.worker.call ∧
      s.popToken.history.calls = s.history.calls := by
  unfold popToken
  split <;> exact ⟨rfl, rfl, rfl⟩

/-- The next thread runs the refill of the latest attempt. -/
theorem seeded_createThread (h : Seeded seed number s attempts) (hst : s.consumer.Starting) :
    Seeded seed (Function.update number (s.created + 1) attempts) (s.createThread.goto .waitHead)
      attempts := by
  obtain ⟨hseed, hlt⟩ := h.starting hst
  have hold : ∀ fill ≤ s.created,
      Function.update number (s.created + 1) attempts fill = number fill := fun fill hfill =>
    Function.update_of_ne (by omega) _ _
  have hlatest : Function.update number (s.created + 1) attempts (s.created + 1) = attempts :=
    Function.update_self ..
  exact
    { next := h.next
      args := fun args hsome => by cases hsome
      starting := False.elim
      entry := fun _ => hseed.trans (congrArg (seedAt seed) hlatest.symm)
      calls := by
        intro fill call hcall
        obtain ⟨hfill, hle⟩ := h.calls fill call hcall
        exact ⟨(hold fill hle).symm ▸ hfill, hle.trans (Nat.le_succ _)⟩
      increasing := by
        intro fill hfill
        have hfill : fill ≤ s.created := Nat.le_of_lt_succ hfill
        rw [hold fill hfill]
        obtain hless | rfl := Nat.lt_or_eq_of_le hfill
        · rw [hold (fill + 1) hless]
          exact h.increasing fill hless
        · rw [Function.update_self]
          exact hlt
      le_attempts := hlatest.le
      zero := (hold 0 (Nat.zero_le _)).trans h.zero }

/-- An attempt: the start arguments have the seed that was next. -/
theorem Seeded.attempt (h : Seeded seed number s attempts) (bankId : ℕ) :
    Seeded seed number ((s.reserveBank bankId).goto
      (.startLoadInFlight { bankId, seed := s.pipeline.nextSeed })) (attempts + 1) where
  next := by
    rw [seedAt_succ, ← h.next]
    rfl
  args := by
    rintro args hsome
    cases hsome
    exact ⟨h.next, Nat.lt_succ_of_le h.le_attempts⟩
  starting := False.elim
  entry := h.entry
  calls := h.calls
  increasing := h.increasing
  le_attempts := h.le_attempts.trans (Nat.le_succ _)
  zero := h.zero

/-- `soko_start_refill_worker` writes the arguments for the next thread while no thread
is about to read them. -/
theorem Seeded.setCall (h : Seeded seed number s attempts) {args : StartArgs}
    (hargs : s.consumer.startArgs = some args) (hidle : ¬ (s.threads s.created).Active) :
    Seeded seed number (((s.setCall args).storeDone false).goto .startStoreInFlight) attempts where
  next := h.next
  args _ hsome := by cases hsome
  starting _ := h.args args hargs
  entry hentry := by
    have hentry : s.threads s.created = .entry := hentry
    rw [hentry] at hidle
    exact absurd trivial hidle
  calls := h.calls
  increasing := h.increasing
  le_attempts := h.le_attempts
  zero := h.zero

theorem seeded_consumerStep {starts : Bool} (hproto : s.Protocol)
    (h : Seeded seed number s attempts) (hs : consumerStep starts s = some s') :
    ∃ number', Seeded seed number' s' (if Attempt s s' then attempts + 1 else attempts) := by
  have hphase := hproto.phase
  -- `acquire` draws a seed in the step that reserves a bank, and nowhere else
  by_cases hacquire : s.consumer = .acquireLoadInFlight
  · simp only [consumerStep, hacquire] at hs
    split at hs
    · split at hs <;> cases hs
      · rename_i bankId _
        have hattempt : Attempt s ((s.reserveBank bankId).goto
            (.startLoadInFlight { bankId, seed := s.pipeline.nextSeed })) := ⟨hacquire, rfl⟩
        rw [if_pos hattempt]
        exact ⟨number, h.attempt bankId⟩
      · rw [if_neg fun hattempt => by cases hattempt.2]
        exact ⟨number, h.outside rfl rfl rfl rfl rfl rfl id⟩
    · cases hs
      rw [if_neg fun hattempt => by cases hattempt.2]
      exact ⟨number, h.outside rfl rfl rfl rfl rfl rfl id⟩
  rw [if_neg fun hattempt => hacquire hattempt.1]
  cases hpc : s.consumer <;> simp only [consumerStep, hpc] at hs hphase
  case outside | destroyed => contradiction
  case acquireLoadInFlight => exact absurd hpc hacquire
  case finishLoadDone call =>
    split at hs <;> cases hs
    · exact ⟨number, h.outside rfl rfl rfl rfl rfl rfl id⟩
    · cases call <;> exact ⟨number, h.outside rfl rfl rfl rfl rfl rfl id⟩
  case joinLoadStarted caller =>
    split at hs <;> cases hs
    · exact ⟨number, h.outside rfl rfl rfl rfl rfl rfl id⟩
    · cases caller <;> exact ⟨number, h.outside rfl rfl rfl rfl rfl rfl id⟩
  case joinWait caller =>
    split at hs <;> cases hs <;> exact ⟨number, h.outside rfl rfl rfl rfl rfl rfl id⟩
  case joinStoreStarted caller =>
    cases hs
    cases caller <;> exact ⟨number, h.outside rfl rfl rfl rfl rfl rfl id⟩
  case finishStoreDone call =>
    cases hs
    obtain ⟨hnext, hcall, hcalls, hargs, hst⟩ := finishCollect_frame (s.storeDone false) call
    obtain ⟨hhand, hthreads, -⟩ := finishCollect_handshake (s.storeDone false) call
    have hcreated := congrArg Handshake.created hhand
    exact ⟨number, h.outside hnext hcall hcalls hcreated hthreads hargs hst⟩
  case startLoadInFlight args =>
    split at hs <;> cases hs
    · exact ⟨number, h.outside rfl rfl rfl rfl rfl rfl id⟩
    · exact ⟨number, h.keep rfl rfl rfl rfl id (fun args' hsome => by rw [hpc]; exact hsome)
        False.elim⟩
  case startStoreDone args =>
    cases hs
    have hidle : ¬ (s.threads s.created).Active := hphase.elim Unlaunched.idle Finished.idle
    exact ⟨number, h.setCall (by rw [hpc]; rfl) hidle⟩
  case startStoreInFlight =>
    cases hs
    exact ⟨number, h.keep rfl rfl rfl rfl id (fun args hsome => by cases hsome)
      fun _ => by rw [hpc]; trivial⟩
  case startStoreStarted =>
    cases hs
    exact ⟨number, h.keep rfl rfl rfl rfl id (fun args hsome => by cases hsome)
      fun _ => by rw [hpc]; trivial⟩
  case startThread =>
    split at hs <;> cases hs
    · exact ⟨_, seeded_createThread h (by rw [hpc]; trivial)⟩
    · exact ⟨number, h.outside rfl rfl rfl rfl rfl rfl id⟩
  case startFailStoreInFlight | startFailStoreStarted =>
    cases hs
    exact ⟨number, h.outside rfl rfl rfl rfl rfl rfl id⟩
  case waitHead | waitLoadDone | destroyLoadStarted =>
    split at hs <;> cases hs <;> exact ⟨number, h.outside rfl rfl rfl rfl rfl rfl id⟩
  case acquirePop =>
    cases hs
    obtain ⟨hnext, hcall, hcalls⟩ := popToken_frame s
    obtain ⟨hhand, hthreads, hout⟩ := popToken_handshake s
    refine ⟨number, h.outside hnext hcall hcalls (congrArg Handshake.created hhand) hthreads ?_ ?_⟩
    · rw [hout]
      rfl
    · rw [hout]
      exact id

theorem seeded_begin (h : Seeded seed number s attempts) {a : Action}
    (ha : (∃ nullArgument, a = .acquire nullArgument) ∨ a = .destroy) (hs : step a s = some s') :
    Seeded seed number s' attempts ∧ s.consumer = .outside := by
  obtain ⟨nullArgument, rfl⟩ | rfl := ha
  · simp only [step, beginAcquire] at hs
    split at hs
    · split at hs <;> cases hs <;> exact ⟨h.outside rfl rfl rfl rfl rfl rfl id, ‹_›⟩
    · contradiction
  · simp only [step, beginDestroy] at hs
    split at hs <;> cases hs
    exact ⟨h.outside rfl rfl rfl rfl rfl rfl id, ‹_›⟩

/-- A thread reads the seed of the attempt that it was created for. -/
theorem seeded_threadStep {id : ℕ} (hproto : s.Protocol) (h : Seeded seed number s attempts)
    (hs : threadStep id s = some s') :
    Seeded seed number s' attempts ∧ s'.consumer = s.consumer := by
  cases hpc : s.threads id <;> simp only [threadStep, hpc] at hs
  case absent | generating | exited => contradiction
  all_goals
    obtain rfl := hproto.eq_created (show (s.threads id).Active by rw [hpc]; trivial)
    cases hs
  case entry =>
    have hread : ((s.readCall s.created).moveThread s.created
        (.generating s.pipeline.worker.call)).threads s.created =
          .generating s.pipeline.worker.call := Function.update_self ..
    refine ⟨{ h with entry := fun hentry => ?_, calls := fun fill call hcall => ?_ }, rfl⟩
    · exact absurd (hread.symm.trans hentry) (by simp)
    · by_cases hfill : fill = s.created
      · subst fill
        have hself : (s.readCall s.created).history.calls s.created =
            some s.pipeline.worker.call := Function.update_self ..
        obtain rfl := Option.some.inj (hself.symm.trans hcall)
        exact ⟨h.entry hpc, le_rfl⟩
      · have hother : (s.readCall s.created).history.calls fill = s.history.calls fill :=
          Function.update_of_ne hfill _ _
        exact h.calls fill call (hother.symm.trans hcall)
  case storeDone | storeInFlight =>
    refine ⟨h.keep rfl rfl rfl rfl (fun hentry => ?_) (fun _ hsome => hsome) fun hst => hst, rfl⟩
    exact absurd ((moveThread_self _ _ _).symm.trans hentry) (by simp)

theorem seeded_generating {a : Action} (hproto : s.Protocol) (h : Seeded seed number s attempts)
    (ha : (∃ id contents, a = .write id contents) ∨
      ∃ id result contents, a = .generated id result contents)
    (hs : step a s = some s') : Seeded seed number s' attempts ∧ s'.consumer = s.consumer := by
  obtain ⟨id, contents, rfl⟩ | ⟨id, result, contents, rfl⟩ := ha
  · cases hpc : s.threads id <;> simp only [step, threadWrite, hpc] at hs
    case generating call =>
      cases hs
      refine ⟨h.keep rfl rfl rfl rfl (fun hentry => hentry) (fun _ hsome => hsome) ?_, rfl⟩
      exact fun hst => hst
    all_goals contradiction
  · cases hpc : s.threads id <;> simp only [step, threadGenerated, hpc] at hs
    case generating call =>
      obtain rfl := hproto.eq_created (show (s.threads id).Active by rw [hpc]; trivial)
      cases hs
      refine ⟨h.keep rfl rfl rfl rfl (fun hentry => ?_) (fun _ hsome => hsome) fun hst => hst, rfl⟩
      exact absurd ((moveThread_self _ _ _).symm.trans hentry) (by simp)
    all_goals contradiction

theorem seeded_step {a : Action} (hproto : s.Protocol) (h : Seeded seed number s attempts)
    (hs : step a s = some s') :
    ∃ number', Seeded seed number' s' (if Attempt s s' then attempts + 1 else attempts) := by
  have hkept : s'.consumer = s.consumer → ¬ Attempt s s' := by
    rintro hsame ⟨hacquire, hargs⟩
    rw [hsame, hacquire] at hargs
    contradiction
  have hbegun : s.consumer = .outside → ¬ Attempt s s' := by
    rintro hout ⟨hacquire, -⟩
    rw [hout] at hacquire
    contradiction
  cases a with
  | acquire nullArgument =>
      obtain ⟨hseeded, hout⟩ := seeded_begin h (.inl ⟨nullArgument, rfl⟩) hs
      rw [if_neg (hbegun hout)]
      exact ⟨number, hseeded⟩
  | destroy =>
      obtain ⟨hseeded, hout⟩ := seeded_begin h (.inr rfl) hs
      rw [if_neg (hbegun hout)]
      exact ⟨number, hseeded⟩
  | consumer starts => exact seeded_consumerStep hproto h hs
  | thread id =>
      obtain ⟨hseeded, hsame⟩ := seeded_threadStep hproto h hs
      rw [if_neg (hkept hsame)]
      exact ⟨number, hseeded⟩
  | write id contents =>
      obtain ⟨hseeded, hsame⟩ := seeded_generating hproto h (.inl ⟨id, contents, rfl⟩) hs
      rw [if_neg (hkept hsame)]
      exact ⟨number, hseeded⟩
  | generated id result contents =>
      obtain ⟨hseeded, hsame⟩ := seeded_generating hproto h (.inr ⟨id, result, contents, rfl⟩) hs
      rw [if_neg (hkept hsame)]
      exact ⟨number, hseeded⟩

theorem CountedRun.seeded {pipeline : SokoFalconRefillPipeline}
    (h : CountedRun pipeline s attempts) (hseed : pipeline.nextSeed = seed + 1) :
    ∃ number, Seeded seed number s attempts := by
  obtain ⟨hinit, hreach⟩ := h
  have hfirst : Seeded seed (fun _ => 0) (.initial pipeline) 0 :=
    { next := hseed.trans (by rw [seedAt_succ, seedAt]; simp)
      args := fun args hsome => by cases hsome
      starting := False.elim
      entry := fun hentry => by cases hentry
      calls := fun fill call hcall => by cases hcall
      increasing := fun fill hfill => absurd hfill (Nat.not_lt_zero fill)
      le_attempts := le_rfl
      zero := rfl }
  have hall := hreach.invariant
    (fun p => p.1.Protocol ∧ ∃ number, Seeded seed number p.1 p.2)
    ⟨protocol_initial hinit, _, hfirst⟩ ?_
  · exact hall.2
  · rintro a ⟨u, count⟩ ⟨v, count'⟩ ⟨hproto, number, hseeded⟩ - hs
    obtain ⟨v', hstep, heq⟩ := Option.map_eq_some_iff.mp hs
    cases heq
    exact ⟨protocol_step hproto hstep, seeded_step hproto hseeded hstep⟩

theorem Seeded.number_lt (h : Seeded seed number s attempts) {fill fill' : ℕ}
    (hlt : fill < fill') (hle : fill' ≤ s.created) : number fill < number fill' := by
  induction fill', hlt using Nat.le_induction with
  | base => exact h.increasing fill hle
  | succ fill' hlt ih => exact (ih (by omega)).trans (h.increasing fill' hle)

theorem Seeded.fillSeed (h : Seeded seed number s attempts) {fill : ℕ} {fillSeed : UInt32}
    (hfill : s.fillSeed seed fill = some fillSeed) :
    fillSeed = seedAt seed (number fill) ∧ fill ≤ s.created := by
  unfold State.fillSeed at hfill
  split at hfill
  · rename_i hzero
    rw [hzero, h.zero]
    exact ⟨(Option.some.inj hfill).symm.trans (by simp [seedAt]), Nat.zero_le _⟩
  · obtain ⟨call, hcall, rfl⟩ := Option.map_eq_some_iff.mp hfill
    exact h.calls fill call hcall

/-- Different fills have different seeds until the counter comes round. -/
theorem Seeded.fill_eq (h : Seeded seed number s attempts) (hattempts : attempts < 2 ^ 32 - 1)
    {fill fill' : ℕ} {fillSeed : UInt32} (hfill : s.fillSeed seed fill = some fillSeed)
    (hfill' : s.fillSeed seed fill' = some fillSeed) : fill = fill' := by
  obtain ⟨hseed, hle⟩ := h.fillSeed hfill
  obtain ⟨hseed', hle'⟩ := h.fillSeed hfill'
  have hbound : ∀ f ≤ s.created, number f ≤ attempts := by
    intro f hf
    obtain hlt | rfl := Nat.lt_or_eq_of_le hf
    · exact (h.number_lt hlt le_rfl).le.trans h.le_attempts
    · exact h.le_attempts
  have hsize : UInt32.size = 2 ^ 32 := rfl
  have hword : UInt32.ofNat (number fill) = UInt32.ofNat (number fill') :=
    (UInt32.add_right_inj seed).mp (hseed.symm.trans hseed')
  have hnumber : number fill = number fill' := by
    have hlt := hbound fill hle
    have hlt' := hbound fill' hle'
    have hnat := congrArg UInt32.toNat hword
    rwa [UInt32.toNat_ofNat_of_lt' (by omega), UInt32.toNat_ofNat_of_lt' (by omega)] at hnat
  obtain hlt | heq | hlt := lt_trichotomy fill fill'
  · exact absurd hnumber (h.number_lt hlt hle').ne
  · exact heq
  · exact absurd hnumber (h.number_lt hlt hle).ne'

theorem init_spec {args : InitArgs} {allocs : InitAllocs} {pipeline : SokoFalconRefillPipeline}
    (h : sokoFalconRefillPipelineInit args allocs = (0, some pipeline)) :
    pipeline.nextSeed = args.seedBase ∧ (pipeline.tokensPerBank : ℤ) = args.tokensPerBank := by
  obtain hfail | ⟨created, hok, -, -, htokens, -, hseed, -⟩ :=
    sokoFalconRefillPipelineInit_cases args allocs
  · rw [hfail] at h
    cases h
  · obtain rfl : created = pipeline := Option.some.inj (congrArg Prod.snd (hok.symm.trans h))
    exact ⟨hseed, htokens⟩

/-- No input of the generators is used for two tokens: with the seed of bank 0 one less
than the first of the pipeline, the mixes of different tokens differ, and so do their
images under `splitmix64`. -/
theorem no_mix_reused {args : InitArgs} {allocs : InitAllocs} {pipeline : SokoFalconRefillPipeline}
    (hinit : sokoFalconRefillPipelineInit args allocs = (0, some pipeline))
    (hint : args.tokensPerBank < 2 ^ 31) (hseed : args.seedBase = seed + 1)
    (h : CountedRun pipeline s attempts) (hattempts : attempts < 2 ^ 32 - 1)
    {fill fill' token token' : ℕ} {fillSeed fillSeed' : UInt32}
    (hfill : s.fillSeed seed fill = some fillSeed)
    (hfill' : s.fillSeed seed fill' = some fillSeed') (htoken : token < pipeline.tokensPerBank)
    (htoken' : token' < pipeline.tokensPerBank) (hne : (fill, token) ≠ (fill', token')) (j : ℕ) :
    sampleMix fillSeed token j ≠ sampleMix fillSeed' token' j ∧
      splitmix64 (sampleMix fillSeed token j) ≠ splitmix64 (sampleMix fillSeed' token' j) := by
  obtain ⟨hnext, htokens⟩ := init_spec hinit
  obtain ⟨number, hseeded⟩ := h.seeded (hnext.trans hseed)
  have hmix : sampleMix fillSeed token j ≠ sampleMix fillSeed' token' j := by
    intro heq
    obtain ⟨rfl, rfl⟩ := sampleMix_injective (by omega) (by omega) heq
    exact hne (congrArg (·, token) (hseeded.fill_eq hattempts hfill hfill'))
  exact ⟨hmix, fun heq => hmix (splitmix64_injective heq)⟩

/-- The steps up to the start of the first refill of two banks of one token each. -/
def toFirstRefill : List Action :=
  [.acquire false] ++ List.replicate 7 (.consumer true) ++ [.thread 1]

theorem no_mix_reused_toFirstRefill :
    ∃ s, CountedRun (twoBankPipeline 1) s 1 ∧ s.fillSeed 0 0 = some 0 ∧
      s.fillSeed 0 1 = some 1 ∧ sampleMix 0 0 0 ≠ sampleMix 1 0 0 ∧
      splitmix64 (sampleMix 0 0 0) ≠ splitmix64 (sampleMix 1 0 0) := by
  have hrun : ∃ s, execute countedStep anyAction toFirstRefill (.initial (twoBankPipeline 1), 0) =
      some (s, 1) ∧ s.fillSeed 0 1 = some 1 := ⟨_, rfl, rfl⟩
  obtain ⟨s, hexecute, hfill⟩ := hrun
  have hcounted : CountedRun (twoBankPipeline 1) s 1 :=
    ⟨initialised_twoBankPipeline 1, reaches_of_execute hexecute⟩
  have hinit : sokoFalconRefillPipelineInit (twoBanks 1) ⟨true, true, some fun _ => ⟨0, 0⟩⟩ =
      (0, some (twoBankPipeline 1)) := rfl
  have hfirst : s.fillSeed 0 0 = some 0 := rfl
  exact ⟨s, hcounted, hfirst, hfill, no_mix_reused hinit (by decide) rfl hcounted (by decide)
    hfirst hfill (by decide) (by decide) (by decide) 0⟩

end Soko.Pipeline
