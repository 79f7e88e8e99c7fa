import Soko.Pipeline.Provenance

/-!
What a token view shows. A bank is declared empty when its last token is handed
out, before that token is used; the view stays valid because a refill can only
be directed at the bank inside a later `acquire`, and a refill that is already
on the way was directed at a bank that had been empty before.
-/

namespace Soko.Pipeline

open Soko.Library Handshake

def Action.writes (a : Action) (s : State) : Option ℕ :=
  match a with
  | .write id _ | .generated id _ _ =>
      match s.threads id with
      | .generating call => some call.bankId
      | _ => none
  | _ => none

def ThreadPc.Ungenerated : ThreadPc → Prop
  | .entry | .generating _ => True
  | _ => False

namespace State

def contentsOf (s : State) (b : ℕ) : BankContents := (s.pipeline.banks b).toBankContents

/-- The banks hold what their last fill produced, as long as it matters. -/
structure Filled (s : State) : Prop where
  fill_le : ∀ b, s.history.fillOf b ≤ s.created
  fill_lt : (s.threads s.created).Ungenerated → ∀ b, s.history.fillOf b < s.created
  held : ∀ b, 0 < s.pipeline.bankRemaining b →
    s.contentsOf b = s.history.produced (s.history.fillOf b)
  latest : s.Generated →
    s.contentsOf s.pipeline.worker.call.bankId = s.history.produced s.created

/-- What holds of a view until the next `acquire` begins. -/
structure ViewOf (s : State) (v : SokoFalconTokenView) : Prop where
  bankId_lt : v.bankId < s.pipeline.bankCount
  tokenIndex_lt : v.tokenIndex < s.pipeline.tokensPerBank
  offset_eq : v.offset = v.tokenIndex * 2 ^ s.pipeline.logn
  token : s.history.returned.getLast? = some (s.history.fillOf v.bankId, v.tokenIndex)
  contents : s.contentsOf v.bankId = s.history.produced (s.history.fillOf v.bankId)
  target : s.Outstanding → v.bankId ≠ s.pipeline.worker.call.bankId

/-- The view of a successful `acquire` is valid. -/
structure Viewed (s : State) : Prop where
  view : ∀ v, s.view = some v → s.ViewOf v
  success : s.lastReturn = some 0 → ∃ v, s.view = some v

end State

open State

/-- A refill that was launched was directed at an empty bank. -/
theorem State.Target.outstanding {s : State} (h : s.Target) (hout : s.Outstanding) :
    s.EmptyBank s.pipeline.worker.call.bankId := h.call (.inr hout)

theorem State.Filled.of_same {s t : State} (h : s.Filled)
    (hbanks : t.contentsOf = s.contentsOf) (hfillOf : t.history.fillOf = s.history.fillOf)
    (hproduced : t.history.produced = s.history.produced) (hcreated : t.created = s.created)
    (hremaining : t.pipeline.bankRemaining = s.pipeline.bankRemaining)
    (hfill : (t.threads t.created).Ungenerated → (s.threads s.created).Ungenerated)
    (hlatest : t.Generated → s.Generated ∧
      t.pipeline.worker.call = s.pipeline.worker.call) : t.Filled where
  fill_le := by
    rw [hfillOf, hcreated]
    exact h.fill_le
  fill_lt hun := by
    rw [hfillOf, hcreated]
    exact h.fill_lt (hfill hun)
  held := by
    rw [hbanks, hproduced, hfillOf, hremaining]
    exact h.held
  latest hgen := by
    obtain ⟨hgen, hcall⟩ := hlatest hgen
    rw [hbanks, hproduced, hcall, hcreated]
    exact h.latest hgen

@[simp] theorem writeBank_contentsOf_self (s : State) (bankId : ℕ) (contents : BankContents) :
    (s.writeBank bankId contents).contentsOf bankId = contents := by
  have hself := Function.update_self bankId
    { s.pipeline.banks bankId with toBankContents := contents } s.pipeline.banks
  exact congrArg SokoFalconTokenBank.toBankContents hself

theorem writeBank_contentsOf_ne (s : State) {bankId b : ℕ} (contents : BankContents)
    (hb : b ≠ bankId) : (s.writeBank bankId contents).contentsOf b = s.contentsOf b :=
  congrArg SokoFalconTokenBank.toBankContents (Function.update_of_ne hb _ _)

/-- The end of a generation leaves the other banks with what their fill produced. -/
theorem generated_contentsOf_ne {s : State} {bankId b : ℕ} (contents : BankContents)
    (hb : b ≠ bankId) (hlt : s.history.fillOf b < s.created)
    (hheld : s.contentsOf b = s.history.produced (s.history.fillOf b)) :
    (s.writeBank bankId contents).contentsOf b =
      Function.update s.history.produced s.created contents
        (Function.update s.history.fillOf bankId s.created b) := by
  rw [writeBank_contentsOf_ne s contents hb, Function.update_of_ne hb,
    Function.update_of_ne hlt.ne]
  exact hheld

@[simp] theorem handOut_contentsOf (s : State) (ref : SokoTokenRef) (queue : SokoTokenQueue) :
    ((s.handOut ref queue).acquireReturn 0).contentsOf = s.contentsOf := by
  funext b
  simp only [contentsOf, acquireReturn, handOut]
  split
  · exact update_available_contents _ _ b _
  · rfl

theorem filled_consumerEffect {s s' : State} (hlatest : s.Latest) (h : s.Filled)
    (he : ConsumerEffect s s') : s'.Filled := by
  cases he with
  | quiet hq =>
      refine h.of_same (funext hq.contents) (by rw [hq.history]) (by rw [hq.history]) hq.created
        hq.books.remaining ?_ ?_
      · rw [hq.threads, hq.created]
        exact id
      · exact fun hgen => ⟨(hq.generated hgen).1, (hq.generated hgen).2.1⟩
  | launch hidle hdone =>
      refine ⟨fun b => (h.fill_le b).trans (Nat.le_succ _),
        fun _ b => Nat.lt_succ_of_le (h.fill_le b), h.held, ?_⟩
      rintro (hstore | hset)
      · exact absurd ((createThread_latest s .waitHead).symm.trans hstore) nofun
      · exact absurd (hdone.symm.trans hset) nofun
  | report hdone hexited =>
      refine h.of_same rfl rfl rfl rfl rfl id ?_
      rintro (hstore | hset)
      · exact absurd (hexited.symm.trans hstore) nofun
      · contradiction
  | @collect call queue hdone hexited =>
      have hfill : s.history.fillOf s.pipeline.worker.call.bankId = s.created :=
        hlatest.fill (.inr hdone)
      have hcontents : ((s.storeDone false).collectRefill queue).contentsOf = s.contentsOf :=
        funext fun b => update_available_contents _ _ b _
      have hheld : ∀ b, 0 < ((s.storeDone false).collectRefill queue).pipeline.bankRemaining b →
          ((s.storeDone false).collectRefill queue).contentsOf b =
            s.history.produced (s.history.fillOf b) := by
        intro b hpos
        rw [hcontents]
        by_cases hb : b = s.pipeline.worker.call.bankId
        · rw [hb, hfill]
          exact h.latest (.inr hdone)
        · apply h.held
          rwa [show ((s.storeDone false).collectRefill queue).pipeline.bankRemaining b =
            s.pipeline.bankRemaining b from Function.update_of_ne hb _ _] at hpos
      have hnot : ∀ {t : State}, t.threads t.created = s.threads s.created →
          t.pipeline.worker.done = false → ¬ t.Generated := by
        rintro t hthread hclear (hstore | hset)
        · exact absurd ((hthread.trans hexited).symm.trans hstore) nofun
        · exact absurd (hclear.symm.trans hset) nofun
      cases call <;>
        exact ⟨h.fill_le, h.fill_lt, hheld, fun hgen => absurd hgen (hnot rfl rfl)⟩
  | @pop ref rest queue =>
      have hcontents := handOut_contentsOf s ref queue
      refine ⟨h.fill_le, h.fill_lt, fun b hpos => ?_, fun hgen => ?_⟩
      · rw [hcontents]
        apply h.held
        by_cases hb : b = ref.bankId
        · have hless : 0 < s.pipeline.bankRemaining ref.bankId - 1 := by
            rwa [hb, show ((s.handOut ref queue).acquireReturn 0).pipeline.bankRemaining ref.bankId
              = s.pipeline.bankRemaining ref.bankId - 1 from Function.update_self ..] at hpos
          rw [hb]
          omega
        · rwa [show ((s.handOut ref queue).acquireReturn 0).pipeline.bankRemaining b =
            s.pipeline.bankRemaining b from Function.update_of_ne hb _ _] at hpos
      · rw [hcontents]
        exact h.latest hgen

theorem filled_effect {s s' : State} (hsound : s.Sound) (hlatest : s.Latest) (h : s.Filled)
    (he : StepEffect s s') : s'.Filled := by
  have hdone := hsound.protocol.done_iff
  cases he with
  | enter | rejectNull | destroy => exact ⟨h.fill_le, h.fill_lt, h.held, h.latest⟩
  | consumer he => exact filled_consumerEffect hlatest h he
  | read hpc =>
      rw [hpc] at hdone
      refine h.of_same rfl rfl rfl rfl rfl (fun _ => by rw [hpc]; trivial) ?_
      rintro (hstore | hset)
      · exact absurd ((moveThread_self (s.readCall s.created) _ _).symm.trans hstore) nofun
      · exact absurd ((hdone trivial).mp hset) nofun
  | @write call contents hpc =>
      -- the bank under generation is empty, so that no token of it is left to be held
      rw [hpc] at hdone
      have hempty := hsound.accounting.target.outstanding (.inl (by rw [hpc]; trivial))
      rw [← hsound.accounting.target.generating call hpc] at hempty
      refine ⟨h.fill_le, h.fill_lt, fun b hpos => ?_, ?_⟩
      · have hne : b ≠ call.bankId := by
          rintro rfl
          exact absurd hempty.2 (ne_of_gt hpos)
        rw [writeBank_contentsOf_ne s contents hne]
        exact h.held b hpos
      · rintro (hstore | hset)
        · exact absurd (hpc.symm.trans hstore) nofun
        · exact absurd ((hdone trivial).mp hset) nofun
  | @generated call result contents hpc =>
      have hempty := hsound.accounting.target.outstanding (.inl (by rw [hpc]; trivial))
      have hbank := hsound.accounting.target.generating call hpc
      rw [← hbank] at hempty
      have hlt : ∀ b, s.history.fillOf b < s.created := h.fill_lt (by rw [hpc]; trivial)
      refine ⟨fun b => ?_, fun hun => ?_, fun b hpos => ?_, fun _ => ?_⟩
      · have hle : Function.update s.history.fillOf call.bankId s.created b ≤ s.created := by
          by_cases hb : b = call.bankId
          · rw [hb, Function.update_self]
          · rw [Function.update_of_ne hb]
            exact h.fill_le b
        exact hle
      · have hun : (Function.update s.threads s.created .storeDone s.created).Ungenerated := hun
        rw [Function.update_self] at hun
        contradiction
      · have hne : b ≠ call.bankId := by
          rintro rfl
          exact absurd hempty.2 (ne_of_gt hpos)
        exact generated_contentsOf_ne contents hne (hlt b) (h.held b hpos)
      · have hself : (s.writeBank call.bankId contents).contentsOf s.pipeline.worker.call.bankId =
            Function.update s.history.produced s.created contents s.created := by
          rw [← hbank, writeBank_contentsOf_self, Function.update_self]
        exact hself
  | storeDone hpc =>
      refine h.of_same rfl rfl rfl rfl rfl ?_ fun _ => ⟨.inl hpc, rfl⟩
      intro hun
      have hun : (Function.update s.threads s.created .storeInFlight s.created).Ungenerated := hun
      rw [Function.update_self] at hun
      contradiction
  | storeInFlight hpc =>
      rw [hpc] at hdone
      refine h.of_same rfl rfl rfl rfl rfl ?_ fun _ => ⟨.inr ((hdone trivial).mpr rfl), rfl⟩
      intro hun
      have hun : (Function.update s.threads s.created .exited s.created).Ungenerated := hun
      rw [Function.update_self] at hun
      contradiction

/-- Outside `acquire` no refill is launched, so the target stays where it is. -/
theorem viewed_consumerEffect {s s' : State} (hsame : SameParameters s s') (hsound : s.Sound)
    (hcalling : s.Calling) (hfilled : s.Filled) (h : s.Viewed) (he : ConsumerEffect s s') :
    s'.Viewed := by
  have hnone := hcalling.view
  have hreturn := hcalling.lastReturn
  cases he with
  | quiet hq =>
      constructor
      · intro v hv
        rw [hq.view] at hv
        have hview := h.view v hv
        have hcall := hq.call.resolve_right fun hin => by rw [hnone hin] at hv; contradiction
        refine ⟨by rw [hsame.banks]; exact hview.bankId_lt,
          by rw [hsame.tokens]; exact hview.tokenIndex_lt, ?_, ?_, ?_, ?_⟩
        · rw [hsame.logn]
          exact hview.offset_eq
        · rw [hq.history]
          exact hview.token
        · rw [hq.history, show s'.contentsOf v.bankId = s.contentsOf v.bankId from hq.contents _]
          exact hview.contents
        · intro hout
          rw [hcall]
          apply hview.target
          obtain hactive | hset := hout
          · left
            rwa [hq.threads, hq.created] at hactive
          · exact .inr (hq.done hset)
      · intro hcode
        rw [hq.view]
        obtain ⟨hsame, -⟩ | ⟨-, -, hfail⟩ := hq.lastReturn
        · exact h.success (hsame ▸ hcode)
        · rw [hfail] at hcode
          exact absurd (Option.some.inj hcode) (by decide)
  | launch _ _ hin =>
      refine ⟨fun v hv => ?_, fun hcode => ?_⟩
      · exact absurd ((hnone hin).symm.trans hv) nofun
      · exact absurd ((hreturn hin).symm.trans hcode) nofun
  | report _ _ hresult hin =>
      refine ⟨fun v hv => ?_, fun hcode => ?_⟩
      · exact absurd ((hnone hin).symm.trans hv) nofun
      · exact absurd (Option.some.inj hcode) hresult
  | collect call _ _ _ hin =>
      cases call <;>
      · refine ⟨fun v hv => ?_, fun hcode => ?_⟩
        · exact absurd ((hnone hin).symm.trans hv) nofun
        · exact absurd ((hreturn hin).symm.trans hcode) nofun
  | @pop ref rest queue _ hlist =>
      refine ⟨?_, fun _ => ⟨_, rfl⟩⟩
      rintro v ⟨⟩
      have href : ref ∈ s.pipeline.queue.toList := by simp [hlist]
      have hpos := hsound.accounting.ledger.remaining_pos href
      refine ⟨hsound.accounting.ledger.bankId_lt href, hsound.accounting.ledger.tokenIndex_lt href,
        rfl, List.getLast?_concat, ?_, ?_⟩
      · rw [handOut_contentsOf]
        exact hfilled.held _ hpos
      · intro hout heq
        have hempty := hsound.accounting.target.outstanding hout
        rw [← show ref.bankId = s.pipeline.worker.call.bankId from heq] at hempty
        exact absurd hempty.2 hpos.ne'

theorem viewed_effect {s s' : State} (hsame : SameParameters s s') (hsound : s.Sound)
    (hcalling : s.Calling) (hfilled : s.Filled) (h : s.Viewed) (he : StepEffect s s') :
    s'.Viewed := by
  cases he with
  | enter => exact ⟨nofun, nofun⟩
  | rejectNull => exact ⟨nofun, fun hcode => absurd (Option.some.inj hcode) (by decide)⟩
  | destroy =>
      refine ⟨fun v hv => ?_, h.success⟩
      obtain ⟨hbank, hindex, hoffset, htoken, hcontents, htarget⟩ := h.view v hv
      exact ⟨hbank, hindex, hoffset, htoken, hcontents, htarget⟩
  | consumer he => exact viewed_consumerEffect hsame hsound hcalling hfilled h he
  | read hpc | storeDone hpc | storeInFlight hpc =>
      refine ⟨fun v hv => ?_, h.success⟩
      obtain ⟨hbank, hindex, hoffset, htoken, hcontents, htarget⟩ := h.view v hv
      exact ⟨hbank, hindex, hoffset, htoken, hcontents,
        fun _ => htarget (.inl (by rw [hpc]; trivial))⟩
  | @write call contents hpc =>
      refine ⟨fun v hv => ?_, h.success⟩
      obtain ⟨hbank, hindex, hoffset, htoken, hcontents, htarget⟩ := h.view v hv
      have hne : v.bankId ≠ call.bankId := by
        rw [hsound.accounting.target.generating call hpc]
        exact htarget (.inl (by rw [hpc]; trivial))
      refine ⟨hbank, hindex, hoffset, htoken, ?_, htarget⟩
      rw [writeBank_contentsOf_ne s contents hne]
      exact hcontents
  | @generated call result contents hpc =>
      refine ⟨fun v hv => ?_, h.success⟩
      obtain ⟨hbank, hindex, hoffset, htoken, hcontents, htarget⟩ := h.view v hv
      have hne : v.bankId ≠ call.bankId := by
        rw [hsound.accounting.target.generating call hpc]
        exact htarget (.inl (by rw [hpc]; trivial))
      have hlt := hfilled.fill_lt (by rw [hpc]; trivial) v.bankId
      refine ⟨hbank, hindex, hoffset, ?_, generated_contentsOf_ne contents hne hlt hcontents,
        fun _ => htarget (.inl (by rw [hpc]; trivial))⟩
      have hfill : Function.update s.history.fillOf call.bankId s.created v.bankId =
          s.history.fillOf v.bankId := Function.update_of_ne hne _ _
      exact htoken.trans (by rw [← hfill]; rfl)

theorem filled_initial {pipeline : SokoFalconRefillPipeline} (h : Initialised pipeline) :
    (State.initial pipeline).Filled := by
  obtain ⟨-, -, hworker, hlist, hledger⟩ := h.spec
  refine ⟨fun _ => le_rfl, fun hun => absurd hun id, fun b hpos => ?_, ?_⟩
  · have hbank : b = 0 := by
      by_contra hne
      have hentries := hledger.entries b
      rw [hlist, filter_bankRefs, if_neg (Ne.symm hne)] at hentries
      have hlen := congrArg List.length hentries
      rw [bankRefs_length] at hlen
      have hpos : 0 < pipeline.bankRemaining b := hpos
      simp only [List.length_nil] at hlen
      omega
    rw [hbank]
    rfl
  · rintro (hstore | hset)
    · contradiction
    · exact absurd ((congrArg SokoRefillWorker.done hworker).symm.trans hset) nofun

theorem Run.filled_viewed {ok : Action → State → Prop} {pipeline : SokoFalconRefillPipeline}
    {s : State} (h : Run ok pipeline s) : s.Filled ∧ s.Viewed := by
  suffices hall : s.Provenance ∧ s.Filled ∧ s.Viewed from hall.2
  refine h.induct (fun s => s.Provenance ∧ s.Filled ∧ s.Viewed)
    ⟨provenance_initial h.1, filled_initial h.1, nofun, nofun⟩ ?_
  rintro a s s' hsound - ⟨hprov, hfilled, hviewed⟩ - hs he
  exact ⟨provenance_effect hsound hprov he, filled_effect hsound hprov.latest hfilled he,
    viewed_effect (sameParameters_step hs) hsound hprov.calling hfilled hviewed he⟩

theorem contentsOf_consumerEffect {s s' : State} (he : ConsumerEffect s s') :
    s'.contentsOf = s.contentsOf := by
  cases he with
  | quiet hq => exact funext hq.contents
  | launch | report => rfl
  | collect call => cases call <;> exact funext fun b => update_available_contents _ _ b _
  | pop => exact handOut_contentsOf s _ _

/-- The step that writes a bank is one of the thread that generates it. -/
theorem Action.writes_eq_some {a : Action} {s : State} {b : ℕ} (h : a.writes s = some b) :
    ∃ id call, s.threads id = .generating call ∧ call.bankId = b := by
  unfold Action.writes at h
  split at h
  · split at h
    · exact ⟨_, _, ‹_›, Option.some.inj h⟩
    · contradiction
  · split at h
    · exact ⟨_, _, ‹_›, Option.some.inj h⟩
    · contradiction
  · contradiction

/-- A step changes the arrays of the bank it writes and of no other. -/
theorem contentsOf_of_not_writes {a : Action} {s s' : State} (hsound : s.Sound)
    (hs : step a s = some s') {b : ℕ} (hb : a.writes s ≠ some b) :
    s'.contentsOf b = s.contentsOf b := by
  cases a with
  | acquire nullArgument =>
      simp only [step, beginAcquire] at hs
      split at hs
      · split at hs <;> cases hs <;> rfl
      · contradiction
  | destroy =>
      simp only [step, beginDestroy] at hs
      split at hs <;> cases hs
      rfl
  | consumer starts =>
      have he := consumerStep_effect hsound.protocol hsound.accounting hsound.flow hs
      rw [contentsOf_consumerEffect he]
  | thread id =>
      simp only [step, threadStep] at hs
      split at hs <;> cases hs <;> rfl
  | write id contents | generated id result contents =>
      cases hpc : s.threads id <;>
        simp only [step, threadWrite, threadGenerated, Action.writes, hpc] at hs hb
      case generating call =>
        cases hs
        exact writeBank_contentsOf_ne _ contents fun heq => hb (congrArg some heq.symm)
      all_goals contradiction

theorem view_of_step {a : Action} {s s' : State} (hsound : s.Sound) (hcalling : s.Calling)
    (hs : step a s = some s') (ha : ∀ nullArgument, a ≠ .acquire nullArgument)
    {v : SokoFalconTokenView} (hv : s.view = some v) : s'.view = some v := by
  cases a with
  | acquire nullArgument => exact absurd rfl (ha nullArgument)
  | destroy =>
      simp only [step, beginDestroy] at hs
      split at hs <;> cases hs
      exact hv
  | consumer starts =>
      have hout : ¬ s.consumer.InAcquire := fun hin => by
        rw [hcalling.view hin] at hv
        contradiction
      have he := consumerStep_effect hsound.protocol hsound.accounting hsound.flow hs
      cases he with
      | quiet hq => exact hq.view.trans hv
      | launch _ _ hin => exact absurd hin hout
      | report _ _ _ hin => exact absurd hin hout
      | collect _ _ _ _ hin => exact absurd hin hout
      | pop hin => exact absurd hin hout
  | thread id =>
      simp only [step, threadStep] at hs
      split at hs <;> cases hs <;> exact hv
  | write id contents =>
      simp only [step, threadWrite] at hs
      split at hs <;> cases hs
      exact hv
  | generated id result contents =>
      simp only [step, threadGenerated] at hs
      split at hs <;> cases hs
      exact hv

theorem thread_none_of_idle {s : State} {id : ℕ} (h : ¬ (s.threads id).Active)
    (contents : BankContents) (result : ℤ) :
    threadStep id s = none ∧ threadWrite id contents s = none ∧
      threadGenerated id result contents s = none := by
  cases hpc : s.threads id <;> rw [hpc] at h
  case absent | exited => simp only [threadStep, threadWrite, threadGenerated, hpc, and_self]
  all_goals exact absurd trivial h

/-- A token view is valid until the next `acquire` begins. -/
structure State.ViewValid (logn : ℕ) (s : State) : Prop where
  /-- No step writes a bank with tokens in the queue or the bank of the view. -/
  unwritten : ∀ a s' b, step a s = some s' → a.writes s = some b →
    (∀ ref ∈ s.pipeline.queue.toList, ref.bankId ≠ b) ∧ ∀ v, s.view = some v → v.bankId ≠ b
  /-- A step changes no arrays but those of the bank it writes. -/
  frame : ∀ a s' b, step a s = some s' → a.writes s ≠ some b → s'.contentsOf b = s.contentsOf b
  /-- A successful `acquire` has a view. -/
  success : s.lastReturn = some 0 → ∃ v, s.view = some v
  /-- Only the next `acquire` takes the view away. -/
  kept : ∀ a s' v, step a s = some s' → s.view = some v →
    (∀ nullArgument, a ≠ .acquire nullArgument) → s'.view = some v
  /-- The view shows what the fill of the token handed out last produced, at the
  index of this token. -/
  contents : ∀ v, s.view = some v →
    v.offset = v.tokenIndex * 2 ^ logn ∧
      ∃ fill, s.history.returned.getLast? = some (fill, v.tokenIndex) ∧
        s.contentsOf v.bankId = s.history.produced fill
  /-- After `destroy` no thread can take a step. -/
  destroyed : s.consumer = .destroyed → ∀ id contents result,
    threadStep id s = none ∧ threadWrite id contents s = none ∧
      threadGenerated id result contents s = none

/-- In every reachable state the view of the latest `acquire` is valid. -/
theorem view_valid {pipeline : SokoFalconRefillPipeline} {s : State}
    (h : Run anyAction pipeline s) : s.ViewValid pipeline.logn := by
  have hsound := h.sound
  obtain ⟨-, hviewed⟩ := h.filled_viewed
  constructor
  case unwritten =>
    intro a s' b _ hb
    obtain ⟨id, call, hgen, rfl⟩ := Action.writes_eq_some hb
    have hactive : (s.threads id).Active := by rw [hgen]; trivial
    obtain rfl := hsound.protocol.eq_created hactive
    have htarget := hsound.accounting.target.generating call hgen
    have hempty := hsound.accounting.target.outstanding (.inl hactive)
    constructor
    · intro ref href heq
      have hpos := hsound.accounting.ledger.remaining_pos href
      rw [heq, htarget, hempty.2] at hpos
      exact absurd hpos (lt_irrefl 0)
    · intro v hv
      rw [htarget]
      exact (hviewed.view v hv).target (.inl hactive)
  case frame => exact fun a s' b hs hb => contentsOf_of_not_writes hsound hs hb
  case success => exact hviewed.success
  case kept => exact fun a s' v hs hv ha => view_of_step hsound h.provenance.calling hs ha hv
  case contents =>
    intro v hv
    have hview := hviewed.view v hv
    refine ⟨?_, _, hview.token, hview.contents⟩
    rw [hview.offset_eq, h.sameParameters.logn]
    rfl
  case destroyed =>
    intro hpc id contents result
    have hphase := hsound.protocol.phase
    rw [hpc] at hphase
    apply thread_none_of_idle
    by_cases hid : id = s.created
    · rw [hid]
      exact hphase
    · exact hsound.protocol.others id hid

theorem view_valid_twoTokens :
    ∃ s, execute step anyAction twoTokens (.initial (twoBankPipeline 0)) = some s ∧
      s.view = some { bankId := 0, tokenIndex := 0, offset := 0 } ∧ s.ViewValid 1 :=
  ⟨_, rfl, rfl, view_valid (.of_execute twoTokens (initialised_twoBankPipeline 0) rfl)⟩

end Soko.Pipeline
