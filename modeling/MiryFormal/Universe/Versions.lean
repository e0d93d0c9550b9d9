import MiryFormal.Universe.StoreRuns

/-!
# The versions of a run

A decision follows the one before it: the sequence counts by one, the version says whether the
core changed, it is not effective earlier and it changes a role. Plans are built so. An override
is checked against the core, the daily limit and the dwell only, so it follows the active
decision when it changes a role and is not effective earlier.
-/

namespace MiryFormal

set_option autoImplicit false

/-- The version contract between two decisions. -/
structure Follows (previous decision : VersionedDecision) : Prop where
  sequence : decision.decisionSequence = previous.decisionSequence + 1
  version : if decision.core = previous.core then
      decision.coreGeneration = previous.coreGeneration ∧
        decision.candidateRevision = previous.candidateRevision + 1
    else decision.coreGeneration = previous.coreGeneration + 1 ∧ decision.candidateRevision = 0
  effective : previous.effectiveAt.micros ≤ decision.effectiveAt.micros
  roles : ¬ (decision.core = previous.core ∧ decision.boundary = previous.boundary ∧
    decision.probe = previous.probe)

theorem follows_sourceHashes {previous decision : VersionedDecision} {hashes : List String} :
    Follows { previous with sourceHashes := hashes } decision ↔ Follows previous decision :=
  ⟨fun h => ⟨h.sequence, h.version, h.effective, h.roles⟩,
    fun h => ⟨h.sequence, h.version, h.effective, h.roles⟩⟩

theorem follows_plannedDecision {active decision : VersionedDecision} {result : SelectionResult}
    {now effectiveAt : Datetime} (h : plannedDecision active result now effectiveAt = .ok decision)
    (hroles : ¬ (result.core = active.core ∧ result.boundary = active.boundary ∧
      result.probe = active.probe))
    (heffective : active.effectiveAt.micros ≤ effectiveAt.micros) : Follows active decision := by
  unfold plannedDecision at h
  split at h
  · cases h
    refine ⟨rfl, ?_, heffective, hroles⟩
    dsimp only
    unfold nextVersion
    by_cases hcore : result.core = active.core
    · rw [if_pos hcore, if_neg (not_not.mpr hcore)]
      exact ⟨rfl, rfl⟩
    · rw [if_neg hcore, if_pos hcore]
      exact ⟨rfl, rfl⟩
  · cases h

theorem follows_overrideDecision {active : VersionedDecision} {override : CandidateOverride}
    (hcore : ∀ symbol ∈ override.boundary ++ override.probe, symbol ∉ active.core)
    (heffective : active.effectiveAt.micros ≤ override.effectiveAt.micros)
    (hroles : ¬ (override.boundary = active.boundary ∧ override.probe = active.probe)) :
    Follows active (overrideDecision active override hcore) := by
  refine ⟨rfl, ?_, heffective, fun h => hroles h.2⟩
  rw [if_pos (show (overrideDecision active override hcore).core = active.core from rfl)]
  exact ⟨rfl, rfl⟩

namespace UniverseStore

/-- What the code does not check: a plan is not made so far behind the active decision that it would
be effective before it, and the override that is due first changes a role and is not effective
before the active decision. -/
def Sound (policy : UniversePolicy) (store : UniverseStore) : UniverseEvent → Prop
  | .observeAndPlan _ now => ∀ effectiveAt,
      nextEffectiveAt now policy.decisionCutoffMinuteUtc = .ok effectiveAt →
        store.memory.active.effectiveAt.micros ≤ effectiveAt.micros
  | .applyDue now => ∀ decision name override,
      (selectDue policy store.memory store.files now).2 = .ok (some (decision, .override name)) →
      (name, some override) ∈ store.files.overrides →
        store.memory.active.effectiveAt.micros ≤ override.effectiveAt.micros ∧
          ¬ (override.boundary = store.memory.active.boundary ∧
            override.probe = store.memory.active.probe)
  | .dropOverride _ _ | .formalStart => True

/-- The plan on disk was made for the active decision. -/
def PlanFollows (store : UniverseStore) : Prop :=
  ∀ plan, store.files.pending = some plan → Follows store.memory.active plan

variable {policy : UniversePolicy} {store next : UniverseStore} {now : Datetime}
  {decision : VersionedDecision}

theorem planFollows_of_none (h : store.files.pending = none) : store.PlanFollows := by
  intro plan hplan
  rw [h] at hplan
  cases hplan

/-- An event keeps the active decision, but for its hashes, or applies one. -/
def KeepsActive (store next : UniverseStore) : Prop :=
  ∃ hashes, next.memory.active = { store.memory.active with sourceHashes := hashes }

theorem afterPlan_keeps {outcome : Except MembershipError PlanCall} (h : store.PlanFollows)
    (hcall : ∀ call, outcome = .ok call → Planned policy store now call)
    (hsound : ∀ effectiveAt, nextEffectiveAt now policy.decisionCutoffMinuteUtc = .ok effectiveAt →
      store.memory.active.effectiveAt.micros ≤ effectiveAt.micros) :
    (store.afterPlan outcome).PlanFollows ∧ store.KeepsActive (store.afterPlan outcome) := by
  cases outcome with
  | error error => exact ⟨h, _, rfl⟩
  | ok call =>
    cases hcall call rfl with
    | verified hashes =>
      refine ⟨?_, hashes, rfl⟩
      intro plan hplan
      exact follows_sourceHashes.mpr (h plan hplan)
    | steady => exact ⟨planFollows_of_none rfl, _, rfl⟩
    | planned heffective hroles hdecision =>
      refine ⟨?_, _, rfl⟩
      intro plan hplan
      cases hplan
      exact follows_plannedDecision hdecision hroles (hsound _ heffective)

theorem follows_selected (h : store.PlanFollows) (hsound : Sound policy store (.applyDue now))
    {source : DueSource}
    (hselected : (selectDue policy store.memory store.files now).2 =
      .ok (some (decision, source))) : Follows store.memory.active decision := by
  have hchosen := selectDue_chosen hselected
  cases source with
  | pending => exact h decision (hchosen.plan rfl)
  | override name =>
    obtain ⟨content, hm, hread⟩ := hchosen.override name rfl
    obtain ⟨override, rfl, hdecision⟩ := readOverride_ok hread
    obtain ⟨hcore, minimum, -, rfl⟩ := decisionFromOverride_ok hdecision
    obtain ⟨heffective, hroles⟩ := hsound _ name override hselected hm
    exact follows_overrideDecision hcore heffective hroles

/-- What an event does to the plan, the active decision and the history. -/
structure Advances (store : UniverseStore) (outcome : UniverseStore × Option VersionedDecision) :
    Prop where
  plan : outcome.1.PlanFollows
  idle : outcome.2 = none → store.KeepsActive outcome.1
  applied : ∀ decision, outcome.2 = some decision →
    Follows store.memory.active decision ∧ outcome.1.memory.active = decision

theorem advances_idle {outcome : UniverseStore} (hplan : outcome.PlanFollows)
    (hkeeps : store.KeepsActive outcome) : store.Advances (outcome, none) :=
  ⟨hplan, fun _ => hkeeps, fun decision h => by cases h⟩

theorem advances_applyDue (h : store.PlanFollows) (hsound : Sound policy store (.applyDue now)) :
    store.Advances (store.step policy (.applyDue now)) := by
  unfold UniverseStore.step
  dsimp only
  by_cases hselected : ∃ decision source,
      (selectDue policy store.memory store.files now).2 = .ok (some (decision, source))
  · obtain ⟨decision, source, hselected⟩ := hselected
    rw [applyDue_chosen hselected]
    refine ⟨planFollows_of_none ?_, fun h => (by cases h), ?_⟩
    · unfold DueCall.store
      dsimp only
      rw [UniverseFiles.runAll_append]
      exact (runAll_commitOps _ store.memory decision source).2.2
    · intro applied happlied
      cases happlied
      exact ⟨follows_selected h hsound hselected, rfl⟩
  · obtain ⟨names, hstore, hnone⟩ := @applyDue_idle policy store now fun decision source heq =>
      hselected ⟨decision, source, heq⟩
    rw [hnone, hstore]
    exact advances_idle h ⟨_, rfl⟩

theorem advances_step (h : store.PlanFollows) {event : UniverseEvent}
    (hsound : Sound policy store event) : store.Advances (store.step policy event) := by
  cases event with
  | observeAndPlan evidence now =>
    obtain ⟨hplan, hkeeps⟩ := afterPlan_keeps h
      (fun call hcall => @observeAndPlan_planned policy store now evidence call hcall) hsound
    exact advances_idle hplan hkeeps
  | dropOverride name content => exact advances_idle h ⟨_, rfl⟩
  | formalStart => exact advances_idle h ⟨_, rfl⟩
  | applyDue now => exact advances_applyDue h hsound

/-- In a run whose events are sound every decision that is applied follows the one before it. -/
theorem applied_follows {start final : UniverseStore} {events : List UniverseEvent}
    (hplan : start.PlanFollows)
    (hrun : Run (Guarded (Sound policy) (Step policy)) start events final) :
    (start.memory.active :: applied policy start events).IsChain Follows := by
  suffices hgeneral : ∀ previous hashes,
      start.memory.active = { previous with sourceHashes := hashes } →
        (previous :: applied policy start events).IsChain Follows from
    hgeneral start.memory.active _ rfl
  induction hrun with
  | nil => exact fun previous hashes _ => List.IsChain.singleton previous
  | @cons start middle final event events hstep _ ih =>
    intro previous hashes hactive
    obtain ⟨hsound, hmiddle⟩ := hstep
    have hadvances := advances_step hplan hsound
    unfold Step at hmiddle
    subst hmiddle
    unfold applied
    cases happlied : (start.step policy event).2 with
    | none =>
      obtain ⟨kept, hkept⟩ := hadvances.idle happlied
      rw [hactive] at hkept
      exact ih hadvances.plan previous kept hkept
    | some decision =>
      obtain ⟨hfollows, hcurrent⟩ := hadvances.applied decision happlied
      rw [hactive] at hfollows
      refine List.isChain_cons_cons.mpr ⟨follows_sourceHashes.mp hfollows, ?_⟩
      exact ih hadvances.plan decision _ hcurrent

/-- An override of the same ten candidates, applied on the day after the bootstrap. -/
theorem applied_sample {override : CandidateOverride}
    (heffective : override.effectiveAt = sampleMidnight)
    (hsame : ∀ symbol, symbol ∈ override.boundary ++ override.probe ↔
      symbol ∈ sampleActive.boundary ++ sampleActive.probe) :
    ∃ hcore, applied samplePolicy (sampleStore override) [.applyDue sampleMidnight] =
      [overrideDecision sampleMembership.active override hcore] := by
  obtain ⟨hcore, hselected⟩ := sampleStore_selected heffective hsame
  refine ⟨hcore, ?_⟩
  unfold applied UniverseStore.step
  dsimp only
  rw [applyDue_chosen hselected]
  rfl

/-- The two roles exchanged follow the bootstrap. -/
theorem applied_follows_swapped : (sampleMembership.active ::
    applied samplePolicy (sampleStore swappedRoles) [.applyDue sampleMidnight]).IsChain
      Follows := by
  refine @applied_follows samplePolicy (sampleStore swappedRoles) _ [.applyDue sampleMidnight]
    (planFollows_of_none rfl) (.single ⟨?_, rfl⟩)
  intro decision name override _ hm
  obtain rfl := Option.some.inj (Prod.mk.inj (List.mem_singleton.mp hm)).2
  refine ⟨by decide, fun h => ?_⟩
  exact absurd h.1 (by decide)

/-- An override that changes nothing is applied as a new version. -/
theorem applied_sameRoles : ∃ decision,
    (sampleStore sameRoles).PlanFollows ∧
      applied samplePolicy (sampleStore sameRoles) [.applyDue sampleMidnight] = [decision] ∧
      decision.decisionSequence = sampleMembership.active.decisionSequence + 1 ∧
      decision.core = sampleMembership.active.core ∧
      decision.boundary = sampleMembership.active.boundary ∧
      decision.probe = sampleMembership.active.probe ∧
      ¬ (sampleMembership.active ::
        applied samplePolicy (sampleStore sameRoles) [.applyDue sampleMidnight]).IsChain Follows := by
  obtain ⟨hcore, happlied⟩ := @applied_sample sameRoles rfl fun _ => .rfl
  refine ⟨_, planFollows_of_none rfl, happlied, rfl, rfl, rfl, rfl, ?_⟩
  rw [happlied]
  intro hchain
  exact (List.isChain_cons_cons.mp hchain).1.roles ⟨rfl, rfl, rfl⟩

end UniverseStore

end MiryFormal
