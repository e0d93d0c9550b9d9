import MiryFormal.Shared.Runs
import MiryFormal.Universe.DueSelection

/-!
# Runs of the universe store

What the calls of the service and the operator do to a store, one event after another. Between
two calls the files say what the memory says, so a restart finds the store as it was.
-/

namespace MiryFormal

set_option autoImplicit false

/-! ## Files -/

namespace UniverseFiles
variable (files : UniverseFiles)

@[simp] theorem runAll_nil : files.runAll [] = files := rfl

@[simp] theorem runAll_cons (op : UniverseOp) (ops : List UniverseOp) :
    files.runAll (op :: ops) = (files.run op).runAll ops := rfl

theorem runAll_append (ops later : List UniverseOp) :
    files.runAll (ops ++ later) = (files.runAll ops).runAll later :=
  List.foldl_append

/-- The override files `names` are gone. -/
def withoutOverrides (names : List String) : UniverseFiles :=
  { files with
    overrides := files.overrides.filter fun entry => entry.1 ∉ names
    named := files.named.sublist (List.filter_sublist.map _) }

theorem run_rejectOverride (name : String) :
    files.run (.rejectOverride name) = files.withoutOverrides [name] := by
  unfold run withoutOverride withoutOverrides
  ext1 <;> try rfl
  simp only [KeyedDict.pop_eq_filter, List.mem_singleton, id]

theorem run_unlinkOverride (name : String) :
    files.run (.unlinkOverride name) = files.withoutOverrides [name] :=
  files.run_rejectOverride name

theorem withoutOverrides_append (names later : List String) :
    (files.withoutOverrides names).withoutOverrides later =
      files.withoutOverrides (names ++ later) := by
  unfold withoutOverrides
  ext1 <;> try rfl
  simp only [List.filter_filter, List.mem_append, not_or, Bool.decide_and, Bool.and_comm]

theorem withoutOverrides_nil : files.withoutOverrides [] = files := by
  unfold withoutOverrides
  ext1 <;> try rfl
  simp

theorem runAll_rejects (names : List String) :
    files.runAll (names.map UniverseOp.rejectOverride) = files.withoutOverrides names := by
  induction names generalizing files with
  | nil => exact files.withoutOverrides_nil.symm
  | cons name names ih =>
    rw [List.map_cons, runAll_cons, run_rejectOverride, ih, withoutOverrides_append]
    rfl

end UniverseFiles

/-! ## Events -/

inductive UniverseEvent where
  | observeAndPlan (evidence : MarketEvidence) (now : Datetime)
  /-- The operator writes an override file. -/
  | dropOverride (name : String) (content : Option CandidateOverride)
  /-- `formal-start.json` is written. -/
  | formalStart
  | applyDue (now : Datetime)

/-- The decision the call returns, if it returns one. -/
def DueCall.applied (call : DueCall) : Option VersionedDecision :=
  match call.outcome with
  | .ok applied => applied
  | .error _ => none

namespace UniverseStore

/-- The store after a call of `observe_and_plan`; one that raises has changed nothing. -/
def afterPlan (store : UniverseStore) : Except MembershipError PlanCall → UniverseStore
  | .ok call => ⟨call.memory, store.files.runAll call.ops⟩
  | .error _ => store

/-- The store after an event, and the decision it applied. A call of `apply_due` that raises leaves
the renames it made before. -/
def step (policy : UniversePolicy) (store : UniverseStore) :
    UniverseEvent → UniverseStore × Option VersionedDecision
  | .observeAndPlan evidence now =>
      (store.afterPlan (observeAndPlan policy store evidence now), none)
  | .dropOverride name content =>
      (⟨store.memory, { store.files with
        overrides := KeyedDict.set id name content store.files.overrides
        named := KeyedDict.distinct_set store.files.named name content }⟩, none)
  | .formalStart => (⟨store.memory, { store.files with formalStarted := true }⟩, none)
  | .applyDue now =>
      ((applyDue policy store now).store store.files, (applyDue policy store now).applied)

/-- The decisions that a run applies, in their order. -/
def applied (policy : UniversePolicy) : UniverseStore → List UniverseEvent → List VersionedDecision
  | _, [] => []
  | store, event :: events =>
      (store.step policy event).2.toList ++ applied policy (store.step policy event).1 events

def Step (policy : UniversePolicy) (store : UniverseStore) (event : UniverseEvent)
    (next : UniverseStore) : Prop :=
  next = (store.step policy event).1

end UniverseStore

/-! ## What a call does -/

section Calls
variable {policy : UniversePolicy} {store : UniverseStore} {now : Datetime}

/-- A call of `apply_due` that applies a decision. -/
theorem applyDue_chosen {decision : VersionedDecision} {source : DueSource}
    (h : (selectDue policy store.memory store.files now).2 = .ok (some (decision, source))) :
    applyDue policy store now =
      ⟨((store.files.overrides.filter (rejects policy store.memory)).map Prod.fst).map
          UniverseOp.rejectOverride ++ commitOps store.memory decision source,
        store.memory.apply decision, .ok (some decision)⟩ := by
  have hrejected := congrArg Prod.fst (@selectDue_eq _ _ _ now (selectDue_chosen h).admissible)
  dsimp only at hrejected
  unfold applyDue
  rw [h, hrejected]

/-- A call that applies nothing only renames override files. -/
theorem applyDue_idle
    (h : ∀ decision source,
      (selectDue policy store.memory store.files now).2 ≠ .ok (some (decision, source))) :
    ∃ names, (applyDue policy store now).store store.files =
        ⟨store.memory, store.files.withoutOverrides names⟩ ∧
      (applyDue policy store now).applied = none := by
  refine ⟨(selectDue policy store.memory store.files now).1, ?_⟩
  unfold applyDue
  cases hselected : (selectDue policy store.memory store.files now).2 with
  | error error =>
    refine ⟨?_, rfl⟩
    unfold DueCall.store
    rw [UniverseFiles.runAll_rejects]
  | ok selected =>
    cases selected with
    | none =>
      refine ⟨?_, rfl⟩
      unfold DueCall.store
      rw [UniverseFiles.runAll_rejects]
    | some item => exact absurd hselected (h item.1 item.2)

/-- What a call of `observe_and_plan` that returns has done. -/
inductive Planned (policy : UniversePolicy) (store : UniverseStore) (now : Datetime) :
    PlanCall → Prop where
  | verified (hashes : List String) :
      Planned policy store now
        ⟨writeActive { store.memory.active with sourceHashes := hashes },
          { store.memory with active := { store.memory.active with sourceHashes := hashes } }, none⟩
  | steady : Planned policy store now ⟨[.unlinkPending], store.memory, none⟩
  | planned {result : SelectionResult} {effectiveAt : Datetime} {decision : VersionedDecision}
      (heffective : nextEffectiveAt now policy.decisionCutoffMinuteUtc = .ok effectiveAt)
      (hroles : ¬ (result.core = store.memory.active.core ∧
        result.boundary = store.memory.active.boundary ∧
          result.probe = store.memory.active.probe))
      (hdecision : plannedDecision store.memory.active result now effectiveAt = .ok decision) :
      Planned policy store now ⟨[.writePending decision], store.memory, some decision⟩

theorem observeAndPlan_planned {evidence : MarketEvidence} {call : PlanCall}
    (h : observeAndPlan policy store evidence now = .ok call) : Planned policy store now call := by
  unfold observeAndPlan at h
  obtain ⟨effectiveAt, heffective, h⟩ := exists_of_bind_ok h
  split at h
  · obtain ⟨verified, -, h⟩ := exists_of_bind_ok h
    cases h
    exact .verified _
  · obtain ⟨result, -, h⟩ := exists_of_bind_ok h
    split at h
    · cases h
      exact .steady
    · split at h
      · cases h
        exact .steady
      · rename_i hroles
        obtain ⟨decision, hdecision, h⟩ := exists_of_bind_ok h
        cases h
        exact .planned heffective hroles hdecision

end Calls

/-! ## At rest -/

/-- Between two calls the files say what the memory says. -/
structure UniverseStore.AtRest (store : UniverseStore) : Prop where
  active : store.files.active = some store.memory.active
  state : store.files.state = some (store.memory.memberSince, store.memory.coreSince)
  members : ∀ entry ∈ store.memory.memberSince, entry.1 ∈ store.memory.active.members

namespace UniverseStore
variable {policy : UniversePolicy} {store next : UniverseStore} {now : Datetime}

/-- A restart finds the store as it was. -/
theorem AtRest.restart (h : store.AtRest) : initializeStore policy store.files now = .ok store := by
  unfold initializeStore
  rw [h.active]
  dsimp only
  rw [h.state]

theorem members_apply (memory : Membership) (decision : VersionedDecision) :
    ∀ entry ∈ (memory.apply decision).memberSince,
      entry.1 ∈ (memory.apply decision).active.members := by
  intro entry hm
  exact of_decide_eq_true (List.mem_filter.mp hm).2

/-- The files after a commit. -/
theorem runAll_commitOps (files : UniverseFiles) (memory : Membership)
    (decision : VersionedDecision) (source : DueSource) :
    (files.runAll (commitOps memory decision source)).active = some decision ∧
      (files.runAll (commitOps memory decision source)).state =
        some ((memory.apply decision).memberSince, (memory.apply decision).coreSince) ∧
      (files.runAll (commitOps memory decision source)).pending = none := by
  cases source with
  | pending => exact ⟨rfl, rfl, rfl⟩
  | override name => exact ⟨rfl, rfl, rfl⟩

theorem AtRest.planned (h : store.AtRest) {call : PlanCall} (hcall : Planned policy store now call) :
    (⟨call.memory, store.files.runAll call.ops⟩ : UniverseStore).AtRest := by
  cases hcall with
  | verified hashes => exact ⟨rfl, h.state, h.members⟩
  | steady => exact ⟨h.active, h.state, h.members⟩
  | planned => exact ⟨h.active, h.state, h.members⟩

theorem AtRest.withoutOverrides (h : store.AtRest) (names : List String) :
    (⟨store.memory, store.files.withoutOverrides names⟩ : UniverseStore).AtRest :=
  ⟨h.active, h.state, h.members⟩

theorem atRest_commit (files : UniverseFiles) (memory : Membership) (decision : VersionedDecision)
    (source : DueSource) :
    (⟨memory.apply decision, files.runAll (commitOps memory decision source)⟩ :
      UniverseStore).AtRest := by
  obtain ⟨hactive, hstate, -⟩ := runAll_commitOps files memory decision source
  exact ⟨hactive, hstate, members_apply memory decision⟩

theorem AtRest.applyDue (h : store.AtRest) (now : Datetime) :
    ((applyDue policy store now).store store.files).AtRest := by
  by_cases hselected : ∃ decision source,
      (selectDue policy store.memory store.files now).2 = .ok (some (decision, source))
  · obtain ⟨decision, source, hselected⟩ := hselected
    rw [applyDue_chosen hselected]
    unfold DueCall.store
    dsimp only
    rw [UniverseFiles.runAll_append]
    exact atRest_commit _ store.memory decision source
  · obtain ⟨names, hstore, -⟩ := @applyDue_idle policy store now fun decision source heq =>
      hselected ⟨decision, source, heq⟩
    rw [hstore]
    exact h.withoutOverrides names

theorem AtRest.afterPlan (h : store.AtRest) {outcome : Except MembershipError PlanCall}
    (hcall : ∀ call, outcome = .ok call → Planned policy store now call) :
    (store.afterPlan outcome).AtRest := by
  cases outcome with
  | error error => exact h
  | ok call => exact h.planned (hcall call rfl)

theorem AtRest.step (h : store.AtRest) (event : UniverseEvent) :
    (store.step policy event).1.AtRest := by
  cases event with
  | observeAndPlan evidence now => exact h.afterPlan fun call hcall => observeAndPlan_planned hcall
  | dropOverride name content => exact ⟨h.active, h.state, h.members⟩
  | formalStart => exact ⟨h.active, h.state, h.members⟩
  | applyDue now => exact h.applyDue now

/-- Every run keeps the store at rest between its events. -/
theorem AtRest.run {events : List UniverseEvent} (h : store.AtRest)
    (hrun : Run (Step policy) store events next) : next.AtRest := by
  apply hrun.preserves _ h
  intro s event t hs hstep
  unfold Step at hstep
  rw [hstep]
  exact hs.step event

end UniverseStore

/-! ## A store to try things on -/

section Sample

def samplePolicy : UniversePolicy where
  rolling := {}
  bootstrapEvidenceSha256 := "evidence"
  core := sampleActive.core
  boundary := sampleActive.boundary
  probe := sampleActive.probe
  sizes := sampleActive.sizes
  sorted := sampleActive.sorted
  distinct := sampleActive.distinct
  positive := by decide

/-- The memory after the bootstrap. -/
def sampleMembership : Membership where
  active := samplePolicy.bootstrap sampleActive.effectiveAt
  memberSince := sampleActive.members.map fun symbol => (symbol, sampleActive.effectiveAt)
  coreSince := sampleActive.core.map fun symbol => (symbol, sampleActive.effectiveAt)

/-- What the bootstrap leaves, with one override on disk. -/
def sampleStore (override : CandidateOverride) : UniverseStore where
  memory := sampleMembership
  files := { UniverseFiles.runAll {}
      (writeActive sampleMembership.active ++ writeState sampleMembership) with
    overrides := [("swap.override.json", some override)]
    named := List.nodup_singleton _ }

theorem sampleStore_atRest (override : CandidateOverride) : (sampleStore override).AtRest := by
  refine ⟨rfl, rfl, ?_⟩
  intro entry hm
  obtain ⟨symbol, hsymbol, rfl⟩ := List.mem_map.mp hm
  exact hsymbol

/-- An override to `boundary` and `probe`, made and effective on the day after the bootstrap. -/
def sampleOverride (boundary probe : List String)
    (sizes : boundary.length = 5 ∧ probe.length = 5)
    (sorted : boundary.Pairwise (· < ·) ∧ probe.Pairwise (· < ·))
    (distinct : (boundary ++ probe).Nodup) : CandidateOverride where
  createdAt := sampleMidnight
  effectiveAt := sampleMidnight
  boundary
  probe
  sizes
  sorted
  distinct
  scheduled := le_rfl
  midnight := by
    unfold dayMicros
    exact Nat.mul_mod_left 739845 86400000000

theorem sampleActive_candidates : (sampleActive.boundary ++ sampleActive.probe).Nodup := by
  have hnodup := sampleActive.distinct
  rw [List.append_assoc] at hnodup
  exact (List.nodup_append.mp hnodup).2.1

/-- The roles of the active decision. -/
def sameRoles : CandidateOverride :=
  sampleOverride sampleActive.boundary sampleActive.probe sampleActive.sizes.2
    sampleActive.sorted.2 sampleActive_candidates

/-- The two roles exchanged. -/
def swappedRoles : CandidateOverride :=
  sampleOverride sampleActive.probe sampleActive.boundary sampleActive.sizes.2.symm
    sampleActive.sorted.2.symm (List.perm_append_comm.nodup_iff.mp sampleActive_candidates)

/-- An override of the same ten candidates is selected. -/
theorem sampleStore_selected {override : CandidateOverride}
    (heffective : override.effectiveAt = sampleMidnight)
    (hsame : ∀ symbol, symbol ∈ override.boundary ++ override.probe ↔
      symbol ∈ sampleActive.boundary ++ sampleActive.probe) :
    ∃ hcore, (selectDue samplePolicy (sampleStore override).memory (sampleStore override).files
      sampleMidnight).2 = .ok (some
        (overrideDecision (samplePolicy.bootstrap sampleActive.effectiveAt) override hcore,
          .override "swap.override.json")) := by
  have hminimum : ∃ minimum, minimumJoinedAt samplePolicy override.effectiveAt = .ok minimum := by
    rw [heffective]
    exact minimumJoinedAt_ok (by decide) (by decide)
  obtain ⟨minimum, hminimum⟩ := hminimum
  obtain ⟨hcore, hdecision⟩ :=
    @decisionFromOverride_same samplePolicy sampleMembership override minimum hminimum hsame
  refine ⟨hcore, selectDue_single rfl rfl hdecision ⟨Nat.lt_succ_self _, ?_⟩⟩
  exact heffective ▸ le_rfl

end Sample

end MiryFormal
