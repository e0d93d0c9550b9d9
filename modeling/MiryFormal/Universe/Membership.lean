import Mathlib.Data.Prod.Lex
import MiryFormal.Shared.KeyedDict
import MiryFormal.Universe.SelectionTotal

/-!
# The universe store

`UniverseStore` keeps the active decision and the dates at which symbols became members in
memory and under `control/universe/`. A plan waits in `pending.json`, an operator's wish in a
`*.override.json` file, and `apply_due` makes one of those that are due the active decision.
Every change of the store is the list of the file operations it makes, in their order, so that
it can be cut after any of them.
-/

namespace MiryFormal

set_option autoImplicit false

/-! ## Decisions -/

inductive UniverseDecisionReason where
  | formalBootstrap
  | dailyCandidate
  | weeklyCore
  | inactiveReplacement
  | manualCandidateOverride
  deriving DecidableEq

/-- The microseconds of a day. -/
def dayMicros : Nat := 86400000000

/-- `universe_version` and `universe_hash` are functions of the other fields. -/
structure VersionedDecision extends UniverseDecision where
  coreGeneration : Nat
  candidateRevision : Nat
  decisionSequence : Nat
  createdAt : Datetime
  reason : UniverseDecisionReason
  sourceHashes : List String
  positive : 1 ≤ coreGeneration ∧ 1 ≤ decisionSequence
  scheduled : createdAt.micros ≤ effectiveAt.micros
  midnight : reason ≠ .formalBootstrap → effectiveAt.micros % dayMicros = 0

structure CandidateOverride where
  createdAt : Datetime
  effectiveAt : Datetime
  boundary : List String
  probe : List String
  sizes : boundary.length = 5 ∧ probe.length = 5
  sorted : boundary.Pairwise (· < ·) ∧ probe.Pairwise (· < ·)
  distinct : (boundary ++ probe).Nodup
  scheduled : createdAt.micros ≤ effectiveAt.micros
  midnight : effectiveAt.micros % dayMicros = 0

/-- The fields of `UniversePolicyConfig` that the store reads. -/
structure UniversePolicy where
  rolling : RollingPolicy
  automationEnabled : Bool := true
  decisionCutoffMinuteUtc : Nat := 55
  bootstrapEvidenceSha256 : String
  coreGeneration : Nat := 1
  candidateRevision : Nat := 0
  decisionSequence : Nat := 1
  core : List String
  boundary : List String
  probe : List String
  sizes : core.length = 50 ∧ boundary.length = 5 ∧ probe.length = 5
  sorted : core.Pairwise (· < ·) ∧ boundary.Pairwise (· < ·) ∧ probe.Pairwise (· < ·)
  distinct : (core ++ boundary ++ probe).Nodup
  positive : 1 ≤ coreGeneration ∧ 1 ≤ decisionSequence

inductive MembershipError where
  | valueError (message : String)
  /-- A pydantic `ValidationError`, which is a `ValueError`. -/
  | validationError (model : String)
  | overflowError (message : String)
  | fileNotFoundError (path : String)
  /-- Whatever the selection raises on the evidence. -/
  | selectionError (message : String)
  deriving DecidableEq

/-- What `except ValueError` catches of the errors an override can cause. -/
def MembershipError.isValueError : MembershipError → Bool
  | valueError _ | validationError _ => true
  | overflowError _ | fileNotFoundError _ | selectionError _ => false

/-! ## The store -/

/-- The dicts `member_since` and `core_since` are read by lookups only. -/
structure Membership where
  active : VersionedDecision
  memberSince : List (String × Datetime)
  coreSince : List (String × Datetime)

/-- The files of `control/universe/`, and whether `formal-start.json` exists. The override files are
in the order in which `glob` finds them; the content of one that is not a `CandidateOverride` is
`none`. `decisions` is keyed by what the name of a decision file shows. -/
@[ext] structure UniverseFiles where
  active : Option VersionedDecision := none
  decisions : List ((Nat × Nat × Nat) × VersionedDecision) := []
  state : Option (List (String × Datetime) × List (String × Datetime)) := none
  pending : Option VersionedDecision := none
  overrides : List (String × Option CandidateOverride) := []
  formalStarted : Bool := false
  named : KeyedDict.Distinct id overrides := by exact List.nodup_nil

inductive UniverseOp where
  | writeActive (decision : VersionedDecision)
  | writeDecision (decision : VersionedDecision)
  | writeState (memberSince coreSince : List (String × Datetime))
  | writePending (decision : VersionedDecision)
  | unlinkPending
  | unlinkOverride (name : String)
  /-- The rename to `.rejected.json`, which no `glob` of the store finds. -/
  | rejectOverride (name : String)

/-- The override file `name` is gone. -/
def UniverseFiles.withoutOverride (files : UniverseFiles) (name : String) : UniverseFiles :=
  { files with
    overrides := KeyedDict.pop id name files.overrides
    named := KeyedDict.distinct_pop files.named name }

def UniverseFiles.run (files : UniverseFiles) : UniverseOp → UniverseFiles
  | .writeActive decision => { files with active := some decision }
  | .writeDecision decision =>
      { files with
        decisions := KeyedDict.set id
          (decision.decisionSequence, decision.coreGeneration, decision.candidateRevision) decision
          files.decisions }
  | .writeState memberSince coreSince => { files with state := some (memberSince, coreSince) }
  | .writePending decision => { files with pending := some decision }
  | .unlinkPending => { files with pending := none }
  | .unlinkOverride name => files.withoutOverride name
  | .rejectOverride name => files.withoutOverride name

def UniverseFiles.runAll (files : UniverseFiles) (ops : List UniverseOp) : UniverseFiles :=
  ops.foldl UniverseFiles.run files

structure UniverseStore where
  memory : Membership
  files : UniverseFiles

/-- `UniverseDecision(...)` of `initialize`. -/
def UniversePolicy.bootstrap (policy : UniversePolicy) (now : Datetime) : VersionedDecision where
  effectiveAt := now
  core := policy.core
  boundary := policy.boundary
  probe := policy.probe
  sizes := policy.sizes
  sorted := policy.sorted
  distinct := policy.distinct
  coreGeneration := policy.coreGeneration
  candidateRevision := policy.candidateRevision
  decisionSequence := policy.decisionSequence
  createdAt := now
  reason := .formalBootstrap
  sourceHashes := [policy.bootstrapEvidenceSha256]
  positive := policy.positive
  scheduled := le_rfl
  midnight := fun h => absurd rfl h

/-- `_write_active` -/
def writeActive (decision : VersionedDecision) : List UniverseOp :=
  [.writeActive decision, .writeDecision decision]

/-- `_write_state` -/
def writeState (memory : Membership) : List UniverseOp :=
  [.writeState memory.memberSince memory.coreSince]

/-- `initialize` -/
def initializeStore (policy : UniversePolicy) (files : UniverseFiles) (now : Datetime) :
    Except MembershipError UniverseStore :=
  match files.active with
  | some active =>
      match files.state with
      | some (memberSince, coreSince) => .ok ⟨⟨active, memberSince, coreSince⟩, files⟩
      | none => .error (.fileNotFoundError "membership-state.json")
  | none =>
      let active := policy.bootstrap now
      let memory : Membership := {
        active
        memberSince := active.members.map fun symbol => (symbol, now)
        coreSince := active.core.map fun symbol => (symbol, now) }
      .ok ⟨memory, files.runAll (writeActive active ++ writeState memory)⟩

/-! ## What is due -/

section Due
variable (policy : UniversePolicy) (memory : Membership)

/-- The decision `_decision_from_override` builds when its checks pass. -/
def overrideDecision (active : VersionedDecision) (override : CandidateOverride)
    (hcore : ∀ symbol ∈ override.boundary ++ override.probe, symbol ∉ active.core) :
    VersionedDecision where
  effectiveAt := override.effectiveAt
  core := active.core
  boundary := override.boundary
  probe := override.probe
  sizes := ⟨active.sizes.1, override.sizes⟩
  sorted := ⟨active.sorted.1, override.sorted⟩
  distinct := by
    have hnodup := active.distinct
    rw [List.append_assoc] at hnodup ⊢
    refine List.nodup_append.mpr ⟨(List.nodup_append.mp hnodup).1, override.distinct, ?_⟩
    intro symbol hm other hother heq
    subst heq
    exact hcore symbol hother hm
  coreGeneration := active.coreGeneration
  candidateRevision := active.candidateRevision + 1
  decisionSequence := active.decisionSequence + 1
  createdAt := override.createdAt
  reason := .manualCandidateOverride
  sourceHashes := []
  positive := ⟨active.positive.1, Nat.le_add_left 1 _⟩
  scheduled := override.scheduled
  midnight := fun _ => override.midnight

/-- `override.effective_at - timedelta(hours=...)` -/
def minimumJoinedAt (effectiveAt : Datetime) : Except String Datetime := do
  let dwell ← Timedelta.ofHours policy.rolling.candidateMinimumDwellHours
  effectiveAt.minus dwell

/-- The candidates an override takes out that joined after `minimum`. -/
def tooYoung (override : CandidateOverride) (minimum : Datetime) : List String :=
  (memory.active.boundary ++ memory.active.probe).filter fun symbol =>
    symbol ∉ override.boundary ++ override.probe ∧
      minimum.micros <
        ((KeyedDict.get id symbol memory.memberSince).getD override.effectiveAt).micros

/-- `_decision_from_override`; both roles of an override and of the active decision are sets. -/
def decisionFromOverride (override : CandidateOverride) :
    Except MembershipError VersionedDecision :=
  if hcore : ∀ symbol ∈ override.boundary ++ override.probe, symbol ∉ memory.active.core then
    if policy.rolling.candidateDailyReplacements <
        ((override.boundary ++ override.probe).filter fun symbol =>
          symbol ∉ memory.active.boundary ++ memory.active.probe).length then
      .error (.valueError "candidate override exceeds daily replacement limit")
    else
      match minimumJoinedAt policy override.effectiveAt with
      | .error message => .error (.overflowError message)
      | .ok minimum =>
          if tooYoung memory override minimum ≠ [] then
            .error (.valueError ("candidate override violates dwell: ['" ++
              "', '".intercalate (tooYoung memory override minimum) ++ "']"))
          else .ok (overrideDecision memory.active override hcore)
  else .error (.valueError "candidate override cannot include active core members")

/-- The `try` block of the loop over the override files. -/
def readOverride : Option CandidateOverride → Except MembershipError VersionedDecision
  | none => .error (.validationError "CandidateOverride")
  | some override => decisionFromOverride policy memory override

inductive DueSource where
  | pending
  | override (name : String)
  deriving DecidableEq

/-- `source_path.name` -/
def DueSource.name : DueSource → String
  | pending => "pending.json"
  | override name => name

/-- `source_path.unlink(missing_ok=True)` -/
def DueSource.unlink : DueSource → UniverseOp
  | pending => .unlinkPending
  | override name => .unlinkOverride name

/-- The source file is on disk. -/
def DueSource.Present (files : UniverseFiles) : DueSource → Prop
  | pending => files.pending ≠ none
  | override name => KeyedDict.get id name files.overrides ≠ none

/-- The decision comes after the active one and is effective. -/
def IsDue (now : Datetime) (decision : VersionedDecision) : Prop :=
  memory.active.decisionSequence < decision.decisionSequence ∧
    decision.effectiveAt.micros ≤ now.micros

instance (now : Datetime) (decision : VersionedDecision) : Decidable (IsDue memory now decision) :=
  inferInstanceAs (Decidable (_ ∧ _))

/-- The loop of `_select_due` over the override files: the files it renames, and the candidates it
finds unless an error escapes. -/
def scanOverrides (now : Datetime) : List (String × Option CandidateOverride) →
    List String × Except MembershipError (List (VersionedDecision × DueSource))
  | [] => ([], .ok [])
  | (name, content) :: later =>
      match readOverride policy memory content with
      | .error error =>
          if error.isValueError then
            (name :: (scanOverrides now later).1, (scanOverrides now later).2)
          else ([], .error error)
      | .ok decision =>
          if IsDue memory now decision then
            ((scanOverrides now later).1,
              (scanOverrides now later).2.map fun found => (decision, .override name) :: found)
          else scanOverrides now later

/-- The plan of `pending.json`, if it is a candidate. -/
def duePlan (files : UniverseFiles) (now : Datetime) : List (VersionedDecision × DueSource) :=
  match files.pending with
  | some decision =>
      if policy.automationEnabled ∧ IsDue memory now decision then [(decision, .pending)] else []
  | none => []

/-- The key of `max`. -/
def dueKey (item : VersionedDecision × DueSource) : Nat ×ₗ Nat ×ₗ Nat ×ₗ String :=
  toLex (item.1.decisionSequence, toLex (item.1.effectiveAt.micros,
    toLex (item.1.createdAt.micros, item.2.name)))

/-- `_select_due`, with the override files it renames. -/
def selectDue (files : UniverseFiles) (now : Datetime) :
    List String × Except MembershipError (Option (VersionedDecision × DueSource)) :=
  ((scanOverrides policy memory now files.overrides).1,
    (scanOverrides policy memory now files.overrides).2.map fun found =>
      (duePlan policy memory files now ++ found).argmax dueKey)

end Due

/-! ## Applying a decision -/

/-- `since.setdefault(symbol, joined)` -/
def setDefault (since : List (String × Datetime)) (symbol : String) (joined : Datetime) :
    List (String × Datetime) :=
  if (KeyedDict.get id symbol since).isSome then since else KeyedDict.set id symbol joined since

/-- The assignments of `apply_due` to the store's fields. -/
def Membership.apply (memory : Membership) (decision : VersionedDecision) : Membership where
  active := decision
  memberSince :=
    (decision.members.foldl (fun since symbol => setDefault since symbol decision.effectiveAt)
      memory.memberSince).filter fun entry => entry.1 ∈ decision.members
  coreSince :=
    (decision.core.foldl (fun since symbol =>
      if symbol ∉ memory.active.core then KeyedDict.set id symbol decision.effectiveAt since
      else setDefault since symbol decision.effectiveAt) memory.coreSince).filter
      fun entry => entry.1 ∈ decision.core

/-- A call of `apply_due`: its file operations in their order, the memory it leaves, and what it
returns or raises. -/
structure DueCall where
  ops : List UniverseOp
  memory : Membership
  outcome : Except MembershipError (Option VersionedDecision)

/-- The file operations that make the decision from `source` the active one. -/
def commitOps (memory : Membership) (decision : VersionedDecision) (source : DueSource) :
    List UniverseOp :=
  writeActive decision ++ writeState (memory.apply decision) ++ [source.unlink, .unlinkPending]

def applyDue (policy : UniversePolicy) (store : UniverseStore) (now : Datetime) : DueCall :=
  let rejects := (selectDue policy store.memory store.files now).1.map UniverseOp.rejectOverride
  match (selectDue policy store.memory store.files now).2 with
  | .error error => ⟨rejects, store.memory, .error error⟩
  | .ok none => ⟨rejects, store.memory, .ok none⟩
  | .ok (some (decision, source)) =>
      ⟨rejects ++ commitOps store.memory decision source, store.memory.apply decision,
        .ok (some decision)⟩

/-- The store after the call. -/
def DueCall.store (call : DueCall) (files : UniverseFiles) : UniverseStore :=
  ⟨call.memory, files.runAll call.ops⟩

/-! ## Planning -/

/-- The midnight that ends the day of `instant`. -/
def Datetime.nextMidnight (instant : Datetime) : Except MembershipError Datetime :=
  if h : (instant.micros / dayMicros + 1) * dayMicros < 3652059 * 86400000000 then
    .ok ⟨(instant.micros / dayMicros + 1) * dayMicros, h⟩
  else .error (.overflowError "date value out of range")

def nextEffectiveAt (now : Datetime) (cutoffMinute : Nat) : Except MembershipError Datetime := do
  let effective ← now.nextMidnight
  if now.micros % dayMicros / 3600000000 = 23 ∧
      cutoffMinute < now.micros % 3600000000 / 60000000 then
    effective.nextMidnight
  else return effective

def decisionReason (active : VersionedDecision) (result : SelectionResult)
    (effectiveAt : Datetime) : UniverseDecisionReason :=
  if result.inactive ≠ [] then .inactiveReplacement
  else if result.core ≠ active.core ∧ effectiveAt.weekday = 0 then .weeklyCore
  else .dailyCandidate

def nextVersion (active : VersionedDecision) (core : List String) : Nat × Nat :=
  if core ≠ active.core then (active.coreGeneration + 1, 0)
  else (active.coreGeneration, active.candidateRevision + 1)

/-- What the validators of `UniverseDecision` ask of a plan. -/
def PlanValid (result : SelectionResult) (now effectiveAt : Datetime) : Prop :=
  (result.core.length = 50 ∧ result.boundary.length = 5 ∧ result.probe.length = 5) ∧
    (result.core.Pairwise (· < ·) ∧ result.boundary.Pairwise (· < ·) ∧
      result.probe.Pairwise (· < ·)) ∧
    (result.core ++ result.boundary ++ result.probe).Nodup ∧
    now.micros ≤ effectiveAt.micros ∧ effectiveAt.micros % dayMicros = 0

instance (result : SelectionResult) (now effectiveAt : Datetime) :
    Decidable (PlanValid result now effectiveAt) :=
  inferInstanceAs (Decidable (_ ∧ _ ∧ _ ∧ _ ∧ _))

/-- `UniverseDecision(...)` of `observe_and_plan`. -/
def plannedDecision (active : VersionedDecision) (result : SelectionResult)
    (now effectiveAt : Datetime) : Except MembershipError VersionedDecision :=
  if h : PlanValid result now effectiveAt then
    .ok {
      effectiveAt
      core := result.core
      boundary := result.boundary
      probe := result.probe
      sizes := h.1
      sorted := h.2.1
      distinct := h.2.2.1
      coreGeneration := (nextVersion active result.core).1
      candidateRevision := (nextVersion active result.core).2
      decisionSequence := active.decisionSequence + 1
      createdAt := now
      reason := decisionReason active result effectiveAt
      sourceHashes := result.sourceHashes
      positive := by
        refine ⟨?_, Nat.le_add_left 1 _⟩
        unfold nextVersion
        split
        · exact Nat.le_add_left 1 _
        · exact active.positive.1
      scheduled := h.2.2.2.1
      midnight := fun _ => h.2.2.2.2 }
  else .error (.validationError "UniverseDecision")

/-- A list of symbols as Python prints it. -/
def reprSymbols (symbols : List String) : String :=
  "[" ++ ", ".intercalate (symbols.map fun symbol => "'" ++ symbol ++ "'") ++ "]"

/-- `validate_bootstrap_universe`: the sizes of the two pools, beside the roles it was given. -/
def validateBootstrapUniverse (evidence : MarketEvidence) (core boundary probe : List String)
    (policy : RollingPolicy) : Except String (Nat × Nat) := do
  let formalProbePool ← probePool evidence.rows policy
  let mature ← maturePool evidence.rows policy
  let maturePool := mature.filter fun row => row.symbol ∉ probe
  let missingMature := sortedSymbols
    ((core ++ boundary).filter fun symbol => symbol ∉ maturePool.map MarketRow.symbol)
  let missingProbe := sortedSymbols
    (probe.filter fun symbol => symbol ∉ formalProbePool.map MarketRow.symbol)
  if missingMature ≠ [] ∨ missingProbe ≠ [] then
    .error ("configured bootstrap members lack complete cross-sectional evidence: mature=" ++
      reprSymbols missingMature ++ " probe=" ++ reprSymbols missingProbe)
  else if maturePool.length < 55 then
    .error ("only " ++ toString maturePool.length ++
      " mature candidates have complete evidence")
  else if formalProbePool.length < 5 then
    .error ("only " ++ toString formalProbePool.length ++
      " recent candidates have complete evidence")
  else return (maturePool.length, formalProbePool.length)

/-- A call of `observe_and_plan` that returns. The files of the observation and the evaluation are
read by nothing here. -/
structure PlanCall where
  ops : List UniverseOp
  memory : Membership
  decision : Option VersionedDecision

def observeAndPlan (policy : UniversePolicy) (store : UniverseStore) (evidence : MarketEvidence)
    (now : Datetime) : Except MembershipError PlanCall := do
  let active := store.memory.active
  let effectiveAt ← nextEffectiveAt now policy.decisionCutoffMinuteUtc
  if store.files.formalStarted = false then
    let _ ← (validateBootstrapUniverse evidence active.core active.boundary active.probe
      policy.rolling).mapError MembershipError.selectionError
    let verified := { active with
      sourceHashes := policy.bootstrapEvidenceSha256 :: evidence.sourceHashes }
    return ⟨writeActive verified, { store.memory with active := verified }, none⟩
  else
    let result ← (selectRollingUniverse active.toUniverseDecision evidence effectiveAt
      store.memory.memberSince store.memory.coreSince policy.rolling).mapError
        MembershipError.selectionError
    if policy.automationEnabled = false then return ⟨[.unlinkPending], store.memory, none⟩
    else if result.core = active.core ∧ result.boundary = active.boundary ∧
        result.probe = active.probe then
      return ⟨[.unlinkPending], store.memory, none⟩
    else
      let decision ← plannedDecision active result now effectiveAt
      return ⟨[.writePending decision], store.memory, some decision⟩

end MiryFormal
