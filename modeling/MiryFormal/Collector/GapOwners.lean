import MiryFormal.Collector.GapTasks
import MiryFormal.Collector.MembershipUpdates

/-!
# The owners of open gaps

One collector process: the tasks of the sources, which are started, stopped and cancelled by each
other, and the loops of `CollectorService`, whose fields and local variables have gaps as well. It
runs in any order of events, until the service is stopped.
-/

namespace MiryFormal

set_option autoImplicit false

/-- One start of the sources. -/
structure SourceGroup where
  stop : Bool := false
  /-- A task has raised, and the task group cancels the others. -/
  failed : Bool := false
  deriving DecidableEq

/-- Where the service is in boot, in `_storage_loop` or in `_apply_midnight_boundary`; the two loops
hold `_operation_lock` there. -/
inductive OperationStage where
  | booting
  | free
  /-- In `_wait_source_readiness`. -/
  | starting (boot : Bool)
  /-- The local `stale` of `_close_stale_gaps`; the first one is being closed. -/
  | closingStale (boot : Bool) (stale : List Nat)
  | marking (boot : Bool)
  | openingStorage
  | stopping
  | closingStorage
  /-- The paths of `rollover` that are still to be read. -/
  | rolling (rest : List Nat)
  /-- `_roll_state_to` has read the state of the gap. -/
  | rewriting (gapId : Nat) (rest : List Nat)
  | deciding
  | openingBoundary
  | updating (boundaryGap : Option Nat)
  | closingBoundary (boundaryGap : Nat)
  | sealing
  deriving DecidableEq

/-- Where `_membership_loop` is. -/
inductive RetryStage where
  | waiting
  | updating (pending : PendingMembership String)
  | closing (pending : PendingMembership String)
  deriving DecidableEq

/-- The fields of `CollectorService` that have gaps, and the local variables of its loops. -/
structure ServiceGaps where
  storageGapId : Option Nat := none
  staleGaps : List Nat := []
  pendingMembership : Option (PendingMembership String) := none
  operation : OperationStage := .booting
  retry : RetryStage := .waiting
  deriving DecidableEq

/-- `openGaps` are the state files of `open-gaps`. -/
structure CollectorProcess where
  openGaps : Finset Nat
  nextGap : Nat
  tasks : List (Option SourceTask) := []
  groups : List SourceGroup := []
  /-- The group of `SourceManager._task`. -/
  running : Option Nat := none
  service : ServiceGaps
  deriving DecidableEq

/-- What the sources are started with: for each route whether it has depth streams. -/
structure Launch where
  routes : List Bool
  symbols : List String

/-- What a universe decision of the boundary does to the sources. -/
inductive BoundaryOutcome where
  | unchanged
  /-- `changed` is empty. -/
  | sameMembers
  | newMembers
  deriving DecidableEq

inductive ServiceGapEvent where
  | bootChecked (hardLimited : Bool) (launch : Launch)
  | sourcesReady
  | sourcesTimedOut
  | staleDone
  | staleFinished
  | marked
  | storageChecked (hardLimited : Bool) (launch : Launch)
  | storageOpened
  | sourcesStopped
  | storageClosed
  | midnight
  | rollBegun
  /-- A day has ended since the gap was opened or last rolled, or none has. -/
  | rolled (dayEnded : Bool)
  | rolloverDone
  | decided (outcome : BoundaryOutcome)
  | boundaryOpened
  | updated
  | deferred (members changed : List String)
  | boundaryClosed
  | sealed
  | retried
  | retryFailed
  | retryUpdated
  | retryClosed

/-- `finished` are the tasks that are cancelled in a call of the journal whose thread finishes. -/
inductive ProcessEvent where
  | task (index : Nat) (event : TaskEvent) (finished : List Nat)
  /-- `CancelledError` is raised where the task awaits. -/
  | cancelled (index : Nat) (finished : List Nat)
  /-- Another error escapes from the task. -/
  | raised (index : Nat) (finished : List Nat)
  /-- An error escapes from `_open_interest_loop` or from another task without gaps. -/
  | groupFailed (group : Nat)
  /-- `_replace_open_interest_tasks` -/
  | instruments (symbols : List String) (finished : List Nat)
  | service (event : ServiceGapEvent)

namespace ServiceGaps

/-- The gap of `_pending_membership`. -/
def pendingGap (service : ServiceGaps) : Option Nat := service.pendingMembership.bind (·.gap)

def retryGaps : RetryStage → List Nat
  | .waiting => []
  | .updating pending | .closing pending => pending.gap.toList

def operationGaps : OperationStage → List Nat
  | .closingStale _ stale => stale
  | .updating boundaryGap => boundaryGap.toList
  | .closingBoundary boundaryGap => [boundaryGap]
  | _ => []

def gaps (service : ServiceGaps) : List Nat :=
  service.storageGapId.toList ++ service.staleGaps ++ service.pendingGap.toList ++
    operationGaps service.operation ++ retryGaps service.retry

end ServiceGaps

namespace CollectorProcess
variable (s : CollectorProcess)

def task (index : Nat) : Option SourceTask := s.tasks[index]?.join

/-- What the tasks of the sources hold in their variables. -/
def taskGaps : List Nat := keptIn (fun task : SourceTask => task.body.gaps) s.tasks

/-- The gaps that a live owner has in a variable. -/
def gaps : List Nat := s.service.gaps ++ s.taskGaps

/-- Every gap of `open-gaps` has a live owner. -/
def NoOrphan : Prop := InCustody s.openGaps s.gaps

instance : Decidable s.NoOrphan := inferInstanceAs (Decidable (InCustody _ _))

/-- Behind `stale_open_events`, which has read all of `open-gaps`. -/
def booted (leftover : List (Nat × GapReason)) : CollectorProcess where
  openGaps := (leftover.map Prod.fst).toFinset
  nextGap := (leftover.map Prod.fst).foldr max 0 + 1
  service :=
    { storageGapId := (leftover.find? fun gap => gap.2 = .storageExhausted).map Prod.fst
      staleGaps := leftover.map Prod.fst }

def change (change : Change Nat) : CollectorProcess :=
  { s with
    openGaps := change.apply s.openGaps
    nextGap := if change = .opened s.nextGap then s.nextGap + 1 else s.nextGap }

def groupOf (index : Nat) : SourceGroup := s.groups[index]?.getD {}

/-! ### The tasks -/

def isReanchorOf (connection : Nat) (slot : Option SourceTask) : Bool :=
  match slot with
  | some ⟨_, .reanchor task⟩ => task.connection = connection
  | _ => false

/-- A connection and its `_resync_tasks`. -/
def connectionTasks (connection : Nat) : List Nat :=
  connection :: (List.range s.tasks.length).filter fun index =>
    isReanchorOf connection (s.tasks[index]?.join)

def context (index group : Nat) : TaskContext where
  self := index
  stop := (s.groupOf group).stop
  nextGap := s.nextGap
  nextTask := s.tasks.length
  alive connection := (s.task connection).isSome
  resyncing key := s.tasks.any fun slot =>
    match slot with
    | some ⟨_, .reanchor task⟩ => task.connection = index ∧ task.key = key
    | _ => false

/-- The task ends where it awaits. -/
def endTask (finished : List Nat) (index : Nat) : CollectorProcess :=
  match s.task index with
  | none => s
  | some task =>
      let ended := { s with tasks := s.tasks.set index none }
      if index ∈ finished then ended.change (task.body.finishCall s.nextGap) else ended

def endTasks (finished indices : List Nat) : CollectorProcess :=
  indices.foldl (fun s index => s.endTask finished index) s

/-- The tasks that end with the task when it is cancelled, or raises. -/
def endedWith (index : Nat) (stops : List Nat) : List Nat :=
  index :: stops.flatMap s.connectionTasks

def stepTask (index : Nat) (task : SourceTask) (move : TaskMove) : CollectorProcess :=
  { s with
    tasks := s.tasks.set index (move.after.map (SourceTask.mk task.group)) ++
      move.starts.map fun body => some (SourceTask.mk task.group body) }.change move.change

/-- The tasks that end with the connections that the step of the task stops. -/
def stopped (index : Nat) (task : SourceTask) (event : TaskEvent) : List Nat :=
  (task.body.stops index event).flatMap s.connectionTasks

def nextTask (index : Nat) (event : TaskEvent) (finished : List Nat) : Option CollectorProcess := do
  let task ← s.task index
  let ended := s.endTasks finished (s.stopped index task event)
  let move ← task.body.next (ended.context index task.group) event
  return ended.stepTask index task move

/-- A poll loop of a symbol that is cancelled although no other task has failed. -/
def isOpenInterest : TaskBody → Bool
  | .poll loop => loop.symbol.isSome
  | _ => false

/-- A task of the group itself, or of its open-interest loop. -/
def inGroup : TaskBody → Bool
  | .route _ | .watch _ | .poll _ => true
  | _ => false

def stopsCancelled : TaskBody → List Nat
  | .route run => run.stopsCancelled
  | _ => []

def stopsRaised : TaskBody → List Nat
  | .route run => run.stopsRaised
  | _ => []

/-- The task group cancels what is left of it when a task has raised. `_open_interest_loop` cancels
its loops at the end. -/
def nextCancelled (index : Nat) (finished : List Nat) : Option CollectorProcess := do
  let task ← s.task index
  let group := s.groupOf task.group
  if inGroup task.body ∧ (group.failed ∨ group.stop ∧ isOpenInterest task.body) then
    return s.endTasks finished (s.endedWith index (stopsCancelled task.body))
  else none

def failGroup (group : Nat) : CollectorProcess :=
  { s with groups := s.groups.modify group fun group => { group with failed := true } }

def nextRaised (index : Nat) (finished : List Nat) : Option CollectorProcess := do
  let task ← s.task index
  if inGroup task.body then
    return (s.endTasks finished (s.endedWith index (stopsRaised task.body))).failGroup task.group
  else none

/-- `removed` -/
def removedPolls (group : Nat) (symbols : List String) : List Nat :=
  (List.range s.tasks.length).filter fun index =>
    match s.task index with
    | some ⟨own, .poll loop⟩ => own = group ∧ loop.symbol.any (· ∉ symbols)
    | _ => false

/-- The symbols of `_oi_tasks`. -/
def polled (group : Nat) : List String :=
  s.tasks.filterMap fun slot =>
    match slot with
    | some ⟨own, .poll loop⟩ => if own = group then loop.symbol else none
    | _ => none

def pollTasks (group : Nat) (symbols : List String) : List (Option SourceTask) :=
  symbols.map fun symbol => some ⟨group, .poll { symbol := some symbol }⟩

def nextInstruments (symbols : List String) (finished : List Nat) : Option CollectorProcess := do
  let group ← s.running
  let ended := s.endTasks finished (s.removedPolls group symbols)
  return { ended with
    tasks := ended.tasks ++
      pollTasks group (symbols.filter (· ∉ s.polled group)) }

/-! ### The service -/

/-- What `_run` creates for the task group. -/
def launchTasks (group : Nat) (launch : Launch) : List (Option SourceTask) :=
  (launch.routes.flatMap fun depthStreams =>
      [some ⟨group, .route { depthStreams }⟩, some ⟨group, .watch {}⟩]) ++
    [some ⟨group, .poll {}⟩, some ⟨group, .poll {}⟩] ++ pollTasks group launch.symbols

/-- `SourceManager.start` -/
def startSources (launch : Launch) : CollectorProcess :=
  { s with
    groups := s.groups ++ [{}]
    running := some s.groups.length
    tasks := s.tasks ++ launchTasks s.groups.length launch }

/-- `SourceManager.stop` sets the event. -/
def stopSources : CollectorProcess :=
  match s.running with
  | none => s
  | some group =>
      { s with groups := s.groups.modify group fun group => { group with stop := true } }

/-- The task group waits for the task. When a poll loop has raised, it does not wait for the
others. -/
def awaited (group : SourceGroup) : TaskBody → Bool
  | .route _ | .watch _ => true
  | .poll _ => !group.failed
  | _ => false

def isDone (group : Nat) : Bool :=
  s.tasks.all fun slot =>
    match slot with
    | some task => !(task.group = group ∧ awaited (s.groupOf group) task.body)
    | none => true

def goTo (operation : OperationStage) : CollectorProcess :=
  { s with service := { s.service with operation } }

/-- `raise_if_failed` raises, which ends the service. -/
def sourcesFailed : Bool :=
  match s.running with
  | none => false
  | some group => (s.groupOf group).failed && s.isDone group

/-- `if self._sources.running: await self._sources.stop()` -/
def limited : CollectorProcess :=
  if s.running = none then s.goTo .free else s.stopSources.goTo .stopping

/-- `if self._pending_membership == pending: self._pending_membership = None` -/
def clearPending (pending : PendingMembership String) : CollectorProcess :=
  { s with
    service := { s.service with
      pendingMembership :=
        if s.service.pendingMembership = some pending then none else s.service.pendingMembership
      retry := .waiting } }

def nextService : ServiceGapEvent → Option CollectorProcess
  | .bootChecked hardLimited launch =>
      match s.service.operation with
      | .booting =>
          some (if hardLimited then s.goTo .free else (s.startSources launch).goTo (.starting true))
      | _ => none
  | .sourcesReady =>
      match s.service.operation with
      | .starting boot =>
          some { s with
            service := { s.service with
              staleGaps := []
              operation := .closingStale boot s.service.staleGaps } }
      | _ => none
  | .sourcesTimedOut =>
      match s.service.operation with
      | .starting false => some (s.stopSources.goTo .stopping)
      | _ => none
  | .staleDone =>
      match s.service.operation with
      | .closingStale boot (gapId :: stale) =>
          some (if s.service.storageGapId = some gapId then s.goTo (.closingStale boot stale)
            else (s.change (.closed gapId)).goTo (.closingStale boot stale))
      | _ => none
  | .staleFinished =>
      match s.service.operation with
      | .closingStale boot [] => some (s.goTo (.marking boot))
      | _ => none
  | .marked =>
      match s.service.operation with
      | .marking boot => some (s.goTo (if boot then .free else .closingStorage))
      | _ => none
  | .storageChecked hardLimited launch =>
      match s.service.operation with
      | .free =>
          if s.sourcesFailed then none
          else if hardLimited then
            some (if s.service.storageGapId = none then s.goTo .openingStorage else s.limited)
          else
            some (if s.service.storageGapId = none then s
              else if s.running = none then (s.startSources launch).goTo (.starting false)
              else s.goTo .closingStorage)
      | _ => none
  | .storageOpened =>
      match s.service.operation with
      | .openingStorage =>
          let opened := s.change (.opened s.nextGap)
          some { opened with
            service := { opened.service with storageGapId := some s.nextGap } }.limited
      | _ => none
  | .sourcesStopped =>
      match s.service.operation, s.running with
      | .stopping, some group =>
          if s.isDone group then some ({ s with running := none }.goTo .free) else none
      | _, _ => none
  | .storageClosed =>
      match s.service.operation, s.service.storageGapId with
      | .closingStorage, some gapId =>
          let closed := s.change (.closed gapId)
          some ({ closed with service := { closed.service with storageGapId := none } }.goTo .free)
      | _, _ => none
  | .midnight =>
      match s.service.operation with
      | .free => some (s.goTo (.rolling (s.openGaps.sort (· ≤ ·))))
      | _ => none
  | .rollBegun =>
      match s.service.operation with
      | .rolling (gapId :: rest) =>
          -- else `_read_gap_event` raises
          if gapId ∈ s.openGaps then some (s.goTo (.rewriting gapId rest)) else none
      | _ => none
  | .rolled dayEnded =>
      match s.service.operation with
      | .rewriting gapId rest =>
          some ((if dayEnded then { s with openGaps := insert gapId s.openGaps } else s).goTo
            (.rolling rest))
      | _ => none
  | .rolloverDone =>
      match s.service.operation with
      | .rolling [] => some (s.goTo .deciding)
      | _ => none
  | .decided outcome =>
      match s.service.operation with
      | .deciding =>
          some (s.goTo (match outcome with
            | .unchanged => .sealing
            | .sameMembers => .updating none
            | .newMembers => .openingBoundary))
      | _ => none
  | .boundaryOpened =>
      match s.service.operation with
      | .openingBoundary => some ((s.change (.opened s.nextGap)).goTo (.updating (some s.nextGap)))
      | _ => none
  | .updated =>
      match s.service.operation with
      | .updating boundaryGap =>
          some (s.goTo (match boundaryGap with
            | some gapId =>
                if s.service.pendingMembership = none then .closingBoundary gapId else .sealing
            | none => .sealing))
      | _ => none
  | .deferred members changed =>
      match s.service.operation with
      | .updating boundaryGap =>
          some { s with
            service := { s.service with
              pendingMembership := some ⟨members, boundaryGap, changed⟩
              operation := .sealing } }
      | _ => none
  | .boundaryClosed =>
      match s.service.operation with
      | .closingBoundary gapId => some ((s.change (.closed gapId)).goTo .sealing)
      | _ => none
  | .sealed =>
      match s.service.operation with
      | .sealing => some (s.goTo .free)
      | _ => none
  | .retried =>
      match s.service.retry, s.service.pendingMembership with
      | .waiting, some pending =>
          some { s with service := { s.service with retry := .updating pending } }
      | _, _ => none
  | .retryFailed =>
      match s.service.retry with
      | .updating _ => some { s with service := { s.service with retry := .waiting } }
      | _ => none
  | .retryUpdated =>
      match s.service.retry with
      | .updating pending =>
          some (if pending.gap = none then s.clearPending pending
            else { s with service := { s.service with retry := .closing pending } })
      | _ => none
  | .retryClosed =>
      match s.service.retry with
      | .closing pending =>
          pending.gap.map fun gapId => (s.change (.closed gapId)).clearPending pending
      | _ => none

def next : ProcessEvent → Option CollectorProcess
  | .task index event finished => s.nextTask index event finished
  | .cancelled index finished => s.nextCancelled index finished
  | .raised index finished => s.nextRaised index finished
  | .groupFailed group => some (s.failGroup group)
  | .instruments symbols finished => s.nextInstruments symbols finished
  | .service event => s.nextService event

def Step (s : CollectorProcess) (event : ProcessEvent) (t : CollectorProcess) : Prop :=
  s.next event = some t

end CollectorProcess

end MiryFormal
