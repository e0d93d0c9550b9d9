import MiryFormal.Collector.BackdatedGaps
import MiryFormal.Shared.Custody

/-!
# The tasks of the sources, and their gaps

The id of a gap is in a variable of the task that is to close it: a re-anchor task,
`RouteRunner.run`, `liveness_loop` or a poll loop. A task runs from one await to the next. Of the
journal only the state files of `open-gaps` are followed: a call of `open` or `close` returns when
its thread has written or removed one, and a call that is cancelled may leave that thread behind.
-/

namespace MiryFormal

set_option autoImplicit false

/-! ## The tasks of the sources -/

/-- A call of `GapJournal` that a task awaits. -/
inductive GapCallInFlight where
  | opening
  | closing (gapId : Nat)
  deriving DecidableEq

/-- `reanchor` -/
structure ReanchorTask where
  /-- The task of the connection, which has it in `_resync_tasks`. -/
  connection : Nat
  key : LivenessKey
  gapId : Nat
  /-- It awaits `_on_depth_reanchored`. -/
  closing : Bool := false
  deriving DecidableEq

/-- Where `RouteRunner.run` awaits, with the tasks of its connections. -/
inductive RouteStage where
  /-- Before the head of the loop, with no connection. -/
  | resting
  /-- In `_start_ready_connection`; `transport_reported` -/
  | starting (connection : Nat) (reported : Bool)
  | closingTransport (connection : Nat)
  | closingReanchor (connection : Nat)
  /-- `leaving` is the connection that is stopped behind the calls. -/
  | openingTransport (leaving : Option Nat)
  | openingReanchor (leaving : Option Nat)
  /-- In `_wait_current`. -/
  | waiting (current : Nat)
  | replacing (current replacement : Nat)
  | overlapping (current replacement : Nat)
  /-- The replacement has failed. -/
  | pausing (current : Nat)
  deriving DecidableEq

/-- The local variables of `RouteRunner.run` that have a gap. -/
structure RouteTask where
  /-- The route has depth streams, else `_open_l2_reanchor_gap` opens nothing. -/
  depthStreams : Bool
  gapId : Option Nat := none
  l2GapId : Option Nat := none
  stage : RouteStage := .resting
  deriving DecidableEq

/-- Where `liveness_loop` awaits, with the keys that it goes on with. -/
inductive WatchStage where
  | sleeping
  /-- The keys of `active_gaps` that are still to be looked at. -/
  | looking (rest : List LivenessKey)
  | closing (key : LivenessKey) (rest : List LivenessKey)
  /-- The gap of the first key of `rest` is being opened. -/
  | opening (stale rest : List LivenessKey)
  | refreshing (stale : List LivenessKey)
  /-- The gap of the first key of `rest` is being closed. -/
  | closingRefreshed (rest : List LivenessKey)
  deriving DecidableEq

/-- `liveness_loop` -/
structure WatchTask where
  activeGaps : List (LivenessKey × Nat) := []
  stage : WatchStage := .sleeping
  deriving DecidableEq

inductive PollStage where
  | waiting
  | polling
  | opening
  | closing
  deriving DecidableEq

/-- `_open_interest_symbol_loop` of a symbol, `_discovery_loop` or `_clock_loop`. -/
structure PollTask where
  symbol : Option String := none
  gap : Option Nat := none
  stage : PollStage := .waiting
  deriving DecidableEq

inductive TaskBody where
  /-- `BinanceWebSocketConnection.run`, and the break whose gap its receive loop is opening. -/
  | connection (opening : Option LivenessKey)
  | reanchor (task : ReanchorTask)
  | route (run : RouteTask)
  | watch (loop : WatchTask)
  | poll (loop : PollTask)
  deriving DecidableEq

structure SourceTask where
  /-- The start of the sources that it belongs to. -/
  group : Nat
  body : TaskBody
  deriving DecidableEq

/-! ## Their events -/

inductive ConnectionTaskEvent where
  /-- A sequence break that is not ignored. -/
  | broken (key : LivenessKey)
  | gapOpened
  /-- `run` raises, and cancels the re-anchor tasks. -/
  | lost
  deriving DecidableEq

inductive ReanchorTaskEvent where
  | bridged
  | gapClosed
  | failed
  deriving DecidableEq

inductive RouteTaskEvent where
  | begun
  | transportReady
  | transportClosed
  | ready
  | reanchorClosed
  | startFailed
  /-- The connection has ended with a `CancelledError`, and `run` returns. -/
  | startCancelled
  | transportOpened
  | reanchorOpened
  | connectionFailed
  | reconnectRequested
  | rotationDue
  | replacementReady
  | replaced
  | replacementFailed
  | resumed
  | stopSeen
  deriving DecidableEq

inductive WatchTaskEvent where
  | awake
  /-- No event has come for the key. -/
  | left
  | recovered
  | gapClosed
  | found (stale : List LivenessKey)
  /-- `_last_event` still has the key, or `_last_event[key]` raises. -/
  | gapOpened (present : Bool)
  | refreshed
  | refreshFailed
  | stopSeen
  deriving DecidableEq

inductive PollTaskEvent where
  | begun
  | succeeded
  | failed
  | gapOpened
  | gapClosed
  | stopSeen
  deriving DecidableEq

inductive TaskEvent where
  | connection (event : ConnectionTaskEvent)
  | reanchor (event : ReanchorTaskEvent)
  | route (event : RouteTaskEvent)
  | watch (event : WatchTaskEvent)
  | poll (event : PollTaskEvent)
  deriving DecidableEq

/-- What a task sees of the others. -/
structure TaskContext where
  self : Nat
  /-- The event `stop` of its sources. -/
  stop : Bool
  nextGap : Nat
  nextTask : Nat
  alive : Nat → Bool
  /-- `key in self._resync_tasks` -/
  resyncing : LivenessKey → Bool

/-- What a task has done when it awaits again. -/
structure TaskMove where
  /-- `none`: it has returned or raised. -/
  after : Option TaskBody
  change : Change Nat := .keep
  starts : List TaskBody := []

/-! ## One step of a task -/

namespace ReanchorTask

def next (task : ReanchorTask) : ReanchorTaskEvent → Option TaskMove
  | .bridged =>
      if task.closing then none
      else some { after := some (.reanchor { task with closing := true }) }
  | .gapClosed =>
      if task.closing then some { after := none, change := .closed task.gapId } else none
  | .failed => if task.closing then none else some { after := none }

end ReanchorTask

namespace RouteTask
variable (context : TaskContext) (run : RouteTask)

def gaps : List Nat := run.gapId.toList ++ run.l2GapId.toList

/-- The task goes on at another await. -/
def goTo (stage : RouteStage) (change : Change Nat := .keep) (starts : List TaskBody := []) :
    TaskMove where
  after := some (.route { run with stage })
  change
  starts

/-- `current` is left for good when the gaps are open. -/
def next : RouteTaskEvent → Option TaskMove
  | .begun =>
      match run.stage with
      | .resting =>
          if context.stop then none
          else some (run.goTo (.starting context.nextTask false) .keep [.connection none])
      | _ => none
  | .transportReady =>
      match run.stage with
      | .starting connection false =>
          if context.alive connection then
            some (run.goTo (if run.gapId = none then .starting connection true
              else .closingTransport connection))
          else none
      | _ => none
  | .transportClosed =>
      match run.stage, run.gapId with
      | .closingTransport connection, some gapId =>
          some ({ run with gapId := none }.goTo (.starting connection true) (.closed gapId))
      | _, _ => none
  | .ready =>
      match run.stage with
      | .starting connection true =>
          some (run.goTo (if run.l2GapId = none then .waiting connection
            else .closingReanchor connection))
      | _ => none
  | .reanchorClosed =>
      match run.stage, run.l2GapId with
      | .closingReanchor connection, some gapId =>
          some ({ run with l2GapId := none }.goTo (.waiting connection) (.closed gapId))
      | _, _ => none
  | .startFailed =>
      match run.stage with
      | .starting _ _ =>
          some (run.goTo (if run.gapId = none then .openingTransport none else .resting))
      | _ => none
  | .startCancelled =>
      match run.stage with
      | .starting _ _ | .replacing _ _ => some { after := none }
      | _ => none
  | .transportOpened =>
      match run.stage with
      | .openingTransport leaving =>
          some ({ run with gapId := some context.nextGap }.goTo
            (if run.l2GapId = none ∧ run.depthStreams then .openingReanchor leaving else .resting)
            (.opened context.nextGap))
      | _ => none
  | .reanchorOpened =>
      match run.stage with
      | .openingReanchor _ =>
          some ({ run with l2GapId := some context.nextGap }.goTo .resting
            (.opened context.nextGap))
      | _ => none
  | .connectionFailed =>
      match run.stage with
      | .waiting current =>
          if context.alive current then none else some (run.goTo (.openingTransport none))
      | _ => none
  | .reconnectRequested =>
      match run.stage with
      | .waiting current => some (run.goTo (.openingTransport (some current)))
      | _ => none
  | .rotationDue =>
      match run.stage with
      | .waiting current =>
          some (run.goTo (.replacing current context.nextTask) .keep [.connection none])
      | _ => none
  | .replacementReady =>
      match run.stage with
      | .replacing current replacement => some (run.goTo (.overlapping current replacement))
      | _ => none
  | .replaced =>
      match run.stage with
      | .overlapping _ replacement => some (run.goTo (.waiting replacement))
      | _ => none
  | .replacementFailed =>
      match run.stage with
      | .replacing current _ => some (run.goTo (.pausing current))
      | _ => none
  | .resumed =>
      match run.stage with
      | .pausing current => if context.stop then none else some (run.goTo (.waiting current))
      | _ => none
  | .stopSeen =>
      match run.stage with
      | .resting | .starting _ _ | .waiting _ | .replacing _ _ | .overlapping _ _ | .pausing _ =>
          if context.stop then some { after := none } else none
      | _ => none

/-- The connections that `_stop_handle` ends in the step. -/
def stops : RouteTaskEvent → List Nat
  | .startFailed =>
      match run.stage with
      | .starting connection _ => [connection]
      | _ => []
  | .startCancelled =>
      match run.stage with
      | .starting connection _ => [connection]
      | .replacing current replacement => [replacement, current]
      | _ => []
  | .transportOpened =>
      match run.stage with
      | .openingTransport (some leaving) =>
          if run.l2GapId = none ∧ run.depthStreams then [] else [leaving]
      | _ => []
  | .reanchorOpened =>
      match run.stage with
      | .openingReanchor (some leaving) => [leaving]
      | _ => []
  | .replaced =>
      match run.stage with
      | .overlapping current _ => [current]
      | _ => []
  | .replacementFailed =>
      match run.stage with
      | .replacing _ replacement => [replacement]
      | _ => []
  | .stopSeen =>
      match run.stage with
      | .starting connection _ => [connection]
      | .waiting current => [current]
      | .replacing current replacement | .overlapping current replacement =>
          [replacement, current]
      -- the loop is left at its head, and the connection is not stopped
      | _ => []
  | _ => []

/-- The connections that are stopped when the task is cancelled. -/
def stopsCancelled : List Nat :=
  match run.stage with
  | .starting connection _ | .closingTransport connection => [connection]
  | .replacing current replacement => [replacement, current]
  | .overlapping current _ => [current]
  | _ => []

/-- The connection that is stopped when another error escapes. -/
def stopsRaised : List Nat :=
  match run.stage with
  | .starting connection _ | .closingTransport connection => [connection]
  | .replacing _ replacement => [replacement]
  | _ => []

end RouteTask

namespace WatchTask
variable (context : TaskContext) (loop : WatchTask)

def gaps : List Nat := loop.activeGaps.map Prod.snd

/-- `active_gaps.get(key)` -/
def activeGap (key : LivenessKey) : Option Nat :=
  (loop.activeGaps.find? fun active => active.1 = key).map Prod.snd

/-- `del active_gaps[key]` -/
def removeActive (key : LivenessKey) : WatchTask :=
  { loop with activeGaps := loop.activeGaps.eraseP fun active => active.1 = key }

/-- `for stream_type, symbol, affected_from_ns in stale`, up to the next gap that is opened. -/
def openNext (stale rest : List LivenessKey) : WatchTask :=
  match rest.dropWhile fun key => (loop.activeGap key).isSome with
  | [] => { loop with stage := .refreshing stale }
  | rest => { loop with stage := .opening stale rest }

/-- The same loop behind a refresh, up to the next gap that is closed. -/
def closeNext (rest : List LivenessKey) : WatchTask :=
  match rest.dropWhile fun key => (loop.activeGap key).isNone with
  | [] => { loop with stage := .sleeping }
  | rest => { loop with stage := .closingRefreshed rest }

def next : WatchTaskEvent → Option TaskMove
  | .awake =>
      match loop.stage with
      | .sleeping =>
          let keys := loop.activeGaps.map Prod.fst
          if context.stop then none
          else some { after := some (.watch { loop with stage := .looking keys }) }
      | _ => none
  | .left =>
      match loop.stage with
      | .looking (_ :: rest) => some { after := some (.watch { loop with stage := .looking rest }) }
      | _ => none
  | .recovered =>
      match loop.stage with
      | .looking (key :: rest) =>
          some { after := some (.watch { loop with stage := .closing key rest }) }
      | _ => none
  | .gapClosed =>
      match loop.stage with
      | .closing key rest =>
          (loop.activeGap key).map fun gapId =>
            { after := some (.watch { loop.removeActive key with stage := .looking rest })
              change := .closed gapId }
      | .closingRefreshed (key :: rest) =>
          (loop.activeGap key).map fun gapId =>
            { after := some (.watch ((loop.removeActive key).closeNext rest))
              change := .closed gapId }
      | _ => none
  | .found stale =>
      match loop.stage with
      | .looking [] =>
          some
            { after := some (.watch (if stale = [] then { loop with stage := .sleeping }
                else loop.openNext stale stale)) }
      | _ => none
  | .gapOpened present =>
      match loop.stage with
      | .opening stale (key :: rest) =>
          some
            { after :=
                if present then
                  some (.watch ({ loop with
                    activeGaps := loop.activeGaps ++ [(key, context.nextGap)] }.openNext stale
                      rest))
                else none
              change := .opened context.nextGap }
      | _ => none
  | .refreshed =>
      match loop.stage with
      | .refreshing stale => some { after := some (.watch (loop.closeNext stale)) }
      | _ => none
  | .refreshFailed =>
      match loop.stage with
      | .refreshing _ => some { after := some (.watch { loop with stage := .sleeping }) }
      | _ => none
  | .stopSeen =>
      match loop.stage with
      | .sleeping | .refreshing _ => if context.stop then some { after := none } else none
      | _ => none

end WatchTask

namespace PollTask
variable (context : TaskContext) (loop : PollTask)

def next : PollTaskEvent → Option TaskMove
  | .begun =>
      match loop.stage with
      | .waiting =>
          if context.stop then none
          else some { after := some (.poll { loop with stage := .polling }) }
      | _ => none
  | .succeeded =>
      match loop.stage with
      | .polling =>
          some
            { after := some (.poll
                { loop with stage := if loop.gap = none then .waiting else .closing }) }
      | _ => none
  | .failed =>
      match loop.stage with
      | .polling =>
          some
            { after := some (.poll
                { loop with stage := if loop.gap = none then .opening else .waiting }) }
      | _ => none
  | .gapOpened =>
      match loop.stage with
      | .opening =>
          some
            { after := some (.poll
                { loop with
                  gap := some context.nextGap
                  stage := .waiting })
              change := .opened context.nextGap }
      | _ => none
  | .gapClosed =>
      match loop.stage, loop.gap with
      | .closing, some gapId =>
          some
            { after := some (.poll
                { loop with
                  gap := none
                  stage := .waiting })
              change := .closed gapId }
      | _, _ => none
  | .stopSeen =>
      match loop.stage with
      | .waiting => if context.stop then some { after := none } else none
      | _ => none

end PollTask

namespace TaskBody

def nextConnection (context : TaskContext) (opening : Option LivenessKey) :
    ConnectionTaskEvent → Option TaskMove
  | .broken key =>
      if opening = none ∧ context.resyncing key = false then
        some { after := some (.connection (some key)) }
      else none
  | .gapOpened =>
      opening.map fun key =>
        { after := some (.connection none)
          change := .opened context.nextGap
          starts := [.reanchor { connection := context.self, key, gapId := context.nextGap }] }
  | .lost => some { after := none }

def next (context : TaskContext) : TaskBody → TaskEvent → Option TaskMove
  | .connection opening, .connection event => nextConnection context opening event
  | .reanchor task, .reanchor event => task.next event
  | .route run, .route event => run.next context event
  | .watch loop, .watch event => loop.next context event
  | .poll loop, .poll event => loop.next context event
  | _, _ => none

/-- The connections that the step of the task ends. -/
def stops (self : Nat) : TaskBody → TaskEvent → List Nat
  | .connection _, .connection .lost => [self]
  | .route run, .route event => run.stops event
  | _, _ => []

/-- The gaps in the variables of the task. -/
def gaps : TaskBody → List Nat
  | .connection _ => []
  | .reanchor task => [task.gapId]
  | .route run => run.gaps
  | .watch loop => loop.gaps
  | .poll loop => loop.gap.toList

/-- The call of the journal that the task awaits. -/
def gapCall : TaskBody → Option GapCallInFlight
  | .connection opening => opening.map fun _ => .opening
  | .reanchor task => if task.closing then some (.closing task.gapId) else none
  | .route run =>
      match run.stage with
      | .openingTransport _ | .openingReanchor _ => some .opening
      | .closingTransport _ => run.gapId.map .closing
      | .closingReanchor _ => run.l2GapId.map .closing
      | _ => none
  | .watch loop =>
      match loop.stage with
      | .opening _ _ => some .opening
      | .closing key _ | .closingRefreshed (key :: _) => (loop.activeGap key).map .closing
      | _ => none
  | .poll loop =>
      match loop.stage with
      | .opening => some .opening
      | .closing => loop.gap.map .closing
      | _ => none

/-- What the thread of a call does that has been cancelled. -/
def finishCall (body : TaskBody) (nextGap : Nat) : Change Nat :=
  match body.gapCall with
  | none => .keep
  | some .opening => .opened nextGap
  | some (.closing gapId) => .closed gapId

end TaskBody

end MiryFormal
