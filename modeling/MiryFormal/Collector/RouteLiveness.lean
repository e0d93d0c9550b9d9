import MiryFormal.Collector.BackdatedGaps
import MiryFormal.Collector.SubscriptionAudits

/-!
# Silent streams and membership updates

`RouteRunner.liveness_loop` opens a gap for each key that has been silent, refreshes its
subscription and waits for its events, while `update_instruments` changes the instruments and `run`
replaces connections. Each of them runs from one await to the next, in any order.
-/

namespace MiryFormal

set_option autoImplicit false

/-! ## Subscriptions -/

def livenessSuffix : StreamType → Option String
  | .depth => some "depth@100ms"
  | .rpiDepth => some "rpiDepth@500ms"
  | .bookTicker => some "bookTicker"
  | .markPrice => some "markPrice@1s"
  | _ => none

/-- `_liveness_subscription` -/
def livenessSubscription (key : LivenessKey) : Except String String :=
  match livenessSuffix key.1 with
  | some suffix => .ok (key.2.toLower ++ "@" ++ suffix)
  | none => .error ("unsupported liveness subscription: " ++ key.1.value)

def publicSubscriptions (d0Enabled : Bool) (instruments : List String) : List String :=
  (instruments.flatMap fun symbol =>
    [symbol.toLower ++ "@bookTicker", symbol.toLower ++ "@depth@100ms"]) ++
  if d0Enabled then
    (instruments.map fun symbol => symbol.toLower ++ "@trade") ++
      instruments.map fun symbol => symbol.toLower ++ "@rpiDepth@500ms"
  else []

def marketSubscriptions (instruments : List String) : List String :=
  (instruments.flatMap fun symbol =>
    [symbol.toLower ++ "@aggTrade", symbol.toLower ++ "@markPrice@1s",
      symbol.toLower ++ "@forceOrder"]) ++ ["!contractInfo"]

/-- What a route with live updates is made with. -/
structure LiveRouteConfig where
  timing : RouteTiming
  subscriptionsFor : List String → List String
  refreshFailuresBeforeReconnect : Nat
  /-- A key that is watched has a subscription. -/
  watched : ∀ instruments, ∀ key ∈ RouteTimes.livenessKeys timing instruments,
    ∃ stream ∈ subscriptionsFor instruments, livenessSubscription key = .ok stream

theorem mem_livenessKeys {config : RouteTiming} {instruments : List String} {key : LivenessKey} :
    key ∈ RouteTimes.livenessKeys config instruments ↔
      key.1 ∈ config.livenessStreamTypes ∧ key.2 ∈ instruments := by
  obtain ⟨streamType, symbol⟩ := key
  simp [RouteTimes.livenessKeys]

def publicRoute (timing : RouteTiming)
    (h : timing.livenessStreamTypes = [.bookTicker, .depth]) (d0Enabled : Bool)
    (refreshFailuresBeforeReconnect : Nat) : LiveRouteConfig where
  timing
  subscriptionsFor := publicSubscriptions d0Enabled
  refreshFailuresBeforeReconnect
  watched := by
    rintro instruments ⟨streamType, symbol⟩ hm
    obtain ⟨htype, hsymbol⟩ := mem_livenessKeys.mp hm
    have hstreams : ∀ stream ∈ [symbol.toLower ++ "@bookTicker", symbol.toLower ++ "@depth@100ms"],
        stream ∈ publicSubscriptions d0Enabled instruments := fun stream hm =>
      List.mem_append_left _ (List.mem_flatMap.mpr ⟨symbol, hsymbol, hm⟩)
    rw [h] at htype
    rcases List.mem_pair.mp htype with rfl | rfl
    · exact ⟨_, hstreams _ List.mem_cons_self, congrArg Except.ok String.append_assoc⟩
    · exact ⟨_, hstreams _ (List.mem_cons_of_mem _ List.mem_cons_self),
        congrArg Except.ok String.append_assoc⟩

def marketRoute (timing : RouteTiming) (h : timing.livenessStreamTypes = [.markPrice])
    (refreshFailuresBeforeReconnect : Nat) : LiveRouteConfig where
  timing
  subscriptionsFor := marketSubscriptions
  refreshFailuresBeforeReconnect
  watched := by
    rintro instruments ⟨streamType, symbol⟩ hm
    obtain ⟨htype, hsymbol⟩ := mem_livenessKeys.mp hm
    rw [h] at htype
    obtain rfl := List.mem_singleton.mp htype
    refine ⟨_, List.mem_append_left _ (List.mem_flatMap.mpr ⟨symbol, hsymbol,
      List.mem_cons_of_mem _ List.mem_cons_self⟩), congrArg Except.ok String.append_assoc⟩

/-- `sorted(set(a) - set(b))` -/
def sortedDifference (a b : List String) : List String :=
  (a.filter (· ∉ b)).dedup.insertionSort (· ≤ ·)

/-! ## The route -/

/-- Why `liveness_loop` has ended. -/
inductive LivenessError where
  | keyError (key : LivenessKey)
  | valueError (message : String)
  /-- `GapJournal.open` or `close` has raised. -/
  | gapJournal
  /-- An error of a refresh that is not caught. -/
  | uncaught
  deriving DecidableEq

/-- What ends a refresh: `QueueOverloaded`; `aiohttp.ClientError`, `OSError` or `TimeoutError`; or
anything else, such as the `ConnectionClosed` or `CancelledError` that `_fail_subscription_update`
leaves of a connection that has ended. -/
inductive RefreshError where
  | overloaded
  | recoverable
  | other
  deriving DecidableEq

/-- Where `liveness_loop` awaits, with the values that it goes on with. -/
inductive LivenessStage where
  | sleeping
  /-- The gaps of `active_gaps` that are still to be looked at. -/
  | closing (nowNs : Int) (gaps : List (LivenessKey × Int))
  | opening (stale rest : List (LivenessKey × Int))
  | locking (generation : Nat) (stale : List (LivenessKey × Int))
  | refreshing (generation : Nat) (stale : List (LivenessKey × Int))
  | waiting (generation : Nat) (stale : List (LivenessKey × Int)) (refreshedAfterNs : Int)
  | closingRefreshed (generation : Nat) (rest : List (LivenessKey × Int))
  | resuming
  | raised (error : LivenessError)
  deriving DecidableEq

namespace LivenessStage

/-- The lock is held. -/
def isRefreshing : LivenessStage → Bool
  | refreshing _ _ => true
  | _ => false

/-- The keys that will be looked up in `_last_event`, or subscribed to. -/
def inUse : LivenessStage → List LivenessKey
  | opening stale rest => stale.map Prod.fst ++ rest.map Prod.fst
  | locking _ stale | refreshing _ stale | waiting _ stale _ => stale.map Prod.fst
  | _ => []

end LivenessStage

/-- How far an update has come whose futures `_submit_update` awaits. -/
inductive SubmissionStage where
  | queued
  | taken
  | acknowledged
  /-- Its connection has ended. -/
  | failed
  deriving DecidableEq

structure Submission where
  change : SubscriptionUpdate String
  stage : SubmissionStage := .queued

/-- `leaving`: `run` has seen that a reconnect is requested, and stops the connection. -/
inductive ConnectionPhase where
  | starting
  | ready
  | leaving
  deriving DecidableEq

/-- A connection, and the update that its controller carries out. -/
structure RouteConnection where
  active : Finset String
  phase : ConnectionPhase
  taken : Option (SubscriptionUpdate String) := none

/-- A route whose loop, updates and connections are under way. Of `times` only the instruments, the
last events and the update in flight are used here. -/
structure LiveRoute where
  times : RouteTimes
  subscriptions : List String
  reconnectRequested : Bool := false
  /-- `readiness_started` of the update in flight. -/
  readinessStartedNs : Int := 0
  submission : Option Submission := none
  /-- The present connection has acknowledged the last submission. -/
  served : Bool := false
  connection : Option RouteConnection := none
  generation : Nat := 0
  loop : LivenessStage := .sleeping
  /-- `active_gaps`: `opened_after` of each key. -/
  activeGaps : List (LivenessKey × Int) := []
  failureGeneration : Option Nat := none
  consecutiveFailures : Nat := 0

inductive UpdateEvent where
  | begun (instruments : List String)
  /-- `_submit_update` has returned. -/
  | submitted
  /-- The events have come that it waits for. -/
  | returned
  | failed

inductive RouteConnectionEvent where
  | started
  | activated
  | reconnectBegun
  | ended
  | rotated
  | updateTaken
  | updateApplied

inductive LivenessEvent where
  | awake
  /-- One gap of `active_gaps` has been looked at, and closed if it is to be. -/
  | gapDone
  | found
  /-- One stale key has its gap. -/
  | gapOpened
  | refresh
  | locked
  | submitted
  | looked
  | refreshedGapClosed
  | refreshFailed (error : RefreshError)
  | gapJournalFailed
  | resumed

inductive LiveRouteEvent where
  /-- An event of the key has arrived. -/
  | marked (key : LivenessKey)
  | update (event : UpdateEvent)
  | connection (event : RouteConnectionEvent)
  | liveness (event : LivenessEvent)

namespace LiveRoute
variable (config : LiveRouteConfig) (now : ClockReading) (route : LiveRoute)

def created (instruments : List String) : LiveRoute where
  times := .created config.timing instruments now
  subscriptions := config.subscriptionsFor instruments

/-- Nobody holds `_update_lock`. -/
def lockFree : Bool := route.times.update.isNone && !route.loop.isRefreshing

def lastEvent (key : LivenessKey) : Option ClockReading :=
  KeyedDict.get id key route.times.lastEvent

/-- An event of the key has come after the time. -/
def isFresh (afterNs : Int) (key : LivenessKey) : Bool :=
  match route.lastEvent key with
  | some reading => afterNs < reading.monotonicNs
  | none => false

/-! `update_instruments` -/

def beginUpdate (instruments : List String) : Option LiveRoute := do
  if route.lockFree then
    let times ← route.times.beginUpdate config.timing now instruments
    let subscriptions := config.subscriptionsFor instruments
    return { route with
      times
      readinessStartedNs := now.monotonicNs
      served := false
      submission := some
        { change :=
            { add := sortedDifference subscriptions route.subscriptions
              remove := sortedDifference route.subscriptions subscriptions } } }
  else none

def submitUpdate : Option LiveRoute := do
  let _ ← route.times.update
  let submission ← route.submission
  if submission.stage = .acknowledged then return { route with submission := none } else none

/-- `readiness_keys` -/
def readinessKeys (update : InstrumentUpdate) : List LivenessKey :=
  RouteTimes.livenessKeys config.timing (update.instruments.filter (· ∉ route.times.instruments))

def finishUpdate : Option LiveRoute := do
  let update ← route.times.update
  if route.submission.isNone ∧
      ∀ key ∈ route.readinessKeys config update, route.isFresh route.readinessStartedNs key then
    let times ← route.times.finishUpdate config.timing now
    return { route with
      times
      subscriptions := config.subscriptionsFor update.instruments }
  else none

def abandonUpdate : Option LiveRoute := do
  let times ← route.times.abandonUpdate
  return { route with
    times
    submission := none
    reconnectRequested := true }

def nextUpdate : UpdateEvent → Option LiveRoute
  | .begun instruments => route.beginUpdate config now instruments
  | .submitted => route.submitUpdate
  | .returned => route.finishUpdate config now
  | .failed => route.abandonUpdate

/-! `run`, and the controllers of its connections -/

/-- `_start_ready_connection` -/
def startConnection : Option LiveRoute :=
  if route.connection.isNone then
    some { route with
      served := false
      connection := some ⟨route.subscriptions.toFinset, .starting, none⟩ }
  else none

/-- `_activate_connection` -/
def activate : Option LiveRoute := do
  let connection ← route.connection
  if connection.phase = .starting then
    return { route with
      reconnectRequested := false
      generation := route.generation + 1
      connection := some { connection with phase := .ready } }
  else none

/-- `_wait_current` has seen the request. -/
def beginReconnect : Option LiveRoute := do
  let connection ← route.connection
  if connection.phase = .ready ∧ route.reconnectRequested then
    return { route with
      reconnectRequested := false
      connection := some { connection with phase := .leaving } }
  else none

/-- The connection has failed or is stopped, and so are the futures of what it has taken. -/
def endConnection : Option LiveRoute := do
  let connection ← route.connection
  return { route with
    reconnectRequested := if connection.phase = .ready then false else route.reconnectRequested
    connection := none
    submission := route.submission.map fun submission =>
      if submission.stage = .queued then submission else { submission with stage := .failed } }

/-- A replacement is started and activated under `_update_lock`. -/
def rotate : Option LiveRoute := do
  let connection ← route.connection
  if route.lockFree ∧ connection.phase = .ready then
    return { route with
      reconnectRequested := false
      generation := route.generation + 1
      connection := some ⟨route.subscriptions.toFinset, .ready, none⟩ }
  else none

/-- `run_updates` takes what is queued and has not been cancelled. -/
def takeUpdate : Option LiveRoute := do
  let connection ← route.connection
  let submission ← route.submission
  if connection.taken.isNone ∧ submission.stage = .queued then
    return { route with
      connection := some { connection with taken := some submission.change }
      submission := some { submission with stage := .taken } }
  else none

/-- `_apply_update` has its answers. It goes on with an update that nobody awaits any more. -/
def applyUpdate : Option LiveRoute := do
  let connection ← route.connection
  let change ← connection.taken
  let route := { route with
    connection := some { connection with active := change.apply connection.active, taken := none } }
  match route.submission with
  | some ⟨change, .taken⟩ =>
      return { route with
        served := true
        submission := some ⟨change, .acknowledged⟩ }
  | _ => return route

def nextConnection : RouteConnectionEvent → Option LiveRoute
  | .started => route.startConnection
  | .activated => route.activate
  | .reconnectBegun => route.beginReconnect
  | .ended => route.endConnection
  | .rotated => route.rotate
  | .updateTaken => route.takeUpdate
  | .updateApplied => route.applyUpdate

/-! `liveness_loop` -/

/-- A gap is closed once its key has had an event, or is not watched any more. -/
def closeRecovered (key : LivenessKey) (openedAfterNs : Int) : List (LivenessKey × Int) :=
  match route.lastEvent key with
  | some reading =>
      if reading.monotonicNs ≤ openedAfterNs then route.activeGaps
      else KeyedDict.pop id key route.activeGaps
  | none => KeyedDict.pop id key route.activeGaps

def findStale (nowNs : Int) : Option LiveRoute := do
  let found ← route.times.findStale config.timing nowNs
  return { route with
    loop := if found.stale = [] then .sleeping else .opening found.stale found.stale }

/-- `gaps.open` has returned, and `_last_event[key]` is read. -/
def openStale (key : LivenessKey) (stale rest : List (LivenessKey × Int)) : LiveRoute :=
  if (KeyedDict.get id key route.activeGaps).isSome then { route with loop := .opening stale rest }
  else
    match route.lastEvent key with
    | some reading =>
        { route with
          activeGaps := KeyedDict.set id key reading.monotonicNs route.activeGaps
          loop := .opening stale rest }
    | none => { route with loop := .raised (.keyError key) }

/-- `_refresh_keys` has the lock. -/
def beginRefresh (generation : Nat) (stale : List (LivenessKey × Int)) : Option LiveRoute :=
  if route.lockFree then
    match stale.mapM fun entry => livenessSubscription entry.1 with
    | .ok streams =>
        let streams := streams.insertionSort (· ≤ ·)
        some { route with
          served := false
          submission := some { change := { add := streams, remove := streams } }
          loop := .refreshing generation stale }
    | .error message => some { route with loop := .raised (.valueError message) }
  else none

def endRefresh (generation : Nat) (stale : List (LivenessKey × Int)) : Option LiveRoute := do
  let submission ← route.submission
  if submission.stage = .acknowledged then
    return { route with
      submission := none
      loop := .waiting generation stale now.monotonicNs }
  else none

/-- `_wait_for_fresh_events` looks at the keys, in order. -/
def lookForFresh (generation : Nat) (stale : List (LivenessKey × Int)) (refreshedAfterNs : Int) :
    LiveRoute :=
  match stale.find? fun entry => (route.lastEvent entry.1).isNone with
  | some entry => { route with loop := .raised (.keyError entry.1) }
  | none =>
      if ∀ entry ∈ stale, route.isFresh refreshedAfterNs entry.1 then
        { route with loop := .closingRefreshed generation stale }
      else route

/-- `refresh_generation == self._connection_generation and self._connection_ready.is_set()` -/
def isServedBy (generation : Nat) : Bool :=
  generation = route.generation ∧
    (route.connection.map RouteConnection.phase = some .ready)

/-- The handler of the errors of a refresh. -/
def failRefresh (generation : Nat) : RefreshError → LiveRoute
  | .overloaded => { route with loop := .resuming }
  | .recoverable =>
      if route.isServedBy generation then
        let failures :=
          (if route.failureGeneration = some generation then route.consecutiveFailures else 0) + 1
        { route with
          failureGeneration := some generation
          consecutiveFailures := failures
          reconnectRequested := route.reconnectRequested ||
            decide (config.refreshFailuresBeforeReconnect ≤ failures)
          loop := .sleeping }
      else { route with failureGeneration := none, consecutiveFailures := 0, loop := .sleeping }
  | .other => { route with loop := .raised .uncaught }

def nextLiveness (event : LivenessEvent) : Option LiveRoute :=
  match event, route.loop with
  | .awake, .sleeping =>
      some { route with loop := .closing now.monotonicNs route.activeGaps }
  | .gapDone, .closing nowNs ((key, openedAfterNs) :: gaps) =>
      some { route with
        activeGaps := route.closeRecovered key openedAfterNs
        loop := .closing nowNs gaps }
  | .found, .closing nowNs [] => route.findStale config nowNs
  | .gapOpened, .opening stale ((key, _) :: rest) => some (route.openStale key stale rest)
  | .refresh, .opening stale [] => some { route with loop := .locking route.generation stale }
  | .locked, .locking generation stale => route.beginRefresh generation stale
  | .submitted, .refreshing generation stale => route.endRefresh now generation stale
  | .looked, .waiting generation stale refreshedAfterNs =>
      some (route.lookForFresh generation stale refreshedAfterNs)
  | .refreshedGapClosed, .closingRefreshed generation ((key, _) :: rest) =>
      some { route with
        activeGaps := KeyedDict.pop id key route.activeGaps
        loop := .closingRefreshed generation rest }
  | .refreshedGapClosed, .closingRefreshed _ [] =>
      some { route with failureGeneration := none, consecutiveFailures := 0, loop := .sleeping }
  | .refreshFailed error, .refreshing generation _ =>
      some ({ route with submission := none }.failRefresh config generation error)
  | .refreshFailed error, .waiting generation _ _ =>
      some (route.failRefresh config generation error)
  | .refreshFailed error, .closingRefreshed generation _ =>
      some (route.failRefresh config generation error)
  | .gapJournalFailed, .closing _ _ => some { route with loop := .raised .gapJournal }
  | .gapJournalFailed, .opening _ _ => some { route with loop := .raised .gapJournal }
  | .resumed, .resuming => some { route with loop := .sleeping }
  | _, _ => none

def next : LiveRouteEvent → Option LiveRoute
  | .marked key => some { route with times := route.times.markEvent now key }
  | .update event => route.nextUpdate config now event
  | .connection event => route.nextConnection event
  | .liveness event => route.nextLiveness config now event

/-- An event, and the clock when it takes place. -/
def Step (route : LiveRoute) (event : ClockReading × LiveRouteEvent) (after : LiveRoute) : Prop :=
  route.next config event.1 event.2 = some after

end LiveRoute

end MiryFormal
