import MiryFormal.Collector.GapJournal
import MiryFormal.Shared.Runs

/-!
# Gaps that begin in the past

`RouteRunner` opens its gaps as of the last event of a key, the last proof of the subscriptions or
the receipt of a frame. The OPEN event of a gap is published into the day in which the gap begins,
and a sealed day takes no event. What is modelled is each time that a route keeps, from the moment
it is read off the clock until a gap that begins with it has been recorded.
-/

namespace MiryFormal

set_option autoImplicit false

abbrev LivenessKey := StreamType × String

/-- `(time.monotonic(), time.time_ns())` -/
structure ClockReading where
  monotonicNs : Int
  realtimeNs : Int
  deriving DecidableEq

/-- What the arguments of `RouteRunner` and the configuration say about times. -/
structure RouteTiming where
  streamTypes : List StreamType
  livenessStreamTypes : List StreamType
  livenessTimeoutNs : Int
  daySealGraceNs : Int
  grace_nonneg : 0 ≤ daySealGraceNs

/-- `update_instruments` while its subscriptions are sent, and the `realtime_ns` it has read. -/
structure InstrumentUpdate where
  instruments : List String
  realtimeNs : Int
  deriving DecidableEq

/-- What ends a connection; `failed` is also the reconnect that a failed refresh asks for. An audit
fails by answers that do not come or by what one says. -/
inductive ConnectionEnd where
  | stopped
  | failed
  | auditMissed
  | auditMismatch (observedNs : Int)
  deriving DecidableEq

/-- The times of a route. -/
structure RouteTimes where
  instruments : List String
  lastEvent : List (LivenessKey × ClockReading)
  update : Option InstrumentUpdate := none
  /-- The keys of `active_gaps`. -/
  activeGaps : List LivenessKey := []
  /-- The part of `stale` for which `liveness_loop` has still to open gaps. -/
  stale : List (LivenessKey × Int) := []
  /-- When the frames were received whose stamps are still held. -/
  frames : List Int := []
  /-- `_subscription_proven_realtime_ns` of each connection. -/
  proven : List (Nat × Int) := []
  /-- The error that `run` is to handle, and the time that an audit error has. -/
  error : Option (Option Int) := none
  /-- The `affected_from_realtime_ns` of each call of `GapJournal.open`. -/
  opening : List Int := []
  deriving DecidableEq

namespace RouteTimes

/-- A dictionary with one more value for each key. -/
def setAll (keys : List LivenessKey) (value : LivenessKey → ClockReading)
    (lastEvent : List (LivenessKey × ClockReading)) : List (LivenessKey × ClockReading) :=
  keys.foldl (fun lastEvent key => KeyedDict.set id key (value key) lastEvent) lastEvent

def livenessKeys (config : RouteTiming) (instruments : List String) : List LivenessKey :=
  config.livenessStreamTypes.flatMap fun streamType =>
    instruments.map fun symbol => (streamType, symbol)

def created (config : RouteTiming) (instruments : List String) (now : ClockReading) :
    RouteTimes where
  instruments
  lastEvent := setAll (livenessKeys config instruments) (fun _ => now) []

/-- A call of `GapJournal.open`. -/
def opens (times : RouteTimes) (affectedFromNs : Int) : RouteTimes :=
  { times with opening := affectedFromNs :: times.opening }

/-- `_mark_event` -/
def markEvent (times : RouteTimes) (now : ClockReading) (key : LivenessKey) : RouteTimes :=
  if (KeyedDict.get id key times.lastEvent).isSome then
    { times with lastEvent := KeyedDict.set id key now times.lastEvent }
  else times

/-- `self._subscription_proven_realtime_ns or observed` -/
def provenOr (times : RouteTimes) (connection : Nat) (observedNs : Int) : Int :=
  match KeyedDict.get id connection times.proven with
  | some ns => if ns = 0 then observedNs else ns
  | none => observedNs

/-- What `run` has to handle when a connection ends, with `_error_affected_from` of the error. -/
def errorAfter (times : RouteTimes) (now : ClockReading) (connection : Nat) :
    ConnectionEnd → Option (Option Int)
  | .stopped => times.error
  | .failed => some none
  | .auditMissed => some (some (times.provenOr connection now.realtimeNs))
  | .auditMismatch observedNs => some (some (times.provenOr connection observedNs))

def endConnection (times : RouteTimes) (now : ClockReading) (connection : Nat)
    (cause : ConnectionEnd) : RouteTimes :=
  { times with
    proven := KeyedDict.pop id connection times.proven
    error := times.errorAfter now connection cause }

/-- `min(..., default=time.time_ns())` over the last events of some keys. -/
def earliest (times : RouteTimes) (now : ClockReading) (keys : LivenessKey → Bool) : Int :=
  ((times.lastEvent.filter fun entry => keys entry.1).map fun entry =>
    entry.2.realtimeNs).min?.getD now.realtimeNs

/-- `_open_gap`. While a gap of `run` is held, a connection that does not start opens none. -/
def openGap (times : RouteTimes) (now : ClockReading) (held : Bool) : Option RouteTimes := do
  let error ← times.error
  if held then return { times with error := none }
  else return times.opens (error.getD (times.earliest now fun _ => true))

def depthStreamTypes (config : RouteTiming) : List StreamType :=
  config.streamTypes.filter (· ∈ [StreamType.depth, .rpiDepth])

/-- `_open_l2_reanchor_gap`, if `run` holds no such gap. -/
def openL2ReanchorGap (config : RouteTiming) (times : RouteTimes) (now : ClockReading)
    (held : Bool) : Option RouteTimes := do
  let error ← times.error
  let times := { times with error := none }
  if held || (depthStreamTypes config).isEmpty then return times
  else
    return times.opens
      (error.getD (times.earliest now fun key => key.1 ∈ depthStreamTypes config))

/-- `update_instruments` up to the update that it submits. -/
def beginUpdate (config : RouteTiming) (times : RouteTimes) (now : ClockReading)
    (instruments : List String) : Option RouteTimes :=
  if times.update.isSome ∨ instruments = times.instruments then none
  else
    let added := instruments.filter (· ∉ times.instruments)
    some { times with
      update := some ⟨instruments, now.realtimeNs⟩
      lastEvent := setAll (livenessKeys config added) (fun _ => now) times.lastEvent }

/-- The update has raised. -/
def abandonUpdate (times : RouteTimes) : Option RouteTimes := do
  let _ ← times.update
  return { times with
    update := none
    lastEvent := times.lastEvent.filter fun entry => entry.1.2 ∈ times.instruments }

/-- The update has returned, and the new events have come. -/
def finishUpdate (config : RouteTiming) (times : RouteTimes) (now : ClockReading) :
    Option RouteTimes := do
  let update ← times.update
  return { times with
    update := none
    instruments := update.instruments
    lastEvent := setAll (livenessKeys config update.instruments)
      (fun key => (KeyedDict.get id key times.lastEvent).getD
        ⟨now.monotonicNs, update.realtimeNs⟩) [] }

/-- A pass of `liveness_loop` up to the gaps it opens, with the `now` it begins with. -/
def findStale (config : RouteTiming) (times : RouteTimes) (monotonicNs : Int) :
    Option RouteTimes :=
  if times.stale = [] then
    some { times with
      stale := (times.lastEvent.filter fun entry =>
        entry.1.2 ∈ times.instruments ∧
          config.livenessTimeoutNs ≤ monotonicNs - entry.2.monotonicNs).map
        fun entry => (entry.1, entry.2.realtimeNs) }
  else none

/-- `liveness_loop` opens a gap for the next stale key, unless it holds one. -/
def openStaleGap (times : RouteTimes) : Option RouteTimes :=
  match times.stale with
  | [] => none
  | (key, affectedFromNs) :: rest =>
      if key ∈ times.activeGaps then some { times with stale := rest }
      else
        some ({ times with stale := rest, activeGaps := key :: times.activeGaps }.opens
          affectedFromNs)

end RouteTimes

inductive RouteTimeEvent where
  | received
  /-- Nothing uses the stamp of a frame any more. -/
  | handled (receivedNs : Int)
  | marked (key : LivenessKey)
  /-- `_open_depth_gap` -/
  | depthGap (receivedNs : Int)
  /-- The response to the first subscription, or to an audit. -/
  | proved (connection : Nat) (observedNs : Int)
  | connectionEnded (connection : Nat) (cause : ConnectionEnd)
  | openGap (held : Bool)
  | openL2ReanchorGap (held : Bool)
  | updateBegun (instruments : List String)
  | updateFailed
  | updateReturned
  | livenessPass (monotonicNs : Int)
  | staleGap
  | staleGapClosed (key : LivenessKey)
  deriving DecidableEq

/-- The stamps of frames that an event uses. -/
def RouteTimeEvent.stamps : RouteTimeEvent → List Int
  | depthGap receivedNs | proved _ receivedNs => [receivedNs]
  | connectionEnded _ (.auditMismatch observedNs) => [observedNs]
  | _ => []

/-- What a route does at an instant. -/
def RouteTimes.next (config : RouteTiming) (now : ClockReading) (times : RouteTimes) :
    RouteTimeEvent → Option RouteTimes
  | .received => some { times with frames := now.realtimeNs :: times.frames }
  | .handled receivedNs => some { times with frames := times.frames.erase receivedNs }
  | .marked key => some (times.markEvent now key)
  | .depthGap receivedNs => some (times.opens receivedNs)
  | .proved connection observedNs =>
      some { times with proven := KeyedDict.set id connection observedNs times.proven }
  | .connectionEnded connection cause => some (times.endConnection now connection cause)
  | .openGap held => times.openGap now held
  | .openL2ReanchorGap held => times.openL2ReanchorGap config now held
  | .updateBegun instruments => times.beginUpdate config now instruments
  | .updateFailed => times.abandonUpdate
  | .updateReturned => times.finishUpdate config now
  | .livenessPass monotonicNs => times.findStale config monotonicNs
  | .staleGap => times.openStaleGap
  | .staleGapClosed key => some { times with activeGaps := times.activeGaps.erase key }

/-- A route, the clock it reads, and the days of its collector. -/
structure RouteDays where
  now : ClockReading
  times : RouteTimes
  sealedDays : List Int := []
  /-- The day into which `record_generated` would not publish, which ends the source group. -/
  refused : Option Int := none
  deriving DecidableEq

inductive RouteDayEvent where
  | tick (now : ClockReading)
  /-- The source group is built again, with another route. -/
  | created (instruments : List String)
  | route (event : RouteTimeEvent)
  /-- `record_generated` of a gap. -/
  | recorded (affectedFromNs : Int)
  | sealed (utcDate : Int)
  deriving DecidableEq

namespace RouteDays

def created (config : RouteTiming) (instruments : List String) (now : ClockReading) :
    RouteDays where
  now
  times := .created config instruments now

def next (config : RouteTiming) (days : RouteDays) : RouteDayEvent → Option RouteDays
  | .tick now =>
      if days.now.monotonicNs ≤ now.monotonicNs then some { days with now } else none
  | .created instruments => some { days with times := .created config instruments days.now }
  | .route event => do
      if event.stamps ⊆ days.times.frames then
        let times ← days.times.next config days.now event
        return { days with times }
      else none
  | .recorded affectedFromNs =>
      if affectedFromNs ∈ days.times.opening then
        if utcDateOf affectedFromNs ∈ days.sealedDays then
          some { days with refused := some (utcDateOf affectedFromNs) }
        else
          some { days with
            times := { days.times with opening := days.times.opening.erase affectedFromNs } }
      else none
  | .sealed utcDate =>
      if dayEndNs utcDate + config.daySealGraceNs ≤ days.now.realtimeNs then
        some { days with sealedDays := utcDate :: days.sealedDays }
      else none

/-- A source group that has ended does nothing more. -/
def Step (config : RouteTiming) (days : RouteDays) (event : RouteDayEvent) (after : RouteDays) :
    Prop :=
  days.refused = none ∧ days.next config event = some after

end RouteDays

/-! ## The times that a route keeps -/

namespace RouteTimes
variable {config : RouteTiming} {now : ClockReading} {times after : RouteTimes} {P : Int → Prop}

/-- Each time of the route meets a condition. -/
structure Keeps (times : RouteTimes) (P : Int → Prop) : Prop where
  lastEvent : ∀ entry ∈ times.lastEvent, P entry.2.realtimeNs
  update : ∀ update ∈ times.update, P update.realtimeNs
  stale : ∀ entry ∈ times.stale, P entry.2
  frames : ∀ ns ∈ times.frames, P ns
  proven : ∀ entry ∈ times.proven, P entry.2
  error : ∀ error ∈ times.error, ∀ ns ∈ error, P ns
  opening : ∀ ns ∈ times.opening, P ns

theorem Keeps.mono (h : times.Keeps P) {Q : Int → Prop} (hPQ : ∀ ns, P ns → Q ns) :
    times.Keeps Q where
  lastEvent entry hm := hPQ _ (h.lastEvent entry hm)
  update update hm := hPQ _ (h.update update hm)
  stale entry hm := hPQ _ (h.stale entry hm)
  frames ns hm := hPQ _ (h.frames ns hm)
  proven entry hm := hPQ _ (h.proven entry hm)
  error error hm ns hns := hPQ _ (h.error error hm ns hns)
  opening ns hm := hPQ _ (h.opening ns hm)

theorem forall_mem_setAll {keys : List LivenessKey} {value : LivenessKey → ClockReading}
    {lastEvent : List (LivenessKey × ClockReading)}
    (h : ∀ entry ∈ lastEvent, P entry.2.realtimeNs) (hvalue : ∀ key, P (value key).realtimeNs) :
    ∀ entry ∈ setAll keys value lastEvent, P entry.2.realtimeNs := by
  unfold setAll
  induction keys generalizing lastEvent with
  | nil => exact h
  | cons key keys ih =>
    refine ih fun entry hm => ?_
    rcases KeyedDict.mem_set hm with hm | ⟨-, hvalue'⟩
    · exact h entry hm
    · rw [hvalue']
      exact hvalue key

theorem created_keeps {instruments : List String} (hnow : P now.realtimeNs) :
    (created config instruments now).Keeps P where
  lastEvent := forall_mem_setAll (by simp) fun _ => hnow
  update := by simp [created]
  stale := by simp [created]
  frames := by simp [created]
  proven := by simp [created]
  error := by simp [created]
  opening := by simp [created]

theorem Keeps.opens (h : times.Keeps P) {ns : Int} (hns : P ns) : (times.opens ns).Keeps P :=
  { h with opening := List.forall_mem_cons.mpr ⟨hns, h.opening⟩ }

theorem Keeps.earliest (h : times.Keeps P) (hnow : P now.realtimeNs)
    (keys : LivenessKey → Bool) : P (times.earliest now keys) := by
  unfold RouteTimes.earliest
  cases hmin : ((times.lastEvent.filter fun entry => keys entry.1).map fun entry =>
      entry.2.realtimeNs).min? with
  | none => exact hnow
  | some ns =>
    obtain ⟨entry, hm, rfl⟩ := List.mem_map.mp (List.min?_mem hmin)
    exact h.lastEvent entry (List.mem_of_mem_filter hm)

theorem Keeps.provenOr (h : times.Keeps P) (connection : Nat) {observedNs : Int}
    (hobserved : P observedNs) : P (times.provenOr connection observedNs) := by
  unfold RouteTimes.provenOr
  cases hget : KeyedDict.get id connection times.proven with
  | none => exact hobserved
  | some ns =>
    obtain ⟨key, hm, -⟩ := KeyedDict.mem_of_get hget
    dsimp only
    split
    · exact hobserved
    · exact h.proven _ hm

theorem Keeps.getD (h : times.Keeps P) {error : Option Int} (herror : times.error = some error)
    {default : Int} (hdefault : P default) : P (error.getD default) := by
  cases error with
  | none => exact hdefault
  | some ns => exact h.error _ herror ns rfl

theorem Keeps.markEvent (h : times.Keeps P) (hnow : P now.realtimeNs) (key : LivenessKey) :
    (times.markEvent now key).Keeps P := by
  unfold RouteTimes.markEvent
  split
  · refine { h with lastEvent := fun entry hm => ?_ }
    rcases KeyedDict.mem_set hm with hm | ⟨-, hvalue⟩
    · exact h.lastEvent entry hm
    · rw [hvalue]
      exact hnow
  · exact h

theorem Keeps.endConnection (h : times.Keeps P) (hnow : P now.realtimeNs) (connection : Nat)
    {cause : ConnectionEnd}
    (hstamps : ∀ ns ∈ (RouteTimeEvent.connectionEnded connection cause).stamps, P ns) :
    (times.endConnection now connection cause).Keeps P := by
  refine { h with
    proven := fun entry hm => h.proven entry ((KeyedDict.pop_sublist _ _).subset hm)
    error := ?_ }
  cases cause with
  | stopped => exact h.error
  | failed => rintro _ ⟨⟩ _ ⟨⟩
  | auditMissed =>
    rintro _ ⟨⟩ _ ⟨⟩
    exact h.provenOr connection hnow
  | auditMismatch observedNs =>
    rintro _ ⟨⟩ _ ⟨⟩
    exact h.provenOr connection (hstamps observedNs (List.mem_singleton_self _))

theorem Keeps.openGap (h : times.Keeps P) (hnow : P now.realtimeNs) {held : Bool}
    (hopen : times.openGap now held = some after) : after.Keeps P := by
  obtain ⟨error, herror, hopen⟩ := Option.bind_eq_some_iff.mp hopen
  cases held with
  | true =>
    cases hopen
    exact { h with error := by rintro _ ⟨⟩ }
  | false =>
    cases hopen
    exact h.opens (h.getD herror (h.earliest hnow _))

theorem Keeps.openL2ReanchorGap (h : times.Keeps P) (hnow : P now.realtimeNs) {held : Bool}
    (hopen : times.openL2ReanchorGap config now held = some after) : after.Keeps P := by
  obtain ⟨error, herror, hopen⟩ := Option.bind_eq_some_iff.mp hopen
  have hcleared : { times with error := none }.Keeps P := { h with error := by rintro _ ⟨⟩ }
  dsimp only at hopen
  split at hopen
  · cases hopen
    exact hcleared
  · cases hopen
    exact hcleared.opens (h.getD herror (hcleared.earliest hnow _))

theorem Keeps.beginUpdate (h : times.Keeps P) (hnow : P now.realtimeNs)
    {instruments : List String}
    (hbegin : times.beginUpdate config now instruments = some after) : after.Keeps P := by
  unfold RouteTimes.beginUpdate at hbegin
  split at hbegin
  · cases hbegin
  · cases hbegin
    exact { h with
      update := by
        rintro _ ⟨⟩
        exact hnow
      lastEvent := forall_mem_setAll h.lastEvent fun _ => hnow }

theorem Keeps.abandonUpdate (h : times.Keeps P) (habandon : times.abandonUpdate = some after) :
    after.Keeps P := by
  obtain ⟨update, -, habandon⟩ := Option.bind_eq_some_iff.mp habandon
  cases habandon
  exact { h with
    update := by rintro _ ⟨⟩
    lastEvent := fun entry hm => h.lastEvent entry (List.mem_of_mem_filter hm) }

theorem Keeps.finishUpdate (h : times.Keeps P)
    (hfinish : times.finishUpdate config now = some after) : after.Keeps P := by
  obtain ⟨update, hupdate, hfinish⟩ := Option.bind_eq_some_iff.mp hfinish
  cases hfinish
  refine { h with
    update := by rintro _ ⟨⟩
    lastEvent := forall_mem_setAll (by simp) fun key => ?_ }
  cases hget : KeyedDict.get id key times.lastEvent with
  | none => exact h.update update hupdate
  | some observed =>
    obtain ⟨_, hm, -⟩ := KeyedDict.mem_of_get hget
    exact h.lastEvent _ hm

theorem Keeps.findStale (h : times.Keeps P) {monotonicNs : Int}
    (hfind : times.findStale config monotonicNs = some after) : after.Keeps P := by
  unfold RouteTimes.findStale at hfind
  split at hfind
  · cases hfind
    refine { h with stale := fun entry hm => ?_ }
    obtain ⟨found, hfound, rfl⟩ := List.mem_map.mp hm
    exact h.lastEvent found (List.mem_of_mem_filter hfound)
  · cases hfind

theorem Keeps.openStaleGap (h : times.Keeps P) (hopen : times.openStaleGap = some after) :
    after.Keeps P := by
  unfold RouteTimes.openStaleGap at hopen
  cases hstale : times.stale with
  | nil => simp [hstale] at hopen
  | cons entry rest =>
    obtain ⟨hentry, hrest⟩ := List.forall_mem_cons.mp (hstale ▸ h.stale)
    simp only [hstale] at hopen
    split at hopen
    · cases hopen
      exact { h with stale := hrest }
    · cases hopen
      have hkept :
          { times with stale := rest, activeGaps := entry.1 :: times.activeGaps }.Keeps P :=
        { h with stale := hrest }
      exact hkept.opens hentry

/-- A step brings no time but that of the clock. -/
theorem Keeps.next (h : times.Keeps P) (hnow : P now.realtimeNs) {event : RouteTimeEvent}
    (hstamps : ∀ ns ∈ event.stamps, P ns) (hnext : times.next config now event = some after) :
    after.Keeps P := by
  cases event with
  | received =>
    cases hnext
    exact { h with frames := List.forall_mem_cons.mpr ⟨hnow, h.frames⟩ }
  | handled receivedNs =>
    cases hnext
    exact { h with frames := fun ns hm => h.frames ns (List.mem_of_mem_erase hm) }
  | marked key =>
    cases hnext
    exact h.markEvent hnow key
  | depthGap receivedNs =>
    cases hnext
    exact h.opens (hstamps receivedNs (List.mem_singleton_self _))
  | proved connection observedNs =>
    cases hnext
    refine { h with proven := fun entry hm => ?_ }
    rcases KeyedDict.mem_set hm with hm | ⟨-, hvalue⟩
    · exact h.proven entry hm
    · rw [hvalue]
      exact hstamps observedNs (List.mem_singleton_self _)
  | connectionEnded connection cause =>
    cases hnext
    exact h.endConnection hnow connection hstamps
  | openGap held => exact h.openGap hnow hnext
  | openL2ReanchorGap held => exact h.openL2ReanchorGap hnow hnext
  | updateBegun instruments => exact h.beginUpdate hnow hnext
  | updateFailed => exact h.abandonUpdate hnext
  | updateReturned => exact h.finishUpdate hnext
  | livenessPass monotonicNs => exact h.findStale hnext
  | staleGap => exact h.openStaleGap hnext
  | staleGapClosed key =>
    cases hnext
    exact { h with }

end RouteTimes

/-! ## The days that are sealed -/

namespace Journal

/-- A gap can be opened where its OPEN event lies in a day that is not sealed. -/
theorem openGap_returns {event : GapEvent} {files : GapFiles}
    (h : event.utcDate ∉ files.sealedDays) :
    ((openGap event).exec JournalOp.run files).1 = .ok () := by
  have hpublish : (publish event).Safe JournalOp.run (fun _ => True)
      (fun outcome _ => outcome = .ok ()) files :=
    safe_publish trivial (fun hsealed => absurd hsealed h) trivial trivial trivial rfl
  obtain ⟨files', hexec⟩ : ∃ files', (publish event).exec JournalOp.run files = (.ok (), files') :=
    ⟨_, Prod.ext hpublish.exec rfl⟩
  rw [openGap, Program.exec_bind_of_ok _ hexec]
  rfl

end Journal

namespace RouteDays
variable {config : RouteTiming} {days after : RouteDays} {event : RouteDayEvent}

/-- A day is sealed when the route keeps no time from before its end. The clock does not go back
behind the end of a sealed day. -/
def SealsBehind (days : RouteDays) : RouteDayEvent → Prop
  | .sealed utcDate => days.times.Keeps (dayEndNs utcDate ≤ ·)
  | .tick now => ∀ utcDate ∈ days.sealedDays, dayEndNs utcDate ≤ now.realtimeNs
  | _ => True

/-- The gaps that are being opened begin in days that are not sealed. -/
structure OpensUnsealed (days : RouteDays) : Prop where
  opening : ∀ ns ∈ days.times.opening, utcDateOf ns ∉ days.sealedDays
  refused : days.refused = none

/-- The sealed days lie behind the clock and behind every time of the route. -/
structure Behind (days : RouteDays) : Prop where
  now : ∀ utcDate ∈ days.sealedDays, dayEndNs utcDate ≤ days.now.realtimeNs
  times : ∀ utcDate ∈ days.sealedDays, days.times.Keeps (dayEndNs utcDate ≤ ·)
  refused : days.refused = none

theorem utcDateOf_ne {ns utcDate : Int} (h : dayEndNs utcDate ≤ ns) : utcDateOf ns ≠ utcDate :=
  fun heq => absurd (utcDateOf_eq_iff.mp heq).2 h.not_gt

theorem Behind.opensUnsealed (h : days.Behind) : days.OpensUnsealed where
  opening _ hns hsealed := utcDateOf_ne ((h.times _ hsealed).opening _ hns) rfl
  refused := h.refused

/-- The grace is long enough when no time of the route is older. -/
theorem sealsBehind_of_recent {utcDate : Int}
    (hrecent : days.times.Keeps (days.now.realtimeNs - config.daySealGraceNs ≤ ·))
    (hnext : days.next config (.sealed utcDate) = some after) :
    days.SealsBehind (.sealed utcDate) := by
  simp only [RouteDays.next, Option.ite_none_right_eq_some] at hnext
  exact hrecent.mono fun ns hns => by linarith [hnext.1]

theorem Behind.step (h : days.Behind) (hgood : days.SealsBehind event)
    (hstep : days.Step config event after) : after.Behind := by
  obtain ⟨-, hnext⟩ := hstep
  cases event with
  | tick now =>
    simp only [RouteDays.next, Option.ite_none_right_eq_some, Option.some.injEq] at hnext
    obtain ⟨-, rfl⟩ := hnext
    exact { h with now := hgood }
  | created instruments =>
    cases hnext
    exact { h with times := fun utcDate hm => RouteTimes.created_keeps (h.now utcDate hm) }
  | route event =>
    simp only [RouteDays.next, Option.ite_none_right_eq_some] at hnext
    obtain ⟨hstamps, hnext⟩ := hnext
    obtain ⟨times, htimes, hnext⟩ := Option.bind_eq_some_iff.mp hnext
    cases hnext
    refine { h with times := fun utcDate hm => ?_ }
    exact (h.times utcDate hm).next (h.now utcDate hm)
      (fun ns hns => (h.times utcDate hm).frames ns (hstamps hns)) htimes
  | recorded affectedFromNs =>
    simp only [RouteDays.next, Option.ite_none_right_eq_some] at hnext
    obtain ⟨hopening, hnext⟩ := hnext
    rw [if_neg (h.opensUnsealed.opening _ hopening)] at hnext
    cases hnext
    refine { h with times := fun utcDate hm => ?_ }
    exact { h.times utcDate hm with
      opening := fun ns hns => (h.times utcDate hm).opening ns (List.mem_of_mem_erase hns) }
  | sealed utcDate =>
    simp only [RouteDays.next, Option.ite_none_right_eq_some, Option.some.injEq] at hnext
    obtain ⟨hgrace, rfl⟩ := hnext
    have hend : dayEndNs utcDate ≤ days.now.realtimeNs := by linarith [config.grace_nonneg]
    exact { h with
      now := List.forall_mem_cons.mpr ⟨hend, h.now⟩
      times := List.forall_mem_cons.mpr ⟨hgood, h.times⟩ }

theorem created_behind (instruments : List String) (now : ClockReading) :
    (created config instruments now).Behind where
  now := by simp [created]
  times := by simp [created]
  refused := rfl

/-- In a run in which each day is sealed behind the times of the route, no gap begins in a sealed
day, and `GapJournal.open` returns. -/
theorem run_opensUnsealed {instruments : List String} {now : ClockReading}
    {events : List RouteDayEvent}
    (hrun : Run (Guarded SealsBehind (Step config)) (created config instruments now) events days) :
    days.OpensUnsealed ∧
      ∀ (files : GapFiles) (event : GapEvent), files.sealedDays = days.sealedDays →
        event.state = .opened →
        (∃ ns ∈ days.times.opening, event.affectedFromRealtimeNs = some ns) →
          ((Journal.openGap event).exec JournalOp.run files).1 = .ok () := by
  have hbehind : days.Behind :=
    hrun.preserves (fun h hstep => h.step hstep.1 hstep.2) (created_behind instruments now)
  refine ⟨hbehind.opensUnsealed, fun files event hfiles hstate ⟨ns, hns, haffected⟩ => ?_⟩
  have hdate : event.utcDate = utcDateOf ns := by
    rw [GapEvent.utcDate, GapEvent.effectiveNs, hstate, haffected]
  refine Journal.openGap_returns ?_
  rw [hfiles, hdate]
  exact hbehind.opensUnsealed.opening ns hns

/-! ### A key that is silent over midnight -/

/-- A public route with the default times of the configuration. -/
def publicTiming : RouteTiming where
  streamTypes := [.depth, .bookTicker]
  livenessStreamTypes := [.bookTicker, .depth]
  livenessTimeoutNs := 30 * 1000000000
  daySealGraceNs := 150 * 1000000000
  grace_nonneg := by decide

/-- A time of day, in seconds. -/
def clockAt (utcDate seconds : Int) : ClockReading where
  monotonicNs := dayStartNs utcDate + seconds * 1000000000
  realtimeNs := dayStartNs utcDate + seconds * 1000000000

def tickerKey : LivenessKey := (.bookTicker, "ETHUSDT")
def depthKey : LivenessKey := (.depth, "ETHUSDT")

def oneSymbol : RouteDays := created publicTiming ["ETHUSDT"] (clockAt 1 82800)

/-- The last ticker comes five seconds before midnight, and the diffs go on. -/
def quietOverMidnight : List RouteDayEvent :=
  [.tick (clockAt 1 86395), .route (.marked tickerKey), .tick (clockAt 2 30),
    .route (.marked depthKey), .route (.livenessPass (clockAt 2 30).monotonicNs), .route .staleGap,
    .recorded (clockAt 1 86395).realtimeNs]

def quietState : RouteDays where
  now := clockAt 2 30
  times :=
    { instruments := ["ETHUSDT"]
      lastEvent := [(tickerKey, clockAt 1 86395), (depthKey, clockAt 2 30)]
      activeGaps := [tickerKey] }

theorem quietOverMidnight_run :
    Run (Guarded SealsBehind (Step publicTiming)) oneSymbol quietOverMidnight quietState :=
  .cons ⟨fun _ hm => absurd hm List.not_mem_nil, rfl, rfl⟩ <| .cons ⟨trivial, rfl, rfl⟩ <|
    .cons ⟨fun _ hm => absurd hm List.not_mem_nil, rfl, rfl⟩ <| .cons ⟨trivial, rfl, rfl⟩ <|
    .cons ⟨trivial, rfl, rfl⟩ <| .cons ⟨trivial, rfl, rfl⟩ <| .cons ⟨trivial, rfl, rfl⟩ (.nil _)

/-- Three refreshes bring no ticker. The third has failed after the seal, and `run` reconnects. -/
def quietAfterSeal : List RouteDayEvent :=
  [.tick (clockAt 2 77), .route (.marked depthKey),
    .route (.livenessPass (clockAt 2 77).monotonicNs), .route .staleGap,
    .tick (clockAt 2 124), .route (.marked depthKey),
    .route (.livenessPass (clockAt 2 124).monotonicNs), .route .staleGap,
    .tick (clockAt 2 152), .sealed 1, .tick (clockAt 2 156), .route (.marked depthKey),
    .route (.connectionEnded 0 .failed), .route (.openGap false),
    .recorded (clockAt 1 86395).realtimeNs]

def refusedState : RouteDays where
  now := clockAt 2 156
  times :=
    { instruments := ["ETHUSDT"]
      lastEvent := [(tickerKey, clockAt 1 86395), (depthKey, clockAt 2 156)]
      activeGaps := [tickerKey]
      error := some none
      opening := [(clockAt 1 86395).realtimeNs] }
  sealedDays := [1]
  refused := some 1

/-- The route opens a gap as of the last ticker, four seconds after the seal of its day. -/
theorem not_always_opensUnsealed :
    Run (Step publicTiming) oneSymbol (quietOverMidnight ++ quietAfterSeal) refusedState ∧
      ¬ refusedState.OpensUnsealed := by
  refine ⟨(quietOverMidnight_run.mono And.right).append ?_, fun h => absurd h.refused (by decide)⟩
  exact .cons ⟨rfl, rfl⟩ <| .cons ⟨rfl, rfl⟩ <| .cons ⟨rfl, rfl⟩ <| .cons ⟨rfl, rfl⟩ <|
    .cons ⟨rfl, rfl⟩ <| .cons ⟨rfl, rfl⟩ <| .cons ⟨rfl, rfl⟩ <| .cons ⟨rfl, rfl⟩ <|
    .cons ⟨rfl, rfl⟩ <| .cons ⟨rfl, rfl⟩ <| .cons ⟨rfl, rfl⟩ <| .cons ⟨rfl, rfl⟩ <|
    .cons ⟨rfl, rfl⟩ <| .cons ⟨rfl, rfl⟩ <| .cons ⟨rfl, rfl⟩ (.nil _)

/-- The first refresh brings a ticker, and an audit fails after the seal. -/
def resumedBeforeSeal : List RouteDayEvent :=
  [.tick (clockAt 2 40), .route .received, .route (.marked tickerKey),
    .route (.proved 0 (clockAt 2 40).realtimeNs), .route (.handled (clockAt 2 40).realtimeNs),
    .tick (clockAt 2 152), .sealed 1, .tick (clockAt 2 180),
    .route (.connectionEnded 0 .auditMissed), .route (.openGap false),
    .recorded (clockAt 2 40).realtimeNs, .route (.openL2ReanchorGap false)]

def resumedState : RouteDays where
  now := clockAt 2 180
  times :=
    { instruments := ["ETHUSDT"]
      lastEvent := [(tickerKey, clockAt 2 40), (depthKey, clockAt 2 30)]
      activeGaps := [tickerKey]
      opening := [(clockAt 2 40).realtimeNs] }
  sealedDays := [1]

theorem resumedBeforeSeal_run :
    Run (Guarded SealsBehind (Step publicTiming)) quietState resumedBeforeSeal resumedState := by
  have hrecent : RouteTimes.Keeps { quietState.times with
      lastEvent := [(tickerKey, clockAt 2 40), (depthKey, clockAt 2 30)]
      proven := [(0, (clockAt 2 40).realtimeNs)] }
      ((clockAt 2 152).realtimeNs - publicTiming.daySealGraceNs ≤ ·) :=
    ⟨by decide, by simp [quietState], by decide, by decide, by decide, by simp [quietState],
      by decide⟩
  have hclock : ∀ utcDate ∈ ([1] : List Int), dayEndNs utcDate ≤ (clockAt 2 180).realtimeNs := by
    decide
  exact .cons ⟨fun _ hm => absurd hm List.not_mem_nil, rfl, rfl⟩ <| .cons ⟨trivial, rfl, rfl⟩ <|
    .cons ⟨trivial, rfl, rfl⟩ <| .cons ⟨trivial, rfl, rfl⟩ <| .cons ⟨trivial, rfl, rfl⟩ <|
    .cons ⟨fun _ hm => absurd hm List.not_mem_nil, rfl, rfl⟩ <|
    .cons ⟨sealsBehind_of_recent hrecent rfl, rfl, rfl⟩ <| .cons ⟨hclock, rfl, rfl⟩ <|
    .cons ⟨trivial, rfl, rfl⟩ <| .cons ⟨trivial, rfl, rfl⟩ <| .cons ⟨trivial, rfl, rfl⟩ <|
    .cons ⟨trivial, rfl, rfl⟩ (.nil _)

/-- The re-anchor gap after the seal begins with the last proof of the subscriptions. -/
theorem run_opensUnsealed_resumed :
    resumedState.sealedDays = [1] ∧ resumedState.times.opening = [(clockAt 2 40).realtimeNs] ∧
      resumedState.OpensUnsealed :=
  ⟨rfl, rfl, (run_opensUnsealed (quietOverMidnight_run.append resumedBeforeSeal_run)).1⟩

end RouteDays

end MiryFormal
