import MiryFormal.Contracts.GapEvents
import MiryFormal.Shared.Runs

/-!
# The gaps of a route

`RouteRunner.run` holds the id of a transport gap and of an L2 reanchor gap while it has no
connection. One event is one turn of its loop: a start with all that can happen in it, or the
end of the wait on a ready connection. Clock readings, delays and the instruments of the route
play no part in which gaps are held.
-/

namespace MiryFormal

set_option autoImplicit false

/-- An event that the journal has published for the route. `uuid4` does not repeat: the gaps of a
run are numbered. -/
structure GapCall where
  state : GapState
  gapId : Nat
  reason : GapReason
  connectionId : Option String
  streamTypes : List StreamType
  detail : String
  deriving DecidableEq

structure RouteConfig where
  name : String
  streamTypes : List StreamType

/-- What `GapJournal.open` does; one that raises may have published the event. -/
inductive OpenResult where
  | opened
  | raised (published : Bool)
  deriving DecidableEq

/-- What `GapJournal.close` does. -/
inductive CloseResult where
  | closed
  | raised (published : Bool) (error : String)
  | cancelled (published : Bool)
  deriving DecidableEq

/-- What `run` distinguishes of the exceptions of a start. -/
inductive StartFailure where
  | queueOverloaded (error : String)
  /-- A client error, a closed connection, an `OSError` or a timeout. -/
  | connectionLost (error : String)
  | cancelled
  /-- Any other exception escapes from `run`. -/
  | other
  deriving DecidableEq

/-- A call of `_start_ready_connection`, which cannot return before the transport is ready, and
of `_close_l2_reanchor_gap` after it. -/
inductive StartAttempt where
  | early (failure : StartFailure)
  | late (transport : CloseResult) (failure : StartFailure)
  | ready (transport reanchor : CloseResult)
  deriving DecidableEq

/-- The start of a replacement, up to the end of the overlap. -/
inductive Replacement where
  | replaced (connectionId : String)
  | stopped
  | failed (failure : StartFailure)
  deriving DecidableEq

inductive WaitOutcome where
  | stop
  | failed (overload : Bool) (error : String)
  | reconnect
  | rotate (replacement : Replacement)
  deriving DecidableEq

inductive RunEvent where
  /-- The service stops, or the task is cancelled. -/
  | stop
  | start (connectionId : String) (attempt : StartAttempt) (transport reanchor : OpenResult)
  | wait (outcome : WaitOutcome) (transport reanchor : OpenResult)
  deriving DecidableEq

/-- The local variables of `run` and what it has published. -/
structure RouteRun where
  running : Bool := true
  current : Option String := none
  gapId : Option Nat := none
  l2GapId : Option Nat := none
  gapReason : GapReason := .connectionLost
  calls : List GapCall := []
  nextGap : Nat := 0
  deriving DecidableEq

namespace RouteRun

/-! ## The journal -/

def stopped (run : RouteRun) : RouteRun := { run with running := false }

/-- A new gap is published. -/
def publishOpen (run : RouteRun) (call : Nat → GapCall) : RouteRun :=
  { run with calls := run.calls ++ [call run.nextGap], nextGap := run.nextGap + 1 }

def publishClose (run : RouteRun) (call : GapCall) : RouteRun :=
  { run with calls := run.calls ++ [call] }

/-- `f"{self._name}: {detail}"[:500]` -/
def gapDetail (route : RouteConfig) (detail : String) : String :=
  String.ofList ((route.name ++ ": " ++ detail).toList.take 500)

def reanchorStreams (route : RouteConfig) : List StreamType :=
  route.streamTypes.filter fun streamType => streamType = .depth ∨ streamType = .rpiDepth

/-- `gap_id = await self._open_gap(..)`; a call that raises ends `run`. -/
def openGap (route : RouteConfig) (run : RouteRun) (detail : String) (connectionId : Option String)
    (result : OpenResult) : RouteRun :=
  let call := fun gapId => ⟨.opened, gapId, run.gapReason, connectionId, route.streamTypes,
    gapDetail route detail⟩
  match result with
  | .opened => { run.publishOpen call with gapId := some run.nextGap }
  | .raised true => (run.publishOpen call).stopped
  | .raised false => run.stopped

/-- `if l2_gap_id is None: l2_gap_id = await self._open_l2_reanchor_gap(..)` -/
def openReanchorGap (route : RouteConfig) (run : RouteRun) (detail : String)
    (connectionId : Option String) (result : OpenResult) : RouteRun :=
  let call := fun gapId => ⟨.opened, gapId, .l2Reanchor, connectionId, reanchorStreams route,
    gapDetail route detail⟩
  if run.l2GapId ≠ none ∨ reanchorStreams route = [] then run
  else
    match result with
    | .opened => { run.publishOpen call with l2GapId := some run.nextGap }
    | .raised true => (run.publishOpen call).stopped
    | .raised false => run.stopped

/-- A loss opens the transport gap and, if none is held, the L2 reanchor gap. -/
def recordLoss (route : RouteConfig) (run : RouteRun) (reason : GapReason) (detail : String)
    (connectionId : Option String) (transport reanchor : OpenResult) : RouteRun :=
  let opened := openGap route { run with gapReason := reason } detail connectionId transport
  if opened.running then openReanchorGap route opened detail connectionId reanchor else opened

/-- `await self._gaps.close(..)` with its event, and `release` behind it when it returns. The second
part is the exception that it raises. -/
def closeHeld (run : RouteRun) (call : GapCall) (release : RouteRun → RouteRun) :
    CloseResult → RouteRun × Option StartFailure
  | .closed => (release (run.publishClose call), none)
  | .raised true error => (run.publishClose call, some (.connectionLost error))
  | .raised false error => (run, some (.connectionLost error))
  | .cancelled true => (run.publishClose call, some .cancelled)
  | .cancelled false => (run, some .cancelled)

def transportRecovered (route : RouteConfig) (run : RouteRun) (connectionId : String)
    (gapId : Nat) : GapCall :=
  ⟨.closed, gapId, run.gapReason, some connectionId, route.streamTypes,
    route.name ++ " transport recovered; L2 remains invalid until snapshot bridge"⟩

def bridgesVerified (route : RouteConfig) (connectionId : String) (gapId : Nat) : GapCall :=
  ⟨.closed, gapId, .l2Reanchor, some connectionId, reanchorStreams route,
    route.name ++ " snapshot bridges verified"⟩

/-- `report_transport_ready`, which does nothing when no gap is held. -/
def reportTransportReady (route : RouteConfig) (run : RouteRun) (connectionId : String)
    (result : CloseResult) : RouteRun × Option StartFailure :=
  match run.gapId with
  | none => (run, none)
  | some gapId =>
      closeHeld run (transportRecovered route run connectionId gapId)
        (fun closed => { closed with gapId := none }) result

/-- `if l2_gap_id is not None: await self._close_l2_reanchor_gap(..); l2_gap_id = None` -/
def closeReanchorGap (route : RouteConfig) (run : RouteRun) (connectionId : String)
    (result : CloseResult) : RouteRun × Option StartFailure :=
  match run.l2GapId with
  | none => (run, none)
  | some gapId =>
      closeHeld run (bridgesVerified route connectionId gapId)
        (fun closed => { closed with l2GapId := none }) result

/-! ## The loop -/

/-- The `except` clauses of the start. -/
def startFailed (route : RouteConfig) (run : RouteRun) (transport reanchor : OpenResult) :
    StartFailure → RouteRun
  | .queueOverloaded error =>
      if run.gapId = none then
        recordLoss route run .ingestOverload error none transport reanchor
      else run
  | .connectionLost error =>
      if run.gapId = none then
        recordLoss route run .connectionLost error none transport reanchor
      else run
  | .cancelled | .other => run.stopped

/-- The start is ready and `current` assigned: the reanchor gap is closed. -/
def bridged (route : RouteConfig) (run : RouteRun) (connectionId : String)
    (transport reanchor : OpenResult) (bridge : CloseResult) : RouteRun :=
  match closeReanchorGap route run connectionId bridge with
  | (bridged, none) => bridged
  | (bridged, some raised) => startFailed route bridged transport reanchor raised

/-- The first part of the loop, with no connection. -/
def start (route : RouteConfig) (run : RouteRun) (connectionId : String)
    (transport reanchor : OpenResult) : StartAttempt → RouteRun
  | .early failure => startFailed route run transport reanchor failure
  | .late close failure =>
      match reportTransportReady route run connectionId close with
      | (closed, none) => startFailed route closed transport reanchor failure
      | (closed, some raised) => startFailed route closed transport reanchor raised
  | .ready close bridge =>
      match reportTransportReady route run connectionId close with
      | (closed, some raised) => startFailed route closed transport reanchor raised
      | (closed, none) =>
          bridged route { closed with current := some connectionId } connectionId transport reanchor
            bridge

/-- A connection is gone: both gaps are opened, then `current = None`. -/
def lose (route : RouteConfig) (run : RouteRun) (connectionId : String) (overload : Bool)
    (error : String) (transport reanchor : OpenResult) : RouteRun :=
  let lost := recordLoss route run (if overload then .ingestOverload else .connectionLost) error
    (some connectionId) transport reanchor
  if lost.running then { lost with current := none } else lost

/-- The rest of the loop, on a ready connection. -/
def afterWait (route : RouteConfig) (run : RouteRun) (connectionId : String)
    (transport reanchor : OpenResult) : WaitOutcome → RouteRun
  | .stop => run.stopped
  | .failed overload error => lose route run connectionId overload error transport reanchor
  | .reconnect => lose route run connectionId false
      "targeted subscription recovery requested route reconnect" transport reanchor
  | .rotate (.replaced replacement) => { run with current := some replacement }
  | .rotate .stopped => run.stopped
  | .rotate (.failed (.queueOverloaded _)) | .rotate (.failed (.connectionLost _)) => run
  | .rotate (.failed .cancelled) | .rotate (.failed .other) => run.stopped

/-- One turn of the loop; an event that does not belong to the turn is not possible. -/
def next (route : RouteConfig) (run : RouteRun) (event : RunEvent) : Option RouteRun :=
  if run.running then
    match event, run.current with
    | .stop, _ => some run.stopped
    | .start connectionId attempt transport reanchor, none =>
        some (start route run connectionId transport reanchor attempt)
    | .wait outcome transport reanchor, some connectionId =>
        some (afterWait route run connectionId transport reanchor outcome)
    | _, _ => none
  else none

def Step (route : RouteConfig) (run : RouteRun) (event : RunEvent) (after : RouteRun) : Prop :=
  next route run event = some after

/-! ## The books -/

def opened (run : RouteRun) : List Nat :=
  (run.calls.filter fun call => call.state = .opened).map GapCall.gapId

def closed (run : RouteRun) : List Nat :=
  (run.calls.filter fun call => call.state = .closed).map GapCall.gapId

/-- A gap that was opened and not closed. -/
def IsOpen (run : RouteRun) (gapId : Nat) : Prop := gapId ∈ run.opened ∧ gapId ∉ run.closed

def Held (run : RouteRun) (gapId : Nat) : Prop :=
  run.gapId = some gapId ∨ run.l2GapId = some gapId

/-- No open gap is forgotten, none is closed twice, and none is held while a ready connection is
waited on. -/
structure Books (run : RouteRun) : Prop where
  held : run.running = true → ∀ gapId, run.IsOpen gapId → run.Held gapId
  once : run.closed.Nodup
  waiting : run.running = true → run.current ≠ none → run.gapId = none ∧ run.l2GapId = none

/-- The journal calls that `run` can take: a close of the transport gap that raises has not
published its event, and a close of the L2 reanchor gap does not raise. -/
def Sound (run : RouteRun) (event : RunEvent) : Prop :=
  match event with
  | .start _ (.late close _) _ _ => run.gapId ≠ none → ∀ error, close ≠ .raised true error
  | .start _ (.ready close bridge) _ _ =>
      (run.gapId ≠ none → ∀ error, close ≠ .raised true error) ∧
        (run.l2GapId ≠ none → run.gapId = none ∨ close = .closed →
          ∀ published error, bridge ≠ .raised published error)
  | _ => True

/-! ## What has been published -/

/-- The gaps are numbered, and each is closed at most once and after it was opened. -/
structure Posted (run : RouteRun) : Prop where
  numbered : ∀ gapId ∈ run.opened, gapId < run.nextGap
  paired : ∀ gapId ∈ run.closed, gapId ∈ run.opened
  once : run.closed.Nodup

/-- The open gaps are the ones that are held. -/
structure Balanced (run : RouteRun) : Prop where
  held : ∀ gapId, run.IsOpen gapId ↔ run.Held gapId
  apart : ∀ gapId, run.gapId = some gapId → run.l2GapId ≠ some gapId

section Publish
variable {run : RouteRun}

theorem opened_publishOpen {call : Nat → GapCall} (hstate : (call run.nextGap).state = .opened)
    (hid : (call run.nextGap).gapId = run.nextGap) :
    (run.publishOpen call).opened = run.opened ++ [run.nextGap] := by
  unfold opened publishOpen
  rw [List.filter_append, List.map_append, List.filter_cons_of_pos (by simp [hstate])]
  simp [hid]

theorem closed_publishOpen {call : Nat → GapCall} (hstate : (call run.nextGap).state = .opened) :
    (run.publishOpen call).closed = run.closed := by
  unfold closed publishOpen
  rw [List.filter_append, List.filter_cons_of_neg (by simp [hstate])]
  simp

theorem opened_publishClose {call : GapCall} (hstate : call.state = .closed) :
    (run.publishClose call).opened = run.opened := by
  unfold opened publishClose
  rw [List.filter_append, List.filter_cons_of_neg (by simp [hstate])]
  simp

theorem closed_publishClose {call : GapCall} (hstate : call.state = .closed) :
    (run.publishClose call).closed = run.closed ++ [call.gapId] := by
  unfold closed publishClose
  rw [List.filter_append, List.map_append, List.filter_cons_of_pos (by simp [hstate])]
  simp

/-- What is held plays no part in it. -/
theorem Posted.congr {after : RouteRun} (h : run.Posted) (hcalls : after.calls = run.calls)
    (hnext : after.nextGap = run.nextGap) : after.Posted := by
  have hopened : after.opened = run.opened := by rw [opened, hcalls, opened]
  have hclosed : after.closed = run.closed := by rw [closed, hcalls, closed]
  exact ⟨by rw [hopened, hnext]; exact h.numbered, by rw [hopened, hclosed]; exact h.paired,
    by rw [hclosed]; exact h.once⟩

theorem Posted.publishOpen (h : run.Posted) {call : Nat → GapCall}
    (hstate : (call run.nextGap).state = .opened) (hid : (call run.nextGap).gapId = run.nextGap) :
    (run.publishOpen call).Posted := by
  have hopened := opened_publishOpen hstate hid
  have hclosed := closed_publishOpen hstate
  constructor
  · intro gapId hm
    rw [hopened, List.mem_append, List.mem_singleton] at hm
    change gapId < run.nextGap + 1
    cases hm with
    | inl hm =>
      have := h.numbered gapId hm
      omega
    | inr heq => omega
  · intro gapId hm
    rw [hclosed] at hm
    rw [hopened]
    exact List.mem_append_left _ (h.paired gapId hm)
  · rw [hclosed]
    exact h.once

theorem Posted.publishClose (h : run.Posted) {call : GapCall} (hstate : call.state = .closed)
    (hopen : run.IsOpen call.gapId) : (run.publishClose call).Posted := by
  have hopened : (run.publishClose call).opened = run.opened := opened_publishClose hstate
  have hclosed : (run.publishClose call).closed = run.closed ++ [call.gapId] :=
    closed_publishClose hstate
  constructor
  · intro gapId hm
    rw [hopened] at hm
    exact h.numbered gapId hm
  · intro gapId hm
    rw [hclosed, List.mem_append, List.mem_singleton] at hm
    rw [hopened]
    cases hm with
    | inl hm => exact h.paired gapId hm
    | inr heq =>
      rw [heq]
      exact hopen.1
  · rw [hclosed]
    apply h.once.append (List.nodup_singleton _)
    intro gapId hm heq
    rw [List.mem_singleton] at heq
    exact hopen.2 (heq ▸ hm)

theorem Balanced.congr {after : RouteRun} (h : run.Balanced) (hcalls : after.calls = run.calls)
    (hgap : after.gapId = run.gapId) (hl2 : after.l2GapId = run.l2GapId) : after.Balanced := by
  constructor
  · intro gapId
    have hheld := h.held gapId
    unfold IsOpen Held opened closed at hheld ⊢
    rw [hcalls, hgap, hl2]
    exact hheld
  · rw [hgap, hl2]
    exact h.apart

/-- A new gap is open next to the old ones. -/
theorem isOpen_publishOpen (h : run.Posted) {call : Nat → GapCall}
    (hstate : (call run.nextGap).state = .opened) (hid : (call run.nextGap).gapId = run.nextGap)
    (gapId : Nat) :
    (run.publishOpen call).IsOpen gapId ↔ run.IsOpen gapId ∨ gapId = run.nextGap := by
  have hnew : run.nextGap ∉ run.closed := fun hm =>
    lt_irrefl _ (h.numbered _ (h.paired _ hm))
  unfold IsOpen
  rw [opened_publishOpen hstate hid, closed_publishOpen hstate, List.mem_append,
    List.mem_singleton]
  constructor
  · intro hm
    cases hm.1 with
    | inl hold => exact .inl ⟨hold, hm.2⟩
    | inr heq => exact .inr heq
  · intro hm
    cases hm with
    | inl hold => exact ⟨.inl hold.1, hold.2⟩
    | inr heq =>
      rw [heq]
      exact ⟨.inr rfl, hnew⟩

theorem isOpen_publishClose {call : GapCall} (hstate : call.state = .closed) (gapId : Nat) :
    (run.publishClose call).IsOpen gapId ↔ run.IsOpen gapId ∧ gapId ≠ call.gapId := by
  unfold IsOpen
  rw [opened_publishClose hstate, closed_publishClose hstate, List.mem_append,
    List.mem_singleton, not_or, and_assoc]

theorem Balanced.lt_nextGap (h : run.Balanced) (hposted : run.Posted) {gapId : Nat}
    (hheld : run.Held gapId) : gapId < run.nextGap :=
  hposted.numbered gapId ((h.held gapId).mpr hheld).1

end Publish

/-! ## Opening -/

section Open
variable {run : RouteRun} {route : RouteConfig}

/-- What opening gaps leaves: a run that goes on holds exactly the open gaps. -/
structure Opens (run after : RouteRun) : Prop where
  posted : after.Posted
  balanced : after.running = true → after.Balanced
  current : after.current = run.current

theorem openGap_opens (hposted : run.Posted) (h : run.Balanced) (hnone : run.gapId = none)
    (detail : String) (connectionId : Option String) (result : OpenResult) :
    Opens run (openGap route run detail connectionId result) := by
  unfold openGap
  generalize hcall : (fun gapId => GapCall.mk .opened gapId run.gapReason connectionId
    route.streamTypes (gapDetail route detail)) = call
  have hstate : (call run.nextGap).state = .opened := by rw [← hcall]
  have hid : (call run.nextGap).gapId = run.nextGap := by rw [← hcall]
  have hpublished := hposted.publishOpen hstate hid
  cases result with
  | opened =>
    refine ⟨hpublished.congr rfl rfl, fun _ => ⟨fun gapId => ?_, fun gapId hnew hold => ?_⟩, rfl⟩
    · apply (isOpen_publishOpen hposted hstate hid gapId).trans
      rw [h.held gapId]
      unfold Held
      rw [hnone]
      change _ ↔ some run.nextGap = some gapId ∨ run.l2GapId = some gapId
      grind
    · cases hnew
      exact lt_irrefl _ (h.lt_nextGap hposted (.inr hold))
  | raised published =>
    cases published with
    | true => exact ⟨hpublished.congr rfl rfl, nofun, rfl⟩
    | false => exact ⟨hposted.congr rfl rfl, nofun, rfl⟩

theorem openReanchorGap_opens (hposted : run.Posted) (h : run.Balanced) (detail : String)
    (connectionId : Option String) (result : OpenResult) :
    Opens run (openReanchorGap route run detail connectionId result) := by
  unfold openReanchorGap
  generalize hcall : (fun gapId => GapCall.mk .opened gapId .l2Reanchor connectionId
    (reanchorStreams route) (gapDetail route detail)) = call
  have hstate : (call run.nextGap).state = .opened := by rw [← hcall]
  have hid : (call run.nextGap).gapId = run.nextGap := by rw [← hcall]
  have hpublished := hposted.publishOpen hstate hid
  by_cases hneeded : run.l2GapId ≠ none ∨ reanchorStreams route = []
  · simp only [if_pos hneeded]
    exact ⟨hposted, fun _ => h, rfl⟩
  · simp only [if_neg hneeded]
    have hnone : run.l2GapId = none := by
      by_contra hheld
      exact hneeded (.inl hheld)
    cases result with
    | opened =>
      refine ⟨hpublished.congr rfl rfl, fun _ => ⟨fun gapId => ?_, fun gapId hold hnew => ?_⟩, rfl⟩
      · apply (isOpen_publishOpen hposted hstate hid gapId).trans
        rw [h.held gapId]
        unfold Held
        rw [hnone]
        change _ ↔ run.gapId = some gapId ∨ some run.nextGap = some gapId
        grind
      · cases hnew
        exact lt_irrefl _ (h.lt_nextGap hposted (.inl hold))
    | raised published =>
      cases published with
      | true => exact ⟨hpublished.congr rfl rfl, nofun, rfl⟩
      | false => exact ⟨hposted.congr rfl rfl, nofun, rfl⟩

theorem recordLoss_opens (hposted : run.Posted) (h : run.Balanced) (hnone : run.gapId = none)
    (reason : GapReason) (detail : String) (connectionId : Option String)
    (transport reanchor : OpenResult) :
    Opens run (recordLoss route run reason detail connectionId transport reanchor) := by
  have hposted' : Posted { run with gapReason := reason } := hposted.congr rfl rfl
  have hopens : Opens { run with gapReason := reason }
      (openGap route { run with gapReason := reason } detail connectionId transport) :=
    openGap_opens hposted' (h.congr rfl rfl rfl) hnone detail connectionId transport
  unfold recordLoss
  generalize openGap route { run with gapReason := reason } detail connectionId transport = opened
    at hopens ⊢
  by_cases hrunning : opened.running = true
  · have hreanchor : Opens opened (openReanchorGap route opened detail connectionId reanchor) :=
      openReanchorGap_opens hopens.posted (hopens.balanced hrunning) detail connectionId reanchor
    simp only [if_pos hrunning]
    exact ⟨hreanchor.posted, hreanchor.balanced, hreanchor.current.trans hopens.current⟩
  · simp only [if_neg hrunning]
    exact ⟨hopens.posted, hopens.balanced, hopens.current⟩

end Open

/-! ## Closing -/

section Close
variable {run : RouteRun} {route : RouteConfig} {connectionId : String} {result : CloseResult}

/-- A close that returns; one that is cancelled, which ends `run`; one that raises and has changed
nothing. -/
inductive Closes (run : RouteRun) : RouteRun × Option StartFailure → Prop where
  | returns {after : RouteRun} : after.Posted → after.Balanced → Closes run (after, none)
  | cancelled {after : RouteRun} : after.Posted → Closes run (after, some .cancelled)
  | raises (error : String) : Closes run (run, some (.connectionLost error))

theorem closeHeld_closes (hposted : run.Posted) {call : GapCall} (hstate : call.state = .closed)
    (hopen : run.IsOpen call.gapId) {release : RouteRun → RouteRun}
    (hcalls : (release (run.publishClose call)).calls = (run.publishClose call).calls)
    (hnext : (release (run.publishClose call)).nextGap = run.nextGap)
    (hreleased : (release (run.publishClose call)).Balanced)
    (hsound : ∀ error, result ≠ .raised true error) :
    Closes run (closeHeld run call release result) := by
  have hclosed := hposted.publishClose hstate hopen
  cases result with
  | closed => exact .returns (hclosed.congr hcalls hnext) hreleased
  | raised published error =>
    cases published with
    | true => exact absurd rfl (hsound error)
    | false => exact .raises error
  | cancelled published =>
    cases published with
    | true => exact .cancelled hclosed
    | false => exact .cancelled hposted

theorem reportTransportReady_closes (hposted : run.Posted) (h : run.Balanced)
    (hsound : run.gapId ≠ none → ∀ error, result ≠ .raised true error) :
    Closes run (reportTransportReady route run connectionId result) := by
  unfold reportTransportReady
  cases hgap : run.gapId with
  | none => exact .returns hposted h
  | some gapId =>
    have hopen : run.IsOpen gapId := (h.held gapId).mpr (.inl hgap)
    apply closeHeld_closes hposted rfl hopen rfl rfl
    · constructor
      · intro other
        have hapart := h.apart gapId hgap
        apply (isOpen_publishClose rfl other).trans
        rw [h.held other]
        unfold Held
        rw [hgap]
        change _ ∧ other ≠ gapId ↔ none = some other ∨ run.l2GapId = some other
        grind
      · intro other hheld
        cases hheld
    · intro error
      apply hsound
      rw [hgap]
      nofun

theorem closeReanchorGap_closes (hposted : run.Posted) (h : run.Balanced)
    (hsound : run.l2GapId ≠ none → ∀ error, result ≠ .raised true error) :
    Closes run (closeReanchorGap route run connectionId result) := by
  unfold closeReanchorGap
  cases hgap : run.l2GapId with
  | none => exact .returns hposted h
  | some gapId =>
    have hopen : run.IsOpen gapId := (h.held gapId).mpr (.inr hgap)
    apply closeHeld_closes hposted rfl hopen rfl rfl
    · constructor
      · intro other
        have hapart := fun heq => h.apart gapId heq hgap
        apply (isOpen_publishClose rfl other).trans
        rw [h.held other]
        unfold Held
        rw [hgap]
        change _ ∧ other ≠ gapId ↔ run.gapId = some other ∨ none = some other
        grind
      · intro other hheld hnone
        cases hnone
    · intro error
      apply hsound
      rw [hgap]
      nofun

/-- A report that returns: no transport gap is held, and the rest is as it was. -/
theorem reportTransportReady_returned {after : RouteRun}
    (h : reportTransportReady route run connectionId result = (after, none)) :
    after.gapId = none ∧ after.l2GapId = run.l2GapId ∧ after.current = run.current ∧
      (run.gapId = none ∨ result = .closed) := by
  unfold reportTransportReady at h
  cases hgap : run.gapId with
  | none =>
    rw [hgap] at h
    cases h
    exact ⟨hgap, rfl, rfl, .inl rfl⟩
  | some gapId =>
    rw [hgap] at h
    cases result with
    | closed =>
      cases h
      exact ⟨rfl, rfl, rfl, .inr rfl⟩
    | raised published error => cases published <;> cases h
    | cancelled published => cases published <;> cases h

theorem closeReanchorGap_returned {after : RouteRun}
    (h : closeReanchorGap route run connectionId result = (after, none)) :
    after.gapId = run.gapId ∧ after.l2GapId = none := by
  unfold closeReanchorGap at h
  cases hgap : run.l2GapId with
  | none =>
    rw [hgap] at h
    cases h
    exact ⟨rfl, hgap⟩
  | some gapId =>
    rw [hgap] at h
    cases result with
    | closed =>
      cases h
      exact ⟨rfl, rfl⟩
    | raised published error => cases published <;> cases h
    | cancelled published => cases published <;> cases h

theorem closeReanchorGap_raised {after : RouteRun} {error : String}
    (h : closeReanchorGap route run connectionId result = (after, some (.connectionLost error))) :
    run.l2GapId ≠ none ∧ ∃ published, result = .raised published error := by
  unfold closeReanchorGap at h
  cases hgap : run.l2GapId with
  | none =>
    rw [hgap] at h
    cases h
  | some gapId =>
    rw [hgap] at h
    refine ⟨nofun, ?_⟩
    cases result with
    | closed => cases h
    | raised published message =>
      cases published <;> cases h
      · exact ⟨false, rfl⟩
      · exact ⟨true, rfl⟩
    | cancelled published => cases published <;> cases h

end Close

/-! ## The loop keeps the books -/

section Loop
variable {run : RouteRun} {route : RouteConfig}

structure Kept (run : RouteRun) : Prop where
  posted : run.Posted
  balanced : run.running = true → run.Balanced
  waiting : run.running = true → run.current ≠ none → run.gapId = none ∧ run.l2GapId = none

theorem Kept.books (h : run.Kept) : run.Books :=
  ⟨fun hrunning gapId => ((h.balanced hrunning).held gapId).mp, h.posted.once, h.waiting⟩

theorem Posted.stopped (h : run.Posted) : run.stopped.Kept :=
  ⟨h.congr rfl rfl, nofun, nofun⟩

theorem Opens.kept {after : RouteRun} (h : Opens run after) (hcurrent : run.current = none) :
    after.Kept :=
  ⟨h.posted, h.balanced, fun _ hne => absurd (h.current.trans hcurrent) hne⟩

theorem startFailed_kept (hposted : run.Posted) (h : run.Balanced) (hcurrent : run.current = none)
    (transport reanchor : OpenResult) (failure : StartFailure) :
    (startFailed route run transport reanchor failure).Kept := by
  have hheld : run.Kept := ⟨hposted, fun _ => h, fun _ hne => absurd hcurrent hne⟩
  unfold startFailed
  cases failure with
  | queueOverloaded error =>
    by_cases hnone : run.gapId = none
    · simp only [if_pos hnone]
      exact (recordLoss_opens hposted h hnone _ error none transport reanchor).kept hcurrent
    · simp only [if_neg hnone]
      exact hheld
  | connectionLost error =>
    by_cases hnone : run.gapId = none
    · simp only [if_pos hnone]
      exact (recordLoss_opens hposted h hnone _ error none transport reanchor).kept hcurrent
    · simp only [if_neg hnone]
      exact hheld
  | cancelled => exact hposted.stopped
  | other => exact hposted.stopped

/-- With no transport gap held, a bridge that does not raise leaves no gap held. -/
theorem bridged_kept (hposted : run.Posted) (h : run.Balanced) (hnone : run.gapId = none)
    (connectionId : String) (transport reanchor : OpenResult) {bridge : CloseResult}
    (hsound : run.l2GapId ≠ none → ∀ published error, bridge ≠ .raised published error) :
    (bridged route run connectionId transport reanchor bridge).Kept := by
  have hcloses : Closes run (closeReanchorGap route run connectionId bridge) :=
    closeReanchorGap_closes hposted h fun hheld => hsound hheld true
  unfold bridged
  cases hout : closeReanchorGap route run connectionId bridge with
  | mk after raised =>
    rw [hout] at hcloses
    cases hcloses with
    | returns hafter hbalanced =>
      obtain ⟨hgap, hl2⟩ := closeReanchorGap_returned hout
      exact ⟨hafter, fun _ => hbalanced, fun _ _ => ⟨hgap.trans hnone, hl2⟩⟩
    | cancelled hafter => exact hafter.stopped
    | raises error =>
      obtain ⟨hheld, published, hraised⟩ := closeReanchorGap_raised hout
      exact absurd hraised (hsound hheld published error)

theorem start_kept (hposted : run.Posted) (h : run.Balanced) (hcurrent : run.current = none)
    (connectionId : String) (attempt : StartAttempt) (transport reanchor : OpenResult)
    (hsound : run.Sound (.start connectionId attempt transport reanchor)) :
    (start route run connectionId transport reanchor attempt).Kept := by
  cases attempt with
  | early failure => exact startFailed_kept hposted h hcurrent transport reanchor failure
  | late close failure =>
    have hreport : Closes run (reportTransportReady route run connectionId close) :=
      reportTransportReady_closes hposted h hsound
    cases hout : reportTransportReady route run connectionId close with
    | mk after raised =>
      simp only [start, hout]
      rw [hout] at hreport
      cases hreport with
      | returns hafter hbalanced =>
        obtain ⟨-, -, hsame, -⟩ := reportTransportReady_returned hout
        exact startFailed_kept hafter hbalanced (hsame.trans hcurrent) transport reanchor failure
      | cancelled hafter => exact hafter.stopped
      | raises error => exact startFailed_kept hposted h hcurrent transport reanchor _
  | ready close bridge =>
    have hreport : Closes run (reportTransportReady route run connectionId close) :=
      reportTransportReady_closes hposted h hsound.1
    cases hout : reportTransportReady route run connectionId close with
    | mk after raised =>
      simp only [start, hout]
      rw [hout] at hreport
      cases hreport with
      | cancelled hafter => exact hafter.stopped
      | raises error => exact startFailed_kept hposted h hcurrent transport reanchor _
      | returns hafter hbalanced =>
        obtain ⟨hnone, hl2, -, hreturned⟩ := reportTransportReady_returned hout
        have hcurrent' : Posted { after with current := some connectionId } :=
          hafter.congr rfl rfl
        exact bridged_kept hcurrent' (hbalanced.congr rfl rfl rfl) hnone connectionId transport
          reanchor fun hheld => hsound.2 (hl2 ▸ hheld) hreturned

theorem lose_kept (h : run.Kept) (hrunning : run.running = true) (hcurrent : run.current ≠ none)
    (connectionId : String) (overload : Bool) (error : String) (transport reanchor : OpenResult) :
    (lose route run connectionId overload error transport reanchor).Kept := by
  obtain ⟨hnone, -⟩ := h.waiting hrunning hcurrent
  unfold lose
  generalize (if overload then GapReason.ingestOverload else .connectionLost) = reason
  have hopens : Opens run
      (recordLoss route run reason error (some connectionId) transport reanchor) :=
    recordLoss_opens h.posted (h.balanced hrunning) hnone reason error (some connectionId) transport
      reanchor
  generalize recordLoss route run reason error (some connectionId) transport reanchor = lost
    at hopens ⊢
  by_cases hgoes : lost.running = true
  · simp only [if_pos hgoes]
    exact ⟨hopens.posted.congr rfl rfl, fun _ => (hopens.balanced hgoes).congr rfl rfl rfl,
      fun _ hne => absurd rfl hne⟩
  · simp only [if_neg hgoes]
    exact ⟨hopens.posted, hopens.balanced, fun hgoes' => absurd hgoes' hgoes⟩

theorem afterWait_kept (h : run.Kept) (hrunning : run.running = true)
    (hcurrent : run.current ≠ none) (connectionId : String) (transport reanchor : OpenResult)
    (outcome : WaitOutcome) :
    (afterWait route run connectionId transport reanchor outcome).Kept := by
  cases outcome with
  | stop => exact h.posted.stopped
  | failed overload error =>
    exact lose_kept h hrunning hcurrent connectionId overload error transport reanchor
  | reconnect => exact lose_kept h hrunning hcurrent connectionId false _ transport reanchor
  | rotate replacement =>
    cases replacement with
    | replaced other =>
      exact ⟨h.posted.congr rfl rfl, fun _ => (h.balanced hrunning).congr rfl rfl rfl,
        fun _ _ => h.waiting hrunning hcurrent⟩
    | stopped => exact h.posted.stopped
    | failed failure =>
      cases failure with
      | queueOverloaded error => exact h
      | connectionLost error => exact h
      | cancelled => exact h.posted.stopped
      | other => exact h.posted.stopped

/-- One turn of the loop. -/
theorem Step.kept {event : RunEvent} {after : RouteRun} (hstep : Step route run event after)
    (h : run.Kept) (hsound : run.Sound event) : after.Kept := by
  unfold Step next at hstep
  by_cases hrunning : run.running = true
  · rw [if_pos hrunning] at hstep
    cases event with
    | stop =>
      cases hstep
      exact h.posted.stopped
    | start connectionId attempt transport reanchor =>
      cases hcurrent : run.current with
      | none =>
        rw [hcurrent] at hstep
        cases hstep
        exact start_kept h.posted (h.balanced hrunning) hcurrent connectionId attempt transport
          reanchor hsound
      | some waiting =>
        rw [hcurrent] at hstep
        cases hstep
    | wait outcome transport reanchor =>
      cases hcurrent : run.current with
      | none =>
        rw [hcurrent] at hstep
        cases hstep
      | some connectionId =>
        rw [hcurrent] at hstep
        cases hstep
        exact afterWait_kept h hrunning (by rw [hcurrent]; nofun) connectionId transport reanchor
          outcome
  · rw [if_neg hrunning] at hstep
    cases hstep

theorem kept_begin : Kept {} := by
  refine ⟨⟨?_, ?_, List.nodup_nil⟩, fun _ => ⟨fun gapId => ?_, nofun⟩, fun _ hne => absurd rfl hne⟩
  · intro gapId hm
    cases hm
  · intro gapId hm
    cases hm
  · constructor
    · intro hopen
      cases hopen.1
    · intro hheld
      cases hheld with
      | inl heq => cases heq
      | inr heq => cases heq

/-- Whatever the starts, waits and journal calls do, as long as every step is sound. -/
theorem run_books {events : List RunEvent} {final : RouteRun}
    (hrun : Run (Guarded Sound (Step route)) {} events final) : final.Books := by
  have hkept : final.Kept := hrun.preserves (fun h hstep => hstep.2.kept h hstep.1) kept_begin
  exact hkept.books

end Loop

/-! ## A bridge that cannot be recorded -/

def depthRoute : RouteConfig := ⟨"depth", [.depth, .bookTicker]⟩

/-- The route recovers, is lost again and waits for its next start. -/
def recoveredLosses : List RunEvent :=
  [.start "ws-1" (.early (.connectionLost "refused")) .opened .opened,
    .start "ws-2" (.late .closed (.connectionLost "snapshot")) .opened .opened,
    .start "ws-3" (.ready .closed .closed) .opened .opened,
    .wait (.failed false "closed") .opened .opened]

theorem run_books_recoveredLosses :
    ∃ final, Run (Guarded Sound (Step depthRoute)) {} recoveredLosses final ∧
      final.nextGap = 5 ∧ final.Books := by
  have hrun : ∃ final, Run (Guarded Sound (Step depthRoute)) {} recoveredLosses final ∧
      final.nextGap = 5 := by
    refine ⟨_, .cons ⟨trivial, rfl⟩ (.cons ⟨?_, rfl⟩ (.cons ⟨⟨?_, ?_⟩, rfl⟩
      (.cons ⟨trivial, rfl⟩ (.nil _)))), rfl⟩
    · intro _ error
      nofun
    · intro _ error
      nofun
    · intro _ _ published error
      nofun
  obtain ⟨final, hrun, hgaps⟩ := hrun
  exact ⟨final, hrun, hgaps, run_books hrun⟩

/-- The close of the reanchor gap raises after `current` was assigned. -/
def refusedBridge : List RunEvent :=
  [.start "ws-1" (.early (.connectionLost "refused")) .opened .opened,
    .start "ws-2" (.ready .closed (.raised false "no space left")) .opened .opened]

def lostBridge : RunEvent := .wait (.failed false "closed") .opened .opened

/-- The ready connection is waited on with both gaps held, and its loss forgets the first. -/
theorem refusedBridge_forgets :
    ∃ waiting final, Run (Step depthRoute) {} refusedBridge waiting ∧
      waiting.current = some "ws-2" ∧ waiting.gapId = some 2 ∧ waiting.l2GapId = some 1 ∧
        ¬ waiting.Books ∧ Step depthRoute waiting lostBridge final ∧ final.IsOpen 2 ∧
          ¬ final.Held 2 ∧ ¬ final.Books := by
  have hrun : ∃ waiting final, Run (Step depthRoute) {} refusedBridge waiting ∧
      waiting.current = some "ws-2" ∧ waiting.gapId = some 2 ∧ waiting.l2GapId = some 1 ∧
        waiting.running = true ∧ Step depthRoute waiting lostBridge final ∧ final.running = true ∧
          2 ∈ final.opened ∧ 2 ∉ final.closed ∧ final.gapId = some 3 ∧ final.l2GapId = some 1 :=
    ⟨_, _, .cons rfl (.cons rfl (.nil _)), rfl, rfl, rfl, rfl, rfl, rfl, by decide, by decide, rfl,
      rfl⟩
  obtain ⟨waiting, final, hrun, hcurrent, hgap, hl2, hrunning, hlost, hruns, hopened, hclosed,
    hnew, hold⟩ := hrun
  have hforgotten : ¬ final.Held 2 := by
    unfold Held
    rw [hnew, hold]
    decide
  refine ⟨waiting, final, hrun, hcurrent, hgap, hl2, fun hbooks => ?_, hlost, ⟨hopened, hclosed⟩,
    hforgotten, fun hbooks => hforgotten (hbooks.held hruns 2 ⟨hopened, hclosed⟩)⟩
  have hnone := (hbooks.waiting hrunning (by rw [hcurrent]; nofun)).1
  rw [hgap] at hnone
  cases hnone

end RouteRun

end MiryFormal
