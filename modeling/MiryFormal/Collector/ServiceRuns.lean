import MiryFormal.Contracts.GapEvents
import MiryFormal.Shared.Runs

/-!
# Boots, stops and storage stops

`CollectorService.run` and `_storage_loop` start and stop the sources, and the gap journal, the
lease and the sealed days are what the next boot finds. What counts here is the time in which
nothing is collected: it has to be in the ledger, or the lease has to make the next boot put it
there.

A rollover closes a gap at the end of a day and opens it again at the start of the next one; here
the gap stays open over it.
-/

namespace MiryFormal

set_option autoImplicit false

/-- A gap of the collector as a whole in the ledger. -/
structure DowntimeGap where
  gapId : Nat
  reason : GapReason
  fromNs : Int
  closedNs : Option Int := none
  deriving DecidableEq

/-- A file of `control/open-gaps`. -/
structure OpenState where
  gapId : Nat
  reason : GapReason
  deriving DecidableEq

/-- `control/collector-lease.json` -/
inductive LeaseState where
  | running (affectedFromNs : Int)
  | clean
  deriving DecidableEq

/-- `SourceManager`: its task is there from `start` to the end of `stop`. It is `ready` once
`wait_ready` has returned, and stays so for a group that has died since. -/
inductive SourcesState where
  | down
  | started
  | ready
  | stopping
  deriving DecidableEq

namespace CollectorService

/-- Who has started the sources: `run` or `_storage_loop`. -/
inductive Starter where
  | boot
  | storage
  deriving DecidableEq

/-- The three calls of `GapJournal.open`. -/
inductive Opening where
  | recovery
  | storage
  | shutdown
  deriving DecidableEq

def Opening.reason : Opening → GapReason
  | recovery | shutdown => .collectorStopped
  | storage => .storageExhausted

/-- The calls of `GapJournal.close`: in `_close_stale_gaps`, with the gaps still to come, and at
the end of a storage stop. -/
inductive Closing where
  | stale (starter : Starter) (todo : List OpenState)
  | storage
  deriving DecidableEq

/-- Where the program is. -/
inductive Phase where
  | off
  /-- `recovery_start_ns` -/
  | reading
  /-- In `open`, before the OPEN event is published. -/
  | opening (why : Opening) (fromNs : Int)
  /-- In `open`, before the file of `open-gaps` is written. -/
  | saving (why : Opening) (gapId : Nat)
  /-- `stale_open_events` -/
  | listing
  /-- The first `write_running`. -/
  | leasing
  /-- The first look at the spool. -/
  | checking
  /-- `_wait_source_readiness` -/
  | waiting (starter : Starter)
  /-- `_close_stale_gaps` -/
  | closing (starter : Starter) (todo : List OpenState)
  /-- In `close`, before the CLOSED event is published. -/
  | publishing (why : Closing) (gap : OpenState) (observedNs : Int)
  /-- In `close`, before the file of `open-gaps` is removed. -/
  | removing (why : Closing) (gap : OpenState)
  /-- `_seal_completed_days` -/
  | sealing (starter : Starter)
  /-- `_mark_formal_start` -/
  | marking (starter : Starter)
  /-- The handler of `run` when the start has failed. -/
  | abandoning
  /-- `_storage_loop` between two rounds. -/
  | idle
  /-- `_storage_loop` in `SourceManager.stop`. -/
  | stopping
  /-- `run` in `SourceManager.stop`, when the service ends. -/
  | stopSources
  /-- `write_clean` -/
  | cleaning
  | exiting
  deriving DecidableEq

/-- The background tasks are there. -/
def Phase.background : Phase → Bool
  | .idle | .stopping | .opening .storage _ | .saving .storage _ | .waiting .storage
  | .closing .storage _ | .publishing (.stale .storage _) _ _ | .publishing .storage _ _
  | .removing (.stale .storage _) _ | .removing .storage _ | .sealing .storage
  | .marking .storage => true
  | _ => false

/-- A start that fails here ends `run` without its handler. -/
def Phase.early : Phase → Bool
  | .reading | .opening .recovery _ | .saving .recovery _ | .listing | .leasing => true
  | _ => false

/-- The service ends. -/
def Phase.ending : Phase → Bool
  | .opening .shutdown _ | .saving .shutdown _ | .stopSources | .cleaning | .exiting => true
  | _ => false

/-- A day can be sealed: by `_seal_completed_days`, by the midnight loop, which waits for the end
of a round of the storage loop, or by what a cancelled midnight loop has still under way. -/
def Phase.maySeal (phase : Phase) : Bool :=
  match phase with
  | .sealing _ | .idle => true
  | _ => phase.ending

end CollectorService

open CollectorService

structure CollectorService where
  now : Int
  ledger : List DowntimeGap := []
  openRoot : List OpenState := []
  lease : Option LeaseState := none
  /-- The end of the last day with a `SEALED.json`. -/
  sealedNs : Int
  /-- `control/formal-start.json` is there. -/
  formal : Bool := false
  /-- Since the formal start, the stretches of time in which the sources were not ready. -/
  missed : List (Int × Int) := []
  phase : Phase := .off
  /-- `_service_started_ns` -/
  startedNs : Int
  /-- `_sealed_floor_ns` -/
  sealedFloorNs : Int
  sources : SourcesState := .down
  storageGapId : Option Nat := none
  /-- `_stale_gaps` -/
  stale : List OpenState := []
  /-- The arguments of `write_running` that are on their way to the disk. -/
  heartbeats : List Int := []
  deriving DecidableEq

inductive ServiceEvent where
  | tick (ns : Int)
  | boot
  /-- `stale_open_events`; the names of the files are random. -/
  | list (order : List OpenState)
  | status (hardLimited : Bool)
  | ready
  /-- `_wait_source_readiness` ends with a `TimeoutError`. -/
  | timeout
  /-- `_storage_loop` begins a round. -/
  | turn (hardLimited : Bool)
  /-- The call at hand returns. -/
  | step
  /-- The service ends: a stop is asked for, or a background task has failed. The storage loop is
  cancelled, and the file operation that it was in may still take place. -/
  | stop (landed : Bool)
  /-- `run` raises outside the background tasks; the file operation may have taken place. -/
  | fail (landed : Bool)
  | crash
  /-- `write_running` is called by the lease loop or at the end of a day's seal. -/
  | heartbeat (watermarkNs : Int)
  | writeRunning (watermarkNs : Int)
  | sealDay (dayEndNs : Int)
  | recordSealed
  deriving DecidableEq

namespace CollectorService

/-- `GapJournal.open` publishes. -/
def publishOpen (reason : GapReason) (fromNs : Int) (ledger : List DowntimeGap) :
    List DowntimeGap :=
  ledger ++ [{ gapId := ledger.length, reason, fromNs }]

/-- `GapJournal.close` publishes; a second CLOSED event adds nothing. -/
def publishClosed (gapId : Nat) (observedNs : Int) (ledger : List DowntimeGap) :
    List DowntimeGap :=
  ledger.map fun gap =>
    if gap.gapId = gapId ∧ gap.closedNs = none then { gap with closedNs := some observedNs }
    else gap

/-- What the call at hand does to the disk. -/
def effect (service : CollectorService) : CollectorService :=
  match service.phase with
  | .opening why fromNs =>
      { service with ledger := publishOpen why.reason fromNs service.ledger }
  | .saving why gapId =>
      { service with openRoot := service.openRoot ++ [⟨gapId, why.reason⟩] }
  | .leasing =>
      { service with lease := some (.running (max service.startedNs service.sealedFloorNs)) }
  | .publishing _ gap observedNs =>
      { service with ledger := publishClosed gap.gapId observedNs service.ledger }
  | .removing _ gap =>
      { service with openRoot := service.openRoot.filter (·.gapId ≠ gap.gapId) }
  | .marking _ => { service with formal := true }
  | .cleaning => { service with lease := some .clean }
  | _ => service

/-- `SourceManager.stop` begins, when there is something to stop. -/
def stopTask : SourcesState → SourcesState
  | .down => .down
  | _ => .stopping

/-- The process is gone. -/
def exit (service : CollectorService) : CollectorService :=
  { service with
    phase := .off
    sources := .down
    storageGapId := none
    stale := []
    heartbeats := [] }

/-- The end of a storage round that has found the limit reached. -/
def stopForStorage (service : CollectorService) : CollectorService :=
  if service.sources ≠ .down then { service with sources := .stopping, phase := .stopping }
  else { service with phase := .idle }

/-- A round of `_storage_loop` after `SpoolManager.status`. -/
def turn (hardLimited : Bool) (service : CollectorService) : CollectorService :=
  match hardLimited, service.storageGapId with
  | true, none => { service with phase := .opening .storage service.now }
  | true, some _ => service.stopForStorage
  | false, none => service
  | false, some gapId =>
      if service.sources ≠ .down then
        { service with phase := .publishing .storage ⟨gapId, .storageExhausted⟩ service.now }
      else { service with sources := .started, phase := .waiting .storage }

/-- `_close_stale_gaps` goes on to its next gap. -/
def closeNext (starter : Starter) (todo : List OpenState) (service : CollectorService) :
    CollectorService :=
  match todo with
  | [] => { service with phase := .sealing starter }
  | gap :: todo =>
      if service.storageGapId = some gap.gapId then
        { service with phase := .closing starter todo }
      else { service with phase := .publishing (.stale starter todo) gap service.now }

/-- After the readiness work: `run` starts the background tasks, `_storage_loop` closes its gap. -/
def afterMark (starter : Starter) (service : CollectorService) : CollectorService :=
  match starter, service.storageGapId with
  | .storage, some gapId =>
      { service with phase := .publishing .storage ⟨gapId, .storageExhausted⟩ service.now }
  | _, _ => { service with phase := .idle }

/-- The first storage gap among the stale ones. -/
def storageOf (stale : List OpenState) : Option Nat :=
  (stale.find? (·.reason = .storageExhausted)).map (·.gapId)

/-- The program goes on after the call at hand. -/
def proceed (service : CollectorService) : Option CollectorService :=
  let after := service.effect
  match service.phase with
  | .reading =>
      match service.lease with
      | some (.running affectedFromNs) => some { after with
          phase := .opening .recovery (max affectedFromNs service.sealedFloorNs) }
      | _ => some { after with phase := .listing }
  | .opening why _ => some { after with phase := .saving why service.ledger.length }
  | .saving .recovery _ => some { after with phase := .listing }
  | .saving .storage gapId => some { after with storageGapId := some gapId }.stopForStorage
  | .saving .shutdown _ =>
      some { after with sources := stopTask after.sources, phase := .stopSources }
  | .leasing => some { after with storageGapId := storageOf after.stale, phase := .checking }
  | .closing starter todo => some (after.closeNext starter todo)
  | .publishing why gap _ => some { after with phase := .removing why gap }
  | .removing (.stale starter todo) _ => some { after with phase := .closing starter todo }
  | .removing .storage _ => some { after with storageGapId := none, phase := .idle }
  | .sealing starter => some { after with phase := .marking starter }
  | .marking starter => some (after.afterMark starter)
  | .stopping => some { after with sources := .down, phase := .idle }
  | .stopSources => some { after with sources := .down, phase := .cleaning }
  | .cleaning => some { after with phase := .exiting }
  | .abandoning | .exiting => some after.exit
  | .off | .listing | .checking | .waiting _ | .idle => none

/-- The end of `run`, once the background tasks are cancelled. -/
def shutdown (service : CollectorService) : CollectorService :=
  if service.sources ≠ .down then { service with phase := .opening .shutdown service.now }
  else { service with phase := .stopSources }

/-- `run` raises. -/
def raised (service : CollectorService) : CollectorService :=
  if service.phase.early ∨ service.phase.ending then service.exit
  else { service with sources := stopTask service.sources, phase := .abandoning }

def next (service : CollectorService) : ServiceEvent → Option CollectorService
  | .tick ns =>
      if service.now ≤ ns then
        let missed := if service.formal ∧ service.sources ≠ .ready then
          service.missed ++ [(service.now, ns)] else service.missed
        some { service with now := ns, missed }
      else none
  | .boot =>
      if service.phase = .off then
        some { service with
          phase := .reading
          startedNs := service.now
          sealedFloorNs := service.sealedNs }
      else none
  | .list order =>
      if service.phase = .listing ∧ order.Perm service.openRoot then
        some { service with stale := order, phase := .leasing }
      else none
  | .status hardLimited =>
      if service.phase = .checking then
        some (if hardLimited then { service with phase := .idle }
          else { service with sources := .started, phase := .waiting .boot })
      else none
  | .ready =>
      match service.phase with
      | .waiting starter => some { service with
          sources := .ready
          stale := []
          phase := .closing starter service.stale }
      | _ => none
  | .timeout =>
      if service.phase = .waiting .storage then
        some { service with sources := .stopping, phase := .stopping }
      else none
  | .turn hardLimited =>
      if service.phase = .idle then some (service.turn hardLimited) else none
  | .step => service.proceed
  | .stop landed =>
      if service.phase.background then
        some (if landed then service.effect else service).shutdown
      else none
  | .fail landed =>
      if service.phase = .off ∨ service.phase.background ∨ service.phase = .abandoning then none
      else some (if landed then service.effect else service).raised
  | .crash => if service.phase = .off then none else some service.exit
  | .heartbeat watermarkNs =>
      if service.phase.background ∧ watermarkNs ≤ service.now then
        some { service with heartbeats := service.heartbeats ++ [watermarkNs] }
      else none
  | .writeRunning watermarkNs =>
      if watermarkNs ∈ service.heartbeats then
        some { service with
          heartbeats := service.heartbeats.erase watermarkNs
          lease := some (.running (max watermarkNs service.sealedFloorNs)) }
      else none
  | .sealDay dayEndNs =>
      if service.phase.maySeal ∧ service.sealedNs ≤ dayEndNs ∧ dayEndNs ≤ service.now then
        some { service with sealedNs := dayEndNs }
      else none
  | .recordSealed =>
      if service.phase = .off then none
      else some { service with sealedFloorNs := max service.sealedFloorNs service.sealedNs }

def Step (service : CollectorService) (event : ServiceEvent) (after : CollectorService) : Prop :=
  service.next event = some after

/-- A boot finds no file of a storage gap whose CLOSED event is already published. -/
def BootsClean (service : CollectorService) (event : ServiceEvent) : Prop :=
  event = .boot → ∀ file ∈ service.openRoot, file.reason = .storageExhausted →
    ∀ gap ∈ service.ledger, gap.gapId = file.gapId → gap.closedNs = none

/-- A data root on which no collector has run. -/
def fresh (now : Nat) : CollectorService where
  now := now
  sealedNs := 0
  startedNs := now
  sealedFloorNs := 0

end CollectorService

end MiryFormal
