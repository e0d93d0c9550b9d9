import Mathlib.Algebra.Order.Ring.Int
import Mathlib.Logic.Function.Basic
import MiryFormal.Collector.WriterPool
import MiryFormal.Shared.Hysteresis
import MiryFormal.Shared.Runs

/-!
# The byte budget of the queues

`ByteBoundedQueues` reserves the bytes of an event when it is put. The writer of its group takes
it from the queue, adds it to a session, flushes the batch it lands in, and only then releases
the bytes. A step of the model is a call of the queues, or what a writer does up to its next
`await`; any of the three writers or the putters may take the next step.
-/

namespace MiryFormal

set_option autoImplicit false

/-- `RotateWriter` and `StopWriter` -/
inductive ControlItem where
  | rotateWriter (universeHash : String)
  | stopWriter

inductive WriterItem where
  | event (queued : QueuedEvent)
  | control (item : ControlItem)

/-- The bounds of the queues. The config has `queue_resume_ratio` below `queue_warn_ratio`. -/
structure QueueLimits where
  maxBytes : Nat
  warnBytes : Nat
  resumeBytes : Nat
  resume_le_warn : resumeBytes ≤ warnBytes := by decide

def QueueLimits.thresholds (limits : QueueLimits) : Hysteresis Int where
  low := limits.resumeBytes
  high := limits.warnBytes
  low_le_high := Int.ofNat_le.mpr limits.resume_le_warn

structure ByteBoundedQueues where
  usedBytes : Int := 0
  queues : WriterGroup → List WriterItem := fun _ => []
  lastEventMonotonicNs : WriterGroup → Option Int := fun _ => none
  usedBytesByGroup : WriterGroup → Int := fun _ => 0
  highWaterBytes : Int := 0
  intervalHighWaterBytes : Int := 0
  warnCrossings : Nat := 0
  hardRejections : Nat := 0
  aboveWarn : Bool := false

namespace ByteBoundedQueues
variable (limits : QueueLimits)

def takeIntervalHighWaterBytes (queues : ByteBoundedQueues) : Int × ByteBoundedQueues :=
  (queues.intervalHighWaterBytes, { queues with intervalHighWaterBytes := queues.usedBytes })

/-- The counters when the bytes of an event are reserved. -/
def reserve (queues : ByteBoundedQueues) (group : WriterGroup) (reserved : Nat) :
    ByteBoundedQueues :=
  let usedBytes := queues.usedBytes + reserved
  { queues with
    usedBytes
    usedBytesByGroup := Function.update queues.usedBytesByGroup group
      (queues.usedBytesByGroup group + reserved)
    highWaterBytes := max queues.highWaterBytes usedBytes
    intervalHighWaterBytes := max queues.intervalHighWaterBytes usedBytes
    aboveWarn := limits.thresholds.rise queues.aboveWarn usedBytes
    warnCrossings :=
      if queues.aboveWarn = false ∧ (limits.warnBytes : Int) ≤ usedBytes then
        queues.warnCrossings + 1
      else queues.warnCrossings }

def enqueue (queues : ByteBoundedQueues) (group : WriterGroup) (item : WriterItem) :
    ByteBoundedQueues :=
  { queues with
    queues := Function.update queues.queues group (queues.queues group ++ [item]) }

/-- `put`, or its `QueueOverloaded`. -/
def put (queues : ByteBoundedQueues) (event : RawEvent) (nowNs : Int) :
    Except String Unit × ByteBoundedQueues :=
  let reserved := event.approximateSizeBytes
  if limits.maxBytes < reserved ∨ (limits.maxBytes : Int) < queues.usedBytes + reserved then
    (.error ("raw queue hard limit: used=" ++ toString queues.usedBytes ++ " incoming=" ++
      toString reserved ++ " max=" ++ toString limits.maxBytes),
      { queues with hardRejections := queues.hardRejections + 1 })
  else
    let next := (queues.reserve limits event.writerGroup reserved).enqueue event.writerGroup
      (.event ⟨event, reserved, rfl⟩)
    (.ok (), { next with
      lastEventMonotonicNs := Function.update queues.lastEventMonotonicNs event.writerGroup
        (some nowNs) })

def getNowait (queues : ByteBoundedQueues) (group : WriterGroup) :
    Option (WriterItem × ByteBoundedQueues) :=
  match queues.queues group with
  | [] => none
  | item :: rest =>
      some (item, { queues with queues := Function.update queues.queues group rest })

def releaseError : String := "queue byte accounting became negative"

def release (queues : ByteBoundedQueues) (group : WriterGroup) (reserved : Nat) :
    Except String Unit × ByteBoundedQueues :=
  let usedBytes := queues.usedBytes - reserved
  let groupBytes := queues.usedBytesByGroup group - reserved
  let next := { queues with
    usedBytes
    usedBytesByGroup := Function.update queues.usedBytesByGroup group groupBytes }
  if usedBytes < 0 ∨ groupBytes < 0 then (.error releaseError, next)
  else
    (.ok (), { next with aboveWarn := limits.thresholds.fall queues.aboveWarn usedBytes })

def putControl (queues : ByteBoundedQueues) (group : WriterGroup) (item : ControlItem) :
    ByteBoundedQueues :=
  queues.enqueue group (.control item)

end ByteBoundedQueues

/-! ## The writers -/

/-- What is left of the loop body of `_run`, one entry for each statement that may `await`. -/
inductive WriterStatement where
  /-- `finish` before an event that the session cannot take. -/
  | rotateBefore (queued : QueuedEvent)
  | openSession (queued : QueuedEvent)
  /-- `session.add`, and `flush` of a full batch. -/
  | add (queued : QueuedEvent)
  | finishIfFull
  /-- `session.flush` in a thread. -/
  | flush
  /-- The part of `finish` after its flush. -/
  | publish
  | setUniverse (universeHash : String)
  | stop

/-- The statements of `finish`. -/
def finishStatements : List WriterStatement := [.flush, .publish]

/-- A writer of the pool. -/
structure QueueWriter where
  session : Option WriterSession := none
  universeHash : String
  /-- Empty while the writer waits for an item. -/
  todo : List WriterStatement := []
  /-- What a flush has written, with the bytes that `release` is still to be called for. -/
  releasing : Option (List QueuedEvent × Nat) := none
  raised : Option String := none
  returned : Bool := false

/-- What a step reads. -/
structure StepReadings where
  stamp : ChunkStamp
  nowNs : Int
  finishing : Finishing

namespace QueueWriter
variable (sizeOf : ParquetFile → Nat) (sha256File : ParquetFile → String) (writer : ChunkWriter)

/-- The statements that handle an item. -/
def handle (state : QueueWriter) : WriterItem → QueueWriter
  | .event queued => { state with todo := [.rotateBefore queued] }
  | .control (.rotateWriter universeHash) =>
      { state with todo := finishStatements ++ [.setUniverse universeHash] }
  | .control .stopWriter => { state with todo := finishStatements ++ [.stop] }

/-- A second without an item. -/
def timeout (state : QueueWriter) (nowNs : Int) : QueueWriter :=
  if state.session.any fun session => session.expired writer.limits nowNs then
    { state with todo := finishStatements }
  else state

section Statements
variable (state : QueueWriter) (rest : List WriterStatement)

def rotateBefore (queued : QueuedEvent) : QueueWriter :=
  if state.session.any fun session =>
      session.shouldRotateBefore writer.limits queued.event queued.event.eventDate then
    { state with todo := finishStatements ++ .openSession queued :: rest }
  else { state with todo := .openSession queued :: rest }

def openSession (stamp : ChunkStamp) (queued : QueuedEvent) : QueueWriter :=
  { state with
    session := some (state.session.getD
      (.init writer stamp queued.event.eventDate state.universeHash))
    todo := .add queued :: rest }

def add (queued : QueuedEvent) : QueueWriter :=
  match state.session with
  | none => { state with raised := some "'NoneType' object has no attribute 'add'" }
  | some session =>
      let added := session.add writer.limits queued
      { state with
        session := some added.2
        todo := if added.1 then .flush :: .finishIfFull :: rest else .finishIfFull :: rest }

def finishIfFull (nowNs : Int) : QueueWriter :=
  if state.session.any fun session => writer.limits.maxBytes ≤ session.estimatedBytes ||
      writer.limits.maxEvents ≤ session.eventCount || session.expired writer.limits nowNs then
    { state with todo := finishStatements ++ rest }
  else { state with todo := rest }

def flush : QueueWriter :=
  match state.session with
  | none => { state with todo := rest }
  | some session =>
      { state with
        session := some session.flush.2
        releasing := if session.flush.1 = 0 then none else some (session.batch, session.flush.1)
        todo := rest }

def publish (finishing : Finishing) : QueueWriter :=
  match state.session with
  | none => { state with todo := rest }
  | some session =>
      match session.finish sizeOf sha256File writer finishing.createdAt with
      | .error message => { state with raised := some message }
      | .ok chunk =>
          if chunk.manifest.utcDate ∈ finishing.sealedDays then
            { state with raised := some "cannot add a chunk to sealed UTC day" }
          else { state with session := none, todo := rest }

/-- The first statement is run, `rest` is left. -/
def perform (readings : StepReadings) : WriterStatement → QueueWriter
  | .rotateBefore queued => state.rotateBefore writer rest queued
  | .openSession queued => state.openSession writer rest readings.stamp queued
  | .add queued => state.add writer rest queued
  | .finishIfFull => state.finishIfFull writer rest readings.nowNs
  | .flush => state.flush rest
  | .publish => state.publish sizeOf sha256File writer rest readings.finishing
  | .setUniverse universeHash => { state with universeHash, todo := rest }
  | .stop => { state with returned := true, todo := rest }

end Statements

/-- Ready for the next item. -/
def Waiting (state : QueueWriter) : Prop :=
  state.raised = none ∧ state.returned = false ∧ state.releasing = none ∧ state.todo = []

instance (state : QueueWriter) : Decidable state.Waiting :=
  inferInstanceAs (Decidable (state.raised = none ∧ state.returned = false ∧
    state.releasing = none ∧ state.todo = []))

end QueueWriter

/-- The queues and their writers. The rest is bookkeeping: what was admitted, what was released,
and the values `used_bytes` had before, the latest first. -/
structure QueuedWriters where
  queues : ByteBoundedQueues := {}
  writers : WriterGroup → QueueWriter
  admitted : WriterGroup → List QueuedEvent := fun _ => []
  released : WriterGroup → List QueuedEvent := fun _ => []
  history : List Int := []

inductive QueueStep where
  | put (event : RawEvent) (nowNs : Int)
  | putControl (group : WriterGroup) (item : ControlItem)
  | takeIntervalHighWaterBytes
  /-- The writer of a group takes the next item. -/
  | get (group : WriterGroup)
  | timeout (group : WriterGroup) (nowNs : Int)
  /-- The writer of a group goes on with its item. -/
  | proceed (group : WriterGroup) (readings : StepReadings)

namespace QueuedWriters

/-- A pool before its first event. -/
def start (universeHash : String) : QueuedWriters where
  writers := fun _ => { universeHash }

def setWriter (state : QueuedWriters) (group : WriterGroup) (next : QueueWriter) :
    QueuedWriters :=
  { state with writers := Function.update state.writers group next }

section Step
variable (limits : QueueLimits) (sizeOf : ParquetFile → Nat) (sha256File : ParquetFile → String)
  (writer : WriterGroup → ChunkWriter)

def put (state : QueuedWriters) (event : RawEvent) (nowNs : Int) : QueuedWriters :=
  match state.queues.put limits event nowNs with
  | (.error _, queues) => { state with queues }
  | (.ok _, queues) =>
      { state with
        queues
        admitted := Function.update state.admitted event.writerGroup
          (state.admitted event.writerGroup ++ [⟨event, event.approximateSizeBytes, rfl⟩])
        history := state.queues.usedBytes :: state.history }

/-- The `release` after a flush. -/
def release (state : QueuedWriters) (group : WriterGroup) (batch : List QueuedEvent)
    (bytes : Nat) : QueuedWriters :=
  match state.queues.release limits group bytes with
  | (.error message, queues) =>
      { state.setWriter group { state.writers group with raised := some message } with queues }
  | (.ok _, queues) =>
      { state.setWriter group { state.writers group with releasing := none } with
        queues
        released := Function.update state.released group (state.released group ++ batch)
        history := state.queues.usedBytes :: state.history }

def get (state : QueuedWriters) (group : WriterGroup) : Option QueuedWriters :=
  if (state.writers group).Waiting then
    match state.queues.getNowait group with
    | none => none
    | some (item, queues) =>
        some { state.setWriter group ((state.writers group).handle item) with queues }
  else none

def timeout (state : QueuedWriters) (group : WriterGroup) (nowNs : Int) : Option QueuedWriters :=
  if (state.writers group).Waiting then
    some (state.setWriter group ((state.writers group).timeout (writer group) nowNs))
  else none

def proceed (state : QueuedWriters) (group : WriterGroup) (readings : StepReadings) :
    Option QueuedWriters :=
  let current := state.writers group
  match current.raised, current.releasing, current.todo with
  | none, some (batch, bytes), _ => some (state.release limits group batch bytes)
  | none, none, statement :: rest =>
      some (state.setWriter group
        (current.perform sizeOf sha256File (writer group) rest readings statement))
  | _, _, _ => none

/-- One step of the putters or of a writer. A writer that has raised takes no more. -/
def step (state : QueuedWriters) : QueueStep → Option QueuedWriters
  | .put event nowNs => some (state.put limits event nowNs)
  | .putControl group item =>
      if group ∈ writerGroups then
        some { state with queues := state.queues.putControl group item }
      else none
  | .takeIntervalHighWaterBytes =>
      some { state with queues := state.queues.takeIntervalHighWaterBytes.2 }
  | .get group => state.get group
  | .timeout group nowNs => state.timeout writer group nowNs
  | .proceed group readings => state.proceed limits sizeOf sha256File writer group readings

end Step

end QueuedWriters

end MiryFormal
