import MiryFormal.Contracts.GapEvents
import MiryFormal.Transfer.ApplyAcks

/-!
# Publication on the edge

`ChunkSession.finish`, `GapJournal._write`, and the day index that records and seals what
they publish. The day index runs `record`, `record_generated` and `seal` one at a time under
its lock, which only takes interleavings away; where a result needs it, it is said there.
-/

namespace MiryFormal

set_option autoImplicit false

open Program TransferOp

/-! ## Manifests -/

/-- What is known of a chunk before its data is read back. -/
structure ChunkDraft where
  chunkId : String
  dataPath : RelPath
  contentType : ContentType
  collectorId : String
  writerGroup : WriterGroup
  utcDate : Int
  eventCount : Nat
  minAppReceiveRealtimeNs : Int
  maxAppReceiveRealtimeNs : Int
  dataContractHash : String
  universeHash : String
  createdAt : Int

namespace ChunkDraft
variable (sha256 : Bytes → String) (draft : ChunkDraft)

/-- The file is named after the id, which the name of no other kind of file begins with. -/
structure Named : Prop where
  fileName : draft.dataPath.name = draft.chunkId ++ draft.contentType.extension
  proper : ∀ other, draft.chunkId ≠ other ++ ".gap"

/-- The manifest of the data, validated as the model does. -/
def describe (stored : Bytes) : Except Failure ChunkManifest :=
  if h : (8 ≤ draft.chunkId.length ∧ draft.chunkId.length ≤ 160) ∧ 0 < stored.length ∧
      0 < draft.eventCount ∧ 0 ≤ draft.minAppReceiveRealtimeNs ∧
        draft.minAppReceiveRealtimeNs ≤ draft.maxAppReceiveRealtimeNs then
    .ok {
      chunkId := draft.chunkId
      dataPath := draft.dataPath
      sha256 := sha256 stored
      sizeBytes := stored.length
      contentType := draft.contentType
      id_length := h.1
      size_pos := h.2.1
      collectorId := draft.collectorId
      writerGroup := draft.writerGroup
      utcDate := draft.utcDate
      eventCount := draft.eventCount
      minAppReceiveRealtimeNs := draft.minAppReceiveRealtimeNs
      maxAppReceiveRealtimeNs := draft.maxAppReceiveRealtimeNs
      dataContractHash := draft.dataContractHash
      universeHash := draft.universeHash
      createdAt := draft.createdAt
      eventCount_pos := h.2.2.1
      time_range := h.2.2.2 }
  else .error (.valueError "ChunkManifest")

/-- Data placed under its name, then its manifest. -/
def publish (content : Bytes) : TransferProgram ChunkManifest := do
  io (placeData draft.dataPath content)
  let stored ← io (readData draft.dataPath)
  match draft.describe sha256 stored with
  | .ok manifest =>
      io (writeManifest manifest.manifestPath manifest)
      pure manifest
  | .error e => raise e

end ChunkDraft

/-! ## The day index -/

/-- `record` -/
def record (utcDate : Int) (chunk : ChunkRef) : TransferProgram Unit := do
  if ← io (sealedExists utcDate) then raise (.runtimeError "cannot add a chunk to sealed UTC day")
  else io (appendIndex utcDate chunk)

/-- `_generate_and_record` -/
def generateAndRecord (utcDate : Int) (create : TransferProgram ChunkManifest) :
    TransferProgram Unit := do
  let manifest ← create
  if manifest.utcDate ≠ utcDate then raise (.valueError "generated chunk UTC date mismatch")
  else io (appendIndex utcDate manifest.asRef)

/-- `record_generated`. An OSError frees the reserve, which no listing sees, and `create` is
called once more. -/
def recordGenerated (utcDate : Int) (create retry : TransferProgram ChunkManifest) :
    TransferProgram Unit := do
  if ← io (sealedExists utcDate) then raise (.runtimeError "cannot publish into sealed UTC day")
  else
    match ← (generateAndRecord utcDate create).attempt with
    | .ok () => pure ()
    | .error .osError => generateAndRecord utcDate retry
    | .error e => raise e

/-- `by_identity[(chunk_id, sha256)] = chunk` -/
def addRef (byIdentity : List ((String × String) × ChunkRef)) (chunk : ChunkRef) :
    List ((String × String) × ChunkRef) :=
  KeyedDict.set id (chunk.chunkId, chunk.sha256) chunk byIdentity

/-- The manifests below one root, in `_read_refs`. -/
def addManifest (byIdentity : List ((String × String) × ChunkRef))
    (content : Option ChunkManifest) : TransferProgram (List ((String × String) × ChunkRef)) :=
  match content with
  | some manifest => pure (addRef byIdentity manifest.asRef)
  | none => raise (.valueError "invalid manifest")

/-- `ready/date=...` -/
def readyOf (utcDate : Int) (paths : List RelPath) : List RelPath :=
  paths.filter fun path => path.folders.head? = some (.date utcDate)

/-- `acked-manifests/date=...` -/
def ackedOf (utcDate : Int) (tombstones : List (Int ×ₗ String)) : List String :=
  (tombstones.filter fun tombstone => (ofLex tombstone).1 = utcDate).map fun tombstone =>
    (ofLex tombstone).2

/-- `_read_refs`, up to the sorting. -/
def readRefs (utcDate : Int) : TransferProgram (List ((String × String) × ChunkRef)) := do
  match ← io (readIndex utcDate) with
  | none => pure []
  | some lines =>
      let ready ← io listManifests
      let byIdentity ← (readyOf utcDate ready).foldlM (fun byIdentity path => do
        addManifest byIdentity (← io (readManifest path))) (lines.foldl addRef [])
      let acked ← io listAcked
      (ackedOf utcDate acked).foldlM (fun byIdentity name => do
        addManifest byIdentity (← io (readAcked utcDate name))) byIdentity

/-- `[by_identity[key] for key in sorted(by_identity)]` -/
def sortedRefs (byIdentity : List ((String × String) × ChunkRef)) : List ChunkRef :=
  (byIdentity.insertionSort fun a b => toLex a.1 ≤ toLex b.1).map Prod.snd

theorem mem_sortedRefs {byIdentity : List ((String × String) × ChunkRef)} {chunk : ChunkRef} :
    chunk ∈ sortedRefs byIdentity ↔ ∃ entry ∈ byIdentity, entry.2 = chunk := by
  unfold sortedRefs
  rw [List.mem_map]
  exact exists_congr fun entry => and_congr_left fun _ =>
    (List.perm_insertionSort _ byIdentity).mem_iff

def deleteIndex (utcDate : Int) : TransferProgram Unit := do
  if (← io (readIndex utcDate)).isSome then io (unlinkIndex utcDate)

/-- `_clean_sealed_day_state` -/
def cleanSealedDayState (utcDate : Int) : TransferProgram Unit := do
  deleteIndex utcDate
  let acked ← io listAcked
  (ackedOf utcDate acked).forM fun name => io (unlinkAcked utcDate name)

/-- `_seal` -/
def sealDay (collectorId : String) (utcDate sealedAt : Int) : TransferProgram Unit := do
  if ← io (sealedExists utcDate) then cleanSealedDayState utcDate
  else
    let chunks := sortedRefs (← readRefs utcDate)
    if h : (chunks.map fun chunk => (chunk.chunkId, chunk.sha256)).Nodup ∧
        utcDate < sealedAt / (86400 * 1000000) then
      io (writeSealed ⟨collectorId, utcDate, sealedAt, chunks, h.1, h.2⟩)
      cleanSealedDayState utcDate
    else raise (.valueError "DayManifest")

/-! ## Chunks and gap artifacts -/

theorem ne_append_gap {id : String} {c : Char} (hlast : id.toList.getLast? = some c)
    (hne : c ≠ 'p') (other : String) : id ≠ other ++ ".gap" := by
  rintro rfl
  have hgap : (other ++ ".gap").toList.getLast? = some 'p' := by
    rw [String.toList_append]
    exact List.getLast?_append_of_ne_nil _ (by decide)
  exact hne (Option.some.inj (hlast.symm.trans hgap))

/-- A writer's chunk when it is finished: `timestamp` and `suffix` make its id unique. -/
structure ChunkSession where
  collectorId : String
  writerGroup : WriterGroup
  timestamp : String
  suffix : String
  utcDate : Int
  content : Bytes
  eventCount : Nat
  minRealtimeNs : Int
  maxRealtimeNs : Int
  dataContractHash : String
  universeHash : String
  finishedAt : Int
  /-- `uuid4().hex[:12]` -/
  suffix_hex : suffix ≠ "" ∧ ∀ c ∈ suffix.toList, c ∈ "0123456789abcdef".toList := by simp

namespace ChunkSession
variable (session : ChunkSession)

def chunkId : String :=
  session.collectorId ++ "-" ++ session.writerGroup.value ++ "-" ++ session.timestamp ++ "-" ++
    session.suffix

def draft : ChunkDraft where
  chunkId := session.chunkId
  dataPath :=
    { folders := [.date session.utcDate, .named ("writer=" ++ session.writerGroup.value)]
      name := session.chunkId ++ ".parquet" }
  contentType := .parquet
  collectorId := session.collectorId
  writerGroup := session.writerGroup
  utcDate := session.utcDate
  eventCount := session.eventCount
  minAppReceiveRealtimeNs := session.minRealtimeNs
  maxAppReceiveRealtimeNs := session.maxRealtimeNs
  dataContractHash := session.dataContractHash
  universeHash := session.universeHash
  createdAt := session.finishedAt

theorem draft_named : session.draft.Named where
  fileName := rfl
  proper := by
    obtain ⟨hne, hhex⟩ := session.suffix_hex
    have hchars : session.suffix.toList ≠ [] := by simpa using hne
    have hlast := List.getLast?_eq_some_getLast hchars
    refine ne_append_gap (c := session.suffix.toList.getLast hchars) ?_ ?_
    · show (_ ++ session.suffix).toList.getLast? = _
      rw [String.toList_append, List.getLast?_append_of_ne_nil _ hchars, hlast]
    · intro hp
      have hdigit := hhex _ (List.getLast_mem hchars)
      rw [hp] at hdigit
      exact absurd hdigit (by decide)

/-- `finish` -/
def finish (sha256 : Bytes → String) : TransferProgram ChunkManifest :=
  if session.eventCount = 0 then raise (.runtimeError "cannot finish an empty chunk")
  else session.draft.publish sha256 session.content

/-- `finish` in the writer's task: the chunk is published, then recorded. -/
def finishAndRecord (sha256 : Bytes → String) : TransferProgram Unit := do
  let manifest ← session.finish sha256
  record manifest.utcDate manifest.asRef

end ChunkSession

/-- What `GapJournal` knows when it writes an event. -/
structure GapWrite where
  event : GapEvent
  dataContractHash : String
  universeHash : String
  createdAt : Int

namespace GapWrite
variable (write : GapWrite)

def artifactId : String :=
  write.event.gapId ++ "-" ++ toString write.event.observedAtRealtimeNs ++ "-" ++
    match write.event.state with
    | .opened => "open"
    | .closed => "closed"

def draft : ChunkDraft where
  chunkId := write.artifactId
  dataPath :=
    { folders := [.date (utcDateOf write.event.effectiveNs), .named "writer=control"]
      name := write.artifactId ++ ".gap.json" }
  contentType := .gapJson
  collectorId := write.event.collectorId
  writerGroup := .control
  utcDate := utcDateOf write.event.effectiveNs
  eventCount := 1
  minAppReceiveRealtimeNs := write.event.effectiveNs
  maxAppReceiveRealtimeNs := write.event.effectiveNs
  dataContractHash := write.dataContractHash
  universeHash := write.universeHash
  createdAt := write.createdAt

theorem draft_named : write.draft.Named where
  fileName := rfl
  proper := by
    show ∀ other, write.artifactId ≠ other ++ ".gap"
    unfold artifactId
    cases write.event.state with
    | opened =>
      refine ne_append_gap (c := 'n') ?_ (by decide)
      rw [String.toList_append]
      exact List.getLast?_append_of_ne_nil _ (by decide)
    | closed =>
      refine ne_append_gap (c := 'd') ?_ (by decide)
      rw [String.toList_append]
      exact List.getLast?_append_of_ne_nil _ (by decide)

/-- `_write`, with the canonical JSON of an event. -/
def writeArtifact (sha256 : Bytes → String) (encode : GapEvent → Bytes) :
    TransferProgram ChunkManifest :=
  write.draft.publish sha256 (encode write.event)

end GapWrite

/-- `_publish`: the event is written, and once more at `retriedAt` after an OSError. -/
def publishGap (sha256 : Bytes → String) (encode : GapEvent → Bytes) (write : GapWrite)
    (retriedAt : Int) : TransferProgram Unit :=
  recordGenerated (utcDateOf write.event.effectiveNs) (write.writeArtifact sha256 encode)
    (({ write with createdAt := retriedAt } : GapWrite).writeArtifact sha256 encode)

end MiryFormal
