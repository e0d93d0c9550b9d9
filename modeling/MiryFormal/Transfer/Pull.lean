import MiryFormal.Transfer.ApplyAcks

/-!
# Pulling

The three stages of `run_pull`: the synchronisation of the mirror, the ingest of the
`Puller`, and the upload of the ACKs. The download lanes take disjoint files and are run one
after the other. The spool never deletes a `SEALED.json`, so no copy of one is dropped. The
ledger and the status of the pipeline are left out.
-/

namespace MiryFormal

set_option autoImplicit false

open Program TransferOp

/-- `COLLECTOR_ID_PATTERN` -/
def isCollectorId (value : String) : Bool :=
  decide (1 ≤ value.length ∧ value.length ≤ 100) &&
    value.toList.all fun c => c.isAlphanum || c = '.' || c = '_' || c = '-'

/-- `_collector_root` -/
def checkCollector (collectorId : String) : TransferProgram Unit :=
  if isCollectorId collectorId then pure () else raise (.valueError "unsafe collector_id")

/-- `model_validate_json` of a manifest that was read. -/
def validateManifest (content : Option ChunkManifest) : TransferProgram ChunkManifest :=
  match content with
  | some manifest => pure manifest
  | none => raise (.valueError "invalid manifest")

/-! ## `RsyncTransport.pull_ready` -/

/-- The rsync of manifests and sealed days into the inventory, deletions last. -/
def syncMetadata : TransferProgram Unit := do
  let paths ← io listManifests
  paths.forM fun path => io (syncInventory path)
  let dates ← io listSealed
  dates.forM fun utcDate => io (syncInventorySealed utcDate)
  let copies ← io listInventory
  (copies.filter (· ∉ paths)).forM fun path => io (dropInventory path)

/-- `_inventory_downloads`, with the data paths seen so far. -/
def inventoryDownloads (downloads : List RelPath × List RelPath) (path : RelPath) :
    TransferProgram (List RelPath × List RelPath) := do
  let manifest ← validateManifest (← io (readInventory path))
  if manifest.dataPath ∈ downloads.2 then raise (.valueError "duplicate manifest data path")
  else do
    checkCollector manifest.collectorId
    let seen := manifest.dataPath :: downloads.2
    if ← io (rawExists manifest.collectorId manifest.dataPath) then pure (downloads.1, seen)
    else pure (downloads.1 ++ [manifest.dataPath], seen)

/-- `_publish_inventory`: the metadata is copied, then what is not expected is deleted. -/
def publishInventory (downloads : List RelPath) : TransferProgram Unit := do
  let manifests ← io listInventory
  manifests.forM fun path => io (publishManifest path)
  let dates ← io listInventorySealed
  dates.forM fun utcDate => io (publishSealed utcDate)
  let copies ← io listMirrorManifests
  (copies.filter (· ∉ manifests)).forM fun path => io (dropMirrorManifest path)
  let data ← io listMirrorData
  (data.filter (· ∉ downloads)).forM fun path => io (dropMirrorData path)

def pullReady : TransferProgram Unit := do
  syncMetadata
  let inventory ← io listInventory
  let downloads ← inventory.foldlM inventoryDownloads ([], [])
  downloads.1.forM fun path => io (syncData path)
  publishInventory downloads.1

/-! ## `Puller` -/

/-- One run of the `Puller`: whether mirror and raw tree share a device, and the instant at
which it acknowledges a chunk. -/
structure PullCall where
  sameDevice : Bool
  durableAt : RelPath → Int

namespace PullCall
variable (call : PullCall)

/-- The data of the chunk comes to its place in the raw tree, verified. -/
def storeData (sha256 : Bytes → String) (manifest : ChunkManifest) : TransferProgram Bool := do
  if ← io (rawExists manifest.collectorId manifest.dataPath) then
    let content ← io (readRaw manifest.collectorId manifest.dataPath)
    match verify sha256 content manifest.sizeBytes manifest.sha256 with
    | .ok () => pure false
    | .error e => raise e
  else if call.sameDevice then do
    io (promote manifest.collectorId manifest.dataPath manifest.sizeBytes manifest.sha256)
    pure true
  else do
    io (download manifest.collectorId manifest.dataPath)
    io (replacePartial manifest.collectorId manifest.dataPath manifest.sizeBytes manifest.sha256)
    pure true

/-- The manifest beside the data, written once. -/
def storeManifest (manifest : ChunkManifest) : TransferProgram Unit := do
  match ← io (readRawManifest manifest.collectorId manifest.manifestPath) with
  | some existing =>
      if existing ≠ some manifest then raise (.valueError "conflicting local manifest")
      else pure ()
  | none => io (writeRawManifest manifest.collectorId manifest.manifestPath manifest)

/-- A chunk that was acknowledged, and whether its data is new. -/
structure PulledChunk where
  manifest : ChunkManifest
  ack : Ack
  wroteData : Bool

/-- `_ingest_chunk` -/
def ingestChunk (sha256 : Bytes → String) (path : RelPath) : TransferProgram PulledChunk := do
  let manifest ← validateManifest (← io (readMirrorManifest path))
  checkCollector manifest.collectorId
  let wroteData ← call.storeData sha256 manifest
  storeManifest manifest
  let ack : Ack := ⟨manifest.chunkId, manifest.sha256, call.durableAt path⟩
  io (writeMirrorAck (ackName manifest.chunkId) ack)
  pure ⟨manifest, ack, wroteData⟩

/-- Whether the data files of all chunks of a day are there. -/
def chunksStored (sha256 : Bytes → String) (collectorId : String) :
    List ChunkRef → TransferProgram Bool
  | [] => pure true
  | chunk :: chunks => do
      if ← io (rawExists collectorId chunk.dataPath) then
        let content ← io (readRaw collectorId chunk.dataPath)
        if content.length ≠ chunk.sizeBytes then pure false
        else if sha256 content ≠ chunk.sha256 then
          raise (.valueError "day manifest hash mismatch")
        else chunksStored sha256 collectorId chunks
      else pure false

/-- `_publish_complete_day` -/
def publishCompleteDay (sha256 : Bytes → String) (utcDate : Int) : TransferProgram Nat := do
  let day ← io (readMirrorSealed utcDate)
  checkCollector day.collectorId
  match ← io (readRawSealed day.collectorId day.utcDate) with
  | some existing =>
      if existing ≠ day then raise (.valueError "conflicting sealed day manifest") else pure 0
  | none =>
      if ← chunksStored sha256 day.collectorId day.chunks then do
        io (writeRawSealed day.collectorId day)
        pure 1
      else pure 0

structure PullResult where
  manifestsSeen : Nat
  chunks : List PulledChunk := []
  dayManifestsSeen : Nat := 0
  daysPublished : Nat := 0
  failures : List Failure := []

/-- `Puller.run`: the failure of one chunk or day does not end the run. -/
def run (sha256 : Bytes → String) : TransferProgram PullResult := do
  let manifests ← io listMirrorManifests
  let dates ← io listMirrorSealed
  let result ← manifests.foldlM (fun (result : PullResult) path => do
    match ← (call.ingestChunk sha256 path).attempt with
    | .ok chunk => pure { result with chunks := result.chunks ++ [chunk] }
    | .error e => pure { result with failures := result.failures ++ [e] })
    { manifestsSeen := manifests.length, dayManifestsSeen := dates.length }
  dates.foldlM (fun (result : PullResult) utcDate => do
    match ← (publishCompleteDay sha256 utcDate).attempt with
    | .ok published => pure { result with daysPublished := result.daysPublished + published }
    | .error e => pure { result with failures := result.failures ++ [e] })
    result

end PullCall

/-! ## `RsyncTransport.push_acks` -/

/-- An ACK that may be uploaded is kept, another one is moved away. -/
def checkStagedAck (staged : List String) (name : String) : TransferProgram (List String) := do
  match valid (← (io (readMirrorAck name)).attempt) with
  | some ack =>
      if name ≠ ackName ack.chunkId then do
        io (quarantineMirrorAck name "invalid")
        pure staged
      else pure (staged ++ [name])
  | none => do
      io (quarantineMirrorAck name "invalid")
      pure staged

/-- The ACKs are uploaded, and deleted when all of them are. -/
def pushAcks : TransferProgram Unit := do
  let names ← io listMirrorAcks
  let staged ← names.foldlM checkStagedAck []
  staged.forM fun name => io (pushAck name)
  staged.forM fun name => io (unlinkMirrorAck name)

/-- `run_pull` -/
def runPull (sha256 : Bytes → String) (call : PullCall) : TransferProgram Unit := do
  pullReady
  let _ ← call.run sha256
  pushAcks

end MiryFormal
