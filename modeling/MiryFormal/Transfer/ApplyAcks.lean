import MiryFormal.Shared.KeyedDict
import MiryFormal.Transfer.Files

/-!
# `SpoolManager.apply_acks`

Each ACK is checked against the ready manifests and the tombstones and becomes a transaction;
then each transaction deletes its chunk and is entered in the ledger.
-/

namespace MiryFormal

set_option autoImplicit false

open Program TransferOp

/-- What a file holds, if it can be read and validates. -/
def valid {α : Type} : Except Failure (Option α) → Option α
  | .ok content => content
  | .error _ => none

/-- One run of `apply_acks`: its `apply_id` and `now`. -/
structure ApplyCall where
  applyId : String
  now : Int

namespace ApplyCall
variable (call : ApplyCall)

/-- The UTC date of the events of the call. -/
def utcDate : Int := call.now / (86400 * 1000000)

/-- `_rejection_event`, and the other events whose id is the apply id with a subject. -/
def event (kind : TransferEventKind) (subject : String) (path : Option SpoolPath) :
    TransferEvent where
  event := kind
  eventId := .ofRun call.applyId subject kind
  occurredAt := call.now
  applyId := call.applyId
  path := path

/-! ## The ready manifests -/

structure ReadyScan where
  manifests : List (String × ChunkManifest) := []
  conflicted : List String := []
  errors : Nat := 0
  events : List TransferEvent := []

def scanReady (scan : ReadyScan) (path : RelPath) (content : Option ChunkManifest) : ReadyScan :=
  match content with
  | none =>
      { scan with
        errors := scan.errors + 1
        events := scan.events ++ [call.event .readyManifestInvalid path.name (some (.ready path))] }
  | some manifest =>
      if path ≠ manifest.manifestPath then
        { scan with
          errors := scan.errors + 1
          events := scan.events ++
            [{ call.event .readyManifestMisplaced path.name (some (.ready path)) with
                chunkId := some manifest.chunkId
                expectedPath := some (.ready manifest.manifestPath) }] }
      else if manifest.chunkId ∈ scan.conflicted then scan
      else
        match KeyedDict.get id manifest.chunkId scan.manifests with
        | some existing =>
            if existing ≠ manifest then
              { manifests := KeyedDict.pop id manifest.chunkId scan.manifests
                conflicted := manifest.chunkId :: scan.conflicted
                errors := scan.errors + 1
                events := scan.events ++
                  [{ call.event .readyManifestConflict manifest.chunkId none with
                      chunkId := some manifest.chunkId }] }
            else scan
        | none =>
            { scan with manifests := KeyedDict.set id manifest.chunkId manifest scan.manifests }

/-- The dictionary lists manifests of `P`, each under its id. -/
def ListsOnly (P : ChunkManifest → Prop) (manifests : List (String × ChunkManifest)) : Prop :=
  ∀ chunkId manifest, KeyedDict.get id chunkId manifests = some manifest →
    manifest.chunkId = chunkId ∧ P manifest

namespace ListsOnly
variable {P : ChunkManifest → Prop} {manifests : List (String × ChunkManifest)}

theorem pop (h : ListsOnly P manifests) (removed : String) :
    ListsOnly P (KeyedDict.pop id removed manifests) := by
  intro chunkId manifest hget
  rw [KeyedDict.get_pop] at hget
  split at hget
  · cases hget
  · exact h chunkId manifest hget

theorem set (h : ListsOnly P manifests) {added : ChunkManifest} (hadded : P added) :
    ListsOnly P (KeyedDict.set id added.chunkId added manifests) := by
  intro chunkId manifest hget
  rw [KeyedDict.get_set] at hget
  split at hget
  · rename_i heq
    cases hget
    exact ⟨heq, hadded⟩
  · exact h chunkId manifest hget

variable {call}

/-- A manifest is listed from its own path only. -/
theorem scanReady {scan : ReadyScan} (h : ListsOnly P scan.manifests) {path : RelPath}
    {content : Option ChunkManifest}
    (hcontent : ∀ manifest, content = some manifest → path = manifest.manifestPath → P manifest) :
    ListsOnly P (call.scanReady scan path content).manifests := by
  cases content with
  | none => exact h
  | some manifest =>
    unfold ApplyCall.scanReady
    dsimp only
    split
    · exact h
    · rename_i hpath
      split
      · exact h
      · split
        · split
          · exact h.pop _
          · exact h
        · exact h.set (hcontent manifest rfl (not_not.mp hpath))

end ListsOnly

/-- `_ready_manifests` -/
def readyManifests : TransferProgram ReadyScan := do
  let paths ← io listManifests
  paths.foldlM (fun scan path => do
    let content ← (io (readManifest path)).attempt
    pure (call.scanReady scan path (valid content))) {}

/-! ## The tombstones -/

/-- The loop of `_acked_manifest` over the dates that have a tombstone of the name. -/
def ackedManifestIn (chunkId name : String) :
    List Int → Option ChunkManifest → Nat → List TransferEvent →
      TransferProgram (Option ChunkManifest × Nat × List TransferEvent)
  | [], manifest, errors, events => pure (manifest, errors, events)
  | utcDate :: later, manifest, errors, events => do
      let content ← (io (readAcked utcDate name)).attempt
      match valid content with
      | none =>
          ackedManifestIn chunkId name later manifest (errors + 1) (events ++
            [call.event .ackedManifestInvalid name (some (.acked utcDate name))])
      | some candidate =>
          if utcDate ≠ candidate.utcDate ∨ name ≠ candidate.manifestPath.name then
            ackedManifestIn chunkId name later manifest (errors + 1) (events ++
              [{ call.event .ackedManifestMisplaced name (some (.acked utcDate name)) with
                  chunkId := some candidate.chunkId
                  expectedPath := some (.acked candidate.utcDate candidate.manifestPath.name) }])
          else if candidate.chunkId ≠ chunkId then
            ackedManifestIn chunkId name later manifest (errors + 1) (events ++
              [{ call.event .ackedManifestIdMismatch name (some (.acked utcDate name)) with
                  expectedChunkId := some chunkId
                  chunkId := some candidate.chunkId }])
          else if manifest.isSome ∧ manifest ≠ some candidate then
            pure (none, errors + 1, events ++
              [{ call.event .ackedManifestConflict chunkId none with chunkId := some chunkId }])
          else ackedManifestIn chunkId name later (some candidate) errors events

/-- `_acked_manifest`: `date=*/{chunk_id}.manifest.json` -/
def ackedManifest (chunkId : String) (events : List TransferEvent) :
    TransferProgram (Option ChunkManifest × Nat × List TransferEvent) := do
  let tombstones ← io listAcked
  let name := chunkId ++ ".manifest.json"
  let dates := (tombstones.filter fun tombstone => (ofLex tombstone).2 = name).map fun tombstone =>
    (ofLex tombstone).1
  call.ackedManifestIn chunkId name dates none 0 events

end ApplyCall

/-! ## Accepting an ACK -/

structure AckApplyResult where
  seen : Nat := 0
  applied : Nat := 0
  replayed : Nat := 0
  gcBytes : Nat := 0
  invalid : Nat := 0
  hashMismatches : Nat := 0
  unknown : Nat := 0
  manifestErrors : Nat := 0
  recovered : Nat := 0
  deriving DecidableEq, Repr

structure ApplyProgress where
  manifests : List (String × ChunkManifest) := []
  transactionPaths : List String := []
  completed : List String := []
  events : List TransferEvent := []
  result : AckApplyResult := {}

def ackName (chunkId : String) : String := chunkId ++ ".ack.json"

def transactionName (chunkId : String) : String := chunkId ++ ".transaction.json"

/-- A rejected ACK: counted, entered, and moved away. -/
def ApplyProgress.reject (progress : ApplyProgress) (name reason : String)
    (count : AckApplyResult → AckApplyResult) (event : TransferEvent) :
    TransferProgram ApplyProgress := do
  io (quarantineAck name reason)
  pure { progress with
    events := progress.events ++ [event]
    result := count progress.result }

def ApplyProgress.rejectTransaction (progress : ApplyProgress) (name reason : String)
    (count : AckApplyResult → AckApplyResult) (event : TransferEvent) :
    TransferProgram ApplyProgress := do
  io (quarantineTransaction name reason)
  pure { progress with
    events := progress.events ++ [event]
    result := count progress.result }

namespace ApplyCall
variable (call : ApplyCall) (progress : ApplyProgress)

def rejectMismatch (name : String) (ack : Ack) (expectedSha256 : String) :
    TransferProgram ApplyProgress :=
  progress.reject name "hash-mismatch"
    (fun result => { result with hashMismatches := result.hashMismatches + 1 })
    { call.event .ackHashMismatch name (some (.ack name)) with
      chunkId := some ack.chunkId
      expectedSha256 := some expectedSha256
      receivedSha256 := some ack.sha256 }

/-- The chunk of the ACK has no ready manifest. -/
def acceptUnlisted (name : String) (ack : Ack) : TransferProgram ApplyProgress := do
  let (known, errors, events) ← call.ackedManifest ack.chunkId progress.events
  let progress := { progress with
    events
    result.manifestErrors := progress.result.manifestErrors + errors }
  match known with
  | some manifest =>
      if ack.sha256 ≠ manifest.sha256 then
        call.rejectMismatch progress name ack manifest.sha256
      else do
        io (unlinkAck name)
        pure { progress with
          events := progress.events ++
            [{ call.event .ackReplayed ack.chunkId none with
                collectorId := some manifest.collectorId
                chunkId := some ack.chunkId
                sha256 := some ack.sha256
                ackDurableAtMs := some (utcText ack.durableAt) }]
          result.replayed := progress.result.replayed + 1 }
  | none =>
      progress.reject name "unknown"
        (fun result => { result with unknown := result.unknown + 1 })
        { call.event .ackUnknown name (some (.ack name)) with chunkId := some ack.chunkId }

/-- The ACK agrees with a ready manifest. -/
def acceptListed (name : String) (ack : Ack) (manifest : ChunkManifest) :
    TransferProgram ApplyProgress := do
  let path := transactionName ack.chunkId
  let accepted := do
    io (unlinkAck name)
    pure { progress with
      manifests := KeyedDict.pop id ack.chunkId progress.manifests
      transactionPaths := progress.transactionPaths ++ [path] }
  if ← io (transactionExists path) then
    let existing := valid (← (io (readTransaction path)).attempt)
    if existing.any fun existing => existing.manifest = manifest ∧
        existing.ack.chunkId = ack.chunkId ∧ existing.ack.sha256 = ack.sha256 then
      accepted
    else
      progress.reject name "transaction-conflict"
        (fun result => { result with invalid := result.invalid + 1 })
        { call.event .ackTransactionConflict name (some (.ack name)) with
          chunkId := some ack.chunkId }
  else
    io (writeTransaction path ⟨ack, manifest, call.now⟩)
    accepted

/-- The body of the loop over the ACK files. -/
def acceptAck (progress : ApplyProgress) (name : String) : TransferProgram ApplyProgress := do
  match valid (← (io (readAck name)).attempt) with
  | none =>
      progress.reject name "invalid"
        (fun result => { result with invalid := result.invalid + 1 })
        (call.event .ackInvalid name (some (.ack name)))
  | some ack =>
      if name ≠ ackName ack.chunkId then
        progress.reject name "invalid-name"
          (fun result => { result with invalid := result.invalid + 1 })
          { call.event .ackInvalid name (some (.ack name)) with
            chunkId := some ack.chunkId
            error := some "ACK filename does not match chunk_id" }
      else
        match KeyedDict.get id ack.chunkId progress.manifests with
        | none => call.acceptUnlisted progress name ack
        | some manifest =>
            if ack.sha256 ≠ manifest.sha256 then
              call.rejectMismatch progress name ack manifest.sha256
            else call.acceptListed progress name ack manifest

/-! ## Applying a transaction -/

/-- `manifest_path.exists() and sealed.exists()` -/
def existsInSealedDay (manifest : ChunkManifest) : TransferProgram Bool := do
  if ← io (manifestExists manifest.manifestPath) then io (sealedExists manifest.utcDate)
  else pure false

/-- The ready manifest becomes a tombstone, or is deleted when its day is sealed. -/
def retireManifest (manifest : ChunkManifest) : TransferProgram Unit := do
  let isSealed ← existsInSealedDay manifest
  if isSealed then io (unlinkManifest manifest.manifestPath)
  else if ← io (manifestExists manifest.manifestPath) then
    io (moveManifest manifest.manifestPath manifest.utcDate)

def deleteData (manifest : ChunkManifest) : TransferProgram Unit := do
  if ← io (dataExists manifest.dataPath) then io (unlinkData manifest.dataPath)

/-- `ACK_VALIDATED` and `REMOTE_GC` -/
def gcEvent (transaction : AckTransaction) (kind : TransferEventKind) (recovered : Option Bool) :
    TransferEvent where
  event := kind
  eventId := .ofAck transaction.manifest.chunkId (utcText transaction.ack.durableAt) kind
  occurredAt := call.now
  applyId := call.applyId
  collectorId := some transaction.manifest.collectorId
  chunkId := some transaction.manifest.chunkId
  sha256 := some transaction.manifest.sha256
  sizeBytes := some transaction.manifest.sizeBytes
  utcDate := some transaction.manifest.utcDate
  ackDurableAtMs := some (utcText transaction.ack.durableAt)
  recovered := recovered

/-- The body of the loop over the transactions. -/
def applyTransaction (progress : ApplyProgress) (name : String) : TransferProgram ApplyProgress := do
  match valid (← (io (readTransaction name)).attempt) with
  | none =>
      progress.rejectTransaction name "invalid-transaction"
        (fun result => { result with invalid := result.invalid + 1 })
        (call.event .ackTransactionInvalid name (some (.transaction name)))
  | some transaction =>
      let manifest := transaction.manifest
      if transaction.ack.sha256 ≠ manifest.sha256 then
        progress.rejectTransaction name "transaction-hash-mismatch"
          (fun result => { result with hashMismatches := result.hashMismatches + 1 })
          { call.event .ackTransactionHashMismatch name (some (.transaction name)) with
            chunkId := some transaction.ack.chunkId
            expectedSha256 := some manifest.sha256
            receivedSha256 := some transaction.ack.sha256 }
      else
        let dataExisted ← io (dataExists manifest.dataPath)
        let manifestExisted ← io (manifestExists manifest.manifestPath)
        retireManifest manifest
        deleteData manifest
        let wasRecovered := !dataExisted || !manifestExisted
        pure { progress with
          completed := progress.completed ++ [name]
          events := progress.events ++
            [call.gcEvent transaction .ackValidated none,
              call.gcEvent transaction .remoteGc (some wasRecovered)]
          result.recovered := progress.result.recovered + wasRecovered.toNat
          result.applied := progress.result.applied + 1
          result.gcBytes := progress.result.gcBytes + manifest.sizeBytes }

/-! ## The call -/

/-- The status file after the call; its counts are read again. -/
def writeTransferStatus (progress : ApplyProgress) : TransferProgram Unit := do
  let acks ← io listAcks
  let transactions ← io listTransactions
  let manifests ← io listManifests
  let result := progress.result
  io (writeStatus
    { applyId := call.applyId
      updatedAt := call.now
      state :=
        if result.invalid = 0 ∧ result.hashMismatches = 0 ∧ result.unknown = 0 ∧
          result.manifestErrors = 0 then "ok" else "attention"
      acksSeen := result.seen
      acksApplied := result.applied
      acksReplayed := result.replayed
      gcBytes := result.gcBytes
      invalidAcks := result.invalid
      hashMismatches := result.hashMismatches
      unknownAcks := result.unknown
      manifestErrors := result.manifestErrors
      recoveredTransactions := result.recovered
      acksPending := acks.length
      transactionsPending := transactions.length - progress.completed.length
      readyManifestsRemaining := manifests.length })

/-- `sorted(set(transaction_paths))` -/
def sortedTransactions (paths : List String) : List String :=
  paths.dedup.insertionSort (· ≤ ·)

/-- What the call does behind the loops. -/
def finishCall (progress : ApplyProgress) : TransferProgram AckApplyResult := do
  io (appendLedger call.utcDate progress.events)
  call.writeTransferStatus progress
  progress.completed.forM fun name => io (unlinkTransaction name)
  pure progress.result

/-- `apply_acks` -/
def applyAcks : TransferProgram AckApplyResult := do
  let ackPaths ← io listAcks
  let transactionPaths ← io listTransactions
  if ackPaths.isEmpty ∧ transactionPaths.isEmpty then pure {}
  else
    let scan ← call.readyManifests
    let progress ← ackPaths.foldlM call.acceptAck
      { manifests := scan.manifests
        transactionPaths
        events := scan.events
        result.seen := ackPaths.length
        result.manifestErrors := scan.errors }
    let progress ← (sortedTransactions progress.transactionPaths).foldlM call.applyTransaction
      progress
    call.finishCall progress

end ApplyCall

end MiryFormal
