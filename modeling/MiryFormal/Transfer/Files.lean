import MiryFormal.Contracts.Chunks
import MiryFormal.Shared.Folders
import MiryFormal.Shared.Interference

/-!
# The files of both sides

The spool on the edge, and the mirror and the raw tree of the pipeline, with one operation
for each thing the programs do to a file. A rename and an `atomic_write_bytes` are single
operations. Hidden temporary files are left out: no listing sees them.
-/

namespace MiryFormal

set_option autoImplicit false

/-! ## The transfer ledger -/

inductive TransferEventKind where
  | ackInvalid
  | ackHashMismatch
  | ackReplayed
  | ackUnknown
  | ackTransactionConflict
  | ackTransactionInvalid
  | ackTransactionHashMismatch
  | ackValidated
  | remoteGc
  | ackedManifestInvalid
  | ackedManifestMisplaced
  | ackedManifestIdMismatch
  | ackedManifestConflict
  | readyManifestInvalid
  | readyManifestMisplaced
  | readyManifestConflict
  deriving DecidableEq, Repr

def TransferEventKind.value : TransferEventKind → String
  | ackInvalid => "ACK_INVALID"
  | ackHashMismatch => "ACK_HASH_MISMATCH"
  | ackReplayed => "ACK_REPLAYED"
  | ackUnknown => "ACK_UNKNOWN"
  | ackTransactionConflict => "ACK_TRANSACTION_CONFLICT"
  | ackTransactionInvalid => "ACK_TRANSACTION_INVALID"
  | ackTransactionHashMismatch => "ACK_TRANSACTION_HASH_MISMATCH"
  | ackValidated => "ACK_VALIDATED"
  | remoteGc => "REMOTE_GC"
  | ackedManifestInvalid => "ACKED_MANIFEST_INVALID"
  | ackedManifestMisplaced => "ACKED_MANIFEST_MISPLACED"
  | ackedManifestIdMismatch => "ACKED_MANIFEST_ID_MISMATCH"
  | ackedManifestConflict => "ACKED_MANIFEST_CONFLICT"
  | readyManifestInvalid => "READY_MANIFEST_INVALID"
  | readyManifestMisplaced => "READY_MANIFEST_MISPLACED"
  | readyManifestConflict => "READY_MANIFEST_CONFLICT"

/-- `event_id`, three parts joined by colons. The instant of an ACK is its `utc_text`, in
milliseconds. -/
inductive EventId where
  | ofRun (applyId subject : String) (kind : TransferEventKind)
  | ofAck (chunkId : String) (durableAtMs : Int) (kind : TransferEventKind)
  deriving DecidableEq, Repr

inductive SpoolPath where
  | ack (name : String)
  | transaction (name : String)
  | ready (path : RelPath)
  | acked (utcDate : Int) (name : String)
  deriving DecidableEq, Repr

/-- A line of the ledger. The `repr` of an exception is left out of `error`. -/
structure TransferEvent where
  event : TransferEventKind
  eventId : EventId
  occurredAt : Int
  applyId : String
  path : Option SpoolPath := none
  expectedPath : Option SpoolPath := none
  error : Option String := none
  collectorId : Option String := none
  chunkId : Option String := none
  expectedChunkId : Option String := none
  sha256 : Option String := none
  expectedSha256 : Option String := none
  receivedSha256 : Option String := none
  sizeBytes : Option Nat := none
  utcDate : Option Int := none
  ackDurableAtMs : Option Int := none
  recovered : Option Bool := none
  deriving DecidableEq, Repr

/-- `utc_text`, in milliseconds. -/
def utcText (instant : Int) : Int := instant / 1000

/-- The complete lines of a day's `events.jsonl`, and whether a broken one follows them. -/
structure Ledger where
  events : List TransferEvent := []
  torn : Bool := false
  deriving DecidableEq, Repr

/-- A batch appended to a broken line completes that line, which then is no event, with its
own first line. -/
def Ledger.append (ledger : Ledger) (batch : List TransferEvent) : Ledger :=
  if batch.isEmpty then ledger
  else ⟨ledger.events ++ if ledger.torn then batch.tail else batch, false⟩

/-- The write of a batch that fails after `kept` whole lines, and perhaps within a line. -/
def Ledger.appendFailing (ledger : Ledger) (batch : List TransferEvent) (kept : Nat)
    (broken : Bool) : Ledger :=
  let ledger' := ledger.append (batch.take kept)
  { ledger' with torn := ledger'.torn || broken }

/-! ## Folders -/

/-- `transfer-status.json` -/
structure TransferStatus where
  applyId : String
  updatedAt : Int
  state : String
  acksSeen : Nat
  acksApplied : Nat
  acksReplayed : Nat
  gcBytes : Nat
  invalidAcks : Nat
  hashMismatches : Nat
  unknownAcks : Nat
  manifestErrors : Nat
  recoveredTransactions : Nat
  acksPending : Nat
  transactionsPending : Nat
  readyManifestsRemaining : Nat
  deriving DecidableEq, Repr

structure AckTransaction where
  ack : Ack
  manifest : ChunkManifest
  acceptedAt : Int
  deriving DecidableEq

/-- A file moved to `rejected-acks`; the instant in its new name is left out. -/
structure Rejected where
  name : String
  reason : String
  deriving DecidableEq, Repr

/-- The data root of the edge. A file whose content does not validate holds `none`. -/
structure SpoolFiles where
  /-- `ready/**`, without manifests -/
  data : Folder RelPath Bytes := .empty
  /-- `ready/**/*.manifest.json` -/
  manifests : Folder RelPath (Option ChunkManifest) := .empty
  /-- `ready/day-manifests/date=*/SEALED.json` -/
  sealedDays : Folder Int DayManifest := .empty
  /-- `control/day-index/*.jsonl` -/
  dayIndex : Folder Int (List ChunkRef) := .empty
  /-- `control/acked-manifests/date=*/*.manifest.json` -/
  acked : Folder (Int ×ₗ String) (Option ChunkManifest) := .empty
  /-- `control/acks/*.ack.json` -/
  acks : Folder String (Option Ack) := .empty
  /-- `control/applying-acks/*.transaction.json` -/
  applying : Folder String (Option AckTransaction) := .empty
  rejected : List Rejected := []
  /-- `control/transfer-ledger/date=*/events.jsonl` -/
  ledger : Folder Int Ledger := .empty
  status : Option TransferStatus := none

/-- The rsync mirror and the raw tree. In the raw tree a file lies below its collector. -/
structure PullFiles where
  inventory : Folder RelPath (Option ChunkManifest) := .empty
  inventorySealed : Folder Int DayManifest := .empty
  mirrorData : Folder RelPath Bytes := .empty
  mirrorManifests : Folder RelPath (Option ChunkManifest) := .empty
  mirrorSealed : Folder Int DayManifest := .empty
  mirrorAcks : Folder String (Option Ack) := .empty
  rejected : List Rejected := []
  rawData : Folder (String ×ₗ RelPath) Bytes := .empty
  rawPartials : Folder (String ×ₗ RelPath) Bytes := .empty
  rawManifests : Folder (String ×ₗ RelPath) (Option ChunkManifest) := .empty
  rawSealed : Folder (String ×ₗ Int) DayManifest := .empty

/-- Both sides, and two histories that no program reads: the manifests ever written to `ready`,
and those ever copied from there. -/
structure TransferFiles where
  edge : SpoolFiles := {}
  pull : PullFiles := {}
  published : List ChunkManifest := []
  copied : List ChunkManifest := []

inductive Failure where
  | osError
  | valueError (message : String)
  | runtimeError (message : String)
  deriving DecidableEq, Repr

/-! ## Operations -/

inductive TransferOp where
  -- The spool.
  | listAcks
  | readAck (name : String)
  | unlinkAck (name : String)
  | quarantineAck (name reason : String)
  | listTransactions
  | transactionExists (name : String)
  | readTransaction (name : String)
  | writeTransaction (name : String) (transaction : AckTransaction)
  | unlinkTransaction (name : String)
  | quarantineTransaction (name reason : String)
  | listManifests
  | readManifest (path : RelPath)
  | manifestExists (path : RelPath)
  | writeManifest (path : RelPath) (manifest : ChunkManifest)
  | unlinkManifest (path : RelPath)
  | moveManifest (path : RelPath) (utcDate : Int)
  | dataExists (path : RelPath)
  | readData (path : RelPath)
  | placeData (path : RelPath) (content : Bytes)
  | unlinkData (path : RelPath)
  | sealedExists (utcDate : Int)
  | writeSealed (day : DayManifest)
  | listAcked
  | readAcked (utcDate : Int) (name : String)
  | unlinkAcked (utcDate : Int) (name : String)
  | readIndex (utcDate : Int)
  | appendIndex (utcDate : Int) (chunk : ChunkRef)
  | unlinkIndex (utcDate : Int)
  | appendLedger (utcDate : Int) (batch : List TransferEvent)
  | writeStatus (status : TransferStatus)
  -- The synchronisation, which reads the spool.
  | syncInventory (path : RelPath)
  | dropInventory (path : RelPath)
  | syncInventorySealed (utcDate : Int)
  | syncData (path : RelPath)
  | listSealed
  -- The mirror.
  | listInventory
  | readInventory (path : RelPath)
  | listInventorySealed
  | publishManifest (path : RelPath)
  | publishSealed (utcDate : Int)
  | listMirrorData
  | dropMirrorData (path : RelPath)
  | listMirrorManifests
  | readMirrorManifest (path : RelPath)
  | dropMirrorManifest (path : RelPath)
  | listMirrorSealed
  | readMirrorSealed (utcDate : Int)
  | listMirrorAcks
  | readMirrorAck (name : String)
  | writeMirrorAck (name : String) (ack : Ack)
  | quarantineMirrorAck (name reason : String)
  | pushAck (name : String)
  | unlinkMirrorAck (name : String)
  -- The raw tree.
  | rawExists (collectorId : String) (path : RelPath)
  | readRaw (collectorId : String) (path : RelPath)
  -- `promote` and `replacePartial` verify a file and rename it in one operation: no other rsync
  -- writes the file in between.
  | promote (collectorId : String) (path : RelPath) (sizeBytes : Nat) (sha256 : String)
  | download (collectorId : String) (path : RelPath)
  | replacePartial (collectorId : String) (path : RelPath) (sizeBytes : Nat) (sha256 : String)
  | readRawManifest (collectorId : String) (path : RelPath)
  | writeRawManifest (collectorId : String) (path : RelPath) (manifest : ChunkManifest)
  | readRawSealed (collectorId : String) (utcDate : Int)
  | writeRawSealed (collectorId : String) (day : DayManifest)

namespace TransferOp

/-- The answer of an operation that does not fail. -/
abbrev Value : TransferOp → Type
  | listAcks | listTransactions | listMirrorAcks => List String
  | readAck _ | readMirrorAck _ => Option Ack
  | readTransaction _ => Option AckTransaction
  | listManifests | listInventory | listMirrorData | listMirrorManifests => List RelPath
  | readManifest _ | readAcked _ _ | readInventory _ | readMirrorManifest _ => Option ChunkManifest
  | transactionExists _ | manifestExists _ | dataExists _ | sealedExists _ | rawExists _ _ => Bool
  | readData _ | readRaw _ _ => Bytes
  | listAcked => List (Int ×ₗ String)
  | readIndex _ => Option (List ChunkRef)
  | listSealed | listInventorySealed | listMirrorSealed => List Int
  | readMirrorSealed _ => DayManifest
  | readRawManifest _ _ => Option (Option ChunkManifest)
  | readRawSealed _ _ => Option DayManifest
  | _ => Unit

/-- The answer of an operation, which may have failed. -/
abbrev Answer (op : TransferOp) : Type := Except Failure op.Value

/-- What is read from a file that may be missing. -/
def found {β : Type} : Option β → Except Failure β
  | some content => .ok content
  | none => .error .osError

theorem found_ok {β : Type} {file : Option β} {content : β} :
    found file = .ok content ↔ file = some content := by
  cases file <;> simp [found]

variable (sha256 : Bytes → String)

/-- `_verify_local` -/
def verify (content : Bytes) (sizeBytes : Nat) (hash : String) : Except Failure Unit :=
  if content.length ≠ sizeBytes then .error (.valueError "chunk size mismatch")
  else if sha256 content ≠ hash then .error (.valueError "chunk hash mismatch")
  else .ok ()

theorem verify_ok {content : Bytes} {sizeBytes : Nat} {hash : String} :
    verify sha256 content sizeBytes hash = .ok () ↔
      content.length = sizeBytes ∧ sha256 content = hash := by
  unfold verify
  split
  · simp_all
  · split <;> simp_all

/-- A file that must exist is replaced by what `change` makes of the files. -/
def ifFound {β : Type} (content : Option β) (files : TransferFiles)
    (change : β → TransferFiles) : Except Failure Unit × TransferFiles :=
  match content with
  | some content => (.ok (), change content)
  | none => (.error .osError, files)

theorem ifFound_files {β : Type} {content : Option β} {files : TransferFiles}
    {change : β → TransferFiles} {P : TransferFiles → Prop} (hfiles : P files)
    (hchange : ∀ c, content = some c → P (change c)) : P (ifFound content files change).2 := by
  cases content with
  | none => exact hfiles
  | some c => exact hchange c rfl

/-- A file moved onto its place in the raw tree, if it is the chunk that the manifest says. -/
def ifVerified (content : Option Bytes) (sizeBytes : Nat) (hash : String) (files : TransferFiles)
    (change : Bytes → TransferFiles) : Except Failure Unit × TransferFiles :=
  match content with
  | some content =>
      match verify sha256 content sizeBytes hash with
      | .ok () => (.ok (), change content)
      | .error e => (.error e, files)
  | none => (.error .osError, files)

theorem ifVerified_files {content : Option Bytes} {sizeBytes : Nat} {hash : String}
    {files : TransferFiles} {change : Bytes → TransferFiles} {P : TransferFiles → Prop}
    (hfiles : P files)
    (hchange : ∀ c, content = some c → sha256 c = hash → P (change c)) :
    P (ifVerified sha256 content sizeBytes hash files change).2 := by
  cases content with
  | none => exact hfiles
  | some c =>
    unfold ifVerified
    cases hverify : verify sha256 c sizeBytes hash with
    | error e => simpa only [hverify] using hfiles
    | ok value =>
      simpa only [hverify] using hchange c rfl ((verify_ok sha256).mp hverify).2

/-- A move that answers without an error has verified what it moved. -/
theorem ifVerified_ok {content : Option Bytes} {sizeBytes : Nat} {hash : String}
    {files : TransferFiles} {change : Bytes → TransferFiles}
    (h : (ifVerified sha256 content sizeBytes hash files change).1 = .ok ()) :
    ∃ c, content = some c ∧ sha256 c = hash ∧
      (ifVerified sha256 content sizeBytes hash files change).2 = change c := by
  cases content with
  | none => cases h
  | some c =>
    unfold ifVerified at h ⊢
    cases hverify : verify sha256 c sizeBytes hash with
    | error e => simp [hverify] at h
    | ok value => exact ⟨c, rfl, ((verify_ok sha256).mp hverify).2, by simp only [hverify]⟩

def runSpool (files : TransferFiles) (change : SpoolFiles → SpoolFiles) :
    Except Failure Unit × TransferFiles :=
  (.ok (), { files with edge := change files.edge })

def runPull (files : TransferFiles) (change : PullFiles → PullFiles) :
    Except Failure Unit × TransferFiles :=
  (.ok (), { files with pull := change files.pull })

/-- An operation that does not fail on its own account. -/
def run : (op : TransferOp) → TransferFiles → op.Answer × TransferFiles
  | listAcks, s => (.ok s.edge.acks.names, s)
  | readAck name, s => (found (s.edge.acks.read name), s)
  | unlinkAck name, s =>
      ifFound (s.edge.acks.read name) s fun _ =>
        { s with edge.acks := s.edge.acks.remove name }
  | quarantineAck name reason, s =>
      ifFound (s.edge.acks.read name) s fun _ =>
        { s with
          edge.acks := s.edge.acks.remove name
          edge.rejected := s.edge.rejected ++ [⟨name, reason⟩] }
  | listTransactions, s => (.ok s.edge.applying.names, s)
  | transactionExists name, s => (.ok (s.edge.applying.read name).isSome, s)
  | readTransaction name, s => (found (s.edge.applying.read name), s)
  | writeTransaction name transaction, s =>
      runSpool s fun edge => { edge with applying := edge.applying.write name (some transaction) }
  | unlinkTransaction name, s =>
      runSpool s fun edge => { edge with applying := edge.applying.remove name }
  | quarantineTransaction name reason, s =>
      ifFound (s.edge.applying.read name) s fun _ =>
        { s with
          edge.applying := s.edge.applying.remove name
          edge.rejected := s.edge.rejected ++ [⟨name, reason⟩] }
  | listManifests, s => (.ok s.edge.manifests.names, s)
  | readManifest path, s => (found (s.edge.manifests.read path), s)
  | manifestExists path, s => (.ok (s.edge.manifests.read path).isSome, s)
  | writeManifest path manifest, s =>
      (.ok (), { s with
        edge.manifests := s.edge.manifests.write path (some manifest)
        published := s.published ++ [manifest] })
  | unlinkManifest path, s =>
      ifFound (s.edge.manifests.read path) s fun _ =>
        { s with edge.manifests := s.edge.manifests.remove path }
  | moveManifest path utcDate, s =>
      ifFound (s.edge.manifests.read path) s fun content =>
        { s with
          edge.manifests := s.edge.manifests.remove path
          edge.acked := s.edge.acked.write (toLex (utcDate, path.name)) content }
  | dataExists path, s => (.ok (s.edge.data.read path).isSome, s)
  | readData path, s => (found (s.edge.data.read path), s)
  | placeData path content, s =>
      runSpool s fun edge => { edge with data := edge.data.write path content }
  | unlinkData path, s =>
      ifFound (s.edge.data.read path) s fun _ => { s with edge.data := s.edge.data.remove path }
  | sealedExists utcDate, s => (.ok (s.edge.sealedDays.read utcDate).isSome, s)
  | writeSealed day, s =>
      runSpool s fun edge => { edge with sealedDays := edge.sealedDays.write day.utcDate day }
  | listAcked, s => (.ok s.edge.acked.names, s)
  | readAcked utcDate name, s => (found (s.edge.acked.read (toLex (utcDate, name))), s)
  | unlinkAcked utcDate name, s =>
      ifFound (s.edge.acked.read (toLex (utcDate, name))) s fun _ =>
        { s with edge.acked := s.edge.acked.remove (toLex (utcDate, name)) }
  | readIndex utcDate, s => (.ok (s.edge.dayIndex.read utcDate), s)
  | appendIndex utcDate chunk, s =>
      runSpool s fun edge =>
        { edge with
          dayIndex := edge.dayIndex.write utcDate
            ((edge.dayIndex.read utcDate).getD [] ++ [chunk]) }
  | unlinkIndex utcDate, s =>
      ifFound (s.edge.dayIndex.read utcDate) s fun _ =>
        { s with edge.dayIndex := s.edge.dayIndex.remove utcDate }
  | appendLedger utcDate batch, s =>
      runSpool s fun edge =>
        { edge with
          ledger := edge.ledger.write utcDate
            (((edge.ledger.read utcDate).getD {}).append batch) }
  | writeStatus status, s => runSpool s fun edge => { edge with status := some status }
  | listSealed, s => (.ok s.edge.sealedDays.names, s)
  | syncInventory path, s =>
      ifFound (s.edge.manifests.read path) s fun content =>
        { s with
          pull.inventory := s.pull.inventory.write path content
          copied := s.copied ++ content.toList }
  | dropInventory path, s =>
      runPull s fun pull => { pull with inventory := pull.inventory.remove path }
  | syncInventorySealed utcDate, s =>
      ifFound (s.edge.sealedDays.read utcDate) s fun day =>
        { s with pull.inventorySealed := s.pull.inventorySealed.write utcDate day }
  | syncData path, s =>
      ifFound (s.edge.data.read path) s fun content =>
        { s with pull.mirrorData := s.pull.mirrorData.write path content }
  | listInventory, s => (.ok s.pull.inventory.names, s)
  | readInventory path, s => (found (s.pull.inventory.read path), s)
  | listInventorySealed, s => (.ok s.pull.inventorySealed.names, s)
  | publishManifest path, s =>
      ifFound (s.pull.inventory.read path) s fun content =>
        { s with pull.mirrorManifests := s.pull.mirrorManifests.write path content }
  | publishSealed utcDate, s =>
      ifFound (s.pull.inventorySealed.read utcDate) s fun day =>
        { s with pull.mirrorSealed := s.pull.mirrorSealed.write utcDate day }
  | listMirrorData, s => (.ok s.pull.mirrorData.names, s)
  | dropMirrorData path, s =>
      runPull s fun pull => { pull with mirrorData := pull.mirrorData.remove path }
  | listMirrorManifests, s => (.ok s.pull.mirrorManifests.names, s)
  | readMirrorManifest path, s => (found (s.pull.mirrorManifests.read path), s)
  | dropMirrorManifest path, s =>
      runPull s fun pull => { pull with mirrorManifests := pull.mirrorManifests.remove path }
  | listMirrorSealed, s => (.ok s.pull.mirrorSealed.names, s)
  | readMirrorSealed utcDate, s => (found (s.pull.mirrorSealed.read utcDate), s)
  | listMirrorAcks, s => (.ok s.pull.mirrorAcks.names, s)
  | readMirrorAck name, s => (found (s.pull.mirrorAcks.read name), s)
  | writeMirrorAck name ack, s =>
      runPull s fun pull => { pull with mirrorAcks := pull.mirrorAcks.write name (some ack) }
  | quarantineMirrorAck name reason, s =>
      ifFound (s.pull.mirrorAcks.read name) s fun _ =>
        { s with
          pull.mirrorAcks := s.pull.mirrorAcks.remove name
          pull.rejected := s.pull.rejected ++ [⟨name, reason⟩] }
  | pushAck name, s =>
      ifFound (s.pull.mirrorAcks.read name) s fun content =>
        { s with edge.acks := s.edge.acks.write name content }
  | unlinkMirrorAck name, s =>
      ifFound (s.pull.mirrorAcks.read name) s fun _ =>
        { s with pull.mirrorAcks := s.pull.mirrorAcks.remove name }
  | rawExists collectorId path, s =>
      (.ok (s.pull.rawData.read (toLex (collectorId, path))).isSome, s)
  | readRaw collectorId path, s => (found (s.pull.rawData.read (toLex (collectorId, path))), s)
  | promote collectorId path sizeBytes hash, s =>
      ifVerified sha256 (s.pull.mirrorData.read path) sizeBytes hash s fun content =>
        { s with
          pull.mirrorData := s.pull.mirrorData.remove path
          pull.rawData := s.pull.rawData.write (toLex (collectorId, path)) content }
  | download collectorId path, s =>
      ifFound (s.pull.mirrorData.read path) s fun content =>
        { s with pull.rawPartials := s.pull.rawPartials.write (toLex (collectorId, path)) content }
  | replacePartial collectorId path sizeBytes hash, s =>
      ifVerified sha256 (s.pull.rawPartials.read (toLex (collectorId, path))) sizeBytes hash s
        fun content =>
          { s with
            pull.rawPartials := s.pull.rawPartials.remove (toLex (collectorId, path))
            pull.rawData := s.pull.rawData.write (toLex (collectorId, path)) content }
  | readRawManifest collectorId path, s =>
      (.ok (s.pull.rawManifests.read (toLex (collectorId, path))), s)
  | writeRawManifest collectorId path manifest, s =>
      runPull s fun pull =>
        { pull with
          rawManifests := pull.rawManifests.write (toLex (collectorId, path)) (some manifest) }
  | readRawSealed collectorId utcDate, s =>
      (.ok (s.pull.rawSealed.read (toLex (collectorId, utcDate))), s)
  | writeRawSealed collectorId day, s =>
      runPull s fun pull =>
        { pull with rawSealed := pull.rawSealed.write (toLex (collectorId, day.utcDate)) day }

/-- What an operation can answer and leave, also when it fails before or after its effect, or
in the middle of a write to the ledger or of a transfer. -/
inductive Sem : (op : TransferOp) → TransferFiles → op.Answer → TransferFiles → Prop
  | done (op : TransferOp) (s : TransferFiles) : Sem op s (run sha256 op s).1 (run sha256 op s).2
  | failed (op : TransferOp) (s : TransferFiles) : Sem op s (.error .osError) s
  | failedLate (op : TransferOp) (s : TransferFiles) :
      Sem op s (.error .osError) (run sha256 op s).2
  | tornAppend (utcDate : Int) (batch : List TransferEvent) (kept : Nat) (broken : Bool)
      (s : TransferFiles) :
      Sem (appendLedger utcDate batch) s (.error .osError)
        { s with
          edge.ledger := s.edge.ledger.write utcDate
            (((s.edge.ledger.read utcDate).getD {}).appendFailing batch kept broken) }
  | partialSync (path : RelPath) (content : Bytes) (n : Nat) (s : TransferFiles) :
      s.edge.data.read path = some content →
        Sem (syncData path) s (.error .osError)
          { s with pull.mirrorData := s.pull.mirrorData.write path (content.take n) }

end TransferOp

abbrev TransferProgram := Program TransferOp TransferOp.Answer Failure

/-! ## Running alone -/

section Alone
open Program

/-- What a program returns or raises when it runs alone. -/
def execAlone {α : Type} (sha256 : Bytes → String) (p : TransferProgram α) (s : TransferFiles) :
    Except Failure α × TransferFiles :=
  p.exec (fun op s => .ok (TransferOp.run sha256 op s)) s

theorem execAlone_bind {α β : Type} {sha256 : Bytes → String} {p : TransferProgram α}
    {f : α → TransferProgram β} {s s' : TransferFiles} {a : α}
    (h : execAlone sha256 p s = (.ok a, s')) :
    execAlone sha256 (p >>= f) s = execAlone sha256 (f a) s' :=
  exec_bind_of_ok _ h

theorem execAlone_io {sha256 : Bytes → String} {op : TransferOp} {s s' : TransferFiles}
    {value : op.Value} (h : TransferOp.run sha256 op s = (.ok value, s')) :
    execAlone sha256 (io op) s = (.ok value, s') := by
  simp only [execAlone, io, Program.exec, h]

end Alone

end MiryFormal
