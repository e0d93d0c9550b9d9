import Mathlib.Data.List.MinMax
import MiryFormal.Pipeline.ChunkChecks
import MiryFormal.Pipeline.DedupDays
import MiryFormal.Pipeline.RowIdentity
import MiryFormal.Shared.OrderedPool
import MiryFormal.Universe.Membership

/-!
# The normaliser of a day

`DayNormalizer` parses the chunks of a sealed day, marks the duplicates among their rows in the order
of the chunks, and leaves typed files, a checkpoint and a marker. `normalizeDay` takes one chunk
after the other, as the code does with one worker.
-/

namespace MiryFormal

set_option autoImplicit false

/-! ## What a run reads -/

/-- What the normaliser uses beside. Only the rows of a file are modelled, so its size and hash are
functions of what it holds. -/
structure NormalizeText extends ParseText where
  sizeOf : ParquetFile → Nat
  sha256File : ParquetFile → String
  typedSize : List ParsedRow → Nat
  typedSha256 : List ParsedRow → String
  contentHash : Json → String
  identityKey : LogicalIdentity → String
  /-- `UniverseDecision.model_validate_json` -/
  readDecision : Bytes → Except String VersionedDecision
  universeHash : UniverseDecision → String
  /-- `int(instant.timestamp() * 1_000_000_000)` -/
  timestampNs : Datetime → Int
  /-- The `utcoffset()` of `datetime.fromisoformat(text)`. -/
  isoOffset : String → Option (Option Int)
  /-- `utc_date.isoformat()` -/
  isoDate : Int → String

/-- The files of one day. -/
structure NormalizeInput where
  collectorId : String
  utcDate : Int
  dayManifest : Option DayManifest
  /-- `sha256_file` of the day manifest -/
  sealedManifestSha256 : String
  chunkManifest : RelPath → Option ChunkManifest
  rawChunk : RelPath → Option ParquetFile
  previousDedupCheckpoint : Option DedupCheckpoint

/-- What a worker hands over beside the typed file. -/
structure ParsedChunk where
  rawEvents : Nat := 0
  typedEvents : Nat := 0
  formalStarts : List (Int × Bytes × String) := []
  universeEvents : List (Bytes × String) := []

/-- `RAW_PARSE_COLUMNS` -/
def RawEvent.parseColumns (event : RawEvent) : RawRow where
  exchangeSymbol := event.exchangeSymbol
  streamType := event.streamType.value
  connectionId := event.connectionId
  receiveSeq := event.receiveSeq
  appReceiveRealtimeNs := event.appReceiveRealtimeNs
  appReceiveMonotonicNs := event.appReceiveMonotonicNs
  payloadBytes := event.payloadBytes
  requestRealtimeNs := event.requestRealtimeNs

/-- A formal start that has passed `_formal_start_payload`. -/
structure FormalStart where
  experimentId : String
  coreGeneration : Int
  candidateRevision : Int
  decisionSequence : Int
  universeVersion : String
  universeHash : String

/-- The loop variables of `run`. -/
structure NormalizeState where
  deduplicator : Deduplicator LogicalIdentity := {}
  rawCount : Nat := 0
  typedCount : Nat := 0
  duplicateCount : Nat := 0
  outputCount : Nat := 0
  formalStarts : List (Int × FormalStart × String) := []
  universeEvents : List (VersionedDecision × String) := []

/-- `source_file_identity` -/
structure SourceFile where
  uri : String
  sizeBytes : Nat
  contentHash : String
  identityHash : String
  deriving DecidableEq

def SourceFile.payload (uri : String) (sizeBytes : Nat) (contentHash : String) : Json :=
  .obj [("uri", .str uri), ("size_bytes", .int sizeBytes), ("content_hash", .str contentHash)]

def SourceFile.document (file : SourceFile) : Json :=
  .obj [("uri", .str file.uri), ("size_bytes", .int file.sizeBytes),
    ("content_hash", .str file.contentHash), ("identity_hash", .str file.identityHash)]

/-- `_NORMALIZED.json` -/
structure NormalizedDayMarker where
  schemaVersion : Int := 1
  collectorId : String
  utcDate : Int
  rawEvents : Nat
  typedEvents : Nat
  duplicateEvents : Nat
  outputFiles : Nat
  typedSourceFiles : List SourceFile
  typedSourceFileSetHash : String
  collectionWindowStartNs : Int
  collectionWindowEndNs : Int
  formalStartRealtimeNs : Option Int
  formalStartExperimentId : Option String
  expectedSymbols : Option (List String)
  coreGeneration : Option Nat
  candidateRevision : Option Nat
  decisionSequence : Option Nat
  universeVersion : Option String
  universeHash : Option String
  sealedManifestSha256 : String
  dedupWindowNs : Int := dedupWindowNs

/-- The files that a run leaves. -/
structure NormalizedOutput where
  typed : Folder String (List ParsedRow)
  checkpoint : DedupCheckpoint
  marker : NormalizedDayMarker

/-! ## Formal starts and universe decisions -/

/-- `f"{core_generation}.{candidate_revision}"` -/
def structuredVersion (coreGeneration candidateRevision : Int) : String :=
  toString coreGeneration ++ "." ++ toString candidateRevision

/-- A member that is an integer and no boolean. -/
def integerMember (key : String) (value : List (String × Json)) : Option Int :=
  match Json.member key value with
  | some (.int found) => some found
  | _ => none

/-- A member that is a text. -/
def textMember (key : String) (value : List (String × Json)) : Option String :=
  match Json.member key value with
  | some (.str found) => some found
  | _ => none

section Reading
variable (text : NormalizeText)

/-- The checks of `started_at`. -/
def checkStartedAt (value : List (String × Json)) : Except String Unit :=
  match Json.member "started_at" value with
  | none => .error "formal start has an invalid started_at"
  | some startedAt =>
      match text.isoOffset (startedAt.toText text.reading) with
      | none => .error "formal start has an invalid started_at"
      | some offset =>
          if offset ≠ some 0 then .error "formal start started_at must be UTC" else .ok ()

/-- `_formal_start_payload` of a document. -/
def formalStartMembers (value : List (String × Json)) : Except String FormalStart :=
  if Json.isText "FORMAL_COLLECTION_STARTED" (Json.member "event" value) = false then
    .error "invalid formal collection start event"
  else
    match textMember "experiment_id" value with
    | none | some "" => .error "formal start has no experiment ID"
    | some experimentId =>
        match integerMember "core_generation" value, integerMember "candidate_revision" value,
            integerMember "decision_sequence" value with
        | some coreGeneration, some candidateRevision, some decisionSequence =>
            let universeVersion := structuredVersion coreGeneration candidateRevision
            if coreGeneration < 1 ∨ candidateRevision < 0 ∨ decisionSequence < 1 ∨
                textMember "universe_version" value ≠ some universeVersion then
              .error "formal start has an invalid structured universe version"
            else
              match textMember "universe_hash" value with
              | none => .error "formal start has no universe hash"
              | some universeHash => do
                  checkStartedAt text value
                  return { experimentId, coreGeneration, candidateRevision, decisionSequence,
                           universeVersion, universeHash }
        | _, _, _ => .error "formal start has invalid structured universe version fields"

/-- `_formal_start_payload` -/
def formalStartPayload (raw : Bytes) : Except String FormalStart :=
  match text.loads raw with
  | none => .error "orjson.JSONDecodeError"
  | some (.obj value) => formalStartMembers text value
  | some _ => .error "invalid formal collection start event"

/-- `_active_universe` -/
def activeUniverse (events : List (VersionedDecision × String)) (atNs : Int) :
    Except String (Option VersionedDecision) :=
  let candidates := events.filter fun item => text.timestampNs item.1.effectiveAt ≤ atNs
  match candidates.argmax fun item => toLex (item.1.decisionSequence, item.1.effectiveAt.micros) with
  | none => .ok none
  | some (decision, chunkUniverseHash) =>
      if text.universeHash decision.toUniverseDecision ≠ chunkUniverseHash then
        .error "active universe event/chunk hash mismatch"
      else .ok (some decision)

def VersionedDecision.universeVersion (decision : VersionedDecision) : String :=
  structuredVersion decision.coreGeneration decision.candidateRevision

/-- `_validate_formal_start` -/
def validateFormalStart (evidence : Int × FormalStart × String) (active : VersionedDecision) :
    Except String Unit :=
  let payload := evidence.2.1
  let universeHash := text.universeHash active.toUniverseDecision
  if ¬ (payload.coreGeneration = active.coreGeneration ∧
      payload.candidateRevision = active.candidateRevision ∧
      payload.decisionSequence = active.decisionSequence ∧
      payload.universeVersion = active.universeVersion) ∨
      payload.universeHash ≠ universeHash ∨ evidence.2.2 ≠ universeHash then
    .error "formal start/universe identity mismatch"
  else .ok ()

end Reading

/-! ## One chunk -/

section Chunk
variable (text : NormalizeText) (input : NormalizeInput)

/-- The rows and the result that `_parse_chunk` collects. -/
abbrev ChunkParse := List ParsedRow × ParsedChunk

/-- One row of `_parse_chunk`. -/
def parseRow (universeHash : String) (parse : ChunkParse) (event : RawEvent) :
    Except String ChunkParse := do
  let (rows, parsed) := parse
  let formalStarts :=
    if event.streamType = .formalCollectionStarted then
      parsed.formalStarts ++ [(event.appReceiveRealtimeNs, event.payloadBytes, universeHash)]
    else parsed.formalStarts
  let universeEvents :=
    if event.streamType = .universeDecision then
      parsed.universeEvents ++ [(event.payloadBytes, universeHash)]
    else parsed.universeEvents
  let typed ← parseTypedRow text.toParseText event.parseColumns
  return (rows ++ typed.toList,
    { parsed with rawEvents := parsed.rawEvents + 1, formalStarts, universeEvents })

/-- `_parse_chunk`, with the rows of the typed file. -/
def parseChunk (manifest : ChunkManifest) :
    Except String (Option (List ParsedRow) × ParsedChunk) := do
  match input.rawChunk manifest.dataPath with
  | none => .error "FileNotFoundError"
  | some file =>
      verifyChunk text.sizeOf text.sha256File file manifest
      verifyParquet input.utcDate file manifest
      let (rows, parsed) ← file.rows.foldlM (parseRow text manifest.universeHash) ([], {})
      return (if rows = [] then none else some rows, { parsed with typedEvents := rows.length })

/-- Whether a row is a duplicate. -/
def observeRow (deduplicator : Deduplicator LogicalIdentity) (row : ParsedRow) :
    Except String (Bool × Deduplicator LogicalIdentity) := do
  match ← columnIdentity row.dedupColumns with
  | none => return (false, deduplicator)
  | some identity =>
      deduplicator.observe text.identityKey ⟨identity, row.payloadHash, row.appReceiveRealtimeNs⟩

/-- The duplicates among the rows. -/
def observeRows : Deduplicator LogicalIdentity → List ParsedRow →
    Except String (List Bool × Deduplicator LogicalIdentity)
  | deduplicator, [] => .ok ([], deduplicator)
  | deduplicator, row :: rows => do
      let (duplicate, next) ← observeRow text deduplicator row
      let (flags, last) ← observeRows next rows
      return (duplicate :: flags, last)

/-- The column `is_duplicate` is set. -/
def setDuplicates (rows : List ParsedRow) (flags : List Bool) : List ParsedRow :=
  List.zipWith (fun row duplicate => { row with isDuplicate := duplicate }) rows flags

/-- `_deduplicate_typed`: the rows of the new file, if there is one, and the number of duplicates. -/
def deduplicateTyped (deduplicator : Deduplicator LogicalIdentity) (rows : List ParsedRow) :
    Except String (Option (List ParsedRow) × Nat × Deduplicator LogicalIdentity) := do
  let (flags, last) ← observeRows text deduplicator rows
  if true ∈ flags then return (some (setDuplicates rows flags), flags.count true, last)
  else return (none, 0, last)

/-! ## The chunks of a day -/

/-- `_load_day_manifest` -/
def loadDayManifest : Except String DayManifest :=
  match input.dayManifest with
  | none => .error "sealed day manifest does not exist"
  | some manifest =>
      if manifest.collectorId ≠ input.collectorId ∨ manifest.utcDate ≠ input.utcDate then
        .error "sealed day manifest identity mismatch"
      else .ok manifest

/-- One chunk of `_load_chunk_manifests`. -/
def readChunkManifest (chunk : ChunkRef) : Except String ChunkManifest :=
  match input.chunkManifest chunk.manifestPath with
  | none => .error "FileNotFoundError"
  | some manifest => loadChunkManifest input.collectorId input.utcDate chunk manifest

/-- The order in which the chunks are taken. -/
def chunkOrder (manifest : ChunkManifest) : Int ×ₗ String :=
  toLex (manifest.minAppReceiveRealtimeNs, manifest.chunkId)

/-- The `manifests` of `run`. -/
def parquetManifests (manifests : List ChunkManifest) : List ChunkManifest :=
  (manifests.insertionSort fun a b => chunkOrder a ≤ chunkOrder b).filter
    fun manifest => manifest.contentType = .parquet

/-- What is loaded before the first chunk is parsed. -/
def loadDay : Except String (NormalizeState × List ChunkManifest) := do
  let dayManifest ← loadDayManifest input
  let chunkManifests ← dayManifest.chunks.mapM (readChunkManifest input)
  let deduplicator ← Deduplicator.load input.previousDedupCheckpoint
  return ({ deduplicator }, parquetManifests chunkManifests)

def typedName (chunkId : String) : String := chunkId ++ ".typed.parquet"

/-- What `run` does with a result before it turns to the file. -/
def acceptChunk (state : NormalizeState) (parsed : ParsedChunk) : Except String NormalizeState := do
  let formalStarts ← parsed.formalStarts.mapM fun start => do
    let payload ← formalStartPayload text start.2.1
    return (start.1, payload, start.2.2)
  let universeEvents ← parsed.universeEvents.mapM fun event => do
    let decision ← text.readDecision event.1
    return (decision, event.2)
  return { state with
    rawCount := state.rawCount + parsed.rawEvents
    typedCount := state.typedCount + parsed.typedEvents
    formalStarts := state.formalStarts ++ formalStarts
    universeEvents := state.universeEvents ++ universeEvents }

def reviseTyped (state : NormalizeState) (rows : List ParsedRow) :
    Except String (Option (List ParsedRow) × NormalizeState) := do
  let (revised, duplicates, deduplicator) ← deduplicateTyped text state.deduplicator rows
  return (revised, { state with
    deduplicator
    duplicateCount := state.duplicateCount + duplicates
    outputCount := state.outputCount + 1 })

/-- The workers parse, and `run` deduplicates in the order of the chunks. -/
def chunkTask : PoolTask ChunkManifest String (List ParsedRow) ParsedChunk NormalizeState where
  key manifest := typedName manifest.chunkId
  produce := parseChunk text input
  accept := acceptChunk text
  revise := reviseTyped text

/-! ## The end of a run -/

/-- `source_file_identity` of a typed file. -/
def sourceFileIdentity (name : String) (rows : List ParsedRow) : SourceFile :=
  let uri := "derived/typed/collector=" ++ input.collectorId ++ "/date=" ++
    text.isoDate input.utcDate ++ "/" ++ name
  let sizeBytes := text.typedSize rows
  let contentHash := "sha256:" ++ text.typedSha256 rows
  { uri
    sizeBytes
    contentHash
    identityHash := text.contentHash (SourceFile.payload uri sizeBytes contentHash) }

def typedSourceFiles (typed : Folder String (List ParsedRow)) : List SourceFile :=
  typed.names.filterMap fun name => (typed.read name).map (sourceFileIdentity text input name)

/-- `min(formal_starts, default=None, key=...)`: the first of the earliest. -/
def earliestFormalStart (starts : List (Int × FormalStart × String)) :
    Option (Int × FormalStart × String) :=
  starts.foldl (fun earliest start =>
    match earliest with
    | none => some start
    | some found => if start.1 < found.1 then some start else some found) none

/-- `formal_start_ns or self._day_start_ns` -/
def collectionWindowStart (formalStart : Option (Int × FormalStart × String)) : Int :=
  match formalStart with
  | none => dayStartNs input.utcDate
  | some start => if start.1 = 0 then dayStartNs input.utcDate else start.1

/-- The active universe of the day, checked against its formal start. -/
def checkFormalStart (state : NormalizeState) (formalStart : Option (Int × FormalStart × String)) :
    Except String (Option VersionedDecision) := do
  let active ← activeUniverse text state.universeEvents (collectionWindowStart input formalStart)
  match formalStart, active with
  | none, _ => return active
  | some _, none => .error "formal start has no active universe decision"
  | some start, some decision => do
      validateFormalStart text start decision
      return active

def concludeDay (state : NormalizeState) (typed : Folder String (List ParsedRow)) :
    Except String NormalizedDayMarker := do
  let formalStart := earliestFormalStart state.formalStarts
  let active ← checkFormalStart text input state formalStart
  let files := typedSourceFiles text input typed
  return {
    collectorId := input.collectorId
    utcDate := input.utcDate
    rawEvents := state.rawCount
    typedEvents := state.typedCount
    duplicateEvents := state.duplicateCount
    outputFiles := state.outputCount
    typedSourceFiles := files
    typedSourceFileSetHash := text.contentHash (.arr (files.map SourceFile.document))
    collectionWindowStartNs := collectionWindowStart input formalStart
    collectionWindowEndNs := dayEndNs input.utcDate
    formalStartRealtimeNs := formalStart.map Prod.fst
    formalStartExperimentId := formalStart.map fun start => start.2.1.experimentId
    expectedSymbols := active.map fun decision => decision.members
    coreGeneration := active.map VersionedDecision.coreGeneration
    candidateRevision := active.map VersionedDecision.candidateRevision
    decisionSequence := active.map VersionedDecision.decisionSequence
    universeVersion := active.map VersionedDecision.universeVersion
    universeHash := active.map fun decision => text.universeHash decision.toUniverseDecision
    sealedManifestSha256 := input.sealedManifestSha256 }

/-- The checkpoint that the deduplicator of a finished day writes. -/
def dayCheckpoint (state : NormalizeState) : DedupCheckpoint :=
  state.deduplicator.checkpoint text.identityKey (dayEndNs input.utcDate)

/-- `run` with one worker, into an empty directory. -/
def normalizeDay : Except String NormalizedOutput := do
  let (initial, manifests) ← loadDay input
  let (state, typed) ← (chunkTask text input).runAll initial manifests
  let marker ← concludeDay text input state typed
  return { typed, checkpoint := dayCheckpoint text input state, marker }

end Chunk

theorem typedName_injective : Function.Injective typedName := by
  intro a b h
  exact (String.append_left_inj _).mp h

/-! ## Rows and their duplicates -/

/-- A row as it was parsed. -/
def ParsedRow.unmarked (row : ParsedRow) : ParsedRow := { row with isDuplicate := false }

section Rows
variable {text : NormalizeText} {row : ParsedRow} {rows : List ParsedRow} {flags : List Bool}
  {deduplicator last : Deduplicator LogicalIdentity}

theorem observeRows_cons (h : observeRows text deduplicator (row :: rows) = .ok (flags, last)) :
    ∃ duplicate rest next, observeRow text deduplicator row = .ok (duplicate, next) ∧
      observeRows text next rows = .ok (rest, last) ∧ flags = duplicate :: rest := by
  unfold observeRows at h
  obtain ⟨⟨duplicate, next⟩, hrow, h⟩ := exists_of_bind_ok h
  obtain ⟨⟨rest, final⟩, hrest, h⟩ := exists_of_bind_ok h
  cases h
  exact ⟨duplicate, rest, next, hrow, hrest, rfl⟩

theorem observeRows_length (h : observeRows text deduplicator rows = .ok (flags, last)) :
    flags.length = rows.length := by
  induction rows generalizing deduplicator flags with
  | nil =>
    cases h
    rfl
  | cons row rows ih =>
    obtain ⟨duplicate, rest, next, -, hrest, rfl⟩ := observeRows_cons h
    rw [List.length_cons, List.length_cons, ih hrest]

theorem map_unmarked_setDuplicates (h : flags.length = rows.length) :
    (setDuplicates rows flags).map ParsedRow.unmarked = rows.map ParsedRow.unmarked := by
  unfold setDuplicates
  induction rows generalizing flags with
  | nil => rw [List.zipWith_nil_left]
  | cons row rows ih =>
    cases flags with
    | nil => exact nomatch h
    | cons flag flags =>
      rw [List.zipWith_cons_cons, List.map_cons, List.map_cons, ih (Nat.succ.inj h)]
      rfl

/-- A file is written again where it has duplicates. -/
theorem reviseTyped_ok {state next : NormalizeState} {revised : Option (List ParsedRow)}
    (h : reviseTyped text state rows = .ok (revised, next)) :
    ∃ flags, observeRows text state.deduplicator rows = .ok (flags, next.deduplicator) ∧
      (true ∈ flags ∧ revised = some (setDuplicates rows flags) ∨
        true ∉ flags ∧ revised = none) := by
  unfold reviseTyped at h
  obtain ⟨⟨found, duplicates, deduplicator⟩, hfound, h⟩ := exists_of_bind_ok h
  cases h
  unfold deduplicateTyped at hfound
  obtain ⟨⟨flags, last⟩, hobserve, hfound⟩ := exists_of_bind_ok hfound
  dsimp only at hfound
  split at hfound
  · rename_i hduplicates
    cases hfound
    exact ⟨flags, hobserve, .inl ⟨hduplicates, rfl⟩⟩
  · rename_i hnone
    cases hfound
    exact ⟨flags, hobserve, .inr ⟨hnone, rfl⟩⟩

end Rows

/-! ## A frame that is received twice -/

def repeatedEvent (receivedNs : Nat) : RawEvent where
  exchangeSymbol := some "BTCUSDT"
  streamType := .contractInfo
  collectorId := "edge"
  bootId := "boot"
  segmentId := "segment"
  connectionId := "connection"
  receiveSeq := 1
  appReceiveRealtimeNs := receivedNs
  appReceiveMonotonicNs := receivedNs
  payloadBytes := contractFrame
  realtime_nonneg := Int.natCast_nonneg receivedNs

/-- The manifest of a chunk that holds the frame once. -/
def repeatedManifest (chunkId : String) (utcDate receivedNs : Nat)
    (hlength : 8 ≤ chunkId.length ∧ chunkId.length ≤ 160) : ChunkManifest where
  chunkId
  dataPath := ⟨chunkFolders utcDate .metadata, chunkId ++ ".parquet"⟩
  sha256 := "data"
  sizeBytes := 1
  contentType := .parquet
  collectorId := "edge"
  writerGroup := .metadata
  utcDate
  eventCount := 1
  minAppReceiveRealtimeNs := receivedNs
  maxAppReceiveRealtimeNs := receivedNs
  dataContractHash := "contract"
  universeHash := "universe"
  createdAt := 0
  id_length := hlength
  size_pos := Nat.one_pos
  eventCount_pos := Nat.one_pos
  time_range := ⟨Int.natCast_nonneg receivedNs, Int.le_refl _⟩

def repeatedDay (utcDate : Nat) (manifests : List ChunkManifest)
    (previousDedupCheckpoint : Option DedupCheckpoint)
    (hunique : ((manifests.map ChunkManifest.asRef).map fun chunk =>
      (chunk.chunkId, chunk.sha256)).Nodup) : NormalizeInput where
  collectorId := "edge"
  utcDate
  dayManifest := some {
    collectorId := "edge"
    utcDate
    sealedAt := (utcDate + 1) * (86400 * 1000000)
    chunks := manifests.map ChunkManifest.asRef
    unique := hunique
    ended := by omega }
  sealedManifestSha256 := "sealed"
  chunkManifest path := manifests.find? fun manifest => manifest.manifestPath = path
  rawChunk path := (manifests.find? fun manifest => manifest.dataPath = path).map fun manifest =>
    { schema := rawEventSchema
      metadata := manifest.metadata
      rowGroups := [[repeatedEvent manifest.minAppReceiveRealtimeNs.toNat]] }
  previousDedupCheckpoint

def repeatedText : NormalizeText where
  toParseText := contractText
  sizeOf _ := 1
  sha256File _ := "data"
  typedSize := List.length
  typedSha256 _ := "typed"
  contentHash _ := "document"
  identityKey := logicalIdentityKey (fun _ => contractKey) fun _ => contractHex
  readDecision _ := .error "no decision"
  universeHash _ := "universe"
  timestampNs instant := instant.micros * 1000
  isoOffset _ := none
  isoDate _ := "1970-01-01"

end MiryFormal
