import MiryFormal.Pipeline.ChunkChecks

/-!
# Chunk sessions

`ChunkSession` writes one parquet file: events are batched, batches are flushed to the file,
and the flushed file is published with its manifest. Clock readings and `uuid4` are inputs.
-/

namespace MiryFormal

set_option autoImplicit false

structure ChunkLimits where
  maxSeconds : Nat
  maxBytes : Nat
  maxEvents : Nat
  batchEvents : Nat
  batchBytes : Nat

/-- An event in the queue. `put` reserves the approximate size. -/
structure QueuedEvent where
  event : RawEvent
  reservedBytes : Nat
  reserved : reservedBytes = event.approximateSizeBytes := by rfl

/-- What the chunks of one writer have in common. -/
structure ChunkWriter where
  collectorId : String
  writerGroup : WriterGroup
  dataContractHash : String
  limits : ChunkLimits
  collectorId_length : 1 ≤ collectorId.length ∧ collectorId.length ≤ 100 := by decide

/-- What tells a new chunk from the others: the clocks and `uuid4().hex[:12]`. -/
structure ChunkStamp where
  timestamp : String
  suffix : String
  monotonicNs : Int
  timestamp_length : timestamp.length = 23 := by decide
  suffix_length : suffix.length = 12 := by decide

/-- `ChunkSession` -/
structure WriterSession where
  chunkId : String
  utcDate : Int
  universeHash : String
  startedMonotonicNs : Int
  eventCount : Nat := 0
  estimatedBytes : Nat := 0
  minRealtimeNs : Option Int := none
  maxRealtimeNs : Option Int := none
  batch : List QueuedEvent := []
  batchBytes : Nat := 0
  parquet : ParquetFile

/-- A published data file and the manifest beside it. -/
structure Chunk where
  manifest : ChunkManifest
  file : ParquetFile

namespace ChunkWriter

def chunkId (writer : ChunkWriter) (stamp : ChunkStamp) : String :=
  writer.collectorId ++ "-" ++ writer.writerGroup.value ++ "-" ++ stamp.timestamp ++ "-" ++
    stamp.suffix

theorem chunkId_length (writer : ChunkWriter) (stamp : ChunkStamp) :
    8 ≤ (writer.chunkId stamp).length ∧ (writer.chunkId stamp).length ≤ 160 := by
  have hgroup : writer.writerGroup.value.length ≤ 13 := by
    cases writer.writerGroup <;> decide
  have hdash : "-".length = 1 := rfl
  have hcollector := writer.collectorId_length
  have htimestamp := stamp.timestamp_length
  have hsuffix := stamp.suffix_length
  unfold chunkId
  simp only [String.length_append, hdash]
  omega

def metadata (writer : ChunkWriter) (chunkId universeHash : String) (utcDate : Int) :
    ChunkMetadata where
  chunkId
  collectorId := writer.collectorId
  dataContractHash := writer.dataContractHash
  universeHash
  utcDate
  writerGroup := writer.writerGroup

end ChunkWriter

namespace WriterSession

/-- `ChunkSession(..)` -/
def init (writer : ChunkWriter) (stamp : ChunkStamp) (utcDate : Int) (universeHash : String) :
    WriterSession where
  chunkId := writer.chunkId stamp
  utcDate
  universeHash
  startedMonotonicNs := stamp.monotonicNs
  parquet := {
    schema := rawEventSchema
    metadata := writer.metadata (writer.chunkId stamp) universeHash utcDate }

def shouldRotateBefore (limits : ChunkLimits) (session : WriterSession) (event : RawEvent)
    (eventDate : Int) : Bool :=
  if eventDate ≠ session.utcDate then true
  else if session.eventCount = 0 then false
  else limits.maxBytes < session.estimatedBytes + event.approximateSizeBytes ||
    limits.maxEvents < session.eventCount + 1

/-- `add` tells whether the batch is full. -/
def add (limits : ChunkLimits) (session : WriterSession) (queued : QueuedEvent) :
    Bool × WriterSession :=
  let timestamp := queued.event.appReceiveRealtimeNs
  let next := { session with
    batch := session.batch ++ [queued]
    batchBytes := session.batchBytes + queued.reservedBytes
    eventCount := session.eventCount + 1
    estimatedBytes := session.estimatedBytes + queued.reservedBytes
    minRealtimeNs := some (match session.minRealtimeNs with
      | none => timestamp
      | some ns => min ns timestamp)
    maxRealtimeNs := some (match session.maxRealtimeNs with
      | none => timestamp
      | some ns => max ns timestamp) }
  (limits.batchEvents ≤ next.batch.length || limits.batchBytes ≤ next.batchBytes, next)

/-- `flush` tells how many bytes it releases. -/
def flush (session : WriterSession) : Nat × WriterSession :=
  if session.batch.isEmpty then (0, session)
  else
    (session.batchBytes, { session with
      batch := []
      batchBytes := 0
      parquet := session.parquet.writeTable (session.batch.map QueuedEvent.event) })

def elapsedNs (session : WriterSession) (nowNs : Int) : Int := nowNs - session.startedMonotonicNs

/-- `elapsed() >= max_seconds` -/
def expired (limits : ChunkLimits) (session : WriterSession) (nowNs : Int) : Bool :=
  (limits.maxSeconds : Int) * 1000000000 ≤ session.elapsedNs nowNs

/-- `ChunkManifest(..)`, or its `ValidationError`. -/
def manifest (writer : ChunkWriter) (session : WriterSession) (sizeBytes : Nat) (sha256 : String)
    (minNs maxNs createdAt : Int) : Except String ChunkManifest :=
  if h : (8 ≤ session.chunkId.length ∧ session.chunkId.length ≤ 160) ∧ 0 < sizeBytes ∧
      0 < session.eventCount ∧ 0 ≤ minNs ∧ minNs ≤ maxNs then
    .ok {
      chunkId := session.chunkId
      dataPath := ⟨chunkFolders session.utcDate writer.writerGroup, session.chunkId ++ ".parquet"⟩
      sha256
      sizeBytes
      contentType := .parquet
      id_length := h.1
      size_pos := h.2.1
      collectorId := writer.collectorId
      writerGroup := writer.writerGroup
      utcDate := session.utcDate
      eventCount := session.eventCount
      minAppReceiveRealtimeNs := minNs
      maxAppReceiveRealtimeNs := maxNs
      dataContractHash := writer.dataContractHash
      universeHash := session.universeHash
      createdAt
      eventCount_pos := h.2.2.1
      time_range := h.2.2.2 }
  else .error "invalid chunk manifest"

def finish (sizeOf : ParquetFile → Nat) (sha256File : ParquetFile → String)
    (writer : ChunkWriter) (session : WriterSession) (createdAt : Int) : Except String Chunk :=
  if ¬ session.batch.isEmpty then .error "chunk must be flushed before finish"
  else
    match session.eventCount, session.minRealtimeNs, session.maxRealtimeNs with
    | _ + 1, some minNs, some maxNs => do
        let manifest ← session.manifest writer (sizeOf session.parquet)
          (sha256File session.parquet) minNs maxNs createdAt
        return ⟨manifest, session.parquet⟩
    | _, _, _ => .error "cannot finish an empty chunk"

/-! ## What a session holds -/

def events (session : WriterSession) : List RawEvent :=
  session.parquet.rows ++ session.batch.map QueuedEvent.event

/-- The counters and the metadata agree with the events. -/
structure Holds (writer : ChunkWriter) (session : WriterSession) : Prop where
  eventCount : session.eventCount = session.events.length
  estimatedBytes : session.estimatedBytes = reservedBytes session.events
  batchBytes : session.batchBytes = reservedBytes (session.batch.map QueuedEvent.event)
  least : session.minRealtimeNs = (receiveTimes session.events).min?
  greatest : session.maxRealtimeNs = (receiveTimes session.events).max?
  oneDate : ∀ event ∈ session.events, utcDateOf event.appReceiveRealtimeNs = session.utcDate
  schema : session.parquet.schema = rawEventSchema
  metadata : session.parquet.metadata =
    writer.metadata session.chunkId session.universeHash session.utcDate
  rowGroups : ∀ group ∈ session.parquet.rowGroups, group ≠ []
  id_length : 8 ≤ session.chunkId.length ∧ session.chunkId.length ≤ 160

variable {writer : ChunkWriter} {session : WriterSession}

@[simp] theorem init_events (stamp : ChunkStamp) (utcDate : Int) (universeHash : String) :
    (init writer stamp utcDate universeHash).events = [] := rfl

theorem holds_init (stamp : ChunkStamp) (utcDate : Int) (universeHash : String) :
    (init writer stamp utcDate universeHash).Holds writer where
  eventCount := rfl
  estimatedBytes := rfl
  batchBytes := rfl
  least := rfl
  greatest := rfl
  oneDate := fun _ hm => absurd hm List.not_mem_nil
  schema := rfl
  metadata := rfl
  rowGroups := fun _ hm => absurd hm List.not_mem_nil
  id_length := writer.chunkId_length stamp

@[simp] theorem add_events (session : WriterSession) (queued : QueuedEvent) :
    (session.add writer.limits queued).2.events = session.events ++ [queued.event] := by
  unfold events add
  dsimp only
  rw [List.map_append, List.map_singleton, List.append_assoc]

theorem Holds.add (h : session.Holds writer) {queued : QueuedEvent}
    (hdate : utcDateOf queued.event.appReceiveRealtimeNs = session.utcDate) :
    (session.add writer.limits queued).2.Holds writer := by
  have htimes : receiveTimes (session.events ++ [queued.event]) =
      receiveTimes session.events ++ [queued.event.appReceiveRealtimeNs] := by
    unfold receiveTimes
    rw [List.map_append, List.map_singleton]
  constructor
  · rw [add_events, List.length_append, ← h.eventCount]
    rfl
  · rw [add_events, reservedBytes_concat, ← h.estimatedBytes, ← queued.reserved]
    rfl
  · unfold WriterSession.add
    dsimp only
    rw [List.map_append, List.map_singleton, reservedBytes_concat, ← h.batchBytes,
      queued.reserved]
  · rw [add_events, htimes, min?_concat, ← h.least]
    rfl
  · rw [add_events, htimes, max?_concat, ← h.greatest]
    rfl
  · intro event hm
    rw [add_events] at hm
    rcases List.mem_append.mp hm with hm | hm
    · exact h.oneDate event hm
    · rw [List.mem_singleton.mp hm]
      exact hdate
  · exact h.schema
  · exact h.metadata
  · exact h.rowGroups
  · exact h.id_length

@[simp] theorem flush_events (session : WriterSession) :
    session.flush.2.events = session.events := by
  unfold events flush
  split
  · rfl
  · dsimp only
    rw [ParquetFile.writeTable_rows, List.map_nil, List.append_nil]

theorem flush_batch (session : WriterSession) : session.flush.2.batch = [] := by
  unfold flush
  split
  · rename_i hempty
    exact List.isEmpty_iff.mp hempty
  · rfl

/-- Flushing moves the batch, and nothing else. -/
theorem flush_fields (session : WriterSession) :
    session.flush.2.chunkId = session.chunkId ∧ session.flush.2.utcDate = session.utcDate ∧
      session.flush.2.universeHash = session.universeHash ∧
      session.flush.2.eventCount = session.eventCount ∧
      session.flush.2.estimatedBytes = session.estimatedBytes ∧
      session.flush.2.minRealtimeNs = session.minRealtimeNs ∧
      session.flush.2.maxRealtimeNs = session.maxRealtimeNs ∧
      session.flush.2.parquet.schema = session.parquet.schema ∧
      session.flush.2.parquet.metadata = session.parquet.metadata := by
  unfold flush
  split <;> exact ⟨rfl, rfl, rfl, rfl, rfl, rfl, rfl, rfl, rfl⟩

theorem Holds.flush (h : session.Holds writer) : session.flush.2.Holds writer := by
  obtain ⟨hid, hdate, hhash, hcount, hbytes, hmin, hmax, hschema, hmetadata⟩ :=
    flush_fields session
  constructor
  · rw [hcount, flush_events]
    exact h.eventCount
  · rw [hbytes, flush_events]
    exact h.estimatedBytes
  · unfold WriterSession.flush
    split
    · exact h.batchBytes
    · rfl
  · rw [hmin, flush_events]
    exact h.least
  · rw [hmax, flush_events]
    exact h.greatest
  · rw [hdate, flush_events]
    exact h.oneDate
  · rw [hschema]
    exact h.schema
  · rw [hmetadata, hid, hhash, hdate]
    exact h.metadata
  · unfold WriterSession.flush
    split
    · exact h.rowGroups
    · exact ParquetFile.writeTable_rowGroups h.rowGroups _
  · rw [hid]
    exact h.id_length

theorem manifest_ok {sizeBytes : Nat} {sha256 : String} {minNs maxNs : Int} (createdAt : Int)
    (h : (8 ≤ session.chunkId.length ∧ session.chunkId.length ≤ 160) ∧ 0 < sizeBytes ∧
      0 < session.eventCount ∧ 0 ≤ minNs ∧ minNs ≤ maxNs) :
    ∃ manifest, session.manifest writer sizeBytes sha256 minNs maxNs createdAt = .ok manifest ∧
      manifest.metadata = writer.metadata session.chunkId session.universeHash session.utcDate ∧
      manifest.sizeBytes = sizeBytes ∧ manifest.sha256 = sha256 ∧
      manifest.dataPath.folders = chunkFolders manifest.utcDate manifest.writerGroup ∧
      manifest.eventCount = session.eventCount ∧
      manifest.minAppReceiveRealtimeNs = minNs ∧ manifest.maxAppReceiveRealtimeNs = maxNs := by
  unfold WriterSession.manifest
  rw [dif_pos h]
  exact ⟨_, rfl, rfl, rfl, rfl, rfl, rfl, rfl, rfl⟩

/-- A flushed session with events is published as a chunk of these events. -/
theorem Holds.finish (h : session.Holds writer) {sizeOf : ParquetFile → Nat}
    {sha256File : ParquetFile → String} (hsize : ∀ file, 0 < sizeOf file)
    (hflushed : session.batch = []) (hne : session.events ≠ []) (createdAt : Int) :
    ∃ chunk, session.finish sizeOf sha256File writer createdAt = .ok chunk ∧
      chunk.file.rows = session.events ∧ chunk.manifest.universeHash = session.universeHash ∧
      Describes chunk.manifest chunk.file ∧
      checkChunk sizeOf sha256File writer.collectorId chunk.manifest.utcDate chunk.manifest.asRef
        chunk.file chunk.manifest = .ok () := by
  have hrows : session.parquet.rows = session.events := by
    unfold events
    rw [hflushed, List.map_nil, List.append_nil]
  have htimes : receiveTimes session.events ≠ [] := by
    intro hnil
    exact hne (List.map_eq_nil_iff.mp hnil)
  obtain ⟨minNs, hmin⟩ := Option.isSome_iff_exists.mp (List.isSome_min?_of_ne_nil htimes)
  obtain ⟨maxNs, hmax⟩ := Option.isSome_iff_exists.mp (List.isSome_max?_of_ne_nil htimes)
  have hleast := min?_eq_some_iff_isLeast.mp hmin
  have hgreatest := max?_eq_some_iff_isGreatest.mp hmax
  obtain ⟨count, hcount⟩ : ∃ count, session.eventCount = count + 1 := by
    apply Nat.exists_eq_succ_of_ne_zero
    rw [h.eventCount]
    intro hzero
    exact hne (List.length_eq_zero_iff.mp hzero)
  have hnonneg : 0 ≤ minNs := by
    obtain ⟨event, -, heq⟩ := List.mem_map.mp hleast.1
    rw [← heq]
    exact event.realtime_nonneg
  have hvalid : (8 ≤ session.chunkId.length ∧ session.chunkId.length ≤ 160) ∧
      0 < sizeOf session.parquet ∧ 0 < session.eventCount ∧ 0 ≤ minNs ∧ minNs ≤ maxNs :=
    ⟨h.id_length, hsize _, by omega, hnonneg, hleast.2 hgreatest.1⟩
  obtain ⟨manifest, hok, hmetadata, hsizeBytes, hsha, hpath, heventCount, hminNs, hmaxNs⟩ :=
    @manifest_ok writer session _ (sha256File session.parquet) _ _ createdAt hvalid
  have hdate : manifest.utcDate = session.utcDate := congrArg ChunkMetadata.utcDate hmetadata
  have hdescribes : Describes manifest session.parquet := by
    constructor
    · exact h.schema
    · rw [hmetadata]
      exact h.metadata
    · exact h.rowGroups
    · rw [heventCount, h.eventCount, hrows]
    · rw [hrows, hminNs]
      exact hleast
    · rw [hrows, hmaxNs]
      exact hgreatest
    · rw [hrows, hdate]
      exact h.oneDate
  refine ⟨⟨manifest, session.parquet⟩, ?_, hrows, congrArg ChunkMetadata.universeHash hmetadata,
    hdescribes, ?_⟩
  · unfold WriterSession.finish
    rw [hflushed, h.least, h.greatest, hmin, hmax, if_neg (by simp), hcount]
    dsimp only
    rw [hok]
    rfl
  · have hcollector : manifest.collectorId = writer.collectorId :=
      congrArg ChunkMetadata.collectorId hmetadata
    rw [← hcollector]
    exact checkChunk_ok hdescribes hsizeBytes hsha hpath

end WriterSession

end MiryFormal
