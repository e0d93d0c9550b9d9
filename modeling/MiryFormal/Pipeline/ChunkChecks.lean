import MiryFormal.Contracts.RawEvents

/-!
# The chunk checks of the normaliser

What `DayNormalizer` asks of one chunk of a sealed day before it reads the rows: the manifest
beside the data, the size and the hash of the file, its metadata and its statistics. Only the
rows of a file are modelled, so its size and hash are functions of what it holds.
-/

namespace MiryFormal

set_option autoImplicit false

/-- One chunk of `_load_chunk_manifests`, with the manifest that was read beside its data. -/
def loadChunkManifest (collectorId : String) (utcDate : Int) (chunk : ChunkRef)
    (manifest : ChunkManifest) : Except String ChunkManifest :=
  if manifest.asRef ≠ chunk then .error "day/chunk manifest disagreement"
  else if manifest.collectorId ≠ collectorId then .error "chunk collector mismatch"
  else if manifest.utcDate ≠ utcDate then .error "chunk UTC date mismatch"
  else if manifest.dataPath.folders ≠ chunkFolders utcDate manifest.writerGroup then
    .error "chunk path/writer mismatch"
  else .ok manifest

/-- `_verify_chunk` -/
def verifyChunk (sizeOf : ParquetFile → Nat) (sha256File : ParquetFile → String)
    (file : ParquetFile) (manifest : ChunkManifest) : Except String Unit :=
  if sizeOf file ≠ manifest.sizeBytes ∨ sha256File file ≠ manifest.sha256 then
    .error "raw chunk integrity failure"
  else .ok ()

/-- The metadata that `_verify_parquet` expects of the file. -/
def ChunkManifest.metadata (manifest : ChunkManifest) : ChunkMetadata where
  chunkId := manifest.chunkId
  collectorId := manifest.collectorId
  dataContractHash := manifest.dataContractHash
  universeHash := manifest.universeHash
  utcDate := manifest.utcDate
  writerGroup := manifest.writerGroup

def ChunkMetadata.mismatched (expected actual : ChunkMetadata) : List String :=
  (if actual.chunkId ≠ expected.chunkId then ["chunk_id"] else []) ++
  (if actual.collectorId ≠ expected.collectorId then ["collector_id"] else []) ++
  (if actual.dataContractHash ≠ expected.dataContractHash then ["data_contract_hash"] else []) ++
  (if actual.universeHash ≠ expected.universeHash then ["universe_hash"] else []) ++
  (if actual.utcDate ≠ expected.utcDate then ["utc_date"] else []) ++
  (if actual.writerGroup ≠ expected.writerGroup then ["writer_group"] else [])

/-- The least and the greatest receive time of a row group that has rows. -/
def rowGroupStatistics (group : List RawEvent) : Option (Int × Int) := do
  let minNs ← (receiveTimes group).min?
  let maxNs ← (receiveTimes group).max?
  return (minNs, maxNs)

/-- `_verify_parquet` -/
def verifyParquet (utcDate : Int) (file : ParquetFile) (manifest : ChunkManifest) :
    Except String Unit :=
  let mismatched := manifest.metadata.mismatched file.metadata
  let statistics := file.rowGroups.map rowGroupStatistics
  if file.schema ≠ rawEventSchema then .error "raw schema mismatch"
  else if mismatched ≠ [] then
    .error ("raw metadata mismatch (" ++ String.intercalate "," mismatched ++ ")")
  else if file.rows.length ≠ manifest.eventCount then .error "raw event count mismatch"
  else if statistics.isEmpty ∨ none ∈ statistics then
    .error "raw receive time statistics unavailable"
  else
    match (statistics.filterMap (Option.map Prod.fst)).min?,
        (statistics.filterMap (Option.map Prod.snd)).max? with
    | some minNs, some maxNs =>
        if minNs ≠ manifest.minAppReceiveRealtimeNs ∨ maxNs ≠ manifest.maxAppReceiveRealtimeNs then
          .error "raw receive time range mismatch"
        else if ¬ (dayStartNs utcDate ≤ minNs ∧ minNs ≤ maxNs ∧ maxNs < dayEndNs utcDate) then
          .error "raw receive time range falls outside UTC date"
        else .ok ()
    | _, _ => .error "raw receive time statistics unavailable"

/-- All that is checked of one chunk of the day. -/
def checkChunk (sizeOf : ParquetFile → Nat) (sha256File : ParquetFile → String)
    (collectorId : String) (utcDate : Int) (chunk : ChunkRef) (file : ParquetFile)
    (beside : ChunkManifest) : Except String Unit := do
  let manifest ← loadChunkManifest collectorId utcDate chunk beside
  verifyChunk sizeOf sha256File file manifest
  verifyParquet utcDate file manifest

/-! ## Statistics -/

theorem rowGroupStatistics_some {group : List RawEvent} (h : group ≠ []) :
    ∃ minNs maxNs, rowGroupStatistics group = some (minNs, maxNs) ∧
      IsLeast {time | time ∈ receiveTimes group} minNs ∧
      IsGreatest {time | time ∈ receiveTimes group} maxNs := by
  have hne : receiveTimes group ≠ [] := by
    intro hnil
    exact h (List.map_eq_nil_iff.mp hnil)
  obtain ⟨minNs, hmin⟩ := Option.isSome_iff_exists.mp (List.isSome_min?_of_ne_nil hne)
  obtain ⟨maxNs, hmax⟩ := Option.isSome_iff_exists.mp (List.isSome_max?_of_ne_nil hne)
  refine ⟨minNs, maxNs, ?_, min?_eq_some_iff_isLeast.mp hmin,
    max?_eq_some_iff_isGreatest.mp hmax⟩
  unfold rowGroupStatistics
  rw [hmin, hmax]
  rfl

variable {groups : List (List RawEvent)} {ns : Int}

theorem mem_receiveTimes_flatten {time : Int} :
    time ∈ receiveTimes groups.flatten ↔ ∃ group ∈ groups, time ∈ receiveTimes group := by
  unfold receiveTimes
  constructor
  · intro h
    obtain ⟨event, hm, rfl⟩ := List.mem_map.mp h
    obtain ⟨group, hgroup, hevent⟩ := List.mem_flatten.mp hm
    exact ⟨group, hgroup, List.mem_map_of_mem hevent⟩
  · intro h
    obtain ⟨group, hgroup, hm⟩ := h
    obtain ⟨event, hevent, rfl⟩ := List.mem_map.mp hm
    exact List.mem_map_of_mem (List.mem_flatten.mpr ⟨group, hgroup, hevent⟩)

theorem mem_statistics {part : Int × Int → Int} {time : Int} :
    time ∈ (groups.map rowGroupStatistics).filterMap (Option.map part) ↔
      ∃ group ∈ groups, (rowGroupStatistics group).map part = some time := by
  rw [List.filterMap_map]
  exact List.mem_filterMap

/-- The least of the least times is the least time of all rows. -/
theorem isLeast_statistics (h : ∀ group ∈ groups, group ≠ [])
    (hleast : IsLeast {time | time ∈ receiveTimes groups.flatten} ns) :
    IsLeast {time | time ∈ (groups.map rowGroupStatistics).filterMap (Option.map Prod.fst)} ns := by
  constructor
  · obtain ⟨group, hgroup, hm⟩ := mem_receiveTimes_flatten.mp hleast.1
    obtain ⟨minNs, maxNs, hsome, hmin, -⟩ := rowGroupStatistics_some (h group hgroup)
    have hle := hmin.2 hm
    have hge := hleast.2 (mem_receiveTimes_flatten.mpr ⟨group, hgroup, hmin.1⟩)
    have heq : ns = minNs := le_antisymm hge hle
    apply mem_statistics.mpr
    exact ⟨group, hgroup, by rw [hsome, heq]; rfl⟩
  · intro time htime
    obtain ⟨group, hgroup, hstat⟩ := mem_statistics.mp htime
    obtain ⟨minNs, maxNs, hsome, hmin, -⟩ := rowGroupStatistics_some (h group hgroup)
    rw [hsome] at hstat
    cases hstat
    exact hleast.2 (mem_receiveTimes_flatten.mpr ⟨group, hgroup, hmin.1⟩)

theorem isGreatest_statistics (h : ∀ group ∈ groups, group ≠ [])
    (hgreatest : IsGreatest {time | time ∈ receiveTimes groups.flatten} ns) :
    IsGreatest {time | time ∈ (groups.map rowGroupStatistics).filterMap (Option.map Prod.snd)}
      ns := by
  constructor
  · obtain ⟨group, hgroup, hm⟩ := mem_receiveTimes_flatten.mp hgreatest.1
    obtain ⟨minNs, maxNs, hsome, -, hmax⟩ := rowGroupStatistics_some (h group hgroup)
    have hle := hmax.2 hm
    have hge := hgreatest.2 (mem_receiveTimes_flatten.mpr ⟨group, hgroup, hmax.1⟩)
    have heq : ns = maxNs := le_antisymm hle hge
    apply mem_statistics.mpr
    exact ⟨group, hgroup, by rw [hsome, heq]; rfl⟩
  · intro time htime
    obtain ⟨group, hgroup, hstat⟩ := mem_statistics.mp htime
    obtain ⟨minNs, maxNs, hsome, -, hmax⟩ := rowGroupStatistics_some (h group hgroup)
    rw [hsome] at hstat
    cases hstat
    exact hgreatest.2 (mem_receiveTimes_flatten.mpr ⟨group, hgroup, hmax.1⟩)

/-! ## Accepted chunks -/

/-- The manifest says what the file holds. -/
structure Describes (manifest : ChunkManifest) (file : ParquetFile) : Prop where
  schema : file.schema = rawEventSchema
  metadata : file.metadata = manifest.metadata
  rowGroups : ∀ group ∈ file.rowGroups, group ≠ []
  eventCount : manifest.eventCount = file.rows.length
  least : IsLeast {time | time ∈ receiveTimes file.rows} manifest.minAppReceiveRealtimeNs
  greatest : IsGreatest {time | time ∈ receiveTimes file.rows} manifest.maxAppReceiveRealtimeNs
  oneDate : ∀ event ∈ file.rows, utcDateOf event.appReceiveRealtimeNs = manifest.utcDate

theorem mismatched_self (metadata : ChunkMetadata) : metadata.mismatched metadata = [] := by
  unfold ChunkMetadata.mismatched
  simp

theorem receiveTimes_date {rows : List RawEvent} {utcDate : Int}
    (h : ∀ event ∈ rows, utcDateOf event.appReceiveRealtimeNs = utcDate) {time : Int}
    (hm : time ∈ receiveTimes rows) : dayStartNs utcDate ≤ time ∧ time < dayEndNs utcDate := by
  obtain ⟨event, hevent, rfl⟩ := List.mem_map.mp hm
  exact utcDateOf_eq_iff.mp (h event hevent)

theorem verifyParquet_ok {manifest : ChunkManifest} {file : ParquetFile}
    (h : Describes manifest file) : verifyParquet manifest.utcDate file manifest = .ok () := by
  have hnone : ¬ ((file.rowGroups.map rowGroupStatistics).isEmpty ∨
      none ∈ file.rowGroups.map rowGroupStatistics) := by
    intro hbad
    rcases hbad with hempty | hm
    · have hnil : file.rowGroups = [] := by simpa using hempty
      have hcount := h.eventCount
      have hpos := manifest.eventCount_pos
      unfold ParquetFile.rows at hcount
      rw [hnil] at hcount
      simp at hcount
      omega
    · obtain ⟨group, hgroup, hnone⟩ := List.mem_map.mp hm
      obtain ⟨minNs, maxNs, hsome, -⟩ := rowGroupStatistics_some (h.rowGroups group hgroup)
      rw [hnone] at hsome
      cases hsome
  have hmin := min?_eq_some_iff_isLeast.mpr (isLeast_statistics h.rowGroups h.least)
  have hmax := max?_eq_some_iff_isGreatest.mpr (isGreatest_statistics h.rowGroups h.greatest)
  have hinside : dayStartNs manifest.utcDate ≤ manifest.minAppReceiveRealtimeNs ∧
      manifest.minAppReceiveRealtimeNs ≤ manifest.maxAppReceiveRealtimeNs ∧
      manifest.maxAppReceiveRealtimeNs < dayEndNs manifest.utcDate :=
    ⟨(receiveTimes_date h.oneDate h.least.1).1, manifest.time_range.2,
      (receiveTimes_date h.oneDate h.greatest.1).2⟩
  unfold verifyParquet
  dsimp only
  rw [if_neg (not_not.mpr h.schema), h.metadata, mismatched_self, if_neg (not_not.mpr rfl),
    if_neg (not_not.mpr h.eventCount.symm), if_neg hnone, hmin, hmax]
  dsimp only
  rw [if_neg (by simp), if_neg (not_not.mpr hinside)]

theorem checkChunk_ok {sizeOf : ParquetFile → Nat} {sha256File : ParquetFile → String}
    {manifest : ChunkManifest} {file : ParquetFile} (h : Describes manifest file)
    (hsize : manifest.sizeBytes = sizeOf file) (hsha : manifest.sha256 = sha256File file)
    (hpath : manifest.dataPath.folders = chunkFolders manifest.utcDate manifest.writerGroup) :
    checkChunk sizeOf sha256File manifest.collectorId manifest.utcDate manifest.asRef file
      manifest = .ok () := by
  have hload : loadChunkManifest manifest.collectorId manifest.utcDate manifest.asRef manifest =
      .ok manifest := by
    unfold loadChunkManifest
    rw [if_neg (not_not.mpr rfl), if_neg (not_not.mpr rfl), if_neg (not_not.mpr rfl),
      if_neg (not_not.mpr hpath)]
  have hverify : verifyChunk sizeOf sha256File file manifest = .ok () := by
    unfold verifyChunk
    rw [if_neg (by simp [hsize, hsha])]
  unfold checkChunk
  rw [hload]
  simp only [bind, Except.bind, hverify]
  exact verifyParquet_ok h

end MiryFormal
