import Mathlib.Order.Bounds.Basic
import MiryFormal.Contracts.Chunks
import MiryFormal.Contracts.GapEvents

/-!
# Raw events and the files that hold them

The `RawEvent` of `contracts/models.py` and the parquet files of `contracts/raw.py`. A table
has one row for each event, with all its fields, so rows are events. Times fit the `int64`
columns. A file is known by its schema, its metadata and its row groups.
-/

namespace MiryFormal

set_option autoImplicit false

structure RawEvent where
  schemaVersion : Int := 1
  exchangeSymbol : Option String
  streamType : StreamType
  collectorId : String
  bootId : String
  segmentId : String
  connectionId : String
  receiveSeq : Nat
  appReceiveRealtimeNs : Int
  appReceiveMonotonicNs : Int
  payloadBytes : Bytes
  requestId : Option String := none
  requestRealtimeNs : Option Int := none
  realtime_nonneg : 0 ≤ appReceiveRealtimeNs := by decide

namespace RawEvent

def approximateSizeBytes (event : RawEvent) : Nat := event.payloadBytes.length + 256

def writerGroup (event : RawEvent) : WriterGroup :=
  match event.streamType with
  | .depth | .rpiDepth | .depthSnapshot | .rpiDepthSnapshot => .depth
  | .bookTicker | .aggTrade | .trade | .markPrice | .forceOrder => .tradesMarket
  | _ => .metadata

/-- The date of `datetime.fromtimestamp(app_receive_realtime_ns // 1_000_000_000, tz=UTC)`. -/
def eventDate (event : RawEvent) : Int := event.appReceiveRealtimeNs / 1000000000 / 86400

theorem eventDate_eq (event : RawEvent) :
    event.eventDate = utcDateOf event.appReceiveRealtimeNs := by
  unfold eventDate utcDateOf nsPerDay
  omega

end RawEvent

def receiveTimes (rows : List RawEvent) : List Int := rows.map RawEvent.appReceiveRealtimeNs

def reservedBytes (rows : List RawEvent) : Nat := (rows.map RawEvent.approximateSizeBytes).sum

@[simp] theorem reservedBytes_nil : reservedBytes [] = 0 := rfl

theorem reservedBytes_concat (rows : List RawEvent) (event : RawEvent) :
    reservedBytes (rows ++ [event]) = reservedBytes rows + event.approximateSizeBytes := by
  unfold reservedBytes
  rw [List.map_append, List.sum_append, List.map_singleton, List.sum_singleton]

/-! ## Extremes -/

theorem min?_eq_some_iff_isLeast {times : List Int} {ns : Int} :
    times.min? = some ns ↔ IsLeast {time | time ∈ times} ns :=
  List.min?_eq_some_iff

theorem max?_eq_some_iff_isGreatest {times : List Int} {ns : Int} :
    times.max? = some ns ↔ IsGreatest {time | time ∈ times} ns :=
  List.max?_eq_some_iff

theorem min?_concat (times : List Int) (last : Int) :
    (times ++ [last]).min? = some (match times.min? with
      | none => last
      | some ns => min ns last) := by
  cases times with
  | nil => rfl
  | cons time times =>
    rw [List.cons_append, List.min?_cons', List.min?_cons', List.foldl_append]
    rfl

theorem max?_concat (times : List Int) (last : Int) :
    (times ++ [last]).max? = some (match times.max? with
      | none => last
      | some ns => max ns last) := by
  cases times with
  | nil => rfl
  | cons time times =>
    rw [List.cons_append, List.max?_cons', List.max?_cons', List.foldl_append]
    rfl

/-! ## Parquet files -/

structure SchemaField where
  name : String
  type : String
  nullable : Bool := true
  deriving DecidableEq

/-- `RAW_EVENT_SCHEMA` -/
def rawEventSchema : List SchemaField :=
  [⟨"schema_version", "int16", false⟩, ⟨"exchange_symbol", "string", true⟩,
    ⟨"stream_type", "dictionary<int16, string>", false⟩, ⟨"collector_id", "string", false⟩,
    ⟨"boot_id", "string", false⟩, ⟨"segment_id", "string", false⟩,
    ⟨"connection_id", "string", false⟩, ⟨"receive_seq", "int64", false⟩,
    ⟨"app_receive_realtime_ns", "int64", false⟩, ⟨"app_receive_monotonic_ns", "int64", false⟩,
    ⟨"payload_bytes", "binary", false⟩, ⟨"request_id", "string", true⟩,
    ⟨"request_realtime_ns", "int64", true⟩]

/-- The schema metadata of a chunk. -/
structure ChunkMetadata where
  chunkId : String
  collectorId : String
  dataContractHash : String
  universeHash : String
  utcDate : Int
  writerGroup : WriterGroup
  deriving DecidableEq

structure ParquetFile where
  schema : List SchemaField
  metadata : ChunkMetadata
  rowGroups : List (List RawEvent) := []

/-- The rows that `write_table` puts into one row group, unless told otherwise. -/
def rowGroupSize : Nat := 1024 * 1024

/-- Rows fill one group after the other. `room` is what the current group has left. -/
def splitRows (room : Nat) (group : List RawEvent) : List RawEvent → List (List RawEvent)
  | [] => if group.isEmpty then [] else [group]
  | row :: rows =>
      if room = 0 then group :: splitRows (rowGroupSize - 1) [row] rows
      else splitRows (room - 1) (group ++ [row]) rows

namespace ParquetFile

def writeTable (file : ParquetFile) (rows : List RawEvent) : ParquetFile :=
  { file with rowGroups := file.rowGroups ++ splitRows rowGroupSize [] rows }

def rows (file : ParquetFile) : List RawEvent := file.rowGroups.flatten

end ParquetFile

theorem splitRows_flatten (room : Nat) (group rows : List RawEvent) :
    (splitRows room group rows).flatten = group ++ rows := by
  induction rows generalizing room group with
  | nil =>
    unfold splitRows
    cases group with
    | nil => rfl
    | cons row group => simp
  | cons row rows ih =>
    unfold splitRows
    split
    · rw [List.flatten_cons, ih]
      rfl
    · rw [ih, List.append_assoc]
      rfl

theorem splitRows_ne_nil {room : Nat} {group rows : List RawEvent}
    (h : room = 0 → group ≠ []) : ∀ part ∈ splitRows room group rows, part ≠ [] := by
  induction rows generalizing room group with
  | nil =>
    unfold splitRows
    intro part hm
    cases group with
    | nil => simp at hm
    | cons row group =>
      rw [if_neg (by simp)] at hm
      rw [List.mem_singleton.mp hm]
      exact List.cons_ne_nil _ _
  | cons row rows ih =>
    unfold splitRows
    split
    · rename_i hfull
      intro part hm
      rcases List.mem_cons.mp hm with rfl | hm
      · exact h hfull
      · apply ih _ part hm
        intro _
        exact List.cons_ne_nil _ _
    · apply ih
      intro _
      simp

namespace ParquetFile

@[simp] theorem writeTable_schema (file : ParquetFile) (rows : List RawEvent) :
    (file.writeTable rows).schema = file.schema := rfl

@[simp] theorem writeTable_metadata (file : ParquetFile) (rows : List RawEvent) :
    (file.writeTable rows).metadata = file.metadata := rfl

@[simp] theorem writeTable_rows (file : ParquetFile) (rows : List RawEvent) :
    (file.writeTable rows).rows = file.rows ++ rows := by
  unfold ParquetFile.rows writeTable
  rw [List.flatten_append, splitRows_flatten, List.nil_append]

theorem writeTable_rowGroups {file : ParquetFile} (h : ∀ group ∈ file.rowGroups, group ≠ [])
    (rows : List RawEvent) : ∀ group ∈ (file.writeTable rows).rowGroups, group ≠ [] := by
  intro group hm
  rcases List.mem_append.mp hm with hm | hm
  · exact h group hm
  · apply splitRows_ne_nil _ group hm
    intro hzero
    exact absurd hzero (by decide)

end ParquetFile

/-- The groups that have a queue and a writer. -/
def writerGroups : List WriterGroup := [.depth, .tradesMarket, .metadata]

theorem RawEvent.writerGroup_mem (event : RawEvent) : event.writerGroup ∈ writerGroups := by
  unfold RawEvent.writerGroup
  split <;> decide

end MiryFormal
