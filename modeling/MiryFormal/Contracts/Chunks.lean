import Mathlib.Data.Int.Order.Basic
import Mathlib.Data.List.TakeDrop
import Mathlib.Data.Prod.Lex
import Mathlib.Data.String.Basic

/-!
# Chunks, their manifests and ACKs

The models of `contracts/models.py` that the edge and the pipeline exchange, and the paths
they name. Dates are days since the epoch and instants are microseconds since the epoch. A
directory `date=YYYY-MM-DD` is named by its date.
-/

namespace MiryFormal

set_option autoImplicit false

abbrev Bytes := List UInt8

/-! ## Paths -/

inductive PathPart where
  | date (utcDate : Int)
  | named (name : String)
  deriving DecidableEq, Repr

/-- A relative path below a root. -/
structure RelPath where
  folders : List PathPart
  name : String
  deriving DecidableEq, Repr

namespace PathPart

def key : PathPart → Bool ×ₗ Int ×ₗ String
  | date utcDate => toLex (false, toLex (utcDate, ""))
  | named name => toLex (true, toLex (0, name))

theorem key_injective : Function.Injective key := by
  intro a b h
  cases a <;> cases b <;> simp_all [key]

end PathPart

namespace RelPath

def key (path : RelPath) : List (Bool ×ₗ Int ×ₗ String) ×ₗ String :=
  toLex (path.folders.map PathPart.key, path.name)

theorem key_injective : Function.Injective key := by
  intro a b h
  obtain ⟨hfolders, hname⟩ := Prod.ext_iff.mp (toLex.injective h)
  cases a
  cases b
  exact congrArg₂ RelPath.mk (PathPart.key_injective.list_map hfolders) hname

instance : LinearOrder RelPath := LinearOrder.lift' key key_injective

/-- A name without its last suffix, as `PurePath.with_suffix` finds it. -/
def stem (name : String) : String :=
  match name.toList.reverse.span (· ≠ '.') with
  | (_ :: _, '.' :: c :: base) => String.ofList (c :: base).reverse
  | _ => name

/-- `with_suffix(".manifest.json")` -/
def manifestName (name : String) : String := stem name ++ ".manifest.json"

def manifestPath (path : RelPath) : RelPath := { path with name := manifestName path.name }

/-- The last suffix is what follows the last dot. -/
theorem stem_append {base ext : String} (hbase : base ≠ "") (hext : ext ≠ "")
    (hdot : '.' ∉ ext.toList) : stem (base ++ "." ++ ext) = base := by
  have hreverse : (base ++ "." ++ ext).toList.reverse =
      ext.toList.reverse ++ '.' :: base.toList.reverse := by
    simp
  obtain ⟨c, rest, hc⟩ := List.exists_cons_of_ne_nil (l := base.toList.reverse) (by simpa using hbase)
  obtain ⟨d, tail, hd⟩ := List.exists_cons_of_ne_nil (l := ext.toList.reverse) (by simpa using hext)
  have hspan : (base ++ "." ++ ext).toList.reverse.span (· ≠ '.') =
      (d :: tail, '.' :: c :: rest) := by
    rw [hreverse, hc, ← hd]
    have hall : ∀ x ∈ ext.toList.reverse, decide (x ≠ '.') = true := by
      intro x hx
      have hne : x ≠ '.' := by
        rintro rfl
        exact hdot (List.mem_reverse.mp hx)
      simpa using hne
    rw [List.span_eq_takeWhile_dropWhile, List.takeWhile_append_of_pos hall,
      List.dropWhile_append_of_pos hall]
    simp
  rw [stem, hspan]
  show String.ofList (c :: rest).reverse = base
  rw [← hc, List.reverse_reverse, String.ofList_toList]

theorem manifestName_parquet {base : String} (hbase : base ≠ "") :
    manifestName (base ++ ".parquet") = base ++ ".manifest.json" := by
  have hstem := stem_append hbase (show "parquet" ≠ "" by decide) (by decide)
  rw [String.append_assoc] at hstem
  rw [manifestName, show ".parquet" = "." ++ "parquet" from rfl, hstem]

theorem manifestName_gapJson (base : String) :
    manifestName (base ++ ".gap.json") = base ++ ".gap.manifest.json" := by
  have hne : base ++ ".gap" ≠ "" := by
    intro h
    simpa using congrArg String.length h
  have hsplit : base ++ ".gap.json" = base ++ ".gap" ++ "." ++ "json" := by
    rw [String.append_assoc, String.append_assoc]
    rfl
  rw [manifestName, hsplit, stem_append hne (by decide) (by decide), String.append_assoc]
  rfl

end RelPath

/-! ## Models -/

inductive WriterGroup where
  | depth
  | tradesMarket
  | metadata
  | control
  deriving DecidableEq, Repr

def WriterGroup.value : WriterGroup → String
  | depth => "depth"
  | tradesMarket => "trades_market"
  | metadata => "metadata"
  | control => "control"

inductive ContentType where
  | parquet
  | gapJson
  deriving DecidableEq, Repr

def ContentType.extension : ContentType → String
  | parquet => ".parquet"
  | gapJson => ".gap.json"

structure ChunkRef where
  chunkId : String
  dataPath : RelPath
  sha256 : String
  sizeBytes : Nat
  contentType : ContentType
  id_length : 8 ≤ chunkId.length ∧ chunkId.length ≤ 160 := by decide
  size_pos : 0 < sizeBytes := by decide
  deriving DecidableEq

theorem ChunkRef.chunkId_ne (chunk : ChunkRef) : chunk.chunkId ≠ "" := by
  intro h
  have hlength := chunk.id_length.1
  rw [h] at hlength
  exact absurd hlength (by decide)

structure ChunkManifest extends ChunkRef where
  collectorId : String
  writerGroup : WriterGroup
  utcDate : Int
  eventCount : Nat
  minAppReceiveRealtimeNs : Int
  maxAppReceiveRealtimeNs : Int
  dataContractHash : String
  universeHash : String
  createdAt : Int
  eventCount_pos : 0 < eventCount := by decide
  time_range : 0 ≤ minAppReceiveRealtimeNs ∧ minAppReceiveRealtimeNs ≤ maxAppReceiveRealtimeNs := by
    decide
  deriving DecidableEq

/-- `as_ref` -/
abbrev ChunkManifest.asRef (manifest : ChunkManifest) : ChunkRef := manifest.toChunkRef

/-- Where the manifest of a chunk lies, below the root of its data. -/
abbrev ChunkRef.manifestPath (chunk : ChunkRef) : RelPath := chunk.dataPath.manifestPath

/-- The directories of the data of a writer on a day. -/
def chunkFolders (utcDate : Int) (writerGroup : WriterGroup) : List PathPart :=
  [.date utcDate, .named ("writer=" ++ writerGroup.value)]

structure Ack where
  chunkId : String
  sha256 : String
  durableAt : Int
  deriving DecidableEq, Repr

structure DayManifest where
  collectorId : String
  utcDate : Int
  sealedAt : Int
  chunks : List ChunkRef
  unique : (chunks.map fun chunk => (chunk.chunkId, chunk.sha256)).Nodup := by decide
  ended : utcDate < sealedAt / (86400 * 1000000) := by decide
  deriving DecidableEq

end MiryFormal
