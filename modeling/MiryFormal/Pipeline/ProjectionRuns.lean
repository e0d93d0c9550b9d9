import MiryFormal.Pipeline.SymbolProjection
import MiryFormal.Shared.Folders
import MiryFormal.Shared.Runs

/-!
# Projections that are built, read and removed

The projections of a day are a cache: builders copy the depth rows of the typed files into it, readers
take a symbol's rows from it, and old days are removed from it. The typed files and their marker may be
written again in between. A reader compares hashes; what it accepts is what a scan would have found.
-/

namespace MiryFormal

set_option autoImplicit false

/-! ## Markers -/

/-- One of the `typed_source_files`. -/
structure TypedSource (Digest : Type) where
  uri : String
  sizeBytes : Nat
  contentHash : Digest

/-- `_NORMALIZED.json` -/
structure NormalizedSources (Digest : Type) where
  day : NormalizedUniverse
  typedSourceFiles : List (TypedSource Digest)

structure ShardRecord (Digest : Type) where
  rows : Nat
  sizeBytes : Nat
  sha256 : Digest

/-- `_L2_SYMBOL_PROJECTION.json`, without what is the same in all of them. -/
structure ProjectionMarker (Digest : Type) where
  collectorId : String
  utcDate : String
  normalizedSha256 : Digest
  typedSourceFiles : List (TypedSource Digest)
  symbols : List String
  files : List (String × ShardRecord Digest)
  schedule : List String
  ignoredRows : List (Option String × Nat)
  totalRows : Nat
  totalBytes : Nat

/-- SHA-256 and the size of what is written. Only the rows of a file are modelled. -/
structure ProjectionHashes (Digest : Type) where
  typedFile : List TypedRow → Digest
  normalized : NormalizedSources Digest → Digest
  shard : List L2ProjectionRow → Digest
  shardSize : List L2ProjectionRow → Nat

/-- A typed file is what its marker says of it. -/
def TypedSource.Matches {Digest : Type} (hashes : ProjectionHashes Digest)
    (source : TypedSource Digest) (file : TypedFile) : Prop :=
  source.uri = file.path ∧ source.sizeBytes = file.sizeBytes ∧
    source.contentHash = hashes.typedFile file.rows

/-- No two contents have the same hash. -/
structure ProjectionHashes.CollisionFree {Digest : Type} (hashes : ProjectionHashes Digest) : Prop where
  typedFile : Function.Injective hashes.typedFile
  normalized : Function.Injective hashes.normalized
  shard : Function.Injective hashes.shard

variable {Digest : Type}

/-- `validate_source_file_identities` -/
def validateSources (sources : List (TypedSource Digest)) : Except String Unit :=
  if sources.any fun source => source.uri = "" ∨ source.sizeBytes < 1 then
    .error "typed source identity invalid"
  else if ¬ (sources.map TypedSource.uri).Pairwise (· < ·) then
    .error "typed source identities must be ordered and unique"
  else .ok ()

section Validate
variable [DecidableEq Digest] (hashes : ProjectionHashes Digest)

/-- `validate_marker` -/
def validateMarker (marker : ProjectionMarker Digest) (collector utcDate : String)
    (normalizedSha256 : Digest) (expected : List String) :
    Except String (List (String × ShardRecord Digest)) := do
  if marker.collectorId ≠ collector ∨ marker.utcDate ≠ utcDate ∨
      marker.normalizedSha256 ≠ normalizedSha256 ∨ marker.symbols ≠ expected ∨
      ¬ marker.schedule.Nodup ∨ ¬ marker.schedule ⊆ expected ∨ ¬ expected ⊆ marker.schedule then
    .error "L2 symbol projection marker identity invalid"
  else
    validateSources marker.typedSourceFiles
    if ¬ marker.files.map Prod.fst ⊆ expected ∨ ¬ expected ⊆ marker.files.map Prod.fst then
      .error "L2 symbol projection file universe invalid"
    else if marker.files.any fun file => file.2.rows < 1 ∨ file.2.sizeBytes < 1 then
      .error "L2 symbol projection file record invalid"
    else if marker.totalRows ≠ (marker.files.map fun file => file.2.rows).sum ∨
        marker.totalBytes ≠ (marker.files.map fun file => file.2.sizeBytes).sum then
      .error "L2 symbol projection marker totals invalid"
    else .ok marker.files

/-- `validate_shard` -/
def validateShard (shard : Option (List L2ProjectionRow)) (details : ShardRecord Digest) :
    Except String (List L2ProjectionRow) :=
  match shard with
  | none => .error "L2 symbol projection shard invalid"
  | some rows =>
      if hashes.shardSize rows ≠ details.sizeBytes ∨ hashes.shard rows ≠ details.sha256 then
        .error "L2 symbol projection shard invalid"
      else if rows.length ≠ details.rows then
        .error "L2 symbol projection Parquet contract invalid"
      else .ok rows

/-- `partitioned_l2_input` of a marker that it has read, with the rows at the path it returns. -/
def partitionedL2Input (collector utcDate symbol : String) (marker : ProjectionMarker Digest)
    (normalized : Option (NormalizedSources Digest)) (shard : Option (List L2ProjectionRow)) :
    Except String (List L2ProjectionRow) :=
  match normalized with
  | none => .error "FileNotFoundError"
  | some normalized => do
      let expected := normalized.day.expectedSymbols.getD []
      let files ← validateMarker marker collector utcDate (hashes.normalized normalized) expected
      match KeyedDict.get id symbol files with
      | none => .error "invalid L2 input cache"
      | some details => validateShard hashes shard details

end Validate

/-! ## Builders -/

inductive ProjectionBuilder (Digest : Type) where
  | idle
  /-- `left` are the typed files that are still to be read. -/
  | reading (normalized : NormalizedSources Digest) (symbols : List String)
      (left : List (TypedSource Digest)) (loop : ProjectionLoop)
  /-- The directory that waits to be renamed. -/
  | built (marker : ProjectionMarker Digest) (shards : Folder String (List L2ProjectionRow))

/-- The files of a day below `derived`. -/
structure ProjectionStore (Digest : Type) where
  normalized : Option (NormalizedSources Digest)
  typedRoot : List TypedFile
  /-- The directory of the projections exists. -/
  present : Bool := false
  marker : Option (ProjectionMarker Digest) := none
  shards : Folder String (List L2ProjectionRow) := Folder.empty
  builders : Nat → ProjectionBuilder Digest := fun _ => .idle

inductive ProjectionEvent (Digest : Type) where
  | writeTyped (files : List TypedFile)
  | writeNormalized (normalized : NormalizedSources Digest)
  | begin (builder : Nat)
  | readFile (builder : Nat)
  | complete (builder : Nat)
  | publish (builder : Nat)
  /-- The builder raises, or its process ends. -/
  | fail (builder : Nat)
  | removeMarker
  | removeShard (symbol : String)
  | removeDirectory

/-- The loop over the batches of one typed file. -/
def projectFile (reader : BatchReader) (loop : ProjectionLoop) (file : TypedFile) : ProjectionLoop :=
  (reader.iterBatches file.path 100000 file.rows).foldl ProjectionLoop.writeBatch loop

/-- `dict.fromkeys(symbols, 0)` -/
def emptyLoop (symbols : List String) : ProjectionLoop where
  rowCounts := symbols.foldl (fun counts symbol => KeyedDict.set id symbol 0 counts) []

/-- The files that the writers of the symbols have closed. -/
def closedShards (symbols : List String) (loop : ProjectionLoop) :
    Folder String (List L2ProjectionRow) :=
  symbols.foldl (fun shards symbol =>
    match KeyedDict.get id symbol loop.writers with
    | none => shards
    | some rows => shards.write symbol rows) Folder.empty

section Build
variable (hashes : ProjectionHashes Digest)

def shardRecord (loop : ProjectionLoop) (symbol : String) : ShardRecord Digest :=
  let rows := (KeyedDict.get id symbol loop.writers).getD []
  { rows := (KeyedDict.get id symbol loop.rowCounts).getD 0
    sizeBytes := hashes.shardSize rows
    sha256 := hashes.shard rows }

/-- The marker that a builder writes after the loop. -/
def projectionMarker (normalized : NormalizedSources Digest) (symbols : List String)
    (loop : ProjectionLoop) : Except String (ProjectionMarker Digest) :=
  let missing := (loop.rowCounts.filter fun entry => entry.2 = 0).map Prod.fst
  if missing ≠ [] then .error ("symbols have no L2 input rows: " ++ ",".intercalate missing)
  else if (loop.ignoredRows.any fun ignored => ignored.1.isNone) ∧ 1 < loop.ignoredRows.length then
    .error "'<' not supported between instances of 'NoneType' and 'str'"
  else
    let count := fun symbol => (KeyedDict.get id symbol loop.rowCounts).getD 0
    let files := symbols.map fun symbol => (symbol, shardRecord hashes loop symbol)
    .ok {
      collectorId := normalized.day.collectorId
      utcDate := normalized.day.utcDate
      normalizedSha256 := hashes.normalized normalized
      typedSourceFiles := normalized.typedSourceFiles
      symbols
      files
      schedule := symbols.insertionSort fun a b =>
        toLex (-(count a : Int), a) ≤ toLex (-(count b : Int), b)
      ignoredRows := loop.ignoredRows
      totalRows := (loop.rowCounts.map Prod.snd).sum
      totalBytes := (files.map fun file => file.2.sizeBytes).sum }

end Build

namespace ProjectionStore
variable (hashes : ProjectionHashes Digest) (reader : BatchReader) (collector utcDate : String)

def setBuilder (store : ProjectionStore Digest) (builder : Nat) (phase : ProjectionBuilder Digest) :
    ProjectionStore Digest :=
  { store with builders := Function.update store.builders builder phase }

/-- `rename` succeeds where nothing is, or an empty directory. -/
def Vacant (store : ProjectionStore Digest) : Prop :=
  store.present = false ∨ store.marker = none ∧ store.shards = Folder.empty

/-- What the builder compares with the typed files. -/
def inventory (normalized : NormalizedSources Digest) : List (String × Nat) :=
  normalized.typedSourceFiles.map fun source => (source.uri, source.sizeBytes)

inductive Step : ProjectionStore Digest → ProjectionEvent Digest → ProjectionStore Digest → Prop where
  | writeTyped {store : ProjectionStore Digest} {files : List TypedFile} :
      Step store (.writeTyped files) { store with typedRoot := files }
  | writeNormalized {store : ProjectionStore Digest} {normalized : NormalizedSources Digest} :
      Step store (.writeNormalized normalized) { store with normalized := some normalized }
  | begin {store : ProjectionStore Digest} {builder : Nat} {normalized : NormalizedSources Digest}
      {symbols : List String} (hidle : store.builders builder = .idle)
      (hnormalized : store.normalized = some normalized)
      (hsources : validateSources normalized.typedSourceFiles = .ok ())
      (hsymbols : expectedSymbols collector utcDate normalized.day (inventory normalized)
        store.typedRoot = .ok symbols) (hmarker : store.marker = none) :
      Step store (.begin builder) <| store.setBuilder builder <|
        .reading normalized symbols normalized.typedSourceFiles (emptyLoop symbols)
  | readFile {store : ProjectionStore Digest} {builder : Nat} {normalized : NormalizedSources Digest}
      {symbols : List String} {source : TypedSource Digest} {left : List (TypedSource Digest)}
      {loop : ProjectionLoop} {file : TypedFile}
      (hreading : store.builders builder = .reading normalized symbols (source :: left) loop)
      (hfile : file ∈ store.typedRoot) (hpath : file.path = source.uri) :
      Step store (.readFile builder) <| store.setBuilder builder <|
        .reading normalized symbols left (projectFile reader loop file)
  | complete {store : ProjectionStore Digest} {builder : Nat} {normalized : NormalizedSources Digest}
      {symbols : List String} {loop : ProjectionLoop} {marker : ProjectionMarker Digest}
      (hreading : store.builders builder = .reading normalized symbols [] loop)
      (hmarker : projectionMarker hashes normalized symbols loop = .ok marker) :
      Step store (.complete builder) (store.setBuilder builder (.built marker (closedShards symbols loop)))
  | publish {store : ProjectionStore Digest} {builder : Nat} {marker : ProjectionMarker Digest}
      {shards : Folder String (List L2ProjectionRow)}
      (hbuilt : store.builders builder = .built marker shards) (hvacant : store.Vacant) :
      Step store (.publish builder) { store.setBuilder builder .idle with
        present := true
        marker := some marker
        shards }
  | fail {store : ProjectionStore Digest} {builder : Nat} :
      Step store (.fail builder) (store.setBuilder builder .idle)
  | removeMarker {store : ProjectionStore Digest} :
      Step store .removeMarker { store with marker := none }
  | removeShard {store : ProjectionStore Digest} {symbol : String} :
      Step store (.removeShard symbol) { store with shards := store.shards.remove symbol }
  | removeDirectory {store : ProjectionStore Digest} (hvacant : store.Vacant) :
      Step store .removeDirectory { store with present := false, marker := none, shards := .empty }

/-- A typed file that a builder opens is what the marker says of it. The builder does not check it:
it relies on the normaliser not being at work. -/
def Undisturbed (store : ProjectionStore Digest) (event : ProjectionEvent Digest) : Prop :=
  ∀ builder normalized symbols source left loop, event = .readFile builder →
    store.builders builder = .reading normalized symbols (source :: left) loop →
    ∀ file ∈ store.typedRoot, file.path = source.uri → source.Matches hashes file

abbrev GoodStep (reader : BatchReader) (collector utcDate : String) :
    ProjectionStore Digest → ProjectionEvent Digest → ProjectionStore Digest → Prop :=
  Guarded (Undisturbed hashes) (Step hashes reader collector utcDate)

/-- The typed files are those that the marker names. -/
def Describes (normalized : NormalizedSources Digest) (typedRoot : List TypedFile) : Prop :=
  List.Forall₂ (TypedSource.Matches hashes) normalized.typedSourceFiles (sortedFiles typedRoot)

/-- Nothing has been projected, and no builder is at work. -/
structure Empty (store : ProjectionStore Digest) : Prop where
  marker : store.marker = none
  builders : ∀ builder, store.builders builder = .idle

end ProjectionStore

/-! ## What a builder has read -/

/-- The loop has gone through files that are what `sources` say of them. -/
def ReadFrom (hashes : ProjectionHashes Digest) (sources : List (TypedSource Digest))
    (symbols : List String) (loop : ProjectionLoop) : Prop :=
  ∃ files, List.Forall₂ (TypedSource.Matches hashes) sources files ∧
    Projected symbols ((files.flatMap TypedFile.rows).filter TypedRow.isDepth) loop

/-- The marker was written after a loop over files that are what the normalised marker says. -/
def Genuine (hashes : ProjectionHashes Digest) (marker : ProjectionMarker Digest) : Prop :=
  ∃ normalized symbols loop, ReadFrom hashes normalized.typedSourceFiles symbols loop ∧
    projectionMarker hashes normalized symbols loop = .ok marker

section Read
variable {hashes : ProjectionHashes Digest} {reader : BatchReader}
  {sources : List (TypedSource Digest)} {symbols : List String} {loop : ProjectionLoop}

theorem readFrom_nil (symbols : List String) : ReadFrom hashes [] symbols (emptyLoop symbols) :=
  ⟨[], .nil, projected_start symbols⟩

theorem ReadFrom.next (h : ReadFrom hashes sources symbols loop) {source : TypedSource Digest}
    {file : TypedFile} (hfile : source.Matches hashes file) :
    ReadFrom hashes (sources ++ [source]) symbols (projectFile reader loop file) := by
  obtain ⟨files, hfiles, hprojected⟩ := h
  refine ⟨files ++ [file], List.rel_append hfiles (.cons hfile .nil), ?_⟩
  rw [List.flatMap_append, List.filter_append]
  exact hprojected.writeFiles reader [file]

theorem TypedSource.Matches.unique {source : TypedSource Digest} {first second : TypedFile}
    (hcollision : hashes.CollisionFree) (h : source.Matches hashes first)
    (h' : source.Matches hashes second) : first = second := by
  obtain ⟨hpath, hsize, hrows⟩ := h
  obtain ⟨hpath', hsize', hrows'⟩ := h'
  cases first
  cases second
  rw [TypedFile.mk.injEq]
  exact ⟨hpath.symm.trans hpath', hsize.symm.trans hsize',
    hcollision.typedFile (hrows.symm.trans hrows')⟩

theorem files_unique (hcollision : hashes.CollisionFree) {first second : List TypedFile}
    (h : List.Forall₂ (TypedSource.Matches hashes) sources first)
    (h' : List.Forall₂ (TypedSource.Matches hashes) sources second) : first = second := by
  induction h generalizing second with
  | nil =>
    cases h'
    rfl
  | cons hfile _ ih =>
    cases h' with
    | cons hfile' hrest' => rw [hfile.unique hcollision hfile', ih hrest']

end Read

/-! ## What every step keeps -/

namespace ProjectionStore
variable {hashes : ProjectionHashes Digest} {reader : BatchReader} {collector utcDate : String}
  {store after : ProjectionStore Digest} {event : ProjectionEvent Digest}

/-- What a builder has in its own directory. -/
def BuilderSound (hashes : ProjectionHashes Digest) : ProjectionBuilder Digest → Prop
  | .idle => True
  | .reading normalized symbols left loop => ∃ done, normalized.typedSourceFiles = done ++ left ∧
      ReadFrom hashes done symbols loop
  | .built marker _ => Genuine hashes marker

structure Sound (hashes : ProjectionHashes Digest) (store : ProjectionStore Digest) : Prop where
  builders : ∀ builder, BuilderSound hashes (store.builders builder)
  marker : ∀ marker, store.marker = some marker → Genuine hashes marker

theorem Empty.sound (h : Empty store) : Sound hashes store := by
  refine ⟨fun builder => ?_, fun marker heq => ?_⟩
  · rw [h.builders]
    trivial
  · rw [h.marker] at heq
    exact nomatch heq

theorem Sound.setBuilder (h : Sound hashes store) {builder : Nat}
    {phase : ProjectionBuilder Digest} (hphase : BuilderSound hashes phase) :
    Sound hashes (store.setBuilder builder phase) := by
  refine ⟨fun other => ?_, h.marker⟩
  change BuilderSound hashes (Function.update store.builders builder phase other)
  by_cases heq : other = builder
  · rw [heq, Function.update_self]
    exact hphase
  · rw [Function.update_of_ne heq]
    exact h.builders other

theorem Sound.readFile (h : Sound hashes store) {builder : Nat}
    {normalized : NormalizedSources Digest} {symbols : List String} {source : TypedSource Digest}
    {left : List (TypedSource Digest)} {loop : ProjectionLoop} {file : TypedFile}
    (hreading : store.builders builder = .reading normalized symbols (source :: left) loop)
    (hfile : source.Matches hashes file) :
    Sound hashes (store.setBuilder builder
      (.reading normalized symbols left (projectFile reader loop file))) := by
  have hbuilder := h.builders builder
  rw [hreading] at hbuilder
  obtain ⟨done, hsplit, hread⟩ := hbuilder
  apply h.setBuilder
  refine ⟨done ++ [source], ?_, hread.next hfile⟩
  rw [hsplit, List.append_assoc]
  rfl

theorem Sound.complete (h : Sound hashes store) {builder : Nat}
    {normalized : NormalizedSources Digest} {symbols : List String} {loop : ProjectionLoop}
    {marker : ProjectionMarker Digest} {shards : Folder String (List L2ProjectionRow)}
    (hreading : store.builders builder = .reading normalized symbols [] loop)
    (hmarker : projectionMarker hashes normalized symbols loop = .ok marker) :
    Sound hashes (store.setBuilder builder (.built marker shards)) := by
  have hbuilder := h.builders builder
  rw [hreading] at hbuilder
  obtain ⟨done, hsplit, hread⟩ := hbuilder
  rw [List.append_nil] at hsplit
  rw [← hsplit] at hread
  exact h.setBuilder ⟨normalized, symbols, loop, hread, hmarker⟩

theorem Sound.step (h : Sound hashes store) (hgood : Undisturbed hashes store event)
    (hstep : Step hashes reader collector utcDate store event after) : Sound hashes after := by
  cases hstep with
  | writeTyped | writeNormalized | removeShard => exact ⟨h.builders, h.marker⟩
  | removeMarker | removeDirectory => exact ⟨h.builders, fun marker heq => nomatch heq⟩
  | begin => exact h.setBuilder ⟨[], rfl, readFrom_nil _⟩
  | readFile hreading hfile hpath =>
    exact h.readFile hreading (hgood _ _ _ _ _ _ rfl hreading _ hfile hpath)
  | complete hreading hmarker => exact h.complete hreading hmarker
  | fail => exact h.setBuilder trivial
  | @publish builder marker shards hbuilt hvacant =>
    have hbuilder := h.builders builder
    rw [hbuilt] at hbuilder
    have hidle : Sound hashes (store.setBuilder builder .idle) := h.setBuilder trivial
    refine ⟨hidle.builders, fun published heq => ?_⟩
    rw [← Option.some.inj heq]
    exact hbuilder

end ProjectionStore

/-! ## What a reader accepts -/

section Accept
variable {hashes : ProjectionHashes Digest} {collector utcDate symbol : String}
  {normalized : NormalizedSources Digest} {marker : ProjectionMarker Digest}
  {symbols : List String} {loop : ProjectionLoop} {rows : List L2ProjectionRow}

/-- The fields of the marker that a reader compares. -/
structure MarkerOf (hashes : ProjectionHashes Digest) (normalized : NormalizedSources Digest)
    (symbols : List String) (loop : ProjectionLoop) (marker : ProjectionMarker Digest) : Prop where
  present : ∀ entry ∈ loop.rowCounts, entry.2 ≠ 0
  collectorId : marker.collectorId = normalized.day.collectorId
  utcDate : marker.utcDate = normalized.day.utcDate
  normalizedSha256 : marker.normalizedSha256 = hashes.normalized normalized
  typedSourceFiles : marker.typedSourceFiles = normalized.typedSourceFiles
  files : marker.files = symbols.map fun symbol => (symbol, shardRecord hashes loop symbol)
  schedule : marker.schedule.Perm symbols
  totalRows : marker.totalRows = (loop.rowCounts.map Prod.snd).sum
  totalBytes : marker.totalBytes = (marker.files.map fun file => file.2.sizeBytes).sum
  symbols : marker.symbols = symbols

theorem markerOf_of_ok (h : projectionMarker hashes normalized symbols loop = .ok marker) :
    MarkerOf hashes normalized symbols loop marker := by
  unfold projectionMarker at h
  dsimp only at h
  split at h
  · cases h
  · rename_i hmissing
    split at h
    · cases h
    · cases h
      refine ⟨fun entry hm hzero => ?_, rfl, rfl, rfl, rfl, rfl,
        List.perm_insertionSort _ _, rfl, rfl, rfl⟩
      have hnil := List.map_eq_nil_iff.mp (not_not.mp hmissing)
      have hin := List.filter_eq_nil_iff.mp hnil entry hm
      exact absurd (decide_eq_true hzero) hin

variable [DecidableEq Digest]

theorem validateMarker_ok {normalizedSha256 : Digest} {expected : List String}
    {files : List (String × ShardRecord Digest)}
    (h : validateMarker marker collector utcDate normalizedSha256 expected = .ok files) :
    marker.normalizedSha256 = normalizedSha256 ∧ marker.files = files := by
  unfold validateMarker at h
  split at h
  · cases h
  · rename_i hidentity
    obtain ⟨_, -, h⟩ := exists_of_bind_ok h
    split_ifs at h
    push Not at hidentity
    exact ⟨hidentity.2.2.1, Except.ok.inj h⟩

theorem validateShard_ok {shard : Option (List L2ProjectionRow)} {details : ShardRecord Digest}
    (h : validateShard hashes shard details = .ok rows) :
    shard = some rows ∧ hashes.shard rows = details.sha256 := by
  unfold validateShard at h
  split at h
  · cases h
  · rename_i found
    split_ifs at h with hhash hrows
    cases h
    push Not at hhash
    exact ⟨rfl, hhash.2⟩

/-- The rows of a symbol that a reader accepts are those of files that the normalised marker names. -/
theorem rows_of_partitionedL2Input (hcollision : hashes.CollisionFree)
    (hgenuine : Genuine hashes marker) {shard : Option (List L2ProjectionRow)}
    (h : partitionedL2Input hashes collector utcDate symbol marker (some normalized) shard =
      .ok rows) :
    ∃ files, List.Forall₂ (TypedSource.Matches hashes) normalized.typedSourceFiles files ∧
      rows = (((files.flatMap TypedFile.rows).filter TypedRow.isDepth).filter
        (ofSymbol symbol)).map TypedRow.columns := by
  obtain ⟨built, symbols, loop, ⟨files, hfiles, hprojected⟩, hmarker⟩ := hgenuine
  have hfields := markerOf_of_ok hmarker
  unfold partitionedL2Input at h
  dsimp only at h
  obtain ⟨found, hfound, haccept⟩ := exists_of_bind_ok h
  obtain ⟨hsha, rfl⟩ := validateMarker_ok hfound
  obtain rfl : built = normalized :=
    hcollision.normalized (hfields.normalizedSha256.symm.trans hsha)
  split at haccept
  · cases haccept
  · rename_i details hdetails
    obtain ⟨key, hm, hkey⟩ := KeyedDict.mem_of_get hdetails
    rw [hfields.files] at hm
    obtain ⟨listed, hlisted, heq⟩ := List.mem_map.mp hm
    obtain ⟨rfl, rfl⟩ := Prod.mk.inj heq
    obtain rfl : listed = symbol := hkey
    obtain ⟨-, hshard⟩ := validateShard_ok haccept
    refine ⟨files, hfiles, ?_⟩
    rw [hcollision.shard hshard]
    exact hprojected.rows listed hlisted

end Accept

namespace ProjectionStore

theorem Sound.run {hashes : ProjectionHashes Digest} {reader : BatchReader}
    {collector utcDate : String} {store after : ProjectionStore Digest}
    {events : List (ProjectionEvent Digest)} (h : Sound hashes store)
    (hrun : Run (GoodStep hashes reader collector utcDate) store events
      after) : Sound hashes after :=
  hrun.preserves (fun h hstep => h.step hstep.1 hstep.2) h

/-- What a reader accepts under a marker that a builder wrote is what a scan finds. -/
theorem depthRows_of_accept [DecidableEq Digest] {hashes : ProjectionHashes Digest}
    {collector utcDate symbol : String} {marker : ProjectionMarker Digest}
    {normalized : NormalizedSources Digest} {shard : Option (List L2ProjectionRow)}
    {rows : List L2ProjectionRow} {typedRoot : List TypedFile} (hcollision : hashes.CollisionFree)
    (hgenuine : Genuine hashes marker)
    (haccept : partitionedL2Input hashes collector utcDate symbol marker (some normalized) shard =
      .ok rows)
    (hdescribes : Describes hashes normalized typedRoot) (reader : BatchReader) (path : String) :
    depthRows reader symbol (.typedRoot typedRoot) =
      (depthRows reader symbol (.inputPath path rows)).map fun row =>
        { row with exchangeSymbol := some (some symbol) } := by
  obtain ⟨files, hfiles, rfl⟩ := rows_of_partitionedL2Input hcollision hgenuine haccept
  rw [depthRows_typedRoot, depthRows_inputPath, ← files_unique hcollision hfiles hdescribes,
    List.map_map, List.map_map]
  apply List.map_congr_left
  intro row hrow
  have hsymbol : row.exchangeSymbol = some symbol :=
    of_decide_eq_true (List.mem_filter.mp hrow).2
  unfold TypedRow.scanned
  rw [hsymbol]
  rfl

end ProjectionStore

/-! ## What a builder writes is accepted -/

section Counts
variable {symbols : List String} {seen : List TypedRow} {loop : ProjectionLoop}

theorem CountsDistinct.projectFile (h : CountsDistinct loop) (reader : BatchReader)
    (file : TypedFile) : CountsDistinct (projectFile reader loop file) :=
  h.writeFile reader file

theorem countsDistinct_emptyLoop (symbols : List String) : CountsDistinct (emptyLoop symbols) :=
  countsDistinct_start symbols

theorem sum_rowCounts (h : Projected symbols seen loop)
    (hdistinct : CountsDistinct loop) (hsymbols : symbols.Nodup) :
    (symbols.map fun symbol => (KeyedDict.get id symbol loop.rowCounts).getD 0).sum =
      (loop.rowCounts.map Prod.snd).sum := by
  have hkeys : (loop.rowCounts.map Prod.fst).Perm symbols := by
    apply (List.perm_ext_iff_of_nodup hdistinct hsymbols).mpr
    intro symbol
    have hcount := h.counts symbol
    constructor
    · intro hm
      obtain ⟨entry, hentry, heq⟩ := List.mem_map.mp hm
      by_contra hnot
      have hget : KeyedDict.get id entry.1 loop.rowCounts = some entry.2 :=
        KeyedDict.get_of_mem hdistinct hentry
      rw [if_neg hnot, ← heq] at hcount
      exact nomatch hget.symm.trans hcount
    · intro hm
      rw [if_pos hm] at hcount
      obtain ⟨key, hentry, rfl⟩ := KeyedDict.mem_of_get hcount
      exact List.mem_map.mpr ⟨_, hentry, rfl⟩
  rw [← (hkeys.map _).sum_eq, List.map_map]
  congr 1
  apply List.map_congr_left
  intro entry hm
  have hget : KeyedDict.get id entry.1 loop.rowCounts = some entry.2 :=
    KeyedDict.get_of_mem hdistinct hm
  change (KeyedDict.get id entry.1 loop.rowCounts).getD 0 = entry.2
  rw [hget]
  rfl

theorem read_closedShards (symbols : List String) (loop : ProjectionLoop) {symbol : String}
    (hm : symbol ∈ symbols) :
    (closedShards symbols loop).read symbol = KeyedDict.get id symbol loop.writers := by
  have hfold : ∀ shards : Folder String (List L2ProjectionRow),
      (symbols.foldl (fun shards symbol =>
        match KeyedDict.get id symbol loop.writers with
        | none => shards
        | some rows => shards.write symbol rows) shards).read symbol =
      if symbol ∈ symbols then (KeyedDict.get id symbol loop.writers).or (shards.read symbol)
      else shards.read symbol := by
    clear hm
    induction symbols with
    | nil => exact fun shards => rfl
    | cons first symbols ih =>
      intro shards
      rw [List.foldl_cons, ih]
      by_cases heq : first = symbol
      · subst heq
        rw [if_pos List.mem_cons_self]
        cases hget : KeyedDict.get id first loop.writers with
        | none => simp
        | some rows => simp
      · have hread : ∀ rows, (shards.write first rows).read symbol = shards.read symbol :=
          fun rows => (Folder.read_write ..).trans (if_neg heq)
        simp only [List.mem_cons, Ne.symm heq, false_or]
        cases KeyedDict.get id first loop.writers with
        | none => rfl
        | some rows => rw [hread]
  have hread := hfold Folder.empty
  rw [if_pos hm, Folder.read_empty, Option.or_none] at hread
  exact hread

end Counts

section Written
variable [DecidableEq Digest] {hashes : ProjectionHashes Digest} {collector utcDate symbol : String}
  {normalized : NormalizedSources Digest} {marker : ProjectionMarker Digest}
  {symbols : List String} {seen : List TypedRow} {loop : ProjectionLoop}

/-- What a loop over all files leaves. -/
structure Complete (symbols : List String) (seen : List TypedRow) (loop : ProjectionLoop) : Prop where
  projected : Projected symbols seen loop
  distinct : CountsDistinct loop
  symbols : symbols.Nodup
  present : ∀ entry ∈ loop.rowCounts, entry.2 ≠ 0

theorem Complete.count (h : Complete symbols seen loop) (hm : symbol ∈ symbols) :
    ∃ rows, KeyedDict.get id symbol loop.writers = some rows ∧
      KeyedDict.get id symbol loop.rowCounts = some rows.length ∧ rows.length ≠ 0 := by
  have hcount := h.projected.counts symbol
  have hrows := h.projected.rows symbol hm
  rw [if_pos hm] at hcount
  obtain ⟨key, hentry, -⟩ := KeyedDict.mem_of_get hcount
  have hpos : (seen.filter (ofSymbol symbol)).length ≠ 0 := h.present _ hentry
  cases hwriter : KeyedDict.get id symbol loop.writers with
  | none =>
    rw [hwriter] at hrows
    have hlength := congrArg List.length hrows
    rw [List.length_map] at hlength
    exact absurd hlength.symm hpos
  | some rows =>
    rw [hwriter] at hrows
    have hlength : rows.length = (seen.filter (ofSymbol symbol)).length := by
      rw [← List.length_map TypedRow.columns, ← hrows]
      rfl
    rw [← hlength] at hcount hpos
    exact ⟨rows, rfl, hcount, hpos⟩

theorem validateMarker_eq (h : Complete symbols seen loop)
    (hmarker : MarkerOf hashes normalized symbols loop marker)
    (hday : normalized.day.collectorId = collector ∧ normalized.day.utcDate = utcDate)
    (hsources : validateSources normalized.typedSourceFiles = .ok ())
    (hsize : ∀ rows, 0 < hashes.shardSize rows) :
    validateMarker marker collector utcDate (hashes.normalized normalized) symbols =
      .ok marker.files := by
  have hkeys : marker.files.map Prod.fst = symbols := by
    rw [hmarker.files, List.map_map]
    exact List.map_id symbols
  have hrecords : (marker.files.any fun file => file.2.rows < 1 ∨ file.2.sizeBytes < 1) = false := by
    rw [List.any_eq_false, hmarker.files]
    intro file hm
    obtain ⟨listed, hlisted, rfl⟩ := List.mem_map.mp hm
    obtain ⟨rows, -, hcount, hpos⟩ := h.count hlisted
    have hsized := hsize ((KeyedDict.get id listed loop.writers).getD [])
    rw [decide_eq_true_iff]
    unfold shardRecord
    rw [hcount]
    dsimp only [Option.getD_some]
    omega
  have htotal : marker.totalRows = (marker.files.map fun file => file.2.rows).sum := by
    rw [hmarker.totalRows, hmarker.files, List.map_map,
      ← sum_rowCounts h.projected h.distinct h.symbols]
    rfl
  unfold validateMarker
  rw [if_neg (by
    rw [hmarker.collectorId, hmarker.utcDate, hmarker.normalizedSha256, hmarker.symbols, hday.1,
      hday.2]
    have hnodup : marker.schedule.Nodup := hmarker.schedule.nodup_iff.mpr h.symbols
    simp [hnodup, hmarker.schedule.subset, hmarker.schedule.symm.subset])]
  rw [hmarker.typedSourceFiles]
  refine bind_eq hsources ?_
  rw [hkeys, if_neg (by simp), hrecords, if_neg (by decide),
    if_neg (by simp [htotal, hmarker.totalBytes])]

theorem validateShard_eq {rows : List L2ProjectionRow} {details : ShardRecord Digest}
    (hlength : rows.length = details.rows) (hsize : hashes.shardSize rows = details.sizeBytes)
    (hsha : hashes.shard rows = details.sha256) :
    validateShard hashes (some rows) details = .ok rows := by
  unfold validateShard
  dsimp only
  rw [hsize, hsha, hlength]
  simp

/-- A reader accepts what a builder has written for every symbol of the day. -/
theorem partitionedL2Input_written (h : Complete symbols seen loop)
    (hmarker : projectionMarker hashes normalized symbols loop = .ok marker)
    (hexpected : normalized.day.expectedSymbols = some symbols)
    (hday : normalized.day.collectorId = collector ∧ normalized.day.utcDate = utcDate)
    (hsources : validateSources normalized.typedSourceFiles = .ok ())
    (hsize : ∀ rows, 0 < hashes.shardSize rows) (hm : symbol ∈ symbols) :
    ∃ rows, (closedShards symbols loop).read symbol = some rows ∧
      partitionedL2Input hashes collector utcDate symbol marker (some normalized) (some rows) =
        .ok rows := by
  have hfields := markerOf_of_ok hmarker
  obtain ⟨rows, hwriter, hcount, -⟩ := h.count hm
  refine ⟨rows, (read_closedShards symbols loop hm).trans hwriter, ?_⟩
  have hget : KeyedDict.get id symbol marker.files = some (shardRecord hashes loop symbol) := by
    have hdistinct : KeyedDict.Distinct id marker.files := by
      unfold KeyedDict.Distinct
      rw [hfields.files, List.map_map]
      exact (List.map_id symbols).symm ▸ h.symbols
    have hmem : (symbol, shardRecord hashes loop symbol) ∈ marker.files := by
      rw [hfields.files]
      exact List.mem_map.mpr ⟨symbol, hm, rfl⟩
    exact KeyedDict.get_of_mem hdistinct hmem
  unfold partitionedL2Input
  dsimp only
  rw [hexpected]
  refine bind_eq (validateMarker_eq h hfields hday hsources hsize) ?_
  rw [hget]
  apply validateShard_eq
  · unfold shardRecord
    rw [hcount]
    rfl
  · unfold shardRecord
    rw [hwriter]
    rfl
  · unfold shardRecord
    rw [hwriter]
    rfl

end Written

/-! ## A builder that is left alone -/

namespace ProjectionStore
variable {hashes : ProjectionHashes Digest} {reader : BatchReader} {collector utcDate : String}
  {store : ProjectionStore Digest} {normalized : NormalizedSources Digest} {symbols : List String}

theorem setBuilder_setBuilder (store : ProjectionStore Digest) (builder : Nat)
    (first second : ProjectionBuilder Digest) :
    (store.setBuilder builder first).setBuilder builder second = store.setBuilder builder second := by
  unfold setBuilder
  dsimp only
  rw [Function.update_idem]

theorem builders_setBuilder (store : ProjectionStore Digest) (builder : Nat)
    (phase : ProjectionBuilder Digest) : (store.setBuilder builder phase).builders builder = phase :=
  Function.update_self ..

/-- Only the opening of a typed file can be disturbed. -/
theorem undisturbed_of_ne {event : ProjectionEvent Digest}
    (hne : ∀ builder, event ≠ .readFile builder) : Undisturbed hashes store event :=
  fun builder _ _ _ _ _ heq => absurd heq (hne builder)

theorem exists_read {builder : Nat} {left : List (TypedSource Digest)} {files : List TypedFile}
    {loop : ProjectionLoop} (hfiles : List.Forall₂ (TypedSource.Matches hashes) left files)
    (hthere : ∀ file ∈ files, file ∈ store.typedRoot)
    (hpaths : (store.typedRoot.map TypedFile.path).Nodup) :
    ∃ events, Run (GoodStep hashes reader collector utcDate)
      (store.setBuilder builder (.reading normalized symbols left loop)) events
      (store.setBuilder builder
        (.reading normalized symbols [] (files.foldl (projectFile reader) loop))) := by
  induction hfiles generalizing loop with
  | nil => exact ⟨[], .nil _⟩
  | @cons source file left files hfile _ ih =>
    have hstep : GoodStep hashes reader collector utcDate
        (store.setBuilder builder (.reading normalized symbols (source :: left) loop))
        (.readFile builder)
        (store.setBuilder builder (.reading normalized symbols left (projectFile reader loop file))) := by
      rw [← setBuilder_setBuilder store builder (.reading normalized symbols (source :: left) loop)
        (.reading normalized symbols left (projectFile reader loop file))]
      refine ⟨fun other _ _ opened _ _ hevent hreading found hfound hpath => ?_,
        .readFile (builders_setBuilder ..) (hthere file List.mem_cons_self) hfile.1.symm⟩
      obtain rfl := ProjectionEvent.readFile.inj hevent
      rw [builders_setBuilder] at hreading
      obtain ⟨-, -, hcons, -⟩ := ProjectionBuilder.reading.inj hreading
      obtain ⟨rfl, -⟩ := List.cons.inj hcons
      rw [List.inj_on_of_nodup_map hpaths hfound (hthere file List.mem_cons_self)
        (hpath.trans hfile.1)]
      exact hfile
    obtain ⟨events, hrun⟩ := ih fun other hm => hthere other (List.mem_cons_of_mem _ hm)
    exact ⟨_, .cons hstep hrun⟩

theorem any_isNone_iff {ignored : List (Option String × Nat)} :
    (ignored.any fun entry => entry.1.isNone) = true ↔ none ∈ ignored.map Prod.fst := by
  simp [List.any_eq_true, List.mem_map]

/-- What `build_l2_inputs` returns, its marker says. -/
theorem exists_marker (hashes : ProjectionHashes Digest) {built : L2SymbolProjection}
    (hbuilt : buildL2Inputs reader collector utcDate normalized.day (inventory normalized)
      store.typedRoot = .ok built) :
    ∃ symbols marker, expectedSymbols collector utcDate normalized.day (inventory normalized)
        store.typedRoot = .ok symbols ∧
      projectionMarker hashes normalized symbols
        ((sortedFiles store.typedRoot).foldl (projectFile reader) (emptyLoop symbols)) =
          .ok marker ∧
      built.symbols = symbols := by
  obtain ⟨symbols, hsymbols, hrest⟩ := exists_of_bind_ok hbuilt
  have hsame : projectFiles reader symbols (sortedFiles store.typedRoot) =
      (sortedFiles store.typedRoot).foldl (projectFile reader) (emptyLoop symbols) := rfl
  dsimp only at hrest
  rw [hsame] at hrest
  split_ifs at hrest with hmissing hnone
  cases hrest
  cases hmarker : projectionMarker hashes normalized symbols
      ((sortedFiles store.typedRoot).foldl (projectFile reader) (emptyLoop symbols)) with
  | ok marker => exact ⟨symbols, marker, hsymbols, hmarker, rfl⟩
  | error e =>
    rw [← any_isNone_iff] at hnone
    unfold projectionMarker at hmarker
    dsimp only at hmarker
    rw [if_neg hmissing, if_neg hnone] at hmarker
    cases hmarker

theorem expectedSymbols_ok
    (h : expectedSymbols collector utcDate normalized.day (inventory normalized) store.typedRoot =
      .ok symbols) :
    normalized.day.expectedSymbols = some symbols ∧ symbols.Nodup ∧
      normalized.day.collectorId = collector ∧ normalized.day.utcDate = utcDate := by
  unfold expectedSymbols at h
  split at h
  · cases h
  · rename_i found hfound
    split_ifs at h with hday hinventory
    cases h
    push Not at hday
    exact ⟨hfound, hday.2.2.2.2, hday.1, hday.2.1⟩

/-- A loop over files that the marker names. -/
theorem complete_of_marker {marker : ProjectionMarker Digest}
    (hsymbols : symbols.Nodup)
    (hmarker : projectionMarker hashes normalized symbols
      ((sortedFiles store.typedRoot).foldl (projectFile reader) (emptyLoop symbols)) = .ok marker) :
    Complete symbols (((sortedFiles store.typedRoot).flatMap TypedFile.rows).filter TypedRow.isDepth)
      ((sortedFiles store.typedRoot).foldl (projectFile reader) (emptyLoop symbols)) where
  projected := projected_files reader store.typedRoot symbols
  distinct := by
    have hstep : ∀ loop file, CountsDistinct loop → CountsDistinct (projectFile reader loop file) :=
      fun _ file h => h.projectFile reader file
    exact foldl_preserves hstep (countsDistinct_emptyLoop symbols) _
  symbols := hsymbols
  present := (markerOf_of_ok hmarker).present

/-- Where nothing is projected and `build_l2_inputs` would succeed, a builder can publish, and every
reader accepts what it has published for every symbol of the day. -/
theorem exists_published [DecidableEq Digest] (hsize : ∀ rows, 0 < hashes.shardSize rows)
    {built : L2SymbolProjection} (hnormalized : store.normalized = some normalized)
    (hsources : validateSources normalized.typedSourceFiles = .ok ())
    (hdescribes : Describes hashes normalized store.typedRoot)
    (hpaths : (store.typedRoot.map TypedFile.path).Nodup) (hnone : store.marker = none)
    (hvacant : store.Vacant)
    (hbuilt : buildL2Inputs reader collector utcDate normalized.day (inventory normalized)
      store.typedRoot = .ok built) :
    ∃ events last marker,
      Run (GoodStep hashes reader collector utcDate) store events last ∧
      last.marker = some marker ∧ last.normalized = some normalized ∧
      ∀ symbol ∈ built.symbols, ∃ rows,
        partitionedL2Input hashes collector utcDate symbol marker (some normalized)
          (last.shards.read symbol) = .ok rows := by
  obtain ⟨symbols, marker, hsymbols, hmarker, rfl⟩ := exists_marker hashes hbuilt
  obtain ⟨hexpected, hnodup, hday⟩ := expectedSymbols_ok hsymbols
  have hcomplete := complete_of_marker hnodup hmarker
  generalize hloop :
    (sortedFiles store.typedRoot).foldl (projectFile reader) (emptyLoop built.symbols) = loop at *
  have hfail : GoodStep hashes reader collector utcDate store (.fail 0) (store.setBuilder 0 .idle) :=
    ⟨undisturbed_of_ne nofun, .fail⟩
  have hbegin : GoodStep hashes reader collector utcDate (store.setBuilder 0 .idle) (.begin 0)
      (store.setBuilder 0 (.reading normalized built.symbols normalized.typedSourceFiles
        (emptyLoop built.symbols))) := by
    rw [← setBuilder_setBuilder store 0 .idle (.reading normalized _ _ _)]
    exact ⟨undisturbed_of_ne nofun,
      .begin (builders_setBuilder ..) hnormalized hsources hsymbols hnone⟩
  have hread : ∃ events, Run (GoodStep hashes reader collector utcDate)
      (store.setBuilder 0 (.reading normalized built.symbols normalized.typedSourceFiles
        (emptyLoop built.symbols))) events
      (store.setBuilder 0 (.reading normalized built.symbols [] loop)) := by
    rw [← hloop]
    exact exists_read hdescribes (fun file hm => (List.perm_insertionSort _ _).mem_iff.mp hm) hpaths
  have hclose : GoodStep hashes reader collector utcDate
      (store.setBuilder 0 (.reading normalized built.symbols [] loop)) (.complete 0)
      (store.setBuilder 0 (.built marker (closedShards built.symbols loop))) := by
    rw [← setBuilder_setBuilder store 0 (.reading normalized built.symbols [] loop) (.built _ _)]
    exact ⟨undisturbed_of_ne nofun, .complete (builders_setBuilder ..) hmarker⟩
  have hpublish : GoodStep hashes reader collector utcDate
      (store.setBuilder 0 (.built marker (closedShards built.symbols loop))) (.publish 0)
      { (store.setBuilder 0 (.built marker (closedShards built.symbols loop))).setBuilder 0 .idle with
        present := true
        marker := some marker
        shards := closedShards built.symbols loop } :=
    ⟨undisturbed_of_ne nofun, .publish (builders_setBuilder ..) hvacant⟩
  obtain ⟨events, hread⟩ := hread
  refine ⟨_, _, marker, .cons hfail <| .cons hbegin <| hread.append <| .cons hclose <|
    .single hpublish, rfl, hnormalized, fun symbol hm => ?_⟩
  obtain ⟨rows, hshard, haccept⟩ :=
    partitionedL2Input_written hcomplete hmarker hexpected hday hsources hsize hm
  refine ⟨rows, ?_⟩
  change partitionedL2Input hashes collector utcDate symbol marker (some normalized)
    ((closedShards built.symbols loop).read symbol) = .ok rows
  rw [hshard]
  exact haccept

/-- The normaliser, builders, readers and removals may be at work in any order. A reader that has read
the marker of the projections finds a normalised marker and a file of the symbol some time later,
whatever has been written or removed in between: what it accepts is what a scan finds in the typed
files that this normalised marker names. And where nothing is projected and `build_l2_inputs` would
succeed, a builder can publish, and what it has published is accepted for every symbol. -/
theorem run_projected [DecidableEq Digest] {start : ProjectionStore Digest}
    {events : List (ProjectionEvent Digest)} (hcollision : hashes.CollisionFree)
    (hsize : ∀ rows, 0 < hashes.shardSize rows) (hempty : Empty start)
    (hrun : Run (GoodStep hashes reader collector utcDate) start events store) :
    (∀ marker normalized typedRoot symbol shard rows path, store.marker = some marker →
      partitionedL2Input hashes collector utcDate symbol marker (some normalized) shard =
        .ok rows →
      Describes hashes normalized typedRoot →
      depthRows reader symbol (.typedRoot typedRoot) =
        (depthRows reader symbol (.inputPath path rows)).map fun row =>
          { row with exchangeSymbol := some (some symbol) }) ∧
    ∀ normalized built, store.normalized = some normalized →
      validateSources normalized.typedSourceFiles = .ok () →
      Describes hashes normalized store.typedRoot →
      (store.typedRoot.map TypedFile.path).Nodup → store.marker = none → store.Vacant →
      buildL2Inputs reader collector utcDate normalized.day (inventory normalized)
        store.typedRoot = .ok built →
      ∃ more last marker, Run (GoodStep hashes reader collector utcDate) store more last ∧
        last.marker = some marker ∧ last.normalized = some normalized ∧
        ∀ symbol ∈ built.symbols, ∃ rows,
          partitionedL2Input hashes collector utcDate symbol marker (some normalized)
            (last.shards.read symbol) = .ok rows := by
  have hsound : Sound hashes store := hempty.sound.run hrun
  refine ⟨fun marker normalized typedRoot symbol shard rows path hmarker haccept hdescribes => ?_,
    fun normalized built hnormalized hsources hdescribes hpaths hnone hvacant hbuilt => ?_⟩
  · exact depthRows_of_accept hcollision (hsound.marker marker hmarker) haccept hdescribes reader path
  · exact exists_published hsize hnormalized hsources hdescribes hpaths hnone hvacant hbuilt

end ProjectionStore

/-! ## Sixty symbols -/

/-- A hash that shows what was hashed. -/
inductive PlainDigest where
  | typedFile (rows : List TypedRow)
  | shard (rows : List L2ProjectionRow)
  | normalized (day : NormalizedUniverse) (sources : List (String × Nat × PlainDigest))

def plainHashes : ProjectionHashes PlainDigest where
  typedFile := .typedFile
  normalized normalized := .normalized normalized.day <|
    normalized.typedSourceFiles.map fun source => (source.uri, source.sizeBytes, source.contentHash)
  shard := .shard
  shardSize rows := rows.length + 1

theorem plainHashes_collisionFree : plainHashes.CollisionFree where
  typedFile _ _ h := PlainDigest.typedFile.inj h
  shard _ _ h := PlainDigest.shard.inj h
  normalized first second h := by
    obtain ⟨hday, hsources⟩ := PlainDigest.normalized.inj h
    have hinjective : Function.Injective fun source : TypedSource PlainDigest =>
        (source.uri, source.sizeBytes, source.contentHash) := by
      rintro ⟨uri, size, hash⟩ ⟨uri', size', hash'⟩ heq
      cases heq
      rfl
    cases first
    cases second
    rw [NormalizedSources.mk.injEq]
    exact ⟨hday, hinjective.list_map hsources⟩

def sixtySources : NormalizedSources PlainDigest :=
  ⟨sixtyDay, [⟨sixtyFile.path, sixtyFile.sizeBytes, .typedFile sixtyFile.rows⟩]⟩

/-- A day that has been normalised, before any projection. -/
def sixtyStore : ProjectionStore PlainDigest where
  normalized := some sixtySources
  typedRoot := [sixtyFile]

set_option maxRecDepth 20000 in
theorem buildL2Inputs_sixtyStore :
    (buildL2Inputs wholeReader "edge" "1970-01-01" sixtyDay
      (ProjectionStore.inventory sixtySources) sixtyStore.typedRoot).map L2SymbolProjection.symbols =
      .ok sixtySymbols := by
  with_unfolding_all rfl

theorem run_projected_sixty :
    let _ : DecidableEq PlainDigest := Classical.decEq _
    ∃ events last marker rows,
      Run (ProjectionStore.GoodStep plainHashes wholeReader "edge" "1970-01-01") sixtyStore events
        last ∧
      last.marker = some marker ∧
      partitionedL2Input plainHashes "edge" "1970-01-01" "0" marker last.normalized
        (last.shards.read "0") = .ok rows ∧
      depthRows wholeReader "0" (.typedRoot [sixtyFile]) =
        (depthRows wholeReader "0" (.inputPath "symbol=0.parquet" rows)).map fun row =>
          { row with exchangeSymbol := some (some "0") } := by
  intro _
  obtain ⟨built, hbuilt, hsymbols⟩ := exists_of_map_ok buildL2Inputs_sixtyStore
  have hempty : ProjectionStore.Empty sixtyStore := ⟨rfl, fun _ => rfl⟩
  have hsize : ∀ rows, 0 < plainHashes.shardSize rows := fun rows => Nat.succ_pos rows.length
  have hdescribes : ProjectionStore.Describes plainHashes sixtySources sixtyStore.typedRoot :=
    .cons ⟨rfl, rfl, rfl⟩ .nil
  obtain ⟨events, last, marker, hrun, hmarker, hnormalized, haccept⟩ :=
    (ProjectionStore.run_projected plainHashes_collisionFree hsize hempty (.nil _)).2 sixtySources
      built rfl (by decide) hdescribes (List.nodup_singleton _) rfl (.inl rfl) hbuilt
  obtain ⟨rows, hrows⟩ := haccept "0" (hsymbols ▸ by decide)
  refine ⟨events, last, marker, rows, hrun, hmarker, ?_, ?_⟩
  · rw [hnormalized]
    exact hrows
  · exact (ProjectionStore.run_projected plainHashes_collisionFree hsize hempty hrun).1 marker
      sixtySources [sixtyFile] "0" _ rows _ hmarker hrows hdescribes

end MiryFormal
