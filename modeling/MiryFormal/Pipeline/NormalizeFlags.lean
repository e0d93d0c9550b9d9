import MiryFormal.Pipeline.DayNormalizer

/-!
# What the typed files flag

The typed files of a day, read in the order of the chunks, hold the rows of the chunks, and their
flags are those of one deduplicator that observes the rows in this order. Each day starts from the
checkpoint of the day before, so the files of consecutive days flag what one map flags that is never
pruned.
-/

namespace MiryFormal

set_option autoImplicit false

/-! ## Rows -/

/-- What the deduplicator observes of a row that has an identity. -/
def ParsedRow.observation (row : ParsedRow) : Option (Observation LogicalIdentity) :=
  match columnIdentity row.dedupColumns with
  | .ok (some identity) => some ⟨identity, row.payloadHash, row.appReceiveRealtimeNs⟩
  | _ => none

/-- The flags of the rows that have an identity. -/
def rowFlags (rows : List ParsedRow) : List Bool :=
  rows.filterMap fun row => row.observation.map fun _ => row.isDuplicate

def observationsOf (rows : List ParsedRow) : List (Observation LogicalIdentity) :=
  rows.filterMap ParsedRow.observation

/-- A row without an identity is no duplicate. -/
def UnidentifiedUnflagged (rows : List ParsedRow) : Prop :=
  ∀ row ∈ rows, row.observation = none → row.isDuplicate = false

theorem rowFlags_append (first second : List ParsedRow) :
    rowFlags (first ++ second) = rowFlags first ++ rowFlags second :=
  List.filterMap_append ..

section Rows
variable {text : NormalizeText} {input : NormalizeInput} {row : ParsedRow} {rows : List ParsedRow}
  {flags : List Bool} {deduplicator last : Deduplicator LogicalIdentity} {duplicate : Bool}

theorem observeRow_cases (h : observeRow text deduplicator row = .ok (duplicate, last)) :
    (∃ observation, row.observation = some observation ∧
      deduplicator.observe text.identityKey observation = .ok (duplicate, last)) ∨
    row.observation = none ∧ duplicate = false ∧ last = deduplicator := by
  unfold observeRow at h
  obtain ⟨identity, hidentity, h⟩ := exists_of_bind_ok h
  unfold ParsedRow.observation
  rw [hidentity]
  cases identity with
  | none =>
    cases h
    exact .inr ⟨rfl, rfl, rfl⟩
  | some identity => exact .inl ⟨_, rfl, h⟩

theorem observeRows_append {first second : List ParsedRow} {firstFlags secondFlags : List Bool}
    {middle : Deduplicator LogicalIdentity}
    (hfirst : observeRows text deduplicator first = .ok (firstFlags, middle))
    (hsecond : observeRows text middle second = .ok (secondFlags, last)) :
    observeRows text deduplicator (first ++ second) = .ok (firstFlags ++ secondFlags, last) := by
  induction first generalizing deduplicator firstFlags with
  | nil =>
    cases hfirst
    exact hsecond
  | cons row first ih =>
    obtain ⟨duplicate, rest, next, hrow, hrest, rfl⟩ := observeRows_cons hfirst
    unfold observeRows
    exact bind_eq hrow (bind_eq (ih hrest) rfl)

/-- The flags that are set are those of the deduplicator. -/
theorem replay_of_observeRows (h : observeRows text deduplicator rows = .ok (flags, last)) :
    replay (Deduplicator.observe text.identityKey) deduplicator (observationsOf rows) =
        (rowFlags (setDuplicates rows flags), .ok last) ∧
      UnidentifiedUnflagged (setDuplicates rows flags) := by
  induction rows generalizing deduplicator flags with
  | nil =>
    cases h
    exact ⟨rfl, fun _ hm => absurd hm List.not_mem_nil⟩
  | cons row rows ih =>
    obtain ⟨duplicate, rest, next, hrow, hrest, rfl⟩ := observeRows_cons h
    obtain ⟨hreplay, hunflagged⟩ := ih hrest
    have hset : setDuplicates (row :: rows) (duplicate :: rest) =
        { row with isDuplicate := duplicate } :: setDuplicates rows rest := rfl
    rw [hset]
    unfold observationsOf rowFlags at hreplay ⊢
    have hobservation : ParsedRow.observation { row with isDuplicate := duplicate } =
        row.observation := rfl
    refine ⟨?_, fun other hm hnone => ?_⟩
    · rcases observeRow_cases hrow with ⟨observation, hsome, hobserve⟩ | ⟨hnone, -, rfl⟩
      · rw [List.filterMap_cons_some hsome, replay_cons_ok hobserve, hreplay,
          List.filterMap_cons_some (by rw [hobservation, hsome]; rfl)]
      · rw [List.filterMap_cons_none hnone, hreplay,
          List.filterMap_cons_none (by rw [hobservation, hnone]; rfl)]
    · rcases List.mem_cons.mp hm with rfl | hm
      · rcases observeRow_cases hrow with ⟨observation, hsome, -⟩ | ⟨-, hfalse, -⟩
        · rw [hobservation, hsome] at hnone
          exact nomatch hnone
        · exact hfalse
      · exact hunflagged other hm hnone

end Rows

/-! ## The rows of a chunk -/

/-- The statistics of the row groups bound every row. -/
theorem verifyParquet_dates {utcDate : Int} {file : ParquetFile} {manifest : ChunkManifest}
    (h : verifyParquet utcDate file manifest = .ok ()) :
    ∀ event ∈ file.rows, utcDateOf event.appReceiveRealtimeNs = utcDate := by
  intro event hevent
  obtain ⟨group, hgroup, hm⟩ := List.mem_flatten.mp hevent
  obtain ⟨least, greatest, hstatistics, hleast, hgreatest⟩ :=
    rowGroupStatistics_some (List.ne_nil_of_mem hm)
  have hlow : least ≤ event.appReceiveRealtimeNs := hleast.2 (List.mem_map.mpr ⟨event, hm, rfl⟩)
  have hhigh : event.appReceiveRealtimeNs ≤ greatest :=
    hgreatest.2 (List.mem_map.mpr ⟨event, hm, rfl⟩)
  have hfound : some (least, greatest) ∈ file.rowGroups.map rowGroupStatistics :=
    List.mem_map.mpr ⟨group, hgroup, hstatistics⟩
  unfold verifyParquet at h
  dsimp only at h
  split_ifs at h
  split at h
  · rename_i minNs maxNs hmin hmax
    split_ifs at h with _ hinside
    have hbelow : minNs ≤ least := (min?_eq_some_iff_isLeast.mp hmin).2
      (List.mem_filterMap.mpr ⟨_, hfound, rfl⟩)
    have habove : greatest ≤ maxNs := (max?_eq_some_iff_isGreatest.mp hmax).2
      (List.mem_filterMap.mpr ⟨_, hfound, rfl⟩)
    exact utcDateOf_eq_iff.mpr ⟨by omega, by omega⟩
  · cases h

section Chunk
variable {text : NormalizeText} {input : NormalizeInput} {manifest : ChunkManifest}

theorem parseTypedRow_row {row : RawRow} {parsed : ParsedRow}
    (h : parseTypedRow text.toParseText row = .ok (some parsed)) :
    parsed.isDuplicate = false ∧ parsed.appReceiveRealtimeNs = row.appReceiveRealtimeNs := by
  obtain ⟨stream, message, data, -, -, -, -, h⟩ := eventRow_of_parseTypedRow h
  unfold eventRow at h
  dsimp only at h
  split at h
  · cases h
  · obtain ⟨hash, -, h⟩ := exists_of_bind_ok h
    obtain ⟨columns, -, h⟩ := exists_of_bind_ok h
    cases h
    exact ⟨rfl, rfl⟩

theorem foldlM_parseRow {universeHash : String} {events : List RawEvent} {parse last : ChunkParse}
    (h : events.foldlM (parseRow text universeHash) parse = .ok last) :
    ∀ row ∈ last.1, row ∈ parse.1 ∨
      ∃ event ∈ events, parseTypedRow text.toParseText event.parseColumns = .ok (some row) := by
  induction events generalizing parse with
  | nil =>
    cases h
    exact fun row hm => .inl hm
  | cons event events ih =>
    rw [List.foldlM_cons] at h
    obtain ⟨next, hnext, h⟩ := exists_of_bind_ok h
    unfold parseRow at hnext
    obtain ⟨typed, htyped, hnext⟩ := exists_of_bind_ok hnext
    cases hnext
    intro row hm
    rcases ih h row hm with hrow | ⟨other, hother, hparsed⟩
    · rcases List.mem_append.mp hrow with hbefore | hnew
      · exact .inl hbefore
      · rw [Option.mem_toList.mp hnew] at htyped
        exact .inr ⟨event, List.mem_cons_self, htyped⟩
    · exact .inr ⟨other, List.mem_cons_of_mem _ hother, hparsed⟩

/-- The rows of an accepted chunk are not flagged, and they are of its day. -/
theorem parseChunk_rows {rows : Option (List ParsedRow)} {result : ParsedChunk}
    (h : parseChunk text input manifest = .ok (rows, result)) :
    ∀ row ∈ rows.getD [],
      row.isDuplicate = false ∧ utcDateOf row.appReceiveRealtimeNs = input.utcDate := by
  unfold parseChunk at h
  split at h
  · cases h
  · rename_i file _
    obtain ⟨_, -, h⟩ := exists_of_bind_ok h
    obtain ⟨_, hparquet, h⟩ := exists_of_bind_ok h
    obtain ⟨⟨parsedRows, parsed⟩, hparse, h⟩ := exists_of_bind_ok h
    obtain ⟨rfl, -⟩ := Prod.mk.inj (Except.ok.inj h)
    intro row hm
    have hrow : row ∈ parsedRows := by
      split at hm
      · exact absurd hm List.not_mem_nil
      · exact hm
    obtain hnil | ⟨event, hevent, hparsed⟩ := foldlM_parseRow hparse row hrow
    · exact absurd hnil List.not_mem_nil
    · obtain ⟨hflag, htime⟩ := parseTypedRow_row hparsed
      exact ⟨hflag, htime ▸ verifyParquet_dates hparquet event hevent⟩

end Chunk

/-! ## The rows of a day -/

/-- The rows of the chunks, one chunk after the other. -/
def chunkRows (text : NormalizeText) (input : NormalizeInput) (manifests : List ChunkManifest) :
    Except String (List ParsedRow) := do
  let parsed ← manifests.mapM (parseChunk text input)
  return parsed.flatMap fun chunk => chunk.1.getD []

/-- The rows of the typed files in the order of the chunks. -/
def typedRows (typed : Folder String (List ParsedRow)) (manifests : List ChunkManifest) :
    List ParsedRow :=
  manifests.flatMap fun manifest => (typed.read (typedName manifest.chunkId)).getD []

section Day
variable {text : NormalizeText} {input : NormalizeInput} {manifests : List ChunkManifest}
  {manifest : ChunkManifest} {rows : List ParsedRow}

theorem chunkRows_concat {parsed : Option (List ParsedRow) × ParsedChunk}
    (h : chunkRows text input manifests = .ok rows)
    (hparse : parseChunk text input manifest = .ok parsed) :
    chunkRows text input (manifests ++ [manifest]) = .ok (rows ++ parsed.1.getD []) := by
  unfold chunkRows at h ⊢
  obtain ⟨chunks, hchunks, h⟩ := exists_of_bind_ok h
  cases h
  have hlast : [manifest].mapM (parseChunk text input) = .ok [parsed] :=
    mapM_of_forall₂ (.cons hparse .nil)
  have hboth : (manifests ++ [manifest]).mapM (parseChunk text input) = .ok (chunks ++ [parsed]) := by
    rw [List.mapM_append, hchunks, hlast]
    rfl
  refine bind_eq hboth ?_
  rw [List.flatMap_append, List.flatMap_singleton]
  rfl

theorem chunkRows_rows (h : chunkRows text input manifests = .ok rows) :
    ∀ row ∈ rows, row.isDuplicate = false ∧ utcDateOf row.appReceiveRealtimeNs = input.utcDate := by
  unfold chunkRows at h
  obtain ⟨chunks, hchunks, h⟩ := exists_of_bind_ok h
  cases h
  intro row hm
  obtain ⟨chunk, hchunk, hrow⟩ := List.mem_flatMap.mp hm
  obtain ⟨manifest, -, hparse⟩ := exists_of_forall₂ (forall₂_of_mapM_ok hchunks).flip hchunk
  have hchunk : parseChunk text input manifest = .ok (chunk.1, chunk.2) := hparse
  exact parseChunk_rows hchunk row hrow

theorem typedRows_congr {first second : Folder String (List ParsedRow)}
    (h : ∀ manifest ∈ manifests, first.read (typedName manifest.chunkId) =
      second.read (typedName manifest.chunkId)) :
    typedRows first manifests = typedRows second manifests := by
  unfold typedRows
  rw [List.flatMap_congr fun manifest hm => by rw [h manifest hm]]

theorem setDuplicates_append {first second : List ParsedRow} {firstFlags secondFlags : List Bool}
    (h : firstFlags.length = first.length) :
    setDuplicates (first ++ second) (firstFlags ++ secondFlags) =
      setDuplicates first firstFlags ++ setDuplicates second secondFlags :=
  List.zipWith_append h.symm

theorem setDuplicates_of_none {flags : List Bool} (hlength : flags.length = rows.length)
    (hrows : ∀ row ∈ rows, row.isDuplicate = false) (hnone : true ∉ flags) :
    setDuplicates rows flags = rows := by
  unfold setDuplicates
  induction rows generalizing flags with
  | nil => rw [List.zipWith_nil_left]
  | cons row rows ih =>
    cases flags with
    | nil => exact nomatch hlength
    | cons flag flags =>
      have hflag : flag = row.isDuplicate := by
        rw [hrows row List.mem_cons_self]
        cases flag with
        | false => rfl
        | true => exact absurd List.mem_cons_self hnone
      rw [List.zipWith_cons_cons, ih (Nat.succ.inj hlength)
        (fun other hm => hrows other (List.mem_cons_of_mem _ hm))
        fun hm => hnone (List.mem_cons_of_mem _ hm), hflag]

theorem acceptChunk_deduplicator {state next : NormalizeState} {parsed : ParsedChunk}
    (h : acceptChunk text state parsed = .ok next) : next.deduplicator = state.deduplicator := by
  unfold acceptChunk at h
  obtain ⟨formalStarts, -, h⟩ := exists_of_bind_ok h
  obtain ⟨universeEvents, -, h⟩ := exists_of_bind_ok h
  cases h
  rfl

/-- The files hold the rows of the chunks with the flags of one deduplicator. -/
structure Flagged (text : NormalizeText) (input : NormalizeInput) (initial : NormalizeState)
    (manifests : List ChunkManifest) (state : NormalizeState)
    (typed : Folder String (List ParsedRow)) (rows : List ParsedRow) (flags : List Bool) : Prop where
  parsed : chunkRows text input manifests = .ok rows
  observed : observeRows text initial.deduplicator rows = .ok (flags, state.deduplicator)
  left : typedRows typed manifests = setDuplicates rows flags

theorem Flagged.next {initial state after : NormalizeState}
    {typed typed' : Folder String (List ParsedRow)} {flags : List Bool}
    (h : Flagged text input initial manifests state typed rows flags)
    (hfresh : ∀ other ∈ manifests, typedName other.chunkId ≠ typedName manifest.chunkId)
    (hnone : typed.read (typedName manifest.chunkId) = none)
    (hjob : (chunkTask text input).runJob (state, typed) manifest = .ok (after, typed')) :
    ∃ rows' flags', Flagged text input initial (manifests ++ [manifest]) after typed' rows' flags' := by
  have hlength := observeRows_length h.observed
  have hsplit : ∀ folder, typedRows folder (manifests ++ [manifest]) =
      typedRows folder manifests ++ (folder.read (typedName manifest.chunkId)).getD [] := by
    intro folder
    unfold typedRows
    rw [List.flatMap_append, List.flatMap_singleton]
  obtain ⟨file, result, next, hproduce, haccept, hafter⟩ := PoolTask.runJob_ok hjob
  have hdeduplicator := acceptChunk_deduplicator haccept
  have hconcat := chunkRows_concat h.parsed hproduce
  cases file with
  | none =>
    cases hafter
    refine ⟨rows, flags, ?_, ?_, ?_⟩
    · rw [hconcat]
      exact congrArg Except.ok (List.append_nil rows)
    · rw [hdeduplicator]
      exact h.observed
    · rw [hsplit, h.left, hnone]
      exact List.append_nil _
  | some left =>
    obtain ⟨revised, last, hrevise, heq⟩ := hafter
    cases heq
    obtain ⟨more, hobserve, hcases⟩ := reviseTyped_ok hrevise
    rw [hdeduplicator] at hobserve
    have hleft := parseChunk_rows hproduce
    have hfile : revised.getD left = setDuplicates left more := by
      rcases hcases with ⟨-, rfl⟩ | ⟨hclean, rfl⟩
      · rfl
      · exact (setDuplicates_of_none (observeRows_length hobserve)
          (fun row hm => (hleft row hm).1) hclean).symm
    refine ⟨rows ++ left, flags ++ more, hconcat, observeRows_append h.observed hobserve, ?_⟩
    rw [hsplit, setDuplicates_append hlength]
    congr 1
    · rw [← h.left]
      exact typedRows_congr fun other hm =>
        (Folder.read_write ..).trans (if_neg (hfresh other hm).symm)
    · rw [← hfile]
      exact congrArg (Option.getD · []) (Folder.read_write_self ..)

theorem flagged_of_runAll {initial state : NormalizeState}
    {typed : Folder String (List ParsedRow)}
    (hids : (manifests.map fun manifest => manifest.chunkId).Nodup)
    (hrun : (chunkTask text input).runAll initial manifests = .ok (state, typed)) :
    ∃ rows flags, Flagged text input initial manifests state typed rows flags := by
  induction manifests using List.reverseRecOn generalizing state typed with
  | nil =>
    cases hrun
    exact ⟨[], [], rfl, rfl, rfl⟩
  | append_singleton manifests manifest ih =>
    have hsplit : ∃ before, (chunkTask text input).runAll initial manifests = .ok before := by
      have hfold := hrun
      unfold PoolTask.runAll at hfold
      rw [List.foldlM_append] at hfold
      obtain ⟨before, hbefore, -⟩ := exists_of_bind_ok hfold
      exact ⟨before, hbefore⟩
    obtain ⟨⟨before, folder⟩, hbefore⟩ := hsplit
    rw [PoolTask.runAll_concat hbefore] at hrun
    rw [List.map_append, List.nodup_append] at hids
    obtain ⟨hfirst, -, hdisjoint⟩ := hids
    have hfresh : ∀ other ∈ manifests, typedName other.chunkId ≠ typedName manifest.chunkId := by
      intro other hm heq
      exact hdisjoint other.chunkId (List.mem_map.mpr ⟨other, hm, rfl⟩) manifest.chunkId
        (List.mem_singleton.mpr rfl) (typedName_injective heq)
    obtain ⟨rows, flags, hflagged⟩ := ih hfirst hbefore
    exact hflagged.next hfresh (PoolTask.runAll_read hbefore hfresh) hrun

end Day

/-! ## One day after the other -/

/-- A day that has been normalised. -/
structure NormalizedDate where
  input : NormalizeInput
  manifests : List ChunkManifest
  output : NormalizedOutput

def NormalizedDate.rows (date : NormalizedDate) : List ParsedRow :=
  typedRows date.output.typed date.manifests

/-- The days from `day` on, each with the checkpoint that the day before has left. -/
def NormalizedDates (text : NormalizeText) : Option DedupCheckpoint → Nat → List NormalizedDate → Prop
  | _, _, [] => True
  | checkpoint, day, date :: dates =>
      (date.input.utcDate = day ∧ date.input.previousDedupCheckpoint = checkpoint ∧
        (∃ initial, loadDay date.input = .ok (initial, date.manifests)) ∧
        (date.manifests.map fun manifest => manifest.chunkId).Nodup ∧
        normalizeDay text date.input = .ok date.output) ∧
      NormalizedDates text (some date.output.checkpoint) (day + 1) dates

section Dates
variable {text : NormalizeText} {rows : List ParsedRow} {flags : List Bool}

/-- The deduplicator does not look at the flags. -/
theorem observationsOf_setDuplicates (h : flags.length = rows.length) :
    observationsOf (setDuplicates rows flags) = observationsOf rows := by
  have hrow : ∀ row : ParsedRow, row.unmarked.observation = row.observation := fun _ => rfl
  have hmap : ∀ rows : List ParsedRow,
      observationsOf (rows.map ParsedRow.unmarked) = observationsOf rows := by
    intro rows
    unfold observationsOf
    rw [List.filterMap_map]
    exact List.filterMap_congr fun row _ => hrow row
  rw [← hmap (setDuplicates rows flags), map_unmarked_setDuplicates h, hmap]

theorem map_unmarked_self (h : ∀ row ∈ rows, row.isDuplicate = false) :
    rows.map ParsedRow.unmarked = rows := by
  conv_rhs => rw [← List.map_id rows]
  apply List.map_congr_left
  intro row hm
  unfold ParsedRow.unmarked
  rw [← h row hm]
  rfl

/-- What the typed files of one day hold. -/
structure DayFlags (text : NormalizeText) (date : NormalizedDate)
    (deduplicator last : Deduplicator LogicalIdentity) : Prop where
  loaded : Deduplicator.load date.input.previousDedupCheckpoint = .ok deduplicator
  rows : chunkRows text date.input date.manifests = .ok (date.rows.map ParsedRow.unmarked)
  flags : replay (Deduplicator.observe text.identityKey) deduplicator (observationsOf date.rows) =
    (rowFlags date.rows, .ok last)
  unidentified : UnidentifiedUnflagged date.rows
  checkpoint : date.output.checkpoint =
    last.checkpoint text.identityKey (dayEndNs date.input.utcDate)
  inDay : ∀ observation ∈ observationsOf date.rows,
    utcDateOf observation.observedNs = date.input.utcDate

theorem exists_dayFlags {date : NormalizedDate} {initial : NormalizeState}
    (hload : loadDay date.input = .ok (initial, date.manifests))
    (hids : (date.manifests.map fun manifest => manifest.chunkId).Nodup)
    (houtput : normalizeDay text date.input = .ok date.output) :
    ∃ deduplicator last, DayFlags text date deduplicator last := by
  unfold normalizeDay at houtput
  obtain ⟨found, hfound, houtput⟩ := exists_of_bind_ok houtput
  rw [hload] at hfound
  cases hfound
  obtain ⟨⟨state, typed⟩, hrun, houtput⟩ := exists_of_bind_ok houtput
  obtain ⟨marker, -, houtput⟩ := exists_of_bind_ok houtput
  have hleft := Except.ok.inj houtput
  obtain ⟨rows, flags, hflagged⟩ := flagged_of_runAll hids hrun
  have hrows : date.rows = setDuplicates rows flags := by
    unfold NormalizedDate.rows
    rw [← hleft]
    exact hflagged.left
  have hlength := observeRows_length hflagged.observed
  have hparsed := chunkRows_rows hflagged.parsed
  obtain ⟨hreplay, hunflagged⟩ := replay_of_observeRows hflagged.observed
  unfold loadDay at hload
  obtain ⟨dayManifest, -, hload⟩ := exists_of_bind_ok hload
  obtain ⟨chunkManifests, -, hload⟩ := exists_of_bind_ok hload
  obtain ⟨deduplicator, hdeduplicator, hload⟩ := exists_of_bind_ok hload
  obtain ⟨rfl, -⟩ := Prod.mk.inj (Except.ok.inj hload)
  have hobservations := observationsOf_setDuplicates hlength
  refine ⟨deduplicator, state.deduplicator, hdeduplicator, ?_, ?_, ?_, ?_, fun observation hm => ?_⟩
  · rw [hrows, map_unmarked_setDuplicates hlength,
      map_unmarked_self fun row hm => (hparsed row hm).1]
    exact hflagged.parsed
  · rw [hrows, hobservations]
    exact hreplay
  · rw [hrows]
    exact hunflagged
  · rw [← hleft]
    rfl
  · rw [hrows, hobservations] at hm
    obtain ⟨row, hrow, hsome⟩ := List.mem_filterMap.mp hm
    rw [← (hparsed row hrow).2]
    unfold ParsedRow.observation at hsome
    split at hsome
    · cases hsome
      rfl
    · cases hsome

/-- The days do what `replayDays` does with the rows of their files. -/
theorem replayDays_of_normalizedDates {checkpoint : Option DedupCheckpoint} {day : Nat}
    {dates : List NormalizedDate} (h : NormalizedDates text checkpoint day dates) :
    replayDays text.identityKey checkpoint day
          (dates.map fun date => observationsOf date.rows) =
        (rowFlags (dates.flatMap NormalizedDate.rows), none) ∧
      InDays day (dates.map fun date => observationsOf date.rows) ∧
      ∀ date ∈ dates, UnidentifiedUnflagged date.rows ∧
        chunkRows text date.input date.manifests = .ok (date.rows.map ParsedRow.unmarked) := by
  induction dates generalizing checkpoint day with
  | nil => exact ⟨rfl, trivial, fun _ hm => absurd hm List.not_mem_nil⟩
  | cons date dates ih =>
    obtain ⟨⟨hday, hcheckpoint, ⟨initial, hload⟩, hids, houtput⟩, hrest⟩ := h
    obtain ⟨deduplicator, last, hflags⟩ := exists_dayFlags hload hids houtput
    obtain ⟨hreplay, hdays, hdates⟩ := ih hrest
    have hloaded := hflags.loaded
    have hwritten := hflags.checkpoint
    have hinDay := hflags.inDay
    rw [hcheckpoint] at hloaded
    rw [hday] at hwritten hinDay
    refine ⟨?_, ⟨hinDay, hdays⟩, fun other hm => ?_⟩
    · rw [List.map_cons, List.flatMap_cons, rowFlags_append]
      unfold replayDays
      rw [hloaded]
      dsimp only
      rw [hflags.flags]
      dsimp only
      rw [← hwritten, hreplay]
    · rcases List.mem_cons.mp hm with rfl | hm
      · exact ⟨hflags.unidentified, hflags.rows⟩
      · exact hdates other hm

/-- Consecutive days are normalised, each from the checkpoint of the day before. Their typed files
hold the rows of their chunks, and what these rows flag, in the order of the days and of the chunks,
is what one map flags that is never pruned. -/
theorem normalizedDates_flags {firstDay : Nat} {dates : List NormalizedDate}
    (h : NormalizedDates text none firstDay dates)
    (hkey : CollisionFree text.identityKey fun identity =>
      ∃ observation ∈ observationsOf (dates.flatMap NormalizedDate.rows),
        observation.identity = identity) :
    outcome (replay (UnprunedMap.observe text.identityKey) {}
          (observationsOf (dates.flatMap NormalizedDate.rows))) =
        (rowFlags (dates.flatMap NormalizedDate.rows), none) ∧
      ∀ date ∈ dates, UnidentifiedUnflagged date.rows ∧
        chunkRows text date.input date.manifests = .ok (date.rows.map ParsedRow.unmarked) := by
  obtain ⟨hreplay, hdays, hdates⟩ := replayDays_of_normalizedDates h
  have hflatten : (dates.map fun date => observationsOf date.rows).flatten =
      observationsOf (dates.flatMap NormalizedDate.rows) := by
    unfold observationsOf
    rw [List.flatMap_def, List.filterMap_flatten, List.map_map]
    rfl
  refine ⟨?_, hdates⟩
  rw [← hflatten] at hkey ⊢
  rw [← hreplay]
  exact (replayDays_eq hkey hdays (fun observation hm => ⟨observation, hm, rfl⟩) rfl
    (mirrors_fresh firstDay)).symm

end Dates

/-! ## A frame around midnight -/

/-- The frame is received at the end of day 0. -/
def eveningManifest : ChunkManifest :=
  repeatedManifest "chunk-evening" 0 86399999999999 (by decide)

/-- It is received again at the start of day 1. -/
def morningManifest : ChunkManifest :=
  repeatedManifest "chunk-morning" 1 86400000000001 (by decide)

def eveningDay : NormalizeInput := repeatedDay 0 [eveningManifest] none (by decide)

def morningDay (checkpoint : DedupCheckpoint) : NormalizeInput :=
  repeatedDay 1 [morningManifest] (some checkpoint) (by decide)

def eveningCheckpoint : DedupCheckpoint := { entries := [⟨contractKey, contractHash, 86399999999999⟩] }

/-- The row of the frame. -/
def repeatedRow (receivedNs : Int) (isDuplicate : Bool) : ParsedRow :=
  { contractParsed with
    appReceiveRealtimeNs := receivedNs
    appReceiveMonotonicNs := receivedNs
    isDuplicate }

theorem normalizeDay_eveningDay :
    (normalizeDay repeatedText eveningDay).map
        (fun output => (output.checkpoint, typedRows output.typed [eveningManifest])) =
      .ok (eveningCheckpoint, [repeatedRow 86399999999999 false]) := by
  with_unfolding_all rfl

theorem normalizeDay_morningDay :
    (normalizeDay repeatedText (morningDay eveningCheckpoint)).map
        (fun output => typedRows output.typed [morningManifest]) =
      .ok [repeatedRow 86400000000001 true] := by
  with_unfolding_all rfl

theorem normalizedDates_flags_midnight : ∃ dates,
    NormalizedDates repeatedText none 0 dates ∧
      dates.flatMap NormalizedDate.rows =
        [repeatedRow 86399999999999 false, repeatedRow 86400000000001 true] ∧
      outcome (replay (UnprunedMap.observe repeatedText.identityKey) {}
          (observationsOf (dates.flatMap NormalizedDate.rows))) = ([false, true], none) := by
  obtain ⟨evening, hevening, hleft⟩ := exists_of_map_ok normalizeDay_eveningDay
  obtain ⟨hcheckpoint, heveningRows⟩ := Prod.mk.inj hleft
  obtain ⟨morning, hmorning, hmorningRows⟩ := exists_of_map_ok normalizeDay_morningDay
  have hrows : [(⟨eveningDay, [eveningManifest], evening⟩ : NormalizedDate),
      ⟨morningDay eveningCheckpoint, [morningManifest], morning⟩].flatMap NormalizedDate.rows =
        [repeatedRow 86399999999999 false, repeatedRow 86400000000001 true] := by
    rw [List.flatMap_cons, List.flatMap_singleton]
    unfold NormalizedDate.rows
    rw [heveningRows, hmorningRows]
    rfl
  have hdates : NormalizedDates repeatedText none 0
      [⟨eveningDay, [eveningManifest], evening⟩,
        ⟨morningDay eveningCheckpoint, [morningManifest], morning⟩] :=
    ⟨⟨rfl, rfl, ⟨_, by with_unfolding_all rfl⟩, List.nodup_singleton _, hevening⟩,
      ⟨rfl, congrArg some hcheckpoint.symm, ⟨_, by with_unfolding_all rfl⟩, List.nodup_singleton _,
        hmorning⟩, trivial⟩
  refine ⟨_, hdates, hrows, ?_⟩
  have hidentity : ∀ observation ∈ observationsOf
      [repeatedRow 86399999999999 false, repeatedRow 86400000000001 true],
      some observation.identity = (repeatedRow 0 false).observation.map Observation.identity := by
    intro observation hm
    obtain ⟨row, hrow, hsome⟩ := List.mem_filterMap.mp hm
    obtain rfl | rfl : row = repeatedRow 86399999999999 false ∨
        row = repeatedRow 86400000000001 true := by simpa using hrow
    all_goals
      rw [← Option.some.inj hsome]
      rfl
  have hflags := (normalizedDates_flags hdates fun a b ha hb _ => by
    rw [hrows] at ha hb
    obtain ⟨first, hfirst, rfl⟩ := ha
    obtain ⟨second, hsecond, rfl⟩ := hb
    exact Option.some.inj ((hidentity first hfirst).trans (hidentity second hsecond).symm)).1
  rw [hflags, hrows]
  with_unfolding_all rfl

end MiryFormal
