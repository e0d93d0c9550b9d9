import Mathlib.Data.String.Basic
import Mathlib.Order.WithBot
import MiryFormal.Shared.Fallible
import MiryFormal.Shared.Grouping
import MiryFormal.Shared.KeyedDict
import MiryFormal.Shared.Runs

/-!
# Projections of one symbol

`build_l2_inputs` copies the depth rows of a day's typed files into one file per symbol, so that
a reconstruction need not scan the whole day. Batch by batch the rows are sorted by symbol and
the runs of one symbol go to the end of its file.
-/

namespace MiryFormal

set_option autoImplicit false

/-! ## Rows and files -/

/-- The columns of a projection. -/
structure L2ProjectionRow where
  streamType : String
  connectionId : String
  receiveSeq : Int
  appReceiveRealtimeNs : Int
  appReceiveMonotonicNs : Int
  exchangeEventTimeMs : Option Int
  exchangeTransactionTimeMs : Option Int
  payloadHash : List UInt8
  isDuplicate : Bool
  firstUpdateId : Option Int
  finalUpdateId : Option Int
  previousFinalUpdateId : Option Int
  lastUpdateId : Option Int
  bids : Option (List (String × String))
  asks : Option (List (String × String))
  deriving DecidableEq

/-- A row of a typed file, as far as a projection needs it. -/
structure TypedRow where
  exchangeSymbol : Option String
  columns : L2ProjectionRow
  deriving DecidableEq

structure TypedFile where
  path : String
  sizeBytes : Nat
  rows : List TypedRow
  deriving DecidableEq

/-- A row that `_depth_rows` yields. The rows of a projection have no `exchange_symbol`. -/
structure ScannedRow where
  exchangeSymbol : Option (Option String) := none
  streamType : String
  connectionId : String
  receiveSeq : Int
  appReceiveRealtimeNs : Int
  payloadHash : List UInt8
  firstUpdateId : Option Int
  finalUpdateId : Option Int
  previousFinalUpdateId : Option Int
  lastUpdateId : Option Int
  bids : Option (List (String × String))
  asks : Option (List (String × String))
  deriving DecidableEq

/-- `ParquetFile.iter_batches`: the rows of a file, in batches of at most `batch_size`. Where
the batches end depends on the file. -/
structure BatchReader where
  iterBatches : {α : Type} → String → Nat → List α → List (List α)
  flatten_iterBatches : ∀ {α : Type} (path : String) (batchSize : Nat) (rows : List α),
    (iterBatches path batchSize rows).flatten = rows

namespace L2ProjectionRow

/-- The columns that `_depth_rows` reads. -/
def scanned (row : L2ProjectionRow) : ScannedRow where
  streamType := row.streamType
  connectionId := row.connectionId
  receiveSeq := row.receiveSeq
  appReceiveRealtimeNs := row.appReceiveRealtimeNs
  payloadHash := row.payloadHash
  firstUpdateId := row.firstUpdateId
  finalUpdateId := row.finalUpdateId
  previousFinalUpdateId := row.previousFinalUpdateId
  lastUpdateId := row.lastUpdateId
  bids := row.bids
  asks := row.asks

end L2ProjectionRow

namespace TypedRow

/-- The sort key of a row; nulls are sorted to the end. -/
def symbolKey (row : TypedRow) : WithTop String := row.exchangeSymbol

def scanned (row : TypedRow) : ScannedRow :=
  { row.columns.scanned with exchangeSymbol := some row.exchangeSymbol }

/-- `DEPTH_STREAMS` -/
def isDepth (row : TypedRow) : Bool :=
  row.columns.streamType = "depth" ∨ row.columns.streamType = "depth_snapshot"

end TypedRow

/-- `sorted(typed_root.glob("*.typed.parquet"))` -/
def sortedFiles (typedRoot : List TypedFile) : List TypedFile :=
  typedRoot.insertionSort fun a b => a.path ≤ b.path

/-! ## The scan -/

/-- What `_depth_rows` reads: a projection, or all typed files. -/
inductive DepthSource where
  | inputPath (path : String) (rows : List L2ProjectionRow)
  | typedRoot (files : List TypedFile)

/-- `_depth_rows` -/
def depthRows (reader : BatchReader) (symbol : String) : DepthSource → List ScannedRow
  | .inputPath path rows =>
      (reader.iterBatches path 10000 rows).flatMap fun batch => batch.map L2ProjectionRow.scanned
  | .typedRoot files =>
      (sortedFiles files).flatMap fun file =>
        (reader.iterBatches file.path 10000 file.rows).flatMap fun batch =>
          (batch.map TypedRow.scanned).filter fun row =>
            row.exchangeSymbol = some (some symbol) ∧
              (row.streamType = "depth" ∨ row.streamType = "depth_snapshot")

/-! ## The builder -/

/-- `group_by_symbol_preserving_order` -/
def groupBySymbolPreservingOrder (batch : List TypedRow) :
    List (Option String × List L2ProjectionRow) :=
  let ordered := sortByKey TypedRow.symbolKey batch
  let encoded := runEndEncode 0 (ordered.map TypedRow.exchangeSymbol)
  let ends := encoded.map Prod.snd
  let starts := 0 :: ends.dropLast
  (encoded.zip starts).map fun run =>
    (run.1.1, ((ordered.drop run.2).take (run.1.2 - run.2)).map TypedRow.columns)

/-- The variables of the loop over the batches; `writers` holds what was written for each
symbol. -/
structure ProjectionLoop where
  writers : List (String × List L2ProjectionRow) := []
  rowCounts : List (String × Nat)
  ignoredRows : List (Option String × Nat) := []
  deriving DecidableEq

namespace ProjectionLoop

/-- The rows of a symbol outside the universe are counted only. -/
def ignore (loop : ProjectionLoop) (symbol : Option String) (count : Nat) : ProjectionLoop :=
  { loop with
    ignoredRows := KeyedDict.set id symbol
      ((KeyedDict.get id symbol loop.ignoredRows).getD 0 + count) loop.ignoredRows }

def write (loop : ProjectionLoop) (group : Option String × List L2ProjectionRow) :
    ProjectionLoop :=
  match group.1 with
  | none => loop.ignore none group.2.length
  | some symbol =>
      match KeyedDict.get id symbol loop.rowCounts with
      | none => loop.ignore (some symbol) group.2.length
      | some count => { loop with
          writers := KeyedDict.set id symbol
            ((KeyedDict.get id symbol loop.writers).getD [] ++ group.2) loop.writers
          rowCounts := KeyedDict.set id symbol (count + group.2.length) loop.rowCounts }

def writeBatch (loop : ProjectionLoop) (batch : List TypedRow) : ProjectionLoop :=
  let depthBatch := batch.filter TypedRow.isDepth
  if depthBatch = [] then loop
  else (groupBySymbolPreservingOrder depthBatch).foldl write loop

end ProjectionLoop

/-- The loops over the typed files and their batches. -/
def projectFiles (reader : BatchReader) (symbols : List String) (typedPaths : List TypedFile) :
    ProjectionLoop :=
  typedPaths.foldl (fun loop file =>
    (reader.iterBatches file.path 100000 file.rows).foldl ProjectionLoop.writeBatch loop)
    { rowCounts := symbols.foldl (fun counts symbol => KeyedDict.set id symbol 0 counts) [] }

/-- `_NORMALIZED.json`, whose symbols may not be a list of strings. -/
structure NormalizedUniverse where
  collectorId : String
  utcDate : String
  expectedSymbols : Option (List String)
  deriving DecidableEq

/-- The fields of the marker that describe what was projected. -/
structure L2SymbolProjection where
  collectorId : String
  utcDate : String
  symbols : List String
  shards : List (String × List L2ProjectionRow)
  files : List (String × Nat)
  schedule : List String
  ignoredRows : List (Option String × Nat)
  totalRows : Nat
  deriving DecidableEq

section Build
variable (reader : BatchReader) (collector utcDate : String) (normalized : NormalizedUniverse)
  (typedSourceFiles : List (String × Nat)) (typedRoot : List TypedFile)

/-- The checks before the loop: the expected symbols. -/
def expectedSymbols : Except String (List String) :=
  match normalized.expectedSymbols with
  | none => .error "normalized marker has no authoritative 60-symbol universe"
  | some symbols =>
      if normalized.collectorId ≠ collector ∨ normalized.utcDate ≠ utcDate ∨
          symbols.length ≠ 60 ∨ "" ∈ symbols ∨ ¬ symbols.Nodup then
        .error "normalized marker has no authoritative 60-symbol universe"
      else if (sortedFiles typedRoot).map (fun file => (file.path, file.sizeBytes)) ≠
          typedSourceFiles then
        .error "normalized typed source inventory does not match actual files"
      else .ok symbols

/-- `build_l2_inputs` on a day without an earlier projection. -/
def buildL2Inputs : Except String L2SymbolProjection := do
  let symbols ← expectedSymbols collector utcDate normalized typedSourceFiles typedRoot
  let loop := projectFiles reader symbols (sortedFiles typedRoot)
  let missing := (loop.rowCounts.filter fun entry => entry.2 = 0).map Prod.fst
  if missing ≠ [] then .error ("symbols have no L2 input rows: " ++ ",".intercalate missing)
  -- the keys of a JSON object are sorted, and None does not compare with a string
  else if none ∈ loop.ignoredRows.map Prod.fst ∧ 1 < loop.ignoredRows.length then
    .error "'<' not supported between instances of 'NoneType' and 'str'"
  else
    let count := fun symbol => (KeyedDict.get id symbol loop.rowCounts).getD 0
    return {
      collectorId := collector
      utcDate
      symbols
      shards := loop.writers
      files := symbols.map fun symbol => (symbol, count symbol)
      schedule := symbols.insertionSort fun a b =>
        toLex (-(count a : Int), a) ≤ toLex (-(count b : Int), b)
      ignoredRows := loop.ignoredRows
      totalRows := (loop.rowCounts.map Prod.snd).sum }

end Build

/-! ## What the loop has written -/

def ofSymbol (symbol : String) (row : TypedRow) : Bool := row.exchangeSymbol = some symbol

/-- The loop after the depth rows `seen`. -/
structure Projected (symbols : List String) (seen : List TypedRow) (loop : ProjectionLoop) :
    Prop where
  rows : ∀ symbol ∈ symbols, (KeyedDict.get id symbol loop.writers).getD [] =
    (seen.filter (ofSymbol symbol)).map TypedRow.columns
  counts : ∀ symbol, KeyedDict.get id symbol loop.rowCounts =
    if symbol ∈ symbols then some (seen.filter (ofSymbol symbol)).length else none
  total : (loop.rowCounts.map Prod.snd).sum + (loop.ignoredRows.map Prod.snd).sum = seen.length

/-- The rows of one symbol after another: those of each symbol keep their order. -/
theorem groups_of_batch (batch : List TypedRow) :
    ∃ pieces : List (Option String × List TypedRow),
      groupBySymbolPreservingOrder batch =
        pieces.map (fun piece => (piece.1, piece.2.map TypedRow.columns)) ∧
      (∀ piece ∈ pieces, ∀ row ∈ piece.2, row.exchangeSymbol = piece.1) ∧
      (∀ symbol, (pieces.flatMap Prod.snd).filter (ofSymbol symbol) =
        batch.filter (ofSymbol symbol)) ∧
      (pieces.flatMap Prod.snd).length = batch.length := by
  let ordered := sortByKey TypedRow.symbolKey batch
  obtain ⟨hflat, hkeys⟩ := cutRuns_runEndEncode TypedRow.exchangeSymbol [] ordered
  rw [List.nil_append] at hflat hkeys
  refine ⟨_, ?_, hkeys, fun symbol => ?_, ?_⟩
  · rw [← cutRuns_eq, List.map_map]
    rfl
  · rw [hflat]
    apply filter_sortByKey
    intro row
    exact decide_eq_true_iff
  · rw [hflat]
    exact (sortByKey_perm _ batch).length_eq

section Loop
variable {symbols : List String} {seen : List TypedRow} {loop : ProjectionLoop}

theorem filter_eq_nil_of_other {rows : List TypedRow} {symbol : String} {other : Option String}
    (hrows : ∀ row ∈ rows, row.exchangeSymbol = other) (hne : other ≠ some symbol) :
    rows.filter (ofSymbol symbol) = [] := by
  apply List.filter_eq_nil_iff.mpr
  intro row hm htrue
  exact hne ((hrows row hm).symm.trans (of_decide_eq_true htrue))

theorem filter_eq_self_of_same {rows : List TypedRow} {symbol : String}
    (hrows : ∀ row ∈ rows, row.exchangeSymbol = some symbol) :
    rows.filter (ofSymbol symbol) = rows := by
  apply List.filter_eq_self.mpr
  intro row hm
  exact decide_eq_true (hrows row hm)

theorem Projected.ignore (h : Projected symbols seen loop) {rows : List TypedRow}
    {symbol : Option String} (hrows : ∀ row ∈ rows, row.exchangeSymbol = symbol)
    (hout : ∀ known ∈ symbols, symbol ≠ some known) :
    Projected symbols (seen ++ rows) (loop.ignore symbol rows.length) := by
  constructor
  · intro known hknown
    rw [List.filter_append, filter_eq_nil_of_other hrows (hout known hknown), List.append_nil]
    exact h.rows known hknown
  · intro known
    rw [ProjectionLoop.ignore, h.counts known]
    by_cases hknown : known ∈ symbols
    · rw [if_pos hknown, if_pos hknown, List.filter_append,
        filter_eq_nil_of_other hrows (hout known hknown), List.append_nil]
    · rw [if_neg hknown, if_neg hknown]
  · have hsum := @KeyedDict.sum_set _ _ _ id symbol
      ((KeyedDict.get id symbol loop.ignoredRows).getD 0 + rows.length) loop.ignoredRows
    have htotal := h.total
    rw [ProjectionLoop.ignore, List.length_append]
    simp only [id_eq] at hsum ⊢
    omega

theorem Projected.write (h : Projected symbols seen loop) {piece : Option String × List TypedRow}
    (hrows : ∀ row ∈ piece.2, row.exchangeSymbol = piece.1) :
    Projected symbols (seen ++ piece.2)
      (loop.write (piece.1, piece.2.map TypedRow.columns)) := by
  obtain ⟨symbol, rows⟩ := piece
  unfold ProjectionLoop.write
  dsimp only at hrows ⊢
  cases symbol with
  | none =>
    rw [List.length_map]
    exact h.ignore hrows fun known _ => nofun
  | some symbol =>
    by_cases hknown : symbol ∈ symbols
    · have hcount := h.counts symbol
      rw [if_pos hknown] at hcount
      dsimp only
      rw [hcount]
      constructor
      · intro other hother
        dsimp only
        rw [KeyedDict.get_set, id_eq, List.filter_append, List.map_append, ← h.rows other hother]
        by_cases heq : symbol = other
        · subst heq
          rw [if_pos rfl, filter_eq_self_of_same hrows]
          rfl
        · rw [if_neg heq, filter_eq_nil_of_other hrows fun hsome => heq (Option.some.inj hsome),
            List.map_nil, List.append_nil]
      · intro other
        dsimp only
        rw [KeyedDict.get_set, id_eq, h.counts other, List.filter_append, List.length_append]
        by_cases heq : symbol = other
        · subst heq
          rw [if_pos rfl, if_pos hknown, filter_eq_self_of_same hrows, List.length_map]
        · rw [if_neg heq, filter_eq_nil_of_other hrows fun hsome => heq (Option.some.inj hsome)]
          rfl
      · have hsum := @KeyedDict.sum_set _ _ _ id symbol
          ((seen.filter (ofSymbol symbol)).length + (rows.map TypedRow.columns).length)
          loop.rowCounts
        have htotal := h.total
        rw [id_eq, hcount, Option.getD_some, List.length_map] at hsum
        dsimp only
        rw [List.length_append, List.length_map]
        omega
    · have hcount := h.counts symbol
      rw [if_neg hknown] at hcount
      dsimp only
      rw [hcount, List.length_map]
      apply h.ignore hrows
      intro known hin heq
      rw [Option.some.inj heq] at hknown
      exact hknown hin

theorem Projected.writeAll {pieces : List (Option String × List TypedRow)}
    (h : Projected symbols seen loop)
    (hrows : ∀ piece ∈ pieces, ∀ row ∈ piece.2, row.exchangeSymbol = piece.1) :
    Projected symbols (seen ++ pieces.flatMap Prod.snd)
      ((pieces.map fun piece => (piece.1, piece.2.map TypedRow.columns)).foldl
        ProjectionLoop.write loop) := by
  induction pieces generalizing seen loop with
  | nil =>
    rw [List.flatMap_nil, List.append_nil]
    exact h
  | cons piece pieces ih =>
    rw [List.flatMap_cons, ← List.append_assoc]
    exact ih (h.write (hrows piece List.mem_cons_self)) fun other hm =>
      hrows other (List.mem_cons_of_mem piece hm)

theorem Projected.writeBatch (h : Projected symbols seen loop) (batch : List TypedRow) :
    Projected symbols (seen ++ batch.filter TypedRow.isDepth) (loop.writeBatch batch) := by
  unfold ProjectionLoop.writeBatch
  dsimp only
  by_cases hempty : batch.filter TypedRow.isDepth = []
  · rw [if_pos hempty, hempty, List.append_nil]
    exact h
  · rw [if_neg hempty]
    obtain ⟨pieces, heq, hrows, hfilter, hlength⟩ :=
      groups_of_batch (batch.filter TypedRow.isDepth)
    have hwritten := h.writeAll hrows
    rw [← heq] at hwritten
    have hsame : ∀ symbol, (seen ++ pieces.flatMap Prod.snd).filter (ofSymbol symbol) =
        (seen ++ batch.filter TypedRow.isDepth).filter (ofSymbol symbol) := by
      intro symbol
      rw [List.filter_append, List.filter_append, hfilter]
    refine ⟨fun symbol hm => ?_, fun symbol => ?_, ?_⟩
    · rw [← hsame]
      exact hwritten.rows symbol hm
    · rw [← hsame]
      exact hwritten.counts symbol
    · rw [hwritten.total, List.length_append, List.length_append, hlength]

theorem Projected.writeBatches (h : Projected symbols seen loop) (batches : List (List TypedRow)) :
    Projected symbols (seen ++ batches.flatten.filter TypedRow.isDepth)
      (batches.foldl ProjectionLoop.writeBatch loop) := by
  induction batches generalizing seen loop with
  | nil =>
    rw [List.flatten_nil, List.filter_nil, List.append_nil]
    exact h
  | cons batch batches ih =>
    rw [List.flatten_cons, List.filter_append, ← List.append_assoc]
    exact ih (h.writeBatch batch)

/-- Neither the ends of the batches nor those of the files show in what is written. -/
theorem Projected.writeFiles (h : Projected symbols seen loop) (reader : BatchReader)
    (files : List TypedFile) :
    Projected symbols (seen ++ (files.flatMap TypedFile.rows).filter TypedRow.isDepth)
      (files.foldl (fun loop file =>
        (reader.iterBatches file.path 100000 file.rows).foldl ProjectionLoop.writeBatch loop)
        loop) := by
  induction files generalizing seen loop with
  | nil =>
    rw [List.flatMap_nil, List.filter_nil, List.append_nil]
    exact h
  | cons file files ih =>
    have hfile := h.writeBatches (reader.iterBatches file.path 100000 file.rows)
    rw [reader.flatten_iterBatches] at hfile
    rw [List.flatMap_cons, List.filter_append, ← List.append_assoc]
    exact ih hfile

theorem projected_start (symbols : List String) :
    Projected symbols []
      { rowCounts := symbols.foldl (fun counts symbol => KeyedDict.set id symbol 0 counts) [] } := by
  have hstart : ∀ counts : List (String × Nat), (counts.map Prod.snd).sum = 0 →
      (∀ symbol count, KeyedDict.get id symbol counts = some count → count = 0) →
      ((symbols.foldl (fun counts symbol => KeyedDict.set id symbol 0 counts) counts).map
        Prod.snd).sum = 0 ∧
      ∀ symbol, KeyedDict.get id symbol
          (symbols.foldl (fun counts symbol => KeyedDict.set id symbol 0 counts) counts) =
        if symbol ∈ symbols then some 0 else KeyedDict.get id symbol counts := by
    induction symbols with
    | nil => exact fun counts hsum _ => ⟨hsum, fun symbol => rfl⟩
    | cons first symbols ih =>
      intro counts hsum hzero
      have hset := @KeyedDict.sum_set _ _ _ id first 0 counts
      have hrest := ih (KeyedDict.set id first 0 counts) (by omega) fun symbol count hget => by
        rw [KeyedDict.get_set, id_eq] at hget
        by_cases heq : first = symbol
        · rw [if_pos heq] at hget
          exact (Option.some.inj hget).symm
        · rw [if_neg heq] at hget
          exact hzero symbol count hget
      refine ⟨hrest.1, fun symbol => (hrest.2 symbol).trans ?_⟩
      rw [KeyedDict.get_set, id_eq]
      by_cases hm : symbol ∈ symbols
      · rw [if_pos hm, if_pos (List.mem_cons_of_mem first hm)]
      · rw [if_neg hm]
        by_cases heq : first = symbol
        · rw [if_pos heq, if_pos (heq ▸ List.mem_cons_self)]
        · have hnot : symbol ∉ first :: symbols := by
            intro hcons
            cases List.mem_cons.mp hcons with
            | inl hsame => exact heq hsame.symm
            | inr hin => exact hm hin
          rw [if_neg heq, if_neg hnot]
  obtain ⟨hsum, hget⟩ := hstart [] rfl nofun
  refine ⟨fun symbol _ => rfl, fun symbol => hget symbol, ?_⟩
  rw [hsum]
  rfl

/-- A symbol is counted once. -/
def CountsDistinct (loop : ProjectionLoop) : Prop := KeyedDict.Distinct id loop.rowCounts

theorem CountsDistinct.write (h : CountsDistinct loop)
    (group : Option String × List L2ProjectionRow) : CountsDistinct (loop.write group) := by
  unfold ProjectionLoop.write
  split
  · exact h
  · split
    · exact h
    · exact KeyedDict.distinct_set h _ _

theorem CountsDistinct.writeBatch (h : CountsDistinct loop) (batch : List TypedRow) :
    CountsDistinct (loop.writeBatch batch) := by
  unfold ProjectionLoop.writeBatch
  dsimp only
  split
  · exact h
  · have hstep : ∀ loop group, CountsDistinct loop → CountsDistinct (loop.write group) :=
      fun _ group h => h.write group
    exact foldl_preserves hstep h _

theorem countsDistinct_start (symbols : List String) : CountsDistinct
    { rowCounts := symbols.foldl (fun counts symbol => KeyedDict.set id symbol 0 counts) [] } := by
  have hstep : ∀ (counts : List (String × Nat)) (symbol : String), KeyedDict.Distinct id counts →
      KeyedDict.Distinct id (KeyedDict.set id symbol 0 counts) :=
    fun _ symbol h => KeyedDict.distinct_set h symbol 0
  have hnil : KeyedDict.Distinct id ([] : List (String × Nat)) := List.nodup_nil
  exact foldl_preserves hstep hnil symbols

theorem CountsDistinct.writeFile (h : CountsDistinct loop) (reader : BatchReader)
    (file : TypedFile) : CountsDistinct
      ((reader.iterBatches file.path 100000 file.rows).foldl ProjectionLoop.writeBatch loop) := by
  have hstep : ∀ loop batch, CountsDistinct loop → CountsDistinct (loop.writeBatch batch) :=
    fun _ batch h => h.writeBatch batch
  exact foldl_preserves hstep h _

theorem countsDistinct_projectFiles (reader : BatchReader) (symbols : List String)
    (files : List TypedFile) : CountsDistinct (projectFiles reader symbols files) := by
  have hstep : ∀ (loop : ProjectionLoop) (file : TypedFile), CountsDistinct loop →
      CountsDistinct ((reader.iterBatches file.path 100000 file.rows).foldl
        ProjectionLoop.writeBatch loop) :=
    fun _ file h => h.writeFile reader file
  exact foldl_preserves hstep (countsDistinct_start symbols) files

end Loop

/-! ## Both ways to read a symbol's rows -/

section Reading
variable (reader : BatchReader) (symbol : String)

theorem depthRows_typedRoot (files : List TypedFile) :
    depthRows reader symbol (.typedRoot files) =
      ((((sortedFiles files).flatMap TypedFile.rows).filter TypedRow.isDepth).filter
        (ofSymbol symbol)).map TypedRow.scanned := by
  have hrow : ∀ rows : List TypedRow, (rows.map TypedRow.scanned).filter (fun row =>
      row.exchangeSymbol = some (some symbol) ∧
        (row.streamType = "depth" ∨ row.streamType = "depth_snapshot")) =
      ((rows.filter TypedRow.isDepth).filter (ofSymbol symbol)).map TypedRow.scanned := by
    intro rows
    rw [List.filter_map, List.filter_filter]
    congr 1
    apply List.filter_congr
    intro row _
    apply Bool.eq_iff_iff.mpr
    constructor
    · intro hkept
      obtain ⟨hsymbol, hstream⟩ := of_decide_eq_true hkept
      exact Bool.and_eq_true_iff.mpr
        ⟨decide_eq_true (Option.some.inj hsymbol), decide_eq_true hstream⟩
    · intro hkept
      obtain ⟨hsymbol, hstream⟩ := Bool.and_eq_true_iff.mp hkept
      exact decide_eq_true ⟨congrArg some (of_decide_eq_true hsymbol), of_decide_eq_true hstream⟩
  unfold depthRows
  dsimp only
  induction sortedFiles files with
  | nil => rfl
  | cons file files ih =>
    rw [List.flatMap_cons, ih, List.flatMap_cons, List.filter_append, List.filter_append,
      List.map_append, ← hrow file.rows]
    congr 1
    conv_rhs => rw [← reader.flatten_iterBatches file.path 10000 file.rows]
    rw [List.map_flatten, List.filter_flatten, List.flatMap_def, List.map_map]
    rfl

theorem depthRows_inputPath (path : String) (rows : List L2ProjectionRow) :
    depthRows reader symbol (.inputPath path rows) = rows.map L2ProjectionRow.scanned := by
  unfold depthRows
  dsimp only
  conv_rhs => rw [← reader.flatten_iterBatches path 10000 rows]
  rw [List.map_flatten, List.flatMap_def]

end Reading

section Build
variable (reader : BatchReader) (collector utcDate : String) (normalized : NormalizedUniverse)
  (typedSourceFiles : List (String × Nat)) (typedRoot : List TypedFile)

theorem projected_files (symbols : List String) :
    Projected symbols (((sortedFiles typedRoot).flatMap TypedFile.rows).filter TypedRow.isDepth)
      (projectFiles reader symbols (sortedFiles typedRoot)) :=
  (projected_start symbols).writeFiles reader (sortedFiles typedRoot)

theorem built_of_ok {built : L2SymbolProjection}
    (h : buildL2Inputs reader collector utcDate normalized typedSourceFiles typedRoot =
      .ok built) :
    ∃ symbols, expectedSymbols collector utcDate normalized typedSourceFiles typedRoot =
        .ok symbols ∧
      let loop := projectFiles reader symbols (sortedFiles typedRoot)
      built.symbols = symbols ∧ built.shards = loop.writers ∧
      built.ignoredRows = loop.ignoredRows ∧
      built.totalRows = (loop.rowCounts.map Prod.snd).sum ∧
      ∀ symbol ∈ symbols, KeyedDict.get id symbol loop.rowCounts ≠ some 0 := by
  obtain ⟨symbols, hsymbols, hrest⟩ := exists_of_bind_ok h
  refine ⟨symbols, hsymbols, ?_⟩
  dsimp only at hrest ⊢
  split at hrest
  · cases hrest
  · rename_i hmissing
    split at hrest
    · cases hrest
    · cases hrest
      refine ⟨rfl, rfl, rfl, rfl, fun symbol _ hzero => ?_⟩
      obtain ⟨key, hm, heq⟩ := KeyedDict.mem_of_get hzero
      apply hmissing
      intro hnil
      have hempty := List.map_eq_nil_iff.mp hnil
      have hin := List.filter_eq_nil_iff.mp hempty (key, 0) hm
      exact hin (decide_eq_true rfl)

/-- What the loop over the files of a day leaves. -/
def projectedDay (reader : BatchReader) (symbols : List String) (typedRoot : List TypedFile) :
    ProjectionLoop :=
  projectFiles reader symbols (sortedFiles typedRoot)

theorem buildL2Inputs_ok {symbols : List String}
    (hsymbols : expectedSymbols collector utcDate normalized typedSourceFiles typedRoot =
      .ok symbols)
    (hrows : ∀ entry ∈ (projectedDay reader symbols typedRoot).rowCounts, entry.2 ≠ 0)
    (hsorts : none ∈ (projectedDay reader symbols typedRoot).ignoredRows.map Prod.fst →
      (projectedDay reader symbols typedRoot).ignoredRows.length ≤ 1) :
    ∃ schedule, buildL2Inputs reader collector utcDate normalized typedSourceFiles typedRoot =
      .ok {
        collectorId := collector
        utcDate
        symbols
        shards := (projectedDay reader symbols typedRoot).writers
        files := symbols.map fun symbol => (symbol,
          (KeyedDict.get id symbol (projectedDay reader symbols typedRoot).rowCounts).getD 0)
        schedule
        ignoredRows := (projectedDay reader symbols typedRoot).ignoredRows
        totalRows := ((projectedDay reader symbols typedRoot).rowCounts.map Prod.snd).sum } := by
  have hmissing : (((projectedDay reader symbols typedRoot).rowCounts.filter fun entry =>
      entry.2 = 0).map Prod.fst) = [] := by
    rw [List.map_eq_nil_iff, List.filter_eq_nil_iff]
    intro entry hm hzero
    exact hrows entry hm (of_decide_eq_true hzero)
  unfold projectedDay at hmissing hsorts ⊢
  unfold buildL2Inputs
  rw [bind_eq hsymbols rfl]
  dsimp only
  rw [if_neg (not_not.mpr hmissing), if_neg fun h => absurd (hsorts h.1) (not_le.mpr h.2)]
  exact ⟨_, rfl⟩

/-- A symbol's projection holds the rows that a scan of the typed files finds, in their order;
only the column of the symbol is left out. The rows of all projections and the ignored ones are
all depth rows. -/
theorem projection_eq_scan {symbols : List String} :
    (∀ symbol ∈ symbols, depthRows reader symbol (.typedRoot typedRoot) ≠ [] →
      ∃ shard,
        KeyedDict.get id symbol (projectedDay reader symbols typedRoot).writers = some shard ∧
        ∀ path, depthRows reader symbol (.typedRoot typedRoot) =
          (depthRows reader symbol (.inputPath path shard)).map fun row =>
            { row with exchangeSymbol := some (some symbol) }) ∧
    ((projectedDay reader symbols typedRoot).rowCounts.map Prod.snd).sum +
        ((projectedDay reader symbols typedRoot).ignoredRows.map Prod.snd).sum =
      (((sortedFiles typedRoot).flatMap TypedFile.rows).filter TypedRow.isDepth).length ∧
    (∀ built, buildL2Inputs reader collector utcDate normalized typedSourceFiles typedRoot =
        .ok built → built.symbols = symbols →
      built.shards = (projectedDay reader symbols typedRoot).writers ∧
      built.ignoredRows = (projectedDay reader symbols typedRoot).ignoredRows ∧
      built.totalRows = ((projectedDay reader symbols typedRoot).rowCounts.map Prod.snd).sum ∧
      ∀ symbol ∈ symbols, depthRows reader symbol (.typedRoot typedRoot) ≠ []) ∧
    (expectedSymbols collector utcDate normalized typedSourceFiles typedRoot = .ok symbols →
      (∀ symbol ∈ symbols, depthRows reader symbol (.typedRoot typedRoot) ≠ []) →
      (none ∈ (projectedDay reader symbols typedRoot).ignoredRows.map Prod.fst →
        (projectedDay reader symbols typedRoot).ignoredRows.length ≤ 1) →
      ∃ built, buildL2Inputs reader collector utcDate normalized typedSourceFiles typedRoot =
          .ok built ∧
        built.symbols = symbols ∧
        built.shards = (projectedDay reader symbols typedRoot).writers ∧
        built.ignoredRows = (projectedDay reader symbols typedRoot).ignoredRows ∧
        built.totalRows = ((projectedDay reader symbols typedRoot).rowCounts.map Prod.snd).sum ∧
        built.files = symbols.map fun symbol =>
          (symbol, (depthRows reader symbol (.typedRoot typedRoot)).length)) := by
  have hloop : Projected symbols _ (projectedDay reader symbols typedRoot) :=
    projected_files reader typedRoot symbols
  have hscan : ∀ symbol ∈ symbols, depthRows reader symbol (.typedRoot typedRoot) =
      ((KeyedDict.get id symbol (projectedDay reader symbols typedRoot).writers).getD []).map
        fun row => { row.scanned with exchangeSymbol := some (some symbol) } := by
    intro symbol hm
    rw [depthRows_typedRoot, hloop.rows symbol hm, List.map_map]
    apply List.map_congr_left
    intro row hrow
    have hsymbol : row.exchangeSymbol = some symbol :=
      of_decide_eq_true (List.mem_filter.mp hrow).2
    unfold TypedRow.scanned
    rw [hsymbol]
    rfl
  have hlength : ∀ symbol ∈ symbols,
      KeyedDict.get id symbol (projectedDay reader symbols typedRoot).rowCounts =
        some (depthRows reader symbol (.typedRoot typedRoot)).length := by
    intro symbol hm
    rw [hloop.counts symbol, if_pos hm, depthRows_typedRoot, List.length_map]
  refine ⟨fun symbol hm hne => ?_, hloop.total, fun built hbuilt hsymbols => ?_,
    fun hsymbols hne hsorts => ?_⟩
  · have heq := hscan symbol hm
    cases hshard : KeyedDict.get id symbol (projectedDay reader symbols typedRoot).writers with
    | none =>
      rw [hshard] at heq
      exact absurd heq hne
    | some shard =>
      rw [hshard] at heq
      refine ⟨shard, rfl, fun path => heq.trans ?_⟩
      rw [depthRows_inputPath, List.map_map]
      rfl
  · obtain ⟨found, -, hfound, hshards, hignored, htotal, hcounts⟩ :=
      built_of_ok reader collector utcDate normalized typedSourceFiles typedRoot hbuilt
    have hsame : found = symbols := hfound.symm.trans hsymbols
    subst hsame
    refine ⟨hshards, hignored, htotal, fun symbol hm hnil => ?_⟩
    apply hcounts symbol hm
    have hcount := hlength symbol hm
    rw [hnil] at hcount
    exact hcount
  · have hrows : ∀ entry ∈ (projectedDay reader symbols typedRoot).rowCounts, entry.2 ≠ 0 := by
      intro entry hm hzero
      have hget : KeyedDict.get id entry.1 (projectedDay reader symbols typedRoot).rowCounts =
          some entry.2 :=
        KeyedDict.get_of_mem (countsDistinct_projectFiles reader symbols _) hm
      have hknown : entry.1 ∈ symbols := by
        by_contra hnot
        have hcount := hloop.counts entry.1
        rw [if_neg hnot, hget] at hcount
        cases hcount
      have hempty := Option.some.inj (hget.symm.trans (hlength entry.1 hknown))
      rw [hzero] at hempty
      exact hne entry.1 hknown (List.length_eq_zero_iff.mp hempty.symm)
    obtain ⟨schedule, hbuilt⟩ := buildL2Inputs_ok reader collector utcDate normalized
      typedSourceFiles typedRoot hsymbols hrows hsorts
    refine ⟨_, hbuilt, rfl, rfl, rfl, rfl, ?_⟩
    apply List.map_congr_left
    intro symbol hm
    rw [hlength symbol hm]
    rfl

end Build

def sixtySymbols : List String := (List.range 60).map fun n => String.ofList [Char.ofNat (n + 48)]

def sixtyFile : TypedFile where
  path := "derived/typed/chunk.typed.parquet"
  sizeBytes := 1
  rows := sixtySymbols.map fun symbol =>
    { exchangeSymbol := some symbol
      columns := {
        streamType := "depth"
        connectionId := "connection"
        receiveSeq := 1
        appReceiveRealtimeNs := 1
        appReceiveMonotonicNs := 1
        exchangeEventTimeMs := none
        exchangeTransactionTimeMs := none
        payloadHash := []
        isDuplicate := false
        firstUpdateId := some 1
        finalUpdateId := some 1
        previousFinalUpdateId := some 0
        lastUpdateId := none
        bids := none
        asks := none } }

/-- One batch for each file. -/
def wholeReader : BatchReader where
  iterBatches _ _ rows := [rows]
  flatten_iterBatches _ _ _ := List.flatten_singleton

def sixtyDay : NormalizedUniverse := ⟨"edge", "1970-01-01", some sixtySymbols⟩

/-- A later file, with rows that are no depth rows, of a symbol outside the universe, and out of
the order of the symbols. -/
def lateFile : TypedFile where
  path := "derived/typed/late.typed.parquet"
  sizeBytes := 1
  rows := sixtyFile.rows.flatMap fun row => if row.exchangeSymbol = some "0" then
      [{ row with exchangeSymbol := some "z" }, { row with columns.receiveSeq := 2 },
        { row with columns.streamType := "trade" }]
    else if row.exchangeSymbol = some "1" then [row, row]
    else []

/-- One row in each batch, but for the last file of the day. -/
def rowReader : BatchReader where
  iterBatches path _ rows := if path = lateFile.path then [rows] else rows.map fun row => [row]
  flatten_iterBatches path _ rows := by
    split
    · exact List.flatten_singleton
    · rw [← List.flatMap_def, List.flatMap_singleton']

set_option maxRecDepth 20000 in
theorem projection_eq_scan_sixty :
    ∃ built shard, buildL2Inputs rowReader "edge" "1970-01-01" sixtyDay
        [(sixtyFile.path, 1), (lateFile.path, 1)] [lateFile, sixtyFile] = .ok built ∧
      built.ignoredRows = [(some "z", 1)] ∧ built.totalRows = 63 ∧
      KeyedDict.get id "0" built.shards = some shard ∧ shard.length = 2 ∧
      depthRows rowReader "0" (.typedRoot [lateFile, sixtyFile]) =
        (depthRows rowReader "0" (.inputPath "symbol=0.parquet" shard)).map fun row =>
          { row with exchangeSymbol := some (some "0") } := by
  have hsymbols : expectedSymbols "edge" "1970-01-01" sixtyDay
      [(sixtyFile.path, 1), (lateFile.path, 1)] [lateFile, sixtyFile] = .ok sixtySymbols := by
    with_unfolding_all rfl
  have hne : ∀ symbol ∈ sixtySymbols,
      depthRows rowReader symbol (.typedRoot [lateFile, sixtyFile]) ≠ [] := by
    decide +kernel
  have hignored : (projectedDay rowReader sixtySymbols [lateFile, sixtyFile]).ignoredRows =
      [(some "z", 1)] := by
    decide +kernel
  obtain ⟨hshards, -, -, hbuild⟩ := @projection_eq_scan rowReader "edge" "1970-01-01" sixtyDay
    [(sixtyFile.path, 1), (lateFile.path, 1)] [lateFile, sixtyFile] sixtySymbols
  obtain ⟨built, hbuilt, -, hwriters, hrest, htotal, -⟩ :=
    hbuild hsymbols hne fun hnone => by rw [hignored]; decide
  obtain ⟨shard, hshard, hscan⟩ := hshards "0" (by decide) (hne "0" (by decide))
  have hlength : (depthRows rowReader "0" (.typedRoot [lateFile, sixtyFile])).length = 2 := by
    decide +kernel
  refine ⟨built, shard, hbuilt, hrest.trans hignored, htotal.trans ?_, hwriters ▸ hshard, ?_,
    hscan "symbol=0.parquet"⟩
  · decide +kernel
  · rw [hscan "symbol=0.parquet", depthRows_inputPath, List.length_map, List.length_map] at hlength
    exact hlength

end MiryFormal
