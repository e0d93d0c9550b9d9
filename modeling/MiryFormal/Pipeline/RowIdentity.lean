import MiryFormal.Pipeline.TypedRows

/-!
# Identities of typed rows

`logical_identity` takes the identity of an event from its row, and `_logical_identity` takes it
from the columns of a typed file, in which what a stream does not have is null. The parser fills
every column that the identity of its stream needs.
-/

namespace MiryFormal

set_option autoImplicit false

/-- A part of an identity. A `StreamType` is its value. -/
inductive IdentityPart where
  | text (value : String)
  | int (value : Int)
  | bytes (value : Bytes)
  deriving DecidableEq

abbrev LogicalIdentity := List IdentityPart

/-- `int(row[key])` -/
def rowInt (column : Option Int) (key : String) : Except String IdentityPart :=
  match column with
  | none => .error ("KeyError: " ++ key)
  | some value => .ok (.int value)

/-- `logical_identity` -/
def logicalIdentity (row : ParsedRow) : Except String (Option LogicalIdentity) :=
  let stream := IdentityPart.text row.streamType.value
  let symbol := IdentityPart.text (row.exchangeSymbol.getD "None")
  match row.streamType with
  | .aggTrade => do
      let trade ← rowInt row.columns.aggregateTradeId "aggregate_trade_id"
      return some [stream, symbol, trade]
  | .trade => do
      let trade ← rowInt row.columns.tradeId "trade_id"
      return some [stream, symbol, trade]
  | .depth | .rpiDepth => do
      let first ← rowInt row.columns.firstUpdateId "first_update_id"
      let final ← rowInt row.columns.finalUpdateId "final_update_id"
      let previous ← rowInt row.columns.previousFinalUpdateId "previous_final_update_id"
      return some [stream, symbol, first, final, previous]
  | .bookTicker => do
      let update ← rowInt row.columns.updateId "update_id"
      return some [stream, symbol, update]
  | .markPrice => do
      let time ← rowInt row.columns.exchangeEventTimeMs "exchange_event_time_ms"
      return some [stream, symbol, time, .bytes row.payloadHash]
  | .forceOrder => do
      let time ← rowInt row.columns.exchangeEventTimeMs "exchange_event_time_ms"
      let transaction ← rowInt row.columns.exchangeTransactionTimeMs "exchange_transaction_time_ms"
      return some [stream, symbol, time, transaction, .bytes row.payloadHash]
  | .contractInfo => do
      let time ← rowInt row.columns.exchangeEventTimeMs "exchange_event_time_ms"
      return some [stream, symbol, time, .bytes row.payloadHash]
  | _ => .ok none

/-- `DEDUP_COLUMNS`, without the time of observation. -/
structure DedupColumns where
  streamType : String
  exchangeSymbol : String
  payloadHash : Bytes
  aggregateTradeId : Option Int
  tradeId : Option Int
  firstUpdateId : Option Int
  finalUpdateId : Option Int
  previousFinalUpdateId : Option Int
  updateId : Option Int
  exchangeEventTimeMs : Option Int
  exchangeTransactionTimeMs : Option Int

/-- `_required_int` -/
def requiredInt (value : Option Int) (label : String) : Except String IdentityPart :=
  match value with
  | none => .error ("typed dedup identity has no " ++ label)
  | some value => .ok (.int value)

/-- `_logical_identity` -/
def columnIdentity (columns : DedupColumns) : Except String (Option LogicalIdentity) :=
  let stream := IdentityPart.text columns.streamType
  let symbol := IdentityPart.text columns.exchangeSymbol
  if columns.streamType = "agg_trade" then do
    let trade ← requiredInt columns.aggregateTradeId "aggregate_trade_id"
    return some [stream, symbol, trade]
  else if columns.streamType = "trade" then do
    let trade ← requiredInt columns.tradeId "trade_id"
    return some [stream, symbol, trade]
  else if columns.streamType = "depth" ∨ columns.streamType = "rpi_depth" then do
    let first ← requiredInt columns.firstUpdateId "first_update_id"
    let final ← requiredInt columns.finalUpdateId "final_update_id"
    let previous ← requiredInt columns.previousFinalUpdateId "previous_final_update_id"
    return some [stream, symbol, first, final, previous]
  else if columns.streamType = "book_ticker" then do
    let update ← requiredInt columns.updateId "update_id"
    return some [stream, symbol, update]
  else if columns.streamType = "mark_price" then do
    let time ← requiredInt columns.exchangeEventTimeMs "exchange_event_time_ms"
    return some [stream, symbol, time, .bytes columns.payloadHash]
  else if columns.streamType = "force_order" then do
    let time ← requiredInt columns.exchangeEventTimeMs "exchange_event_time_ms"
    let transaction ← requiredInt columns.exchangeTransactionTimeMs "exchange_transaction_time_ms"
    return some [stream, symbol, time, transaction, .bytes columns.payloadHash]
  else if columns.streamType = "contract_info" then do
    let time ← requiredInt columns.exchangeEventTimeMs "exchange_event_time_ms"
    return some [stream, symbol, time, .bytes columns.payloadHash]
  else .ok none

/-- The columns of a row in a typed file. -/
def ParsedRow.dedupColumns (row : ParsedRow) : DedupColumns where
  streamType := row.streamType.value
  exchangeSymbol := row.exchangeSymbol.getD "None"
  payloadHash := row.payloadHash
  aggregateTradeId := row.columns.aggregateTradeId
  tradeId := row.columns.tradeId
  firstUpdateId := row.columns.firstUpdateId
  finalUpdateId := row.columns.finalUpdateId
  previousFinalUpdateId := row.columns.previousFinalUpdateId
  updateId := row.columns.updateId
  exchangeEventTimeMs := row.columns.exchangeEventTimeMs
  exchangeTransactionTimeMs := row.columns.exchangeTransactionTimeMs

/-- `_identity_key`, with the hash of what `orjson.dumps` writes. -/
def logicalIdentityKey (sha256 : Json → String) (hex : Bytes → String)
    (identity : LogicalIdentity) : String :=
  sha256 (.arr (identity.map fun part =>
    match part with
    | .bytes value => .obj [("bytes", .str (hex value))]
    | .text value => .str value
    | .int value => .str (toString value)))

/-- The columns that the identity of a stream needs. -/
def identityColumns (stream : StreamType) (columns : EventColumns) : List (Option Int) :=
  match stream with
  | .aggTrade => [columns.aggregateTradeId]
  | .trade => [columns.tradeId]
  | .depth | .rpiDepth =>
      [columns.firstUpdateId, columns.finalUpdateId, columns.previousFinalUpdateId]
  | .bookTicker => [columns.updateId]
  | .markPrice | .contractInfo => [columns.exchangeEventTimeMs]
  | .forceOrder => [columns.exchangeEventTimeMs, columns.exchangeTransactionTimeMs]
  | _ => []

/-- The typed streams whose rows have no identity. -/
def neverDeduplicated (stream : StreamType) : Prop :=
  stream ∈ [StreamType.depthSnapshot, .rpiDepthSnapshot, .openInterest, .clockSample]

/-! ## What the parser fills -/

/-- The event that a stream requires. -/
def requiredEvent (stream : StreamType) : Option String :=
  match stream with
  | .depth | .rpiDepth => some "depthUpdate"
  | .bookTicker => some "bookTicker"
  | .aggTrade => some "aggTrade"
  | .trade => some "trade"
  | .markPrice => some "markPriceUpdate"
  | .forceOrder => some "forceOrder"
  | .contractInfo => some "contractInfo"
  | _ => none

/-- The event is the required one, and the columns of the identity are filled. -/
structure IdentityFilled (data : List (String × Json)) (stream : StreamType) (columns : EventColumns) :
    Prop where
  event : ∀ expected ∈ requiredEvent stream, Json.isText expected (Json.member "e" data) = true
  identity : ∀ column ∈ identityColumns stream columns, column.isSome = true

variable {text : ParseText} {data : List (String × Json)} {columns : EventColumns}

theorem isText_of_requireEvent {expected : String} {out : Unit}
    (h : requireEvent text data expected = .ok out) :
    Json.isText expected (Json.member "e" data) = true := by
  unfold requireEvent at h
  split at h
  · assumption
  · cases h

theorem depthColumns_filled (h : depthColumns text data = .ok columns) :
    Json.isText "depthUpdate" (Json.member "e" data) = true ∧
      columns.firstUpdateId.isSome = true ∧ columns.finalUpdateId.isSome = true ∧
      columns.previousFinalUpdateId.isSome = true := by
  obtain ⟨_, hevent, h⟩ := exists_of_bind_ok h
  iterate 7 obtain ⟨_, -, h⟩ := exists_of_bind_ok h
  cases h
  exact ⟨isText_of_requireEvent hevent, rfl, rfl, rfl⟩

theorem bookTickerColumns_filled (h : bookTickerColumns text data = .ok columns) :
    Json.isText "bookTicker" (Json.member "e" data) = true ∧ columns.updateId.isSome = true := by
  obtain ⟨_, hevent, h⟩ := exists_of_bind_ok h
  iterate 7 obtain ⟨_, -, h⟩ := exists_of_bind_ok h
  cases h
  exact ⟨isText_of_requireEvent hevent, rfl⟩

theorem isText_of_tradeColumns {expected : String}
    (h : tradeColumns text data expected = .ok columns) :
    Json.isText expected (Json.member "e" data) = true := by
  obtain ⟨_, hevent, -⟩ := exists_of_bind_ok h
  exact isText_of_requireEvent hevent

theorem aggTradeColumns_filled (h : aggTradeColumns text data = .ok columns) :
    Json.isText "aggTrade" (Json.member "e" data) = true ∧
      columns.aggregateTradeId.isSome = true := by
  obtain ⟨_, htrade, h⟩ := exists_of_bind_ok h
  iterate 4 obtain ⟨_, -, h⟩ := exists_of_bind_ok h
  cases h
  exact ⟨isText_of_tradeColumns htrade, rfl⟩

theorem singleTradeColumns_filled (h : singleTradeColumns text data = .ok columns) :
    Json.isText "trade" (Json.member "e" data) = true ∧ columns.tradeId.isSome = true := by
  obtain ⟨_, htrade, h⟩ := exists_of_bind_ok h
  obtain ⟨_, -, h⟩ := exists_of_bind_ok h
  cases h
  exact ⟨isText_of_tradeColumns htrade, rfl⟩

theorem markPriceColumns_filled (h : markPriceColumns text data = .ok columns) :
    Json.isText "markPriceUpdate" (Json.member "e" data) = true ∧
      columns.exchangeEventTimeMs.isSome = true := by
  obtain ⟨_, hevent, h⟩ := exists_of_bind_ok h
  iterate 6 obtain ⟨_, -, h⟩ := exists_of_bind_ok h
  cases h
  exact ⟨isText_of_requireEvent hevent, rfl⟩

theorem forceOrderColumns_filled (h : forceOrderColumns text data = .ok columns) :
    Json.isText "forceOrder" (Json.member "e" data) = true ∧
      columns.exchangeEventTimeMs.isSome = true ∧
      columns.exchangeTransactionTimeMs.isSome = true := by
  obtain ⟨_, hevent, h⟩ := exists_of_bind_ok h
  refine ⟨isText_of_requireEvent hevent, ?_⟩
  split at h
  · iterate 11 obtain ⟨_, -, h⟩ := exists_of_bind_ok h
    cases h
    exact ⟨rfl, rfl⟩
  · cases h

theorem contractInfoColumns_filled (h : contractInfoColumns text data = .ok columns) :
    Json.isText "contractInfo" (Json.member "e" data) = true ∧
      columns.exchangeEventTimeMs.isSome = true := by
  obtain ⟨_, hevent, h⟩ := exists_of_bind_ok h
  iterate 5 obtain ⟨_, -, h⟩ := exists_of_bind_ok h
  cases h
  exact ⟨isText_of_requireEvent hevent, rfl⟩

/-- A stream without an event has no identity either. -/
theorem IdentityFilled.of_none {stream : StreamType} (hevent : requiredEvent stream = none)
    (hidentity : identityColumns stream columns = []) : IdentityFilled data stream columns where
  event expected hm := by
    rw [hevent] at hm
    cases hm
  identity column hm := by
    rw [hidentity] at hm
    cases hm

theorem IdentityFilled.of_some {stream : StreamType} {expected : String}
    (hstream : requiredEvent stream = some expected)
    (hevent : Json.isText expected (Json.member "e" data) = true)
    (hidentity : ∀ column ∈ identityColumns stream columns, column.isSome = true) :
    IdentityFilled data stream columns where
  event name hm := by
    rw [hstream] at hm
    cases hm
    exact hevent
  identity := hidentity

theorem eventColumns_filled {stream : StreamType}
    (h : eventColumns text data stream = .ok columns) : IdentityFilled data stream columns := by
  cases stream with
  | depth =>
    obtain ⟨hevent, hfirst, hfinal, hprevious⟩ := depthColumns_filled h
    exact .of_some rfl hevent (by simp [identityColumns, hfirst, hfinal, hprevious])
  | rpiDepth =>
    obtain ⟨hevent, hfirst, hfinal, hprevious⟩ := depthColumns_filled h
    exact .of_some rfl hevent (by simp [identityColumns, hfirst, hfinal, hprevious])
  | bookTicker =>
    obtain ⟨hevent, hupdate⟩ := bookTickerColumns_filled h
    exact .of_some rfl hevent (by simp [identityColumns, hupdate])
  | aggTrade =>
    obtain ⟨hevent, htrade⟩ := aggTradeColumns_filled h
    exact .of_some rfl hevent (by simp [identityColumns, htrade])
  | trade =>
    obtain ⟨hevent, htrade⟩ := singleTradeColumns_filled h
    exact .of_some rfl hevent (by simp [identityColumns, htrade])
  | markPrice =>
    obtain ⟨hevent, htime⟩ := markPriceColumns_filled h
    exact .of_some rfl hevent (by simp [identityColumns, htime])
  | forceOrder =>
    obtain ⟨hevent, htime, htransaction⟩ := forceOrderColumns_filled h
    exact .of_some rfl hevent (by simp [identityColumns, htime, htransaction])
  | contractInfo =>
    obtain ⟨hevent, htime⟩ := contractInfoColumns_filled h
    exact .of_some rfl hevent (by simp [identityColumns, htime])
  | _ => exact .of_none rfl rfl

/-! ## Identities -/

/-- Both readers of a column that is filled give the same part. -/
theorem exists_part {column : Option Int} (h : column.isSome = true) (key : String) :
    ∃ part, requiredInt column key = .ok part ∧ rowInt column key = .ok part := by
  obtain ⟨value, rfl⟩ := Option.isSome_iff_exists.mp h
  exact ⟨.int value, rfl, rfl⟩

/-- The row has one identity, and both functions find it. -/
structure SameIdentity (row : ParsedRow) (identity : Option LogicalIdentity) : Prop where
  columns : columnIdentity row.dedupColumns = .ok identity
  row : logicalIdentity row = .ok identity

theorem some_iff_never {identity : LogicalIdentity} {stream : StreamType}
    (h : stream ∉ [StreamType.depthSnapshot, .rpiDepthSnapshot, .openInterest, .clockSample]) :
    some identity = none ↔ neverDeduplicated stream :=
  iff_of_false (Option.some_ne_none _) h

theorem sameIdentity_of_filled {row : ParsedRow}
    (h : ∀ column ∈ identityColumns row.streamType row.columns, column.isSome = true)
    (htyped : row.streamType ∈ typedStreams) :
    ∃ identity, SameIdentity row identity ∧
      (identity = none ↔ neverDeduplicated row.streamType) := by
  obtain ⟨_, symbol, stream, _, _, _, _, _, hash, _, columns⟩ := row
  dsimp only at h htyped ⊢
  cases stream with
  | aggTrade =>
    obtain ⟨trade, hcolumn, hrow⟩ := exists_part (h _ (.head _)) "aggregate_trade_id"
    exact ⟨_, ⟨bind_eq hcolumn rfl, bind_eq hrow rfl⟩, some_iff_never (by decide)⟩
  | trade =>
    obtain ⟨trade, hcolumn, hrow⟩ := exists_part (h _ (.head _)) "trade_id"
    exact ⟨_, ⟨bind_eq hcolumn rfl, bind_eq hrow rfl⟩, some_iff_never (by decide)⟩
  | depth | rpiDepth =>
    obtain ⟨first, hfirst, hfirst'⟩ := exists_part (h _ (.head _)) "first_update_id"
    obtain ⟨final, hfinal, hfinal'⟩ := exists_part (h _ (.tail _ (.head _))) "final_update_id"
    obtain ⟨previous, hprevious, hprevious'⟩ :=
      exists_part (h _ (.tail _ (.tail _ (.head _)))) "previous_final_update_id"
    exact ⟨_, ⟨bind_eq hfirst (bind_eq hfinal (bind_eq hprevious rfl)),
      bind_eq hfirst' (bind_eq hfinal' (bind_eq hprevious' rfl))⟩, some_iff_never (by decide)⟩
  | bookTicker =>
    obtain ⟨update, hcolumn, hrow⟩ := exists_part (h _ (.head _)) "update_id"
    exact ⟨_, ⟨bind_eq hcolumn rfl, bind_eq hrow rfl⟩, some_iff_never (by decide)⟩
  | markPrice | contractInfo =>
    obtain ⟨time, hcolumn, hrow⟩ := exists_part (h _ (.head _)) "exchange_event_time_ms"
    exact ⟨_, ⟨bind_eq hcolumn rfl, bind_eq hrow rfl⟩, some_iff_never (by decide)⟩
  | forceOrder =>
    obtain ⟨time, htime, htime'⟩ := exists_part (h _ (.head _)) "exchange_event_time_ms"
    obtain ⟨transaction, htransaction, htransaction'⟩ :=
      exists_part (h _ (.tail _ (.head _))) "exchange_transaction_time_ms"
    exact ⟨_, ⟨bind_eq htime (bind_eq htransaction rfl),
      bind_eq htime' (bind_eq htransaction' rfl)⟩, some_iff_never (by decide)⟩
  | depthSnapshot | rpiDepthSnapshot | openInterest | clockSample =>
    exact ⟨none, ⟨rfl, rfl⟩, iff_of_true rfl (by simp [neverDeduplicated])⟩
  | _ => exact absurd htyped (by decide)

/-- The columns of a row that the parser returns have the identity of the row, under the same key.
The rows of the streams that are not deduplicated have none. -/
theorem columnIdentity_eq_logicalIdentity (text : ParseText) (sha256 : Json → String)
    (hex : Bytes → String) (row : RawRow) (parsed : ParsedRow)
    (h : parseTypedRow text row = .ok (some parsed)) :
    ∃ identity, columnIdentity parsed.dedupColumns = .ok identity ∧
      logicalIdentity parsed = .ok identity ∧
      (columnIdentity parsed.dedupColumns).map (Option.map (logicalIdentityKey sha256 hex)) =
        (logicalIdentity parsed).map (Option.map (logicalIdentityKey sha256 hex)) ∧
      (identity = none ↔ neverDeduplicated parsed.streamType) := by
  obtain ⟨stream, -, data, -, htyped, -, -, hrow⟩ := eventRow_of_parseTypedRow h
  have hfrom := eventRow_spec hrow
  obtain rfl := hfrom.streamType
  obtain ⟨identity, hsame, hnever⟩ :=
    sameIdentity_of_filled (eventColumns_filled hfrom.columns).identity htyped
  exact ⟨identity, hsame.columns, hsame.row, by rw [hsame.columns, hsame.row], hnever⟩

/-! ## A contract -/

def asciiBytes (text : String) : Bytes := text.toList.map fun c => UInt8.ofNat c.toNat

def contractFrame : Bytes := asciiBytes
  ("\x7b\"e\":\"contractInfo\",\"E\":1,\"s\":\"BTCUSDT\",\"ct\":\"PERPETUAL\",\"dt\":2,\"ot\":3," ++
    "\"cs\":\"TRADING\"\x7d")

def contractData : List (String × Json) :=
  [("e", .str "contractInfo"), ("E", .int 1), ("s", .str "BTCUSDT"), ("ct", .str "PERPETUAL"),
    ("dt", .int 2), ("ot", .int 3), ("cs", .str "TRADING")]

/-- The SHA-256 of the data with its keys in order. -/
def contractHash : Bytes :=
  [63, 104, 239, 190, 216, 29, 215, 1, 62, 205, 149, 121, 253, 109, 80, 101, 219, 119, 163, 202,
    211, 94, 74, 64, 160, 140, 11, 109, 82, 94, 233, 128]

/-- A reader that knows this frame only. -/
def contractText : ParseText where
  toFrameText := asciiFrameText fun raw =>
    if raw = contractFrame then some (.obj contractData) else none
  decimalOf _ := none
  payloadHash _ := .ok contractHash

def contractRow : RawRow where
  exchangeSymbol := some "BTCUSDT"
  streamType := "contract_info"
  connectionId := "connection"
  receiveSeq := 1
  appReceiveRealtimeNs := 2
  appReceiveMonotonicNs := 1
  payloadBytes := contractFrame
  requestRealtimeNs := none

def contractParsed : ParsedRow where
  exchangeSymbol := some "BTCUSDT"
  streamType := .contractInfo
  connectionId := "connection"
  receiveSeq := 1
  appReceiveRealtimeNs := 2
  appReceiveMonotonicNs := 1
  requestRealtimeNs := none
  payloadHash := contractHash
  columns := {
    exchangeEventTimeMs := some 1
    contractType := some "PERPETUAL"
    deliveryDateMs := some 2
    onboardDateMs := some 3
    contractStatus := some "TRADING" }

def contractHex : String := "3f68efbed81dd7013ecd9579fd6d5065db77a3cad35e4a40a08c0b6d525ee980"

def contractKey : String := "bfe17195f1ff7fe349c939fbb4a4d812d004354371637040751b0925e9ce0d57"

theorem columnIdentity_contract :
    ∃ identity, columnIdentity contractParsed.dedupColumns = .ok identity ∧
      logicalIdentity contractParsed = .ok identity ∧
      (columnIdentity contractParsed.dedupColumns).map (Option.map
          (logicalIdentityKey (fun _ => contractKey) (fun _ => contractHex))) =
        (logicalIdentity contractParsed).map (Option.map
          (logicalIdentityKey (fun _ => contractKey) (fun _ => contractHex))) ∧
      (identity = none ↔ neverDeduplicated contractParsed.streamType) := by
  apply columnIdentity_eq_logicalIdentity contractText (fun _ => contractKey)
    (fun _ => contractHex) contractRow contractParsed
  with_unfolding_all rfl

end MiryFormal
