import MiryFormal.Contracts.Frames
import MiryFormal.Pipeline.ZeroText
import MiryFormal.Shared.Fallible

/-!
# Typed rows

`parse_typed_row` reads the payload of a raw row. The rows of the streams that are not typed are
only checked to be documents; of the others the fields of the event become columns.
-/

namespace MiryFormal

set_option autoImplicit false

/-- What the parser uses beside. `decimalOf` is `Decimal(text)`; `payloadHash` is the SHA-256 of
what `orjson.dumps` writes, which may fail. -/
structure ParseText extends FrameText where
  decimalOf : String → Option ParsedDecimal
  payloadHash : Json → Except String Bytes

/-- The columns that depend on the stream. -/
structure EventColumns where
  exchangeEventTimeMs : Option Int := none
  exchangeTransactionTimeMs : Option Int := none
  firstUpdateId : Option Int := none
  finalUpdateId : Option Int := none
  previousFinalUpdateId : Option Int := none
  lastUpdateId : Option Int := none
  updateId : Option Int := none
  bids : Option (List (String × String)) := none
  asks : Option (List (String × String)) := none
  bidPrice : Option String := none
  bidQuantity : Option String := none
  askPrice : Option String := none
  askQuantity : Option String := none
  price : Option String := none
  quantity : Option String := none
  buyerIsMaker : Option Bool := none
  aggregateTradeId : Option Int := none
  firstTradeId : Option Int := none
  lastTradeId : Option Int := none
  nonRpiQuantity : Option String := none
  tradeId : Option Int := none
  markPrice : Option String := none
  indexPrice : Option String := none
  estimatedSettlePrice : Option String := none
  fundingRate : Option String := none
  nextFundingTimeMs : Option Int := none
  side : Option String := none
  orderType : Option String := none
  timeInForce : Option String := none
  orderStatus : Option String := none
  averagePrice : Option String := none
  lastFilledQuantity : Option String := none
  accumulatedFilledQuantity : Option String := none
  contractType : Option String := none
  deliveryDateMs : Option Int := none
  onboardDateMs : Option Int := none
  contractStatus : Option String := none
  openInterest : Option String := none

structure ParsedRow where
  schemaVersion : Int := 1
  exchangeSymbol : Option String
  streamType : StreamType
  connectionId : String
  receiveSeq : Int
  appReceiveRealtimeNs : Int
  appReceiveMonotonicNs : Int
  requestRealtimeNs : Option Int
  payloadHash : Bytes
  isDuplicate : Bool := false
  columns : EventColumns

/-! ## Fields -/

section Fields
variable (text : ParseText) (data : List (String × Json)) (key : String)

/-- `_int` -/
def intField : Except String Int :=
  match Json.member key data with
  | none => .error ("KeyError: " ++ key)
  | some (.bool _) => .error (key ++ " must be an integer")
  | some value => value.toInt text.reading

/-- `_optional_int` -/
def optionalIntField : Except String (Option Int) :=
  if (Json.member key data).isSome then (intField text data key).map some else .ok none

/-- `_bool` -/
def boolField : Except String Bool :=
  match Json.member key data with
  | none => .error ("KeyError: " ++ key)
  | some (.bool value) => .ok value
  | some _ => .error (key ++ " must be a boolean")

/-- `_decimal` -/
def decimalField (allowZero allowNegative : Bool) : Except String String :=
  match Json.member key data with
  | none => .error (key ++ " must be a decimal")
  | some value => levelDecimal text.decimalOf (value.toText text.reading) key allowZero allowNegative

/-- `_optional_decimal` -/
def optionalDecimalField : Except String (Option String) :=
  if (Json.member key data).isSome then (decimalField text data key true false).map some
  else .ok none

/-- `str(data[key])` -/
def textField : Except String String :=
  match Json.member key data with
  | none => .error ("KeyError: " ++ key)
  | some value => .ok (value.toText text.reading)

/-- One round of the loop of `_levels`. -/
def levelField (level : Json) : Except String (String × String) :=
  match level with
  | .arr (price :: quantity :: _) => do
      let price ← levelDecimal text.decimalOf (price.toText text.reading) "p" false false
      let quantity ← levelDecimal text.decimalOf (quantity.toText text.reading) "q" true false
      return (price, quantity)
  | _ => .error ("invalid level in " ++ key)

/-- `_levels` -/
def levelsField : Except String (List (String × String)) :=
  match Json.member key data with
  | some (.arr levels) => levels.mapM (levelField text key)
  | _ => .error (key ++ " must be an array")

/-- `_require_event` -/
def requireEvent (expected : String) : Except String Unit :=
  if Json.isText expected (Json.member "e" data) = true then .ok ()
  else .error ("expected Binance event " ++ text.reading.repr (.str expected) ++ ", got " ++
    text.reading.repr ((Json.member "e" data).getD .null))

end Fields

/-! ## The columns of the streams -/

section Columns
variable (text : ParseText) (data : List (String × Json))

def depthColumns : Except String EventColumns := do
  requireEvent text data "depthUpdate"
  let eventTime ← intField text data "E"
  let transactionTime ← intField text data "T"
  let first ← intField text data "U"
  let final ← intField text data "u"
  let previous ← intField text data "pu"
  let bids ← levelsField text data "b"
  let asks ← levelsField text data "a"
  return {
    exchangeEventTimeMs := some eventTime
    exchangeTransactionTimeMs := some transactionTime
    firstUpdateId := some first
    finalUpdateId := some final
    previousFinalUpdateId := some previous
    bids := some bids
    asks := some asks }

def snapshotColumns : Except String EventColumns := do
  let eventTime ← optionalIntField text data "E"
  let transactionTime ← optionalIntField text data "T"
  let last ← intField text data "lastUpdateId"
  let bids ← levelsField text data "bids"
  let asks ← levelsField text data "asks"
  return {
    exchangeEventTimeMs := eventTime
    exchangeTransactionTimeMs := transactionTime
    lastUpdateId := some last
    bids := some bids
    asks := some asks }

def bookTickerColumns : Except String EventColumns := do
  requireEvent text data "bookTicker"
  let eventTime ← intField text data "E"
  let transactionTime ← intField text data "T"
  let update ← intField text data "u"
  let bidPrice ← decimalField text data "b" false false
  let bidQuantity ← decimalField text data "B" true false
  let askPrice ← decimalField text data "a" false false
  let askQuantity ← decimalField text data "A" true false
  return {
    exchangeEventTimeMs := some eventTime
    exchangeTransactionTimeMs := some transactionTime
    updateId := some update
    bidPrice := some bidPrice
    bidQuantity := some bidQuantity
    askPrice := some askPrice
    askQuantity := some askQuantity }

/-- What aggregate and single trades share. -/
def tradeColumns (expected : String) : Except String EventColumns := do
  requireEvent text data expected
  let eventTime ← intField text data "E"
  let transactionTime ← intField text data "T"
  let price ← decimalField text data "p" false false
  let quantity ← decimalField text data "q" false false
  let buyerIsMaker ← boolField data "m"
  return {
    exchangeEventTimeMs := some eventTime
    exchangeTransactionTimeMs := some transactionTime
    price := some price
    quantity := some quantity
    buyerIsMaker := some buyerIsMaker }

def aggTradeColumns : Except String EventColumns := do
  let columns ← tradeColumns text data "aggTrade"
  let aggregate ← intField text data "a"
  let first ← intField text data "f"
  let last ← intField text data "l"
  let nonRpi ← optionalDecimalField text data "nq"
  return { columns with
    aggregateTradeId := some aggregate
    firstTradeId := some first
    lastTradeId := some last
    nonRpiQuantity := nonRpi }

def singleTradeColumns : Except String EventColumns := do
  let columns ← tradeColumns text data "trade"
  let trade ← intField text data "t"
  return { columns with tradeId := some trade }

def markPriceColumns : Except String EventColumns := do
  requireEvent text data "markPriceUpdate"
  let eventTime ← intField text data "E"
  let markPrice ← decimalField text data "p" false false
  let indexPrice ← decimalField text data "i" false false
  let settlePrice ← decimalField text data "P" true false
  let fundingRate ← decimalField text data "r" true true
  let nextFunding ← intField text data "T"
  return {
    exchangeEventTimeMs := some eventTime
    markPrice := some markPrice
    indexPrice := some indexPrice
    estimatedSettlePrice := some settlePrice
    fundingRate := some fundingRate
    nextFundingTimeMs := some nextFunding }

/-- The fields of a liquidation, and those of its order. -/
def orderColumns (order : List (String × Json)) : Except String EventColumns := do
  let eventTime ← intField text data "E"
  let transactionTime ← intField text order "T"
  let side ← textField text order "S"
  let orderType ← textField text order "o"
  let timeInForce ← textField text order "f"
  let status ← textField text order "X"
  let price ← decimalField text order "p" true false
  let quantity ← decimalField text order "q" false false
  let average ← decimalField text order "ap" true false
  let lastFilled ← decimalField text order "l" true false
  let accumulated ← decimalField text order "z" true false
  return {
    exchangeEventTimeMs := some eventTime
    exchangeTransactionTimeMs := some transactionTime
    side := some side
    orderType := some orderType
    timeInForce := some timeInForce
    orderStatus := some status
    price := some price
    quantity := some quantity
    averagePrice := some average
    lastFilledQuantity := some lastFilled
    accumulatedFilledQuantity := some accumulated }

def forceOrderColumns : Except String EventColumns := do
  requireEvent text data "forceOrder"
  match Json.member "o" data with
  | some (.obj order) => orderColumns text data order
  | _ => .error "forceOrder payload has no order object"

def contractInfoColumns : Except String EventColumns := do
  requireEvent text data "contractInfo"
  let eventTime ← intField text data "E"
  let contractType ← textField text data "ct"
  let deliveryDate ← intField text data "dt"
  let onboardDate ← intField text data "ot"
  let status ← textField text data "cs"
  return {
    exchangeEventTimeMs := some eventTime
    contractType := some contractType
    deliveryDateMs := some deliveryDate
    onboardDateMs := some onboardDate
    contractStatus := some status }

def openInterestColumns : Except String EventColumns := do
  let eventTime ← intField text data "time"
  let openInterest ← decimalField text data "openInterest" true false
  return { exchangeEventTimeMs := some eventTime, openInterest := some openInterest }

def clockSampleColumns : Except String EventColumns :=
  (intField text data "serverTime").map fun time => { exchangeEventTimeMs := some time }

/-- The branches of `parse_typed_row`; the other streams are not typed. -/
def eventColumns (stream : StreamType) : Except String EventColumns :=
  match stream with
  | .depth | .rpiDepth => depthColumns text data
  | .depthSnapshot | .rpiDepthSnapshot => snapshotColumns text data
  | .bookTicker => bookTickerColumns text data
  | .aggTrade => aggTradeColumns text data
  | .trade => singleTradeColumns text data
  | .markPrice => markPriceColumns text data
  | .forceOrder => forceOrderColumns text data
  | .contractInfo => contractInfoColumns text data
  | .openInterest => openInterestColumns text data
  | .clockSample => clockSampleColumns text data
  | _ => .ok {}

end Columns

/-! ## Rows -/

/-- `TYPED_STREAMS` -/
def typedStreams : List StreamType :=
  [.depth, .rpiDepth, .depthSnapshot, .rpiDepthSnapshot, .bookTicker, .aggTrade, .trade,
    .markPrice, .forceOrder, .contractInfo, .openInterest, .clockSample]

/-- `OBJECT_STREAM_VALUES` -/
def objectStreams : List StreamType :=
  [.exchangeInfo, .dailyKlines, .liquidityDepth, .formalCollectionStarted, .universeDecision,
    .wsControl]

def StreamType.all : List StreamType :=
  typedStreams ++ [.exchangeInfo, .marketTickers, .dailyKlines, .liquidityDepth,
    .universeDecision, .formalCollectionStarted, .wsControl, .unknown]

/-- `StreamType(value)` -/
def StreamType.ofValue (value : String) : Option StreamType :=
  StreamType.all.find? fun stream => stream.value = value

section Rows
variable (text : ParseText)

/-- `_event_symbol` -/
def eventSymbol (data : List (String × Json)) : String :=
  match Json.member "o" data with
  | some (.obj order) => Json.memberText text.reading "s" order
  | _ => Json.memberText text.reading "s" data

/-- `raw_row.get("exchange_symbol") or _event_symbol(data)`, in upper case. -/
def rowSymbol (exchangeSymbol : Option String) (data : List (String × Json)) : Option String :=
  let value := if exchangeSymbol.getD "" = "" then eventSymbol text data else exchangeSymbol.getD ""
  if value = "" then none else some (text.upper value)

/-- A row of a stream that is not typed. -/
def checkDocument (stream : StreamType) (payload : Bytes) : Except String (Option ParsedRow) :=
  match text.loads payload with
  | none => .error "orjson.JSONDecodeError"
  | some value =>
      if stream = .marketTickers ∧ value.isList = false then
        .error "market tickers payload must be an array"
      else if stream ∈ objectStreams ∧ value.isObject = false then
        .error (stream.value ++ " payload must be an object")
      else .ok none

/-- The row of an event. -/
def eventRow (row : RawRow) (stream : StreamType) (data : List (String × Json)) :
    Except String (Option ParsedRow) :=
  let symbol := rowSymbol text row.exchangeSymbol data
  if symbol.getD "" = "" ∧ stream ≠ .clockSample then
    .error (stream.value ++ " event has no symbol")
  else do
    let payloadHash ← text.payloadHash (.obj data)
    let columns ← eventColumns text data stream
    return some {
      exchangeSymbol := symbol
      streamType := stream
      connectionId := row.connectionId
      receiveSeq := row.receiveSeq
      appReceiveRealtimeNs := row.appReceiveRealtimeNs
      appReceiveMonotonicNs := row.appReceiveMonotonicNs
      requestRealtimeNs := row.requestRealtimeNs
      payloadHash
      columns }

/-- `parse_typed_row` -/
def parseTypedRow (row : RawRow) : Except String (Option ParsedRow) :=
  match StreamType.ofValue row.streamType with
  | none => .error (text.reading.repr (.str row.streamType) ++ " is not a valid StreamType")
  | some stream =>
      if stream ∈ typedStreams then
        match text.loads row.payloadBytes with
        | some (.obj payload) =>
            match messageData payload with
            | .obj data => eventRow text row stream data
            | _ => .error "Binance event data must be an object"
        | some _ => .error "Binance payload must be a JSON object"
        | none => .error "orjson.JSONDecodeError"
      else checkDocument text stream row.payloadBytes

@[simp] theorem StreamType.ofValue_value (stream : StreamType) :
    StreamType.ofValue stream.value = some stream := by
  cases stream <;> rfl

variable {text} {row : RawRow} {stream : StreamType} {data : List (String × Json)}
  {parsed : ParsedRow}

/-- What `eventRow` has found when it returns a row. -/
structure FromEvent (text : ParseText) (row : RawRow) (stream : StreamType)
    (data : List (String × Json)) (parsed : ParsedRow) : Prop where
  streamType : parsed.streamType = stream
  symbol : parsed.exchangeSymbol = rowSymbol text row.exchangeSymbol data
  named : stream ≠ .clockSample → parsed.exchangeSymbol.getD "" ≠ ""
  hash : text.payloadHash (.obj data) = .ok parsed.payloadHash
  columns : eventColumns text data stream = .ok parsed.columns

theorem eventRow_spec (h : eventRow text row stream data = .ok (some parsed)) :
    FromEvent text row stream data parsed := by
  unfold eventRow at h
  dsimp only at h
  split at h
  · cases h
  · rename_i hnamed
    obtain ⟨hash, hhash, h⟩ := exists_of_bind_ok h
    obtain ⟨columns, hcolumns, h⟩ := exists_of_bind_ok h
    cases h
    exact ⟨rfl, rfl, fun hclock hempty => hnamed ⟨hempty, hclock⟩, hhash, hcolumns⟩

theorem eventRow_returns {hash : Bytes} {columns : EventColumns}
    (hnamed : (rowSymbol text row.exchangeSymbol data).getD "" ≠ "")
    (hhash : text.payloadHash (.obj data) = .ok hash)
    (hcolumns : eventColumns text data stream = .ok columns) :
    ∃ parsed, eventRow text row stream data = .ok (some parsed) := by
  unfold eventRow
  dsimp only
  rw [if_neg fun h => hnamed h.1]
  exact ⟨_, bind_eq hhash (bind_eq hcolumns rfl)⟩

/-- A row comes from the event of its payload. -/
theorem eventRow_of_parseTypedRow (h : parseTypedRow text row = .ok (some parsed)) :
    ∃ stream message data, StreamType.ofValue row.streamType = some stream ∧
      stream ∈ typedStreams ∧ text.loads row.payloadBytes = some (.obj message) ∧
      messageData message = .obj data ∧ eventRow text row stream data = .ok (some parsed) := by
  unfold parseTypedRow at h
  split at h
  · cases h
  · rename_i stream hstream
    split at h
    · rename_i htyped
      split at h
      · rename_i message hloads
        split at h
        · rename_i data hdata
          exact ⟨stream, message, data, hstream, htyped, hloads, hdata, h⟩
        · cases h
      · cases h
      · cases h
    · unfold checkDocument at h
      split at h
      · cases h
      · split at h
        · cases h
        · split at h <;> cases h

end Rows

end MiryFormal
