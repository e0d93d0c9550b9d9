import MiryFormal.Contracts.GapEvents
import MiryFormal.Contracts.Symbols
import MiryFormal.Shared.Json
import MiryFormal.Contracts.Chunks

/-!
# Frames of a WebSocket

`decode_websocket` classifies a frame when it is received, and `SourceIdentity.event` makes a raw
event of it.
-/

namespace MiryFormal

set_option autoImplicit false

/-- How bytes and texts are read. `loads` is `orjson.loads`, and gives nothing for bytes that are no
document. An upper case text stays as it is in upper case. -/
structure FrameText where
  loads : Bytes → Option Json
  reading : Json.Reading
  lower : String → String
  upper : String → String
  symbols : SymbolText
  upper_upper : ∀ value, upper (upper value) = upper value
  upper_eq_empty : ∀ value, upper value = "" → value = ""

namespace Json

/-- `bool(value)` -/
def truthy : Json → Bool
  | .null => false
  | .bool value => value
  | .int value => value ≠ 0
  | .float text => text ≠ "0.0" ∧ text ≠ "-0.0"
  | .str value => value ≠ ""
  | .arr items => !items.isEmpty
  | .obj members => !members.isEmpty

/-- `isinstance(value, list)` -/
def isList : Json → Bool
  | .arr _ => true
  | _ => false

/-- `isinstance(value, dict)` -/
def isObject : Json → Bool
  | .obj _ => true
  | _ => false

/-- `str(document.get(key, ""))` -/
def memberText (reading : Reading) (key : String) (members : List (String × Json)) : String :=
  match member key members with
  | some value => value.toText reading
  | none => ""

end Json

/-! ## Upper case of ASCII -/

theorem toUpper_of_not {c : Char} (h : ¬('a'.val ≤ c.val ∧ c.val ≤ 'z'.val)) : c.toUpper = c :=
  dif_neg h

theorem toUpper_toUpper (c : Char) : c.toUpper.toUpper = c.toUpper := by
  by_cases h : 'a'.val ≤ c.val ∧ c.val ≤ 'z'.val
  · have hval : c.toUpper.val = c.val + ('A'.val - 'a'.val) := by
      unfold Char.toUpper
      rw [dif_pos h]
    apply toUpper_of_not
    rw [hval]
    simp only [UInt32.le_iff_toNat_le, UInt32.toNat_add] at h ⊢
    have hfirst : 'a'.val.toNat = 97 := rfl
    have hlast : 'z'.val.toNat = 122 := rfl
    have hshift : ('A'.val - 'a'.val).toNat = 2 ^ 32 - 32 := by decide
    omega
  · rw [toUpper_of_not h, toUpper_of_not h]

/-- The methods on ASCII, for a reader of documents. A text that is no integer cannot be read. -/
def asciiFrameText (loads : Bytes → Option Json) : FrameText where
  loads
  reading := ⟨fun _ => .error "ValueError", fun _ => .error "ValueError", fun _ => ""⟩
  lower := String.toLower
  upper := String.toUpper
  symbols := asciiText
  upper_upper value := by
    unfold String.toUpper
    rw [String.map_map]
    congr 1
    funext c
    exact toUpper_toUpper c
  upper_eq_empty _ := String.map_eq_empty.mp

/-! ## decode_websocket -/

structure DecodedWebSocket where
  streamType : StreamType
  symbol : Option String := none
  message : Option (List (String × Json)) := none
  data : Option (List (String × Json)) := none

/-- `"@rpidepth@" in stream` -/
def inStream (part stream : String) : Bool := part.toList <:+: stream.toList

/-- The `mapping` of `decode_websocket`. -/
def eventMapping (eventType : String) : StreamType :=
  if eventType = "bookTicker" then .bookTicker
  else if eventType = "aggTrade" then .aggTrade
  else if eventType = "trade" then .trade
  else if eventType = "markPriceUpdate" then .markPrice
  else if eventType = "forceOrder" then .forceOrder
  else if eventType = "contractInfo" then .contractInfo
  else .unknown

section Decode
variable (text : FrameText)

/-- `symbol_value` -/
def symbolValue (eventType : String) (data : List (String × Json)) : Option Json :=
  match Json.member "o" data with
  | some (.obj order) =>
      if eventType = "forceOrder" then Json.member "s" order else Json.member "s" data
  | _ => Json.member "s" data

/-- `str(symbol_value).upper() if symbol_value else None` -/
def decodedSymbol (value : Option Json) : Option String :=
  match value with
  | some value => if value.truthy then some (text.upper (value.toText text.reading)) else none
  | none => none

/-- The end of `decode_websocket`, on the data of an event. -/
def decodeEvent (stream : String) (message data : List (String × Json)) : DecodedWebSocket :=
  let eventType := Json.memberText text.reading "e" data
  let symbol := decodedSymbol text (symbolValue eventType data)
  if eventType = "depthUpdate" then
    ⟨if inStream "@rpidepth@" stream then .rpiDepth else .depth, symbol, some message, some data⟩
  else ⟨eventMapping eventType, symbol, some message, some data⟩

/-- `message.get("data", message)` -/
def messageData (message : List (String × Json)) : Json :=
  (Json.member "data" message).getD (.obj message)

/-- `"result" in message or ("id" in message and "data" not in message)` -/
def isControl (message : List (String × Json)) : Bool :=
  (Json.member "result" message).isSome ∨
    (Json.member "id" message).isSome ∧ (Json.member "data" message).isNone

def decodeMessage (message : List (String × Json)) : DecodedWebSocket :=
  if isControl message then ⟨.wsControl, none, some message, none⟩
  else
    match messageData message with
    | .obj data =>
        decodeEvent text (text.lower (Json.memberText text.reading "stream" message)) message data
    | _ => ⟨.unknown, none, some message, none⟩

def decodeWebsocket (raw : Bytes) : DecodedWebSocket :=
  match text.loads raw with
  | some (.obj message) => decodeMessage text message
  | _ => ⟨.unknown, none, none, none⟩

end Decode

/-! ## The raw row -/

/-- The columns of a raw chunk that are read to parse it. -/
structure RawRow where
  exchangeSymbol : Option String
  streamType : String
  connectionId : String
  receiveSeq : Int
  appReceiveRealtimeNs : Int
  appReceiveMonotonicNs : Int
  payloadBytes : Bytes
  requestRealtimeNs : Option Int

/-- The place of a frame on its connection, and the clocks at its reception. -/
structure Reception where
  connectionId : String
  receiveSeq : Nat
  realtimeNs : Nat
  monotonicNs : Nat
  connection_ne : connectionId ≠ "" := by decide
  receiveSeq_pos : 0 < receiveSeq := by decide

/-- What `_receive_loop` preserves of a frame. `RawEvent` checks the symbol and the payload. -/
def receivedRow (text : FrameText) (reception : Reception) (raw : Bytes) : Except String RawRow :=
  let decoded := decodeWebsocket text raw
  if decoded.symbol.any (fun symbol => !isExchangeSymbol text.symbols symbol) then
    .error "invalid exchange_symbol"
  else if raw = [] then .error "payload_bytes cannot be empty"
  else .ok {
    exchangeSymbol := decoded.symbol
    streamType := decoded.streamType.value
    connectionId := reception.connectionId
    receiveSeq := reception.receiveSeq
    appReceiveRealtimeNs := reception.realtimeNs
    appReceiveMonotonicNs := reception.monotonicNs
    payloadBytes := raw
    requestRealtimeNs := none }

end MiryFormal
