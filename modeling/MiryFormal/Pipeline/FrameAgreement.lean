import MiryFormal.Pipeline.RowIdentity

/-!
# Frames when they are received and when their day is parsed

`decode_websocket` gives every frame a stream and a symbol, and the frame is preserved.
`parse_typed_row` reads it again. The two agree, except on two kinds of frames: of one that is no
document nothing can be parsed, and an event whose symbol is false may get a symbol from the parser.
-/

namespace MiryFormal

set_option autoImplicit false

/-- The stream and the symbol of a frame, and what the parser makes of its row. -/
structure FrameAgrees (text : ParseText) (decoded : DecodedWebSocket) (row : RawRow) : Prop where
  preserved : decoded.streamType = .unknown ∨ decoded.streamType = .wsControl →
    parseTypedRow text row = .ok none
  parsed : ∀ parsed, parseTypedRow text row = .ok (some parsed) →
    parsed.streamType = decoded.streamType ∧ parsed.exchangeSymbol = decoded.symbol ∧
      ∃ message data expected, text.loads row.payloadBytes = some (.obj message) ∧
        messageData message = .obj data ∧ decoded.data = some data ∧
        requiredEvent parsed.streamType = some expected ∧
        Json.isText expected (Json.member "e" data) = true ∧
        Json.memberText text.reading "e" data = expected

/-! ## Events -/

/-- The stream of an event, which for a depth event may also be the other one. -/
def eventStream (eventType : String) : StreamType :=
  if eventType = "depthUpdate" then .depth else eventMapping eventType

theorem eventMapping_spec (eventType : String) : eventMapping eventType = .unknown ∨
    requiredEvent (eventMapping eventType) = some eventType := by
  unfold eventMapping
  iterate 6
    split
    · exact .inr (congrArg some (Eq.symm (by assumption)))
  exact .inl rfl

theorem typed_of_required {stream : StreamType} {eventType : String}
    (h : requiredEvent stream = some eventType) : stream ∈ typedStreams := by
  cases stream <;> first | decide | cases h

/-- The stream that a known event has, whichever it is, has the columns of the event. -/
theorem eventColumns_eventStream {text : ParseText} {stream : StreamType} {eventType : String}
    (data : List (String × Json)) (h : requiredEvent stream = some eventType) :
    eventColumns text data stream = eventColumns text data (eventStream eventType) := by
  cases stream with
  | depth | rpiDepth | bookTicker | aggTrade | trade | markPrice | forceOrder | contractInfo =>
    cases h
    rfl
  | _ => cases h

section Decoded
variable (text : FrameText) (stream : String) (message data : List (String × Json))

theorem decodeEvent_data : (decodeEvent text stream message data).data = some data := by
  unfold decodeEvent
  dsimp only
  split <;> rfl

theorem decodeEvent_symbol : (decodeEvent text stream message data).symbol =
    decodedSymbol text (symbolValue (Json.memberText text.reading "e" data) data) := by
  unfold decodeEvent
  dsimp only
  split <;> rfl

/-- A known event gets a stream that requires it. -/
theorem decodeEvent_stream :
    (decodeEvent text stream message data).streamType = .unknown ∧
        eventStream (Json.memberText text.reading "e" data) = .unknown ∨
      requiredEvent (decodeEvent text stream message data).streamType =
          some (Json.memberText text.reading "e" data) ∧
        eventStream (Json.memberText text.reading "e" data) ≠ .unknown := by
  unfold decodeEvent eventStream
  dsimp only
  split
  · rename_i hdepth
    rw [hdepth]
    split
    · exact .inr ⟨rfl, by decide⟩
    · exact .inr ⟨rfl, by decide⟩
  · by_cases hunknown : eventMapping (Json.memberText text.reading "e" data) = .unknown
    · exact .inl ⟨hunknown, hunknown⟩
    · exact .inr ⟨(eventMapping_spec _).resolve_left hunknown, hunknown⟩

end Decoded

/-! ## Rows of frames -/

section Rows
variable {text : ParseText} {row : RawRow} {stream : StreamType}
  {message data : List (String × Json)} {value : Json}

theorem receivedRow_spec {text : FrameText} {reception : Reception} {raw : Bytes}
    (h : receivedRow text reception raw = .ok row) :
    row.exchangeSymbol = (decodeWebsocket text raw).symbol ∧
      row.streamType = (decodeWebsocket text raw).streamType.value ∧ row.payloadBytes = raw ∧
      ∀ symbol ∈ (decodeWebsocket text raw).symbol,
        isExchangeSymbol text.symbols symbol = true := by
  unfold receivedRow at h
  dsimp only at h
  split at h
  · cases h
  · rename_i hvalid
    split at h
    · cases h
    · cases h
      refine ⟨rfl, rfl, rfl, ?_⟩
      intro symbol hsymbol
      simpa [Option.mem_def.mp hsymbol] using hvalid

theorem parse_of_event (hstream : row.streamType = stream.value) (htyped : stream ∈ typedStreams)
    (hloads : text.loads row.payloadBytes = some (.obj message))
    (hdata : messageData message = .obj data) :
    parseTypedRow text row = eventRow text row stream data := by
  unfold parseTypedRow
  rw [hstream, StreamType.ofValue_value]
  dsimp only
  rw [if_pos htyped, hloads]
  dsimp only
  rw [hdata]

theorem parse_of_other (hstream : row.streamType = stream.value) (htyped : stream ∉ typedStreams) :
    parseTypedRow text row = checkDocument text stream row.payloadBytes := by
  unfold parseTypedRow
  rw [hstream, StreamType.ofValue_value]
  dsimp only
  rw [if_neg htyped]

theorem parse_of_unknown (hstream : row.streamType = StreamType.unknown.value)
    (hloads : text.loads row.payloadBytes = some value) : parseTypedRow text row = .ok none := by
  rw [parse_of_other hstream (by decide)]
  unfold checkDocument
  rw [hloads]
  rfl

theorem parse_of_control (hstream : row.streamType = StreamType.wsControl.value)
    (hloads : text.loads row.payloadBytes = some (.obj message)) :
    parseTypedRow text row = .ok none := by
  rw [parse_of_other hstream (by decide)]
  unfold checkDocument
  rw [hloads]
  rfl

theorem parse_undecodable (hstream : row.streamType = StreamType.unknown.value)
    (hloads : text.loads row.payloadBytes = none) :
    parseTypedRow text row = .error "orjson.JSONDecodeError" := by
  rw [parse_of_other hstream (by decide)]
  unfold checkDocument
  rw [hloads]

end Rows

/-! ## Symbols -/

section Symbols
variable {text : ParseText}

theorem decodedSymbol_eq_none {text : FrameText} {value : Option Json} :
    decodedSymbol text value = none ↔ value.any Json.truthy = false := by
  cases value with
  | none => simp [decodedSymbol]
  | some value => cases h : value.truthy <;> simp [decodedSymbol, h]

theorem upper_of_decodedSymbol {text : FrameText} {value : Option Json} {symbol : String}
    (h : decodedSymbol text value = some symbol) : text.upper symbol = symbol := by
  unfold decodedSymbol at h
  split at h
  · split at h
    · cases h
      exact text.upper_upper _
    · cases h
  · cases h

theorem ne_empty_of_isExchangeSymbol {text : SymbolText} {symbol : String}
    (h : isExchangeSymbol text symbol = true) : symbol ≠ "" := by
  rintro rfl
  simp [isExchangeSymbol] at h

theorem rowSymbol_some {symbol : String} (data : List (String × Json)) (hne : symbol ≠ "")
    (hupper : text.upper symbol = symbol) : rowSymbol text (some symbol) data = some symbol := by
  unfold rowSymbol
  simp only [Option.getD_some, if_neg hne, hupper]

theorem rowSymbol_of_eventSymbol {data : List (String × Json)} (h : eventSymbol text data ≠ "") :
    rowSymbol text none data = some (text.upper (eventSymbol text data)) := by
  unfold rowSymbol
  simp only [Option.getD_none, if_true, if_neg h]

theorem rowSymbol_none {data : List (String × Json)} (h : eventSymbol text data = "") :
    rowSymbol text none data = none := by
  unfold rowSymbol
  simp only [Option.getD_none, if_true, h]

end Symbols

/-! ## Agreement -/

section Agreement
variable {text : ParseText} {reception : Reception} {raw : Bytes} {row : RawRow}
  {message data : List (String × Json)}

/-- A known event whose symbol is false. The parser finds a text for one all the same, and accepts
the rest of the event. -/
structure Renamed (text : ParseText) (message data : List (String × Json)) : Prop where
  event : isControl message = false
  data_eq : messageData message = .obj data
  known : eventStream (Json.memberText text.reading "e" data) ≠ .unknown
  unnamed : (symbolValue (Json.memberText text.reading "e" data) data).any Json.truthy = false
  named : eventSymbol text data ≠ ""
  hashed : ∃ hash, text.payloadHash (.obj data) = .ok hash
  accepted : ∃ columns,
    eventColumns text data (eventStream (Json.memberText text.reading "e" data)) = .ok columns

/-- The frame is a document, and not such an event. -/
structure Parsable (text : ParseText) (raw : Bytes) : Prop where
  document : (text.loads raw).isSome = true
  unrenamed : ∀ message data, text.loads raw = some (.obj message) → ¬Renamed text message data

theorem decodeWebsocket_event (hloads : text.loads raw = some (.obj message))
    (hcontrol : isControl message = false) (hdata : messageData message = .obj data) :
    decodeWebsocket text.toFrameText raw = decodeEvent text.toFrameText
      (text.lower (Json.memberText text.reading "stream" message)) message data := by
  unfold decodeWebsocket
  rw [hloads]
  dsimp only [decodeMessage]
  rw [hcontrol, hdata]
  rfl

/-- What is preserved of a known event. -/
structure EventFrame (text : ParseText) (decoded : DecodedWebSocket) (row : RawRow)
    (message data : List (String × Json)) : Prop where
  loads : text.loads row.payloadBytes = some (.obj message)
  data_eq : messageData message = .obj data
  decoded_data : decoded.data = some data
  symbol : row.exchangeSymbol = decoded.symbol
  decoded_symbol : decoded.symbol =
    decodedSymbol text.toFrameText
      (symbolValue (Json.memberText text.reading "e" data) data)
  valid : ∀ symbol ∈ decoded.symbol, isExchangeSymbol text.symbols symbol = true
  stream : row.streamType = decoded.streamType.value
  required : requiredEvent decoded.streamType = some (Json.memberText text.reading "e" data)

namespace EventFrame
variable {decoded : DecodedWebSocket} (frame : EventFrame text decoded row message data)
include frame

theorem parse_eq : parseTypedRow text row = eventRow text row decoded.streamType data :=
  parse_of_event frame.stream (typed_of_required frame.required) frame.loads frame.data_eq

theorem stream_ne {stream : StreamType} (h : requiredEvent stream = none) :
    decoded.streamType ≠ stream := by
  rintro rfl
  rw [frame.required] at h
  cases h

theorem rowSymbol_eq {symbol : String} (h : decoded.symbol = some symbol) :
    rowSymbol text row.exchangeSymbol data = decoded.symbol := by
  rw [frame.symbol, h]
  apply rowSymbol_some
  · exact ne_empty_of_isExchangeSymbol (frame.valid symbol h)
  · exact upper_of_decodedSymbol (frame.decoded_symbol.symm.trans h)

theorem symbol_eq_none : decoded.symbol = none ↔
    (symbolValue (Json.memberText text.reading "e" data) data).any Json.truthy = false := by
  rw [frame.decoded_symbol, decodedSymbol_eq_none]

theorem not_agrees (h : Renamed text message data) : ¬FrameAgrees text decoded row := by
  intro hagrees
  obtain ⟨hash, hhash⟩ := h.hashed
  obtain ⟨columns, hcolumns⟩ := h.accepted
  have hnone := frame.symbol_eq_none.mpr h.unnamed
  have hsymbol : rowSymbol text row.exchangeSymbol data =
      some (text.upper (eventSymbol text data)) := by
    rw [frame.symbol, hnone]
    exact rowSymbol_of_eventSymbol h.named
  have hne : (rowSymbol text row.exchangeSymbol data).getD "" ≠ "" := by
    rw [hsymbol]
    exact fun hempty => h.named (text.upper_eq_empty _ hempty)
  rw [← eventColumns_eventStream data frame.required] at hcolumns
  obtain ⟨parsed, hparsed⟩ := eventRow_returns hne hhash hcolumns
  have hsame := (hagrees.parsed parsed (frame.parse_eq.trans hparsed)).2.1
  rw [(eventRow_spec hparsed).symbol, hsymbol, hnone] at hsame
  cases hsame

theorem agrees (hcontrol : isControl message = false) (h : ¬Renamed text message data)
    (hknown : eventStream (Json.memberText text.reading "e" data) ≠ .unknown) :
    FrameAgrees text decoded row where
  preserved hstream := (hstream.elim (frame.stream_ne rfl) (frame.stream_ne rfl)).elim
  parsed parsed hparsed := by
    have hfrom := eventRow_spec (frame.parse_eq.symm.trans hparsed)
    have hevent := (eventColumns_filled hfrom.columns).event _ frame.required
    refine ⟨hfrom.streamType, hfrom.symbol.trans ?_, message, data, _, frame.loads, frame.data_eq,
      frame.decoded_data, hfrom.streamType ▸ frame.required, hevent, rfl⟩
    cases hsymbol : decoded.symbol with
    | some symbol => rw [← hsymbol, frame.rowSymbol_eq hsymbol]
    | none =>
      -- without a symbol of its own the row needs one of the parser
      have hnamed : eventSymbol text data ≠ "" := by
        intro hempty
        apply hfrom.named (frame.stream_ne rfl)
        rw [hfrom.symbol, frame.symbol, hsymbol, rowSymbol_none hempty]
        rfl
      exact absurd
        { event := hcontrol
          data_eq := frame.data_eq
          known := hknown
          unnamed := frame.symbol_eq_none.mp hsymbol
          named := hnamed
          hashed := ⟨_, hfrom.hash⟩
          accepted := ⟨_, (eventColumns_eventStream data frame.required).symm.trans hfrom.columns⟩ } h

end EventFrame

theorem FrameAgrees.of_none {decoded : DecodedWebSocket} (h : parseTypedRow text row = .ok none) :
    FrameAgrees text decoded row where
  preserved _ := h
  parsed _ hparsed := by
    rw [h] at hparsed
    cases hparsed

theorem eventFrame_of_receivedRow (h : receivedRow text.toFrameText reception raw = .ok row)
    (hloads : text.loads raw = some (.obj message)) (hcontrol : isControl message = false)
    (hdata : messageData message = .obj data)
    (hknown : eventStream (Json.memberText text.reading "e" data) ≠ .unknown) :
    EventFrame text (decodeWebsocket text.toFrameText raw) row message data := by
  obtain ⟨hsymbol, hstream, hpayload, hvalid⟩ := receivedRow_spec h
  have hdecoded := decodeWebsocket_event hloads hcontrol hdata
  refine ⟨hpayload ▸ hloads, hdata, ?_, hsymbol, ?_, hvalid, hstream, ?_⟩
  · rw [hdecoded, decodeEvent_data]
  · rw [hdecoded, decodeEvent_symbol]
  · rw [hdecoded]
    have hcases := decodeEvent_stream text.toFrameText
      (text.lower (Json.memberText text.reading "stream" message)) message data
    exact (hcases.resolve_left fun hunknown => hknown hunknown.2).1

/-- The frames that are no known event are preserved and parsed to nothing. -/
theorem parse_preserved (h : receivedRow text.toFrameText reception raw = .ok row)
    {value : Json} (hloads : text.loads raw = some value)
    (hother : ∀ message data, value = .obj message → isControl message = false →
      messageData message = .obj data →
      eventStream (Json.memberText text.reading "e" data) = .unknown) :
    parseTypedRow text row = .ok none := by
  obtain ⟨-, hstream, rfl, -⟩ := receivedRow_spec h
  have hunknown : (decodeWebsocket text.toFrameText row.payloadBytes).streamType = .unknown →
      parseTypedRow text row = .ok none :=
    fun hdecoded => parse_of_unknown (hdecoded ▸ hstream) hloads
  unfold decodeWebsocket at hunknown hstream
  rw [hloads] at hunknown hstream
  cases value with
  | obj message =>
    dsimp only [decodeMessage] at hunknown hstream
    cases hcontrol : isControl message with
    | true =>
      rw [hcontrol] at hstream
      exact parse_of_control hstream hloads
    | false =>
      rw [hcontrol] at hunknown
      cases hdata : messageData message with
      | obj data =>
        rw [hdata] at hunknown
        apply hunknown
        have hcases := decodeEvent_stream text.toFrameText
          (text.lower (Json.memberText text.reading "stream" message)) message data
        exact (hcases.resolve_right fun hknown =>
          hknown.2 (hother message data rfl hcontrol hdata)).1
      | _ =>
        rw [hdata] at hunknown
        exact hunknown rfl
  | _ => exact hunknown rfl

theorem undecodable_not_agrees (h : receivedRow text.toFrameText reception raw = .ok row)
    (hloads : text.loads raw = none) :
    ¬FrameAgrees text (decodeWebsocket text.toFrameText raw) row := by
  intro hagrees
  obtain ⟨-, hstream, rfl, -⟩ := receivedRow_spec h
  have hunknown : (decodeWebsocket text.toFrameText row.payloadBytes).streamType = .unknown := by
    unfold decodeWebsocket
    rw [hloads]
  have herror := parse_undecodable (hstream.trans (congrArg _ hunknown)) hloads
  rw [hagrees.preserved (.inl hunknown)] at herror
  cases herror

/-- The stream and the symbol that a frame was received with are those of its parsed row, and a
frame without a known event is parsed to nothing, exactly on the frames that are `Parsable`. -/
theorem frameAgrees_iff_parsable (text : ParseText) (reception : Reception) (raw : Bytes)
    (row : RawRow) (h : receivedRow text.toFrameText reception raw = .ok row) :
    FrameAgrees text (decodeWebsocket text.toFrameText raw) row ↔ Parsable text raw := by
  cases hloads : text.loads raw with
  | none =>
    refine iff_of_false (undecodable_not_agrees h hloads) fun hparsable => ?_
    have hsome := hparsable.document
    rw [hloads] at hsome
    cases hsome
  | some value =>
    have hpayload := (receivedRow_spec h).2.2.1
    constructor
    · intro hagrees
      refine ⟨by rw [hloads]; rfl, fun message data hmessage hrenamed => ?_⟩
      exact (eventFrame_of_receivedRow h hmessage hrenamed.event hrenamed.data_eq
        hrenamed.known).not_agrees hrenamed hagrees
    · intro hparsable
      by_cases hevent : ∃ message data, value = .obj message ∧ isControl message = false ∧
          messageData message = .obj data ∧
          eventStream (Json.memberText text.reading "e" data) ≠ .unknown
      · obtain ⟨message, data, rfl, hcontrol, hdata, hknown⟩ := hevent
        have hframe := eventFrame_of_receivedRow h hloads hcontrol hdata hknown
        exact hframe.agrees hcontrol (hparsable.unrenamed message data hloads) hknown
      · apply FrameAgrees.of_none
        apply parse_preserved h hloads
        intro message data hobj hcontrol hdata
        by_contra hknown
        exact hevent ⟨message, data, hobj, hcontrol, hdata, hknown⟩

end Agreement

/-! ## A whole frame and a cut one -/

def contractReception : Reception where
  connectionId := "connection"
  receiveSeq := 1
  realtimeNs := 2
  monotonicNs := 1

def cutFrame : Bytes := contractFrame.dropLast

def cutRow : RawRow :=
  { contractRow with exchangeSymbol := none, streamType := "unknown", payloadBytes := cutFrame }

theorem loads_contract : contractText.loads contractFrame = some (.obj contractData) := by
  change (if contractFrame = contractFrame then some (Json.obj contractData) else none) = _
  exact if_pos rfl

theorem decode_contract : decodeWebsocket contractText.toFrameText contractFrame =
    ⟨.contractInfo, some "BTCUSDT", some contractData, some contractData⟩ := by
  have hupper : contractText.upper "BTCUSDT" = "BTCUSDT" := by decide +kernel
  rw [decodeWebsocket_event loads_contract rfl rfl]
  change DecodedWebSocket.mk _ (some (contractText.upper "BTCUSDT")) _ _ = _
  rw [hupper]
  rfl

theorem received_contract :
    receivedRow contractText.toFrameText contractReception contractFrame = .ok contractRow := by
  have hvalid : isExchangeSymbol contractText.symbols "BTCUSDT" = true := by decide +kernel
  unfold receivedRow
  rw [decode_contract]
  simp only [Option.any_some, hvalid, Bool.not_true, Bool.false_eq_true, if_false]
  rfl

theorem parsable_contract : Parsable contractText contractFrame where
  document := by
    rw [loads_contract]
    rfl
  unrenamed message data hloads hrenamed := by
    cases loads_contract.symm.trans hloads
    cases hrenamed.data_eq
    exact absurd hrenamed.unnamed (by decide +kernel)

theorem frameAgrees_contract :
    FrameAgrees contractText (decodeWebsocket contractText.toFrameText contractFrame) contractRow :=
  (frameAgrees_iff_parsable contractText contractReception contractFrame contractRow
    received_contract).mpr parsable_contract

/-- The row of a cut frame is preserved, but cannot be parsed. -/
theorem parse_cutFrame :
    receivedRow contractText.toFrameText contractReception cutFrame = .ok cutRow ∧
    (decodeWebsocket contractText.toFrameText cutFrame).streamType = .unknown ∧
    parseTypedRow contractText cutRow = .error "orjson.JSONDecodeError" ∧
    ¬FrameAgrees contractText (decodeWebsocket contractText.toFrameText cutFrame) cutRow := by
  have hne : cutFrame ≠ contractFrame := by decide +kernel
  have hloads : contractText.loads cutFrame = none := by
    change (if cutFrame = contractFrame then some (Json.obj contractData) else none) = none
    exact if_neg hne
  have hdecoded : decodeWebsocket contractText.toFrameText cutFrame =
      ⟨.unknown, none, none, none⟩ := by
    unfold decodeWebsocket
    rw [hloads]
  have hreceived :
      receivedRow contractText.toFrameText contractReception cutFrame = .ok cutRow := by
    unfold receivedRow
    rw [hdecoded]
    rfl
  exact ⟨hreceived, congrArg DecodedWebSocket.streamType hdecoded, parse_undecodable rfl hloads,
    undecodable_not_agrees hreceived hloads⟩

end MiryFormal
