import MiryFormal.Contracts.GapEvents
import MiryFormal.Pipeline.ConnectionBook

/-!
# One day of one symbol

`L2DayReconstructor.run`: the depth rows of a day and the transport gaps of its ledger are
handled in time order. One connection at a time has authority, and an interval is emitted
whenever the authority ends or is reassigned by another connection.
-/

namespace MiryFormal

set_option autoImplicit false

/-! ## Checkpoints -/

/-- The checkpoint of a book that waits on its anchor. -/
structure AnchoredBookCheckpoint where
  connectionId : String
  state : L2State
  previousUpdateId : Int
  anchorLastUpdateId : Int
  anchorReceivedNs : Int
  bids : Levels
  asks : Levels
  pending : List DepthDiff := []
  unbridged : state ≠ .valid ∧ bids ≠ [] ∧ asks ≠ []
  deriving DecidableEq

structure L2Checkpoint where
  collectorId : String
  utcDate : Int
  exchangeSymbol : String
  state : L2State
  connectionId : Option String := none
  previousUpdateId : Option Int := none
  validThroughNs : Option Int := none
  bids : Levels := []
  asks : Levels := []
  anchoredBooks : List AnchoredBookCheckpoint := []
  complete : state = .valid → connectionId ≠ none ∧ previousUpdateId ≠ none ∧
    validThroughNs ≠ none ∧ bids ≠ [] ∧ asks ≠ [] := by decide
  empty : state ≠ .valid → connectionId = none ∧ previousUpdateId = none ∧
    validThroughNs = none ∧ bids = [] ∧ asks = [] := by decide
  deriving DecidableEq

/-- `_checkpoint_levels`: the levels sorted by price. -/
def checkpointLevels (side : Levels) : Levels :=
  side.insertionSort fun a b => Decimal.le (price a.1) (price b.1) = true

namespace L2Checkpoint

/-- A day that ends without a valid book. -/
def unanchored (collectorId : String) (utcDate : Int) (exchangeSymbol : String) :
    L2Checkpoint := { collectorId, utcDate, exchangeSymbol, state := .unanchored }

end L2Checkpoint

namespace ConnectionBook

def fromCheckpoint (checkpoint : L2Checkpoint) : Except String ConnectionBook :=
  match checkpoint.state, checkpoint.connectionId with
  | .valid, some connectionId => .ok {
      connectionId
      state := .valid
      bids := bookSide checkpoint.bids
      asks := bookSide checkpoint.asks
      previousUpdateId := checkpoint.previousUpdateId }
  | _, _ => .error "only a valid checkpoint can restore a connection book"

def fromAnchorCheckpoint (checkpoint : AnchoredBookCheckpoint) : ConnectionBook where
  connectionId := checkpoint.connectionId
  state := checkpoint.state
  bids := bookSide checkpoint.bids
  asks := bookSide checkpoint.asks
  previousUpdateId := some checkpoint.previousUpdateId
  pending := checkpoint.pending
  anchorLastUpdateId := some checkpoint.anchorLastUpdateId
  anchorReceivedNs := some checkpoint.anchorReceivedNs

/-- `_anchor_checkpoint`, with the check that the checkpoint type makes. -/
def anchorCheckpoint (book : ConnectionBook) : Except String AnchoredBookCheckpoint :=
  match book.previousUpdateId, book.anchorLastUpdateId, book.anchorReceivedNs with
  | some previousUpdateId, some anchorLastUpdateId, some anchorReceivedNs =>
      if h : book.state ≠ .valid ∧ checkpointLevels book.bids ≠ [] ∧
          checkpointLevels book.asks ≠ [] then
        .ok {
          connectionId := book.connectionId
          state := book.state
          previousUpdateId
          anchorLastUpdateId
          anchorReceivedNs
          bids := checkpointLevels book.bids
          asks := checkpointLevels book.asks
          pending := book.pending.filter fun diff => anchorLastUpdateId ≤ diff.finalUpdateId
          unbridged := h }
      else .error "anchored checkpoint must be an unbridged book"
  | _, _, _ => .error "connection book has no anchor"

end ConnectionBook

/-! ## The replay -/

structure ValidityInterval where
  validFromNs : Int
  validToNs : Int
  connectionId : String
  endReason : String
  deriving DecidableEq, Repr

/-- The variables of `run`. `books` is keyed by connection id. -/
structure DayReplay where
  books : List (String × ConnectionBook) := []
  changes : List StateChange := []
  intervals : List ValidityInterval := []
  authority : Option String := none
  validFrom : Option Int := none
  lastValidConnection : Option String := none
  activeGaps : List String := []
  deriving DecidableEq

/-- A row or a gap of the merged input. -/
inductive DayItem where
  | gap (event : GapEvent)
  | row (depth : DepthRow)
  deriving DecidableEq

def DayItem.timeNs : DayItem → Int
  | gap event => event.effectiveNs
  | row depth => depth.receivedNs

namespace DayReplay

def book? (replay : DayReplay) (connectionId : String) : Option ConnectionBook :=
  KeyedDict.get id connectionId replay.books

def setBook (replay : DayReplay) (connectionId : String) (book : ConnectionBook) : DayReplay :=
  { replay with books := KeyedDict.set id connectionId book replay.books }

/-- The intervals once the running one ends at `toNs`. -/
def endInterval (replay : DayReplay) (toNs : Int) (reason : String) : List ValidityInterval :=
  match replay.authority, replay.validFrom with
  | some connectionId, some fromNs => replay.intervals ++ [{
      validFromNs := fromNs
      validToNs := toNs
      connectionId
      endReason := reason }]
  | _, _ => replay.intervals

/-- The loop over the books at an OPEN. -/
def invalidateBooks (event : GapEvent) (replay : DayReplay) : DayReplay :=
  { replay with
    books := replay.books.map fun entry => (entry.1, entry.2.invalidate)
    changes := replay.changes ++ (replay.books.filter fun entry =>
      entry.2.state = .valid).map fun entry => {
        connectionId := entry.2.connectionId
        atNs := event.effectiveNs
        state := .gapped
        updateId := entry.2.previousUpdateId
        reason := event.reason.value } }

def handleGap (replay : DayReplay) (event : GapEvent) : DayReplay :=
  match event.state with
  | .opened =>
      invalidateBooks event { replay with
        intervals := replay.endInterval event.effectiveNs "transport_gap"
        authority := none
        validFrom := none
        lastValidConnection := none
        activeGaps := replay.activeGaps.insert event.gapId }
  | .closed =>
      let replay := { replay with
        activeGaps := replay.activeGaps.filter fun gapId => gapId ≠ event.gapId }
      if replay.activeGaps ≠ [] then replay
      else match replay.lastValidConnection with
        | none => replay
        | some connectionId =>
            match replay.book? connectionId with
            | none => replay
            | some candidate =>
                if candidate.state ≠ .valid then replay
                else { replay with
                  authority := some connectionId
                  validFrom := some event.observedAtRealtimeNs }

/-- What a state change of a book does to the authority. -/
def handleChange (replay : DayReplay) (connectionId : String) (change : StateChange) :
    DayReplay :=
  let replay := { replay with changes := replay.changes ++ [change] }
  if change.state = .valid then
    let replay := { replay with lastValidConnection := some connectionId }
    if replay.activeGaps ≠ [] then replay
    else { replay with
      intervals := replay.endInterval change.atNs "connection_switch"
      authority := some connectionId
      validFrom := some change.atNs }
  else if replay.authority = some connectionId ∧ replay.validFrom ≠ none then
    { replay with
      intervals := replay.endInterval change.atNs change.reason
      authority := none
      validFrom := none
      lastValidConnection :=
        if replay.lastValidConnection = some connectionId then none
        else replay.lastValidConnection }
  else replay

def handleRow (replay : DayReplay) (row : DepthRow) : Except String DayReplay := do
  let book := (replay.book? row.connectionId).getD { connectionId := row.connectionId }
  let (book, change) ← book.onRow row
  let replay := replay.setBook row.connectionId book
  match change with
  | none => return replay
  | some change => return replay.handleChange row.connectionId change

def handle (replay : DayReplay) : DayItem → Except String DayReplay
  | .gap event => return replay.handleGap event
  | .row row => replay.handleRow row

end DayReplay

/-- The order in which the row loop and the loop after it handle gaps and rows: before each
row the gaps that are effective by then. -/
def timeline : List GapEvent → List DepthRow → List DayItem
  | gaps, [] => gaps.map .gap
  | gaps, row :: rows =>
      (gaps.takeWhile fun event => event.effectiveNs ≤ row.receivedNs).map .gap ++
        .row row ::
          timeline (gaps.dropWhile fun event => event.effectiveNs ≤ row.receivedNs) rows

/-! ## A day -/

/-- A field of a JSON marker. -/
inductive MarkerField (α : Type) where
  | absent
  | malformed
  | value (a : α)
  deriving DecidableEq

/-- `_NORMALIZED.json` -/
structure NormalizedMarker where
  formalStartRealtimeNs : MarkerField Int := .absent
  expectedSymbols : MarkerField (List String) := .absent
  deriving DecidableEq

/-- The inputs of one `L2DayReconstructor`. -/
structure L2Day where
  collectorId : String
  utcDate : Int
  symbol : String
  marker : Option NormalizedMarker
  previousMarker : Option NormalizedMarker
  previousCheckpoint : Option L2Checkpoint
  ledger : List GapEvent
  rows : List DepthRow
  deriving DecidableEq

structure L2DayOutput where
  changes : List StateChange
  intervals : List ValidityInterval
  checkpoint : L2Checkpoint
  deriving DecidableEq

namespace L2Day

def startNs (day : L2Day) : Int := dayStartNs day.utcDate

def endNs (day : L2Day) : Int := dayEndNs day.utcDate

def canStartWithoutPreviousCheckpoint (day : L2Day) : Except String Bool :=
  match day.marker with
  | none => .error "normalized day marker does not exist"
  | some marker =>
      match marker.formalStartRealtimeNs with
      | .malformed => .error "normalized formal start is invalid"
      | .value formalStartNs =>
          if day.startNs ≤ formalStartNs ∧ formalStartNs < day.endNs then .ok true
          else .error "normalized formal start is invalid"
      | .absent =>
          match day.previousMarker with
          | none => .ok false
          | some previous =>
              match previous.expectedSymbols with
              | .value symbols => .ok (day.symbol ∉ symbols)
              | _ => .error "previous normalized universe is invalid"

def loadPreviousCheckpoint (day : L2Day) : Except String (Option L2Checkpoint) :=
  match day.previousCheckpoint with
  | none => .ok none
  | some checkpoint =>
      if checkpoint.collectorId ≠ day.collectorId ∨ checkpoint.utcDate ≠ day.utcDate - 1 ∨
          checkpoint.exchangeSymbol ≠ day.symbol then
        .error "previous L2 checkpoint identity mismatch"
      else if checkpoint.state = .valid ∧ checkpoint.validThroughNs ≠ some day.startNs then
        .error "previous L2 checkpoint does not reach UTC boundary"
      else .ok (some checkpoint)

/-- The loop over the anchored books of a checkpoint. -/
def restoreAnchored (books : List (String × ConnectionBook)) :
    List AnchoredBookCheckpoint → Except String (List (String × ConnectionBook))
  | [] => .ok books
  | anchored :: rest =>
      if (KeyedDict.get id anchored.connectionId books).isSome then
        .error "checkpoint repeats a connection ID"
      else
        restoreAnchored (KeyedDict.set id anchored.connectionId
          (ConnectionBook.fromAnchorCheckpoint anchored) books) rest

/-- The variables of `run` before the first row. -/
def restore (day : L2Day) : Option L2Checkpoint → Except String DayReplay
  | none => .ok {}
  | some checkpoint =>
      if checkpoint.state = .valid then do
        let book ← ConnectionBook.fromCheckpoint checkpoint
        let books ← restoreAnchored [(book.connectionId, book)] checkpoint.anchoredBooks
        return {
          books
          authority := some book.connectionId
          validFrom := some day.startNs
          lastValidConnection := some book.connectionId }
      else do
        let books ← restoreAnchored [] checkpoint.anchoredBooks
        return { books }

/-- `_transport_gap_events` -/
def transportGapEvents (day : L2Day) : List GapEvent :=
  sortGapEvents (day.ledger.filter fun event => event.selects day.symbol)

def items (day : L2Day) : List DayItem := timeline day.transportGapEvents day.rows

def buildCheckpoint (day : L2Day) (book : Option ConnectionBook)
    (books : List (String × ConnectionBook)) : Except String L2Checkpoint := do
  let anchoredBooks ← (books.filter fun entry =>
    entry.2.anchorLastUpdateId ≠ none ∧ entry.2.anchorReceivedNs ≠ none ∧
      entry.2.bids ≠ [] ∧ entry.2.asks ≠ []).mapM fun entry => entry.2.anchorCheckpoint
  let unanchored : L2Checkpoint := {
    collectorId := day.collectorId
    utcDate := day.utcDate
    exchangeSymbol := day.symbol
    state := .unanchored
    anchoredBooks
    complete := by simp
    empty := by simp }
  match book with
  | none => return unanchored
  | some book =>
      if h : book.state = .valid ∧ book.previousUpdateId ≠ none ∧
          checkpointLevels book.bids ≠ [] ∧ checkpointLevels book.asks ≠ [] then
        return {
          collectorId := day.collectorId
          utcDate := day.utcDate
          exchangeSymbol := day.symbol
          state := .valid
          connectionId := some book.connectionId
          previousUpdateId := book.previousUpdateId
          validThroughNs := some day.endNs
          bids := checkpointLevels book.bids
          asks := checkpointLevels book.asks
          anchoredBooks
          complete := fun _ => ⟨by simp, h.2.1, by simp, h.2.2⟩
          empty := fun hne => absurd rfl hne }
      else return unanchored

/-- `run` up to the first row. -/
def begin (day : L2Day) : Except String DayReplay := do
  let canStart ← day.canStartWithoutPreviousCheckpoint
  let checkpoint ← day.loadPreviousCheckpoint
  if checkpoint = none ∧ canStart = false then throw "previous L2 checkpoint is required"
  day.restore checkpoint

/-- `run` after the last row and gap. -/
def finish (day : L2Day) (replay : DayReplay) : Except String L2DayOutput := do
  let intervals := (replay.endInterval day.endNs "utc_day_end").filter fun interval =>
    interval.validFromNs < interval.validToNs
  let finalBook := if replay.activeGaps ≠ [] then none else replay.authority.bind replay.book?
  let checkpoint ← day.buildCheckpoint finalBook replay.books
  return { changes := replay.changes, intervals, checkpoint }

def run (day : L2Day) : Except String L2DayOutput := do
  let replay ← day.begin
  let replay ← day.items.foldlM DayReplay.handle replay
  day.finish replay

end L2Day

end MiryFormal
