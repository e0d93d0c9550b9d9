import Mathlib

/-!
# Gap events and UTC days

The gap facts that collector and pipeline exchange, and the days they belong to. Times are
nanoseconds since the epoch, a date is its number of days since the epoch.
-/

namespace MiryFormal

set_option autoImplicit false

def nsPerDay : Int := 86400 * 1000000000

/-- Midnight UTC at the start of a date. -/
def dayStartNs (utcDate : Int) : Int := utcDate * nsPerDay

def dayEndNs (utcDate : Int) : Int := dayStartNs (utcDate + 1)

/-- The UTC date of an instant. -/
def utcDateOf (ns : Int) : Int := ns / nsPerDay

theorem utcDateOf_eq_iff {ns utcDate : Int} :
    utcDateOf ns = utcDate ↔ dayStartNs utcDate ≤ ns ∧ ns < dayEndNs utcDate := by
  simp only [utcDateOf, dayStartNs, dayEndNs, nsPerDay]
  omega

theorem dayStartNs_lt_dayEndNs (utcDate : Int) : dayStartNs utcDate < dayEndNs utcDate := by
  simp only [dayEndNs, dayStartNs, nsPerDay]
  omega

theorem dayStartNs_nonneg (day : Nat) : 0 ≤ dayStartNs day := by
  simp only [dayStartNs, nsPerDay]
  omega

theorem dayEndNs_sub_one_nonneg (day : Nat) : 0 ≤ dayEndNs day - 1 := by
  simp only [dayEndNs, dayStartNs, nsPerDay]
  omega

inductive StreamType where
  | depth
  | rpiDepth
  | depthSnapshot
  | rpiDepthSnapshot
  | bookTicker
  | aggTrade
  | trade
  | markPrice
  | forceOrder
  | contractInfo
  | openInterest
  | exchangeInfo
  | marketTickers
  | dailyKlines
  | liquidityDepth
  | universeDecision
  | formalCollectionStarted
  | clockSample
  | wsControl
  | unknown
  deriving DecidableEq, Repr

def StreamType.value : StreamType → String
  | depth => "depth"
  | rpiDepth => "rpi_depth"
  | depthSnapshot => "depth_snapshot"
  | rpiDepthSnapshot => "rpi_depth_snapshot"
  | bookTicker => "book_ticker"
  | aggTrade => "agg_trade"
  | trade => "trade"
  | markPrice => "mark_price"
  | forceOrder => "force_order"
  | contractInfo => "contract_info"
  | openInterest => "open_interest"
  | exchangeInfo => "exchange_info"
  | marketTickers => "market_tickers"
  | dailyKlines => "daily_klines"
  | liquidityDepth => "liquidity_depth"
  | universeDecision => "universe_decision"
  | formalCollectionStarted => "formal_collection_started"
  | clockSample => "clock_sample"
  | wsControl => "ws_control"
  | unknown => "unknown"

inductive GapReason where
  | ingestOverload
  | storageExhausted
  | connectionLost
  | l2Sequence
  | l2Reanchor
  | plannedBoundary
  | collectorStopped
  deriving DecidableEq, Repr

def GapReason.value : GapReason → String
  | ingestOverload => "INGEST_OVERLOAD_GAP"
  | storageExhausted => "STORAGE_EXHAUSTED_GAP"
  | connectionLost => "CONNECTION_LOST_GAP"
  | l2Sequence => "L2_SEQUENCE_GAP"
  | l2Reanchor => "L2_REANCHOR_GAP"
  | plannedBoundary => "PLANNED_BOUNDARY_GAP"
  | collectorStopped => "COLLECTOR_STOPPED_GAP"

inductive GapState where
  | opened
  | closed
  deriving DecidableEq, Repr

def GapState.value : GapState → String
  | opened => "OPEN"
  | closed => "CLOSED"

theorem literal_nonneg (ns : Nat) : (0 : Int) ≤ OfNat.ofNat ns := Int.natCast_nonneg ns

theorem unaffected_le (ns : Nat) :
    ∀ affected ∈ (none : Option Int), 0 ≤ affected ∧ affected ≤ OfNat.ofNat ns := by
  intro affected h
  cases h

theorem affected_le_self {ns : Int} (h : 0 ≤ ns) :
    ∀ affected ∈ some ns, 0 ≤ affected ∧ affected ≤ ns := by
  intro affected hm
  cases hm
  exact ⟨h, le_rfl⟩

theorem opened_affected (affected : Option Int) :
    GapState.opened = .closed → affected = none := by
  intro h
  cases h

theorem unaffected (state : GapState) : state = .closed → (none : Option Int) = none :=
  fun _ => rfl

structure GapEvent where
  gapId : String
  state : GapState
  reason : GapReason
  collectorId : String
  connectionId : Option String := none
  exchangeSymbols : List String := []
  streamTypes : List StreamType := []
  observedAtRealtimeNs : Int
  affectedFromRealtimeNs : Option Int := none
  detail : String := ""
  observed_nonneg : 0 ≤ observedAtRealtimeNs := by first | exact literal_nonneg _ | decide
  affected_le : ∀ ns ∈ affectedFromRealtimeNs, 0 ≤ ns ∧ ns ≤ observedAtRealtimeNs := by
    first | exact unaffected_le _ | decide
  closed_unaffected : state = .closed → affectedFromRealtimeNs = none := by
    first | exact unaffected _ | decide
  deriving DecidableEq

/-- The detail of the CLOSED event that ends a day inside a gap. -/
def continuesDetail : String := "gap continues into the next UTC day"

namespace GapEvent

/-- `_gap_effective_ns`: an OPEN counts from where it affects the data. -/
def effectiveNs (event : GapEvent) : Int :=
  match event.state, event.affectedFromRealtimeNs with
  | .opened, some ns => ns
  | _, _ => event.observedAtRealtimeNs

theorem effectiveNs_of_closed {event : GapEvent} (h : event.state = .closed) :
    event.effectiveNs = event.observedAtRealtimeNs := by
  simp [effectiveNs, h]

/-- The event covers depth rows of the symbol; an empty tuple selects everything. -/
def selects (event : GapEvent) (symbol : String) : Bool :=
  (event.exchangeSymbols.isEmpty || symbol ∈ event.exchangeSymbols) &&
    (event.streamTypes.isEmpty || .depth ∈ event.streamTypes)

/-- `_gap_sort_key` -/
def sortKey (event : GapEvent) : Int ×ₗ String ×ₗ String :=
  toLex (event.effectiveNs, toLex (event.gapId, event.state.value))

theorem effectiveNs_le_of_sortKey_le {a b : GapEvent} (h : a.sortKey ≤ b.sortKey) :
    a.effectiveNs ≤ b.effectiveNs := by
  rcases Prod.Lex.le_iff.mp h with h | h
  · exact le_of_lt h
  · exact le_of_eq h.1

end GapEvent

/-- `sorted(events, key=_gap_sort_key)` -/
def sortGapEvents (events : List GapEvent) : List GapEvent :=
  events.insertionSort fun a b => a.sortKey ≤ b.sortKey

theorem sortGapEvents_perm (events : List GapEvent) : (sortGapEvents events).Perm events :=
  List.perm_insertionSort _ events

theorem sortGapEvents_pairwise (events : List GapEvent) :
    (sortGapEvents events).Pairwise fun a b => a.sortKey ≤ b.sortKey := by
  have : IsTrans GapEvent fun a b => a.sortKey ≤ b.sortKey := ⟨fun _ _ _ => le_trans⟩
  have : Std.Total fun a b : GapEvent => a.sortKey ≤ b.sortKey := ⟨fun _ _ => le_total _ _⟩
  exact List.pairwise_insertionSort _ events

end MiryFormal
