import Mathlib.Data.Finset.Card
import Mathlib.Data.List.MinMax
import Mathlib.Order.WithBot
import MiryFormal.Universe.Ranking
import MiryFormal.Universe.Regime

/-!
# The rolling universe

`select_rolling_universe`: the active 50 core, 5 boundary and 5 probe symbols are kept, or
some of them are replaced from the mature pool and the probe pool of the day's evidence.
-/

namespace MiryFormal

set_option autoImplicit false

/-! ## Dates -/

/-- A `timedelta` that is not negative. -/
structure Timedelta where
  micros : Nat
  inRange : micros < 1000000000 * 86400000000
  deriving DecidableEq

def Timedelta.ofHours (hours : Nat) : Except String Timedelta :=
  if h : hours * 3600000000 < 1000000000 * 86400000000 then .ok ⟨hours * 3600000000, h⟩
  else .error "OverflowError: days; must have magnitude <= 999999999"

def Timedelta.ofDays (days : Nat) : Except String Timedelta :=
  if h : days * 86400000000 < 1000000000 * 86400000000 then .ok ⟨days * 86400000000, h⟩
  else .error "OverflowError: days; must have magnitude <= 999999999"

/-- A UTC `datetime`, from the first instant of year 1 to the last of year 9999. -/
structure Datetime where
  micros : Nat
  inRange : micros < 3652059 * 86400000000
  deriving DecidableEq

namespace Datetime

/-- The first day of year 1 is a Monday. -/
def weekday (instant : Datetime) : Nat := instant.micros / 86400000000 % 7

/-- `instant - required` -/
def minus (instant : Datetime) (required : Timedelta) : Except String Datetime :=
  if required.micros ≤ instant.micros then
    .ok ⟨instant.micros - required.micros, (Nat.sub_le _ _).trans_lt instant.inRange⟩
  else .error "OverflowError: date value out of range"

end Datetime

/-- `_dwell_complete` -/
def dwellComplete (joined effective : Datetime) (required : Timedelta) : Except String Bool := do
  let cutoff ← effective.minus required
  return joined.micros ≤ cutoff.micros

/-! ## Evidence -/

/-- A decimal; `⊤` is `Decimal("Infinity")`. -/
abbrev MetricValue := WithTop Rat

structure HistoricalRow where
  symbol : String
  ageDays : Nat
  volumes : List Rat
  marketVolumes : List Rat
  marketTrades : List Nat
  expectedProbeDays : Nat
  observedProbeDays : Nat
  q25QuoteVolume : Rat
  q25Trades : Rat
  deriving DecidableEq

structure MarketRow where
  history : HistoricalRow
  depthSampleCount : Nat
  thinDepth10bps : MetricValue
  thinDepth50bps : MetricValue
  bookTickerSampleCount : Nat
  spreadQ95Bps : MetricValue
  deriving DecidableEq

namespace MarketRow

def symbol (row : MarketRow) : String := row.history.symbol

def ageDays (row : MarketRow) : Nat := row.history.ageDays

end MarketRow

structure RollingPolicy where
  liquidityWindowDays : Nat := 14
  probeMinimumCompleteDays : Nat := 7
  marketContextBaselineDays : Nat := 28
  marketContextChangeRatio : Rat := 5 / 4
  marketContextBreadthRatio : Rat := 7 / 10
  marketContextMinimumInstruments : Nat := 60
  liquidityDepthSamples : Nat := 3
  liquidityBookTickerSamples : Nat := 21
  candidateMinimumDwellHours : Nat := 48
  coreMinimumDwellDays : Nat := 14
  candidateDailyReplacements : Nat := 2
  coreWeeklyReplacements : Nat := 5
  coreMinimumAgeDays : Nat := 30
  coreEntryRank : Nat := 45
  coreRetainRank : Nat := 55
  boundaryRetainRank : Nat := 10
  deriving DecidableEq

/-- The bounds of `UniversePolicyConfig` on these fields. -/
structure RollingPolicy.Admitted (policy : RollingPolicy) : Prop where
  liquidityWindowDays : 14 ≤ policy.liquidityWindowDays ∧ policy.liquidityWindowDays ≤ 30
  probeMinimumCompleteDays :
    1 ≤ policy.probeMinimumCompleteDays ∧ policy.probeMinimumCompleteDays ≤ 14
  marketContextBaselineDays :
    14 ≤ policy.marketContextBaselineDays ∧ policy.marketContextBaselineDays ≤ 60
  marketContextChangeRatio : 1 < policy.marketContextChangeRatio
  marketContextBreadthRatio :
    1 / 2 < policy.marketContextBreadthRatio ∧ policy.marketContextBreadthRatio ≤ 1
  marketContextMinimumInstruments : 60 ≤ policy.marketContextMinimumInstruments
  liquidityDepthSamples : 3 ≤ policy.liquidityDepthSamples ∧ policy.liquidityDepthSamples ≤ 5
  liquidityBookTickerSamples :
    21 ≤ policy.liquidityBookTickerSamples ∧ policy.liquidityBookTickerSamples ≤ 30
  candidateMinimumDwellHours : 1 ≤ policy.candidateMinimumDwellHours
  coreMinimumDwellDays : 1 ≤ policy.coreMinimumDwellDays
  candidateDailyReplacements :
    1 ≤ policy.candidateDailyReplacements ∧ policy.candidateDailyReplacements ≤ 2
  coreWeeklyReplacements : 1 ≤ policy.coreWeeklyReplacements ∧ policy.coreWeeklyReplacements ≤ 5
  coreMinimumAgeDays : 1 ≤ policy.coreMinimumAgeDays
  coreEntryRank : 1 ≤ policy.coreEntryRank ∧ policy.coreEntryRank ≤ 50
  coreRetainRank : 50 ≤ policy.coreRetainRank
  boundaryRetainRank : 5 ≤ policy.boundaryRetainRank
  probeHistory : policy.probeMinimumCompleteDays ≤ policy.liquidityWindowDays

/-- The parsed evidence of a day: the eligible symbols of the exchange info, and the rows of those
that have any volume. -/
structure MarketEvidence where
  eligible : List String
  rows : List MarketRow
  sourceHashes : List String := []
  distinct : eligible.Nodup
  listed : (rows.map MarketRow.symbol).Sublist eligible

structure UniverseDecision where
  effectiveAt : Datetime
  core : List String
  boundary : List String
  probe : List String
  sizes : core.length = 50 ∧ boundary.length = 5 ∧ probe.length = 5
  sorted : core.Pairwise (· < ·) ∧ boundary.Pairwise (· < ·) ∧ probe.Pairwise (· < ·)
  distinct : (core ++ boundary ++ probe).Nodup

/-- `tuple(sorted(values))` -/
def sortedSymbols (symbols : List String) : List String := symbols.insertionSort (· ≤ ·)

def UniverseDecision.members (active : UniverseDecision) : List String :=
  sortedSymbols (active.core ++ active.boundary ++ active.probe)

structure SelectionResult where
  core : List String
  boundary : List String
  probe : List String
  inactive : List String
  sourceHashes : List String
  maturePoolCount : Nat
  probePoolCount : Nat
  marketContext : MarketContext
  decisionFrozenReason : Option String
  deriving DecidableEq

/-- The second result of `_market_rows`. -/
def MarketEvidence.inactive (evidence : MarketEvidence) (tracked : List String) : List String :=
  sortedSymbols (tracked.filter fun symbol => symbol ∉ evidence.eligible)

def MarketRow.Complete (row : MarketRow) (policy : RollingPolicy) : Prop :=
  row.depthSampleCount = policy.liquidityDepthSamples ∧
    row.bookTickerSampleCount = policy.liquidityBookTickerSamples ∧
    row.spreadQ95Bps ≠ ⊤ ∧ 0 ≤ row.spreadQ95Bps ∧
    row.thinDepth10bps ≠ ⊤ ∧ 0 ≤ row.thinDepth10bps ∧
    row.thinDepth50bps ≠ ⊤ ∧ 0 ≤ row.thinDepth50bps

instance (row : MarketRow) (policy : RollingPolicy) : Decidable (row.Complete policy) :=
  inferInstanceAs (Decidable (_ ∧ _ ∧ _ ∧ _ ∧ _ ∧ _ ∧ _ ∧ _))

/-- What `_mature_pool` asks of a row beside complete market evidence. -/
def MarketRow.Mature (row : MarketRow) (policy : RollingPolicy) : Prop :=
  policy.coreMinimumAgeDays ≤ row.ageDays ∧ row.history.volumes.length = policy.liquidityWindowDays

instance (row : MarketRow) (policy : RollingPolicy) : Decidable (row.Mature policy) :=
  inferInstanceAs (Decidable (_ ∧ _))

/-- What `_probe_pool` asks of a row beside complete market evidence. -/
def MarketRow.Observed (row : MarketRow) (policy : RollingPolicy) : Prop :=
  policy.probeMinimumCompleteDays ≤ row.history.expectedProbeDays ∧
    row.history.observedProbeDays = row.history.expectedProbeDays

instance (row : MarketRow) (policy : RollingPolicy) : Decidable (row.Observed policy) :=
  inferInstanceAs (Decidable (_ ∧ _))

def rankMarketRows (rows : List MarketRow) : Except String (List MarketRow) :=
  @rankCrossSection _ DecimalNumber _ contextNumber rows MarketRow.symbol [
    ⟨fun row => (row.history.q25QuoteVolume : MetricValue), true⟩,
    ⟨fun row => (row.history.q25Trades : MetricValue), true⟩,
    ⟨fun row => row.thinDepth10bps, true⟩,
    ⟨fun row => row.thinDepth50bps, true⟩,
    ⟨fun row => row.spreadQ95Bps, false⟩]

def maturePool (rows : List MarketRow) (policy : RollingPolicy) : Except String (List MarketRow) :=
  rankMarketRows (rows.filter fun row => row.Mature policy ∧ row.Complete policy)

def probePool (rows : List MarketRow) (policy : RollingPolicy) :
    Except String (List MarketRow) := do
  let eligible := rows.filter fun row => row.Observed policy ∧ row.Complete policy
  let recent ← rankMarketRows (eligible.filter fun row => row.ageDays < policy.coreMinimumAgeDays)
  let fallback ← rankMarketRows (eligible.filter fun row => policy.coreMinimumAgeDays ≤ row.ageDays)
  return recent ++ fallback

def marketContext (rows : List MarketRow) (policy : RollingPolicy) : Except String MarketContext :=
  evaluateMarketContext
    (rows.map fun row => ⟨row.history.marketVolumes, row.history.marketTrades⟩)
    policy.marketContextBaselineDays policy.marketContextChangeRatio
    policy.marketContextBreadthRatio policy.marketContextMinimumInstruments

/-! ## Buckets -/

/-- `_take_first` -/
def takeFirst (values forbidden : List String) : Option String :=
  values.find? fun value => value ∉ forbidden

/-- `values[values.index(old)] = new` -/
def replaceFirst (values : List String) (old new : String) : List String :=
  values.set (values.idxOf old) new

/-- `list(dict.fromkeys(values))` -/
def fromKeys : List String → List String
  | [] => []
  | value :: values => value :: (fromKeys values).filter fun later => later ≠ value

/-- `{symbol: index for index, symbol in enumerate(pool, start=1)}` -/
def poolRanks (pool : List String) : List (String × Nat) := pool.zipIdx 1

/-- `ranks.get(symbol, 10**9)` -/
def rankOrLast (ranks : List (String × Nat)) (symbol : String) : Nat :=
  (KeyedDict.get id symbol ranks).getD (10 ^ 9)

/-- The loop of `_reconcile_bucket` that fills vacancies. -/
def fillBucket : List String → List String → List String
  | [], result => result
  | symbol :: preferred, result =>
      if 5 ≤ result.length then result
      else if symbol ∈ result then fillBucket preferred result
      else fillBucket preferred (result ++ [symbol])

section Bucket
variable (dwelt : String → Except String Bool) (leading : List String) (limit : Nat)

/-- The loop of `_reconcile_bucket` that replaces incumbents; `dwelt` is the dwell test of a member
and `leading` is `preferred[:5]`. -/
def replaceIncumbents : List String → Nat → List String → Except String (List String)
  | [], _, result => .ok result
  | symbol :: preferred, changes, result =>
      if symbol ∈ result ∨ limit ≤ changes then replaceIncumbents preferred changes result
      else do
        let removable ← result.filterM fun incumbent =>
          if incumbent ∈ leading then .ok false else dwelt incumbent
        match removable.getLast? with
        | none => replaceIncumbents preferred changes result
        | some last => replaceIncumbents preferred (changes + 1) (result.erase last ++ [symbol])

end Bucket

def reconcileBucket (current preferred forbidden inactive : List String)
    (memberSince : List (String × Datetime)) (effectiveAt : Datetime) (minimumDwell : Timedelta)
    (normalReplacementLimit : Nat) : Except String (List String) := do
  let preferred := fromKeys (preferred.filter fun symbol => symbol ∉ forbidden)
  let kept := current.filter fun symbol => symbol ∉ forbidden ∧ symbol ∉ inactive
  let forcedVacancies : Int := 5 - kept.length
  let result ← replaceIncumbents
    (fun incumbent => dwellComplete ((KeyedDict.get id incumbent memberSince).getD effectiveAt)
      effectiveAt minimumDwell)
    (preferred.take 5) normalReplacementLimit preferred 0 (fillBucket preferred kept)
  if result.length ≠ 5 then
    .error "not enough qualified instruments to fill candidate role"
  else if forcedVacancies = 0 ∧
      normalReplacementLimit < (current.toFinset \ result.toFinset).card then
    .error "candidate replacement limit exceeded"
  else return sortedSymbols result

/-! ## The selection -/

section Select
variable (active : UniverseDecision) (evidence : MarketEvidence) (effectiveAt : Datetime)
  (memberSince coreSince : List (String × Datetime)) (policy : RollingPolicy)

/-- The evidence of an active member does not allow a decision. -/
def Incomplete (symbol : String) : Prop :=
  match evidence.rows.find? fun row => row.symbol = symbol with
  | none => True
  | some row => ¬ row.Complete policy ∨
      (symbol ∈ active.core ++ active.boundary ∧ ¬ row.Mature policy) ∨
      (symbol ∈ active.probe ∧ ¬ row.Observed policy)

instance (symbol : String) : Decidable (Incomplete active evidence policy symbol) := by
  unfold Incomplete
  split <;> infer_instance

def incompleteActive : List String :=
  sortedSymbols (active.members.filter fun symbol =>
    symbol ∉ evidence.inactive active.members ∧ Incomplete active evidence policy symbol)

def preserveActive (maturePoolCount probePoolCount : Nat) (marketContext : MarketContext)
    (reason : Option String) : SelectionResult where
  core := active.core
  boundary := active.boundary
  probe := active.probe
  inactive := sortedSymbols (evidence.inactive active.members)
  sourceHashes := evidence.sourceHashes
  maturePoolCount
  probePoolCount
  marketContext
  decisionFrozenReason := reason

/-- The loop over the inactive members of the core, by position. -/
def replaceInactive (inactive pool : List String) (core : List String) :
    Except String (List String) :=
  (List.range core.length).foldlM (fun core index => do
    let symbol ← itemAt core index
    if symbol ∈ inactive then
      match takeFirst pool core with
      | none => .error "not enough mature instruments to replace inactive core"
      | some replacement => .ok (replaceFirst core symbol replacement)
    else .ok core) core

/-- The weekly loop: the best challengers against the worst removable incumbents. -/
def rotateCore (ranks : List (String × Nat)) (dwelt : String → Except String Bool) :
    List String → Nat → List String → Except String (List String)
  | [], _, core => .ok core
  | challenger :: promotable, changes, core =>
      if policy.coreWeeklyReplacements ≤ changes then .ok core
      else do
        let removable ← core.filterM fun symbol =>
          if policy.coreRetainRank < rankOrLast ranks symbol then dwelt symbol else .ok false
        match removable.argmax (rankOrLast ranks) with
        | none => .ok core
        | some incumbent =>
            if rankOrLast ranks incumbent ≤ rankOrLast ranks challenger then .ok core
            else
              rotateCore ranks dwelt promotable (changes + 1)
                (replaceFirst core incumbent challenger)

/-- The dwell test of a member of the core. -/
def coreDwelt (symbol : String) : Except String Bool := do
  let required ← Timedelta.ofDays policy.coreMinimumDwellDays
  dwellComplete ((KeyedDict.get id symbol coreSince).getD active.effectiveAt) effectiveAt required

def selectCore (allowNormalChanges : Bool) (mature : List String) :
    Except String (List String) := do
  let pool := mature.filter fun symbol => symbol ∉ active.core
  let core ← replaceInactive (evidence.inactive active.members) pool active.core
  if allowNormalChanges ∧ effectiveAt.weekday = 0 then
    rotateCore policy (poolRanks mature) (coreDwelt active effectiveAt coreSince policy)
      (pool.filter fun symbol => symbol ∉ core ∧
        rankOrLast (poolRanks mature) symbol ≤ policy.coreEntryRank)
      (active.core.toFinset \ core.toFinset).card core
  else return core

def selectProbe (allowNormalChanges : Bool) (core preferred : List String) :
    Except String (List String) := do
  let minimumDwell ← Timedelta.ofHours policy.candidateMinimumDwellHours
  reconcileBucket active.probe preferred core (evidence.inactive active.members) memberSince
    effectiveAt minimumDwell (if allowNormalChanges then 1 else 0)

/-- `protected_boundary`, sorted by `boundary_rank[symbol]`. -/
def protectedBoundary (core probe ranked : List String) : Except String (List String) := do
  let kept := active.boundary.filter fun symbol =>
    symbol ∉ evidence.inactive active.members ∧ symbol ∉ core ∧ symbol ∉ probe ∧
      rankOrLast (poolRanks ranked) symbol ≤ policy.boundaryRetainRank
  let keyed ← kept.mapM fun symbol => do
    let rank ← rankOf (poolRanks ranked) symbol
    return (rank, symbol)
  return (keyed.insertionSort fun a b => a.1 ≤ b.1).map Prod.snd

def selectBoundary (allowNormalChanges : Bool) (core probe ranked : List String) :
    Except String (List String) := do
  let protectedSymbols ← protectedBoundary active evidence policy core probe ranked
  let minimumDwell ← Timedelta.ofHours policy.candidateMinimumDwellHours
  reconcileBucket active.boundary (protectedSymbols ++ ranked) (core ++ probe)
    (evidence.inactive active.members) memberSince effectiveAt minimumDwell
    (if allowNormalChanges then max 1 (policy.candidateDailyReplacements - 1) else 0)

/-- Why normal changes are not allowed. -/
def freezeReason (context : MarketContext) : Option String :=
  if context.panelCount < policy.marketContextMinimumInstruments then
    some "market_context_panel_incomplete"
  else if context.state = .shockPending then some "market_activity_shock_pending"
  else none

def selectRollingUniverse : Except String SelectionResult := do
  let mature ← maturePool evidence.rows policy
  let probes ← probePool evidence.rows policy
  let context ← marketContext evidence.rows policy
  let preserve := preserveActive active evidence mature.length
  let incomplete := incompleteActive active evidence policy
  if incomplete ≠ [] then
    return preserve probes.length context
      (some ("active_member_evidence_incomplete:" ++ ",".intercalate incomplete))
  else if mature.length < 55 ∨ probes.length < 5 then
    return preserve probes.length context (some "cross_sectional_reserve_incomplete")
  else
    let frozen := freezeReason policy context
    let allowNormalChanges := frozen.isNone
    if allowNormalChanges = false ∧ evidence.inactive active.members = [] then
      return preserve probes.length context frozen
    else
      let symbols := mature.map MarketRow.symbol
      let core ← selectCore active evidence effectiveAt coreSince policy allowNormalChanges symbols
      let preferred := (probes.map MarketRow.symbol).filter fun symbol => symbol ∉ core
      if preferred.length < 5 then
        return preserve preferred.length context (some "probe_reserve_incomplete")
      else
        let probe ← selectProbe active evidence effectiveAt memberSince policy allowNormalChanges
          core preferred
        let ranked := symbols.filter fun symbol => symbol ∉ core ∧ symbol ∉ probe
        if ranked.length < 5 then
          return preserve preferred.length context (some "boundary_reserve_incomplete")
        else
          let boundary ← selectBoundary active evidence effectiveAt memberSince policy
            allowNormalChanges core probe ranked
          return {
            core := sortedSymbols core
            boundary := sortedSymbols boundary
            probe := sortedSymbols probe
            inactive := sortedSymbols (evidence.inactive active.members)
            sourceHashes := evidence.sourceHashes
            maturePoolCount := mature.length
            probePoolCount := preferred.length
            marketContext := context
            decisionFrozenReason := frozen }

end Select

end MiryFormal
