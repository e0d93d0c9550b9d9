import Mathlib.Data.List.Sort
import Mathlib.Data.Prod.Lex
import Mathlib.Data.String.Basic
import Mathlib.Algebra.Order.Ring.Int
import MiryFormal.Contracts.Symbols
import MiryFormal.Shared.Fallible
import MiryFormal.Shared.Json

/-!
# Daily kline evidence

`_fetch_daily_klines` keeps the cached rows of the expected days and asks for as many rows as days
are missing, from the first missing day on. The rows of the answer go to the missing days as long
as the exchange has no other rows between them.
-/

namespace MiryFormal

set_option autoImplicit false

/-- A request of `/fapi/v1/klines` with the interval `1d`. -/
structure KlineRequest where
  symbol : String
  startTime : Int
  endTime : Int
  limit : Nat

/-- What is stored of a symbol. -/
structure SymbolKlines where
  payload : List Json
  sourceHashes : List String

def dayMs : Int := 86400000

section Model
variable (reading : Json.Reading) (text : SymbolText)

/-! ## The instruments and the cache -/

/-- One round of the loop of `_eligible_instruments`. -/
def addInstrument (symbols : List (String × Int)) (item : Json) :
    Except String (List (String × Int)) :=
  match item with
  | .obj members =>
      match Json.member "symbol" members with
      | some (.str symbol) =>
          if Json.isText "TRADING" (Json.member "status" members) = true ∧
              Json.isText "PERPETUAL" (Json.member "contractType" members) = true ∧
              Json.isText "USDT" (Json.member "quoteAsset" members) = true ∧
              Json.isText "USDT" (Json.member "marginAsset" members) = true ∧
              isExchangeSymbol text symbol = true then
            match (Json.member "onboardDate" members).map fun date =>
                reading.parseInt (date.toText reading) with
            | some (.ok onboardMs) =>
                if onboardMs ≤ 0 then .error ("invalid onboardDate for " ++ symbol)
                else .ok (KeyedDict.set id symbol onboardMs symbols)
            | _ => .error ("invalid onboardDate for " ++ symbol)
          else .ok symbols
      | _ => .error "exchangeInfo contains an invalid symbol row"
  | _ => .error "exchangeInfo contains an invalid symbol row"

def eligibleInstruments (exchangeInfo : Json) : Except String (List (String × Int)) :=
  match exchangeInfo with
  | .obj members =>
      match Json.member "symbols" members with
      | some (.arr items) =>
          (items.foldlM (addInstrument reading text) []).map fun symbols =>
            symbols.insertionSort fun a b => toLex a ≤ toLex b
      | _ => .error "exchangeInfo must contain a symbols array"
  | _ => .error "exchangeInfo must contain a symbols array"

/-- `_cached_daily_klines`; there is no document when no file can be read. -/
def cachedDailyKlines (file : Option Json) : List (String × Json) :=
  match file with
  | some (.obj members) =>
      match Json.member "symbols" members with
      | some (.obj symbols) => symbols.filter fun entry =>
          match entry.2 with
          | .obj _ => true
          | _ => false
      | _ => []
  | _ => []

/-- `cached.get(symbol, {})` -/
def cachedValue (cached : List (String × Json)) (symbol : String) : List (String × Json) :=
  match Json.member symbol cached with
  | some (.obj members) => members
  | _ => []

def cachedPayload (cached : List (String × Json)) : List Json :=
  match Json.member "payload" cached with
  | some (.arr rows) => rows
  | _ => []

def cachedHashes (cached : List (String × Json)) : List String :=
  let hashes :=
    match Json.member "source_response_sha256s" cached with
    | some (.arr values) => values.map (Json.toText reading)
    | _ => []
  match hashes, Json.member "response_sha256" cached with
  | [], some (.str hash) => [hash]
  | _, _ => hashes

/-! ## The rows of a symbol -/

/-- `range(max(start_ms, first_full_day), cutoff_ms, 86_400_000)` -/
def expectedDays (startMs cutoffMs onboardMs : Int) : List Int :=
  let first := max startMs ((onboardMs + dayMs - 1) / dayMs * dayMs)
  (List.range ((cutoffMs - first + dayMs - 1) / dayMs).toNat).map fun day : Nat => first + day * dayMs

/-- `int(row[0])` of a list of at least nine values. -/
def rowOpen : Json → Option (Except String Int)
  | .arr (first :: rest) => if 8 ≤ rest.length then some (first.toInt reading) else none
  | _ => none

/-- A row goes to its day, when that is expected. -/
def addRow (expected : List Int) (byOpen : List (Int × Json)) (row : Json) :
    Except String (List (Int × Json)) :=
  match rowOpen reading row with
  | none => .ok byOpen
  | some (.error message) => .error message
  | some (.ok openMs) =>
      if openMs ∈ expected then .ok (KeyedDict.set id openMs row byOpen) else .ok byOpen

def missingDays (expected : List Int) (byOpen : List (Int × Json)) : List Int :=
  expected.filter fun openMs => KeyedDict.get id openMs byOpen = none

/-- The rows of the answer, when there is a question to ask; with the hash of the answer. -/
def completeRows (fetch : KlineRequest → Json × String) (symbol : String) (expected : List Int)
    (cutoffMs : Int) (byOpen : List (Int × Json)) :
    Except String (List (Int × Json) × List String) :=
  match (missingDays expected byOpen).min? with
  | none => .ok (byOpen, [])
  | some first =>
      let response := fetch {
        symbol := symbol
        startTime := first
        endTime := cutoffMs - 1
        limit := (missingDays expected byOpen).length }
      match response.1 with
      | .arr rows => (rows.foldlM (addRow reading expected) byOpen).map (·, [response.2])
      | _ => .error ("daily kline response is not an array for " ++ symbol)

/-- The loop body of `_fetch_daily_klines`. -/
def symbolKlines (fetch : KlineRequest → Json × String) (evidenceDays : Nat) (cutoffMs : Int)
    (cached : List (String × Json)) (instrument : String × Int) : Except String SymbolKlines := do
  let expected := expectedDays (cutoffMs - evidenceDays * dayMs) cutoffMs instrument.2
  let byOpen ← (cachedPayload cached).foldlM (addRow reading expected) []
  let completed ← completeRows reading fetch instrument.1 expected cutoffMs byOpen
  let hashes := (cachedHashes reading cached ++ completed.2).eraseDups
  return {
    payload := (completed.1.insertionSort fun a b => a.1 ≤ b.1).map Prod.snd
    sourceHashes := hashes.drop (hashes.length - (evidenceDays + 1)) }

def SymbolKlines.document (klines : SymbolKlines) : Json :=
  .obj [("payload", .arr klines.payload),
    ("source_response_sha256s", .arr (klines.sourceHashes.map .str))]

def klineEvidence (startMs cutoffMs : Int) (responses : List (String × SymbolKlines)) : Json :=
  .obj [("endpoint", .str "/fapi/v1/klines"), ("interval", .str "1d"), ("schema_version", .int 1),
    ("window_end_exclusive_ms", .int cutoffMs), ("window_start_ms", .int startMs),
    ("symbols", .obj (responses.map fun response => (response.1, response.2.document)))]

/-- The responses of `_fetch_daily_klines`. -/
def klineResponses (fetch : KlineRequest → Json × String) (evidenceDays : Nat) (cutoffMs : Int)
    (file : Option Json) (exchangeInfo : Json) : Except String (List (String × SymbolKlines)) := do
  let instruments ← eligibleInstruments reading text exchangeInfo
  instruments.mapM fun instrument =>
    (symbolKlines reading fetch evidenceDays cutoffMs
      (cachedValue (cachedDailyKlines file) instrument.1) instrument).map (instrument.1, ·)

/-- `_fetch_daily_klines` -/
def fetchDailyKlines (fetch : KlineRequest → Json × String) (evidenceDays : Nat) (cutoffMs : Int)
    (file : Option Json) (exchangeInfo : Json) : Except String Json :=
  (klineResponses reading text fetch evidenceDays cutoffMs file exchangeInfo).map
    (klineEvidence (cutoffMs - evidenceDays * dayMs) cutoffMs)

end Model

/-! ## Rows under their days -/

variable {reading : Json.Reading} {expected : List Int}

/-- Every row stands under the expected day at which it opens. -/
structure Filed (reading : Json.Reading) (expected : List Int) (byOpen : List (Int × Json)) :
    Prop where
  distinct : KeyedDict.Distinct id byOpen
  opens : ∀ entry ∈ byOpen, entry.1 ∈ expected ∧ rowOpen reading entry.2 = some (.ok entry.1)

def days (byOpen : List (Int × Json)) : List Int := byOpen.map Prod.fst

theorem addRow_spec {byOpen out : List (Int × Json)} {row : Json}
    (h : addRow reading expected byOpen row = .ok out) (hfiled : Filed reading expected byOpen) :
    Filed reading expected out ∧ ∀ day, day ∈ days out ↔
      day ∈ days byOpen ∨ day ∈ expected ∧ rowOpen reading row = some (.ok day) := by
  unfold addRow at h
  split at h
  · rename_i hnone
    cases h
    exact ⟨hfiled, fun day => by rw [hnone]; simp⟩
  · cases h
  · rename_i openMs hopen
    split at h
    · rename_i hin
      cases h
      refine ⟨⟨KeyedDict.distinct_set hfiled.distinct _ _, ?_⟩, fun day => ?_⟩
      · intro entry hm
        cases KeyedDict.mem_set hm with
        | inl hold => exact hfiled.opens entry hold
        | inr hnew =>
          obtain ⟨hkey, hrow⟩ := hnew
          rw [id, id] at hkey
          rw [hkey, hrow]
          exact ⟨hin, hopen⟩
      · rw [days, KeyedDict.mem_keys_set, hopen]
        constructor
        · intro h
          cases h with
          | inl hsame =>
            subst hsame
            exact .inr ⟨hin, rfl⟩
          | inr hold => exact .inl hold
        · intro h
          cases h with
          | inl hold => exact .inr hold
          | inr hnew =>
            obtain ⟨-, hsame⟩ := hnew
            cases hsame
            exact .inl rfl
    · rename_i hout
      cases h
      refine ⟨hfiled, fun day => ⟨.inl, fun h => ?_⟩⟩
      cases h with
      | inl hold => exact hold
      | inr hnew =>
        obtain ⟨hin, hsame⟩ := hnew
        rw [hopen] at hsame
        cases hsame
        exact absurd hin hout

theorem addRows_spec {byOpen out : List (Int × Json)} {rows : List Json}
    (h : rows.foldlM (addRow reading expected) byOpen = .ok out)
    (hfiled : Filed reading expected byOpen) :
    Filed reading expected out ∧ ∀ day, day ∈ days out ↔
      day ∈ days byOpen ∨ day ∈ expected ∧ ∃ row ∈ rows, rowOpen reading row = some (.ok day) := by
  induction rows generalizing byOpen with
  | nil =>
    cases h
    exact ⟨hfiled, fun day => by simp⟩
  | cons row rows ih =>
    rw [List.foldlM_cons] at h
    obtain ⟨next, hfirst, hrest⟩ := exists_of_bind_ok h
    obtain ⟨hnext, hdays⟩ := addRow_spec hfirst hfiled
    obtain ⟨hout, hall⟩ := ih hrest hnext
    refine ⟨hout, fun day => ?_⟩
    rw [hall, hdays]
    simp only [List.mem_cons, exists_eq_or_imp]
    tauto

/-- No row is in the way of `int`. -/
def ReadableRows (reading : Json.Reading) (rows : List Json) : Prop :=
  ∀ row ∈ rows, ∀ message, rowOpen reading row ≠ some (.error message)

theorem addRow_returns {byOpen : List (Int × Json)} {row : Json} :
    (∃ out, addRow reading expected byOpen row = .ok out) ↔
      ∀ message, rowOpen reading row ≠ some (.error message) := by
  unfold addRow
  split
  · rename_i hnone
    constructor
    · intro _ message herror
      rw [hnone] at herror
      cases herror
    · exact fun _ => ⟨byOpen, rfl⟩
  · rename_i message herror
    constructor
    · intro ⟨out, h⟩
      cases h
    · exact fun h => absurd herror (h message)
  · rename_i openMs hopen
    constructor
    · intro _ message herror
      rw [hopen] at herror
      cases herror
    · intro _
      split
      · exact ⟨_, rfl⟩
      · exact ⟨_, rfl⟩

theorem addRows_returns {byOpen : List (Int × Json)} {rows : List Json} :
    (∃ out, rows.foldlM (addRow reading expected) byOpen = .ok out) ↔ ReadableRows reading rows := by
  induction rows generalizing byOpen with
  | nil => exact ⟨fun _ _ hm => absurd hm List.not_mem_nil, fun _ => ⟨byOpen, rfl⟩⟩
  | cons row rows ih =>
    rw [List.foldlM_cons]
    unfold ReadableRows
    rw [List.forall_mem_cons, ← @addRow_returns reading expected byOpen row]
    constructor
    · intro ⟨out, h⟩
      obtain ⟨next, hfirst, hrest⟩ := exists_of_bind_ok h
      exact ⟨⟨next, hfirst⟩, ih.mp ⟨out, hrest⟩⟩
    · intro ⟨hfirst, hrest⟩
      exact bind_total hfirst fun next _ => ih.mpr hrest

/-! ## The days of a symbol -/

/-- The first so many elements of an increasing list hold those with no more elements up to them. -/
theorem mem_take_iff {l : List Int} (hl : l.Pairwise (· < ·)) {x : Int} {n : Nat} :
    x ∈ l.take n ↔ x ∈ l ∧ l.countP (fun y => y ≤ x) ≤ n := by
  induction l generalizing n with
  | nil => simp
  | cons first l ih =>
    obtain ⟨hfirst, hrest⟩ := List.pairwise_cons.mp hl
    cases n with
    | zero =>
      refine ⟨fun h => absurd h List.not_mem_nil, fun ⟨hm, hcount⟩ => ?_⟩
      have hself : 0 < (first :: l).countP fun y => y ≤ x :=
        List.countP_pos_iff.mpr ⟨x, hm, decide_eq_true (le_refl x)⟩
      omega
    | succ n =>
      rw [List.take_succ_cons, List.mem_cons, List.mem_cons, ih hrest, List.countP_cons]
      by_cases hhead : x = first
      · have hnone : l.countP (fun y => y ≤ x) = 0 := by
          rw [List.countP_eq_zero]
          intro y hy hle
          have hless := hfirst y hy
          have hupper := of_decide_eq_true hle
          omega
        rw [hnone]
        simp [hhead]
      · constructor
        · intro h
          obtain ⟨hm, hcount⟩ := h.resolve_left hhead
          refine ⟨.inr hm, ?_⟩
          split <;> omega
        · intro ⟨hm, hcount⟩
          have hin := hm.resolve_left hhead
          rw [if_pos (decide_eq_true (hfirst x hin).le)] at hcount
          exact .inr ⟨hin, Nat.le_of_succ_le_succ hcount⟩

theorem lt_cutoff {startMs cutoffMs onboardMs day : Int}
    (h : day ∈ expectedDays startMs cutoffMs onboardMs) : day < cutoffMs := by
  unfold expectedDays at h
  dsimp only at h
  obtain ⟨index, hm, rfl⟩ := List.mem_map.mp h
  have hindex := List.mem_range.mp hm
  unfold dayMs at hindex ⊢
  omega

/-- The klines of the symbols at the exchange. A kline is its open time and the other values. -/
structure KlineExchange where
  klines : String → List (Int × List Json)
  ordered : ∀ symbol, ((klines symbol).map Prod.fst).Pairwise (· < ·)
  listed : ∀ symbol, ∀ kline ∈ klines symbol, 8 ≤ kline.2.length

def klineRow (kline : Int × List Json) : Json := .arr (.int kline.1 :: kline.2)

/-- The first klines in the asked interval, as many as are asked for. -/
def KlineExchange.answer (exchange : KlineExchange) (request : KlineRequest) : List Json :=
  (((exchange.klines request.symbol).filter fun kline =>
    request.startTime ≤ kline.1 ∧ kline.1 ≤ request.endTime).take request.limit).map klineRow

/-- The response, with the hash of its bytes. -/
def KlineExchange.fetch (exchange : KlineExchange) (hash : Json → String) (request : KlineRequest) :
    Json × String :=
  (.arr (exchange.answer request), hash (.arr (exchange.answer request)))

variable {exchange : KlineExchange} {hash : Json → String} {symbol : String}

theorem rowOpen_kline {kline : Int × List Json} (h : kline ∈ exchange.klines symbol) :
    rowOpen reading (klineRow kline) = some (.ok kline.1) :=
  if_pos (exchange.listed symbol kline h)

theorem mem_answer {request : KlineRequest} {row : Json} (h : row ∈ exchange.answer request) :
    ∃ kline ∈ exchange.klines request.symbol, row = klineRow kline := by
  obtain ⟨kline, hm, rfl⟩ := List.mem_map.mp h
  exact ⟨kline, List.mem_of_mem_filter (List.mem_of_mem_take hm), rfl⟩

/-- A day is answered when it has a kline, and so many klines at most stand before it in the asked
interval. -/
theorem answers_iff (request : KlineRequest) (day : Int) :
    (∃ row ∈ exchange.answer request, rowOpen reading row = some (.ok day)) ↔
      day ∈ (exchange.klines request.symbol).map Prod.fst ∧ request.startTime ≤ day ∧
        day ≤ request.endTime ∧
        (exchange.klines request.symbol).countP (fun kline =>
          request.startTime ≤ kline.1 ∧ kline.1 ≤ day) ≤ request.limit := by
  have hordered : (((exchange.klines request.symbol).filter fun kline =>
      request.startTime ≤ kline.1 ∧ kline.1 ≤ request.endTime).map Prod.fst).Pairwise (· < ·) :=
    (exchange.ordered request.symbol).sublist (List.filter_sublist.map Prod.fst)
  have hopens : (∃ row ∈ exchange.answer request, rowOpen reading row = some (.ok day)) ↔
      day ∈ (((exchange.klines request.symbol).filter fun kline =>
        request.startTime ≤ kline.1 ∧ kline.1 ≤ request.endTime).map Prod.fst).take
          request.limit := by
    rw [← List.map_take]
    constructor
    · intro ⟨row, hm, hopen⟩
      obtain ⟨kline, hin, rfl⟩ := List.mem_map.mp hm
      rw [rowOpen_kline (List.mem_of_mem_filter (List.mem_of_mem_take hin))] at hopen
      cases hopen
      exact List.mem_map_of_mem hin
    · intro hm
      obtain ⟨kline, hin, rfl⟩ := List.mem_map.mp hm
      exact ⟨klineRow kline, List.mem_map_of_mem hin,
        rowOpen_kline (List.mem_of_mem_filter (List.mem_of_mem_take hin))⟩
  rw [hopens, mem_take_iff hordered, List.countP_map, List.countP_filter]
  have hasked : day ∈ ((exchange.klines request.symbol).filter fun kline =>
      request.startTime ≤ kline.1 ∧ kline.1 ≤ request.endTime).map Prod.fst ↔
      day ∈ (exchange.klines request.symbol).map Prod.fst ∧ request.startTime ≤ day ∧
        day ≤ request.endTime := by
    simp only [List.mem_map, List.mem_filter, decide_eq_true_eq]
    constructor
    · intro ⟨kline, hm, hsame⟩
      rw [← hsame]
      exact ⟨⟨kline, hm.1, rfl⟩, hm.2⟩
    · intro ⟨⟨kline, hm, hsame⟩, hbounds⟩
      exact ⟨kline, ⟨hm, hsame ▸ hbounds⟩, hsame⟩
  rw [hasked, and_assoc, and_assoc]
  refine and_congr_right fun _ => and_congr_right fun _ => and_congr_right fun hupper => ?_
  rw [List.countP_congr]
  intro kline _
  simp only [Function.comp_apply, Bool.and_eq_true, decide_eq_true_eq]
  omega

/-! ## The payload -/

/-- The rows open in increasing order, at expected days, and at every expected day of which there
is a kline. -/
def CompletePayload (reading : Json.Reading) (expected : List Int) (klines : List (Int × List Json))
    (payload : List Json) : Prop :=
  ∃ opens : List Int,
    List.Forall₂ (fun row openMs => rowOpen reading row = some (.ok openMs)) payload opens ∧
    opens.Pairwise (· < ·) ∧ (∀ day ∈ opens, day ∈ expected) ∧
    ∀ day ∈ expected, day ∈ klines.map Prod.fst → day ∈ opens

theorem Filed.completePayload {byOpen : List (Int × Json)} (h : Filed reading expected byOpen)
    {klines : List (Int × List Json)} :
    CompletePayload reading expected klines
        ((byOpen.insertionSort fun a b => a.1 ≤ b.1).map Prod.snd) ↔
      ∀ day ∈ expected, day ∈ klines.map Prod.fst → day ∈ days byOpen := by
  have hperm := List.perm_insertionSort (fun a b : Int × Json => a.1 ≤ b.1) byOpen
  generalize hsort : byOpen.insertionSort (fun a b => a.1 ≤ b.1) = sorted at hperm ⊢
  have hopens : List.Forall₂ (fun row openMs => rowOpen reading row = some (.ok openMs))
      (sorted.map Prod.snd) (sorted.map Prod.fst) := by
    rw [List.forall₂_map_left_iff, List.forall₂_map_right_iff, List.forall₂_same]
    exact fun entry hm => (h.opens entry (hperm.subset hm)).2
  have hincreasing : (sorted.map Prod.fst).Pairwise (· < ·) := by
    have hordered : (sorted.map Prod.fst).Pairwise (· ≤ ·) := by
      rw [← hsort]
      exact List.pairwise_map.mpr (List.pairwise_insertionSort _ byOpen)
    have hdistinct : (sorted.map Prod.fst).Nodup := (hperm.map Prod.fst).nodup_iff.mpr h.distinct
    exact (hordered.and hdistinct).imp fun hpair => lt_of_le_of_ne hpair.1 hpair.2
  have hdays : ∀ day, day ∈ sorted.map Prod.fst ↔ day ∈ days byOpen :=
    fun day => (hperm.map Prod.fst).mem_iff
  constructor
  · intro hcomplete day hday hkline
    obtain ⟨opens, hall, -, -, hhas⟩ := hcomplete
    have hsame : opens = sorted.map Prod.fst := by
      have hinjective : Function.Injective fun openMs : Int =>
          (some (.ok openMs) : Option (Except String Int)) :=
        fun _ _ heq => Except.ok.inj (Option.some.inj heq)
      apply List.map_injective_iff.mpr hinjective
      rw [← map_eq_of_forall₂ hall fun _ _ _ hopen => hopen,
        ← map_eq_of_forall₂ hopens fun _ _ _ hopen => hopen]
    rw [← hdays, ← hsame]
    exact hhas day hday hkline
  · intro hhas
    refine ⟨_, hopens, hincreasing, ?_, ?_⟩
    · intro day hm
      obtain ⟨entry, hentry, rfl⟩ := List.mem_map.mp hm
      exact (h.opens entry (hperm.subset hentry)).1
    · exact fun day hday hkline => (hdays day).mpr (hhas day hday hkline)

/-- The expected days at which no cached row opens. -/
def uncachedDays (reading : Json.Reading) (expected : List Int) (rows : List Json) : List Int :=
  expected.filter fun day => ∀ row ∈ rows, rowOpen reading row ≠ some (.ok day)

/-- From the first missing day up to a missing day that has a kline there are no more klines than
days are missing. -/
def Reached (klines : List (Int × List Json)) (missing : List Int) : Prop :=
  ∀ first ∈ missing.min?, ∀ day ∈ missing, day ∈ klines.map Prod.fst →
    klines.countP (fun kline => first ≤ kline.1 ∧ kline.1 ≤ day) ≤ missing.length

theorem mem_missingDays {byOpen : List (Int × Json)} (hfiled : Filed reading expected byOpen)
    (day : Int) : day ∈ missingDays expected byOpen ↔ day ∈ expected ∧ day ∉ days byOpen := by
  unfold missingDays
  rw [List.mem_filter, decide_eq_true_eq]
  refine and_congr_right fun _ => ⟨fun hnone hm => ?_, fun hnew => ?_⟩
  · obtain ⟨entry, hentry, hsame⟩ := List.mem_map.mp hm
    have hget := KeyedDict.get_of_mem hfiled.distinct hentry
    rw [id, hsame, hnone] at hget
    cases hget
  · apply KeyedDict.get_eq_none_of_notMem
    intro entry hentry hsame
    rw [id] at hsame
    exact hnew (hsame ▸ List.mem_map_of_mem hentry)

theorem missingDays_eq {rows : List Json} {byOpen : List (Int × Json)}
    (hfiled : Filed reading expected byOpen) (hdays : ∀ day, day ∈ days byOpen ↔
      day ∈ expected ∧ ∃ row ∈ rows, rowOpen reading row = some (.ok day)) :
    missingDays expected byOpen = uncachedDays reading expected rows := by
  have hmissing := @mem_missingDays _ _ _ hfiled
  unfold missingDays at hmissing
  unfold missingDays uncachedDays
  apply List.filter_congr
  intro day hday
  have hnone := hmissing day
  rw [List.mem_filter, hdays] at hnone
  rw [Bool.eq_iff_iff, decide_eq_true_eq (p := ∀ row ∈ rows, _)]
  constructor
  · intro hnew row hrow hopen
    exact (hnone.mp ⟨hday, hnew⟩).2 ⟨hday, row, hrow, hopen⟩
  · intro hno
    apply (hnone.mpr ⟨hday, ?_⟩).2
    intro hcached
    obtain ⟨-, row, hrow, hopen⟩ := hcached
    exact hno row hrow hopen

/-- The days that the answer adds are the missing ones that it reaches. -/
theorem completeRows_spec {byOpen : List (Int × Json)} {cutoffMs : Int}
    (hfiled : Filed reading expected byOpen) (hcutoff : ∀ day ∈ expected, day < cutoffMs) :
    ∃ completed hashes, completeRows reading (exchange.fetch hash) symbol expected cutoffMs byOpen =
        .ok (completed, hashes) ∧ Filed reading expected completed ∧
      ((∀ day ∈ expected, day ∈ (exchange.klines symbol).map Prod.fst → day ∈ days completed) ↔
        Reached (exchange.klines symbol) (missingDays expected byOpen)) := by
  have hmissing := @mem_missingDays _ _ _ hfiled
  unfold completeRows
  cases hfirst : (missingDays expected byOpen).min? with
  | none =>
    refine ⟨byOpen, [], rfl, hfiled, ?_, ?_⟩
    · intro _ first hm
      rw [hfirst] at hm
      cases hm
    · intro _ day hday _
      by_contra hnone
      exact List.ne_nil_of_mem ((hmissing day).mpr ⟨hday, hnone⟩) (List.min?_eq_none_iff.mp hfirst)
  | some first =>
    dsimp only
    obtain ⟨hin, hleast⟩ := List.min?_eq_some_iff.mp hfirst
    have hreadable : ReadableRows reading (exchange.answer {
        symbol := symbol
        startTime := first
        endTime := cutoffMs - 1
        limit := (missingDays expected byOpen).length }) := by
      intro row hrow message herror
      obtain ⟨kline, hkline, rfl⟩ := mem_answer hrow
      rw [rowOpen_kline hkline] at herror
      cases herror
    obtain ⟨completed, hcompleted⟩ := addRows_returns.mpr hreadable
    obtain ⟨hfiled', hdays⟩ := addRows_spec hcompleted hfiled
    refine ⟨completed, _, congrArg (Except.map (·, [_])) hcompleted, hfiled', ?_⟩
    unfold Reached
    simp only [hfirst, Option.mem_some_iff, forall_eq', hdays, answers_iff]
    constructor
    · intro hall day hday hkline
      obtain ⟨hexpected, hnew⟩ := (hmissing day).mp hday
      exact ((hall day hexpected hkline).resolve_left hnew).2.2.2.2
    · intro hreached day hexpected hkline
      by_cases hold : day ∈ days byOpen
      · exact .inl hold
      · have hday := (hmissing day).mpr ⟨hexpected, hold⟩
        have hupper := hcutoff day hexpected
        exact .inr ⟨hexpected, hkline, hleast day hday, by omega, hreached day hday hkline⟩

variable {evidenceDays : Nat} {cutoffMs : Int} {cached : List (String × Json)}
variable {instrument : String × Int}

/-- The expected days of an instrument. -/
def instrumentDays (evidenceDays : Nat) (cutoffMs : Int) (instrument : String × Int) : List Int :=
  expectedDays (cutoffMs - evidenceDays * dayMs) cutoffMs instrument.2

/-- A symbol gets its klines exactly when its cached rows can be read and the missing days are
reached. -/
theorem symbolKlines_iff :
    (∃ response, symbolKlines reading (exchange.fetch hash) evidenceDays cutoffMs cached instrument =
        .ok response ∧
      CompletePayload reading (instrumentDays evidenceDays cutoffMs instrument)
        (exchange.klines instrument.1) response.payload) ↔
      ReadableRows reading (cachedPayload cached) ∧ Reached (exchange.klines instrument.1)
        (uncachedDays reading (instrumentDays evidenceDays cutoffMs instrument)
          (cachedPayload cached)) := by
  have hcutoff : ∀ day ∈ instrumentDays evidenceDays cutoffMs instrument, day < cutoffMs :=
    fun _ hm => lt_cutoff hm
  by_cases hreadable : ReadableRows reading (cachedPayload cached)
  · have hreturns : ∃ byOpen, (cachedPayload cached).foldlM
        (addRow reading (instrumentDays evidenceDays cutoffMs instrument)) [] = .ok byOpen :=
      addRows_returns.mpr hreadable
    obtain ⟨byOpen, hrows⟩ := hreturns
    obtain ⟨hfiled, hdays⟩ := addRows_spec hrows
      ⟨List.nodup_nil, fun _ hm => absurd hm List.not_mem_nil⟩
    obtain ⟨completed, hashes, hcompleted, hfiled', hiff⟩ :=
      @completeRows_spec _ _ exchange hash instrument.1 _ _ hfiled hcutoff
    rw [missingDays_eq hfiled fun day => (hdays day).trans (or_iff_right List.not_mem_nil)] at hiff
    have hok : symbolKlines reading (exchange.fetch hash) evidenceDays cutoffMs cached instrument =
        .ok _ := bind_eq hrows (bind_eq hcompleted rfl)
    rw [← hiff, ← hfiled'.completePayload, hok]
    constructor
    · intro ⟨response, hresponse, hcomplete⟩
      cases hresponse
      exact ⟨hreadable, hcomplete⟩
    · exact fun h => ⟨_, rfl, h.2⟩
  · refine ⟨fun h => ?_, fun h => absurd h.1 hreadable⟩
    obtain ⟨response, hresponse, -⟩ := h
    obtain ⟨byOpen, hrows, -⟩ := exists_of_bind_ok hresponse
    exact absurd (addRows_returns.mp ⟨byOpen, hrows⟩) hreadable

theorem document_injective : Function.Injective SymbolKlines.document := by
  intro a b h
  cases a
  cases b
  unfold SymbolKlines.document at h
  simp only [Json.obj.injEq, List.cons.injEq, Prod.mk.injEq, Json.arr.injEq, true_and,
    and_true] at h
  obtain ⟨hpayload, hhashes⟩ := h
  rw [hpayload, List.map_injective_iff.mpr (fun _ _ hsame => Json.str.inj hsame) hhashes]

theorem klineEvidence_injective (startMs cutoffMs : Int) :
    Function.Injective (klineEvidence startMs cutoffMs) := by
  intro a b h
  unfold klineEvidence at h
  simp only [Json.obj.injEq, List.cons.injEq, Prod.mk.injEq, true_and, and_true] at h
  apply List.map_injective_iff.mpr _ h
  intro left right hsame
  obtain ⟨hsymbol, hdocument⟩ := Prod.mk.inj hsame
  exact Prod.ext hsymbol (document_injective hdocument)

/-- What a stored response has to be for its instrument. -/
def CompleteResponse (reading : Json.Reading) (exchange : KlineExchange) (evidenceDays : Nat)
    (cutoffMs : Int) (instrument : String × Int) (response : String × SymbolKlines) : Prop :=
  response.1 = instrument.1 ∧ CompletePayload reading
    (instrumentDays evidenceDays cutoffMs instrument) (exchange.klines instrument.1)
    response.2.payload

/-- The evidence is complete for every eligible instrument exactly when the cached rows of each can
be read, and its missing days are reached by the request for them. -/
theorem fetchDailyKlines_complete (reading : Json.Reading) (text : SymbolText)
    (exchange : KlineExchange) (hash : Json → String) (evidenceDays : Nat) (cutoffMs : Int)
    (file : Option Json) (exchangeInfo : Json) (instruments : List (String × Int))
    (hinstruments : eligibleInstruments reading text exchangeInfo = .ok instruments) :
    (∃ responses, fetchDailyKlines reading text (exchange.fetch hash) evidenceDays cutoffMs file
        exchangeInfo =
          .ok (klineEvidence (cutoffMs - evidenceDays * dayMs) cutoffMs responses) ∧
      List.Forall₂ (CompleteResponse reading exchange evidenceDays cutoffMs) instruments
        responses) ↔
    ∀ instrument ∈ instruments,
      ReadableRows reading (cachedPayload (cachedValue (cachedDailyKlines file) instrument.1)) ∧
      Reached (exchange.klines instrument.1)
        (uncachedDays reading (instrumentDays evidenceDays cutoffMs instrument)
          (cachedPayload (cachedValue (cachedDailyKlines file) instrument.1))) := by
  constructor
  · intro ⟨responses, hfetch, hall⟩ instrument hm
    obtain ⟨stored, hstored, hsame⟩ := exists_of_map_ok hfetch
    obtain rfl := klineEvidence_injective _ _ hsame
    obtain ⟨found, hfound, hresponses⟩ := exists_of_bind_ok hstored
    obtain rfl := Except.ok.inj (hinstruments.symm.trans hfound)
    have hboth := List.Forall₂.mp (fun _ _ hok hcomplete => And.intro hok hcomplete)
      (forall₂_of_mapM_ok hresponses) hall
    obtain ⟨response, -, hmap, hcomplete⟩ := exists_of_forall₂ hboth hm
    obtain ⟨klines, hok, rfl⟩ := exists_of_map_ok hmap
    exact symbolKlines_iff.mp ⟨klines, hok, hcomplete.2⟩
  · intro hall
    have hreturns : ∀ instrument ∈ instruments, ∃ response,
        (symbolKlines reading (exchange.fetch hash) evidenceDays cutoffMs
          (cachedValue (cachedDailyKlines file) instrument.1) instrument).map (instrument.1, ·) =
            .ok response ∧
        CompleteResponse reading exchange evidenceDays cutoffMs instrument response := by
      intro instrument hm
      obtain ⟨response, hok, hcomplete⟩ := symbolKlines_iff.mpr (hall instrument hm)
      exact ⟨(instrument.1, response), congrArg (Except.map (instrument.1, ·)) hok, rfl, hcomplete⟩
    obtain ⟨responses, hok, hcomplete⟩ := exists_mapM hreturns
    exact ⟨responses, congrArg (Except.map _) (bind_eq hinstruments hok), hcomplete⟩

/-! ## Samples -/

/-- `int` of digits. -/
def sampleReading : Json.Reading where
  parseInt text :=
    if text = "" then .error "ValueError"
    else text.toList.foldlM (fun number c =>
      if c.isDigit then .ok (10 * number + (c.toNat - 48 : Nat)) else .error "ValueError") 0
  truncate _ := .error "ValueError"
  repr _ := ""

/-- A kline of a day. -/
def sampleKline (day : Nat) : Int × List Json :=
  (day * dayMs, List.replicate 11 (.str "0"))

/-- An exchange that has the days from 1 to 4 of every symbol. -/
def sampleExchange : KlineExchange where
  klines _ := [1, 2, 3, 4].map sampleKline
  ordered _ := by decide
  listed _ := by decide

def sampleInfo : Json :=
  .obj [("symbols", .arr [.obj [("symbol", .str "BTCUSDT"), ("status", .str "TRADING"),
    ("contractType", .str "PERPETUAL"), ("quoteAsset", .str "USDT"), ("marginAsset", .str "USDT"),
    ("onboardDate", .int 1)]])]

/-- The cache of a collector that has the given days. -/
def sampleCache (days : List Nat) : Json :=
  .obj [("symbols", .obj [("BTCUSDT", .obj [("payload",
    .arr (days.map fun day => klineRow (sampleKline day)))])])]

theorem eligibleInstruments_sample :
    eligibleInstruments sampleReading asciiText sampleInfo = .ok [("BTCUSDT", 1)] := by
  decide +kernel

/-- Days 1 and 4 are missing. The request is for two rows from day 1 on, and day 2 is the second. -/
theorem fetchDailyKlines_apart :
    fetchDailyKlines sampleReading asciiText (sampleExchange.fetch fun _ => "") 5 (5 * dayMs)
        (some (sampleCache [2, 3])) sampleInfo =
      .ok (klineEvidence 0 (5 * dayMs)
        [("BTCUSDT", ⟨[1, 2, 3].map fun day => klineRow (sampleKline day), [""]⟩)]) ∧
    4 * dayMs ∈ instrumentDays 5 (5 * dayMs) ("BTCUSDT", 1) ∧
    4 * dayMs ∈ (sampleExchange.klines "BTCUSDT").map Prod.fst := by
  refine ⟨?_, by decide +kernel, by decide +kernel⟩
  with_unfolding_all rfl

/-- Day 1 is missing, and is the first row of the answer. -/
theorem fetchDailyKlines_complete_first :
    ∃ responses, fetchDailyKlines sampleReading asciiText (sampleExchange.fetch fun _ => "") 5
        (5 * dayMs) (some (sampleCache [2, 3, 4])) sampleInfo =
          .ok (klineEvidence (5 * dayMs - (5 : Nat) * dayMs) (5 * dayMs) responses) ∧
      List.Forall₂ (CompleteResponse sampleReading sampleExchange 5 (5 * dayMs)) [("BTCUSDT", 1)]
        responses := by
  apply (fetchDailyKlines_complete sampleReading asciiText sampleExchange (fun _ => "") 5
    (5 * dayMs) (some (sampleCache [2, 3, 4])) sampleInfo [("BTCUSDT", 1)]
    eligibleInstruments_sample).mpr
  intro instrument hm
  rw [List.mem_singleton.mp hm]
  constructor
  · intro row hrow message herror
    have hcached : row ∈ [2, 3, 4].map fun day => klineRow (sampleKline day) := hrow
    obtain ⟨day, -, rfl⟩ := List.mem_map.mp hcached
    cases herror
  · unfold Reached
    decide +kernel

end MiryFormal
