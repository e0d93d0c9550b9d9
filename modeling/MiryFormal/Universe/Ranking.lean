import Mathlib
import MiryFormal.Shared.Fallible
import MiryFormal.Shared.KeyedDict

/-!
# Cross-sectional ranks

`rank_cross_section`: the rows are ranked by each metric, and ordered by their weakest rank,
then by the sum of their ranks, with deterministic ties.
-/

namespace MiryFormal

set_option autoImplicit false

variable {Row Value : Type} [LinearOrder Value]

/-- A metric, and whether larger values come first. -/
structure Metric (Row Value : Type) where
  value : Row → Value
  descending : Bool

/-- The sort key of `_metric_ranks`: by value, then by symbol. A key stands beside its item, since
`-value` is a decimal operation. -/
def MetricBefore (descending : Bool) (a b : Value × String × Value) : Prop :=
  if a.1 = b.1 then a.2.1 ≤ b.2.1 else if descending then b.1 ≤ a.1 else a.1 ≤ b.1

instance (descending : Bool) : DecidableRel (@MetricBefore Value _ descending) :=
  fun _ _ => inferInstanceAs (Decidable (ite _ _ _))

/-- An item under its key; `rounded` is what the unary minus makes of a number beside changing
its sign. -/
def metricKey (rounded : Value → Except String Value) (descending : Bool)
    (item : String × Value) : Except String (Value × String × Value) :=
  if descending then (rounded item.2).map fun key => (key, item) else .ok (item.2, item)

/-- The loop of `_metric_ranks`: equal values share the position of the first of them. -/
def assignRanks : List (String × Value) → Nat → Option Value → Nat → List (String × Nat)
  | [], _, _, _ => []
  | (symbol, value) :: rest, position, previous, rank =>
      let rank := if previous = some value then rank else position
      (symbol, rank) :: assignRanks rest (position + 1) (some value) rank

def metricRanks (rounded : Value → Except String Value) (values : List (String × Value))
    (descending : Bool) : Except String (List (String × Nat)) := do
  let keyed ← values.mapM (metricKey rounded descending)
  return assignRanks ((keyed.insertionSort (MetricBefore descending)).map Prod.snd) 1 none 0

/-- `_aggregate_key` -/
def aggregateKey (ranks : List Nat) (symbol : String) :
    Except String (Nat ×ₗ Nat ×ₗ List Nat ×ₗ String) :=
  if ranks = [] then .error "ValueError: max() iterable argument is empty"
  else .ok (toLex (ranks.foldl max 0, toLex (ranks.sum, toLex (ranks, symbol))))

/-- `ranks[symbol]` -/
def rankOf (ranks : List (String × Nat)) (symbol : String) : Except String Nat :=
  match KeyedDict.get id symbol ranks with
  | some rank => .ok rank
  | none => .error "KeyError"

/-- A row under its sort key. -/
def keyedRow (symbol : Row → String) (ranks : List (List (String × Nat))) (row : Row) :
    Except String ((Nat ×ₗ Nat ×ₗ List Nat ×ₗ String) × Row) := do
  let rowRanks ← ranks.mapM fun metricRanks => rankOf metricRanks (symbol row)
  let key ← aggregateKey rowRanks (symbol row)
  return (key, row)

/-- `{symbol(row): value(row) for row in rows}` -/
def metricValues (rows : List Row) (symbol : Row → String) (value : Row → Value) :
    List (String × Value) :=
  rows.foldl (fun values row => KeyedDict.set id (symbol row) (value row) values) []

def rankCrossSection (rounded : Value → Except String Value) (rows : List Row)
    (symbol : Row → String) (metrics : List (Metric Row Value)) : Except String (List Row) := do
  let ranks ← metrics.mapM fun metric =>
    metricRanks rounded (metricValues rows symbol metric.value) metric.descending
  let keyed ← rows.mapM (keyedRow symbol ranks)
  return (keyed.insertionSort fun a b => a.1 ≤ b.1).map Prod.snd

/-! ## What it returns -/

theorem map_fst_assignRanks (values : List (String × Value)) (position : Nat)
    (previous : Option Value) (rank : Nat) :
    (assignRanks values position previous rank).map Prod.fst = values.map Prod.fst := by
  induction values generalizing position previous rank with
  | nil => rfl
  | cons entry values ih => rw [assignRanks, List.map_cons, List.map_cons, ih]

omit [LinearOrder Value] in
theorem metricKey_spec {rounded : Value → Except String Value} {descending : Bool}
    {item : String × Value} {keyed : Value × String × Value}
    (h : metricKey rounded descending item = .ok keyed) : keyed.2 = item ∧
      (descending = true → rounded item.2 = .ok keyed.1) ∧
      (descending = false → keyed.1 = item.2) := by
  cases descending with
  | false =>
    cases h
    exact ⟨rfl, fun hfalse => absurd hfalse Bool.false_ne_true, fun _ => rfl⟩
  | true =>
    rw [metricKey, if_pos rfl] at h
    obtain ⟨key, hkey, rfl⟩ := exists_of_map_ok h
    exact ⟨rfl, fun _ => hkey, fun hfalse => absurd hfalse.symm Bool.false_ne_true⟩

omit [LinearOrder Value] in
/-- The items are sorted under their keys. -/
theorem map_snd_keyed {rounded : Value → Except String Value} {descending : Bool}
    {values : List (String × Value)} {keyed : List (Value × String × Value)}
    (h : values.mapM (metricKey rounded descending) = .ok keyed) : keyed.map Prod.snd = values := by
  have hsame := map_eq_of_forall₂ (f := id) (forall₂_of_mapM_ok h)
    fun item key _ hkey => (metricKey_spec hkey).1.symm
  rw [← hsame, List.map_id]

theorem metricRanks_ok {rounded : Value → Except String Value} {descending : Bool}
    {values : List (String × Value)}
    (h : ∀ item ∈ values, ∃ keyed, metricKey rounded descending item = .ok keyed) :
    ∃ ranks, metricRanks rounded values descending = .ok ranks := by
  obtain ⟨keyed, hkeyed⟩ := mapM_total h
  exact ⟨_, bind_eq hkeyed rfl⟩

omit [LinearOrder Value] in
theorem mem_keys_foldl (rows : List Row) (symbol : Row → String) (value : Row → Value)
    (values : List (String × Value)) {key : String} :
    key ∈ (rows.foldl (fun values row => KeyedDict.set id (symbol row) (value row) values)
        values).map Prod.fst ↔
      key ∈ rows.map symbol ∨ key ∈ values.map Prod.fst := by
  induction rows generalizing values with
  | nil => simp
  | cons row rows ih =>
    rw [List.foldl_cons, ih, KeyedDict.mem_keys_set, List.map_cons, List.mem_cons]
    tauto

omit [LinearOrder Value] in
theorem mem_foldl_set (rows : List Row) (symbol : Row → String) (value : Row → Value)
    (values : List (String × Value)) {item : String × Value}
    (h : item ∈ rows.foldl (fun values row => KeyedDict.set id (symbol row) (value row) values)
      values) : item ∈ values ∨ ∃ row ∈ rows, item.2 = value row := by
  induction rows generalizing values with
  | nil => exact .inl h
  | cons row rows ih =>
    cases ih _ h with
    | inl hset =>
      cases KeyedDict.mem_set hset with
      | inl hold => exact .inl hold
      | inr hnew => exact .inr ⟨row, List.mem_cons_self, hnew.2⟩
    | inr hlater =>
      obtain ⟨later, hm, hvalue⟩ := hlater
      exact .inr ⟨later, List.mem_cons_of_mem _ hm, hvalue⟩

theorem keys_metricRanks {metric : Metric Row Value} {rounded : Value → Except String Value}
    {rows : List Row} {symbol : Row → String} {ranks : List (String × Nat)}
    (h : metricRanks rounded (metricValues rows symbol metric.value) metric.descending = .ok ranks)
    {key : String} : key ∈ ranks.map Prod.fst ↔ key ∈ rows.map symbol := by
  obtain ⟨keyed, hkeyed, hranks⟩ := exists_of_bind_ok h
  cases hranks
  have hperm := (List.perm_insertionSort (MetricBefore metric.descending) keyed).map Prod.snd
  rw [map_snd_keyed hkeyed] at hperm
  rw [map_fst_assignRanks, (hperm.map Prod.fst).mem_iff]
  unfold metricValues
  rw [mem_keys_foldl]
  simp

theorem rankOf_ok {ranks : List (String × Nat)} {symbol : String}
    (h : symbol ∈ ranks.map Prod.fst) : ∃ rank, rankOf ranks symbol = .ok rank := by
  induction ranks with
  | nil => simp at h
  | cons entry ranks ih =>
    obtain ⟨first, rank⟩ := entry
    by_cases hfirst : first = symbol
    · exact ⟨rank, by rw [rankOf, KeyedDict.get, id, if_pos hfirst]⟩
    · rw [rankOf, KeyedDict.get, id, if_neg hfirst]
      exact ih (by simpa [hfirst, Ne.symm hfirst] using h)

theorem aggregateKey_ok {ranks : List Nat} (h : ranks ≠ []) (symbol : String) :
    aggregateKey ranks symbol =
      .ok (toLex (ranks.foldl max 0, toLex (ranks.sum, toLex (ranks, symbol)))) :=
  if_neg h

/-- The unary minus raises for no value of a metric that is sorted by it. -/
def Metric.Rounds (metric : Metric Row Value) (rounded : Value → Except String Value)
    (rows : List Row) : Prop :=
  metric.descending = true → ∀ row ∈ rows, ∃ key, rounded (metric.value row) = .ok key

theorem Metric.Rounds.ranks_ok {metric : Metric Row Value} {rounded : Value → Except String Value}
    {rows : List Row} (h : metric.Rounds rounded rows) (symbol : Row → String) :
    ∃ ranks, metricRanks rounded (metricValues rows symbol metric.value) metric.descending =
        .ok ranks ∧ ∀ key, key ∈ ranks.map Prod.fst ↔ key ∈ rows.map symbol := by
  have hkeys : ∀ item ∈ metricValues rows symbol metric.value,
      ∃ keyed, metricKey rounded metric.descending item = .ok keyed := by
    intro item hm
    unfold metricKey
    split
    · rename_i hdescending
      have hvalue := (mem_foldl_set rows symbol metric.value [] hm).resolve_left List.not_mem_nil
      obtain ⟨row, hrow, hvalue⟩ := hvalue
      obtain ⟨key, hkey⟩ := h hdescending row hrow
      rw [hvalue, hkey]
      exact ⟨_, rfl⟩
    · exact ⟨_, rfl⟩
  obtain ⟨ranks, hok⟩ := metricRanks_ok hkeys
  exact ⟨ranks, hok, fun key => keys_metricRanks hok⟩

/-- Once the metrics are ranked, the rows are only reordered, and no rank is missing. -/
theorem rankCrossSection_of_ranks {rounded : Value → Except String Value} {rows : List Row}
    {symbol : Row → String} {metrics : List (Metric Row Value)} (hmetrics : metrics ≠ [])
    {ranks : List (List (String × Nat))} (hranks : (metrics.mapM fun metric => metricRanks rounded
      (metricValues rows symbol metric.value) metric.descending) = .ok ranks) :
    ∃ ranked, rankCrossSection rounded rows symbol metrics = .ok ranked ∧ ranked.Perm rows := by
  have hall := forall₂_of_mapM_ok hranks
  have hrow : ∀ row ∈ rows, ∃ keyed, keyedRow symbol ranks row = .ok keyed ∧ keyed.2 = row := by
    intro row hrow
    obtain ⟨rowRanks, hok⟩ : ∃ rowRanks, (ranks.mapM fun metricRanks =>
        rankOf metricRanks (symbol row)) = .ok rowRanks := by
      apply mapM_total
      intro entries hm
      obtain ⟨metric, -, hentries⟩ := exists_of_forall₂ hall.flip hm
      exact rankOf_ok ((keys_metricRanks hentries).mpr (List.mem_map_of_mem hrow))
    have hsome : rowRanks ≠ [] := by
      have hlength := hall.length_eq.trans (forall₂_of_mapM_ok hok).length_eq
      intro hnil
      rw [hnil] at hlength
      exact hmetrics (List.eq_nil_of_length_eq_zero hlength)
    exact ⟨_, bind_eq hok (bind_eq (aggregateKey_ok hsome _) rfl), rfl⟩
  obtain ⟨keyed, hkeyed⟩ := mapM_total fun row hm => (hrow row hm).imp fun _ h => h.1
  have hsame : keyed.map Prod.snd = rows := by
    have hmap := map_eq_of_forall₂ (f := id) (g := Prod.snd) (forall₂_of_mapM_ok hkeyed)
      fun row key hm hok => by
        obtain ⟨keyed, hok', hsnd⟩ := hrow row hm
        obtain rfl := Except.ok.inj (hok'.symm.trans hok)
        exact hsnd.symm
    rw [← hmap, List.map_id]
  refine ⟨_, bind_eq hranks (bind_eq hkeyed rfl), ?_⟩
  have hperm := (List.perm_insertionSort (fun a b => a.1 ≤ b.1) keyed).map Prod.snd
  rwa [hsame] at hperm

theorem rankCrossSection_ok {rounded : Value → Except String Value} (rows : List Row)
    (symbol : Row → String) (metrics : List (Metric Row Value)) (hmetrics : metrics ≠ [])
    (hrounds : ∀ metric ∈ metrics, metric.Rounds rounded rows) :
    ∃ ranked, rankCrossSection rounded rows symbol metrics = .ok ranked ∧ ranked.Perm rows := by
  obtain ⟨ranks, hranks⟩ : ∃ ranks, (metrics.mapM fun metric => metricRanks rounded
      (metricValues rows symbol metric.value) metric.descending) = .ok ranks :=
    mapM_total fun metric hm => ((hrounds metric hm).ranks_ok symbol).imp fun _ h => h.1
  exact rankCrossSection_of_ranks hmetrics hranks

/-- Only the unary minus raises. -/
theorem rankCrossSection_outcome {rounded : Value → Except String Value} {Q : String → Prop}
    {rows : List Row} {symbol : Row → String} {metrics : List (Metric Row Value)}
    (hmetrics : metrics ≠ []) (h : ∀ metric ∈ metrics, metric.descending = true → ∀ row ∈ rows,
      Outcome (fun _ => True) Q (rounded (metric.value row))) :
    Outcome (fun ranked => ranked.Perm rows) Q (rankCrossSection rounded rows symbol metrics) := by
  have hkey : ∀ metric ∈ metrics, ∀ item ∈ metricValues rows symbol metric.value,
      Outcome (fun _ => True) Q (metricKey rounded metric.descending item) := by
    intro metric hmetric item hm
    unfold metricKey
    split
    · rename_i hdescending
      have hvalue := (mem_foldl_set rows symbol metric.value [] hm).resolve_left List.not_mem_nil
      obtain ⟨row, hrow, hvalue⟩ := hvalue
      rw [hvalue]
      exact (h metric hmetric hdescending row hrow).map fun _ _ => trivial
    · trivial
  have hranks : Outcome (fun _ => True) Q (metrics.mapM fun metric => metricRanks rounded
      (metricValues rows symbol metric.value) metric.descending) := by
    have hmetric : ∀ metric ∈ metrics, Outcome (fun _ => True) Q (metricRanks rounded
        (metricValues rows symbol metric.value) metric.descending) := by
      intro metric hm
      have hkeyed := @Outcome.mapM _ _ _ (fun _ _ => True) Q _ _ (hkey metric hm)
      exact hkeyed.bind fun _ _ _ => trivial
    have hall := @Outcome.mapM _ _ _ (fun _ _ => True) Q _ _ hmetric
    exact hall.mono (fun _ _ => trivial) fun _ he => he
  rcases outcome_iff.mp hranks with ⟨ranks, hok, -⟩ | ⟨e, hraised, he⟩
  · obtain ⟨ranked, hranked, hperm⟩ := rankCrossSection_of_ranks hmetrics hok
    rw [hranked]
    exact hperm
  · unfold rankCrossSection
    rw [bind_error hraised]
    exact he

end MiryFormal
