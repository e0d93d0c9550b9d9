import MiryFormal.Pipeline.L2Day
import MiryFormal.Shared.Intervals

/-!
# The coverage verdict of a day

What `finalize_day` derives for one symbol: its validity intervals, the intervals that the
gap ledger declares invalid, and the durations the quality contract looks at.
-/

namespace MiryFormal

set_option autoImplicit false

open Intervals

/-! ## Reading the validity file -/

/-- The row loop of `_validate_validity`. -/
def validateRows (utcDate : Int) (previousEnd : Option Int) :
    List ValidityInterval → Except String (List (Int × Int))
  | [] => .ok []
  | interval :: rest =>
      let start := interval.validFromNs
      let stop := interval.validToNs
      if interval.connectionId = "" ∨
          ¬ (dayStartNs utcDate ≤ start ∧ start < stop ∧ stop ≤ dayEndNs utcDate) ∨
          previousEnd.any (start < ·) = true then
        .error "invalid L2 validity ordering"
      else do
        let intervals ← validateRows utcDate (some stop) rest
        return (start, stop) :: intervals

def validateValidity (utcDate : Int) (rows : List ValidityInterval) :
    Except String (List (Int × Int)) :=
  validateRows utcDate none rows

def ValidityInterval.bounds (interval : ValidityInterval) : Int × Int :=
  (interval.validFromNs, interval.validToNs)

theorem validateRows_ok {utcDate : Int} {previousEnd : Option Int} {rows : List ValidityInterval}
    (hprev : ∀ stop ∈ previousEnd, ∀ interval ∈ rows, stop ≤ interval.validFromNs)
    (hordered : rows.Pairwise fun a b => a.validToNs ≤ b.validFromNs)
    (hrows : ∀ interval ∈ rows, interval.connectionId ≠ "" ∧
      dayStartNs utcDate ≤ interval.validFromNs ∧ interval.validFromNs < interval.validToNs ∧
      interval.validToNs ≤ dayEndNs utcDate) :
    validateRows utcDate previousEnd rows = .ok (rows.map ValidityInterval.bounds) := by
  induction rows generalizing previousEnd with
  | nil => rfl
  | cons interval rows ih =>
    obtain ⟨hafter, hordered⟩ := List.pairwise_cons.mp hordered
    obtain ⟨hnamed, hinside⟩ := hrows interval List.mem_cons_self
    have hstart : previousEnd.any (interval.validFromNs < ·) = false := by
      cases previousEnd with
      | none => rfl
      | some stop => simpa using hprev stop rfl interval List.mem_cons_self
    have hrest : validateRows utcDate (some interval.validToNs) rows = _ :=
      ih (by simpa using hafter) hordered fun later hm =>
        hrows later (List.mem_cons_of_mem interval hm)
    simp only [validateRows, hnamed, hinside, hstart, hrest]
    rfl

/-! ## Reading the gap ledger -/

namespace GapEvent

/-- `int(event.get("affected_from_realtime_ns") or observed_ns)`: a zero is no value. -/
def explicitEffectiveNs (event : GapEvent) : Int :=
  match event.state, event.affectedFromRealtimeNs with
  | .opened, some ns => if ns = 0 then event.observedAtRealtimeNs else ns
  | _, _ => event.observedAtRealtimeNs

def explicitSortKey (event : GapEvent) : Int ×ₗ String ×ₗ String ×ₗ String :=
  toLex (event.explicitEffectiveNs,
    toLex (event.gapId, toLex (event.state.value, event.detail)))

/-- Where the interval that this CLOSED event ends stops. -/
def explicitEndNs (event : GapEvent) : Int :=
  event.explicitEffectiveNs + if event.detail = continuesDetail then 1 else 0

end GapEvent

/-- The loop variables of `_explicit_invalid_intervals`. Each interval carries the id of its
gap, which the code drops. -/
structure GapPairing where
  opened : List (String × Int) := []
  intervals : List (String × Int × Int) := []
  deriving DecidableEq

def GapPairing.handle (pairing : GapPairing) (event : GapEvent) : GapPairing :=
  match event.state with
  | .opened =>
      { pairing with
        opened := KeyedDict.set id event.gapId event.explicitEffectiveNs pairing.opened }
  | .closed =>
      match KeyedDict.get id event.gapId pairing.opened with
      | none => pairing
      | some start => {
          opened := KeyedDict.pop id event.gapId pairing.opened
          intervals := pairing.intervals ++ [(event.gapId, start, event.explicitEndNs)] }

/-- The paired intervals, and those of the gaps that are never closed. -/
def GapPairing.all (pairing : GapPairing) (windowEndNs : Int) : List (String × Int × Int) :=
  pairing.intervals ++ pairing.opened.map fun entry => (entry.1, entry.2, windowEndNs)

/-- The events of the symbol in the order in which `_explicit_invalid_intervals` pairs them. -/
def explicitEvents (ledger : List GapEvent) (symbol : String) : List GapEvent :=
  (ledger.filter fun event => event.selects symbol).insertionSort fun a b =>
    a.explicitSortKey ≤ b.explicitSortKey

/-- The intervals before they are clipped, with their gaps. -/
def labelledIntervals (ledger : List GapEvent) (symbol : String) (windowEndNs : Int) :
    List (String × Int × Int) :=
  ((explicitEvents ledger symbol).foldl GapPairing.handle {}).all windowEndNs

def explicitInvalidIntervals (ledger : List GapEvent) (symbol : String)
    (windowStartNs windowEndNs : Int) : List (Int × Int) :=
  clip windowStartNs windowEndNs ((labelledIntervals ledger symbol windowEndNs).map Prod.snd)

/-! ## Durations -/

/-- `sorted` of pairs. -/
def sortIntervals (intervals : List (Int × Int)) : List (Int × Int) :=
  intervals.insertionSort fun a b => toLex a ≤ toLex b

theorem sortIntervals_perm (intervals : List (Int × Int)) :
    (sortIntervals intervals).Perm intervals :=
  List.perm_insertionSort _ intervals

theorem sortIntervals_pairwise (intervals : List (Int × Int)) :
    (sortIntervals intervals).Pairwise fun a b => a.1 ≤ b.1 := by
  have : IsTrans (Int × Int) fun a b => toLex a ≤ toLex b := ⟨fun _ _ _ => le_trans⟩
  have : Std.Total fun a b : Int × Int => toLex a ≤ toLex b := ⟨fun _ _ => le_total _ _⟩
  refine (List.pairwise_insertionSort (fun a b : Int × Int => toLex a ≤ toLex b) intervals).imp ?_
  intro a b hle
  rcases Prod.Lex.le_iff.mp hle with h | h
  · exact le_of_lt h
  · exact le_of_eq h.1

def unionDuration (intervals : List (Int × Int)) (windowStartNs windowEndNs : Int) : Int :=
  sweep 0 none (sortIntervals (clip windowStartNs windowEndNs intervals))

/-- The duration is the number of covered nanoseconds of the window. -/
theorem unionDuration_card (intervals : List (Int × Int)) (windowStartNs windowEndNs : Int) :
    unionDuration intervals windowStartNs windowEndNs =
      (((Finset.Ico windowStartNs windowEndNs).filter (Covers intervals)).card : Int) := by
  have hperm := sortIntervals_perm (clip windowStartNs windowEndNs intervals)
  rw [unionDuration, sweep_eq_card (sortIntervals_pairwise _) fun i hm =>
    le_of_lt (clip_lt (hperm.mem_iff.mp hm)), points_perm hperm, points_clip]

theorem unionDuration_eq_zero_iff {intervals : List (Int × Int)}
    {windowStartNs windowEndNs : Int} :
    unionDuration intervals windowStartNs windowEndNs = 0 ↔
      ∀ t, windowStartNs ≤ t → t < windowEndNs → ¬ Covers intervals t := by
  rw [unionDuration_card, Int.natCast_eq_zero, Finset.card_eq_zero, Finset.filter_eq_empty_iff]
  simp only [Finset.mem_Ico, and_imp]

def extendInvalidUntilValid (intervals validIntervals : List (Int × Int)) (windowEndNs : Int) :
    List (Int × Int) :=
  let valid := sortIntervals validIntervals
  intervals.map fun interval =>
    if valid.any fun v => v.1 ≤ interval.2 && interval.2 < v.2 then interval
    else
      (interval.1,
        ((valid.find? fun v => interval.2 ≤ v.1).map Prod.fst).getD windowEndNs)

/-- Extending an interval to the next valid start adds no valid instant. -/
theorem covers_of_covers_extend {intervals validIntervals : List (Int × Int)}
    {windowEndNs t : Int} (hvalid : Covers validIntervals t)
    (h : Covers (extendInvalidUntilValid intervals validIntervals windowEndNs) t) :
    Covers intervals t := by
  obtain ⟨v, hv, hvle, hvlt⟩ := hvalid
  have hv' : v ∈ sortIntervals validIntervals := (sortIntervals_perm validIntervals).mem_iff.mpr hv
  obtain ⟨j, hj, hle, hlt⟩ := h
  obtain ⟨i, hi, rfl⟩ := List.mem_map.mp hj
  refine ⟨i, hi, ?_⟩
  split at hle
  · rename_i hinside
    rw [if_pos hinside] at hlt
    exact ⟨hle, hlt⟩
  · rename_i hinside
    rw [if_neg hinside] at hlt
    have hout : ∀ w ∈ sortIntervals validIntervals, w.1 ≤ i.2 → w.2 ≤ i.2 := by
      simpa using hinside
    refine ⟨hle, ?_⟩
    by_contra hge
    -- `v` begins after the end of the interval, so the next valid start is not behind `t`.
    have hafter : i.2 < v.1 := by
      by_contra hbefore
      have := hout v hv' (by omega)
      omega
    cases hfind : (sortIntervals validIntervals).find? fun w => i.2 ≤ w.1 with
    | none =>
      have := List.find?_eq_none.mp hfind v hv'
      simp only [decide_eq_true_eq] at this
      omega
    | some w =>
      rw [hfind] at hlt
      simp only [Option.map_some, Option.getD_some] at hlt
      obtain ⟨-, before, after, hsplit, hbefore⟩ := List.find?_eq_some_iff_append.mp hfind
      have hsorted := sortIntervals_pairwise validIntervals
      rw [hsplit] at hv' hsorted
      rcases List.mem_append.mp hv' with hm | hm
      · have := hbefore v hm
        simp only [Bool.not_eq_true', decide_eq_false_iff_not] at this
        omega
      · rcases List.mem_cons.mp hm with rfl | hm
        · omega
        · have := (List.pairwise_cons.mp (List.pairwise_append.mp hsorted).2.1).1 v hm
          omega

theorem covers_extend_of_covers {intervals validIntervals : List (Int × Int)}
    {windowEndNs t : Int} (hwindow : ∀ i ∈ intervals, i.2 ≤ windowEndNs)
    (h : Covers intervals t) :
    Covers (extendInvalidUntilValid intervals validIntervals windowEndNs) t := by
  obtain ⟨i, hi, hle, hlt⟩ := h
  refine ⟨_, List.mem_map.mpr ⟨i, hi, rfl⟩, ?_⟩
  split
  · exact ⟨hle, hlt⟩
  · refine ⟨hle, hlt.trans_le ?_⟩
    cases hfind : (sortIntervals validIntervals).find? fun w => i.2 ≤ w.1 with
    | none => exact hwindow i hi
    | some w => simpa using List.find?_some hfind

def intersectionDuration (left right : List (Int × Int)) (windowStartNs windowEndNs : Int) : Int :=
  unionDuration
    (left.flatMap fun l => (right.filter fun r => max l.1 r.1 < min l.2 r.2).map fun r =>
      (max l.1 r.1, min l.2 r.2))
    windowStartNs windowEndNs

theorem covers_intersections {left right : List (Int × Int)} {t : Int} :
    Covers (left.flatMap fun l => (right.filter fun r => max l.1 r.1 < min l.2 r.2).map fun r =>
      (max l.1 r.1, min l.2 r.2)) t ↔ Covers left t ∧ Covers right t := by
  constructor
  · rintro ⟨i, hm, hle, hlt⟩
    obtain ⟨l, hl, hi⟩ := List.mem_flatMap.mp hm
    obtain ⟨r, hr, rfl⟩ := List.mem_map.mp hi
    simp only [max_le_iff, lt_min_iff] at hle hlt
    exact ⟨⟨l, hl, hle.1, hlt.1⟩, ⟨r, List.mem_of_mem_filter hr, hle.2, hlt.2⟩⟩
  · rintro ⟨⟨l, hl, hle, hlt⟩, ⟨r, hr, hle', hlt'⟩⟩
    have hstart : max l.1 r.1 ≤ t := max_le hle hle'
    have hend : t < min l.2 r.2 := lt_min hlt hlt'
    refine ⟨_, List.mem_flatMap.mpr ⟨l, hl, List.mem_map.mpr ⟨r, List.mem_filter.mpr ⟨hr, ?_⟩,
      rfl⟩⟩, hstart, hend⟩
    simpa using hstart.trans_lt hend

theorem intersectionDuration_card (left right : List (Int × Int))
    (windowStartNs windowEndNs : Int) :
    intersectionDuration left right windowStartNs windowEndNs =
      (((Finset.Ico windowStartNs windowEndNs).filter fun t =>
        Covers left t ∧ Covers right t).card : Int) := by
  rw [intersectionDuration, unionDuration_card]
  simp only [covers_intersections]

theorem intersectionDuration_eq_zero_iff {left right : List (Int × Int)}
    {windowStartNs windowEndNs : Int} :
    intersectionDuration left right windowStartNs windowEndNs = 0 ↔
      ∀ t, windowStartNs ≤ t → t < windowEndNs → ¬ (Covers left t ∧ Covers right t) := by
  rw [intersectionDuration, unionDuration_eq_zero_iff]
  simp only [covers_intersections]

/-- What both lists cover is counted once in the union and once in the intersection. -/
theorem unionDuration_add (left right : List (Int × Int)) (windowStartNs windowEndNs : Int) :
    unionDuration left windowStartNs windowEndNs + unionDuration right windowStartNs windowEndNs =
      unionDuration (left ++ right) windowStartNs windowEndNs +
        intersectionDuration left right windowStartNs windowEndNs := by
  simp only [unionDuration_card, intersectionDuration_card, covers_append]
  rw [Finset.filter_or, Finset.filter_and]
  exact_mod_cast (Finset.card_union_add_card_inter _ _).symm

theorem unionDuration_le {windowStartNs windowEndNs : Int} (hwindow : windowStartNs ≤ windowEndNs)
    (intervals : List (Int × Int)) :
    unionDuration intervals windowStartNs windowEndNs ≤ windowEndNs - windowStartNs := by
  have hcard := Finset.card_filter_le (Finset.Ico windowStartNs windowEndNs) (Covers intervals)
  rw [Int.card_Ico] at hcard
  rw [unionDuration_card]
  omega

theorem intersectionDuration_extend_le (intervals validIntervals : List (Int × Int))
    (windowStartNs windowEndNs : Int) :
    intersectionDuration validIntervals
        (extendInvalidUntilValid intervals validIntervals windowEndNs) windowStartNs windowEndNs ≤
      intersectionDuration validIntervals intervals windowStartNs windowEndNs := by
  rw [intersectionDuration_card, intersectionDuration_card]
  apply Int.ofNat_le.mpr
  apply Finset.card_le_card
  intro t ht
  rw [Finset.mem_filter] at ht ⊢
  obtain ⟨hin, hvalid, hextended⟩ := ht
  exact ⟨hin, hvalid, covers_of_covers_extend hvalid hextended⟩

/-- The durations of one symbol that `finalize_day` records and judges. -/
structure SymbolCoverage where
  expectedNs : Int
  validNs : Int
  explicitInvalidNs : Int
  conflictingNs : Int
  unclassifiedNs : Int
  deriving DecidableEq, Repr

def symbolCoverage (validIntervals : List (Int × Int)) (ledger : List GapEvent) (symbol : String)
    (windowStartNs windowEndNs : Int) : SymbolCoverage :=
  let explicitInvalid := extendInvalidUntilValid
    (explicitInvalidIntervals ledger symbol windowStartNs windowEndNs) validIntervals windowEndNs
  let expectedNs := windowEndNs - windowStartNs
  {
    expectedNs
    validNs := unionDuration validIntervals windowStartNs windowEndNs
    explicitInvalidNs := unionDuration explicitInvalid windowStartNs windowEndNs
    conflictingNs :=
      intersectionDuration validIntervals explicitInvalid windowStartNs windowEndNs
    unclassifiedNs := expectedNs -
      unionDuration (validIntervals ++ explicitInvalid) windowStartNs windowEndNs }

/-- The durations count nanoseconds of the window, and extending the invalid intervals up to the
next valid start brings no conflict. -/
theorem coverage_exact (valid invalid : List (Int × Int)) (windowStartNs windowEndNs : Int) :
    let window := Finset.Ico windowStartNs windowEndNs
    let accountedNs := unionDuration (valid ++ invalid) windowStartNs windowEndNs
    unionDuration valid windowStartNs windowEndNs = (window.filter (Covers valid)).card ∧
    intersectionDuration valid invalid windowStartNs windowEndNs =
      (window.filter fun t => Covers valid t ∧ Covers invalid t).card ∧
    unionDuration valid windowStartNs windowEndNs +
        unionDuration invalid windowStartNs windowEndNs =
      accountedNs + intersectionDuration valid invalid windowStartNs windowEndNs ∧
    (windowStartNs ≤ windowEndNs → 0 ≤ windowEndNs - windowStartNs - accountedNs) ∧
    intersectionDuration valid (extendInvalidUntilValid invalid valid windowEndNs)
        windowStartNs windowEndNs ≤
      intersectionDuration valid invalid windowStartNs windowEndNs ∧
    ∀ ledger symbol, (windowStartNs ≤ windowEndNs →
        0 ≤ (symbolCoverage valid ledger symbol windowStartNs windowEndNs).unclassifiedNs) ∧
      (symbolCoverage valid ledger symbol windowStartNs windowEndNs).validNs +
          (symbolCoverage valid ledger symbol windowStartNs windowEndNs).explicitInvalidNs =
        (symbolCoverage valid ledger symbol windowStartNs windowEndNs).expectedNs -
          (symbolCoverage valid ledger symbol windowStartNs windowEndNs).unclassifiedNs +
          (symbolCoverage valid ledger symbol windowStartNs windowEndNs).conflictingNs := by
  refine ⟨unionDuration_card _ _ _, intersectionDuration_card _ _ _ _, unionDuration_add _ _ _ _,
    fun hwindow => ?_, intersectionDuration_extend_le _ _ _ _, fun ledger symbol =>
      ⟨fun hwindow => ?_, ?_⟩⟩
  · have hle := unionDuration_le hwindow (valid ++ invalid)
    omega
  · have hle := unionDuration_le hwindow (valid ++ extendInvalidUntilValid
      (explicitInvalidIntervals ledger symbol windowStartNs windowEndNs) valid windowEndNs)
    unfold symbolCoverage
    dsimp only
    omega
  · have hadd := unionDuration_add valid (extendInvalidUntilValid
      (explicitInvalidIntervals ledger symbol windowStartNs windowEndNs) valid windowEndNs)
      windowStartNs windowEndNs
    unfold symbolCoverage
    dsimp only
    omega

/-- The symbol passes the quality contract. -/
def SymbolCoverage.accepted (coverage : SymbolCoverage) : Bool :=
  coverage.expectedNs * 999 ≤ coverage.validNs * 1000 && coverage.unclassifiedNs == 0 &&
    coverage.conflictingNs == 0

end MiryFormal
