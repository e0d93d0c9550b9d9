import Mathlib.Algebra.Order.Ring.Rat
import Mathlib.Data.List.Sort
import Mathlib.Tactic.Linarith
import MiryFormal.Universe.DecimalContext

/-!
# The activity of the market

`evaluate_market_context`: whether volumes and trade counts of most instruments moved against
their baseline. Decimals are rational numbers, and every operation on them is rounded.
-/

namespace MiryFormal

set_option autoImplicit false

inductive MarketState where
  | normal
  | shockPending
  | shiftConfirmed
  deriving DecidableEq, Repr

structure MarketContext where
  state : MarketState
  horizonDays : Nat
  panelCount : Nat
  quoteVolumeFactor : Rat
  tradeCountFactor : Rat
  quoteVolumeBreadth : Rat
  tradeCountBreadth : Rat
  deriving DecidableEq

structure ActivitySeries where
  quoteVolumes : List Rat
  tradeCounts : List Nat
  deriving DecidableEq

def pendingDays : Nat := 3

def confirmationDays : Nat := 7

def itemAt {α : Type} (values : List α) (index : Nat) : Except String α :=
  match values[index]? with
  | some value => .ok value
  | none => .error "list index out of range"

/-- `a / b` -/
def divide (a b : Rat) : Except String Rat :=
  if b = 0 then
    if a = 0 then .error "decimal.InvalidOperation" else .error "decimal.DivisionByZero"
  else contextRound (a / b)

def median (values : List Rat) : Except String Rat := do
  let ordered := values.insertionSort fun a b => a ≤ b
  let midpoint := ordered.length / 2
  if ordered.length % 2 = 1 then itemAt ordered midpoint
  else do
    let lower ← itemAt ordered (midpoint - 1)
    let upper ← itemAt ordered midpoint
    divide (← contextRound (lower + upper)) 2

/-- `values[-count:]` -/
def lastOf {α : Type} (values : List α) (count : Nat) : List α :=
  values.drop (values.length - count)

def tradeValues (counts : List Nat) : List Rat := counts.map Nat.cast

section Horizon
variable (rows : List ActivitySeries) (horizon baselineDays : Nat) (changeRatio : Rat)

def volumeFactor (row : ActivitySeries) : Except String Rat := do
  let baseline ← median (row.quoteVolumes.take baselineDays)
  let recent ← median (lastOf row.quoteVolumes horizon)
  divide recent baseline

def tradeFactor (row : ActivitySeries) : Except String Rat := do
  let baseline ← median (tradeValues (row.tradeCounts.take baselineDays))
  let recent ← median (tradeValues (lastOf row.tradeCounts horizon))
  divide recent baseline

def directionalBreadth (values : List Rat) (threshold : Rat) (upward : Bool) : Except String Rat :=
  let matching := if upward then values.filter fun value => threshold ≤ value
    else values.filter fun value => value ≤ threshold
  divide matching.length values.length

/-- The factor that a single instrument has to reach. -/
def moveThreshold (changeRatio : Rat) (upward : Bool) : Except String Rat :=
  if upward then .ok changeRatio else divide 1 changeRatio

def evaluateHorizon : Except String MarketContext := do
  let volumeFactors ← rows.mapM (volumeFactor horizon baselineDays)
  let tradeFactors ← rows.mapM (tradeFactor horizon baselineDays)
  let volumeFactor ← median volumeFactors
  let tradeFactor ← median tradeFactors
  let upward : Bool := changeRatio ≤ volumeFactor
  let threshold ← moveThreshold changeRatio upward
  let quoteVolumeBreadth ← directionalBreadth volumeFactors threshold upward
  let tradeCountBreadth ← directionalBreadth tradeFactors threshold upward
  return {
    state := .normal
    horizonDays := horizon
    panelCount := rows.length
    quoteVolumeFactor := volumeFactor
    tradeCountFactor := tradeFactor
    quoteVolumeBreadth
    tradeCountBreadth }

end Horizon

def isBroadMove (context : MarketContext) (changeRatio breadthRatio : Rat) :
    Except String Bool := do
  let upward : Bool := changeRatio ≤ context.quoteVolumeFactor &&
    changeRatio ≤ context.tradeCountFactor
  let downwardLimit ← divide 1 changeRatio
  let downward : Bool := context.quoteVolumeFactor ≤ downwardLimit &&
    context.tradeCountFactor ≤ downwardLimit
  return (upward || downward) && breadthRatio ≤ context.quoteVolumeBreadth &&
    breadthRatio ≤ context.tradeCountBreadth

/-- `_with_state` -/
def MarketContext.withState (context : MarketContext) (state : MarketState) : MarketContext :=
  { context with state }

/-- Whether a series is complete and active in its baseline. -/
def inPanel (baselineDays : Nat) (row : ActivitySeries) : Except String Bool := do
  let expectedDays := baselineDays + confirmationDays
  if row.quoteVolumes.length ≠ expectedDays ∨ row.tradeCounts.length ≠ expectedDays then
    return false
  else
    let volume ← median (row.quoteVolumes.take baselineDays)
    if volume ≤ 0 then return false
    else
      let trades ← median (tradeValues (row.tradeCounts.take baselineDays))
      return 0 < trades

def evaluateMarketContext (series : List ActivitySeries) (baselineDays : Nat)
    (changeRatio breadthRatio : Rat) (minimumInstruments : Nat) : Except String MarketContext := do
  let panel ← series.filterM (inPanel baselineDays)
  if panel.length < minimumInstruments then
    return {
      state := .normal
      horizonDays := 0
      panelCount := panel.length
      quoteVolumeFactor := 1
      tradeCountFactor := 1
      quoteVolumeBreadth := 0
      tradeCountBreadth := 0 }
  else
    let daily ← evaluateHorizon panel 1 baselineDays changeRatio
    let pending ← evaluateHorizon panel pendingDays baselineDays changeRatio
    let confirmed ← evaluateHorizon panel confirmationDays baselineDays changeRatio
    if ← isBroadMove confirmed changeRatio breadthRatio then
      return confirmed.withState .shiftConfirmed
    else if ← isBroadMove pending changeRatio breadthRatio then
      return pending.withState .shockPending
    else if ← isBroadMove daily changeRatio breadthRatio then
      return daily.withState .shockPending
    else return daily

/-! ## It raises for an overflow only -/

/-- Volumes and counts whose quotients and sums stay far inside the context. -/
def ActivitySeries.Moderate (row : ActivitySeries) : Prop :=
  ∀ value ∈ row.quoteVolumes ++ tradeValues row.tradeCounts,
    InRange ((10 : Rat) ^ (-499998 : Int)) ((10 : Rat) ^ (499998 : Int)) value

theorem itemAt_ok {α : Type} {values : List α} {index : Nat} (h : index < values.length) :
    itemAt values index = .ok values[index] := by
  rw [itemAt, List.getElem?_eq_getElem h]

section Bounds
variable {moderate : Prop} {low high : Rat}

theorem InRange.mono {low' high' value : Rat} (h : InRange low high value) (hlow : low' ≤ low)
    (hhigh : high ≤ high') : InRange low' high' value := by
  cases h with
  | inl hzero => exact .inl hzero
  | inr hbetween => exact .inr ⟨hlow.trans hbetween.1, hbetween.2.trans hhigh⟩

theorem InRange.add {a b : Rat} (hlow : 0 < low) (ha : InRange low high a)
    (hb : InRange low high b) : InRange low (2 * high) (a + b) := by
  rcases ha with rfl | ⟨hal, hah⟩
  · rw [zero_add]
    rcases hb with rfl | ⟨hbl, hbh⟩
    · exact .inl rfl
    · exact .inr ⟨hbl, by linarith⟩
  · rcases hb with rfl | ⟨hbl, hbh⟩
    · rw [add_zero]
      exact .inr ⟨hal, by linarith⟩
    · exact .inr ⟨by linarith, by linarith⟩

theorem InRange.half {a : Rat} (ha : InRange low (2 * high) a) :
    InRange (low / 2) high (a / 2) := by
  rcases ha with rfl | ⟨hal, hah⟩
  · exact .inl (zero_div 2)
  · exact .inr ⟨by linarith, by linarith⟩

theorem InRange.div {a b : Rat} (hlow : 0 < low) (ha : InRange low high a)
    (hb : InRange low high b) : InRange (low / high) (high / low) (a / b) := by
  rcases hb with rfl | ⟨hbl, hbh⟩
  · exact .inl (div_zero a)
  rcases ha with rfl | ⟨hal, hah⟩
  · exact .inl (zero_div b)
  have hb : 0 < b := hlow.trans_le hbl
  exact .inr ⟨div_le_div₀ (hlow.le.trans hal) hal hb hbh,
    div_le_div₀ (hlow.le.trans (hal.trans hah)) hah hlow hbl⟩

theorem divide_of_ne (a : Rat) {b : Rat} (h : b ≠ 0) : divide a b = contextRound (a / b) := if_neg h

/-- The middle of moderate numbers, or between two of them. -/
theorem median_outcome {values : List Rat} (hne : values ≠ []) (hlow : 0 < low)
    (hexact : ∀ bound ∈ [low / 2, low, high, 2 * high], contextRound bound = .ok bound)
    (hrange : moderate → ∀ value ∈ values, InRange low high value) :
    Outcome (fun value => moderate → InRange (low / 2) high value) (Overflows moderate)
      (median values) := by
  have hlength : (values.insertionSort fun a b => a ≤ b).length = values.length :=
    List.length_insertionSort _ _
  have hpos : 0 < values.length := List.length_pos_iff.mpr hne
  have hitem : ∀ index, (h : index < (values.insertionSort fun a b => a ≤ b).length) → moderate →
      InRange low high (values.insertionSort fun a b => a ≤ b)[index] := by
    intro index h hmoderate
    apply hrange hmoderate
    exact (List.perm_insertionSort _ values).subset (List.getElem_mem h)
  unfold median
  dsimp only
  rw [hlength]
  by_cases hodd : values.length % 2 = 1
  · rw [if_pos hodd, itemAt_ok (by omega)]
    exact fun hmoderate => (hitem _ (by omega) hmoderate).mono (by linarith) le_rfl
  · rw [if_neg hodd, itemAt_ok (by omega), itemAt_ok (by omega)]
    have hsum := contextRound_outcome hlow (hexact low (by simp)) (hexact (2 * high) (by simp))
      fun hmoderate => (hitem (values.length / 2 - 1) (by omega) hmoderate).add hlow
        (hitem (values.length / 2) (by omega) hmoderate)
    refine hsum.bind fun sum _ hsum => ?_
    rw [divide_of_ne sum two_ne_zero]
    exact contextRound_outcome (half_pos hlow) (hexact (low / 2) (by simp)) (hexact high (by simp))
      fun hmoderate => (hsum hmoderate).half

theorem divide_outcome {a b : Rat} (hlow : 0 < low) (hhigh : 0 < high)
    (hexact : ∀ bound ∈ [low / high, high / low], contextRound bound = .ok bound) (hb : b ≠ 0)
    (hranges : moderate → InRange low high a ∧ InRange low high b) :
    Outcome (fun value => moderate → InRange (low / high) (high / low) value) (Overflows moderate)
      (divide a b) := by
  rw [divide_of_ne a hb]
  exact contextRound_outcome (div_pos hlow hhigh) (hexact _ (by simp)) (hexact _ (by simp))
    fun hmoderate => (hranges hmoderate).1.div hlow (hranges hmoderate).2

end Bounds

/-- A proportion does not overflow. -/
theorem divide_le_one {a b : Rat} (hb : b ≠ 0) (h : |a| ≤ |b|) :
    ∃ value, divide a b = .ok value := by
  rw [divide_of_ne a hb]
  have hone := @contextRound_digit 1 0 (by decide) (by decide) (by decide)
  rw [zpow_zero, mul_one, Nat.cast_one] at hone
  apply contextRound_total _ ⟨1, hone⟩
  rw [abs_div, abs_one]
  exact div_le_one_of_le₀ h (abs_nonneg b)

theorem divide_changeRatio {changeRatio : Rat} (h : 1 < changeRatio) :
    ∃ value, divide 1 changeRatio = .ok value := by
  have hpositive : 0 < changeRatio := one_pos.trans h
  apply divide_le_one hpositive.ne'
  rw [abs_one, abs_of_pos hpositive]
  exact h.le

theorem moveThreshold_ok {changeRatio : Rat} (upward : Bool) (h : 1 < changeRatio) :
    ∃ threshold, moveThreshold changeRatio upward = .ok threshold := by
  cases upward with
  | true => exact ⟨changeRatio, rfl⟩
  | false => exact divide_changeRatio h

theorem directionalBreadth_ok {values : List Rat} (hne : values ≠ []) (threshold : Rat)
    (upward : Bool) : ∃ breadth, directionalBreadth values threshold upward = .ok breadth := by
  have hlength : (values.length : Rat) ≠ 0 := by
    exact_mod_cast (List.length_pos_iff.mpr hne).ne'
  have hcount : ∀ keep : Rat → Bool, |((values.filter keep).length : Rat)| ≤ |(values.length : Rat)| := by
    intro keep
    rw [Nat.abs_cast, Nat.abs_cast]
    exact_mod_cast List.length_filter_le keep values
  unfold directionalBreadth
  cases upward with
  | true => exact divide_le_one hlength (hcount _)
  | false => exact divide_le_one hlength (hcount _)

/-- What the panel test ensures of a series. -/
structure Active (baselineDays : Nat) (row : ActivitySeries) : Prop where
  volumes : row.quoteVolumes.length = baselineDays + confirmationDays
  trades : row.tradeCounts.length = baselineDays + confirmationDays
  volume : ∀ value, median (row.quoteVolumes.take baselineDays) = .ok value → value ≠ 0
  trade : ∀ value, median (tradeValues (row.tradeCounts.take baselineDays)) = .ok value → value ≠ 0

variable {baselineDays : Nat} {moderate : Prop}

theorem take_ne_nil {α : Type} {values : List α} (hdays : 0 < baselineDays)
    (hlength : values.length = baselineDays + confirmationDays) : values.take baselineDays ≠ [] := by
  intro h
  have := congrArg List.length h
  rw [List.length_take, List.length_nil] at this
  omega

theorem lastOf_ne_nil {α : Type} {values : List α} {horizon : Nat} (hhorizon : 0 < horizon)
    (hle : horizon ≤ confirmationDays)
    (hlength : values.length = baselineDays + confirmationDays) : lastOf values horizon ≠ [] := by
  intro h
  have := congrArg List.length h
  rw [lastOf, List.length_drop, List.length_nil] at this
  omega

theorem tradeValues_ne_nil {counts : List Nat} (h : counts ≠ []) : tradeValues counts ≠ [] := by
  exact fun hnil => h (List.map_eq_nil_iff.mp hnil)

/-- The median of some of the volumes or counts of a moderate series. -/
theorem seriesMedian_outcome {row : ActivitySeries} {values : List Rat} (hne : values ≠ [])
    (hsub : ∀ value ∈ values, value ∈ row.quoteVolumes ++ tradeValues row.tradeCounts)
    (hmoderate : moderate → row.Moderate) :
    Outcome (fun value => moderate →
      InRange (5 * (10 : Rat) ^ (-499999 : Int)) ((10 : Rat) ^ (499998 : Int)) value)
      (Overflows moderate) (median values) := by
  have hhalf : (10 : Rat) ^ (-499998 : Int) / 2 = 5 * (10 : Rat) ^ (-499999 : Int) := by
    rw [show (-499998 : Int) = -499999 + 1 by norm_num, zpow_add₀ (by norm_num), zpow_one]
    ring
  have h := @median_outcome moderate ((10 : Rat) ^ (-499998 : Int)) ((10 : Rat) ^ (499998 : Int))
    values hne (zpow_pos (by norm_num) _) (by
      intro bound hm
      rw [hhalf] at hm
      simp only [List.mem_cons, List.not_mem_nil, or_false] at hm
      rcases hm with rfl | rfl | rfl | rfl
      · exact @contextRound_digit 5 (-499999) (by decide) (by decide) (by decide)
      · have := @contextRound_digit 1 (-499998) (by decide) (by decide) (by decide)
        rwa [Nat.cast_one, one_mul] at this
      · have := @contextRound_digit 1 499998 (by decide) (by decide) (by decide)
        rwa [Nat.cast_one, one_mul] at this
      · exact @contextRound_digit 2 499998 (by decide) (by decide) (by decide))
    fun h value hm => hmoderate h value (hsub value hm)
  rw [hhalf] at h
  exact h

theorem inPanel_outcome (hdays : 0 < baselineDays) {row : ActivitySeries}
    (hmoderate : moderate → row.Moderate) :
    Outcome (fun kept => kept = true → Active baselineDays row) (Overflows moderate)
      (inPanel baselineDays row) := by
  unfold inPanel
  dsimp only
  split
  · exact nofun
  · rename_i hlength
    obtain ⟨hvolumes, htrades⟩ := not_or.mp hlength
    rw [not_not] at hvolumes htrades
    refine (seriesMedian_outcome (take_ne_nil hdays hvolumes) (fun value hm =>
      List.mem_append_left _ (List.mem_of_mem_take hm)) hmoderate).bind fun volume hvolume _ => ?_
    split
    · exact nofun
    · rename_i hpositive
      have hsub : ∀ value ∈ tradeValues (row.tradeCounts.take baselineDays),
          value ∈ row.quoteVolumes ++ tradeValues row.tradeCounts := fun value hm =>
        List.mem_append_right _ (List.map_subset _ (List.take_subset _ _) hm)
      refine (seriesMedian_outcome (tradeValues_ne_nil (take_ne_nil hdays htrades)) hsub
        hmoderate).bind fun trades htrade _ hkept => ⟨hvolumes, htrades, ?_, ?_⟩
      · intro value hvalue
        obtain rfl := Except.ok.inj (hvolume.symm.trans hvalue)
        exact fun hzero => hpositive hzero.le
      · intro value hvalue
        obtain rfl := Except.ok.inj (htrade.symm.trans hvalue)
        exact (of_decide_eq_true hkept).ne'

/-- The bounds of the factors of moderate series. -/
def FactorInRange (factor : Rat) : Prop :=
  InRange (5 * (10 : Rat) ^ (-999997 : Int)) (2 * (10 : Rat) ^ (999996 : Int)) factor

theorem factor_outcome {recent baseline : Rat} (hbaseline : baseline ≠ 0)
    (h : moderate → InRange (5 * (10 : Rat) ^ (-499999 : Int)) ((10 : Rat) ^ (499998 : Int)) recent ∧
      InRange (5 * (10 : Rat) ^ (-499999 : Int)) ((10 : Rat) ^ (499998 : Int)) baseline) :
    Outcome (fun factor => moderate → FactorInRange factor) (Overflows moderate)
      (divide recent baseline) := by
  have hten : (10 : Rat) ≠ 0 := by norm_num
  have hlow : 5 * (10 : Rat) ^ (-499999 : Int) / (10 : Rat) ^ (499998 : Int) =
      5 * (10 : Rat) ^ (-999997 : Int) := by
    have hplace : (-499999 : Int) - 499998 = -999997 := by decide
    rw [mul_div_assoc, ← zpow_sub₀ hten, hplace]
  have hhigh : (10 : Rat) ^ (499998 : Int) / (5 * (10 : Rat) ^ (-499999 : Int)) =
      2 * (10 : Rat) ^ (999996 : Int) := by
    have hplace : (499998 : Int) = 1 + (999996 + -499999) := by decide
    rw [div_eq_iff (mul_ne_zero (by norm_num) (zpow_ne_zero _ hten)), hplace, zpow_add₀ hten,
      zpow_add₀ hten, zpow_one]
    generalize (10 : Rat) ^ (999996 : Int) = upper
    generalize (10 : Rat) ^ (-499999 : Int) = lower
    ring
  have hpositive : ∀ place : Int, (0 : Rat) < (10 : Rat) ^ place := zpow_pos (by norm_num)
  have hdivided := @divide_outcome moderate (5 * (10 : Rat) ^ (-499999 : Int))
    ((10 : Rat) ^ (499998 : Int)) recent baseline (mul_pos (by norm_num) (hpositive _))
    (hpositive _) (by
      intro bound hm
      rw [hlow, hhigh] at hm
      simp only [List.mem_cons, List.not_mem_nil, or_false] at hm
      rcases hm with rfl | rfl
      · exact @contextRound_digit 5 (-999997) (by decide) (by decide) (by decide)
      · exact @contextRound_digit 2 999996 (by decide) (by decide) (by decide)) hbaseline h
  rw [hlow, hhigh] at hdivided
  exact hdivided

theorem factorMedian_outcome {factors : List Rat} (hne : factors ≠ [])
    (h : ∀ factor ∈ factors, moderate → FactorInRange factor) :
    Outcome (fun _ => True) (Overflows moderate) (median factors) := by
  have hten : (10 : Rat) ≠ 0 := by norm_num
  have hhalf : 5 * (10 : Rat) ^ (-999997 : Int) / 2 = (25 : Nat) * (10 : Rat) ^ (-999998 : Int) := by
    have hplace : (-999997 : Int) = -999998 + 1 := by decide
    rw [hplace, zpow_add₀ hten, zpow_one]
    generalize (10 : Rat) ^ (-999998 : Int) = lower
    push_cast
    ring
  have htwice : 2 * (2 * (10 : Rat) ^ (999996 : Int)) = (4 : Nat) * (10 : Rat) ^ (999996 : Int) := by
    rw [← mul_assoc]
    norm_num only
  have hmedian := @median_outcome moderate (5 * (10 : Rat) ^ (-999997 : Int))
    (2 * (10 : Rat) ^ (999996 : Int)) factors hne (mul_pos (by norm_num) (zpow_pos (by norm_num) _))
    (by
      intro bound hm
      rw [hhalf, htwice] at hm
      simp only [List.mem_cons, List.not_mem_nil, or_false] at hm
      rcases hm with rfl | rfl | rfl | rfl
      · exact @contextRound_of_digits _ 25 (-999998) (by decide) (by decide) (by decide)
          (abs_of_nonneg (mul_nonneg (Nat.cast_nonneg 25) (zpow_nonneg (by norm_num) _)))
      · exact @contextRound_digit 5 (-999997) (by decide) (by decide) (by decide)
      · exact @contextRound_digit 2 999996 (by decide) (by decide) (by decide)
      · exact @contextRound_digit 4 999996 (by decide) (by decide) (by decide))
    fun hmoderate factor hm => h factor hm hmoderate
  exact hmedian.mono (fun _ _ => trivial) fun _ he => he

section Horizon
variable {rows : List ActivitySeries} {horizon : Nat} {changeRatio : Rat}
  (hdays : 0 < baselineDays) (hhorizon : 0 < horizon) (hle : horizon ≤ confirmationDays)
include hdays hhorizon hle

theorem volumeFactor_outcome {row : ActivitySeries} (h : Active baselineDays row)
    (hmoderate : moderate → row.Moderate) :
    Outcome (fun factor => moderate → FactorInRange factor) (Overflows moderate)
      (volumeFactor horizon baselineDays row) := by
  refine (seriesMedian_outcome (take_ne_nil hdays h.volumes) (fun value hm =>
    List.mem_append_left _ (List.mem_of_mem_take hm)) hmoderate).bind
      fun baseline hbaseline hlower => ?_
  refine (seriesMedian_outcome (lastOf_ne_nil hhorizon hle h.volumes) (fun value hm =>
    List.mem_append_left _ (List.mem_of_mem_drop hm)) hmoderate).bind fun recent _ hupper => ?_
  exact factor_outcome (h.volume baseline hbaseline) fun h => ⟨hupper h, hlower h⟩

theorem tradeFactor_outcome {row : ActivitySeries} (h : Active baselineDays row)
    (hmoderate : moderate → row.Moderate) :
    Outcome (fun factor => moderate → FactorInRange factor) (Overflows moderate)
      (tradeFactor horizon baselineDays row) := by
  refine (seriesMedian_outcome (tradeValues_ne_nil (take_ne_nil hdays h.trades)) (fun value hm =>
    List.mem_append_right _ (List.map_subset _ (List.take_subset _ _) hm)) hmoderate).bind
      fun baseline hbaseline hlower => ?_
  refine (seriesMedian_outcome (tradeValues_ne_nil (lastOf_ne_nil hhorizon hle h.trades))
    (fun value hm => List.mem_append_right _ (List.map_subset _ (List.drop_subset _ _) hm))
      hmoderate).bind fun recent _ hupper => ?_
  exact factor_outcome (h.trade baseline hbaseline) fun h => ⟨hupper h, hlower h⟩

theorem evaluateHorizon_outcome (hrows : rows ≠ [])
    (hactive : ∀ row ∈ rows, Active baselineDays row) (hratio : 1 < changeRatio)
    (hmoderate : moderate → ∀ row ∈ rows, row.Moderate) :
    Outcome (fun _ => True) (Overflows moderate)
      (evaluateHorizon rows horizon baselineDays changeRatio) := by
  have hfactors : ∀ {factors : List Rat}, List.Forall₂ (fun _ factor => moderate →
      FactorInRange factor) rows factors → factors ≠ [] ∧
        ∀ factor ∈ factors, moderate → FactorInRange factor := by
    intro factors hall
    constructor
    · rintro rfl
      exact hrows (List.forall₂_nil_right_iff.mp hall)
    · intro factor hm
      obtain ⟨_, -, hfactor⟩ := exists_of_forall₂ hall.flip hm
      exact hfactor
  refine (Outcome.mapM fun row hm => volumeFactor_outcome hdays hhorizon hle (hactive row hm)
    fun h => hmoderate h row hm).bind fun volumes _ hvolumes => ?_
  refine (Outcome.mapM fun row hm => tradeFactor_outcome hdays hhorizon hle (hactive row hm)
    fun h => hmoderate h row hm).bind fun trades _ htrades => ?_
  obtain ⟨hvolumesNe, hvolumes⟩ := hfactors hvolumes
  obtain ⟨htradesNe, htrades⟩ := hfactors htrades
  refine (factorMedian_outcome hvolumesNe hvolumes).bind fun volumeFactor _ _ => ?_
  refine (factorMedian_outcome htradesNe htrades).bind fun tradeFactor _ _ => ?_
  obtain ⟨threshold, hthreshold⟩ := moveThreshold_ok (changeRatio ≤ volumeFactor) hratio
  obtain ⟨volumeBreadth, hvolume⟩ :=
    directionalBreadth_ok hvolumesNe threshold (changeRatio ≤ volumeFactor)
  obtain ⟨tradeBreadth, htrade⟩ :=
    directionalBreadth_ok htradesNe threshold (changeRatio ≤ volumeFactor)
  rw [bind_eq hthreshold (bind_eq hvolume (bind_eq htrade rfl))]
  trivial

end Horizon

theorem isBroadMove_ok (context : MarketContext) {changeRatio : Rat} (breadthRatio : Rat)
    (hratio : 1 < changeRatio) : ∃ broad, isBroadMove context changeRatio breadthRatio = .ok broad :=
  bind_total (divide_changeRatio hratio) fun _ _ => ⟨_, rfl⟩

theorem evaluateMarketContext_outcome {series : List ActivitySeries} {changeRatio : Rat}
    (breadthRatio : Rat) {minimumInstruments : Nat} (hdays : 0 < baselineDays)
    (hratio : 1 < changeRatio) (hminimum : 0 < minimumInstruments)
    (hmoderate : moderate → ∀ row ∈ series, row.Moderate) :
    Outcome (fun _ => True) (Overflows moderate) (evaluateMarketContext series baselineDays
      changeRatio breadthRatio minimumInstruments) := by
  refine (Outcome.filterM fun row hm => inPanel_outcome hdays fun h => hmoderate h row hm).bind
    fun panel _ hpanel => ?_
  split
  · trivial
  · rename_i hmany
    have hrows : panel ≠ [] := List.length_pos_iff.mp (by omega)
    have hhorizon := fun {horizon : Nat} (hpos : 0 < horizon) (hle : horizon ≤ confirmationDays) =>
      evaluateHorizon_outcome hdays hpos hle hrows (fun row hm => (hpanel row hm).2) hratio
        fun h row hm => hmoderate h row (hpanel row hm).1
    refine (hhorizon (by decide) (by decide)).bind fun daily _ _ => ?_
    refine (hhorizon (by decide) (by decide)).bind fun pending _ _ => ?_
    refine (hhorizon (by decide) (by decide)).bind fun confirmed _ _ => ?_
    obtain ⟨broad, hbroad⟩ := isBroadMove_ok confirmed breadthRatio hratio
    rw [bind_eq hbroad rfl]
    cases broad with
    | true => trivial
    | false =>
      obtain ⟨broad, hbroad⟩ := isBroadMove_ok pending breadthRatio hratio
      rw [if_neg Bool.false_ne_true, bind_eq hbroad rfl]
      cases broad with
      | true => trivial
      | false =>
        obtain ⟨broad, hbroad⟩ := isBroadMove_ok daily breadthRatio hratio
        rw [if_neg Bool.false_ne_true, bind_eq hbroad rfl]
        cases broad with
        | true => trivial
        | false => trivial

/-! ## A market in which nothing changes -/

section Steady
variable {days : Nat} {value : Rat} {changeRatio limit : Rat}

theorem median_replicate (hdays : 0 < days) (hvalue : contextRound value = .ok value)
    (htwice : contextRound (2 * value) = .ok (2 * value)) :
    median (List.replicate days value) = .ok value := by
  have hsorted : ((List.replicate days value).insertionSort fun a b => a ≤ b) =
      List.replicate days value := by
    apply List.Pairwise.insertionSort_eq
    exact List.pairwise_replicate.mpr (.inr le_rfl)
  have hitem : ∀ {index : Nat}, index < days →
      itemAt (List.replicate days value) index = .ok value := by
    intro index hlt
    rw [itemAt_ok (by rwa [List.length_replicate]), List.getElem_replicate]
  unfold median
  dsimp only
  rw [hsorted, List.length_replicate]
  split
  · exact hitem (by omega)
  · rw [bind_eq (hitem (by omega)) (bind_eq (hitem (by omega)) rfl), ← two_mul, bind_eq htwice rfl,
      divide_of_ne _ two_ne_zero, mul_div_cancel_left₀ value two_ne_zero, hvalue]

/-- The same volume and the same number of trades on each day, in numbers that are not rounded. -/
structure Steady (days : Nat) (row : ActivitySeries) (volume : Rat) (trades : Nat) : Prop where
  quoteVolumes : row.quoteVolumes = List.replicate days volume
  tradeCounts : row.tradeCounts = List.replicate days trades
  volume_pos : 0 < volume
  trades_pos : 0 < trades
  exact : ∀ number ∈ [volume, 2 * volume, (trades : Rat), 2 * (trades : Rat)],
    contextRound number = .ok number

variable {row : ActivitySeries} {volume : Rat} {trades baselineDays horizon : Nat}
variable (h : Steady (baselineDays + confirmationDays) row volume trades)
  (hdays : 0 < baselineDays)
include h hdays

theorem Steady.median_take :
    median (row.quoteVolumes.take baselineDays) = .ok volume ∧
      median (tradeValues (row.tradeCounts.take baselineDays)) = .ok (trades : Rat) := by
  unfold tradeValues
  rw [h.quoteVolumes, h.tradeCounts, List.take_replicate, List.take_replicate, List.map_replicate,
    Nat.min_eq_left (Nat.le_add_right _ _)]
  exact ⟨median_replicate hdays (h.exact _ (by simp)) (h.exact _ (by simp)),
    median_replicate hdays (h.exact _ (by simp)) (h.exact _ (by simp))⟩

theorem Steady.inPanel : inPanel baselineDays row = .ok true := by
  obtain ⟨hvolume, htrade⟩ := h.median_take hdays
  have hlength : ¬ (row.quoteVolumes.length ≠ baselineDays + confirmationDays ∨
      row.tradeCounts.length ≠ baselineDays + confirmationDays) := by
    rw [h.quoteVolumes, h.tradeCounts, List.length_replicate, List.length_replicate]
    simp
  have hpositive : (0 : Rat) < trades := by exact_mod_cast h.trades_pos
  unfold MiryFormal.inPanel
  dsimp only
  rw [if_neg hlength, bind_eq hvolume rfl, if_neg (not_le.mpr h.volume_pos), bind_eq htrade rfl,
    decide_eq_true hpositive]
  rfl

theorem Steady.factors (hhorizon : 0 < horizon) (hle : horizon ≤ confirmationDays) :
    volumeFactor horizon baselineDays row = .ok 1 ∧
      tradeFactor horizon baselineDays row = .ok 1 := by
  obtain ⟨hvolume, htrade⟩ := h.median_take hdays
  have hcount : baselineDays + confirmationDays - (baselineDays + confirmationDays - horizon) =
      horizon := by omega
  have hrecent : median (lastOf row.quoteVolumes horizon) = .ok volume ∧
      median (tradeValues (lastOf row.tradeCounts horizon)) = .ok (trades : Rat) := by
    unfold tradeValues lastOf
    rw [h.quoteVolumes, h.tradeCounts, List.length_replicate, List.length_replicate, List.drop_replicate,
      List.drop_replicate, List.map_replicate, hcount]
    exact ⟨median_replicate hhorizon (h.exact _ (by simp)) (h.exact _ (by simp)),
      median_replicate hhorizon (h.exact _ (by simp)) (h.exact _ (by simp))⟩
  have hone : ∀ {number : Rat}, 0 < number → divide number number = .ok 1 := by
    intro number hpositive
    rw [divide_of_ne _ hpositive.ne', div_self hpositive.ne', contextRound_one]
  have hpositive : (0 : Rat) < trades := by exact_mod_cast h.trades_pos
  exact ⟨bind_eq hvolume (bind_eq hrecent.1 (hone h.volume_pos)),
    bind_eq htrade (bind_eq hrecent.2 (hone hpositive))⟩

end Steady

/-- The context of a market in which nothing changes. -/
def steadyContext (horizonDays panelCount : Nat) : MarketContext where
  state := .normal
  horizonDays
  panelCount
  quoteVolumeFactor := 1
  tradeCountFactor := 1
  quoteVolumeBreadth := 0
  tradeCountBreadth := 0

section SteadyMarket
variable {rows : List ActivitySeries} {volume : Rat} {trades baselineDays : Nat}
  {changeRatio limit : Rat} (hrows : rows ≠ [])
  (hsteady : ∀ row ∈ rows, Steady (baselineDays + confirmationDays) row volume trades)
  (hdays : 0 < baselineDays) (hratio : 1 < changeRatio) (hlimit : divide 1 changeRatio = .ok limit)
  (hbelow : limit < 1)
include hrows hsteady hdays hratio hlimit hbelow

theorem evaluateHorizon_steady {horizon : Nat} (hhorizon : 0 < horizon)
    (hle : horizon ≤ confirmationDays) :
    evaluateHorizon rows horizon baselineDays changeRatio =
      .ok (steadyContext horizon rows.length) := by
  have hmap : ∀ {f : ActivitySeries → Except String Rat}, (∀ row ∈ rows, f row = .ok 1) →
      rows.mapM f = .ok (List.replicate rows.length 1) := by
    intro f hf
    rw [← List.map_const']
    apply mapM_of_forall₂
    rw [List.forall₂_map_right_iff, List.forall₂_same]
    exact hf
  have hlength : 0 < rows.length := List.length_pos_iff.mpr hrows
  have htwo : contextRound (2 * 1) = .ok (2 * 1) :=
    @contextRound_of_digits (2 * 1) 2 0 (by decide) (by decide) (by decide) (by norm_num)
  have hmedian : median (List.replicate rows.length 1) = .ok 1 :=
    median_replicate hlength contextRound_one htwo
  have hdown : decide (changeRatio ≤ 1) = false := decide_eq_false (not_le.mpr hratio)
  have hbreadth : directionalBreadth (List.replicate rows.length 1) limit false = .ok 0 := by
    have hnone : (List.replicate rows.length (1 : Rat)).filter (fun value => value ≤ limit) = [] :=
      List.filter_eq_nil_iff.mpr fun value hm => by
        rw [List.eq_of_mem_replicate hm]
        simpa using hbelow
    unfold directionalBreadth
    dsimp only
    rw [if_neg Bool.false_ne_true, hnone, List.length_nil, List.length_replicate,
      divide_of_ne _ (by exact_mod_cast hlength.ne'), Nat.cast_zero, zero_div, contextRound_zero]
  unfold evaluateHorizon
  rw [bind_eq (hmap fun row hm => ((hsteady row hm).factors hdays hhorizon hle).1) rfl,
    bind_eq (hmap fun row hm => ((hsteady row hm).factors hdays hhorizon hle).2) rfl,
    bind_eq hmedian rfl, bind_eq hmedian rfl]
  dsimp only
  rw [hdown, moveThreshold, if_neg Bool.false_ne_true, bind_eq hlimit rfl, bind_eq hbreadth rfl,
    bind_eq hbreadth rfl]
  rfl

omit hrows hsteady hdays in
theorem isBroadMove_steady (horizonDays panelCount : Nat) (breadthRatio : Rat) :
    isBroadMove (steadyContext horizonDays panelCount) changeRatio breadthRatio = .ok false := by
  have hup : decide (changeRatio ≤ 1) = false := decide_eq_false (not_le.mpr hratio)
  have hdown : decide (1 ≤ limit) = false := decide_eq_false (not_le.mpr hbelow)
  unfold isBroadMove steadyContext
  dsimp only
  rw [bind_eq hlimit rfl, hup, hdown]
  rfl

/-- A market in which nothing changes is normal. -/
theorem evaluateMarketContext_steady (breadthRatio : Rat) {minimumInstruments : Nat}
    (hmany : minimumInstruments ≤ rows.length) :
    evaluateMarketContext rows baselineDays changeRatio breadthRatio minimumInstruments =
      .ok (steadyContext 1 rows.length) := by
  have hpanel : rows.filterM (inPanel baselineDays) = .ok rows := by
    rw [filterM_eq (q := fun _ => true) fun row hm => (hsteady row hm).inPanel hdays,
      List.filter_true]
  have hhorizon := fun {horizon : Nat} (hpos : 0 < horizon) (hle : horizon ≤ confirmationDays) =>
    evaluateHorizon_steady hrows hsteady hdays hratio hlimit hbelow hpos hle
  have hbroad := isBroadMove_steady hratio hlimit hbelow
  unfold evaluateMarketContext
  rw [bind_eq hpanel rfl, if_neg (not_lt.mpr hmany),
    bind_eq (hhorizon (by decide) (by decide)) rfl,
    bind_eq (hhorizon (by decide) (by decide)) rfl,
    bind_eq (hhorizon (by decide) (by decide)) rfl,
    bind_eq (hbroad _ _ breadthRatio) rfl, if_neg Bool.false_ne_true,
    bind_eq (hbroad _ _ breadthRatio) rfl, if_neg Bool.false_ne_true,
    bind_eq (hbroad _ _ breadthRatio) rfl, if_neg Bool.false_ne_true]
  rfl

end SteadyMarket

end MiryFormal
