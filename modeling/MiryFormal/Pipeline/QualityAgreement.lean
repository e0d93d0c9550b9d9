import MiryFormal.Pipeline.GapPairing
import MiryFormal.Pipeline.L2Coverage

/-!
# Validity and the quality gate

The intervals of a day against the invalid intervals that the quality gate reads from the
same ledger. They meet in at most one nanosecond: the last one of the day, which belongs to
the gap for the gate when the gap continues over midnight, and to the book for the replay.
-/

namespace MiryFormal

set_option autoImplicit false

open Intervals

theorem GapEvent.explicitEffectiveNs_eq {event : GapEvent}
    (h : event.affectedFromRealtimeNs ≠ some 0) :
    event.explicitEffectiveNs = event.effectiveNs := by
  cases hstate : event.state with
  | closed => simp only [explicitEffectiveNs, effectiveNs, hstate]
  | opened =>
    cases hns : event.affectedFromRealtimeNs with
    | none => simp only [explicitEffectiveNs, effectiveNs, hstate, hns]
    | some ns =>
      have hne : ns ≠ 0 := fun hz => h (hz ▸ hns)
      simp only [explicitEffectiveNs, effectiveNs, hstate, hns, if_neg hne]

theorem explicitEvents_perm (ledger : List GapEvent) (symbol : String) :
    (explicitEvents ledger symbol).Perm (ledger.filter fun event => event.selects symbol) :=
  List.perm_insertionSort _ _

theorem explicitEvents_pairwise (ledger : List GapEvent) (symbol : String) :
    (explicitEvents ledger symbol).Pairwise fun a b => a.explicitSortKey ≤ b.explicitSortKey := by
  have : IsTrans GapEvent fun a b => a.explicitSortKey ≤ b.explicitSortKey :=
    ⟨fun _ _ _ => le_trans⟩
  have : Std.Total fun a b : GapEvent => a.explicitSortKey ≤ b.explicitSortKey :=
    ⟨fun _ _ => le_total _ _⟩
  exact List.pairwise_insertionSort _ _

/-- The sort keys of the two readers agree up to the detail. -/
theorem GapEvent.sortKey_le_of_explicit {a b : GapEvent}
    (ha : a.affectedFromRealtimeNs ≠ some 0) (hb : b.affectedFromRealtimeNs ≠ some 0)
    (h : a.explicitSortKey ≤ b.explicitSortKey) : a.sortKey ≤ b.sortKey := by
  rw [explicitSortKey, explicitSortKey, explicitEffectiveNs_eq ha, explicitEffectiveNs_eq hb] at h
  rcases Prod.Lex.le_iff.mp h with h | ⟨h, h'⟩
  · exact Prod.Lex.le_iff.mpr (.inl h)
  · refine Prod.Lex.le_iff.mpr (.inr ⟨h, ?_⟩)
    rcases Prod.Lex.le_iff.mp h' with h' | ⟨h', h''⟩
    · exact Prod.Lex.le_iff.mpr (.inl h')
    · refine Prod.Lex.le_iff.mpr (.inr ⟨h', ?_⟩)
      rcases Prod.Lex.le_iff.mp h'' with h'' | ⟨h'', -⟩
      · exact le_of_lt h''
      · exact le_of_eq h''

theorem GapEvent.state_eq_of_sortKey_eq {a b : GapEvent} (h : a.sortKey = b.sortKey) :
    a.state = b.state := by
  have hvalue : a.state.value = b.state.value := congrArg (fun key => (ofLex (ofLex key).2).2) h
  cases ha : a.state <;> cases hb : b.state <;> simp_all [GapState.value]

/-! ## Open gaps do not depend on the order of ties -/

/-- On sorted events the last event of a gap is one with the greatest key. -/
theorem exists_lastOpen_iff {events : List GapEvent} {gapId : String}
    (hsorted : events.Pairwise fun a b => a.sortKey ≤ b.sortKey) :
    (∃ o, LastOpen events gapId o) ↔ ∃ o ∈ events, o.gapId = gapId ∧ o.state = .opened ∧
      ∀ event ∈ events, event.gapId = gapId → event.sortKey ≤ o.sortKey := by
  induction events using List.reverseRecOn with
  | nil =>
    simp only [List.not_mem_nil, false_and, exists_false, iff_false, not_exists]
    intro o h
    exact List.not_mem_nil h.mem
  | append_singleton events event ih =>
    obtain ⟨hsorted, -, hlast⟩ := List.pairwise_append.mp hsorted
    simp only [lastOpen_concat, exists_or, exists_and_left, ih hsorted]
    by_cases hid : event.gapId = gapId
    · constructor
      · rintro (⟨-, hstate, -⟩ | ⟨hne, -⟩)
        · refine ⟨event, by simp, hid, hstate, fun e hm _ => ?_⟩
          rcases List.mem_append.mp hm with hm | hm
          · exact hlast e hm event List.mem_cons_self
          · exact (congrArg GapEvent.sortKey (List.mem_singleton.mp hm)).le
        · exact absurd hid hne
      · rintro ⟨o, hm, -, hstate, hmax⟩
        refine .inl ⟨hid, ?_, event, rfl⟩
        rcases List.mem_append.mp hm with hm | hm
        · have hle := hlast o hm event List.mem_cons_self
          have hge := hmax event (by simp) hid
          rw [GapEvent.state_eq_of_sortKey_eq (le_antisymm hge hle), hstate]
        · rwa [← List.mem_singleton.mp hm]
    · constructor
      · rintro (⟨habsurd, -⟩ | ⟨-, o, hm, ho, hstate, hmax⟩)
        · exact absurd habsurd hid
        · refine ⟨o, List.mem_append_left _ hm, ho, hstate, fun e he heid => ?_⟩
          rcases List.mem_append.mp he with he | he
          · exact hmax e he heid
          · rw [List.mem_singleton.mp he] at heid
            exact absurd heid hid
      · rintro ⟨o, hm, ho, hstate, hmax⟩
        refine .inr ⟨hid, o, ?_, ho, hstate, fun e he => hmax e (List.mem_append_left _ he)⟩
        rcases List.mem_append.mp hm with hm | hm
        · exact hm
        · rw [List.mem_singleton.mp hm] at ho
          exact absurd ho hid

namespace L2Day
variable {day : L2Day}

/-- The ledger as the journal writes it: only the CLOSED event of the last nanosecond says
that its gap continues, and no gap begins at the epoch itself. -/
structure JournalLedger (day : L2Day) : Prop where
  continues : ∀ event ∈ day.ledger, event.state = .closed → event.detail = continuesDetail →
    event.observedAtRealtimeNs = day.endNs - 1
  affected_pos : ∀ event ∈ day.ledger, event.affectedFromRealtimeNs ≠ some 0

/-- A gap of the symbol is open when its event of the day's last nanosecond closes it. -/
def GapContinues (day : L2Day) : Prop :=
  ∃ o closed, ClosesAt (explicitEvents day.ledger day.symbol) o closed ∧
    closed.detail = continuesDetail

theorem mem_explicitEvents {event : GapEvent} :
    event ∈ explicitEvents day.ledger day.symbol ↔
      event ∈ day.ledger ∧ event.selects day.symbol = true := by
  rw [(explicitEvents_perm _ _).mem_iff, List.mem_filter]

theorem mem_gapsOpenAt {gapId : String} {t : Int} {o : GapEvent}
    (hm : o ∈ explicitEvents day.ledger day.symbol) (hid : o.gapId = gapId)
    (hstate : o.state = .opened) (ht : o.effectiveNs ≤ t)
    (hmax : ∀ event ∈ explicitEvents day.ledger day.symbol, event.gapId = gapId →
      event.effectiveNs ≤ t → event.sortKey ≤ o.sortKey) :
    gapId ∈ day.gapsOpenAt t := by
  have hmem : ∀ event, event ∈ day.transportGapEvents ↔
      event ∈ explicitEvents day.ledger day.symbol := fun event => by
    rw [mem_transportGapEvents, mem_explicitEvents]
  have hsorted : (day.transportGapEvents.filter fun event => event.effectiveNs ≤ t).Pairwise
      fun a b => a.sortKey ≤ b.sortKey := (sortGapEvents_pairwise _).filter _
  rw [gapsOpenAt, mem_foldl_trackGap, exists_lastOpen_iff hsorted]
  refine ⟨o, List.mem_filter.mpr ⟨(hmem o).mpr hm, by simpa using ht⟩, hid, hstate, ?_⟩
  intro event he heid
  obtain ⟨he, hle⟩ := List.mem_filter.mp he
  exact hmax event ((hmem event).mp he) heid (by simpa using hle)

theorem JournalLedger.explicit_sorted (h : day.JournalLedger) :
    (explicitEvents day.ledger day.symbol).Pairwise fun a b => a.sortKey ≤ b.sortKey := by
  refine (explicitEvents_pairwise day.ledger day.symbol).imp_of_mem fun ha hb hle => ?_
  exact GapEvent.sortKey_le_of_explicit (h.affected_pos _ (mem_explicitEvents.mp ha).1)
    (h.affected_pos _ (mem_explicitEvents.mp hb).1) hle

theorem LastOpen.max {events : List GapEvent} {gapId : String} {o : GapEvent}
    (h : LastOpen events gapId o) (hsorted : events.Pairwise fun a b => a.sortKey ≤ b.sortKey)
    {event : GapEvent} (hm : event ∈ events) (hid : event.gapId = gapId) :
    event.sortKey ≤ o.sortKey := by
  obtain ⟨before, after, rfl, -, -, hafter⟩ := h
  rcases List.mem_append.mp hm with hm | hm
  · exact (List.pairwise_append.mp hsorted).2.2 event hm o List.mem_cons_self
  · rcases List.mem_cons.mp hm with rfl | hm
    · exact le_rfl
    · exact absurd hid (hafter event hm)

theorem LastOpen.state {events : List GapEvent} {gapId : String} {o : GapEvent}
    (h : LastOpen events gapId o) : o.state = .opened ∧ o.gapId = gapId := by
  obtain ⟨before, after, rfl, hstate, hid, -⟩ := h
  exact ⟨hstate, hid⟩

/-- Inside a pair, before the CLOSED event, the gap is open. -/
theorem JournalLedger.open_inside (h : day.JournalLedger) {o closed : GapEvent} {t : Int}
    (hcloses : ClosesAt (explicitEvents day.ledger day.symbol) o closed)
    (hle : o.effectiveNs ≤ t) (hlt : t < closed.effectiveNs) :
    closed.gapId ∈ day.gapsOpenAt t := by
  have hsorted := h.explicit_sorted
  obtain ⟨before, after, hsplit, -, hlast⟩ := hcloses
  obtain ⟨hbefore, hafter, -⟩ := List.pairwise_append.mp (hsplit ▸ hsorted)
  have hmem : o ∈ explicitEvents day.ledger day.symbol := by
    rw [hsplit]
    exact List.mem_append_left _ hlast.mem
  obtain ⟨hstate, hid⟩ := LastOpen.state hlast
  refine mem_gapsOpenAt hmem hid hstate hle fun event hm heid het => ?_
  rw [hsplit] at hm
  rcases List.mem_append.mp hm with hm | hm
  · exact LastOpen.max hlast hbefore hm heid
  · -- From the CLOSED event on, everything takes effect after `t`.
    exfalso
    rcases List.mem_cons.mp hm with rfl | hm
    · omega
    · have := GapEvent.effectiveNs_le_of_sortKey_le ((List.pairwise_cons.mp hafter).1 event hm)
      omega

/-- Outside the continued CLOSED events, an explicitly invalid instant has an open gap. -/
theorem JournalLedger.covers_labelled (h : day.JournalLedger) {windowEndNs t : Int}
    (hcovers : Covers ((labelledIntervals day.ledger day.symbol windowEndNs).map Prod.snd) t) :
    day.gapsOpenAt t ≠ [] ∨ (day.GapContinues ∧ t = day.endNs - 1) := by
  obtain ⟨i, hi, hle, hlt⟩ := hcovers
  obtain ⟨⟨gapId, start, stop⟩, hm, rfl⟩ := List.mem_map.mp hi
  have heff : ∀ o ∈ explicitEvents day.ledger day.symbol,
      o.explicitEffectiveNs = o.effectiveNs := fun o ho =>
    GapEvent.explicitEffectiveNs_eq (h.affected_pos o (mem_explicitEvents.mp ho).1)
  rcases mem_labelledIntervals.mp hm with ⟨o, closed, hcloses, heq⟩ | ⟨gapId', o, hlast, heq⟩
  · obtain ⟨rfl, rfl, rfl⟩ : gapId = closed.gapId ∧ start = o.explicitEffectiveNs ∧
        stop = closed.explicitEndNs := by simpa using heq
    obtain ⟨before, after, hsplit, hclosed, hlast⟩ := id hcloses
    have ho : o ∈ explicitEvents day.ledger day.symbol := by
      rw [hsplit]
      exact List.mem_append_left _ hlast.mem
    have hc : closed ∈ explicitEvents day.ledger day.symbol := by simp [hsplit]
    simp only [GapEvent.explicitEndNs, heff o ho, heff closed hc] at hle hlt
    by_cases hbefore : t < closed.effectiveNs
    · exact .inl (List.ne_nil_of_mem (h.open_inside hcloses hle hbefore))
    · split at hlt
      · rename_i hdetail
        refine .inr ⟨⟨o, closed, hcloses, hdetail⟩, ?_⟩
        have := h.continues closed (mem_explicitEvents.mp hc).1 hclosed hdetail
        rw [GapEvent.effectiveNs_of_closed hclosed] at hbefore hlt
        omega
      · omega
  · obtain ⟨rfl, rfl, rfl⟩ : gapId = gapId' ∧ start = o.explicitEffectiveNs ∧
        stop = windowEndNs := by simpa using heq
    rw [heff o hlast.mem] at hle
    obtain ⟨hstate, hid⟩ := LastOpen.state hlast
    exact .inl (List.ne_nil_of_mem (mem_gapsOpenAt hlast.mem hid hstate hle
      fun event hm heid _ => LastOpen.max hlast h.explicit_sorted hm heid))

theorem JournalLedger.covers_of_continues (h : day.JournalLedger) (hcontinues : day.GapContinues)
    (windowEndNs : Int) :
    Covers ((labelledIntervals day.ledger day.symbol windowEndNs).map Prod.snd)
      (day.endNs - 1) := by
  obtain ⟨o, closed, hcloses, hdetail⟩ := hcontinues
  obtain ⟨before, after, hsplit, hclosed, hlast⟩ := id hcloses
  have hc : closed ∈ explicitEvents day.ledger day.symbol := by simp [hsplit]
  have hsorted := h.explicit_sorted
  rw [hsplit] at hsorted
  have hle := GapEvent.effectiveNs_le_of_sortKey_le
    ((List.pairwise_append.mp hsorted).2.2 o hlast.mem closed List.mem_cons_self)
  have ho : o ∈ explicitEvents day.ledger day.symbol := by
    rw [hsplit]
    exact List.mem_append_left _ hlast.mem
  have hend := h.continues closed (mem_explicitEvents.mp hc).1 hclosed hdetail
  rw [GapEvent.effectiveNs_of_closed hclosed, hend] at hle
  refine ⟨_, List.mem_map.mpr ⟨_, mem_labelledIntervals.mpr (.inl ⟨o, closed, hcloses, rfl⟩),
    rfl⟩, ?_, ?_⟩
  · rw [GapEvent.explicitEffectiveNs_eq (h.affected_pos o (mem_explicitEvents.mp ho).1)]
    exact hle
  · simp only [GapEvent.explicitEndNs, hdetail, if_true]
    rw [GapEvent.explicitEffectiveNs_eq (h.affected_pos closed (mem_explicitEvents.mp hc).1),
      GapEvent.effectiveNs_of_closed hclosed, hend]
    omega

/-! ## The last nanosecond -/

theorem due_last_iff {out : L2DayOutput} (hin : day.InDay)
    (hsettled : ∀ checkpoint ∈ day.previousCheckpoint, checkpoint.Settled day.startNs)
    (hrun : day.run = .ok out) :
    day.Due (day.endNs - 1) ↔
      Covers (out.intervals.map ValidityInterval.bounds) (day.endNs - 1) := by
  obtain ⟨start, final, hstart, hfinal, hfinish⟩ := run_ok hrun
  have hinside : ∀ item ∈ day.items, day.startNs ≤ item.timeNs ∧
      item.timeNs ≤ day.endNs - 1 := fun item hm => by
    have := hin.items_inside hm
    omega
  obtain ⟨final', hfinal', hfollow⟩ := timeline_invariant DayItem.timeNs
    (DayReplay.Following day (day.history start) day.startNs) hin.items_pairwise
    (fun hle h hstill => h.wait hle hstill)
    (fun hitems _ h => by
      obtain ⟨replay', hok, -, hfollow⟩ := following_step hin hitems h
      exact ⟨replay', hok, hfollow⟩)
    hinside (by have := day.startNs_lt_endNs; omega) (following_begin hsettled hstart)
  obtain rfl : final = final' := Except.ok.inj (hfinal.symm.trans hfinal')
  have hlast : day.history start (day.endNs - 1) = .ok final := by
    have hnow := stateAt_between hfinal (fun item hm => (hinside item hm).2)
      (List.forall_mem_nil _)
    simpa [history] using hnow
  rw [due_iff hin hstart, finish_intervals hfinish]
  constructor
  · rintro ⟨c, replay, hreplay, hnil, hbecame, hvalid⟩
    obtain rfl : final = replay := Except.ok.inj (hlast.symm.trans hreplay)
    have ha := hfollow.tracked.authority c hnil (hfollow.tracked.last_valid c hbecame hvalid) hvalid
    obtain ⟨fromNs, hf⟩ : ∃ fromNs, final.validFrom = some fromNs := by
      refine Option.ne_none_iff_exists'.mp fun hf => ?_
      simp [hfollow.sound.authority_iff.mpr hf] at ha
    have hle := (hfollow.sound.running c fromNs ha hf).le_now
    rw [DayReplay.endInterval_some ha hf]
    refine ⟨(fromNs, day.endNs), List.mem_map.mpr ⟨_, List.mem_filter.mpr
      ⟨List.mem_append_right _ List.mem_cons_self, ?_⟩, rfl⟩, hle, ?_⟩
    · simp only [decide_eq_true_eq]
      omega
    · change day.endNs - 1 < day.endNs
      omega
  · rintro ⟨i, hi, hle, hlt⟩
    obtain ⟨interval, hm, rfl⟩ := List.mem_map.mp hi
    have hm := List.mem_of_mem_filter hm
    have hold : interval ∉ final.intervals := fun hm => by
      have := (hfollow.sound.intervals interval hm).to_le
      simp only [ValidityInterval.bounds] at hlt
      omega
    rcases DayReplay.authority_cases hfollow.sound.authority_iff with ⟨ha, -⟩ | ⟨c, fromNs, ha, hf⟩
    · rw [DayReplay.endInterval_none ha] at hm
      exact absurd hm hold
    · have hrunning := hfollow.sound.running c fromNs ha hf
      exact ⟨c, final, hlast, hrunning.no_gap, hfollow.tracked.last_eq c hrunning.last,
        hrunning.valid⟩

/-- Validity and gate conflict exactly when a gap continues over midnight while the last
nanosecond of the day is due. -/
theorem conflictingNs_eq_zero_iff {out : L2DayOutput} (hin : day.InDay)
    (hsettled : ∀ checkpoint ∈ day.previousCheckpoint, checkpoint.Settled day.startNs)
    (hledger : day.JournalLedger) (hrun : day.run = .ok out) {windowStartNs windowEndNs : Int}
    (hwindow : day.startNs ≤ windowStartNs ∧ windowStartNs < windowEndNs ∧
      windowEndNs ≤ day.endNs) :
    ∃ valid, validateValidity day.utcDate out.intervals = .ok valid ∧
      ((symbolCoverage valid day.ledger day.symbol windowStartNs windowEndNs).conflictingNs = 0 ↔
        ¬ (windowEndNs = day.endNs ∧ day.GapContinues ∧ day.Due (day.endNs - 1))) := by
  obtain ⟨start, hstart, -, hintervals⟩ := soundIntervals_of_run hin hsettled hrun
  refine ⟨_, validateValidity_of_run hin hsettled hrun, ?_⟩
  have hclip : ∀ i ∈ explicitInvalidIntervals day.ledger day.symbol windowStartNs windowEndNs,
      i.2 ≤ windowEndNs := by
    intro i hm
    obtain ⟨j, -, rfl⟩ := List.mem_map.mp hm
    exact min_le_right _ _
  rw [symbolCoverage, intersectionDuration_eq_zero_iff, due_last_iff hin hsettled hrun]
  constructor
  · rintro h ⟨rfl, hcontinues, hvalid⟩
    refine h (day.endNs - 1) (by omega) (by omega) ⟨hvalid, covers_extend_of_covers hclip ?_⟩
    exact covers_clip.mpr
      ⟨hledger.covers_of_continues hcontinues _, by omega, by omega⟩
  · rintro h t hle hlt ⟨hvalid, hinvalid⟩
    obtain ⟨hinvalid, -, -⟩ := covers_clip.mp (covers_of_covers_extend hvalid hinvalid)
    obtain ⟨i, hi, hfrom, hto⟩ := id hvalid
    obtain ⟨interval, hm, rfl⟩ := List.mem_map.mp hi
    obtain ⟨replay, hreplay, -, hnil⟩ := (hintervals interval hm).2.good t hfrom hto
    rcases hledger.covers_labelled hinvalid with hopen | ⟨hcontinues, rfl⟩
    · exact hopen ((activeGaps_stateAt hin hstart hreplay).symm.trans hnil)
    · exact h ⟨by omega, hcontinues, hvalid⟩

theorem conflictingNs_plainDay :
    ∃ out valid, plainDay.run = .ok out ∧ validateValidity plainDay.utcDate out.intervals = .ok valid ∧
      ((symbolCoverage valid plainDay.ledger plainDay.symbol plainDay.startNs
          plainDay.endNs).conflictingNs = 0 ↔
        ¬ (plainDay.endNs = plainDay.endNs ∧ plainDay.GapContinues ∧
          plainDay.Due (plainDay.endNs - 1))) := by
  obtain ⟨out, hrun⟩ : ∃ out, plainDay.run = .ok out := ⟨_, rfl⟩
  obtain ⟨valid, hvalid, hiff⟩ := conflictingNs_eq_zero_iff plainDay_inDay (by simp [plainDay])
    ⟨by decide, by decide⟩ hrun (show plainDay.startNs ≤ plainDay.startNs ∧
      plainDay.startNs < plainDay.endNs ∧ plainDay.endNs ≤ plainDay.endNs by decide)
  exact ⟨out, valid, hrun, hvalid, hiff⟩

/-- The book bridges again while the gap is open, and the gap continues over midnight. -/
def continuedDay : L2Day :=
  { plainDay with
    ledger := [
      { gapId := "gap-00001", state := .opened, reason := .connectionLost
        collectorId := "collector", observedAtRealtimeNs := 86400000000030 },
      { gapId := "gap-00001", state := .closed, reason := .connectionLost
        collectorId := "collector", observedAtRealtimeNs := 172799999999999
        detail := continuesDetail }] }

/-- The last nanosecond is valid for the replay and explicitly invalid for the gate. -/
theorem conflictingNs_continuedDay :
    continuedDay.InDay ∧ continuedDay.JournalLedger ∧
      ∃ out valid, continuedDay.run = .ok out ∧
        validateValidity continuedDay.utcDate out.intervals = .ok valid ∧
        (symbolCoverage valid continuedDay.ledger continuedDay.symbol continuedDay.startNs
          continuedDay.endNs).conflictingNs = 1 := by
  refine ⟨⟨by decide, by decide, by decide, by decide⟩, ⟨by decide, by decide⟩, ?_⟩
  obtain ⟨out, hrun⟩ : ∃ out, continuedDay.run = .ok out := ⟨_, rfl⟩
  cases hrun
  exact ⟨_, _, rfl, rfl, by decide⟩

end L2Day

end MiryFormal
