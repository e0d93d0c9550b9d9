import MiryFormal.Collector.GapHistory
import MiryFormal.Pipeline.GapPairing
import MiryFormal.Pipeline.Quality

/-!
# From gap to ledger and back

The journal writes one OPEN and at most one CLOSED event of a gap into each day, and
`_explicit_invalid_intervals` pairs them again. The union of what it finds is the gap, unless
the CLOSED event sorts before the OPEN event of its day.
-/

namespace MiryFormal

set_option autoImplicit false

open Intervals

/-! ## One gap of a ledger -/

/-- The events of one gap, in the order in which they are paired. -/
def gapEvents (ledger : List GapEvent) (symbol gapId : String) : List GapEvent :=
  (explicitEvents ledger symbol).filter fun event => event.gapId = gapId

/-- What `_explicit_invalid_intervals` reconstructs for one gap. -/
def gapIntervals (ledger : List GapEvent) (symbol gapId : String)
    (windowStartNs windowEndNs : Int) : List (Int × Int) :=
  clip windowStartNs windowEndNs
    (((labelledIntervals ledger symbol windowEndNs).filter fun entry => entry.1 = gapId).map
      Prod.snd)

theorem lastOpen_filter {events : List GapEvent} {gapId : String} {o : GapEvent} :
    LastOpen (events.filter fun event => event.gapId = gapId) gapId o ↔
      LastOpen events gapId o := by
  induction events using List.reverseRecOn with
  | nil => rfl
  | append_singleton events event ih =>
    rw [List.filter_append, lastOpen_concat]
    by_cases hid : event.gapId = gapId
    · rw [List.filter_cons_of_pos (by simpa using hid), List.filter_nil, lastOpen_concat]
      simp [hid]
    · rw [List.filter_cons_of_neg (by simpa using hid), List.filter_nil, List.append_nil, ih]
      simp [hid]

theorem closesAt_filter {events : List GapEvent} {gapId : String} {o closed : GapEvent} :
    ClosesAt (events.filter fun event => event.gapId = gapId) o closed ↔
      ClosesAt events o closed ∧ closed.gapId = gapId := by
  induction events using List.reverseRecOn with
  | nil =>
    constructor
    · rintro ⟨before, after, hsplit, -⟩
      simp at hsplit
    · rintro ⟨⟨before, after, hsplit, -⟩, -⟩
      simp at hsplit
  | append_singleton events event ih =>
    rw [List.filter_append, closesAt_concat]
    by_cases hid : event.gapId = gapId
    · rw [List.filter_cons_of_pos (by simpa using hid), List.filter_nil, closesAt_concat, ih, hid,
        lastOpen_filter]
      constructor
      · rintro (⟨rfl, hclosed⟩ | ⟨hcloses, hgap⟩)
        · exact ⟨.inl ⟨rfl, hclosed⟩, hid⟩
        · exact ⟨.inr hcloses, hgap⟩
      · rintro ⟨⟨rfl, hclosed⟩ | hcloses, hgap⟩
        · exact .inl ⟨rfl, hclosed⟩
        · exact .inr ⟨hcloses, hgap⟩
    · rw [List.filter_cons_of_neg (by simpa using hid), List.filter_nil, List.append_nil, ih]
      constructor
      · rintro ⟨hcloses, hgap⟩
        exact ⟨.inr hcloses, hgap⟩
      · rintro ⟨⟨rfl, -⟩ | hcloses, hgap⟩
        · exact absurd hgap hid
        · exact ⟨hcloses, hgap⟩

theorem covers_gapIntervals {ledger : List GapEvent} {symbol gapId : String}
    {windowStartNs windowEndNs t : Int} :
    Covers (gapIntervals ledger symbol gapId windowStartNs windowEndNs) t ↔
      ((∃ o closed, ClosesAt (gapEvents ledger symbol gapId) o closed ∧
          o.explicitEffectiveNs ≤ t ∧ t < closed.explicitEndNs) ∨
        ∃ o, LastOpen (gapEvents ledger symbol gapId) gapId o ∧ o.explicitEffectiveNs ≤ t) ∧
      windowStartNs ≤ t ∧ t < windowEndNs := by
  rw [gapIntervals, covers_clip]
  refine and_congr_left fun hwindow => ?_
  simp only [Covers, List.mem_map, List.mem_filter, decide_eq_true_eq, mem_labelledIntervals,
    gapEvents, closesAt_filter, lastOpen_filter]
  constructor
  · rintro ⟨i, ⟨entry, ⟨⟨o, closed, hcloses, rfl⟩ | ⟨gapId', o, hlast, rfl⟩, hgap⟩, rfl⟩, hle, hlt⟩
    · exact .inl ⟨o, closed, ⟨hcloses, hgap⟩, hle, hlt⟩
    · obtain rfl : gapId' = gapId := hgap
      exact .inr ⟨o, hlast, hle⟩
  · rintro (⟨o, closed, ⟨hcloses, hgap⟩, hle, hlt⟩ | ⟨o, hlast, hle⟩)
    · exact ⟨_, ⟨_, ⟨.inl ⟨o, closed, hcloses, rfl⟩, hgap⟩, rfl⟩, hle, hlt⟩
    · exact ⟨_, ⟨_, ⟨.inr ⟨gapId, o, hlast, rfl⟩, rfl⟩, rfl⟩, hle, hwindow.2⟩

/-! ## A day with one OPEN and at most one CLOSED event of the gap -/

theorem gapEvents_pairwise (ledger : List GapEvent) (symbol gapId : String) :
    (gapEvents ledger symbol gapId).Pairwise fun a b => a.explicitSortKey ≤ b.explicitSortKey := by
  have : IsTrans GapEvent fun a b => a.explicitSortKey ≤ b.explicitSortKey :=
    ⟨fun _ _ _ => le_trans⟩
  have : Std.Total fun a b : GapEvent => a.explicitSortKey ≤ b.explicitSortKey :=
    ⟨fun _ _ => le_total _ _⟩
  exact (List.pairwise_insertionSort (fun a b : GapEvent => a.explicitSortKey ≤ b.explicitSortKey)
    _).filter _

theorem mem_gapEvents {ledger : List GapEvent} {symbol gapId : String} {event : GapEvent} :
    event ∈ gapEvents ledger symbol gapId ↔
      event ∈ ledger ∧ event.selects symbol = true ∧ event.gapId = gapId := by
  simp [gapEvents, explicitEvents, List.mem_insertionSort, and_assoc]

theorem gapEvents_nodup {ledger : List GapEvent} (h : ledger.Nodup) (symbol gapId : String) :
    (gapEvents ledger symbol gapId).Nodup :=
  ((List.perm_insertionSort _ _).nodup_iff.mpr (h.filter _)).filter _

section Day
variable {ledger : List GapEvent} {symbol gapId : String} {o x : GapEvent}
  {windowStartNs windowEndNs t : Int}

/-- An OPEN event before the CLOSED event of its gap sorts before it, one at the same time
behind it. -/
theorem explicitSortKey_lt (hstate : o.state = .opened) (hclosed : x.state = .closed)
    (hid : o.gapId = x.gapId) (hle : o.explicitEffectiveNs ≤ x.explicitEffectiveNs) :
    if o.explicitEffectiveNs < x.explicitEffectiveNs then o.explicitSortKey < x.explicitSortKey
    else x.explicitSortKey < o.explicitSortKey := by
  split
  · rename_i hlt
    exact Prod.Lex.lt_iff.mpr (.inl hlt)
  · rename_i hnlt
    have heq : x.explicitEffectiveNs = o.explicitEffectiveNs := by omega
    refine Prod.Lex.lt_iff.mpr (.inr ⟨heq, Prod.Lex.lt_iff.mpr (.inr ⟨hid.symm, ?_⟩)⟩)
    refine Prod.Lex.lt_iff.mpr (.inl ?_)
    show x.state.value < o.state.value
    rw [hstate, hclosed]
    decide

theorem gapEvents_eq_pair {first second : GapEvent} (hnodup : (gapEvents ledger symbol gapId).Nodup)
    (hmem : ∀ event, event ∈ gapEvents ledger symbol gapId ↔ event = first ∨ event = second)
    (hlt : first.explicitSortKey < second.explicitSortKey) :
    gapEvents ledger symbol gapId = [first, second] := by
  have hne : first ≠ second := by
    rintro rfl
    exact lt_irrefl _ hlt
  have hperm : (gapEvents ledger symbol gapId).Perm [first, second] :=
    (List.perm_ext_iff_of_nodup hnodup (by simp [hne])).mpr fun event => by simp [hmem]
  obtain ⟨p, q, hpq⟩ := List.length_eq_two.mp hperm.length_eq
  have hsorted := gapEvents_pairwise ledger symbol gapId
  rw [hpq] at hperm hsorted ⊢
  have hle : p.explicitSortKey ≤ q.explicitSortKey := by simpa using hsorted
  have hp : p ∈ [first, second] := hperm.subset (by simp)
  rcases List.mem_pair.mp hp with rfl | rfl
  · rw [List.perm_singleton.mp ((List.perm_cons p).mp hperm)]
  · have hswap := List.perm_singleton.mp ((List.perm_cons p).mp (hperm.trans (.swap _ _ _)))
    obtain rfl := List.singleton_inj.mp hswap
    exact absurd hlt (not_lt_of_ge hle)

/-- A CLOSED event that sorts before the OPEN event ends nothing. -/
theorem covers_gapIntervals_last {before : List GapEvent} (hstate : o.state = .opened)
    (hid : o.gapId = gapId) (hbefore : ∀ event ∈ before, event.state = .closed)
    (hevents : gapEvents ledger symbol gapId = before ++ [o]) :
    Covers (gapIntervals ledger symbol gapId windowStartNs windowEndNs) t ↔
      o.explicitEffectiveNs ≤ t ∧ windowStartNs ≤ t ∧ t < windowEndNs := by
  rw [covers_gapIntervals, hevents]
  simp only [closesAt_concat, lastOpen_concat]
  constructor
  · rintro ⟨⟨o', closed, ⟨-, hclosed, -⟩ | ⟨first, rest, rfl, -, hlast⟩, -⟩ |
      ⟨o', ⟨-, -, rfl⟩ | ⟨hne, -⟩, hle⟩, hwindow⟩
    · rw [hstate] at hclosed
      cases hclosed
    · obtain ⟨_, _, rfl, hopened, -⟩ := hlast
      have hstate' := hbefore o' (by simp)
      rw [hopened] at hstate'
      cases hstate'
    · exact ⟨hle, hwindow⟩
    · exact absurd hid hne
  · rintro ⟨hle, hwindow⟩
    exact ⟨.inr ⟨o, .inl ⟨hid, hstate, rfl⟩, hle⟩, hwindow⟩

theorem covers_gapIntervals_closed (hstate : o.state = .opened) (hid : o.gapId = gapId)
    (hclosed : x.state = .closed) (hid' : x.gapId = gapId)
    (hevents : gapEvents ledger symbol gapId = [o, x]) :
    Covers (gapIntervals ledger symbol gapId windowStartNs windowEndNs) t ↔
      (o.explicitEffectiveNs ≤ t ∧ t < x.explicitEndNs) ∧ windowStartNs ≤ t ∧ t < windowEndNs := by
  rw [covers_gapIntervals, hevents]
  have hpair : [o, x] = ([] ++ [o]) ++ [x] := rfl
  rw [hpair]
  simp only [closesAt_concat, lastOpen_concat]
  constructor
  · rintro ⟨⟨o', closed, ⟨rfl, -, ⟨-, -, rfl⟩ | ⟨hne, -⟩⟩ | ⟨-, habsurd, -⟩ |
      ⟨before, after, hsplit, -⟩, hcovers⟩ | ⟨o', ⟨-, habsurd, -⟩ | ⟨hne, -⟩, -⟩, hwindow⟩
    · exact ⟨hcovers, hwindow⟩
    · exact absurd (hid.trans hid'.symm) hne
    · rw [hstate] at habsurd
      cases habsurd
    · simp at hsplit
    · rw [hclosed] at habsurd
      cases habsurd
    · exact absurd hid' hne
  · rintro ⟨hcovers, hwindow⟩
    exact ⟨.inl ⟨o, x, .inl ⟨rfl, hclosed, .inl ⟨hid.trans hid'.symm, hstate, rfl⟩⟩, hcovers⟩,
      hwindow⟩

theorem covers_gapIntervals_day (closed : Option GapEvent) (hnodup : ledger.Nodup)
    (hstate : o.state = .opened) (hid : o.gapId = gapId)
    (hclosed : ∀ x ∈ closed, x.state = .closed ∧ x.gapId = gapId ∧
      o.explicitEffectiveNs ≤ x.explicitEffectiveNs)
    (hmem : ∀ event, event ∈ gapEvents ledger symbol gapId ↔ event = o ∨ event ∈ closed) :
    Covers (gapIntervals ledger symbol gapId windowStartNs windowEndNs) t ↔
      (o.explicitEffectiveNs ≤ t ∧
        ∀ x ∈ closed, o.explicitEffectiveNs < x.explicitEffectiveNs → t < x.explicitEndNs) ∧
      windowStartNs ≤ t ∧ t < windowEndNs := by
  have hnodup' := gapEvents_nodup hnodup symbol gapId
  cases closed with
  | none =>
    have hevents : gapEvents ledger symbol gapId = [] ++ [o] := by
      refine List.perm_singleton.mp ((List.perm_ext_iff_of_nodup hnodup' (by simp)).mpr fun event => ?_)
      simp [hmem]
    rw [covers_gapIntervals_last hstate hid (by simp) hevents]
    simp
  | some x =>
    obtain ⟨hx, hid', hle⟩ := hclosed x rfl
    have hkeys := explicitSortKey_lt hstate hx (hid.trans hid'.symm) hle
    simp only [Option.mem_def, Option.some.injEq] at hmem
    split at hkeys
    · rename_i hlt
      have hevents := gapEvents_eq_pair hnodup' (fun event => by rw [hmem, eq_comm (a := x)]) hkeys
      rw [covers_gapIntervals_closed hstate hid hx hid' hevents]
      simp [hlt]
    · rename_i hnlt
      have hevents := gapEvents_eq_pair hnodup'
        (fun event => by rw [hmem, eq_comm (a := x), or_comm]) hkeys
      rw [@covers_gapIntervals_last _ _ _ _ _ _ _ [x] hstate hid (by simp [hx]) hevents]
      simp [hnlt]

end Day

/-! ## The days of a history -/

namespace GapEvent

variable {opened : GapEvent}

/-- Where an OPEN event counts from, unless it is affected from the first instant of 1970. -/
theorem openedNs_eq (hstate : opened.state = .opened)
    (hzero : opened.affectedFromRealtimeNs = some 0 → opened.observedAtRealtimeNs = 0) :
    opened.openedNs = opened.effectiveNs ∧ opened.explicitEffectiveNs = opened.effectiveNs := by
  cases haffected : opened.affectedFromRealtimeNs with
  | none => simp [openedNs, effectiveNs, explicitEffectiveNs, hstate, haffected]
  | some ns =>
    by_cases hns : ns = 0
    · have hobserved := hzero (by rw [haffected, hns])
      simp [openedNs, effectiveNs, explicitEffectiveNs, hstate, haffected, hns, hobserved]
    · simp [openedNs, effectiveNs, explicitEffectiveNs, hstate, haffected, hns]

theorem explicitEffectiveNs_reopenedAt (opened : GapEvent) (day : Nat) :
    (opened.reopenedAt day).explicitEffectiveNs = dayStartNs day := by
  simp only [explicitEffectiveNs, reopenedAt, ite_self]

theorem explicitEffectiveNs_of_closed {closed : GapEvent} (h : closed.state = .closed) :
    closed.explicitEffectiveNs = closed.observedAtRealtimeNs := by
  simp [explicitEffectiveNs, h]

theorem onDay_state (hstate : opened.state = .opened) (day : Nat) :
    (opened.onDay day).state = .opened := by
  unfold onDay
  split
  · exact hstate
  · rfl

end GapEvent

namespace GapHistory
open Journal

variable (history : GapHistory) (symbol : String)

/-- `build_transport_gap_ledger` -/
def ledger (day : Int) : List GapEvent := sortGapEvents (history.final.published day)

/-- The intervals of the gap in the full window of a day. -/
def intervals (day : Int) : List (Int × Int) :=
  gapIntervals (history.ledger day) symbol history.opened.gapId (dayStartNs day) (dayEndNs day)

/-- The union over the days is the gap. -/
def RoundTrips : Prop :=
  ∀ t, (∃ day, Covers (history.intervals symbol day) t) ↔ history.fromNs ≤ t ∧ t < history.toNs

/-- The CLOSED event is one of the symbol, not at a midnight, and without the detail of a day's
end; and the gap is not affected from instant zero. -/
def ClosesAsRead : Prop :=
  history.closed.selects symbol = true ∧ history.toNs ≠ dayStartNs (utcDateOf history.toNs) ∧
    history.closed.detail ≠ continuesDetail ∧
    (history.opened.affectedFromRealtimeNs = some 0 → history.opened.observedAtRealtimeNs = 0)

theorem ledger_nodup (day : Int) : (history.ledger day).Nodup :=
  (sortGapEvents_perm _).nodup_iff.mpr (Leaves.published_nodup _ _)

variable {history symbol}

theorem mem_gapEvents_ledger {ended : Nat → Prop} {lastDay : Nat}
    (hleaves : Leaves history.opened.gapId none
      (ClosedEvents history.opened history.closed lastDay ended) history.final)
    {day : Int} {event : GapEvent} :
    event ∈ gapEvents (history.ledger day) symbol history.opened.gapId ↔
      ClosedEvents history.opened history.closed lastDay ended event ∧ event.utcDate = day ∧
        event.selects symbol = true := by
  rw [mem_gapEvents, ledger, (sortGapEvents_perm _).mem_iff]
  constructor
  · rintro ⟨hm, hselects, hid⟩
    obtain ⟨hevent, hdate⟩ := (hleaves.mem_published hid).mp hm
    exact ⟨hevent, hdate, hselects⟩
  · rintro ⟨hevent, hdate, hselects⟩
    have hid := hleaves.named event hevent
    exact ⟨(hleaves.mem_published hid).mpr ⟨hevent, hdate⟩, hselects, hid⟩

theorem exists_open_of_covers {day t : Int} (h : Covers (history.intervals symbol day) t) :
    (∃ o ∈ gapEvents (history.ledger day) symbol history.opened.gapId, o.state = .opened ∧
      o.explicitEffectiveNs ≤ t) ∧ dayStartNs day ≤ t ∧ t < dayEndNs day := by
  obtain ⟨hfound, hwindow⟩ := covers_gapIntervals.mp h
  refine ⟨?_, hwindow⟩
  rcases hfound with ⟨o, closed, ⟨before, after, hsplit, -, hlast⟩, hle, -⟩ | ⟨o, hlast, hle⟩
  · have hm := hlast.mem
    obtain ⟨-, -, -, hstate, -⟩ := hlast
    refine ⟨o, ?_, hstate, hle⟩
    rw [hsplit]
    exact List.mem_append_left _ hm
  · have hm := hlast.mem
    obtain ⟨-, -, -, hstate, -⟩ := hlast
    exact ⟨o, hm, hstate, hle⟩

theorem openedDate_eq_fromNs (hzero : history.opened.affectedFromRealtimeNs = some 0 →
    history.opened.observedAtRealtimeNs = 0) :
    (history.opened.openedDate : Int) = utcDateOf history.fromNs := by
  rw [GapEvent.openedDate_eq, (GapEvent.openedNs_eq history.opened_state hzero).1, fromNs]

theorem explicitEffectiveNs_onDay (hzero : history.opened.affectedFromRealtimeNs = some 0 →
    history.opened.observedAtRealtimeNs = 0) {k : Nat} (hfrom : history.opened.openedDate ≤ k) :
    (history.opened.onDay k).explicitEffectiveNs = max history.fromNs (dayStartNs k) := by
  have hbounds := utcDateOf_eq_iff.mp (openedDate_eq_fromNs hzero).symm
  unfold GapEvent.onDay
  split
  · rename_i hk
    rw [(GapEvent.openedNs_eq history.opened_state hzero).2, hk]
    exact (max_eq_left hbounds.1).symm
  · rw [GapEvent.explicitEffectiveNs_reopenedAt]
    refine (max_eq_right ?_).symm
    simp only [dayEndNs, dayStartNs, nsPerDay] at hbounds ⊢
    omega

section Days
variable (hzero : history.opened.affectedFromRealtimeNs = some 0 →
    history.opened.observedAtRealtimeNs = 0) {ended : Nat → Prop} {lastDay : Nat}
  (hlast : (lastDay : Int) = utcDateOf history.toNs)
  (hleaves : Leaves history.opened.gapId none
    (ClosedEvents history.opened history.closed lastDay ended) history.final)
include hzero hlast hleaves

/-- The events on a day of the gap: its OPEN event, and the one that ends the day or the gap. -/
theorem mem_gapEvents_day (hselects : history.opened.selects symbol = true) {k : Nat}
    (hfrom : history.opened.openedDate ≤ k) (hto : k ≤ lastDay) (event : GapEvent) :
    event ∈ gapEvents (history.ledger k) symbol history.opened.gapId ↔
      event = history.opened.onDay k ∨
        (ended k ∧ event = history.opened.closedAtEndOf k) ∨
        (k = lastDay ∧ history.closed.selects symbol = true ∧ event = history.closed) := by
  have hdate : history.opened.utcDate = history.opened.openedDate := by
    rw [openedDate_eq_fromNs hzero]
    rfl
  have hclosedDate : history.closed.utcDate = lastDay := by
    rw [GapEvent.utcDate, GapEvent.effectiveNs_of_closed history.closed_state, hlast]
    rfl
  rw [mem_gapEvents_ledger hleaves]
  unfold GapEvent.onDay
  constructor
  · rintro ⟨(rfl | ⟨k', hlt, -, rfl⟩ | ⟨k', hk', rfl⟩) | rfl, hday, hselects'⟩
    · rw [hdate] at hday
      exact .inl (if_pos (Int.ofNat_inj.mp hday).symm).symm
    · rw [GapEvent.reopenedAt_utcDate] at hday
      obtain rfl := Int.ofNat_inj.mp hday
      exact .inl (if_neg (by omega)).symm
    · rw [GapEvent.closedAtEndOf_utcDate] at hday
      obtain rfl := Int.ofNat_inj.mp hday
      exact .inr (.inl ⟨hk', rfl⟩)
    · rw [hclosedDate] at hday
      exact .inr (.inr ⟨(Int.ofNat_inj.mp hday).symm, hselects', rfl⟩)
  · rintro (rfl | ⟨hk, rfl⟩ | ⟨rfl, hselects', rfl⟩)
    · split
      · rename_i hk
        rw [hdate, hk]
        exact ⟨.inl (.inl rfl), rfl, hselects⟩
      · exact ⟨.inl (.inr (.inl ⟨k, by omega, hto, rfl⟩)), GapEvent.reopenedAt_utcDate _ _, hselects⟩
    · exact ⟨.inl (.inr (.inr ⟨k, hk, rfl⟩)), GapEvent.closedAtEndOf_utcDate _ _, hselects⟩
    · exact ⟨.inr rfl, hclosedDate, hselects'⟩

/-- On a day before the last one the gap is found to the end of the day. -/
theorem covers_day (hselects : history.opened.selects symbol = true) {k : Nat}
    (hfrom : history.opened.openedDate ≤ k) (hto : k < lastDay) {t : Int} :
    Covers (history.intervals symbol k) t ↔
      history.fromNs ≤ t ∧ dayStartNs k ≤ t ∧ t < dayEndNs k := by
  classical
  have hbounds := utcDateOf_eq_iff.mp (openedDate_eq_fromNs hzero).symm
  have heffective := explicitEffectiveNs_onDay hzero hfrom
  have hend : (history.opened.closedAtEndOf k).explicitEffectiveNs = dayEndNs k - 1 :=
    GapEvent.explicitEffectiveNs_of_closed rfl
  have hend' : (history.opened.closedAtEndOf k).explicitEndNs = dayEndNs k := by
    have hdetail : (history.opened.closedAtEndOf k).detail = continuesDetail := rfl
    rw [GapEvent.explicitEndNs, hend, if_pos hdetail]
    omega
  rw [intervals, covers_gapIntervals_day
    (if ended k then some (history.opened.closedAtEndOf k) else none)
    (history.ledger_nodup k) (GapEvent.onDay_state history.opened_state k)
    (GapEvent.onDay_gapId history.opened k) ?_ ?_]
  · rw [heffective]
    constructor
    · rintro ⟨⟨hle, -⟩, hwindow⟩
      exact ⟨(le_max_left _ _).trans hle, hwindow⟩
    · rintro ⟨hle, hwindow⟩
      refine ⟨⟨max_le hle hwindow.1, fun x hx _ => ?_⟩, hwindow⟩
      obtain ⟨-, hx⟩ := Option.mem_ite_none_right.mp hx
      obtain rfl := Option.some.inj hx
      rw [hend']
      exact hwindow.2
  · intro x hx
    obtain ⟨-, hx⟩ := Option.mem_ite_none_right.mp hx
    obtain rfl := Option.some.inj hx
    refine ⟨rfl, rfl, ?_⟩
    rw [heffective, hend]
    simp only [dayEndNs, dayStartNs, nsPerDay] at hbounds ⊢
    omega
  · intro event
    rw [mem_gapEvents_day hzero hlast hleaves hselects hfrom hto.le,
      Option.mem_ite_none_right]
    apply or_congr_right
    constructor
    · rintro (⟨hk, rfl⟩ | ⟨rfl, -⟩)
      · exact ⟨hk, rfl⟩
      · exact absurd hto (lt_irrefl _)
    · intro h
      exact .inl ⟨h.1, (Option.some.inj h.2).symm⟩

/-- On the last day the gap is found up to its CLOSED event, if that is read behind the OPEN
one. -/
theorem covers_lastDay (hended : ∀ k, ended k →
      history.opened.openedDate ≤ k ∧ (k : Int) < utcDateOf history.toNs)
    (hselects : history.opened.selects symbol = true)
    (hlt : history.fromNs < history.toNs) (hfrom : history.opened.openedDate ≤ lastDay) {t : Int} :
    Covers (history.intervals symbol lastDay) t ↔
      (history.fromNs ≤ t ∧ (history.closed.selects symbol = true →
        dayStartNs lastDay < history.toNs → t < history.closed.explicitEndNs)) ∧
      dayStartNs lastDay ≤ t ∧ t < dayEndNs lastDay := by
  have heffective := explicitEffectiveNs_onDay hzero hfrom
  have hend : history.closed.explicitEffectiveNs = history.toNs :=
    GapEvent.explicitEffectiveNs_of_closed history.closed_state
  have hbounds := utcDateOf_eq_iff.mp hlast.symm
  rw [intervals, covers_gapIntervals_day
    (if history.closed.selects symbol = true then some history.closed else none)
    (history.ledger_nodup lastDay) (GapEvent.onDay_state history.opened_state lastDay)
    (GapEvent.onDay_gapId history.opened lastDay) ?_ ?_]
  · rw [heffective]
    constructor
    · rintro ⟨⟨hle, hclosed⟩, hwindow⟩
      refine ⟨⟨(le_max_left _ _).trans hle, fun hselects' hstart => ?_⟩, hwindow⟩
      refine hclosed history.closed (Option.mem_ite_none_right.mpr ⟨hselects', rfl⟩) ?_
      rw [hend]
      exact max_lt hlt hstart
    · rintro ⟨⟨hle, hclosed⟩, hwindow⟩
      refine ⟨⟨max_le hle hwindow.1, fun x hx hlt' => ?_⟩, hwindow⟩
      obtain ⟨hselects', hx⟩ := Option.mem_ite_none_right.mp hx
      obtain rfl := Option.some.inj hx
      rw [hend] at hlt'
      exact hclosed hselects' ((le_max_right _ _).trans_lt hlt')
  · intro x hx
    obtain ⟨-, hx⟩ := Option.mem_ite_none_right.mp hx
    obtain rfl := Option.some.inj hx
    refine ⟨history.closed_state, history.closed_gapId, ?_⟩
    rw [heffective, hend]
    exact max_le hlt.le hbounds.1
  · intro event
    rw [mem_gapEvents_day hzero hlast hleaves hselects hfrom le_rfl,
      Option.mem_ite_none_right]
    refine or_congr_right ⟨?_, fun ⟨hk, hevent⟩ => .inr ⟨rfl, hk, (Option.some.inj hevent).symm⟩⟩
    rintro (⟨hk, rfl⟩ | ⟨-, hselects', rfl⟩)
    · have := (hended lastDay hk).2
      omega
    · exact ⟨hselects', rfl⟩

end Days

/-- A gap that is affected from instant zero and observed later is not found at that instant. -/
theorem not_covers_zero {ended : Nat → Prop} {lastDay : Nat}
    (hleaves : Leaves history.opened.gapId none
      (ClosedEvents history.opened history.closed lastDay ended) history.final)
    (haffected : history.opened.affectedFromRealtimeNs = some 0)
    (hobserved : history.opened.observedAtRealtimeNs ≠ 0) (day : Int) :
    ¬ Covers (history.intervals symbol day) 0 := by
  intro h
  obtain ⟨⟨o, hm, hstate, hle⟩, -⟩ := exists_open_of_covers h
  obtain ⟨hevent, -⟩ := (mem_gapEvents_ledger hleaves).mp hm
  rcases hevent with (rfl | ⟨k, hfrom, -, rfl⟩ | ⟨k, -, rfl⟩) | rfl
  · have hnonneg := history.opened.observed_nonneg
    simp only [GapEvent.explicitEffectiveNs, hstate, haffected, ite_true] at hle
    omega
  · rw [GapEvent.explicitEffectiveNs_reopenedAt] at hle
    simp only [dayStartNs, nsPerDay] at hle
    omega
  · cases hstate
  · rw [history.closed_state] at hstate
    cases hstate

theorem day_of_covers {ended : Nat → Prop} {lastDay : Nat}
    (hzero : history.opened.affectedFromRealtimeNs = some 0 →
      history.opened.observedAtRealtimeNs = 0)
    (hleaves : Leaves history.opened.gapId none
      (ClosedEvents history.opened history.closed lastDay ended) history.final)
    (hfrom : history.opened.openedDate ≤ lastDay) {day t : Int}
    (h : Covers (history.intervals symbol day) t) :
    ∃ k : Nat, day = k ∧ history.opened.openedDate ≤ k ∧ k ≤ lastDay := by
  obtain ⟨⟨o, hm, hstate, -⟩, -⟩ := exists_open_of_covers h
  obtain ⟨hevent, hday, -⟩ := (mem_gapEvents_ledger hleaves).mp hm
  rcases hevent with (rfl | ⟨k, hlt, hle, rfl⟩ | ⟨k, -, rfl⟩) | rfl
  · refine ⟨history.opened.openedDate, ?_, le_rfl, hfrom⟩
    rw [← hday, openedDate_eq_fromNs hzero]
    rfl
  · rw [GapEvent.reopenedAt_utcDate] at hday
    exact ⟨k, hday.symm, hlt.le, hle⟩
  · cases hstate
  · rw [history.closed_state] at hstate
    cases hstate

theorem covers_iff {ended : Nat → Prop} {lastDay : Nat}
    (hzero : history.opened.affectedFromRealtimeNs = some 0 →
      history.opened.observedAtRealtimeNs = 0)
    (hlast : (lastDay : Int) = utcDateOf history.toNs)
    (hleaves : Leaves history.opened.gapId none
      (ClosedEvents history.opened history.closed lastDay ended) history.final)
    (hended : ∀ k, ended k →
      history.opened.openedDate ≤ k ∧ (k : Int) < utcDateOf history.toNs)
    (hselects : history.opened.selects symbol = true) (hlt : history.fromNs < history.toNs)
    (t : Int) :
    (∃ day, Covers (history.intervals symbol day) t) ↔
      history.fromNs ≤ t ∧ t < dayEndNs lastDay ∧ (dayStartNs lastDay ≤ t →
        history.closed.selects symbol = true → dayStartNs lastDay < history.toNs →
        t < history.closed.explicitEndNs) := by
  have hdate := openedDate_eq_fromNs hzero
  have hfromNs := utcDateOf_eq_iff.mp hdate.symm
  have htoNs := utcDateOf_eq_iff.mp hlast.symm
  have hfrom : history.opened.openedDate ≤ lastDay := by
    simp only [dayEndNs, dayStartNs, nsPerDay] at hfromNs htoNs
    omega
  have hlastDay := covers_lastDay (t := t) hzero hlast hleaves hended hselects hlt hfrom
  constructor
  · rintro ⟨day, hcovers⟩
    obtain ⟨k, rfl, hk, hle⟩ := day_of_covers hzero hleaves hfrom hcovers
    rcases Nat.lt_or_eq_of_le hle with hklt | rfl
    · obtain ⟨hstart, -, hend⟩ :=
        (covers_day hzero hlast hleaves hselects hk hklt).mp hcovers
      refine ⟨hstart, ?_, fun hlater => ?_⟩
      · simp only [dayEndNs, dayStartNs, nsPerDay] at hend ⊢
        omega
      · simp only [dayEndNs, dayStartNs, nsPerDay] at hend hlater
        omega
    · obtain ⟨⟨hstart, hclosed⟩, -, hend⟩ := hlastDay.mp hcovers
      exact ⟨hstart, hend, fun _ => hclosed⟩
  · rintro ⟨hstart, hend, hclosed⟩
    by_cases hlater : dayStartNs lastDay ≤ t
    · exact ⟨lastDay, hlastDay.mpr ⟨⟨hstart, hclosed hlater⟩, hlater, hend⟩⟩
    · obtain ⟨k, hk⟩ : ∃ k : Nat, (k : Int) = utcDateOf t := by
        refine ⟨(utcDateOf t).toNat, ?_⟩
        simp only [utcDateOf, dayStartNs, dayEndNs, nsPerDay] at hfromNs ⊢
        omega
      have hday := utcDateOf_eq_iff.mp hk.symm
      refine ⟨k, (covers_day hzero hlast hleaves hselects ?_ ?_).mpr ⟨hstart, hday⟩⟩
      · simp only [dayEndNs, dayStartNs, nsPerDay] at hfromNs hday
        omega
      · simp only [dayEndNs, dayStartNs, nsPerDay] at hlater hday
        omega

/-- The ledgers of the days give back the gap, exactly when its CLOSED event is read as it is
meant. -/
theorem roundTrips_iff (hselects : history.opened.selects symbol = true)
    (hlt : history.fromNs < history.toNs) :
    history.RoundTrips symbol ↔ history.ClosesAsRead symbol := by
  obtain ⟨ended, hended, hleaves⟩ := history.leaves_final
  by_cases hzero : history.opened.affectedFromRealtimeNs = some 0 →
      history.opened.observedAtRealtimeNs = 0
  · have hdate := openedDate_eq_fromNs hzero
    have hlast : ((max history.opened.openedDate (utcDateOf history.toNs).toNat : Nat) : Int) =
        utcDateOf history.toNs := by
      simp only [utcDateOf, nsPerDay] at hdate ⊢
      omega
    have hcovers := covers_iff hzero hlast hleaves hended hselects hlt
    rw [hlast] at hcovers
    have htoNs : dayStartNs (utcDateOf history.toNs) ≤ history.toNs ∧
        history.toNs < dayEndNs (utcDateOf history.toNs) := utcDateOf_eq_iff.mp rfl
    have hend : history.closed.explicitEndNs =
        history.toNs + if history.closed.detail = continuesDetail then 1 else 0 := by
      rw [GapEvent.explicitEndNs, GapEvent.explicitEffectiveNs_of_closed history.closed_state]
      rfl
    constructor
    · intro h
      -- The instant of the close itself must not be found.
      have hnot := mt (h history.toNs).mp fun hc => absurd hc.2 (lt_irrefl _)
      rw [hcovers] at hnot
      simp only [hlt.le, htoNs, true_and, true_implies, Classical.not_imp, not_lt] at hnot
      obtain ⟨hselects', hmidnight, hle⟩ := hnot
      refine ⟨hselects', hmidnight.ne', fun hdetail => ?_, hzero⟩
      rw [hend, if_pos hdetail] at hle
      omega
    · rintro ⟨hselects', hmidnight, hdetail, -⟩ t
      rw [hcovers, hend, if_neg hdetail]
      refine and_congr_right fun hstart => ⟨fun hcovered => ?_, fun hlt' => ?_⟩
      · obtain ⟨hlt', hclosed⟩ := hcovered
        by_cases hlater : dayStartNs (utcDateOf history.toNs) ≤ t
        · have := hclosed hlater hselects' (lt_of_le_of_ne htoNs.1 hmidnight.symm)
          omega
        · omega
      · exact ⟨by omega, fun _ _ _ => by omega⟩
  · obtain ⟨haffected, hobserved⟩ := Classical.not_imp.mp hzero
    have hstart : history.fromNs = 0 := by
      simp [fromNs, GapEvent.effectiveNs, history.opened_state, haffected]
    refine iff_of_false (fun h => ?_) fun h => hzero h.2.2.2
    obtain ⟨day, hcovers⟩ := (h 0).mpr ⟨hstart.le, by omega⟩
    exact not_covers_zero hleaves haffected hobserved day hcovers

/-! ## A gap over one midnight -/

def sequenceGap : GapEvent where
  gapId := "gap-1"
  state := .opened
  reason := .l2Sequence
  collectorId := "collector"
  exchangeSymbols := ["BTCUSDT"]
  streamTypes := [.depth]
  observedAtRealtimeNs := 86400000000500

def sequenceGapClosed : GapEvent :=
  { sequenceGap with
    state := .closed
    observedAtRealtimeNs := 172800000000600
    observed_nonneg := by decide
    affected_le := by simp [sequenceGap]
    closed_unaffected := fun _ => rfl }

/-- The same gap, closed in the first nanosecond of its second day. -/
def sequenceGapClosedAtMidnight : GapEvent :=
  { sequenceGapClosed with
    observedAtRealtimeNs := 172800000000000
    observed_nonneg := by decide
    affected_le := by simp [sequenceGapClosed, sequenceGap]
    closed_unaffected := fun _ => rfl }

theorem leaves_empty (gapId : String) : Leaves gapId none (fun _ => False) {} where
  state := rfl
  named := by simp
  published := by simp
  manifests := by simp
  dayIndex := by simp

theorem rollover_unnamed (boundary : Int) (gapId : String) :
    ∀ step ∈ [LedgerStep.call (.rollover boundary)] ++ [], ¬ step.Names gapId := by
  intro step hm hnames
  obtain ⟨journalCall, heq, hnames⟩ := hnames
  rw [List.append_nil, List.mem_singleton] at hm
  rw [hm] at heq
  cases heq
  rcases hnames with ⟨event, state, habsurd, -⟩ | ⟨event, state, habsurd, -⟩ <;> cases habsurd

def sequenceHistory : GapHistory where
  files := {}
  opened := sequenceGap
  between := [.call (.rollover 2)]
  closed := sequenceGapClosed
  after := []
  opened_state := rfl
  closed_state := rfl
  closed_gapId := rfl
  unknown := leaves_empty _
  unnamed := rollover_unnamed 2 _
  clock := by
    intro boundary hm
    cases List.mem_singleton.mp hm
    decide
  openReturns := rfl
  closeReturns := rfl

theorem roundTrips_sequenceHistory : sequenceHistory.RoundTrips "BTCUSDT" :=
  (roundTrips_iff (by decide) (by decide)).mpr ⟨by decide, by decide, by decide, by decide⟩

def midnightHistory : GapHistory :=
  { sequenceHistory with
    closed := sequenceGapClosedAtMidnight
    closed_state := rfl
    closed_gapId := rfl
    clock := by
      intro boundary hm
      cases List.mem_singleton.mp hm
      decide
    closeReturns := rfl }

/-- The CLOSED event sorts before the OPEN event of its day, and the whole day is invalid. -/
theorem not_roundTrips_midnightHistory : midnightHistory.opened.selects "BTCUSDT" = true ∧
    midnightHistory.fromNs < midnightHistory.toNs ∧ ¬ midnightHistory.RoundTrips "BTCUSDT" := by
  refine ⟨by decide, by decide, fun h => ?_⟩
  have hintervals : midnightHistory.intervals "BTCUSDT" 2 = [(172800000000000, 259200000000000)] := by
    decide
  have hcovers : Covers (midnightHistory.intervals "BTCUSDT" 2) 172800000000000 := by
    rw [hintervals]
    exact ⟨_, List.mem_singleton_self _, by decide, by decide⟩
  exact absurd ((h _).mp ⟨2, hcovers⟩).2 (by decide)

end GapHistory

end MiryFormal
