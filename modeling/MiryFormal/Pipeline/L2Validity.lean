import MiryFormal.Pipeline.Quality
import MiryFormal.Shared.Fallible
import MiryFormal.Shared.Timeline

/-!
# Validity intervals

An interval of a day is sound when, at each of its instants, the book of its connection is
valid and no gap of the symbol is open. The authority of the replay carries this invariant
from item to item and over the time between them.
-/

namespace MiryFormal

set_option autoImplicit false

/-! ## The merged input -/

def DayItem.gap? : DayItem → Option GapEvent
  | gap event => some event
  | row _ => none

theorem mem_timeline {gaps : List GapEvent} {rows : List DepthRow} {item : DayItem} :
    item ∈ timeline gaps rows ↔ (∃ gap ∈ gaps, item = .gap gap) ∨ ∃ row ∈ rows, item = .row row := by
  induction rows generalizing gaps with
  | nil => simp [timeline, eq_comm]
  | cons row rows ih =>
    have hsplit : ∀ gap, gap ∈ gaps ↔
        gap ∈ gaps.takeWhile (fun event => event.effectiveNs ≤ row.receivedNs) ∨
          gap ∈ gaps.dropWhile (fun event => event.effectiveNs ≤ row.receivedNs) := by
      intro gap
      rw [← List.mem_append, List.takeWhile_append_dropWhile]
    simp only [timeline, List.mem_append, List.mem_map, List.mem_cons, ih, hsplit]
    constructor
    · rintro (⟨gap, hm, rfl⟩ | rfl | ⟨gap, hm, rfl⟩ | ⟨later, hm, rfl⟩)
      exacts [.inl ⟨gap, .inl hm, rfl⟩, .inr ⟨row, .inl rfl, rfl⟩, .inl ⟨gap, .inr hm, rfl⟩,
        .inr ⟨later, .inr hm, rfl⟩]
    · rintro (⟨gap, hm | hm, rfl⟩ | ⟨later, rfl | hm, rfl⟩)
      exacts [.inl ⟨gap, hm, rfl⟩, .inr (.inr (.inl ⟨gap, hm, rfl⟩)), .inr (.inl rfl),
        .inr (.inr (.inr ⟨later, hm, rfl⟩))]

theorem timeline_pairwise {gaps : List GapEvent} {rows : List DepthRow}
    (hgaps : gaps.Pairwise fun a b => a.effectiveNs ≤ b.effectiveNs)
    (hrows : rows.Pairwise fun a b => a.receivedNs ≤ b.receivedNs) :
    (timeline gaps rows).Pairwise fun a b => a.timeNs ≤ b.timeNs := by
  induction rows generalizing gaps with
  | nil => exact List.pairwise_map.mpr hgaps
  | cons row rows ih =>
    obtain ⟨hrow, hrows⟩ := List.pairwise_cons.mp hrows
    have hdue : ∀ gap ∈ gaps.takeWhile (fun event => event.effectiveNs ≤ row.receivedNs),
        gap.effectiveNs ≤ row.receivedNs := fun gap hm => by
      simpa using List.mem_takeWhile_imp hm
    have hlater : ∀ item ∈ timeline
        (gaps.dropWhile fun event => event.effectiveNs ≤ row.receivedNs) rows,
        row.receivedNs ≤ item.timeNs := by
      intro item hm
      rcases mem_timeline.mp hm with ⟨gap, hgap, rfl⟩ | ⟨next, hnext, rfl⟩
      · exact le_of_lt (lt_of_mem_dropWhile hgaps hgap)
      · exact hrow next hnext
    refine List.pairwise_append.mpr ⟨?_, List.pairwise_cons.mpr ⟨hlater, ?_⟩, ?_⟩
    · exact List.pairwise_map.mpr (hgaps.sublist (List.takeWhile_sublist _))
    · exact ih (hgaps.sublist (List.dropWhile_sublist _)) hrows
    · intro a ha b hb
      obtain ⟨gap, hm, rfl⟩ := List.mem_map.mp ha
      rcases List.mem_cons.mp hb with rfl | hb
      · exact hdue gap hm
      · exact (hdue gap hm).trans (hlater b hb)

theorem timeline_gaps (gaps : List GapEvent) (rows : List DepthRow) :
    (timeline gaps rows).filterMap DayItem.gap? = gaps := by
  have hmap : ∀ events : List GapEvent, (events.map DayItem.gap).filterMap DayItem.gap? = events := by
    intro events
    induction events with
    | nil => rfl
    | cons event events ih => simpa [DayItem.gap?] using ih
  induction rows generalizing gaps with
  | nil => exact hmap gaps
  | cons row rows ih =>
    rw [timeline, List.filterMap_append, hmap, List.filterMap_cons_none (by rfl), ih,
      List.takeWhile_append_dropWhile]

/-! ## Books over time -/

/-- A book at time `now`: nothing it holds was received later, and no diff it buffers
overlaps its anchor. -/
structure Timely (now : Int) (book : ConnectionBook) : Prop where
  previous : book.state = .valid → book.previousUpdateId ≠ none
  settled : book.state = .valid → book.pending = []
  pending_received : ∀ diff ∈ book.pending, diff.receivedNs ≤ now
  anchor_received : ∀ ns ∈ book.anchorReceivedNs, ns ≤ now
  anchor_iff : book.anchorLastUpdateId = none ↔ book.anchorReceivedNs = none
  missed : ∀ anchor ∈ book.anchorLastUpdateId, ∀ diff ∈ book.pending,
    ¬ diff.overlaps anchor = true

theorem Timely.mono {now later : Int} {book : ConnectionBook} (h : Timely now book)
    (hle : now ≤ later) : Timely later book where
  previous := h.previous
  settled := h.settled
  pending_received := fun diff hd => (h.pending_received diff hd).trans hle
  anchor_received := fun ns hns => (h.anchor_received ns hns).trans hle
  anchor_iff := h.anchor_iff
  missed := h.missed

theorem Timely.invalidate (now : Int) (book : ConnectionBook) : Timely now book.invalidate := by
  constructor <;> simp [ConnectionBook.invalidate]

theorem timely_fresh (now : Int) (connectionId : String) :
    Timely now { connectionId } := by
  constructor <;> simp

theorem timely_restartAt {now : Int} {diff : DepthDiff} (book : ConnectionBook)
    (h : diff.receivedNs ≤ now) : Timely now (book.restartAt diff) := by
  constructor <;> simp [ConnectionBook.restartAt, ConnectionBook.invalidate, h]

/-- What a row makes of a book whose state was `before`, and what the book reports. -/
inductive Reported (now : Int) (before : L2State) (book : ConnectionBook) :
    Option StateChange → Prop where
  | quiet : (book.state = .valid ↔ before = .valid) → Reported now before book none
  | bridged (change : StateChange) : before ≠ .valid → book.state = .valid →
      change.state = .valid → change.atNs = now → change.connectionId = book.connectionId →
      Reported now before book (some change)
  | broken (change : StateChange) : book.state ≠ .valid → change.state ≠ .valid →
      (before = .valid → change.atNs = now) → Reported now before book (some change)

section TryBridge
variable {now : Int} {book : ConnectionBook}

/-- A bridge is found now when every buffered diff that overlaps the anchor, or the anchor
itself, is received now. -/
theorem timely_tryBridge (book : ConnectionBook)
    (hprev : book.state = .valid → book.previousUpdateId ≠ none)
    (hsettled : book.state = .valid → book.pending = [])
    (hpending : ∀ diff ∈ book.pending, diff.receivedNs ≤ now)
    (hreceived : ∀ ns ∈ book.anchorReceivedNs, ns ≤ now)
    (hiff : book.anchorLastUpdateId = none ↔ book.anchorReceivedNs = none)
    (hnow : ∀ anchor ∈ book.anchorLastUpdateId, ∀ ns ∈ book.anchorReceivedNs,
      ∀ diff ∈ book.pending, diff.overlaps anchor = true → max ns diff.receivedNs = now) :
    ∃ book' change, book.tryBridge = .ok (book', change) ∧ Timely now book' ∧
      Reported now book.state book' change ∧ book'.connectionId = book.connectionId := by
  cases hanchor : book.anchorLastUpdateId with
  | none =>
    refine ⟨_, _, ConnectionBook.tryBridge_none _ hanchor, ?_, .quiet Iff.rfl, rfl⟩
    exact ⟨hprev, hsettled, hpending, hreceived, hiff, by simp [hanchor]⟩
  | some anchor =>
    obtain ⟨ns, hns⟩ : ∃ ns, book.anchorReceivedNs = some ns := by
      refine Option.ne_none_iff_exists'.mp fun hnone => ?_
      simp [hiff.mpr hnone] at hanchor
    have hperm := orderByReceiveSeq_perm DepthDiff.receiveSeq book.pending
    rcases reaching_cases DepthDiff.finalUpdateId anchor
      (orderByReceiveSeq DepthDiff.receiveSeq book.pending) with
      hall | ⟨old, first, rest, hord, hold, hfirst⟩
    · refine ⟨_, _, ConnectionBook.tryBridge_waiting _ hanchor hns
        fun diff hd => hall diff (hperm.mem_iff.mpr hd), ?_, .quiet Iff.rfl, rfl⟩
      exact ⟨hprev, fun _ => rfl, by simp, hreceived, by simp [hanchor, hns], by simp⟩
    · have hfrom : ∀ diff ∈ first :: rest, diff ∈ book.pending := fun diff hd =>
        hperm.mem_iff.mp (hord ▸ List.mem_append_right old hd)
      have hstate : book.state ≠ .valid := by
        intro hv
        have hmem := hfrom first List.mem_cons_self
        simp [hsettled hv] at hmem
      rcases Int.lt_or_le anchor first.firstUpdateId with hpast | hover
      · refine ⟨_, _, ConnectionBook.tryBridge_stale _ hanchor hns hord hold hfirst hpast, ?_,
          .quiet Iff.rfl, rfl⟩
        exact ⟨fun hv => absurd hv hstate, fun hv => absurd hv hstate,
          fun diff hd => hpending diff (hfrom diff hd), by simp, by simp, by simp⟩
      · cases hchain : SnapshotBridgeTracker.followChain first.finalUpdateId
          (rest.map DepthDiff.span) with
        | ok last =>
          obtain ⟨hbook, hlast⟩ := ConnectionBook.tryBridge_bridged _ hanchor hns hord hold
            hfirst hover hchain
          have hid : book.connectionId =
              ((first :: rest).foldl ConnectionBook.apply book).connectionId := by
            rw [ConnectionBook.foldl_apply_eq]
          refine ⟨_, _, hbook, ?_, .bridged _ hstate rfl rfl ?_ hid, hid.symm⟩
          · exact ⟨fun _ hnone => Option.some_ne_none _ (hlast.symm.trans hnone), fun _ => rfl,
              by simp, by simp, by simp, by simp⟩
          · exact hnow anchor hanchor ns hns first (hfrom first List.mem_cons_self)
              (by simp [DepthDiff.overlaps, hover, hfirst])
        | error broken =>
          obtain ⟨before, diff, after, rfl, -, hbook⟩ := ConnectionBook.tryBridge_broken
            _ hanchor hns hord hold hfirst hover hchain
          refine ⟨_, _, hbook, timely_restartAt book (hpending diff (hfrom diff (by simp))),
            .broken _ ?_ ?_ (fun hv => absurd hv hstate), rfl⟩ <;>
            simp [ConnectionBook.restartAt, ConnectionBook.invalidate, ConnectionBook.gappedAt]

/-- One row keeps a book timely, and what it reports happens now. -/
theorem timely_onRow {row : DepthRow} (h : Timely now book) (hrow : row.receivedNs = now) :
    ∃ book' change, book.onRow row = .ok (book', change) ∧ Timely now book' ∧
      Reported now book.state book' change ∧ book'.connectionId = book.connectionId := by
  cases row with
  | snapshot snapshot =>
    have hns : snapshot.receivedNs = now := hrow
    refine timely_tryBridge (book.anchorAt snapshot) (by simp [ConnectionBook.anchorAt])
      h.settled h.pending_received ?_ (by simp [ConnectionBook.anchorAt]) ?_
    · simp [ConnectionBook.anchorAt, hns]
    · intro anchor _ ns hm diff hd _
      obtain rfl : snapshot.receivedNs = ns := by simpa [ConnectionBook.anchorAt] using hm
      rw [hns]
      exact max_eq_left (h.pending_received diff hd)
  | diff diff =>
    have hns : diff.receivedNs = now := hrow
    by_cases hnew : diff.identity ∈ book.seenDiffs
    · exact ⟨_, _, ConnectionBook.onDiff_seen hnew, h, .quiet Iff.rfl, rfl⟩
    · by_cases hstate : book.state = .valid
      · obtain ⟨id, hid⟩ := Option.ne_none_iff_exists'.mp (h.previous hstate)
        by_cases hcont : sequenceContinues id diff.previousFinalUpdateId = true
        · refine ⟨_, _, ConnectionBook.onDiff_continues hnew hstate hid hcont, ?_,
            .quiet Iff.rfl, rfl⟩
          exact ⟨fun _ => by simp, h.settled, h.pending_received, h.anchor_received,
            h.anchor_iff, h.missed⟩
        · refine ⟨_, _, ConnectionBook.onDiff_breaks hnew hstate hid hcont,
            timely_restartAt _ hns.le, .broken _ ?_ ?_ (fun _ => hns), rfl⟩ <;>
            simp [ConnectionBook.restartAt, ConnectionBook.invalidate, ConnectionBook.gappedAt]
      · have hpending : ∀ d ∈ ((book.remember diff).buffer diff).pending, d.receivedNs ≤ now := by
          intro d hd
          rcases List.mem_append.mp hd with hd | hd
          · exact h.pending_received d hd
          · rw [List.mem_singleton.mp hd, hns]
        by_cases hmiss : ∃ anchor, book.anchorLastUpdateId = some anchor ∧
            ¬ diff.overlaps anchor = true
        · obtain ⟨anchor, hanchor, hmiss⟩ := hmiss
          refine ⟨_, _, ConnectionBook.onDiff_buffers hnew hstate hanchor hmiss, ?_,
            .quiet Iff.rfl, rfl⟩
          refine ⟨fun hv => absurd hv hstate, fun hv => absurd hv hstate, hpending,
            h.anchor_received, h.anchor_iff, fun anchor' ha d hd => ?_⟩
          obtain rfl : anchor = anchor' := Option.some.inj (hanchor.symm.trans ha)
          rcases List.mem_append.mp hd with hd | hd
          · exact h.missed anchor hanchor d hd
          · rw [List.mem_singleton.mp hd]
            exact hmiss
        · have htry := ConnectionBook.onDiff_tries hnew hstate fun anchor hanchor =>
            not_not.mp fun hmiss' => hmiss ⟨anchor, hanchor, hmiss'⟩
          change ∃ book' change, book.onDiff diff = .ok (book', change) ∧ _
          rw [htry]
          refine timely_tryBridge ((book.remember diff).buffer diff)
            (fun hv => absurd hv hstate) (fun hv => absurd hv hstate) hpending
            h.anchor_received h.anchor_iff fun anchor ha ns hm d hd hover => ?_
          -- Only the new diff overlaps the anchor.
          rcases List.mem_append.mp hd with hd | hd
          · exact absurd hover (h.missed anchor ha d hd)
          · rw [List.mem_singleton.mp hd, hns]
            exact max_eq_right (h.anchor_received ns hm)

end TryBridge

/-! ## The authority over time -/

namespace DayReplay

def ValidBook (replay : DayReplay) (connectionId : String) : Prop :=
  ∃ book, replay.book? connectionId = some book ∧ book.state = .valid

/-- At instant `t` the connection's book is valid and no gap is open. -/
def GoodAt (hist : Int → Except String DayReplay) (t : Int) (connectionId : String) : Prop :=
  ∃ replay, hist t = .ok replay ∧ replay.ValidBook connectionId ∧ replay.activeGaps = []

/-- An emitted interval, or one that could be emitted. -/
structure SoundInterval (hist : Int → Except String DayReplay) (startNs now : Int)
    (interval : ValidityInterval) : Prop where
  start_le : startNs ≤ interval.validFromNs
  from_le : interval.validFromNs ≤ interval.validToNs
  to_le : interval.validToNs ≤ now
  named : interval.connectionId ≠ ""
  good : ∀ t, interval.validFromNs ≤ t → t < interval.validToNs →
    GoodAt hist t interval.connectionId

/-- The running interval of the authority `connectionId`. -/
structure Running (hist : Int → Except String DayReplay) (startNs now : Int)
    (replay : DayReplay) (connectionId : String) (fromNs : Int) : Prop where
  last : replay.lastValidConnection = some connectionId
  no_gap : replay.activeGaps = []
  valid : replay.ValidBook connectionId
  start_le : startNs ≤ fromNs
  le_now : fromNs ≤ now
  good : ∀ t, fromNs ≤ t → t < now → GoodAt hist t connectionId
  after : ∀ interval ∈ replay.intervals, interval.validToNs ≤ fromNs

/-- Every book is timely and stored under its own name. -/
def TimelyBooks (now : Int) (replay : DayReplay) : Prop :=
  ∀ entry ∈ replay.books, Timely now entry.2 ∧ entry.2.connectionId = entry.1 ∧ entry.1 ≠ ""

structure Sound (hist : Int → Except String DayReplay) (startNs now : Int)
    (replay : DayReplay) : Prop where
  books : TimelyBooks now replay
  authority_iff : replay.authority = none ↔ replay.validFrom = none
  running : ∀ c fromNs, replay.authority = some c → replay.validFrom = some fromNs →
    Running hist startNs now replay c fromNs
  ordered : replay.intervals.Pairwise fun a b => a.validToNs ≤ b.validFromNs
  intervals : ∀ interval ∈ replay.intervals, SoundInterval hist startNs now interval

section Steps
variable {hist : Int → Except String DayReplay} {startNs now : Int} {replay : DayReplay}

theorem Sound.book (h : Sound hist startNs now replay) {c : String} {book : ConnectionBook}
    (hbook : replay.book? c = some book) : Timely now book ∧ book.connectionId = c ∧ c ≠ "" := by
  obtain ⟨_, hm, rfl⟩ := KeyedDict.mem_of_get hbook
  exact h.books _ hm

/-- The authority is absent, or runs an interval. -/
theorem authority_cases (h : replay.authority = none ↔ replay.validFrom = none) :
    (replay.authority = none ∧ replay.validFrom = none) ∨
      ∃ c fromNs, replay.authority = some c ∧ replay.validFrom = some fromNs := by
  cases ha : replay.authority with
  | none => exact .inl ⟨rfl, h.mp ha⟩
  | some c =>
    obtain ⟨fromNs, hf⟩ := Option.ne_none_iff_exists'.mp fun hnone => by
      simp [h.mpr hnone] at ha
    exact .inr ⟨c, fromNs, rfl, hf⟩

theorem endInterval_none {toNs : Int} {reason : String} (h : replay.authority = none) :
    replay.endInterval toNs reason = replay.intervals := by
  simp only [endInterval, h]

theorem endInterval_some {c reason : String} {fromNs toNs : Int}
    (ha : replay.authority = some c) (hf : replay.validFrom = some fromNs) :
    replay.endInterval toNs reason = replay.intervals ++ [{
      validFromNs := fromNs
      validToNs := toNs
      connectionId := c
      endReason := reason }] := by
  simp only [endInterval, ha, hf]

/-- Ending the running interval now leaves sound intervals. -/
theorem Sound.ended (h : Sound hist startNs now replay) (reason : String) :
    (replay.endInterval now reason).Pairwise (fun a b => a.validToNs ≤ b.validFromNs) ∧
      ∀ interval ∈ replay.endInterval now reason, SoundInterval hist startNs now interval := by
  rcases authority_cases h.authority_iff with ⟨ha, -⟩ | ⟨c, fromNs, ha, hf⟩
  · rw [endInterval_none ha]
    exact ⟨h.ordered, h.intervals⟩
  · have hrun := h.running c fromNs ha hf
    obtain ⟨book, hbook, -⟩ := hrun.valid
    rw [endInterval_some ha hf]
    refine ⟨List.pairwise_append.mpr ⟨h.ordered, List.pairwise_singleton _ _, ?_⟩, ?_⟩
    · intro interval hm last hlast
      rw [List.mem_singleton.mp hlast]
      exact hrun.after interval hm
    · intro interval hm
      rcases List.mem_append.mp hm with hm | hm
      · exact h.intervals interval hm
      · rw [List.mem_singleton.mp hm]
        exact ⟨hrun.start_le, hrun.le_now, le_refl now, (h.book hbook).2.2, hrun.good⟩

theorem SoundInterval.mono {later : Int} {interval : ValidityInterval}
    (h : SoundInterval hist startNs now interval) (hle : now ≤ later) :
    SoundInterval hist startNs later interval :=
  ⟨h.start_le, h.from_le, h.to_le.trans hle, h.named, h.good⟩

theorem Sound.wait {later : Int} (h : Sound hist startNs now replay) (hle : now ≤ later)
    (hstill : ∀ t, now ≤ t → t < later → hist t = .ok replay) :
    Sound hist startNs later replay where
  books := fun entry hm => ⟨(h.books entry hm).1.mono hle, (h.books entry hm).2⟩
  authority_iff := h.authority_iff
  running := fun c fromNs ha hf => by
    have hrun := h.running c fromNs ha hf
    refine { hrun with le_now := hrun.le_now.trans hle, good := fun t hfrom ht => ?_ }
    rcases lt_or_ge t now with hlt | hge
    · exact hrun.good t hfrom hlt
    · exact ⟨replay, hstill t hge ht, hrun.valid, hrun.no_gap⟩
  ordered := h.ordered
  intervals := fun interval hm => (h.intervals interval hm).mono hle

/-- An interval that starts now runs soundly. -/
theorem running_now {c : String} (hlast : replay.lastValidConnection = some c)
    (hgaps : replay.activeGaps = []) (hvalid : replay.ValidBook c) (hstart : startNs ≤ now)
    (hintervals : ∀ interval ∈ replay.intervals, SoundInterval hist startNs now interval) :
    Running hist startNs now replay c now where
  last := hlast
  no_gap := hgaps
  valid := hvalid
  start_le := hstart
  le_now := le_refl now
  good := fun _ hfrom ht => absurd ht (not_lt.mpr hfrom)
  after := fun interval hm => (hintervals interval hm).to_le

/-! ### What a step does -/

/-- The variables after an OPEN that takes effect at `now`. -/
def openedAt (now : Int) (event : GapEvent) (replay : DayReplay) : DayReplay :=
  invalidateBooks event { replay with
    intervals := replay.endInterval now "transport_gap"
    authority := none
    validFrom := none
    lastValidConnection := none
    activeGaps := replay.activeGaps.insert event.gapId }

/-- The open gaps after a CLOSED. -/
def remainingGaps (replay : DayReplay) (event : GapEvent) : List String :=
  replay.activeGaps.filter fun gapId => gapId ≠ event.gapId

/-- All that one item can do at `now`, with the books that are valid afterwards. -/
inductive Handled (now : Int) (replay : DayReplay) : DayItem → DayReplay → Prop where
  | opened (event : GapEvent) : event.state = .opened →
      Handled now replay (.gap event) (openedAt now event replay)
  | closed (event : GapEvent) : event.state = .closed →
      (replay.remainingGaps event = [] → ∀ c, replay.lastValidConnection = some c →
        ¬ replay.ValidBook c) →
      Handled now replay (.gap event) { replay with activeGaps := replay.remainingGaps event }
  | resumed (event : GapEvent) (c : String) : event.state = .closed →
      replay.remainingGaps event = [] → replay.lastValidConnection = some c →
      replay.ValidBook c → event.observedAtRealtimeNs = now →
      Handled now replay (.gap event) { replay with
        activeGaps := replay.remainingGaps event
        authority := some c
        validFrom := some now }
  | quiet (row : DepthRow) (book : ConnectionBook) :
      TimelyBooks now (replay.setBook row.connectionId book) →
      (∀ c, (replay.setBook row.connectionId book).ValidBook c ↔ replay.ValidBook c) →
      Handled now replay (.row row) (replay.setBook row.connectionId book)
  | bridgedInGap (row : DepthRow) (book : ConnectionBook) (change : StateChange) :
      TimelyBooks now (replay.setBook row.connectionId book) →
      (∀ c, (replay.setBook row.connectionId book).ValidBook c ↔
        row.connectionId = c ∨ replay.ValidBook c) →
      change.state = .valid → change.connectionId = row.connectionId → replay.activeGaps ≠ [] →
      Handled now replay (.row row) { replay.setBook row.connectionId book with
        changes := replay.changes ++ [change]
        lastValidConnection := some row.connectionId }
  | bridged (row : DepthRow) (book : ConnectionBook) (change : StateChange) :
      TimelyBooks now (replay.setBook row.connectionId book) →
      (∀ c, (replay.setBook row.connectionId book).ValidBook c ↔
        row.connectionId = c ∨ replay.ValidBook c) →
      change.state = .valid → change.connectionId = row.connectionId → replay.activeGaps = [] →
      Handled now replay (.row row) { replay.setBook row.connectionId book with
        changes := replay.changes ++ [change]
        intervals := replay.endInterval now "connection_switch"
        authority := some row.connectionId
        validFrom := some now
        lastValidConnection := some row.connectionId }
  | ended (row : DepthRow) (book : ConnectionBook) (change : StateChange) :
      TimelyBooks now (replay.setBook row.connectionId book) →
      (∀ c, (replay.setBook row.connectionId book).ValidBook c ↔
        row.connectionId ≠ c ∧ replay.ValidBook c) →
      change.state ≠ .valid → replay.authority = some row.connectionId →
      Handled now replay (.row row) { replay.setBook row.connectionId book with
        changes := replay.changes ++ [change]
        intervals := replay.endInterval now change.reason
        authority := none
        validFrom := none
        lastValidConnection := none }
  | broken (row : DepthRow) (book : ConnectionBook) (change : StateChange) :
      TimelyBooks now (replay.setBook row.connectionId book) →
      (∀ c, (replay.setBook row.connectionId book).ValidBook c ↔
        row.connectionId ≠ c ∧ replay.ValidBook c) →
      change.state ≠ .valid → replay.authority ≠ some row.connectionId →
      Handled now replay (.row row) { replay.setBook row.connectionId book with
        changes := replay.changes ++ [change] }

theorem handled_handleGap {event : GapEvent} (hnow : event.effectiveNs = now) :
    Handled now replay (.gap event) (replay.handleGap event) := by
  cases hstate : event.state with
  | opened =>
    have hopen : replay.handleGap event = openedAt now event replay := by
      simp only [handleGap, openedAt, hstate, hnow]
    rw [hopen]
    exact .opened event hstate
  | closed =>
    have hobserved : event.observedAtRealtimeNs = now := by
      rw [← GapEvent.effectiveNs_of_closed hstate, hnow]
    simp only [handleGap, hstate]
    split
    · rename_i hgaps
      exact .closed event hstate fun hnil => absurd hnil hgaps
    · rename_i hgaps
      have hnil := not_not.mp hgaps
      split
      · rename_i hlast
        exact .closed event hstate fun _ c hc => by simp_all
      · rename_i c hlast
        split
        · rename_i hbook
          refine .closed event hstate fun _ c' hc => ?_
          obtain rfl : c = c' := Option.some.inj (hlast.symm.trans hc)
          rintro ⟨book, hbook', -⟩
          exact Option.some_ne_none book (hbook'.symm.trans hbook)
        · rename_i book hbook
          split
          · rename_i hvalid
            refine .closed event hstate fun _ c' hc => ?_
            obtain rfl : c = c' := Option.some.inj (hlast.symm.trans hc)
            rintro ⟨book', hbook', hvalid'⟩
            obtain rfl : book' = book := Option.some.inj (hbook'.symm.trans hbook)
            exact hvalid hvalid'
          · rename_i hvalid
            rw [hobserved]
            exact .resumed event c hstate hnil hlast ⟨book, hbook, not_not.mp hvalid⟩ hobserved

theorem book?_setBook {c c' : String} {book : ConnectionBook} :
    (replay.setBook c book).book? c' = if c = c' then some book else replay.book? c' :=
  KeyedDict.get_set c book replay.books c'

theorem validBook_setBook {c c' : String} {book : ConnectionBook} :
    (replay.setBook c book).ValidBook c' ↔
      (c = c' ∧ book.state = .valid) ∨ (c ≠ c' ∧ replay.ValidBook c') := by
  by_cases hc : c = c' <;> simp [ValidBook, book?_setBook, hc]

/-- `setdefault` gives a timely book of the connection. -/
theorem Sound.book_getD (h : Sound hist startNs now replay) (c : String) :
    Timely now ((replay.book? c).getD { connectionId := c }) ∧
      ((replay.book? c).getD { connectionId := c }).connectionId = c := by
  cases hbook : replay.book? c with
  | none => exact ⟨timely_fresh now c, rfl⟩
  | some book => exact ⟨(h.book hbook).1, (h.book hbook).2.1⟩

theorem getD_valid_iff {c : String} :
    ((replay.book? c).getD { connectionId := c }).state = .valid ↔ replay.ValidBook c := by
  cases hbook : replay.book? c <;> simp [ValidBook, hbook]

theorem handled_handleChange {row : DepthRow} {book : ConnectionBook} {change : StateChange}
    (h : Sound hist startNs now replay)
    (hbooks : TimelyBooks now (replay.setBook row.connectionId book))
    (hname : book.connectionId = row.connectionId)
    (hreported : Reported now
      ((replay.book? row.connectionId).getD { connectionId := row.connectionId }).state book
      (some change)) :
    Handled now replay (.row row)
      ((replay.setBook row.connectionId book).handleChange row.connectionId change) := by
  cases hreported with
  | bridged _ hbefore hvalid hchange hnow hid =>
    have hbook : ∀ c, (replay.setBook row.connectionId book).ValidBook c ↔
        row.connectionId = c ∨ replay.ValidBook c := by
      intro c
      rw [validBook_setBook]
      tauto
    simp only [handleChange, hchange, if_true, hnow]
    split
    · rename_i hgaps
      exact .bridgedInGap row book change hbooks hbook hchange (hid.trans hname) hgaps
    · rename_i hgaps
      exact .bridged row book change hbooks hbook hchange (hid.trans hname) (not_not.mp hgaps)
  | broken _ hgone hchange hnow =>
    have hbook : ∀ c, (replay.setBook row.connectionId book).ValidBook c ↔
        row.connectionId ≠ c ∧ replay.ValidBook c := by
      intro c
      rw [validBook_setBook]
      tauto
    simp only [handleChange, hchange, if_false]
    split
    · rename_i hauthority
      obtain ⟨ha, hf⟩ := hauthority
      obtain ⟨fromNs, hf⟩ := Option.ne_none_iff_exists'.mp hf
      have hrun := h.running row.connectionId fromNs ha hf
      -- The authority's book was valid, so the break is the row itself.
      rw [hnow (getD_valid_iff.mpr hrun.valid),
        if_pos (show (replay.setBook row.connectionId book).lastValidConnection =
          some row.connectionId from hrun.last)]
      exact .ended row book change hbooks hbook hchange ha
    · rename_i hauthority
      refine .broken row book change hbooks hbook hchange fun ha => hauthority ⟨ha, fun hf => ?_⟩
      simp [h.authority_iff.mpr hf] at ha

theorem handled_handleRow {row : DepthRow} (h : Sound hist startNs now replay)
    (hnow : row.receivedNs = now) (hnamed : row.connectionId ≠ "") :
    ∃ replay', replay.handleRow row = .ok replay' ∧ Handled now replay (.row row) replay' := by
  obtain ⟨htimely, hid⟩ := h.book_getD row.connectionId
  obtain ⟨book, change, hrow, htimely', hreported, hid'⟩ := timely_onRow htimely hnow
  have hname := hid'.trans hid
  have hbooks : TimelyBooks now (replay.setBook row.connectionId book) := by
    rintro ⟨c, book'⟩ hm
    rcases KeyedDict.mem_set hm with hm | ⟨hc, hb⟩
    · exact h.books _ hm
    · obtain rfl : c = row.connectionId := hc
      obtain rfl : book' = book := hb
      exact ⟨htimely', hname, hnamed⟩
  cases change with
  | some change =>
    exact ⟨_, by simp only [handleRow, hrow]; rfl, handled_handleChange h hbooks hname hreported⟩
  | none =>
    refine ⟨_, by simp only [handleRow, hrow]; rfl, .quiet row book hbooks fun c => ?_⟩
    cases hreported with
    | quiet hiff =>
      rw [validBook_setBook, hiff, getD_valid_iff]
      by_cases hc : row.connectionId = c <;> simp [hc]

theorem handled_handle {item : DayItem} (h : Sound hist startNs now replay)
    (hnow : item.timeNs = now) (hnamed : ∀ row, item = .row row → row.connectionId ≠ "") :
    ∃ replay', replay.handle item = .ok replay' ∧ Handled now replay item replay' := by
  cases item with
  | gap event => exact ⟨_, rfl, handled_handleGap hnow⟩
  | row row => exact handled_handleRow h hnow (hnamed row rfl)

theorem not_validBook_openedAt {event : GapEvent} {c : String} :
    ¬ (openedAt now event replay).ValidBook c := by
  rintro ⟨book, hbook, hvalid⟩
  obtain ⟨old, -, rfl⟩ : ∃ old, replay.book? c = some old ∧ old.invalidate = book := by
    simpa [book?, openedAt, invalidateBooks, KeyedDict.get_map] using hbook
  simp [ConnectionBook.invalidate] at hvalid

theorem Sound.handled {item : DayItem} {replay' : DayReplay}
    (h : Sound hist startNs now replay) (hstart : startNs ≤ now)
    (hstep : Handled now replay item replay') : Sound hist startNs now replay' := by
  cases hstep with
  | opened event hstate =>
    obtain ⟨hordered, hintervals⟩ := h.ended "transport_gap"
    refine ⟨fun entry hm => ?_, by simp [openedAt, invalidateBooks],
      by simp [openedAt, invalidateBooks], hordered, hintervals⟩
    obtain ⟨old, hold, rfl⟩ := List.mem_map.mp hm
    exact ⟨.invalidate now old.2, (h.books old hold).2⟩
  | closed event hstate _ =>
    refine ⟨h.books, h.authority_iff, fun c fromNs ha hf => ?_, h.ordered, h.intervals⟩
    have hrun := h.running c fromNs ha hf
    exact { hrun with no_gap := by simp [remainingGaps, hrun.no_gap] }
  | resumed event c hstate hnil hlast hvalid _ =>
    refine ⟨h.books, by simp, fun c' fromNs ha hf => ?_, h.ordered, h.intervals⟩
    obtain rfl : c = c' := Option.some.inj ha
    obtain rfl : now = fromNs := Option.some.inj hf
    exact running_now hlast hnil hvalid hstart h.intervals
  | quiet row book hbooks hbook =>
    refine ⟨hbooks, h.authority_iff, fun c fromNs ha hf => ?_, h.ordered, h.intervals⟩
    have hrun := h.running c fromNs ha hf
    exact { hrun with valid := (hbook c).mpr hrun.valid }
  | bridgedInGap row book change hbooks hbook hchange hname hgaps =>
    refine ⟨hbooks, h.authority_iff, fun c fromNs ha hf => ?_, h.ordered, h.intervals⟩
    exact absurd (h.running c fromNs ha hf).no_gap hgaps
  | bridged row book change hbooks hbook hchange hname hgaps =>
    obtain ⟨hordered, hintervals⟩ := h.ended "connection_switch"
    refine ⟨hbooks, by simp, fun c fromNs ha hf => ?_, hordered, hintervals⟩
    obtain rfl : row.connectionId = c := Option.some.inj ha
    obtain rfl : now = fromNs := Option.some.inj hf
    exact running_now rfl hgaps ((hbook _).mpr (.inl rfl)) hstart hintervals
  | ended row book change hbooks hbook hchange ha =>
    obtain ⟨hordered, hintervals⟩ := h.ended change.reason
    exact ⟨hbooks, by simp, by simp, hordered, hintervals⟩
  | broken row book change hbooks hbook hchange hother =>
    refine ⟨hbooks, h.authority_iff, fun c fromNs ha hf => ?_, h.ordered, h.intervals⟩
    have hrun := h.running c fromNs ha hf
    have hne : row.connectionId ≠ c := by
      rintro rfl
      exact hother ha
    exact { hrun with valid := (hbook c).mpr ⟨hne, hrun.valid⟩ }

end Steps

end DayReplay

/-! ## A whole day -/

/-- The open gaps after one more event of the ledger. -/
def trackGap (gaps : List String) (event : GapEvent) : List String :=
  match event.state with
  | .opened => gaps.insert event.gapId
  | .closed => gaps.filter fun gapId => gapId ≠ event.gapId

namespace DayReplay
variable {replay replay' : DayReplay}

theorem handleGap_activeGaps (event : GapEvent) :
    (replay.handleGap event).activeGaps = trackGap replay.activeGaps event := by
  cases hstate : event.state with
  | opened => simp [handleGap, trackGap, hstate, invalidateBooks]
  | closed =>
    simp only [handleGap, trackGap, hstate]
    repeat' split
    all_goals rfl

theorem handleChange_activeGaps (c : String) (change : StateChange) :
    (replay.handleChange c change).activeGaps = replay.activeGaps := by
  simp only [handleChange]
  repeat' split
  all_goals rfl

theorem handleRow_activeGaps {row : DepthRow} (h : replay.handleRow row = .ok replay') :
    replay'.activeGaps = replay.activeGaps := by
  obtain ⟨⟨book, change⟩, -, h⟩ := exists_of_bind_ok h
  cases change with
  | none =>
    cases h
    rfl
  | some change =>
    cases h
    exact handleChange_activeGaps row.connectionId change

/-- Only the gap events change the set of open gaps. -/
theorem activeGaps_foldlM {items : List DayItem} (h : items.foldlM handle replay = .ok replay') :
    replay'.activeGaps = (items.filterMap DayItem.gap?).foldl trackGap replay.activeGaps := by
  induction items generalizing replay with
  | nil =>
    cases h
    rfl
  | cons item items ih =>
    rw [List.foldlM_cons] at h
    obtain ⟨next, hitem, h⟩ := exists_of_bind_ok h
    rw [ih h]
    cases item with
    | gap event =>
      cases hitem
      simp [DayItem.gap?, handleGap_activeGaps]
    | row row =>
      rw [handleRow_activeGaps hitem, List.filterMap_cons_none (by rfl)]

end DayReplay

/-- The anchored books of a checkpoint are as the day before left them: nothing in them was
received later, and a buffered diff that overlapped its anchor would have bridged. -/
structure L2Checkpoint.Settled (checkpoint : L2Checkpoint) (startNs : Int) : Prop where
  named : ∀ c ∈ checkpoint.connectionId, c ≠ ""
  anchored_named : ∀ anchored ∈ checkpoint.anchoredBooks, anchored.connectionId ≠ ""
  anchor_received : ∀ anchored ∈ checkpoint.anchoredBooks, anchored.anchorReceivedNs ≤ startNs
  pending_received : ∀ anchored ∈ checkpoint.anchoredBooks, ∀ diff ∈ anchored.pending,
    diff.receivedNs ≤ startNs
  missed : ∀ anchored ∈ checkpoint.anchoredBooks, ∀ diff ∈ anchored.pending,
    ¬ diff.overlaps anchored.anchorLastUpdateId = true

namespace L2Day

/-- Rows in time order inside the day, and gap events inside the day. -/
structure InDay (day : L2Day) : Prop where
  rows_sorted : day.rows.Pairwise fun a b => a.receivedNs ≤ b.receivedNs
  rows_inside : ∀ row ∈ day.rows, day.startNs ≤ row.receivedNs ∧ row.receivedNs < day.endNs
  rows_named : ∀ row ∈ day.rows, row.connectionId ≠ ""
  gaps_inside : ∀ event ∈ day.ledger,
    day.startNs ≤ event.effectiveNs ∧ event.effectiveNs < day.endNs

/-- The variables of `run` after everything that happened up to `t`. -/
def replayAt (day : L2Day) (t : Int) : Except String DayReplay := do
  let replay ← day.begin
  stateAt DayItem.timeNs DayReplay.handle replay day.items t

/-- The gaps open at `t`, in the order of `_transport_gap_events`. -/
def gapsOpenAt (day : L2Day) (t : Int) : List String :=
  (day.transportGapEvents.filter fun event => event.effectiveNs ≤ t).foldl trackGap []

variable {day : L2Day} {replay : DayReplay}

theorem transportGapEvents_pairwise (day : L2Day) :
    day.transportGapEvents.Pairwise fun a b => a.effectiveNs ≤ b.effectiveNs :=
  (sortGapEvents_pairwise _).imp GapEvent.effectiveNs_le_of_sortKey_le

theorem mem_transportGapEvents {event : GapEvent} :
    event ∈ day.transportGapEvents ↔ event ∈ day.ledger ∧ event.selects day.symbol = true := by
  rw [transportGapEvents, (sortGapEvents_perm _).mem_iff, List.mem_filter]

theorem InDay.items_pairwise (h : day.InDay) :
    day.items.Pairwise fun a b => a.timeNs ≤ b.timeNs :=
  timeline_pairwise day.transportGapEvents_pairwise h.rows_sorted

theorem InDay.items_inside (h : day.InDay) {item : DayItem} (hm : item ∈ day.items) :
    day.startNs ≤ item.timeNs ∧ item.timeNs < day.endNs := by
  rcases mem_timeline.mp hm with ⟨gap, hgap, rfl⟩ | ⟨row, hrow, rfl⟩
  · exact h.gaps_inside gap (mem_transportGapEvents.mp hgap).1
  · exact h.rows_inside row hrow

theorem InDay.items_named (h : day.InDay) {row : DepthRow} (hm : .row row ∈ day.items) :
    row.connectionId ≠ "" := by
  rcases mem_timeline.mp hm with ⟨gap, -, heq⟩ | ⟨row', hm, heq⟩
  · cases heq
  · cases heq
    exact h.rows_named row hm

theorem startNs_lt_endNs (day : L2Day) : day.startNs < day.endNs :=
  dayStartNs_lt_dayEndNs day.utcDate

/-! ### The start of the day -/

theorem restoreAnchored_ok {anchored : List AnchoredBookCheckpoint}
    {books books' : List (String × ConnectionBook)}
    (h : restoreAnchored books anchored = .ok books') :
    (∀ c book, KeyedDict.get id c books = some book → KeyedDict.get id c books' = some book) ∧
      ∀ entry ∈ books', entry ∈ books ∨ ∃ checkpoint ∈ anchored,
        entry = (checkpoint.connectionId, ConnectionBook.fromAnchorCheckpoint checkpoint) := by
  induction anchored generalizing books with
  | nil =>
    cases h
    exact ⟨fun _ _ => id, fun _ => .inl⟩
  | cons checkpoint rest ih =>
    rw [restoreAnchored] at h
    split at h
    · cases h
    · rename_i hnew
      obtain ⟨hkeeps, hfrom⟩ := ih h
      refine ⟨fun c book hbook => hkeeps c book ?_, fun entry hm => ?_⟩
      · rw [KeyedDict.get_set, if_neg, hbook]
        rintro rfl
        exact hnew (Option.isSome_iff_exists.mpr ⟨book, hbook⟩)
      · rcases hfrom entry hm with hold | ⟨later, hlater, heq⟩
        · rcases KeyedDict.mem_set hold with hold | ⟨hc, hb⟩
          · exact .inl hold
          · exact .inr ⟨checkpoint, List.mem_cons_self, Prod.ext hc hb⟩
        · exact .inr ⟨later, List.mem_cons_of_mem _ hlater, heq⟩

theorem begin_ok (h : day.begin = .ok replay) :
    day.restore day.previousCheckpoint = .ok replay := by
  have hload : ∀ checkpoint, day.loadPreviousCheckpoint = .ok checkpoint →
      checkpoint = day.previousCheckpoint := by
    intro checkpoint hload
    unfold loadPreviousCheckpoint at hload
    split at hload
    · cases hload
      exact Eq.symm (by assumption)
    · rename_i stored hstored
      rw [hstored]
      split at hload
      · cases hload
      · split at hload <;> cases hload
        rfl
  obtain ⟨canStart, -, h⟩ := exists_of_bind_ok h
  obtain ⟨checkpoint, hcheckpoint, h⟩ := exists_of_bind_ok h
  obtain rfl := hload checkpoint hcheckpoint
  split at h
  · cases h
  · exact h

/-- `hist` may be any history: no instant before the day's start is looked at. -/
theorem sound_restore {hist : Int → Except String DayReplay}
    (hsettled : ∀ checkpoint ∈ day.previousCheckpoint, checkpoint.Settled day.startNs)
    (h : day.restore day.previousCheckpoint = .ok replay) :
    DayReplay.Sound hist day.startNs day.startNs replay := by
  cases hcheckpoint : day.previousCheckpoint with
  | none =>
    rw [hcheckpoint] at h
    cases h
    exact ⟨by simp [DayReplay.TimelyBooks], by simp, by simp, by simp, by simp⟩
  | some checkpoint =>
    rw [hcheckpoint, restore] at h
    have hs := hsettled checkpoint hcheckpoint
    have hanchored : ∀ anchored ∈ checkpoint.anchoredBooks,
        Timely day.startNs (ConnectionBook.fromAnchorCheckpoint anchored) := by
      intro anchored hm
      refine ⟨fun hv => absurd hv anchored.unbridged.1, fun hv => absurd hv anchored.unbridged.1,
        hs.pending_received anchored hm, ?_, by simp [ConnectionBook.fromAnchorCheckpoint], ?_⟩
      · simpa [ConnectionBook.fromAnchorCheckpoint] using hs.anchor_received anchored hm
      · simpa [ConnectionBook.fromAnchorCheckpoint] using hs.missed anchored hm
    split at h
    · rename_i hvalid
      obtain ⟨c, hc⟩ := Option.ne_none_iff_exists'.mp (checkpoint.complete hvalid).1
      have hbook : ConnectionBook.fromCheckpoint checkpoint = .ok {
          connectionId := c
          state := .valid
          bids := bookSide checkpoint.bids
          asks := bookSide checkpoint.asks
          previousUpdateId := checkpoint.previousUpdateId } := by
        simp only [ConnectionBook.fromCheckpoint, hvalid, hc]
      simp only [hbook, bind, Except.bind] at h
      split at h
      · cases h
      · rename_i books hbooks
        obtain ⟨hkeeps, hfrom⟩ := restoreAnchored_ok hbooks
        cases h
        have hfirst := hkeeps c _ (if_pos rfl)
        refine ⟨fun entry hm => ?_, by simp, fun c' fromNs ha hf => ?_, by simp, by simp⟩
        · rcases hfrom entry hm with hfirst' | ⟨anchored, hmem, rfl⟩
          · rw [List.mem_singleton.mp hfirst']
            exact ⟨⟨fun _ => (checkpoint.complete hvalid).2.1, by simp, by simp, by simp, by simp,
              by simp⟩, rfl, hs.named c hc⟩
          · exact ⟨hanchored anchored hmem, rfl, hs.anchored_named anchored hmem⟩
        · obtain rfl : c = c' := Option.some.inj ha
          obtain rfl : day.startNs = fromNs := Option.some.inj hf
          exact DayReplay.running_now rfl rfl ⟨_, hfirst, rfl⟩ le_rfl (by simp)
    · simp only [bind, Except.bind] at h
      split at h
      · cases h
      · rename_i books hbooks
        obtain ⟨-, hfrom⟩ := restoreAnchored_ok hbooks
        cases h
        refine ⟨fun entry hm => ?_, by simp, by simp, by simp, by simp⟩
        rcases hfrom entry hm with hfirst' | ⟨anchored, hmem, rfl⟩
        · exact absurd hfirst' List.not_mem_nil
        · exact ⟨hanchored anchored hmem, rfl, hs.anchored_named anchored hmem⟩

theorem restore_fresh {checkpoint : Option L2Checkpoint} (h : day.restore checkpoint = .ok replay) :
    replay.activeGaps = [] ∧ replay.intervals = [] ∧ replay.changes = [] := by
  unfold restore at h
  split at h
  · cases h
    simp
  · split at h
    · simp only [bind, Except.bind] at h
      split at h
      · cases h
      · split at h <;> cases h
        simp
    · simp only [bind, Except.bind] at h
      split at h <;> cases h
      simp

/-! ### The run -/

theorem timeline_gaps_until (day : L2Day) (hin : day.InDay) (t : Int) :
    (day.items.takeWhile fun item => item.timeNs ≤ t).filterMap DayItem.gap? =
      day.transportGapEvents.filter fun event => event.effectiveNs ≤ t := by
  have hgaps : day.items.filterMap DayItem.gap? = day.transportGapEvents :=
    timeline_gaps _ _
  rw [takeWhile_eq_filter hin.items_pairwise, List.filterMap_filter, ← hgaps,
    List.filter_filterMap]
  refine List.filterMap_congr fun item _ => ?_
  cases item with
  | gap event =>
    by_cases ht : event.effectiveNs ≤ t <;> simp [DayItem.gap?, DayItem.timeNs, Option.filter, ht]
  | row row =>
    by_cases ht : row.receivedNs ≤ t <;> simp [DayItem.gap?, DayItem.timeNs, Option.filter, ht]

/-- A run starts, handles its items and finishes. -/
theorem run_ok {out : L2DayOutput} (h : day.run = .ok out) :
    ∃ start final, day.begin = .ok start ∧ day.items.foldlM DayReplay.handle start = .ok final ∧
      day.finish final = .ok out := by
  obtain ⟨start, hstart, h⟩ := exists_of_bind_ok h
  obtain ⟨final, hfinal, h⟩ := exists_of_bind_ok h
  exact ⟨start, final, hstart, hfinal, h⟩

theorem finish_intervals {out : L2DayOutput} (h : day.finish replay = .ok out) :
    out.intervals = (replay.endInterval day.endNs "utc_day_end").filter fun interval =>
      interval.validFromNs < interval.validToNs := by
  unfold finish at h
  simp only [bind, Except.bind, pure, Except.pure] at h
  split at h <;> cases h
  rfl

theorem replayAt_eq {start : DayReplay} (hstart : day.begin = .ok start) (t : Int) :
    day.replayAt t = stateAt DayItem.timeNs DayReplay.handle start day.items t := by
  simp only [replayAt, hstart, bind, Except.bind]

/-- The invariant holds when the last item has been handled. -/
theorem sound_of_begin {start : DayReplay} (hin : day.InDay)
    (hsettled : ∀ checkpoint ∈ day.previousCheckpoint, checkpoint.Settled day.startNs)
    (hstart : day.begin = .ok start) :
    ∃ final, day.items.foldlM DayReplay.handle start = .ok final ∧
      DayReplay.Sound (stateAt DayItem.timeNs DayReplay.handle start day.items)
        day.startNs day.endNs final := by
  refine timeline_invariant DayItem.timeNs _ hin.items_pairwise
    (fun hle h hstill => h.wait hle hstill) ?_
    (fun item hm => ⟨(hin.items_inside hm).1, le_of_lt (hin.items_inside hm).2⟩)
    (le_of_lt day.startNs_lt_endNs) (sound_restore hsettled (begin_ok hstart))
  intro done item rest replay hitems _ h
  have hm : item ∈ day.items := by simp [hitems]
  obtain ⟨replay', hok, hstep⟩ := DayReplay.handled_handle h rfl fun row heq =>
    hin.items_named (heq ▸ hm)
  exact ⟨replay', hok, h.handled (hin.items_inside hm).1 hstep⟩

/-- The open gaps of the replay are those of the ledger. -/
theorem activeGaps_stateAt {start : DayReplay} (hin : day.InDay) (hstart : day.begin = .ok start)
    {t : Int} (h : stateAt DayItem.timeNs DayReplay.handle start day.items t = .ok replay) :
    replay.activeGaps = day.gapsOpenAt t := by
  rw [DayReplay.activeGaps_foldlM h, day.timeline_gaps_until hin t,
    (restore_fresh (begin_ok hstart)).1, gapsOpenAt]

/-- The intervals a day writes are in order, sound and not empty. -/
theorem soundIntervals_of_run {out : L2DayOutput} (hin : day.InDay)
    (hsettled : ∀ checkpoint ∈ day.previousCheckpoint, checkpoint.Settled day.startNs)
    (hrun : day.run = .ok out) :
    ∃ start, day.begin = .ok start ∧
      out.intervals.Pairwise (fun a b => a.validToNs ≤ b.validFromNs) ∧
      ∀ interval ∈ out.intervals, interval.validFromNs < interval.validToNs ∧
        DayReplay.SoundInterval (stateAt DayItem.timeNs DayReplay.handle start day.items)
          day.startNs day.endNs interval := by
  obtain ⟨start, final, hstart, hfinal, hfinish⟩ := run_ok hrun
  obtain ⟨final', hfinal', hsound⟩ := sound_of_begin hin hsettled hstart
  obtain rfl : final = final' := Except.ok.inj (hfinal.symm.trans hfinal')
  obtain ⟨hordered, hintervals⟩ := hsound.ended "utc_day_end"
  refine ⟨start, hstart, ?_, fun interval hm => ?_⟩
  · rw [finish_intervals hfinish]
    exact hordered.filter _
  · rw [finish_intervals hfinish] at hm
    obtain ⟨hm, hlt⟩ := List.mem_filter.mp hm
    exact ⟨of_decide_eq_true hlt, hintervals interval hm⟩

/-- `_validate_validity` accepts the file of a day. -/
theorem validateValidity_of_run {out : L2DayOutput} (hin : day.InDay)
    (hsettled : ∀ checkpoint ∈ day.previousCheckpoint, checkpoint.Settled day.startNs)
    (hrun : day.run = .ok out) :
    validateValidity day.utcDate out.intervals =
      .ok (out.intervals.map ValidityInterval.bounds) := by
  obtain ⟨start, -, hordered, hintervals⟩ := soundIntervals_of_run hin hsettled hrun
  refine validateRows_ok (by simp) hordered fun interval hm => ?_
  obtain ⟨hlt, hs⟩ := hintervals interval hm
  exact ⟨hs.named, hs.start_le, hlt, hs.to_le⟩

/-- The intervals of a day pass the file check, and each of their instants is sound. -/
theorem run_intervals_sound {out : L2DayOutput} (hin : day.InDay)
    (hsettled : ∀ checkpoint ∈ day.previousCheckpoint, checkpoint.Settled day.startNs)
    (hrun : day.run = .ok out) :
    validateValidity day.utcDate out.intervals =
        .ok (out.intervals.map ValidityInterval.bounds) ∧
      out.intervals.Pairwise (fun a b => a.validToNs ≤ b.validFromNs) ∧
      ∀ interval ∈ out.intervals, day.startNs ≤ interval.validFromNs ∧
        interval.validFromNs < interval.validToNs ∧ interval.validToNs ≤ day.endNs ∧
        ∀ t, interval.validFromNs ≤ t → t < interval.validToNs →
          ∃ replay, day.replayAt t = .ok replay ∧ replay.ValidBook interval.connectionId ∧
            day.gapsOpenAt t = [] := by
  obtain ⟨start, hstart, hordered, hintervals⟩ := soundIntervals_of_run hin hsettled hrun
  refine ⟨validateValidity_of_run hin hsettled hrun, hordered, fun interval hm => ?_⟩
  obtain ⟨hlt, hs⟩ := hintervals interval hm
  refine ⟨hs.start_le, hlt, hs.to_le, fun t hfrom hto => ?_⟩
  obtain ⟨replay, hreplay, hvalid, hgaps⟩ := hs.good t hfrom hto
  exact ⟨replay, (replayAt_eq hstart t).trans hreplay, hvalid,
    (activeGaps_stateAt hin hstart hreplay).symm.trans hgaps⟩

/-! ### The checkpoint of a day -/

theorem anchorCheckpoint_ok {book : ConnectionBook} {checkpoint : AnchoredBookCheckpoint}
    (h : book.anchorCheckpoint = .ok checkpoint) :
    checkpoint.connectionId = book.connectionId ∧
      book.anchorLastUpdateId = some checkpoint.anchorLastUpdateId ∧
      book.anchorReceivedNs = some checkpoint.anchorReceivedNs ∧
      checkpoint.pending.Sublist book.pending := by
  unfold ConnectionBook.anchorCheckpoint at h
  split at h
  · rename_i hprev hanchor hreceived
    split at h
    · cases h
      exact ⟨rfl, hanchor, hreceived, List.filter_sublist⟩
    · cases h
  · cases h

theorem buildCheckpoint_ok {book : Option ConnectionBook} {books : List (String × ConnectionBook)}
    {checkpoint : L2Checkpoint} (h : day.buildCheckpoint book books = .ok checkpoint) :
    (∀ c ∈ checkpoint.connectionId, ∃ b, book = some b ∧ b.connectionId = c) ∧
      ∀ anchored ∈ checkpoint.anchoredBooks, ∃ entry ∈ books,
        entry.2.anchorCheckpoint = .ok anchored := by
  unfold buildCheckpoint at h
  simp only [bind, Except.bind, pure, Except.pure] at h
  split at h
  · cases h
  · rename_i anchoredBooks hmap
    have hfrom : ∀ anchored ∈ anchoredBooks, ∃ entry ∈ books,
        entry.2.anchorCheckpoint = .ok anchored := by
      intro anchored hm
      obtain ⟨entry, hentry, hok⟩ := exists_of_forall₂ (forall₂_of_mapM_ok hmap).flip hm
      exact ⟨entry, List.mem_of_mem_filter hentry, hok⟩
    split at h
    · cases h
      exact ⟨by simp, hfrom⟩
    · split at h
      · cases h
        exact ⟨by simp, hfrom⟩
      · cases h
        exact ⟨by simp, hfrom⟩

/-- The checkpoint a day writes is settled for the next day. -/
theorem run_checkpoint_settled {out : L2DayOutput} (hin : day.InDay)
    (hsettled : ∀ checkpoint ∈ day.previousCheckpoint, checkpoint.Settled day.startNs)
    (hrun : day.run = .ok out) : out.checkpoint.Settled day.endNs := by
  obtain ⟨start, final, hstart, hfinal, hfinish⟩ := run_ok hrun
  obtain ⟨final', hfinal', hsound⟩ := sound_of_begin hin hsettled hstart
  obtain rfl : final = final' := Except.ok.inj (hfinal.symm.trans hfinal')
  obtain ⟨hid, hanchored⟩ : (∀ c ∈ out.checkpoint.connectionId, ∃ b,
      (if final.activeGaps ≠ [] then none else final.authority.bind final.book?) = some b ∧
        b.connectionId = c) ∧
      ∀ anchored ∈ out.checkpoint.anchoredBooks, ∃ entry ∈ final.books,
        entry.2.anchorCheckpoint = .ok anchored := by
    unfold finish at hfinish
    simp only [bind, Except.bind, pure, Except.pure] at hfinish
    split at hfinish
    · cases hfinish
    · rename_i hbuild
      cases hfinish
      exact buildCheckpoint_ok hbuild
  have hbook : ∀ anchored ∈ out.checkpoint.anchoredBooks, ∃ book,
      book.anchorCheckpoint = .ok anchored ∧ Timely day.endNs book ∧ book.connectionId ≠ "" := by
    intro anchored hm
    obtain ⟨entry, hentry, hok⟩ := hanchored anchored hm
    obtain ⟨htimely, hkey, hnamed⟩ := hsound.books entry hentry
    exact ⟨entry.2, hok, htimely, hkey ▸ hnamed⟩
  refine ⟨fun c hc => ?_, fun anchored hm => ?_, fun anchored hm => ?_, fun anchored hm => ?_,
    fun anchored hm => ?_⟩
  · obtain ⟨book, hfinalBook, rfl⟩ := hid c hc
    split at hfinalBook
    · cases hfinalBook
    · obtain ⟨c', -, hbook'⟩ := Option.bind_eq_some_iff.mp hfinalBook
      exact (hsound.book hbook').2.1 ▸ (hsound.book hbook').2.2
  all_goals
    obtain ⟨book, hok, htimely, hnamed⟩ := hbook anchored hm
    obtain ⟨hkey, hanchor, hreceived, hsub⟩ := anchorCheckpoint_ok hok
  · exact hkey ▸ hnamed
  · exact htimely.anchor_received _ hreceived
  · exact fun diff hd => htimely.pending_received diff (hsub.subset hd)
  · exact fun diff hd => htimely.missed _ hanchor diff (hsub.subset hd)

/-! ### Two days -/

/-- A diff of connection `ws-1`, with a level on each side. -/
def plainDiff (receivedNs firstUpdateId finalUpdateId previousFinalUpdateId : Int) : DepthDiff where
  connectionId := "ws-1"
  receiveSeq := receivedNs
  receivedNs := receivedNs
  firstUpdateId := firstUpdateId
  finalUpdateId := finalUpdateId
  previousFinalUpdateId := previousFinalUpdateId
  payloadHash := []
  bids := [(⟨"99.5", isNumber_99_5⟩, "1")]
  asks := [(⟨"100.5", by decide⟩, "1")]

def plainSnapshot (receivedNs lastUpdateId : Int) : DepthSnapshot where
  connectionId := "ws-1"
  receiveSeq := receivedNs
  receivedNs := receivedNs
  lastUpdateId := lastUpdateId
  bids := [(⟨"99", by decide⟩, "1")]
  asks := [(⟨"101", isNumber_101⟩, "1")]

/-- A day that starts formally and has one transport gap. -/
def plainDay : L2Day where
  collectorId := "collector"
  utcDate := 1
  symbol := "BTCUSDT"
  marker := some { formalStartRealtimeNs := .value (dayStartNs 1) }
  previousMarker := none
  previousCheckpoint := none
  ledger := [
    { gapId := "gap-00001", state := .opened, reason := .connectionLost, collectorId := "collector"
      observedAtRealtimeNs := 86400000000030 },
    { gapId := "gap-00001", state := .closed, reason := .connectionLost, collectorId := "collector"
      observedAtRealtimeNs := 86400000000040 }]
  rows := [
    .diff (plainDiff 86400000000010 1 10 0), .snapshot (plainSnapshot 86400000000020 5),
    .diff (plainDiff 86400000000050 21 30 20), .snapshot (plainSnapshot 86400000000060 25)]

theorem plainDay_inDay : plainDay.InDay := ⟨by decide, by decide, by decide, by decide⟩

theorem run_intervals_sound_plainDay :
    ∃ out, plainDay.run = .ok out ∧
      validateValidity plainDay.utcDate out.intervals =
        .ok (out.intervals.map ValidityInterval.bounds) := by
  obtain ⟨out, hrun⟩ : ∃ out, plainDay.run = .ok out := ⟨_, rfl⟩
  exact ⟨out, hrun, (run_intervals_sound plainDay_inDay (by simp [plainDay]) hrun).1⟩

theorem unanchored_complete : L2State.unanchored = .valid → (none : Option String) ≠ none ∧
    (none : Option Int) ≠ none ∧ (none : Option Int) ≠ none ∧ ([] : Levels) ≠ [] ∧
      ([] : Levels) ≠ [] := by decide

theorem unanchored_empty : L2State.unanchored ≠ .valid → (none : Option String) = none ∧
    (none : Option Int) = none ∧ (none : Option Int) = none ∧ ([] : Levels) = [] ∧
      ([] : Levels) = [] := by decide

/-- A checkpoint that is accepted although its book buffers a diff over its own anchor. -/
def overlappingDay : L2Day where
  collectorId := "collector"
  utcDate := 1
  symbol := "BTCUSDT"
  marker := some {}
  previousMarker := none
  previousCheckpoint := some {
    collectorId := "collector"
    utcDate := 0
    exchangeSymbol := "BTCUSDT"
    state := .unanchored
    anchoredBooks := [{
      connectionId := "ws-1"
      state := .unanchored
      previousUpdateId := 5
      anchorLastUpdateId := 5
      anchorReceivedNs := 86399999999980
      bids := [(⟨"99", by decide⟩, "1")]
      asks := [(⟨"101", isNumber_101⟩, "1")]
      pending := [plainDiff 86399999999990 1 10 0]
      unbridged := by decide }]
    complete := unanchored_complete
    empty := unanchored_empty }
  ledger := []
  rows := [.diff (plainDiff 86400000000010 2 12 10)]

/-- The book bridges at the buffered diff, so its interval starts on the day before. -/
theorem run_intervals_overlappingDay :
    overlappingDay.InDay ∧ ∃ out, overlappingDay.run = .ok out ∧
      validateValidity overlappingDay.utcDate out.intervals =
        .error "invalid L2 validity ordering" := by
  refine ⟨⟨by decide, by decide, by decide, by decide⟩, ?_⟩
  obtain ⟨out, hrun⟩ : ∃ out, overlappingDay.run = .ok out := ⟨_, rfl⟩
  refine ⟨out, hrun, ?_⟩
  cases hrun
  decide

end L2Day

end MiryFormal
