import MiryFormal.Pipeline.ConnectionBook
import MiryFormal.Shared.Runs

/-!
# The collector's tracker and the replayed book

The same depth events fed to `SnapshotBridgeTracker` and to a fresh `ConnectionBook`. The
two buffers differ: on a pu break inside the buffer the tracker keeps the rest of it and
the book one diff, and diffs older than the anchor leave the book's buffer later.
-/

namespace MiryFormal

set_option autoImplicit false

open SnapshotBridgeTracker

/-- The online and the offline consumer of one connection. -/
structure Observers where
  tracker : SnapshotBridgeTracker
  book : ConnectionBook
  deriving DecidableEq

namespace Observers

def start (maximum : Nat) (hmax : 1 ≤ maximum) (connectionId : String) : Observers where
  tracker := { maximumBufferedEvents := maximum, maximum_pos := hmax }
  book := { connectionId }

def feed (o : Observers) : DepthRow → Except String Observers
  | .diff diff => do
      let (book, _) ← o.book.onDiff diff
      return { tracker := (o.tracker.onDiff diff.span).1, book }
  | .snapshot snapshot => do
      let (book, _) ← o.book.onSnapshot snapshot
      return { tracker := (o.tracker.onSnapshot snapshot.lastUpdateId).1, book }

/-- The two sides agree on validity and on the update id they continue from. -/
structure Agree (o : Observers) : Prop where
  bridged_iff : o.tracker.isBridged = true ↔ o.book.state = .valid
  same_id : o.tracker.isBridged = true → o.tracker.previousUpdateId = o.book.previousUpdateId

/-- No step of the run raises, and the two sides agree after every one. -/
def AgreeThroughout (o : Observers) (events : List DepthRow) : Prop :=
  ∀ n, ∃ o', (events.take n).foldlM feed o = .ok o' ∧ o'.Agree

/-- Distinct diffs in `receive_seq` order. -/
def InOrder (events : List DepthRow) : Prop :=
  (events.filterMap DepthRow.diff?).Pairwise fun a b =>
    a.receiveSeq ≤ b.receiveSeq ∧ a.identity ≠ b.identity

instance (events : List DepthRow) : Decidable (InOrder events) :=
  inferInstanceAs (Decidable (List.Pairwise _ _))

/-- A snapshot is delivered only while the tracker is not bridged, and no diff meets a
full buffer. -/
def Delivered (o : Observers) : DepthRow → Prop
  | .diff _ => o.tracker.isBridged = false →
      o.tracker.pending.length < o.tracker.maximumBufferedEvents
  | .snapshot _ => o.tracker.isBridged = false

instance (o : Observers) : ∀ event, Decidable (Delivered o event)
  | .diff _ => inferInstanceAs (Decidable (_ → _))
  | .snapshot _ => inferInstanceAs (Decidable (_ = _))

/-- Bridging into this buffer does not break before its last span. -/
def breaksOnlyAtEnd (lastUpdateId : Int) (spans : List UpdateSpan) : Bool :=
  match spans.dropWhile fun span => span.finalUpdateId < lastUpdateId with
  | [] => true
  | first :: rest =>
      lastUpdateId < first.firstUpdateId ||
        match followChain first.finalUpdateId rest with
        | .ok _ => true
        | .error (_, _, after) => after.isEmpty

/-- The diffs the book still buffers and the tracker has discarded. -/
def discarded (o : Observers) : List DepthDiff :=
  o.book.pending.take (o.book.pending.length - o.tracker.pending.length)

/-- The buffers hold the same for this snapshot: what only the book still has is older than
it, and no rest of the buffer is lost behind a pu break. -/
def BuffersMatch (o : Observers) : DepthRow → Prop
  | .diff _ => True
  | .snapshot snapshot =>
      (∀ diff ∈ o.discarded, diff.finalUpdateId < snapshot.lastUpdateId) ∧
        breaksOnlyAtEnd snapshot.lastUpdateId o.tracker.pending = true

instance (o : Observers) : ∀ event, Decidable (BuffersMatch o event)
  | .diff _ => inferInstanceAs (Decidable True)
  | .snapshot _ => inferInstanceAs (Decidable (_ ∧ _))

/-! ## The coupling of the two states -/

/-- How the states correspond. While both buffer, `old` are the diffs older than the anchor
that the book has not dropped yet. -/
inductive Coupled : SnapshotBridgeTracker → ConnectionBook → Prop where
  | bridged {tracker : SnapshotBridgeTracker} {book : ConnectionBook} (id : Int) :
      tracker.previousUpdateId = some id → tracker.pending = [] →
      tracker.snapshotLastUpdateId = none →
      book.state = .valid → book.previousUpdateId = some id → book.pending = [] →
      book.anchorLastUpdateId = none → Coupled tracker book
  | buffering {tracker : SnapshotBridgeTracker} {book : ConnectionBook} :
      tracker.previousUpdateId = none → tracker.snapshotLastUpdateId = none →
      book.state ≠ .valid → book.anchorLastUpdateId = none →
      tracker.pending = book.pending.map DepthDiff.span → Coupled tracker book
  | waiting {tracker : SnapshotBridgeTracker} {book : ConnectionBook} (anchor receivedNs : Int) :
      tracker.previousUpdateId = none → tracker.snapshotLastUpdateId = some anchor →
      tracker.pending = [] →
      book.state ≠ .valid → book.anchorLastUpdateId = some anchor →
      book.anchorReceivedNs = some receivedNs →
      (∀ diff ∈ book.pending, diff.finalUpdateId < anchor) → Coupled tracker book
  | overshot {tracker : SnapshotBridgeTracker} {book : ConnectionBook} (anchor receivedNs : Int)
      (old : List DepthDiff) (first : DepthDiff) (rest : List DepthDiff) :
      tracker.previousUpdateId = none → tracker.snapshotLastUpdateId = none →
      book.state ≠ .valid → book.anchorLastUpdateId = some anchor →
      book.anchorReceivedNs = some receivedNs →
      book.pending = old ++ first :: rest →
      (∀ diff ∈ old, diff.finalUpdateId < anchor) →
      anchor ≤ first.finalUpdateId → anchor < first.firstUpdateId →
      tracker.pending = (first :: rest).map DepthDiff.span → Coupled tracker book

theorem Coupled.agree {o : Observers} (h : Coupled o.tracker o.book) : o.Agree := by
  constructor <;> cases h <;> simp_all [isBridged]

variable {tracker : SnapshotBridgeTracker} {book : ConnectionBook}

theorem onDiff_unbridged {span : UpdateSpan} (hprev : tracker.previousUpdateId = none)
    (hroom : tracker.pending.length < tracker.maximumBufferedEvents) :
    tracker.onDiff span =
      evaluateSnapshot { tracker with pending := tracker.pending ++ [span] } := by
  have hdrop : (tracker.pending ++ [span]).length - tracker.maximumBufferedEvents = 0 := by
    simp only [List.length_append, List.length_singleton]
    omega
  simp only [SnapshotBridgeTracker.onDiff, hprev, hdrop, List.drop_zero]

theorem onDiff_unanchored {span : UpdateSpan} (hprev : tracker.previousUpdateId = none)
    (hsnap : tracker.snapshotLastUpdateId = none)
    (hroom : tracker.pending.length < tracker.maximumBufferedEvents) :
    (tracker.onDiff span).1 = { tracker with pending := tracker.pending ++ [span] } := by
  rw [onDiff_unbridged hprev hroom]
  exact congrArg Prod.fst (evaluateSnapshot_none
    { tracker with pending := tracker.pending ++ [span] } hsnap)

/-- What a step leaves in the book's buffer and in its memory of diffs. -/
structure Remembers (book : ConnectionBook) (diff : DepthDiff) (book' : ConnectionBook) :
    Prop where
  seen : book'.seenDiffs = diff.identity :: book.seenDiffs
  pending : book'.pending.Sublist (book.pending ++ [diff])

/-- The tracker tries its anchor on each diff, the book only on one that overlaps it. -/
theorem coupled_onDiff_waiting {diff : DepthDiff} {anchor receivedNs : Int}
    (hprev : tracker.previousUpdateId = none)
    (hsnap : tracker.snapshotLastUpdateId = some anchor) (hpend : tracker.pending = [])
    (hstate : book.state ≠ .valid) (hanchor : book.anchorLastUpdateId = some anchor)
    (hreceived : book.anchorReceivedNs = some receivedNs)
    (hold : ∀ diff ∈ book.pending, diff.finalUpdateId < anchor)
    (hnew : diff.identity ∉ book.seenDiffs)
    (hsorted : (book.pending ++ [diff]).Pairwise fun a b => a.receiveSeq ≤ b.receiveSeq) :
    ∃ book' change, book.onDiff diff = .ok (book', change) ∧
      Coupled (evaluateSnapshot { tracker with pending := tracker.pending ++ [diff.span] }).1
        book' ∧ Remembers book diff book' := by
  set tracker' : SnapshotBridgeTracker :=
    { tracker with pending := tracker.pending ++ [diff.span] } with htracker'
  have hpend' : tracker'.pending = [diff.span] := by simp [htracker', hpend]
  have hord' : orderByReceiveSeq UpdateSpan.receiveSeq tracker'.pending = [] ++ diff.span :: [] := by
    rw [hpend']
    exact orderByReceiveSeq_of_pairwise (List.pairwise_singleton _ _)
  rcases Int.lt_or_le diff.finalUpdateId anchor with hbefore | hreaches
  · -- The diff ends before the anchor: the tracker drops it, the book keeps it.
    have hmiss : ¬ diff.overlaps anchor = true := by
      simp only [DepthDiff.overlaps, Bool.and_eq_true, decide_eq_true_eq]
      omega
    refine ⟨_, _, ConnectionBook.onDiff_buffers hnew hstate hanchor hmiss, ?_, rfl,
      List.Sublist.refl _⟩
    have hdrops := (evaluateSnapshot_waiting tracker' hsnap (by
      rw [hpend']
      simpa [DepthDiff.span] using hbefore)).1
    rw [hdrops]
    refine .waiting anchor receivedNs hprev hsnap rfl hstate hanchor hreceived ?_
    intro d hd
    rcases List.mem_append.mp hd with hd | hd
    · exact hold d hd
    · rw [List.mem_singleton.mp hd]
      exact hbefore
  · rcases Int.lt_or_le anchor diff.firstUpdateId with hpast | hover
    · -- The diff starts past the anchor: stale for the tracker, not yet for the book.
      have hmiss : ¬ diff.overlaps anchor = true := by
        simp only [DepthDiff.overlaps, Bool.and_eq_true, decide_eq_true_eq]
        omega
      refine ⟨_, _, ConnectionBook.onDiff_buffers hnew hstate hanchor hmiss, ?_, rfl,
        List.Sublist.refl _⟩
      have hstale := (evaluateSnapshot_stale tracker' hsnap hord' (by simp)
        hreaches hpast).1
      rw [hstale]
      exact .overshot anchor receivedNs book.pending diff [] hprev rfl hstate hanchor hreceived
        rfl hold hreaches hpast rfl
    · have hhit : diff.overlaps anchor = true := by
        simp [DepthDiff.overlaps, hover, hreaches]
      have hbridged := (evaluateSnapshot_bridged tracker' hsnap hord' (by simp)
        hreaches hover (show followChain diff.finalUpdateId [] = .ok diff.finalUpdateId from rfl)).1
      have hord : orderByReceiveSeq DepthDiff.receiveSeq
          ((book.remember diff).buffer diff).pending = book.pending ++ diff :: [] :=
        orderByReceiveSeq_of_pairwise hsorted
      obtain ⟨htry, hlast⟩ := ConnectionBook.tryBridge_bridged
        ((book.remember diff).buffer diff) hanchor hreceived hord hold hreaches hover
        (show followChain diff.finalUpdateId [] = .ok diff.finalUpdateId from rfl)
      have hbook : book.onDiff diff = _ :=
        (ConnectionBook.onDiff_tries hnew hstate (by simp [hanchor, hhit])).trans htry
      refine ⟨_, _, hbook, ?_, rfl, List.nil_sublist _⟩
      rw [hbridged]
      exact .bridged diff.finalUpdateId rfl rfl rfl rfl hlast rfl rfl

theorem coupled_onDiff {diff : DepthDiff} (h : Coupled tracker book)
    (hnew : diff.identity ∉ book.seenDiffs)
    (hroom : tracker.isBridged = false → tracker.pending.length < tracker.maximumBufferedEvents)
    (hsorted : (book.pending ++ [diff]).Pairwise fun a b => a.receiveSeq ≤ b.receiveSeq) :
    ∃ book' change, book.onDiff diff = .ok (book', change) ∧
      Coupled (tracker.onDiff diff.span).1 book' ∧ Remembers book diff book' := by
  cases h with
  | bridged id hprev hpend hsnap hstate hbprev hbpend hanchor =>
    by_cases hcont : sequenceContinues id diff.previousFinalUpdateId = true
    · refine ⟨_, _, ConnectionBook.onDiff_continues hnew hstate hbprev hcont, ?_, rfl, ?_⟩
      · simp only [SnapshotBridgeTracker.onDiff, hprev, DepthDiff.span, hcont, if_true]
        exact .bridged diff.finalUpdateId rfl hpend hsnap hstate rfl hbpend hanchor
      · simp [ConnectionBook.remember, ConnectionBook.apply, hbpend]
    · refine ⟨_, _, ConnectionBook.onDiff_breaks hnew hstate hbprev hcont, ?_, rfl, ?_⟩
      · simp only [SnapshotBridgeTracker.onDiff, hprev, DepthDiff.span, hcont]
        exact .buffering rfl rfl (by simp [ConnectionBook.restartAt, ConnectionBook.invalidate])
          rfl rfl
      · simp [ConnectionBook.restartAt]
  | buffering hprev hsnap hstate hanchor hpend =>
    have hroom := hroom (by simp [isBridged, hprev])
    have htry : book.onDiff diff = .ok ((book.remember diff).buffer diff, none) := by
      rw [ConnectionBook.onDiff_tries hnew hstate (by simp [hanchor])]
      exact ConnectionBook.tryBridge_none _ hanchor
    refine ⟨_, _, htry, ?_, rfl, List.Sublist.refl _⟩
    rw [onDiff_unanchored hprev hsnap hroom]
    exact .buffering hprev hsnap hstate hanchor
      (by simp [ConnectionBook.buffer, ConnectionBook.remember, hpend])
  | waiting anchor receivedNs hprev hsnap hpend hstate hanchor hreceived hold =>
    rw [onDiff_unbridged hprev (hroom (by simp [isBridged, hprev]))]
    exact coupled_onDiff_waiting hprev hsnap hpend hstate hanchor hreceived hold hnew hsorted
  | overshot anchor receivedNs old first rest hprev hsnap hstate hanchor hreceived hbpend hold
      hfirst hstale hpend =>
    have hroom := hroom (by simp [isBridged, hprev])
    have hbuffered : ((book.remember diff).buffer diff).pending =
        old ++ first :: (rest ++ [diff]) := by
      simp [ConnectionBook.buffer, ConnectionBook.remember, hbpend]
    rw [onDiff_unanchored hprev hsnap hroom]
    by_cases hover : diff.overlaps anchor = true
    · have hord : orderByReceiveSeq DepthDiff.receiveSeq
          ((book.remember diff).buffer diff).pending = old ++ first :: (rest ++ [diff]) :=
        (orderByReceiveSeq_of_pairwise hsorted).trans hbuffered
      have htry : book.onDiff diff = _ :=
        (ConnectionBook.onDiff_tries hnew hstate (by simp [hanchor, hover])).trans
          (ConnectionBook.tryBridge_stale _ hanchor hreceived hord hold hfirst hstale)
      refine ⟨_, _, htry, .buffering hprev hsnap hstate rfl (by simp [hpend]), rfl, ?_⟩
      simp [hbpend]
    · exact ⟨_, _, ConnectionBook.onDiff_buffers hnew hstate hanchor hover,
        .overshot anchor receivedNs old first (rest ++ [diff]) hprev hsnap hstate hanchor
          hreceived hbuffered hold hfirst hstale (by simp [hpend]), rfl, List.Sublist.refl _⟩

/-- Unbridged, the book buffers what the tracker does behind the diffs only it still has. -/
theorem Coupled.unbridged (h : Coupled tracker book) (hb : tracker.isBridged = false) :
    book.state ≠ .valid ∧ ∃ kept, tracker.pending = kept.map DepthDiff.span ∧
      book.pending = discarded ⟨tracker, book⟩ ++ kept := by
  have hsplit : ∀ {D kept : List DepthDiff}, book.pending = D ++ kept →
      tracker.pending = kept.map DepthDiff.span →
      book.pending = discarded ⟨tracker, book⟩ ++ kept := by
    intro D kept hbook htracker
    have htake : discarded ⟨tracker, book⟩ = D := by simp [discarded, hbook, htracker]
    rw [htake, hbook]
  cases h with
  | bridged id hprev => simp [isBridged, hprev] at hb
  | buffering _ _ hstate _ hpend => exact ⟨hstate, _, hpend, hsplit (List.nil_append _).symm hpend⟩
  | waiting _ _ _ _ hpend hstate =>
    exact ⟨hstate, [], hpend, hsplit (List.append_nil _).symm hpend⟩
  | overshot _ _ _ _ _ _ _ hstate _ _ hbpend _ _ _ hpend =>
    exact ⟨hstate, _, hpend, hsplit hbpend hpend⟩

theorem dropWhile_reached {anchor : Int} {old rest : List UpdateSpan} {first : UpdateSpan}
    (hold : ∀ span ∈ old, span.finalUpdateId < anchor) (hfirst : anchor ≤ first.finalUpdateId) :
    (old ++ first :: rest).dropWhile (fun span => span.finalUpdateId < anchor) = first :: rest := by
  rw [List.dropWhile_append_of_pos (by simpa using hold), List.dropWhile_cons_of_neg (by simpa)]

theorem coupled_onSnapshot {snapshot : DepthSnapshot} (h : Coupled tracker book)
    (hb : tracker.isBridged = false)
    (hmatch : BuffersMatch ⟨tracker, book⟩ (.snapshot snapshot))
    (hsorted : book.pending.Pairwise fun a b => a.receiveSeq ≤ b.receiveSeq) :
    ∃ book' change, book.onSnapshot snapshot = .ok (book', change) ∧
      Coupled (tracker.onSnapshot snapshot.lastUpdateId).1 book' ∧
      book'.seenDiffs = book.seenDiffs ∧ book'.pending.Sublist book.pending := by
  obtain ⟨hstate, kept, hpend, hbpend⟩ := h.unbridged hb
  obtain ⟨hdiscarded, hend⟩ := hmatch
  simp only at hdiscarded hend
  set D := discarded ⟨tracker, book⟩
  set tracker' : SnapshotBridgeTracker :=
    { tracker with snapshotLastUpdateId := some snapshot.lastUpdateId, previousUpdateId := none }
    with htracker'
  have hkept : kept.Pairwise fun a b => a.receiveSeq ≤ b.receiveSeq :=
    (List.pairwise_append.mp (hbpend ▸ hsorted)).2.1
  have hordT : orderByReceiveSeq UpdateSpan.receiveSeq tracker'.pending =
      kept.map DepthDiff.span := by
    rw [← hpend]
    exact orderByReceiveSeq_of_pairwise (hpend ▸ (List.pairwise_map.mpr hkept))
  have hordB : orderByReceiveSeq DepthDiff.receiveSeq (book.anchorAt snapshot).pending =
      D ++ kept := hbpend ▸ orderByReceiveSeq_of_pairwise hsorted
  change ∃ book' change, (book.anchorAt snapshot).tryBridge = .ok (book', change) ∧
    Coupled tracker'.evaluateSnapshot.1 book' ∧ _
  rcases reaching_cases DepthDiff.finalUpdateId snapshot.lastUpdateId kept with
    hall | ⟨old, first, rest, rfl, hold, hfirst⟩
  · have hbook := ConnectionBook.tryBridge_waiting (book.anchorAt snapshot) rfl
      (show _ = some snapshot.receivedNs from rfl) (by
        intro diff hd
        rcases List.mem_append.mp (hbpend ▸ hd) with hd | hd
        exacts [hdiscarded diff hd, hall diff hd])
    refine ⟨_, _, hbook, ?_, rfl, List.nil_sublist _⟩
    rw [(evaluateSnapshot_waiting tracker' rfl (by
      rw [hpend]
      simpa [DepthDiff.span] using hall)).1]
    exact .waiting snapshot.lastUpdateId snapshot.receivedNs rfl rfl rfl hstate rfl rfl (by simp)
  · rw [← List.append_assoc] at hordB hbpend
    rw [List.map_append, List.map_cons] at hordT
    have holdB : ∀ diff ∈ D ++ old, diff.finalUpdateId < snapshot.lastUpdateId := by
      intro diff hd
      rcases List.mem_append.mp hd with hd | hd
      exacts [hdiscarded diff hd, hold diff hd]
    have holdT : ∀ span ∈ old.map DepthDiff.span, span.finalUpdateId < snapshot.lastUpdateId := by
      simpa [DepthDiff.span] using hold
    have hsub : (first :: rest).Sublist book.pending := by
      rw [hbpend]
      exact List.sublist_append_right _ _
    rcases Int.lt_or_le snapshot.lastUpdateId first.firstUpdateId with hpast | hover
    · have hbook := ConnectionBook.tryBridge_stale (book.anchorAt snapshot) rfl
        (show _ = some snapshot.receivedNs from rfl) hordB holdB hfirst hpast
      refine ⟨_, _, hbook, ?_, rfl, hsub⟩
      rw [(evaluateSnapshot_stale tracker' rfl hordT holdT hfirst hpast).1]
      exact .buffering rfl rfl hstate rfl rfl
    · cases hchain : followChain first.finalUpdateId (rest.map DepthDiff.span) with
      | ok last =>
        obtain ⟨hbook, hlast⟩ := ConnectionBook.tryBridge_bridged (book.anchorAt snapshot) rfl
          (show _ = some snapshot.receivedNs from rfl) hordB holdB hfirst hover hchain
        refine ⟨_, _, hbook, ?_, ?_, List.nil_sublist _⟩
        · rw [(evaluateSnapshot_bridged tracker' rfl hordT holdT hfirst hover
            hchain).1]
          exact .bridged last rfl rfl rfl rfl hlast rfl rfl
        · rw [ConnectionBook.foldl_apply_eq]
          rfl
      | error broken =>
        obtain ⟨before, diff, after, hrest, hbroken, hbook⟩ :=
          ConnectionBook.tryBridge_broken (book.anchorAt snapshot) rfl
            (show _ = some snapshot.receivedNs from rfl) hordB holdB hfirst hover hchain
        obtain ⟨expected, span, tail⟩ := broken
        obtain ⟨rfl, rfl⟩ : span = diff.span ∧ tail = after.map DepthDiff.span := by
          simpa using hbroken
        -- The break is at the end of the buffer, so nothing is lost behind it.
        obtain rfl : after = [] := by
          rw [hpend, List.map_append, List.map_cons, breaksOnlyAtEnd,
            dropWhile_reached holdT hfirst] at hend
          simpa [DepthDiff.span, Int.not_lt.mpr hover, hchain] using hend
        refine ⟨_, _, hbook, ?_, rfl, ?_⟩
        · rw [(evaluateSnapshot_gap tracker' rfl hordT holdT hfirst hover hchain).1]
          exact .buffering rfl rfl
            (by simp [ConnectionBook.restartAt, ConnectionBook.invalidate]) rfl rfl
        · refine List.Sublist.trans ?_ hsub
          rw [hrest]
          exact List.singleton_sublist.mpr (by simp)

/-- The invariant of a run with `upcoming` still to be fed. -/
structure Ready (o : Observers) (upcoming : List DepthRow) : Prop where
  coupled : Coupled o.tracker o.book
  sorted : (o.book.pending ++ upcoming.filterMap DepthRow.diff?).Pairwise
    fun a b => a.receiveSeq ≤ b.receiveSeq
  distinct : (upcoming.filterMap DepthRow.diff?).Pairwise fun a b => a.identity ≠ b.identity
  unseen : ∀ diff ∈ upcoming.filterMap DepthRow.diff?, diff.identity ∉ o.book.seenDiffs

theorem Ready.feed {o : Observers} {event : DepthRow} {upcoming : List DepthRow}
    (h : Ready o (event :: upcoming)) (hgood : Delivered o event ∧ BuffersMatch o event) :
    ∃ o', o.feed event = .ok o' ∧ Ready o' upcoming := by
  obtain ⟨hcoupled, hsorted, hdistinct, hunseen⟩ := h
  obtain ⟨hdelivered, hmatch⟩ := hgood
  cases event with
  | diff diff =>
    simp only [List.filterMap_cons, DepthRow.diff?] at hsorted hdistinct hunseen
    obtain ⟨hne, hdistinct⟩ := List.pairwise_cons.mp hdistinct
    rw [List.append_cons] at hsorted
    obtain ⟨book', change, hbook, hcoupled', hseen, hpend⟩ := coupled_onDiff hcoupled
      (hunseen diff List.mem_cons_self) hdelivered (List.pairwise_append.mp hsorted).1
    refine ⟨_, by simp only [Observers.feed, hbook]; rfl, hcoupled',
      hsorted.sublist (hpend.append_right _), hdistinct, ?_⟩
    intro later hlater
    rw [hseen, List.mem_cons, not_or]
    exact ⟨(hne later hlater).symm, hunseen later (List.mem_cons_of_mem _ hlater)⟩
  | snapshot snapshot =>
    simp only [List.filterMap_cons, DepthRow.diff?] at hsorted hdistinct hunseen
    obtain ⟨book', change, hbook, hcoupled', hseen, hpend⟩ := coupled_onSnapshot hcoupled
      hdelivered hmatch (List.pairwise_append.mp hsorted).1
    refine ⟨_, by simp only [Observers.feed, hbook]; rfl, hcoupled',
      hsorted.sublist (hpend.append_right _), hdistinct, ?_⟩
    simpa only [hseen] using hunseen

theorem ready_start {maximum : Nat} (hmax : 1 ≤ maximum) (connectionId : String)
    {events : List DepthRow} (hord : InOrder events) :
    Ready (start maximum hmax connectionId) events where
  coupled := .buffering rfl rfl (by simp [start]) rfl rfl
  sorted := hord.imp And.left
  distinct := hord.imp And.right
  unseen := by simp [start]

/-- Tracker and book agree for as long as their buffers hold the same for each snapshot. -/
theorem agreeThroughout_of_buffersMatch {maximum : Nat} (hmax : 1 ≤ maximum)
    (connectionId : String) {events : List DepthRow} (hord : InOrder events)
    (hsteps : StepsMeet feed (fun o event => Delivered o event ∧ BuffersMatch o event)
      (start maximum hmax connectionId) events) :
    AgreeThroughout (start maximum hmax connectionId) events := by
  intro n
  have hord' : InOrder (events.take n) :=
    hord.sublist ((List.take_sublist n events).filterMap _)
  obtain ⟨o, hrun, hready⟩ := (hsteps.take n).returns Ready (fun h hgood => h.feed hgood)
    (ready_start hmax connectionId hord')
  exact ⟨o, hrun, hready.coupled.agree⟩

/-- A diff without levels. -/
def idsOnly (receiveSeq firstUpdateId finalUpdateId previousFinalUpdateId : Int) : DepthRow :=
  .diff {
    connectionId := "c", receiveSeq, receivedNs := receiveSeq
    firstUpdateId, finalUpdateId, previousFinalUpdateId
    payloadHash := [], bids := [], asks := [] }

def idOnly (receiveSeq lastUpdateId : Int) : DepthRow :=
  .snapshot {
    connectionId := "c", receiveSeq, receivedNs := receiveSeq, lastUpdateId
    bids := [], asks := [] }

/-- Three diffs are buffered, the second breaks the chain, and the first snapshot bridges at
the first diff. -/
def breakInsideBuffer : List DepthRow :=
  [idsOnly 1 1 10 0, idsOnly 2 20 30 15, idsOnly 3 31 40 30, idOnly 4 5]

theorem agreeThroughout_breakAtEnd :
    AgreeThroughout (start 4096 (by decide) "c")
      [idsOnly 1 1 10 0, idsOnly 2 20 30 15, idOnly 3 5, idsOnly 4 31 40 30, idOnly 5 25] :=
  agreeThroughout_of_buffersMatch (by decide) "c" (by decide) (by decide)

/-- After the break the tracker still buffers the third diff and the book does not, so the
next snapshot bridges them to different update ids. -/
theorem not_agreeThroughout_breakInsideBuffer :
    InOrder (breakInsideBuffer ++ [idOnly 5 25]) ∧
      StepsMeet feed Delivered (start 4096 (by decide) "c") (breakInsideBuffer ++ [idOnly 5 25]) ∧
      ¬ AgreeThroughout (start 4096 (by decide) "c") (breakInsideBuffer ++ [idOnly 5 25]) := by
  refine ⟨by decide, by decide, fun h => ?_⟩
  obtain ⟨o, hrun, hagree⟩ := h 5
  cases hrun
  have hsame := hagree.same_id (by decide)
  revert hsame
  decide

end Observers

end MiryFormal
