import MiryFormal.Pipeline.BookAgreement
import Mathlib.Data.List.TakeWhile

/-!
# Where the snapshot comes in

One snapshot among the depth diffs of a connection. Both consumers come to the same end wherever
the snapshot stands among them: what decides is the first diff that reaches it, and whether the
diffs from there on are unbroken.
-/

namespace MiryFormal

set_option autoImplicit false

open SnapshotBridgeTracker

/-! ## What a snapshot comes to -/

/-- The spans from the first one that reaches the snapshot. -/
def reachingSpans (lastUpdateId : Int) (spans : List UpdateSpan) : List UpdateSpan :=
  spans.dropWhile fun span => span.finalUpdateId < lastUpdateId

/-- The update id that a snapshot and the spans received in all lead to, if they do. -/
def settledAt (lastUpdateId : Int) (spans : List UpdateSpan) : Option Int :=
  match reachingSpans lastUpdateId spans with
  | [] => none
  | first :: rest =>
      if lastUpdateId < first.firstUpdateId then none
      else (followChain first.finalUpdateId rest).toOption

section Settled
variable {lastUpdateId last : Int} {spans : List UpdateSpan} {span : UpdateSpan}

theorem reachingSpans_eq_nil :
    reachingSpans lastUpdateId spans = [] ↔ ∀ span ∈ spans, span.finalUpdateId < lastUpdateId := by
  unfold reachingSpans
  rw [List.dropWhile_eq_nil_iff]
  simp only [decide_eq_true_eq]

theorem reachingSpans_snoc_nil (hnil : reachingSpans lastUpdateId spans = []) :
    reachingSpans lastUpdateId (spans ++ [span]) =
      if span.finalUpdateId < lastUpdateId then [] else [span] := by
  unfold reachingSpans at hnil ⊢
  rw [List.dropWhile_append, hnil]
  by_cases hbefore : span.finalUpdateId < lastUpdateId
  · simp [hbefore]
  · simp [hbefore]

theorem reachingSpans_snoc_cons (hsome : reachingSpans lastUpdateId spans ≠ []) :
    reachingSpans lastUpdateId (spans ++ [span]) = reachingSpans lastUpdateId spans ++ [span] := by
  unfold reachingSpans at hsome ⊢
  rw [List.dropWhile_append, if_neg]
  rwa [List.isEmpty_iff]

theorem followChain_snoc (previous : Int) (rest : List UpdateSpan) :
    (followChain previous (rest ++ [span])).toOption =
      (followChain previous rest).toOption.bind fun last =>
        if sequenceContinues last span.previousFinalUpdateId then some span.finalUpdateId
        else none := by
  induction rest generalizing previous with
  | nil =>
    unfold followChain
    by_cases hcont : sequenceContinues previous span.previousFinalUpdateId = true
    · simp [hcont, followChain, Except.toOption]
    · simp [hcont, Except.toOption]
  | cons next rest ih =>
    rw [List.cons_append]
    unfold followChain
    by_cases hcont : sequenceContinues previous next.previousFinalUpdateId = true
    · rw [if_pos hcont, if_pos hcont]
      exact ih next.finalUpdateId
    · rw [if_neg hcont, if_neg hcont]
      rfl

theorem settledAt_of_nil (hnil : reachingSpans lastUpdateId spans = []) :
    settledAt lastUpdateId spans = none := by
  unfold settledAt
  rw [hnil]

/-- One span more, behind a snapshot that a span has reached. -/
theorem settledAt_snoc_cons (hsome : reachingSpans lastUpdateId spans ≠ []) :
    settledAt lastUpdateId (spans ++ [span]) =
      (settledAt lastUpdateId spans).bind fun last =>
        if sequenceContinues last span.previousFinalUpdateId then some span.finalUpdateId
        else none := by
  unfold settledAt
  rw [reachingSpans_snoc_cons hsome]
  cases hreaching : reachingSpans lastUpdateId spans with
  | nil => exact absurd hreaching hsome
  | cons first rest =>
    dsimp only [List.cons_append]
    by_cases hpast : lastUpdateId < first.firstUpdateId
    · rw [if_pos hpast, if_pos hpast]
      rfl
    · rw [if_neg hpast, if_neg hpast]
      exact followChain_snoc _ rest

theorem settledAt_append_none (hsome : reachingSpans lastUpdateId spans ≠ [])
    (hnone : settledAt lastUpdateId spans = none) :
    settledAt lastUpdateId (spans ++ [span]) = none := by
  rw [settledAt_snoc_cons hsome, hnone]
  rfl

/-- A buffer splits at the first span that reaches the snapshot. -/
theorem reachingSpans_split (hsome : reachingSpans lastUpdateId spans ≠ []) :
    ∃ old first rest, spans = old ++ first :: rest ∧
      (∀ span ∈ old, span.finalUpdateId < lastUpdateId) ∧ lastUpdateId ≤ first.finalUpdateId ∧
      reachingSpans lastUpdateId spans = first :: rest := by
  cases reaching_cases UpdateSpan.finalUpdateId lastUpdateId spans with
  | inl hall => exact absurd (reachingSpans_eq_nil.mpr hall) hsome
  | inr hreached =>
    obtain ⟨old, first, rest, hsplit, hold, hfirst⟩ := hreached
    refine ⟨old, first, rest, hsplit, hold, hfirst, ?_⟩
    have hnil : reachingSpans lastUpdateId old = [] := reachingSpans_eq_nil.mpr hold
    unfold reachingSpans at hnil ⊢
    rw [hsplit, List.dropWhile_append, hnil]
    simp [hfirst]

end Settled

/-! ## The tracker -/

/-- The tracker once it has had the snapshot, and the spans received in all. -/
inductive TrackerAfter (lastUpdateId : Int) (received : List UpdateSpan) :
    SnapshotBridgeTracker → Prop where
  | waiting {tracker : SnapshotBridgeTracker} (hnil : reachingSpans lastUpdateId received = [])
      (hprevious : tracker.previousUpdateId = none)
      (hsnapshot : tracker.snapshotLastUpdateId = some lastUpdateId)
      (hpending : tracker.pending = []) : TrackerAfter lastUpdateId received tracker
  | lost {tracker : SnapshotBridgeTracker} (hsome : reachingSpans lastUpdateId received ≠ [])
      (hnone : settledAt lastUpdateId received = none)
      (hprevious : tracker.previousUpdateId = none)
      (hsnapshot : tracker.snapshotLastUpdateId = none) : TrackerAfter lastUpdateId received tracker
  | bridged {tracker : SnapshotBridgeTracker} (last : Int)
      (hsettled : settledAt lastUpdateId received = some last)
      (hprevious : tracker.previousUpdateId = some last) :
      TrackerAfter lastUpdateId received tracker

section Tracker
variable {lastUpdateId : Int} {received : List UpdateSpan} {tracker : SnapshotBridgeTracker}
  {span : UpdateSpan}

theorem TrackerAfter.isBridged_iff (h : TrackerAfter lastUpdateId received tracker) :
    tracker.isBridged = (settledAt lastUpdateId received).isSome := by
  unfold isBridged
  cases h with
  | waiting hnil hprevious => rw [hprevious, settledAt_of_nil hnil]
  | lost _ hnone hprevious => rw [hprevious, hnone]
  | bridged last hsettled hprevious => rw [hprevious, hsettled]

theorem reachingSpans_ne_nil {last : Int} (h : settledAt lastUpdateId received = some last) :
    reachingSpans lastUpdateId received ≠ [] := by
  intro hnil
  rw [settledAt_of_nil hnil] at h
  cases h

/-- `_evaluate_snapshot` on a buffer in order that reaches the snapshot where all spans do. -/
theorem trackerAfter_evaluate (hprevious : tracker.previousUpdateId = none)
    (hsnapshot : tracker.snapshotLastUpdateId = some lastUpdateId)
    (hordered : tracker.pending.Pairwise fun a b => a.receiveSeq ≤ b.receiveSeq)
    (hsame : reachingSpans lastUpdateId received = reachingSpans lastUpdateId tracker.pending) :
    TrackerAfter lastUpdateId received tracker.evaluateSnapshot.1 := by
  by_cases hnil : reachingSpans lastUpdateId tracker.pending = []
  · rw [(evaluateSnapshot_waiting tracker hsnapshot (reachingSpans_eq_nil.mp hnil)).1]
    exact .waiting (hsame.trans hnil) hprevious hsnapshot rfl
  · have hsome : reachingSpans lastUpdateId received ≠ [] := by rwa [hsame]
    obtain ⟨old, first, rest, hsplit, hold, hfirst, hreaching⟩ := reachingSpans_split hnil
    have hord := (orderByReceiveSeq_of_pairwise hordered).trans hsplit
    have hsettled : settledAt lastUpdateId received =
        if lastUpdateId < first.firstUpdateId then none
        else (followChain first.finalUpdateId rest).toOption := by
      unfold settledAt
      rw [hsame, hreaching]
    by_cases hpast : lastUpdateId < first.firstUpdateId
    · rw [if_pos hpast] at hsettled
      rw [(evaluateSnapshot_stale tracker hsnapshot hord hold hfirst hpast).1]
      exact .lost hsome hsettled hprevious rfl
    · rw [if_neg hpast] at hsettled
      have hover := Int.not_lt.mp hpast
      cases hchain : followChain first.finalUpdateId rest with
      | ok last =>
        rw [hchain] at hsettled
        rw [(evaluateSnapshot_bridged tracker hsnapshot hord hold hfirst hover hchain).1]
        exact .bridged last hsettled rfl
      | error broken =>
        obtain ⟨expected, next, after⟩ := broken
        rw [hchain] at hsettled
        rw [(evaluateSnapshot_gap tracker hsnapshot hord hold hfirst hover hchain).1]
        exact .lost hsome hsettled hprevious rfl

theorem TrackerAfter.onDiff (h : TrackerAfter lastUpdateId received tracker) :
    TrackerAfter lastUpdateId (received ++ [span]) (tracker.onDiff span).1 := by
  cases h with
  | waiting hnil hprevious hsnapshot hpending =>
    have hroom : tracker.pending.length < tracker.maximumBufferedEvents := by
      rw [hpending]
      exact tracker.maximum_pos
    rw [Observers.onDiff_unbridged hprevious hroom, hpending]
    apply trackerAfter_evaluate
    · exact hprevious
    · exact hsnapshot
    · exact List.pairwise_singleton _ _
    · rw [reachingSpans_snoc_nil hnil]
      have hempty : reachingSpans lastUpdateId [] = [] := rfl
      exact (reachingSpans_snoc_nil hempty).symm
  | lost hsome hnone hprevious hsnapshot =>
    have hkept : (tracker.onDiff span).1.previousUpdateId = none ∧
        (tracker.onDiff span).1.snapshotLastUpdateId = none := by
      unfold SnapshotBridgeTracker.onDiff
      rw [hprevious]
      dsimp only
      rw [evaluateSnapshot_none]
      · exact ⟨rfl, hsnapshot⟩
      · exact hsnapshot
    refine .lost ?_ (settledAt_append_none hsome hnone) hkept.1 hkept.2
    rw [reachingSpans_snoc_cons hsome]
    exact List.append_ne_nil_of_left_ne_nil hsome _
  | bridged last hsettled hprevious =>
    have hsome := reachingSpans_ne_nil hsettled
    have hnext : settledAt lastUpdateId (received ++ [span]) = _ := settledAt_snoc_cons hsome
    rw [hsettled, Option.bind_some] at hnext
    unfold SnapshotBridgeTracker.onDiff
    simp only [hprevious]
    by_cases hcont : sequenceContinues last span.previousFinalUpdateId = true
    · rw [if_pos hcont] at hnext ⊢
      exact .bridged span.finalUpdateId hnext rfl
    · rw [if_neg hcont] at hnext ⊢
      refine .lost ?_ hnext rfl rfl
      rw [reachingSpans_snoc_cons hsome]
      exact List.append_ne_nil_of_left_ne_nil hsome _

end Tracker

/-! ## The book -/

/-- The diffs from the first one that reaches the snapshot. -/
def reachingDiffs (lastUpdateId : Int) (diffs : List DepthDiff) : List DepthDiff :=
  diffs.dropWhile fun diff => diff.finalUpdateId < lastUpdateId

/-- The book once it has had the snapshot, and the new diffs it received in all. -/
inductive BookAfter (snapshot : DepthSnapshot) (received : List DepthDiff) :
    ConnectionBook → Prop where
  | waiting {book : ConnectionBook} (hnil : reachingDiffs snapshot.lastUpdateId received = [])
      (hstate : book.state ≠ .valid)
      (hanchor : book.anchorLastUpdateId = some snapshot.lastUpdateId)
      (hreceived : book.anchorReceivedNs = some snapshot.receivedNs)
      (hbids : book.bids = bookSide snapshot.bids) (hasks : book.asks = bookSide snapshot.asks)
      (hsub : book.pending.Sublist received) :
      BookAfter snapshot received book
  | overshot {book : ConnectionBook} (hsome : reachingDiffs snapshot.lastUpdateId received ≠ [])
      (hnone : settledAt snapshot.lastUpdateId (received.map DepthDiff.span) = none)
      (hstate : book.state ≠ .valid)
      (hanchor : book.anchorLastUpdateId = some snapshot.lastUpdateId)
      (hreceived : book.anchorReceivedNs = some snapshot.receivedNs)
      (old : List DepthDiff) (first : DepthDiff) (rest : List DepthDiff)
      (hpending : book.pending = old ++ first :: rest)
      (hold : ∀ diff ∈ old, diff.finalUpdateId < snapshot.lastUpdateId)
      (hfirst : snapshot.lastUpdateId ≤ first.finalUpdateId)
      (hpast : snapshot.lastUpdateId < first.firstUpdateId)
      (hsub : book.pending.Sublist received) :
      BookAfter snapshot received book
  | lost {book : ConnectionBook} (hsome : reachingDiffs snapshot.lastUpdateId received ≠ [])
      (hnone : settledAt snapshot.lastUpdateId (received.map DepthDiff.span) = none)
      (hstate : book.state ≠ .valid) (hanchor : book.anchorLastUpdateId = none) :
      BookAfter snapshot received book
  | bridged {book : ConnectionBook} (last : Int)
      (hsettled : settledAt snapshot.lastUpdateId (received.map DepthDiff.span) = some last)
      (hstate : book.state = .valid) (hprevious : book.previousUpdateId = some last)
      (hbids : book.bids = (reachingDiffs snapshot.lastUpdateId received).foldl
        (fun side diff => applyLevels side diff.bids) (bookSide snapshot.bids))
      (hasks : book.asks = (reachingDiffs snapshot.lastUpdateId received).foldl
        (fun side diff => applyLevels side diff.asks) (bookSide snapshot.asks)) :
      BookAfter snapshot received book

section Book
variable {snapshot : DepthSnapshot} {received : List DepthDiff} {book : ConnectionBook}
  {diff : DepthDiff}

theorem reachingDiffs_map (lastUpdateId : Int) (diffs : List DepthDiff) :
    reachingSpans lastUpdateId (diffs.map DepthDiff.span) =
      (reachingDiffs lastUpdateId diffs).map DepthDiff.span := by
  unfold reachingSpans reachingDiffs
  rw [List.dropWhile_map]
  rfl

theorem reachingDiffs_eq_nil {lastUpdateId : Int} {diffs : List DepthDiff} :
    reachingDiffs lastUpdateId diffs = [] ↔ ∀ diff ∈ diffs, diff.finalUpdateId < lastUpdateId := by
  unfold reachingDiffs
  rw [List.dropWhile_eq_nil_iff]
  simp only [decide_eq_true_eq]

theorem reachingDiffs_snoc_nil {lastUpdateId : Int}
    (hnil : reachingDiffs lastUpdateId received = []) (diff : DepthDiff) :
    reachingDiffs lastUpdateId (received ++ [diff]) =
      if diff.finalUpdateId < lastUpdateId then [] else [diff] := by
  unfold reachingDiffs at hnil ⊢
  rw [List.dropWhile_append, hnil]
  by_cases hbefore : diff.finalUpdateId < lastUpdateId
  · simp [hbefore]
  · simp [hbefore]

theorem reachingDiffs_snoc_cons {lastUpdateId : Int}
    (hsome : reachingDiffs lastUpdateId received ≠ []) :
    reachingDiffs lastUpdateId (received ++ [diff]) =
      reachingDiffs lastUpdateId received ++ [diff] := by
  unfold reachingDiffs at hsome ⊢
  rw [List.dropWhile_append, if_neg]
  rwa [List.isEmpty_iff]

theorem reachingDiffs_split {lastUpdateId : Int} {diffs : List DepthDiff}
    (hsome : reachingDiffs lastUpdateId diffs ≠ []) :
    ∃ old first rest, diffs = old ++ first :: rest ∧
      (∀ diff ∈ old, diff.finalUpdateId < lastUpdateId) ∧ lastUpdateId ≤ first.finalUpdateId ∧
      reachingDiffs lastUpdateId diffs = first :: rest := by
  cases reaching_cases DepthDiff.finalUpdateId lastUpdateId diffs with
  | inl hall => exact absurd (reachingDiffs_eq_nil.mpr hall) hsome
  | inr hreached =>
    obtain ⟨old, first, rest, hsplit, hold, hfirst⟩ := hreached
    refine ⟨old, first, rest, hsplit, hold, hfirst, ?_⟩
    have hnil : reachingDiffs lastUpdateId old = [] := reachingDiffs_eq_nil.mpr hold
    unfold reachingDiffs at hnil ⊢
    rw [hsplit, List.dropWhile_append, hnil]
    simp [hfirst]

theorem settledAt_map {lastUpdateId : Int} {first : DepthDiff} {rest : List DepthDiff}
    (hreaching : reachingDiffs lastUpdateId received = first :: rest) :
    settledAt lastUpdateId (received.map DepthDiff.span) =
      if lastUpdateId < first.firstUpdateId then none
      else (followChain first.finalUpdateId (rest.map DepthDiff.span)).toOption := by
  unfold settledAt
  rw [reachingDiffs_map, hreaching]
  rfl

theorem settledAt_snoc {lastUpdateId : Int} (hsome : reachingDiffs lastUpdateId received ≠ []) :
    settledAt lastUpdateId ((received ++ [diff]).map DepthDiff.span) =
      (settledAt lastUpdateId (received.map DepthDiff.span)).bind fun last =>
        if sequenceContinues last diff.previousFinalUpdateId then some diff.finalUpdateId
        else none := by
  have hspans : reachingSpans lastUpdateId (received.map DepthDiff.span) ≠ [] := by
    rw [reachingDiffs_map]
    exact mt List.map_eq_nil_iff.mp hsome
  rw [List.map_append]
  exact settledAt_snoc_cons hspans

theorem settledAt_snoc_none {lastUpdateId : Int}
    (hsome : reachingDiffs lastUpdateId received ≠ [])
    (hnone : settledAt lastUpdateId (received.map DepthDiff.span) = none) (diff : DepthDiff) :
    reachingDiffs lastUpdateId (received ++ [diff]) ≠ [] ∧
      settledAt lastUpdateId ((received ++ [diff]).map DepthDiff.span) = none := by
  rw [settledAt_snoc hsome, hnone, reachingDiffs_snoc_cons hsome]
  exact ⟨List.append_ne_nil_of_left_ne_nil hsome _, rfl⟩

/-- `_try_bridge` on a buffer in order that reaches the snapshot where all diffs do. -/
theorem bookAfter_tryBridge (hstate : book.state ≠ .valid)
    (hanchor : book.anchorLastUpdateId = some snapshot.lastUpdateId)
    (hreceived : book.anchorReceivedNs = some snapshot.receivedNs)
    (hbids : book.bids = bookSide snapshot.bids) (hasks : book.asks = bookSide snapshot.asks)
    (hordered : book.pending.Pairwise fun a b => a.receiveSeq ≤ b.receiveSeq)
    (hsame : reachingDiffs snapshot.lastUpdateId received =
      reachingDiffs snapshot.lastUpdateId book.pending) :
    ∃ after change, book.tryBridge = .ok (after, change) ∧ BookAfter snapshot received after ∧
      after.seenDiffs = book.seenDiffs := by
  by_cases hnil : reachingDiffs snapshot.lastUpdateId book.pending = []
  · refine ⟨_, _, book.tryBridge_waiting hanchor hreceived (reachingDiffs_eq_nil.mp hnil), ?_, rfl⟩
    exact .waiting (hsame.trans hnil) hstate hanchor hreceived hbids hasks (List.nil_sublist _)
  · have hsome : reachingDiffs snapshot.lastUpdateId received ≠ [] := by rwa [hsame]
    obtain ⟨old, first, rest, hsplit, hold, hfirst, hreaching⟩ := reachingDiffs_split hnil
    have hord := (orderByReceiveSeq_of_pairwise hordered).trans hsplit
    have hreaching := hsame.trans hreaching
    have hsettled := settledAt_map hreaching
    by_cases hpast : snapshot.lastUpdateId < first.firstUpdateId
    · rw [if_pos hpast] at hsettled
      refine ⟨_, _, book.tryBridge_stale hanchor hreceived hord hold hfirst hpast, ?_, rfl⟩
      exact .lost hsome hsettled hstate rfl
    · rw [if_neg hpast] at hsettled
      have hover := Int.not_lt.mp hpast
      cases hchain : followChain first.finalUpdateId (rest.map DepthDiff.span) with
      | ok last =>
        rw [hchain] at hsettled
        obtain ⟨hbook, hlast⟩ := book.tryBridge_bridged hanchor hreceived hord hold hfirst hover
          hchain
        refine ⟨_, _, hbook, .bridged last hsettled rfl hlast ?_ ?_, ?_⟩
        · rw [hreaching, ConnectionBook.foldl_apply_eq, hbids]
        · rw [hreaching, ConnectionBook.foldl_apply_eq, hasks]
        · rw [ConnectionBook.foldl_apply_eq]
      | error broken =>
        rw [hchain] at hsettled
        obtain ⟨_, next, _, -, -, hbook⟩ := book.tryBridge_broken hanchor hreceived hord hold
          hfirst hover hchain
        exact ⟨_, _, hbook, .lost hsome hsettled nofun rfl, rfl⟩

theorem BookAfter.onDiff (h : BookAfter snapshot received book)
    (hnew : diff.identity ∉ book.seenDiffs)
    (hordered : (received ++ [diff]).Pairwise fun a b => a.receiveSeq ≤ b.receiveSeq) :
    ∃ after change, book.onDiff diff = .ok (after, change) ∧
      BookAfter snapshot (received ++ [diff]) after ∧
      after.seenDiffs = diff.identity :: book.seenDiffs := by
  cases h with
  | waiting hnil hstate hanchor hreceived hbids hasks hsub =>
    have hbuffered : (book.pending ++ [diff]).Sublist (received ++ [diff]) :=
      hsub.append_right [diff]
    have hbefore : reachingDiffs snapshot.lastUpdateId book.pending = [] :=
      reachingDiffs_eq_nil.mpr fun d hd => reachingDiffs_eq_nil.mp hnil d (hsub.subset hd)
    by_cases hover : diff.overlaps snapshot.lastUpdateId = true
    · rw [ConnectionBook.onDiff_tries hnew hstate fun anchor hsome => by
        rw [hanchor] at hsome
        cases hsome
        exact hover]
      have hsame :=
        (reachingDiffs_snoc_nil hnil diff).trans (reachingDiffs_snoc_nil hbefore diff).symm
      exact bookAfter_tryBridge hstate hanchor hreceived hbids hasks (hordered.sublist hbuffered)
        hsame
    · refine ⟨_, _, ConnectionBook.onDiff_buffers hnew hstate hanchor hover, ?_, rfl⟩
      have hsnoc := reachingDiffs_snoc_nil hnil diff
      by_cases hshort : diff.finalUpdateId < snapshot.lastUpdateId
      · rw [if_pos hshort] at hsnoc
        exact .waiting hsnoc hstate hanchor hreceived hbids hasks hbuffered
      · rw [if_neg hshort] at hsnoc
        have hreaches := Int.not_lt.mp hshort
        have hpast : snapshot.lastUpdateId < diff.firstUpdateId := by
          simp only [DepthDiff.overlaps, Bool.and_eq_true, decide_eq_true_eq] at hover
          omega
        have hsome : reachingDiffs snapshot.lastUpdateId (received ++ [diff]) ≠ [] := by
          rw [hsnoc]
          exact List.cons_ne_nil _ _
        exact .overshot hsome ((settledAt_map hsnoc).trans (if_pos hpast)) hstate hanchor hreceived
          book.pending diff [] rfl (reachingDiffs_eq_nil.mp hbefore) hreaches hpast hbuffered
  | overshot hsome hnone hstate hanchor hreceived old first rest hpending hold hfirst hpast hsub =>
    obtain ⟨hsome', hnone'⟩ := settledAt_snoc_none hsome hnone diff
    have hbuffered : (book.pending ++ [diff]).Sublist (received ++ [diff]) :=
      hsub.append_right [diff]
    have hsplit : book.pending ++ [diff] = old ++ first :: (rest ++ [diff]) := by
      rw [hpending, List.append_assoc]
      rfl
    by_cases hover : diff.overlaps snapshot.lastUpdateId = true
    · rw [ConnectionBook.onDiff_tries hnew hstate fun anchor hsome => by
        rw [hanchor] at hsome
        cases hsome
        exact hover]
      have hord := (orderByReceiveSeq_of_pairwise (hordered.sublist hbuffered)).trans hsplit
      exact ⟨_, _, ConnectionBook.tryBridge_stale _ hanchor hreceived hord hold hfirst hpast,
        .lost hsome' hnone' hstate rfl, rfl⟩
    · exact ⟨_, _, ConnectionBook.onDiff_buffers hnew hstate hanchor hover,
        .overshot hsome' hnone' hstate hanchor hreceived old first (rest ++ [diff]) hsplit hold
          hfirst hpast hbuffered, rfl⟩
  | lost hsome hnone hstate hanchor =>
    obtain ⟨hsome', hnone'⟩ := settledAt_snoc_none hsome hnone diff
    rw [ConnectionBook.onDiff_tries hnew hstate fun anchor hsome => by
      rw [hanchor] at hsome
      cases hsome]
    exact ⟨_, _, ConnectionBook.tryBridge_none _ hanchor, .lost hsome' hnone' hstate hanchor, rfl⟩
  | bridged last hsettled hstate hprevious hbids hasks =>
    have hsome : reachingDiffs snapshot.lastUpdateId received ≠ [] := by
      intro hnil
      apply reachingSpans_ne_nil hsettled
      rw [reachingDiffs_map, hnil]
      rfl
    have hreaching : reachingDiffs snapshot.lastUpdateId (received ++ [diff]) = _ :=
      reachingDiffs_snoc_cons hsome
    have hnext : settledAt _ ((received ++ [diff]).map DepthDiff.span) = _ :=
      settledAt_snoc hsome
    rw [hsettled, Option.bind_some] at hnext
    by_cases hcont : sequenceContinues last diff.previousFinalUpdateId = true
    · rw [if_pos hcont] at hnext
      refine ⟨_, _, ConnectionBook.onDiff_continues hnew hstate hprevious hcont,
        .bridged diff.finalUpdateId hnext hstate rfl ?_ ?_, rfl⟩
      · rw [hreaching, List.foldl_append, ← hbids]
        rfl
      · rw [hreaching, List.foldl_append, ← hasks]
        rfl
    · rw [if_neg hcont] at hnext
      refine ⟨_, _, ConnectionBook.onDiff_breaks hnew hstate hprevious hcont,
        .lost ?_ hnext ?_ rfl, rfl⟩
      · rw [hreaching]
        exact List.append_ne_nil_of_left_ne_nil hsome _
      · intro hvalid
        cases hvalid

end Book

/-! ## Both of them on one connection -/

/-- The diffs that the book takes as new. -/
def heard (received : List DepthDiff) (diff : DepthDiff) : List DepthDiff :=
  if diff.identity ∈ received.map DepthDiff.identity then received else received ++ [diff]

def newDiffs (diffs : List DepthDiff) : List DepthDiff := diffs.foldl heard []

theorem newDiffs_snoc (diffs : List DepthDiff) (diff : DepthDiff) :
    newDiffs (diffs ++ [diff]) = heard (newDiffs diffs) diff := by
  unfold newDiffs
  rw [List.foldl_append]
  rfl

theorem newDiffs_sublist (diffs : List DepthDiff) : (newDiffs diffs).Sublist diffs := by
  induction diffs using List.reverseRecOn with
  | nil => exact List.Sublist.refl []
  | append_singleton diffs diff ih =>
    rw [newDiffs_snoc]
    unfold heard
    by_cases hseen : diff.identity ∈ (newDiffs diffs).map DepthDiff.identity
    · rw [if_pos hseen]
      exact ih.trans (List.sublist_append_left diffs [diff])
    · rw [if_neg hseen]
      exact ih.append_right [diff]

/-- The book remembers what it has taken as new. -/
def SeenExactly (book : ConnectionBook) (received : List DepthDiff) : Prop :=
  ∀ identity, identity ∈ book.seenDiffs ↔ identity ∈ received.map DepthDiff.identity

/-- Both consumers before the snapshot. -/
structure BeforeSnapshot (maximum : Nat) (diffs : List DepthDiff) (o : Observers) : Prop where
  maximum_eq : o.tracker.maximumBufferedEvents = maximum
  trackerPrevious : o.tracker.previousUpdateId = none
  trackerSnapshot : o.tracker.snapshotLastUpdateId = none
  trackerPending : o.tracker.pending = diffs.map DepthDiff.span
  state : o.book.state ≠ .valid
  anchor : o.book.anchorLastUpdateId = none
  pending : o.book.pending = newDiffs diffs
  seen : SeenExactly o.book (newDiffs diffs)

/-- Both consumers once they have had the snapshot. -/
structure AfterSnapshot (snapshot : DepthSnapshot) (diffs : List DepthDiff) (o : Observers) :
    Prop where
  tracker : TrackerAfter snapshot.lastUpdateId (diffs.map DepthDiff.span) o.tracker
  book : BookAfter snapshot (newDiffs diffs) o.book
  seen : SeenExactly o.book (newDiffs diffs)

section Runs
variable {maximum : Nat} {snapshot : DepthSnapshot} {diffs : List DepthDiff} {diff : DepthDiff}
  {o : Observers}

theorem SeenExactly.snoc {before after : ConnectionBook} {received : List DepthDiff}
    (h : SeenExactly before received) (hseen : after.seenDiffs = diff.identity :: before.seenDiffs) :
    SeenExactly after (received ++ [diff]) := by
  intro identity
  rw [hseen, List.mem_cons, h identity, List.map_append, List.mem_append]
  exact or_comm.trans (or_congr_right List.mem_singleton.symm)

theorem feed_diff {book : ConnectionBook} {change : Option StateChange}
    (h : o.book.onDiff diff = .ok (book, change)) :
    o.feed (.diff diff) = .ok { tracker := (o.tracker.onDiff diff.span).1, book } := by
  unfold Observers.feed
  dsimp only
  rw [h]
  rfl

theorem BeforeSnapshot.feed (h : BeforeSnapshot maximum diffs o)
    (hroom : diffs.length < maximum) (diff : DepthDiff) :
    ∃ after, o.feed (.diff diff) = .ok after ∧ BeforeSnapshot maximum (diffs ++ [diff]) after := by
  have htracker : (o.tracker.onDiff diff.span).1 =
      { o.tracker with pending := o.tracker.pending ++ [diff.span] } := by
    apply Observers.onDiff_unanchored h.trackerPrevious h.trackerSnapshot
    rw [h.trackerPending, h.maximum_eq, List.length_map]
    exact hroom
  have hpending : o.tracker.pending ++ [diff.span] = (diffs ++ [diff]).map DepthDiff.span := by
    rw [h.trackerPending, List.map_append]
    rfl
  by_cases hnew : diff.identity ∈ o.book.seenDiffs
  · refine ⟨_, feed_diff (ConnectionBook.onDiff_seen hnew), ?_⟩
    have hheard : newDiffs (diffs ++ [diff]) = newDiffs diffs :=
      (newDiffs_snoc diffs diff).trans (if_pos ((h.seen _).mp hnew))
    rw [htracker]
    exact ⟨h.maximum_eq, h.trackerPrevious, h.trackerSnapshot, hpending, h.state, h.anchor,
      hheard ▸ h.pending, hheard ▸ h.seen⟩
  · have hheard : newDiffs (diffs ++ [diff]) = newDiffs diffs ++ [diff] :=
      (newDiffs_snoc diffs diff).trans (if_neg fun hm => hnew ((h.seen _).mpr hm))
    have hbook : o.book.onDiff diff = .ok ((o.book.remember diff).buffer diff, none) := by
      rw [ConnectionBook.onDiff_tries hnew h.state fun anchor hsome => by
        rw [h.anchor] at hsome
        cases hsome]
      exact ConnectionBook.tryBridge_none _ h.anchor
    refine ⟨_, feed_diff hbook, ?_⟩
    rw [htracker]
    refine ⟨h.maximum_eq, h.trackerPrevious, h.trackerSnapshot, hpending, h.state, h.anchor, ?_, ?_⟩
    · rw [hheard, ← h.pending]
      rfl
    · rw [hheard]
      exact h.seen.snoc rfl

theorem BeforeSnapshot.take (h : BeforeSnapshot maximum diffs o)
    (hordered : diffs.Pairwise fun a b => a.receiveSeq ≤ b.receiveSeq) :
    ∃ after, o.feed (.snapshot snapshot) = .ok after ∧ AfterSnapshot snapshot diffs after := by
  obtain ⟨book, change, hbook, hafter, hseen⟩ :
      ∃ after change, (o.book.anchorAt snapshot).tryBridge = .ok (after, change) ∧
        BookAfter snapshot (newDiffs diffs) after ∧
        after.seenDiffs = (o.book.anchorAt snapshot).seenDiffs := by
    have hpending : (o.book.anchorAt snapshot).pending = newDiffs diffs := h.pending
    apply bookAfter_tryBridge
    · exact h.state
    · rfl
    · rfl
    · rfl
    · rfl
    · rw [hpending]
      exact hordered.sublist (newDiffs_sublist diffs)
    · rw [hpending]
  refine ⟨{ tracker := (o.tracker.onSnapshot snapshot.lastUpdateId).1, book }, ?_, ?_, hafter, ?_⟩
  · unfold Observers.feed ConnectionBook.onSnapshot
    dsimp only
    rw [hbook]
    rfl
  · apply trackerAfter_evaluate
    · rfl
    · rfl
    · dsimp only
      rw [h.trackerPending, List.pairwise_map]
      exact hordered
    · dsimp only
      rw [h.trackerPending]
  · intro identity
    rw [hseen]
    exact h.seen identity

theorem AfterSnapshot.feed (h : AfterSnapshot snapshot diffs o)
    (hordered : (diffs ++ [diff]).Pairwise fun a b => a.receiveSeq ≤ b.receiveSeq) :
    ∃ after, o.feed (.diff diff) = .ok after ∧ AfterSnapshot snapshot (diffs ++ [diff]) after := by
  have htracker : TrackerAfter snapshot.lastUpdateId ((diffs ++ [diff]).map DepthDiff.span)
      (o.tracker.onDiff diff.span).1 := by
    rw [List.map_append]
    exact h.tracker.onDiff
  by_cases hnew : diff.identity ∈ o.book.seenDiffs
  · have hheard : newDiffs (diffs ++ [diff]) = newDiffs diffs :=
      (newDiffs_snoc diffs diff).trans (if_pos ((h.seen _).mp hnew))
    exact ⟨_, feed_diff (ConnectionBook.onDiff_seen hnew), htracker, hheard ▸ h.book,
      hheard ▸ h.seen⟩
  · have hheard : newDiffs (diffs ++ [diff]) = newDiffs diffs ++ [diff] :=
      (newDiffs_snoc diffs diff).trans (if_neg fun hm => hnew ((h.seen _).mpr hm))
    obtain ⟨book, change, hbook, hafter, hseen⟩ := h.book.onDiff hnew
      (hordered.sublist ((newDiffs_sublist diffs).append_right [diff]))
    refine ⟨_, feed_diff hbook, htracker, ?_, ?_⟩
    · rw [hheard]
      exact hafter
    · rw [hheard]
      exact h.seen.snoc hseen

/-- What a book that has had the snapshot comes to depends on the diffs alone. -/
theorem BookAfter.outcome {received : List DepthDiff} {book : ConnectionBook}
    (h : BookAfter snapshot received book) :
    (book.state = .valid ↔
        settledAt snapshot.lastUpdateId (received.map DepthDiff.span) ≠ none) ∧
      (book.state = .valid →
        book.previousUpdateId =
            settledAt snapshot.lastUpdateId (received.map DepthDiff.span) ∧
          book.bids = (reachingDiffs snapshot.lastUpdateId received).foldl
            (fun side diff => applyLevels side diff.bids) (bookSide snapshot.bids) ∧
          book.asks = (reachingDiffs snapshot.lastUpdateId received).foldl
            (fun side diff => applyLevels side diff.asks) (bookSide snapshot.asks)) := by
  cases h with
  | waiting hnil hstate =>
    have hspans : reachingSpans snapshot.lastUpdateId (received.map DepthDiff.span) = [] := by
      rw [reachingDiffs_map, hnil]
      rfl
    exact ⟨iff_of_false hstate (not_not.mpr (settledAt_of_nil hspans)), fun h => absurd h hstate⟩
  | overshot _ hnone hstate =>
    exact ⟨iff_of_false hstate (not_not.mpr hnone), fun h => absurd h hstate⟩
  | lost _ hnone hstate =>
    exact ⟨iff_of_false hstate (not_not.mpr hnone), fun h => absurd h hstate⟩
  | bridged last hsettled hstate hprevious hbids hasks =>
    rw [hsettled]
    exact ⟨iff_of_true hstate (Option.some_ne_none last), fun _ => ⟨hprevious, hbids, hasks⟩⟩

/-- The rows of a connection with a snapshot among its diffs. -/
def withSnapshot (before : List DepthDiff) (snapshot : DepthSnapshot) (after : List DepthDiff) :
    List DepthRow :=
  before.map .diff ++ .snapshot snapshot :: after.map .diff

theorem foldlM_feed_append {rows : List DepthRow} {row : DepthRow} {start middle : Observers}
    (h : rows.foldlM Observers.feed start = .ok middle) :
    (rows ++ [row]).foldlM Observers.feed start = middle.feed row := by
  rw [List.foldlM_append, h]
  exact bind_pure (middle.feed row)

theorem run_before {maximum : Nat} (hmax : 1 ≤ maximum) (connectionId : String)
    {before : List DepthDiff} (hlength : before.length ≤ maximum) :
    ∃ o, (before.map DepthRow.diff).foldlM Observers.feed
        (Observers.start maximum hmax connectionId) = .ok o ∧ BeforeSnapshot maximum before o := by
  induction before using List.reverseRecOn with
  | nil => exact ⟨_, rfl, rfl, rfl, rfl, rfl, nofun, rfl, rfl, fun _ => Iff.rfl⟩
  | append_singleton before diff ih =>
    rw [List.length_append, List.length_singleton] at hlength
    obtain ⟨o, hrun, hbefore⟩ := ih (by omega)
    obtain ⟨next, hfeed, hafter⟩ := hbefore.feed (by omega) diff
    rw [List.map_append]
    exact ⟨next, (foldlM_feed_append hrun).trans hfeed, hafter⟩

theorem run_withSnapshot {maximum : Nat} (hmax : 1 ≤ maximum) (connectionId : String)
    {before after : List DepthDiff} (hlength : before.length ≤ maximum)
    (hordered : (before ++ after).Pairwise fun a b => a.receiveSeq ≤ b.receiveSeq) :
    ∃ o, (withSnapshot before snapshot after).foldlM Observers.feed
        (Observers.start maximum hmax connectionId) = .ok o ∧
      AfterSnapshot snapshot (before ++ after) o := by
  induction after using List.reverseRecOn with
  | nil =>
    rw [List.append_nil] at hordered ⊢
    obtain ⟨o, hrun, hbefore⟩ := run_before hmax connectionId hlength
    obtain ⟨next, hfeed, hafter⟩ := hbefore.take hordered
    exact ⟨next, (foldlM_feed_append hrun).trans hfeed, hafter⟩
  | append_singleton after diff ih =>
    rw [← List.append_assoc] at hordered ⊢
    obtain ⟨o, hrun, hbefore⟩ := ih (hordered.sublist (List.sublist_append_left _ _))
    obtain ⟨next, hfeed, hafter⟩ := hbefore.feed hordered
    have hrows : withSnapshot before snapshot (after ++ [diff]) =
        withSnapshot before snapshot after ++ [.diff diff] := by
      unfold withSnapshot
      rw [List.map_append, List.append_assoc]
      rfl
    rw [hrows]
    exact ⟨next, (foldlM_feed_append hrun).trans hfeed, hafter⟩

/-- Wherever the snapshot comes in among diffs in `receive_seq` order, both consumers come to the
same end. -/
theorem same_end {maximum : Nat} (hmax : 1 ≤ maximum) (connectionId : String)
    (snapshot : DepthSnapshot) {diffs before after before' after' : List DepthDiff}
    (hlength : diffs.length ≤ maximum)
    (hordered : diffs.Pairwise fun a b => a.receiveSeq < b.receiveSeq)
    (hsplit : before ++ after = diffs) (hsplit' : before' ++ after' = diffs) :
    ∃ o o', (withSnapshot before snapshot after).foldlM Observers.feed
        (Observers.start maximum hmax connectionId) = .ok o ∧
      (withSnapshot before' snapshot after').foldlM Observers.feed
        (Observers.start maximum hmax connectionId) = .ok o' ∧
      (o.book.state = .valid ↔ o'.book.state = .valid) ∧
      (o.book.state = .valid → o.book.bids = o'.book.bids ∧ o.book.asks = o'.book.asks ∧
        o.book.previousUpdateId = o'.book.previousUpdateId) ∧
      o.tracker.isBridged = o'.tracker.isBridged := by
  have hweak : diffs.Pairwise fun a b => a.receiveSeq ≤ b.receiveSeq :=
    hordered.imp fun h => le_of_lt h
  have hrun : ∀ {before after : List DepthDiff}, before ++ after = diffs →
      ∃ o, (withSnapshot before snapshot after).foldlM Observers.feed
        (Observers.start maximum hmax connectionId) = .ok o ∧ AfterSnapshot snapshot diffs o := by
    intro before after hsplit
    subst hsplit
    rw [List.length_append] at hlength
    exact run_withSnapshot hmax connectionId (by omega) hweak
  obtain ⟨o, hok, hafter⟩ := hrun hsplit
  obtain ⟨o', hok', hafter'⟩ := hrun hsplit'
  obtain ⟨hvalid, hbook⟩ := hafter.book.outcome
  obtain ⟨hvalid', hbook'⟩ := hafter'.book.outcome
  have hiff := hvalid.trans hvalid'.symm
  refine ⟨o, o', hok, hok', hiff, fun hstate => ?_, ?_⟩
  · obtain ⟨hprevious, hbids, hasks⟩ := hbook hstate
    obtain ⟨hprevious', hbids', hasks'⟩ := hbook' (hiff.mp hstate)
    exact ⟨hbids.trans hbids'.symm, hasks.trans hasks'.symm, hprevious.trans hprevious'.symm⟩
  · exact hafter.tracker.isBridged_iff.trans hafter'.tracker.isBridged_iff.symm

/-- Two diffs that a snapshot bridges. -/
def contiguousDiffs : List DepthDiff :=
  [{  connectionId := "c", receiveSeq := 1, receivedNs := 1
      firstUpdateId := 1, finalUpdateId := 10, previousFinalUpdateId := 0, payloadHash := []
      bids := [], asks := [] },
    { connectionId := "c", receiveSeq := 2, receivedNs := 2
      firstUpdateId := 11, finalUpdateId := 20, previousFinalUpdateId := 10, payloadHash := []
      bids := [], asks := [] }]

theorem same_end_contiguousDiffs :
    ∃ o o', (withSnapshot [] ⟨"c", 3, 3, 5, [], []⟩ contiguousDiffs).foldlM Observers.feed
        (Observers.start 4096 (by decide) "c") = .ok o ∧
      (withSnapshot contiguousDiffs ⟨"c", 3, 3, 5, [], []⟩ []).foldlM Observers.feed
        (Observers.start 4096 (by decide) "c") = .ok o' ∧
      o.book.state = .valid ∧ o'.book.state = .valid ∧
      o.tracker.isBridged = o'.tracker.isBridged := by
  obtain ⟨o, o', hok, hok', hiff, -, hbridged⟩ :=
    same_end (by decide : 1 ≤ 4096) "c" ⟨"c", 3, 3, 5, [], []⟩
      (by decide : contiguousDiffs.length ≤ 4096) (by decide) (List.nil_append contiguousDiffs)
      (List.append_nil contiguousDiffs)
  have hvalid : o.book.state = .valid := by
    cases hok
    rfl
  exact ⟨o, o', hok, hok', hvalid, hiff.mp hvalid, hbridged⟩

end Runs

end MiryFormal
