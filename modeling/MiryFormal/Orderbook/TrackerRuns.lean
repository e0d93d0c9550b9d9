import MiryFormal.Orderbook.BridgeTracker
import Mathlib.Data.List.Chain
import Mathlib.Data.List.Perm.Subperm

/-!
# What a bridged tracker has seen

A sequence of `on_snapshot`, `on_diff` and `invalidate` calls on a fresh tracker. A bridged
tracker is a received snapshot with a chain of received spans: those that were buffered when it
bridged, by `receive_seq`, and all that came after, in the order in which they came.
-/

namespace MiryFormal

set_option autoImplicit false

inductive TrackerCall where
  | snapshot (lastUpdateId : Int)
  | diff (span : UpdateSpan)
  | invalidate
  deriving DecidableEq

def TrackerCall.span? : TrackerCall → Option UpdateSpan
  | .diff span => some span
  | _ => none

/-- `spans` lead from the snapshot to the update id `last`. -/
structure SpanChain (lastUpdateId : Int) (spans : List UpdateSpan) (last : Int) : Prop where
  overlap : ∃ first ∈ spans.head?, first.firstUpdateId ≤ lastUpdateId ∧
    lastUpdateId ≤ first.finalUpdateId
  continues : spans.IsChain fun a b => b.previousFinalUpdateId = a.finalUpdateId
  last_eq : spans.getLast?.map UpdateSpan.finalUpdateId = some last

theorem SpanChain.snoc {lastUpdateId last : Int} {spans : List UpdateSpan} {span : UpdateSpan}
    (h : SpanChain lastUpdateId spans last) (hcont : span.previousFinalUpdateId = last) :
    SpanChain lastUpdateId (spans ++ [span]) span.finalUpdateId := by
  obtain ⟨⟨first, hfirst, hover⟩, hchain, hlast⟩ := h
  refine ⟨⟨first, List.mem_head?_append_of_mem_head? hfirst, hover⟩, ?_, ?_⟩
  · apply List.isChain_append.mpr
    refine ⟨hchain, .singleton span, fun tail htail next hnext => ?_⟩
    rw [Option.mem_def.mp htail] at hlast
    cases hnext
    exact hcont.trans (Option.some.inj hlast).symm
  · rw [List.getLast?_concat]
    rfl

namespace SnapshotBridgeTracker

theorem spanChain_of_followChain {lastUpdateId last : Int} {first : UpdateSpan}
    {rest : List UpdateSpan} (hlow : first.firstUpdateId ≤ lastUpdateId)
    (hhigh : lastUpdateId ≤ first.finalUpdateId)
    (hchain : followChain first.finalUpdateId rest = .ok last) :
    SpanChain lastUpdateId (first :: rest) last := by
  suffices h : (first :: rest).IsChain (fun a b => b.previousFinalUpdateId = a.finalUpdateId) ∧
      (first :: rest).getLast?.map UpdateSpan.finalUpdateId = some last from
    ⟨⟨first, rfl, hlow, hhigh⟩, h.1, h.2⟩
  clear hlow hhigh
  induction rest generalizing first with
  | nil =>
    cases hchain
    exact ⟨.singleton first, rfl⟩
  | cons next rest ih =>
    unfold followChain at hchain
    by_cases hcont : sequenceContinues first.finalUpdateId next.previousFinalUpdateId = true
    · rw [if_pos hcont] at hchain
      obtain ⟨htail, hlast⟩ := ih hchain
      refine ⟨.cons_cons (beq_iff_eq.mp hcont) htail, ?_⟩
      rw [List.getLast?_cons_cons]
      exact hlast
    · rw [if_neg hcont] at hchain
      cases hchain

/-- A chain that does not hold up keeps a rest of the buffer. -/
theorem suffix_of_followChain {expected previous : Int} {span : UpdateSpan}
    {rest after : List UpdateSpan}
    (hchain : followChain previous rest = .error (expected, span, after)) :
    span :: after <:+ rest := by
  induction rest generalizing previous with
  | nil => cases hchain
  | cons next rest ih =>
    unfold followChain at hchain
    by_cases hcont : sequenceContinues previous next.previousFinalUpdateId = true
    · rw [if_pos hcont] at hchain
      exact (ih hchain).trans (List.suffix_cons next rest)
    · rw [if_neg hcont] at hchain
      cases hchain
      exact List.suffix_rfl

/-- What `_evaluate_snapshot` leaves of a tracker that is not bridged. -/
inductive Evaluated (tracker : SnapshotBridgeTracker) : SnapshotBridgeTracker → Prop where
  | waiting (kept : List UpdateSpan) (asked : Option Int) (hkept : kept.Subperm tracker.pending)
      (hasked : asked = none ∨ asked = tracker.snapshotLastUpdateId) :
      Evaluated tracker { tracker with pending := kept, snapshotLastUpdateId := asked }
  | bridged (lastUpdateId : Int) (buffered : List UpdateSpan) (last : Int)
      (hsnapshot : tracker.snapshotLastUpdateId = some lastUpdateId)
      (hbuffered : buffered.Subperm tracker.pending)
      (hordered : buffered.Pairwise fun a b => a.receiveSeq ≤ b.receiveSeq)
      (hchain : SpanChain lastUpdateId buffered last) :
      Evaluated tracker { tracker with
        pending := [], snapshotLastUpdateId := none, previousUpdateId := some last }

theorem evaluateSnapshot_evaluated (tracker : SnapshotBridgeTracker) :
    Evaluated tracker tracker.evaluateSnapshot.1 := by
  cases hsnapshot : tracker.snapshotLastUpdateId with
  | none =>
    rw [evaluateSnapshot_none tracker hsnapshot]
    exact .waiting tracker.pending tracker.snapshotLastUpdateId (.refl _) (.inr rfl)
  | some lastUpdateId =>
    cases reaching_cases UpdateSpan.finalUpdateId lastUpdateId
      (orderByReceiveSeq UpdateSpan.receiveSeq tracker.pending) with
    | inl hall =>
      have hpending : ∀ span ∈ tracker.pending, span.finalUpdateId < lastUpdateId :=
        fun span hm => hall span ((orderByReceiveSeq_perm _ _).mem_iff.mpr hm)
      rw [(evaluateSnapshot_waiting tracker hsnapshot hpending).1]
      exact .waiting [] tracker.snapshotLastUpdateId List.nil_subperm (.inr rfl)
    | inr hreached =>
      obtain ⟨old, first, rest, hord, hold, hfirst⟩ := hreached
      have hperm := orderByReceiveSeq_perm UpdateSpan.receiveSeq tracker.pending
      have hordered := orderByReceiveSeq_pairwise UpdateSpan.receiveSeq tracker.pending
      have hkept : ∀ kept, kept <:+ first :: rest → kept.Subperm tracker.pending := by
        intro kept hsuffix
        have hsublist := (hsuffix.trans (List.suffix_append old (first :: rest))).sublist
        rw [← hord] at hsublist
        exact hsublist.subperm.trans hperm.subperm
      rw [hord] at hordered
      by_cases hstale : lastUpdateId < first.firstUpdateId
      · rw [(evaluateSnapshot_stale tracker hsnapshot hord hold hfirst hstale).1]
        exact .waiting (first :: rest) none (hkept _ List.suffix_rfl) (.inl rfl)
      · have hover : first.firstUpdateId ≤ lastUpdateId := Int.not_lt.mp hstale
        cases hchain : followChain first.finalUpdateId rest with
        | ok last =>
          rw [(evaluateSnapshot_bridged tracker hsnapshot hord hold hfirst hover hchain).1]
          exact .bridged lastUpdateId (first :: rest) last hsnapshot (hkept _ List.suffix_rfl)
            (List.pairwise_append.mp hordered).2.1 (spanChain_of_followChain hover hfirst hchain)
        | error broken =>
          obtain ⟨expected, span, after⟩ := broken
          rw [(evaluateSnapshot_gap tracker hsnapshot hord hold hfirst hover hchain).1]
          refine .waiting (span :: after) none (hkept _ ?_) (.inl rfl)
          exact (suffix_of_followChain hchain).trans (List.suffix_cons first rest)

/-! ## Runs -/

def call (tracker : SnapshotBridgeTracker) : TrackerCall → SnapshotBridgeTracker
  | .snapshot lastUpdateId => (tracker.onSnapshot lastUpdateId).1
  | .diff span => (tracker.onDiff span).1
  | .invalidate => tracker.invalidate

/-- The tracker after calls on a fresh one. -/
def run (maximum : Nat) (hmaximum : 1 ≤ maximum) (calls : List TrackerCall) :
    SnapshotBridgeTracker :=
  calls.foldl call { maximumBufferedEvents := maximum, maximum_pos := hmaximum }

/-- The calls up to the bridge, the spans that it chained, and those that came after it. -/
structure BridgedBy (maximum : Nat) (hmaximum : 1 ≤ maximum) (calls : List TrackerCall)
    (last : Int) (before : List TrackerCall) (bridging : TrackerCall) (lastUpdateId : Int)
    (buffered after : List UpdateSpan) : Prop where
  calls_eq : calls = (before ++ [bridging]) ++ after.map .diff
  unbridged : (run maximum hmaximum before).isBridged = false
  bridged : (run maximum hmaximum (before ++ [bridging])).isBridged = true
  snapshot : .snapshot lastUpdateId ∈ before ++ [bridging]
  received : ∀ span ∈ buffered, .diff span ∈ before ++ [bridging]
  ordered : buffered.Pairwise fun a b => a.receiveSeq ≤ b.receiveSeq
  chain : SpanChain lastUpdateId (buffered ++ after) last

/-- What is known of a tracker that calls have led to. -/
structure Seen (maximum : Nat) (hmaximum : 1 ≤ maximum) (calls : List TrackerCall)
    (tracker : SnapshotBridgeTracker) : Prop where
  maximum_eq : tracker.maximumBufferedEvents = maximum
  bounded : tracker.pending.length ≤ maximum
  received : ∀ span ∈ tracker.pending, .diff span ∈ calls
  asked : ∀ lastUpdateId, tracker.snapshotLastUpdateId = some lastUpdateId →
    .snapshot lastUpdateId ∈ calls
  bridged : ∀ last, tracker.previousUpdateId = some last →
    tracker.pending = [] ∧ tracker.snapshotLastUpdateId = none ∧
      ∃ before bridging lastUpdateId buffered after,
        BridgedBy maximum hmaximum calls last before bridging lastUpdateId buffered after

section Runs
variable {maximum : Nat} {hmaximum : 1 ≤ maximum} {calls : List TrackerCall}
  {tracker : SnapshotBridgeTracker}

theorem run_snoc (calls : List TrackerCall) (next : TrackerCall) :
    run maximum hmaximum (calls ++ [next]) = (run maximum hmaximum calls).call next := by
  unfold run
  rw [List.foldl_append]
  rfl

theorem BridgedBy.snoc {last : Int} {before : List TrackerCall} {bridging : TrackerCall}
    {lastUpdateId : Int} {buffered after : List UpdateSpan} {span : UpdateSpan}
    (h : BridgedBy maximum hmaximum calls last before bridging lastUpdateId buffered after)
    (hcont : span.previousFinalUpdateId = last) :
    BridgedBy maximum hmaximum (calls ++ [.diff span]) span.finalUpdateId before bridging
      lastUpdateId buffered (after ++ [span]) := by
  refine ⟨?_, h.unbridged, h.bridged, h.snapshot, h.received, h.ordered, ?_⟩
  · rw [h.calls_eq, List.map_append, List.append_assoc]
    rfl
  · rw [← List.append_assoc]
    exact h.chain.snoc hcont

theorem Seen.unbridged (hmaximum_eq : tracker.maximumBufferedEvents = maximum)
    (hbounded : tracker.pending.length ≤ maximum)
    (hreceived : ∀ span ∈ tracker.pending, .diff span ∈ calls)
    (hasked : ∀ lastUpdateId, tracker.snapshotLastUpdateId = some lastUpdateId →
      .snapshot lastUpdateId ∈ calls)
    (hprevious : tracker.previousUpdateId = none) : Seen maximum hmaximum calls tracker := by
  refine ⟨hmaximum_eq, hbounded, hreceived, hasked, fun last hlast => ?_⟩
  rw [hprevious] at hlast
  cases hlast

/-- A call whose last act is `_evaluate_snapshot`. -/
theorem Seen.evaluate {next : TrackerCall} {before : SnapshotBridgeTracker}
    (hrun : (run maximum hmaximum (calls ++ [next])) = before.evaluateSnapshot.1)
    (h : Seen maximum hmaximum (calls ++ [next]) before) (hprevious : before.previousUpdateId = none)
    (hunbridged : before.pending = [] ∨ (run maximum hmaximum calls).isBridged = false) :
    Seen maximum hmaximum (calls ++ [next]) before.evaluateSnapshot.1 := by
  have hevaluated := evaluateSnapshot_evaluated before
  generalize before.evaluateSnapshot.1 = after at hevaluated hrun ⊢
  cases hevaluated with
  | waiting kept asked hkept hasked =>
    apply Seen.unbridged
    · exact h.maximum_eq
    · exact hkept.length_le.trans h.bounded
    · exact fun span hm => h.received span (hkept.subset hm)
    · intro lastUpdateId hsome
      cases hasked with
      | inl hnone => cases hnone.symm.trans hsome
      | inr hsame => exact h.asked lastUpdateId (hsame.symm.trans hsome)
    · exact hprevious
  | bridged lastUpdateId buffered last hsnapshot hbuffered hordered hchain =>
    refine ⟨h.maximum_eq, Nat.zero_le _, nofun, nofun, fun last' hlast => ?_⟩
    cases hlast
    refine ⟨rfl, rfl, calls, next, lastUpdateId, buffered, [], ?_, ?_, ?_, ?_, ?_, hordered, ?_⟩
    · exact (List.append_nil _).symm
    · cases hunbridged with
      | inr hfalse => exact hfalse
      | inl hnil =>
        rw [hnil, List.subperm_nil] at hbuffered
        obtain ⟨⟨first, hfirst, -⟩, -, -⟩ := hchain
        rw [hbuffered] at hfirst
        cases hfirst
    · rw [hrun]
      rfl
    · exact h.asked lastUpdateId hsnapshot
    · exact fun span hm => h.received span (hbuffered.subset hm)
    · rw [List.append_nil]
      exact hchain

theorem isBridged_eq_false (h : tracker.previousUpdateId = none) : tracker.isBridged = false := by
  unfold isBridged
  rw [h]
  rfl

theorem Seen.call (h : Seen maximum hmaximum calls (run maximum hmaximum calls))
    (next : TrackerCall) :
    Seen maximum hmaximum (calls ++ [next]) (run maximum hmaximum (calls ++ [next])) := by
  have hrun : run maximum hmaximum (calls ++ [next]) = _ := run_snoc calls next
  generalize htracker : run maximum hmaximum calls = tracker at h hrun
  have hreceived : ∀ span ∈ tracker.pending, .diff span ∈ calls ++ [next] :=
    fun span hm => List.mem_append_left _ (h.received span hm)
  have hasked : ∀ lastUpdateId, tracker.snapshotLastUpdateId = some lastUpdateId →
      .snapshot lastUpdateId ∈ calls ++ [next] :=
    fun lastUpdateId hsome => List.mem_append_left _ (h.asked lastUpdateId hsome)
  cases next with
  | snapshot lastUpdateId =>
    have hunbridged : tracker.pending = [] ∨ (run maximum hmaximum calls).isBridged = false := by
      cases hprevious : tracker.previousUpdateId with
      | none => exact .inr (htracker ▸ isBridged_eq_false hprevious)
      | some last => exact .inl (h.bridged last hprevious).1
    have hset : Seen maximum hmaximum (calls ++ [.snapshot lastUpdateId])
        { tracker with snapshotLastUpdateId := some lastUpdateId, previousUpdateId := none } := by
      apply Seen.unbridged
      · exact h.maximum_eq
      · exact h.bounded
      · exact hreceived
      · intro other hsome
        cases hsome
        exact List.mem_append_right _ (List.mem_singleton_self _)
      · rfl
    rw [hrun]
    exact Seen.evaluate hrun hset rfl hunbridged
  | diff span =>
    cases hprevious : tracker.previousUpdateId with
    | some expected =>
      obtain ⟨hpending, hsnapshot, before, bridging, lastUpdateId, buffered, after, hbridged⟩ :=
        h.bridged expected hprevious
      have hdiff : tracker.call (.diff span) =
          if sequenceContinues expected span.previousFinalUpdateId then
            { tracker with previousUpdateId := some span.finalUpdateId }
          else { tracker with
            previousUpdateId := none, snapshotLastUpdateId := none, pending := [span] } := by
        unfold SnapshotBridgeTracker.call onDiff
        simp only [hprevious]
        split <;> rfl
      rw [hrun, hdiff]
      by_cases hcont : sequenceContinues expected span.previousFinalUpdateId = true
      · rw [if_pos hcont]
        refine ⟨h.maximum_eq, h.bounded, hreceived, hasked, fun last hlast => ?_⟩
        cases hlast
        exact ⟨hpending, hsnapshot, before, bridging, lastUpdateId, buffered, after ++ [span],
          hbridged.snoc (beq_iff_eq.mp hcont)⟩
      · rw [if_neg hcont]
        apply Seen.unbridged
        · exact h.maximum_eq
        · exact hmaximum
        · intro other hm
          rw [List.mem_singleton.mp hm]
          exact List.mem_append_right _ (List.mem_singleton_self _)
        · intro other hsome
          cases hsome
        · rfl
    | none =>
      have hdiff : tracker.call (.diff span) = ({ tracker with
          pending := (tracker.pending ++ [span]).drop
            ((tracker.pending ++ [span]).length - tracker.maximumBufferedEvents) } :
            SnapshotBridgeTracker).evaluateSnapshot.1 := by
        unfold SnapshotBridgeTracker.call onDiff
        simp only [hprevious]
      rw [hdiff] at hrun
      rw [hrun]
      refine Seen.evaluate hrun ?_ hprevious (.inr (htracker ▸ isBridged_eq_false hprevious))
      apply Seen.unbridged
      · exact h.maximum_eq
      · dsimp only
        rw [List.length_drop, h.maximum_eq]
        omega
      · intro other hm
        cases List.mem_append.mp (List.mem_of_mem_drop hm) with
        | inl hm => exact hreceived other hm
        | inr hm =>
          rw [List.mem_singleton.mp hm]
          exact List.mem_append_right _ (List.mem_singleton_self _)
      · exact hasked
      · exact hprevious
  | invalidate =>
    rw [hrun]
    apply Seen.unbridged
    · exact h.maximum_eq
    · exact Nat.zero_le _
    · intro other hm
      cases hm
    · intro other hsome
      cases hsome
    · rfl

theorem seen_run (calls : List TrackerCall) :
    Seen maximum hmaximum calls (run maximum hmaximum calls) := by
  induction calls using List.reverseRecOn with
  | nil => exact Seen.unbridged rfl (Nat.zero_le _) nofun nofun rfl
  | append_singleton calls next ih => exact ih.call next

theorem BridgedBy.ordered_all {last : Int} {before : List TrackerCall} {bridging : TrackerCall}
    {lastUpdateId : Int} {buffered after : List UpdateSpan}
    (h : BridgedBy maximum hmaximum calls last before bridging lastUpdateId buffered after)
    (hreceived : (calls.filterMap TrackerCall.span?).Pairwise fun a b =>
      a.receiveSeq ≤ b.receiveSeq) :
    (buffered ++ after).Pairwise fun a b => a.receiveSeq ≤ b.receiveSeq := by
  have hafter : (after.map TrackerCall.diff).filterMap TrackerCall.span? = after := by
    rw [List.filterMap_map]
    exact List.filterMap_some
  rw [h.calls_eq, List.filterMap_append, hafter] at hreceived
  obtain ⟨-, hlater, hcross⟩ := List.pairwise_append.mp hreceived
  apply List.pairwise_append.mpr
  refine ⟨h.ordered, hlater, fun a ha b hb => hcross a ?_ b hb⟩
  exact List.mem_filterMap.mpr ⟨.diff a, h.received a ha, rfl⟩

/-- A bridged tracker holds nothing back, and is a received snapshot with a chain of received
spans that takes in every span since the bridge. -/
theorem run_bridgedBy (hmaximum : 1 ≤ maximum) (calls : List TrackerCall) :
    (run maximum hmaximum calls).pending.length ≤ maximum ∧
    ∀ last, (run maximum hmaximum calls).previousUpdateId = some last →
      (run maximum hmaximum calls).pending = [] ∧
      (run maximum hmaximum calls).snapshotLastUpdateId = none ∧
      ∃ before bridging lastUpdateId buffered after,
        BridgedBy maximum hmaximum calls last before bridging lastUpdateId buffered after ∧
        ((calls.filterMap TrackerCall.span?).Pairwise (fun a b => a.receiveSeq ≤ b.receiveSeq) →
          (buffered ++ after).Pairwise fun a b => a.receiveSeq ≤ b.receiveSeq) := by
  have hseen : Seen maximum hmaximum calls _ := seen_run calls
  refine ⟨hseen.bounded, fun last hlast => ?_⟩
  obtain ⟨hpending, hsnapshot, before, bridging, lastUpdateId, buffered, after, hbridged⟩ :=
    hseen.bridged last hlast
  exact ⟨hpending, hsnapshot, before, bridging, lastUpdateId, buffered, after, hbridged,
    hbridged.ordered_all⟩

/-- A span that continues the bridged one is chained though it was received before it. -/
def lateCalls : List TrackerCall :=
  [.diff ⟨2, 1, 10, 0⟩, .snapshot 5, .diff ⟨1, 11, 20, 10⟩]

theorem run_bridgedBy_lateCalls :
    ∃ before bridging lastUpdateId buffered after,
      BridgedBy 4096 (by decide) lateCalls 20 before bridging lastUpdateId buffered after := by
  obtain ⟨-, hbridged⟩ := run_bridgedBy (by decide : 1 ≤ 4096) lateCalls
  obtain ⟨-, -, before, bridging, lastUpdateId, buffered, after, h, -⟩ := hbridged 20 (by decide)
  exact ⟨before, bridging, lastUpdateId, buffered, after, h⟩

theorem not_ordered_lateCalls : ¬ ∀ (calls : List TrackerCall) (last : Int),
    (run 4096 (by decide) calls).previousUpdateId = some last →
      ∃ lastUpdateId spans, .snapshot lastUpdateId ∈ calls ∧ (∀ span ∈ spans, .diff span ∈ calls) ∧
        SpanChain lastUpdateId spans last ∧
        spans.Pairwise fun a b => a.receiveSeq ≤ b.receiveSeq := by
  intro hordered
  obtain ⟨lastUpdateId, spans, hsnapshot, hreceived, hchain, hpairwise⟩ :=
    hordered lateCalls 20 (by decide)
  obtain ⟨⟨first, hfirst, hlow, -⟩, -, hlast⟩ := hchain
  obtain ⟨tail, htail, hfinal⟩ := Option.map_eq_some_iff.mp hlast
  have hmem : ∀ span ∈ spans, span = ⟨2, 1, 10, 0⟩ ∨ span = ⟨1, 11, 20, 10⟩ := by
    simpa [lateCalls] using hreceived
  have hid : lastUpdateId = 5 := by simpa [lateCalls] using hsnapshot
  -- the snapshot is only reached by the span that was received last
  have hhead : first = ⟨2, 1, 10, 0⟩ := by
    cases hmem first (List.mem_of_mem_head? hfirst) with
    | inl heq => exact heq
    | inr heq =>
      rw [heq, hid] at hlow
      exact absurd hlow (by decide)
  have hend : tail = ⟨1, 11, 20, 10⟩ := by
    cases hmem tail (List.mem_of_getLast? htail) with
    | inr heq => exact heq
    | inl heq =>
      rw [heq] at hfinal
      exact absurd hfinal (by decide)
  cases spans with
  | nil => cases hfirst
  | cons head rest =>
    cases hfirst
    cases List.mem_cons.mp (List.mem_of_getLast? htail) with
    | inl heq =>
      rw [hhead, hend] at heq
      exact absurd heq (by decide)
    | inr hrest =>
      have hle := (List.pairwise_cons.mp hpairwise).1 tail hrest
      rw [hhead, hend] at hle
      exact absurd hle (by decide)

end Runs

end SnapshotBridgeTracker

end MiryFormal
