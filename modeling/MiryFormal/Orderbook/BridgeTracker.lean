import Mathlib.Data.List.Sort

/-!
# Snapshot bridge of a depth stream

The order-book sequence rules shared by collector and pipeline. A snapshot is bridged by
the first buffered diff that reaches its update id, provided that diff overlaps it.
-/

namespace MiryFormal

set_option autoImplicit false

universe u

inductive BridgeStatus where
  | waitingForEvents
  | staleSnapshot
  | bridged
  | contiguous
  | sequenceGap
  deriving DecidableEq, Repr

structure UpdateSpan where
  receiveSeq : Int
  firstUpdateId : Int
  finalUpdateId : Int
  previousFinalUpdateId : Int
  deriving DecidableEq, Repr

structure BridgeResult where
  status : BridgeStatus
  bridgeIndex : Option Nat := none
  discardCount : Nat := 0
  expectedPreviousUpdateId : Option Int := none
  receivedPreviousUpdateId : Option Int := none
  deriving DecidableEq, Repr

def sequenceContinues (expectedPreviousUpdateId receivedPreviousUpdateId : Int) : Bool :=
  receivedPreviousUpdateId == expectedPreviousUpdateId

def locateSnapshotBridge (lastUpdateId : Int) (spans : List UpdateSpan) : BridgeResult :=
  let discardCount := spans.findIdx fun span => lastUpdateId ≤ span.finalUpdateId
  match spans[discardCount]? with
  | none => { status := .waitingForEvents, discardCount }
  | some candidate =>
      if lastUpdateId < candidate.firstUpdateId then { status := .staleSnapshot, discardCount }
      else { status := .bridged, bridgeIndex := some discardCount, discardCount }

/-- The stable sort by `receive_seq`, made only when two neighbours are out of order. -/
def orderByReceiveSeq {α : Type u} (receiveSeq : α → Int) (items : List α) : List α :=
  if (items.zip items.tail).any (fun pair => receiveSeq pair.2 < receiveSeq pair.1) then
    items.insertionSort fun a b => receiveSeq a ≤ receiveSeq b
  else items

theorem orderByReceiveSeq_perm {α : Type u} (receiveSeq : α → Int) (items : List α) :
    (orderByReceiveSeq receiveSeq items).Perm items := by
  unfold orderByReceiveSeq
  split
  · exact List.perm_insertionSort _ items
  · exact .refl items

theorem any_inversion_eq_false_iff {α : Type u} (receiveSeq : α → Int) (items : List α) :
    (items.zip items.tail).any (fun pair => receiveSeq pair.2 < receiveSeq pair.1) = false ↔
      items.Pairwise fun a b => receiveSeq a ≤ receiveSeq b := by
  have : IsTrans α fun a b => receiveSeq a ≤ receiveSeq b := ⟨fun _ _ _ => Int.le_trans⟩
  rw [← List.isChain_iff_pairwise]
  induction items with
  | nil => simp
  | cons a items ih =>
    cases items with
    | nil => simp
    | cons b items =>
      simp only [List.tail_cons, List.zip_cons_cons, List.any_cons, Bool.or_eq_false_iff,
        decide_eq_false_iff_not, not_lt, List.isChain_cons_cons] at ih ⊢
      exact and_congr_right fun _ => ih

theorem orderByReceiveSeq_pairwise {α : Type u} (receiveSeq : α → Int) (items : List α) :
    (orderByReceiveSeq receiveSeq items).Pairwise fun a b => receiveSeq a ≤ receiveSeq b := by
  have : IsTrans α fun a b => receiveSeq a ≤ receiveSeq b := ⟨fun _ _ _ => Int.le_trans⟩
  have : Std.Total fun a b : α => receiveSeq a ≤ receiveSeq b := ⟨fun _ _ => Int.le_total _ _⟩
  unfold orderByReceiveSeq
  split
  · exact List.pairwise_insertionSort _ items
  · rename_i h
    exact (any_inversion_eq_false_iff receiveSeq items).mp (by simpa using h)

theorem orderByReceiveSeq_of_pairwise {α : Type u} {receiveSeq : α → Int} {items : List α}
    (h : items.Pairwise fun a b => receiveSeq a ≤ receiveSeq b) :
    orderByReceiveSeq receiveSeq items = items := by
  rw [orderByReceiveSeq, (any_inversion_eq_false_iff receiveSeq items).mpr h]
  rfl

/-- A buffer has no span that reaches the snapshot, or a first one that does. -/
theorem reaching_cases {α : Type u} (finalUpdateId : α → Int) (lastUpdateId : Int)
    (items : List α) :
    (∀ item ∈ items, finalUpdateId item < lastUpdateId) ∨
      ∃ old first rest, items = old ++ first :: rest ∧
        (∀ item ∈ old, finalUpdateId item < lastUpdateId) ∧
        lastUpdateId ≤ finalUpdateId first := by
  induction items with
  | nil => exact .inl (by simp)
  | cons a items ih =>
    by_cases ha : lastUpdateId ≤ finalUpdateId a
    · exact .inr ⟨[], a, items, rfl, by simp, ha⟩
    · rcases ih with h | ⟨old, first, rest, rfl, hold, hfirst⟩
      · exact .inl (by simp only [List.mem_cons]; rintro _ (rfl | hm); exacts [by omega, h _ hm])
      · refine .inr ⟨a :: old, first, rest, rfl, ?_, hfirst⟩
        simp only [List.mem_cons]
        rintro _ (rfl | hm)
        exacts [by omega, hold _ hm]

theorem findIdx_reaching {lastUpdateId : Int} {old : List UpdateSpan}
    (hold : ∀ span ∈ old, span.finalUpdateId < lastUpdateId) (rest : List UpdateSpan) :
    (old ++ rest).findIdx (fun span => lastUpdateId ≤ span.finalUpdateId) =
      old.length + rest.findIdx (fun span => lastUpdateId ≤ span.finalUpdateId) := by
  induction old with
  | nil => simp
  | cons a old ih =>
    have ha : ¬ lastUpdateId ≤ a.finalUpdateId := by
      have := hold a List.mem_cons_self
      omega
    simp only [List.cons_append, List.findIdx_cons, decide_eq_false ha, cond_false,
      ih fun span hm => hold span (List.mem_cons_of_mem a hm), List.length_cons]
    omega

theorem locateSnapshotBridge_waiting {lastUpdateId : Int} {spans : List UpdateSpan}
    (h : ∀ span ∈ spans, span.finalUpdateId < lastUpdateId) :
    locateSnapshotBridge lastUpdateId spans =
      { status := .waitingForEvents, discardCount := spans.length } := by
  have hidx := findIdx_reaching h []
  simp only [List.append_nil, List.findIdx_nil, Nat.add_zero] at hidx
  simp [locateSnapshotBridge, hidx]

theorem locateSnapshotBridge_reached {lastUpdateId : Int} {old rest : List UpdateSpan}
    {first : UpdateSpan} (hold : ∀ span ∈ old, span.finalUpdateId < lastUpdateId)
    (hfirst : lastUpdateId ≤ first.finalUpdateId) :
    locateSnapshotBridge lastUpdateId (old ++ first :: rest) =
      if lastUpdateId < first.firstUpdateId then
        { status := .staleSnapshot, discardCount := old.length }
      else
        { status := .bridged, bridgeIndex := some old.length, discardCount := old.length } := by
  have hidx := findIdx_reaching hold (first :: rest)
  simp only [List.findIdx_cons, decide_eq_true hfirst, cond_true, Nat.add_zero] at hidx
  simp [locateSnapshotBridge, hidx]

structure SnapshotBridgeTracker where
  maximumBufferedEvents : Nat := 4096
  pending : List UpdateSpan := []
  snapshotLastUpdateId : Option Int := none
  previousUpdateId : Option Int := none
  maximum_pos : 1 ≤ maximumBufferedEvents := by decide
  deriving DecidableEq

namespace SnapshotBridgeTracker

def hasEvents (tracker : SnapshotBridgeTracker) : Bool := !tracker.pending.isEmpty

def isBridged (tracker : SnapshotBridgeTracker) : Bool := tracker.previousUpdateId.isSome

/-- The loop over the spans after the bridge: the last update id of an unbroken chain, or
the expected id and the rest of the buffer at the first span that does not continue. -/
def followChain (previous : Int) : List UpdateSpan → Except (Int × UpdateSpan × List UpdateSpan) Int
  | [] => .ok previous
  | span :: rest =>
      if sequenceContinues previous span.previousFinalUpdateId then
        followChain span.finalUpdateId rest
      else .error (previous, span, rest)

def evaluateSnapshot (tracker : SnapshotBridgeTracker) : SnapshotBridgeTracker × BridgeResult :=
  match tracker.snapshotLastUpdateId with
  | none => (tracker, { status := .waitingForEvents })
  | some lastUpdateId =>
      let ordered := orderByReceiveSeq UpdateSpan.receiveSeq tracker.pending
      let decision := locateSnapshotBridge lastUpdateId ordered
      let kept := ordered.drop decision.discardCount
      match decision.status with
      | .waitingForEvents => ({ tracker with pending := kept }, decision)
      | .staleSnapshot =>
          ({ tracker with pending := kept, snapshotLastUpdateId := none }, decision)
      | _ =>
          match kept with
          | [] => (tracker, decision)
          | bridge :: rest =>
              match followChain bridge.finalUpdateId rest with
              | .error (expected, span, after) =>
                  ({ tracker with pending := span :: after, snapshotLastUpdateId := none },
                    { status := .sequenceGap
                      bridgeIndex := some 0
                      expectedPreviousUpdateId := some expected
                      receivedPreviousUpdateId := some span.previousFinalUpdateId })
              | .ok previous =>
                  ({ tracker with
                      pending := []
                      snapshotLastUpdateId := none
                      previousUpdateId := some previous },
                    { status := .bridged, bridgeIndex := some 0 })

section Evaluate
variable (tracker : SnapshotBridgeTracker) {lastUpdateId : Int}
  {old rest : List UpdateSpan} {first : UpdateSpan}

theorem evaluateSnapshot_none (h : tracker.snapshotLastUpdateId = none) :
    tracker.evaluateSnapshot = (tracker, { status := .waitingForEvents }) := by
  simp only [evaluateSnapshot, h]

theorem evaluateSnapshot_waiting (hsnap : tracker.snapshotLastUpdateId = some lastUpdateId)
    (h : ∀ span ∈ tracker.pending, span.finalUpdateId < lastUpdateId) :
    tracker.evaluateSnapshot.1 = { tracker with pending := [] } ∧
      tracker.evaluateSnapshot.2.status = .waitingForEvents := by
  have hord : ∀ span ∈ orderByReceiveSeq UpdateSpan.receiveSeq tracker.pending,
      span.finalUpdateId < lastUpdateId :=
    fun span hm => h span ((orderByReceiveSeq_perm _ _).mem_iff.mp hm)
  simp [evaluateSnapshot, hsnap, locateSnapshotBridge_waiting hord]

variable (hsnap : tracker.snapshotLastUpdateId = some lastUpdateId)
  (hord : orderByReceiveSeq UpdateSpan.receiveSeq tracker.pending = old ++ first :: rest)
  (hold : ∀ span ∈ old, span.finalUpdateId < lastUpdateId)
  (hfirst : lastUpdateId ≤ first.finalUpdateId)
include hsnap hord hold hfirst

theorem evaluateSnapshot_stale (hstale : lastUpdateId < first.firstUpdateId) :
    tracker.evaluateSnapshot.1 =
        { tracker with pending := first :: rest, snapshotLastUpdateId := none } ∧
      tracker.evaluateSnapshot.2.status = .staleSnapshot := by
  simp [evaluateSnapshot, hsnap, hord, locateSnapshotBridge_reached hold hfirst, hstale]

theorem evaluateSnapshot_bridged (hover : first.firstUpdateId ≤ lastUpdateId) {previous : Int}
    (hchain : followChain first.finalUpdateId rest = .ok previous) :
    tracker.evaluateSnapshot.1 =
        { tracker with
          pending := [], snapshotLastUpdateId := none, previousUpdateId := some previous } ∧
      tracker.evaluateSnapshot.2.status = .bridged := by
  simp [evaluateSnapshot, hsnap, hord, locateSnapshotBridge_reached hold hfirst,
    Int.not_lt.mpr hover, hchain]

theorem evaluateSnapshot_gap (hover : first.firstUpdateId ≤ lastUpdateId)
    {expected : Int} {span : UpdateSpan} {after : List UpdateSpan}
    (hchain : followChain first.finalUpdateId rest = .error (expected, span, after)) :
    tracker.evaluateSnapshot.1 =
        { tracker with pending := span :: after, snapshotLastUpdateId := none } ∧
      tracker.evaluateSnapshot.2.status = .sequenceGap := by
  simp [evaluateSnapshot, hsnap, hord, locateSnapshotBridge_reached hold hfirst,
    Int.not_lt.mpr hover, hchain]

end Evaluate

def onSnapshot (tracker : SnapshotBridgeTracker) (lastUpdateId : Int) :
    SnapshotBridgeTracker × BridgeResult :=
  evaluateSnapshot
    { tracker with snapshotLastUpdateId := some lastUpdateId, previousUpdateId := none }

def onDiff (tracker : SnapshotBridgeTracker) (span : UpdateSpan) :
    SnapshotBridgeTracker × BridgeResult :=
  match tracker.previousUpdateId with
  | some expected =>
      if sequenceContinues expected span.previousFinalUpdateId then
        ({ tracker with previousUpdateId := some span.finalUpdateId }, { status := .contiguous })
      else
        ({ tracker with
            previousUpdateId := none, snapshotLastUpdateId := none, pending := [span] },
          { status := .sequenceGap
            expectedPreviousUpdateId := some expected
            receivedPreviousUpdateId := some span.previousFinalUpdateId })
  | none =>
      let pending := tracker.pending ++ [span]
      evaluateSnapshot
        { tracker with pending := pending.drop (pending.length - tracker.maximumBufferedEvents) }

def invalidate (tracker : SnapshotBridgeTracker) : SnapshotBridgeTracker :=
  { tracker with pending := [], snapshotLastUpdateId := none, previousUpdateId := none }

end SnapshotBridgeTracker

end MiryFormal
