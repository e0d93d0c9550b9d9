import MiryFormal.Orderbook.BridgeTracker
import MiryFormal.Pipeline.DecimalText
import MiryFormal.Shared.KeyedDict

/-!
# The order book of one connection

The replay of one connection's depth rows: diffs wait in `pending` until a snapshot
bridges into them, and from then on every diff must continue the one before.
-/

namespace MiryFormal

set_option autoImplicit false

inductive L2State where
  | unanchored
  | valid
  | gapped
  deriving DecidableEq, Repr

/-- Price and quantity texts of the levels of one side. -/
abbrev Levels := List (DecimalText × String)

structure DepthDiff where
  connectionId : String
  receiveSeq : Int
  receivedNs : Int
  firstUpdateId : Int
  finalUpdateId : Int
  previousFinalUpdateId : Int
  payloadHash : List UInt8
  bids : Levels
  asks : Levels
  deriving DecidableEq

structure DepthSnapshot where
  connectionId : String
  receiveSeq : Int
  receivedNs : Int
  lastUpdateId : Int
  bids : Levels
  asks : Levels
  deriving DecidableEq

/-- A depth row of the day's input, by its stream type. -/
inductive DepthRow where
  | diff (diff : DepthDiff)
  | snapshot (snapshot : DepthSnapshot)
  deriving DecidableEq

namespace DepthRow

def diff? : DepthRow → Option DepthDiff
  | diff d => some d
  | snapshot _ => none

def connectionId : DepthRow → String
  | diff d => d.connectionId
  | snapshot s => s.connectionId

def receivedNs : DepthRow → Int
  | diff d => d.receivedNs
  | snapshot s => s.receivedNs

end DepthRow

structure StateChange where
  connectionId : String
  atNs : Int
  state : L2State
  updateId : Option Int
  reason : String
  deriving DecidableEq, Repr

namespace DepthDiff

def span (diff : DepthDiff) : UpdateSpan where
  receiveSeq := diff.receiveSeq
  firstUpdateId := diff.firstUpdateId
  finalUpdateId := diff.finalUpdateId
  previousFinalUpdateId := diff.previousFinalUpdateId

/-- What makes a diff a repetition of an earlier one. -/
def identity (diff : DepthDiff) : Int × Int × Int × List UInt8 :=
  (diff.firstUpdateId, diff.finalUpdateId, diff.previousFinalUpdateId, diff.payloadHash)

/-- The diff's id range contains `updateId`. -/
def overlaps (diff : DepthDiff) (updateId : Int) : Bool :=
  diff.firstUpdateId ≤ updateId && updateId ≤ diff.finalUpdateId

end DepthDiff

/-- `_apply_levels`: a zero quantity removes the level. -/
def applyLevels (side : Levels) (levels : Levels) : Levels :=
  levels.foldl (fun side level =>
    if isZero level.2 then KeyedDict.pop price (price level.1) side
    else KeyedDict.set price level.1 level.2 side) side

/-- `_book_side`: the non-zero levels of a snapshot. -/
def bookSide (levels : Levels) : Levels :=
  levels.foldl (fun side level =>
    if isZero level.2 then side else KeyedDict.set price level.1 level.2 side) []

structure ConnectionBook where
  connectionId : String
  state : L2State := .unanchored
  bids : Levels := []
  asks : Levels := []
  previousUpdateId : Option Int := none
  pending : List DepthDiff := []
  seenDiffs : List (Int × Int × Int × List UInt8) := []
  anchorLastUpdateId : Option Int := none
  anchorReceivedNs : Option Int := none
  deriving DecidableEq

namespace ConnectionBook

/-- `_apply` -/
def apply (book : ConnectionBook) (diff : DepthDiff) : ConnectionBook :=
  { book with
    bids := applyLevels book.bids diff.bids
    asks := applyLevels book.asks diff.asks
    previousUpdateId := some diff.finalUpdateId }

def invalidate (book : ConnectionBook) : ConnectionBook :=
  { book with
    state := .gapped
    bids := []
    asks := []
    previousUpdateId := none
    pending := []
    anchorLastUpdateId := none
    anchorReceivedNs := none }

/-- What a discontinuity leaves: an invalidated book that buffers the breaking diff alone. -/
def restartAt (book : ConnectionBook) (diff : DepthDiff) : ConnectionBook :=
  { book.invalidate with pending := [diff] }

/-- The `StateChange` of a discontinuity at `diff`. -/
def gappedAt (book : ConnectionBook) (diff : DepthDiff) (reason : String) : StateChange where
  connectionId := book.connectionId
  atNs := diff.receivedNs
  state := .gapped
  updateId := some diff.finalUpdateId
  reason := reason

/-- The loop over the candidates after the bridge. At the first one that does not continue,
the book keeps that diff alone. -/
def applyChain (book : ConnectionBook) :
    List DepthDiff → Except String (ConnectionBook × Option StateChange)
  | [] => .ok (book, none)
  | diff :: rest =>
      match book.previousUpdateId with
      | none => .error "bridged L2 book omitted its previous update ID"
      | some expectedPrevious =>
          if sequenceContinues expectedPrevious diff.previousFinalUpdateId then
            applyChain (book.apply diff) rest
          else
            .ok (book.restartAt diff,
              some (book.gappedAt diff "buffered_pu_discontinuity"))

def tryBridge (book : ConnectionBook) : Except String (ConnectionBook × Option StateChange) :=
  match book.anchorLastUpdateId, book.anchorReceivedNs with
  | some anchor, some anchorReceivedNs =>
      let ordered := orderByReceiveSeq DepthDiff.receiveSeq book.pending
      let decision := locateSnapshotBridge anchor (ordered.map DepthDiff.span)
      let candidates := ordered.drop decision.discardCount
      match decision.status with
      | .waitingForEvents => .ok ({ book with pending := candidates }, none)
      | .staleSnapshot =>
          .ok ({ book with
            bids := []
            asks := []
            previousUpdateId := none
            anchorLastUpdateId := none
            anchorReceivedNs := none
            pending := candidates }, none)
      | _ =>
          match decision.bridgeIndex, candidates with
          | none, _ => .error "bridged snapshot omitted its bridge index"
          | some _, [] => .error "list index out of range"
          -- `bridge_index - discard_count` is 0: the bridge is the first candidate.
          | some _, bridge :: rest => do
              let (book, change) ← applyChain (book.apply bridge) rest
              match change with
              | some change => return (book, some change)
              | none =>
                  return ({ book with
                      pending := []
                      state := .valid
                      anchorLastUpdateId := none
                      anchorReceivedNs := none },
                    some {
                      connectionId := book.connectionId
                      atNs := max anchorReceivedNs bridge.receivedNs
                      state := .valid
                      updateId := book.previousUpdateId
                      reason := "snapshot_bridge" })
  | _, _ => .ok (book, none)

instance lawfulIdentity : LawfulBEq (Int × Int × Int × List UInt8) := inferInstance

/-- `seen_diffs.add(identity)` -/
def remember (book : ConnectionBook) (diff : DepthDiff) : ConnectionBook :=
  { book with seenDiffs := diff.identity :: book.seenDiffs }

/-- `pending.append(diff)` -/
def buffer (book : ConnectionBook) (diff : DepthDiff) : ConnectionBook :=
  { book with pending := book.pending ++ [diff] }

def onDiff (book : ConnectionBook) (diff : DepthDiff) :
    Except String (ConnectionBook × Option StateChange) :=
  if diff.identity ∈ book.seenDiffs then .ok (book, none)
  else
    let book := book.remember diff
    if book.state ≠ .valid then
      let book := book.buffer diff
      match book.anchorLastUpdateId with
      | some anchor => if diff.overlaps anchor then book.tryBridge else .ok (book, none)
      | none => book.tryBridge
    else
      match book.previousUpdateId with
      | none => .error "valid L2 book omitted its previous update ID"
      | some expectedPrevious =>
          if sequenceContinues expectedPrevious diff.previousFinalUpdateId then
            .ok (book.apply diff, none)
          else .ok (book.restartAt diff, some (book.gappedAt diff "pu_discontinuity"))

/-- The levels and the anchor a snapshot brings, before the bridge is tried. -/
def anchorAt (book : ConnectionBook) (snapshot : DepthSnapshot) : ConnectionBook :=
  { book with
    bids := bookSide snapshot.bids
    asks := bookSide snapshot.asks
    previousUpdateId := some snapshot.lastUpdateId
    anchorLastUpdateId := some snapshot.lastUpdateId
    anchorReceivedNs := some snapshot.receivedNs }

def onSnapshot (book : ConnectionBook) (snapshot : DepthSnapshot) :
    Except String (ConnectionBook × Option StateChange) :=
  (book.anchorAt snapshot).tryBridge

def onRow (book : ConnectionBook) : DepthRow → Except String (ConnectionBook × Option StateChange)
  | .diff diff => book.onDiff diff
  | .snapshot snapshot => book.onSnapshot snapshot

/-! What each operation can do, so that no later proof unfolds them. -/

@[simp] theorem apply_previousUpdateId (book : ConnectionBook) (diff : DepthDiff) :
    (book.apply diff).previousUpdateId = some diff.finalUpdateId := rfl

@[simp] theorem apply_state (book : ConnectionBook) (diff : DepthDiff) :
    (book.apply diff).state = book.state := rfl

@[simp] theorem apply_connectionId (book : ConnectionBook) (diff : DepthDiff) :
    (book.apply diff).connectionId = book.connectionId := rfl

@[simp] theorem apply_seenDiffs (book : ConnectionBook) (diff : DepthDiff) :
    (book.apply diff).seenDiffs = book.seenDiffs := rfl

@[simp] theorem restartAt_apply (book : ConnectionBook) (diff next : DepthDiff) :
    (book.apply diff).restartAt next = book.restartAt next := rfl

@[simp] theorem gappedAt_apply (book : ConnectionBook) (diff next : DepthDiff) (reason : String) :
    (book.apply diff).gappedAt next reason = book.gappedAt next reason := rfl

theorem foldl_apply_eq (book : ConnectionBook) (diffs : List DepthDiff) :
    diffs.foldl apply book =
      { book with
        bids := diffs.foldl (fun side diff => applyLevels side diff.bids) book.bids
        asks := diffs.foldl (fun side diff => applyLevels side diff.asks) book.asks
        previousUpdateId := diffs.foldl (fun _ diff => some diff.finalUpdateId)
          book.previousUpdateId } := by
  induction diffs generalizing book with
  | nil => rfl
  | cons diff diffs ih => rw [List.foldl_cons, ih]; rfl

/-- An unbroken chain is applied whole. -/
theorem applyChain_ok {book : ConnectionBook} {rest : List DepthDiff} {previous last : Int}
    (hprev : book.previousUpdateId = some previous)
    (hchain : SnapshotBridgeTracker.followChain previous (rest.map DepthDiff.span) = .ok last) :
    book.applyChain rest = .ok (rest.foldl apply book, none) ∧
      (rest.foldl apply book).previousUpdateId = some last := by
  induction rest generalizing book previous with
  | nil =>
    cases hchain
    exact ⟨rfl, hprev⟩
  | cons diff rest ih =>
    simp only [List.map_cons, SnapshotBridgeTracker.followChain] at hchain
    split at hchain
    · rename_i hc
      have hcont : sequenceContinues previous diff.previousFinalUpdateId = true := hc
      simp only [applyChain, hprev, hcont, if_true, List.foldl_cons]
      exact ih (apply_previousUpdateId book diff) hchain
    · cases hchain

/-- A broken chain leaves nothing but the diff at the break. -/
theorem applyChain_broken {book : ConnectionBook} {rest : List DepthDiff} {previous : Int}
    {broken : Int × UpdateSpan × List UpdateSpan}
    (hprev : book.previousUpdateId = some previous)
    (hchain : SnapshotBridgeTracker.followChain previous (rest.map DepthDiff.span) =
      .error broken) :
    ∃ before diff after, rest = before ++ diff :: after ∧
      broken.2 = (diff.span, after.map DepthDiff.span) ∧
      book.applyChain rest = .ok (book.restartAt diff,
        some (book.gappedAt diff "buffered_pu_discontinuity")) := by
  induction rest generalizing book previous with
  | nil => cases hchain
  | cons diff rest ih =>
    simp only [List.map_cons, SnapshotBridgeTracker.followChain] at hchain
    split at hchain
    · rename_i hc
      have hcont : sequenceContinues previous diff.previousFinalUpdateId = true := hc
      obtain ⟨before, next, after, rfl, hbroken, happly⟩ :=
        ih (apply_previousUpdateId book diff) hchain
      refine ⟨diff :: before, next, after, rfl, hbroken, ?_⟩
      simp only [applyChain, hprev, hcont, if_true]
      exact happly
    · rename_i hc
      have hcont : ¬ sequenceContinues previous diff.previousFinalUpdateId = true := hc
      cases hchain
      refine ⟨[], diff, rest, rfl, rfl, ?_⟩
      simp only [applyChain, hprev, if_neg hcont]

section TryBridge
variable (book : ConnectionBook) {anchor anchorReceivedNs : Int}
  {old rest : List DepthDiff} {first : DepthDiff}

theorem tryBridge_none (h : book.anchorLastUpdateId = none) : book.tryBridge = .ok (book, none) := by
  simp only [tryBridge, h]

theorem tryBridge_waiting (hanchor : book.anchorLastUpdateId = some anchor)
    (hreceived : book.anchorReceivedNs = some anchorReceivedNs)
    (h : ∀ diff ∈ book.pending, diff.finalUpdateId < anchor) :
    book.tryBridge = .ok ({ book with pending := [] }, none) := by
  have hord : ∀ span ∈ (orderByReceiveSeq DepthDiff.receiveSeq book.pending).map DepthDiff.span,
      span.finalUpdateId < anchor := by
    intro span hm
    obtain ⟨diff, hd, rfl⟩ := List.mem_map.mp hm
    exact h diff ((orderByReceiveSeq_perm _ _).mem_iff.mp hd)
  simp [tryBridge, hanchor, hreceived, locateSnapshotBridge_waiting hord]

theorem locate_candidates (rest : List DepthDiff) (hold : ∀ diff ∈ old, diff.finalUpdateId < anchor)
    (hfirst : anchor ≤ first.finalUpdateId) :
    locateSnapshotBridge anchor
        (old.map DepthDiff.span ++ first.span :: rest.map DepthDiff.span) =
      if anchor < first.firstUpdateId then
        { status := .staleSnapshot, discardCount := old.length }
      else
        { status := .bridged, bridgeIndex := some old.length, discardCount := old.length } := by
  have hspans : ∀ span ∈ old.map DepthDiff.span, span.finalUpdateId < anchor := by
    intro span hm
    obtain ⟨diff, hd, rfl⟩ := List.mem_map.mp hm
    exact hold diff hd
  simpa [DepthDiff.span] using
    locateSnapshotBridge_reached hspans (show anchor ≤ first.span.finalUpdateId from hfirst)

variable (hanchor : book.anchorLastUpdateId = some anchor)
  (hreceived : book.anchorReceivedNs = some anchorReceivedNs)
  (hord : orderByReceiveSeq DepthDiff.receiveSeq book.pending = old ++ first :: rest)
  (hold : ∀ diff ∈ old, diff.finalUpdateId < anchor)
  (hfirst : anchor ≤ first.finalUpdateId)
include hanchor hreceived hord hold hfirst

theorem tryBridge_stale (hstale : anchor < first.firstUpdateId) :
    book.tryBridge = .ok ({ book with
      bids := []
      asks := []
      previousUpdateId := none
      anchorLastUpdateId := none
      anchorReceivedNs := none
      pending := first :: rest }, none) := by
  have hlocate := locate_candidates rest hold hfirst
  simp [tryBridge, hanchor, hreceived, hord, hlocate, hstale]

theorem tryBridge_bridged (hover : first.firstUpdateId ≤ anchor) {last : Int}
    (hchain : SnapshotBridgeTracker.followChain first.finalUpdateId (rest.map DepthDiff.span) =
      .ok last) :
    book.tryBridge = .ok
      ({ (first :: rest).foldl apply book with
          pending := [], state := .valid, anchorLastUpdateId := none, anchorReceivedNs := none },
        some {
          connectionId := book.connectionId
          atNs := max anchorReceivedNs first.receivedNs
          state := .valid
          updateId := some last
          reason := "snapshot_bridge" }) ∧
      ((first :: rest).foldl apply book).previousUpdateId = some last := by
  have hlocate := locate_candidates rest hold hfirst
  obtain ⟨happly, hlast⟩ := applyChain_ok (apply_previousUpdateId book first) hchain
  refine ⟨?_, hlast⟩
  simp [tryBridge, hanchor, hreceived, hord, hlocate, Int.not_lt.mpr hover, happly, hlast,
    bind, Except.bind, pure, Except.pure]
  simp [foldl_apply_eq]

theorem tryBridge_broken (hover : first.firstUpdateId ≤ anchor)
    {broken : Int × UpdateSpan × List UpdateSpan}
    (hchain : SnapshotBridgeTracker.followChain first.finalUpdateId (rest.map DepthDiff.span) =
      .error broken) :
    ∃ before diff after, rest = before ++ diff :: after ∧
      broken.2 = (diff.span, after.map DepthDiff.span) ∧
      book.tryBridge = .ok (book.restartAt diff,
        some (book.gappedAt diff "buffered_pu_discontinuity")) := by
  have hlocate := locate_candidates rest hold hfirst
  obtain ⟨before, diff, after, hrest, hbroken, happly⟩ :=
    applyChain_broken (apply_previousUpdateId book first) hchain
  refine ⟨before, diff, after, hrest, hbroken, ?_⟩
  simp [tryBridge, hanchor, hreceived, hord, hlocate, Int.not_lt.mpr hover, happly,
    bind, Except.bind, pure, Except.pure]

end TryBridge

section OnDiff
variable {book : ConnectionBook} {diff : DepthDiff}

theorem onDiff_seen (hseen : diff.identity ∈ book.seenDiffs) :
    book.onDiff diff = .ok (book, none) := by
  simp only [onDiff, if_pos hseen]

variable (hnew : diff.identity ∉ book.seenDiffs)
include hnew

theorem onDiff_continues {id : Int} (hstate : book.state = .valid)
    (hprev : book.previousUpdateId = some id)
    (hcont : sequenceContinues id diff.previousFinalUpdateId = true) :
    book.onDiff diff = .ok ((book.remember diff).apply diff, none) := by
  simp [onDiff, hnew, remember, hstate, hprev, hcont]

theorem onDiff_breaks {id : Int} (hstate : book.state = .valid)
    (hprev : book.previousUpdateId = some id)
    (hcont : ¬ sequenceContinues id diff.previousFinalUpdateId = true) :
    book.onDiff diff = .ok ((book.remember diff).restartAt diff,
      some (book.gappedAt diff "pu_discontinuity")) := by
  simp [onDiff, hnew, remember, hstate, hprev, hcont]
  rfl

theorem onDiff_buffers {anchor : Int} (hstate : book.state ≠ .valid)
    (hanchor : book.anchorLastUpdateId = some anchor) (hover : ¬ diff.overlaps anchor = true) :
    book.onDiff diff = .ok ((book.remember diff).buffer diff, none) := by
  simp [onDiff, hnew, remember, buffer, hstate, hanchor, hover]

theorem onDiff_tries (hstate : book.state ≠ .valid)
    (hanchor : ∀ anchor, book.anchorLastUpdateId = some anchor → diff.overlaps anchor = true) :
    book.onDiff diff = ((book.remember diff).buffer diff).tryBridge := by
  cases h : book.anchorLastUpdateId with
  | none => simp [onDiff, hnew, remember, buffer, hstate, h]
  | some anchor => simp [onDiff, hnew, remember, buffer, hstate, h, hanchor anchor h]

end OnDiff

end ConnectionBook

end MiryFormal
