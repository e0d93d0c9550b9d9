import Mathlib.Logic.Function.Basic
import MiryFormal.Orderbook.TrackerRuns
import MiryFormal.Shared.Runs

/-!
# The depth recoveries of one key

What happens on one connection to one depth stream: the receive loop hands its diffs to the
tracker, and recoveries fetch snapshots for it. A step of the model is what one task does up to
its next `await`. `run_updates` handles one request after the other, and `_resync_tasks` holds one
task for a key, so there are two places for a recovery.
-/

namespace MiryFormal

set_option autoImplicit false

inductive RecoverySlot where
  /-- Of the bootstrap, of an update that adds the symbol or of the refresh of a stale key. -/
  | requested
  /-- The task in `_resync_tasks`. -/
  | reanchor
  deriving DecidableEq

/-- Where a recovery is. A waiter is woken when `changed` is set, and goes on later. -/
inductive RecoveryPhase where
  /-- The bootstrap has not asked for its snapshots. -/
  | connecting
  | idle
  /-- The receive loop is in `_on_depth_gap`. -/
  | openingGap
  | created
  /-- In `_wait_for_depth_buffer`. -/
  | buffering (attempt : Nat) (woken : Bool)
  | fetching (attempt : Nat)
  /-- In `_wait_for_snapshot_decision`. -/
  | deciding (attempt : Nat) (woken : Bool)
  /-- In `_on_depth_reanchored`, after the recovery. -/
  | reanchored
  deriving DecidableEq

namespace RecoveryPhase

/-- `changed.set()` -/
def wake : RecoveryPhase → RecoveryPhase
  | buffering attempt _ => buffering attempt true
  | deciding attempt _ => deciding attempt true
  | phase => phase

/-- Before `on_snapshot`. -/
def seeks : RecoveryPhase → Bool
  | buffering _ _ | fetching _ => true
  | _ => false

/-- After `on_snapshot`. -/
def decides : RecoveryPhase → Bool
  | deciding _ _ => true
  | _ => false

/-- In `_recover_snapshot_bridge`. -/
def underWay (phase : RecoveryPhase) : Bool := phase.seeks || phase.decides

@[simp] theorem wake_seeks (phase : RecoveryPhase) : phase.wake.seeks = phase.seeks := by
  cases phase <;> rfl

@[simp] theorem wake_decides (phase : RecoveryPhase) : phase.wake.decides = phase.decides := by
  cases phase <;> rfl

@[simp] theorem wake_underWay (phase : RecoveryPhase) : phase.wake.underWay = phase.underWay := by
  cases phase <;> rfl

end RecoveryPhase

/-- Where a recovery is when `_recover_snapshot_bridge` has returned. -/
def RecoverySlot.returned : RecoverySlot → RecoveryPhase
  | requested => .idle
  | reanchor => .reanchored

def snapshotBridgeAttempts : Nat := 5

/-- One key of a connection. A key that is not in `snapshot_requests` has no initial recovery. -/
structure DepthKey where
  tracker : SnapshotBridgeTracker := {}
  phase : RecoverySlot → RecoveryPhase
  initial : Bool
  /-- The key is in `_snapshot_pending`. -/
  snapshotPending : Bool
  ended : Bool := false

inductive DepthEvent where
  | bootstrap
  | receive (span : UpdateSpan)
  | gapOpened
  /-- `_fetch_requested_snapshots` -/
  | request
  /-- The task of a recovery gets its first turn. -/
  | enter (slot : RecoverySlot)
  | resume (slot : RecoverySlot)
  | timeout (slot : RecoverySlot)
  | fetched (slot : RecoverySlot) (lastUpdateId : Int)
  | fetchFailed (slot : RecoverySlot)
  | reanchorRecorded
  | disconnect
  | cancel (slot : RecoverySlot)

namespace DepthKey

def connect (initial : Bool) : DepthKey where
  phase := fun
    | .requested => .connecting
    | .reanchor => .idle
  initial
  snapshotPending := initial

def setPhase (key : DepthKey) (slot : RecoverySlot) (phase : RecoveryPhase) : DepthKey :=
  { key with phase := Function.update key.phase slot phase }

/-- `_wait_for_depth_buffer`, up to a wait or to the fetch after it. -/
def look (key : DepthKey) (slot : RecoverySlot) (attempt : Nat) : DepthKey :=
  key.setPhase slot
    (if key.tracker.hasEvents then .fetching attempt else .buffering attempt false)

/-- The next attempt. After the last one the recovery raises, which ends the connection in time. -/
def nextAttempt (key : DepthKey) (slot : RecoverySlot) (attempt : Nat) : DepthKey :=
  if attempt < snapshotBridgeAttempts then key.look slot (attempt + 1)
  else key.setPhase slot .idle

/-- The recovery returns. -/
def finish (key : DepthKey) (slot : RecoverySlot) : DepthKey :=
  { key.setPhase slot slot.returned with snapshotPending := false }

/-- The check of `_wait_for_snapshot_decision`, and what comes after it. -/
def awaitDecision (key : DepthKey) (slot : RecoverySlot) (attempt : Nat) : DepthKey :=
  if key.tracker.snapshotLastUpdateId.isSome ∧ key.tracker.isBridged = false then
    key.setPhase slot (.deciding attempt false)
  else if key.tracker.isBridged then key.finish slot
  else key.nextAttempt slot attempt

/-- `_observe_depth_update`, up to `_on_depth_gap`. -/
def observe (key : DepthKey) (span : UpdateSpan) : DepthKey :=
  let (tracker, result) := key.tracker.onDiff span
  let next := { key with
    tracker
    phase := fun slot => (key.phase slot).wake }
  if result.status = .sequenceGap ∧ key.phase .reanchor = .idle ∧ key.snapshotPending = false then
    next.setPhase .reanchor .openingGap
  else next

def onFetched (key : DepthKey) (slot : RecoverySlot) (attempt : Nat) (lastUpdateId : Int) :
    DepthKey :=
  let (tracker, result) := key.tracker.onSnapshot lastUpdateId
  let next := { key with tracker }
  match result.status with
  | .bridged => next.finish slot
  | .staleSnapshot => next.nextAttempt slot attempt
  | _ => next.awaitDecision slot attempt

def step (key : DepthKey) : DepthEvent → Option DepthKey
  | .bootstrap =>
      match key.phase .requested with
      | .connecting => some (key.setPhase .requested (if key.initial then .created else .idle))
      | _ => none
  | .receive span =>
      if key.phase .reanchor = .openingGap ∨ key.ended then none else some (key.observe span)
  | .gapOpened =>
      match key.phase .reanchor with
      | .openingGap => some (key.setPhase .reanchor .created)
      | _ => none
  | .request =>
      match key.phase .requested with
      | .idle =>
          if key.ended then none
          else some { key.setPhase .requested .created with snapshotPending := true }
      | _ => none
  | .enter slot =>
      match key.phase slot with
      | .created => some ({ key with snapshotPending := true }.look slot 1)
      | _ => none
  | .resume slot =>
      match key.phase slot with
      | .buffering attempt true => some (key.look slot attempt)
      | .deciding attempt true => some (key.awaitDecision slot attempt)
      | _ => none
  | .timeout slot =>
      match key.phase slot with
      | .buffering _ _ => some (key.setPhase slot .idle)
      | .deciding attempt _ =>
          some ({ key with tracker := key.tracker.invalidate }.nextAttempt slot attempt)
      | _ => none
  | .fetched slot lastUpdateId =>
      match key.phase slot with
      | .fetching attempt => some (key.onFetched slot attempt lastUpdateId)
      | _ => none
  | .fetchFailed slot =>
      match key.phase slot with
      | .fetching _ => some (key.setPhase slot .idle)
      | _ => none
  | .reanchorRecorded =>
      match key.phase .reanchor with
      | .reanchored => some (key.setPhase .reanchor .idle)
      | _ => none
  | .disconnect => some { key with ended := true }
  | .cancel slot => if key.ended then some (key.setPhase slot .idle) else none

/-- What an event does, and where the recovery is that it is about. -/
inductive Stepped (key : DepthKey) : DepthEvent → DepthKey → Prop where
  | bootstrap (hphase : key.phase .requested = .connecting) :
      Stepped key .bootstrap
        (key.setPhase .requested (if key.initial then .created else .idle))
  | receive {span : UpdateSpan} (hphase : key.phase .reanchor ≠ .openingGap)
      (hopen : key.ended = false) : Stepped key (.receive span) (key.observe span)
  | gapOpened (hphase : key.phase .reanchor = .openingGap) :
      Stepped key .gapOpened (key.setPhase .reanchor .created)
  | request (hphase : key.phase .requested = .idle) (hopen : key.ended = false) :
      Stepped key .request { key.setPhase .requested .created with snapshotPending := true }
  | enter {slot : RecoverySlot} (hphase : key.phase slot = .created) :
      Stepped key (.enter slot) ({ key with snapshotPending := true }.look slot 1)
  | lookAgain {slot : RecoverySlot} {attempt : Nat}
      (hphase : key.phase slot = .buffering attempt true) :
      Stepped key (.resume slot) (key.look slot attempt)
  | decideAgain {slot : RecoverySlot} {attempt : Nat}
      (hphase : key.phase slot = .deciding attempt true) :
      Stepped key (.resume slot) (key.awaitDecision slot attempt)
  | bufferTimeout {slot : RecoverySlot} {attempt : Nat} {woken : Bool}
      (hphase : key.phase slot = .buffering attempt woken) :
      Stepped key (.timeout slot) (key.setPhase slot .idle)
  | decisionTimeout {slot : RecoverySlot} {attempt : Nat} {woken : Bool}
      (hphase : key.phase slot = .deciding attempt woken) :
      Stepped key (.timeout slot)
        ({ key with tracker := key.tracker.invalidate }.nextAttempt slot attempt)
  | fetched {slot : RecoverySlot} {attempt : Nat} {lastUpdateId : Int}
      (hphase : key.phase slot = .fetching attempt) :
      Stepped key (.fetched slot lastUpdateId) (key.onFetched slot attempt lastUpdateId)
  | fetchFailed {slot : RecoverySlot} {attempt : Nat}
      (hphase : key.phase slot = .fetching attempt) :
      Stepped key (.fetchFailed slot) (key.setPhase slot .idle)
  | reanchorRecorded (hphase : key.phase .reanchor = .reanchored) :
      Stepped key .reanchorRecorded (key.setPhase .reanchor .idle)
  | disconnect : Stepped key .disconnect { key with ended := true }
  | cancel {slot : RecoverySlot} (hended : key.ended = true) :
      Stepped key (.cancel slot) (key.setPhase slot .idle)

theorem step_cases {key next : DepthKey} {event : DepthEvent} (hstep : key.step event = some next) :
    key.Stepped event next := by
  cases event <;> unfold step at hstep <;> dsimp only at hstep
  case bootstrap =>
    split at hstep <;> cases hstep
    exact .bootstrap ‹_›
  case receive span =>
    split at hstep <;> cases hstep
    rename_i hreceives
    obtain ⟨hphase, hopen⟩ := not_or.mp hreceives
    exact .receive hphase (Bool.eq_false_iff.mpr hopen)
  case gapOpened =>
    split at hstep <;> cases hstep
    exact .gapOpened ‹_›
  case request =>
    split at hstep
    · split at hstep <;> cases hstep
      rename_i hphase hopen
      exact .request hphase (Bool.eq_false_iff.mpr hopen)
    · cases hstep
  case enter slot =>
    split at hstep <;> cases hstep
    exact .enter ‹_›
  case resume slot =>
    split at hstep <;> cases hstep
    · exact .lookAgain ‹_›
    · exact .decideAgain ‹_›
  case timeout slot =>
    split at hstep <;> cases hstep
    · exact .bufferTimeout ‹_›
    · exact .decisionTimeout ‹_›
  case fetched slot lastUpdateId =>
    split at hstep <;> cases hstep
    exact .fetched ‹_›
  case fetchFailed slot =>
    split at hstep <;> cases hstep
    exact .fetchFailed ‹_›
  case reanchorRecorded =>
    split at hstep <;> cases hstep
    exact .reanchorRecorded ‹_›
  case disconnect =>
    cases hstep
    exact .disconnect
  case cancel slot =>
    split at hstep <;> cases hstep
    exact .cancel ‹_›

/-- A recovery waits for diffs that a bridged tracker never buffers. -/
def WaitsBridged (key : DepthKey) : Prop :=
  key.tracker.isBridged = true ∧
    ∃ slot attempt woken, key.phase slot = .buffering attempt woken

/-- A recovery begins on a tracker that is not bridged, with no other recovery under way. -/
def Undisturbed (key : DepthKey) : DepthEvent → Prop
  | .enter _ => key.tracker.isBridged = false ∧ ∀ slot, (key.phase slot).underWay = false
  | _ => True

end DepthKey

/-! ## The tracker -/

namespace SnapshotBridgeTracker

/-- Neither the snapshot that has bridged nor the diffs it was bridged with are kept. -/
def Settled (tracker : SnapshotBridgeTracker) : Prop :=
  tracker.isBridged = true → tracker.snapshotLastUpdateId = none ∧ tracker.hasEvents = false

theorem evaluateSnapshot_settled (tracker : SnapshotBridgeTracker)
    (hprevious : tracker.previousUpdateId = none) : tracker.evaluateSnapshot.1.Settled := by
  have hevaluated := evaluateSnapshot_evaluated tracker
  generalize tracker.evaluateSnapshot.1 = after at hevaluated ⊢
  cases hevaluated with
  | waiting kept asked hkept hasked =>
    intro hbridged
    have hfalse := isBridged_eq_false hprevious
    exact absurd (hfalse.symm.trans hbridged) Bool.false_ne_true
  | bridged lastUpdateId buffered last hsnapshot hbuffered hordered hchain =>
    exact fun _ => ⟨rfl, rfl⟩

theorem onDiff_settled {tracker : SnapshotBridgeTracker} (h : tracker.Settled)
    (span : UpdateSpan) : (tracker.onDiff span).1.Settled := by
  unfold onDiff
  split
  · rename_i expected hprevious
    split
    · intro _
      apply h
      unfold isBridged
      rw [hprevious]
      rfl
    · intro hbridged
      cases hbridged
  · rename_i hprevious
    exact evaluateSnapshot_settled _ hprevious

theorem onDiff_snapshot_none {tracker : SnapshotBridgeTracker}
    (h : tracker.snapshotLastUpdateId = none) (span : UpdateSpan) :
    (tracker.onDiff span).1.snapshotLastUpdateId = none := by
  unfold onDiff
  split
  · split
    · exact h
    · rfl
  · dsimp only
    rw [evaluateSnapshot_none]
    · exact h
    · exact h

theorem onDiff_unbridged {tracker : SnapshotBridgeTracker}
    (h : tracker.snapshotLastUpdateId = none) (hbridged : tracker.isBridged = false)
    (span : UpdateSpan) : (tracker.onDiff span).1.isBridged = false := by
  have hprevious : tracker.previousUpdateId = none := Option.isSome_eq_false_iff.mp hbridged |>
    Option.isNone_iff_eq_none.mp
  unfold onDiff
  rw [hprevious]
  dsimp only
  rw [evaluateSnapshot_none]
  · exact isBridged_eq_false rfl
  · exact h

/-- A snapshot bridges, is stale, or is neither and leaves the tracker without a bridge. -/
theorem onSnapshot_outcome (tracker : SnapshotBridgeTracker) (lastUpdateId : Int) :
    ((tracker.onSnapshot lastUpdateId).2.status = .bridged ∧
      (tracker.onSnapshot lastUpdateId).1.isBridged = true) ∨
    ((tracker.onSnapshot lastUpdateId).2.status ≠ .bridged ∧
      (tracker.onSnapshot lastUpdateId).1.isBridged = false ∧
      ((tracker.onSnapshot lastUpdateId).2.status = .staleSnapshot →
        (tracker.onSnapshot lastUpdateId).1.snapshotLastUpdateId = none)) := by
  let asked : SnapshotBridgeTracker :=
    { tracker with snapshotLastUpdateId := some lastUpdateId, previousUpdateId := none }
  have hasked : tracker.onSnapshot lastUpdateId = asked.evaluateSnapshot := rfl
  have hsnapshot : asked.snapshotLastUpdateId = some lastUpdateId := rfl
  have hprevious : asked.previousUpdateId = none := rfl
  rw [hasked]
  cases reaching_cases UpdateSpan.finalUpdateId lastUpdateId
    (orderByReceiveSeq UpdateSpan.receiveSeq asked.pending) with
  | inl hall =>
    have hpending : ∀ span ∈ asked.pending, span.finalUpdateId < lastUpdateId :=
      fun span hm => hall span ((orderByReceiveSeq_perm _ _).mem_iff.mpr hm)
    obtain ⟨hafter, hstatus⟩ := evaluateSnapshot_waiting asked hsnapshot hpending
    rw [hafter, hstatus]
    exact .inr ⟨nofun, isBridged_eq_false hprevious, nofun⟩
  | inr hreached =>
    obtain ⟨old, first, rest, hord, hold, hfirst⟩ := hreached
    by_cases hstale : lastUpdateId < first.firstUpdateId
    · obtain ⟨hafter, hstatus⟩ := evaluateSnapshot_stale asked hsnapshot hord hold hfirst hstale
      rw [hafter, hstatus]
      exact .inr ⟨nofun, isBridged_eq_false hprevious, fun _ => rfl⟩
    · have hover : first.firstUpdateId ≤ lastUpdateId := Int.not_lt.mp hstale
      cases hchain : followChain first.finalUpdateId rest with
      | ok last =>
        obtain ⟨hafter, hstatus⟩ :=
          evaluateSnapshot_bridged asked hsnapshot hord hold hfirst hover hchain
        rw [hafter, hstatus]
        exact .inl ⟨rfl, rfl⟩
      | error broken =>
        obtain ⟨expected, span, after⟩ := broken
        obtain ⟨hafter, hstatus⟩ :=
          evaluateSnapshot_gap asked hsnapshot hord hold hfirst hover hchain
        rw [hafter, hstatus]
        exact .inr ⟨nofun, isBridged_eq_false hprevious, nofun⟩

theorem onSnapshot_settled (tracker : SnapshotBridgeTracker) (lastUpdateId : Int) :
    (tracker.onSnapshot lastUpdateId).1.Settled := evaluateSnapshot_settled _ rfl

end SnapshotBridgeTracker

/-! ## One recovery at a time -/

namespace DepthKey
variable {key : DepthKey} {slot : RecoverySlot} {phase : RecoveryPhase}

/-- At most one recovery is under way; before its snapshot is there, nothing can bridge. -/
structure Calm (key : DepthKey) : Prop where
  settled : key.tracker.Settled
  unbridged : ∀ slot, (key.phase slot).seeks = true → key.tracker.isBridged = false
  noSnapshot : key.ended = false → (∀ slot, (key.phase slot).decides = false) →
    key.tracker.snapshotLastUpdateId = none
  alone : ∀ slot other, (key.phase slot).underWay = true → (key.phase other).underWay = true →
    slot = other

/-- The recovery may look for diffs. -/
structure Ready (key : DepthKey) (slot : RecoverySlot) : Prop where
  others : ∀ other, other ≠ slot → (key.phase other).underWay = false
  unbridged : key.tracker.isBridged = false
  noSnapshot : key.ended = false → key.tracker.snapshotLastUpdateId = none

theorem calm_connect (initial : Bool) : (connect initial).Calm where
  settled := nofun
  unbridged := nofun
  noSnapshot := fun _ _ => rfl
  alone := nofun

theorem calm_setPhase (hsettled : key.tracker.Settled)
    (hothers : ∀ other, other ≠ slot → (key.phase other).underWay = false)
    (hseeks : phase.seeks = true → key.tracker.isBridged = false)
    (hdecides : key.ended = false → phase.decides = false →
      key.tracker.snapshotLastUpdateId = none) : (key.setPhase slot phase).Calm := by
  have hself : (key.setPhase slot phase).phase slot = phase := Function.update_self ..
  have hother : ∀ other, other ≠ slot →
      ((key.setPhase slot phase).phase other).underWay = false := by
    intro other hne
    rw [← hothers other hne]
    exact congrArg RecoveryPhase.underWay (Function.update_of_ne hne ..)
  refine ⟨hsettled, ?_, ?_, ?_⟩
  · intro other hseek
    by_cases hne : other = slot
    · subst hne
      rw [hself] at hseek
      exact hseeks hseek
    · have hunder := hother other hne
      rw [RecoveryPhase.underWay, hseek] at hunder
      cases hunder
  · intro hended hnone
    apply hdecides hended
    rw [← hself]
    exact hnone slot
  · intro first second hfirst hsecond
    have heq : ∀ other, ((key.setPhase slot phase).phase other).underWay = true →
        other = slot := by
      intro other hunder
      by_contra hne
      rw [hother other hne] at hunder
      cases hunder
    rw [heq first hfirst, heq second hsecond]

theorem Ready.settled (h : key.Ready slot) : key.tracker.Settled := by
  intro hbridged
  rw [h.unbridged] at hbridged
  cases hbridged

theorem Ready.look (h : key.Ready slot) (attempt : Nat) : (key.look slot attempt).Calm :=
  calm_setPhase h.settled h.others (fun _ => h.unbridged) fun hended _ => h.noSnapshot hended

theorem Ready.idle (h : key.Ready slot) : (key.setPhase slot .idle).Calm :=
  calm_setPhase h.settled h.others nofun fun hended _ => h.noSnapshot hended

theorem Ready.nextAttempt (h : key.Ready slot) (attempt : Nat) :
    (key.nextAttempt slot attempt).Calm := by
  unfold DepthKey.nextAttempt
  split
  · exact h.look (attempt + 1)
  · exact h.idle

theorem calm_finish (hsettled : key.tracker.Settled)
    (hothers : ∀ other, other ≠ slot → (key.phase other).underWay = false)
    (hbridged : key.tracker.isBridged = true) : (key.finish slot).Calm := by
  unfold finish
  have hcalm : (key.setPhase slot slot.returned).Calm := by
    apply calm_setPhase hsettled hothers
    · cases slot <;> exact nofun
    · exact fun _ _ => (hsettled hbridged).1
  exact ⟨hcalm.settled, hcalm.unbridged, hcalm.noSnapshot, hcalm.alone⟩

theorem calm_awaitDecision (hsettled : key.tracker.Settled)
    (hothers : ∀ other, other ≠ slot → (key.phase other).underWay = false) (attempt : Nat) :
    (key.awaitDecision slot attempt).Calm := by
  unfold awaitDecision
  split
  · exact calm_setPhase hsettled hothers nofun nofun
  · rename_i hdecided
    split
    · rename_i hbridged
      exact calm_finish hsettled hothers hbridged
    · rename_i hbridged
      have hunbridged := Bool.eq_false_iff.mpr hbridged
      refine Ready.nextAttempt ⟨hothers, hunbridged, fun _ => ?_⟩ attempt
      by_contra hsome
      exact hdecided ⟨Option.isSome_iff_ne_none.mpr hsome, hunbridged⟩

theorem Calm.others (h : key.Calm) (hslot : (key.phase slot).underWay = true)
    (other : RecoverySlot) (hne : other ≠ slot) : (key.phase other).underWay = false := by
  by_contra hunder
  exact hne (h.alone other slot (Bool.eq_true_of_not_eq_false hunder) hslot)

theorem decides_eq_false (h : phase.underWay = false) : phase.decides = false :=
  (Bool.or_eq_false_iff.mp h).2

/-- A recovery that has no snapshot yet. -/
theorem Calm.ready (h : key.Calm) (hslot : (key.phase slot).seeks = true) : key.Ready slot := by
  have hunder : (key.phase slot).underWay = true := Bool.or_eq_true_iff.mpr (.inl hslot)
  refine ⟨h.others hunder, h.unbridged slot hslot, fun hended => ?_⟩
  apply h.noSnapshot hended
  intro other
  by_cases hne : other = slot
  · subst hne
    cases hphase : key.phase other <;> rw [hphase] at hslot <;> first | rfl | cases hslot
  · exact decides_eq_false (h.others hunder other hne)

theorem calm_of_same {next : DepthKey} (h : key.Calm) (htracker : next.tracker = key.tracker)
    (hphase : next.phase = key.phase) (hended : next.ended = false → key.ended = false) :
    next.Calm where
  settled := htracker ▸ h.settled
  unbridged := htracker ▸ hphase ▸ h.unbridged
  noSnapshot := fun hopen hnone => htracker ▸ h.noSnapshot (hended hopen) (hphase ▸ hnone)
  alone := hphase ▸ h.alone

/-- A phase outside of `_recover_snapshot_bridge` follows another one. -/
theorem Calm.setPhase (h : key.Calm) (hbefore : (key.phase slot).underWay = false)
    (hafter : phase.underWay = false) : (key.setPhase slot phase).Calm := by
  have hunder : ∀ other, ((key.setPhase slot phase).phase other).underWay =
      (key.phase other).underWay := by
    intro other
    by_cases hne : other = slot
    · subst hne
      rw [hbefore, ← hafter]
      exact congrArg RecoveryPhase.underWay (Function.update_self ..)
    · exact congrArg RecoveryPhase.underWay (Function.update_of_ne hne ..)
  have hsame : ∀ other, (key.phase other).underWay = true →
      (key.setPhase slot phase).phase other = key.phase other := by
    intro other hother
    apply Function.update_of_ne
    intro heq
    rw [heq, hbefore] at hother
    cases hother
  refine ⟨h.settled, ?_, ?_, ?_⟩
  · intro other hseeks
    have hother := (hunder other).symm.trans (Bool.or_eq_true_iff.mpr (.inl hseeks))
    apply h.unbridged other
    rw [← hsame other hother]
    exact hseeks
  · intro hended hnone
    apply h.noSnapshot hended
    intro other
    cases hother : (key.phase other).underWay with
    | false => exact decides_eq_false hother
    | true =>
      rw [← hsame other hother]
      exact hnone other
  · intro first second hfirst hsecond
    exact h.alone first second ((hunder first).symm.trans hfirst)
      ((hunder second).symm.trans hsecond)

theorem Calm.observe (h : key.Calm) (hopen : key.ended = false) (span : UpdateSpan) :
    (key.observe span).Calm := by
  have hcalm : { key with
      tracker := (key.tracker.onDiff span).1
      phase := fun slot => (key.phase slot).wake }.Calm := by
    refine ⟨SnapshotBridgeTracker.onDiff_settled h.settled span, ?_, ?_, ?_⟩
    · intro slot hseeks
      have hready := h.ready ((RecoveryPhase.wake_seeks _).symm.trans hseeks)
      exact SnapshotBridgeTracker.onDiff_unbridged (hready.noSnapshot hopen) hready.unbridged span
    · intro _ hnone
      apply SnapshotBridgeTracker.onDiff_snapshot_none
      apply h.noSnapshot hopen
      intro slot
      exact (RecoveryPhase.wake_decides _).symm.trans (hnone slot)
    · intro slot other hslot hother
      exact h.alone slot other ((RecoveryPhase.wake_underWay _).symm.trans hslot)
        ((RecoveryPhase.wake_underWay _).symm.trans hother)
  unfold DepthKey.observe
  dsimp only
  split
  · rename_i hgap
    apply hcalm.setPhase
    · rw [RecoveryPhase.wake_underWay, hgap.2.1]
      rfl
    · rfl
  · exact hcalm

theorem Calm.onFetched (h : key.Calm) {attempt : Nat}
    (hslot : (key.phase slot).seeks = true) (lastUpdateId : Int) :
    (key.onFetched slot attempt lastUpdateId).Calm := by
  have hothers := (h.ready hslot).others
  have hsettled := key.tracker.onSnapshot_settled lastUpdateId
  unfold DepthKey.onFetched
  rcases key.tracker.onSnapshot_outcome lastUpdateId with
    ⟨hstatus, hbridged⟩ | ⟨hstatus, hunbridged, hstale⟩
  · dsimp only
    rw [hstatus]
    exact calm_finish hsettled hothers hbridged
  · dsimp only
    split
    · rename_i hbridged
      exact absurd hbridged hstatus
    · rename_i hbridged
      apply Ready.nextAttempt
      exact ⟨hothers, hunbridged, fun _ => hstale hbridged⟩
    · apply calm_awaitDecision
      · exact hsettled
      · exact hothers

theorem Calm.step (h : key.Calm) {event : DepthEvent} {next : DepthKey}
    (hgood : key.Undisturbed event) (hstep : key.step event = some next) : next.Calm := by
  have hunder : ∀ {slot phase}, key.phase slot = phase →
      (key.phase slot).underWay = phase.underWay := fun hphase => congrArg _ hphase
  have hready : ∀ {slot phase}, key.phase slot = phase → phase.seeks = true → key.Ready slot :=
    fun hphase hseeks => h.ready ((congrArg _ hphase).trans hseeks)
  cases step_cases hstep with
  | bootstrap hphase =>
    apply h.setPhase (hunder hphase)
    split <;> rfl
  | receive hphase hopen => exact h.observe hopen _
  | gapOpened hphase => exact h.setPhase (hunder hphase) rfl
  | request hphase hopen => exact calm_of_same (h.setPhase (hunder hphase) rfl) rfl rfl id
  | enter hphase =>
    obtain ⟨hunbridged, hidle⟩ := hgood
    apply Ready.look
    refine ⟨fun other _ => hidle other, hunbridged, fun hended => ?_⟩
    exact h.noSnapshot hended fun other => decides_eq_false (hidle other)
  | lookAgain hphase => exact (hready hphase rfl).look _
  | decideAgain hphase => exact calm_awaitDecision h.settled (h.others (hunder hphase)) _
  | bufferTimeout hphase => exact (hready hphase rfl).idle
  | decisionTimeout hphase =>
    -- the snapshot is given up, and the recovery is the only one
    apply Ready.nextAttempt
    exact ⟨h.others (hunder hphase), rfl, fun _ => rfl⟩
  | fetched hphase => exact h.onFetched ((congrArg _ hphase).trans rfl) _
  | fetchFailed hphase => exact (hready hphase rfl).idle
  | reanchorRecorded hphase => exact h.setPhase (hunder hphase) rfl
  | disconnect => exact calm_of_same h rfl rfl nofun
  | @cancel slot hended =>
    cases hslot : (key.phase slot).underWay with
    | true =>
      refine calm_setPhase h.settled (h.others hslot) nofun fun hopen => ?_
      rw [hended] at hopen
      cases hopen
    | false => exact h.setPhase hslot rfl

/-- In a run whose recoveries each begin undisturbed, none waits on a bridged tracker. -/
theorem run_not_waitsBridged {initial : Bool} {events : List DepthEvent}
    (hrun : Run (Guarded Undisturbed fun before event after => before.step event = some after)
      (connect initial) events key) : ¬ key.WaitsBridged := by
  have hcalm : key.Calm :=
    hrun.preserves (fun h hstep => h.step hstep.1 hstep.2) (calm_connect initial)
  intro hwaits
  obtain ⟨hbridged, slot, attempt, woken, hphase⟩ := hwaits
  have hunbridged := hcalm.unbridged slot (congrArg RecoveryPhase.seeks hphase)
  rw [hbridged] at hunbridged
  cases hunbridged

/-! ## What goes wrong otherwise -/

theorem nextAttempt_tracker (key : DepthKey) (slot : RecoverySlot) (attempt : Nat) :
    (key.nextAttempt slot attempt).tracker = key.tracker := by
  unfold DepthKey.nextAttempt
  split <;> rfl

theorem awaitDecision_tracker (key : DepthKey) (slot : RecoverySlot) (attempt : Nat) :
    (key.awaitDecision slot attempt).tracker = key.tracker := by
  unfold awaitDecision
  split
  · rfl
  · split
    · rfl
    · exact nextAttempt_tracker key slot attempt

theorem observe_tracker (key : DepthKey) (span : UpdateSpan) :
    (key.observe span).tracker = (key.tracker.onDiff span).1 := by
  unfold DepthKey.observe
  dsimp only
  split <;> rfl

theorem onFetched_tracker (key : DepthKey) (slot : RecoverySlot) (attempt : Nat)
    (lastUpdateId : Int) : (key.onFetched slot attempt lastUpdateId).tracker =
      (key.tracker.onSnapshot lastUpdateId).1 := by
  unfold DepthKey.onFetched
  dsimp only
  split
  · rfl
  · exact nextAttempt_tracker _ slot attempt
  · exact awaitDecision_tracker _ slot attempt

/-- Whatever the steps, a bridged tracker buffers nothing. -/
theorem step_settled (h : key.tracker.Settled) {event : DepthEvent} {next : DepthKey}
    (hstep : key.step event = some next) : next.tracker.Settled := by
  cases step_cases hstep with
  | @receive span hphase hopen =>
    rw [observe_tracker]
    exact SnapshotBridgeTracker.onDiff_settled h span
  | decideAgain hphase =>
    rw [awaitDecision_tracker]
    exact h
  | decisionTimeout hphase =>
    rw [nextAttempt_tracker]
    exact nofun
  | @fetched slot attempt lastUpdateId hphase =>
    rw [onFetched_tracker]
    exact key.tracker.onSnapshot_settled lastUpdateId
  | bootstrap | gapOpened | request | enter | lookAgain | bufferTimeout | fetchFailed
    | reanchorRecorded | disconnect | cancel => exact h

theorem run_settled {events : List DepthEvent} {next : DepthKey}
    (hrun : Run (fun before event after => before.step event = some after) key events next)
    (h : key.tracker.Settled) : next.tracker.Settled := by
  induction hrun with
  | nil => exact h
  | cons hstep _ ih => exact ih (step_settled h hstep)

/-- In any run, a recovery that begins on a bridged tracker waits for what it does not buffer. -/
theorem run_enter_waitsBridged {initial : Bool} {events : List DepthEvent}
    (hrun : Run (fun before event after => before.step event = some after)
      (connect initial) events key) (hbridged : key.tracker.isBridged = true) {next : DepthKey}
    (henter : key.step (.enter slot) = some next) : next.WaitsBridged := by
  have hsettled := run_settled hrun (calm_connect initial).settled
  cases step_cases henter with
  | enter hphase =>
    refine ⟨hbridged, slot, 1, false, ?_⟩
    unfold DepthKey.look
    dsimp only
    rw [(hsettled hbridged).2]
    exact Function.update_self ..

/-- Nothing times out, no other recovery fetches, and the diffs continue the bridge. -/
def Quiet (key : DepthKey) : DepthEvent → Prop
  | .receive span => ∀ last, key.tracker.previousUpdateId = some last →
      span.previousFinalUpdateId = last
  | .timeout _ | .fetched _ _ | .cancel _ => False
  | _ => True

/-- Waiting for the buffer of a bridged tracker. -/
structure Stuck (key : DepthKey) (slot : RecoverySlot) (attempt : Nat) : Prop where
  bridged : key.tracker.isBridged = true
  empty : key.tracker.hasEvents = false
  phase : ∃ woken, key.phase slot = .buffering attempt woken

theorem Stuck.setPhase {attempt : Nat} (h : key.Stuck slot attempt) {other : RecoverySlot}
    (hother : ∀ attempt woken, key.phase other ≠ .buffering attempt woken) :
    (key.setPhase other phase).Stuck slot attempt := by
  obtain ⟨woken, hphase⟩ := h.phase
  have hne : slot ≠ other := by
    intro heq
    exact hother attempt woken (heq ▸ hphase)
  exact ⟨h.bridged, h.empty, woken, (Function.update_of_ne hne ..).trans hphase⟩

theorem Stuck.look {attempt : Nat} (h : key.Stuck slot attempt) :
    (key.look slot attempt).Stuck slot attempt := by
  refine ⟨h.bridged, h.empty, false, ?_⟩
  unfold DepthKey.look
  rw [h.empty]
  exact Function.update_self ..

theorem Stuck.observe {attempt : Nat} (h : key.Stuck slot attempt) {span : UpdateSpan}
    (hquiet : key.Quiet (.receive span)) : (key.observe span).Stuck slot attempt := by
  obtain ⟨last, hlast⟩ := Option.isSome_iff_exists.mp h.bridged
  have hcontinues : key.tracker.onDiff span =
      ({ key.tracker with previousUpdateId := some span.finalUpdateId },
        { status := .contiguous }) := by
    unfold SnapshotBridgeTracker.onDiff sequenceContinues
    rw [hlast]
    dsimp only
    rw [if_pos (beq_iff_eq.mpr (hquiet last hlast))]
  obtain ⟨woken, hphase⟩ := h.phase
  unfold DepthKey.observe
  rw [hcontinues]
  dsimp only
  rw [if_neg fun hgap => nomatch hgap.1]
  exact ⟨rfl, h.empty, true, congrArg RecoveryPhase.wake hphase⟩

theorem Stuck.step {attempt : Nat} (h : key.Stuck slot attempt) {event : DepthEvent}
    {next : DepthKey} (hquiet : key.Quiet event) (hstep : key.step event = some next) :
    next.Stuck slot attempt := by
  -- another recovery, which is not waiting for its buffer, goes on
  have hother : ∀ {other before after}, key.phase other = before →
      (∀ attempt woken, before ≠ .buffering attempt woken) →
      (key.setPhase other after).Stuck slot attempt :=
    fun hphase hbefore => h.setPhase fun attempt woken => hphase ▸ hbefore attempt woken
  obtain ⟨woken, hphase⟩ := h.phase
  cases step_cases hstep with
  | receive hopening hopen => exact h.observe hquiet
  | @lookAgain other attempt' hagain =>
    by_cases heq : other = slot
    · subst heq
      rw [hphase] at hagain
      cases hagain
      exact h.look
    · refine ⟨h.bridged, h.empty, woken, ?_⟩
      exact (Function.update_of_ne (Ne.symm heq) ..).trans hphase
  | decideAgain hdecides =>
    unfold awaitDecision
    rw [if_neg fun hopen => Bool.false_ne_true (hopen.2.symm.trans h.bridged), if_pos h.bridged]
    obtain ⟨hbridged, hempty, hstays⟩ := hother hdecides nofun
    exact ⟨hbridged, hempty, hstays⟩
  | enter hcreated =>
    obtain ⟨hbridged, hempty, hstays⟩ := hother hcreated nofun
    exact ⟨hbridged, hempty, hstays⟩
  | bootstrap hbefore | gapOpened hbefore | reanchorRecorded hbefore | fetchFailed hbefore =>
    exact hother hbefore nofun
  | request hidle hopen =>
    obtain ⟨hbridged, hempty, hstays⟩ := hother hidle nofun
    exact ⟨hbridged, hempty, hstays⟩
  | disconnect => exact ⟨h.bridged, h.empty, h.phase⟩
  | bufferTimeout | decisionTimeout | fetched | cancel => exact absurd hquiet id

/-- Contiguous diffs, as many as there may be, neither end the wait nor lead to a fetch. -/
theorem Stuck.run {attempt : Nat} (h : key.Stuck slot attempt) {events : List DepthEvent}
    {next : DepthKey} (hrun : Run (Guarded Quiet fun before event after =>
      before.step event = some after) key events next) : next.Stuck slot attempt := by
  induction hrun with
  | nil => exact h
  | cons hstep _ ih => exact ih (h.step hstep.1 hstep.2)

/-- A key is bridged, refreshed, and its stream goes on without a break. -/
def refreshedEvents : List DepthEvent :=
  [.bootstrap, .receive ⟨1, 10, 12, 9⟩, .enter .requested, .fetched .requested 11, .request,
    .enter .requested, .receive ⟨2, 13, 15, 12⟩, .resume .requested]

theorem not_never_waitsBridged : ¬ ∀ (initial : Bool) (events : List DepthEvent) (key : DepthKey),
    Run (fun before event after => before.step event = some after) (connect initial) events key →
      ¬ key.WaitsBridged := by
  intro hnever
  have hrun : Run (fun before event after => DepthKey.step before event = some after)
      (connect true) refreshedEvents _ :=
    .cons rfl (.cons rfl (.cons rfl (.cons rfl (.cons rfl (.cons rfl (.cons rfl
      (.cons rfl (.nil _))))))))
  exact hnever true refreshedEvents _ hrun ⟨rfl, .requested, 1, false, rfl⟩

/-- A broken stream is anchored again. -/
theorem run_not_waitsBridged_reanchor : ∃ key : DepthKey,
    key.phase .reanchor = .fetching 1 ∧ ¬ key.WaitsBridged := by
  have hgood : ∀ key : DepthKey, key.tracker.isBridged = false →
      (∀ slot, (key.phase slot).underWay = false) → ∀ slot, key.Undisturbed (.enter slot) :=
    fun key hbridged hidle slot => ⟨hbridged, hidle⟩
  have hrun : Run (Guarded Undisturbed fun before event after => before.step event = some after)
      (connect true)
      [.bootstrap, .receive ⟨1, 10, 12, 9⟩, .enter .requested, .fetched .requested 11,
        .receive ⟨2, 14, 15, 13⟩, .gapOpened, .enter .reanchor] _ :=
    .cons ⟨trivial, rfl⟩ (.cons ⟨trivial, rfl⟩
      (.cons ⟨hgood _ rfl (by intro slot; cases slot <;> rfl) _, rfl⟩ (.cons ⟨trivial, rfl⟩
        (.cons ⟨trivial, rfl⟩ (.cons ⟨trivial, rfl⟩
          (.cons ⟨hgood _ rfl (by intro slot; cases slot <;> rfl) _, rfl⟩ (.nil _)))))))
  exact ⟨_, rfl, run_not_waitsBridged hrun⟩

end DepthKey

end MiryFormal
