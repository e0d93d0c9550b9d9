import MiryFormal.Collector.DepthRecovery

/-!
# The gaps over a depth key

A key whose diffs do not go on is covered by a gap until a recovery has bridged it again. The
receive loop opens one and leaves it to the re-anchor task, which closes it when its recovery has
returned. A recovery that is asked for runs under a gap of who has asked: the liveness loop, which
may give a refresh up and close its gap before that recovery is over, or a membership change.
-/

namespace MiryFormal

set_option autoImplicit false

/-- From the creation of the task to the return of `_recover_snapshot_bridge`. -/
def RecoveryPhase.running : RecoveryPhase → Bool
  | created => true
  | phase => phase.underWay

@[simp] theorem RecoveryPhase.wake_running (phase : RecoveryPhase) :
    phase.wake.running = phase.running := by
  cases phase <;> rfl

theorem RecoveryPhase.eq_openingGap_of_wake {phase : RecoveryPhase}
    (h : phase.wake = .openingGap) : phase = .openingGap := by
  cases phase <;> first | rfl | cases h

namespace DepthKey
variable {key next : DepthKey} {slot : RecoverySlot}

/-- The recovery of `event` has raised. What ends the recovery otherwise leaves a bridge. -/
def raised (next : DepthKey) : DepthEvent → Bool
  | .fetchFailed _ => true
  | .timeout slot => next.phase slot = .idle
  | .fetched slot _ | .resume slot => next.phase slot = .idle ∧ next.tracker.isBridged = false
  | _ => false

/-- The requested recovery of `event` has returned. -/
def completed (next : DepthKey) : DepthEvent → Bool
  | .fetched .requested _ | .resume .requested =>
      next.phase .requested = .idle ∧ next.tracker.isBridged = true
  | _ => false

/-- The diff does not go on from the bridge. -/
def Breaks (key : DepthKey) (span : UpdateSpan) : Prop :=
  ∃ last, key.tracker.previousUpdateId = some last ∧ span.previousFinalUpdateId ≠ last

end DepthKey

/-- A key of a connection, and the gaps that cover it. -/
structure CoveredDepth where
  key : DepthKey
  /-- The gap of `_on_depth_gap`. -/
  depthGap : Bool := false
  /-- The gap of the liveness loop, or of the membership change that adds the symbol again. -/
  requestGap : Bool := false
  /-- The initial recovery has completed. -/
  recovered : Bool := false
  /-- A recovery has raised, which ends the connection. -/
  failed : Bool := false

inductive DepthGapEvent where
  | depth (event : DepthEvent)
  | requestGapOpened
  | requestGapClosed

namespace CoveredDepth

def connect (initial : Bool) : CoveredDepth where
  key := .connect initial

/-- The re-anchor gap is opened before the task is created, and closed by the task. -/
def depthGapAfter (depthGap : Bool) : DepthEvent → Bool
  | .gapOpened => true
  | .reanchorRecorded => false
  | _ => depthGap

def step (watch : CoveredDepth) : DepthGapEvent → Option CoveredDepth
  | .depth event =>
      (watch.key.step event).map fun next =>
        { watch with
          key := next
          depthGap := depthGapAfter watch.depthGap event
          recovered := watch.recovered || next.completed event
          failed := watch.failed || next.raised event }
  | .requestGapOpened => if watch.requestGap then none else some { watch with requestGap := true }
  | .requestGapClosed => if watch.requestGap then some { watch with requestGap := false } else none

def live (watch : CoveredDepth) : Bool := !watch.failed && !watch.key.ended

def Recovering (watch : CoveredDepth) : Prop := ∃ slot, (watch.key.phase slot).running = true

/-- A gap is being opened, or one is open and a recovery is running. -/
def Covered (watch : CoveredDepth) : Prop :=
  watch.key.phase .reanchor = .openingGap ∨
    (watch.depthGap = true ∨ watch.requestGap = true) ∧ watch.Recovering

/-- On a live connection, a key that has been recovered is bridged or covered. -/
def NoSilentBreak (watch : CoveredDepth) : Prop :=
  watch.live = true → watch.recovered = true → watch.key.tracker.isBridged = false → watch.Covered

/-- A break is answered by a gap of its own, or comes while a recovery is running under an open
gap. No recovery takes the bridge away without a gap, and a gap is closed when the key is bridged,
or when another gap remains for a recovery that is running. -/
def Answers (watch : CoveredDepth) : DepthGapEvent → Prop
  | .depth (.receive span) => watch.key.Breaks span →
      watch.key.phase .reanchor = .idle ∧ watch.key.snapshotPending = false ∨ watch.Covered
  | .depth (.timeout _) => watch.key.tracker.isBridged = true → watch.Covered
  | .depth (.fetched _ lastUpdateId) => watch.key.tracker.isBridged = true →
      (watch.key.tracker.onSnapshot lastUpdateId).1.isBridged = false → watch.Covered
  | .depth .reanchorRecorded => watch.key.tracker.isBridged = false →
      watch.requestGap = true ∧ watch.Recovering
  | .requestGapClosed => watch.key.tracker.isBridged = false →
      watch.key.phase .reanchor = .openingGap ∨ watch.depthGap = true ∧ watch.Recovering
  | _ => True

def Answered (watch : CoveredDepth) (event : DepthGapEvent) : Prop :=
  watch.live = true → watch.recovered = true → watch.Answers event

end CoveredDepth

/-! ## One step of the key -/

namespace DepthKey
variable {key next : DepthKey} {slot : RecoverySlot} {event : DepthEvent}

theorem setPhase_self (phase : RecoveryPhase) : (key.setPhase slot phase).phase slot = phase :=
  Function.update_self ..

theorem setPhase_of_ne {other : RecoverySlot} (hne : other ≠ slot) (phase : RecoveryPhase) :
    (key.setPhase slot phase).phase other = key.phase other := Function.update_of_ne hne ..

theorem look_running (attempt : Nat) : ((key.look slot attempt).phase slot).running = true := by
  unfold look
  rw [setPhase_self]
  split <;> rfl

theorem look_of_ne {other : RecoverySlot} (hne : other ≠ slot) (attempt : Nat) :
    (key.look slot attempt).phase other = key.phase other := setPhase_of_ne hne _

theorem nextAttempt_running (key : DepthKey) (slot : RecoverySlot) (attempt : Nat) :
    ((key.nextAttempt slot attempt).phase slot).running = true ∨
      (key.nextAttempt slot attempt).phase slot = .idle := by
  unfold nextAttempt
  split
  · exact .inl (look_running _)
  · exact .inr (setPhase_self _)

theorem nextAttempt_of_ne {other : RecoverySlot} (hne : other ≠ slot) (attempt : Nat) :
    (key.nextAttempt slot attempt).phase other = key.phase other := by
  unfold nextAttempt
  split
  · exact look_of_ne hne _
  · exact setPhase_of_ne hne _

theorem awaitDecision_running (key : DepthKey) (slot : RecoverySlot) (attempt : Nat) :
    ((key.awaitDecision slot attempt).phase slot).running = true ∨
      key.tracker.isBridged = true ∨ (key.awaitDecision slot attempt).phase slot = .idle := by
  unfold awaitDecision
  split
  · left
    rw [setPhase_self]
    rfl
  · split
    · rename_i hbridged
      exact .inr (.inl hbridged)
    · exact (nextAttempt_running _ slot attempt).imp_right .inr

theorem awaitDecision_of_ne {other : RecoverySlot} (hne : other ≠ slot) (attempt : Nat) :
    (key.awaitDecision slot attempt).phase other = key.phase other := by
  unfold awaitDecision
  split
  · exact setPhase_of_ne hne _
  · split
    · exact setPhase_of_ne hne _
    · exact nextAttempt_of_ne hne attempt

theorem onFetched_running (key : DepthKey) (slot : RecoverySlot) (attempt : Nat)
    (lastUpdateId : Int) :
    ((key.onFetched slot attempt lastUpdateId).phase slot).running = true ∨
      (key.onFetched slot attempt lastUpdateId).tracker.isBridged = true ∨
      (key.onFetched slot attempt lastUpdateId).phase slot = .idle := by
  rw [onFetched_tracker]
  unfold onFetched
  rcases key.tracker.onSnapshot_outcome lastUpdateId with ⟨-, hbridged⟩ | ⟨hstatus, -, -⟩
  · exact .inr (.inl hbridged)
  · dsimp only
    split
    · rename_i hbridged
      exact absurd hbridged hstatus
    · exact (nextAttempt_running _ slot attempt).imp_right .inr
    · exact awaitDecision_running _ slot attempt

theorem onFetched_of_ne {other : RecoverySlot} (hne : other ≠ slot) (attempt : Nat)
    (lastUpdateId : Int) :
    (key.onFetched slot attempt lastUpdateId).phase other = key.phase other := by
  unfold onFetched
  dsimp only
  split
  · exact setPhase_of_ne hne _
  · exact nextAttempt_of_ne hne attempt
  · exact awaitDecision_of_ne hne attempt

theorem observe_running (span : UpdateSpan) (h : (key.phase slot).running = true) :
    ((key.observe span).phase slot).running = true := by
  have hwake : (key.phase slot).wake.running = true := by
    rw [RecoveryPhase.wake_running]
    exact h
  unfold observe
  dsimp only
  split
  · rename_i hgap
    by_cases heq : slot = .reanchor
    · rw [heq, hgap.2.1] at h
      cases h
    · rw [setPhase_of_ne heq]
      exact hwake
  · exact hwake

/-- A recovery that ends without a bridge has raised. -/
theorem raised_or_bridged {idle : Prop} {bridged raised : Bool} (h : bridged = true ∨ idle)
    (hraises : idle → bridged = false → raised = true) : bridged = true ∨ raised = true := by
  cases bridged with
  | true => exact .inl rfl
  | false => exact .inr (hraises (h.resolve_left Bool.false_ne_true) rfl)

/-- A recovery runs until the key is bridged, it raises, or the connection has ended. -/
theorem step_running (hstep : key.step event = some next) (hopen : key.ended = false)
    (h : (key.phase slot).running = true) :
    (next.phase slot).running = true ∨ next.tracker.isBridged = true ∨
      next.raised event = true := by
  -- the task of another slot, or a task that is not in its recovery, does not change this one
  have hother : ∀ {other before}, key.phase other = before → before.running = false →
      slot ≠ other := by
    rintro other before hphase hidle rfl
    rw [hphase, hidle] at h
    cases h
  cases step_cases hstep with
  | bootstrap hphase | gapOpened hphase | reanchorRecorded hphase =>
    rw [setPhase_of_ne (hother hphase rfl)]
    exact .inl h
  | receive => exact .inl (observe_running _ h)
  | request hphase =>
    left
    show ((key.setPhase .requested .created).phase slot).running = true
    rw [setPhase_of_ne (hother hphase rfl)]
    exact h
  | @enter other hphase =>
    left
    by_cases heq : slot = other
    · subst heq
      exact look_running 1
    · rw [look_of_ne heq]
      exact h
  | @lookAgain other attempt hphase =>
    left
    by_cases heq : slot = other
    · subst heq
      exact look_running _
    · rw [look_of_ne heq]
      exact h
  | @decideAgain other attempt hphase =>
    by_cases heq : slot = other
    · subst heq
      rw [awaitDecision_tracker]
      exact (awaitDecision_running key slot attempt).imp_right fun hends =>
        raised_or_bridged hends fun hidle hbridged => by
          simp [raised, hidle, awaitDecision_tracker, hbridged]
    · rw [awaitDecision_of_ne heq]
      exact .inl h
  | @bufferTimeout other attempt woken hphase =>
    by_cases heq : slot = other
    · subst heq
      exact .inr (.inr (decide_eq_true (setPhase_self _)))
    · rw [setPhase_of_ne heq]
      exact .inl h
  | @decisionTimeout other attempt woken hphase =>
    by_cases heq : slot = other
    · subst heq
      exact (nextAttempt_running _ slot attempt).imp_right fun hidle =>
        .inr (decide_eq_true hidle)
    · rw [nextAttempt_of_ne heq]
      exact .inl h
  | @fetched other attempt lastUpdateId hphase =>
    by_cases heq : slot = other
    · subst heq
      exact (onFetched_running key slot attempt lastUpdateId).imp_right fun hends =>
        raised_or_bridged hends fun hidle hbridged => by simp [raised, hidle, hbridged]
    · rw [onFetched_of_ne heq]
      exact .inl h
  | fetchFailed => exact .inr (.inr rfl)
  | disconnect => exact .inl h
  | cancel hended =>
    rw [hopen] at hended
    cases hended

theorem wake_eq {phase : RecoveryPhase} (h : phase.running = false) : phase.wake = phase := by
  cases phase <;> first | rfl | cases h

/-- While the re-anchor task is not in its recovery. -/
theorem step_reanchor (hstep : key.step event = some next) (hopen : key.ended = false)
    (h : (key.phase .reanchor).running = false) :
    next.phase .reanchor = key.phase .reanchor ∨
      event = .gapOpened ∧ next.phase .reanchor = .created ∨
      event = .reanchorRecorded ∧ next.phase .reanchor = .idle ∨
      key.phase .reanchor = .idle ∧ next.phase .reanchor = .openingGap := by
  have hne : ∀ {slot phase}, key.phase slot = phase → phase.running = true →
      RecoverySlot.reanchor ≠ slot := by
    rintro slot phase hphase hrunning rfl
    rw [hphase, hrunning] at h
    cases h
  have hrequested : RecoverySlot.reanchor ≠ .requested := nofun
  cases step_cases hstep with
  | bootstrap => exact .inl (setPhase_of_ne hrequested _)
  | receive =>
    unfold observe
    dsimp only
    split
    · rename_i hgap
      exact .inr (.inr (.inr ⟨hgap.2.1, setPhase_self _⟩))
    · exact .inl (wake_eq h)
  | gapOpened => exact .inr (.inl ⟨rfl, setPhase_self _⟩)
  | request =>
    left
    show (key.setPhase .requested .created).phase .reanchor = key.phase .reanchor
    exact setPhase_of_ne hrequested _
  | enter hphase => exact .inl (look_of_ne (hne hphase rfl) 1)
  | lookAgain hphase => exact .inl (look_of_ne (hne hphase rfl) _)
  | decideAgain hphase => exact .inl (awaitDecision_of_ne (hne hphase rfl) _)
  | bufferTimeout hphase | fetchFailed hphase => exact .inl (setPhase_of_ne (hne hphase rfl) _)
  | decisionTimeout hphase => exact .inl (nextAttempt_of_ne (hne hphase rfl) _)
  | fetched hphase => exact .inl (onFetched_of_ne (hne hphase rfl) _ _)
  | reanchorRecorded => exact .inr (.inr (.inl ⟨rfl, setPhase_self _⟩))
  | disconnect => exact .inl rfl
  | cancel hended =>
    rw [hopen] at hended
    cases hended

theorem step_unbridged (hstep : key.step event = some next)
    (hbefore : key.tracker.isBridged = true) (hafter : next.tracker.isBridged = false) :
    (∃ span, event = .receive span ∧ key.Breaks span ∧ next = key.observe span) ∨
      (∃ slot, event = .timeout slot) ∨
      ∃ slot lastUpdateId, event = .fetched slot lastUpdateId ∧
        (key.tracker.onSnapshot lastUpdateId).1.isBridged = false := by
  have hsame : next.tracker ≠ key.tracker := by
    intro heq
    rw [heq, hbefore] at hafter
    cases hafter
  cases step_cases hstep with
  | @receive span =>
    refine .inl ⟨span, rfl, ?_, rfl⟩
    obtain ⟨last, hlast⟩ := Option.isSome_iff_exists.mp hbefore
    refine ⟨last, hlast, fun heq => ?_⟩
    rw [observe_tracker] at hafter
    unfold SnapshotBridgeTracker.onDiff sequenceContinues at hafter
    rw [hlast] at hafter
    dsimp only at hafter
    rw [if_pos (beq_iff_eq.mpr heq)] at hafter
    cases hafter
  | bufferTimeout | decisionTimeout => exact .inr (.inl ⟨_, rfl⟩)
  | @fetched slot attempt lastUpdateId =>
    rw [onFetched_tracker] at hafter
    exact .inr (.inr ⟨slot, lastUpdateId, rfl, hafter⟩)
  | decideAgain => exact absurd (awaitDecision_tracker _ _ _) hsame
  | bootstrap | gapOpened | request | enter | lookAgain | fetchFailed | reanchorRecorded | disconnect
    | cancel => exact absurd rfl hsame

theorem step_ended (hstep : key.step event = some next) (hended : key.ended = true) :
    next.ended = true := by
  have hnext : ∀ (key : DepthKey) (slot : RecoverySlot) (attempt : Nat),
      (key.nextAttempt slot attempt).ended = key.ended := by
    intro key slot attempt
    unfold nextAttempt
    split <;> rfl
  have hawait : ∀ (key : DepthKey) (slot : RecoverySlot) (attempt : Nat),
      (key.awaitDecision slot attempt).ended = key.ended := by
    intro key slot attempt
    unfold awaitDecision
    split
    · rfl
    · split
      · rfl
      · exact hnext key slot attempt
  cases step_cases hstep with
  | receive _ hopen | request _ hopen =>
    rw [hended] at hopen
    cases hopen
  | decideAgain => exact (hawait _ _ _).trans hended
  | decisionTimeout => exact (hnext _ _ _).trans hended
  | fetched =>
    unfold onFetched
    dsimp only
    split
    · exact hended
    · exact (hnext _ _ _).trans hended
    · exact (hawait _ _ _).trans hended
  | disconnect => rfl
  | bootstrap | gapOpened | enter | lookAgain | bufferTimeout | fetchFailed | reanchorRecorded
    | cancel => exact hended

/-- A timeout that does not end the recovery is one of the wait for the decision. -/
theorem deciding_of_timeout (hstep : key.step (.timeout slot) = some next)
    (hraised : next.raised (.timeout slot) = false) : ∃ attempt woken,
      key.phase slot = .deciding attempt woken ∧
        next = { key with tracker := key.tracker.invalidate }.nextAttempt slot attempt := by
  have hidle : next.phase slot ≠ .idle := of_decide_eq_false hraised
  cases step_cases hstep with
  | bufferTimeout => exact absurd (setPhase_self _) hidle
  | decisionTimeout hphase => exact ⟨_, _, hphase, rfl⟩

theorem bridged_of_completed (h : next.completed event = true) : next.tracker.isBridged = true := by
  unfold completed at h
  split at h
  · exact (of_decide_eq_true h).2
  · exact (of_decide_eq_true h).2
  · cases h

theorem onDiff_broken {span : UpdateSpan} (h : key.Breaks span) :
    (key.tracker.onDiff span).2.status = .sequenceGap ∧
      (key.tracker.onDiff span).1.isBridged = false := by
  obtain ⟨last, hlast, hne⟩ := h
  unfold SnapshotBridgeTracker.onDiff sequenceContinues
  rw [hlast]
  dsimp only
  rw [if_neg (fun heq => hne (beq_iff_eq.mp heq))]
  exact ⟨rfl, rfl⟩

theorem observe_unbridged {span : UpdateSpan} (h : key.Breaks span) :
    (key.observe span).tracker.isBridged = false := by
  rw [observe_tracker]
  exact (onDiff_broken h).2

theorem idle_of_observe_opening {span : UpdateSpan}
    (h : (key.observe span).phase .reanchor = .openingGap)
    (hnot : key.phase .reanchor ≠ .openingGap) :
    key.phase .reanchor = .idle ∧ key.snapshotPending = false := by
  unfold observe at h
  dsimp only at h
  split at h
  · rename_i hgap
    exact hgap.2
  · exact absurd (RecoveryPhase.eq_openingGap_of_wake h) hnot

theorem running_of_observe {span : UpdateSpan}
    (h : ((key.observe span).phase slot).running = true) : (key.phase slot).running = true := by
  rw [← RecoveryPhase.wake_running]
  unfold observe at h
  dsimp only at h
  split at h
  · by_cases heq : slot = .reanchor
    · rw [heq, setPhase_self] at h
      cases h
    · rw [setPhase_of_ne heq] at h
      exact h
  · exact h

theorem observe_opening {span : UpdateSpan} (hbreaks : key.Breaks span)
    (hidle : key.phase .reanchor = .idle) (hpending : key.snapshotPending = false) :
    (key.observe span).phase .reanchor = .openingGap := by
  unfold observe
  dsimp only
  rw [if_pos ⟨(onDiff_broken hbreaks).1, hidle, hpending⟩]
  exact setPhase_self _

end DepthKey

/-! ## Runs -/

namespace CoveredDepth
variable {watch next : CoveredDepth} {event : DepthGapEvent}

structure Guards (watch : CoveredDepth) : Prop where
  noSilentBreak : watch.NoSilentBreak
  gap : watch.live = true → (watch.key.phase .reanchor).running = true → watch.depthGap = true

theorem guards_connect (initial : Bool) : (connect initial).Guards where
  noSilentBreak := nofun
  gap := nofun

theorem live_iff : watch.live = true ↔ watch.failed = false ∧ watch.key.ended = false := by
  unfold live
  rw [Bool.and_eq_true, Bool.not_eq_true', Bool.not_eq_true']

theorem depth_step {event : DepthEvent} (hstep : watch.step (.depth event) = some next) :
    watch.key.step event = some next.key ∧ next.requestGap = watch.requestGap ∧
      next.depthGap = depthGapAfter watch.depthGap event ∧
      next.recovered = (watch.recovered || next.key.completed event) ∧
      next.failed = (watch.failed || next.key.raised event) := by
  obtain ⟨key, hkey, rfl⟩ := Option.map_eq_some_iff.mp hstep
  exact ⟨hkey, rfl, rfl, rfl, rfl⟩

theorem live_of_step {event : DepthEvent} (hstep : watch.step (.depth event) = some next)
    (hlive : next.live = true) : watch.live = true ∧ next.key.raised event = false := by
  obtain ⟨hkey, -, -, -, hfailed⟩ := depth_step hstep
  obtain ⟨hnot, hopen⟩ := live_iff.mp hlive
  rw [hfailed, Bool.or_eq_false_iff] at hnot
  refine ⟨live_iff.mpr ⟨hnot.1, ?_⟩, hnot.2⟩
  by_contra hended
  rw [DepthKey.step_ended hkey (by simpa using hended)] at hopen
  cases hopen

theorem Guards.depthGap (h : watch.Guards) {event : DepthEvent}
    (hstep : watch.step (.depth event) = some next) (hlive : next.live = true)
    (hrunning : (next.key.phase .reanchor).running = true) : next.depthGap = true := by
  obtain ⟨hkey, -, hgap, -, -⟩ := depth_step hstep
  obtain ⟨hbefore, -⟩ := live_of_step hstep hlive
  have hopen := (live_iff.mp hbefore).2
  rw [hgap]
  cases hwas : (watch.key.phase .reanchor).running with
  | true =>
    have hdepth := h.gap hbefore hwas
    cases event with
    | gapOpened => rfl
    | reanchorRecorded =>
      generalize next.key = after at hkey
      cases DepthKey.step_cases hkey with
      | reanchorRecorded hphase =>
        rw [hphase] at hwas
        cases hwas
    | _ => exact hdepth
  | false =>
    rcases DepthKey.step_reanchor hkey hopen hwas with
      hsame | ⟨rfl, -⟩ | ⟨-, hidle⟩ | ⟨-, hopening⟩
    · rw [hsame, hwas] at hrunning
      cases hrunning
    · rfl
    · rw [hidle] at hrunning
      cases hrunning
    · rw [hopening] at hrunning
      cases hrunning

/-- What covered the key before the step, covers it after the step. -/
theorem covered_step {event : DepthEvent}
    (hstep : watch.step (.depth event) = some next) (hlive : next.live = true)
    (hunbridged : next.key.tracker.isBridged = false) (hcovered : watch.Covered)
    (hrecorded : event = .reanchorRecorded → watch.requestGap = true ∧ watch.Recovering) :
    next.Covered := by
  obtain ⟨hkey, hrequest, hgap, -, -⟩ := depth_step hstep
  obtain ⟨hbefore, hraised⟩ := live_of_step hstep hlive
  have hopen := (live_iff.mp hbefore).2
  have hrecovering : watch.Recovering → next.Recovering := by
    rintro ⟨slot, hrunning⟩
    refine ⟨slot, ?_⟩
    rcases DepthKey.step_running hkey hopen hrunning with hrunning | hbridged | hfails
    · exact hrunning
    · rw [hunbridged] at hbridged
      cases hbridged
    · rw [hraised] at hfails
      cases hfails
  rcases hcovered with hopening | ⟨hopened, hrunning⟩
  · have hnot : (watch.key.phase .reanchor).running = false := by
      rw [hopening]
      rfl
    rcases DepthKey.step_reanchor hkey hopen hnot with
      hsame | ⟨rfl, hcreated⟩ | ⟨rfl, -⟩ | ⟨-, hagain⟩
    · exact .inl (hsame.trans hopening)
    · refine .inr ⟨.inl hgap, .reanchor, ?_⟩
      rw [hcreated]
      rfl
    · obtain ⟨hkept, hrunning⟩ := hrecorded rfl
      exact .inr ⟨.inr (hrequest.trans hkept), hrecovering hrunning⟩
    · exact .inl hagain
  · refine .inr ⟨?_, hrecovering hrunning⟩
    by_cases hclosed : event = .reanchorRecorded
    · exact .inr (hrequest.trans (hrecorded hclosed).1)
    · apply hopened.imp
      · intro hdepth
        rw [hgap]
        cases event <;> first | exact hdepth | rfl | exact absurd rfl hclosed
      · exact fun hkept => hrequest.trans hkept

theorem Guards.depth (h : watch.Guards) {event : DepthEvent} (hgood : watch.Answered (.depth event))
    (hstep : watch.step (.depth event) = some next) : next.NoSilentBreak := by
  intro hlive hrecovered hunbridged
  obtain ⟨hkey, hrequest, hgap, hcompleted, -⟩ := depth_step hstep
  obtain ⟨hbefore, hraised⟩ := live_of_step hstep hlive
  have hknown : watch.recovered = true := by
    rw [hcompleted, Bool.or_eq_true] at hrecovered
    apply hrecovered.resolve_right
    intro hdone
    rw [DepthKey.bridged_of_completed hdone] at hunbridged
    cases hunbridged
  have hanswers := hgood hbefore hknown
  cases hbridged : watch.key.tracker.isBridged with
  | false =>
    have hcovered := h.noSilentBreak hbefore hknown hbridged
    apply covered_step hstep hlive hunbridged hcovered
    rintro rfl
    exact hanswers hbridged
  | true =>
    rcases DepthKey.step_unbridged hkey hbridged hunbridged with
      ⟨span, rfl, hbreaks, hnext⟩ | ⟨slot, rfl⟩ | ⟨slot, lastUpdateId, rfl, hsnapshot⟩
    · rcases hanswers hbreaks with ⟨hidle, hpending⟩ | hcovered
      · left
        rw [hnext]
        exact DepthKey.observe_opening hbreaks hidle hpending
      · exact covered_step hstep hlive hunbridged hcovered nofun
    · exact covered_step hstep hlive hunbridged (hanswers hbridged) nofun
    · exact covered_step hstep hlive hunbridged (hanswers hbridged hsnapshot) nofun

theorem Guards.step (h : watch.Guards) (hgood : watch.Answered event)
    (hstep : watch.step event = some next) : next.Guards := by
  cases event with
  | depth event => exact ⟨h.depth hgood hstep, fun hlive => h.depthGap hstep hlive⟩
  | requestGapOpened =>
    unfold CoveredDepth.step at hstep
    dsimp only at hstep
    split at hstep
    · cases hstep
    · rw [← Option.some.inj hstep]
      refine ⟨fun hlive hrecovered hunbridged => ?_, h.gap⟩
      apply (h.noSilentBreak hlive hrecovered hunbridged).imp_right
      exact fun ⟨_, hrunning⟩ => ⟨.inr rfl, hrunning⟩
  | requestGapClosed =>
    unfold CoveredDepth.step at hstep
    dsimp only at hstep
    split at hstep
    · rw [← Option.some.inj hstep]
      refine ⟨fun hlive hrecovered hunbridged => ?_, h.gap⟩
      apply (hgood hlive hrecovered hunbridged).imp_right
      exact fun ⟨hdepth, hrunning⟩ => ⟨.inl hdepth, hrunning⟩
    · cases hstep

theorem recovering_of_phase {slot : RecoverySlot} {phase : RecoveryPhase}
    (hphase : watch.key.phase slot = phase) (hrunning : phase.running = true) : watch.Recovering :=
  ⟨slot, by rw [hphase]; exact hrunning⟩

/-! Where a key that has lost its bridge is covered after the event, it was covered before it. -/

section Before
variable {slot : RecoverySlot}

theorem answered_receive {span : UpdateSpan}
    (hkey : watch.key.step (.receive span) = some next.key)
    (hopened : next.depthGap = true ∨ next.requestGap = true →
      watch.depthGap = true ∨ watch.requestGap = true) (hcovered : next.Covered) :
    watch.key.phase .reanchor = .idle ∧ watch.key.snapshotPending = false ∨ watch.Covered := by
  generalize hafter : next.key = after at hkey
  cases DepthKey.step_cases hkey with
  | receive hphase =>
    rcases hcovered with hopening | ⟨hgap, slot, hrunning⟩
    · rw [hafter] at hopening
      exact .inl (DepthKey.idle_of_observe_opening hopening hphase)
    · rw [hafter] at hrunning
      exact .inr (.inr ⟨hopened hgap, slot, DepthKey.running_of_observe hrunning⟩)

theorem answered_timeout (hkey : watch.key.step (.timeout slot) = some next.key)
    (hraised : next.key.raised (.timeout slot) = false)
    (hopened : next.depthGap = true ∨ next.requestGap = true →
      watch.depthGap = true ∨ watch.requestGap = true)
    (hcovered : next.key.tracker.isBridged = false → next.Covered) : watch.Covered := by
  obtain ⟨attempt, woken, hphase, hnext⟩ := DepthKey.deciding_of_timeout hkey hraised
  have hunbridged : next.key.tracker.isBridged = false := by
    rw [hnext, DepthKey.nextAttempt_tracker]
    rfl
  rcases hcovered hunbridged with hopening | ⟨hgap, -⟩
  · left
    by_cases heq : RecoverySlot.reanchor = slot
    · rw [hnext, heq] at hopening
      rcases DepthKey.nextAttempt_running _ slot attempt with hrunning | hidle
      · rw [hopening] at hrunning
        cases hrunning
      · rw [hopening] at hidle
        cases hidle
    · rw [hnext, DepthKey.nextAttempt_of_ne heq] at hopening
      exact hopening
  · exact .inr ⟨hopened hgap, recovering_of_phase hphase rfl⟩

theorem answered_fetched {lastUpdateId : Int}
    (hkey : watch.key.step (.fetched slot lastUpdateId) = some next.key)
    (hsnapshot : (watch.key.tracker.onSnapshot lastUpdateId).1.isBridged = false)
    (hopened : next.depthGap = true ∨ next.requestGap = true →
      watch.depthGap = true ∨ watch.requestGap = true)
    (hcovered : next.key.tracker.isBridged = false → next.Covered) : watch.Covered := by
  unfold Covered Recovering at hcovered
  generalize next.key = after at hkey hcovered
  cases DepthKey.step_cases hkey with
  | @fetched _ attempt _ hphase =>
    have hunbridged : (watch.key.onFetched slot attempt lastUpdateId).tracker.isBridged = false := by
      rw [DepthKey.onFetched_tracker]
      exact hsnapshot
    rcases hcovered hunbridged with hopening | ⟨hgap, -⟩
    · left
      by_cases heq : RecoverySlot.reanchor = slot
      · subst heq
        rcases DepthKey.onFetched_running watch.key .reanchor attempt lastUpdateId with
          hrunning | hbridged | hidle
        · rw [hopening] at hrunning
          cases hrunning
        · rw [hunbridged] at hbridged
          cases hbridged
        · rw [hopening] at hidle
          cases hidle
      · rw [DepthKey.onFetched_of_ne heq] at hopening
        exact hopening
    · exact .inr ⟨hopened hgap, recovering_of_phase hphase rfl⟩

theorem answered_reanchorRecorded (hkey : watch.key.step .reanchorRecorded = some next.key)
    (hgap : next.depthGap = false) (hrequest : next.requestGap = watch.requestGap)
    (hcovered : next.Covered) : watch.requestGap = true ∧ watch.Recovering := by
  unfold Covered Recovering at hcovered
  rw [hgap, hrequest] at hcovered
  generalize next.key = after at hkey hcovered
  cases DepthKey.step_cases hkey with
  | reanchorRecorded =>
    rcases hcovered with hopening | ⟨hopened, slot, hrunning⟩
    · rw [DepthKey.setPhase_self] at hopening
      cases hopening
    · refine ⟨hopened.resolve_left nofun, slot, ?_⟩
      by_cases heq : slot = .reanchor
      · rw [heq, DepthKey.setPhase_self] at hrunning
        cases hrunning
      · rw [DepthKey.setPhase_of_ne heq] at hrunning
        exact hrunning

end Before

/-- A step that leaves the connection alive and the key bridged or covered has met the condition. -/
theorem answered_of_noSilentBreak (hstep : watch.step event = some next)
    (hlive : next.live = true) (h : next.NoSilentBreak) : watch.Answered event := by
  intro hbefore hknown
  cases event with
  | requestGapOpened => trivial
  | requestGapClosed =>
    intro hunbridged
    unfold CoveredDepth.step at hstep
    dsimp only at hstep
    split at hstep
    · rw [← Option.some.inj hstep] at h
      apply (h hbefore hknown hunbridged).imp_right
      exact fun ⟨hgap, hrunning⟩ => ⟨hgap.resolve_right nofun, hrunning⟩
    · cases hstep
  | depth event =>
    obtain ⟨hkey, hrequest, hgap, hcompleted, -⟩ := depth_step hstep
    obtain ⟨-, hraised⟩ := live_of_step hstep hlive
    have hcovered : next.key.tracker.isBridged = false → next.Covered :=
      h hlive (by rw [hcompleted, hknown]; rfl)
    have hopened : depthGapAfter watch.depthGap event = watch.depthGap →
        next.depthGap = true ∨ next.requestGap = true →
          watch.depthGap = true ∨ watch.requestGap = true := by
      intro hkept
      rw [hgap, hrequest, hkept]
      exact id
    cases event with
    | receive span =>
      intro hbreaks
      refine answered_receive hkey (hopened rfl) (hcovered ?_)
      generalize next.key = after at hkey ⊢
      cases DepthKey.step_cases hkey with
      | receive => exact DepthKey.observe_unbridged hbreaks
    | timeout slot => exact fun _ => answered_timeout hkey hraised (hopened rfl) hcovered
    | fetched slot lastUpdateId =>
      exact fun _ hsnapshot => answered_fetched hkey hsnapshot (hopened rfl) hcovered
    | reanchorRecorded =>
      intro hunbridged
      refine answered_reanchorRecorded hkey hgap hrequest (hcovered ?_)
      generalize next.key = after at hkey ⊢
      cases DepthKey.step_cases hkey with
      | reanchorRecorded => exact hunbridged
    | _ => trivial

/-- In a run whose breaks are answered, no live key that has been recovered is without bridge and
gap. -/
theorem run_noSilentBreak {initial : Bool} {events : List DepthGapEvent}
    (hrun : Run (Guarded Answered fun before event after => before.step event = some after)
      (connect initial) events watch) : watch.NoSilentBreak := by
  have hguards : watch.Guards :=
    hrun.preserves (fun h hstep => h.step hstep.1 hstep.2) (guards_connect initial)
  exact hguards.noSilentBreak

/-- A key is bridged, and breaks. -/
def brokenEvents : List DepthGapEvent :=
  [.depth .bootstrap, .depth (.receive ⟨1, 10, 12, 9⟩), .depth (.enter .requested),
    .depth (.fetched .requested 11), .depth (.receive ⟨2, 14, 15, 13⟩), .depth .gapOpened,
    .depth (.enter .reanchor)]

/-- It is bridged again, and breaks while the re-anchor task closes its gap. -/
def brokenAgainEvents : List DepthGapEvent :=
  brokenEvents ++ [.depth (.fetched .reanchor 14), .depth (.receive ⟨3, 17, 18, 16⟩)]

theorem not_always_noSilentBreak : ¬ ∀ (initial : Bool) (events : List DepthGapEvent)
    (watch : CoveredDepth),
    Run (fun before event after => before.step event = some after) (connect initial) events watch →
      watch.NoSilentBreak := by
  intro halways
  have hrun : Run (fun before event after => CoveredDepth.step before event = some after)
      (connect true) brokenAgainEvents _ :=
    .cons rfl (.cons rfl (.cons rfl (.cons rfl (.cons rfl (.cons rfl (.cons rfl
      (.cons rfl (.cons rfl (.nil _)))))))))
  rcases halways true brokenAgainEvents _ hrun rfl rfl rfl with hopening | ⟨-, slot, hrunning⟩
  · cases hopening
  · cases slot <;> cases hrunning

/-- A re-anchor runs under its gap. -/
theorem run_noSilentBreak_broken : ∃ watch : CoveredDepth,
    watch.key.tracker.isBridged = false ∧ watch.depthGap = true ∧ watch.Covered := by
  have hrun : Run (Guarded Answered fun before event after => before.step event = some after)
      (connect true) brokenEvents _ :=
    .cons ⟨nofun, rfl⟩ (.cons ⟨nofun, rfl⟩ (.cons ⟨nofun, rfl⟩ (.cons ⟨nofun, rfl⟩
      (.cons ⟨fun _ _ _ => .inl ⟨rfl, rfl⟩, rfl⟩ (.cons ⟨fun _ _ => trivial, rfl⟩
        (.cons ⟨fun _ _ => trivial, rfl⟩ (.nil _)))))))
  exact ⟨_, rfl, rfl, run_noSilentBreak hrun rfl rfl rfl⟩

end CoveredDepth

end MiryFormal
