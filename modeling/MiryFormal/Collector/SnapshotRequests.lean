import MiryFormal.Shared.Runs
import MiryFormal.Shared.Spacing

/-!
# Requests for recovery snapshots

`RecoveryRequestScheduler` lets a few snapshot requests run at a time and starts them one interval
apart. A call waits for one of the permits, then for the lock under which it sleeps until its turn,
and keeps the permit until the exchange has answered. It may end at every await, by an answer, a
failure or a cancellation. Times are whole numbers of some unit.
-/

namespace MiryFormal

set_option autoImplicit false

inductive SnapshotCall where
  /-- Waits for `_snapshot_concurrency`. -/
  | called
  /-- Waits for `_snapshot_lock`. -/
  | permitted
  /-- Sleeps under the lock. -/
  | delayed (wakeAt : Int)
  | requesting
  | ended
  deriving DecidableEq

namespace SnapshotCall

def inside : SnapshotCall → Bool
  | ended => false
  | _ => true

def hasPermit : SnapshotCall → Bool
  | permitted | delayed _ | requesting => true
  | _ => false

def hasLock : SnapshotCall → Bool
  | delayed _ => true
  | _ => false

end SnapshotCall

structure RecoveryRequestScheduler where
  lastSnapshotAt : Int := 0
  permits : Nat
  locked : Bool := false
  waiters : Nat := 0
  idle : Bool := true
  calls : List SnapshotCall := []
  now : Int
  /-- When requests were started, the latest first. -/
  started : List Int := []

inductive SnapshotEvent where
  | waited (now : Int)
  | called
  | permitted (index : Nat)
  | locked (index : Nat)
  | woken (index : Nat)
  | ended (index : Nat)

namespace RecoveryRequestScheduler

def setCall (scheduler : RecoveryRequestScheduler) (index : Nat) (call : SnapshotCall) :
    RecoveryRequestScheduler :=
  { scheduler with calls := scheduler.calls.set index call }

/-- `_last_snapshot_at = time.monotonic()` -/
def start (scheduler : RecoveryRequestScheduler) (index : Nat) : RecoveryRequestScheduler :=
  { scheduler.setCall index .requesting with
    lastSnapshotAt := scheduler.now
    started := scheduler.now :: scheduler.started }

/-- What a call gives back on its way out. -/
def finish (scheduler : RecoveryRequestScheduler) (index : Nat) (call : SnapshotCall) :
    RecoveryRequestScheduler :=
  { scheduler.setCall index .ended with
    permits := scheduler.permits + if call.hasPermit then 1 else 0
    locked := scheduler.locked && !call.hasLock
    waiters := scheduler.waiters - 1
    idle := if scheduler.waiters - 1 = 0 then true else scheduler.idle }

inductive Step (interval : Int) :
    RecoveryRequestScheduler → SnapshotEvent → RecoveryRequestScheduler → Prop where
  | waited {scheduler : RecoveryRequestScheduler} {now : Int} (hle : scheduler.now ≤ now) :
      Step interval scheduler (.waited now) { scheduler with now }
  | called {scheduler : RecoveryRequestScheduler} :
      Step interval scheduler .called
        { scheduler with
          waiters := scheduler.waiters + 1
          idle := false
          calls := scheduler.calls ++ [.called] }
  | permitted {scheduler : RecoveryRequestScheduler} {index permits : Nat}
      (hcall : scheduler.calls[index]? = some .called) (hpermits : scheduler.permits = permits + 1) :
      Step interval scheduler (.permitted index) { scheduler.setCall index .permitted with permits }
  | locked {scheduler : RecoveryRequestScheduler} {index : Nat}
      (hcall : scheduler.calls[index]? = some .permitted) (hfree : scheduler.locked = false) :
      Step interval scheduler (.locked index)
        (let delay := interval - (scheduler.now - scheduler.lastSnapshotAt)
        if 0 < delay then
          { scheduler.setCall index (.delayed (scheduler.now + delay)) with locked := true }
        else scheduler.start index)
  | woken {scheduler : RecoveryRequestScheduler} {index : Nat} {wakeAt : Int}
      (hcall : scheduler.calls[index]? = some (.delayed wakeAt)) (hle : wakeAt ≤ scheduler.now) :
      Step interval scheduler (.woken index) { scheduler.start index with locked := false }
  | ended {scheduler : RecoveryRequestScheduler} {index : Nat} {call : SnapshotCall}
      (hcall : scheduler.calls[index]? = some call) (hinside : call.inside = true) :
      Step interval scheduler (.ended index) (scheduler.finish index call)

/-- Who has what, and when the next request may start. -/
structure Sound (interval : Int) (maxConcurrency : Nat) (scheduler : RecoveryRequestScheduler) :
    Prop where
  permits : scheduler.permits + scheduler.calls.countP SnapshotCall.hasPermit = maxConcurrency
  lock : scheduler.calls.countP SnapshotCall.hasLock = if scheduler.locked then 1 else 0
  waiters : scheduler.waiters = scheduler.calls.countP SnapshotCall.inside
  idle : scheduler.idle = true ↔ scheduler.waiters = 0
  past : scheduler.lastSnapshotAt ≤ scheduler.now
  spaced : Spaced interval scheduler.started
  last : ∀ time ∈ scheduler.started.head?, scheduler.lastSnapshotAt = time
  delayed : ∀ call ∈ scheduler.calls, ∀ wakeAt, call = .delayed wakeAt →
    scheduler.lastSnapshotAt + interval ≤ wakeAt

variable {interval : Int} {maxConcurrency : Nat} {scheduler next : RecoveryRequestScheduler}
  {index : Nat} {call after : SnapshotCall} {event : SnapshotEvent}

theorem countP_setCall (hcall : scheduler.calls[index]? = some call) (after : SnapshotCall)
    (p : SnapshotCall → Bool) :
    (scheduler.calls.set index after).countP p + (if p call then 1 else 0) =
      scheduler.calls.countP p + if p after then 1 else 0 := by
  obtain ⟨hlt, rfl⟩ := List.getElem?_eq_some_iff.mp hcall
  rw [List.countP_set hlt]
  by_cases hp : p scheduler.calls[index]
  · have hpos : 0 < scheduler.calls.countP p :=
      List.countP_pos_iff.mpr ⟨_, List.getElem_mem hlt, hp⟩
    rw [if_pos hp]
    omega
  · rw [if_neg hp]
    omega

theorem mem_setCall {other : SnapshotCall} (hm : other ∈ scheduler.calls.set index after) :
    other ∈ scheduler.calls ∨ other = after :=
  List.mem_or_eq_of_mem_set hm

theorem Sound.moved (h : scheduler.Sound interval maxConcurrency)
    (hcall : scheduler.calls[index]? = some call) {permits : Nat} {locked : Bool}
    (hpermits : permits + (if after.hasPermit then 1 else 0) =
      scheduler.permits + if call.hasPermit then 1 else 0)
    (hlocked : (if scheduler.locked then 1 else 0) + (if after.hasLock then 1 else 0) =
      (if locked then 1 else 0) + if call.hasLock then 1 else 0)
    (hinside : after.inside = call.inside)
    (hdelayed : ∀ wakeAt, after = .delayed wakeAt →
      scheduler.lastSnapshotAt + interval ≤ wakeAt) :
    Sound interval maxConcurrency { scheduler.setCall index after with permits, locked } := by
  have hcount := countP_setCall hcall after
  refine ⟨?_, ?_, ?_, h.idle, h.past, h.spaced, h.last, fun other hm wakeAt heq => ?_⟩
  · have := hcount SnapshotCall.hasPermit
    have := h.permits
    unfold setCall
    dsimp only
    omega
  · have := hcount SnapshotCall.hasLock
    have := h.lock
    unfold setCall
    dsimp only
    omega
  · have := hcount SnapshotCall.inside
    have := h.waiters
    rw [hinside] at *
    unfold setCall
    dsimp only
    omega
  · rcases mem_setCall hm with hm | rfl
    · exact h.delayed other hm wakeAt heq
    · exact hdelayed wakeAt heq

/-- With the lock, a call starts its request when an interval has passed. -/
theorem Sound.start (h : scheduler.Sound interval maxConcurrency) (hpos : 0 ≤ interval)
    (hcall : scheduler.calls[index]? = some call) (hpermit : call.hasPermit = true)
    (hlocked : scheduler.locked = call.hasLock)
    (hpassed : scheduler.lastSnapshotAt + interval ≤ scheduler.now) :
    Sound interval maxConcurrency { scheduler.start index with locked := false } := by
  have hcount := countP_setCall hcall .requesting
  have hinside : call.inside = true := by
    cases call with
    | permitted | delayed wakeAt | requesting | called => rfl
    | ended => cases hpermit
  have hnone : (scheduler.calls.set index .requesting).countP SnapshotCall.hasLock = 0 := by
    have := hcount SnapshotCall.hasLock
    have := h.lock
    rw [hlocked] at this
    simp only [SnapshotCall.hasLock, Bool.false_eq_true, if_false, Nat.add_zero] at *
    omega
  refine ⟨?_, hnone, ?_, h.idle, le_rfl, ?_, ?_, fun other hm wakeAt heq => ?_⟩
  · have := hcount SnapshotCall.hasPermit
    have := h.permits
    rw [hpermit] at *
    simp only [SnapshotCall.hasPermit, if_true] at *
    unfold RecoveryRequestScheduler.start setCall
    dsimp only
    omega
  · have := hcount SnapshotCall.inside
    have := h.waiters
    rw [hinside] at *
    simp only [SnapshotCall.inside, if_true] at *
    unfold RecoveryRequestScheduler.start setCall
    dsimp only
    omega
  · apply h.spaced.cons hpos
    intro last hlast
    rw [← h.last last hlast]
    exact hpassed
  · rintro time ⟨⟩
    rfl
  · -- nobody else sleeps under the lock
    exfalso
    have hpositive : 0 < (scheduler.calls.set index .requesting).countP SnapshotCall.hasLock :=
      List.countP_pos_iff.mpr ⟨other, hm, by rw [heq]; rfl⟩
    omega

theorem Sound.finish (h : scheduler.Sound interval maxConcurrency)
    (hcall : scheduler.calls[index]? = some call) (hinside : call.inside = true) :
    (scheduler.finish index call).Sound interval maxConcurrency := by
  have hcount := countP_setCall hcall .ended
  have hpermits : (scheduler.calls.set index .ended).countP SnapshotCall.hasPermit +
      (if call.hasPermit then 1 else 0) = scheduler.calls.countP SnapshotCall.hasPermit :=
    hcount SnapshotCall.hasPermit
  have hlocks : (scheduler.calls.set index .ended).countP SnapshotCall.hasLock +
      (if call.hasLock then 1 else 0) = scheduler.calls.countP SnapshotCall.hasLock :=
    hcount SnapshotCall.hasLock
  have hwaiters : (scheduler.calls.set index .ended).countP SnapshotCall.inside +
      (if call.inside then 1 else 0) = scheduler.calls.countP SnapshotCall.inside :=
    hcount SnapshotCall.inside
  rw [if_pos hinside] at hwaiters
  have hleft := h.waiters
  refine ⟨?_, ?_, ?_, ?_, h.past, h.spaced, h.last, fun other hm wakeAt heq => ?_⟩
  · have hall := h.permits
    unfold RecoveryRequestScheduler.finish setCall
    dsimp only
    omega
  · have hlock := h.lock
    unfold RecoveryRequestScheduler.finish setCall
    dsimp only
    cases hlocked : scheduler.locked with
    | false =>
      rw [hlocked, if_neg Bool.false_ne_true] at hlock
      rw [Bool.false_and, if_neg Bool.false_ne_true]
      omega
    | true =>
      rw [hlocked, if_pos rfl] at hlock
      cases hmine : call.hasLock with
      | true =>
        rw [hmine, if_pos rfl] at hlocks
        rw [Bool.not_true, Bool.and_false, if_neg Bool.false_ne_true]
        omega
      | false =>
        rw [hmine, if_neg Bool.false_ne_true] at hlocks
        rw [Bool.not_false, Bool.and_true, if_pos rfl]
        omega
  · unfold RecoveryRequestScheduler.finish setCall
    dsimp only
    omega
  · unfold RecoveryRequestScheduler.finish
    dsimp only
    by_cases hlast : scheduler.waiters - 1 = 0
    · simp [hlast]
    · rw [if_neg hlast, h.idle]
      omega
  · rcases mem_setCall hm with hm | rfl
    · exact h.delayed other hm wakeAt heq
    · cases heq

theorem Step.sound (hstep : Step interval scheduler event next) (hpos : 0 ≤ interval)
    (h : scheduler.Sound interval maxConcurrency) : next.Sound interval maxConcurrency := by
  cases hstep with
  | waited hle =>
    exact ⟨h.permits, h.lock, h.waiters, h.idle, h.past.trans hle, h.spaced, h.last, h.delayed⟩
  | called =>
    refine ⟨?_, ?_, ?_, ?_, h.past, h.spaced, h.last, fun other hm wakeAt heq => ?_⟩
    · rw [List.countP_append]
      exact h.permits
    · rw [List.countP_append]
      exact h.lock
    · rw [List.countP_append, h.waiters]
      rfl
    · simp
    · rcases List.mem_append.mp hm with hm | hm
      · exact h.delayed other hm wakeAt heq
      · rw [List.mem_singleton.mp hm] at heq
        cases heq
  | permitted hcall hpermits =>
    apply h.moved hcall
    · rw [hpermits]
      rfl
    · rfl
    · rfl
    · exact nofun
  | @locked index hcall hfree =>
    dsimp only
    by_cases hdelay : 0 < interval - (scheduler.now - scheduler.lastSnapshotAt)
    · rw [if_pos hdelay]
      apply h.moved hcall
      · rfl
      · rw [hfree]
        rfl
      · rfl
      · rintro wakeAt ⟨⟩
        omega
    · rw [if_neg hdelay]
      have hstarted := h.start hpos hcall rfl hfree (by omega)
      rw [← hfree] at hstarted
      exact hstarted
  | @woken index wakeAt hcall hle =>
    have hm : SnapshotCall.delayed wakeAt ∈ scheduler.calls :=
      List.mem_of_getElem? hcall
    have hlocked : scheduler.locked = true := by
      by_contra hnot
      have hlock := h.lock
      rw [if_neg hnot] at hlock
      have hpositive : 0 < scheduler.calls.countP SnapshotCall.hasLock :=
        List.countP_pos_iff.mpr ⟨_, hm, rfl⟩
      omega
    exact h.start hpos hcall rfl hlocked ((h.delayed _ hm wakeAt rfl).trans hle)
  | ended hcall hinside => exact h.finish hcall hinside

/-- A scheduler as it is made, `now` units after the zero of the clock. -/
def fresh (maxConcurrency : Nat) (now : Int) : RecoveryRequestScheduler where
  permits := maxConcurrency
  now

theorem fresh_sound {now : Int} (hnow : 0 ≤ now) :
    (fresh maxConcurrency now).Sound interval maxConcurrency := by
  refine ⟨rfl, rfl, rfl, ?_, hnow, Spaced.nil, nofun, ?_⟩
  · exact ⟨fun _ => rfl, fun _ => rfl⟩
  · intro call hm
    cases hm

/-- For every order in which calls come, wait, sleep and end, however they end: requests are started
at least one interval apart, so no window of `n` intervals sees more than `n` of them; never more
than `maxConcurrency` calls have a permit, and none gets lost; and the scheduler is idle exactly when
no call is inside. -/
theorem run_paced (hpos : 0 ≤ interval) {now : Int} (hnow : 0 ≤ now) {events : List SnapshotEvent}
    (hrun : Run (Step interval) (fresh maxConcurrency now) events scheduler) :
    Spaced interval scheduler.started ∧
      (∀ (start : Int) (n : Nat), (scheduler.started.filter fun time =>
        start ≤ time ∧ time < start + n * interval).length ≤ n) ∧
      scheduler.permits + scheduler.calls.countP SnapshotCall.hasPermit = maxConcurrency ∧
      (scheduler.idle = true ↔ ∀ call ∈ scheduler.calls, call = .ended) := by
  have h : scheduler.Sound interval maxConcurrency :=
    hrun.preserves (fun h hstep => hstep.sound hpos h) (fresh_sound hnow)
  refine ⟨h.spaced, h.spaced.window, h.permits, ?_⟩
  rw [h.idle, h.waiters, List.countP_eq_zero]
  apply forall₂_congr
  intro call _
  cases call <;> simp [SnapshotCall.inside]

/-- Two calls with one permit. The second one is cancelled under the lock, the third one waits. -/
theorem run_paced_three : ∃ scheduler,
    Run (Step 10) (fresh 1 100) [.called, .called, .permitted 0, .locked 0, .ended 0, .called,
      .permitted 1, .locked 1, .waited 105, .ended 1, .permitted 2, .locked 2, .waited 112,
      .woken 2] scheduler ∧ scheduler.started = [112, 100] ∧ Spaced 10 scheduler.started := by
  have hrun : ∃ scheduler,
      Run (Step 10) (fresh 1 100) [.called, .called, .permitted 0, .locked 0, .ended 0, .called,
        .permitted 1, .locked 1, .waited 105, .ended 1, .permitted 2, .locked 2, .waited 112,
        .woken 2] scheduler ∧ scheduler.started = [112, 100] := by
    refine ⟨?_, ?_, ?_⟩
    rotate_left
    · apply Run.cons .called
      apply Run.cons .called
      apply Run.cons (.permitted rfl rfl)
      apply Run.cons (.locked rfl rfl)
      apply Run.cons (.ended rfl rfl)
      apply Run.cons .called
      apply Run.cons (.permitted rfl rfl)
      apply Run.cons (.locked rfl rfl)
      apply Run.cons (.waited (by decide))
      apply Run.cons (.ended rfl rfl)
      apply Run.cons (.permitted rfl rfl)
      apply Run.cons (.locked rfl rfl)
      apply Run.cons (.waited (by decide))
      apply Run.cons (@Step.woken _ _ _ 110 rfl (by decide))
      exact .nil _
    · rfl
  obtain ⟨scheduler, hrun, hstarted⟩ := hrun
  exact ⟨scheduler, hrun, hstarted, (run_paced (by decide) (by decide) hrun).1⟩

end RecoveryRequestScheduler

end MiryFormal
