import MiryFormal.Contracts.GapEvents
import MiryFormal.Contracts.RawEvents
import MiryFormal.Shared.Runs

/-!
# The lease of a boot

What one boot of the collector stamps, admits, publishes and seals, and the watermark that its
lease keeps on disk: the next boot opens a gap from there. An event of the model is what
happens between two `await`s of one task, or one write of a worker thread. When a writer
finishes a chunk is left open, and so is the order in which woken putters go on.
-/

namespace MiryFormal

set_option autoImplicit false

/-- A received event, as far as the watermark can see it. -/
structure StampedEvent where
  seq : Nat
  group : WriterGroup
  stamp : Int
  deriving DecidableEq

inductive QueueItem where
  | event (event : StampedEvent)
  | rotateWriter
  deriving DecidableEq

/-- The groups whose watermarks count. -/
def WriterGroup.Critical (group : WriterGroup) : Prop := group = .depth ∨ group = .tradesMarket

instance (group : WriterGroup) : Decidable group.Critical :=
  inferInstanceAs (Decidable (group = .depth ∨ group = .tradesMarket))

structure CollectorState where
  /-- `_service_started_ns` -/
  startedNs : Int
  clock : Int
  nextSeq : Nat := 0
  /-- Received, and `put` not called yet. -/
  received : List StampedEvent := []
  accepting : Bool := true
  /-- In `put`, waiting for `_accepting`. -/
  waiting : List StampedEvent := []
  /-- In `put`, woken by `_accepting` and not gone on yet. -/
  woken : List StampedEvent := []
  queue : WriterGroup → List QueueItem := fun _ => []
  session : WriterGroup → List StampedEvent := fun _ => []
  /-- The last stamp of a published chunk that `finish` has not accounted for yet. -/
  finishing : WriterGroup → Option Int := fun _ => none
  durableThroughNs : WriterGroup → Option Int := fun _ => none
  admitted : List StampedEvent := []
  published : List StampedEvent := []
  /-- The arguments of `write_running` that are on their way to the disk. -/
  heartbeats : List Int := []
  /-- `affected_from_realtime_ns` on disk. -/
  leaseNs : Int
  /-- `_sealed_floor_ns` -/
  sealedFloorNs : Int
  /-- The end of the last day with a `SEALED.json` on disk. -/
  sealedNs : Int

inductive CollectorEvent where
  | tick (ns : Int)
  | receive (group : WriterGroup)
  /-- `IngestCoordinator.put` up to its first `await`; the queue may be full. -/
  | put (event : StampedEvent) (overloaded : Bool)
  | resume (event : StampedEvent) (overloaded : Bool)
  | beginRotate
  | endRotate
  /-- The writer of a group takes the next item of its queue. -/
  | consume (group : WriterGroup)
  /-- The writer publishes its session, with chunk and manifest. -/
  | publish (group : WriterGroup)
  /-- The writer accounts for the chunk, after the day index has recorded it. -/
  | account (group : WriterGroup)
  /-- `_lease_watermark_ns` is read for `write_running`. -/
  | heartbeat
  | writeRunning (affectedFromNs : Int)
  | sealDay (utcDate : Int)
  | recordSealed (utcDate : Int)
  deriving DecidableEq

namespace CollectorState

/-- A boot after its first `write_running`; nothing was received before. -/
def boot (startedNs sealedNs : Int) : CollectorState where
  startedNs := startedNs
  clock := startedNs
  leaseNs := max startedNs sealedNs
  sealedFloorNs := sealedNs
  sealedNs := sealedNs

/-- `WriterPool.metrics` -/
def durableThrough (state : CollectorState) : Option Int :=
  match state.durableThroughNs .depth, state.durableThroughNs .tradesMarket with
  | some depth, some trades => some (min depth trades)
  | _, _ => none

/-- `_lease_watermark_ns`, where `or` passes over zero. -/
def leaseWatermarkNs (state : CollectorState) : Int :=
  match state.durableThrough with
  | some ns => if ns = 0 then state.startedNs else ns
  | none => state.startedNs

/-- `recovery_start_ns` of the next boot, after a crash here. -/
def recoveryStartNs (state : CollectorState) : Int := max state.leaseNs state.sealedNs

/-- `ByteBoundedQueues.put`, which raises when the byte budget is used up. -/
def enqueue (state : CollectorState) (event : StampedEvent) : Bool → CollectorState
  | true => state
  | false =>
      { state with
        queue := Function.update state.queue event.group
          (state.queue event.group ++ [.event event])
        admitted := state.admitted ++ [event] }

def consume (state : CollectorState) (group : WriterGroup) : Option CollectorState :=
  match state.queue group with
  | [] => none
  | .event event :: rest =>
      some { state with
        queue := Function.update state.queue group rest
        session := Function.update state.session group (state.session group ++ [event]) }
  | .rotateWriter :: rest =>
      if state.session group = [] then
        some { state with queue := Function.update state.queue group rest }
      else none

def publish (state : CollectorState) (group : WriterGroup) : Option CollectorState :=
  match ((state.session group).map StampedEvent.stamp).max? with
  | none => none
  | some maxNs =>
      some { state with
        session := Function.update state.session group []
        finishing := Function.update state.finishing group (some maxNs)
        published := state.published ++ state.session group }

def account (state : CollectorState) (group : WriterGroup) : Option CollectorState :=
  match state.finishing group with
  | none => none
  | some maxNs =>
      some { state with
        finishing := Function.update state.finishing group none
        durableThroughNs := Function.update state.durableThroughNs group
          (some (max ((state.durableThroughNs group).getD 0) maxNs)) }

/-- One step; a step that is not possible now has no result. -/
def next (state : CollectorState) : CollectorEvent → Option CollectorState
  | .tick ns => if state.clock ≤ ns then some { state with clock := ns } else none
  | .receive group =>
      some { state with
        nextSeq := state.nextSeq + 1
        received := state.received ++ [⟨state.nextSeq, group, state.clock⟩] }
  | .put event overloaded =>
      if event ∈ state.received then
        let rest := { state with received := state.received.erase event }
        if state.accepting then some (rest.enqueue event overloaded)
        else some { rest with waiting := state.waiting ++ [event] }
      else none
  | .resume event overloaded =>
      if event ∈ state.woken then
        some ({ state with woken := state.woken.erase event }.enqueue event overloaded)
      else none
  | .beginRotate =>
      if state.accepting then
        some { state with
          accepting := false
          queue := fun group =>
            if group ∈ writerGroups then state.queue group ++ [.rotateWriter]
            else state.queue group }
      else none
  | .endRotate =>
      -- the `finally` is reached when the barriers are consumed, or a writer has failed
      if state.accepting then none
      else some { state with
        accepting := true
        waiting := []
        woken := state.woken ++ state.waiting }
  | .consume group => if state.finishing group = none then state.consume group else none
  | .publish group => if state.finishing group = none then state.publish group else none
  | .account group => state.account group
  | .heartbeat => some { state with heartbeats := state.heartbeats ++ [state.leaseWatermarkNs] }
  | .writeRunning affectedFromNs =>
      if affectedFromNs ∈ state.heartbeats then
        some { state with
          heartbeats := state.heartbeats.erase affectedFromNs
          leaseNs := max affectedFromNs state.sealedFloorNs }
      else none
  | .sealDay utcDate =>
      -- a day cannot be sealed before it ends
      if dayEndNs utcDate ≤ state.clock then
        some { state with sealedNs := max state.sealedNs (dayEndNs utcDate) }
      else none
  | .recordSealed utcDate =>
      if dayEndNs utcDate ≤ state.sealedNs then
        some { state with sealedFloorNs := max state.sealedFloorNs (dayEndNs utcDate) }
      else none

def Step (state : CollectorState) (event : CollectorEvent) (after : CollectorState) : Prop :=
  state.next event = some after

/-! ## What the next boot must cover -/

/-- Every event of the critical groups that was admitted and not published lies in the gap. -/
def Covered (state : CollectorState) : Prop :=
  ∀ event ∈ state.admitted, event.group.Critical → event ∉ state.published →
    state.recoveryStartNs ≤ event.stamp

/-- Stamped, and neither published nor in a session. -/
def Underway (state : CollectorState) (event : StampedEvent) : Prop :=
  event ∈ state.received ∨ event ∈ state.waiting ∨ event ∈ state.woken ∨
    .event event ∈ state.queue event.group

/-- Stamped, and not published. -/
def Unpublished (state : CollectorState) (event : StampedEvent) : Prop :=
  state.Underway event ∨ event ∈ state.session event.group

/-- A critical chunk is published before no older event of its group, and a day is sealed after
the critical events that were stamped in it. -/
def InOrder (state : CollectorState) : CollectorEvent → Prop
  | .publish group => group.Critical → ∀ event, state.Underway event → event.group = group →
      ∀ last ∈ state.session group, last.stamp ≤ event.stamp
  | .sealDay utcDate => ∀ event, state.Unpublished event → event.group.Critical →
      dayEndNs utcDate ≤ event.stamp
  | _ => True

/-! ## Where events are -/

/-- Queues and sessions hold events of their group, and what was admitted is still there or
published. -/
structure Placed (state : CollectorState) : Prop where
  queued : ∀ group event, QueueItem.event event ∈ state.queue group → event.group = group
  inSession : ∀ group, ∀ event ∈ state.session group, event.group = group
  admitted : ∀ event ∈ state.admitted, event ∈ state.published ∨
    .event event ∈ state.queue event.group ∨ event ∈ state.session event.group

/-- Later, with no event that was not stamped before or now. -/
structure Grows (state after : CollectorState) : Prop where
  clock : state.clock ≤ after.clock
  stamps : ∀ event, after.Unpublished event → state.Unpublished event ∨ event.stamp = state.clock

section Moves
variable {state after : CollectorState} {event other : StampedEvent} {group : WriterGroup}

theorem Placed.congr (h : state.Placed) (hqueue : after.queue = state.queue)
    (hsession : after.session = state.session) (hadmitted : after.admitted = state.admitted)
    (hpublished : after.published = state.published) : after.Placed := by
  constructor
  · rw [hqueue]
    exact h.queued
  · rw [hsession]
    exact h.inSession
  · rw [hqueue, hsession, hadmitted, hpublished]
    exact h.admitted

theorem Grows.of_unpublished (hclock : after.clock = state.clock)
    (h : ∀ event, after.Unpublished event → state.Unpublished event) : Grows state after :=
  ⟨hclock.ge, fun event hm => .inl (h event hm)⟩

theorem enqueue_queue_self :
    (state.enqueue event false).queue event.group =
      state.queue event.group ++ [.event event] :=
  Function.update_self _ _ _

theorem enqueue_queue_of_ne (h : group ≠ event.group) :
    (state.enqueue event false).queue group = state.queue group :=
  Function.update_of_ne h _ _

theorem mem_enqueue_queue :
    QueueItem.event other ∈ (state.enqueue event false).queue group ↔
      .event other ∈ state.queue group ∨ group = event.group ∧ other = event := by
  by_cases hgroup : group = event.group
  · subst hgroup
    rw [enqueue_queue_self, List.mem_append, List.mem_singleton, QueueItem.event.injEq]
    exact or_congr_right (and_iff_right rfl).symm
  · rw [enqueue_queue_of_ne hgroup]
    exact (or_iff_left fun h => hgroup h.1).symm

theorem enqueue_unpublished {overloaded : Bool}
    (h : (state.enqueue event overloaded).Unpublished other) :
    state.Unpublished other ∨ other = event := by
  cases overloaded with
  | true => exact .inl h
  | false =>
    unfold Unpublished Underway at h ⊢
    rw [mem_enqueue_queue] at h
    change (other ∈ state.received ∨ other ∈ state.waiting ∨ other ∈ state.woken ∨ _) ∨
      other ∈ state.session other.group at h
    tauto

theorem Placed.enqueue (h : state.Placed) (overloaded : Bool) :
    (state.enqueue event overloaded).Placed := by
  cases overloaded with
  | true => exact h
  | false =>
    refine ⟨fun group queued hm => ?_, h.inSession, fun admitted hm => ?_⟩
    · cases mem_enqueue_queue.mp hm with
      | inl hm => exact h.queued group queued hm
      | inr heq => rw [heq.1, heq.2]
    · rw [mem_enqueue_queue]
      cases List.mem_append.mp hm with
      | inl hm => exact (h.admitted admitted hm).imp_right (Or.imp_left .inl)
      | inr heq =>
        rw [List.mem_singleton.mp heq]
        exact .inr (.inl (.inr ⟨rfl, rfl⟩))

/-- What is left of a queue was in it. -/
theorem mem_update_tail {α : Type} {queue : WriterGroup → List α} {first item : α} {rest : List α}
    {other : WriterGroup} (hqueue : queue group = first :: rest)
    (hm : item ∈ Function.update queue group rest other) : item ∈ queue other := by
  by_cases hother : other = group
  · rw [hother, Function.update_self] at hm
    rw [hother, hqueue]
    exact List.mem_cons_of_mem _ hm
  · rwa [Function.update_of_ne hother] at hm

theorem consume_cases (h : state.consume group = some after) :
    (∃ event rest, state.queue group = .event event :: rest ∧
      after = { state with
        queue := Function.update state.queue group rest
        session := Function.update state.session group (state.session group ++ [event]) }) ∨
    (∃ rest, state.queue group = .rotateWriter :: rest ∧
      after = { state with queue := Function.update state.queue group rest }) := by
  unfold CollectorState.consume at h
  cases hqueue : state.queue group with
  | nil =>
    rw [hqueue] at h
    cases h
  | cons item rest =>
    rw [hqueue] at h
    cases item with
    | event event => exact .inl ⟨event, rest, rfl, (Option.some.inj h).symm⟩
    | rotateWriter =>
      by_cases hempty : state.session group = []
      · exact .inr ⟨rest, rfl, (Option.some.inj ((if_pos hempty).symm.trans h)).symm⟩
      · cases (if_neg hempty).symm.trans h

theorem consume_grows (hplaced : state.Placed) (h : state.consume group = some after) :
    Grows state after := by
  cases consume_cases h with
  | inl hevent =>
    obtain ⟨event, rest, hqueue, rfl⟩ := hevent
    refine ⟨le_rfl, fun other hother => .inl ?_⟩
    unfold Unpublished Underway at hother ⊢
    by_cases hgroup : other.group = group
    · have hgroup' : event.group = group := hplaced.queued group event (by rw [hqueue]; simp)
      dsimp only at hother
      rw [hgroup, Function.update_self, Function.update_self, List.mem_append,
        List.mem_singleton] at hother
      rw [hgroup, hqueue, List.mem_cons, QueueItem.event.injEq]
      tauto
    · dsimp only at hother
      rw [Function.update_of_ne hgroup, Function.update_of_ne hgroup] at hother
      exact hother
  | inr hbarrier =>
    obtain ⟨rest, hqueue, rfl⟩ := hbarrier
    refine ⟨le_rfl, fun other hother => .inl ?_⟩
    unfold Unpublished Underway at hother ⊢
    by_cases hgroup : other.group = group
    · dsimp only at hother
      rw [hgroup, Function.update_self] at hother
      rw [hgroup, hqueue, List.mem_cons]
      tauto
    · dsimp only at hother
      rw [Function.update_of_ne hgroup] at hother
      exact hother

theorem Placed.consume (h : state.Placed) (hconsume : state.consume group = some after) :
    after.Placed := by
  cases consume_cases hconsume with
  | inl hevent =>
    obtain ⟨event, rest, hqueue, rfl⟩ := hevent
    have hgroup : event.group = group := h.queued group event (by rw [hqueue]; simp)
    refine ⟨fun other queued hm => ?_, fun other held hm => ?_, fun admitted hm => ?_⟩
    · exact h.queued other queued (mem_update_tail hqueue hm)
    · by_cases hother : other = group
      · subst hother
        dsimp only at hm
        rw [Function.update_self, List.mem_append, List.mem_singleton] at hm
        cases hm with
        | inl hm => exact h.inSession _ held hm
        | inr heq => rw [heq, hgroup]
      · dsimp only at hm
        rw [Function.update_of_ne hother] at hm
        exact h.inSession other held hm
    · have hplace := h.admitted admitted hm
      by_cases hother : admitted.group = group
      · dsimp only
        rw [hother, Function.update_self, Function.update_self, List.mem_append,
          List.mem_singleton]
        rw [hother, hqueue, List.mem_cons, QueueItem.event.injEq] at hplace
        tauto
      · dsimp only
        rw [Function.update_of_ne hother, Function.update_of_ne hother]
        exact hplace
  | inr hbarrier =>
    obtain ⟨rest, hqueue, rfl⟩ := hbarrier
    refine ⟨fun other queued hm => ?_, h.inSession, fun admitted hm => ?_⟩
    · exact h.queued other queued (mem_update_tail hqueue hm)
    · have hplace := h.admitted admitted hm
      by_cases hother : admitted.group = group
      · dsimp only
        rw [hother, Function.update_self]
        rw [hother, hqueue, List.mem_cons] at hplace
        tauto
      · dsimp only
        rw [Function.update_of_ne hother]
        exact hplace

theorem account_cases (h : state.account group = some after) :
    ∃ maxNs, state.finishing group = some maxNs ∧
      after = { state with
        finishing := Function.update state.finishing group none
        durableThroughNs := Function.update state.durableThroughNs group
          (some (max ((state.durableThroughNs group).getD 0) maxNs)) } := by
  unfold CollectorState.account at h
  cases hfinishing : state.finishing group with
  | none =>
    rw [hfinishing] at h
    cases h
  | some maxNs =>
    rw [hfinishing] at h
    exact ⟨maxNs, rfl, (Option.some.inj h).symm⟩

theorem publish_cases (h : state.publish group = some after) :
    ∃ maxNs, IsGreatest {ns | ∃ event ∈ state.session group, event.stamp = ns} maxNs ∧
      after = { state with
        session := Function.update state.session group []
        finishing := Function.update state.finishing group (some maxNs)
        published := state.published ++ state.session group } := by
  unfold CollectorState.publish at h
  cases hmax : ((state.session group).map StampedEvent.stamp).max? with
  | none =>
    rw [hmax] at h
    cases h
  | some maxNs =>
    rw [hmax] at h
    have hgreatest := max?_eq_some_iff_isGreatest.mp hmax
    refine ⟨maxNs, ?_, (Option.some.inj h).symm⟩
    simpa only [List.mem_map] using hgreatest

theorem publish_grows (h : state.publish group = some after) : Grows state after := by
  obtain ⟨maxNs, -, rfl⟩ := publish_cases h
  refine ⟨le_rfl, fun other hother => .inl ?_⟩
  unfold Unpublished Underway at hother ⊢
  by_cases hgroup : other.group = group
  · dsimp only at hother
    rw [hgroup, Function.update_self] at hother
    rw [hgroup]
    exact .inl (hother.resolve_right List.not_mem_nil)
  · dsimp only at hother
    rw [Function.update_of_ne hgroup] at hother
    exact hother

theorem Placed.publish (h : state.Placed) (hpublish : state.publish group = some after) :
    after.Placed := by
  obtain ⟨maxNs, -, rfl⟩ := publish_cases hpublish
  refine ⟨h.queued, fun other held hm => ?_, fun admitted hm => ?_⟩
  · by_cases hother : other = group
    · subst hother
      dsimp only at hm
      rw [Function.update_self] at hm
      cases hm
    · dsimp only at hm
      rw [Function.update_of_ne hother] at hm
      exact h.inSession other held hm
  · have hplace := h.admitted admitted hm
    dsimp only
    rw [List.mem_append]
    by_cases hother : admitted.group = group
    · rw [hother, Function.update_self]
      rw [hother] at hplace
      tauto
    · rw [Function.update_of_ne hother]
      tauto

end Moves

/-! ## Watermarks -/

/-- No event of the groups that is not published yet, or not stamped yet, is older. -/
structure Below (state : CollectorState) (groups : WriterGroup → Prop) (ns : Int) : Prop where
  clock : ns ≤ state.clock
  stamps : ∀ event, state.Unpublished event → groups event.group → ns ≤ event.stamp

theorem Below.grows {state after : CollectorState} {groups : WriterGroup → Prop} {ns : Int}
    (h : state.Below groups ns) (hgrows : Grows state after) : after.Below groups ns := by
  refine ⟨h.clock.trans hgrows.clock, fun event hm hgroup => ?_⟩
  cases hgrows.stamps event hm with
  | inl hold => exact h.stamps event hold hgroup
  | inr hnow =>
    rw [hnow]
    exact h.clock

theorem Below.le {state : CollectorState} {groups : WriterGroup → Prop} {a b : Int}
    (hb : state.Below groups b) (hle : a ≤ b) : state.Below groups a :=
  ⟨hle.trans hb.clock, fun event hm hgroup => hle.trans (hb.stamps event hm hgroup)⟩

theorem Below.max {state : CollectorState} {groups : WriterGroup → Prop} {a b : Int}
    (ha : state.Below groups a) (hb : state.Below groups b) : state.Below groups (max a b) :=
  ⟨max_le ha.clock hb.clock, fun event hm hgroup =>
    max_le (ha.stamps event hm hgroup) (hb.stamps event hm hgroup)⟩

/-- Every watermark in memory, on its way to the disk and on disk. -/
structure Watermarks (state : CollectorState) : Prop where
  stamped : ∀ event, state.Unpublished event → event.stamp ≤ state.clock
  zero : state.Below WriterGroup.Critical 0
  started : state.Below WriterGroup.Critical state.startedNs
  lease : state.Below WriterGroup.Critical state.leaseNs
  sealed : state.Below WriterGroup.Critical state.sealedNs
  floor : state.sealedFloorNs ≤ state.sealedNs
  heartbeats : ∀ ns ∈ state.heartbeats, state.Below WriterGroup.Critical ns
  durable : ∀ group : WriterGroup, group.Critical → ∀ ns ∈ state.durableThroughNs group,
    state.Below (· = group) ns
  finishing : ∀ group : WriterGroup, group.Critical → ∀ ns ∈ state.finishing group,
    state.Below (· = group) ns

/-- The watermarks are the same. -/
structure SameMarks (state after : CollectorState) : Prop where
  startedNs : after.startedNs = state.startedNs
  leaseNs : after.leaseNs = state.leaseNs
  sealedNs : after.sealedNs = state.sealedNs
  sealedFloorNs : after.sealedFloorNs = state.sealedFloorNs
  heartbeats : after.heartbeats = state.heartbeats
  durableThroughNs : after.durableThroughNs = state.durableThroughNs
  finishing : after.finishing = state.finishing

theorem SameMarks.trans {first second third : CollectorState} (h : SameMarks first second)
    (h' : SameMarks second third) : SameMarks first third :=
  ⟨h'.1.trans h.1, h'.2.trans h.2, h'.3.trans h.3, h'.4.trans h.4, h'.5.trans h.5,
    h'.6.trans h.6, h'.7.trans h.7⟩

namespace Watermarks
variable {state after : CollectorState} {group : WriterGroup}

theorem stamped_grows (h : state.Watermarks) (hgrows : Grows state after) (event : StampedEvent)
    (hm : after.Unpublished event) : event.stamp ≤ after.clock := by
  cases hgrows.stamps event hm with
  | inl hold => exact (h.stamped event hold).trans hgrows.clock
  | inr hnow =>
    rw [hnow]
    exact hgrows.clock

theorem grows (h : state.Watermarks) (hgrows : Grows state after)
    (hsame : SameMarks state after) : after.Watermarks := by
  constructor
  · exact h.stamped_grows hgrows
  · exact h.zero.grows hgrows
  · rw [hsame.startedNs]
    exact h.started.grows hgrows
  · rw [hsame.leaseNs]
    exact h.lease.grows hgrows
  · rw [hsame.sealedNs]
    exact h.sealed.grows hgrows
  · rw [hsame.sealedFloorNs, hsame.sealedNs]
    exact h.floor
  · rw [hsame.heartbeats]
    exact fun ns hm => (h.heartbeats ns hm).grows hgrows
  · rw [hsame.durableThroughNs]
    exact fun group hcritical ns hns => (h.durable group hcritical ns hns).grows hgrows
  · rw [hsame.finishing]
    exact fun group hcritical ns hns => (h.finishing group hcritical ns hns).grows hgrows

/-- The last stamp of a chunk bounds what its writer has not published. -/
theorem publish (h : state.Watermarks) (hplaced : state.Placed)
    (hpublish : state.publish group = some after) (hordered : state.InOrder (.publish group)) :
    after.Watermarks := by
  have hgrows := publish_grows hpublish
  obtain ⟨maxNs, hmax, rfl⟩ := publish_cases hpublish
  obtain ⟨last, hlast, hstamp⟩ := hmax.1
  have hlast' : state.Unpublished last := by
    right
    rw [hplaced.inSession group last hlast]
    exact hlast
  refine ⟨h.stamped_grows hgrows, h.zero.grows hgrows, h.started.grows hgrows,
    h.lease.grows hgrows, h.sealed.grows hgrows, h.floor,
    fun ns hm => (h.heartbeats ns hm).grows hgrows,
    fun other hcritical ns hns => (h.durable other hcritical ns hns).grows hgrows,
    fun other hcritical ns hns => ?_⟩
  dsimp only at hns
  by_cases hother : other = group
  · subst hother
    rw [Function.update_self] at hns
    cases hns
    refine ⟨?_, fun event hm hgroup => ?_⟩
    · rw [← hstamp]
      exact h.stamped last hlast'
    · cases hm with
      | inl hunderway =>
        rw [← hstamp]
        exact hordered hcritical event hunderway hgroup last hlast
      | inr hsession =>
        dsimp only at hsession
        rw [hgroup, Function.update_self] at hsession
        cases hsession
  · rw [Function.update_of_ne hother] at hns
    exact (h.finishing other hcritical ns hns).grows hgrows

theorem account (h : state.Watermarks) (haccount : state.account group = some after) :
    after.Watermarks := by
  obtain ⟨maxNs, hfinishing, rfl⟩ := account_cases haccount
  have hgrows : Grows state { state with
      finishing := Function.update state.finishing group none
      durableThroughNs := Function.update state.durableThroughNs group
        (some (max ((state.durableThroughNs group).getD 0) maxNs)) } :=
    ⟨le_rfl, fun event hm => .inl hm⟩
  refine ⟨h.stamped_grows hgrows, h.zero.grows hgrows, h.started.grows hgrows,
    h.lease.grows hgrows, h.sealed.grows hgrows, h.floor,
    fun ns hm => (h.heartbeats ns hm).grows hgrows, fun other hcritical ns hns => ?_,
    fun other hcritical ns hns => ?_⟩
  · dsimp only at hns
    by_cases hother : other = group
    · subst hother
      rw [Function.update_self] at hns
      cases hns
      have hnew := h.finishing other hcritical maxNs hfinishing
      have hold : state.Below (· = other) ((state.durableThroughNs other).getD 0) := by
        cases hdurable : state.durableThroughNs other with
        | none =>
          exact ⟨h.zero.clock, fun event hm hgroup => h.zero.stamps event hm (hgroup ▸ hcritical)⟩
        | some ns => exact h.durable other hcritical ns hdurable
      exact (hold.max hnew).grows hgrows
    · rw [Function.update_of_ne hother] at hns
      exact (h.durable other hcritical ns hns).grows hgrows
  · dsimp only at hns
    by_cases hother : other = group
    · subst hother
      rw [Function.update_self] at hns
      cases hns
    · rw [Function.update_of_ne hother] at hns
      exact (h.finishing other hcritical ns hns).grows hgrows

/-- What a heartbeat reads is below both groups, or the start of the boot. -/
theorem leaseWatermark (h : state.Watermarks) :
    state.Below WriterGroup.Critical state.leaseWatermarkNs := by
  unfold leaseWatermarkNs durableThrough
  cases hdepth : state.durableThroughNs .depth with
  | none => exact h.started
  | some depth =>
    cases htrades : state.durableThroughNs .tradesMarket with
    | none => exact h.started
    | some trades =>
      have hdepth := h.durable .depth (.inl rfl) depth hdepth
      have htrades := h.durable .tradesMarket (.inr rfl) trades htrades
      dsimp only
      by_cases hzero : min depth trades = 0
      · rw [if_pos hzero]
        exact h.started
      · rw [if_neg hzero]
        refine ⟨(min_le_left _ _).trans hdepth.clock, fun event hm hgroup => ?_⟩
        cases hgroup with
        | inl hgroup => exact (min_le_left _ _).trans (hdepth.stamps event hm hgroup)
        | inr hgroup => exact (min_le_right _ _).trans (htrades.stamps event hm hgroup)

/-- The next boot starts its gap from watermarks that are below every event that is lost. -/
theorem covered (h : state.Watermarks) (hplaced : state.Placed) : state.Covered := by
  intro event hm hcritical hlost
  have hunpublished : state.Unpublished event := by
    cases (hplaced.admitted event hm).resolve_left hlost with
    | inl hqueued => exact .inl (.inr (.inr (.inr hqueued)))
    | inr hsession => exact .inr hsession
  exact (h.lease.max h.sealed).stamps event hunpublished hcritical

end Watermarks

/-! ## Runs -/

section Runs
variable {state after : CollectorState} {event : StampedEvent}

theorem sameMarks_enqueue (overloaded : Bool) : SameMarks state (state.enqueue event overloaded) := by
  cases overloaded with
  | true => exact ⟨rfl, rfl, rfl, rfl, rfl, rfl, rfl⟩
  | false => exact ⟨rfl, rfl, rfl, rfl, rfl, rfl, rfl⟩

theorem clock_enqueue (overloaded : Bool) : (state.enqueue event overloaded).clock = state.clock := by
  cases overloaded <;> rfl

structure Kept (state : CollectorState) : Prop where
  placed : state.Placed
  watermarks : state.Watermarks

theorem Kept.same (h : state.Kept) (hplaced : after.Placed) (hgrows : Grows state after)
    (hsame : SameMarks state after) : after.Kept :=
  ⟨hplaced, h.watermarks.grows hgrows hsame⟩

/-- A putter that goes on into the queue. -/
theorem Kept.enqueue {rest : CollectorState} (h : state.Kept) (hplaced : rest.Placed)
    (hrest : Grows state rest) (hsame : SameMarks state rest) (hevent : state.Unpublished event)
    (overloaded : Bool) : (rest.enqueue event overloaded).Kept := by
  have hmarks : SameMarks rest (rest.enqueue event overloaded) := sameMarks_enqueue overloaded
  apply h.same (hplaced.enqueue overloaded)
  · refine ⟨hrest.clock.trans (clock_enqueue overloaded).ge, fun other hm => ?_⟩
    cases enqueue_unpublished hm with
    | inl hm => exact hrest.stamps other hm
    | inr heq =>
      rw [heq]
      exact .inl hevent
  · exact hsame.trans hmarks

theorem Kept.put (h : state.Kept) (overloaded : Bool)
    (hstep : Step state (.put event overloaded) after) : after.Kept := by
  unfold Step next at hstep
  by_cases hm : event ∈ state.received
  · have hput := (if_pos hm).symm.trans hstep
    have hrest : ∀ other, other ∈ state.received.erase event → other ∈ state.received :=
      fun other => List.mem_of_mem_erase
    by_cases haccepting : state.accepting = true
    · cases (if_pos haccepting).symm.trans hput
      have hplaced : Placed { state with received := state.received.erase event } :=
        h.placed.congr rfl rfl rfl rfl
      refine h.enqueue hplaced (.of_unpublished rfl fun other hother => ?_)
        ⟨rfl, rfl, rfl, rfl, rfl, rfl, rfl⟩ (.inl (.inl hm)) overloaded
      unfold Unpublished Underway at hother ⊢
      exact hother.imp_left (Or.imp_left (hrest other))
    · cases (if_neg haccepting).symm.trans hput
      refine h.same (h.placed.congr rfl rfl rfl rfl) (.of_unpublished rfl fun other hother => ?_)
        ⟨rfl, rfl, rfl, rfl, rfl, rfl, rfl⟩
      unfold Unpublished Underway at hother ⊢
      dsimp only at hother
      rw [List.mem_append, List.mem_singleton] at hother
      have hreceived := hrest other
      by_cases heq : other = event
      · rw [heq]
        exact .inl (.inl hm)
      · tauto
  · cases (if_neg hm).symm.trans hstep

theorem Kept.resume (h : state.Kept) (overloaded : Bool)
    (hstep : Step state (.resume event overloaded) after) : after.Kept := by
  unfold Step next at hstep
  by_cases hm : event ∈ state.woken
  · cases (if_pos hm).symm.trans hstep
    have hplaced : Placed { state with woken := state.woken.erase event } :=
      h.placed.congr rfl rfl rfl rfl
    refine h.enqueue hplaced (.of_unpublished rfl fun other hother => ?_)
      ⟨rfl, rfl, rfl, rfl, rfl, rfl, rfl⟩ (.inl (.inr (.inr (.inl hm)))) overloaded
    have hrest : other ∈ state.woken.erase event → other ∈ state.woken := List.mem_of_mem_erase
    unfold Unpublished Underway at hother ⊢
    dsimp only at hother
    tauto
  · cases (if_neg hm).symm.trans hstep

theorem mem_queue_barrier {group : WriterGroup} :
    QueueItem.event event ∈ (if group ∈ writerGroups then state.queue group ++ [.rotateWriter]
        else state.queue group) ↔ .event event ∈ state.queue group := by
  split
  · rw [List.mem_append, List.mem_singleton]
    exact or_iff_left nofun
  · exact .rfl

theorem Kept.beginRotate (h : state.Kept) (hstep : Step state .beginRotate after) :
    after.Kept := by
  unfold Step next at hstep
  by_cases haccepting : state.accepting = true
  · cases (if_pos haccepting).symm.trans hstep
    refine h.same ⟨fun group queued hm => ?_, h.placed.inSession, fun admitted hm => ?_⟩
      (.of_unpublished rfl fun other hother => ?_) ⟨rfl, rfl, rfl, rfl, rfl, rfl, rfl⟩
    · exact h.placed.queued group queued (mem_queue_barrier.mp hm)
    · rw [mem_queue_barrier]
      exact h.placed.admitted admitted hm
    · unfold Unpublished Underway at hother ⊢
      rw [mem_queue_barrier] at hother
      exact hother
  · cases (if_neg haccepting).symm.trans hstep

theorem Kept.endRotate (h : state.Kept) (hstep : Step state .endRotate after) : after.Kept := by
  unfold Step next at hstep
  by_cases haccepting : state.accepting = true
  · cases (if_pos haccepting).symm.trans hstep
  · cases (if_neg haccepting).symm.trans hstep
    refine h.same (h.placed.congr rfl rfl rfl rfl) (.of_unpublished rfl fun other hother => ?_)
      ⟨rfl, rfl, rfl, rfl, rfl, rfl, rfl⟩
    unfold Unpublished Underway at hother ⊢
    dsimp only at hother
    rw [List.mem_append] at hother
    have hnil : other ∉ ([] : List StampedEvent) := List.not_mem_nil
    tauto

theorem Kept.receive (h : state.Kept) {group : WriterGroup}
    (hstep : Step state (.receive group) after) : after.Kept := by
  unfold Step next at hstep
  cases hstep
  refine h.same (h.placed.congr rfl rfl rfl rfl) ⟨le_rfl, fun other hm => ?_⟩
    ⟨rfl, rfl, rfl, rfl, rfl, rfl, rfl⟩
  unfold Unpublished Underway at hm ⊢
  dsimp only at hm
  rw [List.mem_append, List.mem_singleton] at hm
  by_cases heq : other = ⟨state.nextSeq, group, state.clock⟩
  · right
    rw [heq]
  · tauto

theorem Kept.tick (h : state.Kept) {ns : Int} (hstep : Step state (.tick ns) after) :
    after.Kept := by
  unfold Step next at hstep
  by_cases hle : state.clock ≤ ns
  · cases (if_pos hle).symm.trans hstep
    exact h.same (h.placed.congr rfl rfl rfl rfl) ⟨hle, fun other hm => .inl hm⟩
      ⟨rfl, rfl, rfl, rfl, rfl, rfl, rfl⟩
  · cases (if_neg hle).symm.trans hstep

theorem Kept.consume (h : state.Kept) {group : WriterGroup}
    (hstep : Step state (.consume group) after) : after.Kept := by
  unfold Step next at hstep
  by_cases hidle : state.finishing group = none
  · have hconsume := (if_pos hidle).symm.trans hstep
    apply h.same (h.placed.consume hconsume) (consume_grows h.placed hconsume)
    cases consume_cases hconsume with
    | inl hevent =>
      obtain ⟨_, _, -, rfl⟩ := hevent
      exact ⟨rfl, rfl, rfl, rfl, rfl, rfl, rfl⟩
    | inr hbarrier =>
      obtain ⟨_, -, rfl⟩ := hbarrier
      exact ⟨rfl, rfl, rfl, rfl, rfl, rfl, rfl⟩
  · cases (if_neg hidle).symm.trans hstep

theorem Kept.publish (h : state.Kept) {group : WriterGroup}
    (hstep : Step state (.publish group) after) (hordered : state.InOrder (.publish group)) :
    after.Kept := by
  unfold Step next at hstep
  by_cases hidle : state.finishing group = none
  · have hpublish := (if_pos hidle).symm.trans hstep
    exact ⟨h.placed.publish hpublish, h.watermarks.publish h.placed hpublish hordered⟩
  · cases (if_neg hidle).symm.trans hstep

theorem Kept.account (h : state.Kept) {group : WriterGroup}
    (hstep : Step state (.account group) after) : after.Kept := by
  have haccount : state.account group = some after := hstep
  refine ⟨?_, h.watermarks.account haccount⟩
  obtain ⟨maxNs, -, rfl⟩ := account_cases haccount
  exact h.placed.congr rfl rfl rfl rfl

/-- The watermarks are moved, each to a value that is below what is not published. -/
theorem Kept.marks (h : state.Kept) {heartbeats : List Int} {leaseNs sealedFloorNs sealedNs : Int}
    (hheartbeats : ∀ ns ∈ heartbeats, state.Below WriterGroup.Critical ns)
    (hlease : state.Below WriterGroup.Critical leaseNs)
    (hsealed : state.Below WriterGroup.Critical sealedNs) (hfloor : sealedFloorNs ≤ sealedNs) :
    Kept { state with heartbeats, leaseNs, sealedFloorNs, sealedNs } := by
  have hmarks := h.watermarks
  have hgrows : Grows state { state with heartbeats, leaseNs, sealedFloorNs, sealedNs } :=
    .of_unpublished rfl fun other hm => hm
  exact ⟨h.placed.congr rfl rfl rfl rfl, hmarks.stamped_grows hgrows, hmarks.zero.grows hgrows,
    hmarks.started.grows hgrows, hlease.grows hgrows, hsealed.grows hgrows, hfloor,
    fun ns hm => (hheartbeats ns hm).grows hgrows,
    fun other hcritical ns hns => (hmarks.durable other hcritical ns hns).grows hgrows,
    fun other hcritical ns hns => (hmarks.finishing other hcritical ns hns).grows hgrows⟩

theorem Kept.heartbeat (h : state.Kept) (hstep : Step state .heartbeat after) : after.Kept := by
  unfold Step next at hstep
  cases hstep
  have hmarks := h.watermarks
  apply h.marks _ hmarks.lease hmarks.sealed hmarks.floor
  intro ns hm
  cases List.mem_append.mp hm with
  | inl hm => exact hmarks.heartbeats ns hm
  | inr heq =>
    rw [List.mem_singleton.mp heq]
    exact hmarks.leaseWatermark

theorem Kept.writeRunning (h : state.Kept) {ns : Int}
    (hstep : Step state (.writeRunning ns) after) : after.Kept := by
  unfold Step next at hstep
  have hmarks := h.watermarks
  by_cases hm : ns ∈ state.heartbeats
  · cases (if_pos hm).symm.trans hstep
    apply h.marks _ _ hmarks.sealed hmarks.floor
    · intro other hother
      exact hmarks.heartbeats other (List.mem_of_mem_erase hother)
    · exact (hmarks.heartbeats ns hm).max (hmarks.sealed.le hmarks.floor)
  · cases (if_neg hm).symm.trans hstep

theorem Kept.sealDay (h : state.Kept) {utcDate : Int}
    (hstep : Step state (.sealDay utcDate) after) (hordered : state.InOrder (.sealDay utcDate)) :
    after.Kept := by
  unfold Step next at hstep
  have hmarks := h.watermarks
  by_cases hended : dayEndNs utcDate ≤ state.clock
  · cases (if_pos hended).symm.trans hstep
    apply h.marks hmarks.heartbeats hmarks.lease _ (hmarks.floor.trans (le_max_left _ _))
    exact hmarks.sealed.max ⟨hended, hordered⟩
  · cases (if_neg hended).symm.trans hstep

theorem Kept.recordSealed (h : state.Kept) {utcDate : Int}
    (hstep : Step state (.recordSealed utcDate) after) : after.Kept := by
  unfold Step next at hstep
  have hmarks := h.watermarks
  by_cases hsealed : dayEndNs utcDate ≤ state.sealedNs
  · cases (if_pos hsealed).symm.trans hstep
    exact h.marks hmarks.heartbeats hmarks.lease hmarks.sealed (max_le hmarks.floor hsealed)
  · cases (if_neg hsealed).symm.trans hstep

theorem Step.kept {label : CollectorEvent} (hstep : Step state label after) (h : state.Kept)
    (hordered : state.InOrder label) : after.Kept := by
  cases label with
  | tick ns => exact h.tick hstep
  | receive group => exact h.receive hstep
  | put event overloaded => exact h.put overloaded hstep
  | resume event overloaded => exact h.resume overloaded hstep
  | beginRotate => exact h.beginRotate hstep
  | endRotate => exact h.endRotate hstep
  | consume group => exact h.consume hstep
  | publish group => exact h.publish hstep hordered
  | account group => exact h.account hstep
  | heartbeat => exact h.heartbeat hstep
  | writeRunning ns => exact h.writeRunning hstep
  | sealDay utcDate => exact h.sealDay hstep hordered
  | recordSealed utcDate => exact h.recordSealed hstep

theorem kept_boot {startedNs sealedNs : Int} (hstarted : 0 ≤ startedNs)
    (hsealed : sealedNs ≤ startedNs) : (boot startedNs sealedNs).Kept := by
  have hnone : ∀ event, ¬ (boot startedNs sealedNs).Unpublished event := by
    intro event hm
    unfold Unpublished Underway boot at hm
    simp only [List.not_mem_nil, or_self] at hm
  have hbelow : ∀ ns ≤ startedNs, (boot startedNs sealedNs).Below WriterGroup.Critical ns :=
    fun ns hle => ⟨hle, fun event hm => absurd hm (hnone event)⟩
  refine ⟨⟨nofun, nofun, nofun⟩, fun event hm => absurd hm (hnone event), hbelow 0 hstarted,
    hbelow startedNs le_rfl, hbelow _ (max_le le_rfl hsealed), hbelow sealedNs hsealed, le_rfl,
    nofun, nofun, nofun⟩

/-- Whenever the boot crashes, the gap of the next one covers what was admitted and lost. -/
theorem run_covered {startedNs sealedNs : Int} (hstarted : 0 ≤ startedNs)
    (hsealed : sealedNs ≤ startedNs) {events : List CollectorEvent} {crashed : CollectorState}
    (hrun : Run (Guarded InOrder Step) (boot startedNs sealedNs) events crashed) :
    crashed.Covered := by
  have hkept : crashed.Kept :=
    hrun.preserves (fun h hstep => hstep.2.kept h hstep.1) (kept_boot hstarted hsealed)
  exact hkept.watermarks.covered hkept.placed

theorem inOrder_publish {group : WriterGroup}
    (hputters : ∀ event ∈ state.received ++ state.waiting ++ state.woken,
      ∀ last ∈ state.session group, last.stamp ≤ event.stamp)
    (hqueue : ∀ last ∈ state.session group, ∀ event, QueueItem.event event ∈ state.queue group →
      last.stamp ≤ event.stamp) :
    state.InOrder (.publish group) := by
  intro _ event hunderway hgroup last hlast
  unfold Underway at hunderway
  rw [hgroup, ← or_assoc, ← or_assoc, ← List.mem_append, ← List.mem_append] at hunderway
  cases hunderway with
  | inl hm => exact hputters event hm last hlast
  | inr hm => exact hqueue last hlast event hm

/-- Both groups have published up to 20, and a depth event of 30 is still in the queue. -/
theorem run_covered_queued : ∃ crashed : CollectorState,
    ⟨2, .depth, 30⟩ ∈ crashed.admitted ∧ crashed.recoveryStartNs = 20 ∧ crashed.Covered := by
  have hrun : ∃ crashed : CollectorState,
      Run (Guarded InOrder Step) (boot 10 0)
        [.tick 20, .receive .depth, .receive .tradesMarket, .put ⟨0, .depth, 20⟩ false,
          .put ⟨1, .tradesMarket, 20⟩ false, .tick 30, .receive .depth,
          .put ⟨2, .depth, 30⟩ false, .consume .depth, .publish .depth, .account .depth,
          .consume .tradesMarket, .publish .tradesMarket, .account .tradesMarket, .heartbeat,
          .writeRunning 20] crashed ∧
      ⟨2, .depth, 30⟩ ∈ crashed.admitted ∧ crashed.recoveryStartNs = 20 := by
    refine ⟨_, .cons ⟨trivial, rfl⟩ <| .cons ⟨trivial, rfl⟩ <| .cons ⟨trivial, rfl⟩ <|
      .cons ⟨trivial, rfl⟩ <| .cons ⟨trivial, rfl⟩ <| .cons ⟨trivial, rfl⟩ <|
      .cons ⟨trivial, rfl⟩ <| .cons ⟨trivial, rfl⟩ <| .cons ⟨trivial, rfl⟩ <|
      .cons ⟨inOrder_publish (by decide) ?_, rfl⟩ <| .cons ⟨trivial, rfl⟩ <|
      .cons ⟨trivial, rfl⟩ <| .cons ⟨inOrder_publish (by decide) ?_, rfl⟩ <|
      .cons ⟨trivial, rfl⟩ <| .cons ⟨trivial, rfl⟩ <| .cons ⟨trivial, rfl⟩ (.nil _),
      by decide, by decide⟩
    · intro last hlast event hevent
      have hlast : last ∈ [⟨0, .depth, 20⟩] := hlast
      have hevent : QueueItem.event event ∈ [.event ⟨2, .depth, 30⟩] := hevent
      rw [List.mem_singleton] at hlast hevent
      rw [hlast, QueueItem.event.inj hevent]
      decide
    · intro last _ event hevent
      have hevent : QueueItem.event event ∈ [] := hevent
      cases hevent
  obtain ⟨crashed, hrun, hadmitted, hstart⟩ := hrun
  exact ⟨crashed, hadmitted, hstart, run_covered (by decide) (by decide) hrun⟩

/-- A depth event of 10 is held back by a rotation and goes on behind one of 20, which is
published alone. -/
theorem not_covered_heldBack : ¬ ∀ (startedNs sealedNs : Int) (events : List CollectorEvent)
    (crashed : CollectorState), 0 ≤ startedNs → sealedNs ≤ startedNs →
      Run Step (boot startedNs sealedNs) events crashed → crashed.Covered := by
  intro hcovered
  have hrun : ∃ crashed : CollectorState,
      Run Step (boot 10 0)
        [.beginRotate, .receive .depth, .put ⟨0, .depth, 10⟩ false, .consume .depth,
          .consume .tradesMarket, .consume .metadata, .endRotate, .tick 20,
          .receive .depth, .put ⟨1, .depth, 20⟩ false, .resume ⟨0, .depth, 10⟩ false,
          .receive .tradesMarket, .put ⟨2, .tradesMarket, 20⟩ false, .consume .depth,
          .publish .depth, .account .depth,
          .consume .tradesMarket, .publish .tradesMarket, .account .tradesMarket, .heartbeat,
          .writeRunning 20] crashed ∧
      ⟨0, .depth, 10⟩ ∈ crashed.admitted ∧ ⟨0, .depth, 10⟩ ∉ crashed.published ∧
      crashed.recoveryStartNs = 20 := by
    exact ⟨_, .cons rfl <| .cons rfl <| .cons rfl <| .cons rfl <| .cons rfl <| .cons rfl <|
      .cons rfl <| .cons rfl <| .cons rfl <| .cons rfl <| .cons rfl <| .cons rfl <|
      .cons rfl <| .cons rfl <| .cons rfl <| .cons rfl <| .cons rfl <| .cons rfl <|
      .cons rfl <| .cons rfl <| .cons rfl (.nil _), by decide, by decide, by decide⟩
  obtain ⟨crashed, hrun, hadmitted, hlost, hstart⟩ := hrun
  have hle := hcovered 10 0 _ crashed (by decide) (by decide) hrun _ hadmitted (.inl rfl) hlost
  rw [hstart] at hle
  exact absurd hle (by decide)

end Runs

end CollectorState

end MiryFormal
