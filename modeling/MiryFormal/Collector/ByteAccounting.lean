import MiryFormal.Collector.ByteQueues

/-!
# The bytes in use

In every state the counters of `ByteBoundedQueues` are the reserved bytes of the events that
were admitted and are not released yet. Each group is a pipeline: an event is in the queue, in
the hand of the writer, in the batch of its session or in a flush that is to be released, and it
never overtakes another one.
-/

namespace MiryFormal

set_option autoImplicit false

def queuedBytes (events : List QueuedEvent) : Nat := (events.map QueuedEvent.reservedBytes).sum

@[simp] theorem queuedBytes_nil : queuedBytes [] = 0 := rfl

@[simp] theorem queuedBytes_singleton (queued : QueuedEvent) :
    queuedBytes [queued] = queued.reservedBytes := List.sum_singleton

@[simp] theorem queuedBytes_append (events later : List QueuedEvent) :
    queuedBytes (events ++ later) = queuedBytes events + queuedBytes later := by
  unfold queuedBytes
  rw [List.map_append, List.sum_append]

theorem QueuedEvent.reservedBytes_pos (queued : QueuedEvent) : 0 < queued.reservedBytes := by
  rw [queued.reserved]
  unfold RawEvent.approximateSizeBytes
  omega

theorem queuedBytes_eq_zero {events : List QueuedEvent} (h : queuedBytes events = 0) :
    events = [] := by
  cases events with
  | nil => rfl
  | cons queued later =>
    have hpos := queued.reservedBytes_pos
    have hcons : queuedBytes (queued :: later) = queued.reservedBytes + queuedBytes later := by
      unfold queuedBytes
      rw [List.map_cons, List.sum_cons]
    omega

/-! ## Where an event is -/

def WriterItem.queued : WriterItem → List QueuedEvent
  | event queued => [queued]
  | control _ => []

def ByteBoundedQueues.queued (queues : ByteBoundedQueues) (group : WriterGroup) :
    List QueuedEvent :=
  (queues.queues group).flatMap WriterItem.queued

/-- The event that a statement is about to handle. -/
def WriterStatement.held : WriterStatement → List QueuedEvent
  | rotateBefore queued | openSession queued | add queued => [queued]
  | _ => []

namespace QueueWriter

def held (state : QueueWriter) : List QueuedEvent := state.todo.flatMap WriterStatement.held

def batch (state : QueueWriter) : List QueuedEvent :=
  (state.session.map WriterSession.batch).getD []

def flushed (state : QueueWriter) : List QueuedEvent := (state.releasing.map Prod.fst).getD []

/-- What has left the queue and is not released yet. -/
def events (state : QueueWriter) : List QueuedEvent := state.flushed ++ state.batch ++ state.held

/-- The byte counts of a writer are those of its events. -/
structure Sound (state : QueueWriter) : Prop where
  batchBytes : ∀ session, state.session = some session →
    session.batchBytes = queuedBytes session.batch
  releasing : ∀ batch bytes, state.releasing = some (batch, bytes) →
    bytes = queuedBytes batch ∧ batch ≠ []
  raised : state.raised ≠ some ByteBoundedQueues.releaseError

end QueueWriter

namespace QueuedWriters

/-- The events of a group that are not released yet, the oldest first. -/
def outstanding (state : QueuedWriters) (group : WriterGroup) : List QueuedEvent :=
  (state.writers group).events ++ state.queues.queued group

/-- What the counters of the queues say. -/
structure Accounted (limits : QueueLimits) (state : QueuedWriters) : Prop where
  placed : ∀ group, state.admitted group = state.released group ++ state.outstanding group
  byGroup : ∀ group, state.queues.usedBytesByGroup group = queuedBytes (state.outstanding group)
  total : state.queues.usedBytes =
    (writerGroups.map fun group => queuedBytes (state.outstanding group)).sum
  nonneg : 0 ≤ state.queues.usedBytes
  bounded : state.queues.usedBytes ≤ limits.maxBytes
  /-- No `release` has raised. -/
  released : ∀ group, (state.writers group).raised ≠ some ByteBoundedQueues.releaseError
  rejected : ∀ event nowNs message queues,
    state.queues.put limits event nowNs = (.error message, queues) →
      queues = { state.queues with hardRejections := state.queues.hardRejections + 1 }
  aboveWarn : state.queues.aboveWarn = true ↔
    limits.thresholds.lastCrossing (state.queues.usedBytes :: state.history) = some .upward

end QueuedWriters

/-! ## One statement of a writer -/

theorem WriterSession.add_batchBytes {limits : ChunkLimits} {session : WriterSession}
    (h : session.batchBytes = queuedBytes session.batch) (queued : QueuedEvent) :
    (session.add limits queued).2.batchBytes = queuedBytes (session.add limits queued).2.batch := by
  unfold WriterSession.add
  dsimp only
  rw [queuedBytes_append, queuedBytes_singleton, h]

theorem WriterSession.flush_fst (session : WriterSession)
    (h : session.batchBytes = queuedBytes session.batch) :
    session.flush.1 = queuedBytes session.batch := by
  unfold WriterSession.flush
  split
  · rename_i hempty
    rw [List.isEmpty_iff.mp hempty]
    rfl
  · exact h

/-- `finish` publishes flushed sessions only, and its errors are not those of `release`. -/
theorem WriterSession.finish_cases (sizeOf : ParquetFile → Nat)
    (sha256File : ParquetFile → String) (writer : ChunkWriter) (session : WriterSession)
    (createdAt : Int) :
    (∃ chunk, session.finish sizeOf sha256File writer createdAt = .ok chunk ∧
      session.batch = []) ∨
    ∃ message, session.finish sizeOf sha256File writer createdAt = .error message ∧
      message ≠ ByteBoundedQueues.releaseError := by
  unfold WriterSession.finish
  split
  · exact .inr ⟨_, rfl, by decide⟩
  · rename_i hflushed
    have hbatch : session.batch = [] := List.isEmpty_iff.mp (not_not.mp hflushed)
    split
    · unfold WriterSession.manifest
      split
      · exact .inl ⟨_, rfl, hbatch⟩
      · exact .inr ⟨_, rfl, by decide⟩
    · exact .inr ⟨_, rfl, by decide⟩

/-- Flushing twice in a row flushes once. -/
theorem WriterSession.flush_batchBytes (session : WriterSession)
    (h : session.batchBytes = queuedBytes session.batch) :
    session.flush.2.batchBytes = queuedBytes session.flush.2.batch := by
  unfold WriterSession.flush
  split
  · exact h
  · rfl

namespace QueueWriter
variable {state next : QueueWriter} {rest : List WriterStatement}

/-- The state after a statement, with the same events in the same order. -/
def Moves (state next : QueueWriter) : Prop := next.Sound ∧ next.events = state.events

theorem Sound.moves (h : state.Sound) (hsession : next.session = state.session)
    (hreleasing : next.releasing = state.releasing)
    (hraised : next.raised ≠ some ByteBoundedQueues.releaseError)
    (hheld : next.held = state.held) : state.Moves next := by
  refine ⟨⟨?_, ?_, hraised⟩, ?_⟩
  · rw [hsession]
    exact h.batchBytes
  · rw [hreleasing]
    exact h.releasing
  · unfold events flushed batch
    rw [hsession, hreleasing, hheld]

theorem held_cons {statement : WriterStatement} (htodo : state.todo = statement :: rest) :
    state.held = statement.held ++ rest.flatMap WriterStatement.held := by
  unfold held
  rw [htodo, List.flatMap_cons]

theorem batch_of_session {session : WriterSession} (hsession : state.session = some session) :
    state.batch = session.batch := by
  unfold batch
  rw [hsession]
  rfl

theorem Sound.rotateBefore (h : state.Sound) {queued : QueuedEvent}
    (htodo : state.todo = .rotateBefore queued :: rest) (writer : ChunkWriter) :
    state.Moves (state.rotateBefore writer rest queued) := by
  unfold QueueWriter.rotateBefore
  split
  · exact h.moves rfl rfl h.raised (held_cons htodo).symm
  · exact h.moves rfl rfl h.raised (held_cons htodo).symm

theorem Sound.openSession (h : state.Sound) {queued : QueuedEvent}
    (htodo : state.todo = .openSession queued :: rest) (writer : ChunkWriter)
    (stamp : ChunkStamp) : state.Moves (state.openSession writer rest stamp queued) := by
  have hheld : (state.openSession writer rest stamp queued).held = state.held :=
    (held_cons htodo).symm
  cases hsession : state.session with
  | none =>
    refine ⟨⟨?_, h.releasing, h.raised⟩, ?_⟩
    · intro session hopen
      unfold QueueWriter.openSession at hopen
      rw [hsession] at hopen
      rw [← Option.some.inj hopen]
      rfl
    · unfold events
      rw [hheld]
      unfold batch flushed QueueWriter.openSession
      rw [hsession]
      rfl
  | some session =>
    refine h.moves ?_ rfl h.raised hheld
    unfold QueueWriter.openSession
    rw [hsession]
    rfl

theorem Sound.add (h : state.Sound) {queued : QueuedEvent}
    (htodo : state.todo = .add queued :: rest) (writer : ChunkWriter) :
    state.Moves (state.add writer rest queued) := by
  unfold QueueWriter.add
  cases hsession : state.session with
  | none =>
    have hraised : some "'NoneType' object has no attribute 'add'" ≠
        some ByteBoundedQueues.releaseError := by decide
    exact h.moves hsession.symm rfl hraised rfl
  | some session =>
    refine ⟨⟨fun added hadded => ?_, h.releasing, h.raised⟩, ?_⟩
    · rw [← Option.some.inj hadded]
      exact WriterSession.add_batchBytes (h.batchBytes session hsession) queued
    · have hbatch : (session.add writer.limits queued).2.batch = session.batch ++ [queued] := rfl
      unfold events
      rw [batch_of_session hsession, held_cons htodo]
      unfold batch held flushed
      dsimp only [Option.map_some, Option.getD_some]
      rw [hbatch, ← List.append_assoc, ← List.append_assoc]
      split <;> rfl

theorem Sound.finishIfFull (h : state.Sound) (htodo : state.todo = .finishIfFull :: rest)
    (writer : ChunkWriter) (nowNs : Int) :
    state.Moves (state.finishIfFull writer rest nowNs) := by
  unfold QueueWriter.finishIfFull
  split
  · exact h.moves rfl rfl h.raised (held_cons htodo).symm
  · exact h.moves rfl rfl h.raised (held_cons htodo).symm

theorem Sound.flush (h : state.Sound) (htodo : state.todo = .flush :: rest)
    (hreleasing : state.releasing = none) : state.Moves (state.flush rest) := by
  unfold QueueWriter.flush
  cases hsession : state.session with
  | none => exact h.moves hsession.symm rfl h.raised (held_cons htodo).symm
  | some session =>
    have hbytes := session.flush_fst (h.batchBytes session hsession)
    refine ⟨⟨?_, ?_, h.raised⟩, ?_⟩
    · intro flushed hflushed
      rw [← Option.some.inj hflushed]
      exact session.flush_batchBytes (h.batchBytes session hsession)
    · intro batch bytes hbatch
      dsimp only at hbatch
      split at hbatch
      · cases hbatch
      · rename_i hne
        obtain ⟨rfl, rfl⟩ := Prod.mk.inj (Option.some.inj hbatch)
        refine ⟨hbytes, fun hempty => hne ?_⟩
        rw [hbytes, hempty, queuedBytes_nil]
    · unfold events
      rw [batch_of_session hsession, held_cons htodo]
      unfold batch held flushed
      dsimp only [Option.map_some, Option.getD_some]
      rw [hreleasing, session.flush_batch]
      split
      · rename_i hzero
        rw [queuedBytes_eq_zero (hbytes.symm.trans hzero)]
        rfl
      · exact congrArg (· ++ _) (List.append_nil _)

theorem Sound.publish (h : state.Sound) (htodo : state.todo = .publish :: rest)
    (sizeOf : ParquetFile → Nat) (sha256File : ParquetFile → String) (writer : ChunkWriter)
    (finishing : Finishing) :
    state.Moves (state.publish sizeOf sha256File writer rest finishing) := by
  unfold QueueWriter.publish
  cases hsession : state.session with
  | none => exact h.moves hsession.symm rfl h.raised (held_cons htodo).symm
  | some session =>
    rcases session.finish_cases sizeOf sha256File writer finishing.createdAt with
      ⟨chunk, hfinish, hbatch⟩ | ⟨message, hfinish, hmessage⟩
    · dsimp only
      rw [hfinish]
      dsimp only
      split
      · refine h.moves hsession.symm rfl ?_ rfl
        intro hraised
        have hsame := Option.some.inj hraised
        revert hsame
        decide
      · refine ⟨⟨nofun, h.releasing, h.raised⟩, ?_⟩
        unfold events
        rw [batch_of_session hsession, held_cons htodo, hbatch]
        rfl
    · dsimp only
      rw [hfinish]
      refine h.moves hsession.symm rfl ?_ rfl
      intro hraised
      exact hmessage (Option.some.inj hraised)

/-- A statement moves events on, and drops none. -/
theorem Sound.perform (h : state.Sound) (hreleasing : state.releasing = none)
    {statement : WriterStatement} (htodo : state.todo = statement :: rest)
    (sizeOf : ParquetFile → Nat) (sha256File : ParquetFile → String) (writer : ChunkWriter)
    (readings : StepReadings) :
    state.Moves (state.perform sizeOf sha256File writer rest readings statement) := by
  cases statement with
  | rotateBefore queued => exact h.rotateBefore htodo writer
  | openSession queued => exact h.openSession htodo writer readings.stamp
  | add queued => exact h.add htodo writer
  | finishIfFull => exact h.finishIfFull htodo writer readings.nowNs
  | flush => exact h.flush htodo hreleasing
  | publish => exact h.publish htodo sizeOf sha256File writer readings.finishing
  | setUniverse universeHash => exact h.moves rfl rfl h.raised (held_cons htodo).symm
  | stop => exact h.moves rfl rfl h.raised (held_cons htodo).symm

end QueueWriter

/-! ## The counters of the queues -/

theorem sum_writerGroups_update (counts : WriterGroup → Int) {group : WriterGroup}
    (hgroup : group ∈ writerGroups) (bytes : Int) :
    (writerGroups.map (Function.update counts group bytes)).sum =
      (writerGroups.map counts).sum - counts group + bytes := by
  cases group with
  | control => exact absurd hgroup (by decide)
  | depth | tradesMarket | metadata =>
    simp [writerGroups, Function.update]
    omega

theorem le_sum_writerGroups {counts : WriterGroup → Int} (hcounts : ∀ group, 0 ≤ counts group)
    {group : WriterGroup} (hgroup : group ∈ writerGroups) :
    counts group ≤ (writerGroups.map counts).sum := by
  apply List.single_le_sum
  · intro bytes hm
    obtain ⟨other, -, rfl⟩ := List.mem_map.mp hm
    exact hcounts other
  · exact List.mem_map_of_mem hgroup

namespace ByteBoundedQueues
variable {limits : QueueLimits} {queues : ByteBoundedQueues}

theorem put_cases (limits : QueueLimits) (queues : ByteBoundedQueues) (event : RawEvent)
    (nowNs : Int) :
    (∃ message, queues.put limits event nowNs =
      (.error message, { queues with hardRejections := queues.hardRejections + 1 })) ∨
    (queues.usedBytes + event.approximateSizeBytes ≤ limits.maxBytes ∧
      queues.put limits event nowNs = (.ok (),
        { (queues.reserve limits event.writerGroup event.approximateSizeBytes).enqueue
            event.writerGroup (.event ⟨event, event.approximateSizeBytes, rfl⟩) with
          lastEventMonotonicNs := Function.update queues.lastEventMonotonicNs event.writerGroup
            (some nowNs) })) := by
  unfold put
  dsimp only
  split
  · exact .inl ⟨_, rfl⟩
  · rename_i hfits
    exact .inr ⟨not_lt.mp fun hlt => hfits (.inr hlt), rfl⟩

theorem enqueue_queued (group other : WriterGroup) (item : WriterItem) :
    (queues.enqueue group item).queued other =
      if other = group then queues.queued group ++ item.queued else queues.queued other := by
  unfold enqueue queued
  by_cases hother : other = group
  · subst hother
    rw [if_pos rfl]
    dsimp only
    rw [Function.update_self, List.flatMap_append, List.flatMap_singleton]
  · rw [if_neg hother]
    dsimp only
    rw [Function.update_of_ne hother]

theorem getNowait_cases {group : WriterGroup} {item : WriterItem} {next : ByteBoundedQueues}
    (h : queues.getNowait group = some (item, next)) :
    ∃ rest, queues.queues group = item :: rest ∧
      next = { queues with queues := Function.update queues.queues group rest } := by
  unfold getNowait at h
  split at h
  · cases h
  · rename_i first rest hqueue
    obtain ⟨rfl, rfl⟩ := Prod.mk.inj (Option.some.inj h)
    exact ⟨rest, hqueue, rfl⟩

/-- `release` raises only when it is called for more bytes than are in use. -/
theorem release_ok {group : WriterGroup} {reserved : Nat}
    (hused : (reserved : Int) ≤ queues.usedBytes)
    (hgroup : (reserved : Int) ≤ queues.usedBytesByGroup group) :
    queues.release limits group reserved = (.ok (), { queues with
      usedBytes := queues.usedBytes - reserved
      usedBytesByGroup := Function.update queues.usedBytesByGroup group
        (queues.usedBytesByGroup group - reserved)
      aboveWarn := limits.thresholds.fall queues.aboveWarn (queues.usedBytes - reserved) }) := by
  unfold release
  dsimp only
  rw [if_neg]
  omega

end ByteBoundedQueues

/-! ## The invariant -/

namespace QueuedWriters
variable {limits : QueueLimits} {state : QueuedWriters}

/-- Every event is in one place, and the counters follow. -/
structure Sound (limits : QueueLimits) (state : QueuedWriters) : Prop where
  writers : ∀ group, (state.writers group).Sound
  placed : ∀ group, state.admitted group = state.released group ++ state.outstanding group
  foreign : ∀ group, group ∉ writerGroups → state.outstanding group = []
  byGroup : ∀ group, state.queues.usedBytesByGroup group = queuedBytes (state.outstanding group)
  total : state.queues.usedBytes = (writerGroups.map state.queues.usedBytesByGroup).sum
  bounded : state.queues.usedBytes ≤ limits.maxBytes
  follows : limits.thresholds.Follows state.queues.aboveWarn state.queues.usedBytes state.history

theorem sound_start (universeHash : String) : (start universeHash).Sound limits where
  writers := fun _ => ⟨nofun, nofun, nofun⟩
  placed := fun _ => rfl
  foreign := fun _ _ => rfl
  byGroup := fun _ => rfl
  total := rfl
  bounded := Int.natCast_nonneg _
  follows := Hysteresis.follows_start (Int.natCast_nonneg _)

/-- What leaves the counters and every place of an event as it was. -/
theorem Sound.of_same (h : state.Sound limits) {next : QueuedWriters}
    (hwriters : ∀ group, (next.writers group).Sound)
    (houtstanding : ∀ group, next.outstanding group = state.outstanding group)
    (hadmitted : next.admitted = state.admitted) (hreleased : next.released = state.released)
    (hhistory : next.history = state.history)
    (hused : next.queues.usedBytes = state.queues.usedBytes)
    (hbyGroup : next.queues.usedBytesByGroup = state.queues.usedBytesByGroup)
    (habove : next.queues.aboveWarn = state.queues.aboveWarn) : next.Sound limits where
  writers := hwriters
  placed := fun group => by
    rw [hadmitted, hreleased, houtstanding]
    exact h.placed group
  foreign := fun group hgroup => by
    rw [houtstanding]
    exact h.foreign group hgroup
  byGroup := fun group => by
    rw [hbyGroup, houtstanding]
    exact h.byGroup group
  total := by
    rw [hused, hbyGroup]
    exact h.total
  bounded := by
    rw [hused]
    exact h.bounded
  follows := by
    rw [habove, hused, hhistory]
    exact h.follows

theorem setWriter_self (state : QueuedWriters) (group : WriterGroup) (next : QueueWriter) :
    (state.setWriter group next).writers group = next := Function.update_self ..

theorem setWriter_of_ne (state : QueuedWriters) {group other : WriterGroup} (h : other ≠ group)
    (next : QueueWriter) : (state.setWriter group next).writers other = state.writers other :=
  Function.update_of_ne h ..

theorem Sound.setWriter_writers (h : state.Sound limits) {group : WriterGroup}
    {next : QueueWriter} (hnext : next.Sound) (other : WriterGroup) :
    ((state.setWriter group next).writers other).Sound := by
  by_cases hother : other = group
  · subst hother
    rw [setWriter_self]
    exact hnext
  · rw [setWriter_of_ne _ hother]
    exact h.writers other

/-- A statement of one writer. -/
theorem Sound.setWriter (h : state.Sound limits) {group : WriterGroup} {next : QueueWriter}
    (hmoves : (state.writers group).Moves next) : (state.setWriter group next).Sound limits := by
  apply h.of_same (h.setWriter_writers hmoves.1) _ rfl rfl rfl rfl rfl rfl
  intro other
  unfold outstanding
  by_cases hother : other = group
  · subst hother
    rw [setWriter_self, hmoves.2]
    rfl
  · rw [setWriter_of_ne _ hother]
    rfl

theorem Sound.nonneg (h : state.Sound limits) (group : WriterGroup) :
    0 ≤ state.queues.usedBytesByGroup group := by
  rw [h.byGroup]
  exact Int.natCast_nonneg _

/-! ## The steps -/

theorem Sound.enqueue (h : state.Sound limits) (group : WriterGroup) (item : ControlItem) :
    { state with queues := state.queues.putControl group item }.Sound limits := by
  refine h.of_same h.writers ?_ rfl rfl rfl rfl rfl rfl
  intro other
  unfold outstanding ByteBoundedQueues.putControl
  dsimp only
  rw [ByteBoundedQueues.enqueue_queued]
  split
  · rename_i hother
    rw [hother]
    exact congrArg (_ ++ ·) (List.append_nil _)
  · rfl

/-- An accepted event takes its place at the end of its queue. -/
theorem Sound.put (h : state.Sound limits) (event : RawEvent) (nowNs : Int) :
    (state.put limits event nowNs).Sound limits := by
  unfold QueuedWriters.put
  rcases state.queues.put_cases limits event nowNs with ⟨message, hput⟩ | ⟨hfits, hput⟩
  · rw [hput]
    exact h.of_same h.writers (fun _ => rfl) rfl rfl rfl rfl rfl rfl
  · rw [hput]
    dsimp only
    have hgroup := event.writerGroup_mem
    have hpos : 0 < event.approximateSizeBytes := Nat.succ_pos _
    have houtstanding : ∀ group, (state.writers group).events ++
        (((state.queues.reserve limits event.writerGroup event.approximateSizeBytes).enqueue
          event.writerGroup
            (.event ⟨event, event.approximateSizeBytes, rfl⟩)).queued group) =
        if group = event.writerGroup then
          state.outstanding group ++ [⟨event, event.approximateSizeBytes, rfl⟩]
        else state.outstanding group := by
      intro group
      rw [ByteBoundedQueues.enqueue_queued]
      split
      · rename_i heq
        rw [← List.append_assoc, heq]
        rfl
      · rfl
    refine ⟨h.writers, ?_, ?_, ?_, ?_, hfits, ?_⟩
    · intro group
      refine Eq.trans ?_ (congrArg (_ ++ ·) (houtstanding group)).symm
      dsimp only
      split
      · rename_i heq
        rw [heq, Function.update_self, h.placed, List.append_assoc]
      · rename_i hne
        rw [Function.update_of_ne hne, h.placed]
    · intro group hforeign
      refine (houtstanding group).trans ?_
      rw [if_neg fun heq : group = event.writerGroup => hforeign (heq ▸ hgroup)]
      exact h.foreign group hforeign
    · intro group
      refine Eq.trans ?_ (congrArg (fun events => (queuedBytes events : Int))
        (houtstanding group)).symm
      show Function.update _ _ _ group = _
      split
      · rename_i heq
        rw [heq, Function.update_self, queuedBytes_append, queuedBytes_singleton, h.byGroup,
          Nat.cast_add]
      · rename_i hne
        rw [Function.update_of_ne hne, h.byGroup]
    · show state.queues.usedBytes + (event.approximateSizeBytes : Int) =
        (writerGroups.map (Function.update _ _ _)).sum
      rw [sum_writerGroups_update _ hgroup, ← h.total]
      omega
    · apply h.follows.rise
      omega

theorem Sound.get (h : state.Sound limits) {group : WriterGroup} {next : QueuedWriters}
    (hget : state.get group = some next) : next.Sound limits := by
  unfold QueuedWriters.get at hget
  split at hget
  · rename_i hwaiting
    obtain ⟨hraised, -, hreleasing, htodo⟩ := hwaiting
    split at hget
    · cases hget
    · rename_i item queues hitem
      obtain ⟨rest, hqueue, rfl⟩ := ByteBoundedQueues.getNowait_cases hitem
      rw [← Option.some.inj hget]
      have hbatch : ∀ item, ((state.writers group).handle item).events =
          (state.writers group).events ++ item.queued := by
        intro item
        unfold QueueWriter.events QueueWriter.held
        rw [htodo, List.flatMap_nil, List.append_nil]
        cases item with
        | event queued => rfl
        | control item => cases item <;> rfl
      have hsound : ∀ item, ((state.writers group).handle item).Sound := by
        intro item
        have hwriter := h.writers group
        cases item with
        | event queued => exact ⟨hwriter.batchBytes, hwriter.releasing, hwriter.raised⟩
        | control item =>
          cases item <;> exact ⟨hwriter.batchBytes, hwriter.releasing, hwriter.raised⟩
      refine h.of_same (h.setWriter_writers (hsound item)) ?_ rfl rfl rfl rfl rfl rfl
      intro other
      unfold outstanding ByteBoundedQueues.queued
      dsimp only
      by_cases hother : other = group
      · subst hother
        rw [setWriter_self, Function.update_self, hqueue, hbatch, List.flatMap_cons,
          List.append_assoc]
      · rw [setWriter_of_ne _ hother, Function.update_of_ne hother]
  · cases hget

theorem Sound.timeout (h : state.Sound limits) {writer : WriterGroup → ChunkWriter}
    {group : WriterGroup} {nowNs : Int} {next : QueuedWriters}
    (htimeout : state.timeout writer group nowNs = some next) : next.Sound limits := by
  unfold QueuedWriters.timeout at htimeout
  split at htimeout
  · rename_i hwaiting
    obtain ⟨hraised, -, -, htodo⟩ := hwaiting
    rw [← Option.some.inj htimeout]
    apply h.setWriter
    unfold QueueWriter.timeout
    split
    · refine (h.writers group).moves rfl rfl (h.writers group).raised ?_
      unfold QueueWriter.held
      rw [htodo]
      rfl
    · exact ⟨h.writers group, rfl⟩
  · cases htimeout

/-- A pending `release` never raises, and the oldest events of the group are released. -/
theorem Sound.release (h : state.Sound limits) {group : WriterGroup} {batch : List QueuedEvent}
    {bytes : Nat} (hreleasing : (state.writers group).releasing = some (batch, bytes)) :
    (state.release limits group batch bytes).Sound limits := by
  obtain ⟨rfl, hbatch⟩ := (h.writers group).releasing batch bytes hreleasing
  have hsplit : state.outstanding group = batch ++
      ((state.writers group).batch ++ (state.writers group).held ++
        state.queues.queued group) := by
    unfold outstanding QueueWriter.events QueueWriter.flushed
    rw [hreleasing]
    simp only [Option.map_some, Option.getD_some, List.append_assoc]
  have hgroup : group ∈ writerGroups := by
    by_contra hforeign
    have hempty := h.foreign group hforeign
    rw [hsplit] at hempty
    exact hbatch (List.append_eq_nil_iff.mp hempty).1
  have hpos : 0 < queuedBytes batch := by
    apply Nat.pos_of_ne_zero
    intro hzero
    exact hbatch (queuedBytes_eq_zero hzero)
  have hbytes := h.byGroup group
  rw [hsplit, queuedBytes_append, Nat.cast_add] at hbytes
  have hle : (queuedBytes batch : Int) ≤ state.queues.usedBytesByGroup group := by omega
  have hused : state.queues.usedBytesByGroup group ≤ state.queues.usedBytes := by
    rw [h.total]
    exact le_sum_writerGroups h.nonneg hgroup
  unfold QueuedWriters.release
  rw [ByteBoundedQueues.release_ok (hle.trans hused) hle]
  dsimp only
  have hnext : { state.writers group with releasing := none }.Sound :=
    ⟨(h.writers group).batchBytes, nofun, (h.writers group).raised⟩
  have houtstanding : ∀ other, other ≠ group →
      ((state.setWriter group { state.writers group with releasing := none }).writers other).events
        ++ state.queues.queued other = state.outstanding other := by
    intro other hother
    rw [setWriter_of_ne _ hother]
    rfl
  have hself : ((state.setWriter group
      { state.writers group with releasing := none }).writers group).events ++
        state.queues.queued group =
      (state.writers group).batch ++ (state.writers group).held ++ state.queues.queued group := by
    rw [setWriter_self]
    rfl
  refine ⟨h.setWriter_writers hnext, ?_, ?_, ?_, ?_, ?_, ?_⟩
  · intro other
    by_cases hother : other = group
    · subst hother
      refine Eq.trans ?_ (congrArg (_ ++ ·) hself).symm
      dsimp only [QueuedWriters.setWriter]
      rw [Function.update_self, h.placed, hsplit]
      exact (List.append_assoc _ _ _).symm
    · refine Eq.trans ?_ (congrArg (_ ++ ·) (houtstanding other hother)).symm
      dsimp only
      rw [Function.update_of_ne hother]
      exact h.placed other
  · intro other hforeign
    have hother : other ≠ group := fun heq => hforeign (heq ▸ hgroup)
    exact (houtstanding other hother).trans (h.foreign other hforeign)
  · intro other
    by_cases hother : other = group
    · subst hother
      refine Eq.trans ?_ (congrArg (fun events => (queuedBytes events : Int)) hself).symm
      dsimp only
      rw [Function.update_self]
      omega
    · refine Eq.trans ?_ (congrArg (fun events => (queuedBytes events : Int))
        (houtstanding other hother)).symm
      dsimp only
      rw [Function.update_of_ne hother]
      exact h.byGroup other
  · dsimp only
    rw [sum_writerGroups_update _ hgroup, ← h.total]
    omega
  · have hbound := h.bounded
    dsimp only
    omega
  · apply h.follows.fall
    omega

section Step
variable {sizeOf : ParquetFile → Nat} {sha256File : ParquetFile → String}
  {writer : WriterGroup → ChunkWriter} {next : QueuedWriters}

theorem Sound.proceed (h : state.Sound limits) {group : WriterGroup} {readings : StepReadings}
    (hproceed : state.proceed limits sizeOf sha256File writer group readings = some next) :
    next.Sound limits := by
  unfold QueuedWriters.proceed at hproceed
  dsimp only at hproceed
  split at hproceed
  · rename_i batch bytes _ hreleasing
    rw [← Option.some.inj hproceed]
    exact h.release hreleasing
  · rename_i statement rest _ hreleasing htodo
    rw [← Option.some.inj hproceed]
    exact h.setWriter ((h.writers group).perform hreleasing htodo sizeOf sha256File _ readings)
  · cases hproceed

theorem Sound.step (h : state.Sound limits) {event : QueueStep}
    (hstep : state.step limits sizeOf sha256File writer event = some next) :
    next.Sound limits := by
  cases event with
  | put event nowNs =>
    rw [← Option.some.inj hstep]
    exact h.put event nowNs
  | putControl group item =>
    unfold QueuedWriters.step at hstep
    dsimp only at hstep
    split at hstep
    · rw [← Option.some.inj hstep]
      exact h.enqueue group item
    · cases hstep
  | takeIntervalHighWaterBytes =>
    rw [← Option.some.inj hstep]
    exact h.of_same h.writers (fun _ => rfl) rfl rfl rfl rfl rfl rfl
  | get group => exact h.get hstep
  | timeout group nowNs => exact h.timeout hstep
  | proceed group readings => exact h.proceed hstep

theorem Sound.accounted (h : state.Sound limits) : state.Accounted limits where
  placed := h.placed
  byGroup := h.byGroup
  total := by
    rw [h.total, Nat.cast_list_sum, List.map_map]
    apply congrArg List.sum
    apply List.map_congr_left
    intro group _
    exact h.byGroup group
  nonneg := by
    rw [h.total]
    apply List.sum_nonneg
    intro bytes hm
    obtain ⟨group, -, rfl⟩ := List.mem_map.mp hm
    exact h.nonneg group
  bounded := h.bounded
  released := fun group => (h.writers group).raised
  rejected := by
    intro event nowNs message queues hput
    rcases state.queues.put_cases limits event nowNs with ⟨_, hrejected⟩ | ⟨-, haccepted⟩
    · rw [hrejected] at hput
      exact (Prod.mk.inj hput).2.symm
    · rw [haccepted] at hput
      cases (Prod.mk.inj hput).1
  aboveWarn := h.follows.flag_iff

/-- After any steps of the putters and the writers, in any order, the counters are those of the
events that are not released yet. -/
theorem run_accounted {universeHash : String} {events : List QueueStep}
    (hrun : Run (fun before event after =>
      before.step limits sizeOf sha256File writer event = some after)
      (start universeHash) events state) : state.Accounted limits := by
  have hsound : state.Sound limits :=
    hrun.preserves (fun h hstep => h.step hstep) (sound_start universeHash)
  exact hsound.accounted

end Step

set_option maxRecDepth 8000 in
/-- One event is put, flushed and released: the budget was above the warning and no more. -/
theorem run_accounted_released :
    let limits : QueueLimits := ⟨1000, 257, 100, by decide⟩
    let event : RawEvent := {
      exchangeSymbol := some "BTCUSDT"
      streamType := .depth
      collectorId := "c"
      bootId := "b"
      segmentId := "s"
      connectionId := "n"
      receiveSeq := 1
      appReceiveRealtimeNs := 7
      appReceiveMonotonicNs := 7
      payloadBytes := [0] }
    ∃ state : QueuedWriters, state.queues.warnCrossings = 1 ∧ state.queues.aboveWarn = false ∧
      state.released .depth = [⟨event, 257, rfl⟩] ∧ state.Accounted limits := by
  intro limits event
  let stamp : ChunkStamp := ⟨"20260812T000000.000000Z", "0123456789ab", 0, by decide, by decide⟩
  let writer : ChunkWriter := {
    collectorId := "c"
    writerGroup := .depth
    dataContractHash := "d"
    limits := ⟨60, 1000, 10, 1, 1000⟩ }
  let proceed : QueueStep := .proceed .depth ⟨stamp, 0, ⟨0, []⟩⟩
  have hrun : Run (fun before step after =>
      QueuedWriters.step limits (fun _ => 1) (fun _ => "") (fun _ => writer) before step =
        some after) (start "u")
      [.put event 0, .get .depth, proceed, proceed, proceed, proceed, proceed] _ :=
    .cons rfl (.cons rfl (.cons rfl (.cons rfl (.cons rfl (.cons rfl (.cons rfl (.nil _)))))))
  exact ⟨_, rfl, rfl, rfl, run_accounted hrun⟩

end QueuedWriters

end MiryFormal
