import MiryFormal.Collector.ChunkSession
import MiryFormal.Shared.Fallible

/-!
# The writers

`WriterPool._run` consumes the queue of one group, one item or timeout after the other. What it
publishes, chunk by chunk, are the events it consumed, in their order. The day index takes no chunk
of a sealed day: then the writer has published the chunk and raises.
-/

namespace MiryFormal

set_option autoImplicit false

/-- What `finish` reads: the clock, and which days are sealed when it records the chunk. -/
structure Finishing where
  createdAt : Int
  sealedDays : List Int := []

/-- What a turn that handles an event reads, in the order it may be read. -/
structure Readings where
  rotated : Finishing := ⟨0, []⟩
  stamp : ChunkStamp
  nowNs : Int
  finished : Finishing := ⟨0, []⟩

/-- One item of the queue before `StopWriter`, or a second without one. -/
inductive Turn where
  | timeout (nowNs : Int) (finishing : Finishing)
  | event (queued : QueuedEvent) (readings : Readings)
  | rotateWriter (universeHash : String) (finishing : Finishing)

/-- Where a turn may finish a chunk. -/
def Turn.finishings : Turn → List Finishing
  | .timeout _ finishing | .rotateWriter _ finishing => [finishing]
  | .event _ readings => [readings.rotated, readings.finished]

inductive WriterError where
  /-- An error of the session. -/
  | session (message : String)
  /-- `cannot add a chunk to sealed UTC day {utc_date}` -/
  | sealedDay (utcDate : Int)

/-- The writer's task when it has raised. -/
structure WriterFailure where
  error : WriterError
  published : List Chunk

/-- The locals of `_run`, what it adds to the pool's totals, and what it has published. -/
structure WriterState where
  session : Option WriterSession := none
  universeHash : String
  releasedBytes : Nat := 0
  published : List Chunk := []
  /-- The records of the day index. -/
  recorded : List (Int × ChunkRef) := []
  chunksWritten : Nat := 0
  eventsWritten : Nat := 0
  compressedBytes : Nat := 0
  durableThroughNs : Option Int := none

namespace WriterState

def flush (state : WriterState) : WriterState :=
  match state.session with
  | none => state
  | some session =>
      { state with
        session := some session.flush.2
        releasedBytes := state.releasedBytes + session.flush.1 }

variable (sizeOf : ParquetFile → Nat) (sha256File : ParquetFile → String) (writer : ChunkWriter)

/-- The chunk lies in `ready` before `DayIndex.record` looks whether its day is sealed. -/
def finish (state : WriterState) (finishing : Finishing) : Except WriterFailure WriterState :=
  match state.flush.session with
  | none => .ok state
  | some session =>
      match session.finish sizeOf sha256File writer finishing.createdAt with
      | .error message => .error ⟨.session message, state.published⟩
      | .ok chunk =>
          if chunk.manifest.utcDate ∈ finishing.sealedDays then
            .error ⟨.sealedDay chunk.manifest.utcDate, state.published ++ [chunk]⟩
          else .ok { state.flush with
            session := none
            published := state.published ++ [chunk]
            recorded := state.recorded ++ [(chunk.manifest.utcDate, chunk.manifest.asRef)]
            chunksWritten := state.chunksWritten + 1
            eventsWritten := state.eventsWritten + chunk.manifest.eventCount
            compressedBytes := state.compressedBytes + chunk.manifest.sizeBytes
            durableThroughNs := some
              (max (state.durableThroughNs.getD 0) chunk.manifest.maxAppReceiveRealtimeNs) }

def finishIf (state : WriterState) (due : Bool) (finishing : Finishing) :
    Except WriterFailure WriterState :=
  if due then state.finish sizeOf sha256File writer finishing else .ok state

/-- The session for an event: the current one, or else a new one. -/
def sessionFor (state : WriterState) (stamp : ChunkStamp) (eventDate : Int) : WriterSession :=
  state.session.getD (.init writer stamp eventDate state.universeHash)

/-- The event is added, and a full batch is flushed. -/
def append (state : WriterState) (session : WriterSession) (queued : QueuedEvent) : WriterState :=
  let added := session.add writer.limits queued
  let next := { state with session := some added.2 }
  if added.1 then next.flush else next

def handleEvent (state : WriterState) (queued : QueuedEvent) (readings : Readings) :
    Except WriterFailure WriterState := do
  let eventDate := queued.event.eventDate
  let rotated ← state.finishIf sizeOf sha256File writer
    (state.session.any fun session =>
      session.shouldRotateBefore writer.limits queued.event eventDate) readings.rotated
  let appended := rotated.append writer (rotated.sessionFor writer readings.stamp eventDate) queued
  appended.finishIf sizeOf sha256File writer
    (appended.session.any fun session => writer.limits.maxBytes ≤ session.estimatedBytes ||
      writer.limits.maxEvents ≤ session.eventCount ||
      session.expired writer.limits readings.nowNs) readings.finished

def turn (state : WriterState) : Turn → Except WriterFailure WriterState
  | .timeout nowNs finishing =>
      state.finishIf sizeOf sha256File writer
        (state.session.any fun session => session.expired writer.limits nowNs) finishing
  | .event queued readings => state.handleEvent sizeOf sha256File writer queued readings
  | .rotateWriter universeHash finishing => do
      let finished ← state.finish sizeOf sha256File writer finishing
      return { finished with universeHash }

/-- `_run`, with a `StopWriter` after the turns. -/
def run (state : WriterState) (stopping : Finishing) :
    List Turn → Except WriterFailure WriterState
  | [] => state.finish sizeOf sha256File writer stopping
  | turn :: turns => do
      let next ← state.turn sizeOf sha256File writer turn
      next.run stopping turns

end WriterState

/-! ## What is published -/

/-- The events that are consumed, each with the universe hash that is in force. -/
def admitted (universeHash : String) : List Turn → List (RawEvent × String)
  | [] => []
  | .timeout _ _ :: turns => admitted universeHash turns
  | .event queued _ :: turns => (queued.event, universeHash) :: admitted universeHash turns
  | .rotateWriter next _ :: turns => admitted next turns

/-- The events of a chunk, each with the universe hash of its manifest. -/
def Chunk.tagged (chunk : Chunk) : List (RawEvent × String) :=
  chunk.file.rows.map fun event => (event, chunk.manifest.universeHash)

def WriterSession.tagged (session : WriterSession) : List (RawEvent × String) :=
  session.events.map fun event => (event, session.universeHash)

/-- The limits on one chunk. Its first event may break them. -/
def ChunkLimits.Admits (limits : ChunkLimits) (rows : List RawEvent) : Prop :=
  (rows.length ≤ limits.maxEvents ∧ reservedBytes rows ≤ limits.maxBytes) ∨ rows.length = 1

/-- A chunk that holds what its manifest says, within the limits. -/
structure Chunk.Sound (sizeOf : ParquetFile → Nat) (sha256File : ParquetFile → String)
    (writer : ChunkWriter) (chunk : Chunk) : Prop where
  describes : Describes chunk.manifest chunk.file
  limits : writer.limits.Admits chunk.file.rows
  accepted : checkChunk sizeOf sha256File writer.collectorId chunk.manifest.utcDate
    chunk.manifest.asRef chunk.file chunk.manifest = .ok ()

/-- A session between two turns. -/
structure WriterSession.Open (writer : ChunkWriter) (session : WriterSession)
    (universeHash : String) : Prop where
  holds : session.Holds writer
  nonempty : session.events ≠ []
  limits : writer.limits.Admits session.events
  universeHash : session.universeHash = universeHash

/-- What was published and what is in the session are the events consumed so far. -/
structure WriterState.Keeps (sizeOf : ParquetFile → Nat) (sha256File : ParquetFile → String)
    (writer : ChunkWriter) (state : WriterState) (events : List (RawEvent × String)) : Prop where
  events : state.published.flatMap Chunk.tagged ++
    (state.session.elim [] WriterSession.tagged) = events
  sound : ∀ chunk ∈ state.published, chunk.Sound sizeOf sha256File writer
  session : ∀ session, state.session = some session → session.Open writer state.universeHash
  recorded : state.recorded =
    state.published.map fun chunk => (chunk.manifest.utcDate, chunk.manifest.asRef)

/-- What a writer has published that raised after it took these events: the first of them, in chunks
of which the last belongs to a day that was sealed when it was to be recorded. -/
structure WriterFailure.After (sizeOf : ParquetFile → Nat) (sha256File : ParquetFile → String)
    (writer : ChunkWriter) (events : List (RawEvent × String)) (finishings : List Finishing)
    (failure : WriterFailure) : Prop where
  events : failure.published.flatMap Chunk.tagged <+: events
  sound : ∀ chunk ∈ failure.published, chunk.Sound sizeOf sha256File writer
  sealedDay : ∃ chunk finishing, failure.published.getLast? = some chunk ∧
    failure.error = .sealedDay chunk.manifest.utcDate ∧ finishing ∈ finishings ∧
    chunk.manifest.utcDate ∈ finishing.sealedDays

namespace WriterState

variable {sizeOf : ParquetFile → Nat} {sha256File : ParquetFile → String} {writer : ChunkWriter}
  {state : WriterState} {events : List (RawEvent × String)}

theorem outcome_later {P : WriterState → Prop} {later : List (RawEvent × String)}
    {finishings others : List Finishing} {result : Except WriterFailure WriterState}
    (h : Outcome P (WriterFailure.After sizeOf sha256File writer events finishings) result)
    (hevents : events <+: later) (hfinishings : ∀ finishing ∈ finishings, finishing ∈ others) :
    Outcome P (WriterFailure.After sizeOf sha256File writer later others) result := by
  refine h.mono (fun _ => id) fun failure hfailure => ?_
  obtain ⟨chunk, finishing, hlast, herror, hm, hsealed⟩ := hfailure.sealedDay
  exact ⟨hfailure.events.trans hevents, hfailure.sound,
    chunk, finishing, hlast, herror, hfinishings finishing hm, hsealed⟩

theorem flush_universeHash (state : WriterState) :
    state.flush.universeHash = state.universeHash := by
  unfold flush
  split <;> rfl

theorem flush_published (state : WriterState) : state.flush.published = state.published := by
  unfold flush
  split <;> rfl

theorem flush_recorded (state : WriterState) : state.flush.recorded = state.recorded := by
  unfold flush
  split <;> rfl

theorem flush_session (state : WriterState) :
    state.flush.session = state.session.map fun session => session.flush.2 := by
  unfold flush
  cases hsession : state.session with
  | none => exact hsession
  | some session => rfl

theorem flush_tagged (session : WriterSession) : session.flush.2.tagged = session.tagged := by
  unfold WriterSession.tagged
  rw [WriterSession.flush_events, (WriterSession.flush_fields session).2.2.1]

theorem Keeps.flush (h : state.Keeps sizeOf sha256File writer events) :
    state.flush.Keeps sizeOf sha256File writer events := by
  constructor
  · rw [flush_published, flush_session, ← h.events]
    cases state.session with
    | none => rfl
    | some session => exact congrArg _ (flush_tagged session)
  · rw [flush_published]
    exact h.sound
  · intro flushed hflushed
    rw [flush_session] at hflushed
    obtain ⟨session, hsession, rfl⟩ := Option.map_eq_some_iff.mp hflushed
    have hopen := h.session session hsession
    refine ⟨hopen.holds.flush, ?_, ?_, ?_⟩
    · rw [WriterSession.flush_events]
      exact hopen.nonempty
    · rw [WriterSession.flush_events]
      exact hopen.limits
    · rw [flush_universeHash, (WriterSession.flush_fields session).2.2.1]
      exact hopen.universeHash
  · rw [flush_published, flush_recorded]
    exact h.recorded

/-- Nothing is left in a session that was finished, unless its day is sealed. -/
theorem Keeps.finish (h : state.Keeps sizeOf sha256File writer events)
    (hsize : ∀ file, 0 < sizeOf file) (finishing : Finishing) :
    Outcome (fun next => next.session = none ∧ next.universeHash = state.universeHash ∧
        next.Keeps sizeOf sha256File writer events)
      (WriterFailure.After sizeOf sha256File writer events [finishing])
      (state.finish sizeOf sha256File writer finishing) := by
  unfold WriterState.finish
  cases hsession : state.session with
  | none =>
    rw [flush_session, hsession]
    exact ⟨hsession, rfl, h⟩
  | some session =>
    have hopen := h.session session hsession
    obtain ⟨chunk, hok, hrows, hhash, hdescribes, haccepted⟩ :=
      @WriterSession.Holds.finish _ _ hopen.holds.flush sizeOf sha256File hsize
        (WriterSession.flush_batch session)
        (by rw [WriterSession.flush_events]; exact hopen.nonempty) finishing.createdAt
    rw [WriterSession.flush_events] at hrows
    have htagged : chunk.tagged = session.tagged := by
      unfold Chunk.tagged WriterSession.tagged
      rw [hrows, hhash, (WriterSession.flush_fields session).2.2.1]
    have hevents : (state.published ++ [chunk]).flatMap Chunk.tagged = events := by
      rw [List.flatMap_append, List.flatMap_singleton, htagged, ← h.events, hsession,
        Option.elim_some]
    have hsound : ∀ published ∈ state.published ++ [chunk],
        published.Sound sizeOf sha256File writer := by
      intro published hm
      rcases List.mem_append.mp hm with hm | hm
      · exact h.sound published hm
      · rw [List.mem_singleton.mp hm]
        refine ⟨hdescribes, ?_, haccepted⟩
        rw [hrows]
        exact hopen.limits
    rw [flush_session, hsession, Option.map_some]
    dsimp only
    rw [hok]
    dsimp only
    split
    · rename_i hsealed
      exact ⟨hevents ▸ List.prefix_rfl, hsound, chunk, finishing, List.getLast?_concat, rfl,
        List.mem_singleton_self finishing, hsealed⟩
    · refine ⟨rfl, flush_universeHash state, ?_, hsound, fun other hother => ?_, ?_⟩
      · dsimp only
        rw [hevents, Option.elim_none, List.append_nil]
      · cases hother
      · dsimp only
        rw [List.map_append, ← h.recorded]
        rfl

theorem Keeps.append (h : state.Keeps sizeOf sha256File writer events) {session : WriterSession}
    {queued : QueuedEvent} (hholds : session.Holds writer)
    (hdate : utcDateOf queued.event.appReceiveRealtimeNs = session.utcDate)
    (hhash : session.universeHash = state.universeHash)
    (htagged : state.session.elim [] WriterSession.tagged = session.tagged)
    (hlimits : writer.limits.Admits (session.events ++ [queued.event])) :
    (state.append writer session queued).Keeps sizeOf sha256File writer
      (events ++ [(queued.event, state.universeHash)]) := by
  have hadded : ({ state with session := some (session.add writer.limits queued).2 } :
      WriterState).Keeps sizeOf sha256File writer
        (events ++ [(queued.event, state.universeHash)]) := by
    constructor
    · have hsame : (session.add writer.limits queued).2.universeHash = state.universeHash := hhash
      have hnext : (session.add writer.limits queued).2.tagged =
          session.tagged ++ [(queued.event, state.universeHash)] := by
        unfold WriterSession.tagged
        rw [WriterSession.add_events, List.map_append, hsame, hhash]
        rfl
      dsimp only [Option.elim_some]
      rw [hnext, ← List.append_assoc, ← htagged, h.events]
    · exact h.sound
    · intro added hadded
      cases hadded
      refine ⟨hholds.add hdate, ?_, ?_, hhash⟩
      · rw [WriterSession.add_events]
        exact List.concat_ne_nil _ _
      · rw [WriterSession.add_events]
        exact hlimits
    · exact h.recorded
  unfold WriterState.append
  dsimp only
  split
  · exact hadded.flush
  · exact hadded

/-- What `should_rotate_before` leaves open has room for the event. -/
theorem admits_of_not_rotate {session : WriterSession} {event : RawEvent} {universeHash : String}
    (hopen : session.Open writer universeHash)
    (hkeep : session.shouldRotateBefore writer.limits event event.eventDate = false) :
    utcDateOf event.appReceiveRealtimeNs = session.utcDate ∧
      writer.limits.Admits (session.events ++ [event]) := by
  unfold WriterSession.shouldRotateBefore at hkeep
  split at hkeep
  · cases hkeep
  · rename_i hdate
    split at hkeep
    · rename_i hzero
      rw [hopen.holds.eventCount] at hzero
      exact absurd (List.length_eq_zero_iff.mp hzero) hopen.nonempty
    · have hroom := Bool.or_eq_false_iff.mp hkeep
      have hbytes := of_decide_eq_false hroom.1
      have hcount := of_decide_eq_false hroom.2
      rw [hopen.holds.estimatedBytes] at hbytes
      rw [hopen.holds.eventCount] at hcount
      refine ⟨?_, .inl ⟨?_, ?_⟩⟩
      · rw [← event.eventDate_eq]
        exact not_not.mp hdate
      · rw [List.length_append, List.length_singleton]
        omega
      · rw [reservedBytes_concat]
        omega

theorem append_universeHash (session : WriterSession) (queued : QueuedEvent) :
    (state.append writer session queued).universeHash = state.universeHash := by
  unfold WriterState.append
  dsimp only
  split
  · exact flush_universeHash _
  · rfl

theorem Keeps.finishIf (h : state.Keeps sizeOf sha256File writer events)
    (hsize : ∀ file, 0 < sizeOf file) (due : Bool) (finishing : Finishing) :
    Outcome (fun next => next.universeHash = state.universeHash ∧
        (next.session = none ∨ due = false ∧ next = state) ∧
        next.Keeps sizeOf sha256File writer events)
      (WriterFailure.After sizeOf sha256File writer events [finishing])
      (state.finishIf sizeOf sha256File writer due finishing) := by
  cases due with
  | true =>
    exact (h.finish hsize finishing).mono
      (fun _ ⟨hnone, hhash, hkeeps⟩ => ⟨hhash, .inl hnone, hkeeps⟩) fun _ => id
  | false => exact ⟨rfl, .inr ⟨rfl, rfl⟩, h⟩

/-- The event goes into the session that is open, or into a new one. -/
theorem Keeps.sessionFor (h : state.Keeps sizeOf sha256File writer events) {queued : QueuedEvent}
    (stamp : ChunkStamp)
    (hroom : ∀ session, state.session = some session →
      session.shouldRotateBefore writer.limits queued.event queued.event.eventDate = false) :
    (state.append writer (state.sessionFor writer stamp queued.event.eventDate) queued).Keeps
      sizeOf sha256File writer (events ++ [(queued.event, state.universeHash)]) := by
  have hdate : utcDateOf queued.event.appReceiveRealtimeNs = queued.event.eventDate :=
    queued.event.eventDate_eq.symm
  unfold WriterState.sessionFor
  cases hcurrent : state.session with
  | none =>
    apply h.append (WriterSession.holds_init _ _ _) hdate rfl
    · rw [hcurrent]
      rfl
    · exact .inr rfl
  | some session =>
    have hopen := h.session session hcurrent
    obtain ⟨hsameDate, hadmits⟩ := admits_of_not_rotate hopen (hroom session hcurrent)
    apply h.append hopen.holds hsameDate hopen.universeHash
    · rw [hcurrent]
      rfl
    · exact hadmits

theorem Keeps.handleEvent (h : state.Keeps sizeOf sha256File writer events)
    (hsize : ∀ file, 0 < sizeOf file) (queued : QueuedEvent) (readings : Readings) :
    Outcome (fun next => next.universeHash = state.universeHash ∧
        next.Keeps sizeOf sha256File writer (events ++ [(queued.event, state.universeHash)]))
      (WriterFailure.After sizeOf sha256File writer
        (events ++ [(queued.event, state.universeHash)]) [readings.rotated, readings.finished])
      (state.handleEvent sizeOf sha256File writer queued readings) := by
  have hrotate := h.finishIf hsize (state.session.any fun session =>
    session.shouldRotateBefore writer.limits queued.event queued.event.eventDate) readings.rotated
  refine (outcome_later hrotate (List.prefix_append _ _) fun finishing hm =>
    List.mem_cons.mpr (.inl (List.mem_singleton.mp hm))).bind
    fun rotated _ ⟨hhash, hsession, hkeeps⟩ => ?_
  have happended := hkeeps.sessionFor readings.stamp fun session hcurrent => by
    rcases hsession with hnone | ⟨hkeep, hsame⟩
    · rw [hnone] at hcurrent
      cases hcurrent
    · rw [hsame] at hcurrent
      rwa [hcurrent] at hkeep
  rw [hhash] at happended
  refine (outcome_later (happended.finishIf hsize _ readings.finished) List.prefix_rfl
    fun finishing hm => List.mem_cons_of_mem _ hm).mono ?_ fun _ => id
  rintro next ⟨hnext, -, hkeeps⟩
  rw [append_universeHash, hhash] at hnext
  exact ⟨hnext, hkeeps⟩

/-- The events that a turn takes, while this hash is in force. -/
def taken (universeHash : String) : Turn → List (RawEvent × String)
  | .event queued _ => [(queued.event, universeHash)]
  | .timeout _ _ | .rotateWriter _ _ => []

theorem Keeps.turn (h : state.Keeps sizeOf sha256File writer events)
    (hsize : ∀ file, 0 < sizeOf file) (turn : Turn) :
    Outcome (fun next =>
        next.Keeps sizeOf sha256File writer (events ++ taken state.universeHash turn) ∧
        ∀ turns, admitted state.universeHash (turn :: turns) =
          taken state.universeHash turn ++ admitted next.universeHash turns)
      (WriterFailure.After sizeOf sha256File writer
        (events ++ taken state.universeHash turn) turn.finishings)
      (state.turn sizeOf sha256File writer turn) := by
  cases turn with
  | timeout nowNs finishing =>
    have hevents : events ++ taken state.universeHash (.timeout nowNs finishing) = events :=
      List.append_nil events
    rw [hevents]
    refine (h.finishIf hsize _ finishing).mono ?_ fun _ => id
    rintro next ⟨hhash, -, hkeeps⟩
    refine ⟨hkeeps, fun turns => ?_⟩
    rw [hhash]
    rfl
  | event queued readings =>
    refine (h.handleEvent hsize queued readings).mono ?_ fun _ => id
    rintro next ⟨hhash, hkeeps⟩
    refine ⟨hkeeps, fun turns => ?_⟩
    rw [hhash]
    rfl
  | rotateWriter universeHash finishing =>
    have hevents : events ++ taken state.universeHash (.rotateWriter universeHash finishing) =
        events := List.append_nil events
    rw [hevents]
    refine (h.finish hsize finishing).bind fun finished _ ⟨hnone, _, hkeeps⟩ => ?_
    refine ⟨⟨hkeeps.events, hkeeps.sound, ?_, hkeeps.recorded⟩, fun turns => rfl⟩
    intro session hsession
    dsimp only at hsession
    rw [hnone] at hsession
    cases hsession

theorem Keeps.run (h : state.Keeps sizeOf sha256File writer events)
    (hsize : ∀ file, 0 < sizeOf file) (stopping : Finishing) (turns : List Turn) :
    Outcome (fun final => final.session = none ∧
        final.Keeps sizeOf sha256File writer (events ++ admitted state.universeHash turns))
      (WriterFailure.After sizeOf sha256File writer
        (events ++ admitted state.universeHash turns)
        (turns.flatMap Turn.finishings ++ [stopping]))
      (state.run sizeOf sha256File writer stopping turns) := by
  induction turns generalizing state events with
  | nil =>
    have hevents : events ++ admitted state.universeHash [] = events := List.append_nil events
    rw [hevents]
    exact (h.finish hsize stopping).mono (fun _ ⟨hnone, _, hkeeps⟩ => ⟨hnone, hkeeps⟩) fun _ => id
  | cons turn turns ih =>
    have hprefix : events ++ taken state.universeHash turn <+:
        events ++ admitted state.universeHash (turn :: turns) := by
      rw [List.prefix_append_right_inj]
      cases turn with
      | event queued readings => exact ⟨admitted state.universeHash turns, rfl⟩
      | timeout nowNs finishing => exact List.nil_prefix
      | rotateWriter universeHash finishing => exact List.nil_prefix
    refine (outcome_later (h.turn hsize turn) hprefix fun finishing hm => ?_).bind
      fun next _ ⟨hkeeps, hadmitted⟩ => ?_
    · exact List.mem_append_left _ (List.mem_flatMap.mpr ⟨turn, List.mem_cons_self, hm⟩)
    · rw [hadmitted, ← List.append_assoc]
      refine outcome_later (ih hkeeps) List.prefix_rfl fun finishing hm => ?_
      rw [List.flatMap_cons, List.append_assoc]
      exact List.mem_append_right _ hm

end WriterState

/-! A trade before midnight, a rotation, and a trade after midnight. -/

end MiryFormal
