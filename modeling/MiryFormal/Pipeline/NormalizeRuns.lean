import MiryFormal.Pipeline.DayNormalizer

/-!
# Runs of the normaliser

Several workers parse the chunks of a day in any order, and the process may fail or be cut off at
any moment and be started again over the files that it left. A run that comes to its end leaves what
one chunk after the other leaves in an empty directory, and so is every marker that is ever found.
-/

namespace MiryFormal

set_option autoImplicit false

/-- The directory of the typed files of a day, and the process at work there. -/
structure NormalizeRun where
  pool : WorkPool String (List ParsedRow) ParsedChunk NormalizeState := {}
  checkpoint : Option DedupCheckpoint := none
  marker : Option NormalizedDayMarker := none
  /-- This run has written its checkpoint. -/
  checkpointed : Bool := false
  /-- The last run has come to its end. -/
  concluded : Bool := false

inductive NormalizeEvent where
  | work (event : WorkEvent)
  | writeCheckpoint
  | writeMarker

namespace NormalizeRun
variable (text : NormalizeText) (input : NormalizeInput)

/-- What a step of the process makes of the notes about the current run. -/
def proceed (run : NormalizeRun) (event : WorkEvent)
    (pool : WorkPool String (List ParsedRow) ParsedChunk NormalizeState) : NormalizeRun :=
  match event with
  | .start => { run with pool, checkpointed := false, concluded := false }
  | .raise | .leave | .crash => { run with pool, checkpointed := false }
  | _ => { run with pool }

inductive Step (initial : NormalizeState) (manifests : List ChunkManifest) :
    NormalizeRun → NormalizeEvent → NormalizeRun → Prop where
  | work {run : NormalizeRun} {event : WorkEvent}
      {pool : WorkPool String (List ParsedRow) ParsedChunk NormalizeState}
      (hwork : (chunkTask text input).Step initial manifests run.pool event pool) :
      Step initial manifests run (.work event) (run.proceed event pool)
  | writeCheckpoint {run : NormalizeRun} {state : NormalizeState}
      (hfinished : run.pool.consumer = .finished state) (hnot : run.checkpointed = false) :
      Step initial manifests run .writeCheckpoint { run with
        checkpoint := some (dayCheckpoint text input state)
        checkpointed := true }
  | writeMarker {run : NormalizeRun} {state : NormalizeState} {marker : NormalizedDayMarker}
      (hfinished : run.pool.consumer = .finished state) (hwritten : run.checkpointed = true)
      (hmarker : concludeDay text input state run.pool.folder = .ok marker) :
      Step initial manifests run .writeMarker { run with
        pool := { folder := run.pool.folder }
        marker := some marker
        checkpointed := false
        concluded := true }

/-- The files are those of `output`. -/
def Holds (run : NormalizeRun) (output : NormalizedOutput) : Prop :=
  run.pool.folder = output.typed ∧ run.checkpoint = some output.checkpoint ∧
    run.marker = some output.marker

end NormalizeRun

/-! ## Typed files -/

section Files
variable {text : NormalizeText} {input : NormalizeInput} {rows : List ParsedRow}

/-- A file that is written again has the rows it had. -/
theorem map_unmarked_of_revise {state next : NormalizeState} {revised : List ParsedRow}
    (h : reviseTyped text state rows = .ok (some revised, next)) :
    revised.map ParsedRow.unmarked = rows.map ParsedRow.unmarked := by
  obtain ⟨flags, hobserve, ⟨-, hrevised⟩ | ⟨-, hrevised⟩⟩ := reviseTyped_ok h
  · rw [Option.some.inj hrevised]
    exact map_unmarked_setDuplicates (observeRows_length hobserve)
  · exact nomatch hrevised

/-- The file holds the rows of its chunk, whatever it says of their duplicates. -/
def OfChunk (text : NormalizeText) (input : NormalizeInput) (manifests : List ChunkManifest)
    (name : String) (rows : List ParsedRow) : Prop :=
  ∃ manifest ∈ manifests, typedName manifest.chunkId = name ∧ ∃ parsed result,
    parseChunk text input manifest = .ok (some parsed, result) ∧
    rows.map ParsedRow.unmarked = parsed.map ParsedRow.unmarked

theorem OfChunk.of_leftBy {manifests : List ChunkManifest} {name : String}
    (h : (chunkTask text input).LeftBy manifests name rows) :
    OfChunk text input manifests name rows := by
  obtain ⟨manifest, hm, hname, left, result, hproduce, hrows⟩ := h
  refine ⟨manifest, hm, hname, left, result, hproduce, ?_⟩
  rcases hrows with rfl | ⟨state, next, hrevise⟩
  · rfl
  · exact map_unmarked_of_revise hrevise

end Files

/-! ## What every step keeps -/

namespace NormalizeRun
variable {text : NormalizeText} {input : NormalizeInput} {initial : NormalizeState}
  {manifests : List ChunkManifest} {run after : NormalizeRun} {event : NormalizeEvent}

/-- One chunk after the other leads to `state` and the files `typed`. -/
def Passes (text : NormalizeText) (input : NormalizeInput) (initial : NormalizeState)
    (manifests : List ChunkManifest) (state : NormalizeState)
    (typed : Folder String (List ParsedRow)) : Prop :=
  (chunkTask text input).runAll initial manifests = .ok (state, typed)

structure Sound (text : NormalizeText) (input : NormalizeInput) (initial : NormalizeState)
    (manifests : List ChunkManifest) (run : NormalizeRun) : Prop where
  pool : (chunkTask text input).Sound initial manifests run.pool
  checkpoint : ∀ checkpoint, run.checkpoint = some checkpoint → ∃ state typed,
    Passes text input initial manifests state typed ∧ checkpoint = dayCheckpoint text input state
  checkpointed : run.checkpointed = true → run.checkpoint ≠ none
  marker : ∀ marker, run.marker = some marker → ∃ state typed,
    Passes text input initial manifests state typed ∧
      concludeDay text input state typed = .ok marker ∧
      run.checkpoint = some (dayCheckpoint text input state)
  concluded : run.concluded = true → run.pool = { folder := run.pool.folder } ∧
    run.marker ≠ none ∧ ∃ state, Passes text input initial manifests state run.pool.folder

theorem Passes.unique {state state' : NormalizeState} {typed typed' : Folder String (List ParsedRow)}
    (h : Passes text input initial manifests state typed)
    (h' : Passes text input initial manifests state' typed') : state = state' ∧ typed = typed' :=
  Prod.mk.inj (Except.ok.inj (h.symm.trans h'))

theorem sound_fresh : Sound text input initial manifests {} where
  pool := ⟨Folder.All.empty, fun _ _ _ _ _ heq => (nomatch heq), trivial⟩
  checkpoint _ heq := nomatch heq
  checkpointed heq := nomatch heq
  marker _ heq := nomatch heq
  concluded heq := nomatch heq

/-- While no run is on, only a start or a crash can follow. -/
theorem step_of_off {folder : Folder String (List ParsedRow)} {event : WorkEvent}
    {pool : WorkPool String (List ParsedRow) ParsedChunk NormalizeState}
    (hstep : (chunkTask text input).Step initial manifests { folder } event pool) :
    event = .start ∨ pool = { folder } := by
  cases hstep with
  | start => exact .inl rfl
  | crash => exact .inr rfl
  | launch _ _ hon => exact absurd rfl hon
  | raise hon => exact absurd rfl hon
  | complete _ hrunning | fault hrunning => exact nomatch hrunning
  | take h | read h | replace h | finish h | leave h => exact nomatch h

theorem proceed_checkpoint (run : NormalizeRun) (event : WorkEvent)
    (pool : WorkPool String (List ParsedRow) ParsedChunk NormalizeState) :
    (run.proceed event pool).checkpoint = run.checkpoint ∧
      (run.proceed event pool).marker = run.marker ∧ (run.proceed event pool).pool = pool := by
  cases event <;> exact ⟨rfl, rfl, rfl⟩

theorem checkpointed_of_proceed {event : WorkEvent}
    {pool : WorkPool String (List ParsedRow) ParsedChunk NormalizeState}
    (h : (run.proceed event pool).checkpointed = true) : run.checkpointed = true := by
  cases event <;> first | exact h | exact nomatch h

theorem concluded_of_proceed {event : WorkEvent}
    {pool : WorkPool String (List ParsedRow) ParsedChunk NormalizeState}
    (h : (run.proceed event pool).concluded = true) : event ≠ .start ∧ run.concluded = true := by
  cases event <;> first | exact ⟨nofun, h⟩ | exact nomatch h

section Keep
variable (hids : (manifests.map fun manifest => manifest.chunkId).Nodup)
include hids

theorem keys_nodup : (manifests.map (chunkTask text input).key).Nodup := by
  have hmap : manifests.map (chunkTask text input).key =
      (manifests.map fun manifest => manifest.chunkId).map typedName := by
    rw [List.map_map]
    rfl
  rw [hmap]
  exact hids.map typedName_injective

theorem Sound.work (h : Sound text input initial manifests run) {event : WorkEvent}
    {pool : WorkPool String (List ParsedRow) ParsedChunk NormalizeState}
    (hwork : (chunkTask text input).Step initial manifests run.pool event pool) :
    Sound text input initial manifests (run.proceed event pool) := by
  obtain ⟨hcheckpoint, hmarker, hpool⟩ := proceed_checkpoint run event pool
  refine ⟨?_, ?_, fun hwritten => ?_, ?_, fun hconcluded => ?_⟩
  · rw [hpool]
    exact hwork.sound (keys_nodup hids) h.pool
  · rw [hcheckpoint]
    exact h.checkpoint
  · rw [hcheckpoint]
    exact h.checkpointed (checkpointed_of_proceed hwritten)
  · rw [hmarker, hcheckpoint]
    exact h.marker
  · obtain ⟨hevent, hbefore⟩ := concluded_of_proceed hconcluded
    obtain ⟨hidle, hnone, state, hpasses⟩ := h.concluded hbefore
    rw [hidle] at hwork
    obtain hstart | rfl := step_of_off hwork
    · exact absurd hstart hevent
    · rw [hpool, hmarker]
      exact ⟨rfl, hnone, state, hpasses⟩

omit hids in
theorem Sound.writeCheckpoint (h : Sound text input initial manifests run) {state : NormalizeState}
    (hfinished : run.pool.consumer = .finished state) :
    Sound text input initial manifests { run with
      checkpoint := some (dayCheckpoint text input state)
      checkpointed := true } := by
  have hpasses := h.pool.finished hfinished
  refine ⟨h.pool, fun checkpoint heq => ?_, fun _ => Option.some_ne_none _, fun marker heq => ?_,
    fun hconcluded => ?_⟩
  · exact ⟨state, run.pool.folder, hpasses, (Option.some.inj heq).symm⟩
  · obtain ⟨before, typed, hbefore, hmarker, -⟩ := h.marker marker heq
    refine ⟨before, typed, hbefore, hmarker, ?_⟩
    rw [(hbefore.unique hpasses).1]
  · obtain ⟨hidle, -⟩ := h.concluded hconcluded
    rw [hidle] at hfinished
    exact nomatch hfinished

omit hids in
theorem Sound.writeMarker (h : Sound text input initial manifests run) {state : NormalizeState}
    {marker : NormalizedDayMarker} (hfinished : run.pool.consumer = .finished state)
    (hwritten : run.checkpointed = true)
    (hmarker : concludeDay text input state run.pool.folder = .ok marker) :
    Sound text input initial manifests { run with
      pool := { folder := run.pool.folder }
      marker := some marker
      checkpointed := false
      concluded := true } := by
  have hpasses := h.pool.finished hfinished
  refine ⟨h.pool.stopped, h.checkpoint, fun heq => (nomatch heq), fun other heq => ?_, fun _ => ?_⟩
  · obtain ⟨checkpoint, hcheckpoint⟩ := Option.ne_none_iff_exists'.mp (h.checkpointed hwritten)
    obtain ⟨before, typed, hbefore, rfl⟩ := h.checkpoint checkpoint hcheckpoint
    rw [(hbefore.unique hpasses).1] at hcheckpoint
    rw [← Option.some.inj heq]
    exact ⟨state, run.pool.folder, hpasses, hmarker, hcheckpoint⟩
  · exact ⟨rfl, Option.some_ne_none _, state, hpasses⟩

theorem Sound.step (h : Sound text input initial manifests run)
    (hstep : Step text input initial manifests run event after) :
    Sound text input initial manifests after := by
  cases hstep with
  | work hwork => exact h.work hids hwork
  | writeCheckpoint hfinished _ => exact h.writeCheckpoint hfinished
  | writeMarker hfinished hwritten hmarker => exact h.writeMarker hfinished hwritten hmarker

theorem Sound.reached (h : Sound text input initial manifests run) {events : List NormalizeEvent}
    (hrun : Run (Step text input initial manifests) run events after) :
    Sound text input initial manifests after :=
  hrun.preserves (fun h hstep => h.step hids hstep) h

end Keep

/-! ## What a run leaves -/

section Output
variable (hload : loadDay input = .ok (initial, manifests))
include hload

/-- `normalizeDay` is a pass over all chunks and its end. -/
theorem normalizeDay_eq_ok_iff {output : NormalizedOutput} :
    normalizeDay text input = .ok output ↔ ∃ state,
      Passes text input initial manifests state output.typed ∧
      concludeDay text input state output.typed = .ok output.marker ∧
      output.checkpoint = dayCheckpoint text input state := by
  unfold normalizeDay Passes
  constructor
  · intro h
    obtain ⟨loaded, hloaded, h⟩ := exists_of_bind_ok h
    rw [hload] at hloaded
    cases hloaded
    obtain ⟨⟨state, typed⟩, hpass, h⟩ := exists_of_bind_ok h
    obtain ⟨marker, hmarker, h⟩ := exists_of_bind_ok h
    cases h
    exact ⟨state, hpass, hmarker, rfl⟩
  · rintro ⟨state, hpass, hmarker, hcheckpoint⟩
    obtain ⟨typed, checkpoint, marker⟩ := output
    obtain rfl : checkpoint = dayCheckpoint text input state := hcheckpoint
    exact bind_eq hload (bind_eq hpass (bind_eq hmarker rfl))

theorem Sound.marker_output (h : Sound text input initial manifests run)
    {marker : NormalizedDayMarker} (hmarker : run.marker = some marker) :
    ∃ output, normalizeDay text input = .ok output ∧ output.marker = marker ∧
      run.checkpoint = some output.checkpoint := by
  obtain ⟨state, typed, hpasses, hconclude, hcheckpoint⟩ := h.marker marker hmarker
  refine ⟨⟨typed, dayCheckpoint text input state, marker⟩, ?_, rfl, hcheckpoint⟩
  exact (normalizeDay_eq_ok_iff hload).mpr ⟨state, hpasses, hconclude, rfl⟩

theorem Sound.concluded_output (h : Sound text input initial manifests run)
    (hconcluded : run.concluded = true) :
    ∃ output, normalizeDay text input = .ok output ∧ run.Holds output := by
  obtain ⟨-, hnone, state, hpasses⟩ := h.concluded hconcluded
  obtain ⟨marker, hmarker⟩ := Option.ne_none_iff_exists'.mp hnone
  obtain ⟨output, houtput, rfl, hcheckpoint⟩ := h.marker_output hload hmarker
  obtain ⟨before, hbefore, -⟩ := (normalizeDay_eq_ok_iff hload).mp houtput
  exact ⟨output, houtput, (hpasses.unique hbefore).2, hcheckpoint, hmarker⟩

end Output

/-! ## A run that is left alone -/

/-- What the workers and the consumer do, the process does. -/
theorem exists_proceeded {events : List WorkEvent}
    {pool : WorkPool String (List ParsedRow) ParsedChunk NormalizeState}
    (hpool : Run ((chunkTask text input).Step initial manifests) run.pool events pool)
    (hnot : run.checkpointed = false) :
    ∃ last, Run (Step text input initial manifests) run (events.map .work) last ∧
      last.pool = pool ∧ last.checkpointed = false := by
  generalize hbefore : run.pool = before at hpool
  induction hpool generalizing run with
  | nil => exact ⟨run, .nil _, hbefore, hnot⟩
  | @cons before middle last event events hstep hrest ih =>
    subst hbefore
    have hproceed := proceed_checkpoint run event middle
    have hstill : (run.proceed event middle).checkpointed = false := by
      cases hwritten : (run.proceed event middle).checkpointed with
      | false => rfl
      | true =>
        rw [checkpointed_of_proceed hwritten] at hnot
        exact nomatch hnot
    obtain ⟨final, hfinal, hpool, hfree⟩ := ih hstill hproceed.2.2
    exact ⟨final, .cons (.work hstep) hfinal, hpool, hfree⟩

theorem exists_concluded (hload : loadDay input = .ok (initial, manifests))
    (hids : (manifests.map fun manifest => manifest.chunkId).Nodup)
    (h : Sound text input initial manifests run) {output : NormalizedOutput}
    (houtput : normalizeDay text input = .ok output) :
    ∃ events last, Run (Step text input initial manifests) run events last ∧
      last.concluded = true := by
  obtain ⟨state, hpasses, hmarker, -⟩ := (normalizeDay_eq_ok_iff hload).mp houtput
  have hcrash : Step text input initial manifests run (.work .crash)
      (run.proceed .crash { folder := run.pool.folder }) := .work .crash
  have hidle : (run.proceed .crash { folder := run.pool.folder }).pool.consumer = .off := rfl
  obtain ⟨events, pool, hpool, hfinished⟩ := PoolTask.exists_finished hpasses hidle
  obtain ⟨worked, hworked, rfl, hnot⟩ := exists_proceeded hpool rfl
  have hsound : Sound text input initial manifests worked :=
    (h.step hids hcrash).reached hids hworked
  have hfolder := (hpasses.unique (hsound.pool.finished hfinished)).2
  rw [hfolder] at hmarker
  exact ⟨_, _, (Run.single hcrash).append (hworked.append (.cons (.writeCheckpoint hfinished hnot)
    (.single (.writeMarker hfinished rfl hmarker)))), rfl⟩

/-! ## Runs -/

/-- However the workers, failures, crashes and new runs are ordered: a typed file holds the rows of its
chunk, a marker is that of one chunk after the other and so is the checkpoint beside it, a run that
has come to its end has left exactly these files, and if one chunk after the other succeeds, a run can
always still come to its end. -/
theorem run_normalized (hload : loadDay input = .ok (initial, manifests))
    (hids : (manifests.map fun manifest => manifest.chunkId).Nodup) {events : List NormalizeEvent}
    (hrun : Run (Step text input initial manifests) {} events run) :
    run.pool.folder.All (OfChunk text input manifests) ∧
      (∀ marker, run.marker = some marker → ∃ output, normalizeDay text input = .ok output ∧
        output.marker = marker ∧ run.checkpoint = some output.checkpoint) ∧
      (run.concluded = true → ∃ output, normalizeDay text input = .ok output ∧ run.Holds output) ∧
      ∀ output, normalizeDay text input = .ok output → ∃ more last,
        Run (Step text input initial manifests) run more last ∧ last.concluded = true ∧
          last.Holds output := by
  have hsound := Sound.reached hids sound_fresh hrun
  refine ⟨hsound.pool.folder.mono fun name rows => OfChunk.of_leftBy,
    fun marker hmarker => hsound.marker_output hload hmarker,
    fun hconcluded => hsound.concluded_output hload hconcluded, fun output houtput => ?_⟩
  obtain ⟨more, last, hmore, hconcluded⟩ := exists_concluded hload hids hsound houtput
  obtain ⟨found, hfound, hholds⟩ :=
    (hsound.reached hids hmore).concluded_output hload hconcluded
  rw [houtput] at hfound
  cases hfound
  exact ⟨more, last, hmore, hconcluded, hholds⟩

end NormalizeRun

/-! ## A run that is cut off -/

def earlyManifest : ChunkManifest := repeatedManifest "chunk-b-early" 0 1 (by decide)

def lateManifest : ChunkManifest := repeatedManifest "chunk-a-late" 0 2 (by decide)

def twiceDay : NormalizeInput := repeatedDay 0 [lateManifest, earlyManifest] none (by decide)

theorem loadDay_twiceDay : loadDay twiceDay = .ok ({}, [earlyManifest, lateManifest]) := by
  with_unfolding_all rfl

theorem normalizeDay_twiceDay :
    (normalizeDay repeatedText twiceDay).map (fun output => output.marker.duplicateEvents) =
      .ok 1 := by
  with_unfolding_all rfl

/-- The worker of the second chunk is done when the process is cut off. -/
theorem exists_interrupted : ∃ run,
    Run (NormalizeRun.Step repeatedText twiceDay {} [earlyManifest, lateManifest]) {}
      [.work .start, .work (.launch 1), .work (.complete 1), .work .crash] run :=
  ⟨_, .cons (.work (.start rfl)) <| .cons (.work (.launch (by decide) rfl nofun)) <|
    .cons (.work (.complete rfl rfl)) <| .single (.work .crash)⟩

theorem run_normalized_interrupted : ∃ events run output,
    Run (NormalizeRun.Step repeatedText twiceDay {} [earlyManifest, lateManifest]) {}
        ([.work .start, .work (.launch 1), .work (.complete 1), .work .crash] ++ events) run ∧
      run.concluded = true ∧ run.Holds output ∧ output.marker.duplicateEvents = 1 := by
  obtain ⟨run, hrun⟩ := exists_interrupted
  obtain ⟨output, houtput, hduplicates⟩ := exists_of_map_ok normalizeDay_twiceDay
  obtain ⟨events, last, hmore, hconcluded, hholds⟩ :=
    (NormalizeRun.run_normalized loadDay_twiceDay (by decide) hrun).2.2.2 output houtput
  exact ⟨events, last, output, hrun.append hmore, hconcluded, hholds, hduplicates⟩

end MiryFormal
