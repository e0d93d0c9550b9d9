import MiryFormal.Collector.GapJournal

/-!
# Crashes of the gap journal

A crash leaves the files of some cut of the running call. `close` and `rollover` keep every
published OPEN event matched by an open-state file at every cut. `open` publishes before it
writes the state file, and a crash between the two leaves an OPEN event that nothing closes.
-/

namespace MiryFormal

set_option autoImplicit false

open Program

namespace GapFiles

/-- The last event that was published for the gap. -/
def latest (files : GapFiles) (gapId : String) : Option ArtifactName :=
  files.manifests.reverse.find? fun name => name.gapId = gapId

/-- Published OPEN events and open-state files match. -/
structure CrashConsistent (files : GapFiles) : Prop where
  /-- A gap that was last published as OPEN can be closed by the next boot. -/
  closable : ∀ name gapId, files.latest gapId = some name → name.state = .opened →
    files.openGaps.read gapId ≠ none
  /-- A gap with an open-state file has a published OPEN event. -/
  published : ∀ gapId, files.openGaps.read gapId ≠ none →
    ∃ name ∈ files.manifests, name.gapId = gapId ∧ name.state = .opened

variable {files : GapFiles}

theorem latest_concat (files : GapFiles) (name : ArtifactName) (gapId : String) :
    { files with manifests := files.manifests ++ [name] }.latest gapId =
      if name.gapId = gapId then some name else files.latest gapId := by
  by_cases h : name.gapId = gapId <;> simp [latest, h]

/-- A manifest may be added when it is a CLOSED one or the gap has its state file. -/
theorem CrashConsistent.publish (h : files.CrashConsistent) {name : ArtifactName}
    (hname : name.state = .opened → files.openGaps.read name.gapId ≠ none) :
    { files with manifests := files.manifests ++ [name] }.CrashConsistent := by
  constructor
  · intro last gapId hlast hopened
    rw [latest_concat] at hlast
    split at hlast
    · rename_i hid
      cases hlast
      rw [← hid]
      exact hname hopened
    · exact h.closable last gapId hlast hopened
  · intro gapId hstate
    obtain ⟨published, hm, hpublished⟩ := h.published gapId hstate
    exact ⟨published, List.mem_append_left _ hm, hpublished⟩

theorem CrashConsistent.writeState (h : files.CrashConsistent) {event : GapEvent}
    (hevent : ∃ name ∈ files.manifests, name.gapId = event.gapId ∧ name.state = .opened) :
    { files with openGaps := files.openGaps.write event }.CrashConsistent := by
  constructor
  · intro last gapId hlast hopened
    rw [EventFiles.read_write]
    split
    · simp
    · exact h.closable last gapId hlast hopened
  · intro gapId hstate
    rw [EventFiles.read_write] at hstate
    by_cases hid : event.gapId = gapId
    · exact hid ▸ hevent
    · rw [if_neg hid] at hstate
      exact h.published gapId hstate

theorem CrashConsistent.removeState (h : files.CrashConsistent) {gapId : String}
    {name : ArtifactName} (hlatest : files.latest gapId = some name) (hclosed : name.state = .closed) :
    { files with openGaps := files.openGaps.remove gapId }.CrashConsistent := by
  constructor
  · intro last gapId' hlast hopened
    rw [EventFiles.read_remove]
    by_cases hid : gapId = gapId'
    · subst hid
      obtain rfl : name = last := Option.some.inj (hlatest.symm.trans hlast)
      rw [hclosed] at hopened
      cases hopened
    · rw [if_neg hid]
      exact h.closable last gapId' hlast hopened
  · intro gapId' hstate
    rw [EventFiles.read_remove] at hstate
    split at hstate
    · exact absurd rfl hstate
    · exact h.published gapId' hstate

end GapFiles

namespace Journal
open GapFiles

variable {files : GapFiles}

theorem consistent_publish (event : GapEvent) (h : files.CrashConsistent)
    (hevent : event.state = .opened → files.openGaps.read event.gapId ≠ none) :
    (publish event).Safe JournalOp.run CrashConsistent
      (fun result files' => files'.CrashConsistent ∧ files'.openGaps = files.openGaps ∧
        (result = .ok () → files'.latest event.gapId = some event.artifactName)) files := by
  have hpublished := h.publish (show event.artifactName.state = .opened → _ from hevent)
  refine safe_publish h (fun _ => ⟨h, rfl, fun hr => by cases hr⟩) ⟨h.closable, h.published⟩
    ⟨hpublished.closable, hpublished.published⟩ ⟨hpublished.closable, hpublished.published⟩
    ⟨⟨hpublished.closable, hpublished.published⟩, rfl, fun _ => ?_⟩
  exact (latest_concat files event.artifactName event.gapId).trans (if_pos rfl)

/-- What a call may rely on while it rolls a gap: its state file stays. -/
def Rolling (gapId : String) (files : GapFiles) : Prop :=
  files.CrashConsistent ∧ files.openGaps.read gapId ≠ none

theorem consistent_closeDay {opened : GapEvent} {day : Nat}
    (h : Rolling opened.gapId files) :
    (closeDay opened day).Safe JournalOp.run CrashConsistent
      (fun _ => Rolling opened.gapId) files := by
  rw [closeDay_eq]
  refine Safe.of_ok rfl h.1 ?_
  split
  · exact ⟨h.1, h⟩
  · refine (consistent_publish _ h.1 fun hopened => ?_).mono (fun _ hc => hc)
      fun _ files' hc => ⟨hc.1, ?_⟩
    · cases hopened
    · rw [hc.2.1]
      exact h.2

theorem consistent_rollDays {opened : GapEvent} {day count : Nat}
    (h : Rolling opened.gapId files) :
    (rollDays opened day count).Safe JournalOp.run CrashConsistent
      (fun _ => Rolling opened.gapId) files := by
  induction count generalizing opened day files with
  | zero => exact ⟨h.1, h⟩
  | succ count ih =>
    unfold rollDays
    refine (consistent_closeDay h).bind (fun _ files hclosed => ?_) fun _ _ hclosed => hclosed
    refine (consistent_publish (opened.reopenedAt (day + 1)) hclosed.1 fun _ => hclosed.2).bind
      (fun _ files' hopened => ?_)
      fun _ files' hopened => ⟨hopened.1, ?_⟩
    · have hstate : files'.openGaps.read opened.gapId ≠ none := hopened.2.1 ▸ hclosed.2
      have hrolling : Rolling (opened.reopenedAt (day + 1)).gapId { files' with
          openGaps := files'.openGaps.write (opened.reopenedAt (day + 1)) } :=
        ⟨hopened.1.writeState (hopened.1.published opened.gapId hstate), by simp⟩
      exact Safe.of_ok rfl hopened.1 (ih hrolling)
    · rw [hopened.2.1]
      exact hclosed.2

/-- `_roll_state_to` keeps the files consistent at every cut, whether or not the file is there. -/
theorem consistent_rollStateTo (gapId : String) (targetDate : Int) :
    (rollStateTo gapId targetDate).Keeps JournalOp.run CrashConsistent CrashConsistent := by
  intro files h
  refine ⟨h, fun _ _ => h, fun opened files' hread => ?_⟩
  obtain ⟨rfl, hopened⟩ := JournalOp.run_readState hread
  refine (consistent_rollDays ⟨h, ?_⟩).mono (fun _ hc => hc) fun _ _ hc => hc.1
  rw [opened.property, hopened]
  exact Option.some_ne_none _

theorem consistent_rollover (boundary : Int) :
    (rollover boundary).Keeps JournalOp.run CrashConsistent CrashConsistent := fun files h =>
  Safe.of_ok rfl h (Keeps.forM (fun _ h => h) (fun gapId => consistent_rollStateTo gapId boundary) files h)

theorem consistent_closeGap {event : GapEvent} (hclosed : event.state = .closed) :
    (closeGap event).Keeps JournalOp.run CrashConsistent CrashConsistent := by
  intro files h
  have hroll : (rollIfOpen event.gapId (utcDateOf event.observedAtRealtimeNs)).Safe JournalOp.run
      CrashConsistent (fun _ => CrashConsistent) files := by
    rw [rollIfOpen_eq]
    refine Safe.of_ok rfl h ?_
    split
    · exact consistent_rollStateTo _ _ files h
    · exact ⟨h, h⟩
  refine hroll.bind (fun _ files h => ?_) fun _ _ h => h
  refine (consistent_publish _ h fun hopened => ?_).bind (fun _ files' hpublished => ?_)
    fun _ _ hpublished => hpublished.1
  · rw [hclosed] at hopened
    cases hopened
  · have hremoved := hpublished.1.removeState (hpublished.2.2 rfl) hclosed
    exact Safe.of_ok rfl hpublished.1 ⟨hremoved, hremoved⟩

theorem cut_openGap_sealed {event : GapEvent} (h : event.utcDate ∈ files.sealedDays) (n : Nat) :
    (openGap event).cut JournalOp.run n files = files := by
  rcases n with _ | _ | n <;> simp [openGap, publish, Program.cut, JournalOp.run, h]

/-- Once `open` has written its state file, the OPEN event is matched. -/
theorem consistent_opened {event : GapEvent} (hopened : event.state = .opened)
    (h : files.CrashConsistent) : CrashConsistent { files with
      openGaps := files.openGaps.write event
      artifacts := files.artifacts.write event
      manifests := files.manifests ++ [event.artifactName]
      dayIndex := files.dayIndex ++ [event.artifactName] } := by
  constructor
  · intro name gapId hname hstate
    rw [EventFiles.read_write]
    split
    · simp
    · rename_i hid
      refine h.closable name gapId ?_ hstate
      exact ((latest_concat files event.artifactName gapId).trans (if_neg hid)).symm.trans hname
  · intro gapId hstate
    rw [EventFiles.read_write] at hstate
    split at hstate
    · rename_i hid
      exact ⟨event.artifactName, by simp, hid, hopened⟩
    · obtain ⟨name, hm, hname⟩ := h.published gapId hstate
      exact ⟨name, List.mem_append_left _ hm, hname⟩

theorem consistent_openGap {event : GapEvent} (hopened : event.state = .opened)
    (h : files.CrashConsistent) :
    ((openGap event).exec JournalOp.run files).2.CrashConsistent := by
  by_cases hsealed : event.utcDate ∈ files.sealedDays
  · simpa [openGap, publish, perform, Program.exec, JournalOp.run, hsealed] using h
  · simpa [openGap, publish, perform, Program.exec, JournalOp.run, hsealed] using
      consistent_opened hopened h

theorem consistent_cut_openGap_iff {event : GapEvent} (hopened : event.state = .opened)
    (h : files.CrashConsistent) (hnew : files.openGaps.read event.gapId = none) (n : Nat) :
    ((openGap event).cut JournalOp.run n files).CrashConsistent ↔
      ¬ (event.utcDate ∉ files.sealedDays ∧ (n = 3 ∨ n = 4)) := by
  by_cases hsealed : event.utcDate ∈ files.sealedDays
  · rw [cut_openGap_sealed hsealed]
    simp [h, hsealed]
  · have hunmatched : ∀ artifacts dayIndex, ¬ CrashConsistent { files with
        artifacts
        manifests := files.manifests ++ [event.artifactName]
        dayIndex } := fun artifacts dayIndex hc =>
      hc.closable _ _ ((latest_concat files event.artifactName event.gapId).trans (if_pos rfl))
        hopened hnew
    simp only [hsealed, not_false_iff, true_and]
    rcases n with _ | _ | _ | _ | _ | n
    · simpa [openGap, publish, Program.cut, JournalOp.run, hsealed] using h
    · simpa [openGap, publish, Program.cut, JournalOp.run, hsealed] using h
    · have hartifact : CrashConsistent { files with artifacts := files.artifacts.write event } :=
        ⟨h.closable, h.published⟩
      simpa [openGap, publish, Program.cut, JournalOp.run, hsealed] using hartifact
    · simpa [openGap, publish, Program.cut, JournalOp.run, hsealed] using hunmatched _ _
    · simpa [openGap, publish, Program.cut, JournalOp.run, hsealed] using hunmatched _ _
    · simpa [openGap, publish, perform, Program.cut, JournalOp.run, hsealed] using
        consistent_opened hopened h

/-! Only its own `open` creates the state file of a gap. -/

def Unopened (gapId : String) (files : GapFiles) : Prop := files.openGaps.read gapId = none

theorem unopened_of_other {gapId other : String} (hne : other ≠ gapId) {op : JournalOp}
    {files' : GapFiles} {answer : op.Answer} (hop : op.OfGap other)
    (hnew : Unopened gapId files) (hrun : op.run files = .ok (answer, files')) :
    Unopened gapId files' := by
  unfold Unopened at hnew ⊢
  rw [(JournalOp.run_ok hrun).2.1]
  cases op with
  | writeState event =>
    have hid : event.gapId = other := hop
    simp [JournalOp.readAfter, hid, hne, hnew]
  | removeState removed => exact absurd hop id
  | _ => exact hnew

theorem unopened_rollStateTo (gapId other : String) (targetDate : Int) :
    (rollStateTo other targetDate).Keeps JournalOp.run (Unopened gapId) (Unopened gapId) := by
  by_cases hne : other = gapId
  · subst hne
    intro files hnew
    refine ⟨hnew, fun _ _ => hnew, fun opened files' hread => ?_⟩
    have hopened := (JournalOp.run_readState hread).2
    rw [hnew] at hopened
    cases hopened
  · exact Each.keeps (fun _ hnew => hnew) (each_rollStateTo other targetDate) fun op files answer files' hop hnew hrun =>
      unopened_of_other hne hop hnew hrun

theorem unopened_closeGap (gapId : String) (event : GapEvent) :
    (closeGap event).Keeps JournalOp.run (Unopened gapId) (Unopened gapId) := by
  have hroll : (rollIfOpen event.gapId (utcDateOf event.observedAtRealtimeNs)).Keeps
      JournalOp.run (Unopened gapId) (Unopened gapId) := by
    intro files hnew
    rw [rollIfOpen_eq]
    refine Safe.of_ok rfl hnew ?_
    split
    · exact unopened_rollStateTo gapId _ _ files hnew
    · exact ⟨hnew, hnew⟩
  refine hroll.bind fun _ => Keeps.bind ?_ fun _ files hnew => ?_
  · exact fun files hnew => safe_publish hnew (fun _ => hnew) hnew hnew hnew hnew
  · have hremoved : (files.openGaps.remove event.gapId).read gapId = none := by
      rw [EventFiles.read_remove, hnew, ite_self]
    exact Safe.of_ok rfl hnew ⟨hremoved, hremoved⟩

theorem unopened_rollover (gapId : String) (boundary : Int) :
    (rollover boundary).Keeps JournalOp.run (Unopened gapId) (Unopened gapId) :=
  fun files hnew =>
    Safe.of_ok rfl hnew
      (Keeps.forM (fun _ hnew => hnew) (fun other => unopened_rollStateTo gapId other boundary) files hnew)

end Journal

/-! ## Calls and a crash -/

namespace JournalCall
open GapFiles Journal

/-- The files after calls that ran to their ends, some of which may have raised. -/
def runAll (calls : List JournalCall) (files : GapFiles) : GapFiles :=
  calls.foldl (fun files call => (call.program.exec JournalOp.run files).2) files

variable {files : GapFiles}

theorem consistent_exec (call : JournalCall) (h : files.CrashConsistent) :
    (call.program.exec JournalOp.run files).2.CrashConsistent := by
  cases call with
  | openGap event state => exact consistent_openGap state h
  | closeGap event state => exact (consistent_closeGap state files h).exec
  | rollover boundary => exact (consistent_rollover boundary files h).exec

theorem consistent_runAll (calls : List JournalCall) (h : files.CrashConsistent) :
    (runAll calls files).CrashConsistent := by
  induction calls generalizing files with
  | nil => exact h
  | cons call calls ih => exact ih (consistent_exec call h)

theorem unopened_exec {gapId : String} {call : JournalCall} (hcall : ¬ call.Opens gapId)
    (hnew : files.openGaps.read gapId = none) :
    (call.program.exec JournalOp.run files).2.openGaps.read gapId = none := by
  cases call with
  | openGap event state =>
    have hne : event.gapId ≠ gapId := fun hid => hcall ⟨event, state, rfl, hid⟩
    exact (Each.keeps (fun _ hnew => hnew) (each_openGap event) (fun op files answer files' hop hnew hrun =>
      unopened_of_other hne hop hnew hrun) files hnew).exec
  | closeGap event state => exact (unopened_closeGap gapId event files hnew).exec
  | rollover boundary => exact (unopened_rollover gapId boundary files hnew).exec

theorem unopened_runAll {gapId : String} {calls : List JournalCall}
    (hcalls : ∀ call ∈ calls, ¬ call.Opens gapId) (hnew : files.openGaps.read gapId = none) :
    (runAll calls files).openGaps.read gapId = none := by
  induction calls generalizing files with
  | nil => exact hnew
  | cons call calls ih =>
    exact ih (fun later hm => hcalls later (List.mem_cons_of_mem _ hm))
      (unopened_exec (hcalls call List.mem_cons_self) hnew)

/-- The crash lies in `open`, behind the manifest of the OPEN event and before its state
file. -/
def CrashesUnmatched (files : GapFiles) (call : JournalCall) (n : Nat) : Prop :=
  ∃ event state, call = .openGap event state ∧ event.utcDate ∉ files.sealedDays ∧
    (n = 3 ∨ n = 4)

/-- A crash after `calls` and `n` operations of one more call leaves consistent files unless
it comes between the publication of an OPEN event and its state file. -/
theorem crashConsistent_iff (h : files.CrashConsistent) (calls : List JournalCall)
    (last : JournalCall) (hnew : ∀ gapId, last.Opens gapId →
      files.openGaps.read gapId = none ∧ ∀ call ∈ calls, ¬ call.Opens gapId) (n : Nat) :
    (last.program.cut JournalOp.run n (runAll calls files)).CrashConsistent ↔
      ¬ CrashesUnmatched (runAll calls files) last n := by
  have hbefore := consistent_runAll calls h
  cases last with
  | openGap event state =>
    obtain ⟨hfresh, hothers⟩ := hnew event.gapId ⟨event, state, rfl, rfl⟩
    rw [program, consistent_cut_openGap_iff state hbefore (unopened_runAll hothers hfresh)]
    refine not_congr ⟨fun hcut => ⟨event, state, rfl, hcut⟩, ?_⟩
    rintro ⟨event', state', hcall, hcut⟩
    cases hcall
    exact hcut
  | closeGap event state =>
    have hcut := (consistent_closeGap state _ hbefore).cut n
    refine iff_of_true hcut ?_
    rintro ⟨event', state', hcall, -⟩
    cases hcall
  | rollover boundary =>
    have hcut := (consistent_rollover boundary _ hbefore).cut n
    refine iff_of_true hcut ?_
    rintro ⟨event', state', hcall, -⟩
    cases hcall

theorem consistent_empty : ({} : GapFiles).CrashConsistent where
  closable := fun name gapId hlatest => by cases hlatest
  published := fun gapId hstate => absurd rfl hstate

def lostConnection : GapEvent where
  gapId := "gap-1"
  state := .opened
  reason := .connectionLost
  collectorId := "collector"
  observedAtRealtimeNs := 86400000000500

/-- A crash right after the state file is written. -/
theorem crashConsistent_lostConnection :
    ((openGap lostConnection rfl).program.cut JournalOp.run 5 (runAll [] {})).CrashConsistent ↔
      ¬ CrashesUnmatched (runAll [] {}) (openGap lostConnection rfl) 5 :=
  crashConsistent_iff consistent_empty []
    (openGap lostConnection rfl) (fun _ _ => ⟨rfl, by simp⟩) 5

/-- A crash right after the manifest of the OPEN event. -/
theorem not_crashConsistent_lostConnection :
    ({} : GapFiles).CrashConsistent ∧
      ¬ ((openGap lostConnection rfl).program.cut JournalOp.run 3 {}).CrashConsistent := by
  refine ⟨consistent_empty, fun h => ?_⟩
  exact h.closable lostConnection.artifactName "gap-1" (by decide) rfl (by decide)

end JournalCall

end MiryFormal
