import MiryFormal.Collector.GapJournal
import Mathlib.Data.List.Dedup

/-!
# The events of one gap

Calls run one after the other, each to its end, with days sealed in between. What they
leave of one gap is described by `Leaves`: its state file, and the events that are
published for it. Calls for other gaps and seals leave both alone.
-/

namespace MiryFormal

set_option autoImplicit false

open Program

/-- A call, or the seal of a day. -/
inductive LedgerStep where
  | call (call : JournalCall)
  | sealDay (utcDate : Int)

namespace GapFiles

/-- `_seal`: the day is sealed and its journal removed. -/
def sealDay (files : GapFiles) (utcDate : Int) : GapFiles :=
  { files with
    sealedDays := files.sealedDays.insert utcDate
    dayIndex := files.dayIndex.filter fun name => name.utcDate ≠ utcDate }

/-- `_read_refs` and the artifacts behind the references. -/
def published (files : GapFiles) (utcDate : Int) : List GapEvent :=
  (((files.dayIndex ++ files.manifests).filter fun name => name.utcDate = utcDate).dedup).filterMap
    files.artifacts.read

end GapFiles

namespace LedgerStep

/-- A call that raises leaves what it has written. -/
def run (files : GapFiles) : LedgerStep → GapFiles
  | call journalCall => (journalCall.program.exec JournalOp.run files).2
  | sealDay utcDate => files.sealDay utcDate

def runAll (steps : List LedgerStep) (files : GapFiles) : GapFiles := steps.foldl run files

theorem runAll_keeps {I : GapFiles → Prop} {steps : List LedgerStep}
    (hstep : ∀ step ∈ steps, ∀ files, I files → I (step.run files)) {files : GapFiles}
    (h : I files) : I (runAll steps files) := by
  induction steps generalizing files with
  | nil => exact h
  | cons step steps ih =>
    exact ih (fun later hm => hstep later (List.mem_cons_of_mem _ hm))
      (hstep step List.mem_cons_self files h)

/-- The step opens or closes the gap. -/
def Names (step : LedgerStep) (gapId : String) : Prop :=
  ∃ journalCall, step = call journalCall ∧ (journalCall.Opens gapId ∨ journalCall.Closes gapId)

end LedgerStep

/-- What a call for the gap consists of. -/
def JournalOp.ForGap (gapId : String) : JournalOp → Prop
  | .listOpenGaps => False
  | .daySealed _ => True
  | .stateExists id | .readState id | .removeState id => id = gapId
  | .writeArtifact event | .writeState event => event.gapId = gapId
  | .writeManifest name | .appendIndex name => name.gapId = gapId

theorem JournalOp.OfGap.forGap {op : JournalOp} {gapId : String} (h : op.OfGap gapId) :
    op.ForGap gapId := by
  cases op with
  | stateExists | removeState => exact False.elim h
  | _ => exact h

/-- What the files hold of a gap: its state file, and its published events. -/
structure Leaves (gapId : String) (state : Option GapEvent) (events : GapEvent → Prop)
    (files : GapFiles) : Prop where
  state : files.openGaps.read gapId = state
  named : ∀ event, events event → event.gapId = gapId
  published : ∀ event, events event →
    event.artifactName ∈ files.manifests ∧ files.artifacts.read event.artifactName = some event
  manifests : ∀ name ∈ files.manifests, name.gapId = gapId →
    ∃ event, events event ∧ event.artifactName = name
  dayIndex : ∀ name ∈ files.dayIndex, name.gapId = gapId →
    ∃ event, events event ∧ event.artifactName = name

namespace Leaves

variable {gapId : String} {state : Option GapEvent} {events : GapEvent → Prop} {files : GapFiles}

theorem mem_published (h : Leaves gapId state events files) {event : GapEvent} {utcDate : Int}
    (hid : event.gapId = gapId) :
    event ∈ files.published utcDate ↔ events event ∧ event.utcDate = utcDate := by
  simp only [GapFiles.published, List.mem_filterMap, List.mem_dedup, List.mem_filter,
    List.mem_append, decide_eq_true_eq]
  constructor
  · rintro ⟨name, ⟨hname, hdate⟩, hread⟩
    have heq := EventFiles.name_of_read hread
    have hgap : name.gapId = gapId := by rw [← heq]; exact hid
    obtain ⟨event', hevent, hname'⟩ : ∃ event', events event' ∧ event'.artifactName = name :=
      hname.elim (fun hm => h.dayIndex name hm hgap) fun hm => h.manifests name hm hgap
    have hread' := (h.published event' hevent).2
    rw [hname', hread] at hread'
    obtain rfl := Option.some.inj hread'
    refine ⟨hevent, ?_⟩
    rw [← hdate, ← heq]
    rfl
  · rintro ⟨hevent, hdate⟩
    obtain ⟨hm, hread⟩ := h.published event hevent
    exact ⟨event.artifactName, ⟨.inr hm, hdate⟩, hread⟩

theorem published_nodup (files : GapFiles) (utcDate : Int) : (files.published utcDate).Nodup := by
  refine List.Nodup.filterMap ?_ (List.nodup_dedup _)
  intro name name' event hread hread'
  exact (EventFiles.name_of_read hread).symm.trans (EventFiles.name_of_read hread')

theorem sealDay (h : Leaves gapId state events files) (utcDate : Int) :
    Leaves gapId state events (files.sealDay utcDate) :=
  ⟨h.state, h.named, h.published, h.manifests, fun name hm =>
    h.dayIndex name (List.mem_of_mem_filter hm)⟩

theorem of_other (h : Leaves gapId state events files) {op : JournalOp} {other : String}
    (hop : op.ForGap other) (hne : other ≠ gapId) {answer : op.Answer}
    {files' : GapFiles} (hrun : op.run files = .ok (answer, files')) :
    Leaves gapId state events files' := by
  cases op with
  | writeArtifact event =>
    have hid : event.gapId = other := hop
    cases hrun
    refine ⟨h.state, h.named, fun event' hevent' => ?_, h.manifests, h.dayIndex⟩
    obtain ⟨hm, hread⟩ := h.published event' hevent'
    refine ⟨hm, ?_⟩
    rw [EventFiles.read_write, if_neg, hread]
    intro hname
    have hsame : event.gapId = event'.gapId := congrArg ArtifactName.gapId hname
    rw [hid, h.named event' hevent'] at hsame
    exact hne hsame
  | writeManifest name =>
    have hid : name.gapId = other := hop
    cases hrun
    refine ⟨h.state, h.named, fun event hevent => ⟨List.mem_append_left _ (h.published event hevent).1,
      (h.published event hevent).2⟩, fun name' hm hgap => ?_, h.dayIndex⟩
    rcases List.mem_append.mp hm with hm | hm
    · exact h.manifests name' hm hgap
    · rw [List.mem_singleton.mp hm, hid] at hgap
      exact absurd hgap hne
  | appendIndex name =>
    have hid : name.gapId = other := hop
    cases hrun
    refine ⟨h.state, h.named, h.published, h.manifests, fun name' hm hgap => ?_⟩
    rcases List.mem_append.mp hm with hm | hm
    · exact h.dayIndex name' hm hgap
    · rw [List.mem_singleton.mp hm, hid] at hgap
      exact absurd hgap hne
  | writeState event =>
    have hid : event.gapId = other := hop
    cases hrun
    refine ⟨?_, h.named, h.published, h.manifests, h.dayIndex⟩
    rw [EventFiles.read_write, if_neg (by rw [hid]; exact hne), h.state]
  | removeState removed =>
    have hid : removed = other := hop
    cases hrun
    refine ⟨?_, h.named, h.published, h.manifests, h.dayIndex⟩
    rw [EventFiles.read_remove, if_neg (by rw [hid]; exact hne), h.state]
  | readState id =>
    obtain ⟨rfl, -⟩ := JournalOp.run_readState hrun
    exact h
  | _ =>
    cases hrun
    exact h

theorem writeState (h : Leaves gapId state events files) {event : GapEvent}
    (hid : event.gapId = gapId) : Leaves gapId (some event) events
      { files with openGaps := files.openGaps.write event } where
  state := by rw [EventFiles.read_write, if_pos hid]
  named := h.named
  published := h.published
  manifests := h.manifests
  dayIndex := h.dayIndex

theorem removeState (h : Leaves gapId state events files) : Leaves gapId none events
    { files with openGaps := files.openGaps.remove gapId } where
  state := by rw [EventFiles.read_remove, if_pos rfl]
  named := h.named
  published := h.published
  manifests := h.manifests
  dayIndex := h.dayIndex

theorem congr {events' : GapEvent → Prop} (h : Leaves gapId state events files)
    (heq : ∀ event, events event ↔ events' event) : Leaves gapId state events' files := by
  obtain rfl : events = events' := funext fun event => propext (heq event)
  exact h

end Leaves

namespace Journal
open JournalOp

variable {gapId : String} {state : Option GapEvent} {events : GapEvent → Prop} {files : GapFiles}

theorem leaves_publish (event : GapEvent) (h : Leaves event.gapId state events files)
    (hname : ∀ other, events other → other.artifactName = event.artifactName → other = event) :
    (publish event).Safe JournalOp.run (fun _ => True) (fun result files' =>
      (result = .ok () ∧
          Leaves event.gapId state (fun other => events other ∨ other = event) files') ∨
        (∃ e, result = .error e) ∧ files' = files) files := by
  refine safe_publish trivial (fun _ => .inr ⟨⟨_, rfl⟩, rfl⟩) trivial trivial trivial
    (.inl ⟨rfl, h.state, ?_, ?_, ?_, ?_⟩)
  · rintro other (hother | rfl)
    · exact h.named other hother
    · rfl
  · rintro other (hother | rfl)
    · obtain ⟨hm, hread⟩ := h.published other hother
      refine ⟨List.mem_append_left _ hm, ?_⟩
      rw [EventFiles.read_write]
      split
      · rename_i hsame
        rw [hname other hother hsame.symm]
      · exact hread
    · refine ⟨by simp, ?_⟩
      rw [EventFiles.read_write, if_pos rfl]
  · intro name hm hgap
    rcases List.mem_append.mp hm with hm | hm
    · obtain ⟨other, hother, heq⟩ := h.manifests name hm hgap
      exact ⟨other, .inl hother, heq⟩
    · exact ⟨event, .inr rfl, (List.mem_singleton.mp hm).symm⟩
  · intro name hm hgap
    rcases List.mem_append.mp hm with hm | hm
    · obtain ⟨other, hother, heq⟩ := h.dayIndex name hm hgap
      exact ⟨other, .inl hother, heq⟩
    · exact ⟨event, .inr rfl, (List.mem_singleton.mp hm).symm⟩

end Journal

/-! ## A gap that is rolled from day to day -/

namespace GapEvent

/-- The OPEN event of the gap on a day. -/
def onDay (opened : GapEvent) (day : Nat) : GapEvent :=
  if day = opened.openedDate then opened else opened.reopenedAt day

variable {opened : GapEvent}

theorem onDay_openedDate (opened : GapEvent) (day : Nat) : (opened.onDay day).openedDate = day := by
  unfold onDay
  split
  · rename_i hday
    exact hday.symm
  · exact reopenedAt_openedDate opened day

theorem onDay_closedAtEndOf (opened : GapEvent) (day k : Nat) :
    (opened.onDay day).closedAtEndOf k = opened.closedAtEndOf k := by
  unfold onDay
  split <;> rfl

theorem onDay_reopenedAt (opened : GapEvent) (day k : Nat) :
    (opened.onDay day).reopenedAt k = opened.reopenedAt k := by
  unfold onDay
  split <;> rfl

theorem onDay_gapId (opened : GapEvent) (day : Nat) : (opened.onDay day).gapId = opened.gapId := by
  unfold onDay
  split <;> rfl

theorem utcDate_le_openedDate (opened : GapEvent) : opened.utcDate ≤ opened.openedDate := by
  have hle : opened.effectiveNs ≤ opened.openedNs := by
    have hnonneg := opened.observed_nonneg
    cases haffected : opened.affectedFromRealtimeNs with
    | none => simp [effectiveNs, openedNs, haffected]
    | some ns =>
      cases hstate : opened.state with
      | opened =>
        simp only [effectiveNs, openedNs, hstate, haffected]
        split <;> omega
      | closed =>
        have hnone := opened.closed_unaffected hstate
        rw [haffected] at hnone
        cases hnone
  rw [openedDate_eq]
  simp only [utcDate, utcDateOf, nsPerDay]
  omega

end GapEvent

/-- The events of a gap that is rolled to `day`; on the days in `ended` its CLOSED event is
published. -/
def RolledEvents (opened : GapEvent) (day : Nat) (ended : Nat → Prop) (event : GapEvent) : Prop :=
  event = opened ∨
    (∃ k, opened.openedDate < k ∧ k ≤ day ∧ event = opened.reopenedAt k) ∨
    ∃ k, ended k ∧ event = opened.closedAtEndOf k

/-- The gap is rolled to `day`. It has been ended on days up to it that lie before `last`. -/
def RolledTo (opened : GapEvent) (last : Int) (day : Nat) (files : GapFiles) : Prop :=
  ∃ ended : Nat → Prop, (∀ k, ended k → opened.openedDate ≤ k ∧ k ≤ day ∧ (k : Int) < last) ∧
    Leaves opened.gapId (some (opened.onDay day)) (RolledEvents opened day ended) files

/-- The gap is open, rolled to some day up to `last`. -/
def HeldOpen (opened : GapEvent) (last : Int) (files : GapFiles) : Prop :=
  ∃ day : Nat, opened.openedDate ≤ day ∧ (day = opened.openedDate ∨ (day : Int) ≤ last) ∧
    RolledTo opened last day files

namespace Journal

section Rolls
variable {opened : GapEvent} (hopened : opened.state = .opened) {last : Int} {day : Nat}
  {files : GapFiles}
include hopened

theorem rolledTo_closeDay (hday : opened.openedDate ≤ day) (hlast : (day : Int) < last)
    (h : RolledTo opened last day files) :
    (closeDay (opened.onDay day) day).Safe JournalOp.run (fun _ => True)
      (fun _ => RolledTo opened last day) files := by
  rw [closeDay_eq]
  refine Safe.of_ok rfl trivial ?_
  split
  · exact ⟨trivial, h⟩
  · obtain ⟨ended, hended, hleaves⟩ := h
    rw [GapEvent.onDay_closedAtEndOf]
    refine (leaves_publish (opened.closedAtEndOf day) hleaves ?_).mono (fun _ _ => trivial) ?_
    · rintro other (rfl | ⟨k, -, -, rfl⟩ | ⟨k, -, rfl⟩) hname
      · have hstate : other.state = .closed := congrArg ArtifactName.state hname
        rw [hopened] at hstate
        cases hstate
      · have hstate : GapState.opened = .closed := congrArg ArtifactName.state hname
        cases hstate
      · have hdate := congrArg ArtifactName.utcDate hname
        have hk : (opened.closedAtEndOf k).utcDate = (opened.closedAtEndOf day).utcDate := hdate
        simp only [GapEvent.closedAtEndOf_utcDate] at hk
        rw [Int.ofNat_inj.mp hk]
    · rintro result files' (⟨-, hleaves'⟩ | ⟨-, rfl⟩)
      · refine ⟨fun k => ended k ∨ k = day, ?_, hleaves'.congr fun event => ?_⟩
        · rintro k (hk | rfl)
          · exact hended k hk
          · exact ⟨hday, le_rfl, hlast⟩
        · simp only [RolledEvents]
          constructor
          · rintro ((h | h | ⟨k, hk, h⟩) | h)
            · exact .inl h
            · exact .inr (.inl h)
            · exact .inr (.inr ⟨k, .inl hk, h⟩)
            · exact .inr (.inr ⟨day, .inr rfl, h⟩)
          · rintro (h | h | ⟨k, hk | rfl, h⟩)
            · exact .inl (.inl h)
            · exact .inl (.inr (.inl h))
            · exact .inl (.inr (.inr ⟨k, hk, h⟩))
            · exact .inr h
      · exact ⟨ended, hended, hleaves⟩

/-- The gap is reopened on the next day before its state file says so. -/
theorem leaves_reopen (hday : opened.openedDate ≤ day) (h : RolledTo opened last day files) :
    (publish (opened.reopenedAt (day + 1))).Safe JournalOp.run (fun _ => True)
      (fun result files' =>
        (result = .ok () ∧ RolledTo opened last (day + 1)
          { files' with openGaps := files'.openGaps.write (opened.reopenedAt (day + 1)) }) ∨
        (∃ e, result = .error e) ∧ RolledTo opened last day files') files := by
  obtain ⟨ended, hended, hleaves⟩ := h
  refine (leaves_publish (opened.reopenedAt (day + 1)) hleaves ?_).mono (fun _ _ => trivial) ?_
  · rintro other (rfl | ⟨k, -, hk, rfl⟩ | ⟨k, -, rfl⟩) hname
    · have hdate : other.utcDate = (other.reopenedAt (day + 1)).utcDate :=
        congrArg ArtifactName.utcDate hname
      have hle := other.utcDate_le_openedDate
      rw [GapEvent.reopenedAt_utcDate] at hdate
      omega
    · have hdate : (opened.reopenedAt k).utcDate = (opened.reopenedAt (day + 1)).utcDate :=
        congrArg ArtifactName.utcDate hname
      simp only [GapEvent.reopenedAt_utcDate] at hdate
      omega
    · have hstate : GapState.closed = .opened := congrArg ArtifactName.state hname
      cases hstate
  · rintro result files' (⟨rfl, hleaves'⟩ | ⟨herror, rfl⟩)
    · refine .inl ⟨rfl, ended, fun k hk => ?_, ?_⟩
      · obtain ⟨hfrom, hto, hlt⟩ := hended k hk
        exact ⟨hfrom, hto.trans (Nat.le_succ day), hlt⟩
      · have hstate : opened.onDay (day + 1) = opened.reopenedAt (day + 1) := if_neg (by omega)
        rw [hstate]
        refine Leaves.writeState (hleaves'.congr fun event => ?_) rfl
        simp only [RolledEvents]
        constructor
        · rintro ((h | ⟨k, hfrom, hto, h⟩ | h) | h)
          · exact .inl h
          · exact .inr (.inl ⟨k, hfrom, hto.trans (Nat.le_succ day), h⟩)
          · exact .inr (.inr h)
          · exact .inr (.inl ⟨day + 1, by omega, le_rfl, h⟩)
        · rintro (h | ⟨k, hfrom, hto, h⟩ | h)
          · exact .inl (.inl h)
          · rcases Nat.lt_or_eq_of_le hto with hlt | rfl
            · exact .inl (.inr (.inl ⟨k, hfrom, Nat.le_of_lt_succ hlt, h⟩))
            · exact .inr h
          · exact .inl (.inr (.inr h))
    · exact .inr ⟨herror, ended, hended, hleaves⟩

/-- The loop rolls the gap over its days, or raises on the way. -/
theorem rolledTo_rollDays (count : Nat) (hday : opened.openedDate ≤ day)
    (hcount : 0 < count → ((day + count : Nat) : Int) ≤ last)
    (hle : day = opened.openedDate ∨ (day : Int) ≤ last) (h : RolledTo opened last day files) :
    (rollDays (opened.onDay day) day count).Safe JournalOp.run (fun _ => True)
      (fun result files' => (result = .ok () ∧ RolledTo opened last (day + count) files') ∨
        (∃ e, result = .error e) ∧ HeldOpen opened last files') files := by
  induction count generalizing day files with
  | zero => exact ⟨trivial, .inl ⟨rfl, h⟩⟩
  | succ count ih =>
    have hlast := hcount (Nat.succ_pos count)
    rw [rollDays, GapEvent.onDay_reopenedAt]
    refine (rolledTo_closeDay hopened hday (by omega) h).bind (fun _ files hclosed => ?_)
      fun e _ hclosed => .inr ⟨⟨e, rfl⟩, day, hday, hle, hclosed⟩
    refine (leaves_reopen hopened hday hclosed).bind (fun _ files' hreopened => ?_)
      fun e files' hreopened => ?_
    · obtain ⟨-, hrolled⟩ | ⟨⟨e, habsurd⟩, -⟩ := hreopened
      · have hstate : opened.onDay (day + 1) = opened.reopenedAt (day + 1) := if_neg (by omega)
        have hnext := ih (Nat.le_succ_of_le hday) (fun _ => by omega) (.inr (by omega)) hrolled
        have hadd : day + 1 + count = day + (count + 1) := by omega
        rw [hstate, hadd] at hnext
        exact Safe.of_ok rfl trivial hnext
      · cases habsurd
    · obtain ⟨habsurd, -⟩ | ⟨-, hrolled⟩ := hreopened
      · cases habsurd
      · exact .inr ⟨⟨e, rfl⟩, day, hday, hle, hrolled⟩

/-- `_roll_state_to` rolls the open gap up to the target. -/
theorem rolledTo_rollStateTo {targetDate : Int} (htarget : targetDate ≤ last)
    (hday : opened.openedDate ≤ day) (hle : day = opened.openedDate ∨ (day : Int) ≤ last)
    (h : RolledTo opened last day files) :
    (rollStateTo opened.gapId targetDate).Safe JournalOp.run (fun _ => True)
      (fun result files' =>
        (result = .ok () ∧ RolledTo opened last (day + (targetDate - day).toNat) files') ∨
        (∃ e, result = .error e) ∧ HeldOpen opened last files') files := by
  have hstate : files.openGaps.read opened.gapId = some (opened.onDay day) := by
    obtain ⟨ended, -, hleaves⟩ := h
    exact hleaves.state
  refine ⟨trivial, fun e herror => ?_, fun state files' hread => ?_⟩
  · obtain ⟨gapId, heq, hnone⟩ := JournalOp.run_error herror
    cases heq
    rw [hstate] at hnone
    cases hnone
  · obtain ⟨rfl, hread⟩ := JournalOp.run_readState hread
    have hval : state.val = opened.onDay day := Option.some.inj (hread.symm.trans hstate)
    have hroll := rolledTo_rollDays hopened (targetDate - day).toNat hday
      (fun _ => by omega) hle h
    show (rollDays state.val state.val.openedDate
      (targetDate - state.val.openedDate).toNat).Safe JournalOp.run _ _ files'
    rw [hval, GapEvent.onDay_openedDate]
    exact hroll

end Rolls

theorem each_closeGap (event : GapEvent) :
    (closeGap event).Each (JournalOp.ForGap event.gapId) := by
  have hforGap : ∀ op : JournalOp, op.OfGap event.gapId → op.ForGap event.gapId :=
    fun _ => JournalOp.OfGap.forGap
  have hroll : (rollIfOpen event.gapId (utcDateOf event.observedAtRealtimeNs)).Each
      (JournalOp.ForGap event.gapId) := by
    rw [rollIfOpen_eq]
    refine ⟨rfl, fun isOpen _ => ?_⟩
    cases isOpen with
    | true => exact (each_rollStateTo _ _).mono hforGap id
    | false => trivial
  refine hroll.bind fun _ => ((each_publish event).mono hforGap id).bind fun _ => ?_
  exact ⟨rfl, fun _ _ => trivial⟩

/-- What survives operations on other gaps, seals and rolls of this gap survives every step that
does not open or close it. -/
theorem keeps_unnamed {I : GapFiles → Prop} {gapId : String}
    (hother : ∀ op other answer files files', op.ForGap other → other ≠ gapId → I files →
      JournalOp.run op files = .ok (answer, files') → I files')
    (hseal : ∀ utcDate files, I files → I (files.sealDay utcDate))
    {step : LedgerStep} (hroll : ∀ boundary, step = .call (.rollover boundary) →
      (rollStateTo gapId boundary).Keeps JournalOp.run (fun _ => True) I)
    (hstep : ¬ step.Names gapId) {files : GapFiles} (h : I files) :
    I (step.run files) := by
  have heach : ∀ {other : String} {task : Journal Unit}, other ≠ gapId →
      task.Each (JournalOp.ForGap other) → task.Keeps JournalOp.run (fun _ => True) I :=
    fun hne htask => Each.keeps (fun _ _ => trivial) htask fun op files answer files' hop h hrun =>
      hother op _ answer files files' hop hne h hrun
  cases step with
  | sealDay utcDate => exact hseal utcDate files h
  | call journalCall =>
    cases journalCall with
    | openGap event state =>
      have hne : event.gapId ≠ gapId := fun hid => hstep ⟨_, rfl, .inl ⟨event, state, rfl, hid⟩⟩
      exact (heach hne ((each_openGap event).mono (fun _ => JournalOp.OfGap.forGap) id) files h).exec
    | closeGap event state =>
      have hne : event.gapId ≠ gapId := fun hid => hstep ⟨_, rfl, .inr ⟨event, state, rfl, hid⟩⟩
      exact (heach hne (each_closeGap event) files h).exec
    | rollover boundary =>
      have hforM : ∀ gapIds : List String,
          (gapIds.forM fun id => rollStateTo id boundary).Keeps JournalOp.run (fun _ => True) I :=
        fun gapIds => Keeps.forM (fun _ _ => trivial) fun id => by
          by_cases hid : id = gapId
          · rw [hid]
            exact hroll boundary rfl
          · exact heach hid
              ((each_rollStateTo id boundary).mono (fun _ => JournalOp.OfGap.forGap) fun h => h)
      have hrun : (rollover boundary).Safe JournalOp.run (fun _ => True) (fun _ => I) files :=
        Safe.of_ok rfl trivial (hforM _ files h)
      exact hrun.exec

theorem heldOpen_step {opened : GapEvent} (hopened : opened.state = .opened) {last : Int}
    {step : LedgerStep} (hclock : ∀ boundary, step = .call (.rollover boundary) → boundary ≤ last)
    (hstep : ¬ step.Names opened.gapId) {files : GapFiles} (h : HeldOpen opened last files) :
    HeldOpen opened last (step.run files) := by
  refine keeps_unnamed ?_ ?_ ?_ hstep h
  · rintro op other answer files files' hop hne ⟨day, hday, hle, ended, hended, hleaves⟩ hrun
    exact ⟨day, hday, hle, ended, hended, hleaves.of_other hop hne hrun⟩
  · rintro utcDate files ⟨day, hday, hle, ended, hended, hleaves⟩
    exact ⟨day, hday, hle, ended, hended, hleaves.sealDay utcDate⟩
  · intro boundary heq files h
    obtain ⟨day, hday, hle, hrolled⟩ := h
    have hboundary := hclock boundary heq
    refine (rolledTo_rollStateTo hopened hboundary hday hle hrolled).mono (fun _ _ => trivial) ?_
    rintro result files' (⟨-, hrolled'⟩ | ⟨-, hheld⟩)
    · exact ⟨_, by omega, by omega, hrolled'⟩
    · exact hheld

/-- Nothing happens to a gap without a state file. -/
theorem leaves_step {gapId : String} {events : GapEvent → Prop} {step : LedgerStep}
    (hstep : ¬ step.Names gapId) {files : GapFiles} (h : Leaves gapId none events files) :
    Leaves gapId none events (step.run files) := by
  refine keeps_unnamed ?_ ?_ ?_ hstep h
  · intro op other answer files files' hop hne h hrun
    exact h.of_other hop hne hrun
  · intro utcDate files h
    exact h.sealDay utcDate
  · intro boundary _ files h
    refine ⟨trivial, fun _ _ => h, fun state files' hread => ?_⟩
    obtain ⟨-, hread⟩ := JournalOp.run_readState hread
    rw [h.state] at hread
    cases hread

/-! ### The gap's own calls -/

/-- The events of the gap when it is closed. -/
def ClosedEvents (opened closed : GapEvent) (day : Nat) (ended : Nat → Prop) (event : GapEvent) :
    Prop :=
  RolledEvents opened day ended event ∨ event = closed

theorem safe_openGap {opened : GapEvent} (last : Int)
    {files : GapFiles} (h : Leaves opened.gapId none (fun _ => False) files) :
    (openGap opened).Safe JournalOp.run (fun _ => True) (fun result files' =>
      result = .ok () → HeldOpen opened last files') files := by
  refine (leaves_publish opened h (by simp)).bind (fun _ files' hpublished => ?_) ?_
  · obtain ⟨-, hleaves⟩ | ⟨⟨e, habsurd⟩, -⟩ := hpublished
    · refine Safe.of_ok rfl trivial ⟨trivial, fun _ => ?_⟩
      refine ⟨opened.openedDate, le_rfl, .inl rfl, fun _ => False, by simp, ?_⟩
      rw [GapEvent.onDay, if_pos rfl]
      refine Leaves.writeState (hleaves.congr fun event => ?_) rfl
      simp only [RolledEvents]
      constructor
      · rintro (habsurd | h)
        · exact habsurd.elim
        · exact .inl h
      · rintro (h | ⟨k, hfrom, hto, -⟩ | ⟨k, habsurd, -⟩)
        · exact .inr h
        · omega
        · exact habsurd.elim
    · cases habsurd
  · intro e files' _ habsurd
    cases habsurd

theorem safe_closeGap {opened closed : GapEvent} (hopened : opened.state = .opened)
    (hclosed : closed.state = .closed) (hid : closed.gapId = opened.gapId)
    {files : GapFiles} (h : HeldOpen opened (utcDateOf closed.observedAtRealtimeNs) files) :
    (closeGap closed).Safe JournalOp.run (fun _ => True) (fun result files' =>
      result = .ok () → ∃ ended : Nat → Prop,
        (∀ k, ended k → opened.openedDate ≤ k ∧ (k : Int) < utcDateOf closed.observedAtRealtimeNs) ∧
        Leaves opened.gapId none (ClosedEvents opened closed
          (max opened.openedDate (utcDateOf closed.observedAtRealtimeNs).toNat) ended) files')
      files := by
  obtain ⟨day, hday, hle, hrolled⟩ := h
  have hstate : files.openGaps.read opened.gapId = some (opened.onDay day) := by
    obtain ⟨ended, -, hleaves⟩ := hrolled
    exact hleaves.state
  have hroll : (rollIfOpen closed.gapId (utcDateOf closed.observedAtRealtimeNs)).Safe
      JournalOp.run (fun _ => True) (fun result files' => result = .ok () →
        RolledTo opened (utcDateOf closed.observedAtRealtimeNs)
          (max opened.openedDate (utcDateOf closed.observedAtRealtimeNs).toNat) files') files := by
    have hexists : (files.openGaps.read opened.gapId).isSome = true := by rw [hstate]; rfl
    rw [rollIfOpen_eq, hid]
    refine Safe.of_ok rfl trivial ?_
    rw [hexists]
    refine (rolledTo_rollStateTo hopened le_rfl hday hle hrolled).mono (fun _ _ => trivial) ?_
    rintro result files' (⟨-, hrolled'⟩ | ⟨⟨e, rfl⟩, -⟩) hok
    · have hlast : day + (utcDateOf closed.observedAtRealtimeNs - day).toNat =
          max opened.openedDate (utcDateOf closed.observedAtRealtimeNs).toNat := by
        omega
      rwa [hlast] at hrolled'
    · cases hok
  refine hroll.bind (fun _ files' hrolled' => ?_) fun _ _ _ habsurd => by cases habsurd
  obtain ⟨ended, hended, hleaves⟩ := hrolled' rfl
  rw [← hid] at hleaves ⊢
  refine (leaves_publish closed hleaves ?_).bind (fun _ files'' hpublished => ?_)
    fun _ _ _ habsurd => by cases habsurd
  · rintro other (rfl | ⟨k, -, -, rfl⟩ | ⟨k, hk, rfl⟩) hname
    · have hstates : other.state = closed.state := congrArg ArtifactName.state hname
      rw [hopened, hclosed] at hstates
      cases hstates
    · have hstates : GapState.opened = closed.state := congrArg ArtifactName.state hname
      rw [hclosed] at hstates
      cases hstates
    · -- A day that was ended lies before the day of the close.
      have hdates : (opened.closedAtEndOf k).utcDate = closed.utcDate :=
        congrArg ArtifactName.utcDate hname
      obtain ⟨-, -, hlt⟩ := hended k hk
      rw [GapEvent.closedAtEndOf_utcDate, GapEvent.utcDate,
        GapEvent.effectiveNs_of_closed hclosed] at hdates
      omega
  · obtain ⟨-, hleaves'⟩ | ⟨⟨e, habsurd⟩, -⟩ := hpublished
    · refine Safe.of_ok rfl trivial ⟨trivial, fun _ => ⟨ended, fun k hk => ?_, ?_⟩⟩
      · exact ⟨(hended k hk).1, (hended k hk).2.2⟩
      · exact hleaves'.removeState
    · cases habsurd

end Journal

/-! ## The whole history -/

open Journal

/-- A gap that is opened and closed, with the steps between the two calls and after them. The
files may hold anything of other gaps. -/
structure GapHistory where
  files : GapFiles
  opened : GapEvent
  between : List LedgerStep
  closed : GapEvent
  after : List LedgerStep
  opened_state : opened.state = .opened
  closed_state : closed.state = .closed
  closed_gapId : closed.gapId = opened.gapId
  /-- The id is a new one. -/
  unknown : Leaves opened.gapId none (fun _ => False) files
  unnamed : ∀ step ∈ between ++ after, ¬ step.Names opened.gapId
  /-- `rollover` runs when its midnight has come, and the clock does not go back. -/
  clock : ∀ boundary, .call (.rollover boundary) ∈ between →
    dayStartNs boundary ≤ closed.observedAtRealtimeNs
  openReturns : ((openGap opened).exec JournalOp.run files).1 = .ok ()
  closeReturns : ((closeGap closed).exec JournalOp.run
    (LedgerStep.runAll between ((openGap opened).exec JournalOp.run files).2)).1 = .ok ()

namespace GapHistory

variable (history : GapHistory)

/-- The gap's effective time. -/
def fromNs : Int := history.opened.effectiveNs

def toNs : Int := history.closed.observedAtRealtimeNs

def final : GapFiles :=
  LedgerStep.runAll history.after ((closeGap history.closed).exec JournalOp.run
    (LedgerStep.runAll history.between
      ((openGap history.opened).exec JournalOp.run history.files).2)).2

theorem leaves_final : ∃ ended : Nat → Prop,
    (∀ k, ended k → history.opened.openedDate ≤ k ∧ (k : Int) < utcDateOf history.toNs) ∧
    Leaves history.opened.gapId none (ClosedEvents history.opened history.closed
      (max history.opened.openedDate (utcDateOf history.toNs).toNat) ended) history.final := by
  have hopen := (safe_openGap (utcDateOf history.toNs) history.unknown).exec history.openReturns
  have hbetween : HeldOpen history.opened (utcDateOf history.toNs)
      (LedgerStep.runAll history.between
        ((openGap history.opened).exec JournalOp.run history.files).2) := by
    refine LedgerStep.runAll_keeps (fun step hm files h => ?_) hopen
    refine heldOpen_step history.opened_state ?_
      (history.unnamed step (List.mem_append_left _ hm)) h
    rintro boundary rfl
    have hclock := history.clock boundary hm
    simp only [dayStartNs, utcDateOf, toNs, nsPerDay] at hclock ⊢
    omega
  obtain ⟨ended, hended, hclosed⟩ := (safe_closeGap history.opened_state history.closed_state
    history.closed_gapId hbetween).exec history.closeReturns
  refine ⟨ended, hended, LedgerStep.runAll_keeps (fun step hm files h => ?_) hclosed⟩
  exact leaves_step (history.unnamed step (List.mem_append_right _ hm)) h

end GapHistory

end MiryFormal
