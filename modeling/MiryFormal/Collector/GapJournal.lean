import MiryFormal.Contracts.GapEvents
import MiryFormal.Shared.KeyedDict
import MiryFormal.Shared.Programs

/-!
# The gap journal

`GapJournal.open`, `close` and `rollover` as programs over the files they touch, one
operation for each of `exists`, read, atomic write, append and unlink. `record_generated`
holds a lock over its check and its writes, which only takes interleavings away; input or
output errors, and the retry that frees the reserve, are left out.
-/

namespace MiryFormal

set_option autoImplicit false

/-! ## Files named after their events -/

/-- A directory of event files. The name of a file is a function of the event in it. -/
structure EventFiles {κ : Type} [DecidableEq κ] (name : GapEvent → κ) where
  entries : List (κ × GapEvent)
  named : ∀ entry ∈ entries, name entry.2 = entry.1
  distinct : KeyedDict.Distinct id entries

namespace EventFiles
variable {κ : Type} [DecidableEq κ] {name : GapEvent → κ}

def empty : EventFiles name where
  entries := []
  named := by simp
  distinct := List.nodup_nil

def read (files : EventFiles name) (key : κ) : Option GapEvent :=
  KeyedDict.get id key files.entries

def write (files : EventFiles name) (event : GapEvent) : EventFiles name where
  entries := KeyedDict.set id (name event) event files.entries
  named := fun entry hm => by
    rcases KeyedDict.mem_set hm with hm | ⟨hkey, rfl⟩
    · exact files.named entry hm
    · exact hkey.symm
  distinct := KeyedDict.distinct_set files.distinct _ _

/-- `unlink(missing_ok=True)` -/
def remove (files : EventFiles name) (key : κ) : EventFiles name where
  entries := KeyedDict.pop id key files.entries
  named := fun entry hm => files.named entry ((KeyedDict.pop_sublist key _).subset hm)
  distinct := KeyedDict.distinct_pop files.distinct key

variable {files : EventFiles name} {key : κ} {event : GapEvent}

@[simp] theorem read_write (files : EventFiles name) (event : GapEvent) (key : κ) :
    (files.write event).read key = if name event = key then some event else files.read key :=
  KeyedDict.get_set _ _ _ _

@[simp] theorem read_remove (files : EventFiles name) (removed key : κ) :
    (files.remove removed).read key = if removed = key then none else files.read key :=
  KeyedDict.get_pop _ _ _

theorem name_of_read (h : files.read key = some event) : name event = key := by
  obtain ⟨key', hm, rfl⟩ := KeyedDict.mem_of_get h
  exact files.named (key', event) hm

theorem mem_names : key ∈ files.entries.map Prod.fst ↔ files.read key ≠ none := by
  constructor
  · intro hm
    obtain ⟨entry, hentry, rfl⟩ := List.mem_map.mp hm
    have hget : files.read entry.1 = some entry.2 := KeyedDict.get_of_mem files.distinct hentry
    simp [hget]
  · intro h
    obtain ⟨event, hread⟩ := Option.ne_none_iff_exists'.mp h
    obtain ⟨key', hm, rfl⟩ := KeyedDict.mem_of_get hread
    exact List.mem_map_of_mem hm

end EventFiles

/-! ## What the journal publishes -/

/-- `date={date}/writer=control/{gap_id}-{observed}-{state}`, the path of an artifact. -/
structure ArtifactName where
  utcDate : Int
  gapId : String
  observedAtRealtimeNs : Int
  state : GapState
  deriving DecidableEq, Repr

namespace GapEvent

/-- `_event_date` -/
def utcDate (event : GapEvent) : Int := utcDateOf event.effectiveNs

def artifactName (event : GapEvent) : ArtifactName :=
  ⟨event.utcDate, event.gapId, event.observedAtRealtimeNs, event.state⟩

/-- The `opened_ns` of `_roll_state_to`: an `affected_from` of zero is no value. -/
def openedNs (event : GapEvent) : Int :=
  match event.affectedFromRealtimeNs with
  | some ns => if ns = 0 then event.observedAtRealtimeNs else ns
  | none => event.observedAtRealtimeNs

theorem openedNs_nonneg (event : GapEvent) : 0 ≤ event.openedNs := by
  unfold openedNs
  split
  · split
    · exact event.observed_nonneg
    · exact (event.affected_le _ (by assumption)).1
  · exact event.observed_nonneg

/-- The day on which a state file leaves its gap open. -/
def openedDate (event : GapEvent) : Nat := (utcDateOf event.openedNs).toNat

theorem openedDate_eq (event : GapEvent) : (event.openedDate : Int) = utcDateOf event.openedNs := by
  have := event.openedNs_nonneg
  simp only [openedDate, utcDateOf, nsPerDay]
  omega

/-- The CLOSED event that ends a day inside the gap. -/
def closedAtEndOf (opened : GapEvent) (day : Nat) : GapEvent :=
  { opened with
    state := .closed
    observedAtRealtimeNs := dayEndNs day - 1
    affectedFromRealtimeNs := none
    detail := continuesDetail
    observed_nonneg := dayEndNs_sub_one_nonneg day
    affected_le := by simp
    closed_unaffected := unaffected .closed }

/-- The OPEN event that continues the gap on a later day. -/
def reopenedAt (opened : GapEvent) (day : Nat) : GapEvent :=
  { opened with
    state := .opened
    observedAtRealtimeNs := dayStartNs day
    affectedFromRealtimeNs := some (dayStartNs day)
    detail := "gap continued from a previous UTC day"
    observed_nonneg := dayStartNs_nonneg day
    affected_le := affected_le_self (dayStartNs_nonneg day)
    closed_unaffected := opened_affected _ }

variable (opened : GapEvent) (day : Nat)

@[simp] theorem closedAtEndOf_gapId : (opened.closedAtEndOf day).gapId = opened.gapId := rfl

@[simp] theorem reopenedAt_gapId : (opened.reopenedAt day).gapId = opened.gapId := rfl

theorem closedAtEndOf_utcDate : (opened.closedAtEndOf day).utcDate = day := by
  have heffective : (opened.closedAtEndOf day).effectiveNs = dayEndNs day - 1 :=
    effectiveNs_of_closed rfl
  have := dayStartNs_lt_dayEndNs day
  rw [utcDate, heffective, utcDateOf_eq_iff]
  omega

theorem reopenedAt_utcDate : (opened.reopenedAt day).utcDate = day := by
  have heffective : (opened.reopenedAt day).effectiveNs = dayStartNs day := rfl
  rw [utcDate, heffective, utcDateOf_eq_iff]
  exact ⟨le_rfl, dayStartNs_lt_dayEndNs day⟩

theorem reopenedAt_openedDate : (opened.reopenedAt day).openedDate = day := by
  simp only [openedDate, openedNs, reopenedAt, ite_self, utcDateOf, dayStartNs, nsPerDay]
  omega

end GapEvent

/-! ## The operations -/

structure GapFiles where
  /-- `control/open-gaps` -/
  openGaps : EventFiles GapEvent.gapId := .empty
  /-- `ready/date=*/writer=control` -/
  artifacts : EventFiles GapEvent.artifactName := .empty
  /-- The manifests beside the artifacts, in the order of their writes. -/
  manifests : List ArtifactName := []
  /-- The lines of `control/day-index`. -/
  dayIndex : List ArtifactName := []
  sealedDays : List Int := []

inductive JournalOp where
  | listOpenGaps
  | stateExists (gapId : String)
  | readState (gapId : String)
  | daySealed (utcDate : Int)
  | writeArtifact (event : GapEvent)
  | writeManifest (name : ArtifactName)
  | appendIndex (name : ArtifactName)
  | writeState (event : GapEvent)
  | removeState (gapId : String)

namespace JournalOp

abbrev Answer : JournalOp → Type
  | listOpenGaps => List String
  | stateExists _ => Bool
  | readState gapId => { event : GapEvent // event.gapId = gapId }
  | daySealed _ => Bool
  | writeArtifact _ | writeManifest _ | appendIndex _ | writeState _ | removeState _ => Unit

/-- `sorted(open_root.glob("*.json"))` -/
def sortedNames (gapIds : List String) : List String :=
  gapIds.insertionSort fun a b => a ++ ".json" ≤ b ++ ".json"

def run : (op : JournalOp) → GapFiles → Except String (op.Answer × GapFiles)
  | listOpenGaps, files => .ok (sortedNames (files.openGaps.entries.map Prod.fst), files)
  | stateExists gapId, files => .ok ((files.openGaps.read gapId).isSome, files)
  | readState gapId, files =>
      match h : files.openGaps.read gapId with
      | some event => .ok (⟨event, EventFiles.name_of_read h⟩, files)
      | none => .error "FileNotFoundError"
  | daySealed utcDate, files => .ok (decide (utcDate ∈ files.sealedDays), files)
  | writeArtifact event, files =>
      .ok ((), { files with artifacts := files.artifacts.write event })
  | writeManifest name, files => .ok ((), { files with manifests := files.manifests ++ [name] })
  | appendIndex name, files => .ok ((), { files with dayIndex := files.dayIndex ++ [name] })
  | writeState event, files => .ok ((), { files with openGaps := files.openGaps.write event })
  | removeState gapId, files => .ok ((), { files with openGaps := files.openGaps.remove gapId })

/-- The state file of a gap after the operation. -/
def readAfter (op : JournalOp) (files : GapFiles) (gapId : String) : Option GapEvent :=
  match op with
  | writeState event => if event.gapId = gapId then some event else files.openGaps.read gapId
  | removeState removed => if removed = gapId then none else files.openGaps.read gapId
  | _ => files.openGaps.read gapId

/-- What an operation can change. -/
theorem run_ok {op : JournalOp} {files files' : GapFiles} {answer : op.Answer}
    (h : op.run files = .ok (answer, files')) :
    files'.sealedDays = files.sealedDays ∧
      (∀ gapId, files'.openGaps.read gapId = op.readAfter files gapId) ∧
      (files'.manifests = files.manifests ∨
        ∃ name, op = writeManifest name ∧ files'.manifests = files.manifests ++ [name]) := by
  cases op with
  | readState id =>
    simp only [run] at h
    split at h
    · cases h
      exact ⟨rfl, fun _ => rfl, .inl rfl⟩
    · cases h
  | writeState event =>
    cases h
    exact ⟨rfl, EventFiles.read_write _ _, .inl rfl⟩
  | removeState removed =>
    cases h
    exact ⟨rfl, EventFiles.read_remove _ _, .inl rfl⟩
  | writeManifest name =>
    cases h
    exact ⟨rfl, fun _ => rfl, .inr ⟨name, rfl, rfl⟩⟩
  | _ =>
    cases h
    exact ⟨rfl, fun _ => rfl, .inl rfl⟩

/-- The only operation that raises is the read of a missing state file. -/
theorem run_error {op : JournalOp} {files : GapFiles} {e : String} (h : op.run files = .error e) :
    ∃ gapId, op = readState gapId ∧ files.openGaps.read gapId = none := by
  cases op with
  | readState gapId =>
    simp only [run] at h
    split at h
    · cases h
    · rename_i hnone
      exact ⟨gapId, rfl, hnone⟩
  | _ => cases h

theorem run_readState {gapId : String} {files files' : GapFiles}
    {opened : { event : GapEvent // event.gapId = gapId }}
    (h : (readState gapId).run files = .ok (opened, files')) :
    files' = files ∧ files.openGaps.read gapId = some opened.val := by
  simp only [run] at h
  split at h
  · rename_i hread
    cases h
    exact ⟨rfl, hread⟩
  · cases h

/-- What publishing and rolling a gap consists of: no look at the directory, no removal. -/
def OfGap (gapId : String) : JournalOp → Prop
  | listOpenGaps | stateExists _ | removeState _ => False
  | daySealed _ => True
  | readState id => id = gapId
  | writeArtifact event | writeState event => event.gapId = gapId
  | writeManifest name | appendIndex name => name.gapId = gapId

theorem mem_sortedNames {gapIds : List String} {gapId : String} :
    gapId ∈ sortedNames gapIds ↔ gapId ∈ gapIds :=
  (List.perm_insertionSort _ gapIds).mem_iff

end JournalOp

/-! ## The calls -/

abbrev Journal := Program JournalOp JournalOp.Answer String

namespace Journal
open Program JournalOp

/-- `record_generated` of `_write`: the artifact, its manifest, and the line in the day index. -/
def publish (event : GapEvent) : Journal Unit := do
  let isSealed ← perform (daySealed event.utcDate)
  if isSealed then
    raise "cannot publish into sealed UTC day"
  else
    let _ ← perform (writeArtifact event)
    let _ ← perform (writeManifest event.artifactName)
    perform (appendIndex event.artifactName)

def closeDay (opened : GapEvent) (day : Nat) : Journal Unit := do
  let isSealed ← perform (daySealed day)
  if isSealed then pure () else publish (opened.closedAtEndOf day)

theorem closeDay_eq (opened : GapEvent) (day : Nat) :
    closeDay opened day = call (daySealed day) fun isSealed : Bool =>
      if isSealed then ret () else publish (opened.closedAtEndOf day) := rfl

/-- The loop of `_roll_state_to`, from `day` over the `count` days after it. -/
def rollDays (opened : GapEvent) (day : Nat) : Nat → Journal Unit
  | 0 => pure ()
  | count + 1 => do
      closeDay opened day
      publish (opened.reopenedAt (day + 1))
      let _ ← perform (writeState (opened.reopenedAt (day + 1)))
      rollDays (opened.reopenedAt (day + 1)) (day + 1) count

/-- `_roll_state_to` -/
def rollStateTo (gapId : String) (targetDate : Int) : Journal Unit := do
  let opened ← perform (readState gapId)
  rollDays opened.val opened.val.openedDate (targetDate - opened.val.openedDate).toNat

/-- `close` up to its own CLOSED event: roll the gap to the day it is closed on. -/
def rollIfOpen (gapId : String) (targetDate : Int) : Journal Unit := do
  let isOpen ← perform (stateExists gapId)
  if isOpen then rollStateTo gapId targetDate else pure ()

theorem rollIfOpen_eq (gapId : String) (targetDate : Int) :
    rollIfOpen gapId targetDate = call (stateExists gapId) fun isOpen : Bool =>
      if isOpen then rollStateTo gapId targetDate else ret () := rfl

def openGap (event : GapEvent) : Journal Unit := do
  publish event
  perform (writeState event)

def closeGap (event : GapEvent) : Journal Unit := do
  rollIfOpen event.gapId (utcDateOf event.observedAtRealtimeNs)
  publish event
  perform (removeState event.gapId)

def rollover (boundary : Int) : Journal Unit := do
  let gapIds ← perform listOpenGaps
  gapIds.forM fun gapId => rollStateTo gapId boundary

variable {files : GapFiles}

/-- The cuts of a publication: before it, with the artifact, with the manifest, and with the
line in the day index. -/
theorem safe_publish {P : GapFiles → Prop} {Q : Except String Unit → GapFiles → Prop}
    {event : GapEvent} (hs : P files)
    (hsealed : event.utcDate ∈ files.sealedDays →
      Q (.error "cannot publish into sealed UTC day") files)
    (hartifact : P { files with artifacts := files.artifacts.write event })
    (hmanifest : P { files with
      artifacts := files.artifacts.write event
      manifests := files.manifests ++ [event.artifactName] })
    (hindex : P { files with
      artifacts := files.artifacts.write event
      manifests := files.manifests ++ [event.artifactName]
      dayIndex := files.dayIndex ++ [event.artifactName] })
    (hdone : Q (.ok ()) { files with
      artifacts := files.artifacts.write event
      manifests := files.manifests ++ [event.artifactName]
      dayIndex := files.dayIndex ++ [event.artifactName] }) :
    (publish event).Safe JournalOp.run P Q files := by
  refine Safe.of_ok rfl hs ?_
  by_cases h : event.utcDate ∈ files.sealedDays
  · rw [decide_eq_true h]
    exact ⟨hs, hsealed h⟩
  · rw [decide_eq_false h]
    exact Safe.of_ok rfl hs (Safe.of_ok rfl hartifact (Safe.of_ok rfl hmanifest ⟨hindex, hdone⟩))

/-! Publishing and rolling touch the files of one gap. -/

theorem each_publish (event : GapEvent) : (publish event).Each (OfGap event.gapId) := by
  refine ⟨trivial, fun isSealed _ => ?_⟩
  cases isSealed with
  | true => trivial
  | false => exact ⟨rfl, fun _ _ => ⟨rfl, fun _ _ => ⟨rfl, fun _ _ => trivial⟩⟩⟩

theorem each_rollDays (opened : GapEvent) (day count : Nat) :
    (rollDays opened day count).Each (OfGap opened.gapId) := by
  induction count generalizing opened day with
  | zero => trivial
  | succ count ih =>
    have hclose : (closeDay opened day).Each (OfGap opened.gapId) := by
      refine ⟨trivial, fun isSealed _ => ?_⟩
      cases isSealed with
      | true => trivial
      | false => exact each_publish (opened.closedAtEndOf day)
    refine hclose.bind fun _ => (each_publish (opened.reopenedAt (day + 1))).bind fun _ => ?_
    exact ⟨rfl, fun _ _ => ih (opened.reopenedAt (day + 1)) (day + 1)⟩

theorem each_rollStateTo (gapId : String) (targetDate : Int) :
    (rollStateTo gapId targetDate).Each (OfGap gapId) := by
  refine ⟨rfl, fun opened _ => ?_⟩
  have hroll := each_rollDays opened.val opened.val.openedDate
    (targetDate - opened.val.openedDate).toNat
  rwa [opened.property] at hroll

theorem each_openGap (event : GapEvent) : (openGap event).Each (OfGap event.gapId) :=
  (each_publish event).bind fun _ => ⟨rfl, fun _ _ => trivial⟩

end Journal

/-- A call of the journal. An open or close carries the event that its arguments make. -/
inductive JournalCall where
  | openGap (event : GapEvent) (state : event.state = .opened)
  | closeGap (event : GapEvent) (state : event.state = .closed)
  | rollover (boundary : Int)

def JournalCall.program : JournalCall → Journal Unit
  | openGap event _ => Journal.openGap event
  | closeGap event _ => Journal.closeGap event
  | rollover boundary => Journal.rollover boundary

/-- The call opens the gap. -/
def JournalCall.Opens (call : JournalCall) (gapId : String) : Prop :=
  ∃ event state, call = .openGap event state ∧ event.gapId = gapId

/-- The call closes the gap. -/
def JournalCall.Closes (call : JournalCall) (gapId : String) : Prop :=
  ∃ event state, call = .closeGap event state ∧ event.gapId = gapId

end MiryFormal
