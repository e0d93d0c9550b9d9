import Mathlib.Logic.Function.Basic
import MiryFormal.Transfer.DayInventory

/-!
# Sealed days

The programs of the edge and of the pipeline, with the lock of the day index: `record`,
`record_generated` and `seal` are called one at a time, and what holds the lock when the process
ends is gone with it.
-/

namespace MiryFormal

set_option autoImplicit false

open Program TransferOp TransferFiles

/-- The programs of the edge and of its pipeline, and two histories that none of them reads: what
had been published when the seal of a day was begun, and when the sealed day was written. -/
structure IndexCrew where
  store : TransferFiles := {}
  tasks : List (TransferProgram Unit) := []
  /-- What runs under the lock of the day index. -/
  locked : Option (TransferProgram Unit) := none
  begun : Int → List ChunkManifest := fun _ => []
  written : Int → List ChunkManifest := fun _ => []

/-- A call of the day index. -/
inductive IndexCall where
  /-- `record`, of a manifest that `finish` has returned. -/
  | record (manifest : ChunkManifest)
  | publishGap (write : GapWrite) (retriedAt : Int)
  | sealDay (utcDate sealedAt : Int)

section System
variable (N : Naming) (sha256 : Bytes → String) (encode : GapEvent → Bytes)

namespace IndexCall

def program : IndexCall → TransferProgram Unit
  | record manifest => MiryFormal.record manifest.utcDate manifest.asRef
  | publishGap write retriedAt => MiryFormal.publishGap sha256 encode write retriedAt
  | sealDay utcDate sealedAt => MiryFormal.sealDay N.collectorId utcDate sealedAt

/-- A publication writes what its id names. -/
def May (s : TransferFiles) : IndexCall → Prop
  | record manifest => manifest ∈ s.published
  | publishGap write _ => N.Drafts write.draft (encode write.event)
  | sealDay _ _ => True

/-- A day for which something has been published has a journal when its seal begins. -/
def Journalled (s : TransferFiles) : IndexCall → Prop
  | sealDay utcDate _ => s.IsSealed utcDate ∨ s.edge.dayIndex.read utcDate ≠ none ∨
      ∀ manifest ∈ s.published, manifest.utcDate ≠ utcDate
  | _ => True

end IndexCall

/-- The programs that need no lock. -/
inductive Naming.MayRun : TransferProgram Unit → Prop
  | finish {session : ChunkSession} :
      N.Drafts session.draft session.content → MayRun (do let _ ← session.finish sha256)
  | applyAcks (call : ApplyCall) : MayRun (do let _ ← call.applyAcks)
  | pullReady : MayRun pullReady
  | ingest (call : PullCall) : MayRun (do let _ ← call.run sha256)
  | pushAcks : MayRun pushAcks
  | pull (call : PullCall) : MayRun (runPull sha256 call)

namespace IndexCrew

/-- A seal has the lock. -/
def begunWith (crew : IndexCrew) : IndexCall → Int → List ChunkManifest
  | .sealDay utcDate _ =>
      if crew.store.edge.sealedDays.read utcDate = none then
        Function.update crew.begun utcDate crew.store.published
      else crew.begun
  | _ => crew.begun

/-- A sealed day is written. -/
def writtenWith (crew : IndexCrew) : TransferOp → Int → List ChunkManifest
  | .writeSealed day => Function.update crew.written day.utcDate crew.store.published
  | _ => crew.written

inductive Step (Good : TransferFiles → IndexCall → Prop) : IndexCrew → IndexCrew → Prop
  | launch {crew : IndexCrew} {p : TransferProgram Unit} :
      N.MayRun sha256 p → Step Good crew { crew with tasks := crew.tasks ++ [p] }
  | advance {crew : IndexCrew} {before after : List (TransferProgram Unit)} {op : TransferOp}
      {next : op.Answer → TransferProgram Unit} {r : op.Answer} {store : TransferFiles} :
      crew.tasks = before ++ call op next :: after → Sem sha256 op crew.store r store →
        Step Good crew { crew with store, tasks := before ++ next r :: after }
  | lock {crew : IndexCrew} {call : IndexCall} :
      crew.locked = none → call.May N encode crew.store → Good crew.store call →
        Step Good crew { crew with
          locked := some (call.program N sha256 encode)
          begun := crew.begunWith call }
  | advanceLocked {crew : IndexCrew} {op : TransferOp} {next : op.Answer → TransferProgram Unit}
      {r : op.Answer} {store : TransferFiles} :
      crew.locked = some (call op next) → Sem sha256 op crew.store r store →
        Step Good crew { crew with
          store
          locked := some (next r)
          written := crew.writtenWith op }
  | returned {crew : IndexCrew} :
      crew.locked = some (ret ()) → Step Good crew { crew with locked := none }
  | raised {crew : IndexCrew} {e : Failure} :
      crew.locked = some (raise e) → Step Good crew { crew with locked := none }
  /-- The process of the edge ends, and others may. -/
  | crash {crew : IndexCrew} {tasks : List (TransferProgram Unit)} :
      tasks.Sublist crew.tasks → Step Good crew { crew with tasks, locked := none }

abbrev Reaches (Good : TransferFiles → IndexCall → Prop) :=
  Relation.ReflTransGen (Step N sha256 encode Good)

end IndexCrew

end System

/-- The sealed day lists what had been published for it when its seal was begun, and nothing that
had not been published when it was written, each identity once. -/
structure DayManifest.ListsPublished (day : DayManifest) (utcDate : Int)
    (begun written : List ChunkManifest) : Prop where
  complete : ∀ manifest ∈ begun, manifest.utcDate = utcDate → manifest.asRef ∈ day.chunks
  published : ∀ chunk ∈ day.chunks,
    ∃ manifest ∈ written, manifest.utcDate = utcDate ∧ manifest.asRef = chunk
  once : (day.chunks.map fun chunk => (chunk.chunkId, chunk.sha256)).Nodup

variable {N : Naming} {sha256 : Bytes → String} {encode : GapEvent → Bytes}

theorem Naming.MayRun.fulfils {hsha : N.CollisionFree sha256} {s : TransferFiles}
    {p : TransferProgram Unit} (hmay : N.MayRun sha256 p) (hs : s.Provenance N sha256) :
    Fulfils hsha (fun _ _ => True) p s := by
  cases hmay with
  | @finish session hsession =>
    refine Fulfils.bind (K := fun _ _ => True) ?_ fun _ _ _ hs₁ _ => Fulfils.ret hs₁ trivial
    unfold ChunkSession.finish
    split
    · exact Fulfils.raise hs
    · exact (fulfils_publish hsession session.draft_named).mono fun result s' h =>
        ⟨h.1, fun _ _ => trivial⟩
  | applyAcks call =>
    exact Fulfils.bind (ApplyCall.fulfils_applyAcks call hs) fun _ _ _ hs₁ _ =>
      Fulfils.ret hs₁ trivial
  | pullReady => exact Fulfils.of_each each_pullReady hs
  | ingest call =>
    exact Fulfils.bind (call.fulfils_run hs) fun _ _ _ hs₁ _ => Fulfils.ret hs₁ trivial
  | pushAcks => exact Fulfils.of_each each_pushAcks hs
  | pull call => exact fulfils_runPull call hs

theorem Naming.MayRun.unlocked {p : TransferProgram Unit} (hmay : N.MayRun sha256 p) :
    Unlocked p := by
  cases hmay with
  | finish => exact Obeys.bind (unlocked_finish _) fun _ => trivial
  | applyAcks call => exact Obeys.bind call.unlocked_applyAcks fun _ => trivial
  | pullReady => exact unlocked_of_free each_pullReady
  | ingest call => exact Obeys.bind call.unlocked_run fun _ => trivial
  | pushAcks => exact unlocked_of_free each_pushAcks
  | pull call =>
    exact Obeys.bind (unlocked_of_free each_pullReady) fun _ =>
      Obeys.bind call.unlocked_run fun _ => unlocked_of_free each_pushAcks

theorem IndexCall.May.fulfils {hsha : N.CollisionFree sha256} {s : TransferFiles}
    {call : IndexCall} (hmay : call.May N encode s) (hs : s.Provenance N sha256) :
    Fulfils hsha (fun _ _ => True) (call.program N sha256 encode) s := by
  cases call with
  | record manifest => exact fulfils_record hs hmay
  | publishGap write retriedAt => exact fulfils_publishGap hmay retriedAt hs
  | sealDay utcDate sealedAt => exact fulfils_sealDay utcDate sealedAt

theorem IndexCall.Journalled.watch {crew : IndexCrew} {call : IndexCall}
    (h : call.Journalled crew.store) :
    (N.watch sha256 (crew.begunWith call)).Upholds (fun _ _ => True)
      (call.program N sha256 encode) crew.store := by
  cases call with
  | record manifest => exact watch_record _
  | publishGap write retriedAt => exact watch_publishGap encode write retriedAt
  | sealDay utcDate sealedAt =>
    refine watch_sealDay sealedAt fun hopen => ⟨?_, h.resolve_left hopen⟩
    rw [IndexCrew.begunWith, if_pos (not_not.mp hopen), Function.update_self]
    exact fun _ hm => hm

/-- The files come from where they should, the programs keep to their disciplines, and the sealed
days list what they must. -/
structure IndexCrew.Orderly (crew : IndexCrew) (hsha : N.CollisionFree sha256) : Prop where
  provenance : crew.store.Provenance N sha256
  tombstoned : crew.store.Tombstoned
  tasks : ∀ p ∈ crew.tasks,
    (N.discipline hsha).Upholds (fun _ _ => True) p crew.store ∧ Unlocked p
  locked : ∀ p ∈ crew.locked, (N.discipline hsha).Upholds (fun _ _ => True) p crew.store ∧
    (N.watch sha256 crew.begun).Upholds (fun _ _ => True) p crew.store
  listed : ∀ utcDate day, crew.store.edge.sealedDays.read utcDate = some day →
    day.ListsPublished utcDate (crew.begun utcDate) (crew.written utcDate)

namespace IndexCrew.Orderly
variable {hsha : N.CollisionFree sha256} {crew : IndexCrew}

theorem upholds_later {α : Type} {s s' : TransferFiles} {p : TransferProgram α}
    (h : (N.discipline hsha).Upholds (fun _ _ => True) p s) (hlater : Later N s s') :
    (N.discipline hsha).Upholds (fun _ _ => True) p s' :=
  h.of_rely (fun _ _ _ => Later.trans) (fun _ h => h) hlater

theorem launch (h : crew.Orderly hsha) {p : TransferProgram Unit} (hmay : N.MayRun sha256 p) :
    Orderly { crew with tasks := crew.tasks ++ [p] } hsha :=
  { h with
    tasks := fun q hq => by
      rcases List.mem_append.mp hq with hq | hq
      · exact h.tasks q hq
      · rw [List.mem_singleton.mp hq]
        exact ⟨(hmay.fulfils h.provenance).mono fun _ _ _ => trivial, hmay.unlocked⟩ }

/-- What a program without the lock does to the files. -/
theorem undisturbed (h : crew.Orderly hsha) {before after : List (TransferProgram Unit)}
    {op : TransferOp} {next : op.Answer → TransferProgram Unit}
    (htasks : crew.tasks = before ++ call op next :: after) {r : op.Answer}
    {store : TransferFiles} (hsem : Sem sha256 op crew.store r store) :
    Kept N sha256 crew.store store ∧ store.Tombstoned ∧ Undisturbed N crew.store store := by
  obtain ⟨hupholds, hunlocked⟩ := h.tasks (call op next) (by simp [htasks])
  have hop := (hupholds crew.store (.refl _) h.provenance).1
  have hkept := kept_sem hsha h.provenance hop hsem
  exact ⟨hkept, h.tombstoned.step hsha h.provenance hop hsem,
    hkept.2.undisturbed (leaves_sem hunlocked.1 hsem)⟩

theorem advance (h : crew.Orderly hsha) {before after : List (TransferProgram Unit)}
    {op : TransferOp} {next : op.Answer → TransferProgram Unit}
    (htasks : crew.tasks = before ++ call op next :: after) {r : op.Answer}
    {store : TransferFiles} (hsem : Sem sha256 op crew.store r store) :
    Orderly { crew with store, tasks := before ++ next r :: after } hsha := by
  obtain ⟨hkept, htombstoned, hsame⟩ := h.undisturbed htasks hsem
  refine ⟨hkept.1, htombstoned, fun p hp => ?_, fun p hp => ?_, fun utcDate day hday => ?_⟩
  · have hcases : p = next r ∨ p ∈ crew.tasks := by
      rw [htasks]
      simp only [List.mem_append, List.mem_cons] at hp ⊢
      tauto
    rcases hcases with rfl | hp
    · obtain ⟨hupholds, hunlocked⟩ := h.tasks (call op next) (by simp [htasks])
      exact ⟨(hupholds crew.store (.refl _) h.provenance).2 r store hsem, hunlocked.2 r trivial⟩
    · exact ⟨upholds_later (h.tasks p hp).1 hkept.2, (h.tasks p hp).2⟩
  · obtain ⟨hupholds, hwatch⟩ := h.locked p hp
    exact ⟨upholds_later hupholds hkept.2,
      hwatch.of_rely (fun _ _ _ => Undisturbed.trans) (fun _ h => h) hsame⟩
  · rw [hsame.sealedDays] at hday
    exact h.listed utcDate day hday

theorem lock (h : crew.Orderly hsha) {call : IndexCall} (hmay : call.May N encode crew.store)
    (hgood : call.Journalled crew.store) :
    Orderly { crew with
      locked := some (call.program N sha256 encode)
      begun := crew.begunWith call } hsha := by
  refine { h with locked := ?_, listed := fun utcDate day hday => ?_ }
  · rintro p ⟨⟩
    exact ⟨(hmay.fulfils h.provenance).mono fun _ _ _ => trivial, hgood.watch⟩
  · have hbegun : crew.begunWith call utcDate = crew.begun utcDate := by
      cases call with
      | record | publishGap => rfl
      | sealDay date sealedAt =>
        rw [begunWith]
        split
        · rename_i hopen
          refine Function.update_of_ne ?_ _ _
          rintro rfl
          exact absurd (hopen.symm.trans hday) (by simp)
        · rfl
    show day.ListsPublished utcDate (crew.begunWith call utcDate) _
    rw [hbegun]
    exact h.listed utcDate day hday

/-- What the program that holds the lock does to the files. -/
theorem locked_allowed (h : crew.Orderly hsha) {op : TransferOp}
    {next : op.Answer → TransferProgram Unit} (hlocked : crew.locked = some (call op next)) :
    N.Allows sha256 op crew.store ∧ (N.watch sha256 crew.begun).allowed op crew.store := by
  obtain ⟨hupholds, hwatch⟩ := h.locked _ hlocked
  exact ⟨(hupholds crew.store (.refl _) h.provenance).1,
    (hwatch crew.store (.refl _) ⟨h.provenance, h.tombstoned⟩).1⟩

/-- A day is sealed with what it must list. -/
theorem listed_sem (h : crew.Orderly hsha) {op : TransferOp}
    {next : op.Answer → TransferProgram Unit} (hlocked : crew.locked = some (call op next))
    {r : op.Answer} {store : TransferFiles} (hsem : Sem sha256 op crew.store r store)
    {utcDate : Int} {day : DayManifest} (hday : store.edge.sealedDays.read utcDate = some day) :
    day.ListsPublished utcDate (crew.begun utcDate) (crew.writtenWith op utcDate) := by
  obtain ⟨hop, hallowed⟩ := h.locked_allowed hlocked
  by_cases hseals : op.Seals
  · cases op with
    | writeSealed written =>
      obtain ⟨hopen, hcomplete⟩ := hallowed
      have hcases : store.edge.sealedDays = crew.store.edge.sealedDays ∨
          store.edge.sealedDays = crew.store.edge.sealedDays.write written.utcDate written := by
        cases hsem with
        | done | failedLate => exact .inr rfl
        | failed => exact .inl rfl
      by_cases hdate : written.utcDate = utcDate
      · subst hdate
        rcases hcases with heq | heq
        · rw [heq] at hday
          exact absurd (by rw [IsSealed, hday]; simp) hopen
        · rw [heq, Folder.read_write_self] at hday
          cases hday
          refine ⟨hcomplete, fun chunk hm => ?_, day.unique⟩
          obtain ⟨manifest, hpublished, href, hmdate⟩ := hop.2 chunk hm
          refine ⟨manifest, ?_, hmdate, href⟩
          rw [writtenWith, Function.update_self]
          exact hpublished
      · have hold : crew.store.edge.sealedDays.read utcDate = some day := by
          rcases hcases with heq | heq
          · rwa [heq] at hday
          · rwa [heq, Folder.read_write, if_neg hdate] at hday
        rw [writtenWith, Function.update_of_ne (Ne.symm hdate)]
        exact h.listed utcDate day hold
    | _ => exact hseals.elim
  · have hwritten : crew.writtenWith op = crew.written := by
      cases op <;> first | rfl | exact absurd trivial hseals
    rw [sealedDays_sem hseals hsem] at hday
    rw [hwritten]
    exact h.listed utcDate day hday

theorem advanceLocked (h : crew.Orderly hsha) {op : TransferOp}
    {next : op.Answer → TransferProgram Unit} (hlocked : crew.locked = some (call op next))
    {r : op.Answer} {store : TransferFiles} (hsem : Sem sha256 op crew.store r store) :
    Orderly { crew with store, locked := some (next r), written := crew.writtenWith op } hsha := by
  obtain ⟨hupholds, hwatch⟩ := h.locked _ hlocked
  obtain ⟨hop, hnext⟩ := hupholds crew.store (.refl _) h.provenance
  have hkept := kept_sem hsha h.provenance hop hsem
  have htombstoned := h.tombstoned.step hsha h.provenance hop hsem
  refine ⟨hkept.1, htombstoned, fun p hp => ?_, ?_, fun _ _ => h.listed_sem hlocked hsem⟩
  · exact ⟨upholds_later (h.tasks p hp).1 hkept.2, (h.tasks p hp).2⟩
  · rintro p ⟨⟩
    exact ⟨hnext r store hsem, (hwatch crew.store (.refl _) ⟨h.provenance, h.tombstoned⟩).2 r store
      ⟨hsem, hkept.1, htombstoned, hkept.2⟩⟩

theorem unlock (h : crew.Orderly hsha) : Orderly { crew with locked := none } hsha :=
  { h with locked := by rintro p ⟨⟩ }

theorem step (h : crew.Orderly hsha) {crew' : IndexCrew}
    (hstep : Step N sha256 encode IndexCall.Journalled crew crew') : crew'.Orderly hsha := by
  cases hstep with
  | launch hmay => exact h.launch hmay
  | advance htasks hsem => exact h.advance htasks hsem
  | lock _ hmay hgood => exact h.lock hmay hgood
  | advanceLocked hlocked hsem => exact h.advanceLocked hlocked hsem
  | returned _ => exact h.unlock
  | raised _ => exact h.unlock
  | crash hsublist =>
    exact { h.unlock with tasks := fun p hp => h.tasks p (hsublist.subset hp) }

theorem start (hsha : N.CollisionFree sha256) : Orderly {} hsha where
  provenance := provenance_empty
  tombstoned := tombstoned_empty
  tasks := fun _ hp => absurd hp List.not_mem_nil
  locked := by rintro p ⟨⟩
  listed := fun utcDate day hday => by
    have hnone : ({} : TransferFiles).edge.sealedDays.read utcDate = none := Folder.read_empty _
    cases hnone.symm.trans hday

theorem reaches (h : crew.Orderly hsha) {crew' : IndexCrew}
    (hreach : Reaches N sha256 encode IndexCall.Journalled crew crew') : crew'.Orderly hsha := by
  induction hreach with
  | refl => exact h
  | tail _ hstep ih => exact ih.step hstep

end IndexCrew.Orderly


/-! ## Sealed once -/

namespace TransferFiles

/-- A sealed day lists what it listed, and no line is added to its journal. -/
structure KeepsDay (s s' : TransferFiles) (utcDate : Int) : Prop where
  sealedDays : s'.edge.sealedDays.read utcDate = s.edge.sealedDays.read utcDate
  dayIndex : s'.edge.dayIndex.read utcDate = s.edge.dayIndex.read utcDate ∨
    s'.edge.dayIndex.read utcDate = none

namespace KeepsDay
variable {s s' : TransferFiles} {utcDate : Int}

theorem refl (s : TransferFiles) (utcDate : Int) : s.KeepsDay s utcDate := ⟨rfl, .inl rfl⟩

theorem trans {u : TransferFiles} (h : s.KeepsDay s' utcDate) (h' : s'.KeepsDay u utcDate) :
    s.KeepsDay u utcDate where
  sealedDays := h'.sealedDays.trans h.sealedDays
  dayIndex := by
    rcases h'.dayIndex with heq | hnone
    · rw [heq]
      exact h.dayIndex
    · exact .inr hnone

theorem isSealed (h : s.KeepsDay s' utcDate) (hsealed : s.IsSealed utcDate) :
    s'.IsSealed utcDate := by
  rw [IsSealed, h.sealedDays]
  exact hsealed

end KeepsDay

theorem Undisturbed.keepsDay {s s' : TransferFiles} (h : Undisturbed N s s') (utcDate : Int) :
    s.KeepsDay s' utcDate := by
  refine ⟨?_, .inl ?_⟩
  · rw [h.sealedDays]
  · rw [h.dayIndex]

/-- Under the lock, a sealed day is neither written again nor given a line. -/
theorem keepsDay_run {begun : Int → List ChunkManifest} {op : TransferOp} {s : TransferFiles}
    {utcDate : Int} (hop : (N.watch sha256 begun).allowed op s) (hsealed : s.IsSealed utcDate) :
    s.KeepsDay (TransferOp.run sha256 op s).2 utcDate := by
  have hself := KeepsDay.refl s utcDate
  by_cases hguarded : op.Guarded
  · cases op with
    | writeSealed day =>
      refine ⟨?_, .inl rfl⟩
      show (s.edge.sealedDays.write day.utcDate day).read utcDate = _
      rw [Folder.read_write, if_neg]
      rintro rfl
      exact hop.1 hsealed
    | appendIndex date chunk =>
      refine ⟨rfl, .inl ?_⟩
      show (s.edge.dayIndex.write date _).read utcDate = _
      rw [Folder.read_write, if_neg]
      rintro rfl
      exact hop hsealed
    | unlinkIndex date =>
      refine ifFound_files (P := fun t => s.KeepsDay t utcDate) hself fun lines _ => ⟨rfl, ?_⟩
      show (s.edge.dayIndex.remove date).read utcDate = _ ∨
        (s.edge.dayIndex.remove date).read utcDate = none
      rw [Folder.read_remove]
      split
      · exact .inr rfl
      · exact .inl rfl
    | unlinkAcked date name =>
      exact ifFound_files (P := fun t => s.KeepsDay t utcDate) hself fun _ _ => ⟨rfl, .inl rfl⟩
    | _ => exact hguarded.elim
  · obtain ⟨hdays, hindex, -⟩ := leaves_run (s := s) hguarded
    refine ⟨?_, .inl ?_⟩
    · rw [hdays]
    · rw [hindex]

theorem keepsDay_sem {begun : Int → List ChunkManifest} {op : TransferOp} {s s' : TransferFiles}
    {r : op.Answer} {utcDate : Int} (hop : (N.watch sha256 begun).allowed op s)
    (hsealed : s.IsSealed utcDate) (hsem : Sem sha256 op s r s') : s.KeepsDay s' utcDate := by
  cases hsem with
  | done | failedLate => exact keepsDay_run hop hsealed
  | failed => exact .refl s utcDate
  | tornAppend | partialSync => exact ⟨rfl, .inl rfl⟩

end TransferFiles

namespace IndexCrew.Orderly
variable {hsha : N.CollisionFree sha256} {crew crew' : IndexCrew} {utcDate : Int}

theorem keepsDay_step (h : crew.Orderly hsha)
    (hstep : Step N sha256 encode IndexCall.Journalled crew crew')
    (hsealed : crew.store.IsSealed utcDate) : crew.store.KeepsDay crew'.store utcDate := by
  cases hstep with
  | advance htasks hsem => exact (h.undisturbed htasks hsem).2.2.keepsDay utcDate
  | advanceLocked hlocked hsem => exact keepsDay_sem (h.locked_allowed hlocked).2 hsealed hsem
  | launch | lock | returned | raised | crash => exact .refl _ utcDate

theorem keepsDay (h : crew.Orderly hsha)
    (hreach : Reaches N sha256 encode IndexCall.Journalled crew crew')
    (hsealed : crew.store.IsSealed utcDate) : crew.store.KeepsDay crew'.store utcDate := by
  induction hreach with
  | refl => exact .refl _ utcDate
  | tail hbefore hstep ih =>
    exact ih.trans ((h.reaches hbefore).keepsDay_step hstep (ih.isSealed hsealed))

end IndexCrew.Orderly

/-! ## Calls that run alone -/

namespace IndexCrew
variable {Good : TransferFiles → IndexCall → Prop}

theorem Reaches.run_task (crew : IndexCrew) {before after : List (TransferProgram Unit)}
    {p : TransferProgram Unit} (htasks : crew.tasks = before ++ p :: after) :
    ∃ tasks, Reaches N sha256 encode Good crew
      { crew with store := (execAlone sha256 p crew.store).2, tasks } := by
  induction p generalizing crew with
  | ret | raise => exact ⟨crew.tasks, .refl⟩
  | call op next ih =>
    obtain ⟨tasks, h⟩ := ih (TransferOp.run sha256 op crew.store).1
      { crew with
        store := (TransferOp.run sha256 op crew.store).2
        tasks := before ++ next (TransferOp.run sha256 op crew.store).1 :: after } rfl
    exact ⟨tasks, h.head (.advance htasks (.done op crew.store))⟩

theorem Reaches.run_locked (crew : IndexCrew) {p : TransferProgram Unit}
    (hlocked : crew.locked = some p) :
    ∃ written, Reaches N sha256 encode Good crew
      { crew with store := (execAlone sha256 p crew.store).2, locked := none, written } := by
  induction p generalizing crew with
  | ret value => exact ⟨crew.written, .single (.returned hlocked)⟩
  | raise e => exact ⟨crew.written, .single (.raised hlocked)⟩
  | call op next ih =>
    obtain ⟨written, h⟩ := ih (TransferOp.run sha256 op crew.store).1
      { crew with
        store := (TransferOp.run sha256 op crew.store).2
        locked := some (next (TransferOp.run sha256 op crew.store).1)
        written := crew.writtenWith op } rfl
    exact ⟨written, h.head (.advanceLocked hlocked (.done op crew.store))⟩

/-- From the start, the files can come to be these, with no process running. -/
def CanLeave (N : Naming) (sha256 : Bytes → String) (encode : GapEvent → Bytes)
    (Good : TransferFiles → IndexCall → Prop) (s : TransferFiles) : Prop :=
  ∃ crew, Reaches N sha256 encode Good {} crew ∧ crew.store = s ∧ crew.locked = none

namespace CanLeave
variable {s : TransferFiles}

theorem start : CanLeave N sha256 encode Good {} := ⟨{}, .refl, rfl, rfl⟩

/-- A program runs to its end, and so do the processes of both machines. -/
theorem run (h : CanLeave N sha256 encode Good s) {p : TransferProgram Unit}
    (hmay : N.MayRun sha256 p) : CanLeave N sha256 encode Good (execAlone sha256 p s).2 := by
  obtain ⟨crew, hreach, rfl, -⟩ := h
  obtain ⟨tasks, hrun⟩ := Reaches.run_task { crew with tasks := crew.tasks ++ [p] } rfl
  exact ⟨_, ((hreach.tail (.launch hmay)).trans hrun).tail (.crash (List.nil_sublist _)), rfl, rfl⟩

/-- A call of the day index takes the lock and runs to its end. -/
theorem called (h : CanLeave N sha256 encode Good s) (call : IndexCall)
    (hmay : call.May N encode s) (hgood : Good s call) :
    ∃ before crew : IndexCrew, Reaches N sha256 encode Good {} crew ∧ before.store = s ∧
      crew.store = (execAlone sha256 (call.program N sha256 encode) s).2 ∧
      crew.locked = none ∧ crew.begun = before.begunWith call := by
  obtain ⟨crew, hreach, rfl, hfree⟩ := h
  obtain ⟨written, hrun⟩ := Reaches.run_locked
    { crew with
      locked := some (call.program N sha256 encode)
      begun := crew.begunWith call } rfl
  exact ⟨crew, _, (hreach.tail (.lock hfree hmay hgood)).trans hrun, rfl, rfl, rfl, rfl⟩

theorem call (h : CanLeave N sha256 encode Good s) (call : IndexCall)
    (hmay : call.May N encode s) (hgood : Good s call) :
    CanLeave N sha256 encode Good (execAlone sha256 (call.program N sha256 encode) s).2 := by
  obtain ⟨-, crew, hreach, -, hstore, hfree, -⟩ := h.called call hmay hgood
  exact ⟨crew, hreach, hstore, hfree⟩

end CanLeave

end IndexCrew

namespace Sample

/-- What a program leaves when it runs alone. -/
def left (p : TransferProgram Unit) (s : TransferFiles) : TransferFiles := (execAlone digest p s).2

/-- A chunk is published, and the process ends before it is recorded. -/
def unrecorded : TransferFiles := left (do let _ ← session.finish digest) {}

def firstManifest : ChunkManifest := unrecorded.published.head (by decide +kernel)

def recorded : TransferFiles :=
  left (record firstManifest.utcDate firstManifest.asRef) unrecorded

def acknowledged : TransferFiles :=
  left (do let _ ← applyCall.applyAcks) (left (runPull digest pullCall) recorded)

section CanLeave
open IndexCrew IndexCall

variable {Good : TransferFiles → IndexCall → Prop}

end CanLeave

end Sample

end MiryFormal
