import MiryFormal.Contracts.Chunks
import MiryFormal.Shared.Disk
import MiryFormal.Shared.Runs

/-!
# Atomic writes

`atomic_write_bytes` writes a temporary file, syncs it, renames it over the path and syncs the
directory. Calls for several paths of one directory may overlap, any call may raise or lose its
process on the way, and the power may fail at any time.
-/

namespace MiryFormal

set_option autoImplicit false

/-- `path.with_name(f".{path.name}.partial")` -/
def temporary (name : String) : String := "." ++ name ++ ".partial"

/-- The name does not begin with a dot. -/
def PlainName (name : String) : Prop := name.toList.head? ≠ some '.'

instance (name : String) : Decidable (PlainName name) := inferInstanceAs (Decidable (_ ≠ _))

/-- Where a call of `atomic_write_bytes` is. -/
inductive WritePhase where
  /-- Some of the content is still to be written. -/
  | writing (rest : Bytes)
  /-- Before `temporary.replace`. -/
  | synced
  /-- Before `fsync_directory`. -/
  | replaced
  deriving DecidableEq

structure AtomicWrite where
  content : Bytes
  file : Nat
  phase : WritePhase
  deriving DecidableEq

/-- A directory, and the calls that are under way in it. -/
structure WrittenDirectory where
  disk : Disk String Bytes
  calls : String → Option AtomicWrite := fun _ => none
  /-- What a reader of a path has to expect: what the last call that returned has written, or what
  a later one was to write; after a power loss, what was found. -/
  expected : String → List (Option Bytes)

inductive WriteEvent where
  /-- The temporary file is opened. -/
  | call (name : String) (content : Bytes)
  | write (name : String) (count : Nat)
  /-- `os.fsync(destination.fileno())` -/
  | fsync (name : String)
  | replace (name : String)
  /-- `fsync_directory`; the call returns. -/
  | fsyncDirectory (name : String)
  /-- The call raises, or its process ends. -/
  | abort (name : String)
  | powerLoss

namespace WrittenDirectory

/-- A call goes on. -/
def setCall (directory : WrittenDirectory) (name : String) (call : Option AtomicWrite) :
    String → Option AtomicWrite :=
  Function.update directory.calls name call

inductive Step : WrittenDirectory → WriteEvent → WrittenDirectory → Prop where
  | call {directory : WrittenDirectory} {name : String} {content : Bytes} {opened : Nat}
      {disk : Disk String Bytes}
      (hopen : directory.disk.openTruncated [] (temporary name) = (opened, disk)) :
      Step directory (.call name content) {
        disk
        calls := directory.setCall name (some ⟨content, opened, .writing content⟩)
        expected := Function.update directory.expected name
          (directory.expected name ++ [some content]) }
  | write {directory : WrittenDirectory} {name : String} {count file : Nat} {content rest : Bytes}
      (hcall : directory.calls name = some ⟨content, file, .writing rest⟩) :
      Step directory (.write name count) { directory with
        disk := directory.disk.write file (directory.disk.contents file ++ rest.take count)
        calls := directory.setCall name (some ⟨content, file, .writing (rest.drop count)⟩) }
  | fsync {directory : WrittenDirectory} {name : String} {file : Nat} {content : Bytes}
      (hcall : directory.calls name = some ⟨content, file, .writing []⟩) :
      Step directory (.fsync name) { directory with
        disk := directory.disk.sync file
        calls := directory.setCall name (some ⟨content, file, .synced⟩) }
  | replace {directory : WrittenDirectory} {name : String} {file found : Nat} {content : Bytes}
      (hcall : directory.calls name = some ⟨content, file, .synced⟩)
      (hfound : directory.disk.entries (temporary name) = some found) :
      Step directory (.replace name) { directory with
        disk := directory.disk.rename (temporary name) name found
        calls := directory.setCall name (some ⟨content, file, .replaced⟩) }
  | fsyncDirectory {directory : WrittenDirectory} {name : String} {file : Nat} {content : Bytes}
      (hcall : directory.calls name = some ⟨content, file, .replaced⟩) :
      Step directory (.fsyncDirectory name) {
        disk := directory.disk.syncEntries
        calls := directory.setCall name none
        expected := Function.update directory.expected name [some content] }
  | abort {directory : WrittenDirectory} {name : String} :
      Step directory (.abort name) { directory with calls := directory.setCall name none }
  | powerLoss {directory : WrittenDirectory} {disk : Disk String Bytes}
      (hloses : directory.disk.Loses disk) :
      Step directory .powerLoss { disk, expected := fun name => [disk.read name] }

/-- Only one call at a time writes a path, and no path begins with a dot. -/
def Apart (directory : WrittenDirectory) (event : WriteEvent) : Prop :=
  ∀ name content, event = .call name content → directory.calls name = none ∧ PlainName name

/-- A directory that was read and synced. -/
structure Settled (directory : WrittenDirectory) : Prop where
  changes : directory.disk.changes = []
  synced : ∀ file, directory.disk.synced file = true
  numbered : ∀ name file, directory.disk.kept name = some file → file < directory.disk.fresh
  unshared : ∀ name other file, directory.disk.kept name = some file →
    directory.disk.kept other = some file → name = other
  calls : ∀ name, directory.calls name = none
  expected : ∀ name, directory.expected name = [directory.disk.read name]

end WrittenDirectory

/-! ## Names -/

theorem temporary_injective {name other : String} (h : temporary name = temporary other) :
    name = other := by
  have hlist := congrArg String.toList h
  unfold temporary at hlist
  rw [String.toList_append, String.toList_append, String.toList_append, String.toList_append]
    at hlist
  exact String.toList_injective (List.append_cancel_left (List.append_cancel_right hlist))

theorem PlainName.ne_temporary {name : String} (h : PlainName name) (other : String) :
    name ≠ temporary other := by
  intro heq
  apply h
  rw [heq, temporary, String.toList_append, String.toList_append]
  rfl

namespace WrittenDirectory

/-! ## What every step keeps -/

/-- What a call has done so far. -/
def Done (disk : Disk String Bytes) (name : String) (call : AtomicWrite) : Prop :=
  match call.phase with
  | .writing rest =>
      disk.entries (temporary name) = some call.file ∧
        disk.contents call.file ++ rest = call.content
  | .synced =>
      disk.entries (temporary name) = some call.file ∧
        disk.contents call.file = call.content ∧ disk.synced call.file = true
  | .replaced => disk.read name = some call.content

structure Sound (directory : WrittenDirectory) : Prop where
  regular : directory.disk.Regular
  alone : ∀ name, directory.disk.Alone (temporary name)
  lasts : ∀ name, PlainName name →
    directory.disk.Lasts name fun found => found ∈ directory.expected name
  calls : ∀ name call, directory.calls name = some call →
    PlainName name ∧ some call.content ∈ directory.expected name ∧ Done directory.disk name call

variable {directory after : WrittenDirectory} {name : String} {disk : Disk String Bytes}

theorem Done.keeps {before : Disk String Bytes} {call : AtomicWrite} (h : Done before name call)
    (htemporary : before.Keeps (temporary name) disk) (hname : before.Keeps name disk) :
    Done disk name call := by
  unfold Done at h ⊢
  cases hphase : call.phase with
  | writing rest =>
    rw [hphase] at h
    obtain ⟨hentry, hcontent⟩ := h
    rw [htemporary.entries, htemporary.contents _ hentry]
    exact ⟨hentry, hcontent⟩
  | synced =>
    rw [hphase] at h
    obtain ⟨hentry, hcontent, hsynced⟩ := h
    rw [htemporary.entries, htemporary.contents _ hentry, htemporary.synced _ hentry]
    exact ⟨hentry, hcontent, hsynced⟩
  | replaced =>
    rw [hphase] at h
    rw [hname.read]
    exact h

/-- The calls after one of them went on: the others see what they saw. -/
theorem Sound.calls_setCall (h : directory.Sound) {call : Option AtomicWrite}
    {expected : String → List (Option Bytes)}
    (hexpected : ∀ other, other ≠ name → expected other = directory.expected other)
    (hkeeps : ∀ other, PlainName other → other ≠ name →
      directory.disk.Keeps (temporary other) disk ∧ directory.disk.Keeps other disk)
    (hself : ∀ current, call = some current →
      PlainName name ∧ some current.content ∈ expected name ∧ Done disk name current) :
    ∀ other current, directory.setCall name call other = some current →
      PlainName other ∧ some current.content ∈ expected other ∧ Done disk other current := by
  intro other current hcurrent
  by_cases hother : other = name
  · subst hother
    rw [setCall, Function.update_self] at hcurrent
    exact hself current hcurrent
  · rw [setCall, Function.update_of_ne hother] at hcurrent
    obtain ⟨hplain, hmem, hdone⟩ := h.calls other current hcurrent
    obtain ⟨htemporary, hname⟩ := hkeeps other hplain hother
    rw [hexpected other hother]
    exact ⟨hplain, hmem, hdone.keeps htemporary hname⟩

/-- Opening or writing the temporary file of a path. -/
theorem temporary_ne {other : String} (hne : other ≠ name) : temporary other ≠ temporary name :=
  fun heq => hne (temporary_injective heq)

theorem Sound.call (h : directory.Sound) {content : Bytes} {opened : Nat}
    (hplain : PlainName name)
    (hopen : directory.disk.openTruncated [] (temporary name) = (opened, disk)) :
    Sound {
      disk
      calls := directory.setCall name (some ⟨content, opened, .writing content⟩)
      expected := Function.update directory.expected name
        (directory.expected name ++ [some content]) } := by
  have halone := h.alone name
  obtain ⟨hentry, honly⟩ := halone.openTruncated_self h.regular hopen
  have hmono : ∀ other found, found ∈ directory.expected other →
      found ∈ Function.update directory.expected name
        (directory.expected name ++ [some content]) other := by
    intro other found hm
    by_cases hother : other = name
    · rw [hother, Function.update_self]
      rw [hother] at hm
      exact List.mem_append_left _ hm
    · rwa [Function.update_of_ne hother]
  refine ⟨h.regular.openTruncated hopen, fun other => ?_, fun other hother => ?_, ?_⟩
  · by_cases hother : other = name
    · rw [hother]
      intro file heq
      rw [hentry] at heq
      rw [← Option.some.inj heq]
      exact honly
    · exact (h.alone other).openTruncated (temporary_ne hother) h.regular hopen
  · exact ((h.lasts other hother).openTruncated (hother.ne_temporary name) halone h.regular
      hopen).mono (hmono other)
  · refine h.calls_setCall (fun other hother => Function.update_of_ne hother ..)
      (fun other hother hne => ⟨?_, ?_⟩) ?_
    · exact Disk.keeps_openTruncated (temporary_ne hne) halone h.regular hopen
    · exact Disk.keeps_openTruncated (hother.ne_temporary name) halone h.regular hopen
    · rintro current ⟨⟩
      refine ⟨hplain, ?_, hentry, ?_⟩
      · change some content ∈ Function.update directory.expected name _ name
        rw [Function.update_self]
        exact List.mem_append_right _ List.mem_cons_self
      · rw [Disk.openTruncated_contents hopen]
        rfl

theorem Sound.write (h : directory.Sound) {count file : Nat} {content rest : Bytes}
    (hcall : directory.calls name = some ⟨content, file, .writing rest⟩) :
    Sound { directory with
      disk := directory.disk.write file (directory.disk.contents file ++ rest.take count)
      calls := directory.setCall name (some ⟨content, file, .writing (rest.drop count)⟩) } := by
  obtain ⟨hplain, hmem, hentry, hcontent⟩ := h.calls name _ hcall
  have honly := h.alone name file hentry
  refine ⟨h.regular.of_images (fun _ => Disk.image_write) le_rfl,
    fun other => (h.alone other).of_images (fun _ => Disk.image_write) rfl,
    fun other hother => (h.lasts other hother).write honly (hother.ne_temporary name) _, ?_⟩
  refine h.calls_setCall (fun _ _ => rfl) (fun other hother hne => ⟨?_, ?_⟩) ?_
  · exact Disk.keeps_write honly (temporary_ne hne) _
  · exact Disk.keeps_write honly (hother.ne_temporary name) _
  · rintro current ⟨⟩
    refine ⟨hplain, hmem, hentry, ?_⟩
    change Function.update directory.disk.contents file _ file ++ rest.drop count = content
    rw [Function.update_self, List.append_assoc, List.take_append_drop]
    exact hcontent

theorem Sound.fsync (h : directory.Sound) {file : Nat} {content : Bytes}
    (hcall : directory.calls name = some ⟨content, file, .writing []⟩) :
    Sound { directory with
      disk := directory.disk.sync file
      calls := directory.setCall name (some ⟨content, file, .synced⟩) } := by
  obtain ⟨hplain, hmem, hentry, hcontent⟩ := h.calls name _ hcall
  have honly := h.alone name file hentry
  refine ⟨h.regular.of_images (fun _ => Disk.image_sync) le_rfl,
    fun other => (h.alone other).of_images (fun _ => Disk.image_sync) rfl,
    fun other hother => (h.lasts other hother).sync file, ?_⟩
  refine h.calls_setCall (fun _ _ => rfl) (fun other hother hne => ⟨?_, ?_⟩) ?_
  · exact Disk.keeps_sync honly (temporary_ne hne)
  · exact Disk.keeps_sync honly (hother.ne_temporary name)
  · rintro current ⟨⟩
    rw [List.append_nil] at hcontent
    exact ⟨hplain, hmem, hentry, hcontent, Function.update_self ..⟩

theorem Sound.replace (h : directory.Sound) {file found : Nat} {content : Bytes}
    (hcall : directory.calls name = some ⟨content, file, .synced⟩)
    (hfound : directory.disk.entries (temporary name) = some found) :
    Sound { directory with
      disk := directory.disk.rename (temporary name) name found
      calls := directory.setCall name (some ⟨content, file, .replaced⟩) } := by
  obtain ⟨hplain, hmem, hentry, hcontent, hsynced⟩ := h.calls name _ hcall
  obtain rfl : found = file := Option.some.inj (hfound.symm.trans hentry)
  have honly := h.alone name found hfound
  have hne : temporary name ≠ name := (hplain.ne_temporary name).symm
  refine ⟨h.regular.rename hne hfound honly,
    fun other => (h.alone other).rename hne honly (hplain.ne_temporary other).symm,
    fun other hother => (h.lasts other hother).rename (hother.ne_temporary name) ?_, ?_⟩
  · rintro rfl
    rw [hcontent]
    exact ⟨hmem, hsynced⟩
  · refine h.calls_setCall (fun _ _ => rfl) (fun other hother hother' => ⟨?_, ?_⟩) ?_
    · exact Disk.keeps_rename (temporary_ne hother') (hplain.ne_temporary other).symm
    · exact Disk.keeps_rename (hother.ne_temporary name) hother'
    · rintro current ⟨⟩
      refine ⟨hplain, hmem, ?_⟩
      change (directory.disk.rename (temporary name) name found).read name = some content
      rw [Disk.read_rename, hcontent]

theorem Sound.fsyncDirectory (h : directory.Sound) {file : Nat} {content : Bytes}
    (hcall : directory.calls name = some ⟨content, file, .replaced⟩) :
    Sound {
      disk := directory.disk.syncEntries
      calls := directory.setCall name none
      expected := Function.update directory.expected name [some content] } := by
  obtain ⟨-, -, hread⟩ := h.calls name _ hcall
  refine ⟨h.regular.of_images (fun _ => Disk.image_syncEntries) le_rfl,
    fun other => (h.alone other).of_images (fun _ => Disk.image_syncEntries)
      (by rw [Disk.entries_syncEntries]), fun other hother => ?_, ?_⟩
  · refine (h.lasts other hother).syncEntries.mono ?_
    rintro found rfl
    change directory.disk.read other ∈ Function.update directory.expected name [some content] other
    by_cases hname : other = name
    · rw [hname, Function.update_self, hread]
      exact List.mem_cons_self
    · rw [Function.update_of_ne hname]
      exact (h.lasts other hother).read
  · exact h.calls_setCall (fun other hother => Function.update_of_ne hother ..)
      (fun other _ _ => ⟨directory.disk.keeps_syncEntries _, directory.disk.keeps_syncEntries _⟩)
      fun current heq => nomatch heq

theorem Sound.abort (h : directory.Sound) :
    Sound { directory with calls := directory.setCall name none } := by
  refine ⟨h.regular, h.alone, h.lasts, ?_⟩
  exact h.calls_setCall (fun _ _ => rfl) (fun other _ _ => ⟨⟨rfl, fun _ _ => rfl, fun _ _ => rfl⟩,
    ⟨rfl, fun _ _ => rfl, fun _ _ => rfl⟩⟩) fun current heq => nomatch heq

theorem Sound.powerLoss (h : directory.Sound) (hloses : directory.disk.Loses disk) :
    Sound { disk, expected := fun name => [disk.read name] } := by
  refine ⟨h.regular.loses hloses, fun name => h.regular.alone_of_loses hloses,
    fun other hother => ((h.lasts other hother).loses hloses).2.mono ?_,
    fun other call heq => nomatch heq⟩
  rintro found rfl
  exact List.mem_cons_self

/-! ## Runs -/

theorem Step.sound {event : WriteEvent} (hstep : Step directory event after)
    (hapart : directory.Apart event) (h : directory.Sound) : after.Sound := by
  cases hstep with
  | call hopen => exact h.call (hapart _ _ rfl).2 hopen
  | write hcall => exact h.write hcall
  | fsync hcall => exact h.fsync hcall
  | replace hcall hfound => exact h.replace hcall hfound
  | fsyncDirectory hcall => exact h.fsyncDirectory hcall
  | abort => exact h.abort
  | powerLoss hloses => exact h.powerLoss hloses

theorem Settled.sound (h : directory.Settled) : directory.Sound where
  regular := by
    constructor
    · intro entries himage
      rw [Disk.image_of_no_changes h.changes himage]
      exact h.numbered
    · intro entries himage
      rw [Disk.image_of_no_changes h.changes himage]
      exact h.unshared
  alone name := by
    intro file heq entries himage other hother
    rw [Disk.entries_of_no_changes h.changes] at heq
    rw [Disk.image_of_no_changes h.changes himage] at hother
    exact h.unshared other _ file hother heq
  lasts name _ := by
    intro entries himage
    rw [Disk.image_of_no_changes h.changes himage, ← Disk.entries_of_no_changes h.changes,
      h.expected]
    exact ⟨List.mem_cons_self, fun file _ => h.synced file⟩
  calls name call heq := by
    rw [h.calls] at heq
    exact nomatch heq

/-- A call that nothing disturbs returns. -/
theorem Sound.call_returns (h : directory.Sound) (hplain : PlainName name)
    (hnone : directory.calls name = none) (content : Bytes) :
    ∃ after, after.expected name = [some content] ∧
      Run (Guarded Apart Step) directory [.call name content, .write name content.length,
        .fsync name, .replace name, .fsyncDirectory name] after := by
  obtain ⟨⟨opened, disk⟩, hopen⟩ :
      ∃ opening, directory.disk.openTruncated [] (temporary name) = opening := ⟨_, rfl⟩
  have hentry := ((h.alone name).openTruncated_self h.regular hopen).1
  have hapart : directory.Apart (.call name content) := by
    rintro other content' ⟨⟩
    exact ⟨hnone, hplain⟩
  refine ⟨_, ?_, .cons ⟨hapart, .call hopen⟩ <|
    .cons ⟨nofun, .write (Function.update_self ..)⟩ <|
      .cons ⟨nofun, @Step.fsync _ name opened content ?_⟩ <|
    .cons ⟨nofun, .replace (Function.update_self ..) hentry⟩ <|
    .cons ⟨nofun, .fsyncDirectory (Function.update_self ..)⟩ (.nil _)⟩
  · exact Function.update_self ..
  · have hwritten : content.drop content.length = [] := List.drop_length
    rw [← hwritten]
    exact Function.update_self ..

/-- For every order of overlapping calls, partial writes, failures, ends of processes and power
losses: under a path there is always the whole content of the last call that returned or of a later
one, and after a power loss at any moment too; what is found after it stays. A call that nothing
disturbs returns. -/
theorem run_atomic {initial : WrittenDirectory} {events : List WriteEvent}
    (hinitial : initial.Settled) (hrun : Run (Guarded Apart Step) initial events directory)
    (hplain : PlainName name) :
    directory.disk.read name ∈ directory.expected name ∧
    (∀ disk, directory.disk.Loses disk → disk.read name ∈ directory.expected name) ∧
    (directory.calls name = none → ∀ content, ∃ after, after.expected name = [some content] ∧
      Run (Guarded Apart Step) directory [.call name content, .write name content.length,
        .fsync name, .replace name, .fsyncDirectory name] after) := by
  have h : directory.Sound := hrun.preserves (fun h hstep => hstep.2.sound hstep.1 h) hinitial.sound
  exact ⟨(h.lasts name hplain).read, fun disk hloses => ((h.lasts name hplain).loses hloses).1,
    fun hnone content => h.call_returns hplain hnone content⟩

/-- A state file with one byte. -/
def oneByte : WrittenDirectory where
  disk := {
    contents := fun _ => [1]
    synced := fun _ => true
    fresh := 1
    kept := fun name => if name = "state.json" then some 0 else none }
  expected := fun name => if name = "state.json" then [some [1]] else [none]

theorem oneByte_settled : oneByte.Settled where
  changes := rfl
  synced _ := rfl
  numbered name file h := by
    obtain ⟨-, hfile⟩ := Option.ite_some_none_eq_some.mp h
    rw [← hfile]
    exact Nat.one_pos
  unshared name other file hname hother := by
    obtain ⟨hname, -⟩ := Option.ite_some_none_eq_some.mp hname
    obtain ⟨hother, -⟩ := Option.ite_some_none_eq_some.mp hother
    rw [hname, hother]
  calls _ := rfl
  expected name := by
    by_cases h : name = "state.json"
    · rw [h]
      rfl
    · simp [oneByte, Disk.read, Disk.entries, h]

/-- After a power loss in the middle of a first call: the temporary file holds anything. -/
def tornDisk : Disk String Bytes where
  contents := fun file => if file = 1 then [7] else [1]
  synced := fun _ => true
  fresh := 2
  kept := Function.update oneByte.disk.kept (temporary "state.json") (some 1)

/-- The power fails with half of the content written, and the next call returns. -/
theorem run_atomic_torn : ∃ directory : WrittenDirectory,
    directory.expected "state.json" = [some [4]] ∧
    directory.disk.read "state.json" ∈ directory.expected "state.json" ∧
    ∀ disk, directory.disk.Loses disk →
      disk.read "state.json" ∈ directory.expected "state.json" := by
  have hcall : ∀ (directory : WrittenDirectory) content,
      directory.calls "state.json" = none → directory.Apart (.call "state.json" content) := by
    rintro directory content hnone name content' ⟨⟩
    exact ⟨hnone, by decide⟩
  have hrun : ∃ directory : WrittenDirectory, directory.expected "state.json" = [some [4]] ∧
      Run (Guarded Apart Step) oneByte
        [.call "state.json" [2, 3], .write "state.json" 1, .powerLoss, .call "state.json" [4],
          .write "state.json" 1, .fsync "state.json", .replace "state.json",
          .fsyncDirectory "state.json"] directory := by
    refine ⟨_, rfl, .cons ⟨hcall _ _ rfl, .call rfl⟩ <| .cons ⟨nofun, .write rfl⟩ <|
      .cons ⟨nofun, @Step.powerLoss _ tornDisk ?_⟩ <| .cons ⟨hcall _ _ rfl, .call rfl⟩ <|
      .cons ⟨nofun, .write rfl⟩ <| .cons ⟨nofun, .fsync rfl⟩ <| .cons ⟨nofun, .replace rfl rfl⟩ <|
      .cons ⟨nofun, .fsyncDirectory rfl⟩ (.nil _)⟩
    refine ⟨⟨_, List.Sublist.refl _, rfl⟩, fun file hsynced => ?_, fun _ => rfl, rfl, rfl⟩
    by_cases hfile : file = 1
    · rw [hfile] at hsynced
      exact nomatch hsynced
    · change (if file = 1 then [7] else [1]) =
        Function.update (Function.update (fun _ => [1]) 1 []) 1 _ file
      rw [if_neg hfile, Function.update_of_ne hfile, Function.update_of_ne hfile]
  obtain ⟨directory, hexpected, hrun⟩ := hrun
  obtain ⟨hread, hlast, -⟩ := run_atomic oneByte_settled hrun (by decide : PlainName "state.json")
  exact ⟨directory, hexpected, hread, hlast⟩

end WrittenDirectory

end MiryFormal
