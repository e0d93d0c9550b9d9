import Mathlib.Data.List.Basic
import Mathlib.Order.Nat
import Mathlib.Logic.Function.Basic
import Mathlib.Tactic.Common

/-!
# Files of a directory under power losses

What is written to a file is sure to last once the file is synced, and a change of the directory
once the directory is. A power loss leaves anything in a file that was not synced, and of the
changes that were not synced it leaves any selection, in the order in which they were made.
-/

namespace MiryFormal

set_option autoImplicit false

universe u v

variable {Name : Type u} {Content : Type v} [DecidableEq Name]

/-- Changes of the entries of a directory. -/
inductive EntryChange (Name : Type u) where
  | link (name : Name) (file : Nat)
  | rename (source target : Name) (file : Nat)
  deriving DecidableEq

def EntryChange.apply (entries : Name → Option Nat) : EntryChange Name → Name → Option Nat
  | .link name file => Function.update entries name (some file)
  | .rename source target file =>
      Function.update (Function.update entries source none) target (some file)

structure Disk (Name : Type u) (Content : Type v) where
  contents : Nat → Content
  synced : Nat → Bool
  /-- No file has this number or a greater one. -/
  fresh : Nat
  /-- The entries as they were last synced. -/
  kept : Name → Option Nat
  /-- The changes since then. -/
  changes : List (EntryChange Name) := []

namespace Disk

/-- The entries that a program sees. -/
def entries (disk : Disk Name Content) : Name → Option Nat :=
  disk.changes.foldl EntryChange.apply disk.kept

def read (disk : Disk Name Content) (name : Name) : Option Content :=
  (disk.entries name).map disk.contents

/-- The entries that a power loss may leave. -/
def Image (disk : Disk Name Content) (entries : Name → Option Nat) : Prop :=
  ∃ changes : List (EntryChange Name), changes.Sublist disk.changes ∧
    changes.foldl EntryChange.apply disk.kept = entries

/-! ## Operations -/

/-- `O_CREAT | O_TRUNC`: the file under the name, emptied, or a new one. -/
def openTruncated (disk : Disk Name Content) (empty : Content) (name : Name) :
    Nat × Disk Name Content :=
  match disk.entries name with
  | some file => (file, { disk with
      contents := Function.update disk.contents file empty
      synced := Function.update disk.synced file false })
  | none => (disk.fresh, { disk with
      contents := Function.update disk.contents disk.fresh empty
      synced := Function.update disk.synced disk.fresh false
      fresh := disk.fresh + 1
      changes := disk.changes ++ [.link name disk.fresh] })

def write (disk : Disk Name Content) (file : Nat) (content : Content) : Disk Name Content :=
  { disk with
    contents := Function.update disk.contents file content
    synced := Function.update disk.synced file false }

def sync (disk : Disk Name Content) (file : Nat) : Disk Name Content :=
  { disk with synced := Function.update disk.synced file true }

def rename (disk : Disk Name Content) (source target : Name) (file : Nat) : Disk Name Content :=
  { disk with changes := disk.changes ++ [.rename source target file] }

def syncEntries (disk : Disk Name Content) : Disk Name Content :=
  { disk with kept := disk.entries, changes := [] }

/-- What is left after a power loss is on the disk. -/
structure Loses (disk after : Disk Name Content) : Prop where
  image : disk.Image after.kept
  contents : ∀ file, disk.synced file = true → after.contents file = disk.contents file
  synced : ∀ file, after.synced file = true
  fresh : after.fresh = disk.fresh
  changes : after.changes = []

variable {disk after : Disk Name Content} {seen : Name → Option Nat} {file : Nat} {name : Name}

/-! ## Images -/

theorem image_entries (disk : Disk Name Content) : disk.Image disk.entries :=
  ⟨disk.changes, List.Sublist.refl _, rfl⟩

/-- The directory is changed once more. -/
structure Adds (disk : Disk Name Content) (change : EntryChange Name)
    (after : Disk Name Content) : Prop where
  kept : after.kept = disk.kept
  changes : after.changes = disk.changes ++ [change]

/-- The last change may be lost or not. -/
theorem Adds.image {change : EntryChange Name} (h : disk.Adds change after)
    (himage : after.Image seen) :
    disk.Image seen ∨ ∃ before, disk.Image before ∧ seen = change.apply before := by
  obtain ⟨changes, hsublist, rfl⟩ := himage
  rw [h.changes] at hsublist
  obtain ⟨first, last, rfl, hfirst, hlast⟩ := List.sublist_append_iff.mp hsublist
  rw [h.kept, List.foldl_append]
  rcases List.sublist_singleton.mp hlast with rfl | rfl
  · exact .inl ⟨first, hfirst, rfl⟩
  · exact .inr ⟨_, ⟨first, hfirst, rfl⟩, rfl⟩

theorem Adds.entries {change : EntryChange Name} (h : disk.Adds change after) :
    after.entries = change.apply disk.entries := by
  unfold Disk.entries
  rw [h.kept, h.changes, List.foldl_append]
  rfl

theorem image_of_same (hkept : after.kept = disk.kept) (hchanges : after.changes = disk.changes)
    (h : after.Image seen) : disk.Image seen := by
  unfold Image at h ⊢
  rwa [hkept, hchanges] at h

theorem image_of_no_changes (hchanges : disk.changes = []) (h : disk.Image seen) :
    seen = disk.kept := by
  obtain ⟨changes, hsublist, rfl⟩ := h
  rw [hchanges] at hsublist
  rw [List.sublist_nil.mp hsublist]
  rfl

theorem entries_of_no_changes (hchanges : disk.changes = []) : disk.entries = disk.kept :=
  image_of_no_changes hchanges disk.image_entries

/-! ## What lasts -/

/-- Whatever is lost, what is found under the name meets `P`. -/
def Lasts (disk : Disk Name Content) (name : Name) (P : Option Content → Prop) : Prop :=
  ∀ entries, disk.Image entries →
    P ((entries name).map disk.contents) ∧ ∀ file, entries name = some file → disk.synced file = true

/-- No other name can come to stand for the file. -/
def OnlyUnder (disk : Disk Name Content) (name : Name) (file : Nat) : Prop :=
  ∀ entries, disk.Image entries → ∀ other, entries other = some file → other = name

/-- The file that stands under the name has no other one. -/
def Alone (disk : Disk Name Content) (name : Name) : Prop :=
  ∀ file, disk.entries name = some file → disk.OnlyUnder name file

structure Regular (disk : Disk Name Content) : Prop where
  numbered : ∀ entries, disk.Image entries → ∀ name file, entries name = some file →
    file < disk.fresh
  unshared : ∀ entries, disk.Image entries → ∀ name other file, entries name = some file →
    entries other = some file → name = other

theorem Lasts.read {P : Option Content → Prop} (h : disk.Lasts name P) : P (disk.read name) :=
  (h _ disk.image_entries).1

theorem Lasts.mono {P Q : Option Content → Prop} (h : disk.Lasts name P)
    (hmono : ∀ found, P found → Q found) : disk.Lasts name Q :=
  fun entries himage => ⟨hmono _ (h entries himage).1, (h entries himage).2⟩

/-- What a program sees under the name stays. -/
structure Keeps (disk : Disk Name Content) (name : Name) (after : Disk Name Content) : Prop where
  entries : after.entries name = disk.entries name
  contents : ∀ file, disk.entries name = some file → after.contents file = disk.contents file
  synced : ∀ file, disk.entries name = some file → after.synced file = disk.synced file

theorem Keeps.read (h : disk.Keeps name after) : after.read name = disk.read name := by
  unfold Disk.read
  rw [h.entries]
  cases heq : disk.entries name with
  | none => rfl
  | some file => rw [Option.map_some, Option.map_some, h.contents file heq]

/-! Operations after which no more can be found than before. -/

section Images
variable (himages : ∀ entries, after.Image entries → disk.Image entries)
include himages

theorem OnlyUnder.of_images (h : disk.OnlyUnder name file) : after.OnlyUnder name file :=
  fun entries himage => h entries (himages entries himage)

theorem Regular.of_images (hfresh : disk.fresh ≤ after.fresh) (h : disk.Regular) :
    after.Regular where
  numbered entries himage name file heq :=
    lt_of_lt_of_le (h.numbered entries (himages entries himage) name file heq) hfresh
  unshared entries himage := h.unshared entries (himages entries himage)

theorem Alone.of_images (hentries : after.entries name = disk.entries name)
    (h : disk.Alone name) : after.Alone name := by
  intro file heq
  rw [hentries] at heq
  exact (h file heq).of_images himages

theorem Lasts.of_images {P : Option Content → Prop} (hcontents : after.contents = disk.contents)
    (hsynced : ∀ file, disk.synced file = true → after.synced file = true)
    (h : disk.Lasts name P) : after.Lasts name P := by
  intro entries himage
  obtain ⟨hfound, hfile⟩ := h entries (himages entries himage)
  rw [hcontents]
  exact ⟨hfound, fun file heq => hsynced file (hfile file heq)⟩

end Images

/-! Writing and syncing a file. -/

theorem image_write {content : Content} (h : (disk.write file content).Image seen) :
    disk.Image seen :=
  image_of_same rfl rfl h

theorem image_sync (h : (disk.sync file).Image seen) : disk.Image seen :=
  image_of_same rfl rfl h

theorem Lasts.write {P : Option Content → Prop} {other : Name} (h : disk.Lasts name P)
    (honly : disk.OnlyUnder other file) (hne : name ≠ other) (content : Content) :
    (disk.write file content).Lasts name P := by
  intro entries himage
  have hbefore := image_write himage
  obtain ⟨hfound, hfile⟩ := h entries hbefore
  have hother : ∀ found, entries name = some found → found ≠ file := by
    intro found heq hsame
    rw [hsame] at heq
    exact hne (honly entries hbefore name heq)
  constructor
  · cases heq : entries name with
    | none =>
      rw [heq] at hfound
      exact hfound
    | some found =>
      rw [heq] at hfound
      change P (some (Function.update disk.contents file content found))
      rw [Function.update_of_ne (hother found heq)]
      exact hfound
  · intro found heq
    change Function.update disk.synced file false found = true
    rw [Function.update_of_ne (hother found heq)]
    exact hfile found heq

theorem Lasts.sync {P : Option Content → Prop} (h : disk.Lasts name P) (file : Nat) :
    (disk.sync file).Lasts name P := by
  refine Lasts.of_images (fun _ => image_sync) rfl (fun found hfound => ?_) h
  change Function.update disk.synced file true found = true
  by_cases heq : found = file
  · rw [heq, Function.update_self]
  · rwa [Function.update_of_ne heq]

theorem keeps_write {other : Name} (honly : disk.OnlyUnder other file) (hne : name ≠ other)
    (content : Content) : disk.Keeps name (disk.write file content) := by
  have hother : ∀ found, disk.entries name = some found → found ≠ file := by
    intro found heq hsame
    rw [hsame] at heq
    exact hne (honly _ disk.image_entries name heq)
  exact ⟨rfl, fun found heq => Function.update_of_ne (hother found heq) ..,
    fun found heq => Function.update_of_ne (hother found heq) ..⟩

theorem keeps_sync {other : Name} (honly : disk.OnlyUnder other file) (hne : name ≠ other) :
    disk.Keeps name (disk.sync file) := by
  refine ⟨rfl, fun _ _ => rfl, fun found heq => Function.update_of_ne (fun hsame => ?_) ..⟩
  rw [hsame] at heq
  exact hne (honly _ disk.image_entries name heq)

/-! Opening a file. -/

section Open
variable {empty : Content} {opened : Nat}

/-- The file was there, or it is a new one. -/
theorem openTruncated_cases (hopen : disk.openTruncated empty name = (opened, after)) :
    (disk.entries name = some opened ∧ after = disk.write opened empty) ∨
    (opened = disk.fresh ∧ disk.Adds (.link name opened) after ∧ after.fresh = disk.fresh + 1 ∧
      after.contents = Function.update disk.contents opened empty ∧
      after.synced = Function.update disk.synced opened false) := by
  unfold openTruncated at hopen
  cases hentry : disk.entries name with
  | some file =>
    rw [hentry] at hopen
    cases hopen
    exact .inl ⟨rfl, rfl⟩
  | none =>
    rw [hentry] at hopen
    cases hopen
    exact .inr ⟨rfl, ⟨rfl, rfl⟩, rfl, rfl, rfl⟩

theorem link_self (entries : Name → Option Nat) (name : Name) (file : Nat) :
    (EntryChange.link name file).apply entries name = some file :=
  Function.update_self ..

theorem link_other (entries : Name → Option Nat) {name other : Name} (file : Nat)
    (hne : other ≠ name) : (EntryChange.link name file).apply entries other = entries other :=
  Function.update_of_ne hne ..

/-- A link to a new file is the only one. -/
theorem Regular.link_file (h : disk.Regular) (himage : disk.Image seen) {other : Name}
    (heq : (EntryChange.link name disk.fresh).apply seen other = some file) :
    other = name ∧ file = disk.fresh ∨
      other ≠ name ∧ seen other = some file ∧ file < disk.fresh := by
  by_cases hname : other = name
  · rw [hname, link_self] at heq
    exact .inl ⟨hname, (Option.some.inj heq).symm⟩
  · rw [link_other _ _ hname] at heq
    exact .inr ⟨hname, heq, h.numbered seen himage other file heq⟩

theorem Regular.openTruncated (h : disk.Regular)
    (hopen : disk.openTruncated empty name = (opened, after)) : after.Regular := by
  rcases openTruncated_cases hopen with ⟨-, rfl⟩ | ⟨rfl, hadds, hfresh, -, -⟩
  · exact h.of_images (fun _ => image_write) le_rfl
  · constructor
    · intro entries himage other file heq
      rw [hfresh]
      rcases hadds.image himage with hbefore | ⟨before, hbefore, rfl⟩
      · exact (h.numbered entries hbefore other file heq).trans (Nat.lt_succ_self _)
      · rcases h.link_file hbefore heq with ⟨-, rfl⟩ | ⟨-, -, hlt⟩
        · exact Nat.lt_succ_self _
        · exact hlt.trans (Nat.lt_succ_self _)
    · intro entries himage first second file hfirst hsecond
      rcases hadds.image himage with hbefore | ⟨before, hbefore, rfl⟩
      · exact h.unshared entries hbefore first second file hfirst hsecond
      · rcases h.link_file hbefore hfirst with ⟨rfl, rfl⟩ | ⟨-, hfirst', hlt⟩ <;>
          rcases h.link_file hbefore hsecond with ⟨rfl, hfile⟩ | ⟨-, hsecond', hlt'⟩
        · rfl
        · exact absurd hlt' (lt_irrefl _)
        · exact absurd (hfile ▸ hlt) (lt_irrefl _)
        · exact h.unshared before hbefore first second file hfirst' hsecond'

/-- The file that was opened stands under this name and under no other. -/
theorem Alone.openTruncated_self (h : disk.Alone name) (hregular : disk.Regular)
    (hopen : disk.openTruncated empty name = (opened, after)) :
    after.entries name = some opened ∧ after.OnlyUnder name opened := by
  rcases openTruncated_cases hopen with ⟨hentry, rfl⟩ | ⟨rfl, hadds, -, -, -⟩
  · exact ⟨hentry, (h opened hentry).of_images fun _ => image_write⟩
  · refine ⟨by rw [hadds.entries, link_self], fun entries himage other heq => ?_⟩
    rcases hadds.image himage with hbefore | ⟨before, hbefore, rfl⟩
    · exact absurd (hregular.numbered entries hbefore other _ heq) (lt_irrefl _)
    · rcases hregular.link_file hbefore heq with ⟨hname, -⟩ | ⟨-, -, hlt⟩
      · exact hname
      · exact absurd hlt (lt_irrefl _)

theorem OnlyUnder.openTruncated {other : Name} (h : disk.OnlyUnder other file)
    (hregular : disk.Regular) (hused : file < disk.fresh)
    (hopen : disk.openTruncated empty name = (opened, after)) : after.OnlyUnder other file := by
  rcases openTruncated_cases hopen with ⟨-, rfl⟩ | ⟨rfl, hadds, -, -, -⟩
  · exact h.of_images fun _ => image_write
  · intro entries himage third heq
    rcases hadds.image himage with hbefore | ⟨before, hbefore, rfl⟩
    · exact h entries hbefore third heq
    · rcases hregular.link_file hbefore heq with ⟨-, rfl⟩ | ⟨-, hbefore', -⟩
      · exact absurd hused (lt_irrefl _)
      · exact h before hbefore third hbefore'

theorem Alone.openTruncated {other : Name} (h : disk.Alone other) (hne : other ≠ name)
    (hregular : disk.Regular) (hopen : disk.openTruncated empty name = (opened, after)) :
    after.Alone other := by
  intro file hentry
  have hbefore : disk.entries other = some file := by
    rcases openTruncated_cases hopen with ⟨-, rfl⟩ | ⟨-, hadds, -, -, -⟩
    · exact hentry
    · rwa [hadds.entries, link_other _ _ hne] at hentry
  exact (h file hbefore).openTruncated hregular
    (hregular.numbered _ disk.image_entries other file hbefore) hopen

theorem keeps_openTruncated {other : Name} (hne : other ≠ name) (halone : disk.Alone name)
    (hregular : disk.Regular) (hopen : disk.openTruncated empty name = (opened, after)) :
    disk.Keeps other after := by
  rcases openTruncated_cases hopen with ⟨hentry, rfl⟩ | ⟨rfl, hadds, -, hcontents, hsynced⟩
  · exact keeps_write (halone opened hentry) hne empty
  · have hold : ∀ file, disk.entries other = some file → file ≠ disk.fresh := fun file heq hsame =>
      absurd (hsame ▸ hregular.numbered _ disk.image_entries other file heq) (lt_irrefl _)
    refine ⟨by rw [hadds.entries, link_other _ _ hne], fun file heq => ?_, fun file heq => ?_⟩
    · rw [hcontents, Function.update_of_ne (hold file heq)]
    · rw [hsynced, Function.update_of_ne (hold file heq)]

/-- The file that was opened is empty. -/
theorem openTruncated_contents (hopen : disk.openTruncated empty name = (opened, after)) :
    after.contents opened = empty := by
  rcases openTruncated_cases hopen with ⟨-, rfl⟩ | ⟨-, -, -, hcontents, -⟩
  · exact Function.update_self ..
  · rw [hcontents, Function.update_self]

theorem Lasts.openTruncated {P : Option Content → Prop} {other : Name} (h : disk.Lasts other P)
    (hne : other ≠ name) (halone : disk.Alone name) (hregular : disk.Regular)
    (hopen : disk.openTruncated empty name = (opened, after)) : after.Lasts other P := by
  rcases openTruncated_cases hopen with ⟨hentry, rfl⟩ | ⟨rfl, hadds, -, hcontents, hsynced⟩
  · exact h.write (halone opened hentry) hne empty
  · intro entries himage
    have hbefore : ∃ before, disk.Image before ∧ entries other = before other := by
      rcases hadds.image himage with hbefore | ⟨before, hbefore, rfl⟩
      · exact ⟨entries, hbefore, rfl⟩
      · exact ⟨before, hbefore, link_other _ _ hne⟩
    obtain ⟨before, hbefore, heq⟩ := hbefore
    obtain ⟨hfound, hfile⟩ := h before hbefore
    rw [heq, hcontents, hsynced]
    have hold : ∀ file, before other = some file → file ≠ disk.fresh := fun file hfile hsame =>
      absurd (hsame ▸ hregular.numbered before hbefore other file hfile) (lt_irrefl _)
    constructor
    · cases hother : before other with
      | none =>
        rw [hother] at hfound
        exact hfound
      | some file =>
        rw [hother] at hfound
        rw [Option.map_some, Function.update_of_ne (hold file hother)]
        exact hfound
    · intro file hsome
      rw [Function.update_of_ne (hold file hsome)]
      exact hfile file hsome

end Open

/-! Renaming a file. -/

section Rename
variable {source target : Name}

omit [DecidableEq Name] in
theorem adds_rename (disk : Disk Name Content) (source target : Name) (file : Nat) :
    disk.Adds (.rename source target file) (disk.rename source target file) :=
  ⟨rfl, rfl⟩

theorem rename_target (entries : Name → Option Nat) (source target : Name) (file : Nat) :
    (EntryChange.rename source target file).apply entries target = some file :=
  Function.update_self ..

theorem rename_source (entries : Name → Option Nat) (file : Nat) (hne : source ≠ target) :
    (EntryChange.rename source target file).apply entries source = none := by
  rw [EntryChange.apply, Function.update_of_ne hne, Function.update_self]

theorem rename_other (entries : Name → Option Nat) (file : Nat) (hsource : name ≠ source)
    (htarget : name ≠ target) :
    (EntryChange.rename source target file).apply entries name = entries name := by
  rw [EntryChange.apply, Function.update_of_ne htarget, Function.update_of_ne hsource]

/-- What stands under a name after the file was renamed. -/
theorem rename_file {found : Nat} (hne : source ≠ target)
    (heq : (EntryChange.rename source target file).apply seen name = some found) :
    name = target ∧ found = file ∨
      name ≠ target ∧ name ≠ source ∧ seen name = some found := by
  by_cases htarget : name = target
  · rw [htarget, rename_target] at heq
    exact .inl ⟨htarget, (Option.some.inj heq).symm⟩
  · by_cases hsource : name = source
    · rw [hsource, rename_source _ _ hne] at heq
      exact nomatch heq
    · rw [rename_other _ _ hsource htarget] at heq
      exact .inr ⟨htarget, hsource, heq⟩

theorem keeps_rename (hsource : name ≠ source) (htarget : name ≠ target) :
    disk.Keeps name (disk.rename source target file) := by
  refine ⟨?_, fun _ _ => rfl, fun _ _ => rfl⟩
  rw [(disk.adds_rename source target file).entries, rename_other _ _ hsource htarget]

theorem read_rename (disk : Disk Name Content) (source target : Name) (file : Nat) :
    (disk.rename source target file).read target = some (disk.contents file) := by
  unfold Disk.read
  rw [(disk.adds_rename source target file).entries, rename_target]
  rfl

variable (hne : source ≠ target) (hsource : disk.entries source = some file)
  (honly : disk.OnlyUnder source file)
include hne hsource honly

theorem Regular.rename (h : disk.Regular) : (disk.rename source target file).Regular := by
  have hadds := disk.adds_rename source target file
  constructor
  · intro entries himage name found heq
    rcases hadds.image himage with hbefore | ⟨before, hbefore, rfl⟩
    · exact h.numbered entries hbefore name found heq
    · rcases rename_file hne heq with ⟨-, rfl⟩ | ⟨-, -, heq⟩
      · exact h.numbered _ disk.image_entries source found hsource
      · exact h.numbered before hbefore name found heq
  · intro entries himage first second found hfirst hsecond
    rcases hadds.image himage with hbefore | ⟨before, hbefore, rfl⟩
    · exact h.unshared entries hbefore first second found hfirst hsecond
    · rcases rename_file hne hfirst with ⟨rfl, rfl⟩ | ⟨-, hfirst', heq⟩ <;>
        rcases rename_file hne hsecond with ⟨rfl, hfile⟩ | ⟨-, hsecond', heq'⟩
      · rfl
      · exact absurd (honly before hbefore second heq') hsecond'
      · exact absurd (honly before hbefore first (hfile ▸ heq)) hfirst'
      · exact h.unshared before hbefore first second found heq heq'

omit hsource in
theorem Alone.rename (h : disk.Alone name) (htarget : name ≠ target) :
    (disk.rename source target file).Alone name := by
  have hadds := disk.adds_rename source target file
  intro found hentry entries himage other heq
  rw [hadds.entries] at hentry
  rcases rename_file hne hentry with ⟨hname, -⟩ | ⟨-, hname, hold⟩
  · exact absurd hname htarget
  · rcases hadds.image himage with hbefore | ⟨before, hbefore, rfl⟩
    · exact h found hold entries hbefore other heq
    · rcases rename_file hne heq with ⟨-, hsame⟩ | ⟨-, -, heq⟩
      · rw [hsame] at hold
        exact absurd (honly _ disk.image_entries name hold) hname
      · exact h found hold before hbefore other heq

omit hne hsource honly in
/-- Under the new name there is what was there or the file that was renamed. -/
theorem Lasts.rename {P : Option Content → Prop} (h : disk.Lasts name P)
    (hname : name ≠ source)
    (hfile : name = target → P (some (disk.contents file)) ∧ disk.synced file = true) :
    (disk.rename source target file).Lasts name P := by
  have hadds := disk.adds_rename source target file
  intro entries himage
  rcases hadds.image himage with hbefore | ⟨before, hbefore, rfl⟩
  · exact h entries hbefore
  · by_cases htarget : name = target
    · obtain ⟨hcontent, hsynced⟩ := hfile htarget
      rw [htarget, rename_target]
      refine ⟨hcontent, fun found heq => ?_⟩
      rw [← Option.some.inj heq]
      exact hsynced
    · rw [rename_other _ _ hname htarget]
      exact h before hbefore

end Rename

/-! Syncing the directory, and losing power. -/

theorem image_syncEntries (h : disk.syncEntries.Image seen) : disk.Image seen := by
  rw [image_of_no_changes rfl h]
  exact disk.image_entries

theorem entries_syncEntries (disk : Disk Name Content) :
    disk.syncEntries.entries = disk.entries :=
  entries_of_no_changes rfl

theorem keeps_syncEntries (disk : Disk Name Content) (name : Name) :
    disk.Keeps name disk.syncEntries :=
  ⟨by rw [entries_syncEntries], fun _ _ => rfl, fun _ _ => rfl⟩

/-- What is found under a name is sure to last once the directory is synced. -/
theorem Lasts.syncEntries {P : Option Content → Prop} (h : disk.Lasts name P) :
    disk.syncEntries.Lasts name fun found => found = disk.read name := by
  intro entries himage
  rw [image_of_no_changes rfl himage]
  exact ⟨rfl, (h _ disk.image_entries).2⟩

theorem Loses.image_kept (h : disk.Loses after) (himage : after.Image seen) :
    disk.Image seen := by
  rw [image_of_no_changes h.changes himage]
  exact h.image

theorem Loses.entries (h : disk.Loses after) : after.entries = after.kept :=
  entries_of_no_changes h.changes

theorem Regular.loses (h : disk.Regular) (hloses : disk.Loses after) : after.Regular :=
  h.of_images (fun _ => hloses.image_kept) hloses.fresh.ge

theorem Regular.alone_of_loses (h : disk.Regular) (hloses : disk.Loses after) :
    after.Alone name := by
  intro file heq entries himage other hother
  rw [hloses.entries] at heq
  rw [image_of_no_changes hloses.changes himage] at hother
  exact h.unshared _ hloses.image other name file hother heq

/-- What was sure to last is there, and stays. -/
theorem Lasts.loses {P : Option Content → Prop} (h : disk.Lasts name P)
    (hloses : disk.Loses after) :
    P (after.read name) ∧ after.Lasts name fun found => found = after.read name := by
  obtain ⟨hfound, hfile⟩ := h _ hloses.image
  constructor
  · unfold Disk.read
    rw [hloses.entries]
    cases heq : after.kept name with
    | none =>
      rw [heq] at hfound
      exact hfound
    | some file =>
      rw [heq] at hfound
      rw [Option.map_some, hloses.contents file (hfile file heq)]
      exact hfound
  · intro entries himage
    rw [image_of_no_changes hloses.changes himage, ← hloses.entries]
    exact ⟨rfl, fun file _ => hloses.synced file⟩

end Disk

end MiryFormal
