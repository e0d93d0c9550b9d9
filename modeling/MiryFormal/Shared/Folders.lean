import Mathlib.Data.Finmap
import Mathlib.Data.List.Sort

/-!
# Folders

A folder is a finite map from file names to contents. Two folders with the same files are
equal, whatever order they were written in.
-/

namespace MiryFormal

set_option autoImplicit false

structure Folder (κ β : Type) where
  files : Finmap fun _ : κ => β

namespace Folder
variable {κ β : Type}

def empty : Folder κ β := ⟨∅⟩

/-! ## Listings -/

section Sorted
variable [LinearOrder κ]

/-- `sorted(...)` of the files of a folder. -/
def names (folder : Folder κ β) : List κ :=
  Quot.liftOn folder.files.keys.val (fun keys => keys.insertionSort (· ≤ ·)) fun a b h => by
    refine @List.Perm.eq_of_pairwise _ (· ≤ ·) _ _ (fun a b _ _ => le_antisymm)
      (List.pairwise_insertionSort _ a) (List.pairwise_insertionSort _ b) ?_
    exact (List.perm_insertionSort _ a).trans (h.trans (List.perm_insertionSort _ b).symm)

theorem coe_names (folder : Folder κ β) : (folder.names : Multiset κ) = folder.files.keys.val := by
  unfold names
  induction folder.files.keys.val using Quot.ind with
  | mk keys => exact Quot.sound (List.perm_insertionSort _ keys)

theorem names_nodup (folder : Folder κ β) : folder.names.Nodup := by
  rw [← Multiset.coe_nodup, coe_names]
  exact folder.files.keys.nodup

end Sorted

/-! ## Reading and writing -/

variable [DecidableEq κ]

def read (folder : Folder κ β) (name : κ) : Option β := folder.files.lookup name

def write (folder : Folder κ β) (name : κ) (content : β) : Folder κ β :=
  ⟨folder.files.insert name content⟩

def remove (folder : Folder κ β) (name : κ) : Folder κ β := ⟨folder.files.erase name⟩

@[ext] theorem ext {folder folder' : Folder κ β}
    (h : ∀ name, folder.read name = folder'.read name) : folder = folder' :=
  congrArg Folder.mk (Finmap.ext_lookup h)

@[simp] theorem read_empty (name : κ) : (empty : Folder κ β).read name = none :=
  Finmap.lookup_empty name

variable (folder : Folder κ β) (name other : κ) (content : β)

theorem read_write :
    (folder.write name content).read other =
      if name = other then some content else folder.read other := by
  split
  · rename_i h
    subst h
    exact Finmap.lookup_insert folder.files
  · rename_i h
    exact Finmap.lookup_insert_of_ne folder.files fun h' => h h'.symm

@[simp] theorem read_write_self : (folder.write name content).read name = some content :=
  Finmap.lookup_insert folder.files

theorem read_remove :
    (folder.remove name).read other = if name = other then none else folder.read other := by
  split
  · rename_i h
    subst h
    exact Finmap.lookup_erase name folder.files
  · rename_i h
    exact Finmap.lookup_erase_ne fun h' => h h'.symm

@[simp] theorem read_remove_self : (folder.remove name).read name = none :=
  Finmap.lookup_erase name folder.files

variable {folder name other content}

theorem remove_of_absent (h : folder.read name = none) : folder.remove name = folder := by
  ext1 other
  rw [read_remove]
  split
  · rename_i heq
    rw [← heq, h]
  · rfl

/-! A property of every file. -/

def All (folder : Folder κ β) (P : κ → β → Prop) : Prop :=
  ∀ name content, folder.read name = some content → P name content

namespace All
variable {P Q : κ → β → Prop}

theorem empty : (Folder.empty : Folder κ β).All P := by
  intro name content h
  rw [read_empty] at h
  cases h

theorem mono (h : folder.All P) (hPQ : ∀ name content, P name content → Q name content) :
    folder.All Q :=
  fun name content hread => hPQ name content (h name content hread)

theorem write (h : folder.All P) (hcontent : P name content) :
    (folder.write name content).All P := by
  intro other found hread
  rw [read_write] at hread
  split at hread
  · rename_i heq
    cases hread
    exact heq ▸ hcontent
  · exact h other found hread

theorem remove (h : folder.All P) (name : κ) : (folder.remove name).All P := by
  intro other found hread
  rw [read_remove] at hread
  split at hread
  · cases hread
  · exact h other found hread

end All

theorem mem_names [LinearOrder κ] : name ∈ folder.names ↔ folder.read name ≠ none := by
  rw [← Multiset.mem_coe, coe_names, Finset.mem_val, Finmap.mem_keys, read, Ne,
    Finmap.lookup_eq_none, not_not]

theorem names_eq_nil [LinearOrder κ] : folder.names = [] ↔ ∀ name, folder.read name = none := by
  rw [List.eq_nil_iff_forall_not_mem]
  exact forall_congr' fun name => by rw [mem_names, not_not]

end Folder

end MiryFormal
