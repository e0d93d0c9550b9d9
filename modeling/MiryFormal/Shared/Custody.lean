import Mathlib.Data.Finset.Insert
import Mathlib.Data.Finset.Erase

/-!
# Resources in custody

Open resources are named by ids, and every id is to be kept by somebody who will give the resource
back. The keepers are the tasks of a system, each in a slot that is emptied when the task ends.
-/

namespace MiryFormal

set_option autoImplicit false

universe u v

/-- What a step does with the set of open resources. -/
inductive Change (R : Type u) where
  | keep
  | opened (resource : R)
  | closed (resource : R)
  deriving DecidableEq

section Resources
variable {R : Type u}

/-- Every open resource is kept. -/
def InCustody (resources : Finset R) (kept : List R) : Prop :=
  ∀ resource ∈ resources, resource ∈ kept

theorem InCustody.mono {resources : Finset R} {kept after : List R} (h : InCustody resources kept)
    (hkept : ∀ resource ∈ kept, resource ∈ resources → resource ∈ after) :
    InCustody resources after :=
  fun resource hm => hkept resource (h resource hm) hm

/-- A keeper lets go of what is closed only, and takes what is opened. -/
structure Change.Hands (change : Change R) (before after : List R) : Prop where
  kept : ∀ resource ∈ before, resource ∈ after ∨ change = .closed resource
  taken : ∀ resource, change = .opened resource → resource ∈ after

namespace Change.Hands
variable {before after : List R} {change : Change R} {resource : R}

theorem mono {after' : List R} (h : change.Hands before after)
    (hsub : ∀ resource ∈ after, resource ∈ after') : change.Hands before after' :=
  ⟨fun resource hm => (h.kept resource hm).imp_left (hsub resource),
    fun resource heq => hsub resource (h.taken resource heq)⟩

theorem keep (h : ∀ resource ∈ before, resource ∈ after) :
    (Change.keep : Change R).Hands before after := ⟨fun resource hm => .inl (h resource hm), nofun⟩

theorem opened (h : ∀ resource ∈ before, resource ∈ after) (hnew : resource ∈ after) :
    (Change.opened resource).Hands before after := by
  refine ⟨fun other hm => .inl (h other hm), fun other heq => ?_⟩
  cases heq
  exact hnew

theorem closed (h : ∀ other ∈ before, other ∈ after ∨ other = resource) :
    (Change.closed resource).Hands before after :=
  ⟨fun other hm => (h other hm).imp_right (congrArg Change.closed ·.symm), nofun⟩

end Change.Hands

variable [DecidableEq R]

instance (resources : Finset R) (kept : List R) : Decidable (InCustody resources kept) :=
  inferInstanceAs (Decidable (∀ resource ∈ resources, resource ∈ kept))

def Change.apply : Change R → Finset R → Finset R
  | .keep, resources => resources
  | .opened resource, resources => insert resource resources
  | .closed resource, resources => resources.erase resource

/-- One step of a keeper. -/
theorem InCustody.hand {resources : Finset R} {kept after : List R} {change : Change R}
    (h : InCustody resources kept) (hhands : change.Hands kept after) :
    InCustody (change.apply resources) after := by
  cases change with
  | keep =>
    intro resource hm
    exact (hhands.kept resource (h resource hm)).resolve_right nofun
  | opened new =>
    intro resource hm
    rcases Finset.mem_insert.mp hm with rfl | hm
    · exact hhands.taken _ rfl
    · exact (hhands.kept resource (h resource hm)).resolve_right nofun
  | closed old =>
    intro resource hm
    obtain ⟨hne, hm⟩ := Finset.mem_erase.mp hm
    refine (hhands.kept resource (h resource hm)).resolve_right fun heq => hne ?_
    cases heq
    rfl

end Resources

/-! ## Keepers in slots -/

section Slots
variable {R : Type u} {α : Type v} (keeps : α → List R)

/-- What the tasks keep. -/
def keptIn (slots : List (Option α)) : List R := slots.flatMap fun slot => slot.elim [] keeps

variable {keeps} {slots : List (Option α)} {resource : R}

theorem mem_keptIn :
    resource ∈ keptIn keeps slots ↔ ∃ task, some task ∈ slots ∧ resource ∈ keeps task := by
  constructor
  · intro hm
    obtain ⟨slot, hslot, hm⟩ := List.mem_flatMap.mp hm
    cases slot with
    | none => cases hm
    | some task => exact ⟨task, hslot, hm⟩
  · rintro ⟨task, hslot, hm⟩
    exact List.mem_flatMap.mpr ⟨some task, hslot, hm⟩

theorem keptIn_append (slots more : List (Option α)) :
    keptIn keeps (slots ++ more) = keptIn keeps slots ++ keptIn keeps more := List.flatMap_append

/-- Setting a slot loses what the task in it kept. -/
theorem mem_keptIn_set (index : Nat) (after : Option α) (hm : resource ∈ keptIn keeps slots) :
    resource ∈ keptIn keeps (slots.set index after) ∨
      ∃ task, slots[index]? = some (some task) ∧ resource ∈ keeps task := by
  obtain ⟨task, htask, hm⟩ := mem_keptIn.mp hm
  obtain ⟨place, hlt, hget⟩ := List.mem_iff_getElem.mp htask
  by_cases heq : index = place
  · refine .inr ⟨task, ?_, hm⟩
    rw [heq, List.getElem?_eq_getElem hlt, hget]
  · refine .inl (mem_keptIn.mpr ⟨task, List.mem_iff_getElem.mpr ⟨place, ?_, ?_⟩, hm⟩)
    · rwa [List.length_set]
    · rw [List.getElem_set_ne heq, hget]

end Slots

end MiryFormal
