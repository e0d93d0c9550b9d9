import MiryFormal.Shared.Interference

/-!
# Programs beside the holder of a lock

One program at a time holds the lock, any number of others run beside it. The holder may rely
on more than the others can: nothing that needs the lock happens while it has it.
-/

namespace MiryFormal

set_option autoImplicit false

structure LockedCrew (Op : Type) (Res : Op → Type) (ω σ κ : Type) where
  store : σ
  /-- The holder of the lock, with what it was called for. -/
  holder : Option (κ × Program Op Res ω Unit) := none
  tasks : List (Program Op Res ω Unit) := []

namespace LockedCrew
open Program

variable {Op : Type} {Res : Op → Type} {ω σ κ : Type}
  (free : Option κ → (op : Op) → σ → Res op → σ → Prop)
  (held : κ → (op : Op) → σ → Res op → σ → Prop)
  (May : σ → Program Op Res ω Unit → Prop) (Holds : σ → κ → Program Op Res ω Unit → Prop)

inductive Step : LockedCrew Op Res ω σ κ → LockedCrew Op Res ω σ κ → Prop
  | launch {store : σ} {holder : Option (κ × Program Op Res ω Unit)}
      {tasks : List (Program Op Res ω Unit)} {p : Program Op Res ω Unit} :
      May store p → Step ⟨store, holder, tasks⟩ ⟨store, holder, tasks ++ [p]⟩
  | advance {store store' : σ} {holder : Option (κ × Program Op Res ω Unit)}
      {before after : List (Program Op Res ω Unit)} {op : Op}
      {next : Res op → Program Op Res ω Unit} {r : Res op} :
      free (holder.map Prod.fst) op store r store' →
        Step ⟨store, holder, before ++ call op next :: after⟩
          ⟨store', holder, before ++ next r :: after⟩
  | acquire {store : σ} {label : κ} {p : Program Op Res ω Unit}
      {tasks : List (Program Op Res ω Unit)} :
      Holds store label p → Step ⟨store, none, tasks⟩ ⟨store, some (label, p), tasks⟩
  | hold {store store' : σ} {label : κ} {op : Op} {next : Res op → Program Op Res ω Unit}
      {r : Res op} {tasks : List (Program Op Res ω Unit)} :
      held label op store r store' →
        Step ⟨store, some (label, call op next), tasks⟩ ⟨store', some (label, next r), tasks⟩
  /-- The holder has come to its end, or has crashed. -/
  | release {store : σ} {holder : κ × Program Op Res ω Unit}
      {tasks : List (Program Op Res ω Unit)} :
      Step ⟨store, some holder, tasks⟩ ⟨store, none, tasks⟩

abbrev Reaches := Relation.ReflTransGen (Step free held May Holds)

variable {free held May Holds} {F : Discipline Op Res σ} {H : κ → Discipline Op Res σ}
  {crew crew' : LockedCrew Op Res ω σ κ}

/-- Free programs keep to `F`, the holder to the discipline of its label. -/
structure Disciplined (F : Discipline Op Res σ) (H : κ → Discipline Op Res σ)
    (crew : LockedCrew Op Res ω σ κ) : Prop where
  inv : F.inv crew.store
  tasks : ∀ p ∈ crew.tasks, F.Upholds (fun _ _ => True) p crew.store
  holder : ∀ label p, crew.holder = some (label, p) →
    (H label).Upholds (fun _ _ => True) p crew.store

/-- What the disciplines promise to each other. -/
structure Compatible (free : Option κ → (op : Op) → σ → Res op → σ → Prop)
    (held : κ → (op : Op) → σ → Res op → σ → Prop) (F : Discipline Op Res σ)
    (H : κ → Discipline Op Res σ) : Prop where
  inv_eq : ∀ label, (H label).inv = F.inv
  free_sem : ∀ label op s r s', free label op s r s' → F.sem op s r s'
  held_sem : ∀ label op s r s', held label op s r s' → (H label).sem op s r s'
  free_refl : ∀ s, F.rely s s
  free_trans : ∀ s t u, F.rely s t → F.rely t u → F.rely s u
  held_refl : ∀ label s, (H label).rely s s
  held_trans : ∀ label s t u, (H label).rely s t → (H label).rely t u → (H label).rely s u
  free_free : ∀ label op s r s', F.inv s → F.allowed op s → free label op s r s' → F.rely s s'
  free_held : ∀ label op s r s', F.inv s → F.allowed op s → free (some label) op s r s' →
    (H label).rely s s'
  held_free : ∀ label op s r s', F.inv s → (H label).allowed op s → held label op s r s' →
    F.rely s s'

/-- A step leaves the store as it is, or takes an allowed operation. -/
inductive Moves (free : Option κ → (op : Op) → σ → Res op → σ → Prop)
    (held : κ → (op : Op) → σ → Res op → σ → Prop) (F : Discipline Op Res σ)
    (H : κ → Discipline Op Res σ) (s : σ) : σ → Prop
  | stay : Moves free held F H s s
  | free {label : Option κ} {op : Op} {r : Res op} {s' : σ} :
      F.allowed op s → free label op s r s' → Moves free held F H s s'
  | held {label : κ} {op : Op} {r : Res op} {s' : σ} :
      (H label).allowed op s → held label op s r s' → Moves free held F H s s'

section Steps
variable (hcompatible : Compatible free held F H)
  (hlaunch : ∀ s p, F.inv s → May s p → F.Upholds (fun _ _ => True) p s)
  (hacquire : ∀ s label p, F.inv s → Holds s label p → (H label).Upholds (fun _ _ => True) p s)
include hcompatible

theorem Step.moves (hstep : Step free held May Holds crew crew') (h : crew.Disciplined F H) :
    Moves free held F H crew.store crew'.store := by
  cases hstep with
  | launch => exact .stay
  | @advance store store' holder before after op next r hop =>
    have htask := h.tasks (call op next) (by simp)
    exact .free (htask store (hcompatible.free_refl store) h.inv).1 hop
  | acquire => exact .stay
  | @hold store store' label op next r tasks hop =>
    have hinv : (H label).inv store := by
      rw [hcompatible.inv_eq]
      exact h.inv
    have hholder := h.holder label _ rfl
    exact .held (hholder store (hcompatible.held_refl label store) hinv).1 hop
  | release => exact .stay

include hlaunch hacquire

theorem Step.disciplined (hstep : Step free held May Holds crew crew')
    (h : crew.Disciplined F H) : crew'.Disciplined F H := by
  cases hstep with
  | @launch store holder tasks p hmay =>
    refine ⟨h.inv, fun q hq => ?_, h.holder⟩
    rcases List.mem_append.mp hq with hq | hq
    · exact h.tasks q hq
    · rw [List.mem_singleton.mp hq]
      exact hlaunch store p h.inv hmay
  | @advance store store' holder before after op next r hop =>
    obtain ⟨hallowed, hnext⟩ :=
      h.tasks (call op next) (by simp) store (hcompatible.free_refl store) h.inv
    have hdone := hcompatible.free_sem _ _ _ _ _ hop
    have hrely := hcompatible.free_free _ _ _ _ _ h.inv hallowed hop
    refine ⟨F.keeps h.inv hallowed hdone, fun q hq => ?_, fun label p hholder => ?_⟩
    · have hcases : q = next r ∨ q ∈ before ++ call op next :: after := by
        simp only [List.mem_append, List.mem_cons] at hq ⊢
        tauto
      rcases hcases with rfl | hq
      · exact hnext r store' hdone
      · exact (h.tasks q hq).of_rely hcompatible.free_trans (fun _ h => h) hrely
    · obtain rfl : holder = some (label, p) := hholder
      have hrely' := hcompatible.free_held label _ _ _ _ h.inv hallowed hop
      exact (h.holder label p rfl).of_rely (hcompatible.held_trans label) (fun _ h => h) hrely'
  | @acquire store label p tasks hholds =>
    refine ⟨h.inv, h.tasks, ?_⟩
    rintro _ _ ⟨⟩
    exact hacquire store label p h.inv hholds
  | @hold store store' label op next r tasks hop =>
    have hinv : (H label).inv store := by
      rw [hcompatible.inv_eq]
      exact h.inv
    obtain ⟨hallowed, hnext⟩ :=
      h.holder label _ rfl store (hcompatible.held_refl label store) hinv
    have hdone := hcompatible.held_sem _ _ _ _ _ hop
    have hrely := hcompatible.held_free _ _ _ _ _ h.inv hallowed hop
    have hinv' := (H label).keeps hinv hallowed hdone
    rw [hcompatible.inv_eq] at hinv'
    refine ⟨hinv', fun q hq => ?_, ?_⟩
    · exact (h.tasks q hq).of_rely hcompatible.free_trans (fun _ h => h) hrely
    · rintro _ _ ⟨⟩
      exact hnext r store' hdone
  | release => exact ⟨h.inv, h.tasks, fun _ _ h => nomatch h⟩

/-- A further invariant of all moves holds in every store reached. -/
theorem Reaches.invariant {J : σ → Prop}
    (hJ : ∀ s s', F.inv s → Moves free held F H s s' → J s → J s')
    (hreach : Reaches free held May Holds crew crew') (h : crew.Disciplined F H)
    (hstart : J crew.store) : crew'.Disciplined F H ∧ J crew'.store := by
  induction hreach with
  | refl => exact ⟨h, hstart⟩
  | tail _ hstep ih =>
    exact ⟨hstep.disciplined hcompatible hlaunch hacquire ih.1,
      hJ _ _ ih.1.inv (hstep.moves hcompatible ih.1) ih.2⟩

end Steps

end LockedCrew

end MiryFormal
