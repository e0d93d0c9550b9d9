import Mathlib.Data.List.Forall2
import Mathlib.Data.List.Perm.Basic
import Mathlib.Tactic.Common

/-!
# Lists under functions that may raise

When every call returns, `mapM` and `filterM` return too, and what they return is described
element by element. `Outcome` says of a computation both what it returns and what it raises.
-/

namespace MiryFormal

set_option autoImplicit false

universe u v

variable {α : Type u} {β ω : Type v}

theorem bind_total {γ : Type v} {x : Except ω γ} {f : γ → Except ω β} (hx : ∃ a, x = .ok a)
    (hf : ∀ a, x = .ok a → ∃ b, f a = .ok b) : ∃ b, (x >>= f) = .ok b := by
  obtain ⟨a, rfl⟩ := hx
  exact hf a rfl

theorem bind_eq {γ : Type v} {x : Except ω γ} {f : γ → Except ω β} {r : Except ω β} {a : γ}
    (hx : x = .ok a) (hf : f a = r) : (x >>= f) = r := by
  subst hx
  exact hf

theorem bind_error {γ : Type v} {x : Except ω γ} {f : γ → Except ω β} {e : ω}
    (hx : x = .error e) : (x >>= f) = .error e := by
  subst hx
  rfl

theorem exists_bind {γ : Type v} {x : Except ω γ} {f : γ → Except ω β} {P : β → Prop} {a : γ}
    (hx : x = .ok a) (hf : ∃ b, f a = .ok b ∧ P b) : ∃ b, (x >>= f) = .ok b ∧ P b := by
  subst hx
  exact hf

theorem exists_of_bind_ok {ω : Type u} {γ β : Type v} {x : Except ω γ} {f : γ → Except ω β}
    {b : β} (h : (x >>= f) = .ok b) : ∃ a, x = .ok a ∧ f a = .ok b := by
  cases x with
  | error e => cases h
  | ok a => exact ⟨a, rfl, h⟩

theorem exists_of_map_ok {ω : Type u} {γ β : Type v} {x : Except ω γ} {f : γ → β} {b : β}
    (h : x.map f = .ok b) : ∃ a, x = .ok a ∧ f a = b := by
  cases x with
  | error e => cases h
  | ok a => exact ⟨a, rfl, Except.ok.inj h⟩

theorem forall₂_of_mapM_ok {f : α → Except ω β} {inputs : List α} {outputs : List β}
    (h : inputs.mapM f = .ok outputs) : List.Forall₂ (fun a b => f a = .ok b) inputs outputs := by
  induction inputs generalizing outputs with
  | nil =>
    cases h
    exact .nil
  | cons a inputs ih =>
    rw [List.mapM_cons] at h
    obtain ⟨first, ha, h⟩ := exists_of_bind_ok h
    obtain ⟨rest, hrest, h⟩ := exists_of_bind_ok h
    cases h
    exact .cons ha (ih hrest)

theorem mapM_of_forall₂ {f : α → Except ω β} {inputs : List α} {outputs : List β}
    (h : List.Forall₂ (fun a b => f a = .ok b) inputs outputs) : inputs.mapM f = .ok outputs := by
  induction h with
  | nil => rfl
  | cons hfirst _ ih =>
    rw [List.mapM_cons, hfirst, ih]
    rfl

/-- Inputs in another order give the outputs in another order. -/
theorem mapM_perm {f : α → Except ω β} {inputs reordered : List α} {outputs : List β}
    (hperm : reordered.Perm inputs) (h : inputs.mapM f = .ok outputs) :
    ∃ others, reordered.mapM f = .ok others ∧ others.Perm outputs := by
  obtain ⟨others, hall, hothers⟩ := List.perm_comp_forall₂ hperm (forall₂_of_mapM_ok h)
  exact ⟨others, mapM_of_forall₂ hall, hothers⟩

theorem mapM_total {f : α → Except ω β} {inputs : List α} (h : ∀ a ∈ inputs, ∃ b, f a = .ok b) :
    ∃ outputs, inputs.mapM f = .ok outputs := by
  induction inputs with
  | nil => exact ⟨[], rfl⟩
  | cons a inputs ih =>
    obtain ⟨b, hb⟩ := h a List.mem_cons_self
    obtain ⟨rest, hrest⟩ := ih fun later hm => h later (List.mem_cons_of_mem _ hm)
    exact ⟨b :: rest, by rw [List.mapM_cons, hb, hrest]; rfl⟩

/-- The same with what each call is known to return. -/
theorem exists_mapM {f : α → Except ω β} {P : α → β → Prop} {inputs : List α}
    (h : ∀ a ∈ inputs, ∃ b, f a = .ok b ∧ P a b) :
    ∃ outputs, inputs.mapM f = .ok outputs ∧ List.Forall₂ P inputs outputs := by
  induction inputs with
  | nil => exact ⟨[], rfl, .nil⟩
  | cons a inputs ih =>
    obtain ⟨b, hb, hP⟩ := h a List.mem_cons_self
    obtain ⟨rest, hrest, hall⟩ := ih fun later hm => h later (List.mem_cons_of_mem _ hm)
    exact ⟨b :: rest, by rw [List.mapM_cons, hb, hrest]; rfl, .cons hP hall⟩

theorem map_eq_of_forall₂ {β : Type*} {γ : Type*} {R : α → β → Prop} {l : List α} {m : List β}
    {f : α → γ} {g : β → γ} (h : List.Forall₂ R l m) (hfg : ∀ a b, a ∈ l → R a b → f a = g b) :
    l.map f = m.map g := by
  induction h with
  | nil => rfl
  | cons hab _ ih =>
    rw [List.map_cons, List.map_cons, hfg _ _ List.mem_cons_self hab,
      ih fun a b hm => hfg a b (List.mem_cons_of_mem _ hm)]

theorem exists_of_forall₂ {β : Type*} {R : α → β → Prop} {l : List α} {m : List β}
    (h : List.Forall₂ R l m) {a : α} (hm : a ∈ l) : ∃ b ∈ m, R a b := by
  induction h with
  | nil => simp at hm
  | cons hab _ ih =>
    rcases List.mem_cons.mp hm with rfl | hm
    · exact ⟨_, List.mem_cons_self, hab⟩
    · obtain ⟨b, hb, hR⟩ := ih hm
      exact ⟨b, List.mem_cons_of_mem _ hb, hR⟩

theorem filterAuxM_eq {α : Type} {p : α → Except ω Bool} {q : α → Bool} {inputs acc : List α}
    (h : ∀ a ∈ inputs, p a = .ok (q a)) :
    inputs.filterAuxM p acc = .ok ((inputs.filter q).reverse ++ acc) := by
  induction inputs generalizing acc with
  | nil => rfl
  | cons a inputs ih =>
    have hrest := fun later hm => h later (List.mem_cons_of_mem _ hm)
    rw [List.filterAuxM, h a List.mem_cons_self]
    cases hq : q a with
    | false =>
      rw [List.filter_cons_of_neg (by simp [hq])]
      exact ih hrest
    | true =>
      rw [List.filter_cons_of_pos hq, List.reverse_cons, List.append_assoc]
      exact ih hrest

/-- A filter whose test returns on every element. -/
theorem filterM_eq {α : Type} {p : α → Except ω Bool} {q : α → Bool} {inputs : List α}
    (h : ∀ a ∈ inputs, p a = .ok (q a)) : inputs.filterM p = .ok (inputs.filter q) := by
  rw [List.filterM, filterAuxM_eq h, List.append_nil]
  simp only [bind, Except.bind, pure, Except.pure, List.reverse_reverse]

theorem mem_of_filterAuxM_ok {α : Type} {p : α → Except ω Bool} {inputs acc kept : List α}
    (h : inputs.filterAuxM p acc = .ok kept) {a : α} (hm : a ∈ kept) :
    a ∈ acc ∨ a ∈ inputs ∧ p a = .ok true := by
  induction inputs generalizing acc with
  | nil =>
    cases h
    exact .inl hm
  | cons first inputs ih =>
    rw [List.filterAuxM] at h
    obtain ⟨keep, hkeep, hrest⟩ := exists_of_bind_ok h
    rcases ih hrest with hacc | ⟨hin, htrue⟩
    · cases keep with
      | false => exact .inl hacc
      | true =>
        rcases List.mem_cons.mp hacc with rfl | hacc
        · exact .inr ⟨List.mem_cons_self, hkeep⟩
        · exact .inl hacc
    · exact .inr ⟨List.mem_cons_of_mem _ hin, htrue⟩

/-- What a filter keeps has passed its test. -/
theorem mem_of_filterM_ok {α : Type} {p : α → Except ω Bool} {inputs kept : List α}
    (h : inputs.filterM p = .ok kept) {a : α} (hm : a ∈ kept) : a ∈ inputs ∧ p a = .ok true := by
  rw [List.filterM] at h
  obtain ⟨reversed, hreversed, hkept⟩ := exists_of_bind_ok h
  cases hkept
  rcases mem_of_filterAuxM_ok hreversed (List.mem_reverse.mp hm) with hnil | hin
  · exact absurd hnil List.not_mem_nil
  · exact hin

/-- A loop whose body returns without a change returns what it started with. -/
theorem foldlM_ok_eq {α γ : Type} {ω : Type u} {body : α → γ → Except ω α} {inputs : List γ}
    {start out : α} (hkeep : ∀ a c b, body a c = .ok b → b = a)
    (h : inputs.foldlM body start = .ok out) : out = start := by
  induction inputs generalizing start with
  | nil =>
    cases h
    rfl
  | cons c inputs ih =>
    rw [List.foldlM_cons] at h
    obtain ⟨next, hnext, hrest⟩ := exists_of_bind_ok h
    rw [ih hrest]
    exact hkeep start c next hnext

/-- A counting loop returns when every round returns from what holds before it. -/
theorem foldlM_range_total {α ω : Type} {body : α → Nat → Except ω α}
    {P : Nat → α → Prop} {start : α} {bound : Nat} (hstart : P 0 start)
    (hround : ∀ count < bound, ∀ a, P count a → ∃ b, body a count = .ok b ∧ P (count + 1) b) :
    ∃ out, (List.range bound).foldlM body start = .ok out ∧ P bound out := by
  induction bound with
  | zero => exact ⟨start, rfl, hstart⟩
  | succ bound ih =>
    obtain ⟨a, ha, hP⟩ := ih fun count hlt => hround count (by omega)
    obtain ⟨b, hb, hP'⟩ := hround bound (by omega) a hP
    refine ⟨b, ?_, hP'⟩
    rw [List.range_succ, List.foldlM_append]
    apply bind_eq ha
    rw [List.foldlM_cons]
    exact bind_eq hb rfl

/-! ## What is returned and what is raised -/

/-- What a computation returns meets `P`, and what it raises meets `Q`. -/
def Outcome {ω : Type u} {β : Type v} (P : β → Prop) (Q : ω → Prop) : Except ω β → Prop
  | .ok b => P b
  | .error e => Q e

section Outcome
variable {ω : Type u} {γ β : Type v} {P : γ → Prop} {R : β → Prop} {Q : ω → Prop}

theorem outcome_iff {x : Except ω β} :
    Outcome R Q x ↔ (∃ b, x = .ok b ∧ R b) ∨ ∃ e, x = .error e ∧ Q e := by
  cases x with
  | ok b => simp [Outcome]
  | error e => simp [Outcome]

theorem Outcome.of_ok {x : Except ω β} {b : β} (hx : Outcome R Q x) (h : x = .ok b) : R b := by
  rw [h] at hx
  exact hx

theorem Outcome.bind {x : Except ω γ} {f : γ → Except ω β} (hx : Outcome P Q x)
    (hf : ∀ a, x = .ok a → P a → Outcome R Q (f a)) : Outcome R Q (x >>= f) := by
  cases x with
  | ok a => exact hf a rfl hx
  | error e => exact hx

theorem Outcome.mono {R' : β → Prop} {Q' : ω → Prop} {x : Except ω β} (hx : Outcome R Q x)
    (hok : ∀ b, R b → R' b) (herror : ∀ e, Q e → Q' e) : Outcome R' Q' x := by
  cases x with
  | ok b => exact hok b hx
  | error e => exact herror e hx

theorem Outcome.map {x : Except ω γ} {f : γ → β} (hx : Outcome P Q x) (hf : ∀ a, P a → R (f a)) :
    Outcome R Q (x.map f) := by
  cases x with
  | ok a => exact hf a hx
  | error e => exact hx

end Outcome

/-- Every call is known to return or to raise: so is the loop over them. -/
theorem Outcome.mapM {P : α → β → Prop} {Q : ω → Prop} {f : α → Except ω β} {inputs : List α}
    (h : ∀ a ∈ inputs, Outcome (P a) Q (f a)) :
    Outcome (List.Forall₂ P inputs) Q (inputs.mapM f) := by
  induction inputs with
  | nil => exact .nil
  | cons a inputs ih =>
    rw [List.mapM_cons]
    refine (h a List.mem_cons_self).bind fun b _ hb => ?_
    refine (ih fun later hm => h later (List.mem_cons_of_mem _ hm)).bind fun rest _ hrest => ?_
    exact List.Forall₂.cons hb hrest

theorem Outcome.filterM {α : Type} {P : α → Prop} {Q : ω → Prop} {p : α → Except ω Bool}
    {inputs : List α} (h : ∀ a ∈ inputs, Outcome (fun keep => keep = true → P a) Q (p a)) :
    Outcome (fun kept => ∀ a ∈ kept, a ∈ inputs ∧ P a) Q (inputs.filterM p) := by
  have haux : ∀ rest acc : List α, (∀ a ∈ rest, a ∈ inputs) → (∀ a ∈ acc, a ∈ inputs ∧ P a) →
      Outcome (fun kept => ∀ a ∈ kept, a ∈ inputs ∧ P a) Q (rest.filterAuxM p acc) := by
    intro rest
    induction rest with
    | nil => exact fun acc _ hacc => hacc
    | cons a rest ih =>
      intro acc hrest hacc
      rw [List.filterAuxM]
      refine (h a (hrest a List.mem_cons_self)).bind fun keep _ hkeep => ?_
      apply ih _ fun later hm => hrest later (List.mem_cons_of_mem _ hm)
      cases keep with
      | false => exact hacc
      | true =>
        intro other hm
        rcases List.mem_cons.mp hm with rfl | hm
        · exact ⟨hrest other List.mem_cons_self, hkeep rfl⟩
        · exact hacc other hm
  refine (haux inputs [] (fun _ hm => hm) (fun _ hm => absurd hm List.not_mem_nil)).bind
    fun reversed _ hreversed => ?_
  intro a hm
  exact hreversed a (List.mem_reverse.mp hm)

end MiryFormal
