import Mathlib.Data.List.Induction
import Mathlib.Tactic.Common

/-!
# Finite runs of a labelled step relation

A run is the list of events it took. A condition on the steps of a run is a guard:
`Guarded Good Step` is the part of `Step` whose steps meet `Good` in the state before
them, so a run of it is a run whose steps all meet the condition. The only rule is the
usual one: what holds initially and is kept by one step holds in every state reached.
-/

namespace MiryFormal

set_option autoImplicit false

universe u v

variable {σ : Type u} {ε : Type v}

/-- `Run Step s es t`: the events `es` lead from `s` to `t`. -/
inductive Run (Step : σ → ε → σ → Prop) : σ → List ε → σ → Prop where
  | nil (s : σ) : Run Step s [] s
  | cons {s t u : σ} {e : ε} {es : List ε} :
      Step s e t → Run Step t es u → Run Step s (e :: es) u

/-- The steps that meet `Good` in the state before them. -/
def Guarded (Good : σ → ε → Prop) (Step : σ → ε → σ → Prop) : σ → ε → σ → Prop :=
  fun s e t => Good s e ∧ Step s e t

namespace Run
variable {Step : σ → ε → σ → Prop} {s t u : σ} {es fs : List ε}

theorem single {e : ε} (h : Step s e t) : Run Step s [e] t := .cons h (.nil t)

theorem append (hst : Run Step s es t) (htu : Run Step t fs u) : Run Step s (es ++ fs) u := by
  induction hst with
  | nil => exact htu
  | cons h _ ih => exact .cons h (ih htu)

theorem preserves {Inv : σ → Prop}
    (step : ∀ {s e t}, Inv s → Step s e t → Inv t)
    (hrun : Run Step s es t) (hs : Inv s) : Inv t := by
  induction hrun with
  | nil => exact hs
  | cons h _ ih => exact ih (step hs h)

theorem mono {Step' : σ → ε → σ → Prop} (h : ∀ {s e t}, Step s e t → Step' s e t)
    (hrun : Run Step s es t) : Run Step' s es t := by
  induction hrun with
  | nil s => exact .nil s
  | cons hstep _ ih => exact .cons (h hstep) ih

end Run

/-- Where a function that may have no result has one, it has made a run. -/
theorem run_of_foldlM {Step : σ → ε → σ → Prop} {f : σ → ε → Option σ}
    (hf : ∀ s e t, f s e = some t → Step s e t) {s t : σ} {es : List ε}
    (h : es.foldlM f s = some t) : Run Step s es t := by
  induction es generalizing s with
  | nil =>
    cases h
    exact .nil _
  | cons e es ih =>
    rw [List.foldlM_cons] at h
    obtain ⟨u, hstep, hrest⟩ := Option.bind_eq_some_iff.mp h
    exact .cons (hf s e u hstep) (ih hrest)

/-! Runs of a function that always returns: `es.foldl step s`. -/

section Total
variable {step : σ → ε → σ} {Inv : σ → Prop}

theorem foldl_preserves (hstep : ∀ s e, Inv s → Inv (step s e)) {s : σ} (hs : Inv s)
    (es : List ε) : Inv (es.foldl step s) := by
  induction es generalizing s with
  | nil => exact hs
  | cons e es ih => exact ih (hstep s e hs)

/-- What a step keeps exactly when it meets a guard holds along a run exactly when every step of
the run meets the guard. -/
theorem foldl_iff_guard {P : σ → Prop} {good : σ → ε → Prop}
    (hinv : ∀ s e, Inv s → Inv (step s e))
    (hstep : ∀ s e, Inv s → P s → (P (step s e) ↔ good s e)) {s : σ} (hs : Inv s) (hp : P s)
    (es : List ε) :
    (∀ done, done <+: es → P (done.foldl step s)) ↔
      ∀ done e, done ++ [e] <+: es → good (done.foldl step s) e := by
  constructor
  · intro hall done e hprefix
    have hbefore := hall done ((List.prefix_append done [e]).trans hprefix)
    have hafter := hall (done ++ [e]) hprefix
    rw [List.foldl_append] at hafter
    exact (hstep _ e (foldl_preserves hinv hs done) hbefore).mp hafter
  · intro hgood done
    induction done using List.reverseRecOn with
    | nil => exact fun _ => hp
    | append_singleton done e ih =>
      intro hprefix
      have hbefore := ih ((List.prefix_append done [e]).trans hprefix)
      rw [List.foldl_append]
      exact (hstep _ e (foldl_preserves hinv hs done) hbefore).mpr (hgood done e hprefix)

end Total

/-! Runs of a function that may raise: `es.foldlM f s`. -/

section Raising
variable {ω : Type*} {f : σ → ε → Except ω σ} {good : σ → ε → Prop}

/-- Every step of the run from `s` meets `good` in the state before it. -/
def StepsMeet (f : σ → ε → Except ω σ) (good : σ → ε → Prop) : σ → List ε → Prop
  | _, [] => True
  | s, e :: es =>
      good s e ∧ match f s e with
        | .ok t => StepsMeet f good t es
        | .error _ => True

instance StepsMeet.decidable [∀ s e, Decidable (good s e)] :
    ∀ s es, Decidable (StepsMeet f good s es)
  | _, [] => .isTrue trivial
  | s, e :: es => by
      unfold StepsMeet
      have : ∀ t, Decidable (StepsMeet f good t es) := fun t => StepsMeet.decidable t es
      cases f s e <;> infer_instance

theorem StepsMeet.mono {good' : σ → ε → Prop} (h : ∀ s e, good s e → good' s e) {s : σ}
    {es : List ε} (hmeet : StepsMeet f good s es) : StepsMeet f good' s es := by
  induction es generalizing s with
  | nil => trivial
  | cons e es ih =>
    refine ⟨h s e hmeet.1, ?_⟩
    have htail := hmeet.2
    cases hf : f s e with
    | ok t => rw [hf] at htail; exact ih htail
    | error _ => trivial

theorem StepsMeet.at_split {s t : σ} {done rest : List ε} {e : ε}
    (hmeet : StepsMeet f good s (done ++ e :: rest)) (hrun : done.foldlM f s = .ok t) :
    good t e := by
  induction done generalizing s with
  | nil =>
    cases hrun
    exact hmeet.1
  | cons first done ih =>
    have htail := hmeet.2
    rw [List.foldlM_cons] at hrun
    cases hf : f s first with
    | error _ => simp [hf, bind, Except.bind] at hrun
    | ok next =>
      rw [hf] at htail
      simp only [hf, bind, Except.bind] at hrun
      exact ih htail hrun

/-- A run that does not meet the condition has a first step that fails it. -/
theorem StepsMeet.exists_failure {s : σ} {es : List ε} (hmeet : ¬ StepsMeet f good s es) :
    ∃ done e rest t, es = done ++ e :: rest ∧ done.foldlM f s = .ok t ∧ ¬ good t e := by
  induction es generalizing s with
  | nil => exact absurd trivial hmeet
  | cons e es ih =>
    by_cases hgood : good s e
    · cases hf : f s e with
      | error _ => exact absurd ⟨hgood, by simp [hf]⟩ hmeet
      | ok t =>
        have htail : ¬ StepsMeet f good t es := fun h => hmeet ⟨hgood, by simpa [hf] using h⟩
        obtain ⟨done, e', rest, u, rfl, hrun, hbad⟩ := ih htail
        refine ⟨e :: done, e', rest, u, rfl, ?_, hbad⟩
        rw [List.foldlM_cons, hf]
        exact hrun
    · exact ⟨[], e, es, s, rfl, rfl, hgood⟩

theorem StepsMeet.take (n : Nat) {s : σ} {es : List ε} (hmeet : StepsMeet f good s es) :
    StepsMeet f good s (es.take n) := by
  induction es generalizing n s with
  | nil => simpa using hmeet
  | cons e es ih =>
    cases n with
    | zero => trivial
    | succ n =>
      refine ⟨hmeet.1, ?_⟩
      have htail := hmeet.2
      cases hf : f s e with
      | ok t => rw [hf] at htail; exact ih n htail
      | error _ => trivial

/-- If a step that meets `good` returns and keeps the invariant, so does every run of such
steps. The invariant may speak about the events still to come. -/
theorem StepsMeet.returns (Inv : σ → List ε → Prop)
    (step : ∀ {s e es}, Inv s (e :: es) → good s e → ∃ t, f s e = .ok t ∧ Inv t es)
    {s : σ} {es : List ε} (hmeet : StepsMeet f good s es) (hs : Inv s es) :
    ∃ t, es.foldlM f s = .ok t ∧ Inv t [] := by
  induction es generalizing s with
  | nil => exact ⟨s, rfl, hs⟩
  | cons e es ih =>
    obtain ⟨t, hf, ht⟩ := step hs hmeet.1
    have htail := hmeet.2
    rw [hf] at htail
    obtain ⟨u, hu, hinv⟩ := ih htail ht
    refine ⟨u, ?_, hinv⟩
    rw [List.foldlM_cons, hf]
    exact hu

end Raising

end MiryFormal
