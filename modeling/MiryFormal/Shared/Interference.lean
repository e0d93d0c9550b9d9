import Mathlib.Logic.Relation
import MiryFormal.Shared.Programs

/-!
# Programs among others

Operations whose answer is not determined are given by a relation. A discipline says which
operations are allowed in a store and what they keep. A program that other programs interrupt
relies on what their steps may do, and keeps to the discipline; then the invariant holds for
any number of programs, and each of them can be looked at alone.
-/

namespace MiryFormal

set_option autoImplicit false

namespace Program

variable {Op : Type} {ω α : Type} {Res Val : Op → Type}

/-- What the program raises becomes a value. -/
def attempt : Program Op Res ω α → Program Op Res ω (Except ω α)
  | ret a => ret (.ok a)
  | raise e => ret (.error e)
  | call op next => call op fun r => (next r).attempt

/-- An operation whose failure is raised. -/
def io (op : Op) : Program Op (fun op => Except ω (Val op)) ω (Val op) :=
  call op fun
    | .ok value => ret value
    | .error e => raise e

/-! ## What a program may do, continued -/

section Paths
variable {allows : (op : Op) → Res op → Prop} {ok : Op → Prop} {fails : Prop}

theorem Obeys.attempt {p : Program Op Res ω α} (hp : p.Obeys allows ok fails) :
    p.attempt.Obeys allows ok fails := by
  induction p with
  | ret a => trivial
  | raise e => trivial
  | call op next ih => exact ⟨hp.1, fun r hr => ih r (hp.2 r hr)⟩

theorem Obeys.foldlM {γ : Type} {items : List γ} {f : α → γ → Program Op Res ω α} {a : α}
    (hf : ∀ a, ∀ item ∈ items, (f a item).Obeys allows ok fails) :
    (items.foldlM f a).Obeys allows ok fails := by
  induction items generalizing a with
  | nil => trivial
  | cons item items ih =>
    rw [List.foldlM_cons]
    exact (hf a item List.mem_cons_self).bind fun a =>
      ih fun a later hm => hf a later (List.mem_cons_of_mem _ hm)

end Paths

theorem Each.io {ok : Op → Prop} {op : Op} (hop : ok op) :
    (io op : Program Op (fun op => Except ω (Val op)) ω (Val op)).Each ok := by
  refine ⟨hop, fun r _ => ?_⟩
  cases r <;> trivial

end Program

/-- What programs over a store keep to. -/
structure Discipline (Op : Type) (Res : Op → Type) (σ : Type) where
  /-- `sem op s r s'`: in the store `s` the operation can answer `r` and leave `s'`. -/
  sem : (op : Op) → σ → Res op → σ → Prop
  /-- What may happen to the store between two operations of a program. -/
  rely : σ → σ → Prop
  inv : σ → Prop
  allowed : Op → σ → Prop
  keeps : ∀ {op s r s'}, inv s → allowed op s → sem op s r s' → inv s'

namespace Discipline
open Program

variable {Op : Type} {Res : Op → Type} {ω σ α β : Type} (D : Discipline Op Res σ)

/-- Interrupted by steps of `rely`, the program calls only what is allowed, and ends with
`Q`. -/
def Upholds (Q : Except ω α → σ → Prop) : Program Op Res ω α → σ → Prop
  | ret a, s => Q (.ok a) s
  | raise e, s => Q (.error e) s
  | call op next, s =>
      ∀ s₁, D.rely s s₁ → D.inv s₁ →
        D.allowed op s₁ ∧ ∀ r s₂, D.sem op s₁ r s₂ → Upholds Q (next r) s₂

namespace Upholds
variable {D} {Q : Except ω α → σ → Prop} {R : Except ω β → σ → Prop}

theorem mono {Q' : Except ω α → σ → Prop} (hQ : ∀ result s, Q result s → Q' result s)
    {p : Program Op Res ω α} {s : σ} (h : D.Upholds Q p s) : D.Upholds Q' p s := by
  induction p generalizing s with
  | ret a => exact hQ _ s h
  | raise e => exact hQ _ s h
  | call op next ih =>
    intro s₁ hrely hinv
    obtain ⟨hallowed, hnext⟩ := h s₁ hrely hinv
    exact ⟨hallowed, fun r s₂ hop => ih r (hnext r s₂ hop)⟩

theorem bind {p : Program Op Res ω α} {f : α → Program Op Res ω β} {s : σ}
    (h : D.Upholds Q p s) (hok : ∀ a s, Q (.ok a) s → D.Upholds R (f a) s)
    (herror : ∀ e s, Q (.error e) s → R (.error e) s) : D.Upholds R (p >>= f) s := by
  induction p generalizing s with
  | ret a => exact hok a s h
  | raise e => exact herror e s h
  | call op next ih =>
    intro s₁ hrely hinv
    obtain ⟨hallowed, hnext⟩ := h s₁ hrely hinv
    exact ⟨hallowed, fun r s₂ hop => ih r (hnext r s₂ hop)⟩

theorem attempt {p : Program Op Res ω α} {s : σ} (h : D.Upholds Q p s) :
    D.Upholds (fun (result : Except ω (Except ω α)) s => ∃ r, result = .ok r ∧ Q r s)
      p.attempt s := by
  induction p generalizing s with
  | ret a => exact ⟨_, rfl, h⟩
  | raise e => exact ⟨_, rfl, h⟩
  | call op next ih =>
    intro s₁ hrely hinv
    obtain ⟨hallowed, hnext⟩ := h s₁ hrely hinv
    exact ⟨hallowed, fun r s₂ hop => ih r (hnext r s₂ hop)⟩

/-- What survives the others is known when the program starts. -/
theorem of_rely (htrans : ∀ s t u, D.rely s t → D.rely t u → D.rely s u)
    {p : Program Op Res ω α} {s t : σ} (hQ : ∀ result, Q result s → Q result t)
    (hrely : D.rely s t) (h : D.Upholds Q p s) : D.Upholds Q p t := by
  cases p with
  | ret a => exact hQ _ h
  | raise e => exact hQ _ h
  | call op next => exact fun s₁ hs₁ => h s₁ (htrans _ _ _ hrely hs₁)

theorem foldlM {γ : Type} {items : List γ} {f : α → γ → Program Op Res ω α}
    {J : α → σ → Prop} {E : ω → σ → Prop}
    (hstep : ∀ a s, ∀ item ∈ items, J a s → D.Upholds
      (fun result s => match result with | .ok a => J a s | .error e => E e s) (f a item) s)
    {a : α} {s : σ} (ha : J a s) :
    D.Upholds (fun result s => match result with | .ok a => J a s | .error e => E e s)
      (items.foldlM f a) s := by
  induction items generalizing a s with
  | nil => exact ha
  | cons item items ih =>
    rw [List.foldlM_cons]
    refine (hstep a s item List.mem_cons_self ha).bind ?_ fun e s he => he
    exact fun a s ha => ih (fun a s later hm => hstep a s later (List.mem_cons_of_mem _ hm)) ha

theorem of_each {ok : Op → Prop} (hok : ∀ op s, ok op → D.inv s → D.allowed op s)
    {p : Program Op Res ω α} (hp : p.Each ok) (s : σ) : D.Upholds (fun _ _ => True) p s := by
  induction p generalizing s with
  | ret a => trivial
  | raise e => trivial
  | call op next ih =>
    exact fun s₁ _ hinv => ⟨hok op s₁ hp.1 hinv, fun r s₂ _ => ih r (hp.2 r trivial) s₂⟩

end Upholds

theorem upholds_io {Val : Op → Type} {D : Discipline Op (fun op => Except ω (Val op)) σ} {op : Op}
    {Q : Except ω (Val op) → σ → Prop} {s : σ}
    (h : ∀ s₁, D.rely s s₁ → D.inv s₁ → D.allowed op s₁ ∧
      ∀ r s₂, D.sem op s₁ r s₂ → Q r s₂) : D.Upholds Q (io op) s := by
  intro s₁ hrely hinv
  obtain ⟨hallowed, hQ⟩ := h s₁ hrely hinv
  refine ⟨hallowed, fun r s₂ hop => ?_⟩
  cases r with
  | ok value => exact hQ (.ok value) s₂ hop
  | error e => exact hQ (.error e) s₂ hop

end Discipline

/-! ## A crew

Any number of programs, each launched when the store allows it, advance one operation at a
time. A program that never advances again has crashed. -/

structure Crew (Op : Type) (Res : Op → Type) (ω σ : Type) where
  store : σ
  tasks : List (Program Op Res ω Unit) := []

namespace Crew
open Program

variable {Op : Type} {Res : Op → Type} {ω σ : Type}
  (sem : (op : Op) → σ → Res op → σ → Prop) (May : σ → Program Op Res ω Unit → Prop)

inductive Step : Crew Op Res ω σ → Crew Op Res ω σ → Prop
  | launch {store : σ} {tasks : List (Program Op Res ω Unit)} {p : Program Op Res ω Unit} :
      May store p → Step ⟨store, tasks⟩ ⟨store, tasks ++ [p]⟩
  | advance {store store' : σ} {before after : List (Program Op Res ω Unit)} {op : Op}
      {next : Res op → Program Op Res ω Unit} {r : Res op} :
      sem op store r store' →
        Step ⟨store, before ++ call op next :: after⟩ ⟨store', before ++ next r :: after⟩

/-- The crews that can be reached. -/
abbrev Reaches := Relation.ReflTransGen (Step sem May)

variable {sem May} {D : Discipline Op Res σ} {crew crew' : Crew Op Res ω σ}

/-- The store satisfies the invariant and every task keeps to the discipline. -/
def Disciplined (D : Discipline Op Res σ) (crew : Crew Op Res ω σ) : Prop :=
  D.inv crew.store ∧ ∀ p ∈ crew.tasks, D.Upholds (fun _ _ => True) p crew.store

/-- What one step keeps. The operations may be restricted, which is how a condition on the
steps of a run is stated. -/
theorem Step.disciplined (hsem : ∀ op s r s', sem op s r s' → D.sem op s r s')
    (hrefl : ∀ s, D.rely s s) (htrans : ∀ s t u, D.rely s t → D.rely t u → D.rely s u)
    (hguar : ∀ op s r s', D.inv s → D.allowed op s → D.sem op s r s' → D.rely s s')
    (hlaunch : ∀ s p, D.inv s → May s p → D.Upholds (fun _ _ => True) p s)
    (hstep : Step sem May crew crew') (h : crew.Disciplined D) : crew'.Disciplined D := by
  obtain ⟨hinv, htasks⟩ := h
  cases hstep with
  | @launch store tasks p hmay =>
    refine ⟨hinv, fun q hq => ?_⟩
    rcases List.mem_append.mp hq with hq | hq
    · exact htasks q hq
    · rw [List.mem_singleton.mp hq]
      exact hlaunch store p hinv hmay
  | @advance store store' before after op next r hop =>
    have hdone := hsem _ _ _ _ hop
    obtain ⟨hallowed, hnext⟩ := htasks (call op next) (by simp) store (hrefl store) hinv
    refine ⟨D.keeps hinv hallowed hdone, fun q hq => ?_⟩
    have hcases : q = next r ∨ q ∈ before ++ call op next :: after := by
      simp only [List.mem_append, List.mem_cons] at hq ⊢
      tauto
    rcases hcases with rfl | hq
    · exact hnext r store' hdone
    · exact (htasks q hq).of_rely htrans (fun _ h => h) (hguar op store r store' hinv hallowed hdone)

/-- A further invariant that allowed operations keep holds in every store reached. -/
theorem Reaches.invariant {J : σ → Prop} (hsem : ∀ op s r s', sem op s r s' → D.sem op s r s')
    (hrefl : ∀ s, D.rely s s) (htrans : ∀ s t u, D.rely s t → D.rely t u → D.rely s u)
    (hguar : ∀ op s r s', D.inv s → D.allowed op s → D.sem op s r s' → D.rely s s')
    (hlaunch : ∀ s p, D.inv s → May s p → D.Upholds (fun _ _ => True) p s)
    (hJ : ∀ op s r s', D.inv s → D.allowed op s → sem op s r s' → J s → J s')
    (hreach : Reaches sem May crew crew') (h : crew.Disciplined D) (hstart : J crew.store) :
    crew'.Disciplined D ∧ J crew'.store := by
  induction hreach with
  | refl => exact ⟨h, hstart⟩
  | tail _ hstep ih =>
    refine ⟨hstep.disciplined hsem hrefl htrans hguar hlaunch ih.1, ?_⟩
    cases hstep with
    | launch => exact ih.2
    | @advance store store' before after op next r hop =>
      have hallowed := (ih.1.2 (call op next) (by simp) store (hrefl store) ih.1.1).1
      exact hJ op store r store' ih.1.1 hallowed hop ih.2

section Alone
variable {run : (op : Op) → σ → Res op × σ} {good : Op → σ → Bool}

/-- Running alone, the first `n` operations of the program meet `good`. -/
def Meets (run : (op : Op) → σ → Res op × σ) (good : Op → σ → Bool) {α : Type} :
    Nat → Program Op Res ω α → σ → Bool
  | n + 1, call op next, s => good op s && Meets run good n (next (run op s).1) (run op s).2
  | _, _, _ => true

theorem meets_of_forall (h : ∀ op s, good op s = true) {α : Type} (n : Nat)
    (p : Program Op Res ω α) (s : σ) : Meets run good n p s = true := by
  induction p generalizing n s with
  | ret a => cases n <;> rfl
  | raise e => cases n <;> rfl
  | call op next ih =>
    cases n with
    | zero => rfl
    | succ n => rw [Meets, h, Bool.true_and, ih]

theorem Reaches.cut (hrun : ∀ op s, good op s = true → sem op s (run op s).1 (run op s).2) {n : Nat}
    {p : Program Op Res ω Unit} (before : List (Program Op Res ω Unit)) {s : σ}
    (hmeets : Meets run good n p s = true) :
    ∃ q, Reaches sem May ⟨s, before ++ [p]⟩
      ⟨p.cut (fun op s => .ok (run op s)) n s, before ++ [q]⟩ := by
  induction p generalizing n s with
  | ret a => exact ⟨_, by cases n <;> exact .refl⟩
  | raise e => exact ⟨_, by cases n <;> exact .refl⟩
  | call op next ih =>
    cases n with
    | zero => exact ⟨_, .refl⟩
    | succ n =>
      obtain ⟨hgood, hnext⟩ := Bool.and_eq_true_iff.mp hmeets
      obtain ⟨q, hq⟩ := ih (run op s).1 hnext
      exact ⟨q, .head (.advance (hrun op s hgood)) hq⟩

theorem Reaches.launch_cut (hrun : ∀ op s, good op s = true → sem op s (run op s).1 (run op s).2)
    {n : Nat} {p : Program Op Res ω Unit} {s : σ} {tasks : List (Program Op Res ω Unit)}
    (hmay : May s p) (hmeets : Meets run good n p s = true)
    (hreach : Reaches sem May crew ⟨s, tasks⟩) :
    ∃ tasks', Reaches sem May crew ⟨p.cut (fun op s => .ok (run op s)) n s, tasks'⟩ := by
  obtain ⟨q, hq⟩ := Reaches.cut hrun tasks hmeets
  exact ⟨_, (hreach.tail (.launch hmay)).trans hq⟩

end Alone

end Crew

end MiryFormal
