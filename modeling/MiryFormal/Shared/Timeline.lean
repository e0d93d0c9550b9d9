import Mathlib

/-!
# States over time

Items with time stamps are handled in order by a function that may raise. The state at an
instant is what the items up to it leave. An invariant may speak about the states at
earlier instants: it has to survive both an item and the time that passes between items.
-/

namespace MiryFormal

set_option autoImplicit false

universe u v w

variable {τ : Type*} {σ : Type u} {ι : Type v} {ω : Type w} [LinearOrder τ] {time : ι → τ}
  {f : σ → ι → Except ω σ}

/-- The state after every item whose time is at most `t`. -/
def stateAt (time : ι → τ) (f : σ → ι → Except ω σ) (s : σ) (items : List ι) (t : τ) :
    Except ω σ :=
  (items.takeWhile fun item => time item ≤ t).foldlM f s

theorem takeWhile_eq_filter {items : List ι} (h : items.Pairwise fun a b => time a ≤ time b)
    (t : τ) :
    items.takeWhile (fun item => time item ≤ t) = items.filter fun item => time item ≤ t := by
  induction items with
  | nil => rfl
  | cons item items ih =>
    obtain ⟨hafter, h⟩ := List.pairwise_cons.mp h
    by_cases ht : time item ≤ t
    · simp [ht, ih h]
    · have hnone : items.filter (fun item => time item ≤ t) = [] := by
        refine List.filter_eq_nil_iff.mpr fun later hm hle => ht ?_
        exact (hafter later hm).trans (of_decide_eq_true hle)
      simp [ht, hnone]

theorem lt_of_mem_dropWhile {items : List ι} (h : items.Pairwise fun a b => time a ≤ time b)
    {t : τ} {item : ι} (hm : item ∈ items.dropWhile fun item => time item ≤ t) :
    t < time item := by
  induction items with
  | nil => simp at hm
  | cons first items ih =>
    obtain ⟨hafter, h⟩ := List.pairwise_cons.mp h
    by_cases ht : time first ≤ t
    · rw [List.dropWhile_cons_of_pos (by simpa using ht)] at hm
      exact ih h hm
    · rw [List.dropWhile_cons_of_neg (by simpa using ht)] at hm
      rcases List.mem_cons.mp hm with rfl | hm
      · exact not_le.mp ht
      · exact (not_le.mp ht).trans_le (hafter item hm)

section Prefixes
variable {done upcoming : List ι} {t : τ}

theorem takeWhile_between (hdone : ∀ item ∈ done, time item ≤ t)
    (hnext : ∀ item ∈ upcoming, t < time item) :
    (done ++ upcoming).takeWhile (fun item => time item ≤ t) = done := by
  rw [List.takeWhile_append_of_pos (by simpa using hdone)]
  cases upcoming with
  | nil => simp
  | cons item upcoming =>
    rw [List.takeWhile_cons_of_neg (by simpa using hnext item List.mem_cons_self),
      List.append_nil]

/-- Between the last item of `done` and the first one of `upcoming` the state stands still. -/
theorem stateAt_between {s₀ s : σ} (hs : done.foldlM f s₀ = .ok s)
    (hdone : ∀ item ∈ done, time item ≤ t) (hnext : ∀ item ∈ upcoming, t < time item) :
    stateAt time f s₀ (done ++ upcoming) t = .ok s := by
  rw [stateAt, takeWhile_between hdone hnext, hs]

end Prefixes

theorem foldlM_concat {s₀ s s' : σ} {done : List ι} {item : ι}
    (hs : done.foldlM f s₀ = .ok s) (hf : f s item = .ok s') :
    (done ++ [item]).foldlM f s₀ = .ok s' := by
  rw [List.foldlM_append, hs]
  change ([item].foldlM f s) = .ok s'
  rw [List.foldlM_cons, hf]
  rfl

section Invariant
variable {s₀ : σ} {items : List ι} (time : ι → τ) (Inv : τ → σ → Prop)
  (hsorted : items.Pairwise fun a b => time a ≤ time b)
  (wait : ∀ {now later s}, now ≤ later → Inv now s →
    (∀ t, now ≤ t → t < later → stateAt time f s₀ items t = .ok s) → Inv later s)
  (step : ∀ {done item rest s}, items = done ++ item :: rest → done.foldlM f s₀ = .ok s →
    Inv (time item) s → ∃ s', f s item = .ok s' ∧ Inv (time item) s')
include hsorted wait step

/-- The invariant is carried from the state after `done`, at `now`, over the items `mid`. -/
theorem timeline_between (done mid upcoming : List ι) {s : σ} {now later : τ}
    (hitems : items = done ++ mid ++ upcoming) (hs : done.foldlM f s₀ = .ok s)
    (hdone : ∀ item ∈ done, time item ≤ now)
    (hmid : ∀ item ∈ mid, now ≤ time item ∧ time item ≤ later)
    (hnext : ∀ item ∈ upcoming, later ≤ time item) (hle : now ≤ later) (hinv : Inv now s) :
    ∃ s', (done ++ mid).foldlM f s₀ = .ok s' ∧ Inv later s' := by
  induction mid generalizing done s now with
  | nil =>
    rw [List.append_nil] at hitems ⊢
    refine ⟨s, hs, wait hle hinv fun t ht hlt => ?_⟩
    rw [hitems]
    exact stateAt_between hs (fun item hm => (hdone item hm).trans ht)
      fun item hm => hlt.trans_le (hnext item hm)
  | cons item mid ih =>
    have hsplit : items = done ++ item :: (mid ++ upcoming) := by simp [hitems]
    obtain ⟨hnow, hlater⟩ := hmid item List.mem_cons_self
    have hafter : ∀ next ∈ mid ++ upcoming, time item ≤ time next := by
      rw [hsplit] at hsorted
      exact (List.pairwise_cons.mp (List.pairwise_append.mp hsorted).2.1).1
    have hwait : Inv (time item) s := by
      refine wait hnow hinv fun t ht hlt => ?_
      rw [hsplit]
      refine stateAt_between hs (fun earlier hm => (hdone earlier hm).trans ht) fun next hm => ?_
      rcases List.mem_cons.mp hm with rfl | hm
      exacts [hlt, hlt.trans_le (hafter next hm)]
    obtain ⟨s', hf, hinv'⟩ := step hsplit hs hwait
    have hdone' : ∀ earlier ∈ done ++ [item], time earlier ≤ time item := by
      intro earlier hm
      rcases List.mem_append.mp hm with hm | hm
      · exact (hdone earlier hm).trans hnow
      · exact (congrArg time (List.mem_singleton.mp hm)).le
    have hmid' : ∀ next ∈ mid, time item ≤ time next ∧ time next ≤ later := fun next hm =>
      ⟨hafter next (List.mem_append_left _ hm), (hmid next (List.mem_cons_of_mem _ hm)).2⟩
    simpa using ih (done ++ [item]) (by simp [hitems]) (foldlM_concat hs hf) hdone'
      hmid' hlater hinv'

/-- What holds at the start and survives items and the time between them holds at the stop. -/
theorem timeline_invariant {start stop : τ} (hinside : ∀ item ∈ items,
    start ≤ time item ∧ time item ≤ stop) (hle : start ≤ stop) (hinv : Inv start s₀) :
    ∃ s, items.foldlM f s₀ = .ok s ∧ Inv stop s := by
  simpa using timeline_between time Inv hsorted wait step [] items []
    (by simp) rfl (by simp) hinside (by simp) hle hinv

theorem timeline_before {start : τ} (hinside : ∀ item ∈ items, start ≤ time item)
    (hinv : Inv start s₀) {done rest : List ι} {item : ι} (hitems : items = done ++ item :: rest) :
    ∃ s, done.foldlM f s₀ = .ok s ∧ Inv (time item) s := by
  have hsplit := List.pairwise_append.mp (hitems ▸ hsorted)
  refine timeline_between time Inv hsorted wait step [] done (item :: rest)
    (by simpa using hitems) rfl (by simp) (fun earlier hm => ⟨hinside earlier ?_, ?_⟩) ?_
    (hinside item (by simp [hitems])) hinv
  · simp [hitems, hm]
  · exact hsplit.2.2 earlier hm item List.mem_cons_self
  · intro next hm
    rcases List.mem_cons.mp hm with rfl | hm
    · exact le_rfl
    · exact (List.pairwise_cons.mp hsplit.2.1).1 next hm

end Invariant

end MiryFormal
