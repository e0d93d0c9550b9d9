import Mathlib

/-!
# Half-open integer intervals

A list of pairs `(start, stop)` stands for the integers in one of them. Merging the sorted
intervals from left to right counts these integers.
-/

namespace MiryFormal.Intervals

set_option autoImplicit false

def Covers (intervals : List (Int × Int)) (t : Int) : Prop :=
  ∃ i ∈ intervals, i.1 ≤ t ∧ t < i.2

instance (intervals : List (Int × Int)) (t : Int) : Decidable (Covers intervals t) :=
  inferInstanceAs (Decidable (∃ i ∈ intervals, i.1 ≤ t ∧ t < i.2))

theorem covers_append {first second : List (Int × Int)} {t : Int} :
    Covers (first ++ second) t ↔ Covers first t ∨ Covers second t := by
  unfold Covers
  simp only [List.mem_append, or_and_right, exists_or]

/-- The integers in one of the intervals. -/
def points (intervals : List (Int × Int)) : Finset Int :=
  intervals.foldr (fun i acc => @Finset.Ico Int Int.instLinearOrder.toPreorder _ i.1 i.2 ∪ acc) ∅

@[simp] theorem points_nil : points [] = ∅ := rfl

@[simp] theorem points_cons (i : Int × Int) (intervals : List (Int × Int)) :
    points (i :: intervals) = Finset.Ico i.1 i.2 ∪ points intervals := rfl

theorem mem_points {intervals : List (Int × Int)} {t : Int} :
    t ∈ points intervals ↔ Covers intervals t := by
  induction intervals with
  | nil => simp [Covers]
  | cons i intervals ih => simp [Covers, ih]

theorem points_perm {first second : List (Int × Int)} (h : first.Perm second) :
    points first = points second := by
  ext t
  simp only [mem_points, Covers, h.mem_iff]

/-- The parts inside a window. -/
def clip (startNs endNs : Int) (intervals : List (Int × Int)) : List (Int × Int) :=
  (intervals.filter fun i => max i.1 startNs < min i.2 endNs).map fun i =>
    (max i.1 startNs, min i.2 endNs)

theorem covers_clip {startNs endNs t : Int} {intervals : List (Int × Int)} :
    Covers (clip startNs endNs intervals) t ↔
      Covers intervals t ∧ startNs ≤ t ∧ t < endNs := by
  constructor
  · rintro ⟨i, hm, hle, hlt⟩
    obtain ⟨j, hj, rfl⟩ := List.mem_map.mp hm
    have hj' := List.mem_of_mem_filter hj
    simp only [max_le_iff, lt_min_iff] at hle hlt
    exact ⟨⟨j, hj', hle.1, hlt.1⟩, hle.2, hlt.2⟩
  · rintro ⟨⟨i, hm, hle, hlt⟩, hstart, hend⟩
    refine ⟨(max i.1 startNs, min i.2 endNs), List.mem_map.mpr ⟨i, ?_, rfl⟩, ?_, ?_⟩
    · refine List.mem_filter.mpr ⟨hm, ?_⟩
      have : max i.1 startNs ≤ t := max_le hle hstart
      have : t < min i.2 endNs := lt_min hlt hend
      simp only [decide_eq_true_eq]
      omega
    · exact max_le hle hstart
    · exact lt_min hlt hend

/-- The points inside a window are those of the window that are covered. -/
theorem points_clip (startNs endNs : Int) (intervals : List (Int × Int)) :
    points (clip startNs endNs intervals) =
      (Finset.Ico startNs endNs).filter (Covers intervals) := by
  ext t
  rw [mem_points, covers_clip, Finset.mem_filter, Finset.mem_Ico]
  exact and_comm

theorem clip_lt {startNs endNs : Int} {intervals : List (Int × Int)} {i : Int × Int}
    (hm : i ∈ clip startNs endNs intervals) : i.1 < i.2 := by
  obtain ⟨j, hj, rfl⟩ := List.mem_map.mp hm
  exact of_decide_eq_true (List.mem_filter.mp hj).2

/-- The sweep over intervals sorted by start: the length merged so far, with the current
merged interval. -/
def sweep : Int → Option (Int × Int) → List (Int × Int) → Int
  | total, none, [] => total
  | total, some (start, stop), [] => total + (stop - start)
  | total, none, i :: rest => sweep total (some i) rest
  | total, some (start, stop), i :: rest =>
      if i.1 ≤ stop then sweep total (some (start, max stop i.2)) rest
      else sweep (total + (stop - start)) (some i) rest

theorem sweep_some {total start stop : Int} {rest : List (Int × Int)} (hlt : start ≤ stop)
    (hfrom : ∀ i ∈ rest, start ≤ i.1) (hsorted : rest.Pairwise fun a b => a.1 ≤ b.1)
    (hproper : ∀ i ∈ rest, i.1 ≤ i.2) :
    sweep total (some (start, stop)) rest =
      total + ((Finset.Ico start stop ∪ points rest).card : Int) := by
  induction rest generalizing total start stop with
  | nil => simp [sweep, hlt]
  | cons i rest ih =>
    obtain ⟨hafter, hsorted⟩ := List.pairwise_cons.mp hsorted
    have hi := hfrom i List.mem_cons_self
    have hproper' : ∀ j ∈ rest, j.1 ≤ j.2 := fun j hj => hproper j (List.mem_cons_of_mem i hj)
    rw [points_cons, sweep]
    split
    · rename_i htouch
      have hmerge : Finset.Ico start stop ∪ Finset.Ico i.1 i.2 =
          Finset.Ico start (max stop i.2) := by
        ext t
        simp only [Finset.mem_union, Finset.mem_Ico]
        omega
      rw [ih (le_max_of_le_left hlt) (fun j hj => hfrom j (List.mem_cons_of_mem i hj)) hsorted
        hproper', ← Finset.union_assoc, hmerge]
    · rename_i hgap
      have hdisjoint : Disjoint (Finset.Ico start stop) (Finset.Ico i.1 i.2 ∪ points rest) := by
        refine Finset.disjoint_left.mpr fun t ht ht' => ?_
        rw [Finset.mem_Ico] at ht
        rcases Finset.mem_union.mp ht' with ht' | ht'
        · rw [Finset.mem_Ico] at ht'
          omega
        · obtain ⟨j, hj, hle, -⟩ := mem_points.mp ht'
          have := hafter j hj
          omega
      rw [ih (hproper i List.mem_cons_self) hafter hsorted hproper',
        Finset.card_union_of_disjoint hdisjoint, Int.card_Ico]
      omega

/-- The sweep counts the covered integers. -/
theorem sweep_eq_card {intervals : List (Int × Int)}
    (hsorted : intervals.Pairwise fun a b => a.1 ≤ b.1) (hproper : ∀ i ∈ intervals, i.1 ≤ i.2) :
    sweep 0 none intervals = ((points intervals).card : Int) := by
  cases intervals with
  | nil => rfl
  | cons i rest =>
    obtain ⟨hafter, hsorted⟩ := List.pairwise_cons.mp hsorted
    rw [sweep, sweep_some (hproper i List.mem_cons_self) hafter hsorted
      fun j hj => hproper j (List.mem_cons_of_mem i hj), zero_add, points_cons]

end MiryFormal.Intervals
