import Mathlib.Algebra.BigOperators.Group.List.Basic
import Mathlib.Algebra.Order.Field.Rat
import Mathlib.Algebra.Order.Ring.Nat
import Mathlib.Data.List.Basic
import Mathlib.Data.Nat.Cast.Order.Ring
import Mathlib.Tactic.FieldSimp
import Mathlib.Tactic.Linarith
import Mathlib.Tactic.Ring

/-!
# Assignment to the least loaded bin

Items with weights go into bins one after another, each into a bin that is least loaded at the
time. No bin is then heavier than another by more than the item it got last, and while a bin is
empty an empty one is chosen.
-/

namespace MiryFormal.LeastLoaded

set_option autoImplicit false

universe u

variable {α : Type u} (weight : α → Nat)

def load (bin : List α) : Nat := (bin.map weight).sum

/-- The weight of the last item of a bin. -/
def lastWeight (bin : List α) : Nat := (bin.getLast?.map weight).getD 0

/-- No bin is heavier than another by more than its last item. -/
def Balanced (bins : List (List α)) : Prop :=
  ∀ bin ∈ bins, ∀ other ∈ bins, load weight bin ≤ load weight other + lastWeight weight bin

/-- The bin at `index` is least loaded. -/
def Least (bins : List (List α)) (index : Nat) (bin : List α) : Prop :=
  bins[index]? = some bin ∧ ∀ other ∈ bins, load weight bin ≤ load weight other

variable {weight} {bins : List (List α)} {bin : List α} {index : Nat}

@[simp] theorem load_nil : load weight ([] : List α) = 0 := rfl

theorem load_append (a b : List α) : load weight (a ++ b) = load weight a + load weight b := by
  unfold load
  rw [List.map_append, List.sum_append]

@[simp] theorem load_snoc (bin : List α) (item : α) :
    load weight (bin ++ [item]) = load weight bin + weight item := by
  rw [load_append, load, load, List.map_singleton, List.sum_singleton]

@[simp] theorem lastWeight_snoc (bin : List α) (item : α) :
    lastWeight weight (bin ++ [item]) = weight item := by
  unfold lastWeight
  rw [List.getLast?_append, List.getLast?_singleton]
  rfl

theorem balanced_replicate (count : Nat) : Balanced weight (List.replicate count []) := by
  intro bin hbin other _
  rw [List.eq_of_mem_replicate hbin, load_nil]
  exact Nat.zero_le _

theorem mem_of_mem_set {other new : List α} (h : other ∈ bins.set index new) :
    other ∈ bins ∨ other = new := List.mem_or_eq_of_mem_set h

theorem Balanced.assign (h : Balanced weight bins) (hleast : Least weight bins index bin)
    (item : α) : Balanced weight (bins.set index (bin ++ [item])) := by
  obtain ⟨hget, hle⟩ := hleast
  have hmem := List.mem_of_getElem? hget
  intro heavy hheavy other hother
  have hlower : ∃ before ∈ bins, load weight before ≤ load weight other := by
    cases mem_of_mem_set hother with
    | inl hother => exact ⟨other, hother, Nat.le_refl _⟩
    | inr hother =>
      refine ⟨bin, hmem, ?_⟩
      rw [hother, load_snoc]
      exact Nat.le_add_right _ _
  obtain ⟨before, hbefore, hgrown⟩ := hlower
  cases mem_of_mem_set hheavy with
  | inl hheavy =>
    have := h heavy hheavy before hbefore
    omega
  | inr hheavy =>
    have := hle before hbefore
    rw [hheavy, load_snoc, lastWeight_snoc]
    omega

/-- How many bins are empty. -/
def emptyCount (bins : List (List α)) : Nat := bins.countP List.isEmpty

theorem load_eq_zero (hpositive : ∀ item ∈ bin, 0 < weight item) (h : load weight bin = 0) :
    bin = [] := by
  cases bin with
  | nil => rfl
  | cons item bin =>
    have := hpositive item List.mem_cons_self
    unfold load at h
    rw [List.map_cons, List.sum_cons] at h
    omega

theorem emptyCount_assign (hpositive : ∀ bin ∈ bins, ∀ item ∈ bin, 0 < weight item)
    (hleast : Least weight bins index bin) (item : α) :
    emptyCount (bins.set index (bin ++ [item])) = emptyCount bins - 1 := by
  obtain ⟨hget, hle⟩ := hleast
  obtain ⟨hlt, hat⟩ := List.getElem?_eq_some_iff.mp hget
  unfold emptyCount
  rw [List.countP_set hlt]
  have hnew : List.isEmpty (bin ++ [item]) = false := by
    cases bin <;> rfl
  rw [hat, hnew]
  by_cases hbin : bin = []
  · subst hbin
    rfl
  · -- no bin is empty, for an empty one would be lighter
    have hnone : bins.countP List.isEmpty = 0 := by
      rw [List.countP_eq_zero]
      intro other hother hempty
      apply hbin
      apply load_eq_zero (hpositive bin (List.mem_of_getElem? hget))
      have hnil : other = [] := List.isEmpty_iff.mp hempty
      have := hle other hother
      rw [hnil, load_nil] at this
      omega
    rw [hnone]
    split <;> rfl

theorem mul_le_load {heavy slack : Nat} (h : ∀ bin ∈ bins, heavy ≤ load weight bin + slack) :
    bins.length * heavy ≤ load weight bins.flatten + bins.length * slack := by
  induction bins with
  | nil => simp
  | cons bin bins ih =>
    have hfirst := h bin List.mem_cons_self
    have hrest := ih fun other hother => h other (List.mem_cons_of_mem _ hother)
    rw [List.flatten_cons, load_append, List.length_cons, Nat.succ_mul, Nat.succ_mul]
    omega

/-- A bin and the others. -/
theorem Balanced.mul_load_le (h : Balanced weight bins) (hbin : bin ∈ bins) :
    bins.length * load weight bin ≤
      load weight bins.flatten + (bins.length - 1) * lastWeight weight bin := by
  obtain ⟨before, after, rfl⟩ := List.append_of_mem hbin
  have hothers : ∀ other ∈ before ++ after,
      load weight bin ≤ load weight other + lastWeight weight bin := by
    intro other hother
    apply h bin hbin
    cases List.mem_append.mp hother with
    | inl hother => exact List.mem_append_left _ hother
    | inr hother => exact List.mem_append_right _ (List.mem_cons_of_mem _ hother)
  have hmany := mul_le_load hothers
  rw [List.flatten_append, load_append, List.length_append] at hmany
  rw [List.flatten_append, load_append, List.flatten_cons, load_append, List.length_append,
    List.length_cons, show before.length + (after.length + 1) - 1 = before.length + after.length by
      omega, show before.length + (after.length + 1) = before.length + after.length + 1 by omega,
    Nat.succ_mul]
  omega

/-- Every bin is at most the mean, and all of the largest item but its share. -/
theorem Balanced.load_le (h : Balanced weight bins) (hbin : bin ∈ bins) {largest : Nat}
    (hlargest : ∀ item ∈ bins.flatten, weight item ≤ largest) :
    (load weight bin : Rat) ≤
      load weight bins.flatten / bins.length + (1 - 1 / bins.length) * largest := by
  have hlast : lastWeight weight bin ≤ largest := by
    unfold lastWeight
    cases hitem : bin.getLast? with
    | none => exact Nat.zero_le _
    | some item =>
      exact hlargest item (List.mem_flatten_of_mem hbin (List.mem_of_getLast? hitem))
  have hlength : 0 < bins.length := List.length_pos_of_mem hbin
  have hnat : bins.length * load weight bin ≤
      load weight bins.flatten + (bins.length - 1) * largest :=
    (h.mul_load_le hbin).trans (Nat.add_le_add_left (Nat.mul_le_mul_left _ hlast) _)
  have hrat : (bins.length : Rat) * load weight bin ≤
      load weight bins.flatten + ((bins.length : Rat) - 1) * largest := by
    have hcast := Nat.cast_le (α := Rat) |>.mpr hnat
    rw [Nat.cast_mul, Nat.cast_add, Nat.cast_mul, Nat.cast_sub hlength, Nat.cast_one] at hcast
    exact hcast
  have hpos : (0 : Rat) < bins.length := Nat.cast_pos.mpr hlength
  have hsplit : (load weight bins.flatten : Rat) / bins.length + (1 - 1 / bins.length) * largest =
      (load weight bins.flatten + ((bins.length : Rat) - 1) * largest) / bins.length := by
    field_simp
  rw [hsplit, le_div_iff₀ hpos, mul_comm]
  exact hrat

end MiryFormal.LeastLoaded
