import Mathlib.Order.Basic
import Mathlib.Order.Lattice
import Mathlib.Tactic.Common

/-!
# A flag with two thresholds

The flag is set when a rising level reaches `high` and cleared when a falling level reaches
`low`. It tells which of the two crossings was the last one.
-/

namespace MiryFormal

set_option autoImplicit false

universe u

structure Hysteresis (α : Type u) [LinearOrder α] where
  low : α
  high : α
  low_le_high : low ≤ high

inductive Crossing where
  | upward
  | downward
  deriving DecidableEq

namespace Hysteresis
variable {α : Type u} [LinearOrder α] (bounds : Hysteresis α)

/-- The flag after the level has risen to `level`. -/
def rise (flag : Bool) (level : α) : Bool := flag || decide (bounds.high ≤ level)

/-- The flag after the level has fallen to `level`. -/
def fall (flag : Bool) (level : α) : Bool := flag && !decide (level ≤ bounds.low)

/-- The threshold that a move from `before` to `after` crosses in its own direction. -/
def crossing (before after : α) : Option Crossing :=
  if before < after ∧ before ≤ bounds.high ∧ bounds.high ≤ after then some .upward
  else if after < before ∧ after ≤ bounds.low ∧ bounds.low ≤ before then some .downward
  else none

/-- The last crossing in a history of levels, the latest level first. -/
def lastCrossing : List α → Option Crossing
  | after :: before :: history =>
      (bounds.crossing before after).or (lastCrossing (before :: history))
  | _ => none

variable {bounds}

theorem crossing_of_lt {before after : α} (hlt : before < after) :
    bounds.crossing before after =
      if before ≤ bounds.high ∧ bounds.high ≤ after then some .upward else none := by
  unfold crossing
  rw [if_neg (c := after < before ∧ _) fun h => lt_asymm h.1 hlt]
  by_cases h : before ≤ bounds.high ∧ bounds.high ≤ after
  · rw [if_pos ⟨hlt, h⟩, if_pos h]
  · rw [if_neg fun hcross => h hcross.2, if_neg h]

theorem crossing_of_gt {before after : α} (hlt : after < before) :
    bounds.crossing before after =
      if after ≤ bounds.low ∧ bounds.low ≤ before then some .downward else none := by
  unfold crossing
  rw [if_neg fun h => lt_asymm h.1 hlt]
  by_cases h : after ≤ bounds.low ∧ bounds.low ≤ before
  · rw [if_pos ⟨hlt, h⟩, if_pos h]
  · rw [if_neg fun hcross => h hcross.2, if_neg h]

variable (bounds) in
/-- A flag that was kept by `rise` and `fall` along the history. -/
structure Follows (flag : Bool) (level : α) (history : List α) : Prop where
  flag_iff : flag = true ↔ bounds.lastCrossing (level :: history) = some .upward
  set : flag = true → bounds.low ≤ level
  clear : flag = false → level ≤ bounds.high

variable {flag : Bool} {level : α} {history : List α}

/-- Before anything was crossed. -/
theorem follows_start (h : level ≤ bounds.high) : bounds.Follows false level [] where
  flag_iff := ⟨nofun, nofun⟩
  set := nofun
  clear := fun _ => h

theorem Follows.rise (h : bounds.Follows flag level history) {after : α} (hlt : level < after) :
    bounds.Follows (bounds.rise flag after) after (level :: history) := by
  unfold Hysteresis.rise
  cases flag with
  | true =>
    have hlow := h.set rfl
    refine ⟨?_, fun _ => hlow.trans hlt.le, nofun⟩
    rw [lastCrossing, crossing_of_lt hlt, h.flag_iff.mp rfl]
    split <;> exact ⟨fun _ => rfl, fun _ => rfl⟩
  | false =>
    have hhigh := h.clear rfl
    rw [Bool.false_or]
    by_cases hreach : bounds.high ≤ after
    · refine ⟨?_, fun _ => bounds.low_le_high.trans hreach, ?_⟩
      · rw [lastCrossing, crossing_of_lt hlt, if_pos ⟨hhigh, hreach⟩, decide_eq_true hreach]
        exact ⟨fun _ => rfl, fun _ => rfl⟩
      · rw [decide_eq_true hreach]
        nofun
    · have hlast := h.flag_iff
      refine ⟨?_, ?_, fun _ => (not_le.mp hreach).le⟩
      · rw [lastCrossing, crossing_of_lt hlt, if_neg fun hcross => hreach hcross.2,
          Option.none_or, decide_eq_false hreach]
        exact hlast
      · rw [decide_eq_false hreach]
        nofun

theorem Follows.fall (h : bounds.Follows flag level history) {after : α} (hlt : after < level) :
    bounds.Follows (bounds.fall flag after) after (level :: history) := by
  unfold Hysteresis.fall
  cases flag with
  | true =>
    have hlow := h.set rfl
    rw [Bool.true_and]
    by_cases hreach : after ≤ bounds.low
    · rw [decide_eq_true hreach]
      refine ⟨?_, nofun, fun _ => hreach.trans bounds.low_le_high⟩
      rw [lastCrossing, crossing_of_gt hlt, if_pos ⟨hreach, hlow⟩]
      exact ⟨nofun, nofun⟩
    · rw [decide_eq_false hreach]
      refine ⟨?_, fun _ => (not_le.mp hreach).le, nofun⟩
      rw [lastCrossing, crossing_of_gt hlt, if_neg fun hcross => hreach hcross.1, Option.none_or]
      exact h.flag_iff
  | false =>
    have hhigh := h.clear rfl
    refine ⟨?_, nofun, fun _ => hlt.le.trans hhigh⟩
    rw [Bool.false_and, lastCrossing, crossing_of_gt hlt]
    split
    · exact ⟨nofun, nofun⟩
    · rw [Option.none_or]
      exact h.flag_iff

end Hysteresis

end MiryFormal
