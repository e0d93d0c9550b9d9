import Mathlib.Algebra.Order.Group.Int
import Mathlib.Tactic.Common
import Mathlib.Tactic.Linarith
import Mathlib.Tactic.Ring

/-!
# Spaced times

Times that were recorded one after another, the latest first, each at least an interval behind the
one before it. Then no window of `n` intervals has more than `n` of them.
-/

namespace MiryFormal

set_option autoImplicit false

/-- The latest time comes first. -/
def Spaced (interval : Int) (times : List Int) : Prop :=
  times.Pairwise fun later earlier => earlier + interval ≤ later

namespace Spaced
variable {interval : Int} {times : List Int}

theorem nil : Spaced interval [] := List.Pairwise.nil

theorem cons {time : Int} (h : Spaced interval times) (hpos : 0 ≤ interval)
    (hhead : ∀ last ∈ times.head?, last + interval ≤ time) : Spaced interval (time :: times) := by
  refine List.pairwise_cons.mpr ⟨fun earlier hm => ?_, h⟩
  cases times with
  | nil => cases hm
  | cons last rest =>
    have hlast := hhead last rfl
    rcases List.mem_cons.mp hm with rfl | hm
    · exact hlast
    · have hbefore := (List.pairwise_cons.mp h).1 earlier hm
      omega

theorem filter (h : Spaced interval times) (p : Int → Bool) : Spaced interval (times.filter p) :=
  List.Pairwise.filter p h

/-- Spaced times that begin at `start` or later end all these intervals later. -/
theorem reach (h : Spaced interval times) {start : Int} (hstart : ∀ time ∈ times, start ≤ time) :
    ∀ last ∈ times.head?, start + (times.length - 1) * interval ≤ last := by
  induction times with
  | nil => exact nofun
  | cons last rest ih =>
    rintro _ ⟨⟩
    obtain ⟨hbefore, hrest⟩ := List.pairwise_cons.mp h
    have hreach := ih hrest fun time hm => hstart time (List.mem_cons_of_mem last hm)
    cases rest with
    | nil =>
      have hfirst := hstart last List.mem_cons_self
      simpa using hfirst
    | cons previous rest =>
      have hprevious := hreach previous rfl
      have hlast := hbefore previous List.mem_cons_self
      simp only [List.length_cons, Nat.cast_add, Nat.cast_one] at hprevious ⊢
      linarith

theorem window (h : Spaced interval times) (start : Int) (n : Nat) :
    (times.filter fun time => start ≤ time ∧ time < start + n * interval).length ≤ n := by
  have hwithin : ∀ time ∈ times.filter fun time => start ≤ time ∧ time < start + n * interval,
      start ≤ time ∧ time < start + n * interval := by
    intro time hm
    exact of_decide_eq_true (List.mem_filter.mp hm).2
  have hspaced := h.filter fun time => start ≤ time ∧ time < start + n * interval
  generalize (times.filter fun time => start ≤ time ∧ time < start + n * interval) = inside
    at hwithin hspaced ⊢
  have hreach := hspaced.reach fun time hm => (hwithin time hm).1
  cases inside with
  | nil => exact Nat.zero_le n
  | cons last rest =>
    have hle := hreach last rfl
    obtain ⟨hfrom, hlt⟩ := hwithin last List.mem_cons_self
    simp only [List.length_cons, Nat.cast_add, Nat.cast_one] at hle ⊢
    by_contra hmore
    have hcount : (n : Int) ≤ rest.length := by omega
    rcases le_or_gt 0 interval with hpos | hneg
    · have hmul := mul_le_mul_of_nonneg_right hcount hpos
      linarith
    · have hmul := mul_nonpos_of_nonneg_of_nonpos (Int.natCast_nonneg n) hneg.le
      linarith

end Spaced

end MiryFormal
