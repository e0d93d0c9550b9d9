import Mathlib.Data.Int.Log
import Mathlib.Data.Rat.Floor
import Mathlib.Algebra.Order.Field.Power
import Mathlib.Tactic.Linarith

/-!
# Rounding to significant digits

A positive number is written with so many digits of a base, and with none below a lowest place.
The last digit is rounded half to even.
-/

namespace MiryFormal

set_option autoImplicit false

def roundHalfEven (q : Rat) : Int :=
  if q - ⌊q⌋ < 1 / 2 then ⌊q⌋
  else if 1 / 2 < q - ⌊q⌋ then ⌊q⌋ + 1
  else if ⌊q⌋ % 2 = 0 then ⌊q⌋
  else ⌊q⌋ + 1

theorem floor_le_roundHalfEven (q : Rat) : ⌊q⌋ ≤ roundHalfEven q := by
  unfold roundHalfEven
  split_ifs <;> omega

theorem roundHalfEven_le_floor_add_one (q : Rat) : roundHalfEven q ≤ ⌊q⌋ + 1 := by
  unfold roundHalfEven
  split_ifs <;> omega

theorem roundHalfEven_mono {x y : Rat} (h : x ≤ y) : roundHalfEven x ≤ roundHalfEven y := by
  have hfloor := Int.floor_le_floor h
  by_cases hsame : ⌊x⌋ = ⌊y⌋
  · have hfraction : x - ⌊x⌋ ≤ y - ⌊y⌋ := by
      rw [hsame]
      linarith
    unfold roundHalfEven
    rw [hsame] at hfraction ⊢
    split_ifs <;> first | omega | linarith
  · calc
      roundHalfEven x ≤ ⌊x⌋ + 1 := roundHalfEven_le_floor_add_one x
      _ ≤ ⌊y⌋ := by omega
      _ ≤ roundHalfEven y := floor_le_roundHalfEven y

theorem roundHalfEven_intCast (n : Int) : roundHalfEven n = n := by
  unfold roundHalfEven
  rw [Int.floor_intCast, sub_self]
  exact if_pos one_half_pos

variable {b digits : Nat} {lowest : Int} {x y : Rat}

/-- The place of the last digit that is kept. -/
def lastPlace (b digits : Nat) (lowest : Int) (x : Rat) : Int :=
  max (Int.log b x - digits + 1) lowest

def roundDigits (b digits : Nat) (lowest : Int) (x : Rat) : Rat :=
  roundHalfEven (x / (b : Rat) ^ lastPlace b digits lowest x) *
    (b : Rat) ^ lastPlace b digits lowest x

theorem zpow_eq_mul (hb : 1 < b) {place top : Int} (h : place ≤ top) :
    (b : Rat) ^ top = ((b ^ (top - place).toNat : Nat) : Int) * (b : Rat) ^ place := by
  have hne : (b : Rat) ≠ 0 := by
    apply Nat.cast_ne_zero.mpr
    omega
  rw [Int.cast_natCast, Nat.cast_pow, ← zpow_natCast, Int.toNat_of_nonneg (by omega),
    ← zpow_add₀ hne, sub_add_cancel]

theorem zpow_base_pos (hb : 1 < b) (place : Int) : (0 : Rat) < (b : Rat) ^ place := by
  apply zpow_pos
  exact_mod_cast Nat.lt_trans Nat.zero_lt_one hb

/-- A multiple of a power of the base bounds what it bounds before the rounding. -/
theorem roundDigits_le (hb : 1 < b) {top : Int} (hplace : lastPlace b digits lowest x ≤ top)
    (hx : x ≤ (b : Rat) ^ top) : roundDigits b digits lowest x ≤ (b : Rat) ^ top := by
  have hpos := zpow_base_pos hb (lastPlace b digits lowest x)
  rw [zpow_eq_mul hb hplace] at hx ⊢
  unfold roundDigits
  apply mul_le_mul_of_nonneg_right _ hpos.le
  rw [Int.cast_le]
  refine le_of_le_of_eq (roundHalfEven_mono ?_) (roundHalfEven_intCast _)
  rwa [div_le_iff₀ hpos]

theorem le_roundDigits (hb : 1 < b) {top : Int} (hplace : lastPlace b digits lowest x ≤ top)
    (hx : (b : Rat) ^ top ≤ x) : (b : Rat) ^ top ≤ roundDigits b digits lowest x := by
  have hpos := zpow_base_pos hb (lastPlace b digits lowest x)
  rw [zpow_eq_mul hb hplace] at hx ⊢
  unfold roundDigits
  apply mul_le_mul_of_nonneg_right _ hpos.le
  rw [Int.cast_le]
  refine le_of_eq_of_le (roundHalfEven_intCast _).symm (roundHalfEven_mono ?_)
  rwa [le_div_iff₀ hpos]

theorem roundDigits_zero : roundDigits b digits lowest 0 = 0 := by
  unfold roundDigits
  rw [zero_div, ← Int.cast_zero, roundHalfEven_intCast, Int.cast_zero, zero_mul]

theorem roundDigits_nonneg (hx : 0 ≤ x) : 0 ≤ roundDigits b digits lowest x := by
  have hpos : (0 : Rat) ≤ (b : Rat) ^ lastPlace b digits lowest x := zpow_nonneg b.cast_nonneg _
  apply mul_nonneg _ hpos
  rw [Int.cast_nonneg_iff]
  refine le_of_eq_of_le (roundHalfEven_intCast 0).symm (roundHalfEven_mono ?_)
  rw [Int.cast_zero]
  exact div_nonneg hx hpos

/-- The rounding keeps the order. A number of more digits is not below the power of the base at
which they begin, and one of fewer digits not above it. -/
theorem roundDigits_mono (hb : 1 < b) (hdigits : 0 < digits) (hx : 0 ≤ x) (h : x ≤ y) :
    roundDigits b digits lowest x ≤ roundDigits b digits lowest y := by
  rcases hx.eq_or_lt with hzero | hpositive
  · rw [← hzero, roundDigits_zero]
    exact roundDigits_nonneg (hx.trans h)
  · have hlog := Int.log_mono_right (b := b) hpositive h
    by_cases hplace : lastPlace b digits lowest x = lastPlace b digits lowest y
    · have hpos : (0 : Rat) ≤ (b : Rat) ^ lastPlace b digits lowest y :=
        zpow_nonneg b.cast_nonneg _
      unfold roundDigits
      rw [hplace]
      apply mul_le_mul_of_nonneg_right _ hpos
      rw [Int.cast_le]
      exact roundHalfEven_mono (div_le_div_of_nonneg_right h hpos)
    · have hbelow : Int.log b x < Int.log b y ∧ lastPlace b digits lowest x ≤ Int.log b y ∧
          lastPlace b digits lowest y ≤ Int.log b y := by
        unfold lastPlace at hplace ⊢
        omega
      obtain ⟨hless, hlower, hupper⟩ := hbelow
      have hupto : x ≤ (b : Rat) ^ Int.log b y := by
        apply (Int.lt_zpow_succ_log_self hb x).le.trans
        exact zpow_le_zpow_right₀ (by exact_mod_cast hb.le) hless
      calc
        roundDigits b digits lowest x ≤ (b : Rat) ^ Int.log b y := roundDigits_le hb hlower hupto
        _ ≤ roundDigits b digits lowest y :=
          le_roundDigits hb hupper (Int.zpow_log_le_self hb (hpositive.trans_le h))

/-- What has no more digits than are kept stays as it is. -/
theorem roundDigits_of_digits (hb : 1 < b) {count : Nat} {place : Int} (hcount : count < b ^ digits)
    (hplace : lowest ≤ place) (hx : x = count * (b : Rat) ^ place) :
    roundDigits b digits lowest x = x := by
  rcases Nat.eq_zero_or_pos count with hzero | hpositive
  · rw [hx, hzero, Nat.cast_zero, zero_mul, roundDigits_zero]
  · have hbpos : (0 : Rat) < b := by exact_mod_cast Nat.lt_trans Nat.zero_lt_one hb
    have hlast : lastPlace b digits lowest x ≤ place := by
      have hlog : Int.log b x < digits + place := by
        rw [← Int.lt_zpow_iff_log_lt hb (by rw [hx]; positivity), hx, zpow_add₀ hbpos.ne',
          zpow_natCast]
        apply mul_lt_mul_of_pos_right _ (zpow_pos hbpos _)
        exact_mod_cast hcount
      unfold lastPlace
      omega
    have hmultiple : x / (b : Rat) ^ lastPlace b digits lowest x =
        ((count * b ^ (place - lastPlace b digits lowest x).toNat : Nat) : Int) := by
      rw [div_eq_iff (zpow_pos hbpos _).ne']
      nth_rewrite 1 [hx]
      rw [zpow_eq_mul hb hlast]
      push_cast
      ring
    unfold roundDigits
    rw [hmultiple, roundHalfEven_intCast, ← hmultiple, div_mul_cancel₀ _ (zpow_pos hbpos _).ne']

end MiryFormal
