import Mathlib.Order.WithBot
import MiryFormal.Shared.Fallible
import MiryFormal.Shared.SignificantDigits

/-!
# The decimal context

What Python's `decimal` makes of the exact result of an operation: 28 digits, exponents from
-999999 to 999999, and an exception where a number is larger.
-/

namespace MiryFormal

set_option autoImplicit false

/-- A `Decimal` other than NaN. -/
abbrev DecimalNumber := WithBot (WithTop Rat)

/-- A number in the default context: 28 digits, and exponents from -999999 to 999999. -/
def contextRound (value : Rat) : Except String Rat :=
  let magnitude := roundDigits 10 28 (-1000026) |value|
  if 999999 < Int.log 10 magnitude then .error "decimal.Overflow"
  else .ok (if value < 0 then -magnitude else magnitude)

/-- `-value`, up to the sign; the infinities stay as they are. -/
def contextNumber : DecimalNumber → Except String DecimalNumber
  | some (some value) => (contextRound value).map fun number => WithBot.some (WithTop.some number)
  | infinity => .ok infinity

theorem contextNumber_coe (value : Rat) :
    contextNumber ((value : WithTop Rat) : DecimalNumber) =
      (contextRound value).map fun number => WithBot.some (WithTop.some number) := rfl

theorem contextRound_mono {x y rx ry : Rat} (h : x ≤ y) (hx : contextRound x = .ok rx)
    (hy : contextRound y = .ok ry) : rx ≤ ry := by
  have hmagnitude : ∀ q : Rat, 0 ≤ roundDigits 10 28 (-1000026) |q| :=
    fun q => roundDigits_nonneg (abs_nonneg q)
  unfold contextRound at hx hy
  dsimp only at hx hy
  split at hx
  · cases hx
  · split at hy
    · cases hy
    · cases hx
      cases hy
      split
      · rename_i hxneg
        split
        · rename_i hyneg
          apply neg_le_neg
          apply roundDigits_mono (by decide) (by decide) (abs_nonneg y)
          rw [abs_of_neg hxneg, abs_of_neg hyneg]
          exact neg_le_neg h
        · exact (neg_nonpos.mpr (hmagnitude x)).trans (hmagnitude y)
      · rename_i hxpos
        have hxnonneg := not_lt.mp hxpos
        rw [if_neg (not_lt.mpr (hxnonneg.trans h))]
        apply roundDigits_mono (by decide) (by decide) (abs_nonneg x)
        rwa [abs_of_nonneg hxnonneg, abs_of_nonneg (hxnonneg.trans h)]

/-- A number of at most 28 digits is not rounded. -/
theorem contextRound_of_digits {value : Rat} {count : Nat} {place : Int}
    (hcount : count < 10 ^ 28) (hlowest : -1000026 ≤ place) (hhighest : place ≤ 999972)
    (hvalue : |value| = count * (10 : Rat) ^ place) : contextRound value = .ok value := by
  have hexact : roundDigits 10 28 (-1000026) |value| = |value| :=
    roundDigits_of_digits (by decide) hcount hlowest hvalue
  have hlog : Int.log 10 |value| ≤ 999999 := by
    rcases (abs_nonneg value).eq_or_lt with hzero | hpositive
    · rw [← hzero, Int.log_zero_right]
      decide
    · have hbelow : |value| < ((10 : Nat) : Rat) ^ (28 + place) := by
        rw [hvalue, zpow_add₀ (by norm_num), Nat.cast_ofNat]
        apply mul_lt_mul_of_pos_right _ (zpow_pos (by norm_num) _)
        exact_mod_cast hcount
      have hless := (Int.lt_zpow_iff_log_lt (by decide) hpositive).mp hbelow
      omega
  unfold contextRound
  dsimp only
  rw [hexact, if_neg (not_lt.mpr hlog)]
  split
  · rename_i hneg
    rw [abs_of_neg hneg, neg_neg]
  · rename_i hpos
    rw [abs_of_nonneg (not_lt.mp hpos)]

theorem contextRound_digit {count : Nat} {place : Int} (hcount : count < 10)
    (hlowest : -1000026 ≤ place) (hhighest : place ≤ 999999) :
    contextRound (count * (10 : Rat) ^ place) = .ok (count * (10 : Rat) ^ place) := by
  have habs : |(count : Rat) * (10 : Rat) ^ place| = count * (10 : Rat) ^ place :=
    abs_of_nonneg (mul_nonneg (Nat.cast_nonneg count) (zpow_nonneg (by norm_num) place))
  by_cases hplace : place ≤ 999972
  · exact contextRound_of_digits (by omega) hlowest hplace habs
  · have hshift : (count : Rat) * (10 : Rat) ^ place =
        (count * 10 ^ 27 : Nat) * (10 : Rat) ^ (place - 27) := by
      rw [zpow_sub₀ (by norm_num)]
      push_cast
      field_simp
    exact contextRound_of_digits (by omega) (by omega) (by omega) (habs.trans hshift)

theorem contextNumber_ok {x rx : DecimalNumber} (h : contextNumber x = .ok rx) :
    (x = ⊥ ∧ rx = ⊥) ∨ (x = ⊤ ∧ rx = ⊤) ∨
      ∃ q r : Rat, x = ((q : WithTop Rat) : DecimalNumber) ∧ contextRound q = .ok r ∧
        rx = ((r : WithTop Rat) : DecimalNumber) := by
  unfold contextNumber at h
  split at h
  · rename_i q
    obtain ⟨r, hround, rfl⟩ := exists_of_map_ok h
    exact .inr (.inr ⟨q, r, rfl, hround, rfl⟩)
  · rename_i hinfinite
    cases h
    cases x with
    | none => exact .inl ⟨rfl, rfl⟩
    | some x =>
      cases x with
      | top => exact .inr (.inl ⟨rfl, rfl⟩)
      | coe q => exact absurd rfl (hinfinite q)

theorem contextNumber_mono {x y rx ry : DecimalNumber} (h : x ≤ y)
    (hx : contextNumber x = .ok rx) (hy : contextNumber y = .ok ry) : rx ≤ ry := by
  obtain ⟨-, rfl⟩ | ⟨rfl, rfl⟩ | ⟨q, r, rfl, hround, rfl⟩ := contextNumber_ok hx
  · exact bot_le
  · rw [top_le_iff] at h
    obtain ⟨rfl, -⟩ | ⟨-, rfl⟩ | ⟨q, r, rfl, -, -⟩ := contextNumber_ok hy
    · cases h
    · exact le_rfl
    · exact absurd (WithBot.coe_inj.mp h) WithTop.coe_ne_top
  · obtain ⟨rfl, -⟩ | ⟨-, rfl⟩ | ⟨q', r', rfl, hround', rfl⟩ := contextNumber_ok hy
    · exact absurd (le_bot_iff.mp h) WithBot.coe_ne_bot
    · exact le_top
    · rw [WithBot.coe_le_coe, WithTop.coe_le_coe] at h ⊢
      exact contextRound_mono h hround hround'

/-! ## Numbers that do not overflow -/

/-- An exception that is raised for an overflow, and never where the numbers are moderate. -/
def Overflows (moderate : Prop) (e : String) : Prop := e = "decimal.Overflow" ∧ ¬ moderate

/-- Zero, or a positive number between two bounds. -/
def InRange (low high value : Rat) : Prop := value = 0 ∨ low ≤ value ∧ value ≤ high

theorem ok_of_moderate {β : Type} {moderate : Prop} {P : β → Prop} {x : Except String β}
    (h : Outcome P (Overflows moderate) x) (hmoderate : moderate) : ∃ b, x = .ok b ∧ P b := by
  rcases outcome_iff.mp h with hok | ⟨e, -, -, hlarge⟩
  · exact hok
  · exact absurd hmoderate hlarge

theorem contextRound_error {value : Rat} {e : String} (h : contextRound value = .error e) :
    e = "decimal.Overflow" := by
  unfold contextRound at h
  dsimp only at h
  split at h
  · cases h
    rfl
  · cases h

theorem contextRound_total {value bound : Rat} (habs : |value| ≤ |bound|)
    (hbound : ∃ rounded, contextRound bound = .ok rounded) :
    ∃ rounded, contextRound value = .ok rounded := by
  obtain ⟨rounded, hbound⟩ := hbound
  unfold contextRound at hbound ⊢
  dsimp only at hbound ⊢
  split at hbound
  · cases hbound
  · rename_i hsmall
    have hmagnitude : roundDigits 10 28 (-1000026) |value| ≤ roundDigits 10 28 (-1000026) |bound| :=
      roundDigits_mono (by decide) (by decide) (abs_nonneg value) habs
    have hlog : Int.log 10 (roundDigits 10 28 (-1000026) |value|) ≤ 999999 := by
      rcases (roundDigits_nonneg (abs_nonneg value) :
        0 ≤ roundDigits 10 28 (-1000026) |value|).eq_or_lt with hzero | hpositive
      · rw [← hzero, Int.log_zero_right]
        decide
      · exact (Int.log_mono_right hpositive hmagnitude).trans (not_lt.mp hsmall)
    rw [if_neg (not_lt.mpr hlog)]
    exact ⟨_, rfl⟩

theorem contextRound_one : contextRound 1 = .ok 1 :=
  @contextRound_of_digits 1 1 0 (by decide) (by decide) (by decide) (by norm_num)

theorem contextRound_zero : contextRound 0 = .ok 0 :=
  @contextRound_of_digits 0 0 0 (by decide) (by decide) (by decide) (by norm_num)

/-- Bounds that the context leaves as they are bound what it makes of the numbers in between. -/
theorem contextRound_outcome {moderate : Prop} {low high value : Rat} (hpositive : 0 < low)
    (hlow : contextRound low = .ok low) (hhigh : contextRound high = .ok high)
    (h : moderate → InRange low high value) :
    Outcome (fun rounded => moderate → InRange low high rounded) (Overflows moderate)
      (contextRound value) := by
  by_cases hmoderate : moderate
  · cases h hmoderate with
    | inl hzero =>
      rw [hzero, contextRound_zero]
      exact fun _ => .inl rfl
    | inr hbetween =>
      have hnonneg := hpositive.le.trans hbetween.1
      obtain ⟨rounded, hrounded⟩ := @contextRound_total value high
        (by rw [abs_of_nonneg hnonneg, abs_of_nonneg (hnonneg.trans hbetween.2)]
            exact hbetween.2) ⟨high, hhigh⟩
      rw [hrounded]
      exact fun _ => .inr ⟨contextRound_mono hbetween.1 hlow hrounded,
        contextRound_mono hbetween.2 hrounded hhigh⟩
  · cases hrounded : contextRound value with
    | ok rounded => exact fun h => absurd h hmoderate
    | error e => exact ⟨contextRound_error hrounded, hmoderate⟩

/-- The largest power of ten of the context. -/
def largestPower : Rat := (10 : Rat) ^ (999999 : Int)

/-- A minus leaves moderate numbers in the context. -/
theorem contextNumber_outcome {moderate : Prop} {value : DecimalNumber}
    (h : moderate → ∀ number : Rat, value = ((number : WithTop Rat) : DecimalNumber) →
      |number| ≤ largestPower) :
    Outcome (fun _ => True) (Overflows moderate) (contextNumber value) := by
  induction value using WithBot.recBotCoe with
  | bot => trivial
  | coe value =>
    induction value using WithTop.recTopCoe with
    | top => trivial
    | coe number =>
      rw [contextNumber_coe]
      cases hround : contextRound number with
      | ok rounded => trivial
      | error e =>
        refine ⟨contextRound_error hround, fun hmoderate => ?_⟩
        have hpower := @contextRound_digit 1 999999 (by decide) (by decide) (by decide)
        rw [Nat.cast_one, one_mul] at hpower
        obtain ⟨rounded, hok⟩ := contextRound_total
          ((h hmoderate number rfl).trans (le_abs_self _)) ⟨_, hpower⟩
        rw [hround] at hok
        cases hok

end MiryFormal
