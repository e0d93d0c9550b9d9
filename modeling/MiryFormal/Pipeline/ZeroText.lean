import MiryFormal.Pipeline.CheckpointText
import MiryFormal.Pipeline.ConnectionBook

/-!
# Zero quantities

`_is_zero` looks at the characters of a quantity and not at its number. `_level_decimal` writes
quantities as `str` of a decimal, and on these texts the test is exact: a level is removed from a
book when its quantity is zero and at no other time.
-/

namespace MiryFormal

set_option autoImplicit false

/-- What `Decimal(text)` gives. -/
inductive ParsedDecimal where
  | finite (value : Numeral)
  | infinite (negative : Bool)
  | nan

/-- `_level_decimal`; `decimalOf` is `Decimal(str(raw))` and gives nothing for an
`InvalidOperation`. -/
def levelDecimal (decimalOf : String → Option ParsedDecimal) (raw label : String)
    (allowZero allowNegative : Bool) : Except String String :=
  match decimalOf raw with
  | none => .error (label ++ " must be a decimal")
  | some (.infinite _) | some .nan => .error (label ++ " must be finite")
  | some (.finite value) =>
      -- minus zero is not below zero
      if value.negative = true ∧ value.value ≠ ⟨0, 0⟩ ∧ allowNegative = false then
        .error (label ++ " cannot be negative")
      else if value.value = ⟨0, 0⟩ ∧ allowZero = false then
        .error (label ++ " must be positive")
      else .ok (String.ofList value.text)

/-! ## The test -/

theorem ofDigits_eq_zero {negative : Bool} {ds : List Nat} {exponent : Int} :
    Decimal.ofDigits negative ds exponent = ⟨0, 0⟩ ↔ ∀ d ∈ ds, d = 0 := by
  induction ds generalizing exponent with
  | nil => exact ⟨fun _ _ hm => absurd hm List.not_mem_nil, fun _ => rfl⟩
  | cons d ds ih =>
    cases d with
    | zero =>
      rw [Decimal.ofDigits, ih]
      constructor
      · intro h d hm
        cases List.mem_cons.mp hm with
        | inl hd => exact hd
        | inr hm => exact h d hm
      · exact fun h d hm => h d (List.mem_cons_of_mem _ hm)
    | succ d =>
      have hpositive : 0 < Nat.ofDigits 10 ((d + 1) :: ds) := by
        rw [Nat.ofDigits_cons]
        omega
      constructor
      · intro h
        rw [Decimal.ofDigits_succ] at h
        have hcoefficient := congrArg Decimal.coefficient h
        dsimp only at hcoefficient
        cases negative with
        | true =>
          simp only [if_true] at hcoefficient
          omega
        | false =>
          simp only [Bool.false_eq_true, if_false] at hcoefficient
          omega
      · intro h
        exact absurd (h (d + 1) List.mem_cons_self) (Nat.succ_ne_zero d)

namespace Numeral

variable {n : Numeral}

theorem value_eq_zero : n.value = ⟨0, 0⟩ ↔ ∀ d ∈ n.digits, d = 0 := by
  unfold value
  rw [ofDigits_eq_zero]
  simp only [List.mem_reverse]

/-- The digits and the point of a text. -/
def mantissa (n : Numeral) : List Char :=
  n.layout.1.map Nat.digitChar ++
    (if n.layout.2.1 = [] then [] else '.' :: n.layout.2.1.map Nat.digitChar)

theorem text_eq (n : Numeral) : n.text =
    (if n.negative then ['-'] else []) ++ (n.mantissa ++ exponentText n.layout.2.2) := by
  unfold text mantissa
  dsimp only
  rw [List.append_assoc]

theorem mem_mantissa {c : Char} (h : c ∈ n.mantissa) :
    (∃ d < 10, c = Nat.digitChar d) ∨ c = '.' := by
  obtain ⟨-, hlt, hlt', -⟩ := n.layout_spec
  unfold mantissa at h
  cases List.mem_append.mp h with
  | inl h =>
    obtain ⟨d, hm, rfl⟩ := List.mem_map.mp h
    exact .inl ⟨d, hlt d hm, rfl⟩
  | inr h =>
    split at h
    · cases h
    · cases List.mem_cons.mp h with
      | inl h => exact .inr h
      | inr h =>
        obtain ⟨d, hm, rfl⟩ := List.mem_map.mp h
        exact .inl ⟨d, hlt' d hm, rfl⟩

/-- Nothing in a mantissa begins an exponent or is a sign. -/
theorem mantissa_plain {c : Char} (h : c ∈ n.mantissa) :
    c ≠ 'e' ∧ c ≠ 'E' ∧ c ≠ '+' ∧ c ≠ '-' := by
  have hdigit : ∀ d < 10, Nat.digitChar d ≠ 'e' ∧ Nat.digitChar d ≠ 'E' ∧
      Nat.digitChar d ≠ '+' ∧ Nat.digitChar d ≠ '-' := by decide
  cases mem_mantissa h with
  | inl hd =>
    obtain ⟨d, hlt, rfl⟩ := hd
    exact hdigit d hlt
  | inr hpoint =>
    rw [hpoint]
    decide

theorem mantissa_ne_nil (n : Numeral) : n.mantissa ≠ [] := by
  obtain ⟨hwhole, -⟩ := n.layout_spec
  intro hnil
  exact hwhole (List.map_eq_nil_iff.mp (List.append_eq_nil_iff.mp hnil).1)

theorem mantissa_of_text (n : Numeral) :
    ((n.text.takeWhile fun c => c ≠ 'e' ∧ c ≠ 'E').dropWhile fun c => c = '+' ∨ c = '-') =
      n.mantissa := by
  have hexponent : (exponentText n.layout.2.2).takeWhile
      (fun c => decide (c ≠ 'e' ∧ c ≠ 'E')) = [] := by
    unfold exponentText
    split
    · rfl
    · rfl
  have hkept : (n.mantissa ++ exponentText n.layout.2.2).takeWhile
      (fun c => decide (c ≠ 'e' ∧ c ≠ 'E')) = n.mantissa := by
    rw [List.takeWhile_append_of_pos, hexponent, List.append_nil]
    intro c hm
    obtain ⟨hlower, hupper, -⟩ := mantissa_plain hm
    exact decide_eq_true ⟨hlower, hupper⟩
  have hstart : n.mantissa.dropWhile (fun c => decide (c = '+' ∨ c = '-')) = n.mantissa := by
    obtain ⟨first, rest, hcons⟩ := List.exists_cons_of_ne_nil n.mantissa_ne_nil
    obtain ⟨-, -, hplus, hminus⟩ := mantissa_plain (n := n) (hcons ▸ List.mem_cons_self)
    rw [hcons]
    exact List.dropWhile_cons_of_neg (by simp [hplus, hminus])
  rw [text_eq]
  cases n.negative with
  | true =>
    rw [if_pos rfl, List.singleton_append, List.takeWhile_cons_of_pos (by decide), hkept,
      List.dropWhile_cons_of_pos (by decide), hstart]
  | false => rw [if_neg Bool.false_ne_true, List.nil_append, hkept, hstart]

theorem all_zero_mantissa : (n.mantissa.all fun c => c = '0' ∨ c = '.') = true ↔
    ∀ d ∈ n.digits, d = 0 := by
  obtain ⟨-, hlt, hlt', -, zeros, hdigits⟩ := n.layout_spec
  have hchar : ∀ d < 10, (Nat.digitChar d = '0' ∨ Nat.digitChar d = '.') ↔ d = 0 := by decide
  have hall : (n.mantissa.all fun c => c = '0' ∨ c = '.') = true ↔
      ∀ d ∈ n.layout.1 ++ n.layout.2.1, d = 0 := by
    rw [List.all_eq_true]
    simp only [decide_eq_true_eq]
    constructor
    · intro h d hm
      cases List.mem_append.mp hm with
      | inl hm =>
        apply (hchar d (hlt d hm)).mp
        exact h _ (List.mem_append_left _ (List.mem_map_of_mem hm))
      | inr hm =>
        apply (hchar d (hlt' d hm)).mp
        apply h
        apply List.mem_append_right
        rw [if_neg (List.ne_nil_of_mem hm)]
        exact List.mem_cons_of_mem _ (List.mem_map_of_mem hm)
    · intro h c hm
      unfold mantissa at hm
      cases List.mem_append.mp hm with
      | inl hm =>
        obtain ⟨d, hd, rfl⟩ := List.mem_map.mp hm
        exact (hchar d (hlt d hd)).mpr (h d (List.mem_append_left _ hd))
      | inr hm =>
        split at hm
        · cases hm
        · cases List.mem_cons.mp hm with
          | inl hpoint => exact .inr hpoint
          | inr hm =>
            obtain ⟨d, hd, rfl⟩ := List.mem_map.mp hm
            exact (hchar d (hlt' d hd)).mpr (h d (List.mem_append_right _ hd))
  rw [hall, hdigits]
  simp only [List.mem_append, List.mem_replicate]
  constructor
  · exact fun h d hm => h d (.inr hm)
  · intro h d hm
    cases hm with
    | inl hzero => exact hzero.2
    | inr hm => exact h d hm

theorem isZero_text (n : Numeral) : isZero (String.ofList n.text) = true ↔ n.value = ⟨0, 0⟩ := by
  unfold isZero
  dsimp only
  rw [String.toList_ofList, mantissa_of_text, Bool.and_eq_true, all_zero_mantissa, value_eq_zero]
  have hsome : (!n.mantissa.isEmpty) = true := by
    rw [Bool.not_eq_true', List.isEmpty_eq_false_iff]
    exact n.mantissa_ne_nil
  exact and_iff_right hsome

end Numeral

/-! ## Levels -/

/-- A level as `_levels` writes it. -/
def levelText (level : DecimalText × Numeral) : DecimalText × String :=
  (level.1, String.ofList level.2.text)

/-- What levels do to a side: one with a quantity is set, one without is removed. -/
def applyQuantities (side : Levels) (levels : List (DecimalText × Numeral)) : Levels :=
  levels.foldl (fun side level =>
    if level.2.value = ⟨0, 0⟩ then KeyedDict.pop price (price level.1) side
    else KeyedDict.set price level.1 (String.ofList level.2.text) side) side

theorem applyLevels_texts (side : Levels) (levels : List (DecimalText × Numeral)) :
    applyLevels side (levels.map levelText) = applyQuantities side levels := by
  unfold applyLevels applyQuantities
  rw [List.foldl_map]
  congr 1
  funext side level
  unfold levelText
  dsimp only
  by_cases hzero : level.2.value = ⟨0, 0⟩
  · rw [if_pos (level.2.isZero_text.mpr hzero), if_pos hzero]
  · rw [if_neg (fun htext => hzero (level.2.isZero_text.mp htext)), if_neg hzero]

theorem bookSide_texts (levels : List (DecimalText × Numeral)) :
    bookSide (levels.map levelText) = applyQuantities []
      (levels.filter fun level => level.2.value ≠ ⟨0, 0⟩) := by
  unfold bookSide applyQuantities
  rw [List.foldl_map, List.foldl_filter]
  congr 1
  funext side level
  unfold levelText
  dsimp only
  by_cases hzero : level.2.value = ⟨0, 0⟩
  · rw [if_pos (level.2.isZero_text.mpr hzero), if_neg (by simpa using hzero)]
  · rw [if_neg (fun htext => hzero (level.2.isZero_text.mp htext)), if_pos (by simpa using hzero),
      if_neg hzero]

/-- The text that is emitted denotes the decimal, `_is_zero` tells whether it is zero, and the
sides of a book keep the levels whose quantity is not. -/
theorem isZero_exact (decimalOf : String → Option ParsedDecimal) :
    (∀ raw label allowZero allowNegative text,
      levelDecimal decimalOf raw label allowZero allowNegative = .ok text →
        ∃ n, decimalOf raw = some (.finite n) ∧ Decimal.parse text.toList = some n.value ∧
          (isZero text = true ↔ n.value = ⟨0, 0⟩)) ∧
    (∀ (side : Levels) (levels : List (DecimalText × Numeral)),
      applyLevels side (levels.map levelText) = applyQuantities side levels) ∧
    ∀ levels : List (DecimalText × Numeral), bookSide (levels.map levelText) =
      applyQuantities [] (levels.filter fun level => level.2.value ≠ ⟨0, 0⟩) := by
  refine ⟨?_, applyLevels_texts, bookSide_texts⟩
  intro raw label allowZero allowNegative text h
  unfold levelDecimal at h
  split at h
  · cases h
  · cases h
  · cases h
  · rename_i n hn
    split at h
    · cases h
    · split at h
      · cases h
      · cases h
        refine ⟨n, hn, ?_, n.isZero_text⟩
        rw [String.toList_ofList]
        exact n.parse_text

end MiryFormal
