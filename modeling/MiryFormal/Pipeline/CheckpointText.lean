import MiryFormal.Pipeline.DecimalText
import Mathlib.Data.List.TakeWhile

/-!
# Texts in a checkpoint

A checkpoint is JSON: prices are written by `str` of a decimal, payload hashes in hex. Reading
such a text gives the number or the bytes that were written.
-/

namespace MiryFormal

set_option autoImplicit false

/-- A finite `Decimal` as Python keeps it: the digits of its coefficient, the highest first. -/
structure Numeral where
  negative : Bool
  digits : List Nat
  exponent : Int
  nonempty : digits ≠ []
  bounded : ∀ d ∈ digits, d < 10

namespace Decimal

/-- The digits after the point, if there is one. -/
def fraction : List Char → List Nat × List Char
  | '.' :: rest => digits rest
  | rest => ([], rest)

/-- The sign, the digits before and after the point, and the rest of a numeral. -/
def parts (text : List Char) : Bool × List Nat × List Nat × List Char :=
  let (negative, text) := sign text
  let (whole, text) := digits text
  (negative, whole, fraction text)

theorem parse_eq_parts (text : List Char) :
    parse text =
      if (parts text).2.1 = [] ∧ (parts text).2.2.1 = [] then none
      else (exponentPart (parts text).2.2.2).map fun exponent =>
        ofDigits (parts text).1 ((parts text).2.1 ++ (parts text).2.2.1).reverse
          (exponent - (parts text).2.2.1.length) := rfl

theorem ofDigits_succ (negative : Bool) (d : Nat) (ds : List Nat) (exponent : Int) :
    ofDigits negative ((d + 1) :: ds) exponent =
      ⟨if negative then -((Nat.ofDigits 10 ((d + 1) :: ds) : Nat) : Int)
        else ((Nat.ofDigits 10 ((d + 1) :: ds) : Nat) : Int), exponent⟩ := by
  rw [Nat.coe_ofDigits]
  rfl

/-- Leading zeros do not change a number. -/
theorem ofDigits_append_zeros (negative : Bool) (ds : List Nat) (count : Nat) (exponent : Int) :
    ofDigits negative (ds ++ List.replicate count 0) exponent = ofDigits negative ds exponent := by
  induction ds generalizing exponent with
  | nil =>
    rw [List.nil_append]
    induction count generalizing exponent with
    | zero => rfl
    | succ count ih => exact ih (exponent + 1)
  | cons d ds ih =>
    cases d with
    | zero => exact ih (exponent + 1)
    | succ d =>
      rw [List.cons_append, ofDigits_succ, ofDigits_succ, ← List.cons_append,
        Nat.ofDigits_append_replicate_zero]

theorem digit?_digitChar {d : Nat} (h : d < 10) : digit? (Nat.digitChar d) = some d := by
  have hall : ∀ d < 10, digit? (Nat.digitChar d) = some d := by decide
  exact hall d h

/-- The digits are read up to a character that is none. -/
theorem digits_digitChar {ds : List Nat} (h : ∀ d ∈ ds, d < 10) {rest : List Char}
    (hrest : ∀ c ∈ rest.head?, digit? c = none) :
    digits (ds.map Nat.digitChar ++ rest) = (ds, rest) := by
  induction ds with
  | nil =>
    cases rest with
    | nil => rfl
    | cons c rest =>
      rw [List.map_nil, List.nil_append, digits, hrest c rfl]
  | cons d ds ih =>
    have hds := ih fun other hm => h other (List.mem_cons_of_mem d hm)
    rw [List.map_cons, List.cons_append, digits, digit?_digitChar (h d List.mem_cons_self), hds]

theorem sign_digitChar {d : Nat} (h : d < 10) (rest : List Char) :
    sign (Nat.digitChar d :: rest) = (false, Nat.digitChar d :: rest) := by
  have hall : ∀ d < 10, Nat.digitChar d ≠ '-' ∧ Nat.digitChar d ≠ '+' := by decide
  obtain ⟨hminus, hplus⟩ := hall d h
  unfold sign
  split
  · rename_i heq
    exact absurd (List.cons.inj heq).1 hminus
  · rename_i heq
    exact absurd (List.cons.inj heq).1 hplus
  · rfl

theorem digit?_lt {c : Char} {d : Nat} (h : digit? c = some d) : d < 10 := by
  unfold digit? at h
  split at h
  · rename_i hdigit
    cases h
    simp only [Char.isDigit, Bool.and_eq_true, decide_eq_true_eq, UInt32.le_iff_toNat_le] at hdigit
    have hupper : c.toNat ≤ 57 := hdigit.2
    have hzero : '0'.toNat = 48 := rfl
    omega
  · cases h

theorem digits_lt (text : List Char) : ∀ d ∈ (digits text).1, d < 10 := by
  induction text with
  | nil => exact nofun
  | cons c text ih =>
    rw [digits]
    cases hdigit : digit? c with
    | none => exact nofun
    | some d =>
      intro other hm
      cases List.mem_cons.mp hm with
      | inl heq => exact heq ▸ digit?_lt hdigit
      | inr hm => exact ih other hm

theorem parts_lt (text : List Char) :
    (∀ d ∈ (parts text).2.1, d < 10) ∧ ∀ d ∈ (parts text).2.2.1, d < 10 := by
  refine ⟨digits_lt _, ?_⟩
  change ∀ d ∈ (fraction _).1, d < 10
  unfold fraction
  split
  · exact digits_lt _
  · exact nofun

end Decimal

/-! ## The text of a decimal -/

namespace Numeral

/-- The number, in the form in which prices are compared. -/
def value (n : Numeral) : Decimal := Decimal.ofDigits n.negative n.digits.reverse n.exponent

/-- The digits before and after the point, and the exponent that is written. -/
def layout (n : Numeral) : List Nat × List Nat × Int :=
  let leftDigits := n.exponent + n.digits.length
  let dotPlace := if n.exponent ≤ 0 ∧ -6 < leftDigits then leftDigits else 1
  if dotPlace ≤ 0 then
    ([0], List.replicate (-dotPlace).toNat 0 ++ n.digits, leftDigits - dotPlace)
  else if n.digits.length ≤ dotPlace then
    (n.digits ++ List.replicate (dotPlace - n.digits.length).toNat 0, [], leftDigits - dotPlace)
  else
    (n.digits.take dotPlace.toNat, n.digits.drop dotPlace.toNat, leftDigits - dotPlace)

/-- `"%+d"` after the letter, where the exponent is not zero. -/
def exponentText (exponent : Int) : List Char :=
  if exponent = 0 then []
  else 'E' :: (if exponent < 0 then '-' else '+') ::
    ((Nat.digits 10 exponent.natAbs).reverse.map Nat.digitChar)

/-- `str` of a decimal. -/
def text (n : Numeral) : List Char :=
  let (whole, fraction, exponent) := n.layout
  (if n.negative then ['-'] else []) ++ (whole.map Nat.digitChar ++
    ((if fraction = [] then [] else '.' :: fraction.map Nat.digitChar) ++ exponentText exponent))

theorem exponentPart_text (exponent : Int) :
    Decimal.exponentPart (exponentText exponent) = some exponent := by
  unfold exponentText
  by_cases hzero : exponent = 0
  · rw [if_pos hzero, hzero]
    rfl
  · rw [if_neg hzero]
    have hne : exponent.natAbs ≠ 0 := Int.natAbs_ne_zero.mpr hzero
    have hsome : ∃ d ds, (Nat.digits 10 exponent.natAbs).reverse = d :: ds := by
      apply List.exists_cons_of_ne_nil
      intro hnil
      exact Nat.digits_ne_nil_iff_ne_zero.mpr hne (List.reverse_eq_nil_iff.mp hnil)
    obtain ⟨d, ds, hcons⟩ := hsome
    have hdigits : Decimal.digits ((d :: ds).map Nat.digitChar) = (d :: ds, []) := by
      have hlt : ∀ other ∈ d :: ds, other < 10 := by
        intro other hm
        rw [← hcons] at hm
        exact Nat.digits_lt_base (by decide) (List.mem_reverse.mp hm)
      have hread := @Decimal.digits_digitChar (d :: ds) hlt [] nofun
      rw [List.append_nil] at hread
      exact hread
    have hvalue : Nat.ofDigits (10 : Int) (d :: ds).reverse = exponent.natAbs := by
      rw [← hcons, List.reverse_reverse]
      have hcoe := Nat.coe_ofDigits Int 10 (Nat.digits 10 exponent.natAbs)
      rw [Nat.ofDigits_digits] at hcoe
      exact hcoe.symm
    rw [hcons]
    unfold Decimal.exponentPart
    by_cases hneg : exponent < 0
    · rw [if_pos hneg]
      dsimp only
      rw [if_pos (.inr rfl)]
      simp only [Decimal.sign, hdigits, hvalue]
      rw [if_pos trivial]
      apply congrArg some
      omega
    · rw [if_neg hneg]
      dsimp only
      rw [if_pos (.inr rfl)]
      simp only [Decimal.sign, hdigits, hvalue]
      rw [if_neg Bool.false_ne_true]
      apply congrArg some
      omega

theorem parts_text {negative : Bool} {whole fraction : List Nat} {rest : List Char}
    (hwhole : whole ≠ []) (hlt : ∀ d ∈ whole, d < 10) (hlt' : ∀ d ∈ fraction, d < 10)
    (hrest : ∀ c ∈ rest.head?, c = 'E') :
    Decimal.parts ((if negative then ['-'] else []) ++ (whole.map Nat.digitChar ++
      ((if fraction = [] then [] else '.' :: fraction.map Nat.digitChar) ++ rest))) =
      (negative, whole, fraction, rest) := by
  have hletter : ∀ c ∈ rest.head?, Decimal.digit? c = none := by
    intro c hm
    rw [hrest c hm]
    rfl
  have hsign : ∀ tail, Decimal.sign ((if negative then ['-'] else []) ++
      (whole.map Nat.digitChar ++ tail)) = (negative, whole.map Nat.digitChar ++ tail) := by
    intro tail
    cases negative with
    | true => rfl
    | false =>
      cases whole with
      | nil => exact absurd rfl hwhole
      | cons d whole => exact Decimal.sign_digitChar (hlt d List.mem_cons_self) _
  unfold Decimal.parts
  rw [hsign]
  dsimp only
  by_cases hfraction : fraction = []
  · rw [if_pos hfraction, List.nil_append, Decimal.digits_digitChar hlt hletter, hfraction]
    have hnone : Decimal.fraction rest = ([], rest) := by
      unfold Decimal.fraction
      split
      · cases hrest _ rfl
      · rfl
    rw [hnone]
  · rw [if_neg hfraction, Decimal.digits_digitChar hlt (by
      intro c hm
      rw [List.cons_append, List.head?_cons] at hm
      rw [← Option.some.inj hm]
      rfl)]
    rw [List.cons_append, Decimal.fraction, Decimal.digits_digitChar hlt' hletter]

theorem layout_spec (n : Numeral) :
    n.layout.1 ≠ [] ∧ (∀ d ∈ n.layout.1, d < 10) ∧ (∀ d ∈ n.layout.2.1, d < 10) ∧
      n.layout.2.2 - n.layout.2.1.length = n.exponent ∧
      ∃ zeros, n.layout.1 ++ n.layout.2.1 = List.replicate zeros 0 ++ n.digits := by
  have hlength : 0 < n.digits.length := List.length_pos_iff.mpr n.nonempty
  have hzeros : ∀ count, ∀ d ∈ List.replicate count 0, d < 10 := by
    intro count d hm
    rw [(List.mem_replicate.mp hm).2]
    omega
  have hplace : ∃ dotPlace, (if n.exponent ≤ 0 ∧ -6 < n.exponent + n.digits.length then
      n.exponent + (n.digits.length : Int) else 1) = dotPlace ∧ dotPlace ≤ n.digits.length := by
    refine ⟨_, rfl, ?_⟩
    split
    · omega
    · omega
  obtain ⟨dotPlace, hplace, hle⟩ := hplace
  unfold layout
  dsimp only
  rw [hplace]
  by_cases hsmall : dotPlace ≤ 0
  · rw [if_pos hsmall]
    refine ⟨List.cons_ne_nil 0 [], hzeros 1, fun d hm => ?_, ?_, (-dotPlace).toNat + 1, rfl⟩
    · cases List.mem_append.mp hm with
      | inl hm => exact hzeros _ d hm
      | inr hm => exact n.bounded d hm
    · dsimp only
      rw [List.length_append, List.length_replicate]
      omega
  · rw [if_neg hsmall]
    by_cases hlong : (n.digits.length : Int) ≤ dotPlace
    · rw [if_pos hlong]
      have hnone : (dotPlace - n.digits.length).toNat = 0 := by omega
      rw [hnone, List.replicate_zero, List.append_nil]
      refine ⟨n.nonempty, n.bounded, nofun, ?_, 0, List.append_nil n.digits⟩
      dsimp only
      rw [List.length_nil]
      omega
    · rw [if_neg hlong]
      refine ⟨?_, fun d hm => n.bounded d (List.mem_of_mem_take hm),
        fun d hm => n.bounded d (List.mem_of_mem_drop hm), ?_, 0, List.take_append_drop _ _⟩
      · apply List.ne_nil_of_length_pos
        rw [List.length_take]
        omega
      · dsimp only
        rw [List.length_drop]
        omega

/-- The text of a decimal denotes it. -/
theorem parse_text (n : Numeral) : Decimal.parse n.text = some n.value := by
  obtain ⟨hwhole, hlt, hlt', hexponent, zeros, hdigits⟩ := n.layout_spec
  have hletter : ∀ c ∈ (exponentText n.layout.2.2).head?, c = 'E' := by
    intro c hm
    unfold exponentText at hm
    split at hm
    · cases hm
    · exact (Option.some.inj hm).symm
  have hparts : Decimal.parts n.text =
      (n.negative, n.layout.1, n.layout.2.1, exponentText n.layout.2.2) :=
    parts_text hwhole hlt hlt' hletter
  rw [Decimal.parse_eq_parts, hparts]
  dsimp only
  rw [if_neg (fun hnil => hwhole hnil.1), exponentPart_text, Option.map_some, hdigits, hexponent,
    List.reverse_append, List.reverse_replicate, Decimal.ofDigits_append_zeros]
  rfl

/-- `str(int(digits))` -/
def coefficient (ds : List Nat) : List Nat :=
  if ds.dropWhile (fun d => d = 0) = [] then [0] else ds.dropWhile fun d => d = 0

theorem coefficient_ne_nil (ds : List Nat) : coefficient ds ≠ [] := by
  unfold coefficient
  split
  · exact List.cons_ne_nil 0 []
  · assumption

theorem coefficient_lt {ds : List Nat} (h : ∀ d ∈ ds, d < 10) : ∀ d ∈ coefficient ds, d < 10 := by
  intro d hm
  unfold coefficient at hm
  split at hm
  · rw [List.mem_singleton.mp hm]
    decide
  · exact h d ((List.dropWhile_sublist _).subset hm)

theorem ofDigits_coefficient (negative : Bool) (ds : List Nat) (exponent : Int) :
    Decimal.ofDigits negative (coefficient ds).reverse exponent =
      Decimal.ofDigits negative ds.reverse exponent := by
  have hzeros : ds.takeWhile (fun d => d = 0) =
      List.replicate (ds.takeWhile fun d => d = 0).length 0 := by
    apply List.eq_replicate_of_mem
    intro d hm
    have hzero := List.mem_takeWhile_imp hm
    exact of_decide_eq_true hzero
  have hsplit := List.takeWhile_append_dropWhile (p := fun d => decide (d = 0)) (l := ds)
  generalize (ds.takeWhile fun d => d = 0).length = count at hzeros
  rw [hzeros] at hsplit
  unfold coefficient
  split
  · rename_i hnil
    rw [hnil, List.append_nil] at hsplit
    rw [← hsplit, List.reverse_replicate]
    exact (Decimal.ofDigits_append_zeros negative [] count exponent).symm
  · conv_rhs => rw [← hsplit, List.reverse_append, List.reverse_replicate,
      Decimal.ofDigits_append_zeros]

end Numeral

namespace DecimalText

/-- `Decimal(text)` -/
def numeralOf (value : DecimalText) : Numeral where
  negative := (Decimal.parts value.text.toList).1
  digits := Numeral.coefficient
    ((Decimal.parts value.text.toList).2.1 ++ (Decimal.parts value.text.toList).2.2.1)
  exponent := (Decimal.exponentPart (Decimal.parts value.text.toList).2.2.2).getD 0 -
    (Decimal.parts value.text.toList).2.2.1.length
  nonempty := Numeral.coefficient_ne_nil _
  bounded := by
    apply Numeral.coefficient_lt
    intro d hm
    cases List.mem_append.mp hm with
    | inl hm => exact (Decimal.parts_lt _).1 d hm
    | inr hm => exact (Decimal.parts_lt _).2 d hm

theorem value_numeralOf (value : DecimalText) : value.numeralOf.value = price value := by
  have hnumeral := value.numeral
  have hprice : some (price value) = Decimal.parse value.text.toList := Option.some_get hnumeral
  rw [Decimal.parse_eq_parts] at hprice hnumeral
  split at hprice
  · cases hprice
  · cases hexponent : Decimal.exponentPart (Decimal.parts value.text.toList).2.2.2 with
    | none =>
      rw [hexponent] at hprice
      cases hprice
    | some exponent =>
      rw [hexponent, Option.map_some] at hprice
      rw [Option.some.inj hprice]
      unfold Numeral.value numeralOf
      dsimp only
      rw [Numeral.ofDigits_coefficient, hexponent, Option.getD_some]

/-- `str(Decimal(text))` -/
def str (value : DecimalText) : DecimalText where
  text := String.ofList value.numeralOf.text
  numeral := by
    rw [String.toList_ofList, Numeral.parse_text]
    rfl

/-- A price that is written and read again is the same number. -/
theorem price_str (value : DecimalText) : price value.str = price value := by
  unfold price
  apply Option.some.inj
  rw [Option.some_get, Option.some_get]
  unfold str
  rw [String.toList_ofList, Numeral.parse_text, value_numeralOf]
  exact Option.some_get value.numeral

example : (⟨"0.00000010", by decide⟩ : DecimalText).str.text = "1.0E-7" := by decide

end DecimalText

/-! ## Hashes -/

/-- `bytes.hex` -/
def hexText (bytes : List UInt8) : List Char :=
  bytes.flatMap fun byte => [Nat.digitChar (byte.toNat / 16), Nat.digitChar (byte.toNat % 16)]

def hexDigit? (c : Char) : Option Nat :=
  if c.isDigit then some (c.toNat - '0'.toNat)
  else if 'a' ≤ c ∧ c ≤ 'f' then some (c.toNat - 'a'.toNat + 10)
  else if 'A' ≤ c ∧ c ≤ 'F' then some (c.toNat - 'A'.toNat + 10)
  else none

def isSpace (c : Char) : Bool := c ∈ [' ', '\t', '\n', '\r', '\x0b', '\x0c']

/-- `bytes.fromhex`, which skips white space between the bytes. -/
def fromHex : List Char → Option (List UInt8)
  | [] => some []
  | [c] => if isSpace c then some [] else none
  | c :: c' :: rest =>
      if isSpace c then fromHex (c' :: rest)
      else match hexDigit? c, hexDigit? c' with
        | some high, some low => (fromHex rest).map fun bytes => UInt8.ofNat (16 * high + low) :: bytes
        | _, _ => none

theorem hexDigit?_digitChar {d : Nat} (h : d < 16) :
    hexDigit? (Nat.digitChar d) = some d ∧ isSpace (Nat.digitChar d) = false := by
  have hall : ∀ d < 16, hexDigit? (Nat.digitChar d) = some d ∧ isSpace (Nat.digitChar d) = false := by
    decide
  exact hall d h

theorem fromHex_hexText (bytes : List UInt8) : fromHex (hexText bytes) = some bytes := by
  induction bytes with
  | nil => rfl
  | cons byte bytes ih =>
    have hbyte : byte.toNat < 256 := byte.toNat_lt
    obtain ⟨hhigh, hspace⟩ := @hexDigit?_digitChar (byte.toNat / 16) (by omega)
    obtain ⟨hlow, -⟩ := @hexDigit?_digitChar (byte.toNat % 16) (by omega)
    have hsum : 16 * (byte.toNat / 16) + byte.toNat % 16 = byte.toNat := by omega
    unfold hexText at ih ⊢
    rw [List.flatMap_cons, List.cons_append, List.cons_append, List.nil_append, fromHex, hspace,
      hhigh, hlow, ih]
    simp only [Bool.false_eq_true, if_false, Option.map_some, hsum, UInt8.ofNat_toNat]

end MiryFormal
