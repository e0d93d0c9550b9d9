import Mathlib.Data.Nat.Digits.Defs
import Mathlib.Tactic.Common

/-!
# Decimal texts of price levels

A typed level carries the texts `str` gives for finite decimals. A price is used as a
dictionary key by its numeric value, so `Decimal` keeps one form of each number: no
trailing zero digit is left in the coefficient.
-/

namespace MiryFormal

set_option autoImplicit false

structure Decimal where
  coefficient : Int
  exponent : Int
  deriving DecidableEq, Repr

namespace Decimal

/-- The number with the given digits, least significant first, times `10 ^ exponent`. -/
def ofDigits (negative : Bool) : List Nat → Int → Decimal
  | [], _ => ⟨0, 0⟩
  | 0 :: digits, exponent => ofDigits negative digits (exponent + 1)
  | digits, exponent =>
      let magnitude : Int := Nat.ofDigits 10 digits
      ⟨if negative then -magnitude else magnitude, exponent⟩

def digit? (c : Char) : Option Nat :=
  if c.isDigit then some (c.toNat - '0'.toNat) else none

/-- A run of digits and what follows it. -/
def digits : List Char → List Nat × List Char
  | [] => ([], [])
  | c :: cs =>
      match digit? c with
      | none => ([], c :: cs)
      | some d => let (ds, rest) := digits cs; (d :: ds, rest)

def sign : List Char → Bool × List Char
  | '-' :: cs => (true, cs)
  | '+' :: cs => (false, cs)
  | cs => (false, cs)

/-- The exponent part, or nothing at the end of the text. -/
def exponentPart : List Char → Option Int
  | [] => some 0
  | c :: cs =>
      if c = 'e' ∨ c = 'E' then
        let (negative, cs) := sign cs
        match digits cs with
        | (d :: ds, []) =>
            let magnitude : Int := Nat.ofDigits 10 (d :: ds).reverse
            some (if negative then -magnitude else magnitude)
        | _ => none
      else none

/-- `Decimal(text)` for the finite numerals; anything else is not a number here. -/
def parse (text : List Char) : Option Decimal :=
  let (negative, text) := sign text
  let (whole, text) := digits text
  let (fraction, text) := match text with
    | '.' :: rest => digits rest
    | rest => ([], rest)
  if whole = [] ∧ fraction = [] then none
  else (exponentPart text).map fun exponent =>
    ofDigits negative (whole ++ fraction).reverse (exponent - fraction.length)

/-- Numeric order, on the common exponent. -/
def le (a b : Decimal) : Bool :=
  let exponent := min a.exponent b.exponent
  a.coefficient * 10 ^ (a.exponent - exponent).toNat ≤
    b.coefficient * 10 ^ (b.exponent - exponent).toNat

end Decimal

/-- A text that denotes a finite decimal. -/
structure DecimalText where
  text : String
  numeral : (Decimal.parse text.toList).isSome
  deriving DecidableEq

/-- `_price`: the number a text denotes. -/
def price (value : DecimalText) : Decimal := (Decimal.parse value.text.toList).get value.numeral

theorem isNumber_99_5 : (Decimal.parse "99.5".toList).isSome := by decide

theorem isNumber_100 : (Decimal.parse "100".toList).isSome := by decide

theorem isNumber_101 : (Decimal.parse "101".toList).isSome := by decide

/-- `_is_zero`: the mantissa has no character but `0` and `.`. -/
def isZero (value : String) : Bool :=
  let mantissa := (value.toList.takeWhile fun c => c ≠ 'e' ∧ c ≠ 'E').dropWhile
    fun c => c = '+' ∨ c = '-'
  !mantissa.isEmpty && mantissa.all fun c => c = '0' ∨ c = '.'

example : Decimal.parse "100.10".toList = Decimal.parse "1.001E+2".toList := by decide
example : isZero "0E-8" = true ∧ isZero "0.10" = false := by decide

end MiryFormal
