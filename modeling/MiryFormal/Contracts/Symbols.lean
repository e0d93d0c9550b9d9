/-!
# Exchange symbols
-/

namespace MiryFormal

set_option autoImplicit false

/-- The string methods that the check of a symbol uses. -/
structure SymbolText where
  strip : String → String
  normalize : String → String
  upper : String → String
  isalnum : String → Bool

/-- `is_exchange_symbol` of a string. -/
def isExchangeSymbol (text : SymbolText) (value : String) : Bool :=
  1 ≤ value.length ∧ value.length ≤ 30 ∧ value = text.strip value ∧
    value = text.normalize value ∧ value = text.upper value ∧ text.isalnum value = true

/-- The methods on ASCII. -/
def asciiText : SymbolText where
  strip value := String.ofList
    ((value.toList.dropWhile Char.isWhitespace).reverse.dropWhile Char.isWhitespace).reverse
  normalize value := value
  upper value := value.toUpper
  isalnum value := !value.toList.isEmpty && value.toList.all Char.isAlphanum

end MiryFormal
