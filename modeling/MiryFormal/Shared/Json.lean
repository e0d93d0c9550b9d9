import MiryFormal.Shared.KeyedDict

/-!
# JSON documents

A document as a reader of JSON hands it to a dynamically typed program. A float is kept by the
text of its shortest representation.
-/

namespace MiryFormal

set_option autoImplicit false

inductive Json where
  | null
  | bool (value : Bool)
  | int (value : Int)
  | float (text : String)
  | str (value : String)
  | arr (items : List Json)
  | obj (members : List (String × Json))

namespace Json

/-- `document.get(key)` of an object. -/
def member (key : String) (members : List (String × Json)) : Option Json :=
  KeyedDict.get id key members

@[simp] theorem member_cons (key first : String) (value : Json) (members : List (String × Json)) :
    member key ((first, value) :: members) = if first = key then some value else member key members :=
  rfl

/-- The number of an integer. A boolean is one, as `isinstance(value, int)` has it. -/
def asInt : Json → Option Int
  | .int value => some value
  | .bool value => some (if value then 1 else 0)
  | _ => none

/-- `value == 1` -/
def isOne : Json → Bool
  | .float text => text = "1.0"
  | value => value.asInt = some 1

/-- `value == text` -/
def isText (text : String) : Option Json → Bool
  | some (.str value) => value = text
  | _ => false

/-- What a program makes of texts and documents outside JSON: `int(text)`, `int(float)`, and the
text of a list or an object. -/
structure Reading where
  parseInt : String → Except String Int
  truncate : String → Except String Int
  repr : Json → String

/-- `int(value)` -/
def toInt (reading : Reading) : Json → Except String Int
  | .int value => .ok value
  | .bool value => .ok (if value then 1 else 0)
  | .float text => reading.truncate text
  | .str text => reading.parseInt text
  | _ => .error "TypeError: int() argument must be a string or a real number"

/-- `str(value)` -/
def toText (reading : Reading) : Json → String
  | .null => "None"
  | .bool value => if value then "True" else "False"
  | .int value => toString value
  | .float text => text
  | .str text => text
  | value => reading.repr value

end Json

end MiryFormal
