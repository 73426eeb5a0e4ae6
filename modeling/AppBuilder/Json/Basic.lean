import AppBuilder.Dict
import AppBuilder.Number.Binary

/-!
JSON values.

Numbers keep their kind: a whole number written without fraction or exponent is not
the floating-point number of the same value. An object is a list of fields; it is
canonical when its names strictly increase, and `Json.canonical` brings any value
into that form, the later of two fields of one name counting. `Json.same` is equality
of values in which the two zeros are one number.
-/

namespace AppBuilder

/-- A JSON number: a whole number, or a finite floating-point number. -/
inductive Number where
  | int (n : Int)
  | real (x : Float)
deriving DecidableEq

/-- Whether two numbers are the same: of one kind and one value. -/
def Number.same : Number → Number → Bool
  | .int m, .int n => m = n
  | .real x, .real y => sameFloat x y
  | _, _ => false

/-- A JSON value. -/
inductive Json where
  | null
  | bool (b : Bool)
  | number (n : Number)
  | string (s : String)
  | array (items : List Json)
  | object (fields : List (String × Json))
deriving Inhabited

namespace Json

/-! ### Equality of values -/

mutual

/-- Whether two values are equal, the two zeros counting as one number. -/
def same : Json → Json → Bool
  | .null, .null => true
  | .bool a, .bool b => a = b
  | .number m, .number n => m.same n
  | .string s, .string t => s = t
  | .array xs, .array ys => sameItems xs ys
  | .object fs, .object gs => sameFields fs gs
  | _, _ => false

/-- `same` on lists of values. -/
def sameItems : List Json → List Json → Bool
  | [], [] => true
  | x :: xs, y :: ys => same x y && sameItems xs ys
  | _, _ => false

/-- `same` on lists of fields. -/
def sameFields : List (String × Json) → List (String × Json) → Bool
  | [], [] => true
  | (k, x) :: xs, (l, y) :: ys => k = l && same x y && sameFields xs ys
  | _, _ => false

end

instance : BEq Json := ⟨same⟩

/-! ### Building and reading -/

/-- A whole number. -/
def int (n : Int) : Json := .number (.int n)

/-- A count. -/
def nat (n : Nat) : Json := int n

/-- A floating-point number, null when it is not finite. -/
def real (x : Float) : Json := if x.isFinite then .number (.real x) else .null

/-- A list of texts. -/
def strings (xs : List String) : Json := .array (xs.map .string)

/-- A value, null when absent. -/
def orNull (j : Option Json) : Json := j.getD .null

/-- The object of a dictionary. -/
def ofDict (d : Dict Json) : Json := .object d.entries

/-- The fields of an object as a dictionary. -/
def toDict? : Json → Option (Dict Json)
  | .object fields => some (Dict.ofList fields)
  | _ => none

/-- A field of an object. -/
def field? (j : Json) (name : String) : Option Json :=
  match j with
  | .object fields => Entries.lookup name fields
  | _ => none

/-- A field of an object, null when it is missing. -/
def field (j : Json) (name : String) : Json := orNull (j.field? name)

/-! ### Canonical form -/

mutual

/-- The same value with the fields of every object sorted by name, the later of two
fields of one name counting. -/
def canonical : Json → Json
  | .array xs => .array (canonicalItems xs)
  | .object fs => .object (Dict.ofList (canonicalFields fs)).entries
  | j => j

/-- `canonical` on lists of values. -/
def canonicalItems : List Json → List Json
  | [] => []
  | x :: xs => canonical x :: canonicalItems xs

/-- `canonical` on the values of fields. -/
def canonicalFields : List (String × Json) → List (String × Json)
  | [] => []
  | (k, x) :: xs => (k, canonical x) :: canonicalFields xs

end

/-- An object from its fields, in canonical order. -/
def ofFields (fields : List (String × Json)) : Json := .object (Dict.ofList fields).entries

end Json

end AppBuilder
