import AppBuilder.Json.Basic

/-!
Reading typed data out of JSON values.

A decoder gives a value of its type or `none`. Whole numbers must be written without
fraction or exponent and lie in their range; floating-point numbers may be written
whole. A record is read field by field (`RecordReader`): by name from an object, whose
other fields are ignored unless the record is strict, or by position from an array.
A field that occurs twice is refused. Null stands only for an absent optional value.
-/

namespace AppBuilder

/-- A reader of one type from JSON. -/
abbrev Decoder (α : Type) := Json → Option α

namespace Decode

variable {α β : Type}

/-! ### Single values -/

/-- Any value, in canonical form. -/
def json : Decoder Json := fun j => some j.canonical

def string : Decoder String
  | .string s => some s
  | _ => none

def bool : Decoder Bool
  | .bool b => some b
  | _ => none

/-- A whole number between two bounds, both included. -/
def intBetween (lo hi : Int) : Decoder Int
  | .number (.int n) => if lo ≤ n ∧ n ≤ hi then some n else none
  | _ => none

/-- A signed whole number of 32 bits. -/
def int32 : Decoder Int := intBetween (-twoTo 31) (twoTo 31 - 1)

/-- A natural number of 32 bits. -/
def nat32 : Decoder Nat := fun j => (intBetween 0 (twoTo 32 - 1) j).map Int.toNat

/-- A natural number of 64 bits. -/
def nat64 : Decoder Nat := fun j => (intBetween 0 (twoTo 64 - 1) j).map Int.toNat

/-- A floating-point number, which may be written whole. -/
def float : Decoder Float
  | .number (.int n) => some (Float.ofInt n)
  | .number (.real x) => some x
  | _ => none

/-- A value that may be null. -/
def optional (decode : Decoder α) : Decoder (Option α)
  | .null => some none
  | j => (decode j).map some

/-- A list. -/
def list (decode : Decoder α) : Decoder (List α)
  | .array items => items.mapM decode
  | _ => none

/-- An object whose fields all have one type; of two fields of one name the later
counts. -/
def dict (decode : Decoder α) : Decoder (Dict α)
  | .object fields => do
    let es ← fields.mapM fun f => (decode f.2).map fun v => (f.1, v)
    return Dict.ofList es
  | _ => none

/-- A word out of a table, alone or as the only field of an object, with null. -/
def word (table : List (String × α)) : Decoder α
  | .string s | .object [(s, .null)] => Entries.lookup s table
  | _ => none

/-! ### Records -/

/-- What is left to read of a record. -/
inductive Record where
  | named (fields : List (String × Json))
  | positional (items : List Json)

/-- A reader of the fields of a record, one after another. -/
abbrev RecordReader (α : Type) := StateT Record Option α

/-- The field of a name, or the next item; `some none` when there is none. A name that
occurs twice is refused. -/
def take (name : String) : RecordReader (Option Json) := fun r =>
  match r with
  | .named fields =>
    match fields.filter fun f => f.1 = name with
    | [] => some (none, r)
    | [f] => some (some f.2, r)
    | _ => none
  | .positional [] => some (none, r)
  | .positional (j :: js) => some (some j, .positional js)

/-- A field that must be there. -/
def required (name : String) (decode : Decoder α) : RecordReader α := do
  match ← take name with
  | some j => decode j
  | none => failure

/-- A field with a value for when it is missing. -/
def defaulted (name : String) (default : α) (decode : Decoder α) : RecordReader α := do
  match ← take name with
  | some j => decode j
  | none => return default

/-- A field that may be missing or null. -/
def omittable (name : String) (decode : Decoder α) : RecordReader (Option α) :=
  defaulted name none (optional decode)

/-- A record from an object or, in the order of its fields, from an array with
nothing left over. -/
def record (reader : RecordReader α) : Decoder α
  | .object fields => (reader.run (.named fields)).map (·.1)
  | .array items => do
    match ← reader.run (.positional items) with
    | (a, .positional []) => return a
    | _ => none
  | _ => none

/-- A record from an object only. -/
def fields (reader : RecordReader α) : Decoder α
  | .object fs => (reader.run (.named fs)).map (·.1)
  | _ => none

/-- A record that refuses fields other than the given ones. -/
def strictRecord (names : List String) (reader : RecordReader α) : Decoder α
  | .object fs => if fs.all fun f => names.contains f.1 then record reader (.object fs) else none
  | j => record reader j

end Decode

end AppBuilder
