import AppBuilder.Number.Binary

/-!
Decimal text of numbers.

A decimal is `digits · 10 ^ power` (`Decimal`). `Decimal.shortest` finds the decimal
with the fewest digits that rounds to a given finite number, and of those the one
nearest to it. How such a decimal is written is a `DecimalStyle`; fixed places
are written by `fixedText`.
-/

namespace AppBuilder

/-! ### Shortest decimals -/

/-- The value `digits · 10 ^ power`. -/
structure Decimal where
  digits : Nat
  power : Int
deriving DecidableEq, Repr

/-- The same value without trailing zero digits. -/
def Decimal.trim (d : Decimal) : Decimal :=
  go 400 d
where
  go : Nat → Decimal → Decimal
    | 0, d => d
    | fuel + 1, d =>
      if d.digits ≠ 0 ∧ d.digits % 10 = 0 then go fuel ⟨d.digits / 10, d.power + 1⟩ else d

/-- Decimal exponent of `num / den`: the power of ten of its leading digit. -/
def leadingPower (num den : Nat) : Int :=
  if den ≤ num then (Nat.toDigits 10 (num / den)).length - 1
  else
    match (List.range 400).find? fun j => den ≤ num * tenTo (j + 1) with
    | some j => -(j + 1 : Int)
    | none => -400

/-- The numbers that round to a given one, as fractions over one denominator:
the lower end, the number itself and the upper end. -/
structure RoundingInterval where
  low : Nat
  mid : Nat
  high : Nat
  den : Nat
  /-- Whether the ends themselves round to the number. -/
  closed : Bool

/-- The rounding interval of a positive dyadic number. -/
def Dyadic.interval (d : Dyadic) : RoundingInterval :=
  let scale := fun u => if 2 ≤ d.exponent then u * twoTo (d.exponent - 2).toNat else u
  let den := if 2 ≤ d.exponent then 1 else twoTo (2 - d.exponent).toNat
  { low := scale (4 * d.significand - if d.atBinade then 1 else 2)
    mid := scale (4 * d.significand)
    high := scale (4 * d.significand + 2)
    den := den
    closed := d.significand % 2 = 0 }

/-- The point of the grid `10 ^ power` nearest to the middle of the interval among
those inside it; of two equally near the even one. -/
def RoundingInterval.gridPoint? (i : RoundingInterval) (power : Int) : Option Nat :=
  let up := tenTo (-power).toNat
  let unit := i.den * tenTo power.toNat
  let below := i.mid * up / unit
  let above := below + 1
  let inside := fun u => if i.closed then i.low * up ≤ u && u ≤ i.high * up
    else i.low * up < u && u < i.high * up
  match inside (below * unit), inside (above * unit) with
  | true, true =>
    let left := i.mid * up - below * unit
    let right := above * unit - i.mid * up
    if left < right then some below
    else if right < left then some above
    else some (if below % 2 = 0 then below else above)
  | true, false => some below
  | false, true => some above
  | false, false => none

/-- The shortest decimal that rounds to a dyadic magnitude, and of those the
nearest. Seventeen digits always suffice. -/
def Decimal.shortest (d : Dyadic) : Decimal :=
  if d.significand = 0 then ⟨0, 0⟩
  else
    let i := d.interval
    let top := leadingPower i.mid i.den
    let hit := (List.range 17).findSome? fun (n : Nat) =>
      (i.gridPoint? (top - n)).map fun digits => (⟨digits, top - n⟩ : Decimal)
    (hit.getD ⟨0, 0⟩).trim

/-! ### Writing decimals -/

/-- How a number is written. -/
structure DecimalStyle where
  /-- Leading powers of ten written without an exponent, `none` for all. -/
  positional : Option (Int × Int)
  /-- Write whole numbers with `.0`. -/
  markWhole : Bool
  /-- Write the sign of a positive exponent. -/
  plusExponent : Bool
deriving DecidableEq, Repr

/-- Digits of a natural number. -/
def digitsText (n : Nat) : String := String.ofList (Nat.toDigits 10 n)

/-- A whole number in decimal. -/
def intText (n : Int) : String :=
  if n < 0 then "-" ++ digitsText n.natAbs else digitsText n.natAbs

/-- Zeros in a row. -/
def zeros (n : Nat) : List Char := List.replicate n '0'

/-- A decimal without an exponent. -/
def positionalText (d : Decimal) (markWhole : Bool) : List Char :=
  let ds := Nat.toDigits 10 d.digits
  let point : Int := ds.length + d.power
  if 0 ≤ d.power then ds ++ zeros d.power.toNat ++ (if markWhole then ['.', '0'] else [])
  else if 0 < point then ds.take point.toNat ++ '.' :: ds.drop point.toNat
  else '0' :: '.' :: zeros (-point).toNat ++ ds

/-- A decimal with one digit before the point and an exponent. -/
def scientificText (d : Decimal) (plus : Bool) : List Char :=
  let ds := Nat.toDigits 10 d.digits
  let e : Int := ds.length - 1 + d.power
  let mantissa := match ds with
    | [] => ['0']
    | [c] => [c]
    | c :: cs => c :: '.' :: cs
  let sign := if e < 0 then ['-'] else if plus then ['+'] else []
  mantissa ++ 'e' :: sign ++ Nat.toDigits 10 e.natAbs

/-- A finite number in a style, an infinity as `inf` and no number as `NaN`. -/
def floatText (style : DecimalStyle) (x : Float) : String :=
  match Dyadic.ofFloat? x with
  | none => if x.isNaN then "NaN" else if x < 0 then "-inf" else "inf"
  | some d =>
    let s := Decimal.shortest d
    let e : Int := (Nat.toDigits 10 s.digits).length - 1 + s.power
    let positional := d.significand = 0 || match style.positional with
      | none => true
      | some (lo, hi) => lo ≤ e && e ≤ hi
    let body := if positional then positionalText s style.markWhole
      else scientificText s style.plusExponent
    String.ofList (if d.negative then '-' :: body else body)

/-- A number with a fixed count of digits after the point, rounded from its exact
value, a tie going to the even digit. The sign of a number that rounds to zero
is kept. -/
def fixedText (places : Nat) (x : Float) : String :=
  match Dyadic.ofFloat? x with
  | none => if x.isNaN then "NaN" else if x < 0 then "-inf" else "inf"
  | some d =>
    let (num, den) := d.ratio
    let ds := Nat.toDigits 10 (roundDiv (num * tenTo places) den .toEven)
    let ds := zeros (places + 1 - ds.length) ++ ds
    let whole := ds.take (ds.length - places)
    let fraction := ds.drop (ds.length - places)
    let body := if places = 0 then whole else whole ++ '.' :: fraction
    String.ofList (if d.negative then '-' :: body else body)

/-! ### Reading decimals -/

/-- The value of a row of decimal digits. -/
def digitsValue (ds : List Char) : Nat :=
  ds.foldl (fun n c => n * 10 + (c.toNat - '0'.toNat)) 0

/-- Split off the leading decimal digits. -/
def spanDigits (cs : List Char) : List Char × List Char := cs.span Char.isDigit

/-- Split off a sign. -/
def spanSign : List Char → Bool × List Char
  | '-' :: cs => (true, cs)
  | '+' :: cs => (false, cs)
  | cs => (false, cs)

/-- An exponent part `e±digits`, when the text starts with one. -/
def spanExponent (cs : List Char) : Option (Int × List Char) :=
  match cs with
  | c :: cs =>
    if c = 'e' ∨ c = 'E' then
      let (negative, cs) := spanSign cs
      let (ds, rest) := spanDigits cs
      if ds.isEmpty then none
      else some (if negative then -(digitsValue ds : Int) else digitsValue ds, rest)
    else none
  | [] => none

/-- Read a whole text as a number: an optional sign, digits with an optional
point and exponent, or the name of an infinity or of no number in any case. -/
def readFloat? (text : String) : Option Float :=
  let (negative, cs) := spanSign text.toList
  let signed := fun x : Float => if negative then -x else x
  let word := String.ofList (cs.map Char.toLower)
  if word = "inf" ∨ word = "infinity" then some (signed (1 / 0))
  else if word = "nan" then some (0 / 0)
  else
    let (whole, rest) := spanDigits cs
    let (fraction, rest) := match rest with
      | '.' :: rest => spanDigits rest
      | rest => ([], rest)
    if whole.isEmpty ∧ fraction.isEmpty then none
    else
      match (if rest.isEmpty then some (0, []) else spanExponent rest) with
      | some (e, []) =>
        some (signed (floatOfDecimal (digitsValue (whole ++ fraction)) (e - fraction.length)))
      | _ => none

end AppBuilder
