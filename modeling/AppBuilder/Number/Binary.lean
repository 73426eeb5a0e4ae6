/-!
Binary floating-point numbers as exact dyadic values.

A finite number is `± significand · 2 ^ exponent` (`Dyadic.ofFloat?`). From that
exact form come the total order used for sorting distances (`totalKey`), rounding
of a fraction to an integer (`roundDiv`) and the length of a vector
(`hypot`), rounded once from its exact square.
-/

namespace AppBuilder

/-! ### Powers -/

/-- A power of two. -/
def twoTo (k : Nat) : Nat := Nat.pow 2 k

/-- A power of ten. -/
def tenTo (k : Nat) : Nat := Nat.pow 10 k

/-! ### Exact values -/

/-- A finite number: sign, whole significand and power of two. -/
structure Dyadic where
  negative : Bool
  significand : Nat
  exponent : Int
  /-- Whether the gap to the next smaller magnitude is half the gap above. -/
  atBinade : Bool
deriving DecidableEq, Repr

/-- The exact value of a finite number, `none` for an infinity or no number. -/
def Dyadic.ofFloat? (x : Float) : Option Dyadic :=
  let bits := x.toBits.toNat
  let negative := bits / twoTo 63 = 1
  let field : Nat := bits / twoTo 52 % twoTo 11
  let fraction : Nat := bits % twoTo 52
  if field = 2047 then none
  else if field = 0 then some ⟨negative, fraction, -1074, false⟩
  else some ⟨negative, fraction + twoTo 52, (field : Int) - 1075, fraction = 0 && 1 < field⟩

/-- Position in the total order of all numbers: by magnitude, negative ones
reversed, minus zero just below zero. -/
def totalKey (x : Float) : Int :=
  let bits : Int := x.toBits.toNat
  if bits < twoTo 63 then bits else twoTo 63 - bits - 1

/-- The total order of all numbers, infinities and non-numbers included. -/
def totalLe (x y : Float) : Bool := totalKey x ≤ totalKey y

/-- Whether a number is zero, of either sign. -/
def isZero (x : Float) : Bool := x.toBits = 0 || x.toBits = 0x8000000000000000

/-- Whether two numbers are the same, the two zeros counting as one. -/
def sameFloat (x y : Float) : Bool := x = y || (isZero x && isZero y)

/-! ### Rounding -/

/-- Where a tie between two whole numbers goes. -/
inductive Tie where
  | toEven
  | awayFromZero
deriving DecidableEq, Repr

/-- The whole number nearest to `num / den`. -/
def roundDiv (num den : Nat) (tie : Tie) : Nat :=
  let q := num / den
  let r := num % den
  if 2 * r < den then q
  else if den < 2 * r then q + 1
  else match tie with
    | .toEven => if q % 2 = 0 then q else q + 1
    | .awayFromZero => q + 1

/-- Numerator and denominator of a dyadic magnitude. -/
def Dyadic.ratio (d : Dyadic) : Nat × Nat :=
  if 0 ≤ d.exponent then (d.significand * twoTo d.exponent.toNat, 1)
  else (d.significand, twoTo (-d.exponent).toNat)

/-- The number nearest to a decimal `digits · 10 ^ power`. -/
def floatOfDecimal (digits : Nat) (power : Int) : Float :=
  let magnitude : Int := (Nat.toDigits 10 digits).length + power
  if digits = 0 then 0
  else if 310 < magnitude then 1 / 0
  else if magnitude < -330 then 0
  else Float.ofScientific digits (power < 0) power.natAbs

/-! ### Length of a vector -/

/-- The largest whole number whose square is at most `n`, found bit by bit. -/
def floorSqrt (n : Nat) : Nat :=
  (List.range (n.log2 / 2 + 1)).reverse.foldl
    (fun root bit =>
      let next := root + twoTo bit
      if next * next ≤ n then next else root) 0

/-- The square root of `n · 4 ^ exponent`, rounded to a number: the root is taken
to 60 bits and a last bit records whether anything was cut off. -/
def sqrtFloat (n : Nat) (exponent : Int) : Float :=
  let extra := 60 - n.log2 / 2
  let cut := n.log2 / 2 - 60
  let root := floorSqrt (n * twoTo (2 * extra) / twoTo (2 * cut))
  let sticky := if root * root * twoTo (2 * cut) = n * twoTo (2 * extra) then 0 else 1
  Float.scaleB (Float.ofNat (2 * root + sticky)) (exponent - extra + cut - 1)

/-- The length of the vector `(x, y)`, correctly rounded. An infinite side makes
it infinite even when the other is not a number. -/
def hypot (x y : Float) : Float :=
  match Dyadic.ofFloat? x, Dyadic.ofFloat? y with
  | some a, some b =>
    let e := min a.exponent b.exponent
    let m := a.significand * twoTo (a.exponent - e).toNat
    let n := b.significand * twoTo (b.exponent - e).toNat
    sqrtFloat (m * m + n * n) e
  | _, _ => if x.isInf || y.isInf then 1 / 0 else x + y

end AppBuilder
