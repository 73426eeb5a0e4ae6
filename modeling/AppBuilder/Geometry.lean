import AppBuilder.Json.Decode
import AppBuilder.Number.Decimal

/-!
Points, rectangles and directions on the screen, in pixels.

A rectangle is anchored at its top left corner. `Rect.checked` admits only finite
rectangles without a negative extent. A pointer movement has the direction of its
longer axis, the horizontal one when both are equally long.
-/

namespace AppBuilder

/-! ### Numbers that may be undefined -/

/-- The smaller of two numbers; one that is not a number is passed over. -/
def lesser (x y : Float) : Float :=
  if x.isNaN then y else if y.isNaN then x else if y < x then y else x

/-- The larger of two numbers; one that is not a number is passed over. -/
def greater (x y : Float) : Float :=
  if x.isNaN then y else if y.isNaN then x else if x < y then y else x

/-! ### Points -/

structure Point where
  x : Float
  y : Float
deriving DecidableEq

namespace Point

def origin : Point := ⟨0, 0⟩

/-- Whether both coordinates are zero, of either sign. -/
def isOrigin (p : Point) : Bool := p.x == 0 && p.y == 0

def add (p q : Point) : Point := ⟨p.x + q.x, p.y + q.y⟩

def sub (p q : Point) : Point := ⟨p.x - q.x, p.y - q.y⟩

def distance (p q : Point) : Float := hypot (p.x - q.x) (p.y - q.y)

end Point

/-! ### Rectangles -/

structure Rect where
  x : Float
  y : Float
  width : Float
  height : Float
deriving DecidableEq

/-- Why four numbers make no rectangle. -/
inductive RectError where
  | notFinite (x y width height : Float)
  | negativeExtent (width height : Float)
deriving DecidableEq

/-- Numbers in messages are written without exponent and whole ones without `.0`. -/
def messageNumber (x : Float) : String := floatText ⟨none, false, false⟩ x

def RectError.message : RectError → String
  | .notFinite x y w h =>
    "non-finite rect: (" ++ messageNumber x ++ ", " ++ messageNumber y ++ ", " ++
      messageNumber w ++ ", " ++ messageNumber h ++ ")"
  | .negativeExtent w h => "negative extent: " ++ messageNumber w ++ "x" ++ messageNumber h

namespace Rect

/-- The rectangle of four numbers, when it is finite and has no negative extent. -/
def checked (x y width height : Float) : Except RectError Rect :=
  if !(x.isFinite && y.isFinite && width.isFinite && height.isFinite) then
    .error (.notFinite x y width height)
  else if width < 0 || height < 0 then .error (.negativeExtent width height)
  else .ok ⟨x, y, width, height⟩

def zero : Rect := ⟨0, 0, 0, 0⟩

def topLeft (r : Rect) : Point := ⟨r.x, r.y⟩

def right (r : Rect) : Float := r.x + r.width

def bottom (r : Rect) : Float := r.y + r.height

/-- Whether a height lies between the top and the bottom edge, edges included. -/
def spansY (r : Rect) (y : Float) : Bool := y >= r.y && y <= r.bottom

/-- Whether a point lies inside, edges included. -/
def contains (r : Rect) (p : Point) : Bool := p.x >= r.x && p.x <= r.right && r.spansY p.y

/-- The rectangle as seen from a point. -/
def relativeTo (r : Rect) (p : Point) : Rect := ⟨r.x - p.x, r.y - p.y, r.width, r.height⟩

/-- The smallest rectangle around two. -/
def union (r s : Rect) : Rect :=
  let x := lesser r.x s.x
  let y := lesser r.y s.y
  ⟨x, y, greater r.right s.right - x, greater r.bottom s.bottom - y⟩

/-- The fields of a rectangle. -/
def toFields (r : Rect) : List (String × Json) :=
  [("x", .real r.x), ("y", .real r.y), ("width", .real r.width), ("height", .real r.height)]

def toJson (r : Rect) : Json := .object r.toFields

def reader : Decode.RecordReader Rect := do
  let x ← Decode.required "x" Decode.float
  let y ← Decode.required "y" Decode.float
  let width ← Decode.required "width" Decode.float
  let height ← Decode.required "height" Decode.float
  return ⟨x, y, width, height⟩

def ofJson? : Decoder Rect := Decode.record reader

end Rect

def Point.ofJson? : Decoder Point := Decode.record do
  let x ← Decode.required "x" Decode.float
  let y ← Decode.required "y" Decode.float
  return ⟨x, y⟩

/-! ### Directions -/

inductive Direction where
  | up
  | down
  | left
  | right
deriving DecidableEq, Repr

namespace Direction

def isVertical : Direction → Bool
  | .up | .down => true
  | .left | .right => false

/-- The direction of a movement; none of standing still. -/
def ofDelta? (dx dy : Float) : Option Direction :=
  if dx == 0 && dy == 0 then none
  else if dy.abs > dx.abs then some (if dy < 0 then .up else .down)
  else some (if dx < 0 then .left else .right)

/-- The names of the directions. -/
def names : List (String × Direction) :=
  [("UP", .up), ("DOWN", .down), ("LEFT", .left), ("RIGHT", .right)]

def name : Direction → String
  | .up => "UP"
  | .down => "DOWN"
  | .left => "LEFT"
  | .right => "RIGHT"

def ofJson? : Decoder Direction := Decode.word names

end Direction

end AppBuilder
