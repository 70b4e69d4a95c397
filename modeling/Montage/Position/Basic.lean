import Montage.Document.Decoder

/-!
# Positions

A position says where a layer stands on the canvas: a coordinate for each axis, an anchor that
says which point of the content stands there, and an offset in pixels.  A coordinate is a number
of pixels or a text, and `Coordinate.classify` tells the three meanings of a text apart: pixels, a
percentage of the canvas, and an expression.
-/

set_option autoImplicit false

namespace Montage

/-! ## Anchors -/

/-- The point of the content that stands at a position. -/
inductive Anchor where
  | center
  | topLeft
  | topCenter
  | topRight
  | centerLeft
  | centerRight
  | bottomLeft
  | bottomCenter
  | bottomRight
  deriving DecidableEq, Repr

namespace Anchor

/-- All anchors. -/
def all : List Anchor :=
  [center, topLeft, topCenter, topRight, centerLeft, centerRight, bottomLeft, bottomCenter,
    bottomRight]

/-- The name of an anchor in documents. -/
def name : Anchor → String
  | center => "center"
  | topLeft => "top-left"
  | topCenter => "top-center"
  | topRight => "top-right"
  | centerLeft => "center-left"
  | centerRight => "center-right"
  | bottomLeft => "bottom-left"
  | bottomCenter => "bottom-center"
  | bottomRight => "bottom-right"

/-- The anchor of a name. -/
def ofName? (s : String) : Option Anchor := all.find? fun anchor ↦ anchor.name == s

/-- The share of the content's width that lies before the anchor. -/
def horizontal : Anchor → Rat
  | topLeft | centerLeft | bottomLeft => 0
  | center | topCenter | bottomCenter => 1 / 2
  | topRight | centerRight | bottomRight => 1

/-- The share of the content's height that lies above the anchor. -/
def vertical : Anchor → Rat
  | topLeft | topCenter | topRight => 0
  | center | centerLeft | centerRight => 1 / 2
  | bottomLeft | bottomCenter | bottomRight => 1

end Anchor

/-! ## Coordinates -/

/-- Where something stands on one axis, as it is written. -/
inductive Coordinate where
  | num (n : Number)
  | text (s : String)
  deriving DecidableEq, Repr

/-- What a coordinate means. -/
inductive Placement where
  | percent (x : Quantity)
  | pixels (n : Number)
  | expression (text : String)
  deriving DecidableEq, Repr

/-- A numeral: an optional minus sign, digits, and possibly a point and more digits. -/
def numeral? (s : List Char) : Option Quantity :=
  let digits := match s with
    | '-' :: rest => rest
    | _ => s
  let (whole, rest) := digits.span isDecimal
  let isFraction := match rest with
    | [] => true
    | '.' :: more => !more.isEmpty && more.all isDecimal
    | _ => false
  if whole.isEmpty || !isFraction then none else readQuantityBy .free s

/-- The meaning of a text: a numeral before a percent sign, a numeral with or without its unit,
or else an expression. -/
def classifyText (s : String) : Placement :=
  let body := trim s.toList
  let unmarked (mark : List Char) : Option (List Char) :=
    if mark.isSuffixOf body then some (trimBack (body.take (body.length - mark.length))) else none
  match (unmarked ['%']).bind numeral? with
  | some x => .percent x
  | none =>
    match (numeral? body).or ((unmarked ['p', 'x']).bind numeral?) with
    | some x => .pixels (.real x)
    | none => .expression (String.ofList body)

/-- The coordinate that a plain value is: a number or a text. -/
def Coordinate.ofJson : Json → Except Error Coordinate
  | .str s => .ok (.text s)
  | value =>
    match value.number? with
    | some n => .ok (.num n)
    | none => .error .badKind

/-- The meaning of a coordinate. -/
def Coordinate.classify : Coordinate → Placement
  | .num n => .pixels n
  | .text s => classifyText s

/-! ## Positions -/

/-- Where a layer stands on the canvas.  What nobody gave is the whole number zero; a number that
is given is a quantity. -/
structure Position where
  x : Coordinate := .num 0
  y : Coordinate := .num 0
  anchor : Option Anchor := none
  dx : Number := 0
  dy : Number := 0
  deriving DecidableEq, Repr

namespace Position

/-- The margin of a named placement, in pixels. -/
def defaultMargin : Number := 20

variable [Rounding]

/-- A coordinate in a document: a number or a text that is not blank. -/
def decodeCoordinate : Decoder Coordinate
  | .str s => if isAllBlank s then .reject else .ok (.text s)
  | .null => .reject
  | value => (Decoder.quantity value).map fun x ↦ .num (.real x)

/-- An offset in a document. -/
def decodeOffset : Decoder Number := fun value ↦ (Decoder.quantity value).map .real

/-- A position from a document. -/
def decode : Decoder Position := Decoder.object fun document ↦
  Position.mk
    <$> Decoder.field "x" (.num 0) decodeCoordinate document
    <*> Decoder.field "y" (.num 0) decodeCoordinate document
    <*> Decoder.optField "anchor" (Decoder.name Anchor.ofName?) document
    <*> Decoder.field "dx" 0 decodeOffset document
    <*> Decoder.field "dy" 0 decodeOffset document

omit [Rounding] in
/-- A coordinate as a document value. -/
def encodeCoordinate : Coordinate → Json
  | .num n => .num n
  | .text s => .str s

omit [Rounding] in
/-- A position as a document. -/
def encode (position : Position) : Json := .obj <|
  always "x" (encodeCoordinate position.x)
    ++ always "y" (encodeCoordinate position.y)
    ++ ifSome "anchor" position.anchor (fun anchor ↦ .str anchor.name)
    ++ always "dx" (.quantity position.dx.exactly)
    ++ always "dy" (.quantity position.dy.exactly)

/-- The coordinates of a named placement: the share of the canvas, or the margin. -/
def presetDocument? (name : String) (margin : Json) (inset : Json) : Option Json :=
  let middle : Json := .str "50%"
  let far : Json := .str "100%"
  let placed (x y : Json) (anchor : Anchor) (offsets : List (String × Json)) : Json :=
    .obj ([("x", x), ("y", y), ("anchor", .str anchor.name)] ++ offsets)
  match name with
  | "center" => some (placed middle middle .center [])
  | "top" => some (placed middle margin .topCenter [])
  | "bottom" => some (placed middle far .bottomCenter [("dy", inset)])
  | "left" => some (placed margin middle .centerLeft [])
  | "right" => some (placed far middle .centerRight [("dx", inset)])
  | "top-left" => some (placed margin margin .topLeft [])
  | "top-right" => some (placed far margin .topRight [("dx", inset)])
  | "bottom-left" => some (placed margin far .bottomLeft [("dy", inset)])
  | "bottom-right" => some (placed far far .bottomRight [("dx", inset), ("dy", inset)])
  | _ => none

/-- A position from the name of a placement and a distance to the edges of the canvas. -/
def preset (name : Json) (margin : Json) : Except Error Position := do
  let inset ← match margin.number? with
    | some n => .ok (Json.num n.neg)
    | none => .error .badKind
  match name with
  | .arr _ | .obj _ => throw .badKind
  | .str s =>
    match presetDocument? s margin inset with
    | some document => (decode document).toExcept
    | none => throw (.refused (.positionPreset s))
  | other => throw (.refused (.positionPreset other.shown))

/-- A position from what a caller may give: nothing, the name of a placement, or a document. -/
def coerce : Json → Except Error Position
  | .null => .ok {}
  | .str s => preset (.str s) (.num defaultMargin)
  | .obj members => (decode (.obj members)).toExcept
  | value => .error (.mismatched (.position value.kindName))

end Position
end Montage
