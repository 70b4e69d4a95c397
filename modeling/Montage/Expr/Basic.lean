import Montage.Json.Basic
import Montage.Text.Split

/-!
# Per-frame expressions

Expressions over the variables of a frame: its time, the size of the canvas and of the content.
They are built as trees and written once, at the end, so that folding constants and leaving out
parentheses each happen in one place.

A tree is built by `Expr.combine`, which folds two constants into one and drops neutral operands,
and written by `Expr.text`, which puts an operand into parentheses where the text would be read
differently without them.
-/

set_option autoImplicit false

namespace Montage

/-- The four operations of expressions. -/
inductive Operation where
  | plus
  | minus
  | times
  | dividedBy
  deriving DecidableEq, Repr

namespace Operation

/-- The sign of an operation. -/
def sign : Operation → Char
  | .plus => '+'
  | .minus => '-'
  | .times => '*'
  | .dividedBy => '/'

/-- How strongly an operation binds its operands. -/
def precedence : Operation → Nat
  | .plus | .minus => 1
  | .times | .dividedBy => 2

/-- Whether an operand of the same strength on the right keeps its parentheses. -/
def separatesRight : Operation → Bool
  | .minus | .dividedBy => true
  | .plus | .times => false

end Operation

/-- An expression.  `raw` is text given by a caller, which is passed on as it is. -/
inductive Expr where
  | num (value : Number)
  | var (name : String)
  | raw (text : String)
  | binary (operation : Operation) (left right : Expr)
  | call (function : String) (args : List Expr)
  deriving Repr, Inhabited

namespace Expr

/-! ## Writing -/

/-- The strength of what needs no parentheses. -/
def atomic : Nat := 3

/-- Whether a text is a name or a numeral, and so reads as one operand; a line feed may end it. -/
def isSimple (text : String) : Bool :=
  let s := text.toList
  let body := if s.getLast? = some '\n' then s.dropLast else s
  match body with
  | [] => false
  | c :: rest =>
    let isName := (c.isAlpha || c == '_') && rest.all fun d ↦ d.isAlphanum || d == '_'
    let numeral := if c = '-' then rest else body
    isName || (!numeral.isEmpty && numeral.all fun d ↦ d.isDigit || d == '.')

/-- How strongly the outermost operation of an expression binds. -/
def precedence : Expr → Nat
  | .num _ | .var _ | .call _ _ => atomic
  | .raw text => if isSimple text then atomic else 0
  | .binary operation _ _ => operation.precedence

/-- Whether an expression is a constant below zero. -/
def isNegativeConstant : Expr → Bool
  | .num n => n.lt 0
  | _ => false

/-- A text between parentheses, if wanted. -/
def parenthesized (wanted : Bool) (text : List Char) : List Char :=
  if wanted then '(' :: text ++ [')'] else text

mutual

/-- The text of an expression. -/
def text : Expr → List Char
  | .num n => n.text.toList
  | .var name => name.toList
  | .raw text => text.toList
  | .binary operation left right =>
    let strength := operation.precedence
    let inLeft := left.precedence < strength
    let inRight := right.precedence < strength
      || (right.precedence == strength && operation.separatesRight) || right.isNegativeConstant
    parenthesized inLeft (text left) ++ operation.sign :: parenthesized inRight (text right)
  | .call function args => function.toList ++ '(' :: argsText args ++ [')']

/-- The texts of arguments, with commas between them. -/
def argsText : List Expr → List Char
  | [] => []
  | [arg] => text arg
  | arg :: rest => text arg ++ ',' :: argsText rest

end

/-- The text of an expression as a string. -/
def render (e : Expr) : String := String.ofList e.text

mutual

/-- Whether every constant of an expression can be written. -/
def isWritable : Expr → Bool
  | .num n => n.isWritable
  | .var _ | .raw _ => true
  | .binary _ left right => isWritable left && isWritable right
  | .call _ args => areWritable args

/-- Whether every constant of some expressions can be written. -/
def areWritable : List Expr → Bool
  | [] => true
  | arg :: rest => isWritable arg && areWritable rest

end

/-- Writes an expression; whole numbers that grew too long cannot be written. -/
def write (e : Expr) : Except Error String :=
  if e.isWritable then .ok e.render else .error .badValue

/-! ## Building -/

/-- Whether an expression is the given constant. -/
def isConstant (value : Number) : Expr → Bool
  | .num n => n.eq value
  | _ => false

/-- An expression from a plain value: a number, a truth value or the text of an expression. -/
def ofJson : Json → Except Error Expr
  | .bool b => .ok (.num (.whole (if b then 1 else 0)))
  | .num n => .ok (.num n)
  | .str s => .ok (.raw (trimmed s))
  | value => .error (.mismatched (.expression value.kindName))

/-- Drops neutral operands and turns the addition of a negative constant into a subtraction. -/
def simplified (operation : Operation) (a b : Expr) : Expr :=
  match operation with
  | .plus =>
    if a.isConstant 0 then b
    else if b.isConstant 0 then a
    else match b with
      | .num n => if n.lt 0 then .binary .minus a (.num n.neg) else .binary .plus a b
      | _ => .binary .plus a b
  | .minus =>
    if b.isConstant 0 then a
    else match b with
      | .num n => if n.lt 0 then .binary .plus a (.num n.neg) else .binary .minus a b
      | _ => .binary .minus a b
  | .times =>
    if a.isConstant 0 || b.isConstant 0 then .num 0
    else if a.isConstant 1 then b
    else if b.isConstant 1 then a
    else .binary .times a b
  | .dividedBy =>
    if b.isConstant 1 then a
    else if a.isConstant 0 then .num 0
    else .binary .dividedBy a b

variable [Rounding]

/-- The constant that two constants make; a division by zero makes none. -/
def folded (operation : Operation) (a b : Number) : Option (Except Error Number) :=
  match operation with
  | .plus => some (a.add b)
  | .minus => some (a.sub b)
  | .times => some (a.mul b)
  | .dividedBy => if b.isZero then none else some (a.div b)

/-- The expression that applies an operation to two others.  It fails only where constants do not
fit together. -/
def combine (operation : Operation) (a b : Expr) : Except Error Expr :=
  match a, b with
  | .num m, .num n =>
    match folded operation m n with
    | some result => result.map .num
    | none => .ok (simplified operation a b)
  | _, _ => .ok (simplified operation a b)

/-- The sum of two expressions. -/
def add (a b : Expr) : Except Error Expr := combine .plus a b

/-- The difference of two expressions. -/
def sub (a b : Expr) : Except Error Expr := combine .minus a b

/-- The product of two expressions. -/
def mul (a b : Expr) : Except Error Expr := combine .times a b

/-- The quotient of two expressions. -/
def div (a b : Expr) : Except Error Expr := combine .dividedBy a b

/-- The opposite of an expression, as a product with minus one. -/
def neg (a : Expr) : Except Error Expr := combine .times (.num (.whole (-1))) a

/-! ## Names in use -/

/-- The time of the frame in seconds. -/
def time : Expr := .var "t"

/-- The number pi, by its name. -/
def pi : Expr := .var "PI"

/-- A quantity as a constant. -/
def quantity (x : Quantity) : Expr := .num (.real x)

/-- The value kept between two bounds. -/
def clip (value low high : Expr) : Expr := .call "clip" [value, low, high]

/-- One inside the window from `start` until before `stop`, and zero outside; without `stop` the
window never closes. -/
def window (start : Expr) (stop : Option Expr) : Except Error Expr :=
  let opened := Expr.call "gte" [time, start]
  match stop with
  | none => .ok opened
  | some stop => mul opened (.call "lt" [time, stop])

end Expr

/-- What a caller gives where an expression is wanted: an expression, or a plain value, which
becomes one only where it is used. -/
inductive Operand where
  | expr (e : Expr)
  | plain (value : Json)
  deriving Repr, Inhabited

/-- The expression that an operand is. -/
def Operand.toExpr : Operand → Except Error Expr
  | .expr e => .ok e
  | .plain value => Expr.ofJson value

end Montage
