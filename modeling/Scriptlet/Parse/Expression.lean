import Scriptlet.Decimal.Numeral
import Scriptlet.Parse.Parser
import Scriptlet.Tree.Basic

/-! Parsing expressions.

From the loosest to the tightest, an expression is an assignment, operands joined
by binary operators in six layers, an operand behind unary operators, and last a
literal, a name or an expression in parentheses. Operators of one layer group to
the left, assignments to the right.

What stands inside parentheses, behind a unary operator or on the right of an
assignment is nested one level further in. `expression room` parses with room
for that many levels; where there is no room left, the token that opens the
level is at fault. -/
namespace Scriptlet

open Scriptlet.Parser

/-- The parsers of what is nested one level further in. They are given the token
that opens the level. -/
structure Inner where
  expression : Token → Parser Expr
  operand : Token → Parser Expr

/-! ### Operators of two operands -/

/-- A layer of operators: the nodes they build. -/
abbrev Layer := Kind → Option (Expr → Expr → Expr)

/-- The layers, loosest first. -/
def layers : List Layer :=
  [ fun
      | .orWord => some (.logical .or)
      | _ => none,
    fun
      | .andWord => some (.logical .and)
      | _ => none,
    fun
      | .notEqual => some (.binary .notEqual)
      | .equalEqual => some (.binary .equal)
      | _ => none,
    fun
      | .greater => some (.binary (.compare .greater))
      | .greaterEqual => some (.binary (.compare .greaterEqual))
      | .less => some (.binary (.compare .less))
      | .lessEqual => some (.binary (.compare .lessEqual))
      | _ => none,
    fun
      | .plus => some (.binary .plus)
      | .minus => some (.binary .minus)
      | _ => none,
    fun
      | .star => some (.binary .star)
      | .slash => some (.binary .slash)
      | _ => none ]

/-- Goes on behind `left` as long as an operator of the layer follows. -/
def chain (layer : Layer) (operand : Parser Expr) : List Token → Expr → Parser Expr
  | [], left => return left
  | _ :: bound, left => do
    match layer (← peek).kind with
    | none => return left
    | some node =>
      skip
      let right ← operand
      chain layer operand bound (node left right)

/-- Operands joined by the operators of one layer. -/
def leftFold (layer : Layer) (operand : Parser Expr) : Parser Expr := do
  let first ← operand
  chain layer operand (← unread) first

/-- Operands joined by binary operators of all layers. -/
def operation (operand : Parser Expr) : Parser Expr :=
  layers.foldr leftFold operand

/-! ### Operands -/

/-- A literal, a name or an expression in parentheses. -/
def primary (inner : Inner) : Parser Expr := do
  let t ← peek
  match t.kind with
  | .trueWord =>
    skip
    return .boolean true
  | .falseWord =>
    skip
    return .boolean false
  | .nilWord =>
    skip
    return .nil
  | .number =>
    skip
    match Decimal.read? t.text with
    | some x => return .number x
    | none => refuse t (.invalidNumber t.text)
  | .string =>
    skip
    return .string t.stringValue
  | .identifier =>
    skip
    return .variable t.text
  | .leftParen =>
    skip
    let e ← inward 16 (inner.expression t)
    let _ ← expect .rightParen (.expectedMark .rightParen .expression)
    return e
  | .unknown => refuse t (.unexpectedCharacter t.text)
  | _ => refuse t .expectedExpression

def unaryOp? : Kind → Option UnaryOp
  | .not => some .not
  | .minus => some .negate
  | _ => none

def operandWith (inner : Inner) : Parser Expr := do
  let t ← peek
  match unaryOp? t.kind with
  | some op =>
    skip
    return .unary op (← inward 1 (inner.operand t))
  | none => primary inner

/-! ### Assignments -/

/-- An operation, or an assignment to one that is a mere name. Assigning to any
other operation is noted as a fault, and the assigned value is dropped. -/
def expressionWith (inner : Inner) : Parser Expr := do
  let target ← operation (operandWith inner)
  let t ← peek
  if t.kind = .equal then
    skip
    let value ← inward 1 (inner.expression t)
    match target with
    | .variable name => return .assign name value
    | _ =>
      note t .invalidTarget
      return target
  else return target

/-! ### Levels -/

/-- What is one level further in, where there is room for `room` levels. -/
def inner : Nat → Inner
  | 0 => ⟨fun t => refuse t .tooMuchNesting, fun t => refuse t .tooMuchNesting⟩
  | room + 1 => ⟨fun _ => expressionWith (inner room), fun _ => operandWith (inner room)⟩

/-- An expression with room for the given number of levels. -/
def expression (room : Nat) : Parser Expr :=
  expressionWith (inner room)

end Scriptlet
