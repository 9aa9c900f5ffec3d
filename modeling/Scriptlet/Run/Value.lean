import Scriptlet.Decimal.Notation
import Scriptlet.Text.Message
import Scriptlet.Tree.Basic

/-! Values, and what the operators do with them.

Numbers are doubles and obey their arithmetic: dividing by zero gives an infinity
or no number, and what is no number equals nothing, itself included. Equality
asks of any two values and is false across kinds; an order needs two values of
one kind; all other operators need the kinds they are made for. -/
namespace Scriptlet

inductive Value where
  | number (x : Float)
  | boolean (b : Bool)
  | nil
  | string (s : String)
  deriving DecidableEq

inductive ValueKind where
  | number
  | boolean
  | nil
  | string
  deriving DecidableEq, Repr

def ValueKind.name : ValueKind → String
  | .number => "number"
  | .boolean => "boolean"
  | .nil => "nil"
  | .string => "string"

def Value.kind : Value → ValueKind
  | .number _ => .number
  | .boolean _ => .boolean
  | .nil => .nil
  | .string _ => .string

/-- The text that a print statement writes. -/
def Value.display : Value → String
  | .number x => Decimal.write "NaN" x
  | .boolean b => if b then "true" else "false"
  | .nil => "nil"
  | .string s => s

/-! ### Errors -/

/-- What can go wrong while a program runs. -/
inductive RunError where
  | undefined (name : String)
  | uninitialized (name : String)
  | operands (op : BinaryOp) (left right : ValueKind)
  | operand (op : UnaryOp) (found : ValueKind)
  /-- A condition that is not a boolean; `context` says whose condition. -/
  | notBoolean (context : String) (found : ValueKind)
  | stackOverflow
  /-- The global scope was to be ended. -/
  | globalScope
  deriving DecidableEq, Repr

/-- What the operands of an operator have to be. -/
def BinaryOp.demand : BinaryOp → String
  | .compare _ => "of the same kind"
  | .plus => "two numbers or two strings"
  | _ => "numbers"

def UnaryOp.demand : UnaryOp → String
  | .not => "a boolean"
  | .negate => "a number"

def RunError.message : RunError → Text.Message
  | .undefined name => [.plain "Undefined variable '", .term name, .plain "'."]
  | .uninitialized name => [.plain "Variable '", .term name, .plain "' is not initialized."]
  | .operands op left right =>
    [.plain "Operands of '", .term op.symbol, .plain ("' must be " ++ op.demand ++ ", got "),
      .term left.name, .plain " and ", .term right.name, .plain "."]
  | .operand op found =>
    [.plain "Operand of '", .term op.symbol, .plain ("' must be " ++ op.demand ++ ", got "),
      .term found.name, .plain "."]
  | .notBoolean context found =>
    [.term context, .plain " must be a boolean, got ", .term found.name, .plain "."]
  | .stackOverflow => [.plain "maximum recursion depth exceeded"]
  | .globalScope => [.plain "cannot end the global scope"]

/-! ### Operators -/

def Value.equals : Value → Value → Bool
  | .number x, .number y => x == y
  | .boolean a, .boolean b => a == b
  | .nil, .nil => true
  | .string s, .string t => s == t
  | _, _ => false

section
variable {α : Type} [LT α] [LE α] [DecidableLT α] [DecidableLE α]

/-- Whether the order holds between two elements of an ordered type. -/
def Comparison.holds (c : Comparison) (a b : α) : Bool :=
  match c with
  | .greater => b < a
  | .greaterEqual => b ≤ a
  | .less => a < b
  | .lessEqual => a ≤ b

end

/-- Whether the order holds between a thing and itself. -/
def Comparison.isReflexive : Comparison → Bool
  | .greaterEqual | .lessEqual => true
  | .greater | .less => false

/-- Whether the order holds between two values: false is below true, and strings
are ordered by their first difference. Values of two kinds have no order. -/
def Comparison.holds? (c : Comparison) : Value → Value → Option Bool
  | .number x, .number y => some (c.holds x y)
  | .boolean a, .boolean b => some (c.holds a b)
  | .nil, .nil => some c.isReflexive
  | .string s, .string t => some (c.holds s t)
  | _, _ => none

def BinaryOp.apply (op : BinaryOp) (left right : Value) : Except RunError Value :=
  match op, left, right with
  | .equal, _, _ => .ok (.boolean (left.equals right))
  | .notEqual, _, _ => .ok (.boolean (!left.equals right))
  | .compare c, _, _ =>
    match c.holds? left right with
    | some b => .ok (.boolean b)
    | none => .error (.operands op left.kind right.kind)
  | .plus, .string s, .string t => .ok (.string (s ++ t))
  | .plus, .number x, .number y => .ok (.number (x + y))
  | .minus, .number x, .number y => .ok (.number (x - y))
  | .star, .number x, .number y => .ok (.number (x * y))
  | .slash, .number x, .number y => .ok (.number (x / y))
  | _, _, _ => .error (.operands op left.kind right.kind)

def UnaryOp.apply (op : UnaryOp) (operand : Value) : Except RunError Value :=
  match op, operand with
  | .not, .boolean b => .ok (.boolean (!b))
  | .negate, .number x => .ok (.number (-x))
  | _, _ => .error (.operand op operand.kind)

/-- The boolean that a condition is. No other value stands for true or false. -/
def Value.truth (context : String) : Value → Except RunError Bool
  | .boolean b => .ok b
  | v => .error (.notBoolean context v.kind)

end Scriptlet
