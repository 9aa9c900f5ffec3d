/-! Syntax trees: what a program means once its tokens are parsed.

Parentheses leave no trace in a tree; the nesting of the nodes says it all. The
operators of two operands are of two sorts: a `BinaryOp` takes the values of both
operands, a `LogicalOp` looks at the second only if the first does not decide.

Parsing, writing and running a program go into its nested parts one inside the
other, and every part being worked on holds frames of a stack of limited size.
The costs of a step inward are stated where the step is. Work that would need
more frames than there are fails as a whole. -/
namespace Scriptlet

/-- The orders that two values can be asked for. -/
inductive Comparison where
  | greater
  | greaterEqual
  | less
  | lessEqual
  deriving DecidableEq, Repr

inductive BinaryOp where
  | plus | minus | star | slash
  | equal | notEqual
  | compare (c : Comparison)
  deriving DecidableEq, Repr

inductive UnaryOp where
  | not
  | negate
  deriving DecidableEq, Repr

inductive LogicalOp where
  | and
  | or
  deriving DecidableEq, Repr

def Comparison.symbol : Comparison → String
  | .greater => ">"
  | .greaterEqual => ">="
  | .less => "<"
  | .lessEqual => "<="

def BinaryOp.symbol : BinaryOp → String
  | .plus => "+"
  | .minus => "-"
  | .star => "*"
  | .slash => "/"
  | .equal => "=="
  | .notEqual => "!="
  | .compare c => c.symbol

def UnaryOp.symbol : UnaryOp → String
  | .not => "!"
  | .negate => "-"

def LogicalOp.symbol : LogicalOp → String
  | .and => "and"
  | .or => "or"

/-- An expression: it has a value. -/
inductive Expr where
  | number (value : Float)
  | boolean (value : Bool)
  | nil
  | string (value : String)
  | variable (name : String)
  | assign (name : String) (value : Expr)
  | unary (op : UnaryOp) (operand : Expr)
  | binary (op : BinaryOp) (left right : Expr)
  | logical (op : LogicalOp) (left right : Expr)
  deriving DecidableEq

/-- A statement: it has an effect. -/
inductive Stmt where
  /-- Evaluates the expression for its effect alone. -/
  | expression (e : Expr)
  | print (e : Expr)
  /-- Declares a name in the innermost scope, with or without a value. -/
  | declare (name : String) (initial : Option Expr)
  | block (body : List Stmt)
  | branch (condition : Expr) (yes : Stmt) (no : Option Stmt)

/-! ### The room that nested work has -/

/-- How many frames the stack holds. -/
def stackLimit : Nat := 900

/-- The nesting that a program may have unless another limit is asked for. -/
def defaultNesting : Nat := 41

end Scriptlet
