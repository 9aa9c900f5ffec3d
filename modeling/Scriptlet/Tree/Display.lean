import Scriptlet.Decimal.Notation
import Scriptlet.Tree.Basic

/-! Forms: trees as they are written out.

A form is an atom, or a head with parts in parentheses. Every sort of node has a
form, made from the forms of the nodes in it, whichever sort these have: forms
also stand for trees that are put together wrongly. Every inner node is written in
parentheses with its operator or keyword first, so the text shows how the operators
group. `Form.height` counts the frames that writing a form needs: one for every
part, and one more for a block, which goes through its statements. -/
namespace Scriptlet

inductive Form where
  | atom (text : String)
  | group (head : String) (parts : List Form)
  | block (body : List Form)

namespace Form

mutual

def text : Form → String
  | .atom text => text
  | .group head parts => "(" ++ head ++ texts parts ++ ")"
  | .block body => "(block" ++ texts body ++ ")"

/-- The texts of parts, each behind a space. -/
def texts : List Form → String
  | [] => ""
  | f :: rest => " " ++ f.text ++ texts rest

end

mutual

def height : Form → Nat
  | .atom _ => 1
  | .group _ parts => heights parts + 1
  | .block body => heights body + 2

def heights : List Form → Nat
  | [] => 0
  | f :: rest => max f.height (heights rest)

end

/-- The text of a form, if the stack has room for writing it. -/
def text? (f : Form) : Option String :=
  if f.height ≤ stackLimit then some f.text else none

/-! ### Expressions -/

def number (x : Float) : Form :=
  .atom (Decimal.write "nan" x)

def boolean (b : Bool) : Form :=
  .atom (if b then "true" else "false")

def nil : Form :=
  .atom "nil"

def string (s : String) : Form :=
  .atom ("\"" ++ s ++ "\"")

/-- The form of a variable. -/
def name (text : String) : Form :=
  .atom text

def assign (name : String) (value : Form) : Form :=
  .group ("= " ++ name) [value]

def unary (op : UnaryOp) (operand : Form) : Form :=
  .group op.symbol [operand]

def binary (op : BinaryOp) (left right : Form) : Form :=
  .group op.symbol [left, right]

def logical (op : LogicalOp) (left right : Form) : Form :=
  .group op.symbol [left, right]

/-! ### Statements -/

def expression (e : Form) : Form :=
  .group ";" [e]

def print (e : Form) : Form :=
  .group "print" [e]

def declare (name : String) (initial : Option Form) : Form :=
  .group ("let " ++ name) initial.toList

def branch (condition yes : Form) (no : Option Form) : Form :=
  .group "if" (condition :: yes :: no.toList)

end Form

/-! ### The forms and texts of trees -/

def Expr.form : Expr → Form
  | .number x => .number x
  | .boolean b => .boolean b
  | .nil => .nil
  | .string s => .string s
  | .variable name => .name name
  | .assign name value => .assign name value.form
  | .unary op operand => .unary op operand.form
  | .binary op left right => .binary op left.form right.form
  | .logical op left right => .logical op left.form right.form

mutual

def Stmt.form : Stmt → Form
  | .expression e => .expression e.form
  | .print e => .print e.form
  | .declare name none => .declare name none
  | .declare name (some e) => .declare name (some e.form)
  | .block body => .block (bodyForms body)
  | .branch condition yes none => .branch condition.form yes.form none
  | .branch condition yes (some no) => .branch condition.form yes.form (some no.form)

def bodyForms : List Stmt → List Form
  | [] => []
  | s :: rest => s.form :: bodyForms rest

end

def Expr.display (e : Expr) : String :=
  e.form.text

def Stmt.display (s : Stmt) : String :=
  s.form.text

/-- The text of a statement, if the stack has room for writing it. -/
def Stmt.display? (s : Stmt) : Option String :=
  s.form.text?

def Expr.display? (e : Expr) : Option String :=
  e.form.text?

end Scriptlet
