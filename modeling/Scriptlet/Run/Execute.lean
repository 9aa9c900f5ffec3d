import Scriptlet.Run.Action

/-! Evaluating expressions and executing statements.

Operands are evaluated from left to right, each exactly once, except that a
logical operator whose left operand decides does not look at the right one. An
assignment has the assigned value.

A machine has scopes and has printed a text. A block runs in a scope of its own,
which ends with the block however the block ends. `interpret` runs a whole
program: a statement that ends with an error is reported, and the next one runs
all the same.

`evaluate room e` and `execute room s` have `room` frames of the stack to
themselves. Each node takes one, and a logical operator two. -/
namespace Scriptlet

/-! ### Expressions -/

/-- The operand of a logical operator, as an error calls it. -/
def LogicalOp.context (op : LogicalOp) : String :=
  "Left operand of '" ++ op.symbol ++ "'"

/-- Whether a left operand decides the whole. -/
def LogicalOp.decides (op : LogicalOp) (left : Bool) : Bool :=
  left == (op == .or)

/-- Gives a bound name a value. -/
def assignValue (name : String) (v : Value) : Action Scopes Value := do
  Action.change (Scopes.assign name (some v))
  return v

def evaluate : Nat → Expr → Action Scopes Value
  | 0, _ => Action.fail .stackOverflow
  | _ + 1, .number x => return .number x
  | _ + 1, .boolean b => return .boolean b
  | _ + 1, .nil => return .nil
  | _ + 1, .string s => return .string s
  | _ + 1, .variable name => Action.read (Scopes.get name)
  | room + 1, .assign name value => do
    let v ← evaluate room value
    assignValue name v
  | room + 1, .unary op operand => do
    let v ← evaluate room operand
    Action.ofExcept (op.apply v)
  | room + 1, .binary op left right => do
    let l ← evaluate room left
    let r ← evaluate room right
    Action.ofExcept (op.apply l r)
  | room + 1, .logical op left right => do
    let l ← evaluate (room - 1) left
    let b ← Action.ofExcept (l.truth op.context)
    if op.decides b then return l else evaluate (room - 1) right

/-! ### Statements -/

structure Machine where
  scopes : Scopes
  printed : String
  deriving DecidableEq

namespace Machine

/-- A machine that has not run yet. -/
def fresh : Machine :=
  ⟨Scopes.fresh, ""⟩

def write (text : String) (m : Machine) : Machine :=
  { m with printed := m.printed ++ text }

end Machine

/-- An action on scopes, as one on the machine that has them. -/
def onScopes {α : Type} (p : Action Scopes α) : Action Machine α := fun m =>
  let (r, scopes) := p m.scopes
  (r, { m with scopes })

/-- Writes a value on a line. -/
def printLine (v : Value) : Action Machine Unit :=
  fun m => (.ok (), m.write (v.display ++ "\n"))

/-- Runs an action in a scope of its own. -/
def inScope {α : Type} (p : Action Machine α) : Action Machine α := fun m =>
  let (r, m) := p { m with scopes := m.scopes.push }
  match m.scopes.pop with
  | .ok scopes => (r, { m with scopes })
  | .error e => (.error e, m)

/-- The condition of an if, as an error calls it. -/
def ifContext : String :=
  "'if' condition"

mutual

/-- Executes a statement with `room` frames of the stack to itself. -/
def execute : Nat → Stmt → Action Machine Unit
  | 0, _ => Action.fail .stackOverflow
  | room + 1, .expression e => do
    let _ ← onScopes (evaluate room e)
  | room + 1, .print e => do
    let v ← onScopes (evaluate room e)
    printLine v
  | _ + 1, .declare name none => onScopes (Action.change fun s => .ok (s.declare name none))
  | room + 1, .declare name (some e) => do
    let v ← onScopes (evaluate room e)
    onScopes (Action.change fun s => .ok (s.declare name (some v)))
  | room + 1, .block body => inScope (executeAll room body)
  | room + 1, .branch condition yes none => do
    let v ← onScopes (evaluate room condition)
    if ← Action.ofExcept (v.truth ifContext) then execute room yes
  | room + 1, .branch condition yes (some no) => do
    let v ← onScopes (evaluate room condition)
    if ← Action.ofExcept (v.truth ifContext) then execute room yes else execute room no

/-- Executes statements in order, up to the first that ends with an error. -/
def executeAll : Nat → List Stmt → Action Machine Unit
  | _, [] => return ()
  | room, s :: rest => do
    execute room s
    executeAll room rest

end

/-- Executes statements in order and collects their errors. An impatient run stops
at the first one. -/
def interpret (patient : Bool) : List Stmt → Machine → List RunError × Machine
  | [], m => ([], m)
  | s :: rest, m =>
    match execute stackLimit s m with
    | (.ok _, m) => interpret patient rest m
    | (.error e, m) =>
      if patient then
        let (es, m) := interpret patient rest m
        (e :: es, m)
      else ([e], m)

end Scriptlet
