import Scriptlet.Parse.Statement

/-! Parsing with a counter.

The parsers of a level are given room, and what is nested is parsed by parsers with
less of it. The same can be done by one parser that counts: `nested` enters a level,
and leaves it again whatever comes of the work in it, be it a result, a fault or the
end of the stack. The count alone decides whether there is room for a level, and
whether malformed declarations are those of a block. Beside it stands a list of the
declarations that have ended, with what stopped them.

The definitions here are those of expressions, statements and declarations, with the
count in place of the room. What is parsed without entering a level is parsed as
before (`flat`). -/
namespace Scriptlet

open Scriptlet.Parser

/-- What stops a parser that counts. -/
inductive Stop where
  | fault (d : Diagnostic)
  /-- The stack had no room. -/
  | overflow

/-- How far a parser that counts has come. -/
structure Progress where
  cursor : Cursor
  /-- How many levels it has entered and not left. -/
  depth : Nat
  /-- The most that the depth has been. -/
  deepest : Nat
  noted : List Diagnostic
  /-- For every declaration that has ended the fault that stopped it, if there was one. -/
  ended : List (Option Diagnostic)

def Progress.start (ts : Tokens) : Progress :=
  ⟨.start ts, 0, 0, [], []⟩

/-- A parser that counts, with the frames that the stack has left for it. What was done
before it stops stays done. -/
def Counting (α : Type) := Nat → Progress → Except Stop α × Progress

namespace Counting

variable {α β : Type}

protected def pure (a : α) : Counting α :=
  fun _ s => (.ok a, s)

protected def bind (p : Counting α) (f : α → Counting β) : Counting β := fun frames s =>
  match p frames s with
  | (.ok a, s) => f a frames s
  | (.error e, s) => (.error e, s)

instance : Monad Counting where
  pure := Counting.pure
  bind := Counting.bind

/-- Parses what enters no level. -/
def flat (p : Parser α) : Counting α := fun _ s =>
  let reply := p s.cursor
  (reply.outcome.mapError .fault,
    { s with cursor := reply.cursor, noted := s.noted ++ reply.noted })

/-- Stops for want of frames. -/
def overflow : Counting α :=
  fun _ s => (.error .overflow, s)

section
variable (limit : Int)

/-- Works one level further in, which needs `cost` frames. At the limit `refusal` takes the
place of the work. -/
def nested (cost : Nat) (refusal : Parser α) (p : Counting α) : Counting α := fun frames s =>
  if frames < cost then (.error .overflow, s)
  else if limit ≤ s.depth then flat refusal (frames - cost) s
  else
    let (outcome, t) := p (frames - cost)
      { s with depth := s.depth + 1, deepest := max s.deepest (s.depth + 1) }
    (outcome, { t with depth := t.depth - 1 })

/-! ### Expressions -/

/-- What is nested in an expression. -/
structure Inner where
  expression : Counting Expr
  operand : Counting Expr

def chain (layer : Layer) (operand : Counting Expr) : List Token → Expr → Counting Expr
  | [], left => return left
  | _ :: bound, left => do
    match layer (← flat peek).kind with
    | none => return left
    | some node =>
      flat skip
      let right ← operand
      chain layer operand bound (node left right)

def leftFold (layer : Layer) (operand : Counting Expr) : Counting Expr := do
  let first ← operand
  chain layer operand (← flat unread) first

def operation (operand : Counting Expr) : Counting Expr :=
  layers.foldr leftFold operand

def primary (inner : Inner) : Counting Expr := do
  let t ← flat peek
  match t.kind with
  | .trueWord =>
    flat skip
    return .boolean true
  | .falseWord =>
    flat skip
    return .boolean false
  | .nilWord =>
    flat skip
    return .nil
  | .number =>
    flat skip
    match Decimal.read? t.text with
    | some x => return .number x
    | none => flat (refuse t (.invalidNumber t.text))
  | .string =>
    flat skip
    return .string t.stringValue
  | .identifier =>
    flat skip
    return .variable t.text
  | .leftParen =>
    flat skip
    let e ← nested limit 16 (refuse t .tooMuchNesting) inner.expression
    let _ ← flat (expect .rightParen (.expectedMark .rightParen .expression))
    return e
  | .unknown => flat (refuse t (.unexpectedCharacter t.text))
  | _ => flat (refuse t .expectedExpression)

def operandWith (inner : Inner) : Counting Expr := do
  let t ← flat peek
  match unaryOp? t.kind with
  | some op =>
    flat skip
    return .unary op (← nested limit 1 (refuse t .tooMuchNesting) inner.operand)
  | none => primary limit inner

def expressionWith (inner : Inner) : Counting Expr := do
  let target ← operation (operandWith limit inner)
  let t ← flat peek
  if t.kind = .equal then
    flat skip
    let value ← nested limit 1 (refuse t .tooMuchNesting) inner.expression
    match target with
    | .variable name => return .assign name value
    | _ =>
      flat (note t .invalidTarget)
      return target
  else return target

/-- What is nested, for so many levels; the limit keeps work from coming any deeper. -/
def inner : Nat → Inner
  | 0 => ⟨overflow, overflow⟩
  | levels + 1 => ⟨expressionWith limit (inner levels), operandWith limit (inner levels)⟩

/-- An expression, where so many levels can be entered. -/
def expression (levels : Nat) : Counting Expr :=
  expressionWith limit (inner limit levels)

/-! ### Statements -/

/-- What is nested in a statement. -/
structure Body where
  branch : Counting Stmt
  block : Counting (List Stmt)

def ifChain (expr : Counting Expr) (body : Body) : List Token → Counting Stmt
  | [] => flat (do refuse (← peek) (.expectedMark .leftParen .ifWord))
  | _ :: bound => do
    let _ ← flat (expect .leftParen (.expectedMark .leftParen .ifWord))
    let condition ← expr
    let close ← flat (expect .rightParen (.expectedMark .rightParen .condition))
    let yes ← nested limit 2 (refuse close .tooMuchNesting) body.branch
    let t ← flat peek
    if t.kind = .elseWord then
      flat skip
      if (← flat peek).kind = .ifWord then
        flat skip
        return .branch condition yes (some (← ifChain expr body bound))
      else
        return .branch condition yes
          (some (← nested limit 2 (refuse t .tooMuchNesting) body.branch))
    else return .branch condition yes none

def statementWith (expr : Counting Expr) (body : Body) : Counting Stmt := do
  let t ← flat peek
  match t.kind with
  | .forWord | .funWord | .returnWord => flat (refuse t (.unsupported t.kind))
  | .leftBrace =>
    flat skip
    let statements ← nested limit 3 (refuseBlock t) body.block
    let _ ← flat (expect .rightBrace (.expectedMark .rightBrace .block))
    return .block statements
  | .printWord =>
    flat skip
    let e ← expr
    flat (semicolon .value)
    return .print e
  | .ifWord =>
    flat skip
    ifChain limit expr body (← flat unread)
  | _ =>
    let e ← expr
    flat (semicolon .expression)
    return .expression e

end

def variableWith (expr : Counting Expr) : Counting Stmt := do
  let name ← flat (expect .identifier .expectedName)
  if (← flat peek).kind = .equal then
    flat skip
    let initial ← expr
    flat (semicolon .declaration)
    return .declare name.text (some initial)
  else
    flat (semicolon .declaration)
    return .declare name.text none

/-- Notes the fault that stopped a parser, and resumes behind it; at a depth above zero, in the
way of a block. The end of the stack is not recovered from. -/
def recovering (p : Counting Stmt) : Counting (Option Stmt) := fun frames s =>
  match p frames s with
  | (.ok stmt, t) => (.ok (some stmt), { t with ended := t.ended ++ [none] })
  | (.error (.fault d), t) =>
    let moved :=
      if t.cursor.rest.length = s.cursor.rest.length then t.cursor.advance else t.cursor
    (.ok none,
      { t with
        cursor := moved.resume (decide (0 < t.depth))
        noted := t.noted ++ [d]
        ended := t.ended ++ [some d] })
  | (.error .overflow, t) => (.error .overflow, t)

def sequence (inBlock : Bool) (one : Counting (Option Stmt)) :
    List Token → Counting (List Stmt)
  | [] => return []
  | _ :: bound => do
    if (← flat atEnd) || (inBlock && (← flat peek).kind == .rightBrace) then return []
    else
      let first ← one
      return first.toList ++ (← sequence inBlock one bound)

section
variable (limit : Int)

def declarationWith (expr : Counting Expr) (body : Body) : Counting Stmt := do
  if (← flat peek).kind = .letWord then
    flat skip
    variableWith expr
  else statementWith limit expr body

def body : Nat → Body
  | 0 => ⟨overflow, overflow⟩
  | levels + 1 =>
    ⟨statementWith limit (expression limit levels) (body levels),
      do
        sequence true
          (recovering (declarationWith limit (expression limit levels) (body levels)))
          (← flat unread)⟩

/-- A declaration that is not recovered from, where so many levels can be entered. -/
def attempt (levels : Nat) : Counting Stmt :=
  declarationWith limit (expression limit levels) (body limit levels)

def declaration (levels : Nat) : Counting (Option Stmt) :=
  recovering (attempt limit levels)

/-- All declarations. -/
def program : Counting (List Stmt) := do
  sequence false (declaration limit limit.toNat) (← flat unread)

end

end Counting

end Scriptlet
