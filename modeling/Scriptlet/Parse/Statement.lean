import Scriptlet.Parse.Expression
import Scriptlet.Token.Scan

/-! Parsing statements, declarations and whole sources.

A block and the branches of an if are nested one level further in, like the
nested parts of an expression, and share the room with them. The arms of a chain
of ifs, each behind the else of the one before, stand on the same level.

A declaration that is malformed is left out: `declaration` notes the diagnostic
that stopped it and resumes behind the next semicolon or before the next keyword
that begins a statement. Inside a block it also resumes before the brace that may
close the block. A block for which there is no room is skipped as a whole.

Parsing a whole source never fails: it returns the statements that are well formed
together with all diagnostics, those of the scanner first. It also tells how many
frames it needed, and whether the stack has them is for the caller to judge. -/
namespace Scriptlet

open Scriptlet.Parser

/-- The parsers of the statements one level further in. They are given the token
that opens the level. -/
structure Body where
  branch : Token → Parser Stmt
  /-- The declarations of a block, up to its closing brace. -/
  block : Token → Parser (List Stmt)

/-! ### Statements -/

/-- The end of a statement. -/
def semicolon (after : Construct) : Parser Unit := do
  let _ ← expect .semicolon (.expectedMark .semicolon after)

section
variable (expr : Parser Expr) (body : Body)

/-- What stands behind an else: the arms that follow, or a branch. -/
def elseArm (more : Parser Stmt) (condition : Expr) (yes : Stmt) (t : Token) : Parser Stmt := do
  if (← peek).kind = .ifWord then
    skip
    return .branch condition yes (some (← more))
  else
    return .branch condition yes (some (← inward 2 (body.branch t)))

/-- What stands behind the branch of an arm. -/
def otherwise (more : Parser Stmt) (condition : Expr) (yes : Stmt) : Parser Stmt := do
  let t ← peek
  if t.kind = .elseWord then
    skip
    elseArm body more condition yes t
  else return .branch condition yes none

/-- An arm of a chain of ifs, behind its opening parenthesis. -/
def arm (more : Parser Stmt) : Parser Stmt := do
  let condition ← expr
  let close ← expect .rightParen (.expectedMark .rightParen .condition)
  let yes ← inward 2 (body.branch close)
  otherwise body more condition yes

/-- An if behind its keyword, with all the arms that follow. -/
def ifChain : List Token → Parser Stmt
  | [] => do refuse (← peek) (.expectedMark .leftParen .ifWord)
  | _ :: bound => do
    let _ ← expect .leftParen (.expectedMark .leftParen .ifWord)
    arm expr body (ifChain bound)

end

def statementWith (expr : Parser Expr) (body : Body) : Parser Stmt := do
  let t ← peek
  match t.kind with
  | .forWord | .funWord | .returnWord => refuse t (.unsupported t.kind)
  | .leftBrace =>
    skip
    let statements ← inward 3 (body.block t)
    let _ ← expect .rightBrace (.expectedMark .rightBrace .block)
    return .block statements
  | .printWord =>
    skip
    let e ← expr
    semicolon .value
    return .print e
  | .ifWord =>
    skip
    ifChain expr body (← unread)
  | _ =>
    let e ← expr
    semicolon .expression
    return .expression e

/-- The declaration of a variable, behind its keyword. -/
def variableWith (expr : Parser Expr) : Parser Stmt := do
  let name ← expect .identifier .expectedName
  if (← peek).kind = .equal then
    skip
    let initial ← expr
    semicolon .declaration
    return .declare name.text (some initial)
  else
    semicolon .declaration
    return .declare name.text none

/-- A declaration that is not recovered from. -/
def declarationWith (expr : Parser Expr) (body : Body) : Parser Stmt := do
  if (← peek).kind = .letWord then
    skip
    variableWith expr
  else statementWith expr body

/-! ### Recovery -/

/-- The kinds of token that begin a statement after a malformed one. -/
def beginsStatement : Kind → Bool
  | .forWord | .funWord | .ifWord | .printWord | .returnWord | .letWord => true
  | _ => false

namespace Cursor

/-- Moves on until the token read last is a semicolon or the next one begins a
statement or, inside a block, may close it. -/
def resume (inBlock : Bool) (c : Cursor) : Cursor :=
  go c.last c.rest
where
  go (last : Option Token) : List Token → Cursor
    | [] => { c with last, rest := [] }
    | t :: rest =>
      if last.any (·.kind == .semicolon) || beginsStatement t.kind ||
          (inBlock && t.kind == .rightBrace) then
        { c with last, rest := t :: rest }
      else go (some t) rest

/-- Moves behind the brace that closes `level` open braces. -/
def skipBlock (level : Nat) (c : Cursor) : Cursor :=
  go level c.last c.rest
where
  go : Nat → Option Token → List Token → Cursor
    | 0, last, rest => { c with last, rest }
    | _ + 1, last, [] => { c with last, rest := [] }
    | n + 1, _, t :: rest =>
      match t.kind with
      | .leftBrace => go (n + 2) (some t) rest
      | .rightBrace => go n (some t) rest
      | _ => go (n + 1) (some t) rest

end Cursor

/-- A block for which there is no room, behind its opening brace. -/
def refuseBlock {α : Type} (t : Token) : Parser α :=
  fun c => refuse t .tooMuchNesting (c.skipBlock 1)

/-- Notes what stopped a parser, and resumes behind it. At least one token is
passed over. -/
def recovering (inBlock : Bool) (p : Parser Stmt) : Parser (Option Stmt) := fun c =>
  let reply := p c
  match reply.outcome with
  | .ok s => { reply with outcome := .ok (some s) }
  | .error d =>
    let moved :=
      if reply.cursor.rest.length = c.rest.length then reply.cursor.advance else reply.cursor
    { reply with
      outcome := .ok none
      cursor := moved.resume inBlock
      noted := reply.noted ++ [d] }

theorem recovering_of_ok {p : Parser Stmt} {c : Cursor} {s : Stmt} (h : (p c).outcome = .ok s)
    (inBlock : Bool) : recovering inBlock p c = { p c with outcome := .ok (some s) } := by
  simp only [recovering, h]

theorem recovering_of_error {p : Parser Stmt} {c : Cursor} {d : Diagnostic}
    (h : (p c).outcome = .error d) (inBlock : Bool) :
    recovering inBlock p c =
      { p c with
        outcome := .ok none
        cursor := (if (p c).cursor.rest.length = c.rest.length then (p c).cursor.advance
          else (p c).cursor).resume inBlock
        noted := (p c).noted ++ [d] } := by
  simp only [recovering, h]

/-- Reads declarations up to the end or, inside a block, to a closing brace. Those
that are malformed are left out. -/
def sequence (inBlock : Bool) (one : Parser (Option Stmt)) : List Token → Parser (List Stmt)
  | [] => return []
  | _ :: bound => do
    if (← atEnd) || (inBlock && (← peek).kind == .rightBrace) then return []
    else
      let first ← one
      return first.toList ++ (← sequence inBlock one bound)

/-! ### Levels -/

/-- What is one level further in, where there is room for `room` levels. -/
def body : Nat → Body
  | 0 => ⟨fun t => refuse t .tooMuchNesting, refuseBlock⟩
  | room + 1 =>
    ⟨fun _ => statementWith (expression room) (body room),
      fun _ => do
        sequence true (recovering true (declarationWith (expression room) (body room)))
          (← unread)⟩

/-- A declaration with room for the given number of levels; `none` stands for one
that is malformed. -/
def declaration (room : Nat) : Parser (Option Stmt) :=
  recovering false (declarationWith (expression room) (body room))

/-- All declarations. -/
def program (room : Nat) : Parser (List Stmt) := do
  sequence false (declaration room) (← unread)

/-! ### Sources -/

structure Parsed where
  statements : List Stmt
  diagnostics : List Diagnostic
  frames : Nat

/-- Whether the stack has room for the parsing. -/
def Parsed.fits (p : Parsed) : Bool :=
  p.frames ≤ stackLimit

/-- Whether nothing in the source is nested. -/
def Parsed.isFlat (p : Parsed) : Bool :=
  p.frames == 0

/-- The program that the tokens make up, with room for `room` levels. -/
def parseTokens (room : Nat) (ts : Tokens) : Parsed :=
  let reply := program room (Cursor.start ts)
  { statements := reply.outcome.toOption.getD []
    diagnostics := reply.noted
    frames := reply.frames }

/-- The diagnostics of the scanner. -/
def Tokens.lexical (ts : Tokens) : List Diagnostic :=
  ts.unterminated.map fun t => ⟨.unterminatedString, t⟩

/-- The program that a source makes up, with room for `room` levels. -/
def parse (room : Nat) (source : List Char) : Parsed :=
  let ts := Tokens.scan source
  let parsed := parseTokens room ts
  { parsed with diagnostics := ts.lexical ++ parsed.diagnostics }

end Scriptlet
