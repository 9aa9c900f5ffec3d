import Scriptlet.Text.Basic
import Scriptlet.Text.Message
import Scriptlet.Token.Basic

/-! What can be wrong with a source.

A `Fault` is the cause, a `Diagnostic` the fault together with the token that it
is blamed on. All faults but one are found while parsing; the scanner finds only
strings that are not closed. -/
namespace Scriptlet

/-- What stands before a mark that is missing. -/
inductive Construct where
  | declaration
  | block
  | value
  | ifWord
  | condition
  | expression
  deriving DecidableEq, Repr

def Construct.name : Construct → String
  | .declaration => "variable declaration"
  | .block => "block"
  | .value => "value"
  | .ifWord => "'if'"
  | .condition => "if condition"
  | .expression => "expression"

inductive Fault where
  | unterminatedString
  | unexpectedCharacter (text : String)
  | invalidNumber (text : String)
  | expectedExpression
  | expectedName
  | expectedMark (mark : Kind) (after : Construct)
  /-- A statement whose keyword is reserved and means nothing yet. -/
  | unsupported (word : Kind)
  | invalidTarget
  | tooMuchNesting
  deriving DecidableEq, Repr

namespace Fault

/-- Whether the scanner finds it, rather than the parser. -/
def isLexical (f : Fault) : Bool :=
  f == .unterminatedString

def message : Fault → Text.Message
  | .unterminatedString => [.plain "Unterminated string."]
  | .unexpectedCharacter text => [.plain "Unexpected character '", .term text, .plain "'."]
  | .invalidNumber text => [.plain "Invalid number literal '", .term text, .plain "'."]
  | .expectedExpression => [.plain "Expected expression."]
  | .expectedName => [.plain "Expected variable name."]
  | .expectedMark mark after =>
    [.plain "Expected '", .term mark.spelling, .plain ("' after " ++ after.name ++ ".")]
  | .unsupported word =>
    [.plain "'", .term word.spelling, .plain "' statements are not supported."]
  | .invalidTarget => [.plain "Invalid assignment target."]
  | .tooMuchNesting => [.plain "Too much nesting."]

end Fault

structure Diagnostic where
  fault : Fault
  token : Token
  deriving DecidableEq, Repr

/-- Where a token stands: the number of its line, and the token itself. -/
def Token.position (source : List Char) (t : Token) : String :=
  "\nAtLine [" ++ Nat.repr (Text.lineNumber source t.start) ++ "] AtToken[" ++ t.label ++ "]"

/-- The wording and the place of a diagnostic. -/
def Diagnostic.text (source : List Char) (d : Diagnostic) : String :=
  Text.Message.text d.fault.message ++ d.token.position source

end Scriptlet
