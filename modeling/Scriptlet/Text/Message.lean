import Scriptlet.Text.Basic
import Scriptlet.Text.Quoted

/-! Messages, and how terms are set into them.

A message is text in which some parts are terms: names, marks and other words of
the reader's own program. A layout takes the whole of a term or one character of
it, spells that as it is or quoted, cuts it short and fills it up to a width. The
last two are asked for by a specifier, which is up to two characters for fill and
alignment, a width, and a point with the length that is left. A specifier has places
for more than that, since numbers have use for more; a term has not, and refuses
what is put there.

Styled, the terms are bold: they are emphasized first and then laid out. Emphasis is
the work of a `Painter`. Without style the text stands as it is. -/
namespace Scriptlet.Text

/-! ### Layouts -/

inductive Alignment where
  | left
  | right
  | centre
  deriving DecidableEq, Repr

inductive Spelling where
  | plain
  | quoted
  /-- Quoted, and with no character beyond ASCII. -/
  | ascii
  deriving DecidableEq, Repr

/-- The text with the codes of the characters beyond ASCII in place of them. -/
def ascii (text : String) : String :=
  String.ofList (text.toList.flatMap fun c => if c.toNat < 0x80 then [c] else escapeCode c)

def Spelling.spell (s : Spelling) (text : String) : String :=
  match s with
  | .plain => text
  | .quoted => Text.quoted text
  | .ascii => Text.ascii (Text.quoted text)

structure Layout where
  /-- The position of the character that is taken; without one, it is the whole. -/
  pick : Option Nat
  spelling : Spelling
  /-- How many characters are left. -/
  limit : Option Nat
  width : Nat
  fill : Char
  alignment : Alignment
  deriving DecidableEq, Repr

namespace Layout

/-- The layout that leaves a term as it is. -/
def plain : Layout :=
  ⟨none, .plain, none, 0, ' ', .left⟩

def picked (l : Layout) (text : String) : String :=
  match l.pick with
  | none => text
  | some i => String.ofList (text.toList[i]?).toList

/-- Fills a text up to the width. In the centre, what is odd goes behind. -/
def pad (l : Layout) (text : String) : String :=
  let missing := l.width - text.length
  let before := match l.alignment with
    | .left => 0
    | .right => missing
    | .centre => missing / 2
  String.ofList (List.replicate before l.fill) ++ text ++
    String.ofList (List.replicate (missing - before) l.fill)

/-- The term as it stands in the text. -/
def apply (l : Layout) (term : String) : String :=
  let text := l.spelling.spell (l.picked term)
  l.pad (l.limit.elim text fun n => String.ofList (text.toList.take n))

end Layout

/-! ### Specifiers -/

/-- What is wrong with a specifier. -/
inductive SpecifierFault where
  | tooManyDigits
  | noLength
  | bothGroupings
  | grouping (mark letter : Char)
  /-- More is left than the letter of a kind. -/
  | excess (specifier : List Char)
  | kind (letter : Char)
  | sign
  | space
  | negativeZero
  | alternate
  | signAlignment
  deriving DecidableEq, Repr

/-- A character as an error shows it: by its code if it is a control character or
at least `bound`. -/
def showChar (bound : Nat) (c : Char) : String :=
  if 32 < c.toNat ∧ c.toNat < bound then String.singleton c
  else "\\x" ++ String.ofList (Nat.toDigits 16 c.toNat)

def SpecifierFault.message : SpecifierFault → String
  | .tooManyDigits => "Too many decimal digits in format string"
  | .noLength => "Format specifier missing precision"
  | .bothGroupings => "Cannot specify both ',' and '_'."
  | .grouping mark letter =>
    "Cannot specify '" ++ String.singleton mark ++ "' with '" ++ showChar 128 letter ++ "'."
  | .excess specifier =>
    "Invalid format specifier '" ++ String.ofList specifier ++ "' for object of type 'str'"
  | .kind letter => "Unknown format code '" ++ showChar 128 letter ++ "' for object of type 'str'"
  | .sign => "Sign not allowed in string format specifier"
  | .space => "Space not allowed in string format specifier"
  | .negativeZero => "Negative zero coercion (z) not allowed in string format specifier"
  | .alternate => "Alternate form (#) not allowed in string format specifier"
  | .signAlignment => "'=' alignment not allowed in string format specifier"

namespace Specifier

/-- The largest number that may stand in a template. -/
def maxNumber : Nat := 9223372036854775807

/-- Reads the digits at the front of a text, if there are any. -/
def number? (text : List Char) : Except SpecifierFault (Option Nat × List Char) :=
  let isDigit := fun c => (digit? c).isSome
  let digits := text.takeWhile isDigit
  let n := ofDigits (digits.filterMap digit?)
  if maxNumber < n then .error .tooManyDigits
  else .ok (if digits.isEmpty then none else some n, text.dropWhile isDigit)

/-- Reads one character if it is among the given ones. -/
def mark? (marks text : List Char) : Option Char × List Char :=
  match text with
  | [] => (none, [])
  | c :: rest => if c ∈ marks then (some c, rest) else (none, text)

def alignments : List Char := ['<', '>', '^', '=']

/-- Reads an alignment, and the fill if it stands in front of one. -/
def alignment? (text : List Char) : Option Char × Option Char × List Char :=
  match text with
  | fill :: mark :: rest =>
    if mark ∈ alignments then (some fill, some mark, rest)
    else (none, mark? alignments text)
  | text => (none, mark? alignments text)

/-- Reads the marks that group digits. -/
def grouping? (text : List Char) : Except SpecifierFault (Option Char × List Char) :=
  match text with
  | ',' :: '_' :: _ => .error .bothGroupings
  | '_' :: ',' :: _ => .error .bothGroupings
  | text => .ok (mark? [',', '_'] text)

/-- Reads a point and the number behind it. -/
def length? (text : List Char) : Except SpecifierFault (Option Nat × List Char) :=
  match text with
  | '.' :: rest =>
    match number? rest with
    | .ok (none, _) => .error .noLength
    | r => r
  | text => .ok (none, text)

/-- Whether the digits of a kind of number can be grouped by a mark. -/
def groups (mark letter : Char) : Bool :=
  letter ∈ ['d', 'e', 'f', 'g', 'E', 'G', '%', 'F', '\x00'] ||
    (mark == '_' && letter ∈ ['b', 'o', 'x', 'X'])

end Specifier

open Specifier in
/-- The layout that a specifier asks for. -/
def Layout.ofSpecifier (specifier : List Char) : Except SpecifierFault Layout := do
  if specifier.isEmpty then return plain
  let (fill, alignment, rest) := alignment? specifier
  let (sign, rest) := mark? ['+', '-', ' '] rest
  let (negativeZero, rest) := mark? ['z'] rest
  let (alternate, rest) := mark? ['#'] rest
  let (zero, rest) := if fill.isNone then mark? ['0'] rest else (none, rest)
  let (width, rest) ← number? rest
  let (grouping, rest) ← grouping? rest
  let (limit, rest) ← length? rest
  let kind ← match rest with
    | [] => .ok 's'
    | [kind] => .ok kind
    | _ => .error (.excess specifier)
  if let some mark := grouping then
    if !groups mark kind then throw (.grouping mark kind)
  if kind ≠ 's' then throw (.kind kind)
  if sign = some ' ' then throw .space
  if sign.isSome then throw .sign
  if negativeZero.isSome then throw .negativeZero
  if alternate.isSome then throw .alternate
  if alignment = some '=' then throw .signAlignment
  return ⟨none, .plain, limit, width.getD 0, (fill <|> zero).getD ' ',
    if alignment = some '>' then .right
    else if alignment = some '^' then .centre
    else .left⟩

/-! ### Emphasis -/

inductive Colour where
  | red
  | magenta
  deriving DecidableEq, Repr

/-- A painter sets a text in bold, and in a colour if one is given. What the program
writes is written for any painter. -/
class Painter where
  bold : Option Colour → String → String

/-- The text in bold if styles are on. -/
def emphasize [Painter] (styled : Bool) (colour : Option Colour) (text : String) : String :=
  if styled then Painter.bold colour text else text

/-- The escape sequence with the given number. -/
def control (code : Nat) : String :=
  "\x1b[" ++ Nat.repr code ++ "m"

def Colour.code : Colour → Nat
  | .red => 31
  | .magenta => 35

/-- The painter that the program runs with: it writes one sequence for bold and one for
the colour if there is any, and behind the text the one that ends both. -/
instance terminal : Painter where
  bold colour text :=
    control 1 ++ (colour.elim "" fun c => control c.code) ++ text ++ control 0

/-! ### Messages -/

/-- A part of a message. -/
inductive Span where
  | plain (text : String)
  | term (text : String) (layout : Layout := .plain)
  deriving DecidableEq, Repr

/-- The part, with what `mark` makes of its term. -/
def Span.write (mark : String → String) : Span → String
  | .plain text => text
  | .term text layout => layout.apply (mark text)

abbrev Message := List Span

namespace Message

def write (mark : String → String) (m : Message) : String :=
  String.join (m.map (Span.write mark))

/-- The wording without any style. -/
def text (m : Message) : String :=
  m.write id

def render [Painter] (styled : Bool) (m : Message) : String :=
  m.write (emphasize styled none)

end Message

end Scriptlet.Text
