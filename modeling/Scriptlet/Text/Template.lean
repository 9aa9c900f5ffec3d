import Scriptlet.Text.Message

/-! Templates for messages.

A template is text with slots for terms. A slot stands in braces, and a brace that
stands for itself is written twice. In its braces a slot may name its term by a
number, counted from zero; slots without a number take the terms one after the
other, and a template has slots of one sort only. Behind the name may stand the
position of a character in brackets or the name of a part behind a dot, then an
exclamation mark with the letter of a spelling, then a colon with a specifier, which
may have slots of its own. The parts that a text has under names are no characters of
it, and the text alone does not tell what they are: they are given by `NamedParts`.

`Template.ofString` reads a template piece by piece, and what cannot be read is a
piece too. So `Template.fill`, which goes from the front to the end, meets the
first fault first, whichever its sort. Terms are marked before they are filled in, and
what is picked out of a term is picked out of it with its marks. -/
namespace Scriptlet.Text

/-! ### Faults -/

inductive TemplateFault where
  | loneOpening
  | loneClosing
  | openingInName
  | unclosed
  | unclosedSpecifier
  | noSpelling
  | noColon
  /-- A number where the terms are taken one after the other. -/
  | numbered
  /-- No number where others have one. -/
  | unnumbered
  | tooManyDigits
  | emptyAccess
  | noAccess
  | spelling (letter : Char)
  | tooDeep
  | specifier (fault : SpecifierFault)
  /-- There is no term of that number. -/
  | noTerm (index : Nat)
  /-- A term has no character at that position. -/
  | noCharacter
  /-- Terms have numbers and no names. -/
  | named (name : String)
  /-- Characters have positions and no names. -/
  | namedCharacter
  /-- Terms have no part of that name. -/
  | part (name : String)
  /-- What comes up where a part is asked for more than it has. -/
  | withinPart (text : String)
  deriving DecidableEq, Repr

def TemplateFault.message : TemplateFault → String
  | .loneOpening => "Single '\x7b' encountered in format string"
  | .loneClosing => "Single '\x7d' encountered in format string"
  | .openingInName => "unexpected '\x7b' in field name"
  | .unclosed => "expected '\x7d' before end of string"
  | .unclosedSpecifier => "unmatched '\x7b' in format spec"
  | .noSpelling => "end of string while looking for conversion specifier"
  | .noColon => "expected ':' after conversion specifier"
  | .numbered =>
    "cannot switch from automatic field numbering to manual field specification"
  | .unnumbered =>
    "cannot switch from manual field specification to automatic field numbering"
  | .tooManyDigits => SpecifierFault.message .tooManyDigits
  | .emptyAccess => "Empty attribute in format string"
  | .noAccess => "Only '.' or '[' may follow ']' in format field specifier"
  | .spelling letter => "Unknown conversion specifier " ++ showChar 127 letter
  | .tooDeep => "Max string recursion exceeded"
  | .specifier fault => fault.message
  | .noTerm index =>
    "Replacement index " ++ Nat.repr index ++ " out of range for positional args tuple"
  | .noCharacter => "string index out of range"
  | .named name => quoted name
  | .namedCharacter => "string indices must be integers, not 'str'"
  | .part name => "'str' object has no attribute '" ++ name ++ "'"
  | .withinPart text => text

/-! ### Reading -/

structure Slot where
  /-- The number of the term, and what is taken of it. -/
  name : List Char
  spelling : Option Char
  specifier : List Char
  deriving DecidableEq, Repr

/-- A part of a template. -/
inductive Piece where
  | char (c : Char)
  | slot (s : Slot)
  /-- What cannot be read; nothing follows it. -/
  | broken (fault : TemplateFault)
  deriving DecidableEq, Repr

abbrev Template := List Piece

namespace Slot

/-- How many characters at the front of a text are a name. In brackets, any
character is one of them. -/
def nameLength (inBrackets : Bool) : List Char → Nat
  | [] => 0
  | c :: rest =>
    if inBrackets then nameLength (c != ']') rest + 1
    else if c ∈ ['{', '}', ':', '!'] then 0
    else nameLength (c == '[') rest + 1

/-- How many characters there are in front of the brace that closes the `level`
open ones and the slot. -/
def specifierLength? (level : Nat) : List Char → Option Nat
  | [] => none
  | '{' :: rest => (specifierLength? (level + 1) rest).map (· + 1)
  | '}' :: rest =>
    match level with
    | 0 => some 0
    | level + 1 => (specifierLength? level rest).map (· + 1)
  | _ :: rest => (specifierLength? level rest).map (· + 1)

/-- The slot whose specifier `text` begins with, behind `before` characters, and how
many characters it has in all. -/
def withSpecifier (name : List Char) (spelling : Option Char) (before : Nat)
    (text : List Char) : Except TemplateFault (Slot × Nat) :=
  match specifierLength? 0 text with
  | some n => .ok (⟨name, spelling, text.take n⟩, before + n + 1)
  | none => .error .unclosedSpecifier

/-- Reads the slot that a text begins with, behind its opening brace, and tells how
many characters it has. -/
def read (text : List Char) : Except TemplateFault (Slot × Nat) :=
  let n := nameLength false text
  let name := text.take n
  match text.drop n with
  | '}' :: _ => .ok (⟨name, none, []⟩, n + 1)
  | ':' :: rest => withSpecifier name none (n + 1) rest
  | ['!'] => .error .noSpelling
  | '!' :: letter :: '}' :: _ => .ok (⟨name, some letter, []⟩, n + 3)
  | '!' :: letter :: ':' :: rest => withSpecifier name (some letter) (n + 3) rest
  | ['!', _] => .error .unclosedSpecifier
  | '!' :: _ => .error .noColon
  | '{' :: _ => .error .openingInName
  | _ => .error .unclosed

end Slot

namespace Template

/-- The pieces of a text, of which the first `skip` characters are already read. -/
def pieces : Nat → List Char → Template
  | _, [] => []
  | skip + 1, _ :: rest => pieces skip rest
  | 0, c :: rest =>
    if c = '{' ∨ c = '}' then
      if rest.head? = some c then .char c :: pieces 1 rest
      else if c = '}' then [.broken .loneClosing]
      else if rest.isEmpty then [.broken .loneOpening]
      else
        match Slot.read rest with
        | .ok (slot, length) => .slot slot :: pieces length rest
        | .error fault => [.broken fault]
    else .char c :: pieces 0 rest

def ofString (text : String) : Template :=
  pieces 0 text.toList

end Template

/-! ### Filling -/

/-- How the slots so far were numbered. -/
inductive Numbering where
  | undecided
  /-- By themselves; `next` is the number of the next one. -/
  | automatic (next : Nat)
  | manual
  deriving DecidableEq, Repr

/-- The number in front of a text, which must be all of it; none if it is not. -/
def wholeNumber? (text : List Char) : Except TemplateFault (Option Nat) :=
  match Specifier.number? text with
  | .ok (n, []) => .ok n
  | .ok _ => .ok none
  | .error _ => .error .tooManyDigits

/-- A name goes on up to a dot or a bracket. -/
def isNameChar (c : Char) : Bool :=
  c ≠ '.' ∧ c ≠ '['

namespace Slot

/-- The number of the term for a slot, and how the slots are numbered from then
on. -/
def index (s : Slot) (n : Numbering) : Except TemplateFault (Nat × Numbering) := do
  let head := s.name.takeWhile isNameChar
  match ← wholeNumber? head, n with
  | some _, .automatic _ => throw .numbered
  | some i, _ => return (i, .manual)
  | none, n =>
    if !head.isEmpty then throw (.named (String.ofList head))
    else
      match n with
      | .manual => throw .unnumbered
      | .undecided => return (0, .automatic 1)
      | .automatic i => return (i, .automatic (i + 1))

/-- The position that stands in brackets, in a text of `size` characters. -/
def position (size : Nat) (text : List Char) : Except TemplateFault Nat := do
  match ← wholeNumber? text with
  | some i => if i < size then return i else throw .noCharacter
  | none => if text.isEmpty then throw .emptyAccess else throw .namedCharacter

/-- The character that the rest of a name picks out of a term of `size` characters,
and what is left of the name from the first dot on. `inside` holds what was read of a
position, last character first. -/
def pick (size : Nat) (picked : Option Nat) :
    Option (List Char) → List Char → Except TemplateFault (Option Nat × List Char)
  | none, [] => .ok (picked, [])
  | none, '[' :: rest => pick size picked (some []) rest
  | none, '.' :: rest =>
    if (rest.takeWhile isNameChar).isEmpty then .error .emptyAccess
    else .ok (picked, '.' :: rest)
  | none, _ :: _ => .error .noAccess
  | some _, [] => .error .unclosed
  | some inside, c :: rest =>
    if c = ']' then do
      -- a single character has itself at position zero
      let i ← position (if picked.isSome then 1 else size) inside.reverse
      pick size (some (picked.getD i)) none rest
    else pick size picked (some (c :: inside)) rest

/-- The spelling that a letter stands for. -/
def spellingOf : Option Char → Except TemplateFault Spelling
  | none | some 's' => .ok .plain
  | some 'r' => .ok .quoted
  | some 'a' => .ok .ascii
  | some letter => .error (.spelling letter)

end Slot

/-! ### Parts with names -/

/-- A part that a text has under a name. -/
structure NamedPart where
  /-- What it is as a text. -/
  text : String
  quoted : String
  /-- What a specifier makes of it. -/
  format : List Char → Except TemplateFault String

def NamedPart.spell (s : Spelling) (p : NamedPart) : String :=
  match s with
  | .plain => p.text
  | .quoted => p.quoted
  | .ascii => Text.ascii p.quoted

/-- The parts that texts have under names. They are asked for by all that stands behind
the position in the name of a slot, from the first dot on. -/
class NamedParts where
  part : String → List Char → Except TemplateFault NamedPart

/-- The parts that the program runs with: no message of its own asks for any. -/
instance noParts : NamedParts where
  part _ path := .error (.part (String.ofList ((path.drop 1).takeWhile isNameChar)))

/-! ### Slots filled -/

/-- A specifier without its slots; `n` is how the slots before it were numbered. -/
abbrev Expansion :=
  Numbering → List Char → Except TemplateFault (List Char × Numbering)

namespace Template

variable [NamedParts] (expand : Expansion) (terms : List String) (mark : String → String)

/-- Fills a slot. -/
def fillSlot (n : Numbering) (s : Slot) : Except TemplateFault (Span × Numbering) := do
  let (i, n) ← s.index n
  match terms[i]? with
  | none => throw (.noTerm i)
  | some term =>
    let (pick, path) ← Slot.pick (mark term).length none none (s.name.dropWhile isNameChar)
    let part ← if path.isEmpty then .ok none
      else (NamedParts.part ({ Layout.plain with pick }.picked (mark term)) path).map some
    let spelling ← Slot.spellingOf s.spelling
    let (specifier, n) ← if s.specifier.contains '{' then expand n s.specifier
      else .ok (s.specifier, n)
    match part, s.spelling with
    | some part, none => return (.plain (← part.format specifier), n)
    | _, _ =>
      match Layout.ofSpecifier specifier, part with
      | .ok layout, none => return (.term term { layout with pick, spelling }, n)
      | .ok layout, some part => return (.plain (layout.apply (part.spell spelling)), n)
      | .error fault, _ => throw (.specifier fault)

/-- Fills the slots of a template in order, up to the first fault. -/
def fillWith (n : Numbering) : Template → Except TemplateFault (Message × Numbering)
  | [] => .ok ([], n)
  | .char c :: rest => do
    let (m, n) ← fillWith n rest
    return (.plain (String.singleton c) :: m, n)
  | .slot s :: rest => do
    let (span, n) ← fillSlot expand terms mark n s
    let (m, n) ← fillWith n rest
    return (span :: m, n)
  | .broken fault :: _ => .error fault

/-- Specifiers within specifiers have no slots. -/
def expandSpecifier : Expansion := fun n specifier => do
  let (m, n) ← fillWith (fun _ _ => throw .tooDeep) terms mark n (pieces 0 specifier)
  return ((m.write mark).toList, n)

/-- The message that a template makes of terms that are marked as given. Terms that no slot
asks for are left out. -/
def fill (template : Template) (mark : String → String := id) : Except TemplateFault Message := do
  let (m, _) ← fillWith (expandSpecifier terms mark) terms mark .undecided template
  return m

end Template

end Scriptlet.Text
