import Scriptlet.Parse.Diagnostic
import Scriptlet.Run.Value

/-! Notices: what is told to the user.

A notice has a message. If it is about a token of a source it also has that
place, and then it can show the line on which the token begins, with the part of
the token that lies on the line underlined. -/
namespace Scriptlet

/-- A token, and the source in which it stands. -/
structure Place where
  token : Token
  source : List Char
  deriving DecidableEq

structure Notice where
  message : Text.Message
  place : Option Place
  /-- Whether the interpreter itself is at fault, not the program. -/
  internal : Bool
  deriving DecidableEq

namespace Notice

/-- A notice about no place in particular. -/
def plain (message : Text.Message) : Notice :=
  ⟨message, none, false⟩

def ofDiagnostic (source : List Char) (d : Diagnostic) : Notice :=
  ⟨d.fault.message, some ⟨d.token, source⟩, false⟩

def ofRunError (e : RunError) : Notice :=
  ⟨e.message, none, e == .globalScope⟩

/-- The message and where it is about. -/
def render [Text.Painter] (styled : Bool) (n : Notice) : String :=
  Text.Message.render styled n.message ++
    (n.place.elim "" fun p => p.token.position p.source)

end Notice

namespace Place

def indent : List Char :=
  [' ', ' ']

/-- The line on which the token begins, and below it a caret under its first
character and tildes under the others on that line. The token and its underline
are red. -/
def excerpt [Text.Painter] (styled : Bool) (p : Place) : String :=
  let first := Text.lineStart p.source p.token.start
  let last := Text.lineEnd p.source p.token.start
  let line := Text.slice p.source first last
  let start := p.token.start - first
  let stop := max (min (p.token.stop + 1) last - first) (start + 1)
  let red := fun chars => Text.emphasize styled (some .red) (String.ofList chars)
  String.ofList (indent ++ line.take start) ++ red (Text.slice line start stop) ++
    String.ofList (line.drop stop) ++ "\n" ++
    String.ofList (indent ++ List.replicate start ' ') ++
    red ('^' :: List.replicate (stop - start - 1) '~')

end Place

end Scriptlet
