import Scriptlet.Report.Notice

/-! The reporter: it writes notices, and counts the errors among them.

A reporter knows the files that are being run, the outermost first, and of each
the line that was typed in, if it was. An error is reported below those lines; it
is located in the first file. A fatal reporter ends the run with its first
error: what `report` returns is then for the caller to stop with.

Work that goes wrong as a whole is interrupted. A guard reports the interruption
of the work it stands around; a request to exit passes it, and so does, once
reported, an interruption that it knows nothing about. All others end there, and
what follows the guarded work goes on. -/
namespace Scriptlet

/-- What is being run of a file: the text of a typed line, and the number of the
first line. -/
structure Entry where
  line : Option String
  number : Option Int
  deriving DecidableEq

structure Reporter where
  fatal : Bool
  /-- Whether it writes with colours. -/
  styled : Bool
  files : List (String × Entry)
  errors : Nat
  /-- All that it has written. -/
  log : String
  deriving DecidableEq

namespace Reporter

/-- A reporter that has written nothing yet. -/
def fresh (fatal styled : Bool) : Reporter :=
  ⟨fatal, styled, [], 0, ""⟩

/-! ### Files -/

/-- Sets the entry of a path; a path that is new comes last. -/
def setEntry (path : String) (e : Entry) : List (String × Entry) → List (String × Entry)
  | [] => [(path, e)]
  | (p, old) :: rest => if p = path then (p, e) :: rest else (p, old) :: setEntry path e rest

def registerLine (path : String) (line : Option String) (number : Option Int)
    (r : Reporter) : Reporter :=
  { r with files := setEntry path ⟨line, number⟩ r.files }

/-- Registers a file of which nothing is being run; also what remains of a file
whose run has ended. -/
def registerFile (path : String) (r : Reporter) : Reporter :=
  r.registerLine path none none

/-! ### Writing -/

/-- The number of the first line that is being run. A line without a number, or
with number zero, is the first. -/
def firstLine (e : Entry) : Int :=
  match e.number with
  | none => 1
  | some n => if n = 0 then 1 else n

/-- The file of a notice and, if it has a place, the line in the file. -/
def location (n : Notice) (r : Reporter) : String :=
  match r.files with
  | [] => ""
  | (path, e) :: _ =>
    match n.place with
    | some p =>
      path ++ ":" ++
        Int.repr (Text.lineNumber p.source p.token.start + firstLine e - 1) ++ ": "
    | none => path ++ ": "

/-- The typed line of a file, with its number. -/
def typedLine (file : String × Entry) : Option String :=
  match file.2.line with
  | none => none
  | some line =>
    if line.isEmpty then none
    else some ("  File '" ++ file.1 ++ "', line " ++ file.2.number.elim "None" Int.repr ++
      ":\n    " ++ line ++ "\n")

/-- The typed lines of all files; more than one have a heading. -/
def trace (r : Reporter) : String :=
  let lines := r.files.filterMap typedLine
  (if 1 < lines.length then "Traceback:\n" else "") ++ String.join lines

/-- Text that is bold if the reporter writes with colours. An empty location is
left out altogether. -/
def boldLocation [Text.Painter] (n : Notice) (r : Reporter) : String :=
  let location := r.location n
  if location.isEmpty then "" else Text.emphasize r.styled none location

def write (text : String) (r : Reporter) : Reporter :=
  { r with log := r.log ++ text }

/-- Writes a warning. It does not count as an error. -/
def warn [Text.Painter] (message : Text.Message) (r : Reporter) : Reporter :=
  let n := Notice.plain message
  r.write (r.boldLocation n ++ Text.emphasize r.styled (some .magenta) "warning: " ++
    n.render r.styled ++ "\n")

/-- The place of a notice as it is shown. Internal errors show none. -/
def excerpt [Text.Painter] (n : Notice) (r : Reporter) : String :=
  match n.internal, n.place with
  | false, some p => p.excerpt r.styled ++ "\n"
  | _, _ => ""

/-- Writes an error and counts it. -/
def report [Text.Painter] (n : Notice) (r : Reporter) : Reporter :=
  let mark := if n.internal then Text.emphasize r.styled (some .red) "[internal] " else ""
  let written := r.write (r.trace ++ r.boldLocation n ++ mark ++
    Text.emphasize r.styled (some .red) "error: " ++ n.render r.styled ++ "\n" ++ r.excerpt n)
  { written with errors := r.errors + 1 }

/-- Reports errors in order, a fatal reporter only the first. -/
def reportAll [Text.Painter] (ns : List Notice) (r : Reporter) : Reporter :=
  if r.fatal then (ns.head?.elim r fun n => r.report n)
  else ns.foldl (fun r n => r.report n) r

end Reporter

/-! ### Interruptions -/

/-- How work ends before it is done. -/
inductive Interruption where
  /-- A request to exit with the given status. -/
  | exit (status : Int)
  /-- The stack had no room. -/
  | overflow
  | keyboard
  | error (n : Notice)
  /-- Anything else, with a name and a text of its own. -/
  | unexpected (name text : String)
  deriving DecidableEq

namespace Interruption

/-- What a guard reports. -/
def notice? : Interruption → Option Notice
  | .exit _ => none
  | .overflow => some (Notice.plain [.plain "maximum recursion depth exceeded"])
  | .keyboard => some (Notice.plain [.plain "keyboard interrupt"])
  | .error n => some n
  | .unexpected name text =>
    some ⟨[.plain "unknown error: '", .term (name ++ ": " ++ text), .plain "'"], none, true⟩

/-- Whether it goes on behind a guard. -/
def passes : Interruption → Bool
  | .exit _ | .unexpected .. => true
  | _ => false

end Interruption

/-- The status of a run that a fatal reporter ended. -/
def failureStatus : Int := 1

namespace Reporter

/-- Stands around work that ended with the interruption `i`: what goes on behind
the guard, if anything, and the reporter afterwards. -/
def guard [Text.Painter] (i : Interruption) (r : Reporter) : Option Interruption × Reporter :=
  match i.notice? with
  | none => (some i, r)
  | some n =>
    let r := r.report n
    if r.fatal then (some (.exit failureStatus), r)
    else (if i.passes then some i else none, r)

end Reporter

end Scriptlet
