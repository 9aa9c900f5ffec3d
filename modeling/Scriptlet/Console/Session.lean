import Scriptlet.Parse.Statement
import Scriptlet.Report.Reporter
import Scriptlet.Run.Execute
import Scriptlet.Text.Basic
import Scriptlet.Text.Quoted
import Scriptlet.Tree.Display

/-! Sessions: sources are added, and then run.

All sources of a session share one machine, so what one of them declares the next
can use. `add` parses a source, reports its diagnostics from the front of the
source to its end and queues the statements that are well formed; `run` executes
what is queued and reports the errors. Where the reporter is fatal, either stops
with the first error. -/
namespace Scriptlet

/-- What is asked of a session. -/
structure Settings where
  /-- How many levels a program may nest. Where this is not known, a program must not
  nest at all. -/
  nesting : Option Nat
  /-- Whether the tokens of a source are written out before it runs. -/
  showTokens : Bool
  /-- Whether the trees of its statements are. -/
  showTrees : Bool
  deriving DecidableEq, Repr

structure Session where
  reporter : Reporter
  machine : Machine
  /-- Statements that have not run yet. -/
  queue : List Stmt
  /-- The name that notices give to the source. -/
  path : String
  /-- Whether the sources are typed in by the user. -/
  typed : Bool
  settings : Settings

/-- What came of a step of a session: its result, unless it was interrupted, and
the session afterwards. -/
abbrev Step (α : Type) := Except Interruption α × Session

/-- The step under the guard of its reporter. -/
def Step.guarded [Text.Painter] {α : Type} (step : Step α) : Step Unit :=
  match step with
  | (.ok _, s) => (.ok (), s)
  | (.error i, s) =>
    let (passed, reporter) := s.reporter.guard i
    (passed.elim (.ok ()) .error, { s with reporter })

/-! ### Writing tokens and trees -/

/-- The width that the labels of tokens are filled up to. -/
def labelWidth : Nat := 28

/-- A token on a line: its label and its text. -/
def tokenLine (t : Token) : String :=
  let label := t.label
  let fill := List.replicate (labelWidth - label.length) ' '
  label ++ String.ofList fill ++ " " ++ Text.quoted t.text ++ "\n"

def tokenLines (ts : Tokens) : String :=
  String.join (ts.toList.map tokenLine)

/-- The trees of statements, each on a line, up to the first for which the stack
has no room; and whether there was none such. -/
def treeLines : List Stmt → String × Bool
  | [] => ("", true)
  | s :: rest =>
    match s.display? with
    | none => ("", false)
    | some text =>
      let (lines, fits) := treeLines rest
      (text ++ "\n" ++ lines, fits)

/-! ### Parsing -/

namespace Settings

/-- What comes up at the first level of a program when the limit is not known. -/
def unknownLimit : Interruption :=
  .unexpected "TypeError" "'>=' not supported between instances of 'int' and 'list'"

/-- Parses a source, unless it nests too deep for the stack or nests although the
limit is not known. A source has room for as many levels as it has characters. -/
def parse (source : List Char) (settings : Settings) : Except Interruption Parsed :=
  match settings.nesting with
  | some room =>
    let parsed := Scriptlet.parse room source
    if parsed.fits then .ok parsed else .error .overflow
  | none =>
    let parsed := Scriptlet.parse source.length source
    if parsed.isFlat then .ok parsed else .error unknownLimit

end Settings

/-! ### Steps -/

namespace Session

/-- Writes to the output that the program prints to. -/
def write (text : String) (s : Session) : Session :=
  { s with machine := s.machine.write text }

/-- The status with which a fatal reporter ends the run, if it has cause to. -/
def stop? (s : Session) (failed : Bool) : Option Interruption :=
  if s.reporter.fatal && failed then some (.exit failureStatus) else none

/-- The notices of diagnostics, from the front of the source to its end. -/
def notices (source : List Char) (ds : List Diagnostic) : List Notice :=
  (ds.mergeSort fun a b => a.token.start ≤ b.token.start).map (Notice.ofDiagnostic source)

/-- Adds a source whose first line has the number `line`, if it has one, and returns
its diagnostics. -/
def add [Text.Painter] (source : List Char) (line : Option Int) (s : Session) :
    Step (List Diagnostic) :=
  let shown := if s.typed then some (String.ofList (Text.trim source)) else none
  let s := { s with reporter := s.reporter.registerLine s.path shown line }
  match s.settings.parse source with
  | .error i => (.error i, s)
  | .ok parsed =>
    let tokens := if s.settings.showTokens then tokenLines (Tokens.scan source) else ""
    let (trees, fits) := if s.settings.showTrees then treeLines parsed.statements else ("", true)
    let s := s.write (tokens ++ trees)
    if !fits then (.error .overflow, s)
    else
      let s := { s with reporter := s.reporter.reportAll (notices source parsed.diagnostics) }
      match s.stop? (!parsed.diagnostics.isEmpty) with
      | some i => (.error i, s)
      | none => (.ok parsed.diagnostics, { s with queue := s.queue ++ parsed.statements })

/-- Runs what is queued, and returns the errors. -/
def run [Text.Painter] (s : Session) : Step (List RunError) :=
  let (errors, machine) := interpret (!s.reporter.fatal) s.queue s.machine
  let reporter := s.reporter.reportAll (errors.map Notice.ofRunError)
  let s := { s with machine, queue := [], reporter := reporter.registerFile s.path }
  match s.stop? (!errors.isEmpty) with
  | some i => (.error i, s)
  | none => (.ok errors, s)

end Session

/-! ### The start of a session -/

/-- What came of reading a file. -/
inductive Reading where
  | source (text : List Char)
  | unopened
  | notUtf8
  /-- Anything else that came up, with its name and text. -/
  | unexpected (name text : String)
  deriving DecidableEq

/-- What comes of reading a path at which there is no file. A NUL in a path is not
even looked for. -/
def Reading.ofNoFile (path : String) : Reading :=
  if path.toList.contains '\x00' then .unexpected "ValueError" "embedded null byte" else .unopened

/-- The path of sources that are typed in. No file can be named so. -/
def typedPath : String := "<in>"

namespace Session

/-- The interruption of a session whose file cannot be had. -/
def missing (path reason : String) : Interruption :=
  .error (Notice.plain [.plain "'", .term path, .plain ("' " ++ reason)])

/-- Starts a session on a path. What its source is, if it begins with one, has
been read already. Sources that are typed in make the reporter lenient. -/
def start [Text.Painter] (reporter : Reporter) (path : String) (typed : Bool)
    (settings : Settings) (reading : Option Reading) : Step (List Diagnostic) :=
  let reporter := reporter.registerFile path
  let reporter := { reporter with fatal := reporter.fatal && !typed }
  let s : Session := ⟨reporter, Machine.fresh, [], path, typed, settings⟩
  if path = typedPath ∧ typed = false then (.error (missing path "is a reserved filename"), s)
  else
    match reading with
    | none => (.ok [], s)
    | some (.source text) => s.add text (some 1)
    | some .unopened => (.error (missing path "could not be opened"), s)
    | some .notUtf8 => (.error (missing path "could not be read as UTF-8"), s)
    | some (.unexpected name text) => (.error (.unexpected name text), s)

end Session

end Scriptlet
