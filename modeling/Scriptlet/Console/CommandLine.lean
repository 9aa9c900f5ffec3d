import Scriptlet.Console.Arguments
import Scriptlet.Console.Prompt

/-! Whole runs, from the arguments to the status.

A run never stops at an error: its reporter is lenient, and a guard stands around
it. Its status tells whether there was any error. What a run reads — its file,
or the lines that are typed in — is given to it, and what it writes is returned,
so a run is a function. -/
namespace Scriptlet

/-- How a run ends: it returns a status, or it is interrupted. -/
inductive Ending where
  | returned (status : Nat)
  | interrupted (i : Interruption)
  deriving DecidableEq

structure Transcript where
  out : String
  err : String
  ending : Ending
  deriving DecidableEq

/-! ### Files -/

/-- What the bytes of a file are as a source. -/
def Reading.ofBytes (bytes : ByteArray) : Reading :=
  match String.fromUTF8? bytes with
  | some text => .source (Text.unifyNewlines text.toList)
  | none => .notUtf8

/-! ### Typed lines -/

/-- A conversation waits for a line, behind the prompt, or it is over. -/
inductive Conversation where
  | waiting (p : Prompt)
  | over (outcome : Except Interruption Unit) (p : Prompt)

namespace Conversation

/-- Shows the prompt, and waits. -/
def await (p : Prompt) : Conversation :=
  .waiting (p.write p.text)

/-- Answers a line. The conversation is over when the user leaves, or when a chunk is
interrupted for good. -/
def hear [Text.Painter] (c : Conversation) (line : List Char) : Conversation :=
  match c with
  | .over outcome p => .over outcome p
  | .waiting p =>
    match p.answer line with
    | (.ok false, p) => await p
    | (.ok true, p) => .over (.ok ()) p
    | (.error i, p) => .over (.error i) p

/-- How the conversation has come out so far. -/
def result : Conversation → Except Interruption Unit × Prompt
  | .waiting p => (.ok (), p)
  | .over outcome p => (outcome, p)

end Conversation

namespace Prompt

/-- What is taken for a line when there are no more lines. -/
def endLine : List Char := ['E', 'O', 'F']

/-- Answers lines, each behind the prompt, until the user leaves. -/
def converse [Text.Painter] (p : Prompt) (lines : List (List Char)) :
    Except Interruption Unit × Prompt :=
  ((lines ++ [endLine]).foldl Conversation.hear (.await p)).result

end Prompt

/-! ### Runs -/

/-- The end of a run under its guard. -/
def conclude [Text.Painter] {α : Type} (step : Step α) : Transcript :=
  let (outcome, s) := step.guarded
  let status := if s.reporter.errors = 0 then 0 else 1
  let ending := match outcome with
    | .ok () => .returned status
    | .error i => .interrupted i
  ⟨s.machine.printed, s.reporter.log, ending⟩

/-- What comes of reading a command. Nothing at all is not even an empty source, and
cannot be scanned. -/
def Command.reading : Command → Reading
  | .source text => .source text.toList
  | .nothing => .unexpected "AttributeError" "'list' object has no attribute 'startswith'"

namespace Invocation

/-- The path that notices give to a command. -/
def commandPath : String := "<command>"

def reporter (i : Invocation) : Reporter :=
  Reporter.fresh false i.styled

/-- Runs a source under its path. -/
def runSource [Text.Painter] (path : String) (reading : Reading) (i : Invocation) : Transcript :=
  conclude <|
    match Session.start i.reporter path false i.settings (some reading) with
    | (.error e, s) => (.error e, s)
    | (.ok _, s) => s.run

/-- The prompt that typed lines are fed to. -/
def prompt [Text.Painter] (i : Invocation) : Prompt :=
  Prompt.start (Session.start i.reporter typedPath true i.settings none).2

/-- Runs typed lines. -/
def runTyped [Text.Painter] (lines : List (List Char)) (i : Invocation) : Transcript :=
  let (outcome, p) := ((i.prompt).write intro).converse lines
  conclude (outcome, p.session)

/-- Runs what the invocation asks for. `read` reads files, and `typed` is what is
typed in. -/
def run [Text.Painter] (read : String → Reading) (typed : List Char) (i : Invocation) :
    Transcript :=
  match i.command, i.file with
  | some command, _ => i.runSource commandPath command.reading
  | none, some path => i.runSource path (read path)
  | none, none => i.runTyped (Text.splitLines typed)

end Invocation

/-- The status of a run that was not understood. -/
def usageStatus : Int := 2

/-- What is written when the arguments ask for no run. -/
def NoRun.transcript : NoRun → Transcript
  | .help => ⟨helpPage, "", .interrupted (.exit 0)⟩
  | .fault f =>
    ⟨"", usage ++ programName ++ ": error: " ++ f.message ++ "\n",
      .interrupted (.exit usageStatus)⟩

/-- The run of a command line. -/
def runCommandLine [Text.Painter] (arguments : List String) (read : String → Reading)
    (typed : List Char) : Transcript :=
  match Invocation.ofArguments arguments with
  | .ok i => i.run read typed
  | .error e => e.transcript

end Scriptlet
