import Scriptlet.Console.Session

/-! The prompt: a session that is fed line by line.

A line is a command to the prompt itself, or it is source. Source lines are held
back while they leave a brace open, and then run together as one chunk. Braces in
strings and comments open nothing, since they are not tokens. Each line of source
decides anew what the user sees before the next one. -/
namespace Scriptlet

/-! ### Chunks -/

/-- The lines of source that were taken in. -/
structure Chunking where
  /-- The lines held back, each with a newline. -/
  pending : List Char
  /-- The number of the first line of the chunk that was begun last. -/
  first : Nat
  /-- How many lines there were. -/
  lines : Nat
  deriving DecidableEq, Repr

/-- Source lines that run together, and the number of the first of them. -/
structure Chunk where
  source : List Char
  first : Nat
  deriving DecidableEq, Repr

namespace Chunking

/-- No line was taken in. -/
def fresh : Chunking :=
  ⟨[], 0, 0⟩

/-- Takes in a line. It makes up a chunk together with the lines held back, unless
they leave a brace open. -/
def take (line : List Char) (c : Chunking) : Option Chunk × Chunking :=
  let lines := c.lines + 1
  let first := if c.pending.isEmpty then lines else c.first
  let source := c.pending ++ line ++ ['\n']
  if 0 < (Tokens.scan source).openBraces then (none, ⟨source, first, lines⟩)
  else (some ⟨source, first⟩, ⟨[], first, lines⟩)

end Chunking

/-! ### Commands -/

/-- What a line asks for. -/
inductive Request where
  | nothing
  | help
  /-- To leave; the argument should be empty. -/
  | exit (argument : List Char)
  /-- To leave at the end of the input. -/
  | leave
  | source (line : List Char)
  deriving DecidableEq, Repr

/-- The characters of a command word. -/
def isCommandChar (c : Char) : Bool :=
  c.isAlphanum || c == '_'

namespace Request

/-- Reads a line. The first word decides, and a question mark stands for the word
help; whatever is no command is source. -/
def ofLine (line : List Char) : Request :=
  match Text.trim line with
  | [] => .nothing
  | '?' :: _ => .help
  | line =>
    let argument := Text.trim (line.dropWhile isCommandChar)
    match String.ofList (line.takeWhile isCommandChar) with
    | "help" => .help
    | "exit" => .exit argument
    | "EOF" => .leave
    | _ => .source line

end Request

/-! ### Texts -/

def intro : String :=
  "rox interpreter :: Python backend\nType 'help' for more information.\n"

def helpText : String :=
  "Welcome to the rox interpreter!\n\n" ++
  "rox is a small scripting language with numbers, strings, booleans and nil, \n" ++
  "block-scoped variables, 'if'/'else' and 'print'.\n\n" ++
  "Try it out by typing 'let greeting = \"hello\";'. Next, try typing \n" ++
  "'print greeting + \" world\";'. Statements end with ';'; a line that opens a \n" ++
  "'\x7b' block continues until the block is closed.\n"

/-- What the user sees before a line that begins a chunk. -/
def primaryText : String := "> "

/-- What the user sees before a line that goes on with one. -/
def secondaryText : String := ". "

/-- The warning of an exit that has an argument. -/
def refusal (argument : List Char) : Text.Message :=
  [.plain "unrecognized argument to exit: '", .term (String.ofList argument), .plain "'"]

/-! ### Lines -/

structure Prompt where
  session : Session
  chunking : Chunking
  /-- What the user sees before the next line. -/
  text : String

namespace Prompt

def start (session : Session) : Prompt :=
  ⟨session, .fresh, primaryText⟩

def write (text : String) (p : Prompt) : Prompt :=
  { p with session := p.session.write text }

variable [Text.Painter]

/-- Adds a chunk to a session and runs it, unless adding it is interrupted. -/
def runChunk (chunk : Chunk) (s : Session) : Step (List RunError) :=
  match s.add chunk.source (some chunk.first) with
  | (.error i, s) => (.error i, s)
  | (.ok _, s) => s.run

/-- Takes in a line of source, and runs the chunk that it completes. -/
def feed (line : List Char) (p : Prompt) : Except Interruption Unit × Prompt :=
  match p.chunking.take line with
  | (none, chunking) => (.ok (), { p with chunking, text := secondaryText })
  | (some chunk, chunking) =>
    let (outcome, session) := (runChunk chunk p.session).guarded
    (outcome, ⟨session, chunking, primaryText⟩)

/-- Does what is asked for. The result tells whether the user leaves. -/
def respond (p : Prompt) : Request → Except Interruption Bool × Prompt
  | .nothing => (.ok false, p)
  | .help => (.ok false, p.write helpText)
  | .leave => (.ok true, p.write "\n")
  | .exit [] => (.ok true, p)
  | .exit argument =>
    let session := { p.session with reporter := p.session.reporter.warn (refusal argument) }
    (.ok false, { p with session })
  | .source line =>
    let (outcome, p) := p.feed line
    (outcome.map fun _ => false, p)

/-- Answers a line. -/
def answer (line : List Char) (p : Prompt) : Except Interruption Bool × Prompt :=
  p.respond (Request.ofLine line)

end Prompt

end Scriptlet
