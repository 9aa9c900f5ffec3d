import Scriptlet.Console.Session
import Scriptlet.Text.Basic

/-! The arguments of the command line.

An argument that begins with a dash is an option, unless it is nothing but the
dash, looks like a negative number or is an unknown option with a space in it. A
long option may be cut short as long as it remains the beginning of one option
only, and its value may follow an equals sign; the value of a short option may
follow directly, and so may further short options if it takes no value. Two dashes
alone end the options; attached to an option they are no value, and the option is
left without one. Of an option that is repeated the last counts. All other
arguments are operands: the first one names the file, and there should be no
second. -/
namespace Scriptlet

/-! ### Options -/

inductive Flag where
  | help
  | command
  | tokens
  | trees
  | nesting
  | plain
  deriving DecidableEq, Repr

namespace Flag

/-- The spellings of the options, in the order in which they are listed. -/
def spellings : List (String × Flag) :=
  [("-h", .help), ("--help", .help), ("-c", .command), ("--command", .command),
    ("--tokens", .tokens), ("--ast", .trees), ("--max-depth", .nesting), ("--no-color", .plain)]

def takesValue : Flag → Bool
  | .command | .nesting => true
  | _ => false

/-- All spellings of an option, as faults mention it. -/
def title (f : Flag) : String :=
  "/".intercalate ((spellings.filter (·.2 == f)).map (·.1))

end Flag

/-! ### Faults -/

/-- What is wrong with the arguments. -/
inductive ArgumentFault where
  | ambiguous (argument : String) (candidates : List String)
  | missingValue (f : Flag)
  | unwantedValue (f : Flag) (text : String)
  | notWhole (f : Flag) (text : String)
  | unrecognized (arguments : List String)
  deriving DecidableEq, Repr

def ArgumentFault.message : ArgumentFault → String
  | .ambiguous argument candidates =>
    "ambiguous option: " ++ argument ++ " could match " ++ ", ".intercalate candidates
  | .missingValue f => "argument " ++ f.title ++ ": expected one argument"
  | .unwantedValue f text =>
    "argument " ++ f.title ++ ": ignored explicit argument " ++ Text.quoted text
  | .notWhole f text => "argument " ++ f.title ++ ": invalid int value: " ++ Text.quoted text
  | .unrecognized arguments => "unrecognized arguments: " ++ " ".intercalate arguments

/-- Why the arguments ask for no run. -/
inductive NoRun where
  | help
  | fault (f : ArgumentFault)
  deriving DecidableEq, Repr

/-! ### Words -/

/-- What is part of an option's own argument, behind the option. -/
structure Attached where
  /-- Whether the option has its long spelling. -/
  long : Bool
  text : List Char
  deriving DecidableEq, Repr

/-- The value that an option gets. Two dashes are none. -/
def Attached.value? (a : Attached) : Option String :=
  if a.text = ['-', '-'] then none else some (String.ofList a.text)

/-- An argument by its role. -/
inductive Word where
  | operand (text : String)
  | divider
  | option (f : Flag) (attached : Option Attached)
  | unknown (text : String)
  deriving DecidableEq, Repr

namespace Word

/-- The word as it was given, for those that are no known option. -/
def text : Word → String
  | .operand text | .unknown text => text
  | .divider => "--"
  | .option f _ => f.title

/-- The characters up to a newline at the end. -/
def chomp (chars : List Char) : List Char :=
  if chars.getLast? = some '\n' then chars.dropLast else chars

/-- Whether the characters behind a dash make up a number; a newline may follow. -/
def isNumber (chars : List Char) : Bool :=
  let isDigit := fun c => (Text.digit? c).isSome
  let chars := chomp chars
  match chars.dropWhile isDigit with
  | [] => !chars.isEmpty
  | '.' :: fraction => !fraction.isEmpty && fraction.all isDigit
  | _ => false

/-- The options that an argument may stand for, with the spelling that it may be
cut short of. -/
def candidates (argument : List Char) : List (String × Flag × Option Attached) :=
  let name := argument.takeWhile (· ≠ '=')
  match argument with
  | '-' :: '-' :: _ =>
    let attached := match argument.dropWhile (· ≠ '=') with
      | [] => none
      | _ :: value => some ⟨true, value⟩
    (Flag.spellings.filter fun s => name.isPrefixOf s.1.toList).map fun s =>
      (s.1, s.2, attached)
  | _ =>
    (Flag.spellings.filter fun s => s.1.toList = argument.take 2).map fun s =>
      (s.1, s.2, some ⟨false, argument.drop 2⟩)

/-- The role of an argument in front of a divider. -/
def ofArgument (argument : String) : Except NoRun Word :=
  let chars := argument.toList
  match chars with
  | '-' :: second :: rest =>
    match Flag.spellings.lookup argument with
    | some f => .ok (.option f none)
    | none =>
      match Flag.spellings.lookup (String.ofList (chars.takeWhile (· ≠ '='))),
          chars.dropWhile (· ≠ '=') with
      | some f, _ :: value => .ok (.option f (some ⟨second == '-', value⟩))
      | _, _ =>
        match candidates chars with
        | [(_, f, attached)] => .ok (.option f attached)
        | [] =>
          if isNumber (second :: rest) || chars.contains ' ' then .ok (.operand argument)
          else .ok (.unknown argument)
        | many => .error (.fault (.ambiguous argument (many.map (·.1))))
  | _ => .ok (.operand argument)

/-- The roles of all arguments. -/
def ofArguments : List String → Except NoRun (List Word)
  | [] => .ok []
  | "--" :: rest => .ok (.divider :: rest.map .operand)
  | argument :: rest => do
    let word ← ofArgument argument
    return word :: (← ofArguments rest)

end Word

/-! ### The run that is asked for -/

/-- A source that is given in the arguments. -/
inductive Command where
  | source (text : String)
  /-- The option without a value. -/
  | nothing
  deriving DecidableEq, Repr

/-- A run: of the source given as a command, else of a file, else of typed lines. -/
structure Invocation where
  command : Option Command
  file : Option String
  settings : Settings
  /-- Whether notices are written with colours. -/
  styled : Bool
  deriving DecidableEq, Repr

namespace Invocation

/-- The run when there are no arguments. -/
def default : Invocation :=
  ⟨none, none, ⟨some defaultNesting, false, false⟩, true⟩

/-- Sets an option that takes no value. -/
def set (f : Flag) (i : Invocation) : Except NoRun Invocation :=
  match f with
  | .help => .error .help
  | .tokens => .ok { i with settings := { i.settings with showTokens := true } }
  | .trees => .ok { i with settings := { i.settings with showTrees := true } }
  | .plain => .ok { i with styled := false }
  | .command | .nesting => .error (.fault (.missingValue f))

/-- Sets an option to a value. A limit below zero is one of zero. -/
def setValue (f : Flag) (value : String) (i : Invocation) : Except NoRun Invocation :=
  match f with
  | .command => .ok { i with command := some (.source value) }
  | .nesting =>
    match Text.integer? value with
    | some n => .ok { i with settings := { i.settings with nesting := some n.toNat } }
    | none => .error (.fault (.notWhole f value))
  | _ => .error (.fault (.unwantedValue f value))

/-- Sets an option that takes a value to none. -/
def setNothing (f : Flag) (i : Invocation) : Invocation :=
  match f with
  | .command => { i with command := some .nothing }
  | .nesting => { i with settings := { i.settings with nesting := none } }
  | _ => i

/-- Reads the characters that follow a short option without a value. Each is a
short option itself, up to one that takes what is left for its value; `next` tells
whether an operand follows. Only the help option is short and takes no value, so
help is what they come to unless one of them is at fault. -/
def cluster (next : Bool) : List Char → NoRun
  | [] => .fault (.unwantedValue .help "")
  | c :: rest =>
    match Flag.spellings.lookup (String.ofList ['-', c]) with
    | none => .fault (.unwantedValue .help (String.ofList (c :: rest)))
    | some f =>
      if f.takesValue then
        if rest.isEmpty && !next then .fault (.missingValue f) else .help
      else if rest.isEmpty then .help
      else cluster next rest

/-- Sets an option with something attached to it. -/
def setAttached (f : Flag) (a : Attached) (next : Bool) (i : Invocation) :
    Except NoRun Invocation :=
  if f.takesValue then
    match a.value? with
    | some value => i.setValue f value
    | none => .ok (i.setNothing f)
  else if a.long then .error (.fault (.unwantedValue f (String.ofList a.text)))
  else .error (cluster next a.text)

/-- Where the operand that names the file is. -/
inductive FileSlot where
  /-- Not found yet. -/
  | ahead
  /-- The word just read. -/
  | here
  | behind
  deriving DecidableEq, Repr

def isOperand : List Word → Bool
  | .operand _ :: _ => true
  | _ => false

/-- Reads words from the front. The words that have no place are kept. A divider
has a place next to the operand that names the file. -/
def read (file : FileSlot) (i : Invocation) : List Word → Except NoRun (Invocation × List String)
  | [] => .ok (i, [])
  | .operand text :: rest =>
    match file with
    | .ahead => read .here { i with file := some text } rest
    | _ => do
      let (i, left) ← read .behind i rest
      return (i, text :: left)
  | .divider :: rest =>
    match file with
    | .ahead => read .ahead i rest
    | .here => read .behind i rest
    | .behind => do
      let (i, left) ← read .behind i rest
      return (i, Word.divider.text :: left)
  | .unknown text :: rest => do
    let (i, left) ← read (passed file) i rest
    return (i, text :: left)
  | .option f (some a) :: rest => do
    read (passed file) (← i.setAttached f a (isOperand rest)) rest
  | .option f none :: rest =>
    if f.takesValue then
      match rest with
      | .operand value :: rest => do read (passed file) (← i.setValue f value) rest
      | _ => .error (.fault (.missingValue f))
    else do read (passed file) (← i.set f) rest
where
  passed : FileSlot → FileSlot
    | .ahead => .ahead
    | _ => .behind

/-- The run that the arguments ask for. -/
def ofArguments (arguments : List String) : Except NoRun Invocation := do
  let words ← Word.ofArguments arguments
  match ← read .ahead default words with
  | (i, []) => return i
  | (_, left) => .error (.fault (.unrecognized left))

end Invocation

/-! ### Texts -/

def programName : String := "rox"

def usage : String :=
  "usage: rox [-h] [-c COMMAND] [--tokens] [--ast] [--max-depth MAX_DEPTH]\n" ++
  "           [--no-color]\n" ++
  "           [file]\n"

def helpPage : String :=
  usage ++
  "\nInterpreter for the rox scripting language.\n" ++
  "\npositional arguments:\n" ++
  "  file                  file to interpret and run (if empty, goes to command-\n" ++
  "                        line mode)\n" ++
  "\noptions:\n" ++
  "  -h, --help            show this help message and exit\n" ++
  "  -c COMMAND, --command COMMAND\n" ++
  "                        program passed in as a string (overrides file)\n" ++
  "  --tokens              print the tokens of the program before running it\n" ++
  "  --ast                 print the syntax tree of the program before running it\n" ++
  "  --max-depth MAX_DEPTH\n" ++
  "                        maximum nesting of expressions and blocks (default:\n" ++
  "                        " ++ Nat.repr defaultNesting ++ ")\n" ++
  "  --no-color            do not color diagnostics\n"

end Scriptlet
