import Scriptlet.Console.CommandLine

/-! The program: it reads files and lines, and writes what a run returns.

A file is read and run as a whole. Typed lines are heard one by one, and what was
written is shown before the next line is read. -/
namespace Scriptlet

/-- Writes out what was written on either side. -/
def emit (out err : String) : IO Unit := do
  let stdout ← IO.getStdout
  stdout.putStr out
  stdout.flush
  let stderr ← IO.getStderr
  stderr.putStr err
  stderr.flush

/-- Reads a file as a source. -/
def readSource (path : String) : IO Reading := do
  if path.toList.contains '\x00' then return Reading.ofNoFile path
  try
    return Reading.ofBytes (← IO.FS.readBinFile path)
  catch _ =>
    return Reading.ofNoFile path

/-- Writes out what a session has written so far, and forgets it. -/
def Prompt.emit (p : Prompt) : IO Prompt := do
  Scriptlet.emit p.session.machine.printed p.session.reporter.log
  let machine := { p.session.machine with printed := "" }
  let reporter := { p.session.reporter with log := "" }
  return { p with session := { p.session with machine, reporter } }

/-- Hears lines until the conversation is over. -/
partial def Conversation.serve (input : IO.FS.Stream) :
    Conversation → IO (Except Interruption Unit × Prompt)
  | .over outcome p => return (outcome, p)
  | .waiting p => do
    let p ← p.emit
    let line ← input.getLine
    let chars := if line.isEmpty then Prompt.endLine else line.toList.takeWhile (· ≠ '\n')
    ((waiting p).hear chars).serve input

/-- The status that a process ends with. -/
def Ending.status : Ending → UInt32
  | .returned status => status.toUInt32
  | .interrupted (.exit status) => status.toNat.toUInt32
  | .interrupted _ => 1

/-- Runs an invocation in the world: what is read is known before the run, unless it is
typed in. -/
def Invocation.perform (i : Invocation) : IO Transcript := do
  match i.command, i.file with
  | some _, _ => return i.run Reading.ofNoFile []
  | none, some path =>
    let reading ← readSource path
    return i.run (fun _ => reading) []
  | none, none =>
    let (outcome, p) ← (Conversation.await (i.prompt.write intro)).serve (← IO.getStdin)
    return conclude (outcome, p.session)

end Scriptlet

open Scriptlet in
def main (arguments : List String) : IO UInt32 := do
  let transcript ← match Invocation.ofArguments arguments with
    | .ok i => i.perform
    | .error e => pure e.transcript
  emit transcript.out transcript.err
  return transcript.ending.status
