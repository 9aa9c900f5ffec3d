import Scriptlet.Console.Session
import Scriptlet.Proofs.Reporting.Histories

/-! The steps of a session, told whole.

A step of a session whose reporter is lenient ends in one of few ways, and each of
the lemmas below says for one of them what the step returns and what becomes of the
whole session. A source is registered before it is parsed, what is shown of it is
written before anything is reported, and its statements are queued last
(`add_parsed`); a run empties the queue (`run_lenient`). All else that is done with a
session is calls of these two, one after the other (`Session.callAll`). -/
namespace Scriptlet

/-! ### What is shown of a source -/

namespace Settings

variable (settings : Settings)

/-- The lines of the tokens, if they are shown. -/
def tokensShown (source : List Char) : String :=
  if settings.showTokens then tokenLines (Tokens.scan source) else ""

/-- The lines of the trees, if they are shown, up to the first for which the stack has no
room. -/
def treesShown (statements : List Stmt) : String :=
  if settings.showTrees then (treeLines statements).1 else ""

/-- Whether the stack has room for all the trees that are shown. -/
def canShow (statements : List Stmt) : Bool :=
  !settings.showTrees || (treeLines statements).2

/-- All that is shown of a source. -/
def dump (source : List Char) (statements : List Stmt) : String :=
  settings.tokensShown source ++ settings.treesShown statements

theorem treeLines_shown (statements : List Stmt) :
    (if settings.showTrees then treeLines statements else ("", true)) =
      (settings.treesShown statements, settings.canShow statements) := by
  unfold treesShown canShow
  cases settings.showTrees <;> rfl

end Settings

/-! ### Steps -/

/-- A source is parsed with the room that there is, if the stack has room for that. -/
theorem Settings.parse_of_fits {settings : Settings} {room : Nat} {source : List Char}
    (hroom : settings.nesting = some room) (hfits : (Scriptlet.parse room source).fits = true) :
    settings.parse source = .ok (Scriptlet.parse room source) := by
  simp only [parse, hroom, hfits, if_true]

namespace Session

variable {s : Session} {source : List Char} {parsed : Parsed}

theorem stop?_lenient (h : s.reporter.fatal = false) (failed : Bool) : s.stop? failed = none := by
  rw [stop?, h]
  rfl

/-- The session once a source has been registered. -/
def registered (source : List Char) (line : Option Int) (s : Session) : Session :=
  let shown := if s.typed then some (String.ofList (Text.trim source)) else none
  { s with reporter := s.reporter.registerLine s.path shown line }

/-- The session once what is shown of a source has been written. -/
def shown (source : List Char) (line : Option Int) (statements : List Stmt) (s : Session) :
    Session :=
  (s.registered source line).write (s.settings.dump source statements)

variable [Text.Painter]

/-- A source that cannot be parsed leaves no trace but its registration. -/
theorem add_unparsed {i : Interruption} (h : s.settings.parse source = .error i)
    (line : Option Int) : s.add source line = (.error i, s.registered source line) := by
  simp only [add, h]
  rfl

/-- Trees for which the stack has no room keep everything from being reported and queued. -/
theorem add_unshown (h : s.settings.parse source = .ok parsed)
    (hshow : s.settings.canShow parsed.statements = false) (line : Option Int) :
    s.add source line = (.error .overflow, s.shown source line parsed.statements) := by
  simp only [add, h, Settings.treeLines_shown, hshow, Bool.not_false, if_true]
  rfl

/-- Otherwise the diagnostics are reported in order, and the statements are queued. -/
theorem add_parsed (hs : s.reporter.fatal = false) (h : s.settings.parse source = .ok parsed)
    (hshow : s.settings.canShow parsed.statements = true) (line : Option Int) :
    s.add source line = (.ok parsed.diagnostics,
      { s.shown source line parsed.statements with
        reporter := (s.registered source line).reporter.having (notices source parsed.diagnostics)
        queue := s.queue ++ parsed.statements }) := by
  have hlenient : (s.registered source line).reporter.fatal = false := hs
  rw [← Reporter.reportAll_lenient hlenient]
  simp only [add, h, Settings.treeLines_shown, hshow, Bool.not_true, Bool.false_eq_true, if_false]
  rw [stop?_lenient (by rw [Reporter.fatal_reportAll]; exact hs)]
  rfl

/-- A run executes what is queued and reports the errors. -/
theorem run_lenient (hs : s.reporter.fatal = false) :
    s.run = (.ok (interpret true s.queue s.machine).1,
      { s with
        machine := (interpret true s.queue s.machine).2
        queue := []
        reporter := (s.reporter.having
          ((interpret true s.queue s.machine).1.map Notice.ofRunError)).registerFile s.path }) := by
  have hpatient : (!s.reporter.fatal) = true := by rw [hs]; rfl
  rw [← Reporter.reportAll_lenient hs]
  simp only [run, hpatient]
  rw [stop?_lenient (by
    show (s.reporter.reportAll _).fatal = false
    rw [Reporter.fatal_reportAll]
    exact hs)]

/-! ### Calls -/

/-- A session that has been opened on no source, with room for `room` levels. -/
def opened (room : Nat) : Session :=
  (start (Reporter.fresh true false) typedPath true ⟨some room, false, false⟩ none).2

end Session

/-- What a session can be asked to do. -/
inductive Call where
  | add (source : List Char) (line : Option Int)
  | run
  deriving DecidableEq

/-- The source that a call adds. -/
def Call.source? : Call → Option (List Char)
  | .add source _ => some source
  | .run => none

namespace Session

variable [Text.Painter]

/-- Makes a call, the result of which does not matter. -/
def call : Call → Session → Step Unit
  | .add source line, s => ((s.add source line).1.map fun _ => (), (s.add source line).2)
  | .run, s => (s.run.1.map fun _ => (), s.run.2)

/-- Makes calls in order, up to the first that is interrupted. -/
def callAll : List Call → Session → Step Unit
  | [], s => (.ok (), s)
  | c :: rest, s =>
    match s.call c with
    | (.error i, s) => (.error i, s)
    | (.ok _, s) => callAll rest s

end Session

end Scriptlet
