import Scriptlet.Console.CommandLine
import Scriptlet.Proofs.Console.Sessions
import Scriptlet.Proofs.Parsing.Frames
import Scriptlet.Proofs.Running.Executions
import Scriptlet.Proofs.Running.Printing

/-! Every statement runs once.

A session can be asked to add sources and to run, in any order. A `Ledger` tells
what should come of that: a statement waits from the time its source is added, and
the next run takes all that wait. `Accounts` compares a session with the ledger of
the calls made to it. Every call preserves it (`Accounts.call`), so that it holds
of a session after all its calls, and `calls_run_once` reads off it what has run,
what was printed and what was reported. -/
namespace Scriptlet

/-! ### Calls -/

namespace Call

/-- The statements that are found in what is added. -/
def statements : Call → List Stmt
  | .add source _ => (parse defaultNesting source).statements
  | .run => []

/-- The diagnostics of what is added. -/
def diagnostics : Call → List Diagnostic
  | .add source _ => (parse defaultNesting source).diagnostics
  | .run => []

end Call

namespace Session

/-- A session that no error stops, which nests as deep as is allowed unless asked otherwise
and writes no trees. -/
structure Steady (s : Session) : Prop where
  lenient : s.reporter.fatal = false
  nesting : s.settings.nesting = some defaultNesting
  trees : s.settings.showTrees = false

end Session

/-! ### Ledgers -/

/-- What should come of calls. -/
structure Ledger where
  /-- The statements of each run so far. -/
  runs : List (List Stmt)
  /-- The statements that wait for the next run. -/
  waiting : List Stmt

namespace Ledger

def enter (l : Ledger) : Call → Ledger
  | .add source line => { l with waiting := l.waiting ++ (Call.add source line).statements }
  | .run => ⟨l.runs ++ [l.waiting], []⟩

/-- The ledger of calls to a session in which some statements wait already. -/
def ofCalls (waiting : List Stmt) (calls : List Call) : Ledger :=
  calls.foldl enter ⟨[], waiting⟩

/-- All statements that have run, in order. -/
def ran (l : Ledger) : List Stmt :=
  l.runs.flatten

theorem ofCalls_concat (waiting : List Stmt) (calls : List Call) (c : Call) :
    ofCalls waiting (calls ++ [c]) = (ofCalls waiting calls).enter c :=
  List.foldl_append ..

theorem ran_run (l : Ledger) : (l.enter .run).ran = l.ran ++ l.waiting := by
  simp only [enter, ran, List.flatten_append, List.flatten_singleton]

/-- A call neither loses a statement nor doubles one. -/
theorem enter_conserves (l : Ledger) (c : Call) :
    (l.enter c).ran ++ (l.enter c).waiting = l.ran ++ l.waiting ++ c.statements := by
  cases c with
  | add source line => exact (List.append_assoc ..).symm
  | run => rw [ran_run, enter, Call.statements]

/-- Of the statements that waited and those that were added, some have run and the others
still wait. -/
theorem ofCalls_conserves (waiting : List Stmt) (calls : List Call) :
    (ofCalls waiting calls).ran ++ (ofCalls waiting calls).waiting =
      waiting ++ calls.flatMap Call.statements := by
  have hfold (calls : List Call) (l : Ledger) :
      (calls.foldl enter l).ran ++ (calls.foldl enter l).waiting =
        l.ran ++ l.waiting ++ calls.flatMap Call.statements := by
    induction calls generalizing l with
    | nil => exact (List.append_nil _).symm
    | cons c calls ih =>
      rw [List.foldl_cons, ih, enter_conserves, List.flatMap_cons, List.append_assoc]
  exact hfold calls ⟨[], waiting⟩

end Ledger

/-! ### Sessions and their ledgers -/

theorem printedBy_append (first others : List Stmt) (m : Machine) :
    printedBy (first ++ others) m =
      printedBy first m ++ printedBy others (interpret true first m).2 := by
  have hsilent : m.silent.silent = m.silent := rfl
  rw [printedBy, interpret_append, printed_interpret, printedBy, printedBy,
    (interpret_silent hsilent first).2]
  rfl

/-- The texts that calls wrote: what a source adds is the lines of its tokens, and what runs
add is together what the program prints. -/
structure Written (s : Session) (program : List Stmt) (texts : List (Call × String)) : Prop where
  added : ∀ source line text, (Call.add source line, text) ∈ texts →
    text = s.settings.tokensShown source
  ran : String.join ((texts.filter (·.1 = .run)).map Prod.snd) = printedBy program s.machine

/-- The errors that calls reported, each with the reporter as it was then: for a source that is
added its diagnostics, from the front of the source to its end, and for the runs together the
errors of the program. -/
structure Reported (s : Session) (program : List Stmt)
    (reports : List (Call × List (Notice × Reporter))) : Prop where
  added : ∀ source line xs, (Call.add source line, xs) ∈ reports → ∃ sorted : List Diagnostic,
    sorted.Perm (parse defaultNesting source).diagnostics ∧
    sorted.Pairwise (·.token.start ≤ ·.token.start) ∧
    xs.map Prod.fst = sorted.map (Notice.ofDiagnostic source)
  ran : ((reports.filter (·.1 = .run)).flatMap Prod.snd).map Prod.fst =
    (interpret true program s.machine).1.map Notice.ofRunError

section
variable {s : Session} {program : List Stmt}

/-- One more call is told of behind those before it. -/
theorem map_fst_concat {α : Type} {xs : List (Call × α)} {calls : List Call}
    (h : xs.map Prod.fst = calls) (c : Call) (a : α) :
    (xs ++ [(c, a)]).map Prod.fst = calls ++ [c] := by
  rw [List.map_append, h]
  rfl

theorem Written.add {texts : List (Call × String)} (h : Written s program texts)
    (source : List Char) (line : Option Int) :
    Written s program (texts ++ [(.add source line, s.settings.tokensShown source)]) := by
  constructor
  · intro source' line' text hmem
    rcases List.mem_append.mp hmem with hmem | hmem
    · exact h.added source' line' text hmem
    · cases List.mem_singleton.mp hmem
      rfl
  · rw [← h.ran, List.filter_append]
    simp

/-- The next run goes on where the program before it ended. -/
theorem Written.run {texts : List (Call × String)} (h : Written s program texts) {m : Machine}
    (hm : m.silent = (interpret true program s.machine).2.silent) (more : List Stmt) :
    Written s (program ++ more) (texts ++ [(.run, printedBy more m)]) := by
  constructor
  · intro source line text hmem
    rcases List.mem_append.mp hmem with hmem | hmem
    · exact h.added source line text hmem
    · cases List.mem_singleton.mp hmem
  · rw [printedBy_append, ← h.ran, List.filter_append, printedBy, hm]
    simp [printedBy]

theorem Reported.add {reports : List (Call × List (Notice × Reporter))}
    (h : Reported s program reports) {source : List Char} {sorted : List Diagnostic}
    (hperm : sorted.Perm (parse defaultNesting source).diagnostics)
    (hsorted : sorted.Pairwise (·.token.start ≤ ·.token.start)) {xs : List (Notice × Reporter)}
    (hxs : xs.map Prod.fst = sorted.map (Notice.ofDiagnostic source)) (line : Option Int) :
    Reported s program (reports ++ [(.add source line, xs)]) := by
  constructor
  · intro source' line' ys hmem
    rcases List.mem_append.mp hmem with hmem | hmem
    · exact h.added source' line' ys hmem
    · cases List.mem_singleton.mp hmem
      exact ⟨sorted, hperm, hsorted, hxs⟩
  · rw [← h.ran, List.filter_append]
    simp

theorem Reported.run {reports : List (Call × List (Notice × Reporter))}
    (h : Reported s program reports) {more : List Stmt} {xs : List (Notice × Reporter)}
    (hxs : xs.map Prod.fst =
      (interpret true more (interpret true program s.machine).2).1.map Notice.ofRunError) :
    Reported s (program ++ more) (reports ++ [(.run, xs)]) := by
  constructor
  · intro source line ys hmem
    rcases List.mem_append.mp hmem with hmem | hmem
    · exact h.added source line ys hmem
    · cases List.mem_singleton.mp hmem
  · rw [interpret_append, List.map_append, ← h.ran, ← hxs, List.filter_append]
    simp

end

section
variable [Text.Painter]

/-- What is reported by one more call goes on the history of the calls before it. -/
theorem Reporter.History.concat {α : Type} {path : String} {r s t : Reporter}
    {reports : List (α × List (Notice × Reporter))} {xs : List (Notice × Reporter)}
    (h : History path r (reports.flatMap Prod.snd) s) (h' : History path s xs t) (c : α) :
    History path r ((reports ++ [(c, xs)]).flatMap Prod.snd) t := by
  rw [List.flatMap_append, List.flatMap_singleton]
  exact h.append h'

/-- How the session `t` stands, which was `s` before the calls. -/
structure Accounts (s : Session) (calls : List Call) (t : Session) : Prop where
  steady : t.Steady
  settings : t.settings = s.settings
  path : t.path = s.path
  /-- The queue holds what waits. -/
  queue : t.queue = (Ledger.ofCalls s.queue calls).waiting
  /-- The scopes are those of one program, made up of all that has run. -/
  scopes : t.machine.scopes =
    (interpret true (Ledger.ofCalls s.queue calls).ran s.machine).2.scopes
  /-- What was printed is that program's output, but for the tokens of sources. -/
  printed : ∃ texts : List (Call × String), texts.map Prod.fst = calls ∧
    t.machine.printed = s.machine.printed ++ String.join (texts.map Prod.snd) ∧
    Written s (Ledger.ofCalls s.queue calls).ran texts
  /-- Every diagnostic and every error of the program counts once. -/
  errors : t.reporter.errors = s.reporter.errors + (calls.flatMap Call.diagnostics).length +
    (interpret true (Ledger.ofCalls s.queue calls).ran s.machine).1.length
  /-- Each of them is reported once, and nothing else is written to the log. -/
  reported : ∃ reports : List (Call × List (Notice × Reporter)), reports.map Prod.fst = calls ∧
    Reporter.History s.path s.reporter (reports.flatMap Prod.snd) t.reporter ∧
    t.reporter.log = s.reporter.log ++
      String.join ((reports.flatMap Prod.snd).map fun x => x.2.wording x.1) ∧
    Reported s (Ledger.ofCalls s.queue calls).ran reports

end

namespace Session

variable {s : Session}

/-- The notices of diagnostics are those of a permutation of them that is in order. -/
theorem notices_ordered (source : List Char) (ds : List Diagnostic) :
    ∃ sorted : List Diagnostic, sorted.Perm ds ∧
      sorted.Pairwise (·.token.start ≤ ·.token.start) ∧
      notices source ds = sorted.map (Notice.ofDiagnostic source) := by
  refine ⟨_, List.mergeSort_perm ds _, ?_, rfl⟩
  have hsorted : (ds.mergeSort fun a b => decide (a.token.start ≤ b.token.start)).Pairwise
      fun a b => decide (a.token.start ≤ b.token.start) = true :=
    List.pairwise_mergeSort
      (fun a b c hab hbc => by simp only [decide_eq_true_eq] at *; omega)
      (fun a b => by simp only [Bool.or_eq_true, decide_eq_true_eq]; omega) ds
  exact hsorted.imp fun h => of_decide_eq_true h

theorem length_notices (source : List Char) (ds : List Diagnostic) :
    (notices source ds).length = ds.length := by
  obtain ⟨sorted, hperm, _, hnotices⟩ := notices_ordered source ds
  rw [hnotices, List.length_map, hperm.length_eq]

/-- What adding a source does to a steady session. -/
theorem add_steady [Text.Painter] (hs : s.Steady) (source : List Char) (line : Option Int) :
    s.add source line = (.ok (parse defaultNesting source).diagnostics,
      { s.registered source line with
        machine := s.machine.write (s.settings.tokensShown source)
        reporter := (s.registered source line).reporter.having
          (notices source (parse defaultNesting source).diagnostics)
        queue := s.queue ++ (parse defaultNesting source).statements }) := by
  have hparse := Settings.parse_of_fits hs.nesting (parse_fits defaultNesting (by decide) source)
  have hshow : s.settings.canShow (parse defaultNesting source).statements = true := by
    simp only [Settings.canShow, hs.trees, Bool.not_false, Bool.true_or]
  have hdump : s.settings.dump source (parse defaultNesting source).statements =
      s.settings.tokensShown source := by
    simp only [Settings.dump, Settings.treesShown, hs.trees, Bool.false_eq_true, if_false,
      String.append_empty]
  rw [add_parsed hs.lenient hparse hshow]
  simp only [shown, hdump]
  rfl

end Session

namespace Accounts

variable [Text.Painter] {s t : Session} {calls : List Call}

theorem start (hs : s.Steady) : Accounts s [] s where
  steady := hs
  settings := rfl
  path := rfl
  queue := rfl
  scopes := rfl
  printed := ⟨[], rfl, (String.append_empty).symm, nofun, rfl⟩
  errors := rfl
  reported := ⟨[], rfl, .done _, (String.append_empty).symm, nofun, rfl⟩

/-- The machine is that of one program but for what has been printed. -/
theorem silent (h : Accounts s calls t) :
    t.machine.silent =
      (interpret true (Ledger.ofCalls s.queue calls).ran s.machine).2.silent := by
  rw [Machine.silent, h.scopes]
  rfl

theorem add (h : Accounts s calls t) (source : List Char) (line : Option Int) :
    ∃ u, t.call (.add source line) = (.ok (), u) ∧
      Accounts s (calls ++ [.add source line]) u := by
  obtain ⟨texts, htexts, hprinted, hwritten⟩ := h.printed
  obtain ⟨reports, hreports, hhistory, -, hreported⟩ := h.reported
  obtain ⟨sorted, hperm, hsorted, hnotices⟩ :=
    Session.notices_ordered source (parse defaultNesting source).diagnostics
  obtain ⟨xs, hxs, htold, -⟩ := Reporter.history_having t.path
    (Session.notices source (parse defaultNesting source).diagnostics)
    (t.registered source line).reporter
  have hran : (Ledger.ofCalls s.queue (calls ++ [.add source line])).ran =
      (Ledger.ofCalls s.queue calls).ran := by
    rw [Ledger.ofCalls_concat]
    rfl
  rw [← h.path] at hhistory
  have hlog := hhistory.concat (.registers _ _ hxs) (.add source line)
  rw [Session.call, Session.add_steady h.steady]
  refine ⟨_, rfl, ⟨h.steady.lenient, h.steady.nesting, h.steady.trees⟩, h.settings, h.path, ?_, ?_,
    ⟨_, map_fst_concat htexts _ (s.settings.tokensShown source), ?_, ?_⟩, ?_,
    ⟨_, map_fst_concat hreports _ xs, h.path ▸ hlog, hlog.log, ?_⟩⟩
  · rw [Ledger.ofCalls_concat]
    exact congrArg (· ++ _) h.queue
  · rw [hran]
    exact h.scopes
  · show t.machine.printed ++ _ = _
    rw [hprinted, h.settings, List.map_append, String.join_append, String.append_assoc]
    simp
  · rw [hran]
    exact hwritten.add source line
  · show t.reporter.errors + _ = _
    rw [Session.length_notices, hran, List.flatMap_append, List.flatMap_singleton,
      List.length_append, h.errors, Call.diagnostics]
    omega
  · rw [hran]
    exact hreported.add hperm hsorted (htold.trans hnotices) line

theorem run (h : Accounts s calls t) :
    ∃ u, t.call .run = (.ok (), u) ∧ Accounts s (calls ++ [.run]) u := by
  obtain ⟨texts, htexts, hprinted, hwritten⟩ := h.printed
  obtain ⟨reports, hreports, hhistory, -, hreported⟩ := h.reported
  obtain ⟨xs, hxs, htold, -⟩ := Reporter.history_having t.path
    ((interpret true t.queue t.machine).1.map Notice.ofRunError) t.reporter
  have hran : (Ledger.ofCalls s.queue (calls ++ [.run])).ran =
      (Ledger.ofCalls s.queue calls).ran ++ t.queue := by
    rw [Ledger.ofCalls_concat, Ledger.ran_run, h.queue]
  have hsame := interpret_silent h.silent t.queue
  have hend := hxs.append (.registers none none (.done _))
  rw [List.append_nil] at hend
  rw [← h.path] at hhistory
  have hlog := hhistory.concat hend .run
  rw [Session.call, Session.run_lenient h.steady.lenient]
  refine ⟨_, rfl, ⟨h.steady.lenient, h.steady.nesting, h.steady.trees⟩, h.settings, h.path, ?_, ?_,
    ⟨_, map_fst_concat htexts _ (printedBy t.queue t.machine), ?_, ?_⟩, ?_,
    ⟨_, map_fst_concat hreports _ xs, h.path ▸ hlog, hlog.log, ?_⟩⟩
  · rw [Ledger.ofCalls_concat]
    rfl
  · rw [hran, interpret_append]
    show (interpret true t.queue t.machine).2.silent.scopes = _
    rw [hsame.2]
    rfl
  · show (interpret true t.queue t.machine).2.printed = _
    rw [printed_interpret, hprinted, List.map_append, String.join_append, String.append_assoc]
    simp
  · rw [hran]
    exact hwritten.run h.silent t.queue
  · show t.reporter.errors + _ = _
    rw [hran, interpret_append, List.flatMap_append, List.flatMap_singleton, List.length_append,
      List.length_append, List.length_map, h.errors, hsame.1]
    show _ = _ + (_ + 0) + _
    omega
  · rw [hran]
    exact hreported.run (by rw [htold, hsame.1])

theorem call (h : Accounts s calls t) (c : Call) :
    ∃ u, t.call c = (.ok (), u) ∧ Accounts s (calls ++ [c]) u := by
  cases c with
  | add source line => exact h.add source line
  | run => exact h.run

theorem callAll (h : Accounts s calls t) (more : List Call) :
    ∃ u, t.callAll more = (.ok (), u) ∧ Accounts s (calls ++ more) u := by
  induction more generalizing calls t with
  | nil => exact ⟨t, rfl, by rw [List.append_nil]; exact h⟩
  | cons c more ih =>
    obtain ⟨next, hcall, hnext⟩ := h.call c
    obtain ⟨u, hmore, hu⟩ := ih hnext
    rw [List.append_assoc] at hu
    exact ⟨u, by simp only [Session.callAll, hcall, hmore], hu⟩

end Accounts

/-! ### Commands -/

/-- Two calls that are not interrupted are two steps with a result. -/
theorem Session.add_run_of_callAll [Text.Painter] {s u : Session} {source : List Char}
    {line : Option Int} (h : s.callAll [.add source line, .run] = (.ok (), u)) :
    ∃ ds t errors, s.add source line = (.ok ds, t) ∧ t.run = (.ok errors, u) := by
  rcases hadd : s.add source line with ⟨_ | ds, t⟩ <;>
    simp only [callAll, call, hadd, Except.map] at h
  · cases h
  · rcases hrun : t.run with ⟨_ | errors, t'⟩ <;> simp only [hrun] at h <;> cases h
    exact ⟨ds, t, errors, rfl, hrun⟩

/-- The run of a command ends with status zero if nothing is wrong with it. -/
theorem runSource_status [Text.Painter] {i : Invocation}
    (hnesting : i.settings.nesting = some defaultNesting)
    (htrees : i.settings.showTrees = false) (text : List Char) :
    ∃ status, (i.runSource Invocation.commandPath (.source text)).ending = .returned status ∧
      (status = 0 ↔ (parse defaultNesting text).diagnostics = [] ∧
        (interpret true (parse defaultNesting text).statements Machine.fresh).1 = []) := by
  let s : Session := ⟨i.reporter.registerFile Invocation.commandPath, Machine.fresh, [],
    Invocation.commandPath, false, i.settings⟩
  have hsteady : s.Steady := ⟨rfl, hnesting, htrees⟩
  have hstart : Session.start i.reporter Invocation.commandPath false i.settings
      (some (.source text)) = s.add text (some 1) := rfl
  obtain ⟨u, hcalls, hu⟩ := (Accounts.start hsteady).callAll [.add text (some 1), .run]
  obtain ⟨ds, t, errors, hadd, hrun⟩ := Session.add_run_of_callAll hcalls
  have hcount : u.reporter.errors = (parse defaultNesting text).diagnostics.length +
      (interpret true (parse defaultNesting text).statements Machine.fresh).1.length := by
    have h := hu.errors
    simp only [List.nil_append, Ledger.ofCalls, List.foldl_cons, List.foldl_nil, Ledger.enter,
      Ledger.ran, List.flatten_singleton, Call.statements, List.flatMap_cons, List.flatMap_nil,
      Call.diagnostics, List.append_nil] at h
    rw [h]
    exact congrArg (· + _) (Nat.zero_add _)
  refine ⟨if u.reporter.errors = 0 then 0 else 1, ?_, ?_⟩
  · simp only [Invocation.runSource, hstart, hadd, hrun]
    rfl
  · rw [hcount, ← List.length_eq_zero_iff, ← List.length_eq_zero_iff]
    split <;> omega

/-! ### All calls -/

/-- **Every statement runs once.** Whatever sources are added to a steady session and whenever
it is run in between, no call is interrupted. Each run takes all statements that were found
since the run before it, in the order of their sources, and executes each of them once; so what
has run and what still waits are together what was found, and scopes, output and errors are those
of one program made up of what has run. Each diagnostic and each of these errors is counted once
and written to the log once, and nothing else is written there. An add that comes next executes
nothing and reports every diagnostic of its source, from the front to the end; a run that comes
next empties the queue and reports the errors of what was in it. The run of a command line whose
source is a command ends with status zero if and only if nothing is wrong with the source. -/
theorem calls_run_once [Text.Painter] {s : Session} (hs : s.Steady) (calls : List Call) :
    (∃ t, s.callAll calls = (.ok (), t) ∧ Accounts s calls t ∧
      (Ledger.ofCalls s.queue calls).ran ++ t.queue =
        s.queue ++ calls.flatMap Call.statements ∧
      (∃ outcomes, Executes s.machine (Ledger.ofCalls s.queue calls).ran outcomes
          (interpret true (Ledger.ofCalls s.queue calls).ran s.machine).2 ∧
        (interpret true (Ledger.ofCalls s.queue calls).ran s.machine).1 =
          outcomes.filterMap failure?) ∧
      (∀ source line, ∃ (u : Session) (sorted : List Diagnostic),
        t.add source line = (.ok (parse defaultNesting source).diagnostics, u) ∧
        u.queue = t.queue ++ (parse defaultNesting source).statements ∧
        u.machine = t.machine.write (s.settings.tokensShown source) ∧
        sorted.Perm (parse defaultNesting source).diagnostics ∧
        sorted.Pairwise (·.token.start ≤ ·.token.start) ∧
        u.reporter = (t.registered source line).reporter.having
          (sorted.map (Notice.ofDiagnostic source))) ∧
      ∃ (u : Session) (outcomes : List (Except RunError Unit)),
        t.run = (.ok (outcomes.filterMap failure?), u) ∧ u.queue = [] ∧
        Executes t.machine t.queue outcomes u.machine ∧
        (outcomes.filterMap failure?, u.machine) = interpret true t.queue t.machine ∧
        u.reporter = (t.reporter.having
          ((outcomes.filterMap failure?).map Notice.ofRunError)).registerFile t.path) ∧
    ∀ arguments i text read typed, Invocation.ofArguments arguments = .ok i →
      i.command = some (.source text) → i.settings.nesting = some defaultNesting →
      i.settings.showTrees = false →
      ∃ status, (runCommandLine arguments read typed).ending = .returned status ∧
        (status = 0 ↔ (parse defaultNesting text.toList).diagnostics = [] ∧
          (interpret true (parse defaultNesting text.toList).statements Machine.fresh).1 = []) := by
  constructor
  · obtain ⟨t, hcalls, ht⟩ := (Accounts.start hs).callAll calls
    refine ⟨t, hcalls, ht, ?_, interpret_executes _ _, fun source line => ?_, ?_⟩
    · rw [ht.queue]
      exact Ledger.ofCalls_conserves s.queue calls
    · obtain ⟨sorted, hperm, hsorted, hnotices⟩ :=
        Session.notices_ordered source (parse defaultNesting source).diagnostics
      refine ⟨_, sorted, Session.add_steady ht.steady source line, rfl, ?_, hperm, hsorted, ?_⟩
      · rw [← ht.settings]
      · rw [← hnotices]
    · obtain ⟨outcomes, hexecutes, herrors⟩ := interpret_executes t.queue t.machine
      have hrun := Session.run_lenient ht.steady.lenient
      rw [herrors] at hrun
      exact ⟨_, outcomes, hrun, rfl, hexecutes, by rw [← herrors], rfl⟩
  · intro arguments i text read typed hi hcommand hnesting htrees
    have hrun : runCommandLine arguments read typed =
        i.runSource Invocation.commandPath (.source text.toList) := by
      simp only [runCommandLine, hi, Invocation.run, hcommand, Command.reading]
    rw [hrun]
    exact runSource_status hnesting htrees text.toList

/-- A source of which one statement prints, one fails and one is malformed, a run, and a source
that waits for another run; and the run of a command without fault. -/
theorem calls_run_once_mixed :
    (Session.opened 41).Steady ∧
    Invocation.ofArguments ["-c", "print 1;"] =
      .ok { Invocation.default with command := some (.source "print 1;") } ∧
    (∃ t, (Session.opened 41).callAll
        [.add "print 1; print 1 + nil; print".toList none, .run, .add "let a;".toList none] =
          (.ok (), t) ∧
      t.queue.length = 1 ∧ t.reporter.errors = 2 ∧ t.machine.printed = "1\n" ∧
      t.reporter.log =
        "  File '<in>', line None:\n    print 1; print 1 + nil; print\n" ++
        "<in>:1: error: Expected expression.\n" ++
        "AtLine [1] AtToken[Token(EOF, 28, 28)]\n" ++
        "  print 1; print 1 + nil; print\n                              ^\n" ++
        "  File '<in>', line None:\n    print 1; print 1 + nil; print\n" ++
        "<in>: error: Operands of '+' must be two numbers or two strings, got number and nil.\n") ∧
    ∀ read typed, (runCommandLine ["-c", "print 1;"] read typed).ending = .returned 0 := by
  have hsteady : (Session.opened 41).Steady := ⟨rfl, rfl, rfl⟩
  have harguments : Invocation.ofArguments ["-c", "print 1;"] =
      .ok { Invocation.default with command := some (.source "print 1;") } := by decide +kernel
  obtain ⟨⟨t, hcalls, ht, -⟩, hcommand⟩ := calls_run_once hsteady
    [.add "print 1; print 1 + nil; print".toList none, .run, .add "let a;".toList none]
  have hend : t = ((Session.opened 41).callAll
      [.add "print 1; print 1 + nil; print".toList none, .run, .add "let a;".toList none]).2 := by
    rw [hcalls]
  refine ⟨hsteady, harguments, ⟨t, hcalls, ?_, ?_, ?_, ?_⟩, fun read typed => ?_⟩
  · rw [ht.queue]
    decide +kernel
  · rw [ht.errors]
    decide +kernel
  · rw [hend]
    decide +kernel
  · rw [hend]
    decide +kernel
  · obtain ⟨status, hending, hstatus⟩ :=
      hcommand ["-c", "print 1;"] _ "print 1;" read typed harguments rfl rfl rfl
    have hzero : status = 0 := hstatus.mpr ⟨by decide +kernel, by decide +kernel⟩
    rw [hending, hzero]

end Scriptlet
