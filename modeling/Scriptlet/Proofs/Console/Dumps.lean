import Scriptlet.Proofs.Console.Sessions
import Scriptlet.Proofs.Running.Printing

/-! What is shown of a source stays apart from its run.

Whether the tokens and the trees of a source are shown makes no difference but to
what is printed, and there the lines of tokens and trees come before all that the
program prints. `dumps_apart` says so of adding a source and running it, for all
four ways of showing it at once. It takes that the stack has room for writing the
trees, if they are shown: where it has not, nothing is reported and nothing queued. -/
namespace Scriptlet

/-! ### Trees that can be shown -/

theorem treeLines_fits (statements : List Stmt) :
    (treeLines statements).2 = true ↔ ∀ x ∈ statements, x.display?.isSome := by
  induction statements with
  | nil => exact ⟨fun _ => List.forall_mem_nil _, fun _ => rfl⟩
  | cons x rest ih =>
    rw [List.forall_mem_cons, ← ih, treeLines]
    cases x.display? with
    | none => exact ⟨nofun, fun h => absurd h.1 (by decide)⟩
    | some text => exact ⟨fun h => ⟨rfl, h⟩, fun h => h.2⟩

namespace Session

variable {s : Session}

/-- The session as it would be if tokens and trees were shown as given. -/
def showing (tokens trees : Bool) (s : Session) : Session :=
  { s with settings := { s.settings with showTokens := tokens, showTrees := trees } }

/-- The session as it would be if it had printed `text`. -/
def printing (text : String) (s : Session) : Session :=
  { s with machine := { s.machine with printed := text } }

/-- The stack has room for the trees of a source, if they are shown. -/
def CanShow (source : List Char) (s : Session) : Prop :=
  s.settings.showTrees = true → ∀ parsed, s.settings.parse source = .ok parsed →
    ∀ x ∈ parsed.statements, x.display?.isSome

/-- All that is shown of a source. Of one that cannot be parsed nothing is. -/
def dump (source : List Char) (s : Session) : String :=
  match s.settings.parse source with
  | .ok parsed => s.settings.dump source parsed.statements
  | .error _ => ""

theorem canShow_iff {source : List Char} {parsed : Parsed}
    (h : s.settings.parse source = .ok parsed) :
    s.CanShow source ↔ s.settings.canShow parsed.statements = true := by
  rw [CanShow, Settings.canShow, Bool.or_eq_true, treeLines_fits, Bool.not_eq_true']
  cases s.settings.showTrees with
  | false => exact ⟨fun _ => .inl rfl, fun _ => nofun⟩
  | true =>
    constructor
    · exact fun hall => .inr (hall rfl parsed h)
    · intro hall _ parsed' h'
      rw [h] at h'
      cases h'
      exact hall.resolve_left nofun

/-! ### Steps -/

variable [Text.Painter]

/-- What is printed before a run comes before what the run prints, and nothing else depends on
it; nor does anything depend on what is shown. -/
theorem run_apart (hs : s.reporter.fatal = false) (tokens trees : Bool) (text : String) :
    ((s.showing tokens trees).printing text).run =
      (s.run.1, (s.run.2.showing tokens trees).printing
        (text ++ printedBy s.queue s.machine)) := by
  have hlenient : ((s.showing tokens trees).printing text).reporter.fatal = false := hs
  have hruns := interpret_printed s.queue text s.machine
  rw [run_lenient hlenient, run_lenient hs]
  simp only [printing, showing, hruns]

/-- What comes of adding a source, whatever is shown of it. -/
theorem add_apart (hs : s.reporter.fatal = false) (source : List Char) (line : Option Int) :
    ∃ (outcome : Except Interruption (List Diagnostic)) (added : Session),
      added.reporter.fatal = false ∧ added.machine = s.machine ∧
      ∀ tokens trees, (s.showing tokens trees).CanShow source →
        (s.showing tokens trees).add source line =
          (outcome, (added.showing tokens trees).printing
            (s.machine.printed ++ (s.showing tokens trees).dump source)) := by
  -- what is shown does not matter to the parser
  have hparse (tokens trees : Bool) :
      (s.showing tokens trees).settings.parse source = s.settings.parse source := rfl
  cases h : s.settings.parse source with
  | error i =>
    refine ⟨.error i, s.registered source line, hs, rfl, fun tokens trees _ => ?_⟩
    rw [← hparse tokens trees] at h
    rw [add_unparsed h, dump, h, String.append_empty]
    rfl
  | ok parsed =>
    refine ⟨.ok parsed.diagnostics,
      { s.registered source line with
        reporter := (s.registered source line).reporter.having (notices source parsed.diagnostics)
        queue := s.queue ++ parsed.statements }, hs, rfl, fun tokens trees hshow => ?_⟩
    rw [← hparse tokens trees] at h
    rw [add_parsed (s := s.showing tokens trees) hs h ((canShow_iff h).mp hshow), dump, h]
    rfl

/-- **What is shown of a source stays apart from its run.** In all sessions that differ in what
they show, and in which the stack has room for the trees that are shown, adding the source ends
in the same way: the same is reported and queued, and nothing has run. So does running it then,
with the same errors, scopes and output; and what is shown comes before the output and after
all that was printed before. Where the stack has no room for a tree, adding the source is
interrupted, and nothing is reported or queued. -/
theorem dumps_apart (hs : s.reporter.fatal = false) (source : List Char) (line : Option Int) :
    ∃ (outcome : Except Interruption (List Diagnostic)) (added ran : Session)
      (errors : List RunError) (out : String), added.machine = s.machine ∧
      ∀ tokens trees,
        ((s.showing tokens trees).CanShow source →
          (s.showing tokens trees).add source line =
            (outcome, (added.showing tokens trees).printing
              (s.machine.printed ++ (s.showing tokens trees).dump source)) ∧
          ((s.showing tokens trees).add source line).2.run =
            (.ok errors, (ran.showing tokens trees).printing
              (s.machine.printed ++ (s.showing tokens trees).dump source ++ out))) ∧
        (¬ (s.showing tokens trees).CanShow source →
          (s.showing tokens trees).add source line =
            (.error .overflow, ((s.registered source line).showing tokens trees).printing
              (s.machine.printed ++ (s.showing tokens trees).dump source))) := by
  obtain ⟨outcome, added, hlenient, hmachine, hadd⟩ := add_apart hs source line
  refine ⟨outcome, added, added.run.2, (interpret true added.queue added.machine).1,
    printedBy added.queue added.machine, hmachine, fun tokens trees => ⟨fun hshow => ?_, ?_⟩⟩
  · refine ⟨hadd tokens trees hshow, ?_⟩
    rw [hadd tokens trees hshow, run_apart hlenient, run_lenient hlenient]
  · intro hno
    cases h : (s.showing tokens trees).settings.parse source with
    | error i => exact absurd (fun _ parsed hparsed => by rw [h] at hparsed; cases hparsed) hno
    | ok parsed =>
      have hunshown : (s.showing tokens trees).settings.canShow parsed.statements = false :=
        eq_false_of_ne_true (mt (canShow_iff h).mpr hno)
      rw [add_unshown h hunshown, dump, h]
      rfl

end Session

/-- A print, with and without its tokens and its tree. -/
theorem dumps_apart_print :
    (Session.opened 41).reporter.fatal = false ∧
    ∃ outcome added,
      ((Session.opened 41).showing true true).add "print 1;".toList none =
        (outcome, Session.printing
          (((Session.opened 41).showing true true).dump "print 1;".toList)
          (Session.showing true true added)) ∧
      ((Session.opened 41).showing false false).add "print 1;".toList none =
        (outcome, Session.printing "" (Session.showing false false added)) := by
  have hlenient : (Session.opened 41).reporter.fatal = false := rfl
  obtain ⟨outcome, added, _, _, _, _, hshown⟩ :=
    Session.dumps_apart hlenient "print 1;".toList none
  have hparse : ((Session.opened 41).showing true true).settings.parse "print 1;".toList =
      .ok (parse 41 "print 1;".toList) :=
    Settings.parse_of_fits rfl (parse_fits 41 (by decide) _)
  have hcan : ((Session.opened 41).showing true true).CanShow "print 1;".toList :=
    (Session.canShow_iff hparse).mpr (by decide +kernel)
  refine ⟨hlenient, outcome, added, ((hshown true true).1 hcan).1, ?_⟩
  exact ((hshown false false).1 nofun).1

/-- A print, and behind it so many multiplications. -/
def printAndChain (n : Nat) : List Char :=
  "print true; ".toList ++ (List.replicate n ['"', '"', '*']).flatten ++ ['"', '"', ';']

set_option maxRecDepth 100000 in
/-- The stack has no room for the tree of a thousand multiplications. A session that shows trees
then queues nothing at all, not even the statement before them; one that does not queues both. -/
theorem dumps_interfere :
    (((Session.opened 41).showing false true).add (printAndChain 1000) none).2.queue = [] ∧
    (((Session.opened 41).showing false false).add
      (printAndChain 1000) none).2.queue.length = 2 := by
  have htrees : (parse 41 (printAndChain 1000)).statements.length = 2 ∧
      (treeLines (parse 41 (printAndChain 1000)).statements).2 = false := by
    decide +kernel
  generalize printAndChain 1000 = source at htrees ⊢
  have hparse (trees : Bool) :
      ((Session.opened 41).showing false trees).settings.parse source = .ok (parse 41 source) :=
    Settings.parse_of_fits rfl (parse_fits 41 (by decide) source)
  constructor
  · rw [Session.add_unshown (hparse true) htrees.2]
    rfl
  · rw [Session.add_parsed rfl (hparse false) rfl]
    exact htrees.1

end Scriptlet
