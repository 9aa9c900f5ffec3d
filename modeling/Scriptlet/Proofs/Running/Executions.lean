import Scriptlet.Run.Execute

/-! The run of a program, statement by statement.

A patient run executes every statement of a program once, in order, and each on the machine
that the one before it left, whether that one ended with an error or not (`Executes`). The
errors of the run are those of the statements that end with one (`Executes.interpret`). So a
program can be run in parts (`interpret_append`). -/
namespace Scriptlet

/-- The statements are executed once each, in order, with these outcomes. -/
inductive Executes : Machine → List Stmt → List (Except RunError Unit) → Machine → Prop
  | done {m} : Executes m [] [] m
  | next {m s outcome n rest outcomes last} : execute stackLimit s m = (outcome, n) →
      Executes n rest outcomes last → Executes m (s :: rest) (outcome :: outcomes) last

/-- The error of a statement that ended with one. -/
def failure? : Except RunError Unit → Option RunError
  | .ok _ => none
  | .error e => some e

namespace Executes

variable {m n last : Machine} {program others : List Stmt}
  {outcomes more : List (Except RunError Unit)}

theorem exists_outcomes (program : List Stmt) (m : Machine) :
    ∃ outcomes n, Executes m program outcomes n := by
  induction program generalizing m with
  | nil => exact ⟨[], m, .done⟩
  | cons s rest ih =>
    rcases hs : execute stackLimit s m with ⟨outcome, n⟩
    obtain ⟨outcomes, last, hrest⟩ := ih n
    exact ⟨outcome :: outcomes, last, .next hs hrest⟩

theorem append (h : Executes m program outcomes n) (h' : Executes n others more last) :
    Executes m (program ++ others) (outcomes ++ more) last := by
  induction h with
  | done => exact h'
  | next hs _ ih => exact .next hs (ih h')

/-- A patient run comes to what its statements come to. -/
theorem interpret (h : Executes m program outcomes n) :
    interpret true program m = (outcomes.filterMap failure?, n) := by
  induction h with
  | done => rfl
  | @next m s outcome n rest outcomes last hs _ ih =>
    cases outcome <;>
      simp only [Scriptlet.interpret, hs, ih, if_true, List.filterMap_cons, failure?]

end Executes

/-- A patient run executes each statement once. -/
theorem interpret_executes (program : List Stmt) (m : Machine) :
    ∃ outcomes, Executes m program outcomes (interpret true program m).2 ∧
      (interpret true program m).1 = outcomes.filterMap failure? := by
  obtain ⟨outcomes, n, h⟩ := Executes.exists_outcomes program m
  rw [h.interpret]
  exact ⟨outcomes, h, rfl⟩

theorem interpret_append (first others : List Stmt) (m : Machine) :
    interpret true (first ++ others) m =
      ((interpret true first m).1 ++ (interpret true others (interpret true first m).2).1,
        (interpret true others (interpret true first m).2).2) := by
  obtain ⟨outcomes, n, h⟩ := Executes.exists_outcomes first m
  obtain ⟨more, last, h'⟩ := Executes.exists_outcomes others n
  rw [(h.append h').interpret, h.interpret, h'.interpret, List.filterMap_append]

end Scriptlet
