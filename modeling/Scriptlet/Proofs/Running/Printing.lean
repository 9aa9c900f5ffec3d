import Scriptlet.Run.Execute

/-! Running does not read what has been printed.

A machine adds to its printed text and never looks at it. What an action does from a
machine with an empty text it therefore does from any other, behind the text that is
there already (`Blind`). There is one law for each way of building actions, and
`interpret_behind` says it of whole programs. -/
namespace Scriptlet

/-- The machine as it would be with `text` printed before all it has printed. -/
def Machine.behind (text : String) (m : Machine) : Machine :=
  { m with printed := text ++ m.printed }

/-- The machine as it would be if it had printed nothing. -/
def Machine.silent (m : Machine) : Machine :=
  { m with printed := "" }

theorem Machine.silent_behind (m : Machine) : m.silent.behind m.printed = m := by
  simp only [Machine.silent, Machine.behind, String.append_empty]

theorem Machine.behind_write (text more : String) (m : Machine) :
    (m.behind text).write more = (m.write more).behind text := by
  simp only [Machine.behind, Machine.write, String.append_assoc]

/-! ### Actions -/

/-- An action does the same whatever was printed before it. -/
def Blind {α : Type} (p : Action Machine α) : Prop :=
  ∀ text m, p (m.behind text) = ((p m).1, (p m).2.behind text)

section
variable {α β : Type}

theorem blind_ofExcept (r : Except RunError α) : Blind (Action.ofExcept r) :=
  fun _ _ => rfl

theorem blind_pure (a : α) : Blind (pure a) :=
  fun _ _ => rfl

theorem blind_bind {p : Action Machine α} {f : α → Action Machine β} (hp : Blind p)
    (hf : ∀ a, Blind (f a)) : Blind (p >>= f) := by
  intro text m
  have hfirst := hp text m
  rcases hr : p m with ⟨r, n⟩
  rw [hr] at hfirst
  cases r with
  | ok a =>
    rw [Action.bind_ok hr, Action.bind_ok hfirst]
    exact hf a text n
  | error e => rw [Action.bind_error hr, Action.bind_error hfirst]

theorem blind_onScopes (p : Action Scopes α) : Blind (onScopes p) :=
  fun _ _ => rfl

theorem blind_printLine (v : Value) : Blind (printLine v) := by
  intro text m
  simp only [printLine, Machine.behind_write]

theorem blind_inScope {p : Action Machine α} (hp : Blind p) : Blind (inScope p) := by
  intro text m
  have hinner : p { m.behind text with scopes := (m.behind text).scopes.push } = _ :=
    hp text { m with scopes := m.scopes.push }
  simp only [inScope, hinner]
  rcases p { m with scopes := m.scopes.push } with ⟨r, n⟩
  cases hpop : n.scopes.pop <;> simp only [Machine.behind, hpop]

end

/-! ### Statements -/

mutual

theorem blind_execute (room : Nat) (stmt : Stmt) : Blind (execute room stmt) := by
  match room, stmt with
  | 0, _ =>
    rw [execute]
    exact blind_ofExcept _
  | room + 1, .expression e =>
    rw [execute]
    exact blind_bind (blind_onScopes _) fun _ => blind_pure ()
  | room + 1, .print e =>
    rw [execute]
    exact blind_bind (blind_onScopes _) fun v => blind_printLine v
  | room + 1, .declare name none =>
    rw [execute]
    exact blind_onScopes _
  | room + 1, .declare name (some e) =>
    rw [execute]
    exact blind_bind (blind_onScopes _) fun v => blind_onScopes _
  | room + 1, .block body =>
    rw [execute]
    exact blind_inScope (blind_executeAll room body)
  | room + 1, .branch condition yes none =>
    rw [execute]
    refine blind_bind (blind_onScopes _) fun v => blind_bind (blind_ofExcept _) fun b => ?_
    split
    · exact blind_execute room yes
    · exact blind_pure ()
  | room + 1, .branch condition yes (some no) =>
    rw [execute]
    refine blind_bind (blind_onScopes _) fun v => blind_bind (blind_ofExcept _) fun b => ?_
    split
    · exact blind_execute room yes
    · exact blind_execute room no

theorem blind_executeAll (room : Nat) (body : List Stmt) : Blind (executeAll room body) := by
  match body with
  | [] =>
    rw [executeAll]
    exact blind_pure ()
  | s :: rest =>
    rw [executeAll]
    exact blind_bind (blind_execute room s) fun _ => blind_executeAll room rest

end

/-! ### Programs -/

/-- A program runs in the same way behind any text. -/
theorem interpret_behind (patient : Bool) (program : List Stmt) (text : String) (m : Machine) :
    interpret patient program (m.behind text) =
      ((interpret patient program m).1, (interpret patient program m).2.behind text) := by
  induction program generalizing m with
  | nil => rfl
  | cons s rest ih =>
    have hfirst := blind_execute stackLimit s text m
    rcases hr : execute stackLimit s m with ⟨r, n⟩
    rw [hr] at hfirst
    cases r with
    | ok a => simp only [interpret, hr, hfirst, ih]
    | error e =>
      cases patient with
      | true => simp only [interpret, hr, hfirst, ih, if_true]
      | false => simp only [interpret, hr, hfirst, Bool.false_eq_true, if_false]

/-- Machines that differ in what they have printed run a program in the same way. -/
theorem interpret_silent {m n : Machine} (h : m.silent = n.silent) (program : List Stmt) :
    (interpret true program m).1 = (interpret true program n).1 ∧
      (interpret true program m).2.silent = (interpret true program n).2.silent := by
  have hm := interpret_behind true program m.printed m.silent
  have hn := interpret_behind true program n.printed n.silent
  rw [m.silent_behind] at hm
  rw [n.silent_behind] at hn
  rw [hm, hn, h]
  exact ⟨rfl, rfl⟩

/-- The text that a program prints, the same whatever was printed before it. -/
def printedBy (program : List Stmt) (m : Machine) : String :=
  (interpret true program m.silent).2.printed

/-- What a program prints comes behind what was printed before. -/
theorem printed_interpret (program : List Stmt) (m : Machine) :
    (interpret true program m).2.printed = m.printed ++ printedBy program m := by
  have h := interpret_behind true program m.printed m.silent
  rw [m.silent_behind] at h
  rw [h]
  rfl

/-- Had another text been printed before, the program's output would come behind that text. -/
theorem interpret_printed (program : List Stmt) (text : String) (m : Machine) :
    interpret true program { m with printed := text } =
      ((interpret true program m).1,
        { (interpret true program m).2 with printed := text ++ printedBy program m }) := by
  have hother := interpret_behind true program text m.silent
  have hm := interpret_behind true program m.printed m.silent
  have hsame : m.silent.behind text = { m with printed := text } := by
    simp only [Machine.silent, Machine.behind, String.append_empty]
  rw [hsame] at hother
  rw [m.silent_behind] at hm
  rw [hother, hm]
  rfl

end Scriptlet
