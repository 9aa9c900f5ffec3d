import Scriptlet.Run.Scopes

/-! Actions: steps of a running program.

An action reads and changes a state and then ends with a result or an error. What
it changed before an error stays changed. Sequencing is associative
(`LawfulMonad`), so only the order of the steps matters. -/
namespace Scriptlet

/-- A step with a result in `α` that works on a state in `σ`. -/
def Action (σ α : Type) := σ → Except RunError α × σ

namespace Action

variable {σ τ α β : Type}

protected def pure (a : α) : Action σ α :=
  fun s => (.ok a, s)

/-- Runs one action after another, unless the first ends with an error. -/
protected def bind (p : Action σ α) (f : α → Action σ β) : Action σ β := fun s =>
  match p s with
  | (.ok a, t) => f a t
  | (.error e, t) => (.error e, t)

instance : Monad (Action σ) where
  pure := Action.pure
  bind := Action.bind

def fail (e : RunError) : Action σ α :=
  fun s => (.error e, s)

/-- A result that does not depend on the state. -/
def ofExcept (r : Except RunError α) : Action σ α :=
  fun s => (r, s)

/-- A result read off the state. -/
def read (f : σ → Except RunError α) : Action σ α :=
  fun s => (f s, s)

/-- Changes the state; a change that fails leaves it as it was. -/
def change (f : σ → Except RunError σ) : Action σ Unit := fun s =>
  match f s with
  | .ok t => (.ok (), t)
  | .error e => (.error e, s)

/-! ### Laws -/

theorem bind_ok {p : Action σ α} {s t : σ} {a : α} (h : p s = (.ok a, t)) (f : α → Action σ β) :
    (p >>= f) s = f a t := by
  show Action.bind p f s = _
  simp [Action.bind, h]

theorem bind_error {p : Action σ α} {s t : σ} {e : RunError} (h : p s = (.error e, t))
    (f : α → Action σ β) : (p >>= f) s = (.error e, t) := by
  show Action.bind p f s = _
  simp [Action.bind, h]

instance : LawfulMonad (Action σ) :=
  LawfulMonad.mk' (Action σ)
    (fun p => funext fun s => by
      show Action.bind p _ s = p s
      unfold Action.bind
      split <;> simp_all [Action.pure])
    (fun _ _ => rfl)
    (fun p f g => funext fun s => by
      show Action.bind (Action.bind p f) g s = Action.bind p _ s
      simp only [Action.bind]
      cases p s with
      | mk r t => cases r <;> rfl)

end Action

end Scriptlet
