import Scriptlet.Run.Value

/-! Scopes: which names are bound, and to what.

A scope binds names, a stack of scopes is what a program sees: the innermost
binding of a name counts. There is always a global scope at the bottom of the
stack. A name can be declared without a value, which is not the same as being
bound to nil. -/
namespace Scriptlet

/-- What a name is bound to; `none` if it is declared without a value. -/
abbrev Binding := Option Value

/-- The bindings of one scope. No name occurs twice. -/
abbrev Scope := List (String × Binding)

namespace Scope

/-- What a name is bound to, if it is bound. -/
def find? (name : String) : Scope → Option Binding
  | [] => none
  | (n, b) :: rest => if n = name then some b else find? name rest

/-- Binds a name, in place of any other binding of it. -/
def bind (name : String) (b : Binding) : Scope → Scope
  | [] => [(name, b)]
  | (n, old) :: rest => if n = name then (n, b) :: rest else (n, old) :: bind name b rest

theorem find?_bind (name n : String) (b : Binding) (s : Scope) :
    (s.bind name b).find? n = if name = n then some b else s.find? n := by
  induction s with
  | nil => rfl
  | cons p rest ih =>
    obtain ⟨m, old⟩ := p
    by_cases hm : m = name
    · subst hm
      by_cases h : m = n <;> simp [bind, find?, h]
    · by_cases h : m = n
      · subst h
        simp [bind, find?, hm, Ne.symm hm]
      · simp [bind, find?, hm, h, ih]

end Scope

/-- A stack of scopes: the innermost one and those around it, from the inside
out. -/
structure Scopes where
  inner : Scope
  outer : List Scope
  deriving DecidableEq

namespace Scopes

/-- The scopes of a program that has not run yet. -/
def fresh : Scopes :=
  ⟨[], []⟩

/-- All scopes, from the inside out. -/
def toList (s : Scopes) : List Scope :=
  s.inner :: s.outer

def depth (s : Scopes) : Nat :=
  s.outer.length + 1

/-- Opens a scope inside the others. -/
def push (s : Scopes) : Scopes :=
  ⟨[], s.toList⟩

/-- Ends the innermost scope. The global scope does not end. -/
def pop (s : Scopes) : Except RunError Scopes :=
  match s.outer with
  | [] => .error .globalScope
  | inner :: outer => .ok ⟨inner, outer⟩

theorem depth_push (s : Scopes) : s.push.depth = s.depth + 1 := by
  simp [push, depth, toList]

/-- Binds a name in the innermost scope. -/
def declare (name : String) (b : Binding) (s : Scopes) : Scopes :=
  { s with inner := s.inner.bind name b }

/-- The innermost binding of a name. -/
def find? (name : String) (s : Scopes) : Option Binding :=
  s.toList.findSome? (Scope.find? name)

/-- The value of a name. -/
def get (name : String) (s : Scopes) : Except RunError Value :=
  match s.find? name with
  | none => .error (.undefined name)
  | some none => .error (.uninitialized name)
  | some (some v) => .ok v

/-- Binds a name in the innermost of the scopes that bind it. -/
def rebind (name : String) (b : Binding) : List Scope → Option (List Scope)
  | [] => none
  | s :: rest =>
    if (s.find? name).isSome then some (s.bind name b :: rest)
    else (rebind name b rest).map (s :: ·)

/-- Gives a bound name another binding. -/
def assign (name : String) (b : Binding) (s : Scopes) : Except RunError Scopes :=
  if (s.inner.find? name).isSome then .ok { s with inner := s.inner.bind name b }
  else
    match rebind name b s.outer with
    | some outer => .ok { s with outer }
    | none => .error (.undefined name)

end Scopes

end Scriptlet
