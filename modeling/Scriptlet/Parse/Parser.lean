import Scriptlet.Parse.Diagnostic

/-! Parsers: steps over a list of tokens.

A parser starts at a cursor and replies with an outcome, which is a result or the
diagnostic that stopped it, and with the cursor it came to. Two more things are
collected on the way: diagnostics that did not stop the parser, in the order in
which they were noted, and the frames that the deepest nested part needed. A
parser never moves past the end marker: there it sees the marker again and
again. -/
namespace Scriptlet

/-- The tokens that are not read yet, and the one that was read last. -/
structure Cursor where
  last : Option Token
  rest : List Token
  final : Token
  deriving DecidableEq, Repr

namespace Cursor

def start (ts : Tokens) : Cursor :=
  ⟨none, ts.body, ts.final⟩

/-- The token that is read next. -/
def peek (c : Cursor) : Token :=
  c.rest.headD c.final

def atEnd (c : Cursor) : Bool :=
  c.rest.isEmpty

/-- The cursor behind the next token. -/
def advance (c : Cursor) : Cursor :=
  match c.rest with
  | [] => c
  | t :: rest => { c with last := some t, rest }

end Cursor

structure Reply (α : Type) where
  outcome : Except Diagnostic α
  cursor : Cursor
  noted : List Diagnostic
  frames : Nat

def Parser (α : Type) := Cursor → Reply α

namespace Parser

variable {α β : Type}

protected def pure (a : α) : Parser α :=
  fun c => ⟨.ok a, c, [], 0⟩

/-- Runs one parser behind the other. Nothing is lost when the second stops. -/
protected def bind (p : Parser α) (f : α → Parser β) : Parser β := fun c =>
  let first := p c
  match first.outcome with
  | .error d => ⟨.error d, first.cursor, first.noted, first.frames⟩
  | .ok a =>
    let second := f a first.cursor
    ⟨second.outcome, second.cursor, first.noted ++ second.noted,
      max first.frames second.frames⟩

instance : Monad Parser where
  pure := Parser.pure
  bind := Parser.bind

/-- Stops with a fault of the given token. -/
def refuse (t : Token) (fault : Fault) : Parser α :=
  fun c => ⟨.error ⟨fault, t⟩, c, [], 0⟩

/-- Notes a fault and goes on. -/
def note (t : Token) (fault : Fault) : Parser Unit :=
  fun c => ⟨.ok (), c, [⟨fault, t⟩], 0⟩

def peek : Parser Token :=
  fun c => ⟨.ok c.peek, c, [], 0⟩

/-- The tokens that are not read yet. They bound every repetition, since each
round reads at least one of them. -/
def unread : Parser (List Token) :=
  fun c => ⟨.ok c.rest, c, [], 0⟩

/-- Whether all tokens are read. -/
def atEnd : Parser Bool :=
  fun c => ⟨.ok c.atEnd, c, [], 0⟩

/-- Moves behind the next token. -/
def skip : Parser Unit :=
  fun c => ⟨.ok (), c.advance, [], 0⟩

/-- Reads a token of the given kind; any other is at fault. -/
def expect (kind : Kind) (fault : Fault) : Parser Token := do
  let t ← peek
  if t.kind = kind then
    skip
    return t
  else refuse t fault

/-- Runs a nested part, which needs `cost` frames more than what is around it. -/
def inward (cost : Nat) (p : Parser α) : Parser α :=
  fun c =>
    let reply := p c
    { reply with frames := reply.frames + cost }

/-! ### Laws -/

theorem bind_ok {p : Parser α} {c : Cursor} {a : α} (h : (p c).outcome = .ok a)
    (f : α → Parser β) :
    (p >>= f) c =
      { f a (p c).cursor with
        noted := (p c).noted ++ (f a (p c).cursor).noted
        frames := max (p c).frames (f a (p c).cursor).frames } := by
  show Parser.bind p f c = _
  simp [Parser.bind, h]

theorem bind_error {p : Parser α} {c : Cursor} {d : Diagnostic} (h : (p c).outcome = .error d)
    (f : α → Parser β) :
    (p >>= f) c = ⟨.error d, (p c).cursor, (p c).noted, (p c).frames⟩ := by
  show Parser.bind p f c = _
  simp [Parser.bind, h]

theorem peek_bind (f : Token → Parser α) (c : Cursor) : (peek >>= f) c = f c.peek c := by
  rw [bind_ok (rfl : (peek c).outcome = .ok c.peek)]
  simp only [peek, List.nil_append, Nat.zero_max]

theorem unread_bind (f : List Token → Parser α) (c : Cursor) :
    (unread >>= f) c = f c.rest c := by
  rw [bind_ok (rfl : (unread c).outcome = .ok c.rest)]
  simp only [unread, List.nil_append, Nat.zero_max]

theorem atEnd_bind (f : Bool → Parser α) (c : Cursor) : (atEnd >>= f) c = f c.atEnd c := by
  rw [bind_ok (rfl : (atEnd c).outcome = .ok c.atEnd)]
  simp only [atEnd, List.nil_append, Nat.zero_max]

theorem skip_bind (p : Parser α) (c : Cursor) : (skip >>= fun _ => p) c = p c.advance := by
  rw [bind_ok (rfl : (skip c).outcome = .ok ())]
  simp only [skip, List.nil_append, Nat.zero_max]

theorem expect_found {kind : Kind} {c : Cursor} (h : c.peek.kind = kind) (fault : Fault) :
    expect kind fault c = ⟨.ok c.peek, c.advance, [], 0⟩ := by
  unfold expect
  rw [peek_bind, if_pos h, skip_bind]
  rfl

theorem expect_missing {kind : Kind} {c : Cursor} (h : c.peek.kind ≠ kind) (fault : Fault) :
    expect kind fault c = ⟨.error ⟨fault, c.peek⟩, c, [], 0⟩ := by
  unfold expect
  rw [peek_bind, if_neg h]
  rfl

instance : LawfulMonad Parser :=
  LawfulMonad.mk' Parser
    (fun p => funext fun c => by
      show Parser.bind p _ c = p c
      unfold Parser.bind
      cases h : (p c).outcome <;> simp [h, Parser.pure] <;> cases hp : p c <;> simp_all)
    (fun a f => funext fun c => by
      show Parser.bind (Parser.pure a) f c = f a c
      simp [Parser.bind, Parser.pure])
    (fun p f g => funext fun c => by
      show Parser.bind (Parser.bind p f) g c = Parser.bind p _ c
      simp only [Parser.bind]
      cases h : (p c).outcome with
      | error d => rfl
      | ok a =>
        simp only
        show _ = Reply.mk _ _ _ _
        cases h' : (f a (p c).cursor).outcome with
        | error d => simp [bind, Parser.bind, h']
        | ok b => simp [bind, Parser.bind, h', List.append_assoc, Nat.max_assoc])

end Parser

end Scriptlet
