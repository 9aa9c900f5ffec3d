import Scriptlet.Parse.Statement

/-! What a fault says of the token it is blamed on.

The parser looks at a token before it finds fault with it, so that the token is what the
fault says (`Diagnostic.Grounded`). That holds of the diagnostic that stops a parser and of
those that it only notes (`Grounds`), and so of all that is wrong with a program
(`parseTokens_grounded`). -/
namespace Scriptlet

open Scriptlet.Parser

/-- The token is what the fault says that it is. Of nesting, of a mark and of an expression
that is missing, the token alone says nothing. -/
def Diagnostic.Grounded (d : Diagnostic) : Prop :=
  match d.fault with
  | .unterminatedString => False
  | .unexpectedCharacter text => d.token.kind = .unknown ∧ d.token.text = text
  | .invalidNumber text =>
    d.token.kind = .number ∧ d.token.text = text ∧ Decimal.read? text = none
  | .expectedName => d.token.kind ≠ .identifier
  | .unsupported word => d.token.kind = word ∧ word ∈ [.forWord, .funWord, .returnWord]
  | .invalidTarget => d.token.kind = .equal
  | .expectedExpression | .expectedMark _ _ | .tooMuchNesting => True

/-- Wherever the parser starts, what it notes and what stops it is grounded. -/
def Grounds {α : Type} (p : Parser α) : Prop :=
  ∀ c, (∀ d ∈ (p c).noted, d.Grounded) ∧ ∀ d, (p c).outcome = .error d → d.Grounded

section
variable {α β : Type}

/-- A parser that goes on and notes nothing finds no fault. -/
theorem grounds_silent {p : Parser α}
    (h : ∀ c, (p c).noted = [] ∧ ∃ a, (p c).outcome = .ok a) : Grounds p := by
  intro c
  obtain ⟨hnoted, a, ho⟩ := h c
  rw [hnoted, ho]
  exact ⟨fun d hd => absurd hd List.not_mem_nil, fun d hd => by cases hd⟩

theorem grounds_pure (a : α) : Grounds (pure a : Parser α) :=
  grounds_silent fun _ => ⟨rfl, a, rfl⟩

theorem grounds_peek : Grounds peek :=
  grounds_silent fun c => ⟨rfl, c.peek, rfl⟩

theorem grounds_unread : Grounds unread :=
  grounds_silent fun c => ⟨rfl, c.rest, rfl⟩

theorem grounds_atEnd : Grounds atEnd :=
  grounds_silent fun c => ⟨rfl, c.atEnd, rfl⟩

theorem grounds_skip : Grounds skip :=
  grounds_silent fun _ => ⟨rfl, (), rfl⟩

theorem grounds_refuse {t : Token} {fault : Fault} (h : Diagnostic.Grounded ⟨fault, t⟩) :
    Grounds (refuse t fault : Parser α) :=
  fun _ => ⟨fun _ hd => absurd hd List.not_mem_nil, fun _ hd => Except.error.inj hd ▸ h⟩

theorem grounds_note {t : Token} {fault : Fault} (h : Diagnostic.Grounded ⟨fault, t⟩) :
    Grounds (note t fault) :=
  fun _ => ⟨fun _ hd => List.mem_singleton.mp hd ▸ h, fun _ hd => by cases hd⟩

theorem grounds_bind {p : Parser α} {f : α → Parser β} (hp : Grounds p)
    (hf : ∀ a, Grounds (f a)) : Grounds (p >>= f) := by
  intro c
  obtain ⟨hnoted, hstop⟩ := hp c
  cases ho : (p c).outcome with
  | error d =>
    rw [bind_error ho]
    exact ⟨hnoted, fun e he => Except.error.inj he ▸ hstop d ho⟩
  | ok a =>
    rw [bind_ok ho]
    obtain ⟨hmore, hend⟩ := hf a (p c).cursor
    exact ⟨List.forall_mem_append.mpr ⟨hnoted, hmore⟩, hend⟩

theorem grounds_inward {p : Parser α} (cost : Nat) (h : Grounds p) : Grounds (inward cost p) :=
  h

theorem grounds_expect {kind : Kind} {fault : Fault}
    (h : ∀ t : Token, t.kind ≠ kind → Diagnostic.Grounded ⟨fault, t⟩) :
    Grounds (expect kind fault) := by
  refine grounds_bind grounds_peek fun t => ?_
  split
  next => exact grounds_bind grounds_skip fun _ => grounds_pure t
  next hk => exact grounds_refuse (h t hk)

theorem grounds_expectMark (kind mark : Kind) (after : Construct) :
    Grounds (expect kind (.expectedMark mark after)) :=
  grounds_expect fun _ _ => trivial

end

/-! ### Expressions -/

section
variable {inner : Inner}

theorem grounds_chain {layer : Layer} {operand : Parser Expr} (h : Grounds operand)
    (bound : List Token) (left : Expr) : Grounds (chain layer operand bound left) := by
  induction bound generalizing left with
  | nil => exact grounds_pure left
  | cons _ bound ih =>
    refine grounds_bind grounds_peek fun t => ?_
    split
    · exact grounds_pure left
    · exact grounds_bind grounds_skip fun _ => grounds_bind h fun right => ih _

theorem grounds_operation {operand : Parser Expr} (h : Grounds operand) :
    Grounds (operation operand) := by
  unfold operation
  induction layers with
  | nil => exact h
  | cons layer layers ih =>
    exact grounds_bind ih fun first => grounds_bind grounds_unread fun _ => grounds_chain ih _ first

theorem grounds_primary (h : ∀ t, Grounds (inner.expression t)) : Grounds (primary inner) := by
  refine grounds_bind grounds_peek fun t => ?_
  split
  case h_1 | h_2 | h_3 | h_5 | h_6 => exact grounds_bind grounds_skip fun _ => grounds_pure _
  case h_4 hk =>
    refine grounds_bind grounds_skip fun _ => ?_
    split
    next => exact grounds_pure _
    next hread => exact grounds_refuse ⟨hk, rfl, hread⟩
  case h_7 =>
    exact grounds_bind grounds_skip fun _ => grounds_bind (grounds_inward 16 (h t)) fun e =>
      grounds_bind (grounds_expectMark _ _ _) fun _ => grounds_pure e
  case h_8 hk => exact grounds_refuse ⟨hk, rfl⟩
  case h_9 => exact grounds_refuse trivial

theorem grounds_operand (h : ∀ t, Grounds (inner.expression t))
    (ho : ∀ t, Grounds (inner.operand t)) : Grounds (operandWith inner) := by
  refine grounds_bind grounds_peek fun t => ?_
  split
  · exact grounds_bind grounds_skip fun _ => grounds_bind (grounds_inward 1 (ho t)) fun e =>
      grounds_pure _
  · exact grounds_primary h

theorem grounds_expressionWith (h : ∀ t, Grounds (inner.expression t))
    (ho : ∀ t, Grounds (inner.operand t)) : Grounds (expressionWith inner) := by
  refine grounds_bind (grounds_operation (grounds_operand h ho)) fun target =>
    grounds_bind grounds_peek fun t => ?_
  split
  next hk =>
    refine grounds_bind grounds_skip fun _ =>
      grounds_bind (grounds_inward 1 (h t)) fun value => ?_
    split
    · exact grounds_pure _
    · exact grounds_bind (grounds_note hk) fun _ => grounds_pure _
  next => exact grounds_pure target

end

theorem grounds_inner (room : Nat) (t : Token) :
    Grounds ((inner room).expression t) ∧ Grounds ((inner room).operand t) := by
  induction room generalizing t with
  | zero => exact ⟨grounds_refuse trivial, grounds_refuse trivial⟩
  | succ room ih =>
    have h := fun t => (ih t).1
    have ho := fun t => (ih t).2
    exact ⟨grounds_expressionWith h ho, grounds_operand h ho⟩

theorem grounds_expression (room : Nat) : Grounds (expression room) :=
  grounds_expressionWith (fun t => (grounds_inner room t).1) fun t => (grounds_inner room t).2

/-! ### Statements -/

section
variable {expr : Parser Expr} {body : Body}

theorem grounds_semicolon (after : Construct) : Grounds (semicolon after) :=
  grounds_bind (grounds_expectMark _ _ _) fun _ => grounds_pure ()

theorem grounds_ifChain (he : Grounds expr) (hb : ∀ t, Grounds (body.branch t))
    (bound : List Token) : Grounds (ifChain expr body bound) := by
  have hbranch (t : Token) : Grounds (inward 2 (body.branch t)) := grounds_inward 2 (hb t)
  induction bound with
  | nil => exact grounds_bind grounds_peek fun t => grounds_refuse trivial
  | cons _ bound ih =>
    refine grounds_bind (grounds_expectMark _ _ _) fun _ => grounds_bind he fun condition =>
      grounds_bind (grounds_expectMark _ _ _) fun close => grounds_bind (hbranch close) fun yes =>
      grounds_bind grounds_peek fun t => ?_
    split
    · refine grounds_bind grounds_skip fun _ => grounds_bind grounds_peek fun next => ?_
      split
      · exact grounds_bind grounds_skip fun _ => grounds_bind ih fun no => grounds_pure _
      · exact grounds_bind (hbranch t) fun no => grounds_pure _
    · exact grounds_pure _

theorem grounds_statement (he : Grounds expr) (hb : ∀ t, Grounds (body.branch t))
    (hblock : ∀ t, Grounds (body.block t)) : Grounds (statementWith expr body) := by
  refine grounds_bind grounds_peek fun t => ?_
  split
  case h_1 hk | h_2 hk | h_3 hk => exact grounds_refuse ⟨rfl, by simp [hk]⟩
  case h_4 =>
    exact grounds_bind grounds_skip fun _ => grounds_bind (grounds_inward 3 (hblock t)) fun _ =>
      grounds_bind (grounds_expectMark _ _ _) fun _ => grounds_pure _
  case h_5 =>
    exact grounds_bind grounds_skip fun _ => grounds_bind he fun _ =>
      grounds_bind (grounds_semicolon _) fun _ => grounds_pure _
  case h_6 =>
    exact grounds_bind grounds_skip fun _ => grounds_bind grounds_unread fun bound =>
      grounds_ifChain he hb bound
  case h_7 =>
    exact grounds_bind he fun _ => grounds_bind (grounds_semicolon _) fun _ => grounds_pure _

theorem grounds_variable (he : Grounds expr) : Grounds (variableWith expr) := by
  refine grounds_bind (grounds_expect fun _ hk => hk) fun name =>
    grounds_bind grounds_peek fun t => ?_
  split
  · exact grounds_bind grounds_skip fun _ => grounds_bind he fun _ =>
      grounds_bind (grounds_semicolon _) fun _ => grounds_pure _
  · exact grounds_bind (grounds_semicolon _) fun _ => grounds_pure _

theorem grounds_declarationWith (he : Grounds expr) (hb : ∀ t, Grounds (body.branch t))
    (hblock : ∀ t, Grounds (body.block t)) : Grounds (declarationWith expr body) := by
  refine grounds_bind grounds_peek fun t => ?_
  split
  · exact grounds_bind grounds_skip fun _ => grounds_variable he
  · exact grounds_statement he hb hblock

end

/-! ### Sequences and levels -/

theorem grounds_recovering {p : Parser Stmt} (h : Grounds p) (inBlock : Bool) :
    Grounds (recovering inBlock p) := by
  intro c
  obtain ⟨hnoted, hstop⟩ := h c
  cases ho : (p c).outcome with
  | ok s =>
    rw [recovering_of_ok ho]
    exact ⟨hnoted, fun e he => by cases he⟩
  | error d =>
    rw [recovering_of_error ho]
    refine ⟨List.forall_mem_append.mpr ⟨hnoted, fun e he => ?_⟩, fun e he => by cases he⟩
    exact List.mem_singleton.mp he ▸ hstop d ho

theorem grounds_sequence {one : Parser (Option Stmt)} (h : Grounds one) (inBlock : Bool)
    (bound : List Token) : Grounds (sequence inBlock one bound) := by
  induction bound with
  | nil => exact grounds_pure []
  | cons _ bound ih =>
    refine grounds_bind grounds_atEnd fun _ => grounds_bind grounds_peek fun t => ?_
    split
    · exact grounds_pure []
    · exact grounds_bind h fun first => grounds_bind ih fun more => grounds_pure _

theorem grounds_body (room : Nat) (t : Token) :
    Grounds ((body room).branch t) ∧ Grounds ((body room).block t) := by
  induction room generalizing t with
  | zero =>
    have hrefuse {α : Type} : Grounds (refuse t .tooMuchNesting : Parser α) := grounds_refuse trivial
    exact ⟨hrefuse, fun c => hrefuse (c.skipBlock 1)⟩
  | succ room ih =>
    have hb := fun t => (ih t).1
    have hblock := fun t => (ih t).2
    have he := grounds_expression room
    exact ⟨grounds_statement he hb hblock, grounds_bind grounds_unread fun bound =>
      grounds_sequence (grounds_recovering (grounds_declarationWith he hb hblock) true) true bound⟩

theorem grounds_program (room : Nat) : Grounds (program room) :=
  grounds_bind grounds_unread fun bound => grounds_sequence
    (grounds_recovering (grounds_declarationWith (grounds_expression room)
      (fun t => (grounds_body room t).1) fun t => (grounds_body room t).2) false) false bound

/-- **All that the parser finds wrong with a program is grounded.** -/
theorem parseTokens_grounded (room : Nat) (ts : Tokens) :
    ∀ d ∈ (parseTokens room ts).diagnostics, d.Grounded :=
  (grounds_program room (Cursor.start ts)).1

end Scriptlet
