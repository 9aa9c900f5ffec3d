import Scriptlet.Parse.Statement

/-! How many frames parsing needs.

`Needs p n` says that the parser `p` needs at most `n` frames wherever it starts.
A group costs more than any other step inward, so each level of nesting takes at
most as many frames as a group does, and the limit on the nesting bounds the
frames of a whole source: `program_needs`. -/
namespace Scriptlet

namespace Parser

variable {α β : Type} {n : Nat}

/-- A parser needs no more frames than these, wherever it starts. -/
def Needs (p : Parser α) (n : Nat) : Prop :=
  ∀ c, (p c).frames ≤ n

theorem needs_pure (a : α) : Needs (pure a : Parser α) n :=
  fun _ => Nat.zero_le n

theorem needs_refuse (t : Token) (fault : Fault) : Needs (refuse t fault : Parser α) n :=
  fun _ => Nat.zero_le n

theorem needs_note (t : Token) (fault : Fault) : Needs (note t fault) n :=
  fun _ => Nat.zero_le n

theorem needs_peek : Needs peek n :=
  fun _ => Nat.zero_le n

theorem needs_unread : Needs unread n :=
  fun _ => Nat.zero_le n

theorem needs_atEnd : Needs atEnd n :=
  fun _ => Nat.zero_le n

theorem needs_skip : Needs skip n :=
  fun _ => Nat.zero_le n

theorem needs_bind {p : Parser α} {f : α → Parser β} (hp : Needs p n) (hf : ∀ a, Needs (f a) n) :
    Needs (p >>= f) n := by
  intro c
  cases h : (p c).outcome with
  | error d =>
    rw [bind_error h]
    exact hp c
  | ok a =>
    rw [bind_ok h]
    exact Nat.max_le.mpr ⟨hp c, hf a _⟩

theorem needs_inward {p : Parser α} {m cost : Nat} (hp : Needs p m) (h : m + cost ≤ n) :
    Needs (inward cost p) n := by
  intro c
  have := hp c
  show (p c).frames + cost ≤ n
  omega

theorem needs_expect (kind : Kind) (fault : Fault) : Needs (expect kind fault) n := by
  refine needs_bind needs_peek fun t => ?_
  split
  · exact needs_bind needs_skip fun _ => needs_pure t
  · exact needs_refuse t fault

end Parser

open Scriptlet.Parser

/-! ### Expressions -/

section
variable {inner : Inner} {n : Nat}

theorem needs_chain {layer : Layer} {operand : Parser Expr} (h : Needs operand n)
    (bound : List Token) (left : Expr) : Needs (chain layer operand bound left) n := by
  induction bound generalizing left with
  | nil => exact needs_pure left
  | cons _ bound ih =>
    refine needs_bind needs_peek fun t => ?_
    split
    · exact needs_pure left
    · exact needs_bind needs_skip fun _ => needs_bind h fun right => ih _

theorem needs_operation {operand : Parser Expr} (h : Needs operand n) :
    Needs (operation operand) n := by
  unfold operation
  induction layers with
  | nil => exact h
  | cons layer layers ih =>
    exact needs_bind ih fun first => needs_bind needs_unread fun _ => needs_chain ih _ first

theorem needs_primary {m : Nat} (h : ∀ t, Needs (inner.expression t) m) :
    Needs (primary inner) (m + 16) := by
  refine needs_bind needs_peek fun t => ?_
  split
  case h_1 | h_2 | h_3 | h_5 | h_6 => exact needs_bind needs_skip fun _ => needs_pure _
  case h_4 =>
    refine needs_bind needs_skip fun _ => ?_
    split
    · exact needs_pure _
    · exact needs_refuse t _
  case h_7 =>
    refine needs_bind needs_skip fun _ =>
      needs_bind (needs_inward (h t) (Nat.le_refl _)) fun e => ?_
    exact needs_bind (needs_expect _ _) fun _ => needs_pure e
  case h_8 | h_9 => exact needs_refuse t _

theorem needs_operand {m : Nat} (h : ∀ t, Needs (inner.expression t) m)
    (ho : ∀ t, Needs (inner.operand t) m) : Needs (operandWith inner) (m + 16) := by
  refine needs_bind needs_peek fun t => ?_
  split
  · refine needs_bind needs_skip fun _ => needs_bind (needs_inward (ho t) ?_) fun e => needs_pure _
    omega
  · exact needs_primary h

theorem needs_expressionWith {m : Nat} (h : ∀ t, Needs (inner.expression t) m)
    (ho : ∀ t, Needs (inner.operand t) m) : Needs (expressionWith inner) (m + 16) := by
  refine needs_bind (needs_operation (needs_operand h ho)) fun target =>
    needs_bind needs_peek fun t => ?_
  split
  · refine needs_bind needs_skip fun _ => needs_bind (needs_inward (h t) ?_) fun value => ?_
    · omega
    · split
      · exact needs_pure _
      · exact needs_bind (needs_note t _) fun _ => needs_pure _
  · exact needs_pure target

end

theorem needs_inner (room : Nat) (t : Token) :
    Needs ((inner room).expression t) (16 * room) ∧
      Needs ((inner room).operand t) (16 * room) := by
  induction room generalizing t with
  | zero => exact ⟨needs_refuse t _, needs_refuse t _⟩
  | succ room ih =>
    have h := fun t => (ih t).1
    have ho := fun t => (ih t).2
    exact ⟨needs_expressionWith h ho, needs_operand h ho⟩

theorem needs_expression (room : Nat) : Needs (expression room) (16 * (room + 1)) :=
  needs_expressionWith (fun t => (needs_inner room t).1) fun t => (needs_inner room t).2

/-! ### Statements -/

section
variable {expr : Parser Expr} {body : Body} {n m : Nat}

theorem needs_semicolon (after : Construct) : Needs (semicolon after) n :=
  needs_bind (needs_expect _ _) fun _ => needs_pure ()

theorem needs_ifChain (he : Needs expr n) (hb : ∀ t, Needs (body.branch t) m) (h : m + 3 ≤ n)
    (bound : List Token) : Needs (ifChain expr body bound) n := by
  have hbranch (t : Token) : Needs (inward 2 (body.branch t)) n := needs_inward (hb t) (by omega)
  induction bound with
  | nil => exact needs_bind needs_peek fun t => needs_refuse t _
  | cons _ bound ih =>
    refine needs_bind (needs_expect _ _) fun _ => needs_bind he fun e =>
      needs_bind (needs_expect _ _) fun close => needs_bind (hbranch close) fun yes =>
        needs_bind needs_peek fun t => ?_
    split
    · refine needs_bind needs_skip fun _ => needs_bind needs_peek fun next => ?_
      split
      · exact needs_bind needs_skip fun _ => needs_bind ih fun no => needs_pure _
      · exact needs_bind (hbranch t) fun no => needs_pure _
    · exact needs_pure _

theorem needs_statement (he : Needs expr n) (hb : ∀ t, Needs (body.branch t) m)
    (hblock : ∀ t, Needs (body.block t) m) (h : m + 3 ≤ n) :
    Needs (statementWith expr body) n := by
  refine needs_bind needs_peek fun t => ?_
  split
  case h_1 | h_2 | h_3 => exact needs_refuse t _
  case h_4 =>
    exact needs_bind needs_skip fun _ => needs_bind (needs_inward (hblock t) h) fun statements =>
      needs_bind (needs_expect _ _) fun _ => needs_pure _
  case h_5 =>
    exact needs_bind needs_skip fun _ => needs_bind he fun e =>
      needs_bind (needs_semicolon _) fun _ => needs_pure _
  case h_6 => exact needs_bind needs_skip fun _ => needs_bind needs_unread (needs_ifChain he hb h)
  case h_7 => exact needs_bind he fun e => needs_bind (needs_semicolon _) fun _ => needs_pure _

theorem needs_declaration (he : Needs expr n) (hb : ∀ t, Needs (body.branch t) m)
    (hblock : ∀ t, Needs (body.block t) m) (h : m + 3 ≤ n) :
    Needs (declarationWith expr body) n := by
  refine needs_bind needs_peek fun t => ?_
  split
  · refine needs_bind needs_skip fun _ => needs_bind (needs_expect _ _) fun name =>
      needs_bind needs_peek fun next => ?_
    split
    · exact needs_bind needs_skip fun _ => needs_bind he fun e =>
        needs_bind (needs_semicolon _) fun _ => needs_pure _
    · exact needs_bind (needs_semicolon _) fun _ => needs_pure _
  · exact needs_statement he hb hblock h

theorem needs_recovering {p : Parser Stmt} (inBlock : Bool) (h : Needs p n) :
    Needs (recovering inBlock p) n := by
  intro c
  cases ho : (p c).outcome with
  | ok s =>
    rw [recovering_of_ok ho]
    exact h c
  | error d =>
    rw [recovering_of_error ho]
    exact h c

theorem needs_sequence {one : Parser (Option Stmt)} (inBlock : Bool) (h : Needs one n)
    (bound : List Token) : Needs (sequence inBlock one bound) n := by
  induction bound with
  | nil => exact needs_pure []
  | cons _ bound ih =>
    refine needs_bind needs_atEnd fun _ => needs_bind needs_peek fun t => ?_
    split
    · exact needs_pure []
    · exact needs_bind h fun first => needs_bind ih fun more => needs_pure _

end

theorem needs_body (room : Nat) (t : Token) :
    Needs ((body room).branch t) (16 * room) ∧ Needs ((body room).block t) (16 * room) := by
  induction room generalizing t with
  | zero => exact ⟨needs_refuse t _, fun c => Nat.le_refl 0⟩
  | succ room ih =>
    have he := needs_expression room
    have hb := fun t => (ih t).1
    have hblock := fun t => (ih t).2
    have h : 16 * room + 3 ≤ 16 * (room + 1) := by omega
    refine ⟨needs_statement he hb hblock h, needs_bind needs_unread fun _ => ?_⟩
    exact needs_sequence true (needs_recovering true (needs_declaration he hb hblock h)) _

/-- The nesting bounds the frames of a program. -/
theorem program_needs (room : Nat) : Needs (program room) (16 * (room + 1)) := by
  have h : 16 * room + 3 ≤ 16 * (room + 1) := by omega
  have hdeclaration := needs_declaration (needs_expression room)
    (fun t => (needs_body room t).1) (fun t => (needs_body room t).2) h
  exact needs_bind needs_unread (needs_sequence false (needs_recovering false hdeclaration))

/-- The stack has room for shallow programs, whatever else is wrong with their tokens. -/
theorem parseTokens_fits (room : Nat) (h : room ≤ 55) (ts : Tokens) :
    (parseTokens room ts).fits = true := by
  have hneeds : (parseTokens room ts).frames ≤ 16 * (room + 1) :=
    program_needs room (Cursor.start ts)
  have hlimit : (parseTokens room ts).frames ≤ stackLimit := by
    unfold stackLimit
    omega
  exact decide_eq_true hlimit

/-- **The stack has room for shallow programs**, whatever else is wrong with them. -/
theorem parse_fits (room : Nat) (h : room ≤ 55) (source : List Char) :
    (parse room source).fits = true :=
  parseTokens_fits room h (Tokens.scan source)

end Scriptlet
