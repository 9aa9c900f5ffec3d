import Scriptlet.Proofs.Locality.Recovery
import Scriptlet.Proofs.Parsing.Expressions

/-! What holds of everything that is parsed.

A property of trees that holds of literals and is kept by each way of putting trees
together (`ExprClosed`, `StmtClosed`) holds of every tree that a parser returns, also where
it was put together from what was left of a malformed source. It may depend on the levels
that there was room for, and on the tokens, of which only those ahead of the parser get
into its result (`Yields`). `statements_closed` draws this together. -/
namespace Scriptlet

open Scriptlet.Parser Scriptlet.Cursor

/-! ### Properties of trees -/

/-- A property of expressions that are parsed with room for some levels, from such tokens, is kept
by each way of putting expressions together. -/
structure ExprClosed (ok : Token → Prop) (P : Nat → Expr → Prop) : Prop where
  literal {t e n} : ok t → Literal t e → P n e
  group {e m n} : m < n → P m e → P n e
  unary {op e m n} : m < n → P m e → P n (.unary op e)
  join {rank kind node l r n} : Joins rank kind node → P n l → P n r → P n (node l r)
  assign {name e m n} : P n (.variable name) → m < n → P m e → P n (.assign name e)

/-- The same for statements. An if behind an else stands on the level of the one before it. -/
structure StmtClosed (ok : Token → Prop) (P : Nat → Expr → Prop) (Q : Nat → Stmt → Prop) :
    Prop extends ExprClosed ok P where
  expression {e n} : P n e → Q n (.expression e)
  print {e n} : P n e → Q n (.print e)
  declare {t n} : ok t → t.kind = .identifier → Q n (.declare t.text none)
  define {t e n} : ok t → t.kind = .identifier → P n e → Q n (.declare t.text (some e))
  block {ss m n} : m < n → (∀ s ∈ ss, Q m s) → Q n (.block ss)
  ifThen {e yes m n} : P n e → m < n → Q m yes → Q n (.branch e yes none)
  ifElse {e yes no k m n} : P n e → m < n → Q m yes → k < n → Q k no →
    Q n (.branch e yes (some no))
  elseIf {e yes e' yes' no' m n} : P n e → m < n → Q m yes → Q n (.branch e' yes' no') →
    Q n (.branch e yes (some (.branch e' yes' no')))

/-! ### What parsers return -/

/-- The tokens ahead are such. -/
structure Cursor.Holds (ok : Token → Prop) (c : Cursor) : Prop where
  rest : ∀ t ∈ c.rest, ok t
  final : ok c.final

/-- With such tokens ahead, whatever the parser returns is so. -/
def Yields {α : Type} (ok : Token → Prop) (p : Parser α) (good : α → Prop) : Prop :=
  ∀ c : Cursor, c.Holds ok → (p c).cursor.Holds ok ∧ ∀ a, (p c).outcome = .ok a → good a

section
variable {α β : Type} {ok : Token → Prop} {good : α → Prop} {fine : β → Prop} {c d : Cursor}

theorem Cursor.Holds.peek (h : c.Holds ok) : ok c.peek := by
  rw [Cursor.peek]
  cases hrest : c.rest with
  | nil => exact h.final
  | cons t rest => exact h.rest t (hrest ▸ List.mem_cons_self)

theorem Cursor.Holds.past (h : c.Holds ok) {ts : List Token} (hp : Past ts c d) : d.Holds ok := by
  refine ⟨fun t ht => h.rest t ?_, hp.final ▸ h.final⟩
  rw [hp.rest]
  exact List.mem_append_right _ ht

theorem Cursor.Holds.advance (h : c.Holds ok) : c.advance.Holds ok := by
  obtain ⟨ts, hts⟩ := past_advance c
  exact h.past hts

theorem yields_pure {a : α} (h : good a) : Yields ok (pure a) good :=
  fun _ hc => ⟨hc, fun _ hb => Except.ok.inj hb ▸ h⟩

theorem yields_refuse (t : Token) (fault : Fault) : Yields ok (refuse t fault) good :=
  fun _ hc => ⟨hc, nofun⟩

theorem yields_bind {p : Parser α} {f : α → Parser β} (hp : Yields ok p good)
    (hf : ∀ a, good a → Yields ok (f a) fine) : Yields ok (p >>= f) fine := by
  intro c hc
  obtain ⟨hcursor, hresult⟩ := hp c hc
  cases ho : (p c).outcome with
  | error d =>
    rw [bind_error ho]
    exact ⟨hcursor, nofun⟩
  | ok a =>
    rw [bind_ok ho]
    exact hf a (hresult a ho) _ hcursor

theorem yields_peek_bind {f : Token → Parser α} (h : ∀ t, ok t → Yields ok (f t) good) :
    Yields ok (peek >>= f) good := by
  intro c hc
  rw [peek_bind]
  exact h c.peek hc.peek c hc

theorem yields_skip_bind {p : Parser α} (h : Yields ok p good) :
    Yields ok (skip >>= fun _ => p) good := by
  intro c hc
  rw [skip_bind]
  exact h c.advance hc.advance

theorem yields_unread_bind {f : List Token → Parser α} (h : ∀ bound, Yields ok (f bound) good) :
    Yields ok (unread >>= f) good := by
  intro c hc
  rw [unread_bind]
  exact h c.rest c hc

theorem yields_atEnd_bind {f : Bool → Parser α} (h : ∀ b, Yields ok (f b) good) :
    Yields ok (atEnd >>= f) good := by
  intro c hc
  rw [atEnd_bind]
  exact h c.atEnd c hc

theorem yields_expect (kind : Kind) (fault : Fault) :
    Yields ok (expect kind fault) fun t => ok t ∧ t.kind = kind := by
  refine yields_peek_bind fun t ht => ?_
  split
  next hk => exact yields_skip_bind (yields_pure ⟨ht, hk⟩)
  next => exact yields_refuse _ _

theorem yields_note (t : Token) (fault : Fault) : Yields ok (note t fault) fun _ => True :=
  fun _ hc => ⟨hc, fun _ _ => trivial⟩

theorem yields_inward {p : Parser α} (cost : Nat) (h : Yields ok p good) :
    Yields ok (inward cost p) good :=
  h

/-- Without a condition on the tokens it is so wherever the parser starts. -/
theorem Yields.result {p : Parser α} (h : Yields (fun _ => True) p good) {a : α}
    (ho : (p c).outcome = .ok a) : good a :=
  (h c ⟨fun _ _ => trivial, trivial⟩).2 a ho

theorem Yields.mono {p : Parser α} {better : α → Prop} (h : Yields ok p better)
    (himp : ∀ a, better a → good a) : Yields ok p good :=
  fun c hc => ⟨(h c hc).1, fun a ho => himp a ((h c hc).2 a ho)⟩

end

/-! ### Expressions -/

section
variable {ok : Token → Prop} {P : Nat → Expr → Prop} {operand : Parser Expr} {inner : Inner} {n : Nat}

theorem yields_chain (hP : ExprClosed ok P) {layer : Layer} (hlayer : layer ∈ layers)
    (h : Yields ok operand (P n)) (bound : List Token) {left : Expr} (hleft : P n left) :
    Yields ok (chain layer operand bound left) (P n) := by
  induction bound generalizing left with
  | nil => exact yields_pure hleft
  | cons _ bound ih =>
    refine yields_peek_bind fun t _ => ?_
    cases hnode : layer t.kind with
    | none => exact yields_pure hleft
    | some node =>
      obtain ⟨i, hi⟩ := List.mem_iff_getElem?.mp hlayer
      have hjoins := (layers_joins i layer hi t.kind node).mp hnode
      exact yields_skip_bind (yields_bind h fun right hright => ih (hP.join hjoins hleft hright))

theorem yields_operation (hP : ExprClosed ok P) (h : Yields ok operand (P n)) :
    Yields ok (operation operand) (P n) := by
  have hfold : ∀ ls : List Layer, (∀ layer ∈ ls, layer ∈ layers) →
      Yields ok (ls.foldr leftFold operand) (P n) := by
    intro ls hls
    induction ls with
    | nil => exact h
    | cons layer ls ih =>
      obtain ⟨hlayer, hrest⟩ := List.forall_mem_cons.mp hls
      exact yields_bind (ih hrest) fun first hfirst => yields_unread_bind fun bound =>
        yields_chain hP hlayer (ih hrest) bound hfirst
  exact hfold layers fun _ => id

theorem yields_primary (hP : ExprClosed ok P)
    (h : ∀ t, Yields ok (inner.expression t) fun e => ∃ m < n, P m e) :
    Yields ok (primary inner) (P n) := by
  refine yields_peek_bind fun t ht => ?_
  have hliteral {e : Expr} (he : Literal t e) : Yields ok (pure e) (P n) :=
    yields_pure (hP.literal ht he)
  cases hk : t.kind
  case trueWord => exact yields_skip_bind (hliteral (.yes hk))
  case falseWord => exact yields_skip_bind (hliteral (.no hk))
  case nilWord => exact yields_skip_bind (hliteral (.nil hk))
  case string => exact yields_skip_bind (hliteral (.string hk))
  case identifier => exact yields_skip_bind (hliteral (.name hk))
  case number =>
    refine yields_skip_bind ?_
    cases hread : Decimal.read? t.text with
    | some x =>
      have hvalue : t.numberValue = x := by rw [Token.numberValue, hread]; rfl
      exact hliteral (hvalue ▸ .number hk)
    | none => exact yields_refuse t _
  case leftParen =>
    refine yields_skip_bind (yields_bind (yields_inward 16 (h t)) fun e he => ?_)
    obtain ⟨m, hm, he⟩ := he
    exact yields_bind (yields_expect _ _) fun _ _ => yields_pure (hP.group hm he)
  all_goals exact yields_refuse t _

theorem yields_operand (hP : ExprClosed ok P)
    (h : ∀ t, Yields ok (inner.expression t) fun e => ∃ m < n, P m e)
    (ho : ∀ t, Yields ok (inner.operand t) fun e => ∃ m < n, P m e) :
    Yields ok (operandWith inner) (P n) := by
  refine yields_peek_bind fun t _ => ?_
  cases unaryOp? t.kind with
  | some op =>
    refine yields_skip_bind (yields_bind (yields_inward 1 (ho t)) fun e he => yields_pure ?_)
    obtain ⟨m, hm, he⟩ := he
    exact hP.unary hm he
  | none => exact yields_primary hP h

theorem yields_expressionWith (hP : ExprClosed ok P)
    (h : ∀ t, Yields ok (inner.expression t) fun e => ∃ m < n, P m e)
    (ho : ∀ t, Yields ok (inner.operand t) fun e => ∃ m < n, P m e) :
    Yields ok (expressionWith inner) (P n) := by
  refine yields_bind (yields_operation hP (yields_operand hP h ho)) fun target htarget =>
    yields_peek_bind fun t _ => ?_
  split
  · refine yields_skip_bind (yields_bind (yields_inward 1 (h t)) fun value hvalue => ?_)
    obtain ⟨m, hm, hvalue⟩ := hvalue
    split
    · exact yields_pure (hP.assign htarget hm hvalue)
    · exact yields_bind (yields_note t _) fun _ _ => yields_pure htarget
  · exact yields_pure htarget

end

section
variable {ok : Token → Prop} {P : Nat → Expr → Prop}

theorem yields_inner (hP : ExprClosed ok P) (room : Nat) (t : Token) :
    Yields ok ((inner room).expression t) (fun e => ∃ m < room, P m e) ∧
      Yields ok ((inner room).operand t) fun e => ∃ m < room, P m e := by
  induction room generalizing t with
  | zero => exact ⟨yields_refuse t _, yields_refuse t _⟩
  | succ room ih =>
    have h := fun t => (ih t).1
    have ho := fun t => (ih t).2
    exact ⟨(yields_expressionWith hP h ho).mono fun _ he => ⟨room, Nat.lt_succ_self room, he⟩,
      (yields_operand hP h ho).mono fun _ he => ⟨room, Nat.lt_succ_self room, he⟩⟩

theorem yields_expression (hP : ExprClosed ok P) (room : Nat) :
    Yields ok (expression room) (P room) :=
  yields_expressionWith hP (fun t => (yields_inner hP room t).1) fun t => (yields_inner hP room t).2

end

/-! ### Statements -/

section
variable {ok : Token → Prop} {P : Nat → Expr → Prop} {Q : Nat → Stmt → Prop} {expr : Parser Expr}
  {body : Body} {n : Nat}

/-- What ends with a semicolon. -/
theorem yields_ended (he : Yields ok expr (P n)) (after : Construct) {f : Expr → Stmt}
    (hf : ∀ e, P n e → Q n (f e)) :
    Yields ok (do
      let e ← expr
      semicolon after
      return f e) (Q n) :=
  yields_bind he fun e hn => yields_bind
    (yields_bind (yields_expect _ _) fun _ _ => yields_pure trivial) fun _ (_ : True) =>
      yields_pure (hf e hn)

/-- A chain of ifs behind its first keyword is an if. -/
theorem yields_ifChain (hQ : StmtClosed ok P Q) (he : Yields ok expr (P n))
    (hb : ∀ t, Yields ok (body.branch t) fun s => ∃ m < n, Q m s) (bound : List Token) :
    Yields ok (ifChain expr body bound)
      fun s => ∃ condition yes no, s = .branch condition yes no ∧ Q n s := by
  induction bound with
  | nil => exact yields_peek_bind fun t _ => yields_refuse t _
  | cons _ bound ih =>
    refine yields_bind (yields_expect _ _) fun _ _ => yields_bind he fun e hcondition =>
      yields_bind (yields_expect _ _) fun close _ =>
      yields_bind (yields_inward 2 (hb close)) fun yes hyes => yields_peek_bind fun t _ => ?_
    obtain ⟨m, hm, hyes⟩ := hyes
    split
    · refine yields_skip_bind (yields_peek_bind fun _ _ => ?_)
      split
      · refine yields_skip_bind (yields_bind ih fun no hno => yields_pure ?_)
        obtain ⟨_, _, _, rfl, hno⟩ := hno
        exact ⟨e, yes, _, rfl, hQ.elseIf hcondition hm hyes hno⟩
      · refine yields_bind (yields_inward 2 (hb t)) fun no hno => yields_pure ?_
        obtain ⟨k, hk, hno⟩ := hno
        exact ⟨e, yes, _, rfl, hQ.ifElse hcondition hm hyes hk hno⟩
    · exact yields_pure ⟨e, yes, none, rfl, hQ.ifThen hcondition hm hyes⟩

theorem yields_statement (hQ : StmtClosed ok P Q) (he : Yields ok expr (P n))
    (hb : ∀ t, Yields ok (body.branch t) fun s => ∃ m < n, Q m s)
    (hblock : ∀ t, Yields ok (body.block t) fun ss => ∃ m < n, ∀ s ∈ ss, Q m s) :
    Yields ok (statementWith expr body) (Q n) := by
  refine yields_peek_bind fun t _ => ?_
  split
  case h_1 | h_2 | h_3 => exact yields_refuse t _
  case h_4 =>
    refine yields_skip_bind (yields_bind (yields_inward 3 (hblock t)) fun ss hss => ?_)
    obtain ⟨m, hm, hss⟩ := hss
    exact yields_bind (yields_expect _ _) fun _ _ => yields_pure (hQ.block hm hss)
  case h_5 => exact yields_skip_bind (yields_ended he .value fun _ => hQ.print)
  case h_6 =>
    refine yields_skip_bind (yields_unread_bind fun bound =>
      (yields_ifChain hQ he hb bound).mono fun s hs => ?_)
    obtain ⟨_, _, _, -, hs⟩ := hs
    exact hs
  case h_7 => exact yields_ended he .expression fun _ => hQ.expression

theorem yields_declarationWith (hQ : StmtClosed ok P Q) (he : Yields ok expr (P n))
    (hb : ∀ t, Yields ok (body.branch t) fun s => ∃ m < n, Q m s)
    (hblock : ∀ t, Yields ok (body.block t) fun ss => ∃ m < n, ∀ s ∈ ss, Q m s) :
    Yields ok (declarationWith expr body) (Q n) := by
  refine yields_peek_bind fun t _ => ?_
  split
  · refine yields_skip_bind (yields_bind (yields_expect _ _) fun name hname =>
      yields_peek_bind fun next _ => ?_)
    obtain ⟨hname, hk⟩ := hname
    split
    · exact yields_skip_bind (yields_ended he .declaration fun _ => hQ.define hname hk)
    · exact yields_bind (yields_bind (yields_expect _ _) fun _ _ => yields_pure trivial)
        fun _ (_ : True) => yields_pure (hQ.declare hname hk)
  · exact yields_statement hQ he hb hblock

end

/-! ### Sequences -/

section
variable {ok : Token → Prop} {good : Stmt → Prop}

/-- What is passed over leaves no other tokens ahead. -/
theorem yields_recovering {p : Parser Stmt} (h : Yields ok p good) (inBlock : Bool) :
    Yields ok (recovering inBlock p) fun first => ∀ s ∈ first, good s := by
  intro c hc
  obtain ⟨hcursor, hresult⟩ := h c hc
  cases ho : (p c).outcome with
  | ok s =>
    rw [recovering_of_ok ho]
    refine ⟨hcursor, fun first hfirst t ht => ?_⟩
    cases hfirst
    cases ht
    exact hresult s ho
  | error d =>
    rw [recovering_of_stop ho]
    obtain ⟨_, hmoved⟩ := past_movedOn (p := p) c
    obtain ⟨_, hresumed⟩ := past_resume inBlock (movedOn p c)
    refine ⟨(hcursor.past hmoved).past hresumed, fun first hfirst t ht => ?_⟩
    cases hfirst
    cases ht

theorem yields_sequence {one : Parser (Option Stmt)}
    (h : Yields ok one fun first => ∀ s ∈ first, good s) (inBlock : Bool) (bound : List Token) :
    Yields ok (sequence inBlock one bound) fun ss => ∀ s ∈ ss, good s := by
  induction bound with
  | nil => exact yields_pure nofun
  | cons _ bound ih =>
    refine yields_atEnd_bind fun _ => yields_peek_bind fun t _ => ?_
    split
    · exact yields_pure nofun
    · refine yields_bind h fun first hfirst => yields_bind ih fun more hmore => yields_pure ?_
      intro s hs
      rcases List.mem_append.mp hs with hs | hs
      · exact hfirst s (Option.mem_toList.mp hs)
      · exact hmore s hs

end

/-! ### Levels -/

section
variable {ok : Token → Prop} {P : Nat → Expr → Prop} {Q : Nat → Stmt → Prop}

theorem yields_refuseBlock (t : Token) {good : List Stmt → Prop} :
    Yields ok (refuseBlock t) good := by
  intro c hc
  obtain ⟨_, hskipped⟩ := past_skipBlock 1 c
  exact ⟨hc.past hskipped, nofun⟩

theorem yields_body (hQ : StmtClosed ok P Q) (room : Nat) (t : Token) :
    Yields ok ((body room).branch t) (fun s => ∃ m < room, Q m s) ∧
      Yields ok ((body room).block t) fun ss => ∃ m < room, ∀ s ∈ ss, Q m s := by
  induction room generalizing t with
  | zero => exact ⟨yields_refuse t _, yields_refuseBlock t⟩
  | succ room ih =>
    have hb := fun t => (ih t).1
    have hblock := fun t => (ih t).2
    have he := yields_expression hQ.toExprClosed room
    have hone := yields_recovering (yields_declarationWith hQ he hb hblock) true
    exact ⟨(yields_statement hQ he hb hblock).mono fun _ hs => ⟨room, Nat.lt_succ_self room, hs⟩,
      yields_unread_bind fun bound => (yields_sequence hone true bound).mono
        fun _ hss => ⟨room, Nat.lt_succ_self room, hss⟩⟩

theorem yields_declaration (hQ : StmtClosed ok P Q) (room : Nat) :
    Yields ok (declarationWith (expression room) (body room)) (Q room) :=
  yields_declarationWith hQ (yields_expression hQ.toExprClosed room)
    (fun t => (yields_body hQ room t).1) fun t => (yields_body hQ room t).2

theorem yields_program (hQ : StmtClosed ok P Q) (room : Nat) :
    Yields ok (program room) fun ss => ∀ s ∈ ss, Q room s :=
  yields_unread_bind fun bound =>
    yields_sequence (yields_recovering (yields_declaration hQ room) false) false bound

/-- **What holds of literals and is kept holds of every statement that is parsed.** -/
theorem statements_closed (hQ : StmtClosed ok P Q) (room : Nat) {ts : Tokens}
    (h : ∀ t ∈ ts.toList, ok t) : ∀ s ∈ (parseTokens room ts).statements, Q room s := by
  have hstart : (start ts).Holds ok :=
    ⟨fun t ht => h t (List.mem_append_left _ ht), h ts.final List.mem_concat_self⟩
  intro s hs
  simp only [parseTokens] at hs
  cases ho : (program room (start ts)).outcome with
  | error d => simp [ho, Except.toOption] at hs
  | ok ss =>
    simp only [ho, Except.toOption, Option.getD_some] at hs
    exact (yields_program hQ room _ hstart).2 ss ho s hs

end

end Scriptlet
