import Scriptlet.Proofs.Faults.Course
import Scriptlet.Proofs.Locality.Expressions

/-! The course of an expression.

`RoamsAt opener p c` says what the parser `p` of a part of an expression does from
the cursor `c` on: it makes a passage, and where it is stopped, one token is at
fault that has not been noted before. Where there is no room for a part, that is
the token which opens it; so the parsers of inner parts are told of it. -/
namespace Scriptlet

open Scriptlet.Parser Scriptlet.Cursor

/-! ### Stops -/

/-- How a part of an expression stops: what it has passed and noted, and the diagnostic. -/
inductive Halts (opener : Option Token) (next : Token) :
    List Token → List Diagnostic → Diagnostic → Prop
  | ahead {ts noted fault} : Passage ts noted → fault.stops = true → fault ≠ .tooMuchNesting →
      Halts opener next ts noted ⟨fault, next⟩
  | behind {ts noted fault t} : Passage ts noted → fault.stops = true → t.kind.isPlain = true →
      Halts opener next (ts ++ [t]) noted ⟨fault, t⟩
  | opener {t} : opener = some t → Halts opener next [] [] ⟨.tooMuchNesting, t⟩

section
variable {opener : Option Token} {next : Token} {ts us : List Token}
  {noted more : List Diagnostic} {e : Diagnostic}

theorem Halts.mono (h : Halts none next ts noted e) : Halts opener next ts noted e := by
  cases h with
  | ahead h hf hn => exact .ahead h hf hn
  | behind h hf ht => exact .behind h hf ht
  | opener ho => cases ho

theorem Halts.append (h : Passage ts noted) (h' : Halts none next us more e) :
    Halts opener next (ts ++ us) (noted ++ more) e := by
  cases h' with
  | ahead h' hf hn => exact .ahead (h.append h') hf hn
  | behind h' hf ht =>
    rw [← List.append_assoc]
    exact .behind (h.append h') hf ht
  | opener ho => cases ho

theorem Halts.invalid (h : Halts opener next ts noted e) :
    ∀ d ∈ noted, d.fault = .invalidTarget := by
  cases h with
  | ahead h | behind h => exact h.invalid
  | opener => exact fun d hd => absurd hd List.not_mem_nil

/-- Where the opener is at fault, it has been passed. -/
theorem Halts.cons {t : Token} (ht : t.kind.isPlain = true)
    (h : Halts (some t) next ts noted e) : Halts none next (t :: ts) noted e := by
  have htoken : Passage [t] [] := .token ht
  cases h with
  | ahead h hf hn => exact .ahead (htoken.append h) hf hn
  | behind h hf hu => exact .behind (htoken.append h) hf hu
  | opener ho =>
    cases ho
    exact .behind .nil rfl ht

end

/-! ### Parts of expressions -/

/-- A parser makes a passage from a cursor on, and where it is stopped one token is at fault. -/
def RoamsAt {α : Type} (opener : Option Token) (p : Parser α) (c : Cursor) : Prop :=
  ∃ ts, c.Past ts (p c).cursor ∧
    (∀ a, (p c).outcome = .ok a → Passage ts (p c).noted) ∧
    ∀ e, (p c).outcome = .error e → Halts opener (p c).cursor.peek ts (p c).noted e

section
variable {α β : Type} {opener : Option Token} {p : Parser α} {c : Cursor}

theorem RoamsAt.mono (h : RoamsAt none p c) : RoamsAt opener p c := by
  obtain ⟨ts, hts, hok, herror⟩ := h
  exact ⟨ts, hts, hok, fun e he => (herror e he).mono⟩

theorem roamsAt_pure (a : α) : RoamsAt opener (pure a) c :=
  ⟨[], past_nil.mpr rfl, fun _ _ => .nil, fun _ he => by cases he⟩

theorem roamsAt_refuse {fault : Fault} (hf : fault.stops = true) (hn : fault ≠ .tooMuchNesting) :
    RoamsAt opener (refuse c.peek fault : Parser α) c := by
  refine ⟨[], past_nil.mpr rfl, ?_, ?_⟩
  · intro a ho
    cases ho
  · intro e he
    cases he
    exact .ahead .nil hf hn

theorem roamsAt_refuse_opener (t : Token) :
    RoamsAt (some t) (refuse t .tooMuchNesting : Parser α) c := by
  refine ⟨[], past_nil.mpr rfl, ?_, ?_⟩
  · intro a ho
    cases ho
  · intro e he
    cases he
    exact .opener rfl

theorem roamsAt_inward (cost : Nat) (h : RoamsAt opener p c) : RoamsAt opener (inward cost p) c :=
  h

theorem roamsAt_bind {f : α → Parser β} (hc : c.Delimited) (hp : RoamsAt opener p c)
    (hf : ∀ a d, d.Delimited → RoamsAt none (f a) d) : RoamsAt opener (p >>= f) c := by
  obtain ⟨ts, hts, hok, herror⟩ := hp
  cases ho : (p c).outcome with
  | error e =>
    rw [RoamsAt, bind_error ho]
    refine ⟨ts, hts, ?_, ?_⟩
    · intro b hb
      cases hb
    · intro e' he'
      cases he'
      exact herror e ho
  | ok a =>
    obtain ⟨us, hus, hok', herror'⟩ := hf a (p c).cursor (hc.past hts)
    rw [RoamsAt, bind_ok ho]
    exact ⟨ts ++ us, past_append.mpr ⟨_, hts, hus⟩, fun b hb => (hok a ho).append (hok' b hb),
      fun e he => .append (hok a ho) (herror' e he)⟩

theorem roamsAt_peek_bind {f : Token → Parser α} (h : RoamsAt opener (f c.peek) c) :
    RoamsAt opener (peek >>= f) c := by
  rwa [RoamsAt, peek_bind]

theorem roamsAt_unread_bind {f : List Token → Parser α} (h : RoamsAt opener (f c.rest) c) :
    RoamsAt opener (unread >>= f) c := by
  rwa [RoamsAt, unread_bind]

theorem isPlain_ne_eof {k : Kind} (h : k.isPlain = true) : k ≠ .eof := by
  intro hk
  rw [hk] at h
  cases h

theorem roamsAt_skip_bind (hc : c.Delimited) (hk : c.peek.kind.isPlain = true)
    (h : RoamsAt (some c.peek) p c.advance) : RoamsAt none (skip >>= fun _ => p) c := by
  obtain ⟨ts, hts, hok, herror⟩ := h
  have htoken : Passage [c.peek] [] := .token hk
  rw [RoamsAt, skip_bind]
  exact ⟨c.peek :: ts, past_append.mpr ⟨_, hc.past_peek (isPlain_ne_eof hk), hts⟩,
    fun a ha => htoken.append (hok a ha), fun e he => .cons hk (herror e he)⟩

theorem roamsAt_expect (hc : c.Delimited) {kind : Kind} {fault : Fault}
    (hk : kind.isPlain = true) (hf : fault.stops = true) (hn : fault ≠ .tooMuchNesting) :
    RoamsAt opener (expect kind fault) c := by
  refine roamsAt_peek_bind ?_
  split
  next h => exact (roamsAt_skip_bind hc (by rwa [h]) (roamsAt_pure _)).mono
  next => exact roamsAt_refuse hf hn

end

/-! ### Operations -/

theorem layer_plain : ∀ layer ∈ layers, ∀ kind, layer kind ≠ none → kind.isPlain = true := by
  simp only [layers, List.forall_mem_cons, List.not_mem_nil, false_implies, implies_true, and_true]
  refine ⟨?_, ?_, ?_, ?_, ?_, ?_⟩ <;>
  · intro kind h
    cases kind <;> first | rfl | exact absurd rfl h

theorem roamsAt_chain {layer : Layer} {operand : Parser Expr}
    (hl : ∀ kind, layer kind ≠ none → kind.isPlain = true)
    (h : ∀ c : Cursor, c.Delimited → RoamsAt none operand c) (bound : List Token) (left : Expr)
    {c : Cursor} (hc : c.Delimited) : RoamsAt none (chain layer operand bound left) c := by
  induction bound generalizing left c with
  | nil => exact roamsAt_pure left
  | cons t bound ih =>
    cases hnode : layer c.peek.kind with
    | none =>
      rw [RoamsAt, chain_stop hnode]
      exact roamsAt_pure left
    | some node =>
      have hplain := hl _ (by rw [hnode]; exact Option.some_ne_none node)
      have hrest : RoamsAt (some c.peek) (do
          let right ← operand
          chain layer operand bound (node left right)) c.advance :=
        roamsAt_bind hc.advance (h _ hc.advance).mono fun right d hd => ih (node left right) hd
      rw [RoamsAt, chain_go hnode]
      exact roamsAt_skip_bind hc hplain hrest

theorem roamsAt_operation {opener : Option Token} {operand : Parser Expr}
    (h : ∀ c : Cursor, c.Delimited → RoamsAt none operand c) {c : Cursor} (hc : c.Delimited)
    (hfirst : RoamsAt opener operand c) : RoamsAt opener (operation operand) c := by
  have hplain := layer_plain
  have hboth : (∀ d : Cursor, d.Delimited → RoamsAt none (operation operand) d) ∧
      RoamsAt opener (operation operand) c := by
    unfold operation
    generalize layers = ls at hplain
    induction ls with
    | nil => exact ⟨h, hfirst⟩
    | cons layer ls ih =>
      obtain ⟨hl, hls⟩ := List.forall_mem_cons.mp hplain
      obtain ⟨hnone, hfirst⟩ := ih hls
      have hchain (first : Expr) (d : Cursor) (hd : d.Delimited) :
          RoamsAt none (unread >>= fun bound => chain layer (ls.foldr leftFold operand) bound first)
            d :=
        roamsAt_unread_bind (roamsAt_chain hl hnone _ first hd)
      exact ⟨fun d hd => roamsAt_bind hd (hnone d hd) hchain, roamsAt_bind hc hfirst hchain⟩
  exact hboth.2

/-! ### Expressions -/

/-- The parsers of inner parts make passages, and are told which token opens the part. -/
structure Inner.Roams (inner : Inner) : Prop where
  expression : ∀ t c, c.Delimited → RoamsAt (some t) (inner.expression t) c
  operand : ∀ t c, c.Delimited → RoamsAt (some t) (inner.operand t) c

section
variable {inner : Inner} {opener : Option Token} {c : Cursor}

theorem roamsAt_primary (h : inner.Roams) (hc : c.Delimited) :
    RoamsAt opener (primary inner) c := by
  refine roamsAt_peek_bind ?_
  split
  case h_1 hk | h_2 hk | h_3 hk | h_5 hk | h_6 hk =>
    exact (roamsAt_skip_bind hc (by rw [hk]; rfl) (roamsAt_pure _)).mono
  case h_4 hk =>
    have hplain : c.peek.kind.isPlain = true := by rw [hk]; rfl
    refine RoamsAt.mono ?_
    split
    · exact roamsAt_skip_bind hc hplain (roamsAt_pure _)
    · rw [RoamsAt, skip_bind]
      refine ⟨[c.peek], hc.past_peek (isPlain_ne_eof hplain), ?_, ?_⟩
      · intro a ho
        cases ho
      · intro e he
        cases he
        show Halts none _ ([] ++ [c.peek]) [] _
        exact .behind .nil rfl hplain
  case h_7 hk =>
    have hgroup : RoamsAt (some c.peek) (do
        let e ← inward 16 (inner.expression c.peek)
        let _ ← expect .rightParen (.expectedMark .rightParen .expression)
        return e) c.advance :=
      roamsAt_bind hc.advance (roamsAt_inward 16 (h.expression _ _ hc.advance)) fun e d hd =>
        roamsAt_bind hd (roamsAt_expect hd rfl rfl nofun) fun _ d hd => roamsAt_pure e
    exact (roamsAt_skip_bind hc (by rw [hk]; rfl) hgroup).mono
  case h_8 | h_9 => exact roamsAt_refuse rfl nofun

theorem unaryOp_plain {kind : Kind} {op : UnaryOp} (h : unaryOp? kind = some op) :
    kind.isPlain = true := by
  cases kind <;> first | rfl | cases h

theorem roamsAt_operand (h : inner.Roams) (hc : c.Delimited) :
    RoamsAt opener (operandWith inner) c := by
  refine roamsAt_peek_bind ?_
  split
  next op hop =>
    have hoperand : RoamsAt (some c.peek) (do
        let e ← inward 1 (inner.operand c.peek)
        return Expr.unary op e) c.advance :=
      roamsAt_bind hc.advance (roamsAt_inward 1 (h.operand _ _ hc.advance)) fun e d hd =>
        roamsAt_pure _
    exact (roamsAt_skip_bind hc (unaryOp_plain hop) hoperand).mono
  next => exact roamsAt_primary h hc

/-- The equals sign of an assignment is at fault once at most: where there is no room for the
value, or behind the value. -/
theorem roamsAt_assigned (h : inner.Roams) (hc : c.Delimited) (hk : c.peek.kind = .equal)
    (target : Expr) :
    RoamsAt opener (do
      skip
      let value ← inward 1 (inner.expression c.peek)
      match target with
      | .variable name => return .assign name value
      | _ =>
        note c.peek .invalidTarget
        return target) c := by
  have hplain : c.peek.kind.isPlain = true := by rw [hk]; rfl
  obtain ⟨ts, hts, hok, herror⟩ := roamsAt_inward 1 (h.expression c.peek _ hc.advance)
  have hpast := past_append.mpr ⟨_, hc.past_peek (isPlain_ne_eof hplain), hts⟩
  refine RoamsAt.mono ?_
  rw [RoamsAt, skip_bind]
  cases ho : (inward 1 (inner.expression c.peek) c.advance).outcome with
  | error e =>
    rw [bind_error ho]
    refine ⟨_, hpast, ?_, ?_⟩
    · intro a ha
      cases ha
    · intro e' he'
      cases he'
      exact .cons hplain (herror e ho)
  | ok value =>
    have hvalue := hok value ho
    rw [bind_ok ho]
    split
    · refine ⟨_, hpast, fun _ _ => (Passage.token hplain).append ?_, ?_⟩
      · show Passage ts (_ ++ [])
        rwa [List.append_nil]
      · intro e he
        cases he
    · refine ⟨_, hpast, fun _ _ => ?_, ?_⟩
      · exact .target hplain hvalue
      · intro e he
        cases he

theorem roamsAt_expressionWith (h : inner.Roams) (hc : c.Delimited) :
    RoamsAt opener (expressionWith inner) c := by
  refine roamsAt_bind hc (roamsAt_operation (fun d hd => roamsAt_operand h hd) hc
    (roamsAt_operand h hc)) fun target d hd => roamsAt_peek_bind ?_
  split
  next hk => exact roamsAt_assigned h hd hk target
  next => exact roamsAt_pure target

end

theorem inner_roams (room : Nat) : (inner room).Roams := by
  induction room with
  | zero => exact ⟨fun t c _ => roamsAt_refuse_opener t, fun t c _ => roamsAt_refuse_opener t⟩
  | succ room ih =>
    exact ⟨fun t c hc => roamsAt_expressionWith ih hc, fun t c hc => roamsAt_operand ih hc⟩

/-- **An expression makes a passage**, and where it is stopped one token is at fault. -/
theorem roamsAt_expression (room : Nat) {c : Cursor} (hc : c.Delimited) :
    RoamsAt none (expression room) c :=
  roamsAt_expressionWith (inner_roams room) hc

end Scriptlet
