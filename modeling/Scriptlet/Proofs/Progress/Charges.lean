import Scriptlet.Proofs.Faults.Declarations

/-! Every diagnostic is charged to a token of its own.

A parser notes no more diagnostics than it passes tokens, and all but one of them
come later than its first token (`Charges`): a target at fault is charged to its
equals sign, in front of which it has tokens itself. So the first token of a
declaration is free for the fault that stops it, and where that one has passed no
token, recovering passes one. The tokens of a block are free of those of the brace in
front of them, for its declarations may use up all of theirs. -/
namespace Scriptlet

open Scriptlet.Parser Scriptlet.Cursor

/-! ### Laws -/

/-- From `c` on, as many diagnostics as tokens are left of those passed when `spare` of them are
kept. -/
def ChargesAt {α : Type} (spare : Nat) (p : Parser α) (c : Cursor) : Prop :=
  ∃ us, c.Past us (p c).cursor ∧ (p c).noted.length ≤ us.length - spare

def Charges {α : Type} (spare : Nat) (p : Parser α) : Prop :=
  ∀ c : Cursor, c.Delimited → ChargesAt spare p c

section
variable {α β : Type} {spare : Nat} {p : Parser α} {f : α → Parser β} {c : Cursor}

theorem charges_silent (hp : Forward p) (h : ∀ c, (p c).noted = []) : Charges spare p := by
  intro c _
  obtain ⟨us, hus⟩ := hp c
  exact ⟨us, hus, by rw [h c]; exact Nat.zero_le _⟩

theorem charges_pure (a : α) : Charges spare (pure a : Parser α) :=
  charges_silent (forward_pure a) fun _ => rfl

theorem charges_refuse (t : Token) (fault : Fault) : Charges spare (refuse t fault : Parser α) :=
  charges_silent (fun _ => ⟨[], past_nil.mpr rfl⟩) fun _ => rfl

theorem charges_peek : Charges spare peek :=
  charges_silent (fun _ => ⟨[], past_nil.mpr rfl⟩) fun _ => rfl

theorem charges_unread : Charges spare unread :=
  charges_silent (fun _ => ⟨[], past_nil.mpr rfl⟩) fun _ => rfl

theorem charges_skip : Charges spare skip :=
  charges_silent forward_skip fun _ => rfl

theorem charges_expect (kind : Kind) (fault : Fault) : Charges spare (expect kind fault) := by
  refine charges_silent (forward_expect kind fault) fun c => ?_
  by_cases hk : c.peek.kind = kind
  · rw [expect_found hk]
  · rw [expect_missing hk]

theorem chargesAt_bind (hp : ChargesAt spare p c)
    (hf : ∀ a, (p c).outcome = .ok a → ChargesAt spare (f a) (p c).cursor) :
    ChargesAt spare (p >>= f) c := by
  obtain ⟨us, hus, hfirst⟩ := hp
  cases ho : (p c).outcome with
  | error e => exact ⟨us, by rw [bind_error ho]; exact hus, by rw [bind_error ho]; exact hfirst⟩
  | ok a =>
    obtain ⟨vs, hvs, hsecond⟩ := hf a ho
    refine ⟨us ++ vs, by rw [bind_ok ho]; exact past_append.mpr ⟨_, hus, hvs⟩, ?_⟩
    rw [bind_ok ho, List.length_append, List.length_append]
    show _ + _ ≤ _
    omega

theorem charges_bind (hp : Charges spare p) (hf : ∀ a, Charges spare (f a)) :
    Charges spare (p >>= f) := by
  intro c hc
  obtain ⟨us, hus, -⟩ := hp c hc
  exact chargesAt_bind (hp c hc) fun a _ => hf a _ (hc.past hus)

theorem charges_inward (cost : Nat) (h : Charges spare p) : Charges spare (inward cost p) :=
  h

theorem chargesAt_peek_bind {f : Token → Parser α} (h : ChargesAt spare (f c.peek) c) :
    ChargesAt spare (peek >>= f) c := by
  rw [ChargesAt, peek_bind]
  exact h

/-- The token that is read is kept. -/
theorem chargesAt_skip_bind (h : Charges spare p) (hc : c.Delimited) (hk : c.peek.kind ≠ .eof) :
    ChargesAt (spare + 1) (skip >>= fun _ => p) c := by
  obtain ⟨us, hus, hnoted⟩ := h c.advance hc.advance
  refine ⟨c.peek :: us, by rw [skip_bind]; exact past_append.mpr ⟨_, hc.past_peek hk, hus⟩, ?_⟩
  rw [skip_bind, List.length_cons]
  omega

/-- What keeps a token and has passed one need not keep another. -/
theorem charges_consumed (hp : Charges 1 p) (hless : Consumes p) (hf : ∀ a, Charges 0 (f a)) :
    Charges 1 (p >>= f) := by
  intro c hc
  obtain ⟨us, hus, hfirst⟩ := hp c hc
  cases ho : (p c).outcome with
  | error e => exact ⟨us, by rw [bind_error ho]; exact hus, by rw [bind_error ho]; exact hfirst⟩
  | ok a =>
    obtain ⟨vs, hvs, hsecond⟩ := hf a _ (hc.past hus)
    refine ⟨us ++ vs, by rw [bind_ok ho]; exact past_append.mpr ⟨_, hus, hvs⟩, ?_⟩
    have hlen := hus.length
    have hpassed := hless c hc a ho
    rw [bind_ok ho, List.length_append, List.length_append]
    show _ + _ ≤ _
    omega

/-- Beside what is behind a token that is read, one diagnostic more may be noted. -/
theorem chargesAt_skip_noting (hp : Charges 1 p)
    (hf : ∀ a d, (f a d).cursor = d ∧ (f a d).noted.length ≤ 1) (hc : c.Delimited)
    (hk : c.peek.kind ≠ .eof) : ChargesAt 0 (skip >>= fun _ => p >>= f) c := by
  obtain ⟨us, hus, hnoted⟩ := hp c.advance hc.advance
  have hpast := past_append.mpr ⟨_, hc.past_peek hk, hus⟩
  rw [ChargesAt, skip_bind]
  cases ho : (p c.advance).outcome with
  | error e =>
    rw [bind_error ho]
    exact ⟨_, hpast, Nat.le_trans hnoted (Nat.le_trans (Nat.sub_le _ _) (Nat.le_succ _))⟩
  | ok a =>
    obtain ⟨hcursor, hone⟩ := hf a (p c.advance).cursor
    rw [bind_ok ho]
    refine ⟨_, by rw [← hcursor] at hpast; exact hpast, ?_⟩
    simp only [List.length_append, List.length_singleton]
    omega

end

/-! ### Expressions -/

section
variable {operand : Parser Expr} {inner : Inner}

theorem charges_chain (h : Charges 1 operand) (layer : Layer) (bound : List Token)
    (left : Expr) : Charges 1 (chain layer operand bound left) := by
  induction bound generalizing left with
  | nil => exact charges_pure left
  | cons _ bound ih =>
    refine charges_bind charges_peek fun t => ?_
    split
    · exact charges_pure left
    · exact charges_bind charges_skip fun _ => charges_bind h fun right => ih _

theorem charges_operation (h : Charges 1 operand) : Charges 1 (operation operand) := by
  unfold operation
  induction layers with
  | nil => exact h
  | cons layer layers ih =>
    exact charges_bind ih fun first => charges_bind charges_unread fun bound =>
      charges_chain ih layer bound first

theorem consumes_operation (hforward : Forward operand) (h : Consumes operand) :
    Consumes (operation operand) := by
  have hboth : Forward (operation operand) ∧ Consumes (operation operand) := by
    unfold operation
    induction layers with
    | nil => exact ⟨hforward, h⟩
    | cons layer layers ih =>
      have hmore (first : Expr) : Forward (do
          chain layer (layers.foldr leftFold operand) (← unread) first) := fun c => by
        rw [unread_bind]
        exact forward_chain ih.1 c.rest first c
      exact ⟨forward_bind ih.1 hmore, ih.2.bind hmore⟩
  exact hboth.2

theorem charges_primary (h : ∀ t, Charges 1 (inner.expression t)) : Charges 1 (primary inner) := by
  refine charges_bind charges_peek fun t => ?_
  split
  case h_1 | h_2 | h_3 | h_5 | h_6 => exact charges_bind charges_skip fun _ => charges_pure _
  case h_4 =>
    refine charges_bind charges_skip fun _ => ?_
    split
    · exact charges_pure _
    · exact charges_refuse t _
  case h_7 =>
    exact charges_bind charges_skip fun _ => charges_bind (charges_inward 16 (h t)) fun e =>
      charges_bind (charges_expect _ _) fun _ => charges_pure e
  case h_8 | h_9 => exact charges_refuse t _

theorem charges_operand (h : ∀ t, Charges 1 (inner.expression t))
    (ho : ∀ t, Charges 1 (inner.operand t)) : Charges 1 (operandWith inner) := by
  refine charges_bind charges_peek fun t => ?_
  split
  · exact charges_bind charges_skip fun _ => charges_bind (charges_inward 1 (ho t)) fun e =>
      charges_pure _
  · exact charges_primary h

theorem consumes_operand (h : ∀ t, Forward (inner.expression t))
    (ho : ∀ t, Forward (inner.operand t)) : Consumes (operandWith inner) := by
  intro c hc
  refine consumesAt_peek_bind ?_
  cases hop : unaryOp? c.peek.kind with
  | some op =>
    refine consumesAt_skip_bind (forward_bind (ho c.peek) fun e => forward_pure _) hc fun hk => ?_
    rw [hk] at hop
    cases hop
  | none =>
    refine consumesAt_peek_bind ?_
    split
    case h_1 hk | h_2 hk | h_3 hk | h_5 hk | h_6 hk =>
      exact consumesAt_skip_bind (forward_pure _) hc (by rw [hk]; decide)
    case h_4 hk =>
      refine consumesAt_skip_bind ?_ hc (by rw [hk]; decide)
      split
      · exact forward_pure _
      · exact fun c => ⟨[], past_nil.mpr rfl⟩
    case h_7 hk =>
      refine consumesAt_skip_bind (forward_bind (h c.peek) fun e => ?_) hc (by rw [hk]; decide)
      exact forward_bind (forward_expect _ _) fun _ => forward_pure e
    case h_8 | h_9 => exact consumesAt_refuse _ _

/-- A target at fault is charged to the equals sign behind it. -/
theorem charges_expressionWith (h : ∀ t, Charges 1 (inner.expression t))
    (ho : ∀ t, Charges 1 (inner.operand t)) (hforward : ∀ t, Forward (inner.expression t))
    (hforward' : ∀ t, Forward (inner.operand t))
    (hoperand : Forward (operandWith inner)) : Charges 1 (expressionWith inner) := by
  refine charges_consumed (charges_operation (charges_operand h ho))
    (consumes_operation hoperand (consumes_operand hforward hforward')) fun target c hc => ?_
  refine chargesAt_peek_bind ?_
  split
  next hk =>
    refine chargesAt_skip_noting (charges_inward 1 (h c.peek)) (fun value d => ?_) hc
      (by rw [hk]; decide)
    cases target
    case «variable» name => exact ⟨rfl, Nat.zero_le 1⟩
    all_goals exact ⟨rfl, Nat.le_refl 1⟩
  next => exact charges_pure target c hc

end

theorem charges_inner (room : Nat) (t : Token) :
    Charges 1 ((inner room).expression t) ∧ Charges 1 ((inner room).operand t) := by
  induction room generalizing t with
  | zero => exact ⟨charges_refuse t _, charges_refuse t _⟩
  | succ room ih =>
    have h := fun t => (ih t).1
    have ho := fun t => (ih t).2
    have hforward := fun t => (tracks_inner relocates_id room 0 0 t).1.forward
    have hforward' := fun t => (tracks_inner relocates_id room 0 0 t).2.forward
    refine ⟨charges_expressionWith h ho hforward hforward' ?_, charges_operand h ho⟩
    exact (tracks_inner relocates_id (room + 1) 0 0 t).2.forward

theorem charges_expression (room : Nat) : Charges 1 (expression room) :=
  (charges_inner (room + 1) ⟨.eof, 0, 0, ""⟩).1

/-! ### Statements -/

section
variable {expr : Parser Expr} {body : Body}

theorem charges_semicolon (after : Construct) : Charges 1 (semicolon after) :=
  charges_bind (charges_expect _ _) fun _ => charges_pure ()

theorem charges_ifChain (he : Charges 1 expr) (hb : ∀ t, Charges 1 (body.branch t))
    (bound : List Token) : Charges 1 (ifChain expr body bound) := by
  induction bound with
  | nil => exact charges_bind charges_peek fun t => charges_refuse t _
  | cons _ bound ih =>
    refine charges_bind (charges_expect _ _) fun _ => charges_bind he fun e =>
      charges_bind (charges_expect _ _) fun close =>
        charges_bind (charges_inward 2 (hb close)) fun yes => charges_bind charges_peek fun t => ?_
    split
    · refine charges_bind charges_skip fun _ => charges_bind charges_peek fun next => ?_
      split
      · exact charges_bind charges_skip fun _ => charges_bind ih fun no => charges_pure _
      · exact charges_bind (charges_inward 2 (hb t)) fun no => charges_pure _
    · exact charges_pure _

/-- The brace in front of a block is kept. -/
theorem charges_statement (he : Charges 1 expr) (hb : ∀ t, Charges 1 (body.branch t))
    (hblock : ∀ t, Charges 0 (body.block t)) : Charges 1 (statementWith expr body) := by
  intro c hc
  refine chargesAt_peek_bind ?_
  split
  case h_1 | h_2 | h_3 => exact charges_refuse _ _ c hc
  case h_4 hk =>
    refine chargesAt_skip_bind ?_ hc (by rw [hk]; decide)
    exact charges_bind (charges_inward 3 (hblock c.peek)) fun statements =>
      charges_bind (charges_expect _ _) fun _ => charges_pure _
  case h_5 =>
    have hprint := charges_bind charges_skip fun _ => charges_bind he fun e =>
      charges_bind (charges_semicolon .value) fun _ => charges_pure (Stmt.print e)
    exact hprint c hc
  case h_6 =>
    have hif := charges_bind charges_skip fun _ => charges_bind charges_unread
      (charges_ifChain he hb)
    exact hif c hc
  case h_7 =>
    have hexpression := charges_bind he fun e =>
      charges_bind (charges_semicolon .expression) fun _ => charges_pure (Stmt.expression e)
    exact hexpression c hc

theorem charges_declaration (he : Charges 1 expr) (hb : ∀ t, Charges 1 (body.branch t))
    (hblock : ∀ t, Charges 0 (body.block t)) : Charges 1 (declarationWith expr body) := by
  refine charges_bind charges_peek fun t => ?_
  split
  · refine charges_bind charges_skip fun _ => charges_bind (charges_expect _ _) fun name =>
      charges_bind charges_peek fun next => ?_
    split
    · exact charges_bind charges_skip fun _ => charges_bind he fun e =>
        charges_bind (charges_semicolon _) fun _ => charges_pure _
    · exact charges_bind (charges_semicolon _) fun _ => charges_pure _
  · exact charges_statement he hb hblock

end

/-! ### Sequences -/

section
variable {inBlock : Bool} {p : Parser Stmt} {c : Cursor}

/-- **A declaration passes a token wherever there is one**, be it well formed or not, and what it
notes is charged to tokens that it passes. -/
theorem recovering_charged (hp : Charges 1 p) (hless : Consumes p) (hc : c.Delimited)
    (hrest : c.rest ≠ []) (inBlock : Bool) :
    ∃ us, us ≠ [] ∧ c.Past us (recovering inBlock p c).cursor ∧
      (recovering inBlock p c).noted.length ≤ us.length := by
  obtain ⟨us, hus, hnoted⟩ := hp c hc
  cases ho : (p c).outcome with
  | ok s =>
    have hlen := hus.length
    have hpassed := hless c hc s ho
    rw [recovering_of_ok ho]
    refine ⟨us, fun hnil => ?_, hus, Nat.le_trans hnoted (Nat.sub_le _ _)⟩
    rw [hnil, List.length_nil] at hlen
    omega
  | error e =>
    obtain ⟨vs, hvs, hne, -⟩ := resumes_movedOn inBlock hc hrest hus
    have hpos := List.length_pos_iff.mpr hne
    rw [recovering_of_stop ho]
    refine ⟨us ++ vs, hne, past_append.mpr ⟨_, hus, hvs⟩, ?_⟩
    rw [List.length_append] at hpos ⊢
    rw [List.length_append, List.length_singleton]
    omega

theorem charges_sequence (hp : Charges 1 p) (hless : Consumes p) (inBlock : Bool)
    (bound : List Token) : Charges 0 (sequence inBlock (recovering inBlock p) bound) := by
  induction bound with
  | nil => exact charges_pure []
  | cons t bound ih =>
    intro c hc
    cases hstop : sequenceStops inBlock c with
    | true =>
      rw [ChargesAt, sequence_stop hstop]
      exact ⟨[], past_nil.mpr rfl, Nat.le_refl 0⟩
    | false =>
      obtain ⟨hrest, -⟩ : c.rest ≠ [] ∧ (inBlock = true → c.peek.kind ≠ .rightBrace) := by
        simpa [sequenceStops] using hstop
      obtain ⟨us, -, hus, hnoted⟩ := recovering_charged hp hless hc hrest inBlock
      rw [ChargesAt, sequence_go hstop]
      refine chargesAt_bind ⟨us, hus, hnoted⟩ fun first _ => ?_
      exact charges_bind ih (fun more => charges_pure _) _ (hc.past hus)

end

/-! ### Levels -/

theorem charges_body (room : Nat) (t : Token) :
    Charges 1 ((body room).branch t) ∧ Charges 0 ((body room).block t) := by
  induction room generalizing t with
  | zero => exact ⟨charges_refuse t _, charges_silent (past_skipBlock 1) fun _ => rfl⟩
  | succ room ih =>
    have he := charges_expression room
    have hb := fun t => (ih t).1
    have hblock := fun t => (ih t).2
    refine ⟨charges_statement he hb hblock, charges_bind charges_unread fun bound => ?_⟩
    exact charges_sequence (charges_declaration he hb hblock) (declaration_facts room).2 true bound

theorem charges_declaration_room (room : Nat) :
    Charges 1 (declarationWith (expression room) (body room)) :=
  charges_declaration (charges_expression room) (fun t => (charges_body room t).1)
    fun t => (charges_body room t).2

theorem charges_program (room : Nat) : Charges 0 (program room) :=
  charges_bind charges_unread fun bound =>
    charges_sequence (charges_declaration_room room) (declaration_facts room).2 false bound

end Scriptlet
