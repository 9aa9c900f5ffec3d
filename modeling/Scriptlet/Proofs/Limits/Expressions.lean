import Scriptlet.Proofs.Parsing.Expressions

/-! Expressions with less room.

A parser of an expression that has less room than another does the same, or it
stops because something is nested too deep (`Lowered`). There is one law for each
way of building parsers. What is an expression of the grammar is therefore read
as a whole or not at all, however little room there is (`expression_phrase`). -/
namespace Scriptlet

open Scriptlet.Parser Scriptlet.Cursor

/-- The first parser does the same as the second, unless it stops for want of room. -/
def Lowered {α : Type} (p q : Parser α) : Prop :=
  ∀ c, p c = q c ∨ ∃ t, (p c).outcome = .error ⟨.tooMuchNesting, t⟩

section
variable {α β : Type}

theorem lowered_refl (p : Parser α) : Lowered p p :=
  fun _ => .inl rfl

theorem lowered_refuse (t : Token) (q : Parser α) : Lowered (refuse t .tooMuchNesting) q :=
  fun _ => .inr ⟨t, rfl⟩

theorem lowered_bind {p q : Parser α} {f g : α → Parser β} (hp : Lowered p q)
    (hf : ∀ a, Lowered (f a) (g a)) : Lowered (p >>= f) (q >>= g) := by
  intro c
  rcases hp c with hsame | ⟨t, hstop⟩
  · cases ho : (p c).outcome with
    | error e =>
      left
      rw [bind_error ho, bind_error (by rw [← hsame]; exact ho), hsame]
    | ok a =>
      rw [bind_ok ho, bind_ok (p := q) (by rw [← hsame]; exact ho), ← hsame]
      rcases hf a (p c).cursor with hrest | ⟨t, hstop⟩
      · left
        rw [hrest]
      · exact .inr ⟨t, hstop⟩
  · exact .inr ⟨t, by rw [bind_error hstop]⟩

theorem lowered_seq (p : Parser α) {f g : α → Parser β} (hf : ∀ a, Lowered (f a) (g a)) :
    Lowered (p >>= f) (p >>= g) :=
  lowered_bind (lowered_refl p) hf

theorem lowered_inward {p q : Parser α} (cost : Nat) (h : Lowered p q) :
    Lowered (inward cost p) (inward cost q) := by
  intro c
  rcases h c with hsame | hstop
  · left
    simp only [inward, hsame]
  · exact .inr hstop

end

/-! ### Operations -/

section
variable {operand operand' : Parser Expr}

theorem lowered_chain (h : Lowered operand operand') (layer : Layer) (bound : List Token)
    (left : Expr) : Lowered (chain layer operand bound left) (chain layer operand' bound left) := by
  induction bound generalizing left with
  | nil => exact lowered_refl _
  | cons _ bound ih =>
    refine lowered_seq _ fun t => ?_
    split
    · exact lowered_refl _
    · exact lowered_seq _ fun _ => lowered_bind h fun right => ih _

theorem lowered_operation (h : Lowered operand operand') :
    Lowered (operation operand) (operation operand') := by
  unfold operation
  induction layers with
  | nil => exact h
  | cons layer layers ih =>
    exact lowered_bind ih fun first => lowered_seq _ fun bound => lowered_chain ih layer bound first

end

/-! ### Levels -/

/-- The parsers of inner parts have less room. -/
structure Inner.Lowered (i j : Inner) : Prop where
  expression : ∀ t, Scriptlet.Lowered (i.expression t) (j.expression t)
  operand : ∀ t, Scriptlet.Lowered (i.operand t) (j.operand t)

section
variable {i j : Inner}

theorem lowered_primary (h : i.Lowered j) : Lowered (primary i) (primary j) := by
  refine lowered_seq _ fun t => ?_
  split
  case h_7 =>
    exact lowered_seq _ fun _ => lowered_bind (lowered_inward 16 (h.expression t)) fun e =>
      lowered_refl _
  all_goals exact lowered_refl _

theorem lowered_operandWith (h : i.Lowered j) : Lowered (operandWith i) (operandWith j) := by
  refine lowered_seq _ fun t => ?_
  split
  · exact lowered_seq _ fun _ => lowered_bind (lowered_inward 1 (h.operand t)) fun e =>
      lowered_refl _
  · exact lowered_primary h

theorem lowered_expressionWith (h : i.Lowered j) :
    Lowered (expressionWith i) (expressionWith j) := by
  refine lowered_bind (lowered_operation (lowered_operandWith h)) fun target =>
    lowered_seq _ fun t => ?_
  split
  · exact lowered_seq _ fun _ => lowered_bind (lowered_inward 1 (h.expression t)) fun value =>
      lowered_refl _
  · exact lowered_refl _

end

theorem inner_lowered {m n : Nat} (h : m ≤ n) : (inner m).Lowered (inner n) := by
  induction m generalizing n with
  | zero => exact ⟨fun t => lowered_refuse t _, fun t => lowered_refuse t _⟩
  | succ m ih =>
    obtain ⟨n, rfl⟩ := Nat.exists_eq_add_of_le' (Nat.lt_of_succ_le h)
    have hinner := ih (Nat.le_of_succ_le_succ h)
    exact ⟨fun _ => lowered_expressionWith hinner, fun _ => lowered_operandWith hinner⟩

theorem lowered_expression {m n : Nat} (h : m ≤ n) : Lowered (expression m) (expression n) :=
  lowered_expressionWith (inner_lowered h)

/-! ### Expressions of the grammar -/

/-- **An expression of the grammar is read as a whole or not at all**, whatever room there is. -/
theorem expression_phrase (room : Nat) {c d : Cursor} (hc : c.Proper) {ts : List Token} {e : Expr}
    {n : Nat} (h : Phrase .expression ts e n) (hts : c.Past ts d)
    (hstops : Stops .expression d.peek.kind) :
    Reads (expression room) c e d ∨
      ∃ t, (expression room c).outcome = .error ⟨.tooMuchNesting, t⟩ := by
  have henough : Reads (expression (max room n)) c e d :=
    (recognizes_room _ c e d hc).mpr ⟨ts, hts, ⟨n, h, Nat.le_max_right _ _⟩, hstops⟩
  exact (lowered_expression (Nat.le_max_left room n) c).imp_left fun hsame =>
    (reads_congr hsame).mpr henough

/-! ### Where no expression begins -/

section
variable {α β : Type} {p : Parser α} {c : Cursor}

theorem stopped_bind (h : ∃ d, (p c).outcome = .error d) (f : α → Parser β) :
    ∃ d, ((p >>= f) c).outcome = .error d := by
  obtain ⟨d, hd⟩ := h
  exact ⟨d, by rw [bind_error hd]⟩

theorem operand_stopped (i : Inner) (h : beginsPhrase c.peek.kind = false) :
    ∃ d, (operandWith i c).outcome = .error d := by
  unfold operandWith primary
  rw [peek_bind]
  cases hk : c.peek.kind <;> rw [hk] at h <;> first
    | exact absurd h (by decide)
    | (simp only [unaryOp?]
       rw [peek_bind]
       simp only [hk]
       exact ⟨_, rfl⟩)

theorem operation_stopped {operand : Parser Expr} (h : ∃ d, (operand c).outcome = .error d) :
    ∃ d, (operation operand c).outcome = .error d := by
  unfold operation
  induction layers with
  | nil => exact h
  | cons layer layers ih => exact stopped_bind ih _

/-- Nothing is read where no expression begins. -/
theorem expression_stopped (room : Nat) (h : beginsPhrase c.peek.kind = false) :
    ∃ d, (expression room c).outcome = .error d :=
  stopped_bind (operation_stopped (operand_stopped _ h)) _

end

end Scriptlet
