import Scriptlet.Parse.Expression
import Scriptlet.Proofs.Locality.Lookahead

/-! The parsers of expressions look one token ahead.

There is one case for each parser, and each of them puts the laws together in the
way in which the parser is put together. Only the loop over the operators of a
layer takes an induction, on the tokens that bound it. -/
namespace Scriptlet

open Scriptlet.Parser Scriptlet.Cursor

/-! ### Operations -/

section
variable {move : Token → Token} {layer : Layer} {operand : Parser Expr} {c : Cursor}

theorem chain_stop (h : layer c.peek.kind = none) (bound : List Token) (left : Expr) :
    chain layer operand bound left c = ⟨.ok left, c, [], 0⟩ := by
  cases bound with
  | nil => rfl
  | cons _ bound => rw [chain, peek_bind, h]; rfl

theorem chain_go {node : Expr → Expr → Expr} (h : layer c.peek.kind = some node)
    (t : Token) (bound : List Token) (left : Expr) :
    chain layer operand (t :: bound) left c =
      (do skip; let right ← operand; chain layer operand bound (node left right)) c := by
  rw [chain, peek_bind, h]

theorem forward_chain (h : Forward operand) (bound : List Token) (left : Expr) :
    Forward (chain layer operand bound left) := by
  induction bound generalizing left with
  | nil => exact fun c => ⟨[], past_nil.mpr rfl⟩
  | cons t bound ih =>
    intro c
    cases hl : layer c.peek.kind with
    | none =>
      rw [chain_stop hl]
      exact ⟨[], past_nil.mpr rfl⟩
    | some node =>
      rw [chain_go hl]
      exact forward_bind forward_skip (fun _ => forward_bind h fun right => ih _) c

/-- The bounds of a chain do not matter where they allow for the tokens that are left: an
operator is never the end marker. -/
theorem tracks_chain (hm : Relocates move) (hl : layer .eof = none)
    (h : ∀ m n, Tracks move m n id operand operand) (bound bound' : List Token) (left : Expr) :
    Tracks move bound.length bound'.length id (chain layer operand bound left)
      (chain layer operand bound' left) := by
  have hstart {c : Cursor} (hc : c.Delimited) {node : Expr → Expr → Expr}
      (hnode : layer c.peek.kind = some node) : c.rest.length ≠ 0 := by
    intro hlen
    rw [hc.rest_eq_nil.mp (List.length_eq_zero_iff.mp hlen), hl] at hnode
    cases hnode
  induction bound generalizing bound' left with
  | nil =>
    refine ⟨forward_chain (h 0 0).forward _ left, fun c c' d' hc hc' hlen _ hs => ?_⟩
    cases hlayer : layer c.peek.kind with
    | none =>
      rw [chain_stop hlayer] at hs ⊢
      obtain ⟨rfl, _⟩ := shown_refl.mp hs
      rw [chain_stop (by rw [hs.kind hm, hlayer])]
      rfl
    | some node => exact absurd (Nat.le_zero.mp hlen) (hstart hc hlayer)
  | cons t bound ih =>
    refine ⟨forward_chain (h 0 0).forward _ left, fun c c' d' hc hc' hlen hlen' hs => ?_⟩
    cases hlayer : layer c.peek.kind with
    | none =>
      rw [chain_stop hlayer] at hs ⊢
      obtain ⟨rfl, _⟩ := shown_refl.mp hs
      rw [chain_stop (by rw [hs.kind hm, hlayer])]
      rfl
    | some node =>
      have hlayer' : layer c'.peek.kind = some node := by rw [hs.kind hm, hlayer]
      cases bound' with
      | nil => exact absurd (Nat.le_zero.mp hlen') (hstart hc' hlayer')
      | cons t' bound' =>
        rw [chain_go hlayer] at hs ⊢
        rw [chain_go hlayer']
        have hgo := tracks_skip_bind hm
          ((h bound.length bound'.length).seq fun right => ih bound' (node left right))
        exact hgo.agrees c c' d' hc hc' hlen hlen' hs

theorem tracks_operation (hm : Relocates move) (h : ∀ m n, Tracks move m n id operand operand)
    (m n : Nat) : Tracks move m n id (operation operand) (operation operand) := by
  have hlayers : ∀ layer ∈ layers, layer .eof = none := by
    simp only [layers, List.forall_mem_cons, List.not_mem_nil, false_implies, implies_true,
      and_self]
  unfold operation
  generalize layers = ls at hlayers
  induction ls generalizing m n with
  | nil => exact h m n
  | cons layer ls ih =>
    obtain ⟨hl, hls⟩ := List.forall_mem_cons.mp hlayers
    have hoperand := fun m n => ih m n hls
    exact (hoperand m n).seq fun first =>
      tracks_unread_bind fun bound bound' => tracks_chain hm hl hoperand bound bound' first

end

/-! ### Expressions -/

section
variable {move : Token → Token} {m n : Nat} {inner : Inner}

theorem tracks_primary (hm : Relocates move)
    (h : ∀ t, Tracks move m n id (inner.expression t) (inner.expression (move t))) :
    Tracks move m n id (primary inner) (primary inner) := by
  refine tracks_peek.bind fun t => ?_
  simp only [hm.kind, hm.text, hm.stringValue]
  split
  case h_1 | h_2 | h_3 | h_5 | h_6 => exact (tracks_skip hm).seq fun _ => tracks_pure _
  case h_4 =>
    refine (tracks_skip hm).seq fun _ => ?_
    split
    · exact tracks_pure _
    · exact tracks_refuse t _
  case h_7 =>
    exact (tracks_skip hm).seq fun _ => (tracks_inward 16 (h t)).seq fun e =>
      (tracks_expect hm _ _).bind fun _ => tracks_pure e
  case h_8 | h_9 => exact tracks_refuse t _

theorem tracks_operand (hm : Relocates move)
    (h : ∀ t, Tracks move m n id (inner.expression t) (inner.expression (move t)))
    (ho : ∀ t, Tracks move m n id (inner.operand t) (inner.operand (move t))) :
    Tracks move m n id (operandWith inner) (operandWith inner) := by
  refine tracks_peek.bind fun t => ?_
  rw [hm.kind]
  split
  · exact (tracks_skip hm).seq fun _ => (tracks_inward 1 (ho t)).seq fun e => tracks_pure _
  · exact tracks_primary hm h

end

section
variable {move : Token → Token} {inner : Inner}

theorem tracks_expressionWith (hm : Relocates move)
    (h : ∀ m n t, Tracks move m n id (inner.expression t) (inner.expression (move t)))
    (ho : ∀ m n t, Tracks move m n id (inner.operand t) (inner.operand (move t))) (m n : Nat) :
    Tracks move m n id (expressionWith inner) (expressionWith inner) := by
  refine (tracks_operation hm (fun m n => tracks_operand hm (h m n) (ho m n)) m n).seq
    fun target => tracks_peek.bind fun t => ?_
  rw [hm.kind]
  split
  · refine (tracks_skip hm).seq fun _ => (tracks_inward 1 (h m n t)).seq fun value => ?_
    split
    · exact tracks_pure _
    · exact (tracks_note t _).seq fun _ => tracks_pure _
  · exact tracks_pure target

end

theorem tracks_inner {move : Token → Token} (hm : Relocates move) (room m n : Nat) (t : Token) :
    Tracks move m n id ((inner room).expression t) ((inner room).expression (move t)) ∧
      Tracks move m n id ((inner room).operand t) ((inner room).operand (move t)) := by
  induction room generalizing m n t with
  | zero => exact ⟨tracks_refuse t _, tracks_refuse t _⟩
  | succ room ih =>
    have h := fun m n t => (ih m n t).1
    have ho := fun m n t => (ih m n t).2
    exact ⟨tracks_expressionWith hm h ho m n, tracks_operand hm (h m n) (ho m n)⟩

theorem tracks_expression {move : Token → Token} (hm : Relocates move) (room m n : Nat) :
    Tracks move m n id (expression room) (expression room) :=
  tracks_expressionWith hm (fun m n t => (tracks_inner hm room m n t).1)
    (fun m n t => (tracks_inner hm room m n t).2) m n

end Scriptlet
