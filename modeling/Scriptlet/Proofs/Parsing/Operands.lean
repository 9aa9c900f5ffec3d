import Scriptlet.Parse.Expression
import Scriptlet.Proofs.Parsing.Grammar
import Scriptlet.Proofs.Parsing.Reading

/-! Parsing operands is exact.

What follows an expression decides where it stops, and `Within` puts the phrases
of a level together with that. A literal is one token, a group and a unary
operator go one level further in, and the first token tells which it is. -/
namespace Scriptlet

open Scriptlet.Parser Scriptlet.Cursor

/-! ### What stops an expression -/

/-- The kinds of token behind which an expression of a level cannot go on. -/
def Stops : Level → Kind → Prop
  | .expression, kind => (∀ rank node, ¬ Joins rank kind node) ∧ kind ≠ .equal
  | .operation rank, kind => ∀ r node, rank ≤ r → ¬ Joins r kind node
  | .operand, _ => True
  | .primary, _ => True

/-- The expressions of a level with at most the given nesting, where they stop. -/
def Within (level : Level) (room : Nat) (ts : List Token) (e : Expr) (next : Kind) : Prop :=
  (∃ n, Phrase level ts e n ∧ n ≤ room) ∧ Stops level next

/-- What is nested one level further in. -/
def Inside (level : Level) (room : Nat) (ts : List Token) (e : Expr) (next : Kind) : Prop :=
  (∃ n, Phrase level ts e n ∧ n < room) ∧ Stops level next

theorem stops_expression {kind : Kind} (h : kind = .rightParen ∨ kind = .semicolon) :
    Stops .expression kind := by
  rcases h with rfl | rfl <;> exact ⟨fun _ _ => nofun, by decide⟩

/-! ### Primaries and operands -/

section
variable {inner : Inner} {room : Nat}

theorem Literal.unique {t : Token} {e f : Expr} (h : Literal t e) (h' : Literal t f) : f = e := by
  cases h <;> rename_i hk <;> cases h' <;> rename_i hk' <;> first
    | rfl
    | rw [hk] at hk'
      cases hk'

/-- A literal is one token. -/
theorem reads_literal {c d : Cursor} {e f : Expr} (hc : c.Proper) (h : Literal c.peek e) :
    Reads (skip >>= fun _ => pure e) c f d ↔
      ∃ ts, c.Past ts d ∧ Within .primary room ts f d.peek.kind := by
  have hbegins := h.begins
  rw [reads_skip_bind, reads_pure]
  constructor
  · intro ⟨hf, hd⟩
    subst hf hd
    have hk : c.peek.kind ≠ .eof := fun hk => by
      rw [hk] at hbegins
      cases hbegins
    exact ⟨_, hc.past_peek hk, ⟨0, .literal h, Nat.zero_le _⟩, trivial⟩
  · intro ⟨ts, hp, ⟨n, hphrase, _⟩, _⟩
    cases hphrase with
    | literal hl =>
      obtain ⟨hrest, hp⟩ := past_cons.mp hp
      rw [← peek_eq hrest] at hl
      exact ⟨h.unique hl, past_nil.mp hp⟩
    | group ho =>
      obtain ⟨hrest, _⟩ := past_cons.mp hp
      rw [← peek_eq hrest] at ho
      cases h <;> rename_i hk <;> rw [ho] at hk <;> cases hk

/-- Parentheses, and an expression one level further in. -/
theorem reads_group (h : ∀ t, Recognizes (inner.expression t) (Inside .expression room))
    {cost : Nat} {fault : Fault} {c d : Cursor} {e : Expr} (hc : c.Proper)
    (ho : c.peek.kind = .leftParen) :
    Reads (do
      skip
      let e ← inward cost (inner.expression c.peek)
      let _ ← expect .rightParen fault
      return e) c e d ↔
    ∃ ts, c.Past ts d ∧ Within .primary room ts e d.peek.kind := by
  have hopen := hc.past_peek (by rw [ho]; decide)
  rw [reads_skip_bind, reads_bind]
  constructor
  · intro ⟨x, m, hx, hr⟩
    obtain ⟨hclose, hr⟩ := reads_expect_bind.mp hr
    obtain ⟨rfl, rfl⟩ := reads_pure.mp hr
    obtain ⟨ts, hts, ⟨n, hphrase, hn⟩, _⟩ := (h _ _ _ _ (hc.past hopen)).mp (reads_inward.mp hx)
    have hend := ((hc.past hopen).past hts).past_peek (by rw [hclose]; decide)
    exact ⟨_, past_cons.mpr ⟨hopen.rest, past_append.mpr ⟨m, hts, hend⟩⟩,
      ⟨n + 1, .group ho hphrase hclose, hn⟩, trivial⟩
  · intro ⟨ts, hp, ⟨n, hphrase, hn⟩, _⟩
    cases hphrase with
    | literal hl =>
      rw [← peek_eq (past_cons.mp hp).1] at hl
      cases hl <;> rename_i hk <;> rw [ho] at hk <;> cases hk
    | group _ hphrase hcl =>
      obtain ⟨_, hp⟩ := past_cons.mp hp
      obtain ⟨m, hts, hend⟩ := past_append.mp hp
      obtain ⟨hclose, hend⟩ := past_cons.mp hend
      obtain rfl := past_nil.mp hend
      have hparen : m.peek.kind = .rightParen := by rw [peek_eq hclose, hcl]
      have hx := (h c.peek _ _ _ (hc.past hopen)).mpr
        ⟨_, hts, ⟨_, hphrase, hn⟩, stops_expression (.inl hparen)⟩
      exact ⟨_, m, reads_inward.mpr hx,
        reads_expect_bind.mpr ⟨hparen, reads_pure.mpr ⟨rfl, rfl⟩⟩⟩

/-- The kinds of token that a primary can begin with. -/
def beginsPrimary : Kind → Bool
  | .trueWord | .falseWord | .nilWord | .number | .string | .identifier | .leftParen => true
  | _ => false

theorem primary_begins {ts : List Token} {e : Expr} {n : Nat} (h : Phrase .primary ts e n) :
    ∃ t rest, ts = t :: rest ∧ beginsPrimary t.kind = true := by
  cases h with
  | literal hl => exact ⟨_, _, rfl, by cases hl <;> simp only [*] <;> rfl⟩
  | group ho => exact ⟨_, _, rfl, by rw [ho]; rfl⟩

theorem not_primary {ts : List Token} {e : Expr} {c d : Cursor} {next : Kind} (hp : c.Past ts d)
    (h : beginsPrimary c.peek.kind = false) : ¬ Within .primary room ts e next := by
  intro ⟨⟨n, hphrase, _⟩, _⟩
  obtain ⟨t, rest, rfl, hbegins⟩ := primary_begins hphrase
  rw [peek_eq (past_cons.mp hp).1, hbegins] at h
  cases h

theorem recognizes_primary (h : ∀ t, Recognizes (inner.expression t) (Inside .expression room)) :
    Recognizes (primary inner) (Within .primary room) := by
  intro c e d hc
  have hrefused {t : Token} {fault : Fault} (hk : beginsPrimary c.peek.kind = false) :
      Reads (refuse t fault) c e d ↔ ∃ ts, c.Past ts d ∧ Within .primary room ts e d.peek.kind :=
    ⟨fun hr => absurd hr not_reads_refuse, fun ⟨_, hp, hw⟩ => absurd hw (not_primary hp hk)⟩
  unfold primary
  rw [reads_peek_bind]
  split
  case h_1 hk => exact reads_literal hc (.yes hk)
  case h_2 hk => exact reads_literal hc (.no hk)
  case h_3 hk => exact reads_literal hc (.nil hk)
  case h_4 hk =>
    have hmem : c.peek ∈ c.rest := by
      rw [hc.rest_eq (by rw [hk]; decide)]
      exact List.mem_cons_self
    obtain ⟨x, hread⟩ := Option.isSome_iff_exists.mp (hc.number _ hmem hk)
    have hx : c.peek.numberValue = x := by rw [Token.numberValue, hread]; rfl
    rw [hread]
    exact reads_literal hc (hx ▸ .number hk)
  case h_5 hk => exact reads_literal hc (.string hk)
  case h_6 hk => exact reads_literal hc (.name hk)
  case h_7 hk => exact reads_group h hc hk
  case h_8 hk => exact hrefused (by rw [hk]; rfl)
  case h_9 =>
    refine hrefused ?_
    unfold beginsPrimary
    split
    all_goals first | rfl | contradiction

theorem unaryOp?_iff {kind : Kind} {op : UnaryOp} : unaryOp? kind = some op ↔ Prefixes kind op := by
  constructor
  · intro h
    unfold unaryOp? at h
    split at h <;> cases h <;> constructor
  · intro h
    cases h <;> rfl

theorem unaryOp?_of_primary {kind : Kind} (h : beginsPrimary kind = true) :
    unaryOp? kind = none := by
  cases kind <;> first | rfl | exact absurd h (by decide)

theorem recognizes_operand (h : ∀ t, Recognizes (inner.expression t) (Inside .expression room))
    (ho : ∀ t, Recognizes (inner.operand t) (Inside .operand room)) :
    Recognizes (operandWith inner) (Within .operand room) := by
  intro c e d hc
  unfold operandWith
  rw [reads_peek_bind]
  constructor
  · intro hr
    split at hr
    next op hop =>
      have hprefix := unaryOp?_iff.mp hop
      have hopen := hc.past_peek fun hk => by
        rw [hk] at hop
        cases hop
      rw [reads_skip_bind, reads_bind] at hr
      obtain ⟨x, m, hx, hr⟩ := hr
      obtain ⟨rfl, rfl⟩ := reads_pure.mp hr
      obtain ⟨ts, hts, ⟨n, hphrase, hn⟩, -⟩ := (ho _ _ _ _ (hc.past hopen)).mp (reads_inward.mp hx)
      exact ⟨_, past_cons.mpr ⟨hopen.rest, hts⟩, ⟨n + 1, .unary hprefix hphrase, hn⟩, trivial⟩
    next =>
      obtain ⟨ts, hts, ⟨n, hphrase, hn⟩, -⟩ := (recognizes_primary h c e d hc).mp hr
      exact ⟨ts, hts, ⟨n, .primary hphrase, hn⟩, trivial⟩
  · intro ⟨ts, hp, ⟨n, hphrase, hn⟩, _⟩
    cases hphrase with
    | primary hphrase =>
      obtain ⟨t, rest, rfl, hbegins⟩ := primary_begins hphrase
      obtain ⟨hrest, _⟩ := past_cons.mp hp
      rw [peek_eq hrest, unaryOp?_of_primary hbegins]
      exact (recognizes_primary h c e d hc).mpr ⟨_, hp, ⟨n, hphrase, hn⟩, trivial⟩
    | unary hprefix hphrase =>
      obtain ⟨hrest, hts⟩ := past_cons.mp hp
      have hopen : c.Past [_] c.advance := past_cons.mpr ⟨hrest, past_nil.mpr rfl⟩
      have hx := (ho c.peek _ _ _ (hc.past hopen)).mpr ⟨_, hts, ⟨_, hphrase, hn⟩, trivial⟩
      rw [peek_eq hrest] at hx ⊢
      rw [unaryOp?_iff.mpr hprefix]
      simp only [reads_skip_bind]
      rw [reads_bind]
      exact ⟨_, _, reads_inward.mpr hx, reads_pure.mpr ⟨rfl, rfl⟩⟩

end

end Scriptlet
