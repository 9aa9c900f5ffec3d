import Scriptlet.Proofs.Parsing.Operands

/-! Parsing expressions is exact.

A layer reads its operands in a loop that takes the tree so far along, and the
grammar builds the same tree from the left; the induction is on the tokens that
bound the loop. The layers are stacked one on the other, and an assignment is an
operation that turns out to be a mere name. -/
namespace Scriptlet

open Scriptlet.Parser Scriptlet.Cursor

section
/-! ### Operations -/

theorem Joins.rank_unique {r s : Nat} {kind : Kind} {node other : Expr → Expr → Expr}
    (h : Joins r kind node) (h' : Joins s kind other) : r = s := by
  cases h <;> cases h' <;> rfl

theorem Joins.rank_lt {r : Nat} {kind : Kind} {node : Expr → Expr → Expr}
    (h : Joins r kind node) : r < 6 := by
  cases h <;> decide

theorem Joins.ne_eof {r : Nat} {kind : Kind} {node : Expr → Expr → Expr}
    (h : Joins r kind node) : kind ≠ .eof := by
  cases h <;> decide

variable {rank : Nat} {layer : Layer} {operand : Parser Expr}

/-- Behind an operand of the tighter rank, an operation goes on only with an operator of
its own. -/
theorem stops_of_layer (hl : ∀ kind node, layer kind = some node ↔ Joins rank kind node)
    {kind : Kind} (h : Stops (.operation (rank + 1)) kind) (hnone : layer kind = none) :
    Stops (.operation rank) kind := by
  intro r node hr hj
  rcases Nat.eq_or_lt_of_le hr with rfl | hlt
  · rw [(hl kind node).mpr hj] at hnone
    cases hnone
  · exact h r node hlt hj

theorem Joins.stops {kind : Kind} {node : Expr → Expr → Expr} (h : Joins rank kind node) :
    Stops (.operation (rank + 1)) kind := by
  intro r other hr hj
  have := h.rank_unique hj
  omega

/-- What the chain behind `left` reads makes a longer operation of it. -/
theorem phrase_of_chain (hl : ∀ kind node, layer kind = some node ↔ Joins rank kind node)
    (h : Recognizes operand (Within (.operation (rank + 1)) room)) (bound : List Token)
    {c d : Cursor} {left e : Expr} {ls : List Token} {m : Nat} (hc : c.Proper)
    (hb : c.rest.length ≤ bound.length) (hleft : Phrase (.operation rank) ls left m)
    (hm : m ≤ room) (hs : Stops (.operation (rank + 1)) c.peek.kind)
    (hr : Reads (chain layer operand bound left) c e d) :
    ∃ ts, c.Past ts d ∧ Within (.operation rank) room (ls ++ ts) e d.peek.kind := by
  induction bound generalizing c left ls m with
  | nil =>
    obtain ⟨rfl, rfl⟩ := reads_pure.mp hr
    have hend := hc.rest_eq_nil.mp (List.length_eq_zero_iff.mp (Nat.le_zero.mp hb))
    refine ⟨[], past_nil.mpr rfl, ⟨m, by rwa [List.append_nil], hm⟩, fun r node _ hj => ?_⟩
    exact hj.ne_eof hend
  | cons _ bound ih =>
    rw [chain, reads_peek_bind] at hr
    split at hr
    next hnone =>
      obtain ⟨rfl, rfl⟩ := reads_pure.mp hr
      exact ⟨[], past_nil.mpr rfl, ⟨m, by rwa [List.append_nil], hm⟩, stops_of_layer hl hs hnone⟩
    next node hsome =>
      have hj := (hl _ _).mp hsome
      have hop := hc.past_peek hj.ne_eof
      rw [reads_skip_bind, reads_bind] at hr
      obtain ⟨right, k, hright, hr⟩ := hr
      obtain ⟨rs, hrs, ⟨n, hphrase, hn⟩, hstop⟩ := (h _ _ _ (hc.past hop)).mp hright
      have hlen := congrArg List.length hop.rest
      have hlen' := congrArg List.length hrs.rest
      simp only [List.length_append, List.length_cons, List.length_nil] at hlen hlen' hb
      obtain ⟨ts, hts, hwithin⟩ := ih ((hc.past hop).past hrs) (by omega) (.join hleft hj hphrase)
        (Nat.max_le.mpr ⟨hm, hn⟩) hstop hr
      refine ⟨c.peek :: (rs ++ ts),
        past_cons.mpr ⟨hop.rest, past_append.mpr ⟨k, hrs, hts⟩⟩, ?_⟩
      simpa only [List.append_assoc, List.cons_append] using hwithin

/-- An operation is what the chain behind its first operand reads. -/
theorem reads_of_phrase (hl : ∀ kind node, layer kind = some node ↔ Joins rank kind node)
    (hrank : rank < 6) (h : Recognizes operand (Within (.operation (rank + 1)) room))
    {ts : List Token} {e : Expr} {n : Nat} (hphrase : Phrase (.operation rank) ts e n)
    (hn : n ≤ room) {c m d : Cursor} {x : Expr} (hc : c.Proper) (hts : c.Past ts m)
    (hs : Stops (.operation (rank + 1)) m.peek.kind)
    (hchain : ∀ bound : List Token, m.rest.length ≤ bound.length →
      Reads (chain layer operand bound e) m x d) :
    Reads (leftFold layer operand) c x d := by
  generalize hlevel : Level.operation rank = level at hphrase
  induction hphrase generalizing m d x with
  | literal | group | primary | unary | operation | assign => cases hlevel
  | operand =>
    cases hlevel
    omega
  | tighter hphrase =>
    cases hlevel
    unfold leftFold
    rw [reads_bind]
    refine ⟨_, m, (h _ _ _ hc).mpr ⟨_, hts, ⟨_, hphrase, hn⟩, hs⟩, ?_⟩
    exact reads_unread_bind.mpr (hchain _ (Nat.le_refl _))
  | @join _ ls l k t node rs r n _ hj hright ih =>
    cases hlevel
    obtain ⟨k, hls, hrs⟩ := past_append.mp hts
    obtain ⟨hrest, hrs⟩ := past_cons.mp hrs
    have hck := hc.past hls
    have hop : k.Past [t] k.advance := past_cons.mpr ⟨hrest, past_nil.mpr rfl⟩
    have hright := (h _ _ _ (hck.past hop)).mpr
      ⟨_, hrs, ⟨_, hright, Nat.le_trans (Nat.le_max_right _ _) hn⟩, hs⟩
    refine ih (Nat.le_trans (Nat.le_max_left _ _) hn) hls ?_ (fun bound hb => ?_) rfl
    · rw [peek_eq hrest]
      exact hj.stops
    · have hlen := congrArg List.length hrest
      have hlen' := congrArg List.length hrs.rest
      simp only [List.length_append, List.length_cons] at hlen hlen'
      cases bound with
      | nil =>
        simp only [List.length_nil] at hb
        omega
      | cons _ bound =>
        rw [chain, reads_peek_bind, peek_eq hrest, (hl _ _).mpr hj]
        simp only [reads_skip_bind]
        rw [reads_bind]
        simp only [List.length_cons] at hb
        exact ⟨_, _, hright, hchain bound (by omega)⟩

theorem recognizes_leftFold (hl : ∀ kind node, layer kind = some node ↔ Joins rank kind node)
    (hrank : rank < 6) (h : Recognizes operand (Within (.operation (rank + 1)) room)) :
    Recognizes (leftFold layer operand) (Within (.operation rank) room) := by
  intro c e d hc
  constructor
  · intro hr
    unfold leftFold at hr
    rw [reads_bind] at hr
    obtain ⟨first, m, hfirst, hr⟩ := hr
    obtain ⟨ls, hls, ⟨n, hphrase, hn⟩, hs⟩ := (h _ _ _ hc).mp hfirst
    obtain ⟨ts, hts, hwithin⟩ := phrase_of_chain hl h _ (hc.past hls) (Nat.le_refl _)
      (.tighter hphrase) hn hs (reads_unread_bind.mp hr)
    exact ⟨_, past_append.mpr ⟨m, hls, hts⟩, hwithin⟩
  · intro ⟨ts, hts, ⟨n, hphrase, hn⟩, hs⟩
    have hnone : layer d.peek.kind = none := by
      cases hlayer : layer d.peek.kind with
      | none => rfl
      | some node => exact absurd ((hl _ _).mp hlayer) (hs _ _ (Nat.le_refl _))
    refine reads_of_phrase hl hrank h hphrase hn hc hts (fun r node hr => hs r node (by omega))
      fun bound _ => ?_
    cases bound with
    | nil => exact reads_pure.mpr ⟨rfl, rfl⟩
    | cons _ bound =>
      rw [chain, reads_peek_bind, hnone]
      exact reads_pure.mpr ⟨rfl, rfl⟩

end

/-! ### All ranks -/

/-- The layers are the ranks of operators. -/
theorem layers_joins (i : Nat) (layer : Layer) (h : layers[i]? = some layer) (kind : Kind)
    (node : Expr → Expr → Expr) : layer kind = some node ↔ Joins i kind node := by
  have hi : i < 6 := (List.getElem?_eq_some_iff.mp h).1
  have hcases : i = 0 ∨ i = 1 ∨ i = 2 ∨ i = 3 ∨ i = 4 ∨ i = 5 := by omega
  rcases hcases with rfl | rfl | rfl | rfl | rfl | rfl <;> cases h
  all_goals
    constructor
    · intro hk
      cases kind <;> cases hk <;> constructor
    · intro hj
      cases hj <;> rfl

theorem Phrase.rank_le {rank : Nat} {ts : List Token} {e : Expr} {n : Nat}
    (h : Phrase (.operation rank) ts e n) : rank ≤ 6 := by
  generalize hlevel : Level.operation rank = level at h
  induction h generalizing rank with
  | literal | group | primary | unary | operation | assign => cases hlevel
  | operand =>
    cases hlevel
    exact Nat.le_refl _
  | tighter _ ih =>
    cases hlevel
    have := ih rfl
    omega
  | join _ _ _ ih =>
    cases hlevel
    exact ih rfl

/-- Behind the last rank there are operands only. -/
theorem phrase_operand_iff {ts : List Token} {e : Expr} {n : Nat} :
    Phrase (.operation 6) ts e n ↔ Phrase .operand ts e n := by
  constructor
  · intro h
    cases h with
    | operand h => exact h
    | tighter h => exact absurd h.rank_le (by decide)
    | join _ hj => cases hj
  · exact .operand

theorem recognizes_operation {room : Nat} {operand : Parser Expr}
    (h : Recognizes operand (Within .operand room)) :
    Recognizes (operation operand) (Within (.operation 0) room) := by
  have h6 : Recognizes operand (Within (.operation 6) room) := by
    intro c e d hc
    have hs : Stops (.operation 6) d.peek.kind := fun r node hr hj => by
      have := hj.rank_lt
      omega
    rw [h c e d hc]
    simp only [Within, phrase_operand_iff, hs, and_true]
    simp only [Stops, and_true]
  have h5 := recognizes_leftFold (layers_joins 5 _ rfl) (by decide) h6
  have h4 := recognizes_leftFold (layers_joins 4 _ rfl) (by decide) h5
  have h3 := recognizes_leftFold (layers_joins 3 _ rfl) (by decide) h4
  have h2 := recognizes_leftFold (layers_joins 2 _ rfl) (by decide) h3
  have h1 := recognizes_leftFold (layers_joins 1 _ rfl) (by decide) h2
  exact recognizes_leftFold (layers_joins 0 _ rfl) (by decide) h1

/-! ### Expressions -/

theorem not_joins_equal {rank : Nat} {node : Expr → Expr → Expr} : ¬ Joins rank .equal node :=
  nofun

theorem recognizes_expression {inner : Inner} {room : Nat}
    (h : ∀ t, Recognizes (inner.expression t) (Inside .expression room))
    (ho : ∀ t, Recognizes (inner.operand t) (Inside .operand room)) :
    Recognizes (expressionWith inner) (Within .expression room) := by
  have hop := recognizes_operation (recognizes_operand h ho)
  intro c e d hc
  unfold expressionWith
  rw [reads_bind]
  constructor
  · intro ⟨target, m, htarget, hr⟩
    obtain ⟨ts, hts, ⟨n, hphrase, hn⟩, hs⟩ := (hop _ _ _ hc).mp htarget
    rw [reads_peek_bind] at hr
    split at hr
    next hk =>
      have heq := (hc.past hts).past_peek (by rw [hk]; decide)
      rw [reads_skip_bind, reads_bind] at hr
      obtain ⟨value, k, hvalue, hr⟩ := hr
      obtain ⟨rs, hrs, ⟨l, hright, hl⟩, hs⟩ :=
        (h _ _ _ _ ((hc.past hts).past heq)).mp (reads_inward.mp hvalue)
      split at hr
      next name =>
        obtain ⟨rfl, rfl⟩ := reads_pure.mp hr
        exact ⟨_, past_append.mpr ⟨m, hts, past_cons.mpr ⟨heq.rest, hrs⟩⟩,
          ⟨_, .assign hphrase.target hk hright, Nat.max_le.mpr ⟨hn, hl⟩⟩, hs⟩
      next =>
        obtain ⟨_, _, hnote, _⟩ := reads_bind.mp hr
        exact absurd hnote not_reads_note
    next hk =>
      obtain ⟨rfl, rfl⟩ := reads_pure.mp hr
      exact ⟨ts, hts, ⟨n, .operation hphrase, hn⟩,
        fun r node => hs r node (Nat.zero_le r), hk⟩
  · intro ⟨ts, hts, ⟨n, hphrase, hn⟩, hs⟩
    cases hphrase with
    | operation hphrase =>
      refine ⟨e, d, (hop _ _ _ hc).mpr ⟨ts, hts, ⟨n, hphrase, hn⟩, fun r node _ => hs.1 r node⟩, ?_⟩
      rw [reads_peek_bind, if_neg hs.2]
      exact reads_pure.mpr ⟨rfl, rfl⟩
    | @assign ls name k t rs value l htarget hk hright =>
      obtain ⟨hm, hl⟩ := Nat.max_le.mp hn
      obtain ⟨m, hls, hrs⟩ := past_append.mp hts
      obtain ⟨hrest, hrs⟩ := past_cons.mp hrs
      have hcm := hc.past hls
      have heq : m.Past [t] m.advance := past_cons.mpr ⟨hrest, past_nil.mpr rfl⟩
      have hstop : Stops (.operation 0) m.peek.kind := by
        rw [peek_eq hrest, hk]
        exact fun r node _ => not_joins_equal
      refine ⟨_, m, (hop _ _ _ hc).mpr ⟨ls, hls, ⟨k, htarget.phrase.ofPrimary, hm⟩, hstop⟩, ?_⟩
      rw [reads_peek_bind, if_pos (by rw [peek_eq hrest, hk]), reads_skip_bind, reads_bind]
      exact ⟨value, d, reads_inward.mpr ((h _ _ _ _ (hcm.past heq)).mpr
        ⟨rs, hrs, ⟨l, hright, hl⟩, hs⟩), reads_pure.mpr ⟨rfl, rfl⟩⟩

theorem inside_succ (level : Level) (room : Nat) :
    Inside level (room + 1) = Within level room := by
  funext ts e next
  simp only [Inside, Within, Nat.lt_succ_iff]

/-- What is nested further in, at every level. -/
theorem recognizes_inner (room : Nat) (t : Token) :
    Recognizes ((inner room).expression t) (Inside .expression room) ∧
      Recognizes ((inner room).operand t) (Inside .operand room) := by
  induction room generalizing t with
  | zero =>
    constructor <;> exact fun c e d _ => ⟨fun hr => absurd hr not_reads_refuse,
      fun ⟨_, _, ⟨_, _, hn⟩, _⟩ => absurd hn (Nat.not_lt_zero _)⟩
  | succ room ih =>
    have h := fun t => (ih t).1
    have ho := fun t => (ih t).2
    simp only [inside_succ]
    exact ⟨recognizes_expression h ho, recognizes_operand h ho⟩

/-- **Parsing expressions is exact**: it reads the expressions of the grammar that are
not nested deeper than there is room, up to where they cannot go on. -/
theorem recognizes_room (room : Nat) :
    Recognizes (expression room) (Within .expression room) :=
  recognizes_expression (fun t => (recognizes_inner room t).1) fun t => (recognizes_inner room t).2

end Scriptlet
