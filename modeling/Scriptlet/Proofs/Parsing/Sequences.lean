import Scriptlet.Parse.Statement
import Scriptlet.Proofs.Parsing.Statements

/-! Parsing declarations one behind the other is exact, at every level.

A parser that recovers reads without a fault only what is well formed, and a
sequence of declarations ends at the end of the tokens or, inside a block, at a
brace. No declaration begins like that, nor with an else, so that none of them can
be read too far. The levels of nesting are taken one after the other, from the
innermost one out: `recognizes_body`. -/
namespace Scriptlet

open Scriptlet.Parser Scriptlet.Cursor

/-! ### Sequences -/

theorem reads_recovering {inBlock : Bool} {p : Parser Stmt} {c d : Cursor} {o : Option Stmt} :
    Reads (recovering inBlock p) c o d ↔ ∃ s, o = some s ∧ Reads p c s d := by
  constructor
  · intro ⟨ho, hd, hn⟩
    cases h : (p c).outcome with
    | ok s =>
      rw [recovering_of_ok h] at ho hd hn
      exact ⟨s, (Except.ok.inj ho).symm, h, hd, hn⟩
    | error e =>
      rw [recovering_of_error h] at hn
      exact absurd (List.append_eq_nil_iff.mp hn).2 (List.cons_ne_nil _ _)
  · intro h
    obtain ⟨s, rfl, ho, hd, hn⟩ := h
    constructor <;> rw [recovering_of_ok ho]
    · exact hd
    · exact hn

theorem EndsSequence.ne_else {inBlock : Bool} {kind : Kind} (h : EndsSequence inBlock kind) :
    kind ≠ .elseWord := by
  rcases h with rfl | ⟨_, rfl⟩ <;> decide

theorem EndsSequence.not_begins {inBlock : Bool} {kind : Kind} (h : EndsSequence inBlock kind) :
    beginsSentence kind = false := by
  rcases h with rfl | ⟨_, rfl⟩ <;> rfl

theorem beginsSentence_ne_else {kind : Kind} (h : beginsSentence kind = true) :
    kind ≠ .elseWord := by
  intro he
  subst he
  exact absurd h (by decide)

/-- A sequence ends where its loop stops. -/
theorem endsSequence_iff {inBlock : Bool} {c : Cursor} (hc : c.Proper) :
    (c.atEnd || (inBlock && c.peek.kind == .rightBrace)) = true ↔
      EndsSequence inBlock c.peek.kind := by
  rw [EndsSequence, ← hc.rest_eq_nil, Cursor.atEnd]
  simp only [Bool.or_eq_true, List.isEmpty_iff, Bool.and_eq_true, beq_iff_eq]

theorem AllSentences.cons_begins {p : Part} {parts : List Part} {c d : Cursor}
    (h : AllSentences (p :: parts)) (hpast : c.Past (Part.allTokens (p :: parts)) d) :
    beginsSentence c.peek.kind = true := by
  obtain ⟨t, rest, ht, hb⟩ := (h p List.mem_cons_self).begins
  rw [Part.allTokens_cons, ht] at hpast
  rw [peek_eq (past_cons.mp hpast).1]
  exact hb

/-- Neither further declarations nor the end of them begin with an else. -/
theorem AllSentences.ne_else {inBlock : Bool} {parts : List Part} {c d : Cursor}
    (h : AllSentences parts) (hpast : c.Past (Part.allTokens parts) d)
    (hend : EndsSequence inBlock d.peek.kind) : c.peek.kind ≠ .elseWord := by
  cases parts with
  | nil =>
    obtain rfl := past_nil.mp hpast
    exact hend.ne_else
  | cons p parts => exact beginsSentence_ne_else (h.cons_begins hpast)

/-- Declarations one behind the other, up to where a sequence of them ends. -/
def SequenceWithin (inBlock : Bool) (room : Nat) (ts : List Token) (statements : List Stmt)
    (next : Kind) : Prop :=
  (∃ n, Program ts statements n ∧ n ≤ room) ∧ EndsSequence inBlock next

section
variable {inBlock : Bool} {room : Nat} {p : Parser Stmt}

/-- What the loop reads is a program. -/
theorem program_of_sequence (h : Recognizes p (SentenceWithin .declaration room))
    (bound : List Token) {c d : Cursor} {ss : List Stmt} (hc : c.Proper)
    (hlen : c.rest.length ≤ bound.length)
    (hr : Reads (sequence inBlock (recovering inBlock p) bound) c ss d) :
    ∃ ts, c.Past ts d ∧ SequenceWithin inBlock room ts ss d.peek.kind := by
  induction bound generalizing c ss with
  | nil =>
    obtain ⟨rfl, rfl⟩ := reads_pure.mp hr
    have hend := hc.rest_eq_nil.mp (List.length_eq_zero_iff.mp (Nat.le_zero.mp hlen))
    exact ⟨[], past_nil.mpr rfl, ⟨0, ⟨[], nofun, rfl, rfl, rfl⟩, Nat.zero_le _⟩, .inl hend⟩
  | cons _ bound ih =>
    rw [sequence, reads_atEnd_bind, reads_peek_bind] at hr
    split at hr
    next hstop =>
      obtain ⟨rfl, rfl⟩ := reads_pure.mp hr
      exact ⟨[], past_nil.mpr rfl, ⟨0, ⟨[], nofun, rfl, rfl, rfl⟩, Nat.zero_le _⟩,
        (endsSequence_iff hc).mp hstop⟩
    next =>
      obtain ⟨o, m, hone, hr⟩ := reads_bind.mp hr
      obtain ⟨s, rfl, hs⟩ := reads_recovering.mp hone
      obtain ⟨more, k, hmore, hr⟩ := reads_bind.mp hr
      obtain ⟨rfl, rfl⟩ := reads_pure.mp hr
      obtain ⟨ts, hts, ⟨n, hsent, hn⟩, _⟩ := (h _ _ _ hc).mp hs
      obtain ⟨t, rest, rfl, _⟩ := hsent.begins
      have hshorter := congrArg List.length hts.rest
      simp only [List.length_append, List.length_cons] at hshorter hlen
      obtain ⟨_, hus, ⟨_, ⟨parts, hparts, rfl, rfl, rfl⟩, hdepth⟩, hend⟩ :=
        ih (hc.past hts) (by omega) hmore
      exact ⟨_, past_append.mpr ⟨m, hts, hus⟩,
        ⟨_, ⟨⟨t :: rest, s, n⟩ :: parts, List.forall_mem_cons.mpr ⟨hsent, hparts⟩, rfl, rfl, rfl⟩,
          Nat.max_le.mpr ⟨hn, hdepth⟩⟩, hend⟩

/-- The loop reads declarations that stand one behind the other. -/
theorem sequence_of_parts (h : Recognizes p (SentenceWithin .declaration room))
    (parts : List Part) {bound : List Token} {c d : Cursor} (hc : c.Proper)
    (hlen : c.rest.length ≤ bound.length) (hparts : AllSentences parts)
    (hdepth : Part.depth parts ≤ room) (hpast : c.Past (Part.allTokens parts) d)
    (hend : EndsSequence inBlock d.peek.kind) :
    Reads (sequence inBlock (recovering inBlock p) bound) c (parts.map Part.statement) d := by
  induction parts generalizing bound c with
  | nil =>
    obtain rfl := past_nil.mp hpast
    cases bound with
    | nil => exact reads_pure.mpr ⟨rfl, rfl⟩
    | cons _ bound =>
      rw [sequence, reads_atEnd_bind, reads_peek_bind, if_pos ((endsSequence_iff hc).mpr hend)]
      exact reads_pure.mpr ⟨rfl, rfl⟩
  | cons part parts ih =>
    have hbegins := hparts.cons_begins hpast
    obtain ⟨hsent, hparts⟩ := List.forall_mem_cons.mp hparts
    obtain ⟨hn, hdepth⟩ := Nat.max_le.mp hdepth
    rw [Part.allTokens_cons] at hpast
    obtain ⟨m, hts, hus⟩ := past_append.mp hpast
    obtain ⟨t, rest, ht, _⟩ := hsent.begins
    have hshorter := congrArg List.length hts.rest
    simp only [ht, List.length_append, List.length_cons] at hshorter
    cases bound with
    | nil =>
      simp only [List.length_nil] at hlen
      omega
    | cons _ bound =>
      have hgo : ¬ EndsSequence inBlock c.peek.kind := fun hstop => by
        rw [hstop.not_begins] at hbegins
        cases hbegins
      simp only [List.length_cons] at hlen
      have hone := (h _ _ _ hc).mpr
        ⟨part.tokens, hts, ⟨_, hsent, hn⟩, closed_of_ne (AllSentences.ne_else hparts hus hend)⟩
      have hleft : m.rest.length ≤ bound.length := by omega
      have hmore := ih (hc.past hts) hleft hparts hdepth hus
      rw [sequence, reads_atEnd_bind, reads_peek_bind, if_neg (mt (endsSequence_iff hc).mp hgo),
        reads_bind]
      exact ⟨_, m, reads_recovering.mpr ⟨_, rfl, hone⟩,
        reads_bind.mpr ⟨_, d, hmore, reads_pure.mpr ⟨rfl, rfl⟩⟩⟩

/-- A sequence of declarations is what its loop reads. -/
theorem recognizes_sequence (h : Recognizes p (SentenceWithin .declaration room)) :
    Recognizes (do sequence inBlock (recovering inBlock p) (← unread))
      (SequenceWithin inBlock room) := by
  intro c ss d hc
  rw [reads_unread_bind]
  constructor
  · exact program_of_sequence h _ hc (Nat.le_refl _)
  · intro h
    obtain ⟨_, hpast, ⟨_, ⟨parts, hparts, rfl, rfl, rfl⟩, hdepth⟩, hend⟩ := h
    exact sequence_of_parts h parts hc (Nat.le_refl _) hparts hdepth hpast hend

end

/-! ### Levels -/

theorem recognizes_body (room : Nat) (t : Token) :
    Recognizes ((body room).branch t) (BranchInside room) ∧
      Recognizes ((body room).block t) (BlockInside room) := by
  induction room generalizing t with
  | zero =>
    constructor <;> exact fun c e d _ => ⟨fun hr => absurd hr.outcome nofun,
      fun ⟨_, _, ⟨_, _, hn⟩, _⟩ => absurd hn (Nat.not_lt_zero _)⟩
  | succ room ih =>
    have he := recognizes_room room
    have hb := fun t => (ih t).1
    have hblock := fun t => (ih t).2
    have hbranch : BranchInside (room + 1) = SentenceWithin .statement room := by
      funext ts s next
      simp only [BranchInside, SentenceWithin, Nat.lt_succ_iff]
    have hinside : BlockInside (room + 1) = SequenceWithin true room := by
      funext ts s next
      simp only [BlockInside, SequenceWithin, Nat.lt_succ_iff]
    rw [hbranch, hinside]
    exact ⟨recognizes_statement he hb hblock,
      recognizes_sequence (recognizes_declaration he hb hblock)⟩

/-- **Parsing declarations is exact**: it reads the programs of the grammar that are not nested
deeper than there is room, up to the end of the tokens. -/
theorem recognizes_program (room : Nat) :
    Recognizes (program room) (SequenceWithin false room) :=
  recognizes_sequence (recognizes_declaration (recognizes_room room)
    (fun t => (recognizes_body room t).1) fun t => (recognizes_body room t).2)

end Scriptlet
