import Scriptlet.Parse.Statement
import Scriptlet.Proofs.Parsing.Expressions

/-! Parsing chains of ifs is exact.

A statement that ends with an if without an else cannot stand before an else: the
else would have been read as its own. That is the only thing that what follows a
statement decides. The arms of a chain are read in a loop, and the induction is on
the tokens that bound the loop: each arm reads some of them. -/
namespace Scriptlet

open Scriptlet.Parser Scriptlet.Cursor

/-! ### What may follow -/

/-- Whether an else behind the statement would not be its own. -/
def Closed (s : Stmt) (next : Kind) : Prop :=
  EndsOpen s → next ≠ .elseWord

theorem closed_of_ne {s : Stmt} {next : Kind} (h : next ≠ .elseWord) : Closed s next :=
  fun _ => h

theorem closed_branch {e : Expr} {yes no : Stmt} {next : Kind} :
    Closed (.branch e yes (some no)) next ↔ Closed no next :=
  ⟨fun h hopen => h (.last hopen), fun h hopen => by cases hopen with | last hopen => exact h hopen⟩

/-- The sentences with at most the given nesting, where they stop. -/
def SentenceWithin (clause : Clause) (room : Nat) (ts : List Token) (s : Stmt) (next : Kind) :
    Prop :=
  (∃ n, Sentence clause ts s n ∧ n ≤ room) ∧ Closed s next

/-- A statement nested one level further in. -/
def BranchInside (room : Nat) (ts : List Token) (s : Stmt) (next : Kind) : Prop :=
  (∃ n, Sentence .statement ts s n ∧ n < room) ∧ Closed s next

/-! ### Arms -/

section
variable {room : Nat} {expr : Parser Expr} {body : Body} {more : Parser Stmt} {c d : Cursor}
  {s : Stmt}

/-- The condition and the branch of an arm, in front of what reads the rest of it. -/
theorem reads_arm (he : Recognizes expr (Within .expression room))
    (hb : ∀ t, Recognizes (body.branch t) (BranchInside room)) {fault : Fault} (hc : c.Proper) :
    Reads (do
      let _ ← expect .leftParen fault
      arm expr body more) c s d ↔
    ∃ opening cs e k closing ys yes m b, opening.kind = .leftParen ∧
      Phrase .expression cs e k ∧ k ≤ room ∧ closing.kind = .rightParen ∧
      Sentence .statement ys yes m ∧ m < room ∧ Closed yes b.peek.kind ∧
      c.Past (opening :: (cs ++ closing :: ys)) b ∧ Reads (otherwise body more e yes) b s d := by
  unfold arm
  rw [reads_expect_bind]
  constructor
  · intro ⟨ho, h⟩
    have hopen := hc.past_peek (by rw [ho]; decide)
    obtain ⟨e, m, hcond, h⟩ := reads_bind.mp h
    obtain ⟨cs, hcs, ⟨k, hphrase, hk⟩, _⟩ := (he _ _ _ (hc.past hopen)).mp hcond
    have hm := (hc.past hopen).past hcs
    obtain ⟨hcl, h⟩ := reads_expect_bind.mp h
    have hclose := hm.past_peek (by rw [hcl]; decide)
    obtain ⟨yes, b, hyes, h⟩ := reads_bind.mp h
    obtain ⟨ys, hys, ⟨l, hthen, hl⟩, hclosed⟩ :=
      (hb _ _ _ _ (hm.past hclose)).mp (reads_inward.mp hyes)
    exact ⟨_, cs, e, k, _, ys, yes, l, b, ho, hphrase, hk, hcl, hthen, hl, hclosed,
      past_cons.mpr ⟨hopen.rest, past_append.mpr ⟨m, hcs, past_cons.mpr ⟨hclose.rest, hys⟩⟩⟩, h⟩
  · intro ⟨opening, cs, e, k, closing, ys, yes, l, b, ho, hphrase, hk, hcl, hthen, hl, hclosed,
      hpast, h⟩
    obtain ⟨hopen, hpast⟩ := past_cons.mp hpast
    obtain ⟨m, hcs, hpast⟩ := past_append.mp hpast
    obtain ⟨hclose, hys⟩ := past_cons.mp hpast
    have hco := hc.past (past_cons.mpr ⟨hopen, past_nil.mpr rfl⟩)
    have hcm := (hco.past hcs).past (past_cons.mpr ⟨hclose, past_nil.mpr rfl⟩)
    refine ⟨by rw [peek_eq hopen, ho], reads_bind.mpr ⟨e, m, ?_, reads_expect_bind.mpr
      ⟨by rw [peek_eq hclose, hcl], reads_bind.mpr ⟨yes, b, reads_inward.mpr ?_, h⟩⟩⟩⟩
    · exact (he _ _ _ hco).mpr
        ⟨cs, hcs, ⟨k, hphrase, hk⟩, stops_expression (.inl (by rw [peek_eq hclose, hcl]))⟩
    · exact (hb _ _ _ _ hcm).mpr ⟨ys, hys, ⟨l, hthen, hl⟩, hclosed⟩

/-- A statement behind an else, which is nested less if it is the next arm. -/
def ElseWithin (room : Nat) (ts : List Token) (no : Stmt) (next : Kind) : Prop :=
  (∃ n, Sentence .statement ts no n ∧ elseNesting n no ≤ room) ∧ Closed no next

/-- Whether a parser reads the arms that follow, where there is an if. -/
def ReadsArms (room : Nat) (more : Parser Stmt) (c : Cursor) : Prop :=
  ∀ no d, c.peek.kind = .ifWord → (Reads more c.advance no d ↔
    ∃ ts, c.advance.Past ts d ∧ SentenceWithin .statement room (c.peek :: ts) no d.peek.kind)

/-- An else is followed by the arms that follow if there is an if, and by a branch if not. -/
theorem reads_elseArm (hb : ∀ t, Recognizes (body.branch t) (BranchInside room))
    (hmore : ReadsArms room more c) {e : Expr} {yes : Stmt} {t : Token} (hc : c.Proper) :
    Reads (elseArm body more e yes t) c s d ↔
      ∃ no, s = .branch e yes (some no) ∧
        ∃ ns, c.Past ns d ∧ ElseWithin room ns no d.peek.kind := by
  unfold elseArm
  rw [reads_peek_bind]
  split
  case isTrue hif =>
    rw [reads_skip_bind, reads_bind]
    constructor
    · intro ⟨no, r, hno, h⟩
      obtain ⟨rfl, rfl⟩ := reads_pure.mp h
      obtain ⟨ts, hts, ⟨n, hsent, hn⟩, hclosed⟩ := (hmore _ _ hif).mp hno
      obtain ⟨_, _, _, rfl⟩ := (hsent.branch_iff rfl).mp hif
      have hnext := hc.rest_eq (by rw [hif]; decide)
      exact ⟨_, rfl, _, past_cons.mpr ⟨hnext, hts⟩, ⟨n, hsent, hn⟩, hclosed⟩
    · intro ⟨no, hs, ns, hns, ⟨n, hsent, hn⟩, hclosed⟩
      obtain ⟨next, rest, rfl, _⟩ := hsent.begins
      obtain ⟨hnext, hrest⟩ := past_cons.mp hns
      rw [← peek_eq hnext] at hsent
      obtain ⟨_, _, _, rfl⟩ := (hsent.branch_iff rfl).mp hif
      exact ⟨_, d, (hmore _ _ hif).mpr ⟨rest, hrest, ⟨n, hsent, hn⟩, hclosed⟩,
        reads_pure.mpr ⟨hs, rfl⟩⟩
  case isFalse hif =>
    rw [reads_bind]
    constructor
    · intro ⟨no, r, hno, h⟩
      obtain ⟨rfl, rfl⟩ := reads_pure.mp h
      obtain ⟨ns, hns, ⟨n, hsent, hn⟩, hclosed⟩ := (hb _ _ _ _ hc).mp (reads_inward.mp hno)
      exact ⟨no, rfl, ns, hns, ⟨n, hsent, elseNesting_le hn⟩, hclosed⟩
    · intro ⟨no, hs, ns, hns, ⟨n, hsent, hn⟩, hclosed⟩
      obtain ⟨next, rest, rfl, _⟩ := hsent.begins
      rw [peek_eq (past_cons.mp hns).1] at hif
      have hn : n < room := elseNesting_lt (mt (hsent.branch_iff rfl).mpr hif) hn
      have hno := (hb t _ _ _ hc).mpr ⟨_, hns, ⟨n, hsent, hn⟩, hclosed⟩
      exact ⟨no, d, reads_inward.mpr hno, reads_pure.mpr ⟨hs, rfl⟩⟩

/-- Behind the branch of an arm the chain ends, or there is an else. -/
theorem reads_otherwise (hb : ∀ t, Recognizes (body.branch t) (BranchInside room))
    (hmore : ReadsArms room more c.advance) {e : Expr} {yes : Stmt} (hc : c.Proper) :
    Reads (otherwise body more e yes) c s d ↔
      (s = .branch e yes none ∧ d = c ∧ c.peek.kind ≠ .elseWord) ∨
      ∃ no, s = .branch e yes (some no) ∧ ∃ other ns, other.kind = .elseWord ∧
        c.Past (other :: ns) d ∧ ElseWithin room ns no d.peek.kind := by
  unfold otherwise
  rw [reads_peek_bind]
  split
  case isTrue helse =>
    have hother := hc.past_peek (by rw [helse]; decide)
    rw [reads_skip_bind, reads_elseArm hb hmore (hc.past hother)]
    constructor
    · intro ⟨no, hs, ns, hns, hwithin⟩
      exact .inr ⟨no, hs, _, ns, helse, past_cons.mpr ⟨hother.rest, hns⟩, hwithin⟩
    · intro h
      rcases h with ⟨_, _, hnot⟩ | ⟨no, hs, other, ns, _, hns, hwithin⟩
      · exact absurd helse hnot
      · exact ⟨no, hs, ns, (past_cons.mp hns).2, hwithin⟩
  case isFalse helse =>
    rw [reads_pure]
    constructor
    · exact fun ⟨hs, hd⟩ => .inl ⟨hs, hd, helse⟩
    · intro h
      rcases h with ⟨hs, hd, _⟩ | ⟨no, _, other, ns, hother, hns, _⟩
      · exact ⟨hs, hd⟩
      · rw [peek_eq (past_cons.mp hns).1] at helse
        exact absurd hother helse

/-! ### Chains -/

theorem past_arm {opening closing : Token} {cs ys ns : List Token} :
    Past (opening :: (cs ++ closing :: (ys ++ ns))) c d ↔
      ∃ b, Past (opening :: (cs ++ closing :: ys)) c b ∧ Past ns b d := by
  have happend : opening :: (cs ++ closing :: (ys ++ ns)) =
      (opening :: (cs ++ closing :: ys)) ++ ns := by
    simp only [List.cons_append, List.append_assoc]
  rw [happend, past_append]

/-- A chain of ifs is what its loop reads, behind the first keyword. -/
theorem reads_ifChain (he : Recognizes expr (Within .expression room))
    (hb : ∀ t, Recognizes (body.branch t) (BranchInside room)) (bound : List Token)
    {word : Token} (hword : word.kind = .ifWord) (hc : c.Proper)
    (hlen : c.rest.length ≤ bound.length) :
    Reads (ifChain expr body bound) c s d ↔
      ∃ ts, c.Past ts d ∧ SentenceWithin .statement room (word :: ts) s d.peek.kind := by
  induction bound generalizing word c d s with
  | nil =>
    constructor
    · intro h
      rw [ifChain, reads_peek_bind] at h
      exact absurd h not_reads_refuse
    · intro ⟨ts, hts, ⟨n, hs, _⟩, _⟩
      have hrest := hts.rest
      rw [List.length_eq_zero_iff.mp (Nat.le_zero.mp hlen)] at hrest
      obtain ⟨rfl, _⟩ := List.append_eq_nil_iff.mp hrest.symm
      obtain ⟨_, _, _, _, _, _, _, _, _, _, _, _, ⟨h, _⟩ | ⟨_, _, _, _, _, _, _, h, _⟩⟩ :=
        hs.of_if hword <;> cases h
  | cons _ bound ih =>
    have harms {opening closing : Token} {cs ys : List Token} {b : Cursor}
        (hpast : c.Past (opening :: (cs ++ closing :: ys)) b) :
        ReadsArms room (ifChain expr body bound) b.advance := by
      intro no d' hif
      have hshorter := congrArg List.length hpast.rest
      simp only [List.length_append, List.length_cons] at hshorter hlen
      refine ih hif (hc.past hpast).advance.advance ?_
      simp only [rest_advance, List.length_tail]
      omega
    rw [ifChain, reads_arm he hb hc]
    constructor
    · intro ⟨opening, cs, e, k, closing, ys, yes, m, b, ho, hphrase, hk, hcl, hthen, hm, hclosed,
        hpast, h⟩
      rcases (reads_otherwise hb (harms hpast) (hc.past hpast)).mp h with
        ⟨rfl, rfl, hnext⟩ | ⟨no, rfl, other, ns, helse, hns, ⟨n, hsent, hn⟩, hlast⟩
      · exact ⟨_, hpast, ⟨_, .ifThen hword ho hphrase hcl hthen, Nat.max_le.mpr ⟨hk, hm⟩⟩,
          closed_of_ne hnext⟩
      · have hnot : ¬ EndsOpen yes := fun hopen =>
          hclosed hopen (by rw [peek_eq (past_cons.mp hns).1, helse])
        exact ⟨_, past_arm.mpr ⟨b, hpast, hns⟩,
          ⟨_, .ifElse hword ho hphrase hcl hthen hnot helse hsent,
            Nat.max_le.mpr ⟨hk, Nat.max_le.mpr ⟨hm, hn⟩⟩⟩, closed_branch.mpr hlast⟩
    · intro ⟨ts, hts, ⟨n, hs, hn⟩, hclosed⟩
      obtain ⟨opening, cs, e, k, closing, ys, yes, m, ho, hphrase, hcl, hthen,
        ⟨rfl, rfl, rfl⟩ | ⟨other, ns, no, l, hnot, helse, hsent, rfl, rfl, rfl⟩⟩ := hs.of_if hword
      · obtain ⟨hk, hm⟩ := Nat.max_le.mp hn
        have hnext : d.peek.kind ≠ .elseWord := hclosed .bare
        exact ⟨opening, cs, e, k, closing, ys, yes, m, d, ho, hphrase, hk, hcl, hthen, hm,
          closed_of_ne hnext, hts,
          (reads_otherwise hb (harms hts) (hc.past hts)).mpr (.inl ⟨rfl, rfl, hnext⟩)⟩
      · obtain ⟨hk, hn⟩ := Nat.max_le.mp hn
        obtain ⟨hm, hl⟩ := Nat.max_le.mp hn
        obtain ⟨b, hpast, hns⟩ := past_arm.mp hts
        refine ⟨opening, cs, e, k, closing, ys, yes, m, b, ho, hphrase, hk, hcl, hthen, hm,
          fun hopen => absurd hopen hnot, hpast,
          (reads_otherwise hb (harms hpast) (hc.past hpast)).mpr (.inr ?_)⟩
        exact ⟨no, rfl, other, ns, helse, hns, ⟨l, hsent, hl⟩, closed_branch.mp hclosed⟩

end

end Scriptlet
