import Scriptlet.Proofs.Parsing.Chains

/-! Parsing statements is exact.

Most statements begin with a keyword of their own, and what is behind the keyword
is read by a parser of its own: `Behind` says what that is. The first token of a
sentence decides which of them it is, so that `recognizes_statement` has one case
for each first token, the same way round for both directions. -/
namespace Scriptlet

open Scriptlet.Parser Scriptlet.Cursor

/-! ### What is behind a keyword -/

/-- The rest of a sentence, behind its first token. -/
def Behind (clause : Clause) (room : Nat) (word : Token) (ts : List Token) (s : Stmt)
    (next : Kind) : Prop :=
  SentenceWithin clause room (word :: ts) s next

/-- The kinds of token that end a sequence of declarations. -/
def EndsSequence (inBlock : Bool) (kind : Kind) : Prop :=
  kind = .eof ∨ (inBlock = true ∧ kind = .rightBrace)

/-- The declarations of a block, nested one level further in, up to where it ends. -/
def BlockInside (room : Nat) (ts : List Token) (statements : List Stmt) (next : Kind) : Prop :=
  (∃ n, Program ts statements n ∧ n < room) ∧ EndsSequence true next

section
variable {room : Nat} {expr : Parser Expr} {body : Body} {clause : Clause} {c d : Cursor}

theorem Sentence.begins_at {ts : List Token} {s : Stmt} {n : Nat} (h : Sentence clause ts s n)
    (hts : c.Past ts d) : beginsSentence c.peek.kind = true := by
  obtain ⟨first, rest, rfl, hbegins⟩ := h.begins
  rwa [peek_eq (past_cons.mp hts).1]

/-- A keyword, and behind it the rest of the sentence. -/
theorem reads_behind {p : Parser Stmt} {s : Stmt} (hc : c.Proper) (hk : c.peek.kind ≠ .eof)
    (h : Reads p c.advance s d ↔
      ∃ ts, c.advance.Past ts d ∧ Behind clause room c.peek ts s d.peek.kind) :
    Reads (skip >>= fun _ => p) c s d ↔
      ∃ ts, c.Past ts d ∧ SentenceWithin clause room ts s d.peek.kind := by
  rw [reads_skip_bind, h]
  constructor
  · exact fun ⟨ts, hts, hs⟩ => ⟨_, past_cons.mpr ⟨hc.rest_eq hk, hts⟩, hs⟩
  · intro ⟨ts, hts, ⟨n, hs, hn⟩, hclosed⟩
    obtain ⟨first, rest, rfl, _⟩ := hs.begins
    obtain ⟨hfirst, hrest⟩ := past_cons.mp hts
    rw [← peek_eq hfirst] at hs
    exact ⟨rest, hrest, ⟨n, hs, hn⟩, hclosed⟩

theorem reads_semicolon_bind {α : Type} {p : Parser α} {after : Construct} {c d : Cursor} {a : α} :
    Reads (semicolon after >>= fun _ => p) c a d ↔
      c.peek.kind = .semicolon ∧ Reads p c.advance a d := by
  unfold semicolon
  rw [bind_assoc, reads_expect_bind]
  simp only [pure_bind]

/-- An expression with the semicolon that ends it, in front of what makes a sentence of it. -/
theorem reads_ended {α : Type} (he : Recognizes expr (Within .expression room)) {after : Construct}
    {f : Expr → α} {c d : Cursor} {a : α} (hc : c.Proper) :
    Reads (do
      let e ← expr
      semicolon after
      return f e) c a d ↔
    ∃ ts e n last, c.Past (ts ++ [last]) d ∧ Phrase .expression ts e n ∧ n ≤ room ∧
      last.kind = .semicolon ∧ a = f e := by
  rw [reads_bind]
  constructor
  · intro ⟨e, m, hexpr, h⟩
    obtain ⟨ts, hts, ⟨n, hphrase, hn⟩, _⟩ := (he _ _ _ hc).mp hexpr
    obtain ⟨hk, h⟩ := reads_semicolon_bind.mp h
    obtain ⟨rfl, rfl⟩ := reads_pure.mp h
    have hlast := (hc.past hts).past_peek (by rw [hk]; decide)
    exact ⟨ts, e, n, _, past_append.mpr ⟨m, hts, hlast⟩, hphrase, hn, hk, rfl⟩
  · intro h
    obtain ⟨ts, e, n, last, hpast, hphrase, hn, hk, rfl⟩ := h
    obtain ⟨m, hts, hlast⟩ := past_append.mp hpast
    obtain ⟨hrest, hend⟩ := past_cons.mp hlast
    obtain rfl := past_nil.mp hend
    have hsemicolon : m.peek.kind = .semicolon := by rw [peek_eq hrest, hk]
    exact ⟨e, m, (he _ _ _ hc).mpr ⟨ts, hts, ⟨n, hphrase, hn⟩, stops_expression (.inr hsemicolon)⟩,
      reads_semicolon_bind.mpr ⟨hsemicolon, reads_pure.mpr ⟨rfl, rfl⟩⟩⟩

/-- The rest of a print statement. -/
theorem recognizes_print (he : Recognizes expr (Within .expression room)) {word : Token}
    (hword : word.kind = .printWord) :
    Recognizes (do
      let e ← expr
      semicolon .value
      return .print e) (Behind .statement room word) := by
  intro c s d hc
  rw [reads_ended he hc]
  constructor
  · intro ⟨ts, e, n, last, hpast, hphrase, hn, hlast, hs⟩
    subst hs
    exact ⟨_, hpast, ⟨n, .print hword hphrase hlast, hn⟩, nofun⟩
  · intro ⟨ts, hpast, ⟨n, hs, hn⟩, _⟩
    obtain ⟨us, e, last, hphrase, hlast, rfl, rfl⟩ := hs.of_print hword
    exact ⟨us, e, n, last, hpast, hphrase, hn, hlast, rfl⟩

/-- The rest of a block. -/
theorem recognizes_block (hblock : ∀ t, Recognizes (body.block t) (BlockInside room))
    {fault : Fault} {opening : Token} (hopening : opening.kind = .leftBrace) :
    Recognizes (do
      let statements ← inward 3 (body.block opening)
      let _ ← expect .rightBrace fault
      return .block statements) (Behind .statement room opening) := by
  intro c s d hc
  rw [reads_bind]
  constructor
  · intro ⟨statements, m, hinner, h⟩
    obtain ⟨hclose, h⟩ := reads_expect_bind.mp h
    obtain ⟨rfl, rfl⟩ := reads_pure.mp h
    obtain ⟨_, hts, ⟨_, ⟨parts, hparts, rfl, rfl, rfl⟩, hn⟩, _⟩ :=
      (hblock _ _ _ _ hc).mp (reads_inward.mp hinner)
    have hend := (hc.past hts).past_peek (by rw [hclose]; decide)
    exact ⟨_, past_append.mpr ⟨m, hts, hend⟩, ⟨_, .block hopening hparts hclose, hn⟩, nofun⟩
  · intro ⟨ts, hpast, ⟨n, hs, hn⟩, _⟩
    obtain ⟨us, statements, l, closing, hprogram, hclose, rfl, rfl, rfl⟩ := hs.of_block hopening
    obtain ⟨m, hts, hend⟩ := past_append.mp hpast
    obtain ⟨hlast, hend⟩ := past_cons.mp hend
    obtain rfl := past_nil.mp hend
    have hbrace : m.peek.kind = .rightBrace := by rw [peek_eq hlast, hclose]
    have hinner := (hblock opening _ _ _ hc).mpr ⟨us, hts, ⟨l, hprogram, hn⟩, .inr ⟨rfl, hbrace⟩⟩
    exact ⟨statements, m, reads_inward.mpr hinner,
      reads_expect_bind.mpr ⟨hbrace, reads_pure.mpr ⟨rfl, rfl⟩⟩⟩

/-- The rest of the declaration of a variable. -/
theorem recognizes_variable (he : Recognizes expr (Within .expression room)) {word : Token}
    (hword : word.kind = .letWord) :
    Recognizes (variableWith expr) (Behind .declaration room word) := by
  intro c s d hc
  unfold variableWith
  rw [reads_expect_bind]
  constructor
  · intro ⟨hname, h⟩
    have hfirst := hc.past_peek (by rw [hname]; decide)
    rw [reads_peek_bind] at h
    split at h
    case isTrue hequal =>
      have hsecond := (hc.past hfirst).past_peek (by rw [hequal]; decide)
      rw [reads_skip_bind, reads_ended he ((hc.past hfirst).past hsecond)] at h
      obtain ⟨ts, e, n, last, hpast, hphrase, hn, hlast, rfl⟩ := h
      exact ⟨_, past_cons.mpr ⟨hfirst.rest, past_cons.mpr ⟨hsecond.rest, hpast⟩⟩,
        ⟨n, .define hword hname hequal hphrase hlast, hn⟩, nofun⟩
    case isFalse =>
      obtain ⟨hlast, h⟩ := reads_semicolon_bind.mp h
      obtain ⟨rfl, rfl⟩ := reads_pure.mp h
      have hend := (hc.past hfirst).past_peek (by rw [hlast]; decide)
      exact ⟨_, past_cons.mpr ⟨hfirst.rest, hend⟩,
        ⟨0, .declare hword hname hlast, Nat.zero_le _⟩, nofun⟩
  · intro ⟨ts, hpast, ⟨n, hs, hn⟩, _⟩
    obtain ⟨name, hname, ⟨last, hlast, rfl, rfl⟩ |
      ⟨equal, us, e, last, hequal, hphrase, hlast, rfl, rfl⟩⟩ := hs.of_let hword
    · obtain ⟨hfirst, hpast⟩ := past_cons.mp hpast
      obtain ⟨hsecond, hend⟩ := past_cons.mp hpast
      obtain rfl := past_nil.mp hend
      rw [reads_peek_bind, peek_eq hfirst, peek_eq hsecond, if_neg (by rw [hlast]; decide)]
      exact ⟨hname, reads_semicolon_bind.mpr
        ⟨by rw [peek_eq hsecond, hlast], reads_pure.mpr ⟨rfl, rfl⟩⟩⟩
    · obtain ⟨hfirst, hpast⟩ := past_cons.mp hpast
      obtain ⟨hsecond, hpast⟩ := past_cons.mp hpast
      have hco := hc.past (past_cons.mpr ⟨hfirst, past_cons.mpr ⟨hsecond, past_nil.mpr rfl⟩⟩)
      rw [reads_peek_bind, peek_eq hfirst, peek_eq hsecond, if_pos hequal, reads_skip_bind]
      exact ⟨hname, (reads_ended he hco).mpr ⟨us, e, n, last, hpast, hphrase, hn, hlast, rfl⟩⟩

/-! ### By the first token -/

theorem recognizes_statement (he : Recognizes expr (Within .expression room))
    (hb : ∀ t, Recognizes (body.branch t) (BranchInside room))
    (hblock : ∀ t, Recognizes (body.block t) (BlockInside room)) :
    Recognizes (statementWith expr body) (SentenceWithin .statement room) := by
  intro c s d hc
  have ha := hc.advance
  unfold statementWith
  rw [reads_peek_bind]
  split
  case h_1 hk | h_2 hk | h_3 hk =>
    refine ⟨fun h => absurd h not_reads_refuse, fun ⟨ts, hts, ⟨n, hs, _⟩, _⟩ => ?_⟩
    have hbegins := hs.begins_at hts
    rw [hk] at hbegins
    exact absurd hbegins (by decide)
  case h_4 hk => exact reads_behind hc (by rw [hk]; decide) (recognizes_block hblock hk _ _ _ ha)
  case h_5 hk => exact reads_behind hc (by rw [hk]; decide) (recognizes_print he hk _ _ _ ha)
  case h_6 hk =>
    refine reads_behind hc (by rw [hk]; decide) ?_
    rw [reads_unread_bind]
    exact reads_ifChain he hb _ hk ha (Nat.le_refl _)
  case h_7 hblock hprint hif =>
    rw [reads_ended he hc]
    constructor
    · intro ⟨ts, e, n, last, hpast, hphrase, hn, hlast, hs⟩
      subst hs
      exact ⟨_, hpast, ⟨n, .expression hphrase hlast, hn⟩, nofun⟩
    · intro ⟨ts, hpast, ⟨n, hs, hn⟩, _⟩
      obtain ⟨first, rest, rfl, _⟩ := hs.begins
      rw [peek_eq (past_cons.mp hpast).1] at hblock hprint hif
      obtain ⟨us, e, last, hphrase, hlast, htokens, rfl⟩ := hs.of_phrase hprint hblock hif
      rw [htokens] at hpast
      exact ⟨us, e, n, last, hpast, hphrase, hn, hlast, rfl⟩

theorem recognizes_declaration (he : Recognizes expr (Within .expression room))
    (hb : ∀ t, Recognizes (body.branch t) (BranchInside room))
    (hblock : ∀ t, Recognizes (body.block t) (BlockInside room)) :
    Recognizes (declarationWith expr body) (SentenceWithin .declaration room) := by
  intro c s d hc
  unfold declarationWith
  rw [reads_peek_bind]
  split
  case isTrue hk =>
    exact reads_behind hc (by rw [hk]; decide) (recognizes_variable he hk _ _ _ hc.advance)
  case isFalse hk =>
    rw [recognizes_statement he hb hblock _ _ _ hc]
    constructor
    · exact fun ⟨ts, hts, ⟨n, hs, hn⟩, hclosed⟩ => ⟨ts, hts, ⟨n, .statement hs, hn⟩, hclosed⟩
    · intro ⟨ts, hts, ⟨n, hs, hn⟩, hclosed⟩
      cases hs with
      | declare hword | define hword =>
        rw [peek_eq (past_cons.mp hts).1] at hk
        exact absurd hword hk
      | statement hs => exact ⟨ts, hts, ⟨n, hs, hn⟩, hclosed⟩

end

end Scriptlet
