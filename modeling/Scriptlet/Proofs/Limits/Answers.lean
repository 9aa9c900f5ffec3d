import Scriptlet.Proofs.Limits.Runs

/-! What the parsers of sentences come to.

`Answers p c o d` says that a parser comes from one cursor to another with a result,
or that what there is between them is lost. `Parses` says it of the parsers of a
sentence, and there is one lemma for each way in which a sentence has room or has
none: it has room as a whole (`Sentence.parses`), it is a simple statement or a block
for which there is no room (`parses_tooDeep`, `parses_refused`), or it is a block or
an if with room for what it begins with (`parses_block`, `parses_ifThen`,
`parses_ifElse`). -/
namespace Scriptlet

open Scriptlet.Parser Scriptlet.Cursor

/-- Whether a statement holds no other. -/
def Stmt.isSimple : Stmt → Bool
  | .block _ | .branch .. => false
  | _ => true

/-- The room behind an else. The arms of a chain of ifs stand side by side. -/
def elseRoom (room : Nat) : Stmt → Nat
  | .branch .. => room + 1
  | _ => room

/-! ### Answers -/

/-- A parser comes to a cursor with a result, or what there is up to the cursor is lost. -/
def Answers {α : Type} (p : Parser α) (c : Cursor) (o : Option α) (d : Cursor) : Prop :=
  match o with
  | some a => Gives p c a d
  | none => Loses p c d

section
variable {α β : Type} {p q : Parser α} {c m d : Cursor} {o : Option α}

theorem answers_congr (h : p c = q c) : Answers p c o d ↔ Answers q c o d := by
  cases o with
  | some a => exact gives_congr h
  | none => exact loses_congr h

theorem answers_inward {cost : Nat} : Answers (inward cost p) c o d ↔ Answers p c o d := by
  cases o with
  | some a => exact gives_inward
  | none => exact loses_inward

theorem Answers.behind {f : β → Parser α} {q : Parser β} {b : β} {ts : List Token}
    (h : Answers (f b) m o d) (hq : Gives q c b m) (hts : c.Past ts m)
    (hlast : ∀ t ∈ ts.getLast?, t.kind ≠ .semicolon) : Answers (q >>= f) c o d := by
  cases o with
  | some a => exact gives_bind.mpr ⟨b, m, hq, h⟩
  | none => exact Loses.behind h hq hts hlast

/-- Behind a token that does not end a statement. -/
theorem Answers.skip {t : Token} (h : Answers p c.advance o d)
    (hrest : c.rest = t :: c.advance.rest) (ht : t.kind ≠ .semicolon) :
    Answers (skip >>= fun _ => p) c o d := by
  have hpassed : c.Past [t] c.advance := past_cons.mpr ⟨hrest, past_nil.mpr rfl⟩
  refine Answers.behind (f := fun _ => p) (b := ()) h ⟨rfl, rfl⟩ hpassed fun u hu => ?_
  cases hu
  exact ht

theorem Answers.expect {kind : Kind} {fault : Fault} {f : Token → Parser α} {t : Token}
    (h : Answers (f t) c.advance o d) (hrest : c.rest = t :: c.advance.rest) (ht : t.kind = kind)
    (hk : kind ≠ .semicolon) : Answers (expect kind fault >>= f) c o d := by
  have hfound := expect_found (by rw [peek_eq hrest, ht]) fault
  rw [peek_eq hrest] at hfound
  refine Answers.behind h ⟨by rw [hfound], by rw [hfound]⟩
    (past_cons.mpr ⟨hrest, past_nil.mpr rfl⟩) fun u hu => ?_
  cases hu
  exact ht ▸ hk

theorem Answers.map (h : Answers p c o d) (f : α → β) :
    Answers (p >>= fun a => pure (f a)) c (o.map f) d := by
  cases o with
  | some a => exact gives_bind.mpr ⟨a, d, h, gives_pure.mpr ⟨rfl, rfl⟩⟩
  | none => exact Loses.bind h _

end

/-! ### Sentences -/

/-- The parser of a sentence. -/
def Clause.parser (room : Nat) : Clause → Parser Stmt
  | .declaration => declarationWith (expression room) (body room)
  | .statement => statementWith (expression room) (body room)

/-- What the parsers make of a sentence, and of a chain of ifs behind its first keyword. -/
structure Parses (room : Nat) (clause : Clause) (ts : List Token) (s : Stmt) (o : Option Stmt) :
    Prop where
  whole : ∀ c d, c.Proper → c.Past ts d → Closed s d.peek.kind → Answers (clause.parser room) c o d
  arms : ∀ word rest c d (bound : List Token), clause = .statement → ts = word :: rest →
    word.kind = .ifWord → c.Proper → c.Past rest d → Closed s d.peek.kind →
    c.rest.length ≤ bound.length → Answers (ifChain (expression room) (body room) bound) c o d

section
variable {room : Nat} {clause : Clause} {ts : List Token} {s : Stmt} {n : Nat}

theorem Sentence.parses (h : Sentence clause ts s n) (hn : n ≤ room) :
    Parses room clause ts s (some s) := by
  have he := recognizes_room room
  have hb := fun t => (recognizes_body room t).1
  have hblock := fun t => (recognizes_body room t).2
  refine ⟨fun c d hc hpast hclosed => ?_, fun word rest c d bound hclause hts hword hc hpast hclosed
    hlen => ?_⟩
  · have hr : Reads (clause.parser room) c s d := by
      cases clause with
      | declaration =>
        exact (recognizes_declaration he hb hblock c s d hc).mpr ⟨ts, hpast, ⟨n, h, hn⟩, hclosed⟩
      | statement =>
        exact (recognizes_statement he hb hblock c s d hc).mpr ⟨ts, hpast, ⟨n, h, hn⟩, hclosed⟩
    exact ⟨hr.outcome, hr.cursor⟩
  · subst hclause hts
    have hr := (reads_ifChain he hb bound hword hc hlen).mpr ⟨rest, hpast, ⟨n, h, hn⟩, hclosed⟩
    exact ⟨hr.outcome, hr.cursor⟩

/-- A statement that does not begin with an if is no chain of ifs. -/
theorem parses_whole {o : Option Stmt} (hword : ∀ t ∈ ts.head?, t.kind ≠ .ifWord)
    (h : ∀ c d, c.Proper → c.Past ts d → Answers (clause.parser room) c o d) :
    Parses room clause ts s o := by
  refine ⟨fun c d hc hpast _ => h c d hc hpast, fun word rest c d bound _ hts hif => ?_⟩
  exact absurd hif (hword word (by rw [hts]; rfl))

theorem parses_declaration {o : Option Stmt} {t : Token} {rest : List Token}
    (h : Parses room .statement ts s o) (hts : ts = t :: rest) (ht : t.kind ≠ .letWord) :
    Parses room .declaration ts s o := by
  refine ⟨fun c d hc hpast hclosed => ?_, fun word rest c d bound hclause => by cases hclause⟩
  have hk : c.peek.kind ≠ .letWord := by
    rw [hts] at hpast
    rwa [peek_eq (past_cons.mp hpast).1]
  have hsame : Clause.declaration.parser room c = Clause.statement.parser room c := by
    rw [Clause.parser, declarationWith, peek_bind, if_neg hk]
    rfl
  rw [answers_congr hsame]
  exact h.whole c d hc hpast hclosed

/-- Only the declaration of a variable begins like one. -/
theorem Sentence.begins_statement (h : Sentence .statement ts s n) :
    ∃ t rest, ts = t :: rest ∧ t.kind ≠ .letWord := by
  cases h with
  | expression he =>
    obtain ⟨t, rest, rfl, hbegins⟩ := he.begins
    refine ⟨t, _, List.cons_append, fun hk => ?_⟩
    rw [hk] at hbegins
    cases hbegins
  | print hk | block hk | ifThen hk | ifElse hk => exact ⟨_, _, rfl, by rw [hk]; decide⟩

/-! ### Simple statements -/

theorem statement_print {expr : Parser Expr} {body : Body} {c : Cursor}
    (hk : c.peek.kind = .printWord) :
    statementWith expr body c =
      (skip >>= fun _ => do
        let e ← expr
        semicolon .value
        return Stmt.print e) c := by
  rw [statementWith, peek_bind]
  simp only [hk]

theorem statement_phrase {expr : Parser Expr} {body : Body} {c : Cursor}
    (hk : beginsPhrase c.peek.kind = true) :
    statementWith expr body c =
      (do
        let e ← expr
        semicolon .expression
        return Stmt.expression e) c := by
  rw [statementWith, peek_bind]
  generalize c.peek.kind = kind at hk
  cases kind <;> first | rfl | exact absurd hk (by decide)

theorem statement_tooDeep (hs : s.isSimple = true) (h : Sentence .statement ts s n)
    (hdeep : ∀ m, Sentence .statement ts s m → room < m) : Parses room .statement ts s none := by
  cases h with
  | @expression ts e n last he hlast =>
    obtain ⟨t, rest, rfl, hbegins⟩ := he.begins
    refine parses_whole (fun u hu hif => ?_) fun c d hc hpast => ?_
    · cases hu
      rw [hif] at hbegins
      cases hbegins
    · have hk := peek_eq (past_cons.mp hpast).1
      rw [Clause.parser, answers_congr (statement_phrase (by rw [hk, hbegins]))]
      exact loses_ended hc he (fun m h => hdeep m (.expression h hlast)) hlast hpast
  | @print word ts e n last hword he hlast =>
    refine parses_whole (fun u hu => ?_) fun c d hc hpast => ?_
    · cases hu
      rw [hword]
      decide
    · obtain ⟨hrest, hpast⟩ := past_cons.mp hpast
      rw [Clause.parser, answers_congr (statement_print (by rw [peek_eq hrest, hword]))]
      refine Answers.skip (o := none) ?_ hrest (by rw [hword]; decide)
      exact loses_ended hc.advance he (fun m h => hdeep m (.print hword h hlast)) hlast hpast
  | block | ifThen | ifElse => cases hs

theorem declaration_define {expr : Parser Expr} {body : Body} {c : Cursor}
    {word name equal : Token} {rest : List Token} (hrest : c.rest = word :: name :: equal :: rest)
    (hword : word.kind = .letWord) (hname : name.kind = .identifier)
    (hequal : equal.kind = .equal) :
    declarationWith expr body c =
      (skip >>= fun _ => skip >>= fun _ => skip >>= fun _ => do
        let e ← expr
        semicolon .declaration
        return Stmt.declare name.text (some e)) c := by
  have hadvance : c.advance.rest = name :: equal :: rest := by rw [rest_advance, hrest]; rfl
  have hnext : c.advance.advance.rest = equal :: rest := by rw [rest_advance, hadvance]; rfl
  rw [declarationWith, peek_bind, if_pos (by rw [peek_eq hrest, hword]), skip_bind, skip_bind,
    variableWith, expect_bind_eq, peek_bind, if_pos (by rw [peek_eq hadvance, hname]), skip_bind,
    skip_bind, peek_bind, if_pos (by rw [peek_eq hnext, hequal]), peek_eq hadvance]

/-- **A simple statement for which there is no room** is lost. -/
theorem declaration_tooDeep (hs : s.isSimple = true) (h : Sentence .declaration ts s n)
    (hdeep : ∀ m, Sentence .declaration ts s m → room < m) :
    Parses room .declaration ts s none := by
  cases h with
  | declare hword hname hlast =>
    exact absurd (hdeep 0 (.declare hword hname hlast)) (Nat.not_lt_zero _)
  | @define word name equal ts e n last hword hname hequal he hlast =>
    refine parses_whole (fun u hu => ?_) fun c d hc hpast => ?_
    · cases hu
      rw [hword]
      decide
    · rw [Clause.parser, answers_congr (declaration_define hpast.rest hword hname hequal)]
      obtain ⟨hfirst, hpast⟩ := past_cons.mp hpast
      obtain ⟨hsecond, hpast⟩ := past_cons.mp hpast
      obtain ⟨hthird, hpast⟩ := past_cons.mp hpast
      refine Answers.skip (o := none) ?_ hfirst (by rw [hword]; decide)
      refine Answers.skip (o := none) ?_ hsecond (by rw [hname]; decide)
      refine Answers.skip (o := none) ?_ hthird (by rw [hequal]; decide)
      exact loses_ended hc.advance.advance.advance he
        (fun m h => hdeep m (.define hword hname hequal h hlast)) hlast hpast
  | statement h =>
    obtain ⟨t, rest, hts, ht⟩ := h.begins_statement
    exact parses_declaration (statement_tooDeep hs h fun m h => hdeep m (.statement h)) hts ht

theorem parses_tooDeep (hs : s.isSimple = true) (h : Sentence clause ts s n)
    (hdeep : ∀ m, Sentence clause ts s m → room < m) : Parses room clause ts s none := by
  cases clause with
  | declaration => exact declaration_tooDeep hs h hdeep
  | statement => exact statement_tooDeep hs h hdeep

/-! ### Blocks -/

theorem parses_refused {parts : List Part} {opening closing : Token}
    (hopen : opening.kind = .leftBrace) (hparts : AllSentences parts)
    (hclose : closing.kind = .rightBrace) :
    Parses 0 .statement (opening :: (Part.allTokens parts ++ [closing]))
      (.block (parts.map Part.statement)) none := by
  refine parses_whole (fun u hu => ?_) fun c d hc hpast => ?_
  · cases hu
    rw [hopen]
    decide
  · exact loses_refused hopen (balanced_parts fun p hp => (hparts p hp).balanced) hclose hpast

/-- A block of which the list is trimmed. -/
theorem parses_block {parts : List Part} {kept : List Stmt} {opening closing : Token}
    (hopen : opening.kind = .leftBrace) (hclose : closing.kind = .rightBrace)
    (h : ∀ c d, c.Proper → c.Past (Part.allTokens parts) d → EndsSequence true d.peek.kind →
      Runs true (recovering true (declarationWith (expression room) (body room))) c kept d) :
    Parses (room + 1) .statement (opening :: (Part.allTokens parts ++ [closing]))
      (.block (parts.map Part.statement)) (some (.block kept)) := by
  refine parses_whole (fun u hu => ?_) fun c d hc hpast => ?_
  · cases hu
    rw [hopen]
    decide
  · obtain ⟨hrest, hpast⟩ := past_cons.mp hpast
    obtain ⟨m, hparts, hend⟩ := past_append.mp hpast
    obtain ⟨hrest', hnil⟩ := past_cons.mp hend
    have hk : m.peek.kind = .rightBrace := by rw [peek_eq hrest', hclose]
    have hruns := h c.advance m hc.advance hparts (.inr ⟨rfl, hk⟩)
    have hblock := hruns.sequence hc.advance.toDelimited
      (by rw [sequenceStops, hk]; exact Bool.or_true _)
    rw [Clause.parser, answers_congr
      ((statement_block (by rw [peek_eq hrest, hopen])).trans (skip_bind _ c).symm)]
    refine Answers.skip (o := some _) ?_ hrest (by rw [hopen]; decide)
    refine gives_bind.mpr ⟨kept, m, gives_inward.mpr ((gives_congr (block_eq room _ _)).mpr hblock),
      gives_expect_bind.mpr ⟨hk, gives_pure.mpr ⟨rfl, past_nil.mp hnil⟩⟩⟩

/-! ### Chains of ifs -/

/-- An if is a chain of ifs behind its keyword. -/
theorem parses_arms {o : Option Stmt} {word : Token} {rest : List Token}
    (hword : word.kind = .ifWord)
    (h : ∀ c d (bound : List Token), c.Proper → c.Past rest d → Closed s d.peek.kind →
      c.rest.length ≤ bound.length →
      Answers (ifChain (expression room) (body room) bound) c o d) :
    Parses room .statement (word :: rest) s o := by
  refine ⟨fun c d hc hpast hclosed => ?_, fun _ _ c d bound _ hts _ hc hpast hclosed hlen => ?_⟩
  · obtain ⟨hrest, hpast⟩ := past_cons.mp hpast
    have hif : statementWith (expression room) (body room) c =
        (skip >>= fun _ => ifChain (expression room) (body room) c.advance.rest) c := by
      rw [statementWith, peek_bind]
      have hk : c.peek.kind = .ifWord := by rw [peek_eq hrest, hword]
      simp only [hk]
      rw [skip_bind, skip_bind, unread_bind]
    rw [Clause.parser, answers_congr hif]
    exact Answers.skip (h c.advance d _ hc.advance hpast hclosed (Nat.le_refl _)) hrest
      (by rw [hword]; decide)
  · obtain ⟨rfl, rfl⟩ := List.cons.inj hts
    exact h c d bound hc hpast hclosed hlen

section
variable {c m d : Cursor} {opening closing other : Token} {cs ys ns bound : List Token} {e : Expr}
  {k : Nat} {t : Token} {yes left no : Stmt} {o : Option Stmt}

/-- The condition of an arm has room. -/
theorem answers_arm (hc : c.Proper) (hopen : opening.kind = .leftParen)
    (he : Phrase .expression cs e k) (hk : k ≤ room) (hclose : closing.kind = .rightParen)
    {body : Body} (hpast : c.Past (opening :: (cs ++ [closing])) m)
    (h : Answers (do
      let yes ← inward 2 (body.branch closing)
      otherwise body (ifChain (expression room) body bound) e yes) m o d) :
    Answers (ifChain (expression room) body (t :: bound)) c o d := by
  obtain ⟨hrest, hpast⟩ := past_cons.mp hpast
  obtain ⟨l, hcs, hend⟩ := past_append.mp hpast
  obtain ⟨hrest', hnil⟩ := past_cons.mp hend
  have hstop : l.peek.kind = .rightParen := by rw [peek_eq hrest', hclose]
  have hread : Reads (expression room) c.advance e l :=
    (recognizes_room room _ _ _ hc.advance).mpr
      ⟨cs, hcs, ⟨k, he, hk⟩, stops_expression (.inl hstop)⟩
  obtain rfl := past_nil.mp hnil
  rw [ifChain, arm]
  refine Answers.expect ?_ hrest hopen (by decide)
  refine Answers.behind ?_ ⟨hread.outcome, hread.cursor⟩ hcs
    fun u hu => not_plain_semicolon (he.plain u (List.mem_of_getLast? hu))
  exact Answers.expect h hrest' hclose (by decide)

theorem answers_ifThen (hc : m.Proper) (hyes : Parses room .statement ys yes o)
    (hpast : m.Past ys d) (helse : d.peek.kind ≠ .elseWord) {more : Parser Stmt} :
    Answers (do
      let yes ← inward 2 ((body (room + 1)).branch closing)
      otherwise (body (room + 1)) more e yes) m (o.map fun yes => .branch e yes none) d := by
  have hbranch : Answers (inward 2 ((body (room + 1)).branch closing)) m o d :=
    answers_inward.mpr (hyes.whole m d hc hpast (closed_of_ne helse))
  cases o with
  | none => exact Loses.bind hbranch _
  | some yes =>
    refine gives_bind.mpr ⟨yes, d, hbranch, ?_⟩
    rw [otherwise, gives_peek_bind, if_neg helse]
    exact gives_pure.mpr ⟨rfl, rfl⟩

/-- What stands behind an else: the arms that follow, or a branch. -/
theorem answers_elseArm (hc : c.Proper) (hno : Parses (elseRoom room no) .statement ns no o)
    (hbranch : ∃ u us, ns = u :: us ∧ (u.kind = .ifWord ↔ ∃ e yes other, no = .branch e yes other))
    (hpast : c.Past ns d) (hclosed : Closed no d.peek.kind) (hlen : c.rest.length ≤ bound.length) :
    Answers (elseArm (body (room + 1)) (ifChain (expression (room + 1)) (body (room + 1)) bound) e
      left other) c (o.map fun no => .branch e left (some no)) d := by
  obtain ⟨u, us, rfl, hiff⟩ := hbranch
  obtain ⟨hrest, hus⟩ := past_cons.mp hpast
  by_cases hif : u.kind = .ifWord
  · obtain ⟨_, _, _, rfl⟩ := hiff.mp hif
    have harms : elseArm (body (room + 1))
        (ifChain (expression (room + 1)) (body (room + 1)) bound) e left other c =
        (skip >>= fun _ => do
          let no ← ifChain (expression (room + 1)) (body (room + 1)) bound
          return Stmt.branch e left (some no)) c := by
      rw [elseArm, peek_bind, if_pos (by rw [peek_eq hrest, hif])]
    rw [answers_congr harms]
    refine Answers.skip (Answers.map ?_ _) hrest (by rw [hif]; decide)
    refine hno.arms u us c.advance d bound rfl rfl hif hc.advance hus hclosed ?_
    rw [rest_advance, List.length_tail]
    omega
  · have hroom : elseRoom room no = room := by
      cases no with
      | branch e yes other => exact absurd (hiff.mpr ⟨e, yes, other, rfl⟩) hif
      | _ => rfl
    rw [hroom] at hno
    have harm : elseArm (body (room + 1))
        (ifChain (expression (room + 1)) (body (room + 1)) bound) e left other c =
        (do
          let no ← inward 2 ((body (room + 1)).branch other)
          return Stmt.branch e left (some no)) c := by
      rw [elseArm, peek_bind, if_neg (by rw [peek_eq hrest]; exact hif)]
    rw [answers_congr harm]
    exact Answers.map (answers_inward.mpr (hno.whole c d hc hpast hclosed)) _

theorem answers_ifElse (hc : m.Proper) (hyes : Parses room .statement ys yes (some left))
    (hopen : ¬ EndsOpen yes) (hother : other.kind = .elseWord)
    (hno : Parses (elseRoom room no) .statement ns no o)
    (hbranch : ∃ u us, ns = u :: us ∧ (u.kind = .ifWord ↔ ∃ e yes other, no = .branch e yes other))
    (hpast : m.Past (ys ++ other :: ns) d) (hclosed : Closed no d.peek.kind)
    (hlen : m.rest.length ≤ bound.length) :
    Answers (do
      let yes ← inward 2 ((body (room + 1)).branch closing)
      otherwise (body (room + 1)) (ifChain (expression (room + 1)) (body (room + 1)) bound) e yes)
      m (o.map fun no => .branch e left (some no)) d := by
  obtain ⟨l, hys, hend⟩ := past_append.mp hpast
  obtain ⟨hrest, hns⟩ := past_cons.mp hend
  have hk : l.peek.kind = .elseWord := by rw [peek_eq hrest, hother]
  have hleft : Gives (inward 2 ((body (room + 1)).branch closing)) m left l :=
    gives_inward.mpr (hyes.whole m l hc hys fun h => absurd h hopen)
  -- the else is passed together with the branch before it, which may end with a semicolon
  have hbehind : Gives (do
      let yes ← inward 2 ((body (room + 1)).branch closing)
      skip
      return yes) m left l.advance :=
    gives_bind.mpr ⟨left, l, hleft, gives_skip_bind.mpr (gives_pure.mpr ⟨rfl, rfl⟩)⟩
  have hsame : (do
      let yes ← inward 2 ((body (room + 1)).branch closing)
      otherwise (body (room + 1)) (ifChain (expression (room + 1)) (body (room + 1)) bound) e yes)
      m = ((do
        let yes ← inward 2 ((body (room + 1)).branch closing)
        skip
        return yes) >>= fun yes => elseArm (body (room + 1))
          (ifChain (expression (room + 1)) (body (room + 1)) bound) e yes other) m := by
    simp only [bind_assoc, pure_bind]
    rw [bind_ok hleft.outcome, bind_ok hleft.outcome, hleft.cursor, otherwise, peek_bind, if_pos hk,
      peek_eq hrest]
  rw [answers_congr hsame]
  have hpassed : m.Past (ys ++ [other]) l.advance :=
    past_append.mpr ⟨l, hys, past_cons.mpr ⟨hrest, past_nil.mpr rfl⟩⟩
  refine Answers.behind ?_ hbehind hpassed fun t ht => ?_
  · refine answers_elseArm ((hc.past hys).advance) hno hbranch hns hclosed ?_
    have hlen' := hys.length
    rw [rest_advance, List.length_tail]
    omega
  · rw [List.getLast?_concat] at ht
    cases ht
    rw [hother]
    decide

end

theorem parses_ifThen {word opening closing : Token} {cs ys : List Token} {e : Expr} {k : Nat}
    {yes : Stmt} {o : Option Stmt} (hword : word.kind = .ifWord) (hopen : opening.kind = .leftParen)
    (he : Phrase .expression cs e k) (hk : k ≤ room + 1) (hclose : closing.kind = .rightParen)
    (hyes : Parses room .statement ys yes o) :
    Parses (room + 1) .statement (word :: opening :: (cs ++ closing :: ys)) (.branch e yes none)
      (o.map fun yes => .branch e yes none) := by
  refine parses_arms hword fun c d bound hc hpast hclosed hlen => ?_
  rw [List.append_cons, ← List.cons_append] at hpast
  obtain ⟨m, hhead, hys⟩ := past_append.mp hpast
  have hlen' := hhead.length
  rw [List.length_cons] at hlen'
  cases bound with
  | nil =>
    rw [List.length_nil] at hlen
    omega
  | cons t bound =>
    exact answers_arm hc hopen he hk hclose hhead
      (answers_ifThen (hc.past hhead) hyes hys (hclosed .bare))

theorem parses_ifElse {word opening closing other : Token} {cs ys ns : List Token} {e : Expr}
    {k : Nat} {yes left no : Stmt} {o : Option Stmt} (hword : word.kind = .ifWord)
    (hopen : opening.kind = .leftParen) (he : Phrase .expression cs e k) (hk : k ≤ room + 1)
    (hclose : closing.kind = .rightParen) (hyes : Parses room .statement ys yes (some left))
    (hends : ¬ EndsOpen yes) (hother : other.kind = .elseWord)
    (hno : Parses (elseRoom room no) .statement ns no o)
    (hbranch : ∃ u us, ns = u :: us ∧
      (u.kind = .ifWord ↔ ∃ e yes other, no = .branch e yes other)) :
    Parses (room + 1) .statement (word :: opening :: (cs ++ closing :: (ys ++ other :: ns)))
      (.branch e yes (some no)) (o.map fun no => .branch e left (some no)) := by
  refine parses_arms hword fun c d bound hc hpast hclosed hlen => ?_
  rw [List.append_cons, ← List.cons_append] at hpast
  obtain ⟨m, hhead, hys⟩ := past_append.mp hpast
  have hlen' := hhead.length
  rw [List.length_cons] at hlen'
  cases bound with
  | nil =>
    rw [List.length_nil] at hlen
    omega
  | cons t bound =>
    rw [List.length_cons] at hlen
    exact answers_arm hc hopen he hk hclose hhead (answers_ifElse (hc.past hhead) hyes hends hother
      hno hbranch hys (closed_branch.mp hclosed) (by omega))

end

end Scriptlet
