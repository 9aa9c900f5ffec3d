import Scriptlet.Proofs.Faults.Expressions
import Scriptlet.Proofs.Parsing.Exactness

/-! The course of a statement.

`LeadsAt goal ts noted p c` says that the parser `p`, behind the tokens `ts` of a
declaration and what has been noted about them, either brings the declaration to
the stage `goal` or is stopped in one of the ways that a course allows for. There
is one law for each way of building parsers and one case for each parser of
statements; what is one level further in is known by `Body.Leads`. -/
namespace Scriptlet

open Scriptlet.Parser Scriptlet.Cursor

/-! ### Laws -/

/-- A parser carries on with a declaration and brings it to a stage, or is stopped. -/
def LeadsAt {α : Type} (goal : Stage) (ts : List Token) (noted : List Diagnostic) (p : Parser α)
    (c : Cursor) : Prop :=
  ∃ us, c.Past us (p c).cursor ∧
    (∀ a, (p c).outcome = .ok a → Course goal (ts ++ us) (noted ++ (p c).noted)) ∧
    ∀ e, (p c).outcome = .error e →
      Course (.stopped e (p c).cursor.peek) (ts ++ us) (noted ++ (p c).noted)

/-- Nothing has been passed of a declaration only where no statement word is ahead: such a
word is passed at once. -/
def Fresh (ts : List Token) (c : Cursor) : Prop :=
  ts = [] → beginsStatement c.peek.kind = false

theorem Fresh.past {ts us : List Token} {c d : Cursor} (h : Fresh ts c) (hpast : c.Past us d) :
    Fresh (ts ++ us) d := by
  intro he
  obtain ⟨rfl, rfl⟩ := List.append_eq_nil_iff.mp he
  obtain rfl := past_nil.mp hpast
  exact h rfl

theorem fresh_concat {ts : List Token} {t : Token} {c : Cursor} : Fresh (ts ++ [t]) c :=
  fun he => absurd he (by simp)

section
variable {α β : Type} {goal mid : Stage} {ts : List Token} {noted : List Diagnostic}
  {p : Parser α} {c : Cursor}

theorem leadsAt_pure (h : Course goal ts noted) (a : α) : LeadsAt goal ts noted (pure a) c := by
  refine ⟨[], past_nil.mpr rfl, fun _ _ => ?_, ?_⟩
  · show Course goal (ts ++ []) (noted ++ [])
    rwa [List.append_nil, List.append_nil]
  · intro e he
    cases he

theorem leadsAt_refuse {t : Token} {fault : Fault}
    (h : Course (.stopped ⟨fault, t⟩ c.peek) ts noted) :
    LeadsAt goal ts noted (refuse t fault : Parser α) c := by
  refine ⟨[], past_nil.mpr rfl, ?_, ?_⟩
  · intro a ha
    cases ha
  · intro e he
    cases he
    show Course (.stopped ⟨fault, t⟩ c.peek) (ts ++ []) (noted ++ [])
    rwa [List.append_nil, List.append_nil]

theorem leadsAt_inward (cost : Nat) (h : LeadsAt goal ts noted p c) :
    LeadsAt goal ts noted (inward cost p) c :=
  h

theorem leadsAt_bind {f : α → Parser β} (hp : LeadsAt mid ts noted p c)
    (hf : ∀ a us more, c.Past us (p c).cursor → Course mid (ts ++ us) (noted ++ more) →
      LeadsAt goal (ts ++ us) (noted ++ more) (f a) (p c).cursor) :
    LeadsAt goal ts noted (p >>= f) c := by
  obtain ⟨us, hus, hok, herror⟩ := hp
  cases ho : (p c).outcome with
  | error e =>
    rw [LeadsAt, bind_error ho]
    refine ⟨us, hus, ?_, ?_⟩
    · intro b hb
      cases hb
    · intro e' he'
      cases he'
      exact herror e ho
  | ok a =>
    obtain ⟨vs, hvs, hok', herror'⟩ := hf a us _ hus (hok a ho)
    rw [LeadsAt, bind_ok ho]
    refine ⟨us ++ vs, past_append.mpr ⟨_, hus, hvs⟩, fun b hb => ?_, fun e he => ?_⟩
    · rw [← List.append_assoc, ← List.append_assoc]
      exact hok' b hb
    · rw [← List.append_assoc, ← List.append_assoc]
      exact herror' e he

theorem leadsAt_peek_bind {f : Token → Parser α} (h : LeadsAt goal ts noted (f c.peek) c) :
    LeadsAt goal ts noted (peek >>= f) c := by
  rwa [LeadsAt, peek_bind]

theorem leadsAt_unread_bind {f : List Token → Parser α} (h : LeadsAt goal ts noted (f c.rest) c) :
    LeadsAt goal ts noted (unread >>= f) c := by
  rwa [LeadsAt, unread_bind]

theorem leadsAt_skip_bind (hc : c.Delimited) (hk : c.peek.kind ≠ .eof)
    (h : LeadsAt goal (ts ++ [c.peek]) noted p c.advance) :
    LeadsAt goal ts noted (skip >>= fun _ => p) c := by
  obtain ⟨us, hus, hok, herror⟩ := h
  rw [LeadsAt, skip_bind]
  refine ⟨c.peek :: us, past_append.mpr ⟨_, hc.past_peek hk, hus⟩, fun a ha => ?_, fun e he => ?_⟩
  · rw [List.append_cons]
    exact hok a ha
  · rw [List.append_cons]
    exact herror e he

end

/-- A declaration stops where a part of an expression does. -/
theorem Halts.course {ts us : List Token} {noted more : List Diagnostic} {next : Token}
    {e : Diagnostic} (h : Halts none next us more e) (hbegun : Course .begun ts noted)
    (hfresh : ts ++ us = [] → beginsStatement next.kind = false) :
    Course (.stopped e next) (ts ++ us) (noted ++ more) := by
  cases h with
  | ahead hpassage hf hn => exact .ahead (hbegun.passage hpassage) hf hn hfresh
  | behind hpassage hf ht =>
    rw [← List.append_assoc]
    exact .behind (hbegun.passage hpassage) hf ht
  | opener ho => cases ho

theorem Course.plain {ts : List Token} {noted : List Diagnostic} {t : Token}
    (h : Course .begun ts noted) (ht : t.kind.isPlain = true) :
    Course .begun (ts ++ [t]) noted := by
  have hpassage := h.passage (.token ht)
  rwa [List.append_nil] at hpassage

section
variable {α : Type} {goal : Stage} {ts : List Token} {noted : List Diagnostic} {p : Parser α}
  {c : Cursor}

/-- A part of an expression. -/
theorem RoamsAt.leadsAt (hp : RoamsAt none p c) (h : Course .begun ts noted) (hfresh : Fresh ts c) :
    LeadsAt .begun ts noted p c := by
  obtain ⟨us, hus, hok, herror⟩ := hp
  exact ⟨us, hus, fun a ha => h.passage (hok a ha),
    fun e he => (herror e he).course h (hfresh.past hus)⟩

/-- A mark inside a declaration. -/
theorem leadsAt_expect_bind {kind : Kind} {fault : Fault} {f : Token → Parser α}
    (hc : c.Delimited) (hk : kind.isPlain = true) (hf : fault.stops = true)
    (hn : fault ≠ .tooMuchNesting) (h : Course .begun ts noted) (hfresh : Fresh ts c)
    (hnext : c.peek.kind = kind → Course .begun (ts ++ [c.peek]) noted →
      LeadsAt goal (ts ++ [c.peek]) noted (f c.peek) c.advance) :
    LeadsAt goal ts noted (expect kind fault >>= f) c := by
  rw [expect_bind_eq]
  refine leadsAt_peek_bind ?_
  split
  next hkind =>
    have hplain : c.peek.kind.isPlain = true := by rw [hkind, hk]
    exact leadsAt_skip_bind hc (isPlain_ne_eof hplain) (hnext hkind (h.plain hplain))
  next => exact leadsAt_refuse (.ahead h hf hn hfresh)

end

/-! ### Statements -/

/-- What a parser of the declarations of a block does, which the token `opening` opens: it
passes them and comes to the closing brace or to the end, or there is no room for the block and
it is skipped. -/
def FillsAt (opening : Token) (p : Parser (List Stmt)) (c : Cursor) : Prop :=
  ∃ us, c.Past us (p c).cursor ∧
    (∀ ss, (p c).outcome = .ok ss →
      Course (.several true (p c).cursor.peek) us (p c).noted ∧
        ((p c).cursor.peek.kind = .rightBrace ∨ (p c).cursor.peek.kind = .eof)) ∧
    ∀ e, (p c).outcome = .error e → e = ⟨.tooMuchNesting, opening⟩ ∧ (p c).noted = [] ∧
      ((p c).cursor.peek.kind = .eof ∨ ∃ t ∈ us.getLast?, t.kind = .rightBrace)

/-- The parsers of bodies carry on with a declaration. A branch is refused only if its opener
may be blamed. -/
structure Body.Leads (body : Body) : Prop where
  branch : ∀ ts noted t c, c.Delimited → Course .begun (ts ++ [t]) noted → AtStatement (ts ++ [t]) →
    Course (.stopped ⟨.tooMuchNesting, t⟩ c.peek) (ts ++ [t]) noted →
    LeadsAt .done (ts ++ [t]) noted (body.branch t) c
  block : ∀ t c, c.Delimited → FillsAt t (body.block t) c

theorem atStatement_concat {ts : List Token} {t : Token}
    (h : t.kind = .rightParen ∨ t.kind = .elseWord) : AtStatement (ts ++ [t]) := by
  intro u hu
  rw [List.getLast?_concat] at hu
  cases hu
  exact h

section
variable {expr : Parser Expr} {body : Body} {ts : List Token} {noted : List Diagnostic}
  {c : Cursor}

theorem leadsAt_semicolon (after : Construct) (hc : c.Delimited) (h : Course .begun ts noted)
    (hfresh : Fresh ts c) : LeadsAt .done ts noted (semicolon after) c := by
  rw [semicolon, expect_bind_eq]
  refine leadsAt_peek_bind ?_
  split
  next hk =>
    exact leadsAt_skip_bind hc (by rw [hk]; decide) (leadsAt_pure (h.semicolon hk) ())
  next => exact leadsAt_refuse (.ahead h rfl nofun hfresh)

/-- An expression and a semicolon. -/
theorem leadsAt_ended (he : ∀ c : Cursor, c.Delimited → RoamsAt none expr c) (after : Construct)
    (f : Expr → Stmt) (hc : c.Delimited) (h : Course .begun ts noted) (hfresh : Fresh ts c) :
    LeadsAt .done ts noted (do
      let e ← expr
      semicolon after
      return f e) c := by
  refine leadsAt_bind ((he c hc).leadsAt h hfresh) fun e us more hus hbegun => ?_
  refine leadsAt_bind (leadsAt_semicolon after (hc.past hus) hbegun (hfresh.past hus))
    fun _ vs more' hvs hdone => ?_
  exact leadsAt_pure hdone _

theorem leadsAt_otherwise {more : Parser Stmt} (hb : body.Leads)
    (hmore : ∀ ts noted t c, c.Delimited → Course .begun (ts ++ [t]) noted →
      LeadsAt .done (ts ++ [t]) noted more c)
    (condition : Expr) (yes : Stmt) (hc : c.Delimited) (h : Course .done ts noted) :
    LeadsAt .done ts noted (otherwise body more condition yes) c := by
  refine leadsAt_peek_bind ?_
  split
  next hk =>
    have hbegun := h.otherwise hk
    refine leadsAt_skip_bind hc (by rw [hk]; decide) (leadsAt_peek_bind ?_)
    split
    next hk' =>
      have hword := hbegun.word (t := c.advance.peek) (by rw [hk']; rfl)
      refine leadsAt_skip_bind hc.advance (by rw [hk']; decide) ?_
      exact leadsAt_bind (hmore _ _ _ _ hc.advance.advance hword) fun no us _ _ hdone =>
        leadsAt_pure hdone _
    next =>
      have hbranch := hb.branch ts noted c.peek c.advance hc.advance hbegun
        (atStatement_concat (.inr hk)) (.noRoom h hk)
      exact leadsAt_bind (leadsAt_inward 2 hbranch) fun no us _ _ hdone => leadsAt_pure hdone _
  next => exact leadsAt_pure h _

theorem leadsAt_ifChain (he : ∀ c : Cursor, c.Delimited → RoamsAt none expr c) (hb : body.Leads)
    (bound : List Token) (ts : List Token) (noted : List Diagnostic) (t : Token) (c : Cursor)
    (hc : c.Delimited) (h : Course .begun (ts ++ [t]) noted) :
    LeadsAt .done (ts ++ [t]) noted (ifChain expr body bound) c := by
  induction bound generalizing ts noted t c with
  | nil => exact leadsAt_peek_bind (leadsAt_refuse (.ahead h rfl nofun fresh_concat))
  | cons _ bound ih =>
    rw [ifChain]
    refine leadsAt_expect_bind hc rfl rfl (by decide) h fresh_concat fun _ hopen => ?_
    refine leadsAt_bind ((he _ hc.advance).leadsAt hopen fresh_concat)
      fun condition us more hus hcondition => ?_
    have hc₁ := hc.advance.past hus
    refine leadsAt_expect_bind hc₁ rfl rfl (by decide) hcondition (fresh_concat.past hus)
      fun hclose hbegun => ?_
    have hbranch := hb.branch _ _ _ _ hc₁.advance hbegun (atStatement_concat (.inl hclose))
      (.behind hcondition rfl (by rw [hclose]; rfl))
    refine leadsAt_bind (leadsAt_inward 2 hbranch) fun yes vs more' hvs hdone => ?_
    exact leadsAt_otherwise hb ih condition yes (hc₁.advance.past hvs) hdone

end

/-! ### Blocks -/

section
variable {expr : Parser Expr} {body : Body} {c : Cursor}

theorem statement_block (hk : c.peek.kind = .leftBrace) :
    statementWith expr body c =
      (do
        let statements ← inward 3 (body.block c.peek)
        let _ ← expect .rightBrace (.expectedMark .rightBrace .block)
        return Stmt.block statements) c.advance := by
  rw [statementWith, peek_bind]
  simp only [hk]
  exact skip_bind _ c

theorem statement_block_refused {e : Diagnostic} (hk : c.peek.kind = .leftBrace)
    (ho : (body.block c.peek c.advance).outcome = .error e) :
    statementWith expr body c =
      { body.block c.peek c.advance with
        outcome := .error e
        frames := (body.block c.peek c.advance).frames + 3 } := by
  have hinward : (inward 3 (body.block c.peek) c.advance).outcome = .error e := ho
  rw [statement_block hk]
  exact bind_error hinward _

theorem statement_block_closed {ss : List Stmt} (hk : c.peek.kind = .leftBrace)
    (ho : (body.block c.peek c.advance).outcome = .ok ss)
    (hclose : (body.block c.peek c.advance).cursor.peek.kind = .rightBrace) :
    statementWith expr body c =
      { body.block c.peek c.advance with
        outcome := .ok (.block ss)
        cursor := (body.block c.peek c.advance).cursor.advance
        frames := (body.block c.peek c.advance).frames + 3 } := by
  have hinward : (inward 3 (body.block c.peek) c.advance).outcome = .ok ss := ho
  have hcursor : (inward 3 (body.block c.peek) c.advance).cursor =
      (body.block c.peek c.advance).cursor := rfl
  rw [statement_block hk, bind_ok hinward, hcursor, expect_bind_eq, peek_bind, if_pos hclose,
    skip_bind]
  simp only [inward, pure, Parser.pure, List.append_nil, Nat.max_zero]

theorem statement_block_unclosed {ss : List Stmt} (hk : c.peek.kind = .leftBrace)
    (ho : (body.block c.peek c.advance).outcome = .ok ss)
    (hclose : (body.block c.peek c.advance).cursor.peek.kind ≠ .rightBrace) :
    statementWith expr body c =
      { body.block c.peek c.advance with
        outcome := .error ⟨.expectedMark .rightBrace .block,
          (body.block c.peek c.advance).cursor.peek⟩
        frames := (body.block c.peek c.advance).frames + 3 } := by
  have hinward : (inward 3 (body.block c.peek) c.advance).outcome = .ok ss := ho
  have hcursor : (inward 3 (body.block c.peek) c.advance).cursor =
      (body.block c.peek c.advance).cursor := rfl
  rw [statement_block hk, bind_ok hinward, hcursor, expect_bind_eq, peek_bind, if_neg hclose]
  simp only [inward, refuse, List.append_nil, Nat.max_zero]

theorem leadsAt_block {ts : List Token} {noted : List Diagnostic} (hb : body.Leads)
    (hc : c.Delimited) (h : Course .begun ts noted) (hstart : AtStatement ts)
    (hk : c.peek.kind = .leftBrace) : LeadsAt .done ts noted (statementWith expr body) c := by
  obtain ⟨us, hus, hok, herror⟩ := hb.block c.peek c.advance hc.advance
  have hpast := past_append.mpr ⟨_, hc.past_peek (by rw [hk]; decide), hus⟩
  have hd := hc.advance.past hus
  cases ho : (body.block c.peek c.advance).outcome with
  | error e =>
    obtain ⟨rfl, hnoted, hend⟩ := herror e ho
    rw [LeadsAt, statement_block_refused hk ho, hnoted]
    refine ⟨_, hpast, ?_, ?_⟩
    · intro s hs
      cases hs
    · intro e he
      cases he
      rw [List.append_nil]
      exact h.refused hstart hk hend
  | ok ss =>
    obtain ⟨hseveral, hend⟩ := hok ss ho
    by_cases hclose : (body.block c.peek c.advance).cursor.peek.kind = .rightBrace
    · rw [LeadsAt, statement_block_closed hk ho hclose]
      have hclosing := hd.past_peek (by rw [hclose]; decide)
      refine ⟨_, past_append.mpr ⟨_, hpast, hclosing⟩, fun s hs => ?_, ?_⟩
      · exact h.block hk hseveral hclose
      · intro e he
        cases he
    · rw [LeadsAt, statement_block_unclosed hk ho hclose]
      refine ⟨_, hpast, ?_, ?_⟩
      · intro s hs
        cases hs
      · intro e he
        cases he
        exact h.unclosed hk hseveral (hend.resolve_left hclose)

/-! ### Declarations -/

section
variable {ts : List Token} {noted : List Diagnostic}

theorem leadsAt_statement (he : ∀ c : Cursor, c.Delimited → RoamsAt none expr c) (hb : body.Leads)
    (hc : c.Delimited) (h : Course .begun ts noted) (hstart : AtStatement ts)
    (hlet : ts = [] → c.peek.kind ≠ .letWord) :
    LeadsAt .done ts noted (statementWith expr body) c := by
  by_cases hbrace : c.peek.kind = .leftBrace
  · exact leadsAt_block hb hc h hstart hbrace
  refine leadsAt_peek_bind ?_
  split
  case h_1 hk | h_2 hk | h_3 hk =>
    exact leadsAt_refuse (h.unsupported hstart (by rw [hk]; rfl))
  case h_4 hk => exact absurd hk hbrace
  case h_5 hk =>
    have hword := h.word (t := c.peek) (by rw [hk]; rfl)
    exact leadsAt_skip_bind hc (by rw [hk]; decide)
      (leadsAt_ended he .value _ hc.advance hword fresh_concat)
  case h_6 hk =>
    have hword := h.word (t := c.peek) (by rw [hk]; rfl)
    exact leadsAt_skip_bind hc (by rw [hk]; decide)
      (leadsAt_unread_bind (leadsAt_ifChain he hb _ _ _ _ _ hc.advance hword))
  case h_7 hfor hfun hreturn _ hprint hif =>
    refine leadsAt_ended he .expression _ hc h fun hnil => ?_
    have hlet := hlet hnil
    generalize c.peek.kind = kind at *
    cases kind <;> first | rfl | contradiction

theorem leadsAt_variable (he : ∀ c : Cursor, c.Delimited → RoamsAt none expr c)
    (hc : c.Delimited) {t : Token} (h : Course .begun (ts ++ [t]) noted) :
    LeadsAt .done (ts ++ [t]) noted (variableWith expr) c := by
  refine leadsAt_expect_bind hc rfl rfl (by decide) h fresh_concat fun _ hname => ?_
  refine leadsAt_peek_bind ?_
  split
  next hk =>
    have hequal := hname.plain (t := c.advance.peek) (by rw [hk]; rfl)
    exact leadsAt_skip_bind hc.advance (by rw [hk]; decide)
      (leadsAt_ended he .declaration _ hc.advance.advance hequal fresh_concat)
  next =>
    exact leadsAt_bind (leadsAt_semicolon .declaration hc.advance hname fresh_concat)
      fun _ us more hus hdone => leadsAt_pure hdone _

theorem leadsAt_declaration (he : ∀ c : Cursor, c.Delimited → RoamsAt none expr c)
    (hb : body.Leads) (hc : c.Delimited) : LeadsAt .done [] [] (declarationWith expr body) c := by
  refine leadsAt_peek_bind ?_
  split
  next hk =>
    have hword := Course.nothing.word (t := c.peek) (by rw [hk]; rfl)
    exact leadsAt_skip_bind hc (by rw [hk]; decide) (leadsAt_variable he hc.advance hword)
  next hk =>
    exact leadsAt_statement he hb hc .nothing (fun t ht => by cases ht) fun _ => hk

end

end

end Scriptlet
