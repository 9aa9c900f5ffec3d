import Scriptlet.Decimal.Numeral
import Scriptlet.Token.Basic
import Scriptlet.Tree.Basic

/-! The grammar: which tokens make up a program, and its tree.

Expressions have levels, and `Phrase level ts e n` says that the tokens `ts` are
an expression of the level with the tree `e`:

    expression  ::=  target "=" expression  |  operation 0
    operation r ::=  operation r OPERATOR operation (r + 1)  |  operation (r + 1)
    operation 6 ::=  operand
    operand     ::=  ( "!" | "-" ) operand  |  primary
    primary     ::=  LITERAL | NAME  |  "(" expression ")"
    target      ::=  NAME  |  "(" target ")"

`Sentence clause ts s n` says the same of statements and declarations:

    declaration ::=  "let" NAME ( "=" expression )? ";"  |  statement
    statement   ::=  expression ";"  |  "print" expression ";"  |  "{" declaration* "}"
                  |  "if" "(" expression ")" statement ( "else" statement )?

An else belongs to the nearest if that has none. Only the kinds of the tokens
decide what is a phrase; their texts give the names and literals of the tree. The
number `n` is the nesting: how many parentheses, unary operators, right sides of
assignments, blocks and branches stand one inside the other. -/
namespace Scriptlet

/-! ### Expressions -/

/-- The operators of two operands, by rank, with the nodes they build. Those of the
lowest rank bind loosest. -/
inductive Joins : Nat → Kind → (Expr → Expr → Expr) → Prop where
  | or : Joins 0 .orWord (.logical .or)
  | and : Joins 1 .andWord (.logical .and)
  | notEqual : Joins 2 .notEqual (.binary .notEqual)
  | equal : Joins 2 .equalEqual (.binary .equal)
  | greater : Joins 3 .greater (.binary (.compare .greater))
  | greaterEqual : Joins 3 .greaterEqual (.binary (.compare .greaterEqual))
  | less : Joins 3 .less (.binary (.compare .less))
  | lessEqual : Joins 3 .lessEqual (.binary (.compare .lessEqual))
  | plus : Joins 4 .plus (.binary .plus)
  | minus : Joins 4 .minus (.binary .minus)
  | star : Joins 5 .star (.binary .star)
  | slash : Joins 5 .slash (.binary .slash)

/-- The operators of one operand. -/
inductive Prefixes : Kind → UnaryOp → Prop where
  | not : Prefixes .not .not
  | negate : Prefixes .minus .negate

/-- The number that a token denotes. -/
def Token.numberValue (t : Token) : Float :=
  (Decimal.read? t.text).getD Decimal.notANumber

/-- The tokens that are expressions by themselves. -/
inductive Literal : Token → Expr → Prop where
  | yes {t} : t.kind = .trueWord → Literal t (.boolean true)
  | no {t} : t.kind = .falseWord → Literal t (.boolean false)
  | nil {t} : t.kind = .nilWord → Literal t .nil
  | number {t} : t.kind = .number → Literal t (.number t.numberValue)
  | string {t} : t.kind = .string → Literal t (.string t.stringValue)
  | name {t} : t.kind = .identifier → Literal t (.variable t.text)

/-- What can be assigned to: a name, in parentheses or not. -/
inductive Target : List Token → String → Nat → Prop where
  | name {t} : t.kind = .identifier → Target [t] t.text 0
  | group {opening ts closing name n} : opening.kind = .leftParen → Target ts name n →
      closing.kind = .rightParen → Target (opening :: (ts ++ [closing])) name (n + 1)

inductive Level where
  | expression
  | operation (rank : Nat)
  | operand
  | primary

/-- The expressions of each level, with their trees and nesting. -/
inductive Phrase : Level → List Token → Expr → Nat → Prop where
  | literal {t e} : Literal t e → Phrase .primary [t] e 0
  | group {opening ts closing e n} : opening.kind = .leftParen → Phrase .expression ts e n →
      closing.kind = .rightParen → Phrase .primary (opening :: (ts ++ [closing])) e (n + 1)
  | primary {ts e n} : Phrase .primary ts e n → Phrase .operand ts e n
  | unary {t op ts e n} : Prefixes t.kind op → Phrase .operand ts e n →
      Phrase .operand (t :: ts) (.unary op e) (n + 1)
  | operand {ts e n} : Phrase .operand ts e n → Phrase (.operation 6) ts e n
  | tighter {rank ts e n} : Phrase (.operation (rank + 1)) ts e n →
      Phrase (.operation rank) ts e n
  | join {rank ls l m t node rs r n} : Phrase (.operation rank) ls l m →
      Joins rank t.kind node → Phrase (.operation (rank + 1)) rs r n →
      Phrase (.operation rank) (ls ++ t :: rs) (node l r) (max m n)
  | operation {ts e n} : Phrase (.operation 0) ts e n → Phrase .expression ts e n
  | assign {ts name m t rs e n} : Target ts name m → t.kind = .equal →
      Phrase .expression rs e n →
      Phrase .expression (ts ++ t :: rs) (.assign name e) (max m (n + 1))

/-! ### Statements -/

/-- Statements that end with an if that has no else. -/
inductive EndsOpen : Stmt → Prop where
  | bare {condition yes} : EndsOpen (.branch condition yes none)
  | last {condition yes no} : EndsOpen no → EndsOpen (.branch condition yes (some no))

/-- How deep an else is nested when its branch is. The arms of a chain of ifs stand side
by side. -/
def elseNesting (n : Nat) : Stmt → Nat
  | .branch .. => n
  | _ => n + 1

/-- A part of a program: its tokens, its tree and its nesting. -/
structure Part where
  tokens : List Token
  statement : Stmt
  nesting : Nat

/-- The tokens of parts that stand one behind the other. -/
def Part.allTokens (parts : List Part) : List Token :=
  parts.flatMap Part.tokens

/-- The nesting of parts that stand one behind the other. -/
def Part.depth (parts : List Part) : Nat :=
  (parts.map Part.nesting).foldr max 0

inductive Clause where
  | declaration
  | statement

/-- The declarations and statements, with their trees and nesting. -/
inductive Sentence : Clause → List Token → Stmt → Nat → Prop where
  | expression {ts e n semicolon} : Phrase .expression ts e n → semicolon.kind = .semicolon →
      Sentence .statement (ts ++ [semicolon]) (.expression e) n
  | print {word ts e n semicolon} : word.kind = .printWord → Phrase .expression ts e n →
      semicolon.kind = .semicolon →
      Sentence .statement (word :: (ts ++ [semicolon])) (.print e) n
  | block {opening parts closing} : opening.kind = .leftBrace →
      (∀ p ∈ parts, Sentence .declaration p.tokens p.statement p.nesting) →
      closing.kind = .rightBrace →
      Sentence .statement (opening :: (Part.allTokens parts ++ [closing]))
        (.block (parts.map Part.statement)) (Part.depth parts + 1)
  | ifThen {word opening cs e k closing ys yes m} : word.kind = .ifWord →
      opening.kind = .leftParen → Phrase .expression cs e k → closing.kind = .rightParen →
      Sentence .statement ys yes m →
      Sentence .statement (word :: opening :: (cs ++ closing :: ys)) (.branch e yes none)
        (max k (m + 1))
  | ifElse {word opening cs e k closing ys yes m other ns no n} : word.kind = .ifWord →
      opening.kind = .leftParen → Phrase .expression cs e k → closing.kind = .rightParen →
      Sentence .statement ys yes m → ¬ EndsOpen yes → other.kind = .elseWord →
      Sentence .statement ns no n →
      Sentence .statement (word :: opening :: (cs ++ closing :: (ys ++ other :: ns)))
        (.branch e yes (some no)) (max k (max (m + 1) (elseNesting n no)))
  | declare {word name semicolon} : word.kind = .letWord → name.kind = .identifier →
      semicolon.kind = .semicolon →
      Sentence .declaration [word, name, semicolon] (.declare name.text none) 0
  | define {word name equal ts e n semicolon} : word.kind = .letWord →
      name.kind = .identifier → equal.kind = .equal → Phrase .expression ts e n →
      semicolon.kind = .semicolon →
      Sentence .declaration (word :: name :: equal :: (ts ++ [semicolon]))
        (.declare name.text (some e)) n
  | statement {ts s n} : Sentence .statement ts s n → Sentence .declaration ts s n

/-- The declarations of a list are sentences. -/
def AllSentences (parts : List Part) : Prop :=
  ∀ p ∈ parts, Sentence .declaration p.tokens p.statement p.nesting

/-- The programs: declarations one behind the other. -/
def Program (ts : List Token) (statements : List Stmt) (n : Nat) : Prop :=
  ∃ parts, AllSentences parts ∧ ts = Part.allTokens parts ∧
    statements = parts.map Part.statement ∧ n = Part.depth parts

/-! ### How phrases and sentences begin -/

/-- The kinds of token that an expression can begin with. -/
def beginsPhrase : Kind → Bool
  | .trueWord | .falseWord | .nilWord | .number | .string | .identifier | .leftParen | .not
  | .minus => true
  | _ => false

theorem Target.begins {ts : List Token} {name : String} {n : Nat} (h : Target ts name n) :
    ∃ t rest, ts = t :: rest ∧ beginsPhrase t.kind = true := by
  cases h with
  | name hk => exact ⟨_, _, rfl, by rw [hk]; rfl⟩
  | group hk => exact ⟨_, _, rfl, by rw [hk]; rfl⟩

theorem Literal.begins {t : Token} {e : Expr} (h : Literal t e) : beginsPhrase t.kind = true := by
  cases h <;> simp only [*] <;> rfl

theorem Prefixes.begins {kind : Kind} {op : UnaryOp} (h : Prefixes kind op) :
    beginsPhrase kind = true := by
  cases h <;> rfl

theorem Phrase.begins {level : Level} {ts : List Token} {e : Expr} {n : Nat}
    (h : Phrase level ts e n) : ∃ t rest, ts = t :: rest ∧ beginsPhrase t.kind = true := by
  induction h with
  | literal h => exact ⟨_, _, rfl, h.begins⟩
  | group hk => exact ⟨_, _, rfl, by rw [hk]; rfl⟩
  | unary h => exact ⟨_, _, rfl, h.begins⟩
  | primary _ ih | operand _ ih | tighter _ ih | operation _ ih => exact ih
  | join _ _ _ ih =>
    obtain ⟨t, rest, rfl, hk⟩ := ih
    exact ⟨t, _, List.cons_append, hk⟩
  | assign h =>
    obtain ⟨t, rest, rfl, hk⟩ := h.begins
    exact ⟨t, _, List.cons_append, hk⟩

/-- The kinds of token that a declaration can begin with. -/
def beginsSentence : Kind → Bool
  | .printWord | .leftBrace | .ifWord | .letWord => true
  | kind => beginsPhrase kind

theorem beginsSentence_of_phrase {kind : Kind} (h : beginsPhrase kind = true) :
    beginsSentence kind = true := by
  cases kind <;> first | rfl | exact absurd h (by decide)

theorem Sentence.begins {clause : Clause} {ts : List Token} {s : Stmt} {n : Nat}
    (h : Sentence clause ts s n) : ∃ t rest, ts = t :: rest ∧ beginsSentence t.kind = true := by
  induction h with
  | expression h =>
    obtain ⟨t, rest, rfl, hk⟩ := h.begins
    exact ⟨t, _, List.cons_append, beginsSentence_of_phrase hk⟩
  | print hk | block hk | ifThen hk | ifElse hk | declare hk | define hk =>
    exact ⟨_, _, rfl, by rw [hk]; rfl⟩
  | statement _ ih => exact ih

/-! ### Sentences by their first token -/

/-- Only an if begins like one. -/
theorem Sentence.branch_iff {clause : Clause} {t : Token} {ts us : List Token} {s : Stmt} {n : Nat}
    (h : Sentence clause us s n) (hu : us = t :: ts) :
    t.kind = .ifWord ↔ ∃ condition yes no, s = .branch condition yes no := by
  induction h with
  | expression h =>
    obtain ⟨u, rest, rfl, hb⟩ := h.begins
    cases hu
    refine ⟨fun hk => ?_, nofun⟩
    rw [hk] at hb
    exact absurd hb (by decide)
  | print hk | block hk | declare hk | define hk =>
    cases hu
    rw [hk]
    exact ⟨nofun, nofun⟩
  | ifThen hk | ifElse hk =>
    cases hu
    exact ⟨fun _ => ⟨_, _, _, rfl⟩, fun _ => hk⟩
  | statement _ ih => exact ih hu

/-- An expression does not begin like any other sentence. -/
theorem Phrase.begins_only {level : Level} {t : Token} {ts us vs : List Token} {e : Expr} {n : Nat}
    (h : Phrase level us e n) (hu : us ++ vs = t :: ts) : beginsPhrase t.kind = true := by
  obtain ⟨u, rest, rfl, hb⟩ := h.begins
  cases hu
  exact hb

/-- What stands behind the first token of an if. -/
theorem Sentence.of_if {word : Token} {ts : List Token} {s : Stmt} {n : Nat}
    (h : Sentence .statement (word :: ts) s n) (hk : word.kind = .ifWord) :
    ∃ opening cs e k closing ys yes m, opening.kind = .leftParen ∧ Phrase .expression cs e k ∧
      closing.kind = .rightParen ∧ Sentence .statement ys yes m ∧
      ((ts = opening :: (cs ++ closing :: ys) ∧ s = .branch e yes none ∧ n = max k (m + 1)) ∨
        ∃ other ns no l, ¬ EndsOpen yes ∧ other.kind = .elseWord ∧ Sentence .statement ns no l ∧
          ts = opening :: (cs ++ closing :: (ys ++ other :: ns)) ∧
          s = .branch e yes (some no) ∧ n = max k (max (m + 1) (elseNesting l no))) := by
  generalize hu : word :: ts = us at h
  cases h with
  | expression h =>
    have := h.begins_only hu.symm
    rw [hk] at this
    exact absurd this (by decide)
  | print hw | block hw =>
    cases hu
    rw [hk] at hw
    cases hw
  | ifThen _ ho he hc hyes =>
    cases hu
    exact ⟨_, _, _, _, _, _, _, _, ho, he, hc, hyes, .inl ⟨rfl, rfl, rfl⟩⟩
  | ifElse _ ho he hc hyes hopen hother hno =>
    cases hu
    exact ⟨_, _, _, _, _, _, _, _, ho, he, hc, hyes,
      .inr ⟨_, _, _, _, hopen, hother, hno, rfl, rfl, rfl⟩⟩

/-- What stands behind the first token of a print statement. -/
theorem Sentence.of_print {word : Token} {ts : List Token} {s : Stmt} {n : Nat}
    (h : Sentence .statement (word :: ts) s n) (hk : word.kind = .printWord) :
    ∃ us e last, Phrase .expression us e n ∧ last.kind = .semicolon ∧ ts = us ++ [last] ∧
      s = .print e := by
  generalize hu : word :: ts = us at h
  cases h with
  | expression h =>
    have := h.begins_only hu.symm
    rw [hk] at this
    exact absurd this (by decide)
  | print _ he hlast =>
    cases hu
    exact ⟨_, _, _, he, hlast, rfl, rfl⟩
  | block hw | ifThen hw | ifElse hw =>
    cases hu
    rw [hk] at hw
    cases hw

/-- What stands behind the first token of a block. -/
theorem Sentence.of_block {word : Token} {ts : List Token} {s : Stmt} {n : Nat}
    (h : Sentence .statement (word :: ts) s n) (hk : word.kind = .leftBrace) :
    ∃ us statements l closing, Program us statements l ∧ closing.kind = .rightBrace ∧
      ts = us ++ [closing] ∧ s = .block statements ∧ n = l + 1 := by
  generalize hu : word :: ts = us at h
  cases h with
  | expression h =>
    have := h.begins_only hu.symm
    rw [hk] at this
    exact absurd this (by decide)
  | block _ hparts hclose =>
    cases hu
    exact ⟨_, _, _, _, ⟨_, hparts, rfl, rfl, rfl⟩, hclose, rfl, rfl, rfl⟩
  | print hw | ifThen hw | ifElse hw =>
    cases hu
    rw [hk] at hw
    cases hw

/-- A statement that begins like none of the others is an expression. -/
theorem Sentence.of_phrase {word : Token} {ts : List Token} {s : Stmt} {n : Nat}
    (h : Sentence .statement (word :: ts) s n) (hprint : word.kind ≠ .printWord)
    (hblock : word.kind ≠ .leftBrace) (hif : word.kind ≠ .ifWord) :
    ∃ us e last, Phrase .expression us e n ∧ last.kind = .semicolon ∧
      word :: ts = us ++ [last] ∧ s = .expression e := by
  generalize hu : word :: ts = us at h
  cases h with
  | expression he hlast => exact ⟨_, _, _, he, hlast, rfl, rfl⟩
  | print hw =>
    cases hu
    exact absurd hw hprint
  | block hw =>
    cases hu
    exact absurd hw hblock
  | ifThen hw | ifElse hw =>
    cases hu
    exact absurd hw hif

/-- What stands behind the first token of the declaration of a variable. -/
theorem Sentence.of_let {word : Token} {ts : List Token} {s : Stmt} {n : Nat}
    (h : Sentence .declaration (word :: ts) s n) (hk : word.kind = .letWord) :
    ∃ name, name.kind = .identifier ∧
      ((∃ last, last.kind = .semicolon ∧ ts = [name, last] ∧ s = .declare name.text none) ∨
        ∃ equal us e last, equal.kind = .equal ∧ Phrase .expression us e n ∧
          last.kind = .semicolon ∧ ts = name :: equal :: (us ++ [last]) ∧
          s = .declare name.text (some e)) := by
  cases h with
  | declare _ hname hlast => exact ⟨_, hname, .inl ⟨_, hlast, rfl, rfl⟩⟩
  | define _ hname hequal hphrase hlast =>
    exact ⟨_, hname, .inr ⟨_, _, _, _, hequal, hphrase, hlast, rfl, rfl⟩⟩
  | statement h =>
    generalize hu : word :: ts = us at h
    cases h with
    | expression h =>
      have := h.begins_only hu.symm
      rw [hk] at this
      exact absurd this (by decide)
    | print hw | block hw | ifThen hw | ifElse hw =>
      cases hu
      rw [hk] at hw
      cases hw

/-! ### Nesting -/

theorem Part.allTokens_cons (p : Part) (parts : List Part) :
    Part.allTokens (p :: parts) = p.tokens ++ Part.allTokens parts :=
  List.flatMap_cons

theorem elseNesting_le {n room : Nat} {s : Stmt} (h : n < room) : elseNesting n s ≤ room := by
  cases s <;> simp only [elseNesting] <;> omega

theorem elseNesting_lt {n room : Nat} {s : Stmt}
    (hs : ¬ ∃ condition yes no, s = .branch condition yes no) (h : elseNesting n s ≤ room) :
    n < room := by
  cases s with
  | branch condition yes no => exact absurd ⟨condition, yes, no, rfl⟩ hs
  | _ => exact h

/-! ### Targets are the phrases of names -/

/-- A primary is an operation of every rank. -/
theorem Phrase.ofPrimary {ts : List Token} {e : Expr} {n : Nat} (h : Phrase .primary ts e n) :
    Phrase (.operation 0) ts e n :=
  .tighter (.tighter (.tighter (.tighter (.tighter (.tighter (.operand (.primary h)))))))

theorem Target.phrase {ts : List Token} {name : String} {n : Nat} (h : Target ts name n) :
    Phrase .primary ts (.variable name) n := by
  induction h with
  | name hk => exact .literal (.name hk)
  | group ho _ hc ih => exact .group ho (.operation ih.ofPrimary) hc

theorem Joins.ne_variable {rank : Nat} {kind : Kind} {node : Expr → Expr → Expr}
    (h : Joins rank kind node) (l r : Expr) (name : String) : Expr.variable name ≠ node l r := by
  cases h <;> simp

theorem Phrase.target {level : Level} {ts : List Token} {name : String} {n : Nat}
    (h : Phrase level ts (.variable name) n) : Target ts name n := by
  generalize he : Expr.variable name = e at h
  induction h with
  | literal h =>
    cases h <;> cases he
    exact .name ‹_›
  | group ho _ hc ih => exact .group ho (ih he) hc
  | unary | assign => cases he
  | primary _ ih | operand _ ih | tighter _ ih | operation _ ih => exact ih he
  | join _ hj => exact absurd he (hj.ne_variable _ _ _)

end Scriptlet
