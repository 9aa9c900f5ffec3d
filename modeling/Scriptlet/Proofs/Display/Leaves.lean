import Scriptlet.Proofs.Display.Doubles
import Scriptlet.Proofs.Lexing.Spacing
import Scriptlet.Proofs.Parsing.Results

/-! What stands at the leaves of a parsed tree.

A tree can be put together with any text for a name and any double for a number. Of these
parsing makes only some: a name is a word of letters that is no keyword, a string has no
quote in it, and a number has no sign (`parse_legible`). -/
namespace Scriptlet

/-! ### Tokens -/

/-- The words that are free to be names. -/
structure IsName (name : String) : Prop where
  ne_nil : name.toList ≠ []
  letters : ∀ c ∈ name.toList, Item.isNameChar c = true
  free : ∀ kind ∈ Kind.keywords, kind.spelling ≠ name

/-- What a token is known for that becomes a leaf. -/
structure Token.Legible (t : Token) : Prop where
  name : t.kind = .identifier → IsName t.text
  string : t.kind = .string → '"' ∉ t.stringValue.toList
  number : t.kind = .number → Decimal.Unsigned t.numberValue

theorem Lexeme.isName {word rest : List Char} (h : Lexeme .identifier word rest) :
    IsName (String.ofList word) := by
  cases h with
  | mark hk => exact absurd hk (by decide)
  | keyword hk => exact absurd hk (by decide)
  | name hne hword hfree =>
    refine ⟨by rwa [String.toList_ofList], by rwa [String.toList_ofList], fun kind hk he => ?_⟩
    exact hfree kind hk (by rw [he, String.toList_ofList])

theorem Token.stringValue_closed {t : Token} {text : List Char}
    (ht : t.text.toList = '"' :: (text ++ ['"'])) : t.stringValue.toList = text := by
  rw [Token.stringValue, Token.isClosed_of_closed ht, ht, if_pos rfl, String.toList_ofList,
    List.drop_succ_cons, List.drop_zero, List.dropLast_concat]

theorem Token.stringValue_open {t : Token} {text : List Char} (ht : t.text.toList = '"' :: text)
    (htext : ∀ c ∈ text, c ≠ '"') : t.stringValue.toList = text := by
  have hopen : '"' ∉ t.text.toList.tail := by
    rw [ht]
    exact fun hmem => htext _ hmem rfl
  rw [Token.stringValue, Token.isClosed_of_open hopen, ht, String.toList_ofList]
  rfl

/-- Between the quotes of a string there is none. -/
theorem Lexeme.quote_notMem {t : Token} {rest : List Char}
    (h : Lexeme .string t.text.toList rest) : '"' ∉ t.stringValue.toList := by
  obtain ⟨text, htext, hclosed | ⟨hopen, -⟩⟩ := h.of_string
  · rw [Token.stringValue_closed hclosed]
    exact fun hmem => htext _ hmem rfl
  · rw [Token.stringValue_open hopen htext]
    exact fun hmem => htext _ hmem rfl

theorem Lexeme.unsigned {t : Token} {rest : List Char} (h : Lexeme .number t.text.toList rest) :
    Decimal.Unsigned t.numberValue := by
  obtain ⟨digits, power, hread⟩ := h.exists_nearestDouble
  rw [String.ofList_toList] at hread
  rw [Token.numberValue, hread]
  exact Decimal.nearestDouble_unsigned digits power

theorem LongestLexeme.legible {t : Token} {rest : List Char}
    (h : LongestLexeme t.kind t.text.toList rest) : t.Legible := by
  generalize hk : t.kind = kind at h
  generalize hl : t.text.toList = lexeme at h
  cases h with
  | known hlexeme =>
    subst hl
    constructor <;> intro hkind <;> rw [← hk, hkind] at hlexeme
    · have hname := hlexeme.isName
      rwa [String.ofList_toList] at hname
    · exact hlexeme.quote_notMem
    · exact hlexeme.unsigned
  | unknown => constructor <;> intro hkind <;> cases hk.symm.trans hkind

theorem scan_legible (source : List Char) : ∀ t ∈ (Tokens.scan source).toList, t.Legible := by
  intro t ht
  have hsplits : Splits 0 source (Tokens.scan source).body := splits_iff.mpr rfl
  rcases List.mem_append.mp ht with ht | ht
  · obtain ⟨rest, hlexeme⟩ := hsplits.longestLexeme t ht
    exact hlexeme.legible
  · obtain rfl := List.mem_singleton.mp ht
    constructor <;> exact nofun

/-! ### Trees -/

/-- The expressions with such leaves. -/
inductive Expr.Legible : Expr → Prop
  | number {x} : Decimal.Unsigned x → Legible (.number x)
  | boolean {b} : Legible (.boolean b)
  | nil : Legible .nil
  | string {s} : '"' ∉ s.toList → Legible (.string s)
  | name {name} : IsName name → Legible (.variable name)
  | assign {name e} : IsName name → Legible e → Legible (.assign name e)
  | unary {op e} : Legible e → Legible (.unary op e)
  | binary {op l r} : Legible l → Legible r → Legible (.binary op l r)
  | logical {op l r} : Legible l → Legible r → Legible (.logical op l r)

inductive Stmt.Legible : Stmt → Prop
  | expression {e} : e.Legible → Legible (.expression e)
  | print {e} : e.Legible → Legible (.print e)
  | declare {name} : IsName name → Legible (.declare name none)
  | define {name e} : IsName name → e.Legible → Legible (.declare name (some e))
  | block {ss} : (∀ s ∈ ss, Legible s) → Legible (.block ss)
  | ifThen {e yes} : e.Legible → Legible yes → Legible (.branch e yes none)
  | ifElse {e yes no} : e.Legible → Legible yes → Legible no → Legible (.branch e yes (some no))

theorem Token.Legible.leaf {t : Token} {e : Expr} (ht : t.Legible) (h : Literal t e) :
    e.Legible := by
  cases h with
  | yes => exact .boolean
  | no => exact .boolean
  | nil => exact .nil
  | number hk => exact .number (ht.number hk)
  | string hk => exact .string (ht.string hk)
  | name hk => exact .name (ht.name hk)

theorem Joins.legible {rank : Nat} {kind : Kind} {node : Expr → Expr → Expr}
    (h : Joins rank kind node) {l r : Expr} (hl : l.Legible) (hr : r.Legible) :
    (node l r).Legible := by
  cases h <;> first | exact .binary hl hr | exact .logical hl hr

theorem stmtClosed_legible :
    StmtClosed Token.Legible (fun _ e => e.Legible) fun _ s => s.Legible where
  literal := Token.Legible.leaf
  group _ := id
  unary _ := .unary
  join h := h.legible
  assign hname _ he := by
    cases hname with
    | name hname => exact .assign hname he
  expression := .expression
  print := .print
  declare ht hk := .declare (ht.name hk)
  define ht hk := .define (ht.name hk)
  block _ := .block
  ifThen he _ := .ifThen he
  ifElse he _ hyes _ := .ifElse he hyes
  elseIf he _ := .ifElse he

/-- **Parsing makes legible leaves only**, with diagnostics or without. -/
theorem parse_legible (room : Nat) (source : List Char) :
    ∀ s ∈ (parse room source).statements, s.Legible :=
  statements_closed stmtClosed_legible room (scan_legible source)

end Scriptlet
