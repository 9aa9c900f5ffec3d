import Mathlib.Data.Set.Function
import Scriptlet.Proofs.Display.Readings
import Scriptlet.Proofs.Parsing.Exactness

/-! The text of a statement tells which statement it is.

A readable form can be read off its text, and the tree can be read off the form: the head
and the number of the parts tell which node it is, the first character of an atom which leaf.
Only a literal that is too large for a double is written as a name is (`Stmt.infNamed`).
So statements that are parsed have the same text just when they are the same but for that
(`display_unambiguous`). -/
namespace Scriptlet

/-! ### Literals that are too large -/

/-- The expression with a variable named inf for every literal that is too large for a double. -/
def Expr.infNamed : Expr → Expr
  | .number x => if x = Decimal.infinity then .variable "inf" else .number x
  | .assign name value => .assign name value.infNamed
  | .unary op operand => .unary op operand.infNamed
  | .binary op left right => .binary op left.infNamed right.infNamed
  | .logical op left right => .logical op left.infNamed right.infNamed
  | e => e

mutual

/-- The same in a statement. -/
def Stmt.infNamed : Stmt → Stmt
  | .expression e => .expression e.infNamed
  | .print e => .print e.infNamed
  | .declare name initial => .declare name (initial.map Expr.infNamed)
  | .block body => .block (infNamedAll body)
  | .branch condition yes none => .branch condition.infNamed yes.infNamed none
  | .branch condition yes (some no) =>
    .branch condition.infNamed yes.infNamed (some no.infNamed)

def infNamedAll : List Stmt → List Stmt
  | [] => []
  | s :: rest => s.infNamed :: infNamedAll rest

end

/-! ### Trees of forms -/

namespace Form

/-- The number without a sign that is written so. There is one at most, which is all that is
needed here: how to read it does not matter. -/
noncomputable def numberOf : String → Float :=
  Function.invFunOn (Decimal.write "nan") {x | Decimal.Unsigned x}

/-- The leaf that is a word. -/
def word : String → Expr
  | "true" => .boolean true
  | "false" => .boolean false
  | "nil" => .nil
  | name => .variable name

/-- A quote begins a string and a digit a number; all other leaves are words. -/
noncomputable def leaf (text : String) : Expr :=
  match text.toList with
  | '"' :: rest => .string (String.ofList rest.dropLast)
  | c :: _ => if c.isDigit then .number (numberOf text) else word text
  | [] => .nil

def unaryOp : String → UnaryOp
  | "!" => .not
  | _ => .negate

def binaryOp : String → BinaryOp
  | "+" => .plus
  | "-" => .minus
  | "*" => .star
  | "/" => .slash
  | "==" => .equal
  | "!=" => .notEqual
  | ">" => .compare .greater
  | ">=" => .compare .greaterEqual
  | "<" => .compare .less
  | _ => .compare .lessEqual

/-- The expression with this reading. -/
noncomputable def expr : Form → Expr
  | .atom text => leaf text
  | .group head [operand] => .unary (unaryOp head) operand.expr
  | .group "=" [name, value] => .assign name.text value.expr
  | .group "and" [left, right] => .logical .and left.expr right.expr
  | .group "or" [left, right] => .logical .or left.expr right.expr
  | .group head [left, right] => .binary (binaryOp head) left.expr right.expr
  | _ => .nil

mutual

/-- The statement with this reading. -/
noncomputable def stmt : Form → Stmt
  | .group ";" [e] => .expression e.expr
  | .group "print" [e] => .print e.expr
  | .group "let" [name] => .declare name.text none
  | .group "let" [name, e] => .declare name.text (some e.expr)
  | .group "if" [condition, yes] => .branch condition.expr yes.stmt none
  | .group "if" [condition, yes, no] => .branch condition.expr yes.stmt (some no.stmt)
  | .group _ body => .block (stmts body)
  | _ => .block []

noncomputable def stmts : List Form → List Stmt
  | [] => []
  | f :: rest => f.stmt :: stmts rest

end

/-! ### Leaves -/

theorem numberOf_write {x : Float} (h : Decimal.Unsigned x) :
    numberOf (Decimal.write "nan" x) = x :=
  Set.InjOn.leftInvOn_invFunOn (fun _ hx _ hy => Decimal.write_injective hx hy) h

theorem leaf_digit {text : String} {c : Char} {rest : List Char} (h : text.toList = c :: rest)
    (hc : c.isDigit = true) : leaf text = .number (numberOf text) := by
  rw [leaf, h]
  split
  next he =>
    cases he
    cases hc
  next he =>
    cases he
    exact if_pos hc
  next he => cases he

theorem leaf_letter {text : String} {c : Char} {rest : List Char} (h : text.toList = c :: rest)
    (hc : Item.isNameChar c = true) : leaf text = word text := by
  rw [leaf, h]
  split
  next he =>
    cases he
    cases hc
  next he =>
    cases he
    rw [isDigit_of_isNameChar hc]
    rfl
  next he => cases he

theorem write_infinity : Decimal.write "nan" Decimal.infinity = "inf" := by
  decide +kernel

theorem leaf_number {x : Float} (h : Decimal.Unsigned x) :
    leaf (Decimal.write "nan" x) = (Expr.number x).infNamed := by
  rcases (h.written "nan").begins with ⟨rfl, -⟩ | ⟨c, rest, htext, hc⟩
  · rw [write_infinity, Expr.infNamed, if_pos rfl]
    rfl
  · have hfinite : x ≠ Decimal.infinity := by
      rintro rfl
      rw [write_infinity] at htext
      cases htext
      cases hc
    rw [leaf_digit htext hc, numberOf_write h, Expr.infNamed, if_neg hfinite]

theorem leaf_string (s : String) : leaf ("\"" ++ s ++ "\"") = .string s := by
  have htext : ("\"" ++ s ++ "\"").toList = '"' :: (s.toList ++ ['"']) := by simp
  rw [leaf, htext]
  show Expr.string (String.ofList (s.toList ++ ['"']).dropLast) = .string s
  rw [List.dropLast_concat, String.ofList_toList]

theorem leaf_name {name : String} (h : IsName name) : leaf name = .variable name := by
  obtain ⟨c, rest, hname⟩ := List.exists_cons_of_ne_nil h.ne_nil
  rw [leaf_letter hname (h.letters c (hname ▸ List.mem_cons_self))]
  unfold word
  split
  · exact absurd rfl (h.free .trueWord (by decide))
  · exact absurd rfl (h.free .falseWord (by decide))
  · exact absurd rfl (h.free .nilWord (by decide))
  · rfl

/-! ### Trees -/

theorem expr_unary (op : UnaryOp) (operand : Form) :
    (Form.group op.symbol [operand]).expr = .unary op operand.expr := by
  cases op <;> rfl

theorem expr_binary (op : BinaryOp) (left right : Form) :
    (Form.group op.symbol [left, right]).expr = .binary op left.expr right.expr := by
  cases op with
  | compare c => cases c <;> rfl
  | _ => rfl

theorem expr_logical (op : LogicalOp) (left right : Form) :
    (Form.group op.symbol [left, right]).expr = .logical op left.expr right.expr := by
  cases op <;> rfl

theorem stmt_block (body : List Form) : (Form.group "block" body).stmt = .block (stmts body) := by
  simp [stmt]

end Form

/-- The expression can be read off its form. -/
theorem Expr.Legible.expr_reading {e : Expr} (h : e.Legible) : e.reading.expr = e.infNamed := by
  induction h with
  | number hx => exact Form.leaf_number hx
  | @boolean b => cases b <;> rfl
  | nil => rfl
  | string => exact Form.leaf_string _
  | name hname => exact Form.leaf_name hname
  | assign _ _ ih => exact congrArg (Expr.assign _) ih
  | unary _ ih => exact (Form.expr_unary _ _).trans (congrArg (Expr.unary _) ih)
  | binary _ _ ihl ihr =>
    exact (Form.expr_binary _ _ _).trans (congrArg₂ (Expr.binary _) ihl ihr)
  | logical _ _ ihl ihr =>
    exact (Form.expr_logical _ _ _).trans (congrArg₂ (Expr.logical _) ihl ihr)

theorem stmts_bodyReadings {body : List Stmt} (h : ∀ s ∈ body, s.reading.stmt = s.infNamed) :
    Form.stmts (bodyReadings body) = infNamedAll body := by
  induction body with
  | nil => rfl
  | cons s body ih =>
    obtain ⟨hs, hbody⟩ := List.forall_mem_cons.mp h
    exact congrArg₂ List.cons hs (ih hbody)

theorem Stmt.Legible.stmt_reading {s : Stmt} (h : s.Legible) : s.reading.stmt = s.infNamed := by
  induction h with
  | expression he => exact congrArg Stmt.expression he.expr_reading
  | print he => exact congrArg Stmt.print he.expr_reading
  | declare => rfl
  | define _ he => exact congrArg (fun e => Stmt.declare _ (some e)) he.expr_reading
  | block _ ih =>
    exact (Form.stmt_block _).trans (congrArg Stmt.block (stmts_bodyReadings ih))
  | ifThen he _ ih =>
    rw [Stmt.reading, Form.stmt, he.expr_reading, ih, Stmt.infNamed]
  | ifElse he _ _ ihyes ihno =>
    rw [Stmt.reading, Form.stmt, he.expr_reading, ihyes, ihno, Stmt.infNamed]

/-! ### Texts -/

/-- The form does not tell the name from such a literal. -/
theorem Expr.form_infNamed (e : Expr) : e.infNamed.form = e.form := by
  induction e with
  | number x =>
    rw [Expr.infNamed]
    split
    next hx => rw [hx, Expr.form, Expr.form, Form.number, Form.write_infinity, Form.name]
    next => rfl
  | boolean | nil | string | «variable» => rfl
  | assign name value ih => exact congrArg (Form.assign name) ih
  | unary op operand ih => exact congrArg (Form.unary op) ih
  | binary op left right ihl ihr => exact congrArg₂ (Form.binary op) ihl ihr
  | logical op left right ihl ihr => exact congrArg₂ (Form.logical op) ihl ihr

mutual

theorem Stmt.form_infNamed : ∀ s : Stmt, s.infNamed.form = s.form
  | .expression e => congrArg Form.expression e.form_infNamed
  | .print e => congrArg Form.print e.form_infNamed
  | .declare _ none => rfl
  | .declare name (some e) => congrArg (fun f => Form.declare name (some f)) e.form_infNamed
  | .block body => congrArg Form.block (bodyForms_infNamedAll body)
  | .branch condition yes none => by
    rw [Stmt.infNamed, Stmt.form, Stmt.form, condition.form_infNamed, Stmt.form_infNamed yes]
  | .branch condition yes (some no) => by
    rw [Stmt.infNamed, Stmt.form, Stmt.form, condition.form_infNamed, Stmt.form_infNamed yes,
      Stmt.form_infNamed no]

theorem bodyForms_infNamedAll : ∀ body : List Stmt, bodyForms (infNamedAll body) = bodyForms body
  | [] => rfl
  | s :: rest => congrArg₂ List.cons (Stmt.form_infNamed s) (bodyForms_infNamedAll rest)

end

/-- Legible statements are told apart by their texts. -/
theorem Stmt.Legible.display_eq_iff {s t : Stmt} (hs : s.Legible) (ht : t.Legible) :
    s.display = t.display ↔ s.infNamed = t.infNamed := by
  constructor
  · intro h
    rw [Stmt.display, Stmt.display, ← s.text_reading, ← t.text_reading] at h
    rw [← hs.stmt_reading, ← ht.stmt_reading, hs.readable.injective ht.readable h]
  · intro h
    rw [Stmt.display, Stmt.display, ← s.form_infNamed, h, t.form_infNamed]

/-- **Display is unambiguous**, for all sources and limits, with diagnostics or without: two
statements that are parsed have the same text just when they are the same, but for literals
that are too large for a double in one where the other has the name inf. -/
theorem display_unambiguous (limit limit' : Int) (source source' : List Char) :
    ∀ s ∈ (parse limit.toNat source).statements, ∀ t ∈ (parse limit'.toNat source').statements,
      (s.display = t.display ↔ s.infNamed = t.infNamed) :=
  fun s hs t ht => (parse_legible limit.toNat source s hs).display_eq_iff
    (parse_legible limit'.toNat source' t ht)

/-! ### A name and a literal with the same text -/

/-- A literal that is too large for a double. -/
def nines : List Char :=
  List.replicate 309 '9'

theorem read?_nines : Decimal.read? (String.ofList nines) = some Decimal.infinity := by
  have hplain : Decimal.Plain nines :=
    Decimal.plain_digits fun _ hc => List.eq_of_mem_replicate hc ▸ rfl
  have hmagnitude : Decimal.magnitude? nines = some Decimal.infinity := by decide +kernel
  rw [Decimal.read?, hplain.numeralChars]
  exact hmagnitude

set_option maxRecDepth 10000 in
theorem statements_nines : (parse (0 : Int).toNat (nines ++ [';'])).statements =
    [.expression (.number Decimal.infinity)] := by
  let number : Token := ⟨.number, 0, 308, String.ofList nines⟩
  let semicolon : Token := ⟨.semicolon, 309, 309, ";"⟩
  have hbody : (Tokens.scan (nines ++ [';'])).body = [number, semicolon] := rfl
  have hvalue : number.numberValue = Decimal.infinity :=
    congrArg (fun x => x.getD Decimal.notANumber) read?_nines
  have hphrase : Phrase .expression [number] (.number number.numberValue) 0 :=
    .operation (.ofPrimary (.literal (.number rfl)))
  refine parse_statements ?_ (Nat.zero_le _)
  rw [hbody, ← hvalue]
  exact ⟨[⟨[number, semicolon], _, 0⟩],
    List.forall_mem_singleton.mpr (.statement (.expression hphrase rfl)), rfl, rfl, rfl⟩

theorem display_unambiguous_inf :
    (parse (41 : Int).toNat "inf;".toList).statements = [.expression (.variable "inf")] ∧
      (parse (0 : Int).toNat (nines ++ [';'])).statements =
        [.expression (.number Decimal.infinity)] ∧
      (Stmt.expression (.variable "inf")).display =
        (Stmt.expression (.number Decimal.infinity)).display := by
  have hname : (parse (41 : Int).toNat "inf;".toList).statements =
      [.expression (.variable "inf")] := rfl
  refine ⟨hname, statements_nines, ?_⟩
  refine (display_unambiguous 41 0 "inf;".toList (nines ++ [';']) _
    (hname ▸ List.mem_singleton_self _) _ (statements_nines ▸ List.mem_singleton_self _)).mpr ?_
  simp [Stmt.infNamed, Expr.infNamed]

end Scriptlet
