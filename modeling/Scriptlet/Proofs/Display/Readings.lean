import Scriptlet.Proofs.Display.Leaves
import Scriptlet.Proofs.Display.Numbers
import Scriptlet.Proofs.Display.Readability
import Scriptlet.Tree.Display

/-! The texts of trees as texts of readable forms.

In the form of a tree a name may stand in the head, behind the keyword, and blocks have
a form of their own. Where names are parts and blocks are groups (`Stmt.reading`) the text is the
same, and for trees with leaves like those of parsed ones that form is readable
(`Stmt.Legible.readable`). -/
namespace Scriptlet

open Form (IsWord isWord_iff isWordChar isWordChar_of Readable)

/-! ### Readings -/

/-- The form of an expression, with the name of an assignment as its first part. -/
def Expr.reading : Expr → Form
  | .number x => .number x
  | .boolean b => .boolean b
  | .nil => .nil
  | .string s => .string s
  | .variable name => .name name
  | .assign name value => .group "=" [.name name, value.reading]
  | .unary op operand => .group op.symbol [operand.reading]
  | .binary op left right => .group op.symbol [left.reading, right.reading]
  | .logical op left right => .group op.symbol [left.reading, right.reading]

mutual

/-- The same for statements, with blocks as groups. -/
def Stmt.reading : Stmt → Form
  | .expression e => .group ";" [e.reading]
  | .print e => .group "print" [e.reading]
  | .declare name none => .group "let" [.name name]
  | .declare name (some e) => .group "let" [.name name, e.reading]
  | .block body => .group "block" (bodyReadings body)
  | .branch condition yes none => .group "if" [condition.reading, yes.reading]
  | .branch condition yes (some no) =>
    .group "if" [condition.reading, yes.reading, no.reading]

def bodyReadings : List Stmt → List Form
  | [] => []
  | s :: rest => s.reading :: bodyReadings rest

end

/-- A name behind a keyword reads the same as a head and as a part. -/
theorem Form.text_named (word name : String) (parts : List Form) :
    (Form.group (word ++ " " ++ name) parts).text =
      (Form.group word (.name name :: parts)).text := by
  simp only [Form.text, Form.texts, Form.name, String.append_assoc]

theorem Expr.text_reading (e : Expr) : e.reading.text = e.form.text := by
  induction e with
  | number | boolean | nil | string | «variable» => rfl
  | assign name value ih =>
    refine (Form.text_named "=" name [value.reading]).symm.trans ?_
    simp only [Expr.form, Form.assign, Form.text, Form.texts, ih]
    rfl
  | unary op operand ih =>
    simp only [Expr.reading, Expr.form, Form.unary, Form.text, Form.texts, ih]
  | binary op left right ihl ihr =>
    simp only [Expr.reading, Expr.form, Form.binary, Form.text, Form.texts, ihl, ihr]
  | logical op left right ihl ihr =>
    simp only [Expr.reading, Expr.form, Form.logical, Form.text, Form.texts, ihl, ihr]

mutual

theorem Stmt.text_reading : ∀ s : Stmt, s.reading.text = s.form.text
  | .expression e => by
    simp only [Stmt.reading, Stmt.form, Form.expression, Form.text, Form.texts, e.text_reading]
  | .print e => by
    simp only [Stmt.reading, Stmt.form, Form.print, Form.text, Form.texts, e.text_reading]
  | .declare name none => (Form.text_named "let" name []).symm
  | .declare name (some e) => by
    refine (Form.text_named "let" name [e.reading]).symm.trans ?_
    simp only [Stmt.form, Form.declare, Option.toList, Form.text, Form.texts, e.text_reading]
    rfl
  | .block body => by
    simp only [Stmt.reading, Stmt.form, Form.text, texts_bodyReadings body]
    rfl
  | .branch condition yes none => by
    simp only [Stmt.reading, Stmt.form, Form.branch, Option.toList, Form.text, Form.texts,
      condition.text_reading, Stmt.text_reading yes]
  | .branch condition yes (some no) => by
    simp only [Stmt.reading, Stmt.form, Form.branch, Option.toList, Form.text, Form.texts,
      condition.text_reading, Stmt.text_reading yes, Stmt.text_reading no]

theorem texts_bodyReadings : ∀ body : List Stmt,
    Form.texts (bodyReadings body) = Form.texts (bodyForms body)
  | [] => rfl
  | s :: rest => by
    simp only [bodyReadings, bodyForms, Form.texts, Stmt.text_reading s, texts_bodyReadings rest]

end

/-! ### Words -/

theorem IsName.isWord {name : String} (h : IsName name) : IsWord name :=
  ⟨h.ne_nil, fun c hc => isWordChar_of (by decide) (h.letters c hc)⟩

theorem Decimal.Written.isWord {x : Float} {text : String} (h : Written x text.toList) :
    IsWord text := by
  have hdigit {c : Char} : c.isDigit = true → isWordChar c = true := isWordChar_of (by decide)
  generalize htext : text.toList = chars at h
  cases h with
  | infinite => exact isWord_iff.mpr (by rw [htext]; decide)
  | whole =>
    refine ⟨?_, fun c hc => hdigit (allDigits_toDigits _ c (htext ▸ hc))⟩
    rw [htext]
    exact Nat.toDigits_ne_nil
  | fractional _ _ hdenotes =>
    obtain ⟨c, rest, hbegins, -⟩ := hdenotes.begins
    refine ⟨?_, fun d hd => ?_⟩
    · rw [htext, hbegins]
      exact List.cons_ne_nil c rest
    · have hmarks : ['.', 'e', '-'].all isWordChar = true := by decide
      exact (hdenotes.plain d (htext ▸ hd)).elim hdigit (List.all_eq_true.mp hmarks d)

theorem UnaryOp.isWord (op : UnaryOp) : IsWord op.symbol := by
  cases op <;> decide

theorem BinaryOp.isWord (op : BinaryOp) : IsWord op.symbol := by
  cases op with
  | compare c => cases c <;> decide
  | _ => decide

theorem LogicalOp.isWord (op : LogicalOp) : IsWord op.symbol := by
  cases op <;> decide

/-! ### Readable readings -/

theorem IsName.readable {name : String} (h : IsName name) : Readable (.name name) :=
  .word h.isWord

theorem Expr.Legible.readable {e : Expr} (h : e.Legible) : Readable e.reading := by
  induction h with
  | number hx => exact .word (hx.written "nan").isWord
  | @boolean b => cases b <;> exact .word (by decide)
  | nil => exact .word (by decide)
  | string hquote => exact .quoted hquote
  | name hname => exact hname.readable
  | assign hname _ ih => exact .group (by decide) (by simp [hname.readable, ih])
  | unary _ ih => exact .group (UnaryOp.isWord _) (by simp [ih])
  | binary _ _ ihl ihr => exact .group (BinaryOp.isWord _) (by simp [ihl, ihr])
  | logical _ _ ihl ihr => exact .group (LogicalOp.isWord _) (by simp [ihl, ihr])

theorem readable_bodyReadings {body : List Stmt} (h : ∀ s ∈ body, Readable s.reading) :
    ∀ f ∈ bodyReadings body, Readable f := by
  induction body with
  | nil => exact nofun
  | cons s body ih =>
    obtain ⟨hs, hbody⟩ := List.forall_mem_cons.mp h
    exact List.forall_mem_cons.mpr ⟨hs, ih hbody⟩

theorem Stmt.Legible.readable {s : Stmt} (h : s.Legible) : Readable s.reading := by
  induction h with
  | expression he => exact .group (by decide) (by simp [he.readable])
  | print he => exact .group (by decide) (by simp [he.readable])
  | declare hname => exact .group (by decide) (by simp [hname.readable])
  | define hname he => exact .group (by decide) (by simp [hname.readable, he.readable])
  | block _ ih => exact .group (by decide) (readable_bodyReadings ih)
  | ifThen he _ ih => exact .group (by decide) (by simp [he.readable, ih])
  | ifElse he _ _ ihyes ihno =>
    exact .group (by decide) (by simp [he.readable, ihyes, ihno])

end Scriptlet
