import Scriptlet.Proofs.Nesting.Mirror
import Scriptlet.Proofs.Parsing.Exactness
import Scriptlet.Proofs.Parsing.Results

/-! The limit bounds the nesting.

A tree is nested as deep as the levels that were entered for it, so what a parser
returns is nested no deeper than it has room for, also where it was put together from
what was left of a malformed source (`stmtClosed_nesting`). Counting shows the rest: the depth is
never above the limit, and every call leaves it as it was (`nesting_bounded`). -/
namespace Scriptlet

open Scriptlet.Parser

/-! ### The nesting of trees -/

/-- How many unary operators and right sides of assignments stand one inside the other. -/
def Expr.nesting : Expr → Nat
  | .assign _ value => value.nesting + 1
  | .unary _ operand => operand.nesting + 1
  | .binary _ left right => max left.nesting right.nesting
  | .logical _ left right => max left.nesting right.nesting
  | _ => 0

mutual

/-- The same with blocks and branches. -/
def Stmt.nesting : Stmt → Nat
  | .expression e => e.nesting
  | .print e => e.nesting
  | .declare _ none => 0
  | .declare _ (some e) => e.nesting
  | .block body => nestingAll body + 1
  | .branch condition yes none => max condition.nesting (yes.nesting + 1)
  | .branch condition yes (some no) =>
    max condition.nesting (max (yes.nesting + 1) (elseNesting no.nesting no))

def nestingAll : List Stmt → Nat
  | [] => 0
  | s :: rest => max s.nesting (nestingAll rest)

end

example : (Stmt.branch .nil (.block []) (some (.branch .nil (.block []) none))).nesting = 2 := rfl

theorem Joins.nesting {rank : Nat} {kind : Kind} {node : Expr → Expr → Expr}
    (h : Joins rank kind node) (l r : Expr) :
    (node l r).nesting = max l.nesting r.nesting := by
  cases h <;> rfl

theorem nestingAll_le {ss : List Stmt} {n : Nat} : nestingAll ss ≤ n ↔ ∀ s ∈ ss, s.nesting ≤ n := by
  induction ss with
  | nil => simp [nestingAll]
  | cons s ss ih => rw [nestingAll, Nat.max_le, ih, List.forall_mem_cons]

/-- Trees put together from others are nested one level deeper at the most. -/
theorem stmtClosed_nesting :
    StmtClosed (fun _ => True) (fun n e => e.nesting ≤ n) fun n s => s.nesting ≤ n where
  literal {_ _ n} _ h := by cases h <;> exact Nat.zero_le n
  group hm he := Nat.le_trans he hm.le
  unary hm he := Nat.le_trans (Nat.succ_le_succ he) hm
  join hjoins hl hr := hjoins.nesting _ _ ▸ Nat.max_le.mpr ⟨hl, hr⟩
  assign _ hm he := Nat.le_trans (Nat.succ_le_succ he) hm
  expression := id
  print := id
  declare {_ n} _ _ := Nat.zero_le n
  define _ _ := id
  block hm hss := Nat.le_trans (Nat.succ_le_succ (nestingAll_le.mpr hss)) hm
  ifThen he hm hyes := Nat.max_le.mpr ⟨he, Nat.le_trans (Nat.succ_le_succ hyes) hm⟩
  ifElse he hm hyes hk hno := Nat.max_le.mpr ⟨he, Nat.max_le.mpr
    ⟨Nat.le_trans (Nat.succ_le_succ hyes) hm, elseNesting_le (Nat.lt_of_le_of_lt hno hk)⟩⟩
  elseIf he hm hyes hno := Nat.max_le.mpr ⟨he, Nat.max_le.mpr
    ⟨Nat.le_trans (Nat.succ_le_succ hyes) hm, hno⟩⟩

/-! ### Counting -/

namespace Counting

/-- Counting returns what the mirrored parser does, or nothing for want of frames. -/
theorem Mirrors.yields {α : Type} {limit : Int} {depth : Nat} {p : Parser α} {q : Counting α}
    {good : α → Prop} (hq : Mirrors limit depth p q) (hp : Yields (fun _ => True) p good)
    {frames : Nat} {s : Progress} (hs : s.depth = depth) {a : α} (h : (q frames s).1 = .ok a) : good a := by
  have call := hq frames s hs
  rcases Nat.lt_or_ge frames (p s.cursor).frames with hbeyond | hwithin
  · rw [call.beyond hbeyond] at h
    cases h
  · rw [(call.within hwithin).1] at h
    cases ho : (p s.cursor).outcome with
    | error d =>
      rw [ho] at h
      cases h
    | ok b =>
      rw [ho] at h
      cases h
      exact hp.result ho

/-- A program with a counter is the program, or it overflows. -/
theorem program_counted (limit : Int) (frames : Nat) (ts : Tokens) :
    (program limit frames (.start ts)).1 =
        (if (parseTokens limit.toNat ts).frames ≤ frames then
          .ok (parseTokens limit.toNat ts).statements else .error .overflow) ∧
      ((parseTokens limit.toNat ts).frames ≤ frames →
        (program limit frames (.start ts)).2.noted = (parseTokens limit.toNat ts).diagnostics) := by
  have run := mirrors_program limit frames (.start ts) rfl
  obtain ⟨ss, hok⟩ := program_ok limit.toNat (.start ts)
  constructor
  · split
    · next hwithin =>
      rw [(run.within hwithin).1]
      simp only [parseTokens, Progress.start, hok]
      rfl
    · next hbeyond => exact run.beyond (Nat.lt_of_not_le hbeyond)
  · intro hwithin
    rw [(run.within hwithin).2.2]
    rfl

end Counting

/-- **The limit bounds the nesting**, for all tokens and limits. Parsing with a counter comes to
the statements and the diagnostics of the tokens, or to the end of the stack, and its depth is
zero again and was never above the limit; the statements are nested no deeper either. Wherever
an expression or a declaration is called for, with or without success, the depth is afterwards
what it was before. -/
theorem nesting_bounded (limit : Int) (frames : Nat) :
    (∀ ts, (Counting.program limit frames (.start ts)).1 =
        (if (parseTokens limit.toNat ts).frames ≤ frames then
          .ok (parseTokens limit.toNat ts).statements else .error .overflow) ∧
      ((parseTokens limit.toNat ts).frames ≤ frames →
        (Counting.program limit frames (.start ts)).2.noted =
          (parseTokens limit.toNat ts).diagnostics) ∧
      (Counting.program limit frames (.start ts)).2.depth = 0 ∧
      (Counting.program limit frames (.start ts)).2.deepest ≤ limit.toNat ∧
      ∀ s ∈ (parseTokens limit.toNat ts).statements, s.nesting ≤ limit.toNat) ∧
    ∀ s, Counting.Keeps limit s
        (Counting.expression limit (limit.toNat - s.depth) frames s).2 ∧
      (∀ e, (Counting.expression limit (limit.toNat - s.depth) frames s).1 = .ok e →
        e.nesting ≤ limit.toNat - s.depth) ∧
      Counting.Keeps limit s
        (Counting.declaration limit (limit.toNat - s.depth) frames s).2 ∧
      ∀ stmt, (Counting.declaration limit (limit.toNat - s.depth) frames s).1 = .ok (some stmt) →
        stmt.nesting ≤ limit.toNat - s.depth := by
  constructor
  · intro ts
    obtain ⟨hstatements, hnoted⟩ := Counting.program_counted limit frames ts
    have run := (Counting.mirrors_program limit frames (.start ts) rfl).keeps
    exact ⟨hstatements, hnoted, run.depth,
      Nat.le_trans run.bounded (Nat.max_le.mpr ⟨Nat.zero_le _, Nat.le_refl _⟩),
      statements_closed stmtClosed_nesting limit.toNat fun _ _ => trivial⟩
  · intro s
    have hexpression := Counting.mirrors_expression limit s.depth
    have hdeclaration := Counting.mirrors_declaration limit s.depth
    refine ⟨(hexpression frames s rfl).keeps,
      fun e he => hexpression.yields (yields_expression stmtClosed_nesting.toExprClosed _) rfl he,
      (hdeclaration frames s rfl).keeps, fun stmt hstmt => ?_⟩
    exact hdeclaration.yields (yields_recovering (yields_declaration stmtClosed_nesting _) _) rfl
      hstmt stmt rfl

end Scriptlet
