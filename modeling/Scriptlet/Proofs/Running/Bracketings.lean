import Scriptlet.Proofs.Parsing.Exactness
import Scriptlet.Proofs.Running.Room

/-! Chains of one logical operator mean the same however they are bracketed.

A bracketing says which operands a chain has and how they are put into nodes. However that
is done, the operands are evaluated from left to right until one of them settles the
matter (`LeftToRight`): an operand that is the right one of an inner node goes unchecked
there, and is checked as the left operand of the node around it unless it is the last of
all. So every bracketing does what the operands do one behind the other (`inOrder`), and
`bracketing_irrelevant` compares any two. The parser makes the one that groups to the left
(`Chain.parsed`). -/
namespace Scriptlet

/-! ### Bracketings -/

/-- A way to put operands into nodes of one operator. -/
inductive Bracketing where
  | operand (e : Expr)
  | join (left right : Bracketing)

namespace Bracketing

def expr (op : LogicalOp) : Bracketing → Expr
  | operand e => e
  | join left right => .logical op (left.expr op) (right.expr op)

def operands : Bracketing → List Expr
  | operand e => [e]
  | join left right => left.operands ++ right.operands

theorem operands_ne_nil (b : Bracketing) : b.operands ≠ [] := by
  induction b with
  | operand => exact List.cons_ne_nil _ _
  | join left right ihl _ => exact List.append_ne_nil_of_left_ne_nil ihl _

/-- Operands that group to the left. -/
def leftNested (first : Expr) (rest : List Expr) : Bracketing :=
  rest.foldl (fun b e => join b (operand e)) (operand first)

/-- Operands that group to the right. -/
def rightNested (first : Expr) : List Expr → Bracketing
  | [] => operand first
  | second :: rest => join (operand first) (rightNested second rest)

theorem operands_leftNested (first : Expr) (rest : List Expr) :
    (leftNested first rest).operands = first :: rest := by
  have hfold (b : Bracketing) : (rest.foldl (fun b e => join b (operand e)) b).operands =
      b.operands ++ rest := by
    induction rest generalizing b with
    | nil => exact (List.append_nil _).symm
    | cons e rest ih => exact (ih _).trans (List.append_assoc b.operands [e] rest)
  exact hfold (operand first)

theorem operands_rightNested (first : Expr) (rest : List Expr) :
    (rightNested first rest).operands = first :: rest := by
  induction rest generalizing first with
  | nil => rfl
  | cons second rest ih => exact congrArg (first :: ·) (ih second)

end Bracketing

/-! ### Chains as they are parsed -/

/-- The rank of a logical operator. -/
def LogicalOp.rank : LogicalOp → Nat
  | .or => 0
  | .and => 1

/-- Tokens of a chain: its operands, of a rank that binds tighter, with the operator between
them. It nests as deep as its operands do. -/
inductive Chain (op : LogicalOp) : List Token → Expr → List Expr → Nat → Prop
  | first {ts e n} : Phrase (.operation (op.rank + 1)) ts e n → Chain op ts e [] n
  | next {ts e es m t us f n} : Chain op ts e es m → Joins op.rank t.kind (.logical op) →
      Phrase (.operation (op.rank + 1)) us f n → Chain op (ts ++ t :: us) e (es ++ [f]) (max m n)

namespace Chain

variable {op : LogicalOp} {ts : List Token} {first : Expr} {rest : List Expr} {n : Nat}

/-- A chain is an operation, the tree of which groups to the left. -/
theorem phrase (h : Chain op ts first rest n) :
    Phrase (.operation op.rank) ts ((Bracketing.leftNested first rest).expr op) n := by
  induction h with
  | first h => exact .tighter h
  | @next ts e es m t us f n _ hjoins hlast ih =>
    have hgroups : Bracketing.leftNested e (es ++ [f]) =
        .join (Bracketing.leftNested e es) (.operand f) := by
      rw [Bracketing.leftNested, List.foldl_append]
      rfl
    rw [hgroups]
    exact .join ih hjoins hlast

/-- The parser makes that tree of a chain. -/
theorem parsed (h : Chain op ts first rest n) {source : List Char} {semicolon : Token}
    (hkind : semicolon.kind = .semicolon) (hsource : (Tokens.scan source).body = ts ++ [semicolon])
    {room : Nat} (hroom : n ≤ room) : (parse room source).statements =
      [.expression ((Bracketing.leftNested first rest).expr op)] := by
  have hphrase : Phrase .expression ts ((Bracketing.leftNested first rest).expr op) n := by
    cases op with
    | or => exact .operation h.phrase
    | and => exact .operation (.tighter h.phrase)
  refine parse_statements (n := n) ⟨[⟨ts ++ [semicolon], _, n⟩],
    List.forall_mem_singleton.mpr (.statement (.expression hphrase hkind)), ?_, rfl, ?_⟩ hroom
  · rw [hsource]
    exact (List.append_nil _).symm
  · exact (Nat.max_zero n).symm

end Chain

/-! ### One operand after the other -/

/-- What is left of a chain when its left side has a value: nothing if that decides. -/
def goOn {σ : Type} (op : LogicalOp) (v : Value) (right : Action σ Value) : Action σ Value := do
  let b ← Action.ofExcept (v.truth op.context)
  if op.decides b then return v else right

/-- Scopes, and the operands that have been evaluated so far. -/
abbrev Noted := Scopes × List Expr

/-- Evaluates an operand, and notes that. -/
def evaluateNoting (room : Nat) (e : Expr) : Action Noted Value := fun s =>
  let (r, t) := evaluate room e s.1
  (r, t, s.2 ++ [e])

/-- Evaluates a chain as it is bracketed, and notes the operands that it comes to. -/
def Bracketing.run (op : LogicalOp) : Nat → Bracketing → Action Noted Value
  | room, .operand e => evaluateNoting room e
  | 0, .join _ _ => Action.fail .stackOverflow
  | room + 1, .join left right => do
    let v ← left.run op (room - 1)
    goOn op v (right.run op (room - 1))

/-- Evaluates the operands of a chain one behind the other. -/
def inOrder (op : LogicalOp) (room : Nat) : Expr → List Expr → Action Noted Value
  | e, [] => evaluateNoting room e
  | e, f :: rest => do
    let v ← evaluateNoting room e
    goOn op v (inOrder op room f rest)

/-- A chain is settled where its left side is, if that decides. -/
theorem goOn_bind {σ : Type} (op : LogicalOp) (v : Value) (p q : Action σ Value) :
    (goOn op v p >>= fun w => goOn op w q) = goOn op v (p >>= fun w => goOn op w q) := by
  cases v with
  | boolean b =>
    show ((if op.decides b then pure (.boolean b) else p) >>= fun w => goOn op w q) =
      if op.decides b then pure (.boolean b) else p >>= fun w => goOn op w q
    cases hb : op.decides b with
    | true =>
      show (if op.decides b then pure (.boolean b) else q) = pure (.boolean b)
      rw [hb]
      rfl
    | false => rfl
  | _ => rfl

/-- What stands in front of an operand in order is a left side. -/
theorem inOrder_append (op : LogicalOp) (room : Nat) (e : Expr) (es : List Expr) (f : Expr)
    (rest : List Expr) :
    inOrder op room e (es ++ f :: rest) =
      inOrder op room e es >>= fun v => goOn op v (inOrder op room f rest) := by
  induction es generalizing e with
  | nil => rfl
  | cons g es ih =>
    rw [List.cons_append, inOrder, ih, inOrder, bind_assoc]
    exact bind_congr fun v => (goOn_bind op v _ _).symm

theorem outlasts_goOn {σ : Type} {p q : Action σ Value} (op : LogicalOp) (v : Value)
    (h : Outlasts p q) : Outlasts (goOn op v p) (goOn op v q) := by
  refine outlasts_bind (outlasts_refl _) fun b => ?_
  split
  · exact outlasts_refl _
  · exact h

theorem noting_outlasts {room more : Nat} (h : room ≤ more) (e : Expr) :
    Outlasts (evaluateNoting more e) (evaluateNoting room e) := by
  intro s hs
  unfold evaluateNoting
  rw [evaluate_outlasts h e s.1 hs]

/-- Every bracketing does what its operands do in order, unless the stack is too small for it. -/
theorem run_inOrder {op : LogicalOp} {room more : Nat} (hmore : room ≤ more) (b : Bracketing)
    {e : Expr} {rest : List Expr} (h : b.operands = e :: rest) :
    Outlasts (inOrder op more e rest) (b.run op room) := by
  induction b generalizing room e rest with
  | operand f =>
    obtain ⟨rfl, rfl⟩ := List.cons.inj h
    rw [Bracketing.run]
    exact noting_outlasts hmore f
  | join left right ihl ihr =>
    obtain _ | room := room
    · exact outlasts_overflow _
    have hroom : room - 1 ≤ more := by omega
    obtain ⟨e', es, hleft⟩ := List.exists_cons_of_ne_nil left.operands_ne_nil
    obtain ⟨f, fs, hright⟩ := List.exists_cons_of_ne_nil right.operands_ne_nil
    rw [Bracketing.operands, hleft, hright, List.cons_append] at h
    obtain ⟨rfl, rfl⟩ := List.cons.inj h
    rw [inOrder_append, Bracketing.run]
    exact outlasts_bind (ihl hroom hleft) fun v => outlasts_goOn op v (ihr hroom hright)

/-- Without the notes it is the evaluation of the chain. -/
theorem run_evaluates (op : LogicalOp) (room : Nat) (b : Bracketing) (s : Scopes)
    (seen : List Expr) :
    (b.run op room (s, seen)).1 = (evaluate room (b.expr op) s).1 ∧
      (b.run op room (s, seen)).2.1 = (evaluate room (b.expr op) s).2 := by
  induction b generalizing room s seen with
  | operand e => exact ⟨rfl, rfl⟩
  | join left right ihl ihr =>
    obtain _ | room := room
    · exact ⟨rfl, rfl⟩
    obtain ⟨hresult, hscopes⟩ := ihl (room - 1) s seen
    rw [Bracketing.run, Bracketing.expr, evaluate]
    rcases hrun : left.run op (room - 1) (s, seen) with ⟨r, t, seen'⟩
    rcases hvalue : evaluate (room - 1) (left.expr op) s with ⟨r', t'⟩
    rw [hrun, hvalue] at hresult hscopes
    obtain rfl : r = r' := hresult
    obtain rfl : t = t' := hscopes
    cases r with
    | error e =>
      rw [Action.bind_error hrun, Action.bind_error hvalue]
      exact ⟨rfl, rfl⟩
    | ok v =>
      rw [Action.bind_ok hrun, Action.bind_ok hvalue]
      cases v with
      | boolean b =>
        show ((if op.decides b then pure (.boolean b) else right.run op (room - 1) :
            Action Noted Value) (t, seen')).1 =
            ((if op.decides b then pure (.boolean b) else evaluate (room - 1) (right.expr op) :
              Action Scopes Value) t).1 ∧
          ((if op.decides b then pure (.boolean b) else right.run op (room - 1) :
            Action Noted Value) (t, seen')).2.1 =
            ((if op.decides b then pure (.boolean b) else evaluate (room - 1) (right.expr op) :
              Action Scopes Value) t).2
        cases op.decides b with
        | true => exact ⟨rfl, rfl⟩
        | false => exact ihr (room - 1) t seen'
      | _ => exact ⟨rfl, rfl⟩

/-! ### What a chain comes to -/

/-- How a chain ends that has these operands: which of them are evaluated, and with what result.
Every one that is followed by another has to be a boolean. -/
inductive LeftToRight (op : LogicalOp) (room : Nat) :
    List Expr → Scopes → List Expr → Except RunError Value × Scopes → Prop
  /-- The last operand may have any value. -/
  | last {e s} : LeftToRight op room [e] s [e] (evaluate room e s)
  | fails {e f rest s err t} : evaluate room e s = (.error err, t) →
      LeftToRight op room (e :: f :: rest) s [e] (.error err, t)
  | refuses {e f rest s v t} : evaluate room e s = (.ok v, t) → (∀ b, v ≠ .boolean b) →
      LeftToRight op room (e :: f :: rest) s [e] (.error (.notBoolean op.context v.kind), t)
  | decides {e f rest s b t} : evaluate room e s = (.ok (.boolean b), t) → op.decides b = true →
      LeftToRight op room (e :: f :: rest) s [e] (.ok (.boolean b), t)
  | passes {e f rest s b t seen o} : evaluate room e s = (.ok (.boolean b), t) →
      op.decides b = false → LeftToRight op room (f :: rest) t seen o →
      LeftToRight op room (e :: f :: rest) s (e :: seen) o

theorem inOrder_leftToRight (op : LogicalOp) (room : Nat) (e : Expr) (rest : List Expr)
    (s : Scopes) (before : List Expr) :
    ∃ seen o, inOrder op room e rest (s, before) = (o.1, o.2, before ++ seen) ∧
      LeftToRight op room (e :: rest) s seen o := by
  induction rest generalizing e s before with
  | nil => exact ⟨[e], evaluate room e s, rfl, .last⟩
  | cons f rest ih =>
    rcases hvalue : evaluate room e s with ⟨err | v, t⟩
    · refine ⟨[e], (.error err, t), ?_, .fails hvalue⟩
      exact Action.bind_error (by rw [evaluateNoting, hvalue]) _
    · have hfirst : evaluateNoting room e (s, before) = (.ok v, t, before ++ [e]) := by
        rw [evaluateNoting, hvalue]
      rw [inOrder, Action.bind_ok hfirst]
      cases v with
      | boolean b =>
        show ∃ seen o, (if op.decides b then pure (.boolean b) else inOrder op room f rest :
            Action Noted Value) (t, before ++ [e]) = (o.1, o.2, before ++ seen) ∧
          LeftToRight op room (e :: f :: rest) s seen o
        cases hb : op.decides b with
        | true => exact ⟨[e], (.ok (.boolean b), t), rfl, .decides hvalue hb⟩
        | false =>
          obtain ⟨seen, o, hrun, hsettled⟩ := ih f t (before ++ [e])
          rw [List.append_assoc] at hrun
          exact ⟨e :: seen, o, hrun, .passes hvalue hb hsettled⟩
      | _ => exact ⟨[e], _, rfl, .refuses hvalue nofun⟩

/-- **Bracketing is irrelevant.** Two chains of one logical operator with the same operands have
the same value or the same error, leave the same scopes and evaluate the same operands in the same
order, unless the stack is too small for one of them. The operands are evaluated from left to right
up to the first that decides; each that is followed by another must be a boolean, and the last may
have any value. The parser's bracketing of a chain is the one that groups to the left. -/
theorem bracketing_irrelevant (op : LogicalOp) {a b : Bracketing}
    (hsame : a.operands = b.operands) {room : Nat} {s : Scopes}
    (ha : (evaluate room (a.expr op) s).1 ≠ .error .stackOverflow)
    (hb : (evaluate room (b.expr op) s).1 ≠ .error .stackOverflow) :
    evaluate room (a.expr op) s = evaluate room (b.expr op) s ∧
      a.run op room (s, []) = b.run op room (s, []) ∧
      (∃ seen, a.run op room (s, []) =
          ((evaluate room (a.expr op) s).1, (evaluate room (a.expr op) s).2, seen) ∧
        LeftToRight op room a.operands s seen (evaluate room (a.expr op) s)) ∧
      ∀ (source : List Char) (ts : List Token) (semicolon : Token) (first : Expr)
        (rest : List Expr) (depth limit : Nat), Chain op ts first rest depth → depth ≤ limit →
        semicolon.kind = .semicolon → (Tokens.scan source).body = ts ++ [semicolon] →
        (Bracketing.leftNested first rest).operands = first :: rest ∧
        (parse limit source).statements =
          [.expression ((Bracketing.leftNested first rest).expr op)] := by
  obtain ⟨e, rest, hoperands⟩ := List.exists_cons_of_ne_nil a.operands_ne_nil
  obtain ⟨haresult, hascopes⟩ := run_evaluates op room a s []
  obtain ⟨hbresult, hbscopes⟩ := run_evaluates op room b s []
  have hrun : inOrder op room e rest (s, []) = a.run op room (s, []) :=
    run_inOrder (Nat.le_refl room) a hoperands _ (by rwa [haresult])
  have hrun' : inOrder op room e rest (s, []) = b.run op room (s, []) :=
    run_inOrder (Nat.le_refl room) b (hsame ▸ hoperands) _ (by rwa [hbresult])
  have hruns := hrun.symm.trans hrun'
  obtain ⟨seen, o, horder, hsettled⟩ := inOrder_leftToRight op room e rest s []
  have hall := hrun.symm.trans horder
  have ho : evaluate room (a.expr op) s = o := by
    rw [hall] at haresult hascopes
    exact Prod.ext haresult.symm hascopes.symm
  refine ⟨Prod.ext ?_ ?_, hruns, ⟨seen, by rw [ho, hall]; rfl, by rwa [ho, hoperands]⟩,
    fun source ts semicolon first rest depth limit hchain hlimit hkind hsource =>
      ⟨Bracketing.operands_leftNested first rest, hchain.parsed hkind hsource hlimit⟩⟩
  · rw [← haresult, ← hbresult, hruns]
  · rw [← hascopes, ← hbscopes, hruns]

/-- An assignment, a variable and a last operand that is no boolean; and a chain as it is parsed. -/
theorem bracketing_irrelevant_nested :
    evaluate 7 ((Bracketing.leftNested (.assign "x" (.boolean true)) [.variable "x", .nil]).expr .and)
        ⟨[("x", some .nil)], []⟩ = (.ok .nil, ⟨[("x", some (.boolean true))], []⟩) ∧
      evaluate 7
        ((Bracketing.rightNested (.assign "x" (.boolean true)) [.variable "x", .nil]).expr .and)
        ⟨[("x", some .nil)], []⟩ = (.ok .nil, ⟨[("x", some (.boolean true))], []⟩) ∧
      (parse 0 "x and nil;".toList).statements =
        [.expression ((Bracketing.leftNested (.variable "x") [.nil]).expr .and)] := by
  have hleft : evaluate 7
      ((Bracketing.leftNested (.assign "x" (.boolean true)) [.variable "x", .nil]).expr .and)
      ⟨[("x", some .nil)], []⟩ = (.ok .nil, ⟨[("x", some (.boolean true))], []⟩) := rfl
  have hright : (evaluate 7
      ((Bracketing.rightNested (.assign "x" (.boolean true)) [.variable "x", .nil]).expr .and)
      ⟨[("x", some .nil)], []⟩).1 = .ok .nil := rfl
  obtain ⟨hsame, -, -, hparsed⟩ := bracketing_irrelevant .and
    ((Bracketing.operands_leftNested (.assign "x" (.boolean true)) [.variable "x", .nil]).trans
      (Bracketing.operands_rightNested _ _).symm)
    (by rw [hleft]; nofun) (by rw [hright]; nofun)
  have hoperand {t : Token} {e : Expr} (h : Literal t e) :
      Phrase (.operation (LogicalOp.rank .and + 1)) [t] e 0 :=
    .tighter (.tighter (.tighter (.tighter (.operand (.primary (.literal h))))))
  have hfirst : Chain .and [⟨.identifier, 0, 0, "x"⟩] (.variable "x") [] 0 :=
    .first (hoperand (.name rfl))
  have hchain : Chain .and
      [⟨.identifier, 0, 0, "x"⟩, ⟨.andWord, 2, 4, "and"⟩, ⟨.nilWord, 6, 8, "nil"⟩]
      (.variable "x") [.nil] 0 :=
    .next hfirst .and (hoperand (.nil rfl))
  exact ⟨hleft, hsame.symm.trans hleft,
    (hparsed _ _ ⟨.semicolon, 9, 9, ";"⟩ _ _ 0 0 hchain (Nat.le_refl 0) rfl (by decide +kernel)).2⟩

end Scriptlet
