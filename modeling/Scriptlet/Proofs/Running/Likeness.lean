import Scriptlet.Run.Execute

/-! Two runs side by side.

A program and the same program with its names replaced run alike, each on scopes of
its own, if the scopes cannot be told apart through the names that the program
mentions. What that takes is a `Likeness`: a relation between scopes that answers
alike and is kept by each operation. It counts the scopes that were opened on the way,
so that these and no others are ended. There is one law for each kind of action, and
`alike_execute` draws them together by induction on the program. -/
namespace Scriptlet

/-! ### Names -/

/-- The names that an expression mentions. -/
def Expr.names : Expr → List String
  | .number _ | .boolean _ | .nil | .string _ => []
  | .variable name => [name]
  | .assign name value => name :: value.names
  | .unary _ operand => operand.names
  | .binary _ left right | .logical _ left right => left.names ++ right.names

mutual

/-- The names that a statement mentions. -/
def Stmt.names : Stmt → List String
  | .expression e | .print e => e.names
  | .declare name none => [name]
  | .declare name (some e) => name :: e.names
  | .block body => namesAll body
  | .branch condition yes none => condition.names ++ yes.names
  | .branch condition yes (some no) => condition.names ++ (yes.names ++ no.names)

/-- The names that any of the statements mentions. -/
def namesAll : List Stmt → List String
  | [] => []
  | s :: rest => s.names ++ namesAll rest

end

section
variable (f : String → String)

/-- The expression with its names replaced. -/
def Expr.renamed : Expr → Expr
  | .number x => .number x
  | .boolean b => .boolean b
  | .nil => .nil
  | .string s => .string s
  | .variable name => .variable (f name)
  | .assign name value => .assign (f name) value.renamed
  | .unary op operand => .unary op operand.renamed
  | .binary op left right => .binary op left.renamed right.renamed
  | .logical op left right => .logical op left.renamed right.renamed

mutual

/-- The statement with its names replaced. -/
def Stmt.renamed : Stmt → Stmt
  | .expression e => .expression (e.renamed f)
  | .print e => .print (e.renamed f)
  | .declare name none => .declare (f name) none
  | .declare name (some e) => .declare (f name) (some (e.renamed f))
  | .block body => .block (renamedAll body)
  | .branch condition yes none => .branch (condition.renamed f) yes.renamed none
  | .branch condition yes (some no) =>
    .branch (condition.renamed f) yes.renamed (some no.renamed)

def renamedAll : List Stmt → List Stmt
  | [] => []
  | s :: rest => s.renamed :: renamedAll rest

end

/-- The error with the name that it mentions replaced. -/
def RunError.renamed : RunError → RunError
  | .undefined name => .undefined (f name)
  | .uninitialized name => .uninitialized (f name)
  | e => e

end

/-! ### Likeness -/

/-- Scopes that cannot be told apart through the `known` names, which the second of them has
under other names. The relation is about scopes of which some number was opened on the way. -/
structure Likeness (f : String → String) (known : String → Prop)
    (like : Nat → Scopes → Scopes → Prop) : Prop where
  get : ∀ {k s t name}, like k s t → known name →
    t.get (f name) = (s.get name).mapError (RunError.renamed f)
  assign : ∀ {k s t name} (b : Binding), like k s t → known name →
    (∃ s' t', s.assign name b = .ok s' ∧ t.assign (f name) b = .ok t' ∧ like k s' t') ∨
      s.assign name b = .error (.undefined name) ∧
        t.assign (f name) b = .error (.undefined (f name))
  declare : ∀ {k s t name} (b : Binding), like k s t → known name →
    like k (s.declare name b) (t.declare (f name) b)
  push : ∀ {k s t}, like k s t → like (k + 1) s.push t.push
  pop : ∀ {k s t}, like (k + 1) s t →
    ∃ s' t', s.pop = .ok s' ∧ t.pop = .ok t' ∧ like k s' t'

/-- Machines with like scopes that have printed the same. -/
def LikeMachines (like : Scopes → Scopes → Prop) (m n : Machine) : Prop :=
  like m.scopes n.scopes ∧ n.printed = m.printed

/-! ### Actions -/

/-- Two actions end alike from like states, in like states. -/
def Alike {σ α : Type} (f : String → String) (like : σ → σ → Prop) (p q : Action σ α) : Prop :=
  ∀ s t, like s t →
    (q t).1 = (p s).1.mapError (RunError.renamed f) ∧ like (p s).2 (q t).2

section
variable {σ α β : Type} {f : String → String} {like : σ → σ → Prop}

theorem alike_result {r : Except RunError α} (h : r.mapError (RunError.renamed f) = r) :
    Alike f like (Action.ofExcept r) (Action.ofExcept r) :=
  fun _ _ hlike => ⟨h.symm, hlike⟩

theorem alike_pure (a : α) : Alike f like (pure a) (pure a) :=
  alike_result rfl

theorem alike_overflow :
    Alike f like (Action.fail .stackOverflow : Action σ α) (Action.fail .stackOverflow) :=
  alike_result rfl

theorem alike_bind {p q : Action σ α} {g h : α → Action σ β} (hfirst : Alike f like p q)
    (hthen : ∀ a, Alike f like (g a) (h a)) : Alike f like (p >>= g) (q >>= h) := by
  intro s t hlike
  obtain ⟨houtcome, hafter⟩ := hfirst s t hlike
  rcases hp : p s with ⟨r, s'⟩
  rcases hq : q t with ⟨r', t'⟩
  rw [hp, hq] at houtcome hafter
  subst houtcome
  cases r with
  | ok a =>
    rw [Action.bind_ok hp, Action.bind_ok hq]
    exact hthen a s' t' hafter
  | error e =>
    rw [Action.bind_error hp, Action.bind_error hq]
    exact ⟨rfl, hafter⟩

end

section
variable {f : String → String} {known : String → Prop} {like : Nat → Scopes → Scopes → Prop}
  (h : Likeness f known like)
include h

theorem Likeness.alike_get {name : String} (hname : known name) (k : Nat) :
    Alike f (like k) (Action.read (Scopes.get name)) (Action.read (Scopes.get (f name))) :=
  fun _ _ hlike => ⟨h.get hlike hname, hlike⟩

theorem Likeness.alike_assign {name : String} (hname : known name) (v : Value) (k : Nat) :
    Alike f (like k) (assignValue name v) (assignValue (f name) v) := by
  refine alike_bind (fun s t hlike => ?_) fun _ => alike_pure v
  rcases h.assign (some v) hlike hname with ⟨s', t', hs, ht, hafter⟩ | ⟨hs, ht⟩
  · simp only [Action.change, hs, ht]
    exact ⟨rfl, hafter⟩
  · simp only [Action.change, hs, ht]
    exact ⟨rfl, hlike⟩

end

/-! ### Expressions -/

section
variable {f : String → String}

theorem truth_renamed (context : String) (v : Value) :
    (v.truth context).mapError (RunError.renamed f) = v.truth context := by
  cases v <;> rfl

theorem unary_renamed (op : UnaryOp) (v : Value) :
    (op.apply v).mapError (RunError.renamed f) = op.apply v := by
  unfold UnaryOp.apply
  split <;> rfl

theorem binary_renamed (op : BinaryOp) (l r : Value) :
    (op.apply l r).mapError (RunError.renamed f) = op.apply l r := by
  unfold BinaryOp.apply
  split
  case h_3 => split <;> rfl
  all_goals rfl

variable {known : String → Prop} {like : Nat → Scopes → Scopes → Prop}

/-- An expression is evaluated alike, whatever names it has. -/
theorem alike_evaluate (h : Likeness f known like) (room : Nat) (e : Expr)
    (hnames : ∀ name ∈ e.names, known name) (k : Nat) :
    Alike f (like k) (evaluate room e) (evaluate room (e.renamed f)) := by
  fun_induction evaluate room e with
  | case1 e =>
    rw [evaluate]
    exact alike_overflow
  | case2 | case3 | case4 | case5 => exact alike_pure _
  | case6 room name => exact h.alike_get (hnames name List.mem_cons_self) k
  | case7 room name value ih =>
    rw [Expr.names, List.forall_mem_cons] at hnames
    exact alike_bind (ih hnames.2) fun v => h.alike_assign hnames.1 v k
  | case8 room op operand ih =>
    exact alike_bind (ih hnames) fun v => alike_result (unary_renamed op v)
  | case9 room op left right ihl ihr =>
    rw [Expr.names, List.forall_mem_append] at hnames
    exact alike_bind (ihl hnames.1) fun l => alike_bind (ihr hnames.2) fun r =>
      alike_result (binary_renamed op l r)
  | case10 room op left right ihl ihr =>
    rw [Expr.names, List.forall_mem_append] at hnames
    refine alike_bind (ihl hnames.1) fun l =>
      alike_bind (alike_result (truth_renamed op.context l)) fun b => ?_
    split
    · exact alike_pure l
    · exact ihr hnames.2

/-! ### Statements -/

theorem alike_onScopes {α : Type} {like : Scopes → Scopes → Prop} {p q : Action Scopes α}
    (h : Alike f like p q) : Alike f (LikeMachines like) (onScopes p) (onScopes q) :=
  fun m n hlike => ⟨(h m.scopes n.scopes hlike.1).1, (h m.scopes n.scopes hlike.1).2, hlike.2⟩

theorem alike_printLine {like : Scopes → Scopes → Prop} (v : Value) :
    Alike f (LikeMachines like) (printLine v) (printLine v) := by
  intro m n ⟨hscopes, hprinted⟩
  refine ⟨rfl, hscopes, ?_⟩
  show n.printed ++ _ = m.printed ++ _
  rw [hprinted]

/-- The scope that was opened is ended in both. -/
theorem alike_inScope (h : Likeness f known like) {α : Type} {p q : Action Machine α} {k : Nat}
    (hbody : Alike f (LikeMachines (like (k + 1))) p q) :
    Alike f (LikeMachines (like k)) (inScope p) (inScope q) := by
  intro m n ⟨hscopes, hprinted⟩
  obtain ⟨houtcome, hafter, hprinted'⟩ := hbody { m with scopes := m.scopes.push }
    { n with scopes := n.scopes.push } ⟨h.push hscopes, hprinted⟩
  obtain ⟨s, t, hs, ht, hlike⟩ := h.pop hafter
  simp only [inScope, hs, ht]
  exact ⟨houtcome, hlike, hprinted'⟩

theorem alike_declare (h : Likeness f known like) {name : String} (hname : known name)
    (b : Binding) (k : Nat) :
    Alike f (LikeMachines (like k)) (onScopes (Action.change fun s => .ok (s.declare name b)))
      (onScopes (Action.change fun s => .ok (s.declare (f name) b))) :=
  alike_onScopes fun _ _ hlike => ⟨rfl, h.declare b hlike hname⟩

mutual

/-- **A statement is executed alike**, whatever names it has. -/
theorem alike_execute (h : Likeness f known like) (room : Nat) (stmt : Stmt)
    (hnames : ∀ name ∈ stmt.names, known name) (k : Nat) :
    Alike f (LikeMachines (like k)) (execute room stmt) (execute room (stmt.renamed f)) := by
  match room, stmt with
  | 0, stmt =>
    rw [execute, execute]
    exact alike_overflow
  | room + 1, .expression e =>
    rw [execute, Stmt.renamed, execute]
    exact alike_bind (alike_onScopes (alike_evaluate h room e hnames k)) fun _ => alike_pure ()
  | room + 1, .print e =>
    rw [execute, Stmt.renamed, execute]
    exact alike_bind (alike_onScopes (alike_evaluate h room e hnames k)) fun v => alike_printLine v
  | room + 1, .declare name none =>
    rw [execute, Stmt.renamed, execute]
    exact alike_declare h (hnames name List.mem_cons_self) none k
  | room + 1, .declare name (some e) =>
    rw [Stmt.names, List.forall_mem_cons] at hnames
    rw [execute, Stmt.renamed, execute]
    exact alike_bind (alike_onScopes (alike_evaluate h room e hnames.2 k)) fun v =>
      alike_declare h hnames.1 (some v) k
  | room + 1, .block body =>
    rw [execute, Stmt.renamed, execute]
    exact alike_inScope h (alike_executeAll h room body hnames (k + 1))
  | room + 1, .branch condition yes none =>
    rw [Stmt.names, List.forall_mem_append] at hnames
    rw [execute, Stmt.renamed, execute]
    refine alike_bind (alike_onScopes (alike_evaluate h room condition hnames.1 k)) fun v =>
      alike_bind (alike_result (truth_renamed ifContext v)) fun b => ?_
    split
    · exact alike_execute h room yes hnames.2 k
    · exact alike_pure ()
  | room + 1, .branch condition yes (some no) =>
    rw [Stmt.names, List.forall_mem_append, List.forall_mem_append] at hnames
    rw [execute, Stmt.renamed, execute]
    refine alike_bind (alike_onScopes (alike_evaluate h room condition hnames.1 k)) fun v =>
      alike_bind (alike_result (truth_renamed ifContext v)) fun b => ?_
    split
    · exact alike_execute h room yes hnames.2.1 k
    · exact alike_execute h room no hnames.2.2 k

theorem alike_executeAll (h : Likeness f known like) (room : Nat) (body : List Stmt)
    (hnames : ∀ name ∈ namesAll body, known name) (k : Nat) :
    Alike f (LikeMachines (like k)) (executeAll room body)
      (executeAll room (renamedAll f body)) := by
  match body with
  | [] =>
    rw [executeAll, renamedAll, executeAll]
    exact alike_pure ()
  | s :: rest =>
    rw [namesAll, List.forall_mem_append] at hnames
    rw [executeAll, renamedAll, executeAll]
    exact alike_bind (alike_execute h room s hnames.1 k) fun _ =>
      alike_executeAll h room rest hnames.2 k

end

end

end Scriptlet
