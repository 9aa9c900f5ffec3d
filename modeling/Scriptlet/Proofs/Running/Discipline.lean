import Scriptlet.Proofs.Running.Evolution
import Scriptlet.Run.Execute

/-! The discipline of scopes.

Every node leaves the scopes as `Evolved` allows, and none ends the global scope,
whatever the node comes to: a result, an error of the program, or an end of the
stack somewhere inside. Sequencing upholds the discipline if both steps do, so there
is one lemma for each kind of action and one case for each kind of node.

What a node assigns to can be read off it. What it declares in the scope in which
it stands depends on how its conditions come out, and that is what `Declares`
follows. -/
namespace Scriptlet

/-! ### Actions -/

section Actions

variable {σ α β : Type} (view : σ → Scopes) {targets others : List String}
  {declared declared' : String → Binding → Prop} {s : σ}

/-- Whether an action on a state with scopes upholds the discipline there. -/
structure Orderly (targets : List String) (declared : String → Binding → Prop)
    (p : Action σ α) (s : σ) : Prop where
  evolved : Evolved targets declared (view s) (view (p s).2)
  notGlobal : (p s).1 ≠ .error .globalScope

variable {view}

theorem orderly_result {r : Except RunError α} (h : r ≠ .error .globalScope) :
    Orderly view targets declared (Action.ofExcept r) s :=
  ⟨.refl _ _ _, h⟩

theorem orderly_pure (a : α) : Orderly view targets declared (pure a : Action σ α) s :=
  orderly_result nofun

theorem orderly_overflow :
    Orderly view targets declared (Action.fail .stackOverflow : Action σ α) s :=
  orderly_result nofun

theorem ofExcept_eq {r r' : Except RunError α} {t : σ} (h : Action.ofExcept r s = (r', t)) :
    r = r' ∧ s = t := by
  cases h
  exact ⟨rfl, rfl⟩

theorem Orderly.mono {p : Action σ α} (h : Orderly view targets declared p s)
    (ht : targets ⊆ others) (hd : ∀ name b, declared name b → declared' name b) :
    Orderly view others declared' p s :=
  ⟨h.evolved.mono ht hd, h.notGlobal⟩

/-- The second action matters only where the first has a result. -/
theorem orderly_bind {p : Action σ α} {f : α → Action σ β}
    (hp : Orderly view targets declared p s)
    (hf : ∀ a t, p s = (.ok a, t) → Orderly view targets declared (f a) t) :
    Orderly view targets declared (p >>= f) s := by
  obtain ⟨hevolved, hnot⟩ := hp
  rcases hr : p s with ⟨r, t⟩
  rw [hr] at hevolved hnot
  cases r with
  | ok a =>
    obtain ⟨hevolved', hnot'⟩ := hf a t hr
    exact ⟨by rw [Action.bind_ok hr]; exact hevolved.trans hevolved',
      by rw [Action.bind_ok hr]; exact hnot'⟩
  | error e =>
    refine ⟨by rw [Action.bind_error hr]; exact hevolved, ?_⟩
    rw [Action.bind_error hr]
    intro he
    cases he
    exact hnot rfl

end Actions

/-! ### Expressions -/

/-- The names that an expression assigns to. -/
def Expr.targets : Expr → List String
  | .number _ | .boolean _ | .nil | .string _ | .variable _ => []
  | .assign name value => name :: value.targets
  | .unary _ operand => operand.targets
  | .binary _ left right | .logical _ left right => left.targets ++ right.targets

theorem truth_not_global (context : String) (v : Value) :
    v.truth context ≠ .error .globalScope := by
  cases v <;> nofun

theorem unary_not_global (op : UnaryOp) (v : Value) : op.apply v ≠ .error .globalScope := by
  unfold UnaryOp.apply
  split <;> nofun

theorem binary_not_global (op : BinaryOp) (l r : Value) : op.apply l r ≠ .error .globalScope := by
  unfold BinaryOp.apply
  split
  case h_3 => split <;> nofun
  all_goals nofun

theorem get_not_global (name : String) (s : Scopes) : s.get name ≠ .error .globalScope := by
  unfold Scopes.get
  split <;> nofun

theorem assign_not_global (name : String) (b : Binding) (s : Scopes) :
    s.assign name b ≠ .error .globalScope := by
  unfold Scopes.assign
  split
  · nofun
  · split <;> nofun

theorem orderly_assign (name : String) (v : Value) (s : Scopes) :
    Orderly id [name] (fun _ _ => False) (Action.change (Scopes.assign name (some v))) s := by
  cases h : s.assign name (some v) with
  | ok t =>
    have hrun : Action.change (Scopes.assign name (some v)) s = (.ok (), t) := by
      rw [Action.change, h]
    refine ⟨?_, ?_⟩ <;> rw [hrun]
    · exact .assign h
    · nofun
  | error e =>
    have hrun : Action.change (Scopes.assign name (some v)) s = (.error e, s) := by
      rw [Action.change, h]
    refine ⟨by rw [hrun]; exact .refl _ _ _, ?_⟩
    rw [hrun]
    show Except.error e ≠ _
    intro he
    exact assign_not_global name _ s (h.trans (congrArg _ (Except.error.inj he)))

theorem orderly_evaluate (room : Nat) (e : Expr) :
    ∀ s, Orderly id e.targets (fun _ _ => False) (evaluate room e) s := by
  fun_induction evaluate room e with
  | case1 => exact fun s => orderly_overflow
  | case2 | case3 | case4 | case5 => exact fun s => orderly_pure _
  | case6 room name => exact fun s => ⟨.refl _ _ _, get_not_global name s⟩
  | case7 room name value ih =>
    intro s
    refine orderly_bind ((ih s).mono (List.subset_cons_self _ _) fun _ _ => id) fun v t _ => ?_
    have hname : [name] ⊆ name :: value.targets := List.cons_subset_cons _ (List.nil_subset _)
    exact orderly_bind ((orderly_assign name v t).mono hname fun _ _ => id)
      fun _ _ _ => orderly_pure v
  | case8 room op operand ih =>
    exact fun s => orderly_bind (ih s) fun v _ _ => orderly_result (unary_not_global op v)
  | case9 room op left right ihl ihr =>
    intro s
    refine orderly_bind ((ihl s).mono (List.subset_append_left _ _) fun _ _ => id)
      fun l t _ => ?_
    refine orderly_bind ((ihr t).mono (List.subset_append_right _ _) fun _ _ => id)
      fun r _ _ => ?_
    exact orderly_result (binary_not_global op l r)
  | case10 room op left right ihl ihr =>
    intro s
    refine orderly_bind ((ihl s).mono (List.subset_append_left _ _) fun _ _ => id)
      fun l t _ => ?_
    refine orderly_bind (orderly_result (truth_not_global op.context l)) fun b u _ => ?_
    split
    · exact orderly_pure l
    · exact (ihr u).mono (List.subset_append_right _ _) fun _ _ => id

/-! ### Statements -/

mutual

/-- The names that a statement assigns to. -/
def Stmt.targets : Stmt → List String
  | .expression e | .print e | .declare _ (some e) => e.targets
  | .declare _ none => []
  | .block body => targetsAll body
  | .branch condition yes none => condition.targets ++ yes.targets
  | .branch condition yes (some no) => condition.targets ++ (yes.targets ++ no.targets)

/-- The names that any of the statements assigns to. -/
def targetsAll : List Stmt → List String
  | [] => []
  | s :: rest => s.targets ++ targetsAll rest

end

/-- What a statement that is executed with these scopes declares, with or without a value, in
the innermost of them. What stands in a block does not. -/
inductive Declares : Nat → Stmt → Scopes → String → Binding → Prop
  | bare {room : Nat} {name : String} {s : Scopes} :
    Declares (room + 1) (.declare name none) s name none
  | valued {room : Nat} {name : String} {e : Expr} {s t : Scopes} {v : Value}
    (value : evaluate room e s = (.ok v, t)) :
    Declares (room + 1) (.declare name (some e)) s name (some v)
  | yes {room : Nat} {condition : Expr} {yes : Stmt} {no : Option Stmt} {s t : Scopes}
    {v : Value} {name : String} {b : Binding} (value : evaluate room condition s = (.ok v, t))
    (truth : v.truth ifContext = .ok true) (arm : Declares room yes t name b) :
    Declares (room + 1) (.branch condition yes no) s name b
  | no {room : Nat} {condition : Expr} {yes no : Stmt} {s t : Scopes}
    {v : Value} {name : String} {b : Binding} (value : evaluate room condition s = (.ok v, t))
    (truth : v.truth ifContext = .ok false) (arm : Declares room no t name b) :
    Declares (room + 1) (.branch condition yes (some no)) s name b

theorem orderly_onScopes {α : Type} {targets : List String} {declared : String → Binding → Prop}
    {p : Action Scopes α} {m : Machine} (h : Orderly id targets declared p m.scopes) :
    Orderly Machine.scopes targets declared (onScopes p) m :=
  ⟨h.evolved, h.notGlobal⟩

theorem orderly_declare (name : String) (b : Binding) (s : Scopes) :
    Orderly id [] (fun n c => n = name ∧ c = b)
      (Action.change fun s => .ok (s.declare name b)) s :=
  ⟨.declare name b s, nofun⟩

/-- A scope of its own ends with the action, however that ends. -/
theorem orderly_inScope {α : Type} {targets : List String} {declared : String → Binding → Prop}
    {p : Action Machine α} {m : Machine}
    (h : Orderly Machine.scopes targets declared p { m with scopes := m.scopes.push }) :
    Orderly Machine.scopes targets (fun _ _ => False) (inScope p) m := by
  obtain ⟨hevolved, hnot⟩ := h
  obtain ⟨t, hpop, hkept⟩ := hevolved.pop
  have hrun : inScope p m = ((p { m with scopes := m.scopes.push }).1,
      { (p { m with scopes := m.scopes.push }).2 with scopes := t }) := by
    simp only [inScope, hpop]
  refine ⟨?_, ?_⟩ <;> rw [hrun]
  · exact hkept
  · exact hnot

theorem onScopes_eq {α : Type} {p : Action Scopes α} {m n : Machine} {r : Except RunError α}
    (h : onScopes p m = (r, n)) : p m.scopes = (r, n.scopes) := by
  cases h
  rfl

theorem orderly_value (room : Nat) {e : Expr} {targets : List String}
    {declared : String → Binding → Prop} (h : e.targets ⊆ targets) (m : Machine) :
    Orderly Machine.scopes targets declared (onScopes (evaluate room e)) m :=
  orderly_onScopes ((orderly_evaluate room e m.scopes).mono h fun _ _ => False.elim)

mutual

theorem orderly_execute (room : Nat) (stmt : Stmt) (m : Machine) :
    Orderly Machine.scopes stmt.targets (Declares room stmt m.scopes) (execute room stmt) m := by
  match room, stmt with
  | 0, _ =>
    rw [execute]
    exact orderly_overflow
  | room + 1, .expression e =>
    rw [execute]
    exact orderly_bind (orderly_value room (List.Subset.refl _) m) fun _ _ _ => orderly_pure ()
  | room + 1, .print e =>
    rw [execute]
    refine orderly_bind (orderly_value room (List.Subset.refl _) m) fun v n _ => ?_
    exact ⟨.refl _ _ _, nofun⟩
  | room + 1, .declare name none =>
    rw [execute]
    refine orderly_onScopes ((orderly_declare name none m.scopes).mono (List.nil_subset _) ?_)
    intro _ _ ⟨hname, hb⟩
    subst hname hb
    exact .bare
  | room + 1, .declare name (some e) =>
    rw [execute]
    refine orderly_bind (orderly_value room (List.Subset.refl _) m) fun v n h => ?_
    refine orderly_onScopes ((orderly_declare name _ n.scopes).mono (List.nil_subset _) ?_)
    intro _ _ ⟨hname, hb⟩
    subst hname hb
    exact .valued (onScopes_eq h)
  | room + 1, .block body =>
    rw [execute]
    exact (orderly_inScope (orderly_executeAll room body _)).mono (List.Subset.refl _)
      fun _ _ => False.elim
  | room + 1, .branch condition yes none =>
    rw [execute]
    refine orderly_bind (orderly_value room (List.subset_append_left _ _) m) fun v n h => ?_
    refine orderly_bind (orderly_result (truth_not_global ifContext v)) fun b k hb => ?_
    obtain ⟨htruth, rfl⟩ := ofExcept_eq hb
    cases b with
    | false => exact orderly_pure ()
    | true =>
      exact (orderly_execute room yes n).mono (List.subset_append_right _ _)
        fun _ _ => .yes (onScopes_eq h) htruth
  | room + 1, .branch condition yes (some no) =>
    rw [execute]
    refine orderly_bind (orderly_value room (List.subset_append_left _ _) m) fun v n h => ?_
    refine orderly_bind (orderly_result (truth_not_global ifContext v)) fun b k hb => ?_
    obtain ⟨htruth, rfl⟩ := ofExcept_eq hb
    cases b with
    | false =>
      refine (orderly_execute room no n).mono ?_ fun _ _ => .no (onScopes_eq h) htruth
      exact fun _ hmem => List.mem_append_right _ (List.mem_append_right _ hmem)
    | true =>
      refine (orderly_execute room yes n).mono ?_ fun _ _ => .yes (onScopes_eq h) htruth
      exact fun _ hmem => List.mem_append_right _ (List.mem_append_left _ hmem)

theorem orderly_executeAll (room : Nat) (body : List Stmt) (m : Machine) :
    Orderly Machine.scopes (targetsAll body) (fun _ _ => True) (executeAll room body) m := by
  match body with
  | [] =>
    rw [executeAll]
    exact orderly_pure ()
  | s :: rest =>
    rw [executeAll]
    refine orderly_bind ((orderly_execute room s m).mono (List.subset_append_left _ _)
      fun _ _ _ => trivial) fun _ n _ => ?_
    exact (orderly_executeAll room rest n).mono (List.subset_append_right _ _) fun _ _ => id

end

/-- What a statement declares is bound so when it ends, and it ends without an error. -/
theorem Declares.execute {room : Nat} {stmt : Stmt} {s : Scopes} {name : String} {b : Binding}
    (h : Declares room stmt s name b) (printed : String) :
    ∃ m, Scriptlet.execute room stmt ⟨s, printed⟩ = (.ok (), m) ∧
      m.scopes.binding 0 name = some b := by
  have hvalue {room : Nat} {e : Expr} {s t : Scopes} {v : Value}
      (h : evaluate room e s = (.ok v, t)) :
      onScopes (evaluate room e) ⟨s, printed⟩ = (.ok v, ⟨t, printed⟩) := by
    rw [onScopes, h]
  have hdeclare (s : Scopes) (name : String) (b : Binding) :
      (s.declare name b).binding 0 name = some b := by
    rw [Scopes.binding_declare, if_pos ⟨rfl, rfl⟩]
  induction h with
  | bare =>
    rw [Scriptlet.execute]
    exact ⟨_, rfl, hdeclare _ _ _⟩
  | valued value =>
    rw [Scriptlet.execute, Action.bind_ok (hvalue value)]
    exact ⟨_, rfl, hdeclare _ _ _⟩
  | @yes room condition yes no s t v name b value truth _ ih =>
    cases no <;>
    · rw [Scriptlet.execute, Action.bind_ok (hvalue value), truth]
      exact ih
  | no value truth _ ih =>
    rw [Scriptlet.execute, Action.bind_ok (hvalue value), truth]
    exact ih

end Scriptlet
