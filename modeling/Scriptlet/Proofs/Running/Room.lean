import Scriptlet.Proofs.Running.Discipline

/-! Room on the stack makes no other difference.

What runs in some room runs in the same way in more of it: the result, the scopes and
what is printed are the same, unless the stack was too small. So a part of a program
can be looked at with the room that the whole program has, although it runs in less.
There is one law for each kind of action, and `execute_outlasts` draws them together by
induction on the program. -/
namespace Scriptlet

/-! ### Actions -/

/-- The first action does what the second does, unless that runs out of stack. -/
def Outlasts {σ α : Type} (more less : Action σ α) : Prop :=
  ∀ s, (less s).1 ≠ .error .stackOverflow → more s = less s

section
variable {σ α β : Type} {p q : Action σ α}

theorem outlasts_refl (p : Action σ α) : Outlasts p p :=
  fun _ _ => rfl

theorem outlasts_overflow (p : Action σ α) : Outlasts p (Action.fail .stackOverflow) :=
  fun _ h => absurd rfl h

theorem outlasts_bind {f g : α → Action σ β} (hp : Outlasts p q) (hf : ∀ a, Outlasts (f a) (g a)) :
    Outlasts (p >>= f) (q >>= g) := by
  intro s h
  rcases hq : q s with ⟨e | a, t⟩
  · rw [Action.bind_error hq] at h ⊢
    have hfirst : p s = (.error e, t) := by
      rw [hp s (by rw [hq]; simpa using h), hq]
    exact Action.bind_error hfirst f
  · rw [Action.bind_ok hq] at h ⊢
    have hfirst : p s = (.ok a, t) := by
      rw [hp s (by rw [hq]; nofun), hq]
    rw [Action.bind_ok hfirst]
    exact hf a t h

theorem outlasts_onScopes {p q : Action Scopes α} (h : Outlasts p q) :
    Outlasts (onScopes p) (onScopes q) := by
  intro m hm
  unfold onScopes
  rw [h m.scopes hm]

/-- A scope of its own can always be ended, so that running out of stack inside shows outside. -/
theorem outlasts_inScope {targets : List String} {declared : String → Binding → Prop}
    {p q : Action Machine α} (h : Outlasts p q)
    (hq : ∀ m, Orderly Machine.scopes targets declared q m) : Outlasts (inScope p) (inScope q) := by
  intro m hm
  obtain ⟨t, hpop, -⟩ := (hq { m with scopes := m.scopes.push }).evolved.pop
  have hinner : (q { m with scopes := m.scopes.push }).1 ≠ .error .stackOverflow := by
    simp only [inScope, hpop] at hm
    exact hm
  unfold inScope
  rw [h _ hinner]

end

/-! ### Expressions -/

theorem evaluate_outlasts {room more : Nat} (h : room ≤ more) (e : Expr) :
    Outlasts (evaluate more e) (evaluate room e) := by
  fun_induction evaluate room e generalizing more with
  | case1 => exact outlasts_overflow _
  | case2 | case3 | case4 | case5 | case6 =>
    obtain ⟨more, rfl⟩ := Nat.exists_eq_add_of_lt h
    exact outlasts_refl _
  | case7 room name value ih =>
    obtain ⟨more, rfl⟩ := Nat.exists_eq_add_of_lt h
    exact outlasts_bind (ih (Nat.le_add_right room more)) fun _ => outlasts_refl _
  | case8 room op operand ih =>
    obtain ⟨more, rfl⟩ := Nat.exists_eq_add_of_lt h
    exact outlasts_bind (ih (Nat.le_add_right room more)) fun _ => outlasts_refl _
  | case9 room op left right ihl ihr =>
    obtain ⟨more, rfl⟩ := Nat.exists_eq_add_of_lt h
    exact outlasts_bind (ihl (Nat.le_add_right room more)) fun _ =>
      outlasts_bind (ihr (Nat.le_add_right room more)) fun _ => outlasts_refl _
  | case10 room op left right ihl ihr =>
    obtain ⟨more, rfl⟩ := Nat.exists_eq_add_of_lt h
    have hle : room - 1 ≤ room + more - 1 := Nat.sub_le_sub_right (Nat.le_add_right room more) 1
    refine outlasts_bind (ihl hle) fun l => outlasts_bind (outlasts_refl _) fun b => ?_
    split
    · exact outlasts_refl _
    · exact ihr hle

theorem value_outlasts {room more : Nat} (h : room ≤ more) (e : Expr) :
    Outlasts (onScopes (evaluate more e)) (onScopes (evaluate room e)) :=
  outlasts_onScopes (evaluate_outlasts h e)

/-! ### Statements -/

mutual

theorem execute_outlasts {room more : Nat} (h : room ≤ more) (stmt : Stmt) :
    Outlasts (execute more stmt) (execute room stmt) := by
  match room, more, stmt, h with
  | 0, _, _, _ =>
    rw [execute]
    exact outlasts_overflow _
  | room + 1, more + 1, .expression e, h =>
    rw [execute, execute]
    exact outlasts_bind (value_outlasts (Nat.le_of_succ_le_succ h) e) fun _ => outlasts_refl _
  | room + 1, more + 1, .print e, h =>
    rw [execute, execute]
    exact outlasts_bind (value_outlasts (Nat.le_of_succ_le_succ h) e) fun _ => outlasts_refl _
  | room + 1, more + 1, .declare name none, _ =>
    rw [execute, execute]
    exact outlasts_refl _
  | room + 1, more + 1, .declare name (some e), h =>
    rw [execute, execute]
    exact outlasts_bind (value_outlasts (Nat.le_of_succ_le_succ h) e) fun _ => outlasts_refl _
  | room + 1, more + 1, .block body, h =>
    rw [execute, execute]
    exact outlasts_inScope (executeAll_outlasts (Nat.le_of_succ_le_succ h) body)
      fun m => orderly_executeAll room body m
  | room + 1, more + 1, .branch condition yes none, h =>
    rw [execute, execute]
    refine outlasts_bind (value_outlasts (Nat.le_of_succ_le_succ h) condition) fun v =>
      outlasts_bind (outlasts_refl _) fun b => ?_
    split
    · exact execute_outlasts (Nat.le_of_succ_le_succ h) yes
    · exact outlasts_refl _
  | room + 1, more + 1, .branch condition yes (some no), h =>
    rw [execute, execute]
    refine outlasts_bind (value_outlasts (Nat.le_of_succ_le_succ h) condition) fun v =>
      outlasts_bind (outlasts_refl _) fun b => ?_
    split
    · exact execute_outlasts (Nat.le_of_succ_le_succ h) yes
    · exact execute_outlasts (Nat.le_of_succ_le_succ h) no

theorem executeAll_outlasts {room more : Nat} (h : room ≤ more) (body : List Stmt) :
    Outlasts (executeAll more body) (executeAll room body) := by
  match body with
  | [] =>
    rw [executeAll, executeAll]
    exact outlasts_refl _
  | s :: rest =>
    rw [executeAll, executeAll]
    exact outlasts_bind (execute_outlasts h s) fun _ => executeAll_outlasts h rest

end

end Scriptlet
