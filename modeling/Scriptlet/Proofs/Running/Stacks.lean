import Scriptlet.Proofs.Running.Columns
import Scriptlet.Run.Action

/-! Scopes as stacks of bindings, one stack for each name.

A `Store` keeps bindings in scopes, however it does so, and answers requests. There
are two: the scopes that a program sees, and `Stacks`, where every name has a stack
of its own and a binding stands in it together with the level of its scope. Read from
the inside out, the column of a name is its stack (`Column.entries`). Each operation
does the same to both (`view_scopes`), so that both give the same answers to all
requests (`scopes_refine_stacks`). -/
namespace Scriptlet

/-! ### Stores -/

/-- The operations of a store that has its bindings in a state in `σ`. -/
structure Store (σ : Type) where
  declare : String → Binding → σ → σ
  get : String → σ → Except RunError Value
  assign : String → Binding → σ → Except RunError σ
  push : σ → σ
  pop : σ → Except RunError σ

/-- What a store can be asked for. -/
inductive StoreRequest where
  | declare (name : String) (b : Binding)
  | get (name : String)
  | assign (name : String) (b : Binding)
  | push
  | pop

/-- A change of the state that is answered with `a`. -/
def Action.changeTo {σ α : Type} (a : α) (f : σ → Except RunError σ) : Action σ α := do
  Action.change f
  return a

theorem Action.changeTo_eq {σ α : Type} (a : α) (f : σ → Except RunError σ) (s : σ) :
    Action.changeTo a f s = ((f s).map fun _ => a, (f s).toOption.getD s) := by
  cases h : f s with
  | ok t =>
    have hchange : Action.change f s = (.ok (), t) := by rw [Action.change, h]
    exact Action.bind_ok hchange _
  | error e =>
    have hchange : Action.change f s = (.error e, s) := by rw [Action.change, h]
    exact Action.bind_error hchange _

namespace Store

variable {σ τ : Type}

/-- Does what is asked for. The answer is what was read or assigned, if anything was. -/
def perform (store : Store σ) : StoreRequest → Action σ Binding
  | .declare name b => Action.changeTo none fun s => .ok (store.declare name b s)
  | .get name => Action.read fun s => (store.get name s).map some
  | .assign name b => Action.changeTo b (store.assign name b)
  | .push => Action.changeTo none fun s => .ok (store.push s)
  | .pop => Action.changeTo none store.pop

/-- Goes on with the next request whatever came of those before. -/
def performAll (store : Store σ) : List StoreRequest → σ → List (Except RunError Binding) × σ
  | [], s => ([], s)
  | r :: rest, s =>
    let (answer, s) := store.perform r s
    let (answers, s) := store.performAll rest s
    (answer :: answers, s)

theorem changeTo_failed {a : Binding} {f : σ → Except RunError σ} {s : σ} {e : RunError}
    (h : (Action.changeTo a f s).1 = .error e) :
    (Action.changeTo a f s).2 = s ∧ f s = .error e := by
  rw [Action.changeTo_eq] at h ⊢
  cases hf : f s with
  | ok t =>
    rw [hf] at h
    cases h
  | error e' =>
    rw [hf] at h
    cases h
    exact ⟨rfl, rfl⟩

/-- Whatever fails leaves the state as it was. -/
theorem perform_failed (store : Store σ) {r : StoreRequest} {s : σ} {e : RunError}
    (h : (store.perform r s).1 = .error e) : (store.perform r s).2 = s := by
  cases r with
  | get name => rfl
  | declare | push | assign | pop => exact (changeTo_failed h).1

/-! ### Views -/

/-- One store does to the view of a state what the other does to the state. -/
structure Matches (a : Store σ) (b : Store τ) (view : σ → τ) : Prop where
  declare : ∀ name x s, b.declare name x (view s) = view (a.declare name x s)
  get : ∀ name s, b.get name (view s) = a.get name s
  assign : ∀ name x s, b.assign name x (view s) = (a.assign name x s).map view
  push : ∀ s, b.push (view s) = view (a.push s)
  pop : ∀ s, b.pop (view s) = (a.pop s).map view

variable {a : Store σ} {b : Store τ} {view : σ → τ}

theorem changeTo_view {f : σ → Except RunError σ} {g : τ → Except RunError τ} {s : σ}
    (answer : Binding) (h : g (view s) = (f s).map view) :
    Action.changeTo answer g (view s) =
      ((Action.changeTo answer f s).1, view (Action.changeTo answer f s).2) := by
  rw [Action.changeTo_eq, Action.changeTo_eq, h]
  cases f s <;> rfl

theorem Matches.perform (h : a.Matches b view) (r : StoreRequest) (s : σ) :
    b.perform r (view s) = ((a.perform r s).1, view (a.perform r s).2) := by
  cases r with
  | declare name x => exact changeTo_view none (congrArg Except.ok (h.declare name x s))
  | get name =>
    show ((b.get name (view s)).map some, view s) = ((a.get name s).map some, view s)
    rw [h.get]
  | assign name x => exact changeTo_view x (h.assign name x s)
  | push => exact changeTo_view none (congrArg Except.ok (h.push s))
  | pop => exact changeTo_view none (h.pop s)

theorem Matches.performAll (h : a.Matches b view) (rs : List StoreRequest) (s : σ) :
    b.performAll rs (view s) = ((a.performAll rs s).1, view (a.performAll rs s).2) := by
  induction rs generalizing s with
  | nil => rfl
  | cons r rest ih => simp only [Store.performAll, h.perform, ih]

end Store

/-! ### Two stores -/

/-- Every name has its own stack of bindings, each with the level of its scope. -/
@[ext] structure Stacks where
  /-- How many scopes are open. -/
  level : Nat
  entries : String → List (Nat × Binding)

namespace Stacks

def fresh : Stacks :=
  ⟨1, fun _ => []⟩

/-- Gives a name another stack. -/
def set (name : String) (entries : List (Nat × Binding)) (s : Stacks) : Stacks :=
  { s with entries := fun n => if name = n then entries else s.entries n }

/-- A stack with an entry of the given level at its top, in place of the one that it has or
pushed on it. -/
def declared (level : Nat) (b : Binding) : List (Nat × Binding) → List (Nat × Binding)
  | [] => [(level, b)]
  | (l, old) :: rest => if l = level then (level, b) :: rest else (level, b) :: (l, old) :: rest

/-- A stack with another binding in its top entry, if it has one. -/
def assigned (b : Binding) : List (Nat × Binding) → Option (List (Nat × Binding))
  | [] => none
  | (level, _) :: rest => some ((level, b) :: rest)

/-- Replaces the entry of the current level, or pushes one. -/
def declare (name : String) (b : Binding) (s : Stacks) : Stacks :=
  s.set name (declared s.level b (s.entries name))

/-- Reads the top entry. -/
def get (name : String) (s : Stacks) : Except RunError Value :=
  match s.entries name with
  | [] => .error (.undefined name)
  | (_, none) :: _ => .error (.uninitialized name)
  | (_, some v) :: _ => .ok v

/-- Replaces the top entry. -/
def assign (name : String) (b : Binding) (s : Stacks) : Except RunError Stacks :=
  match assigned b (s.entries name) with
  | none => .error (.undefined name)
  | some entries => .ok (s.set name entries)

def push (s : Stacks) : Stacks :=
  { s with level := s.level + 1 }

/-- Removes the entries of the current level. -/
def pop (s : Stacks) : Except RunError Stacks :=
  if s.level = 1 then .error .globalScope
  else .ok ⟨s.level - 1, fun name => (s.entries name).filter (·.1 ≠ s.level)⟩

def store : Store Stacks :=
  ⟨declare, get, assign, push, pop⟩

end Stacks

/-- The scopes that a program sees are a store. -/
def Scopes.store : Store Scopes :=
  ⟨Scopes.declare, Scopes.get, Scopes.assign, Scopes.push, Scopes.pop⟩

/-! ### Columns are stacks -/

namespace Column

/-- The bindings of a column, each with the level of its scope; the global scope has level one. -/
def entries : Column → List (Nat × Binding)
  | [] => []
  | none :: rest => entries rest
  | some b :: rest => (rest.length + 1, b) :: entries rest

theorem level_le (c : Column) : ∀ e ∈ c.entries, e.1 ≤ c.length := by
  induction c with
  | nil => simp [entries]
  | cons top rest ih =>
    intro e he
    rw [List.length_cons]
    cases top with
    | none => exact Nat.le_succ_of_le (ih e he)
    | some b =>
      rcases List.mem_cons.mp he with rfl | he
      · exact Nat.le_refl _
      · exact Nat.le_succ_of_le (ih e he)

/-- The top entry is the innermost binding. -/
theorem head?_entries (c : Column) : c.entries.head?.map Prod.snd = c.findSome? id := by
  induction c with
  | nil => rfl
  | cons top rest ih =>
    cases top with
    | none => exact ih
    | some b => rfl

/-- Without its innermost row a column has the entries of the levels further out. -/
theorem entries_tail (c : Column) :
    entries c.tail = c.entries.filter (·.1 ≠ c.length) := by
  cases c with
  | nil => rfl
  | cons top rest =>
    have hkept : (entries rest).filter (·.1 ≠ rest.length + 1) = entries rest := by
      rw [List.filter_eq_self]
      intro e he
      have := level_le rest e he
      simp only [ne_eq, decide_eq_true_eq]
      omega
    cases top with
    | none => exact hkept.symm
    | some b => simpa [entries] using hkept.symm

/-- Rebinding a column replaces its top entry. -/
theorem entries_rebind (b : Binding) (c : Column) :
    Stacks.assigned b c.entries = (c.rebind b).map entries := by
  induction c with
  | nil => rfl
  | cons top rest ih =>
    cases top with
    | none =>
      rw [rebind, Option.map_map]
      exact ih
    | some old => rfl

/-- Binding a name in the innermost scope replaces the entry of that level or pushes one. -/
theorem entries_declare (b : Binding) (top : Option Binding) (rest : Column) :
    Stacks.declared (rest.length + 1) b (entries (top :: rest)) = entries (some b :: rest) := by
  cases top with
  | some old => exact if_pos rfl
  | none =>
    rw [entries, entries]
    cases hrest : entries rest with
    | nil => rfl
    | cons e more =>
      -- the entries of the scopes further out have lower levels
      have hlevel := level_le rest e (by rw [hrest]; exact List.mem_cons_self)
      exact if_neg (by omega)

end Column

/-! ### Scopes and stacks -/

namespace Scopes

/-- The scopes, seen as a stack of bindings for each name. -/
def asStacks (s : Scopes) : Stacks :=
  ⟨s.depth, fun name => Column.entries (s.column name)⟩

/-- A step that changes one column and no scope gives one name another stack. -/
theorem asStacks_set {s t : Scopes} {name : String} {entries : List (Nat × Binding)}
    (hdepth : t.depth = s.depth) (hname : Column.entries (t.column name) = entries)
    (hother : ∀ n, name ≠ n → t.column n = s.column n) :
    s.asStacks.set name entries = t.asStacks := by
  ext1
  · exact hdepth.symm
  · funext n
    by_cases hn : name = n
    · subst hn
      simp [asStacks, Stacks.set, hname]
    · simp [asStacks, Stacks.set, hn, hother n hn]

theorem asStacks_declare (name : String) (b : Binding) (s : Scopes) :
    s.asStacks.declare name b = (s.declare name b).asStacks := by
  refine asStacks_set rfl ?_ fun n hn => by rw [column_declare, if_neg hn]
  rw [column_declare, if_pos rfl]
  have hdepth : s.depth = (s.outer.map (Scope.find? name)).length + 1 := by
    rw [List.length_map]
    rfl
  show _ = Stacks.declared s.depth b (Column.entries (s.column name))
  rw [hdepth]
  exact (Column.entries_declare b (s.inner.find? name) _).symm

theorem asStacks_get (name : String) (s : Scopes) : s.asStacks.get name = s.get name := by
  simp only [Stacks.get, get, find?_column, ← Column.head?_entries, asStacks]
  generalize Column.entries (s.column name) = entries
  rcases entries with _ | ⟨⟨level, _ | v⟩, rest⟩ <;> rfl

theorem asStacks_assign (name : String) (b : Binding) (s : Scopes) :
    s.asStacks.assign name b = (s.assign name b).map asStacks := by
  have hentries := Column.entries_rebind b (s.column name)
  rw [Stacks.assign]
  rcases assign_column name b s with ⟨t, hassign, hname, hother⟩ | ⟨hassign, hnone⟩
  · have hdepth := depth_of_rebind hname
    rw [hname] at hentries
    simp only [asStacks] at hentries ⊢
    rw [hassign, hentries]
    exact congrArg Except.ok (asStacks_set hdepth rfl hother)
  · rw [hnone] at hentries
    simp only [asStacks] at hentries ⊢
    rw [hassign, hentries]
    rfl

theorem asStacks_pop (s : Scopes) : s.asStacks.pop = s.pop.map asStacks := by
  rw [Stacks.pop]
  cases hpop : s.pop with
  | error e =>
    obtain ⟨hdepth, rfl⟩ := pop_eq_error.mp hpop
    exact if_pos hdepth
  | ok t =>
    have hglobal : s.depth ≠ 1 := fun hdepth => by
      rw [pop_eq_error.mpr ⟨hdepth, rfl⟩] at hpop
      cases hpop
    refine (if_neg hglobal).trans (congrArg Except.ok ?_)
    ext1
    · exact (depth_pop hpop).symm
    · funext name
      show (Column.entries (s.column name)).filter _ = Column.entries (t.column name)
      rw [column_pop hpop, Column.entries_tail, length_column]
      rfl

/-- Every operation does to the stacks what it does to the scopes. -/
theorem view_scopes : store.Matches Stacks.store asStacks where
  declare := asStacks_declare
  get := asStacks_get
  assign := asStacks_assign
  push _ := rfl
  pop := asStacks_pop

/-- The global scope does not end, and every other does. -/
theorem perform_pop_eq_error {s : Scopes} {e : RunError} :
    (store.perform .pop s).1 = .error e ↔ s.depth = 1 ∧ e = .globalScope := by
  rw [← pop_eq_error]
  show (Action.changeTo none Scopes.pop s).1 = .error e ↔ _
  rw [Action.changeTo_eq]
  cases s.pop with
  | ok t => exact ⟨nofun, nofun⟩
  | error e' =>
    constructor <;>
    · intro h
      exact congrArg _ (Except.error.inj h)

/-- **Scopes are as good as one stack for each name.** Whatever is asked of fresh scopes, and in
whatever order, stacks that started empty give the same answers, and afterwards they hold the
bindings of the scopes, name by name and level by level. There is always a scope, ending one fails
exactly where there is no other, and whatever fails leaves the scopes as they were. -/
theorem scopes_refine_stacks (rs : List StoreRequest) :
    ∃ answers s, store.performAll rs fresh = (answers, s) ∧
      Stacks.store.performAll rs Stacks.fresh = (answers, s.asStacks) ∧
      1 ≤ s.depth ∧
      (∀ e, (store.perform .pop s).1 = .error e ↔ s.depth = 1 ∧ e = .globalScope) ∧
      ∀ r e, (store.perform r s).1 = .error e → (store.perform r s).2 = s := by
  have hanswers := view_scopes.performAll rs fresh
  refine ⟨_, _, rfl, hanswers, Nat.le_add_left 1 _, fun e => perform_pop_eq_error, fun r e => ?_⟩
  exact store.perform_failed

end Scopes

end Scriptlet
