import Scriptlet.Proofs.Running.Evolution

/-! What one name is bound to, scope by scope.

The column of a name holds its bindings in all scopes, from the inside out. What is
looked up and what is assigned depends on the column of the name alone, and every
step acts column by column: a declaration and an assignment change the column of
their name and no other (`column_declare`, `assign_column`), and opening or ending a
scope adds or takes away the innermost row of all of them. -/
namespace Scriptlet

/-- What a name is bound to in each scope, from the inside out; `none` where it is not bound. -/
abbrev Column := List (Option Binding)

/-- The column with another binding in place of the innermost one, if there is one. -/
def Column.rebind (b : Binding) : Column → Option Column
  | [] => none
  | none :: rest => (rebind b rest).map (none :: ·)
  | some _ :: rest => some (some b :: rest)

theorem Column.length_rebind {b : Binding} {c d : Column} (h : c.rebind b = some d) :
    d.length = c.length := by
  induction c generalizing d with
  | nil => cases h
  | cons top rest ih =>
    cases top with
    | none =>
      obtain ⟨e, he, rfl⟩ := Option.map_eq_some_iff.mp h
      rw [List.length_cons, List.length_cons, ih he]
    | some old =>
      cases h
      rfl

namespace Scopes

def column (s : Scopes) (name : String) : Column :=
  s.toList.map (Scope.find? name)

variable {s t : Scopes} {name n : String} {b : Binding}

@[simp] theorem length_column (s : Scopes) (name : String) :
    (s.column name).length = s.depth := by
  rw [column, List.length_map]
  rfl

theorem find?_column (s : Scopes) (name : String) :
    s.find? name = (s.column name).findSome? id := by
  rw [column, List.findSome?_map]
  rfl

theorem getElem_column {i : Nat} (hi : i < (s.column name).length) :
    (s.column name)[i] = s.binding i name := by
  rw [length_column] at hi
  have hscope : s.toList[i]? = some s.toList[i] := List.getElem?_eq_getElem hi
  rw [binding, hscope, Option.bind_some]
  exact List.getElem_map _

/-- A column is what its name is bound to in each scope. -/
theorem column_ext (hdepth : t.depth = s.depth)
    (h : ∀ i, t.binding i name = s.binding i name) : t.column name = s.column name := by
  refine List.ext_getElem (by simp only [length_column, hdepth]) fun i ht hs => ?_
  rw [getElem_column ht, getElem_column hs, h i]

/-- The value of a name is read off its column. -/
theorem get_congr (h : t.column name = s.column name) : t.get name = s.get name := by
  rw [get, get, find?_column, find?_column, h]

@[simp] theorem column_push (s : Scopes) (name : String) :
    s.push.column name = none :: s.column name := rfl

theorem column_pop (h : s.pop = .ok t) (name : String) :
    t.column name = (s.column name).tail := by
  obtain ⟨inner, outer⟩ := s
  cases outer with
  | nil => cases h
  | cons first outer =>
    cases h
    rfl

/-- The global scope does not end, and every other does. -/
theorem pop_eq_error {e : RunError} : s.pop = .error e ↔ s.depth = 1 ∧ e = .globalScope := by
  obtain ⟨inner, outer⟩ := s
  cases outer with
  | nil =>
    refine ⟨fun h => ?_, fun h => ?_⟩
    · cases h
      exact ⟨rfl, rfl⟩
    · rw [h.2]
      rfl
  | cons first outer =>
    refine ⟨nofun, fun h => ?_⟩
    simp [depth] at h

theorem depth_pop (h : s.pop = .ok t) : t.depth = s.depth - 1 := by
  rw [← length_column t "", column_pop h, List.length_tail, length_column]

theorem exists_pop (h : 1 < s.depth) : ∃ t, s.pop = .ok t := by
  cases hpop : s.pop with
  | ok t => exact ⟨t, rfl⟩
  | error e => exact absurd (pop_eq_error.mp hpop).1 (Nat.ne_of_gt h)

theorem depth_of_rebind (h : (s.column name).rebind b = some (t.column name)) :
    t.depth = s.depth := by
  rw [← length_column t name, ← length_column s name, Column.length_rebind h]

theorem column_declare (s : Scopes) (name n : String) (b : Binding) :
    (s.declare name b).column n =
      if name = n then some b :: (s.column n).tail else s.column n := by
  show (s.inner.bind name b).find? n :: s.outer.map (Scope.find? n) = _
  by_cases hn : name = n <;> simp [Scope.find?_bind, column, toList, hn]

/-- Rebinding a name rebinds its column. -/
theorem rebind_column (name : String) (b : Binding) (ss : List Scope) :
    Column.rebind b (ss.map (Scope.find? name)) =
      (Scopes.rebind name b ss).map (·.map (Scope.find? name)) := by
  induction ss with
  | nil => rfl
  | cons s rest ih =>
    rw [Scopes.rebind, List.map_cons]
    cases hs : s.find? name with
    | none =>
      rw [Column.rebind, ih, Option.isSome_none, if_neg Bool.false_ne_true, Option.map_map,
        Option.map_map]
      simp only [Function.comp_def, List.map_cons, hs]
    | some old =>
      rw [Column.rebind, Option.isSome_some, if_pos rfl, Option.map_some, List.map_cons,
        Scope.find?_bind, if_pos rfl]

/-- Rebinding a name leaves all other columns as they are. -/
theorem rebind_other {ss ts : List Scope} (h : Scopes.rebind name b ss = some ts)
    (hn : name ≠ n) : ts.map (Scope.find? n) = ss.map (Scope.find? n) := by
  induction ss generalizing ts with
  | nil => cases h
  | cons s rest ih =>
    rw [Scopes.rebind] at h
    split at h
    · cases h
      rw [List.map_cons, List.map_cons, Scope.find?_bind, if_neg hn]
    · obtain ⟨us, hus, rfl⟩ := Option.map_eq_some_iff.mp h
      rw [List.map_cons, List.map_cons, ih hus]

/-- An assignment rebinds the name where it is bound innermost, or fails. -/
theorem assign_cases (name : String) (b : Binding) (s : Scopes) :
    (∃ t, s.assign name b = .ok t ∧ Scopes.rebind name b s.toList = some t.toList) ∨
      s.assign name b = .error (.undefined name) ∧ Scopes.rebind name b s.toList = none := by
  cases h : s.assign name b with
  | ok t => exact .inl ⟨t, rfl, rebind_of_assign h⟩
  | error e =>
    right
    rw [assign] at h
    rw [toList, Scopes.rebind]
    split at h
    next => cases h
    next hbound =>
      rw [if_neg hbound]
      cases houter : Scopes.rebind name b s.outer with
      | some outer => rw [houter] at h; cases h
      | none =>
        rw [houter] at h
        cases h
        exact ⟨rfl, rfl⟩

theorem assign_of_rebind {ss : List Scope} (h : Scopes.rebind name b s.toList = some ss) :
    ∃ t, s.assign name b = .ok t ∧ t.toList = ss := by
  rcases assign_cases name b s with ⟨t, ht, hsome⟩ | ⟨_, hnone⟩
  · exact ⟨t, ht, Option.some.inj (hsome.symm.trans h)⟩
  · rw [h] at hnone
    cases hnone

theorem assign_of_none (h : Scopes.rebind name b s.toList = none) :
    s.assign name b = .error (.undefined name) := by
  rcases assign_cases name b s with ⟨t, _, hsome⟩ | ⟨hassign, _⟩
  · rw [h] at hsome
    cases hsome
  · exact hassign

/-- **An assignment acts on one column**, and fails where there is nothing to rebind. -/
theorem assign_column (name : String) (b : Binding) (s : Scopes) :
    (∃ t, s.assign name b = .ok t ∧ (s.column name).rebind b = some (t.column name) ∧
      ∀ n, name ≠ n → t.column n = s.column n) ∨
    s.assign name b = .error (.undefined name) ∧ (s.column name).rebind b = none := by
  rcases assign_cases name b s with ⟨t, hassign, ht⟩ | ⟨hassign, hnone⟩
  · refine .inl ⟨t, hassign, ?_, fun n hn => rebind_other ht hn⟩
    rw [column, rebind_column, ht]
    rfl
  · refine .inr ⟨hassign, ?_⟩
    rw [column, rebind_column, hnone]
    rfl

end Scopes

end Scriptlet
