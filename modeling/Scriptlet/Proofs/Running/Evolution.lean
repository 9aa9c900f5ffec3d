import Scriptlet.Run.Scopes

/-! Scopes before and after a step.

However it ends, what runs leaves the scopes as it found them: as many, with the
same names, and each name with the binding it had, unless the name was assigned to
or declared anew. `Evolved` is the relation between the scopes before and after.
It is reflexive and transitive, an assignment and a declaration are in it, and a
scope that was opened takes with it, when it ends, what was declared in it. -/
namespace Scriptlet

/-! ### Names and bindings -/

namespace Scope

/-- The names that a scope binds. -/
def names (s : Scope) : List String :=
  s.map Prod.fst

/-- Binding a name that is bound already leaves the names as they are. -/
theorem names_bind {name : String} {s : Scope} (h : (s.find? name).isSome) (b : Binding) :
    (s.bind name b).names = s.names := by
  induction s with
  | nil => cases h
  | cons p rest ih =>
    obtain ⟨n, old⟩ := p
    by_cases hn : n = name
    · simp [bind, names, hn]
    · rw [find?, if_neg hn] at h
      rw [bind, if_neg hn, names, List.map_cons]
      exact congrArg _ (ih h)

end Scope

namespace Scopes

/-- The names of all scopes, from the inside out. -/
def names (s : Scopes) : List (List String) :=
  s.toList.map Scope.names

/-- What a name is bound to in one of the scopes, which are numbered from the inside out. -/
def binding (s : Scopes) (i : Nat) (name : String) : Option Binding :=
  s.toList[i]?.bind (Scope.find? name)

theorem binding_declare (s : Scopes) (i : Nat) (name n : String) (b : Binding) :
    (s.declare name b).binding i n = if i = 0 ∧ name = n then some b else s.binding i n := by
  cases i with
  | zero =>
    show (s.inner.bind name b).find? n = _
    simp [Scope.find?_bind, binding, toList]
  | succ i => simp [binding, declare, toList]

/-- Rebinding a name changes one binding of it, and no names. -/
theorem rebind_spec {name : String} {b : Binding} {ss ts : List Scope}
    (h : rebind name b ss = some ts) :
    ts.map Scope.names = ss.map Scope.names ∧
    ∀ (i : Nat) (n : String), ts[i]?.bind (Scope.find? n) = ss[i]?.bind (Scope.find? n) ∨
      n = name ∧ ts[i]?.bind (Scope.find? n) = some b ∧
        (ss[i]?.bind (Scope.find? n)).isSome := by
  induction ss generalizing ts with
  | nil => cases h
  | cons s rest ih =>
    rw [rebind] at h
    split at h
    case isTrue hbound =>
      cases h
      refine ⟨by rw [List.map_cons, List.map_cons, Scope.names_bind hbound], fun i n => ?_⟩
      cases i with
      | zero =>
        by_cases hn : name = n
        · subst hn
          exact .inr ⟨rfl, by simp [Scope.find?_bind], hbound⟩
        · exact .inl (by simp [Scope.find?_bind, hn])
      | succ i => exact .inl rfl
    case isFalse =>
      obtain ⟨us, hus, rfl⟩ := Option.map_eq_some_iff.mp h
      obtain ⟨hnames, hbindings⟩ := ih hus
      refine ⟨by rw [List.map_cons, List.map_cons, hnames], fun i n => ?_⟩
      cases i with
      | zero => exact .inl rfl
      | succ i => exact hbindings i n

/-- An assignment looks for the name in all scopes from the inside out. -/
theorem rebind_of_assign {name : String} {b : Binding} {s t : Scopes}
    (h : s.assign name b = .ok t) : rebind name b s.toList = some t.toList := by
  rw [assign] at h
  rw [toList, rebind]
  split at h
  case isTrue hbound =>
    cases h
    rw [if_pos hbound]
    rfl
  case isFalse hbound =>
    rw [if_neg hbound]
    cases houter : rebind name b s.outer with
    | none => rw [houter] at h; cases h
    | some outer =>
      rw [houter] at h
      cases h
      rfl

end Scopes

/-! ### Scopes before and after -/

/-- How scopes evolve while names in `targets` are assigned to and names are `declared`, with
or without a value, in the innermost scope. -/
structure Evolved (targets : List String) (declared : String → Binding → Prop)
    (before after : Scopes) : Prop where
  /-- There are as many scopes around the innermost one, with the same names. -/
  outer : after.outer.map Scope.names = before.outer.map Scope.names
  /-- The innermost scope has the same names, if none was declared. -/
  inner : (∀ name b, ¬ declared name b) → after.inner.names = before.inner.names
  /-- What was bound is bound. -/
  bound : ∀ i name, (before.binding i name).isSome → (after.binding i name).isSome
  /-- What is bound otherwise was assigned to, or declared in the innermost scope. -/
  changed : ∀ i name, after.binding i name ≠ before.binding i name →
    name ∈ targets ∨ i = 0 ∧ ∃ b, declared name b
  /-- What had a value and has none was declared without one. -/
  initialized : ∀ i name v, before.binding i name = some (some v) →
    after.binding i name = some none → i = 0 ∧ declared name none

/-- The discipline where nothing is declared. -/
abbrev Kept (targets : List String) : Scopes → Scopes → Prop :=
  Evolved targets fun _ _ => False

namespace Evolved

variable {targets others : List String} {declared declared' : String → Binding → Prop}
  {s t u : Scopes}

theorem refl (targets : List String) (declared : String → Binding → Prop) (s : Scopes) :
    Evolved targets declared s s where
  outer := rfl
  inner _ := rfl
  bound _ _ h := h
  changed _ _ h := absurd rfl h
  initialized i name v h h' := by rw [h] at h'; cases h'

theorem mono (h : Evolved targets declared s t) (ht : targets ⊆ others)
    (hd : ∀ name b, declared name b → declared' name b) : Evolved others declared' s t where
  outer := h.outer
  inner hno := h.inner fun name b hb => hno name b (hd name b hb)
  bound := h.bound
  changed i name hne := (h.changed i name hne).imp (fun hmem => ht hmem)
    fun ⟨hi, b, hb⟩ => ⟨hi, b, hd name b hb⟩
  initialized i name v hs ht := (h.initialized i name v hs ht).imp_right (hd name none)

theorem trans (h : Evolved targets declared s t) (h' : Evolved targets declared t u) :
    Evolved targets declared s u where
  outer := h'.outer.trans h.outer
  inner hno := (h'.inner hno).trans (h.inner hno)
  bound i name hs := h'.bound i name (h.bound i name hs)
  changed i name hne := by
    by_cases ht : t.binding i name = s.binding i name
    · exact h'.changed i name (by rw [ht]; exact hne)
    · exact h.changed i name ht
  initialized i name v hs hu := by
    -- the name is bound in between, and it lost its value before or after
    obtain ⟨b, hb⟩ := Option.isSome_iff_exists.mp (h.bound i name (by rw [hs]; rfl))
    cases b with
    | none => exact h.initialized i name v hs hb
    | some w => exact h'.initialized i name w hb hu

theorem names (h : Kept targets s t) : t.names = s.names := by
  show t.inner.names :: t.outer.map Scope.names = s.inner.names :: s.outer.map Scope.names
  rw [h.outer, h.inner fun _ _ => id]

theorem depth (h : Evolved targets declared s t) : t.depth = s.depth := by
  have hlength := congrArg List.length h.outer
  rw [List.length_map, List.length_map] at hlength
  rw [Scopes.depth, Scopes.depth, hlength]

theorem declare (name : String) (b : Binding) (s : Scopes) :
    Evolved [] (fun n c => n = name ∧ c = b) s (s.declare name b) where
  outer := rfl
  inner hno := absurd ⟨rfl, rfl⟩ (hno name b)
  bound i n hs := by
    rw [Scopes.binding_declare]
    split
    · rfl
    · exact hs
  changed i n hne := by
    rw [Scopes.binding_declare] at hne
    split at hne
    case isTrue h => exact .inr ⟨h.1, b, h.2.symm, rfl⟩
    case isFalse => exact absurd rfl hne
  initialized i n v hs ht := by
    rw [Scopes.binding_declare] at ht
    split at ht
    case isTrue h => exact ⟨h.1, h.2.symm, (Option.some.inj ht).symm⟩
    case isFalse => rw [hs] at ht; cases ht

theorem assign {name : String} {v : Value} (h : s.assign name (some v) = .ok t) :
    Kept [name] s t := by
  obtain ⟨hnames, hbindings⟩ := Scopes.rebind_spec (Scopes.rebind_of_assign h)
  obtain ⟨hinner, houter⟩ := List.cons.inj hnames
  refine ⟨houter, fun _ => hinner, fun i n hs => ?_, fun i n hne => ?_, fun i n w hs ht => ?_⟩
  · rcases hbindings i n with hsame | ⟨_, hvalue, _⟩
    · rw [Scopes.binding, hsame]
      exact hs
    · rw [Scopes.binding, hvalue]
      rfl
  · rcases hbindings i n with hsame | ⟨hn, _⟩
    · exact absurd hsame hne
    · exact .inl (List.mem_singleton.mpr hn)
  · rcases hbindings i n with hsame | ⟨_, hvalue, _⟩
    · rw [Scopes.binding, hsame, ← Scopes.binding, hs] at ht
      cases ht
    · rw [Scopes.binding, hvalue] at ht
      cases ht

/-- A scope that was opened can be ended, and with it goes what was declared in it. -/
theorem pop (h : Evolved targets declared s.push t) :
    ∃ u, t.pop = .ok u ∧ Kept targets s u := by
  obtain ⟨last, outer⟩ := t
  cases outer with
  | nil => cases h.outer
  | cons inner outer =>
    obtain ⟨hinner, houter⟩ := List.cons.inj h.outer
    refine ⟨⟨inner, outer⟩, rfl, houter, fun _ => hinner, fun i => h.bound (i + 1),
      fun i name hne => ?_, fun i name v hs hu => ?_⟩
    · rcases h.changed (i + 1) name hne with hmem | ⟨hi, _⟩
      · exact .inl hmem
      · cases hi
    · cases (h.initialized (i + 1) name v hs hu).1

end Evolved

end Scriptlet
