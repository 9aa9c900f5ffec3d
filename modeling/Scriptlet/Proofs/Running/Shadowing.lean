import Scriptlet.Proofs.Running.Discipline
import Scriptlet.Proofs.Running.Mentions

/-! A name that a block declares, under another name.

A block that begins with the declaration of a name is blind to what the name means
outside of it, so it may as well declare another, as long as nothing in it has that
name already. In the scopes from the block inwards the one name then stands for the
other; the scopes around the block are the same in both runs and never reached
through either name, as the block's own scope binds it (`Shadowed`). The initial
value is not renamed: it is found before the name is declared, and cannot depend on
it (`declare_cases`). -/
namespace Scriptlet

/-! ### Scopes under other names -/

namespace Scope

/-- The scope with its names replaced. -/
def renamed (f : String → String) (s : Scope) : Scope :=
  s.map fun p => (f p.1, p.2)

theorem mem_names_bind {name n : String} {b : Binding} {s : Scope} :
    n ∈ (s.bind name b).names ↔ n = name ∨ n ∈ s.names := by
  induction s with
  | nil => simp [bind, names]
  | cons p rest ih =>
    obtain ⟨m, old⟩ := p
    simp only [names] at ih
    by_cases hm : m = name
    · subst hm
      simp [bind, names]
    · simp [bind, names, hm, ih, or_left_comm]

theorem find?_isSome {name : String} {s : Scope} : (s.find? name).isSome ↔ name ∈ s.names := by
  induction s with
  | nil => simp [find?, names]
  | cons p rest ih =>
    obtain ⟨m, old⟩ := p
    simp only [names] at ih
    by_cases hm : m = name
    · simp [find?, names, hm]
    · simp [find?, names, hm, Ne.symm hm, ih]

variable {f : String → String} {name : String} {s : Scope}

/-- A name is found under its other name, unless another name of the scope has it too. -/
theorem find?_renamed (h : ∀ m ∈ s.names, f m = f name → m = name) :
    (s.renamed f).find? (f name) = s.find? name := by
  induction s with
  | nil => rfl
  | cons p rest ih =>
    obtain ⟨m, old⟩ := p
    rw [names, List.map_cons, List.forall_mem_cons] at h
    rw [renamed, List.map_cons, find?, find?]
    by_cases hm : m = name
    · rw [if_pos hm, if_pos (congrArg f hm)]
    · rw [if_neg hm, if_neg fun hf => hm (h.1 hf)]
      exact ih h.2

theorem bind_renamed (b : Binding) (h : ∀ m ∈ s.names, f m = f name → m = name) :
    (s.renamed f).bind (f name) b = (s.bind name b).renamed f := by
  induction s with
  | nil => rfl
  | cons p rest ih =>
    obtain ⟨m, old⟩ := p
    rw [names, List.map_cons, List.forall_mem_cons] at h
    rw [renamed, List.map_cons, bind, bind]
    by_cases hm : m = name
    · rw [if_pos hm, if_pos (congrArg f hm)]
      rfl
    · rw [if_neg hm, if_neg fun hf => hm (h.1 hf)]
      exact congrArg _ (ih h.2)

end Scope

namespace Scopes

section
variable {f : String → String} {name : String} {within : List Scope}

theorem findSome?_renamed
    (h : ∀ names ∈ within.map Scope.names, ∀ m ∈ names, f m = f name → m = name) :
    (within.map (Scope.renamed f)).findSome? (Scope.find? (f name)) =
      within.findSome? (Scope.find? name) := by
  induction within with
  | nil => rfl
  | cons s rest ih =>
    rw [List.map_cons, List.forall_mem_cons] at h
    rw [List.map_cons, List.findSome?_cons, List.findSome?_cons, Scope.find?_renamed h.1, ih h.2]

theorem rebind_renamed (b : Binding)
    (h : ∀ names ∈ within.map Scope.names, ∀ m ∈ names, f m = f name → m = name) :
    rebind (f name) b (within.map (Scope.renamed f)) =
      (rebind name b within).map (List.map (Scope.renamed f)) := by
  induction within with
  | nil => rfl
  | cons s rest ih =>
    rw [List.map_cons, List.forall_mem_cons] at h
    rw [List.map_cons, rebind, rebind, Scope.find?_renamed h.1]
    split
    · rw [Scope.bind_renamed b h.1]
      rfl
    · rw [ih h.2, Option.map_map, Option.map_map]
      rfl

end

theorem rebind_append (name : String) (b : Binding) (within outside : List Scope) :
    rebind name b (within ++ outside) =
      match rebind name b within with
      | some within' => some (within' ++ outside)
      | none => (rebind name b outside).map (within ++ ·) := by
  induction within with
  | nil => simp [rebind]
  | cons s rest ih =>
    rw [List.cons_append, rebind, rebind]
    split
    · rfl
    · rw [ih]
      cases rebind name b rest <;> simp [Function.comp_def]

theorem rebind_eq_none {name : String} {b : Binding} {ss : List Scope} :
    rebind name b ss = none ↔ ss.findSome? (Scope.find? name) = none := by
  induction ss with
  | nil => simp [rebind]
  | cons s rest ih =>
    rw [rebind, List.findSome?_cons]
    cases Scope.find? name s <;> simp [ih]

end Scopes

/-! ### One name for another -/

/-- Reads the name `x` as `y`. -/
def replacing (x y : String) (name : String) : String :=
  if name = x then y else name

section
variable {x y name m : String}

theorem replacing_self (x : String) : replacing x x = id := by
  funext name
  by_cases h : name = x <;> simp [replacing, h]

theorem replacing_of_ne (h : name ≠ x) : replacing x y name = name :=
  if_neg h

theorem eq_of_replacing (hm : m ≠ y) (hname : name ≠ y)
    (h : replacing x y m = replacing x y name) : m = name := by
  by_cases hx : m = x <;> by_cases hx' : name = x <;> simp_all [replacing]

end

/-- The names of scopes from a block inwards, which has declared `x`; `opened` counts the scopes
that were opened in it. -/
structure Shadowing (x y : String) (opened : Nat) (names : List (List String)) : Prop where
  length : names.length = opened + 1
  /-- The block's own scope binds `x`. -/
  bound : ∃ own ∈ names[opened]?, x ∈ own
  /-- No scope binds `y`. -/
  free : ∀ scope ∈ names, y ∉ scope

namespace Shadowing

variable {x y name : String} {opened : Nat} {inner inner' : List String}
  {names : List (List String)}

theorem push (h : Shadowing x y opened names) : Shadowing x y (opened + 1) ([] :: names) where
  length := by rw [List.length_cons, h.length]
  bound := by rw [List.getElem?_cons_succ]; exact h.bound
  free := List.forall_mem_cons.mpr ⟨List.not_mem_nil, h.free⟩

theorem pop (h : Shadowing x y (opened + 1) (inner :: names)) : Shadowing x y opened names where
  length := Nat.succ.inj h.length
  bound := by rw [← List.getElem?_cons_succ]; exact h.bound
  free := (List.forall_mem_cons.mp h.free).2

theorem declare (h : Shadowing x y opened (inner :: names)) (hname : name ≠ y)
    (hinner : ∀ n, n ∈ inner' ↔ n = name ∨ n ∈ inner) :
    Shadowing x y opened (inner' :: names) where
  length := h.length
  bound := by
    obtain ⟨own, hown, hx⟩ := h.bound
    cases opened with
    | zero =>
      cases hown
      exact ⟨inner', rfl, (hinner x).mpr (.inr hx)⟩
    | succ opened => exact ⟨own, hown, hx⟩
  free := by
    obtain ⟨hy, hrest⟩ := List.forall_mem_cons.mp h.free
    refine List.forall_mem_cons.mpr ⟨fun hmem => ?_, hrest⟩
    rcases (hinner y).mp hmem with heq | hmem
    · exact hname heq.symm
    · exact hy hmem

/-- No two names that are used from the block inwards have become one. -/
theorem apart (h : Shadowing x y opened names) (hname : name ≠ y) :
    ∀ scope ∈ names, ∀ m ∈ scope, replacing x y m = replacing x y name → m = name :=
  fun scope hscope _ hm => eq_of_replacing (fun hy => h.free scope hscope (hy ▸ hm)) hname

end Shadowing

/-! ### Likeness -/

/-- Scopes of which those from a block inwards have `y` for `x`. -/
def Shadowed (x y : String) (opened : Nat) (s t : Scopes) : Prop :=
  ∃ within outside : List Scope, s.toList = within ++ outside ∧
    t.toList = within.map (Scope.renamed (replacing x y)) ++ outside ∧
    Shadowing x y opened (within.map Scope.names)

section
variable {x y name : String} {opened : Nat} {s t : Scopes}

/-- A search for `x` does not leave the block. -/
theorem Shadowing.found {within : List Scope}
    (h : Shadowing x y opened (within.map Scope.names)) :
    (within.findSome? (Scope.find? x)).isSome := by
  obtain ⟨own, hown, hx⟩ := h.bound
  rw [List.getElem?_map, Option.mem_def, Option.map_eq_some_iff] at hown
  obtain ⟨scope, hscope, rfl⟩ := hown
  rw [List.findSome?_isSome_iff]
  exact ⟨scope, List.mem_of_getElem? hscope, Scope.find?_isSome.mpr hx⟩

/-- A search that leaves the block is for the same name in both. -/
theorem Shadowing.same_of_none {within : List Scope}
    (h : Shadowing x y opened (within.map Scope.names))
    (hnone : within.findSome? (Scope.find? name) = none) : replacing x y name = name := by
  refine replacing_of_ne fun hx => ?_
  subst hx
  have hfound := h.found
  rw [hnone] at hfound
  cases hfound

theorem Shadowed.find? (h : Shadowed x y opened s t) (hname : name ≠ y) :
    t.find? (replacing x y name) = s.find? name := by
  obtain ⟨within, outside, hs, ht, hnames⟩ := h
  rw [Scopes.find?, Scopes.find?, hs, ht, List.findSome?_append, List.findSome?_append,
    Scopes.findSome?_renamed (hnames.apart hname)]
  cases hfound : within.findSome? (Scope.find? name) with
  | some b => rfl
  | none => rw [hnames.same_of_none hfound]

theorem Shadowed.get (h : Shadowed x y opened s t) (hname : name ≠ y) :
    t.get (replacing x y name) =
      (s.get name).mapError (RunError.renamed (replacing x y)) := by
  rw [Scopes.get, Scopes.get, h.find? hname]
  split <;> rfl

/-- An assignment from inside the block reaches the same scope in both. -/
theorem Shadowing.rebind (b : Binding) {within : List Scope} (outside : List Scope)
    (h : Shadowing x y opened (within.map Scope.names)) (hname : name ≠ y) :
    (∃ within' outside', Shadowing x y opened (within'.map Scope.names) ∧
      Scopes.rebind name b (within ++ outside) = some (within' ++ outside') ∧
      Scopes.rebind (replacing x y name) b (within.map (Scope.renamed (replacing x y)) ++ outside) =
        some (within'.map (Scope.renamed (replacing x y)) ++ outside')) ∨
    Scopes.rebind name b (within ++ outside) = none ∧
      Scopes.rebind (replacing x y name) b
        (within.map (Scope.renamed (replacing x y)) ++ outside) = none := by
  rw [Scopes.rebind_append, Scopes.rebind_append, Scopes.rebind_renamed b (h.apart hname)]
  cases hwithin : Scopes.rebind name b within with
  | some within' =>
    refine .inl ⟨within', outside, ?_, rfl, rfl⟩
    rw [(Scopes.rebind_spec hwithin).1]
    exact h
  | none =>
    have hsame := h.same_of_none (Scopes.rebind_eq_none.mp hwithin)
    rw [hsame]
    cases houtside : Scopes.rebind name b outside with
    | some outside' => exact .inl ⟨within, outside', h, rfl, rfl⟩
    | none => exact .inr ⟨rfl, rfl⟩

theorem Shadowed.assign (b : Binding) (h : Shadowed x y opened s t) (hname : name ≠ y) :
    (∃ s' t', s.assign name b = .ok s' ∧ t.assign (replacing x y name) b = .ok t' ∧
      Shadowed x y opened s' t') ∨
    s.assign name b = .error (.undefined name) ∧
      t.assign (replacing x y name) b = .error (.undefined (replacing x y name)) := by
  obtain ⟨within, outside, hs, ht, hnames⟩ := h
  rcases hnames.rebind b outside hname with ⟨within', outside', hafter, hs', ht'⟩ | ⟨hs', ht'⟩
  · obtain ⟨u, hu, hsu⟩ := Scopes.assign_of_rebind (hs ▸ hs')
    obtain ⟨v, hv, htv⟩ := Scopes.assign_of_rebind (ht ▸ ht')
    exact .inl ⟨u, v, hu, hv, within', outside', hsu, htv, hafter⟩
  · exact .inr ⟨Scopes.assign_of_none (hs ▸ hs'), Scopes.assign_of_none (ht ▸ ht')⟩

theorem Shadowed.declare (b : Binding) (h : Shadowed x y opened s t) (hname : name ≠ y) :
    Shadowed x y opened (s.declare name b) (t.declare (replacing x y name) b) := by
  obtain ⟨within, outside, hs, ht, hnames⟩ := h
  cases within with
  | nil => cases hnames.length
  | cons inner within =>
    obtain ⟨hinner, houter⟩ := List.cons.inj hs
    obtain ⟨hinner', houter'⟩ := List.cons.inj ht
    refine ⟨inner.bind name b :: within, outside, ?_, ?_,
      hnames.declare hname fun n => Scope.mem_names_bind⟩
    · rw [Scopes.toList, Scopes.declare, hinner, houter]
      rfl
    · rw [Scopes.toList, Scopes.declare, hinner', houter', List.map_cons,
        ← Scope.bind_renamed b (hnames.apart hname _ List.mem_cons_self)]
      rfl

theorem Shadowed.push (h : Shadowed x y opened s t) :
    Shadowed x y (opened + 1) s.push t.push := by
  obtain ⟨within, outside, hs, ht, hnames⟩ := h
  exact ⟨[] :: within, outside, congrArg _ hs, congrArg _ ht, hnames.push⟩

theorem Shadowed.pop (h : Shadowed x y (opened + 1) s t) :
    ∃ s' t', s.pop = .ok s' ∧ t.pop = .ok t' ∧ Shadowed x y opened s' t' := by
  obtain ⟨within, outside, hs, ht, hnames⟩ := h
  match within with
  | [] | [_] => cases hnames.length
  | last :: inner :: within =>
    obtain ⟨-, houter⟩ := List.cons.inj hs
    obtain ⟨-, houter'⟩ := List.cons.inj ht
    refine ⟨⟨inner, within ++ outside⟩, ⟨_, _⟩, ?_, ?_, inner :: within, outside, rfl, rfl,
      hnames.pop⟩
    · rw [Scopes.pop, houter]
      rfl
    · rw [Scopes.pop, houter']
      rfl

/-- **A run cannot tell which name the block has declared.** -/
theorem shadowed_likeness (x y : String) :
    Likeness (replacing x y) (· ≠ y) (Shadowed x y) where
  get h hname := h.get hname
  assign b h hname := h.assign b hname
  declare b h hname := h.declare b hname
  push h := h.push
  pop h := h.pop

end

/-! ### The declaration -/

/-- A declaration comes to the same end and binds the same under any name. It leaves the names
in the scopes as they were until it binds its own. -/
theorem declare_cases (room : Nat) (initial : Option Expr) (m : Machine) :
    (∃ e n, ∀ name, execute room (.declare name initial) m = (.error e, n)) ∨
    ∃ (b : Binding) (n : Machine), n.scopes.names = m.scopes.names ∧
      ∀ name, execute room (.declare name initial) m =
        (.ok (), { n with scopes := n.scopes.declare name b }) := by
  match room, initial with
  | 0, initial =>
    refine .inl ⟨.stackOverflow, m, fun name => ?_⟩
    rw [execute]
    rfl
  | room + 1, none =>
    refine .inr ⟨none, m, rfl, fun name => ?_⟩
    rw [execute]
    rfl
  | room + 1, some e =>
    have hnames := (orderly_evaluate room e m.scopes).evolved.names
    rcases hvalue : evaluate room e m.scopes with ⟨r, s⟩
    have hrun : onScopes (evaluate room e) m = (r, { m with scopes := s }) := by
      rw [onScopes, hvalue]
    rw [hvalue] at hnames
    cases r with
    | error error =>
      refine .inl ⟨error, { m with scopes := s }, fun name => ?_⟩
      rw [execute, Action.bind_error hrun]
    | ok v =>
      refine .inr ⟨some v, { m with scopes := s }, hnames, fun name => ?_⟩
      rw [execute, Action.bind_ok hrun]
      rfl

/-- How a block goes on behind its first declaration, whatever name that has. -/
theorem body_cases (room : Nat) (initial : Option Expr) (m : Machine) :
    (∃ e n, ∀ name body, (execute room (.declare name initial) m).1 = .error e ∧
      executeAll room (.declare name initial :: body) m = (.error e, n)) ∨
    ∃ (b : Binding) (n : Machine), n.scopes.names = m.scopes.names ∧
      ∀ name body, (execute room (.declare name initial) m).1 = .ok () ∧
        executeAll room (.declare name initial :: body) m =
          executeAll room body { n with scopes := n.scopes.declare name b } := by
  rcases declare_cases room initial m with ⟨e, n, hfails⟩ | ⟨b, n, hnames, hdeclares⟩
  · refine .inl ⟨e, n, fun name body => ⟨by rw [hfails name], ?_⟩⟩
    rw [executeAll, Action.bind_error (hfails name)]
  · refine .inr ⟨b, n, hnames, fun name body => ⟨by rw [hdeclares name], ?_⟩⟩
    rw [executeAll, Action.bind_ok (hdeclares name)]

/-- A block has declared its first name and nothing else. -/
theorem shadowed_declared {x y : String} (h : x ≠ y) (b : Binding) {s t : Scopes}
    (hnames : t.names = s.push.names) : Shadowed x y 0 (t.declare x b) (t.declare y b) := by
  obtain ⟨inner, outer⟩ := t
  have hinner : inner = [] := List.map_eq_nil_iff.mp (List.cons.inj hnames).1
  subst hinner
  refine ⟨[[(x, b)]], outer, rfl, ?_, rfl, ⟨[x], rfl, List.mem_singleton_self x⟩, ?_⟩
  · show [(y, b)] :: outer = [(replacing x y x, b)] :: outer
    rw [replacing, if_pos rfl]
  · intro scope hscope hy
    rw [List.mem_singleton.mp hscope] at hy
    exact h (List.mem_singleton.mp hy).symm

/-- What is like in the block's own scope is the same once that scope has ended. -/
theorem Shadowed.ended {x y : String} {s t u : Scopes} (h : Shadowed x y 0 s t)
    (hs : s.pop = .ok u) : t.pop = .ok u := by
  obtain ⟨within, outside, hp, hq, hnames⟩ := h
  match within, hnames.length with
  | [own], _ =>
    rw [← hs, Scopes.pop, Scopes.pop, (List.cons.inj hp).2, (List.cons.inj hq).2]
    rfl

theorem inScope_ended {p : Action Machine Unit} {m n : Machine} {r : Except RunError Unit}
    {s : Scopes} (hp : p { m with scopes := m.scopes.push } = (r, n))
    (hs : n.scopes.pop = .ok s) : inScope p m = (r, { n with scopes := s }) := by
  simp only [inScope, hp, hs]

/-- **Shadowing is hygienic.** A block that declares `y` in place of `x`, with `y` for `x` in
all that follows, where `y` did not occur, prints the same and leaves the same scopes. Where
the initial value, which is not renamed, has an error, both end with it; else they end in the
same way, up to the name in an error. -/
theorem shadowing_hygienic (room : Nat) {x y : String} (initial : Option Expr)
    {rest : List Stmt} (hfresh : y ∉ namesAll rest) (m : Machine) :
    let block := execute room (.block (.declare x initial :: rest)) m
    let other := execute room (.block (.declare y initial :: renamedAll (replacing x y) rest)) m
    other.2 = block.2 ∧
    match (execute (room - 1) (.declare x initial) { m with scopes := m.scopes.push }).1 with
    | .ok () => other.1 = block.1.mapError (RunError.renamed (replacing x y))
    | .error e => block.1 = .error e ∧ other.1 = .error e := by
  match room with
  | 0 =>
    simp only [execute, true_and]
    exact ⟨rfl, rfl⟩
  | room + 1 =>
    obtain ⟨s, hs, -⟩ := (orderly_executeAll room (.declare x initial :: rest)
      { m with scopes := m.scopes.push }).evolved.pop
    simp only [execute, Nat.add_sub_cancel]
    rcases body_cases room initial { m with scopes := m.scopes.push } with
      ⟨e, n, hfails⟩ | ⟨b, n, hnames, hgoes⟩
    · rw [(hfails x rest).2] at hs
      rw [inScope_ended (hfails x rest).2 hs, inScope_ended (hfails y _).2 hs, (hfails x rest).1]
      exact ⟨rfl, rfl, rfl⟩
    · rw [(hgoes x rest).2] at hs
      rw [(hgoes x rest).1, inScope_ended (hgoes x rest).2 hs]
      by_cases hxy : x = y
      · subst hxy
        rw [replacing_self, renamedAll_id, inScope_ended (hgoes x rest).2 hs, mapError_id]
        exact ⟨rfl, rfl⟩
      · have hstart : LikeMachines (Shadowed x y 0) { n with scopes := n.scopes.declare x b }
            { n with scopes := n.scopes.declare y b } :=
          ⟨shadowed_declared hxy b hnames, rfl⟩
        obtain ⟨houtcome, hshadowed, hprinted⟩ := alike_executeAll (shadowed_likeness x y) room
          rest (fun name hmem hy => hfresh (hy ▸ hmem)) 0 _ _ hstart
        rw [inScope_ended (hgoes y _).2 (hshadowed.ended hs), hprinted]
        exact ⟨rfl, houtcome⟩

/-- The initial value is that of the outer name, and the error is about the inner one. -/
theorem shadowing_hygienic_uninitialized :
    let rest : List Stmt :=
      [.print (.variable "a"), .block [.declare "a" none, .print (.variable "a")]]
    let m : Machine := ⟨⟨[("a", some (.boolean true))], []⟩, ""⟩
    "b" ∉ namesAll rest ∧
      execute 9 (.block (.declare "a" (some (.variable "a")) :: rest)) m =
        (.error (.uninitialized "a"), { m with printed := "true\n" }) ∧
      execute 9 (.block (.declare "b" (some (.variable "a")) ::
        renamedAll (replacing "a" "b") rest)) m =
          (.error (.uninitialized "b"), { m with printed := "true\n" }) := by
  intro rest m
  have hfresh : "b" ∉ namesAll rest := by decide
  have hblock : execute 9 (.block (.declare "a" (some (.variable "a")) :: rest)) m =
      (.error (.uninitialized "a"), { m with printed := "true\n" }) := by rfl
  obtain ⟨hsame, houtcome⟩ := shadowing_hygienic 9 (some (.variable "a")) hfresh m
  rw [hblock] at hsame houtcome
  exact ⟨hfresh, hblock, Prod.ext houtcome hsame⟩

end Scriptlet
