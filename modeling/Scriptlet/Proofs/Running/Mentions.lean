import Scriptlet.Proofs.Running.Columns
import Scriptlet.Proofs.Running.Discipline
import Scriptlet.Proofs.Running.Likeness
import Scriptlet.Proofs.Running.Printing

/-! Names that a statement does not mention.

A statement cannot see what the names that it does not mention are bound to, nor
change it. Scopes that agree on the columns of its names are like ones
(`agree_likeness`), although a look-up passes through scopes that differ in others,
and what is bound otherwise afterwards was a target or was declared
(`execute_unmentioned`). `unmentioned_irrelevant` says both. -/
namespace Scriptlet

/-! ### Names kept as they are -/

theorem mapError_id {α : Type} (r : Except RunError α) :
    r.mapError (RunError.renamed id) = r := by
  cases r with
  | ok a => rfl
  | error e => cases e <;> rfl

theorem Expr.renamed_id (e : Expr) : e.renamed id = e := by
  induction e with
  | number | boolean | nil | string | «variable» => rfl
  | assign name value ih => rw [renamed, ih, id]
  | unary op operand ih => rw [renamed, ih]
  | binary op left right ihl ihr | logical op left right ihl ihr => rw [renamed, ihl, ihr]

mutual

theorem Stmt.renamed_id (stmt : Stmt) : stmt.renamed id = stmt := by
  match stmt with
  | .expression e => rw [Stmt.renamed, e.renamed_id]
  | .print e => rw [Stmt.renamed, e.renamed_id]
  | .declare name none => rw [Stmt.renamed, id]
  | .declare name (some e) => rw [Stmt.renamed, e.renamed_id, id]
  | .block body => rw [Stmt.renamed, renamedAll_id body]
  | .branch condition yes none =>
    rw [Stmt.renamed, condition.renamed_id, yes.renamed_id]
  | .branch condition yes (some no) =>
    rw [Stmt.renamed, condition.renamed_id, yes.renamed_id, no.renamed_id]

theorem renamedAll_id (body : List Stmt) : renamedAll id body = body := by
  match body with
  | [] => rfl
  | s :: rest => rw [renamedAll, s.renamed_id, renamedAll_id rest]

end

/-! ### Scopes that agree -/

/-- As many scopes, more than were opened on the way, which agree on some names. -/
structure Agree (names : List String) (opened : Nat) (s t : Scopes) : Prop where
  depth : t.depth = s.depth
  opened : opened < s.depth
  column : ∀ name ∈ names, t.column name = s.column name

section
variable {names : List String}

theorem Agree.assign {k : Nat} {s t : Scopes} {name : String} (b : Binding)
    (h : Agree names k s t) (hname : name ∈ names) :
    (∃ s' t', s.assign name b = .ok s' ∧ t.assign name b = .ok t' ∧ Agree names k s' t') ∨
      s.assign name b = .error (.undefined name) ∧ t.assign name b = .error (.undefined name) := by
  have hcolumn := h.column name hname
  rcases Scopes.assign_column name b s with ⟨s', hs, hsname, hsother⟩ | ⟨hs, hsnone⟩ <;>
    rcases Scopes.assign_column name b t with ⟨t', ht, htname, htother⟩ | ⟨ht, htnone⟩
  · refine .inl ⟨s', t', hs, ht, ?_, ?_, fun n hn => ?_⟩
    · rw [Scopes.depth_of_rebind htname, Scopes.depth_of_rebind hsname, h.depth]
    · rw [Scopes.depth_of_rebind hsname]
      exact h.opened
    · by_cases hne : name = n
      · subst hne
        rw [hcolumn, hsname] at htname
        exact (Option.some.inj htname).symm
      · rw [htother n hne, hsother n hne, h.column n hn]
  · rw [hcolumn, hsname] at htnone
    cases htnone
  · rw [hcolumn, hsnone] at htname
    cases htname
  · exact .inr ⟨hs, ht⟩

/-- **Scopes that agree on names cannot be told apart through them.** -/
theorem agree_likeness (names : List String) : Likeness id (· ∈ names) (Agree names) where
  get h hname := by rw [mapError_id, id, Scopes.get_congr (h.column _ hname)]
  assign b h hname := h.assign b hname
  declare b h hname := by
    refine ⟨h.depth, h.opened, fun n hn => ?_⟩
    rw [id, Scopes.column_declare, Scopes.column_declare, h.column n hn]
  push h := by
    refine ⟨?_, ?_, fun n hn => ?_⟩
    · rw [Scopes.depth_push, Scopes.depth_push, h.depth]
    · rw [Scopes.depth_push]
      exact Nat.succ_lt_succ h.opened
    · rw [Scopes.column_push, Scopes.column_push, h.column n hn]
  pop {k s t} h := by
    have hopened : 1 < s.depth := Nat.lt_of_le_of_lt (Nat.le_add_left 1 k) h.opened
    obtain ⟨s', hs⟩ := Scopes.exists_pop hopened
    obtain ⟨t', ht⟩ := Scopes.exists_pop (h.depth.symm ▸ hopened)
    refine ⟨s', t', hs, ht, ?_, ?_, fun n hn => ?_⟩
    · rw [Scopes.depth_pop hs, Scopes.depth_pop ht, h.depth]
    · rw [Scopes.depth_pop hs]
      exact Nat.lt_sub_of_add_lt h.opened
    · rw [Scopes.column_pop hs, Scopes.column_pop ht, h.column n hn]

end

/-! ### What is not mentioned -/

theorem append_subset_append {as bs cs ds : List String} (h : as ⊆ cs) (h' : bs ⊆ ds) :
    as ++ bs ⊆ cs ++ ds :=
  List.append_subset.mpr
    ⟨List.subset_append_of_subset_left ds h, List.subset_append_of_subset_right cs h'⟩

theorem Expr.targets_subset (e : Expr) : e.targets ⊆ e.names := by
  induction e with
  | number | boolean | nil | string | «variable» => exact List.nil_subset _
  | assign name value ih => exact List.cons_subset_cons name ih
  | unary op operand ih => exact ih
  | binary op left right ihl ihr | logical op left right ihl ihr =>
    exact append_subset_append ihl ihr

mutual

theorem Stmt.targets_subset (stmt : Stmt) : stmt.targets ⊆ stmt.names := by
  match stmt with
  | .expression e | .print e =>
    rw [Stmt.targets, Stmt.names]
    exact e.targets_subset
  | .declare name none =>
    rw [Stmt.targets]
    exact List.nil_subset _
  | .declare name (some e) =>
    rw [Stmt.targets, Stmt.names]
    exact List.subset_cons_of_subset name e.targets_subset
  | .block body =>
    rw [Stmt.targets, Stmt.names]
    exact targetsAll_subset body
  | .branch condition yes none =>
    rw [Stmt.targets, Stmt.names]
    exact append_subset_append condition.targets_subset yes.targets_subset
  | .branch condition yes (some no) =>
    rw [Stmt.targets, Stmt.names]
    exact append_subset_append condition.targets_subset
      (append_subset_append yes.targets_subset no.targets_subset)

theorem targetsAll_subset (body : List Stmt) : targetsAll body ⊆ namesAll body := by
  match body with
  | [] =>
    rw [targetsAll]
    exact List.nil_subset _
  | s :: rest =>
    rw [targetsAll, namesAll]
    exact append_subset_append s.targets_subset (targetsAll_subset rest)

end

/-- What a statement declares stands in it. -/
theorem Declares.mem_names {room : Nat} {stmt : Stmt} {s : Scopes} {name : String} {b : Binding}
    (h : Declares room stmt s name b) : name ∈ stmt.names := by
  induction h with
  | bare | valued => rw [Stmt.names]; exact List.mem_cons_self
  | @yes _ _ _ no _ _ _ _ _ _ _ _ ih =>
    cases no with
    | none => rw [Stmt.names]; exact List.mem_append_right _ ih
    | some no => rw [Stmt.names]; exact List.mem_append_right _ (List.mem_append_left _ ih)
  | no _ _ _ ih => rw [Stmt.names]; exact List.mem_append_right _ (List.mem_append_right _ ih)

/-- A statement leaves what it does not mention. -/
theorem execute_unmentioned (room : Nat) (stmt : Stmt) (m : Machine) {name : String}
    (h : name ∉ stmt.names) :
    (execute room stmt m).2.scopes.column name = m.scopes.column name := by
  have hevolved := (orderly_execute room stmt m).evolved
  refine Scopes.column_ext hevolved.depth fun i => ?_
  refine Classical.byContradiction fun hne => ?_
  rcases hevolved.changed i name hne with htarget | ⟨_, b, hdeclared⟩
  · exact h (stmt.targets_subset htarget)
  · exact h hdeclared.mem_names

/-! ### The theorem -/

/-- What a statement prints is the same whatever was printed before it. -/
theorem execute_silent (room : Nat) (stmt : Stmt) (m : Machine) :
    execute room stmt m = ((execute room stmt m.silent).1,
      (execute room stmt m.silent).2.behind m.printed) := by
  rw [← blind_execute, m.silent_behind]

/-- **Names that a statement does not mention do not matter.** From machines with as many
scopes that agree, scope by scope, on the names of a statement, it comes to the same end,
prints the same text and leaves scopes that agree on them again; and in each, every other name
is bound in every scope as it was. -/
theorem unmentioned_irrelevant (room : Nat) (stmt : Stmt) (m n : Machine)
    (hdepth : n.scopes.depth = m.scopes.depth)
    (hagree : ∀ name ∈ stmt.names, n.scopes.column name = m.scopes.column name) :
    (execute room stmt n).1 = (execute room stmt m).1 ∧
    (∃ text, (execute room stmt m).2.printed = m.printed ++ text ∧
      (execute room stmt n).2.printed = n.printed ++ text) ∧
    (execute room stmt n).2.scopes.depth = (execute room stmt m).2.scopes.depth ∧
    (∀ name ∈ stmt.names,
      (execute room stmt n).2.scopes.column name = (execute room stmt m).2.scopes.column name) ∧
    ∀ name ∉ stmt.names,
      (execute room stmt m).2.scopes.column name = m.scopes.column name ∧
      (execute room stmt n).2.scopes.column name = n.scopes.column name := by
  have hlike : LikeMachines (Agree stmt.names 0) m.silent n.silent :=
    ⟨⟨hdepth, Nat.succ_pos _, hagree⟩, rfl⟩
  obtain ⟨houtcome, hscopes, hprinted⟩ :=
    alike_execute (agree_likeness stmt.names) room stmt (fun _ => id) 0 _ _ hlike
  rw [stmt.renamed_id] at houtcome hscopes hprinted
  rw [mapError_id] at houtcome
  refine ⟨?_, ⟨(execute room stmt m.silent).2.printed, ?_, ?_⟩, ?_, ?_, fun name hname =>
    ⟨execute_unmentioned room stmt m hname, execute_unmentioned room stmt n hname⟩⟩
  · rw [execute_silent room stmt m, execute_silent room stmt n, houtcome]
  · rw [execute_silent room stmt m]
    rfl
  · rw [execute_silent room stmt n, ← hprinted]
    rfl
  · rw [execute_silent room stmt m, execute_silent room stmt n]
    exact hscopes.depth
  · rw [execute_silent room stmt m, execute_silent room stmt n]
    exact hscopes.column

/-- A name that is bound at different depths, and one that is bound in one of the machines only. -/
theorem unmentioned_irrelevant_block :
    let stmt : Stmt := .block [.declare "b" none, .expression (.assign "a" .nil),
      .print (.variable "a"), .print (.variable "b")]
    let m : Machine := ⟨⟨[("c", none)], [[("a", some (.boolean true))]]⟩, ""⟩
    let n : Machine := ⟨⟨[("d", some .nil)], [[("c", some .nil), ("a", some (.boolean true))]]⟩, ""⟩
    n.scopes.depth = m.scopes.depth ∧
      (∀ name ∈ stmt.names, n.scopes.column name = m.scopes.column name) ∧
      (execute 9 stmt m).1 = .error (.uninitialized "b") ∧
      (execute 9 stmt n).1 = .error (.uninitialized "b") ∧
      (execute 9 stmt n).2.scopes.column "c" = [none, some (some .nil)] := by
  intro stmt m n
  have hagree : ∀ name ∈ stmt.names, n.scopes.column name = m.scopes.column name := by decide
  have hfails : (execute 9 stmt m).1 = .error (.uninitialized "b") := by rfl
  obtain ⟨houtcome, -, -, -, hother⟩ := unmentioned_irrelevant 9 stmt m n rfl hagree
  exact ⟨rfl, hagree, hfails, houtcome.trans hfails, (hother "c" (by decide)).2⟩

end Scriptlet
