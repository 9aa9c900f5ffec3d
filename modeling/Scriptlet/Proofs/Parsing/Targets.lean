import Scriptlet.Proofs.Limits.Expressions
import Scriptlet.Proofs.Locality.Lookahead
import Scriptlet.Proofs.Parsing.Exactness

/-! What is taken for the target of an assignment.

The parser has the tree of the left side when it meets the equals sign, and asks
whether that is a mere name. Parentheses leave no trace in a tree, so a name in
parentheses is a target too, and nothing else is: on the way to a mere name nothing
is noted (`SilentNames`), so its tokens are those of a phrase of the grammar.

`Calls` says where in the course of parsing a source an expression is parsed. What is
noted there is among the diagnostics of the source (`Calls.noted`), and so
`assignment_targets` is about every assignment that is met anywhere. -/
namespace Scriptlet

open Scriptlet.Parser Scriptlet.Cursor

/-! ### Calls -/

/-- While the one parser works from a cursor on, the parser `q` works from `d` on. -/
inductive Calls {β : Type} (q : Parser β) (d : Cursor) : {α : Type} → Parser α → Cursor → Prop
  | itself : Calls q d q d
  | first {α γ : Type} {p : Parser α} {f : α → Parser γ} {c : Cursor} (call : Calls q d p c) :
      Calls q d (p >>= f) c
  | second {α γ : Type} {p : Parser α} {f : α → Parser γ} {c : Cursor} {a : α} {ts : List Token}
      (result : (p c).outcome = .ok a) (past : c.Past ts (p c).cursor)
      (call : Calls q d (f a) (p c).cursor) : Calls q d (p >>= f) c
  | inward {α : Type} {p : Parser α} {c : Cursor} {cost : Nat} (call : Calls q d p c) :
      Calls q d (inward cost p) c
  | recovering {p : Parser Stmt} {c : Cursor} {inBlock : Bool} (call : Calls q d p c) :
      Calls q d (recovering inBlock p) c

section
variable {α β γ : Type} {p : Parser α} {q : Parser β} {c d : Cursor}

theorem calls_peek_bind {f : Token → Parser α} (h : Calls q d (f c.peek) c) :
    Calls q d (Parser.peek >>= f) c :=
  .second rfl (past_nil.mpr rfl) h

theorem calls_unread_bind {f : List Token → Parser α} (h : Calls q d (f c.rest) c) :
    Calls q d (unread >>= f) c :=
  .second rfl (past_nil.mpr rfl) h

theorem calls_atEnd_bind {f : Bool → Parser α} (h : Calls q d (f c.atEnd) c) :
    Calls q d (atEnd >>= f) c :=
  .second rfl (past_nil.mpr rfl) h

/-- A parser that is called works further on in the same tokens. -/
theorem Calls.past (h : Calls q d p c) : ∃ ts, c.Past ts d := by
  induction h with
  | itself => exact ⟨[], past_nil.mpr rfl⟩
  | first _ ih | inward _ ih | recovering _ ih => exact ih
  | second _ past _ ih =>
    obtain ⟨us, hus⟩ := ih
    exact ⟨_, past_append.mpr ⟨_, past, hus⟩⟩

theorem noted_first (p : Parser α) (f : α → Parser γ) (c : Cursor) :
    (p c).noted <+: ((p >>= f) c).noted := by
  cases ho : (p c).outcome with
  | ok a =>
    rw [bind_ok ho]
    exact List.prefix_append _ _
  | error e => exact ⟨[], by rw [bind_error ho, List.append_nil]⟩

theorem noted_second {f : α → Parser γ} {a : α} (ho : (p c).outcome = .ok a) :
    (f a (p c).cursor).noted <:+ ((p >>= f) c).noted := by
  rw [bind_ok ho]
  exact List.suffix_append _ _

theorem noted_recovering (inBlock : Bool) (p : Parser Stmt) (c : Cursor) :
    (p c).noted <+: (recovering inBlock p c).noted := by
  cases ho : (p c).outcome with
  | ok s => exact ⟨[], by rw [recovering_of_ok ho, List.append_nil]⟩
  | error e =>
    rw [recovering_of_error ho]
    exact List.prefix_append _ _

/-- Nothing that is noted is forgotten. -/
theorem Calls.noted (h : Calls q d p c) : (q d).noted <:+: (p c).noted := by
  induction h with
  | itself => exact List.infix_rfl
  | first _ ih => exact ih.trans (noted_first _ _ _).isInfix
  | second result _ _ ih => exact ih.trans (noted_second result).isInfix
  | inward _ ih => exact ih
  | recovering _ ih => exact ih.trans (noted_recovering _ _ _).isInfix

theorem Calls.proper (h : Calls q d p c) (hc : c.Proper) : d.Proper := by
  obtain ⟨ts, hts⟩ := h.past
  exact hc.past hts

end

/-! ### Mere names -/

/-- On the way to a mere name nothing is noted. -/
def SilentNames (p : Parser Expr) : Prop :=
  ∀ c name, (p c).outcome = .ok (.variable name) → (p c).noted = []

theorem bind_result {α β : Type} {p : Parser α} {f : α → Parser β} {c : Cursor} {b : β}
    (h : ((p >>= f) c).outcome = .ok b) :
    ∃ a, (p c).outcome = .ok a ∧ (f a (p c).cursor).outcome = .ok b ∧
      ((p >>= f) c).noted = (p c).noted ++ (f a (p c).cursor).noted := by
  cases ho : (p c).outcome with
  | ok a =>
    rw [bind_ok ho] at h ⊢
    exact ⟨a, rfl, h, rfl⟩
  | error e =>
    rw [bind_error ho] at h
    cases h

theorem silent_pure (e : Expr) : SilentNames (pure e) :=
  fun _ _ _ => rfl

theorem silent_refuse (t : Token) (fault : Fault) : SilentNames (refuse t fault) :=
  fun _ _ _ => rfl

theorem silent_seq {α : Type} {p : Parser α} {f : α → Parser Expr} (hp : ∀ c, (p c).noted = [])
    (hf : ∀ a, SilentNames (f a)) : SilentNames (p >>= f) := by
  intro c name ho
  obtain ⟨a, -, hrest, hnoted⟩ := bind_result ho
  rw [hnoted, hp c, hf a _ name hrest]
  rfl

theorem noted_expect (kind : Kind) (fault : Fault) (c : Cursor) :
    (expect kind fault c).noted = [] := by
  by_cases hk : c.peek.kind = kind
  · rw [expect_found hk]
  · rw [expect_missing hk]

section
variable {operand : Parser Expr}

/-- No operator has been read in front of a mere name. -/
theorem chain_name {layer : Layer} (hlayer : layer ∈ layers) {bound : List Token} {left : Expr}
    {c : Cursor} {name : String}
    (h : (chain layer operand bound left c).outcome = .ok (.variable name)) :
    left = .variable name ∧ (chain layer operand bound left c).noted = [] := by
  induction bound generalizing left c with
  | nil =>
    cases h
    exact ⟨rfl, rfl⟩
  | cons _ bound ih =>
    rw [chain, peek_bind] at h ⊢
    cases hnode : layer c.peek.kind with
    | none =>
      rw [hnode] at h
      cases h
      exact ⟨rfl, rfl⟩
    | some node =>
      simp only [hnode, skip_bind] at h
      obtain ⟨right, -, hrest, -⟩ := bind_result h
      obtain ⟨i, hi⟩ := List.mem_iff_getElem?.mp hlayer
      have hjoins := (layers_joins i layer hi c.peek.kind node).mp hnode
      exact absurd (ih hrest).1.symm (hjoins.ne_variable left right name)

theorem silent_operation (h : SilentNames operand) : SilentNames (operation operand) := by
  have hfold : ∀ ls : List Layer, (∀ layer ∈ ls, layer ∈ layers) →
      SilentNames (ls.foldr leftFold operand) := by
    intro ls hls
    induction ls with
    | nil => exact h
    | cons layer ls ih =>
      obtain ⟨hlayer, hrest⟩ := List.forall_mem_cons.mp hls
      intro c name ho
      obtain ⟨first, hfirst, hchain, hnoted⟩ := bind_result ho
      rw [unread_bind] at hchain hnoted
      obtain ⟨rfl, hquiet⟩ := chain_name hlayer hchain
      rw [List.foldr_cons, leftFold, hnoted, ih hrest c name hfirst, hquiet]
      rfl
  exact hfold layers fun _ => id

end

section
variable {inner : Inner}

theorem silent_primary (h : ∀ t, SilentNames (inner.expression t)) :
    SilentNames (primary inner) := by
  refine silent_seq (fun _ => rfl) fun t => ?_
  split
  case h_1 | h_2 | h_3 | h_5 | h_6 => exact silent_seq (fun _ => rfl) fun _ => silent_pure _
  case h_4 =>
    refine silent_seq (fun _ => rfl) fun _ => ?_
    split
    · exact silent_pure _
    · exact silent_refuse t _
  case h_7 =>
    refine silent_seq (fun _ => rfl) fun _ => ?_
    intro c name ho
    obtain ⟨e, he, ho, hnoted⟩ := bind_result ho
    obtain ⟨close, -, ho, hnoted'⟩ := bind_result ho
    cases ho
    rw [hnoted, hnoted', noted_expect]
    exact congrArg (· ++ []) (h t c name he)
  case h_8 | h_9 => exact silent_refuse t _

theorem silent_operand (h : ∀ t, SilentNames (inner.expression t)) :
    SilentNames (operandWith inner) := by
  refine silent_seq (fun _ => rfl) fun t => ?_
  split
  · refine silent_seq (fun _ => rfl) fun _ => ?_
    intro c name ho
    obtain ⟨_, _, ho, _⟩ := bind_result ho
    cases ho
  · exact silent_primary h

theorem silent_expressionWith (h : ∀ t, SilentNames (inner.expression t)) :
    SilentNames (expressionWith inner) := by
  intro c name ho
  obtain ⟨target, htarget, ho, hnoted⟩ := bind_result ho
  rw [peek_bind] at ho hnoted
  split at ho
  case isTrue =>
    rw [skip_bind] at ho
    obtain ⟨value, _, ho, _⟩ := bind_result ho
    split at ho
    next => cases ho
    next hother =>
      cases ho
      exact absurd rfl (hother name)
  case isFalse hequal =>
    cases ho
    rw [if_neg hequal] at hnoted
    unfold expressionWith
    rw [hnoted, silent_operation (silent_operand h) c name htarget]
    rfl

end

theorem silent_inner (room : Nat) (t : Token) : SilentNames ((inner room).expression t) := by
  induction room generalizing t with
  | zero => exact fun c name ho => by cases ho
  | succ room ih => exact silent_expressionWith ih

/-! ### Left sides -/

/-- The left side of an assignment, or all of an expression that is none. -/
abbrev leftSide (room : Nat) : Parser Expr :=
  operation (operandWith (inner room))

theorem recognizes_leftSide (room : Nat) :
    Recognizes (leftSide room) (Within (.operation 0) room) :=
  recognizes_operation (recognizes_operand (fun t => (recognizes_inner room t).1)
    fun t => (recognizes_inner room t).2)

section
variable {room : Nat} {c : Cursor} {left : List Token} {target : Expr} {name : String}

/-- What is read as a mere name is a name, in parentheses or not. -/
theorem target_of_variable (hc : c.Proper) (hpast : c.Past left (leftSide room c).cursor)
    (ho : (leftSide room c).outcome = .ok (.variable name)) : ∃ n, Target left name n := by
  have hquiet := silent_operation (silent_operand (silent_inner room)) c name ho
  obtain ⟨ts, hts, ⟨n, hphrase, -⟩, -⟩ :=
    (recognizes_leftSide room c _ _ hc).mp ⟨ho, rfl, hquiet⟩
  obtain rfl := past_unique hts hpast
  exact ⟨n, hphrase.target⟩

/-- A name, in parentheses or not, is read as a mere name, unless there is no room for all of
its parentheses. -/
theorem variable_of_target (hc : c.Proper) (hpast : c.Past left (leftSide room c).cursor)
    (hequal : (leftSide room c).cursor.peek.kind = .equal)
    (ho : (leftSide room c).outcome = .ok target) {n : Nat} (h : Target left name n) :
    target = .variable name := by
  have hstops : Stops (.operation 0) (leftSide room c).cursor.peek.kind := by
    rw [hequal]
    exact fun r node _ => not_joins_equal
  have henough : Reads (leftSide (max room n)) c (.variable name) (leftSide room c).cursor :=
    (recognizes_leftSide _ c _ _ hc).mpr
      ⟨left, hpast, ⟨n, h.phrase.ofPrimary, Nat.le_max_right _ _⟩, hstops⟩
  rcases lowered_operation (lowered_operandWith (inner_lowered (Nat.le_max_left room n))) c with
    hsame | ⟨t, hstop⟩
  · have houtcome := ((reads_congr hsame).mpr henough).outcome
    exact Except.ok.inj (ho.symm.trans houtcome)
  · rw [hstop] at ho
    cases ho

end

/-! ### Assignments -/

/-- From a cursor on, the parser of an expression has completed what has the form of an
assignment: the left side, of the tokens `left`, an equals sign and a right side. -/
structure AssignmentForm (room : Nat) (c : Cursor) (left : List Token) (equal : Token)
    (target value : Expr) : Prop where
  target : (leftSide room c).outcome = .ok target
  past : c.Past left (leftSide room c).cursor
  ahead : equal = (leftSide room c).cursor.peek
  kind : equal.kind = .equal
  value : ((inner room).expression equal (leftSide room c).cursor.advance).outcome = .ok value

section
variable {room : Nat} {c : Cursor} {left : List Token} {equal : Token} {target value : Expr}

/-- What the parser makes of both sides, where it has them. -/
def assignment (equal : Token) (target value : Expr) : Parser Expr :=
  match target with
  | .variable name => return .assign name value
  | _ => do
    note equal .invalidTarget
    return target

theorem AssignmentForm.reply (h : AssignmentForm room c left equal target value) :
    ∃ d, (expression room c).outcome = (assignment equal target value d).outcome ∧
      (expression room c).noted = (leftSide room c).noted ++
        (((inner room).expression equal (leftSide room c).cursor.advance).noted ++
          (assignment equal target value d).noted) := by
  obtain ⟨htarget, -, rfl, hk, hvalue⟩ := h
  have hright : (inward 1 ((inner room).expression (leftSide room c).cursor.peek)
      (leftSide room c).cursor.advance).outcome = .ok value := hvalue
  unfold expression expressionWith
  rw [bind_ok htarget, peek_bind, if_pos hk, skip_bind, bind_ok hright]
  exact ⟨_, rfl, rfl⟩

theorem AssignmentForm.assigned {name : String}
    (h : AssignmentForm room c left equal (.variable name) value) :
    (expression room c).outcome = .ok (.assign name value) ∧
      (expression room c).noted =
        ((inner room).expression equal (leftSide room c).cursor.advance).noted := by
  obtain ⟨d, houtcome, hnoted⟩ := h.reply
  refine ⟨houtcome, ?_⟩
  rw [hnoted, silent_operation (silent_operand (silent_inner room)) c name h.target]
  exact List.append_nil _

theorem AssignmentForm.dropped (h : AssignmentForm room c left equal target value)
    (hother : ∀ name, target ≠ .variable name) :
    (expression room c).outcome = .ok target ∧
      ⟨.invalidTarget, equal⟩ ∈ (expression room c).noted := by
  obtain ⟨d, houtcome, hnoted⟩ := h.reply
  have hassignment : assignment equal target value =
      note equal .invalidTarget >>= fun _ => pure target := by
    cases target with
    | «variable» name => exact absurd rfl (hother name)
    | _ => rfl
  rw [hassignment] at houtcome hnoted
  rw [hnoted]
  exact ⟨houtcome,
    List.mem_append_right _ (List.mem_append_right _ List.mem_cons_self)⟩

/-- **Only names are assigned to, in parentheses or not.** Wherever the parser of a source
completes what has the form of an assignment, it makes an assignment of it and notes nothing
more if the left side is a name, in any number of parentheses; and if not, it keeps the left
side alone and notes the equals sign. -/
theorem assignment_targets (limit : Int) (source : List Char)
    (hcall : Calls (expression room) c (program limit.toNat) (start (Tokens.scan source)))
    (hform : AssignmentForm room c left equal target value) :
    (∃ name n, Target left name n ∧ (expression room c).outcome = .ok (.assign name value) ∧
      (expression room c).noted =
        ((inner room).expression equal (leftSide room c).cursor.advance).noted) ∨
    (∀ name n, ¬ Target left name n) ∧ (expression room c).outcome = .ok target ∧
      ⟨.invalidTarget, equal⟩ ∈ (parse limit.toNat source).diagnostics := by
  have hc := hcall.proper (start_proper source)
  by_cases hname : ∃ name, target = .variable name
  · obtain ⟨name, rfl⟩ := hname
    obtain ⟨n, htarget⟩ := target_of_variable hc hform.past hform.target
    exact .inl ⟨name, n, htarget, hform.assigned⟩
  · obtain ⟨houtcome, hnoted⟩ := hform.dropped fun name h => hname ⟨name, h⟩
    refine .inr ⟨fun name n h => hname ⟨name, ?_⟩, houtcome, ?_⟩
    · exact variable_of_target hc hform.past (hform.ahead ▸ hform.kind) hform.target h
    · exact List.mem_append_right _ (hcall.noted.subset hnoted)

end

/-- The first expression of a source that begins with one. -/
theorem calls_expression (room : Nat) {c : Cursor} (hc : c.Delimited)
    (h : beginsPhrase c.peek.kind = true) : Calls (expression room) c (program room) c := by
  have hrest := hc.rest_eq fun hk => by
    rw [hk] at h
    cases h
  have hstatement : Calls (expression room) c
      (statementWith (expression room) (body room)) c := by
    refine calls_peek_bind ?_
    split
    case h_7 => exact .first .itself
    all_goals
      simp only [*] at h
      cases h
  have hdeclaration : Calls (expression room) c (declaration room) c := by
    refine .recovering (calls_peek_bind ?_)
    split
    case isTrue hk =>
      rw [hk] at h
      cases h
    case isFalse => exact hstatement
  refine calls_unread_bind ?_
  rw [hrest, sequence]
  refine calls_atEnd_bind (calls_peek_bind ?_)
  rw [Cursor.atEnd, hrest]
  exact .first hdeclaration

theorem assignment_targets_literal :
    Calls (expression 41) (start (Tokens.scan "nil = true;".toList)) (program (41 : Int).toNat)
        (start (Tokens.scan "nil = true;".toList)) ∧
      AssignmentForm 41 (start (Tokens.scan "nil = true;".toList)) [⟨.nilWord, 0, 2, "nil"⟩]
        ⟨.equal, 4, 4, "="⟩ .nil (.boolean true) ∧
      (expression 41 (start (Tokens.scan "nil = true;".toList))).outcome = .ok .nil ∧
      ⟨.invalidTarget, ⟨.equal, 4, 4, "="⟩⟩ ∈
        (parse (41 : Int).toNat "nil = true;".toList).diagnostics := by
  have hcall : Calls (expression 41) (start (Tokens.scan "nil = true;".toList))
      (program (41 : Int).toNat) (start (Tokens.scan "nil = true;".toList)) :=
    calls_expression 41 (start_proper _).toDelimited (by decide +kernel)
  have hform : AssignmentForm 41 (start (Tokens.scan "nil = true;".toList))
      [⟨.nilWord, 0, 2, "nil"⟩] ⟨.equal, 4, 4, "="⟩ .nil (.boolean true) :=
    ⟨rfl, ⟨rfl, rfl⟩, rfl, rfl, rfl⟩
  obtain ⟨name, n, htarget, -⟩ | ⟨-, houtcome, hnoted⟩ :=
    assignment_targets 41 "nil = true;".toList hcall hform
  · cases variable_of_target (start_proper _) hform.past rfl hform.target htarget
  · exact ⟨hcall, hform, houtcome, hnoted⟩

/-- The left side of this assignment is not a name alone, and nothing is noted. -/
theorem group_assigned :
    AssignmentForm 41 (start (Tokens.scan "(a) = nil;".toList))
        [⟨.leftParen, 0, 0, "("⟩, ⟨.identifier, 1, 1, "a"⟩, ⟨.rightParen, 2, 2, ")"⟩]
        ⟨.equal, 4, 4, "="⟩ (.variable "a") .nil ∧
      (parse (41 : Int).toNat "(a) = nil;".toList).statements =
        [.expression (.assign "a" .nil)] ∧
      (parse (41 : Int).toNat "(a) = nil;".toList).diagnostics = [] :=
  ⟨⟨rfl, ⟨rfl, rfl⟩, rfl, rfl, rfl⟩, rfl, by decide +kernel⟩

end Scriptlet
