import Scriptlet.Proofs.Parsing.Exactness
import Scriptlet.Proofs.Running.Room

/-! Which arm of a chain of ifs runs.

An if behind an else is an arm of the same chain. The parser collects the arms in a loop
and nests them, each in the else of the one before, and the nest is executed from the
outside in. `first_true_arm_runs` says what that comes to for the arms in order: the
conditions are evaluated one after the other while they are false, each with the scopes
that the one before has left, and nothing else is executed but one branch. Each arm runs in
less room than the one before; that this makes no difference is from `execute_outlasts`. -/
namespace Scriptlet

/-! ### Chains -/

/-- An arm of a chain of ifs. -/
structure Choice where
  condition : Expr
  branch : Stmt

/-- The tree of arms, with what stands behind the last else, if there is one. -/
def nestedChoices : List Choice → Option Stmt → Option Stmt
  | [], no => no
  | a :: rest, no => some (.branch a.condition a.branch (nestedChoices rest no))

/-- The tokens of an arm. -/
inductive Choice.Spelled : List Token → Choice → Prop
  | arm {word opening cs e k closing ys yes m} : word.kind = .ifWord →
      opening.kind = .leftParen → Phrase .expression cs e k → closing.kind = .rightParen →
      Sentence .statement ys yes m →
      Spelled (word :: opening :: (cs ++ closing :: ys)) ⟨e, yes⟩

/-- The tokens of a chain of ifs, its arms, and what stands behind the last else, if there is
one. No branch in front of an else ends with an if to which that else would belong. -/
inductive ChainOfIfs : List Token → List Choice → Option Stmt → Prop
  | last {ts a} : Choice.Spelled ts a → ChainOfIfs ts [a] none
  | final {ts a other ns no n} : Choice.Spelled ts a → ¬ EndsOpen a.branch →
      other.kind = .elseWord → Sentence .statement ns no n →
      ChainOfIfs (ts ++ other :: ns) [a] (some no)
  | next {ts a other us arms no} : Choice.Spelled ts a → ¬ EndsOpen a.branch →
      other.kind = .elseWord → ChainOfIfs us arms no →
      ChainOfIfs (ts ++ other :: us) (a :: arms) no

theorem Choice.Spelled.alone {ts : List Token} {a : Choice} (h : Choice.Spelled ts a) :
    ∃ n, Sentence .statement ts (.branch a.condition a.branch none) n := by
  obtain ⟨hword, hopening, hcondition, hclosing, hbranch⟩ := h
  exact ⟨_, .ifThen hword hopening hcondition hclosing hbranch⟩

theorem Choice.Spelled.before {ts ns : List Token} {a : Choice} {other : Token} {no : Stmt}
    {n : Nat} (h : Choice.Spelled ts a) (hclosed : ¬ EndsOpen a.branch) (hother : other.kind = .elseWord)
    (hno : Sentence .statement ns no n) :
    ∃ m, Sentence .statement (ts ++ other :: ns) (.branch a.condition a.branch (some no)) m := by
  obtain ⟨hword, hopening, hcondition, hclosing, hbranch⟩ := h
  rw [List.cons_append, List.cons_append, List.append_assoc, List.cons_append]
  exact ⟨_, .ifElse hword hopening hcondition hclosing hbranch hclosed hother hno⟩

/-- A chain of ifs is a statement, whose tree is the tree of the arms. -/
theorem ChainOfIfs.sentence {ts : List Token} {arms : List Choice} {no : Option Stmt}
    (h : ChainOfIfs ts arms no) :
    ∃ s n, nestedChoices arms no = some s ∧ Sentence .statement ts s n := by
  induction h with
  | last harm =>
    obtain ⟨n, hs⟩ := harm.alone
    exact ⟨_, n, rfl, hs⟩
  | final harm hclosed hother hno =>
    obtain ⟨n, hs⟩ := harm.before hclosed hother hno
    exact ⟨_, n, rfl, hs⟩
  | next harm hclosed hother _ ih =>
    obtain ⟨s, n, hnested, hno⟩ := ih
    obtain ⟨m, hs⟩ := harm.before hclosed hother hno
    exact ⟨_, m, by rw [nestedChoices, hnested], hs⟩

/-- A source that is a chain of ifs, and well formed, is parsed as the tree of the arms. -/
theorem ChainOfIfs.parsed {room : Nat} {source : List Char} {arms : List Choice} {no : Option Stmt}
    (h : ChainOfIfs (Tokens.scan source).body arms no)
    (hclean : (parse room source).diagnostics = []) :
    ∃ s, nestedChoices arms no = some s ∧ (parse room source).statements = [s] := by
  obtain ⟨s, n, hnested, hs⟩ := h.sentence
  have hprogram : Program (Tokens.scan source).body [s] (max n 0) :=
    ⟨[⟨_, s, n⟩], List.forall_mem_singleton.mpr (.statement hs), (List.append_nil _).symm, rfl, rfl⟩
  obtain ⟨-, statements, l, hparsed, hl⟩ := (parse_diagnostics_iff room source).mp hclean
  obtain rfl := program_unique hparsed hprogram
  exact ⟨s, hnested, parse_statements hparsed hl⟩

/-! ### Running the arms -/

/-- The conditions of the arms are evaluated in order, and each is false. -/
inductive AllFalse (room : Nat) : List Choice → Machine → Machine → Prop
  | nil {m} : AllFalse room [] m m
  | cons {a arms m n k} : onScopes (evaluate room a.condition) m = (.ok (.boolean false), n) →
      AllFalse room arms n k → AllFalse room (a :: arms) m k

/-- How it ends with the first arm of those that are left, or with what stands behind the last
else if none are left. -/
inductive Settles (room : Nat) (m : Machine) :
    List Choice → Option Stmt → Except RunError Unit × Machine → Prop
  /-- No arm is left, and no else. -/
  | nothing : Settles room m [] none (.ok (), m)
  | final {no} : Settles room m [] (some no) (execute room no m)
  /-- The condition cannot be evaluated. -/
  | fails {a arms no e n} : onScopes (evaluate room a.condition) m = (.error e, n) →
      Settles room m (a :: arms) no (.error e, n)
  /-- The condition is no boolean. -/
  | refuses {a arms no v n} : onScopes (evaluate room a.condition) m = (.ok v, n) →
      (∀ b, v ≠ .boolean b) →
      Settles room m (a :: arms) no (.error (.notBoolean ifContext v.kind), n)
  | chooses {a arms no n} : onScopes (evaluate room a.condition) m = (.ok (.boolean true), n) →
      Settles room m (a :: arms) no (execute room a.branch n)

/-- What a statement does that may be missing. -/
def executeElse (room : Nat) : Option Stmt → Action Machine Unit
  | none => return ()
  | some s => execute room s

theorem execute_branch (room : Nat) (condition : Expr) (yes : Stmt) (no : Option Stmt) :
    execute (room + 1) (.branch condition yes no) =
      (do
        let v ← onScopes (evaluate room condition)
        if ← Action.ofExcept (v.truth ifContext) then execute room yes
        else executeElse room no) := by
  cases no <;> rw [execute] <;> rfl

/-- What arms and an else come to, unless the stack is too small for them. Each arm has a frame
less than the one before, and all of them are told with the room of the first. -/
theorem choices_settled {room more : Nat} (hmore : room ≤ more) (arms : List Choice)
    (no : Option Stmt) (m : Machine)
    (h : (executeElse room (nestedChoices arms no) m).1 ≠ .error .stackOverflow) :
    ∃ passed rest k, arms = passed ++ rest ∧ AllFalse more passed m k ∧
      Settles more k rest no (executeElse room (nestedChoices arms no) m) := by
  induction arms generalizing room m with
  | nil =>
    refine ⟨[], [], m, rfl, .nil, ?_⟩
    cases no with
    | none => exact .nothing
    | some s =>
      have hrun : execute room s m = execute more s m :=
        (execute_outlasts hmore s m h).symm
      show Settles more m [] (some s) (execute room s m)
      rw [hrun]
      exact .final
  | cons a arms ih =>
    obtain _ | room := room
    · exact absurd rfl h
    -- What the condition comes to in the room that is left, it comes to in all of the room.
    have hroom : room ≤ more := Nat.le_of_succ_le hmore
    have hnested : executeElse (room + 1) (nestedChoices (a :: arms) no) =
      execute (room + 1) (.branch a.condition a.branch (nestedChoices arms no)) := rfl
    rw [hnested, execute_branch] at h ⊢
    have hvalue := value_outlasts hroom a.condition m
    rcases hv : onScopes (evaluate room a.condition) m with ⟨e | v, n⟩
    · rw [Action.bind_error hv] at h ⊢
      rw [hv] at hvalue
      exact ⟨[], a :: arms, m, rfl, .nil, .fails (hvalue (by simpa using h))⟩
    · rw [Action.bind_ok hv] at h ⊢
      rw [hv] at hvalue
      have hvalue := hvalue nofun
      cases v with
      | boolean b =>
        cases b with
        | true =>
          have hrun : execute room a.branch n = execute more a.branch n :=
            (execute_outlasts hroom a.branch n h).symm
          refine ⟨[], a :: arms, m, rfl, .nil, ?_⟩
          show Settles more m (a :: arms) no (execute room a.branch n)
          rw [hrun]
          exact .chooses hvalue
        | false =>
          obtain ⟨passed, rest, k, rfl, hpassed, hsettles⟩ := ih hroom n h
          exact ⟨a :: passed, rest, k, rfl, .cons hvalue hpassed, hsettles⟩
      | _ => exact ⟨[], a :: arms, m, rfl, .nil, .refuses hvalue nofun⟩

/-- **The first true arm runs.** A chain of ifs that is well formed, with or without a last else,
is one statement. Unless the stack is too small, executing it evaluates the conditions in order
as long as they are false. It ends with an error at the first condition that cannot be evaluated
or is no boolean; it executes the branch of the first that is true; if all are false, it executes
what stands behind the last else, if there is one. No more is evaluated or executed than that. -/
theorem first_true_arm_runs (limit : Int) {source : List Char} {arms : List Choice}
    {no : Option Stmt} (hchain : ChainOfIfs (Tokens.scan source).body arms no)
    (hclean : (parse limit.toNat source).diagnostics = []) :
    ∃ s, (parse limit.toNat source).statements = [s] ∧
      ∀ (room : Nat) (m : Machine), (execute room s m).1 ≠ .error .stackOverflow →
        ∃ passed rest k, arms = passed ++ rest ∧ AllFalse room passed m k ∧
          Settles room k rest no (execute room s m) := by
  obtain ⟨s, hnested, hparsed⟩ := hchain.parsed hclean
  refine ⟨s, hparsed, fun room m h => ?_⟩
  have := choices_settled (Nat.le_refl room) arms no m (by rw [hnested]; exact h)
  rwa [hnested] at this

/-- Two arms and an else. -/
def twoArms : List Char :=
  "if (x = false) print nil; else if (x) print true; else print x;".toList

/-- The first condition is an assignment, and it is why the second is false. -/
theorem first_true_arm_runs_else :
    ChainOfIfs (Tokens.scan twoArms).body
      [⟨.assign "x" (.boolean false), .print .nil⟩, ⟨.variable "x", .print (.boolean true)⟩]
      (some (.print (.variable "x"))) ∧
    (parse (41 : Int).toNat twoArms).diagnostics = [] ∧
    ∃ s, (parse (41 : Int).toNat twoArms).statements = [s] ∧
      execute stackLimit s ⟨⟨[("x", some .nil)], []⟩, ""⟩ =
        (.ok (), ⟨⟨[("x", some (.boolean false))], []⟩, "false\n"⟩) ∧
      ∃ passed rest k, [⟨.assign "x" (.boolean false), .print .nil⟩,
          ⟨.variable "x", .print (.boolean true)⟩] = passed ++ rest ∧
        AllFalse stackLimit passed ⟨⟨[("x", some .nil)], []⟩, ""⟩ k ∧
        Settles stackLimit k rest (some (.print (.variable "x")))
          (execute stackLimit s ⟨⟨[("x", some .nil)], []⟩, ""⟩) := by
  have hbody : (Tokens.scan twoArms).body =
      (⟨.ifWord, 0, 1, "if"⟩ :: ⟨.leftParen, 3, 3, "("⟩ ::
        (([⟨.identifier, 4, 4, "x"⟩] ++ ⟨.equal, 6, 6, "="⟩ :: [⟨.falseWord, 8, 12, "false"⟩]) ++
          ⟨.rightParen, 13, 13, ")"⟩ :: (⟨.printWord, 15, 19, "print"⟩ ::
            ([⟨.nilWord, 21, 23, "nil"⟩] ++ [⟨.semicolon, 24, 24, ";"⟩])))) ++
      ⟨.elseWord, 26, 29, "else"⟩ ::
      ((⟨.ifWord, 31, 32, "if"⟩ :: ⟨.leftParen, 34, 34, "("⟩ ::
        ([⟨.identifier, 35, 35, "x"⟩] ++
          ⟨.rightParen, 36, 36, ")"⟩ :: (⟨.printWord, 38, 42, "print"⟩ ::
            ([⟨.trueWord, 44, 47, "true"⟩] ++ [⟨.semicolon, 48, 48, ";"⟩])))) ++
      ⟨.elseWord, 50, 53, "else"⟩ :: (⟨.printWord, 55, 59, "print"⟩ ::
        ([⟨.identifier, 61, 61, "x"⟩] ++ [⟨.semicolon, 62, 62, ";"⟩]))) := by
    decide +kernel
  have hliteral {t : Token} {e : Expr} (h : Literal t e) : Phrase .expression [t] e 0 :=
    .operation (.ofPrimary (.literal h))
  have hchain : ChainOfIfs (Tokens.scan twoArms).body
      [⟨.assign "x" (.boolean false), .print .nil⟩, ⟨.variable "x", .print (.boolean true)⟩]
      (some (.print (.variable "x"))) := by
    rw [hbody]
    refine .next (.arm rfl rfl (.assign (.name rfl) rfl (hliteral (.no rfl))) rfl
      (.print rfl (hliteral (.nil rfl)) rfl)) nofun rfl ?_
    exact .final (.arm rfl rfl (hliteral (.name rfl)) rfl (.print rfl (hliteral (.yes rfl)) rfl))
      nofun rfl (.print rfl (hliteral (.name rfl)) rfl)
  have hclean : (parse (41 : Int).toNat twoArms).diagnostics = [] := by decide +kernel
  obtain ⟨s, hparsed, hruns⟩ := first_true_arm_runs 41 hchain hclean
  obtain ⟨t, hnested, hsame⟩ := hchain.parsed hclean
  obtain rfl : t = s := List.singleton_inj.mp (hsame.symm.trans hparsed)
  cases hnested
  have hrun : execute stackLimit (.branch (.assign "x" (.boolean false)) (.print .nil)
      (some (.branch (.variable "x") (.print (.boolean true)) (some (.print (.variable "x"))))))
      ⟨⟨[("x", some .nil)], []⟩, ""⟩ =
        (.ok (), ⟨⟨[("x", some (.boolean false))], []⟩, "false\n"⟩) := rfl
  exact ⟨hchain, hclean, _, hparsed, hrun,
    hruns stackLimit _ (ne_of_eq_of_ne (congrArg Prod.fst hrun) nofun)⟩

end Scriptlet
