import Scriptlet.Proofs.Nesting.Counting
import Scriptlet.Proofs.Parsing.Frames

/-! A parser that counts mirrors one that is given room.

At every depth the two do the same, where the stack has the frames for it, and else
the first stops with an overflow (`Mirrors`). However it stops, the depth is then
what it was before, and it was never above the limit on the way. There is one law for
each way of building parsers; entering a level is the one that matters. -/
namespace Scriptlet

open Scriptlet.Parser

namespace Counting

/-! ### Laws -/

section
variable {α β : Type} {p : Counting α} {frames : Nat} {s : Progress}

theorem bind_ok {a : α} (h : (p frames s).1 = .ok a) (f : α → Counting β) :
    (p >>= f) frames s = f a frames (p frames s).2 := by
  show Counting.bind p f frames s = _
  unfold Counting.bind
  split <;> simp_all

theorem bind_error {e : Stop} (h : (p frames s).1 = .error e) (f : α → Counting β) :
    (p >>= f) frames s = (.error e, (p frames s).2) := by
  show Counting.bind p f frames s = _
  unfold Counting.bind
  split <;> simp_all

end

/-- The diagnostics that stopped a declaration. -/
def raised (ds : List Diagnostic) : List Diagnostic :=
  ds.filter fun d => d.fault != .invalidTarget

/-- Between `s` and `t` every level that was entered was left, and none lay above the limit; and
the declarations that ended were stopped by the diagnostics that were noted, each by its own. -/
structure Keeps (limit : Int) (s t : Progress) : Prop where
  depth : t.depth = s.depth
  rises : s.deepest ≤ t.deepest
  bounded : t.deepest ≤ max s.deepest limit.toNat
  recorded : ∃ noted ended, t.noted = s.noted ++ noted ∧ t.ended = s.ended ++ ended ∧
    raised noted = ended.filterMap id

theorem Keeps.of_eq (limit : Int) {s t : Progress} {noted : List Diagnostic}
    (hdepth : t.depth = s.depth) (hdeepest : t.deepest = s.deepest)
    (hnoted : t.noted = s.noted ++ noted) (hended : t.ended = s.ended) (hraised : raised noted = []) :
    Keeps limit s t :=
  ⟨hdepth, Nat.le_of_eq hdeepest.symm, Nat.le_trans (Nat.le_of_eq hdeepest) (Nat.le_max_left _ _),
    noted, [], hnoted, by rw [hended, List.append_nil], hraised⟩

theorem Keeps.refl (limit : Int) (s : Progress) : Keeps limit s s :=
  .of_eq limit rfl rfl (List.append_nil _).symm rfl rfl

theorem Keeps.trans {limit : Int} {s t u : Progress} (h : Keeps limit s t) (h' : Keeps limit t u) :
    Keeps limit s u := by
  obtain ⟨noted, ended, hnoted, hended, hraised⟩ := h.recorded
  obtain ⟨noted', ended', hnoted', hended', hraised'⟩ := h'.recorded
  refine ⟨h'.depth.trans h.depth, Nat.le_trans h.rises h'.rises,
    Nat.le_trans h'.bounded (Nat.max_le.mpr ⟨h.bounded, Nat.le_max_right _ _⟩),
    noted ++ noted', ended ++ ended', ?_, ?_, ?_⟩
  · rw [hnoted', hnoted, List.append_assoc]
  · rw [hended', hended, List.append_assoc]
  · rw [raised, List.filter_append, List.filterMap_append, ← hraised, ← hraised']
    rfl

/-- What a parser that counts came to, from `s` on, is what the reply says. -/
structure Follows {α : Type} (limit : Int) (frames : Nat) (reply : Reply α) (s : Progress)
    (result : Except Stop α × Progress) : Prop where
  keeps : Keeps limit s result.2
  stops : ∀ d, result.1 = .error (.fault d) → d.fault ≠ .invalidTarget
  within : reply.frames ≤ frames → result.1 = reply.outcome.mapError .fault ∧
    result.2.cursor = reply.cursor ∧ result.2.noted = s.noted ++ reply.noted
  beyond : frames < reply.frames → result.1 = .error .overflow

/-- The stack has no room. -/
theorem Follows.overflow {α : Type} {limit : Int} {frames : Nat} {reply : Reply α} {s t : Progress}
    (h : Keeps limit s t) (hframes : frames < reply.frames) :
    Follows limit frames reply s (.error .overflow, t) :=
  ⟨h, fun _ hd => (by cases hd), fun hle => absurd hframes (Nat.not_lt.mpr hle), fun _ => rfl⟩

/-- At this depth the second parser does the same as the first. -/
def Mirrors {α : Type} (limit : Int) (depth : Nat) (p : Parser α) (q : Counting α) : Prop :=
  ∀ frames s, s.depth = depth → Follows limit frames (p s.cursor) s (q frames s)

section
variable {α β : Type} {limit : Int} {depth : Nat}

/-- A parser that enters no level and ends no declaration. -/
structure Plain (p : Parser α) : Prop where
  needs : Needs p 0
  notes : ∀ c, raised (p c).noted = []
  stops : ∀ c d, (p c).outcome = .error d → d.fault ≠ .invalidTarget

theorem plain_pure (a : α) : Plain (pure a : Parser α) :=
  ⟨needs_pure a, fun _ => rfl, fun _ _ h => by cases h⟩

theorem plain_refuse (t : Token) {fault : Fault} (h : fault ≠ .invalidTarget) :
    Plain (refuse t fault : Parser α) :=
  ⟨needs_refuse t fault, fun _ => rfl, fun _ _ hd => by cases hd; exact h⟩

theorem plain_refusal (t : Token) : Plain (refuse t .tooMuchNesting : Parser α) :=
  plain_refuse t nofun

theorem plain_refuseBlock (t : Token) : Plain (refuseBlock t : Parser α) :=
  ⟨fun _ => Nat.zero_le 0, fun _ => rfl, fun c => (plain_refusal t).stops (c.skipBlock 1)⟩

theorem plain_target (t : Token) : Plain (note t .invalidTarget) :=
  ⟨needs_note t _, fun _ => rfl, fun _ _ h => by cases h⟩

theorem plain_peek : Plain peek :=
  ⟨needs_peek, fun _ => rfl, fun _ _ h => by cases h⟩

theorem plain_unread : Plain unread :=
  ⟨needs_unread, fun _ => rfl, fun _ _ h => by cases h⟩

theorem plain_atEnd : Plain atEnd :=
  ⟨needs_atEnd, fun _ => rfl, fun _ _ h => by cases h⟩

theorem plain_skip : Plain skip :=
  ⟨needs_skip, fun _ => rfl, fun _ _ h => by cases h⟩

theorem plain_bind {p : Parser α} {f : α → Parser β} (hp : Plain p) (hf : ∀ a, Plain (f a)) :
    Plain (p >>= f) := by
  refine ⟨needs_bind hp.needs fun a => (hf a).needs, fun c => ?_, fun c d hd => ?_⟩
  · cases ho : (p c).outcome with
    | error e =>
      rw [Parser.bind_error ho]
      exact hp.notes c
    | ok a =>
      have hfirst := hp.notes c
      have hsecond := (hf a).notes (p c).cursor
      rw [raised] at hfirst hsecond
      rw [Parser.bind_ok ho, raised, List.filter_append, hfirst, hsecond, List.append_nil]
  · cases ho : (p c).outcome with
    | error e =>
      rw [Parser.bind_error ho] at hd
      obtain rfl := Except.error.inj hd
      exact hp.stops c e ho
    | ok a =>
      rw [Parser.bind_ok ho] at hd
      exact (hf a).stops _ d hd

theorem plain_expect (kind : Kind) {fault : Fault} (h : fault ≠ .invalidTarget) :
    Plain (expect kind fault) := by
  refine plain_bind plain_peek fun t => ?_
  split
  · exact plain_bind plain_skip fun _ => plain_pure t
  · exact plain_refuse t h

theorem plain_semicolon (after : Construct) : Plain (semicolon after) :=
  plain_bind (plain_expect _ nofun) fun _ => plain_pure ()

theorem mirrors_flat {p : Parser α} (h : Plain p) : Mirrors limit depth p (flat p) := by
  intro frames s _
  refine ⟨.of_eq limit rfl rfl rfl rfl (h.notes s.cursor), fun d hd => ?_,
    fun _ => ⟨rfl, rfl, rfl⟩, fun hlt => ?_⟩
  · change (p s.cursor).outcome.mapError Stop.fault = .error (.fault d) at hd
    cases ho : (p s.cursor).outcome with
    | ok a =>
      rw [ho] at hd
      cases hd
    | error e =>
      rw [ho] at hd
      cases hd
      exact h.stops _ d ho
  · have := h.needs s.cursor
    omega

theorem mirrors_pure (a : α) : Mirrors limit depth (pure a) (pure a) :=
  fun _ s _ => ⟨.refl limit s, fun _ h => (by cases h),
    fun _ => ⟨rfl, rfl, (List.append_nil _).symm⟩, fun h => absurd h (Nat.not_lt_zero _)⟩

theorem mirrors_bind {p : Parser α} {q : Counting α} {f : α → Parser β} {g : α → Counting β}
    (hp : Mirrors limit depth p q) (hf : ∀ a, Mirrors limit depth (f a) (g a)) :
    Mirrors limit depth (p >>= f) (q >>= g) := by
  intro frames s hs
  have first := hp frames s hs
  rcases Nat.lt_or_ge frames (p s.cursor).frames with hbeyond | hwithin
  · -- There are too few frames for the first part already.
    have hle : (p s.cursor).frames ≤ ((p >>= f) s.cursor).frames := by
      cases ho : (p s.cursor).outcome with
      | error d => exact Nat.le_of_eq (by rw [Parser.bind_error ho])
      | ok a => exact Nat.le_trans (Nat.le_max_left _ _) (Nat.le_of_eq (by rw [Parser.bind_ok ho]))
    rw [bind_error (first.beyond hbeyond)]
    exact .overflow first.keeps (Nat.lt_of_lt_of_le hbeyond hle)
  · obtain ⟨houtcome, hcursor, hnoted⟩ := first.within hwithin
    cases ho : (p s.cursor).outcome with
    | error d =>
      rw [ho] at houtcome
      rw [Parser.bind_error ho, bind_error houtcome]
      refine ⟨first.keeps, fun e he => first.stops e ?_, fun _ => ⟨rfl, hcursor, hnoted⟩,
        fun h => absurd hwithin (Nat.not_le.mpr h)⟩
      cases he
      exact houtcome
    | ok a =>
      rw [ho] at houtcome
      have second := hf a frames (q frames s).2 (first.keeps.depth.trans hs)
      rw [hcursor] at second
      rw [Parser.bind_ok ho, bind_ok houtcome]
      refine ⟨first.keeps.trans second.keeps, second.stops, fun h => ?_,
        fun h => second.beyond ?_⟩
      · obtain ⟨houtcome', hcursor', hnoted'⟩ := second.within ((Nat.max_le.mp h).2)
        exact ⟨houtcome', hcursor', by rw [hnoted', hnoted, List.append_assoc]⟩
      · exact Nat.lt_of_not_le fun hle => Nat.not_le.mpr h (Nat.max_le.mpr ⟨hwithin, hle⟩)

theorem mirrors_seq {p : Parser α} {f : α → Parser β} {g : α → Counting β} (h : Plain p)
    (hf : ∀ a, Mirrors limit depth (f a) (g a)) : Mirrors limit depth (p >>= f) (flat p >>= g) :=
  mirrors_bind (mirrors_flat h) hf

/-- At the limit no level is entered. -/
theorem mirrors_nested_refused {refusal : Parser α} (cost : Nat) (h : limit.toNat ≤ depth)
    (hplain : Plain refusal) (q : Counting α) :
    Mirrors limit depth (inward cost refusal) (nested limit cost refusal q) := by
  intro frames s hs
  have hcost : (inward cost refusal s.cursor).frames = cost := by
    have := hplain.needs s.cursor
    show (refusal s.cursor).frames + cost = cost
    omega
  rcases Nat.lt_or_ge frames cost with hlt | hge
  · simp only [nested, if_pos hlt]
    exact .overflow (.refl limit s) (Nat.lt_of_lt_of_eq hlt hcost.symm)
  · have hlimit : limit ≤ s.depth := by omega
    have refused : Follows limit (frames - cost) (refusal s.cursor) s (flat refusal _ s) :=
      mirrors_flat hplain (frames - cost) s hs
    simp only [nested, if_neg (Nat.not_lt.mpr hge), if_pos hlimit]
    exact ⟨refused.keeps, refused.stops, fun _ => ⟨rfl, rfl, rfl⟩, fun hlt => by omega⟩

/-- Below the limit a level is entered, and it is left again whatever comes of the work in it. -/
theorem mirrors_nested {p : Parser α} {q : Counting α} (cost : Nat) (h : depth < limit.toNat)
    (hq : Mirrors limit (depth + 1) p q) (refusal : Parser α) :
    Mirrors limit depth (inward cost p) (nested limit cost refusal q) := by
  intro frames s hs
  have hcost : (inward cost p s.cursor).frames = (p s.cursor).frames + cost := rfl
  rcases Nat.lt_or_ge frames cost with hlt | hge
  · simp only [nested, if_pos hlt]
    exact .overflow (.refl limit s) (by omega)
  · have hlimit : ¬limit ≤ s.depth := by omega
    simp only [nested, if_neg (Nat.not_lt.mpr hge), if_neg hlimit]
    have work := hq (frames - cost)
      { s with depth := s.depth + 1, deepest := max s.deepest (s.depth + 1) }
      (congrArg (· + 1) hs)
    have hentered : max s.deepest (s.depth + 1) ≤ max s.deepest limit.toNat :=
      Nat.max_le.mpr ⟨Nat.le_max_left _ _, Nat.le_trans (by omega) (Nat.le_max_right _ _)⟩
    refine ⟨⟨?_, Nat.le_trans (Nat.le_max_left _ _) work.keeps.rises,
      Nat.le_trans work.keeps.bounded (Nat.max_le.mpr ⟨hentered, Nat.le_max_right _ _⟩),
      work.keeps.recorded⟩, work.stops, fun hle => work.within (Nat.le_sub_of_add_le hle),
      fun hlt => work.beyond (Nat.sub_lt_right_of_lt_add hge hlt)⟩
    show (q _ _).2.depth - 1 = s.depth
    rw [work.keeps.depth, Nat.add_sub_cancel]

/-- Entering a level, the second parser does the same as the first at the depth outside. -/
def Opens {α : Type} (limit : Int) (depth : Nat) (p refusal : Token → Parser α)
    (q : Counting α) : Prop :=
  ∀ cost t, Mirrors limit depth (inward cost (p t)) (nested limit cost (refusal t) q)

/-! ### Expressions -/

section
variable {operand : Parser Expr} {operand' : Counting Expr}

theorem mirrors_chain (h : Mirrors limit depth operand operand') (layer : Layer)
    (bound : List Token) (left : Expr) :
    Mirrors limit depth (Scriptlet.chain layer operand bound left)
      (chain layer operand' bound left) := by
  induction bound generalizing left with
  | nil => exact mirrors_pure left
  | cons _ bound ih =>
    refine mirrors_seq plain_peek fun t => ?_
    cases layer t.kind with
    | none => exact mirrors_pure left
    | some node => exact mirrors_seq plain_skip fun _ => mirrors_bind h fun right => ih _

theorem mirrors_operation (h : Mirrors limit depth operand operand') :
    Mirrors limit depth (Scriptlet.operation operand) (operation operand') := by
  unfold Scriptlet.operation operation
  induction layers with
  | nil => exact h
  | cons layer layers ih =>
    exact mirrors_bind ih fun first => mirrors_seq plain_unread fun bound =>
      mirrors_chain ih layer bound first

end

section
variable {inner : Scriptlet.Inner} {inner' : Inner}

theorem mirrors_primary
    (h : Opens limit depth inner.expression (fun t => refuse t .tooMuchNesting) inner'.expression) :
    Mirrors limit depth (Scriptlet.primary inner) (primary limit inner') := by
  refine mirrors_seq plain_peek fun t => ?_
  cases t.kind
  case trueWord | falseWord | nilWord | string | identifier =>
    exact mirrors_seq plain_skip fun _ => mirrors_pure _
  case number =>
    refine mirrors_seq plain_skip fun _ => ?_
    cases Decimal.read? t.text with
    | some x => exact mirrors_pure _
    | none => exact mirrors_flat (plain_refuse t nofun)
  case leftParen =>
    exact mirrors_seq plain_skip fun _ => mirrors_bind (h 16 t) fun e =>
      mirrors_seq (plain_expect _ nofun) fun _ => mirrors_pure e
  all_goals exact mirrors_flat (plain_refuse t nofun)

theorem mirrors_operand
    (h : Opens limit depth inner.expression (fun t => refuse t .tooMuchNesting) inner'.expression)
    (ho : Opens limit depth inner.operand (fun t => refuse t .tooMuchNesting) inner'.operand) :
    Mirrors limit depth (Scriptlet.operandWith inner) (operandWith limit inner') := by
  refine mirrors_seq plain_peek fun t => ?_
  cases unaryOp? t.kind with
  | some op => exact mirrors_seq plain_skip fun _ => mirrors_bind (ho 1 t) fun e => mirrors_pure _
  | none => exact mirrors_primary h

theorem mirrors_expressionWith
    (h : Opens limit depth inner.expression (fun t => refuse t .tooMuchNesting) inner'.expression)
    (ho : Opens limit depth inner.operand (fun t => refuse t .tooMuchNesting) inner'.operand) :
    Mirrors limit depth (Scriptlet.expressionWith inner) (expressionWith limit inner') := by
  refine mirrors_bind (mirrors_operation (mirrors_operand h ho)) fun target =>
    mirrors_seq plain_peek fun t => ?_
  by_cases ht : t.kind = .equal
  · simp only [if_pos ht]
    refine mirrors_seq plain_skip fun _ => mirrors_bind (h 1 t) fun value => ?_
    cases target with
    | «variable» name => exact mirrors_pure _
    | _ => exact mirrors_seq (plain_target t) fun _ => mirrors_pure _
  · simp only [if_neg ht]
    exact mirrors_pure target

end

theorem opens_inner (limit : Int) (depth : Nat) :
    Opens limit depth (Scriptlet.inner (limit.toNat - depth)).expression
        (fun t => refuse t .tooMuchNesting) (inner limit (limit.toNat - depth)).expression ∧
      Opens limit depth (Scriptlet.inner (limit.toNat - depth)).operand
        (fun t => refuse t .tooMuchNesting) (inner limit (limit.toNat - depth)).operand := by
  generalize hroom : limit.toNat - depth = room
  induction room generalizing depth with
  | zero =>
    exact ⟨fun cost t => mirrors_nested_refused cost (by omega) (plain_refusal t) _,
      fun cost t => mirrors_nested_refused cost (by omega) (plain_refusal t) _⟩
  | succ room ih =>
    obtain ⟨h, ho⟩ := ih (depth + 1) (by omega)
    exact ⟨fun cost t => mirrors_nested cost (by omega) (mirrors_expressionWith h ho) _,
      fun cost t => mirrors_nested cost (by omega) (mirrors_operand h ho) _⟩

theorem mirrors_expression (limit : Int) (depth : Nat) :
    Mirrors limit depth (Scriptlet.expression (limit.toNat - depth))
      (expression limit (limit.toNat - depth)) :=
  mirrors_expressionWith (opens_inner limit depth).1 (opens_inner limit depth).2

/-! ### Statements -/

section
variable {expr : Parser Expr} {expr' : Counting Expr}
  {body : Scriptlet.Body} {body' : Body}

theorem mirrors_ifChain (he : Mirrors limit depth expr expr')
    (hb : Opens limit depth body.branch (fun t => refuse t .tooMuchNesting) body'.branch)
    (bound : List Token) :
    Mirrors limit depth (Scriptlet.ifChain expr body bound) (ifChain limit expr' body' bound) := by
  induction bound with
  | nil => exact mirrors_flat (plain_bind plain_peek fun t => plain_refuse t nofun)
  | cons _ bound ih =>
    refine mirrors_seq (plain_expect _ nofun) fun _ => mirrors_bind he fun e =>
      mirrors_seq (plain_expect _ nofun) fun close => mirrors_bind (hb 2 close) fun yes =>
        mirrors_seq plain_peek fun t => ?_
    split
    · refine mirrors_seq plain_skip fun _ => mirrors_seq plain_peek fun next => ?_
      split
      · exact mirrors_seq plain_skip fun _ => mirrors_bind ih fun no => mirrors_pure _
      · exact mirrors_bind (hb 2 t) fun no => mirrors_pure _
    · exact mirrors_pure _

theorem mirrors_statement (he : Mirrors limit depth expr expr')
    (hb : Opens limit depth body.branch (fun t => refuse t .tooMuchNesting) body'.branch)
    (hblock : Opens limit depth body.block refuseBlock body'.block) :
    Mirrors limit depth (Scriptlet.statementWith expr body) (statementWith limit expr' body') := by
  refine mirrors_seq plain_peek fun t => ?_
  cases t.kind
  case forWord | funWord | returnWord => exact mirrors_flat (plain_refuse t nofun)
  case leftBrace =>
    exact mirrors_seq plain_skip fun _ => mirrors_bind (hblock 3 t) fun statements =>
      mirrors_seq (plain_expect _ nofun) fun _ => mirrors_pure _
  case printWord =>
    exact mirrors_seq plain_skip fun _ => mirrors_bind he fun e =>
      mirrors_seq (plain_semicolon _) fun _ => mirrors_pure _
  case ifWord =>
    exact mirrors_seq plain_skip fun _ => mirrors_seq plain_unread fun bound =>
      mirrors_ifChain he hb bound
  all_goals
    exact mirrors_bind he fun e => mirrors_seq (plain_semicolon _) fun _ => mirrors_pure _

theorem mirrors_variable (he : Mirrors limit depth expr expr') :
    Mirrors limit depth (Scriptlet.variableWith expr) (variableWith expr') := by
  refine mirrors_seq (plain_expect _ nofun) fun name => mirrors_seq plain_peek fun next => ?_
  split
  · exact mirrors_seq plain_skip fun _ => mirrors_bind he fun e =>
      mirrors_seq (plain_semicolon _) fun _ => mirrors_pure _
  · exact mirrors_seq (plain_semicolon _) fun _ => mirrors_pure _

theorem mirrors_declarationWith (he : Mirrors limit depth expr expr')
    (hb : Opens limit depth body.branch (fun t => refuse t .tooMuchNesting) body'.branch)
    (hblock : Opens limit depth body.block refuseBlock body'.block) :
    Mirrors limit depth (Scriptlet.declarationWith expr body)
      (declarationWith limit expr' body') := by
  refine mirrors_seq plain_peek fun t => ?_
  split
  · exact mirrors_seq plain_skip fun _ => mirrors_variable he
  · exact mirrors_statement he hb hblock

end

/-! ### Sequences -/

theorem recovering_ok {q : Counting Stmt} {frames : Nat} {s : Progress} {stmt : Stmt}
    (h : (q frames s).1 = .ok stmt) :
    recovering q frames s =
      (.ok (some stmt), { (q frames s).2 with ended := (q frames s).2.ended ++ [none] }) := by
  unfold recovering
  split <;> simp_all

theorem recovering_fault {q : Counting Stmt} {frames : Nat} {s : Progress} {d : Diagnostic}
    (h : (q frames s).1 = .error (.fault d)) :
    recovering q frames s =
      (.ok none, { (q frames s).2 with
        cursor := (if (q frames s).2.cursor.rest.length = s.cursor.rest.length then
          (q frames s).2.cursor.advance else (q frames s).2.cursor).resume
            (decide (0 < (q frames s).2.depth))
        noted := (q frames s).2.noted ++ [d]
        ended := (q frames s).2.ended ++ [some d] }) := by
  unfold recovering
  split <;> simp_all

theorem recovering_overflow {q : Counting Stmt} {frames : Nat} {s : Progress}
    (h : (q frames s).1 = .error .overflow) :
    recovering q frames s = (.error .overflow, (q frames s).2) := by
  unfold recovering
  split <;> simp_all

/-- A declaration ends, and notes what stopped it. -/
theorem Keeps.ends {s t : Progress} (h : Keeps limit s t) (stop : Option Diagnostic)
    (hstop : ∀ d ∈ stop, d.fault ≠ .invalidTarget) (c : Cursor) :
    Keeps limit s { t with
      cursor := c, noted := t.noted ++ stop.toList, ended := t.ended ++ [stop] } := by
  obtain ⟨noted, ended, hnoted, hended, hraised⟩ := h.recorded
  refine ⟨h.depth, h.rises, h.bounded, noted ++ stop.toList, ended ++ [stop], ?_, ?_, ?_⟩
  · rw [hnoted, List.append_assoc]
  · rw [hended, List.append_assoc]
  · rw [raised] at hraised
    rw [raised, List.filter_append, hraised, List.filterMap_append]
    cases stop with
    | none => rfl
    | some d =>
      have hfault : (d.fault != .invalidTarget) = true := bne_iff_ne.mpr (hstop d rfl)
      simp only [Option.toList, List.filter_cons, hfault, if_true, List.filter_nil]
      rfl

/-- Recovering is in the way of a block wherever a level has been entered. -/
theorem mirrors_recovering {p : Parser Stmt} {q : Counting Stmt} (h : Mirrors limit depth p q) :
    Mirrors limit depth (Scriptlet.recovering (decide (0 < depth)) p) (recovering q) := by
  intro frames s hs
  have one := h frames s hs
  have hframes :
      (Scriptlet.recovering (decide (0 < depth)) p s.cursor).frames = (p s.cursor).frames := by
    simp only [Scriptlet.recovering]
    split <;> rfl
  rcases Nat.lt_or_ge frames (p s.cursor).frames with hbeyond | hwithin
  · rw [recovering_overflow (one.beyond hbeyond)]
    exact .overflow one.keeps (hframes ▸ hbeyond)
  · have hnever : frames < (Scriptlet.recovering (decide (0 < depth)) p s.cursor).frames → False :=
      fun hlt => Nat.not_lt.mpr hwithin (hframes ▸ hlt)
    obtain ⟨houtcome, hcursor, hnoted⟩ := one.within hwithin
    cases ho : (p s.cursor).outcome with
    | ok stmt =>
      rw [ho] at houtcome
      have hended := one.keeps.ends none (fun d hd => by cases hd) (q frames s).2.cursor
      rw [Option.toList, List.append_nil] at hended
      rw [recovering_of_ok ho, recovering_ok houtcome]
      exact ⟨hended, fun d hd => (by cases hd), fun _ => ⟨rfl, hcursor, hnoted⟩,
        fun hlt => (hnever (by rwa [recovering_of_ok ho])).elim⟩
    | error d =>
      rw [ho] at houtcome
      have hstop : ∀ e ∈ some d, e.fault ≠ .invalidTarget := fun e he =>
        one.stops e (by rw [houtcome, Option.mem_some_iff.mp he]; rfl)
      rw [recovering_of_error ho, recovering_fault houtcome, hcursor, one.keeps.depth, hs]
      refine ⟨one.keeps.ends (some d) hstop _, fun e he => (by cases he),
        fun _ => ⟨rfl, rfl, ?_⟩, fun hlt => (hnever (by rwa [recovering_of_error ho])).elim⟩
      show (q frames s).2.noted ++ [d] = _
      rw [hnoted, List.append_assoc]

theorem mirrors_sequence {one : Parser (Option Stmt)} {one' : Counting (Option Stmt)}
    (h : Mirrors limit depth one one') (inBlock : Bool) (bound : List Token) :
    Mirrors limit depth (Scriptlet.sequence inBlock one bound) (sequence inBlock one' bound) := by
  induction bound with
  | nil => exact mirrors_pure _
  | cons _ bound ih =>
    refine mirrors_seq plain_atEnd fun _ => mirrors_seq plain_peek fun t => ?_
    split
    · exact mirrors_pure _
    · exact mirrors_bind h fun first => mirrors_bind ih fun more => mirrors_pure _

theorem opens_body (limit : Int) (depth : Nat) :
    Opens limit depth (Scriptlet.body (limit.toNat - depth)).branch
        (fun t => refuse t .tooMuchNesting) (body limit (limit.toNat - depth)).branch ∧
      Opens limit depth (Scriptlet.body (limit.toNat - depth)).block refuseBlock
        (body limit (limit.toNat - depth)).block := by
  generalize hroom : limit.toNat - depth = room
  induction room generalizing depth with
  | zero =>
    exact ⟨fun cost t => mirrors_nested_refused cost (by omega) (plain_refusal t) _,
      fun cost t => mirrors_nested_refused cost (by omega) (plain_refuseBlock t) _⟩
  | succ room ih =>
    obtain ⟨hb, hblock⟩ := ih (depth + 1) (by omega)
    have hinside : limit.toNat - (depth + 1) = room := by omega
    have he := mirrors_expression limit (depth + 1)
    rw [hinside] at he
    refine ⟨fun cost t => mirrors_nested cost (by omega) (mirrors_statement he hb hblock) _,
      fun cost t => mirrors_nested cost (by omega) (mirrors_seq plain_unread fun bound => ?_) _⟩
    have hone := mirrors_recovering (mirrors_declarationWith he hb hblock)
    exact mirrors_sequence hone true bound

theorem mirrors_attempt (limit : Int) (depth : Nat) :
    Mirrors limit depth (Scriptlet.declarationWith (Scriptlet.expression (limit.toNat - depth))
      (Scriptlet.body (limit.toNat - depth))) (attempt limit (limit.toNat - depth)) :=
  mirrors_declarationWith (mirrors_expression limit depth) (opens_body limit depth).1
    (opens_body limit depth).2

theorem mirrors_declaration (limit : Int) (depth : Nat) :
    Mirrors limit depth
      (Scriptlet.recovering (decide (0 < depth)) (Scriptlet.declarationWith
        (Scriptlet.expression (limit.toNat - depth)) (Scriptlet.body (limit.toNat - depth))))
      (declaration limit (limit.toNat - depth)) :=
  mirrors_recovering (mirrors_attempt limit depth)

theorem mirrors_program (limit : Int) :
    Mirrors limit 0 (Scriptlet.program limit.toNat) (program limit) :=
  mirrors_seq plain_unread fun bound => mirrors_sequence (mirrors_declaration limit 0) false bound

end

end Counting

end Scriptlet
