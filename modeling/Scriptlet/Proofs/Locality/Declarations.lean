import Scriptlet.Proofs.Locality.Completion
import Scriptlet.Proofs.Locality.Programs

/-! What follows a declaration does not matter: one case for each parser.

Only an if looks at what follows it. With an else there the branch before it has
been passed, and it is enough that its parser looks one token ahead; without one
the branch is the end itself, and has to complete. -/
namespace Scriptlet

open Scriptlet.Parser Scriptlet.Cursor

/-! ### Statements -/

section
variable {move : Token → Token} {expr : Parser Expr} {body : Body} {c c' : Cursor}

theorem completesAt_semicolon (hm : Relocates move) (after : Construct) (hc : c.Delimited) :
    CompletesAt move id (semicolon after) (semicolon after) c c' :=
  completesAt_map (completesAt_expect hm (by decide) _ hc) fun _ => rfl

theorem completesAt_ended {α : Type} (hm : Relocates move)
    (he : ∀ m n, Tracks move m n id expr expr) (after : Construct) (f : Expr → α)
    (hc : c.Delimited) (hc' : c'.Delimited) :
    CompletesAt move id
      (do
        let e ← expr
        semicolon after
        return f e)
      (do
        let e ← expr
        semicolon after
        return f e) c c' := by
  refine completesAt_seq he (fun e => ?_) (fun e => ?_) hc hc' fun e m' hs => ?_
  · exact forward_bind (forward_semicolon after) fun _ => forward_pure _
  · exact (consumes_semicolon after).bind fun _ => forward_pure _
  · exact completesAt_map (completesAt_semicolon hm after (hs.delimited hc hc').1) fun _ => rfl

end

/-! ### Chains of ifs -/

/-- A parser that completes wherever as many tokens are left as the bounds allow for, and
passes at least one. -/
structure Completes (move : Token → Token) (m n : Nat) (p q : Parser Stmt) : Prop where
  tracks : Tracks move m n id p q
  consumes : Consumes p
  completes : ∀ c c' : Cursor, c.Delimited → c'.Delimited → c.rest.length ≤ m → c'.rest.length ≤ n →
    CompletesAt move id p q c c'

section
variable {move : Token → Token} {expr : Parser Expr} {body : Body} {more more' : Parser Stmt}
  {m n : Nat} {c c' : Cursor}

theorem consumes_inward {α : Type} {p : Parser α} (cost : Nat) (h : Consumes p) :
    Consumes (inward cost p) :=
  h

theorem Completes.advance (h : Completes move m n more more') (hc : c.Delimited)
    (hc' : c'.Delimited) (hlen : c.rest.length ≤ m) (hlen' : c'.rest.length ≤ n) :
    CompletesAt move id more more' c.advance c'.advance := by
  refine h.completes _ _ hc.advance hc'.advance ?_ ?_ <;>
  · rw [rest_advance, List.length_tail]
    omega

theorem completes_elseArm (hm : Relocates move)
    (hb : ∀ t, Completes move m n (body.branch t) (body.branch (move t)))
    (h : Completes move m n more more') (condition : Expr) (yes : Stmt) (t : Token) :
    Completes move m n (elseArm body more condition yes t)
      (elseArm body more' condition yes (move t)) := by
  have hmore : Forward (more >>= fun no => pure (Stmt.branch condition yes (some no))) :=
    forward_bind h.tracks.forward fun _ => forward_pure _
  have hconsumes : Consumes (elseArm body more condition yes t) := by
    refine fun c hc => consumesAt_peek_bind ?_
    split
    next hk => exact consumesAt_skip_bind hmore hc (by rw [hk]; decide)
    next => exact (consumes_inward 2 (hb t).consumes).bind (fun _ => forward_pure _) c hc
  refine ⟨tracks_elseArm hm (fun t => (hb t).tracks) h.tracks condition yes t, hconsumes,
    fun c c' hc hc' hlen hlen' => completesAt_peek_bind (hconsumes c hc) ?_⟩
  rw [hm.kind]
  split
  next hk =>
    exact completesAt_skip_bind hmore hc (by rw [hk]; decide)
      (completesAt_map (h.advance hc hc' hlen hlen') fun _ => rfl)
  next =>
    exact completesAt_map (completesAt_inward 2 ((hb t).completes c c' hc hc' hlen hlen'))
      fun _ => rfl

theorem otherwise_of_ne {condition : Expr} {yes : Stmt} (h : c.peek.kind ≠ .elseWord) :
    otherwise body more condition yes c = ⟨.ok (.branch condition yes none), c, [], 0⟩ := by
  rw [otherwise, peek_bind, if_neg h]
  rfl

/-- Behind an else the rest of an if completes. -/
theorem completesAt_otherwise (hm : Relocates move)
    (hb : ∀ t, Completes move m n (body.branch t) (body.branch (move t)))
    (h : Completes move m n more more') (condition : Expr) (yes : Stmt) (hc : c.Delimited)
    (hc' : c'.Delimited) (hlen : c.rest.length ≤ m) (hlen' : c'.rest.length ≤ n)
    (helse : c.peek.kind = .elseWord) :
    ConsumesAt (otherwise body more condition yes) c ∧
      CompletesAt move id (otherwise body more condition yes)
        (otherwise body more' condition yes) c c' := by
  have hk : c.peek.kind ≠ .eof := by rw [helse]; decide
  have harm := completes_elseArm hm hb h condition yes c.peek
  have hconsumes : ConsumesAt (otherwise body more condition yes) c := by
    refine consumesAt_peek_bind ?_
    rw [if_pos helse]
    exact consumesAt_skip_bind harm.tracks.forward hc hk
  refine ⟨hconsumes, completesAt_peek_bind hconsumes ?_⟩
  rw [hm.kind, if_pos helse, if_pos helse]
  exact completesAt_skip_bind harm.tracks.forward hc hk (harm.advance hc hc' hlen hlen')

/-- A branch and what stands behind it: with an else behind it the branch has been passed,
without one it is the end. -/
theorem completesAt_branch (hm : Relocates move) {p q : Parser Stmt} (hp : Completes move m n p q)
    (hb : ∀ t, Completes move m n (body.branch t) (body.branch (move t)))
    (h : Completes move m n more more') (condition : Expr) (hc : c.Delimited) (hc' : c'.Delimited)
    (hlen : c.rest.length ≤ m) (hlen' : c'.rest.length ≤ n) :
    CompletesAt move id (p >>= fun yes => otherwise body more condition yes)
      (q >>= fun yes => otherwise body more' condition yes) c c' := by
  intro s d' ho hpassed hd hd'
  obtain ⟨yes, hyes⟩ := outcome_of_bind ho
  have heq := bind_ok hyes fun yes => otherwise body more condition yes
  obtain ⟨us, hus⟩ := hp.tracks.forward c
  have hlast := tracks_otherwise hm (fun t => (hb t).tracks) h.tracks condition yes
  obtain ⟨vs, hvs⟩ := hlast.forward (p c).cursor
  have hproper := hc.past hus
  rw [heq] at ho hpassed hd
  obtain ⟨m', hfirst, hsecond⟩ := hpassed.split hus hvs
  have hlength := hus.length
  by_cases helse : (p c).cursor.peek.kind = .elseWord
  · have hproper' : m'.Delimited := by
      obtain ⟨ts, _, hts'⟩ := hfirst
      exact hc'.past hts'
    have hlength' : m'.rest.length ≤ c'.rest.length := by
      obtain ⟨ts, _, hts'⟩ := hfirst
      have := hts'.length
      omega
    obtain ⟨hless, hrest⟩ := completesAt_otherwise hm hb h condition yes hproper hproper'
      (by omega) (by omega) helse
    have hshown := hfirst.shown (hsecond.peek (hless s ho))
    have hq := hp.tracks.agrees c c' m' hc hc' hlen hlen' hshown
    exact relocate_bind_ok hyes hq (hrest s d' ho hsecond hd hd')
  · rw [otherwise_of_ne helse] at hpassed hd hsecond
    obtain ⟨ts, hts, hts'⟩ := hsecond
    obtain rfl := past_unique hts (past_nil.mpr rfl)
    obtain rfl := past_nil.mp hts'
    have hq := hp.completes c c' hc hc' hlen hlen' yes d' hyes hpassed hd hd'
    refine relocate_bind_ok hyes hq ?_
    rw [otherwise_of_ne helse]
    exact otherwise_of_ne hd'

theorem completes_inward {p q : Parser Stmt} (cost : Nat) (h : Completes move m n p q) :
    Completes move m n (inward cost p) (inward cost q) :=
  ⟨tracks_inward cost h.tracks, consumes_inward cost h.consumes,
    fun c c' hc hc' hlen hlen' => completesAt_inward cost (h.completes c c' hc hc' hlen hlen')⟩

theorem completes_arm (hm : Relocates move) (he : ∀ m n, Tracks move m n id expr expr)
    (hb : ∀ m n t, Completes move m n (body.branch t) (body.branch (move t)))
    (h : Completes move m n more more') :
    Completes move m n (arm expr body more) (arm expr body more') := by
  have hyes (close : Token) := completes_inward 2 (hb m n close)
  have hotherwise (condition : Expr) (yes : Stmt) :=
    (tracks_otherwise hm (fun t => (hb m n t).tracks) h.tracks condition yes).forward
  have hcondition (condition : Expr) (close : Token) : Consumes (do
      let yes ← inward 2 (body.branch close)
      otherwise body more condition yes) :=
    (hyes close).consumes.bind fun yes => hotherwise condition yes
  have hclose (condition : Expr) : Consumes (do
      let close ← expect .rightParen (.expectedMark .rightParen .condition)
      let yes ← inward 2 (body.branch close)
      otherwise body more condition yes) :=
    (forward_expect _ _).consumes_bind fun close => hcondition condition close
  have hforward (condition : Expr) (close : Token) : Forward (do
      let yes ← inward 2 (body.branch close)
      otherwise body more condition yes) :=
    forward_bind (hyes close).tracks.forward fun yes => hotherwise condition yes
  refine ⟨tracks_arm hm (he m n) (fun t => (hb m n t).tracks) h.tracks,
    (he 0 0).forward.consumes_bind hclose, fun c c' hc hc' hlen hlen' => ?_⟩
  refine completesAt_seq he (fun condition => ?_) hclose hc hc' fun condition m₁ hs => ?_
  · exact forward_bind (forward_expect _ _) fun close => hforward condition close
  obtain ⟨hc₁, hc₁'⟩ := hs.delimited hc hc'
  obtain ⟨hlen₁, hlen₁'⟩ := hs.length_le
  refine completesAt_bind (fun m n => tracks_expect hm _ _) (hforward condition)
    (hcondition condition) hc₁ hc₁' fun close m₂ hs₂ => ?_
  obtain ⟨hc₂, hc₂'⟩ := hs₂.delimited hc₁ hc₁'
  obtain ⟨hlen₂, hlen₂'⟩ := hs₂.length_le
  exact completesAt_branch hm (hyes close) (hb m n) h condition hc₂ hc₂' (by omega) (by omega)

theorem completes_ifChain (hm : Relocates move) (he : ∀ m n, Tracks move m n id expr expr)
    (hb : ∀ m n t, Completes move m n (body.branch t) (body.branch (move t)))
    (bound bound' : List Token) :
    Completes move bound.length bound'.length (ifChain expr body bound)
      (ifChain expr body bound') := by
  have htracks := tracks_ifChain hm he fun m n t => (hb m n t).tracks
  have hconsumes := consumes_ifChain hm he fun m n t => (hb m n t).tracks
  induction bound generalizing bound' with
  | nil =>
    refine ⟨htracks _ _, hconsumes _, fun c c' hc hc' hlen hlen' s d' ho => ?_⟩
    rw [ifChain, peek_bind] at ho
    cases ho
  | cons t bound ih =>
    refine ⟨htracks _ _, hconsumes _, fun c c' hc hc' hlen hlen' s d' ho hpassed hd hd' => ?_⟩
    have hless := hconsumes (t :: bound) c hc s ho
    have hpeek := hpassed.peek hless
    have hk : c.peek.kind = .leftParen := Decidable.byContradiction fun hk => by
      rw [ifChain_refuse hk] at ho
      cases ho
    cases bound' with
    | nil =>
      have hend := hc'.rest_eq_nil.mp (List.length_eq_zero_iff.mp (Nat.le_zero.mp hlen'))
      rw [hpeek, hm.kind, hk] at hend
      cases hend
    | cons t' bound' =>
      have harm := completes_arm hm he hb (ih bound')
      have hrest : c.advance.rest.length ≤ bound.length := by
        rw [rest_advance, List.length_tail]
        exact Nat.sub_le_of_le_add hlen
      have hrest' : c'.advance.rest.length ≤ bound'.length := by
        rw [rest_advance, List.length_tail]
        exact Nat.sub_le_of_le_add hlen'
      have hgo : CompletesAt move id (ifChain expr body (t :: bound))
          (ifChain expr body (t' :: bound')) c c' :=
        completesAt_expect_bind hm hc hk (by decide) harm.tracks.forward
          (harm.completes _ _ hc.advance hc'.advance hrest hrest')
      exact hgo s d' ho hpassed hd hd'

/-! ### Declarations -/

theorem completes_statement (hm : Relocates move) (he : ∀ m n, Tracks move m n id expr expr)
    (hb : ∀ m n t, Completes move m n (body.branch t) (body.branch (move t)))
    (hblock : ∀ m n t, Tracks move m n id (body.block t) (body.block (move t))) (m n : Nat) :
    Completes move m n (statementWith expr body) (statementWith expr body) := by
  have hconsumes := consumes_statement hm he (fun m n t => (hb m n t).tracks)
    fun t => (hblock 0 0 t).forward
  refine ⟨tracks_statement hm he (fun m n t => (hb m n t).tracks) hblock m n, hconsumes,
    fun c c' hc hc' _ _ => completesAt_peek_bind (hconsumes c hc) ?_⟩
  have hca := hc.advance
  have hca' := hc'.advance
  simp only [hm.kind]
  split
  case h_1 | h_2 | h_3 => exact completesAt_refuse _ _ _ _
  case h_4 hk =>
    have hclose (statements : List Stmt) : Forward (do
        let _ ← expect .rightBrace (.expectedMark .rightBrace .block)
        return Stmt.block statements) :=
      forward_bind (forward_expect _ _) fun _ => forward_pure _
    refine completesAt_skip_bind (forward_bind (hblock 0 0 c.peek).forward hclose) hc
      (by rw [hk]; decide) ?_
    refine completesAt_seq (fun m n => tracks_inward 3 (hblock m n c.peek)) hclose
      (fun statements => ?_) hca hca' fun statements m' hs => ?_
    · exact (consumes_expect (by decide) _).bind fun _ => forward_pure _
    · exact completesAt_map (completesAt_expect hm (by decide) _ (hs.delimited hca hca').1)
        fun _ => rfl
  case h_5 hk =>
    refine completesAt_skip_bind (forward_bind (he 0 0).forward fun e => ?_) hc
      (by rw [hk]; decide) (completesAt_ended hm he _ _ hca hca')
    exact forward_bind (forward_semicolon _) fun _ => forward_pure _
  case h_6 hk =>
    have hchain := forward_ifChain hm he fun m n t => (hb m n t).tracks
    refine completesAt_skip_bind (fun c => ?_) hc (by rw [hk]; decide)
      (completesAt_unread_bind ?_)
    · rw [unread_bind]
      exact hchain c.rest c
    · exact (completes_ifChain hm he hb _ _).completes _ _ hca hca' (Nat.le_refl _) (Nat.le_refl _)
  case h_7 => exact completesAt_ended hm he _ _ hc hc'

theorem completesAt_variable (hm : Relocates move) (he : ∀ m n, Tracks move m n id expr expr)
    (hc : c.Delimited) (hc' : c'.Delimited) :
    CompletesAt move id (variableWith expr) (variableWith expr) c c' := by
  have hended (f : Expr → Stmt) : Forward (do
      let e ← expr
      semicolon .declaration
      return f e) :=
    forward_bind (he 0 0).forward fun e =>
      forward_bind (forward_semicolon _) fun _ => forward_pure _
  have hless (name : Token) : Consumes (do
      if (← peek).kind = .equal then
        skip
        let initial ← expr
        semicolon .declaration
        return Stmt.declare name.text (some initial)
      else
        semicolon .declaration
        return .declare name.text none) := by
    refine fun c hc => consumesAt_peek_bind ?_
    split
    next hk => exact consumesAt_skip_bind (hended _) hc (by rw [hk]; decide)
    next => exact (consumes_semicolon _).bind (fun _ => forward_pure _) c hc
  refine completesAt_bind (fun m n => tracks_expect hm _ _) (fun name => ?_) hless hc hc'
    fun name m' hs => ?_
  · refine forward_bind (fun c => ⟨[], past_nil.mpr rfl⟩) fun next => ?_
    split
    · exact forward_bind forward_skip fun _ => hended _
    · exact forward_bind (forward_semicolon _) fun _ => forward_pure _
  · obtain ⟨hp, hp'⟩ := hs.delimited hc hc'
    refine completesAt_peek_bind (hless name _ hp) ?_
    rw [hm.kind, hm.text]
    split
    next hk =>
      exact completesAt_skip_bind (hended _) hp (by rw [hk]; decide)
        (completesAt_ended hm he _ _ hp.advance hp'.advance)
    next => exact completesAt_map (completesAt_semicolon hm _ hp) fun _ => rfl

/-- **What follows a declaration does not matter**, as long as it is no else. -/
theorem completes_declaration (hm : Relocates move) (he : ∀ m n, Tracks move m n id expr expr)
    (hb : ∀ m n t, Completes move m n (body.branch t) (body.branch (move t)))
    (hblock : ∀ m n t, Tracks move m n id (body.block t) (body.block (move t))) (m n : Nat) :
    Completes move m n (declarationWith expr body) (declarationWith expr body) := by
  have hconsumes := consumes_declaration hm he (fun m n t => (hb m n t).tracks)
    fun t => (hblock 0 0 t).forward
  refine ⟨tracks_declaration hm he (fun m n t => (hb m n t).tracks) hblock m n, hconsumes,
    fun c c' hc hc' hlen hlen' => completesAt_peek_bind (hconsumes c hc) ?_⟩
  rw [hm.kind]
  split
  next hk =>
    exact completesAt_skip_bind (tracks_variable hm he 0 0).forward hc (by rw [hk]; decide)
      (completesAt_variable hm he hc.advance hc'.advance)
  next => exact (completes_statement hm he hb hblock m n).completes c c' hc hc' hlen hlen'

end

theorem completes_branch {move : Token → Token} (hm : Relocates move) (room m n : Nat)
    (t : Token) : Completes move m n ((body room).branch t) ((body room).branch (move t)) := by
  induction room generalizing m n t with
  | zero =>
    exact ⟨tracks_refuse t _, fun c _ => consumesAt_refuse t _,
      fun c c' _ _ _ _ => completesAt_refuse _ _ _ _⟩
  | succ room ih =>
    exact completes_statement hm (tracks_expression hm room) ih
      (fun m n t => (tracks_body hm room m n t).2) m n

theorem completes_declaration_room {move : Token → Token} (hm : Relocates move)
    (room m n : Nat) :
    Completes move m n (declarationWith (expression room) (body room))
      (declarationWith (expression room) (body room)) :=
  completes_declaration hm (tracks_expression hm room) (completes_branch hm room)
    (fun m n t => (tracks_body hm room m n t).2) m n

end Scriptlet
