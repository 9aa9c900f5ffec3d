import Scriptlet.Parse.Statement
import Scriptlet.Proofs.Locality.Expressions

/-! The parsers of statements look one token ahead.

A statement that is well formed also passes at least one token, as it ends with a
mark. The arms of a chain of ifs are read in a loop, and there the bounds count:
both lists have to have tokens enough for it. -/
namespace Scriptlet

open Scriptlet.Parser Scriptlet.Cursor

/-! ### Statements -/

section
variable {expr : Parser Expr} {body : Body}

/-- An if that does not go on with a parenthesis is refused at once. -/
theorem ifChain_refuse {c : Cursor} (h : c.peek.kind ≠ .leftParen) (bound : List Token) :
    ifChain expr body bound c =
      ⟨.error ⟨.expectedMark .leftParen .ifWord, c.peek⟩, c, [], 0⟩ := by
  cases bound with
  | nil => rw [ifChain, peek_bind]; rfl
  | cons _ bound => rw [ifChain, bind_error (by rw [expect_missing h]), expect_missing h]

variable {move : Token → Token}

theorem tracks_elseArm {more more' : Parser Stmt} {m n : Nat} (hm : Relocates move)
    (hb : ∀ t, Tracks move m n id (body.branch t) (body.branch (move t)))
    (h : Tracks move m n id more more') (condition : Expr) (yes : Stmt) (t : Token) :
    Tracks move m n id (elseArm body more condition yes t)
      (elseArm body more' condition yes (move t)) := by
  refine tracks_peek.bind fun next => ?_
  rw [hm.kind]
  split
  · exact (tracks_skip hm).seq fun _ => h.seq fun no => tracks_pure _
  · exact (tracks_inward 2 (hb t)).seq fun no => tracks_pure _

theorem tracks_otherwise {more more' : Parser Stmt} {m n : Nat} (hm : Relocates move)
    (hb : ∀ t, Tracks move m n id (body.branch t) (body.branch (move t)))
    (h : Tracks move m n id more more') (condition : Expr) (yes : Stmt) :
    Tracks move m n id (otherwise body more condition yes)
      (otherwise body more' condition yes) := by
  refine tracks_peek.bind fun t => ?_
  rw [hm.kind]
  split
  · exact (tracks_skip hm).seq fun _ => tracks_elseArm hm hb h condition yes t
  · exact tracks_pure _

theorem tracks_arm {more more' : Parser Stmt} {m n : Nat} (hm : Relocates move)
    (he : Tracks move m n id expr expr)
    (hb : ∀ t, Tracks move m n id (body.branch t) (body.branch (move t)))
    (h : Tracks move m n id more more') :
    Tracks move m n id (arm expr body more) (arm expr body more') :=
  he.seq fun condition => (tracks_expect hm _ _).bind fun close =>
    (tracks_inward 2 (hb close)).seq fun yes => tracks_otherwise hm hb h condition yes

theorem forward_ifChain (hm : Relocates move) (he : ∀ m n, Tracks move m n id expr expr)
    (hb : ∀ m n t, Tracks move m n id (body.branch t) (body.branch (move t)))
    (bound : List Token) : Forward (ifChain expr body bound) := by
  have h (m : Nat) : Tracks move m m id (ifChain expr body bound) (ifChain expr body bound) := by
    induction bound generalizing m with
    | nil => exact tracks_peek.bind fun t => tracks_refuse t _
    | cons t bound ih =>
      exact (tracks_expect_bind hm _ _ fun _ => tracks_arm hm (he m m) (hb m m) (ih m)).mono
  exact (h 0).forward

/-- Two chains of ifs whose bounds allow for the tokens that are left. -/
theorem tracks_ifChain (hm : Relocates move) (he : ∀ m n, Tracks move m n id expr expr)
    (hb : ∀ m n t, Tracks move m n id (body.branch t) (body.branch (move t)))
    (bound bound' : List Token) :
    Tracks move bound.length bound'.length id (ifChain expr body bound)
      (ifChain expr body bound') := by
  have hforward := forward_ifChain hm he hb
  have hend {c : Cursor} (hc : c.Delimited) (h : c.rest.length ≤ 0) : c.peek.kind ≠ .leftParen := by
    rw [hc.rest_eq_nil.mp (List.length_eq_zero_iff.mp (Nat.le_zero.mp h))]
    decide
  have hrefused {c c' d' : Cursor} {bound bound' : List Token} (h : c.peek.kind ≠ .leftParen)
      (hs : Shown move c (ifChain expr body bound c).cursor c' d') :
      ifChain expr body bound' c' = (ifChain expr body bound c).relocate move id d' := by
    have hkind := hs.kind hm
    rw [ifChain_refuse h] at hs ⊢
    obtain ⟨rfl, hpeek⟩ := shown_refl.mp hs
    rw [ifChain_refuse (by rwa [hkind]), hpeek]
    rfl
  induction bound generalizing bound' with
  | nil => exact ⟨hforward _, fun c c' d' hc _ hlen _ hs => hrefused (hend hc hlen) hs⟩
  | cons t bound ih =>
    cases bound' with
    | nil =>
      refine ⟨hforward _, fun c c' d' _ hc' _ hlen' hs => hrefused ?_ hs⟩
      rw [← hs.kind hm]
      exact hend hc' hlen'
    | cons t' bound' =>
      exact tracks_expect_bind hm _ _ fun _ => tracks_arm hm (he _ _) (hb _ _) (ih bound')

theorem tracks_semicolon (hm : Relocates move) (m n : Nat) (after : Construct) :
    Tracks move m n id (semicolon after) (semicolon after) :=
  (tracks_expect hm _ _).bind fun _ => tracks_pure ()

theorem tracks_statement (hm : Relocates move) (he : ∀ m n, Tracks move m n id expr expr)
    (hb : ∀ m n t, Tracks move m n id (body.branch t) (body.branch (move t)))
    (hblock : ∀ m n t, Tracks move m n id (body.block t) (body.block (move t))) (m n : Nat) :
    Tracks move m n id (statementWith expr body) (statementWith expr body) := by
  refine tracks_peek.bind fun t => ?_
  simp only [hm.kind]
  split
  case h_1 | h_2 | h_3 => exact tracks_refuse t _
  case h_4 =>
    exact (tracks_skip hm).seq fun _ => (tracks_inward 3 (hblock m n t)).seq fun statements =>
      (tracks_expect hm _ _).bind fun _ => tracks_pure _
  case h_5 =>
    exact (tracks_skip hm).seq fun _ => (he m n).seq fun e =>
      (tracks_semicolon hm m n _).seq fun _ => tracks_pure _
  case h_6 =>
    exact (tracks_skip hm).seq fun _ => tracks_unread_bind (tracks_ifChain hm he hb)
  case h_7 =>
    exact (he m n).seq fun e => (tracks_semicolon hm m n _).seq fun _ => tracks_pure _

theorem tracks_variable (hm : Relocates move) (he : ∀ m n, Tracks move m n id expr expr)
    (m n : Nat) : Tracks move m n id (variableWith expr) (variableWith expr) := by
  refine (tracks_expect hm _ _).bind fun name => tracks_peek.bind fun next => ?_
  rw [hm.kind, hm.text]
  split
  · exact (tracks_skip hm).seq fun _ => (he m n).seq fun e =>
      (tracks_semicolon hm m n _).seq fun _ => tracks_pure _
  · exact (tracks_semicolon hm m n _).seq fun _ => tracks_pure _

theorem tracks_declaration (hm : Relocates move) (he : ∀ m n, Tracks move m n id expr expr)
    (hb : ∀ m n t, Tracks move m n id (body.branch t) (body.branch (move t)))
    (hblock : ∀ m n t, Tracks move m n id (body.block t) (body.block (move t))) (m n : Nat) :
    Tracks move m n id (declarationWith expr body) (declarationWith expr body) := by
  refine tracks_peek.bind fun t => ?_
  rw [hm.kind]
  split
  · exact (tracks_skip hm).seq fun _ => tracks_variable hm he m n
  · exact tracks_statement hm he hb hblock m n

end

/-! ### Progress -/

section
variable {move : Token → Token} {expr : Parser Expr} {body : Body}

theorem forward_semicolon (after : Construct) : Forward (semicolon after) :=
  forward_bind (forward_expect _ _) fun _ => forward_pure ()

theorem consumes_semicolon (after : Construct) : Consumes (semicolon after) :=
  (consumes_expect (by decide) _).bind fun _ => forward_pure ()

theorem consumes_ifChain (hm : Relocates move) (he : ∀ m n, Tracks move m n id expr expr)
    (hb : ∀ m n t, Tracks move m n id (body.branch t) (body.branch (move t)))
    (bound : List Token) : Consumes (ifChain expr body bound) := by
  cases bound with
  | nil => exact fun c _ => consumesAt_peek_bind (consumesAt_refuse _ _)
  | cons t bound =>
    have harm := tracks_arm hm (he _ _) (hb _ _) (tracks_ifChain hm he hb bound bound)
    exact (consumes_expect (by decide) _).bind fun _ => harm.forward

theorem consumes_statement (hm : Relocates move) (he : ∀ m n, Tracks move m n id expr expr)
    (hb : ∀ m n t, Tracks move m n id (body.branch t) (body.branch (move t)))
    (hblock : ∀ t, Forward (body.block t)) : Consumes (statementWith expr body) := by
  have hexpr := (he 0 0).forward
  intro c hc
  refine consumesAt_peek_bind ?_
  split
  case h_1 | h_2 | h_3 => exact consumesAt_refuse _ _
  case h_4 hk =>
    refine consumesAt_skip_bind (forward_bind (hblock c.peek) fun statements => ?_) hc
      (by rw [hk]; decide)
    exact forward_bind (forward_expect _ _) fun _ => forward_pure _
  case h_5 hk =>
    refine consumesAt_skip_bind (forward_bind hexpr fun e => ?_) hc (by rw [hk]; decide)
    exact forward_bind (forward_semicolon _) fun _ => forward_pure _
  case h_6 hk =>
    refine consumesAt_skip_bind (fun c => ?_) hc (by rw [hk]; decide)
    rw [unread_bind]
    exact forward_ifChain hm he hb _ c
  case h_7 =>
    have hended := hexpr.consumes_bind fun e => (consumes_semicolon .expression).bind
      fun _ => forward_pure (Stmt.expression e)
    exact hended c hc

/-- A declaration that is well formed has at least one token. -/
theorem consumes_declaration (hm : Relocates move) (he : ∀ m n, Tracks move m n id expr expr)
    (hb : ∀ m n t, Tracks move m n id (body.branch t) (body.branch (move t)))
    (hblock : ∀ t, Forward (body.block t)) : Consumes (declarationWith expr body) := by
  intro c hc
  refine consumesAt_peek_bind ?_
  split
  next hk =>
    exact consumesAt_skip_bind (tracks_variable hm he 0 0).forward hc (by rw [hk]; decide)
  next => exact consumes_statement hm he hb hblock c hc

end

end Scriptlet
