import Scriptlet.Proofs.Faults.Expressions
import Scriptlet.Proofs.Faults.Omissions
import Scriptlet.Proofs.Locality.Declarations

/-! Statements that enclose the block that is left out.

Only a block or an if can meet a block: the other statements are made of expressions,
which note nothing but targets (`Quiet`) and end before any brace. With the parsers
one level further in (`Omission.Fits`) a declaration that begins before the block
compares (`cutsAt_declaration`). A branch cannot begin with the block, so that the
same token is ahead in both lists wherever a branch begins. -/
namespace Scriptlet

open Scriptlet.Parser Scriptlet.Cursor

/-! ### Quiet parsers -/

/-- A parser notes nothing but targets. -/
def Quiet {α : Type} (p : Parser α) : Prop :=
  ∀ c : Cursor, c.Delimited → ∀ d ∈ (p c).noted, d.fault = .invalidTarget

section
variable {α β : Type} {p : Parser α}

theorem quiet_pure (a : α) : Quiet (pure a : Parser α) :=
  fun _ _ _ hd => absurd hd List.not_mem_nil

theorem quiet_refuse (t : Token) (fault : Fault) : Quiet (refuse t fault : Parser α) :=
  fun _ _ _ hd => absurd hd List.not_mem_nil

theorem quiet_bind {f : α → Parser β} (hforward : Forward p) (hp : Quiet p)
    (hf : ∀ a, Quiet (f a)) : Quiet (p >>= f) := by
  intro c hc d hd
  obtain ⟨us, hus⟩ := hforward c
  cases ho : (p c).outcome with
  | error e =>
    rw [bind_error ho] at hd
    exact hp c hc d hd
  | ok a =>
    rw [bind_ok ho] at hd
    rcases List.mem_append.mp hd with hd | hd
    · exact hp c hc d hd
    · exact hf a _ (hc.past hus) d hd

theorem quiet_skip_bind (hp : Quiet p) : Quiet (skip >>= fun _ => p) :=
  quiet_bind forward_skip (fun _ _ _ hd => absurd hd List.not_mem_nil) fun _ => hp

theorem quiet_peek_bind {f : Token → Parser α} (hf : ∀ t, Quiet (f t)) : Quiet (peek >>= f) := by
  intro c hc
  rw [peek_bind]
  exact hf c.peek c hc

theorem quiet_expect (kind : Kind) (fault : Fault) : Quiet (expect kind fault) := by
  refine quiet_peek_bind fun t => ?_
  split
  · exact quiet_skip_bind (quiet_pure t)
  · exact quiet_refuse t fault

theorem quiet_expression (room : Nat) : Quiet (expression room) := by
  intro c hc
  obtain ⟨ts, -, hok, herror⟩ := roamsAt_expression room hc
  cases ho : (expression room c).outcome with
  | ok a => exact (hok a ho).invalid
  | error e => exact (herror e ho).invalid

theorem quiet_ended (room : Nat) (after : Construct) (f : Expr → Stmt) :
    Quiet (do
      let e ← expression room
      semicolon after
      return f e) := by
  have hsemicolon : Quiet (semicolon after) :=
    quiet_bind (forward_expect _ _) (quiet_expect _ _) fun _ => quiet_pure ()
  exact quiet_bind (tracks_expression relocates_id room 0 0).forward (quiet_expression room)
    fun e => quiet_bind (forward_semicolon after) hsemicolon fun _ => quiet_pure _

theorem quiet_variable (room : Nat) : Quiet (variableWith (expression room)) := by
  have hsemicolon : Quiet (semicolon .declaration) :=
    quiet_bind (forward_expect _ _) (quiet_expect _ _) fun _ => quiet_pure ()
  refine quiet_bind (forward_expect _ _) (quiet_expect _ _) fun name => quiet_peek_bind fun t => ?_
  split
  · exact quiet_skip_bind (quiet_ended room _ _)
  · exact quiet_bind (forward_semicolon _) hsemicolon fun _ => quiet_pure _

end

namespace Omission

variable {x : Omission}

section
variable {α : Type} {p q : Parser α} {ts : List Token} {c c' : Cursor}

theorem refusal_not_mem (h : Quiet p) (hc : c.Delimited) : x.refusal ∉ (p c).noted :=
  fun hmet => by cases h c hc _ hmet

theorem cutsAt_quiet (h : Quiet p) (hc : c.Delimited) : x.CutsAt p q c c' :=
  fun hmet => absurd hmet (refusal_not_mem h hc)

theorem opening_ne {kind : Kind} {t : Token} (h : t.kind = kind) (hk : kind ≠ .leftBrace) :
    t ≠ x.opening := by
  intro he
  rw [← h, he, x.brace] at hk
  exact hk rfl

end

/-! ### Statements -/

/-- The parsers of bodies compare. A branch does not begin with the block. -/
structure Fits (x : Omission) (body : Body) : Prop where
  branch : ∀ t ts c c', x.Apart ts c c' → ts ≠ [] → x.CutsAt (body.branch t) (body.branch t) c c'
  block : ∀ t ts c c', x.Apart ts c c' → x.CutsAt (body.block t) (body.block t) c c'

section
variable {room : Nat} {ts : List Token} {c c' : Cursor} {m n : Nat} {more more' : Parser Stmt}

theorem Apart.not_last (h : x.Apart ts c c')
    (hk : c.peek.kind = .rightParen ∨ c.peek.kind = .elseWord) {us : List Token}
    (hts : ts = c.peek :: us) : us ≠ [] := by
  intro hnil
  subst hnil
  obtain ⟨hparen, helse⟩ := h.begins c.peek (by rw [hts]; rfl)
  exact hk.elim hparen helse

theorem tracks_branch {move : Token → Token} (hm : Relocates move) (room m n : Nat) (t : Token) :
    Tracks move m n id ((body room).branch t) ((body room).branch (move t)) :=
  (tracks_body hm room m n t).1

theorem cutsAt_otherwise (hb : x.Fits (body room))
    (hmore : ∀ ts d d', x.Apart ts d d' → d.rest.length ≤ m → d'.rest.length ≤ n →
      x.CutsAt more more' d d')
    (hforward : Forward more) (condition : Expr) (yes : Stmt) (h : x.Apart ts c c') (hne : ts ≠ [])
    (hlen : c.rest.length ≤ m) (hlen' : c'.rest.length ≤ n) :
    x.CutsAt (otherwise (body room) more condition yes)
      (otherwise (body room) more' condition yes) c c' := by
  refine cutsAt_peek_bind (h.peek hne) ?_
  split
  next hk =>
    obtain ⟨us, hus, h₁⟩ := h.advance hne
    have hne₁ := h.not_last (.inr hk) hus
    refine cutsAt_skip_bind (cutsAt_peek_bind (h₁.peek hne₁) ?_)
    split
    next =>
      obtain ⟨vs, -, h₂⟩ := h₁.advance hne₁
      have hlen₂ : c.advance.advance.rest.length ≤ m ∧ c'.advance.advance.rest.length ≤ n := by
        simp only [rest_advance, List.length_tail]
        omega
      exact cutsAt_skip_bind (cutsAt_map _ (hmore vs _ _ h₂ hlen₂.1 hlen₂.2) hforward h₂.delimited)
    next =>
      have hforward := (tracks_branch relocates_id room 0 0 c.peek).forward
      exact cutsAt_map _ (cutsAt_inward 2 (hb.branch c.peek us _ _ h₁ hne₁)) hforward h₁.delimited
  next => exact cutsAt_of_noted rfl

theorem isPlain_ne_brace {t : Token} (h : t.kind.isPlain = true) : t ≠ x.opening := by
  intro he
  rw [he, x.brace] at h
  cases h

/-- An expression ends before the block. -/
theorem expression_before (h : x.Apart ts c c') {e : Expr}
    (ho : (expression room c).outcome = .ok e) :
    x.opening ∈ (expression room c).cursor.rest := by
  obtain ⟨us, hus, hok, -⟩ := roamsAt_expression room h.delimited
  have hmem : x.opening ∈ c.rest := by
    rw [h.rest]
    exact List.mem_append_right _ List.mem_cons_self
  rw [hus.rest] at hmem
  refine (List.mem_append.mp hmem).resolve_left fun hmem => ?_
  exact isPlain_ne_brace (x := x) ((hok e ho).plain _ hmem) rfl

/-- Where the block is blamed by what stands behind, it is still ahead. -/
theorem ahead_of_noted {α : Type} {p : Parser α}
    (hp : ∀ move, Relocates move → Tracks move m n id p p) (hc : c.Delimited)
    (hm : c.rest.length ≤ m) (hn : c.rest.length ≤ n)
    (hmet : x.refusal ∈ (p c).noted) : x.opening ∈ c.rest := by
  rcases List.mem_append.mp (noted_ahead hp hc hm hn _ hmet) with hmem | hmem
  · exact hmem
  · exact absurd (List.mem_singleton.mp hmem).symm (opening_ne hc.final (by decide))

/-- A branch and what stands behind it. -/
theorem cutsAt_branch (hb : x.Fits (body room))
    (hmore : ∀ ts d d', x.Apart ts d d' → d.rest.length ≤ m → d'.rest.length ≤ n →
      x.CutsAt more more' d d')
    (htracks : ∀ move, Relocates move → Tracks move m m id more more)
    (hsame : Tracks id m n id more more') (condition : Expr) (t : Token) (h : x.Apart ts c c')
    (hne : ts ≠ []) (hlen : c.rest.length ≤ m) (hlen' : c'.rest.length ≤ n) :
    x.CutsAt
      (do
        let yes ← inward 2 ((body room).branch t)
        otherwise (body room) more condition yes)
      (do
        let yes ← inward 2 ((body room).branch t)
        otherwise (body room) more' condition yes) c c' := by
  have hbranch := tracks_inward 2 (tracks_branch relocates_id room m n t)
  have hotherwise (yes : Stmt) :=
    tracks_otherwise relocates_id (tracks_branch relocates_id room m n) hsame condition yes
  refine cutsAt_bind h hbranch hotherwise hlen hlen'
    (cutsAt_inward 2 (hb.branch t ts c c' h hne)) (fun yes _ hmet => ?_)
    fun yes us d' hne h₁ hlen₁ hlen₁' => ?_
  · obtain ⟨us, hus⟩ := hbranch.forward c
    have hlen₁ := hus.length
    have hall (move : Token → Token) (hm : Relocates move) :=
      tracks_otherwise hm (tracks_branch hm room m m) (htracks move hm) condition yes
    refine ⟨ahead_of_noted hall (h.delimited.past hus) (by omega) (by omega) hmet, fun hpeek => ?_⟩
    rw [otherwise_of_ne (by rw [hpeek, x.brace]; decide)] at hmet
    cases hmet
  · exact cutsAt_otherwise hb hmore (htracks id relocates_id).forward condition yes h₁ hne hlen₁
      hlen₁'

/-- The condition and the branch of an arm, and what stands behind. -/
theorem cutsAt_arm (hb : x.Fits (body room))
    (hmore : ∀ ts d d', x.Apart ts d d' → d.rest.length ≤ m → d'.rest.length ≤ n →
      x.CutsAt more more' d d')
    (htracks : ∀ move, Relocates move → Tracks move m m id more more)
    (hsame : Tracks id m n id more more') (h : x.Apart ts c c') (hlen : c.rest.length ≤ m)
    (hlen' : c'.rest.length ≤ n) :
    x.CutsAt (arm (expression room) (body room) more) (arm (expression room) (body room) more')
      c c' := by
  have hexpr := tracks_expression relocates_id room m n
  refine cutsAt_bind h hexpr (fun condition => ?_) hlen hlen'
    (cutsAt_quiet (quiet_expression room) h.delimited) (fun condition ho hmet => ?_)
    fun condition us d' hne h₁ hlen₁ hlen₁' => ?_
  · exact (tracks_expect relocates_id _ _).bind fun close =>
      (tracks_inward 2 (tracks_branch relocates_id room m n close)).seq fun yes =>
        tracks_otherwise relocates_id (tracks_branch relocates_id room m n) hsame condition yes
  · refine ⟨expression_before h ho, fun hpeek => ?_⟩
    have hbrace : (expression room c).cursor.peek.kind ≠ .rightParen := by
      rw [hpeek, x.brace]
      decide
    rw [bind_error (by rw [expect_missing hbrace]), expect_missing hbrace] at hmet
    cases hmet
  · refine cutsAt_expect_bind (h₁.peek hne) fun hclose => ?_
    obtain ⟨vs, hvs, h₂⟩ := h₁.advance hne
    refine cutsAt_branch hb hmore htracks hsame condition _ h₂ (h₁.not_last (.inl hclose) hvs) ?_ ?_
    · rw [rest_advance, List.length_tail]
      omega
    · rw [rest_advance, List.length_tail]
      omega

theorem cutsAt_ifChain (hb : x.Fits (body room)) (bound bound' : List Token)
    (h : x.Apart ts c c') (hlen : c.rest.length ≤ bound.length)
    (hlen' : c'.rest.length ≤ bound'.length) :
    x.CutsAt (ifChain (expression room) (body room) bound)
      (ifChain (expression room) (body room) bound') c c' := by
  induction bound generalizing bound' ts c c' with
  | nil => exact absurd (List.length_eq_zero_iff.mp (Nat.le_zero.mp hlen)) h.rest_ne_nil
  | cons t bound ih =>
    by_cases hparen : c.peek.kind = .leftParen
    · have hne : ts ≠ [] := by
        intro hnil
        subst hnil
        exact opening_ne hparen (by decide) h.peek_nil
      cases bound' with
      | nil =>
        have := h.length.2
        have := List.length_pos_iff.mpr hne
        rw [List.length_nil] at hlen'
        omega
      | cons t' bound' =>
        obtain ⟨us, -, h₁⟩ := h.advance hne
        have htracks {move : Token → Token} (hm : Relocates move) (bound bound' : List Token) :=
          tracks_ifChain hm (tracks_expression hm room) (tracks_branch hm room) bound bound'
        rw [ifChain, ifChain]
        refine cutsAt_expect_bind (h.peek hne) fun _ => cutsAt_arm hb
          (fun ts d d' h hlen hlen' => ih bound' h hlen hlen')
          (fun move hm => htracks hm bound bound) (htracks relocates_id bound bound') h₁ ?_ ?_
        · rw [rest_advance, List.length_tail]
          exact Nat.sub_le_of_le_add hlen
        · rw [rest_advance, List.length_tail]
          exact Nat.sub_le_of_le_add hlen'
    · rw [CutsAt, ifChain_refuse hparen]
      exact fun hmet => absurd hmet List.not_mem_nil

/-- A statement that begins before the block. -/
theorem cutsAt_statement (hb : x.Fits (body room)) (h : x.Apart ts c c') (hne : ts ≠ []) :
    x.CutsAt (statementWith (expression room) (body room))
      (statementWith (expression room) (body room)) c c' := by
  obtain ⟨us, -, h₁⟩ := h.advance hne
  refine cutsAt_peek_bind (h.peek hne) ?_
  split
  case h_1 | h_2 | h_3 => exact cutsAt_of_noted rfl
  case h_4 =>
    have hblock (m n : Nat) := tracks_inward 3 (tracks_body relocates_id room m n c.peek).2
    have hclose (statements : List Stmt) : Quiet (do
        let _ ← expect .rightBrace (.expectedMark .rightBrace .block)
        return Stmt.block statements) :=
      quiet_bind (forward_expect _ _) (quiet_expect _ _) fun _ => quiet_pure _
    refine cutsAt_skip_bind (cutsAt_bind h₁ (hblock _ _) (fun statements => ?_) (Nat.le_refl _)
      (Nat.le_refl _) (cutsAt_inward 3 (hb.block c.peek us _ _ h₁)) (fun statements _ hmet => ?_)
      fun statements vs d' hne h₂ _ _ => cutsAt_quiet (hclose statements) h₂.delimited)
    · exact (tracks_expect relocates_id _ _).bind fun _ => tracks_pure _
    · obtain ⟨vs, hvs⟩ := (hblock 0 0).forward c.advance
      exact absurd hmet (refusal_not_mem (hclose statements) (h₁.delimited.past hvs))
  case h_5 => exact cutsAt_skip_bind (cutsAt_quiet (quiet_ended room _ _) h₁.delimited)
  case h_6 =>
    exact cutsAt_skip_bind (cutsAt_unread_bind
      (cutsAt_ifChain hb _ _ h₁ (Nat.le_refl _) (Nat.le_refl _)))
  case h_7 => exact cutsAt_quiet (quiet_ended room _ _) h.delimited

theorem cutsAt_declaration (hb : x.Fits (body room)) (h : x.Apart ts c c') (hne : ts ≠ []) :
    x.CutsAt (declarationWith (expression room) (body room))
      (declarationWith (expression room) (body room)) c c' := by
  obtain ⟨us, -, h₁⟩ := h.advance hne
  refine cutsAt_peek_bind (h.peek hne) ?_
  split
  next => exact cutsAt_skip_bind (cutsAt_quiet (quiet_variable room) h₁.delimited)
  next => exact cutsAt_statement hb h hne

end

end Omission

end Scriptlet
