import Scriptlet.Proofs.Locality.Recovery
import Scriptlet.Proofs.Locality.Statements

/-! The parser of programs looks one token ahead.

A sequence goes on after what is malformed, so what is malformed must be recovered
from in the same way where the same tokens are shown, and every round of the loop
must pass a token, be it well formed or not. `tracks_program` puts together what
has been shown of all parsers. -/
namespace Scriptlet

open Scriptlet.Parser Scriptlet.Cursor

/-! ### Sequences -/

/-- Whether a sequence stops at a cursor. -/
def sequenceStops (inBlock : Bool) (c : Cursor) : Bool :=
  c.rest.isEmpty || (inBlock && c.peek.kind == .rightBrace)

section
variable {inBlock : Bool} {one : Parser (Option Stmt)} {c : Cursor}

theorem sequence_stop (h : sequenceStops inBlock c = true) (bound : List Token) :
    sequence inBlock one bound c = ⟨.ok [], c, [], 0⟩ := by
  cases bound with
  | nil => rfl
  | cons _ bound =>
    rw [sequence, atEnd_bind, peek_bind]
    exact congrFun (if_pos h) c

theorem sequence_go (h : sequenceStops inBlock c = false) (t : Token) (bound : List Token) :
    sequence inBlock one (t :: bound) c =
      (do
        let first ← one
        let more ← sequence inBlock one bound
        return first.toList ++ more) c := by
  rw [sequence, atEnd_bind, peek_bind]
  exact congrFun (if_neg (Bool.eq_false_iff.mp h)) c

/-- The reply of a sequence, with what stands in front of it. -/
def Reply.inFront (ss : List Stmt) (noted : List Diagnostic) (frames : Nat)
    (r : Reply (List Stmt)) : Reply (List Stmt) :=
  { r with
    outcome := r.outcome.map (ss ++ ·)
    noted := noted ++ r.noted
    frames := max frames r.frames }

theorem inFront_nil (r : Reply (List Stmt)) : r.inFront [] [] 0 = r := by
  obtain ⟨outcome, cursor, noted, frames⟩ := r
  cases outcome <;> simp only [Reply.inFront, Except.map, List.nil_append, Nat.zero_max]

theorem inFront_inFront (ss ts : List Stmt) (noted more : List Diagnostic) (m n : Nat)
    (r : Reply (List Stmt)) :
    (r.inFront ts more n).inFront ss noted m = r.inFront (ss ++ ts) (noted ++ more) (max m n) := by
  obtain ⟨outcome, cursor, noted, frames⟩ := r
  cases outcome <;> simp only [Reply.inFront, Except.map, List.append_assoc, Nat.max_assoc]

/-- One declaration, and those behind it. -/
theorem sequence_step {m : Cursor} {o : Option Stmt} {noted : List Diagnostic} {f : Nat}
    (hstop : sequenceStops inBlock c = false) (hone : one c = ⟨.ok o, m, noted, f⟩) (t : Token)
    (bound : List Token) :
    sequence inBlock one (t :: bound) c =
      (sequence inBlock one bound m).inFront o.toList noted f := by
  have hfirst : (one c).outcome = .ok o := by rw [hone]
  rw [sequence_go hstop, bind_ok hfirst, hone]
  cases hmore : (sequence inBlock one bound m).outcome with
  | ok ss =>
    rw [bind_ok hmore, Reply.inFront, hmore]
    show (⟨.ok (o.toList ++ ss), _, noted ++ (_ ++ []), max f (max _ 0)⟩ : Reply (List Stmt)) = _
    rw [List.append_nil, Nat.max_zero]
    rfl
  | error e =>
    rw [bind_error hmore, Reply.inFront, hmore]
    rfl

end

section
variable {move : Token → Token} {inBlock : Bool} {one : Parser (Option Stmt)}

theorem forward_sequence (inBlock : Bool) (h : Forward one) (bound : List Token) :
    Forward (sequence inBlock one bound) := by
  induction bound with
  | nil => exact forward_pure []
  | cons t bound ih =>
    intro c
    cases hstop : sequenceStops inBlock c with
    | true =>
      rw [sequence_stop hstop]
      exact ⟨[], past_nil.mpr rfl⟩
    | false =>
      rw [sequence_go hstop]
      exact forward_bind h (fun first => forward_bind ih fun more => forward_pure _) c

theorem sequenceStops_eq {c c' d d' : Cursor} (h : Shown move c d c' d') (hm : Relocates move)
    (hc : c.Delimited) (hc' : c'.Delimited) :
    sequenceStops inBlock c' = sequenceStops inBlock c := by
  rw [sequenceStops, sequenceStops, h.kind hm, Bool.eq_iff_iff.mpr (by
    rw [List.isEmpty_iff, List.isEmpty_iff, h.rest_eq_nil hm hc hc'] :
    c'.rest.isEmpty = true ↔ c.rest.isEmpty = true)]

/-- Two sequences whose bounds allow for the tokens that are left. -/
theorem tracks_sequence (hm : Relocates move) (h : ∀ m n, Tracks move m n id one one)
    (hone : Progresses one) (bound bound' : List Token) :
    Tracks move bound.length bound'.length id (sequence inBlock one bound)
      (sequence inBlock one bound') := by
  have hforward := forward_sequence inBlock (h 0 0).forward
  have hstopped {c c' d' : Cursor} {bound bound' : List Token}
      (hc : c.Delimited) (hc' : c'.Delimited) (hstop : sequenceStops inBlock c = true)
      (hs : Shown move c (sequence inBlock one bound c).cursor c' d') :
      sequence inBlock one bound' c' = (sequence inBlock one bound c).relocate move id d' := by
    have hstop' := (sequenceStops_eq hs hm hc hc').trans hstop
    rw [sequence_stop hstop] at hs ⊢
    rw [sequence_stop hstop', (shown_refl.mp hs).1]
    rfl
  have hend {c : Cursor} (h : c.rest.length ≤ 0) : sequenceStops inBlock c = true := by
    rw [sequenceStops, List.length_eq_zero_iff.mp (Nat.le_zero.mp h)]
    rfl
  induction bound generalizing bound' with
  | nil => exact ⟨hforward _, fun c c' d' hc hc' hlen _ hs => hstopped hc hc' (hend hlen) hs⟩
  | cons t bound ih =>
    refine ⟨hforward _, fun c c' d' hc hc' hlen hlen' hs => ?_⟩
    cases hstop : sequenceStops inBlock c with
    | true => exact hstopped hc hc' hstop hs
    | false =>
      have hstop' := (sequenceStops_eq hs hm hc hc').trans hstop
      cases bound' with
      | nil =>
        rw [hend hlen'] at hstop'
        cases hstop'
      | cons t' bound' =>
        rw [sequence_go hstop] at hs ⊢
        rw [sequence_go hstop']
        have hrest : c.rest ≠ [] := fun hnil => by
          rw [sequenceStops, hnil] at hstop
          cases hstop
        have hmore (first : Option Stmt) :=
          (ih bound').seq fun more => tracks_pure (h := id) (first.toList ++ more)
        refine relocate_bind (h 0 0).forward (fun first => (hmore first).forward)
          (fun m' => (h _ _).agrees c c' m' hc hc' hlen hlen')
          (fun first m' hfirst hsecond => ?_) hs
        obtain ⟨hproper, hproper'⟩ := hfirst.delimited hc hc'
        have hless := hone c hc hrest
        have hless' := hfirst.length_lt hless
        simp only [List.length_cons] at hlen hlen'
        exact (hmore first).agrees _ m' d' hproper hproper' (by omega) (by omega) hsecond

end

/-! ### Levels -/

section
variable {move : Token → Token} {expr : Parser Expr} {body : Body}

/-- Declarations up to the end or to a closing brace. -/
theorem tracks_declarations (hm : Relocates move) (he : ∀ m n, Tracks move m n id expr expr)
    (hb : ∀ m n t, Tracks move m n id (body.branch t) (body.branch (move t)))
    (hblock : ∀ m n t, Tracks move m n id (body.block t) (body.block (move t)))
    (inBlock : Bool) (bound bound' : List Token) :
    Tracks move bound.length bound'.length id
      (sequence inBlock (recovering inBlock (declarationWith expr body)) bound)
      (sequence inBlock (recovering inBlock (declarationWith expr body)) bound') := by
  have hdeclaration := tracks_declaration hm he hb hblock
  have hconsumes := consumes_declaration hm he hb fun t => (hblock 0 0 t).forward
  exact tracks_sequence hm (fun m n => tracks_recovering hm inBlock (hdeclaration m n))
    (progresses_recovering inBlock (hdeclaration 0 0).forward hconsumes) bound bound'

end

theorem tracks_body {move : Token → Token} (hm : Relocates move) (room m n : Nat) (t : Token) :
    Tracks move m n id ((body room).branch t) ((body room).branch (move t)) ∧
      Tracks move m n id ((body room).block t) ((body room).block (move t)) := by
  induction room generalizing m n t with
  | zero => exact ⟨tracks_refuse t _, tracks_refuseBlock hm t⟩
  | succ room ih =>
    have he := tracks_expression hm room
    have hb := fun m n t => (ih m n t).1
    have hblock := fun m n t => (ih m n t).2
    exact ⟨tracks_statement hm he hb hblock m n,
      tracks_unread_bind (tracks_declarations hm he hb hblock true)⟩

/-- **Parsing looks one token ahead.** A declaration is parsed by the tokens that it has and the
one behind it, wherever they stand. -/
theorem tracks_declaration_room {move : Token → Token} (hm : Relocates move) (room m n : Nat) :
    Tracks move m n id (declarationWith (expression room) (body room))
      (declarationWith (expression room) (body room)) :=
  tracks_declaration hm (tracks_expression hm room) (fun m n t => (tracks_body hm room m n t).1)
    (fun m n t => (tracks_body hm room m n t).2) m n

theorem progresses_declaration (room : Nat) : Progresses (declaration room) := by
  have hforward := (tracks_declaration_room relocates_id room 0 0).forward
  refine progresses_recovering false hforward ?_
  exact consumes_declaration relocates_id (tracks_expression relocates_id room)
    (fun m n t => (tracks_body relocates_id room m n t).1)
    fun t => (tracks_body relocates_id room 0 0 t).2.forward

theorem program_eq (room : Nat) (c : Cursor) :
    program room c = sequence false (declaration room) c.rest c :=
  unread_bind _ c

/-- Declarations with bounds that allow for the tokens that are left. -/
theorem tracks_sequence_room {move : Token → Token} (hm : Relocates move) (room : Nat)
    (inBlock : Bool) (bound bound' : List Token) :
    Tracks move bound.length bound'.length id
      (sequence inBlock (recovering inBlock (declarationWith (expression room) (body room))) bound)
      (sequence inBlock (recovering inBlock (declarationWith (expression room) (body room)))
        bound') :=
  tracks_declarations hm (tracks_expression hm room) (fun m n t => (tracks_body hm room m n t).1)
    (fun m n t => (tracks_body hm room m n t).2) inBlock bound bound'

/-- The declarations of a source. -/
theorem tracks_program {move : Token → Token} (hm : Relocates move) (room : Nat)
    (bound bound' : List Token) :
    Tracks move bound.length bound'.length id (sequence false (declaration room) bound)
      (sequence false (declaration room) bound') :=
  tracks_sequence_room hm room false bound bound'

end Scriptlet
