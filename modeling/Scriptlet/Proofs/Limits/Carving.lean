import Scriptlet.Proofs.Limits.Expressions
import Scriptlet.Proofs.Limits.Pieces

/-! What a parser makes of a row of pieces.

Whatever room there is, what a parser of statements returns is read off the pieces
that it has passed, and it comes to a boundary. There is one case for each kind of
piece that a statement can begin with. A declaration that is malformed, or nested
too deep, is passed over up to a boundary, so that declarations are carved from
their pieces on every level (`carves_body`). -/
namespace Scriptlet

open Scriptlet.Parser Scriptlet.Cursor

/-! ### Results -/

/-- A parser comes from one cursor to another with a result, whatever it has noted. -/
structure Gives {α : Type} (p : Parser α) (c : Cursor) (a : α) (d : Cursor) : Prop where
  outcome : (p c).outcome = .ok a
  cursor : (p c).cursor = d

section
variable {α β : Type} {p : Parser α} {c d : Cursor}

theorem gives_pure {a b : α} : Gives (pure a : Parser α) c b d ↔ b = a ∧ d = c := by
  constructor
  · exact fun ⟨ho, hd⟩ => ⟨(Except.ok.inj ho).symm, hd.symm⟩
  · intro h
    obtain ⟨rfl, rfl⟩ := h
    exact ⟨rfl, rfl⟩

theorem gives_bind {f : α → Parser β} {b : β} :
    Gives (p >>= f) c b d ↔ ∃ a m, Gives p c a m ∧ Gives (f a) m b d := by
  constructor
  · intro ⟨ho, hd⟩
    cases h : (p c).outcome with
    | error e =>
      rw [bind_error h] at ho
      cases ho
    | ok a =>
      rw [bind_ok h] at ho hd
      exact ⟨a, _, ⟨h, rfl⟩, ho, hd⟩
  · intro h
    obtain ⟨a, m, ⟨ho, rfl⟩, ho', rfl⟩ := h
    constructor <;> rw [bind_ok ho]
    exact ho'

theorem gives_congr {q : Parser α} {c' : Cursor} {a : α} (h : p c = q c') :
    Gives p c a d ↔ Gives q c' a d := by
  constructor
  · exact fun ⟨ho, hd⟩ => ⟨by rw [← h]; exact ho, by rw [← h]; exact hd⟩
  · exact fun ⟨ho, hd⟩ => ⟨by rw [h]; exact ho, by rw [h]; exact hd⟩

theorem gives_skip_bind {a : α} : Gives (skip >>= fun _ => p) c a d ↔ Gives p c.advance a d :=
  gives_congr (skip_bind p c)

theorem gives_peek_bind {f : Token → Parser α} {a : α} :
    Gives (peek >>= f) c a d ↔ Gives (f c.peek) c a d :=
  gives_congr (peek_bind f c)

theorem gives_unread_bind {f : List Token → Parser α} {a : α} :
    Gives (unread >>= f) c a d ↔ Gives (f c.rest) c a d :=
  gives_congr (unread_bind f c)

theorem gives_inward {cost : Nat} {a : α} : Gives (inward cost p) c a d ↔ Gives p c a d :=
  ⟨fun h => ⟨h.outcome, h.cursor⟩, fun h => ⟨h.outcome, h.cursor⟩⟩

theorem not_gives {a : α} (h : ∃ e, (p c).outcome = .error e) : ¬ Gives p c a d := by
  intro hg
  obtain ⟨e, he⟩ := h
  rw [hg.outcome] at he
  cases he

theorem gives_expect_bind {kind : Kind} {fault : Fault} {f : Token → Parser β} {b : β} :
    Gives (expect kind fault >>= f) c b d ↔
      c.peek.kind = kind ∧ Gives (f c.peek) c.advance b d := by
  by_cases hk : c.peek.kind = kind
  · rw [gives_bind]
    have hfound := expect_found hk fault
    constructor
    · intro ⟨t, m, ⟨ho, hm⟩, h⟩
      rw [hfound] at ho hm
      cases ho
      cases hm
      exact ⟨hk, h⟩
    · exact fun ⟨_, h⟩ => ⟨_, _, ⟨by rw [hfound], by rw [hfound]⟩, h⟩
  · refine ⟨fun h => absurd h (not_gives ?_), fun h => absurd h.1 hk⟩
    exact stopped_bind ⟨_, by rw [expect_missing hk]⟩ _

theorem Reads.gives {a b : α} {d' : Cursor} (h : Reads p c a d) (hg : Gives p c b d') :
    b = a ∧ d' = d :=
  ⟨Except.ok.inj (hg.outcome.symm.trans h.outcome), hg.cursor.symm.trans h.cursor⟩

end

/-! ### Simple statements and heads -/

section
variable {room : Nat} {c d : Cursor}

/-- Of an expression of the grammar nothing else can be made than it is. -/
theorem gives_expression (hc : c.Proper) {ts : List Token} {e e' : Expr} {n : Nat} {d' : Cursor}
    (h : Phrase .expression ts e n) (hts : c.Past ts d) (hstops : Stops .expression d.peek.kind)
    (hg : Gives (expression room) c e' d') : e' = e ∧ d' = d :=
  (expression_phrase room hc h hts hstops).elim (fun hr => hr.gives hg)
    fun ⟨_, ht⟩ => absurd hg (not_gives ⟨_, ht⟩)

/-- Nor of an expression with its semicolon. -/
theorem gives_ended {after : Construct} {f : Expr → Stmt} (hc : c.Proper) {ts us : List Token}
    {e : Expr} {n : Nat} {last : Token} {s : Stmt} (h : Phrase .expression ts e n)
    (hlast : last.kind = .semicolon) (hrest : c.rest = ts ++ last :: us)
    (hg : Gives (do
      let e ← expression room
      semicolon after
      return f e) c s d) : s = f e ∧ c.Past (ts ++ [last]) d ∧ d.rest = us := by
  have hts : c.Past ts (c.forward ts.length) := ⟨by rw [rest_forward, hrest, List.drop_left], rfl⟩
  have hm : (c.forward ts.length).rest = last :: us := by
    rw [rest_forward, hrest, List.drop_left]
  generalize c.forward ts.length = m at hts hm
  obtain ⟨e', m', hexpr, hg⟩ := gives_bind.mp hg
  obtain ⟨rfl, rfl⟩ := gives_expression hc h hts
    (stops_expression (.inr (by rw [peek_eq hm, hlast]))) hexpr
  unfold semicolon at hg
  rw [bind_assoc, gives_expect_bind] at hg
  simp only [pure_bind] at hg
  obtain ⟨rfl, rfl⟩ := gives_pure.mp hg.2
  have hadvance : m'.advance.rest = us := by rw [rest_advance, hm]; rfl
  exact ⟨rfl, past_append.mpr ⟨m', hts, past_cons.mpr ⟨by rw [hadvance, hm], past_nil.mpr rfl⟩⟩,
    hadvance⟩

end

/-! ### Statements -/

/-- What the parser returns is read off the pieces that it passes, up to a boundary. -/
def Carves {α : Type} (formed : α → List Piece → Prop) (p : Parser α) : Prop :=
  ∀ c d a xs, c.Proper → Spelled xs c.rest → Gives p c a d →
    ∃ ys zs, xs = ys ++ zs ∧ formed a ys ∧ Spelled zs d.rest ∧ d.Proper

/-- The parsers of inner statements carve them from their pieces. -/
structure Body.Carves (b : Body) : Prop where
  branch : ∀ t, Scriptlet.Carves Formed (b.branch t)
  block : ∀ t, Scriptlet.Carves Carved (b.block t)

section
variable {room : Nat} {b : Body} {c d : Cursor} {s : Stmt} {xs : List Piece}

/-- A chain of ifs behind its first keyword. -/
theorem carves_ifChain (hb : b.Carves) (bound : List Token) {opening closing : Token}
    {ts us : List Token} {e : Expr} {n : Nat} (hc : c.Proper)
    (hrest : c.rest = opening :: (ts ++ closing :: us)) (he : Phrase .expression ts e n)
    (hclose : closing.kind = .rightParen) (hxs : Spelled xs us)
    (hg : Gives (ifChain (expression room) b bound) c s d) :
    ∃ ys zs, xs = ys ++ zs ∧ Formed s (.ifHead e :: ys) ∧ Spelled zs d.rest ∧ d.Proper := by
  induction bound generalizing c xs opening closing ts us e n s with
  | nil => exact absurd (gives_peek_bind.mp hg) (not_gives ⟨_, rfl⟩)
  | cons _ bound ih =>
    rw [ifChain, gives_expect_bind] at hg
    obtain ⟨hopen, hg⟩ := hg
    have hts : c.Past (opening :: ts) (c.forward (ts.length + 1)) := by
      refine ⟨?_, rfl⟩
      rw [rest_forward, hrest, List.drop_succ_cons, List.drop_left]
      rfl
    obtain ⟨hfirst, hts⟩ := past_cons.mp hts
    have hm : (c.forward (ts.length + 1)).rest = closing :: us := by
      rw [rest_forward, hrest, List.drop_succ_cons, List.drop_left]
    generalize c.forward (ts.length + 1) = m at hts hm
    have hpeek : m.peek.kind = .rightParen := by rw [peek_eq hm, hclose]
    have hcm := hc.advance.past hts
    -- the condition, which is the same or is not read
    unfold arm at hg
    obtain ⟨e', k, hexpr, hg⟩ := gives_bind.mp hg
    obtain ⟨rfl, rfl⟩ := gives_expression hc.advance he hts
      (stops_expression (.inl hpeek)) hexpr
    rw [gives_expect_bind] at hg
    obtain ⟨-, hg⟩ := hg
    obtain ⟨yes, k', hyes, hg⟩ := gives_bind.mp hg
    obtain ⟨ys, zs, rfl, hformed, hzs, hck⟩ := hb.branch _ _ _ _ _ hcm.advance
      (hxs.advance hm) (gives_inward.mp hyes)
    unfold otherwise at hg
    rw [gives_peek_bind] at hg
    split at hg
    case isFalse =>
      obtain ⟨rfl, rfl⟩ := gives_pure.mp hg
      exact ⟨ys, zs, rfl, .ifThen hformed, hzs, hck⟩
    case isTrue helse =>
      obtain ⟨zs, rfl, hbehind⟩ := hzs.of_else hck.toDelimited helse
      rw [gives_skip_bind] at hg
      unfold elseArm at hg
      rw [gives_peek_bind] at hg
      have hca := hck.advance
      split at hg
      case isTrue hif =>
        rw [gives_skip_bind] at hg
        obtain ⟨no, l, hno, hg⟩ := gives_bind.mp hg
        obtain ⟨rfl, rfl⟩ := gives_pure.mp hg
        obtain ⟨e'', zs, _, _, _, _, _, rfl, hrest', -, he', hclose', hzs⟩ :=
          hbehind.of_if hca.toDelimited hif
        obtain ⟨ns, zs, rfl, hno, hzs, hl⟩ := ih hca.advance hrest' he' hclose' hzs hno
        refine ⟨ys ++ .elseWord :: .ifHead e'' :: ns, zs, ?_, .ifElse hformed hno, hzs, hl⟩
        rw [List.append_assoc]
        rfl
      case isFalse =>
        obtain ⟨no, l, hno, hg⟩ := gives_bind.mp hg
        obtain ⟨rfl, rfl⟩ := gives_pure.mp hg
        obtain ⟨ns, zs, rfl, hno, hzs, hl⟩ :=
          hb.branch _ _ _ _ _ hca hbehind (gives_inward.mp hno)
        refine ⟨ys ++ .elseWord :: ns, zs, ?_, .ifElse hformed hno, hzs, hl⟩
        rw [List.append_assoc]
        rfl

/-- A statement, whichever piece it begins with. -/
theorem carves_statement (hb : b.Carves) :
    Carves Formed (statementWith (expression room) b) := by
  intro c d s xs hc hxs hg
  unfold statementWith at hg
  rw [gives_peek_bind] at hg
  split at hg
  case h_1 | h_2 | h_3 => exact absurd hg (not_gives ⟨_, rfl⟩)
  case h_4 hk =>
    rw [gives_skip_bind] at hg
    obtain ⟨zs, rfl, hzs⟩ := hxs.of_opening hc.toDelimited hk
    obtain ⟨statements, m, hblock, hg⟩ := gives_bind.mp hg
    obtain ⟨ys, zs, rfl, hcarved, hzs, hm⟩ :=
      hb.block _ _ _ _ _ hc.advance hzs (gives_inward.mp hblock)
    rw [gives_expect_bind] at hg
    obtain ⟨hclose, hg⟩ := hg
    obtain ⟨rfl, rfl⟩ := gives_pure.mp hg
    obtain ⟨zs, rfl, hbehind⟩ := hzs.of_closing hm.toDelimited hclose
    refine ⟨.opening :: (ys ++ [.closing]), zs, ?_, .block hcarved, hbehind, hm.advance⟩
    simp only [List.cons_append, List.append_assoc, List.nil_append]
  case h_5 hk =>
    rw [gives_skip_bind] at hg
    obtain ⟨e, zs, ts, n, last, us, rfl, hrest, he, hlast, hzs⟩ := hxs.of_print hc.toDelimited hk
    obtain ⟨rfl, hpast, rfl⟩ := gives_ended hc.advance he hlast hrest hg
    exact ⟨[_], zs, rfl, .print, hzs, hc.advance.past hpast⟩
  case h_6 hk =>
    rw [gives_skip_bind, gives_unread_bind] at hg
    obtain ⟨e, zs, opening, ts, n, closing, us, rfl, hrest, -, he, hclose, hzs⟩ :=
      hxs.of_if hc.toDelimited hk
    obtain ⟨ys, zs, rfl, hs, hzs, hd⟩ := carves_ifChain hb _ hc.advance hrest he hclose hzs hg
    exact ⟨_ :: ys, zs, rfl, hs, hzs, hd⟩
  case h_7 =>
    cases hk : beginsPhrase c.peek.kind with
    | false => exact absurd hg (not_gives (stopped_bind (expression_stopped room hk) _))
    | true =>
      obtain ⟨e, zs, ts, n, last, us, rfl, he, hlast, hrest, hzs⟩ :=
        hxs.first_expression hc.toDelimited hk
      obtain ⟨rfl, hpast, rfl⟩ := gives_ended hc he hlast hrest hg
      exact ⟨[_], zs, rfl, .expression, hzs, hc.past hpast⟩

/-- A variable behind its keyword. -/
theorem gives_variable {name : Token} {initial : Option Expr} {us : List Token} (hc : c.Proper)
    (hrest : (∃ last, last.kind = .semicolon ∧ initial = none ∧ c.rest = name :: last :: us) ∨
      ∃ equal ts e n last, equal.kind = .equal ∧ Phrase .expression ts e n ∧
        last.kind = .semicolon ∧ initial = some e ∧ c.rest = name :: equal :: (ts ++ last :: us))
    (hg : Gives (variableWith (expression room)) c s d) :
    s = .declare name.text initial ∧ d.rest = us ∧ d.Proper := by
  unfold variableWith at hg
  rw [gives_expect_bind, gives_peek_bind] at hg
  obtain ⟨-, hg⟩ := hg
  obtain ⟨last, hlast, rfl, hrest⟩ | ⟨equal, ts, e, n, last, hequal, he, hlast, rfl, hrest⟩ := hrest
  · have hadvance : c.advance.rest = last :: us := by rw [rest_advance, hrest]; rfl
    rw [peek_eq hrest, peek_eq hadvance, if_neg (by rw [hlast]; decide)] at hg
    unfold semicolon at hg
    rw [bind_assoc, gives_expect_bind] at hg
    simp only [pure_bind] at hg
    obtain ⟨rfl, rfl⟩ := gives_pure.mp hg.2
    exact ⟨rfl, by rw [rest_advance, hadvance]; rfl, hc.advance.advance⟩
  · have hadvance : c.advance.rest = equal :: (ts ++ last :: us) := by rw [rest_advance, hrest]; rfl
    rw [peek_eq hrest, peek_eq hadvance, if_pos hequal, gives_skip_bind] at hg
    obtain ⟨rfl, hpast, rfl⟩ := gives_ended hc.advance.advance he hlast
      (by rw [rest_advance, hadvance]; rfl) hg
    exact ⟨rfl, rfl, hc.advance.advance.past hpast⟩

theorem carves_declaration (hb : b.Carves) :
    Carves Formed (declarationWith (expression room) b) := by
  intro c d s xs hc hxs hg
  unfold declarationWith at hg
  rw [gives_peek_bind] at hg
  split at hg
  case isFalse => exact carves_statement hb c d s xs hc hxs hg
  case isTrue hk =>
    rw [gives_skip_bind] at hg
    obtain ⟨name, initial, zs, us, rfl, hzs, -, hrest⟩ := hxs.of_let hc.toDelimited hk
    obtain ⟨rfl, rfl, hd⟩ := gives_variable hc.advance hrest hg
    exact ⟨[_], zs, rfl, .declare, hzs, hd⟩

end

/-! ### Declarations one behind the other -/

section
variable {inBlock : Bool} {p : Parser Stmt}

/-- Pieces that are passed over with a declaration that is left out. -/
theorem carves_recovering (hp : Carves Formed p) (hforward : Forward p) :
    Carves (fun o => Carved o.toList) (recovering inBlock p) := by
  intro c d o xs hc hxs hg
  cases ho : (p c).outcome with
  | ok s =>
    obtain ⟨hok, rfl⟩ := hg
    rw [recovering_of_ok ho] at hok ⊢
    cases hok
    obtain ⟨ys, zs, rfl, hs, hzs, hd⟩ := hp c _ s xs hc hxs ⟨ho, rfl⟩
    have hcarved := Carved.cons hs .nil
    rw [List.append_nil] at hcarved
    exact ⟨ys, zs, rfl, hcarved, hzs, hd⟩
  | error e =>
    obtain ⟨hok, rfl⟩ := hg
    rw [recovering_of_stop ho] at hok ⊢
    cases hok
    obtain ⟨us, hus⟩ := hforward c
    obtain ⟨vs, hvs⟩ := past_movedOn (p := p) c
    obtain ⟨ws, hws⟩ := past_resume inBlock (movedOn p c)
    have hmoved := past_append.mpr ⟨_, hus, hvs⟩
    obtain ⟨ys, zs, rfl, hzs⟩ := resume_spelled inBlock hxs hmoved
    have hcarved := Carved.nil.passAll ys
    rw [List.append_nil] at hcarved
    exact ⟨ys, zs, rfl, hcarved, hzs, hc.past (past_append.mpr ⟨_, hmoved, hws⟩)⟩

theorem carves_sequence {one : Parser (Option Stmt)} (h : Carves (fun o => Carved o.toList) one)
    (bound : List Token) : Carves Carved (sequence inBlock one bound) := by
  induction bound with
  | nil =>
    intro c d ss xs hc hxs hg
    obtain ⟨rfl, rfl⟩ := gives_pure.mp hg
    exact ⟨[], xs, rfl, .nil, hxs, hc⟩
  | cons t bound ih =>
    intro c d ss xs hc hxs hg
    cases hstop : sequenceStops inBlock c with
    | true =>
      have hnone : sequence inBlock one (t :: bound) c = (pure [] : Parser (List Stmt)) c :=
        sequence_stop hstop _
      obtain ⟨rfl, rfl⟩ := gives_pure.mp ((gives_congr hnone).mp hg)
      exact ⟨[], xs, rfl, .nil, hxs, hc⟩
    | false =>
      rw [gives_congr (sequence_go hstop t bound)] at hg
      obtain ⟨o, m, hone, hg⟩ := gives_bind.mp hg
      obtain ⟨more, k, hmore, hg⟩ := gives_bind.mp hg
      obtain ⟨rfl, rfl⟩ := gives_pure.mp hg
      obtain ⟨ys, zs, rfl, hfirst, hzs, hm⟩ := h c m o xs hc hxs hone
      obtain ⟨vs, zs, rfl, hmore, hzs, hk⟩ := ih m _ more zs hm hzs hmore
      exact ⟨ys ++ vs, zs, (List.append_assoc _ _ _).symm, hfirst.append hmore, hzs, hk⟩

end

/-! ### Levels -/

theorem carves_body (room : Nat) : (body room).Carves := by
  induction room with
  | zero => exact ⟨fun t c d s xs _ _ hg => absurd hg (not_gives ⟨_, rfl⟩),
      fun t c d ss xs _ _ hg => absurd hg (not_gives ⟨_, rfl⟩)⟩
  | succ room ih =>
    obtain ⟨hforward, -⟩ := declaration_facts room
    refine ⟨fun t => carves_statement ih, fun t c d ss xs hc hxs hg => ?_⟩
    rw [gives_congr (block_eq room t c)] at hg
    exact carves_sequence (carves_recovering (carves_declaration ih) hforward) _ c d ss xs hc hxs hg

/-- **The statements of a program are carved from its pieces**, whatever room there is. -/
theorem carves_program (room : Nat) {ts : Tokens} (h : (start ts).Proper) {xs : List Piece}
    (hxs : Spelled xs ts.body) : Carved (parseTokens room ts).statements xs := by
  obtain ⟨hforward, -⟩ := declaration_facts room
  have hcarves : Carves Carved (sequence false (declaration room) (start ts).rest) :=
    carves_sequence (carves_recovering (carves_declaration (carves_body room)) hforward) _
  obtain ⟨ss, hok⟩ := program_ok room (start ts)
  have hgives : Gives (program room) (start ts) ss _ := ⟨hok, rfl⟩
  rw [gives_congr (program_eq room (start ts))] at hgives
  obtain ⟨ys, zs, rfl, hcarved, -, -⟩ := hcarves _ _ ss xs h hxs hgives
  have hall := hcarved.append (Carved.nil.passAll zs)
  rw [List.append_nil, List.append_nil] at hall
  show Carved ((program room (start ts)).outcome.toOption.getD []) _
  rwa [hok]

end Scriptlet
