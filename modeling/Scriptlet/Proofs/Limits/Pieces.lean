import Scriptlet.Proofs.Faults.Isolation
import Scriptlet.Proofs.Parsing.Sequences

/-! The pieces of a program.

A program is a row of pieces: statements that hold no others, and what stands
around such statements, which is an if with its condition, an else, or a brace.
`Stmt.pieces` are the pieces of a tree and `Spelled` says which tokens they have.
Between two pieces there is a boundary. Wherever a parser has stopped in a row of
pieces, parsing resumes at a boundary (`resume_spelled`), since no token inside of
a piece begins a statement, closes a block or is a semicolon, but for the last.

`Carved statements pieces` says that statements can be read off a row of pieces
from left to right. Pieces may be passed over, but only before and after the
statements of a list. -/
namespace Scriptlet

open Scriptlet.Cursor

inductive Piece where
  /-- A statement that holds no other. -/
  | simple (s : Stmt)
  /-- An if, up to the parenthesis behind its condition. -/
  | ifHead (condition : Expr)
  | elseWord
  | opening
  | closing

/-! ### The pieces of statements -/

mutual

def Stmt.pieces : Stmt → List Piece
  | .expression e => [.simple (.expression e)]
  | .print e => [.simple (.print e)]
  | .declare name initial => [.simple (.declare name initial)]
  | .block body => .opening :: (bodyPieces body ++ [.closing])
  | .branch condition yes none => .ifHead condition :: yes.pieces
  | .branch condition yes (some no) =>
    .ifHead condition :: (yes.pieces ++ .elseWord :: no.pieces)

/-- The pieces of statements that stand one behind the other. -/
def bodyPieces : List Stmt → List Piece
  | [] => []
  | s :: rest => s.pieces ++ bodyPieces rest

end

/-! ### Statements read off pieces -/

mutual

/-- A statement is read off pieces, all of which belong to it but for those that are passed over
in its blocks. -/
inductive Formed : Stmt → List Piece → Prop
  | expression {e} : Formed (.expression e) [.simple (.expression e)]
  | print {e} : Formed (.print e) [.simple (.print e)]
  | declare {name initial} : Formed (.declare name initial) [.simple (.declare name initial)]
  | block {body xs} : Carved body xs → Formed (.block body) (.opening :: (xs ++ [.closing]))
  | ifThen {e yes xs} : Formed yes xs → Formed (.branch e yes none) (.ifHead e :: xs)
  | ifElse {e yes no xs ys} : Formed yes xs → Formed no ys →
      Formed (.branch e yes (some no)) (.ifHead e :: (xs ++ .elseWord :: ys))

/-- Statements are read off pieces one behind the other, and others are passed over. -/
inductive Carved : List Stmt → List Piece → Prop
  | nil : Carved [] []
  | pass {x xs ss} : Carved ss xs → Carved ss (x :: xs)
  | cons {s ss xs ys} : Formed s xs → Carved ss ys → Carved (s :: ss) (xs ++ ys)

end

theorem Carved.passAll {ss : List Stmt} {ys : List Piece} (h : Carved ss ys) (xs : List Piece) :
    Carved ss (xs ++ ys) := by
  induction xs with
  | nil => exact h
  | cons x xs ih => exact .pass ih

theorem Carved.append {ss ss' : List Stmt} {xs ys : List Piece} (h : Carved ss xs)
    (h' : Carved ss' ys) : Carved (ss ++ ss') (xs ++ ys) := by
  match h with
  | .nil => exact h'
  | .pass hss => exact .pass (hss.append h')
  | .cons hs hss =>
    rw [List.append_assoc]
    exact .cons hs (hss.append h')

mutual

/-- The pieces of a statement are some of those that it is read off. -/
theorem Formed.sublist {s : Stmt} {xs : List Piece} (h : Formed s xs) :
    s.pieces.Sublist xs := by
  match h with
  | .expression | .print | .declare => exact List.Sublist.refl _
  | .block hbody => exact (hbody.sublist.append (List.Sublist.refl _)).cons_cons _
  | .ifThen hyes => exact hyes.sublist.cons_cons _
  | .ifElse hyes hno => exact (hyes.sublist.append (hno.sublist.cons_cons _)).cons_cons _

/-- The pieces of carved statements are some of those that they are carved from. -/
theorem Carved.sublist {ss : List Stmt} {xs : List Piece} (h : Carved ss xs) :
    (bodyPieces ss).Sublist xs := by
  match h with
  | .nil => exact List.Sublist.refl _
  | .pass hss => exact hss.sublist.cons _
  | .cons hs hss => exact hs.sublist.append hss.sublist

end

/-! ### The tokens of pieces -/

/-- Which tokens make up a piece. -/
inductive Spells : Piece → List Token → Prop
  | expression {ts e n last} : Phrase .expression ts e n → last.kind = .semicolon →
      Spells (.simple (.expression e)) (ts ++ [last])
  | print {word ts e n last} : word.kind = .printWord → Phrase .expression ts e n →
      last.kind = .semicolon → Spells (.simple (.print e)) (word :: (ts ++ [last]))
  | declare {word name last} : word.kind = .letWord → name.kind = .identifier →
      last.kind = .semicolon → Spells (.simple (.declare name.text none)) [word, name, last]
  | define {word name equal ts e n last} : word.kind = .letWord → name.kind = .identifier →
      equal.kind = .equal → Phrase .expression ts e n → last.kind = .semicolon →
      Spells (.simple (.declare name.text (some e))) (word :: name :: equal :: (ts ++ [last]))
  | ifHead {word opening ts e n closing} : word.kind = .ifWord → opening.kind = .leftParen →
      Phrase .expression ts e n → closing.kind = .rightParen →
      Spells (.ifHead e) (word :: opening :: (ts ++ [closing]))
  | elseWord {t} : t.kind = .elseWord → Spells .elseWord [t]
  | opening {t} : t.kind = .leftBrace → Spells .opening [t]
  | closing {t} : t.kind = .rightBrace → Spells .closing [t]

/-- Which tokens make up a row of pieces. -/
inductive Spelled : List Piece → List Token → Prop
  | nil : Spelled [] []
  | cons {x xs ts us} : Spells x ts → Spelled xs us → Spelled (x :: xs) (ts ++ us)

theorem Spells.spelled {x : Piece} {ts : List Token} (h : Spells x ts) : Spelled [x] ts := by
  have := Spelled.cons h .nil
  rwa [List.append_nil] at this

theorem Spelled.append {xs ys : List Piece} {ts us : List Token} (h : Spelled xs ts)
    (h' : Spelled ys us) : Spelled (xs ++ ys) (ts ++ us) := by
  induction h with
  | nil => exact h'
  | cons hx _ ih =>
    rw [List.append_assoc]
    exact .cons hx ih

theorem bodyPieces_spelled {parts : List Part}
    (h : ∀ p ∈ parts, Spelled p.statement.pieces p.tokens) :
    Spelled (bodyPieces (parts.map Part.statement)) (Part.allTokens parts) := by
  induction parts with
  | nil => exact .nil
  | cons p parts ih =>
    obtain ⟨hp, hparts⟩ := List.forall_mem_cons.mp h
    rw [Part.allTokens_cons]
    exact hp.append (ih hparts)

/-- A sentence is spelled like the pieces of its tree. -/
theorem Sentence.spelled {clause : Clause} {ts : List Token} {s : Stmt} {n : Nat}
    (h : Sentence clause ts s n) : Spelled s.pieces ts := by
  induction h with
  | expression he hlast => exact (Spells.expression he hlast).spelled
  | print hword he hlast => exact (Spells.print hword he hlast).spelled
  | declare hword hname hlast => exact (Spells.declare hword hname hlast).spelled
  | define hword hname hequal he hlast => exact (Spells.define hword hname hequal he hlast).spelled
  | statement _ ih => exact ih
  | block hopen _ hclose ih =>
    exact .cons (.opening hopen) ((bodyPieces_spelled ih).append (Spells.closing hclose).spelled)
  | ifThen hword hopen he hclose _ ih =>
    have h := Spelled.cons (.ifHead hword hopen he hclose) ih
    simpa only [Stmt.pieces, List.cons_append, List.append_assoc, List.singleton_append,
      List.nil_append] using h
  | ifElse hword hopen he hclose _ _ hother _ ih ih' =>
    have h := Spelled.cons (.ifHead hword hopen he hclose)
      (ih.append (.cons (.elseWord hother) ih'))
    simpa only [Stmt.pieces, List.cons_append, List.append_assoc, List.singleton_append,
      List.nil_append] using h

/-! ### The first token -/

/-- The kind of token that a piece begins with, unless it is an expression. -/
def Piece.word? : Piece → Option Kind
  | .simple (.print _) => some .printWord
  | .simple (.declare ..) => some .letWord
  | .simple _ => none
  | .ifHead _ => some .ifWord
  | .elseWord => some .elseWord
  | .opening => some .leftBrace
  | .closing => some .rightBrace

theorem Spells.first {x : Piece} {ts : List Token} (h : Spells x ts) :
    ∃ t rest, ts = t :: rest ∧
      (x.word? = some t.kind ∨ x.word? = none ∧ beginsPhrase t.kind = true) := by
  cases h with
  | expression he =>
    obtain ⟨t, rest, rfl, hbegins⟩ := he.begins
    exact ⟨t, _, List.cons_append, .inr ⟨rfl, hbegins⟩⟩
  | print hk | declare hk | define hk | ifHead hk | elseWord hk | opening hk | closing hk =>
    exact ⟨_, _, rfl, .inl (by rw [hk]; rfl)⟩

/-- The first token of a row of pieces tells which piece is the first. -/
theorem Spelled.first {xs : List Piece} {c : Cursor} (h : Spelled xs c.rest) (hc : c.Delimited)
    (hne : c.peek.kind ≠ .eof) :
    ∃ x zs ts us, xs = x :: zs ∧ Spells x ts ∧ Spelled zs us ∧ c.rest = ts ++ us ∧
      (x.word? = some c.peek.kind ∨ x.word? = none ∧ beginsPhrase c.peek.kind = true) := by
  generalize hr : c.rest = rest at h
  cases h with
  | nil => exact absurd (hc.rest_eq_nil.mp hr) hne
  | @cons x zs ts us hx hzs =>
    obtain ⟨t, rest, rfl, hfirst⟩ := hx.first
    rw [← peek_eq hr] at hfirst
    exact ⟨x, zs, _, us, rfl, hx, hzs, rfl, hfirst⟩

theorem Spelled.first_word {xs : List Piece} {c : Cursor} (h : Spelled xs c.rest)
    (hc : c.Delimited) (hne : c.peek.kind ≠ .eof) (hk : beginsPhrase c.peek.kind = false) :
    ∃ x zs ts us, xs = x :: zs ∧ Spells x ts ∧ Spelled zs us ∧ c.rest = ts ++ us ∧
      x.word? = some c.peek.kind := by
  obtain ⟨x, zs, ts, us, hxs, hx, hzs, hrest, hfirst⟩ := h.first hc hne
  refine ⟨x, zs, ts, us, hxs, hx, hzs, hrest, hfirst.resolve_right fun h => ?_⟩
  rw [hk] at h
  cases h.2

theorem Spelled.first_expression {xs : List Piece} {c : Cursor} (h : Spelled xs c.rest)
    (hc : c.Delimited) (hk : beginsPhrase c.peek.kind = true) :
    ∃ e zs ts n last us, xs = .simple (.expression e) :: zs ∧ Phrase .expression ts e n ∧
      last.kind = .semicolon ∧ c.rest = ts ++ last :: us ∧ Spelled zs us := by
  have hne : c.peek.kind ≠ .eof := by
    intro heof
    rw [heof] at hk
    cases hk
  obtain ⟨x, zs, ts, us, hxs, hx, hzs, hrest, hfirst⟩ := h.first hc hne
  cases hx with
  | @expression ts e n last he hlast =>
    exact ⟨e, zs, ts, n, last, us, hxs, he, hlast, by rw [hrest, List.append_assoc]; rfl, hzs⟩
  | print | declare | define | ifHead | elseWord | opening | closing =>
    rcases hfirst with hword | ⟨hword, -⟩
    · rw [← Option.some.inj hword] at hk
      cases hk
    · cases hword

/-- A piece that is one token is behind the cursor once that is. -/
theorem Spelled.advance {c : Cursor} {t : Token} {us : List Token} {xs : List Piece}
    (h : Spelled xs us) (hrest : c.rest = t :: us) : Spelled xs c.advance.rest := by
  rw [Cursor.rest_advance, hrest]
  exact h

section
variable {xs : List Piece} {c : Cursor}

/-- A piece that is one token. -/
theorem Spelled.of_mark {x : Piece} (h : Spelled xs c.rest) (hc : c.Delimited)
    (hx : x = .elseWord ∨ x = .opening ∨ x = .closing) (hk : x.word? = some c.peek.kind) :
    ∃ zs, xs = x :: zs ∧ Spelled zs c.advance.rest := by
  have hkind : c.peek.kind ≠ .eof ∧ beginsPhrase c.peek.kind = false := by
    rcases hx with rfl | rfl | rfl <;> exact Option.some.inj hk ▸ ⟨by decide, rfl⟩
  obtain ⟨y, zs, ts, us, rfl, hy, hzs, hrest, hword⟩ := h.first_word hc hkind.1 hkind.2
  rw [← hk] at hword
  rcases hx with rfl | rfl | rfl <;> cases hy <;> cases hword <;>
    exact ⟨zs, rfl, hzs.advance hrest⟩

theorem Spelled.of_else (h : Spelled xs c.rest) (hc : c.Delimited)
    (hk : c.peek.kind = .elseWord) : ∃ zs, xs = .elseWord :: zs ∧ Spelled zs c.advance.rest :=
  h.of_mark hc (.inl rfl) (by rw [hk]; rfl)

theorem Spelled.of_opening (h : Spelled xs c.rest) (hc : c.Delimited)
    (hk : c.peek.kind = .leftBrace) : ∃ zs, xs = .opening :: zs ∧ Spelled zs c.advance.rest :=
  h.of_mark hc (.inr (.inl rfl)) (by rw [hk]; rfl)

theorem Spelled.of_closing (h : Spelled xs c.rest) (hc : c.Delimited)
    (hk : c.peek.kind = .rightBrace) : ∃ zs, xs = .closing :: zs ∧ Spelled zs c.advance.rest :=
  h.of_mark hc (.inr (.inr rfl)) (by rw [hk]; rfl)

theorem Spelled.of_if (h : Spelled xs c.rest) (hc : c.Delimited) (hk : c.peek.kind = .ifWord) :
    ∃ e zs opening ts n closing us, xs = .ifHead e :: zs ∧
      c.advance.rest = opening :: (ts ++ closing :: us) ∧ opening.kind = .leftParen ∧
      Phrase .expression ts e n ∧ closing.kind = .rightParen ∧ Spelled zs us := by
  obtain ⟨x, zs, ts, us, rfl, hx, hzs, hrest, hword⟩ :=
    h.first_word hc (by rw [hk]; decide) (by rw [hk]; rfl)
  rw [hk] at hword
  cases hx <;> cases hword
  case ifHead hopen he hclose =>
    refine ⟨_, zs, _, _, _, _, us, rfl, ?_, hopen, he, hclose, hzs⟩
    rw [Cursor.rest_advance, hrest]
    simp only [List.cons_append, List.append_assoc, List.nil_append, List.tail_cons]

theorem Spelled.of_print (h : Spelled xs c.rest) (hc : c.Delimited)
    (hk : c.peek.kind = .printWord) :
    ∃ e zs ts n last us, xs = .simple (.print e) :: zs ∧ c.advance.rest = ts ++ last :: us ∧
      Phrase .expression ts e n ∧ last.kind = .semicolon ∧ Spelled zs us := by
  obtain ⟨x, zs, ts, us, rfl, hx, hzs, hrest, hword⟩ :=
    h.first_word hc (by rw [hk]; decide) (by rw [hk]; rfl)
  rw [hk] at hword
  cases hx <;> cases hword
  case print he hlast =>
    refine ⟨_, zs, _, _, _, us, rfl, ?_, he, hlast, hzs⟩
    rw [Cursor.rest_advance, hrest]
    simp only [List.cons_append, List.append_assoc, List.nil_append, List.tail_cons]

theorem Spelled.of_let (h : Spelled xs c.rest) (hc : c.Delimited) (hk : c.peek.kind = .letWord) :
    ∃ name initial zs us, xs = .simple (.declare name.text initial) :: zs ∧ Spelled zs us ∧
      name.kind = .identifier ∧
      ((∃ last, last.kind = .semicolon ∧ initial = none ∧ c.advance.rest = name :: last :: us) ∨
        ∃ equal ts e n last, equal.kind = .equal ∧ Phrase .expression ts e n ∧
          last.kind = .semicolon ∧ initial = some e ∧
          c.advance.rest = name :: equal :: (ts ++ last :: us)) := by
  obtain ⟨x, zs, ts, us, rfl, hx, hzs, hrest, hword⟩ :=
    h.first_word hc (by rw [hk]; decide) (by rw [hk]; rfl)
  rw [hk] at hword
  cases hx <;> cases hword
  case declare hname hlast =>
    refine ⟨_, _, zs, us, rfl, hzs, hname, .inl ⟨_, hlast, rfl, ?_⟩⟩
    rw [Cursor.rest_advance, hrest]
    rfl
  case define hname hequal he hlast =>
    refine ⟨_, _, zs, us, rfl, hzs, hname, .inr ⟨_, _, _, _, _, hequal, he, hlast, rfl, ?_⟩⟩
    rw [Cursor.rest_advance, hrest]
    simp only [List.cons_append, List.append_assoc, List.nil_append, List.tail_cons]

end

/-! ### Inside of pieces -/

theorem isPlain_of_begins {kind : Kind} (h : beginsPhrase kind = true) : kind.isPlain = true := by
  cases kind <;> first | rfl | exact absurd h (by decide)

theorem Target.plain {ts : List Token} {name : String} {n : Nat} (h : Target ts name n) :
    ∀ t ∈ ts, t.kind.isPlain = true := by
  induction h with
  | name hk => exact List.forall_mem_singleton.mpr (by rw [hk]; rfl)
  | group hopen _ hclose ih =>
    rw [List.forall_mem_cons, List.forall_mem_append, List.forall_mem_singleton, hopen, hclose]
    exact ⟨rfl, ih, rfl⟩

theorem Joins.plain {rank : Nat} {kind : Kind} {node : Expr → Expr → Expr}
    (h : Joins rank kind node) : kind.isPlain = true := by
  cases h <;> rfl

/-- No token of an expression begins or ends anything else. -/
theorem Phrase.plain {level : Level} {ts : List Token} {e : Expr} {n : Nat}
    (h : Phrase level ts e n) : ∀ t ∈ ts, t.kind.isPlain = true := by
  induction h with
  | literal h => exact List.forall_mem_singleton.mpr (isPlain_of_begins h.begins)
  | group hopen _ hclose ih =>
    rw [List.forall_mem_cons, List.forall_mem_append, List.forall_mem_singleton, hopen, hclose]
    exact ⟨rfl, ih, rfl⟩
  | primary _ ih | operand _ ih | tighter _ ih | operation _ ih => exact ih
  | unary h _ ih => exact List.forall_mem_cons.mpr ⟨isPlain_of_begins h.begins, ih⟩
  | join _ hj _ ih ih' =>
    exact List.forall_mem_append.mpr ⟨ih, List.forall_mem_cons.mpr ⟨hj.plain, ih'⟩⟩
  | assign h hk _ ih =>
    exact List.forall_mem_append.mpr ⟨h.plain, List.forall_mem_cons.mpr ⟨by rw [hk]; rfl, ih⟩⟩

theorem skimmed_plain {inBlock : Bool} {ts us : List Token}
    (h : ∀ t ∈ ts, t.kind.isPlain = true) (hus : Skimmed inBlock us) :
    Skimmed inBlock (ts ++ us) := by
  refine skimmed_append (fun t ht => not_plain_semicolon (h t ht)) (fun t ht hk => ?_)
    (fun t ht => ?_) hus
  · have := h t ht
    rw [hk] at this
    cases this
  · cases hk : beginsStatement t.kind with
    | false => rfl
    | true =>
      have := h t ht
      rw [Kind.isPlain, hk] at this
      cases this

/-- Parsing resumes at no token of a piece but the first. -/
theorem Spells.skimmed {x : Piece} {ts : List Token} (h : Spells x ts) (inBlock : Bool) :
    ∃ t rest, ts = t :: rest ∧ t.kind ≠ .semicolon ∧ Skimmed inBlock rest := by
  cases h with
  | expression he hlast =>
    obtain ⟨t, rest, rfl, hbegins⟩ := he.begins
    refine ⟨t, _, List.cons_append, not_plain_semicolon (isPlain_of_begins hbegins), ?_⟩
    exact skimmed_plain (List.forall_mem_cons.mp he.plain).2 (.semicolon hlast)
  | print hword he hlast =>
    exact ⟨_, _, rfl, by rw [hword]; decide, skimmed_plain he.plain (.semicolon hlast)⟩
  | @declare word name last hword hname hlast =>
    have hplain : ∀ t ∈ [name], t.kind.isPlain = true :=
      List.forall_mem_singleton.mpr (by rw [hname]; rfl)
    exact ⟨_, _, rfl, by rw [hword]; decide, skimmed_plain hplain (.semicolon hlast)⟩
  | @define word name equal ts e n last hword hname hequal he hlast =>
    have hplain : ∀ t ∈ name :: equal :: ts, t.kind.isPlain = true := by
      rw [List.forall_mem_cons, List.forall_mem_cons, hname, hequal]
      exact ⟨rfl, rfl, he.plain⟩
    exact ⟨_, _, rfl, by rw [hword]; decide, skimmed_plain hplain (.semicolon hlast)⟩
  | @ifHead word opening ts e n closing hword hopen he hclose =>
    have hplain : ∀ t ∈ opening :: (ts ++ [closing]), t.kind.isPlain = true := by
      rw [List.forall_mem_cons, List.forall_mem_append, List.forall_mem_singleton, hopen, hclose]
      exact ⟨rfl, he.plain, rfl⟩
    refine ⟨_, _, rfl, by rw [hword]; decide, ?_⟩
    have hskimmed : Skimmed inBlock _ := skimmed_plain hplain .nil
    rwa [List.append_nil] at hskimmed
  | elseWord hk | opening hk | closing hk =>
    exact ⟨_, _, rfl, by rw [hk]; decide, .nil⟩

/-! ### Resuming at boundaries -/

namespace Cursor

variable {inBlock : Bool} {c d : Cursor}

/-- From a boundary parsing resumes at a boundary. -/
theorem resume_boundary (inBlock : Bool) {xs : List Piece} (h : Spelled xs c.rest) :
    ∃ ys zs, xs = ys ++ zs ∧ Spelled zs (c.resume inBlock).rest := by
  generalize hr : c.rest = rest at h
  induction h generalizing c with
  | nil => exact ⟨[], [], rfl, by rw [resume_nil hr, hr]; exact .nil⟩
  | @cons x xs ts us hx hxs ih =>
    obtain ⟨t, ts, rfl, hsemicolon, hskimmed⟩ := hx.skimmed inBlock
    cases hstop : resumesBefore inBlock c t with
    | true =>
      refine ⟨[], x :: xs, rfl, ?_⟩
      rw [resume_stop hr hstop, hr]
      exact .cons hx hxs
    | false =>
      have hadvance : c.advance.rest = ts ++ us := by rw [rest_advance, hr]; rfl
      have hafter : c.advance.afterSemicolon = false := by
        simp [Cursor.afterSemicolon, last_advance hr, hsemicolon]
      have hpast : c.advance.Past ts (c.advance.forward ts.length) :=
        ⟨by rw [rest_forward, hadvance, List.drop_left], rfl⟩
      obtain ⟨ys, zs, rfl, hzs⟩ := ih (c := c.advance.forward ts.length)
        (by rw [rest_forward, hadvance, List.drop_left])
      rw [resume_go hr hstop, resume_past hskimmed hpast (.inr hafter)]
      exact ⟨x :: ys, zs, rfl, hzs⟩

/-- **Parsing resumes at a boundary**, wherever it has stopped in a row of pieces. -/
theorem resume_spelled (inBlock : Bool) {xs : List Piece} {ts : List Token}
    (h : Spelled xs c.rest) (hpast : c.Past ts d) :
    ∃ ys zs, xs = ys ++ zs ∧ Spelled zs (d.resume inBlock).rest := by
  generalize hr : c.rest = rest at h
  induction h generalizing c ts with
  | nil =>
    obtain ⟨rfl, hnil⟩ := List.append_eq_nil_iff.mp (hpast.rest.symm.trans hr)
    exact ⟨[], [], rfl, by rw [resume_nil hnil, hnil]; exact .nil⟩
  | @cons x xs ps us hx hxs ih =>
    rcases List.append_eq_append_iff.mp (hpast.rest.symm.trans hr) with
      ⟨left, rfl, hleft⟩ | ⟨more, rfl, hmore⟩
    · obtain ⟨t, rest, htokens, hsemicolon, hskimmed⟩ := hx.skimmed inBlock
      cases ts with
      | nil =>
        obtain rfl := past_nil.mp hpast
        refine resume_boundary inBlock ?_
        rw [hr]
        exact .cons hx hxs
      | cons u ts =>
        -- inside of the piece, behind its first token
        obtain ⟨rfl, rfl⟩ := List.cons.inj htokens
        obtain ⟨hskimmed, hlast⟩ := hskimmed.rest
        have hleft' : d.Past left (d.forward left.length) :=
          ⟨by rw [rest_forward, hleft, List.drop_left], rfl⟩
        have hafter : left = [] ∨ d.afterSemicolon = false := by
          refine hlast.imp_right fun hlast => ?_
          rw [Cursor.afterSemicolon, hpast.last, List.getLast?_cons]
          cases hts : ts.getLast? with
          | none => simpa using hsemicolon
          | some v => simpa using hlast v hts
        rw [resume_past hskimmed hleft' hafter]
        obtain ⟨ys, zs, rfl, hzs⟩ := resume_boundary (c := d.forward left.length) inBlock
          (by rw [rest_forward, hleft, List.drop_left]; exact hxs)
        exact ⟨x :: ys, zs, rfl, hzs⟩
    · -- the whole piece was passed
      obtain ⟨m, hps, hmore'⟩ := past_append.mp hpast
      obtain ⟨ys, zs, rfl, hzs⟩ := ih hmore' (by rw [hmore'.rest, hmore])
      exact ⟨x :: ys, zs, rfl, hzs⟩

end Cursor

end Scriptlet
