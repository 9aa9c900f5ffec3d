import Scriptlet.Proofs.Faults.Declarations
import Scriptlet.Proofs.Faults.Enclosing

/-! A block for which there is no room is skipped as a whole.

The parser that is refused a block moves behind the brace that closes it and resumes
from there on, as behind everything that is malformed (`recovering_refused`). In
front of the block the declarations are the same without it: one that ends directly
before it ends with a brace or a semicolon, or was malformed and resumed behind a
semicolon (`recovering_joint`). `cutsAt_sequence` runs over the declarations of a
level, and `refused_block_skipped` is about whole lists of tokens. -/
namespace Scriptlet

open Scriptlet.Parser Scriptlet.Cursor

/-! ### Blocks that are skipped -/

/-- Tokens in which every brace that is opened is closed, and no other. -/
inductive Balanced : List Token → Prop
  | nil : Balanced []
  | token {t ts} : t.kind ≠ .leftBrace → t.kind ≠ .rightBrace → Balanced ts → Balanced (t :: ts)
  | block {opening us closing ts} : opening.kind = .leftBrace → Balanced us →
      closing.kind = .rightBrace → Balanced ts → Balanced (opening :: (us ++ closing :: ts))

/-- Skipping a block passes over them. -/
theorem Balanced.skipBlock {ts : List Token} (h : Balanced ts) (level : Nat) {c d : Cursor}
    (hpast : c.Past ts d) : c.skipBlock (level + 1) = d.skipBlock (level + 1) := by
  induction h generalizing level c d with
  | nil => rw [past_nil.mp hpast]
  | @token t ts hopen hclose _ ih =>
    obtain ⟨hrest, hts⟩ := past_cons.mp hpast
    have hlevel : levelBehind level t.kind = level + 1 := by
      unfold levelBehind
      split
      next hk => exact absurd hk hopen
      next hk => exact absurd hk hclose
      next => rfl
    rw [skipBlock_go hrest, hlevel]
    exact ih level hts
  | @block opening us closing ts hopen _ hclose _ ih ih' =>
    obtain ⟨hrest, hinner⟩ := past_cons.mp hpast
    obtain ⟨m, hus, hend⟩ := past_append.mp hinner
    obtain ⟨hrest', hts⟩ := past_cons.mp hend
    rw [skipBlock_go hrest, hopen]
    show c.advance.skipBlock (level + 1 + 1) = _
    rw [ih (level + 1) hus, skipBlock_go hrest', hclose]
    exact ih' level hts

/-- What is lost behind a block that is skipped: all up to where parsing resumes. -/
def Lost (inBlock : Bool) (lost left : List Token) : Prop :=
  Skimmed inBlock lost ∧ (left = [] ∨ (∃ t ∈ lost.getLast?, t.kind = .semicolon) ∨
    ∃ t ∈ left.head?, beginsStatement t.kind = true ∨ inBlock = true ∧ t.kind = .rightBrace)

namespace Omission

variable {x : Omission}

/-- What is missing is the block, up to the brace that closes it, and what is lost behind. -/
def Skips (x : Omission) (inBlock : Bool) : Prop :=
  ∃ inner closing lost, x.missing = inner ++ closing :: lost ∧ Balanced inner ∧
    closing.kind = .rightBrace ∧ Lost inBlock lost x.left

section
variable {inBlock : Bool} {room : Nat} {c d c' : Cursor}

/-- Where there is no room for the block, it is skipped, and what stands behind it is lost. -/
theorem recovering_refused (h : x.Skips inBlock) (hc : c.Delimited)
    (hrest : c.rest = x.opening :: (x.missing ++ x.left)) :
    ∃ d, recovering inBlock (declarationWith (expression 0) (body 0)) c =
      ⟨.ok none, d, [x.refusal], 3⟩ ∧ d.Delimited ∧ d.rest = x.left ∧ d.final = c.final := by
  obtain ⟨inner, closing, lost, hmissing, hbalanced, hclosing, hskimmed, hend⟩ := h
  have hpeek : c.peek = x.opening := peek_eq hrest
  have hadvance : c.advance.rest = (inner ++ [closing] ++ lost) ++ x.left := by
    rw [rest_advance, hrest, hmissing, List.append_cons]
    rfl
  have hall : c.advance.Past (inner ++ [closing] ++ lost)
      (c.advance.forward (inner ++ [closing] ++ lost).length) := by
    refine ⟨?_, rfl⟩
    rw [rest_forward, hadvance, List.drop_left]
  generalize c.advance.forward (inner ++ [closing] ++ lost).length = d at hall
  have hleft : d.rest = x.left := List.append_cancel_left (hall.rest.symm.trans hadvance)
  obtain ⟨k, hblock, hlost⟩ := past_append.mp hall
  have hskip : c.advance.skipBlock 1 = k := by
    obtain ⟨m, hinner, hlast⟩ := past_append.mp hblock
    obtain ⟨hm, hnil⟩ := past_cons.mp hlast
    rw [hbalanced.skipBlock 0 hinner, skipBlock_go hm, hclosing, past_nil.mp hnil]
    exact skipBlock_zero
  have hrefused : (body 0).block c.peek c.advance = ⟨.error x.refusal, k, [], 0⟩ := by
    show refuse c.peek .tooMuchNesting (c.advance.skipBlock 1) = _
    rw [hskip, hpeek]
    rfl
  have hbrace : c.peek.kind = .leftBrace := by rw [hpeek, x.brace]
  have hstatement : declarationWith (expression 0) (body 0) c = ⟨.error x.refusal, k, [], 3⟩ := by
    rw [declarationWith, peek_bind, if_neg (by rw [hbrace]; decide),
      statement_block_refused hbrace (by rw [hrefused]), hrefused]
  have hmoved : movedOn (declarationWith (expression 0) (body 0)) c = k := by
    have hlen := hblock.length
    rw [rest_advance, List.length_tail, List.length_append, List.length_singleton] at hlen
    rw [movedOn, hstatement, if_neg (by show k.rest.length ≠ _; omega)]
  have hk : k.afterSemicolon = false := by
    rw [Cursor.afterSemicolon, hblock.last, List.getLast?_concat]
    show (closing.kind == .semicolon) = false
    rw [hclosing]
    rfl
  have hresumed : d.Resumed inBlock := by
    rcases hend with hnil | ⟨t, ht, hsemicolon⟩ | ⟨t, ht, hstop⟩
    · exact .inl (hleft.trans hnil)
    · right
      left
      rw [Cursor.afterSemicolon, hlost.last, Option.mem_def.mp ht]
      exact beq_iff_eq.mpr hsemicolon
    · obtain ⟨left, hcons⟩ := List.head?_eq_some_iff.mp ht
      rw [← peek_eq (hleft.trans hcons)] at hstop
      exact .inr (.inr hstop)
  have hpast := past_append.mpr ⟨_, hc.past_peek (by rw [hbrace]; decide), hall⟩
  refine ⟨d, ?_, hc.past hpast, hleft, hpast.final⟩
  rw [recovering_of_stop (by rw [hstatement]), hmoved,
    resume_skimmed hskimmed hlost (.inr hk) hresumed, hstatement]
  rfl

/-- Where there is room for the block it is not refused. -/
theorem refusal_not_mem_opened (hc : c.Delimited)
    (hrest : c.rest = x.opening :: (x.missing ++ x.left)) :
    x.refusal ∉ (recovering inBlock
      (declarationWith (expression (room + 1)) (body (room + 1))) c).noted := by
  have hbrace : c.peek.kind = .leftBrace := by rw [peek_eq hrest, x.brace]
  have hadvance : c.advance.rest = x.missing ++ x.left := by rw [rest_advance, hrest]; rfl
  obtain ⟨ss, hok⟩ := block_ok room c.peek c.advance
  have hinner : x.refusal ∉ ((body (room + 1)).block c.peek c.advance).noted := by
    intro hmet
    rw [block_eq] at hmet
    refine x.once (hadvance ▸ ahead_of_noted (fun move hm => ?_) hc.advance (Nat.le_refl _)
      (Nat.le_refl _) hmet)
    exact tracks_sequence_room hm room true c.advance.rest c.advance.rest
  have hstatement : declarationWith (expression (room + 1)) (body (room + 1)) c =
      statementWith (expression (room + 1)) (body (room + 1)) c := by
    rw [declarationWith, peek_bind, if_neg (by rw [hbrace]; decide)]
  by_cases hclose : ((body (room + 1)).block c.peek c.advance).cursor.peek.kind = .rightBrace
  · have hclosed := hstatement.trans (statement_block_closed hbrace hok hclose)
    rwa [recovering_of_ok (by rw [hclosed]), hclosed]
  · have hunclosed := hstatement.trans (statement_block_unclosed hbrace hok hclose)
    rw [recovering_of_stop (by rw [hunclosed]), hunclosed]
    intro hmet
    rcases List.mem_append.mp hmet with hmet | hmet
    · exact hinner hmet
    · cases List.mem_singleton.mp hmet

end

/-! ### Declarations in front of the block -/

section
variable {inBlock : Bool} {room : Nat} {ts : List Token} {c d c' d' : Cursor}

theorem Apart.follows (h : x.Apart [] c c') : c'.peek.kind ≠ .elseWord := by
  have hleft : c'.rest = x.left := h.rest'
  cases hcons : x.left with
  | nil =>
    rw [h.delimited'.rest_eq_nil.mp (hleft.trans hcons)]
    decide
  | cons t left =>
    rw [peek_eq (hleft.trans hcons)]
    exact x.follows t (by rw [hcons]; rfl)

/-- A malformed declaration behind which parsing resumes directly before the block: a semicolon
is there, and the declaration has stopped before that. -/
theorem resumed_joint (h : x.Apart ts c c') (hne : ts ≠ []) (hend : x.Apart [] d d')
    (hts : c.Past ts d) {e : Diagnostic}
    (ho : (declarationWith (expression room) (body room) c).outcome = .error e)
    (hd : (movedOn (declarationWith (expression room) (body room)) c).resume inBlock = d) :
    (∃ t ∈ ts.getLast?, t.kind = .semicolon) ∧ ∃ us vs, ts = us ++ vs ∧ vs ≠ [] ∧
      c.Past us (declarationWith (expression room) (body room) c).cursor ∧
      (declarationWith (expression room) (body room) c).cursor.Past vs d := by
  have hbrace : d.peek.kind = .leftBrace := by rw [hend.peek_nil, x.brace]
  have hresumed :=
    resumed_resume inBlock (movedOn (declarationWith (expression room) (body room)) c)
  rw [hd] at hresumed
  have hsemicolon : ∃ t ∈ ts.getLast?, t.kind = .semicolon := by
    rcases hresumed with hnil | hafter | hword | ⟨-, hclose⟩
    · rw [hend.delimited.rest_eq_nil.mp hnil] at hbrace
      cases hbrace
    · rw [Cursor.afterSemicolon, hts.last, List.getLast?_eq_some_getLast hne] at hafter
      exact ⟨_, List.getLast?_eq_some_getLast hne, eq_of_beq hafter⟩
    · rw [hbrace] at hword
      cases hword
    · rw [hbrace] at hclose
      cases hclose
  obtain ⟨us, hus, -, herror⟩ := course_declaration room h.delimited
  obtain ⟨vs, hvs⟩ := past_movedOn (p := declarationWith (expression room) (body room)) c
  obtain ⟨ws, hws⟩ :=
    past_resume inBlock (movedOn (declarationWith (expression room) (body room)) c)
  rw [hd] at hws
  have hrest := past_append.mpr ⟨_, hvs, hws⟩
  have hall := past_unique hts (past_append.mpr ⟨_, hus, hrest⟩)
  refine ⟨hsemicolon, us, vs ++ ws, hall, fun hnil => ?_, hus, hrest⟩
  obtain ⟨t, ht, hk⟩ := hsemicolon
  rw [hnil] at hall hrest
  rw [List.append_nil] at hall
  rcases (herror e ho).stops with hlast | ⟨heof, -⟩
  · exact hlast t (hall ▸ ht) hk
  · rw [← past_nil.mp hrest, hbrace] at heof
    cases heof

/-- A declaration that ends directly before the block ends there without it. -/
theorem recovering_joint (h : x.Apart ts c c') (hne : ts ≠ []) (hend : x.Apart [] d d')
    (hts : c.Past ts d) (hts' : c'.Past ts d')
    (hd : (recovering inBlock (declarationWith (expression room) (body room)) c).cursor = d) :
    recovering inBlock (declarationWith (expression room) (body room)) c' =
      { recovering inBlock (declarationWith (expression room) (body room)) c with
        cursor := d' } := by
  have hc := h.delimited
  have hc' := h.delimited'
  cases ho : (declarationWith (expression room) (body room) c).outcome with
  | ok s =>
    rw [recovering_of_ok ho] at hd ⊢
    have hpassed : Passed id c (declarationWith (expression room) (body room) c).cursor c' d' :=
      ⟨ts, by rwa [hd], by rwa [List.map_id]⟩
    have hsame := (completes_declaration_room relocates_id room _ _).completes c c' hc hc'
      (Nat.le_refl _) (Nat.le_refl _) s d' ho hpassed (by rw [hd, hend.peek_nil, x.brace]; decide)
      hend.follows
    rw [relocate_id] at hsame
    rw [recovering_of_ok (by rw [hsame, ho]), hsame]
  | error e =>
    rw [recovering_of_stop ho] at hd ⊢
    have hd : (movedOn (declarationWith (expression room) (body room)) c).resume inBlock = d := hd
    obtain ⟨⟨t, ht, hk⟩, us, vs, rfl, hne, hus, hvs⟩ := resumed_joint h hne hend hts ho hd
    -- it stops where the same token is ahead
    obtain ⟨m', hus', hvs'⟩ := past_append.mp hts'
    have hpeek := Option.some.inj ((hvs'.head hne).symm.trans (hvs.head hne))
    have hsame := (tracks_declaration_room relocates_id room _ _).agrees c c' m' hc hc'
      (Nat.le_refl _) (Nat.le_refl _) ⟨us, hus, by rwa [List.map_id], hpeek⟩
    rw [relocate_id] at hsame
    have hshown : Shown id c (declarationWith (expression room) (body room) c).cursor c'
        (declarationWith (expression room) (body room) c').cursor :=
      ⟨us, hus, by rwa [hsame, List.map_id], by rwa [hsame]⟩
    obtain ⟨ys, hys, hmoved, hmoved'⟩ := exists_movedOn hshown hc hc' h.rest_ne_nil
    -- and behind it the same tokens are passed over
    obtain ⟨zs, hzs, hskimmed, hfirst⟩ :=
      skimmed_resume inBlock (movedOn (declarationWith (expression room) (body room)) c)
    rw [hd] at hzs
    have hall := past_unique hts (past_append.mpr ⟨_, hmoved, hzs⟩)
    rw [hall] at hts' ht
    obtain ⟨m, hm, hzs'⟩ := past_append.mp hts'
    obtain rfl := hm.eq.trans hmoved'.eq.symm
    have hafter' : d'.afterSemicolon = true := by
      rw [Cursor.afterSemicolon, hts'.last, Option.mem_def.mp ht]
      exact beq_iff_eq.mpr hk
    have hresume := resume_skimmed hskimmed hzs' (hfirst.imp_right fun hlast => ?_)
      (.inr (.inl hafter'))
    · rw [recovering_of_stop (by rw [hsame, ho]), hresume, hsame]
    · rw [Cursor.afterSemicolon, hmoved.last, List.getLast?_eq_some_getLast hys] at hlast
      rwa [Cursor.afterSemicolon, hmoved'.last, List.getLast?_eq_some_getLast hys]

/-- A declaration in front of the block with which parsing does not pass the block. -/
theorem recovering_before (h : x.Apart ts c c') (hne : ts ≠ [])
    (hmem : x.opening ∈
      (recovering inBlock (declarationWith (expression room) (body room)) c).cursor.rest) :
    ∃ us d', recovering inBlock (declarationWith (expression room) (body room)) c' =
        { recovering inBlock (declarationWith (expression room) (body room)) c with cursor := d' } ∧
      x.Apart us
        (recovering inBlock (declarationWith (expression room) (body room)) c).cursor d' := by
  have htracks (m n : Nat) :=
    tracks_recovering relocates_id inBlock (tracks_declaration_room relocates_id room m n)
  obtain ⟨us, hus⟩ := (htracks 0 0).forward c
  obtain ⟨vs, d', rfl, hus', hvs⟩ := h.split hus hmem
  refine ⟨vs, d', ?_, hvs⟩
  by_cases hnil : vs = []
  · subst hnil
    rw [List.append_nil] at h hne
    exact recovering_joint h hne hvs hus hus' rfl
  · have hshown : Shown id c _ c' d' := ⟨us, hus, by rwa [List.map_id], hvs.peek hnil⟩
    have hsame := (htracks _ _).agrees c c' d' h.delimited h.delimited' (Nat.le_refl _)
      (Nat.le_refl _) hshown
    rwa [relocate_id] at hsame

/-- A declaration in front of the block is not refused for the block. -/
theorem outcome_ne_refusal (h : x.Apart ts c c') (hne : ts ≠ []) :
    (declarationWith (expression room) (body room) c).outcome ≠ .error x.refusal := by
  intro ho
  obtain ⟨us, hus, -, herror⟩ := course_declaration room h.delimited
  have hstopped := herror _ ho
  have hopening := x.brace
  generalize (declarationWith (expression room) (body room) c).cursor = d at hus hstopped
  generalize (declarationWith (expression room) (body room) c).noted = noted at hstopped
  generalize hnext : d.peek = next at hstopped
  generalize he : x.refusal = e at hstopped
  cases hstopped with
  | ahead _ _ hn => exact hn (congrArg Diagnostic.fault he).symm
  | @behind _ _ _ t _ _ _ ht =>
    exact isPlain_ne_brace ht (congrArg Diagnostic.token he).symm
  | @noRoom _ _ t _ _ ht => exact opening_ne ht (by decide) (congrArg Diagnostic.token he).symm
  | unsupported | unclosed => cases congrArg Diagnostic.fault he
  | @refused us _ vs opening _ _ hstart _ _ =>
    obtain ⟨m, hm, hvs⟩ := past_append.mp hus
    obtain rfl : x.opening = opening := congrArg Diagnostic.token he
    have hrest := (past_cons.mp hvs).1
    obtain ⟨ws, d', rfl, -, hws⟩ := h.split hm (by rw [hrest]; exact List.mem_cons_self)
    cases ws with
    | nil =>
      rw [List.append_nil] at h hne
      have hlast := List.getLast?_eq_some_getLast hne
      obtain ⟨hparen, helse⟩ := h.begins _ hlast
      exact (hstart _ hlast).elim hparen helse
    | cons w ws =>
      obtain ⟨rfl, -⟩ := List.cons.inj (hrest.symm.trans hws.rest)
      exact hws.once List.mem_cons_self

/-- A declaration that is malformed stops at the end or not behind a semicolon. -/
theorem stopped_last {d : Cursor} (hc : c.Delimited) {e : Diagnostic}
    (ho : (declarationWith (expression room) (body room) c).outcome = .error e)
    (hd : (declarationWith (expression room) (body room) c).cursor = d)
    (hlt : d.rest.length < c.rest.length) : d.rest = [] ∨ d.afterSemicolon = false := by
  obtain ⟨us, hus, -, herror⟩ := course_declaration room hc
  have hstopped := herror e ho
  rw [hd] at hus hstopped
  rcases hstopped.stops with hlast | ⟨heof, -⟩
  · right
    have hne : us ≠ [] := by
      intro hnil
      have hlen := hus.length
      rw [hnil, List.length_nil] at hlen
      omega
    have hus_last := List.getLast?_eq_some_getLast hne
    rw [Cursor.afterSemicolon, hus.last, hus_last]
    exact beq_eq_false_iff_ne.mpr (hlast _ hus_last)
  · exact .inl ((hc.past hus).rest_eq_nil.mpr heof)

/-- Behind the block parsing moves on in the same way. -/
theorem resumed_behind (h : x.Apart ts c c') (hne : ts ≠ []) {e : Diagnostic}
    (ho : (declarationWith (expression room) (body room) c).outcome = .error e)
    (hcuts : x.Cuts (declarationWith (expression room) (body room) c)
      (declarationWith (expression room) (body room) c')) :
    ((movedOn (declarationWith (expression room) (body room)) c').resume inBlock).ahead =
        ((movedOn (declarationWith (expression room) (body room)) c).resume inBlock).ahead ∧
      ((movedOn (declarationWith (expression room) (body room)) c).resume inBlock).rest.length ≤
        x.left.length := by
  have hpassed := hcuts.passed
  obtain ⟨us, hus, -⟩ := course_declaration room h.delimited
  obtain ⟨hlen, hlen'⟩ := h.length
  have hpos := List.length_pos_iff.mpr hne
  have hsame : (declarationWith (expression room) (body room) c').cursor.rest =
      (declarationWith (expression room) (body room) c).cursor.rest :=
    congrArg Tokens.body hcuts.ahead
  have hmoved : movedOn (declarationWith (expression room) (body room)) c =
      (declarationWith (expression room) (body room) c).cursor :=
    if_neg (by omega)
  have hmoved' : movedOn (declarationWith (expression room) (body room)) c' =
      (declarationWith (expression room) (body room) c').cursor :=
    if_neg (by rw [hsame]; omega)
  have hlast := stopped_last h.delimited ho rfl (by omega)
  have hlast' := stopped_last h.delimited' (hcuts.outcome.trans ho) rfl (by rw [hsame]; omega)
  rw [hmoved, hmoved']
  refine ⟨ahead_resume (h.delimited.past hus) hcuts.ahead ?_, ?_⟩
  · rcases hlast with hnil | hlast
    · exact .inl hnil
    · rcases hlast' with hnil | hlast'
      · exact .inl (hsame ▸ hnil)
      · exact .inr (by rw [hlast, hlast'])
  · obtain ⟨vs, hvs⟩ := past_resume inBlock (declarationWith (expression room) (body room) c).cursor
    have hlen := hvs.length
    omega

/-- A declaration that begins before the block. -/
theorem cutsAt_recovering (hb : x.Fits (body room)) (h : x.Apart ts c c') (hne : ts ≠ []) :
    x.CutsAt (recovering inBlock (declarationWith (expression room) (body room)))
      (recovering inBlock (declarationWith (expression room) (body room))) c c' := by
  intro hmet
  cases ho : (declarationWith (expression room) (body room) c).outcome with
  | ok s =>
    rw [recovering_of_ok ho] at hmet ⊢
    have hcuts := cutsAt_declaration hb h hne hmet
    rw [recovering_of_ok (hcuts.outcome.trans ho)]
    exact ⟨rfl, hcuts.ahead, hcuts.passed, hcuts.noted, hcuts.frames⟩
  | error e =>
    rw [recovering_of_stop ho] at hmet ⊢
    have hmet : x.refusal ∈ (declarationWith (expression room) (body room) c).noted := by
      refine (List.mem_append.mp hmet).resolve_right fun hmem => ?_
      rw [← List.mem_singleton.mp hmem] at ho
      exact outcome_ne_refusal h hne ho
    have hcuts := cutsAt_declaration hb h hne hmet
    obtain ⟨hahead, hpassed⟩ := resumed_behind h hne ho hcuts
    obtain ⟨before, behind, hnoted, hnoted'⟩ := hcuts.noted
    rw [recovering_of_stop (hcuts.outcome.trans ho)]
    refine ⟨rfl, hahead, hpassed, ⟨before, behind ++ [e], ?_, ?_⟩, hcuts.frames⟩
    · show (declarationWith (expression room) (body room) c).noted ++ [e] = _
      rw [hnoted, List.append_assoc]
      rfl
    · show (declarationWith (expression room) (body room) c').noted ++ [e] = _
      rw [hnoted', List.append_assoc]

theorem sequenceStops_apart (h : x.Apart ts c c') (hne : ts ≠ []) :
    sequenceStops inBlock c' = sequenceStops inBlock c := by
  obtain ⟨t, ts, rfl⟩ := List.exists_cons_of_ne_nil hne
  rw [sequenceStops, sequenceStops, h.rest, h.rest', h.peek hne]
  rfl

/-- The block is the first of the declarations. -/
theorem cutsAt_sequence_block (hskips : room = 0 → x.Skips inBlock) (t : Token)
    (bound bound' : List Token) (h : x.Apart [] c c') (hlen : c.rest.length ≤ bound.length + 1)
    (hlen' : c'.rest.length ≤ bound'.length) (hstop : sequenceStops inBlock c = false) :
    x.CutsAt
      (sequence inBlock (recovering inBlock (declarationWith (expression room) (body room)))
        (t :: bound))
      (sequence inBlock (recovering inBlock (declarationWith (expression room) (body room))) bound')
      c c' := by
  intro hmet
  have hleft : c'.rest = x.left := h.rest'
  have hmissing := h.length.1
  cases room with
  | zero =>
    obtain ⟨d, hone, hd, hrest, hfinal⟩ := recovering_refused (hskips rfl) h.delimited h.rest
    have hahead : c'.ahead = d.ahead := by
      rw [Cursor.ahead, Cursor.ahead, hleft, hrest, h.final, hfinal]
    obtain ⟨d', hsame, hahead'⟩ :=
      (tracks_sequence_room relocates_id 0 inBlock bound bound').ahead hd
        (by rw [hrest]; omega) (by rwa [hrest, ← hleft]) hahead
    have hlen₁ := (tracks_sequence_room relocates_id 0 inBlock bound bound').forward.length_le d
    rw [sequence_step hstop hone, hsame]
    refine ⟨?_, hahead', by rwa [hrest] at hlen₁, ⟨[], _, rfl, rfl⟩, Nat.le_max_right _ _⟩
    show _ = Except.map _ _
    cases (sequence inBlock (recovering inBlock (declarationWith (expression 0) (body 0))) bound
      d).outcome <;> rfl
  | succ room =>
    obtain ⟨hforward, hconsumes⟩ := declaration_facts (room + 1)
    have hprogresses := progresses_recovering inBlock hforward hconsumes
    obtain ⟨us, hus⟩ := forward_recovering inBlock hforward c
    have hless := hprogresses c h.delimited h.rest_ne_nil
    obtain ⟨ss, hstep⟩ := sequence_recovering
      (p := declarationWith (expression (room + 1)) (body (room + 1))) hstop t bound
    rw [hstep] at hmet
    rcases List.mem_append.mp hmet with hmet | hmet
    · exact absurd hmet (refusal_not_mem_opened h.delimited h.rest)
    · have hmem := ahead_of_noted
        (fun move hm => tracks_sequence_room hm (room + 1) inBlock bound bound)
        (h.delimited.past hus) (by omega) (by omega) hmet
      obtain ⟨vs, d', hnil, -, hvs⟩ := h.split hus hmem
      obtain ⟨rfl, rfl⟩ := List.append_eq_nil_iff.mp hnil.symm
      rw [past_nil.mp hus] at hless
      exact absurd hless (Nat.lt_irrefl _)

/-- **Declarations up to and behind the block** are the same without it, but for the one
diagnostic. -/
theorem cutsAt_sequence (hb : x.Fits (body room)) (hskips : room = 0 → x.Skips inBlock)
    (bound bound' : List Token) (h : x.Apart ts c c') (hlen : c.rest.length ≤ bound.length)
    (hlen' : c'.rest.length ≤ bound'.length) :
    x.CutsAt
      (sequence inBlock (recovering inBlock (declarationWith (expression room) (body room))) bound)
      (sequence inBlock (recovering inBlock (declarationWith (expression room) (body room))) bound')
      c c' := by
  obtain ⟨hforward, hconsumes⟩ := declaration_facts room
  have hprogresses := progresses_recovering inBlock hforward hconsumes
  induction bound generalizing bound' ts c c' with
  | nil => exact absurd (List.length_eq_zero_iff.mp (Nat.le_zero.mp hlen)) h.rest_ne_nil
  | cons t bound ih =>
    cases hstop : sequenceStops inBlock c with
    | true => exact cutsAt_of_noted (by rw [sequence_stop hstop])
    | false =>
      by_cases hne : ts = []
      · subst hne
        exact cutsAt_sequence_block hskips t bound bound' h hlen hlen' hstop
      obtain ⟨hlen₁, hlen₁'⟩ := h.length
      have hpos := List.length_pos_iff.mpr hne
      cases bound' with
      | nil =>
        rw [List.length_nil] at hlen'
        omega
      | cons t' bound' =>
        rw [List.length_cons] at hlen hlen'
        have hrest {move : Token → Token} (hm : Relocates move) (bound bound' : List Token)
            (first : Option Stmt) :=
          (tracks_sequence_room hm room inBlock bound bound').seq fun more =>
            tracks_pure (h := id) (first.toList ++ more)
        rw [CutsAt, sequence_go hstop, sequence_go ((sequenceStops_apart h hne).trans hstop)]
        intro hmet
        obtain ⟨us, hus⟩ := forward_recovering inBlock hforward c
        by_cases hfirst : x.refusal ∈
            (recovering inBlock (declarationWith (expression room) (body room)) c).noted
        · -- the block is met by the first declaration
          exact (cutsAt_recovering hb h hne hfirst).bind (h.delimited.past hus)
            (hrest relocates_id bound bound') (by omega) (by omega)
        · -- the block is met behind it
          obtain ⟨first, ho⟩ :=
            recovering_ok inBlock (declarationWith (expression room) (body room)) c
          rw [bind_ok ho] at hmet
          have hmet := (List.mem_append.mp hmet).resolve_left hfirst
          have hless := hprogresses c h.delimited h.rest_ne_nil
          have hmem := ahead_of_noted (fun move hm => hrest hm bound bound first)
            (h.delimited.past hus) (by omega) (by omega) hmet
          obtain ⟨vs, d', hsame, hvs⟩ := recovering_before h hne hmem
          have hless' := hprogresses c' h.delimited' (List.ne_nil_of_length_pos (by omega))
          rw [hsame] at hless'
          have hless' : d'.rest.length < c'.rest.length := hless'
          have hmore := cutsAt_map (first.toList ++ ·) (ih bound' hvs (by omega) (by omega))
            (tracks_sequence_room relocates_id room inBlock bound bound').forward hvs.delimited
          exact (hmore hmet).behind ho hsame

end

/-! ### Levels -/

theorem fits_body (room : Nat) (h : 0 < room → x.Skips true) : x.Fits (body room) := by
  induction room with
  | zero => exact ⟨fun _ _ _ _ _ _ => cutsAt_of_noted rfl, fun _ _ _ _ _ => cutsAt_of_noted rfl⟩
  | succ room ih =>
    have hskips := h (Nat.succ_pos room)
    have hb := ih fun _ => hskips
    refine ⟨fun t ts c c' => cutsAt_statement hb, fun t ts c c' hapart => ?_⟩
    rw [CutsAt, block_eq, block_eq]
    exact cutsAt_sequence hb (fun _ => hskips) _ _ hapart (Nat.le_refl _) (Nat.le_refl _)

end Omission

/-- Behind the brace that closes a block all is lost up to where parsing resumes. -/
theorem lost_resume (inBlock : Bool) {closing : Token} (hclosing : closing.kind = .rightBrace)
    (after : List Token) (final : Token) :
    ∃ lost, after = lost ++ ((⟨some closing, after, final⟩ : Cursor).resume inBlock).rest ∧
      Lost inBlock lost ((⟨some closing, after, final⟩ : Cursor).resume inBlock).rest := by
  obtain ⟨lost, hlost, hskimmed, -⟩ := skimmed_resume inBlock ⟨some closing, after, final⟩
  refine ⟨lost, hlost.rest, hskimmed, ?_⟩
  have hresumed := resumed_resume inBlock ⟨some closing, after, final⟩
  generalize (⟨some closing, after, final⟩ : Cursor).resume inBlock = d at hlost hresumed
  cases hleft : d.rest with
  | nil => exact .inl rfl
  | cons t left =>
    rcases hresumed with hnil | hafter | hstop
    · rw [hleft] at hnil
      cases hnil
    · right
      left
      rw [Cursor.afterSemicolon, hlost.last] at hafter
      cases hlast : lost.getLast? with
      | none =>
        rw [hlast] at hafter
        have hbrace : (closing.kind == .semicolon) = true := hafter
        rw [hclosing] at hbrace
        cases hbrace
      | some u =>
        rw [hlast] at hafter
        exact ⟨u, rfl, eq_of_beq hafter⟩
    · rw [peek_eq hleft] at hstop
      exact .inr (.inr ⟨t, rfl, hstop⟩)

/-- **A block for which there is no room is skipped as a whole**, for every limit: parsing resumes
behind its closing brace, as it does behind everything that is malformed. The statements are those
of the tokens without the block and without what is passed over there, and the diagnostics are
those but for the one that the block is refused. The block begins a declaration, so that no
parenthesis and no else stand before it; and no else is where parsing resumes. -/
theorem refused_block_skipped (limit : Int) {ts : Tokens} {front inner after left : List Token}
    {opening closing : Token} (hts : (start ts).Delimited)
    (hbody : ts.body = front ++ opening :: (inner ++ closing :: after))
    (hopening : opening.kind = .leftBrace) (hinner : Balanced inner)
    (hclosing : closing.kind = .rightBrace) (honce : opening ∉ front ++ (inner ++ closing :: after))
    (hbegins : ∀ t ∈ front.getLast?, t.kind ≠ .rightParen ∧ t.kind ≠ .elseWord)
    (hrefused : ⟨.tooMuchNesting, opening⟩ ∈ (parseTokens limit.toNat ts).diagnostics)
    (hleft : left =
      ((⟨some closing, after, ts.final⟩ : Cursor).resume (decide (0 < limit))).rest)
    (hfollows : ∀ t ∈ left.head?, t.kind ≠ .elseWord) :
    (parseTokens limit.toNat ⟨front ++ left, ts.final⟩).statements =
        (parseTokens limit.toNat ts).statements ∧
      (∃ before behind,
        (parseTokens limit.toNat ts).diagnostics = before ++ ⟨.tooMuchNesting, opening⟩ :: behind ∧
        (parseTokens limit.toNat ⟨front ++ left, ts.final⟩).diagnostics = before ++ behind) ∧
      (parseTokens limit.toNat ⟨front ++ left, ts.final⟩).frames ≤
        (parseTokens limit.toNat ts).frames := by
  obtain ⟨lost, hafter, hlost⟩ := lost_resume (decide (0 < limit)) hclosing after ts.final
  rw [← hleft] at hafter hlost
  obtain ⟨hfront, hbehind⟩ := not_or.mp (mt List.mem_append.mpr honce)
  have hmissing : inner ++ closing :: after = (inner ++ closing :: lost) ++ left := by
    rw [hafter, List.append_assoc]
    rfl
  rw [hmissing] at hbody hbehind
  let x : Omission := ⟨opening, inner ++ closing :: lost, left, hopening, hbehind, hfollows⟩
  have hapart : x.Apart front (start ts) (start ⟨front ++ left, ts.final⟩) :=
    ⟨hbody, rfl, rfl, hts, hfront, hbegins⟩
  have hskips : x.Skips (decide (0 < limit)) := ⟨inner, closing, lost, rfl, hinner, hclosing, hlost⟩
  have hzero : limit.toNat = 0 → x.Skips false := by
    intro h
    rwa [decide_eq_false (by omega)] at hskips
  have hpositive : 0 < limit.toNat → x.Skips true := by
    intro h
    rwa [decide_eq_true (by omega)] at hskips
  have hmet := Omission.cutsAt_sequence (Omission.fits_body limit.toNat hpositive) hzero ts.body
    (front ++ left) hapart (Nat.le_refl _) (Nat.le_refl _)
  simp only [parseTokens, program_eq] at hrefused ⊢
  have hcuts := hmet hrefused
  exact ⟨congrArg (·.toOption.getD []) hcuts.outcome, hcuts.noted, hcuts.frames⟩

/-- With a block that is refused inside of another, what stands between the two closing braces up to
a keyword is lost. -/
theorem refused_block_skipped_inside :
    (parseTokens (1 : Int).toNat
      (Tokens.scan "\x7b \x7b 1; \x7d a; print nil; \x7d".toList)).statements =
      [.block [.print .nil]] := by
  have hbody : (Tokens.scan "\x7b \x7b 1; \x7d a; print nil; \x7d".toList).body =
      [⟨.leftBrace, 0, 0, "\x7b"⟩] ++ ⟨.leftBrace, 2, 2, "\x7b"⟩ ::
        ([⟨.number, 4, 4, "1"⟩, ⟨.semicolon, 5, 5, ";"⟩] ++ ⟨.rightBrace, 7, 7, "\x7d"⟩ ::
          [⟨.identifier, 9, 9, "a"⟩, ⟨.semicolon, 10, 10, ";"⟩,
            ⟨.printWord, 12, 16, "print"⟩, ⟨.nilWord, 18, 20, "nil"⟩,
            ⟨.semicolon, 21, 21, ";"⟩, ⟨.rightBrace, 23, 23, "\x7d"⟩]) := by
    decide +kernel
  have hskipped := refused_block_skipped 1 (start_proper _).toDelimited hbody rfl
    (.token (by decide) (by decide) (.token (by decide) (by decide) .nil)) rfl (by decide)
    (by decide) (by decide +kernel) rfl (by decide +kernel)
  exact hskipped.1.symm.trans rfl

/-- What stands behind a block that is refused is lost with it, although it is well formed. -/
theorem statement_lost :
    (parse (0 : Int).toNat "\x7b 1; \x7d a; print nil;".toList).statements = [.print .nil] ∧
      (parse (0 : Int).toNat "a; print nil;".toList).statements =
        [.expression (.variable "a"), .print .nil] :=
  ⟨rfl, rfl⟩

end Scriptlet
