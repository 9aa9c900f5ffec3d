import Scriptlet.Proofs.Faults.Repetition
import Scriptlet.Proofs.Limits.Trimming
import Scriptlet.Proofs.Unclosed.Abreast
import Scriptlet.Proofs.Unclosed.Scanning

/-! A string that is not closed never comes to be run.

Statements end with a mark and not with an operand, so none is returned that holds the
string: the statements of a source with such a string are those of the source without it
(`unclosed_string_cut`). Recovering from what stops the one parser and the other leads both
to the same place or both to the end, and the loops over declarations go on from there. -/
namespace Scriptlet

open Scriptlet.Parser Scriptlet.Cursor

/-! ### Statements -/

section
variable {s : Token} {reads : Bool} {expr : Parser Expr} {body : Body}

theorem abreast_semicolon (hs : s.kind = .string) (after : Construct) :
    GoAbreast s reads (semicolon after) (semicolon after) :=
  (abreast_expect hs (by decide) (by decide) _).seq fun _ => abreast_pure ()

theorem idles_semicolon (after : Construct) : Idles false (semicolon after) :=
  (idles_expect (by decide) _).stops

/-- What ends with a semicolon does not end with the string. -/
theorem abreast_ended {α : Type} (hs : s.kind = .string) (he : GoAbreast s true expr expr)
    (after : Construct) (f : Expr → α) :
    GoAbreast s false
      (do
        let e ← expr
        semicolon after
        return f e)
      (do
        let e ← expr
        semicolon after
        return f e) :=
  he.bind (fun e => (abreast_semicolon hs after).seq fun _ => abreast_pure (f e))
    fun _ _ => (idles_semicolon after).stops

theorem abreast_elseArm {more : Parser Stmt} (hs : s.kind = .string)
    (hb : ∀ t, GoAbreast s false (body.branch t) (body.branch t))
    (h : GoAbreast s false more more) (condition : Expr) (yes : Stmt) (t : Token) :
    GoAbreast s false (elseArm body more condition yes t) (elseArm body more condition yes t) := by
  have hbranch : GoAbreast s false _ _ := ((hb t).inward 2).seq fun no =>
    abreast_pure (Stmt.branch condition yes (some no))
  refine abreast_peek_bind (fun c d next u hstep hkind _ hadvance => ?_)
    fun c d u hstep _ _ hu => ?_
  · rw [hkind]
    split
    · exact abreast_skip_bind (h.seq fun no => abreast_pure _) hadvance
    · exact hbranch c d hstep
  · rw [hs, hu]
    exact hbranch c d hstep

theorem abreast_otherwise {more : Parser Stmt} (hs : s.kind = .string)
    (hb : ∀ t, GoAbreast s false (body.branch t) (body.branch t))
    (h : GoAbreast s false more more) (condition : Expr) (yes : Stmt) :
    GoAbreast s false (otherwise body more condition yes) (otherwise body more condition yes) := by
  refine abreast_peek_bind (fun c d t u hstep hkind htoken hadvance => ?_)
    fun c d u hstep _ _ hu => ?_
  · rw [hkind]
    split
    next hk =>
      obtain rfl := htoken (by rw [hk]; decide)
      exact abreast_skip_bind (abreast_elseArm hs hb h condition yes _) hadvance
    next => exact abreast_pure _ c d hstep
  · rw [hs, hu]
    exact abreast_pure _ c d hstep

theorem abreast_ifChain (hs : s.kind = .string) (he : GoAbreast s true expr expr)
    (hb : ∀ t, GoAbreast s false (body.branch t) (body.branch t)) (bound : List Token) :
    GoAbreast s false (ifChain expr body bound) (ifChain expr body bound) := by
  induction bound with
  | nil => exact fun c d hstep => .stopped hstep
  | cons t bound ih =>
    refine (abreast_expect hs (by decide) (by decide) _).seq fun _ =>
      he.bind (fun condition => ?_) fun _ _ => (idles_expect (by decide) _).stops
    exact (abreast_expect hs (by decide) (by decide) _).seq fun close =>
      ((hb close).inward 2).seq fun yes => abreast_otherwise hs hb ih condition yes

theorem abreast_statement (hs : s.kind = .string) (ht : ∀ m n, Tracks id m n id expr expr)
    (hbt : ∀ m n t, Tracks id m n id (body.branch t) (body.branch t))
    (he : GoAbreast s true expr expr)
    (hb : ∀ t, GoAbreast s false (body.branch t) (body.branch t))
    (hblock : ∀ t, GoAbreast s false (body.block t) (body.block t)) :
    GoAbreast s false (statementWith expr body) (statementWith expr body) := by
  refine abreast_peek_bind (fun c d t u hstep hkind htoken hadvance => ?_)
    fun c d u hstep _ _ hu => ?_
  · rw [hkind]
    split
    case h_1 | h_2 | h_3 => exact abreast_refuse _ _ _ _ c d hstep
    case h_4 hk =>
      obtain rfl := htoken (by rw [hk]; decide)
      refine abreast_skip_bind (((hblock _).inward 3).seq fun statements => ?_) hadvance
      exact (abreast_expect hs (by decide) (by decide) _).seq fun _ => abreast_pure _
    case h_5 => exact abreast_skip_bind (abreast_ended hs he .value Stmt.print) hadvance
    case h_6 =>
      exact abreast_skip_bind (abreast_unread_bind (tracks_ifChain relocates_id ht hbt)
        (abreast_ifChain hs he hb)) hadvance
    case h_7 => exact abreast_ended hs he .expression Stmt.expression c d hstep
  · rw [hs, hu]
    exact abreast_ended hs he .expression Stmt.expression c d hstep

theorem abreast_variable (hs : s.kind = .string) (he : GoAbreast s true expr expr) :
    GoAbreast s false (variableWith expr) (variableWith expr) := by
  refine (abreast_expect hs (by decide) (by decide) _).seq fun name => ?_
  have hbare : GoAbreast s false _ _ := (abreast_semicolon hs .declaration).seq fun _ =>
    abreast_pure (Stmt.declare name.text none)
  refine abreast_peek_bind (fun c d t u hstep hkind _ hadvance => ?_)
    fun c d u hstep _ _ hu => ?_
  · rw [hkind]
    split
    · exact abreast_skip_bind
        (abreast_ended hs he .declaration fun e => Stmt.declare name.text (some e)) hadvance
    · exact hbare c d hstep
  · rw [hs, hu]
    exact hbare c d hstep

theorem abreast_declaration (hs : s.kind = .string) (ht : ∀ m n, Tracks id m n id expr expr)
    (hbt : ∀ m n t, Tracks id m n id (body.branch t) (body.branch t))
    (he : GoAbreast s true expr expr)
    (hb : ∀ t, GoAbreast s false (body.branch t) (body.branch t))
    (hblock : ∀ t, GoAbreast s false (body.block t) (body.block t)) :
    GoAbreast s false (declarationWith expr body) (declarationWith expr body) := by
  have hstatement := abreast_statement hs ht hbt he hb hblock
  refine abreast_peek_bind (fun c d t u hstep hkind _ hadvance => ?_)
    fun c d u hstep _ _ hu => ?_
  · rw [hkind]
    split
    · exact abreast_skip_bind (abreast_variable hs he) hadvance
    · exact hstatement c d hstep
  · rw [hs, hu]
    exact hstatement c d hstep

/-- There is no declaration at the end. -/
theorem idles_declaration (he : Idles false expr) : Idles false (declarationWith expr body) := by
  refine idles_peek_bind fun t ht => ?_
  rw [ht]
  refine idles_peek_bind fun u hu => ?_
  rw [hu]
  exact he.stops

end

/-! ### Moving on -/

namespace Cursor

variable {s : Token} {c d : Cursor} {inBlock : Bool}

theorem InStep.advance (h : InStep s c d) : InStep s c.advance d.advance := by
  rcases h.peek with ⟨-, -, hadvance⟩ | ⟨-, hc, hd⟩
  · exact hadvance
  · rw [hd.advance]
    exact .inr ⟨hc, hd⟩

/-- Both are in front of a token, or the string is all that is left, or nothing is. -/
theorem InStep.cases_rest (h : InStep s c d) :
    (∃ t rest, c.rest = t :: (rest ++ [s]) ∧ d.rest = t :: rest ∧ c.last = d.last) ∨
      (c.rest = [s] ∧ c.advance.Spent ∧ d.Spent) ∨ (c.Spent ∧ d.Spent) := by
  rcases h with h | h
  · cases hrest : d.rest with
    | nil =>
      obtain ⟨-, hc, hd⟩ := h.of_rest hrest
      exact .inr (.inl ⟨by rw [h.rest, hrest]; rfl, hc, hd⟩)
    | cons t rest => exact .inl ⟨t, rest, by rw [h.rest, hrest]; rfl, rfl, h.last⟩
  · exact .inr (.inr h)

theorem InStep.resume (h : InStep s c d) : InStep s (c.resume inBlock) (d.resume inBlock) := by
  generalize hd : d.rest = rest
  induction rest generalizing c d with
  | nil =>
    rw [resume_nil hd]
    rcases h.cases_rest with ⟨t, rest, -, hcons, -⟩ | ⟨hone, hc, -⟩ | ⟨hc, -⟩
    · rw [hd] at hcons
      cases hcons
    · cases hstop : resumesBefore inBlock c s with
      | true => rwa [resume_stop hone hstop]
      | false =>
        rw [resume_go hone hstop, resume_nil hc.rest]
        exact .inr ⟨hc, hd, h.short.final⟩
    · rwa [resume_nil hc.rest]
  | cons t rest ih =>
    rcases h.cases_rest with ⟨u, more, hc, hcons, hlast⟩ | ⟨-, -, hspent⟩ | ⟨-, hspent⟩
    · obtain ⟨rfl, rfl⟩ := List.cons.inj (hcons.symm.trans hd)
      have hsame : resumesBefore inBlock d u = resumesBefore inBlock c u := by
        simp only [resumesBefore, Cursor.afterSemicolon, hlast]
      cases hstop : resumesBefore inBlock c u with
      | true => rwa [resume_stop hc hstop, resume_stop hd (hsame.trans hstop)]
      | false =>
        rw [resume_go hc hstop, resume_go hd (hsame.trans hstop)]
        exact ih h.advance (by rw [rest_advance, hd]; rfl)
    · exact absurd (hd.symm.trans hspent.rest) (List.cons_ne_nil t rest)
    · exact absurd (hd.symm.trans hspent.rest) (List.cons_ne_nil t rest)

theorem InStep.skipBlock (h : InStep s c d) (level : Nat) :
    InStep s (c.skipBlock level) (d.skipBlock level) := by
  generalize hd : d.rest = rest
  induction rest generalizing c d level with
  | nil =>
    rw [skipBlock_nil hd]
    rcases h.cases_rest with ⟨t, rest, -, hcons, -⟩ | ⟨hone, hc, -⟩ | ⟨hc, -⟩
    · rw [hd] at hcons
      cases hcons
    · cases level with
      | zero => rwa [skipBlock_zero]
      | succ level =>
        rw [skipBlock_go hone, skipBlock_nil hc.rest]
        exact .inr ⟨hc, hd, h.short.final⟩
    · rwa [skipBlock_nil hc.rest]
  | cons t rest ih =>
    cases level with
    | zero => rwa [skipBlock_zero, skipBlock_zero]
    | succ level =>
      rcases h.cases_rest with ⟨u, more, hc, hcons, -⟩ | ⟨-, -, hspent⟩ | ⟨-, hspent⟩
      · obtain ⟨rfl, rfl⟩ := List.cons.inj (hcons.symm.trans hd)
        rw [skipBlock_go hc, skipBlock_go hd]
        exact ih h.advance _ (by rw [rest_advance, hd]; rfl)
      · exact absurd (hd.symm.trans hspent.rest) (List.cons_ne_nil t rest)
      · exact absurd (hd.symm.trans hspent.rest) (List.cons_ne_nil t rest)

end Cursor

theorem abreast_refuseBlock {α : Type} {s : Token} (t : Token) :
    GoAbreast s false (refuseBlock t : Parser α) (refuseBlock t) :=
  fun _ _ hstep => .stopped (hstep.skipBlock 1)

/-- Where the two parsers are stopped, parsing moves on to cursors that are in step again. -/
theorem inStep_movedOn {s : Token} {p q : Parser Stmt} {c d : Cursor} (h : InStep s c d)
    (hstop : InStep s (p c).cursor (q d).cursor) : InStep s (movedOn p c) (movedOn q d) := by
  have hadvance := hstop.advance
  unfold movedOn
  rcases hstop with hcut | ⟨hc, hd⟩
  · have hlen := congrArg List.length hcut.rest
    rw [List.length_append, List.length_singleton] at hlen
    rcases h with h | ⟨hc, hd⟩
    · have hlen' := congrArg List.length h.rest
      rw [List.length_append, List.length_singleton] at hlen'
      by_cases hstay : (p c).cursor.rest.length = c.rest.length
      · rwa [if_pos hstay, if_pos (by omega)]
      · rw [if_neg hstay, if_neg (by omega)]
        exact .inl hcut
    · rw [hc.rest, hd.rest, List.length_nil, if_neg (by omega)]
      split
      next hnil =>
        rw [advance_of_nil (List.length_eq_zero_iff.mp hnil)]
        exact .inl hcut
      next => exact .inl hcut
  · rw [hc.advance, hd.advance, ite_self, ite_self]
    exact .inr ⟨hc, hd⟩

theorem abreast_recovering {s : Token} {p : Parser Stmt} {inBlock : Bool}
    (h : GoAbreast s false p p) :
    GoAbreast s false (recovering inBlock p) (recovering inBlock p) := by
  intro c d hstep
  suffices hreply : ∀ r r', Abreast s false r r' → p c = r → p d = r' →
      Abreast s false (recovering inBlock p c) (recovering inBlock p d) from
    hreply _ _ (h c d hstep) rfl rfl
  intro r r' hp hr hr'
  cases hp with
  | same hbehind =>
    rw [recovering_of_ok (by rw [hr]), recovering_of_ok (by rw [hr']), hr, hr']
    exact .same hbehind
  | stopped hbehind =>
    have hmoved := inStep_movedOn (p := p) (q := p) hstep (by rw [hr, hr']; exact hbehind)
    rw [recovering_of_stop (by rw [hr]), recovering_of_stop (by rw [hr']), hr, hr']
    exact .same hmoved.resume
  | ahead hreads => cases hreads

/-! ### Declarations -/

section
variable {s : Token} {inBlock : Bool} {one : Parser (Option Stmt)}

/-- With the string alone one more declaration is tried than at the end, and nothing comes of it. -/
theorem abreast_sequence (hs : s.kind = .string) (h : GoAbreast s false one one)
    (hone : Progresses one)
    (hend : ∀ d : Cursor, d.Spent → ∃ m noted, one d = ⟨.ok none, m, noted, 0⟩)
    (bound : List Token) :
    GoAbreast s false (sequence inBlock one bound) (sequence inBlock one bound) := by
  have hstops {c : Cursor} (hc : c.Spent) : sequenceStops inBlock c = true := by
    rw [sequenceStops, hc.rest]
    rfl
  induction bound with
  | nil => exact abreast_pure []
  | cons t bound ih =>
    intro c d hstep
    show Abreast s false (sequence inBlock one (t :: bound) c) (sequence inBlock one (t :: bound) d)
    rcases hstep.cases_rest with ⟨u, rest, hc, hd, -⟩ | ⟨hc, -, hd⟩ | ⟨hc, hd⟩
    · have hsame : sequenceStops inBlock d = sequenceStops inBlock c := by
        simp only [sequenceStops, peek_eq hc, peek_eq hd, hc, hd, List.isEmpty_cons]
      cases hstop : sequenceStops inBlock c with
      | true =>
        rw [sequence_stop hstop, sequence_stop (hsame.trans hstop)]
        exact .same hstep
      | false =>
        rw [sequence_go hstop, sequence_go (hsame.trans hstop)]
        exact (h.seq fun first => ih.seq fun more => abreast_pure _) c d hstep
    · have hgo : sequenceStops inBlock c = false := by
        rw [sequenceStops, peek_eq hc, hs, hc]
        cases inBlock <;> rfl
      obtain ⟨m', noted', hend⟩ := hend d hd
      have hfirst : Abreast s false (one c) (one d) := h c d hstep
      have hless := hone c hstep.whole (by rw [hc]; exact List.cons_ne_nil s [])
      generalize hr : one c = r at hfirst hless
      rw [hend] at hfirst
      cases hfirst with
      | @same _ m _ noted _ _ hm =>
        have hspent : m.Spent := by
          have hlen : m.rest.length < 1 := by rwa [hc] at hless
          exact ⟨List.length_eq_zero_iff.mp (by omega), hm.whole.final⟩
        rw [sequence_step hgo hr, sequence_stop (hstops hspent), sequence_stop (hstops hd)]
        exact .same (.inr ⟨hspent, hd⟩)
    · rw [sequence_stop (hstops hc), sequence_stop (hstops hd)]
      exact .same (.inr ⟨hc, hd⟩)

end

/-- Behind the end there is nothing to recover. -/
theorem recovering_spent (room : Nat) (inBlock : Bool) {d : Cursor} (hd : d.Spent) :
    ∃ m noted, recovering inBlock (declarationWith (expression room) (body room)) d =
      ⟨.ok none, m, noted, 0⟩ := by
  obtain ⟨o, noted, heq, hstop⟩ :=
    idles_declaration (idles_expression room) d hd
  obtain ⟨e, rfl⟩ := hstop rfl
  exact ⟨_, _, by rw [recovering_of_stop (by rw [heq]), heq]⟩

theorem abreast_declarations {s : Token} (hs : s.kind = .string) {room : Nat} (inBlock : Bool)
    (h : GoAbreast s false (declarationWith (expression room) (body room))
      (declarationWith (expression room) (body room))) :
    GoAbreast s false
      (unread >>= sequence inBlock
        (recovering inBlock (declarationWith (expression room) (body room))))
      (unread >>= sequence inBlock
        (recovering inBlock (declarationWith (expression room) (body room)))) := by
  obtain ⟨hforward, hconsumes⟩ := declaration_facts room
  exact abreast_unread_bind (tracks_sequence_room relocates_id room inBlock)
    (abreast_sequence hs (abreast_recovering h) (progresses_recovering inBlock hforward hconsumes)
      fun _ => recovering_spent room inBlock)

/-! ### Levels -/

theorem abreast_body {s : Token} (hs : s.kind = .string) (room : Nat) (t : Token) :
    GoAbreast s false ((body room).branch t) ((body room).branch t) ∧
      GoAbreast s false ((body room).block t) ((body room).block t) := by
  induction room generalizing t with
  | zero => exact ⟨abreast_refuse _ _ _ _, abreast_refuseBlock t⟩
  | succ room ih =>
    have ht := tracks_expression relocates_id room
    have hbt := fun m n t => (tracks_body relocates_id room m n t).1
    have he := abreast_expression hs room
    have hb := fun t => (ih t).1
    have hblock := fun t => (ih t).2
    exact ⟨abreast_statement hs ht hbt he hb hblock,
      abreast_declarations hs true (abreast_declaration hs ht hbt he hb hblock)⟩

theorem abreast_program {s : Token} (hs : s.kind = .string) (room : Nat) :
    GoAbreast s false (program room) (program room) :=
  abreast_declarations hs false (abreast_declaration hs (tracks_expression relocates_id room)
    (fun m n t => (tracks_body relocates_id room m n t).1) (abreast_expression hs room)
    (fun t => (abreast_body hs room t).1) fun t => (abreast_body hs room t).2)

/-! ### Sources -/

/-- A program ends with a mark. -/
theorem AllSentences.ends {parts : List Part} (h : AllSentences parts) {t : Token}
    (ht : (Part.allTokens parts).getLast? = some t) : t.kind = .semicolon ∨ t.kind = .rightBrace := by
  induction parts with
  | nil => cases ht
  | cons p parts ih =>
    rw [Part.allTokens_cons, List.getLast?_append] at ht
    rcases Option.or_eq_some_iff.mp ht with hbehind | ⟨-, hlast⟩
    · exact ih (List.forall_mem_cons.mp h).2 hbehind
    · obtain ⟨init, last, hp, hk⟩ := (h p List.mem_cons_self).ends
      rw [hp, List.getLast?_concat] at hlast
      cases hlast
      exact hk

/-- What ends with a string is malformed. -/
theorem malformed_of_string (room : Nat) {source : List Char} {t : Token}
    (ht : (Tokens.scan source).body.getLast? = some t) (hk : t.kind = .string) :
    ∃ d ∈ (parse room source).diagnostics, d.fault.isLexical = false := by
  have hnoted : (program room (start (Tokens.scan source))).noted ≠ [] := by
    intro hnil
    obtain ⟨statements, hok⟩ := program_ok room (start (Tokens.scan source))
    obtain ⟨n, ⟨parts, hparts, hbody, -, -⟩, -⟩ :=
      (program_reads_iff room source statements).mp ⟨_, hok, rfl, hnil⟩
    rw [hbody] at ht
    rcases hparts.ends ht with hmark | hmark <;> rw [hk] at hmark <;> cases hmark
  obtain ⟨d, hd⟩ := List.exists_mem_of_ne_nil _ hnoted
  exact ⟨d, List.mem_append_right _ hd,
    (course_program room (start_proper source).toDelimited).parsed.1 d hd⟩

/-- **Programs with and without a string at the end.** They are the same statements, and parsing
takes as many frames. -/
theorem parse_without_string (room : Nat) {source other : List Char} {t : Token}
    (ht : t.kind = .string)
    (hbody : (Tokens.scan source).body = (Tokens.scan other).body ++ [t]) :
    (parse room source).statements = (parse room other).statements ∧
      (parse room source).fits = (parse room other).fits := by
  have hcut : Cut t (start (Tokens.scan source)) (start (Tokens.scan other)) :=
    ⟨rfl, hbody, (start_proper source).toDelimited, (start_proper other).toDelimited⟩
  obtain ⟨ss, hok⟩ := program_ok room (start (Tokens.scan source))
  obtain ⟨hok', hframes⟩ := Abreast.of_ok (abreast_program ht room _ _ (.inl hcut)) hok
  constructor
  · show (program room (start (Tokens.scan source))).outcome.toOption.getD [] =
      (program room (start (Tokens.scan other))).outcome.toOption.getD []
    rw [hok, hok']
  · show decide ((program room (start (Tokens.scan source))).frames ≤ stackLimit) =
      decide ((program room (start (Tokens.scan other))).frames ≤ stackLimit)
    rw [hframes]

/-- A string that is not closed reaches to the end of the source. The tokens before it are those of
the source that ends in front of it. -/
theorem scan_unclosed {source : List Char} {t : Token} (ht : t ∈ (Tokens.scan source).body)
    (hopen : t.isUnterminated = true) :
    t.LacksQuote ∧ (Tokens.scan source).unterminated = [t] ∧
      t.text.toList = source.drop t.start ∧ t.stop + 1 = source.length ∧
      (Tokens.scan source).body = (Tokens.scan (source.take t.start)).body ++ [t] := by
  have hsplits : Splits 0 source (Tokens.scan source).body := splits_iff.mpr rfl
  obtain ⟨front, text, us, rfl, htext, rfl, hbody, hfront, hclosed⟩ := hsplits.unclosed ht hopen
  obtain rfl : us = (Tokens.scan front).body := splits_iff.mp hfront
  have hstart : 0 + front.length = front.length := Nat.zero_add _
  refine ⟨⟨rfl, ?_⟩, ?_, ?_, ?_, ?_⟩
  · rw [String.toList_ofList]
    exact fun hmem => htext '"' hmem rfl
  · rw [Tokens.unterminated, hbody, List.filter_append, List.filter_cons_of_pos hopen,
      List.filter_nil, List.filter_eq_nil_iff.mpr (by simpa using hclosed), List.nil_append]
  · rw [String.toList_ofList, hstart, List.drop_left]
  · simp only [List.length_append, List.length_cons]
    omega
  · rw [hbody, hstart, List.take_left]

/-- **A string that is not closed never comes to be run.** There is one diagnostic of the scanner
if a string lacks its closing quote, and none otherwise. The string is then the last token and
reaches to the end of the source; parsing reports an error of its own; and the statements are those
of the source that ends in front of the string. The stack has room for parsing the one if it has
for the other. -/
theorem unclosed_string_cut (limit : Int) (source : List Char) :
    (Tokens.scan source).lexical.length ≤ 1 ∧
    ((Tokens.scan source).lexical ≠ [] ↔ ∃ t ∈ (Tokens.scan source).body, t.LacksQuote) ∧
    ∀ t ∈ (Tokens.scan source).body, t.LacksQuote →
      (Tokens.scan source).lexical = [⟨.unterminatedString, t⟩] ∧
      (Tokens.scan source).body.getLast? = some t ∧
      t.text.toList = source.drop t.start ∧ t.stop + 1 = source.length ∧
      (∃ d ∈ (parse limit.toNat source).diagnostics, d.fault.isLexical = false) ∧
      (parse limit.toNat source).statements =
        (parse limit.toNat (source.take t.start)).statements ∧
      (parse limit.toNat source).fits = (parse limit.toNat (source.take t.start)).fits ∧
      (limit ≤ 55 → (parse limit.toNat source).fits = true) := by
  refine ⟨?_, ⟨fun hne => ?_, fun ⟨t, ht, hquote⟩ => ?_⟩, fun t ht hquote => ?_⟩
  · rw [Tokens.lexical, List.length_map]
    cases hall : (Tokens.scan source).unterminated with
    | nil => exact Nat.zero_le 1
    | cons t more =>
      obtain ⟨ht, hopen⟩ := List.mem_filter.mp (hall ▸ List.mem_cons_self)
      rw [← hall, (scan_unclosed ht hopen).2.1]
      exact Nat.le_refl 1
  · obtain ⟨d, hd⟩ := List.exists_mem_of_ne_nil _ hne
    obtain ⟨t, hmem, -⟩ := List.mem_map.mp hd
    obtain ⟨ht, hopen⟩ := List.mem_filter.mp hmem
    exact ⟨t, ht, (scan_unclosed ht hopen).1⟩
  · rw [Tokens.lexical, (scan_unclosed ht hquote.isUnterminated).2.1]
    exact List.cons_ne_nil _ _
  · obtain ⟨-, hone, htext, hstop, hbody⟩ := scan_unclosed ht hquote.isUnterminated
    have hlast : (Tokens.scan source).body.getLast? = some t := by
      rw [hbody, List.getLast?_concat]
    obtain ⟨hstatements, hfits⟩ := parse_without_string limit.toNat hquote.1 hbody
    exact ⟨by rw [Tokens.lexical, hone]; rfl, hlast, htext, hstop,
      malformed_of_string limit.toNat hlast hquote.1, hstatements, hfits,
      fun h => parse_fits _ (by omega) source⟩

/-- A string that is opened in the head of an if, within a block. -/
theorem unclosed_string_cut_head :
    (⟨.string, 19, 21, "\"b "⟩ : Token).LacksQuote ∧
      (parse (41 : Int).toNat "print nil; \x7b if (a \"b ".toList).statements =
        (parse (41 : Int).toNat "print nil; \x7b if (a ".toList).statements := by
  have hquote : (⟨.string, 19, 21, "\"b "⟩ : Token).LacksQuote := ⟨rfl, by decide⟩
  obtain ⟨-, -, -, -, -, hstatements, -⟩ :=
    (unclosed_string_cut 41 "print nil; \x7b if (a \"b ".toList).2.2 _ (by decide +kernel) hquote
  exact ⟨hquote, hstatements⟩

/-- The stack has no room for a hundred open parentheses, although the limit allows for them. -/
theorem unclosed_string_out_of_reach :
    (Tokens.scan (List.replicate 100 '(' ++ ['"'])).lexical =
        [⟨.unterminatedString, ⟨.string, 100, 100, "\""⟩⟩] ∧
      (parse (100 : Int).toNat (List.replicate 100 '(' ++ ['"'])).fits = false := by
  decide +kernel

end Scriptlet
