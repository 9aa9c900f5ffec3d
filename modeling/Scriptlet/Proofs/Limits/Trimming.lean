import Scriptlet.Proofs.Limits.Answers

/-! Lists of declarations that lose some of theirs.

`Trims room clause ts s o` says what is left of a sentence when there is room for so
many levels only. Its conditions and branches have room, and the lists of its blocks
are trimmed; or the last simple statement or block in it has no room, and nothing is
left. `TrimsAll` says it of a list of declarations. A declaration that is left out
has no effect on those behind it, if parsing can resume there; and neither has an if
without braces, whatever is found in it. The parser finds exactly what is left
(`Trims.parses`, `TrimsAll.runs`); there is one case for each rule. -/
namespace Scriptlet

open Scriptlet.Parser Scriptlet.Cursor

mutual

/-- What is left of a sentence, if anything. -/
inductive Trims : Nat → Clause → List Token → Stmt → Option Stmt → Prop
  | fits {room clause ts s n} : Sentence clause ts s n → n ≤ room → Trims room clause ts s (some s)
  /-- A simple statement for which there is no room. -/
  | tooDeep {room clause ts s n} : s.isSimple = true → Sentence clause ts s n →
      (∀ m, Sentence clause ts s m → room < m) → Trims room clause ts s none
  | block {room opening parts kept closing} : opening.kind = .leftBrace →
      TrimsAll room parts kept → closing.kind = .rightBrace →
      Trims (room + 1) .statement (opening :: (Part.allTokens parts ++ [closing]))
        (.block (parts.map Part.statement)) (some (.block kept))
  /-- A block for which there is no room. -/
  | refused {opening parts closing} : opening.kind = .leftBrace → AllSentences parts →
      closing.kind = .rightBrace →
      Trims 0 .statement (opening :: (Part.allTokens parts ++ [closing]))
        (.block (parts.map Part.statement)) none
  | ifThen {room word opening cs e k closing ys yes o} : word.kind = .ifWord →
      opening.kind = .leftParen → Phrase .expression cs e k → k ≤ room + 1 →
      closing.kind = .rightParen → Trims room .statement ys yes o →
      Trims (room + 1) .statement (word :: opening :: (cs ++ closing :: ys)) (.branch e yes none)
        (o.map fun yes => .branch e yes none)
  | ifElse {room word opening cs e k closing ys yes left other ns no o} : word.kind = .ifWord →
      opening.kind = .leftParen → Phrase .expression cs e k → k ≤ room + 1 →
      closing.kind = .rightParen → Trims room .statement ys yes (some left) → ¬ EndsOpen yes →
      other.kind = .elseWord → Trims (elseRoom room no) .statement ns no o →
      Trims (room + 1) .statement (word :: opening :: (cs ++ closing :: (ys ++ other :: ns)))
        (.branch e yes (some no)) (o.map fun no => .branch e left (some no))
  | statement {room ts s o} : Trims room .statement ts s o → Trims room .declaration ts s o

/-- What is left of declarations that stand one behind the other. -/
inductive TrimsAll : Nat → List Part → List Stmt → Prop
  | nil {room} : TrimsAll room [] []
  | kept {room p s parts ss} : Trims room .declaration p.tokens p.statement (some s) →
      TrimsAll room parts ss → TrimsAll room (p :: parts) (s :: ss)
  /-- A declaration that ends with a semicolon, or behind which there is the end or a word that
  begins a statement. -/
  | lost {room p parts ss} : Trims room .declaration p.tokens p.statement none →
      ((∃ t ∈ p.tokens.getLast?, t.kind = .semicolon) ∨
        ∀ t ∈ (Part.allTokens parts).head?, beginsStatement t.kind = true) →
      TrimsAll room parts ss → TrimsAll room (p :: parts) ss
  /-- An if without braces gives what is found in it when it stands alone. -/
  | alone {room p condition yes no n final parts ss} : p.statement = .branch condition yes no →
      Sentence .declaration p.tokens p.statement n → (∀ t ∈ p.tokens, t.kind ≠ .leftBrace) →
      final.kind = .eof → TrimsAll room parts ss →
      TrimsAll room (p :: parts) ((parseTokens room ⟨p.tokens, final⟩).statements ++ ss)

end

/-! ### How sentences begin and end -/

/-- How a sentence begins that something is left of. -/
theorem Trims.begins {room : Nat} {clause : Clause} {ts : List Token} {s : Stmt} {o : Option Stmt}
    (h : Trims room clause ts s o) :
    ∃ t rest, ts = t :: rest ∧ beginsSentence t.kind = true ∧
      (t.kind = .ifWord ↔ ∃ condition yes no, s = .branch condition yes no) ∧
      (clause = .statement → t.kind ≠ .letWord) := by
  have hsentence {room : Nat} {clause : Clause} {ts : List Token} {s : Stmt}
      (h : Sentence clause ts s room) : ∃ t rest, ts = t :: rest ∧ beginsSentence t.kind = true ∧
      (t.kind = .ifWord ↔ ∃ condition yes no, s = .branch condition yes no) ∧
      (clause = .statement → t.kind ≠ .letWord) := by
    obtain ⟨t, rest, hts, hbegins⟩ := h.begins
    refine ⟨t, rest, hts, hbegins, h.branch_iff hts, fun hclause => ?_⟩
    subst hclause
    obtain ⟨u, us, hus, hu⟩ := h.begins_statement
    rw [hts] at hus
    cases hus
    exact hu
  match h with
  | .fits hs _ => exact hsentence hs
  | .tooDeep _ hs _ => exact hsentence hs
  | .block hk _ _ | .refused hk _ _ =>
    exact ⟨_, _, rfl, by rw [hk]; rfl, by rw [hk]; exact ⟨nofun, nofun⟩,
      fun _ => by rw [hk]; decide⟩
  | .ifThen hk .. | .ifElse hk .. =>
    exact ⟨_, _, rfl, by rw [hk]; rfl, by rw [hk]; exact ⟨fun _ => ⟨_, _, _, rfl⟩, fun _ => rfl⟩,
      fun _ => by rw [hk]; decide⟩
  | .statement h =>
    obtain ⟨t, rest, hts, hbegins, hiff, -⟩ := h.begins
    exact ⟨t, rest, hts, hbegins, hiff, nofun⟩

theorem TrimsAll.begins {room : Nat} {p : Part} {parts : List Part} {ss : List Stmt}
    (h : TrimsAll room (p :: parts) ss) :
    ∃ t rest, p.tokens = t :: rest ∧ beginsSentence t.kind = true := by
  cases h with
  | kept hp | lost hp =>
    obtain ⟨t, rest, hts, hbegins, -⟩ := hp.begins
    exact ⟨t, rest, hts, hbegins⟩
  | alone _ hp => exact hp.begins

theorem TrimsAll.ne_else {room : Nat} {parts : List Part} {ss : List Stmt} {inBlock : Bool}
    {c d : Cursor} (h : TrimsAll room parts ss) (hpast : c.Past (Part.allTokens parts) d)
    (hend : EndsSequence inBlock d.peek.kind) : c.peek.kind ≠ .elseWord := by
  cases parts with
  | nil =>
    obtain rfl := past_nil.mp hpast
    exact hend.ne_else
  | cons p parts =>
    obtain ⟨t, rest, hts, hbegins⟩ := h.begins
    rw [Part.allTokens_cons, hts] at hpast
    rw [peek_eq (past_cons.mp hpast).1]
    exact beginsSentence_ne_else hbegins

theorem Balanced.unopened {ts : List Token} (h : Balanced ts)
    (hopen : ∀ t ∈ ts, t.kind ≠ .leftBrace) : ∀ t ∈ ts, t.kind ≠ .rightBrace := by
  induction h with
  | nil => exact fun t ht => absurd ht List.not_mem_nil
  | token _ hclose _ ih =>
    exact List.forall_mem_cons.mpr ⟨hclose, ih (List.forall_mem_cons.mp hopen).2⟩
  | block hk => exact absurd hk (hopen _ List.mem_cons_self)

theorem gives_recovered {inBlock : Bool} {p : Parser Stmt} {c d : Cursor} {s : Stmt}
    (h : Gives p c s d) : Gives (recovering inBlock p) c (some s) d := by
  constructor <;> rw [recovering_of_ok h.outcome]
  exact h.cursor

theorem Sentence.ends {clause : Clause} {ts : List Token} {s : Stmt} {n : Nat}
    (h : Sentence clause ts s n) :
    ∃ init last, ts = init ++ [last] ∧ (last.kind = .semicolon ∨ last.kind = .rightBrace) := by
  induction h with
  | expression _ hlast => exact ⟨_, _, rfl, .inl hlast⟩
  | print _ _ hlast => exact ⟨_ :: _, _, rfl, .inl hlast⟩
  | block _ _ hclose => exact ⟨_ :: _, _, rfl, .inr hclose⟩
  | @ifThen word opening cs _ _ closing _ _ _ _ _ _ _ _ ih =>
    obtain ⟨init, last, rfl, hlast⟩ := ih
    refine ⟨word :: opening :: (cs ++ closing :: init), last, ?_, hlast⟩
    simp only [List.cons_append, List.append_assoc]
  | @ifElse word opening cs _ _ closing ys _ _ other _ _ _ _ _ _ _ _ _ _ _ _ ih =>
    obtain ⟨init, last, rfl, hlast⟩ := ih
    refine ⟨word :: opening :: (cs ++ closing :: (ys ++ other :: init)), last, ?_, hlast⟩
    simp only [List.cons_append, List.append_assoc]
  | @declare word name _ _ _ hlast => exact ⟨[word, name], _, rfl, .inl hlast⟩
  | define _ _ _ _ hlast => exact ⟨_ :: _ :: _ :: _, _, rfl, .inl hlast⟩
  | statement _ ih => exact ih

/-- A sentence that opens no block ends with a semicolon. -/
theorem Sentence.ended {clause : Clause} {ts : List Token} {s : Stmt} {n : Nat}
    (h : Sentence clause ts s n) (hopen : ∀ t ∈ ts, t.kind ≠ .leftBrace) : Ended ts := by
  have hclose := h.balanced.unopened hopen
  obtain ⟨init, last, rfl, hlast⟩ := h.ends
  have hk := hlast.resolve_right (hclose last (List.mem_append_right _ List.mem_cons_self))
  exact ⟨fun t ht => ⟨hopen t ht, hclose t ht⟩, last, List.getLast?_concat, hk⟩

/-! ### Rounds of the loop -/

section
variable {inBlock : Bool} {room : Nat} {p : Part} {parts : List Part} {ss : List Stmt}
  {c m d : Cursor}

theorem TrimsAll.sequenceStops (h : TrimsAll room (p :: parts) ss) (hc : c.Proper)
    (hpast : c.Past p.tokens m) : sequenceStops inBlock c = false := by
  obtain ⟨t, rest, hts, hbegins⟩ := h.begins
  rw [hts] at hpast
  rw [← peek_eq (past_cons.mp hpast).1] at hbegins
  refine Bool.eq_false_iff.mpr fun hstop => ?_
  rw [((endsSequence_iff hc).mp hstop).not_begins] at hbegins
  cases hbegins

/-- Parsing resumes behind a declaration that is lost. -/
theorem resumed_lost {ts : List Token}
    (h : (∃ t ∈ ts.getLast?, t.kind = .semicolon) ∨
      ∀ t ∈ (Part.allTokens parts).head?, beginsStatement t.kind = true)
    (hc : c.Proper) (hm : c.Past ts m) (hmore : m.Past (Part.allTokens parts) d)
    (hend : EndsSequence inBlock d.peek.kind) : m.Resumed inBlock := by
  rcases h with ⟨t, ht, hk⟩ | hword
  · have hne : ts ≠ [] := List.ne_nil_of_mem (List.mem_of_getLast? ht)
    refine .inr (.inl ?_)
    rw [hm.afterSemicolon hne, Option.mem_def.mp ht]
    exact beq_iff_eq.mpr hk
  · cases htokens : Part.allTokens parts with
    | nil =>
      rw [htokens] at hmore
      obtain rfl := past_nil.mp hmore
      exact hend.imp (hc.past hm).rest_eq_nil.mpr fun hclose => .inr (.inr hclose)
    | cons t rest =>
      rw [htokens] at hword hmore
      refine .inr (.inr (.inl ?_))
      rw [peek_eq (past_cons.mp hmore).1]
      exact hword t rfl

end

/-! ### All rules -/

mutual

/-- **What the parser finds of a sentence** is what is left of it. -/
theorem Trims.parses {room : Nat} {clause : Clause} {ts : List Token} {s : Stmt} {o : Option Stmt}
    (h : Trims room clause ts s o) : Parses room clause ts s o := by
  match h with
  | .fits hs hn => exact hs.parses hn
  | .tooDeep hs hsent hdeep => exact parses_tooDeep hs hsent hdeep
  | .block hopen hparts hclose =>
    exact parses_block hopen hclose fun c d hc hpast hend => hparts.runs true hc hpast hend
  | .refused hopen hparts hclose => exact parses_refused hopen hparts hclose
  | .ifThen hword hopen he hk hclose hyes =>
    exact parses_ifThen hword hopen he hk hclose hyes.parses
  | .ifElse hword hopen he hk hclose hyes hends hother hno =>
    obtain ⟨u, us, hns, -, hiff, -⟩ := hno.begins
    exact parses_ifElse hword hopen he hk hclose hyes.parses hends hother hno.parses
      ⟨u, us, hns, hiff⟩
  | .statement h =>
    obtain ⟨t, rest, hts, -, -, hlet⟩ := h.begins
    exact parses_declaration h.parses hts (hlet rfl)

/-- **What the loop finds of declarations** is what is left of them. -/
theorem TrimsAll.runs {room : Nat} {parts : List Part} {ss : List Stmt} (h : TrimsAll room parts ss)
    (inBlock : Bool) {c d : Cursor} (hc : c.Proper) (hpast : c.Past (Part.allTokens parts) d)
    (hend : EndsSequence inBlock d.peek.kind) :
    Runs inBlock (recovering inBlock (declarationWith (expression room) (body room))) c ss d := by
  match h with
  | .nil =>
    obtain rfl := past_nil.mp hpast
    exact .stay
  | .kept hp hparts =>
    rw [Part.allTokens_cons] at hpast
    obtain ⟨m, hm, hmore⟩ := past_append.mp hpast
    have hone := hp.parses.whole c m hc hm (closed_of_ne (hparts.ne_else hmore hend))
    have hrun := hparts.runs inBlock (hc.past hm) hmore hend
    exact .step (TrimsAll.sequenceStops (.kept hp hparts) hc hm) (gives_recovered hone) hrun
  | .lost hp hresumes hparts =>
    rw [Part.allTokens_cons] at hpast
    obtain ⟨m, hm, hmore⟩ := past_append.mp hpast
    have hone := hp.parses.whole c m hc hm (closed_of_ne (hparts.ne_else hmore hend))
    have hrun := hparts.runs inBlock (hc.past hm) hmore hend
    obtain ⟨t, rest, hts, -⟩ := hp.begins
    have hne := hts.trans_ne (List.cons_ne_nil t rest)
    exact .step (TrimsAll.sequenceStops (.lost hp hresumes hparts) hc hm)
      (Loses.recovering hone hm hne (resumed_lost hresumes hc hm hmore hend)) hrun
  | .alone _ hp hopen hfinal hparts =>
    rw [Part.allTokens_cons] at hpast
    obtain ⟨m, hm, hmore⟩ := past_append.mp hpast
    exact (runs_alone hc.toDelimited (hp.ended hopen) hm (hparts.ne_else hmore hend) hfinal).append
      (hparts.runs inBlock (hc.past hm) hmore hend)

end

end Scriptlet
