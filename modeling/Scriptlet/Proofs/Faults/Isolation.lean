import Scriptlet.Proofs.Faults.Declarations
import Scriptlet.Proofs.Locality.Chunks

/-! What is malformed stays by itself.

A fragment is what might be one statement: it has no braces, and a word that begins
a statement is its first token if it is in it at all. Wherever a fragment is
malformed, parsing resumes behind it, if a semicolon ends it or a brace closes the
block that it is in; and what stands there is parsed as if nothing stood before.
By its course a fragment stops before that mark (`Fragment.stops`), where the same
tokens are shown whatever follows; `statement_isolated` puts the two forms
together. -/
namespace Scriptlet

open Scriptlet.Parser Scriptlet.Cursor

/-! ### Parsed one behind the other -/

/-- The parsings of two lists of tokens, one behind the other. -/
def Parsed.append (p q : Parsed) : Parsed :=
  ⟨p.statements ++ q.statements, p.diagnostics ++ q.diagnostics, max p.frames q.frames⟩

instance : Append Parsed :=
  ⟨Parsed.append⟩

/-- What stands behind a declaration is parsed by itself. -/
theorem parseTokens_of_declaration {room : Nat} {ts rest : Tokens} {m : Cursor}
    {o : Option Stmt} {noted : List Diagnostic} {f : Nat} (hts : (start ts).Delimited)
    (hrest : (start rest).Delimited) (hne : ts.body ≠ [])
    (hone : declaration room (start ts) = ⟨.ok o, m, noted, f⟩) (hm : m.Delimited)
    (hbody : m.rest = rest.body) (hfinal : m.final = rest.final) :
    parseTokens room ts = ⟨o.toList, noted, f⟩ ++ parseTokens room rest := by
  obtain ⟨t, bound, hbound⟩ := List.exists_cons_of_ne_nil hne
  have hless := progresses_declaration room (start ts) hts hne
  rw [hone] at hless
  have hlen : m.rest.length ≤ bound.length := by
    rw [show (start ts).rest = t :: bound from hbound, List.length_cons] at hless
    exact Nat.lt_succ_iff.mp hless
  obtain ⟨d, hmore⟩ := sequence_relocate relocates_id room hrest hm (Nat.le_refl _) hlen
    (by rw [List.map_id]; exact hbody) fun _ => hfinal
  have hstop : sequenceStops false (start ts) = false := by
    simpa [sequenceStops, start] using hne
  rw [relocate_id] at hmore
  obtain ⟨ss, hok⟩ := program_ok room (start rest)
  rw [program_eq] at hok
  have hwhole : program room (start ts) =
      (sequence false (declaration room) bound m).inFront o.toList noted f := by
    rw [program_eq, ← sequence_step hstop hone t bound]
    exact congrArg (sequence false (declaration room) · (start ts)) hbound
  simp only [parseTokens, hwhole, hmore, program_eq, Reply.inFront, hok]
  rfl

/-! ### Fragments -/

/-- Tokens of what might be one statement. -/
structure Fragment (ts : List Token) : Prop where
  nonempty : ts ≠ []
  brace : ∀ t ∈ ts, t.kind ≠ .leftBrace ∧ t.kind ≠ .rightBrace
  inside : ∀ t ∈ ts, t.kind ≠ .eof
  word : ∀ t ∈ ts.tail, beginsStatement t.kind = false

theorem skimmed_append {inBlock : Bool} {ts us : List Token}
    (hsemicolon : ∀ t ∈ ts, t.kind ≠ .semicolon) (hclose : ∀ t ∈ ts, t.kind ≠ .rightBrace)
    (hword : ∀ t ∈ ts, beginsStatement t.kind = false) (hus : Skimmed inBlock us) :
    Skimmed inBlock (ts ++ us) := by
  induction ts with
  | nil => exact hus
  | cons t ts ih =>
    rw [List.forall_mem_cons] at hsemicolon hclose hword
    exact .cons hsemicolon.1 hword.1 (fun h => hclose.1 h.2)
      (ih hsemicolon.2 hclose.2 hword.2)

section
variable {inBlock : Bool} {p : Parser Stmt} {c c' d d' : Cursor} {ts us : List Token}

/-- Behind a stop inside of such tokens parsing resumes behind all of them. -/
theorem resume_movedOn (hpast : c.Past ts d) (hus : c.Past us (p c).cursor) (hinitial : us <+: ts)
    (hne : ts ≠ []) (hskimmed : Skimmed inBlock ts.tail)
    (hfirst : ∀ t ∈ ts.head?, t.kind = .semicolon → ts.tail = []) (hd : d.Resumed inBlock) :
    (movedOn p c).resume inBlock = d := by
  obtain ⟨t, ts, rfl⟩ := List.exists_cons_of_ne_nil hne
  -- at least the first token is behind the cursor from which parsing moves on
  obtain ⟨vs, ws, rfl, hvs⟩ : ∃ vs ws, ts = vs ++ ws ∧ c.Past (t :: vs) (movedOn p c) := by
    obtain ⟨ws, hws⟩ := hinitial
    have hlen := hus.length
    cases us with
    | nil =>
      rw [movedOn, past_nil.mp hus, if_pos rfl]
      exact ⟨[], ts, rfl, past_cons.mpr ⟨(past_cons.mp hpast).1, past_nil.mpr rfl⟩⟩
    | cons u us =>
      obtain ⟨rfl, rfl⟩ := List.cons.inj hws
      rw [List.length_cons] at hlen
      rw [movedOn, if_neg (by omega)]
      exact ⟨us, ws, rfl, hus⟩
  obtain ⟨m, hm, hws⟩ := past_append.mp (show c.Past (t :: vs ++ ws) d from hpast)
  obtain rfl : m = movedOn p c := hm.eq.trans hvs.eq.symm
  obtain ⟨hskimmed, hlast⟩ := hskimmed.rest
  refine resume_skimmed hskimmed hws ?_ hd
  rcases hlast with hnil | hlast
  · exact .inl hnil
  · by_cases hsemicolon : vs = [] ∧ t.kind = .semicolon
    · exact .inl (List.append_eq_nil_iff.mp (hfirst t rfl hsemicolon.2)).2
    · right
      rw [Cursor.afterSemicolon, hm.last, List.getLast?_cons]
      cases hvs : vs.getLast? with
      | none => simp_all
      | some u => simpa using hlast u hvs

/-- What is malformed before a mark is malformed in the same way whatever stands behind the mark,
and parsing resumes at the same place. -/
theorem recovering_isolated (room : Nat) {init xs ys : List Token} {z : Token} {e : Diagnostic}
    (hc : c.Delimited) (hc' : c'.Delimited) (hrest : c.rest = init ++ z :: xs)
    (hrest' : c'.rest = init ++ z :: ys)
    (hus : c.Past us (declarationWith (expression room) (body room) c).cursor)
    (hinitial : us <+: init)
    (ho : (declarationWith (expression room) (body room) c).outcome = .error e)
    (hpast : c.Past ts d) (hpast' : c'.Past ts d') (hts : init <+: ts) (hne : ts ≠ [])
    (hskimmed : Skimmed inBlock ts.tail)
    (hfirst : ∀ t ∈ ts.head?, t.kind = .semicolon → ts.tail = [])
    (hd : d.Resumed inBlock) (hd' : d'.Resumed inBlock) :
    ∃ noted f, noted = (declarationWith (expression room) (body room) c).noted ++ [e] ∧
      recovering inBlock (declarationWith (expression room) (body room)) c =
        ⟨.ok none, d, noted, f⟩ ∧
      recovering inBlock (declarationWith (expression room) (body room)) c' =
        ⟨.ok none, d', noted, f⟩ := by
  refine ⟨_, (declarationWith (expression room) (body room) c).frames, rfl, ?_, ?_⟩
  · rw [recovering_of_stop ho, resume_movedOn hpast hus (hinitial.trans hts) hne hskimmed hfirst hd]
  · obtain ⟨vs, rfl⟩ := hinitial
    rw [List.append_assoc] at hrest hrest'
    have hus' : c'.Past us (c'.forward us.length) :=
      ⟨by rw [rest_forward, hrest', List.drop_left], rfl⟩
    -- the token that it stops at is before the mark, or the mark
    have hpeek : (c'.forward us.length).peek =
        (declarationWith (expression room) (body room) c).cursor.peek := by
      have hleft := List.append_cancel_left (hrest.symm.trans hus.rest)
      have hleft' := List.append_cancel_left (hrest'.symm.trans hus'.rest)
      rw [Cursor.peek, Cursor.peek, ← hleft, ← hleft']
      cases vs <;> rfl
    have hsame := (tracks_declaration_room relocates_id room _ _).agrees c c' _ hc hc'
      (Nat.le_refl _) (Nat.le_refl _) ⟨us, hus, by rwa [List.map_id], hpeek⟩
    rw [relocate_id] at hsame
    have ho' : (declarationWith (expression room) (body room) c').outcome = .error e := by
      rw [hsame, ho]
    have hcursor : c'.Past us (declarationWith (expression room) (body room) c').cursor := by
      rw [hsame]
      exact hus'
    have hresume := resume_movedOn hpast' hcursor ((List.prefix_append us vs).trans hts) hne
      hskimmed hfirst hd'
    rw [recovering_of_stop ho', hresume, hsame]

end

/-! ### Statements -/

/-- How many diagnostics there are but for those of targets. -/
def faultCount (ds : List Diagnostic) : Nat :=
  ds.countP (·.fault ≠ .invalidTarget)

theorem faultCount_eq_zero {ds : List Diagnostic} (h : ∀ d ∈ ds, d.fault = .invalidTarget) :
    faultCount ds = 0 := by
  refine List.countP_eq_zero.mpr fun d hd => ?_
  rw [h d hd]
  decide

theorem faultCount_stopped {ds : List Diagnostic} {e : Diagnostic}
    (h : ∀ d ∈ ds, d.fault = .invalidTarget) (he : e.fault ≠ .invalidTarget) :
    faultCount (ds ++ [e]) = 1 := by
  have hzero := faultCount_eq_zero h
  rw [faultCount] at hzero ⊢
  rw [List.countP_append, hzero, List.countP_singleton, if_pos (decide_eq_true he)]

section
variable {c c' d d' : Cursor}

/-- A fragment with a semicolon at its end is a statement or is left out, whatever follows. -/
theorem declaration_fragment (room : Nat) {init : List Token} {semi : Token}
    (h : Fragment (init ++ [semi])) (hsemi : semi.kind = .semicolon)
    (hinit : ∀ t ∈ init, t.kind ≠ .semicolon) (hc : c.Delimited) (hc' : c'.Delimited)
    (hpast : c.Past (init ++ [semi]) d) (hd : d.rest = []) (hpast' : c'.Past (init ++ [semi]) d')
    (helse : d'.peek.kind ≠ .elseWord) :
    ∃ o noted f, declaration room c = ⟨.ok o, d, noted, f⟩ ∧
      declaration room c' = ⟨.ok o, d', noted, f⟩ ∧ faultCount noted ≤ 1 := by
  obtain ⟨us, hus, hok, herror⟩ := course_declaration room hc
  have hrest : c.rest = init ++ semi :: [] := by rw [hpast.rest, hd, List.append_nil]
  have hrest' : c'.rest = init ++ semi :: d'.rest := by rw [hpast'.rest, List.append_assoc]; rfl
  have hbefore : us = init ++ [semi] ∨ us <+: init :=
    List.prefix_concat_iff.mp ⟨_, (hrest.symm.trans hus.rest).symm⟩
  have hopen : ∀ t ∈ us, t.kind ≠ .leftBrace := by
    intro t ht
    refine (h.brace t ?_).1
    rcases hbefore with rfl | hinitial
    · exact ht
    · exact List.mem_append_left _ (hinitial.subset ht)
  cases ho : (declarationWith (expression room) (body room) c).outcome with
  | ok s =>
    have hdone := hok s ho
    -- only the semicolon can end it
    obtain rfl : us = init ++ [semi] := by
      refine hbefore.resolve_right fun hinitial => ?_
      obtain ⟨t, ht, hend⟩ := hdone.ends
      have hmem := hinitial.subset (List.mem_of_getLast? ht)
      rcases hend with hk | hk
      · exact hinit t hmem hk
      · exact (h.brace t (List.mem_append_left _ hmem)).2 hk
    have hcursor : (declarationWith (expression room) (body room) c).cursor = d :=
      hus.eq.trans hpast.eq.symm
    have hpassed : Passed id c (declarationWith (expression room) (body room) c).cursor c' d' :=
      ⟨_, hus, by rwa [List.map_id]⟩
    have hend : d.peek.kind = .eof := (hc.past hpast).rest_eq_nil.mp hd
    have hsame := (completes_declaration_room relocates_id room _ _).completes c c' hc hc'
      (Nat.le_refl _) (Nat.le_refl _) s d' ho hpassed (by rw [hcursor, hend]; decide) helse
    rw [relocate_id] at hsame
    have ho' : (declarationWith (expression room) (body room) c').outcome = .ok s := by
      rw [hsame, ho]
    refine ⟨some s, (declarationWith (expression room) (body room) c).noted,
      (declarationWith (expression room) (body room) c).frames, ?_, ?_, ?_⟩
    · rw [declaration, recovering_of_ok ho, ← hcursor]
    · rw [declaration, recovering_of_ok ho', hsame]
    · rw [faultCount_eq_zero (hdone.invalid rfl hopen)]
      exact Nat.zero_le 1
  | error e =>
    have hstopped := herror e ho
    have hinitial : us <+: init := by
      refine hbefore.resolve_left fun he => ?_
      rcases hstopped.stops with hlast | ⟨-, t, ht, hk⟩
      · exact hlast semi (by rw [he]; exact List.getLast?_concat) hsemi
      · exact hopen t ht hk
    have hafter : d'.afterSemicolon = true := by
      rw [Cursor.afterSemicolon, hpast'.last, List.getLast?_concat]
      exact beq_iff_eq.mpr hsemi
    obtain ⟨hskimmed, hfirst⟩ : Skimmed false (init ++ [semi]).tail ∧
        ∀ t ∈ (init ++ [semi]).head?, t.kind = .semicolon → (init ++ [semi]).tail = [] := by
      have hword := h.word
      cases init with
      | nil => exact ⟨.nil, fun _ _ _ => rfl⟩
      | cons t init =>
        refine ⟨skimmed_append (fun u hu => hinit u (List.mem_cons_of_mem t hu))
          (fun u hu => (h.brace u (List.mem_append_left _ (List.mem_cons_of_mem t hu))).2)
          (fun u hu => hword u (List.mem_append_left _ hu)) (.semicolon hsemi), ?_⟩
        intro u hu hk
        cases hu
        exact absurd hk (hinit t List.mem_cons_self)
    obtain ⟨noted, f, hnoted, hone, hone'⟩ := recovering_isolated room hc hc' hrest hrest' hus
      hinitial ho hpast hpast' (List.prefix_append init [semi]) h.nonempty hskimmed hfirst
      (.inl hd) (.inr (.inl hafter))
    refine ⟨none, noted, f, hone, hone', ?_⟩
    rw [hnoted, faultCount_stopped (hstopped.invalid rfl hopen) hstopped.stopped_fault]

end

/-! ### Blocks -/

/-- A block of which all that stands in it is left out. -/
theorem declaration_empty_block (room : Nat) {c d : Cursor} {noted : List Diagnostic} {f : Nat}
    (hk : c.peek.kind = .leftBrace) (hstop : sequenceStops true c.advance = false)
    (hone : recovering true (declarationWith (expression room) (body room)) c.advance =
      ⟨.ok none, d, noted, f⟩) (hd : d.peek.kind = .rightBrace) :
    declaration (room + 1) c = ⟨.ok (some (.block [])), d.advance, noted, f + 3⟩ := by
  have hblock : (body (room + 1)).block c.peek c.advance = ⟨.ok [], d, noted, f⟩ := by
    have hrest : c.advance.rest ≠ [] := by
      intro hnil
      rw [sequenceStops, hnil] at hstop
      cases hstop
    obtain ⟨t, bound, hbound⟩ := List.exists_cons_of_ne_nil hrest
    have hdone : sequenceStops true d = true := by simp [sequenceStops, hd]
    rw [block_eq, hbound, sequence_step hstop hone, sequence_stop hdone]
    simp only [Reply.inFront, List.append_nil, Nat.max_zero]
    rfl
  have hstatement : declarationWith (expression (room + 1)) (body (room + 1)) c =
      ⟨.ok (.block []), d.advance, noted, f + 3⟩ := by
    rw [declarationWith, peek_bind, if_neg (by rw [hk]; decide),
      statement_block_closed hk (by rw [hblock]) (by rw [hblock]; exact hd), hblock]
  rw [declaration, recovering_of_ok (by rw [hstatement]), hstatement]

section
variable {c c' d d' : Cursor}

/-- In a block that holds a fragment without a semicolon nothing is left but one fault, whatever
follows. -/
theorem declaration_block_fragment (room : Nat) {ts : List Token} {opening closing : Token}
    (h : Fragment ts) (hopening : opening.kind = .leftBrace) (hclosing : closing.kind = .rightBrace)
    (hts : ∀ t ∈ ts, t.kind ≠ .semicolon) (hc : c.Delimited) (hc' : c'.Delimited)
    (hpast : c.Past (opening :: (ts ++ [closing])) d)
    (hpast' : c'.Past (opening :: (ts ++ [closing])) d') :
    ∃ noted f, declaration (room + 1) c = ⟨.ok (some (.block [])), d, noted, f⟩ ∧
      declaration (room + 1) c' = ⟨.ok (some (.block [])), d', noted, f⟩ ∧
      faultCount noted = 1 := by
  obtain ⟨hfirst, hinner⟩ := past_cons.mp hpast
  obtain ⟨hfirst', hinner'⟩ := past_cons.mp hpast'
  obtain ⟨k, hts_past, hclose⟩ := past_append.mp hinner
  obtain ⟨k', hts_past', hclose'⟩ := past_append.mp hinner'
  obtain ⟨hk, hlast⟩ := past_cons.mp hclose
  obtain ⟨hk', hlast'⟩ := past_cons.mp hclose'
  obtain rfl := past_nil.mp hlast
  obtain rfl := past_nil.mp hlast'
  have hkc : k.peek.kind = .rightBrace := by rw [peek_eq hk, hclosing]
  have hkc' : k'.peek.kind = .rightBrace := by rw [peek_eq hk', hclosing]
  have hrest : c.advance.rest = ts ++ closing :: k.advance.rest := by rw [hts_past.rest, hk]
  have hrest' : c'.advance.rest = ts ++ closing :: k'.advance.rest := by rw [hts_past'.rest, hk']
  obtain ⟨us, hus, hok, herror⟩ := course_declaration room hc.advance
  -- the closing brace cannot be passed
  have hinitial (hbraced : Braced us) : us <+: ts := by
    have hwhole : ts ++ [closing] <+: c.advance.rest := ⟨_, by rw [hrest, List.append_assoc]; rfl⟩
    have hbad (h' : ts ++ [closing] <+: us) : us <+: ts := by
      obtain ⟨vs, rfl⟩ := h'
      obtain ⟨u, hu, hopen⟩ := hbraced ts closing vs (by rw [List.append_assoc]; rfl) hclosing
      exact absurd hopen (h.brace u hu).1
    rcases List.prefix_or_prefix_of_prefix ⟨_, hus.rest.symm⟩ hwhole with h' | h'
    · rcases List.prefix_concat_iff.mp h' with rfl | h'
      · exact hbad (List.prefix_refl _)
      · exact h'
    · exact hbad h'
  cases ho : (declarationWith (expression room) (body room) c.advance).outcome with
  | ok s =>
    obtain ⟨t, ht, hend⟩ := (hok s ho).ends
    have hmem := (hinitial ((hok s ho).braced rfl)).subset (List.mem_of_getLast? ht)
    rcases hend with hk | hk
    · exact absurd hk (hts t hmem)
    · exact absurd hk (h.brace t hmem).2
  | error e =>
    have hstopped := herror e ho
    have hinitial := hinitial (hstopped.braced rfl)
    have hskimmed : Skimmed true ts.tail := by
      rw [← List.append_nil ts.tail]
      exact skimmed_append (fun t ht => hts t (List.mem_of_mem_tail ht))
        (fun t ht => (h.brace t (List.mem_of_mem_tail ht)).2) h.word .nil
    obtain ⟨noted, f, hnoted, hone, hone'⟩ := recovering_isolated room hc.advance hc'.advance hrest
      hrest' hus hinitial ho hts_past hts_past' (List.prefix_refl ts) h.nonempty hskimmed
      (fun t ht hk => absurd hk (hts t (List.mem_of_mem_head? ht)))
      (.inr (.inr (.inr ⟨rfl, hkc⟩))) (.inr (.inr (.inr ⟨rfl, hkc'⟩)))
    have hgo {b : Cursor} {xs : List Token} (hb : b.rest = ts ++ xs) :
        sequenceStops true b = false := by
      obtain ⟨t, ts, rfl⟩ := List.exists_cons_of_ne_nil h.nonempty
      have hne := (h.brace t List.mem_cons_self).2
      simp [sequenceStops, peek_eq hb, hb, hne]
    refine ⟨noted, f + 3, ?_, ?_, ?_⟩
    · exact declaration_empty_block room (by rw [peek_eq hfirst, hopening]) (hgo hrest) hone hkc
    · exact declaration_empty_block room (by rw [peek_eq hfirst', hopening]) (hgo hrest') hone' hkc'
    · have hopen : ∀ t ∈ us, t.kind ≠ .leftBrace := fun t ht => (h.brace t (hinitial.subset ht)).1
      rw [hnoted, faultCount_stopped (hstopped.invalid rfl hopen) hstopped.stopped_fault]

end

/-! ### Whole lists of tokens -/

theorem parsed_append_nil (p : Parsed) : p ++ (⟨[], [], 0⟩ : Parsed) = p := by
  obtain ⟨statements, diagnostics, frames⟩ := p
  show Parsed.append _ _ = _
  simp only [Parsed.append, List.append_nil, Nat.max_zero]

theorem past_start_append (ts us : List Token) (final : Token) :
    ∃ d, (start ⟨ts ++ us, final⟩).Past ts d ∧ d.rest = us := by
  have hrest : ((start ⟨ts ++ us, final⟩).forward ts.length).rest = us := by
    rw [rest_forward]
    exact List.drop_left
  exact ⟨_, ⟨by rw [hrest]; rfl, rfl⟩, hrest⟩

/-- A declaration that has the same reply with others behind it and with none. -/
theorem parseTokens_isolated (room : Nat) (holds : Option Stmt → List Diagnostic → Prop)
    {ts : List Token} {rest : Tokens} {final : Token} (hrest : (start rest).Delimited)
    (hfinal : final.kind = .eof) (hne : ts ≠ []) (hts : ∀ t ∈ ts, t.kind ≠ .eof)
    (h : ∀ c c' d d' : Cursor, c.Delimited → c'.Delimited → c.Past ts d → d.rest = [] →
      c'.Past ts d' → d'.peek = (start rest).peek →
      ∃ o noted f, declaration room c = ⟨.ok o, d, noted, f⟩ ∧
        declaration room c' = ⟨.ok o, d', noted, f⟩ ∧ holds o noted) :
    parseTokens room ⟨ts ++ rest.body, rest.final⟩ =
        parseTokens room ⟨ts, final⟩ ++ parseTokens room rest ∧
      ∃ o noted f, parseTokens room ⟨ts, final⟩ = ⟨o.toList, noted, f⟩ ∧ holds o noted := by
  have hend : (start ⟨[], final⟩).Delimited := ⟨hfinal, fun t ht => by cases ht⟩
  have hc : (start ⟨ts, final⟩).Delimited := ⟨hfinal, hts⟩
  have hc' : (start ⟨ts ++ rest.body, rest.final⟩).Delimited :=
    ⟨hrest.final, List.forall_mem_append.mpr ⟨hts, hrest.rest⟩⟩
  obtain ⟨d, hd, hnil, -⟩ := past_start ts final
  obtain ⟨d', hd', hbody⟩ := past_start_append ts rest.body rest.final
  have hpeek : d'.peek = (start rest).peek := by
    rw [Cursor.peek, hbody, hd'.final]
    rfl
  obtain ⟨o, noted, f, hone, hone', hholds⟩ := h _ _ d d' hc hc' hd hnil hd' hpeek
  have halone := parseTokens_of_declaration hc hend hne hone (hc.past hd) hnil hd.final
  have hne' : ts ++ rest.body ≠ [] := fun he => hne (List.append_eq_nil_iff.mp he).1
  have hwhole := parseTokens_of_declaration hc' hrest hne' hone' (hc'.past hd') hbody hd'.final
  have hnone : parseTokens room ⟨[], final⟩ = ⟨[], [], 0⟩ := rfl
  rw [hnone, parsed_append_nil] at halone
  exact ⟨by rw [hwhole, halone], o, noted, f, halone, hholds⟩

/-- **What is malformed stays by itself**, for every limit. A fragment that ends with a semicolon
is parsed in front of other tokens as it is by itself, if they do not begin with an else, and has
at most one fault but for those of targets. A block that holds a fragment without a semicolon is
parsed as it is by itself, whatever follows; it is a block with nothing in it, and has exactly
one such fault. Up to a limit of 55 the stack has room for all of this. -/
theorem statement_isolated (limit : Int) (rest : Tokens) (final : Token)
    (hrest : (start rest).Delimited) (hfinal : final.kind = .eof) :
    (∀ init semi, Fragment (init ++ [semi]) → semi.kind = .semicolon →
      (∀ t ∈ init, t.kind ≠ .semicolon) → (start rest).peek.kind ≠ .elseWord →
      parseTokens limit.toNat ⟨init ++ [semi] ++ rest.body, rest.final⟩ =
          parseTokens limit.toNat ⟨init ++ [semi], final⟩ ++ parseTokens limit.toNat rest ∧
        faultCount (parseTokens limit.toNat ⟨init ++ [semi], final⟩).diagnostics ≤ 1) ∧
    (∀ ts opening closing, Fragment ts → opening.kind = .leftBrace → closing.kind = .rightBrace →
      (∀ t ∈ ts, t.kind ≠ .semicolon) → 1 ≤ limit →
      parseTokens limit.toNat ⟨opening :: (ts ++ [closing]) ++ rest.body, rest.final⟩ =
          parseTokens limit.toNat ⟨opening :: (ts ++ [closing]), final⟩ ++
            parseTokens limit.toNat rest ∧
        (parseTokens limit.toNat ⟨opening :: (ts ++ [closing]), final⟩).statements = [.block []] ∧
        faultCount (parseTokens limit.toNat ⟨opening :: (ts ++ [closing]), final⟩).diagnostics =
          1) ∧
    (limit ≤ 55 → ∀ us, (parseTokens limit.toNat us).fits = true) := by
  refine ⟨fun init semi h hsemi hinit helse => ?_, fun ts opening closing h ho hc hts hlimit => ?_,
    fun hlimit us => parseTokens_fits _ (by omega) us⟩
  · obtain ⟨hwhole, o, noted, f, halone, hcount⟩ := parseTokens_isolated limit.toNat
      (fun _ noted => faultCount noted ≤ 1) hrest hfinal h.nonempty h.inside
      fun c c' d d' hc hc' hd hnil hd' hpeek =>
        declaration_fragment limit.toNat h hsemi hinit hc hc' hd hnil hd' (by rwa [hpeek])
    exact ⟨hwhole, by rwa [halone]⟩
  · obtain ⟨room, hroom⟩ := Nat.exists_eq_add_of_le' (show 1 ≤ limit.toNat by omega)
    have hinside : ∀ t ∈ opening :: (ts ++ [closing]), t.kind ≠ .eof := by
      have hopening : opening.kind ≠ .eof := by rw [ho]; decide
      have hclosing : closing.kind ≠ .eof := by rw [hc]; decide
      rw [List.forall_mem_cons, List.forall_mem_append, List.forall_mem_singleton]
      exact ⟨hopening, h.inside, hclosing⟩
    obtain ⟨hwhole, o, noted, f, halone, rfl, hcount⟩ := parseTokens_isolated (room + 1)
      (fun o noted => o = some (.block []) ∧ faultCount noted = 1) hrest hfinal
      (List.cons_ne_nil _ _) hinside fun c c' d d' hc' hc'' hd hnil hd' hpeek => by
        obtain ⟨noted, f, hone, hone', hcount⟩ :=
          declaration_block_fragment room h ho hc hts hc' hc'' hd hd'
        exact ⟨_, noted, f, hone, hone', rfl, hcount⟩
    rw [hroom]
    exact ⟨hwhole, by rw [halone]; rfl, by rwa [halone]⟩

/-- The tokens of a program that prints nil. -/
def printNil : Tokens :=
  ⟨[⟨.printWord, 8, 12, "print"⟩, ⟨.nilWord, 14, 16, "nil"⟩, ⟨.semicolon, 17, 17, ";"⟩],
    ⟨.eof, 17, 17, ""⟩⟩

/-- A print without a value is left out in front of this program, and in a block too. -/
theorem statement_isolated_print :
    (parseTokens (41 : Int).toNat ⟨[⟨.printWord, 0, 4, "print"⟩] ++ [⟨.semicolon, 5, 5, ";"⟩] ++
        printNil.body, printNil.final⟩).statements = [.print .nil] ∧
      (parseTokens (41 : Int).toNat ⟨⟨.leftBrace, 0, 0, "\x7b"⟩ :: ([⟨.printWord, 1, 5, "print"⟩] ++
        [⟨.rightBrace, 6, 6, "\x7d"⟩]) ++ printNil.body, printNil.final⟩).statements =
          [.block [], .print .nil] := by
  obtain ⟨hstatement, hblock, -⟩ := statement_isolated 41 printNil ⟨.eof, 6, 6, ""⟩
    ⟨rfl, by decide⟩ rfl
  obtain ⟨hstatement, -⟩ := hstatement [⟨.printWord, 0, 4, "print"⟩] ⟨.semicolon, 5, 5, ";"⟩
    ⟨by decide, by decide, by decide, by decide⟩ rfl (by decide) (by decide)
  obtain ⟨hblock, hempty, -⟩ := hblock [⟨.printWord, 1, 5, "print"⟩] ⟨.leftBrace, 0, 0, "\x7b"⟩
    ⟨.rightBrace, 6, 6, "\x7d"⟩ ⟨by decide, by decide, by decide, by decide⟩ rfl rfl (by decide)
    (by decide)
  rw [hstatement, hblock]
  exact ⟨rfl, rfl⟩

/-! ### Limits out of reach -/

/-- Parentheses that are opened and not closed, behind the first character of a source. -/
def openGroups (n : Nat) : List Token :=
  (List.range n).map fun i => ⟨.leftParen, i + 1, i + 1, "("⟩

/-- The stack has no room for a hundred open parentheses, although the limit allows for them: a
block that holds them is not parsed at all. -/
theorem openGroups_out_of_reach :
    Fragment (openGroups 100) ∧ (∀ t ∈ openGroups 100, t.kind ≠ .semicolon) ∧
      (parseTokens (100 : Int).toNat ⟨⟨.leftBrace, 0, 0, "\x7b"⟩ ::
        (openGroups 100 ++ [⟨.rightBrace, 101, 101, "\x7d"⟩]), ⟨.eof, 101, 101, ""⟩⟩).fits =
          false := by
  refine ⟨⟨?_, ?_, ?_, ?_⟩, ?_, ?_⟩ <;> decide +kernel

end Scriptlet
