import Scriptlet.Proofs.Limits.Losses

/-! Declarations by themselves and in a list.

`Runs inBlock one c ss d` says that the loop over declarations comes from one cursor
to another and returns statements on the way. Tokens without braces that end with a
semicolon are a part of a list that has no effect on the others: the loop makes the
same of them as if nothing stood behind (`runs_alone`), however many declarations it
finds in them. -/
namespace Scriptlet

open Scriptlet.Parser Scriptlet.Cursor

/-! ### The loop -/

/-- The loop over declarations comes from one cursor to another. -/
inductive Runs (inBlock : Bool) (one : Parser (Option Stmt)) : Cursor → List Stmt → Cursor → Prop
  | stay {c} : Runs inBlock one c [] c
  | step {c m d o ss} : sequenceStops inBlock c = false → Gives one c o m →
      Runs inBlock one m ss d → Runs inBlock one c (o.toList ++ ss) d

section
variable {inBlock : Bool} {one : Parser (Option Stmt)} {c d : Cursor}

theorem Runs.append {m : Cursor} {ss more : List Stmt} (h : Runs inBlock one c ss m)
    (h' : Runs inBlock one m more d) : Runs inBlock one c (ss ++ more) d := by
  induction h with
  | stay => exact h'
  | step hgo hone _ ih =>
    rw [List.append_assoc]
    exact .step hgo hone (ih h')

/-- Where the loop ends, it returns the statements. -/
theorem Runs.gives {ss : List Stmt} (h : Runs inBlock one c ss d) (hforward : Forward one)
    (hprogresses : Progresses one) {bound : List Token} (hc : c.Delimited)
    (hlen : c.rest.length ≤ bound.length) (hd : sequenceStops inBlock d = true) :
    Gives (sequence inBlock one bound) c ss d := by
  induction h generalizing bound with
  | stay => exact ⟨by rw [sequence_stop hd], by rw [sequence_stop hd]⟩
  | @step c m d o ss hgo hone _ ih =>
    have hrest : c.rest ≠ [] := by
      intro hnil
      rw [sequenceStops, hnil] at hgo
      cases hgo
    have hless := hprogresses c hc hrest
    obtain ⟨us, hus⟩ := hforward c
    rw [hone.cursor] at hless hus
    cases bound with
    | nil =>
      rw [List.length_nil] at hlen
      omega
    | cons t bound =>
      rw [List.length_cons] at hlen
      rw [gives_congr (sequence_go hgo t bound)]
      exact gives_bind.mpr ⟨o, m, hone,
        gives_bind.mpr ⟨ss, d, ih (hc.past hus) (by omega) hd, gives_pure.mpr ⟨rfl, rfl⟩⟩⟩

end

/-- The loop over the declarations of a level. -/
theorem Runs.sequence {inBlock : Bool} {room : Nat} {c d : Cursor} {ss : List Stmt}
    (h : Runs inBlock (recovering inBlock (declarationWith (expression room) (body room))) c ss d)
    (hc : c.Delimited) (hd : sequenceStops inBlock d = true) :
    Gives (sequence inBlock (recovering inBlock (declarationWith (expression room) (body room)))
      c.rest) c ss d := by
  obtain ⟨hforward, hconsumes⟩ := declaration_facts room
  exact h.gives (forward_recovering inBlock hforward)
    (progresses_recovering inBlock hforward hconsumes) hc (Nat.le_refl _) hd

/-! ### Tokens without braces -/

/-- Tokens that neither open a block nor close one, up to a semicolon. -/
structure Ended (ts : List Token) : Prop where
  brace : ∀ t ∈ ts, t.kind ≠ .leftBrace ∧ t.kind ≠ .rightBrace
  last : ∃ t ∈ ts.getLast?, t.kind = .semicolon

theorem Ended.behind {us ws : List Token} (h : Ended (us ++ ws)) (hne : ws ≠ []) : Ended ws := by
  refine ⟨fun t ht => h.brace t (List.mem_append_right _ ht), ?_⟩
  obtain ⟨t, ht, hk⟩ := h.last
  rw [List.getLast?_append, List.getLast?_eq_some_getLast hne] at ht
  exact ⟨t, by rwa [List.getLast?_eq_some_getLast hne], hk⟩

/-- Whether a statement has ended is known by the tokens that were passed. -/
theorem Cursor.Past.afterSemicolon {ts : List Token} {c d : Cursor} (h : c.Past ts d)
    (hne : ts ≠ []) : d.afterSemicolon = ts.getLast?.any (·.kind == .semicolon) := by
  rw [Cursor.afterSemicolon, h.last, List.getLast?_eq_some_getLast hne]
  rfl

/-- Resuming in such tokens is the same whatever follows. -/
theorem resume_alone (inBlock : Bool) {ts : List Token} {k k' d : Cursor}
    (hclose : ∀ t ∈ ts, t.kind ≠ .rightBrace) (hrest' : k'.rest = ts) (hpast : k.Past ts d)
    (hlast : k'.afterSemicolon = k.afterSemicolon) (hd : d.afterSemicolon = true) :
    ∃ zs ws, ts = zs ++ ws ∧ k'.Past zs (k'.resume false) ∧ k.Past zs (k.resume inBlock) := by
  induction ts generalizing k k' with
  | nil =>
    obtain rfl := past_nil.mp hpast
    have hresumed : d.Resumed inBlock := .inr (.inl hd)
    exact ⟨[], [], rfl, past_nil.mpr (resume_nil hrest'), past_nil.mpr hresumed.resume⟩
  | cons t ts ih =>
    obtain ⟨hrest, hts⟩ := past_cons.mp hpast
    obtain ⟨ht, hclose⟩ := List.forall_mem_cons.mp hclose
    have hsame : resumesBefore inBlock k t = resumesBefore false k' t := by
      simp [resumesBefore, hlast, ht]
    cases hstop : resumesBefore false k' t with
    | true =>
      exact ⟨[], t :: ts, rfl, past_nil.mpr (resume_stop hrest' hstop),
        past_nil.mpr (resume_stop hrest (hsame.trans hstop))⟩
    | false =>
      have hadvance' : k'.advance.rest = ts := by rw [rest_advance, hrest']; rfl
      obtain ⟨zs, ws, rfl, hzs', hzs⟩ := ih hclose hadvance' hts
        (by simp only [Cursor.afterSemicolon, last_advance hrest, last_advance hrest'])
      rw [resume_go hrest' hstop, resume_go hrest (hsame.trans hstop)]
      exact ⟨t :: zs, ws, rfl, past_cons.mpr ⟨by rw [hrest', hadvance'], hzs'⟩,
        past_cons.mpr ⟨hrest, hzs⟩⟩

section
variable {inBlock : Bool} {room : Nat} {c c' d : Cursor} {vs : List Token}

/-- A declaration that does not end behind such tokens, or ends without an else behind it, is
the same whatever follows. -/
theorem declaration_alone {us ws : List Token} {m : Cursor} (hc : c.Delimited)
    (hc' : c'.Delimited)
    (hus : c'.Past us (declarationWith (expression room) (body room) c').cursor)
    (hws : (declarationWith (expression room) (body room) c').cursor.rest = ws)
    (hm : c.Past us m) (hmore : m.Past ws d)
    (hend : ws = [] → (∃ s, (declarationWith (expression room) (body room) c').outcome = .ok s) ∧
      d.peek.kind ≠ .elseWord) :
    declarationWith (expression room) (body room) c =
      { declarationWith (expression room) (body room) c' with cursor := m } := by
  have hpassed : Passed id c' (declarationWith (expression room) (body room) c').cursor c m :=
    ⟨us, hus, by rwa [List.map_id]⟩
  cases ws with
  | nil =>
    obtain ⟨⟨s, ho⟩, helse⟩ := hend rfl
    obtain rfl := past_nil.mp hmore
    have heof := (hc'.past hus).rest_eq_nil.mp hws
    have hsame := (completes_declaration_room relocates_id room _ _).completes c' c hc' hc
      (Nat.le_refl _) (Nat.le_refl _) s d ho hpassed (by rw [heof]; decide) helse
    rwa [relocate_id] at hsame
  | cons t ws =>
    have hpeek : m.peek = (declarationWith (expression room) (body room) c').cursor.peek := by
      rw [peek_eq hws, peek_eq (past_cons.mp hmore).1]
    have hsame := (tracks_declaration_room relocates_id room _ _).agrees c' c m hc' hc
      (Nat.le_refl _) (Nat.le_refl _) (hpassed.shown hpeek)
    rwa [relocate_id] at hsame

/-- One round of the loop in such tokens is the same whatever follows. -/
theorem step_alone (inBlock : Bool) (room : Nat) (hc : c.Delimited) (hc' : c'.Delimited)
    (h : Ended vs) (hpast : c.Past vs d) (helse : d.peek.kind ≠ .elseWord) (hrest' : c'.rest = vs) :
    ∃ o us ws m m', vs = us ++ ws ∧ c'.Past us m' ∧ c.Past us m ∧ Gives (declaration room) c' o m' ∧
      Gives (recovering inBlock (declarationWith (expression room) (body room))) c o m := by
  obtain ⟨us, hus, hok, herror⟩ := course_declaration room hc'
  obtain ⟨ws, rfl⟩ : us <+: vs := ⟨_, by rw [← hrest', ← hus.rest]⟩
  have hws := List.append_cancel_left (hus.rest.symm.trans hrest')
  obtain ⟨m, hm, hmore⟩ := past_append.mp hpast
  cases ho : (declarationWith (expression room) (body room) c').outcome with
  | ok s =>
    have hsame := declaration_alone hc hc' hus hws hm hmore fun _ => ⟨⟨s, ho⟩, helse⟩
    have ho' : (declarationWith (expression room) (body room) c).outcome = .ok s := by
      rw [hsame, ho]
    refine ⟨some s, us, ws, m, _, rfl, hus, hm, ⟨?_, ?_⟩, ?_, ?_⟩
    · rw [declaration, recovering_of_ok ho]
    · rw [declaration, recovering_of_ok ho]
    · rw [recovering_of_ok ho']
    · rw [recovering_of_ok ho', hsame]
  | error e =>
    -- it stops before the last of the tokens, where the same token is ahead
    have hne : ws ≠ [] := by
      intro hnil
      subst hnil
      obtain ⟨t, ht, hk⟩ := h.last
      rw [List.append_nil] at ht
      rcases (herror e ho).stops with hlast | ⟨-, u, hu, hopen⟩
      · exact hlast t ht hk
      · exact (h.brace u (List.mem_append_left _ hu)).1 hopen
    have hsame := declaration_alone hc hc' hus hws hm hmore fun hnil => absurd hnil hne
    have ho' : (declarationWith (expression room) (body room) c).outcome = .error e := by
      rw [hsame, ho]
    have hshown : Shown id c' (declarationWith (expression room) (body room) c').cursor c
        (declarationWith (expression room) (body room) c).cursor := by
      obtain ⟨t, ws, rfl⟩ := List.exists_cons_of_ne_nil hne
      refine ⟨us, hus, by rwa [hsame, List.map_id], ?_⟩
      rw [hsame, peek_eq hws]
      exact peek_eq (past_cons.mp hmore).1
    have hrest : c'.rest ≠ [] := by
      rw [hrest']
      exact fun hnil => hne (List.append_eq_nil_iff.mp hnil).2
    -- so parsing moves on behind the same tokens, and resumes behind the same tokens
    obtain ⟨ys, hys, hmoved', hmoved⟩ := exists_movedOn hshown hc' hc hrest
    have hsplit := hrest'.symm.trans hmoved'.rest
    rw [hsplit] at hpast h
    obtain ⟨k, hk, hleft⟩ := past_append.mp hpast
    obtain rfl := hk.eq.trans hmoved.eq.symm
    have hlast' := hmoved'.afterSemicolon hys
    rw [← hmoved.afterSemicolon hys] at hlast'
    have hd : d.afterSemicolon = true := by
      obtain ⟨t, ht, hk⟩ := h.last
      rw [hpast.afterSemicolon (fun hnil => hys (List.append_eq_nil_iff.mp hnil).1),
        Option.mem_def.mp ht]
      exact beq_iff_eq.mpr hk
    obtain ⟨zs, ws, hzsws, hzs', hzs⟩ := resume_alone inBlock
      (fun t ht => (h.brace t (List.mem_append_right _ ht)).2) rfl hleft hlast' hd
    rw [hzsws, ← List.append_assoc] at hsplit
    refine ⟨none, ys ++ zs, ws, _, _, hsplit, past_append.mpr ⟨_, hmoved', hzs'⟩,
      past_append.mpr ⟨_, hmoved, hzs⟩, ⟨?_, ?_⟩, ?_, ?_⟩
    · rw [declaration, recovering_of_stop ho]
    · rw [declaration, recovering_of_stop ho]
    · rw [recovering_of_stop ho']
    · rw [recovering_of_stop ho']

theorem Ended.sequenceStops (h : Ended vs) (inBlock : Bool) (hc : vs <+: c.rest) :
    sequenceStops inBlock c = false := by
  obtain ⟨rest, hc⟩ := hc
  obtain ⟨t, ht, -⟩ := h.last
  obtain ⟨u, ts, rfl⟩ := List.exists_cons_of_ne_nil (List.ne_nil_of_mem (List.mem_of_getLast? ht))
  have hne := (h.brace u List.mem_cons_self).2
  simp [Scriptlet.sequenceStops, peek_eq hc.symm, ← hc, hne]

/-- All rounds of the loop in such tokens, beside the rounds where nothing follows. -/
theorem runs_beside {n : Nat} (hn : vs.length ≤ n) (hc : c.Delimited) (hc' : c'.Delimited)
    (h : vs = [] ∨ Ended vs) (hpast : c.Past vs d) (helse : d.peek.kind ≠ .elseWord)
    (hrest' : c'.rest = vs) :
    ∃ ss e, Runs false (declaration room) c' ss e ∧ e.rest = [] ∧
      Runs inBlock (recovering inBlock (declarationWith (expression room) (body room))) c ss d := by
  induction n generalizing c c' vs with
  | zero =>
    obtain rfl := List.length_eq_zero_iff.mp (Nat.le_zero.mp hn)
    obtain rfl := past_nil.mp hpast
    exact ⟨[], c', .stay, hrest', .stay⟩
  | succ n ih =>
    rcases h with rfl | h
    · obtain rfl := past_nil.mp hpast
      exact ⟨[], c', .stay, hrest', .stay⟩
    have hgo := h.sequenceStops inBlock ⟨_, hpast.rest.symm⟩
    have hgo' := h.sequenceStops false ⟨[], by rw [List.append_nil, hrest']⟩
    obtain ⟨o, us, ws, m, m', rfl, hus', hus, hone', hone⟩ :=
      step_alone inBlock room hc hc' h hpast helse hrest'
    have hws' : m'.rest = ws := List.append_cancel_left (hus'.rest.symm.trans hrest')
    obtain ⟨k, hk, hws⟩ := past_append.mp hpast
    obtain rfl := hk.eq.trans hus.eq.symm
    have hbehind : ws = [] ∨ Ended ws := or_iff_not_imp_left.mpr h.behind
    have hless := progresses_declaration room c' hc' fun hnil => by
      rw [Scriptlet.sequenceStops, hnil] at hgo'
      cases hgo'
    rw [hone'.cursor, hrest', hws'] at hless
    obtain ⟨ss, e, hrun', he, hrun⟩ :=
      ih (by omega) (hc.past hk) (hc'.past hus') hbehind hws hws'
    exact ⟨o.toList ++ ss, e, .step hgo' hone' hrun', he, .step hgo hone hrun⟩

/-- **Tokens without braces that end with a semicolon** give the same statements wherever they
stand, if no else follows. -/
theorem runs_alone (hc : c.Delimited) (h : Ended vs) (hpast : c.Past vs d)
    (helse : d.peek.kind ≠ .elseWord) {final : Token} (hfinal : final.kind = .eof) :
    Runs inBlock (recovering inBlock (declarationWith (expression room) (body room))) c
      (parseTokens room ⟨vs, final⟩).statements d := by
  have hc' : (start ⟨vs, final⟩).Delimited := by
    refine ⟨hfinal, fun t ht => hc.rest t ?_⟩
    rw [hpast.rest]
    exact List.mem_append_left _ ht
  obtain ⟨ss, e, hrun', he, hrun⟩ :=
    runs_beside (Nat.le_refl _) hc hc' (.inr h) hpast helse rfl
  have hgives := Runs.sequence hrun' hc' (by rw [Scriptlet.sequenceStops, he]; rfl)
  have hstatements : (parseTokens room ⟨vs, final⟩).statements = ss := by
    show (program room (start ⟨vs, final⟩)).outcome.toOption.getD [] = ss
    rw [program_eq]
    exact congrArg (·.toOption.getD []) hgives.outcome
  rwa [hstatements]

end

end Scriptlet
