import Scriptlet.Proofs.Faults.Statements
import Scriptlet.Proofs.Locality.Programs

/-! The course of declarations that stand one behind the other.

Where a declaration stops, parsing moves on and resumes, and what it passes over is
part of the course (`resumes_movedOn`). So the course of a declaration goes on with
that of the next, up to the brace that closes a block or to the end, and the levels
are put together from that. `course_declaration` and `course_program` are what all
of it is for. -/
namespace Scriptlet

open Scriptlet.Parser Scriptlet.Cursor

/-! ### Declarations one behind the other -/

theorem Cursor.Past.head {ts : List Token} {c d : Cursor} (h : c.Past ts d) (hne : ts ≠ []) :
    ts.head? = some c.peek := by
  obtain ⟨t, ts, rfl⟩ := List.exists_cons_of_ne_nil hne
  rw [peek_eq (past_cons.mp h).1]
  rfl

section
variable {inBlock : Bool} {p : Parser Stmt} {c : Cursor}

/-- How parsing goes on behind a declaration that was stopped. -/
theorem resumes_movedOn (inBlock : Bool) {us : List Token} (hc : c.Delimited) (hrest : c.rest ≠ [])
    (hus : c.Past us (p c).cursor) :
    ∃ vs, (p c).cursor.Past vs ((movedOn p c).resume inBlock) ∧ us ++ vs ≠ [] ∧
      Resumes inBlock us vs (p c).cursor.peek ((movedOn p c).resume inBlock).peek := by
  obtain ⟨vs, hvs⟩ := past_movedOn (p := p) c
  obtain ⟨ws, hws⟩ := past_resume inBlock (movedOn p c)
  have hpast := past_append.mpr ⟨_, hvs, hws⟩
  refine ⟨vs ++ ws, hpast, ?_⟩
  by_cases hnil : vs ++ ws = []
  · -- nothing has been moved over, so that something was passed before
    have hus_ne : us ≠ [] := by
      intro he
      subst he
      obtain ⟨rfl, -⟩ := List.append_eq_nil_iff.mp hnil
      have hstay := past_nil.mp hus
      have hmoved := past_nil.mp hvs
      rw [movedOn, hstay, if_pos rfl] at hmoved
      have hlen := congrArg (fun d => d.rest.length) hmoved
      rw [rest_advance, List.length_tail] at hlen
      have := List.length_pos_iff.mpr hrest
      omega
    have hstops := resumed_resume inBlock (movedOn p c)
    rw [hnil] at hpast
    rw [past_nil.mp hpast] at hstops ⊢
    refine ⟨fun he => hus_ne (List.append_eq_nil_iff.mp he).1, .inr ⟨hnil, hus_ne, rfl, ?_⟩⟩
    rcases hstops with hend | hsemicolon | hstop
    · exact .inl ((hc.past hus).rest_eq_nil.mp hend)
    · right
      left
      rw [Cursor.afterSemicolon, hus.last, List.getLast?_eq_some_getLast hus_ne] at hsemicolon
      exact ⟨_, List.getLast?_eq_some_getLast hus_ne, eq_of_beq hsemicolon⟩
    · exact .inr (.inr hstop)
  · exact ⟨fun he => hnil (List.append_eq_nil_iff.mp he).2, .inl (hpast.head hnil)⟩

/-- A declaration, and what is passed behind it if it is malformed. -/
theorem course_recovering (hc : c.Delimited) (hrest : c.rest ≠ [])
    (hclose : inBlock = true → c.peek.kind ≠ .rightBrace) (hp : LeadsAt .done [] [] p c)
    {ts : List Token} {noted : List Diagnostic} (h : Course (.several inBlock c.peek) ts noted) :
    ∃ us, c.Past us (recovering inBlock p c).cursor ∧
      Course (.several inBlock (recovering inBlock p c).cursor.peek) (ts ++ us)
        (noted ++ (recovering inBlock p c).noted) := by
  obtain ⟨us, hus, hok, herror⟩ := hp
  cases ho : (p c).outcome with
  | ok s =>
    have hdone := hok s ho
    have hne : us ≠ [] := by
      intro he
      subst he
      obtain ⟨t, ht, -⟩ := hdone.ends
      cases ht
    rw [recovering_of_ok ho]
    exact ⟨us, hus, h.one (hus.head hne) hclose hdone⟩
  | error e =>
    obtain ⟨vs, hvs, hne, hresumes⟩ := resumes_movedOn inBlock hc hrest hus
    have hpast := past_append.mpr ⟨_, hus, hvs⟩
    rw [recovering_of_stop ho]
    exact ⟨us ++ vs, hpast, h.malformed (hpast.head hne) hclose (herror e ho) hresumes⟩

/-- Where a sequence goes on, one more declaration stands in front of the rest. -/
theorem sequence_recovering (hstop : sequenceStops inBlock c = false) (t : Token)
    (bound : List Token) :
    ∃ ss, sequence inBlock (recovering inBlock p) (t :: bound) c =
      (sequence inBlock (recovering inBlock p) bound (recovering inBlock p c).cursor).inFront ss
        (recovering inBlock p c).noted (recovering inBlock p c).frames := by
  obtain ⟨o, ho⟩ := recovering_ok inBlock p c
  exact ⟨o.toList, sequence_step hstop (by rw [← ho]) t bound⟩

/-- Declarations up to the end or to a closing brace. -/
theorem course_sequence (hp : ∀ c : Cursor, c.Delimited → LeadsAt .done [] [] p c)
    (bound : List Token) (hc : c.Delimited) {ts : List Token} {noted : List Diagnostic}
    (h : Course (.several inBlock c.peek) ts noted) :
    ∃ us, c.Past us (sequence inBlock (recovering inBlock p) bound c).cursor ∧
      Course (.several inBlock (sequence inBlock (recovering inBlock p) bound c).cursor.peek)
        (ts ++ us) (noted ++ (sequence inBlock (recovering inBlock p) bound c).noted) := by
  have hnone {c : Cursor} {ts : List Token} {noted : List Diagnostic}
      (h : Course (.several inBlock c.peek) ts noted) :
      ∃ us, c.Past us c ∧ Course (.several inBlock c.peek) (ts ++ us) (noted ++ []) := by
    refine ⟨[], past_nil.mpr rfl, ?_⟩
    rwa [List.append_nil, List.append_nil]
  induction bound generalizing c ts noted with
  | nil => exact hnone h
  | cons t bound ih =>
    cases hstop : sequenceStops inBlock c with
    | true =>
      rw [sequence_stop hstop]
      exact hnone h
    | false =>
      obtain ⟨hrest, hclose⟩ : c.rest ≠ [] ∧ (inBlock = true → c.peek.kind ≠ .rightBrace) := by
        simpa [sequenceStops] using hstop
      obtain ⟨ss, hstep⟩ := sequence_recovering (p := p) hstop t bound
      obtain ⟨us, hus, hfirst⟩ := course_recovering hc hrest hclose (hp c hc) h
      obtain ⟨vs, hvs, hmore⟩ := ih (hc.past hus) hfirst
      rw [hstep]
      refine ⟨us ++ vs, past_append.mpr ⟨_, hus, hvs⟩, ?_⟩
      rw [List.append_assoc, List.append_assoc] at hmore
      exact hmore

theorem sequence_stops (hp : Progresses (recovering inBlock p)) (hforward : Forward p)
    (bound : List Token) (hc : c.Delimited) (hlen : c.rest.length ≤ bound.length) :
    sequenceStops inBlock (sequence inBlock (recovering inBlock p) bound c).cursor = true := by
  induction bound generalizing c with
  | nil =>
    show (c.rest.isEmpty || _) = true
    rw [List.length_eq_zero_iff.mp (Nat.le_zero.mp hlen)]
    rfl
  | cons t bound ih =>
    cases hstop : sequenceStops inBlock c with
    | true =>
      rw [sequence_stop hstop]
      exact hstop
    | false =>
      obtain ⟨hrest, -⟩ : c.rest ≠ [] ∧ (inBlock = true → c.peek.kind ≠ .rightBrace) := by
        simpa [sequenceStops] using hstop
      obtain ⟨ss, hstep⟩ := sequence_recovering (p := p) hstop t bound
      obtain ⟨us, hus⟩ := forward_recovering inBlock hforward c
      have hless := hp c hc hrest
      rw [List.length_cons] at hlen
      rw [hstep]
      exact ih (hc.past hus) (by omega)

end

/-! ### Levels -/

theorem declaration_facts (room : Nat) :
    Forward (declarationWith (expression room) (body room)) ∧
      Consumes (declarationWith (expression room) (body room)) :=
  ⟨(tracks_declaration_room relocates_id room 0 0).forward,
    consumes_declaration relocates_id (tracks_expression relocates_id room)
      (fun m n t => (tracks_body relocates_id room m n t).1)
      fun t => (tracks_body relocates_id room 0 0 t).2.forward⟩

/-- A block that is skipped is skipped to its closing brace or to the end. -/
theorem skipBlock_ends (level : Nat) (c : Cursor) :
    ∃ us, c.Past us (c.skipBlock (level + 1)) ∧
      ((c.skipBlock (level + 1)).rest = [] ∨ ∃ t ∈ us.getLast?, t.kind = .rightBrace) := by
  generalize hr : c.rest = rest
  induction rest generalizing c level with
  | nil =>
    rw [skipBlock_nil hr]
    exact ⟨[], past_nil.mpr rfl, .inl hr⟩
  | cons t rest ih =>
    have hfirst : c.Past [t] c.advance :=
      past_cons.mpr ⟨by rw [rest_advance, hr]; rfl, past_nil.mpr rfl⟩
    have hadvance : c.advance.rest = rest := by rw [rest_advance, hr]; rfl
    rw [skipBlock_go hr]
    cases hlevel : levelBehind level t.kind with
    | zero =>
      rw [skipBlock_zero]
      refine ⟨[t], hfirst, .inr ⟨t, rfl, ?_⟩⟩
      unfold levelBehind at hlevel
      split at hlevel
      next => cases hlevel
      next hk => exact hk
      next => cases hlevel
    | succ level =>
      obtain ⟨us, hus, hend⟩ := ih level c.advance hadvance
      refine ⟨t :: us, past_append.mpr ⟨_, hfirst, hus⟩, hend.imp_right ?_⟩
      intro ⟨u, hu, hk⟩
      refine ⟨u, ?_, hk⟩
      rw [List.getLast?_cons, hu]
      rfl

theorem fillsAt_refuseBlock (t : Token) {c : Cursor} (hc : c.Delimited) :
    FillsAt t (refuseBlock t) c := by
  obtain ⟨us, hus, hend⟩ := skipBlock_ends 0 c
  refine ⟨us, hus, ?_, ?_⟩
  · intro ss hss
    cases hss
  · intro e he
    cases he
    exact ⟨rfl, rfl, hend.imp_left (hc.past hus).rest_eq_nil.mp⟩

theorem block_eq (room : Nat) (t : Token) (c : Cursor) :
    (body (room + 1)).block t c =
      sequence true (recovering true (declarationWith (expression room) (body room))) c.rest c :=
  unread_bind _ c

theorem block_ok (room : Nat) (t : Token) (c : Cursor) :
    ∃ ss, ((body (room + 1)).block t c).outcome = .ok ss := by
  rw [block_eq]
  exact sequence_ok (recovering_ok true _) c.rest c

theorem body_leads (room : Nat) : (body room).Leads := by
  induction room with
  | zero =>
    refine ⟨fun ts noted t c hc _ _ hrefused => leadsAt_refuse hrefused, fun t c hc => ?_⟩
    exact fillsAt_refuseBlock t hc
  | succ room ih =>
    have he := fun c hc => roamsAt_expression room (c := c) hc
    refine ⟨fun ts noted t c hc hbegun hstart _ => ?_, fun t c hc => ?_⟩
    · exact leadsAt_statement he ih hc hbegun hstart fun hnil => absurd hnil (by simp)
    · obtain ⟨hforward, hconsumes⟩ := declaration_facts room
      have hprogresses := progresses_recovering true hforward hconsumes
      obtain ⟨us, hus, hcourse⟩ := course_sequence (fun c hc => leadsAt_declaration he ih hc) c.rest
        hc .none
      have hstops := sequence_stops hprogresses hforward c.rest hc (Nat.le_refl _)
      obtain ⟨ss, hok⟩ := block_ok room t c
      rw [block_eq] at hok
      rw [FillsAt, block_eq]
      refine ⟨us, hus, fun _ _ => ⟨hcourse, ?_⟩, ?_⟩
      · rcases Bool.or_eq_true_iff.mp hstops with hend | hclose
        · exact .inr ((hc.past hus).rest_eq_nil.mp (List.isEmpty_iff.mp hend))
        · exact .inl (eq_of_beq hclose)
      · intro e he
        rw [hok] at he
        cases he

/-- **The course of a declaration**, from its first token to its end or to where it stops. -/
theorem course_declaration (room : Nat) {c : Cursor} (hc : c.Delimited) :
    ∃ us, c.Past us (declarationWith (expression room) (body room) c).cursor ∧
      (∀ s, (declarationWith (expression room) (body room) c).outcome = .ok s →
        Course .done us (declarationWith (expression room) (body room) c).noted) ∧
      ∀ e, (declarationWith (expression room) (body room) c).outcome = .error e →
        Course (.stopped e (declarationWith (expression room) (body room) c).cursor.peek) us
          (declarationWith (expression room) (body room) c).noted :=
  leadsAt_declaration (fun _ hc => roamsAt_expression room hc) (body_leads room) hc

/-- **The course of a program** takes in all tokens. -/
theorem course_program (room : Nat) {ts : Tokens} (h : (start ts).Delimited) :
    Course (.several false ts.final) ts.body (program room (start ts)).noted := by
  obtain ⟨hforward, hconsumes⟩ := declaration_facts room
  have hnone : Course (.several false (start ts).peek) [] [] := .none
  obtain ⟨us, hus, hcourse⟩ := course_sequence (fun c hc => course_declaration room hc) ts.body h
    hnone
  have hstops := sequence_stops (progresses_recovering false hforward hconsumes) hforward ts.body h
    (Nat.le_refl _)
  have hend := List.isEmpty_iff.mp ((Bool.or_eq_true_iff.mp hstops).resolve_right nofun)
  have hbody : ts.body = us := by
    rw [← List.append_nil us, ← hend]
    exact hus.rest
  rw [Cursor.peek, hend, hus.final] at hcourse
  rw [program_eq]
  exact hbody ▸ hcourse

end Scriptlet
