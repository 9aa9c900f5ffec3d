import Scriptlet.Proofs.Locality.Declarations
import Scriptlet.Proofs.Locality.Joints
import Scriptlet.Proofs.Parsing.Exactness

/-! Two sources with a newline between them are parsed as one.

The declarations of the first source are well formed, and what follows them does
not matter as long as it is no else, so they are read in front of the second
source as they are read in front of the end: `sequence_append`. Behind them the
tokens of the second source are shown, further behind, and the parser does there
what it does with the second source alone, be it well formed or not:
`sequence_relocate`. `parse_append` puts the two together. -/
namespace Scriptlet

open Scriptlet.Parser Scriptlet.Cursor

/-! ### Declarations in front of others -/

/-- Where the bounds allow for the tokens that are left they do not matter. -/
theorem sequence_bound (room : Nat) {bound bound' : List Token} {c : Cursor} (hc : c.Delimited)
    (hlen : c.rest.length ≤ bound.length) (hlen' : c.rest.length ≤ bound'.length) :
    sequence false (declaration room) bound' c = sequence false (declaration room) bound c :=
  (tracks_program relocates_id room bound bound').same hc hlen hlen'

/-- A declaration that is read in front of the end is read in front of others. -/
theorem declaration_append (room : Nat) {c c' m m' : Cursor} {s : Stmt} (hc : c.Delimited)
    (hc' : c'.Delimited) (hpast : c'.Past c.rest m') (helse : m'.peek.kind ≠ .elseWord)
    (hr : Reads (declaration room) c (some s) m) :
    ∃ m₁, declaration room c' = ⟨.ok (some s), m₁, [], (declaration room c).frames⟩ ∧
      m₁.Past m.rest m' ∧ m.Delimited ∧ m₁.Delimited := by
  obtain ⟨_, ⟨⟩, ho, rfl, hnoted⟩ := reads_recovering.mp hr
  have htracks := tracks_declaration_room relocates_id room
  have hcompletes := completes_declaration_room relocates_id room
  obtain ⟨ts, hts⟩ := (htracks 0 0).forward c
  rw [hts.rest] at hpast
  obtain ⟨m₁, hts', hmore⟩ := past_append.mp hpast
  have hpassed : Passed id c _ c' m₁ := ⟨ts, hts, by rwa [List.map_id]⟩
  have hsame : declarationWith (expression room) (body room) c' =
      (declarationWith (expression room) (body room) c).relocate id id m₁ := by
    cases hrest : (declarationWith (expression room) (body room) c).cursor.rest with
    | nil =>
      rw [hrest] at hmore
      obtain rfl := past_nil.mp hmore
      have hend := (hc.past hts).rest_eq_nil.mp hrest
      exact (hcompletes _ _).completes c c' hc hc' (Nat.le_refl _) (Nat.le_refl _) s m' ho hpassed
        (by rw [hend]; decide) helse
    | cons t rest =>
      rw [hrest] at hmore
      have hpeek := peek_eq (past_cons.mp hmore).1
      rw [← peek_eq hrest] at hpeek
      exact (htracks _ _).agrees c c' m₁ hc hc' (Nat.le_refl _) (Nat.le_refl _)
        (hpassed.shown hpeek)
  rw [relocate_id, ho, hnoted] at hsame
  have hok : (declarationWith (expression room) (body room) c').outcome = .ok s := by rw [hsame]
  refine ⟨m₁, ?_, hmore, hc.past hts, hc'.past hts'⟩
  rw [declaration, recovering_of_ok hok, recovering_of_ok ho, hsame]

/-- Declarations that are well formed, in front of others. -/
theorem sequence_append (room : Nat) (bound : List Token) {bound' bound'' : List Token}
    {c c' m' : Cursor} {ss : List Stmt} (hc : c.Delimited) (hc' : c'.Delimited)
    (hpast : c'.Past c.rest m') (helse : m'.peek.kind ≠ .elseWord)
    (hlen : c.rest.length ≤ bound.length) (hlen' : c'.rest.length ≤ bound'.length)
    (hlen'' : m'.rest.length ≤ bound''.length)
    (hnoted : (sequence false (declaration room) bound c).noted = [])
    (hok : (sequence false (declaration room) bound c).outcome = .ok ss) :
    sequence false (declaration room) bound' c' =
      (sequence false (declaration room) bound'' m').inFront ss []
        (sequence false (declaration room) bound c).frames := by
  induction bound generalizing c c' bound' ss with
  | nil =>
    rw [List.length_eq_zero_iff.mp (Nat.le_zero.mp hlen)] at hpast
    obtain rfl := past_nil.mp hpast
    obtain rfl := Except.ok.inj hok
    rw [sequence_bound room hc' hlen'' hlen']
    exact (inFront_nil _).symm
  | cons t bound ih =>
    cases hstop : sequenceStops false c with
    | true =>
      have hrest : c.rest = [] := by simpa [sequenceStops] using hstop
      rw [sequence_stop hstop] at hok ⊢
      rw [hrest] at hpast
      obtain rfl := past_nil.mp hpast
      obtain rfl := Except.ok.inj hok
      rw [sequence_bound room hc' hlen'' hlen', inFront_nil]
    | false =>
      have hne : c.rest ≠ [] := by simpa [sequenceStops] using hstop
      have hr : Reads (sequence false (declaration room) (t :: bound)) c ss _ := ⟨hok, rfl, hnoted⟩
      rw [reads_congr (sequence_go hstop t bound), reads_bind] at hr
      obtain ⟨o, m, hone, hr⟩ := hr
      obtain ⟨s, rfl, _⟩ := reads_recovering.mp hone
      obtain ⟨more, k, hmore, hr⟩ := reads_bind.mp hr
      obtain ⟨rfl, _⟩ := reads_pure.mp hr
      obtain ⟨m₁, hone', hpast', hm, hm₁⟩ := declaration_append room hc hc' hpast helse hone
      have hless := progresses_declaration room c hc hne
      rw [hone.cursor] at hless
      have hlength := hpast.length
      have hlength' := hpast'.length
      simp only [List.length_cons] at hlen
      cases bound' with
      | nil =>
        rw [List.length_nil] at hlen'
        omega
      | cons t' bound' =>
        simp only [List.length_cons] at hlen'
        have hne' : c'.rest ≠ [] := List.length_pos_iff.mp (by omega)
        have hstop' : sequenceStops false c' = false := by simpa [sequenceStops] using hne'
        have hleft : m₁.rest.length ≤ bound'.length := by omega
        have hrec := ih hm hm₁ hpast' (by omega) hleft hmore.noted hmore.outcome
        rw [sequence_step hstop' hone', hrec, inFront_inFront, sequence_step hstop hone.eq]
        rfl

/-! ### The second source by itself -/

/-- The declarations of a source are the same where its tokens stand elsewhere. -/
theorem sequence_relocate {move : Token → Token} (hm : Relocates move) (room : Nat)
    {bound bound' : List Token} {c c' : Cursor} (hc : c.Delimited) (hc' : c'.Delimited)
    (hlen : c.rest.length ≤ bound.length) (hlen' : c'.rest.length ≤ bound'.length)
    (hrest : c'.rest = c.rest.map move) (hfinal : c.rest ≠ [] → c'.final = move c.final) :
    ∃ d', sequence false (declaration room) bound' c' =
      (sequence false (declaration room) bound c).relocate move id d' := by
  cases hr : c.rest with
  | nil =>
    rw [hr] at hrest
    have hstop : sequenceStops false c = true := by rw [sequenceStops, hr]; rfl
    have hstop' : sequenceStops false c' = true := by rw [sequenceStops, hrest]; rfl
    rw [sequence_stop hstop, sequence_stop hstop']
    exact ⟨c', rfl⟩
  | cons t rest =>
    have htracks := tracks_program hm room bound bound'
    obtain ⟨ts, hts⟩ := htracks.forward c
    obtain ⟨d', hs⟩ := exists_shown hts hrest (hfinal (by rw [hr]; exact List.cons_ne_nil t rest))
    exact ⟨d', htracks.agrees c c' d' hc hc' hlen hlen' hs⟩

/-! ### Both sources -/

theorem lexical_append {a : List Char} (h : (Tokens.scan a).unterminated = []) (b : List Char) :
    (Tokens.scan (a ++ '\n' :: b)).lexical =
      (Tokens.scan b).lexical.map (Diagnostic.relocate (Token.shift (a.length + 1))) := by
  have hkept : Token.isUnterminated ∘ Token.shift (a.length + 1) = Token.isUnterminated := rfl
  have hsplit : (Tokens.scan (a ++ '\n' :: b)).unterminated =
      (Tokens.scan b).unterminated.map (Token.shift (a.length + 1)) := by
    have hnone : (Tokens.scan a).body.filter Token.isUnterminated = [] := h
    simp only [Tokens.unterminated, scan_append h b, List.filter_append, hnone, List.nil_append,
      List.filter_map, hkept]
  simp only [Tokens.lexical, hsplit, List.map_map]
  rfl

/-- Between the two sources the first has ended and the second begins. -/
theorem exists_joint {a : List Char} (h : (Tokens.scan a).unterminated = []) (b : List Char) :
    ∃ m, (start (Tokens.scan (a ++ '\n' :: b))).Past (Tokens.scan a).body m ∧
      m.rest = (Tokens.scan b).body.map (Token.shift (a.length + 1)) ∧
      ((Tokens.scan b).body ≠ [] →
        m.final = (Tokens.scan b).final.shift (a.length + 1)) := by
  have hbody := scan_append h b
  have hrest : ((start (Tokens.scan (a ++ '\n' :: b))).forward (Tokens.scan a).body.length).rest =
      (Tokens.scan b).body.map (Token.shift (a.length + 1)) := by
    rw [rest_forward, start, hbody, List.drop_left]
  refine ⟨_, ⟨?_, rfl⟩, hrest, fun hne => ?_⟩
  · rw [hrest]
    exact hbody
  · rw [final_forward]
    have hpos : 0 < b.length := List.length_pos_iff.mpr fun hb => hne (by rw [hb]; rfl)
    show endMarker (a ++ '\n' :: b).length = (endMarker b.length).shift (a.length + 1)
    simp only [endMarker, Token.shift, List.length_append, List.length_cons, Token.mk.injEq,
      true_and, and_true]
    omega

/-- What the second source does not begin with does not follow the first. -/
theorem joint_ne_else {m : Cursor} {b : List Char} {k : Nat} (hm : m.Delimited)
    (hrest : m.rest = (Tokens.scan b).body.map (Token.shift k))
    (hb : ∀ t ∈ (Tokens.scan b).body.head?, t.kind ≠ .elseWord) : m.peek.kind ≠ .elseWord := by
  cases hbody : (Tokens.scan b).body with
  | nil =>
    rw [hbody] at hrest
    rw [hm.rest_eq_nil.mp hrest]
    decide
  | cons t rest =>
    rw [hbody] at hrest hb
    rw [peek_eq hrest]
    exact hb t rfl

/-- **Two sources with a newline between them** are parsed as one source as they are parsed by
themselves, if the first is well formed and the second does not begin with an else. -/
theorem parse_append {room : Nat} {a b : List Char} (ha : (parse room a).diagnostics = [])
    (hb : ∀ t ∈ (Tokens.scan b).body.head?, t.kind ≠ .elseWord) :
    parse room (a ++ '\n' :: b) =
      { statements := (parse room a).statements ++ (parse room b).statements
        diagnostics :=
          (parse room b).diagnostics.map (Diagnostic.relocate (Token.shift (a.length + 1)))
        frames := max (parse room a).frames (parse room b).frames } := by
  obtain ⟨hclosed, -⟩ := (parse_diagnostics_iff room a).mp ha
  obtain ⟨m, hpast, hrest, hfinal⟩ := exists_joint hclosed b
  have hca := (start_proper a).toDelimited
  have hcb := (start_proper b).toDelimited
  have hcw := (start_proper (a ++ '\n' :: b)).toDelimited
  have helse := joint_ne_else (hcw.past hpast) hrest hb
  have hprogram (c : Cursor) : program room c = sequence false (declaration room) c.rest c :=
    unread_bind _ c
  have hnoted : (program room (start (Tokens.scan a))).noted = [] :=
    (List.append_eq_nil_iff.mp ha).2
  obtain ⟨ss, hok⟩ := program_ok room (start (Tokens.scan a))
  obtain ⟨ss', hok'⟩ := program_ok room (start (Tokens.scan b))
  obtain ⟨d, hsame⟩ := sequence_relocate (shift_relocates (a.length + 1)) room hcb
    (hcw.past hpast) (Nat.le_refl _) (Nat.le_refl _) hrest hfinal
  have hb' : sequence false (declaration room) (start (Tokens.scan b)).rest
      (start (Tokens.scan b)) = program room (start (Tokens.scan b)) := (hprogram _).symm
  rw [hb'] at hsame
  rw [hprogram] at hnoted hok
  have hwhole := sequence_append room _ hca hcw hpast helse (Nat.le_refl _) (Nat.le_refl _)
    (Nat.le_refl _) hnoted hok
  rw [hsame, ← hprogram, ← hprogram] at hwhole
  rw [← hprogram] at hok
  simp only [parse, parseTokens, lexical_append hclosed b, hwhole, hok, hok', Reply.relocate,
    Reply.inFront, List.map_append]
  rfl

end Scriptlet
