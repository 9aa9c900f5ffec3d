import Scriptlet.Proofs.Limits.Expressions
import Scriptlet.Proofs.Locality.Recovery
import Scriptlet.Proofs.Parsing.Exactness

/-! Raising the limit.

A limit shows in the diagnostics or not at all: a parser that has less room than
another does the same, unless it reports that there is no room (`Settled`). What is
refused stops a parser, and recovering from that notes it; so nothing that is refused
is forgotten, and where no diagnostic says so the two runs are one
(`parseTokens_higher_limit`). There is one law for each way of building parsers. -/
namespace Scriptlet

open Scriptlet.Parser Scriptlet.Cursor

/-! ### Refusals -/

/-- A reply that tells of something for which there was no room. -/
def Reply.Refused {α : Type} (r : Reply α) : Prop :=
  (∃ t, r.outcome = .error ⟨.tooMuchNesting, t⟩) ∨ ∃ t, ⟨.tooMuchNesting, t⟩ ∈ r.noted

/-- The first parser does the same as the second, unless it tells of a want of room. -/
def Settled {α : Type} (p q : Parser α) : Prop :=
  ∀ c, p c = q c ∨ (p c).Refused

section
variable {α β : Type} {p q : Parser α} {f g : α → Parser β}

theorem Lowered.settled (h : Lowered p q) : Settled p q :=
  fun c => (h c).imp_right .inl

theorem settled_refl (p : Parser α) : Settled p p :=
  fun _ => .inl rfl

/-- What is refused by the first parser is not forgotten by the second. -/
theorem Reply.Refused.bind {c : Cursor} (h : (p c).Refused) (f : α → Parser β) :
    ((p >>= f) c).Refused := by
  rcases h with ⟨t, hstop⟩ | ⟨t, hnoted⟩
  · left
    exact ⟨t, by rw [bind_error hstop]⟩
  · right
    cases ho : (p c).outcome with
    | error e => exact ⟨t, by rw [bind_error ho]; exact hnoted⟩
    | ok a => exact ⟨t, by rw [bind_ok ho]; exact List.mem_append_left _ hnoted⟩

/-- Nor is what the second refuses. -/
theorem Reply.Refused.behind {c : Cursor} {a : α} (ho : (p c).outcome = .ok a)
    (h : (f a (p c).cursor).Refused) : ((p >>= f) c).Refused := by
  rw [bind_ok ho]
  exact h.imp_right fun ⟨t, hnoted⟩ => ⟨t, List.mem_append_right _ hnoted⟩

theorem settled_bind (hp : Settled p q) (hf : ∀ a, Settled (f a) (g a)) :
    Settled (p >>= f) (q >>= g) := by
  intro c
  rcases hp c with hsame | hrefused
  · cases ho : (p c).outcome with
    | error e =>
      left
      rw [bind_error ho, bind_error (by rw [← hsame]; exact ho), hsame]
    | ok a =>
      refine (hf a (p c).cursor).imp (fun hrest => ?_) (Reply.Refused.behind ho)
      rw [bind_ok ho, bind_ok (p := q) (by rw [← hsame]; exact ho), ← hsame, hrest]
  · exact .inr (hrefused.bind f)

theorem settled_seq (p : Parser α) (hf : ∀ a, Settled (f a) (g a)) :
    Settled (p >>= f) (p >>= g) :=
  settled_bind (settled_refl p) hf

theorem settled_inward (cost : Nat) (h : Settled p q) :
    Settled (inward cost p) (inward cost q) := by
  intro c
  refine (h c).imp_left fun hsame => ?_
  simp only [inward, hsame]

end

/-! ### Statements -/

section
variable {expr expr' : Parser Expr} {body body' : Body}

theorem settled_ifChain (he : Settled expr expr')
    (hb : ∀ t, Settled (body.branch t) (body'.branch t)) (bound : List Token) :
    Settled (ifChain expr body bound) (ifChain expr' body' bound) := by
  induction bound with
  | nil => exact settled_refl _
  | cons _ bound ih =>
    refine settled_seq _ fun _ => settled_bind he fun e => settled_seq _ fun close =>
      settled_bind (settled_inward 2 (hb close)) fun yes => settled_seq _ fun t => ?_
    split
    · refine settled_seq _ fun _ => settled_seq _ fun next => ?_
      split
      · exact settled_seq _ fun _ => settled_bind ih fun no => settled_refl _
      · exact settled_bind (settled_inward 2 (hb t)) fun no => settled_refl _
    · exact settled_refl _

theorem settled_statement (he : Settled expr expr')
    (hb : ∀ t, Settled (body.branch t) (body'.branch t))
    (hblock : ∀ t, Settled (body.block t) (body'.block t)) :
    Settled (statementWith expr body) (statementWith expr' body') := by
  refine settled_seq _ fun t => ?_
  split
  case h_1 | h_2 | h_3 => exact settled_refl _
  case h_4 =>
    exact settled_seq _ fun _ => settled_bind (settled_inward 3 (hblock t)) fun statements =>
      settled_refl _
  case h_5 => exact settled_seq _ fun _ => settled_bind he fun e => settled_refl _
  case h_6 =>
    exact settled_seq _ fun _ => settled_seq _ fun bound => settled_ifChain he hb bound
  case h_7 => exact settled_bind he fun e => settled_refl _

theorem settled_declaration (he : Settled expr expr')
    (hb : ∀ t, Settled (body.branch t) (body'.branch t))
    (hblock : ∀ t, Settled (body.block t) (body'.block t)) :
    Settled (declarationWith expr body) (declarationWith expr' body') := by
  refine settled_seq _ fun t => ?_
  split
  · refine settled_seq _ fun _ => settled_seq _ fun name => settled_seq _ fun next => ?_
    split
    · exact settled_seq _ fun _ => settled_bind he fun e => settled_refl _
    · exact settled_refl _
  · exact settled_statement he hb hblock

end

/-! ### Sequences -/

section
variable {inBlock : Bool}

/-- What is refused is noted in recovering from it. -/
theorem settled_recovering {p q : Parser Stmt} (h : Settled p q) :
    Settled (recovering inBlock p) (recovering inBlock q) := by
  intro c
  rcases h c with hsame | ⟨t, hstop⟩ | ⟨t, hnoted⟩
  · left
    simp only [recovering, hsame]
  · right
    right
    rw [recovering_of_stop hstop]
    exact ⟨t, List.mem_append_right _ List.mem_cons_self⟩
  · right
    right
    cases ho : (p c).outcome with
    | ok s => exact ⟨t, by rw [recovering_of_ok ho]; exact hnoted⟩
    | error e => exact ⟨t, by rw [recovering_of_stop ho]; exact List.mem_append_left _ hnoted⟩

theorem settled_sequence {one one' : Parser (Option Stmt)} (h : Settled one one')
    (bound : List Token) : Settled (sequence inBlock one bound) (sequence inBlock one' bound) := by
  induction bound with
  | nil => exact settled_refl _
  | cons _ bound ih =>
    refine settled_seq _ fun rest => settled_seq _ fun t => ?_
    split
    · exact settled_refl _
    · exact settled_bind h fun first => settled_bind ih fun more => settled_refl _

end

/-! ### Levels -/

theorem settled_body {m n : Nat} (h : m ≤ n) (t : Token) :
    Settled ((body m).branch t) ((body n).branch t) ∧
      Settled ((body m).block t) ((body n).block t) := by
  induction m generalizing n t with
  | zero => exact ⟨fun _ => .inr (.inl ⟨t, rfl⟩), fun _ => .inr (.inl ⟨t, rfl⟩)⟩
  | succ m ih =>
    obtain ⟨n, rfl⟩ := Nat.exists_eq_add_of_le' (Nat.lt_of_succ_le h)
    have hle := Nat.le_of_succ_le_succ h
    have he := (lowered_expression hle).settled
    have hb := fun t => (ih hle t).1
    have hblock := fun t => (ih hle t).2
    refine ⟨settled_statement he hb hblock, settled_seq _ fun bound => ?_⟩
    exact settled_sequence (settled_recovering (settled_declaration he hb hblock)) bound

theorem settled_program {m n : Nat} (h : m ≤ n) : Settled (program m) (program n) := by
  refine settled_seq _ fun bound => settled_sequence (settled_recovering ?_) bound
  exact settled_declaration (lowered_expression h).settled (fun t => (settled_body h t).1)
    fun t => (settled_body h t).2

/-- **A limit matters only where it is hit**, for all tokens, malformed ones too. If no diagnostic
tells of a want of room, every higher limit gives the same statements and the same diagnostics,
and parsing needs the same frames. -/
theorem parseTokens_higher_limit (lower limit : Int) (h : lower ≤ limit) (ts : Tokens)
    (hroom : ∀ d ∈ (parseTokens lower.toNat ts).diagnostics, d.fault ≠ .tooMuchNesting) :
    parseTokens limit.toNat ts = parseTokens lower.toNat ts := by
  have hle : lower.toNat ≤ limit.toNat := Int.toNat_le_toNat h
  obtain ⟨ss, hok⟩ := program_ok lower.toNat (start ts)
  rcases settled_program hle (start ts) with hsame | ⟨t, hstop⟩ | ⟨t, hnoted⟩
  · simp only [parseTokens, hsame]
  · rw [hok] at hstop
    cases hstop
  · exact absurd rfl (hroom _ hnoted)

/-- The semicolon is missing in a block; that is noted with room for two levels and for more. -/
theorem parseTokens_higher_limit_malformed :
    (parseTokens (2 : Int).toNat (Tokens.scan "\x7b a = nil \x7d print nil;".toList)).diagnostics =
        [⟨.expectedMark .semicolon .expression, ⟨.rightBrace, 10, 10, "\x7d"⟩⟩] ∧
      parseTokens (41 : Int).toNat (Tokens.scan "\x7b a = nil \x7d print nil;".toList) =
        parseTokens (2 : Int).toNat (Tokens.scan "\x7b a = nil \x7d print nil;".toList) := by
  have hnoted : (parseTokens (2 : Int).toNat
      (Tokens.scan "\x7b a = nil \x7d print nil;".toList)).diagnostics =
        [⟨.expectedMark .semicolon .expression, ⟨.rightBrace, 10, 10, "\x7d"⟩⟩] := by
    decide +kernel
  exact ⟨hnoted, parseTokens_higher_limit 2 41 (by decide) _ (by rw [hnoted]; decide)⟩

end Scriptlet
