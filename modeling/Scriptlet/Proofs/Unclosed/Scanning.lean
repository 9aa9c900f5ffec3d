import Scriptlet.Proofs.Lexing.Spacing

/-! A string that is not closed, and what stands before it.

A string that lacks its closing quote takes all that is left of the source, so there is one
such string at most and it is the last token. What stands before its quote does not depend
on it: a comment that reached that far would hold it, and no lexeme but a string holds a
quote. So a source that is cut off there has the same tokens but for that one
(`Splits.unclosed`). -/
namespace Scriptlet

/-! ### In front of a quote -/

theorem Gap.before_quote {gap rest behind : List Char} (h : Gap gap (rest ++ '"' :: behind)) :
    Gap gap rest := by
  generalize hr : rest ++ '"' :: behind = all at h
  induction h with
  | nil => exact .nil
  | blank hc _ ih => exact .blank hc (ih hr)
  | @comment text gap _ htext hend _ ih =>
    subst hr
    refine .comment htext (fun c hc => hend c ?_) (ih rfl)
    rw [← List.append_assoc, List.head?_append, Option.mem_def.mp hc]
    rfl

theorem Clear.before_quote {rest behind : List Char} (h : Clear (rest ++ '"' :: behind)) :
    Clear rest := by
  cases rest with
  | nil => exact fun c tail he => by cases he
  | cons c rest =>
    have hend : Clear (c :: rest ++ []) :=
      h.respaced (List.cons_ne_nil c rest) fun b hb => by cases hb
    rwa [List.append_nil] at hend

theorem LongestGap.before_quote {gap rest behind : List Char}
    (h : LongestGap gap (rest ++ '"' :: behind)) : LongestGap gap rest :=
  .of_clear h.isGap.before_quote h.clear.before_quote

/-- A string that is not closed is no lexeme where another begins in front of a quote. -/
theorem LongestLexeme.holds_no_end {kind : Kind} {lexeme rest behind text : List Char}
    (h : LongestLexeme kind lexeme (rest ++ '"' :: behind)) (htext : ∀ c ∈ text, c ≠ '"') :
    '"' :: text ≠ lexeme ++ rest := by
  intro he
  obtain ⟨d, lexeme, rfl⟩ := List.exists_cons_of_ne_nil h.ne_nil
  obtain ⟨rfl, rfl⟩ := List.cons.inj he
  cases h with
  | known h =>
    obtain rfl := h.string_of_quote
    obtain ⟨other, -, hclosed | ⟨-, hrest⟩⟩ := h.of_string
    · obtain rfl := (List.cons.inj hclosed).2
      exact htext '"' (by simp) rfl
    · exact absurd hrest (by simp)
  | unknown hno =>
    exact hno .string ('"' :: (rest ++ ['"'])) behind (by simp) (.string htext)

/-- A lexeme is the longest in front of a quote if it is where the source is cut off. -/
theorem LongestLexeme.before_quote {kind : Kind} {lexeme rest behind : List Char}
    (h : LongestLexeme kind lexeme (rest ++ '"' :: behind)) : LongestLexeme kind lexeme rest := by
  have hall {other : Kind} {more left : List Char} (he : more ++ left = lexeme ++ rest)
      (hmore : Lexeme other more left) : Lexeme other more (left ++ '"' :: behind) := by
    refine hmore.anywhere fun text hk hquote htext => ?_
    subst hk hquote
    obtain rfl := hmore.rest_eq_nil htext
    rw [List.append_nil] at he
    exact absurd he (h.holds_no_end htext)
  have hbehind {more left : List Char} (he : more ++ left = lexeme ++ rest) :
      more ++ (left ++ '"' :: behind) = lexeme ++ (rest ++ '"' :: behind) := by
    rw [← List.append_assoc, he, List.append_assoc]
  cases h with
  | known h hlongest =>
    refine .known (h.anywhere fun text hk hquote htext => ?_) fun other more left he hmore =>
      hlongest other more _ (hbehind he) (hall he hmore)
    subst hk hquote
    exact absurd (h.rest_eq_nil htext) (by simp)
  | unknown hno =>
    exact .unknown fun kind more left he hmore => hno kind more _ (hbehind he) (hall he hmore)

/-! ### The last token -/

/-- A string that has no quote but the opening one. -/
def Token.LacksQuote (t : Token) : Prop :=
  t.kind = .string ∧ '"' ∉ t.text.toList.tail

theorem Token.LacksQuote.isUnterminated {t : Token} (h : t.LacksQuote) :
    t.isUnterminated = true := by
  rw [Token.isUnterminated, h.1, Token.isClosed_of_open h.2]
  rfl

theorem isUnterminated_closed {t : Token} {text : List Char}
    (ht : t.text.toList = '"' :: (text ++ ['"'])) : t.isUnterminated = false := by
  rw [Token.isUnterminated, Token.isClosed_of_closed ht, Bool.not_true, Bool.and_false]

/-- A lexeme that is a string without its closing quote. -/
theorem LongestLexeme.unclosed {kind : Kind} {lexeme rest : List Char} {start stop : Nat}
    (h : LongestLexeme kind lexeme rest)
    (hopen : (⟨kind, start, stop, String.ofList lexeme⟩ : Token).isUnterminated = true) :
    ∃ text, (∀ c ∈ text, c ≠ '"') ∧ kind = .string ∧ lexeme = '"' :: text ∧ rest = [] := by
  obtain rfl : kind = .string := by
    rw [Token.isUnterminated, Bool.and_eq_true, beq_iff_eq] at hopen
    exact hopen.1
  cases h with
  | known h =>
    obtain ⟨text, htext, hclosed | ⟨hquote, hrest⟩⟩ := h.of_string
    · rw [isUnterminated_closed (by rw [String.toList_ofList, hclosed])] at hopen
      cases hopen
    · exact ⟨text, htext, rfl, hquote, hrest⟩

/-- A string that is not closed is the last token, and the tokens before it are those of the
source that ends in front of it. -/
theorem Splits.unclosed {position : Nat} {source : List Char} {ts : List Token}
    (h : Splits position source ts) {t : Token} (ht : t ∈ ts) (hopen : t.isUnterminated = true) :
    ∃ front text us, source = front ++ '"' :: text ∧ (∀ c ∈ text, c ≠ '"') ∧
      t = ⟨.string, position + front.length, position + front.length + text.length,
        String.ofList ('"' :: text)⟩ ∧
      ts = us ++ [t] ∧ Splits position front us ∧ ∀ u ∈ us, u.isUnterminated = false := by
  induction h with
  | last => exact absurd ht List.not_mem_nil
  | @next position gap kind lexeme rest ts hgap hlexeme hsplits ih =>
    by_cases hfirst : (⟨kind, position + gap.length, position + gap.length + lexeme.length - 1,
        String.ofList lexeme⟩ : Token).isUnterminated = true
    · obtain ⟨text, htext, rfl, rfl, rfl⟩ := hlexeme.unclosed hfirst
      obtain rfl : ts = [] := hsplits.eq_tokensFrom
      obtain rfl := List.mem_singleton.mp ht
      rw [List.append_nil] at hgap
      exact ⟨gap, text, [], by rw [List.append_nil], htext, rfl, rfl,
        .last hgap.before_quote, fun u hu => absurd hu List.not_mem_nil⟩
    · obtain ⟨front, text, us, rfl, htext, rfl, rfl, hfront, hclosed⟩ :=
        ih ((List.mem_cons.mp ht).resolve_left fun he => hfirst (he ▸ hopen))
      refine ⟨gap ++ (lexeme ++ front), text, _ :: us, by simp, htext, ?_, rfl,
        .next ?_ hlexeme.before_quote hfront,
        List.forall_mem_cons.mpr ⟨Bool.eq_false_iff.mpr hfirst, hclosed⟩⟩
      · simp only [List.length_append, Nat.add_assoc]
      · rw [← List.append_assoc] at hgap
        exact hgap.before_quote

end Scriptlet
