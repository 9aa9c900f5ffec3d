import Mathlib.Data.List.TakeWhile
import Scriptlet.Text.Basic
import Scriptlet.Token.Scan

/-! The lexical grammar: what a source consists of.

A source alternates between gaps, which are blanks and comments, and lexemes,
which `Lexeme` classifies by kind. `Splits` says what it means to cut a source
into its tokens: every gap is as long as it can be, every lexeme is the longest
that begins where it begins, and a character that begins no lexeme is a token by
itself. Behind the longest gap stands a character at which the scanner looks for
a lexeme, which `LongestGap.clear` and `LongestGap.of_clear` say both ways. -/
namespace Scriptlet

/-! ### The lexical grammar -/

/-- Blanks and comments before `rest`. A comment begins with two slashes and reaches
to the next newline, or to the end. -/
inductive Gap : List Char → List Char → Prop where
  | nil {rest} : Gap [] rest
  | blank {c gap rest} : Text.isBlank c = true → Gap gap rest → Gap (c :: gap) rest
  | comment {text gap rest} : (∀ c ∈ text, c ≠ '\n') → (∀ c ∈ (gap ++ rest).head?, c = '\n') →
      Gap gap rest → Gap ('/' :: '/' :: (text ++ gap)) rest

/-- The marks that have a meaning. -/
def marks : List Kind :=
  [.leftParen, .rightParen, .leftBracket, .rightBracket, .leftBrace, .rightBrace, .comma, .dot,
    .minus, .plus, .semicolon, .slash, .star, .not, .notEqual, .equal, .equalEqual, .greater,
    .greaterEqual, .less, .lessEqual]

/-- What a lexeme of a kind looks like before `rest`. Only a string that is not
closed depends on what follows: nothing may. -/
inductive Lexeme : Kind → List Char → List Char → Prop where
  | mark {kind rest} : kind ∈ marks → Lexeme kind kind.spelling.toList rest
  | keyword {kind rest} : kind ∈ Kind.keywords → Lexeme kind kind.spelling.toList rest
  | name {word rest} : word ≠ [] → (∀ c ∈ word, Item.isNameChar c = true) →
      (∀ kind ∈ Kind.keywords, kind.spelling.toList ≠ word) → Lexeme .identifier word rest
  | number {digits rest} : digits ≠ [] → (∀ c ∈ digits, c.isDigit = true) →
      Lexeme .number digits rest
  | fraction {whole digits rest} : whole ≠ [] → (∀ c ∈ whole, c.isDigit = true) →
      digits ≠ [] → (∀ c ∈ digits, c.isDigit = true) →
      Lexeme .number (whole ++ '.' :: digits) rest
  | string {text rest} : (∀ c ∈ text, c ≠ '"') → Lexeme .string ('"' :: (text ++ ['"'])) rest
  | unclosed {text} : (∀ c ∈ text, c ≠ '"') → Lexeme .string ('"' :: text) []

/-- The gap before `rest` is as long as it can be. -/
structure LongestGap (gap rest : List Char) : Prop where
  isGap : Gap gap rest
  longest : ∀ more left, more ++ left = gap ++ rest → Gap more left → more.length ≤ gap.length

/-- The lexeme before `rest` is as long as it can be; where there is none, a single
character is of unknown kind. -/
inductive LongestLexeme : Kind → List Char → List Char → Prop where
  | known {kind lexeme rest} : Lexeme kind lexeme rest →
      (∀ other more left, more ++ left = lexeme ++ rest → Lexeme other more left →
        more.length ≤ lexeme.length) →
      LongestLexeme kind lexeme rest
  | unknown {c rest} :
      (∀ kind more left, more ++ left = c :: rest → ¬ Lexeme kind more left) →
      LongestLexeme .unknown [c] rest

/-- Cuts a source that begins at `position` into its tokens. -/
inductive Splits : Nat → List Char → List Token → Prop where
  | last {position gap} : LongestGap gap [] → Splits position gap []
  | next {position gap kind lexeme rest ts} : LongestGap gap (lexeme ++ rest) →
      LongestLexeme kind lexeme rest →
      Splits (position + gap.length + lexeme.length) rest ts →
      Splits position (gap ++ (lexeme ++ rest))
        (⟨kind, position + gap.length, position + gap.length + lexeme.length - 1,
          String.ofList lexeme⟩ :: ts)

/-! ### Runs -/

namespace Item

theorem run_append {p : Char → Bool} {xs ys : List Char} (hx : ∀ c ∈ xs, p c = true)
    (hy : ∀ c ∈ ys.head?, p c = false) : run p (xs ++ ys) = xs.length := by
  have hnone : ys.takeWhile p = [] := by
    cases ys with
    | nil => rfl
    | cons c rest => simp [hy c rfl]
  rw [run, List.takeWhile_append_of_pos hx, hnone, List.append_nil]

theorem length_le_run {p : Char → Bool} {xs : List Char} (ys : List Char)
    (hx : ∀ c ∈ xs, p c = true) : xs.length ≤ run p (xs ++ ys) := by
  rw [run, List.takeWhile_append_of_pos hx, List.length_append]
  exact Nat.le_add_right _ _

theorem take_run (p : Char → Bool) (rest : List Char) :
    rest.take (run p rest) = rest.takeWhile p :=
  (List.prefix_iff_eq_take.mp (List.takeWhile_prefix p)).symm

theorem of_mem_take_run {p : Char → Bool} {rest : List Char} :
    ∀ c ∈ rest.take (run p rest), p c = true := by
  intro c hc
  rw [take_run] at hc
  exact List.mem_takeWhile_imp hc

theorem head_drop_run {p : Char → Bool} {rest : List Char} :
    ∀ c ∈ (rest.drop (run p rest)).head?, p c = false := by
  induction rest with
  | nil => simp [run]
  | cons c rest ih =>
    by_cases hc : p c = true
    · simpa [run, hc] using ih
    · simp [run, hc]

end Item

/-! ### Gaps -/

theorem Gap.append {gap more rest : List Char} (h : Gap gap (more ++ rest)) (hm : Gap more rest) :
    Gap (gap ++ more) rest := by
  generalize hr : more ++ rest = behind at h
  induction h with
  | nil => exact hm
  | blank hc _ ih => exact .blank hc (ih hr)
  | @comment text gap _ htext hend _ ih =>
    subst hr
    have := Gap.comment htext (by simpa using hend) (ih rfl)
    simpa using this

/-- A comment that is not followed by anything but a newline claims what the scanner
says. -/
theorem itemAt_comment {text behind : List Char} (htext : ∀ c ∈ text, c ≠ '\n')
    (hend : ∀ c ∈ behind.head?, c = '\n') :
    Item.itemAt '/' ('/' :: (text ++ behind)) = .gap (text.length + 1) := by
  have hrun : Item.run (· ≠ '\n') ('/' :: text ++ behind) = ('/' :: text).length := by
    apply Item.run_append
    · intro c hc
      rcases List.mem_cons.mp hc with rfl | hc
      · decide
      · simpa using htext c hc
    · intro c hc
      simpa using hend c hc
  rw [List.cons_append, List.length_cons] at hrun
  rw [Item.itemAt, if_neg (by decide), if_pos ⟨rfl, rfl⟩, hrun]

theorem itemAt_blank {c : Char} (h : Text.isBlank c = true) (rest : List Char) :
    Item.itemAt c rest = .gap 0 := by
  simp [Item.itemAt, h]

/-- What begins with an item that is no gap begins with a lexeme. -/
def Clear (rest : List Char) : Prop :=
  ∀ c tail, rest = c :: tail → Item.itemAt c tail = Item.lexemeAt c tail

theorem lexemeAt_ne_gap (c : Char) (tail : List Char) (n : Nat) :
    Item.lexemeAt c tail ≠ .gap n := by
  fun_cases Item.lexemeAt <;> simp

/-- No gap goes beyond one behind which a lexeme begins. -/
theorem Gap.longest {gap rest : List Char} (h : Gap gap rest) (hclear : Clear rest) :
    ∀ more left, more ++ left = gap ++ rest → Gap more left → more.length ≤ gap.length := by
  induction h with
  | nil =>
    intro more left he hm
    cases hm with
    | nil => exact Nat.le_refl _
    | @blank c more _ hc _ =>
      have := hclear c _ he.symm
      rw [itemAt_blank hc] at this
      exact absurd this.symm (lexemeAt_ne_gap _ _ _)
    | @comment text more _ htext hend _ =>
      have := hclear '/' _ he.symm
      rw [List.append_eq, List.cons_append, List.append_assoc, itemAt_comment htext hend] at this
      exact absurd this.symm (lexemeAt_ne_gap _ _ _)
  | @blank c gap rest hc _ ih =>
    intro more left he hm
    cases hm with
    | nil => exact Nat.zero_le _
    | blank _ hm =>
      have := ih hclear _ _ (List.cons.inj he).2 hm
      simpa using this
    | comment =>
      rw [← (List.cons.inj he).1] at hc
      exact absurd hc (by decide)
  | @comment text gap rest htext hend _ ih =>
    intro more left he hm
    cases hm with
    | nil => exact Nat.zero_le _
    | blank hc =>
      rw [(List.cons.inj he).1] at hc
      exact absurd hc (by decide)
    | @comment other more _ hother hend' hm =>
      have he : other ++ (more ++ left) = text ++ (gap ++ rest) := by simpa using he
      -- both comments are the longest run without a newline
      have hlen : other.length = text.length := by
        have hrun : Item.run (· ≠ '\n') (other ++ (more ++ left)) = other.length :=
          Item.run_append (by simpa using hother) (fun c hc => by simpa using hend' c hc)
        rw [← hrun, he]
        exact Item.run_append (by simpa using htext) (fun c hc => by simpa using hend c hc)
      have := ih hclear _ _ (List.append_inj he hlen).2 hm
      simp only [List.length_cons, List.length_append]
      omega

theorem LongestGap.of_clear {gap rest : List Char} (h : Gap gap rest) (hclear : Clear rest) :
    LongestGap gap rest :=
  ⟨h, h.longest hclear⟩

/-- Where no lexeme begins, a blank or a comment does. -/
theorem clear_or_gap (source : List Char) :
    Clear source ∨ ∃ gap rest, gap ≠ [] ∧ source = gap ++ rest ∧ Gap gap rest := by
  cases source with
  | nil => exact .inl fun c tail h => by cases h
  | cons c tail =>
    by_cases hblank : Text.isBlank c = true
    · exact .inr ⟨[c], tail, by simp, rfl, .blank hblank .nil⟩
    · by_cases hslash : c = '/' ∧ tail.head? = some '/'
      · obtain ⟨rfl, hhead⟩ := hslash
        obtain ⟨tail, rfl⟩ := List.head?_eq_some_iff.mp hhead
        refine .inr ⟨'/' :: '/' :: (tail.take (Item.run (· ≠ '\n') tail) ++ []),
          tail.drop (Item.run (· ≠ '\n') tail), by simp, by simp, .comment ?_ ?_ .nil⟩
        · exact fun c hc => by simpa using Item.of_mem_take_run c hc
        · exact fun c hc => by simpa using Item.head_drop_run (p := (· ≠ '\n')) c hc
      · refine .inl fun d more h => ?_
        obtain ⟨rfl, rfl⟩ := List.cons.inj h
        rw [Item.itemAt, if_neg hblank, if_neg hslash]

/-- Behind the longest gap no other begins. -/
theorem LongestGap.clear {gap rest : List Char} (h : LongestGap gap rest) : Clear rest := by
  refine (clear_or_gap rest).resolve_right ?_
  intro h
  obtain ⟨more, left, hne, rfl, hm⟩ := h
  have hlong := h.longest (gap ++ more) left (List.append_assoc ..) (h.isGap.append hm)
  have := List.length_pos_iff.mpr hne
  rw [List.length_append] at hlong
  omega

end Scriptlet
