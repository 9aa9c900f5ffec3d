import Mathlib.Data.List.Forall2
import Scriptlet.Proofs.Lexing.Numerals

/-! The spacing between lexemes does not matter.

A source can be spread out: its lexemes stay as they are, and other blanks and
comments come between them. A lexeme that has a blank behind it ends there, since
only strings hold blanks, and a string ends at its quote; so the longest lexemes
are the same as before (`LongestLexeme.respaced`), and `Splits.spread` finds the same
kinds and texts in the other source. -/
namespace Scriptlet

/-! ### Spacing -/

/-- Blanks, and comments up to a newline. -/
inductive Spacing : List Char → Prop where
  | nil : Spacing []
  | blank {c gap} : Text.isBlank c = true → Spacing gap → Spacing (c :: gap)
  | comment {text gap} : (∀ c ∈ text, c ≠ '\n') → Spacing gap →
      Spacing ('/' :: '/' :: (text ++ '\n' :: gap))

/-- A text that is empty or begins with a blank. -/
def BlankFirst (text : List Char) : Prop :=
  ∀ c ∈ text.head?, Text.isBlank c = true

/-- The texts of some tokens with spacing behind each. Between two tokens there is a blank at
least, and nothing stands behind a string that is not closed. -/
inductive Spread : List Token → List Char → Prop where
  | nil : Spread [] []
  | cons {t gap ts rest} : Spacing gap → BlankFirst gap → (ts ≠ [] → gap ≠ []) →
      (ts = [] → t.isUnterminated = true → gap = []) → Spread ts rest →
      Spread (t :: ts) (t.text.toList ++ (gap ++ rest))

/-- Another source with the lexemes of the first one and spacing of its own. -/
def Respaced (source other : List Char) : Prop :=
  ∃ gap rest, Spacing gap ∧ Spread (Tokens.scan source).body rest ∧ other = gap ++ rest

theorem Spacing.gap {gap : List Char} (h : Spacing gap) (rest : List Char) : Gap gap rest := by
  induction h with
  | nil => exact .nil
  | blank hc _ ih => exact .blank hc ih
  | comment htext _ ih =>
    refine .comment htext (fun c hc => ?_) (.blank (by decide) ih)
    obtain rfl := Option.some.inj hc
    rfl

/-! ### Blanks in lexemes -/

theorem isBlank_bounds {c : Char} (h : Text.isBlank c = true) : c.toNat ≤ 32 ∨ 133 ≤ c.toNat := by
  simp only [Text.isBlank, Bool.or_eq_true, Bool.and_eq_true, decide_eq_true_eq, beq_iff_eq] at h
  omega

theorem isNameChar_bounds {c : Char} (h : Item.isNameChar c = true) :
    65 ≤ c.toNat ∧ c.toNat ≤ 122 := by
  by_cases hu : c = '_'
  · subst hu
    decide
  · have hletter : c.isAlpha = true :=
      (Bool.or_eq_true_iff.mp h).resolve_right fun he => hu (eq_of_beq he)
    rw [← Char.toNat_val]
    rcases Bool.or_eq_true_iff.mp (show (c.isUpper || c.isLower) = true from hletter) with
      hupper | hlower
    · have hrange : c.val ≥ 'A'.val ∧ c.val ≤ 'Z'.val := of_decide_eq_true hupper
      exact ⟨UInt32.le_iff_toNat_le.mp hrange.1,
        Nat.le_trans (UInt32.le_iff_toNat_le.mp hrange.2) (by decide)⟩
    · have hrange : (decide (c.val ≥ 'a'.val) && decide (c.val ≤ 'z'.val)) = true := hlower
      obtain ⟨hfirst, hlast⟩ := Bool.and_eq_true_iff.mp hrange
      exact ⟨Nat.le_trans (by decide) (UInt32.le_iff_toNat_le.mp (of_decide_eq_true hfirst)),
        UInt32.le_iff_toNat_le.mp (of_decide_eq_true hlast)⟩

theorem mark_bounds : ∀ kind ∈ marks, ∀ c ∈ kind.spelling.toList,
    33 ≤ c.toNat ∧ c.toNat ≤ 126 := by
  have hall : marks.all (fun kind => kind.spelling.toList.all fun c =>
      decide (33 ≤ c.toNat ∧ c.toNat ≤ 126)) = true := by
    rfl
  intro kind hk c hc
  exact of_decide_eq_true (List.all_eq_true.mp (List.all_eq_true.mp hall kind hk) c hc)

/-- Only strings hold blanks. -/
theorem Lexeme.string_of_blank {kind : Kind} {lexeme rest : List Char}
    (h : Lexeme kind lexeme rest) {c : Char} (hc : c ∈ lexeme) (hblank : Text.isBlank c = true) :
    kind = .string := by
  have hbounds := isBlank_bounds hblank
  cases h with
  | mark hk =>
    have := mark_bounds kind hk c hc
    omega
  | keyword hk =>
    have := isNameChar_bounds (isNameChar_keyword kind hk c hc)
    omega
  | name _ hword =>
    have := isNameChar_bounds (hword c hc)
    omega
  | number _ hd =>
    have := (Decimal.plain_digits hd).bounds hc
    omega
  | fraction _ hw _ hd =>
    have := (Decimal.plain_fraction hw hd).bounds hc
    omega
  | string => rfl
  | unclosed => rfl

/-- Strings begin with a quote, and end with the next one or with the source. -/
theorem Lexeme.of_string {lexeme rest : List Char} (h : Lexeme .string lexeme rest) :
    ∃ text, (∀ c ∈ text, c ≠ '"') ∧
      (lexeme = '"' :: (text ++ ['"']) ∨ lexeme = '"' :: text ∧ rest = []) := by
  cases h with
  | mark hk => exact absurd hk (by decide)
  | keyword hk => exact absurd hk (by decide)
  | string htext => exact ⟨_, htext, .inl rfl⟩
  | unclosed htext => exact ⟨_, htext, .inr ⟨rfl, rfl⟩⟩

theorem Token.isClosed_of_open {t : Token} (h : '"' ∉ t.text.toList.tail) : t.isClosed = false := by
  refine Bool.eq_false_iff.mpr fun hclosed => h ?_
  obtain ⟨hlen, hlast⟩ := Bool.and_eq_true_iff.mp hclosed
  obtain ⟨init, hinit⟩ := List.getLast?_eq_some_iff.mp (eq_of_beq hlast)
  rw [hinit] at hlen ⊢
  cases init with
  | nil => exact absurd hlen (by decide)
  | cons c init => exact List.mem_append_right init List.mem_cons_self

theorem Token.isClosed_of_closed {t : Token} {text : List Char}
    (ht : t.text.toList = '"' :: (text ++ ['"'])) : t.isClosed = true := by
  rw [Token.isClosed, ht, ← List.cons_append, List.getLast?_concat]
  simp

/-- Only strings begin with a quote. -/
theorem Lexeme.string_of_quote {kind : Kind} {lexeme rest : List Char}
    (h : Lexeme kind ('"' :: lexeme) rest) : kind = .string := by
  generalize hl : '"' :: lexeme = whole at h
  have hmem : '"' ∈ whole := by
    rw [← hl]
    exact List.mem_cons_self
  cases h with
  | mark hk =>
    have hquote : ∀ kind ∈ marks, '"' ∉ kind.spelling.toList := by decide
    exact absurd hmem (hquote kind hk)
  | keyword hk => exact absurd (isNameChar_keyword kind hk _ hmem) (by decide)
  | name _ hword => exact absurd (hword _ hmem) (by decide)
  | number _ hd => exact absurd (hd _ hmem) (by decide)
  | fraction _ hw _ hd =>
    rcases Decimal.plain_fraction hw hd _ hmem with hd | hd
    · exact absurd hd (by decide)
    · exact absurd hd (by decide)
  | string => rfl
  | unclosed => rfl

/-- A string ends at its second quote. -/
theorem Lexeme.string_ends {text more rest : List Char} (htext : ∀ c ∈ text, c ≠ '"')
    (h : Lexeme .string ('"' :: (text ++ '"' :: more)) rest) : more = [] := by
  have hrun := Item.stringRest_string htext more
  obtain ⟨other, hother, he | ⟨he, -⟩⟩ := h.of_string
  · have he : text ++ '"' :: more = other ++ ['"'] := (List.cons.inj he).2
    have hlen := congrArg List.length he
    rw [he, Item.stringRest_string hother] at hrun
    simp only [List.length_append, List.length_cons, List.length_nil] at hlen
    exact List.length_eq_zero_iff.mp (by omega)
  · have he : text ++ '"' :: more = other := (List.cons.inj he).2
    have hlen := congrArg List.length he
    rw [he, Item.stringRest_unclosed hother] at hrun
    simp only [List.length_append, List.length_cons] at hlen
    exact List.length_eq_zero_iff.mp (by omega)

/-- A string that lacks its second quote has nothing behind it. -/
theorem Lexeme.rest_eq_nil {text rest : List Char} (htext : ∀ c ∈ text, c ≠ '"')
    (h : Lexeme .string ('"' :: text) rest) : rest = [] := by
  obtain ⟨other, -, he | ⟨-, hrest⟩⟩ := h.of_string
  · obtain rfl := (List.cons.inj he).2
    exact absurd rfl (htext '"' (List.mem_append_right _ List.mem_cons_self))
  · exact hrest

/-! ### Lexemes before blanks -/

/-- Nothing but a string that is not closed depends on what stands behind it. -/
theorem Lexeme.anywhere {kind : Kind} {lexeme rest behind : List Char}
    (h : Lexeme kind lexeme rest)
    (hopen : ∀ text, kind = .string → lexeme = '"' :: text → (∀ c ∈ text, c ≠ '"') → behind = []) :
    Lexeme kind lexeme behind := by
  cases h with
  | mark hk => exact .mark hk
  | keyword hk => exact .keyword hk
  | name hne hword hno => exact .name hne hword hno
  | number hne hd => exact .number hne hd
  | fraction hne hw hne' hd => exact .fraction hne hw hne' hd
  | string htext => exact .string htext
  | unclosed htext =>
    rw [hopen _ rfl rfl htext]
    exact .unclosed htext

/-- Where a blank stands behind it, or nothing, a lexeme is still the longest. -/
theorem LongestLexeme.respaced {kind : Kind} {lexeme rest behind : List Char}
    (h : LongestLexeme kind lexeme rest) (hblank : BlankFirst behind)
    (hopen : ∀ text, kind = .string → lexeme = '"' :: text → (∀ c ∈ text, c ≠ '"') → behind = []) :
    LongestLexeme kind lexeme behind := by
  cases h with
  | known h _ =>
    refine .known (h.anywhere hopen) fun other more left he hmore => ?_
    rcases List.append_eq_append_iff.mp he with ⟨extra, rfl, _⟩ | ⟨extra, rfl, rfl⟩
    · rw [List.length_append]
      omega
    cases extra with
    | nil => rw [List.append_nil]
    | cons b extra =>
      -- the other lexeme holds the blank, so that both are strings
      obtain ⟨d, lexeme, rfl⟩ := List.exists_cons_of_ne_nil h.ne_nil
      obtain rfl := hmore.string_of_blank (List.mem_append_right _ List.mem_cons_self)
        (hblank b rfl)
      obtain rfl : d = '"' := by
        obtain ⟨text, -, he | ⟨he, -⟩⟩ := hmore.of_string <;> exact (List.cons.inj he).1
      obtain rfl := h.string_of_quote
      obtain ⟨text, htext, he | ⟨he, -⟩⟩ := h.of_string
      · obtain rfl := (List.cons.inj he).2
        rw [List.cons_append, List.append_assoc] at hmore
        exact absurd (hmore.string_ends htext) (List.cons_ne_nil _ _)
      · exact absurd (hopen text rfl he htext) (List.cons_ne_nil _ _)
  | @unknown c rest hno =>
    have hc : c ≠ '"' := by
      intro hc
      subst hc
      exact hno _ _ _ (by simp) (lexeme_string rest)
    refine .unknown fun other more left he hmore => ?_
    obtain ⟨d, more, rfl⟩ := List.exists_cons_of_ne_nil hmore.ne_nil
    obtain ⟨rfl, rfl⟩ := List.cons.inj he
    have hstring : other ≠ .string := by
      intro hstring
      subst hstring
      obtain ⟨text, -, he | ⟨he, -⟩⟩ := hmore.of_string <;> exact hc (List.cons.inj he).1
    cases more with
    | nil => exact hno _ _ _ rfl (hmore.anywhere fun _ hk => absurd hk hstring)
    | cons b more =>
      exact hstring (hmore.string_of_blank (List.mem_cons_of_mem _ List.mem_cons_self)
        (hblank b rfl))

theorem Clear.respaced {lexeme rest behind : List Char} (h : Clear (lexeme ++ rest))
    (hne : lexeme ≠ []) (hblank : BlankFirst behind) : Clear (lexeme ++ behind) := by
  intro c tail he
  obtain ⟨d, lexeme, rfl⟩ := List.exists_cons_of_ne_nil hne
  obtain ⟨rfl, rfl⟩ := List.cons.inj he
  have hitem := h d (lexeme ++ rest) rfl
  have hnot (n : Nat) : Item.itemAt d (lexeme ++ rest) ≠ .gap n := by
    rw [hitem]
    exact lexemeAt_ne_gap _ _ n
  have hnotBlank : ¬ Text.isBlank d = true := fun hb => hnot 0 (itemAt_blank hb _)
  have hslash : ¬ (d = '/' ∧ (lexeme ++ behind).head? = some '/') := by
    intro ⟨hd, hhead⟩
    subst hd
    cases lexeme with
    | nil => exact absurd (hblank '/' hhead) (by decide)
    | cons e lexeme =>
      refine hnot (Item.run (· ≠ '\n') (e :: lexeme ++ rest)) ?_
      rw [Item.itemAt, if_neg hnotBlank, if_pos ⟨rfl, hhead⟩]
  exact (if_neg hnotBlank).trans (if_neg hslash)

/-! ### Whole sources -/

/-- Two tokens of the same kind and text, wherever they stand. -/
def Token.Alike (t u : Token) : Prop :=
  u.kind = t.kind ∧ u.text = t.text

theorem isUnterminated_of_unclosed {t : Token} {text : List Char} (hk : t.kind = .string)
    (ht : t.text.toList = '"' :: text) (htext : ∀ c ∈ text, c ≠ '"') :
    t.isUnterminated = true := by
  have hopen : '"' ∉ t.text.toList.tail := by
    rw [ht]
    exact fun hmem => htext '"' hmem rfl
  rw [Token.isUnterminated, hk, Token.isClosed_of_open hopen]
  rfl

/-- A source that is spread out is cut into tokens that are alike. -/
theorem Splits.spread {position : Nat} {source : List Char} {ts : List Token}
    (h : Splits position source ts) {other : List Char} (hs : Spread ts other) {gap : List Char}
    (hgap : Spacing gap) (start : Nat) :
    ∃ us, Splits start (gap ++ other) us ∧ List.Forall₂ Token.Alike ts us := by
  induction h generalizing other gap start with
  | last =>
    cases hs
    refine ⟨[], ?_, .nil⟩
    rw [List.append_nil]
    refine .last (.of_clear (hgap.gap []) ?_)
    exact fun c tail he => by cases he
  | @next position before kind lexeme rest ts hbefore hlexeme hsplits ih =>
    generalize htoken : (⟨kind, _, _, String.ofList lexeme⟩ : Token) = t at hs
    have htext : t.text.toList = lexeme := by rw [← htoken, String.toList_ofList]
    have hkind : t.kind = kind := by rw [← htoken]
    cases hs with
    | @cons _ more _ rest' hmore hblank hmid hend hrest =>
      rw [htext]
      have hempty : more = [] → rest' = [] := by
        intro hnil
        cases ts with
        | nil => cases hrest; rfl
        | cons u ts => exact absurd hnil (hmid (List.cons_ne_nil u ts))
      have hbehind : BlankFirst (more ++ rest') := by
        cases more with
        | nil =>
          rw [hempty rfl]
          exact fun c hc => by cases hc
        | cons d more => exact hblank
      have hopen : ∀ text, kind = .string → lexeme = '"' :: text → (∀ c ∈ text, c ≠ '"') →
          more ++ rest' = [] := by
        intro text hstring hquote hno
        have hunterminated := isUnterminated_of_unclosed (hkind.trans hstring)
          (htext.trans hquote) hno
        subst hstring hquote
        cases hlexeme with
        | known h =>
          obtain rfl := h.rest_eq_nil hno
          obtain rfl : ts = [] := hsplits.eq_tokensFrom
          have hnil := hend rfl hunterminated
          rw [hnil, hempty hnil, List.nil_append]
      have hlongest := hlexeme.respaced hbehind hopen
      have hclear := hbefore.clear.respaced hlexeme.ne_nil hbehind
      obtain ⟨us, hus, halike⟩ := ih hrest hmore (start + gap.length + lexeme.length)
      exact ⟨_, .next (.of_clear (hgap.gap _) hclear) hlongest hus,
        .cons ⟨hkind.symm, by rw [← htoken]⟩ halike⟩

end Scriptlet
